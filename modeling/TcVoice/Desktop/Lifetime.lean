import TcVoice.Desktop.HangUp

/-!
# The lifetime of a call

When the voice actor has a call, and when it opens one again: over every sequence of commands,
with any outcomes of starting the pipeline.

* `Actor.step` — one step of the actor.
* `Actor.Opens` — a step that opens the pipeline of the call: whether there is a call after it is
  up to how that goes.
* `Does` — what a step can do to the call; `Actor.does` says that it does nothing else.
* `LastStart` — a run whose last start has not been stopped.
* `lifetime` — **a call is that of the last start, and none comes back after a stop**; a pipeline
  that has not started is opened again by snapshots only, and not before the interval is over.
-/

namespace TcVoice
namespace Desktop

open Runs

/-! ## Steps of the actor -/

/-- A `Start`. -/
def ActorEvent.isStart : ActorEvent → Bool
  | .recv cmd _ => cmd.isStart
  | _ => false

/-- A `Stop`. -/
def ActorEvent.isStop : ActorEvent → Bool
  | .recv .stop _ => true
  | _ => false

/-- The same step, where the start of a pipeline would go in such a way. -/
def ActorEvent.answering (res : Except String Unit) : ActorEvent → ActorEvent
  | .recv cmd a => .recv cmd { a with start := res }
  | .finish a => .finish { a with start := res }
  | .streamFailed kind => .streamFailed kind

@[simp] theorem isStart_answering (res : Except String Unit) (e : ActorEvent) :
    (e.answering res).isStart = e.isStart := by
  cases e <;> rfl

namespace Actor

/-- One step, if it can happen. -/
def step (act : Actor) : ActorEvent → Option Actor
  | .recv cmd a => if act.ticking then none else some (act.recv a cmd).1
  | .finish a => if act.ticking then some (act.finish a).1 else none
  | .streamFailed kind => some (act.streamFailed kind)

/-- What the call was started with, if there is one. -/
def call (act : Actor) : Option StartParams := act.handle.map VoiceHandle.params

/-- A step opens the pipeline of the call: whether there is a call after it is up to whether the
pipeline starts. -/
def Opens (act : Actor) (e : ActorEvent) : Prop :=
  ∀ res, ∃ act', act.step (e.answering res) = some act' ∧ act'.handle.isSome = res.isOk

end Actor

/-! ## What a pass keeps -/

/-- What a rebuild keeps of a call, every attempt on a device keeps. -/
theorem Attempts.kept {α : Type} {f : VoiceHandle → α}
    (hf : ∀ h kind device res, f (h.rebuild kind device res) = f h) {s s' : Supervised}
    (h : Attempts s s') : s'.2.map f = s.2.map f := by
  induction h with
  | refl s => rfl
  | trans _ _ ih₁ ih₂ => exact ih₂.trans ih₁
  | of_sup hdesired => rfl
  | rebuild res hdesired hdevice => exact congrArg some (hf _ _ _ res)

/-- **A supervision pass does not change what the call was started with.** -/
theorem params_tick (a : Answers) (s : Supervised) :
    (tick a s).2.map VoiceHandle.params = s.2.map VoiceHandle.params :=
  (attempts_tick s).kept fun _ _ _ _ => rfl

/-! ## What a step does -/

/-- What a step does to the call: it starts one, stops it, opens the pipeline again, or leaves it
as it is. -/
inductive Does (act act' : Actor) : ActorEvent → Prop where
  | start (p : StartParams) (a : Answers) (hparams : act'.lastParams = some p)
      (hcall : act'.call = if a.start.isOk then some p else none)
      (hrestart : act'.lastRestart = none) : Does act act' (.recv (.start p) a)
  | stop (a : Answers) (hparams : act'.lastParams = none) (hcall : act'.call = none) :
      Does act act' (.recv .stop a)
  | reopen (a : Answers) (hdue : act.restartDue a = true)
      (hparams : act'.lastParams = act.lastParams)
      (hcall : act'.call = if a.start.isOk then act.lastParams else none)
      (hrestart : act'.lastRestart = some a.now) : Does act act' (.recv .snapshot a)
  | other (e : ActorEvent) (hstart : e.isStart = false) (hstop : e.isStop = false)
      (hdue : ∀ a, e = .recv .snapshot a → act.restartDue a = false)
      (hparams : act'.lastParams = act.lastParams) (hcall : act'.call = act.call)
      (hrestart : act'.lastRestart = act.lastRestart) : Does act act' e

namespace Actor

variable {act act' : Actor} {e : ActorEvent} {a : Answers}

theorem call_isSome : act.call.isSome = act.handle.isSome := Option.isSome_map

theorem map_params_startFrom (p : StartParams) :
    (startFrom p a).toOption.map VoiceHandle.params = if a.start.isOk then some p else none := by
  unfold startFrom
  cases a.start <;> rfl

theorem does_start (p : StartParams) : Does act (act.start a p).1 (.recv (.start p) a) := by
  have hopened := map_params_startFrom (a := a) p
  unfold start
  dsimp only
  cases hstart : startFrom p a with
  | ok h =>
    rw [hstart] at hopened
    exact .start p a rfl hopened rfl
  | error e =>
    rw [hstart] at hopened
    exact .start p a rfl hopened rfl

theorem does_snapshot :
    Does act { act.restart a with ticking := true } (.recv .snapshot a) := by
  unfold restart
  cases hparams : act.lastParams with
  | none =>
    refine .other _ rfl rfl (fun a' _ => ?_) rfl rfl rfl
    unfold restartDue
    rw [hparams, Option.isSome_none, Bool.and_false, Bool.false_and]
  | some p =>
    dsimp only
    split
    · rename_i hdue
      refine .reopen a hdue hparams.symm ?_ rfl
      rw [hparams]
      exact map_params_startFrom p
    · rename_i hdue
      refine .other _ rfl rfl (fun a' ha' => ?_) rfl rfl rfl
      cases ha'
      exact Bool.eq_false_iff.2 hdue

theorem does_echoStart (p : StartParams) :
    Does act (act.echoStart a p).1 (.recv (.echoStart p) a) := by
  unfold echoStart
  split <;> exact .other _ rfl rfl nofun rfl rfl rfl

/-- A rebuild or a failure of the streams of the call. -/
theorem call_map {f : VoiceHandle → VoiceHandle} (hf : ∀ h, (f h).params = h.params) :
    (act.handle.map f).map VoiceHandle.params = act.call := by
  rw [Option.map_map]
  exact congrArg act.handle.map (funext hf)

theorem does_setDevice (kind : Kind) (name : Option String) (hstart : e.isStart = false)
    (hstop : e.isStop = false) (hother : ∀ a, e ≠ .recv .snapshot a) :
    Does act (act.setDevice a kind name) e :=
  .other e hstart hstop (fun a he => absurd he (hother a)) rfl (call_map fun _ => rfl) rfl

/-- **What a step does.** -/
theorem does (hs : act.step e = some act') : Does act act' e := by
  cases e with
  | recv cmd a =>
    unfold step at hs
    dsimp only at hs
    split at hs
    · cases hs
    · cases hs
      cases cmd with
      | start p => exact does_start p
      | stop => exact .stop a rfl rfl
      | snapshot => exact does_snapshot
      | setInputDevice name => exact does_setDevice .input name rfl rfl nofun
      | setOutputDevice name => exact does_setDevice .output name rfl rfl nofun
      | echoStart p => exact does_echoStart p
      | echoStop => exact .other _ rfl rfl nofun rfl rfl rfl
  | finish a =>
    unfold step at hs
    dsimp only at hs
    split at hs
    · cases hs
      exact .other _ rfl rfl nofun rfl (params_tick a (act.sup, act.handle)) rfl
    · cases hs
  | streamFailed kind =>
    cases hs
    exact .other _ rfl rfl nofun rfl (call_map fun _ => rfl) rfl

/-- A command is taken only when no snapshot is still to be finished. -/
theorem ticking_of_step {cmd : Cmd} (hs : act.step (.recv cmd a) = some act') :
    act.ticking = false := by
  unfold step at hs
  dsimp only at hs
  split at hs
  · cases hs
  · rename_i hticking
    exact Bool.eq_false_iff.2 hticking

/-- **Only a due snapshot opens a pipeline again**, a start apart. -/
theorem Opens.snapshot (h : act.Opens e) (hstart : e.isStart = false) :
    ∃ a, e = .recv .snapshot a ∧ act.ticking = false ∧ act.restartDue a = true := by
  obtain ⟨up, hup, hsome⟩ := h (.ok ())
  obtain ⟨down, hdown, hnone⟩ := h (.error "")
  rw [← call_isSome] at hsome hnone
  generalize he : e.answering (.ok ()) = e₁ at hup
  cases does hup with
  | start p a hparams hcall hrestart =>
    rw [← isStart_answering (.ok ()), he] at hstart
    cases hstart
  | stop a hparams hcall =>
    rw [hcall] at hsome
    cases hsome
  | reopen a hdue hparams hcall hrestart =>
    cases e with
    | recv cmd a' =>
      obtain ⟨rfl, rfl⟩ := ActorEvent.recv.inj he
      exact ⟨a', rfl, ticking_of_step hup, hdue⟩
    | finish a' => cases he
    | streamFailed kind => cases he
  | other e₁ hstart₁ hstop₁ hdue₁ hparams hcall hrestart =>
    -- there is a call already, and a pipeline that does not start leaves it
    rw [hcall] at hsome
    generalize he' : e.answering (.error "") = e₂ at hdown
    cases does hdown with
    | start p a hparams' hcall' hrestart' =>
      rw [← isStart_answering (.error ""), he'] at hstart
      cases hstart
    | stop a hparams' hcall' =>
      cases e with
      | recv cmd a' =>
        obtain ⟨rfl, -⟩ := ActorEvent.recv.inj he'
        rw [← he] at hstop₁
        cases hstop₁
      | finish a' => cases he'
      | streamFailed kind => cases he'
    | reopen a hdue hparams' hcall' hrestart' =>
      unfold restartDue at hdue
      simp only [Bool.and_eq_true] at hdue
      rw [call_isSome, ← Option.not_isNone, hdue.1.1.1] at hsome
      cases hsome
    | other e₂ hstart₂ hstop₂ hdue₂ hparams' hcall' hrestart' =>
      rw [hcall', hsome] at hnone
      cases hnone

/-- What a due snapshot finds. -/
theorem of_restartDue (h : act.restartDue a = true) :
    act.call = none ∧ act.echoHandle = none ∧ (∃ p, act.lastParams = some p) ∧
      a.elapsed Config.voiceRestartMinIntervalMs act.lastRestart = true := by
  unfold restartDue at h
  simp only [Bool.and_eq_true, Option.isNone_iff_eq_none, Option.isSome_iff_exists] at h
  obtain ⟨⟨⟨hhandle, hecho⟩, hparams⟩, helapsed⟩ := h
  refine ⟨?_, hecho, hparams, helapsed⟩
  unfold call
  rw [hhandle, Option.map_none]

/-- A due snapshot opens the pipeline again. -/
theorem opens_snapshot (hticking : act.ticking = false) (hdue : act.restartDue a = true) :
    act.Opens (.recv .snapshot a) := by
  intro res
  obtain ⟨-, -, ⟨p, hp⟩, -⟩ := of_restartDue hdue
  refine ⟨_, if_neg (Bool.eq_false_iff.1 hticking), ?_⟩
  show (act.restart { a with start := res }).handle.isSome = res.isOk
  have hdue' : act.restartDue { a with start := res } = true := hdue
  unfold restart
  rw [hp]
  dsimp only
  rw [if_pos hdue']
  cases res <;> rfl

/-- What lies an interval back, lies before it. -/
theorem le_of_elapsed {interval t : ℕ} (hpos : 0 < interval)
    (h : a.elapsed interval (some t) = true) : t + interval ≤ a.now := by
  have hwait : interval ≤ a.now - t := of_decide_eq_true h
  omega

theorem restartInterval_pos : 0 < Config.voiceRestartMinIntervalMs := by decide

/-! ## From the last start on -/

section Since

variable {es : List ActorEvent}

/-- Nothing is started or stopped. -/
def Quiet (e : ActorEvent) : Prop := e.isStart = false ∧ e.isStop = false

/-- Without a start nothing comes of a stopped call. -/
theorem stopped_runFrom (hes : ∀ e ∈ es, e.isStart = false) (hrun : runFrom step act es = some act')
    (hparams : act.lastParams = none) (hcall : act.call = none) :
    act'.lastParams = none ∧ act'.call = none := by
  refine inv_runFrom (fun act => act.lastParams = none ∧ act.call = none) ?_ ⟨hparams, hcall⟩
    (eachStep_of_forall hes) hrun
  rintro act e act' ⟨hparams, hcall⟩ hstart hs
  cases does hs with
  | start p a _ _ _ => cases hstart
  | stop a hparams' hcall' => exact ⟨hparams', hcall'⟩
  | reopen a hdue _ _ _ =>
    obtain ⟨p, hp⟩ := (of_restartDue hdue).2.2.1
    rw [hparams] at hp
    cases hp
  | other e _ _ _ hparams' hcall' _ => exact ⟨hparams'.trans hparams, hcall'.trans hcall⟩

/-- Between a start and a stop, the call is the one that was started, if there is one. -/
theorem called_runFrom {p : StartParams} (hes : ∀ e ∈ es, Quiet e)
    (hrun : runFrom step act es = some act') (hparams : act.lastParams = some p)
    (hcall : act.call = none ∨ act.call = some p) :
    act'.lastParams = some p ∧ (act'.call = none ∨ act'.call = some p) := by
  refine inv_runFrom (fun act => act.lastParams = some p ∧ (act.call = none ∨ act.call = some p))
    ?_ ⟨hparams, hcall⟩ (eachStep_of_forall hes) hrun
  rintro act e act' ⟨hparams, hcall⟩ ⟨hstart, hstop⟩ hs
  cases does hs with
  | start p a _ _ _ => cases hstart
  | stop a _ _ => cases hstop
  | reopen a hdue hparams' hcall' _ =>
    refine ⟨hparams'.trans hparams, ?_⟩
    rw [hcall', hparams]
    split
    · exact .inr rfl
    · exact .inl rfl
  | other e _ _ _ hparams' hcall' _ =>
    rw [hparams', hcall']
    exact ⟨hparams, hcall⟩

/-- A step that opens the pipeline has failed to, a whole interval before a time. -/
def FailedBefore (now : ℕ) (act : Actor) (e : ActorEvent) : Prop :=
  act.Opens e → ∃ a, e = .recv .snapshot a ∧ a.start.isOk = false ∧
    a.now + Config.voiceRestartMinIntervalMs ≤ now

/-- As long as nothing is stopped, a call stays. -/
theorem call_stays (hquiet : Quiet e) (hs : act.step e = some act') (hnone : act'.call = none) :
    act.call = none := by
  cases does hs with
  | start p a _ _ _ => cases hquiet.1
  | stop a _ _ => cases hquiet.2
  | reopen a hdue _ _ _ => exact (of_restartDue hdue).1
  | other e _ _ _ _ hcall _ => exact hcall.symm.trans hnone

/-- The last attempt was not before a time. -/
theorem lastRestart_runFrom {now : ℕ} (hes : ∀ e ∈ es, Quiet e)
    (hrun : runFrom step act es = some act') (hlast : ∃ t, act.lastRestart = some t ∧ now ≤ t) :
    ∃ t, act'.lastRestart = some t ∧ now ≤ t := by
  refine inv_runFrom (fun act => ∃ t, act.lastRestart = some t ∧ now ≤ t) ?_ hlast
    (eachStep_of_forall hes) hrun
  rintro act e act' ⟨t, ht, hle⟩ ⟨hstart, hstop⟩ hs
  cases does hs with
  | start p a _ _ _ => cases hstart
  | stop a _ _ => cases hstop
  | reopen a hdue _ _ hrestart =>
    have helapsed := (of_restartDue hdue).2.2.2
    rw [ht] at helapsed
    have hlong := le_of_elapsed restartInterval_pos helapsed
    exact ⟨a.now, hrestart, by omega⟩
  | other e _ _ _ _ _ hrestart => exact ⟨t, hrestart.trans ht, hle⟩

/-- **When a snapshot opens the pipeline again**, nothing has opened it since the start, and each
attempt was long enough ago: by induction on what has come since. -/
theorem failedBefore_runFrom {a : Answers} (hes : ∀ e ∈ es, Quiet e)
    (hrun : runFrom step act es = some act') (hdue : act'.restartDue a = true) :
    act.call = none ∧ EachStep step (FailedBefore a.now) act es := by
  induction es generalizing act with
  | nil =>
    cases hrun
    exact ⟨(of_restartDue hdue).1, trivial⟩
  | cons e es ih =>
    rw [runFrom_cons] at hrun
    obtain ⟨next, hs, hrest⟩ := Option.bind_eq_some_iff.1 hrun
    have hquiet := hes e List.mem_cons_self
    have hrestQuiet := fun e' he' => hes e' (List.mem_cons_of_mem _ he')
    obtain ⟨hnone, heach⟩ := ih hrestQuiet hrest
    refine ⟨call_stays hquiet hs hnone, (eachStep_cons hs).2 ⟨fun hopens => ?_, heach⟩⟩
    obtain ⟨a', rfl, -, hdue'⟩ := hopens.snapshot hquiet.1
    obtain ⟨p, hp⟩ := (of_restartDue hdue').2.2.1
    cases does hs with
    | reopen a' _ hparams hcall hrestart =>
      obtain ⟨t, ht, hle⟩ := lastRestart_runFrom hrestQuiet hrest ⟨a'.now, hrestart, le_rfl⟩
      refine ⟨a', rfl, ?_, ?_⟩
      · rw [hnone, hp] at hcall
        refine Bool.eq_false_iff.2 fun hok => ?_
        rw [if_pos hok] at hcall
        cases hcall
      · have helapsed := (of_restartDue hdue).2.2.2
        rw [ht] at helapsed
        have hlong := le_of_elapsed restartInterval_pos helapsed
        omega
    | other _ _ _ hnot _ _ _ =>
      rw [hnot a' rfl] at hdue'
      cases hdue'

/-- A snapshot of a part of a run has opened the pipeline. -/
def ReopenedIn (act : Actor) (es : List ActorEvent) : Prop :=
  ∃ before a after mid, es = before ++ .recv .snapshot a :: after ∧
    runFrom step act before = some mid ∧ mid.Opens (.recv .snapshot a) ∧ a.start.isOk = true

/-- **What has no call and comes to one** has opened it, by induction on what has come since. -/
theorem reopenedIn_of_call (hes : ∀ e ∈ es, Quiet e) (hrun : runFrom step act es = some act')
    (hnone : act.call = none) (hsome : act'.call.isSome = true) : act.ReopenedIn es := by
  induction es generalizing act with
  | nil =>
    cases hrun
    rw [hnone] at hsome
    cases hsome
  | cons e es ih =>
    rw [runFrom_cons] at hrun
    obtain ⟨next, hs, hrest⟩ := Option.bind_eq_some_iff.1 hrun
    obtain ⟨hstart, hstop⟩ := hes e List.mem_cons_self
    have hlater : next.call = none → act.ReopenedIn (e :: es) := by
      intro hnext
      obtain ⟨before, a, after, mid, hsplit, hbefore, hopened⟩ :=
        ih (fun e' he' => hes e' (List.mem_cons_of_mem _ he')) hrest hnext
      refine ⟨e :: before, a, after, mid, by rw [hsplit, List.cons_append], ?_, hopened⟩
      rw [runFrom_cons, hs, Option.bind_some]
      exact hbefore
    cases does hs with
    | start p a _ _ _ => cases hstart
    | stop a _ _ => cases hstop
    | reopen a hdue _ hcall _ =>
      by_cases hok : a.start.isOk = true
      · exact ⟨[], a, es, act, rfl, rfl, opens_snapshot (ticking_of_step hs) hdue, hok⟩
      · rw [if_neg hok] at hcall
        exact hlater hcall
    | other e _ _ _ _ hcall _ => exact hlater (hcall.trans hnone)

/-- Where each attempt was long enough ago, the last one was. -/
theorem elapsed_runFrom {a : Answers} (hes : ∀ e ∈ es, Quiet e)
    (hrun : runFrom step act es = some act') (hnone : act.lastRestart = none)
    (heach : EachStep step (FailedBefore a.now) act es) :
    a.elapsed Config.voiceRestartMinIntervalMs act'.lastRestart = true := by
  have hadm : EachStep step (fun act e => Quiet e ∧ FailedBefore a.now act e) act es :=
    eachStep_and.2 ⟨eachStep_of_forall hes, heach⟩
  have hlast : ∀ t, act'.lastRestart = some t → t + Config.voiceRestartMinIntervalMs ≤ a.now := by
    refine inv_runFrom
      (fun act => ∀ t, act.lastRestart = some t → t + Config.voiceRestartMinIntervalMs ≤ a.now)
      ?_ (fun t ht => ?_) hadm hrun
    · rintro act e act' hle ⟨⟨hstart, hstop⟩, hfailed⟩ hs
      cases does hs with
      | start p a _ _ _ => cases hstart
      | stop a _ _ => cases hstop
      | reopen a' hdue _ _ hrestart =>
        intro t ht
        obtain ⟨a'', ha, -, hlong⟩ := hfailed (opens_snapshot (ticking_of_step hs) hdue)
        cases ha
        cases hrestart.symm.trans ht
        exact hlong
      | other e _ _ _ _ _ hrestart => exact fun t ht => hle t (hrestart.symm.trans ht)
    · rw [hnone] at ht
      cases ht
  unfold Answers.elapsed
  cases hsince : act'.lastRestart with
  | none => rfl
  | some t =>
    have hle := hlast t hsince
    have hwait : Config.voiceRestartMinIntervalMs ≤ a.now - t := by omega
    exact decide_eq_true hwait

end Since

end Actor

/-! ## Whole runs -/

/-- A run ends with a start of the call, and what has come since: neither a start nor a stop. -/
structure LastStart (es : List ActorEvent) (p : StartParams) (a : Answers)
    (since : List ActorEvent) (started : Actor) : Prop where
  run : ∃ before, es = before ++ .recv (.start p) a :: since ∧
    runFrom Actor.step .init (before ++ [.recv (.start p) a]) = some started
  quiet : ∀ e ∈ since, Actor.Quiet e

/-- What is to hold of the actor after a run. -/
structure Lifetime (es : List ActorEvent) (act : Actor) : Prop where
  /-- A call is that of the last start, which there has been no stop since, and has been opened by
  it or by a snapshot since. -/
  started : ∀ h, act.handle = some h → ∃ a since at', LastStart es h.params a since at' ∧
    (a.start.isOk = true ∨ at'.ReopenedIn since)
  /-- After a stop there is no call until the next start. -/
  stopped : ∀ before a since, es = before ++ .recv .stop a :: since →
    (∀ e ∈ since, e.isStart = false) → act.handle = none
  /-- What opens the pipeline next, a start apart, is a snapshot, exactly when there is no sound
  check, the last start has not been stopped, it has failed, and so has each attempt since, long
  enough ago. -/
  reopened : ∀ e, e.isStart = false → (act.Opens e ↔
    ∃ a, e = .recv .snapshot a ∧ act.ticking = false ∧ act.handle = none ∧
      act.echoHandle = none ∧ ∃ p a' since at', LastStart es p a' since at' ∧
        a'.start.isOk = false ∧ EachStep Actor.step (Actor.FailedBefore a.now) at' since)

section Run

variable {es since : List ActorEvent} {act at' : Actor} {p : StartParams} {a : Answers}

theorem LastStart.next (h : LastStart es p a since at') {e : ActorEvent} (he : Actor.Quiet e) :
    LastStart (es ++ [e]) p a (since ++ [e]) at' where
  run := by
    obtain ⟨before, hes, hrun⟩ := h.run
    refine ⟨before, ?_, hrun⟩
    rw [hes, List.append_assoc, List.cons_append]
  quiet e' he' := by
    rcases List.mem_append.1 he' with hsince | hlast
    · exact h.quiet e' hsince
    · rw [List.mem_singleton.1 hlast]
      exact he

/-- What the last start has left. -/
theorem LastStart.spec (h : LastStart es p a since at')
    (hrun : runFrom Actor.step .init es = some act) :
    runFrom Actor.step at' since = some act ∧ at'.lastParams = some p ∧ at'.lastRestart = none ∧
      at'.call = if a.start.isOk then some p else none := by
  obtain ⟨before, hes, hstarted⟩ := h.run
  have hsince : runFrom Actor.step at' since = some act := by
    rw [hes, ← List.singleton_append, ← List.append_assoc, runFrom_append, hstarted] at hrun
    exact hrun
  rw [runFrom_append] at hstarted
  obtain ⟨mid, -, hlast⟩ := Option.bind_eq_some_iff.1 hstarted
  obtain ⟨next, hs, hnext⟩ := Option.bind_eq_some_iff.1 hlast
  cases hnext
  cases Actor.does hs with
  | start p a hparams hcall hrestart => exact ⟨hsince, hparams, hrestart, hcall⟩
  | other _ hstart _ _ _ _ _ => cases hstart

/-- The call is the one that was started last, if there is one. -/
theorem LastStart.called (h : LastStart es p a since at')
    (hrun : runFrom Actor.step .init es = some act) :
    act.lastParams = some p ∧ (act.call = none ∨ act.call = some p) := by
  obtain ⟨hsince, hp, -, hup⟩ := h.spec hrun
  refine Actor.called_runFrom h.quiet hsince hp ?_
  rw [hup]
  split
  · exact .inr rfl
  · exact .inl rfl

/-- **A run has ended with a stop, or with a start that has not been stopped**, by induction on
the run from its end. -/
theorem stopped_or_lastStart (hrun : runFrom Actor.step .init es = some act) :
    (act.lastParams = none ∧ act.call = none) ∨
      ∃ p a since at', LastStart es p a since at' := by
  induction es using List.reverseRecOn generalizing act with
  | nil =>
    cases hrun
    exact .inl ⟨rfl, rfl⟩
  | append_singleton es e ih =>
    have hwhole := hrun
    rw [runFrom_append] at hrun
    obtain ⟨before, hbefore, hlast⟩ := Option.bind_eq_some_iff.1 hrun
    obtain ⟨next, hs, hnext⟩ := Option.bind_eq_some_iff.1 hlast
    cases hnext
    cases Actor.does hs with
    | start p a _ _ _ =>
      exact .inr ⟨p, a, [], act, ⟨es, rfl, hwhole⟩, nofun⟩
    | stop a hparams hcall => exact .inl ⟨hparams, hcall⟩
    | reopen a hdue _ _ _ =>
      rcases ih hbefore with ⟨hnone, -⟩ | ⟨p, a', since, at', hlast⟩
      · obtain ⟨p, hp⟩ := (Actor.of_restartDue hdue).2.2.1
        rw [hnone] at hp
        cases hp
      · exact .inr ⟨p, a', _, at', hlast.next ⟨rfl, rfl⟩⟩
    | other e hstart hstop _ hparams hcall _ =>
      rcases ih hbefore with ⟨hnone, hdown⟩ | ⟨p, a', since, at', hlast⟩
      · exact .inl ⟨hparams.trans hnone, hcall.trans hdown⟩
      · exact .inr ⟨p, a', _, at', hlast.next ⟨hstart, hstop⟩⟩

/-- **A call is that of the last start, and none comes back after a stop.**  For every sequence of
commands, with any outcomes of starting the pipeline and of opening devices: there is a call only
if the last start is more recent than the last stop, and it was opened by that start or a snapshot
since, with the channel, the token and the key of the start; no command but a start brings a call
back after a stop; and a pipeline that has not started is opened again by snapshots only, at most
once in each interval, until an attempt succeeds or the call is stopped, and never during a sound
check. -/
theorem lifetime (hrun : runFrom Actor.step .init es = some act) : Lifetime es act where
  started h hhandle := by
    have hcall : act.call = some h.params := congrArg (Option.map VoiceHandle.params) hhandle
    rcases stopped_or_lastStart hrun with ⟨-, hnone⟩ | ⟨p, a, since, at', hlast⟩
    · rw [hcall] at hnone
      cases hnone
    · rcases (hlast.called hrun).2 with hnone | hsome
      · rw [hcall] at hnone
        cases hnone
      · obtain rfl := Option.some.inj (hcall.symm.trans hsome)
        refine ⟨a, since, at', hlast, ?_⟩
        obtain ⟨hsince, -, -, hup⟩ := hlast.spec hrun
        by_cases hok : a.start.isOk = true
        · exact .inl hok
        · rw [if_neg hok] at hup
          exact .inr (Actor.reopenedIn_of_call hlast.quiet hsince hup (hcall ▸ rfl))
  stopped before a since hes hsince := by
    rw [hes, runFrom_append] at hrun
    obtain ⟨mid, -, hrest⟩ := Option.bind_eq_some_iff.1 hrun
    obtain ⟨next, hs, hafter⟩ := Option.bind_eq_some_iff.1 hrest
    cases Actor.does hs with
    | stop _ hparams hcall =>
      have hnone := (Actor.stopped_runFrom hsince hafter hparams hcall).2
      exact Option.map_eq_none_iff.1 hnone
    | other _ _ hstop _ _ _ _ => cases hstop
  reopened e hstart := by
    constructor
    · intro hopens
      obtain ⟨a, rfl, hticking, hdue⟩ := hopens.snapshot hstart
      obtain ⟨hnone, hecho, ⟨p, hp⟩, -⟩ := Actor.of_restartDue hdue
      refine ⟨a, rfl, hticking, Option.map_eq_none_iff.1 hnone, hecho, ?_⟩
      rcases stopped_or_lastStart hrun with ⟨hstopped, -⟩ | ⟨p', a', since, at', hlast⟩
      · rw [hp] at hstopped
        cases hstopped
      · obtain ⟨hsince, -, -, hup⟩ := hlast.spec hrun
        obtain ⟨hdown, heach⟩ := Actor.failedBefore_runFrom hlast.quiet hsince hdue
        refine ⟨p', a', since, at', hlast, Bool.eq_false_iff.2 fun hok => ?_, heach⟩
        rw [hdown, if_pos hok] at hup
        cases hup
    · rintro ⟨a, rfl, hticking, hnone, hecho, p, a', since, at', hlast, -, heach⟩
      obtain ⟨hsince, -, hrestart, -⟩ := hlast.spec hrun
      refine Actor.opens_snapshot hticking ?_
      unfold Actor.restartDue
      rw [hnone, hecho, (hlast.called hrun).1,
        Actor.elapsed_runFrom hlast.quiet hsince hrestart heach]
      rfl

end Run

/-! ## A start that fails -/

/-- The call does not start, nor does it at the first snapshot; the second one opens it. -/
def startsLate : List ActorEvent :=
  [.recv (.start Chosen.room) (Chosen.answers 0 (.error "timed out")),
    .recv .snapshot (Chosen.answers 100 (.error "timed out")),
    .finish (Chosen.answers 100 (.ok ())), .recv .snapshot (Chosen.answers 2100 (.ok ()))]

/-- A call that starts late. -/
theorem lifetime_startsLate : ∃ act h, runFrom Actor.step .init startsLate = some act ∧
    act.handle = some h ∧ h.params = Chosen.room ∧ Lifetime startsLate act :=
  ⟨_, _, rfl, rfl, rfl, lifetime rfl⟩

end Desktop
end TcVoice
