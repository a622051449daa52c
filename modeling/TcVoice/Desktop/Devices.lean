import TcVoice.Desktop.VoiceActor

/-!
# The devices of a call

Whether a running call is on the devices that the user has chosen.  The choice is stored twice:
in the parameters that the pipeline is started from, and in the supervisor.

* `Chosen`, `Chosen.step` — the actor with the devices that were selected last, in any order of
  commands, with any answers of the system.
* `Moves` — what a supervision pass does to the halves of a call: nothing, or an attempt on the
  device that is wanted.
* `Chosen.right_iff` — **a live call was last tried on the selected devices throughout a run
  exactly when no snapshot restarts the pipeline from parameters with others**;
  `Chosen.stale_device` is a switch that was made while the pipeline was down.
-/

namespace TcVoice
namespace Desktop

open Runs

/-! ## What a supervision pass does -/

/-- What happens to the call in a supervision pass: what is wanted stays the same, a call stays
one, and each half was last tried on the same device as before or on the one that is wanted. -/
structure Moves (s s' : Supervised) : Prop where
  desired : s'.1.desired = s.1.desired
  kept : s'.2.isSome = s.2.isSome
  half : ∀ h h', s.2 = some h → s'.2 = some h' → ∀ kind,
    (h'.half kind).attempted = (h.half kind).attempted ∨
      (h'.half kind).attempted = s.1.desired kind

/-- What a supervision pass is made of: changes of the supervisor that leave what is wanted, and
attempts on the device that is wanted. -/
inductive Attempts : Supervised → Supervised → Prop where
  | refl (s : Supervised) : Attempts s s
  | trans {s s' s'' : Supervised} (h₁ : Attempts s s') (h₂ : Attempts s' s'') : Attempts s s''
  | of_sup {sup sup' : Supervisor} {handle : Option VoiceHandle}
      (hdesired : sup'.desired = sup.desired) : Attempts (sup, handle) (sup', handle)
  | rebuild {sup sup' : Supervisor} {h : VoiceHandle} {kind : Kind} {device : Option String}
      (res : Except String String) (hdesired : sup'.desired = sup.desired)
      (hdevice : device = sup.desired kind) :
      Attempts (sup, some h) (sup', some (h.rebuild kind device res))

section Moves

variable {s s' s'' : Supervised} {sup sup' : Supervisor} {h : VoiceHandle} {a : Answers}

theorem Moves.refl (s : Supervised) : Moves s s where
  desired := rfl
  kept := rfl
  half h h' hs hs' kind := by
    rw [hs] at hs'
    cases hs'
    exact .inl rfl

theorem Moves.trans (h₁ : Moves s s') (h₂ : Moves s' s'') : Moves s s'' where
  desired := h₂.desired.trans h₁.desired
  kept := h₂.kept.trans h₁.kept
  half h h'' hs hs'' kind := by
    have hsome : s'.2.isSome = true := by
      rw [h₁.kept, hs]
      rfl
    obtain ⟨h', hs'⟩ := Option.isSome_iff_exists.1 hsome
    have hfirst := h₁.half h h' hs hs' kind
    rw [← h₁.desired]
    rw [← h₁.desired] at hfirst
    rcases h₂.half h' h'' hs' hs'' kind with hsame | hwanted
    · rw [hsame]
      exact hfirst
    · exact .inr hwanted

/-- A change of the supervisor that leaves what is wanted. -/
theorem Moves.of_sup {handle : Option VoiceHandle} (hdesired : sup'.desired = sup.desired) :
    Moves (sup, handle) (sup', handle) where
  desired := hdesired
  kept := rfl
  half h h' hs hs' kind := by
    simp only at hs hs'
    rw [hs] at hs'
    cases hs'
    exact .inl rfl

@[simp] theorem desired_count (res : Except String String) :
    (sup.count res).desired = sup.desired := by
  unfold Supervisor.count
  split <;> rfl

/-- The device that a half was last tried on, after a rebuild. -/
theorem attempted_rebuild (h : VoiceHandle) (kind : Kind) (device : Option String)
    (res : Except String String) (k : Kind) : ((h.rebuild kind device res).half k).attempted =
      if k = kind then device else (h.half k).attempted := by
  show (Function.update h.half kind (.of device res) k).attempted = _
  by_cases hk : k = kind
  · subst hk
    rw [if_pos rfl, Function.update_self]
    rfl
  · rw [if_neg hk, Function.update_of_ne hk]

/-- A rebuild on the device that is wanted. -/
theorem Moves.rebuild {kind : Kind} {device : Option String} (res : Except String String)
    (hdesired : sup'.desired = sup.desired) (hdevice : device = sup.desired kind) :
    Moves (sup, some h) (sup', some (h.rebuild kind device res)) where
  desired := hdesired
  kept := rfl
  half before after hs hs' k := by
    cases hs
    cases hs'
    rw [attempted_rebuild]
    split
    · rename_i hk
      rw [hk]
      exact .inr hdevice
    · exact .inl rfl

theorem attempts_rebuildDead (kind : Kind) (s : Supervised) :
    Attempts s (rebuildDead a kind s) := by
  obtain ⟨sup, handle⟩ := s
  cases handle with
  | none => exact .refl _
  | some h =>
    simp only [rebuildDead]
    split
    · exact .rebuild _ (desired_count _) rfl
    · exact .refl _

theorem attempts_followDefault (kind : Kind) (s : Supervised) :
    Attempts s (followDefault a kind s) := by
  obtain ⟨sup, handle⟩ := s
  cases handle with
  | none => exact .refl _
  | some h =>
    simp only [followDefault]
    split
    · rename_i hdesired _ _
      split
      · exact .rebuild _ (desired_count _) hdesired.symm
      · exact .refl _
    · exact .refl _

theorem attempts_onNewDevice (kind : Kind) (name : String) (s : Supervised) :
    Attempts s (onNewDevice a kind name s) := by
  obtain ⟨sup, handle⟩ := s
  unfold onNewDevice
  simp only
  split
  · rename_i hdesired
    cases handle with
    | none => exact .refl _
    | some h => exact .rebuild _ (desired_count _) hdesired.symm
  · exact .of_sup rfl

/-- The new devices, by induction on their names. -/
theorem attempts_onNewDevices (kind : Kind) (known : Finset String) (s : Supervised) :
    Attempts s (onNewDevices a kind known s) := by
  unfold onNewDevices
  generalize (deviceNames a kind).filter (· ∉ known) = names
  induction names generalizing s with
  | nil => exact .refl _
  | cons name names ih => exact (attempts_onNewDevice kind name s).trans (ih _)

theorem attempts_hotPlug (s : Supervised) : Attempts s (hotPlug a s) := by
  have hknown : ∀ (t : Supervised) known, Attempts t ({ t.1 with known }, t.2) :=
    fun t known => .of_sup rfl
  unfold hotPlug
  simp only
  refine Attempts.trans ?_ (hknown _ _)
  split
  · rename_i knownIn knownOut _ _
    have hdevices :
        Attempts s (onNewDevices a .output knownOut (onNewDevices a .input knownIn s)) :=
      (attempts_onNewDevices .input knownIn s).trans (attempts_onNewDevices .output knownOut _)
    split
    · exact hdevices.trans (.of_sup rfl)
    · exact hdevices
  · exact .refl s

/-- **A supervision pass makes attempts only on the devices that are wanted.** -/
theorem attempts_tick (s : Supervised) : Attempts s (tick a s) := by
  have hdead : Attempts s (rebuildDead a .output (rebuildDead a .input s)) :=
    (attempts_rebuildDead .input s).trans (attempts_rebuildDead .output _)
  unfold tick
  generalize rebuildDead a .output (rebuildDead a .input s) = t at hdead ⊢
  simp only
  split
  · have hpoll : Attempts t ({ t.1 with lastDevicePoll := some a.now }, t.2) := .of_sup rfl
    exact hdead.trans (hpoll.trans (((attempts_followDefault .input _).trans
      (attempts_followDefault .output _)).trans (attempts_hotPlug _)))
  · exact hdead

/-- By induction on what the pass is made of. -/
theorem Attempts.moves (h : Attempts s s') : Moves s s' := by
  induction h with
  | refl s => exact .refl s
  | trans _ _ ih₁ ih₂ => exact ih₁.trans ih₂
  | of_sup hdesired => exact .of_sup hdesired
  | rebuild res hdesired hdevice => exact .rebuild res hdesired hdevice

/-- **A supervision pass tries a half on no other device than the one that is wanted.** -/
theorem moves_tick (s : Supervised) : Moves s (tick a s) := (attempts_tick s).moves

end Moves

/-! ## The devices that were selected -/

/-- The actor, with the devices that the user has selected last. -/
structure Chosen where
  actor : Actor
  selected : Kind → Option String

/-- A step of the actor: it takes a command from its queue, or finishes a snapshot; or a stream
of the call fails. -/
inductive ActorEvent where
  | recv (cmd : Cmd) (a : Answers)
  | finish (a : Answers)
  | streamFailed (kind : Kind)

/-- What a command selects. -/
def Cmd.selects (selected : Kind → Option String) : Cmd → Kind → Option String
  | .start p => p.device
  | .setInputDevice name => Function.update selected .input name
  | .setOutputDevice name => Function.update selected .output name
  | _ => selected

namespace Chosen

variable (w : Chosen)

/-- Before the first command nothing is selected. -/
def init : Chosen := ⟨.init, fun _ => none⟩

/-- One step, if it can happen. -/
def step (w : Chosen) : ActorEvent → Option Chosen
  | .recv cmd a =>
    if w.actor.ticking then none else some ⟨(w.actor.recv a cmd).1, cmd.selects w.selected⟩
  | .finish a =>
    if w.actor.ticking then some { w with actor := (w.actor.finish a).1 } else none
  | .streamFailed kind => some { w with actor := w.actor.streamFailed kind }

/-- If there is a call, each of its halves was last tried on the selected device. -/
def Right (w : Chosen) : Prop :=
  ∀ h, w.actor.handle = some h → ∀ kind, (h.half kind).attempted = w.selected kind

/-- The condition on a step: a snapshot that starts the pipeline again starts it from parameters
with the selected devices. -/
def Fresh (w : Chosen) : ActorEvent → Prop
  | .recv .snapshot a => w.actor.restartDue a = true → a.start.isOk = true →
      ∀ p, w.actor.lastParams = some p → p.device = w.selected
  | _ => True

/-- The supervisor wants what was selected last. -/
def Wanted (w : Chosen) : Prop := w.actor.sup.desired = w.selected

section Step

variable {w} {w' : Chosen} {a : Answers}

/-- A call that is started is tried on the devices of its parameters. -/
theorem attempted_startFrom {p : StartParams} {h : VoiceHandle} (hs : startFrom p a = .ok h)
    (kind : Kind) : (h.half kind).attempted = p.device kind := by
  unfold startFrom at hs
  cases hstart : a.start with
  | error e =>
    rw [hstart] at hs
    cases hs
  | ok u =>
    rw [hstart] at hs
    cases hs
    rfl

/-- A call starts when the pipeline does. -/
theorem isOk_startFrom (p : StartParams) : (startFrom p a).isOk = a.start.isOk := by
  unfold startFrom
  cases a.start <;> rfl

theorem right_start (p : StartParams) (h : VoiceHandle) (hs : (w.actor.start a p).1.handle = some h)
    (kind : Kind) : (h.half kind).attempted = p.device kind := by
  unfold Actor.start at hs
  simp only at hs
  split at hs
  · rename_i h' hstart
    cases hs
    exact attempted_startFrom hstart kind
  · cases hs

theorem desired_start (p : StartParams) : (w.actor.start a p).1.sup.desired = p.device := by
  unfold Actor.start
  simp only
  split <;> rfl

/-- A switch tries the half of the call on the device that it selects. -/
theorem right_setDevice (hright : w.Right) (kind : Kind) (name : Option String) (h : VoiceHandle)
    (hs : (w.actor.setDevice a kind name).handle = some h) (k : Kind) :
    (h.half k).attempted = Function.update w.selected kind name k := by
  obtain ⟨before, hbefore, rfl⟩ := Option.map_eq_some_iff.1 hs
  rw [attempted_rebuild]
  by_cases hk : k = kind
  · subst hk
    rw [if_pos rfl, Function.update_self]
  · rw [if_neg hk, Function.update_of_ne hk]
    exact hright before hbefore k

/-- A snapshot leaves a call on the selected devices exactly when it restarts none from others. -/
theorem right_restart (hright : w.Right) :
    (∀ h, (w.actor.restart a).handle = some h →
      ∀ kind, (h.half kind).attempted = w.selected kind) ↔ w.Fresh (.recv .snapshot a) := by
  unfold Actor.restart Fresh
  cases hparams : w.actor.lastParams with
  | none =>
    refine iff_of_true hright fun _ _ p hp => ?_
    cases hp
  | some p =>
    simp only
    split
    · rename_i hdue
      cases hstart : startFrom p a with
      | error e =>
        refine iff_of_true (fun h hs => by cases hs) fun _ hok => ?_
        rw [← isOk_startFrom p, hstart] at hok
        cases hok
      | ok h =>
        have hok : a.start.isOk = true := by
          rw [← isOk_startFrom p, hstart]
          rfl
        constructor
        · intro hall _ _ p' hp'
          cases hp'
          funext kind
          rw [← attempted_startFrom hstart kind]
          exact hall h rfl kind
        · intro hfresh h' hs kind
          cases hs
          rw [attempted_startFrom hstart kind, hfresh hdue hok p rfl]
    · rename_i hdue
      exact iff_of_true hright fun hdue' => absurd hdue' hdue

/-- The rest of a snapshot tries no half on another device. -/
theorem right_finish (hright : w.Right) (hwanted : w.Wanted) (h : VoiceHandle)
    (hs : (w.actor.finish a).1.handle = some h) (kind : Kind) :
    (h.half kind).attempted = w.selected kind := by
  have hmoves := moves_tick (a := a) (w.actor.sup, w.actor.handle)
  have hsome : w.actor.handle.isSome = true := by
    rw [← hmoves.kept]
    exact Option.isSome_iff_exists.2 ⟨h, hs⟩
  obtain ⟨before, hbefore⟩ := Option.isSome_iff_exists.1 hsome
  rcases hmoves.half before h hbefore hs kind with hsame | hwant
  · rw [hsame]
    exact hright before hbefore kind
  · rw [hwant]
    exact congrFun hwanted kind

theorem right_streamFailed (hright : w.Right) (kind : Kind) (h : VoiceHandle)
    (hs : (w.actor.streamFailed kind).handle = some h) (k : Kind) :
    (h.half k).attempted = w.selected k := by
  obtain ⟨before, hbefore, rfl⟩ := Option.map_eq_some_iff.1 hs
  refine Eq.trans ?_ (hright before hbefore k)
  show (Function.update before.half kind { before.half kind with failed := true } k).attempted = _
  by_cases hk : k = kind
  · subst hk
    rw [Function.update_self]
  · rw [Function.update_of_ne hk]

/-- The supervisor goes on wanting what is selected. -/
theorem Wanted.step (hwanted : w.Wanted) {e : ActorEvent} (hs : w.step e = some w') :
    w'.Wanted := by
  cases e with
  | recv cmd a =>
    simp only [Chosen.step] at hs
    split at hs
    · cases hs
    · cases hs
      cases cmd with
      | start p => exact desired_start p
      | stop => exact hwanted
      | snapshot =>
        refine Eq.trans ?_ hwanted
        show (w.actor.restart a).sup.desired = _
        unfold Actor.restart
        split
        · split <;> rfl
        · rfl
      | setInputDevice name => exact congrArg (Function.update · Kind.input name) hwanted
      | setOutputDevice name => exact congrArg (Function.update · Kind.output name) hwanted
      | echoStart p =>
        refine Eq.trans ?_ hwanted
        show (w.actor.echoStart a p).1.sup.desired = _
        unfold Actor.echoStart
        split <;> rfl
      | echoStop => exact hwanted
  | finish a =>
    simp only [Chosen.step] at hs
    split at hs
    · cases hs
      exact (moves_tick (a := a) (w.actor.sup, w.actor.handle)).desired.trans hwanted
    · cases hs
  | streamFailed kind =>
    cases hs
    exact hwanted

/-- **One step leaves a call on the selected devices exactly when it is a fresh one.** -/
theorem right_step (hright : w.Right) (hwanted : w.Wanted) {e : ActorEvent}
    (hs : w.step e = some w') : w'.Right ↔ w.Fresh e := by
  cases e with
  | recv cmd a =>
    simp only [step] at hs
    split at hs
    · cases hs
    · cases hs
      cases cmd with
      | start p => exact iff_of_true (fun h hs kind => right_start p h hs kind) trivial
      | stop => exact iff_of_true (fun h hs => by cases hs) trivial
      | snapshot => exact right_restart hright
      | setInputDevice name =>
        exact iff_of_true (fun h hs kind => right_setDevice hright .input name h hs kind) trivial
      | setOutputDevice name =>
        exact iff_of_true (fun h hs kind => right_setDevice hright .output name h hs kind) trivial
      | echoStart p =>
        refine iff_of_true (fun h hs kind => hright h ?_ kind) trivial
        refine Eq.trans ?_ hs
        show _ = (w.actor.echoStart a p).1.handle
        unfold Actor.echoStart
        split <;> rfl
      | echoStop => exact iff_of_true hright trivial
  | finish a =>
    simp only [step] at hs
    split at hs
    · cases hs
      exact iff_of_true (fun h hs kind => right_finish hright hwanted h hs kind) trivial
    · cases hs
  | streamFailed kind =>
    cases hs
    exact iff_of_true (fun h hs k => right_streamFailed hright kind h hs k) trivial

end Step

/-- **A live call is on the selected devices** as long as no snapshot restarts the pipeline from
others.  For every sequence of commands, with any answers of the system and any streams that
fail: whenever a call is live, the most recent attempt to open each of its halves used the device
that was selected last, exactly when each snapshot that starts the pipeline again after a start
has failed does so from parameters with the devices selected last. -/
theorem right_iff (es : List ActorEvent) :
    Throughout step Right init es ↔ EachStep step Fresh init es := by
  refine throughout_iff_eachStep Wanted ?_ ?_ rfl ?_ (eachStep_true _ es)
  · exact fun w e w' hwanted _ hs => hwanted.step hs
  · exact fun w e w' hwanted hright _ hs => right_step hright hwanted hs
  · intro h hs
    cases hs

/-! ## A switch while the pipeline is down -/

/-- What the system answers at a time, with the start of the pipeline going well or not. -/
def answers (now : ℕ) (start : Except String Unit) : Answers where
  now := now
  start := start
  openDevice kind _ := .ok (if kind = .input then "headset" else "speakers")
  defaultName _ := none
  listDevices _ := .ok []
  registered := true
  bytesReceived := 0

/-- A call in a room, on the headset. -/
def room : StartParams where
  serverIp := .v4 0x0a000001
  channelId := "room"
  udpToken := 7
  voiceKey := List.replicate Config.voiceKeyLen 0
  inputDevice := some "headset"
  outputDevice := none
  senderName := "user"
  echoTest := false

/-- The call does not start, the user picks the microphone of the desk, and a snapshot starts
the call. -/
def pickedWhileDown : List ActorEvent :=
  [.recv (.start room) (answers 0 (.error "timed out")),
    .recv (.setInputDevice (some "desk")) (answers 500 (.ok ())),
    .recv .snapshot (answers 1000 (.ok ())), .finish (answers 1000 (.ok ()))]

/-- **A stale device**: the call is live on the headset, and the microphone of the desk was
selected. -/
theorem stale_device : ¬ Throughout step Right init pickedWhileDown ∧
    ∃ w h, runFrom step init pickedWhileDown = some w ∧ w.actor.handle = some h ∧
      (h.half .input).attempted = some "headset" ∧ w.selected .input = some "desk" := by
  have hrun : ∃ w h, runFrom step init pickedWhileDown = some w ∧ w.actor.handle = some h ∧
      (h.half .input).attempted = some "headset" ∧ w.selected .input = some "desk" :=
    ⟨_, _, rfl, rfl, rfl, rfl⟩
  refine ⟨fun hright => ?_, hrun⟩
  obtain ⟨w, h, hw, hhandle, hattempted, hselected⟩ := hrun
  have hsame := throughout_iff.1 hright 4 w hw h hhandle .input
  rw [hattempted, hselected] at hsame
  exact absurd hsame (by decide)

end Chosen

end Desktop
end TcVoice
