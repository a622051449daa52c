import TcVoice.Desktop.HangUp

/-!
# One line at a time

Who may connect, and whose messages count: the drain tasks of `drain.rs`, each of which dials
again when its connection is lost, and the commands that end one session and begin the next.

* `Line.Alone` — the condition on one step: no command ends a session while a `connect` is on
  its way, or a drain task is about to store a connection that it has got.
* `Line.Owner`, `Line.Single` — the drain tasks that have not been aborted, between commands and
  at each stage of a `connect`.
* `Line.single_line` — **with commands that do not overlap there is at most one such task, it
  drains the newest connection, and a `disconnect` is for good**: nothing connects again until
  the user does; `Line.two_lines` are two that overlap, and `Line.late_line` is a connection
  after a `disconnect` that came between the two halves of a reconnect.
-/

namespace TcVoice
namespace Desktop

open Runs

/-- A `connect` is on its way, from the end of the old session to the drain task of the new. -/
def Caller.Connecting : Caller → Prop
  | .stopping _ dials => dials.isSome = true
  | .dialling _ | .adopted _ | .spawned _ => True
  | .returned => False

instance Caller.decidableConnecting : DecidablePred Caller.Connecting := fun c =>
  match c with
  | .stopping _ dials => inferInstanceAs (Decidable (dials.isSome = true))
  | .dialling _ | .adopted _ | .spawned _ => .isTrue trivial
  | .returned => .isFalse fun h => h

namespace Line

/-- The server has answered a drain task that connects again. -/
def isAnswered (d : Drain) : Bool :=
  match d.phase with
  | .answered _ => true
  | _ => false

/-- A command ends a session only when no `connect` is on its way, and no drain task has a
connection that it has not stored yet. -/
def Alone (l : Line) : LineEvent → Prop
  | .connect _ | .disconnect =>
    (∀ c ∈ l.callers, ¬ c.Connecting) ∧ ∀ d ∈ l.drains, isAnswered d = false
  | _ => True

instance decidableAlone (l : Line) (e : LineEvent) : Decidable (Alone l e) :=
  match e with
  | .connect _ | .disconnect =>
    inferInstanceAs (Decidable ((∀ c ∈ l.callers, ¬ c.Connecting) ∧
      ∀ d ∈ l.drains, isAnswered d = false))
  | .callerStop _ | .dialled .. | .dialFailed _ | .spawn _ | .keep _ | .join .. | .takeJoin _
  | .start _ | .resume _ | .cancel _ | .lost _ | .lostStop _ | .dialledAgain .. | .reconnected _
  | .other _ | .recv _ | .finish _ | .streamFailed _ => .isTrue trivial

/-- Of the drain tasks only one, if any, has not been aborted, and it drains the newest
connection. -/
def Owner (l : Line) (task : Option ℕ) : Prop :=
  ∀ k d, l.drains[k]? = some d → d.aborted = false →
    task = some k ∧ d.connection + 1 = l.connections

/-- The drain task that a `connect` has spawned. -/
def spawnedBy : Caller → Option ℕ
  | .spawned k => some k
  | _ => none

/-- A connection that a `connect` has made is the newest. -/
def Newest (l : Line) : Caller → Prop
  | .adopted connection => connection + 1 = l.connections
  | _ => True

/-- A task that the server has just answered has not been aborted. -/
def Here (l : Line) : Prop :=
  ∀ (k : ℕ) (d : Drain), l.drains[k]? = some d → isAnswered d = true → d.aborted = false

/-- Either no `connect` is on its way, and only the task whose handle is kept goes on; or one is,
and only the task that it has spawned does. -/
inductive Single (l : Line) : Prop where
  | settled (hcallers : ∀ c ∈ l.callers, ¬ c.Connecting) (howner : l.Owner l.core.drainHandle)
  | connecting (i : ℕ) (c : Caller) (hc : l.callers[i]? = some c) (hconnecting : c.Connecting)
      (hothers : ∀ j c', l.callers[j]? = some c' → c'.Connecting → j = i)
      (hhandle : l.core.drainHandle = none) (howner : l.Owner (spawnedBy c)) (hnewest : l.Newest c)

/-- The state between a `disconnect` and the next `connect`: nothing is connected, and nothing
will be. -/
structure Off (connections : ℕ) (l : Line) : Prop where
  callers : ∀ c ∈ l.callers, ¬ c.Connecting
  handle : l.core.drainHandle = none
  aborted : l.Owner none
  here : l.Here
  conn : l.core.conn = none
  connections : l.connections = connections

/-! ## What the steps of the tasks leave alone -/

/-- A task goes on for the same connection; the server only answers one that has not been
aborted. -/
structure SameTask (d d' : Drain) : Prop where
  connection : d'.connection = d.connection
  aborted : d'.aborted = d.aborted
  answered : isAnswered d' = true → isAnswered d = true ∨ d.aborted = false

/-- Nobody connects, ends a session or is aborted. -/
structure Quiet (l l' : Line) : Prop where
  callers : l'.callers = l.callers
  handle : l'.core.drainHandle = l.core.drainHandle
  connections : l'.connections = l.connections
  drains : ∀ (k : ℕ) (d' : Drain), l'.drains[k]? = some d' →
    ∃ d : Drain, l.drains[k]? = some d ∧ SameTask d d'
  conn : l'.core.conn = l.core.conn ∨ l'.core.conn = none

variable {l l' : Line} {e : LineEvent}

theorem SameTask.refl (d : Drain) : SameTask d d := ⟨rfl, rfl, .inl⟩

/-- Tasks that go on are still the tasks of their connections. -/
theorem drains_modify {f : Drain → Drain} {drains : List Drain} {k : ℕ}
    (hf : ∀ d, drains[k]? = some d → SameTask d (f d)) (i : ℕ) (d' : Drain)
    (h : (drains.modify k f)[i]? = some d') : ∃ d, drains[i]? = some d ∧ SameTask d d' := by
  rw [List.getElem?_modify] at h
  obtain ⟨d, hd, rfl⟩ := Option.map_eq_some_iff.1 h
  refine ⟨d, hd, ?_⟩
  split
  · rename_i hk
    exact hf d (hk ▸ hd)
  · exact .refl d

theorem quiet_goOn {k : ℕ} {phase : DrainPhase} (hcallers : l'.callers = l.callers)
    (hhandle : l'.core.drainHandle = l.core.drainHandle)
    (hconnections : l'.connections = l.connections) (hdrains : l'.drains = l.drains)
    (hphase : ∀ d, l.drains[k]? = some d → isAnswered { d with phase } = true →
      d.aborted = false)
    (hconn : l'.core.conn = l.core.conn ∨ l'.core.conn = none) :
    Quiet l (l'.goOn k phase) where
  callers := hcallers
  handle := hhandle
  connections := hconnections
  drains i d' h := by
    have hmodify : (l.drains.modify k fun d => { d with phase })[i]? = some d' := hdrains ▸ h
    refine drains_modify (f := fun d => { d with phase }) (fun d hd => ?_) i d' hmodify
    exact ⟨rfl, rfl, fun hanswered => .inr (hphase d hd hanswered)⟩
  conn := hconn

theorem quiet_answered (task : Option ℕ) (i : ℕ) (d' : Drain)
    (h : (l.answered task)[i]? = some d') :
    ∃ d, l.drains[i]? = some d ∧ SameTask d d' := by
  unfold Line.answered at h
  cases task with
  | none => exact ⟨d', h, .refl d'⟩
  | some k =>
    refine drains_modify (fun d _ => ?_) i d' h
    split
    · exact ⟨rfl, rfl, fun hanswered => by cases hanswered⟩
    · exact .refl d

/-- The steps of the tasks, of the actor, and of the rest of the application. -/
def OfTask : LineEvent → Bool
  | .join .. | .takeJoin _ | .start _ | .resume _ | .cancel _ | .lost _ | .lostStop _
  | .dialledAgain .. | .other _ | .recv _ | .finish _ | .streamFailed _ => true
  | _ => false

/-- **They are quiet.** -/
theorem quiet_step (he : OfTask e = true) (hs : step l e = some l') : Quiet l l' := by
  have hsame : ∀ drains, drains = l.drains → ∀ (k : ℕ) (d' : Drain), drains[k]? = some d' →
      ∃ d : Drain, l.drains[k]? = some d ∧ SameTask d d' := by
    rintro _ rfl k d' h
    exact ⟨d', h, .refl d'⟩
  -- A task that the server has not just answered is no concern.
  have hother : ∀ {k : ℕ} {phase : DrainPhase}, isAnswered ⟨0, phase, true⟩ = false →
      ∀ d, l.drains[k]? = some d → isAnswered { d with phase } = true → d.aborted = false :=
    fun hphase _ _ hanswered => Bool.noConfusion (hanswered.symm.trans hphase)
  cases e with
  | join k channelId participants udpToken voiceKey =>
    simp only [step] at hs
    split at hs
    · cases hs
      exact quiet_goOn rfl rfl rfl rfl (hother rfl) (.inl rfl)
    · cases hs
  | takeJoin k =>
    simp only [step] at hs
    split at hs
    · cases hs
      unfold takeJoin
      split
      · exact quiet_goOn rfl rfl rfl rfl (hother rfl) (.inl rfl)
      · dsimp only
        split
        · exact quiet_goOn rfl rfl rfl rfl (hother rfl) (.inl rfl)
        · exact quiet_goOn rfl rfl rfl rfl (hother rfl) (.inl rfl)
    · cases hs
  | start k =>
    simp only [step] at hs
    split at hs
    · split at hs
      · cases hs
        unfold start
        split
        · exact quiet_goOn rfl rfl rfl rfl (hother rfl) (.inl rfl)
        · refine quiet_goOn rfl rfl rfl rfl (hother ?_) (.inl rfl)
          split <;> rfl
      · cases hs
    · cases hs
  | resume k =>
    simp only [step] at hs
    split at hs
    · obtain ⟨queue, -, rfl⟩ := Option.map_eq_some_iff.1 hs
      exact quiet_goOn rfl rfl rfl rfl (hother rfl) (.inl rfl)
    · cases hs
  | cancel k =>
    simp only [step] at hs
    split at hs
    · cases hs
    · cases hs
      exact quiet_goOn rfl rfl rfl rfl (hother rfl) (.inl rfl)
    · cases hs
  | lost k =>
    simp only [step] at hs
    split at hs
    · cases hs
      exact quiet_goOn rfl rfl rfl rfl (hother rfl) (.inr rfl)
    · cases hs
  | lostStop k =>
    simp only [step] at hs
    split at hs
    · obtain ⟨queue, -, rfl⟩ := Option.map_eq_some_iff.1 hs
      exact quiet_goOn rfl rfl rfl rfl (hother rfl) (.inl rfl)
    · cases hs
  | dialledAgain k conn =>
    simp only [step] at hs
    split at hs
    · rename_i connection hd
      cases hs
      refine quiet_goOn rfl rfl rfl rfl (fun d hd' _ => ?_) (.inl rfl)
      rw [hd] at hd'
      cases hd'
      rfl
    · cases hs
  | other cmd =>
    simp only [step] at hs
    split at hs
    · cases hs
    · obtain ⟨queue, -, rfl⟩ := Option.map_eq_some_iff.1 hs
      exact ⟨rfl, rfl, rfl, hsame _ rfl, .inl rfl⟩
  | recv a =>
    simp only [step] at hs
    split at hs
    · cases hs
    · obtain ⟨r, -, rfl⟩ := Option.map_eq_some_iff.1 hs
      exact ⟨rfl, rfl, rfl, quiet_answered r.1.2, .inl rfl⟩
  | finish a =>
    simp only [step] at hs
    split at hs
    · cases hs
      exact ⟨rfl, rfl, rfl, hsame _ rfl, .inl rfl⟩
    · cases hs
  | streamFailed kind =>
    cases hs
    exact ⟨rfl, rfl, rfl, hsame _ rfl, .inl rfl⟩
  | _ => cases he

/-! ## One step -/

theorem Owner.quiet (hquiet : Quiet l l') {task : Option ℕ} (h : l.Owner task) :
    l'.Owner task := by
  intro k d' hd' hlive
  obtain ⟨d, hd, hsame⟩ := hquiet.drains k d' hd'
  rw [hsame.connection, hquiet.connections]
  exact h k d hd (hsame.aborted ▸ hlive)

theorem Here.quiet (hquiet : Quiet l l') (h : l.Here) : l'.Here := by
  intro k d' hd' hanswered
  obtain ⟨d, hd, hsame⟩ := hquiet.drains k d' hd'
  rw [hsame.aborted]
  exact (hsame.answered hanswered).elim (h k d hd) id

theorem Newest.congr {c : Caller} (h : l.Newest c) (hconnections : l'.connections = l.connections) :
    l'.Newest c := by
  cases c with
  | adopted connection => exact Eq.trans h hconnections.symm
  | _ => trivial

theorem Single.quiet (hquiet : Quiet l l') (h : l.Single) : l'.Single := by
  cases h with
  | settled hcallers howner =>
    refine .settled ?_ (hquiet.handle ▸ howner.quiet hquiet)
    rw [hquiet.callers]
    exact hcallers
  | connecting i c hc hconnecting hothers hhandle howner hnewest =>
    rw [← hquiet.callers] at hc hothers
    exact .connecting i c hc hconnecting hothers (hquiet.handle.trans hhandle)
      (howner.quiet hquiet) (hnewest.congr hquiet.connections)

/-- When the session is ended the task whose handle is kept is aborted. -/
theorem owner_abort (howner : l.Owner l.core.drainHandle) (hdrains : l'.drains = l.abort) :
    l'.Owner none := by
  intro k d' hd' hlive
  rw [hdrains, abort] at hd'
  cases hhandle : l.core.drainHandle with
  | none =>
    rw [hhandle] at hd' howner
    obtain ⟨habsurd, -⟩ := howner k d' hd' hlive
    cases habsurd
  | some kept =>
    rw [hhandle] at hd' howner
    dsimp only at hd'
    rw [List.getElem?_modify] at hd'
    obtain ⟨d, hd, rfl⟩ := Option.map_eq_some_iff.1 hd'
    by_cases hk : kept = k
    · rw [if_pos hk] at hlive
      cases hlive
    · rw [if_neg hk] at hlive
      obtain ⟨hkept, -⟩ := howner k d hd hlive
      exact absurd (Option.some.inj hkept) hk

/-- What a caller at another place is. -/
theorem others_set {callers : List Caller} {i : ℕ} {c : Caller}
    (hothers : ∀ j c', callers[j]? = some c' → c'.Connecting → j = i) :
    ∀ j c', (callers.set i c)[j]? = some c' → c'.Connecting → j = i := by
  intro j c' hj hconnecting
  by_cases hij : i = j
  · exact hij.symm
  · rw [List.getElem?_set_ne hij] at hj
    exact hothers j c' hj hconnecting

/-- Which `connect` is on its way, if the one at that place is. -/
theorem Single.at {i : ℕ} {c : Caller} (h : l.Single) (hc : l.callers[i]? = some c)
    (hconnecting : c.Connecting) :
    (∀ j c', l.callers[j]? = some c' → c'.Connecting → j = i) ∧ l.core.drainHandle = none ∧
      l.Owner (spawnedBy c) ∧ l.Newest c := by
  cases h with
  | settled hcallers _ => exact absurd hconnecting (hcallers c (List.mem_of_getElem? hc))
  | connecting i' c' hc' _ hothers hhandle howner hnewest =>
    obtain rfl := hothers i c hc hconnecting
    obtain rfl := Option.some.inj (hc.symm.trans hc')
    exact ⟨hothers, hhandle, howner, hnewest⟩

/-- A `connect` goes on to its next stage. -/
theorem Single.next {i : ℕ} {c c' : Caller} (h : l.Single) (hc : l.callers[i]? = some c)
    (hconnecting : c.Connecting) (hcallers : l'.callers = l.callers.set i c')
    (hconnecting' : c'.Connecting) (hhandle : l'.core.drainHandle = l.core.drainHandle)
    (howner : l'.Owner (spawnedBy c')) (hnewest : l'.Newest c') : l'.Single := by
  obtain ⟨hothers, hnone, -, -⟩ := h.at hc hconnecting
  have hlt : i < l.callers.length := (List.getElem?_eq_some_iff.1 hc).1
  have hset : l'.callers[i]? = some c' := by
    rw [hcallers]
    exact List.getElem?_set_self hlt
  refine .connecting i c' hset hconnecting' ?_ (hhandle.trans hnone) howner hnewest
  rw [hcallers]
  exact others_set hothers

/-- A `connect` is done, or has failed. -/
theorem Single.returned {i : ℕ} {c : Caller} (h : l.Single) (hc : l.callers[i]? = some c)
    (hconnecting : c.Connecting) (hcallers : l'.callers = l.callers.set i .returned)
    (howner : l'.Owner l'.core.drainHandle) : l'.Single := by
  obtain ⟨hothers, -, -, -⟩ := h.at hc hconnecting
  refine .settled ?_ howner
  rw [hcallers]
  intro c' hmem hconnecting'
  obtain ⟨j, hj⟩ := List.mem_iff_getElem?.1 hmem
  obtain rfl := others_set hothers j c' hj hconnecting'
  rw [List.getElem?_set_self (List.getElem?_eq_some_iff.1 hc).1] at hj
  cases hj
  exact hconnecting'

/-- A `disconnect` that returns is nobody's business. -/
theorem Single.ended {i seen : ℕ} (h : l.Single)
    (hc : l.callers[i]? = some (.stopping seen none)) (hdrains : l'.drains = l.drains)
    (hcallers : l'.callers = l.callers.set i .returned) (hcore : l'.core = l.core)
    (hconnections : l'.connections = l.connections) : l'.Single := by
  have hquiet : ∀ task, l.Owner task → l'.Owner task := by
    intro task howner k d hd hlive
    rw [hconnections]
    exact howner k d (hdrains ▸ hd) hlive
  cases h with
  | settled hnone howner =>
    refine .settled ?_ (hcore.symm ▸ hquiet _ howner)
    intro c hmem
    rw [hcallers] at hmem
    rcases List.mem_or_eq_of_mem_set hmem with hmem | rfl
    · exact hnone c hmem
    · exact id
  | connecting i' c hc' hconnecting hothers hhandle howner hnewest =>
    have hne : i ≠ i' := by
      rintro rfl
      rw [hc] at hc'
      cases hc'
      cases hconnecting
    refine .connecting i' c ?_ hconnecting ?_ (hcore.symm ▸ hhandle) (hquiet _ howner)
      (hnewest.congr hconnections)
    · rw [hcallers, List.getElem?_set_ne hne]
      exact hc'
    · intro j c' hj hconnecting'
      rw [hcallers, List.getElem?_set] at hj
      split at hj
      · split at hj
        · cases hj
          exact hconnecting'.elim
        · cases hj
      · exact hothers j c' hj hconnecting'

/-- The task that dials again is the one that has not been aborted. -/
theorem Owner.reconnected {k : ℕ} {d : Drain} {task : Option ℕ} (howner : l.Owner task)
    (hd : l.drains[k]? = some d) (hlive : d.aborted = false)
    (hdrains : l'.drains = l.drains.modify k fun d =>
      { d with connection := l.connections, phase := .idle })
    (hconnections : l'.connections = l.connections + 1) : l'.Owner task := by
  have htask := (howner k d hd hlive).1
  intro k' d' hd' hlive'
  rw [hdrains, List.getElem?_modify] at hd'
  obtain ⟨old, hold, rfl⟩ := Option.map_eq_some_iff.1 hd'
  by_cases hk : k = k'
  · subst hk
    rw [if_pos rfl, hconnections]
    exact ⟨htask, rfl⟩
  · rw [if_neg hk] at hlive'
    have hother := (howner k' old hold hlive').1
    exact absurd (Option.some.inj (htask.symm.trans hother)) hk

/-- When no `connect` is on its way, only the task whose handle is kept goes on. -/
theorem Single.owner (h : l.Single) (hnone : ∀ c ∈ l.callers, ¬ c.Connecting) :
    l.Owner l.core.drainHandle := by
  cases h with
  | settled _ howner => exact howner
  | connecting i c hc hconnecting _ _ _ _ =>
    exact absurd hconnecting (hnone c (List.mem_of_getElem? hc))

theorem Single.disconnect (h : l.Single) (halone : l.Alone .disconnect)
    (hs : Line.step l .disconnect = some l') : l'.Single := by
  cases hs
  refine .settled ?_ (owner_abort (h.owner halone.1) rfl)
  intro c hmem
  rcases List.mem_append.1 hmem with hmem | hmem
  · exact halone.1 c hmem
  · rw [List.mem_singleton.1 hmem]
    rintro ⟨⟩

theorem Single.connect {addr : String} (h : l.Single) (halone : l.Alone (.connect addr))
    (hs : Line.step l (.connect addr) = some l') : l'.Single := by
  cases hs
  refine .connecting l.callers.length (.stopping l.connections (some addr)) ?_ rfl ?_ rfl
    (owner_abort (h.owner halone.1) rfl) trivial
  · exact List.getElem?_concat_length
  · intro j c' hj hconnecting
    rw [List.getElem?_append] at hj
    split at hj
    · exact absurd hconnecting (halone.1 c' (List.mem_of_getElem? hj))
    · rename_i hle
      rw [List.getElem?_singleton] at hj
      split at hj
      · omega
      · cases hj

theorem Single.callerStop {i : ℕ} (h : l.Single) (hs : Line.step l (.callerStop i) = some l') :
    l'.Single := by
  simp only [Line.step] at hs
  split at hs
  · rename_i seen dials hc
    obtain ⟨queue, -, rfl⟩ := Option.map_eq_some_iff.1 hs
    cases dials with
    | none => exact h.ended hc rfl rfl rfl rfl
    | some addr =>
      obtain ⟨-, -, howner, -⟩ := h.at hc rfl
      exact h.next hc rfl rfl trivial rfl howner trivial
  · cases hs

theorem Single.dialled {i now : ℕ} {conn : Client.ServerConnection} (h : l.Single)
    (hs : Line.step l (.dialled i conn now) = some l') : l'.Single := by
  simp only [Line.step] at hs
  split at hs
  · rename_i addr hc
    cases hs
    obtain ⟨-, -, howner, -⟩ := h.at hc trivial
    refine h.next hc trivial rfl trivial rfl ?_ rfl
    intro k d hd hlive
    cases (howner k d hd hlive).1
  · cases hs

theorem Single.dialFailed {i : ℕ} (h : l.Single) (hs : Line.step l (.dialFailed i) = some l') :
    l'.Single := by
  simp only [Line.step] at hs
  split at hs
  · rename_i addr hc
    cases hs
    obtain ⟨-, hhandle, howner, -⟩ := h.at hc trivial
    refine h.returned hc trivial rfl ?_
    have hnone : l.Owner l.core.drainHandle := by
      rw [hhandle]
      exact howner
    exact hnone
  · cases hs

/-- The task that is spawned drains the connection that has been made. -/
theorem Single.spawn {i : ℕ} (h : l.Single) (hs : Line.step l (.spawn i) = some l') :
    l'.Single := by
  simp only [Line.step] at hs
  split at hs
  · rename_i connection hc
    cases hs
    obtain ⟨-, -, howner, hnewest⟩ := h.at hc trivial
    refine h.next hc trivial rfl trivial rfl ?_ trivial
    intro k d hd hlive
    have hd' : (l.drains ++ [Drain.mk connection .idle false])[k]? = some d := hd
    rw [List.getElem?_append] at hd'
    split at hd'
    · cases (howner k d hd' hlive).1
    · rename_i hle
      rw [List.getElem?_singleton] at hd'
      split at hd'
      · cases hd'
        refine ⟨congrArg some ?_, hnewest⟩
        omega
      · cases hd'
  · cases hs

theorem Single.keep {i : ℕ} (h : l.Single) (hs : Line.step l (.keep i) = some l') :
    l'.Single := by
  simp only [Line.step] at hs
  split at hs
  · rename_i task hc
    cases hs
    obtain ⟨-, -, howner, -⟩ := h.at hc trivial
    exact h.returned hc trivial rfl howner
  · cases hs

theorem Single.reconnected {k : ℕ} (h : l.Single) (hhere : l.Here)
    (hs : Line.step l (.reconnected k) = some l') : l'.Single := by
  simp only [Line.step] at hs
  split at hs
  · rename_i connection conn aborted hd
    cases hs
    have hlive : aborted = false := hhere k _ hd rfl
    cases h with
    | settled hcallers howner => exact .settled hcallers (howner.reconnected hd hlive rfl rfl)
    | connecting i c hc hconnecting hothers hhandle howner hnewest =>
      refine .connecting i c hc hconnecting hothers hhandle
        (howner.reconnected hd hlive rfl rfl) ?_
      -- The task has been spawned, so its connection is no longer waited for.
      have htask := (howner k _ hd hlive).1
      cases c with
      | spawned task => trivial
      | _ => cases htask
  · cases hs

/-- **One step**, of a command that is alone. -/
theorem Single.step (h : l.Single) (hhere : l.Here) (halone : l.Alone e)
    (hs : Line.step l e = some l') : l'.Single := by
  cases e with
  | disconnect => exact h.disconnect halone hs
  | connect addr => exact h.connect halone hs
  | callerStop i => exact h.callerStop hs
  | dialled i conn now => exact h.dialled hs
  | dialFailed i => exact h.dialFailed hs
  | spawn i => exact h.spawn hs
  | keep i => exact h.keep hs
  | reconnected k => exact h.reconnected hhere hs
  | _ => exact h.quiet (quiet_step rfl hs)

theorem here_of_drains (h : l.Here) (hdrains : l'.drains = l.drains) : l'.Here := by
  intro k d hd
  exact h k d (hdrains ▸ hd)

/-- A session that is ended while no task has just been answered. -/
theorem here_abort (halone : ∀ d ∈ l.drains, isAnswered d = false)
    (hdrains : l'.drains = l.abort) : l'.Here := by
  intro k d' hd' hanswered
  exfalso
  rw [hdrains, abort] at hd'
  cases hhandle : l.core.drainHandle with
  | none =>
    rw [hhandle] at hd'
    rw [halone d' (List.mem_of_getElem? hd')] at hanswered
    cases hanswered
  | some kept =>
    rw [hhandle] at hd'
    dsimp only at hd'
    rw [List.getElem?_modify] at hd'
    obtain ⟨d, hd, rfl⟩ := Option.map_eq_some_iff.1 hd'
    have hphase := halone d (List.mem_of_getElem? hd)
    split at hanswered
    · exact Bool.false_ne_true (hphase.symm.trans hanswered)
    · exact Bool.false_ne_true (hphase.symm.trans hanswered)

theorem Here.spawn {i : ℕ} (h : l.Here) (hs : Line.step l (.spawn i) = some l') : l'.Here := by
  simp only [Line.step] at hs
  split at hs
  · rename_i connection hc
    cases hs
    intro k d hd hanswered
    have hd' : (l.drains ++ [Drain.mk connection .idle false])[k]? = some d := hd
    rcases List.mem_append.1 (List.mem_of_getElem? hd') with hmem | hmem
    · obtain ⟨i, hi⟩ := List.mem_iff_getElem?.1 hmem
      exact h i d hi hanswered
    · rw [List.mem_singleton.1 hmem]
  · cases hs

theorem Here.reconnected {k : ℕ} (h : l.Here) (hs : Line.step l (.reconnected k) = some l') :
    l'.Here := by
  simp only [Line.step] at hs
  split at hs
  · cases hs
    intro i d' hd' hanswered
    dsimp only at hd'
    rw [List.getElem?_modify] at hd'
    obtain ⟨d, hd, rfl⟩ := Option.map_eq_some_iff.1 hd'
    split at hanswered
    · cases hanswered
    · rename_i hk
      rw [if_neg hk]
      exact h i d hd hanswered
  · cases hs

/-- A task that has been answered stays, if commands are alone. -/
theorem Here.step (h : l.Here) (halone : l.Alone e) (hs : Line.step l e = some l') : l'.Here := by
  cases e with
  | disconnect =>
    cases hs
    exact here_abort halone.2 rfl
  | connect addr =>
    cases hs
    exact here_abort halone.2 rfl
  | callerStop i =>
    simp only [Line.step] at hs
    split at hs
    · obtain ⟨queue, -, rfl⟩ := Option.map_eq_some_iff.1 hs
      exact here_of_drains h rfl
    · cases hs
  | dialled i conn now | dialFailed i | keep i =>
    simp only [Line.step] at hs
    split at hs
    · cases hs
      exact here_of_drains h rfl
    · cases hs
  | spawn i => exact h.spawn hs
  | reconnected k => exact h.reconnected hs
  | _ => exact h.quiet (quiet_step rfl hs)

/-- A further `disconnect` changes nothing. -/
theorem Off.disconnect {n : ℕ} (h : l.Off n) (hs : Line.step l .disconnect = some l') :
    l'.Off n := by
  have howner : l.Owner l.core.drainHandle := by
    rw [h.handle]
    exact h.aborted
  have hsame : l.abort = l.drains := by
    rw [abort, h.handle]
  cases hs
  refine ⟨?_, rfl, owner_abort howner rfl, here_of_drains h.here hsame, rfl, h.connections⟩
  intro c hmem
  rcases List.mem_append.1 hmem with hmem | hmem
  · exact h.callers c hmem
  · rw [List.mem_singleton.1 hmem]
    rintro ⟨⟩

/-- A `disconnect` that returns. -/
theorem Off.callerStop {n i : ℕ} (h : l.Off n) (hs : Line.step l (.callerStop i) = some l') :
    l'.Off n := by
  simp only [Line.step] at hs
  split at hs
  · rename_i seen dials hc
    obtain ⟨queue, -, rfl⟩ := Option.map_eq_some_iff.1 hs
    cases dials with
    | none =>
      refine ⟨?_, h.handle, h.aborted, h.here, h.conn, h.connections⟩
      intro c hmem
      rcases List.mem_or_eq_of_mem_set hmem with hmem | rfl
      · exact h.callers c hmem
      · exact id
    | some addr => exact absurd rfl (h.callers _ (List.mem_of_getElem? hc))
  · cases hs

/-- **Off stays off**, until the user connects. -/
theorem Off.step {n : ℕ} (h : l.Off n) (hconnect : ∀ addr, e ≠ .connect addr)
    (hs : Line.step l e = some l') : l'.Off n := by
  cases e with
  | disconnect => exact h.disconnect hs
  | connect addr => exact absurd rfl (hconnect addr)
  | callerStop i => exact h.callerStop hs
  | dialled i conn now | dialFailed i | spawn i | keep i =>
    simp only [Line.step] at hs
    split at hs
    · rename_i hc
      exact absurd trivial (h.callers _ (List.mem_of_getElem? hc))
    · cases hs
  | reconnected k =>
    simp only [Line.step] at hs
    split at hs
    · rename_i connection conn aborted hd
      cases (h.aborted k _ hd (h.here k _ hd rfl)).1
    · cases hs
  | _ =>
    have hquiet := quiet_step rfl hs
    refine ⟨?_, hquiet.handle.trans h.handle, h.aborted.quiet hquiet, h.here.quiet hquiet, ?_,
      hquiet.connections.trans h.connections⟩
    · rw [hquiet.callers]
      exact h.callers
    · exact hquiet.conn.elim (fun heq => heq.trans h.conn) id

/-! ## Every run -/

theorem single_init (saved : Client.UserSettings) (macos : Bool) : (init saved macos).Single := by
  refine .settled (by simp [init]) ?_
  intro k d hd
  cases hd

theorem here_init (saved : Client.UserSettings) (macos : Bool) : (init saved macos).Here := by
  intro k d hd
  cases hd

/-- **One line at a time.**  Take the steps of the commands, the drain tasks and the actor in any
order, where no command ends a session while a `connect` is on its way, or between the two halves
of a reconnect.  Then in every state at most one drain task has not been aborted, and it drains the
connection that was made last; and a `disconnect` is for good: until the next `connect` there is no
connection and none is made, as every task is aborted. -/
theorem single_line (saved : Client.UserSettings) (macos : Bool) (es : List LineEvent) (l : Line)
    (halone : EachStep step Alone (init saved macos) es)
    (hrun : runFrom step (init saved macos) es = some l) :
    (∀ (k k' : ℕ) (d d' : Drain), l.drains[k]? = some d → l.drains[k']? = some d' →
      d.aborted = false → d'.aborted = false → k = k' ∧ d.connection + 1 = l.connections) ∧
    ∀ before later, es = before ++ .disconnect :: later → (∀ addr, .connect addr ∉ later) →
      ∃ hungUp, runFrom step (init saved macos) before = some hungUp ∧
        l.core.conn = none ∧ l.connections = hungUp.connections ∧
        ∀ d ∈ l.drains, d.aborted = true := by
  have hsingle : ∀ {es : List LineEvent} {l : Line},
      EachStep step Alone (init saved macos) es → runFrom step (init saved macos) es = some l →
      l.Single ∧ l.Here := fun halone hrun =>
    inv_runFrom (fun l => l.Single ∧ l.Here)
      (fun l e l' h hok hs => ⟨h.1.step h.2 hok hs, h.2.step hok hs⟩)
      ⟨single_init saved macos, here_init saved macos⟩ halone hrun
  constructor
  · intro k k' d d' hd hd' hlive hlive'
    obtain ⟨task, howner⟩ : ∃ task, l.Owner task := by
      cases (hsingle halone hrun).1 with
      | settled _ howner => exact ⟨_, howner⟩
      | connecting _ _ _ _ _ _ howner _ => exact ⟨_, howner⟩
    obtain ⟨htask, hnewest⟩ := howner k d hd hlive
    obtain ⟨htask', -⟩ := howner k' d' hd' hlive'
    exact ⟨Option.some.inj (htask.symm.trans htask'), hnewest⟩
  · rintro before later rfl hconnect
    rw [runFrom_append] at hrun
    obtain ⟨hungUp, hbefore, hrest⟩ := Option.bind_eq_some_iff.1 hrun
    obtain ⟨halone', hrestAlone⟩ := eachStep_append halone hbefore
    refine ⟨hungUp, hbefore, ?_⟩
    have hs : step hungUp .disconnect = some { hungUp with
        core := hungUp.core.clearSession, drains := hungUp.abort
        callers := hungUp.callers ++ [.stopping hungUp.connections none] } := rfl
    have hoff : Off hungUp.connections { hungUp with
        core := hungUp.core.clearSession, drains := hungUp.abort
        callers := hungUp.callers ++ [.stopping hungUp.connections none] } := by
      have hnobody := (hrestAlone _ hs).1
      obtain ⟨hone, hhere⟩ := hsingle halone' hbefore
      have hhere' := hhere.step hnobody hs
      cases hone.step hhere hnobody hs with
      | settled hcallers howner => exact ⟨hcallers, rfl, howner, hhere', rfl, rfl⟩
      | connecting i c hc hconnecting _ _ _ _ =>
        rcases List.mem_append.1 (List.mem_of_getElem? hc) with hmem | hmem
        · exact absurd hconnecting (hnobody.1 c hmem)
        · rw [List.mem_singleton.1 hmem] at hconnecting
          cases hconnecting
    rw [runFrom_cons, hs, Option.bind_some] at hrest
    have hend : Off hungUp.connections l := by
      refine inv_runFrom (Off hungUp.connections) (fun l e l' h hok hs => h.step hok hs) hoff
        (eachStep_of_forall (P := fun e : LineEvent => ∀ addr, e ≠ .connect addr) ?_) hrest
      rintro e he addr rfl
      exact hconnect addr he
    refine ⟨hend.conn, hend.connections, ?_⟩
    intro d hd
    obtain ⟨k, hk⟩ := List.mem_iff_getElem?.1 hd
    by_contra hlive
    cases (hend.aborted k d hk (Bool.eq_false_of_not_eq_true hlive)).1

/-- The user connects, and disconnects when the connection is up. -/
def upAndDown : List LineEvent :=
  [.connect "10.0.0.1:7100", .callerStop 0, .recv goesWell, .dialled 0 server 0, .spawn 0,
    .keep 0, .disconnect, .callerStop 1]

theorem single_line_upAndDown : ∃ l, runFrom step (init .default false) upAndDown = some l ∧
    l.core.conn = none ∧ ∀ d ∈ l.drains, d.aborted = true := by
  obtain ⟨l, hrun⟩ : ∃ l, runFrom step (init .default false) upAndDown = some l := ⟨_, rfl⟩
  have halone : EachStep step Alone (init .default false) upAndDown := by
    decide
  obtain ⟨-, -, hconn, -, haborted⟩ := (single_line .default false upAndDown l halone hrun).2
    (upAndDown.take 6) [.callerStop 1] rfl (by simp)
  exact ⟨l, hrun, hconn, haborted⟩

/-- Another server is picked before the first has answered. -/
def overlapping : List LineEvent :=
  [.connect "10.0.0.1:7100", .connect "10.0.0.2:7100", .callerStop 0, .callerStop 1,
    .dialled 0 server 0, .dialled 1 server 0, .spawn 0, .keep 0, .spawn 1, .keep 1, .lost 0,
    .disconnect, .callerStop 2, .lostStop 0, .dialledAgain 0 server, .reconnected 0]

/-- **Two lines**: the task of the first connection has lost its handle, so the `disconnect` does
not reach it, and it connects again. -/
theorem two_lines : ∃ l, runFrom step (init .default false) overlapping = some l ∧
    l.core.conn = some server ∧ l.core.drainHandle = none ∧
    l.drains.map Drain.aborted = [false, true] :=
  ⟨_, rfl, rfl, rfl, rfl⟩

/-- The connection is lost, and the user disconnects when the server has answered the drain task
and the task has not come to the lock. -/
def betweenHalves : List LineEvent :=
  [.connect "10.0.0.1:7100", .callerStop 0, .recv goesWell, .dialled 0 server 0, .spawn 0,
    .keep 0, .lost 0, .lostStop 0, .dialledAgain 0 server, .disconnect, .callerStop 1,
    .reconnected 0]

/-- **A late line**: the task stores its connection all the same, and waits for messages no more. -/
theorem late_line : ∃ l, runFrom step (init .default false) betweenHalves = some l ∧
    l.core.conn = some server ∧ l.drains.map Drain.aborted = [true] :=
  ⟨_, rfl, rfl, rfl⟩

end Line
end Desktop
end TcVoice
