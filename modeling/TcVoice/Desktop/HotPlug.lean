import TcVoice.Desktop.Devices

/-!
# Devices that come and go

What the user is asked about when devices are plugged in: the hot-plug detection of a supervision
pass, over any outcomes of listing the devices.

* `listed` — the devices of a kind, if they can be listed.
* `tick_plugs` — what a pass makes of them.
* `Watched`, `Watched.step` — the actor, with the last listing of each kind that has succeeded,
  and whether the last one of all failed.
* `Honest` — what is asked and shown is news to the last successful listing.
* `Settled` — no device seems to come or go only because a listing failed.
* `honest_iff` — **what a user is asked is news exactly when each poll is settled**;
  `old_device_asked` is a run in which a listing fails once.
-/

namespace TcVoice
namespace Desktop

open Runs

/-! ## What a pass makes of the devices -/

section Pass

variable (a : Answers)

/-- The devices of a kind, if they can be listed. -/
def listed (kind : Kind) : Option (Finset String) :=
  (a.listDevices kind).toOption.map List.toFinset

/-- A listing that fails is taken for an empty one. -/
theorem deviceNames_toFinset (kind : Kind) :
    (deviceNames a kind).toFinset = (listed a kind).getD ∅ := by
  unfold deviceNames listed
  cases (a.listDevices kind).toOption with
  | none => rfl
  | some names =>
    ext name
    rw [List.mem_toFinset, List.mem_dedup]
    exact List.mem_toFinset.symm

/-- The part of a supervisor that the detection of devices is about. -/
def Supervisor.plugs (sup : Supervisor) :
    (Kind → Option (Finset String)) × List NewDevice × Bool × Option ℕ :=
  (sup.known, sup.pendingNewDevices, sup.devicesChanged, sup.lastDevicePoll)

variable {a}

theorem plugs_count (sup : Supervisor) (res : Except String String) :
    (sup.count res).plugs = sup.plugs := by
  unfold Supervisor.count
  split <;> rfl

theorem plugs_rebuildDead (kind : Kind) (s : Supervised) :
    (rebuildDead a kind s).1.plugs = s.1.plugs := by
  obtain ⟨sup, handle⟩ := s
  cases handle with
  | none => rfl
  | some h =>
    simp only [rebuildDead]
    split
    · exact plugs_count _ _
    · rfl

theorem plugs_followDefault (kind : Kind) (s : Supervised) :
    (followDefault a kind s).1.plugs = s.1.plugs := by
  obtain ⟨sup, handle⟩ := s
  cases handle with
  | none => rfl
  | some h =>
    simp only [followDefault]
    split
    · split
      · exact plugs_count _ _
      · rfl
    · rfl

/-- What is asked about a new device: nothing, if it is the one that is wanted. -/
def asked (desired : Option String) (kind : Kind) (names : List String) : List NewDevice :=
  (names.filter fun name => desired ≠ some name).map (⟨kind, ·⟩)

theorem plugs_onNewDevice (kind : Kind) (name : String) (s : Supervised) :
    (onNewDevice a kind name s).1.plugs = (s.1.known,
      s.1.pendingNewDevices ++ asked (s.1.desired kind) kind [name], s.1.devicesChanged,
      s.1.lastDevicePoll) := by
  obtain ⟨sup, handle⟩ := s
  unfold onNewDevice asked
  dsimp only
  by_cases hwanted : sup.desired kind = some name
  · have hnone : [name].filter (fun name => sup.desired kind ≠ some name) = [] := by
      simp only [List.filter_cons, hwanted, ne_eq, not_true, decide_false, Bool.false_eq_true,
        if_false, List.filter_nil]
    rw [if_pos hwanted, hnone, List.map_nil, List.append_nil]
    cases handle with
    | none => rfl
    | some h => exact plugs_count _ _
  · have hall : [name].filter (fun name => sup.desired kind ≠ some name) = [name] := by
      simp only [List.filter_cons, hwanted, ne_eq, not_false_iff, decide_true, if_true,
        List.filter_nil]
    rw [if_neg hwanted, hall]
    rfl

/-- All new devices of a kind, by induction on their names. -/
theorem plugs_onNewDevices (kind : Kind) (known : Finset String) (s : Supervised) :
    (onNewDevices a kind known s).1.plugs = (s.1.known,
      s.1.pendingNewDevices ++
        asked (s.1.desired kind) kind ((deviceNames a kind).filter (· ∉ known)),
      s.1.devicesChanged, s.1.lastDevicePoll) := by
  unfold onNewDevices
  generalize (deviceNames a kind).filter (· ∉ known) = names
  induction names generalizing s with
  | nil =>
    show s.1.plugs = (_, _ ++ [], _, _)
    rw [List.append_nil]
    rfl
  | cons name names ih =>
    have hstep := plugs_onNewDevice (a := a) kind name s
    have hdesired := (attempts_onNewDevice (a := a) kind name s).moves.desired
    have hsplit : asked (s.1.desired kind) kind (name :: names) =
        asked (s.1.desired kind) kind [name] ++ asked (s.1.desired kind) kind names := by
      unfold asked
      rw [← List.map_append, ← List.filter_append, List.singleton_append]
    unfold Supervisor.plugs at hstep
    simp only [Prod.mk.injEq] at hstep
    obtain ⟨hknown, hpending, hchanged, hpoll⟩ := hstep
    rw [List.foldl_cons, ih, hknown, hpending, hchanged, hpoll, hdesired, hsplit,
      List.append_assoc]

/-- What a poll of the devices asks, and whether it says that they have changed. -/
def news (a : Answers) (sup : Supervisor) : List NewDevice × Bool :=
  match sup.known .input, sup.known .output with
  | some knownIn, some knownOut =>
    (asked (sup.desired .input) .input ((deviceNames a .input).filter (· ∉ knownIn)) ++
        asked (sup.desired .output) .output ((deviceNames a .output).filter (· ∉ knownOut)),
      decide ((deviceNames a .input).toFinset ≠ knownIn ∨
        (deviceNames a .output).toFinset ≠ knownOut))
  | _, _ => ([], false)

theorem news_of_known {sup : Supervisor} {knownIn knownOut : Finset String}
    (hin : sup.known .input = some knownIn) (hout : sup.known .output = some knownOut) :
    news a sup =
      (asked (sup.desired .input) .input ((deviceNames a .input).filter (· ∉ knownIn)) ++
          asked (sup.desired .output) .output ((deviceNames a .output).filter (· ∉ knownOut)),
        decide ((deviceNames a .input).toFinset ≠ knownIn ∨
          (deviceNames a .output).toFinset ≠ knownOut)) := by
  unfold news
  rw [hin, hout]

/-- Before a first poll of both kinds there is no news. -/
theorem news_of_unknown {sup : Supervisor} {kind : Kind} (h : sup.known kind = none) :
    news a sup = ([], false) := by
  unfold news
  split
  · rename_i knownIn knownOut hin hout
    cases kind with
    | input => exact absurd (hin.symm.trans h) (Option.some_ne_none _)
    | output => exact absurd (hout.symm.trans h) (Option.some_ne_none _)
  · rfl

theorem mem_asked {desired : Option String} {kind : Kind} {known : Finset String}
    {d : NewDevice} : d ∈ asked desired kind ((deviceNames a kind).filter (· ∉ known)) ↔
      d.kind = kind ∧ d.name ∈ (listed a kind).getD ∅ ∧ d.name ∉ known ∧
        desired ≠ some d.name := by
  unfold asked
  rw [List.mem_map, ← deviceNames_toFinset, List.mem_toFinset]
  constructor
  · rintro ⟨name, hname, rfl⟩
    rw [List.mem_filter, List.mem_filter, decide_eq_true_iff, decide_eq_true_iff] at hname
    exact ⟨rfl, hname.1.1, hname.1.2, hname.2⟩
  · rintro ⟨rfl, hmem, hnew, hother⟩
    refine ⟨d.name, ?_, rfl⟩
    rw [List.mem_filter, List.mem_filter, decide_eq_true_iff, decide_eq_true_iff]
    exact ⟨⟨hmem, hnew⟩, hother⟩

/-- What is asked about is listed, was not known, and is not wanted anyway. -/
theorem mem_news {sup : Supervisor} {known : Kind → Finset String}
    (hknown : ∀ kind, sup.known kind = some (known kind)) {d : NewDevice} :
    d ∈ (news a sup).1 ↔ d.name ∈ (listed a d.kind).getD ∅ ∧ d.name ∉ known d.kind ∧
      sup.desired d.kind ≠ some d.name := by
  rw [news_of_known (hknown .input) (hknown .output), List.mem_append, mem_asked, mem_asked]
  obtain ⟨kind, name⟩ := d
  cases kind with
  | input =>
    constructor
    · rintro (⟨-, h⟩ | ⟨hkind, -⟩)
      · exact h
      · cases hkind
    · exact fun h => .inl ⟨rfl, h⟩
  | output =>
    constructor
    · rintro (⟨hkind, -⟩ | ⟨-, h⟩)
      · cases hkind
      · exact h
    · exact fun h => .inr ⟨rfl, h⟩

theorem news_changed {sup : Supervisor} {known : Kind → Finset String}
    (hknown : ∀ kind, sup.known kind = some (known kind)) :
    (news a sup).2 = true ↔ ∃ kind, (listed a kind).getD ∅ ≠ known kind := by
  rw [news_of_known (hknown .input) (hknown .output), decide_eq_true_iff, deviceNames_toFinset,
    deviceNames_toFinset]
  constructor
  · rintro (hin | hout)
    · exact ⟨.input, hin⟩
    · exact ⟨.output, hout⟩
  · rintro ⟨kind, hkind⟩
    cases kind with
    | input => exact .inl hkind
    | output => exact .inr hkind

theorem news_congr {sup sup' : Supervisor} (hknown : sup'.known = sup.known)
    (hdesired : sup'.desired = sup.desired) : news a sup' = news a sup := by
  unfold news
  rw [hknown, hdesired]

theorem plugs_hotPlug (s : Supervised) :
    (hotPlug a s).1.plugs = (fun kind => some ((listed a kind).getD ∅),
      s.1.pendingNewDevices ++ (news a s.1).1, s.1.devicesChanged || (news a s.1).2,
      s.1.lastDevicePoll) := by
  have hknown : (hotPlug a s).1.known = fun kind => some ((listed a kind).getD ∅) := by
    funext kind
    cases kind with
    | input => exact congrArg some (deviceNames_toFinset a .input)
    | output => exact congrArg some (deviceNames_toFinset a .output)
  have hrest : (hotPlug a s).1.pendingNewDevices = s.1.pendingNewDevices ++ (news a s.1).1 ∧
      (hotPlug a s).1.devicesChanged = (s.1.devicesChanged || (news a s.1).2) ∧
      (hotPlug a s).1.lastDevicePoll = s.1.lastDevicePoll := by
    unfold hotPlug
    dsimp only
    split
    · rename_i knownIn knownOut hknownIn hknownOut
      have hnews := news_of_known (a := a) hknownIn hknownOut
      have hin := plugs_onNewDevices (a := a) .input knownIn s
      have hdesired := (attempts_onNewDevices (a := a) .input knownIn s).moves.desired
      have hout := plugs_onNewDevices (a := a) .output knownOut (onNewDevices a .input knownIn s)
      unfold Supervisor.plugs at hin hout
      simp only [Prod.mk.injEq] at hin hout
      obtain ⟨-, hpending, hchanged, hpoll⟩ := hin
      obtain ⟨-, hpending', hchanged', hpoll'⟩ := hout
      rw [hpending, hdesired, List.append_assoc] at hpending'
      rw [hnews]
      split
      · rename_i hdiffers
        refine ⟨hpending', ?_, hpoll'.trans hpoll⟩
        rw [decide_eq_true hdiffers, Bool.or_true]
      · rename_i hsame
        refine ⟨hpending', ?_, hpoll'.trans hpoll⟩
        rw [decide_eq_false hsame, Bool.or_false]
        exact hchanged'.trans hchanged
    · rename_i hnone
      have hnews : news a s.1 = ([], false) := by
        cases hin : s.1.known .input with
        | none => exact news_of_unknown hin
        | some knownIn =>
          cases hout : s.1.known .output with
          | none => exact news_of_unknown hout
          | some knownOut => exact absurd hout (hnone knownIn knownOut hin)
      rw [hnews, List.append_nil, Bool.or_false]
      exact ⟨rfl, rfl, rfl⟩
  obtain ⟨hpending, hchanged, hpoll⟩ := hrest
  unfold Supervisor.plugs
  rw [hknown, hpending, hchanged, hpoll]

/-- Whether a pass polls the devices. -/
def polls (a : Answers) (sup : Supervisor) : Bool :=
  a.elapsed Config.devicePollIntervalMs sup.lastDevicePoll

/-- **What a supervision pass makes of the devices.** -/
theorem tick_plugs (s : Supervised) :
    (tick a s).1.known =
        (if polls a s.1 then fun kind => some ((listed a kind).getD ∅) else s.1.known) ∧
      (tick a s).1.pendingNewDevices =
        s.1.pendingNewDevices ++ (if polls a s.1 then (news a s.1).1 else []) ∧
      (tick a s).1.devicesChanged =
        (s.1.devicesChanged || (polls a s.1 && (news a s.1).2)) := by
  have hdead := (plugs_rebuildDead (a := a) .output (rebuildDead a .input s)).trans
    (plugs_rebuildDead .input s)
  have hdesired := ((attempts_rebuildDead (a := a) .input s).trans
    (attempts_rebuildDead (a := a) .output _)).moves.desired
  unfold tick polls
  generalize rebuildDead a .output (rebuildDead a .input s) = t at hdead hdesired ⊢
  have hfields := hdead
  unfold Supervisor.plugs at hfields
  simp only [Prod.mk.injEq] at hfields
  obtain ⟨hknown, hpending, hchanged, hpoll⟩ := hfields
  dsimp only
  rw [hpoll]
  by_cases hdue : a.elapsed Config.devicePollIntervalMs s.1.lastDevicePoll = true
  · rw [if_pos hdue, if_pos hdue, if_pos hdue]
    have hpolled := (plugs_followDefault (a := a) .output
      (followDefault a .input ({ t.1 with lastDevicePoll := some a.now }, t.2))).trans
        (plugs_followDefault .input _)
    have hwanted := ((attempts_followDefault (a := a) .input
      ({ t.1 with lastDevicePoll := some a.now }, t.2)).trans
        (attempts_followDefault (a := a) .output _)).moves.desired
    generalize followDefault a .output
      (followDefault a .input ({ t.1 with lastDevicePoll := some a.now }, t.2)) = u
      at hpolled hwanted ⊢
    have hplugged := plugs_hotPlug (a := a) u
    unfold Supervisor.plugs at hpolled hplugged
    simp only [Prod.mk.injEq] at hpolled hplugged
    obtain ⟨hknownU, hpendingU, hchangedU, -⟩ := hpolled
    obtain ⟨hknown', hpending', hchanged', -⟩ := hplugged
    have hnews : news a u.1 = news a s.1 :=
      news_congr (hknownU.trans hknown) (hwanted.trans hdesired)
    refine ⟨hknown', ?_, ?_⟩
    · rw [hpending', hnews, hpendingU, hpending]
    · rw [hchanged', hnews, hchangedU, hchanged, hdue, Bool.true_and]
  · rw [if_neg hdue, if_neg hdue, if_neg hdue, hknown, hpending, hchanged, List.append_nil,
      Bool.eq_false_iff.2 hdue, Bool.false_and, Bool.or_false]
    exact ⟨rfl, rfl, rfl⟩

end Pass

/-! ## The listings that have succeeded -/

/-- The actor, with the devices of each kind when they could last be listed, and whether they
could not be at the last poll. -/
structure Watched where
  actor : Actor
  good : Kind → Option (Finset String)
  failed : Kind → Bool

namespace Watched

/-- Before the first command. -/
def init : Watched := ⟨.init, fun _ => none, fun _ => false⟩

/-- One step, if it can happen. -/
def step (w : Watched) : ActorEvent → Option Watched
  | .recv cmd a => if w.actor.ticking then none else some { w with actor := (w.actor.recv a cmd).1 }
  | .finish a =>
    if w.actor.ticking then
      if polls a w.actor.sup then
        some ⟨(w.actor.finish a).1, fun kind => (listed a kind).or (w.good kind),
          fun kind => (listed a kind).isNone⟩
      else some { w with actor := (w.actor.finish a).1 }
    else none
  | .streamFailed kind => some { w with actor := w.actor.streamFailed kind }

variable (w : Watched) (a : Answers)

/-- The devices of a kind are not those that could last be listed. -/
def Changed (kind : Kind) : Prop :=
  ∃ good names, w.good kind = some good ∧ listed a kind = some names ∧ names ≠ good

/-- What a pass makes of the devices: it asks about those only that were not there when they could
last be listed, and it says that they have changed only if some have. -/
def Honest : ActorEvent → Prop
  | .finish a =>
    (∀ d ∈ (w.actor.supervise a).sup.pendingNewDevices,
      ∃ good, w.good d.kind = some good ∧ d.name ∉ good) ∧
    ((w.actor.supervise a).sup.devicesChanged = true → ∃ kind, w.Changed a kind)
  | _ => True

/-- The devices of a kind seem to go, as they cannot be listed any more, or to come, as they can be
again. -/
def Flickers (kind : Kind) : Prop :=
  (w.failed kind = false ∧ listed a kind = none ∧ w.good kind ≠ some ∅) ∨
    (w.failed kind = true ∧ ∃ names, listed a kind = some names ∧ names ≠ ∅)

/-- The condition on a pass, where it polls the devices and has done so since the last start: what
is listed again after a failure is wanted or really new, and where some devices flicker, others or
they have really changed. -/
def Settled : ActorEvent → Prop
  | .finish a => polls a w.actor.sup = true → (∀ kind, (w.actor.sup.known kind).isSome) →
    (∀ kind, w.failed kind = true → ∀ names, listed a kind = some names → ∀ name ∈ names,
      w.actor.sup.desired kind = some name ∨ ∃ good, w.good kind = some good ∧ name ∉ good) ∧
    ((∃ kind, w.Flickers a kind) → ∃ kind, w.Changed a kind)
  | _ => True

/-- What is known between two passes: nothing is waiting to be asked, and the devices of the last
poll are those that could last be listed, or none if that poll failed. -/
structure Tracked (w : Watched) : Prop where
  pending : w.actor.sup.pendingNewDevices = []
  changed : w.actor.sup.devicesChanged = false
  ok : ∀ kind s, w.actor.sup.known kind = some s → w.failed kind = false → w.good kind = some s
  lost : ∀ kind s, w.actor.sup.known kind = some s → w.failed kind = true → s = ∅

variable {w} {w' : Watched} {a}

/-- A new supervisor knows of no devices, and no other command is about them. -/
theorem recv_plugs (act : Actor) (cmd : Cmd) :
    (∃ desired, (act.recv a cmd).1.sup = .new desired) ∨
      (act.recv a cmd).1.sup.plugs = act.sup.plugs := by
  cases cmd with
  | start p =>
    refine .inl ⟨p.device, ?_⟩
    show (act.start a p).1.sup = _
    unfold Actor.start
    dsimp only
    split <;> rfl
  | stop => exact .inr rfl
  | snapshot =>
    right
    show (act.restart a).sup.plugs = _
    unfold Actor.restart
    split
    · split <;> rfl
    · rfl
  | setInputDevice name => exact .inr rfl
  | setOutputDevice name => exact .inr rfl
  | echoStart p =>
    right
    show (act.echoStart a p).1.sup.plugs = _
    unfold Actor.echoStart
    split <;> rfl
  | echoStop => exact .inr rfl

theorem Tracked.recv (h : w.Tracked) (cmd : Cmd) :
    Tracked { w with actor := (w.actor.recv a cmd).1 } := by
  rcases recv_plugs (a := a) w.actor cmd with ⟨desired, hnew⟩ | hsame
  · have hunknown : ∀ kind s, (w.actor.recv a cmd).1.sup.known kind = some s → False := by
      intro kind s hknown
      rw [hnew] at hknown
      cases hknown
    exact ⟨congrArg Supervisor.pendingNewDevices hnew, congrArg Supervisor.devicesChanged hnew,
      fun kind s hknown => (hunknown kind s hknown).elim,
      fun kind s hknown => (hunknown kind s hknown).elim⟩
  · unfold Supervisor.plugs at hsame
    simp only [Prod.mk.injEq] at hsame
    obtain ⟨hknown, hpending, hchanged, -⟩ := hsame
    exact ⟨hpending.trans h.pending, hchanged.trans h.changed,
      fun kind s hs => h.ok kind s (hknown ▸ hs), fun kind s hs => h.lost kind s (hknown ▸ hs)⟩

/-- A pass that does not poll leaves what is known. -/
theorem Tracked.finish (h : w.Tracked) (hpolls : ¬ polls a w.actor.sup = true) :
    Tracked { w with actor := (w.actor.finish a).1 } := by
  have hknown := (tick_plugs (a := a) (w.actor.sup, w.actor.handle)).1
  rw [if_neg hpolls] at hknown
  exact ⟨rfl, rfl, fun kind s hs => h.ok kind s (hknown ▸ hs),
    fun kind s hs => h.lost kind s (hknown ▸ hs)⟩

/-- A poll finds what could be listed, and nothing where nothing could. -/
theorem tracked_polled (hpolls : polls a w.actor.sup = true) :
    Tracked ⟨(w.actor.finish a).1, fun kind => (listed a kind).or (w.good kind),
      fun kind => (listed a kind).isNone⟩ := by
  have hknown := (tick_plugs (a := a) (w.actor.sup, w.actor.handle)).1
  rw [if_pos hpolls] at hknown
  have hkind : ∀ kind s, (w.actor.finish a).1.sup.known kind = some s →
      (listed a kind).getD ∅ = s := by
    intro kind s hs
    have hs' : (tick a (w.actor.sup, w.actor.handle)).1.known kind = some s := hs
    rw [hknown] at hs'
    exact Option.some.inj hs'
  refine ⟨rfl, rfl, fun kind s hs hok => ?_, fun kind s hs hlost => ?_⟩
  · have hs' := hkind kind s hs
    dsimp only at hok ⊢
    cases hlisted : listed a kind with
    | none =>
      rw [hlisted] at hok
      cases hok
    | some names =>
      rw [hlisted] at hs'
      exact congrArg some hs'
  · have hs' := hkind kind s hs
    rw [Option.isNone_iff_eq_none.1 hlost] at hs'
    exact hs'.symm

theorem Tracked.step (h : w.Tracked) {e : ActorEvent} (hs : w.step e = some w') : w'.Tracked := by
  cases e with
  | recv cmd a =>
    unfold Watched.step at hs
    dsimp only at hs
    split at hs
    · cases hs
    · cases hs
      exact h.recv cmd
  | finish a =>
    unfold Watched.step at hs
    dsimp only at hs
    split at hs
    · split at hs <;> rename_i hpolls <;> cases hs
      · exact tracked_polled hpolls
      · exact h.finish hpolls
    · cases hs
  | streamFailed kind =>
    cases hs
    exact ⟨h.pending, h.changed, h.ok, h.lost⟩

/-- Where the devices of a kind differ from the known ones, they flicker or have changed. -/
theorem Tracked.differs_iff (h : w.Tracked) {kind : Kind} {known : Finset String}
    (hknown : w.actor.sup.known kind = some known) :
    (listed a kind).getD ∅ ≠ known ↔
      w.Flickers a kind ∨ w.failed kind = false ∧ w.Changed a kind := by
  unfold Flickers Changed
  cases hfailed : w.failed kind with
  | false =>
    have hgood := h.ok kind known hknown hfailed
    rw [hgood]
    cases hlisted : listed a kind with
    | none =>
      constructor
      · exact fun hne => .inl (.inl ⟨rfl, rfl, fun he => hne (Option.some.inj he).symm⟩)
      · rintro ((⟨-, -, hne⟩ | ⟨hf, -⟩) | ⟨-, good, names, -, hnames, -⟩)
        · exact fun he => hne (congrArg some he.symm)
        · cases hf
        · cases hnames
    | some names =>
      constructor
      · exact fun hne => .inr ⟨rfl, known, names, rfl, rfl, hne⟩
      · rintro ((⟨-, hn, -⟩ | ⟨hf, -⟩) | ⟨-, good, names', hg, hnames, hne⟩)
        · cases hn
        · cases hf
        · cases hg
          cases hnames
          exact hne
  | true =>
    obtain rfl := h.lost kind known hknown hfailed
    cases hlisted : listed a kind with
    | none =>
      refine iff_of_false (fun hne => hne rfl) ?_
      rintro ((⟨hf, -⟩ | ⟨-, names, hnames, -⟩) | ⟨hf, -⟩)
      · cases hf
      · cases hnames
      · cases hf
    | some names =>
      constructor
      · exact fun hne => .inl (.inr ⟨rfl, names, rfl, hne⟩)
      · rintro ((⟨hf, -⟩ | ⟨-, names', hnames, hne⟩) | ⟨hf, -⟩)
        · cases hf
        · cases hnames
          exact hne
        · cases hf

/-- What a snapshot asks and shows is the news of its pass, if it polls the devices. -/
theorem Tracked.supervise (h : w.Tracked) :
    (w.actor.supervise a).sup.pendingNewDevices =
        (if polls a w.actor.sup then (news a w.actor.sup).1 else []) ∧
      (w.actor.supervise a).sup.devicesChanged =
        (polls a w.actor.sup && (news a w.actor.sup).2) := by
  obtain ⟨-, hpending, hchanged⟩ := tick_plugs (a := a) (w.actor.sup, w.actor.handle)
  constructor
  · refine hpending.trans ?_
    rw [h.pending, List.nil_append]
  · refine hchanged.trans ?_
    rw [h.changed, Bool.false_or]

/-- What is asked is news exactly when what is listed again is. -/
theorem Tracked.asked_iff (h : w.Tracked) {known : Kind → Finset String}
    (hknown : ∀ kind, w.actor.sup.known kind = some (known kind)) :
    (∀ d ∈ (news a w.actor.sup).1, ∃ good, w.good d.kind = some good ∧ d.name ∉ good) ↔
      ∀ kind, w.failed kind = true → ∀ names, listed a kind = some names → ∀ name ∈ names,
        w.actor.sup.desired kind = some name ∨ ∃ good, w.good kind = some good ∧ name ∉ good := by
  constructor
  · intro hasked kind hfailed names hnames name hname
    by_cases hwanted : w.actor.sup.desired kind = some name
    · exact .inl hwanted
    · refine .inr (hasked ⟨kind, name⟩ ((mem_news hknown).2 ⟨?_, ?_, hwanted⟩))
      · rw [hnames]
        exact hname
      · rw [h.lost kind _ (hknown kind) hfailed]
        exact Finset.notMem_empty name
  · intro hsettled d hd
    obtain ⟨hmem, hnew, hother⟩ := (mem_news hknown).1 hd
    cases hfailed : w.failed d.kind with
    | false => exact ⟨known d.kind, h.ok d.kind _ (hknown d.kind) hfailed, hnew⟩
    | true =>
      cases hlisted : listed a d.kind with
      | none =>
        rw [hlisted] at hmem
        exact absurd hmem (Finset.notMem_empty _)
      | some names =>
        rw [hlisted] at hmem
        exact (hsettled d.kind hfailed names hlisted d.name hmem).resolve_left hother

/-- What is shown is true exactly when devices that flicker are not the only change. -/
theorem Tracked.shown_iff (h : w.Tracked) {known : Kind → Finset String}
    (hknown : ∀ kind, w.actor.sup.known kind = some (known kind)) :
    ((news a w.actor.sup).2 = true → ∃ kind, w.Changed a kind) ↔
      ((∃ kind, w.Flickers a kind) → ∃ kind, w.Changed a kind) := by
  rw [news_changed hknown]
  constructor
  · rintro hshown ⟨kind, hkind⟩
    exact hshown ⟨kind, (h.differs_iff (hknown kind)).2 (.inl hkind)⟩
  · rintro hsettled ⟨kind, hkind⟩
    rcases (h.differs_iff (hknown kind)).1 hkind with hflickers | ⟨-, hreally⟩
    · exact hsettled ⟨kind, hflickers⟩
    · exact ⟨kind, hreally⟩

/-- **One step is honest exactly when it is a settled one.** -/
theorem Tracked.honest_settled (h : w.Tracked) {e : ActorEvent} : w.Honest e ↔ w.Settled e := by
  cases e with
  | recv cmd a => exact Iff.rfl
  | streamFailed kind => exact Iff.rfl
  | finish a =>
    obtain ⟨hpending, hchanged⟩ := h.supervise (a := a)
    unfold Honest Settled
    dsimp only
    rw [hpending, hchanged]
    by_cases hpolls : polls a w.actor.sup = true
    · rw [if_pos hpolls, hpolls, Bool.true_and]
      by_cases hall : ∀ kind, (w.actor.sup.known kind).isSome
      · choose known hknown using fun kind => Option.isSome_iff_exists.1 (hall kind)
        rw [h.asked_iff hknown, h.shown_iff hknown]
        exact ⟨fun hboth _ _ => hboth, fun hboth => hboth rfl hall⟩
      · -- the first poll since the start asks nothing
        obtain ⟨kind, hkind⟩ := not_forall.1 hall
        rw [news_of_unknown (Option.not_isSome_iff_eq_none.1 hkind)]
        refine iff_of_true ⟨fun d hd => ?_, fun hf => ?_⟩ fun _ hall' => absurd hall' hall
        · cases hd
        · cases hf
    · rw [if_neg hpolls, Bool.eq_false_iff.2 hpolls, Bool.false_and]
      refine iff_of_true ⟨fun d hd => ?_, fun hf => ?_⟩ fun hf => ?_
      · cases hd
      · cases hf
      · cases hf

theorem Tracked.init : Tracked init where
  pending := rfl
  changed := rfl
  ok kind s hs := by cases hs
  lost kind s hs := by cases hs

/-- **What a user is asked about devices is news** as long as no failed listing makes devices seem
to come or go.  For every sequence of commands and snapshots, with any answers of the system: each
snapshot asks only about devices that were not there when those of their kind could last be
listed, and says that devices have changed only if some really have, exactly when in each poll
after the first one since a start, each device that is listed again after its kind could not be is
the wanted one or really new, and devices that seem to come or go are not the only change. -/
theorem honest_iff (es : List ActorEvent) :
    EachStep step Honest init es ↔ EachStep step Settled init es :=
  eachStep_congr_of_inv Tracked (fun _ _ _ h hs => h.step hs) (fun _ _ _ h _ => h.honest_settled)
    Tracked.init

/-! ## A listing that fails once -/

/-- What the system answers at a time, with a listing of the microphones. -/
def plugged (now : ℕ) (mics : Except String (List String)) : Answers where
  now := now
  start := .ok ()
  openDevice _ _ := .ok "device"
  defaultName _ := none
  listDevices
    | .input => mics
    | .output => .ok ["speakers"]
  registered := true
  bytesReceived := 0

/-- A snapshot at a time, with a listing of the microphones. -/
def snapshotAt (now : ℕ) (mics : Except String (List String)) : List ActorEvent :=
  [.recv .snapshot (plugged now mics), .finish (plugged now mics)]

/-- The microphone is there throughout, but its second listing fails. -/
def failsOnce : List ActorEvent :=
  snapshotAt 0 (.ok ["mic"]) ++ snapshotAt 5000 (.error "busy") ++ snapshotAt 10000 (.ok ["mic"])

/-- **An old device is asked about**: the user is asked about the microphone that was there
already when the microphones could last be listed. -/
theorem old_device_asked : ¬ EachStep step Honest init failsOnce := by
  have hrun : ∃ w w', runFrom step init (failsOnce.take 5) = some w ∧
      w.step (.finish (plugged 10000 (.ok ["mic"]))) = some w' ∧
      ⟨.input, "mic"⟩ ∈
        (w.actor.supervise (plugged 10000 (.ok ["mic"]))).sup.pendingNewDevices ∧
      w.good .input = some {"mic"} :=
    ⟨_, _, rfl, rfl, by decide, by decide⟩
  obtain ⟨w, w', hw, hw', hasked, hgood⟩ := hrun
  intro hhonest
  rw [← List.take_append_drop 5 failsOnce] at hhonest
  have hlast := (eachStep_append hhonest hw).2
  obtain ⟨good, hgood', hnew⟩ := (hlast w' hw').1.1 _ hasked
  obtain rfl := Option.some.inj (hgood.symm.trans hgood')
  exact hnew (Finset.mem_singleton_self _)

end Watched

end Desktop
end TcVoice
