import TcVoice.Client.Playout
import TcVoice.Client.Settings

/-!
# Volumes that follow a peer

The volumes that a listener has set for others, while these change their names.  `NameChanged`
moves the volume of the old name to the new one (`rename` of `crates/client/src/peer_gain.rs`);
`render_frame` looks it up by the name that the packets of a stream carry, and that is the one
the sender had when it started its voice.

* `get_rename` — what is read for every name after a rename.
* `Listening`, `Listening.step` — a call from the side of a listener.
* `PeerGains.carried_iff_clear` — when a rename carries the volume of the old name to the new one.
* `volumes_follow_iff` — **when the volumes follow the peers**, for all histories: a name without
  a volume must not be taken over by one that has been left behind, and nobody may go on sending,
  heard or not, under a name whose volume moves.
-/

namespace TcVoice
namespace Client

open Machines

/-! ## Renames -/

namespace PeerGains

variable {gains : PeerGains} {old new : String}

/-- What is read after a rename. -/
theorem get_rename (name : String) : (gains.rename old new).get name =
    match gains.map.lookup old with
    | none => gains.get name
    | some gain => if name = new then gain else if name = old then 1 else gains.get name := by
  unfold rename
  cases gains.map.lookup old with
  | none => rfl
  | some gain =>
    unfold get
    dsimp only
    rw [Table.lookup_insert_if, Table.lookup_erase_if]
    split_ifs <;> rfl

/-- What is asked of a rename: the new name is read as the old one was, which has none left. -/
def Carried (gains : PeerGains) (old new : String) : Prop :=
  old ≠ new →
    (gains.rename old new).get new = gains.get old ∧ (gains.rename old new).get old = 1

/-- The old name has a volume, or the new one has none. -/
def Clear (gains : PeerGains) (old new : String) : Prop :=
  old = new ∨ (gains.map.lookup old).isSome ∨ gains.get new = 1

/-- **A rename carries the volume along**, unless there is none and the new name has one. -/
theorem carried_iff_clear : gains.Carried old new ↔ gains.Clear old new := by
  unfold Carried Clear
  by_cases hne : old = new
  · exact iff_of_true (fun hdiff => absurd hne hdiff) (.inl hne)
  rw [get_rename, get_rename]
  cases hold : gains.map.lookup old with
  | none =>
    have hread : gains.get old = 1 := by
      unfold get
      rw [hold]
      rfl
    dsimp only
    rw [hread]
    constructor
    · intro h
      exact .inr (.inr (h hne).1)
    · rintro (hsame | hsome | hone) _
      · exact absurd hsame hne
      · cases hsome
      · exact ⟨hone, rfl⟩
  | some gain =>
    have hread : gains.get old = gain := by
      unfold get
      rw [hold]
      rfl
    dsimp only
    rw [hread, if_pos rfl, if_neg hne, if_pos rfl]
    exact iff_of_true (fun _ => ⟨rfl, rfl⟩) (.inr (.inl rfl))

/-- A rename that leaves what is read for another name: for the old one, if it has no volume; for
the new one, if the old one has none or the same. -/
def Stays (gains : PeerGains) (old new name : String) : Prop :=
  (name = old → gains.get old = 1) ∧
    (name = new → gains.map.lookup old = none ∨ gains.get old = gains.get new)

theorem get_rename_iff (hne : old ≠ new) (name : String) :
    (gains.rename old new).get name = gains.get name ↔ gains.Stays old new name := by
  rw [get_rename]
  unfold Stays
  cases hold : gains.map.lookup old with
  | none =>
    have hread : gains.get old = 1 := by
      unfold get
      rw [hold]
      rfl
    exact iff_of_true rfl ⟨fun _ => hread, fun _ => .inl rfl⟩
  | some gain =>
    have hread : gains.get old = gain := by
      unfold get
      rw [hold]
      rfl
    dsimp only
    by_cases hnew : name = new
    · subst hnew
      rw [if_pos rfl, hread]
      constructor
      · exact fun h => ⟨fun hsame => absurd hsame.symm hne, fun _ => .inr h⟩
      · intro h
        exact (h.2 rfl).resolve_left (by simp)
    · rw [if_neg hnew]
      by_cases hname : name = old
      · subst hname
        rw [if_pos rfl]
        exact ⟨fun h => ⟨fun _ => h.symm, fun hsame => absurd hsame hnew⟩, fun h => (h.1 rfl).symm⟩
      · rw [if_neg hname]
        exact iff_of_true rfl ⟨fun hsame => absurd hsame hname, fun hsame => absurd hsame hnew⟩

/-- A rename to the same name changes nothing that is read. -/
theorem get_rename_self (name : String) : (gains.rename old old).get name = gains.get name := by
  rw [get_rename]
  cases hold : gains.map.lookup old with
  | none => rfl
  | some gain =>
    dsimp only
    split_ifs with hname
    · subst hname
      unfold get
      rw [hold]
      rfl
    · rfl

end PeerGains

/-! ## A call -/

variable {F D : Type}

/-- A call from the side of a listener: the volumes, which are the same values for all its threads,
the streams, and the names that the senders in the call had when they started their voice, whether
the listener has heard them yet or not. -/
structure Listening (F D : Type) where
  gains : PeerGains
  engine : Engine F D
  senders : Finset String

/-- What happens in a call. -/
inductive CallEvent (F : Type) where
  /-- `/volume`, or the slider of a peer. -/
  | volume (name : String) (pct : ℕ)
  /-- Settings are imported. -/
  | volumes (pcts : Table String ℕ)
  /-- `NameChanged`. -/
  | nameChanged (oldName newName : String)
  /-- A sender with this name starts its voice. -/
  | starts (name : String)
  /-- Nobody sends under this name any more, and everything that was sent has come. -/
  | ends (name : String)
  /-- A packet of a sender that had this name when it started its voice. -/
  | packet (name : String) (seq : UInt32) (packet : Bytes) (now : ℕ)
  /-- The output asks for a frame. -/
  | frame (now pull : ℕ) (order : HashOrder String) (out : List F)

namespace Listening

variable [F32 F] (opus : OpusDecoder F D) (l : Listening F D)

/-- The factor for the samples of a stream. -/
def factor (name : String) : F :=
  let gain := l.gains.get name
  (gain.num.toNat : F) / (gain.den : F)

/-- One event.  A `NameChanged` without an old name is about the listener itself. -/
def step : CallEvent F → Listening F D × Unit
  | .volume name pct => ({ l with gains := l.gains.setPct name pct }, ())
  | .volumes pcts => ({ l with gains := .setAllFromPct pcts }, ())
  | .nameChanged oldName newName =>
    (if oldName = "" then l else { l with gains := l.gains.rename oldName newName }, ())
  | .starts name => ({ l with senders := insert name l.senders }, ())
  | .ends name => ({ l with senders := l.senders.erase name }, ())
  | .packet name seq packet now =>
    ({ l with
      engine := (l.engine.onPacket opus name seq packet now).1
      senders := insert name l.senders }, ())
  | .frame now pull order out =>
    ({ l with engine := (l.engine.renderFrame opus now pull order l.factor out).1 }, ())

/-- Whoever may still be mixed under a name: a sender in the call, or a stream that goes on after
its sender. -/
def Mixes (name : String) : Prop := name ∈ l.senders ∨ name ∈ l.engine.streams.keys

/-- What is asked of an event: the volume moves to the new name, and whoever may be mixed is so at
the volume of before. -/
def Follows : CallEvent F → Prop
  | .nameChanged oldName newName => oldName ≠ "" →
    l.gains.Carried oldName newName ∧ ∀ name, l.Mixes name →
      (l.step opus (.nameChanged oldName newName)).1.gains.get name = l.gains.get name
  | _ => True

/-- The new name takes over no volume that was left behind, and nobody goes on under a name whose
volume changes. -/
def Undisturbed : CallEvent F → Prop
  | .nameChanged oldName newName => oldName ≠ "" →
    l.gains.Clear oldName newName ∧
      (oldName ≠ newName → ∀ name, l.Mixes name → l.gains.Stays oldName newName name)
  | _ => True

end Listening

/-- One event. -/
theorem follows_iff [F32 F] (opus : OpusDecoder F D) (l : Listening F D) (event : CallEvent F) :
    l.Follows opus event ↔ l.Undisturbed event := by
  cases event with
  | nameChanged oldName newName =>
    refine forall_congr' fun hknown => and_congr PeerGains.carried_iff_clear ?_
    unfold Listening.step
    dsimp only
    rw [if_neg hknown]
    by_cases hne : oldName = newName
    · subst hne
      exact iff_of_true (fun name _ => PeerGains.get_rename_self name) fun hdiff => absurd rfl hdiff
    · constructor
      · intro h _ name hmem
        exact (PeerGains.get_rename_iff hne name).1 (h name hmem)
      · intro h name hmem
        exact (PeerGains.get_rename_iff hne name).2 (h hne name hmem)
  | _ => exact Iff.rfl

/-- **When volumes follow the peers**: whatever volumes there are, a rename carries the volume of
the old name to the new one exactly if there is one, or the new name has none; and in every
history of a call the volumes do so and every sender keeps the volume that it is mixed at, also one
that is silent or has not been heard yet, exactly if each `NameChanged` is such a rename and moves
no volume from or to a name that somebody sends under. -/
theorem volumes_follow_iff [F32 F] (opus : OpusDecoder F D) :
    (∀ (gains : PeerGains) (old new : String), gains.Carried old new ↔ gains.Clear old new) ∧
      ∀ (l : Listening F D) (events : List (CallEvent F)),
        Along (Listening.step opus) (Listening.Follows opus) l events ↔
          Along (Listening.step opus) Listening.Undisturbed l events := by
  refine ⟨fun gains old new => PeerGains.carried_iff_clear, fun l events => ?_⟩
  exact along_congr (fun _ _ (_ : True) _ => trivial)
    (fun l event (_ : True) => follows_iff opus l event) trivial events

/-- A peer whose volume is set is heard, and changes its name. -/
theorem left_behind : ¬ Along (Listening.step silent) (Listening.Follows silent)
    ⟨.new, .new, ∅⟩ [.volume "alice" 50, .packet "alice" 1 [] 0, .nameChanged "alice" "bob"] := by
  rintro ⟨-, -, hfollows, -⟩
  have hstays := (hfollows (by decide)).2 "alice" (.inl (by decide +kernel))
  exact absurd hstays (by decide +kernel)

end Client
end TcVoice
