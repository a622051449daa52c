import TcVoice.Lib.Table
import Mathlib.Algebra.Order.Field.Rat
import Mathlib.Tactic.NormNum

/-!
# Live levels

`LiveLevels` of `crates/client/src/level.rs`: how loud everybody is right now, for whoever
polls it, with a version that says when there is nothing new.

* `LiveLevels` — own level, version and peers; `setOwn`, `publishPeers`, `clear`, `snapshot`.
* `Shown` — what has been said last: an own level, and the list of a publish.
* `table_publishPeers`, `version_publishPeers` — a publish in place leaves the peers of its
  list, and moves the version exactly when they are not the ones that were there.
* `snapshot_after` — **a reader gets what was said last**, whatever was in its buffer, and
  **the version moves with every change and nothing else**, modulo `2 ^ 64`.
-/

namespace TcVoice
namespace Client

/-- `Peer`. -/
structure Peer (L : Type) where
  name : String
  level : L
  seen : Bool

/-- `LiveLevels`.  A level is a number that `loudness` has made, between 0 and 1. -/
structure LiveLevels (L : Type) where
  own : L
  version : UInt64
  peers : List (Peer L)
  distinct : (peers.map Peer.name).Nodup

/-! ## The writers -/

namespace LiveLevels

variable {L : Type}

/-- Every `seen` taken back. -/
def unmarked (peers : List (Peer L)) : List (Peer L) :=
  peers.map fun p => { p with seen := false }

theorem distinct_unmarked {peers : List (Peer L)} (h : (peers.map Peer.name).Nodup) :
    ((unmarked peers).map Peer.name).Nodup := by
  unfold unmarked
  rwa [List.map_map]

section Writers

variable [DecidableEq L]

/-- One turn of the loop of `publish_peers`: the peers, and whether one is new or changed. -/
def publishOne (name : String) (level : L) : List (Peer L) → List (Peer L) × Bool
  | [] => ([⟨name, level, true⟩], true)
  | p :: peers =>
    if p.name = name then ({ p with level, seen := true } :: peers, decide (p.level ≠ level))
    else
      let (peers, changed) := publishOne name level peers
      (p :: peers, changed)

/-- The loop of `publish_peers`. -/
def publishAll : List (String × L) → List (Peer L) × Bool → List (Peer L) × Bool
  | [], (peers, changed) => (peers, changed)
  | (name, level) :: levels, (peers, changed) =>
    let (peers, moved) := publishOne name level peers
    publishAll levels (peers, changed || moved)

theorem name_publishOne (name : String) (level : L) (peers : List (Peer L)) :
    (publishOne name level peers).1.map Peer.name =
      if name ∈ peers.map Peer.name then peers.map Peer.name
      else peers.map Peer.name ++ [name] := by
  induction peers with
  | nil => simp [publishOne]
  | cons p peers ih =>
    by_cases hname : p.name = name
    · simp [publishOne, hname]
    · simp only [publishOne, hname, if_false, List.map_cons, ih, List.mem_cons,
        Ne.symm hname, false_or]
      split <;> rfl

theorem distinct_publishOne {name : String} {level : L} {peers : List (Peer L)}
    (h : (peers.map Peer.name).Nodup) :
    ((publishOne name level peers).1.map Peer.name).Nodup := by
  rw [name_publishOne]
  split
  · exact h
  · rename_i hnew
    exact List.concat_eq_append ▸ h.concat hnew

theorem distinct_publishAll {levels : List (String × L)} {peers : List (Peer L)}
    (h : (peers.map Peer.name).Nodup) (changed : Bool) :
    ((publishAll levels (peers, changed)).1.map Peer.name).Nodup := by
  induction levels generalizing peers changed with
  | nil => exact h
  | cons e levels ih => exact ih (distinct_publishOne h) _

/-- `LiveLevels::new`. -/
def new [Zero L] : LiveLevels L := ⟨0, 0, [], List.nodup_nil⟩

/-- `LiveLevels::set_own`. -/
def setOwn (live : LiveLevels L) (level : L) : LiveLevels L :=
  { live with
    own := level
    version := if live.own ≠ level then live.version + 1 else live.version }

/-- `LiveLevels::publish_peers`. -/
def publishPeers (live : LiveLevels L) (levels : List (String × L)) : LiveLevels L :=
  let all := publishAll levels (unmarked live.peers, false)
  let kept := all.1.filter Peer.seen
  let changed := all.2 || decide (kept.length ≠ all.1.length)
  { live with
    peers := kept
    version := if changed then live.version + 1 else live.version
    distinct := (distinct_publishAll (distinct_unmarked live.distinct) false).sublist
      (List.filter_sublist.map _) }

/-- `LiveLevels::clear`. -/
def clear [Zero L] (live : LiveLevels L) : LiveLevels L := (live.setOwn 0).publishPeers []

end Writers

/-! ## The reader -/

/-- The loop of `snapshot`: every peer into its place of the buffer. -/
def copyInto : List (Peer L) → ℕ → List (String × L) → List (String × L)
  | [], _, out => out
  | p :: peers, i, out =>
    copyInto peers (i + 1)
      (if i < out.length then out.set i (p.name, p.level) else out ++ [(p.name, p.level)])

/-- `LiveLevels::snapshot`: own level, version and what is in the buffer after it. -/
def snapshot (live : LiveLevels L) (out : List (String × L)) :
    L × UInt64 × List (String × L) :=
  (live.own, live.version, copyInto live.peers 0 (out.take live.peers.length))

/-- The peers with their levels. -/
def levels (live : LiveLevels L) : List (String × L) :=
  live.peers.map fun p => (p.name, p.level)

theorem copyInto_eq (peers : List (Peer L)) (done out : List (String × L))
    (hout : out.length ≤ peers.length) :
    copyInto peers done.length (done ++ out) = done ++ peers.map fun p => (p.name, p.level) := by
  induction peers generalizing done out with
  | nil =>
    rw [List.eq_nil_of_length_eq_zero (Nat.le_zero.1 hout)]
    rfl
  | cons p peers ih =>
    have hnext (rest : List (String × L)) (h : rest.length ≤ peers.length) :
        copyInto peers (done.length + 1) (done ++ (p.name, p.level) :: rest) =
          done ++ (p :: peers).map fun p => (p.name, p.level) := by
      have := ih (done ++ [(p.name, p.level)]) rest h
      simpa using this
    cases out with
    | nil => simpa [copyInto] using hnext [] (Nat.zero_le _)
    | cons slot out => simpa [copyInto] using hnext out (by simpa using hout)

/-- A reader gets the peers as they are, whatever was in its buffer. -/
theorem snapshot_eq (live : LiveLevels L) (out : List (String × L)) :
    live.snapshot out = (live.own, live.version, live.levels) := by
  have hcopy : copyInto live.peers 0 (out.take live.peers.length) = live.levels :=
    copyInto_eq live.peers [] _ (List.length_take_le _ _)
  rw [snapshot, hcopy]

/-! ## What a publish leaves -/

section Publish

variable [DecidableEq L] {name : String} {level : L} {peers : List (Peer L)} {q : Peer L}

theorem mem_publishOne (h : (peers.map Peer.name).Nodup) :
    q ∈ (publishOne name level peers).1 ↔ q = ⟨name, level, true⟩ ∨ q ∈ peers ∧ q.name ≠ name := by
  induction peers with
  | nil => simp [publishOne]
  | cons p peers ih =>
    obtain ⟨hp, hpeers⟩ := List.nodup_cons.1 h
    by_cases hname : p.name = name
    · have hother : q ∈ peers → q.name ≠ name := by
        rintro hq rfl
        exact hp (hname ▸ List.mem_map_of_mem hq)
      have hp' : q = p → q.name = name := fun heq => heq ▸ hname
      simp only [publishOne, hname, if_true, List.mem_cons]
      tauto
    · have hp' : q = p → q.name ≠ name := fun heq => heq ▸ hname
      simp only [publishOne, if_neg hname, List.mem_cons, ih hpeers]
      tauto

/-- A turn of the loop changes something unless the peer is there with that level. -/
theorem changed_publishOne (h : (peers.map Peer.name).Nodup) :
    (publishOne name level peers).2 = false ↔ ∃ p ∈ peers, p.name = name ∧ p.level = level := by
  induction peers with
  | nil => simp [publishOne]
  | cons p peers ih =>
    obtain ⟨hp, hpeers⟩ := List.nodup_cons.1 h
    by_cases hname : p.name = name
    · have hother : ¬ ∃ q ∈ peers, q.name = name ∧ q.level = level := by
        rintro ⟨q, hq, hqn, -⟩
        exact hp (hname.trans hqn.symm ▸ List.mem_map_of_mem hq)
      simp [publishOne, hname, hother]
    · simp [publishOne, hname, ih hpeers]

variable {levels : List (String × L)} {changed : Bool}

theorem mem_publishAll (hlevels : (levels.map Prod.fst).Nodup)
    (hpeers : (peers.map Peer.name).Nodup) :
    q ∈ (publishAll levels (peers, changed)).1 ↔
      (∃ e ∈ levels, q = ⟨e.1, e.2, true⟩) ∨ q ∈ peers ∧ q.name ∉ levels.map Prod.fst := by
  induction levels generalizing peers changed with
  | nil => simp [publishAll]
  | cons e levels ih =>
    obtain ⟨he, hrest⟩ := List.nodup_cons.1 hlevels
    have hnew : q = ⟨e.1, e.2, true⟩ → q.name ∉ levels.map Prod.fst := fun heq => heq ▸ he
    rw [publishAll, ih hrest (distinct_publishOne hpeers), mem_publishOne hpeers]
    simp only [List.mem_cons, exists_eq_or_imp, List.map_cons, not_or]
    rw [or_and_right, and_iff_left_of_imp hnew, and_assoc, or_left_comm, or_assoc]

/-- The loop changes something unless every peer is there with its level. -/
theorem changed_publishAll (hlevels : (levels.map Prod.fst).Nodup)
    (hpeers : (peers.map Peer.name).Nodup) :
    (publishAll levels (peers, changed)).2 = false ↔ changed = false ∧
      ∀ e ∈ levels, ∃ p ∈ peers, p.name = e.1 ∧ p.level = e.2 := by
  induction levels generalizing peers changed with
  | nil => simp [publishAll]
  | cons e levels ih =>
    obtain ⟨he, hrest⟩ := List.nodup_cons.1 hlevels
    -- The names that are still to come are not the one of this turn.
    have hlater : ∀ e' ∈ levels,
        (∃ p ∈ (publishOne e.1 e.2 peers).1, p.name = e'.1 ∧ p.level = e'.2) ↔
          ∃ p ∈ peers, p.name = e'.1 ∧ p.level = e'.2 := by
      intro e' he'
      have hne : e'.1 ≠ e.1 := fun heq => he (heq ▸ List.mem_map_of_mem he')
      apply exists_congr
      intro p
      have hname : p.name = e'.1 → p.name ≠ e.1 := fun heq => heq ▸ hne
      have hp : p = ⟨e.1, e.2, true⟩ → p.name = e.1 := fun heq => heq ▸ rfl
      rw [mem_publishOne hpeers]
      tauto
    rw [publishAll, ih hrest (distinct_publishOne hpeers), Bool.or_eq_false_iff,
      changed_publishOne hpeers, List.forall_mem_cons, and_assoc]
    simp +contextual only [hlater]

end Publish

end LiveLevels

/-! ## What has been said last -/

/-- What a publish may say: one level for each of some names. -/
def Published (L : Type) := { levels : List (String × L) // (levels.map Prod.fst).Nodup }

namespace Published

variable {L : Type}

/-- The levels by name. -/
def table (levels : Published L) : Table String L where
  entries := (levels.1.map fun e => (⟨e.1, e.2⟩ : (_ : String) × L) : List _)
  nodupKeys := by
    rw [Multiset.coe_nodupKeys, List.NodupKeys, List.keys, List.map_map]
    exact levels.2

theorem lookup_table (levels : Published L) (name : String) (level : L) :
    levels.table.lookup name = some level ↔ (name, level) ∈ levels.1 := by
  rw [← Table.mem_entries]
  simp [table]

theorem table_eq_iff (levels levels' : Published L) :
    levels.table = levels'.table ↔ ∀ e, e ∈ levels.1 ↔ e ∈ levels'.1 := by
  constructor
  · rintro h ⟨name, level⟩
    rw [← lookup_table, ← lookup_table, h]
  · intro h
    refine Finmap.ext_lookup fun name => Option.ext fun level => ?_
    rw [lookup_table, lookup_table, h]

/-- Of lists with one level for each name, one has no more in it than another if it has all its
names. -/
theorem table_eq_iff_names (levels levels' : Published L) : levels.table = levels'.table ↔
    (∀ e ∈ levels.1, e ∈ levels'.1) ∧ ∀ e ∈ levels'.1, e.1 ∈ levels.1.map Prod.fst := by
  rw [table_eq_iff]
  constructor
  · intro h
    exact ⟨fun e he => (h e).1 he, fun e he => List.mem_map_of_mem ((h e).2 he)⟩
  · rintro ⟨hin, hnames⟩ e
    refine ⟨hin e, fun he => ?_⟩
    obtain ⟨e', he', hname⟩ := List.mem_map.1 (hnames e he)
    rwa [← List.inj_on_of_nodup_map levels'.2 (hin e' he') he hname]

end Published

namespace LiveLevels

variable {L : Type}

/-- The peers with their levels, as a publish would say it. -/
def published (live : LiveLevels L) : Published L :=
  ⟨live.levels, by
    unfold levels
    rw [List.map_map]
    exact live.distinct⟩

theorem mem_levels (live : LiveLevels L) (e : String × L) :
    e ∈ live.levels ↔ ∃ p ∈ live.peers, p.name = e.1 ∧ p.level = e.2 := by
  simp [levels, Prod.ext_iff]

theorem mem_unmarked {live : LiveLevels L} {q : Peer L} :
    q ∈ unmarked live.peers ↔ q.seen = false ∧ (q.name, q.level) ∈ live.levels := by
  obtain ⟨name, level, seen⟩ := q
  simp only [unmarked, List.mem_map, Peer.mk.injEq, mem_levels]
  constructor
  · rintro ⟨p, hp, hname, hlevel, hseen⟩
    exact ⟨hseen.symm, p, hp, hname, hlevel⟩
  · rintro ⟨hseen, p, hp, hname, hlevel⟩
    exact ⟨p, hp, hname, hlevel, hseen.symm⟩

/-- A peer that a publish is to find there is there, with its level. -/
theorem found_iff (live : LiveLevels L) (e : String × L) :
    (∃ p ∈ unmarked live.peers, p.name = e.1 ∧ p.level = e.2) ↔ e ∈ live.levels := by
  simp only [mem_unmarked]
  constructor
  · rintro ⟨p, ⟨-, hp⟩, hname, hlevel⟩
    rwa [hname, hlevel] at hp
  · intro he
    exact ⟨⟨e.1, e.2, false⟩, ⟨rfl, he⟩, rfl, rfl⟩

variable [DecidableEq L] (live : LiveLevels L) (levels : Published L)

/-- A publish in place leaves the peers of its list. -/
theorem table_publishPeers : (live.publishPeers levels.1).published.table = levels.table := by
  rw [Published.table_eq_iff]
  rintro ⟨name, level⟩
  show (name, level) ∈ (live.publishPeers levels.1).levels ↔ _
  rw [mem_levels]
  simp only [publishPeers, List.mem_filter,
    mem_publishAll levels.2 (distinct_unmarked live.distinct), mem_unmarked]
  constructor
  · rintro ⟨q, ⟨⟨e, he, rfl⟩ | ⟨⟨hseen, -⟩, -⟩, hq⟩, rfl, rfl⟩
    · exact he
    · rw [hq] at hseen
      cases hseen
  · intro he
    exact ⟨_, ⟨Or.inl ⟨_, he, rfl⟩, rfl⟩, rfl, rfl⟩

/-- Nothing is swept when every peer that was there is in the list. -/
theorem swept_iff : (∀ q ∈ (publishAll levels.1 (unmarked live.peers, false)).1, q.seen = true) ↔
    ∀ e ∈ live.levels, e.1 ∈ levels.1.map Prod.fst := by
  simp only [mem_publishAll levels.2 (distinct_unmarked live.distinct), mem_unmarked]
  constructor
  · intro h e he
    by_contra hgone
    have := h ⟨e.1, e.2, false⟩ (Or.inr ⟨⟨rfl, he⟩, hgone⟩)
    cases this
  · rintro h q (⟨e, -, rfl⟩ | ⟨⟨-, hq⟩, hgone⟩)
    · rfl
    · exact absurd (h _ hq) hgone

/-- A publish moves the version exactly when it leaves other peers than there were. -/
theorem version_publishPeers : (live.publishPeers levels.1).version =
    if levels.table = live.published.table then live.version else live.version + 1 := by
  have hchanged : ((publishAll levels.1 (unmarked live.peers, false)).2 ||
      decide (((publishAll levels.1 (unmarked live.peers, false)).1.filter Peer.seen).length ≠
        (publishAll levels.1 (unmarked live.peers, false)).1.length)) = false ↔
      levels.table = live.published.table := by
    rw [Bool.or_eq_false_iff, changed_publishAll levels.2 (distinct_unmarked live.distinct),
      Published.table_eq_iff_names, decide_eq_false_iff_not, not_not,
      List.length_filter_eq_length_iff, swept_iff]
    simp only [found_iff, true_and]
    rfl
  unfold publishPeers
  dsimp only
  split
  · rename_i h
    rw [if_neg]
    intro heq
    rw [hchanged.2 heq] at h
    cases h
  · rename_i h
    rw [if_pos (hchanged.1 (Bool.eq_false_of_not_eq_true h))]

end LiveLevels

/-! ## Runs of calls -/

/-- A call of `LiveLevels`. -/
inductive LevelCall (L : Type) where
  | publishPeers (levels : Published L)
  | setOwn (level : L)
  | clear
  | snapshot (out : List (String × L))

/-- What has been said last. -/
structure Shown (L : Type) where
  own : L
  peers : Published L

namespace Shown

variable {L : Type} [Zero L] [DecidableEq L]

/-- Nothing said yet. -/
def silent : Shown L := ⟨0, [], List.nodup_nil⟩

def call (s : Shown L) : LevelCall L → Shown L
  | .publishPeers levels => { s with peers := levels }
  | .setOwn level => { s with own := level }
  | .clear => silent
  | .snapshot _ => s

/-- How much a call changes: the own level, and the peers or their levels. -/
def changed (s s' : Shown L) : ℕ :=
  (if s'.own = s.own then 0 else 1) + (if s'.peers.table = s.peers.table then 0 else 1)

/-- How much a run of calls changes, call by call. -/
def changes (s : Shown L) : List (LevelCall L) → ℕ
  | [] => 0
  | c :: calls => s.changed (s.call c) + (s.call c).changes calls

end Shown

namespace LiveLevels

variable {L : Type}

/-- The own level and the peers are those that have been said last. -/
def Shows (live : LiveLevels L) (s : Shown L) : Prop :=
  live.own = s.own ∧ live.published.table = s.peers.table

theorem shows_new [Zero L] : (new : LiveLevels L).Shows Shown.silent := ⟨rfl, rfl⟩

section Calls

variable [DecidableEq L] {live : LiveLevels L} {s : Shown L}

theorem Shows.setOwn (h : live.Shows s) (level : L) :
    (live.setOwn level).Shows { s with own := level } ∧
      (live.setOwn level).version =
        live.version + UInt64.ofNat (s.changed { s with own := level }) := by
  refine ⟨⟨rfl, h.2⟩, ?_⟩
  by_cases hsame : level = s.own
  · simp [LiveLevels.setOwn, Shown.changed, h.1, hsame]
  · simp [LiveLevels.setOwn, Shown.changed, h.1, hsame, Ne.symm hsame]

theorem Shows.publishPeers (h : live.Shows s) (levels : Published L) :
    (live.publishPeers levels.1).Shows { s with peers := levels } ∧
      (live.publishPeers levels.1).version =
        live.version + UInt64.ofNat (s.changed { s with peers := levels }) := by
  refine ⟨⟨h.1, table_publishPeers live levels⟩, ?_⟩
  rw [version_publishPeers, h.2]
  by_cases hsame : levels.table = s.peers.table
  · simp [Shown.changed, hsame]
  · simp [Shown.changed, hsame]

variable [Zero L]

def call (live : LiveLevels L) : LevelCall L → LiveLevels L
  | .publishPeers levels => live.publishPeers levels.1
  | .setOwn level => live.setOwn level
  | .clear => live.clear
  | .snapshot _ => live

/-- What a call leaves is what has been said, and the version moves by what it changes. -/
theorem Shows.called (h : live.Shows s) (c : LevelCall L) :
    (live.call c).Shows (s.call c) ∧
      (live.call c).version = live.version + UInt64.ofNat (s.changed (s.call c)) := by
  cases c with
  | publishPeers levels => exact h.publishPeers levels
  | setOwn level => exact h.setOwn level
  | clear =>
    obtain ⟨hown, hvown⟩ := h.setOwn 0
    obtain ⟨hpeers, hvpeers⟩ := hown.publishPeers Shown.silent.peers
    refine ⟨hpeers, ?_⟩
    have hparts : s.changed Shown.silent = s.changed { s with own := 0 } +
        Shown.changed { s with own := 0 } Shown.silent := by
      show _ + _ = _ + (if s.peers.table = s.peers.table then 0 else 1) +
        ((if (0 : L) = 0 then 0 else 1) + _)
      rw [if_pos rfl, if_pos rfl, add_zero, zero_add]
      rfl
    have hversion : live.clear.version = _ := hvpeers
    rw [hvown, UInt64.add_assoc, ← UInt64.ofNat_add] at hversion
    exact hversion.trans (congrArg (fun n => live.version + UInt64.ofNat n) hparts.symm)
  | snapshot out => simp [LiveLevels.call, Shown.call, Shown.changed, h]

theorem Shows.run (h : live.Shows s) (calls : List (LevelCall L)) :
    (calls.foldl call live).Shows (calls.foldl Shown.call s) ∧
      (calls.foldl call live).version = live.version + UInt64.ofNat (s.changes calls) := by
  induction calls generalizing live s with
  | nil => simpa [Shown.changes] using h
  | cons c calls ih =>
    obtain ⟨hnext, hversion⟩ := h.called c
    obtain ⟨hlast, hrest⟩ := ih hnext
    refine ⟨hlast, ?_⟩
    rw [List.foldl_cons, hrest, hversion, Shown.changes, UInt64.ofNat_add, UInt64.add_assoc]

/-- A counter that wraps stands still over a number of moves that are whole rounds. -/
theorem add_ofNat_eq_self (v : UInt64) (n : ℕ) : v + UInt64.ofNat n = v ↔ 2 ^ 64 ∣ n := by
  rw [UInt64.add_eq_left, ← UInt64.toNat_inj, UInt64.toNat_ofNat']
  exact Nat.dvd_iff_mod_eq_zero.symm

/-- What changes nothing leaves what is said. -/
theorem Shown.eq_of_changes_eq_zero {s : Shown L} {calls : List (LevelCall L)}
    (h : s.changes calls = 0) : (calls.foldl Shown.call s).own = s.own ∧
      (calls.foldl Shown.call s).peers.table = s.peers.table := by
  induction calls generalizing s with
  | nil => exact ⟨rfl, rfl⟩
  | cons c calls ih =>
    obtain ⟨hnow, hlater⟩ := Nat.add_eq_zero_iff.1 h
    obtain ⟨hown, hpeers⟩ := Nat.add_eq_zero_iff.1 hnow
    obtain ⟨hown', hpeers'⟩ := ih hlater
    have hown : (s.call c).own = s.own := by simpa using hown
    have hpeers : (s.call c).peers.table = s.peers.table := by simpa using hpeers
    exact ⟨hown'.trans hown, hpeers'.trans hpeers⟩

/-- A reader that finds the version it has seen has seen the levels, unless they have changed
`2 ^ 64` times since. -/
theorem same_of_version (live : LiveLevels L) (calls : List (LevelCall L))
    (hfew : Shown.changes ⟨live.own, live.published⟩ calls < 2 ^ 64)
    (hversion : (calls.foldl call live).version = live.version) :
    (calls.foldl call live).own = live.own ∧
      ∀ e, e ∈ (calls.foldl call live).levels ↔ e ∈ live.levels := by
  have hshows : live.Shows ⟨live.own, live.published⟩ := ⟨rfl, rfl⟩
  obtain ⟨⟨hown, hpeers⟩, hmoved⟩ := hshows.run calls
  rw [hversion, eq_comm, add_ofNat_eq_self] at hmoved
  obtain ⟨hown', hpeers'⟩ :=
    Shown.eq_of_changes_eq_zero (Nat.eq_zero_of_dvd_of_lt hmoved hfew)
  exact ⟨hown.trans hown', (Published.table_eq_iff _ _).1 (hpeers.trans hpeers')⟩

/-- **A reader gets what has been said last**, whatever is in its buffer, and **the version
moves with every change and with nothing else**, as far as `2 ^ 64` goes. -/
theorem snapshot_after (before between : List (LevelCall L)) (out : List (String × L)) :
    let first := before.foldl call new
    let last := between.foldl call first
    let said := (before ++ between).foldl Shown.call Shown.silent
    let changes := (before.foldl Shown.call Shown.silent).changes between
    (last.snapshot out).1 = said.own ∧ (last.snapshot out).2.1 = last.version ∧
      ((last.snapshot out).2.2.map Prod.fst).Nodup ∧
      (∀ e, e ∈ (last.snapshot out).2.2 ↔ e ∈ said.peers.1) ∧
      last.version = first.version + UInt64.ofNat changes ∧
      (last.version = first.version ↔ 2 ^ 64 ∣ changes) ∧
      (changes < 2 ^ 64 → (last.version = first.version ↔ changes = 0)) := by
  intro first last said changes
  obtain ⟨hfirst, -⟩ := shows_new.run before
  obtain ⟨⟨hown, hpeers⟩, hversion⟩ := hfirst.run between
  have hsaid : said = between.foldl Shown.call (before.foldl Shown.call Shown.silent) :=
    List.foldl_append
  have hmove : last.version = first.version ↔ 2 ^ 64 ∣ changes := by
    rw [show last.version = _ from hversion, add_ofNat_eq_self]
  rw [snapshot_eq, hsaid]
  refine ⟨hown, rfl, last.published.2, (Published.table_eq_iff _ _).1 hpeers, hversion, hmove, ?_⟩
  intro hfew
  rw [hmove]
  constructor
  · exact fun hdvd => Nat.eq_zero_of_dvd_of_lt hdvd hfew
  · intro hzero
    rw [hzero]
    exact dvd_zero _

end Calls

/-- An own level that comes and goes changes something with every call. -/
theorem changes_flicker (n : ℕ) : (Shown.silent : Shown ℚ).changes
    (List.replicate n [LevelCall.setOwn 1, LevelCall.setOwn 0]).flatten = 2 * n := by
  induction n with
  | zero => rfl
  | succ n ih =>
    have htwice : (Shown.silent : Shown ℚ).changes
        ([LevelCall.setOwn 1, LevelCall.setOwn 0] ++
          (List.replicate n [LevelCall.setOwn 1, LevelCall.setOwn 0]).flatten) =
        2 + (Shown.silent : Shown ℚ).changes
          (List.replicate n [LevelCall.setOwn 1, LevelCall.setOwn 0]).flatten := by
      simp only [List.cons_append, List.nil_append, Shown.changes, ← add_assoc]
      rfl
    rw [List.replicate_succ, List.flatten_cons, htwice, ih]
    omega

/-- A round of the counter: every call changes the own level, and the version is the one that
it was. -/
theorem version_comes_round :
    let calls : List (LevelCall ℚ) :=
      (List.replicate (2 ^ 63) [LevelCall.setOwn 1, LevelCall.setOwn 0]).flatten
    (calls.foldl call new).version = (new : LiveLevels ℚ).version ∧
      Shown.silent.changes calls ≠ 0 := by
  intro calls
  have hchanges : Shown.silent.changes calls = 2 * 2 ^ 63 := changes_flicker _
  obtain ⟨-, hversion⟩ := shows_new.run calls
  rw [hversion, add_ofNat_eq_self, hchanges]
  exact ⟨⟨1, by norm_num⟩, by norm_num⟩

end LiveLevels
end Client
end TcVoice
