import Mathlib.Data.List.DropRight
import Mathlib.Data.Nat.ModEq
import Mathlib.Data.Vector.Basic

/-!
# Rings that overwrite

A ring of a fixed number of slots: a push goes behind what the ring holds, and over
the oldest of it once every slot is taken.

* `Ring` — slots, where the oldest is, and how many are taken; `push`, `reset`.
* `toList` — what the ring holds, oldest first.
* `toList_push` — **a ring of `n` slots holds the last `n` values pushed**.
-/

namespace TcVoice

/-- A ring of `cap` slots that holds `len` values from `start` on. -/
structure Ring (α : Type) (cap : ℕ) where
  slots : Vector α cap
  start : ℕ
  len : ℕ
  start_lt : start < cap
  len_le : len ≤ cap

namespace Ring

variable {α : Type} {cap : ℕ}

theorem cap_pos (r : Ring α cap) : 0 < cap := Nat.lt_of_le_of_lt (Nat.zero_le _) r.start_lt

/-- The slot of the `i`-th value. -/
def index (r : Ring α cap) (i : ℕ) : ℕ := (r.start + i) % cap

theorem index_lt (r : Ring α cap) (i : ℕ) : r.index i < cap := Nat.mod_lt _ r.cap_pos

/-- The `i`-th value from the oldest on. -/
def get (r : Ring α cap) (i : ℕ) : α :=
  have := r.index_lt i
  r.slots[r.index i]

/-- What the ring holds, oldest first. -/
def toList (r : Ring α cap) : List α := (List.range r.len).map r.get

/-- Into the slot behind the youngest; over the oldest if every slot is taken. -/
def push (r : Ring α cap) (a : α) : Ring α cap :=
  let slots := r.slots.set (r.index r.len) a (r.index_lt r.len)
  if h : r.len = cap then
    { r with slots, start := (r.start + 1) % cap, start_lt := Nat.mod_lt _ r.cap_pos }
  else
    { r with slots, len := r.len + 1, len_le := Nat.lt_of_le_of_ne r.len_le h }

/-- Nothing in it; the slots keep what is written in them. -/
def reset (r : Ring α cap) : Ring α cap :=
  { r with start := 0, len := 0, start_lt := r.cap_pos, len_le := Nat.zero_le _ }

/-- A ring of `cap` slots with nothing in it. -/
def new (hcap : 0 < cap) (fill : α) : Ring α cap :=
  ⟨Vector.replicate cap fill, 0, 0, hcap, Nat.zero_le _⟩

variable {r : Ring α cap} {a : α}

@[simp] theorem length_toList : r.toList.length = r.len := by
  simp only [toList, List.length_map, List.length_range]

@[simp] theorem toList_reset : r.reset.toList = [] := rfl

/-- Less than a round apart, two values are in one slot only if they are one. -/
theorem index_inj {i j : ℕ} (hi : i < cap) (hj : j < cap) (h : r.index i = r.index j) : i = j := by
  have hmod : i % cap = j % cap := Nat.ModEq.add_left_cancel' r.start h
  rwa [Nat.mod_eq_of_lt hi, Nat.mod_eq_of_lt hj] at hmod

/-- How many values a push writes over. -/
def lost (r : Ring α cap) : ℕ := r.len + 1 - cap

theorem len_push : (r.push a).len + r.lost = r.len + 1 := by
  have hlen := r.len_le
  unfold push lost
  split <;> simp only <;> omega

/-- A push moves the oldest value on by what it writes over. -/
theorem index_push (i : ℕ) : (r.push a).index i = r.index (i + r.lost) := by
  have hlen := r.len_le
  unfold push lost
  split
  · rename_i hfull
    have hone : r.len + 1 - cap = 1 := by omega
    show ((r.start + 1) % cap + i) % cap = (r.start + (i + (r.len + 1 - cap))) % cap
    rw [hone, Nat.mod_add_mod, Nat.add_assoc, Nat.add_comm 1 i]
  · have hzero : r.len + 1 - cap = 0 := by omega
    show (r.start + i) % cap = (r.start + (i + (r.len + 1 - cap))) % cap
    rw [hzero, Nat.add_zero]

theorem slots_push : (r.push a).slots = r.slots.set (r.index r.len) a (r.index_lt r.len) := by
  unfold push
  split <;> rfl

theorem get_push (i : ℕ) (hi : i < (r.push a).len) :
    (r.push a).get i = if i + r.lost = r.len then a else r.get (i + r.lost) := by
  have hlen := r.len_le
  have hpush := r.len_push (a := a)
  simp only [get, slots_push, index_push, Vector.getElem_set]
  by_cases hyoungest : i + r.lost = r.len
  · rw [if_pos (by rw [hyoungest]), if_pos hyoungest]
  · rw [if_neg hyoungest, if_neg]
    intro h
    -- The youngest slot is either one of the round, or the one of the oldest value.
    by_cases hfull : r.len = cap
    · have hzero : r.index r.len = r.index 0 := by
        unfold index
        rw [hfull, Nat.add_mod_right, Nat.add_zero]
      rw [hzero] at h
      have hpos := r.cap_pos
      have hone : r.lost = 1 := by
        unfold lost
        omega
      have := index_inj hpos (by omega) h
      omega
    · have := index_inj (by omega) (by omega) h
      omega

/-- **A ring holds the last values pushed**, as many as it has slots. -/
theorem toList_push : (r.push a).toList = (r.toList ++ [a]).rtake cap := by
  have hpush := r.len_push (a := a)
  have hlost : (r.toList ++ [a]).length - cap = r.lost := by
    rw [List.length_append, length_toList, List.length_singleton, lost]
  unfold List.rtake
  rw [hlost]
  apply List.ext_getElem
  · rw [length_toList, List.length_drop, List.length_append, length_toList,
      List.length_singleton]
    omega
  · intro i hi _
    rw [length_toList] at hi
    simp only [toList, List.getElem_map, List.getElem_range, List.getElem_drop, get_push i hi]
    split
    · rename_i hyoungest
      rw [List.getElem_append_right]
      · simp
      · simp only [List.length_map, List.length_range]
        omega
    · rw [List.getElem_append_left]
      · simp only [List.getElem_map, List.getElem_range, Nat.add_comm]
      · simp only [List.length_map, List.length_range]
        omega

/-- A push onto what a ring holds of a history is what it holds of the longer history; the
latest of it is in front. -/
theorem toList_push_of {β : Type} {f : α → β} {bs : List β}
    (h : r.toList.map f = (bs.take cap).reverse) :
    (r.push a).toList.map f = ((f a :: bs).take cap).reverse := by
  obtain ⟨n, rfl⟩ := Nat.exists_eq_succ_of_ne_zero (Nat.ne_of_gt r.cap_pos)
  rw [toList_push, List.rtake_concat_succ, List.map_append, List.rtake_eq_reverse_take_reverse,
    List.map_reverse, List.map_take, List.map_reverse, h, List.reverse_reverse, List.take_take,
    List.take_succ_cons, List.reverse_cons, Nat.min_eq_left (Nat.le_succ n), List.map_singleton]

end Ring
end TcVoice
