import Mathlib.Data.List.Basic

/-!
# Bounded queues

A queue between tasks with room for so many values.  A send that does not wait is refused
where the queue is full, and it is up to the sender what to make of that.

* `BoundedQueue` — what waits, and that there is room for it.
* `trySend`, `tryRecv` — the ends of the queue that do not wait; `sendAll` for several values.
* `trySend_eq_some`, `trySend_eq_none` — a send succeeds exactly where there is room.
-/

namespace TcVoice

/-- Values that wait, the oldest first, at most `cap` of them. -/
structure BoundedQueue (α : Type) (cap : ℕ) where
  items : List α
  len_le : items.length ≤ cap
  deriving DecidableEq, Repr

namespace BoundedQueue

variable {α : Type} {cap : ℕ}

/-- Nothing waits. -/
def empty : BoundedQueue α cap := ⟨[], Nat.zero_le _⟩

variable (q : BoundedQueue α cap)

/-- There is room for one more. -/
def HasRoom : Prop := q.items.length < cap

instance : Decidable q.HasRoom := inferInstanceAs (Decidable (_ < _))

/-- Behind what waits, if there is room. -/
def trySend (a : α) : Option (BoundedQueue α cap) :=
  if h : q.items.length < cap then
    some ⟨q.items ++ [a], by rw [List.length_append]; exact h⟩
  else none

/-- One value after the other; those there is no room for are lost. -/
def sendAll (as : List α) : BoundedQueue α cap := as.foldl (fun q a => (q.trySend a).getD q) q

/-- The value that has waited longest, if there is one. -/
def tryRecv : Option (α × BoundedQueue α cap) :=
  q.items.head?.map fun a => (a, ⟨q.items.tail, Nat.le_trans (by simp) q.len_le⟩)

@[simp] theorem items_empty : (empty : BoundedQueue α cap).items = [] := rfl

variable {q} {a : α}

theorem ext_items {q' : BoundedQueue α cap} (h : q.items = q'.items) : q = q' := by
  cases q
  cases q'
  cases h
  rfl

/-- A send that succeeds leaves the value behind the others. -/
theorem trySend_eq_some {q' : BoundedQueue α cap} :
    q.trySend a = some q' ↔ q.HasRoom ∧ q'.items = q.items ++ [a] := by
  unfold trySend HasRoom
  split
  · rename_i hroom
    rw [Option.some_inj]
    constructor
    · rintro rfl
      exact ⟨hroom, rfl⟩
    · rintro ⟨-, hitems⟩
      exact ext_items hitems.symm
  · rename_i hfull
    refine iff_of_false ?_ (fun h => hfull h.1)
    rintro ⟨⟩

/-- A send fails exactly where the queue is full. -/
theorem trySend_eq_none : q.trySend a = none ↔ ¬ q.HasRoom := by
  unfold trySend HasRoom
  split
  · rename_i hroom
    refine iff_of_false ?_ (fun h => h hroom)
    rintro ⟨⟩
  · rename_i hfull
    exact ⟨fun _ => hfull, fun _ => rfl⟩

/-- A queue with room takes the value behind the others. -/
theorem HasRoom.exists_trySend (h : q.HasRoom) (a : α) :
    ∃ q', q.trySend a = some q' ∧ q'.items = q.items ++ [a] := by
  obtain ⟨q', hsend⟩ := Option.ne_none_iff_exists'.1 (mt trySend_eq_none.1 (not_not.2 h))
  exact ⟨q', hsend, (trySend_eq_some.1 hsend).2⟩

/-- Sending takes nothing out of a queue. -/
theorem prefix_sendAll (q : BoundedQueue α cap) (as : List α) :
    q.items <+: (q.sendAll as).items := by
  induction as generalizing q with
  | nil => exact List.prefix_rfl
  | cons a as ih =>
    have hone : q.items <+: ((q.trySend a).getD q).items := by
      cases hsend : q.trySend a with
      | none => exact List.prefix_rfl
      | some q' =>
        rw [Option.getD_some, (trySend_eq_some.1 hsend).2]
        exact List.prefix_append _ _
    exact hone.trans (ih _)

/-- A receive takes the oldest value and leaves the others. -/
theorem tryRecv_eq_some {q' : BoundedQueue α cap} :
    q.tryRecv = some (a, q') ↔ q.items = a :: q'.items := by
  obtain ⟨items, hlen⟩ := q
  obtain ⟨items', hlen'⟩ := q'
  cases items <;> simp [tryRecv]

/-- A queue that something waits in can be received from. -/
theorem exists_tryRecv {rest : List α} (h : q.items = a :: rest) :
    ∃ q', q.tryRecv = some (a, q') ∧ q'.items = rest := by
  have hlen := q.len_le
  rw [h] at hlen
  exact ⟨⟨rest, Nat.le_of_succ_le hlen⟩, tryRecv_eq_some.2 h, rfl⟩

end BoundedQueue
end TcVoice
