import Mathlib.Data.List.Basic

/-!
# Streams that are handled in blocks

Values arrive in pieces of any length and wait; they are taken away in blocks of one length, as
long as there is a whole block.

* `blocks`, `rest` — a stream by its blocks, and what is left behind them.
* `blockInduction` — induction on the blocks of a stream.
* `blocks_append`, `rest_append` — **blocks that have been taken away are the first of the stream**,
  however it came in pieces.
-/

namespace TcVoice
namespace Blocks

variable {α : Type} {n : ℕ}

/-- The whole blocks of a stream, of `n` values each; a block has at least one. -/
def blocks (n : ℕ) (xs : List α) : List (List α) :=
  if 0 < n ∧ n ≤ xs.length then xs.take n :: blocks n (xs.drop n) else []
termination_by xs.length
decreasing_by simp only [List.length_drop]; omega

/-- What is left behind them. -/
def rest (n : ℕ) (xs : List α) : List α := xs.drop (n * (blocks n xs).length)

variable {xs : List α}

theorem blocks_short (h : xs.length < n) : blocks n xs = [] := by
  rw [blocks, if_neg]
  omega

theorem blocks_block (hn : 0 < n) (h : n ≤ xs.length) :
    blocks n xs = xs.take n :: blocks n (xs.drop n) := by
  rw [blocks, if_pos ⟨hn, h⟩]

/-- Induction on the blocks of a stream. -/
theorem blockInduction (hn : 0 < n) {motive : List α → Prop}
    (short : ∀ xs, xs.length < n → motive xs)
    (block : ∀ xs, n ≤ xs.length → motive (xs.drop n) → motive xs) (xs : List α) : motive xs := by
  rcases Nat.lt_or_ge xs.length n with hshort | hlong
  · exact short xs hshort
  · exact block xs hlong (blockInduction hn short block (xs.drop n))
termination_by xs.length
decreasing_by simp only [List.length_drop]; omega

/-- The blocks and what is left are the stream. -/
theorem flatten_blocks_append_rest (hn : 0 < n) (xs : List α) :
    (blocks n xs).flatten ++ rest n xs = xs := by
  induction xs using blockInduction hn with
  | short xs h =>
    rw [rest, blocks_short h]
    rfl
  | block xs h ih =>
    have hrest : rest n xs = rest n (xs.drop n) := by
      rw [rest, rest, blocks_block hn h, List.length_cons, List.drop_drop, Nat.mul_succ,
        Nat.add_comm]
    rw [hrest, blocks_block hn h, List.flatten_cons, List.append_assoc, ih,
      List.take_append_drop]

/-- Blocks before a stream are the first of all. -/
theorem blocks_append (hn : 0 < n) {done : List (List α)} (hdone : ∀ b ∈ done, b.length = n)
    (xs : List α) : blocks n (done.flatten ++ xs) = done ++ blocks n xs := by
  induction done with
  | nil => rfl
  | cons b done ih =>
    have hb := hdone b List.mem_cons_self
    have hlong : n ≤ (b ++ (done.flatten ++ xs)).length := by
      rw [List.length_append]
      omega
    rw [List.flatten_cons, List.append_assoc, blocks_block hn hlong, ← hb, List.take_left,
      List.drop_left, hb, ih fun b hmem => hdone b (List.mem_cons_of_mem _ hmem), List.cons_append]

theorem rest_append (hn : 0 < n) {done : List (List α)} (hdone : ∀ b ∈ done, b.length = n)
    (xs : List α) : rest n (done.flatten ++ xs) = rest n xs := by
  have hwhole := flatten_blocks_append_rest hn (done.flatten ++ xs)
  rw [blocks_append hn hdone, List.flatten_append, List.append_assoc] at hwhole
  exact List.append_cancel_left ((List.append_cancel_left hwhole).trans
    (flatten_blocks_append_rest hn xs).symm)

end Blocks
end TcVoice
