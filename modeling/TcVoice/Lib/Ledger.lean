import Mathlib.Data.List.Basic
import Mathlib.Algebra.Order.Ring.Int

/-!
# Counters that several parties add to

Counters are shared; a party has a list of amounts that it still has to add, and adds them
one at a time, while the others do the same.  What is true of the counters at any moment is
said by weighing them against what is still to be added.

* `total` — a sum over a list, with what it becomes when one entry is replaced.
* `add`, `value`, `weigh` — one addition, and a linear combination of the counters and of
  what is still to be added.
* `value_add` — **an addition moves its weight from one side to the other**.
* `sinceFirst_step` — differences between readings add up.
-/

namespace TcVoice
namespace Ledger

/-! ## Sums -/

section Total

variable {α : Type} {f : α → ℤ}

/-- The sum of `f` over a list. -/
def total (f : α → ℤ) : List α → ℤ
  | [] => 0
  | a :: l => f a + total f l

theorem total_set {l : List α} {i : ℕ} {x y : α} (h : l[i]? = some y) :
    total f (l.set i x) = total f l - f y + f x := by
  induction l generalizing i with
  | nil => simp at h
  | cons a l ih =>
    cases i with
    | zero =>
      simp only [List.getElem?_cons_zero, Option.some.injEq] at h
      simp only [List.set_cons_zero, total, h]
      omega
    | succ i =>
      simp only [List.getElem?_cons_succ] at h
      simp only [List.set_cons_succ, total, ih h]
      omega

theorem total_nonneg {l : List α} (h : ∀ a ∈ l, 0 ≤ f a) : 0 ≤ total f l := by
  induction l with
  | nil => exact le_refl 0
  | cons a l ih =>
    have hl := ih fun b hb => h b (List.mem_cons_of_mem _ hb)
    have ha := h a List.mem_cons_self
    simp only [total]
    omega

theorem total_eq_zero {l : List α} (h : ∀ a ∈ l, f a = 0) : total f l = 0 := by
  induction l with
  | nil => rfl
  | cons a l ih =>
    simp only [total, h a List.mem_cons_self, ih fun b hb => h b (List.mem_cons_of_mem _ hb)]
    rfl

end Total

/-! ## Counters -/

section Counters

variable {ι : Type} [DecidableEq ι] {w : ι → ℤ} {m : ι → ℕ}

/-- An amount is added to a counter. -/
def add (m : ι → ℕ) (a : ι × ℕ) : ι → ℕ := Function.update m a.1 (m a.1 + a.2)

/-- The counters `cs`, weighed. -/
def value (w : ι → ℤ) (cs : List ι) (m : ι → ℕ) : ℤ := total (fun c => w c * m c) cs

/-- What is still to be added, weighed. -/
def weigh (w : ι → ℤ) (adds : List (ι × ℕ)) : ℤ := total (fun a => w a.1 * a.2) adds

theorem le_add (m : ι → ℕ) (a : ι × ℕ) (c : ι) : m c ≤ add m a c := by
  by_cases h : c = a.1
  · subst h
    simp [add]
  · simp [add, Function.update_of_ne h]

theorem value_add_of_notMem {cs : List ι} {a : ι × ℕ} (h : a.1 ∉ cs) :
    value w cs (add m a) = value w cs m := by
  induction cs with
  | nil => rfl
  | cons c cs ih =>
    obtain ⟨hc, hcs⟩ := List.ne_and_not_mem_of_not_mem_cons h
    have hsame : add m a c = m c := Function.update_of_ne (Ne.symm hc) _ _
    have hrest := ih hcs
    unfold value at hrest ⊢
    simp only [total, hsame, hrest]

/-- **An addition moves its weight** from what is still to be added to the counters. -/
theorem value_add {cs : List ι} {a : ι × ℕ} (hnd : cs.Nodup) (h : a.1 ∈ cs) :
    value w cs (add m a) = value w cs m + w a.1 * a.2 := by
  induction cs with
  | nil => simp at h
  | cons c cs ih =>
    obtain ⟨hc, hnd⟩ := List.nodup_cons.1 hnd
    have hvalue : ∀ m', value w (c :: cs) m' = w c * m' c + value w cs m' := fun _ => rfl
    rw [hvalue, hvalue]
    by_cases he : a.1 = c
    · rw [value_add_of_notMem (he ▸ hc), ← he]
      have hself : add m a a.1 = m a.1 + a.2 := Function.update_self ..
      rw [hself, Nat.cast_add, mul_add]
      omega
    · have hsame : add m a c = m c := Function.update_of_ne (Ne.symm he) _ _
      rw [hsame, ih hnd ((List.mem_cons.1 h).resolve_left he)]
      omega

end Counters

/-! ## Readings -/

section Readings

variable {ι : Type}

/-- What was added between two readings, as it is reported: never below zero. -/
def delta (now prev : ι → ℕ) : ι → ℕ := fun c => now c - prev c

/-- All the reports together. -/
def reported : List (ι → ℕ) → ι → ℕ
  | [] => fun _ => 0
  | d :: ds => fun c => d c + reported ds c

/-- Of readings that never go down, the reports add up to the last reading. -/
theorem sinceFirst_step {first prev now : ι → ℕ} {ds : List (ι → ℕ)} (hmono : ∀ c, prev c ≤ now c)
    (h : ∀ c, first c + reported ds c = prev c) (c : ι) :
    first c + reported (delta now prev :: ds) c = now c := by
  have hc := h c
  have hm := hmono c
  simp only [reported, delta]
  omega

end Readings

end Ledger
end TcVoice
