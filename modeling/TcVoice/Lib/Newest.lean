import Mathlib.Data.List.DropRight
import Mathlib.Data.List.Infix
import Mathlib.Data.List.Sort
import Mathlib.Order.WithBot

/-!
# The newest of a history

Values with a time, in the order they came in, the last of them in front.  What is kept of
them is the newest `n`, as far back as a cut, in order of their times.

* `latestFirst` — a history by time; of values of one time the one that came last is first.
* `newest` — the first `n` of these that are not before the cut.
* `visitBack` — a walk back that skips what is too late and stops at what is too early.
* `newest_cons` — **what is kept can be kept up to date** with each value that comes in and
  each cut that moves on: nothing that was dropped is missed later.
-/

namespace TcVoice
namespace Newest

section Order

variable {α τ : Type} [LinearOrder τ] (time : α → τ)

/-- `a` is no older than `b`. -/
def AsNew (a b : α) : Prop := time b ≤ time a

instance : DecidableRel (AsNew time) := fun a b => inferInstanceAs (Decidable (time b ≤ time a))

instance : IsTrans α (AsNew time) := ⟨fun _ _ _ hab hbc => le_trans hbc hab⟩

instance : Std.Total (AsNew time) := ⟨fun a b => le_total (time b) (time a)⟩

/-- Not before the cut. -/
def since (cut : WithBot τ) (a : α) : Bool := decide (cut ≤ (time a : WithBot τ))

/-- A value in its place: in front of those that are no newer. -/
def put (x : α) (l : List α) : List α := l.orderedInsert (AsNew time) x

/-- The values of a history by time, the latest first. -/
def latestFirst (l : List α) : List α := l.insertionSort (AsNew time)

/-- The newest `n` of a history, as far back as the cut. -/
def newest (n : ℕ) (cut : WithBot τ) (l : List α) : List α :=
  ((latestFirst time l).filter (since time cut)).take n

variable {time} {n : ℕ} {cut cut' : WithBot τ} {x : α} {l : List α}

theorem since_of_asNew {a b : α} (h : AsNew time a b) (hb : since time cut b = true) :
    since time cut a = true :=
  decide_eq_true ((of_decide_eq_true hb).trans (WithBot.coe_le_coe.2 h))

/-- Behind a value from before the cut there are only such values. -/
theorem filter_eq_nil (h : (x :: l).Pairwise (AsNew time)) (hx : ¬ since time cut x = true) :
    (x :: l).filter (since time cut) = [] := by
  rw [List.filter_eq_nil_iff]
  intro a ha hsince
  rcases List.mem_cons.1 ha with rfl | hmem
  · exact hx hsince
  · exact hx (since_of_asNew (List.rel_of_pairwise_cons h hmem) hsince)

theorem filter_take (h : l.Pairwise (AsNew time)) (n : ℕ) :
    (l.take n).filter (since time cut) = (l.filter (since time cut)).take n := by
  induction l generalizing n with
  | nil => simp
  | cons a l ih =>
    cases n with
    | zero => simp
    | succ n =>
      by_cases ha : since time cut a = true
      · simp [ha, ih h.of_cons]
      · rw [filter_eq_nil h ha, List.take_nil, List.take_succ_cons]
        exact filter_eq_nil (h.sublist ((List.take_sublist n l).cons_cons a)) ha

theorem filter_put (h : l.Pairwise (AsNew time)) (hx : since time cut x = true) :
    (put time x l).filter (since time cut) = put time x (l.filter (since time cut)) := by
  induction l with
  | nil => simp [put, hx]
  | cons b l ih =>
    unfold put at ih ⊢
    by_cases hxb : AsNew time x b
    · rw [List.orderedInsert_cons_of_le _ _ hxb, List.filter_cons_of_pos hx]
      by_cases hb : since time cut b = true
      · rw [List.filter_cons_of_pos hb, List.orderedInsert_cons_of_le _ _ hxb]
      · rw [filter_eq_nil h hb, List.orderedInsert_nil]
    · have hb : since time cut b = true := since_of_asNew (le_of_not_ge hxb) hx
      rw [List.orderedInsert_of_not_le _ _ hxb, List.filter_cons_of_pos hb,
        List.filter_cons_of_pos hb, List.orderedInsert_of_not_le _ _ hxb, ih h.of_cons]

theorem pairwise_put (h : l.Pairwise (AsNew time)) : (put time x l).Pairwise (AsNew time) :=
  h.orderedInsert x l

/-- What is dropped for want of room is dropped again. -/
theorem take_put (n : ℕ) (l : List α) :
    (put time x (l.take n)).take n = (put time x l).take n := by
  induction l generalizing n with
  | nil => simp
  | cons b l ih =>
    unfold put at ih ⊢
    cases n with
    | zero => simp
    | succ n =>
      rw [List.take_succ_cons]
      by_cases hxb : AsNew time x b
      · rw [List.orderedInsert_cons_of_le _ _ hxb, List.orderedInsert_cons_of_le _ _ hxb]
        cases n with
        | zero => simp
        | succ n => simp [List.take_take]
      · rw [List.orderedInsert_of_not_le _ _ hxb, List.orderedInsert_of_not_le _ _ hxb,
          List.take_succ_cons, List.take_succ_cons, ih]

theorem filter_since_since (hcut : cut ≤ cut') (l : List α) :
    (l.filter (since time cut)).filter (since time cut') = l.filter (since time cut') := by
  rw [List.filter_filter]
  apply List.filter_congr
  intro a _
  have hlater : since time cut' a = true → since time cut a = true := fun h =>
    decide_eq_true (hcut.trans (of_decide_eq_true h))
  cases hcase : since time cut' a with
  | false => rfl
  | true => exact hlater hcase

theorem pairwise_latestFirst (l : List α) : (latestFirst time l).Pairwise (AsNew time) :=
  List.pairwise_insertionSort _ l

theorem pairwise_newest : (newest time n cut l).Pairwise (AsNew time) :=
  (pairwise_latestFirst l).sublist ((List.take_sublist _ _).trans List.filter_sublist)

theorem length_newest : (newest time n cut l).length ≤ n := List.length_take_le _ _

theorem filter_newest (hcut : cut ≤ cut') :
    (newest time n cut l).filter (since time cut') = newest time n cut' l := by
  have hsorted : ((latestFirst time l).filter (since time cut)).Pairwise (AsNew time) :=
    (pairwise_latestFirst l).filter _
  rw [newest, filter_take hsorted, filter_since_since hcut]
  rfl

/-- **What is kept can be kept up to date.**  What comes in takes its place, and what is before
the new cut or too much goes; nothing that went earlier is missed. -/
theorem newest_cons (hcut : cut ≤ cut') (hx : since time cut' x = true) :
    ((put time x (newest time n cut l)).filter (since time cut')).take n =
      newest time n cut' (x :: l) := by
  have hkept : (put time x (newest time n cut l)).filter (since time cut') =
      put time x (((latestFirst time l).filter (since time cut')).take n) := by
    rw [filter_put pairwise_newest hx, filter_newest hcut]
    rfl
  rw [hkept, take_put, ← filter_put (pairwise_latestFirst l) hx]
  rfl

theorem newest_map {f : α → α} (hf : ∀ a, time (f a) = time a) :
    newest time n cut (l.map f) = (newest time n cut l).map f := by
  have hsince : since time cut ∘ f = since time cut := by
    funext a
    simp [since, hf]
  have hsort : latestFirst time (l.map f) = (latestFirst time l).map f :=
    (List.map_insertionSort _ _ f l fun a _ b _ => by simp [AsNew, hf]).symm
  rw [newest, hsort, List.filter_map, hsince, ← List.map_take]
  rfl

/-- Values of one time stay in the order in which they came. -/
theorem filter_time_latestFirst (t : τ) (l : List α) :
    (latestFirst time l).filter (fun a => decide (time a = t)) =
      l.filter fun a => decide (time a = t) := by
  have hput (x : α) (l : List α) : (put time x l).filter (fun a => decide (time a = t)) =
      (x :: l).filter fun a => decide (time a = t) := by
    induction l with
    | nil => rfl
    | cons b l ih =>
      unfold put at ih ⊢
      by_cases hxb : AsNew time x b
      · rw [List.orderedInsert_cons_of_le _ _ hxb]
      · rw [List.orderedInsert_of_not_le _ _ hxb, List.filter_cons, ih]
        have hne : time b ≠ time x := ne_of_gt (not_le.1 hxb)
        by_cases hx : time x = t
        · simp [hx, hx ▸ hne]
        · simp [hx, List.filter_cons]
  induction l with
  | nil => rfl
  | cons x l ih =>
    show (put time x (latestFirst time l)).filter _ = _
    rw [hput, List.filter_cons, List.filter_cons, ih]

/-- Of the values of one time those are kept that came last, in the order in which they came. -/
theorem filter_time_newest (t : τ) :
    (newest time n cut l).filter (fun a => decide (time a = t)) <+:
      l.filter fun a => decide (time a = t) := by
  have hkept : (newest time n cut l).filter (fun a => decide (time a = t)) <+:
      ((latestFirst time l).filter (since time cut)).filter fun a => decide (time a = t) :=
    (List.take_prefix _ _).filter _
  refine hkept.trans ?_
  rw [List.filter_filter, ← filter_time_latestFirst t l]
  by_cases hcut : cut ≤ (t : WithBot τ)
  · have hall : ((latestFirst time l).filter fun a => decide (time a = t) && since time cut a) =
        (latestFirst time l).filter fun a => decide (time a = t) := by
      apply List.filter_congr
      intro a _
      by_cases ha : time a = t
      · simp [ha, since, hcut]
      · simp [ha]
    rw [hall]
  · have hnone : ((latestFirst time l).filter fun a => decide (time a = t) && since time cut a) =
        [] := by
      rw [List.filter_eq_nil_iff]
      intro a _ hboth
      simp only [since, Bool.and_eq_true, decide_eq_true_eq] at hboth
      exact hcut (hboth.1 ▸ hboth.2)
    rw [hnone]
    exact List.nil_prefix

/-! ### Lists with the oldest in front -/

variable (time) in
/-- Behind the last value that is not newer: that is its place. -/
theorem reverse_insert (x : α) (l : List α) :
    (l.rdropWhile (fun b => decide (time x < time b)) ++
      x :: l.rtakeWhile (fun b => decide (time x < time b))).reverse = put time x l.reverse := by
  have hnewer : (fun b => decide (¬ AsNew time x b)) = fun b => decide (time x < time b) := by
    funext b
    exact decide_eq_decide.2 not_le
  rw [put, List.orderedInsert_eq_take_drop, hnewer, List.reverse_append, List.reverse_cons,
    List.rdropWhile, List.rtakeWhile, List.reverse_reverse, List.reverse_reverse, List.append_assoc]
  rfl

/-- What is before the cut is behind the rest. -/
theorem since_append_before (cut : WithBot τ) (h : l.Pairwise (AsNew time)) :
    l.filter (since time cut) ++ l.filter (fun a => !since time cut a) = l := by
  induction l with
  | nil => rfl
  | cons a l ih =>
    by_cases ha : since time cut a = true
    · simp only [List.filter_cons, ha, if_true, Bool.not_true, Bool.false_eq_true, if_false,
        List.cons_append]
      exact congrArg (a :: ·) (ih h.of_cons)
    · rw [filter_eq_nil h ha, List.nil_append, List.filter_eq_self]
      intro b hb
      have hnone := List.filter_eq_nil_iff.1 (filter_eq_nil h ha) b hb
      simpa using hnone

/-- How much is before the cut can be counted from the back. -/
theorem length_takeWhile_before (h : l.Pairwise (AsNew time)) :
    (l.reverse.takeWhile fun a => !since time cut a).length =
      (l.filter fun a => !since time cut a).length := by
  conv_lhs => rw [← since_append_before cut h, List.reverse_append]
  rw [List.takeWhile_append_of_pos]
  · rw [List.length_append, List.length_reverse, Nat.add_eq_left, List.length_eq_zero_iff]
    cases hlast : (l.filter (since time cut)).reverse with
    | nil => rfl
    | cons a rest =>
      have ha : a ∈ l.filter (since time cut) := by
        rw [← List.mem_reverse, hlast]
        exact List.mem_cons_self
      rw [List.takeWhile_cons_of_neg]
      simp [(List.mem_filter.1 ha).2]
  · intro a ha
    rw [List.mem_reverse, List.mem_filter] at ha
    exact ha.2

/-- Dropped from the front is what is before the cut, or more where there is too much. -/
theorem reverse_drop (h : l.Pairwise (AsNew time)) (n : ℕ) :
    (l.reverse.drop (max
      (l.reverse.takeWhile fun a => decide ((time a : WithBot τ) < cut)).length
      (l.length - n))).reverse = (l.filter (since time cut)).take n := by
  have hbefore : (fun a => decide ((time a : WithBot τ) < cut)) = fun a => !since time cut a := by
    funext a
    rw [since, ← decide_not]
    exact decide_eq_decide.2 not_le.symm
  have hsplit := since_append_before cut h
  have hlen := congrArg List.length hsplit
  rw [List.length_append] at hlen
  have hkept : l.length - max (l.filter fun a => !since time cut a).length (l.length - n) =
      min n (l.filter (since time cut)).length := by
    omega
  rw [hbefore, length_takeWhile_before h, List.drop_reverse, List.reverse_reverse, hkept]
  calc l.take (min n (l.filter (since time cut)).length)
      = (l.filter (since time cut) ++ l.filter fun a => !since time cut a).take
          (min n (l.filter (since time cut)).length) := by rw [hsplit]
    _ = (l.filter (since time cut)).take (min n (l.filter (since time cut)).length) :=
        List.take_append_of_le_length (Nat.min_le_right _ _)
    _ = (l.filter (since time cut)).take n := List.take_eq_take_min.symm

end Order

/-! ## Walking back -/

variable {α : Type}

/-- A walk along a list that skips what is too late, and stops at what is too early. -/
def visitBack (early late : α → Bool) : List α → List α
  | [] => []
  | x :: l =>
    if early x then [] else if late x then visitBack early late l else x :: visitBack early late l

/-- Where everything behind something early is early, the walk visits what is neither. -/
theorem visitBack_eq_filter {early late : α → Bool} {l : List α}
    (h : l.Pairwise fun a b => early a = true → early b = true) :
    visitBack early late l = l.filter fun x => !early x && !late x := by
  induction l with
  | nil => rfl
  | cons x l ih =>
    rw [visitBack, ih h.of_cons]
    by_cases hx : early x = true
    · have hrest : ∀ a ∈ l, early a = true := fun a ha => List.rel_of_pairwise_cons h ha hx
      rw [if_pos hx, List.filter_cons_of_neg (by simp [hx])]
      symm
      rw [List.filter_eq_nil_iff]
      intro a ha
      simp [hrest a ha]
    · rw [if_neg hx]
      by_cases hlate : late x = true
      · simp [hlate]
      · simp [hx, hlate]

theorem visitBack_map {β : Type} (early late : β → Bool) (f : α → β) (l : List α) :
    visitBack early late (l.map f) = (visitBack (early ∘ f) (late ∘ f) l).map f := by
  induction l with
  | nil => rfl
  | cons x l ih =>
    simp only [List.map_cons, visitBack, ih, Function.comp_apply]
    split
    · rfl
    split <;> rfl

/-- A walk that visits nothing, though nothing is too late for it, starts at something early. -/
theorem visitBack_eq_nil {early early' late late' : α → Bool} {l : List α}
    (hlate : ∀ x, late x = false) (hearly : ∀ x, early x = true → early' x = true)
    (h : visitBack early late l = []) : visitBack early' late' l = [] := by
  cases l with
  | nil => rfl
  | cons x l =>
    rw [visitBack, hlate] at h
    by_cases hx : early x = true
    · rw [visitBack, if_pos (hearly x hx)]
    · rw [if_neg hx] at h
      cases h

end Newest
end TcVoice
