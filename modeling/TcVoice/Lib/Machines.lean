import Mathlib.Data.List.Basic

/-!
# Machines with output, and two runs of them

A machine answers every input with an output: `step : σ → ι → σ × ω`.  What one
party can tell about another by watching outputs is a question about two runs.

* `after`, `outputs` — the state after some inputs, and the answers to them.
* `Along ok` — every input meets `ok` in the state that it arrives in, with
  `along_congr` for conditions that agree where an invariant holds.
* `Lockstep ok` — the same of two runs side by side.
* `outputs_eq_iff` — **the unwinding lemma**: if related states answer alike exactly
  when the inputs are `ok`, and `ok` inputs keep the states related, then two runs from
  related states answer alike exactly when they are `ok` in lockstep; `outputs_eq`
  is the case of inputs that are always `ok`.
* `seen`, `seen_project` — what a run shows to a party that sees some of the inputs, and
  when it is what a smaller machine answers to these alone.
-/

namespace TcVoice
namespace Machines

variable {σ τ ι κ ω υ : Type}

/-! ## One run -/

section One

variable (step : σ → ι → σ × ω)

/-- The state after a list of inputs. -/
def after (s : σ) : List ι → σ
  | [] => s
  | i :: is => after (step s i).1 is

/-- The answers to a list of inputs, one by one. -/
def outputs (s : σ) : List ι → List ω
  | [] => []
  | i :: is => (step s i).2 :: outputs (step s i).1 is

/-- Every input meets `ok` in the state that it arrives in. -/
def Along (ok : σ → ι → Prop) (s : σ) : List ι → Prop
  | [] => True
  | i :: is => ok s i ∧ Along ok (step s i).1 is

variable {step}

/-- Two conditions that agree where an invariant holds, along a run; the invariant need only
be kept by the steps that meet them. -/
theorem along_congr {Inv : σ → Prop} {ok ok' : σ → ι → Prop}
    (hstep : ∀ s i, Inv s → ok' s i → Inv (step s i).1)
    (hiff : ∀ s i, Inv s → (ok s i ↔ ok' s i)) {s : σ} (hs : Inv s) (is : List ι) :
    Along step ok s is ↔ Along step ok' s is := by
  induction is generalizing s with
  | nil => exact Iff.rfl
  | cons i is ih =>
    unfold Along
    rw [hiff s i hs]
    apply and_congr_right
    intro hok
    exact ih (hstep s i hs hok)

theorem after_append (s : σ) (is js : List ι) :
    after step s (is ++ js) = after step (after step s is) js := by
  induction is generalizing s with
  | nil => rfl
  | cons i is ih => exact ih (step s i).1

theorem outputs_append (s : σ) (is js : List ι) :
    outputs step s (is ++ js) = outputs step s is ++ outputs step (after step s is) js := by
  induction is generalizing s with
  | nil => rfl
  | cons i is ih => exact congrArg ((step s i).2 :: ·) (ih (step s i).1)

/-- A condition along a run, in two parts. -/
theorem along_append {ok : σ → ι → Prop} (s : σ) (is js : List ι) :
    Along step ok s (is ++ js) ↔ Along step ok s is ∧ Along step ok (after step s is) js := by
  induction is generalizing s with
  | nil => exact (Iff.of_eq (true_and _)).symm
  | cons i is ih =>
    show ok s i ∧ Along step ok (step s i).1 (is ++ js) ↔
      (ok s i ∧ Along step ok (step s i).1 is) ∧ _
    rw [ih, and_assoc]
    rfl

end One

/-! ## Two runs -/

section Two

variable (step : σ → ι → σ × ω) (step' : τ → κ → τ × υ)

/-- Two runs side by side: every two inputs meet `ok` in the states they arrive in. -/
def Lockstep (ok : σ → ι → τ → κ → Prop) (s : σ) (t : τ) : List ι → List κ → Prop
  | i :: is, k :: ks => ok s i t k ∧ Lockstep ok (step s i).1 (step' t k).1 is ks
  | _, _ => True

variable {step step'} {α : Type} {obs : ω → α} {obs' : υ → α} {R : σ → τ → Prop}
  {agree : ι → κ → Prop} {ok : σ → ι → τ → κ → Prop}

/-- **The unwinding lemma**, with the exact condition: what is observed of two runs is the
same exactly when they meet the condition in lockstep. -/
theorem outputs_eq_iff
    (hobs : ∀ s t i k, R s t → agree i k →
      (obs (step s i).2 = obs' (step' t k).2 ↔ ok s i t k))
    (hkeep : ∀ s t i k, R s t → agree i k → ok s i t k → R (step s i).1 (step' t k).1)
    {is : List ι} {ks : List κ} (hagree : List.Forall₂ agree is ks) {s : σ} {t : τ}
    (hst : R s t) :
    (outputs step s is).map obs = (outputs step' t ks).map obs' ↔
      Lockstep step step' ok s t is ks := by
  induction hagree generalizing s t with
  | nil => exact ⟨fun _ => trivial, fun _ => rfl⟩
  | @cons i k is ks hik _ ih =>
    have hhead := hobs s t i k hst hik
    simp only [outputs, List.map_cons, List.cons.injEq, Lockstep]
    constructor
    · rintro ⟨h, hrest⟩
      have hok := hhead.1 h
      exact ⟨hok, (ih (hkeep s t i k hst hik hok)).1 hrest⟩
    · rintro ⟨hok, hrest⟩
      exact ⟨hhead.2 hok, (ih (hkeep s t i k hst hik hok)).2 hrest⟩

/-- The unwinding lemma where inputs that agree always keep the states related. -/
theorem outputs_eq
    (hobs : ∀ s t i k, R s t → agree i k → obs (step s i).2 = obs' (step' t k).2)
    (hkeep : ∀ s t i k, R s t → agree i k → R (step s i).1 (step' t k).1)
    {is : List ι} {ks : List κ} (hagree : List.Forall₂ agree is ks) {s : σ} {t : τ}
    (hst : R s t) : (outputs step s is).map obs = (outputs step' t ks).map obs' := by
  induction hagree generalizing s t with
  | nil => rfl
  | @cons i k is ks hik _ ih =>
    simp only [outputs, List.map_cons, List.cons.injEq]
    exact ⟨hobs s t i k hst hik, ih (hkeep s t i k hst hik)⟩

/-- A lockstep condition that looks only at a view of the states, which smaller machines keep
up with. -/
theorem lockstep_view {σ' τ' ω' υ' : Type} {small : σ' → ι → σ' × ω'}
    {small' : τ' → κ → τ' × υ'} {view : σ → σ'} {view' : τ → τ'}
    {ok : σ' → ι → τ' → κ → Prop} (hview : ∀ s i k, agree i k →
      view (step s i).1 = (small (view s) i).1)
    (hview' : ∀ t i k, agree i k → view' (step' t k).1 = (small' (view' t) k).1)
    {is : List ι} {ks : List κ} (hagree : List.Forall₂ agree is ks) (s : σ) (t : τ) :
    Lockstep step step' (fun s i t k => ok (view s) i (view' t) k) s t is ks ↔
      Lockstep small small' ok (view s) (view' t) is ks := by
  induction hagree generalizing s t with
  | nil => exact Iff.rfl
  | @cons i k is ks hik _ ih =>
    unfold Lockstep
    rw [ih, hview s i k hik, hview' t i k hik]

instance Lockstep.decidable [∀ s i t k, Decidable (ok s i t k)] (s : σ) (t : τ) :
    (is : List ι) → (ks : List κ) → Decidable (Lockstep step step' ok s t is ks)
  | [], _ => .isTrue trivial
  | _ :: _, [] => .isTrue trivial
  | i :: is, k :: ks =>
    have := Lockstep.decidable (step s i).1 (step' t k).1 is ks
    inferInstanceAs (Decidable (_ ∧ _))

end Two

/-! ## What a party sees of a run -/

section Seen

variable (step : σ → ι → σ × ω) (sees : ι → Option κ)

/-- The states and the answers after the inputs that a party sees. -/
def seen (s : σ) : List ι → List (σ × ω)
  | [] => []
  | i :: is =>
    match sees i with
    | none => seen (step s i).1 is
    | some _ => step s i :: seen (step s i).1 is

variable {step sees} {small : τ → κ → τ × υ} {R : σ → τ → Prop} {Ok : σ → List ι → Prop}
  {α : Type} {obs : σ × ω → α} {obs' : τ × υ → α}

/-- **Projection**: if the inputs that a party does not see leave the related state of a
smaller machine as it is, and the others take that machine along with them, then the party
sees what that machine answers to the inputs the party sees.  `Ok` is what is promised of a
state and of the inputs that are still to come. -/
theorem seen_project
    (hok : ∀ s t i is, R s t → Ok s (i :: is) → Ok (step s i).1 is)
    (hhidden : ∀ s t i is, R s t → Ok s (i :: is) → sees i = none → R (step s i).1 t)
    (hseen : ∀ s t i is k, R s t → Ok s (i :: is) → sees i = some k →
      R (step s i).1 (small t k).1 ∧ obs (step s i) = obs' (small t k))
    {is : List ι} {s : σ} {t : τ} (h : Ok s is) (hst : R s t) :
    (seen step sees s is).map obs = (seen small some t (is.filterMap sees)).map obs' := by
  induction is generalizing s t with
  | nil => rfl
  | cons i is ih =>
    have hrest := hok s t i is hst h
    cases hi : sees i with
    | none =>
      rw [List.filterMap_cons_none hi, seen]
      simp only [hi]
      exact ih hrest (hhidden s t i is hst h hi)
    | some k =>
      obtain ⟨hnext, hobs⟩ := hseen s t i is k hst h hi
      rw [List.filterMap_cons_some hi, seen, seen]
      simp only [hi, List.map_cons, List.cons.injEq]
      exact ⟨hobs, ih hrest hnext⟩

end Seen

end Machines
end TcVoice
