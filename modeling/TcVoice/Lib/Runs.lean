import Mathlib.Data.List.Basic

/-!
# Runs of a step function

A system is a partial step function `step : σ → ε → Option σ`: the event `e`
happens in state `s` when `step s e` is `some`.  The events carry everything
the outside world decides, so a list of events determines a run.

* `runFrom` — the state after a list of events.
* `Throughout P` — every state a run passes through satisfies `P`, with
  `throughout_iff` saying so in terms of the prefixes of the run.
* `EachStep ok` — every event that happens meets `ok` in the state it happens in.
* `runFrom_map` — a system that records more runs along with the one it extends.
* `Reachable adm init` — the states some admissible run ends in, with its
  induction principle `Reachable.induct`.
* `inv_runFrom` — **an invariant of every step is an invariant of every run**.
* `Persists`, `persists_iff` — what stays until it is released, over a run and in
  terms of its steps.
* `throughout_iff_eachStep` — **the blame lemma**: if from a good state a step
  leads to a good state exactly when it is an `ok` one, then a run stays good
  exactly when each of its steps is `ok`; `throughout_iff_eachStep_while` is the
  same with an invariant that only good states keep.
-/

namespace TcVoice
namespace Runs

variable {σ ε : Type} (step : σ → ε → Option σ)

/-! ## Running a list of events -/

/-- The state after a list of events; `none` as soon as one of them cannot happen. -/
def runFrom (s : σ) : List ε → Option σ
  | [] => some s
  | e :: es => (step s e).bind fun s' => runFrom s' es

/-- Every state the run passes through, `s` included, satisfies `P`. -/
def Throughout (P : σ → Prop) (s : σ) : List ε → Prop
  | [] => P s
  | e :: es => P s ∧ ∀ s', step s e = some s' → Throughout P s' es

/-- Every event of the run that happens meets `ok` in the state it happens in. -/
def EachStep (ok : σ → ε → Prop) (s : σ) : List ε → Prop
  | [] => True
  | e :: es => ∀ s', step s e = some s' → ok s e ∧ EachStep ok s' es

/-- The states that a run from `init` whose events are all admissible ends in. -/
def Reachable (adm : σ → ε → Prop) (init s : σ) : Prop :=
  ∃ es, EachStep step adm init es ∧ runFrom step init es = some s

variable {step}

theorem runFrom_cons (s : σ) (e : ε) (es : List ε) :
    runFrom step s (e :: es) = (step s e).bind fun s' => runFrom step s' es := rfl

theorem runFrom_append (s : σ) (es fs : List ε) :
    runFrom step s (es ++ fs) = (runFrom step s es).bind fun t => runFrom step t fs := by
  induction es generalizing s with
  | nil => rfl
  | cons e es ih =>
    rw [List.cons_append, runFrom_cons, runFrom_cons]
    cases step s e with
    | none => rfl
    | some s' => exact ih s'

theorem eachStep_append {ok : σ → ε → Prop} {s m : σ} {es fs : List ε}
    (h : EachStep step ok s (es ++ fs)) (hm : runFrom step s es = some m) :
    EachStep step ok s es ∧ EachStep step ok m fs := by
  induction es generalizing s with
  | nil => cases hm; exact ⟨trivial, h⟩
  | cons e es ih =>
    rw [runFrom_cons] at hm
    obtain ⟨s', hs', hm'⟩ := Option.bind_eq_some_iff.1 hm
    obtain ⟨-, hrest⟩ := h s' hs'
    obtain ⟨hes, hfs⟩ := ih hrest hm'
    refine ⟨?_, hfs⟩
    intro s'' hs''
    obtain rfl : s' = s'' := Option.some.inj (hs'.symm.trans hs'')
    exact ⟨(h s' hs').1, hes⟩

theorem EachStep.append {ok : σ → ε → Prop} {s m : σ} {es fs : List ε}
    (hes : EachStep step ok s es) (hm : runFrom step s es = some m)
    (hfs : EachStep step ok m fs) : EachStep step ok s (es ++ fs) := by
  induction es generalizing s with
  | nil => cases hm; exact hfs
  | cons e es ih =>
    intro s' hs'
    rw [runFrom_cons, hs', Option.bind_some] at hm
    exact ⟨(hes s' hs').1, ih (hes s' hs').2 hm⟩

/-- A system that records more than another runs along with it. -/
theorem runFrom_map {τ : Type} {step' : τ → ε → Option τ} {f : τ → σ}
    (hf : ∀ t e, (step' t e).map f = step (f t) e) (t : τ) (es : List ε) :
    (runFrom step' t es).map f = runFrom step (f t) es := by
  induction es generalizing t with
  | nil => rfl
  | cons e es ih =>
    rw [runFrom_cons, runFrom_cons, ← hf]
    cases step' t e with
    | none => rfl
    | some t' => exact ih t'

theorem EachStep.mono {ok ok' : σ → ε → Prop} (himp : ∀ s e, ok s e → ok' s e) {s : σ}
    {es : List ε} (h : EachStep step ok s es) : EachStep step ok' s es := by
  induction es generalizing s with
  | nil => trivial
  | cons e es ih => exact fun s' hs' => ⟨himp s e (h s' hs').1, ih (h s' hs').2⟩

/-- Two conditions that every step from a state with an invariant meets or misses alike. -/
theorem eachStep_congr_of_inv {ok ok' : σ → ε → Prop} (Inv : σ → Prop)
    (hstep : ∀ s e s', Inv s → step s e = some s' → Inv s')
    (hiff : ∀ s e s', Inv s → step s e = some s' → (ok s e ↔ ok' s e)) {s : σ} (hs : Inv s)
    {es : List ε} : EachStep step ok s es ↔ EachStep step ok' s es := by
  induction es generalizing s with
  | nil => exact Iff.rfl
  | cons e es ih =>
    exact forall₂_congr fun s' hs' => and_congr (hiff s e s' hs hs') (ih (hstep s e s' hs hs'))

/-- Two conditions that every step that happens meets or misses alike. -/
theorem eachStep_congr {ok ok' : σ → ε → Prop}
    (hiff : ∀ s e s', step s e = some s' → (ok s e ↔ ok' s e)) {s : σ} {es : List ε} :
    EachStep step ok s es ↔ EachStep step ok' s es :=
  eachStep_congr_of_inv (fun _ => True) (fun _ _ _ _ _ => trivial)
    (fun s e s' _ hs' => hiff s e s' hs') trivial

theorem eachStep_true (s : σ) (es : List ε) : EachStep step (fun _ _ => True) s es := by
  induction es generalizing s with
  | nil => trivial
  | cons e es ih => exact fun s' _ => ⟨trivial, ih s'⟩

/-- A condition on the events alone. -/
theorem eachStep_of_forall {P : ε → Prop} {s : σ} {es : List ε} (h : ∀ e ∈ es, P e) :
    EachStep step (fun _ e => P e) s es := by
  induction es generalizing s with
  | nil => trivial
  | cons e es ih =>
    exact fun s' _ => ⟨h e List.mem_cons_self, ih fun e' he' => h e' (List.mem_cons_of_mem _ he')⟩

/-- A family of conditions is met by each step when each of them is. -/
theorem eachStep_forall {ι : Type} {ok : ι → σ → ε → Prop} {s : σ} {es : List ε} :
    EachStep step (fun s e => ∀ i, ok i s e) s es ↔ ∀ i, EachStep step (ok i) s es := by
  induction es generalizing s with
  | nil => exact ⟨fun _ _ => trivial, fun _ => trivial⟩
  | cons e es ih =>
    constructor
    · intro h i s' hs'
      exact ⟨(h s' hs').1 i, ih.1 (h s' hs').2 i⟩
    · intro h s' hs'
      exact ⟨fun i => (h i s' hs').1, ih.2 fun i => (h i s' hs').2⟩

theorem eachStep_and {ok ok' : σ → ε → Prop} {s : σ} {es : List ε} :
    EachStep step (fun s e => ok s e ∧ ok' s e) s es ↔
      EachStep step ok s es ∧ EachStep step ok' s es := by
  induction es generalizing s with
  | nil => exact ⟨fun _ => ⟨trivial, trivial⟩, fun _ => trivial⟩
  | cons e es ih =>
    constructor
    · intro h
      exact ⟨fun s' hs' => ⟨(h s' hs').1.1, (ih.1 (h s' hs').2).1⟩,
        fun s' hs' => ⟨(h s' hs').1.2, (ih.1 (h s' hs').2).2⟩⟩
    · intro h s' hs'
      exact ⟨⟨(h.1 s' hs').1, (h.2 s' hs').1⟩, ih.2 ⟨(h.1 s' hs').2, (h.2 s' hs').2⟩⟩

theorem eachStep_cons {ok : σ → ε → Prop} {s s' : σ} {e : ε} {es : List ε}
    (h : step s e = some s') :
    EachStep step ok s (e :: es) ↔ ok s e ∧ EachStep step ok s' es := by
  constructor
  · exact fun hes => hes s' h
  · intro hes s'' h'
    obtain rfl : s' = s'' := Option.some.inj (h.symm.trans h')
    exact hes

/-- Whether each step of a run is an `ok` one can be found out by running it. -/
instance decidableEachStep {ok : σ → ε → Prop} [∀ s e, Decidable (ok s e)] (s : σ) :
    (es : List ε) → Decidable (EachStep step ok s es)
  | [] => isTrue trivial
  | e :: es =>
    match h : step s e with
    | none => isTrue fun _ hs => absurd (h.symm.trans hs) (by simp)
    | some s' =>
      have : Decidable (EachStep step ok s' es) := decidableEachStep s' es
      decidable_of_iff _ (eachStep_cons h).symm

/-! ## Invariants -/

/-- **An invariant of every step is an invariant of every run.** -/
theorem inv_runFrom {adm : σ → ε → Prop} (Inv : σ → Prop)
    (hstep : ∀ s e s', Inv s → adm s e → step s e = some s' → Inv s') {s t : σ} {es : List ε}
    (hs : Inv s) (hadm : EachStep step adm s es) (ht : runFrom step s es = some t) : Inv t := by
  induction es generalizing s with
  | nil => cases ht; exact hs
  | cons e es ih =>
    rw [runFrom_cons] at ht
    obtain ⟨s', hs', ht'⟩ := Option.bind_eq_some_iff.1 ht
    obtain ⟨hok, hrest⟩ := hadm s' hs'
    exact ih (hstep s e s' hs hok hs') hrest ht'

/-- What every step from a state of the invariant meets, every run from one meets. -/
theorem EachStep.of_inv {adm ok : σ → ε → Prop} (Inv : σ → Prop)
    (hstep : ∀ s e s', Inv s → adm s e → step s e = some s' → Inv s' ∧ ok s e) {s : σ}
    {es : List ε} (hs : Inv s) (hadm : EachStep step adm s es) : EachStep step ok s es := by
  induction es generalizing s with
  | nil => trivial
  | cons e es ih =>
    intro s' hs'
    obtain ⟨ha, hrest⟩ := hadm s' hs'
    obtain ⟨hinv, hok⟩ := hstep s e s' hs ha hs'
    exact ⟨hok, ih hinv hrest⟩

theorem Throughout.head {P : σ → Prop} {s : σ} {es : List ε} (h : Throughout step P s es) :
    P s := by
  cases es with
  | nil => exact h
  | cons e es => exact h.1

theorem Throughout.mono {P Q : σ → Prop} (himp : ∀ s, P s → Q s) {s : σ} {es : List ε}
    (h : Throughout step P s es) : Throughout step Q s es := by
  induction es generalizing s with
  | nil => exact himp s h
  | cons e es ih => exact ⟨himp s h.1, fun s' hs' => ih (h.2 s' hs')⟩

/-- `Throughout` speaks of exactly the states the prefixes of the run end in. -/
theorem throughout_iff {P : σ → Prop} {s : σ} {es : List ε} :
    Throughout step P s es ↔ ∀ k t, runFrom step s (es.take k) = some t → P t := by
  induction es generalizing s with
  | nil =>
    constructor
    · intro h k t ht
      rw [List.take_nil] at ht
      cases ht
      exact h
    · intro h
      exact h 0 s rfl
  | cons e es ih =>
    constructor
    · rintro ⟨h0, hrest⟩ k t ht
      cases k with
      | zero => cases ht; exact h0
      | succ k =>
        rw [List.take_succ_cons, runFrom_cons] at ht
        obtain ⟨s', hs', ht'⟩ := Option.bind_eq_some_iff.1 ht
        exact ih.1 (hrest s' hs') k t ht'
    · intro h
      refine ⟨h 0 s rfl, fun s' hs' => ih.2 fun k t ht => h (k + 1) t ?_⟩
      rw [List.take_succ_cons, runFrom_cons, hs', Option.bind_some]
      exact ht

/-- **The blame lemma**, with an invariant that needs the good states to last. -/
theorem throughout_iff_eachStep_while {adm ok : σ → ε → Prop} {P : σ → Prop} (Inv : σ → Prop)
    (hinv : ∀ s e s', Inv s → P s → adm s e → step s e = some s' → P s' → Inv s')
    (hstep : ∀ s e s', Inv s → P s → adm s e → step s e = some s' → (P s' ↔ ok s e))
    {s : σ} {es : List ε} (hs : Inv s) (hP : P s) (hadm : EachStep step adm s es) :
    Throughout step P s es ↔ EachStep step ok s es := by
  induction es generalizing s with
  | nil => exact ⟨fun _ => trivial, fun _ => hP⟩
  | cons e es ih =>
    constructor
    · rintro ⟨-, hrest⟩ s' hs'
      obtain ⟨ha, hadm'⟩ := hadm s' hs'
      have hP' : P s' := (hrest s' hs').head
      exact ⟨(hstep s e s' hs hP ha hs').1 hP',
        (ih (hinv s e s' hs hP ha hs' hP') hP' hadm').1 (hrest s' hs')⟩
    · intro h
      refine ⟨hP, fun s' hs' => ?_⟩
      obtain ⟨ha, hadm'⟩ := hadm s' hs'
      have hP' : P s' := (hstep s e s' hs hP ha hs').2 (h s' hs').1
      exact (ih (hinv s e s' hs hP ha hs' hP') hP' hadm').2 (h s' hs').2

/-- **The blame lemma.**  If from a good state an admissible step leads to a
good state exactly when it is an `ok` one, then a run stays good throughout
exactly when each of its steps is `ok`. -/
theorem throughout_iff_eachStep {adm ok : σ → ε → Prop} {P : σ → Prop} (Inv : σ → Prop)
    (hinv : ∀ s e s', Inv s → adm s e → step s e = some s' → Inv s')
    (hstep : ∀ s e s', Inv s → P s → adm s e → step s e = some s' → (P s' ↔ ok s e))
    {s : σ} {es : List ε} (hs : Inv s) (hP : P s) (hadm : EachStep step adm s es) :
    Throughout step P s es ↔ EachStep step ok s es :=
  throughout_iff_eachStep_while Inv (fun s e s' hi _ ha h _ => hinv s e s' hi ha h) hstep hs hP
    hadm

/-- An invariant of every step holds throughout every run. -/
theorem throughout_of_inv {adm : σ → ε → Prop} (Inv : σ → Prop)
    (hstep : ∀ s e s', Inv s → adm s e → step s e = some s' → Inv s') {s : σ} {es : List ε}
    (hs : Inv s) (hadm : EachStep step adm s es) : Throughout step Inv s es := by
  induction es generalizing s with
  | nil => exact hs
  | cons e es ih =>
    refine ⟨hs, fun s' hs' => ?_⟩
    obtain ⟨ha, hadm'⟩ := hadm s' hs'
    exact ih (hstep s e s' hs ha hs') hadm'

/-! ## What stays until it is released -/

/-- Whenever `Q` holds in a state of the run, it still holds after any further part of the run
that has no releasing event in it. -/
def Persists (step : σ → ε → Option σ) (Q : σ → Prop) (release : ε → Prop) (s : σ)
    (es : List ε) : Prop :=
  ∀ before since after t u, es = before ++ since ++ after → runFrom step s before = some t →
    runFrom step t since = some u → (∀ e ∈ since, ¬ release e) → Q t → Q u

/-- **What stays until it is released** is what each single step keeps, unless it releases it. -/
theorem persists_iff {Q : σ → Prop} {release : ε → Prop} {s : σ} {es : List ε} :
    Persists step Q release s es ↔
      EachStep step (fun s e => ¬ release e → Q s → ∀ s', step s e = some s' → Q s') s es := by
  constructor
  · intro h
    induction es generalizing s with
    | nil => trivial
    | cons e es ih =>
      intro s' hs'
      refine ⟨fun hno hQ s'' hs'' => ?_, ih fun before since after t u hes ht => ?_⟩
      · refine h [] [e] es s s'' rfl rfl ?_ ?_ hQ
        · rw [runFrom_cons, hs'']
          rfl
        · intro e' he'
          rwa [List.mem_singleton.1 he']
      · refine h (e :: before) since after t u (by rw [hes]; rfl) ?_
        rw [runFrom_cons, hs', Option.bind_some]
        exact ht
  · intro h before since after t u hes ht hu hno hQ
    subst hes
    rw [List.append_assoc] at h
    have hsince := (eachStep_append (eachStep_append h ht).2 hu).1
    clear h ht
    induction since generalizing t with
    | nil =>
      cases hu
      exact hQ
    | cons e since ih =>
      rw [runFrom_cons] at hu
      obtain ⟨t', ht', hu'⟩ := Option.bind_eq_some_iff.1 hu
      obtain ⟨hkeep, hrest⟩ := hsince t' ht'
      exact ih t' hu' (fun e' he' => hno e' (List.mem_cons_of_mem _ he'))
        (hkeep (hno e List.mem_cons_self) hQ t' ht') hrest

/-! ## Reachable states -/

theorem Reachable.refl (adm : σ → ε → Prop) (init : σ) : Reachable step adm init init :=
  ⟨[], trivial, rfl⟩

theorem Reachable.next {adm : σ → ε → Prop} {init s s' : σ} {e : ε}
    (h : Reachable step adm init s) (ha : adm s e) (hs : step s e = some s') :
    Reachable step adm init s' := by
  obtain ⟨es, hes, hrun⟩ := h
  refine ⟨es ++ [e], hes.append hrun fun t _ => ⟨ha, trivial⟩, ?_⟩
  rw [runFrom_append, hrun, Option.bind_some, runFrom_cons, hs]
  rfl

/-- Induction along a run to a reachable state. -/
theorem Reachable.induct {adm : σ → ε → Prop} {init s : σ} (Inv : σ → Prop)
    (h : Reachable step adm init s) (h0 : Inv init)
    (hstep : ∀ s e s', Inv s → adm s e → step s e = some s' → Inv s') : Inv s := by
  obtain ⟨es, hes, hrun⟩ := h
  exact inv_runFrom Inv hstep h0 hes hrun

end Runs
end TcVoice
