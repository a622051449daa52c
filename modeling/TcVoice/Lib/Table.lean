import Mathlib.Data.Finmap
import Mathlib.Data.Finset.Basic
import Mathlib.Data.Multiset.Filter
import Mathlib.Data.Multiset.Count
import Mathlib.Data.List.Sort

/-!
# Hash tables

A hash table is a finite map whose iteration order is nobody's business.  The
map itself is Mathlib's `Finmap`; this file adds the operations a standard
library hash table has and `Finmap` lacks, each with its lookup law.

* `Table.modify` — update the value under one key, if there is one.
* `Table.move` — give the value under one key to another.
* `Table.retain` — keep the entries a test accepts.
* `Table.filterMap` — the values passed through a function, where it keeps them.
* `Table.mapValues` — every value replaced.
* `Table.any` — is there an entry a test accepts?
* `Table.collect` — what a traversal reads off the entries a test accepts, as a
  multiset: each of them once, in no promised order.
* `Table.len` — the number of entries.
* `HashOrder` — the order one traversal happened to take, for the places where
  the program collects what it visits into a vector; `HashOrder.byKey` is one.
-/

namespace TcVoice

/-- A hash table from `K` to `V`. -/
abbrev Table (K V : Type) := Finmap (fun _ : K => V)

namespace Table

variable {K V : Type}

/-! ## Lookups after an insertion or a removal -/

section Decidable

variable [DecidableEq K]

theorem lookup_insert_if (m : Table K V) (k : K) (v : V) (x : K) :
    (m.insert k v).lookup x = if x = k then some v else m.lookup x := by
  by_cases h : x = k
  · subst h
    rw [if_pos rfl, Finmap.lookup_insert]
  · rw [if_neg h, Finmap.lookup_insert_of_ne _ h]

theorem lookup_erase_if (m : Table K V) (k x : K) :
    (m.erase k).lookup x = if x = k then none else m.lookup x := by
  by_cases h : x = k
  · subst h
    rw [if_pos rfl, Finmap.lookup_erase]
  · rw [if_neg h, Finmap.lookup_erase_ne h]

theorem mem_iff_lookup (m : Table K V) (k : K) : k ∈ m ↔ ∃ v, m.lookup k = some v :=
  Finmap.mem_iff

theorem notMem_iff_lookup (m : Table K V) (k : K) : k ∉ m ↔ m.lookup k = none :=
  Finmap.lookup_eq_none.symm

/-- An entry of the table is a key with its value. -/
theorem mem_entries (m : Table K V) (k : K) (v : V) :
    (⟨k, v⟩ : (_ : K) × V) ∈ m.entries ↔ m.lookup k = some v :=
  Finmap.lookup_eq_some_iff.symm

/-- Inserting the value that is there already changes nothing. -/
theorem insert_of_lookup {m : Table K V} {k : K} {v : V} (h : m.lookup k = some v) :
    m.insert k v = m := by
  refine Finmap.ext_lookup fun x => ?_
  rw [lookup_insert_if]
  split
  · rename_i hx
    rw [hx, h]
  · rfl

/-! ## Updating in place -/

/-- `get_mut`: update the value under `k`, if there is one. -/
def modify (m : Table K V) (k : K) (f : V → V) : Table K V :=
  match m.lookup k with
  | some v => m.insert k (f v)
  | none => m

theorem lookup_modify (m : Table K V) (k : K) (f : V → V) (x : K) :
    (m.modify k f).lookup x = if x = k then (m.lookup k).map f else m.lookup x := by
  unfold modify
  cases hk : m.lookup k with
  | some v => simpa using lookup_insert_if m k (f v) x
  | none =>
    by_cases h : x = k
    · subst h
      simpa using hk
    · simp [h]

/-- The value under one key goes to another; of two values `f` makes one. -/
def move (m : Table K V) (k l : K) (f : V → V → V) : Table K V :=
  match m.lookup k with
  | none => m
  | some v =>
    let m := m.erase k
    match m.lookup l with
    | none => m.insert l v
    | some w => m.insert l (f v w)

theorem lookup_move {k l : K} (h : k ≠ l) (m : Table K V) (f : V → V → V) (x : K) :
    (m.move k l f).lookup x =
      if x = k then none
      else if x = l then (m.lookup k).merge f (m.lookup l)
      else m.lookup x := by
  unfold move
  cases hk : m.lookup k with
  | none =>
    by_cases hx : x = k
    · subst hx
      simp [hk]
    · by_cases hxl : x = l
      · subst hxl
        simp [hx]
      · simp [hx, hxl]
  | some v =>
    have herase : (m.erase k).lookup l = m.lookup l := Finmap.lookup_erase_ne (Ne.symm h)
    by_cases hxl : x = l
    · subst hxl
      cases hl : m.lookup x <;> simp [herase, hl, Ne.symm h]
    · cases hl : m.lookup l <;> simp [herase, hl, hxl, lookup_erase_if]

end Decidable

/-! ## Filtering -/

/-- `retain`: keep the entries the test accepts. -/
def retain (m : Table K V) (p : K → V → Bool) : Table K V where
  entries := m.entries.filter fun e => p e.1 e.2
  nodupKeys := by
    have hle : (m.entries.filter fun e => p e.1 e.2) ≤ m.entries := Multiset.filter_le _ _
    have hkeys : (m.entries.filter fun e => p e.1 e.2).keys ≤ m.entries.keys :=
      Multiset.map_le_map hle
    exact Multiset.nodup_keys.1 (Multiset.nodup_of_le hkeys (Multiset.nodup_keys.2 m.nodupKeys))

/-- Retaining keeps a key's value when the test accepts the two, and drops it otherwise. -/
theorem lookup_retain [DecidableEq K] (m : Table K V) (p : K → V → Bool) (x : K) :
    (m.retain p).lookup x = (m.lookup x).filter (p x) := by
  ext v
  rw [Option.filter_eq_some_iff, ← mem_entries m, ← mem_entries (m.retain p)]
  simp [retain]

theorem lookup_retain_eq_some [DecidableEq K] (m : Table K V) (p : K → V → Bool) (x : K) (v : V) :
    (m.retain p).lookup x = some v ↔ m.lookup x = some v ∧ p x v = true := by
  rw [lookup_retain, Option.filter_eq_some_iff]

/-- The entries that `f` makes something of, with what it makes of their values. -/
def filterMap {W : Type} (m : Table K V) (f : V → Option W) : Table K W where
  entries := m.entries.filterMap fun e => (f e.2).map fun w => ⟨e.1, w⟩
  nodupKeys := by
    obtain ⟨entries, hnodup⟩ := m
    induction entries using Quotient.inductionOn with
    | h l =>
      refine List.nodupKeys_iff_pairwise.2 (List.Pairwise.filterMap _ ?_
        (List.nodupKeys_iff_pairwise.1 hnodup))
      intro e e' hne b hb b' hb'
      obtain ⟨w, -, rfl⟩ := Option.map_eq_some_iff.1 hb
      obtain ⟨w', -, rfl⟩ := Option.map_eq_some_iff.1 hb'
      exact hne

/-- What is made of the value under a key. -/
theorem lookup_filterMap [DecidableEq K] {W : Type} (m : Table K V) (f : V → Option W) (x : K) :
    (m.filterMap f).lookup x = (m.lookup x).bind f := by
  ext w
  rw [Option.bind_eq_some_iff, ← mem_entries (m.filterMap f)]
  constructor
  · intro hmem
    obtain ⟨⟨k, v⟩, he, hw⟩ := (Multiset.mem_filterMap _ _).1 hmem
    obtain ⟨w', hf, heq⟩ := Option.map_eq_some_iff.1 hw
    cases heq
    exact ⟨v, (mem_entries m k v).1 he, hf⟩
  · rintro ⟨v, hl, hf⟩
    refine (Multiset.mem_filterMap _ _).2 ⟨⟨x, v⟩, (mem_entries m x v).2 hl, ?_⟩
    exact Option.map_eq_some_iff.2 ⟨w, hf, rfl⟩

/-- `iter_mut`: every value replaced by what `f` makes of it and its key. -/
def mapValues {W : Type} (m : Table K V) (f : K → V → W) : Table K W where
  entries := m.entries.map fun e => ⟨e.1, f e.1 e.2⟩
  nodupKeys := by
    have hkeys : (m.entries.map fun e => (⟨e.1, f e.1 e.2⟩ : (_ : K) × W)).keys = m.entries.keys :=
      Multiset.map_map _ _ _
    rw [← Multiset.nodup_keys, hkeys]
    exact Multiset.nodup_keys.2 m.nodupKeys

theorem lookup_mapValues [DecidableEq K] {W : Type} (m : Table K V) (f : K → V → W) (x : K) :
    (m.mapValues f).lookup x = (m.lookup x).map (f x) := by
  ext w
  rw [Option.map_eq_some_iff, ← mem_entries (m.mapValues f)]
  simp only [mapValues, Multiset.mem_map, Sigma.mk.injEq]
  constructor
  · rintro ⟨⟨k, v⟩, he, rfl, hw⟩
    exact ⟨v, (mem_entries m k v).1 he, eq_of_heq hw⟩
  · rintro ⟨v, hl, rfl⟩
    exact ⟨⟨x, v⟩, (mem_entries m x v).2 hl, rfl, HEq.rfl⟩

/-! ## Traversals -/

/-- Is there an entry the test accepts? -/
def any (m : Table K V) (p : K → V → Bool) : Bool :=
  decide (0 < m.entries.countP fun e => p e.1 e.2)

theorem any_iff [DecidableEq K] (m : Table K V) (p : K → V → Bool) :
    m.any p = true ↔ ∃ k v, m.lookup k = some v ∧ p k v = true := by
  rw [any, decide_eq_true_iff, Multiset.countP_pos]
  constructor
  · rintro ⟨⟨k, v⟩, he, hp⟩
    exact ⟨k, v, (mem_entries m k v).1 he, hp⟩
  · rintro ⟨k, v, hl, hp⟩
    exact ⟨⟨k, v⟩, (mem_entries m k v).2 hl, hp⟩

theorem any_eq_false_iff [DecidableEq K] (m : Table K V) (p : K → V → Bool) :
    m.any p = false ↔ ∀ k v, m.lookup k = some v → p k v = false := by
  rw [← Bool.not_eq_true, any_iff]
  simp

/-- What a traversal reads off the entries that pass a test, in no promised order. -/
def collect {α : Type} (m : Table K V) (p : K → V → Bool) (f : K → V → α) : Multiset α :=
  (m.entries.filter fun e => p e.1 e.2).map fun e => f e.1 e.2

theorem mem_collect [DecidableEq K] {α : Type} (m : Table K V) (p : K → V → Bool)
    (f : K → V → α) (x : α) :
    x ∈ m.collect p f ↔ ∃ k v, m.lookup k = some v ∧ p k v = true ∧ f k v = x := by
  simp only [collect, Multiset.mem_map, Multiset.mem_filter]
  constructor
  · rintro ⟨⟨k, v⟩, ⟨he, hp⟩, rfl⟩
    exact ⟨k, v, (mem_entries m k v).1 he, hp, rfl⟩
  · rintro ⟨k, v, hl, hp, rfl⟩
    exact ⟨⟨k, v⟩, ⟨(mem_entries m k v).2 hl, hp⟩, rfl⟩

/-- A traversal that reads off the keys reads each of them once. -/
theorem nodup_collect_key (m : Table K V) (p : K → V → Bool) :
    (m.collect p fun k _ => k).Nodup := by
  have hle : (m.entries.filter fun e => p e.1 e.2) ≤ m.entries := Multiset.filter_le _ _
  have hkeys : (m.collect p fun k _ => k) ≤ m.entries.keys := Multiset.map_le_map hle
  exact Multiset.nodup_of_le hkeys (Multiset.nodup_keys.2 m.nodupKeys)

/-- What a traversal reads off a table with an entry put into it: the entry's part, and the
rest. -/
theorem collect_insert [DecidableEq K] {α : Type} (m : Table K V) (k : K) (v : V)
    (p : K → V → Bool) (f : K → V → α) :
    collect (m.insert k v) p f =
      (if p k v then {f k v} else 0) + collect (m.erase k) p f := by
  have heq : m.insert k v = (m.erase k).insert k v := by
    refine Finmap.ext_lookup fun x => ?_
    rw [lookup_insert_if, lookup_insert_if, lookup_erase_if]
    split <;> rfl
  rw [collect, heq, Finmap.entries_insert_of_notMem Finmap.notMem_erase_self, Multiset.filter_cons,
    Multiset.map_add, collect]
  split <;> rfl

/-- The same for an entry that is in the table. -/
theorem collect_of_lookup [DecidableEq K] {α : Type} {m : Table K V} {k : K} {v : V}
    (hl : m.lookup k = some v) (p : K → V → Bool) (f : K → V → α) :
    m.collect p f = (if p k v then {f k v} else 0) + collect (m.erase k) p f := by
  rw [← collect_insert m k v, insert_of_lookup hl]

/-! ## Size -/

/-- The number of entries. -/
def len (m : Table K V) : Nat := m.entries.card

theorem len_eq_card_keys (m : Table K V) : m.len = m.keys.card :=
  (Multiset.card_map Sigma.fst m.entries).symm

/-- A table with fewer keys has fewer entries. -/
theorem len_mono {V' : Type} {m : Table K V} {m' : Table K V'} (h : ∀ x, x ∈ m → x ∈ m') :
    m.len ≤ m'.len := by
  rw [len_eq_card_keys, len_eq_card_keys]
  exact Finset.card_le_card fun x hx => Finmap.mem_keys.2 (h x (Finmap.mem_keys.1 hx))

theorem len_insert_le [DecidableEq K] (m : Table K V) (k : K) (v : V) :
    len (m.insert k v) ≤ m.len + 1 := by
  rw [len_eq_card_keys, len_eq_card_keys]
  refine (Finset.card_le_card fun x hx => ?_).trans (Finset.card_insert_le k m.keys)
  rw [Finmap.mem_keys, Finmap.mem_insert] at hx
  rw [Finset.mem_insert, Finmap.mem_keys]
  exact hx

end Table

/-! ## Iteration order -/

/-- The order one traversal of a hash table or set happens to take.  Nothing is
promised about it beyond visiting every element once. -/
structure HashOrder (α : Type) where
  /-- The elements in the order they were visited. -/
  toList : Multiset α → List α
  /-- Each is visited exactly once. -/
  coe_toList : ∀ m, (toList m : Multiset α) = m

namespace HashOrder

variable {α : Type} (o : HashOrder α)

@[simp] theorem mem_toList (m : Multiset α) (x : α) : x ∈ o.toList m ↔ x ∈ m := by
  rw [← Multiset.mem_coe, o.coe_toList]

theorem nodup_toList {m : Multiset α} : (o.toList m).Nodup ↔ m.Nodup := by
  rw [← Multiset.coe_nodup, o.coe_toList]

/-- The order of a traversal that happens to go by increasing key. -/
def byKey {β : Type} [LinearOrder β] (key : α → β) (hkey : Function.Injective key) :
    HashOrder α where
  toList m := Quot.liftOn m (List.insertionSort fun x y => key x ≤ key y) fun l l' h => by
    let r : α → α → Prop := fun x y => key x ≤ key y
    have : Std.Total r := ⟨fun x y => le_total (key x) (key y)⟩
    have : IsTrans α r := ⟨fun x y z => le_trans⟩
    have : Std.Antisymm r := ⟨fun x y h h' => hkey (le_antisymm h h')⟩
    have hperm := ((List.perm_insertionSort r l).trans h).trans (List.perm_insertionSort r l').symm
    exact hperm.eq_of_pairwise' (List.pairwise_insertionSort r l) (List.pairwise_insertionSort r l')
  coe_toList m := Quotient.inductionOn m fun l => Quot.sound (List.perm_insertionSort _ l)

end HashOrder

end TcVoice
