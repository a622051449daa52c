import Mathlib.Data.Set.Insert
import Mathlib.Logic.Function.Basic

/-!
# Who is in the room

Parties enter rooms, leave them and change their names, and each keeps a list of
the names of those in the room with it.  A party that changes something has news
to tell afterwards, and the news is told later, to whoever is in the room by then.

* `News` — what is told, whom it reaches, and what it does to a list.
* `Presence`, `Step` — the parties, and what can happen between them.
* `Converging` — the invariant: a list that lacks a name has news coming that puts
  it in, and a list with a name too many has news coming that takes it out.
* `Converging.step` — **every step keeps it**, as long as nobody takes a name that
  is in use or still to be told of.
* `Converging.view_eq` — **with no news left to tell, every list is right**.
-/

namespace TcVoice

variable {P R N : Type}

/-! ## News -/

/-- What a party has to tell. -/
inductive News (R N : Type) where
  /-- To the others in the room: I am here. -/
  | joined (r : R) (n : N)
  /-- To those in the room: I am gone. -/
  | left (r : R) (n : N)
  /-- To the others in the room: I have a new name. -/
  | renamed (r : R) (o n : N)
  /-- To itself: I have a new name. -/
  | called (o n : N)
  deriving DecidableEq, Repr

namespace News

/-- Does news of party `a` reach party `c`, who is in the room `room`? -/
def Reaches (a c : P) (room : Option R) : News R N → Prop
  | joined r _ => room = some r ∧ c ≠ a
  | left r _ => room = some r
  | renamed r _ _ => room = some r ∧ c ≠ a
  | called _ _ => c = a

/-- What the one who hears it does to its list. -/
def edit (S : Set N) : News R N → Set N
  | joined _ n => insert n S
  | left _ n => S \ {n}
  | renamed _ o n => {y | (y ∈ S ∧ y ≠ o) ∨ (y = n ∧ o ∈ S)}
  | called o n => {y | (y ∈ S ∧ y ≠ o) ∨ (y = n ∧ o ∈ S)}

/-- The names in it. -/
def Mentions (y : N) : News R N → Prop
  | joined _ n => y = n
  | left _ n => y = n
  | renamed _ o n => y = o ∨ y = n
  | called o n => y = o ∨ y = n

/-- The names it takes off a list. -/
def Removes (y : N) : News R N → Prop
  | joined _ _ => False
  | left _ n => y = n
  | renamed _ o n => y = o ∧ o ≠ n
  | called o n => y = o ∧ o ≠ n

variable {x : News R N} {S T : Set N} {y : N} {a c : P} {room : Option R}

theorem Removes.mentions (h : x.Removes y) : x.Mentions y := by
  cases x with
  | joined => exact h.elim
  | left => exact h
  | renamed | called => exact .inl h.1

/-- A name stays on the list unless the news removes it. -/
theorem mem_edit_of_mem (h : y ∈ S) (hx : ¬ x.Removes y) : y ∈ x.edit S := by
  cases x with
  | joined => exact .inr h
  | left r n => exact ⟨h, hx⟩
  | renamed r o n | called o n =>
    by_cases hy : y = o
    · have hn : o = n := by
        by_contra hne
        exact hx ⟨hy, hne⟩
      exact .inr ⟨hy.trans hn, hy ▸ h⟩
    · exact .inl ⟨h, hy⟩

theorem notMem_edit_of_removes (hx : x.Removes y) : y ∉ x.edit S := by
  cases x with
  | joined => exact hx.elim
  | left r n => exact fun h => h.2 hx
  | renamed r o n | called o n =>
    obtain ⟨rfl, hne⟩ := hx
    rintro (h | h)
    · exact h.2 rfl
    · exact hne h.1

end News

/-! ## Parties -/

/-- The parties: where each of them is, its name, what it has still to tell, and the
names on its list, if it keeps one. -/
structure Presence (P R N : Type) where
  room : P → Option R
  name : P → Option N
  news : P → List (News R N)
  view : P → Option (Set N)

namespace Presence

/-- The names of those in a room. -/
def namesIn (p : Presence P R N) (r : R) : Set N :=
  {n | ∃ d, p.room d = some r ∧ p.name d = some n}

/-- A name that is a party's own or in the news it has still to tell. -/
def Uses (p : Presence P R N) (a : P) (n : N) : Prop :=
  p.name a = some n ∨ ∃ x ∈ p.news a, x.Mentions n

/-- A name that nobody else uses. -/
def Free (p : Presence P R N) (a : P) (n : N) : Prop := ∀ b, b ≠ a → ¬ p.Uses b n

/-- Everybody but `a` is as before. -/
structure Only (a : P) (p q : Presence P R N) : Prop where
  room : ∀ d, d ≠ a → q.room d = p.room d
  name : ∀ d, d ≠ a → q.name d = p.name d
  news : ∀ d, d ≠ a → q.news d = p.news d
  view : ∀ d, d ≠ a → q.view d = p.view d

/-- What can happen between the parties.  The list of a party in no room is nobody's
concern. -/
inductive Step (p q : Presence P R N) : Prop
  /-- Nothing changes, but that parties may keep their lists no longer. -/
  | quiet (room : q.room = p.room) (name : q.name = p.name) (news : q.news = p.news)
      (view : ∀ c r, p.room c = some r → q.view c = p.view c ∨ q.view c = none)
  /-- A party in no room comes, with a name nobody uses, or goes. -/
  | call {a : P} (only : Only a p q) (hout : p.room a = none) (hidle : p.news a = [])
      (room : q.room a = none) (news : q.news a = [])
      (hfree : ∀ n, q.name a = some n → p.Free a n)
  /-- A party enters a room; the list it gets there, if any, has everybody on it. -/
  | enter {a : P} {r : R} {n : N} (only : Only a p q) (hout : p.room a = none)
      (hname : p.name a = some n) (hidle : p.news a = []) (room : q.room a = some r)
      (name : q.name a = some n) (news : q.news a = [.joined r n])
      (view : ∀ S, q.view a = some S → S = q.namesIn r)
  /-- A party leaves its room, with its name or for good. -/
  | depart {a : P} {r : R} {n : N} (only : Only a p q) (hin : p.room a = some r)
      (hname : p.name a = some n) (hidle : p.news a = []) (room : q.room a = none)
      (name : q.name a = some n ∨ q.name a = none) (news : q.news a = [.left r n])
  /-- A party takes a new name, which nobody else uses. -/
  | rename {a : P} {o n : N} (only : Only a p q) (hname : p.name a = some o)
      (hidle : p.news a = []) (hfree : p.Free a n) (room : q.room a = p.room a)
      (name : q.name a = some n) (view : q.view a = p.view a)
      (news : q.news a = .called o n :: ((p.room a).map fun r => News.renamed r o n).toList)
  /-- A party tells the first of its news. -/
  | tell {a : P} {x : News R N} (room : q.room = p.room) (name : q.name = p.name)
      (hnews : p.news a = x :: q.news a) (news : ∀ d, d ≠ a → q.news d = p.news d)
      (view : ∀ c r, p.room c = some r → q.view c = p.view c ∧ ¬ x.Reaches a c (some r) ∨
        q.view c = (p.view c).map x.edit ∧ x.Reaches a c (some r))

/-! ## The invariant -/

/-- News agrees with where its teller is and what it is called. -/
def Fits (p : Presence P R N) (a : P) : News R N → Prop
  | .joined r n => p.room a = some r ∧ p.name a = some n
  | .left _ _ => p.room a = none
  | .renamed r _ n => p.room a = some r ∧ p.name a = some n
  | .called _ n => p.name a = some n

/-- No party has two pieces of news for the same one. -/
def Spread (a : P) (news : List (News R N)) : Prop :=
  news.Pairwise fun x y => ∀ c room, x.Reaches a c room → ¬ y.Reaches a c room

/-- The lists are right but for the news there is still to tell. -/
structure Converging (p : Presence P R N) : Prop where
  named : ∀ a r, p.room a = some r → ∃ n, p.name a = some n
  fits : ∀ a, ∀ x ∈ p.news a, p.Fits a x
  spread : ∀ a, Spread a (p.news a)
  apart : ∀ a b n, a ≠ b → p.Uses a n → ¬ p.Uses b n
  /-- A name missing from a list is to be put there. -/
  complete : ∀ c r S, p.room c = some r → p.view c = some S → ∀ d n, p.room d = some r →
    p.name d = some n → n ∈ S ∨ ∃ x ∈ p.news d, x.Reaches d c (p.room c) ∧ n ∈ x.edit S
  /-- A name too many on a list is to be taken from it. -/
  sound : ∀ c r S, p.room c = some r → p.view c = some S → ∀ n ∈ S,
    n ∈ p.namesIn r ∨ ∃ d, ∃ x ∈ p.news d, x.Reaches d c (p.room c) ∧ x.Removes n

section Invariant

variable {p q : Presence P R N} {a b c d : P} {r : R} {n o : N} {S : Set N} {x : News R N}

/-- **With no news left to tell, every list is right.** -/
theorem Converging.view_eq (h : p.Converging) (hquiet : ∀ a, p.news a = [])
    (hc : p.room c = some r) (hS : p.view c = some S) : S = p.namesIn r := by
  ext n
  constructor
  · intro hn
    rcases h.sound c r S hc hS n hn with hin | ⟨d, x, hx, -⟩
    · exact hin
    · rw [hquiet d] at hx
      exact absurd hx List.not_mem_nil
  · rintro ⟨d, hd, hname⟩
    rcases h.complete c r S hc hS d n hd hname with hin | ⟨x, hx, -⟩
    · exact hin
    · rw [hquiet d] at hx
      exact absurd hx List.not_mem_nil

/-! ## One lemma for each step -/

/-- Where every name in use was in use before, names stay apart. -/
theorem apart_mono (h : ∀ a b n, a ≠ b → p.Uses a n → ¬ p.Uses b n)
    (huses : ∀ b n, q.Uses b n → p.Uses b n) : ∀ a b n, a ≠ b → q.Uses a n → ¬ q.Uses b n :=
  fun a b n hab ha hb => h a b n hab (huses a n ha) (huses b n hb)

/-- A free name can be taken. -/
theorem apart_take (h : ∀ a b n, a ≠ b → p.Uses a n → ¬ p.Uses b n)
    (huses : ∀ b m, q.Uses b m → p.Uses b m ∨ b = a ∧ p.Free a m) :
    ∀ a b m, a ≠ b → q.Uses a m → ¬ q.Uses b m := by
  intro b c m hbc hb hc
  rcases huses b m hb with hb | ⟨rfl, hfree⟩ <;> rcases huses c m hc with hc | ⟨hca, hfree'⟩
  · exact h b c m hbc hb hc
  · exact hfree' b (hca ▸ hbc) hb
  · exact hfree c hbc.symm hc
  · exact hbc hca.symm

theorem fits_congr (hroom : q.room a = p.room a) (hname : q.name a = p.name a) :
    q.Fits a x ↔ p.Fits a x := by
  cases x <;> simp only [Fits, hroom, hname]

theorem Only.uses (h : Only a p q) (hb : b ≠ a) : q.Uses b n ↔ p.Uses b n := by
  rw [Uses, h.name b hb, h.news b hb, Uses]

/-- What one party does leaves the others' names and news as they should be. -/
theorem Only.fits (h : Only a p q) (hp : p.Converging)
    (ha : ∀ x ∈ q.news a, q.Fits a x) : ∀ d, ∀ x ∈ q.news d, q.Fits d x := by
  intro d x hx
  by_cases hd : d = a
  · subst hd
    exact ha x hx
  · rw [fits_congr (h.room d hd) (h.name d hd)]
    exact hp.fits d x (h.news d hd ▸ hx)

theorem Only.named (h : Only a p q) (hp : p.Converging)
    (ha : ∀ r, q.room a = some r → ∃ n, q.name a = some n) :
    ∀ d r, q.room d = some r → ∃ n, q.name d = some n := by
  intro d r hd
  by_cases hda : d = a
  · subst hda
    exact ha r hd
  · rw [h.name d hda]
    exact hp.named d r ((h.room d hda).symm.trans hd)

theorem Only.spread (h : Only a p q) (hp : p.Converging) (ha : Spread a (q.news a)) :
    ∀ d, Spread d (q.news d) := by
  intro d
  by_cases hda : d = a
  · subst hda
    exact ha
  · rw [h.news d hda]
    exact hp.spread d

/-- The news of an idle party is somebody else's. -/
theorem ne_of_mem_news (hidle : p.news a = []) (hx : x ∈ p.news d) : d ≠ a := by
  rintro rfl
  rw [hidle] at hx
  exact absurd hx List.not_mem_nil

/-- Another party's list is complete as far as it was: only `a` may be missing from it. -/
theorem Only.complete (h : Only a p q) (hp : p.Converging) (hc : c ≠ a)
    (ha : ∀ n, p.room c = some r → p.view c = some S → q.room a = some r → q.name a = some n →
      n ∈ S ∨ ∃ x ∈ q.news a, x.Reaches a c (q.room c) ∧ n ∈ x.edit S)
    (hr : q.room c = some r) (hS : q.view c = some S) (hd : q.room d = some r)
    (hn : q.name d = some n) :
    n ∈ S ∨ ∃ x ∈ q.news d, x.Reaches d c (q.room c) ∧ n ∈ x.edit S := by
  have hr' := (h.room c hc).symm.trans hr
  have hS' := (h.view c hc).symm.trans hS
  by_cases hda : d = a
  · subst hda
    exact ha n hr' hS' hd hn
  · rw [h.room c hc, h.news d hda]
    exact hp.complete c r S hr' hS' d n ((h.room d hda).symm.trans hd)
      ((h.name d hda).symm.trans hn)

/-- Another party's list is sound as far as it was: only `a` may be one too many on it. -/
theorem Only.sound (h : Only a p q) (hp : p.Converging) (hc : c ≠ a) (hidle : p.news a = [])
    (ha : ∀ n, n ∈ S → p.room a = some r → p.name a = some n →
      n ∈ q.namesIn r ∨ ∃ x ∈ q.news a, x.Reaches a c (q.room c) ∧ x.Removes n)
    (hr : q.room c = some r) (hS : q.view c = some S) (hn : n ∈ S) :
    n ∈ q.namesIn r ∨ ∃ d, ∃ x ∈ q.news d, x.Reaches d c (q.room c) ∧ x.Removes n := by
  have hr' := (h.room c hc).symm.trans hr
  have hS' := (h.view c hc).symm.trans hS
  rcases hp.sound c r S hr' hS' n hn with ⟨d, hd, hm⟩ | ⟨d, x, hx, hrx, hrem⟩
  · by_cases hda : d = a
    · subst hda
      exact (ha n hn hd hm).imp_right fun hx => ⟨d, hx⟩
    · exact .inl ⟨d, (h.room d hda).trans hd, (h.name d hda).trans hm⟩
  · have hda := ne_of_mem_news hidle hx
    exact .inr ⟨d, x, (h.news d hda).symm ▸ hx, (h.room c hc).symm ▸ hrx, hrem⟩

theorem Converging.quiet (h : p.Converging) (room : q.room = p.room) (name : q.name = p.name)
    (news : q.news = p.news)
    (view : ∀ c r, p.room c = some r → q.view c = p.view c ∨ q.view c = none) :
    q.Converging := by
  have hview : ∀ c r S, q.room c = some r → q.view c = some S → p.view c = some S := by
    intro c r S hr hS
    rcases view c r (room ▸ hr) with hv | hv
    · exact hv.symm.trans hS
    · rw [hv] at hS
      exact absurd hS (by simp)
  refine ⟨?_, fun a x hx => ?_, ?_, ?_, fun c r S hr hS => ?_, fun c r S hr hS => ?_⟩
  · rw [room, name]
    exact h.named
  · rw [fits_congr (congrFun room a) (congrFun name a)]
    exact h.fits a x (news ▸ hx)
  · rw [news]
    exact h.spread
  · refine apart_mono h.apart fun b n hb => ?_
    rwa [Uses, name, news] at hb
  · have hc := h.complete c r S (room ▸ hr) (hview c r S hr hS)
    rwa [room, name, news]
  · have hc := h.sound c r S (room ▸ hr) (hview c r S hr hS)
    rwa [namesIn, room, name, news]

theorem Converging.call (h : p.Converging) (only : Only a p q) (hout : p.room a = none)
    (hidle : p.news a = []) (room : q.room a = none) (news : q.news a = [])
    (hfree : ∀ n, q.name a = some n → p.Free a n) : q.Converging := by
  have hne : ∀ {c r}, q.room c = some r → c ≠ a := by
    rintro c r hc rfl
    rw [room] at hc
    exact absurd hc (by simp)
  refine ⟨only.named h (by simp [room]), only.fits h (by simp [news]),
    only.spread h (by simp [news, Spread]), apart_take (a := a) h.apart fun b n hb => ?_,
    fun c r S hr hS d n hd hn => ?_, fun c r S hr hS n hn => ?_⟩
  · by_cases hba : b = a
    · subst hba
      rcases hb with hb | ⟨x, hx, -⟩
      · exact .inr ⟨rfl, hfree n hb⟩
      · rw [news] at hx
        exact absurd hx List.not_mem_nil
    · exact .inl ((only.uses hba).1 hb)
  · exact only.complete h (hne hr) (by simp [room]) hr hS hd hn
  · exact only.sound h (hne hr) hidle (by simp [hout]) hr hS hn

theorem Converging.enter (h : p.Converging) (only : Only a p q) (hout : p.room a = none)
    (hname : p.name a = some n) (hidle : p.news a = []) (room : q.room a = some r)
    (name : q.name a = some n) (news : q.news a = [.joined r n])
    (view : ∀ S, q.view a = some S → S = q.namesIn r) : q.Converging := by
  refine ⟨only.named h fun _ _ => ⟨n, name⟩, only.fits h ?_, only.spread h ?_,
    apart_mono h.apart fun b m hb => ?_, fun c r' S hr hS d m hd hm => ?_,
    fun c r' S hr hS m hm => ?_⟩
  · rw [news]
    intro x hx
    obtain rfl := List.mem_singleton.1 hx
    exact ⟨room, name⟩
  · rw [news]
    exact List.pairwise_singleton _ _
  · by_cases hba : b = a
    · subst hba
      rcases hb with hb | ⟨x, hx, hm⟩
      · exact .inl (hname.trans (name.symm.trans hb))
      · rw [news] at hx
        obtain rfl := List.mem_singleton.1 hx
        exact .inl (hname.trans (congrArg some hm.symm))
    · exact (only.uses hba).1 hb
  · by_cases hca : c = a
    · subst hca
      obtain rfl := Option.some.inj (room.symm.trans hr)
      obtain rfl := view S hS
      exact .inl ⟨d, hd, hm⟩
    · refine only.complete h hca (fun m' _ _ hra hma => ?_) hr hS hd hm
      obtain rfl := Option.some.inj (room.symm.trans hra)
      obtain rfl := Option.some.inj (name.symm.trans hma)
      exact .inr ⟨.joined r n, news ▸ List.mem_singleton_self _, ⟨hr, hca⟩, .inl rfl⟩
  · by_cases hca : c = a
    · subst hca
      obtain rfl := Option.some.inj (room.symm.trans hr)
      obtain rfl := view S hS
      exact .inl hm
    · exact only.sound h hca hidle (by simp [hout]) hr hS hm

theorem Converging.depart (h : p.Converging) (only : Only a p q) (hin : p.room a = some r)
    (hname : p.name a = some n) (hidle : p.news a = []) (room : q.room a = none)
    (name : q.name a = some n ∨ q.name a = none) (news : q.news a = [.left r n]) :
    q.Converging := by
  have hne : ∀ {c r}, q.room c = some r → c ≠ a := by
    rintro c r hc rfl
    rw [room] at hc
    exact absurd hc (by simp)
  refine ⟨only.named h (by simp [room]), only.fits h ?_, only.spread h ?_,
    apart_mono h.apart fun b m hb => ?_, fun c r' S hr hS d m hd hm => ?_,
    fun c r' S hr hS m hm => ?_⟩
  · rw [news]
    intro x hx
    obtain rfl := List.mem_singleton.1 hx
    exact room
  · rw [news]
    exact List.pairwise_singleton _ _
  · by_cases hba : b = a
    · subst hba
      rcases hb with hb | ⟨x, hx, hm⟩
      · rcases name with hn | hn
        · exact .inl (hname.trans (hn.symm.trans hb))
        · rw [hn] at hb
          exact absurd hb (by simp)
      · rw [news] at hx
        obtain rfl := List.mem_singleton.1 hx
        exact .inl (hname.trans (congrArg some hm.symm))
    · exact (only.uses hba).1 hb
  · exact only.complete h (hne hr) (by simp [room]) hr hS hd hm
  · refine only.sound h (hne hr) hidle (fun m' _ hra hma => ?_) hr hS hm
    obtain rfl := Option.some.inj (hin.symm.trans hra)
    obtain rfl := Option.some.inj (hname.symm.trans hma)
    exact .inr ⟨.left r n, news ▸ List.mem_singleton_self _, hr, rfl⟩

/-- `a`, who was called `o`, takes the name `n`. -/
structure Renamed (a : P) (o n : N) (p q : Presence P R N) : Prop where
  only : Only a p q
  was : p.name a = some o
  idle : p.news a = []
  free : p.Free a n
  room : q.room a = p.room a
  name : q.name a = some n
  view : q.view a = p.view a
  news : q.news a = .called o n :: ((p.room a).map fun r => News.renamed r o n).toList

namespace Renamed

variable {m : N}

theorem room_eq (h : Renamed a o n p q) (d : P) : q.room d = p.room d := by
  by_cases hda : d = a
  · rw [hda, h.room]
  · exact h.only.room d hda

theorem view_eq (h : Renamed a o n p q) (d : P) : q.view d = p.view d := by
  by_cases hda : d = a
  · rw [hda, h.view]
  · exact h.only.view d hda

theorem mem_news (h : Renamed a o n p q) (hx : x ∈ q.news a) :
    x = .called o n ∨ ∃ r, p.room a = some r ∧ x = .renamed r o n := by
  rw [h.news] at hx
  rcases List.mem_cons.1 hx with rfl | hx
  · exact .inl rfl
  · obtain ⟨r, hr, rfl⟩ := Option.map_eq_some_iff.1 (Option.mem_toList.1 hx)
    exact .inr ⟨r, hr, rfl⟩

/-- Whoever is in the room with `a`, itself included, is told of the new name. -/
theorem told (h : Renamed a o n p q) (ha : q.room a = some r) (hc : q.room c = some r) :
    ∃ x ∈ q.news a, x.Reaches a c (q.room c) ∧
      (∀ S : Set N, o ∈ S → n ∈ x.edit S) ∧ (o ≠ n → x.Removes o) := by
  by_cases hca : c = a
  · refine ⟨.called o n, ?_, hca, fun S ho => .inr ⟨rfl, ho⟩, fun hne => ⟨rfl, hne⟩⟩
    rw [h.news]
    exact List.mem_cons_self
  · refine ⟨.renamed r o n, ?_, ⟨hc, hca⟩, fun S ho => .inr ⟨rfl, ho⟩, fun hne => ⟨rfl, hne⟩⟩
    rw [h.news, ← h.room, ha]
    exact List.mem_cons_of_mem _ (List.mem_singleton_self _)

theorem spread (h : Renamed a o n p q) : Spread a (q.news a) := by
  rw [h.news]
  cases p.room a with
  | none => exact List.pairwise_singleton _ _
  | some r =>
    refine List.pairwise_pair.2 fun c room hc => ?_
    exact fun hr => hr.2 hc

theorem uses (h : Renamed a o n p q) {b : P} (hb : q.Uses b m) :
    p.Uses b m ∨ b = a ∧ p.Free a m := by
  by_cases hba : b = a
  · subst hba
    have hm : m = o ∨ m = n := by
      rcases hb with hb | ⟨x, hx, hm⟩
      · exact .inr (Option.some.inj (hb.symm.trans h.name))
      · rcases h.mem_news hx with rfl | ⟨r, -, rfl⟩ <;> exact hm
    rcases hm with rfl | rfl
    · exact .inl (.inl h.was)
    · exact .inr ⟨rfl, h.free⟩
  · exact .inl ((h.only.uses hba).1 hb)

theorem complete (h : Renamed a o n p q) (hp : p.Converging) (hr : q.room c = some r)
    (hS : q.view c = some S) (hd : q.room d = some r) (hm : q.name d = some m) :
    m ∈ S ∨ ∃ x ∈ q.news d, x.Reaches d c (q.room c) ∧ m ∈ x.edit S := by
  have hlist := hp.complete c r S ((h.room_eq c).symm.trans hr) ((h.view_eq c).symm.trans hS) d
  by_cases hda : d = a
  · subst hda
    obtain rfl := Option.some.inj (h.name.symm.trans hm)
    obtain ⟨x, hx, hreach, hin, -⟩ := h.told hd hr
    have ho := hlist o ((h.room_eq d).symm.trans hd) h.was
    rw [h.idle] at ho
    exact .inr ⟨x, hx, hreach, hin S (ho.resolve_right (by simp))⟩
  · have hc := hlist m ((h.room_eq d).symm.trans hd) ((h.only.name d hda).symm.trans hm)
    rwa [h.room_eq c, h.only.news d hda]

theorem sound (h : Renamed a o n p q) (hp : p.Converging) (hr : q.room c = some r)
    (hS : q.view c = some S) (hm : m ∈ S) :
    m ∈ q.namesIn r ∨ ∃ d, ∃ x ∈ q.news d, x.Reaches d c (q.room c) ∧ x.Removes m := by
  rcases hp.sound c r S ((h.room_eq c).symm.trans hr) ((h.view_eq c).symm.trans hS) m hm with
    ⟨d, hd, hmd⟩ | ⟨d, x, hx, hreach, hrem⟩
  · by_cases hda : d = a
    · subst hda
      obtain rfl := Option.some.inj (h.was.symm.trans hmd)
      by_cases hon : o = n
      · exact .inl ⟨d, (h.room_eq d).trans hd, h.name.trans (congrArg some hon.symm)⟩
      · obtain ⟨x, hx, hreach, -, hrem⟩ := h.told ((h.room_eq d).trans hd) hr
        exact .inr ⟨d, x, hx, hreach, hrem hon⟩
    · exact .inl ⟨d, (h.room_eq d).trans hd, (h.only.name d hda).trans hmd⟩
  · have hda := ne_of_mem_news h.idle hx
    exact .inr ⟨d, x, (h.only.news d hda).symm ▸ hx, (h.room_eq c).symm ▸ hreach, hrem⟩

end Renamed

theorem Converging.rename (h : p.Converging) (renamed : Renamed a o n p q) : q.Converging := by
  refine ⟨renamed.only.named h fun _ _ => ⟨n, renamed.name⟩, renamed.only.fits h fun x hx => ?_,
    renamed.only.spread h renamed.spread, apart_take h.apart fun b m => renamed.uses,
    fun c r S hr hS d m => renamed.complete h hr hS, fun c r S hr hS m => renamed.sound h hr hS⟩
  rcases renamed.mem_news hx with rfl | ⟨r, hr, rfl⟩
  · exact renamed.name
  · exact ⟨renamed.room.trans hr, renamed.name⟩

/-- The news of a member does not take its name off a list. -/
theorem Fits.not_removes (hfit : p.Fits a x) (hr : p.room a = some r) (hname : p.name a = some n) :
    ¬ x.Removes n := by
  intro hrem
  cases x with
  | joined => exact hrem
  | left =>
    rw [Fits, hr] at hfit
    cases hfit
  | renamed r' o k =>
    obtain rfl := Option.some.inj (hname.symm.trans hfit.2)
    exact hrem.2 hrem.1.symm
  | called o k =>
    obtain rfl := Option.some.inj (hname.symm.trans hfit)
    exact hrem.2 hrem.1.symm

/-- A name that news has put on a list is its teller's. -/
theorem Fits.mem_namesIn (hfit : p.Fits a x) (hr : p.room c = some r)
    (hreach : x.Reaches a c (some r)) (hm : n ∈ x.edit S) (hnew : n ∉ S) : n ∈ p.namesIn r := by
  cases x with
  | joined r' k =>
    obtain rfl := Option.some.inj hreach.1
    obtain rfl := hm.resolve_right hnew
    exact ⟨a, hfit⟩
  | left => exact absurd hm.1 hnew
  | renamed r' o k =>
    obtain rfl := Option.some.inj hreach.1
    obtain ⟨rfl, -⟩ := hm.resolve_left fun hc => hnew hc.1
    exact ⟨a, hfit⟩
  | called o k =>
    obtain rfl := hreach
    obtain ⟨rfl, -⟩ := hm.resolve_left fun hc => hnew hc.1
    exact ⟨c, hr, hfit⟩

/-- `a` tells `x`, the first of its news. -/
structure Told (a : P) (x : News R N) (p q : Presence P R N) : Prop where
  room : q.room = p.room
  name : q.name = p.name
  first : p.news a = x :: q.news a
  news : ∀ d, d ≠ a → q.news d = p.news d
  view : ∀ c r, p.room c = some r → q.view c = p.view c ∧ ¬ x.Reaches a c (some r) ∨
    q.view c = (p.view c).map x.edit ∧ x.Reaches a c (some r)

namespace Told

variable {y : News R N}

theorem mem (h : Told a x p q) : x ∈ p.news a := h.first ▸ List.mem_cons_self

theorem mem_of_mem (h : Told a x p q) (hy : y ∈ q.news d) : y ∈ p.news d := by
  by_cases hda : d = a
  · subst hda
    exact h.first ▸ List.mem_cons_of_mem _ hy
  · exact h.news d hda ▸ hy

/-- There is nothing else that is not still to tell. -/
theorem cases_of_mem (h : Told a x p q) (hy : y ∈ p.news d) : d = a ∧ y = x ∨ y ∈ q.news d := by
  by_cases hda : d = a
  · subst hda
    rw [h.first] at hy
    exact (List.mem_cons.1 hy).imp_left fun hyx => ⟨rfl, hyx⟩
  · exact .inr ((h.news d hda).symm ▸ hy)

theorem uses (h : Told a x p q) (hb : q.Uses b n) : p.Uses b n := by
  rcases hb with hb | ⟨y, hy, hm⟩
  · exact .inl (h.name ▸ hb)
  · exact .inr ⟨y, h.mem_of_mem hy, hm⟩

theorem spread (h : Told a x p q) (hp : p.Converging) (d : P) : Spread d (q.news d) := by
  have hs := hp.spread d
  by_cases hda : d = a
  · subst hda
    rw [h.first] at hs
    exact (List.pairwise_cons.1 hs).2
  · rwa [h.news d hda]

/-- Whom the news reaches, nothing else that is still to tell does. -/
theorem not_reaches (h : Told a x p q) (hp : p.Converging) (hreach : x.Reaches a c (some r))
    (hy : y ∈ q.news a) : ¬ y.Reaches a c (some r) := by
  have hs := hp.spread a
  rw [h.first] at hs
  exact (List.pairwise_cons.1 hs).1 y hy c _ hreach

/-- The names in the news are the teller's. -/
theorem eq_of_mentions (h : Told a x p q) (hp : p.Converging) (hm : x.Mentions n)
    (hd : p.Uses d n) : d = a := by
  by_contra hda
  exact hp.apart d a n hda hd (.inr ⟨x, h.mem, hm⟩)

/-- A member's name is not taken off a list. -/
theorem not_removes (h : Told a x p q) (hp : p.Converging) (hd : p.room d = some r)
    (hn : p.name d = some n) : ¬ x.Removes n := by
  intro hrem
  obtain rfl := h.eq_of_mentions hp hrem.mentions (.inl hn)
  exact (hp.fits d x h.mem).not_removes hd hn hrem

/-- What other news has still to put on a list, the news just told has not undone. -/
theorem mem_edit_edit (h : Told a x p q) (hp : p.Converging) (hreach : x.Reaches a c (some r))
    (hy : y ∈ q.news d) (hry : y.Reaches d c (some r)) (hin : n ∈ y.edit S) (hn : n ∉ S) :
    n ∈ y.edit (x.edit S) := by
  have hkept : ∀ k, y.Mentions k → ¬ x.Removes k := by
    intro k hk hrem
    obtain rfl := h.eq_of_mentions hp hrem.mentions (.inr ⟨y, h.mem_of_mem hy, hk⟩)
    exact h.not_reaches hp hreach hy hry
  cases y with
  | joined r' k => exact .inl (hin.resolve_right hn)
  | left => exact absurd hin.1 hn
  | renamed r' o k | called o k =>
    obtain ⟨hnk, ho⟩ := hin.resolve_left fun hc => hn hc.1
    exact .inr ⟨hnk, News.mem_edit_of_mem ho (hkept o (.inl rfl))⟩

theorem complete (h : Told a x p q) (hp : p.Converging) (hr : p.room c = some r)
    (hS : q.view c = some S) (hd : p.room d = some r) (hn : p.name d = some n) :
    n ∈ S ∨ ∃ y ∈ q.news d, y.Reaches d c (some r) ∧ n ∈ y.edit S := by
  rcases h.view c r hr with ⟨hv, hno⟩ | ⟨hv, hreach⟩
  · rw [hv] at hS
    refine (hp.complete c r S hr hS d n hd hn).imp_right ?_
    rintro ⟨y, hy, hry, hin⟩
    rw [hr] at hry
    rcases h.cases_of_mem hy with ⟨rfl, rfl⟩ | hy
    · exact absurd hry hno
    · exact ⟨y, hy, hry, hin⟩
  · rw [hv] at hS
    obtain ⟨S₀, hS₀, rfl⟩ := Option.map_eq_some_iff.1 hS
    have hstays : n ∈ S₀ → n ∈ x.edit S₀ := fun hin =>
      News.mem_edit_of_mem hin (h.not_removes hp hd hn)
    rcases hp.complete c r S₀ hr hS₀ d n hd hn with hin | ⟨y, hy, hry, hin⟩
    · exact .inl (hstays hin)
    rw [hr] at hry
    rcases h.cases_of_mem hy with ⟨rfl, rfl⟩ | hyq
    · exact .inl hin
    by_cases hn₀ : n ∈ S₀
    · exact .inl (hstays hn₀)
    · exact .inr ⟨y, hyq, hry, h.mem_edit_edit hp hreach hyq hry hin hn₀⟩

theorem sound (h : Told a x p q) (hp : p.Converging) (hr : p.room c = some r)
    (hS : q.view c = some S) (hn : n ∈ S) :
    n ∈ p.namesIn r ∨ ∃ d, ∃ y ∈ q.news d, y.Reaches d c (some r) ∧ y.Removes n := by
  have hold : ∀ S₀, p.view c = some S₀ → n ∈ S₀ → (x.Reaches a c (some r) → ¬ x.Removes n) →
      n ∈ p.namesIn r ∨ ∃ d, ∃ y ∈ q.news d, y.Reaches d c (some r) ∧ y.Removes n := by
    intro S₀ hS₀ hn₀ hno
    refine (hp.sound c r S₀ hr hS₀ n hn₀).imp_right ?_
    rintro ⟨d, y, hy, hry, hrem⟩
    rw [hr] at hry
    rcases h.cases_of_mem hy with ⟨rfl, rfl⟩ | hyq
    · exact absurd hrem (hno hry)
    · exact ⟨d, y, hyq, hry, hrem⟩
  rcases h.view c r hr with ⟨hv, hno⟩ | ⟨hv, hreach⟩
  · exact hold S (hv.symm.trans hS) hn fun hc => absurd hc hno
  · rw [hv] at hS
    obtain ⟨S₀, hS₀, rfl⟩ := Option.map_eq_some_iff.1 hS
    by_cases hn₀ : n ∈ S₀
    · exact hold S₀ hS₀ hn₀ fun _ hrem => News.notMem_edit_of_removes hrem hn
    · exact .inl ((hp.fits a x h.mem).mem_namesIn hr hreach hn hn₀)

end Told

theorem Converging.tell (h : p.Converging) (told : Told a x p q) : q.Converging := by
  refine ⟨?_, fun d y hy => ?_, told.spread h, apart_mono h.apart fun b m => told.uses,
    fun c r S hr hS d m hd hm => ?_, fun c r S hr hS m hm => ?_⟩
  · rw [told.room, told.name]
    exact h.named
  · rw [fits_congr (congrFun told.room d) (congrFun told.name d)]
    exact h.fits d y (told.mem_of_mem hy)
  · rw [told.room] at hr hd ⊢
    rw [told.name] at hm
    rw [hr]
    exact told.complete h hr hS hd hm
  · rw [told.room] at hr ⊢
    rw [namesIn, told.room, told.name, hr]
    exact told.sound h hr hS hm

/-- **Every step keeps the lists right but for the news.** -/
theorem Converging.step (h : p.Converging) (hs : Step p q) : q.Converging := by
  cases hs with
  | quiet room name news view => exact h.quiet room name news view
  | call only hout hidle room news hfree => exact h.call only hout hidle room news hfree
  | enter only hout hname hidle room name news view =>
    exact h.enter only hout hname hidle room name news view
  | depart only hin hname hidle room name news =>
    exact h.depart only hin hname hidle room name news
  | rename only hname hidle hfree room name view news =>
    exact h.rename ⟨only, hname, hidle, hfree, room, name, view, news⟩
  | tell room name hnews news view => exact h.tell ⟨room, name, hnews, news, view⟩

/-- With nobody there and nothing to tell, there is nothing to be wrong. -/
theorem converging_of_empty (hname : ∀ a, p.name a = none) (hroom : ∀ a, p.room a = none)
    (hnews : ∀ a, p.news a = []) : p.Converging where
  named a r ha := absurd ha (by simp [hroom])
  fits a x hx := absurd hx (by simp [hnews])
  spread a := by simp [hnews, Spread]
  apart a b n _ ha := absurd ha (by simp [Uses, hname, hnews])
  complete c r S hc := absurd hc (by simp [hroom])
  sound c r S hc := absurd hc (by simp [hroom])

end Invariant

end Presence
end TcVoice
