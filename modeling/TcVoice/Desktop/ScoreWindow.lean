import TcVoice.Desktop.Score
import Mathlib.Tactic.Linarith

/-!
# The window of a voice

What `forEachInWindow` visits, compared with everything that was ever accepted of a voice.

* `accepted` — the samples of a name that are audible and not too close to the one before.
* `ScoreRecorder.held_enter` — a ring has the last of them, over any entries.
* `Spaced` — they are at least a step apart, so a ring covers the history, but for one case:
* `Brimful` — the last samples came exactly a step apart, one more of them than a ring has
  slots, up to the newest time seen.
* `visited_iff` — **every sample in the window is visited, unless the ring is brimful** and
  the window has the start of the history in it.
-/

namespace TcVoice
namespace Desktop

open Newest ScoreRecorder

/-- A call that enters something into the score. -/
inductive ScoreEntry where
  | record (name : String) (level : Float) (t : ℚ)
  | addLyric (who said : String) (t now : ℚ)

/-- The time by which an entry says how late it is. -/
def ScoreEntry.seen : ScoreEntry → ℚ
  | record _ _ t => t
  | addLyric _ _ _ now => now

/-- The newest time seen by anything. -/
def newestSeen (entries : List ScoreEntry) : WithBot ℚ :=
  entries.foldl (fun latest e => max latest e.seen) ⊥

/-- The time of the latest of some samples. -/
def lastOf : List Sample → WithBot ℚ
  | [] => ⊥
  | s :: _ => s.t

/-- One more entry: its sample, if it is one of the name, audible, and at least a step after the
one before. -/
def accept (name : String) (samples : List Sample) : ScoreEntry → List Sample
  | .record n level t =>
    if n = name ∧ scoreAudible ≤ level ∧ (minStep : ℚ) ≤ elapsed t (lastOf samples) then
      .of t level (lastOf samples) :: samples
    else samples
  | .addLyric _ _ _ _ => samples

/-- The samples of a name that are accepted, newest first. -/
def accepted (name : String) (entries : List ScoreEntry) : List Sample :=
  entries.foldl (accept name) []

namespace ScoreRecorder

/-- An entry into the score. -/
def enter (r : ScoreRecorder) : ScoreEntry → ScoreRecorder
  | .record name level t => r.record name level t
  | .addLyric who said t now => r.addLyric who said t now

/-- The samples that the ring of a name has. -/
def held (r : ScoreRecorder) (name : String) : List Sample :=
  match r.rings.lookup name with
  | none => []
  | some ring => ring.newestFirst

variable (r : ScoreRecorder) (name : String)

theorem forEachInWindow_eq (start stop : Bound) : r.forEachInWindow name start stop =
    visitBack (fun s => decide (.at s.t < r.lo start)) (fun s => decide (stop < .at s.t))
      (r.held name) := by
  unfold forEachInWindow held
  cases r.rings.lookup name <;> rfl

/-! ## What an entry does -/

theorem latest_see (t : ℚ) : (r.see t).latest = max r.latest t := by
  unfold see
  dsimp only
  split
  · rename_i hlt
    exact (max_eq_right (le_of_lt hlt)).symm
  · rename_i hge
    exact (max_eq_left (not_lt.1 hge)).symm

theorem latest_enter (e : ScoreEntry) : (r.enter e).latest = max r.latest e.seen := by
  cases e with
  | record n level t =>
    rw [ScoreEntry.seen, ← latest_see]
    unfold enter record
    dsimp only
    split
    · rfl
    split <;> rfl
  | addLyric who said t now =>
    rw [ScoreEntry.seen, ← latest_see]
    unfold enter addLyric
    dsimp only
    split <;> rfl

theorem rings_addLyric (who said : String) (t now : ℚ) :
    (r.addLyric who said t now).rings = r.rings := by
  unfold addLyric
  dsimp only
  split <;> rfl

theorem held_eq : r.held name = ((r.rings.lookup name).getD .new).newestFirst := by
  unfold held
  cases r.rings.lookup name <;> rfl

theorem lastAudible_eq : r.lastAudible name = ((r.rings.lookup name).getD .new).lastAudible := by
  unfold lastAudible
  cases r.rings.lookup name <;> rfl

/-- A sample is written to the ring of its name if it is audible and late enough. -/
theorem ring_record (n : String) (level : Float) (t : ℚ) :
    ((r.record n level t).rings.lookup name).getD .new =
      if n = name ∧ scoreAudible ≤ level ∧ (minStep : ℚ) ≤ elapsed t (r.lastAudible name) then
        ((r.rings.lookup name).getD .new).write (.of t level (r.lastAudible name))
      else (r.rings.lookup name).getD .new := by
  rw [lastAudible_eq]
  unfold record see
  dsimp only
  by_cases haudible : scoreAudible ≤ level
  · by_cases hname : name = n
    · subst hname
      by_cases hstep : elapsed t ((r.rings.lookup name).getD .new).lastAudible < (minStep : ℚ)
      · simp [haudible, hstep, not_le.2 hstep]
      · simp [haudible, hstep, not_lt.1 hstep]
    · simp only [haudible, decide_true, Bool.not_true, Bool.false_eq_true, if_false,
        Ne.symm hname, false_and]
      split
      · rw [Finmap.lookup_insert_of_ne _ hname]
      · rw [Finmap.lookup_insert_of_ne _ hname, Finmap.lookup_insert_of_ne _ hname]
  · simp [haudible]

/-- So it comes in front of what the ring has. -/
theorem held_record (n : String) (level : Float) (t : ℚ) :
    let taken := n = name ∧ scoreAudible ≤ level ∧ (minStep : ℚ) ≤ elapsed t (r.lastAudible name)
    (r.record n level t).held name =
        (if taken then (.of t level (r.lastAudible name) :: r.held name).take scoreRing
        else r.held name) ∧
      (r.record n level t).lastAudible name = if taken then (t : WithBot ℚ) else r.lastAudible name
    := by
  intro taken
  rw [held_eq, (r.record n level t).lastAudible_eq, ring_record]
  by_cases htaken : taken
  · rw [if_pos htaken, if_pos htaken, if_pos htaken, held_eq]
    exact ⟨VoiceRing.newestFirst_write _ _, rfl⟩
  · rw [if_neg htaken, if_neg htaken, if_neg htaken, held_eq, ← lastAudible_eq]
    exact ⟨rfl, rfl⟩

/-- The recorder follows what is accepted of a name. -/
def Follows (r : ScoreRecorder) (samples : List Sample) : Prop :=
  r.held name = samples.take scoreRing ∧ r.lastAudible name = lastOf samples

variable {r name}

theorem Follows.enter {samples : List Sample} (h : r.Follows name samples) (e : ScoreEntry) :
    (r.enter e).Follows name (accept name samples e) := by
  obtain ⟨hheld, hlast⟩ := h
  cases e with
  | addLyric who said t now =>
    unfold Follows held lastAudible ScoreRecorder.enter
    rw [rings_addLyric]
    exact ⟨hheld, hlast⟩
  | record n level t =>
    obtain ⟨hheld', hlast'⟩ := r.held_record name n level t
    rw [hlast, hheld] at hheld'
    rw [hlast] at hlast'
    by_cases htaken : n = name ∧ scoreAudible ≤ level ∧ (minStep : ℚ) ≤ elapsed t (lastOf samples)
    · rw [if_pos htaken] at hheld' hlast'
      have hring : (Sample.of t level (lastOf samples) :: samples.take scoreRing).take scoreRing =
          (Sample.of t level (lastOf samples) :: samples).take scoreRing := by
        simp [scoreRing_eq, List.take_take]
      simp only [accept, if_pos htaken]
      exact ⟨hheld'.trans hring, hlast'⟩
    · rw [if_neg htaken] at hheld' hlast'
      simp only [accept, if_neg htaken]
      exact ⟨hheld', hlast'⟩

theorem follows_entries (name : String) (entries : List ScoreEntry) :
    (entries.foldl enter new).Follows name (accepted name entries) := by
  suffices hrun : ∀ (r : ScoreRecorder) samples, r.Follows name samples →
      (entries.foldl ScoreRecorder.enter r).Follows name (entries.foldl (accept name) samples) from
    hrun new [] ⟨rfl, rfl⟩
  induction entries with
  | nil => exact fun _ _ h => h
  | cons e entries ih => exact fun r samples h => ih _ _ (h.enter e)

theorem latest_entries (entries : List ScoreEntry) :
    (entries.foldl enter new).latest = newestSeen entries := by
  suffices hrun : ∀ r : ScoreRecorder, (entries.foldl ScoreRecorder.enter r).latest =
      entries.foldl (fun latest e => max latest e.seen) r.latest from hrun new
  induction entries with
  | nil => exact fun _ => rfl
  | cons e entries ih =>
    intro r
    rw [List.foldl_cons, ih, latest_enter, List.foldl_cons]

end ScoreRecorder

/-! ## How far apart they are -/

/-- Samples that are at least a step apart, newest first, none of them newer than `latest`. -/
structure Spaced (latest : WithBot ℚ) (samples : List Sample) : Prop where
  apart : samples.Pairwise fun a b => b.t + minStep ≤ a.t
  newest : lastOf samples ≤ latest

theorem le_elapsed {t : ℚ} {s : Sample} {samples : List Sample}
    (h : (minStep : ℚ) ≤ elapsed t (lastOf (s :: samples))) : s.t + minStep ≤ t := by
  have hle : minStep ≤ t - s.t := WithTop.coe_le_coe.1 h
  linarith

theorem minStep_pos : 0 < minStep := by
  norm_num [minStep, scoreRecordHzMax]

theorem Spaced.accept {latest : WithBot ℚ} {samples : List Sample} (h : Spaced latest samples)
    (name : String) (e : ScoreEntry) :
    Spaced (max latest e.seen) (accept name samples e) := by
  have hstays : Spaced (max latest e.seen) samples :=
    ⟨h.apart, h.newest.trans (le_max_left _ _)⟩
  cases e with
  | addLyric who said t now => exact hstays
  | record n level t =>
    unfold Desktop.accept
    dsimp only
    split
    · rename_i htaken
      refine ⟨List.pairwise_cons.2 ⟨fun b hb => ?_, h.apart⟩, le_max_right _ _⟩
      obtain ⟨-, -, hstep⟩ := htaken
      cases samples with
      | nil => cases hb
      | cons s samples =>
        have hs := le_elapsed hstep
        rcases List.mem_cons.1 hb with rfl | hlater
        · exact hs
        · have hb := List.rel_of_pairwise_cons h.apart hlater
          have hpos := minStep_pos
          show b.t + minStep ≤ t
          linarith
    · exact hstays

theorem spaced_accepted (name : String) (entries : List ScoreEntry) :
    Spaced (newestSeen entries) (accepted name entries) := by
  suffices hrun : ∀ latest samples, Spaced latest samples →
      Spaced (entries.foldl (fun latest e => max latest (e.seen : WithBot ℚ)) latest)
        (entries.foldl (accept name) samples) from hrun ⊥ [] ⟨List.Pairwise.nil, le_refl _⟩
  induction entries with
  | nil => exact fun _ _ h => h
  | cons e entries ih => exact fun latest samples h => ih _ _ (h.accept name e)

/-- Of samples that are a step apart, those that are `k` apart are `k` steps apart. -/
theorem Spaced.steps {latest : WithBot ℚ} {samples : List Sample} (h : Spaced latest samples)
    {i k : ℕ} (hik : i + k < samples.length) :
    samples[i + k].t + k * minStep ≤ samples[i].t := by
  induction k with
  | zero => simp
  | succ k ih =>
    have hnext := List.pairwise_iff_getElem.1 h.apart (i + k) (i + (k + 1)) (by omega) hik
      (by omega)
    have hfirst := ih (by omega)
    push_cast
    linarith

/-- The last samples came exactly a step apart up to the newest time seen, and they are one more
than a ring has slots. -/
def Brimful (newest : ℚ) (samples : List Sample) : Prop :=
  ∀ k ≤ scoreRing, (samples[k]?).map Sample.t = some (newest - k * minStep)

/-- A ring of steps is as long as the history. -/
theorem scoreRing_mul_minStep : (scoreRing : ℚ) * minStep = scoreHistorySecs := by
  norm_num [scoreRing_eq, minStep, scoreRecordHzMax, scoreHistorySecs]

section Lost

variable {newest : ℚ} {samples : List Sample}

theorem Spaced.head_le (h : Spaced newest samples) (hpos : 0 < samples.length) :
    samples[0].t ≤ newest := by
  have hnewest := h.newest
  cases samples with
  | nil => cases hpos
  | cons s samples => exact WithBot.coe_le_coe.1 hnewest

/-- Of spaced samples the one that a full ring has no slot for is as old as the history or
older. -/
theorem Spaced.lost_le (h : Spaced newest samples) (hlen : scoreRing < samples.length) :
    samples[scoreRing].t ≤ newest - scoreHistorySecs := by
  have hfirst := h.head_le (by omega)
  have hsteps := h.steps (i := 0) (k := scoreRing) (by omega)
  simp only [Nat.zero_add, scoreRing_mul_minStep] at hsteps
  linarith

/-- It is exactly as old if the ring is brimful. -/
theorem Spaced.brimful_iff (h : Spaced newest samples) (hlen : scoreRing < samples.length) :
    Brimful newest samples ↔ samples[scoreRing].t = newest - scoreHistorySecs := by
  constructor
  · intro hbrim
    have hlast := hbrim scoreRing (le_refl _)
    rw [List.getElem?_eq_getElem hlen, scoreRing_mul_minStep] at hlast
    exact Option.some.inj hlast
  · intro hlast k hk
    have hfirst := h.head_le (by omega)
    have hhead := h.steps (i := 0) (k := k) (by omega)
    have htail := h.steps (i := k) (k := scoreRing - k) (by omega)
    have hsplit : ((scoreRing - k : ℕ) : ℚ) * minStep = scoreHistorySecs - k * minStep := by
      rw [Nat.cast_sub hk, sub_mul, scoreRing_mul_minStep]
    have hwhole : k + (scoreRing - k) = scoreRing := by omega
    simp only [Nat.zero_add] at hhead
    simp only [hwhole, hsplit, hlast] at htail
    rw [List.getElem?_eq_getElem (by omega), Option.map_some, Option.some.injEq]
    linarith

end Lost

/-! ## What is visited -/

/-- The samples of some that are in a window. -/
def within (latest : WithBot ℚ) (start stop : Bound) (samples : List Sample) : List Sample :=
  samples.filter fun s => inWindow latest start stop s.t

/-- What is visited is what is in the window of the samples that a ring has slots for. -/
theorem forEachInWindow_entries (entries : List ScoreEntry) (name : String) (start stop : Bound) :
    (entries.foldl ScoreRecorder.enter .new).forEachInWindow name start stop =
      within (newestSeen entries) start stop ((accepted name entries).take scoreRing) := by
  have hsorted : ((accepted name entries).take scoreRing).Pairwise fun a b => b.t ≤ a.t := by
    refine ((spaced_accepted name entries).apart.imp fun {a b} hab => ?_).sublist
      (List.take_sublist _ _)
    have hpos := minStep_pos
    linarith
  rw [ScoreRecorder.forEachInWindow_eq, (ScoreRecorder.follows_entries name entries).1,
    visitBack_window _ hsorted, ScoreRecorder.latest_entries]
  rfl

section Lost

variable {newest : ℚ} {samples : List Sample} {start stop : Bound}

/-- Of the samples without a slot at most the newest is in a window. -/
theorem Spaced.within_drop (h : Spaced newest samples) (hlen : scoreRing < samples.length) :
    within newest start stop (samples.drop scoreRing) =
      if inWindow newest start stop samples[scoreRing].t then [samples[scoreRing]] else [] := by
  have hdrop : samples.drop scoreRing =
      samples[scoreRing] :: samples.drop (scoreRing + 1) := List.drop_eq_getElem_cons hlen
  have hrest : within newest start stop (samples.drop (scoreRing + 1)) = [] := by
    unfold within
    rw [List.filter_eq_nil_iff]
    intro s hs hin
    have hpair := h.apart.sublist (List.drop_sublist scoreRing samples)
    rw [hdrop] at hpair
    have hs := List.rel_of_pairwise_cons hpair hs
    have holdest := h.lost_le hlen
    have hpos := minStep_pos
    have hlate := (inWindow_iff.1 hin).2.1
    linarith
  unfold within at hrest ⊢
  rw [hdrop, List.filter_cons, hrest]

theorem not_brimful_of_le (hshort : samples.length ≤ scoreRing) : ¬ Brimful newest samples := by
  intro hbrim
  have hlast := hbrim scoreRing (le_refl _)
  rw [List.getElem?_eq_none hshort] at hlast
  cases hlast

/-- A sample in the window is lost to the ring's capacity exactly if the ring is brimful and the
window has the start of the history in it. -/
theorem lost_iff (h : Spaced newest samples) (start stop : Bound) :
    within newest start stop (samples.drop scoreRing) ≠ [] ↔
      Brimful newest samples ∧ start ≤ .at (newest - scoreHistorySecs) ∧
        .at (newest - scoreHistorySecs) ≤ stop := by
  rcases Nat.lt_or_ge scoreRing samples.length with hlen | hshort
  · have holdest := h.lost_le hlen
    rw [h.brimful_iff hlen, h.within_drop hlen]
    constructor
    · intro hne
      split at hne
      · rename_i hin
        obtain ⟨hstart, hlate, hstop⟩ := inWindow_iff.1 hin
        have hexact := le_antisymm holdest hlate
        rw [hexact] at hstart hstop
        exact ⟨hexact, hstart, hstop⟩
      · exact absurd rfl hne
    · rintro ⟨hexact, hstart, hstop⟩
      rw [if_pos]
      · exact List.cons_ne_nil _ _
      · rw [inWindow_iff, hexact]
        exact ⟨hstart, le_refl _, hstop⟩
  · rw [List.drop_eq_nil_of_le hshort]
    constructor
    · intro hne
      exact absurd rfl hne
    · rintro ⟨hbrim, -⟩
      exact absurd hbrim (not_brimful_of_le hshort)

end Lost

/-- All of the window is visited if a ring has slots for all of it. -/
theorem visited_iff_drop (entries : List ScoreEntry) (name : String) (start stop : Bound) :
    (entries.foldl ScoreRecorder.enter .new).forEachInWindow name start stop =
        within (newestSeen entries) start stop (accepted name entries) ↔
      within (newestSeen entries) start stop ((accepted name entries).drop scoreRing) = [] := by
  have hparts : within (newestSeen entries) start stop (accepted name entries) =
      within (newestSeen entries) start stop ((accepted name entries).take scoreRing) ++
        within (newestSeen entries) start stop ((accepted name entries).drop scoreRing) := by
    unfold within
    rw [← List.filter_append, List.take_append_drop]
  rw [forEachInWindow_entries, hparts, List.self_eq_append_right]

/-- **Every sample in the window is visited**, newest first and once, unless the last ones came
exactly a step apart, one more of them than a ring has slots, up to the newest time seen, and
the window has the start of the history in it. -/
theorem visited_iff (entries : List ScoreEntry) (name : String) (start stop : Bound) :
    (entries.foldl ScoreRecorder.enter .new).forEachInWindow name start stop =
        within (newestSeen entries) start stop (accepted name entries) ↔
      ¬ ∃ newest : ℚ, newestSeen entries = newest ∧ Brimful newest (accepted name entries) ∧
        start ≤ .at (newest - scoreHistorySecs) ∧ .at (newest - scoreHistorySecs) ≤ stop := by
  have hspaced := spaced_accepted name entries
  rw [visited_iff_drop]
  cases hnewest : newestSeen entries with
  | bot =>
    rw [hnewest] at hspaced
    have hnone : accepted name entries = [] := by
      cases hsamples : accepted name entries with
      | nil => rfl
      | cons s samples =>
        have hlast := hspaced.newest
        rw [hsamples] at hlast
        exact absurd hlast (WithBot.not_coe_le_bot _)
    rw [hnone]
    simp [within]
  | coe newest =>
    rw [hnewest] at hspaced
    rw [← not_iff_not, not_not, ← ne_eq, lost_iff hspaced]
    simp

/-! ## One sample too many -/

/-- A voice that is heard eight times a second, exactly. -/
def steadily (n : ℕ) : List ScoreEntry :=
  (List.range n).map fun k => .record "a" 1 (k * minStep)

theorem steadily_succ (n : ℕ) : steadily (n + 1) = steadily n ++ [.record "a" 1 (n * minStep)] := by
  simp [steadily, List.range_succ]

theorem newestSeen_steadily (n : ℕ) : newestSeen (steadily (n + 1)) = (n * minStep : ℚ) := by
  induction n with
  | zero => simp [steadily, newestSeen, ScoreEntry.seen]
  | succ n ih =>
    unfold newestSeen at ih ⊢
    rw [steadily_succ, List.foldl_append, ih]
    show max ((n * minStep : ℚ) : WithBot ℚ) (((n + 1 : ℕ) * minStep : ℚ) : WithBot ℚ) = _
    apply max_eq_right
    rw [WithBot.coe_le_coe]
    push_cast
    have hpos := minStep_pos
    linarith

/-- All of it is accepted. -/
theorem accepted_steadily (n : ℕ) : (accepted "a" (steadily n)).map Sample.t =
    (List.range n).reverse.map fun k : ℕ => (k : ℚ) * minStep := by
  induction n with
  | zero => rfl
  | succ n ih =>
    have hstep : (minStep : ℚ) ≤ elapsed (n * minStep) (lastOf (accepted "a" (steadily n))) := by
      cases n with
      | zero => exact le_top
      | succ n =>
        rw [List.range_succ, List.reverse_append, List.map_append] at ih
        obtain ⟨s, samples, hsamples, hs, -⟩ := List.map_eq_cons_iff.1 ih
        rw [hsamples]
        show ((minStep : ℚ) : WithTop ℚ) ≤ ((n + 1 : ℕ) * minStep - s.t : ℚ)
        rw [hs, WithTop.coe_le_coe]
        push_cast
        linarith
    have haudible : scoreAudible ≤ 1 := by decide
    unfold accepted at ih hstep ⊢
    rw [steadily_succ, List.foldl_append, List.range_succ, List.reverse_append, List.map_append,
      ← ih]
    simp only [List.foldl_cons, List.foldl_nil, accept, haudible, hstep, and_self, if_true]
    rfl

/-- Two minutes of it: of the 961 samples in the history the first is not visited. -/
theorem first_lost :
    ((steadily (scoreRing + 1)).foldl ScoreRecorder.enter .new).forEachInWindow "a" ⊥ ⊤ ≠
      within (newestSeen (steadily (scoreRing + 1))) ⊥ ⊤
        (accepted "a" (steadily (scoreRing + 1))) := by
  have hspaced := spaced_accepted "a" (steadily (scoreRing + 1))
  have hbrim : Brimful (scoreRing * minStep) (accepted "a" (steadily (scoreRing + 1))) := by
    intro k hk
    have hlt : k < (List.range (scoreRing + 1)).length := by
      rw [List.length_range]
      omega
    rw [← List.getElem?_map, accepted_steadily, List.getElem?_map, List.getElem?_reverse hlt,
      List.length_range, List.getElem?_range (by omega), Option.map_some, Option.some.injEq,
      Nat.add_sub_cancel, Nat.cast_sub hk, sub_mul]
  rw [newestSeen_steadily] at hspaced
  rw [ne_eq, visited_iff_drop, newestSeen_steadily]
  exact (lost_iff hspaced ⊥ ⊤).2 ⟨hbrim, bot_le, le_top⟩

end Desktop
end TcVoice
