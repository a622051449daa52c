import TcVoice.Desktop.ScoreWindow

/-!
# Renaming in the score

"A renamed peer keeps what they said under their new name": what `rename` makes of the
voices, the chat lines and the times of the last ones.

* `rings_rename`, `saidAt_rename`, `lyrics_rename` — the three rules by which they move.
* `Merged` — all that was visible under the old name is under the new one, with what was
  there, and nothing else has changed.
* `merged_rename_iff` — **a rename merges the two**, unless both have a voice: then the one
  under the old name is dropped, which shows unless it has nothing to show.
-/

namespace TcVoice
namespace Desktop

open Newest

/-- A line under its new name. -/
def Lyric.rename (old new : String) (l : Lyric) : Lyric :=
  if l.who = old then { l with who := new } else l

theorem Lyric.t_rename (old new : String) (l : Lyric) : (l.rename old new).t = l.t := by
  unfold Lyric.rename
  split <;> rfl

theorem Lyric.rename_self (name : String) : Lyric.rename name name = id := by
  funext l
  unfold Lyric.rename
  split
  · rename_i hwho
    show ({ l with who := name } : Lyric) = l
    rw [← hwho]
  · rfl

namespace ScoreRecorder

variable (r : ScoreRecorder) {old new : String}

/-! ## What moves -/

/-- Of two voices the one that is there already stays. -/
theorem rings_rename_eq (h : old ≠ new) :
    (r.rename old new).rings = r.rings.move old new fun _ ring => ring := by
  unfold rename Table.move
  rw [if_neg h]
  dsimp only
  cases r.rings.lookup old with
  | none => rfl
  | some ring =>
    dsimp only
    cases hnew : (r.rings.erase old).lookup new with
    | none => rfl
    | some ring' => exact (Table.insert_of_lookup hnew).symm

theorem rings_rename (h : old ≠ new) (name : String) :
    (r.rename old new).rings.lookup name =
      if name = old then none
      else if name = new then (r.rings.lookup new).or (r.rings.lookup old)
      else r.rings.lookup name := by
  have hmerge : (r.rings.lookup old).merge (fun _ ring => ring) (r.rings.lookup new) =
      (r.rings.lookup new).or (r.rings.lookup old) := by
    cases r.rings.lookup old <;> cases r.rings.lookup new <;> rfl
  rw [rings_rename_eq r h, Table.lookup_move h, hmerge]

/-- Of two times the later one stays. -/
theorem said_rename (h : old ≠ new) : (r.rename old new).said = r.said.move old new max := by
  unfold rename Table.move
  rw [if_neg h]
  dsimp only
  cases r.said.lookup old with
  | none => rfl
  | some t =>
    dsimp only
    cases (r.said.erase old).lookup new <;> rfl

theorem saidAt_rename (h : old ≠ new) (name : String) :
    (r.rename old new).saidAt name =
      if name = old then ⊥
      else if name = new then max (r.saidAt old) (r.saidAt new)
      else r.saidAt name := by
  unfold saidAt
  rw [said_rename r h, Table.lookup_move h]
  by_cases hold : name = old
  · rw [if_pos hold, if_pos hold]
  · rw [if_neg hold, if_neg hold]
    by_cases hnew : name = new
    · rw [if_pos hnew, if_pos hnew]
      cases r.said.lookup old with
      | none =>
        rw [Option.merge_none_left]
        exact (max_bot_left (r.saidAt new)).symm
      | some t =>
        cases r.said.lookup new with
        | none => exact (max_bot_right (t : WithBot ℚ)).symm
        | some t' => exact WithBot.coe_max t t'
    · rw [if_neg hnew, if_neg hnew]

theorem lyrics_rename (h : old ≠ new) :
    (r.rename old new).lyrics = r.lyrics.map (Lyric.rename old new) := by
  unfold rename
  rw [if_neg h]
  rfl

theorem latest_rename : (r.rename old new).latest = r.latest := by
  unfold rename
  split <;> rfl

/-! ## What is visible -/

/-- The lines of a name that are visited. -/
def linesOf (r : ScoreRecorder) (name : String) (start stop : Bound) : List Lyric :=
  (r.lyricsInWindow start stop).filter fun l => l.who = name

/-- What was visible under two names is visible under the second, and nothing else has
changed. -/
structure Merged (r r' : ScoreRecorder) (old new : String) : Prop where
  voices : ∀ start stop, (r'.forEachInWindow new start stop).Perm
    (r.forEachInWindow old start stop ++ r.forEachInWindow new start stop)
  lines : ∀ start stop, r'.linesOf new start stop =
    ((r.lyricsInWindow start stop).filter fun l => l.who = old ∨ l.who = new).map
      fun l => { l with who := new }
  heard : r'.lastHeard new = max (r.lastHeard old) (r.lastHeard new)
  gone : (∀ start stop, r'.forEachInWindow old start stop = []) ∧
    (∀ start stop, r'.linesOf old start stop = []) ∧ r'.lastHeard old = ⊥
  others : ∀ name, name ≠ old → name ≠ new →
    (∀ start stop, r'.forEachInWindow name start stop = r.forEachInWindow name start stop) ∧
      (∀ start stop, r'.linesOf name start stop = r.linesOf name start stop) ∧
      r'.lastHeard name = r.lastHeard name

theorem lyricsInWindow_rename (h : old ≠ new) (start stop : Bound) :
    (r.rename old new).lyricsInWindow start stop =
      (r.lyricsInWindow start stop).map (Lyric.rename old new) := by
  unfold lyricsInWindow lo
  rw [lyrics_rename r h, latest_rename, ← List.map_reverse, visitBack_map]
  simp only [Function.comp_def, Lyric.t_rename]

/-- The lines of a name after a rename. -/
theorem linesOf_rename (h : old ≠ new) (name : String) (start stop : Bound) :
    (r.rename old new).linesOf name start stop =
      if name = old then []
      else if name = new then
        ((r.lyricsInWindow start stop).filter fun l => l.who = old ∨ l.who = new).map
          fun l => { l with who := new }
      else r.linesOf name start stop := by
  unfold linesOf
  rw [lyricsInWindow_rename r h]
  induction r.lyricsInWindow start stop with
  | nil => simp
  | cons l lines ih =>
    rw [List.map_cons, List.filter_cons, ih]
    by_cases hold : name = old
    · subst hold
      by_cases hl : l.who = name
      · simp [Lyric.rename, hl, Ne.symm h]
      · simp [Lyric.rename, hl]
    · by_cases hnew : name = new
      · subst hnew
        by_cases hl : l.who = old
        · simp [Lyric.rename, hl, hold]
        · by_cases hl' : l.who = name
          · have hsame : ({ l with who := name } : Lyric) = l := by
              rw [← hl']
            simp [Lyric.rename, hl', hold, hsame]
          · simp [Lyric.rename, hl, hl', hold]
      · by_cases hl : l.who = old
        · simp [Lyric.rename, hl, hold, hnew, Ne.symm hold, Ne.symm hnew]
        · simp [Lyric.rename, hl, hold, hnew, List.filter_cons]

/-- A voice as it is under a name afterwards. -/
theorem voice_rename (h : old ≠ new) (name : String) (start stop : Bound) :
    (r.rename old new).forEachInWindow name start stop =
      if name = old then []
      else if name = new then
        if r.rings.lookup new = none then r.forEachInWindow old start stop
        else r.forEachInWindow new start stop
      else r.forEachInWindow name start stop := by
  have hlo : (r.rename old new).lo start = r.lo start := by
    unfold lo
    rw [latest_rename]
  unfold forEachInWindow
  rw [rings_rename r h, hlo]
  by_cases hold : name = old
  · rw [if_pos hold, if_pos hold]
  · rw [if_neg hold, if_neg hold]
    by_cases hnew : name = new
    · rw [if_pos hnew, if_pos hnew]
      cases hlookup : r.rings.lookup new <;> rfl
    · rw [if_neg hnew, if_neg hnew]

theorem lastAudible_rename (h : old ≠ new) (name : String) :
    (r.rename old new).lastAudible name =
      if name = old then ⊥
      else if name = new then
        if r.rings.lookup new = none then r.lastAudible old else r.lastAudible new
      else r.lastAudible name := by
  unfold lastAudible
  rw [rings_rename r h]
  by_cases hold : name = old
  · rw [if_pos hold, if_pos hold]
  · rw [if_neg hold, if_neg hold]
    by_cases hnew : name = new
    · rw [if_pos hnew, if_pos hnew]
      cases hlookup : r.rings.lookup new <;> rfl
    · rw [if_neg hnew, if_neg hnew]

/-! ## What is lost -/

/-- A voice with nothing in the whole of the history has nothing in any window. -/
theorem voice_eq_nil {name : String} (h : r.forEachInWindow name ⊥ ⊤ = []) (start stop : Bound) :
    r.forEachInWindow name start stop = [] := by
  rw [forEachInWindow_eq] at h ⊢
  refine visitBack_eq_nil (fun s => ?_) (fun s hs => ?_) h
  · exact decide_eq_false (not_lt.2 le_top)
  · have hlo : r.lo ⊥ ≤ r.lo start := max_le_max_right _ bot_le
    exact decide_eq_true ((of_decide_eq_true hs).trans_le hlo)

theorem voice_of_no_ring {name : String} (h : r.rings.lookup name = none) (start stop : Bound) :
    r.forEachInWindow name start stop = [] := by
  unfold forEachInWindow
  rw [h]

theorem lastAudible_of_no_ring {name : String} (h : r.rings.lookup name = none) :
    r.lastAudible name = ⊥ := by
  unfold lastAudible
  rw [h]

theorem lastHeard_rename (h : old ≠ new) : (r.rename old new).lastHeard new =
    max (if r.rings.lookup new = none then r.lastAudible old else r.lastAudible new)
      (max (r.saidAt old) (r.saidAt new)) := by
  unfold lastHeard
  rw [lastAudible_rename r h, saidAt_rename r h, if_neg (Ne.symm h), if_pos rfl,
    if_neg (Ne.symm h), if_pos rfl]

/-- When a voice that is dropped was heard shows exactly if nothing else was heard later. -/
theorem max_dropped_iff (voice said voice' said' : WithBot ℚ) :
    max voice' (max said said') = max (max voice said) (max voice' said') ↔
      voice ≤ max (max voice' said') said := by
  have hall : max (max voice said) (max voice' said') =
      max voice (max (max voice' said') said) := by
    rw [max_assoc, max_comm said]
  have hkept : max voice' (max said said') = max (max voice' said') said := by
    rw [max_comm said, ← max_assoc]
  rw [hall, hkept, eq_comm, max_eq_right_iff]

/-- A rename merges two names that do not both have a voice. -/
theorem merged_of_no_ring (h : old ≠ new)
    (hrings : r.rings.lookup old = none ∨ r.rings.lookup new = none) :
    (∀ start stop, ((r.rename old new).forEachInWindow new start stop).Perm
      (r.forEachInWindow old start stop ++ r.forEachInWindow new start stop)) ∧
    (r.rename old new).lastHeard new = max (r.lastHeard old) (r.lastHeard new) := by
  rw [lastHeard_rename r h]
  by_cases hnew : r.rings.lookup new = none
  · rw [if_pos hnew]
    constructor
    · intro start stop
      rw [voice_rename r h, if_neg (Ne.symm h), if_pos rfl, if_pos hnew,
        voice_of_no_ring r hnew, List.append_nil]
    · unfold lastHeard
      rw [lastAudible_of_no_ring r hnew, max_eq_right (bot_le : ⊥ ≤ r.saidAt new), max_assoc]
  · have hold := hrings.resolve_right hnew
    rw [if_neg hnew]
    constructor
    · intro start stop
      rw [voice_rename r h, if_neg (Ne.symm h), if_pos rfl, if_neg hnew, voice_of_no_ring r hold,
        List.nil_append]
    · unfold lastHeard
      rw [lastAudible_of_no_ring r hold, max_dropped_iff]
      exact bot_le

/-- Of two voices the one under the old name is dropped: that merges them exactly if it had
nothing to show. -/
theorem merged_of_rings (h : old ≠ new) (hnew : r.rings.lookup new ≠ none) :
    ((∀ start stop, ((r.rename old new).forEachInWindow new start stop).Perm
      (r.forEachInWindow old start stop ++ r.forEachInWindow new start stop)) ↔
        r.forEachInWindow old ⊥ ⊤ = []) ∧
    ((r.rename old new).lastHeard new = max (r.lastHeard old) (r.lastHeard new) ↔
      r.lastAudible old ≤ max (r.lastHeard new) (r.saidAt old)) := by
  rw [lastHeard_rename r h, if_neg hnew]
  refine ⟨?_, max_dropped_iff _ _ _ _⟩
  have hvoice (start stop : Bound) : (r.rename old new).forEachInWindow new start stop =
      r.forEachInWindow new start stop := by
    rw [voice_rename r h, if_neg (Ne.symm h), if_pos rfl, if_neg hnew]
  constructor
  · intro hperm
    have hlen := (hperm ⊥ ⊤).length_eq
    rw [hvoice, List.length_append] at hlen
    exact List.eq_nil_of_length_eq_zero (by omega)
  · intro hnil start stop
    rw [hvoice, voice_eq_nil r hnil, List.nil_append]

/-- What a rename always does right: the lines, the old name, and the others. -/
theorem merged_rename_of (h : old ≠ new)
    (hvoices : ∀ start stop, ((r.rename old new).forEachInWindow new start stop).Perm
      (r.forEachInWindow old start stop ++ r.forEachInWindow new start stop))
    (hheard : (r.rename old new).lastHeard new = max (r.lastHeard old) (r.lastHeard new)) :
    Merged r (r.rename old new) old new where
  voices := hvoices
  heard := hheard
  lines start stop := by rw [linesOf_rename r h, if_neg (Ne.symm h), if_pos rfl]
  gone := by
    refine ⟨fun start stop => ?_, fun start stop => ?_, ?_⟩
    · rw [voice_rename r h, if_pos rfl]
    · rw [linesOf_rename r h, if_pos rfl]
    · unfold lastHeard
      rw [lastAudible_rename r h, saidAt_rename r h, if_pos rfl, if_pos rfl, max_self]
  others name hold hnew := by
    refine ⟨fun start stop => ?_, fun start stop => ?_, ?_⟩
    · rw [voice_rename r h, if_neg hold, if_neg hnew]
    · rw [linesOf_rename r h, if_neg hold, if_neg hnew]
    · unfold lastHeard
      rw [lastAudible_rename r h, saidAt_rename r h, if_neg hold, if_neg hnew, if_neg hold,
        if_neg hnew]

/-- **A rename merges what two names have**, unless both have a voice: then exactly if the one
under the old name has nothing in the history, and was not heard after all else that was heard or
read of the two. -/
theorem merged_rename_iff (h : old ≠ new) : Merged r (r.rename old new) old new ↔
    (old ∈ r.rings → new ∈ r.rings → r.forEachInWindow old ⊥ ⊤ = [] ∧
      r.lastAudible old ≤ max (r.lastHeard new) (r.saidAt old)) := by
  by_cases hrings : r.rings.lookup old = none ∨ r.rings.lookup new = none
  · obtain ⟨hvoices, hheard⟩ := merged_of_no_ring r h hrings
    refine ⟨fun _ hold hnew => ?_, fun _ => merged_rename_of r h hvoices hheard⟩
    rcases hrings with hnone | hnone
    · exact absurd hold ((Table.notMem_iff_lookup _ _).2 hnone)
    · exact absurd hnew ((Table.notMem_iff_lookup _ _).2 hnone)
  · obtain ⟨hold, hnew⟩ := not_or.1 hrings
    obtain ⟨hvoices, hheard⟩ := merged_of_rings r h hnew
    have hin {name : String} (hring : r.rings.lookup name ≠ none) : name ∈ r.rings := by
      by_contra hnot
      exact hring ((Table.notMem_iff_lookup _ _).1 hnot)
    constructor
    · intro hmerged _ _
      exact ⟨hvoices.1 hmerged.voices, hheard.1 hmerged.heard⟩
    · intro hcond
      obtain ⟨hnil, hle⟩ := hcond (hin hold) (hin hnew)
      exact merged_rename_of r h (hvoices.2 hnil) (hheard.2 hle)

end ScoreRecorder

/-- Two peers, the second of which was heard when all of the first was out of the history. -/
def longAgo : List ScoreEntry := [.record "a" 1 0, .record "b" 1 121]

theorem accepted_longAgo :
    accepted "a" longAgo = [.of 0 1 ⊥] ∧ accepted "b" longAgo = [.of 121 1 ⊥] := by
  have haudible : scoreAudible ≤ 1 := by decide
  constructor <;> simp [accepted, accept, longAgo, haudible, lastOf, elapsed]

theorem newestSeen_longAgo : newestSeen longAgo = ((121 : ℚ) : WithBot ℚ) := by
  simp only [newestSeen, longAgo, List.foldl_cons, List.foldl_nil, ScoreEntry.seen,
    max_eq_right (bot_le : ⊥ ≤ ((0 : ℚ) : WithBot ℚ))]
  exact max_eq_right (WithBot.coe_le_coe.2 (by norm_num))

/-- A name that was heard long ago takes one that has just been heard: both have a voice, and
nothing is lost. -/
theorem merged_rename_iff_longAgo :
    let r := longAgo.foldl ScoreRecorder.enter .new
    "a" ∈ r.rings ∧ "b" ∈ r.rings ∧ r.Merged (r.rename "a" "b") "a" "b" := by
  intro r
  obtain ⟨ha, hb⟩ := accepted_longAgo
  have hlastA : r.lastAudible "a" = ((0 : ℚ) : WithBot ℚ) := by
    rw [(ScoreRecorder.follows_entries "a" longAgo).2, ha]
    rfl
  have hlastB : r.lastAudible "b" = ((121 : ℚ) : WithBot ℚ) := by
    rw [(ScoreRecorder.follows_entries "b" longAgo).2, hb]
    rfl
  have hring : ∀ (name : String) (t : ℚ), r.lastAudible name = (t : WithBot ℚ) →
      name ∈ r.rings := by
    intro name t hlast
    by_contra hnot
    rw [ScoreRecorder.lastAudible_of_no_ring _ ((Table.notMem_iff_lookup _ _).1 hnot)] at hlast
    cases hlast
  have hvoice : r.forEachInWindow "a" ⊥ ⊤ = [] := by
    have hout : ScoreRecorder.inWindow (121 : ℚ) ⊥ ⊤ (Sample.of 0 1 ⊥).t ≠ true := by
      rw [Ne, ScoreRecorder.inWindow_iff]
      rintro ⟨-, hlate, -⟩
      have hone : (121 : ℚ) - 120 ≤ 0 := hlate
      norm_num at hone
    rw [forEachInWindow_entries, ha, newestSeen_longAgo,
      List.take_of_length_le (by simp [scoreRing_eq]), within, List.filter_cons, if_neg hout]
    rfl
  have hheard : r.lastAudible "a" ≤ max (r.lastHeard "b") (r.saidAt "a") := by
    refine le_max_of_le_left (le_max_of_le_left ?_)
    rw [hlastA, hlastB]
    exact WithBot.coe_le_coe.2 (by norm_num)
  refine ⟨hring "a" 0 hlastA, hring "b" 121 hlastB, ?_⟩
  exact (ScoreRecorder.merged_rename_iff r (by decide)).2 fun _ _ => ⟨hvoice, hheard⟩

/-- Two peers that have been heard a second apart. -/
def bothHeard : List ScoreEntry := [.record "a" 1 0, .record "b" 1 1]

theorem voice_bothHeard {name : String} (h : name = "a" ∨ name = "b") :
    (bothHeard.foldl ScoreRecorder.enter .new).forEachInWindow name ⊥ ⊤ ≠ [] := by
  have haudible : scoreAudible ≤ 1 := by decide
  have hnewest : newestSeen bothHeard = ((1 : ℚ) : WithBot ℚ) := by
    simp only [newestSeen, bothHeard, List.foldl_cons, List.foldl_nil, ScoreEntry.seen,
      max_eq_right (bot_le : ⊥ ≤ ((0 : ℚ) : WithBot ℚ))]
    exact max_eq_right (WithBot.coe_le_coe.2 zero_le_one)
  obtain ⟨t, ht, haccepted⟩ : ∃ t : ℚ, 0 ≤ t ∧ accepted name bothHeard = [.of t 1 ⊥] := by
    rcases h with rfl | rfl
    · exact ⟨0, le_refl _, by simp [accepted, accept, bothHeard, haudible, lastOf, elapsed]⟩
    · exact ⟨1, zero_le_one, by simp [accepted, accept, bothHeard, haudible, lastOf, elapsed]⟩
  have hin : ScoreRecorder.inWindow (1 : ℚ) ⊥ ⊤ (Sample.of t 1 ⊥).t = true := by
    refine ScoreRecorder.inWindow_iff.2 ⟨bot_le, ?_, le_top⟩
    show (1 : ℚ) - 120 ≤ t
    linarith
  rw [forEachInWindow_entries, haccepted, hnewest, List.take_of_length_le (by simp [scoreRing_eq]),
    within, List.filter_cons, if_pos hin]
  exact List.cons_ne_nil _ _

/-- The first takes the name of the second, and its voice is gone. -/
theorem voice_dropped :
    ¬ ScoreRecorder.Merged (bothHeard.foldl ScoreRecorder.enter .new)
      ((bothHeard.foldl ScoreRecorder.enter .new).rename "a" "b") "a" "b" := by
  intro hmerged
  have hring : (bothHeard.foldl ScoreRecorder.enter .new).rings.lookup "b" ≠ none := fun hnone =>
    voice_bothHeard (Or.inr rfl) (ScoreRecorder.voice_of_no_ring _ hnone _ _)
  have hvoices := (ScoreRecorder.merged_of_rings _ (by decide : "a" ≠ "b") hring).1
  exact voice_bothHeard (Or.inl rfl) (hvoices.1 hmerged.voices)

end Desktop
end TcVoice
