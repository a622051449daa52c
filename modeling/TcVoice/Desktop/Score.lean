import Mathlib.Algebra.Order.Field.Rat
import Mathlib.Data.List.DropRight
import TcVoice.Lib.Newest
import TcVoice.Lib.Ring
import TcVoice.Lib.Table

/-!
# The score

`ScoreRecorder` of `lib/score.ts` of the desktop: the conversation over time.  How loud each
voice was, and the chat lines, as far back as the history goes.  Times are exact, in seconds.

* `VoiceRing` — the ring of one voice, with `write`, and `newestFirst` for what it holds.
* `ScoreRecorder` — the rings by name, the chat lines, and when each name last wrote;
  `record`, `addLyric`, `rename`, `clear` and what is asked of them.
* `newestFirst_write` — **a ring holds the samples written last**, as many as it has slots.
-/

namespace TcVoice
namespace Desktop

open Newest

/-! ## Constants -/

/-- `SCORE_HISTORY_SECS`. -/
def scoreHistorySecs : ℕ := 120

/-- `SCORE_AUDIBLE`. -/
def scoreAudible : Float := 0.08

/-- `SCORE_ONSET_GAP`. -/
def scoreOnsetGap : ℚ := 0.6

/-- `SCORE_RECORD_HZ_MAX`. -/
def scoreRecordHzMax : ℕ := 8

/-- `SCORE_RING`: both are whole, so there is nothing to round. -/
def scoreRing : ℕ := scoreHistorySecs * scoreRecordHzMax

/-- `SCORE_LYRICS_MAX`. -/
def scoreLyricsMax : ℕ := 240

/-- `MIN_STEP`. -/
def minStep : ℚ := 1 / (scoreRecordHzMax : ℚ)

/-! ## One voice -/

/-- What the arrays of a ring have at one index. -/
structure Sample where
  t : ℚ
  level : Float32
  onset : Bool

/-- `Ring`, with `-Infinity` at the bottom of the times. -/
structure VoiceRing where
  samples : Vector Sample scoreRing
  head : ℕ
  size : ℕ
  lastAudible : WithBot ℚ
  head_lt : head < scoreRing
  size_le : size ≤ scoreRing

/-- The difference of two times, the second of which may be `-Infinity`. -/
def elapsed (t : ℚ) : WithBot ℚ → WithTop ℚ
  | ⊥ => ⊤
  | (last : ℚ) => ((t - last : ℚ) : WithTop ℚ)

/-- What `record` stores of a level, with the last audible time before it. -/
def Sample.of (t : ℚ) (level : Float) (last : WithBot ℚ) : Sample where
  t := t
  level := (if level < 1 then level else 1).toFloat32
  onset := decide ((scoreOnsetGap : ℚ) < elapsed t last)

theorem scoreRing_eq : scoreRing = 960 := rfl

namespace VoiceRing

/-- `new Ring()`. -/
def new : VoiceRing where
  samples := Vector.replicate _ ⟨0, 0, false⟩
  head := 0
  size := 0
  lastAudible := ⊥
  head_lt := by decide
  size_le := Nat.zero_le _

/-- The end of `record`: a sample goes to the head. -/
def write (ring : VoiceRing) (sample : Sample) : VoiceRing where
  samples := ring.samples.set ring.head sample ring.head_lt
  head := (ring.head + 1) % scoreRing
  size := if ring.size < scoreRing then ring.size + 1 else ring.size
  lastAudible := sample.t
  head_lt := Nat.mod_lt _ (by decide)
  size_le := by
    have := ring.size_le
    split <;> omega

/-- The sample that is `k` before the head. -/
def back (ring : VoiceRing) (k : ℕ) : Sample :=
  have : (ring.head + scoreRing - k) % scoreRing < scoreRing := Nat.mod_lt _ (by decide)
  ring.samples[(ring.head + scoreRing - k) % scoreRing]

/-- The samples in the order in which `forEachInWindow` looks at them. -/
def newestFirst (ring : VoiceRing) : List Sample :=
  (List.range ring.size).map fun k => ring.back (k + 1)

/-- The ring by where its oldest sample is. -/
def toRing (ring : VoiceRing) : Ring Sample scoreRing where
  slots := ring.samples
  start := (ring.head + scoreRing - ring.size) % scoreRing
  len := ring.size
  start_lt := Nat.mod_lt _ (by decide)
  len_le := ring.size_le

variable (ring : VoiceRing) (sample : Sample)

theorem toRing_write : (ring.write sample).toRing = ring.toRing.push sample := by
  have hhead := ring.head_lt
  have hsize := ring.size_le
  rw [scoreRing_eq] at hhead hsize
  have hslot : ring.toRing.index ring.toRing.len = ring.head := by
    show ((ring.head + scoreRing - ring.size) % scoreRing + ring.size) % scoreRing = ring.head
    rw [scoreRing_eq]
    omega
  have hstart : ((ring.head + 1) % scoreRing + scoreRing -
      if ring.size < scoreRing then ring.size + 1 else ring.size) % scoreRing =
        if ring.size = scoreRing then (ring.toRing.start + 1) % scoreRing
        else ring.toRing.start := by
    show _ = if ring.size = scoreRing
      then ((ring.head + scoreRing - ring.size) % scoreRing + 1) % scoreRing
      else (ring.head + scoreRing - ring.size) % scoreRing
    rw [scoreRing_eq]
    split <;> split <;> omega
  unfold Ring.push
  simp only [hslot]
  by_cases hfull : ring.toRing.len = scoreRing
  · have hlen : ring.size = scoreRing := hfull
    rw [dif_pos hfull]
    simp only [toRing, write, Ring.mk.injEq, true_and]
    rw [if_pos hlen] at hstart
    refine ⟨hstart, ?_⟩
    rw [if_neg (by omega)]
  · have hlen : ring.size ≠ scoreRing := hfull
    rw [dif_neg hfull]
    simp only [toRing, write, Ring.mk.injEq, true_and]
    rw [if_neg hlen] at hstart
    refine ⟨hstart, ?_⟩
    rw [if_pos (by rw [scoreRing_eq] at hlen ⊢; omega)]

theorem newestFirst_eq : ring.newestFirst = ring.toRing.toList.reverse := by
  have hhead := ring.head_lt
  have hsize := ring.size_le
  apply List.ext_getElem
  · simp [newestFirst, toRing]
  · intro k hk _
    have hk : k < ring.size := by simpa [newestFirst] using hk
    simp only [newestFirst, List.getElem_map, List.getElem_range, List.getElem_reverse,
      Ring.toList, List.length_map, List.length_range, Ring.get, back]
    congr 1
    show _ = ((ring.head + scoreRing - ring.size) % scoreRing + (ring.size - 1 - k)) % scoreRing
    rw [scoreRing_eq] at *
    omega

/-- **A ring holds the samples written last**, as many as it has slots. -/
theorem newestFirst_write :
    (ring.write sample).newestFirst = (sample :: ring.newestFirst).take scoreRing := by
  rw [newestFirst_eq, newestFirst_eq, toRing_write, Ring.toList_push,
    List.rtake_eq_reverse_take_reverse, List.reverse_reverse, List.reverse_append]
  rfl

end VoiceRing

/-! ## The recorder -/

/-- `Lyric`. -/
structure Lyric where
  who : String
  said : String
  t : ℚ

/-- `ScoreRecorder`. -/
structure ScoreRecorder where
  rings : Table String VoiceRing
  /-- Oldest first. -/
  lyrics : List Lyric
  said : Table String ℚ
  latest : WithBot ℚ
  oldest : WithTop ℚ

/-- A number that says from when or until when: a time, or one of the infinities. -/
abbrev Bound := WithBot (WithTop ℚ)

/-- A time as a bound. -/
def Bound.at (t : ℚ) : Bound := ((t : WithTop ℚ) : Bound)

namespace ScoreRecorder

/-- `new ScoreRecorder()`. -/
def new : ScoreRecorder := ⟨∅, [], ∅, ⊥, ⊤⟩

/-- `clear`. -/
def clear (_ : ScoreRecorder) : ScoreRecorder := new

/-- Where the history begins. -/
def historyStart (latest : WithBot ℚ) : WithBot ℚ := latest.map (· - (scoreHistorySecs : ℚ))

/-- A time has been seen. -/
def see (r : ScoreRecorder) (t : ℚ) : ScoreRecorder :=
  { r with latest := if r.latest < t then t else r.latest }

/-- `record`. -/
def record (r : ScoreRecorder) (name : String) (level : Float) (t : ℚ) : ScoreRecorder :=
  let r := r.see t
  if !decide (scoreAudible ≤ level) then r
  else
    -- The ring that is there, or a new one.
    let ring := (r.rings.lookup name).getD .new
    let r := { r with rings := r.rings.insert name ring }
    -- Out of order, or faster than the ring was sized for.
    if elapsed t ring.lastAudible < (minStep : ℚ) then r
    else
      { r with
        rings := r.rings.insert name (ring.write (.of t level ring.lastAudible))
        oldest := if (t : WithTop ℚ) < r.oldest then t else r.oldest }

/-- The later of a bound and the start of the history. -/
def lo (r : ScoreRecorder) (start : Bound) : Bound := max start ((historyStart r.latest).map (↑))

/-- Within a window and the history. -/
def inWindow (latest : WithBot ℚ) (start stop : Bound) (t : ℚ) : Bool :=
  decide (max start ((historyStart latest).map (↑)) ≤ .at t) && decide (.at t ≤ stop)

/-- `forEachInWindow`: the samples visited. -/
def forEachInWindow (r : ScoreRecorder) (name : String) (start stop : Bound) : List Sample :=
  match r.rings.lookup name with
  | none => []
  | some ring =>
    visitBack (fun s => decide (.at s.t < r.lo start)) (fun s => decide (stop < .at s.t))
      ring.newestFirst

/-- `lastAudible`. -/
def lastAudible (r : ScoreRecorder) (name : String) : WithBot ℚ :=
  match r.rings.lookup name with
  | none => ⊥
  | some ring => ring.lastAudible

/-- When a name last wrote, or `-Infinity`. -/
def saidAt (r : ScoreRecorder) (name : String) : WithBot ℚ :=
  match r.said.lookup name with
  | none => ⊥
  | some t => t

/-- `lastHeard`. -/
def lastHeard (r : ScoreRecorder) (name : String) : WithBot ℚ :=
  max (r.lastAudible name) (r.saidAt name)

/-- `since`. -/
def since (r : ScoreRecorder) : Bound :=
  if r.oldest = ⊤ then ⊤ else max (r.oldest : Bound) ((historyStart r.latest).map (↑))

/-- `rename`. -/
def rename (r : ScoreRecorder) (old new : String) : ScoreRecorder :=
  if old = new then r
  else
    let rings :=
      match r.rings.lookup old with
      | none => r.rings
      | some ring =>
        let rings := r.rings.erase old
        match rings.lookup new with
        | none => rings.insert new ring
        | some _ => rings
    let lyrics := r.lyrics.map fun l => if l.who = old then { l with who := new } else l
    let said :=
      match r.said.lookup old with
      | none => r.said
      | some t =>
        let said := r.said.erase old
        match said.lookup new with
        | none => said.insert new t
        | some t' => said.insert new (max t t')
    { r with rings, lyrics, said }

/-- `addLyric`. -/
def addLyric (r : ScoreRecorder) (who said : String) (t now : ℚ) : ScoreRecorder :=
  let r := r.see now
  let cut := historyStart r.latest
  if (t : WithBot ℚ) < cut then r
  else
    -- The line goes behind the last one that is not later.
    let list := r.lyrics.rdropWhile (fun l => t < l.t) ++
      ⟨who, said, t⟩ :: r.lyrics.rtakeWhile (fun l => t < l.t)
    let drop := (list.takeWhile fun l => decide ((l.t : WithBot ℚ) < cut)).length
    let drop := max drop (list.length - scoreLyricsMax)
    { r with
      lyrics := list.drop drop
      oldest := if (t : WithTop ℚ) < r.oldest then t else r.oldest
      said := if r.saidAt who < t then r.said.insert who t else r.said }

/-- `lyricsInWindow`: the lines visited. -/
def lyricsInWindow (r : ScoreRecorder) (start stop : Bound) : List Lyric :=
  visitBack (fun l => decide (.at l.t < r.lo start)) (fun l => decide (stop < .at l.t))
    r.lyrics.reverse

/-! ## Windows -/

theorem at_le_at {s t : ℚ} : Bound.at s ≤ .at t ↔ s ≤ t := by
  unfold Bound.at
  rw [WithBot.coe_le_coe, WithTop.coe_le_coe]

theorem inWindow_iff {newest t : ℚ} {start stop : Bound} :
    inWindow newest start stop t = true ↔
      start ≤ .at t ∧ newest - scoreHistorySecs ≤ t ∧ .at t ≤ stop := by
  unfold inWindow
  rw [Bool.and_eq_true, decide_eq_true_iff, decide_eq_true_iff, max_le_iff, and_assoc]
  exact and_congr_right fun _ => and_congr_left fun _ => at_le_at

/-- Of a list with the latest in front a walk visits what is in the window. -/
theorem visitBack_window {α : Type} {time : α → ℚ} {l : List α} (r : ScoreRecorder)
    (h : l.Pairwise fun a b => time b ≤ time a) (start stop : Bound) :
    visitBack (fun x => decide (.at (time x) < r.lo start))
        (fun x => decide (stop < .at (time x))) l =
      l.filter fun x => inWindow r.latest start stop (time x) := by
  rw [visitBack_eq_filter]
  · apply List.filter_congr
    intro x _
    rw [← decide_not, ← decide_not]
    simp only [not_lt]
    rfl
  · refine h.imp fun {a b} hab hearly => ?_
    exact decide_eq_true ((at_le_at.2 hab).trans_lt (of_decide_eq_true hearly))

end ScoreRecorder
end Desktop
end TcVoice
