import TcVoice.Desktop.ScoreRename

/-!
# The chat lines of the score

What `addLyric` keeps of the lines that it is given, in any order and with renames in
between, and what `lyricsInWindow` visits of it.

* `LyricLog` — every line that was within the history when it came, under its name by now.
* `KeepsUp` — the list has the newest of them, as far back as the history went when the last line
  was kept.
* `keepsUp_calls` — **each call keeps up with that**: nothing is pruned that is missed later.
* `lyrics_kept` — sorted, bounded, and exactly the newest lines within the history.
* `lyrics_outlive` — a line that is not kept leaves the others as they are, too old or not.
-/

namespace TcVoice
namespace Desktop

open Newest
open ScoreRecorder (historyStart)

/-- A call that changes the score. -/
inductive ScoreCall where
  | entry (e : ScoreEntry)
  | rename (old new : String)

/-- A call, carried out. -/
def ScoreRecorder.call (r : ScoreRecorder) : ScoreCall → ScoreRecorder
  | .entry e => r.enter e
  | .rename old new => r.rename old new

/-- The lines that came while they were within the history, the latest to come in front, with
the newest time seen and the start of the history when the last of them came. -/
structure LyricLog where
  latest : WithBot ℚ
  cut : WithBot ℚ
  taken : List Lyric

namespace LyricLog

def empty : LyricLog := ⟨⊥, ⊥, []⟩

/-- One more call. -/
def call (s : LyricLog) : ScoreCall → LyricLog
  | .entry (.record _ _ t) => { s with latest := max s.latest t }
  | .entry (.addLyric who said t now) =>
    let latest := max s.latest now
    if historyStart latest ≤ t then ⟨latest, historyStart latest, ⟨who, said, t⟩ :: s.taken⟩
    else { s with latest }
  | .rename old new => { s with taken := s.taken.map (Lyric.rename old new) }

/-- The newest lines that were and still are within the history. -/
def newestLines (s : LyricLog) : List Lyric :=
  newest Lyric.t scoreLyricsMax (historyStart s.latest) s.taken

end LyricLog

/-! ## Each call -/

/-- The list of the recorder has the newest lines, as far back as the history went when the last
of them was kept. -/
structure KeepsUp (r : ScoreRecorder) (s : LyricLog) : Prop where
  latest : r.latest = s.latest
  lyrics : r.lyrics.reverse = newest Lyric.t scoreLyricsMax s.cut s.taken
  cut : s.cut ≤ historyStart s.latest

theorem historyStart_mono {a b : WithBot ℚ} (h : a ≤ b) : historyStart a ≤ historyStart b := by
  have hsub : Monotone fun t : ℚ => t - (scoreHistorySecs : ℚ) :=
    fun _ _ hab => sub_le_sub_right hab _
  exact hsub.withBot_map h

variable {r : ScoreRecorder} {s : LyricLog}

theorem lyrics_record (name : String) (level : Float) (t : ℚ) :
    (r.record name level t).lyrics = r.lyrics := by
  unfold ScoreRecorder.record
  dsimp only
  split
  · rfl
  split <;> rfl

/-- A line that is too old is not kept, and nothing else is done about the list. -/
theorem lyrics_addLyric_old {who said : String} {t now : ℚ}
    (ht : ¬ historyStart (max r.latest now) ≤ t) :
    (r.addLyric who said t now).lyrics = r.lyrics := by
  unfold ScoreRecorder.addLyric
  dsimp only
  rw [ScoreRecorder.latest_see, if_pos (not_le.1 ht)]
  rfl

/-- A line that is within the history takes its place, and the list is pruned. -/
theorem lyrics_addLyric {who said : String} {t now : ℚ}
    (hsorted : r.lyrics.reverse.Pairwise (AsNew Lyric.t))
    (ht : historyStart (max r.latest now) ≤ t) :
    (r.addLyric who said t now).lyrics.reverse =
      ((put Lyric.t ⟨who, said, t⟩ r.lyrics.reverse).filter
        (since Lyric.t (historyStart (max r.latest now)))).take scoreLyricsMax := by
  have hplace := reverse_insert Lyric.t ⟨who, said, t⟩ r.lyrics
  rw [List.reverse_eq_iff] at hplace
  rw [← reverse_drop (pairwise_put hsorted)]
  unfold ScoreRecorder.addLyric
  dsimp only
  rw [ScoreRecorder.latest_see, if_neg (not_lt.2 ht)]
  dsimp only at hplace ⊢
  have hlyrics : (r.see now).lyrics = r.lyrics := rfl
  rw [hlyrics, hplace, List.length_reverse]

theorem KeepsUp.sorted (h : KeepsUp r s) : r.lyrics.reverse.Pairwise (AsNew Lyric.t) := by
  rw [h.lyrics]
  exact pairwise_newest

/-- **Each call keeps up**: nothing that it prunes is missed later. -/
theorem KeepsUp.call (h : KeepsUp r s) (c : ScoreCall) : KeepsUp (r.call c) (s.call c) := by
  cases c with
  | rename old new =>
    by_cases hname : old = new
    · subst hname
      show KeepsUp (r.rename old old) { s with taken := s.taken.map (Lyric.rename old old) }
      rw [Lyric.rename_self, List.map_id, ScoreRecorder.rename, if_pos rfl]
      exact h
    · refine ⟨?_, ?_, h.cut⟩
      · exact (ScoreRecorder.latest_rename r).trans h.latest
      · show (r.rename old new).lyrics.reverse = _
        rw [ScoreRecorder.lyrics_rename r hname, ← List.map_reverse, h.lyrics]
        exact (newest_map (Lyric.t_rename old new)).symm
  | entry e =>
    have hlatest := (r.latest_enter e).trans (congrArg (max · (e.seen : WithBot ℚ)) h.latest)
    have hlater : s.cut ≤ historyStart (max s.latest e.seen) :=
      h.cut.trans (historyStart_mono (le_max_left _ _))
    cases e with
    | record name level t =>
      refine ⟨hlatest, ?_, hlater⟩
      show (r.record name level t).lyrics.reverse = _
      rw [lyrics_record]
      exact h.lyrics
    | addLyric who said t now =>
      show KeepsUp (r.addLyric who said t now)
        (if historyStart (max s.latest now) ≤ t then _ else _)
      by_cases ht : historyStart (max s.latest now) ≤ t
      · have ht' := ht
        rw [← h.latest] at ht'
        rw [if_pos ht]
        refine ⟨hlatest, ?_, le_refl _⟩
        rw [lyrics_addLyric h.sorted ht', h.lyrics, h.latest]
        exact newest_cons hlater (decide_eq_true ht)
      · have ht' := ht
        rw [← h.latest] at ht'
        rw [if_neg ht]
        refine ⟨hlatest, ?_, hlater⟩
        rw [lyrics_addLyric_old ht']
        exact h.lyrics

theorem keepsUp_calls (calls : List ScoreCall) :
    KeepsUp (calls.foldl ScoreRecorder.call .new) (calls.foldl LyricLog.call .empty) := by
  suffices hrun : ∀ r s, KeepsUp r s →
      KeepsUp (calls.foldl ScoreRecorder.call r) (calls.foldl LyricLog.call s) from
    hrun _ _ ⟨rfl, rfl, bot_le⟩
  induction calls with
  | nil => exact fun _ _ h => h
  | cons c calls ih => exact fun r s h => ih _ _ (h.call c)

/-- A line that is kept says how far back the list goes. -/
theorem LyricLog.cut_of_addLyric {who said : String} {t now : ℚ}
    (ht : historyStart (s.call (.entry (.addLyric who said t now))).latest ≤ t) :
    (s.call (.entry (.addLyric who said t now))).cut =
      historyStart (s.call (.entry (.addLyric who said t now))).latest := by
  unfold LyricLog.call at ht ⊢
  dsimp only at ht ⊢
  split at ht
  · rename_i hkept
    rw [if_pos hkept]
  · rename_i hold
    exact absurd ht hold

/-! ## The list -/

/-- **The list is the newest lines.**  After any calls it is sorted, with lines of one time in
the order in which they came, and not too long; it has the newest lines that were within the
history when the last line was kept, so that what of it still is within the history are the
newest of these; and after a line that is kept it has just these.  What is visited is what is in
the window. -/
theorem lyrics_kept (calls : List ScoreCall) :
    let r := calls.foldl ScoreRecorder.call .new
    let s := calls.foldl LyricLog.call .empty
    r.lyrics.Pairwise (fun a b => a.t ≤ b.t) ∧
      (∀ t : ℚ, r.lyrics.reverse.filter (fun l => decide (l.t = t)) <+:
        s.taken.filter fun l => decide (l.t = t)) ∧
      r.lyrics.length ≤ scoreLyricsMax ∧
      r.lyrics.reverse = newest Lyric.t scoreLyricsMax s.cut s.taken ∧
      r.lyrics.reverse.filter (since Lyric.t (historyStart r.latest)) = s.newestLines ∧
      (∀ earlier who said (t now : ℚ), calls = earlier ++ [.entry (.addLyric who said t now)] →
        historyStart r.latest ≤ t → r.lyrics.reverse = s.newestLines) ∧
      ∀ start stop, r.lyricsInWindow start stop =
        r.lyrics.reverse.filter fun l => ScoreRecorder.inWindow r.latest start stop l.t := by
  intro r s
  have hkept : KeepsUp r s := keepsUp_calls calls
  have hlen : r.lyrics.reverse.length ≤ scoreLyricsMax := by
    rw [hkept.lyrics]
    exact length_newest
  rw [List.length_reverse] at hlen
  refine ⟨List.pairwise_reverse.1 hkept.sorted, ?_, hlen, hkept.lyrics, ?_, ?_,
    fun start stop => r.visitBack_window hkept.sorted start stop⟩
  · intro t
    rw [hkept.lyrics]
    exact filter_time_newest t
  · rw [hkept.lyrics, hkept.latest]
    exact filter_newest hkept.cut
  · rintro earlier who said t now rfl ht
    have hlast : s = (earlier.foldl LyricLog.call .empty).call
        (.entry (.addLyric who said t now)) := List.foldl_concat ..
    rw [hkept.latest, hlast] at ht
    have hcut := LyricLog.cut_of_addLyric ht
    rw [← hlast] at hcut
    rw [hkept.lyrics, hcut]
    rfl

/-- A line that is too old to be kept, when the one before it is too. -/
def tooLate : List ScoreCall :=
  [.entry (.addLyric "a" "hello" 0 0), .entry (.addLyric "b" "hi" 0 1000)]

/-- The first is still in the list. -/
theorem lyrics_outlive : (tooLate.foldl ScoreRecorder.call .new).lyrics.reverse ≠
    (tooLate.foldl LyricLog.call .empty).newestLines := by
  intro h
  have hlen := congrArg List.length h
  revert hlen
  decide +kernel

end Desktop
end TcVoice
