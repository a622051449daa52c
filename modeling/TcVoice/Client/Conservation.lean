import TcVoice.Client.Playback
import TcVoice.Lib.Machines

/-!
# The samples of the output queue

What becomes of every sample that is put into the queue of the output callback.

* `PlaybackQueue.trimTo_spec`, `fill_spec` — what a trim and a callback leave, sample by sample.
* `Tallied`, `Tallied.step` — a queue with all that was ever put into it, and what became of it.
* `Carries` — a sample that is the one with a number, but for crossfades from earlier ones.
* `Tallied.conserved` — **each sample is delivered, dropped or still queued, in the order in which
  they came**, and a crossfade reads only what it has not written.
-/

namespace TcVoice
namespace Client

open Machines

variable {F : Type} [F32 F]

/-! ## A trim -/

namespace PlaybackQueue

theorem length_crossfade (excess f k : ℕ) (buf : List F) :
    ((List.range k).foldl (crossfadeAt excess f) buf).length = buf.length := by
  induction k with
  | zero => rfl
  | succ k ih =>
    rw [List.range_succ, List.foldl_append]
    exact List.length_set.trans ih

/-- The loop of a trim after `k` turns.  What it reads at turn `k` lies before all that it has
written, as it starts to write at the first sample that stays. -/
theorem getElem?_crossfade {excess f k : ℕ} (hk : k ≤ excess) (buf : List F) (j : ℕ) :
    ((List.range k).foldl (crossfadeAt excess f) buf)[j]? =
      if excess ≤ j ∧ j < excess + k then
        buf[j]?.map fun incoming =>
          buf.getD (j - excess) 0 * (1 - ramp (j - excess) f) + incoming * ramp (j - excess) f
      else buf[j]? := by
  induction k generalizing j with
  | zero => rw [if_neg (by omega)]; rfl
  | succ k ih =>
    have hread : ((List.range k).foldl (crossfadeAt excess f) buf).getD k 0 = buf.getD k 0 := by
      rw [List.getD_eq_getElem?_getD, List.getD_eq_getElem?_getD, ih (by omega), if_neg (by omega)]
    have hwritten : ((List.range k).foldl (crossfadeAt excess f) buf).getD (excess + k) 0 =
        buf.getD (excess + k) 0 := by
      rw [List.getD_eq_getElem?_getD, List.getD_eq_getElem?_getD, ih (by omega), if_neg (by omega)]
    rw [List.range_succ, List.foldl_append]
    show (List.set _ (excess + k) _)[j]? = _
    rw [List.getElem?_set, length_crossfade, hread, hwritten, ih (by omega)]
    by_cases hj : excess + k = j
    · subst hj
      have hin : excess ≤ excess + k ∧ excess + k < excess + (k + 1) := by omega
      rw [if_pos rfl, if_pos hin, Nat.add_sub_cancel_left]
      by_cases hlt : excess + k < buf.length
      · have hget : buf.getD (excess + k) 0 = buf[excess + k] := by
          rw [List.getD_eq_getElem?_getD, List.getElem?_eq_getElem hlt, Option.getD_some]
        rw [if_pos hlt, List.getElem?_eq_getElem hlt, hget]
        rfl
      · rw [if_neg hlt, List.getElem?_eq_none (not_lt.1 hlt)]
        rfl
    · rw [if_neg hj]
      by_cases hin : excess ≤ j ∧ j < excess + k
      · rw [if_pos hin, if_pos ⟨hin.1, by omega⟩]
      · rw [if_neg hin, if_neg (by omega)]

/-- **A trim**: the oldest are dropped down to the cap, and the first that stay are faded into
from the first that were there, which are all read before they are written. -/
theorem trimTo_spec (q : PlaybackQueue F) (cap : ℕ) :
    let excess := (q.trimTo cap).2
    let f := min (min q.fade excess) cap
    excess = q.len - cap ∧ (q.trimTo cap).1.len = min q.len cap ∧
      (q.trimTo cap).1.fade = q.fade ∧ (q.trimTo cap).1.silent = q.silent ∧
      ∀ i, (q.trimTo cap).1.buf[i]? =
        if i < f then
          q.buf[excess + i]?.map fun incoming =>
            q.buf.getD i 0 * (1 - ramp i f) + incoming * ramp i f
        else q.buf[excess + i]? := by
  unfold trimTo
  by_cases hle : q.len ≤ cap
  · simp only [if_pos hle]
    refine ⟨by omega, (min_eq_left hle).symm, trivial, trivial, fun i => ?_⟩
    rw [if_neg (by omega), Nat.zero_add]
  · simp only [if_neg hle]
    refine ⟨trivial, ?_, trivial, trivial, fun i => ?_⟩
    · unfold len
      rw [List.length_drop, length_crossfade]
      unfold len at hle
      omega
    · rw [List.getElem?_drop, getElem?_crossfade (by omega), Nat.add_sub_cancel_left]
      by_cases hin : i < min (min q.fade (q.len - cap)) cap
      · rw [if_pos hin, if_pos ⟨by omega, by omega⟩]
      · rw [if_neg hin, if_neg (by omega)]

/-- How many samples a callback takes out of a queue. -/
def available (q : PlaybackQueue F) (dataLen channels : ℕ) : ℕ :=
  min q.len (dataLen / max channels 1)

omit [F32 F] in
/-- Copies of each of some samples, in turn. -/
theorem getElem?_interleaved (channels : ℕ) (samples : List F) {i c : ℕ} (hc : c < channels) :
    (samples.flatMap (List.replicate channels))[i * channels + c]? = samples[i]? := by
  induction samples generalizing i with
  | nil => simp
  | cons s samples ih =>
    rw [List.flatMap_cons]
    cases i with
    | zero =>
      rw [Nat.zero_mul, Nat.zero_add, List.getElem?_append_left (by simpa using hc),
        List.getElem?_replicate, if_pos hc]
      rfl
    | succ i =>
      have hskip : (i + 1) * channels + c - channels = i * channels + c := by
        rw [Nat.succ_mul]
        omega
      have hlong : channels ≤ (i + 1) * channels + c := by
        rw [Nat.succ_mul]
        omega
      rw [List.getElem?_append_right (by simpa using hlong), List.length_replicate, hskip, ih]
      rfl

omit [F32 F] in
/-- A callback with some samples for every channel writes them all. -/
theorem length_written (channels : ℕ) (samples : List F) :
    ((if 1 < channels then samples.flatMap (List.replicate channels) else samples).take
      (samples.length * channels)).length = samples.length * channels := by
  rw [List.length_take, min_eq_left_iff]
  split
  · simp [List.length_flatMap]
  · exact (Nat.mul_le_mul_left _ (by omega)).trans_eq (Nat.mul_one _)

/-- Behind what a callback delivers there is silence. -/
theorem fill_silence (q : PlaybackQueue F) (dataLen channels : ℕ) {j : ℕ} (hj : j < dataLen)
    (hbehind : q.available dataLen channels * channels ≤ j) :
    (q.fill dataLen channels).2.1[j]? = some 0 := by
  let n := q.available dataLen channels
  let samples := (q.buf.take n).mapIdx (q.ramped (q.silent && decide (0 < n))
    (decide (n < dataLen / max channels 1) && decide (0 < n)) n)
  have hsamples : samples.length = n := by
    rw [List.length_mapIdx, List.length_take]
    exact min_eq_left (min_le_left _ _)
  have hwritten := length_written channels samples
  rw [hsamples] at hwritten
  have hdata : (q.fill dataLen channels).2.1 =
      (if 1 < channels then samples.flatMap (List.replicate channels) else samples).take
        (n * channels) ++ List.replicate (dataLen - n * channels) 0 := rfl
  rw [hdata, List.getElem?_append_right (hwritten.trans_le hbehind), hwritten,
    List.getElem?_replicate, if_pos]
  have hroom : n * channels ≤ j := hbehind
  omega

/-- **A callback**: the oldest samples leave the queue, in their order and in every channel, with
the ramps. -/
theorem fill_spec (q : PlaybackQueue F) (dataLen channels : ℕ) :
    let n := q.available dataLen channels
    (q.fill dataLen channels).1.buf = q.buf.drop n ∧
      (q.fill dataLen channels).1.fade = q.fade ∧
      ∀ i < n, ∀ c < channels, ∃ s, q.buf[i]? = some s ∧
        (q.fill dataLen channels).2.1[i * channels + c]? =
          some (q.ramped (q.silent && decide (0 < n))
            (decide (n < dataLen / max channels 1) && decide (0 < n)) n i s) := by
  intro n
  refine ⟨rfl, rfl, fun i hi c hc => ?_⟩
  have hlen : n ≤ q.buf.length := min_le_left _ _
  have hbuf : q.buf[i]? = some (q.buf.get ⟨i, hi.trans_le hlen⟩) :=
    List.getElem?_eq_getElem (hi.trans_le hlen)
  refine ⟨_, hbuf, ?_⟩
  have hplace : i * channels + c < n * channels := by
    have hnext : (i + 1) * channels ≤ n * channels := Nat.mul_le_mul_right _ hi
    rw [Nat.succ_mul] at hnext
    omega
  have hsamples : ∀ fadeIn fadeOut, ((q.buf.take n).mapIdx (q.ramped fadeIn fadeOut n))[i]? =
      some (q.ramped fadeIn fadeOut n i (q.buf.get ⟨i, hi.trans_le hlen⟩)) := by
    intro fadeIn fadeOut
    rw [List.getElem?_mapIdx, List.getElem?_take_of_lt hi, hbuf]
    rfl
  have hwritten : ∀ samples : List F,
      ((if 1 < channels then samples.flatMap (List.replicate channels) else samples).take
        (n * channels))[i * channels + c]? = samples[i]? := by
    intro samples
    rw [List.getElem?_take_of_lt hplace]
    split
    · exact getElem?_interleaved channels samples hc
    · have hone : channels = 1 := by omega
      have hzero : c = 0 := by omega
      rw [hone, Nat.mul_one, hzero, Nat.add_zero]
  have hthere := (hwritten _).trans (hsamples (q.silent && decide (0 < n))
    (decide (n < dataLen / max channels 1) && decide (0 < n)))
  exact (List.getElem?_append_left (List.getElem?_eq_some_iff.1 hthere).1).trans hthere

end PlaybackQueue

/-! ## What becomes of the samples -/

/-- A call of the queue. -/
inductive QueueCall (F : Type) where
  | extend (samples : List F)
  | trimTo (cap : ℕ)
  | fill (dataLen channels : ℕ)

/-- What becomes of a sample. -/
inductive SampleFate where
  | delivered
  | dropped
  deriving DecidableEq, Repr

/-- A queue, with all samples that were ever put into it, and what has become of those that have
left it, in the order in which they left. -/
structure Tallied (F : Type) where
  queue : PlaybackQueue F
  extended : List F
  fates : List SampleFate

/-- A sample that is the one with this number among those that were put into the queue, except for
crossfades: where so many were dropped as `excess`, and `f` of them faded out, the `i`-th of the
fade is crossfaded from the one that was `excess` before it. -/
inductive Carries (extended : List F) : ℕ → F → Prop where
  | whole {number : ℕ} {s : F} (h : extended[number]? = some s) : Carries extended number s
  | faded {number excess i f : ℕ} {outgoing s : F} (hi : i < f) (hf : f ≤ excess)
    (hout : Carries extended number outgoing) (h : Carries extended (number + excess) s) :
    Carries extended (number + excess)
      (outgoing * (1 - PlaybackQueue.ramp i f) + s * PlaybackQueue.ramp i f)

/-- What is put into the queue later changes nothing about a sample. -/
theorem Carries.append {extended : List F} {number : ℕ} {s : F} (h : Carries extended number s)
    (samples : List F) : Carries (extended ++ samples) number s := by
  induction h with
  | whole h => exact .whole (List.getElem?_append_left (List.getElem?_eq_some_iff.1 h).1 ▸ h)
  | faded hi hf _ _ ihout ih => exact .faded hi hf ihout ih

namespace Tallied

/-- Before the first call. -/
def new (deviceRate : ℕ) : Tallied F := ⟨.new deviceRate, [], []⟩

variable (t : Tallied F)

/-- One call, and the buffer that it has filled. -/
def step : QueueCall F → Tallied F × List F
  | .extend samples =>
    ({ t with queue := t.queue.extend samples, extended := t.extended ++ samples }, [])
  | .trimTo cap =>
    let (queue, dropped) := t.queue.trimTo cap
    ({ t with queue, fates := t.fates ++ .replicate dropped .dropped }, [])
  | .fill dataLen channels =>
    let delivered := t.queue.available dataLen channels
    let (queue, data, _) := t.queue.fill dataLen channels
    ({ t with queue, fates := t.fates ++ .replicate delivered .delivered }, data)

/-- Every sample has met its fate or is in the queue, and those in the queue are the last, in
their order. -/
structure Conserved (t : Tallied F) : Prop where
  count : t.fates.length + t.queue.len = t.extended.length
  carries : ∀ i s, t.queue.buf[i]? = some s → Carries t.extended (t.fates.length + i) s

/-- What is asked of a call: new samples go behind the others; a trim leaves the cap at most, the
first of them crossfaded with the oldest; and a callback takes the oldest out of the queue,
delivers them, each to all channels, and then silence. -/
def Handles (t : Tallied F) : QueueCall F → Prop
  | .extend samples => (t.queue.extend samples).buf = t.queue.buf ++ samples
  | .trimTo cap =>
    let excess := (t.queue.trimTo cap).2
    let f := min (min t.queue.fade excess) cap
    (t.queue.trimTo cap).1.len ≤ cap ∧
      ∀ i, (t.queue.trimTo cap).1.buf[i]? =
        if i < f then
          t.queue.buf[excess + i]?.map fun incoming =>
            t.queue.buf.getD i 0 * (1 - PlaybackQueue.ramp i f) +
              incoming * PlaybackQueue.ramp i f
        else t.queue.buf[excess + i]?
  | .fill dataLen channels =>
    let n := t.queue.available dataLen channels
    let data := (t.queue.fill dataLen channels).2.1
    (t.queue.fill dataLen channels).1.buf = t.queue.buf.drop n ∧
      (∀ i < n, ∀ c < channels, ∃ s, t.queue.buf[i]? = some s ∧
        Carries t.extended (t.fates.length + i) s ∧
        data[i * channels + c]? =
          some (t.queue.ramped (t.queue.silent && decide (0 < n))
            (decide (n < dataLen / max channels 1) && decide (0 < n)) n i s)) ∧
      ∀ j < dataLen, n * channels ≤ j → data[j]? = some 0

variable {t} {call : QueueCall F}

theorem conserved_new (deviceRate : ℕ) : (new deviceRate : Tallied F).Conserved :=
  ⟨rfl, fun i s h => by cases h⟩

/-- One call keeps every sample. -/
theorem Conserved.step (h : t.Conserved) (call : QueueCall F) : (t.step call).1.Conserved := by
  obtain ⟨hcount, hcarries⟩ := h
  cases call with
  | extend samples =>
    refine ⟨?_, fun i s hs => ?_⟩
    · show t.fates.length + (t.queue.extend samples).len = (t.extended ++ samples).length
      rw [PlaybackQueue.len_extend, List.length_append]
      omega
    · show Carries (t.extended ++ samples) (t.fates.length + i) s
      have hs' : (t.queue.buf ++ samples)[i]? = some s := hs
      by_cases hold : i < t.queue.buf.length
      · rw [List.getElem?_append_left hold] at hs'
        exact (hcarries i s hs').append samples
      · have hlen : t.queue.len = t.queue.buf.length := rfl
        have hplace : t.fates.length + i - t.extended.length = i - t.queue.buf.length := by omega
        rw [List.getElem?_append_right (not_lt.1 hold)] at hs'
        refine .whole ?_
        rw [List.getElem?_append_right (by omega), hplace]
        exact hs'
  | trimTo cap =>
    obtain ⟨hexcess, hlen, -, -, hbuf⟩ := t.queue.trimTo_spec cap
    have hfates : (t.fates ++ .replicate (t.queue.trimTo cap).2 .dropped).length =
        t.fates.length + (t.queue.trimTo cap).2 := by
      rw [List.length_append, List.length_replicate]
    refine ⟨?_, fun i s hs => ?_⟩
    · show (t.fates ++ .replicate (t.queue.trimTo cap).2 .dropped).length +
        (t.queue.trimTo cap).1.len = t.extended.length
      rw [hfates, hlen]
      omega
    · show Carries t.extended ((t.fates ++ .replicate (t.queue.trimTo cap).2 .dropped).length + i) s
      have hs' : (t.queue.trimTo cap).1.buf[i]? = some s := hs
      rw [hfates, Nat.add_assoc]
      rw [hbuf] at hs'
      split at hs'
      · rename_i hi
        obtain ⟨incoming, hincoming, rfl⟩ := Option.map_eq_some_iff.1 hs'
        have hin := (List.getElem?_eq_some_iff.1 hincoming).1
        obtain ⟨outgoing, hout⟩ : ∃ outgoing, t.queue.buf[i]? = some outgoing :=
          ⟨_, List.getElem?_eq_getElem (by omega)⟩
        have hnumber : t.fates.length + ((t.queue.trimTo cap).2 + i) =
            t.fates.length + i + (t.queue.trimTo cap).2 := by omega
        rw [List.getD_eq_getElem?_getD, hout, Option.getD_some, hnumber]
        refine .faded hi (by omega) (hcarries _ _ hout) ?_
        rw [← hnumber]
        exact hcarries _ _ hincoming
      · exact hcarries _ _ hs'
  | fill dataLen channels =>
    have hfates : (t.fates ++ .replicate (t.queue.available dataLen channels) .delivered).length =
        t.fates.length + t.queue.available dataLen channels := by
      rw [List.length_append, List.length_replicate]
    have hbuf := (t.queue.fill_spec dataLen channels).1
    refine ⟨?_, fun i s hs => ?_⟩
    · show (t.fates ++ .replicate (t.queue.available dataLen channels) .delivered).length +
        (t.queue.fill dataLen channels).1.len = t.extended.length
      have hle : t.queue.available dataLen channels ≤ t.queue.len := min_le_left _ _
      have hlen : t.queue.len = t.queue.buf.length := rfl
      rw [hfates, PlaybackQueue.len, hbuf, List.length_drop]
      omega
    · show Carries t.extended
        ((t.fates ++ .replicate (t.queue.available dataLen channels) .delivered).length + i) s
      have hs' : (t.queue.fill dataLen channels).1.buf[i]? = some s := hs
      rw [hbuf, List.getElem?_drop] at hs'
      rw [hfates, Nat.add_assoc]
      exact hcarries _ _ hs'

/-- One call deals with the samples as is asked of it. -/
theorem Conserved.handles (h : t.Conserved) (call : QueueCall F) : t.Handles call := by
  cases call with
  | extend samples => exact rfl
  | trimTo cap =>
    obtain ⟨-, hlen, -, -, hbuf⟩ := t.queue.trimTo_spec cap
    exact ⟨hlen.trans_le (min_le_right _ _), hbuf⟩
  | fill dataLen channels =>
    obtain ⟨hbuf, -, hdelivers⟩ := t.queue.fill_spec dataLen channels
    refine ⟨hbuf, fun i hi c hc => ?_, fun j hj => t.queue.fill_silence dataLen channels hj⟩
    obtain ⟨s, hs, hdata⟩ := hdelivers i hi c hc
    exact ⟨s, hs, h.carries i s hs, hdata⟩

theorem Conserved.along (h : t.Conserved) (calls : List (QueueCall F)) :
    Along Tallied.step Handles t calls ∧ (after Tallied.step t calls).Conserved := by
  induction calls generalizing t with
  | nil => exact ⟨trivial, h⟩
  | cons call calls ih =>
    obtain ⟨hrest, hafter⟩ := ih (h.step call)
    exact ⟨⟨h.handles call, hrest⟩, hafter⟩

/-- **No sample is lost, doubled or out of turn**: after any calls, those that have left the queue
and those in it are all that were put into it, the ones in it the last, in their order and except
for crossfades from earlier ones as they were; a callback takes the oldest out, delivers them to
every channel, with its ramps, and silence behind them; and a trim leaves the cap at most, where
the first samples are crossfaded from the oldest as they were before it and the others are
untouched. -/
theorem conserved (deviceRate : ℕ) (calls : List (QueueCall F)) :
    Along step Handles (new deviceRate) calls ∧ (after step (new deviceRate) calls).Conserved :=
  (conserved_new deviceRate).along calls

end Tallied
end Client
end TcVoice
