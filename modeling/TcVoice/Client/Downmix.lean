import TcVoice.Client.Capture
import Mathlib.Algebra.Order.Field.Basic
import Mathlib.Tactic.Linarith

/-!
# The capture downmix

`Downmix` of `crates/client/src/audio.rs`: what a device captures on several channels
becomes one, by the mean of the channels that carry signal.

* `Downmix`, `Downmix.push` — the envelope of each channel, which of them are counted, and
  what one callback of the device does.
* `Counted` — the divisor is the number of channels that are counted, and there is one.
* `counted_push` — no callback separates them, the early returns included.
* `mixed` — **every frame becomes the mean of its samples on the counted channels**, after
  any callbacks.
-/

namespace TcVoice
namespace Client

section Code

variable {F : Type} [F32 F] {channels : ℕ}

/-- `Downmix`. -/
structure Downmix (F : Type) (channels : ℕ) where
  energy : Vector F channels
  sums : Vector F channels
  carries : Vector Bool channels
  active : ℕ
  measured : Bool

namespace Downmix

/-- `DOWNMIX_SMOOTHING`. -/
def smoothing : F := 0.05

/-- `DOWNMIX_SILENCE_FLOOR`. -/
def silenceFloor : F := 1.0e-5

/-- `DOWNMIX_ACTIVE_RATIO`. -/
def activeRatio : F := 0.03

/-- `Downmix::new`. -/
def new (channels : ℕ) : Downmix F channels where
  energy := Vector.replicate _ 0
  sums := Vector.replicate _ 0
  carries := Vector.replicate _ true
  active := max channels 1
  measured := false

/-- `chunks_exact`: the complete frames of interleaved samples. -/
def chunksExact (channels : ℕ) (data : List F) : List (Vector F channels) :=
  List.ofFn fun k : Fin (data.length / channels) => Vector.ofFn fun i : Fin channels =>
    have hframe : (k + 1) * channels ≤ data.length :=
      (Nat.mul_le_mul_right _ k.2).trans (Nat.div_mul_le_self _ _)
    have : k * channels + i < data.length := by
      rw [Nat.succ_mul] at hframe
      omega
    data[k * channels + i]

/-- What the loop over a frame makes of it. -/
def mixFrame (carries : Vector Bool channels) (inv : F) (chunk : Vector F channels) : F :=
  ((chunk.toList.zip carries.toList).foldl (fun sum s => if s.2 then sum + s.1 else sum) 0) * inv

/-- The magnitudes of a frame on top of those of the frames before it. -/
def addMagnitudes (sums chunk : Vector F channels) : Vector F channels :=
  sums.zipWith (fun s x => s + F32.abs x) chunk

/-- `f32::max`, of a number and anything. -/
def max32 (a b : F) : F := if a < b then b else a

/-- `Downmix::push`: the samples go to the back of `out`. -/
def push (d : Downmix F channels) (data out : List F) :
    Downmix F channels × List F × Option ℕ :=
  if channels ≤ 1 then (d, out ++ data, none)
  else
    let inv : F := 1 / (d.active : F)
    let chunks := chunksExact channels data
    let sums := chunks.foldl addMagnitudes (d.sums.map fun _ => 0)
    let out := out ++ chunks.map (mixFrame d.carries inv)
    if chunks.length = 0 then ({ d with sums }, out, none)
    else
      let n := (chunks.length : F)
      let energy := d.energy.zipWith (fun e s => e + (s / n - e) * smoothing) sums
      let loudest := energy.toList.foldl max32 0
      -- In silence the decision on the channels stays as it is.
      if loudest < silenceFloor then ({ d with sums, energy }, out, none)
      else
        let floor := loudest * activeRatio
        let carries := energy.map fun e => decide (floor ≤ e)
        let active := max (carries.toList.count true) 1
        let changed := decide (active ≠ d.active)
        let measured := if !d.measured || changed then true else d.measured
        ({ energy, sums, carries, active, measured }, out, if changed then some active else none)

/-- What a stream of callbacks leaves, from a queue that is drained in between. -/
def pushAll (d : Downmix F channels) (callbacks : List (List F)) : Downmix F channels :=
  callbacks.foldl (fun d data => (d.push data []).1) d

/-! ## What the decisions rest on -/

/-- The divisor is the number of the channels that are counted, and there is one. -/
structure Counted (d : Downmix F channels) : Prop where
  active : d.active = d.carries.toList.count true
  pos : 1 ≤ d.active

theorem counted_new (hpos : 0 < channels) : (new channels : Downmix F channels).Counted where
  active := by
    simp only [new, Vector.toList_replicate, List.count_replicate_self]
    omega
  pos := Nat.le_max_right _ _

end Downmix

end Code

namespace Downmix

variable {F : Type} {channels : ℕ}

/-- The samples of a frame on the channels that are counted. -/
def carried (carries : Vector Bool channels) (chunk : Vector F channels) : List F :=
  ((chunk.toList.zip carries.toList).filter Prod.snd).map Prod.fst

theorem length_carried (carries : Vector Bool channels) (chunk : Vector F channels) :
    (carried carries chunk).length = carries.toList.count true := by
  have hzip (samples : List F) (flags : List Bool) (hlen : samples.length = flags.length) :
      ((samples.zip flags).filter Prod.snd).length = flags.count true := by
    induction flags generalizing samples with
    | nil => simp
    | cons flag flags ih =>
      cases samples with
      | nil => cases hlen
      | cons s samples =>
        have hrest := ih samples (Nat.succ.inj hlen)
        cases flag with
        | true => simpa using hrest
        | false => simpa using hrest
  rw [carried, List.length_map, hzip _ _ (by simp)]

theorem mem_of_mem_carried {carries : Vector Bool channels} {chunk : Vector F channels}
    {s : F} (h : s ∈ carried carries chunk) : s ∈ chunk.toList := by
  obtain ⟨p, hp, rfl⟩ := List.mem_map.1 h
  exact (List.of_mem_zip (List.mem_filter.1 hp).1).1

theorem length_chunksExact (data : List F) :
    (chunksExact channels data).length = data.length / channels := List.length_ofFn

/-! ## Exact samples -/

/-- The mean of some samples. -/
def mean (samples : List ℚ) : ℚ := samples.sum / samples.length

/-- A mean is no further from zero than some of its samples. -/
theorem abs_mean_le {samples : List ℚ} (hne : samples ≠ []) :
    ∃ s ∈ samples, |mean samples| ≤ |s| := by
  have hloudest : ∃ s ∈ samples, ∀ t ∈ samples, |t| ≤ |s| := by
    induction samples with
    | nil => exact absurd rfl hne
    | cons s samples ih =>
      rcases eq_or_ne samples [] with rfl | hrest
      · exact ⟨s, by simp, by simp⟩
      · obtain ⟨m, hm, hmax⟩ := ih hrest
        rcases le_total |s| |m| with hle | hle
        · refine ⟨m, List.mem_cons_of_mem _ hm, ?_⟩
          simpa [hle] using hmax
        · refine ⟨s, List.mem_cons_self, ?_⟩
          simpa using fun t ht => (hmax t ht).trans hle
  obtain ⟨s, hs, hmax⟩ := hloudest
  have hlen : (0 : ℚ) < samples.length := Nat.cast_pos.2 (List.length_pos_of_ne_nil hne)
  have hsum : |samples.sum| ≤ samples.length * |s| := by
    clear hs hlen hne
    induction samples with
    | nil => simp
    | cons t samples ih =>
      obtain ⟨ht, hrest⟩ := List.forall_mem_cons.1 hmax
      have hadd := abs_add_le t samples.sum
      have := ih hrest
      push_cast [List.sum_cons, List.length_cons]
      linarith
  refine ⟨s, hs, ?_⟩
  rw [mean, abs_div, abs_of_pos hlen, div_le_iff₀ hlen, mul_comm]
  exact hsum

/-- One channel is counted, and what is captured on it stays as it is. -/
theorem carried_one {d : Downmix ℚ 1} (h : d.Counted) (data : List ℚ) :
    (chunksExact 1 data).map (fun frame => mean (carried d.carries frame)) = data := by
  have hcarries : d.carries.toList = [true] := by
    obtain ⟨flag, hflag⟩ := List.length_eq_one_iff.1 (@Vector.length_toList _ _ d.carries)
    have hone := h.active ▸ h.pos
    rw [hflag] at hone ⊢
    cases flag with
    | true => rfl
    | false => cases hone
  have hmean (frame : Vector ℚ 1) : mean (carried d.carries frame) = frame[0] := by
    have hframe : frame.toList = [frame[0]] := by
      apply List.ext_getElem
      · simp
      · intro i hi _
        obtain rfl : i = 0 := by simpa using hi
        simp
    simp [carried, hcarries, hframe, mean]
  apply List.ext_getElem
  · simp [chunksExact]
  · intro i hi _
    simp [chunksExact, hmean]

section Exact

variable [Curves] {d : Downmix ℚ channels}

theorem loudest_mem (es : List ℚ) : es.foldl max32 0 = 0 ∨ es.foldl max32 0 ∈ es := by
  induction es using List.reverseRecOn with
  | nil => exact Or.inl rfl
  | append_singleton es e ih =>
    rw [List.foldl_append]
    show max32 (es.foldl max32 0) e = 0 ∨ max32 (es.foldl max32 0) e ∈ es ++ [e]
    unfold max32
    split
    · exact Or.inr (by simp)
    · rcases ih with hzero | hmem
      · exact Or.inl hzero
      · exact Or.inr (List.mem_append_left _ hmem)

/-- The loudest channel is counted, so one of them is. -/
theorem count_pos (energy : Vector ℚ channels)
    (hloud : ¬ energy.toList.foldl max32 0 < (silenceFloor : ℚ)) :
    1 ≤ (energy.map fun e =>
      decide (energy.toList.foldl max32 0 * activeRatio ≤ e)).toList.count true := by
  have hfloor : (0 : ℚ) < silenceFloor := by
    show (0 : ℚ) < 1.0e-5
    norm_num
  have hloudest : 0 < energy.toList.foldl max32 0 := hfloor.trans_le (not_lt.1 hloud)
  have hmem := (loudest_mem energy.toList).resolve_left (ne_of_gt hloudest)
  have hcounted : energy.toList.foldl max32 0 * activeRatio ≤ energy.toList.foldl max32 0 := by
    show energy.toList.foldl max32 0 * (0.03 : ℚ) ≤ _
    linarith
  rw [List.one_le_count_iff, Vector.toList_map, List.mem_map]
  exact ⟨_, hmem, decide_eq_true hcounted⟩

/-- No callback separates the divisor from the channels that are counted. -/
theorem Counted.push (h : d.Counted) (data out : List ℚ) : (d.push data out).1.Counted := by
  unfold Downmix.push
  split
  · exact h
  dsimp only
  split
  · exact ⟨h.active, h.pos⟩
  split
  · exact ⟨h.active, h.pos⟩
  · rename_i hloud
    exact ⟨max_eq_left (count_pos _ hloud), le_max_right _ _⟩

theorem counted_pushAll (hpos : 0 < channels) (callbacks : List (List ℚ)) :
    ((new channels).pushAll callbacks).Counted := by
  suffices hrun : ∀ d : Downmix ℚ channels, d.Counted → (d.pushAll callbacks).Counted from
    hrun _ (counted_new hpos)
  induction callbacks with
  | nil => exact fun _ h => h
  | cons data callbacks ih => exact fun d h => ih _ (h.push data [])

theorem mixFrame_eq (h : d.Counted) (chunk : Vector ℚ channels) :
    mixFrame d.carries (1 / (d.active : ℚ)) chunk = mean (carried d.carries chunk) := by
  have hsum (samples : List (ℚ × Bool)) (sum : ℚ) :
      samples.foldl (fun sum s => if s.2 then sum + s.1 else sum) sum =
        sum + ((samples.filter Prod.snd).map Prod.fst).sum := by
    induction samples generalizing sum with
    | nil => simp
    | cons s samples ih =>
      rw [List.foldl_cons, ih]
      by_cases hs : s.2 = true
      · simp [hs, add_assoc]
      · simp [hs]
  have htotal := (hsum (chunk.toList.zip d.carries.toList) 0).trans (zero_add _)
  show List.foldl _ (0 : ℚ) _ * (1 / (d.active : ℚ)) = _
  rw [mean, length_carried, ← h.active, mul_one_div]
  exact congrArg (· / (d.active : ℚ)) htotal

/-- **Every frame becomes the mean of its samples on the counted channels**, no further from
zero than one of them, after any callbacks; and as many are counted as the divisor says. -/
theorem mixed (hpos : 0 < channels) (callbacks : List (List ℚ)) (data out : List ℚ) :
    let d : Downmix ℚ channels := (new channels).pushAll callbacks
    d.active = d.carries.toList.count true ∧ 1 ≤ d.active ∧
      (d.push data out).2.1 =
        out ++ (chunksExact channels data).map (fun frame => mean (carried d.carries frame)) ∧
      (chunksExact channels data).length = data.length / channels ∧
      ∀ frame ∈ chunksExact channels data,
        ∃ s ∈ frame.toList, |mean (carried d.carries frame)| ≤ |s| := by
  intro d
  have hcounted : d.Counted := counted_pushAll hpos callbacks
  clear_value d
  refine ⟨hcounted.active, hcounted.pos, ?_, length_chunksExact data, ?_⟩
  · rcases Nat.lt_or_ge 1 channels with hmany | hone
    · have hmix : (chunksExact channels data).map (mixFrame d.carries (1 / (d.active : ℚ))) =
          (chunksExact channels data).map fun frame => mean (carried d.carries frame) :=
        List.map_congr_left fun chunk _ => mixFrame_eq hcounted chunk
      rw [← hmix]
      unfold push
      rw [if_neg (Nat.not_le.2 hmany)]
      dsimp only
      split
      · rfl
      split
      · rfl
      · rfl
    · obtain rfl : channels = 1 := Nat.le_antisymm hone hpos
      rw [carried_one hcounted]
      rfl
  · intro frame _
    have hlen := length_carried d.carries frame
    rw [← hcounted.active] at hlen
    have hne : carried d.carries frame ≠ [] := by
      intro hnil
      have hpos := hcounted.pos
      rw [← hlen, hnil] at hpos
      cases hpos
    obtain ⟨s, hs, hle⟩ := abs_mean_le hne
    exact ⟨s, mem_of_mem_carried hs, hle⟩

end Exact

/-- A microphone on the first of two channels. -/
theorem mixed_stereo :
    let _ : Curves := ⟨id, id⟩
    let d := (new 2 : Downmix ℚ 2).pushAll [[1, 0, 1, 0]]
    d.active = 1 ∧ d.active = d.carries.toList.count true ∧
      (d.push [1 / 2, 0, 1 / 4, 0] []).2.1 = [] ++
        (chunksExact 2 [1 / 2, 0, 1 / 4, 0]).map fun frame => mean (carried d.carries frame) := by
  intro curves d
  have h := mixed (by decide : 0 < 2) [[1, 0, 1, 0]] [1 / 2, 0, 1 / 4, 0] []
  refine ⟨?_, h.1, h.2.2.1⟩
  decide +kernel

end Downmix
end Client
end TcVoice
