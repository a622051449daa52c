import TcVoice.Client.Downmix
import TcVoice.Client.Playback
import TcVoice.Lib.Blocks
import TcVoice.Lib.Runs
import Mathlib.Data.Rat.Floor
import Mathlib.Tactic.Ring

/-!
# The input callback

What stands between the input device and the capture loop, in `start_capture` of
`crates/client/src/audio.rs`: the samples of a callback become one channel, wait until there are
20 ms of them, are brought to the rate of the encoder, and go into the ring that the capture loop
takes its frames from.

* `deviceFrameSize`, `Resampling`, `resampleInto` — 20 ms at the rate of the device, and the three
  ways from there to the rate of the encoder.
* `Microphone`, `receive`, `block`, `popFrame` — the two halves of a callback of the device, and
  what the capture loop takes.
* `Recording.step` — the steps of the two threads, which share the ring, in any order.
* `Recording.captured` — **what is captured does not depend on how the device cuts it into
  callbacks, comes in order, and what there is no room for is counted**.
* `resampleInto_within` — the linear way makes up no sample that is louder than those around it.
-/

namespace TcVoice
namespace Client

open Runs

variable {F R : Type} {channels : ℕ}

/-- `device_frame_size`: how many samples of the device are 20 ms, rounded. -/
def deviceFrameSize (deviceRate : ℕ) : ℕ :=
  (2 * (deviceRate * Config.frameSize) + Config.sampleRate) / (2 * Config.sampleRate)

theorem deviceFrameSize_pos {deviceRate : ℕ} (h : 25 ≤ deviceRate) :
    0 < deviceFrameSize deviceRate := by
  unfold deviceFrameSize Config.frameSize Config.sampleRate
  omega

/-- The way to the rate of the encoder: the sinc resampler with what it remembers, the linear one,
or none, where the device has that rate. -/
inductive Resampling (R : Type) where
  | sinc (inner : R)
  | linear
  | direct

namespace Resampling

/-- What the callback does to a chunk; `process` is that of the sinc resampler. -/
def apply (process : R → List F → R × List F) (linear : List F → List F) :
    Resampling R → List F → Resampling R × List F
  | .sinc inner, chunk =>
    let (inner, samples) := process inner chunk
    (.sinc inner, samples)
  | .linear, chunk => (.linear, linear chunk)
  | .direct, chunk => (.direct, chunk)

/-- What comes of a chunk, behind what came of those before. -/
def addChunk (process : R → List F → R × List F) (linear : List F → List F)
    (done : Resampling R × List F) (chunk : List F) : Resampling R × List F :=
  let (r, samples) := done.1.apply process linear chunk
  (r, done.2 ++ samples)

/-- What comes of chunks one after the other. -/
def applyAll (process : R → List F → R × List F) (linear : List F → List F) (r : Resampling R)
    (chunks : List (List F)) : Resampling R × List F :=
  chunks.foldl (addChunk process linear) (r, [])

/-- What `start_capture` sets up; `sinc` is the resampler, if one could be made. -/
def start (deviceRate : ℕ) (sinc : Option R) : Resampling R :=
  if deviceRate = Config.sampleRate then .direct
  else
    match sinc with
    | some inner => .sinc inner
    | none => .linear

end Resampling

/-- `push_counted`.  The counter is taken to stay below 2^64. -/
def pushCounted (ring : AudioRing F) (samples : List F) (overflow : ℕ) : AudioRing F × ℕ :=
  let (ring, pushed) := ring.pushSlice samples
  (ring, if pushed < samples.length then overflow + (samples.length - pushed) else overflow)

/-- What the callback of the input device keeps, and the ring that it fills. -/
structure Microphone (F R : Type) (channels : ℕ) where
  downmix : Downmix F channels
  accumulator : List F
  resampling : Resampling R
  ring : AudioRing F
  captureRingOverflow : ℕ

/-- A callback of the device begins; it deals with a block; the capture loop looks at the ring. -/
inductive MicEvent (F : Type) where
  | data (data : List F)
  | block
  | poll

namespace Microphone

section Code

variable [F32 F] (process : R → List F → R × List F) (linear : List F → List F)

/-- `start_capture`. -/
def start (deviceRate : ℕ) (sinc : Option R) : Microphone F R channels where
  downmix := .new channels
  accumulator := []
  resampling := .start deviceRate sinc
  ring := .new
  captureRingOverflow := 0

variable (m : Microphone F R channels)

/-- A chunk goes into the ring at the rate of the encoder. -/
def offer (chunk : List F) : Microphone F R channels :=
  let (resampling, samples) := m.resampling.apply process linear chunk
  let (ring, captureRingOverflow) := pushCounted m.ring samples m.captureRingOverflow
  { m with resampling, ring, captureRingOverflow }

/-- The callback of the device, as far as its loop. -/
def receive (data : List F) : Microphone F R channels :=
  let (downmix, accumulator, _) := m.downmix.push data m.accumulator
  { m with downmix, accumulator }

/-- One turn of the loop of the callback. -/
def block (frameSize : ℕ) : Microphone F R channels :=
  let m' := m.offer process linear (m.accumulator.take frameSize)
  { m' with accumulator := m.accumulator.drop frameSize }

/-- The capture loop takes a frame, if there is a whole one. -/
def popFrame : Microphone F R channels × List (List F) :=
  if m.ring.occupiedLen < Config.frameSize then (m, [])
  else
    let (ring, pcmFrame) := m.ring.popSlice Config.frameSize
    ({ m with ring }, [pcmFrame])

end Code

end Microphone

/-- The callback, with the frames that the capture loop has taken. -/
structure Recording (F R : Type) (channels : ℕ) where
  mic : Microphone F R channels
  frames : List (List F)

namespace Recording

section Code

variable [F32 F] (process : R → List F → R × List F) (linear : List F → List F)

/-- Before the first callback. -/
def start (deviceRate : ℕ) (sinc : Option R) : Recording F R channels :=
  ⟨.start deviceRate sinc, []⟩

/-- One step, if it can happen: a callback begins when the one before it has ended its loop, which
goes on while there is a whole block. -/
def step (frameSize : ℕ) (r : Recording F R channels) :
    MicEvent F → Option (Recording F R channels)
  | .data data =>
    if r.mic.accumulator.length < frameSize then some { r with mic := r.mic.receive data } else none
  | .block =>
    if frameSize ≤ r.mic.accumulator.length then
      some { r with mic := r.mic.block process linear frameSize }
    else none
  | .poll =>
    let (mic, frames) := r.mic.popFrame
    some ⟨mic, r.frames ++ frames⟩

end Code

/-! ## What was captured -/

/-- The samples of one channel that callbacks bring. -/
def mono [F32 F] (d : Downmix F channels) : List (MicEvent F) → List F
  | [] => []
  | .data data :: es => (d.push data []).2.1 ++ mono (d.push data []).1 es
  | .block :: es | .poll :: es => mono d es

section Runs

variable {process : R → List F → R × List F} {linear : List F → List F}

/-- A callback puts its samples behind those that wait. -/
theorem push_eq [F32 F] (d : Downmix F channels) (data out : List F) :
    (d.push data out).1 = (d.push data []).1 ∧
      (d.push data out).2.1 = out ++ (d.push data []).2.1 := by
  unfold Downmix.push
  split
  · exact ⟨rfl, rfl⟩
  · dsimp only
    split
    · exact ⟨rfl, rfl⟩
    · split
      · exact ⟨rfl, rfl⟩
      · exact ⟨rfl, rfl⟩

/-- Of what was `offered` to the ring, the capture loop has taken the frames, the ring holds the
next samples, and the counter says how many there was no room for. -/
structure Kept (r : Recording F R channels) (offered : List F) : Prop where
  sublist : (r.frames.flatten ++ r.mic.ring.samples).Sublist offered
  count : r.frames.flatten.length + r.mic.ring.occupiedLen + r.mic.captureRingOverflow =
    offered.length
  whole : ∀ frame ∈ r.frames, frame.length = Config.frameSize

/-- What the ring takes of a chunk goes behind the others; the counter says what it does not. -/
theorem pushCounted_spec (ring : AudioRing F) (samples : List F) (overflow : ℕ) :
    ∃ taken, taken.Sublist samples ∧
      (pushCounted ring samples overflow).1.samples = ring.samples ++ taken ∧
      taken.length + (pushCounted ring samples overflow).2 = samples.length + overflow := by
  refine ⟨samples.take ring.vacantLen, List.take_sublist _ _, rfl, ?_⟩
  have hpushed : (ring.pushSlice samples).2 = min samples.length ring.vacantLen := rfl
  simp only [pushCounted, List.length_take]
  by_cases hfull : (ring.pushSlice samples).2 < samples.length
  · rw [if_pos hfull]
    omega
  · rw [if_neg hfull]
    omega

variable {r : Recording F R channels} {offered : List F}

theorem Kept.block (h : Kept r offered) (n : ℕ) :
    Kept { r with mic := r.mic.block process linear n }
      (offered ++ (r.mic.resampling.apply process linear (r.mic.accumulator.take n)).2) := by
  obtain ⟨taken, htaken, hring, hcount⟩ := pushCounted_spec r.mic.ring
    (r.mic.resampling.apply process linear (r.mic.accumulator.take n)).2
    r.mic.captureRingOverflow
  have hsamples : (r.mic.block process linear n).ring.samples = r.mic.ring.samples ++ taken := hring
  have hoverflow : (r.mic.block process linear n).captureRingOverflow =
      (pushCounted r.mic.ring (r.mic.resampling.apply process linear (r.mic.accumulator.take n)).2
        r.mic.captureRingOverflow).2 := rfl
  have hbefore := h.count
  constructor
  · rw [hsamples, ← List.append_assoc]
    exact h.sublist.append htaken
  · unfold AudioRing.occupiedLen at hbefore ⊢
    rw [hsamples, hoverflow]
    simp only [List.length_append]
    omega
  · exact h.whole

theorem Kept.popFrame (h : Kept r offered) :
    Kept ⟨r.mic.popFrame.1, r.frames ++ r.mic.popFrame.2⟩ offered := by
  unfold Microphone.popFrame
  split
  · rw [List.append_nil]
    exact h
  · rename_i hready
    have hsplit : (r.frames ++ [r.mic.ring.samples.take Config.frameSize]).flatten ++
        r.mic.ring.samples.drop Config.frameSize = r.frames.flatten ++ r.mic.ring.samples := by
      simp
    have hlen : (r.mic.ring.samples.take Config.frameSize).length = Config.frameSize := by
      rw [List.length_take]
      exact Nat.min_eq_left (Nat.not_lt.1 hready)
    refine ⟨hsplit ▸ h.sublist, ?_, ?_⟩
    · have hcount := congrArg List.length hsplit
      have hbefore := h.count
      simp only [List.length_append] at hcount
      show _ + (r.mic.ring.samples.drop Config.frameSize).length + _ = _
      unfold AudioRing.occupiedLen at hbefore
      simp only [AudioRing.popSlice]
      omega
    · intro frame hframe
      rcases List.mem_append.1 hframe with hframe | hframe
      · exact h.whole frame hframe
      · rw [List.mem_singleton.1 hframe]
        exact hlen

/-- Where nothing was refused, what was offered is what has been taken and what is there. -/
theorem Kept.all (h : Kept r offered) (hroom : r.mic.captureRingOverflow = 0) :
    r.frames.flatten ++ r.mic.ring.samples = offered := by
  refine h.sublist.eq_of_length ?_
  have hcount := h.count
  unfold AudioRing.occupiedLen at hcount
  rw [List.length_append]
  omega

/-- What holds after the callbacks have brought `heard`: the blocks in `done` have gone through,
what came of them was offered to the ring, and the others wait. -/
structure Follows (n : ℕ) (process : R → List F → R × List F) (linear : List F → List F)
    (first : Resampling R) (heard : List F) (done : List (List F)) (r : Recording F R channels) :
    Prop where
  kept : Kept r (first.applyAll process linear done).2
  resampling : r.mic.resampling = (first.applyAll process linear done).1
  waits : done.flatten ++ r.mic.accumulator = heard
  length : ∀ chunk ∈ done, chunk.length = n

variable {n : ℕ} {first : Resampling R} {heard : List F} {done : List (List F)}

/-- A callback puts its samples behind those that wait. -/
theorem Follows.receive [F32 F] (h : Follows n process linear first heard done r)
    (data : List F) : Follows n process linear first
      (heard ++ (r.mic.downmix.push data []).2.1) done { r with mic := r.mic.receive data } := by
  obtain ⟨-, hpush⟩ := push_eq r.mic.downmix data r.mic.accumulator
  refine ⟨⟨h.kept.sublist, h.kept.count, h.kept.whole⟩, h.resampling, ?_, h.length⟩
  show done.flatten ++ (r.mic.downmix.push data r.mic.accumulator).2.1 = _
  rw [hpush, ← List.append_assoc, h.waits]

/-- A block goes through the resampling and into the ring. -/
theorem Follows.block (h : Follows n process linear first heard done r)
    (hlong : n ≤ r.mic.accumulator.length) :
    Follows n process linear first heard (done ++ [r.mic.accumulator.take n])
      { r with mic := r.mic.block process linear n } := by
  have hdone : first.applyAll process linear (done ++ [r.mic.accumulator.take n]) =
      Resampling.addChunk process linear (first.applyAll process linear done)
        (r.mic.accumulator.take n) := by
    rw [Resampling.applyAll, List.foldl_append]
    rfl
  have hkept : Kept { r with mic := r.mic.block process linear n } _ := h.kept.block n
  have hmode := h.resampling
  refine ⟨?_, ?_, ?_, ?_⟩
  · rw [hdone, Resampling.addChunk, ← hmode]
    exact hkept
  · rw [hdone, Resampling.addChunk, ← hmode]
    rfl
  · have hwaits := h.waits
    rw [← List.take_append_drop n r.mic.accumulator, ← List.append_assoc] at hwaits
    rw [List.flatten_append, List.flatten_singleton]
    exact hwaits
  · intro chunk hchunk
    rcases List.mem_append.1 hchunk with hchunk | hchunk
    · exact h.length chunk hchunk
    · rw [List.mem_singleton.1 hchunk]
      exact List.length_take_of_le hlong

theorem Follows.popFrame (h : Follows n process linear first heard done r) :
    Follows n process linear first heard done
      ⟨r.mic.popFrame.1, r.frames ++ r.mic.popFrame.2⟩ := by
  obtain ⟨hresampling, hwaits⟩ : r.mic.popFrame.1.resampling = r.mic.resampling ∧
      r.mic.popFrame.1.accumulator = r.mic.accumulator := by
    unfold Microphone.popFrame
    split <;> exact ⟨rfl, rfl⟩
  exact ⟨h.kept.popFrame, hresampling.trans h.resampling, by rw [hwaits]; exact h.waits, h.length⟩

/-- After any steps, from when `heard` had been brought. -/
theorem Follows.run [F32 F] {ended : Recording F R channels}
    (h : Follows n process linear first heard done r) {es : List (MicEvent F)}
    (hrun : runFrom (step process linear n) r es = some ended) :
    ∃ done', Follows n process linear first (heard ++ mono r.mic.downmix es) done' ended := by
  induction es generalizing heard done r with
  | nil =>
    cases hrun
    exact ⟨done, by rw [mono, List.append_nil]; exact h⟩
  | cons e es ih =>
    rw [runFrom_cons] at hrun
    obtain ⟨r', hs, hrest⟩ := Option.bind_eq_some_iff.1 hrun
    cases e with
    | data data =>
      simp only [step] at hs
      split at hs
      · cases hs
        obtain ⟨done', hdone⟩ := ih (h.receive data) hrest
        have hdownmix : (r.mic.receive data).downmix = (r.mic.downmix.push data []).1 :=
          (push_eq _ _ _).1
        rw [hdownmix, List.append_assoc] at hdone
        exact ⟨done', hdone⟩
      · cases hs
    | block =>
      simp only [step] at hs
      split at hs
      · rename_i hlong
        cases hs
        obtain ⟨done', hdone⟩ := ih (h.block hlong) hrest
        exact ⟨done', hdone⟩
      · cases hs
    | poll =>
      cases hs
      obtain ⟨done', hdone⟩ := ih h.popFrame hrest
      have hdownmix : r.mic.popFrame.1.downmix = r.mic.downmix := by
        unfold Microphone.popFrame
        split <;> rfl
      rw [hdownmix] at hdone
      exact ⟨done', hdone⟩

/-- A device at the rate of the encoder is passed through. -/
theorem applyAll_direct (chunks : List (List F)) :
    (Resampling.direct : Resampling R).applyAll process linear chunks =
      (.direct, chunks.flatten) := by
  induction chunks using List.reverseRecOn with
  | nil => rfl
  | append_singleton chunks chunk ih =>
    rw [Resampling.applyAll] at ih ⊢
    rw [List.foldl_append, ih, List.flatten_append, List.flatten_singleton]
    rfl

/-- **What the capture loop gets is what the device captured, in order.**  The single channel
goes through in blocks of 20 ms, however the device cuts it into callbacks and whenever the loop
looks at the ring, also while a callback deals with its blocks; of what comes of the blocks nothing
is repeated, changed or put in another order, what is missing is in the counter, and while that is
zero nothing is.  When a callback has ended, no whole block waits. -/
theorem captured [F32 F] {deviceRate : ℕ} (hrate : 25 ≤ deviceRate) (sinc : Option R)
    (process : R → List F → R × List F) (linear : List F → List F) (es : List (MicEvent F))
    {ended : Recording F R channels}
    (hrun : runFrom (step process linear (deviceFrameSize deviceRate)) (start deviceRate sinc) es =
      some ended) :
    let n := deviceFrameSize deviceRate
    let heard := mono (.new channels : Downmix F channels) es
    ∃ done pending, Blocks.blocks n heard = done ++ pending ∧
      ended.mic.accumulator = pending.flatten ++ Blocks.rest n heard ∧
      (ended.mic.accumulator.length < n → pending = []) ∧
      let offered := ((Resampling.start deviceRate sinc).applyAll process linear done).2
      (ended.frames.flatten ++ ended.mic.ring.samples).Sublist offered ∧
        ended.frames.flatten.length + ended.mic.ring.occupiedLen + ended.mic.captureRingOverflow =
          offered.length ∧
        (∀ frame ∈ ended.frames, frame.length = Config.frameSize) ∧
        (ended.mic.captureRingOverflow = 0 →
          ended.frames.flatten ++ ended.mic.ring.samples = offered) ∧
        (deviceRate = Config.sampleRate → ended.mic.captureRingOverflow = 0 →
          ended.frames.flatten ++ ended.mic.ring.samples ++ ended.mic.accumulator = heard) := by
  intro n heard
  have hn : 0 < n := deviceFrameSize_pos hrate
  have hstart : Follows n process linear (.start deviceRate sinc) [] []
      (start deviceRate sinc : Recording F R channels) :=
    ⟨⟨List.Sublist.refl _, rfl, fun _ hframe => absurd hframe List.not_mem_nil⟩, rfl, rfl,
      fun _ hchunk => absurd hchunk List.not_mem_nil⟩
  obtain ⟨done, hended⟩ := hstart.run hrun
  have hheard : done.flatten ++ ended.mic.accumulator = heard := hended.waits
  have hblocks := Blocks.blocks_append hn hended.length ended.mic.accumulator
  have hrest := Blocks.rest_append hn hended.length ended.mic.accumulator
  rw [hheard] at hblocks hrest
  refine ⟨done, Blocks.blocks n ended.mic.accumulator, hblocks, ?_, Blocks.blocks_short,
    hended.kept.sublist, hended.kept.count, hended.kept.whole, hended.kept.all, ?_⟩
  · rw [hrest, Blocks.flatten_blocks_append_rest hn]
  · intro hdirect hroom
    have hmode : (Resampling.start deviceRate sinc : Resampling R) = .direct := if_pos hdirect
    rw [hended.kept.all hroom, hmode, applyAll_direct]
    exact hheard

/-- On a device with one channel what is heard is what the device brings. -/
theorem mono_one [F32 F] (h : channels ≤ 1) (d : Downmix F channels) (es : List (MicEvent F)) :
    mono d es = es.flatMap fun e => match e with
      | .data data => data
      | .block | .poll => [] := by
  induction es generalizing d with
  | nil => rfl
  | cons e es ih =>
    cases e with
    | data data =>
      have hpush : (d.push data []).2.1 = data := by
        unfold Downmix.push
        rw [if_pos h]
        rfl
      rw [mono, hpush, ih, List.flatMap_cons]
    | block =>
      rw [mono, ih, List.flatMap_cons]
      rfl
    | poll =>
      rw [mono, ih, List.flatMap_cons]
      rfl

end Runs

end Recording

/-! ## The linear way -/

/-- `resample_into`, on exact numbers. -/
def resampleInto (input : List ℚ) (fromRate toRate : ℕ) : List ℚ :=
  if fromRate = toRate ∨ input = [] then input
  else
    let ratio : ℚ := fromRate / toRate
    let outLen := ⌈input.length / ratio⌉₊
    (List.range outLen).map fun i : ℕ =>
      let src : ℚ := i * ratio
      let idx := ⌊src⌋₊
      let frac := src - idx
      match input[idx]?, input[idx + 1]? with
      | some s, some t => s * (1 - frac) + t * frac
      | some s, none => s
      | none, _ => 0

variable {input : List ℚ} {fromRate toRate : ℕ}

/-- A point between two samples is no further from zero than they are. -/
theorem abs_between_le {s t frac bound : ℚ} (hs : |s| ≤ bound) (ht : |t| ≤ bound)
    (h0 : 0 ≤ frac) (h1 : frac ≤ 1) : |s * (1 - frac) + t * frac| ≤ bound := by
  have hrest : 0 ≤ 1 - frac := by linarith
  calc |s * (1 - frac) + t * frac| ≤ |s * (1 - frac)| + |t * frac| := abs_add_le _ _
    _ = |s| * (1 - frac) + |t| * frac := by
      rw [abs_mul, abs_mul, abs_of_nonneg hrest, abs_of_nonneg h0]
    _ ≤ bound * (1 - frac) + bound * frac :=
      add_le_add (mul_le_mul_of_nonneg_right hs hrest) (mul_le_mul_of_nonneg_right ht h0)
    _ = bound := by ring

/-- No sample comes out louder than the loudest that went in. -/
theorem resampleInto_within {bound : ℚ} (h : ∀ s ∈ input, |s| ≤ bound) :
    ∀ s ∈ resampleInto input fromRate toRate, |s| ≤ bound := by
  unfold resampleInto
  split
  · exact h
  · rename_i hne
    obtain ⟨-, hinput⟩ := not_or.1 hne
    obtain ⟨first, hfirst⟩ := List.exists_mem_of_ne_nil _ hinput
    have hbound : 0 ≤ bound := (abs_nonneg first).trans (h first hfirst)
    intro s hs
    obtain ⟨i, -, rfl⟩ := List.mem_map.1 hs
    dsimp only
    split
    · rename_i s t hs ht
      have hratio : (0 : ℚ) ≤ i * (fromRate / toRate) :=
        mul_nonneg (Nat.cast_nonneg i)
          (div_nonneg (Nat.cast_nonneg fromRate) (Nat.cast_nonneg toRate))
      have hfloor := Nat.floor_le hratio
      have hnext := (Nat.lt_floor_add_one ((i : ℚ) * (fromRate / toRate))).le
      exact abs_between_le (h s (List.mem_of_getElem? hs)) (h t (List.mem_of_getElem? ht))
        (by linarith) (by linarith)
    · rename_i s hs _
      exact h s (List.mem_of_getElem? hs)
    · rw [abs_zero]
      exact hbound

/-- A telephone headset: a block and a half in three callbacks, with a look of the capture loop
while the second one deals with its block. -/
def Recording.telephone : List (MicEvent ℚ) :=
  [.data (List.replicate 100 (1 / 2)), .data (List.replicate 100 (-1 / 4)), .poll, .block, .poll,
    .data (List.replicate 40 (1 / 8))]

theorem Recording.captured_telephone :
    let _ : Curves := ⟨id, id⟩
    ∃ ended, runFrom (step (fun (r : Unit) chunk => (r, chunk)) (resampleInto · 8000 48000)
        (deviceFrameSize 8000)) (start 8000 none : Recording ℚ Unit 1) telephone = some ended ∧
      ended.frames.length = 1 ∧ ended.mic.accumulator =
        Blocks.rest (deviceFrameSize 8000) (mono (.new 1 : Downmix ℚ 1) telephone) := by
  intro curves
  have hrun : (runFrom (step (fun (r : Unit) chunk => (r, chunk)) (resampleInto · 8000 48000)
      (deviceFrameSize 8000)) (start 8000 none : Recording ℚ Unit 1) telephone).map
        (fun r => (r.frames.length, r.mic.accumulator.length)) = some (1, 80) := by
    decide +kernel
  obtain ⟨ended, hended, hlengths⟩ := Option.map_eq_some_iff.1 hrun
  obtain ⟨hframes, haccumulator⟩ := Prod.mk.inj hlengths
  have hover : ended.mic.accumulator.length < deviceFrameSize 8000 := by
    rw [haccumulator]
    decide
  obtain ⟨done, pending, -, hwaits, hnone, -⟩ := @captured ℚ Unit 1 _ 8000 (by decide) none
    (fun r chunk => (r, chunk)) (resampleInto · 8000 48000) telephone ended hended
  rw [hnone hover] at hwaits
  exact ⟨ended, hended, hframes, hwaits⟩

end Client
end TcVoice
