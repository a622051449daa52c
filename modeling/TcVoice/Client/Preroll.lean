import TcVoice.Client.Talkspurt
import Mathlib.Data.List.Forall2

/-!
# The pre-roll, sample by sample

`VadPreroll` of `crates/client/src/voice.rs`: the frames that the voice gate held back,
copied into slots that are there from the start.

* `Slots` — the ring of slots; `push` copies a slice over the samples of one of them,
  `drain` visits what is held and forgets it.
* `pushedSince` — the slices pushed since the last drain.
* `drain_visits` — **a drain visits the last slices pushed since the one before it**,
  oldest first and sample by sample, and leaves nothing.
* `held_captureFrame` — the pre-roll of the capture loop is such a ring.
-/

namespace TcVoice
namespace Client

variable {F : Type}

/-- The slots of `VadPreroll`, with where the oldest frame is and how many there are. -/
abbrev Slots (F : Type) := Ring (Frame F) Config.vadPrerollFrames

namespace Slots

/-- `copy_from_slice`: the first samples of a slot are overwritten, as many as there are. -/
def copyFromSlice (slot : Frame F) (slice : List F) : Frame F :=
  Vector.ofFn fun i => slice[i.val]?.getD (slot.get i)

/-- `VadPreroll::new`. -/
def new [Zero F] : Slots F := Ring.new Config.vadPrerollFrames_pos (Vector.replicate _ 0)

/-- `VadPreroll::push`. -/
def push (ring : Slots F) (slice : List F) : Slots F :=
  have := ring.index_lt ring.len
  Ring.push ring (copyFromSlice ring.slots[ring.index ring.len] slice)

/-- `VadPreroll::drain`: the frames visited, and what is left. -/
def drain (ring : Slots F) : List (Frame F) × Slots F := (ring.toList, ring.reset)

/-- A call of the pre-roll. -/
inductive Call (F : Type) where
  | push (slice : List F)
  | drain

/-- What a call leaves, and the frames it visits. -/
def call (ring : Slots F) : Call F → Slots F × List (Frame F)
  | .push slice => (ring.push slice, [])
  | .drain => (ring.drain.2, ring.drain.1)

/-! ## What a slot keeps -/

/-- The slot begins with the samples of the slice, as many of them as a frame has. -/
def Keeps (slot : Frame F) (slice : List F) : Prop :=
  slot.toList.take slice.length = slice.take Config.frameSize

theorem keeps_copyFromSlice (slot : Frame F) (slice : List F) :
    Keeps (copyFromSlice slot slice) slice := by
  unfold Keeps
  apply List.ext_getElem
  · simp only [List.length_take, Vector.length_toList, Nat.min_comm]
  · intro i hi _
    have hlt : i < slice.length := by
      simp only [List.length_take, Vector.length_toList] at hi
      omega
    simp [copyFromSlice, hlt]

/-- Of a slice that is a frame a slot keeps every sample. -/
theorem keeps_frame {slot : Frame F} {slice : List F} (h : slice.length = Config.frameSize) :
    Keeps slot slice ↔ slot.toList = slice := by
  unfold Keeps
  rw [List.take_of_length_le (by simp [h]), List.take_of_length_le (le_of_eq h)]

/-! ## Runs of calls -/

/-- The slices pushed since the last drain, oldest first. -/
def pushedSince (calls : List (Call F)) : List (List F) :=
  calls.foldl (fun slices call => match call with
    | .push slice => slices ++ [slice]
    | .drain => []) []

/-- What a ring holds of the slices pushed into it: the last of them. -/
def Holds (ring : Slots F) (slices : List (List F)) : Prop :=
  List.Forall₂ Keeps ring.toList (slices.rtake Config.vadPrerollFrames)

variable {ring : Slots F} {slices : List (List F)}

theorem Holds.push (h : Holds ring slices) (slice : List F) :
    Holds (ring.push slice) (slices ++ [slice]) := by
  have hback := ring.index_lt ring.len
  have hslot := keeps_copyFromSlice ring.slots[ring.index ring.len] slice
  have hlonger := List.rel_append h (List.Forall₂.cons hslot List.Forall₂.nil)
  have hlast : (slices ++ [slice]).rtake Config.vadPrerollFrames =
      (slices.rtake Config.vadPrerollFrames ++ [slice]).rtake Config.vadPrerollFrames := by
    simp only [List.rtake_eq_reverse_take_reverse, List.reverse_append, List.reverse_reverse,
      List.reverse_singleton, List.singleton_append, List.take_succ_cons, Config.vadPrerollFrames,
      List.take_take, Nat.min_eq_left (Nat.le_succ 4)]
  unfold Holds Slots.push
  rw [Ring.toList_push, hlast, List.rtake, List.rtake, hlonger.length_eq]
  exact List.forall₂_drop _ hlonger

theorem holds_after [Zero F] (calls : List (Call F)) :
    Holds (Machines.after call new calls) (pushedSince calls) := by
  suffices hrun : ∀ (ring : Slots F) slices, Holds ring slices →
      Holds (Machines.after call ring calls) (calls.foldl (fun slices call => match call with
        | .push slice => slices ++ [slice]
        | .drain => []) slices) from hrun new [] List.Forall₂.nil
  induction calls with
  | nil => exact fun _ _ h => h
  | cons c calls ih =>
    intro ring slices h
    cases c with
    | push slice => exact ih _ _ (h.push slice)
    | drain => exact ih _ _ List.Forall₂.nil

/-- Slots that keep frames have every sample of them. -/
theorem toList_of_keeps {visited : List (Frame F)} (h : List.Forall₂ Keeps visited slices)
    (hframes : ∀ slice ∈ slices, slice.length = Config.frameSize) :
    visited.map Vector.toList = slices := by
  induction h with
  | nil => rfl
  | @cons slot slice visited slices hslot _ ih =>
    have hslice := (keeps_frame (hframes slice List.mem_cons_self)).1 hslot
    have hrest := ih fun s hs => hframes s (List.mem_cons_of_mem _ hs)
    rw [List.map_cons, hslice, hrest]

/-- **A drain visits the last slices pushed since the drain before it**, oldest first, and
leaves nothing; of frames it visits every sample. -/
theorem drain_visits [Zero F] (calls : List (Call F)) :
    let ring := Machines.after call new calls
    let last := (pushedSince calls).rtake Config.vadPrerollFrames
    List.Forall₂ Keeps ring.drain.1 last ∧
      ((∀ slice ∈ last, slice.length = Config.frameSize) →
        ring.drain.1.map Vector.toList = last) ∧
      ring.drain.2.len = 0 := by
  intro ring last
  have hkeeps : List.Forall₂ Keeps ring.drain.1 last := holds_after calls
  refine ⟨hkeeps, ?_, rfl⟩
  intro hframes
  exact toList_of_keeps hkeeps hframes

/-! ## The pre-roll of the capture loop -/

theorem toList_push_frame (frame : Frame F) :
    (ring.push frame.toList).toList =
      (ring.toList ++ [frame]).rtake Config.vadPrerollFrames := by
  have hframe (slot : Frame F) : copyFromSlice slot frame.toList = frame := by
    ext i hi
    simp [copyFromSlice]
  unfold Slots.push
  rw [Ring.toList_push, hframe]

variable {E D : Type} [F32 F]

/-- What a captured frame does to the slots. -/
def captured (ring : Slots F) (cfg : CaptureCfg F E D) (c : Capture F E D) (r : Reading F) :
    Slots F :=
  match c.fate cfg r with
  | .muted | .paranoid => ring
  | .held => ring.push (c.gated cfg r).pcmFrame.toList
  | .passed => ring.drain.2

/-- **The pre-roll of the capture loop is such a ring**: it has the same frames in it. -/
theorem held_captureFrame (cfg : CaptureCfg F E D) (c : Capture F E D) (r : Reading F)
    (h : ring.toList = c.preroll.toList.map Captured.pcm) :
    (ring.captured cfg c r).toList =
      (captureFrame cfg c r).1.preroll.toList.map Captured.pcm := by
  rw [(captureFrame_preroll cfg c r).2, captured]
  cases c.fate cfg r with
  | muted => exact h
  | paranoid => exact h
  | held =>
    rw [toList_push_frame, Ring.toList_push, h, List.rtake, List.rtake, List.map_drop,
      List.map_append, List.length_append, List.length_append, List.length_map,
      List.map_singleton]
    rfl
  | passed => rfl

end Slots
end Client
end TcVoice
