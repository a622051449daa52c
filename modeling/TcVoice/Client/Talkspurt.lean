import TcVoice.Client.Capture

/-!
# Talkspurts

Which captured frames are sent when the voice gate opens.

* `Recorded`, `record` — the capture thread with the way that each frame took.
* `heldBefore`, `heldSince` — the frames held back directly before the next one, and those
  held back since the gate was last passed.
* `talkspurt_after` — a talkspurt has nothing in it from before a mute or a mode change.
* `preroll_recorded` — the pre-roll has the latest of the latter in it, across mutes and
  mode changes.
* `talkspurts_continuous_iff` — **the gate opens with exactly the frames directly before
  it, unless the pre-roll has older ones in it**; `stale_preroll` is a mute that leaves
  such a frame.
-/

namespace TcVoice
namespace Client

open Machines

variable {F E D : Type}

/-! ## The way of the frames -/

/-- The capture thread and the ways of the frames captured so far, the latest in front. -/
abbrev Recorded (F E D : Type) := Capture F E D × List Fate

/-- One frame, recorded. -/
def record [F32 F] (cfg : CaptureCfg F E D) (s : Recorded F E D) (r : Reading F) :
    Recorded F E D × List (Attempt F) :=
  let (c, attempts) := captureFrame cfg s.1 r
  ((c, s.1.fate cfg r :: s.2), attempts)

/-- How many frames have been held back directly before the next one. -/
def heldBefore : List Fate → ℕ
  | .held :: fates => heldBefore fates + 1
  | _ => 0

/-- The numbers of the frames held back since one has passed the gate, the latest in front. -/
def heldSince : List Fate → List ℕ
  | .held :: fates => fates.length :: heldSince fates
  | .passed :: _ => []
  | _ :: fates => heldSince fates
  | [] => []

/-- The captured frames whose packets were sent; `none` for comfort silence. -/
def sentSources (attempts : List (Attempt F)) : List (Option ℕ) :=
  (attempts.filter (·.packet.isSome)).map (·.source)

/-- What a talkspurt starts with: the frame itself behind those held back directly before it,
up to the length of the pre-roll. -/
def talkspurt (fates : List Fate) : List (Option ℕ) :=
  let preroll := min Config.vadPrerollFrames (heldBefore fates)
  (List.range' (fates.length - preroll) (preroll + 1)).map some

theorem heldBefore_le (fates : List Fate) : heldBefore fates ≤ fates.length := by
  induction fates with
  | nil => exact Nat.le_refl _
  | cons fate fates ih =>
    cases fate <;> simp only [heldBefore, List.length_cons] <;> omega

/-- The frames held back directly before are the latest of those held back. -/
theorem heldSince_eq (fates : List Fate) : ∃ older, heldSince fates =
    (List.range' (fates.length - heldBefore fates) (heldBefore fates)).reverse ++ older := by
  induction fates with
  | nil => exact ⟨[], rfl⟩
  | cons fate fates ih =>
    cases fate with
    | held =>
      obtain ⟨older, ih⟩ := ih
      refine ⟨older, ?_⟩
      have hle := heldBefore_le fates
      simp only [heldSince, heldBefore, List.length_cons, ih]
      rw [List.range'_concat, List.reverse_append, List.reverse_singleton, Nat.add_sub_add_right,
        Nat.one_mul, Nat.sub_add_cancel hle]
      rfl
    | passed => exact ⟨[], rfl⟩
    | muted => exact ⟨heldSince fates, rfl⟩
    | paranoid => exact ⟨heldSince fates, rfl⟩

/-- The latest frames held back are those directly before exactly when there are as many of
these as the pre-roll takes of all. -/
theorem talkspurt_eq_iff (fates : List Fate) :
    ((heldSince fates).take Config.vadPrerollFrames).reverse.map some ++ [some fates.length] =
        talkspurt fates ↔
      min Config.vadPrerollFrames (heldSince fates).length ≤ heldBefore fates := by
  obtain ⟨older, hsince⟩ := heldSince_eq fates
  have hle := heldBefore_le fates
  have hlen : (heldSince fates).length = heldBefore fates + older.length := by
    rw [hsince, List.length_append, List.length_reverse, List.length_range']
  unfold talkspurt
  dsimp only
  constructor
  · intro h
    have hcount := congrArg List.length h
    simp only [List.length_append, List.length_map, List.length_reverse, List.length_take,
      List.length_singleton, List.length_range'] at hcount
    omega
  · intro h
    have htake : (heldSince fates).take Config.vadPrerollFrames =
        (List.range' (fates.length - min Config.vadPrerollFrames (heldBefore fates))
          (min Config.vadPrerollFrames (heldBefore fates))).reverse := by
      rw [hsince, List.take_append, List.take_reverse, List.length_range', List.length_reverse,
        List.length_range', List.drop_range']
      have holder : older.take (Config.vadPrerollFrames - heldBefore fates) = [] := by
        rw [List.take_eq_nil_iff]
        by_cases hmany : Config.vadPrerollFrames ≤ heldBefore fates
        · exact .inl (by omega)
        · exact .inr (List.eq_nil_of_length_eq_zero (by omega))
      rw [holder, List.append_nil]
      congr 2 <;> omega
    rw [htake, List.reverse_reverse, List.range'_concat, List.map_append, Nat.one_mul,
      Nat.sub_add_cancel (by omega)]
    rfl

/-- No talkspurt reaches back to a frame that was not held back, or to what was before it. -/
theorem talkspurt_after {earlier rest : List Fate} {fate : Fate} {n : ℕ} (hheld : fate ≠ .held)
    (hn : some n ∈ talkspurt (earlier ++ fate :: rest)) : rest.length < n := by
  have hbefore : heldBefore (earlier ++ fate :: rest) ≤ earlier.length := by
    clear hn
    induction earlier with
    | nil => cases fate <;> first | exact absurd rfl hheld | exact Nat.le_refl _
    | cons f earlier ih =>
      cases f <;> simp only [List.cons_append, heldBefore, List.length_cons] <;> omega
  obtain ⟨m, hm, heq⟩ := List.mem_map.1 hn
  cases heq
  rw [List.mem_range'_1, List.length_append, List.length_cons] at hm
  omega

/-! ## The pre-roll -/

section Preroll

variable {cfg : CaptureCfg F E D} {c : Capture F E D} {r : Reading F}

theorem sendOne_preroll (source : Option ℕ) (frame : Frame F) :
    (sendOne cfg c source frame).1.preroll = c.preroll ∧
      (sendOne cfg c source frame).1.captured = c.captured := by
  obtain ⟨state, packetBuf, sequence, drawn, heq⟩ := sendOne_state cfg c source frame
  rw [heq]
  exact ⟨rfl, rfl⟩

variable [F32 F]

theorem ready_preroll : (c.ready cfg r).preroll = c.preroll ∧
    (c.ready cfg r).captured = c.captured + 1 := by
  obtain ⟨encoder, pcmFrame, denoiser, autoLevel, heq⟩ := ready_state cfg c r
  rw [heq]
  exact ⟨rfl, rfl⟩

/-- What a frame does to the pre-roll, by its way. -/
theorem captureFrame_preroll (cfg : CaptureCfg F E D) (c : Capture F E D) (r : Reading F) :
    (captureFrame cfg c r).1.captured = c.captured + 1 ∧
      (captureFrame cfg c r).1.preroll = match c.fate cfg r with
      | .muted | .paranoid => c.preroll
      | .held => c.preroll.push ⟨c.captured, (c.gated cfg r).pcmFrame⟩
      | .passed => c.preroll.reset := by
  have hgated : (c.gated cfg r).preroll = c.preroll ∧
      (c.gated cfg r).captured = c.captured + 1 := ready_preroll
  have hcases := fate_cases cfg c r
  cases hfate : c.fate cfg r with
  | muted =>
    rw [hfate] at hcases
    obtain ⟨encoder, hpopped⟩ := popped_state c r
    rw [captureFrame_muted hcases, hpopped]
    split
    · exact ⟨(sendOne_preroll _ _).2, (sendOne_preroll _ _).1⟩
    · exact ⟨rfl, rfl⟩
  | paranoid =>
    rw [hfate] at hcases
    rw [captureFrame_paranoid hcases.1 hcases.2]
    exact ⟨(sendOne_preroll _ _).2.trans ready_preroll.2,
      (sendOne_preroll _ _).1.trans ready_preroll.1⟩
  | held =>
    rw [captureFrame_held hfate]
    refine ⟨hgated.2, ?_⟩
    show (c.gated cfg r).preroll.push _ = _
    rw [hgated.1]
  | passed =>
    obtain ⟨state, packetBuf, sequence, drawn, hflush⟩ :=
      flush_state cfg (c.gated cfg r) c.captured
    rw [captureFrame_passed hfate, hflush]
    exact ⟨hgated.2, congrArg Ring.reset hgated.1⟩

/-- The pre-roll holds the latest of the frames held back since the gate was passed. -/
def PrerollHolds (s : Recorded F E D) : Prop :=
  s.1.captured = s.2.length ∧
    s.1.preroll.toList.map Captured.number =
      ((heldSince s.2).take Config.vadPrerollFrames).reverse

/-- Whatever a frame is, the pre-roll keeps up; a mute and a mode change leave it alone. -/
theorem preroll_recorded (cfg : CaptureCfg F E D) (s : Recorded F E D) (r : Reading F)
    (h : PrerollHolds s) : PrerollHolds (record cfg s r).1 := by
  obtain ⟨hcaptured, hpreroll⟩ := h
  obtain ⟨hnext, hring⟩ := captureFrame_preroll cfg s.1 r
  refine ⟨hnext.trans (congrArg (· + 1) hcaptured), ?_⟩
  show (captureFrame cfg s.1 r).1.preroll.toList.map Captured.number =
    ((heldSince (s.1.fate cfg r :: s.2)).take Config.vadPrerollFrames).reverse
  rw [hring]
  cases s.1.fate cfg r with
  | muted => exact hpreroll
  | paranoid => exact hpreroll
  | passed => rfl
  | held =>
    rw [Ring.toList_push_of hpreroll, hcaptured]
    rfl

end Preroll

/-! ## The gate -/

/-- Encoding and encryption succeed. -/
structure CaptureCfg.Succeeds (cfg : CaptureCfg F E D) : Prop where
  encodes : ∀ settings state pcm, (cfg.codec.encodeFloat settings state pcm).2.isSome = true
  encrypts : cfg.cipher.Encrypts

section Gate

variable {cfg : CaptureCfg F E D} {c : Capture F E D} {r : Reading F}

theorem sendOne_sent (hcfg : cfg.Succeeds) (source : Option ℕ) (frame : Frame F) :
    (sendOne cfg c source frame).2.packet.isSome = true := by
  obtain ⟨opus, hopus⟩ :=
    Option.isSome_iff_exists.1 (hcfg.encodes c.encoder.settings c.encoder.state frame)
  obtain ⟨packet, hbuild⟩ := buildPacket_built hcfg.encrypts (cfg.nonces c.drawn) c.packetBuf
    c.sequence cfg.channelId (nameBytes cfg.senderName) opus
  unfold sendOne OpusEncoder.encode
  simp only [hopus, hbuild, Option.isSome_some]

theorem sendAll_sent (hcfg : cfg.Succeeds) (frames : List (Captured F)) :
    ∀ attempt ∈ (sendAll cfg c frames).2, attempt.packet.isSome = true := by
  induction frames generalizing c with
  | nil =>
    intro attempt h
    cases h
  | cons frame frames ih =>
    intro attempt h
    unfold sendAll at h
    rcases List.mem_cons.1 h with rfl | h
    · exact sendOne_sent hcfg _ _
    · exact ih attempt h

/-- What passing the gate sends: the pre-roll, then the frame. -/
theorem flush_sources (hcfg : cfg.Succeeds) (number : ℕ) :
    sentSources (c.flush cfg number).2 =
      (c.preroll.toList.map Captured.number).map some ++ [some number] := by
  have hall : ∀ attempt ∈ (c.flush cfg number).2, attempt.packet.isSome = true := by
    intro attempt h
    unfold Capture.flush at h
    rcases List.mem_append.1 h with h | h
    · exact sendAll_sent hcfg _ attempt h
    · rw [List.mem_singleton.1 h]
      exact sendOne_sent hcfg _ _
  unfold sentSources
  rw [List.filter_eq_self.2 hall]
  unfold Capture.flush
  rw [List.map_append, List.map_singleton, sendOne_source, sendAll_sources, List.map_map]
  rfl

variable [F32 F]

/-- A frame that passes the gate is sent behind exactly the frames held back directly before
it, up to the length of the pre-roll. -/
def Continuous (cfg : CaptureCfg F E D) (s : Recorded F E D) (r : Reading F) : Prop :=
  s.1.fate cfg r = .passed → sentSources (record cfg s r).2 = talkspurt s.2

/-- When the gate is passed: of the frames held back since it was passed before, those that the
pre-roll has room for were held back directly before, with no mute or mode change between. -/
def Fresh (cfg : CaptureCfg F E D) (s : Recorded F E D) (r : Reading F) : Prop :=
  s.1.fate cfg r = .passed →
    min Config.vadPrerollFrames (heldSince s.2).length ≤ heldBefore s.2

theorem continuous_iff_fresh (hcfg : cfg.Succeeds) {s : Recorded F E D} (hs : PrerollHolds s) :
    Continuous cfg s r ↔ Fresh cfg s r := by
  apply imp_congr_right
  intro hfate
  obtain ⟨hcaptured, hpreroll⟩ := hs
  have hgated : (s.1.gated cfg r).preroll = s.1.preroll := ready_preroll.1
  have hsources : sentSources (record cfg s r).2 =
      ((heldSince s.2).take Config.vadPrerollFrames).reverse.map some ++ [some s.2.length] := by
    show sentSources (captureFrame cfg s.1 r).2 = _
    rw [captureFrame_passed hfate, flush_sources hcfg, hgated, hpreroll, hcaptured]
  rw [hsources]
  exact talkspurt_eq_iff s.2

/-- **When talkspurts are continuous.**  With encoding and encryption succeeding, over every
sequence of frames and every schedule of mutes, modes and thresholds: each frame that passes
the gate is sent behind exactly the frames held back directly before it, up to the length of
the pre-roll, exactly when the pre-roll has no older frames in it whenever the gate is passed. -/
theorem talkspurts_continuous_iff (cfg : CaptureCfg F E D) (hcfg : cfg.Succeeds)
    (lossPercent : UInt8) (rs : List (Reading F)) :
    Along (record cfg) (Continuous cfg) (cfg.start lossPercent, []) rs ↔
      Along (record cfg) (Fresh cfg) (cfg.start lossPercent, []) rs := by
  apply along_congr (fun s r hs _ => preroll_recorded cfg s r hs)
  · intro s r hs
    exact continuous_iff_fresh hcfg hs
  · exact ⟨rfl, rfl⟩

end Gate

theorem sampleCfg_succeeds : sampleCfg.Succeeds := ⟨fun _ _ _ => rfl, fun _ _ => rfl⟩

/-- A quiet frame that is held back, and a loud one that the gate lets pass. -/
theorem talkspurts_continuous_iff_sample :
    Along (record sampleCfg) (Continuous sampleCfg) (sampleCfg.start 0, [])
      [sampleReading 0, sampleReading 1] :=
  (talkspurts_continuous_iff sampleCfg sampleCfg_succeeds 0 _).2
    ⟨fun h => absurd h (by decide +kernel), fun _ => by decide +kernel, trivial⟩

/-- **A frame from before a mute is sent after it**: a quiet frame is held back, one is captured
while muted, and the loud one after that takes the quiet one along. -/
theorem stale_preroll :
    ¬ Along (record sampleCfg) (Continuous sampleCfg) (sampleCfg.start 0, [])
      [sampleReading 0, { sampleReading 0 with muted := true }, sampleReading 1] := by
  rintro ⟨-, -, h, -⟩
  have hsent := h (by decide +kernel)
  revert hsent
  decide +kernel

end Client
end TcVoice
