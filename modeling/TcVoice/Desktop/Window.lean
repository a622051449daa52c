import Mathlib.Data.List.DropRight
import TcVoice.Desktop.History
import TcVoice.Desktop.VoiceActor
import TcVoice.Lib.Table

/-!
# What the main window holds

The store of the user interface and the handlers that feed it: `apps/desktop/src/lib/store.ts`,
`wire.ts` and the parts of `dm.ts` and of the prompts that write to the store.

* `AppState`, `AppState.pushLog` and its like — the store and its setters.
* `BackendEvent`, `AppState.take` — what the backend emits, and the handler of each event.
* `FrontendEvent`, `AppState.step`, `AppState.run` — everything that happens to the store, in any
  order: events, the watchdog, answers of commands, the user.
* `AppState.log_newest` — **the feed never loses a line but to make room for 500 newer ones**.
* `AppState.speaking_heard` — **nobody is among the speakers without having been heard**: not after
  the call is over, and not longer than the watchdog allows.

A record that is set merges into the one before it, and only one that is reconciled replaces it.
The words of a line in one of the languages are left out, and what the handlers assign past the
setters of the store, which it ignores: the mute of the status.
-/

namespace TcVoice
namespace Desktop

/-! ## Events -/

/-- `ConnState`. -/
inductive ConnState where
  | disconnected
  | connecting
  | connected (server : String)
  | reconnecting (attempt delaySecs : ℕ)
  deriving DecidableEq, Repr

/-- `VoiceLevelPayload`; `L` is the type of a level.  The loss, the tier, the rates and what is
muted, registered and live, which the backend sends along and the window shows, are left out. -/
structure VoiceLevelPayload (L : Type) where
  inputPeak : L
  speakers : List (String × L)
  deriving DecidableEq, Repr

/-- `InvitePayload`. -/
structure InvitePayload where
  addr : String
  channel : Option String
  deriving DecidableEq, Repr

/-- The events that the store listens to.  `voice_levels` is not one: it feeds the fast lane of
`live.ts`, from which the window draws the levels while it is fresh.  `muted_changed` is left out
with the part of the status that it sets, `devices_changed` with the lists of the settings, and
`invite` is in `TcVoice.Desktop.Invites`. -/
inductive BackendEvent (L : Type) where
  | connectionState (s : ConnState)
  | joinedChannel (channelId : ChannelId) (participants : List String)
  | leftChannel
  | peerJoined (name : String)
  | peerLeft (name : String)
  | chatMessage («from» text : String)
  | directMessage (fromPubkey fromName text : String)
  | channelList (channels : List ChannelInfo)
  | error (message : String)
  | nameChanged (oldName newName : String)
  | voiceLevel (v : VoiceLevelPayload L)
  | voiceStopped
  | echoTestStarted
  | echoTestResult (r : EchoResult)
  | deviceAdded (d : NewDevice)
  | log (text : String)
  | devLog (level target message : String)
  | quickJoin

/-! ## The store -/

/-- What a line says. -/
inductive LineText where
  | connecting
  | connected (server : String)
  | reconnecting (attempt delaySecs : ℕ)
  | disconnected
  | joinedChannel (channel : ChannelId) (count : ℕ)
  | leftChannel
  | peerJoined (name : String)
  | peerLeft (name : String)
  | said («from» text : String)
  | dmFrom (name text : String)
  | error (message : String)
  | youAre (name : String)
  | nameChanged (old new : String)
  | soundCheckRecording
  | soundCheckOk
  | soundCheckNoConn
  | soundCheckNoMic
  | soundCheckSilent
  | devLog (level target message : String)
  | text (s : String)
  deriving DecidableEq, Repr

/-- The kind of a line. -/
inductive LogKind where
  | info
  | chat
  | dm
  | system
  | error
  | devlog
  deriving DecidableEq, Repr

/-- `LogLine`. -/
structure LogLine where
  id : ℕ
  text : LineText
  kind : LogKind
  /-- Unix seconds. -/
  ts : Option ℕ
  deriving DecidableEq, Repr

/-- The state of the connection, as the window shows it. -/
inductive Conn where
  | disconnected
  | connecting
  | connected
  | reconnecting
  deriving DecidableEq, Repr

/-- The thread that is open. -/
structure Dm where
  pubkeyHex : String
  name : String
  deriving DecidableEq, Repr

/-- `AppStatus`, as far as the store reads it. -/
structure AppStatus where
  connected : Bool
  serverAddr : Option String
  channel : Option ChannelId
  name : Option String
  deriving DecidableEq, Repr

/-- `AppState`, with the variables of `store.ts` and `wire.ts` that go with it: the next number of
a line, which JavaScript counts exactly below `2 ^ 53`, the time of the last voice level and the
devices that were declined. -/
structure AppState (L : Type) where
  status : Option AppStatus
  conn : Conn
  serverAddr : String
  channel : Option ChannelId
  participants : List String
  channelList : List ChannelInfo
  log : List LogLine
  voice : Option (VoiceLevelPayload L)
  speakers : Table String L
  dm : Option Dm
  dmLog : List LogLine
  devLogs : Bool
  devicePrompt : Option NewDevice
  peerVolumes : Table String ℕ
  nextId : ℕ
  lastVoiceLevelAt : ℕ
  dismissedDevices : List NewDevice

/-- The lines that a feed keeps. -/
def feedCapacity : ℕ := 500

/-- `VOICE_LEVEL_STALL_MS`. -/
def voiceLevelStallMs : ℕ := 1000

/-- A line behind the others, of which the newest are kept. -/
def feed (lines : List LogLine) (line : LogLine) : List LogLine :=
  let next := lines ++ [line]
  if feedCapacity < next.length then next.drop (next.length - feedCapacity) else next

/-- A record with the entries of a list, in order.  The names of peers are its keys; those that
every object of JavaScript answers to, such as `constructor`, are left out. -/
def recordOf {V : Type} (entries : List (String × V)) : Table String V :=
  entries.foldl (fun m e => m.insert e.1 e.2) ∅

/-- What a rename makes of a record: the new key first, then the old one is deleted. -/
def renameKey {V : Type} (m : Table String V) (oldName newName : String) : Table String V :=
  match m.lookup oldName with
  | none => m
  | some v => (m.insert newName v).erase oldName

/-- What a plain `setState` leaves of a record: it merges, and never deletes a key. -/
def merged {V : Type} (m next : Table String V) : Table String V := next ∪ m

namespace AppState

variable {L : Type}

/-- The store of a window that has just opened. -/
def init : AppState L where
  status := none
  conn := .disconnected
  serverAddr := "127.0.0.1:7100"
  channel := none
  participants := []
  channelList := []
  log := []
  voice := none
  speakers := ∅
  dm := none
  dmLog := []
  devLogs := false
  devicePrompt := none
  peerVolumes := ∅
  nextId := 1
  lastVoiceLevelAt := 0
  dismissedDevices := []

variable (s : AppState L)

/-- `pushLog`. -/
def pushLog (text : LineText) (kind : LogKind) (ts : Option ℕ) : AppState L :=
  { s with log := feed s.log ⟨s.nextId, text, kind, ts⟩, nextId := s.nextId + 1 }

/-- `update.pushDmLog`. -/
def pushDmLog (text : LineText) (kind : LogKind) (ts : Option ℕ) : AppState L :=
  { s with dmLog := feed s.dmLog ⟨s.nextId, text, kind, ts⟩, nextId := s.nextId + 1 }

/-- `update.channel`. -/
def setChannel (channel : Option ChannelId) (participants : List String) : AppState L :=
  { s with channel, participants }

/-- `update.addParticipant`. -/
def addParticipant (name : String) : AppState L :=
  { s with
    participants := if name ∈ s.participants then s.participants else s.participants ++ [name] }

/-- `update.removeParticipant`. -/
def removeParticipant (name : String) : AppState L :=
  { s with participants := s.participants.filter fun p => p ≠ name }

/-- `update.renameParticipant`. -/
def renameParticipant (oldName newName : String) : AppState L :=
  { s with
    participants := s.participants.map fun p => if p = oldName then newName else p
    speakers := renameKey s.speakers oldName newName
    status := s.status.map fun st =>
      if st.name = some oldName then { st with name := some newName } else st }

/-- `update.voice`. -/
def setVoice (voice : Option (VoiceLevelPayload L)) : AppState L :=
  match voice with
  | none => { s with voice := none, speakers := ∅ }
  | some v => { s with voice := some v, speakers := recordOf v.speakers }

/-- `update.peerVolume`. -/
def peerVolume (name : String) (pct : ℕ) : AppState L :=
  { s with
    peerVolumes := merged s.peerVolumes
      (if pct = 100 then s.peerVolumes.erase name else s.peerVolumes.insert name pct) }

/-- `update.renamePeerVolume`. -/
def renamePeerVolume (oldName newName : String) : AppState L :=
  { s with peerVolumes := merged s.peerVolumes (renameKey s.peerVolumes oldName newName) }

/-- `update.openDm`. -/
def openDm (pubkeyHex name : String) : AppState L :=
  { s with dm := some ⟨pubkeyHex, name⟩, dmLog := [] }

/-- `update.closeDm`. -/
def closeDm : AppState L := { s with dm := none, dmLog := [] }

/-! ## The handlers -/

/-- What the window clears when it has no session any more. -/
def clear : AppState L :=
  { s.setChannel none [] with channelList := [], voice := none, speakers := ∅ }

/-- The handler of `connection_state`. -/
def connectionState : ConnState → AppState L
  | .connecting => ({ s with conn := .connecting }.clear).pushLog .connecting .system none
  | .connected server =>
    { s with conn := .connected, serverAddr := server }.pushLog (.connected server) .system none
  | .reconnecting attempt delaySecs =>
    ({ s with conn := .reconnecting }.clear).pushLog (.reconnecting attempt delaySecs) .system none
  | .disconnected => ({ s with conn := .disconnected }.clear).pushLog .disconnected .system none

/-- The verdict of a sound check. -/
def soundCheck (r : EchoResult) : AppState L :=
  if r.roundtripOk then s.pushLog .soundCheckOk .system none
  else if !r.registered then s.pushLog .soundCheckNoConn .error none
  else if !r.micOk then s.pushLog .soundCheckNoMic .error none
  else s.pushLog .soundCheckSilent .error none

/-- The handler of an event, in the millisecond `now`, up to what it waits for. -/
def take (now : ℕ) : BackendEvent L → AppState L
  | .connectionState c => s.connectionState c
  | .joinedChannel channelId participants =>
    (s.setChannel (some channelId) participants).pushLog
      (.joinedChannel channelId participants.length) .system none
  | .leftChannel => ((s.setChannel none []).setVoice none).pushLog .leftChannel .system none
  | .peerJoined name => (s.addParticipant name).pushLog (.peerJoined name) .system none
  | .peerLeft name => (s.removeParticipant name).pushLog (.peerLeft name) .system none
  | .chatMessage sender text => s.pushLog (.said sender text) .chat (some (now / 1000))
  | .directMessage fromPubkey fromName text =>
    if (s.dm.map Dm.pubkeyHex) = some fromPubkey then
      s.pushDmLog (.said fromName text) .dm (some (now / 1000))
    else s.pushLog (.dmFrom fromName text) .dm (some (now / 1000))
  | .channelList channels => { s with channelList := channels }
  | .error message => s.pushLog (.error message) .error none
  | .nameChanged oldName newName =>
    if oldName = "" then s.pushLog (.youAre newName) .system none
    else
      let s := s.pushLog (.nameChanged oldName newName) .system none
      (s.renameParticipant oldName newName).renamePeerVolume oldName newName
  | .voiceLevel v => { s with lastVoiceLevelAt := now }.setVoice (some v)
  | .voiceStopped => s.setVoice none
  | .echoTestStarted => s.pushLog .soundCheckRecording .system none
  | .echoTestResult r => s.soundCheck r
  | .deviceAdded d =>
    if d ∈ s.dismissedDevices then s else { s with devicePrompt := some d }
  | .log text => s.pushLog (.text text) .system none
  | .devLog level target message =>
    if s.devLogs then s.pushLog (.devLog level target message) .devlog none else s
  | .quickJoin => s.pushLog (.text "hotkey: quick_join (no target set)") .system none

/-- `fetchInitialStatus`. -/
def fetchInitialStatus (st : AppStatus) : AppState L :=
  let s := { s with
    status := some st
    conn := if st.connected then .connected else s.conn
    serverAddr := (st.serverAddr.filter fun a => a ≠ "").getD s.serverAddr }
  match st.channel.filter fun c => c ≠ "" with
  | some channel => s.setChannel (some channel) []
  | none => s

/-- The watchdog, which looks every half second. -/
def watchdog (now : ℕ) : AppState L :=
  if s.voice.isSome ∧ voiceLevelStallMs < now - s.lastVoiceLevelAt then s.setVoice none else s

end AppState

/-! ## Everything that happens to the store -/

/-- An event of the backend, a look of the watchdog, the answer of a command, or something that
the user does.  A line that the window writes for a reason of its own is a `note`, and in the open
thread a `dmNote`. -/
inductive FrontendEvent (L : Type) where
  | emitted (event : BackendEvent L) (now : ℕ)
  | watchdog (now : ℕ)
  | initialStatus (st : AppStatus)
  | gotStatus (st : AppStatus)
  | gotServerAddr (addr : String)
  | gotPeerVolumes (entries : List (String × ℕ))
  | gotHistory (line : ChatLine)
  | note (text : LineText) (kind : LogKind) (ts : Option ℕ)
  | openDm (pubkeyHex name : String)
  | closeDm
  | dmNote (text : LineText) (kind : LogKind) (ts : Option ℕ)
  | setDevLogs (on : Bool)
  | setPeerVolume (name : String) (pct : ℕ)
  | declineDevice
  | acceptDevice

namespace AppState

variable {L : Type}

/-- The store after it. -/
def step (s : AppState L) : FrontendEvent L → AppState L
  | .emitted event now => s.take now event
  | .watchdog now => s.watchdog now
  | .initialStatus st => s.fetchInitialStatus st
  | .gotStatus st => { s with status := some st }
  | .gotServerAddr addr => { s with serverAddr := addr }
  | .gotPeerVolumes entries => { s with peerVolumes := recordOf entries }
  | .gotHistory line =>
    s.pushLog (.said line.from line.text) (if line.kind = .dm then .dm else .chat)
      (some line.tsUnix)
  | .note text kind ts => s.pushLog text kind ts
  | .openDm pubkeyHex name => s.openDm pubkeyHex name
  | .closeDm => s.closeDm
  | .dmNote text kind ts => s.pushDmLog text kind ts
  | .setDevLogs on => { s with devLogs := on }
  | .setPeerVolume name pct => s.peerVolume name pct
  | .declineDevice =>
    { s with
      dismissedDevices := s.dismissedDevices ++ s.devicePrompt.toList, devicePrompt := none }
  | .acceptDevice => { s with devicePrompt := none }

/-- The store after all of a list of events. -/
def run (s : AppState L) (es : List (FrontendEvent L)) : AppState L := es.foldl step s

theorem run_concat (s : AppState L) (es : List (FrontendEvent L)) (e : FrontendEvent L) :
    s.run (es ++ [e]) = (s.run es).step e := by
  rw [run, List.foldl_append]
  rfl

/-! ## The feeds -/

/-- What an event does to the feeds: it writes a line to one of them, or it leaves them alone but
for a thread that is opened or closed. -/
inductive Writes (s : AppState L) : AppState L → Prop
  | main (s' : AppState L) (line : LogLine) (hid : line.id = s.nextId)
      (hlog : s'.log = feed s.log line) (hdm : s'.dmLog = s.dmLog)
      (hnext : s'.nextId = s.nextId + 1) : Writes s s'
  | thread (s' : AppState L) (line : LogLine) (hid : line.id = s.nextId)
      (hlog : s'.log = s.log) (hdm : s'.dmLog = feed s.dmLog line)
      (hnext : s'.nextId = s.nextId + 1) : Writes s s'
  | still (s' : AppState L) (hlog : s'.log = s.log) (hdm : s'.dmLog = s.dmLog ∨ s'.dmLog = [])
      (hnext : s'.nextId = s.nextId) : Writes s s'

/-- The lines of a feed are in order of their numbers, all of them below the next one, and there
are no more of them than there is room for. -/
structure InOrder (next : ℕ) (lines : List LogLine) : Prop where
  sorted : lines.Pairwise fun a b => a.id < b.id
  below : ∀ a ∈ lines, a.id < next
  len : lines.length ≤ feedCapacity

/-- What holds of the two feeds at all times: no number is used twice. -/
structure Numbered (s : AppState L) : Prop where
  log : InOrder s.nextId s.log
  dmLog : InOrder s.nextId s.dmLog
  apart : ∀ a ∈ s.log, ∀ b ∈ s.dmLog, a.id ≠ b.id

/-- A line is there, or the feed is full of newer ones. -/
def KeptOrOlder (lines : List LogLine) (line : LogLine) : Prop :=
  line ∈ lines ∨ lines.length = feedCapacity ∧ ∀ l ∈ lines, line.id < l.id

section Feed

variable {lines : List LogLine} {line l : LogLine} {n : ℕ}

theorem feed_eq (lines : List LogLine) (line : LogLine) :
    feed lines line = (lines ++ [line]).rtake feedCapacity := by
  unfold feed List.rtake
  dsimp only
  split
  · rfl
  · rename_i hfits
    rw [Nat.sub_eq_zero_of_le (not_lt.1 hfits), List.drop_zero]

theorem mem_of_mem_feed (h : l ∈ feed lines line) : l ∈ lines ∨ l = line := by
  rw [feed_eq] at h
  simpa using List.mem_of_mem_drop h

theorem InOrder.nil (next : ℕ) : InOrder next [] := by constructor <;> simp

theorem InOrder.mono {next : ℕ} (h : InOrder n lines) (hle : n ≤ next) : InOrder next lines :=
  ⟨h.sorted, fun a ha => (h.below a ha).trans_le hle, h.len⟩

theorem InOrder.sorted_concat (h : InOrder line.id lines) :
    (lines ++ [line]).Pairwise fun a b => a.id < b.id := by
  simpa [List.pairwise_append, h.sorted] using h.below

theorem InOrder.feed (h : InOrder line.id lines) : InOrder (line.id + 1) (feed lines line) where
  sorted := by
    rw [feed_eq]
    exact h.sorted_concat.sublist (List.drop_sublist _ _)
  below a ha := by
    rcases mem_of_mem_feed ha with hold | rfl
    · exact (h.below a hold).trans (Nat.lt_succ_self _)
    · exact Nat.lt_succ_self _
  len := by
    rw [feed_eq, List.rtake, List.length_drop]
    omega

/-- What one more line pushes out is older than all that is left. -/
theorem keptOrOlder_feed (h : InOrder line.id lines) (hold : l.id < line.id)
    (hkept : KeptOrOlder lines l) : KeptOrOlder (feed lines line) l := by
  rcases hkept with hmem | ⟨hfull, holder⟩
  · have hall : l ∈ lines ++ [line] := List.mem_append_left _ hmem
    have hpair := h.sorted_concat
    have hsplit := List.take_append_drop ((lines ++ [line]).length - feedCapacity)
      (lines ++ [line])
    rw [← hsplit, List.mem_append] at hall
    rw [← hsplit, List.pairwise_append] at hpair
    rw [KeptOrOlder, feed_eq]
    rcases hall with hgone | hkept
    · refine .inr ⟨?_, hpair.2.2 l hgone⟩
      have hpos := List.length_pos_of_mem hgone
      rw [List.length_take] at hpos
      rw [List.rtake, List.length_drop]
      omega
    · exact .inl hkept
  · refine .inr ⟨?_, fun l' hl' => ?_⟩
    · rw [feed_eq, List.rtake, List.length_drop, List.length_append, List.length_singleton]
      omega
    · rcases mem_of_mem_feed hl' with hmem | rfl
      · exact holder l' hmem
      · exact hold

end Feed

section Lines

variable {s s' : AppState L}

theorem writes_pushLog (text : LineText) (kind : LogKind) (ts : Option ℕ) :
    Writes s (s.pushLog text kind ts) := .main _ _ rfl rfl rfl rfl

theorem writes_pushDmLog (text : LineText) (kind : LogKind) (ts : Option ℕ) :
    Writes s (s.pushDmLog text kind ts) := .thread _ _ rfl rfl rfl rfl

theorem writes_take (now : ℕ) (event : BackendEvent L) : Writes s (s.take now event) := by
  cases event with
  | connectionState c => cases c <;> exact .main _ _ rfl rfl rfl rfl
  | directMessage fromPubkey fromName text =>
    simp only [take]
    split
    · exact writes_pushDmLog ..
    · exact writes_pushLog ..
  | nameChanged oldName newName =>
    simp only [take]
    split
    · exact writes_pushLog ..
    · exact .main _ _ rfl rfl rfl rfl
  | echoTestResult r =>
    simp only [take, soundCheck]
    repeat' split
    all_goals exact writes_pushLog ..
  | deviceAdded d =>
    simp only [take]
    split <;> exact .still _ rfl (.inl rfl) rfl
  | devLog level target message =>
    simp only [take]
    split
    · exact writes_pushLog ..
    · exact .still _ rfl (.inl rfl) rfl
  | channelList channels => exact .still _ rfl (.inl rfl) rfl
  | voiceLevel v => exact .still _ rfl (.inl rfl) rfl
  | voiceStopped => exact .still _ rfl (.inl rfl) rfl
  | _ => exact .main _ _ rfl rfl rfl rfl

theorem writes_step (e : FrontendEvent L) : Writes s (s.step e) := by
  cases e with
  | emitted event now => exact writes_take now event
  | watchdog now =>
    simp only [step, watchdog]
    split <;> exact .still _ rfl (.inl rfl) rfl
  | initialStatus st =>
    simp only [step, fetchInitialStatus]
    split <;> exact .still _ rfl (.inl rfl) rfl
  | gotHistory line => exact writes_pushLog ..
  | note text kind ts => exact writes_pushLog ..
  | dmNote text kind ts => exact writes_pushDmLog ..
  | openDm pubkeyHex name => exact .still _ rfl (.inr rfl) rfl
  | closeDm => exact .still _ rfl (.inr rfl) rfl
  | _ => exact .still _ rfl (.inl rfl) rfl

theorem numbered_init : (init : AppState L).Numbered :=
  ⟨.nil _, .nil _, fun _ h => absurd h List.not_mem_nil⟩

theorem Numbered.writes (h : s.Numbered) (hw : Writes s s') : s'.Numbered := by
  cases hw with
  | main line hid hlog hdm hnext =>
    constructor
    · rw [hlog, hnext, ← hid]
      exact (hid ▸ h.log).feed
    · rw [hdm, hnext]
      exact h.dmLog.mono (Nat.le_succ _)
    · rw [hlog, hdm]
      intro a ha b hb
      rcases mem_of_mem_feed ha with hold | rfl
      · exact h.apart a hold b hb
      · exact hid ▸ (h.dmLog.below b hb).ne'
  | thread line hid hlog hdm hnext =>
    constructor
    · rw [hlog, hnext]
      exact h.log.mono (Nat.le_succ _)
    · rw [hdm, hnext, ← hid]
      exact (hid ▸ h.dmLog).feed
    · rw [hlog, hdm]
      intro a ha b hb
      rcases mem_of_mem_feed hb with hold | rfl
      · exact h.apart a ha b hold
      · exact hid ▸ (h.log.below a ha).ne
  | still hlog hdm hnext =>
    rcases hdm with hdm | hdm
    · constructor
      · exact hlog ▸ hnext ▸ h.log
      · exact hdm ▸ hnext ▸ h.dmLog
      · exact hlog ▸ hdm ▸ h.apart
    · constructor
      · exact hlog ▸ hnext ▸ h.log
      · exact hdm ▸ .nil _
      · simp [hdm]

theorem numbered_run (h : s.Numbered) (es : List (FrontendEvent L)) : (s.run es).Numbered := by
  induction es generalizing s with
  | nil => exact h
  | cons e es ih => exact ih (h.writes (writes_step e))

/-- A line that was written before, and is there or was pushed out, stays so. -/
theorem keptOrOlder_step {line : LogLine} (h : s.Numbered) (hid : line.id < s.nextId)
    (hkept : KeptOrOlder s.log line) (e : FrontendEvent L) :
    line.id < (s.step e).nextId ∧ KeptOrOlder (s.step e).log line := by
  cases writes_step e with
  | main new hnew hlog hdm hnext =>
    refine ⟨hnext ▸ hid.trans (Nat.lt_succ_self _), ?_⟩
    rw [hlog]
    exact keptOrOlder_feed (hnew ▸ h.log) (hnew ▸ hid) hkept
  | thread new hnew hlog hdm hnext =>
    exact ⟨hnext ▸ hid.trans (Nat.lt_succ_self _), hlog ▸ hkept⟩
  | still hlog hdm hnext => exact ⟨hnext ▸ hid, hlog ▸ hkept⟩

theorem keptOrOlder_run {line : LogLine} (h : s.Numbered) (hid : line.id < s.nextId)
    (hkept : KeptOrOlder s.log line) (es : List (FrontendEvent L)) :
    KeptOrOlder (s.run es).log line := by
  induction es generalizing s with
  | nil => exact hkept
  | cons e es ih =>
    obtain ⟨hid', hkept'⟩ := keptOrOlder_step h hid hkept e
    exact ih (h.writes (writes_step e)) hid' hkept'

/-- At all times the lines of the two feeds are numbered in order and apart, at most 500 of each;
and a line of the main feed is there for good, unless 500 newer ones have pushed it out. -/
theorem log_newest (es fs : List (FrontendEvent L)) :
    ((init.run es).run fs).Numbered ∧
      ∀ line ∈ (init.run es).log, KeptOrOlder ((init.run es).run fs).log line := by
  have h := numbered_run numbered_init es
  exact ⟨numbered_run h fs, fun line hline =>
    keptOrOlder_run h (h.log.below line hline) (.inl hline) fs⟩

end Lines

/-! ## Who is shown speaking -/

/-- The events after which nobody speaks. -/
def Silencing : FrontendEvent L → Prop
  | .emitted (.connectionState c) _ => ∀ server, c ≠ .connected server
  | .emitted .leftChannel _ | .emitted .voiceStopped _ => True
  | _ => False

/-- A level of the voices. -/
def Level : FrontendEvent L → Prop
  | .emitted (.voiceLevel _) _ => True
  | _ => False

/-- What a speaker is called after an event. -/
def calledAfter (name : String) : FrontendEvent L → String
  | .emitted (.nameChanged oldName newName) _ =>
    if oldName ≠ "" ∧ name = oldName then newName else name
  | _ => name

/-- The speakers are those of the level `v`, which came at `t`, under what they are called after
the events `after`, which silence nobody; and the watchdog has seen nothing wrong. -/
structure HeardAt (s : AppState L) (v : VoiceLevelPayload L) (t : ℕ)
    (after : List (FrontendEvent L)) : Prop where
  voice : s.voice = some v
  last : s.lastVoiceLevelAt = t
  quiet : ∀ e ∈ after, ¬ Silencing e ∧ ¬ Level e
  fresh : ∀ now, .watchdog now ∈ after → now - t ≤ voiceLevelStallMs
  heard : ∀ name level, s.speakers.lookup name = some level →
    ∃ spoke, (spoke, level) ∈ v.speakers ∧ after.foldl calledAfter spoke = name

/-- The window shows no voice, or what the last level has told it. -/
def Shown (s : AppState L) (es : List (FrontendEvent L)) : Prop :=
  s.voice = none ∧ s.speakers = ∅ ∨
    ∃ before v t after, es = before ++ .emitted (.voiceLevel v) t :: after ∧ s.HeardAt v t after

section Speaking

variable {s : AppState L} {es : List (FrontendEvent L)}

theorem lookup_recordOf {V : Type} (entries : List (String × V)) {m : Table String V}
    {name : String} {v : V}
    (h : (entries.foldl (fun m e => m.insert e.1 e.2) m).lookup name = some v) :
    (name, v) ∈ entries ∨ m.lookup name = some v := by
  induction entries generalizing m with
  | nil => exact .inr h
  | cons e entries ih =>
    rcases ih h with hmem | hin
    · exact .inl (List.mem_cons_of_mem _ hmem)
    · rw [Table.lookup_insert_if] at hin
      split at hin
      · rename_i hname
        cases hin
        exact .inl (hname ▸ List.mem_cons_self)
      · exact .inr hin

theorem mem_of_lookup_recordOf {V : Type} {entries : List (String × V)} {name : String} {v : V}
    (h : (recordOf entries).lookup name = some v) : (name, v) ∈ entries := by
  rcases lookup_recordOf entries h with hmem | hin
  · exact hmem
  · rw [Finmap.lookup_empty] at hin
    cases hin

/-- Of a renamed record each entry was there, under the name that it had. -/
theorem lookup_renameKey {V : Type} {m : Table String V} {oldName newName name : String} {v : V}
    (h : (renameKey m oldName newName).lookup name = some v) :
    ∃ was, m.lookup was = some v ∧ (if was = oldName then newName else was) = name := by
  unfold renameKey at h
  split at h
  · rename_i hnone
    refine ⟨name, h, if_neg ?_⟩
    rintro rfl
    rw [hnone] at h
    cases h
  · rename_i w hw
    rw [Table.lookup_erase_if] at h
    split at h
    · cases h
    · rename_i hne
      rw [Table.lookup_insert_if] at h
      split at h
      · rename_i hname
        cases h
        exact ⟨oldName, hw, by simp [hname]⟩
      · exact ⟨name, h, if_neg hne⟩

/-- An event that has nothing to do with the voices leaves them as they are. -/
theorem HeardAt.concat {s' : AppState L} {v : VoiceLevelPayload L} {t : ℕ}
    {after : List (FrontendEvent L)} {e : FrontendEvent L} (h : s.HeardAt v t after)
    (hvoice : s'.voice = s.voice) (hlast : s'.lastVoiceLevelAt = s.lastVoiceLevelAt)
    (hquiet : ¬ Silencing e ∧ ¬ Level e)
    (hfresh : ∀ now, e = .watchdog now → now - t ≤ voiceLevelStallMs)
    (hheard : ∀ name level, s'.speakers.lookup name = some level →
      ∃ was, s.speakers.lookup was = some level ∧ calledAfter was e = name) :
    s'.HeardAt v t (after ++ [e]) where
  voice := hvoice.trans h.voice
  last := hlast.trans h.last
  quiet e' he' := by
    rcases List.mem_append.1 he' with hold | hnew
    · exact h.quiet e' hold
    · exact List.mem_singleton.1 hnew ▸ hquiet
  fresh now hmem := by
    rcases List.mem_append.1 hmem with hold | hnew
    · exact h.fresh now hold
    · exact hfresh now (List.mem_singleton.1 hnew).symm
  heard name level hlookup := by
    obtain ⟨was, hwas, hcalled⟩ := hheard name level hlookup
    obtain ⟨spoke, hspoke, hname⟩ := h.heard was level hwas
    refine ⟨spoke, hspoke, ?_⟩
    rw [List.foldl_append, hname]
    exact hcalled

/-- What an event does to the voices: it silences them, it is a level, it renames a speaker, or it
leaves them as they are. -/
inductive Voices (s : AppState L) (e : FrontendEvent L) : Prop
  | silent (hvoice : (s.step e).voice = none) (hspeakers : (s.step e).speakers = ∅)
  | level (v : VoiceLevelPayload L) (t : ℕ) (he : e = .emitted (.voiceLevel v) t)
  | kept (hvoice : (s.step e).voice = s.voice)
      (hlast : (s.step e).lastVoiceLevelAt = s.lastVoiceLevelAt)
      (hquiet : ¬ Silencing e ∧ ¬ Level e)
      (hfresh : ∀ now, e = .watchdog now → s.voice.isSome = true →
        now - s.lastVoiceLevelAt ≤ voiceLevelStallMs)
      (hspeakers : ∀ name level, (s.step e).speakers.lookup name = some level →
        ∃ was, s.speakers.lookup was = some level ∧ calledAfter was e = name)

theorem Voices.same {e : FrontendEvent L} (hvoice : (s.step e).voice = s.voice)
    (hlast : (s.step e).lastVoiceLevelAt = s.lastVoiceLevelAt)
    (hspeakers : (s.step e).speakers = s.speakers) (hquiet : ¬ Silencing e ∧ ¬ Level e)
    (hfresh : ∀ now, e ≠ .watchdog now) (hcalled : ∀ name, calledAfter name e = name) :
    Voices s e :=
  .kept hvoice hlast hquiet (fun now he => absurd he (hfresh now))
    fun name _ h => ⟨name, hspeakers ▸ h, hcalled name⟩

theorem voices_take (now : ℕ) (event : BackendEvent L) : Voices s (.emitted event now) := by
  cases event with
  | connectionState c =>
    cases c with
    | connected server =>
      exact .same rfl rfl rfl ⟨fun h => h server rfl, id⟩ (fun _ h => by cases h) fun _ => rfl
    | _ => exact .silent rfl rfl
  | leftChannel => exact .silent rfl rfl
  | voiceStopped => exact .silent rfl rfl
  | voiceLevel v => exact .level v now rfl
  | nameChanged oldName newName =>
    by_cases hold : oldName = ""
    · refine .same ?_ ?_ ?_ ⟨id, id⟩ (fun _ h => by cases h) fun name => ?_
      all_goals simp [step, take, calledAfter, hold, pushLog]
    · refine .kept ?_ ?_ ⟨id, id⟩ (fun _ h => by cases h) fun name level h => ?_
      · simp [step, take, hold, renamePeerVolume, renameParticipant, pushLog]
      · simp [step, take, hold, renamePeerVolume, renameParticipant, pushLog]
      · simp only [step, take, hold, if_false, renamePeerVolume, renameParticipant, pushLog] at h
        obtain ⟨was, hwas, hname⟩ := lookup_renameKey h
        exact ⟨was, hwas, by simpa [calledAfter, hold] using hname⟩
  | directMessage fromPubkey fromName text =>
    refine .same ?_ ?_ ?_ ⟨id, id⟩ (fun _ h => by cases h) fun _ => rfl
    all_goals
      simp only [step, take]
      split <;> rfl
  | echoTestResult r =>
    refine .same ?_ ?_ ?_ ⟨id, id⟩ (fun _ h => by cases h) fun _ => rfl
    all_goals
      simp only [step, take, soundCheck]
      repeat' split
      all_goals rfl
  | deviceAdded d =>
    refine .same ?_ ?_ ?_ ⟨id, id⟩ (fun _ h => by cases h) fun _ => rfl
    all_goals
      simp only [step, take]
      split <;> rfl
  | devLog level target message =>
    refine .same ?_ ?_ ?_ ⟨id, id⟩ (fun _ h => by cases h) fun _ => rfl
    all_goals
      simp only [step, take]
      split <;> rfl
  | _ => exact .same rfl rfl rfl ⟨id, id⟩ (fun _ h => by cases h) fun _ => rfl

theorem voices_step (e : FrontendEvent L) : Voices s e := by
  cases e with
  | emitted event now => exact voices_take now event
  | watchdog now =>
    by_cases hstale : s.voice.isSome ∧ voiceLevelStallMs < now - s.lastVoiceLevelAt
    · exact .silent (by simp [step, watchdog, hstale, setVoice])
        (by simp [step, watchdog, hstale, setVoice])
    · have hsame : s.step (.watchdog now) = s := if_neg hstale
      refine .kept (by rw [hsame]) (by rw [hsame]) ⟨id, id⟩ ?_ fun name _ h => ?_
      · intro now' he hsome
        cases he
        exact not_lt.1 fun hlt => hstale ⟨hsome, hlt⟩
      · exact ⟨name, hsame ▸ h, rfl⟩
  | initialStatus st =>
    refine .same ?_ ?_ ?_ ⟨id, id⟩ (fun _ h => by cases h) fun _ => rfl
    all_goals
      simp only [step, fetchInitialStatus]
      split <;> rfl
  | _ => exact .same rfl rfl rfl ⟨id, id⟩ (fun _ h => by cases h) fun _ => rfl

theorem Shown.step (h : s.Shown es) (e : FrontendEvent L) : (s.step e).Shown (es ++ [e]) := by
  cases voices_step (s := s) e with
  | silent hvoice hspeakers => exact .inl ⟨hvoice, hspeakers⟩
  | level v t he =>
    subst he
    refine .inr ⟨es, v, t, [], by simp, rfl, rfl, by simp, by simp, ?_⟩
    exact fun name level hlookup => ⟨name, mem_of_lookup_recordOf hlookup, rfl⟩
  | kept hvoice hlast hquiet hfresh hspeakers =>
    rcases h with ⟨hnone, hempty⟩ | ⟨before, v, t, after, rfl, hheard⟩
    · refine .inl ⟨hvoice.trans hnone, Finmap.ext_lookup fun name => ?_⟩
      rw [Finmap.lookup_empty, Option.eq_none_iff_forall_not_mem]
      intro level hlevel
      obtain ⟨was, hwas, -⟩ := hspeakers name level hlevel
      rw [hempty, Finmap.lookup_empty] at hwas
      cases hwas
    · refine .inr ⟨before, v, t, after ++ [e], by simp, ?_⟩
      refine hheard.concat hvoice hlast hquiet (fun now he => ?_) hspeakers
      exact hheard.last ▸ hfresh now he (by rw [hheard.voice]; rfl)

theorem shown_run (es : List (FrontendEvent L)) : (init.run es : AppState L).Shown es := by
  induction es using List.reverseRecOn with
  | nil => exact .inl ⟨rfl, rfl⟩
  | append_singleton es e ih =>
    rw [run_concat]
    exact ih.step e

/-- Whoever is in the record of speakers at a level was heard at that level, under the name of now
or under one that has been changed to it: in the last `voice_level` that came, after which the call
did not end, no connection was lost or begun, and the watchdog has not looked for longer than it
allows. -/
theorem speaking_heard (es : List (FrontendEvent L)) (name : String) (level : L)
    (h : (init.run es).speakers.lookup name = some level) :
    ∃ before v t after, es = before ++ .emitted (.voiceLevel v) t :: after ∧
      (∃ spoke, (spoke, level) ∈ v.speakers ∧ after.foldl calledAfter spoke = name) ∧
      (∀ e ∈ after, ¬ Silencing e ∧ ¬ Level e) ∧
      ∀ now, .watchdog now ∈ after → now - t ≤ voiceLevelStallMs := by
  rcases shown_run es with ⟨-, hempty⟩ | ⟨before, v, t, after, hes, hheard⟩
  · rw [hempty, Finmap.lookup_empty] at h
    cases h
  · exact ⟨before, v, t, after, hes, hheard.heard name level h, hheard.quiet, hheard.fresh⟩

/-- A call in which a speaker is renamed. -/
def renamedCall : List (FrontendEvent ℕ) :=
  [.emitted (.joinedChannel "pub-a" ["ann", "bob"]) 0,
    .emitted (.voiceLevel ⟨0, [("ann", 3)]⟩) 200,
    .watchdog 500,
    .emitted (.nameChanged "ann" "eve") 600]

/-- The renamed speaker is shown under the new name, and was heard under the old one. -/
theorem speaking_heard_renamedCall :
    (init.run renamedCall).speakers.lookup "eve" = some 3 ∧
      ∃ before v t after, renamedCall = before ++ .emitted (.voiceLevel v) t :: after ∧
        (∃ spoke, (spoke, 3) ∈ v.speakers ∧ after.foldl calledAfter spoke = "eve") ∧
        (∀ e ∈ after, ¬ Silencing e ∧ ¬ Level e) ∧
        ∀ now, .watchdog now ∈ after → now - t ≤ voiceLevelStallMs := by
  have hshown : (init.run renamedCall).speakers.lookup "eve" = some 3 := by rfl
  exact ⟨hshown, speaking_heard _ _ _ hshown⟩

end Speaking

end AppState
end Desktop
end TcVoice
