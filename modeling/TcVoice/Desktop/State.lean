import TcVoice.Client.Session
import TcVoice.Client.Settings
import TcVoice.Client.Tofu

/-!
# The state of the desktop application

`AppCore` of `apps/desktop/src-tauri/src/state.rs`: what the commands, the hotkeys and the task
that drains the server's messages share behind one lock.

* `VoiceMode`, `AppCore`, `AppCore.new` — the fields, and what a start makes of `tc.toml`.
* `AppCore.applyVoiceMode` and its like — the setters that also write what the audio threads
  read.

The identity is left out, which nothing here changes, and so is the tie between these values and
the copies that the audio threads hold: a value that is shared is one value.
-/

namespace TcVoice
namespace Desktop

open Client

/-- `str::to_ascii_lowercase`. -/
def toAsciiLowercase (s : String) : String := String.ofList (s.toList.map Char.toLower)

/-- Voice capture mode. -/
inductive VoiceMode where
  /-- Always send. -/
  | «open»
  /-- Send what is loud enough. -/
  | vad
  /-- Muted by default; a hotkey unmutes while it is held. -/
  | ptt
  deriving DecidableEq, Repr

namespace VoiceMode

/-- `VoiceMode::parse`. -/
def parse (s : String) : Option VoiceMode :=
  match toAsciiLowercase s with
  | "open" => some .open
  | "vad" => some .vad
  | "ptt" => some .ptt
  | _ => none

/-- `VoiceMode::as_str`. -/
def asStr : VoiceMode → String
  | .open => "open"
  | .vad => "vad"
  | .ptt => "ptt"

theorem parse_asStr (mode : VoiceMode) : parse mode.asStr = some mode := by
  cases mode <;> rfl

end VoiceMode

/-- `PendingJoin`. -/
structure PendingJoin where
  channelId : ChannelId
  udpToken : UInt64
  voiceKey : Bytes
  deriving DecidableEq, Repr

/-- `AppCore`. -/
structure AppCore where
  tofu : TofuInner
  serverAddr : Option String
  conn : Option ServerConnection
  channel : Option ChannelId
  name : Option String
  inputDevice : Option String
  outputDevice : Option String
  voiceMode : VoiceMode
  vadLevelPct : ℕ
  inputGainPct : ℕ
  outputVolPct : ℕ
  /-- Action name to accelerator. -/
  hotkeys : Table String String
  notifications : Bool
  autostart : Bool
  closeToTray : Bool
  language : String
  participants : List String
  overlayEnabled : Bool
  overlayPosition : String
  overlayVisibility : String
  servers : List ServerEntry
  dmPeers : List DmPeer
  muted : Bool
  paranoid : Bool
  denoise : Bool
  agc : Bool
  vadThreshold : ℚ
  inputGain : ℚ
  outputVol : ℚ
  peerGains : PeerGains
  pendingJoin : Option PendingJoin
  /-- The number of the drain task that is running. -/
  drainHandle : Option ℕ

/-- `is_overlay_position`. -/
def isOverlayPosition (s : String) : Bool := decide (s ∈ ["tl", "tr", "lc", "rc", "bl", "br"])

/-- The times at which the overlay is shown. -/
def isOverlayVisibility (s : String) : Bool := decide (s ∈ ["always", "in_call"])

/-- The languages of the user interface. -/
def isLanguage (s : String) : Bool := decide (s ∈ ["en", "ru"])

/-- `pct_to_float`. -/
def pctToFloat (pct : ℕ) : ℚ := min pct 400 / 100

/-- `vad_threshold_for`. -/
def vadThresholdFor (mode : VoiceMode) (levelPct : ℕ) : ℚ :=
  match mode with
  | .open | .ptt => 0
  | .vad =>
    let n := min levelPct 100
    if n = 0 then 0 else 1 / 1000 + n / 100 * (49 / 1000)

namespace AppCore

/-- `AppCore::new`; `macos` is the platform. -/
def new (saved : UserSettings) (macos : Bool) : AppCore :=
  let voiceMode := (saved.voiceMode.bind VoiceMode.parse).getD .vad
  let vadLevelPct := saved.vadLevel.getD 15
  let inputGainPct := saved.inputGain.getD 100
  let outputVolPct := saved.outputVol.getD 100
  { tofu := .new saved.trustedServers
    serverAddr := saved.server
    conn := none
    channel := none
    name := saved.name
    inputDevice := saved.inputDevice
    outputDevice := saved.outputDevice
    voiceMode
    vadLevelPct
    inputGainPct
    outputVolPct
    hotkeys := saved.hotkeys
    notifications := saved.notifications.getD true
    autostart := saved.autostart.getD false
    closeToTray := saved.closeToTray.getD macos
    language := (saved.language.filter isLanguage).getD "en"
    participants := []
    overlayEnabled := saved.overlayEnabled.getD false
    overlayPosition := (saved.overlayPosition.filter isOverlayPosition).getD "tr"
    overlayVisibility := (saved.overlayVisibility.filter isOverlayVisibility).getD "in_call"
    servers := saved.servers
    dmPeers := saved.dmPeers
    muted := decide (voiceMode = .ptt)
    paranoid := saved.paranoid.getD false
    denoise := saved.denoise.getD false
    agc := saved.agc.getD true
    vadThreshold := vadThresholdFor voiceMode vadLevelPct
    inputGain := pctToFloat inputGainPct
    outputVol := pctToFloat outputVolPct
    peerGains := .setAllFromPct saved.peerVolumes
    pendingJoin := none
    drainHandle := none }

variable (c : AppCore)

/-- `apply_voice_mode`. -/
def applyVoiceMode (mode : VoiceMode) : AppCore :=
  { c with
    voiceMode := mode, vadThreshold := vadThresholdFor mode c.vadLevelPct
    muted := decide (mode = .ptt) }

/-- `apply_vad_level`. -/
def applyVadLevel (levelPct : ℕ) : AppCore :=
  let vadLevelPct := min levelPct 100
  { c with vadLevelPct, vadThreshold := vadThresholdFor c.voiceMode vadLevelPct }

/-- `apply_input_gain`. -/
def applyInputGain (pct : ℕ) : AppCore :=
  let inputGainPct := min pct 400
  { c with inputGainPct, inputGain := pctToFloat inputGainPct }

/-- `apply_output_vol`. -/
def applyOutputVol (pct : ℕ) : AppCore :=
  let outputVolPct := min pct 400
  { c with outputVolPct, outputVol := pctToFloat outputVolPct }

/-- `apply_peer_volume`. -/
def applyPeerVolume (name : String) (pct : ℕ) : AppCore :=
  { c with peerGains := c.peerGains.setPct name (min pct Config.peerVolMaxPct) }

end AppCore
end Desktop
end TcVoice
