import Mathlib.Data.Rat.Defs
import Mathlib.Algebra.Order.Ring.Unbundled.Rat
import TcVoice.Lib.Table
import TcVoice.Shared.Config
import TcVoice.Shared.Protocol

/-!
# Saved settings

`UserSettings` of `crates/client/src/settings.rs`, which both applications keep in `tc.toml`
and the desktop one exports and imports, and the volumes of the other peers in it,
`crates/client/src/peer_gain.rs`.

Gains are exact here: percents divided by a hundred.
-/

namespace TcVoice
namespace Client

open Table

/-! ## The volumes of the others -/

/-- `PeerGains`: gains by name. -/
structure PeerGains where
  map : Table String ℚ

/-- `max_gain`. -/
def maxGain : ℚ := Config.peerVolMaxPct / 100

/-- `is_unity`. -/
def isUnity (gain : ℚ) : Bool := decide (|gain - 1| < 1 / 2 ^ 23)

/-- `pct_to_gain`. -/
def pctToGain (pct : ℕ) : ℚ := max 0 (min (min pct Config.peerVolMaxPct / 100) maxGain)

namespace PeerGains

/-- `PeerGains::new`. -/
def new : PeerGains := ⟨∅⟩

/-- `set_all_from_pct`: whatever was there before is gone. -/
def setAllFromPct (pcts : Table String ℕ) : PeerGains where
  map := pcts.filterMap fun pct =>
    let gain := pctToGain pct
    if isUnity gain then none else some gain

/-- `get`. -/
def get (gains : PeerGains) (name : String) : ℚ := (gains.map.lookup name).getD 1

/-- `set_pct`. -/
def setPct (gains : PeerGains) (name : String) (pct : ℕ) : PeerGains :=
  let gain := pctToGain pct
  if isUnity gain then ⟨gains.map.erase name⟩ else ⟨gains.map.insert name gain⟩

/-- `rename`. -/
def rename (gains : PeerGains) (old new : String) : PeerGains :=
  match gains.map.lookup old with
  | none => gains
  | some gain => ⟨(gains.map.erase old).insert new gain⟩

end PeerGains

/-! ## The settings -/

/-- `DmPeer`. -/
structure DmPeer where
  pubkeyHex : String
  name : String
  lastSeenUnix : ℕ
  deriving DecidableEq, Repr

/-- `ServerEntry`. -/
structure ServerEntry where
  addr : String
  label : Option String
  lastChannel : Option ChannelId
  favourite : Bool
  lastUsedUnix : ℕ
  deriving DecidableEq, Repr

/-- `UserSettings`. -/
structure UserSettings where
  server : Option String
  inputDevice : Option String
  outputDevice : Option String
  vadLevel : Option ℕ
  inputGain : Option ℕ
  outputVol : Option ℕ
  name : Option String
  voiceMode : Option String
  paranoid : Option Bool
  denoise : Option Bool
  agc : Option Bool
  hotkeys : Table String String
  notifications : Option Bool
  autostart : Option Bool
  closeToTray : Option Bool
  language : Option String
  trustedServers : Table String String
  servers : List ServerEntry
  dmPeers : List DmPeer
  peerVolumes : Table String ℕ
  overlayEnabled : Option Bool
  overlayPosition : Option String
  overlayVisibility : Option String

/-- `UserSettings::default`, which stands for a file that is missing or cannot be read. -/
def UserSettings.default : UserSettings where
  server := none
  inputDevice := none
  outputDevice := none
  vadLevel := none
  inputGain := none
  outputVol := none
  name := none
  voiceMode := none
  paranoid := none
  denoise := none
  agc := none
  hotkeys := ∅
  notifications := none
  autostart := none
  closeToTray := none
  language := none
  trustedServers := ∅
  servers := []
  dmPeers := []
  peerVolumes := ∅
  overlayEnabled := none
  overlayPosition := none
  overlayVisibility := none

end Client
end TcVoice
