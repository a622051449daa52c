import TcVoice.Client.Percents
import TcVoice.Desktop.State
import TcVoice.Server.Tcp

/-!
# The state of the terminal client

What the terminal client keeps of `tc.toml` while it runs, and what it makes of that when it
saves: `main.rs` of `crates/client/src`.

* `TuiApp`, `TuiApp.load`, `TuiApp.buildSettings` — the values, where they come from, and the
  settings that are made of them.
* `Command`, `TuiApp.run` — the commands that save.

The argument of `/server` is the address that it stands for, and those of `/volume` and `/config`
are read already: a number, or the name of the device with that number.
-/

namespace TcVoice
namespace Terminal

open Client Desktop

/-! ## Levels and percents -/

/-- `round` and the cast to `u32`, by the whole part. -/
def roundToNat (x : Float32) : ℕ :=
  let n := x.toUInt32
  if 0.5 ≤ x - n.toFloat32 then min (n.toNat + 1) (2 ^ 32 - 1) else n.toNat

/-- `VAD_RMS_THRESHOLD`. -/
def vadRmsThreshold : Float32 := 0.015

/-- `vad_level_from_threshold`. -/
def vadLevelFromThreshold (threshold : Float32) : ℕ := roundToNat (threshold * 1000.0)

/-- `vad_threshold_from_level`. -/
def vadThresholdFromLevel (level : ℕ) : Float32 := .ofNat level * 0.001

/-- `vol_from_percent`. -/
def volFromPercent (pct : ℕ) : Float32 := .ofNat pct / 100.0

/-- `percent_from_vol`. -/
def percentFromVol (vol : Float32) : ℕ := roundToNat (vol * 100.0)

/-- The level that is not saved. -/
def defaultLevel : ℕ := vadLevelFromThreshold vadRmsThreshold

/-- It is the one that the desktop application starts with. -/
theorem defaultLevel_eq : defaultLevel = 15 := by decide +kernel

/-- The server that is not saved. -/
def defaultServer : String := "127.0.0.1:" ++ toString Config.tcpPort

/-- `sanitize_name`. -/
def sanitizeName (s : String) : String :=
  Server.trim (String.ofList (s.toList.filter fun c => c ≠ '\n' ∧ c ≠ '\r' ∧ c ≠ '\t'))

/-! ## The application -/

/-- `tui::App`, as far as it is saved. -/
structure TuiApp where
  serverAddr : String
  inputDevice : Option String
  outputDevice : Option String
  name : Option String
  vadThreshold : Float32
  inputGain : Float32
  outputVol : Float32
  peerGains : PeerGains
  paranoid : Bool
  denoise : Bool
  agc : Bool

/-- A command that saves. -/
inductive Command where
  | name (arg : Option String)
  | server (addr : String)
  | volume (name : String) (pct : ℕ)
  | agc (arg : Option String)
  | denoise (arg : Option String)
  | paranoid (arg : Option String)
  | configInput (device : String)
  | configOutput (device : String)
  /-- `off` is 0. -/
  | configVad (level : ℕ)
  | configGain (pct : ℕ)
  | configVol (pct : ℕ)
  deriving DecidableEq, Repr

/-- What `on`, `off` and nothing at all make of a switch. -/
def switched (cur : Bool) (arg : Option String) : Option Bool :=
  match (arg.map Server.trim).map toAsciiLowercase with
  | some "on" | some "true" | some "1" => some true
  | some "off" | some "false" | some "0" => some false
  | none | some "" => some (!cur)
  | _ => none

/-- `handle_config_vad`: the new threshold. -/
def handleConfigVad (level : ℕ) : Option Float32 :=
  if level = 0 then some 0.0
  else if level ≤ 100 then some (vadThresholdFromLevel level) else none

/-- `handle_config_vol`: the new factor. -/
def handleConfigVol (pct : ℕ) : Option Float32 :=
  if pct ≤ 200 then some (volFromPercent pct) else none

namespace TuiApp

/-- What `main` makes of `tc.toml`. -/
def load (settings : UserSettings) : TuiApp where
  serverAddr := settings.server.getD defaultServer
  inputDevice := settings.inputDevice
  outputDevice := settings.outputDevice
  name := (settings.name.map sanitizeName).filter (· ≠ "")
  vadThreshold := (settings.vadLevel.map vadThresholdFromLevel).getD vadRmsThreshold
  inputGain := (settings.inputGain.map volFromPercent).getD 1.0
  outputVol := (settings.outputVol.map volFromPercent).getD 1.0
  peerGains := .setAllFromPct settings.peerVolumes
  paranoid := settings.paranoid == some true
  denoise := settings.denoise == some true
  agc := settings.agc.getD true

variable (app : TuiApp)

/-- `build_settings`. -/
def buildSettings : UserSettings :=
  let level := vadLevelFromThreshold app.vadThreshold
  let gainPct := percentFromVol app.inputGain
  let volPct := percentFromVol app.outputVol
  { server := if app.serverAddr ≠ defaultServer then some app.serverAddr else none
    inputDevice := app.inputDevice
    outputDevice := app.outputDevice
    vadLevel := if level ≠ defaultLevel then some level else none
    inputGain := if gainPct ≠ 100 then some gainPct else none
    outputVol := if volPct ≠ 100 then some volPct else none
    name := app.name
    voiceMode := none
    paranoid := if app.paranoid then some true else none
    denoise := if app.denoise then some true else none
    agc := some app.agc
    hotkeys := ∅
    notifications := none
    autostart := none
    closeToTray := none
    language := none
    trustedServers := ∅
    servers := []
    dmPeers := []
    peerVolumes := app.peerGains.pctMap
    overlayEnabled := none
    overlayPosition := none
    overlayVisibility := none }

/-- A command: the application with the new value, which is saved; none if the command is refused
or only shows a value. -/
def run : Command → Option TuiApp
  | .name arg => ((arg.map sanitizeName).filter (· ≠ "")).map fun newName =>
    { app with name := some newName }
  | .server addr => some { app with serverAddr := addr }
  | .volume name pct =>
    if pct ≤ Config.peerVolMaxPct then
      some { app with peerGains := app.peerGains.setPct name pct }
    else none
  | .agc arg => (switched app.agc arg).map fun next => { app with agc := next }
  | .denoise arg => (switched app.denoise arg).map fun next => { app with denoise := next }
  | .paranoid arg => (switched app.paranoid arg).map fun next => { app with paranoid := next }
  | .configInput device => some { app with inputDevice := some device }
  | .configOutput device => some { app with outputDevice := some device }
  | .configVad level => (handleConfigVad level).map fun threshold =>
    { app with vadThreshold := threshold }
  | .configGain pct => (handleConfigVol pct).map fun vol => { app with inputGain := vol }
  | .configVol pct => (handleConfigVol pct).map fun vol => { app with outputVol := vol }

/-- `NameChanged`: without an old name it is about us. -/
def nameChanged (oldName newName : String) : TuiApp :=
  if oldName = "" then
    if app.name.isNone then { app with name := some newName } else app
  else { app with peerGains := app.peerGains.rename oldName newName }

variable {app}

/-- The volumes of the others come from percents at the start, and always. -/
theorem fromPct_load (settings : UserSettings) : (load settings).peerGains.FromPct :=
  PeerGains.fromPct_setAllFromPct _

theorem fromPct_run {app' : TuiApp} {command : Command} (h : app.peerGains.FromPct)
    (hrun : app.run command = some app') : app'.peerGains.FromPct := by
  cases command with
  | volume name pct =>
    simp only [run] at hrun
    split at hrun
    · cases hrun
      exact h.setPct name pct
    · cases hrun
  | server addr | configInput device | configOutput device =>
    cases hrun
    exact h
  | name arg | agc arg | denoise arg | paranoid arg | configVad arg | configGain arg
  | configVol arg =>
    obtain ⟨next, -, rfl⟩ := Option.map_eq_some_iff.1 hrun
    exact h

theorem fromPct_nameChanged (h : app.peerGains.FromPct) (oldName newName : String) :
    (app.nameChanged oldName newName).peerGains.FromPct := by
  unfold nameChanged
  split
  · split <;> exact h
  · exact h.rename oldName newName

end TuiApp
end Terminal
end TcVoice
