import TcVoice.Client.Percents
import TcVoice.Desktop.Commands

/-!
# Backups of the settings

`export_settings` and `import_settings` of `apps/desktop/src-tauri/src/commands.rs`: what one
application has exported is imported into another one.

* `SerdeJson` — the text of a record, which `serde_json` makes and reads.
* `AppCore.exported`, `AppCore.exportSettings` — the record, and its text.
* `Kept` — what the setters see to: levels in their ranges, names that are known, and volumes
  that came from percents.
* `kept_run` — this holds after any changes, if the levels in `tc.toml` are in their ranges.
* `export_import` — **what is imported is exported again**, whatever was there before.
-/

namespace TcVoice
namespace Desktop

open Client

/-! ## The record and its text -/

/-- `serde_json`, for the record of the settings. -/
structure SerdeJson where
  toStringPretty : UserSettings → Except String String
  fromStr : String → Except String UserSettings

/-- What is written of a record is read as that record. -/
def SerdeJson.RoundTrips (json : SerdeJson) (s : UserSettings) : Prop :=
  ∀ text, json.toStringPretty s = .ok text → json.fromStr text = .ok s

namespace AppCore

variable (c : AppCore)

/-- The record that `export_settings` makes. -/
def exported : UserSettings where
  server := c.serverAddr
  inputDevice := c.inputDevice
  outputDevice := c.outputDevice
  vadLevel := some c.vadLevelPct
  inputGain := some c.inputGainPct
  outputVol := some c.outputVolPct
  name := c.name
  voiceMode := some c.voiceMode.asStr
  paranoid := some c.paranoid
  denoise := some c.denoise
  agc := some c.agc
  hotkeys := c.hotkeys
  notifications := some c.notifications
  autostart := some c.autostart
  closeToTray := some c.closeToTray
  language := some c.language
  trustedServers := c.tofu.trusted
  servers := c.servers
  dmPeers := c.dmPeers
  peerVolumes := c.peerGains.pctMap
  overlayEnabled := some c.overlayEnabled
  overlayPosition := some c.overlayPosition
  overlayVisibility := some c.overlayVisibility

/-- `export_settings`. -/
def exportSettings (json : SerdeJson) : Except String String :=
  (json.toStringPretty c.exported).mapError ("serialize: " ++ ·)

end AppCore

/-! ## What the setters see to -/

/-- The levels in `tc.toml` are those that the setters allow. -/
structure InRange (saved : UserSettings) : Prop where
  vadLevel : ∀ v ∈ saved.vadLevel, v ≤ 100
  inputGain : ∀ v ∈ saved.inputGain, v ≤ 400
  outputVol : ∀ v ∈ saved.outputVol, v ≤ 400

/-- What an import changes nothing about. -/
structure Kept (c : AppCore) : Prop where
  vadLevel : c.vadLevelPct ≤ 100
  inputGain : c.inputGainPct ≤ 400
  outputVol : c.outputVolPct ≤ 400
  language : isLanguage c.language = true
  overlayPosition : isOverlayPosition c.overlayPosition = true
  overlayVisibility : isOverlayVisibility c.overlayVisibility = true
  peerGains : c.peerGains.FromPct

/-- A change of the settings: something that happens under the lock, or the verifier and the
commands on pins have written the pins. -/
inductive Change where
  | core (event : CoreEvent)
  | pins (tofu : TofuInner)

/-- The state after it. -/
def AppCore.change (c : AppCore) : Change → AppCore
  | .core event => c.apply event
  | .pins tofu => { c with tofu }

section Invariant

variable {c : AppCore} {saved : UserSettings}

theorem getD_le {n d bound : ℕ} (hd : d ≤ bound) {v : Option ℕ} (hv : ∀ n ∈ v, n ≤ bound)
    (hn : v.getD d = n) : n ≤ bound := by
  subst hn
  cases v with
  | none => exact hd
  | some n => exact hv n rfl

/-- A text that is taken if it is known, and else left. -/
theorem getD_filter {known : String → Bool} {d : String} (hd : known d = true)
    (v : Option String) : known ((v.filter known).getD d) = true := by
  cases hv : v.filter known with
  | none => exact hd
  | some s => exact (Option.filter_eq_some_iff.1 hv).2

/-- What a start makes of `tc.toml`. -/
theorem kept_new (h : InRange saved) (macos : Bool) : Kept (.new saved macos) where
  vadLevel := getD_le (by decide) h.vadLevel rfl
  inputGain := getD_le (by decide) h.inputGain rfl
  outputVol := getD_le (by decide) h.outputVol rfl
  language := getD_filter (by decide) _
  overlayPosition := getD_filter (by decide) _
  overlayVisibility := getD_filter (by decide) _
  peerGains := PeerGains.fromPct_setAllFromPct _

/-! ### The setters -/

theorem Kept.applyVoiceMode (h : Kept c) (mode : VoiceMode) : Kept (c.applyVoiceMode mode) :=
  { h with }

theorem Kept.applyVadLevel (h : Kept c) (pct : ℕ) : Kept (c.applyVadLevel pct) :=
  { h with vadLevel := min_le_right _ _ }

theorem Kept.applyInputGain (h : Kept c) (pct : ℕ) : Kept (c.applyInputGain pct) :=
  { h with inputGain := min_le_right _ _ }

theorem Kept.applyOutputVol (h : Kept c) (pct : ℕ) : Kept (c.applyOutputVol pct) :=
  { h with outputVol := min_le_right _ _ }

/-- A setter that is called if there is something to set. -/
theorem Kept.optional {α : Type} {f : AppCore → α → AppCore}
    (hf : ∀ {c}, Kept c → ∀ a, Kept (f c a)) (h : Kept c) (a : Option α) :
    Kept ((a.map (f c)).getD c) := by
  cases a with
  | none => exact h
  | some a => exact hf h a

theorem Kept.importLevels (h : Kept c) (s : UserSettings) : Kept (c.importLevels s) :=
  optional applyVoiceMode (optional applyOutputVol (optional applyInputGain
    (optional applyVadLevel h s.vadLevel) s.inputGain) s.outputVol) _

theorem Kept.importSettings (h : Kept c) (json : Except String UserSettings) :
    Kept (c.importSettings json).1 := by
  cases json with
  | error e => exact h
  | ok s =>
    exact { h.importLevels s with
      language := getD_filter h.language _
      overlayPosition := getD_filter h.overlayPosition _
      overlayVisibility := getD_filter h.overlayVisibility _
      peerGains := PeerGains.fromPct_setAllFromPct _ }

/-! ### Everything that happens -/

/-- Commands. -/
theorem Kept.command (h : Kept c) (cmd : Command) : Kept (c.command cmd).1 := by
  cases cmd with
  | setVoiceMode mode =>
    show Kept (c.setVoiceMode mode).1
    unfold AppCore.setVoiceMode
    cases VoiceMode.parse mode with
    | none => exact h
    | some mode => exact h.applyVoiceMode mode
  | importSettings json => exact h.importSettings json
  | setInputGain pct => exact h.applyInputGain pct
  | setOutputVolume pct => exact h.applyOutputVol pct
  | setPeerVolume name pct => exact { h with peerGains := h.peerGains.setPct name _ }
  | setVadLevel pct => exact h.applyVadLevel pct
  | setHotkey action accel registered =>
    show Kept (c.setHotkey action accel registered).1
    unfold AppCore.setHotkey
    cases HotkeyAction.parse action with
    | none => exact h
    | some parsed => cases registered <;> exact { h with }
  | unsetHotkey action parsed =>
    show Kept (c.unsetHotkey action parsed).1
    unfold AppCore.unsetHotkey
    cases HotkeyAction.parse action with
    | none => exact h
    | some act => dsimp only; cases c.hotkeys.lookup act.asStr <;> exact { h with }
  | setAutostart enabled done => cases done <;> exact { h with }
  | setLanguage lang =>
    show Kept (if _ then _ else _ : Reply).1
    split
    · rename_i hlang
      exact { h with language := hlang }
    · exact h
  | setOverlayPosition position =>
    show Kept (if _ then _ else _ : Reply).1
    split
    · rename_i hposition
      exact { h with overlayPosition := hposition }
    · exact h
  | setOverlayVisibility visibility =>
    show Kept (if _ then _ else _ : Reply).1
    split
    · rename_i hvisibility
      exact { h with overlayVisibility := hvisibility }
    · exact h
  | _ => exact { h with }

/-- Messages of the server: a rename moves a volume. -/
theorem Kept.handle (h : Kept c) (now : ℕ) (msg : ServerMessage) : Kept (c.handle now msg) := by
  cases msg with
  | nameChanged oldName newName =>
    unfold AppCore.handle
    dsimp only
    split
    · exact { h with }
    · exact { h with peerGains := h.peerGains.rename oldName newName }
  | _ => exact { h with }

theorem Kept.change (h : Kept c) (change : Change) : Kept (c.change change) := by
  cases change with
  | pins tofu => exact { h with }
  | core event =>
    cases event with
    | command cmd => exact h.command cmd
    | message msg now => exact h.handle now msg
    | hotkey action state =>
      show Kept (c.handleHotkey action state)
      unfold AppCore.handleHotkey
      split <;> exact { h with }
    | _ => exact { h with }

/-- After any changes. -/
theorem kept_run (h : InRange saved) (macos : Bool) (changes : List Change) :
    Kept (changes.foldl AppCore.change (.new saved macos)) := by
  have hfold : ∀ c, Kept c → Kept (changes.foldl AppCore.change c) := by
    induction changes with
    | nil => exact fun c hc => hc
    | cons change changes ih => exact fun c hc => ih _ (hc.change change)
  exact hfold _ (kept_new h macos)

end Invariant

/-! ## The round trip -/

section RoundTrip

variable {c : AppCore}

/-- **A record that keeps to the ranges is exported again after it was imported**, by whatever
application. -/
theorem Kept.exported_import (h : Kept c) (second : AppCore) :
    (second.importSettings (.ok c.exported)).1.exported = c.exported := by
  have hvad : min c.vadLevelPct 100 = c.vadLevelPct := min_eq_left h.vadLevel
  have hgain : min c.inputGainPct 400 = c.inputGainPct := min_eq_left h.inputGain
  have hvol : min c.outputVolPct 400 = c.outputVolPct := min_eq_left h.outputVol
  have hlanguage : (some c.language).filter isLanguage = some c.language :=
    Option.filter_eq_some_iff.2 ⟨rfl, h.language⟩
  have hposition : (some c.overlayPosition).filter isOverlayPosition = some c.overlayPosition :=
    Option.filter_eq_some_iff.2 ⟨rfl, h.overlayPosition⟩
  have hvisibility :
      (some c.overlayVisibility).filter isOverlayVisibility = some c.overlayVisibility :=
    Option.filter_eq_some_iff.2 ⟨rfl, h.overlayVisibility⟩
  have hvolumes : (PeerGains.setAllFromPct c.peerGains.pctMap).pctMap = c.peerGains.pctMap :=
    h.peerGains.pctMap_setAllFromPct
  have hlevels : second.importLevels c.exported =
      ((((second.applyVadLevel c.vadLevelPct).applyInputGain c.inputGainPct).applyOutputVol
        c.outputVolPct).applyVoiceMode c.voiceMode) := by
    unfold AppCore.importLevels AppCore.exported
    dsimp only [Option.map_some, Option.getD_some, Option.bind_some]
    rw [VoiceMode.parse_asStr]
    rfl
  unfold AppCore.importSettings
  dsimp only
  rw [hlevels]
  unfold AppCore.exported
  dsimp only
  rw [hlanguage, hposition, hvisibility, hvolumes]
  unfold AppCore.applyVoiceMode AppCore.applyOutputVol AppCore.applyInputGain AppCore.applyVadLevel
  dsimp only
  rw [hvad, hgain, hvol]
  rfl

/-- **Backups carry over everything that is in them.**  Whatever has been changed since a start
with levels in their ranges, the text that is exported then is imported without an error into any
other application, and that exports the same record from then on, and so the same text. -/
theorem export_import (json : SerdeJson) (saved : UserSettings) (hranges : InRange saved)
    (macos : Bool) (changes : List Change)
    (hjson : json.RoundTrips (changes.foldl AppCore.change (.new saved macos)).exported)
    (second : AppCore) (text : String)
    (htext : (changes.foldl AppCore.change (.new saved macos)).exportSettings json = .ok text) :
    let first := changes.foldl AppCore.change (.new saved macos)
    let imported := second.importSettings (json.fromStr text)
    imported.2 = .ok () ∧ imported.1.exported = first.exported ∧
      imported.1.exportSettings json = .ok text := by
  intro first imported
  have hwritten : json.toStringPretty first.exported = .ok text := by
    have htext' : (json.toStringPretty first.exported).mapError ("serialize: " ++ ·) = .ok text :=
      htext
    cases hwrite : json.toStringPretty first.exported with
    | error e =>
      rw [hwrite] at htext'
      cases htext'
    | ok written =>
      rw [hwrite] at htext'
      exact htext'
  have hread : imported = second.importSettings (.ok first.exported) := by
    show second.importSettings (json.fromStr text) = _
    rw [hjson _ hwritten]
  have hsame : imported.1.exported = first.exported := by
    rw [hread]
    exact (kept_run hranges macos changes).exported_import second
  refine ⟨?_, hsame, ?_⟩
  · rw [hread]
    rfl
  · unfold AppCore.exportSettings
    rw [hsame]
    exact htext

/-- The text of the record that a first start exports, once the microphone is at twice its level. -/
def sampleText : String :=
  "\x7b\n  \"vad_level\": 15,\n  \"input_gain\": 200,\n  \"output_vol\": 100,\n" ++
  "  \"voice_mode\": \"vad\",\n  \"paranoid\": false,\n  \"denoise\": false,\n" ++
  "  \"agc\": true,\n  \"notifications\": true,\n  \"autostart\": false,\n" ++
  "  \"close_to_tray\": false,\n  \"language\": \"en\",\n  \"overlay_enabled\": false,\n" ++
  "  \"overlay_position\": \"tr\",\n  \"overlay_visibility\": \"in_call\"\n\x7d"

def sampleChanges : List Change := [.core (.command (.setInputGain 200))]

/-- What exports it. -/
def sampleCore : AppCore := sampleChanges.foldl AppCore.change (.new .default false)

/-- `serde_json`, as far as that record goes. -/
def sampleJson : SerdeJson where
  toStringPretty _ := .ok sampleText
  fromStr text :=
    if text = sampleText then .ok sampleCore.exported
    else .error "expected value at line 1 column 1"

theorem export_import_sample :
    let imported := (AppCore.new .default true).importSettings (sampleJson.fromStr sampleText)
    imported.2 = .ok () ∧ imported.1.exported = sampleCore.exported ∧
      imported.1.exportSettings sampleJson = .ok sampleText :=
  export_import sampleJson .default ⟨nofun, nofun, nofun⟩ false sampleChanges
    (fun _ htext => if_pos (Except.ok.inj htext).symm)
    (.new .default true) sampleText rfl

end RoundTrip

end Desktop
end TcVoice
