import TcVoice.Lib.Machines
import TcVoice.Terminal.State

/-!
# What a command leaves of the settings file

Both applications keep `tc.toml`.  The terminal client saves by writing the whole record anew
from what it has of it: `save_settings` and `save_tofu` of `main.rs`.

* `Field`, `Same` — the fields of the file, and when a field says the same in two files: to the
  desktop application, and with `load_same` to the terminal client.
* `TuiState`, `TuiState.step` — the terminal client with its pins and the file.
* `TuiApp.Current` — when a field of the file is what the terminal client would write.
* `settings_kept_iff` — **when the other fields stay**, for every file and all histories: whenever
  something is saved, every field that the command is not about has to be current.  The fields
  that the terminal client does not keep are so only if they say what they say when they are
  absent; `pins_forgotten` is a file with more in it.
-/

namespace TcVoice
namespace Terminal

open Client Desktop Machines

/-! ## The fields -/

/-- The fields of `UserSettings`. -/
inductive Field where
  | server | inputDevice | outputDevice | vadLevel | inputGain | outputVol | name | voiceMode
  | paranoid | denoise | agc | hotkeys | notifications | autostart | closeToTray | language
  | trustedServers | servers | dmPeers | peerVolumes | overlayEnabled | overlayPosition
  | overlayVisibility
  deriving DecidableEq, Repr

/-- A field says the same in two files: the desktop application starts with the same value. -/
def Same (macos : Bool) (a b : UserSettings) (field : Field) : Prop :=
  let c := AppCore.new a macos
  let d := AppCore.new b macos
  match field with
  | .server => c.serverAddr = d.serverAddr
  | .inputDevice => c.inputDevice = d.inputDevice
  | .outputDevice => c.outputDevice = d.outputDevice
  | .vadLevel => c.vadLevelPct = d.vadLevelPct
  | .inputGain => c.inputGainPct = d.inputGainPct
  | .outputVol => c.outputVolPct = d.outputVolPct
  | .name => c.name = d.name
  | .voiceMode => c.voiceMode = d.voiceMode
  | .paranoid => c.paranoid = d.paranoid
  | .denoise => c.denoise = d.denoise
  | .agc => c.agc = d.agc
  | .hotkeys => c.hotkeys = d.hotkeys
  | .notifications => c.notifications = d.notifications
  | .autostart => c.autostart = d.autostart
  | .closeToTray => c.closeToTray = d.closeToTray
  | .language => c.language = d.language
  | .trustedServers => c.tofu.trusted = d.tofu.trusted
  | .servers => c.servers = d.servers
  | .dmPeers => c.dmPeers = d.dmPeers
  | .peerVolumes => ∀ name, c.peerGains.get name = d.peerGains.get name
  | .overlayEnabled => c.overlayEnabled = d.overlayEnabled
  | .overlayPosition => c.overlayPosition = d.overlayPosition
  | .overlayVisibility => c.overlayVisibility = d.overlayVisibility

variable {macos : Bool} {a b : UserSettings}

/-- The level that is shown after a start. -/
theorem shown_getD (level : Option ℕ) :
    vadLevelFromThreshold ((level.map vadThresholdFromLevel).getD vadRmsThreshold) =
      vadLevelFromThreshold (vadThresholdFromLevel (level.getD 15)) := by
  cases level with
  | none => decide +kernel
  | some level => rfl

/-- The factor after a start. -/
theorem factor_getD (pct : Option ℕ) :
    (pct.map volFromPercent).getD 1.0 = volFromPercent (pct.getD 100) := by
  cases pct with
  | none =>
    show (1.0 : Float32) = volFromPercent 100
    decide +kernel
  | some pct => rfl

theorem beq_some_true (x : Option Bool) : (x == some true) = x.getD false := by
  cases x with
  | none => rfl
  | some x => cases x <;> rfl

/-- What two files say alike, the terminal client starts with alike; of the level it is the number
that is shown and saved. -/
theorem load_same (h : ∀ field, Same macos a b field) :
    let c := TuiApp.load a
    let d := TuiApp.load b
    c.serverAddr = d.serverAddr ∧ c.inputDevice = d.inputDevice ∧
      c.outputDevice = d.outputDevice ∧ c.name = d.name ∧
      vadLevelFromThreshold c.vadThreshold = vadLevelFromThreshold d.vadThreshold ∧
      c.inputGain = d.inputGain ∧ c.outputVol = d.outputVol ∧
      (∀ name, c.peerGains.get name = d.peerGains.get name) ∧ c.paranoid = d.paranoid ∧
      c.denoise = d.denoise ∧ c.agc = d.agc := by
  have hserver : a.server = b.server := h .server
  have hname : a.name = b.name := h .name
  have hlevel : a.vadLevel.getD 15 = b.vadLevel.getD 15 := h .vadLevel
  have hgain : a.inputGain.getD 100 = b.inputGain.getD 100 := h .inputGain
  have hvol : a.outputVol.getD 100 = b.outputVol.getD 100 := h .outputVol
  have hparanoid : a.paranoid.getD false = b.paranoid.getD false := h .paranoid
  have hdenoise : a.denoise.getD false = b.denoise.getD false := h .denoise
  dsimp only [TuiApp.load]
  rw [hserver, hname, shown_getD, shown_getD, hlevel, factor_getD, factor_getD, hgain, factor_getD,
    factor_getD, hvol, beq_some_true, beq_some_true, hparanoid, beq_some_true, beq_some_true,
    hdenoise]
  exact ⟨rfl, h .inputDevice, h .outputDevice, rfl, rfl, rfl, rfl, h .peerVolumes, rfl, rfl,
    h .agc⟩

/-! ## The terminal client and the file -/

/-- What a command is about. -/
def Command.field : Command → Field
  | .name _ => .name
  | .server _ => .server
  | .volume _ _ => .peerVolumes
  | .agc _ => .agc
  | .denoise _ => .denoise
  | .paranoid _ => .paranoid
  | .configInput _ => .inputDevice
  | .configOutput _ => .outputDevice
  | .configVad _ => .vadLevel
  | .configGain _ => .inputGain
  | .configVol _ => .outputVol

/-- The terminal client, and `tc.toml`. -/
structure TuiState where
  app : TuiApp
  tofu : TofuInner
  file : UserSettings

/-- How far an attempt to connect gets. -/
inductive Attempt where
  | unreached
  /-- It fails before the certificate comes. -/
  | refused
  /-- The certificate comes, and the connection is up in the end or not. -/
  | shown (cert : Bytes) (up : Bool)
  deriving DecidableEq

/-- What happens to the terminal client. -/
inductive TuiEvent where
  | run (command : Command)
  /-- `/trust`; the connection that it begins is an event of its own. -/
  | trust
  /-- A connection is tried, by the user or again after it was lost. -/
  | connect (attempt : Attempt)
  | nameChanged (oldName newName : String)
  /-- The terminal client ends, and is started again. -/
  | restart

/-- What an event is about. -/
def TuiEvent.field : TuiEvent → Option Field
  | .run command => some command.field
  | .trust | .connect _ => some .trustedServers
  | .nameChanged _ _ | .restart => none

namespace TuiState

variable (sha256 : Bytes → Vector UInt8 32) (t : TuiState)

/-- A start on a settings file. -/
def start (file : UserSettings) : TuiState := ⟨.load file, .new file.trustedServers, file⟩

/-- `save_settings`. -/
def saveSettings : TuiState := { t with file := t.app.buildSettings }

/-- `save_tofu`. -/
def saveTofu : TuiState :=
  let trusted := t.tofu.trusted
  if trusted.len = 0 then t
  else { t with file := { t.app.buildSettings with trustedServers := trusted } }

/-- The pin of the server is taken away. -/
def untrusted : TuiState := { t with tofu := t.tofu.removeServer t.app.serverAddr }

/-- A server is reached. -/
def dialled : TuiState :=
  { t with tofu := t.tofu.setCurrentServer (connectAddr t.app.serverAddr) }

/-- Its certificate comes. -/
def verified (cert : Bytes) : TuiState :=
  { t.dialled with tofu := (t.dialled.tofu.verifyServerCert sha256 cert).2 }

/-- What the savers write of the pins: as in `App.step`. -/
theorem saved_pins :
    t.saveSettings.file.trustedServers = Client.saveSettings t.tofu .terminal ∧
      t.saveTofu.file.trustedServers = Client.saveTofu t.tofu t.file.trustedServers := by
  refine ⟨rfl, ?_⟩
  unfold saveTofu Client.saveTofu
  dsimp only
  split <;> rfl

/-- One event. -/
def step : TuiEvent → TuiState × Unit
  | .run command =>
    match t.app.run command with
    | some app => ({ t with app }.saveSettings, ())
    | none => (t, ())
  | .trust => (t.untrusted.saveTofu, ())
  | .connect .unreached => (t, ())
  | .connect .refused => (t.dialled, ())
  | .connect (.shown cert false) => (t.verified sha256 cert, ())
  | .connect (.shown cert true) => ((t.verified sha256 cert).saveTofu, ())
  | .nameChanged oldName newName => ({ t with app := t.app.nameChanged oldName newName }, ())
  | .restart => (start t.file, ())

/-- The event saves. -/
def Saves : TuiEvent → Prop
  | .run command => (t.app.run command).isSome
  | .trust => t.untrusted.tofu.trusted.len ≠ 0
  | .connect (.shown _ true) => True
  | .connect _ | .nameChanged _ _ | .restart => False

end TuiState

/-! ## What is asked, and when it holds -/

/-- A field that the terminal client does not keep says what an absent field says. -/
def Silent (macos : Bool) (file : UserSettings) : Field → Prop
  | .voiceMode => ∀ mode, file.voiceMode.bind VoiceMode.parse = some mode → mode = .vad
  | .hotkeys => file.hotkeys = ∅
  | .notifications => file.notifications ≠ some false
  | .autostart => file.autostart ≠ some true
  | .closeToTray => file.closeToTray ≠ some (!macos)
  | .language => file.language ≠ some "ru"
  | .trustedServers => file.trustedServers = ∅
  | .servers => file.servers = []
  | .dmPeers => file.dmPeers = []
  | .overlayEnabled => file.overlayEnabled ≠ some true
  | .overlayPosition => ∀ position, file.overlayPosition = some position →
    isOverlayPosition position → position = "tr"
  | .overlayVisibility => file.overlayVisibility ≠ some "always"
  | _ => True

/-- A field is written as the terminal client would write it, which has read it there: no default
is spelled out, a name has nothing to be cleaned, and a number survives the way through `f32`. -/
def Plain (macos : Bool) (file : UserSettings) : Field → Prop
  | .server => file.server ≠ some defaultServer
  | .vadLevel => ∀ level, file.vadLevel = some level →
    vadLevelFromThreshold (vadThresholdFromLevel level) = level
  | .inputGain => ∀ pct, file.inputGain = some pct → percentFromVol (volFromPercent pct) = pct
  | .outputVol => ∀ pct, file.outputVol = some pct → percentFromVol (volFromPercent pct) = pct
  | .name => ∀ name, file.name = some name → sanitizeName name = name ∧ name ≠ ""
  | field => Silent macos file field

namespace TuiApp

/-- A field of the file is what the application would write: for what the application keeps, what
it has, spelled as it would be; for everything else, what an absent field says. -/
def Current (macos : Bool) (app : TuiApp) (file : UserSettings) : Field → Prop
  | .server => file.server = none ∧ app.serverAddr = defaultServer ∨
    file.server = some app.serverAddr ∧ app.serverAddr ≠ defaultServer
  | .inputDevice => file.inputDevice = app.inputDevice
  | .outputDevice => file.outputDevice = app.outputDevice
  | .vadLevel => file.vadLevel.getD 15 = vadLevelFromThreshold app.vadThreshold
  | .inputGain => file.inputGain.getD 100 = percentFromVol app.inputGain
  | .outputVol => file.outputVol.getD 100 = percentFromVol app.outputVol
  | .name => file.name = app.name
  | .paranoid => file.paranoid.getD false = app.paranoid
  | .denoise => file.denoise.getD false = app.denoise
  | .agc => file.agc.getD true = app.agc
  | .peerVolumes => ∀ name,
    (PeerGains.setAllFromPct file.peerVolumes).get name = app.peerGains.get name
  | field => Silent macos file field

variable {app app' : TuiApp} {file : UserSettings} {field : Field}

/-- What is written in the place of a default. -/
theorem getD_elided {α : Type} [DecidableEq α] (y z : α) :
    (if y ≠ z then some y else none).getD z = y := by
  by_cases h : y = z
  · rw [if_neg (not_not_intro h), Option.getD_none, h]
  · rw [if_pos h, Option.getD_some]

theorem percent_kept_iff (pct : Option ℕ) :
    pct.getD 100 = percentFromVol ((pct.map volFromPercent).getD 1.0) ↔
      ∀ n, pct = some n → percentFromVol (volFromPercent n) = n := by
  rw [factor_getD]
  cases pct with
  | none =>
    exact iff_of_true (by decide +kernel) (fun n h => by cases h)
  | some pct => simp [eq_comm]

/-- A switch that is not turned from its default. -/
theorem getD_switch_iff (x : Option Bool) (z : Bool) : x.getD z = z ↔ x ≠ some (!z) := by
  cases x with
  | none => simp
  | some y => cases y <;> cases z <;> decide

/-- A choice that is not another one than the default. -/
theorem getD_choice_iff {α : Type} (x : Option α) (z : α) :
    x.getD z = z ↔ ∀ y, x = some y → y = z := by
  cases x with
  | none => simp
  | some y => simp

theorem getD_filter_iff {α : Type} (x : Option α) (p : α → Bool) (z : α) :
    (x.filter p).getD z = z ↔ ∀ y, x = some y → p y → y = z := by
  rw [getD_choice_iff]
  refine forall_congr' fun y => ?_
  rw [Option.filter_eq_some_iff]
  exact and_imp

/-- Of two choices, the one that is not the default. -/
theorem getD_either_iff (x : Option String) (p : String → Bool) (z other : String)
    (hp : ∀ y, p y ↔ y = z ∨ y = other) (hne : other ≠ z) :
    (x.filter p).getD z = z ↔ x ≠ some other := by
  rw [getD_filter_iff]
  constructor
  · rintro h rfl
    exact hne (h other rfl ((hp other).2 (.inr rfl)))
  · intro h y hy hpy
    refine ((hp y).1 hpy).resolve_right ?_
    rintro rfl
    exact h hy

/-- Exactly the fields that are current are the same in what is written. -/
theorem same_buildSettings_iff (h : app.peerGains.FromPct) :
    Same macos file app.buildSettings field ↔ app.Current macos file field := by
  cases field with
  | inputDevice | outputDevice | name | agc | hotkeys | trustedServers | servers | dmPeers =>
    exact Iff.rfl
  | server =>
    show file.server = (if app.serverAddr ≠ defaultServer then some app.serverAddr else none) ↔ _
    by_cases hdefault : app.serverAddr = defaultServer
    · rw [if_neg (not_not_intro hdefault)]
      exact ⟨fun hnone => .inl ⟨hnone, hdefault⟩,
        fun hor => hor.elim And.left fun hother => absurd hdefault hother.2⟩
    · rw [if_pos hdefault]
      exact ⟨fun hsome => .inr ⟨hsome, hdefault⟩,
        fun hor => hor.elim (fun hnone => absurd hnone.2 hdefault) And.left⟩
  | vadLevel =>
    show file.vadLevel.getD 15 = (if vadLevelFromThreshold app.vadThreshold ≠ defaultLevel then
      some (vadLevelFromThreshold app.vadThreshold) else none).getD 15 ↔ _
    rw [defaultLevel_eq, getD_elided]
    exact Iff.rfl
  | inputGain =>
    show file.inputGain.getD 100 = (if percentFromVol app.inputGain ≠ 100 then
      some (percentFromVol app.inputGain) else none).getD 100 ↔ _
    rw [getD_elided]
    exact Iff.rfl
  | outputVol =>
    show file.outputVol.getD 100 = (if percentFromVol app.outputVol ≠ 100 then
      some (percentFromVol app.outputVol) else none).getD 100 ↔ _
    rw [getD_elided]
    exact Iff.rfl
  | paranoid =>
    show file.paranoid.getD false = (if app.paranoid then some true else none).getD false ↔
      file.paranoid.getD false = app.paranoid
    cases app.paranoid <;> exact Iff.rfl
  | denoise =>
    show file.denoise.getD false = (if app.denoise then some true else none).getD false ↔
      file.denoise.getD false = app.denoise
    cases app.denoise <;> exact Iff.rfl
  | voiceMode => exact getD_choice_iff _ _
  | notifications => exact getD_switch_iff _ _
  | autostart => exact getD_switch_iff _ _
  | closeToTray => exact getD_switch_iff _ _
  | overlayEnabled => exact getD_switch_iff _ _
  | language => exact getD_either_iff _ _ _ _ (fun y => by simp [isLanguage]) (by decide)
  | overlayPosition => exact getD_filter_iff _ _ _
  | overlayVisibility =>
    refine getD_either_iff _ _ _ _ (fun y => ?_) (by decide)
    simp [isOverlayVisibility, or_comm]
  | peerVolumes =>
    refine forall_congr' fun name => ?_
    show (PeerGains.setAllFromPct file.peerVolumes).get name =
      (PeerGains.setAllFromPct app.peerGains.pctMap).get name ↔ _
    rw [PeerGains.get_setAllFromPct_pctMap h]

/-- What is current after a start. -/
theorem current_load_iff : (load file).Current macos file field ↔ Plain macos file field := by
  cases field with
  | server =>
    show file.server = none ∧ file.server.getD defaultServer = defaultServer ∨
      file.server = some (file.server.getD defaultServer) ∧
        file.server.getD defaultServer ≠ defaultServer ↔ file.server ≠ some defaultServer
    cases file.server with
    | none => simp
    | some addr => simp
  | vadLevel =>
    show file.vadLevel.getD 15 = vadLevelFromThreshold
      ((file.vadLevel.map vadThresholdFromLevel).getD vadRmsThreshold) ↔
      ∀ level, file.vadLevel = some level →
        vadLevelFromThreshold (vadThresholdFromLevel level) = level
    cases file.vadLevel with
    | none => exact iff_of_true defaultLevel_eq.symm (fun level h => by cases h)
    | some level => simp [eq_comm]
  | inputGain => exact percent_kept_iff file.inputGain
  | outputVol => exact percent_kept_iff file.outputVol
  | name =>
    show file.name = (file.name.map sanitizeName).filter (· ≠ "") ↔
      ∀ name, file.name = some name → sanitizeName name = name ∧ name ≠ ""
    cases file.name with
    | none => simp
    | some name =>
      rw [Option.map_some, eq_comm, Option.filter_eq_some_iff]
      constructor
      · rintro ⟨hclean, hne⟩ n hn
        cases hn
        exact ⟨Option.some_inj.1 hclean, of_decide_eq_true hne⟩
      · intro h
        obtain ⟨hclean, hne⟩ := h name rfl
        exact ⟨congrArg some hclean, decide_eq_true hne⟩
  | paranoid => exact iff_of_true (beq_some_true file.paranoid).symm trivial
  | denoise => exact iff_of_true (beq_some_true file.denoise).symm trivial
  | inputDevice | outputDevice | agc => exact iff_of_true rfl trivial
  | peerVolumes => exact iff_of_true (fun _ => rfl) trivial
  | voiceMode | hotkeys | notifications | autostart | closeToTray | language | trustedServers
  | servers | dmPeers | overlayEnabled | overlayPosition | overlayVisibility => exact Iff.rfl

/-- A command changes only what it is about. -/
theorem current_run_iff {command : Command} (hrun : app.run command = some app')
    (hfield : command.field ≠ field) :
    app'.Current macos file field ↔ app.Current macos file field := by
  cases command with
  | server addr | configInput device | configOutput device =>
    cases hrun
    cases field <;> first | exact Iff.rfl | exact absurd rfl hfield
  | volume name pct =>
    simp only [run] at hrun
    split at hrun
    · cases hrun
      cases field <;> first | exact Iff.rfl | exact absurd rfl hfield
    · cases hrun
  | name arg | agc arg | denoise arg | paranoid arg | configVad arg | configGain arg
  | configVol arg =>
    obtain ⟨next, -, rfl⟩ := Option.map_eq_some_iff.1 hrun
    cases field <;> first | exact Iff.rfl | exact absurd rfl hfield

end TuiApp

namespace TuiState

variable {sha256 : Bytes → Vector UInt8 32} {t : TuiState} {event : TuiEvent}

/-- What is asked of an event: every field of the file that it is not about says the same
afterwards. -/
def Spares (macos : Bool) (sha256 : Bytes → Vector UInt8 32) (t : TuiState) (event : TuiEvent) :
    Prop :=
  ∀ field, event.field ≠ some field → Same macos t.file (t.step sha256 event).1.file field

/-- Whenever something is saved, what the event is not about is current in the file. -/
def UpToDate (macos : Bool) (t : TuiState) (event : TuiEvent) : Prop :=
  t.Saves event →
    ∀ field, event.field ≠ some field → t.app.Current macos t.file field

/-- The volumes of the others come from percents. -/
def FromPct (t : TuiState) : Prop := t.app.peerGains.FromPct

theorem fromPct_start (file : UserSettings) : (start file).FromPct := TuiApp.fromPct_load file

/-- Without a pin nothing is written. -/
theorem saveTofu_of_empty (h : t.tofu.trusted.len = 0) : t.saveTofu = t := if_pos h

theorem saveTofu_app (t : TuiState) : t.saveTofu.app = t.app := by
  unfold saveTofu
  dsimp only
  split <;> rfl

theorem fromPct_step (h : t.FromPct) : (t.step sha256 event).1.FromPct := by
  cases event with
  | run command =>
    unfold step
    dsimp only
    cases hrun : t.app.run command with
    | none => exact h
    | some app => exact TuiApp.fromPct_run h hrun
  | trust =>
    show t.untrusted.saveTofu.app.peerGains.FromPct
    rw [saveTofu_app]
    exact h
  | connect attempt =>
    cases attempt with
    | unreached | refused => exact h
    | shown cert up =>
      cases up with
      | false => exact h
      | true =>
        show (t.verified sha256 cert).saveTofu.app.peerGains.FromPct
        rw [saveTofu_app]
        exact h
  | nameChanged oldName newName => exact TuiApp.fromPct_nameChanged h oldName newName
  | restart => exact fromPct_start t.file

/-- The pin of a certificate that has come is there. -/
theorem verified_len_ne (cert : Bytes) : (t.verified sha256 cert).tofu.trusted.len ≠ 0 := by
  intro hlen
  have hpin : (t.verified sha256 cert).tofu.trusted.lookup t.dialled.tofu.currentServer = _ :=
    lookup_verifyServerCert _ _
  rw [if_pos rfl] at hpin
  have hmem := (Table.mem_entries _ _ _).2 hpin
  have hempty : (t.verified sha256 cert).tofu.trusted.entries = 0 := Multiset.card_eq_zero.1 hlen
  exact absurd (hempty ▸ hmem) (Multiset.notMem_zero _)

theorem same_refl (file : UserSettings) (field : Field) : Same macos file file field := by
  cases field <;> first | rfl | exact fun _ => rfl

/-- `save_tofu` writes the pins; the rest is what `save_settings` writes. -/
theorem same_saveTofu_iff (h : t.FromPct) {field : Field} (hfield : field ≠ .trustedServers)
    (hsaves : t.tofu.trusted.len ≠ 0) :
    Same macos t.file t.saveTofu.file field ↔ t.app.Current macos t.file field := by
  unfold saveTofu
  dsimp only
  rw [if_neg hsaves, ← TuiApp.same_buildSettings_iff h]
  cases field <;> first | exact Iff.rfl | exact absurd rfl hfield

/-- What is left in the file by an event that does not save. -/
theorem file_of_not_saves (h : ¬ t.Saves event) :
    (t.step sha256 event).1.file = t.file := by
  cases event with
  | run command =>
    unfold step
    dsimp only
    cases hrun : t.app.run command with
    | none => rfl
    | some app => exact absurd (Option.isSome_of_eq_some hrun) h
  | trust =>
    show t.untrusted.saveTofu.file = t.file
    rw [saveTofu_of_empty (not_not.1 h)]
    rfl
  | connect attempt =>
    cases attempt with
    | unreached | refused => rfl
    | shown cert up =>
      cases up with
      | false => rfl
      | true => exact absurd trivial h
  | nameChanged oldName newName | restart => rfl

/-- What an event that saves makes of a field that it is not about. -/
theorem same_of_saves (h : t.FromPct) (hsaves : t.Saves event) {field : Field}
    (hfield : event.field ≠ some field) :
    Same macos t.file (t.step sha256 event).1.file field ↔ t.app.Current macos t.file field := by
  cases event with
  | run command =>
    obtain ⟨app, hrun⟩ := Option.isSome_iff_exists.1 hsaves
    have hother : command.field ≠ field := fun heq => hfield (congrArg some heq)
    unfold step
    dsimp only
    rw [hrun]
    exact (TuiApp.same_buildSettings_iff (TuiApp.fromPct_run h hrun)).trans
      (TuiApp.current_run_iff hrun hother)
  | trust =>
    have hother : field ≠ .trustedServers := fun heq => hfield (congrArg some heq.symm)
    exact same_saveTofu_iff (t := t.untrusted) h hother hsaves
  | connect attempt =>
    have hother : field ≠ .trustedServers := fun heq => hfield (congrArg some heq.symm)
    cases attempt with
    | unreached | refused => exact hsaves.elim
    | shown cert up =>
      cases up with
      | false => exact hsaves.elim
      | true =>
        exact same_saveTofu_iff (t := t.verified sha256 cert) h hother (verified_len_ne cert)
  | nameChanged oldName newName | restart => exact hsaves.elim

/-- One event. -/
theorem spares_iff (h : t.FromPct) :
    t.Spares macos sha256 event ↔ t.UpToDate macos event := by
  unfold Spares UpToDate
  by_cases hsaves : t.Saves event
  · rw [forall_prop_of_true hsaves]
    exact forall_congr' fun field => forall_congr' fun hfield => same_of_saves h hsaves hfield
  · refine iff_of_true (fun field _ => ?_) fun hdoes => absurd hdoes hsaves
    rw [file_of_not_saves hsaves]
    exact same_refl t.file field

end TuiState

open TuiState

/-- **When the other fields stay**: after a start on any file, each event leaves what all the
fields say that it is not about, exactly if it saves nothing or all these fields are written
plainly, those that the terminal client does not keep as nothing; and in every history each event
does so exactly if at each one that saves these fields are current. -/
theorem settings_kept_iff (macos : Bool) (sha256 : Bytes → Vector UInt8 32) (file : UserSettings) :
    (∀ event, (start file).Spares macos sha256 event ↔
      ((start file).Saves event →
        ∀ field, event.field ≠ some field → Plain macos file field)) ∧
    ∀ events, Along (step sha256) (Spares macos sha256) (start file) events ↔
      Along (step sha256) (UpToDate macos) (start file) events := by
  constructor
  · intro event
    rw [spares_iff (fromPct_start file)]
    exact forall_congr' fun _ => forall_congr' fun field => forall_congr' fun _ =>
      TuiApp.current_load_iff
  · intro events
    exact along_congr (fun _ _ h _ => fromPct_step h) (fun _ _ h => spares_iff h)
      (fromPct_start file) events

/-- A file of the desktop application, with a pin, a server, a conversation and a hotkey. -/
def wellUsed : UserSettings :=
  { UserSettings.default with
    hotkeys := Finmap.singleton "mute" "CommandOrControl+Shift+M"
    trustedServers := Finmap.singleton "10.0.0.2:7100" "sha256:00"
    servers := [⟨"10.0.0.2:7100", none, none, false, 0⟩]
    dmPeers := [⟨"00", "bob", 0⟩] }

/-- One `/agc on` on such a file. -/
theorem pins_forgotten : ¬ Along (step fun _ => .replicate 32 0)
    (Spares false fun _ => .replicate 32 0) (start wellUsed) [.run (.agc (some "on"))] := by
  rintro ⟨hspares, -⟩
  have hpins : wellUsed.trustedServers = ∅ := hspares .trustedServers (by decide)
  have hlookup := congrArg (Finmap.lookup "10.0.0.2:7100") hpins
  exact absurd hlookup (by decide)

end Terminal
end TcVoice
