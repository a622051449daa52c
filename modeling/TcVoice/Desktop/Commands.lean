import TcVoice.Client.Roster
import TcVoice.Desktop.State
import TcVoice.Server.Tcp

/-!
# What changes the state of the desktop application

The commands of the user interface, the hotkeys, the tray and the task that drains the server's
messages, as far as they change `AppCore`: `commands.rs`, `audio_cmd.rs`, `settings_cmd.rs`,
`server_registry.rs`, `dm.rs`, `overlay.rs`, `hotkeys.rs`, `tray.rs` and `drain.rs` of
`apps/desktop/src-tauri/src`.

* `Command`, `AppCore.command` — the commands, with their answers.
* `AppCore.handle` — a message of the server.
* `CoreEvent`, `AppCore.apply` — everything that happens under the lock, one hold of it at a
  time, in any order.

What the system answers (a shortcut that can be registered, a backup that can be read) comes with
the command.
-/

namespace TcVoice
namespace Desktop

open Client

/-! ## Hotkeys -/

/-- `HotkeyAction`. -/
inductive HotkeyAction where
  | mute
  | ptt
  | quickJoin
  deriving DecidableEq, Repr

namespace HotkeyAction

/-- `HotkeyAction::parse`. -/
def parse (s : String) : Option HotkeyAction :=
  match toAsciiLowercase s with
  | "mute" => some .mute
  | "ptt" => some .ptt
  | "quick_join" | "quickjoin" | "join" => some .quickJoin
  | _ => none

/-- `HotkeyAction::as_str`. -/
def asStr : HotkeyAction → String
  | .mute => "mute"
  | .ptt => "ptt"
  | .quickJoin => "quick_join"

end HotkeyAction

/-- `ShortcutState`. -/
inductive ShortcutState where
  | pressed
  | released
  deriving DecidableEq, Repr

/-! ## Registries -/

/-- The first entry of a server, changed. -/
def changeServer (f : ServerEntry → ServerEntry) (servers : List ServerEntry) (addr : String) :
    List ServerEntry :=
  servers.replaceF fun e => if e.addr = addr then some (f e) else none

/-- `touch` of the server registry; `now` is `unix_now`. -/
def touchServer (servers : List ServerEntry) (addr : String) (now : ℕ) : List ServerEntry :=
  if servers.any (·.addr = addr) then
    changeServer (fun e => { e with lastUsedUnix := now }) servers addr
  else servers ++ [⟨addr, none, none, false, now⟩]

/-- `record_channel`. -/
def recordChannel (servers : List ServerEntry) (addr : String) (channel : ChannelId) :
    List ServerEntry :=
  changeServer (fun e => { e with lastChannel := some channel }) servers addr

/-- `hex::encode`. -/
def hexEncode (bytes : Bytes) : String := String.ofList (bytes.flatMap hexByte)

/-- `touch` of the registry of direct messages. -/
def touchPeer (peers : List DmPeer) (pubkeyHex name : String) (now : ℕ) : List DmPeer :=
  if peers.any (·.pubkeyHex = pubkeyHex) then
    peers.replaceF fun p =>
      if p.pubkeyHex = pubkeyHex then some { p with name, lastSeenUnix := now } else none
  else peers ++ [⟨pubkeyHex, name, now⟩]

/-! ## Commands -/

/-- The commands that change `AppCore` in one hold of the lock, and `aside` for those that only
read it. -/
inductive Command where
  | setName (name : String) (sent : Except String Unit)
  | setMute (muted : Bool)
  | setVoiceMode (mode : String)
  | setParanoid (enabled : Bool)
  | setAgc (enabled : Bool)
  | setDenoise (enabled : Bool)
  | pttPress
  | pttRelease
  /-- With what there is to read in the backup. -/
  | importSettings (json : Except String UserSettings)
  | setInputDevice (name : Option String)
  | setOutputDevice (name : Option String)
  | setInputGain (pct : ℕ)
  | setOutputVolume (pct : ℕ)
  | setPeerVolume (name : String) (pct : ℕ)
  | setVadLevel (pct : ℕ)
  | setHotkey (action accel : String) (registered : Except String Unit)
  | unsetHotkey (action : String) (parsed : Except String Unit)
  | setNotifications (enabled : Bool)
  | setAutostart (enabled : Bool) (done : Except String Unit)
  | setCloseToTray (enabled : Bool)
  | setLanguage (lang : String)
  | forgetServer (addr : String)
  | setServerFavourite (addr : String) (favourite : Bool)
  | labelServer (addr : String) (label : Option String)
  | forgetDmPeer (pubkeyHex : String)
  | setOverlayEnabled (enabled : Bool)
  | setOverlayPosition (position : String)
  | setOverlayVisibility (visibility : String)
  | aside

/-- The state after a command, and its answer. -/
abbrev Reply := AppCore × Except String Unit

namespace AppCore

variable (c : AppCore)

/-- `send_msg`. -/
def sendMsg (sent : Except String Unit) : Except String Unit :=
  match c.conn with
  | none => .error "not connected"
  | some _ => sent.mapError ("send failed: " ++ ·)

/-- `set_voice_mode`. -/
def setVoiceMode (mode : String) : Reply :=
  match VoiceMode.parse mode with
  | none => (c, .error ("unknown mode: " ++ mode))
  | some parsed => (c.applyVoiceMode parsed, .ok ())

/-- The levels, volumes and the voice mode of a backup, as far as it has them. -/
def importLevels (s : UserSettings) : AppCore :=
  let c := (s.vadLevel.map c.applyVadLevel).getD c
  let c := (s.inputGain.map c.applyInputGain).getD c
  let c := (s.outputVol.map c.applyOutputVol).getD c
  ((s.voiceMode.bind VoiceMode.parse).map c.applyVoiceMode).getD c

/-- `import_settings`. -/
def importSettings (json : Except String UserSettings) : Reply :=
  match json with
  | .error e => (c, .error ("invalid backup JSON: " ++ e))
  | .ok s =>
    ({ c.importLevels s with
      serverAddr := s.server
      inputDevice := s.inputDevice
      outputDevice := s.outputDevice
      name := s.name
      paranoid := s.paranoid.getD c.paranoid
      agc := s.agc.getD c.agc
      denoise := s.denoise.getD c.denoise
      hotkeys := s.hotkeys
      notifications := s.notifications.getD c.notifications
      autostart := s.autostart.getD c.autostart
      closeToTray := s.closeToTray.getD c.closeToTray
      language := (s.language.filter isLanguage).getD c.language
      tofu := .new s.trustedServers
      servers := s.servers
      dmPeers := s.dmPeers
      peerGains := .setAllFromPct s.peerVolumes
      overlayEnabled := s.overlayEnabled.getD c.overlayEnabled
      overlayPosition := (s.overlayPosition.filter isOverlayPosition).getD c.overlayPosition
      overlayVisibility :=
        (s.overlayVisibility.filter isOverlayVisibility).getD c.overlayVisibility }, .ok ())

/-- `set_hotkey`. -/
def setHotkey (action accel : String) (registered : Except String Unit) : Reply :=
  match HotkeyAction.parse action with
  | none => (c, .error ("unknown action: " ++ action))
  | some parsed =>
    match registered with
    | .error e => (c, .error e)
    | .ok _ => ({ c with hotkeys := c.hotkeys.insert parsed.asStr accel }, .ok ())

/-- `unset_hotkey`: a binding that cannot be read is gone all the same. -/
def unsetHotkey (action : String) (parsed : Except String Unit) : Reply :=
  match HotkeyAction.parse action with
  | none => (c, .error ("unknown action: " ++ action))
  | some act =>
    match c.hotkeys.lookup act.asStr with
    | none => (c, .ok ())
    | some _ => ({ c with hotkeys := c.hotkeys.erase act.asStr },
        parsed.mapError ("invalid accelerator: " ++ ·))

/-- `label_server`; a blank label is none. -/
def labelServer (addr : String) (label : Option String) : AppCore :=
  let label := label.filter fun s => Server.trim s ≠ ""
  { c with servers := changeServer (fun e => { e with label }) c.servers addr }

/-- A command. -/
def command : Command → Reply
  | .setName name sent => ({ c with name := some name }, c.sendMsg sent)
  | .setMute muted => ({ c with muted }, .ok ())
  | .setVoiceMode mode => c.setVoiceMode mode
  | .setParanoid enabled => ({ c with paranoid := enabled }, .ok ())
  | .setAgc enabled => ({ c with agc := enabled }, .ok ())
  | .setDenoise enabled => ({ c with denoise := enabled }, .ok ())
  | .pttPress => ({ c with muted := false }, .ok ())
  | .pttRelease => ({ c with muted := true }, .ok ())
  | .importSettings json => c.importSettings json
  | .setInputDevice name => ({ c with inputDevice := name }, .ok ())
  | .setOutputDevice name => ({ c with outputDevice := name }, .ok ())
  | .setInputGain pct => (c.applyInputGain pct, .ok ())
  | .setOutputVolume pct => (c.applyOutputVol pct, .ok ())
  | .setPeerVolume name pct => (c.applyPeerVolume name pct, .ok ())
  | .setVadLevel pct => (c.applyVadLevel pct, .ok ())
  | .setHotkey action accel registered => c.setHotkey action accel registered
  | .unsetHotkey action parsed => c.unsetHotkey action parsed
  | .setNotifications enabled => ({ c with notifications := enabled }, .ok ())
  | .setAutostart enabled done =>
    match done with
    | .error e => (c, .error ("autostart: " ++ e))
    | .ok _ => ({ c with autostart := enabled }, .ok ())
  | .setCloseToTray enabled => ({ c with closeToTray := enabled }, .ok ())
  | .setLanguage lang =>
    if isLanguage lang then ({ c with language := lang }, .ok ())
    else (c, .error ("unsupported language: " ++ lang))
  | .forgetServer addr => ({ c with servers := c.servers.filter (·.addr ≠ addr) }, .ok ())
  | .setServerFavourite addr favourite =>
    ({ c with servers := changeServer (fun e => { e with favourite }) c.servers addr }, .ok ())
  | .labelServer addr label => (c.labelServer addr label, .ok ())
  | .forgetDmPeer pubkeyHex =>
    ({ c with dmPeers := c.dmPeers.filter (·.pubkeyHex ≠ pubkeyHex) }, .ok ())
  | .setOverlayEnabled enabled => ({ c with overlayEnabled := enabled }, .ok ())
  | .setOverlayPosition position =>
    if isOverlayPosition position then ({ c with overlayPosition := position }, .ok ())
    else (c, .error ("invalid overlay position: " ++ position))
  | .setOverlayVisibility visibility =>
    if isOverlayVisibility visibility then ({ c with overlayVisibility := visibility }, .ok ())
    else (c, .error ("invalid overlay visibility: " ++ visibility))
  | .aside => (c, .ok ())

/-! ## The session -/

/-- What `connect` clears before it dials, and `disconnect`. -/
def clearSession : AppCore :=
  { c with
    drainHandle := none, conn := none, channel := none, participants := [], pendingJoin := none }

/-- `connect`, up to the call that it stops. -/
def connectTearDown (addr : String) : AppCore := { c.clearSession with serverAddr := some addr }

/-- `connect`, when the connection is up. -/
def connected (conn : ServerConnection) (addr : String) (now : ℕ) : AppCore :=
  { c with conn := some conn, servers := touchServer c.servers addr now }

/-- `tear_down_session` of the drain task. -/
def tearDownSession : AppCore :=
  { c with conn := none, channel := none, participants := [], pendingJoin := none }

/-- `handle` of the drain task, up to the call that it starts. -/
def handle (now : ℕ) : ServerMessage → AppCore
  | .joinedChannel channelId participants udpToken voiceKey =>
    { c with
      channel := some channelId
      participants
      servers := match c.serverAddr with
        | some addr => recordChannel c.servers addr channelId
        | none => c.servers
      pendingJoin := some ⟨channelId, udpToken, voiceKey⟩
      -- Default-mute on every channel join.
      muted := true }
  | .leftChannel => { c with channel := none, participants := [] }
  | .directMessage fromPubkey fromName _ =>
    { c with dmPeers := touchPeer c.dmPeers (hexEncode fromPubkey) fromName now }
  | .nameChanged oldName newName =>
    if oldName = "" then { c with name := c.name.or (some newName) }
    else
      { c with
        peerGains := c.peerGains.rename oldName newName
        participants := Client.Desktop.handle c.participants (.nameChanged oldName newName) }
  | msg => { c with participants := Client.Desktop.handle c.participants msg }

/-- `handle` of the hotkeys. -/
def handleHotkey : HotkeyAction → ShortcutState → AppCore
  | .mute, .pressed => { c with muted := !c.muted }
  | .ptt, .pressed => { c with muted := false }
  | .ptt, .released => { c with muted := true }
  | _, _ => c

end AppCore

/-! ## Everything that happens under the lock -/

/-- One hold of the lock.  `connect` has four, and so has a lost connection that comes back; a
message that starts a call has two. -/
inductive CoreEvent where
  | command (cmd : Command)
  | hotkey (action : HotkeyAction) (state : ShortcutState)
  /-- The tray's own item for muting. -/
  | trayMute
  | connectTearDown (addr : String)
  | connected (conn : ServerConnection) (addr : String) (now : ℕ)
  | connectFailed
  | drainSpawned (task : ℕ)
  | disconnect
  | message (msg : ServerMessage) (now : ℕ)
  | takeJoin
  | tearDownSession
  | reconnected (conn : ServerConnection)

/-- The state after it. -/
def AppCore.apply (c : AppCore) : CoreEvent → AppCore
  | .command cmd => (c.command cmd).1
  | .hotkey action state => c.handleHotkey action state
  | .trayMute => { c with muted := !c.muted }
  | .connectTearDown addr => c.connectTearDown addr
  | .connected conn addr now => c.connected conn addr now
  | .connectFailed => { c with conn := none }
  | .drainSpawned task => { c with drainHandle := some task }
  | .disconnect => c.clearSession
  | .message msg now => c.handle now msg
  | .takeJoin => { c with pendingJoin := none }
  | .tearDownSession => c.tearDownSession
  | .reconnected conn => { c with conn := some conn }

/-- The state after all of a list of events. -/
def AppCore.run (c : AppCore) (es : List CoreEvent) : AppCore := es.foldl AppCore.apply c

end Desktop
end TcVoice
