import Mathlib.Data.Finset.Dedup
import TcVoice.Lib.Runs
import TcVoice.Server.State
import TcVoice.Shared.Config

/-!
# The voice actor

`actor_loop` and `Supervisor` of `apps/desktop/src-tauri/src/voice_actor.rs`: the thread that
holds the running call and the sound check, and opens their devices again when they fail, change
or come back.

* `VoiceHandle`, `startFrom`, `VoiceHandle.rebuild` — a call with its two halves, each with the
  device that it was last tried on.
* `Supervisor`, `tick` — one supervision pass.
* `Actor`, `Actor.recv`, `Actor.tickHandle` — one command of the queue; a snapshot comes in two
  parts, the restart and the pass with the report.

The two halves are one definition with the kind of device as a parameter.  What the system
answers meanwhile comes with the command: the clock in milliseconds, the outcomes of starting the
pipeline and of opening devices, and the devices that there are.
-/

namespace TcVoice
namespace Desktop

/-! ## Calls -/

/-- The kind of a device. -/
inductive Kind where
  | input
  | output
  deriving DecidableEq, Repr

/-- `StartParams`, without the settings that a running call reads live. -/
structure StartParams where
  serverIp : IpAddr
  channelId : ChannelId
  udpToken : UInt64
  voiceKey : Bytes
  inputDevice : Option String
  outputDevice : Option String
  senderName : String
  echoTest : Bool
  deriving DecidableEq, Repr

/-- The device of a kind. -/
def StartParams.device (p : StartParams) : Kind → Option String
  | .input => p.inputDevice
  | .output => p.outputDevice

/-- `HalfState`. -/
inductive HalfState where
  | ok
  | failed
  | absent
  deriving DecidableEq, Repr

/-- One half of a call: the device it has opened, unless it is absent; whether its stream has
failed since; and the device that the last attempt to open it was for. -/
structure Half where
  opened : Option String
  failed : Bool
  attempted : Option String
  deriving DecidableEq, Repr

/-- `VoiceHandle`: what the call was started with, and its halves. -/
structure VoiceHandle where
  params : StartParams
  half : Kind → Half

/-- Where a device is opened: at the start, for a switch, for a half that is dead, because the
default has changed, or because the device has come back. -/
inductive Attempt where
  | start
  | switch
  | dead
  | default
  | arrival
  deriving DecidableEq, Repr

/-- What the system answers while a command is processed. -/
structure Answers where
  now : ℕ
  /-- `start_voice`, up to the devices. -/
  start : Except String Unit
  /-- The device that is opened. -/
  openDevice : Kind → Attempt → Except String String
  /-- `default_input_name`, `default_output_name`. -/
  defaultName : Kind → Option String
  /-- `list_input_devices`, `list_output_devices`. -/
  listDevices : Kind → Except String (List String)
  /-- What a sound check has had from the network. -/
  registered : Bool
  bytesReceived : ℕ

/-- Whether so much time has passed since an earlier one, if there was one. -/
def Answers.elapsed (a : Answers) (interval : ℕ) (since : Option ℕ) : Bool :=
  since.all fun t => decide (interval ≤ a.now - t)

/-- A half after an attempt on a device. -/
def Half.of (device : Option String) (res : Except String String) : Half :=
  ⟨res.toOption, false, device⟩

/-- `capture_state`, `playback_state`. -/
def Half.state (half : Half) : HalfState :=
  if half.opened = none then .absent else if half.failed then .failed else .ok

/-- `start_from`. -/
def startFrom (p : StartParams) (a : Answers) : Except String VoiceHandle :=
  a.start.map fun _ => ⟨p, fun kind => .of (p.device kind) (a.openDevice kind .start)⟩

/-- `rebuild_capture`, `rebuild_playback`. -/
def VoiceHandle.rebuild (h : VoiceHandle) (kind : Kind) (device : Option String)
    (res : Except String String) : VoiceHandle :=
  { h with half := Function.update h.half kind (.of device res) }

/-! ## The supervisor -/

/-- `NewDevice`. -/
structure NewDevice where
  kind : Kind
  name : String
  deriving DecidableEq, Repr

/-- `Supervisor`. -/
structure Supervisor where
  /-- The devices that are wanted; none is the default of the system. -/
  desired : Kind → Option String
  lastAttempt : Kind → Option ℕ
  lastDevicePoll : Option ℕ
  /-- The devices at the last poll. -/
  known : Kind → Option (Finset String)
  rebuilds : ℕ
  pendingNewDevices : List NewDevice
  devicesChanged : Bool

namespace Supervisor

/-- `Supervisor::new`. -/
def new (desired : Kind → Option String) : Supervisor where
  desired := desired
  lastAttempt := fun _ => none
  lastDevicePoll := none
  known := fun _ => none
  rebuilds := 0
  pendingNewDevices := []
  devicesChanged := false

/-- A rebuild is counted if it has opened a device. -/
def count (sup : Supervisor) (res : Except String String) : Supervisor :=
  if res.isOk then { sup with rebuilds := sup.rebuilds + 1 } else sup

end Supervisor

/-- The supervisor with the call, if there is one. -/
abbrev Supervised := Supervisor × Option VoiceHandle

variable (a : Answers)

/-- A half that is dead or absent is rebuilt, unless that has been tried just now. -/
def rebuildDead (kind : Kind) : Supervised → Supervised
  | (sup, none) => (sup, none)
  | (sup, some h) =>
    if (h.half kind).state ≠ .ok ∧
        a.elapsed Config.voiceRestartMinIntervalMs (sup.lastAttempt kind) = true then
      let res := a.openDevice kind .dead
      ({ sup with lastAttempt := Function.update sup.lastAttempt kind (some a.now) }.count res,
        some (h.rebuild kind (sup.desired kind) res))
    else (sup, some h)

/-- A half on the default follows it to another device. -/
def followDefault (kind : Kind) : Supervised → Supervised
  | (sup, none) => (sup, none)
  | (sup, some h) =>
    match sup.desired kind, a.defaultName kind, (h.half kind).opened with
    | none, some def', some cur =>
      if cur ≠ def' then
        let res := a.openDevice kind .default
        (sup.count res, some (h.rebuild kind none res))
      else (sup, some h)
    | _, _, _ => (sup, some h)

/-- `on_new_device`. -/
def onNewDevice (kind : Kind) (name : String) : Supervised → Supervised
  | (sup, handle) =>
    if sup.desired kind = some name then
      match handle with
      | some h =>
        let res := a.openDevice kind .arrival
        (sup.count res, some (h.rebuild kind (some name) res))
      | none => (sup, none)
    else ({ sup with pendingNewDevices := sup.pendingNewDevices ++ [⟨kind, name⟩] }, handle)

/-- The names of the devices of a kind, each once; none if they cannot be listed. -/
def deviceNames (kind : Kind) : List String := ((a.listDevices kind).toOption.getD []).dedup

/-- The devices of a kind that have not been known, one after the other. -/
def onNewDevices (kind : Kind) (known : Finset String) (s : Supervised) : Supervised :=
  ((deviceNames a kind).filter (· ∉ known)).foldl (fun s name => onNewDevice a kind name s) s

/-- Hot-plug detection. -/
def hotPlug (s : Supervised) : Supervised :=
  let inputs := (deviceNames a .input).toFinset
  let outputs := (deviceNames a .output).toFinset
  let s : Supervised :=
    match s.1.known .input, s.1.known .output with
    | some knownIn, some knownOut =>
      let s := onNewDevices a .output knownOut (onNewDevices a .input knownIn s)
      if inputs ≠ knownIn ∨ outputs ≠ knownOut then ({ s.1 with devicesChanged := true }, s.2)
      else s
    | _, _ => s
  ({ s.1 with
    known := fun
      | .input => some inputs
      | .output => some outputs }, s.2)

/-- `Supervisor::tick`. -/
def tick (s : Supervised) : Supervised :=
  let s := rebuildDead a .output (rebuildDead a .input s)
  if a.elapsed Config.devicePollIntervalMs s.1.lastDevicePoll then
    let s : Supervised := ({ s.1 with lastDevicePoll := some a.now }, s.2)
    hotPlug a (followDefault a .output (followDefault a .input s))
  else s

/-! ## The actor -/

/-- `EchoResult`. -/
structure EchoResult where
  micOk : Bool
  outputOk : Bool
  registered : Bool
  roundtripOk : Bool
  bytesReceived : ℕ
  deriving DecidableEq, Repr

/-- `EchoResult::default`. -/
def EchoResult.default : EchoResult := ⟨false, false, false, false, 0⟩

/-- `echo_result`. -/
def echoResult (h : VoiceHandle) : EchoResult where
  micOk := decide ((h.half .input).state = .ok)
  outputOk := decide ((h.half .output).state = .ok)
  registered := a.registered
  roundtripOk := decide (0 < a.bytesReceived)
  bytesReceived := a.bytesReceived

/-- `VoiceSnapshot`.  The levels, the loss, the tier, the rates and whether the call is registered,
which the level pump only passes on, are left out. -/
structure VoiceSnapshot where
  active : Bool
  deviceRestarts : ℕ
  captureOk : Bool
  playbackOk : Bool
  newDevices : List NewDevice
  devicesChanged : Bool
  deriving DecidableEq, Repr

/-- `Cmd`. -/
inductive Cmd where
  | start (p : StartParams)
  | stop
  | snapshot
  | setInputDevice (name : Option String)
  | setOutputDevice (name : Option String)
  | echoStart (p : StartParams)
  | echoStop
  deriving DecidableEq, Repr

/-- The answer to a command. -/
inductive ActorReply where
  | done (res : Except String Unit)
  | echo (res : EchoResult)
  | report (snap : VoiceSnapshot)

/-- The variables of `actor_loop`, and whether a snapshot is still to be finished. -/
structure Actor where
  handle : Option VoiceHandle
  echoHandle : Option VoiceHandle
  lastParams : Option StartParams
  lastRestart : Option ℕ
  sup : Supervisor
  ticking : Bool

namespace Actor

/-- Before the first command. -/
def init : Actor where
  handle := none
  echoHandle := none
  lastParams := none
  lastRestart := none
  sup := .new fun _ => none
  ticking := false

variable (act : Actor)

/-- `Cmd::Start`. -/
def start (p : StartParams) : Actor × ActorReply :=
  let act := { act with
    handle := none, lastRestart := none, sup := .new p.device, lastParams := some p }
  match startFrom p a with
  | .ok h => ({ act with handle := some h }, .done (.ok ()))
  | .error e => (act, .done (.error e))

/-- `Cmd::Stop`. -/
def stop : Actor := { act with handle := none, lastParams := none }

/-- `Cmd::EchoStart`. -/
def echoStart (p : StartParams) : Actor × ActorReply :=
  match startFrom p a with
  | .ok h => ({ act with echoHandle := some h }, .done (.ok ()))
  | .error e => ({ act with echoHandle := none }, .done (.error e))

/-- `Cmd::EchoStop`. -/
def echoStop : Actor × ActorReply :=
  ({ act with echoHandle := none }, .echo ((act.echoHandle.map (echoResult a)).getD .default))

/-- `Cmd::SetInputDevice`, `Cmd::SetOutputDevice`. -/
def setDevice (kind : Kind) (name : Option String) : Actor :=
  { act with
    sup := { act.sup with desired := Function.update act.sup.desired kind name }
    handle := act.handle.map fun h => h.rebuild kind name (a.openDevice kind .switch) }

/-- Whether a snapshot starts the pipeline again. -/
def restartDue : Bool :=
  act.handle.isNone && act.echoHandle.isNone && act.lastParams.isSome &&
    a.elapsed Config.voiceRestartMinIntervalMs act.lastRestart

/-- `Cmd::Snapshot`, the restart. -/
def restart : Actor :=
  match act.lastParams with
  | some p =>
    if act.restartDue a then
      { act with lastRestart := some a.now, handle := (startFrom p a).toOption }
    else act
  | none => act

/-- `Cmd::Snapshot`, the supervision pass. -/
def supervise : Actor :=
  let s := tick a (act.sup, act.handle)
  { act with sup := s.1, handle := s.2 }

/-- `Cmd::Snapshot`, the report. -/
def report : Actor × VoiceSnapshot :=
  ({ act with sup := { act.sup with pendingNewDevices := [], devicesChanged := false } },
    let shown := act.handle.or act.echoHandle
    { active := shown.isSome
      deviceRestarts := if shown.isSome then act.sup.rebuilds else 0
      captureOk := shown.all fun h => decide ((h.half .input).state = .ok)
      playbackOk := shown.all fun h => decide ((h.half .output).state = .ok)
      newDevices := act.sup.pendingNewDevices
      devicesChanged := act.sup.devicesChanged })

/-- A command, with the answer that it gives at once. -/
def recv : Cmd → Actor × Option ActorReply
  | .start p => ((act.start a p).1, some (act.start a p).2)
  | .stop => (act.stop, none)
  | .snapshot => ({ act.restart a with ticking := true }, none)
  | .setInputDevice name => (act.setDevice a .input name, none)
  | .setOutputDevice name => (act.setDevice a .output name, none)
  | .echoStart p => ((act.echoStart a p).1, some (act.echoStart a p).2)
  | .echoStop => ((act.echoStop a).1, some (act.echoStop a).2)

/-- The rest of a snapshot. -/
def finish : Actor × ActorReply :=
  let r := (act.supervise a).report
  ({ r.1 with ticking := false }, .report r.2)

/-- The stream of a half of the call fails. -/
def streamFailed (kind : Kind) : Actor :=
  { act with handle := act.handle.map fun h =>
      { h with half := Function.update h.half kind { h.half kind with failed := true } } }

end Actor
end Desktop
end TcVoice
