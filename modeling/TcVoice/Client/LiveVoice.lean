import TcVoice.Client.Session

/-!
# Whom the microphone is streaming to

A running call of the terminal client against what its user has been told: the connection,
the channel, and the sound check.

* `Session.Covered` — a call that runs is that of the channel, or the sound check.
* `Session.KeepsCovered` — the condition on one part of the loop, from the state before it:
  no reconnect and no failing send while a call runs, no call without a connection, and
  no failing call for another channel.
* `covered_iff` — **a session is covered throughout exactly when each part of its loop
  meets the condition**; `hot_microphone` is a reconnect in the middle of a call.
* `Session.TimerRight` — what a sound check's timer may end; `timerRight_iff` — **it is
  right throughout exactly when no call starts and no channel is joined while it runs**.
-/

namespace TcVoice
namespace Client

open Runs

namespace Session

/-! ## What a call may run for -/

/-- The sound check's timer was set for this call. -/
def TimedFor (s : Session) (h : VoiceHandle) : Prop :=
  s.echoDeadline.map (·.handle) = some h.number

/-- If a call is running, there is a connection, and the call is the one of the channel or the
sound check. -/
def Covered (s : Session) : Prop :=
  ∀ h, s.voiceHandle = some h →
    s.conn.isSome = true ∧ (s.channel = some h.params.channelId ∨ s.TimedFor h)

/-- A message can be sent: the queue takes it, or no call would be left without connection. -/
def MaySend (s : Session) (a : Answers) : Prop :=
  s.voiceHandle.isSome = true → a.send = true

/-- The old connection can be dropped: no call is running, or only a sound check, and there is
a new connection. -/
def MayReconnect (s : Session) (a : Answers) : Prop :=
  ∀ h, s.voiceHandle = some h → a.connect.isSome = true ∧ s.TimedFor h

/-- The condition on a command. -/
def KeepsCoveredCommand (s : Session) (a : Answers) : Command → Prop
  | .trust | .reconnect => s.MayReconnect a
  | .server (some _) => s.connState = .connected ∨ s.MayReconnect a
  | .config (.input (some _)) | .config (.output (some _)) =>
    s.voiceJoinParams.isSome = true → a.startVoice = true → s.conn.isSome = true
  | .name (some _) => s.MaySend a
  | .create rawName => (createRequest rawName).isSome = true → s.MaySend a
  | .list | .connect (some _) | .chat _ => s.MaySend a
  | _ => True

/-- The condition on a message. -/
def KeepsCoveredMessage (s : Session) (a : Answers) : ServerMessage → Prop
  | .channelCreated _ => s.MaySend a
  | .joinedChannel channelId _ _ _ =>
    if a.startVoice then s.conn.isSome = true
    else ∀ h, s.voiceHandle = some h → h.params.channelId = channelId ∨ s.TimedFor h
  | .echoTestReady _ _ _ => a.startVoice = true → s.conn.isSome = true
  | _ => True

/-- The condition on a part of the loop. -/
def KeepsCovered (s : Session) : SessionEvent × Answers → Prop
  | (.command command, a) => s.KeepsCoveredCommand a command
  | (.message msg, a) => s.KeepsCoveredMessage a msg
  | _ => True

variable {s : Session} {a : Answers}

theorem covered_of_none (h : s.voiceHandle = none) : s.Covered := by
  intro handle hhandle
  rw [h] at hhandle
  cases hhandle

/-- A failing send takes the connection from a call. -/
theorem covered_send (h : s.Covered) (msg : ClientMessage) :
    (s.sendOrDisconnect a msg).1.Covered ↔ s.MaySend a := by
  obtain heq | ⟨hsend, hconn, heq⟩ := sendOrDisconnect_cases s a msg
  · rw [heq]
    refine ⟨fun _ hhandle => ?_, fun _ => h⟩
    obtain ⟨handle, hhandle⟩ := Option.isSome_iff_exists.1 hhandle
    obtain ⟨c, hconn⟩ := Option.isSome_iff_exists.1 (h handle hhandle).1
    by_contra hsend
    rw [Bool.not_eq_true] at hsend
    -- the send would have cost the connection
    have hlost := congrArg Session.conn heq
    simp [sendOrDisconnect, hconn, hsend] at hlost
  · rw [heq]
    constructor
    · intro hcovered hhandle
      obtain ⟨handle, hhandle⟩ := Option.isSome_iff_exists.1 hhandle
      exact absurd (hcovered handle hhandle).1 (by simp)
    · intro hmay
      refine covered_of_none (Option.not_isSome_iff_eq_none.1 fun hhandle => ?_)
      rw [hmay hhandle] at hsend
      cases hsend

/-- A reconnect drops connection and channel, and keeps the call. -/
theorem covered_reconnect : (s.doReconnect a).1.Covered ↔ s.MayReconnect a := by
  unfold doReconnect MayReconnect
  cases hconnect : a.connect with
  | none =>
    constructor
    · intro hcovered handle hhandle
      exact absurd (hcovered handle hhandle).1 (by simp [dropConnection])
    · intro hmay
      refine covered_of_none (Option.eq_none_iff_forall_ne_some.2 fun handle hhandle => ?_)
      cases (hmay handle hhandle).1
  | some c =>
    constructor
    · intro hcovered handle hhandle
      obtain ⟨-, hchannel | htimer⟩ := hcovered handle hhandle
      · cases hchannel
      · exact ⟨rfl, htimer⟩
    · intro hmay handle hhandle
      exact ⟨rfl, .inr (hmay handle hhandle).2⟩

/-- A call that is started for the channel needs a connection; one that is not leaves what is
running. -/
theorem covered_startVoice (serverIp : IpAddr) {params : VoiceJoinParams}
    (hchannel : s.channel = some params.channelId) :
    ((s.startVoice a serverIp params false).getD s).Covered ↔
      if a.startVoice then s.conn.isSome = true else s.Covered := by
  unfold startVoice
  split
  · constructor
    · intro hcovered
      exact (hcovered _ rfl).1
    · rintro hconn _ ⟨⟩
      exact ⟨hconn, .inl hchannel⟩
  · exact Iff.rfl

/-- A restart needs a connection, if there is something to restart. -/
theorem covered_restart (h : s.Wired) (hcovered : s.Covered) :
    (s.restartVoice a).Covered ↔
      (s.voiceJoinParams.isSome = true → a.startVoice = true → s.conn.isSome = true) := by
  unfold restartVoice
  cases hparams : s.voiceJoinParams with
  | none => exact ⟨fun _ hsome => absurd hsome Bool.false_ne_true, fun _ => hcovered⟩
  | some params =>
    have hchannel : s.channel = some params.channelId := by
      rw [← h.params, hparams]
      rfl
    obtain ⟨serverIp, hip⟩ := Option.isSome_iff_exists.1 (h.ip (.inr (by rw [hchannel]; rfl)))
    simp only [hip]
    rw [covered_startVoice (s := s.dropVoice) serverIp hchannel]
    split
    · rename_i hstart
      exact ⟨fun hconn _ _ => hconn, fun hconn => hconn rfl hstart⟩
    · rename_i hstart
      exact ⟨fun _ _ hstart' => absurd hstart' hstart, fun _ => covered_of_none rfl⟩

/-- A command that needs a connection is refused where there is none, and then there is no
call either. -/
theorem covered_connected (h : s.Wired) (hcovered : s.Covered) {next : Session}
    (hnext : next.Covered ↔ s.MaySend a) :
    (if s.connState ≠ .connected then s else next).Covered ↔ s.MaySend a := by
  split
  · rename_i hstate
    refine ⟨fun _ hhandle => ?_, fun _ => hcovered⟩
    obtain ⟨handle, hhandle⟩ := Option.isSome_iff_exists.1 hhandle
    exact absurd (h.conn.2 (hcovered handle hhandle).1) hstate
  · exact hnext

/-- A sound check is only asked for where no call is running. -/
theorem covered_echotest (hcovered : s.Covered) : (s.cmdEchotest a).1.Covered := by
  unfold cmdEchotest
  split
  · exact hcovered
  · rename_i hidle
    simp only [Bool.or_eq_true, not_or, Bool.not_eq_true, Option.isSome_eq_false_iff,
      Option.isNone_iff_eq_none] at hidle
    refine (covered_send hcovered .startEchoTest).2 fun hhandle => ?_
    obtain ⟨handle, hhandle⟩ := Option.isSome_iff_exists.1 hhandle
    obtain ⟨-, hchannel | htimer⟩ := hcovered handle hhandle
    · rw [hidle.1.1] at hchannel
      cases hchannel
    · rw [TimedFor, hidle.2] at htimer
      cases htimer

/-- The commands, one by one. -/
theorem covered_command (h : s.Wired) (hcovered : s.Covered) (command : Command) :
    (s.handleCommand a command).1.Covered ↔ s.KeepsCoveredCommand a command := by
  have htrue : s.Covered ↔ True := iff_true_intro hcovered
  have hsend : ∀ msg, (if s.connState ≠ .connected then (s, []) else
      s.sendOrDisconnect a msg).1.Covered ↔ s.MaySend a := by
    intro msg
    rw [apply_ite Prod.fst]
    exact covered_connected h hcovered (covered_send hcovered msg)
  have hkeep : ∀ next : Session × List ClientMessage, next.1.Covered →
      ((if s.connState ≠ .connected then (s, []) else next).1.Covered ↔ True) :=
    fun _ hnext => iff_true_intro (online hcovered hnext)
  cases command with
  | trust => exact covered_reconnect
  | reconnect => exact covered_reconnect
  | server target =>
    cases target with
    | none => exact htrue
    | some target =>
      obtain ⟨serverAddr, namedChannel⟩ := target
      show (s.cmdServer a (some (serverAddr, namedChannel))).1.Covered ↔ _
      unfold cmdServer KeepsCoveredCommand
      simp only
      split
      · rename_i hstate
        exact ⟨fun _ => .inl hstate, fun _ => hcovered⟩
      · rename_i hstate
        rw [covered_reconnect, or_iff_right hstate]
        rfl
  | config change =>
    cases change with
    | list => exact htrue
    | level => exact htrue
    | input device =>
      cases device with
      | none => exact htrue
      | some device =>
        refine covered_restart ⟨h.conn, h.params, h.ip, h.pending, h.handle, h.timer⟩ ?_
        exact hcovered
    | output device =>
      cases device with
      | none => exact htrue
      | some device =>
        refine covered_restart ⟨h.conn, h.params, h.ip, h.pending, h.handle, h.timer⟩ ?_
        exact hcovered
  | name newName =>
    cases newName with
    | none => exact htrue
    | some newName => exact covered_send hcovered (.setName newName)
  | aside => exact htrue
  | quit => exact htrue
  | create rawName =>
    show (if s.connState ≠ .connected then (s, []) else s.cmdCreate a rawName).1.Covered ↔
      ((createRequest rawName).isSome = true → s.MaySend a)
    unfold cmdCreate
    cases createRequest rawName with
    | none =>
      rw [hkeep (s, []) hcovered]
      exact ⟨fun _ hsome => absurd hsome Bool.false_ne_true, fun _ => trivial⟩
    | some msg =>
      rw [hsend msg]
      exact ⟨fun hmay _ => hmay, fun hmay => hmay rfl⟩
  | list => exact hsend .listChannels
  | connect id =>
    cases id with
    | none => exact hkeep (s, []) hcovered
    | some id => exact hsend (.joinChannel id)
  | leave => exact hkeep (s.cmdLeave a) (covered_of_none rfl)
  | echotest => exact hkeep (s.cmdEchotest a) (covered_echotest hcovered)
  | invite => exact hkeep (s, []) hcovered
  | chat text => exact hsend (.chatMessage text)
  | unknown => exact hkeep (s, []) hcovered

/-- The messages, one by one. -/
theorem covered_message (h : s.Wired) (hcovered : s.Covered) (hlive : s.serverRx = .live)
    (msg : ServerMessage) :
    (s.handleServerMessage a msg).1.Covered ↔ s.KeepsCoveredMessage a msg := by
  have htrue : s.Covered ↔ True := iff_true_intro hcovered
  obtain ⟨serverIp, hip⟩ := Option.isSome_iff_exists.1 (h.ip (.inl hlive))
  cases msg with
  | channelCreated channelId => exact covered_send hcovered (.joinChannel channelId)
  | joinedChannel channelId participants udpToken voiceKey =>
    unfold handleServerMessage KeepsCoveredMessage
    simp only [hip]
    rw [covered_startVoice serverIp rfl]
    split
    · exact Iff.rfl
    · constructor
      · intro hnext handle hhandle
        obtain ⟨-, hchannel | htimer⟩ := hnext handle hhandle
        · exact .inl (Option.some.inj hchannel).symm
        · exact .inr htimer
      · intro hmay handle hhandle
        refine ⟨(hcovered handle hhandle).1, ?_⟩
        obtain heq | htimer := hmay handle hhandle
        · exact .inl (congrArg some heq.symm)
        · exact .inr htimer
  | echoTestReady channelId udpToken voiceKey =>
    unfold handleServerMessage KeepsCoveredMessage
    simp only [hip]
    cases hstart : a.startVoice with
    | true =>
      rw [startVoice, if_pos hstart]
      constructor
      · intro hnext _
        exact (hnext _ rfl).1
      · rintro hconn _ ⟨⟩
        exact ⟨hconn rfl, .inr rfl⟩
    | false =>
      rw [startVoice, hstart]
      exact ⟨fun _ hnone => absurd hnone Bool.false_ne_true, fun _ => hcovered⟩
  | leftChannel => exact iff_true_intro (covered_of_none rfl)
  | nameChanged oldName newName =>
    unfold handleServerMessage
    simp only
    split <;> exact htrue
  | peerJoined peerName => exact htrue
  | peerLeft peerName => exact htrue
  | welcome version protocol => exact htrue
  | chatMessage sender text => exact htrue
  | directMessage fromPubkey fromName text => exact htrue
  | channelList channels => exact htrue
  | error message => exact htrue
  | pong => exact htrue

/-- The end of a sound check is the end of its call. -/
theorem covered_checkEcho (hcovered : s.Covered) : (s.checkEcho a).1.Covered := by
  unfold checkEcho
  split
  · exact hcovered
  · split
    · refine (covered_send (covered_of_none rfl) .stopEchoTest).2 ?_
      rintro ⟨⟩
    · exact hcovered

/-- A connection that comes back takes nothing from a call. -/
theorem covered_autoReconnect (h : s.Wired) (hcovered : s.Covered) :
    (s.autoReconnect a).1.Covered := by
  unfold autoReconnect
  cases hnext : s.nextReconnect with
  | none => exact hcovered
  | some deadline =>
    -- nothing is running while a reconnect is pending
    have hidle : s.voiceHandle = none := by
      rw [Option.eq_none_iff_forall_ne_some]
      intro handle hhandle
      obtain ⟨hconn, -⟩ := h.pending (by rw [hnext]; rfl)
      have hlive := (hcovered handle hhandle).1
      rw [hconn] at hlive
      cases hlive
    simp only
    split
    · cases a.connect with
      | some c => exact covered_of_none hidle
      | none => exact covered_of_none hidle
    · exact hcovered

/-- **One part of the loop leaves a session covered exactly when it meets the condition.** -/
theorem covered_step (h : s.Wired) (hcovered : s.Covered) {e : SessionEvent × Answers}
    {s' : Session} (hs : s.step e = some s') : s'.Covered ↔ s.KeepsCovered e := by
  unfold Session.step at hs
  split at hs
  · rename_i henabled
    cases hs
    obtain ⟨e, a⟩ := e
    cases e with
    | checkEcho => exact iff_true_intro (covered_checkEcho hcovered)
    | command command => exact covered_command h hcovered command
    | message msg => exact covered_message h hcovered (of_decide_eq_true henabled) msg
    | lostConnection => exact iff_true_intro (covered_of_none rfl)
    | autoReconnect => exact iff_true_intro (covered_autoReconnect h hcovered)
  · cases hs

/-- **Whom the microphone is streaming to.**  Over any run of the loop, with any answers from
outside: a call that is running always has a connection and is that of the channel or of the
sound check, exactly when every part of the loop meets its condition. -/
theorem covered_iff (serverAddr : String) (name inputDevice outputDevice : Option String)
    (connect : Option ServerConnection) (es : List (SessionEvent × Answers)) :
    Throughout Session.step Covered (start serverAddr name inputDevice outputDevice connect) es ↔
      EachStep Session.step KeepsCovered
        (start serverAddr name inputDevice outputDevice connect) es := by
  refine throughout_iff_eachStep Wired ?_ ?_ (wired_start _ _ _ _ _) (covered_of_none rfl)
    (eachStep_true _ es)
  · intro s e s' h _ hs
    exact h.step hs
  · intro s e s' h hcovered _ hs
    exact covered_step h hcovered hs

/-! ## A call that is left running -/

/-- A server at an address of its own, and answers that are all in favour. -/
def sampleServer : ServerConnection := ⟨.v4 0x0a000001 7100⟩

def favourable (now : ℕ) : Answers := ⟨now, true, true, some sampleServer⟩

/-- The client after it has connected. -/
def sampleStart : Session := start "10.0.0.1:7100" none none none (some sampleServer)

/-- A room is joined, and `/reconnect` is typed in the middle of the call. -/
def reconnectInCall : List (SessionEvent × Answers) :=
  [(.message (.joinedChannel "room" ["user"] 7 (List.replicate Config.voiceKeyLen 0)),
      favourable 0),
    (.command .reconnect, favourable 1000)]

/-- **A hot microphone**: after the reconnect the call goes on, and there is no channel. -/
theorem hot_microphone : ¬ Throughout Session.step Covered sampleStart reconnectInCall ∧
    ∃ s h, runFrom Session.step sampleStart reconnectInCall = some s ∧
      s.voiceHandle = some h ∧ h.params.channelId = "room" ∧ s.channel = none ∧
      s.echoDeadline = none := by
  have hrun : ∃ s h, runFrom Session.step sampleStart reconnectInCall = some s ∧
      s.voiceHandle = some h ∧ h.params.channelId = "room" ∧ s.channel = none ∧
      s.echoDeadline = none := ⟨_, _, rfl, rfl, rfl, rfl, rfl⟩
  refine ⟨fun hcovered => ?_, hrun⟩
  obtain ⟨s, h, hs, hhandle, -, hchannel, htimer⟩ := hrun
  obtain ⟨-, hroom | hcheck⟩ := throughout_iff.1 hcovered 2 s hs h hhandle
  · rw [hchannel] at hroom
    cases hroom
  · rw [TimedFor, htimer] at hcheck
    cases hcheck

/-! ## What a sound check's timer may end -/

/-- Whenever the timer expires, the call it ends is its own, if there is one, and the server is
told to stop a sound check only if the client is in no channel. -/
def TimerRight (s : Session) : Prop :=
  ∀ timer, s.echoDeadline = some timer → ∀ a : Answers, timer.deadline ≤ a.now →
    (∀ h, s.voiceHandle = some h → h.number = timer.handle) ∧
      (ClientMessage.stopEchoTest ∈ (s.checkEcho a).2 → s.channel = none)

/-- The condition on a part of the loop: while the timer runs, no other call starts, and no
channel is joined; and no sound check starts in a channel. -/
def KeepsTimer (s : Session) : SessionEvent × Answers → Prop
  | (.command (.config (.input (some _))), a) | (.command (.config (.output (some _))), a) =>
    s.echoDeadline.isSome = true → s.voiceJoinParams.isSome = true → a.startVoice = false
  | (.message (.joinedChannel _ _ _ _), a) =>
    s.echoDeadline.isSome = true → a.startVoice = false ∧ s.conn = none
  | (.message (.echoTestReady _ _ _), a) =>
    a.startVoice = true → s.conn.isSome = true → s.channel = none
  | _ => True

/-- What the timer needs of the state, whatever the clock says: the call is its own, and a client
that could send is in no channel. -/
def TimerOwn (s : Session) : Prop :=
  ∀ timer, s.echoDeadline = some timer →
    (∀ h, s.voiceHandle = some h → h.number = timer.handle) ∧
      (s.conn.isSome = true → s.channel = none)

theorem timerRight_iff_own : s.TimerRight ↔ s.TimerOwn := by
  refine forall₂_congr fun timer htimer => ?_
  constructor
  · intro h
    refine ⟨(h ⟨timer.deadline, true, true, none⟩ (Nat.le_refl _)).1, fun hconn => ?_⟩
    obtain ⟨c, hconn⟩ := Option.isSome_iff_exists.1 hconn
    refine (h ⟨timer.deadline, true, true, none⟩ (Nat.le_refl _)).2 ?_
    simp [checkEcho, htimer, sendOrDisconnect, dropVoice, hconn]
  · rintro ⟨hown, hchannel⟩ a hdue
    refine ⟨hown, fun hsent => hchannel ?_⟩
    simp only [checkEcho, htimer, if_pos hdue, sendOrDisconnect, dropVoice] at hsent
    cases hconn : s.conn with
    | none =>
      simp only [hconn] at hsent
      cases hsent
    | some c => rfl

theorem timerOwn_of_none (h : s.echoDeadline = none) : s.TimerOwn := by
  intro timer htimer
  rw [h] at htimer
  cases htimer

/-- A smaller state: the same timer, no other call, and no more of connection and channel. -/
theorem TimerOwn.mono (h : s.TimerOwn) {s' : Session}
    (htimer : s'.echoDeadline = s.echoDeadline)
    (hhandle : s'.voiceHandle = none ∨ s'.voiceHandle = s.voiceHandle)
    (hchannel : s'.channel = none ∨
      s'.channel = s.channel ∧ (s'.conn.isSome = true → s.conn.isSome = true)) :
    s'.TimerOwn := by
  intro timer ht
  obtain ⟨hown, hout⟩ := h timer (htimer ▸ ht)
  constructor
  · intro handle hh
    obtain hnone | hsame := hhandle
    · rw [hnone] at hh
      cases hh
    · exact hown handle (hsame ▸ hh)
  · intro hconn
    obtain hnone | ⟨hsame, hback⟩ := hchannel
    · exact hnone
    · rw [hsame]
      exact hout (hback hconn)

theorem TimerOwn.send (h : s.TimerOwn) (msg : ClientMessage) :
    (s.sendOrDisconnect a msg).1.TimerOwn := by
  obtain heq | ⟨-, -, heq⟩ := sendOrDisconnect_cases s a msg
  · rw [heq]
    exact h
  · rw [heq]
    exact h.mono rfl (.inr rfl) (.inr ⟨rfl, fun hnone => absurd hnone (by simp)⟩)

/-- A reconnect leaves every channel. -/
theorem TimerOwn.reconnect (h : s.TimerOwn) : (s.doReconnect a).1.TimerOwn := by
  unfold doReconnect
  cases a.connect with
  | none => exact h.mono rfl (.inr rfl) (.inl rfl)
  | some c => exact h.mono rfl (.inr rfl) (.inl rfl)

/-- A call that is started while a timer runs is not the one that the timer is for. -/
theorem timerOwn_startVoice (hwired : s.Wired) (h : s.TimerOwn) (serverIp : IpAddr)
    (params : VoiceJoinParams) :
    ((s.startVoice a serverIp params false).getD s).TimerOwn ↔
      (s.echoDeadline.isSome = true → a.startVoice = false) := by
  unfold startVoice
  cases hstart : a.startVoice with
  | false => exact ⟨fun _ _ => rfl, fun _ => h⟩
  | true =>
    constructor
    · intro hright htimer
      obtain ⟨timer, htimer⟩ := Option.isSome_iff_exists.1 htimer
      have hnumber : s.started = timer.handle := (hright timer htimer).1 _ rfl
      exact absurd (hwired.timer timer htimer) (by omega)
    · intro hno timer htimer
      have hfalse := hno (by rw [show s.echoDeadline = some timer from htimer]; rfl)
      cases hfalse

/-- A restart starts a call, if there is something to restart. -/
theorem timerOwn_restart (hwired : s.Wired) (h : s.TimerOwn) :
    (s.restartVoice a).TimerOwn ↔ (s.echoDeadline.isSome = true →
      s.voiceJoinParams.isSome = true → a.startVoice = false) := by
  unfold restartVoice
  cases hparams : s.voiceJoinParams with
  | none => exact ⟨fun _ _ hsome => absurd hsome Bool.false_ne_true, fun _ => h⟩
  | some params =>
    have hchannel : s.channel = some params.channelId := by
      rw [← hwired.params, hparams]
      rfl
    obtain ⟨serverIp, hip⟩ :=
      Option.isSome_iff_exists.1 (hwired.ip (.inr (by rw [hchannel]; rfl)))
    have hdropped : s.dropVoice.TimerOwn := h.mono rfl (.inl rfl) (.inr ⟨rfl, id⟩)
    simp only [hip]
    rw [timerOwn_startVoice hwired.dropVoice hdropped]
    exact ⟨fun hno htimer _ => hno htimer, fun hno htimer => hno htimer rfl⟩

/-- The commands, one by one. -/
theorem timerOwn_command (hwired : s.Wired) (h : s.TimerOwn) (command : Command) :
    (s.handleCommand a command).1.TimerOwn ↔ s.KeepsTimer (.command command, a) := by
  have htrue : s.TimerOwn ↔ True := iff_true_intro h
  have hkeep : ∀ next : Session × List ClientMessage, next.1.TimerOwn →
      ((if s.connState ≠ .connected then (s, []) else next).1.TimerOwn ↔ True) :=
    fun _ hnext => iff_true_intro (online h hnext)
  cases command with
  | trust => exact iff_true_intro h.reconnect
  | reconnect => exact iff_true_intro h.reconnect
  | server target =>
    cases target with
    | none => exact htrue
    | some target =>
      refine iff_true_intro ?_
      show (s.cmdServer a (some target)).1.TimerOwn
      unfold cmdServer
      simp only
      split
      · exact h
      · exact TimerOwn.reconnect h
  | config change =>
    cases change with
    | list => exact htrue
    | level => exact htrue
    | input device =>
      cases device with
      | none => exact htrue
      | some device =>
        exact timerOwn_restart ⟨hwired.conn, hwired.params, hwired.ip, hwired.pending,
          hwired.handle, hwired.timer⟩ h
    | output device =>
      cases device with
      | none => exact htrue
      | some device =>
        exact timerOwn_restart ⟨hwired.conn, hwired.params, hwired.ip, hwired.pending,
          hwired.handle, hwired.timer⟩ h
  | name newName =>
    cases newName with
    | none => exact htrue
    | some newName => exact iff_true_intro (h.send (.setName newName))
  | aside => exact htrue
  | quit => exact htrue
  | create rawName =>
    refine hkeep (s.cmdCreate a rawName) ?_
    unfold cmdCreate
    split
    · exact h.send _
    · exact h
  | list => exact hkeep _ (h.send .listChannels)
  | connect id =>
    cases id with
    | none => exact hkeep (s, []) h
    | some id => exact hkeep _ (h.send (.joinChannel id))
  | leave =>
    refine hkeep (s.cmdLeave a) ?_
    exact (h.send (a := a) .leaveChannel).mono rfl (.inl rfl) (.inl rfl)
  | echotest =>
    refine hkeep (s.cmdEchotest a) ?_
    unfold cmdEchotest
    split
    · exact h
    · exact h.send _
  | invite => exact hkeep (s, []) h
  | chat text => exact hkeep _ (h.send (.chatMessage text))
  | unknown => exact hkeep (s, []) h

/-- The messages, one by one. -/
theorem timerOwn_message (hwired : s.Wired) (h : s.TimerOwn) (hlive : s.serverRx = .live)
    (msg : ServerMessage) :
    (s.handleServerMessage a msg).1.TimerOwn ↔ s.KeepsTimer (.message msg, a) := by
  have htrue : s.TimerOwn ↔ True := iff_true_intro h
  obtain ⟨serverIp, hip⟩ := Option.isSome_iff_exists.1 (hwired.ip (.inl hlive))
  cases msg with
  | channelCreated channelId => exact iff_true_intro (h.send (.joinChannel channelId))
  | joinedChannel channelId participants udpToken voiceKey =>
    unfold handleServerMessage KeepsTimer
    simp only [hip]
    unfold startVoice
    cases hstart : a.startVoice with
    | true =>
      refine ⟨fun hnext htimer => ?_, fun hmay timer htimer => ?_⟩
      · obtain ⟨timer, htimer⟩ := Option.isSome_iff_exists.1 htimer
        have hnumber : s.started = timer.handle := (hnext timer htimer).1 _ rfl
        exact absurd (hwired.timer timer htimer) (by omega)
      · cases (hmay (Option.isSome_iff_exists.2 ⟨timer, htimer⟩)).1
    | false =>
      refine ⟨fun hnext htimer => ⟨rfl, ?_⟩, fun hmay timer htimer => ⟨(h timer htimer).1, ?_⟩⟩
      · obtain ⟨timer, htimer⟩ := Option.isSome_iff_exists.1 htimer
        refine Option.not_isSome_iff_eq_none.1 fun hconn => ?_
        cases (hnext timer htimer).2 hconn
      · intro hconn
        rw [show s.conn = none from (hmay (Option.isSome_iff_exists.2 ⟨timer, htimer⟩)).2] at hconn
        cases hconn
  | echoTestReady channelId udpToken voiceKey =>
    unfold handleServerMessage KeepsTimer
    simp only [hip]
    unfold startVoice
    cases hstart : a.startVoice with
    | true =>
      refine ⟨fun hnext _ hconn => (hnext _ rfl).2 hconn, fun hmay => ?_⟩
      rintro _ ⟨⟩
      refine ⟨?_, hmay rfl⟩
      rintro _ ⟨⟩
      rfl
    | false => exact ⟨fun _ hsome => absurd hsome Bool.false_ne_true, fun _ => h⟩
  | leftChannel => exact iff_true_intro (h.mono rfl (.inl rfl) (.inl rfl))
  | nameChanged oldName newName =>
    unfold handleServerMessage
    simp only
    split <;> exact htrue
  | peerJoined peerName => exact htrue
  | peerLeft peerName => exact htrue
  | welcome version protocol => exact htrue
  | chatMessage sender text => exact htrue
  | directMessage fromPubkey fromName text => exact htrue
  | channelList channels => exact htrue
  | error message => exact htrue
  | pong => exact htrue

/-- The timer that has expired is gone. -/
theorem timerOwn_checkEcho (h : s.TimerOwn) : (s.checkEcho a).1.TimerOwn := by
  unfold checkEcho
  split
  · exact h
  · split
    · exact TimerOwn.send (timerOwn_of_none rfl) .stopEchoTest
    · exact h

/-- A connection only comes back where there is no channel. -/
theorem timerOwn_autoReconnect (hwired : s.Wired) (h : s.TimerOwn) :
    (s.autoReconnect a).1.TimerOwn := by
  unfold autoReconnect
  cases hnext : s.nextReconnect with
  | none => exact h
  | some deadline =>
    obtain ⟨-, hchannel, -⟩ := hwired.pending (by rw [hnext]; rfl)
    simp only
    split
    · cases a.connect with
      | some c => exact h.mono rfl (.inr rfl) (.inl hchannel)
      | none => exact h
    · exact h

/-- **One part of the loop leaves the timer right exactly when it meets the condition.** -/
theorem timerOwn_step (hwired : s.Wired) (h : s.TimerOwn) {e : SessionEvent × Answers}
    {s' : Session} (hs : s.step e = some s') : s'.TimerOwn ↔ s.KeepsTimer e := by
  unfold Session.step at hs
  split at hs
  · rename_i henabled
    cases hs
    obtain ⟨e, a⟩ := e
    cases e with
    | checkEcho => exact iff_true_intro (timerOwn_checkEcho h)
    | command command => exact timerOwn_command hwired h command
    | message msg => exact timerOwn_message hwired h (of_decide_eq_true henabled) msg
    | lostConnection => exact iff_true_intro (timerOwn_of_none rfl)
    | autoReconnect => exact iff_true_intro (timerOwn_autoReconnect hwired h)
  · cases hs

/-- **What a sound check's timer ends.**  Over any run of the loop: whenever the timer expires,
it ends its own call or none, and stops a sound check only outside of channels, exactly when
every part of the loop meets its condition. -/
theorem timerRight_iff (serverAddr : String) (name inputDevice outputDevice : Option String)
    (connect : Option ServerConnection) (es : List (SessionEvent × Answers)) :
    Throughout Session.step TimerRight
        (start serverAddr name inputDevice outputDevice connect) es ↔
      EachStep Session.step KeepsTimer
        (start serverAddr name inputDevice outputDevice connect) es := by
  refine throughout_iff_eachStep Wired ?_ ?_ (wired_start _ _ _ _ _)
    (timerRight_iff_own.2 (timerOwn_of_none rfl)) (eachStep_true _ es)
  · intro s e s' h _ hs
    exact h.step hs
  · intro s e s' hwired h _ hs
    rw [timerRight_iff_own]
    exact timerOwn_step hwired (timerRight_iff_own.1 h) hs

/-- A sound check is left with `/leave`, and a room is joined before its time is up. -/
def joinAfterCheck : List (SessionEvent × Answers) :=
  [(.message (.echoTestReady "echo-1" 7 (List.replicate Config.voiceKeyLen 0)), favourable 0),
    (.command .leave, favourable 1000),
    (.message (.joinedChannel "room" ["user"] 8 (List.replicate Config.voiceKeyLen 0)),
      favourable 2000)]

/-- **The timer of the sound check ends the call in the room**, and the server is told to stop
a sound check there. -/
theorem timer_ends_call : ¬ Throughout Session.step TimerRight sampleStart joinAfterCheck ∧
    ∃ s h, runFrom Session.step sampleStart joinAfterCheck = some s ∧
      s.voiceHandle = some h ∧ h.params.channelId = "room" ∧ h.echoTest = false ∧
      (s.checkEcho (favourable 5000)).1.voiceHandle = none ∧
      (s.checkEcho (favourable 5000)).2 = [.stopEchoTest] ∧
      (s.checkEcho (favourable 5000)).1.channel = some "room" := by
  refine ⟨fun hright => ?_, _, _, rfl, rfl, rfl, rfl, rfl, rfl, rfl⟩
  have hroom := throughout_iff.1 hright 3 _ rfl _ rfl (favourable 5000) (by decide)
  exact absurd (hroom.1 _ rfl) (by decide)

end Session

end Client
end TcVoice
