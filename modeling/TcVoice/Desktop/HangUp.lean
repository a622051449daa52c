import TcVoice.Desktop.Commands
import TcVoice.Desktop.Devices
import TcVoice.Lib.BoundedQueue
import TcVoice.Lib.Runs

/-!
# Hanging up

The commands that end a session, the drain tasks that start a call, and the voice actor behind
its queue: `connect` and `disconnect` of `commands.rs`, `spawn_voice` and the loop of `drain.rs`,
and `VoiceManager` of `voice_actor.rs`, step by step and in any order.

* `Line`, `Line.step` — the shared state, the commands and drain tasks with what is left of
  them, the queue and the actor.  A task that is aborted goes on until it next has to wait.
* `Line.Final` — after a hang-up, and until a connection made after it joins a channel, the
  queue leaves no call, however the actor gets on with it.
* `Line.Timely` — the condition on one step: no `Start` is sent after such a hang-up.
* `Line.final_iff` — **hanging up is final throughout a run exactly when each `Start` is a
  timely one**; `Line.call_after_hang_up` is one that is not.
-/

namespace TcVoice
namespace Desktop

open Runs

/-! ## Tasks -/

/-- The capacity of the actor's queue. -/
def voiceQueueCapacity : ℕ := 16

/-- What a drain task does next: wait for a message; take the join that it has stored; send the
`Start` that it has made, or wait for room to; wait for the answer; stop the call of a connection
that is lost; connect again; store the connection, since the server has answered; or nothing, since
it was cancelled. -/
inductive DrainPhase where
  | idle
  | joined
  | ready (p : StartParams)
  | sending (p : StartParams)
  | waiting
  | stopping
  | reconnecting
  | answered (conn : Client.ServerConnection)
  | gone
  deriving DecidableEq, Repr

/-- A drain task, with the number of the connection that it drains. -/
structure Drain where
  connection : ℕ
  phase : DrainPhase
  aborted : Bool
  deriving DecidableEq, Repr

/-- What a command does next: stop the call of the session that it has cleared, when `seen`
connections had been made, and dial if it is a `connect`; wait for the connection; spawn the drain
task; keep its handle; or nothing. -/
inductive Caller where
  | stopping (seen : ℕ) (dials : Option String)
  | dialling (addr : String)
  | adopted (connection : ℕ)
  | spawned (task : ℕ)
  | returned
  deriving DecidableEq, Repr

/-- The shared state, the commands and the drain tasks by number, the queue of the actor, each
command with the drain task that waits for its answer, and the actor.  `connections` have been
made so far, those below `joined` up to the last one that has joined a channel, and those below
`hungUp` were made before a hang-up that has stopped the call. -/
structure Line where
  core : AppCore
  callers : List Caller
  drains : List Drain
  queue : BoundedQueue (Cmd × Option ℕ) voiceQueueCapacity
  actor : Actor
  connections : ℕ
  joined : ℕ
  hungUp : ℕ

/-- A step of a command, of a drain task or of the actor.  `other` is a command to the actor from
elsewhere in the application. -/
inductive LineEvent where
  | disconnect
  | connect (addr : String)
  | callerStop (i : ℕ)
  | dialled (i : ℕ) (conn : Client.ServerConnection) (now : ℕ)
  | dialFailed (i : ℕ)
  | spawn (i : ℕ)
  | keep (i : ℕ)
  | join (k : ℕ) (channelId : ChannelId) (participants : List String) (udpToken : UInt64)
      (voiceKey : Bytes)
  | takeJoin (k : ℕ)
  | start (k : ℕ)
  | resume (k : ℕ)
  | cancel (k : ℕ)
  | lost (k : ℕ)
  | lostStop (k : ℕ)
  | dialledAgain (k : ℕ) (conn : Client.ServerConnection)
  | reconnected (k : ℕ)
  | other (cmd : Cmd)
  | recv (a : Answers)
  | finish (a : Answers)
  | streamFailed (kind : Kind)

/-- A `Start`. -/
def Cmd.isStart : Cmd → Bool
  | .start _ => true
  | _ => false

namespace Line

variable (l : Line)

/-- The application has been started. -/
def init (saved : Client.UserSettings) (macos : Bool) : Line where
  core := .new saved macos
  callers := []
  drains := []
  queue := .empty
  actor := .init
  connections := 0
  joined := 0
  hungUp := 0

/-- A drain task goes on. -/
def goOn (k : ℕ) (phase : DrainPhase) : Line :=
  { l with drains := l.drains.modify k fun d => { d with phase } }

/-- A command goes on. -/
def goOnCaller (i : ℕ) (caller : Caller) : Line := { l with callers := l.callers.set i caller }

/-- The drain task whose handle is kept is aborted. -/
def abort : List Drain :=
  match l.core.drainHandle with
  | some k => l.drains.modify k fun d => { d with aborted := true }
  | none => l.drains

/-- The parameters that `spawn_voice` builds from a join that was stored. -/
def startParams (c : AppCore) (p : PendingJoin) (conn : Client.ServerConnection) : StartParams where
  serverIp := conn.peerAddr.ip
  channelId := p.channelId
  udpToken := p.udpToken
  voiceKey := p.voiceKey
  inputDevice := c.inputDevice
  outputDevice := c.outputDevice
  senderName := c.name.getD "anon"
  echoTest := false

/-- `spawn_voice`, under the lock. -/
def takeJoin (k : ℕ) : Line :=
  match l.core.pendingJoin with
  | none => l.goOn k .idle
  | some p =>
    let c := { l.core with pendingJoin := none }
    match c.conn with
    | none => { l with core := c }.goOn k .idle
    | some conn => { l with core := c }.goOn k (.ready (startParams c p conn))

/-- `VoiceManager::start`: without room the task has to wait, and does not if it was aborted. -/
def start (k : ℕ) (d : Drain) (p : StartParams) : Line :=
  match l.queue.trySend (.start p, some k) with
  | some queue => { l with queue }.goOn k .waiting
  | none => l.goOn k (if d.aborted then .gone else .sending p)

/-- The actor has answered a drain task that waits for it. -/
def answered (task : Option ℕ) : List Drain :=
  match task with
  | some k => l.drains.modify k fun d => if d.phase = .waiting then { d with phase := .idle } else d
  | none => l.drains

/-- One step, if it can happen. -/
def step (l : Line) : LineEvent → Option Line
  | .disconnect =>
    some { l with
      core := l.core.clearSession, drains := l.abort
      callers := l.callers ++ [.stopping l.connections none] }
  | .connect addr =>
    some { l with
      core := l.core.connectTearDown addr, drains := l.abort
      callers := l.callers ++ [.stopping l.connections (some addr)] }
  | .callerStop i =>
    match l.callers[i]? with
    | some (.stopping seen dials) =>
      (l.queue.trySend (.stop, none)).map fun queue =>
        { l with queue, hungUp := max l.hungUp seen }.goOnCaller i
          (match dials with
          | some addr => .dialling addr
          | none => .returned)
    | _ => none
  | .dialled i conn now =>
    match l.callers[i]? with
    | some (.dialling addr) =>
      some ({ l with
        core := l.core.connected conn addr now, connections := l.connections + 1 }.goOnCaller i
          (.adopted l.connections))
    | _ => none
  | .dialFailed i =>
    match l.callers[i]? with
    | some (.dialling _) =>
      some ({ l with core := { l.core with conn := none } }.goOnCaller i .returned)
    | _ => none
  | .spawn i =>
    match l.callers[i]? with
    | some (.adopted connection) =>
      some ({ l with drains := l.drains ++ [Drain.mk connection .idle false] }.goOnCaller i
        (.spawned l.drains.length))
    | _ => none
  | .keep i =>
    match l.callers[i]? with
    | some (.spawned task) =>
      some ({ l with core := { l.core with drainHandle := some task } }.goOnCaller i .returned)
    | _ => none
  | .join k channelId participants udpToken voiceKey =>
    match l.drains[k]? with
    | some ⟨connection, .idle, _⟩ =>
      some ({ l with
        core := l.core.handle 0 (.joinedChannel channelId participants udpToken voiceKey)
        joined := max l.joined (connection + 1) }.goOn k .joined)
    | _ => none
  | .takeJoin k =>
    match l.drains[k]? with
    | some ⟨_, .joined, _⟩ => some (l.takeJoin k)
    | _ => none
  | .start k =>
    match l.drains[k]? with
    | some d =>
      match d.phase with
      | .ready p => some (l.start k d p)
      | _ => none
    | none => none
  | .resume k =>
    match l.drains[k]? with
    | some ⟨_, .sending p, false⟩ =>
      (l.queue.trySend (.start p, some k)).map fun queue => { l with queue }.goOn k .waiting
    | _ => none
  | .cancel k =>
    match l.drains[k]? with
    | some ⟨_, .ready _, _⟩ => none
    | some ⟨_, _, true⟩ => some (l.goOn k .gone)
    | _ => none
  | .lost k =>
    match l.drains[k]? with
    | some ⟨_, .idle, _⟩ => some ({ l with core := l.core.tearDownSession }.goOn k .stopping)
    | _ => none
  | .lostStop k =>
    match l.drains[k]? with
    | some ⟨_, .stopping, _⟩ =>
      (l.queue.trySend (.stop, none)).map fun queue => { l with queue }.goOn k .reconnecting
    | _ => none
  | .dialledAgain k conn =>
    match l.drains[k]? with
    | some ⟨_, .reconnecting, false⟩ => some (l.goOn k (.answered conn))
    | _ => none
  | .reconnected k =>
    match l.drains[k]? with
    -- A task that is aborted here goes on if the lock is free.
    | some ⟨_, .answered conn, _⟩ =>
      some { l with
        core := { l.core with conn := some conn }, connections := l.connections + 1
        drains := l.drains.modify k fun d =>
          { d with connection := l.connections, phase := .idle } }
    | _ => none
  | .other cmd =>
    if cmd.isStart then none
    else (l.queue.trySend (cmd, none)).map fun queue => { l with queue }
  | .recv a =>
    if l.actor.ticking then none
    else
      l.queue.tryRecv.map fun r =>
        { l with queue := r.2, actor := (l.actor.recv a r.1.1).1, drains := l.answered r.1.2 }
  | .finish a =>
    if l.actor.ticking then some { l with actor := (l.actor.finish a).1 } else none
  | .streamFailed kind => some { l with actor := l.actor.streamFailed kind }

/-- The steps with which the actor gets on with its queue. -/
def OfActor : LineEvent → Prop
  | .recv _ | .finish _ => True
  | _ => False

/-- After a hang-up that has stopped the call, and as long as no connection made after it has
joined a channel, the actor has no call once it has processed its queue. -/
def Final (l : Line) : Prop :=
  l.joined ≤ l.hungUp → ∀ es l', (∀ e ∈ es, OfActor e) → runFrom step l es = some l' →
    l'.queue.items = [] → l'.actor.handle = none

/-- The condition on a step: a `Start` goes into the queue only while every hang-up that has
stopped the call came before a connection that has joined a channel. -/
def Timely (l : Line) : LineEvent → Prop
  | .start _ => l.queue.HasRoom → l.hungUp < l.joined
  | .resume _ => l.hungUp < l.joined
  | _ => True

/-! ## What the actor is left with -/

/-- Whether there is a call to hold, or to start again, after a command. -/
def arms (armed : Bool) : Cmd → Bool
  | .start _ => true
  | .stop => false
  | _ => armed

/-- Whether there will be one once the queue has been processed. -/
def Armed (l : Line) : Bool :=
  l.queue.items.foldl (fun armed item => arms armed item.1) l.actor.lastParams.isSome

/-- A call is only held with parameters to start it again from. -/
def Sound (act : Actor) : Prop := act.handle.isSome = true → act.lastParams.isSome = true

/-- What holds between hang-ups, joins, the queue and the actor. -/
structure Inv (l : Line) : Prop where
  sound : Sound l.actor
  hung : l.joined ≤ l.hungUp → l.Armed = false

theorem inv_init (saved : Client.UserSettings) (macos : Bool) : (init saved macos).Inv where
  sound := by rintro ⟨⟩
  hung _ := rfl

section Actor

variable {act : Actor} {a : Answers}

theorem restart_lastParams : (act.restart a).lastParams = act.lastParams := by
  unfold Actor.restart
  split
  · split <;> rfl
  · rfl

/-- What a command leaves to start again from. -/
theorem recv_lastParams (cmd : Cmd) :
    (act.recv a cmd).1.lastParams.isSome = arms act.lastParams.isSome cmd := by
  cases cmd with
  | start p =>
    show (act.start a p).1.lastParams.isSome = true
    unfold Actor.start
    simp only
    split <;> rfl
  | echoStart p =>
    show (act.echoStart a p).1.lastParams.isSome = _
    unfold Actor.echoStart
    split <;> rfl
  | snapshot => exact congrArg Option.isSome restart_lastParams
  | stop => rfl
  | setInputDevice name => rfl
  | setOutputDevice name => rfl
  | echoStop => rfl

theorem sound_recv (h : Sound act) (cmd : Cmd) : Sound (act.recv a cmd).1 := by
  intro hhandle
  rw [recv_lastParams]
  cases cmd with
  | start p => rfl
  | stop => cases hhandle
  | snapshot =>
    cases hparams : act.lastParams with
    | some p => rfl
    | none =>
      have hsame : (act.restart a).handle = act.handle := by
        unfold Actor.restart
        rw [hparams]
      have hsome : (act.restart a).handle.isSome = true := hhandle
      rw [hsame] at hsome
      exact (congrArg Option.isSome hparams).symm.trans (h hsome)
  | setInputDevice name => exact h (by rwa [← Option.isSome_map])
  | setOutputDevice name => exact h (by rwa [← Option.isSome_map])
  | echoStart p =>
    refine h (Eq.trans ?_ hhandle)
    show _ = (act.echoStart a p).1.handle.isSome
    unfold Actor.echoStart
    split <;> rfl
  | echoStop => exact h hhandle

theorem sound_finish (h : Sound act) : Sound (act.finish a).1 := fun hhandle =>
  h ((moves_tick (a := a) (act.sup, act.handle)).kept.symm.trans hhandle)

theorem sound_streamFailed (h : Sound act) (kind : Kind) : Sound (act.streamFailed kind) :=
  fun hhandle => h (by rwa [← Option.isSome_map])

end Actor

section Step

variable {l} {l' : Line} {e : LineEvent}

/-- What is sent stands behind the rest of the queue. -/
theorem armed_append {item : Cmd × Option ℕ} (hitems : l'.queue.items = l.queue.items ++ [item])
    (hactor : l'.actor = l.actor) : l'.Armed = arms l.Armed item.1 := by
  rw [Armed, hitems, hactor, List.foldl_append]
  rfl

/-- The actor does not change what its queue leaves. -/
theorem ofActor_step (he : OfActor e) (hs : step l e = some l') (h : Sound l.actor) :
    l'.Armed = l.Armed ∧ Sound l'.actor ∧ l'.joined = l.joined ∧ l'.hungUp = l.hungUp := by
  cases e with
  | recv a =>
    simp only [step] at hs
    split at hs
    · cases hs
    · obtain ⟨⟨⟨cmd, task⟩, queue⟩, htake, rfl⟩ := Option.map_eq_some_iff.1 hs
      refine ⟨?_, sound_recv h cmd, rfl, rfl⟩
      rw [Armed, Armed, BoundedQueue.tryRecv_eq_some.1 htake, List.foldl_cons, recv_lastParams]
  | finish a =>
    simp only [step] at hs
    split at hs
    · cases hs
      exact ⟨rfl, sound_finish h, rfl, rfl⟩
    · cases hs
  | _ => exact he.elim

/-- With nothing left to start, the actor has no call in the end: by induction on its steps. -/
theorem handle_of_not_armed {es : List LineEvent} (hes : ∀ e ∈ es, OfActor e)
    (hrun : runFrom step l es = some l') (hsound : Sound l.actor) (harmed : l.Armed = false)
    (hempty : l'.queue.items = []) : l'.actor.handle = none := by
  induction es generalizing l with
  | nil =>
    cases hrun
    rw [Armed, hempty] at harmed
    refine Option.not_isSome_iff_eq_none.1 fun hhandle => ?_
    rw [List.foldl_nil, hsound hhandle] at harmed
    cases harmed
  | cons e es ih =>
    rw [runFrom_cons] at hrun
    obtain ⟨next, hs, hrest⟩ := Option.bind_eq_some_iff.1 hrun
    obtain ⟨hsame, hsound', -, -⟩ := ofActor_step (hes e List.mem_cons_self) hs hsound
    exact ih (fun e' he' => hes e' (List.mem_cons_of_mem _ he')) hrest hsound' (hsame.trans harmed)

theorem final_of_inv (h : l.Inv) : l.Final := fun hle _ _ hes hrun hempty =>
  handle_of_not_armed hes hrun h.sound (h.hung hle) hempty

/-! ## A `Start` behind a hang-up -/

/-- A start of the pipeline that goes well. -/
def goesWell : Answers where
  now := 0
  start := .ok ()
  openDevice _ _ := .error "no device"
  defaultName _ := none
  listDevices _ := .ok []
  registered := true
  bytesReceived := 0

/-- The actor finishes its snapshot, if it is at one. -/
theorem exists_settled (l : Line) : ∃ es l', (∀ e ∈ es, OfActor e) ∧
    runFrom step l es = some l' ∧ l'.queue = l.queue ∧ l'.actor.ticking = false := by
  cases hticking : l.actor.ticking with
  | false => exact ⟨[], l, by simp, rfl, rfl, hticking⟩
  | true =>
    refine ⟨[.finish goesWell], { l with actor := (l.actor.finish goesWell).1 }, ?_, ?_, rfl, rfl⟩
    · intro e he
      rw [List.mem_singleton.1 he]
      trivial
    · simp only [runFrom_cons, step, hticking, if_true, Option.bind_some]
      rfl

/-- The actor comes to the last command of its queue, by induction on those before it. -/
theorem exists_last {items : List (Cmd × Option ℕ)} {item : Cmd × Option ℕ}
    (hitems : l.queue.items = items ++ [item]) : ∃ es l', (∀ e ∈ es, OfActor e) ∧
      runFrom step l es = some l' ∧ l'.queue.items = [item] ∧ l'.actor.ticking = false := by
  induction items generalizing l with
  | nil =>
    obtain ⟨es, l', hes, hrun, hqueue, hticking⟩ := exists_settled l
    exact ⟨es, l', hes, hrun, by rw [hqueue, hitems]; rfl, hticking⟩
  | cons first items ih =>
    obtain ⟨es, l', hes, hrun, hqueue, hticking⟩ := exists_settled l
    have hcons : l'.queue.items = first :: (items ++ [item]) := by
      rw [hqueue, hitems]
      rfl
    obtain ⟨queue, htake, hrest⟩ := BoundedQueue.exists_tryRecv hcons
    have hs : step l' (.recv goesWell) = some { l' with
        queue, actor := (l'.actor.recv goesWell first.1).1, drains := l'.answered first.2 } := by
      simp only [step, hticking, htake, Option.map_some, Bool.false_eq_true, if_false]
    obtain ⟨es', l'', hes', hrun', hlast, hticking'⟩ := ih (l := { l' with
        queue, actor := (l'.actor.recv goesWell first.1).1, drains := l'.answered first.2 }) hrest
    refine ⟨es ++ .recv goesWell :: es', l'', ?_, ?_, hlast, hticking'⟩
    · intro e he
      rcases List.mem_append.1 he with he | he
      · exact hes e he
      · rcases List.mem_cons.1 he with rfl | he
        · trivial
        · exact hes' e he
    · rw [runFrom_append, hrun, Option.bind_some, runFrom_cons, hs]
      exact hrun'

/-- A `Start` at the end of the queue may leave a call. -/
theorem not_final_of_start {items : List (Cmd × Option ℕ)} {p : StartParams} {task : Option ℕ}
    (hitems : l.queue.items = items ++ [(.start p, task)]) (hle : l.joined ≤ l.hungUp) :
    ¬ l.Final := by
  intro hfinal
  obtain ⟨es, l', hes, hrun, hlast, hticking⟩ := exists_last hitems
  obtain ⟨queue, htake, hempty⟩ := BoundedQueue.exists_tryRecv hlast
  obtain ⟨last, hs, hqueue, hhandle⟩ : ∃ last, step l' (.recv goesWell) = some last ∧
      last.queue.items = [] ∧ last.actor.handle ≠ none := by
    refine ⟨{ l' with
      queue, actor := (l'.actor.recv goesWell (.start p)).1, drains := l'.answered task }, ?_,
      hempty, by rintro ⟨⟩⟩
    simp only [step, hticking, htake, Option.map_some, Bool.false_eq_true, if_false]
  refine hhandle (hfinal hle (es ++ [.recv goesWell]) last ?_ ?_ hqueue)
  · intro e he
    rcases List.mem_append.1 he with he | he
    · exact hes e he
    · rw [List.mem_singleton.1 he]
      trivial
  · rw [runFrom_append, hrun, Option.bind_some, runFrom_cons, hs]
    rfl

/-! ## One step -/

/-- Nothing is sent, and the actor does nothing. -/
theorem Inv.quiet (h : l.Inv) (hqueue : l'.queue = l.queue) (hactor : l'.actor = l.actor)
    (hjoined : l.joined ≤ l'.joined) (hhungUp : l'.hungUp = l.hungUp) : l'.Inv where
  sound := by rw [hactor]; exact h.sound
  hung hle := by
    rw [Armed, hqueue, hactor]
    exact h.hung (hjoined.trans (hhungUp ▸ hle))

/-- The call is stopped. -/
theorem Inv.stopped (h : l.Inv) {task : Option ℕ}
    (hitems : l'.queue.items = l.queue.items ++ [(.stop, task)]) (hactor : l'.actor = l.actor) :
    l'.Inv where
  sound := by rw [hactor]; exact h.sound
  hung _ := armed_append hitems hactor

/-- Something else is sent than a `Start`. -/
theorem Inv.sent (h : l.Inv) {cmd : Cmd} {task : Option ℕ} (hcmd : cmd.isStart = false)
    (hitems : l'.queue.items = l.queue.items ++ [(cmd, task)]) (hactor : l'.actor = l.actor)
    (hjoined : l'.joined = l.joined) (hhungUp : l'.hungUp = l.hungUp) : l'.Inv where
  sound := by rw [hactor]; exact h.sound
  hung hle := by
    rw [hjoined, hhungUp] at hle
    rw [armed_append hitems hactor, h.hung hle]
    cases cmd with
    | start p => cases hcmd
    | _ => rfl

/-- A `Start` is sent in time, or the hang-up is not final any more. -/
theorem Inv.started (h : l.Inv) {p : StartParams} {task : Option ℕ}
    (hitems : l'.queue.items = l.queue.items ++ [(.start p, task)]) (hactor : l'.actor = l.actor)
    (hjoined : l'.joined = l.joined) (hhungUp : l'.hungUp = l.hungUp) :
    (l.hungUp < l.joined → l'.Inv) ∧ (¬ l.hungUp < l.joined → ¬ l'.Final) := by
  constructor
  · intro hlt
    refine ⟨by rw [hactor]; exact h.sound, fun hle => ?_⟩
    rw [hjoined, hhungUp] at hle
    exact absurd hle (not_le.2 hlt)
  · intro hlt
    refine not_final_of_start hitems ?_
    rw [hjoined, hhungUp]
    exact not_lt.1 hlt

theorem Inv.takeJoin (h : l.Inv) (k : ℕ) : (l.takeJoin k).Inv := by
  unfold Line.takeJoin
  split
  · exact h.quiet rfl rfl le_rfl rfl
  · simp only
    split <;> exact h.quiet rfl rfl le_rfl rfl

/-- The steps of the commands. -/
theorem Inv.caller (h : l.Inv) {i : ℕ} (hs : step l (.callerStop i) = some l') : l'.Inv := by
  simp only [step] at hs
  split at hs
  · obtain ⟨queue, hsend, rfl⟩ := Option.map_eq_some_iff.1 hs
    exact h.stopped (BoundedQueue.trySend_eq_some.1 hsend).2 rfl
  · cases hs

/-- A drain task that sends its `Start`, or waits for room. -/
theorem Inv.start (h : l.Inv) {k : ℕ} (hs : step l (.start k) = some l') :
    (l.Timely (.start k) → l'.Inv) ∧ (¬ l.Timely (.start k) → ¬ l'.Final) := by
  simp only [step] at hs
  split at hs
  · rename_i d _
    split at hs
    · rename_i p _
      cases hs
      unfold Line.start Timely
      cases hsend : l.queue.trySend (.start p, some k) with
      | none =>
        have hfull := BoundedQueue.trySend_eq_none.1 hsend
        exact ⟨fun _ => h.quiet rfl rfl le_rfl rfl,
          fun hlate => absurd (fun hroom => absurd hroom hfull) hlate⟩
      | some queue =>
        obtain ⟨hroom, hitems⟩ := BoundedQueue.trySend_eq_some.1 hsend
        have hstarted : (l.hungUp < l.joined → ({ l with queue }.goOn k .waiting).Inv) ∧
            (¬ l.hungUp < l.joined → ¬ ({ l with queue }.goOn k .waiting).Final) :=
          h.started hitems rfl rfl rfl
        exact ⟨fun htimely => hstarted.1 (htimely hroom),
          fun hno => hstarted.2 fun hlt => hno fun _ => hlt⟩
    · cases hs
  · cases hs

theorem Inv.resume (h : l.Inv) {k : ℕ} (hs : step l (.resume k) = some l') :
    (l.Timely (.resume k) → l'.Inv) ∧ (¬ l.Timely (.resume k) → ¬ l'.Final) := by
  simp only [step] at hs
  split at hs
  · obtain ⟨queue, hsend, rfl⟩ := Option.map_eq_some_iff.1 hs
    exact h.started (BoundedQueue.trySend_eq_some.1 hsend).2 rfl rfl rfl
  · cases hs

/-- A step of the actor. -/
theorem Inv.ofActor (h : l.Inv) (he : OfActor e) (hs : step l e = some l') : l'.Inv := by
  obtain ⟨harmed, hsound, hjoined, hhungUp⟩ := ofActor_step he hs h.sound
  refine ⟨hsound, fun hle => harmed.trans (h.hung ?_)⟩
  rwa [hjoined, hhungUp] at hle

/-- **One step leaves the hang-ups final exactly when it is a timely one.** -/
theorem Inv.step (h : l.Inv) (hs : step l e = some l') :
    (l.Timely e → l'.Inv) ∧ (¬ l.Timely e → ¬ l'.Final) := by
  -- a step that sends no `Start` is timely
  have htimely : l'.Inv → l.Timely e = True → (l.Timely e → l'.Inv) ∧ (¬ l.Timely e → ¬ l'.Final) :=
    fun hinv htrue => ⟨fun _ => hinv, fun hno => absurd (htrue ▸ trivial) hno⟩
  cases e with
  | start k => exact h.start hs
  | resume k => exact h.resume hs
  | callerStop i => exact htimely (h.caller hs) rfl
  | disconnect | connect _ =>
    cases hs
    exact htimely (h.quiet rfl rfl le_rfl rfl) rfl
  | dialled _ _ _ | dialFailed _ | spawn _ | keep _ | lost _ | dialledAgain _ _ | reconnected _ =>
    simp only [Line.step] at hs
    split at hs
    · cases hs
      exact htimely (h.quiet rfl rfl le_rfl rfl) rfl
    · cases hs
  | join k channelId participants udpToken voiceKey =>
    simp only [Line.step] at hs
    split at hs
    · cases hs
      exact htimely (h.quiet rfl rfl (le_max_left _ _) rfl) rfl
    · cases hs
  | takeJoin k =>
    simp only [Line.step] at hs
    split at hs
    · cases hs
      exact htimely (h.takeJoin k) rfl
    · cases hs
  | cancel k =>
    simp only [Line.step] at hs
    split at hs
    · cases hs
    · cases hs
      exact htimely (h.quiet rfl rfl le_rfl rfl) rfl
    · cases hs
  | lostStop k =>
    simp only [Line.step] at hs
    split at hs
    · obtain ⟨queue, hsend, rfl⟩ := Option.map_eq_some_iff.1 hs
      exact htimely (h.stopped (BoundedQueue.trySend_eq_some.1 hsend).2 rfl) rfl
    · cases hs
  | other cmd =>
    simp only [Line.step] at hs
    split at hs
    · cases hs
    · rename_i hcmd
      obtain ⟨queue, hsend, rfl⟩ := Option.map_eq_some_iff.1 hs
      exact htimely (h.sent (Bool.eq_false_iff.2 hcmd) (BoundedQueue.trySend_eq_some.1 hsend).2
        rfl rfl rfl) rfl
  | recv a => exact htimely (h.ofActor (show OfActor (.recv a) from trivial) hs) rfl
  | finish a => exact htimely (h.ofActor (show OfActor (.finish a) from trivial) hs) rfl
  | streamFailed kind =>
    cases hs
    exact htimely ⟨sound_streamFailed h.sound kind, h.hung⟩ rfl

end Step

/-- **Hanging up is final** as long as each `Start` is sent in time.  For every order of the steps
of the commands, the drain tasks and the actor: after any `disconnect`, and any `connect` that has
ended a session, and until a connection made after it joins a channel, the actor has no call once
it has processed its queue, however the pipeline starts and restarts, exactly when no drain task
sends a `Start` after such a hang-up has stopped the call. -/
theorem final_iff (saved : Client.UserSettings) (macos : Bool) (es : List LineEvent) :
    Throughout step Final (init saved macos) es ↔ EachStep step Timely (init saved macos) es := by
  have hinv := inv_init saved macos
  refine throughout_iff_eachStep_while Inv ?_ ?_ hinv (final_of_inv hinv) (eachStep_true _ es)
  · intro l e l' h _ _ hs hfinal
    obtain ⟨hok, hlate⟩ := h.step hs
    exact hok (by_contra fun hno => hlate hno hfinal)
  · intro l e l' h _ _ hs
    obtain ⟨hok, hlate⟩ := h.step hs
    exact ⟨fun hfinal => by_contra fun hno => hlate hno hfinal,
      fun htimely => final_of_inv (hok htimely)⟩

/-! ## A call after the hang-up -/

/-- A server. -/
def server : Client.ServerConnection := ⟨.v4 0x0a000001 7100⟩

/-- The user connects, a room is joined, and the drain task has made its `Start` when the user
disconnects; the `Stop` goes into the queue first. -/
def startAfterStop : List LineEvent :=
  [.connect "10.0.0.1:7100", .callerStop 0, .recv goesWell, .dialled 0 server 0, .spawn 0, .keep 0,
    .join 0 "room" ["user"] 7 (List.replicate Config.voiceKeyLen 0), .takeJoin 0, .disconnect,
    .callerStop 1, .start 0]

/-- **A call after the hang-up**: the session is cleared, both commands have returned, the queue
is empty, and there is a call. -/
theorem call_after_hang_up : ¬ Throughout step Final (init .default false) startAfterStop ∧
    ∃ l h, runFrom step (init .default false)
        (startAfterStop ++ [.recv goesWell, .recv goesWell]) = some l ∧
      l.queue.items = [] ∧ l.actor.handle = some h ∧ h.params.channelId = "room" ∧
      l.core.conn = none ∧ l.core.channel = none ∧ l.callers = [.returned, .returned] := by
  refine ⟨fun hfinal => ?_, _, _, rfl, rfl, rfl, rfl, rfl, rfl, rfl⟩
  have hnone := throughout_iff.1 hfinal startAfterStop.length _ rfl (by decide)
    [.recv goesWell, .recv goesWell] _ ?_ rfl rfl
  · cases hnone
  · intro e he
    simp only [List.mem_cons, List.not_mem_nil, or_false] at he
    rcases he with rfl | rfl <;> trivial

end Line
end Desktop
end TcVoice
