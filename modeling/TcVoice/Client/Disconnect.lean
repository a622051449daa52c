import TcVoice.Client.LiveVoice
import TcVoice.Lib.BoundedQueue
import TcVoice.Shared.Reading

/-!
# How a lost connection is noticed

`reader_task` of `crates/client/src/network.rs`, the queue behind it, and the drain loop of
the terminal client: the reader ends with a marker in the queue, if there is room for it.

* `Link`, `Link.step` — the reader, the queue and the session, in any order of their steps.
* `Link.Noticed` — once the reader has returned and the queue has been emptied, the session
  is disconnected and a reconnect is pending.
* `Link.Room` — the condition on one step: the reader finds room for what it sends.
* `Link.hands_on` — then the queue gets the messages of the frames that the reader receives.
* `noticed_iff` — **a lost connection is noticed after any run exactly when the reader
  always finds room**; `lost_connection` is a burst that fills the queue before the end.
-/

namespace TcVoice
namespace Client

open Runs

/-- `MSG_QUEUE_CAPACITY`. -/
def msgQueueCapacity : ℕ := 256

/-- One connection: the reader, with what is pending and the frames it has not handed on, until
it returns; the message queue; and the session, which drains it. -/
structure Link where
  reader : Option (Bytes × List Bytes)
  queue : BoundedQueue (Option ServerMessage) msgQueueCapacity
  session : Session
  deriving DecidableEq, Repr

/-- A step of the reader (a read, with the bytes if there are any; a frame) or of the loop (a
message from the queue; another part that keeps the connection's receiver). -/
inductive LinkEvent where
  | read (data : Option Bytes)
  | handOn
  | recv (a : Answers)
  | loop (e : SessionEvent) (a : Answers)
  deriving DecidableEq, Repr

/-- What a read makes of the pending bytes; `none` at the end of the stream, after an error, and
where the stream breaks the protocol. -/
def received (pending : Bytes) : Option Bytes → Option (List Bytes × Bytes)
  | none | some [] => none
  | some chunk => readChunk pending chunk

/-- Whether a part of the loop goes on with the receiver that there is. -/
def Session.keepsReceiver (s : Session) : SessionEvent → Bool
  | .checkEcho => true
  | .command .trust | .command .reconnect => false
  | .command (.server _) => decide (s.connState = .connected)
  | .command _ => true
  | _ => false

/-- What the drain loop makes of a message. -/
def Session.take (s : Session) (a : Answers) : Option ServerMessage → Session
  | some msg => (s.handleServerMessage a msg).1
  | none => s.lostConnection a

namespace Link

variable (deserialize : Bytes → Option ServerMessage) (l : Link)

/-- A connection that has just been adopted by a session. -/
def start (s : Session) (a : Answers) (c : ServerConnection) : Link :=
  ⟨some ([], []), .empty, (s.adopt a c).1⟩

/-- The reader returns behind the marker: `let _ = tx.try_send(None)`. -/
def disconnect : Link := { l with reader := none, queue := (l.queue.trySend none).getD l.queue }

/-- The reader after a read. -/
def read (pending : Bytes) (data : Option Bytes) : Link :=
  match received pending data with
  | none => l.disconnect
  | some (frames, pending) => { l with reader := some (pending, frames) }

/-- The reader after a frame: a message that the queue has no room for ends it. -/
def handOn (pending frame : Bytes) (frames : List Bytes) : Link :=
  match deserialize frame with
  | none => { l with reader := some (pending, frames) }
  | some msg =>
    match l.queue.trySend (some msg) with
    | some queue => { l with reader := some (pending, frames), queue }
    | none => { l with reader := none }

/-- One step, if it can happen. -/
def step (l : Link) : LinkEvent → Option Link
  | .read data =>
    match l.reader with
    | some (pending, []) => some (l.read pending data)
    | _ => none
  | .handOn =>
    match l.reader with
    | some (pending, frame :: frames) => some (l.handOn deserialize pending frame frames)
    | _ => none
  | .recv a => l.queue.tryRecv.map fun r => { l with queue := r.2, session := l.session.take a r.1 }
  | .loop e a =>
    if l.session.keepsReceiver e then some { l with session := (l.session.turn (e, a)).1 }
    else none

/-- Once the reader has returned, emptying the queue leaves the session disconnected; and if it
was not before, then with the channel and the call given up and a reconnect pending. -/
def Noticed (l : Link) : Prop :=
  l.reader = none → ∀ as : List Answers, as.length = l.queue.items.length →
    ∃ l', runFrom (step deserialize) l (as.map .recv) = some l' ∧ l'.queue.items = [] ∧
      l'.session.serverRx = .ended ∧ (l.session.serverRx = .live →
        l'.session.channel = none ∧ l'.session.voiceHandle = none ∧ l'.session.conn = none ∧
          l'.session.nextReconnect.isSome = true)

/-- The condition on a step: the reader finds room for the message or the marker. -/
def Room (l : Link) : LinkEvent → Prop
  | .read data => ∀ pending, l.reader = some (pending, []) → received pending data = none →
      l.queue.HasRoom
  | .handOn => ∀ pending frame frames, l.reader = some (pending, frame :: frames) →
      (deserialize frame).isSome = true → l.queue.HasRoom
  | _ => True

/-! ## The session behind the queue -/

section Receiver

variable {s : Session} {a : Answers}

theorem serverRx_send (msg : ClientMessage) :
    (s.sendOrDisconnect a msg).1.serverRx = s.serverRx := by
  obtain heq | ⟨-, -, heq⟩ := s.sendOrDisconnect_cases a msg <;> rw [heq]

theorem serverRx_startVoice (serverIp : IpAddr) (params : VoiceJoinParams) (echoTest : Bool) :
    ((s.startVoice a serverIp params echoTest).getD s).serverRx = s.serverRx := by
  unfold Session.startVoice
  split <;> rfl

/-- No message takes the receiver away. -/
theorem serverRx_message (msg : ServerMessage) :
    (s.handleServerMessage a msg).1.serverRx = s.serverRx := by
  unfold Session.handleServerMessage
  split
  · exact serverRx_send _
  · simp only
    split
    · rfl
    · exact serverRx_startVoice _ _ _
  · split
    · rfl
    · split
      · rename_i hs
        obtain ⟨-, rfl⟩ := Session.startVoice_eq_some hs
        rfl
      · rfl
  · rfl
  · rfl
  · rfl
  · split <;> rfl
  · rfl

theorem serverRx_restartVoice (s : Session) : (s.restartVoice a).serverRx = s.serverRx := by
  unfold Session.restartVoice
  split
  · exact serverRx_startVoice _ _ _
  · rfl

/-- What is for a connection only keeps the receiver if it does where there is one. -/
theorem serverRx_online {out : Session × List ClientMessage} (h : out.1.serverRx = s.serverRx) :
    (if s.connState ≠ .connected then (s, []) else out).1.serverRx = s.serverRx :=
  Session.online (P := fun t => t.serverRx = s.serverRx) rfl h

/-- Nor does a command that keeps it. -/
theorem serverRx_command {command : Command} (h : s.keepsReceiver (.command command) = true) :
    (s.handleCommand a command).1.serverRx = s.serverRx := by
  cases command with
  | trust => cases h
  | reconnect => cases h
  | server target =>
    cases target with
    | none => rfl
    | some target =>
      have hstate : s.connState = .connected := of_decide_eq_true h
      simp only [Session.handleCommand, Session.cmdServer, hstate, if_true]
  | config change =>
    cases change with
    | list => rfl
    | level => rfl
    | input device =>
      cases device with
      | none => rfl
      | some device => exact serverRx_restartVoice _
    | output device =>
      cases device with
      | none => rfl
      | some device => exact serverRx_restartVoice _
  | name newName =>
    cases newName with
    | none => rfl
    | some newName => exact serverRx_send (.setName newName)
  | aside => rfl
  | quit => rfl
  | create rawName =>
    refine serverRx_online ?_
    unfold Session.cmdCreate
    split
    · exact serverRx_send _
    · rfl
  | list => exact serverRx_online (serverRx_send .listChannels)
  | connect id =>
    cases id with
    | none => simp only [Session.handleCommand, ite_self]
    | some id => exact serverRx_online (serverRx_send (.joinChannel id))
  | leave => exact serverRx_online (serverRx_send .leaveChannel)
  | echotest =>
    refine serverRx_online ?_
    unfold Session.cmdEchotest
    split
    · rfl
    · exact serverRx_send .startEchoTest
  | invite => simp only [Session.handleCommand, ite_self]
  | chat text => exact serverRx_online (serverRx_send (.chatMessage text))
  | unknown => simp only [Session.handleCommand, ite_self]

/-- Nor does any part of the loop that keeps it. -/
theorem serverRx_turn {e : SessionEvent} (h : s.keepsReceiver e = true) :
    (s.turn (e, a)).1.serverRx = s.serverRx := by
  cases e with
  | checkEcho =>
    show (s.checkEcho a).1.serverRx = _
    unfold Session.checkEcho
    split
    · rfl
    · split
      · exact serverRx_send _
      · rfl
  | command command => exact serverRx_command h
  | message msg => cases h
  | lostConnection => cases h
  | autoReconnect => cases h

end Receiver

/-! ## The marker -/

/-- What holds of reader, queue and receiver: the marker stands behind everything else. -/
structure Inv (l : Link) : Prop where
  running : l.reader.isSome = true → none ∉ l.queue.items ∧ l.session.serverRx = .live
  ended : l.session.serverRx = .ended → l.reader = none ∧ l.queue.items = []
  rx : l.session.serverRx = .live ∨ l.session.serverRx = .ended
  last : none ∉ l.queue.items.dropLast

/-- The marker has been taken, or it is the last in the queue. -/
def Marked (l : Link) : Prop :=
  l.session.serverRx = .ended ∨ l.queue.items.getLast? = some none

theorem inv_start (s : Session) (a : Answers) (c : ServerConnection) : (start s a c).Inv where
  running _ := ⟨List.not_mem_nil, rfl⟩
  ended h := by cases h
  rx := .inl rfl
  last := List.not_mem_nil

variable {deserialize} {l}

theorem getLast?_ne_of_notMem {α : Type} {x : α} {xs : List α} (h : x ∉ xs) :
    xs.getLast? ≠ some x := fun hlast => h (List.mem_of_getLast? hlast)

/-- Taking a message keeps the marker where it is, or takes it. -/
theorem recv_marked (h : l.Inv) {a : Answers} {l' : Link}
    (hs : step deserialize l (.recv a) = some l') :
    l'.Inv ∧ l'.reader = l.reader ∧ (l'.Marked ↔ l.Marked) ∧
      (l.session.serverRx = .live → l'.session.serverRx = .live ∨
        l'.queue.items = [] ∧ l'.session = l.session.lostConnection a) := by
  obtain ⟨⟨msg, queue⟩, htake, rfl⟩ := Option.map_eq_some_iff.1 hs
  have hitems := BoundedQueue.tryRecv_eq_some.1 htake
  have hlast := h.last
  rw [hitems] at hlast
  cases msg with
  | some msg =>
    have hrx : (l.session.take a (some msg)).serverRx = l.session.serverRx := serverRx_message msg
    have hno : l.session.serverRx ≠ .ended := by
      intro hended
      rw [(h.ended hended).2] at hitems
      cases hitems
    have hlive : l.session.serverRx = .live := h.rx.resolve_right hno
    refine ⟨⟨?_, ?_, .inl (hrx.trans hlive), ?_⟩, rfl, ?_, fun _ => .inl (hrx.trans hlive)⟩
    · intro hreader
      have hrunning := (h.running hreader).1
      rw [hitems] at hrunning
      exact ⟨fun hmem => hrunning (List.mem_cons_of_mem _ hmem), hrx.trans hlive⟩
    · intro hended
      exact absurd (hrx.symm.trans hended) hno
    · intro hmem
      refine hlast ?_
      cases hrest : queue.items with
      | nil =>
        rw [hrest] at hmem
        cases hmem
      | cons b rest =>
        rw [List.dropLast_cons_of_ne_nil (List.cons_ne_nil _ _), ← hrest]
        exact List.mem_cons_of_mem _ hmem
    · unfold Marked
      rw [hrx, hitems]
      refine or_congr_right ?_
      cases hrest : queue.items with
      | nil => simp
      | cons b rest => rw [List.getLast?_cons_cons]
  | none =>
    have hrest : queue.items = [] := by
      cases hrest : queue.items with
      | nil => rfl
      | cons b rest =>
        rw [hrest, List.dropLast_cons_of_ne_nil (List.cons_ne_nil _ _)] at hlast
        exact absurd List.mem_cons_self hlast
    have hreader : l.reader = none := by
      refine Option.not_isSome_iff_eq_none.1 fun hsome => (h.running hsome).1 ?_
      rw [hitems]
      exact List.mem_cons_self
    refine ⟨⟨?_, fun _ => ⟨hreader, hrest⟩, .inr rfl, ?_⟩, rfl, ?_, fun _ => .inr ⟨hrest, rfl⟩⟩
    · intro hsome
      rw [hreader] at hsome
      cases hsome
    · rw [hrest]
      exact List.not_mem_nil
    · refine iff_of_true (.inl rfl) (.inr ?_)
      rw [hitems, hrest]
      rfl

variable (deserialize) in
/-- Emptying the queue, by induction on what waits there. -/
theorem drain (h : l.Inv) (hreader : l.reader = none) {as : List Answers}
    (has : as.length = l.queue.items.length) :
    ∃ l', runFrom (step deserialize) l (as.map .recv) = some l' ∧ l'.queue.items = [] ∧
      (l'.session.serverRx = .ended ↔ l.Marked) ∧
      (l.session.serverRx = .live → l'.session.serverRx = .ended →
        l'.session.channel = none ∧ l'.session.voiceHandle = none ∧ l'.session.conn = none ∧
          l'.session.nextReconnect.isSome = true) := by
  induction as generalizing l with
  | nil =>
    have hitems : l.queue.items = [] := List.eq_nil_of_length_eq_zero has.symm
    refine ⟨l, rfl, hitems, ?_, ?_⟩
    · unfold Marked
      rw [hitems]
      simp
    · intro hlive hended
      rw [hlive] at hended
      cases hended
  | cons a as ih =>
    cases hitems : l.queue.items with
    | nil =>
      rw [hitems] at has
      cases has
    | cons msg rest =>
      obtain ⟨queue, htake, hrest⟩ := BoundedQueue.exists_tryRecv hitems
      have hs : step deserialize l (.recv a) =
          some { l with queue, session := l.session.take a msg } := by
        simp only [step, htake, Option.map_some]
      obtain ⟨hinv, hreader', hmarked, hlost⟩ := recv_marked h hs
      have hlen : as.length = queue.items.length := by
        rw [hitems, List.length_cons, List.length_cons] at has
        rw [hrest]
        omega
      obtain ⟨l', hrun, hempty, hended, hclear⟩ := ih hinv (hreader'.trans hreader) hlen
      refine ⟨l', ?_, hempty, hended.trans hmarked, ?_⟩
      · rw [List.map_cons, runFrom_cons, hs]
        exact hrun
      · intro hlive hended'
        obtain hstill | ⟨hnone, hsession⟩ := hlost hlive
        · exact hclear hstill hended'
        · -- that was the marker, and nothing is left behind it
          simp only at hnone hsession
          rw [hnone] at hlen
          rw [List.eq_nil_of_length_eq_zero hlen] at hrun
          cases hrun
          simp only [hsession]
          exact ⟨rfl, rfl, rfl, rfl⟩

/-- A link is noticed where the reader has left the marker. -/
theorem noticed_iff_marked (h : l.Inv) :
    l.Noticed deserialize ↔ (l.reader = none → l.Marked) := by
  refine forall_congr' fun hreader => ?_
  constructor
  · intro hnoticed
    have hlen : (List.replicate l.queue.items.length (⟨0, true, true, none⟩ : Answers)).length =
        l.queue.items.length := List.length_replicate
    obtain ⟨l', hrun, -, hended, -⟩ := hnoticed _ hlen
    obtain ⟨l'', hrun', -, hiff, -⟩ := drain deserialize h hreader hlen
    rw [hrun] at hrun'
    cases hrun'
    exact hiff.1 hended
  · intro hmarked as has
    obtain ⟨l', hrun, hempty, hiff, hclear⟩ := drain deserialize h hreader has
    have hended := hiff.2 hmarked
    exact ⟨l', hrun, hempty, hended, fun hlive => hclear hlive hended⟩

/-! ## What the reader leaves -/

/-- The reader goes on, with a message more in the queue or without one. -/
theorem Inv.goOn (h : l.Inv) (hreader : l.reader.isSome = true)
    {queue : BoundedQueue (Option ServerMessage) msgQueueCapacity}
    (hqueue : none ∉ queue.items) (reader : Bytes × List Bytes) :
    { l with reader := some reader, queue }.Inv where
  running _ := ⟨hqueue, (h.running hreader).2⟩
  ended hended := by
    have hlive := (h.running hreader).2
    rw [hlive] at hended
    cases hended
  rx := h.rx
  last hmem := hqueue (List.mem_of_mem_dropLast hmem)

/-- The reader returns, and has left the marker or nothing. -/
theorem Inv.returned (h : l.Inv) (hreader : l.reader.isSome = true)
    {queue : BoundedQueue (Option ServerMessage) msgQueueCapacity}
    (hqueue : none ∉ queue.items.dropLast) : { l with reader := none, queue }.Inv where
  running hsome := by cases hsome
  ended hended := by
    have hlive := (h.running hreader).2
    rw [hlive] at hended
    cases hended
  rx := h.rx
  last := hqueue

/-- A reader that returns without the marker leaves none. -/
theorem not_marked (h : l.Inv) (hreader : l.reader.isSome = true) :
    ¬ { l with reader := none }.Marked := by
  obtain ⟨hqueue, hlive⟩ := h.running hreader
  rintro (hended | hlast)
  · rw [show l.session.serverRx = .ended from hended] at hlive
    cases hlive
  · exact getLast?_ne_of_notMem hqueue hlast

/-- A step of the reader at the end of the stream. -/
theorem disconnect_marked (h : l.Inv) (hreader : l.reader.isSome = true) :
    l.disconnect.Inv ∧ (l.disconnect.Marked ↔ l.queue.HasRoom) := by
  obtain ⟨hqueue, -⟩ := h.running hreader
  unfold disconnect
  cases hsend : l.queue.trySend none with
  | none =>
    refine ⟨h.returned hreader (fun hmem => hqueue (List.mem_of_mem_dropLast hmem)), ?_⟩
    exact iff_of_false (not_marked h hreader) (BoundedQueue.trySend_eq_none.1 hsend)
  | some queue =>
    obtain ⟨hroom, hitems⟩ := BoundedQueue.trySend_eq_some.1 hsend
    constructor
    · refine h.returned hreader ?_
      rw [Option.getD_some, hitems, List.dropLast_concat]
      exact hqueue
    · refine iff_of_true (.inr ?_) hroom
      rw [Option.getD_some, hitems, List.getLast?_concat]

/-- A step of the reader that reads. -/
theorem read_marked (h : l.Inv) {data : Option Bytes} {l' : Link}
    (hs : step deserialize l (.read data) = some l') :
    l'.Inv ∧ ((l'.reader = none → l'.Marked) ↔ l.Room deserialize (.read data)) := by
  cases hreader : l.reader with
  | none =>
    simp only [step, hreader] at hs
    cases hs
  | some reader =>
    obtain ⟨pending, frames⟩ := reader
    cases frames with
    | cons frame frames =>
      simp only [step, hreader] at hs
      cases hs
    | nil =>
      simp only [step, hreader] at hs
      cases hs
      have hsome : l.reader.isSome = true := by rw [hreader]; rfl
      unfold read
      cases hreceived : received pending data with
      | none =>
        obtain ⟨hinv, hiff⟩ := disconnect_marked h hsome
        refine ⟨hinv, ?_⟩
        constructor
        · intro hleft pending' hreader' _
          exact hiff.1 (hleft rfl)
        · intro hroom _
          exact hiff.2 (hroom pending hreader hreceived)
      | some r =>
        refine ⟨h.goOn hsome (h.running hsome).1 _, iff_of_true (fun hno => by cases hno) ?_⟩
        intro pending' hreader' hnone
        rw [hreader] at hreader'
        cases hreader'
        rw [hreceived] at hnone
        cases hnone

/-- A step of the reader that hands a message on. -/
theorem handOn_marked (h : l.Inv) {l' : Link} (hs : step deserialize l .handOn = some l') :
    l'.Inv ∧ ((l'.reader = none → l'.Marked) ↔ l.Room deserialize .handOn) := by
  cases hreader : l.reader with
  | none =>
    simp only [step, hreader] at hs
    cases hs
  | some reader =>
    obtain ⟨pending, frames⟩ := reader
    cases frames with
    | nil =>
      simp only [step, hreader] at hs
      cases hs
    | cons frame frames =>
      simp only [step, hreader] at hs
      cases hs
      have hsome : l.reader.isSome = true := by rw [hreader]; rfl
      have hqueue := (h.running hsome).1
      unfold handOn
      cases hmsg : deserialize frame with
      | none =>
        refine ⟨h.goOn hsome hqueue _, iff_of_true (fun hno => by cases hno) ?_⟩
        intro pending' frame' frames' hreader' hdecoded
        rw [hreader] at hreader'
        cases hreader'
        rw [hmsg] at hdecoded
        cases hdecoded
      | some msg =>
        simp only
        cases hsend : l.queue.trySend (some msg) with
        | some queue =>
          obtain ⟨hroom, hitems⟩ := BoundedQueue.trySend_eq_some.1 hsend
          refine ⟨h.goOn hsome ?_ _, iff_of_true (fun hno => by cases hno) ?_⟩
          · rw [hitems]
            simpa using hqueue
          · intro _ _ _ _ _
            exact hroom
        | none =>
          refine ⟨h.returned hsome (fun hmem => hqueue (List.mem_of_mem_dropLast hmem)), ?_⟩
          refine iff_of_false (fun hleft => not_marked h hsome (hleft rfl)) fun hroom => ?_
          refine BoundedQueue.trySend_eq_none.1 hsend (hroom pending frame frames hreader ?_)
          rw [hmsg]
          rfl

/-- **One step leaves the connection noticed exactly when the reader finds room.** -/
theorem step_marked (h : l.Inv) (hmarked : l.reader = none → l.Marked) {e : LinkEvent} {l' : Link}
    (hs : step deserialize l e = some l') :
    l'.Inv ∧ ((l'.reader = none → l'.Marked) ↔ l.Room deserialize e) := by
  cases e with
  | read data => exact read_marked h hs
  | handOn => exact handOn_marked h hs
  | recv a =>
    obtain ⟨hinv, hreader, hiff, -⟩ := recv_marked h hs
    refine ⟨hinv, iff_of_true (fun hnone => hiff.2 (hmarked ?_)) trivial⟩
    rw [← hreader]
    exact hnone
  | loop e a =>
    simp only [step] at hs
    split at hs
    · rename_i hkeeps
      cases hs
      have hrx : (l.session.turn (e, a)).1.serverRx = l.session.serverRx := serverRx_turn hkeeps
      refine ⟨⟨?_, ?_, ?_, h.last⟩, iff_of_true (fun hnone => ?_) trivial⟩
      · intro hsome
        exact ⟨(h.running hsome).1, hrx.trans (h.running hsome).2⟩
      · intro hended
        exact h.ended (hrx.symm.trans hended)
      · simp only [hrx]
        exact h.rx
      · unfold Marked
        simp only [hrx]
        exact hmarked hnone
    · cases hs

end Link

/-- **A lost connection is always noticed** as long as the reader finds room in the queue.  For
every way to read messages from frames, every session that has just connected, and every order
of reads, frames, drained messages and other parts of the loop: at any time after the reader
has returned, emptying the queue leaves the session disconnected, exactly when each step in
which the reader sends something finds room for it. -/
theorem noticed_iff (deserialize : Bytes → Option ServerMessage) (s : Session) (a : Answers)
    (c : ServerConnection) (es : List LinkEvent) :
    Throughout (Link.step deserialize) (Link.Noticed deserialize) (.start s a c) es ↔
      EachStep (Link.step deserialize) (Link.Room deserialize) (.start s a c) es := by
  refine throughout_iff_eachStep_while Link.Inv ?_ ?_ (Link.inv_start s a c) ?_ (eachStep_true _ es)
  · intro l e l' h hnoticed _ hs _
    exact (Link.step_marked h ((Link.noticed_iff_marked h).1 hnoticed) hs).1
  · intro l e l' h hnoticed _ hs
    obtain ⟨hinv, hiff⟩ := Link.step_marked h ((Link.noticed_iff_marked h).1 hnoticed) hs
    exact (Link.noticed_iff_marked hinv).trans hiff
  · rw [Link.noticed_iff_marked (Link.inv_start s a c)]
    rintro ⟨⟩

/-! ## What the reader hands on -/

/-- The bytes that a step reads, if there are any. -/
def LinkEvent.chunk : LinkEvent → List Bytes
  | .read (some (b :: bytes)) => [b :: bytes]
  | _ => []

namespace Link

variable {deserialize : Bytes → Option ServerMessage} {l l' : Link}

/-- What a step takes out of the queue. -/
def taken (l : Link) : LinkEvent → List (Option ServerMessage)
  | .recv _ => l.queue.items.head?.toList
  | _ => []

/-- What the loop takes out of the queue in a run. -/
def takenIn (deserialize : Bytes → Option ServerMessage) (l : Link) :
    List LinkEvent → List (Option ServerMessage)
  | [] => []
  | e :: es =>
    match step deserialize l e with
    | some l' => l.taken e ++ takenIn deserialize l' es
    | none => []

/-- The messages in some frames, as they are queued. -/
def messages (deserialize : Bytes → Option ServerMessage) (frames : List Bytes) :
    List (Option ServerMessage) := (frames.filterMap deserialize).map some

theorem messages_append (frames frames' : List Bytes) :
    messages deserialize (frames ++ frames') =
      messages deserialize frames ++ messages deserialize frames' := by
  rw [messages, List.filterMap_append, List.map_append]
  rfl

/-- After some reads, what has been `heard` of the queue and what is in it are the messages of
the frames that the reader has handed on, and behind the last of them the marker. -/
structure HandsOn (deserialize : Bytes → Option ServerMessage) (chunks : List Bytes)
    (heard : List (Option ServerMessage)) (l : Link) : Prop where
  going : ∀ pending left, l.reader = some (pending, left) →
    ∃ done, readerTaskFrames chunks = (done ++ left, .ok pending) ∧
      heard ++ l.queue.items = messages deserialize done
  ended : l.reader = none →
    heard ++ l.queue.items = messages deserialize (readerTaskFrames chunks).1 ++ [none]

variable {chunks : List Bytes} {heard : List (Option ServerMessage)}

/-- A read at which the reader ends puts the marker behind what there is. -/
theorem HandsOn.disconnect (h : HandsOn deserialize chunks heard l) {pending : Bytes}
    (hreader : l.reader = some (pending, [])) (hroom : l.queue.HasRoom) {more : List Bytes}
    (hmore : (readBatches pending more).1 = []) :
    HandsOn deserialize (chunks ++ more) heard l.disconnect := by
  obtain ⟨done, hdone, hheard⟩ := h.going pending [] hreader
  rw [List.append_nil] at hdone
  obtain ⟨queue, hsend, hitems⟩ := hroom.exists_trySend none
  have hall : (readerTaskFrames (chunks ++ more)).1 = done := by
    show (readBatches [] (chunks ++ more)).1 = done
    rw [readBatches_append hdone, hmore, List.append_nil]
  refine ⟨fun pending' left' hnone => (by cases hnone), fun _ => ?_⟩
  show heard ++ ((l.queue.trySend none).getD l.queue).items = _
  rw [hsend, Option.getD_some, hitems, ← List.append_assoc, hheard, hall]

/-- A read that completes frames leaves them to be handed on. -/
theorem HandsOn.read (h : HandsOn deserialize chunks heard l) {pending : Bytes}
    (hreader : l.reader = some (pending, [])) {data : Option Bytes}
    (hroom : received pending data = none → l.queue.HasRoom) :
    HandsOn deserialize (chunks ++ (LinkEvent.read data).chunk) heard (l.read pending data) := by
  have hnothing : (readBatches pending []).1 = [] := rfl
  unfold Link.read
  cases data with
  | none => exact h.disconnect hreader (hroom rfl) hnothing
  | some bytes =>
    cases bytes with
    | nil => exact h.disconnect hreader (hroom rfl) hnothing
    | cons b bytes =>
      have hreceived : received pending (some (b :: bytes)) = readChunk pending (b :: bytes) := rfl
      cases hchunk : readChunk pending (b :: bytes) with
      | none =>
        rw [hreceived, hchunk] at hroom ⊢
        exact h.disconnect hreader (hroom rfl) (readBatches_singleton_none hchunk)
      | some r =>
        rw [hreceived, hchunk]
        obtain ⟨done, hdone, hheard⟩ := h.going pending [] hreader
        rw [List.append_nil] at hdone
        refine ⟨?_, fun hnone => by cases hnone⟩
        rintro pending' left' ⟨⟩
        refine ⟨done, ?_, hheard⟩
        show readBatches [] (chunks ++ [b :: bytes]) = _
        rw [readBatches_append hdone, readBatches_singleton_some hchunk]

/-- A frame is handed on: its message is the last in the queue. -/
theorem HandsOn.handOn (h : HandsOn deserialize chunks heard l) {pending frame : Bytes}
    {frames : List Bytes} (hreader : l.reader = some (pending, frame :: frames))
    (hroom : (deserialize frame).isSome = true → l.queue.HasRoom) :
    HandsOn deserialize chunks heard (l.handOn deserialize pending frame frames) := by
  obtain ⟨done, hdone, hheard⟩ := h.going _ _ hreader
  have hnext : readerTaskFrames chunks = ((done ++ [frame]) ++ frames, .ok pending) := by
    rw [hdone, List.append_assoc]
    rfl
  unfold Link.handOn
  cases hmsg : deserialize frame with
  | none =>
    refine ⟨?_, fun hnone => by cases hnone⟩
    rintro pending' left' ⟨⟩
    refine ⟨done ++ [frame], hnext, ?_⟩
    have hempty : messages deserialize [frame] = [] := by simp [messages, hmsg]
    rw [messages_append, hempty, List.append_nil]
    exact hheard
  | some msg =>
    rw [hmsg] at hroom
    obtain ⟨queue, hsend, hitems⟩ := (hroom rfl).exists_trySend (some msg)
    simp only [hsend]
    refine ⟨?_, fun hnone => by cases hnone⟩
    rintro pending' left' ⟨⟩
    refine ⟨done ++ [frame], hnext, ?_⟩
    have hone : messages deserialize [frame] = [some msg] := by simp [messages, hmsg]
    rw [hitems, ← List.append_assoc, hheard, messages_append, hone]

/-- The loop takes what has waited longest. -/
theorem HandsOn.recv (h : HandsOn deserialize chunks heard l) {a : Answers}
    (hs : step deserialize l (.recv a) = some l') :
    HandsOn deserialize chunks (heard ++ l.taken (.recv a)) l' := by
  obtain ⟨⟨msg, queue⟩, hrecv, rfl⟩ := Option.map_eq_some_iff.1 hs
  have hitems := BoundedQueue.tryRecv_eq_some.1 hrecv
  have htaken : l.taken (.recv a) = [msg] := by
    show l.queue.items.head?.toList = _
    rw [hitems]
    rfl
  have hsame : (heard ++ l.taken (.recv a)) ++ queue.items = heard ++ l.queue.items := by
    rw [htaken, hitems, List.append_assoc]
    rfl
  refine ⟨?_, ?_⟩
  · intro pending left hreader
    obtain ⟨done, hdone, hheard⟩ := h.going pending left hreader
    exact ⟨done, hdone, hsame.trans hheard⟩
  · intro hreader
    exact hsame.trans (h.ended hreader)

theorem HandsOn.step (h : HandsOn deserialize chunks heard l) {e : LinkEvent}
    (hroom : l.Room deserialize e) (hs : step deserialize l e = some l') :
    HandsOn deserialize (chunks ++ e.chunk) (heard ++ l.taken e) l' := by
  cases e with
  | read data =>
    simp only [Link.step] at hs
    split at hs
    · rename_i pending hreader
      cases hs
      rw [show l.taken (.read data) = [] from rfl, List.append_nil]
      exact h.read hreader (hroom pending hreader)
    · cases hs
  | handOn =>
    simp only [Link.step] at hs
    split at hs
    · rename_i pending frame frames hreader
      cases hs
      rw [show LinkEvent.chunk .handOn = [] from rfl, show l.taken .handOn = [] from rfl,
        List.append_nil, List.append_nil]
      exact h.handOn hreader (hroom pending frame frames hreader)
    · cases hs
  | recv a =>
    rw [show LinkEvent.chunk (.recv a) = [] from rfl, List.append_nil]
    exact h.recv hs
  | loop e a =>
    simp only [Link.step] at hs
    split at hs
    · cases hs
      rw [show LinkEvent.chunk (.loop e a) = [] from rfl, show l.taken (.loop e a) = [] from rfl,
        List.append_nil, List.append_nil]
      exact ⟨h.going, h.ended⟩
    · cases hs

theorem HandsOn.run (h : HandsOn deserialize chunks heard l) {es : List LinkEvent}
    (hroom : EachStep (Link.step deserialize) (Room deserialize) l es)
    (hrun : runFrom (Link.step deserialize) l es = some l') :
    HandsOn deserialize (chunks ++ es.flatMap LinkEvent.chunk)
      (heard ++ takenIn deserialize l es) l' := by
  induction es generalizing l chunks heard with
  | nil =>
    cases hrun
    rw [List.flatMap_nil, takenIn, List.append_nil, List.append_nil]
    exact h
  | cons e es ih =>
    rw [runFrom_cons] at hrun
    obtain ⟨m, hs, hrest⟩ := Option.bind_eq_some_iff.1 hrun
    obtain ⟨hfirst, hlater⟩ := (eachStep_cons hs).1 hroom
    have hdone := ih (h.step hfirst hs) hlater hrest
    rw [List.flatMap_cons, takenIn, hs, ← List.append_assoc, ← List.append_assoc]
    exact hdone

/-- **The reader hands on the frames it is said to receive.**  In every run of a connection in
which it finds room for what it sends, what the loop has taken out of the queue and what is in it
are the messages of those frames of the stream that `readerTaskFrames` has, but for the ones of
the last read that are still to be handed on; and when the reader has ended, of all of them, with
the marker behind. -/
theorem hands_on (s : Session) (a : Answers) (c : ServerConnection) (es : List LinkEvent)
    (hroom : EachStep (step deserialize) (Room deserialize) (start s a c) es)
    (hrun : runFrom (step deserialize) (start s a c) es = some l) :
    HandsOn deserialize (es.flatMap LinkEvent.chunk) (takenIn deserialize (start s a c) es) l := by
  have hstart : HandsOn deserialize [] [] (start s a c) := by
    refine ⟨?_, fun hnone => by cases hnone⟩
    rintro pending left ⟨⟩
    exact ⟨[], rfl, rfl⟩
  exact hstart.run hroom hrun

end Link

/-! ## A burst before the end -/

namespace Link

/-- The frame of a pong, as a burst has it over and over. -/
def pongFrame : Bytes := [11, 0, 0, 0]

/-- Pongs are all that is read. -/
def readPong (frame : Bytes) : Option ServerMessage :=
  if frame = pongFrame then some .pong else none

/-- As many pongs as the queue has room for, none of them drained, and the end of the stream. -/
def burst : List LinkEvent :=
  .read (some (stream (List.replicate msgQueueCapacity pongFrame))) ::
    (List.replicate msgQueueCapacity .handOn ++ [.read none])

theorem extractFrames_pongs (n : ℕ) :
    extractFrames (stream (List.replicate n pongFrame)) = .ok (List.replicate n pongFrame, []) := by
  induction n with
  | zero => exact extractFrames_none rfl
  | succ n ih =>
    rw [List.replicate_succ, stream_cons, extractFrames_frame (by decide), ih]
    rfl

theorem length_pongs (n : ℕ) : (stream (List.replicate n pongFrame)).length = 8 * n := by
  induction n with
  | zero => rfl
  | succ n ih =>
    rw [List.replicate_succ, stream_cons, List.length_append, ih]
    show 8 + 8 * n = 8 * (n + 1)
    omega

/-- The burst arrives in one read. -/
theorem received_pongs : received [] (some (stream (List.replicate msgQueueCapacity pongFrame))) =
    some (List.replicate msgQueueCapacity pongFrame, []) := by
  have hlen := length_pongs msgQueueCapacity
  have hfew : ¬ Config.maxPendingBuf < 8 * msgQueueCapacity := by decide
  generalize hstream : stream (List.replicate msgQueueCapacity pongFrame) = bytes at hlen
  cases bytes with
  | nil => cases hlen
  | cons b bytes =>
    show readChunk [] (b :: bytes) = _
    rw [readChunk, List.nil_append, if_neg (by rw [hlen]; exact hfew), ← hstream,
      extractFrames_pongs]

/-- Frames of one message that the queue has room for, handed on one after the other. -/
theorem handOn_replicate {deserialize : Bytes → Option ServerMessage} {frame pending : Bytes}
    {msg : ServerMessage} (hmsg : deserialize frame = some msg) (n : ℕ) {l : Link}
    (hreader : l.reader = some (pending, List.replicate n frame))
    (hroom : l.queue.items.length + n ≤ msgQueueCapacity) :
    ∃ l', runFrom (step deserialize) l (List.replicate n .handOn) = some l' ∧
      l'.reader = some (pending, []) ∧ l'.session = l.session ∧
      l'.queue.items = l.queue.items ++ List.replicate n (some msg) := by
  induction n generalizing l with
  | zero => exact ⟨l, rfl, hreader, rfl, (List.append_nil _).symm⟩
  | succ n ih =>
    have hroom₁ : l.queue.HasRoom := by
      show l.queue.items.length < msgQueueCapacity
      omega
    obtain ⟨queue, hsend, hitems⟩ := hroom₁.exists_trySend (some msg)
    have hs : step deserialize l .handOn =
        some { l with reader := some (pending, List.replicate n frame), queue } := by
      simp only [step, hreader, List.replicate_succ, handOn, hmsg, hsend]
    have hroom' : queue.items.length + n ≤ msgQueueCapacity := by
      rw [hitems, List.length_append, List.length_singleton]
      omega
    obtain ⟨l', hrun, hreader', hsession, hitems'⟩ :=
      ih (l := { l with reader := some (pending, List.replicate n frame), queue }) rfl hroom'
    refine ⟨l', ?_, hreader', hsession, ?_⟩
    · rw [List.replicate_succ, runFrom_cons, hs]
      exact hrun
    · rw [hitems', hitems, List.append_assoc]
      rfl

/-- A connection whose reader has read the burst. -/
def burstRead : Link :=
  { start Session.sampleStart (Session.favourable 0) Session.sampleServer with
    reader := some ([], List.replicate msgQueueCapacity pongFrame) }

/-- The connection after the burst: the queue is full, and the marker has found no room. -/
theorem runFrom_burst : ∃ l,
    runFrom (step readPong) (start Session.sampleStart (Session.favourable 0) Session.sampleServer)
      burst = some l ∧ l.reader = none ∧ l.session.serverRx = .live ∧
      l.queue.items = List.replicate msgQueueCapacity (some .pong) := by
  have hmsg : readPong pongFrame = some .pong := rfl
  have hroom : burstRead.queue.items.length + msgQueueCapacity ≤ msgQueueCapacity := by
    rw [show burstRead.queue.items = [] from rfl, List.length_nil, Nat.zero_add]
  obtain ⟨l, hrun, hreader, hsession, hitems⟩ := handOn_replicate hmsg msgQueueCapacity rfl hroom
  have hread : step readPong
      (start Session.sampleStart (Session.favourable 0) Session.sampleServer)
      (.read (some (stream (List.replicate msgQueueCapacity pongFrame)))) = some burstRead := by
    show some (Link.read _ [] _) = _
    rw [Link.read, received_pongs]
    rfl
  have hend : step readPong l (.read none) = some l.disconnect := by
    simp only [step, hreader, Link.read, received]
  have hfull : l.queue.trySend none = none := by
    rw [BoundedQueue.trySend_eq_none, BoundedQueue.HasRoom, hitems, List.length_append,
      List.length_replicate]
    omega
  refine ⟨l.disconnect, ?_, rfl, ?_, ?_⟩
  · rw [burst, runFrom_cons, hread, Option.bind_some, runFrom_append, hrun, Option.bind_some,
      runFrom_cons, hend]
    rfl
  · rw [disconnect, hsession]
    rfl
  · rw [disconnect, hfull, Option.getD_none, hitems]
    rfl

/-- **A lost connection that is not noticed**: the reader has returned, the queue is emptied, and
the session still has the receiver of the lost connection. -/
theorem lost_connection :
    ¬ Throughout (step readPong) (Noticed readPong)
        (start Session.sampleStart (Session.favourable 0) Session.sampleServer) burst ∧
      ∃ l l', runFrom (step readPong)
          (start Session.sampleStart (Session.favourable 0) Session.sampleServer) burst = some l ∧
        l.reader = none ∧
        runFrom (step readPong) l ((List.replicate msgQueueCapacity (Session.favourable 1000)).map
          .recv) = some l' ∧
        l'.queue.items = [] ∧ l'.session.serverRx ≠ .ended := by
  obtain ⟨l, hrun, hreader, hlive, hitems⟩ := runFrom_burst
  have hinv : l.Inv :=
    { running := fun hsome => by rw [hreader] at hsome; cases hsome
      ended := fun hended => by rw [hlive] at hended; cases hended
      rx := .inl hlive
      last := fun hmem => by
        rw [hitems] at hmem
        have heq := List.eq_of_mem_replicate (List.mem_of_mem_dropLast hmem)
        cases heq }
  have hunmarked : ¬ l.Marked := by
    rintro (hended | hlast)
    · rw [hlive] at hended
      cases hended
    · rw [hitems] at hlast
      have heq := List.eq_of_mem_replicate (List.mem_of_getLast? hlast)
      cases heq
  constructor
  · intro hthroughout
    have hnoticed : l.Noticed readPong := by
      refine throughout_iff.1 hthroughout burst.length l ?_
      rw [List.take_length]
      exact hrun
    exact hunmarked ((noticed_iff_marked hinv).1 hnoticed hreader)
  · have hlen : (List.replicate msgQueueCapacity (Session.favourable 1000)).length =
        l.queue.items.length := by
      rw [hitems, List.length_replicate, List.length_replicate]
    obtain ⟨l', hdrain, hempty, hiff, -⟩ := drain readPong hinv hreader hlen
    exact ⟨l, l', hrun, hreader, hdrain, hempty, fun hended => hunmarked (hiff.1 hended)⟩

end Link

end Client
end TcVoice
