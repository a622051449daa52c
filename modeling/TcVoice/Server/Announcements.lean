import TcVoice.Client.Roster
import TcVoice.Lib.Presence
import TcVoice.Server.Bounds

/-!
# What the tasks tell the clients' lists

The server tells a joining client who is in the channel (`JoinedChannel`), and the
others of every change after it: who joined, who left, who has a new name.

* `newsIn`, `snapshotIn` — what an action left to take tells the lists, and the
  snapshot it sends.
* `MaySay`, `Voiced` — the discipline: a task tells news of its own client alone, and
  sends a snapshot to its own client alone, one at a time.
* `RoomChange`, `Handled.roomChange` — everything a request does about rooms and names.
* `Voiced.move` — **every step keeps the discipline**.
-/

namespace TcVoice
namespace Server

open Runs Table ServerState Client

/-! ## News and snapshots in what is left of a handler -/

/-- What an action tells the lists, if it does. -/
def newsIn : Action → Option (News ChannelId String)
  | .broadcast ch _ (.peerJoined n) => some (.joined ch n)
  | .broadcast ch _ (.peerLeft n) => some (.left ch n)
  | .broadcast ch _ (.nameChanged o n) => some (.renamed ch o n)
  | .send _ (.nameChanged o n) => if o = "" then none else some (.called o n)
  | _ => none

/-- The participants in a `JoinedChannel` still to be sent. -/
def snapshotIn : Action → Option (List String)
  | .send _ (.joinedChannel _ participants _ _) => some participants
  | _ => none

/-- The message that carries the news. -/
def messageOf : News ChannelId String → ServerMessage
  | .joined _ n => .peerJoined n
  | .left _ n => .peerLeft n
  | .renamed _ o n => .nameChanged o n
  | .called o n => .nameChanged o n

/-- The actions that tell news of a client. -/
inductive Tells (a : SocketAddr) : Action → News ChannelId String → Prop
  | joined {ch : ChannelId} {n : String} :
      Tells a (.broadcast ch (some a) (.peerJoined n)) (.joined ch n)
  | left {ch : ChannelId} {n : String} : Tells a (.broadcast ch none (.peerLeft n)) (.left ch n)
  | renamed {ch : ChannelId} {o n : String} (ho : o ≠ "") :
      Tells a (.broadcast ch (some a) (.nameChanged o n)) (.renamed ch o n)
  | called {o n : String} (ho : o ≠ "") : Tells a (.send a (.nameChanged o n)) (.called o n)

/-- An action that no list depends on. -/
def Silent : Action → Prop
  | .openQueue _ => False
  | .send _ msg | .broadcast _ _ msg | .routeDirect _ _ msg => Plain msg
  | _ => True

/-- What a connection's task can have left to do. -/
inductive MaySay (s : ServerState) (a : SocketAddr) : Action → Prop
  | tells {action : Action} {x : News ChannelId String} (h : Tells a action x) : MaySay s a action
  | greets {n : String} : MaySay s a (.send a (.nameChanged "" n))
  | shows {ch : ChannelId} {participants : List String} {token : UInt64} {key : Bytes} :
      MaySay s a (.send a (.joinedChannel ch participants token key))
  | clears (hout : s.channelOf a = none) : MaySay s a (.send a .leftChannel)
  | opens (hout : s.channelOf a = none) : MaySay s a (.openQueue a)
  | silent {action : Action} (h : Silent action) : MaySay s a action

/-- What the tasks have to say about whom. -/
structure Voiced (w : World) : Prop where
  spoken : ∀ a, ∀ x ∈ w.pending (some a), MaySay w.state a x
  /-- At most one snapshot is under way to a client. -/
  once : ∀ a, ((w.pending (some a)).filterMap snapshotIn).length ≤ 1
  sweep : ∀ x ∈ w.maintenance, Silent x
  /-- A client has a queue, but for the beginning and the end of its connection. -/
  queued : ∀ a ∈ w.state.clients, a ∈ w.senders ∨ .openQueue a ∈ w.pending (some a) ∨
    .removeClient a ∈ w.pending (some a)

section Lemmas

variable {env : Env} {s s' : ServerState} {w w' : World} {a b c : SocketAddr} {t : Task}
  {action : Action} {rest acts : List Action} {x : News ChannelId String} {msg : ServerMessage}
  {kinds : SocketAddr → ClientKind} {ev : World.Event}

/-! ## Actions and what they tell -/

theorem Tells.newsIn (h : Tells a action x) : newsIn action = some x := by
  cases h with
  | called ho => exact if_neg ho
  | _ => rfl

theorem Tells.snapshotIn (h : Tells a action x) : snapshotIn action = none := by
  cases h <;> rfl

theorem Tells.act (h : Tells a action x) : (w.act env action).2 = [] := by
  cases h <;> rfl

/-- News goes to those whom it reaches. -/
theorem Tells.addressed (h : Tells a action x) :
    (x.Reaches a c (s.channelOf c) → action.addressed s c = some (messageOf x)) ∧
      (¬ x.Reaches a c (s.channelOf c) → action.addressed s c = none) := by
  cases h with
  | joined | renamed =>
    refine ⟨fun hr => if_pos ⟨hr.1, fun he => hr.2 (Option.some.inj he).symm⟩, fun hr => if_neg ?_⟩
    rintro ⟨hch, hex⟩
    exact hr ⟨hch, fun he => hex (congrArg some he.symm)⟩
  | left => exact ⟨fun hr => if_pos ⟨hr, by simp⟩, fun hr => if_neg fun h => hr h.1⟩
  | called => exact ⟨fun hr => if_pos hr, fun hr => if_neg hr⟩

/-- News edits the lists as its message does. -/
theorem Tells.names_handle (h : Tells a action x) {kind : ClientKind} {ps : List String}
    (hr : ∀ o n, messageOf x = .nameChanged o n → Renames kind ps o n) :
    names (kind.handle ps (messageOf x)) = x.edit (names ps) := by
  cases h with
  | joined => exact names_handle_peerJoined
  | left => exact names_handle_peerLeft
  | renamed ho | called ho => exact names_handle_nameChanged (hr _ _ rfl) ho

theorem Silent.newsIn (h : Silent action) : newsIn action = none := by
  cases action with
  | send _ msg | broadcast _ _ msg => cases msg <;> first | rfl | exact h.elim
  | _ => rfl

theorem Silent.snapshotIn (h : Silent action) : snapshotIn action = none := by
  cases action with
  | send _ msg => cases msg <;> first | rfl | exact h.elim
  | _ => rfl

theorem Silent.plain (h : Silent action) (hadd : action.addressed s c = some msg) :
    Plain msg := by
  rcases Action.addressed_eq_some hadd with rfl | ⟨ch, ex, rfl, -⟩ <;> exact h

theorem silent_of_mem_push {ch : ChannelId} (h : action ∈ pushIfPublic ch) : Silent action := by
  rw [(mem_pushIfPublic.1 h).1]
  trivial

theorem filterMap_newsIn_of_silent (h : ∀ y ∈ acts, Silent y) : acts.filterMap newsIn = [] :=
  List.filterMap_eq_nil_iff.2 fun y hy => (h y hy).newsIn

theorem filterMap_snapshotIn_of_silent (h : ∀ y ∈ acts, Silent y) :
    acts.filterMap snapshotIn = [] :=
  List.filterMap_eq_nil_iff.2 fun y hy => (h y hy).snapshotIn

theorem MaySay.mono (h : MaySay s a action) (hs : s.channelOf a = none → s'.channelOf a = none) :
    MaySay s' a action := by
  cases h with
  | tells h => exact .tells h
  | greets => exact .greets
  | shows => exact .shows
  | clears hout => exact .clears (hs hout)
  | opens hout => exact .opens (hs hout)
  | silent h => exact .silent h

/-- A direct message on its way is not one that a list depends on. -/
def RoutesPlain (action : Action) : Prop :=
  ∀ b toPubkey msg, action = .routeDirect b toPubkey msg → Plain msg

theorem Silent.routesPlain (h : Silent action) : RoutesPlain action := by
  rintro b toPubkey msg rfl
  exact h

theorem MaySay.routesPlain (h : MaySay s a action) : RoutesPlain action := by
  rintro b toPubkey msg rfl
  cases h with
  | tells h => cases h
  | silent h => exact h

/-- What an action leaves to do is silent, or tells that a client has gone. -/
theorem mem_act_cases (h : RoutesPlain action) {y : Action} (hy : y ∈ (w.act env action).2) :
    Silent y ∨ (∃ b, action = .removeClient b) ∧ ∃ ch n, y = .broadcast ch none (.peerLeft n) := by
  cases leaves_of_mem_act hy with
  | listed | pushed | unreachable | push => exact .inl trivial
  | routed => exact .inl (h _ _ _ rfl)
  | gone => exact .inr ⟨⟨_, rfl⟩, _, _, rfl⟩

theorem filterMap_snapshotIn_act (h : RoutesPlain action) :
    (w.act env action).2.filterMap snapshotIn = [] := by
  refine List.filterMap_eq_nil_iff.2 fun y hy => ?_
  rcases mem_act_cases h hy with hy | ⟨-, ch, n, rfl⟩
  · exact hy.snapshotIn
  · rfl

/-! ## What a request changes -/

/-- Everything a request can do that the lists depend on. -/
inductive RoomChange (s : ServerState) (a : SocketAddr) (name : String) (msg : ClientMessage)
    (s' : ServerState) : List Action → Prop
  | nothing {acts : List Action} (hroom : ∀ b, s'.channelOf b = s.channelOf b)
      (hname : ∀ b, s'.nameOf b = s.nameOf b) (hacts : ∀ y ∈ acts, Silent y) :
      RoomChange s a name msg s' acts
  | enters {ch : ChannelId} {participants : List String} {token : UInt64} {key : Bytes}
      {push : List Action} (hin : a ∈ s.clients) (hout : s.channelOf a = none)
      (hroom : ∀ b, s'.channelOf b = if b = a then some ch else s.channelOf b)
      (hname : ∀ b, s'.nameOf b = s.nameOf b)
      (hall : ∀ n, n ∈ participants ↔ ∃ d, s'.channelOf d = some ch ∧ s'.nameOf d = some n)
      (hpush : ∀ y ∈ push, Silent y) :
      RoomChange s a name msg s' (.broadcast ch (some a) (.peerJoined name) ::
        .send a (.joinedChannel ch participants token key) :: push)
  | departs {ch : ChannelId} {n : String} {push : List Action} (hin : s.channelOf a = some ch)
      (hn : s.nameOf a = some n)
      (hroom : ∀ b, s'.channelOf b = if b = a then none else s.channelOf b)
      (hname : ∀ b, s'.nameOf b = s.nameOf b) (hpush : ∀ y ∈ push, Silent y) :
      RoomChange s a name msg s' (.send a .leftChannel :: .broadcast ch none (.peerLeft n) :: push)
  | renames {o newName : String} (hmsg : msg = .setName newName) (ho : s.nameOf a = some o)
      (hne : trim newName ≠ "") (hlen : byteLen (trim newName) ≤ Config.maxNameLen)
      (hroom : ∀ b, s'.channelOf b = s.channelOf b)
      (hname : ∀ b, s'.nameOf b = if b = a then some (trim newName) else s.nameOf b) :
      RoomChange s a name msg s' (announceName a (s.channelOf a) o (trim newName))

theorem mem_memberNames {ch : ChannelId} {n : String} :
    n ∈ s.memberNames ch ↔ ∃ d, s.channelOf d = some ch ∧ s.nameOf d = some n := by
  simp only [memberNames, mem_collect, decide_eq_true_eq, channelOf_eq_some]
  constructor
  · rintro ⟨d, i, hl, hch, rfl⟩
    exact ⟨d, ⟨i, hl, hch⟩, nameOf_of_lookup hl⟩
  · rintro ⟨d, ⟨i, hl, hch⟩, hn⟩
    exact ⟨d, i, hl, hch, Option.some.inj ((nameOf_of_lookup hl).symm.trans hn)⟩

theorem channelOf_registerUdpByToken {token : UInt64} {udp : SocketAddr} :
    (s.registerUdpByToken env token udp).2.channelOf b = s.channelOf b :=
  registerUdpByToken_frame (ServerState.channelOf · b) (fun _ => rfl)
    fun _ _ _ hl => channelOf_greeted hl

theorem Handled.roomChange {name name' : String} {cmsg : ClientMessage}
    (h : Handled env s a name cmsg s' name' acts) (hno : cmsg ≠ .startEchoTest) :
    RoomChange s a name cmsg s' acts := by
  cases h with
  | refused | listed | pinged =>
    refine .nothing (fun _ => rfl) (fun _ => rfl) fun y hy => ?_
    obtain rfl := List.mem_singleton.1 hy
    trivial
  | ignored => exact .nothing (fun _ => rfl) (fun _ => rfl) (by simp)
  | said | routed =>
    refine .nothing (fun _ => rfl) (fun _ => rfl) fun y hy => ?_
    obtain rfl := List.mem_singleton.1 hy
    trivial
  | created =>
    refine .nothing (fun _ => rfl) (fun _ => rfl) fun y hy => ?_
    rcases List.mem_cons.1 hy with rfl | hy
    · trivial
    · exact silent_of_mem_push hy
  | bound hl =>
    exact .nothing (fun _ => channelOf_rekeyed hl) (fun _ => nameOf_rekeyed hl) (by simp)
  | joined hch ha hout =>
    refine .enters ha hout (fun _ => channelOf_joined ha) (fun _ => nameOf_joined ha) (fun n => ?_)
      fun y hy => silent_of_mem_push hy
    rw [HashOrder.mem_toList, mem_memberNames]
  | @left cmsg c ch hmsg hl hch =>
    refine .departs ((channelOf_of_lookup hl).trans hch) (nameOf_of_lookup hl) (fun b => ?_)
      (fun _ => nameOf_dropParticipant.trans (nameOf_withoutMember hl))
      fun y hy => silent_of_mem_push hy
    rw [channelOf_dropParticipant]
    exact channelOf_insert (c := { c with channel := none, udpAddr := none }) rfl
  | @renamed newName c hl hne hlen =>
    rw [← channelOf_of_lookup hl]
    exact .renames rfl (nameOf_of_lookup hl) hne hlen (fun _ => channelOf_renamed hl)
      fun _ => nameOf_renamed
  | echoed => exact absurd rfl hno

theorem RoomChange.channelOf {name : String} {cmsg : ClientMessage}
    (h : RoomChange s a name cmsg s' acts) (hb : b ≠ a) : s'.channelOf b = s.channelOf b := by
  cases h with
  | nothing hroom | renames hmsg ho hne hlen hroom => exact hroom b
  | enters hin hout hroom | departs hin hn hroom => rw [hroom, if_neg hb]

theorem mem_announceName {ch : Option ChannelId} {o n : String} {y : Action} :
    y ∈ announceName a ch o n ↔ y = .send a (.nameChanged o n) ∨
      ∃ x, ch = some x ∧ y = .broadcast x (some a) (.nameChanged o n) := by
  cases ch <;> simp [announceName]

theorem filterMap_snapshotIn_announceName {ch : Option ChannelId} {o n : String} :
    (announceName a ch o n).filterMap snapshotIn = [] := by
  cases ch <;> rfl

/-- A handler has only such things left to do as a task may. -/
theorem RoomChange.maySay {name : String} {cmsg : ClientMessage}
    (h : RoomChange s a name cmsg s' acts) (hb : Bounded s) : ∀ y ∈ acts, MaySay s' a y := by
  cases h with
  | nothing hroom hname hacts => exact fun y hy => .silent (hacts y hy)
  | enters hin hout hroom hname hall hpush =>
    intro y hy
    rcases List.mem_cons.1 hy with rfl | hy
    · exact .tells .joined
    rcases List.mem_cons.1 hy with rfl | hy
    · exact .shows
    · exact .silent (hpush y hy)
  | departs hin hn hroom hname hpush =>
    intro y hy
    rcases List.mem_cons.1 hy with rfl | hy
    · exact .clears (by rw [hroom, if_pos rfl])
    rcases List.mem_cons.1 hy with rfl | hy
    · exact .tells .left
    · exact .silent (hpush y hy)
  | renames hmsg ho =>
    intro y hy
    rcases mem_announceName.1 hy with rfl | ⟨x, -, rfl⟩
    · exact .tells (.called (hb.name ho).1)
    · exact .tells (.renamed (hb.name ho).1)

theorem RoomChange.once {name : String} {cmsg : ClientMessage}
    (h : RoomChange s a name cmsg s' acts) : (acts.filterMap snapshotIn).length ≤ 1 := by
  cases h with
  | nothing hroom hname hacts => simp [filterMap_snapshotIn_of_silent hacts]
  | enters hin hout hroom hname hall hpush =>
    simp [List.filterMap_cons, snapshotIn, filterMap_snapshotIn_of_silent hpush]
  | departs hin hn hroom hname hpush =>
    simp [List.filterMap_cons, snapshotIn, filterMap_snapshotIn_of_silent hpush]
  | renames => simp [filterMap_snapshotIn_announceName]

/-! ## The discipline of what is said -/

/-- What one task does leaves the others with what they have to say. -/
theorem Voiced.local (hv : Voiced w) (t : Task)
    (hpend : ∀ b, some b ≠ t → w'.pending (some b) = w.pending (some b))
    (hroom : ∀ b, some b ≠ t → w.state.channelOf b = none → w'.state.channelOf b = none)
    (hin : ∀ b, some b ≠ t → b ∈ w'.state.clients → b ∈ w.state.clients)
    (hsend : ∀ b, some b ≠ t → b ∈ w.senders → b ∈ w'.senders)
    (hsweep : ∀ x ∈ w'.maintenance, Silent x)
    (hsay : ∀ a, t = some a → ∀ y ∈ w'.pending (some a), MaySay w'.state a y)
    (honce : ∀ a, t = some a → ((w'.pending (some a)).filterMap snapshotIn).length ≤ 1)
    (hqueue : ∀ a, t = some a → a ∈ w'.state.clients → a ∈ w'.senders ∨
      .openQueue a ∈ w'.pending (some a) ∨ .removeClient a ∈ w'.pending (some a)) :
    Voiced w' where
  spoken b y hy := by
    by_cases hb : some b = t
    · exact hsay b hb.symm y hy
    · rw [hpend b hb] at hy
      exact (hv.spoken b y hy).mono (hroom b hb)
  once b := by
    by_cases hb : some b = t
    · exact honce b hb.symm
    · rw [hpend b hb]
      exact hv.once b
  sweep := hsweep
  queued b hbin := by
    by_cases hb : some b = t
    · exact hqueue b hb.symm hbin
    · rw [hpend b hb]
      exact (hv.queued b (hin b hb hbin)).imp_left (hsend b hb)

/-- A client waiting for its next request has a queue. -/
theorem Voiced.mem_senders_of_idle (hv : Voiced w) (ha : a ∈ w.state.clients)
    (hidle : w.pending (some a) = []) : a ∈ w.senders := by
  have hq := hv.queued a ha
  rw [hidle] at hq
  simpa using hq

theorem mem_senders_act (hdrop : action ≠ .dropQueue b) (hb : b ∈ w.senders) :
    b ∈ (w.act env action).1.senders := by
  by_cases ho : ∃ a, action = .openQueue a
  · obtain ⟨a, rfl⟩ := ho
    exact Finmap.mem_insert.2 (.inr hb)
  by_cases hd : ∃ a, action = .dropQueue a
  · obtain ⟨a, rfl⟩ := hd
    refine Finmap.mem_erase.2 ⟨?_, hb⟩
    rintro rfl
    exact hdrop rfl
  · obtain ⟨q, hl⟩ := (mem_iff_lookup _ _).1 hb
    have hl' : (w.act env action).1.senders.lookup b = _ := World.lookup_senders_act
      (fun a ha => ho ⟨a, ha⟩) fun a ha => hd ⟨a, ha⟩
    rw [hl] at hl'
    exact Finmap.mem_of_lookup_eq_some hl'

theorem channelOf_removeClient :
    (w.act env (.removeClient a)).1.state.channelOf b =
      if b = a then none else w.state.channelOf b := by
  have hgone : ∀ i, (w.state.withoutClient a i).channelOf b =
      if b = a then none else w.state.channelOf b := by
    intro i
    rw [ServerState.channelOf, ServerState.withoutClient, lookup_erase_if]
    split <;> rfl
  cases hl : w.state.clients.lookup a with
  | none =>
    rw [World.act_removeClient_of_notMem ((notMem_iff_lookup _ _).2 hl)]
    split
    · rename_i hb
      rw [hb, ServerState.channelOf, hl]
      rfl
    · rfl
  | some i =>
    rw [World.act_removeClient_of_lookup hl]
    cases i.channel with
    | none => exact hgone i
    | some ch => exact channelOf_dropParticipant.trans (hgone i)

/-- Taking a client out of the registry aside, an action leaves the clients where they are. -/
theorem channelOf_act (hb : action ≠ .removeClient b) :
    (w.act env action).1.state.channelOf b = w.state.channelOf b := by
  by_cases hr : ∃ a, action = .removeClient a
  · obtain ⟨a, rfl⟩ := hr
    have hba : b ≠ a := fun h => hb (by rw [h])
    rw [channelOf_removeClient, if_neg hba]
  · rw [World.state_act fun a ha => hr ⟨a, ha⟩]

/-- An action puts nobody into a channel. -/
theorem channelOf_act_none (h : w.state.channelOf b = none) :
    (w.act env action).1.state.channelOf b = none := by
  by_cases hr : action = .removeClient b
  · rw [hr, channelOf_removeClient, if_pos rfl]
  · rwa [channelOf_act hr]

theorem mem_clients_act (h : b ∈ (w.act env action).1.state.clients) :
    b ∈ w.state.clients ∧ action ≠ .removeClient b := by
  by_contra hn
  have hgone : (w.act env action).1.state.nameOf b = none := by
    rw [nameOf_act]
    split
    · rfl
    · rename_i hr
      exact nameOf_eq_none.2 fun hin => hn ⟨hin, hr⟩
  exact nameOf_eq_none.1 hgone h

/-- A client is accepted: it opens its queue and greets. -/
theorem Voiced.accepted (hv : Voiced w) (ho : Orderly w) (ha : a ∉ w.connections) :
    Voiced (w.put (w.state.registered a) a ⟨w.state.nextName, [.openQueue a,
      .send a (.welcome Config.packageVersion Config.protocolVersion),
      .send a (.nameChanged "" w.state.nextName)]⟩) := by
  have hout : a ∉ w.state.clients := fun h => ha (ho.mem_connections h)
  have hroom : ∀ b, (w.state.registered a).channelOf b = w.state.channelOf b := by
    intro b
    refine (channelOf_insert (c := ⟨w.state.nextName, none, none, none⟩) rfl).trans ?_
    split
    · rename_i hba
      rw [hba, ServerState.channelOf, (notMem_iff_lookup _ _).1 hout]
      rfl
    · rfl
  refine hv.local (some a) (fun b hba => ?_) (fun b _ h => (hroom b).trans h) (fun b hba h => ?_)
    (fun _ _ h => h) hv.sweep ?_ ?_ ?_
  · rw [World.pending_put, if_neg hba]
  · exact (Finmap.mem_insert.1 h).resolve_left fun h => hba (congrArg some h)
  · intro b hb y hy
    cases hb
    have hnone : (w.state.registered a).channelOf a = none := by
      rw [hroom, ServerState.channelOf, (notMem_iff_lookup _ _).1 hout]
      rfl
    rw [World.pending_put, if_pos rfl] at hy
    simp only [List.mem_cons, List.not_mem_nil, or_false] at hy
    rcases hy with rfl | rfl | rfl
    · exact .opens hnone
    · exact .silent trivial
    · exact .greets
  · intro b hb
    cases hb
    rw [World.pending_put, if_pos rfl]
    exact Nat.zero_le 1
  · rintro b hb -
    cases hb
    rw [World.pending_put, if_pos rfl]
    exact .inr (.inl List.mem_cons_self)

/-- A request is handled: the client says what it may about its channel. -/
theorem Voiced.handled (hv : Voiced w) (ho : Orderly w) (hb : Bounded w.state)
    {cmsg : ClientMessage} (hno : cmsg ≠ .startEchoTest) {conn : Connection} {name : String}
    {acts : List Action} (hl : w.connections.lookup a = some conn) (hidle : conn.pending = [])
    (h : Handled env w.state a conn.name cmsg s' name acts) :
    Voiced (w.put s' a ⟨name, acts⟩) := by
  have hc := h.roomChange hno
  have hidle' : w.pending (some a) = [] := by rw [World.pending_some_of_lookup hl, hidle]
  have hin : ∀ b, b ∈ s'.clients → b ∈ w.state.clients := by
    intro b hbin
    by_contra hn
    rw [← nameOf_eq_none] at hn
    have hconn : ∀ n, w.state.nameOf a = some n → n = conn.name := by
      intro n hna
      have hcn := ho.named a n hna
      rw [World.connName, hl] at hcn
      exact (Option.some.inj hcn).symm
    obtain ⟨hothers, -, hgone⟩ := h.nameOf hconn
    refine nameOf_eq_none.1 ?_ hbin
    by_cases hba : b = a
    · exact hba ▸ hgone.2 (hba ▸ hn)
    · exact (hothers b hba).trans hn
  refine hv.local (some a) (fun b hba => ?_) (fun b hba h => ?_) (fun b _ => hin b)
    (fun _ _ h => h) hv.sweep ?_ ?_ ?_
  · rw [World.pending_put, if_neg hba]
  · exact (hc.channelOf fun h => hba (congrArg some h)).trans h
  · intro b hba y hy
    cases hba
    rw [World.pending_put, if_pos rfl] at hy
    exact hc.maySay hb y hy
  · intro b hba
    cases hba
    rw [World.pending_put, if_pos rfl]
    exact hc.once
  · intro b hba hbin
    cases hba
    exact .inl (hv.mem_senders_of_idle (hin a hbin) hidle')

/-- A client that waits for nothing gets something to do that says nothing to others. -/
theorem Voiced.silenced (hv : Voiced w) (ha : a ∈ w.connections) (hidle : w.pending (some a) = [])
    {acts : List Action} (hacts : ∀ x ∈ acts, Silent x) :
    Voiced (w.setPending (some a) acts) := by
  refine hv.local (some a) (fun b hba => ?_) (fun b _ h => ?_) (fun b _ h => ?_)
    (fun b _ h => ?_) hv.sweep ?_ ?_ ?_
  · rw [World.pending_setPending (t := some a) ha, if_neg hba]
  · rwa [World.state_setPending]
  · rwa [World.state_setPending] at h
  · rwa [World.senders_setPending]
  · intro b hba y hy
    cases hba
    rw [World.pending_setPending (t := some a) ha, if_pos rfl] at hy
    exact .silent (hacts y hy)
  · intro b hba
    cases hba
    rw [World.pending_setPending (t := some a) ha, if_pos rfl]
    rw [filterMap_snapshotIn_of_silent hacts]
    exact Nat.zero_le 1
  · intro b hba hbin
    cases hba
    rw [World.state_setPending] at hbin
    refine .inl ?_
    rw [World.senders_setPending]
    exact hv.mem_senders_of_idle hbin hidle

/-- A task does its next action. -/
theorem Voiced.advanced (hv : Voiced w) (ho : Orderly w) {rest : List Action}
    (h : w.pending t = action :: rest) :
    Voiced ((w.act env action).1.setPending t ((w.act env action).2 ++ rest)) := by
  have hpend := fun u => ho.pending_advance env (u := u) h
  have hends := ho.ends h
  have hsaid : ∀ a, t = some a → MaySay w.state a action := by
    rintro a rfl
    exact hv.spoken a action (h ▸ List.mem_cons_self)
  refine hv.local t (fun b hbt => ?_) (fun b _ hout => ?_) (fun b _ hin => ?_)
    (fun b hbt hin => ?_) (fun x hx => ?_) ?_ ?_ ?_
  · rw [hpend, if_neg hbt]
  · rw [World.state_setPending]
    exact channelOf_act_none hout
  · rw [World.state_setPending] at hin
    exact (mem_clients_act hin).1
  · rw [World.senders_setPending]
    refine mem_senders_act ?_ hin
    rintro rfl
    exact hbt (hends.1 b rfl).1.symm
  · have hmain := hpend none
    rw [World.pending] at hmain
    rw [hmain] at hx
    split at hx
    · rename_i ht
      have hp : w.maintenance = action :: rest := by rw [← h, ← ht]; rfl
      have hsilent : Silent action := hv.sweep action (hp ▸ List.mem_cons_self)
      rcases List.mem_append.1 hx with hx | hx
      · refine (mem_act_cases hsilent.routesPlain hx).resolve_right ?_
        rintro ⟨⟨b, rfl⟩, -⟩
        exact absurd (hends.2.1 b rfl).1 (ht ▸ by simp)
      · exact hv.sweep x (hp ▸ List.mem_cons_of_mem _ hx)
    · exact hv.sweep x hx
  · rintro a rfl y hy
    rw [hpend, if_pos rfl] at hy
    rw [World.state_setPending]
    rcases List.mem_append.1 hy with hy | hy
    · rcases mem_act_cases (hsaid a rfl).routesPlain hy with hy | ⟨-, ch, n, rfl⟩
      · exact .silent hy
      · exact .tells .left
    · exact (hv.spoken a y (h ▸ List.mem_cons_of_mem _ hy)).mono channelOf_act_none
  · rintro a rfl
    rw [hpend, if_pos rfl, List.filterMap_append, List.length_append]
    have honce := hv.once a
    rw [h] at honce
    rw [filterMap_snapshotIn_act (hsaid a rfl).routesPlain]
    refine le_trans ?_ honce
    simp only [List.length_nil, Nat.zero_add, List.filterMap_cons]
    split <;> simp
  · rintro a rfl hin
    rw [World.state_setPending] at hin
    obtain ⟨hin, hrem⟩ := mem_clients_act hin
    rw [World.senders_setPending, hpend, if_pos rfl]
    have hq := hv.queued a hin
    rw [h, List.mem_cons, List.mem_cons] at hq
    rcases hq with hq | (rfl | hq) | (hq | hq)
    · by_cases hdrop : action = .dropQueue a
      · subst hdrop
        obtain ⟨-, rfl⟩ := hends.1 a rfl
        exact .inr (.inr (List.mem_append_right _ List.mem_cons_self))
      · exact .inl (mem_senders_act hdrop hq)
    · exact .inl (Finmap.mem_insert.2 (.inl rfl))
    · exact .inr (.inl (List.mem_append_right _ hq))
    · exact absurd hq.symm hrem
    · exact .inr (.inr (List.mem_append_right _ hq))

/-- **Every step keeps the discipline of what is said.** -/
theorem Voiced.move (hv : Voiced w) (ho : Orderly w) (hb : Bounded w.state)
    (hno : ∀ a, ev ≠ .request a .startEchoTest) (hm : World.Move env w ev w') : Voiced w' := by
  cases hm with
  | turnedAway => exact hv
  | accepted ha => exact hv.accepted ho ha
  | @handled a _ _ _ _ _ hl hidle h =>
    exact hv.handled ho hb (fun he => hno a (he ▸ rfl)) hl hidle h
  | limited ha hidle =>
    refine hv.silenced ha hidle fun x hx => ?_
    rw [List.mem_singleton.1 hx]
    trivial
  | hungUp ha hidle => exact hv.silenced ha hidle (by simp [Silent])
  | advanced h => exact hv.advanced ho h
  | swept hidle =>
    refine hv.local none (fun _ _ => rfl) (fun b _ h => ?_) (fun b _ h => ?_) (fun _ _ h => h)
      (fun x hx => ?_) (by simp) (by simp) (by simp)
    · exact channelOf_cleanupWith.trans h
    · exact (cleanupWith_clients (s := w.state)) ▸ h
    · simp only [World.sweep] at hx
      split at hx
      · obtain rfl := List.mem_singleton.1 hx
        trivial
      · exact absurd hx List.not_mem_nil
  | greeted =>
    refine hv.local none (fun _ _ => rfl) (fun b _ h => ?_) (fun b _ h => ?_) (fun _ _ h => h)
      hv.sweep (by simp) (by simp) (by simp)
    · exact channelOf_registerUdpByToken.trans h
    · by_contra hn
      rw [← nameOf_eq_none] at hn
      exact nameOf_eq_none.1 (nameOf_registerUdpByToken.trans hn) h
  | shutDown =>
    refine hv.local none (fun b _ => ?_) (fun b _ h => ?_) (fun b _ h => ?_) (fun b _ h => ?_)
      (fun x hx => ?_) (by simp) (by simp) (by simp)
    · rw [World.enqueueAll_eq]
      rfl
    · rwa [World.enqueueAll_eq]
    · rwa [World.enqueueAll_eq] at h
    · have hnd : (env.addrOrder.toList w.senders.keys.val).Nodup :=
        env.addrOrder.nodup_toList.2 w.senders.keys.nodup
      obtain ⟨q, hl⟩ := (mem_iff_lookup _ _).1 h
      have hl' : (w.enqueueAll (.error "server shutting down") _).senders.lookup b = _ :=
        World.lookup_senders_enqueueAll hnd
      rw [hl] at hl'
      exact Finmap.mem_of_lookup_eq_some hl'
    · rw [World.enqueueAll_eq] at hx
      exact hv.sweep x hx

end Lemmas

end Server
end TcVoice
