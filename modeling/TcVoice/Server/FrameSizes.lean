import TcVoice.Server.Bounds
import TcVoice.Shared.Bincode
import TcVoice.Shared.Framing

/-!
# The size of the server's frames

A reader refuses a frame beyond `MAX_FRAME_SIZE`, and the server sends what it sends
without asking: names, identity keys and chat texts are bounded, channel ids and the
number of channels and members are not.

* `RequestFits`, `FrameSafe` — the requests and pushes whose answer fits: an id short
  enough to be quoted in an error, a channel whose participants fit one frame, a list of
  public channels that fits one.
* `FramesFit` — everything in a queue, and everything a task has still to send, fits.
* `FramesFit.move` — every step with an answer that fits keeps it so.
* `frames_fit` — **in a run of such steps no client is ever sent a frame beyond the
  limit, and its reader receives the frames in order without disconnecting**;
  `long_channel_disconnects` is a run where one client's channel disconnects another.
-/

namespace TcVoice
namespace Server

open Runs Table ServerState

/-- A message that fits one frame. -/
def Fits (msg : ServerMessage) : Prop := msg.serializedSize ≤ Config.maxFrameSize

/-- An action that sends, now or later, only what fits one frame. -/
def Action.Fits : Action → Prop
  | .send _ msg | .broadcast _ _ msg | .routeDirect _ _ msg => Server.Fits msg
  | .fanOut channels => Server.Fits (.channelList channels)
  | _ => True

namespace ServerState

/-- The size of the list of the public channels. -/
def listSize (s : ServerState) : ℕ :=
  4 + (8 + (s.publicChannels.map ChannelInfo.serializedSize).sum)

/-- The size of the answer to a client that joins a channel. -/
def joinSize (s : ServerState) (a : SocketAddr) (ch : ChannelId) : ℕ :=
  4 + stringSize ch +
    (8 + (((s.nameOf a).map stringSize).getD 0 + ((s.memberNames ch).map stringSize).sum)) +
    8 + (8 + Config.voiceKeyLen)

end ServerState

/-- A request whose answer fits one frame.  The numbers are what the fixed part of the
answer leaves of the limit. -/
def RequestFits (s : ServerState) (a : SocketAddr) : ClientMessage → Prop
  | .createChannel (some name) => s.channelsFull = true ∨
    byteLen name ≤ if Config.publicChannelPrefix ++ name ∈ s.channels then 65495 else 65520
  | .joinChannel ch =>
    if ch ∈ s.channels then (s.channelOf a).isSome = true ∨ s.joinSize a ch ≤ Config.maxFrameSize
    else byteLen ch ≤ 65504
  | .listChannels => s.listSize ≤ Config.maxFrameSize
  | _ => True

/-- A step that prepares only what fits one frame. -/
def FrameSafe (w : World) (e : Env × World.Event) : Prop :=
  match e.2 with
  | .request a msg => RequestFits w.state a msg
  | .advance t => (w.pending t).head? = some .readChannelList →
    w.state.listSize ≤ Config.maxFrameSize
  | _ => True

instance (s : ServerState) (a : SocketAddr) : (msg : ClientMessage) →
    Decidable (RequestFits s a msg)
  | .createChannel (some _) => inferInstanceAs (Decidable (_ ∨ _))
  | .joinChannel _ => inferInstanceAs (Decidable (ite _ _ _))
  | .listChannels => inferInstanceAs (Decidable (_ ≤ _))
  | .createChannel none | .hello .. | .leaveChannel | .chatMessage .. | .directMessage ..
  | .setName .. | .ping | .startEchoTest | .stopEchoTest => isTrue trivial

instance (w : World) (e : Env × World.Event) : Decidable (FrameSafe w e) :=
  match e with
  | (_, .request a msg) => inferInstanceAs (Decidable (RequestFits w.state a msg))
  | (_, .advance _) => inferInstanceAs (Decidable (_ → _))
  | (_, .accept _) | (_, .rateLimited _) | (_, .hangUp _) | (_, .tick) | (_, .udpHello ..)
  | (_, .shutdown) => isTrue trivial

/-- Everything in a queue, and everything that a task has still to send, fits one frame. -/
structure FramesFit (w : World) : Prop where
  queues : ∀ c q, w.senders.lookup c = some q → ∀ msg ∈ q, Fits msg
  pending : ∀ t, ∀ x ∈ w.pending t, x.Fits
  names : ∀ a n, w.connName a = some n → byteLen n ≤ Config.maxNameLen

section Lemmas

variable {env : Env} {s s' : ServerState} {w w' : World} {a c : SocketAddr} {ch id : ChannelId}
  {acts : List Action} {action : Action} {msg : ServerMessage} {ev : World.Event}

/-! ## What fits -/

theorem fits_error {err : String} (h : byteLen err ≤ 65524) : Fits (.error err) := by
  simp only [Fits, ServerMessage.serializedSize, stringSize, Config.maxFrameSize]
  omega

theorem fits_peerJoined {n : String} (h : byteLen n ≤ Config.maxNameLen) :
    Fits (.peerJoined n) := by
  simp only [Config.maxNameLen] at h
  simp only [Fits, ServerMessage.serializedSize, stringSize, Config.maxFrameSize]
  omega

theorem fits_peerLeft {n : String} (h : byteLen n ≤ Config.maxNameLen) : Fits (.peerLeft n) :=
  fits_peerJoined h

theorem fits_nameChanged {o n : String} (ho : byteLen o ≤ Config.maxNameLen)
    (hn : byteLen n ≤ Config.maxNameLen) : Fits (.nameChanged o n) := by
  simp only [Config.maxNameLen] at ho hn
  simp only [Fits, ServerMessage.serializedSize, stringSize, Config.maxFrameSize]
  omega

theorem fits_chatMessage {n text : String} (hn : byteLen n ≤ Config.maxNameLen)
    (ht : byteLen text ≤ Config.maxChatLen) : Fits (.chatMessage n text) := by
  simp only [Config.maxNameLen, Config.maxChatLen] at hn ht
  simp only [Fits, ServerMessage.serializedSize, stringSize, Config.maxFrameSize]
  omega

theorem fits_directMessage {pk : Bytes} {n text : String} (hpk : pk.length = 32)
    (hn : byteLen n ≤ Config.maxNameLen) (ht : byteLen text ≤ Config.maxChatLen) :
    Fits (.directMessage pk n text) := by
  simp only [Config.maxNameLen, Config.maxChatLen] at hn ht
  simp only [Fits, ServerMessage.serializedSize, stringSize, bytesSize, Config.maxFrameSize]
  omega

theorem fits_channelCreated (h : byteLen id ≤ 65524) : Fits (.channelCreated id) := fits_error h

theorem fits_echoTestReady {token : UInt64} {key : Bytes} (hid : byteLen id ≤ 65476)
    (hkey : key.length = Config.voiceKeyLen) : Fits (.echoTestReady id token key) := by
  simp only [Config.voiceKeyLen] at hkey
  simp only [Fits, ServerMessage.serializedSize, stringSize, bytesSize, Config.maxFrameSize]
  omega

/-- The list fits where its size does, in whatever order it comes. -/
theorem fits_channelList (h : s.listSize ≤ Config.maxFrameSize) :
    Fits (.channelList (s.listPublicChannels env)) := by
  have hsum : ((s.listPublicChannels env).map ChannelInfo.serializedSize).sum =
      (s.publicChannels.map ChannelInfo.serializedSize).sum := by
    rw [← Multiset.sum_coe, ← Multiset.map_coe, listPublicChannels, env.listOrder.coe_toList]
  rw [Fits, ServerMessage.serializedSize, hsum]
  exact h

/-- Whoever joins finds itself and those that were there. -/
theorem memberNames_joined {token : UInt64} {i : ClientInfo} (hl : s.clients.lookup a = some i)
    (hout : i.channel = none) :
    (s.joined env a ch token).memberNames ch = i.name ::ₘ s.memberNames ch := by
  rw [memberNames, clients_joined hl, collect_insert, memberNames, collect_of_lookup hl]
  simp [hout]

theorem fits_joinedChannel {token : UInt64} {key : Bytes} (ha : a ∈ s.clients)
    (hout : s.channelOf a = none) (hkey : key.length ≤ Config.voiceKeyLen)
    (h : s.joinSize a ch ≤ Config.maxFrameSize) :
    Fits (.joinedChannel ch (env.nameOrder.toList ((s.joined env a ch token).memberNames ch))
      token key) := by
  obtain ⟨i, hl⟩ := (mem_iff_lookup _ _).1 ha
  rw [channelOf_of_lookup hl] at hout
  have hsum : ((env.nameOrder.toList ((s.joined env a ch token).memberNames ch)).map
      stringSize).sum = stringSize i.name + ((s.memberNames ch).map stringSize).sum := by
    rw [← Multiset.sum_coe, ← Multiset.map_coe, env.nameOrder.coe_toList,
      memberNames_joined hl hout, Multiset.map_cons, Multiset.sum_cons]
  rw [joinSize, nameOf_of_lookup hl, Option.map_some, Option.getD_some] at h
  rw [Fits, ServerMessage.serializedSize, hsum, bytesSize]
  omega

/-! ## What a request is refused with -/

theorem joinChannel_error {err : String} (h : s.joinChannel env a ch = some (.error err, s')) :
    (ch ∉ s.channels ∧ err = "channel '" ++ ch ++ "' not found") ∨
      err ∈ ["client not registered", "already in a channel, leave first"] := by
  unfold joinChannel at h
  split at h
  · rename_i hch
    cases h
    exact .inl ⟨hch, rfl⟩
  · split at h
    · cases h
      exact .inr (by simp)
    · split at h
      · cases h
        exact .inr (by simp)
      · obtain ⟨token, -, he⟩ := Option.map_eq_some_iff.1 h
        cases he

theorem startEchoTest_error {err : String} (h : s.startEchoTest env a = some (.error err, s')) :
    err ∈ ["channel limit reached", "client not registered",
      "already in a channel, leave first"] := by
  unfold startEchoTest at h
  split at h
  · cases h
    simp
  · split at h
    · cases h
      simp
    · split at h
      · cases h
        simp
      · obtain ⟨id, -, h⟩ := Option.bind_eq_some_iff.1 h
        obtain ⟨token, -, he⟩ := Option.map_eq_some_iff.1 h
        cases he

/-- A refusal fits one frame, for a request that does. -/
theorem Refusal.fits {cmsg : ClientMessage} {err : String} (h : Refusal env s a cmsg err)
    (hfit : RequestFits s a cmsg) : Fits (.error err) := by
  have hshort : ∀ errs : List String, (∀ e ∈ errs, byteLen e ≤ 65524) → err ∈ errs →
      Fits (.error err) := fun errs hall hmem => fits_error (hall err hmem)
  cases cmsg with
  | createChannel name =>
    rcases createChannel_error h with ⟨-, rfl⟩ | ⟨n, rfl, hfull, hid, rfl⟩
    · exact fits_error (by decide)
    · rw [RequestFits, if_pos hid, hfull] at hfit
      have hn := hfit.resolve_left (by simp)
      have hbefore : byteLen "channel '" = 9 := by decide
      have hafter : byteLen "' already exists" = 16 := by decide
      refine fits_error ?_
      rw [byteLen_append, byteLen_append, byteLen_append, hbefore, hafter,
        byteLen_publicChannelPrefix]
      omega
  | joinChannel ch =>
    rcases joinChannel_error h with ⟨hch, rfl⟩ | hmem
    · rw [RequestFits, if_neg hch] at hfit
      have hbefore : byteLen "channel '" = 9 := by decide
      have hafter : byteLen "' not found" = 11 := by decide
      refine fits_error ?_
      rw [byteLen_append, byteLen_append, hbefore, hafter]
      omega
    · exact hshort _ (by decide) hmem
  | leaveChannel | stopEchoTest | chatMessage | setName =>
    obtain rfl := h
    exact fits_error (by decide)
  | directMessage => exact hshort _ (by decide) h
  | startEchoTest => exact hshort _ (by decide) (startEchoTest_error h)
  | hello | listChannels | ping => exact h.elim

/-- A channel is created only where the limit has not been reached. -/
theorem channelsFull_of_created {name : Option String} (hid : id ∉ s.channels)
    (hr : exec env s (.createChannel name) = some (s.addChannel env id)) :
    s.channelsFull = false := by
  by_contra hfull
  rw [Bool.not_eq_false] at hfull
  simp only [exec, createChannel, hfull, if_pos, Option.map_some, Option.some.injEq] at hr
  have hin : id ∈ s.channels := by
    rw [hr]
    exact Finmap.mem_insert.2 (.inl rfl)
  exact hid hin

/-- The id of a channel that a fitting request creates fits the reply. -/
theorem byteLen_created {name : Option String} (hid : id ∉ s.channels) (hname : IdFor name id)
    (hr : exec env s (.createChannel name) = some (s.addChannel env id))
    (hfit : RequestFits s a (.createChannel name)) : byteLen id ≤ 65524 := by
  cases name with
  | none =>
    obtain ⟨draw, rfl⟩ := hname
    rw [byteLen_generateChannelId]
    decide
  | some n =>
    obtain rfl : id = Config.publicChannelPrefix ++ n := hname
    rw [RequestFits, if_neg hid, channelsFull_of_created hid hr] at hfit
    have hn := hfit.resolve_left (by simp)
    rw [byteLen_append, byteLen_publicChannelPrefix]
    omega

/-! ## One step -/

theorem fits_of_mem_push (h : action ∈ pushIfPublic ch) : action.Fits := by
  rw [(mem_pushIfPublic.1 h).1]
  trivial

/-- A request whose answer fits leaves only actions that fit, and a name that is not too long. -/
theorem Handled.fits {name name' : String} {cmsg : ClientMessage}
    (h : Handled env s a name cmsg s' name' acts) (hb : Bounded s)
    (hname : byteLen name ≤ Config.maxNameLen) (hfit : RequestFits s a cmsg) :
    (∀ x ∈ acts, x.Fits) ∧ byteLen name' ≤ Config.maxNameLen := by
  have hone : ∀ {x : Action}, x.Fits → ∀ y ∈ [x], y.Fits := by
    intro x hx y hy
    obtain rfl := List.mem_singleton.1 hy
    exact hx
  cases h with
  | refused h => exact ⟨hone (h.fits hfit), hname⟩
  | ignored | bound => exact ⟨fun x hx => absurd hx List.not_mem_nil, hname⟩
  | @created chanName id hid hidFor hr =>
    refine ⟨fun x hx => ?_, hname⟩
    rcases List.mem_cons.1 hx with rfl | hx
    · exact fits_channelCreated (byteLen_created hid hidFor hr hfit)
    · exact fits_of_mem_push hx
  | @joined ch token hch ha hout hr =>
    refine ⟨fun x hx => ?_, hname⟩
    rcases List.mem_cons.1 hx with rfl | hx
    · exact fits_peerJoined hname
    rcases List.mem_cons.1 hx with rfl | hx
    · rw [RequestFits, if_pos hch] at hfit
      have hb' : Bounded (s.joined env a ch token) :=
        hb.change (admitted_of_plain (by simp) (by simp) (by simp)) (exec_change hr)
      refine fits_joinedChannel ha hout ?_ (hfit.resolve_left (by simp [hout]))
      cases hk : (s.joined env a ch token).channelKeys.lookup ch with
      | none => exact Nat.zero_le _
      | some k => exact (hb'.key ch k hk).le
    · exact fits_of_mem_push hx
  | @left cmsg i ch hmsg hl =>
    refine ⟨fun x hx => ?_, hname⟩
    rcases List.mem_cons.1 hx with rfl | hx
    · show ServerMessage.serializedSize .leftChannel ≤ Config.maxFrameSize
      decide
    rcases List.mem_cons.1 hx with rfl | hx
    · exact fits_peerLeft (hb.client a i hl).name_le
    · exact fits_of_mem_push hx
  | said hlen => exact ⟨hone (fits_chatMessage hname hlen), hname⟩
  | routed hlen hl hkey =>
    exact ⟨hone (fits_directMessage ((hb.client a _ hl).pubkey _ hkey) hname hlen), hname⟩
  | @renamed newName i hl hne hlen =>
    refine ⟨fun x hx => ?_, hlen⟩
    have hchanged := fits_nameChanged (hb.client a i hl).name_le hlen
    rcases List.mem_cons.1 hx with rfl | hx
    · exact hchanged
    · cases hch : i.channel with
      | none => simp [hch] at hx
      | some ch =>
        simp only [hch, List.mem_singleton] at hx
        obtain rfl := hx
        exact hchanged
  | listed => exact ⟨hone (fits_channelList hfit), hname⟩
  | pinged =>
    refine ⟨hone ?_, hname⟩
    show ServerMessage.serializedSize .pong ≤ Config.maxFrameSize
    decide
  | echoed hid ha hout hdraw =>
    obtain ⟨draw, rfl⟩ := hdraw
    refine ⟨hone (fits_echoTestReady ?_ (length_key env.key)), hname⟩
    rw [byteLen_append, byteLen_generateChannelId]
    decide

/-- An action that fits leaves only actions that fit, if the list it reads does. -/
theorem fits_of_mem_act (hb : Bounded w.state) (hx : action.Fits)
    (hlist : action = .readChannelList → w.state.listSize ≤ Config.maxFrameSize) {y : Action}
    (hy : y ∈ (w.act env action).2) : y.Fits := by
  cases leaves_of_mem_act hy with
  | listed => exact fits_channelList (hlist rfl)
  | pushed | routed => exact hx
  | unreachable => exact fits_error (by decide)
  | gone hin hn => exact fits_peerLeft (hb.name hn).2
  | push => trivial

theorem Action.Fits.addressed (h : action.Fits) (hadd : action.addressed s c = some msg) :
    Server.Fits msg := by
  rcases Action.addressed_eq_some hadd with rfl | ⟨ch, ex, rfl, -⟩ <;> exact h

/-- An action that fits puts only messages that fit into the queues. -/
theorem fits_of_mem_senders_act (hf : FramesFit w) (hx : action.Fits) {q : List ServerMessage}
    (hl : (w.act env action).1.senders.lookup c = some q) : ∀ msg ∈ q, Fits msg := by
  by_cases ho : ∃ b, action = .openQueue b
  · obtain ⟨b, rfl⟩ := ho
    rw [World.act, lookup_insert_if] at hl
    split at hl
    · cases hl
      simp
    · exact hf.queues c q hl
  by_cases hd : ∃ b, action = .dropQueue b
  · obtain ⟨b, rfl⟩ := hd
    rw [World.act, lookup_erase_if] at hl
    split at hl
    · exact absurd hl (by simp)
    · exact hf.queues c q hl
  rw [World.lookup_senders_act (fun b hb => ho ⟨b, hb⟩) fun b hb => hd ⟨b, hb⟩] at hl
  obtain ⟨q₀, hl₀, rfl⟩ := Option.map_eq_some_iff.1 hl
  intro msg hmsg
  rcases List.mem_append.1 hmsg with hmsg | hmsg
  · exact hf.queues c q₀ hl₀ msg hmsg
  · exact hx.addressed (Option.mem_toList.1 hmsg)

/-- A connection's task stands at something that fits. -/
theorem FramesFit.put (hf : FramesFit w) {conn : Connection}
    (hacts : ∀ x ∈ conn.pending, x.Fits) (hname : byteLen conn.name ≤ Config.maxNameLen) :
    FramesFit (w.put s' a conn) where
  queues := hf.queues
  pending t x hx := by
    rw [World.pending_put] at hx
    split at hx
    · exact hacts x hx
    · exact hf.pending t x hx
  names b n hb := by
    rw [World.connName_put] at hb
    split at hb
    · exact Option.some.inj hb ▸ hname
    · exact hf.names b n hb

/-- A task does its next action, whose answer fits. -/
theorem FramesFit.advanced {t : Task} {action : Action} {rest : List Action} (hf : FramesFit w)
    (ho : Orderly w) (hb : Bounded w.state) (hsafe : FrameSafe w (env, .advance t))
    (h : w.pending t = action :: rest) :
    FramesFit ((w.act env action).1.setPending t ((w.act env action).2 ++ rest)) := by
  have hx : action.Fits := hf.pending t action (h ▸ List.mem_cons_self)
  refine ⟨fun c q hl => ?_, fun u x hxu => ?_, fun b n hn => ?_⟩
  · rw [World.senders_setPending] at hl
    exact fits_of_mem_senders_act hf hx hl
  · rw [ho.pending_advance env h] at hxu
    split at hxu
    · rcases List.mem_append.1 hxu with hxu | hxu
      · refine fits_of_mem_act hb hx (fun hread => ?_) hxu
        exact hsafe (by rw [h, hread, List.head?_cons])
      · exact hf.pending t x (h ▸ List.mem_cons_of_mem _ hxu)
    · exact hf.pending u x hxu
  · rw [World.connName_setPending] at hn
    by_cases hc : action = .close b
    · rw [hc, World.connName, World.act, lookup_erase_if, if_pos rfl] at hn
      exact absurd hn (by simp)
    · rw [connName_act hc] at hn
      exact hf.names b n hn

/-- **Every step whose answer fits keeps everything within one frame.** -/
theorem FramesFit.move (hf : FramesFit w) (ho : Orderly w) (hb : Bounded w.state)
    (hsafe : FrameSafe w (env, ev)) (hm : World.Move env w ev w') : FramesFit w' := by
  cases hm with
  | turnedAway => exact hf
  | @accepted a ha =>
    have hname := (byteLen_nextName w.state).2
    refine hf.put (fun x hx => ?_) hname
    simp only [List.mem_cons, List.not_mem_nil, or_false] at hx
    rcases hx with rfl | rfl | rfl
    · trivial
    · show ServerMessage.serializedSize (.welcome _ _) ≤ Config.maxFrameSize
      decide
    · exact fits_nameChanged (by decide) hname
  | @handled a cmsg conn s' name acts hl hidle h =>
    have hconn : byteLen conn.name ≤ Config.maxNameLen :=
      hf.names a conn.name (by rw [World.connName, hl, Option.map_some])
    obtain ⟨hacts, hname⟩ := h.fits hb hconn hsafe
    exact hf.put hacts hname
  | @limited a ha hidle | @hungUp a ha hidle =>
    obtain ⟨conn, hl⟩ := (mem_iff_lookup _ _).1 ha
    have hname : w.connName a = some conn.name := by rw [World.connName, hl, Option.map_some]
    rw [World.setPending_of_lookup hl]
    refine hf.put (fun x hx => ?_) (hf.names a conn.name hname)
    simp only [List.mem_cons, List.not_mem_nil, or_false] at hx
    first
    | obtain rfl := hx
      exact fits_error (by decide)
    | rcases hx with rfl | rfl | rfl <;> trivial
  | advanced h => exact hf.advanced ho hb hsafe h
  | swept =>
    refine ⟨hf.queues, fun t x hx => ?_, hf.names⟩
    cases t with
    | some b => exact hf.pending (some b) x hx
    | none =>
      simp only [World.pending, World.sweep] at hx
      split at hx
      · obtain rfl := List.mem_singleton.1 hx
        trivial
      · exact absurd hx List.not_mem_nil
  | greeted => exact ⟨hf.queues, hf.pending, hf.names⟩
  | shutDown =>
    have hnd : (env.addrOrder.toList w.senders.keys.val).Nodup :=
      env.addrOrder.nodup_toList.2 w.senders.keys.nodup
    refine ⟨fun c q hl => ?_, fun t x hx => ?_, fun b n hn => ?_⟩
    · rw [World.lookup_senders_enqueueAll hnd] at hl
      obtain ⟨q₀, hl₀, rfl⟩ := Option.map_eq_some_iff.1 hl
      intro msg hmsg
      rcases List.mem_append.1 hmsg with hmsg | hmsg
      · exact hf.queues c q₀ hl₀ msg hmsg
      · split at hmsg
        · obtain rfl := List.mem_singleton.1 hmsg
          exact fits_error (by decide)
        · exact absurd hmsg List.not_mem_nil
    · rw [World.enqueueAll_eq] at hx
      exact hf.pending t x hx
    · rw [World.enqueueAll_eq] at hn
      exact hf.names b n hn

end Lemmas

/-! ## Runs -/

theorem framesFit_listening (s : ServerState) : FramesFit (.listening s) where
  queues c q hl := absurd hl (by simp [World.listening])
  pending t x hx := by cases t <;> exact absurd hx List.not_mem_nil
  names a n hn := absurd hn (by simp [World.connName, World.listening])

/-- **When the frames fit.**  Take any run of the server, its tasks interleaved in any
order, each of whose steps has an answer that fits one frame.  Then no frame in any
client's queue has a payload beyond the limit, and however the stream of them is cut into
reads, the client's reader has received a beginning of it in order and is still reading. -/
theorem frames_fit (bincode : Bincode) (limits : Limits) (s : ServerState)
    (hs : Started limits s) (es : List (Env × World.Event)) (w : World)
    (hok : EachStep World.step FrameSafe (.listening s) es)
    (hrun : runFrom World.step (.listening s) es = some w)
    (c : SocketAddr) (queue : List ServerMessage) (hl : w.senders.lookup c = some queue) :
    (∀ msg ∈ queue, (bincode.serialize msg).length ≤ Config.maxFrameSize) ∧
      ∀ chunks later, (∀ chunk ∈ chunks, List.length chunk ≤ Config.tcpReadBuf) →
        chunks.flatten ++ later = queue.flatMap (encodeTcpFrame bincode.serialize) →
          ∃ got left rest, queue = got ++ left ∧
            readerTask [] chunks = some (got.map bincode.serialize, rest) ∧
              rest ++ later = left.flatMap (encodeTcpFrame bincode.serialize) := by
  obtain ⟨-, -, hfit⟩ : Orderly w ∧ Bounded w.state ∧ FramesFit w := by
    refine inv_runFrom (fun w => Orderly w ∧ Bounded w.state ∧ FramesFit w) ?_
      ⟨orderly_listening hs.clients, hs.bounded, framesFit_listening s⟩ hok hrun
    rintro w e w' ⟨ho, hb, hf⟩ hsafe h
    have hm := World.step_move h
    exact ⟨ho.move hm, hb.move ho hm, hf.move ho hb hsafe hm⟩
  have hsize : ∀ msg ∈ queue, (bincode.serialize msg).length ≤ Config.maxFrameSize := by
    intro msg hmsg
    rw [bincode.length_serialize]
    exact hfit.queues c queue hl msg hmsg
  refine ⟨hsize, fun chunks later hchunks hpre => ?_⟩
  have hstream : ∀ msgs : List ServerMessage, msgs.flatMap (encodeTcpFrame bincode.serialize) =
      stream (msgs.map bincode.serialize) := by
    intro msgs
    rw [stream, List.flatMap_map]
    rfl
  have hpayloads : ∀ p ∈ queue.map bincode.serialize, p.length ≤ Config.maxFrameSize := by
    intro p hp
    obtain ⟨msg, hmsg, rfl⟩ := List.mem_map.1 hp
    exact hsize msg hmsg
  have hempty : ([] : Bytes).length < 4 + Config.maxFrameSize := by decide
  rw [hstream] at hpre
  obtain ⟨got, left, rest, heq, hread, hrest⟩ :=
    readerTask_receives hpayloads hchunks hempty hpre
  obtain ⟨got, left, rfl, rfl, rfl⟩ := List.map_eq_append_iff.1 heq
  exact ⟨got, left, rest, rfl, hread, by rw [hstream, hrest]⟩

/-- Two clients connect, and one of them creates a channel of a given name; the list with
it reaches both. -/
def creatingRun (name : String) : List (Env × World.Event) :=
  sampled 1 (connecting (.v4 1 1) ++ connecting (.v4 2 2) ++
    .request (.v4 1 1) (.createChannel (some name)) :: advancing (.v4 1 1) 5)

theorem frames_fit_creatingRun : ∃ queue : List ServerMessage,
    ServerMessage.channelList [⟨"pub-x", 0⟩] ∈ queue ∧
      ∀ msg ∈ queue, (Bincode.fixint.serialize msg).length ≤ Config.maxFrameSize := by
  have hok : EachStep World.step FrameSafe (.listening (.new ⟨0, 0⟩)) (creatingRun "x") := by
    decide
  refine ⟨_, ?_, (frames_fit .fixint ⟨0, 0⟩ (.new ⟨0, 0⟩) (.refl _ _) (creatingRun "x") _ hok rfl
    (.v4 2 2) _ rfl).1⟩
  decide

/-- Two clients have connected. -/
def twoConnected : World :=
  (runFrom World.step (.listening (.new ⟨0, 0⟩))
    (sampled 1 (connecting (.v4 1 1) ++ connecting (.v4 2 2)))).getD (.listening (.new ⟨0, 0⟩))

/-- The first of them has created a public channel, and has not been told yet. -/
def channelMade (name : String) : World :=
  { twoConnected with
    state := twoConnected.state.addChannel (.sample 7 1) (Config.publicChannelPrefix ++ name)
    connections := twoConnected.connections.insert (.v4 1 1)
      ⟨"user-1", [.send (.v4 1 1) (.channelCreated (Config.publicChannelPrefix ++ name)),
        .readChannelList]⟩ }

theorem step_channelMade (name : String) :
    World.step twoConnected (.sample 7 1, .request (.v4 1 1) (.createChannel (some name))) =
      some (channelMade name) := by
  have hpush : pushIfPublic (Config.publicChannelPrefix ++ name) = [.readChannelList] := by
    rw [pushIfPublic, if_pos (startsWith_append _ _)]
  rw [channelMade, ← hpush]
  rfl

theorem listPublicChannels_channelMade (name : String) :
    (channelMade name).state.listPublicChannels (.sample 7 1) =
      [⟨Config.publicChannelPrefix ++ name, 0⟩] := by
  have hlist : (channelMade name).state.publicChannels =
      {⟨Config.publicChannelPrefix ++ name, 0⟩} := by
    rw [publicChannels, channelMade, addChannel, collect_insert,
      if_pos (startsWith_append _ _)]
    rfl
  rw [listPublicChannels, hlist]
  rfl

/-- Whatever the name, the second client is sent the list with the new channel in it. -/
theorem creatingRun_queue (name : String) :
    ∃ w, runFrom World.step (.listening (.new ⟨0, 0⟩)) (creatingRun name) = some w ∧
      w.senders.lookup (.v4 2 2) = some [.welcome Config.packageVersion Config.protocolVersion,
        .nameChanged "" "user-2", .channelList [⟨Config.publicChannelPrefix ++ name, 0⟩]] := by
  have hrun : runFrom World.step (.listening (.new ⟨0, 0⟩)) (creatingRun name) =
      runFrom World.step (channelMade name) (sampled 1 (advancing (.v4 1 1) 5)) := by
    calc runFrom World.step (.listening (.new ⟨0, 0⟩)) (creatingRun name)
      _ = (World.step twoConnected
            (.sample 7 1, .request (.v4 1 1) (.createChannel (some name)))).bind fun w =>
              runFrom World.step w (sampled 1 (advancing (.v4 1 1) 5)) := by
        rw [creatingRun, sampled, List.map_append, runFrom_append]
        rfl
      _ = runFrom World.step (channelMade name) (sampled 1 (advancing (.v4 1 1) 5)) := by
        rw [step_channelMade, Option.bind_some]
  rw [hrun, ← listPublicChannels_channelMade name]
  exact ⟨_, rfl, rfl⟩

/-- A name that fits the request for a channel and not the list with the channel in it: the
request arrives in a frame within the limit, the other client is sent one beyond it, and its
reader disconnects wherever the reads cut the stream. -/
theorem creatingRun_disconnects {name : String} (hlong : 65508 < byteLen name)
    (hadmitted : byteLen name ≤ 65523) :
    (ClientMessage.createChannel (some name)).serializedSize ≤ Config.maxFrameSize ∧
      ∃ w queue, runFrom World.step (.listening (.new ⟨0, 0⟩)) (creatingRun name) = some w ∧
        w.senders.lookup (.v4 2 2) = some queue ∧ ∀ bincode : Bincode,
          (∃ msg ∈ queue, Config.maxFrameSize < (bincode.serialize msg).length) ∧
            ∀ chunks, chunks.flatten = queue.flatMap (encodeTcpFrame bincode.serialize) →
              readerTask [] chunks = none := by
  obtain ⟨w, hrun, hl⟩ := creatingRun_queue name
  refine ⟨?_, w, _, hrun, hl, fun bincode => ?_⟩
  · simp only [ClientMessage.serializedSize, Option.map_some, Option.getD_some, stringSize,
      Config.maxFrameSize]
    omega
  let list : ServerMessage := .channelList [⟨Config.publicChannelPrefix ++ name, 0⟩]
  have hsize : (bincode.serialize list).length = 28 + byteLen name := by
    simp only [list, bincode.length_serialize, ServerMessage.serializedSize,
      ChannelInfo.serializedSize, stringSize, byteLen_append, byteLen_publicChannelPrefix,
      List.map_cons, List.map_nil, List.sum_cons, List.sum_nil]
    omega
  have hlarge : Config.maxFrameSize < (bincode.serialize list).length := by
    rw [hsize, Config.maxFrameSize]
    omega
  have hgreetings : ∀ p ∈ [ServerMessage.welcome Config.packageVersion Config.protocolVersion,
      .nameChanged "" "user-2"].map bincode.serialize, p.length ≤ Config.maxFrameSize := by
    intro p hp
    obtain ⟨msg, hmsg, rfl⟩ := List.mem_map.1 hp
    rw [bincode.length_serialize]
    exact (by decide : ∀ msg ∈ [ServerMessage.welcome Config.packageVersion
      Config.protocolVersion, .nameChanged "" "user-2"],
        msg.serializedSize ≤ Config.maxFrameSize) msg hmsg
  refine ⟨⟨list, by simp [list], hlarge⟩, fun chunks hchunks => ?_⟩
  refine readerTask_disconnects hgreetings hlarge (by omega) rfl
    (?_ : [] ++ chunks.flatten = stream _ ++ (frame _ ++ []))
  rw [List.nil_append, hchunks, stream]
  simp only [list, List.map_cons, List.map_nil, List.flatMap_cons, List.flatMap_nil,
    List.append_nil, List.append_assoc, encodeTcpFrame]

/-- A name that leaves the request for it within one frame, and the reply to it too. -/
def longName : String := String.ofList (List.replicate 65520 'x')

theorem byteLen_replicate {c : Char} (hc : c.utf8Size = 1) (n : ℕ) :
    byteLen (String.ofList (List.replicate n c)) = n := by
  rw [byteLen_of_ascii fun d hd => (List.eq_of_mem_replicate hd).symm ▸ hc, List.length_replicate]

theorem byteLen_longName : byteLen longName = 65520 := byteLen_replicate rfl 65520

/-- One client's channel disconnects the other. -/
theorem long_channel_disconnects :
    (ClientMessage.createChannel (some longName)).serializedSize ≤ Config.maxFrameSize ∧
      ∃ w queue, runFrom World.step (.listening (.new ⟨0, 0⟩)) (creatingRun longName) = some w ∧
        w.senders.lookup (.v4 2 2) = some queue ∧ ∀ bincode : Bincode,
          (∃ msg ∈ queue, Config.maxFrameSize < (bincode.serialize msg).length) ∧
            ∀ chunks, chunks.flatten = queue.flatMap (encodeTcpFrame bincode.serialize) →
              readerTask [] chunks = none :=
  creatingRun_disconnects (by rw [byteLen_longName]; decide) (by rw [byteLen_longName]; decide)

end Server
end TcVoice
