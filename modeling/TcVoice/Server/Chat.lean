import TcVoice.Server.Announcements

/-!
# Chat and the channels it stays in

A line of chat is read in one step, with the channel and the name of its sender,
and enqueued in another.  In between, everybody else may move.

* `delivered`, `Move.delivered` — what a step puts into a queue, and that an
  action addressed to the client is behind it.
* `Spoken` — what is left of each task: its line of chat, or no chat at all.
* `chatRelayed_step` — **a line of chat is enqueued once to each other member of
  its sender's channel, under the name that the registry has for the sender**.
-/

namespace TcVoice
namespace Server

open Runs Table ServerState

/-! ## What a step enqueues -/

namespace World

/-- What a step has put into a client's queue. -/
def delivered (w w' : World) (c : SocketAddr) : List ServerMessage :=
  ((w'.senders.lookup c).getD []).drop ((w.senders.lookup c).getD []).length

/-- The step is a `broadcast_to_channel`. -/
def Broadcasts (w : World) (ev : Event) : Prop :=
  ∃ t ch exclude msg rest, ev = .advance t ∧ w.pending t = .broadcast ch exclude msg :: rest

/-- The message is one that the members of a channel are told. -/
def RoomTalk (w : World) (ev : Event) : ServerMessage → Prop
  | .peerJoined _ | .peerLeft _ | .chatMessage _ _ => True
  | .nameChanged _ _ => w.Broadcasts ev
  | _ => False

end World

/-- How a line of chat of `a` comes to `c`: by the only step that its handler has left, while
both are in one channel, once, and under the name that the registry has for `a`. -/
structure Relayed (w w' : World) (ev : World.Event) (c a : SocketAddr) (ch : ChannelId)
    (name text : String) : Prop where
  turn : ev = .advance (some a)
  last : w.pending (some a) = [.broadcast ch (some a) (.chatMessage name text)]
  done : w'.pending (some a) = []
  sender : w.state.channelOf a = some ch
  recipient : w.state.channelOf c = some ch
  other : c ≠ a
  named : w.state.nameOf a = some name
  once : w.delivered w' c = [.chatMessage name text]

/-- Every line of chat that the step enqueues is relayed so. -/
def ChatRelayed (w : World) (e : Env × World.Event) : Prop :=
  ∀ w', w.step e = some w' → ∀ c name text, .chatMessage name text ∈ w.delivered w' c →
    ∃ a ch, Relayed w w' e.2 c a ch name text

section Discipline

variable {env : Env} {s s' : ServerState} {w w' : World} {a b c : SocketAddr} {t : Task}
  {action : Action} {rest acts : List Action} {msg : ServerMessage} {ev : World.Event}
  {ch : ChannelId} {name name' : String}

/-! ## What the tasks have left to do -/

/-- A message that goes to one client at a time. -/
def Private : ServerMessage → Prop
  | .peerJoined _ | .peerLeft _ | .chatMessage _ _ => False
  | _ => True

/-- A message about the members of a channel. -/
def MemberNews : ServerMessage → Prop
  | .peerJoined _ | .peerLeft _ | .nameChanged _ _ => True
  | _ => False

/-- An action with no broadcast and no `LeftChannel` in it. -/
def Neutral : Action → Prop
  | .send _ msg | .routeDirect _ _ msg => Private msg ∧ msg ≠ .leftChannel
  | .broadcast _ _ _ => False
  | _ => True

/-- An action of a client's own task: neutral, or news for a channel, or the `LeftChannel` of the
client, when it has left. -/
inductive Ordinary (s : ServerState) (a : SocketAddr) : Action → Prop
  | neutral {action : Action} (h : Neutral action) : Ordinary s a action
  | news {ch : ChannelId} {exclude : Option SocketAddr} {msg : ServerMessage}
      (h : MemberNews msg) : Ordinary s a (.broadcast ch exclude msg)
  | left (h : s.channelOf a = none) : Ordinary s a (.send a .leftChannel)

/-- What is left of a client's handler: one broadcast of a line of chat, or no chat at all. -/
inductive Says (s : ServerState) (a : SocketAddr) (name : String) : List Action → Prop
  | chat {ch : ChannelId} {text : String} (h : s.channelOf a = some ch) :
      Says s a name [.broadcast ch (some a) (.chatMessage name text)]
  | other {acts : List Action} (h : ∀ x ∈ acts, Ordinary s a x) : Says s a name acts

/-- What the tasks have left to do. -/
structure Spoken (w : World) : Prop where
  tasks : ∀ a name, w.connName a = some name → Says w.state a name (w.pending (some a))
  sweep : ∀ x ∈ w.maintenance, Neutral x

theorem Ordinary.mono (h : Ordinary s a action)
    (hout : s.channelOf a = none → s'.channelOf a = none) : Ordinary s' a action := by
  cases h with
  | neutral h => exact .neutral h
  | news h => exact .news h
  | left h => exact .left (hout h)

theorem Says.mono (h : Says s a name acts) (hch : s'.channelOf a = s.channelOf a) :
    Says s' a name acts := by
  cases h with
  | chat h => exact .chat (hch.trans h)
  | other h => exact .other fun x hx => (h x hx).mono hch.trans

theorem neutral_of_mem_push {x : Action} (hx : x ∈ pushIfPublic ch) : Neutral x := by
  rw [(mem_pushIfPublic.1 hx).1]
  trivial

/-- What is left of a request. -/
theorem Handled.says {cmsg : ClientMessage} (h : Handled env s a name cmsg s' name' acts) :
    Says s' a name' acts := by
  cases h with
  | refused | listed | pinged | echoed =>
    refine .other fun x hx => .neutral ?_
    obtain rfl := List.mem_singleton.1 hx
    exact ⟨trivial, nofun⟩
  | routed =>
    refine .other fun x hx => .neutral ?_
    obtain rfl := List.mem_singleton.1 hx
    exact ⟨trivial, nofun⟩
  | ignored | bound => exact .other fun x hx => absurd hx List.not_mem_nil
  | created =>
    refine .other fun x hx => .neutral ?_
    rcases List.mem_cons.1 hx with rfl | hx
    · exact ⟨trivial, nofun⟩
    · exact neutral_of_mem_push hx
  | joined =>
    refine .other fun x hx => ?_
    rcases List.mem_cons.1 hx with rfl | hx
    · exact .news trivial
    rcases List.mem_cons.1 hx with rfl | hx
    · exact .neutral ⟨trivial, nofun⟩
    · exact .neutral (neutral_of_mem_push hx)
  | @left cmsg c ch hmsg hl hch =>
    refine .other fun x hx => ?_
    rcases List.mem_cons.1 hx with rfl | hx
    · refine .left ?_
      rw [channelOf_dropParticipant, (departed_withoutMember c).channelOf, if_pos rfl]
    rcases List.mem_cons.1 hx with rfl | hx
    · exact .news trivial
    · exact .neutral (neutral_of_mem_push hx)
  | said hlen hch => exact .chat hch
  | @renamed newName c =>
    refine .other fun x hx => ?_
    rcases mem_announceName.1 hx with rfl | ⟨y, -, rfl⟩
    · exact .neutral ⟨trivial, nofun⟩
    · exact .news trivial

/-- A request moves nobody but the client that makes it. -/
theorem Handled.channelOf {cmsg : ClientMessage} (h : Handled env s a name cmsg s' name' acts)
    (hb : b ≠ a) : s'.channelOf b = s.channelOf b := by
  cases h with
  | refused | ignored | created | said | routed | listed | pinged => rfl
  | joined hch ha => rw [channelOf_joined ha, if_neg hb]
  | @left cmsg c ch =>
    rw [channelOf_dropParticipant, (departed_withoutMember c).channelOf, if_neg hb]
  | renamed hl => exact channelOf_renamed hl
  | bound hl => exact channelOf_rekeyed hl
  | echoed hid ha => rw [channelOf_echoed ha, if_neg hb]

/-- What an action leaves to do: nothing to say to a channel, or that a client has gone. -/
theorem mem_act (hprivate : ∀ b pk msg, action = .routeDirect b pk msg → Neutral action)
    {x : Action} (hx : x ∈ (w.act env action).2) :
    Neutral x ∨ ∃ b ch n, action = .removeClient b ∧ w.state.channelOf b = some ch ∧
      x = .broadcast ch none (.peerLeft n) := by
  cases leaves_of_mem_act hx with
  | listed | push => exact .inl trivial
  | pushed | unreachable => exact .inl ⟨trivial, nofun⟩
  | routed => exact .inl (hprivate _ _ _ rfl)
  | gone hin => exact .inr ⟨_, _, _, rfl, hin, rfl⟩

theorem Ordinary.neutral_of_routeDirect (h : Ordinary s a action) :
    ∀ b pk msg, action = .routeDirect b pk msg → Neutral action := by
  rintro b pk msg rfl
  cases h with
  | neutral h => exact h

/-- What a running task is at: a line of chat is the last thing that its handler does. -/
theorem Spoken.head (hs : Spoken w) (h : w.pending t = action :: rest) :
    Neutral action ∨ ∃ a, t = some a ∧ (Ordinary w.state a action ∨
      ∃ ch n text, action = .broadcast ch (some a) (.chatMessage n text) ∧ rest = [] ∧
        w.state.channelOf a = some ch ∧ w.connName a = some n) := by
  cases t with
  | none =>
    left
    refine hs.sweep action ?_
    show action ∈ w.pending none
    rw [h]
    exact List.mem_cons_self
  | some a =>
    obtain ⟨conn, hl⟩ := (mem_iff_lookup _ _).1 (World.live_of_pending h)
    have hname : w.connName a = some conn.name := by rw [World.connName, hl, Option.map_some]
    have hsays := hs.tasks a conn.name hname
    rw [h] at hsays
    generalize hacts : action :: rest = acts at hsays
    refine .inr ⟨a, rfl, ?_⟩
    cases hsays with
    | chat hch =>
      obtain ⟨rfl, rfl⟩ := List.cons.inj hacts
      exact .inr ⟨_, _, _, rfl, rfl, hch, hname⟩
    | other hord =>
      subst hacts
      exact .inl (hord action List.mem_cons_self)

theorem Spoken.neutral_of_routeDirect (hs : Spoken w) (h : w.pending t = action :: rest) :
    ∀ b pk msg, action = .routeDirect b pk msg → Neutral action := by
  rintro b pk msg rfl
  rcases hs.head h with hneutral | ⟨a, -, hord | ⟨_, _, _, he, -⟩⟩
  · exact hneutral
  · exact hord.neutral_of_routeDirect b pk msg rfl
  · cases he

/-- What one task does leaves the others with what they have to say. -/
theorem Spoken.local (hs : Spoken w) (t : Task)
    (hpend : ∀ b, some b ≠ t → w'.pending (some b) = w.pending (some b))
    (hname : ∀ b, some b ≠ t → w'.connName b = w.connName b)
    (hroom : ∀ b, some b ≠ t → w'.state.channelOf b = w.state.channelOf b)
    (hsweep : ∀ x ∈ w'.maintenance, Neutral x)
    (hself : ∀ a n, t = some a → w'.connName a = some n →
      Says w'.state a n (w'.pending (some a))) : Spoken w' where
  tasks b n hn := by
    by_cases hb : some b = t
    · exact hself b n hb.symm hn
    · rw [hname b hb] at hn
      rw [hpend b hb]
      exact (hs.tasks b n hn).mono (hroom b hb)
  sweep := hsweep

/-- What the action of a task leaves behind. -/
theorem Says.advance (h : Says w.state a name (action :: rest)) :
    Says (w.act env action).1.state a name ((w.act env action).2 ++ rest) := by
  generalize hacts : action :: rest = acts at h
  cases h with
  | chat h =>
    obtain ⟨rfl, rfl⟩ := List.cons.inj hacts
    exact .other fun x hx => absurd hx List.not_mem_nil
  | other h =>
    subst hacts
    refine .other fun x hx => ?_
    rcases List.mem_append.1 hx with hx | hx
    · have hhead := h action List.mem_cons_self
      rcases mem_act hhead.neutral_of_routeDirect hx with hx | ⟨b, ch, n, -, -, rfl⟩
      · exact .neutral hx
      · exact .news trivial
    · exact (h x (List.mem_cons_of_mem _ hx)).mono channelOf_act_none

/-- A client is accepted, and greets. -/
theorem Spoken.accepted (hs : Spoken w) :
    Spoken (w.put (w.state.registered a) a ⟨w.state.nextName, [.openQueue a,
      .send a (.welcome Config.packageVersion Config.protocolVersion),
      .send a (.nameChanged "" w.state.nextName)]⟩) := by
  refine hs.local (some a) (fun b hb => ?_) (fun b hb => ?_) (fun b hb => ?_) hs.sweep
    fun b n hb hn => ?_
  · rw [World.pending_put, if_neg hb]
  · rw [World.connName_put, if_neg fun h => hb (congrArg some h)]
  · refine (channelOf_insert (c := ⟨w.state.nextName, none, none, none⟩) rfl).trans ?_
    rw [if_neg fun h => hb (congrArg some h)]
  · cases hb
    rw [World.pending_put, if_pos rfl]
    refine .other fun x hx => .neutral ?_
    simp only [List.mem_cons, List.not_mem_nil, or_false] at hx
    rcases hx with rfl | rfl | rfl <;> simp [Neutral, Private]

/-- A task does its next action. -/
theorem Spoken.advanced (hs : Spoken w) (ho : Orderly w) (h : w.pending t = action :: rest) :
    Spoken ((w.act env action).1.setPending t ((w.act env action).2 ++ rest)) := by
  have hpend := fun u => ho.pending_advance env (u := u) h
  have hends := ho.ends h
  refine hs.local t (fun b hb => ?_) (fun b hb => ?_) (fun b hb => ?_) (fun x hx => ?_)
    fun b n hb hn => ?_
  · rw [hpend, if_neg hb]
  · rw [World.connName_setPending]
    refine connName_act ?_
    rintro rfl
    exact hb (hends.2.2 b rfl).1.symm
  · rw [World.state_setPending]
    refine channelOf_act ?_
    rintro rfl
    exact hb (hends.2.1 b rfl).1.symm
  · have hmain := hpend none
    rw [World.pending] at hmain
    rw [hmain] at hx
    split at hx
    · rename_i ht
      have hp : w.maintenance = action :: rest := by rw [← h, ← ht]; rfl
      have hneutral : Neutral action := hs.sweep action (hp ▸ List.mem_cons_self)
      rcases List.mem_append.1 hx with hx | hx
      · refine (mem_act (fun _ _ _ _ => hneutral) hx).resolve_right ?_
        rintro ⟨b, -, -, rfl, -⟩
        exact absurd (hends.2.1 b rfl).1 (ht ▸ by simp)
      · exact hs.sweep x (hp ▸ List.mem_cons_of_mem _ hx)
    · exact hs.sweep x hx
  · subst hb
    rw [hpend, if_pos rfl, World.state_setPending]
    by_cases hc : action = .close b
    · subst hc
      obtain ⟨-, rfl, -⟩ := hends.2.2 b rfl
      exact .other fun x hx => absurd hx List.not_mem_nil
    · rw [World.connName_setPending, connName_act hc] at hn
      have hsays := hs.tasks b n hn
      rw [h] at hsays
      exact hsays.advance

/-- **Every step keeps to this.** -/
theorem Spoken.move (hs : Spoken w) (ho : Orderly w) (hm : World.Move env w ev w') :
    Spoken w' := by
  cases hm with
  | turnedAway => exact hs
  | accepted => exact hs.accepted
  | @handled a cmsg conn s' name acts hl hidle h =>
    refine hs.local (some a) (fun b hb => ?_) (fun b hb => ?_) (fun b hb => ?_) hs.sweep
      fun b n hb hn => ?_
    · rw [World.pending_put, if_neg hb]
    · rw [World.connName_put, if_neg fun h => hb (congrArg some h)]
    · exact h.channelOf fun h => hb (congrArg some h)
    · cases hb
      rw [World.connName_put, if_pos rfl] at hn
      cases hn
      rw [World.pending_put, if_pos rfl]
      exact h.says
  | @limited a ha hidle | @hungUp a ha hidle =>
    refine hs.local (some a) (fun b hb => ?_) (fun b _ => World.connName_setPending)
      (fun b _ => by rw [World.state_setPending]) hs.sweep fun b n hb hn => ?_
    · rw [World.pending_setPending (t := some a) ha, if_neg hb]
    · cases hb
      rw [World.pending_setPending (t := some a) ha, if_pos rfl]
      refine .other fun x hx => .neutral ?_
      simp only [List.mem_cons, List.not_mem_nil, or_false] at hx
      rcases hx with rfl | rfl | rfl <;> simp [Neutral, Private]
  | advanced h => exact hs.advanced ho h
  | swept =>
    refine ⟨fun b n hn => (hs.tasks b n hn).mono channelOf_cleanupWith, fun x hx => ?_⟩
    simp only [World.sweep] at hx
    split at hx
    · obtain rfl := List.mem_singleton.1 hx
      trivial
    · exact absurd hx List.not_mem_nil
  | greeted =>
    exact ⟨fun b n hn => (hs.tasks b n hn).mono channelOf_registerUdpByToken, hs.sweep⟩
  | shutDown =>
    rw [World.enqueueAll_eq]
    exact ⟨hs.tasks, hs.sweep⟩

theorem spoken_listening : Spoken (.listening s) where
  tasks a n hn := absurd hn (by simp [World.connName, World.listening])
  sweep x hx := absurd hx List.not_mem_nil

/-! ## What comes into the queues -/

theorem not_mem_delivered (h : w'.senders.lookup c = w.senders.lookup c) :
    msg ∉ w.delivered w' c := by
  rw [World.delivered, h, List.drop_length]
  exact List.not_mem_nil

theorem delivered_of_append {msgs : List ServerMessage}
    (h : w'.senders.lookup c = (w.senders.lookup c).map (· ++ msgs)) :
    w.delivered w' c = msgs ∨ w.delivered w' c = [] := by
  rw [World.delivered, h]
  cases w.senders.lookup c with
  | none => exact .inr rfl
  | some q => exact .inl (by simp)

/-- A message comes into a queue when a task's action sends it there, or at the end of all. -/
theorem World.Move.delivered (hm : World.Move env w ev w') (hmsg : msg ∈ w.delivered w' c) :
    (∃ t action rest, ev = .advance t ∧ w.pending t = action :: rest ∧
        action.addressed w.state c = some msg ∧ w.delivered w' c = [msg]) ∨
      msg = .error "server shutting down" := by
  cases hm with
  | turnedAway | accepted | handled | swept | greeted =>
    exact absurd hmsg (not_mem_delivered rfl)
  | limited | hungUp =>
    exact absurd hmsg (not_mem_delivered (by rw [World.senders_setPending]))
  | @advanced t action rest h =>
    left
    refine ⟨t, action, rest, rfl, h, ?_⟩
    by_cases hopen : ∃ a, action = .openQueue a
    · obtain ⟨a, rfl⟩ := hopen
      by_cases hca : c = a
      · subst hca
        simp [World.delivered, World.act] at hmsg
      · exact absurd hmsg (not_mem_delivered (by simp [World.act, hca]))
    by_cases hdrop : ∃ a, action = .dropQueue a
    · obtain ⟨a, rfl⟩ := hdrop
      by_cases hca : c = a
      · subst hca
        simp [World.delivered, World.act] at hmsg
      · exact absurd hmsg (not_mem_delivered (by simp [World.act, hca]))
    have hl : ((w.act env action).1.setPending t
        ((w.act env action).2 ++ rest)).senders.lookup c =
          (w.senders.lookup c).map (· ++ (action.addressed w.state c).toList) := by
      rw [World.senders_setPending]
      exact World.lookup_senders_act (fun a ha => hopen ⟨a, ha⟩) fun a ha => hdrop ⟨a, ha⟩
    rcases delivered_of_append hl with hd | hd <;> rw [hd] at hmsg ⊢
    · cases hadd : action.addressed w.state c with
      | none => simp [hadd] at hmsg
      | some m =>
        rw [hadd, Option.mem_toList, Option.some.injEq] at hmsg
        subst hmsg
        exact ⟨rfl, rfl⟩
    · exact absurd hmsg List.not_mem_nil
  | shutDown =>
    right
    have hnd : (env.addrOrder.toList w.senders.keys.val).Nodup :=
      env.addrOrder.nodup_toList.2 w.senders.keys.nodup
    rcases delivered_of_append (World.lookup_senders_enqueueAll hnd) with hd | hd <;>
      rw [hd] at hmsg
    · split at hmsg
      · exact List.mem_singleton.1 hmsg
      · exact absurd hmsg List.not_mem_nil
    · exact absurd hmsg List.not_mem_nil

/-! ## A line of chat -/

/-- The broadcast of a line of chat is all that its sender's handler has left. -/
theorem Spoken.chat {ex : Option SocketAddr} {n text : String} (hs : Spoken w)
    (h : w.pending t = .broadcast ch ex (.chatMessage n text) :: rest) :
    ∃ a, t = some a ∧ ex = some a ∧ rest = [] ∧ w.state.channelOf a = some ch ∧
      w.connName a = some n := by
  rcases hs.head h with hneutral | ⟨a, rfl, hord | ⟨_, _, _, he, rfl, hch, hname⟩⟩
  · exact hneutral.elim
  · cases hord with
    | neutral h => exact h.elim
    | news h => exact h.elim
  · cases he
    exact ⟨a, rfl, rfl, rfl, hch, hname⟩

/-- What goes to one client at a time is private. -/
theorem Spoken.send {addr : SocketAddr} (hs : Spoken w) (h : w.pending t = .send addr msg :: rest) :
    Private msg ∧ (msg = .leftChannel → w.state.channelOf addr = none) := by
  rcases hs.head h with ⟨hp, hne⟩ | ⟨a, rfl, hord | ⟨_, _, _, he, -⟩⟩
  · exact ⟨hp, fun he => absurd he hne⟩
  · cases hord with
    | neutral h => exact ⟨h.1, fun he => absurd he h.2⟩
    | left hout => exact ⟨trivial, fun _ => hout⟩
  · cases he

/-- **One step.**  A line of chat that it enqueues is relayed as it should be. -/
theorem chatRelayed_step (ho : Orderly w) (hs : Spoken w) (e : Env × World.Event) :
    ChatRelayed w e := by
  intro w' h c n text hmsg
  obtain ⟨env, ev⟩ := e
  have hm := World.step_move h
  rcases hm.delivered hmsg with ⟨t, action, rest, rfl, hp, hadd, honce⟩ | hbye
  · rcases Action.addressed_eq_some hadd with rfl | ⟨ch, ex, rfl, hin, hex⟩
    · exact (hs.send hp).1.elim
    · obtain ⟨a, rfl, rfl, rfl, hch, hname⟩ := hs.chat hp
      obtain ⟨i, hl⟩ := (mem_iff_lookup _ _).1 (mem_clients_of_channelOf hch)
      have hnamed : w.state.nameOf a = some n := by
        have hconn := ho.named a i.name (nameOf_of_lookup hl)
        rw [nameOf_of_lookup hl, ← hconn, hname]
      refine ⟨a, ch, rfl, hp, ?_, hch, hin, fun hca => hex (congrArg some hca.symm), hnamed, honce⟩
      cases hm with
      | advanced hp' =>
        rw [hp] at hp'
        cases hp'
        rw [ho.pending_advance env hp, if_pos rfl]
        rfl
  · exact absurd hbye (by simp)

end Discipline

end Server
end TcVoice
