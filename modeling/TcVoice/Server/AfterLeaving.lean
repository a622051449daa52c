import TcVoice.Server.Chat
import TcVoice.Server.EchoTest

/-!
# What a client hears after it has left

Once a client has been sent its `LeftChannel`, it should hear of no channel until
it joins one.  A client in no channel does not; but a client that starts a sound
check is in a channel without having joined it, and anybody can join that.

* `Followed`, `LeftQuiet` — a world with the clients that have left, and that none
  of them is told of a channel.
* `KeepsOut` — the steps that let nobody in with one of them.
* `Sheltered` — whoever has left is in no channel, or alone in an echo channel to
  which no other task has anything to say.
* `chat_isolated` — **chat stays in its channel, and who has left is told of none
  while others are kept out of its sound checks**, with `told_after_leaving` for a
  client that is.
-/

namespace TcVoice
namespace Server

open Runs Table ServerState

section Tasks

variable {env : Env} {s s' : ServerState} {w w' : World} {a c : SocketAddr} {t : Task}
  {acts : List Action} {msg : ServerMessage} {ev : World.Event} {ch : ChannelId}
  {name name' : String}

/-! ## Channels that no task speaks to but their one member's -/

/-- The client is alone in an echo channel. -/
structure Secluded (s : ServerState) (c : SocketAddr) (ch : ChannelId) : Prop where
  echo : IsEcho ch
  lives : ch ∈ s.channels
  only : ∀ b, s.channelOf b = some ch → b = c

/-- Only the client itself has anything to say to the channel, and not to itself. -/
def Hushed (w : World) (c : SocketAddr) (ch : ChannelId) : Prop :=
  ∀ t ex msg, .broadcast ch ex msg ∈ w.pending t → ex = some c

/-- **One operation.**  A client in an echo channel stays alone there, if nobody joins it, and
if it found nobody there. -/
theorem Secluded.change {op : Op} (hc : Change env s op s')
    (hsec : s.channelOf c = some ch → Secluded s c ch) (hin : s'.channelOf c = some ch)
    (hstay : ∀ x, op = .joinChannel c x → s'.channelOf c = s.channelOf c)
    (hjoin : ∀ a, op = .joinChannel a ch → IsEcho ch → ch ∈ s.channels → a ∈ s.clients →
      s.channelOf a = none → s.channelOf c ≠ some ch)
    (hstart : ∀ id, op = .startEchoTest c →
      s.freshId env Config.echoChannelPrefix = some id → ∀ b, s.channelOf b ≠ some id) :
    Secluded s' c ch := by
  rcases hc.channelOf_cases hin with h | ⟨rfl, -, hout, -⟩ | ⟨rfl, hecho, -, hlives, hid⟩
  · obtain ⟨hecho, hlives, honly⟩ := hsec h
    refine ⟨hecho, ?_, fun b hb => ?_⟩
    · rcases hc.lives_or hlives with hlives | ⟨a, ha, hgone⟩ | hnone
      · exact hlives
      · rw [honly a ha, hin] at hgone
        exact absurd hgone (by simp)
      · exact absurd h (hnone c)
    · rcases hc.channelOf_cases hb with hb | ⟨rfl, hclient, hout, -⟩ | ⟨-, -, hnew, -⟩
      · exact honly b hb
      · exact absurd h (hjoin b rfl hecho hlives hclient hout)
      · exact absurd hlives hnew
  · rw [hstay ch rfl, hout] at hin
    exact absurd hin (by simp)
  · refine ⟨hecho, hlives, fun b hb => ?_⟩
    rcases hc.channelOf_cases hb with hb | ⟨hop, -⟩ | ⟨hop, -⟩
    · exact absurd hb (hstart ch rfl hid b)
    · exact absurd hop (by simp)
    · exact (Op.startEchoTest.inj hop).symm

/-- What a handler leaves to say to a channel: in the channel that its client is in then, and
not to the client itself; or in the one that it has left. -/
theorem Handled.broadcast {cmsg : ClientMessage} {x : ChannelId} {ex : Option SocketAddr}
    (h : Handled env s a name cmsg s' name' acts) (hx : .broadcast x ex msg ∈ acts) :
    (ex = some a ∧ s'.channelOf a = some x) ∨
      s.channelOf a = some x ∧ s'.channelOf a = none := by
  cases h with
  | refused | listed | pinged | routed | echoed | ignored | bound =>
    simp at hx
  | created =>
    rcases List.mem_cons.1 hx with hx | hx
    · cases hx
    · exact absurd (mem_pushIfPublic.1 hx).1 (by simp)
  | @joined y token hch ha hout hr =>
    rcases List.mem_cons.1 hx with hx | hx
    · cases hx
      exact .inl ⟨rfl, by rw [channelOf_joined ha, if_pos rfl]⟩
    rcases List.mem_cons.1 hx with hx | hx
    · cases hx
    · exact absurd (mem_pushIfPublic.1 hx).1 (by simp)
  | @left cmsg i y hmsg hl hch =>
    rcases List.mem_cons.1 hx with hx | hx
    · cases hx
    rcases List.mem_cons.1 hx with hx | hx
    · cases hx
      refine .inr ⟨(channelOf_of_lookup hl).trans hch, ?_⟩
      rw [channelOf_dropParticipant, (departed_withoutMember i).channelOf, if_pos rfl]
    · exact absurd (mem_pushIfPublic.1 hx).1 (by simp)
  | said hlen hch =>
    cases List.mem_singleton.1 hx
    exact .inl ⟨rfl, hch⟩
  | @renamed newName i hl =>
    rcases mem_announceName.1 hx with hx | ⟨y, hy, hx⟩
    · cases hx
    · cases hx
      exact .inl ⟨rfl, by rw [channelOf_renamed hl, channelOf_of_lookup hl, hy]⟩

/-- **How a broadcast comes to be left to a task.** -/
theorem World.Move.broadcast {x : ChannelId} {ex : Option SocketAddr} (ho : Orderly w)
    (hs : Spoken w) (hm : World.Move env w ev w') (hx : .broadcast x ex msg ∈ w'.pending t) :
    .broadcast x ex msg ∈ w.pending t ∨
      (∃ a, ex = some a ∧ w'.state.channelOf a = some x) ∨
      ∃ a, w.state.channelOf a = some x ∧ w'.state.channelOf a = none := by
  cases hm with
  | turnedAway => exact .inl hx
  | @accepted a ha =>
    rw [World.pending_put] at hx
    split at hx
    · simp at hx
    · exact .inl hx
  | @handled a cmsg conn s' name acts hl hidle h =>
    rw [World.pending_put] at hx
    split at hx
    · rcases h.broadcast hx with ⟨rfl, hin⟩ | ⟨hin, hout⟩
      · exact .inr (.inl ⟨a, rfl, hin⟩)
      · exact .inr (.inr ⟨a, hin, hout⟩)
    · exact .inl hx
  | @limited a ha | @hungUp a ha =>
    rw [World.pending_setPending (t := some a) ha] at hx
    split at hx
    · simp at hx
    · exact .inl hx
  | @advanced u action rest h =>
    rw [ho.pending_advance env h] at hx
    split at hx
    · rename_i htu
      rw [htu, h]
      rcases List.mem_append.1 hx with hx | hx
      · rcases mem_act (hs.neutral_of_routeDirect h) hx with hx | ⟨b, y, n, rfl, hin, hx⟩
        · exact hx.elim
        · cases hx
          refine .inr (.inr ⟨b, hin, ?_⟩)
          rw [World.state_setPending, channelOf_removeClient, if_pos rfl]
      · exact .inl (List.mem_cons_of_mem _ hx)
    · exact .inl hx
  | swept =>
    left
    cases t with
    | some b => exact hx
    | none =>
      simp only [World.pending, World.sweep] at hx
      split at hx
      · simp at hx
      · exact absurd hx List.not_mem_nil
  | greeted => exact .inl hx
  | shutDown =>
    rw [World.enqueueAll_eq] at hx
    exact .inl hx

end Tasks

/-! ## Clients that have left -/

/-- A world, and which clients have been told that they have left, and have not joined a
channel since. -/
structure Followed where
  world : World
  parted : SocketAddr → Bool

namespace Followed

def listening (s : ServerState) : Followed := ⟨.listening s, fun _ => false⟩

/-- The step accepts the client's connection, or serves its join of a channel. -/
def enters (w : World) : World.Event → World → SocketAddr → Bool
  | .accept a, _, c => a == c
  | .request a (.joinChannel _), w', c => a == c && w'.state.channelOf c != w.state.channelOf c
  | _, _, _ => false

/-- Who is told to have left, or was before, and does not come back with the step. -/
def note (v : Followed) (ev : World.Event) (w' : World) (c : SocketAddr) : Bool :=
  (v.parted c || decide (.leftChannel ∈ v.world.delivered w' c)) && !enters v.world ev w' c

def step (v : Followed) (e : Env × World.Event) : Option Followed :=
  (v.world.step e).map fun w' => ⟨w', v.note e.2 w'⟩

end Followed

/-- No client that has left is told of a channel. -/
def LeftQuiet (v : Followed) (e : Env × World.Event) : Prop :=
  ∀ w', v.world.step e = some w' → ∀ c, v.parted c = true → ∀ msg ∈ v.world.delivered w' c,
    ¬ v.world.RoomTalk e.2 msg

/-- Nobody is in the channel, and no task has anything to say to it. -/
def World.Untouched (w : World) (id : ChannelId) : Prop :=
  (∀ b, w.state.channelOf b ≠ some id) ∧ ∀ t ex msg, .broadcast id ex msg ∉ w.pending t

/-- Nobody comes to a client that has left: a join of an existing echo channel, by a client in
no channel, finds none there that has left; and one that starts a sound check does so in a
channel that nobody is in or has anything to say to. -/
structure KeepsOut (v : Followed) (e : Env × World.Event) : Prop where
  joins : ∀ a ch, e.2 = .request a (.joinChannel ch) → IsEcho ch →
    ch ∈ v.world.state.channels → a ∈ v.world.state.clients → v.world.state.channelOf a = none →
    ∀ c, v.parted c = true → v.world.state.channelOf c ≠ some ch
  starts : ∀ c, e.2 = .request c .startEchoTest → v.parted c = true → ∀ id,
    v.world.state.freshId e.1 Config.echoChannelPrefix = some id → v.world.Untouched id

section Quiet

variable {env : Env} {s : ServerState} {v v' : Followed} {w w' : World} {c : SocketAddr}
  {ch : ChannelId} {e : Env × World.Event}

/-- Whoever has left is in no channel, or alone in one that nobody else speaks to. -/
structure Sheltered (v : Followed) : Prop where
  orderly : Orderly v.world
  spoken : Spoken v.world
  secluded : ∀ c ch, v.parted c = true → v.world.state.channelOf c = some ch →
    Secluded v.world.state c ch
  hushed : ∀ c ch, v.parted c = true → v.world.state.channelOf c = some ch →
    Hushed v.world c ch

/-- A client that is told that it has left is in no channel then. -/
theorem Spoken.left (hs : Spoken w) (h : w.step e = some w')
    (hmsg : .leftChannel ∈ w.delivered w' c) : w'.state.channelOf c = none := by
  have hm := World.step_move h
  obtain ⟨env, ev⟩ := e
  rcases hm.delivered hmsg with ⟨t, action, rest, rfl, hp, hadd, -⟩ | hbye
  · rcases Action.addressed_eq_some hadd with rfl | ⟨x, ex, rfl, -⟩
    · cases hm with
      | advanced hp' =>
        rw [hp] at hp'
        cases hp'
        rw [World.state_setPending]
        exact channelOf_act_none ((hs.send hp).2 rfl)
    · rcases hs.head hp with hneutral | ⟨a, -, hord | ⟨_, _, _, he, -⟩⟩
      · exact hneutral.elim
      · cases hord with
        | neutral h => exact h.elim
        | news h => exact h.elim
      · cases he
  · exact absurd hbye (by simp)

/-- Whoever has left by a step, and is in a channel, had left before it. -/
theorem parted_of_note (hs : Spoken v.world) (h : v.world.step e = some w')
    (hparted : v.note e.2 w' c = true) (hin : w'.state.channelOf c = some ch) :
    v.parted c = true ∧ Followed.enters v.world e.2 w' c = false := by
  simp only [Followed.note, Bool.and_eq_true, Bool.or_eq_true, decide_eq_true_eq,
    Bool.not_eq_true'] at hparted
  obtain ⟨hold | hleft, henters⟩ := hparted
  · exact ⟨hold, henters⟩
  · rw [hs.left h hleft] at hin
    exact absurd hin (by simp)

theorem channelOf_of_not_enters {x : ChannelId}
    (h : Followed.enters w (.request c (.joinChannel x)) w' c = false) :
    w'.state.channelOf c = w.state.channelOf c := by
  simpa [Followed.enters] using h

/-- **One step.**  It leaves whoever has left alone. -/
theorem Sheltered.secluded_step (hv : Sheltered v) (hk : KeepsOut v e)
    (h : v.world.step e = some w') (hparted : v.note e.2 w' c = true)
    (hin : w'.state.channelOf c = some ch) : Secluded w'.state c ch := by
  obtain ⟨hold, henters⟩ := parted_of_note hv.spoken h hparted hin
  obtain ⟨env, ev⟩ := e
  rcases (World.step_move h).call hv.orderly with heq | ⟨op, hasks, -, hexec⟩
  · rw [heq] at hin ⊢
    exact hv.secluded c ch hold hin
  · refine .change (exec_change hexec) (hv.secluded c ch hold) hin ?_ ?_ ?_
    · rintro x rfl
      obtain rfl := asks_joinChannel hasks
      exact channelOf_of_not_enters henters
    · rintro a rfl hecho hlives hclient hout
      exact hk.joins a ch (asks_joinChannel hasks) hecho hlives hclient hout c hold
    · rintro id rfl hid
      exact (hk.starts c (asks_startEchoTest hasks) hold id hid).1

/-- And it leaves it in peace. -/
theorem Sheltered.hushed_step (hv : Sheltered v) (hk : KeepsOut v e)
    (h : v.world.step e = some w') (hparted : v.note e.2 w' c = true)
    (hin : w'.state.channelOf c = some ch) : Hushed w' c ch := by
  have hsec := hv.secluded_step hk h hparted hin
  obtain ⟨hold, henters⟩ := parted_of_note hv.spoken h hparted hin
  have hm := World.step_move h
  -- Nobody that was in the channel before the step is out of it now, and nobody spoke to it.
  have hbefore : (∀ a, v.world.state.channelOf a = some ch → w'.state.channelOf a ≠ none) ∧
      Hushed v.world c ch := by
    by_cases hch : v.world.state.channelOf c = some ch
    · refine ⟨fun a ha hgone => ?_, hv.hushed c ch hold hch⟩
      rw [(hv.secluded c ch hold hch).only a ha, hin] at hgone
      exact absurd hgone (by simp)
    · have hfree : v.world.Untouched ch := by
        obtain ⟨env, ev⟩ := e
        rcases hm.call hv.orderly with heq | ⟨op, hasks, -, hexec⟩
        · exact absurd (heq ▸ hin) hch
        rcases (exec_change hexec).channelOf_cases hin with h | ⟨rfl, -⟩ | ⟨rfl, -, -, -, hid⟩
        · exact absurd h hch
        · obtain rfl := asks_joinChannel hasks
          exact absurd ((channelOf_of_not_enters henters).symm.trans hin) hch
        · exact hk.starts c (asks_startEchoTest hasks) hold ch hid
      exact ⟨fun a ha => absurd ha (hfree.1 a), fun t ex msg hx => absurd hx (hfree.2 t ex msg)⟩
  intro t ex msg hx
  rcases hm.broadcast hv.orderly hv.spoken hx with hx | ⟨a, rfl, ha⟩ | ⟨a, ha, hgone⟩
  · exact hbefore.2 t ex msg hx
  · rw [hsec.only a ha]
  · exact absurd hgone (hbefore.1 a ha)

theorem Sheltered.step (hv : Sheltered v) (hk : KeepsOut v e) (h : v.step e = some v') :
    Sheltered v' := by
  obtain ⟨w', hw, rfl⟩ := Option.map_eq_some_iff.1 h
  have hm := World.step_move hw
  exact ⟨hv.orderly.move hm, hv.spoken.move hv.orderly hm,
    fun _ _ => hv.secluded_step hk hw, fun _ _ => hv.hushed_step hk hw⟩

/-- **One step.**  It tells whoever has left of no channel. -/
theorem Sheltered.quiet (hv : Sheltered v) : LeftQuiet v e := by
  intro w' h c hparted msg hmsg htalk
  rcases (World.step_move h).delivered hmsg with ⟨t, action, rest, hev, hp, hadd, -⟩ | rfl
  · rcases Action.addressed_eq_some hadd with rfl | ⟨ch, ex, rfl, hin, hex⟩
    · have hprivate := (hv.spoken.send hp).1
      cases msg with
      | peerJoined | peerLeft | chatMessage => exact hprivate.elim
      | nameChanged o n =>
        obtain ⟨u, x, ex, m, rest', hev', hp'⟩ := htalk
        cases hev.symm.trans hev'
        rw [hp] at hp'
        cases hp'
      | _ => exact htalk.elim
    · exact hex (hv.hushed c ch hparted hin t ex msg (hp ▸ List.mem_cons_self))
  · exact htalk.elim

theorem sheltered_listening {limits : Limits} (hs : Started limits s) :
    Sheltered (.listening s) where
  orderly := orderly_listening hs.clients
  spoken := spoken_listening
  secluded c ch h := absurd h (by simp [Followed.listening])
  hushed c ch h := absurd h (by simp [Followed.listening])

end Quiet

/-! ## Runs of the server -/

/-- **Chat stays in its channel.**  In every run of the server from its start, with the tasks of
any number of clients taking their steps in any order: every line of chat is enqueued as
`Relayed` says; and no client that has been told that it left is told of a channel before it
joins one, if the run keeps others out of the sound checks of the clients that have left. -/
theorem chat_isolated (limits : Limits) (s : ServerState) (hs : Started limits s)
    (es : List (Env × World.Event)) :
    EachStep World.step ChatRelayed (.listening s) es ∧
      (EachStep Followed.step KeepsOut (.listening s) es →
        EachStep Followed.step LeftQuiet (.listening s) es) := by
  constructor
  · refine .of_inv (fun w => Orderly w ∧ Spoken w) ?_
      ⟨orderly_listening hs.clients, spoken_listening⟩ (eachStep_true _ _)
    rintro w e w' ⟨ho, hspoken⟩ - h
    have hm := World.step_move h
    exact ⟨⟨ho.move hm, hspoken.move ho hm⟩, chatRelayed_step ho hspoken e⟩
  · exact .of_inv Sheltered (fun _ _ _ hv hk h => ⟨hv.step hk h, hv.quiet⟩)
      (sheltered_listening hs)

/-! ## A sound check that is joined -/

/-- A client joins `pub-x`, leaves it and starts a sound check; another joins its channel. -/
def joinedCheck : List (Env × World.Event) :=
  (connecting (.v4 1 1) ++ connecting (.v4 2 2) ++
    .request (.v4 1 1) (.createChannel (some "x")) :: advancing (.v4 1 1) 5 ++
    .request (.v4 1 1) (.joinChannel "pub-x") :: advancing (.v4 1 1) 6 ++
    .request (.v4 1 1) .leaveChannel :: advancing (.v4 1 1) 6 ++
    .request (.v4 1 1) .startEchoTest :: advancing (.v4 1 1) 1).map (fun ev =>
      (.drawing 7 9, ev)) ++ [(.drawing 7 8, .request (.v4 2 2) (.joinChannel "echo-aaaaa"))]

/-- The handler of the other tells the channel's members. -/
def memberNews : Env × World.Event := (.drawing 7 8, .advance (some (.v4 2 2)))

theorem chat_isolated_joinedCheck :
    EachStep World.step ChatRelayed (.listening (.new ⟨0, 0⟩)) joinedCheck ∧
      (EachStep Followed.step KeepsOut (.listening (.new ⟨0, 0⟩)) joinedCheck →
        EachStep Followed.step LeftQuiet (.listening (.new ⟨0, 0⟩)) joinedCheck) :=
  chat_isolated ⟨0, 0⟩ (.new ⟨0, 0⟩) (.refl _ _) joinedCheck

/-- The client that has left `pub-x`, and joined nothing since, is told who has come. -/
theorem told_after_leaving :
    ∃ v w', runFrom Followed.step (.listening (.new ⟨0, 0⟩)) joinedCheck = some v ∧
      v.world.step memberNews = some w' ∧ v.parted (.v4 1 1) = true ∧
      v.world.delivered w' (.v4 1 1) = [.peerJoined "user-2"] ∧
      ¬ EachStep Followed.step LeftQuiet (.listening (.new ⟨0, 0⟩))
        (joinedCheck ++ [memberNews]) := by
  refine ⟨_, _, rfl, rfl, by decide, by decide, fun h => ?_⟩
  have hquiet := ((eachStep_append h rfl).2 _ rfl).1
  exact hquiet _ rfl (.v4 1 1) (by decide) (.peerJoined "user-2") (by decide) trivial

end Server
end TcVoice
