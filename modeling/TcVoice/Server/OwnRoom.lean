import TcVoice.Server.Announcements
import TcVoice.Server.Chat
import TcVoice.Server.EchoTest

/-!
# What a client is told of its own room

A client knows the channel it is in from what its own task sends it: `JoinedChannel` and
`EchoTestReady` take it in, `LeftChannel` takes it out.  This file is about the queue a client
reads from never telling it anything but the registry's own story, as long as no queue overflows:
a `LeftChannel` that finds no room is lost.

* `roomNews` — what a message tells its receiver about its own room.
* `Alternates` — in and out in turn, from one room to another.
* `Polite` — what a task may have left to do: only a client's own task tells it its room.
* `Informed.move` — **every step keeps queue and pending messages at the registry's story**.
* `own_room_told` — **in every state of every run each client has been told its room**.
-/

namespace TcVoice
namespace Server

open Runs Table ServerState

/-! ## Rooms in messages -/

/-- What a message tells its receiver about its own room. -/
def roomNews : ServerMessage → Option (Option ChannelId)
  | .joinedChannel ch _ _ _ => some (some ch)
  | .echoTestReady id _ _ => some (some id)
  | .leftChannel => some none
  | _ => none

/-- The rooms a queue tells its reader of, one after another. -/
def rooms (msgs : List ServerMessage) : List (Option ChannelId) := msgs.filterMap roomNews

/-- What a client's own task still has to tell it about its room. -/
def ownNews (a : SocketAddr) : Action → Option (Option ChannelId)
  | .send addr msg => if addr = a then roomNews msg else none
  | _ => none

/-- From the room `r` in and out in turn, to the room `r'`. -/
def Alternates (r : Option ChannelId) : List (Option ChannelId) → Option ChannelId → Prop
  | [], r' => r = r'
  | x :: xs, r' => r.isSome ≠ x.isSome ∧ Alternates x xs r'

theorem alternates_append {r r' : Option ChannelId} {xs ys : List (Option ChannelId)} :
    Alternates r (xs ++ ys) r' ↔ ∃ m, Alternates r xs m ∧ Alternates m ys r' := by
  induction xs generalizing r with
  | nil =>
    constructor
    · intro h
      exact ⟨r, rfl, h⟩
    · rintro ⟨m, rfl, h⟩
      exact h
  | cons x xs ih =>
    constructor
    · rintro ⟨hx, h⟩
      obtain ⟨m, hm, hy⟩ := ih.1 h
      exact ⟨m, ⟨hx, hm⟩, hy⟩
    · rintro ⟨m, ⟨hx, hm⟩, hy⟩
      exact ⟨hx, ih.2 ⟨m, hm, hy⟩⟩

/-- What a task may have left to do: a message about somebody's room is for its own client, and
it opens no other queue than that client's. -/
def Polite (t : Task) : Action → Prop
  | .openQueue a => t = some a
  | .send addr msg => roomNews msg = none ∨ t = some addr
  | .broadcast _ _ msg | .routeDirect _ _ msg => roomNews msg = none
  | _ => True

/-- What a client is told. -/
structure Knows (w : World) (a : SocketAddr) : Prop where
  told : a ∈ w.state.clients → ∀ q, w.senders.lookup a = some q →
    .openQueue a ∉ w.pending (some a) →
      Alternates none (rooms q ++ (w.pending (some a)).filterMap (ownNews a))
        (w.state.channelOf a)
  /-- A client whose queue is still to be opened is nowhere, and there is nothing to tell it. -/
  opening : .openQueue a ∈ w.pending (some a) → w.state.channelOf a = none ∧
    (w.pending (some a)).filterMap (ownNews a) = []
  queued : a ∈ w.state.clients → a ∈ w.senders ∨ .openQueue a ∈ w.pending (some a) ∨
    .removeClient a ∈ w.pending (some a)

/-- What holds between the steps. -/
structure Informed (w : World) : Prop where
  polite : ∀ t, ∀ x ∈ w.pending t, Polite t x
  knows : ∀ a, Knows w a

section Lemmas

variable {env : Env} {s s' : ServerState} {w w' : World} {a b c : SocketAddr} {t : Task}
  {action : Action} {rest acts : List Action} {msg : ServerMessage} {ev : World.Event}

/-! ## Actions -/

theorem rooms_append_of_roomless {q : List ServerMessage} (h : roomNews msg = none) :
    rooms (q ++ [msg]) = rooms q := by
  simp [rooms, List.filterMap_append, h]

theorem ownNews_of_mem_push {ch : ChannelId} (h : action ∈ pushIfPublic ch) :
    ownNews a action = none := by
  rw [(mem_pushIfPublic.1 h).1]
  rfl

theorem filterMap_ownNews_push {ch : ChannelId} :
    (pushIfPublic ch).filterMap (ownNews a) = [] :=
  List.filterMap_eq_nil_iff.2 fun _ => ownNews_of_mem_push

/-- What an action leaves to do is polite if it is, and tells nobody of its room. -/
theorem Polite.act (hp : Polite t action) {y : Action} (hy : y ∈ (w.act env action).2) :
    Polite t y ∧ (∀ a, ownNews a y = none) ∧ ∀ a, y ≠ .openQueue a := by
  cases leaves_of_mem_act hy with
  | listed | push => exact ⟨trivial, fun _ => rfl, by simp⟩
  | pushed | unreachable => exact ⟨.inl rfl, fun _ => by simp [ownNews, roomNews], by simp⟩
  | @routed a target toPubkey msg =>
    have hmsg : roomNews msg = none := hp
    exact ⟨.inl hmsg, fun _ => by simp [ownNews, hmsg], by simp⟩
  | gone => exact ⟨rfl, fun _ => rfl, by simp⟩

/-- What an action puts into a client's queue tells it of its room exactly what the client's
own task had to tell it by that action. -/
theorem Polite.addressed (hp : Polite t action) :
    (action.addressed s c).toList.filterMap roomNews =
      if t = some c then [action].filterMap (ownNews c) else [] := by
  cases action with
  | send addr msg =>
    by_cases hc : c = addr
    · subst hc
      rcases hp with hp | rfl <;> simp [Action.addressed, List.filterMap_cons, ownNews, *]
    · simp [Action.addressed, ownNews, hc, Ne.symm hc]
  | broadcast ch ex msg =>
    have hmsg : roomNews msg = none := hp
    simp only [Action.addressed, ownNews]
    split <;> simp [hmsg, ownNews]
  | _ => simp [Action.addressed, ownNews]

/-! ## Requests -/

/-- A request takes its client in, takes it out, or leaves it where it is, and that is what is
left to tell it. -/
theorem Handled.tells {name name' : String} {cmsg : ClientMessage}
    (h : Handled env s a name cmsg s' name' acts) :
    Alternates (s.channelOf a) (acts.filterMap (ownNews a)) (s'.channelOf a) := by
  cases h with
  | refused | ignored | said | routed | listed | pinged =>
    simp [List.filterMap_cons, ownNews, roomNews, Alternates]
  | created =>
    simp only [List.filterMap_cons, ownNews, roomNews, if_true, filterMap_ownNews_push]
    exact rfl
  | joined hch ha hout =>
    simp only [List.filterMap_cons, ownNews, roomNews, if_true, filterMap_ownNews_push]
    rw [channelOf_joined ha, if_pos rfl, hout]
    exact ⟨by simp, rfl⟩
  | @left cmsg i ch hmsg hl hch =>
    simp only [List.filterMap_cons, ownNews, roomNews, if_true, filterMap_ownNews_push]
    rw [channelOf_dropParticipant, (departed_withoutMember i).channelOf, if_pos rfl,
      channelOf_of_lookup hl, hch]
    exact ⟨by simp, rfl⟩
  | @renamed newName i hl =>
    rw [channelOf_renamed hl]
    cases i.channel <;> simp [announceName, List.filterMap_cons, ownNews, roomNews, Alternates]
  | bound hl =>
    rw [channelOf_rekeyed hl]
    exact rfl
  | echoed hid ha hout =>
    rw [channelOf_echoed ha, if_pos rfl, hout]
    simp [ownNews, roomNews, Alternates]

theorem Handled.polite {name name' : String} {cmsg : ClientMessage}
    (h : Handled env s a name cmsg s' name' acts) :
    ∀ y ∈ acts, Polite (some a) y ∧ ∀ b, y ≠ .openQueue b := by
  have hpush : ∀ {ch : ChannelId}, ∀ y ∈ pushIfPublic ch,
      Polite (some a) y ∧ ∀ b, y ≠ .openQueue b := by
    intro ch y hy
    rw [(mem_pushIfPublic.1 hy).1]
    exact ⟨trivial, by simp⟩
  intro y hy
  cases h with
  | refused | listed | pinged | echoed =>
    obtain rfl := List.mem_singleton.1 hy
    exact ⟨.inr rfl, by simp⟩
  | said | routed =>
    obtain rfl := List.mem_singleton.1 hy
    exact ⟨rfl, by simp⟩
  | ignored | bound => exact absurd hy List.not_mem_nil
  | created =>
    rcases List.mem_cons.1 hy with rfl | hy
    · exact ⟨.inr rfl, by simp⟩
    · exact hpush y hy
  | joined =>
    rcases List.mem_cons.1 hy with rfl | hy
    · exact ⟨rfl, by simp⟩
    rcases List.mem_cons.1 hy with rfl | hy
    · exact ⟨.inr rfl, by simp⟩
    · exact hpush y hy
  | left =>
    rcases List.mem_cons.1 hy with rfl | hy
    · exact ⟨.inr rfl, by simp⟩
    rcases List.mem_cons.1 hy with rfl | hy
    · exact ⟨rfl, by simp⟩
    · exact hpush y hy
  | renamed =>
    rcases mem_announceName.1 hy with rfl | ⟨x, -, rfl⟩
    · exact ⟨.inr rfl, by simp⟩
    · exact ⟨rfl, by simp⟩

/-! ## Steps -/

/-- What one task does leaves the others' clients with what they know. -/
theorem Informed.local (hi : Informed w) (t : Task)
    (hpend : ∀ u, u ≠ t → w'.pending u = w.pending u)
    (hroom : ∀ b, some b ≠ t → w'.state.channelOf b = w.state.channelOf b)
    (hin : ∀ b, some b ≠ t → b ∈ w'.state.clients → b ∈ w.state.clients)
    (hqueue : ∀ b, some b ≠ t →
      (w'.senders.lookup b).map rooms = (w.senders.lookup b).map rooms)
    (hpolite : ∀ x ∈ w'.pending t, Polite t x) (hself : ∀ a, t = some a → Knows w' a) :
    Informed w' where
  polite u x hx := by
    by_cases hu : u = t
    · subst hu
      exact hpolite x hx
    · rw [hpend u hu] at hx
      exact hi.polite u x hx
  knows b := by
    by_cases hb : some b = t
    · exact hself b hb.symm
    have hk := hi.knows b
    refine ⟨fun hbin q' hq' hopen => ?_, fun hopen => ?_, fun hbin => ?_⟩
    · rw [hpend _ hb] at hopen ⊢
      have hq := hqueue b hb
      rw [hq', Option.map_some] at hq
      obtain ⟨q, hl, hrooms⟩ := Option.map_eq_some_iff.1 hq.symm
      rw [← hrooms, hroom b hb]
      exact hk.told (hin b hb hbin) q hl hopen
    · rw [hpend _ hb] at hopen ⊢
      rw [hroom b hb]
      exact hk.opening hopen
    · rw [hpend _ hb]
      refine (hk.queued (hin b hb hbin)).imp_left fun hq => ?_
      obtain ⟨q, hl⟩ := (mem_iff_lookup _ _).1 hq
      have hq' := hqueue b hb
      rw [hl, Option.map_some] at hq'
      obtain ⟨q', hl', -⟩ := Option.map_eq_some_iff.1 hq'
      exact Finmap.mem_of_lookup_eq_some hl'

/-- A client whose task waits knows its room from its queue. -/
theorem Knows.idle (hk : Knows w a) (hidle : w.pending (some a) = [])
    (ha : a ∈ w.state.clients) {q : List ServerMessage} (hq : w.senders.lookup a = some q) :
    Alternates none (rooms q) (w.state.channelOf a) := by
  have ht := hk.told ha q hq (by simp [hidle])
  rwa [hidle, List.filterMap_nil, List.append_nil] at ht

theorem Knows.mem_senders (hk : Knows w a) (hidle : w.pending (some a) = [])
    (ha : a ∈ w.state.clients) : a ∈ w.senders := by
  have hq := hk.queued ha
  rw [hidle] at hq
  simpa using hq

theorem Informed.accepted (hi : Informed w) (ho : Orderly w) (ha : a ∉ w.connections) :
    Informed (w.put (w.state.registered a) a ⟨w.state.nextName, [.openQueue a,
      .send a (.welcome Config.packageVersion Config.protocolVersion),
      .send a (.nameChanged "" w.state.nextName)]⟩) := by
  have hout : a ∉ w.state.clients := fun h => ha (ho.mem_connections h)
  have hroom : ∀ b, (w.state.registered a).channelOf b = w.state.channelOf b := by
    intro b
    refine (channelOf_insert (c := ⟨w.state.nextName, none, none, none⟩) rfl).trans ?_
    split
    · rename_i hba
      rw [hba, ServerState.channelOf, (notMem_iff_lookup _ _).1 hout]
      rfl
    · rfl
  refine hi.local (some a) (fun u hu => ?_) (fun b _ => hroom b) (fun b hba h => ?_)
    (fun _ _ => rfl) (fun x hx => ?_) ?_
  · rw [World.pending_put, if_neg hu]
  · exact (Finmap.mem_insert.1 h).resolve_left fun h => hba (congrArg some h)
  · rw [World.pending_put, if_pos rfl] at hx
    simp only [List.mem_cons, List.not_mem_nil, or_false] at hx
    rcases hx with rfl | rfl | rfl
    · exact rfl
    · exact .inl rfl
    · exact .inl rfl
  · intro b hb
    cases hb
    have hpend : (w.put (w.state.registered a) a ⟨w.state.nextName, [.openQueue a,
        .send a (.welcome Config.packageVersion Config.protocolVersion),
        .send a (.nameChanged "" w.state.nextName)]⟩).pending (some a) = [.openQueue a,
          .send a (.welcome Config.packageVersion Config.protocolVersion),
          .send a (.nameChanged "" w.state.nextName)] := by
      rw [World.pending_put, if_pos rfl]
    refine ⟨fun _ q _ hopen => ?_, fun _ => ⟨?_, ?_⟩, fun _ => ?_⟩
    · rw [hpend] at hopen
      exact absurd List.mem_cons_self hopen
    · refine (hroom a).trans ?_
      rw [ServerState.channelOf, (notMem_iff_lookup _ _).1 hout]
      rfl
    · rw [hpend]
      simp [List.filterMap_cons, ownNews, roomNews]
    · rw [hpend]
      exact .inr (.inl List.mem_cons_self)

theorem Informed.handled (hi : Informed w) (ho : Orderly w) {cmsg : ClientMessage}
    {conn : Connection} {name : String} (hl : w.connections.lookup a = some conn)
    (hidle : conn.pending = []) (h : Handled env w.state a conn.name cmsg s' name acts) :
    Informed (w.put s' a ⟨name, acts⟩) := by
  have hidle' : w.pending (some a) = [] := by rw [World.pending_some_of_lookup hl, hidle]
  have hin : ∀ b, b ∈ s'.clients → b ∈ w.state.clients := by
    intro b hbin
    by_contra hn
    rw [← nameOf_eq_none] at hn
    have hconn : ∀ n, w.state.nameOf a = some n → n = conn.name := by
      intro n hna
      have hcn := ho.named a n hna
      rw [World.connName, hl] at hcn
      exact (Option.some.inj hcn).symm
    obtain ⟨hothers, -, hgone⟩ := h.nameOf hconn
    refine nameOf_eq_none.1 ?_ hbin
    by_cases hba : b = a
    · exact hba ▸ hgone.2 (hba ▸ hn)
    · exact (hothers b hba).trans hn
  refine hi.local (some a) (fun u hu => ?_) (fun b hb => ?_) (fun b _ => hin b)
    (fun _ _ => rfl) (fun x hx => ?_) ?_
  · rw [World.pending_put, if_neg hu]
  · exact h.channelOf fun hba => hb (congrArg some hba)
  · rw [World.pending_put, if_pos rfl] at hx
    exact (h.polite x hx).1
  · intro b hb
    cases hb
    have hpend : (w.put s' a ⟨name, acts⟩).pending (some a) = acts := by
      rw [World.pending_put, if_pos rfl]
    refine ⟨fun hain q hq _ => ?_, fun hopen => ?_, fun hain => ?_⟩
    · rw [hpend, alternates_append]
      exact ⟨_, (hi.knows a).idle hidle' (hin a hain) hq, h.tells⟩
    · rw [hpend] at hopen
      exact absurd rfl ((h.polite _ hopen).2 a)
    · exact .inl ((hi.knows a).mem_senders hidle' (hin a hain))

/-- A client that waits for nothing gets something to do that does not tell it its room. -/
theorem Informed.assigned (hi : Informed w) (ha : a ∈ w.connections)
    (hidle : w.pending (some a) = [])
    (hacts : ∀ x ∈ acts, Polite (some a) x ∧ ownNews a x = none ∧ ∀ b, x ≠ .openQueue b) :
    Informed (w.setPending (some a) acts) := by
  have hpend : (w.setPending (some a) acts).pending (some a) = acts := by
    rw [World.pending_setPending (t := some a) ha, if_pos rfl]
  refine hi.local (some a) (fun u hu => ?_) (fun b _ => ?_) (fun b _ h => ?_) (fun b _ => ?_)
    (fun x hx => ?_) ?_
  · rw [World.pending_setPending (t := some a) ha, if_neg hu]
  · rw [World.state_setPending]
  · rwa [World.state_setPending] at h
  · rw [World.senders_setPending]
  · rw [hpend] at hx
    exact (hacts x hx).1
  · intro b hb
    cases hb
    refine ⟨fun hain q hq _ => ?_, fun hopen => ?_, fun hain => ?_⟩
    · rw [World.state_setPending] at hain ⊢
      rw [World.senders_setPending] at hq
      rw [hpend, List.filterMap_eq_nil_iff.2 fun x hx => (hacts x hx).2.1, List.append_nil]
      exact (hi.knows a).idle hidle hain hq
    · rw [hpend] at hopen
      exact absurd rfl ((hacts _ hopen).2.2 a)
    · rw [World.state_setPending] at hain
      rw [World.senders_setPending]
      exact .inl ((hi.knows a).mem_senders hidle hain)

theorem filterMap_ownNews_act (hp : Polite t action) :
    (w.act env action).2.filterMap (ownNews a) = [] :=
  List.filterMap_eq_nil_iff.2 fun _ hy => (hp.act hy).2.1 a

/-- An action that another task takes tells a client nothing of its room. -/
theorem Polite.lookup_senders (hp : Polite t action) (ho : Orderly w)
    (h : w.pending t = action :: rest) (hb : some b ≠ t) :
    ((w.act env action).1.senders.lookup b).map rooms = (w.senders.lookup b).map rooms := by
  by_cases hopen : ∃ a, action = .openQueue a
  · obtain ⟨a, rfl⟩ := hopen
    have hba : b ≠ a := fun he => hb (he ▸ Eq.symm hp)
    simp only [World.act, lookup_insert_if, if_neg hba]
  by_cases hdrop : ∃ a, action = .dropQueue a
  · obtain ⟨a, rfl⟩ := hdrop
    have hba : b ≠ a := fun he => hb (he ▸ ((ho.ends h).1 a rfl).1.symm)
    simp only [World.act, lookup_erase_if, if_neg hba]
  · rw [World.lookup_senders_act (fun a ha => hopen ⟨a, ha⟩) fun a ha => hdrop ⟨a, ha⟩,
      Option.map_map]
    congr 1
    funext q
    have hnone := hp.addressed (s := w.state) (c := b)
    rw [if_neg (Ne.symm hb)] at hnone
    simp only [Function.comp_apply, rooms, List.filterMap_append, hnone, List.append_nil]

/-- A client's own task takes its next action. -/
theorem Knows.advanced (hk : Knows w a) (ho : Orderly w) (hp : Polite (some a) action)
    (h : w.pending (some a) = action :: rest) :
    Knows ((w.act env action).1.setPending (some a) ((w.act env action).2 ++ rest)) a := by
  have hpend : ((w.act env action).1.setPending (some a)
      ((w.act env action).2 ++ rest)).pending (some a) = (w.act env action).2 ++ rest := by
    rw [ho.pending_advance env h, if_pos rfl]
  have hends := ho.ends h
  have hrest : .openQueue a ∈ (w.act env action).2 ++ rest → .openQueue a ∈ rest := fun hx =>
    (List.mem_append.1 hx).resolve_left fun hy => (hp.act hy).2.2 a rfl
  have hnews : ((w.act env action).2 ++ rest).filterMap (ownNews a) =
      rest.filterMap (ownNews a) := by
    rw [List.filterMap_append, filterMap_ownNews_act hp, List.nil_append]
  have hsplit : (action :: rest).filterMap (ownNews a) =
      [action].filterMap (ownNews a) ++ rest.filterMap (ownNews a) := by
    rw [← List.filterMap_append]
    rfl
  refine ⟨fun hin q' hq' hopen => ?_, fun hopen => ?_, fun hin => ?_⟩
  · rw [World.state_setPending] at hin
    obtain ⟨hin, hrem⟩ := mem_clients_act hin
    rw [World.senders_setPending] at hq'
    rw [hpend] at hopen ⊢
    rw [hnews, World.state_setPending, channelOf_act hrem]
    by_cases hop : action = .openQueue a
    · subst hop
      have hq : q' = [] := by simpa [World.act, lookup_insert_if] using hq'.symm
      obtain ⟨hnone, hnil⟩ := hk.opening (by rw [h]; exact List.mem_cons_self)
      rw [h, hsplit] at hnil
      rw [hq, hnone, (List.append_eq_nil_iff.1 hnil).2]
      exact rfl
    have hopen' : .openQueue a ∉ w.pending (some a) := by
      rw [h]
      intro hx
      rcases List.mem_cons.1 hx with he | hx
      · exact hop he.symm
      · exact hopen (List.mem_append_right _ hx)
    by_cases hdrop : ∃ b, action = .dropQueue b
    · obtain ⟨b, rfl⟩ := hdrop
      cases (hends.1 b rfl).1
      simp [World.act] at hq'
    · have hopens : ∀ b, action ≠ .openQueue b := by
        rintro b rfl
        cases (show some a = some b from hp)
        exact hop rfl
      rw [World.lookup_senders_act hopens fun b hb => hdrop ⟨b, hb⟩] at hq'
      obtain ⟨q, hl, rfl⟩ := Option.map_eq_some_iff.1 hq'
      have hadd := hp.addressed (s := w.state) (c := a)
      rw [if_pos rfl] at hadd
      have ht := hk.told hin q hl hopen'
      rw [h, hsplit, ← List.append_assoc] at ht
      simp only [rooms, List.filterMap_append, hadd]
      exact ht
  · rw [hpend] at hopen
    obtain ⟨hnone, hnil⟩ := hk.opening (by rw [h]; exact List.mem_cons_of_mem _ (hrest hopen))
    rw [h, hsplit] at hnil
    rw [hpend, hnews, World.state_setPending]
    exact ⟨channelOf_act_none hnone, (List.append_eq_nil_iff.1 hnil).2⟩
  · rw [World.state_setPending] at hin
    obtain ⟨hin, hrem⟩ := mem_clients_act hin
    rw [World.senders_setPending, hpend]
    have hq := hk.queued hin
    rw [h, List.mem_cons, List.mem_cons] at hq
    rcases hq with hq | (rfl | hq) | (hq | hq)
    · by_cases hdrop : action = .dropQueue a
      · subst hdrop
        obtain ⟨-, rfl⟩ := hends.1 a rfl
        exact .inr (.inr (List.mem_append_right _ List.mem_cons_self))
      · exact .inl (mem_senders_act hdrop hq)
    · exact .inl (Finmap.mem_insert.2 (.inl rfl))
    · exact .inr (.inl (List.mem_append_right _ hq))
    · exact absurd hq.symm hrem
    · exact .inr (.inr (List.mem_append_right _ hq))

theorem Informed.advanced (hi : Informed w) (ho : Orderly w)
    (h : w.pending t = action :: rest) :
    Informed ((w.act env action).1.setPending t ((w.act env action).2 ++ rest)) := by
  have hp : Polite t action := hi.polite t action (h ▸ List.mem_cons_self)
  refine hi.local t (fun u hu => ?_) (fun b hb => ?_) (fun b _ hin => ?_) (fun b hb => ?_)
    (fun x hx => ?_) ?_
  · rw [ho.pending_advance env h, if_neg hu]
  · rw [World.state_setPending]
    refine channelOf_act ?_
    rintro rfl
    exact hb ((ho.ends h).2.1 b rfl).1.symm
  · rw [World.state_setPending] at hin
    exact (mem_clients_act hin).1
  · rw [World.senders_setPending]
    exact hp.lookup_senders ho h hb
  · rw [ho.pending_advance env h, if_pos rfl] at hx
    rcases List.mem_append.1 hx with hx | hx
    · exact (hp.act hx).1
    · exact hi.polite t x (h ▸ List.mem_cons_of_mem _ hx)
  · rintro a rfl
    exact (hi.knows a).advanced ho hp h

/-- **Every step keeps what a client is told at the registry's story.** -/
theorem Informed.move (hi : Informed w) (ho : Orderly w) (hm : World.Move env w ev w') :
    Informed w' := by
  cases hm with
  | turnedAway => exact hi
  | accepted ha => exact hi.accepted ho ha
  | handled hl hidle h => exact hi.handled ho hl hidle h
  | limited ha hidle =>
    refine hi.assigned ha hidle fun x hx => ?_
    rw [List.mem_singleton.1 hx]
    exact ⟨.inl rfl, by simp [ownNews, roomNews], by simp⟩
  | hungUp ha hidle => exact hi.assigned ha hidle (by simp [Polite, ownNews])
  | advanced h => exact hi.advanced ho h
  | swept hidle =>
    refine hi.local none (fun u hu => ?_) (fun b _ => channelOf_cleanupWith) (fun b _ h => ?_)
      (fun _ _ => rfl) (fun x hx => ?_) (by simp)
    · cases u with
      | none => exact absurd rfl hu
      | some b => rfl
    · exact (cleanupWith_clients (s := w.state)) ▸ h
    · simp only [World.pending, World.sweep] at hx
      split at hx
      · obtain rfl := List.mem_singleton.1 hx
        trivial
      · exact absurd hx List.not_mem_nil
  | greeted =>
    refine hi.local none (fun u _ => ?_) (fun b _ => channelOf_registerUdpByToken)
      (fun b _ h => ?_) (fun _ _ => rfl) (hi.polite none) (by simp)
    · cases u <;> rfl
    · by_contra hn
      rw [← nameOf_eq_none] at hn
      exact nameOf_eq_none.1 (nameOf_registerUdpByToken.trans hn) h
  | shutDown =>
    have hpend : ∀ u, (w.enqueueAll (.error "server shutting down")
        (env.addrOrder.toList w.senders.keys.val)).pending u = w.pending u := by
      intro u
      rw [World.enqueueAll_eq]
      cases u <;> rfl
    refine hi.local none (fun u _ => hpend u) (fun b _ => ?_) (fun b _ h => ?_) (fun b _ => ?_)
      (fun x hx => ?_) (by simp)
    · rw [World.enqueueAll_eq]
    · rwa [World.enqueueAll_eq] at h
    · have hnd : (env.addrOrder.toList w.senders.keys.val).Nodup :=
        env.addrOrder.nodup_toList.2 w.senders.keys.nodup
      rw [World.lookup_senders_enqueueAll hnd, Option.map_map]
      congr 1
      funext q
      simp only [Function.comp_apply]
      split
      · exact rooms_append_of_roomless rfl
      · rw [List.append_nil]
    · rw [hpend] at hx
      exact hi.polite none x hx

theorem informed_listening (hs : s.clients = ∅) : Informed (.listening s) where
  polite t x hx := by cases t <;> exact absurd hx List.not_mem_nil
  knows a := by
    have hout : a ∉ s.clients := by
      rw [hs]
      exact Finmap.notMem_empty
    exact ⟨fun h => absurd h hout, fun h => absurd h List.not_mem_nil, fun h => absurd h hout⟩

end Lemmas

/-- **A client is told its room**, as long as its queue has room for what it is sent.  In every
state of every run of the server, in whatever order its tasks take their steps: what has been put
into a connected client's queue so far tells it, with what its own task still has to put there, that
it is in a room and out of it in turn, and in the end the room it is in by the registry; and a
client whose task waits for the next request has a queue, which tells it so by itself. -/
theorem own_room_told (limits : Limits) (s : ServerState) (w : World) (hs : Started limits s)
    (h : Reachable World.step (fun _ _ => True) (.listening s) w) (a : SocketAddr)
    (ha : a ∈ w.state.clients) :
    (∀ q, w.senders.lookup a = some q → .openQueue a ∉ w.pending (some a) →
      Alternates none (rooms q ++ (w.pending (some a)).filterMap (ownNews a))
        (w.state.channelOf a)) ∧
    (w.pending (some a) = [] → ∃ q, w.senders.lookup a = some q ∧
      Alternates none (rooms q) (w.state.channelOf a)) := by
  have hi : Orderly w ∧ Informed w := h.induct (fun w => Orderly w ∧ Informed w)
    ⟨orderly_listening hs.clients, informed_listening hs.clients⟩ fun _ _ _ hi _ hstep =>
      ⟨hi.1.move (World.step_move hstep), hi.2.move hi.1 (World.step_move hstep)⟩
  have hk := hi.2.knows a
  refine ⟨hk.told ha, fun hidle => ?_⟩
  obtain ⟨q, hq⟩ := (mem_iff_lookup _ _).1 (hk.mem_senders hidle ha)
  exact ⟨q, hq, hk.idle hidle ha hq⟩

/-- A client opens a channel, does a sound check, stops it and joins the channel. -/
theorem own_room_told_cancelledRun : ∃ (w : World) (q : List ServerMessage),
    w.senders.lookup (.v4 1 1) = some q ∧ w.state.channelOf (.v4 1 1) = some "pub-x" ∧
      Alternates none (rooms q) (some "pub-x") := by
  obtain ⟨w, hrun, hin, hidle, hch⟩ : ∃ w : World,
      runFrom World.step (.listening (.new ⟨0, 0⟩)) cancelledRun = some w ∧
      (.v4 1 1) ∈ w.state.clients ∧ w.pending (some (.v4 1 1)) = [] ∧
      w.state.channelOf (.v4 1 1) = some "pub-x" := ⟨_, rfl, by decide, rfl, rfl⟩
  obtain ⟨q, hq, halt⟩ := (own_room_told ⟨0, 0⟩ _ w (.refl _ _)
    ⟨cancelledRun, eachStep_true _ _, hrun⟩ (.v4 1 1) hin).2 hidle
  exact ⟨w, q, hq, hch, hch ▸ halt⟩

end Server
end TcVoice
