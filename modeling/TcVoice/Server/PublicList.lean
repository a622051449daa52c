import TcVoice.Server.Interleaving

/-!
# The public channel list

Whatever changes the list of public channels pushes it to everybody afterwards,
but a push reads the list in one step and enqueues it in others, so that one push
can overtake another.

* `publicChannels_congr` — what the list depends on: the public channels and who
  is in them.
* `Carries`, `PushUnderWay` — an action that will still bring a client the list as
  it is; some task has one left to take.
* `ListsFresh` — the list each client was sent last is the present one, or a push
  is under way to it.
* `NotSuperseded` — a step enqueues no list that has been superseded, unless a
  newer one is under way to the same client.
* `channelLists_converge` — **in a run of such steps, once every handler has
  finished, every client has the present list**; `superseded_list_shown` is a run
  where a client is left with an older one.
-/

namespace TcVoice
namespace Server

open Runs Table ServerState

variable {env : Env} {s s' : ServerState} {w w' : World} {a c : SocketAddr} {ch x : ChannelId}

/-! ## What the list depends on -/

/-- The ids on the list. -/
def publicIds (s : ServerState) : Multiset ChannelId :=
  s.channels.collect (fun id _ => startsWith id Config.publicChannelPrefix) fun id _ => id

/-- The clients in a channel. -/
def memberAddrs (s : ServerState) (ch : ChannelId) : Multiset SocketAddr :=
  s.clients.collect (fun _ c => decide (c.channel = some ch)) fun a _ => a

theorem mem_publicIds : x ∈ publicIds s ↔
    x ∈ s.channels ∧ startsWith x Config.publicChannelPrefix = true := by
  simp only [publicIds, mem_collect, mem_iff_lookup]
  constructor
  · rintro ⟨id, ps, hl, hpub, rfl⟩
    exact ⟨⟨ps, hl⟩, hpub⟩
  · rintro ⟨⟨ps, hl⟩, hpub⟩
    exact ⟨x, ps, hl, hpub, rfl⟩

theorem mem_memberAddrs : a ∈ memberAddrs s ch ↔ s.channelOf a = some ch := by
  simp only [memberAddrs, mem_collect, channelOf_eq_some, decide_eq_true_eq]
  constructor
  · rintro ⟨b, c, hl, hch, rfl⟩
    exact ⟨c, hl, hch⟩
  · rintro ⟨c, hl, hch⟩
    exact ⟨a, c, hl, hch, rfl⟩

theorem publicChannels_eq :
    s.publicChannels = (publicIds s).map fun id => ⟨id, (memberAddrs s id).card⟩ := by
  simp only [publicChannels, publicIds, memberAddrs, collect, Multiset.map_map,
    Function.comp_def]

/-- The list depends on the public channels there are and on who is in them. -/
theorem publicChannels_congr
    (hids : ∀ x, startsWith x Config.publicChannelPrefix = true →
      (x ∈ s'.channels ↔ x ∈ s.channels))
    (hof : ∀ x, startsWith x Config.publicChannelPrefix = true →
      ∀ a, s'.channelOf a = some x ↔ s.channelOf a = some x) :
    s'.publicChannels = s.publicChannels := by
  have hsame : publicIds s' = publicIds s := by
    refine (nodup_collect_key _ _).ext (nodup_collect_key _ _) |>.2 fun x => ?_
    rw [show (x ∈ Table.collect _ _ _) ↔ _ from mem_publicIds,
      show (x ∈ Table.collect _ _ _) ↔ _ from mem_publicIds]
    exact and_congr_left (hids x)
  rw [publicChannels_eq, publicChannels_eq, hsame]
  refine Multiset.map_congr rfl fun x hx => ?_
  have hmem : memberAddrs s' x = memberAddrs s x := by
    refine (nodup_collect_key _ _).ext (nodup_collect_key _ _) |>.2 fun a => ?_
    rw [show (a ∈ Table.collect _ _ _) ↔ _ from mem_memberAddrs,
      show (a ∈ Table.collect _ _ _) ↔ _ from mem_memberAddrs]
    exact hof x (mem_publicIds.1 hx).2 a
  rw [hmem]

/-- A change confined to one private channel does not show. -/
theorem publicChannels_of_private (hpriv : startsWith ch Config.publicChannelPrefix = false)
    (hids : ∀ x, x ≠ ch → (x ∈ s'.channels ↔ x ∈ s.channels))
    (hof : ∀ x, x ≠ ch → ∀ a, s'.channelOf a = some x ↔ s.channelOf a = some x) :
    s'.publicChannels = s.publicChannels := by
  have hne : ∀ x, startsWith x Config.publicChannelPrefix = true → x ≠ ch := by
    rintro x hx rfl
    rw [hpriv] at hx
    exact absurd hx (by simp)
  exact publicChannels_congr (fun x hx => hids x (hne x hx)) fun x hx => hof x (hne x hx)

/-- What only concerns the channel `ch` shows on the list only when a push follows. -/
theorem publicChannels_or_push
    (hids : ∀ x, x ≠ ch → (x ∈ s'.channels ↔ x ∈ s.channels))
    (hof : ∀ x, x ≠ ch → ∀ a, s'.channelOf a = some x ↔ s.channelOf a = some x) :
    s'.publicChannels = s.publicChannels ∨ Action.readChannelList ∈ pushIfPublic ch := by
  cases hpub : startsWith ch Config.publicChannelPrefix with
  | true => exact .inr (mem_pushIfPublic.2 ⟨rfl, hpub⟩)
  | false => exact .inl (publicChannels_of_private hpub hids hof)

theorem publicChannels_depart {s₁ : ServerState} {udp : Option SocketAddr}
    (hd : Departed s a s₁) (ha : s.channelOf a = some ch) :
    (s₁.dropParticipant env ch udp).publicChannels = s.publicChannels ∨
      Action.readChannelList ∈ pushIfPublic ch := by
  refine publicChannels_or_push (fun x hx => ?_) fun x hx b => ?_
  · rw [mem_channels_dropParticipant, hd.channels]
    simp [hx]
  · rw [channelOf_dropParticipant, hd.channelOf_eq_some, and_iff_right_iff_imp]
    rintro hb rfl
    exact hx (Option.some.inj (hb.symm.trans ha))

/-- A handler that changes the list goes on to push it. -/
theorem Handled.publicChannels {msg : ClientMessage} {name name' : String} {acts : List Action}
    (h : Handled env s a name msg s' name' acts) :
    s'.publicChannels = s.publicChannels ∨ Action.readChannelList ∈ acts := by
  have henter : ∀ {x : ChannelId}, s.channelOf a = none →
      (∀ b, s'.channelOf b = if b = a then some x else s.channelOf b) →
        ∀ y, y ≠ x → ∀ b, s'.channelOf b = some y ↔ s.channelOf b = some y := by
    intro x hout hof y hy b
    rw [hof]
    split
    · rename_i hb
      rw [hb, hout]
      simp [Ne.symm hy]
    · rfl
  cases h with
  | refused | ignored | said | routed | listed | pinged => exact .inl rfl
  | @created chanName id hid =>
    refine Or.imp_right (List.mem_cons_of_mem _)
      (publicChannels_or_push (fun x hx => ?_) fun x _ b => Iff.rfl)
    exact Finmap.mem_insert.trans (or_iff_right hx)
  | joined hch ha hout =>
    refine (publicChannels_or_push (fun x hx => by rw [channels_joined]) ?_).imp_right
      fun hp => List.mem_cons_of_mem _ (List.mem_cons_of_mem _ hp)
    exact henter hout fun b => channelOf_joined ha
  | @left msg c ch hmsg hl hch =>
    exact (publicChannels_depart (departed_withoutMember c)
      ((channelOf_of_lookup hl).trans hch)).imp_right
      fun hp => List.mem_cons_of_mem _ (List.mem_cons_of_mem _ hp)
  | renamed hl =>
    exact .inl (publicChannels_congr (fun _ _ => Iff.rfl) fun x _ b => by rw [channelOf_renamed hl])
  | bound hl =>
    exact .inl (publicChannels_congr (fun _ _ => Iff.rfl) fun x _ b => by rw [channelOf_rekeyed hl])
  | echoed hid ha hout hdraw =>
    obtain ⟨draw, rfl⟩ := hdraw
    refine .inl (publicChannels_of_private (echo_not_public (generateChannelId draw))
      (fun x hx => ?_) ?_)
    · exact Finmap.mem_insert.trans (or_iff_right hx)
    · exact henter hout fun b => channelOf_echoed ha

theorem publicChannels_registered (ha : a ∉ s.clients) :
    (s.registered a).publicChannels = s.publicChannels := by
  refine publicChannels_congr (fun _ _ => Iff.rfl) fun x _ b => ?_
  rw [channelOf_insert rfl]
  split
  · rename_i hb
    rw [hb, channelOf, (notMem_iff_lookup _ _).1 ha]
    rfl
  · rfl

theorem publicChannels_registerUdpByToken {token : UInt64} {udp : SocketAddr} :
    (s.registerUdpByToken env token udp).2.publicChannels = s.publicChannels := by
  refine registerUdpByToken_frame ServerState.publicChannels (fun _ => rfl) fun tcp c ch hl => ?_
  refine publicChannels_congr (fun _ _ => mem_channels_greeted) fun x _ b => ?_
  rw [channelOf_greeted hl]

/-- A sweep that reaps no public channel leaves the list as it is. -/
theorem publicChannels_cleanupWith {grace ttl : ℕ}
    (hno : ∀ x ∈ (s.cleanupWith env grace ttl).1,
      startsWith x Config.publicChannelPrefix = false) :
    (s.cleanupWith env grace ttl).2.publicChannels = s.publicChannels := by
  refine publicChannels_congr (fun x hx => ?_) fun x _ b => by rw [channelOf_cleanupWith]
  rw [mem_iff_lookup, lookup_channels_cleanupWith, mem_iff_lookup, if_neg]
  intro hin
  rw [hno x hin] at hx
  exact absurd hx (by simp)

/-! ## Pushes under way -/

/-- The list in a message, if it is one. -/
def listIn : ServerMessage → Option (List ChannelInfo)
  | .channelList channels => some channels
  | _ => none

/-- The list a client was sent last. -/
def lastChannelList (queue : List ServerMessage) : Option (List ChannelInfo) :=
  (queue.filterMap listIn).getLast?

theorem lastChannelList_append (queue : List ServerMessage) (msg : ServerMessage) :
    lastChannelList (queue ++ [msg]) = (listIn msg).or (lastChannelList queue) := by
  simp only [lastChannelList, List.filterMap_append, List.filterMap_cons, List.filterMap_nil]
  cases listIn msg <;> simp

/-- An action that will bring the client the list as it is now, or as it will be. -/
def Carries (now : Multiset ChannelInfo) (c : SocketAddr) : Action → Prop
  | .readChannelList => True
  | .fanOut channels => (channels : Multiset ChannelInfo) = now
  | .send addr (.channelList channels) => addr = c ∧ (channels : Multiset ChannelInfo) = now
  | _ => False

/-- Some task has still to take a step that brings the client the present list. -/
def PushUnderWay (w : World) (c : SocketAddr) : Prop :=
  ∃ t, ∃ x ∈ w.pending t, Carries w.state.publicChannels c x

/-- The list each client was sent last is the present one, or it is being sent it. -/
def ListsFresh (w : World) : Prop :=
  ∀ c q channels, w.senders.lookup c = some q → lastChannelList q = some channels →
    (channels : Multiset ChannelInfo) = w.state.publicChannels ∨ PushUnderWay w c

/-- A step enqueues no superseded list: whatever list it puts into a client's queue is the
present one, or there is a newer push under way to that client besides. -/
def NotSuperseded (w : World) (e : Env × World.Event) : Prop :=
  ∀ t action rest, e.2 = .advance t → w.pending t = action :: rest →
    ∀ c channels, action.addressed w.state c = some (.channelList channels) →
      c ∈ w.senders → (channels : Multiset ChannelInfo) = w.state.publicChannels ∨
        PushUnderWay (w.setPending t rest) c

theorem PushUnderWay.mono (h : PushUnderWay w c)
    (hpend : ∀ t x, x ∈ w.pending t → x ∈ w'.pending t)
    (hnow : w'.state.publicChannels = w.state.publicChannels) : PushUnderWay w' c := by
  obtain ⟨t, x, hx, hcar⟩ := h
  exact ⟨t, x, hpend t x hx, by rwa [hnow]⟩

/-- Where no queue changes and every push is still under way, the lists stay fresh. -/
theorem ListsFresh.mono (hf : ListsFresh w) (hs : w'.senders = w.senders)
    (hpend : ∀ t x, x ∈ w.pending t → x ∈ w'.pending t)
    (hnow : w'.state.publicChannels = w.state.publicChannels ∨
      ∃ t, Action.readChannelList ∈ w'.pending t) : ListsFresh w' := by
  intro c q channels hl hlast
  rcases hnow with hnow | ⟨t, ht⟩
  · rw [hnow]
    exact (hf c q channels (by rwa [← hs]) hlast).imp_right fun h => h.mono hpend hnow
  · exact .inr ⟨t, _, ht, trivial⟩

/-- Whatever is left in the queues after an action, was left there or was just put there. -/
theorem lookup_senders_act_of_last {action : Action} {q : List ServerMessage}
    {channels : List ChannelInfo}
    (hl : (w.act env action).1.senders.lookup c = some q)
    (hlast : lastChannelList q = some channels) :
    (action.addressed w.state c = some (.channelList channels) ∧ c ∈ w.senders) ∨
      (∀ l, action.addressed w.state c ≠ some (.channelList l)) ∧
        ∃ q₀, w.senders.lookup c = some q₀ ∧ lastChannelList q₀ = some channels := by
  by_cases ho : ∃ a, action = .openQueue a
  · obtain ⟨a, rfl⟩ := ho
    rw [World.act, lookup_insert_if] at hl
    split at hl
    · cases hl
      exact absurd hlast (by simp [lastChannelList])
    · exact .inr ⟨by simp [Action.addressed], q, hl, hlast⟩
  by_cases hd : ∃ a, action = .dropQueue a
  · obtain ⟨a, rfl⟩ := hd
    rw [World.act, lookup_erase_if] at hl
    split at hl
    · exact absurd hl (by simp)
    · exact .inr ⟨by simp [Action.addressed], q, hl, hlast⟩
  rw [World.lookup_senders_act (fun a ha => ho ⟨a, ha⟩) fun a ha => hd ⟨a, ha⟩] at hl
  obtain ⟨q₀, hl₀, rfl⟩ := Option.map_eq_some_iff.1 hl
  cases hadd : action.addressed w.state c with
  | none =>
    rw [hadd, Option.toList_none, List.append_nil] at hlast
    exact .inr ⟨by simp, q₀, hl₀, hlast⟩
  | some msg =>
    rw [hadd, Option.toList_some, lastChannelList_append] at hlast
    cases hmsg : listIn msg with
    | none =>
      rw [hmsg, Option.none_or] at hlast
      refine .inr ⟨?_, q₀, hl₀, hlast⟩
      intro l he
      rw [Option.some.inj he] at hmsg
      exact absurd hmsg (by simp [listIn])
    | some l =>
      rw [hmsg, Option.some_or] at hlast
      cases msg <;> simp only [listIn, reduceCtorEq, Option.some.injEq] at hmsg
      rw [hmsg, Option.some.inj hlast]
      exact .inl ⟨rfl, Finmap.mem_of_lookup_eq_some hl₀⟩

/-- An action that was to bring the client the list has brought it, or leaves behind an
action that will. -/
theorem carries_act (env : Env) {action : Action}
    (hcar : Carries w.state.publicChannels c action) (hc : c ∈ w.senders)
    (hno : ∀ l, action.addressed w.state c ≠ some (.channelList l)) :
    ∃ x ∈ (w.act env action).2, Carries w.state.publicChannels c x := by
  cases action with
  | readChannelList =>
    exact ⟨_, List.mem_singleton_self _, env.listOrder.coe_toList _⟩
  | fanOut channels =>
    refine ⟨.send c (.channelList channels), List.mem_map.2 ⟨c, ?_, rfl⟩, rfl, hcar⟩
    rw [HashOrder.mem_toList]
    exact Finmap.mem_keys.2 hc
  | send addr msg =>
    cases msg with
    | channelList channels =>
      refine absurd ?_ (hno channels)
      rw [Action.addressed, if_pos hcar.1.symm]
    | _ => exact absurd hcar id
  | _ => exact absurd hcar id

theorem publicChannels_act (env : Env) (w : World) (action : Action) :
    (w.act env action).1.state.publicChannels = w.state.publicChannels ∨
      Action.readChannelList ∈ (w.act env action).2 := by
  by_cases hr : ∃ a, action = .removeClient a
  · obtain ⟨a, rfl⟩ := hr
    cases hl : w.state.clients.lookup a with
    | none =>
      rw [World.act_removeClient_of_notMem ((notMem_iff_lookup _ _).2 hl)]
      exact .inl rfl
    | some i =>
      have hd := departed_withoutClient (s := w.state) (a := a) i
      rw [World.act_removeClient_of_lookup hl]
      cases hch : i.channel with
      | none =>
        refine .inl (publicChannels_congr (fun _ _ => Iff.rfl) fun x _ b => ?_)
        rw [hd.channelOf_eq_some, and_iff_right_iff_imp]
        rintro hb rfl
        rw [channelOf_of_lookup hl, hch] at hb
        exact absurd hb (by simp)
      | some ch =>
        exact (publicChannels_depart hd ((channelOf_of_lookup hl).trans hch)).imp_right
          (List.mem_cons_of_mem _)
  · exact .inl (by rw [World.state_act fun a ha => hr ⟨a, ha⟩])

/-- A task does its next action, which enqueues no superseded list. -/
theorem ListsFresh.advanced {t : Task} {action : Action} {rest : List Action} (hf : ListsFresh w)
    (ho : Orderly w) (hok : NotSuperseded w (env, .advance t)) (h : w.pending t = action :: rest) :
    ListsFresh ((w.act env action).1.setPending t ((w.act env action).2 ++ rest)) := by
  intro c q channels hl hlast
  rw [World.senders_setPending] at hl
  rw [World.state_setPending]
  have hpend := fun u => ho.pending_advance env (u := u) h
  rcases publicChannels_act env w action with hnow | hpush
  swap
  · refine .inr ⟨t, .readChannelList, ?_, trivial⟩
    rw [hpend, if_pos rfl]
    exact List.mem_append_left _ hpush
  rw [hnow]
  -- A push that was under way in what the step leaves is under way still.
  have hstill : PushUnderWay (w.setPending t rest) c →
      PushUnderWay ((w.act env action).1.setPending t ((w.act env action).2 ++ rest)) c := by
    rintro ⟨u, x, hx, hcar⟩
    rw [World.pending_setPending (World.live_of_pending h)] at hx
    rw [World.state_setPending] at hcar
    refine ⟨u, x, ?_, by rwa [World.state_setPending, hnow]⟩
    rw [hpend]
    split at hx
    · rw [if_pos ‹_›]
      exact List.mem_append_right _ hx
    · rwa [if_neg ‹_›]
  rcases lookup_senders_act_of_last hl hlast with ⟨hadd, hc⟩ | ⟨hno, q₀, hl₀, hlast₀⟩
  · exact (hok t action rest rfl h c channels hadd hc).imp_right hstill
  refine (hf c q₀ channels hl₀ hlast₀).imp_right ?_
  rintro ⟨u, x, hx, hcar⟩
  by_cases hu : u = t
  · subst hu
    rw [h] at hx
    rcases List.mem_cons.1 hx with rfl | hx
    · obtain ⟨y, hy, hcar'⟩ :=
        carries_act env hcar (Finmap.mem_of_lookup_eq_some hl₀) hno
      refine ⟨u, y, ?_, by rwa [World.state_setPending, hnow]⟩
      rw [hpend, if_pos rfl]
      exact List.mem_append_left _ hy
    · refine ⟨u, x, ?_, by rwa [World.state_setPending, hnow]⟩
      rw [hpend, if_pos rfl]
      exact List.mem_append_right _ hx
  · refine ⟨u, x, ?_, by rwa [World.state_setPending, hnow]⟩
    rwa [hpend, if_neg hu]

/-- **One step.**  A step that enqueues no superseded list keeps the lists fresh. -/
theorem ListsFresh.move {ev : World.Event} (hf : ListsFresh w) (ho : Orderly w)
    (hok : NotSuperseded w (env, ev)) (hm : World.Move env w ev w') : ListsFresh w' := by
  cases hm with
  | turnedAway => exact hf
  | @accepted a ha =>
    have hout : a ∉ w.state.clients := fun h => ha (ho.mem_connections h)
    refine hf.mono rfl (fun t x hx => ?_) (.inl (publicChannels_registered hout))
    rw [World.pending_put, if_neg]
    · exact hx
    · rintro rfl
      rw [World.pending_some_of_notMem ha] at hx
      exact absurd hx List.not_mem_nil
  | @handled a msg conn s' name acts hl hidle h =>
    refine hf.mono rfl (fun t x hx => ?_) (h.publicChannels.imp_right fun hp => ⟨some a, ?_⟩)
    · rw [World.pending_put, if_neg]
      · exact hx
      · rintro rfl
        rw [World.pending_some_of_lookup hl, hidle] at hx
        exact absurd hx List.not_mem_nil
    · rw [World.pending_put, if_pos rfl]
      exact hp
  | @limited a ha hidle | @hungUp a ha hidle =>
    refine hf.mono World.senders_setPending (fun t x hx => ?_)
      (.inl (by rw [World.state_setPending]))
    rw [World.pending_setPending (t := some a) ha, if_neg]
    · exact hx
    · rintro rfl
      rw [hidle] at hx
      exact absurd hx List.not_mem_nil
  | advanced h => exact hf.advanced ho hok h
  | swept hidle =>
    refine hf.mono rfl (fun t x hx => ?_) ?_
    · cases t with
      | none =>
        rw [World.pending, hidle] at hx
        exact absurd hx List.not_mem_nil
      | some a => exact hx
    · cases hany : (w.state.cleanupEmptyChannels env).1.any fun id =>
          startsWith id Config.publicChannelPrefix with
      | false =>
        refine .inl (publicChannels_cleanupWith fun x hx => ?_)
        exact Bool.eq_false_iff.2 (List.any_eq_false.1 hany x hx)
      | true =>
        refine .inr ⟨none, ?_⟩
        show Action.readChannelList ∈ (w.sweep env).maintenance
        simp [World.sweep, hany]
  | greeted =>
    exact hf.mono rfl (fun _ _ hx => hx) (.inl publicChannels_registerUdpByToken)
  | shutDown =>
    intro c q channels hl hlast
    have hnd : (env.addrOrder.toList w.senders.keys.val).Nodup :=
      env.addrOrder.nodup_toList.2 w.senders.keys.nodup
    rw [World.lookup_senders_enqueueAll hnd] at hl
    obtain ⟨q₀, hl₀, rfl⟩ := Option.map_eq_some_iff.1 hl
    have hlast₀ : lastChannelList q₀ = some channels := by
      split at hlast
      · rwa [lastChannelList_append] at hlast
      · rwa [List.append_nil] at hlast
    rw [World.enqueueAll_eq]
    exact hf c q₀ channels hl₀ hlast₀

/-! ## Runs -/

theorem listsFresh_listening : ListsFresh (.listening s) := by
  intro c q channels hl
  exact absurd hl (by simp [World.listening])

/-- **When the lists converge.**  Take any run of the server, its tasks interleaved in any
order, whose steps never enqueue a superseded list with no newer one under way to the same
client.  Whenever every handler has finished, the list each client was sent last is the
list of the public channels as they are, up to its order. -/
theorem channelLists_converge (limits : Limits) (s : ServerState) (hs : Started limits s)
    (es : List (Env × World.Event)) (w : World)
    (hok : EachStep World.step NotSuperseded (.listening s) es)
    (hrun : runFrom World.step (.listening s) es = some w) (hq : w.Quiescent)
    (c : SocketAddr) (q : List ServerMessage) (channels : List ChannelInfo)
    (hl : w.senders.lookup c = some q) (hlast : lastChannelList q = some channels) (env : Env) :
    channels.Perm (w.state.listPublicChannels env) := by
  have hinv : Orderly w ∧ ListsFresh w := by
    refine inv_runFrom (fun w => Orderly w ∧ ListsFresh w) ?_
      ⟨orderly_listening hs.clients, listsFresh_listening⟩ hok hrun
    rintro w e w' ⟨ho, hf⟩ hstep h
    have hm := World.step_move h
    exact ⟨ho.move hm, hf.move ho hstep hm⟩
  rw [← Multiset.coe_eq_coe, listPublicChannels, env.listOrder.coe_toList]
  rcases hinv.2 c q channels hl hlast with h | ⟨t, x, hx, -⟩
  · exact h
  · rw [hq t] at hx
    exact absurd hx List.not_mem_nil

/-- A step that enqueues no list but the present one. -/
def sendsPresent (w : World) : World.Event → Bool
  | .advance t =>
    match w.pending t with
    | .send _ (.channelList channels) :: _ =>
      decide ((channels : Multiset ChannelInfo) = w.state.publicChannels)
    | .broadcast _ _ (.channelList _) :: _ => false
    | _ => true
  | _ => true

theorem notSuperseded_of_sendsPresent {e : Env × World.Event} (h : sendsPresent w e.2 = true) :
    NotSuperseded w e := by
  intro t action rest he hp c channels hadd _
  rw [he, sendsPresent, hp] at h
  cases action with
  | send addr msg =>
    rw [Action.addressed] at hadd
    split at hadd
    · rw [Option.some.inj hadd] at h
      exact .inl (of_decide_eq_true h)
    · exact absurd hadd (by simp)
  | broadcast ch ex msg =>
    rw [Action.addressed] at hadd
    split at hadd
    · rw [Option.some.inj hadd] at h
      exact absurd h (by simp)
    · exact absurd hadd (by simp)
  | _ => exact absurd hadd (by simp [Action.addressed])

/-- A client creates `pub-x`, and the list with it reaches the client. -/
def pushedRun : List (Env × World.Event) :=
  sampled 1 (connecting (.v4 1 1) ++
    .request (.v4 1 1) (.createChannel (some "x")) :: advancing (.v4 1 1) 4)

theorem channelLists_converge_pushedRun : ∃ w, w.Quiescent ∧
    [⟨"pub-x", 0⟩].Perm (ServerState.listPublicChannels (.sample 7 1) (World.state w)) := by
  have hs : Started ⟨0, 0⟩ (.new ⟨0, 0⟩) := .refl _ _
  have hok : EachStep World.step (fun w e => sendsPresent w e.2 = true)
      (.listening (.new ⟨0, 0⟩)) pushedRun := by decide
  refine ⟨_, ?_, channelLists_converge ⟨0, 0⟩ _ hs pushedRun _
    (hok.mono fun _ _ => notSuperseded_of_sendsPresent) rfl ?_ (.v4 1 1) _ _ rfl rfl _⟩
  · decide
  · decide

/-- Two clients create a public channel each; the push that the second creation makes
comes after the read and before the sends of the first one's. -/
def overtakenRun : List (Env × World.Event) :=
  sampled 1 (connecting (.v4 1 1) ++ connecting (.v4 2 2) ++
    .request (.v4 1 1) (.createChannel (some "x")) :: advancing (.v4 1 1) 2 ++
    .request (.v4 2 2) (.createChannel (some "y")) :: advancing (.v4 2 2) 5 ++
    advancing (.v4 1 1) 3)

/-- With every handler finished, the list the first client was sent last lacks `pub-y`. -/
theorem superseded_list_shown :
    ∃ w, runFrom World.step (.listening (.new ⟨0, 0⟩)) overtakenRun = some w ∧ w.Quiescent ∧
      ∃ q channels, w.senders.lookup (.v4 1 1) = some q ∧ lastChannelList q = some channels ∧
        ¬ channels.Perm (w.state.listPublicChannels (.sample 7 1)) :=
  ⟨_, rfl, by decide, _, [⟨"pub-x", 0⟩], rfl, by decide, by decide⟩

end Server
end TcVoice
