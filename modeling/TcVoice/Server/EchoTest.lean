import TcVoice.Server.Interleaving
import TcVoice.Server.Participants
import TcVoice.Server.PeerCache

/-!
# Sound checks

A sound check puts its client into an echo channel, made for it, in which the
relay sends voice back to whoever is registered there.  Neither the end of a
sound check nor the privacy of its channel is looked after by the operations
that could break them: a `StopEchoTest` leaves whatever channel its sender is
in, and a join takes any channel that exists.

* `StopsSafely`, `StopsOwnTest` — what a `StopEchoTest` should do, and where its
  sender is when it does.
* `stopsSafely_iff` — **stopping is safe exactly in the runs in which no
  `StopEchoTest` finds its sender in an ordinary channel**, with
  `stopped_in_channel` for a client whose timer is late.
* `EchoIsolated`, `JoinsAlone` — an echo channel has one member, and the relay's
  list for it is that member's address; the joins that keep it so.
* `echoIsolated_iff` — **echo channels stay isolated exactly as long as nobody
  joins one with a member in it**, with `echo_overheard` for a join that does.
-/

namespace TcVoice
namespace Server

open Runs Table ServerState

variable {env : Env} {s s' : ServerState} {op : Op} {w w' : World} {a b c : SocketAddr}
  {ch : ChannelId}

/-- The id is that of an echo channel. -/
def IsEcho (ch : ChannelId) : Prop := startsWith ch Config.echoChannelPrefix = true

instance : DecidablePred IsEcho := fun ch =>
  inferInstanceAs (Decidable (startsWith ch Config.echoChannelPrefix = true))

/-! ## Ending a sound check -/

/-- A `StopEchoTest` takes its sender out of an echo channel, or leaves the registry, its
tokens and the peer cache as they were. -/
def StopsSafely (w : World) (e : Env × World.Event) : Prop :=
  ∀ a, e.2 = .request a .stopEchoTest → ∀ w', w.step e = some w' →
    (∃ ch, IsEcho ch ∧ w.state.channelOf a = some ch ∧ w'.state.channelOf a = none) ∨
      w'.state = w.state

/-- Whoever sends a `StopEchoTest` is in no channel, or in an echo channel. -/
def StopsOwnTest (w : World) (e : Env × World.Event) : Prop :=
  ∀ a, e.2 = .request a .stopEchoTest → ∀ ch, w.state.channelOf a = some ch → IsEcho ch

/-- A `StopEchoTest` is served as a `LeaveChannel` is. -/
theorem step_stopEchoTest (h : w.step (env, .request a .stopEchoTest) = some w') :
    w'.state = (w.state.leaveChannel env a).2 := by
  obtain ⟨name, name', acts, hm⟩ := World.step_request h
  have hs : (handleLeaveChannel env w.state a).1 = w'.state :=
    congrArg Prod.fst (Option.some.inj hm)
  rw [← hs, handleLeaveChannel]
  split <;> simp [*]

/-- A client that has left is in no channel. -/
theorem channelOf_leaveChannel : (s.leaveChannel env a).2.channelOf a = none := by
  cases ha : s.channelOf a with
  | none => rw [leaveChannel_of_channelOf_none ha, ha]
  | some ch =>
    obtain ⟨c, hl, hch⟩ := channelOf_eq_some.1 ha
    rw [leaveChannel_of_lookup hl hch, channelOf_dropParticipant,
      (departed_withoutMember c).channelOf, if_pos rfl]

/-- **One step.**  A `StopEchoTest` is safe exactly when its sender is not in an ordinary
channel. -/
theorem stopsSafely_step {e : Env × World.Event} (h : w.step e = some w') :
    StopsSafely w e ↔ StopsOwnTest w e := by
  constructor
  · intro hsafe a he ch ha
    obtain ⟨env, ev⟩ := e
    cases he
    rcases hsafe a rfl w' h with ⟨ch', hecho, ha', -⟩ | hsame
    · cases Option.some.inj (ha.symm.trans ha')
      exact hecho
    · have hnone : (w.state.leaveChannel env a).2.channelOf a = none := channelOf_leaveChannel
      rw [← step_stopEchoTest h, hsame, ha] at hnone
      exact absurd hnone (by simp)
  · intro hown a he w'' h'
    obtain ⟨env, ev⟩ := e
    cases he
    have hstate := step_stopEchoTest h'
    cases ha : w.state.channelOf a with
    | none =>
      rw [leaveChannel_of_channelOf_none ha] at hstate
      exact .inr hstate
    | some ch =>
      refine .inl ⟨ch, hown a rfl ch ha, rfl, ?_⟩
      rw [hstate]
      exact channelOf_leaveChannel

/-- **When a sound check ends safely.**  In every run of the server, from any state and
with the messages of any number of clients served in any order: each `StopEchoTest` takes
its sender out of an echo channel or changes nothing if and only if none is served while
its sender is in an ordinary channel. -/
theorem stopsSafely_iff (w : World) (es : List (Env × World.Event)) :
    EachStep World.step StopsSafely w es ↔ EachStep World.step StopsOwnTest w es :=
  eachStep_congr fun _ _ _ h => stopsSafely_step h

/-! ## A timer that is late -/

/-- A world that draws one key, one token and one channel id. -/
def Env.drawing (key : UInt8) (token : UInt64) : Env :=
  { Env.sample key token with ids := [Vector.replicate _ 0] }

/-- The end of a sound check that the client's timer sends, after five seconds. -/
def timerStop : Env × World.Event := (.drawing 7 9, .request (.v4 1 1) .stopEchoTest)

/-- A client starts a sound check, cancels it, and joins `pub-x` before the timer of the sound
check has run out. -/
def cancelledRun : List (Env × World.Event) :=
  (connecting (.v4 1 1) ++ .request (.v4 1 1) (.createChannel (some "x")) ::
    advancing (.v4 1 1) 4 ++ .request (.v4 1 1) .startEchoTest :: advancing (.v4 1 1) 1 ++
    .request (.v4 1 1) .stopEchoTest :: advancing (.v4 1 1) 2 ++
    .request (.v4 1 1) (.joinChannel "pub-x") :: advancing (.v4 1 1) 5).map fun ev =>
      (.drawing 7 9, ev)

/-- The timer's `StopEchoTest` takes the client out of `pub-x`. -/
theorem stopped_in_channel :
    ∃ w w', runFrom World.step (.listening (.new ⟨0, 0⟩)) cancelledRun = some w ∧
      w.step timerStop = some w' ∧ w.state.channelOf (.v4 1 1) = some "pub-x" ∧
      w'.state.channelOf (.v4 1 1) = none ∧ ¬ StopsSafely w timerStop := by
  refine ⟨_, _, rfl, rfl, by decide, by decide, fun h => ?_⟩
  have hown := (stopsSafely_step rfl).1 h (.v4 1 1) rfl "pub-x" (by decide)
  exact absurd hown (by decide)

/-! ## Who is in an echo channel -/

theorem freshId_of_startEchoTest {r : ChannelId × UInt64 × Bytes}
    (h : s.startEchoTest env a = some (.ok r, s')) :
    s.freshId env Config.echoChannelPrefix = some r.1 := by
  unfold startEchoTest at h
  split at h
  · cases h
  split at h
  · cases h
  split at h
  · cases h
  obtain ⟨id, hid, h⟩ := Option.bind_eq_some_iff.1 h
  obtain ⟨token, ht, he⟩ := Option.map_eq_some_iff.1 h
  cases he
  exact hid

/-- How a client comes to be in a channel: it was, or it has joined it, or started a sound
check in it. -/
theorem Change.channelOf_cases {op : Op} (hc : Change env s op s')
    (hin : s'.channelOf c = some ch) :
    s.channelOf c = some ch ∨
      (op = .joinChannel c ch ∧ c ∈ s.clients ∧ s.channelOf c = none ∧ ch ∈ s.channels) ∨
      op = .startEchoTest c ∧ IsEcho ch ∧ ch ∉ s.channels ∧ ch ∈ s'.channels ∧
        s.freshId env Config.echoChannelPrefix = some ch := by
  cases hc with
  | refused | created | established | renewed => exact .inl hin
  | registered =>
    rw [channelOf_insert rfl] at hin
    split at hin
    · exact absurd hin (by simp)
    · exact .inl hin
  | rekeyed hl => exact .inl ((channelOf_rekeyed hl).symm.trans hin)
  | renamed hl => exact .inl ((channelOf_renamed hl).symm.trans hin)
  | @removed a i => exact .inl ((departed_withoutClient i).channelOf_eq_some.1 hin).2
  | @hungUp a i =>
    rw [channelOf_dropParticipant] at hin
    exact .inl ((departed_withoutClient i).channelOf_eq_some.1 hin).2
  | @left a i =>
    rw [channelOf_dropParticipant] at hin
    exact .inl ((departed_withoutMember i).channelOf_eq_some.1 hin).2
  | @joined a x token hx ha hout =>
    rw [channelOf_joined ha] at hin
    split at hin
    · rename_i hca
      subst hca
      cases hin
      exact .inr (.inl ⟨rfl, ha, hout, hx⟩)
    · exact .inl hin
  | @echoed a x token hx ha hout h0 htok hdraw hr =>
    rw [channelOf_echoed ha] at hin
    split at hin
    · rename_i hca
      subst hca
      cases hin
      obtain ⟨draw, rfl⟩ := hdraw
      exact .inr (.inr ⟨rfl, startsWith_append _ _, hx, Finmap.mem_insert.2 (.inl rfl),
        freshId_of_startEchoTest hr⟩)
    · exact .inl hin
  | greeted ht hip hl => exact .inl ((channelOf_greeted hl).symm.trans hin)
  | swept => exact .inl (channelOf_cleanupWith.symm.trans hin)

/-- A channel that is destroyed has lost a member, or had none. -/
theorem Change.lives_or {op : Op} (hc : Change env s op s') (hch : ch ∈ s.channels) :
    ch ∈ s'.channels ∨ (∃ a, s.channelOf a = some ch ∧ s'.channelOf a = none) ∨
      ∀ a, s.channelOf a ≠ some ch := by
  have hdrop : ∀ {a : SocketAddr} {s₁ : ServerState} {x : ChannelId} {udp : Option SocketAddr},
      Departed s a s₁ → s.channelOf a = some x → ch ∈ (s₁.dropParticipant env x udp).channels ∨
        ∃ b, s.channelOf b = some ch ∧ (s₁.dropParticipant env x udp).channelOf b = none := by
    intro a s₁ x udp hd ha
    by_cases hx : ch = x
    · subst hx
      exact .inr ⟨a, ha, by rw [channelOf_dropParticipant, hd.channelOf, if_pos rfl]⟩
    · left
      rw [mem_channels_dropParticipant, hd.channels]
      exact ⟨hch, fun h => hx h.1⟩
  cases hc with
  | refused | registered | rekeyed | renamed | removed | renewed => exact .inl hch
  | hungUp hl hi =>
    exact (hdrop (departed_withoutClient _) ((channelOf_of_lookup hl).trans hi)).imp_right .inl
  | left hl hi =>
    exact (hdrop (departed_withoutMember _) ((channelOf_of_lookup hl).trans hi)).imp_right .inl
  | created | established | echoed => exact .inl (Finmap.mem_insert.2 (.inr hch))
  | joined => exact .inl (by rwa [channels_joined])
  | greeted => exact .inl (mem_channels_greeted.2 hch)
  | @swept grace ttl =>
    by_cases hgone : ch ∈ (s.cleanupWith env grace ttl).1
    · exact .inr (.inr (of_mem_cleanupWith hgone).2.1)
    · exact .inl (mem_channels_cleanupWith.2 ⟨hch, hgone⟩)

/-- Echo channels have one member at most. -/
def Alone (s : ServerState) : Prop :=
  ∀ ch a b, IsEcho ch → s.channelOf a = some ch → s.channelOf b = some ch → a = b

/-- An echo channel has one member at most, and what the relay is told to send a packet of
it to is that member's address. -/
structure EchoIsolated (s : ServerState) : Prop where
  alone : Alone s
  reflected : ∀ ch x out u, IsEcho ch → u ∈ s.fillChannelPeers ch x out →
    ∃ a, s.channelOf a = some ch ∧ s.udpOf a = some u

/-- A client in no channel that joins an existing echo channel finds nobody in it. -/
def JoinsAlone (s : ServerState) (op : Op) : Prop :=
  ∀ a ch, op = .joinChannel a ch → IsEcho ch → ch ∈ s.channels → a ∈ s.clients →
    s.channelOf a = none → ∀ b, s.channelOf b ≠ some ch

/-- The channel of every member of an echo channel exists. -/
def EchoLive (s : ServerState) : Prop :=
  ∀ a ch, IsEcho ch → s.channelOf a = some ch → ch ∈ s.channels

/-- The only member of an echo channel takes the channel from nobody else. -/
theorem EchoLive.change (hlive : EchoLive s) (hone : Alone s) (hc : Change env s op s') :
    EchoLive s' := by
  intro b x hecho hb
  rcases hc.channelOf_cases hb with hin | ⟨rfl, hclient, hout, hx⟩ | ⟨-, -, -, hx, -⟩
  · rcases hc.lives_or (hlive b x hecho hin) with hx | ⟨a, ha, hgone⟩ | hnone
    · exact hx
    · rw [hone x a b hecho ha hin, hb] at hgone
      exact absurd hgone (by simp)
    · exact absurd hin (hnone b)
  · cases hc with
    | refused => exact hx
    | joined => rwa [channels_joined]
  · exact hx

/-- **One step.**  Where echo channels have one member at most, a step leaves them so exactly
when it lets nobody in with another. -/
theorem alone_change (hlive : EchoLive s) (hone : Alone s) (hc : Change env s op s') :
    Alone s' ↔ JoinsAlone s op := by
  constructor
  · rintro hone' a x rfl hecho hx ha hout b hb
    cases hc with
    | refused h =>
      obtain ⟨e, he⟩ := h
      rcases of_joinChannel_error he with h | h | h
      · exact h hx
      · exact h ha
      · exact h hout
    | joined =>
      have hba : b ≠ a := by
        rintro rfl
        rw [hout] at hb
        exact absurd hb (by simp)
      refine hba (hone' x b a hecho ?_ ?_)
      · rw [channelOf_joined ha, if_neg hba, hb]
      · rw [channelOf_joined ha, if_pos rfl]
  · intro hjoin x b c hecho hb hc'
    rcases hc.channelOf_cases hb with hb | ⟨rfl, hin, hout, hx⟩ | ⟨rfl, -, hx, -⟩ <;>
      rcases hc.channelOf_cases hc' with hc' | ⟨hop, hin', hout', hx'⟩ | ⟨hop, -, hx', -⟩
    · exact hone x b c hecho hb hc'
    · exact absurd hb (hjoin c x hop hecho hx' hin' hout' b)
    -- The id of a sound check is drawn among those no channel has, so nobody was left in it.
    · exact absurd (hlive b x hecho hb) hx'
    · exact absurd hc' (hjoin b x rfl hecho hx hin hout c)
    · exact (Op.joinChannel.inj hop).1
    · exact absurd hop (by simp)
    · exact absurd (hlive c x hecho hc') hx
    · exact absurd hop (by simp)
    · exact Op.startEchoTest.inj hop

/-! ## Runs of the server -/

/-- What holds of a server between its steps as long as echo channels are isolated. -/
structure EchoKept (w : World) : Prop where
  orderly : Orderly w
  tokens : TokensMatch w.state
  owned : ParticipantsOwned w.state
  cache : CacheMatches w.state
  live : EchoLive w.state

/-- The relay's list for a channel is made of its members' addresses. -/
theorem EchoKept.isolated_iff (hk : EchoKept w) : EchoIsolated w.state ↔ Alone w.state := by
  refine ⟨EchoIsolated.alone, fun hone => ⟨hone, fun ch x out u _ hu => ?_⟩⟩
  rw [fillChannelPeers_eq] at hu
  have hin : u ∈ (w.state.cachedPeers ch : Multiset SocketAddr) :=
    Multiset.mem_coe.2 (List.mem_of_mem_filter hu)
  rw [hk.cache ch] at hin
  exact hk.owned ch u hin

/-- A step keeps this, as long as echo channels have one member at most. -/
theorem EchoKept.step {e : Env × World.Event} (hk : EchoKept w) (hone : Alone w.state)
    (h : w.step e = some w') : EchoKept w' := by
  have hm := World.step_move h
  have ho := hk.orderly.move hm
  rcases hm.registry hk.orderly with heq | ⟨op, hadm, hexec⟩
  · exact ⟨ho, heq ▸ hk.tokens, heq ▸ hk.owned, heq ▸ hk.cache, heq ▸ hk.live⟩
  · have hc := exec_change hexec
    exact ⟨ho, hk.tokens.change hadm.address hc, hk.owned.change hk.tokens hadm.address hc,
      hk.cache.change hc, hk.live.change hone hc⟩

/-- A join by a client in no channel, of an echo channel that exists, finds nobody in it. -/
def JoinsEmptyEcho (w : World) (e : Env × World.Event) : Prop :=
  ∀ a ch, e.2 = .request a (.joinChannel ch) → IsEcho ch → ch ∈ w.state.channels →
    a ∈ w.state.clients → w.state.channelOf a = none → ∀ b, w.state.channelOf b ≠ some ch

/-- Only a request to join is served with a join. -/
theorem asks_joinChannel {ev : World.Event}
    (h : ev.Asks (.joinChannel a ch)) : ev = .request a (.joinChannel ch) := by
  cases ev with
  | request b msg =>
    cases msg with
    | joinChannel x =>
      obtain ⟨rfl, rfl⟩ := h
      rfl
    | _ => exact h.elim
  | _ => exact h.elim

/-- Only a request for a sound check is served with one. -/
theorem asks_startEchoTest {ev : World.Event}
    (h : ev.Asks (.startEchoTest a)) : ev = .request a .startEchoTest := by
  cases ev with
  | request b msg =>
    cases msg with
    | startEchoTest =>
      cases h
      rfl
    | _ => exact h.elim
  | _ => exact h.elim

/-- A request to join is served with a join. -/
theorem step_joinChannel (h : w.step (env, .request a (.joinChannel ch)) = some w') :
    exec env w.state (.joinChannel a ch) = some w'.state := by
  refine World.step_operation (fun _ => rfl) (fun _ r _ => ?_) h
  cases r <;> rfl

/-- **One step of the server.** -/
theorem echoIsolated_step {e : Env × World.Event} (hk : EchoKept w) (hi : EchoIsolated w.state)
    (h : w.step e = some w') : EchoIsolated w'.state ↔ JoinsEmptyEcho w e := by
  rw [(hk.step hi.alone h).isolated_iff]
  obtain ⟨env, ev⟩ := e
  by_cases hjoin : ∃ a ch, ev = .request a (.joinChannel ch)
  · obtain ⟨a, ch, rfl⟩ := hjoin
    rw [alone_change hk.live hi.alone (exec_change (step_joinChannel h))]
    constructor
    · intro hj b x he
      cases he
      exact hj a ch rfl
    · intro hj b x he
      cases he
      exact hj a ch rfl
  · simp only [not_exists] at hjoin
    refine iff_of_true ?_ fun a ch he => absurd he (hjoin a ch)
    rcases (World.step_move h).call hk.orderly with heq | ⟨op, hasks, -, hexec⟩
    · rw [heq]
      exact hi.alone
    · refine (alone_change hk.live hi.alone (exec_change hexec)).2 ?_
      rintro a ch rfl
      exact absurd (asks_joinChannel hasks) (hjoin a ch)

theorem echoKept_listening {limits : Limits} (hs : Started limits s) :
    EchoKept (.listening s) := by
  have hreg : TokensMatch s ∧ ParticipantsOwned s ∧ CacheMatches s := by
    refine hs.reachable.induct (fun s => TokensMatch s ∧ ParticipantsOwned s ∧ CacheMatches s)
      ⟨tokensMatch_new limits, participantsOwned_new limits, cacheMatches_new limits⟩ ?_
    rintro s e s' ⟨ht, ho, hm⟩ hadm h
    have hc := exec_change h
    exact ⟨ht.change hadm.address hc, ho.change ht hadm.address hc, hm.change hc⟩
  refine ⟨orderly_listening hs.clients, hreg.1, hreg.2.1, hreg.2.2, fun a ch _ ha => ?_⟩
  exact absurd (hs.channelOf.symm.trans ha) (by simp)

/-- **When echo channels are isolated.**  In every run of the server from its start, with the
messages of any number of clients served in any order: every echo channel has one member at
most throughout, and the relay's list for it is that member's address, if and only if each
join of an existing echo channel along the run, by a client in no channel, finds nobody in it. -/
theorem echoIsolated_iff (limits : Limits) (s : ServerState) (hs : Started limits s)
    (es : List (Env × World.Event)) :
    Throughout World.step (fun w => EchoIsolated w.state) (.listening s) es ↔
      EachStep World.step JoinsEmptyEcho (.listening s) es := by
  have hk := echoKept_listening hs
  refine throughout_iff_eachStep_while EchoKept
    (fun _ _ _ hk hi _ h _ => hk.step hi.alone h)
    (fun _ _ _ hk hi _ h => echoIsolated_step hk hi h) hk
    (hk.isolated_iff.2 fun ch a b _ ha => ?_) (eachStep_true _ _)
  exact absurd (hs.channelOf.symm.trans ha) (by simp)

/-! ## A sound check that is overheard -/

/-- Two clients connect; the first starts a sound check. -/
def soundCheck : List (Env × World.Event) :=
  (connecting (.v4 1 1) ++ connecting (.v4 2 2) ++ .request (.v4 1 1) .startEchoTest ::
    advancing (.v4 1 1) 1).map fun ev => (.drawing 7 9, ev)

/-- The second joins its channel, and both say their hello. -/
def overheardRun : List (Env × World.Event) :=
  soundCheck ++ [(.drawing 7 8, .request (.v4 2 2) (.joinChannel "echo-aaaaa")),
    (.drawing 7 8, .udpHello 9 (.v4 1 11)), (.drawing 7 8, .udpHello 8 (.v4 2 22))]

/-- The run begins with a registry that has nothing in it. -/
theorem echoIsolated_iff_overheardRun :
    Throughout World.step (fun w => EchoIsolated w.state) (.listening (.new ⟨0, 0⟩))
        overheardRun ↔
      EachStep World.step JoinsEmptyEcho (.listening (.new ⟨0, 0⟩)) overheardRun :=
  echoIsolated_iff ⟨0, 0⟩ (.new ⟨0, 0⟩) (.refl _ _) overheardRun

/-- What the first says is sent to the second. -/
theorem echo_overheard :
    ∃ w, runFrom World.step (.listening (.new ⟨0, 0⟩)) overheardRun = some w ∧
      w.state.fillChannelPeers "echo-aaaaa" (.v4 0 0) [] = [.v4 1 11, .v4 2 22] ∧
      ¬ EchoIsolated w.state := by
  refine ⟨_, rfl, by decide, fun h => ?_⟩
  exact absurd (h.alone "echo-aaaaa" (.v4 1 1) (.v4 2 2) (by decide) (by decide) (by decide))
    (by decide)

end Server
end TcVoice
