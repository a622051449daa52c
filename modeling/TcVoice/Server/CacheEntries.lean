import TcVoice.Server.Coherence

/-!
# How many entries the peer cache has

The relay's cache gets an entry for a channel whenever it is brought up to date,
and loses it only where a departure destroys the channel.  This file is about
whether entries outlive their channels.

* `CacheBounded` — every channel in the cache exists, so that the cache is no
  larger than the table of channels.
* `FindsChannel` — the steps that bring the cache up to date for a channel that
  is still there.
* `cacheBounded_iff` — **nothing leaks along a run exactly when each departure
  and each hello of the run finds its channel**, with `entry_leaked` for a run
  in which one does not.
-/

namespace TcVoice
namespace Server

open Runs Table ServerState

variable {env : Env} {s s' : ServerState} {op : Op} {ch x : ChannelId}

/-! ## Entries and channels -/

/-- The cache lists channels that exist, so no more of them than there are. -/
structure CacheBounded (s : ServerState) : Prop where
  live : ∀ x, x ∈ s.peerCache → x ∈ s.channels
  len : s.peerCache.len ≤ s.channels.len

theorem CacheBounded.of_live (h : ∀ x, x ∈ s.peerCache → x ∈ s.channels) : CacheBounded s :=
  ⟨h, len_mono h⟩

theorem cacheBounded_new (limits : Limits) : CacheBounded (.new limits) :=
  .of_live fun _ h => absurd h Finmap.notMem_empty

/-- A step that brings the cache up to date finds the channel: a client that leaves or is
disconnected leaves an existing channel, and a hello that is accepted is for one. -/
structure FindsChannel (s : ServerState) (e : Call) : Prop where
  departure : ∀ a, (e.2 = .leaveChannel a ∨ e.2 = .removeClient a) →
    ∀ ch, s.channelOf a = some ch → ch ∈ s.channels
  hello : ∀ token udp, e.2 = .registerUdpByToken token udp → ∀ tcp ch created,
    s.udpTokens.lookup token = some (tcp, ch, created) → tcp ∈ s.clients →
      tcp.ip.toCanonical = udp.ip.toCanonical → ch ∈ s.channels

theorem findsChannel_of_ne (hleave : ∀ a, op ≠ .leaveChannel a) (hrem : ∀ a, op ≠ .removeClient a)
    (hhello : ∀ token udp, op ≠ .registerUdpByToken token udp) : FindsChannel s (env, op) where
  departure a h := absurd h (not_or_intro (hleave a) (hrem a))
  hello token udp h := absurd h (hhello token udp)

/-- What a sweep may reap has no entry: every cached channel is persistent, or has an
address registered in it. -/
def CachedInUse (s : ServerState) : Prop :=
  ∀ x, x ∈ s.peerCache → x ∈ s.persistent ∨ s.participants x ≠ ∅

/-! ## Departures -/

section Drop

variable {udp : Option SocketAddr}

theorem mem_peerCache_dropParticipant :
    x ∈ (s.dropParticipant env ch udp).peerCache ↔
      if x = ch then ¬ s.destroys ch udp else x ∈ s.peerCache := by
  rw [mem_iff_lookup, lookup_peerCache_dropParticipant, mem_iff_lookup]
  split
  · split <;> simp [*]
  · rfl

/-- A departure leaks an entry exactly when the channel was gone already. -/
theorem cacheBounded_dropParticipant (hb : CacheBounded s) :
    CacheBounded (s.dropParticipant env ch udp) ↔ ch ∈ s.channels := by
  constructor
  · intro hb'
    by_contra hch
    have hnot : ¬ s.destroys ch udp := fun hd => hch hd.1
    have hin : ch ∈ (s.dropParticipant env ch udp).peerCache := by
      rw [mem_peerCache_dropParticipant, if_pos rfl]
      exact hnot
    exact hch (mem_channels_dropParticipant.1 (hb'.live ch hin)).1
  · intro hch
    refine .of_live fun x hx => ?_
    rw [mem_peerCache_dropParticipant] at hx
    rw [mem_channels_dropParticipant]
    split at hx
    · rename_i he
      exact ⟨he ▸ hch, fun hd => hx hd.2⟩
    · rename_i hne
      exact ⟨hb.live x hx, fun hd => hne hd.1⟩

theorem cachedInUse_dropParticipant (hu : CachedInUse s)
    (hb : CacheBounded (s.dropParticipant env ch udp)) :
    CachedInUse (s.dropParticipant env ch udp) := by
  intro x hx
  have hex := (mem_channels_dropParticipant.1 (hb.live x hx)).1
  rw [mem_peerCache_dropParticipant] at hx
  rw [persistent_dropParticipant, participants_dropParticipant]
  split at hx
  · -- The channel was kept: somebody else's address is in it, or it is persistent.
    rename_i he
    subst he
    by_cases hper : x ∈ s.persistent
    · exact .inl hper
    · rw [if_pos rfl]
      exact .inr fun hempty => hx ⟨hex, hempty, hper⟩
  · rename_i hne
    rw [if_neg hne]
    exact hu x hx

end Drop

/-! ## Hellos -/

theorem mem_peerCache_greeted {token : UInt64} {tcp udp : SocketAddr} {c : ClientInfo} :
    x ∈ (s.greeted env token tcp c ch udp).peerCache ↔ x = ch ∨ x ∈ s.peerCache :=
  Finmap.mem_insert

theorem cacheBounded_greeted {token : UInt64} {tcp udp : SocketAddr} {c : ClientInfo}
    (hb : CacheBounded s) :
    CacheBounded (s.greeted env token tcp c ch udp) ↔ ch ∈ s.channels := by
  constructor
  · intro hb'
    exact mem_channels_greeted.1 (hb'.live ch (mem_peerCache_greeted.2 (.inl rfl)))
  · intro hch
    refine .of_live fun x hx => mem_channels_greeted.2 ?_
    rcases mem_peerCache_greeted.1 hx with rfl | hx
    · exact hch
    · exact hb.live x hx

theorem rebindAddr_ne_empty {prev : Option SocketAddr} {udp : SocketAddr}
    {ps : Finset SocketAddr} : rebindAddr prev udp ps ≠ ∅ := Finset.insert_ne_empty _ _

theorem cachedInUse_greeted {token : UInt64} {tcp udp : SocketAddr} {c : ClientInfo}
    (hu : CachedInUse s) (hch : ch ∈ s.channels) :
    CachedInUse (s.greeted env token tcp c ch udp) := by
  intro x hx
  rw [participants_greeted hch]
  split
  · exact .inr rebindAddr_ne_empty
  · rename_i hne
    exact hu x ((mem_peerCache_greeted.1 hx).resolve_left hne)

/-! ## Runs -/

/-- **One step.**  From a state without leaks, a step leads to such a state exactly when it
finds its channel. -/
theorem cacheBounded_change (hu : CachedInUse s) (hb : CacheBounded s)
    (hc : Change env s op s') : CacheBounded s' ↔ FindsChannel s (env, op) := by
  cases hc with
  | @refused op h =>
    refine iff_of_true hb ⟨?_, ?_⟩
    · intro a hop ch ha
      rw [channelOf_of_refused h hop] at ha
      cases ha
    · rintro token udp rfl tcp ch created ht - hip
      exact absurd hip (h tcp ch created ht)
  | registered | rekeyed | renamed =>
    exact iff_of_true (.of_live hb.live) (findsChannel_of_ne (by simp) (by simp) (by simp))
  | @removed a c hl hch =>
    refine iff_of_true (.of_live hb.live) ⟨?_, by simp⟩
    rintro b (h | h) ch hb <;> cases h
    rw [channelOf_of_lookup hl, hch] at hb
    exact absurd hb (by simp)
  | @hungUp a c ch hl hch =>
    have ha : s.channelOf a = some ch := (channelOf_of_lookup hl).trans hch
    rw [cacheBounded_dropParticipant (s := s.withoutClient a c) (.of_live hb.live)]
    exact ⟨fun hex => ⟨(forall_departing_iff (.inr rfl) ha).2 hex, by simp⟩, fun h =>
      h.departure a (.inr rfl) ch ha⟩
  | @left a c ch hl hch =>
    have ha : s.channelOf a = some ch := (channelOf_of_lookup hl).trans hch
    rw [cacheBounded_dropParticipant (s := s.withoutMember a c) (.of_live hb.live)]
    exact ⟨fun hex => ⟨(forall_departing_iff (.inl rfl) ha).2 hex, by simp⟩, fun h =>
      h.departure a (.inl rfl) ch ha⟩
  | created | established | echoed =>
    refine iff_of_true (.of_live fun x hx => Finmap.mem_insert.2 (.inr (hb.live x hx)))
      (findsChannel_of_ne (by simp) (by simp) (by simp))
  | joined =>
    refine iff_of_true (.of_live fun x hx => ?_)
      (findsChannel_of_ne (by simp) (by simp) (by simp))
    rw [peerCache_joined] at hx
    rw [channels_joined]
    exact hb.live x hx
  | @renewed token udp tcp ch created ht htcp =>
    refine iff_of_true (.of_live hb.live) ⟨by simp, ?_⟩
    rintro token' udp' h tcp' ch' created' ht' hin -
    cases h
    cases Option.some.inj (ht.symm.trans ht')
    exact absurd hin htcp
  | @greeted token udp tcp ch created c ht hip hl =>
    rw [cacheBounded_greeted hb]
    refine ⟨fun hex => ⟨by simp, ?_⟩, fun h =>
      h.hello token udp rfl tcp ch created ht (Finmap.mem_of_lookup_eq_some hl) hip⟩
    rintro token' udp' h tcp' ch' created' ht' - -
    cases h
    cases Option.some.inj (ht.symm.trans ht')
    exact hex
  | swept =>
    refine iff_of_true (.of_live fun x hx => ?_)
      (findsChannel_of_ne (by simp) (by simp) (by simp))
    rw [cleanupWith_peerCache] at hx
    refine mem_channels_cleanupWith.2 ⟨hb.live x hx, fun hin => ?_⟩
    obtain ⟨hempty, -, hper⟩ := of_mem_cleanupWith hin
    exact (hu x hx).elim hper fun hne => hne (participants_of_lookup hempty)

/-- As long as nothing leaks, a sweep finds no entry for what it reaps. -/
theorem cachedInUse_change (hu : CachedInUse s) (hb' : CacheBounded s')
    (hc : Change env s op s') : CachedInUse s' := by
  cases hc with
  | refused | registered | rekeyed | renamed | removed | renewed => exact hu
  | @hungUp a c => exact cachedInUse_dropParticipant (s := s.withoutClient a c) hu hb'
  | @left a c => exact cachedInUse_dropParticipant (s := s.withoutMember a c) hu hb'
  | created hid | echoed hid =>
    intro x hx
    exact (hu x hx).imp_right fun hne => by rwa [← participants_addChannel env hid] at hne
  | established hid =>
    intro x hx
    exact (hu x hx).imp (Finset.mem_insert_of_mem ·) fun hne => by
      rwa [← participants_addChannel env hid] at hne
  | joined =>
    intro x hx
    rw [peerCache_joined] at hx
    rw [persistent_joined, participants, channels_joined]
    exact hu x hx
  | greeted =>
    exact cachedInUse_greeted hu
      (mem_channels_greeted.1 (hb'.live _ (mem_peerCache_greeted.2 (.inl rfl))))
  | swept =>
    intro x hx
    rw [cleanupWith_peerCache] at hx
    rw [cleanupWith_persistent, participants_cleanupWith]
    exact hu x hx

/-- **When the cache leaks.**  In every run from the empty registry, under any arguments,
clock readings and draws: every channel in the relay's cache exists throughout the run if
and only if each departure and each accepted hello along it finds its channel existing. -/
theorem cacheBounded_iff (limits : Limits) (es : List Call) :
    Throughout step CacheBounded (.new limits) es ↔
      EachStep step FindsChannel (.new limits) es :=
  throughout_iff_eachStep_while CachedInUse
    (fun _ _ _ hu _ _ h hb' => cachedInUse_change hu hb' (exec_change h))
    (fun _ _ _ hu hb _ h => cacheBounded_change hu hb (exec_change h))
    (fun _ h => absurd h Finmap.notMem_empty) (cacheBounded_new limits) (eachStep_true _ _)

/-! ## A run that leaks an entry -/

/-- Two clients join `pub-x` and neither has said its UDP hello; one leaves, then the other. -/
def leakingRun : List Call :=
  lostChannelRun ++ [(.sample 7 1, .leaveChannel (.v4 2 2))]

/-- There is no channel any more, and the cache has an entry for `pub-x`. -/
theorem entry_leaked :
    ∃ s, runFrom step (.new ⟨0, 0⟩) leakingRun = some s ∧ ¬ CacheBounded s := by
  refine ⟨_, rfl, fun h => ?_⟩
  exact absurd (h.live "pub-x" (by decide)) (by decide)

end Server
end TcVoice
