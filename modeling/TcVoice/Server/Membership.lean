import TcVoice.Server.Registry

/-!
# Members and their channels

A client is in a channel as far as the `clients` table goes, and a channel
exists as far as the `channels` table goes.  This file is about the two agreeing.

* `KeysMatch` — a channel has a key exactly when it exists, in every state.
* `MembersHaveChannels` — every member's channel exists and has a key.
* `SparesMembers` — the steps that do not take a channel away from a member
  that stays behind.  Departures decide on the participant set, which holds
  only the members that have said their UDP hello; the maintenance sweep looks
  at the members as well.
* `membersHaveChannels_iff` — **a run keeps every member's channel exactly when
  each of its departures spares the members that stay**, with
  `channel_lost_under_member` for a run that does not.
-/

namespace TcVoice
namespace Server

open Runs Table ServerState

variable {env : Env} {s s' : ServerState} {op : Op}

/-! ## A channel has a key exactly when it exists -/

/-- The channels with a key are the channels there are. -/
def KeysMatch (s : ServerState) : Prop := ∀ x, x ∈ s.channelKeys ↔ x ∈ s.channels

theorem keysMatch_new (limits : Limits) : KeysMatch (.new limits) := by
  intro x
  exact iff_of_false Finmap.notMem_empty Finmap.notMem_empty

theorem mem_channelKeys_dropParticipant {ch x : ChannelId} {udp : Option SocketAddr} :
    x ∈ (s.dropParticipant env ch udp).channelKeys ↔
      x ∈ s.channelKeys ∧ ¬ (x = ch ∧ s.destroys ch udp) := by
  rw [mem_iff_lookup, lookup_channelKeys_dropParticipant, mem_iff_lookup]
  split <;> simp [*]

theorem KeysMatch.depart {s₁ : ServerState} {a : SocketAddr} {ch : ChannelId}
    {udp : Option SocketAddr} (hk : KeysMatch s) (hd : Departed s a s₁) :
    KeysMatch (s₁.dropParticipant env ch udp) := by
  intro x
  rw [mem_channelKeys_dropParticipant, mem_channels_dropParticipant, hd.channelKeys, hd.channels,
    hk x]

theorem KeysMatch.change (hk : KeysMatch s) (hc : Change env s op s') : KeysMatch s' := by
  cases hc with
  | refused | registered | rekeyed | renamed | removed | renewed => exact hk
  | hungUp => exact hk.depart (departed_withoutClient _)
  | left => exact hk.depart (departed_withoutMember _)
  | created | established | echoed =>
    intro x
    show x ∈ Finmap.insert _ _ _ ↔ x ∈ Finmap.insert _ _ _
    rw [Finmap.mem_insert, Finmap.mem_insert, hk x]
  | joined hch =>
    intro x
    rw [channelKeys_joined, channels_joined]
    split
    · rw [Finmap.mem_insert, hk x, or_iff_right_iff_imp]
      rintro rfl
      exact hch
    · exact hk x
  | greeted => exact fun x => (hk x).trans mem_channels_greeted.symm
  | swept =>
    intro x
    rw [mem_channelKeys_cleanupWith, mem_channels_cleanupWith, hk x]

theorem KeysMatch.step {e : Call} (hk : KeysMatch s) (h : step s e = some s') : KeysMatch s' :=
  hk.change (exec_change h)

/-! ## Departures that spare the members that stay -/

/-- Every member's channel exists and has a key. -/
def MembersHaveChannels (s : ServerState) : Prop :=
  ∀ a ch, s.channelOf a = some ch → ch ∈ s.channels ∧ ch ∈ s.channelKeys

/-- A client may go from this channel: it is persistent, or somebody else's UDP
address is registered in it, or nobody else is in it. -/
def MayGo (s : ServerState) (a : SocketAddr) (ch : ChannelId) : Prop :=
  ch ∈ s.persistent ∨ (∃ u ∈ s.participants ch, s.udpOf a ≠ some u) ∨
    ∀ b, s.channelOf b = some ch → b = a

/-- A step spares the members: whoever leaves or is disconnected may go. -/
def SparesMembers (s : ServerState) (e : Call) : Prop :=
  ∀ a, (e.2 = .leaveChannel a ∨ e.2 = .removeClient a) →
    ∀ ch, s.channelOf a = some ch → MayGo s a ch

/-- A departure leaves the channel standing when another address is registered in it. -/
theorem removeAddr_eq_empty_iff {udp : Option SocketAddr} {ps : Finset SocketAddr} :
    removeAddr udp ps = ∅ ↔ ¬ ∃ u ∈ ps, udp ≠ some u := by
  cases udp with
  | none => simp [removeAddr, Finset.eq_empty_iff_forall_notMem]
  | some v =>
    simp only [removeAddr, Finset.eq_empty_iff_forall_notMem, Finset.mem_erase, ne_eq,
      Option.some.injEq]
    constructor
    · rintro h ⟨u, hu, hne⟩
      exact h u ⟨fun he => hne he.symm, hu⟩
    · intro h u hu
      exact h ⟨u, hu.2, fun he => hu.1 he.symm⟩

/-- The heart of the matter: after a client has gone from an existing channel, every
member still has its channel exactly when that client was free to go. -/
theorem membersHaveChannels_depart {s₁ : ServerState} {a : SocketAddr} {ch : ChannelId}
    (hk : KeysMatch s) (hm : MembersHaveChannels s) (hd : Departed s a s₁)
    (ha : s.channelOf a = some ch) :
    MembersHaveChannels (s₁.dropParticipant env ch (s.udpOf a)) ↔ MayGo s a ch := by
  have hex : ch ∈ s.channels := (hm a ch ha).1
  have hdes : s₁.destroys ch (s.udpOf a) ↔
      ¬ (∃ u ∈ s.participants ch, s.udpOf a ≠ some u) ∧ ch ∉ s.persistent := by
    rw [hd.destroys, destroys, removeAddr_eq_empty_iff]
    simp [hex]
  constructor
  · intro h
    by_contra hgo
    simp only [MayGo, not_or, not_forall] at hgo
    obtain ⟨hper, haddr, b, hb, hba⟩ := hgo
    have hb' : (s₁.dropParticipant env ch (s.udpOf a)).channelOf b = some ch := by
      rw [channelOf_dropParticipant]
      exact hd.channelOf_eq_some.2 ⟨hba, hb⟩
    exact (mem_channels_dropParticipant.1 (h b ch hb').1).2 ⟨rfl, hdes.2 ⟨haddr, hper⟩⟩
  · intro hgo b x hb
    rw [channelOf_dropParticipant, hd.channelOf_eq_some] at hb
    obtain ⟨hba, hb⟩ := hb
    have hstay : ¬ (x = ch ∧ s₁.destroys ch (s.udpOf a)) := by
      rintro ⟨rfl, h⟩
      obtain ⟨haddr, hper⟩ := hdes.1 h
      rcases hgo with h | h | h
      · exact hper h
      · exact haddr h
      · exact hba (h b hb)
    have hx : x ∈ (s₁.dropParticipant env ch (s.udpOf a)).channels := by
      rw [mem_channels_dropParticipant, hd.channels]
      exact ⟨(hm b x hb).1, hstay⟩
    exact ⟨hx, (hk.depart hd x).2 hx⟩

theorem membersHaveChannels_new (limits : Limits) : MembersHaveChannels (.new limits) := by
  intro a ch h
  simp [ServerState.channelOf, ServerState.new] at h

/-- A change that keeps the memberships and does not lose a channel keeps the property. -/
theorem MembersHaveChannels.mono (hm : MembersHaveChannels s) (hk : KeysMatch s')
    (hof : ∀ a ch, s'.channelOf a = some ch → s.channelOf a = some ch ∨ ch ∈ s'.channels)
    (hsub : ∀ x, x ∈ s.channels → x ∈ s'.channels) : MembersHaveChannels s' := by
  intro a ch h
  have hx : ch ∈ s'.channels := by
    rcases hof a ch h with h | h
    · exact hsub ch (hm a ch h).1
    · exact h
  exact ⟨hx, (hk ch).2 hx⟩

/-- Where nobody leaves and no channel is lost, members keep their channels. -/
theorem membersHaveChannels_kept (hm : MembersHaveChannels s) (hk : KeysMatch s')
    (hof : ∀ a ch, s'.channelOf a = some ch → s.channelOf a = some ch ∨ ch ∈ s'.channels)
    (hsub : ∀ x, x ∈ s.channels → x ∈ s'.channels)
    (hstay : ∀ a, op ≠ .leaveChannel a ∧ op ≠ .removeClient a) :
    MembersHaveChannels s' ↔ SparesMembers s (env, op) := by
  refine iff_of_true (hm.mono hk hof hsub) ?_
  rintro a (hop | hop)
  · exact absurd hop (hstay a).1
  · exact absurd hop (hstay a).2

/-- **One step.**  From a state where every member has its channel, a step leads to
such a state exactly when it spares the members. -/
theorem membersHaveChannels_change (hk : KeysMatch s) (hm : MembersHaveChannels s)
    (hc : Change env s op s') : MembersHaveChannels s' ↔ SparesMembers s (env, op) := by
  have hk' := hk.change hc
  cases hc with
  | refused h =>
    refine iff_of_true hm ?_
    intro a hop ch ha
    rw [channelOf_of_refused h hop] at ha
    cases ha
  | registered =>
    refine membersHaveChannels_kept hm hk' (fun b x hb => ?_) (fun _ h => h) (by simp)
    rw [channelOf_insert rfl] at hb
    split at hb
    · exact absurd hb (by simp)
    · exact .inl hb
  | rekeyed hl =>
    refine membersHaveChannels_kept hm hk' (fun b x hb => .inl ?_) (fun _ h => h) (by simp)
    exact (channelOf_rekeyed hl).symm.trans hb
  | renamed hl =>
    refine membersHaveChannels_kept hm hk' (fun b x hb => .inl ?_) (fun _ h => h) (by simp)
    exact (channelOf_renamed hl).symm.trans hb
  | @removed a c hl hch =>
    refine iff_of_true (hm.mono hk' ?_ fun _ h => h) ?_
    · exact fun b x hb => .inl ((departed_withoutClient c).channelOf_eq_some.1 hb).2
    · rintro a (h | h) ch ha <;> cases h
      rw [channelOf_of_lookup hl, hch] at ha
      exact absurd ha (by simp)
  | @hungUp a c ch hl hch =>
    have ha : s.channelOf a = some ch := (channelOf_of_lookup hl).trans hch
    rw [← udpOf_of_lookup hl, membersHaveChannels_depart hk hm (departed_withoutClient c) ha]
    exact (forall_departing_iff (.inr rfl) ha).symm
  | @left a c ch hl hch =>
    have ha : s.channelOf a = some ch := (channelOf_of_lookup hl).trans hch
    rw [← udpOf_of_lookup hl, membersHaveChannels_depart hk hm (departed_withoutMember c) ha]
    exact (forall_departing_iff (.inl rfl) ha).symm
  | created | established =>
    refine membersHaveChannels_kept hm hk' (fun b x hb => .inl hb) (fun x h => ?_) (by simp)
    exact Finmap.mem_insert.2 (.inr h)
  | joined hch ha =>
    refine membersHaveChannels_kept hm hk' (fun b x hb => ?_) (fun x h => ?_) (by simp)
    · rw [channelOf_joined ha] at hb
      split at hb
      · cases hb
        rw [channels_joined]
        exact .inr hch
      · exact .inl hb
    · rwa [channels_joined]
  | echoed hid ha =>
    refine membersHaveChannels_kept hm hk' (fun b x hb => ?_) (fun x h => ?_) (by simp)
    · rw [channelOf_echoed ha] at hb
      split at hb
      · cases hb
        exact .inr (Finmap.mem_insert.2 (.inl rfl))
      · exact .inl hb
    · exact Finmap.mem_insert.2 (.inr h)
  | renewed =>
    exact membersHaveChannels_kept hm hk' (fun _ _ hb => .inl hb) (fun _ h => h) (by simp)
  | greeted ht hip hc =>
    refine membersHaveChannels_kept hm hk' (fun b x hb => .inl ?_)
      (fun x h => mem_channels_greeted.2 h) (by simp)
    exact (channelOf_greeted hc).symm.trans hb
  | @swept grace ttl =>
    refine iff_of_true ?_ (by rintro a (h | h) <;> cases h)
    intro b x hb
    rw [channelOf_cleanupWith] at hb
    have hkept : x ∈ (s.cleanupWith env grace ttl).2.channels :=
      mem_channels_cleanupWith.2 ⟨(hm b x hb).1, fun hin => (of_mem_cleanupWith hin).2.1 b hb⟩
    exact ⟨hkept, (hk' x).2 hkept⟩

/-- **When members keep their channels.**  In every run from the empty registry, under
any arguments, clock readings and draws: every member's channel exists throughout the
run if and only if each departure along it either leaves a persistent channel, or leaves
another registered UDP address behind, or was the last member's. -/
theorem membersHaveChannels_iff (limits : Limits) (es : List Call) :
    Throughout step MembersHaveChannels (.new limits) es ↔
      EachStep step SparesMembers (.new limits) es :=
  throughout_iff_eachStep KeysMatch
    (fun _ _ _ hk _ h => hk.step h)
    (fun _ _ _ hk hm _ h => membersHaveChannels_change hk hm (exec_change h))
    (keysMatch_new limits) (membersHaveChannels_new limits) (eachStep_true _ _)

/-! ## A run that loses a channel under a member -/

/-- Two clients join `pub-x` and neither has said its UDP hello when one of them leaves. -/
def lostChannelRun : List Call :=
  [(.sample 7 1, .registerClient (.v4 1 1)), (.sample 7 1, .registerClient (.v4 2 2)),
    (.sample 7 1, .createChannel (some "x")), (.sample 7 1, .joinChannel (.v4 1 1) "pub-x"),
    (.sample 7 2, .joinChannel (.v4 2 2) "pub-x"), (.sample 7 1, .leaveChannel (.v4 1 1))]

/-- The other client is still a member of `pub-x`, which is gone. -/
theorem channel_lost_under_member :
    ∃ s, runFrom step (.new ⟨0, 0⟩) lostChannelRun = some s ∧ ¬ MembersHaveChannels s := by
  refine ⟨_, rfl, fun h => ?_⟩
  exact absurd (h (.v4 2 2) "pub-x" (by decide)).1 (by decide)

end Server
end TcVoice
