import TcVoice.Server.Registry

/-!
# The relay's peer cache

The relay forwards each voice packet to the peers listed in a cache, so that it
need not take the registry's lock.  The cache is brought up to date by hand at
each place that changes a participant set.

* `scanChannelPeers` — what a scan of the registry itself would answer.
* `CacheMatches` — each channel's cached list enumerates its participants.
* `CacheMatches.change` — every step keeps it.
* `fillChannelPeers_reachable` — **the fast path answers as the scan would**.
-/

namespace TcVoice
namespace Server

open Runs Table ServerState

variable {env : Env} {s s' : ServerState} {op : Op} {ch x : ChannelId}

namespace ServerState

/-- The answer the registry itself would give to the relay: the channel's
participants but the sender. -/
def scanChannelPeers (s : ServerState) (ch : ChannelId) (exclude : SocketAddr) :
    Finset SocketAddr :=
  (s.participants ch).erase exclude

/-- The peers the cache lists for a channel. -/
def cachedPeers (s : ServerState) (ch : ChannelId) : List SocketAddr :=
  (s.peerCache.lookup ch).getD []

theorem fillChannelPeers_eq (exclude : SocketAddr) (out : List SocketAddr) :
    s.fillChannelPeers ch exclude out = (s.cachedPeers ch).filter (· ≠ exclude) := by
  unfold fillChannelPeers cachedPeers
  cases s.peerCache.lookup ch <;> simp

end ServerState

/-- Each channel's cached list enumerates its participants, once each. -/
def CacheMatches (s : ServerState) : Prop :=
  ∀ ch, (s.cachedPeers ch : Multiset SocketAddr) = (s.participants ch).val

theorem cacheMatches_new (limits : Limits) : CacheMatches (.new limits) := fun _ => rfl

namespace CacheMatches

/-- A step that touches neither the cache nor a participant set. -/
theorem congr (hm : CacheMatches s) (hcache : s'.peerCache = s.peerCache)
    (hps : ∀ ch, s'.participants ch = s.participants ch) : CacheMatches s' := by
  intro ch
  rw [cachedPeers, hcache, hps]
  exact hm ch

theorem dropParticipant {udp : Option SocketAddr} (hm : CacheMatches s) :
    CacheMatches (s.dropParticipant env ch udp) := by
  intro x
  rw [cachedPeers, lookup_peerCache_dropParticipant, participants_dropParticipant]
  by_cases hx : x = ch
  · rw [if_pos hx, if_pos hx]
    split
    · rename_i hd
      rw [hd.2.1]
      rfl
    · exact env.addrOrder.coe_toList _
  · rw [if_neg hx, if_neg hx]
    exact hm x

/-- Bringing one channel up to date is enough when the others have not changed. -/
theorem updateChannelPeers (hm : CacheMatches s) (hcache : s'.peerCache = s.peerCache)
    (hps : ∀ x, x ≠ ch → s'.participants x = s.participants x) :
    CacheMatches (s'.updateChannelPeers env ch) := by
  intro x
  show _ = (s'.participants x).val
  rw [cachedPeers, lookup_peerCache_updateChannelPeers]
  by_cases hx : x = ch
  · rw [if_pos hx, hx]
    exact env.addrOrder.coe_toList _
  · rw [if_neg hx]
    calc (s'.cachedPeers x : Multiset SocketAddr)
      _ = s.cachedPeers x := by rw [cachedPeers, hcache, cachedPeers]
      _ = (s.participants x).val := hm x
      _ = (s'.participants x).val := by rw [hps x hx]

/-- **One step.**  Every change leaves the cache matching the registry. -/
theorem change (hm : CacheMatches s) (hc : Change env s op s') : CacheMatches s' := by
  cases hc with
  | refused | registered | rekeyed | renamed | removed | renewed =>
    exact hm.congr rfl fun _ => rfl
  | @hungUp a c =>
    exact dropParticipant (s := s.withoutClient a c) (hm.congr rfl fun _ => rfl)
  | @left a c =>
    exact dropParticipant (s := s.withoutMember a c) (hm.congr rfl fun _ => rfl)
  | created hid | established hid | echoed hid =>
    exact hm.congr rfl fun _ => participants_addChannel env hid
  | joined =>
    refine hm.congr peerCache_joined fun x => ?_
    rw [participants, channels_joined, participants]
  | @greeted token udp tcp ch created c ht hip hl =>
    refine hm.updateChannelPeers rfl fun x hx => ?_
    simp only [participants, lookup_modify, if_neg hx]
  | swept => exact hm.congr cleanupWith_peerCache fun x => participants_cleanupWith

theorem step {e : Call} (hm : CacheMatches s) (h : step s e = some s') : CacheMatches s' :=
  hm.change (exec_change h)

/-- A matching cache lists the participants but the excluded address. -/
theorem fillChannelPeers (hm : CacheMatches s) (exclude : SocketAddr) (out : List SocketAddr) :
    (s.fillChannelPeers ch exclude out : Multiset SocketAddr) =
      (s.scanChannelPeers ch exclude).val := by
  rw [fillChannelPeers_eq, ← Multiset.filter_coe, hm ch, scanChannelPeers,
    ← Finset.filter_val, Finset.filter_ne']

end CacheMatches

/-- **The cache refines the registry.**  After every run of operations, whatever was in
the buffer before, `fill_channel_peers` yields exactly the addresses a scan of the
registry would, each once, and nothing for a channel that does not exist. -/
theorem fillChannelPeers_reachable (limits : Limits) (s : ServerState)
    (h : Reachable step (fun _ _ => True) (.new limits) s) (ch : ChannelId) (x : SocketAddr)
    (out : List SocketAddr) :
    (s.fillChannelPeers ch x out : Multiset SocketAddr) = (s.scanChannelPeers ch x).val ∧
      (ch ∉ s.channels → s.fillChannelPeers ch x out = []) := by
  have hm : CacheMatches s :=
    h.induct CacheMatches (cacheMatches_new limits) fun _ _ _ hm _ hs => hm.step hs
  have hfill := @CacheMatches.fillChannelPeers s ch hm x out
  refine ⟨hfill, fun hch => ?_⟩
  rw [scanChannelPeers, participants_of_notMem hch] at hfill
  exact (Multiset.coe_eq_zero _).1 hfill

/-- Two clients have said their hello; the relay passes the one's voice to the other. -/
theorem fillChannelPeers_reachable_pair : ∃ s : ServerState,
    s.participants "pub-x" = {.v4 1 11, .v4 2 22} ∧
      (s.fillChannelPeers "pub-x" (.v4 1 11) [] : Multiset SocketAddr) =
        (s.scanChannelPeers "pub-x" (.v4 1 11)).val := by
  let es : List Call := [(.sample 7 1, .registerClient (.v4 1 1)),
    (.sample 7 1, .registerClient (.v4 2 2)), (.sample 7 1, .createChannel (some "x")),
    (.sample 7 1, .joinChannel (.v4 1 1) "pub-x"), (.sample 7 2, .joinChannel (.v4 2 2) "pub-x"),
    (.sample 7 1, .registerUdpByToken 1 (.v4 1 11)),
    (.sample 7 1, .registerUdpByToken 2 (.v4 2 22))]
  obtain ⟨s, hrun, hps⟩ : ∃ s, runFrom Server.step (.new ⟨0, 0⟩) es = some s ∧
      s.participants "pub-x" = {.v4 1 11, .v4 2 22} := ⟨_, rfl, by decide⟩
  have hreach : Reachable Server.step (fun _ _ => True) (.new ⟨0, 0⟩) s :=
    ⟨es, eachStep_true _ _, hrun⟩
  exact ⟨s, hps, (fillChannelPeers_reachable ⟨0, 0⟩ s hreach _ _ _).1⟩

end Server
end TcVoice
