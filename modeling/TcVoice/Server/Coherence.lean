import TcVoice.Server.Membership

/-!
# The tables agree

Three tables are kept by channel id, a fourth set says which channels survive
being empty, and each operation that creates or destroys a channel updates them
by hand.  This file is about all of them describing one set of channels, of a
size within the limits.

* `Coherent` — the tables have the same keys, the persistent channels are among
  them, and neither channels nor clients exceed a limit that is set.
* `channels_change`, `clients_exec` — what a step adds to the two tables that
  have limits, and the room it found.
* `Coherent.step` — every operation keeps the tables in agreement.
* `coherent_throughout` — **so they agree throughout every run**, and a channel
  that is persistent once exists ever after.
-/

namespace TcVoice
namespace Server

open Runs Table ServerState

variable {env : Env} {s s' : ServerState} {op : Op} {limits : Limits} {x : ChannelId}

/-! ## One set of channels -/

/-- The tables that describe the channels agree, within the limits the server was started
with; `0` is unlimited. -/
structure Coherent (limits : Limits) (s : ServerState) : Prop where
  startedWith : s.limits = limits
  keyed : s.channelKeys.keys = s.channels.keys
  dated : s.channelCreatedAt.keys = s.channels.keys
  persistent : ∀ x ∈ s.persistent, x ∈ s.channels
  channels_len : limits.maxChannels ≠ 0 → s.channels.len ≤ limits.maxChannels
  clients_len : limits.maxClients ≠ 0 → s.clients.len ≤ limits.maxClients

theorem coherent_new (limits : Limits) : Coherent limits (.new limits) where
  startedWith := rfl
  keyed := rfl
  dated := rfl
  persistent x hx := absurd hx (Finset.notMem_empty x)
  channels_len _ := Nat.zero_le _
  clients_len _ := Nat.zero_le _

theorem keys_eq_iff {V V' : Type} {m : Table ChannelId V} {m' : Table ChannelId V'} :
    m.keys = m'.keys ↔ ∀ x, x ∈ m ↔ x ∈ m' := by
  simp only [Finset.ext_iff, Finmap.mem_keys]

/-! ## When channels were created -/

/-- The channels with a creation time are the channels there are. -/
def DatesMatch (s : ServerState) : Prop := ∀ x, x ∈ s.channelCreatedAt ↔ x ∈ s.channels

theorem mem_channelCreatedAt_dropParticipant {ch : ChannelId} {udp : Option SocketAddr} :
    x ∈ (s.dropParticipant env ch udp).channelCreatedAt ↔
      x ∈ s.channelCreatedAt ∧ ¬ (x = ch ∧ s.destroys ch udp) := by
  rw [mem_iff_lookup, lookup_channelCreatedAt_dropParticipant, mem_iff_lookup]
  split <;> simp [*]

/-- A departure takes a channel's creation time away exactly when it takes the channel. -/
theorem DatesMatch.dropParticipant {ch : ChannelId} {udp : Option SocketAddr}
    (hd : DatesMatch s) : DatesMatch (s.dropParticipant env ch udp) := by
  intro x
  rw [mem_channelCreatedAt_dropParticipant, mem_channels_dropParticipant, hd x]

theorem DatesMatch.change (hd : DatesMatch s) (hc : Change env s op s') : DatesMatch s' := by
  cases hc with
  | refused | registered | rekeyed | renamed | removed | renewed => exact hd
  | @hungUp a c => exact DatesMatch.dropParticipant (s := s.withoutClient a c) hd
  | @left a c => exact DatesMatch.dropParticipant (s := s.withoutMember a c) hd
  | created | established | echoed =>
    intro x
    show x ∈ Finmap.insert _ _ _ ↔ x ∈ Finmap.insert _ _ _
    rw [Finmap.mem_insert, Finmap.mem_insert, hd x]
  | joined =>
    intro x
    rw [channelCreatedAt_joined, channels_joined]
    exact hd x
  | greeted => exact fun x => (hd x).trans mem_channels_greeted.symm
  | swept =>
    intro x
    rw [mem_channelCreatedAt_cleanupWith, mem_channels_cleanupWith, hd x]

/-! ## Persistent channels -/

/-- A departure leaves a persistent channel standing. -/
theorem persistent_departure {ch : ChannelId} {udp : Option SocketAddr} (hx : x ∈ s.persistent)
    (hch : x ∈ s.channels) : x ∈ (s.dropParticipant env ch udp).persistent ∧
      x ∈ (s.dropParticipant env ch udp).channels := by
  rw [persistent_dropParticipant, mem_channels_dropParticipant]
  refine ⟨hx, hch, ?_⟩
  rintro ⟨rfl, hd⟩
  exact hd.2.2 hx

/-- **No step destroys a persistent channel**: not a departure, and not a sweep, whatever
its grace period and the clock. -/
theorem persistent_change (hc : Change env s op s') (hx : x ∈ s.persistent)
    (hch : x ∈ s.channels) : x ∈ s'.persistent ∧ x ∈ s'.channels := by
  cases hc with
  | refused | registered | rekeyed | renamed | removed | renewed => exact ⟨hx, hch⟩
  | @hungUp a c => exact persistent_departure (s := s.withoutClient a c) hx hch
  | @left a c => exact persistent_departure (s := s.withoutMember a c) hx hch
  | created | echoed => exact ⟨hx, Finmap.mem_insert.2 (.inr hch)⟩
  | established =>
    exact ⟨Finset.mem_insert_of_mem hx, Finmap.mem_insert.2 (.inr hch)⟩
  | joined =>
    rw [persistent_joined, channels_joined]
    exact ⟨hx, hch⟩
  | greeted => exact ⟨hx, mem_channels_greeted.2 hch⟩
  | swept =>
    rw [cleanupWith_persistent, mem_channels_cleanupWith]
    exact ⟨hx, hch, fun hin => (of_mem_cleanupWith hin).2.2 hx⟩

/-- A persistent channel is one that was persistent, or one just created. -/
theorem mem_persistent_change (hc : Change env s op s') (hx : x ∈ s'.persistent) :
    x ∈ s.persistent ∨ x ∈ s'.channels := by
  cases hc with
  | refused | registered | rekeyed | renamed | removed | renewed | created | echoed | greeted =>
    exact .inl hx
  | hungUp | left => exact .inl (by rwa [persistent_dropParticipant] at hx)
  | joined => exact .inl (by rwa [persistent_joined] at hx)
  | swept => exact .inl (by rwa [cleanupWith_persistent] at hx)
  | established =>
    rcases Finset.mem_insert.1 hx with rfl | hx
    · exact .inr (Finmap.mem_insert.2 (.inl rfl))
    · exact .inl hx

/-! ## Limits -/

/-- The limits are those the server was started with. -/
theorem limits_change (hc : Change env s op s') : s'.limits = s.limits := by
  cases hc with
  | refused | registered | rekeyed | renamed | removed | renewed | created | echoed | greeted
  | established => rfl
  | hungUp | left => exact limits_dropParticipant
  | joined => exact limits_joined
  | swept => exact cleanupWith_limits

/-- A step adds no channel, or it adds one and found room for it. -/
theorem channels_change (hc : Change env s op s') :
    (∀ x, x ∈ s'.channels → x ∈ s.channels) ∨
      (s.channelsFull = false ∧ ∃ id ps, s'.channels = s.channels.insert id ps) := by
  cases hc with
  | refused | registered | rekeyed | renamed | removed | renewed => exact .inl fun _ h => h
  | hungUp | left => exact .inl fun x h => (mem_channels_dropParticipant.1 h).1
  | created hid hname hr => exact .inr ⟨channelsFull_of_createChannel hr, _, _, rfl⟩
  | established hid hname hr =>
    exact .inr ⟨channelsFull_of_createPersistentChannel hr, _, _, rfl⟩
  | echoed hid ha hout h0 htok hdraw hr =>
    exact .inr ⟨channelsFull_of_startEchoTest hr, _, _, rfl⟩
  | joined => exact .inl fun x h => by rwa [channels_joined] at h
  | greeted => exact .inl fun x h => mem_channels_greeted.1 h
  | swept => exact .inl fun x h => (mem_channels_cleanupWith.1 h).1

theorem len_channels_change (hc : Change env s op s') (hmax : s.limits.maxChannels ≠ 0)
    (hlen : s.channels.len ≤ s.limits.maxChannels) :
    s'.channels.len ≤ s.limits.maxChannels := by
  rcases channels_change hc with hsub | ⟨hroom, id, ps, heq⟩
  · exact (len_mono hsub).trans hlen
  · have hlt : s.channels.len < s.limits.maxChannels := by
      rw [channelsFull, decide_eq_false_iff_not, not_and, not_le] at hroom
      exact hroom (Nat.pos_of_ne_zero hmax)
    rw [heq]
    exact (len_insert_le _ _ _).trans hlt

/-- An update of a client that is there adds none. -/
theorem mem_clients_insert {a b : SocketAddr} {c d : ClientInfo}
    (hl : s.clients.lookup a = some c) (h : b ∈ s.clients.insert a d) : b ∈ s.clients := by
  rcases Finmap.mem_insert.1 h with rfl | h
  · exact Finmap.mem_of_lookup_eq_some hl
  · exact h

/-- A step adds no client, or it registers one and found room for it. -/
theorem clients_exec (h : exec env s op = some s') :
    (∀ a, a ∈ s'.clients → a ∈ s.clients) ∨
      (¬ (0 < s.limits.maxClients ∧ s.limits.maxClients ≤ s.clients.len) ∧
        ∃ a c, op = .registerClient a ∧ s'.clients = s.clients.insert a c) := by
  cases exec_change h with
  | refused | created | established | renewed => exact .inl fun _ h => h
  | registered =>
    rw [exec, registerClient] at h
    split at h
    · have heq : s = s.registered _ := Option.some.inj h
      refine .inl fun _ h => ?_
      rwa [← heq] at h
    · rename_i hroom
      exact .inr ⟨hroom, _, _, rfl, rfl⟩
  | rekeyed hl | renamed hl => exact .inl fun _ h => mem_clients_insert hl h
  | removed => exact .inl fun _ h => (Finmap.mem_erase.1 h).2
  | hungUp =>
    refine .inl fun _ h => ?_
    rw [clients_dropParticipant] at h
    exact (Finmap.mem_erase.1 h).2
  | left hl =>
    refine .inl fun _ h => ?_
    rw [clients_dropParticipant] at h
    exact mem_clients_insert hl h
  | joined hch ha =>
    obtain ⟨c, hl⟩ := (mem_iff_lookup _ _).1 ha
    refine .inl fun _ h => ?_
    rw [clients_joined hl] at h
    exact mem_clients_insert hl h
  | echoed hid ha =>
    obtain ⟨c, hl⟩ := (mem_iff_lookup _ _).1 ha
    refine .inl fun _ h => ?_
    rw [clients_echoed hl] at h
    exact mem_clients_insert hl h
  | greeted ht hip hl => exact .inl fun _ h => mem_clients_insert hl h
  | swept => exact .inl fun _ h => by rwa [cleanupWith_clients] at h

theorem len_clients_exec (h : exec env s op = some s') (hmax : s.limits.maxClients ≠ 0)
    (hlen : s.clients.len ≤ s.limits.maxClients) : s'.clients.len ≤ s.limits.maxClients := by
  rcases clients_exec h with hsub | ⟨hroom, a, c, -, heq⟩
  · exact (len_mono hsub).trans hlen
  · have hlt : s.clients.len < s.limits.maxClients := by
      rw [not_and, not_le] at hroom
      exact hroom (Nat.pos_of_ne_zero hmax)
    rw [heq]
    exact (len_insert_le _ _ _).trans hlt

/-! ## Runs -/

/-- **One step.**  Every operation keeps the tables in agreement. -/
theorem Coherent.step {e : Call} (hco : Coherent limits s) (h : step s e = some s') :
    Coherent limits s' := by
  have hc := exec_change h
  have hk : KeysMatch s := keys_eq_iff.1 hco.keyed
  have hd : DatesMatch s := keys_eq_iff.1 hco.dated
  refine ⟨(limits_change hc).trans hco.startedWith, keys_eq_iff.2 (hk.change hc),
    keys_eq_iff.2 (hd.change hc), fun x hx => ?_, fun hmax => ?_, fun hmax => ?_⟩
  · rcases mem_persistent_change hc hx with hold | hnew
    · exact (persistent_change hc hold (hco.persistent x hold)).2
    · exact hnew
  · have hlen := hco.channels_len hmax
    rw [← hco.startedWith] at hmax hlen ⊢
    exact len_channels_change hc hmax hlen
  · have hlen := hco.clients_len hmax
    rw [← hco.startedWith] at hmax hlen ⊢
    exact len_clients_exec h hmax hlen

/-- **The registry is coherent.**  Throughout every run of operations, with any arguments,
clock readings and draws, the tables describe one set of channels within the limits; and from
the moment a channel is persistent it is one of them, whatever happens later. -/
theorem coherent_throughout (limits : Limits) (es : List Call) :
    Throughout step (Coherent limits) (.new limits) es ∧
      ∀ k t x, runFrom step (.new limits) (es.take k) = some t → x ∈ t.persistent →
        Throughout step (fun t' => x ∈ t'.persistent ∧ x ∈ t'.channels) t (es.drop k) := by
  have hinv : ∀ s (e : Call) s', Coherent limits s → True → Server.step s e = some s' →
      Coherent limits s' := fun _ _ _ hco _ h => hco.step h
  refine ⟨throughout_of_inv _ hinv (coherent_new limits) (eachStep_true _ _),
    fun k t x ht hx => ?_⟩
  have hco : Coherent limits t :=
    inv_runFrom _ hinv (coherent_new limits) (eachStep_true _ _) ht
  exact throughout_of_inv _ (fun _ _ _ hp _ h => persistent_change (exec_change h) hp.1 hp.2)
    ⟨hx, hco.persistent x hx⟩ (eachStep_true _ _)

end Server
end TcVoice
