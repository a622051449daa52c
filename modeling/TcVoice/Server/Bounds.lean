import TcVoice.Server.Interleaving

/-!
# What the registry stores is of bounded size

The handlers check names and identity keys before they hand them to the registry,
and the registry mints its voice keys itself; channel ids it takes at any length.

* `byteLen_nextName` — a name handed out on connect fits the limit for chosen ones.
* `ClientInfo.Fits`, `Bounded` — the sizes of what is stored.
* `Bounded.change`, `Bounded.move` — every operation with checked arguments keeps to
  them, and so does every step of the server.
-/

namespace TcVoice
namespace Server

open Runs Table ServerState

/-! ## Lengths in bytes -/

theorem byteLen_append (s t : String) : byteLen (s ++ t) = byteLen s + byteLen t :=
  String.utf8ByteSize_append

theorem byteLen_ofList_cons (c : Char) (cs : List Char) :
    byteLen (String.ofList (c :: cs)) = c.utf8Size + byteLen (String.ofList cs) := by
  rw [String.ofList_cons, byteLen_append, byteLen, String.utf8ByteSize_singleton]

/-- A string of ASCII characters has a byte for each. -/
theorem byteLen_of_ascii {cs : List Char} (h : ∀ c ∈ cs, c.utf8Size = 1) :
    byteLen (String.ofList cs) = cs.length := by
  induction cs with
  | nil => rfl
  | cons c cs ih =>
    rw [byteLen_ofList_cons, h c List.mem_cons_self,
      ih fun d hd => h d (List.mem_cons_of_mem _ hd), List.length_cons, Nat.add_comm]

theorem byteLen_publicChannelPrefix : byteLen Config.publicChannelPrefix = 4 := by decide

theorem byteLen_generateChannelId (draw : IdDraw) :
    byteLen (generateChannelId draw) = Config.channelIdLen := by
  have hascii : (charset.all fun c => c.utf8Size == 1) = true := by decide
  rw [generateChannelId, byteLen_of_ascii]
  · simp
  · intro c hc
    obtain ⟨i, -, rfl⟩ := List.mem_map.1 hc
    exact eq_of_beq (List.all_eq_true.1 hascii _ (charset_getD_mem i))

theorem utf8Size_of_isDigit {c : Char} (h : c.isDigit = true) : c.utf8Size = 1 := by
  simp only [Char.isDigit, Bool.and_eq_true, decide_eq_true_eq] at h
  have hle : c.val ≤ 0x7f := UInt32.le_trans h.2 (by decide)
  simp [Char.utf8Size, hle]

/-- A number below `10 ^ k` takes at most `k` digits. -/
theorem byteLen_toString_le {n k : ℕ} (hk : 0 < k) (h : n < 10 ^ k) :
    byteLen (toString n) ≤ k := by
  have hrepr : toString n = String.ofList (Nat.toDigits 10 n) := Nat.repr_eq_ofList_toDigits
  rw [hrepr, byteLen_of_ascii fun c hc =>
    utf8Size_of_isDigit (Nat.isDigit_of_mem_toDigits (by decide) (by decide) hc)]
  exact (Nat.length_toDigits_le_iff (by decide) hk).2 h

theorem ne_empty_of_byteLen_pos {s : String} (h : 0 < byteLen s) : s ≠ "" := by
  rintro rfl
  exact absurd h (by decide)

/-- A name handed out on connect fits the limit for chosen ones. -/
theorem byteLen_nextName (s : ServerState) :
    0 < byteLen s.nextName ∧ byteLen s.nextName ≤ Config.maxNameLen := by
  have hlt : (s.nameCounter + 1).toNat < 10 ^ 20 :=
    lt_of_lt_of_le (UInt64.toNat_lt _) (by decide)
  have hdigits := byteLen_toString_le (by decide) hlt
  have huser : byteLen "user-" = 5 := by decide
  rw [nextName, byteLen_append, huser, Config.maxNameLen]
  omega

/-! ## Bounds on what is stored -/

/-- What is known of a client is of bounded size. -/
structure ClientInfo.Fits (c : ClientInfo) : Prop where
  name_ne : c.name ≠ ""
  name_le : byteLen c.name ≤ Config.maxNameLen
  pubkey : ∀ pk, c.pubkey = some pk → pk.length = 32

/-- The registry holds nothing but names, identity keys and voice keys of bounded size. -/
structure Bounded (s : ServerState) : Prop where
  client : ∀ a c, s.clients.lookup a = some c → c.Fits
  key : ∀ ch k, s.channelKeys.lookup ch = some k → k.length = Config.voiceKeyLen

section Steps

variable {env : Env} {s s' : ServerState} {a : SocketAddr} {c : ClientInfo} {ch : ChannelId}
  {op : Op}

theorem bounded_new (limits : Limits) : Bounded (.new limits) where
  client a c hl := absurd hl (by simp [ServerState.new])
  key ch k hl := absurd hl (by simp [ServerState.new])

theorem Bounded.name (h : Bounded s) {n : String} (hn : s.nameOf a = some n) :
    n ≠ "" ∧ byteLen n ≤ Config.maxNameLen := by
  obtain ⟨c, hl, rfl⟩ := Option.map_eq_some_iff.1 hn
  exact ⟨(h.client a c hl).name_ne, (h.client a c hl).name_le⟩

/-- One client's entry is replaced by another that fits. -/
theorem fits_insert (h : Bounded s) (hs : s'.clients = s.clients.insert a c) (hc : c.Fits) :
    ∀ b i, s'.clients.lookup b = some i → i.Fits := by
  intro b i hl
  rw [hs, lookup_insert_if] at hl
  split at hl
  · cases hl
    exact hc
  · exact h.client b i hl

theorem length_key (k : Vector UInt8 Config.voiceKeyLen) : k.toList.length = Config.voiceKeyLen :=
  Vector.length_toList

/-- One channel's key is replaced by a fresh one. -/
theorem key_insert (h : Bounded s) (env : Env) (ch : ChannelId) :
    ∀ x k, (s.channelKeys.insert ch env.key.toList).lookup x = some k →
      k.length = Config.voiceKeyLen := by
  intro x k hl
  rw [lookup_insert_if] at hl
  split at hl
  · cases hl
    exact length_key env.key
  · exact h.key x k hl

theorem key_dropParticipant (h : Bounded s) {udp : Option SocketAddr} {x : ChannelId} {k : Bytes}
    (hl : (s.dropParticipant env ch udp).channelKeys.lookup x = some k) :
    k.length = Config.voiceKeyLen := by
  rw [lookup_channelKeys_dropParticipant] at hl
  split at hl
  · exact absurd hl (by simp)
  · exact h.key x k hl

/-- The bounds survive the departure of a client's entry from a channel. -/
theorem Bounded.dropParticipant (h : Bounded s) {udp : Option SocketAddr} :
    Bounded (s.dropParticipant env ch udp) where
  client := by
    rw [clients_dropParticipant]
    exact h.client
  key _ _ hl := key_dropParticipant h hl

theorem Bounded.withoutClient (h : Bounded s) : Bounded (s.withoutClient a c) where
  client b i hl := by
    rw [ServerState.withoutClient, lookup_erase_if] at hl
    split at hl
    · exact absurd hl (by simp)
    · exact h.client b i hl
  key := h.key

/-- **One operation.**  With checked arguments, it keeps to the bounds. -/
theorem Bounded.change (h : Bounded s) (hadm : Admitted s (env, op))
    (hc : Change env s op s') : Bounded s' := by
  cases hc with
  | refused => exact h
  | registered =>
    obtain ⟨hpos, hle⟩ := byteLen_nextName s
    exact ⟨fits_insert h rfl ⟨ne_empty_of_byteLen_pos hpos, hle, by simp⟩, h.key⟩
  | @rekeyed a pk c hl =>
    have hf := h.client a c hl
    refine ⟨fits_insert h rfl ⟨hf.name_ne, hf.name_le, ?_⟩, h.key⟩
    intro q hq
    cases hq
    exact hadm.pubkey a pk rfl
  | @renamed a name c hl =>
    obtain ⟨hne, hle⟩ := hadm.name a name rfl
    exact ⟨fits_insert h rfl ⟨hne, hle, (h.client a c hl).pubkey⟩, h.key⟩
  | removed => exact h.withoutClient
  | hungUp => exact h.withoutClient.dropParticipant
  | created | established => exact ⟨h.client, key_insert h env _⟩
  | @joined a ch token hch ha =>
    obtain ⟨c, hl⟩ := (mem_iff_lookup _ _).1 ha
    have hf := h.client a c hl
    refine ⟨fits_insert h (clients_joined hl) ⟨hf.name_ne, hf.name_le, hf.pubkey⟩, ?_⟩
    intro x k hk
    rw [channelKeys_joined] at hk
    split at hk
    · exact key_insert h env ch x k hk
    · exact h.key x k hk
  | @echoed a id token hid ha =>
    obtain ⟨c, hl⟩ := (mem_iff_lookup _ _).1 ha
    have hf := h.client a c hl
    exact ⟨fits_insert h (clients_echoed hl) ⟨hf.name_ne, hf.name_le, hf.pubkey⟩,
      channelKeys_echoed ▸ key_insert h env _⟩
  | @left a c ch hl =>
    have hf := h.client a c hl
    have hb : Bounded (s.withoutMember a c) :=
      ⟨fits_insert h rfl ⟨hf.name_ne, hf.name_le, hf.pubkey⟩, h.key⟩
    exact hb.dropParticipant
  | renewed => exact ⟨h.client, h.key⟩
  | @greeted token udp tcp ch created c ht hip hl =>
    have hf := h.client tcp c hl
    exact ⟨fits_insert h rfl ⟨hf.name_ne, hf.name_le, hf.pubkey⟩, h.key⟩
  | swept =>
    refine ⟨?_, fun x k hk => ?_⟩
    · rw [cleanupWith_clients]
      exact h.client
    · rw [lookup_channelKeys_cleanupWith] at hk
      split at hk
      · exact absurd hk (by simp)
      · exact h.key x k hk

end Steps

/-- The registry is within the bounds as the server begins to listen. -/
theorem Started.bounded {limits : Limits} {s : ServerState} (hs : Started limits s) :
    Bounded s := by
  refine hs.reachable.induct Bounded (bounded_new limits) ?_
  rintro s ⟨env, op⟩ s' hb hadm hstep
  exact hb.change hadm (exec_change hstep)

/-- Whatever the server's tasks do, in whatever order, its registry stays within them. -/
theorem Bounded.move {env : Env} {w w' : World} {ev : World.Event} (hb : Bounded w.state)
    (ho : Orderly w) (hm : World.Move env w ev w') : Bounded w'.state := by
  rcases hm.registry ho with heq | ⟨op, hadm, hexec⟩
  · rwa [heq]
  · exact hb.change hadm (exec_change hexec)

end Server
end TcVoice
