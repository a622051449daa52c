import TcVoice.Server.State

/-!
# What each registry operation does

One statement per operation of `TcVoice.Server.State`, to be used in place of
its definition from here on.

* `*_cases` — the outcomes of an operation: refused with the registry as it
  was, or done with the state written out.
* `destroys` with the `dropParticipant_*` lemmas — what a departure does to each
  table; `destroys` is the moment a channel goes away.
* `reapAll_*`, `cleanupWith_*` — what a maintenance sweep does to each table.
-/

namespace TcVoice
namespace Server
namespace ServerState

open Table

variable {env : Env} {s s' : ServerState} {a b : SocketAddr} {ch x : ChannelId}

/-! ## Membership -/

theorem channelOf_eq_some : s.channelOf a = some ch ↔
    ∃ c, s.clients.lookup a = some c ∧ c.channel = some ch := by
  simp [channelOf, Option.bind_eq_some_iff]

theorem channelOf_of_lookup {c : ClientInfo} (h : s.clients.lookup a = some c) :
    s.channelOf a = c.channel := by
  simp [channelOf, h]

theorem udpOf_of_lookup {c : ClientInfo} (h : s.clients.lookup a = some c) :
    s.udpOf a = c.udpAddr := by
  simp [udpOf, h]

theorem occupied_iff : s.occupied ch = true ↔ ∃ a, s.channelOf a = some ch := by
  rw [occupied, any_iff]
  constructor
  · rintro ⟨a, c, hl, hc⟩
    exact ⟨a, channelOf_eq_some.2 ⟨c, hl, by simpa using hc⟩⟩
  · rintro ⟨a, ha⟩
    obtain ⟨c, hl, hc⟩ := channelOf_eq_some.1 ha
    exact ⟨a, c, hl, by simpa using hc⟩

theorem not_occupied_iff : s.occupied ch = false ↔ ∀ a, s.channelOf a ≠ some ch := by
  rw [← Bool.not_eq_true, occupied_iff, not_exists]

theorem participants_of_lookup {ps : Finset SocketAddr} (h : s.channels.lookup ch = some ps) :
    s.participants ch = ps := by
  simp [participants, h]

theorem participants_of_notMem (h : ch ∉ s.channels) : s.participants ch = ∅ := by
  simp [participants, (notMem_iff_lookup _ _).1 h]

theorem mem_channels_of_mem_participants {u : SocketAddr} (h : u ∈ s.participants ch) :
    ch ∈ s.channels := by
  by_contra hn
  rw [participants_of_notMem hn] at h
  exact absurd h (Finset.notMem_empty u)

/-! ## Clients -/

/-- The name handed to the next client. -/
def nextName (s : ServerState) : String := "user-" ++ toString (s.nameCounter + 1).toNat

/-- The state after a new client has been registered. -/
def registered (s : ServerState) (a : SocketAddr) : ServerState :=
  { s with
    nameCounter := s.nameCounter + 1
    clients := s.clients.insert a ⟨s.nextName, none, none, none⟩ }

theorem registerClient_cases {r : Except String String} (h : s.registerClient a = (r, s')) :
    (s' = s ∧ ∃ e, r = .error e) ∨ (r = .ok s.nextName ∧ s' = s.registered a) := by
  unfold registerClient at h
  split at h
  · cases h; exact .inl ⟨rfl, _, rfl⟩
  · cases h; exact .inr ⟨rfl, rfl⟩

theorem setPubkey_of_notMem {pk : Bytes} (h : a ∉ s.clients) : s.setPubkey a pk = s := by
  rw [setPubkey, (notMem_iff_lookup _ _).1 h]

/-- The state after the connection known as `c` has been bound to an identity key. -/
def rekeyed (s : ServerState) (a : SocketAddr) (c : ClientInfo) (pk : Bytes) : ServerState :=
  { s with
    clients := s.clients.insert a { c with pubkey := some pk }
    pubkeyIndex := (if c.pubkey ≠ some pk then unbindKey s.pubkeyIndex c.pubkey
      else s.pubkeyIndex).insert pk a }

theorem setPubkey_of_lookup {pk : Bytes} {c : ClientInfo} (h : s.clients.lookup a = some c) :
    s.setPubkey a pk = s.rekeyed a c pk := by
  simp only [setPubkey, h, rekeyed]

/-- The state after the connection known as `c` has taken a name. -/
def renamed (s : ServerState) (a : SocketAddr) (c : ClientInfo) (name : String) : ServerState :=
  { s with clients := s.clients.insert a { c with name := name } }

theorem renameClient_cases {name : String} {r : Option (String × Option ChannelId)}
    (h : s.renameClient a name = (r, s')) :
    (s.clients.lookup a = none ∧ r = none ∧ s' = s) ∨
      ∃ c, s.clients.lookup a = some c ∧ r = some (c.name, c.channel) ∧
        s' = s.renamed a c name := by
  unfold renameClient at h
  split at h
  · rename_i hl; cases h; exact .inl ⟨hl, rfl, rfl⟩
  · rename_i c hl; cases h; exact .inr ⟨c, hl, rfl, rfl⟩

/-! ## The peer cache -/

theorem lookup_peerCache_updateChannelPeers :
    (s.updateChannelPeers env ch).peerCache.lookup x =
      if x = ch then some (env.addrOrder.toList (s.participants ch).val)
      else s.peerCache.lookup x :=
  lookup_insert_if _ _ _ _

theorem lookup_peerCache_removeChannelFromCache :
    (s.removeChannelFromCache ch).peerCache.lookup x =
      if x = ch then none else s.peerCache.lookup x := by
  unfold removeChannelFromCache
  split
  · rename_i hn
    by_cases hx : x = ch
    · subst hx
      simpa using (notMem_iff_lookup _ _).1 hn
    · rw [if_neg hx]
  · exact lookup_erase_if _ _ _

@[simp] theorem toInner_updateChannelPeers :
    (s.updateChannelPeers env ch).toInner = s.toInner := rfl

@[simp] theorem toInner_removeChannelFromCache :
    (s.removeChannelFromCache ch).toInner = s.toInner := by
  unfold removeChannelFromCache
  split <;> rfl

/-! ## Departures -/

/-- The departure of a client with this UDP address destroys the channel. -/
def destroys (s : ServerState) (ch : ChannelId) (udp : Option SocketAddr) : Prop :=
  ch ∈ s.channels ∧ removeAddr udp (s.participants ch) = ∅ ∧ ch ∉ s.persistent

instance (s : ServerState) (ch : ChannelId) (udp : Option SocketAddr) :
    Decidable (s.destroys ch udp) := inferInstanceAs (Decidable (_ ∧ _ ∧ _))

theorem dropParticipant_of_destroys {udp : Option SocketAddr} (h : s.destroys ch udp) :
    s.dropParticipant env ch udp = removeChannelFromCache { s with
      channels := s.channels.erase ch
      channelKeys := s.channelKeys.erase ch
      channelCreatedAt := s.channelCreatedAt.erase ch } ch := by
  obtain ⟨hmem, hempty, hper⟩ := h
  obtain ⟨ps, hps⟩ := (mem_iff_lookup _ _).1 hmem
  rw [participants_of_lookup hps] at hempty
  rw [dropParticipant, hps]
  exact if_pos ⟨hempty, hper⟩

theorem dropParticipant_of_stays {udp : Option SocketAddr} {ps : Finset SocketAddr}
    (hps : s.channels.lookup ch = some ps) (h : ¬ s.destroys ch udp) :
    s.dropParticipant env ch udp = updateChannelPeers env
      { s with channels := s.channels.insert ch (removeAddr udp ps) } ch := by
  have hn : ¬ (removeAddr udp ps = ∅ ∧ ch ∉ s.persistent) := by
    rintro ⟨hempty, hper⟩
    refine h ⟨Finmap.mem_of_lookup_eq_some hps, ?_, hper⟩
    rwa [participants_of_lookup hps]
  rw [dropParticipant, hps]
  exact if_neg hn

theorem dropParticipant_of_notMem {udp : Option SocketAddr} (h : ch ∉ s.channels) :
    s.dropParticipant env ch udp = s.updateChannelPeers env ch := by
  rw [dropParticipant, (notMem_iff_lookup _ _).1 h]

/-- The three ways a departure ends: the channel destroyed, kept, or already gone. -/
theorem dropParticipant_cases (env : Env) (s : ServerState) (ch : ChannelId)
    (udp : Option SocketAddr) :
    (s.destroys ch udp ∧ s.dropParticipant env ch udp = removeChannelFromCache { s with
        channels := s.channels.erase ch
        channelKeys := s.channelKeys.erase ch
        channelCreatedAt := s.channelCreatedAt.erase ch } ch) ∨
      (¬ s.destroys ch udp ∧ ∃ ps, s.channels.lookup ch = some ps ∧
        s.dropParticipant env ch udp =
          updateChannelPeers env
            { s with channels := s.channels.insert ch (removeAddr udp ps) } ch) ∨
      (¬ s.destroys ch udp ∧ ch ∉ s.channels ∧
        s.dropParticipant env ch udp = s.updateChannelPeers env ch) := by
  by_cases hd : s.destroys ch udp
  · exact .inl ⟨hd, dropParticipant_of_destroys hd⟩
  · cases hps : s.channels.lookup ch with
    | some ps => exact .inr (.inl ⟨hd, ps, rfl, dropParticipant_of_stays hps hd⟩)
    | none =>
      have hn := (notMem_iff_lookup s.channels ch).2 hps
      exact .inr (.inr ⟨hd, hn, dropParticipant_of_notMem hn⟩)

section Drop

variable {udp : Option SocketAddr}

@[simp] theorem clients_dropParticipant :
    (s.dropParticipant env ch udp).clients = s.clients := by
  obtain ⟨-, h⟩ | ⟨-, _, -, h⟩ | ⟨-, -, h⟩ := dropParticipant_cases env s ch udp <;> simp [h]

@[simp] theorem pubkeyIndex_dropParticipant :
    (s.dropParticipant env ch udp).pubkeyIndex = s.pubkeyIndex := by
  obtain ⟨-, h⟩ | ⟨-, _, -, h⟩ | ⟨-, -, h⟩ := dropParticipant_cases env s ch udp <;> simp [h]

@[simp] theorem persistent_dropParticipant :
    (s.dropParticipant env ch udp).persistent = s.persistent := by
  obtain ⟨-, h⟩ | ⟨-, _, -, h⟩ | ⟨-, -, h⟩ := dropParticipant_cases env s ch udp <;> simp [h]

@[simp] theorem limits_dropParticipant :
    (s.dropParticipant env ch udp).limits = s.limits := by
  obtain ⟨-, h⟩ | ⟨-, _, -, h⟩ | ⟨-, -, h⟩ := dropParticipant_cases env s ch udp <;> simp [h]

@[simp] theorem udpTokens_dropParticipant :
    (s.dropParticipant env ch udp).udpTokens = s.udpTokens := by
  obtain ⟨-, h⟩ | ⟨-, _, -, h⟩ | ⟨-, -, h⟩ := dropParticipant_cases env s ch udp <;> simp [h]

theorem mem_channels_dropParticipant :
    x ∈ (s.dropParticipant env ch udp).channels ↔
      x ∈ s.channels ∧ ¬ (x = ch ∧ s.destroys ch udp) := by
  obtain ⟨hd, h⟩ | ⟨hd, ps, hps, h⟩ | ⟨hd, -, h⟩ := dropParticipant_cases env s ch udp
  · simp only [h, toInner_removeChannelFromCache, Finmap.mem_erase, hd, and_true]
    exact and_comm
  · have hmem := Finmap.mem_of_lookup_eq_some hps
    simp only [h, toInner_updateChannelPeers, Finmap.mem_insert, hd, and_false, not_false_iff,
      and_true, or_iff_right_iff_imp]
    rintro rfl
    exact hmem
  · simp [h, hd]

theorem lookup_channelCreatedAt_dropParticipant :
    (s.dropParticipant env ch udp).channelCreatedAt.lookup x =
      if x = ch ∧ s.destroys ch udp then none else s.channelCreatedAt.lookup x := by
  obtain ⟨hd, h⟩ | ⟨hd, ps, hps, h⟩ | ⟨hd, -, h⟩ := dropParticipant_cases env s ch udp
  · simp [h, hd, lookup_erase_if]
  · simp [h, hd]
  · simp [h, hd]

theorem lookup_channelKeys_dropParticipant :
    (s.dropParticipant env ch udp).channelKeys.lookup x =
      if x = ch ∧ s.destroys ch udp then none else s.channelKeys.lookup x := by
  obtain ⟨hd, h⟩ | ⟨hd, ps, hps, h⟩ | ⟨hd, -, h⟩ := dropParticipant_cases env s ch udp
  · simp [h, hd, lookup_erase_if]
  · simp [h, hd]
  · simp [h, hd]

/-- Whatever becomes of the channel, its participant set loses the leaver's address. -/
theorem participants_dropParticipant :
    (s.dropParticipant env ch udp).participants x =
      if x = ch then removeAddr udp (s.participants ch) else s.participants x := by
  obtain ⟨hd, h⟩ | ⟨-, ps, hps, h⟩ | ⟨-, hn, h⟩ := dropParticipant_cases env s ch udp
  · by_cases hx : x = ch
    · subst hx
      rw [if_pos rfl, hd.2.1, h]
      simp [participants]
    · simp [h, participants, hx]
  · by_cases hx : x = ch
    · subst hx
      rw [if_pos rfl, participants_of_lookup hps, h]
      simp [participants]
    · simp [h, participants, hx]
  · by_cases hx : x = ch
    · subst hx
      have hempty : removeAddr udp (∅ : Finset SocketAddr) = ∅ := by cases udp <;> rfl
      rw [if_pos rfl, participants_of_notMem hn, hempty, h]
      exact participants_of_notMem hn
    · simp [h, participants, hx]

theorem lookup_peerCache_dropParticipant :
    (s.dropParticipant env ch udp).peerCache.lookup x =
      if x = ch then
        if s.destroys ch udp then none
        else some (env.addrOrder.toList (removeAddr udp (s.participants ch)).val)
      else s.peerCache.lookup x := by
  obtain ⟨hd, h⟩ | ⟨hd, ps, hps, h⟩ | ⟨hd, hn, h⟩ := dropParticipant_cases env s ch udp
  · rw [h, lookup_peerCache_removeChannelFromCache, if_pos hd]
  · rw [h, lookup_peerCache_updateChannelPeers, if_neg hd, participants_of_lookup hps]
    simp [participants]
  · have hempty : removeAddr udp (∅ : Finset SocketAddr) = ∅ := by cases udp <;> rfl
    rw [h, lookup_peerCache_updateChannelPeers, if_neg hd, participants_of_notMem hn, hempty]

end Drop

theorem lookup_tokensWithout (t : UInt64) (o : SocketAddr × ChannelId × ℕ) :
    (s.tokensWithout a).lookup t = some o ↔ s.udpTokens.lookup t = some o ∧ o.1 ≠ a := by
  rw [tokensWithout, lookup_retain_eq_some, decide_eq_true_iff]

theorem removeClient_of_notMem (h : a ∉ s.clients) : s.removeClient env a = (none, s) := by
  simp only [removeClient, (notMem_iff_lookup _ _).1 h]

/-- A connected client's entry goes, with its tokens and its index entry. -/
def withoutClient (s : ServerState) (a : SocketAddr) (c : ClientInfo) : ServerState :=
  { s with
    clients := s.clients.erase a
    pubkeyIndex := unbindKey s.pubkeyIndex c.pubkey
    udpTokens := s.tokensWithout a }

theorem removeClient_of_lookup {c : ClientInfo} (h : s.clients.lookup a = some c) :
    s.removeClient env a = (some (c.name, c.channel), match c.channel with
      | some ch => (s.withoutClient a c).dropParticipant env ch c.udpAddr
      | none => s.withoutClient a c) := by
  simp only [removeClient, h]
  rfl

/-- Leaving clears the client's channel and UDP address, and drops its tokens. -/
def withoutMember (s : ServerState) (a : SocketAddr) (c : ClientInfo) : ServerState :=
  { s with
    clients := s.clients.insert a { c with channel := none, udpAddr := none }
    udpTokens := s.tokensWithout a }

theorem leaveChannel_of_channelOf_none (h : s.channelOf a = none) :
    s.leaveChannel env a = (none, s) := by
  cases hl : s.clients.lookup a with
  | none => simp only [leaveChannel, hl]
  | some c =>
    rw [channelOf_of_lookup hl] at h
    simp only [leaveChannel, hl, h]

theorem leaveChannel_of_lookup {c : ClientInfo} (h : s.clients.lookup a = some c)
    (hch : c.channel = some ch) :
    s.leaveChannel env a =
      (some (c.name, ch), (s.withoutMember a c).dropParticipant env ch c.udpAddr) := by
  simp only [leaveChannel, h, hch, withoutMember]

/-! ## Channels -/

theorem freshId_spec {pre : String} {id : ChannelId} (h : s.freshId env pre = some id) :
    (∃ draw, id = pre ++ generateChannelId draw) ∧ id ∉ s.channels := by
  have hmem := List.mem_of_find?_eq_some h
  have hfresh := List.find?_some h
  obtain ⟨draw, -, hd⟩ := List.mem_map.1 hmem
  exact ⟨⟨draw, hd.symm⟩, by simpa using hfresh⟩

theorem freshToken_spec {t : UInt64} (h : s.freshToken env = some t) :
    t ≠ 0 ∧ t ∉ s.udpTokens := by
  have hfresh := List.find?_some h
  simpa using hfresh

/-- The id `create_channel` may give a channel created under this name. -/
def IdFor : Option String → ChannelId → Prop
  | some n, id => id = Config.publicChannelPrefix ++ n
  | none, id => ∃ draw, id = generateChannelId draw

theorem createChannel_cases {name : Option String} {r : Except String ChannelId}
    (h : s.createChannel env name = some (r, s')) :
    (s' = s ∧ ∃ e, r = .error e) ∨
      ∃ id, r = .ok id ∧ id ∉ s.channels ∧ s' = s.addChannel env id ∧
        IdFor name id := by
  unfold createChannel at h
  split at h
  · cases h; exact .inl ⟨rfl, _, rfl⟩
  · split at h
    · simp only at h
      split at h
      · cases h; exact .inl ⟨rfl, _, rfl⟩
      · rename_i hn
        cases h; exact .inr ⟨_, rfl, hn, rfl, rfl⟩
    · obtain ⟨id, hid, he⟩ := Option.map_eq_some_iff.1 h
      cases he
      obtain ⟨⟨draw, hdraw⟩, hn⟩ := freshId_spec hid
      exact .inr ⟨_, rfl, hn, rfl, draw, by rw [hdraw, String.empty_append]⟩

/-- Only where there is room is a channel created. -/
theorem channelsFull_of_createChannel {name : Option String} {id : ChannelId}
    (h : s.createChannel env name = some (.ok id, s')) : s.channelsFull = false := by
  rw [← Bool.not_eq_true]
  intro hfull
  unfold createChannel at h
  rw [if_pos hfull] at h
  cases h

/-- A creation is refused only for one of two reasons. -/
theorem createChannel_error {name : Option String} {err : String}
    (h : s.createChannel env name = some (.error err, s')) :
    (s.channelsFull = true ∧ err = "channel limit reached") ∨
      ∃ n, name = some n ∧ s.channelsFull = false ∧ Config.publicChannelPrefix ++ n ∈ s.channels ∧
        err = "channel '" ++ (Config.publicChannelPrefix ++ n) ++ "' already exists" := by
  unfold createChannel at h
  split at h
  · rename_i hfull
    cases h
    exact .inl ⟨hfull, rfl⟩
  · rename_i hfull
    split at h
    · rename_i n
      simp only at h
      split at h
      · rename_i hid
        cases h
        exact .inr ⟨n, rfl, Bool.eq_false_iff.2 hfull, hid, rfl⟩
      · cases h
    · obtain ⟨id, -, he⟩ := Option.map_eq_some_iff.1 h
      cases he

theorem channelsFull_of_createPersistentChannel {name : String} {id : ChannelId}
    (h : s.createPersistentChannel env name = some (.ok id, s')) : s.channelsFull = false := by
  obtain ⟨⟨r₁, s₁⟩, hc, he⟩ := Option.map_eq_some_iff.1 h
  cases r₁ with
  | ok id₁ => exact channelsFull_of_createChannel hc
  | error e => cases he

theorem createPersistentChannel_cases {name : String} {r : Except String ChannelId}
    (h : s.createPersistentChannel env name = some (r, s')) :
    (s' = s ∧ ∃ e, r = .error e) ∨
      ∃ id, r = .ok id ∧ id = Config.publicChannelPrefix ++ name ∧ id ∉ s.channels ∧
        s' = { s.addChannel env id with persistent := insert id s.persistent } := by
  obtain ⟨⟨r₁, s₁⟩, hc, he⟩ := Option.map_eq_some_iff.1 h
  obtain ⟨rfl, e, rfl⟩ | ⟨id, rfl, hn, rfl, hid⟩ := createChannel_cases hc
  · cases he; exact .inl ⟨rfl, _, rfl⟩
  · cases he; exact .inr ⟨id, rfl, hid, hn, rfl⟩

/-- The state after a client has joined a channel with a token. -/
def joined (env : Env) (s : ServerState) (a : SocketAddr) (ch : ChannelId) (token : UInt64) :
    ServerState :=
  ((s.rotateKey env ch).setChannel a ch).addToken env token a ch

theorem joinChannel_cases {r : Except String JoinParams}
    (h : s.joinChannel env a ch = some (r, s')) :
    (s' = s ∧ ∃ e, r = .error e) ∨
      ∃ token, ch ∈ s.channels ∧ a ∈ s.clients ∧ s.channelOf a = none ∧ token ≠ 0 ∧
        token ∉ s.udpTokens ∧ s' = s.joined env a ch token ∧ r = .ok {
          participants := env.nameOrder.toList (s'.memberNames ch)
          udpToken := token
          voiceKey := (s'.channelKeys.lookup ch).getD [] } := by
  unfold joinChannel at h
  split at h
  · cases h; exact .inl ⟨rfl, _, rfl⟩
  · rename_i hch
    split at h
    · cases h; exact .inl ⟨rfl, _, rfl⟩
    · rename_i c hl
      split at h
      · cases h; exact .inl ⟨rfl, _, rfl⟩
      · rename_i hc
        obtain ⟨token, ht, he⟩ := Option.map_eq_some_iff.1 h
        cases he
        obtain ⟨ht0, htn⟩ := freshToken_spec ht
        have htn' : token ∉ s.udpTokens := by
          simpa [setChannel, rotateKey, apply_ite] using htn
        refine .inr ⟨token, not_not.1 hch, Finmap.mem_of_lookup_eq_some hl, ?_, ht0, htn', rfl, rfl⟩
        rw [channelOf_of_lookup hl]
        simpa using hc

/-- A join is refused only for one of three reasons. -/
theorem of_joinChannel_error {e : String} (h : s.joinChannel env a ch = some (.error e, s')) :
    ch ∉ s.channels ∨ a ∉ s.clients ∨ s.channelOf a ≠ none := by
  by_contra hok
  simp only [not_or, not_not] at hok
  obtain ⟨hch, ha, hout⟩ := hok
  obtain ⟨c, hl⟩ := (mem_iff_lookup _ _).1 ha
  rw [channelOf_of_lookup hl] at hout
  simp only [joinChannel, if_neg (not_not_intro hch), hl, hout, Option.isSome_none,
    Bool.false_eq_true, if_false, Option.map_eq_some_iff] at h
  obtain ⟨token, -, he⟩ := h
  cases he

/-- The state after a client has started an echo test in the new channel `id`. -/
def echoed (env : Env) (s : ServerState) (a : SocketAddr) (id : ChannelId) (token : UInt64) :
    ServerState :=
  ((s.addChannel env id).addToken env token a id).setChannel a id

theorem startEchoTest_cases {r : Except String (ChannelId × UInt64 × Bytes)}
    (h : s.startEchoTest env a = some (r, s')) :
    (s' = s ∧ ∃ e, r = .error e) ∨
      ∃ id token, id ∉ s.channels ∧ a ∈ s.clients ∧ s.channelOf a = none ∧ token ≠ 0 ∧
        token ∉ s.udpTokens ∧ (∃ draw, id = Config.echoChannelPrefix ++ generateChannelId draw) ∧
        s' = s.echoed env a id token ∧ r = .ok (id, token, env.key.toList) := by
  unfold startEchoTest at h
  split at h
  · cases h; exact .inl ⟨rfl, _, rfl⟩
  · split at h
    · cases h; exact .inl ⟨rfl, _, rfl⟩
    · rename_i c hl
      split at h
      · cases h; exact .inl ⟨rfl, _, rfl⟩
      · rename_i hc
        obtain ⟨id, hid, h⟩ := Option.bind_eq_some_iff.1 h
        obtain ⟨token, ht, he⟩ := Option.map_eq_some_iff.1 h
        cases he
        obtain ⟨hdraw, hn⟩ := freshId_spec hid
        obtain ⟨ht0, htn⟩ := freshToken_spec ht
        refine .inr ⟨id, token, hn, Finmap.mem_of_lookup_eq_some hl, ?_, ht0, htn, hdraw, rfl, rfl⟩
        rw [channelOf_of_lookup hl]
        simpa using hc

theorem channelsFull_of_startEchoTest {r : ChannelId × UInt64 × Bytes}
    (h : s.startEchoTest env a = some (.ok r, s')) : s.channelsFull = false := by
  rw [← Bool.not_eq_true]
  intro hfull
  unfold startEchoTest at h
  rw [if_pos hfull] at h
  cases h

/-! ## UDP registration -/

/-- The state after the client `tcp`, known as `c`, has registered `udp` with a token for `ch`. -/
def greeted (env : Env) (s : ServerState) (token : UInt64) (tcp : SocketAddr) (c : ClientInfo)
    (ch : ChannelId) (udp : SocketAddr) : ServerState :=
  updateChannelPeers env { s with
    udpTokens := s.udpTokens.modify token fun t => (t.1, t.2.1, env.now)
    clients := s.clients.insert tcp { c with udpAddr := some udp }
    channels := s.channels.modify ch (rebindAddr c.udpAddr udp) } ch

/-- A hello is refused, or refused with only its token's age renewed when the token
outlived its client, or accepted. -/
theorem registerUdpByToken_cases {token : UInt64} {udp : SocketAddr} {r : Bool}
    (h : s.registerUdpByToken env token udp = (r, s')) :
    (r = false ∧ s' = s ∧ ∀ tcp ch created, s.udpTokens.lookup token = some (tcp, ch, created) →
        tcp.ip.toCanonical ≠ udp.ip.toCanonical) ∨
      (∃ tcp ch created, s.udpTokens.lookup token = some (tcp, ch, created) ∧
        tcp ∉ s.clients ∧ r = false ∧
        s' = { s with udpTokens := s.udpTokens.modify token fun t => (t.1, t.2.1, env.now) }) ∨
      ∃ tcp ch created c, s.udpTokens.lookup token = some (tcp, ch, created) ∧
        tcp.ip.toCanonical = udp.ip.toCanonical ∧ s.clients.lookup tcp = some c ∧ r = true ∧
        s' = s.greeted env token tcp c ch udp := by
  unfold registerUdpByToken at h
  split at h
  · rename_i ht
    cases h
    exact .inl ⟨rfl, rfl, fun tcp ch created h => absurd (ht.symm.trans h) (by simp)⟩
  · rename_i tcp ch created ht
    split at h
    · rename_i hip
      cases h
      refine .inl ⟨rfl, rfl, fun tcp' ch' created' h => ?_⟩
      cases Option.some.inj (ht.symm.trans h)
      exact hip
    · rename_i hip
      simp only at h
      split at h
      · rename_i hl
        cases h
        exact .inr (.inl ⟨tcp, ch, created, ht, (notMem_iff_lookup _ _).2 hl, rfl, rfl⟩)
      · rename_i c hl
        cases h
        exact .inr (.inr ⟨tcp, ch, created, c, ht, not_not.1 hip, hl, rfl, rfl⟩)

/-- What an accepted hello and the age of a token leave as it is, every hello does. -/
theorem registerUdpByToken_frame {α : Type} (f : ServerState → α) {token : UInt64}
    {udp : SocketAddr} (hage : ∀ tokens, f { s with udpTokens := tokens } = f s)
    (hgreeted : ∀ tcp c ch, s.clients.lookup tcp = some c →
      f (s.greeted env token tcp c ch udp) = f s) :
    f (s.registerUdpByToken env token udp).2 = f s := by
  obtain ⟨-, heq, -⟩ | ⟨_, _, _, -, -, -, heq⟩ | ⟨tcp, ch, _, c, -, -, hl, -, heq⟩ :=
    registerUdpByToken_cases (Prod.mk.eta (p := s.registerUdpByToken env token udp)).symm
  · rw [heq]
  · rw [heq, hage]
  · rw [heq, hgreeted tcp c ch hl]

theorem participants_greeted {token : UInt64} {tcp : SocketAddr} {c : ClientInfo}
    {udp : SocketAddr} (h : ch ∈ s.channels) :
    (s.greeted env token tcp c ch udp).participants x =
      if x = ch then rebindAddr c.udpAddr udp (s.participants ch) else s.participants x := by
  obtain ⟨ps, hps⟩ := (mem_iff_lookup _ _).1 h
  simp only [greeted, participants, toInner_updateChannelPeers, lookup_modify, hps]
  split <;> simp

theorem participants_greeted_of_notMem {token : UInt64} {tcp : SocketAddr} {c : ClientInfo}
    {udp : SocketAddr} (h : ch ∉ s.channels) :
    (s.greeted env token tcp c ch udp).participants x = s.participants x := by
  simp only [greeted, participants, toInner_updateChannelPeers, lookup_modify,
    (notMem_iff_lookup _ _).1 h]
  split
  · rename_i hx
    subst hx
    simp [(notMem_iff_lookup _ _).1 h]
  · rfl

theorem mem_channels_greeted {token : UInt64} {tcp : SocketAddr} {c : ClientInfo}
    {udp : SocketAddr} :
    x ∈ (s.greeted env token tcp c ch udp).channels ↔ x ∈ s.channels := by
  simp only [greeted, toInner_updateChannelPeers, mem_iff_lookup, lookup_modify]
  split
  · rename_i hx
    subst hx
    cases s.channels.lookup x <;> simp
  · rfl

/-! ## Maintenance -/

/-- Reaping a list of channels in turn. -/
def reapAll (s : ServerState) (ids : List ChannelId) : ServerState := ids.foldl reapChannel s

section Reap

variable {ids : List ChannelId}

theorem reapAll_cons (id : ChannelId) :
    s.reapAll (id :: ids) = (s.reapChannel id).reapAll ids := rfl

@[simp] theorem clients_reapAll : (s.reapAll ids).clients = s.clients := by
  induction ids generalizing s with
  | nil => rfl
  | cons id ids ih => rw [reapAll_cons, ih]; rfl

@[simp] theorem pubkeyIndex_reapAll : (s.reapAll ids).pubkeyIndex = s.pubkeyIndex := by
  induction ids generalizing s with
  | nil => rfl
  | cons id ids ih => rw [reapAll_cons, ih]; rfl

@[simp] theorem persistent_reapAll : (s.reapAll ids).persistent = s.persistent := by
  induction ids generalizing s with
  | nil => rfl
  | cons id ids ih => rw [reapAll_cons, ih]; rfl

@[simp] theorem limits_reapAll : (s.reapAll ids).limits = s.limits := by
  induction ids generalizing s with
  | nil => rfl
  | cons id ids ih => rw [reapAll_cons, ih]; rfl

@[simp] theorem peerCache_reapAll : (s.reapAll ids).peerCache = s.peerCache := by
  induction ids generalizing s with
  | nil => rfl
  | cons id ids ih => rw [reapAll_cons, ih]; rfl

theorem lookup_channels_reapAll :
    (s.reapAll ids).channels.lookup x = if x ∈ ids then none else s.channels.lookup x := by
  induction ids generalizing s with
  | nil => rfl
  | cons id ids ih =>
    rw [reapAll_cons, ih, reapChannel, lookup_erase_if]
    by_cases hx : x = id <;> by_cases hm : x ∈ ids <;> simp [hx, hm]

theorem lookup_channelKeys_reapAll :
    (s.reapAll ids).channelKeys.lookup x = if x ∈ ids then none else s.channelKeys.lookup x := by
  induction ids generalizing s with
  | nil => rfl
  | cons id ids ih =>
    rw [reapAll_cons, ih, reapChannel, lookup_erase_if]
    by_cases hx : x = id <;> by_cases hm : x ∈ ids <;> simp [hx, hm]

theorem lookup_channelCreatedAt_reapAll :
    (s.reapAll ids).channelCreatedAt.lookup x =
      if x ∈ ids then none else s.channelCreatedAt.lookup x := by
  induction ids generalizing s with
  | nil => rfl
  | cons id ids ih =>
    rw [reapAll_cons, ih, reapChannel, lookup_erase_if]
    by_cases hx : x = id <;> by_cases hm : x ∈ ids <;> simp [hx, hm]

/-- A token survives the reaping unless its channel was reaped. -/
theorem lookup_udpTokens_reapAll {t : UInt64} {o : SocketAddr × ChannelId × ℕ} :
    (s.reapAll ids).udpTokens.lookup t = some o ↔
      s.udpTokens.lookup t = some o ∧ o.2.1 ∉ ids := by
  induction ids generalizing s with
  | nil => simp [reapAll]
  | cons id ids ih =>
    rw [reapAll_cons, ih, reapChannel, lookup_retain_eq_some, decide_eq_true_iff, List.mem_cons,
      not_or, and_assoc]

end Reap

section Sweep

variable {grace ttl : ℕ}

/-- What the sweep reaps. -/
theorem mem_cleanupWith :
    x ∈ (s.cleanupWith env grace ttl).1 ↔
      ∃ ps, s.channels.lookup x = some ps ∧ s.isReapable env grace x ps = true := by
  simp only [cleanupWith, HashOrder.mem_toList, mem_collect]
  constructor
  · rintro ⟨id, ps, hl, hr, rfl⟩
    exact ⟨ps, hl, hr⟩
  · rintro ⟨ps, hl, hr⟩
    exact ⟨x, ps, hl, hr, rfl⟩

/-- A reaped channel had no participant and no member, and was not persistent. -/
theorem of_mem_cleanupWith (h : x ∈ (s.cleanupWith env grace ttl).1) :
    s.channels.lookup x = some ∅ ∧ (∀ a, s.channelOf a ≠ some x) ∧ x ∉ s.persistent := by
  obtain ⟨ps, hl, hr⟩ := mem_cleanupWith.1 h
  simp only [isReapable, Bool.and_eq_true, decide_eq_true_eq, Bool.not_eq_true'] at hr
  obtain ⟨⟨⟨rfl, hocc⟩, hper⟩, -⟩ := hr
  exact ⟨hl, not_occupied_iff.1 hocc, hper⟩

theorem cleanupWith_clients :
    (s.cleanupWith env grace ttl).2.clients = s.clients := clients_reapAll

theorem cleanupWith_pubkeyIndex :
    (s.cleanupWith env grace ttl).2.pubkeyIndex = s.pubkeyIndex := pubkeyIndex_reapAll

theorem cleanupWith_persistent :
    (s.cleanupWith env grace ttl).2.persistent = s.persistent := persistent_reapAll

theorem cleanupWith_limits :
    (s.cleanupWith env grace ttl).2.limits = s.limits := limits_reapAll

theorem cleanupWith_peerCache :
    (s.cleanupWith env grace ttl).2.peerCache = s.peerCache := peerCache_reapAll

theorem lookup_channels_cleanupWith :
    (s.cleanupWith env grace ttl).2.channels.lookup x =
      if x ∈ (s.cleanupWith env grace ttl).1 then none else s.channels.lookup x :=
  lookup_channels_reapAll

/-- What the reaping leaves of the channels. -/
theorem mem_channels_cleanupWith :
    x ∈ (s.cleanupWith env grace ttl).2.channels ↔
      x ∈ s.channels ∧ x ∉ (s.cleanupWith env grace ttl).1 := by
  rw [mem_iff_lookup, lookup_channels_cleanupWith, mem_iff_lookup]
  split <;> simp [*]

theorem lookup_channelKeys_cleanupWith :
    (s.cleanupWith env grace ttl).2.channelKeys.lookup x =
      if x ∈ (s.cleanupWith env grace ttl).1 then none else s.channelKeys.lookup x :=
  lookup_channelKeys_reapAll

theorem mem_channelKeys_cleanupWith :
    x ∈ (s.cleanupWith env grace ttl).2.channelKeys ↔
      x ∈ s.channelKeys ∧ x ∉ (s.cleanupWith env grace ttl).1 := by
  rw [mem_iff_lookup, lookup_channelKeys_cleanupWith, mem_iff_lookup]
  split <;> simp [*]

theorem lookup_channelCreatedAt_cleanupWith :
    (s.cleanupWith env grace ttl).2.channelCreatedAt.lookup x =
      if x ∈ (s.cleanupWith env grace ttl).1 then none else s.channelCreatedAt.lookup x :=
  lookup_channelCreatedAt_reapAll

theorem mem_channelCreatedAt_cleanupWith :
    x ∈ (s.cleanupWith env grace ttl).2.channelCreatedAt ↔
      x ∈ s.channelCreatedAt ∧ x ∉ (s.cleanupWith env grace ttl).1 := by
  rw [mem_iff_lookup, lookup_channelCreatedAt_cleanupWith, mem_iff_lookup]
  split <;> simp [*]

theorem participants_cleanupWith :
    (s.cleanupWith env grace ttl).2.participants x = s.participants x := by
  rw [participants, lookup_channels_cleanupWith]
  split
  · rename_i hx
    rw [participants_of_lookup (of_mem_cleanupWith hx).1]
    rfl
  · rfl

/-- A token survives the sweep when its channel does and it is live or young. -/
theorem lookup_udpTokens_cleanupWith {t : UInt64} {o : SocketAddr × ChannelId × ℕ} :
    (s.cleanupWith env grace ttl).2.udpTokens.lookup t = some o ↔
      s.udpTokens.lookup t = some o ∧ o.2.1 ∉ (s.cleanupWith env grace ttl).1 ∧
        (s.channelOf o.1 = some o.2.1 ∨ env.now - o.2.2 < ttl) := by
  have hlive : (s.reapAll (s.cleanupWith env grace ttl).1).isLive o = s.isLive o := by
    rw [isLive, isLive, channelOf, channelOf, clients_reapAll]
  have hkept : (s.cleanupWith env grace ttl).2.udpTokens.lookup t = some o ↔
      (s.reapAll (s.cleanupWith env grace ttl).1).udpTokens.lookup t = some o ∧
        ((s.reapAll (s.cleanupWith env grace ttl).1).isLive o ||
          decide (env.now - o.2.2 < ttl)) = true := lookup_retain_eq_some _ _ _ _
  rw [hkept, lookup_udpTokens_reapAll, hlive, and_assoc]
  simp [isLive]

end Sweep

/-! ## Channels and addresses after each operation -/

theorem channelOf_insert {c : ClientInfo} (h : s'.clients = s.clients.insert a c) :
    s'.channelOf b = if b = a then c.channel else s.channelOf b := by
  rw [channelOf, h, lookup_insert_if]
  split <;> rfl

theorem udpOf_insert {c : ClientInfo} (h : s'.clients = s.clients.insert a c) :
    s'.udpOf b = if b = a then c.udpAddr else s.udpOf b := by
  rw [udpOf, h, lookup_insert_if]
  split <;> rfl

/-- An update that keeps a client's channel keeps everybody's. -/
theorem channelOf_insert_same {c d : ClientInfo} (hl : s.clients.lookup a = some c)
    (h : s'.clients = s.clients.insert a d) (hc : d.channel = c.channel) :
    s'.channelOf b = s.channelOf b := by
  rw [channelOf_insert h]
  split
  · rename_i hb
    rw [hb, channelOf_of_lookup hl, hc]
  · rfl

theorem udpOf_insert_same {c d : ClientInfo} (hl : s.clients.lookup a = some c)
    (h : s'.clients = s.clients.insert a d) (hc : d.udpAddr = c.udpAddr) :
    s'.udpOf b = s.udpOf b := by
  rw [udpOf_insert h]
  split
  · rename_i hb
    rw [hb, udpOf_of_lookup hl, hc]
  · rfl

theorem channelOf_congr (h : s'.clients = s.clients) : s'.channelOf b = s.channelOf b := by
  rw [channelOf, h, channelOf]

theorem udpOf_congr (h : s'.clients = s.clients) : s'.udpOf b = s.udpOf b := by
  rw [udpOf, h, udpOf]

@[simp] theorem channelOf_dropParticipant {udp : Option SocketAddr} :
    (s.dropParticipant env ch udp).channelOf b = s.channelOf b :=
  channelOf_congr clients_dropParticipant

@[simp] theorem udpOf_dropParticipant {udp : Option SocketAddr} :
    (s.dropParticipant env ch udp).udpOf b = s.udpOf b :=
  udpOf_congr clients_dropParticipant

@[simp] theorem channelOf_cleanupWith {grace ttl : ℕ} :
    (s.cleanupWith env grace ttl).2.channelOf b = s.channelOf b :=
  channelOf_congr cleanupWith_clients

@[simp] theorem udpOf_cleanupWith {grace ttl : ℕ} :
    (s.cleanupWith env grace ttl).2.udpOf b = s.udpOf b :=
  udpOf_congr cleanupWith_clients

theorem channelOf_rekeyed {c : ClientInfo} {pk : Bytes} (hl : s.clients.lookup a = some c) :
    (s.rekeyed a c pk).channelOf b = s.channelOf b :=
  channelOf_insert_same (d := { c with pubkey := some pk }) hl rfl rfl

theorem udpOf_rekeyed {c : ClientInfo} {pk : Bytes} (hl : s.clients.lookup a = some c) :
    (s.rekeyed a c pk).udpOf b = s.udpOf b :=
  udpOf_insert_same (d := { c with pubkey := some pk }) hl rfl rfl

theorem channelOf_renamed {c : ClientInfo} {name : String} (hl : s.clients.lookup a = some c) :
    (s.renamed a c name).channelOf b = s.channelOf b :=
  channelOf_insert_same (d := { c with name := name }) hl rfl rfl

theorem udpOf_renamed {c : ClientInfo} {name : String} (hl : s.clients.lookup a = some c) :
    (s.renamed a c name).udpOf b = s.udpOf b :=
  udpOf_insert_same (d := { c with name := name }) hl rfl rfl

theorem channelOf_greeted {token : UInt64} {tcp udp : SocketAddr} {c : ClientInfo}
    (hc : s.clients.lookup tcp = some c) :
    (s.greeted env token tcp c ch udp).channelOf b = s.channelOf b :=
  channelOf_insert_same (d := { c with udpAddr := some udp }) hc rfl rfl

theorem udpOf_greeted {token : UInt64} {tcp udp : SocketAddr} {c : ClientInfo} :
    (s.greeted env token tcp c ch udp).udpOf b = if b = tcp then some udp else s.udpOf b :=
  udpOf_insert (c := { c with udpAddr := some udp }) rfl

theorem setChannel_of_lookup {c : ClientInfo} (hl : s.clients.lookup a = some c) :
    (s.setChannel a ch).clients = s.clients.insert a { c with channel := some ch } := by
  simp only [setChannel, Table.modify, hl]

theorem toInner_rotateKey :
    (s.rotateKey env ch).toInner = { s.toInner with
      channelKeys := if s.rotatesKey ch then s.channelKeys.insert ch env.key.toList
        else s.channelKeys } := by
  unfold rotateKey
  split <;> rfl

theorem clients_joined {c : ClientInfo} {token : UInt64} (hl : s.clients.lookup a = some c) :
    (s.joined env a ch token).clients = s.clients.insert a { c with channel := some ch } := by
  have hl' : (s.rotateKey env ch).clients.lookup a = some c := by rw [toInner_rotateKey]; exact hl
  have h : ((s.rotateKey env ch).setChannel a ch).clients = _ := setChannel_of_lookup hl'
  rw [toInner_rotateKey] at h
  exact h

@[simp] theorem channels_joined {token : UInt64} :
    (s.joined env a ch token).channels = s.channels := by
  simp only [joined, addToken, setChannel, toInner_rotateKey]

@[simp] theorem persistent_joined {token : UInt64} :
    (s.joined env a ch token).persistent = s.persistent := by
  simp only [joined, addToken, setChannel, toInner_rotateKey]

@[simp] theorem limits_joined {token : UInt64} :
    (s.joined env a ch token).limits = s.limits := by
  simp only [joined, addToken, setChannel, toInner_rotateKey]

@[simp] theorem channelCreatedAt_joined {token : UInt64} :
    (s.joined env a ch token).channelCreatedAt = s.channelCreatedAt := by
  simp only [joined, addToken, setChannel, toInner_rotateKey]

@[simp] theorem pubkeyIndex_joined {token : UInt64} :
    (s.joined env a ch token).pubkeyIndex = s.pubkeyIndex := by
  simp only [joined, addToken, setChannel, toInner_rotateKey]

@[simp] theorem peerCache_joined {token : UInt64} :
    (s.joined env a ch token).peerCache = s.peerCache := by
  simp only [joined, addToken, setChannel, rotateKey]
  split <;> rfl

theorem channelKeys_joined {token : UInt64} :
    (s.joined env a ch token).channelKeys =
      if s.rotatesKey ch then s.channelKeys.insert ch env.key.toList else s.channelKeys := by
  simp only [joined, addToken, setChannel, toInner_rotateKey]

theorem udpTokens_joined {token : UInt64} :
    (s.joined env a ch token).udpTokens = s.udpTokens.insert token (a, ch, env.now) := by
  simp only [joined, addToken, setChannel, toInner_rotateKey]

theorem channelOf_joined {token : UInt64} (ha : a ∈ s.clients) :
    (s.joined env a ch token).channelOf b = if b = a then some ch else s.channelOf b := by
  obtain ⟨c, hl⟩ := (mem_iff_lookup _ _).1 ha
  exact channelOf_insert (clients_joined hl)

theorem udpOf_joined {token : UInt64} (ha : a ∈ s.clients) :
    (s.joined env a ch token).udpOf b = s.udpOf b := by
  obtain ⟨c, hl⟩ := (mem_iff_lookup _ _).1 ha
  exact udpOf_insert_same hl (clients_joined hl) rfl

theorem clients_echoed {c : ClientInfo} {token : UInt64} (hl : s.clients.lookup a = some c) :
    (s.echoed env a x token).clients = s.clients.insert a { c with channel := some x } :=
  setChannel_of_lookup (s := (s.addChannel env x).addToken env token a x) hl

theorem channelOf_echoed {token : UInt64} (ha : a ∈ s.clients) :
    (s.echoed env a x token).channelOf b = if b = a then some x else s.channelOf b := by
  obtain ⟨c, hl⟩ := (mem_iff_lookup _ _).1 ha
  exact channelOf_insert (clients_echoed hl)

theorem udpOf_echoed {token : UInt64} (ha : a ∈ s.clients) :
    (s.echoed env a x token).udpOf b = s.udpOf b := by
  obtain ⟨c, hl⟩ := (mem_iff_lookup _ _).1 ha
  exact udpOf_insert_same hl (clients_echoed hl) rfl

theorem channelKeys_addChannel :
    (s.addChannel env ch).channelKeys = s.channelKeys.insert ch env.key.toList := rfl

theorem channelKeys_echoed {token : UInt64} :
    (s.echoed env a ch token).channelKeys = s.channelKeys.insert ch env.key.toList := rfl

theorem participants_addChannel (env : Env) (hx : ch ∉ s.channels) :
    (s.addChannel env ch).participants x = s.participants x := by
  rw [participants, addChannel, lookup_insert_if]
  split
  · rename_i h
    rw [h, participants_of_notMem hx]
    rfl
  · rfl

/-! ## A client on its way out -/

/-- `s₁` is `s` with the client `a` gone from its channel and its tokens revoked, but
its UDP address still in the participant set: where `remove_client` and
`leave_channel` stand before `dropParticipant`. -/
structure Departed (s : ServerState) (a : SocketAddr) (s₁ : ServerState) : Prop where
  channels : s₁.channels = s.channels
  channelKeys : s₁.channelKeys = s.channelKeys
  persistent : s₁.persistent = s.persistent
  peerCache : s₁.peerCache = s.peerCache
  udpTokens : s₁.udpTokens = s.tokensWithout a
  channelOf : ∀ x, s₁.channelOf x = if x = a then none else s.channelOf x
  udpOf : ∀ x, s₁.udpOf x = if x = a then none else s.udpOf x

theorem departed_withoutClient (c : ClientInfo) : Departed s a (s.withoutClient a c) where
  channels := rfl
  channelKeys := rfl
  persistent := rfl
  peerCache := rfl
  udpTokens := rfl
  channelOf x := by
    rw [ServerState.channelOf, withoutClient, lookup_erase_if]
    split <;> rfl
  udpOf x := by
    rw [ServerState.udpOf, withoutClient, lookup_erase_if]
    split <;> rfl

theorem departed_withoutMember (c : ClientInfo) : Departed s a (s.withoutMember a c) where
  channels := rfl
  channelKeys := rfl
  persistent := rfl
  peerCache := rfl
  udpTokens := rfl
  channelOf _ := channelOf_insert (c := { c with channel := none, udpAddr := none }) rfl
  udpOf _ := udpOf_insert (c := { c with channel := none, udpAddr := none }) rfl

section Departed

variable {s₁ : ServerState} {udp : Option SocketAddr}

theorem Departed.participants (h : Departed s a s₁) : s₁.participants x = s.participants x := by
  rw [ServerState.participants, h.channels, ServerState.participants]

theorem Departed.destroys (h : Departed s a s₁) : s₁.destroys ch udp ↔ s.destroys ch udp := by
  rw [ServerState.destroys, h.channels, h.participants, h.persistent, ServerState.destroys]

/-- The client that left is in no channel any more, and everybody else is where they were. -/
theorem Departed.channelOf_eq_some (h : Departed s a s₁) :
    s₁.channelOf b = some ch ↔ b ≠ a ∧ s.channelOf b = some ch := by
  rw [h.channelOf]
  split <;> simp [*]

end Departed

end ServerState
end Server
end TcVoice
