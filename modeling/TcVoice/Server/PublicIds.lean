import TcVoice.Shared.ChannelName
import TcVoice.Shared.VoicePacket
import TcVoice.Server.Bounds

/-!
# The ids of public channels

The names of public channels come from the command line, where `main` sanitises
them, and from clients, whose names the server takes as they are.

* `startUp` — the loop of `main` that creates the channels of the command line.
* `Addressable`, `addressable_iff` — the voice packets of a channel can be told
  from those of any other exactly when its id is of at most 255 bytes.
* `CanonicalIds`, `CreatesCanonical` — what the ids should be, and the names they
  are made from.
* `canonicalIds_iff` — **the ids stay canonical exactly as long as the names in
  the clients' requests are**, with `hello_world_created` for one that is not.
-/

namespace TcVoice
namespace Server

open Runs Table ServerState

variable {env : Env} {s s' : ServerState} {op : Op} {w w' : World} {a : SocketAddr}
  {ch id : ChannelId} {name : String}

/-! ## Starting up -/

/-- The channels given on the command line are created one after another: each name is
sanitised, and skipped if that leaves nothing or too much, or if there is no creating it. -/
def startUp (s : ServerState) : List (Env × String) → Option ServerState
  | [] => some s
  | (env, raw) :: publicChannels =>
    let name := sanitizeChannelName raw
    if name = "" then startUp s publicChannels
    else if Config.maxChannelNameLen < byteLen name then startUp s publicChannels
    else (s.createPersistentChannel env name).bind fun r => startUp r.2 publicChannels

/-! ## Canonical ids -/

/-- The id is that of a public channel. -/
def IsPublic (ch : ChannelId) : Prop := startsWith ch Config.publicChannelPrefix = true

instance : DecidablePred IsPublic := fun ch =>
  inferInstanceAs (Decidable (startsWith ch Config.publicChannelPrefix = true))

/-- The voice packets of the channel are read back as they were written. -/
def Addressable (ch : ChannelId) : Prop :=
  ∀ p : VoicePacket, p.channelId = ch → p.opusData ≠ [] →
    VoicePacket.parseChannelId p.encode = some ch ∧
      (p.sequence ≠ 0 → VoicePacket.decode p.encode = some p)

/-- Exactly the ids whose length fits into its byte. -/
theorem addressable_iff : Addressable ch ↔ byteLen ch ≤ 255 := by
  constructor
  · intro h
    have hparse := (h ⟨1, ch, [0]⟩ rfl (by simp)).1
    exact VoicePacket.byteLen_of_parseChannelId hparse
  · rintro hlen p rfl hopus
    exact ⟨VoicePacket.parseChannelId_encode hlen hopus,
      VoicePacket.decode_encode hlen hopus⟩

/-- A channel of this id exists, or a client is in it. -/
def InUse (s : ServerState) (ch : ChannelId) : Prop :=
  ch ∈ s.channels ∨ ∃ a, s.channelOf a = some ch

/-- Every public channel has the id of a canonical name; and every id in use fits the length
byte of a voice packet, and comes back from it. -/
structure CanonicalIds (s : ServerState) : Prop where
  named : ∀ ch ∈ s.channels, IsPublic ch →
    ∃ name, ch = Config.publicChannelPrefix ++ name ∧ Canonical name
  fits : ∀ ch, InUse s ch → byteLen ch ≤ 255 ∧ Addressable ch

theorem canonicalIds_new (limits : Limits) : CanonicalIds (.new limits) where
  named _ h := absurd h Finmap.notMem_empty
  fits ch h := by
    rcases h with h | ⟨a, h⟩
    · exact absurd h Finmap.notMem_empty
    · exact absurd h (by simp [ServerState.channelOf, ServerState.new])

/-- A step that creates no channel. -/
theorem CanonicalIds.mono (hi : CanonicalIds s) (hsub : ∀ x, x ∈ s'.channels → x ∈ s.channels)
    (hof : ∀ a x, s'.channelOf a = some x → InUse s x) : CanonicalIds s' where
  named x hx := hi.named x (hsub x hx)
  fits x hx := hi.fits x (hx.elim (fun h => .inl (hsub x h)) fun ⟨a, ha⟩ => hof a x ha)

/-- A step that creates one channel, and puts nobody anywhere else. -/
theorem canonicalIds_insert {ps : Finset SocketAddr} (hi : CanonicalIds s)
    (hch : s'.channels = s.channels.insert id ps)
    (hof : ∀ a x, s'.channelOf a = some x → x = id ∨ InUse s x) :
    CanonicalIds s' ↔
      (IsPublic id → ∃ name, id = Config.publicChannelPrefix ++ name ∧ Canonical name) ∧
        byteLen id ≤ 255 := by
  have hmem : ∀ x, x ∈ s'.channels ↔ x = id ∨ x ∈ s.channels := fun x => by
    rw [hch, Finmap.mem_insert]
  constructor
  · intro hi'
    have hin : id ∈ s'.channels := (hmem id).2 (.inl rfl)
    exact ⟨hi'.named id hin, (hi'.fits id (.inl hin)).1⟩
  · rintro ⟨hname, hlen⟩
    refine ⟨fun x hx => ?_, fun x hx => ?_⟩
    · rcases (hmem x).1 hx with rfl | hx
      · exact hname
      · exact hi.named x hx
    · have hold : x = id ∨ InUse s x := by
        rcases hx with hx | ⟨a, ha⟩
        · exact ((hmem x).1 hx).imp_right .inl
        · exact hof a x ha
      rcases hold with rfl | hold
      · exact ⟨hlen, addressable_iff.2 hlen⟩
      · exact hi.fits x hold

/-! ## Names and ids -/

theorem utf8Size_of_isNameChar {c : Char} (h : isNameChar c = true) : c.utf8Size = 1 := by
  simp only [isNameChar, Bool.or_eq_true, beq_iff_eq] at h
  rcases h with (h | h) | rfl
  · have hle : c.val ≤ 0x7f := UInt32.le_trans (isLower_iff.1 h).2 (by decide)
    simp [Char.utf8Size, hle]
  · exact utf8Size_of_isDigit h
  · decide

/-- A sanitised name has a byte for each character. -/
theorem byteLen_of_sanitized (h : sanitizeChannelName name = name) :
    byteLen name = name.toList.length := by
  have hchars := (sanitizeChannelName_eq_self_iff.1 h).1
  rw [← byteLen_of_ascii fun c hc => utf8Size_of_isNameChar (hchars c hc), String.ofList_toList]

/-- The id made from a name is as it should be exactly when the name is. -/
theorem canonical_iff :
    ((IsPublic (Config.publicChannelPrefix ++ name) →
        ∃ name', Config.publicChannelPrefix ++ name = Config.publicChannelPrefix ++ name' ∧
          Canonical name') ∧ byteLen (Config.publicChannelPrefix ++ name) ≤ 255) ↔
      Canonical name := by
  constructor
  · rintro ⟨h, -⟩
    obtain ⟨name', heq, hcan⟩ := h (startsWith_append _ _)
    rwa [(String.append_right_inj _).1 heq]
  · intro hcan
    refine ⟨fun _ => ⟨name, rfl, hcan⟩, ?_⟩
    rw [byteLen_append, byteLen_publicChannelPrefix, byteLen_of_sanitized hcan.fixed]
    exact le_trans (Nat.add_le_add_left hcan.length_le 4) (by decide)

/-- A drawn id is not a public one, and short. -/
theorem generateChannelId_fits (draw : IdDraw) :
    ¬ IsPublic (generateChannelId draw) ∧ byteLen (generateChannelId draw) ≤ 255 := by
  refine ⟨?_, ?_⟩
  · rw [IsPublic, generateChannelId_not_public]
    simp
  · rw [byteLen_generateChannelId]
    decide

theorem echo_fits (draw : IdDraw) :
    ¬ IsPublic (Config.echoChannelPrefix ++ generateChannelId draw) ∧
      byteLen (Config.echoChannelPrefix ++ generateChannelId draw) ≤ 255 := by
  refine ⟨?_, ?_⟩
  · rw [IsPublic, echo_not_public]
    simp
  · rw [byteLen_append, byteLen_generateChannelId]
    decide

/-! ## One operation -/

/-- The name of the public channel that an operation is to create. -/
def Op.named : Op → Option String
  | .createChannel name => name
  | .createPersistentChannel name => some name
  | _ => none

/-- An operation that finds room for a public channel, and none of its name, has a canonical
name for it. -/
def CreatesCanonical (s : ServerState) (op : Op) : Prop :=
  ∀ name, op.named = some name → s.channelsFull = false →
    Config.publicChannelPrefix ++ name ∉ s.channels → Canonical name

theorem createsCanonical_of_named (h : op.named = none) : CreatesCanonical s op := by
  intro name hn
  rw [h] at hn
  cases hn

theorem createsCanonical_iff (hname : op.named = some name) (hfull : s.channelsFull = false)
    (hid : Config.publicChannelPrefix ++ name ∉ s.channels) :
    CreatesCanonical s op ↔ Canonical name := by
  constructor
  · exact fun h => h name hname hfull hid
  · intro hcan n hn _ _
    rw [hname] at hn
    cases hn
    exact hcan

/-- A creation that is refused finds no room, or a channel of its name. -/
theorem createsCanonical_of_refused (h : Refused env s op) : CreatesCanonical s op := by
  have hno : ∀ {n : String} {e : String} {s₁ : ServerState},
      s.createChannel env (some n) = some (.error e, s₁) → s.channelsFull = false →
        Config.publicChannelPrefix ++ n ∉ s.channels → Canonical n := by
    intro n e s₁ he hfull hid
    rcases createChannel_error he with ⟨hfull', -⟩ | ⟨n', hn', -, hid', -⟩
    · rw [hfull] at hfull'
      cases hfull'
    · cases hn'
      exact absurd hid' hid
  intro n hn hfull hid
  cases op with
  | createChannel name =>
    obtain rfl : name = some n := hn
    obtain ⟨e, he⟩ := h
    exact hno he hfull hid
  | createPersistentChannel name =>
    cases hn
    obtain ⟨e, he⟩ := h
    obtain ⟨⟨r, s₁⟩, hc, he⟩ := Option.map_eq_some_iff.1 he
    cases r with
    | ok id => cases he
    | error e => exact hno hc hfull hid
  | _ => cases hn

/-- A departure from a channel takes no id into use. -/
theorem CanonicalIds.depart {s₁ : ServerState} {udp : Option SocketAddr} (hi : CanonicalIds s)
    (hd : Departed s a s₁) : CanonicalIds (s₁.dropParticipant env ch udp) := by
  refine hi.mono (fun x hx => ?_) fun b x hb => ?_
  · rw [← hd.channels]
    exact (mem_channels_dropParticipant.1 hx).1
  · rw [channelOf_dropParticipant] at hb
    exact .inr ⟨b, (hd.channelOf_eq_some.1 hb).2⟩

/-- **One operation.**  From canonical ids it leads to canonical ids exactly when it creates no
channel under another name. -/
theorem canonicalIds_change (hi : CanonicalIds s) (hc : Change env s op s') :
    CanonicalIds s' ↔ CreatesCanonical s op := by
  -- An operation that creates nothing leaves every id that is in use in use.
  have hkeep : op.named = none → (∀ x, x ∈ s'.channels → x ∈ s.channels) →
      (∀ a x, s'.channelOf a = some x → InUse s x) →
        (CanonicalIds s' ↔ CreatesCanonical s op) := fun hop hsub hof =>
    iff_of_true (hi.mono hsub hof) (createsCanonical_of_named hop)
  cases hc with
  | refused h => exact iff_of_true hi (createsCanonical_of_refused h)
  | registered =>
    refine hkeep rfl (fun _ h => h) fun b x hb => ?_
    rw [channelOf_insert rfl] at hb
    split at hb
    · exact absurd hb (by simp)
    · exact .inr ⟨b, hb⟩
  | rekeyed hl =>
    exact hkeep rfl (fun _ h => h) fun b x hb => .inr ⟨b, (channelOf_rekeyed hl).symm.trans hb⟩
  | renamed hl =>
    exact hkeep rfl (fun _ h => h) fun b x hb => .inr ⟨b, (channelOf_renamed hl).symm.trans hb⟩
  | @removed a c =>
    exact hkeep rfl (fun _ h => h) fun b x hb =>
      .inr ⟨b, ((departed_withoutClient c).channelOf_eq_some.1 hb).2⟩
  | @hungUp a c =>
    exact iff_of_true (hi.depart (departed_withoutClient c)) (createsCanonical_of_named rfl)
  | @left a c =>
    exact iff_of_true (hi.depart (departed_withoutMember c)) (createsCanonical_of_named rfl)
  | @created name id hid hname hr =>
    refine Iff.trans (canonicalIds_insert hi rfl fun b x hb => .inr (.inr ⟨b, hb⟩)) ?_
    cases name with
    | none =>
      obtain ⟨draw, rfl⟩ := hname
      obtain ⟨hpub, hlen⟩ := generateChannelId_fits draw
      exact iff_of_true ⟨fun h => absurd h hpub, hlen⟩ (createsCanonical_of_named rfl)
    | some n =>
      obtain rfl : id = Config.publicChannelPrefix ++ n := hname
      rw [createsCanonical_iff rfl (channelsFull_of_createChannel hr) hid]
      exact canonical_iff
  | @established name id hid hname hr =>
    subst hname
    refine Iff.trans (canonicalIds_insert hi rfl fun b x hb => .inr (.inr ⟨b, hb⟩)) ?_
    rw [createsCanonical_iff rfl (channelsFull_of_createPersistentChannel hr) hid]
    exact canonical_iff
  | @joined a ch token hch ha =>
    refine hkeep rfl (fun x hx => by rwa [channels_joined] at hx) fun b x hb => ?_
    rw [channelOf_joined ha] at hb
    split at hb
    · cases hb
      exact .inl hch
    · exact .inr ⟨b, hb⟩
  | @echoed a id token hid ha hout h0 htok hdraw =>
    obtain ⟨draw, rfl⟩ := hdraw
    obtain ⟨hpub, hlen⟩ := echo_fits draw
    refine iff_of_true ((canonicalIds_insert hi rfl fun b x hb => ?_).2
      ⟨fun h => absurd h hpub, hlen⟩) (createsCanonical_of_named rfl)
    rw [channelOf_echoed ha] at hb
    split at hb
    · cases hb
      exact .inl rfl
    · exact .inr (.inr ⟨b, hb⟩)
  | renewed => exact hkeep rfl (fun _ h => h) fun b x hb => .inr ⟨b, hb⟩
  | greeted ht hip hl =>
    exact hkeep rfl (fun _ h => mem_channels_greeted.1 h) fun b x hb =>
      .inr ⟨b, (channelOf_greeted hl).symm.trans hb⟩
  | swept =>
    refine hkeep rfl (fun x hx => ?_) fun b x hb => ?_
    · exact (mem_channels_cleanupWith.1 hx).1
    · rw [channelOf_cleanupWith] at hb
      exact .inr ⟨b, hb⟩

/-! ## Runs of the server -/

/-- No name keeps the server from starting. -/
theorem startUp_returns (s : ServerState) (publicChannels : List (Env × String)) :
    ∃ s', startUp s publicChannels = some s' := by
  induction publicChannels generalizing s with
  | nil => exact ⟨s, rfl⟩
  | cons entry publicChannels ih =>
    obtain ⟨env, raw⟩ := entry
    simp only [startUp]
    split
    · exact ih s
    split
    · exact ih s
    obtain ⟨r, hr⟩ : ∃ r, s.createPersistentChannel env (sanitizeChannelName raw) = some r := by
      unfold createPersistentChannel createChannel
      split
      · exact ⟨_, rfl⟩
      · simp only
        split <;> exact ⟨_, rfl⟩
    rw [hr, Option.bind_some]
    exact ih r.2

/-- The channels of the command line have canonical ids. -/
theorem startUp_canonical {limits : Limits} {publicChannels : List (Env × String)}
    (hs : Started limits s) (hi : CanonicalIds s) (h : startUp s publicChannels = some s') :
    Started limits s' ∧ CanonicalIds s' := by
  induction publicChannels generalizing s with
  | nil =>
    cases h
    exact ⟨hs, hi⟩
  | cons entry publicChannels ih =>
    obtain ⟨env, raw⟩ := entry
    simp only [startUp] at h
    split at h
    · exact ih hs hi h
    split at h
    · exact ih hs hi h
    rename_i hne hlen
    obtain ⟨r, hr, hrest⟩ := Option.bind_eq_some_iff.1 h
    have hexec : exec env s (.createPersistentChannel (sanitizeChannelName raw)) = some r.2 := by
      rw [exec, hr]
      rfl
    have hcan : Canonical (sanitizeChannelName raw) := by
      have hfixed := sanitizeChannelName_idem raw
      rw [byteLen_of_sanitized hfixed, not_lt] at hlen
      exact ⟨hfixed, hne, hlen⟩
    have hstarted : Started limits r.2 :=
      hs.next (e := (env, .createPersistentChannel (sanitizeChannelName raw))) ⟨_, rfl⟩ hexec
    refine ih hstarted ((canonicalIds_change hi (exec_change hexec)).2 ?_) hrest
    intro name hn _ _
    cases hn
    exact hcan

/-- A request for a public channel, for which there is room and which does not exist yet, gives
it a canonical name. -/
def RequestsCanonical (w : World) (e : Env × World.Event) : Prop :=
  ∀ a name, e.2 = .request a (.createChannel (some name)) → w.state.channelsFull = false →
    Config.publicChannelPrefix ++ name ∉ w.state.channels → Canonical name

/-- A request to create a channel is served with a creation. -/
theorem step_createChannel {name : Option String}
    (h : w.step (env, .request a (.createChannel name)) = some w') :
    exec env w.state (.createChannel name) = some w'.state := by
  refine World.step_operation (fun _ => rfl) (fun _ r _ => ?_) h
  cases r <;> rfl

/-- **One step of the server.** -/
theorem canonicalIds_step {e : Env × World.Event} (ho : Orderly w) (hi : CanonicalIds w.state)
    (h : w.step e = some w') : CanonicalIds w'.state ↔ RequestsCanonical w e := by
  obtain ⟨env, ev⟩ := e
  by_cases hreq : ∃ a name, ev = .request a (.createChannel (some name))
  · obtain ⟨a, name, rfl⟩ := hreq
    rw [canonicalIds_change hi (exec_change (step_createChannel h))]
    constructor
    · intro hcan b n he
      cases he
      exact hcan name rfl
    · intro hcan n hn
      cases hn
      exact hcan a name rfl
  · simp only [not_exists] at hreq
    refine iff_of_true ?_ fun a name he => absurd he (hreq a name)
    rcases (World.step_move h).call ho with heq | ⟨op, hasks, -, hexec⟩
    · rwa [heq]
    · refine (canonicalIds_change hi (exec_change hexec)).2 (createsCanonical_of_named ?_)
      cases op with
      | createChannel name =>
        cases ev with
        | request a msg =>
          cases msg with
          | createChannel n =>
            cases n with
            | none => exact hasks
            | some n => exact absurd rfl (hreq a n)
          | _ => exact hasks.elim
        | _ => exact hasks.elim
      | createPersistentChannel name =>
        cases ev with
        | request a msg => cases msg <;> exact hasks.elim
        | _ => exact hasks.elim
      | _ => rfl

/-- **When public ids are canonical.**  In every run of the server, started with any names on
the command line and with the requests of any number of clients served in any order: every
public channel has the id of a canonical name throughout, and every id in use comes back from
a voice packet, if and only if each request along the run that creates a public channel gives
it a canonical name. -/
theorem canonicalIds_iff (limits : Limits) (publicChannels : List (Env × String))
    (s : ServerState) (hs : startUp (.new limits) publicChannels = some s)
    (es : List (Env × World.Event)) :
    Throughout World.step (fun w => CanonicalIds w.state) (.listening s) es ↔
      EachStep World.step RequestsCanonical (.listening s) es := by
  obtain ⟨hstarted, hi⟩ := startUp_canonical (.refl _ _) (canonicalIds_new limits) hs
  exact throughout_iff_eachStep Orderly
    (fun _ _ _ ho _ h => ho.move (World.step_move h))
    (fun _ _ _ ho hi _ h => canonicalIds_step ho hi h)
    (orderly_listening hstarted.clients) hi (eachStep_true _ _)

/-! ## A name that is not canonical -/

/-- A client creates a channel under a name with a space and capitals in it. -/
def helloWorldRun : List (Env × World.Event) :=
  sampled 1 (connecting (.v4 1 1) ++ [.request (.v4 1 1) (.createChannel (some "Hello World"))])

/-- The server was started with `Lobby!` on the command line, which became `pub-lobby`. -/
theorem canonicalIds_iff_helloWorldRun : ∃ s,
    startUp (.new ⟨0, 0⟩) [(.sample 7 1, "Lobby!")] = some s ∧ "pub-lobby" ∈ s.channels ∧
      (Throughout World.step (fun w => CanonicalIds w.state) (.listening s) helloWorldRun ↔
        EachStep World.step RequestsCanonical (.listening s) helloWorldRun) := by
  obtain ⟨s, hs, hin⟩ : ∃ s, startUp (.new ⟨0, 0⟩) [(.sample 7 1, "Lobby!")] = some s ∧
      "pub-lobby" ∈ s.channels := ⟨_, rfl, by decide⟩
  exact ⟨s, hs, hin, canonicalIds_iff ⟨0, 0⟩ [(.sample 7 1, "Lobby!")] s hs helloWorldRun⟩

/-- The channel exists, and its name is not canonical. -/
theorem hello_world_created :
    ∃ w, runFrom World.step (.listening (.new ⟨0, 0⟩)) helloWorldRun = some w ∧
      "pub-Hello World" ∈ w.state.channels ∧ ¬ CanonicalIds w.state := by
  refine ⟨_, rfl, by decide, fun h => ?_⟩
  obtain ⟨name, heq, hcan⟩ := h.named "pub-Hello World" (by decide) (by decide)
  have hname : "Hello World" = name := (String.append_right_inj Config.publicChannelPrefix).1 heq
  rw [← hname] at hcan
  exact absurd hcan.fixed (by decide)

end Server
end TcVoice
