import TcVoice.Server.History
import TcVoice.Server.Participants

/-!
# Voice keys

Who holds which voice key, and how long a key lasts.

* `KeyAgreement` — every member holds its channel's present key, so that any two
  members of a channel hold the same.
* `keyAgreement_iff` — **a run keeps the members' keys agreed exactly when its
  departures spare the members that stay**, with `keys_disagree` for one where
  two members of a re-created channel hold different keys.
* `StillOld`, `Renewed` — where a channel stands before and after a moment
  without a member, as far as the keys drawn up to some earlier time go.
* `stays_have_different_keys` — **forward secrecy**: two stays in a channel with a
  moment between them when it had no member have keys from different draws.
-/

namespace TcVoice
namespace Server

open Runs Table ServerState

variable {env : Env} {s s' : ServerState} {op : Op} {h h' : History} {e : Call}
  {a b : SocketAddr} {ch x : ChannelId} {k : Bytes}

/-! ## Agreement -/

/-- Every member was last handed the key its channel has now, and so any two members
of one channel hold the same key. -/
structure KeyAgreement (h : History) : Prop where
  current : ∀ a ch, h.server.channelOf a = some ch →
    ∃ k, h.heldKey a = some k ∧ h.server.channelKeys.lookup ch = some k
  shared : ∀ a b ch, h.server.channelOf a = some ch → h.server.channelOf b = some ch →
    h.heldKey a = h.heldKey b

theorem keyAgreement_of_current (hcur : ∀ a ch, h.server.channelOf a = some ch →
    ∃ k, h.heldKey a = some k ∧ h.server.channelKeys.lookup ch = some k) : KeyAgreement h where
  current := hcur
  shared a b ch ha hb := by
    obtain ⟨k, hka, hk⟩ := hcur a ch ha
    obtain ⟨k', hkb, hk'⟩ := hcur b ch hb
    rw [hka, hkb, Option.some.inj (hk.symm.trans hk')]

theorem keyAgreement_new (limits : Limits) : KeyAgreement (.new limits) :=
  keyAgreement_of_current fun a ch h => by simp [channelOf, History.new, ServerState.new] at h

/-- Members that hold their channel's key have a channel to hold it of. -/
theorem KeyAgreement.members (ha : KeyAgreement h) (hk : KeysMatch h.server) :
    MembersHaveChannels h.server := by
  intro a ch hin
  obtain ⟨k, -, hkey⟩ := ha.current a ch hin
  have hmem := Finmap.mem_of_lookup_eq_some hkey
  exact ⟨(hk ch).1 hmem, hmem⟩

/-- **One step.**  From a state with the keys agreed, a step leads to such a state
exactly when it spares the members. -/
theorem keyAgreement_step (hk : KeysMatch h.server) (ha : KeyAgreement h)
    (hs : h.step e = some h') : KeyAgreement h' ↔ SparesMembers h.server e := by
  obtain ⟨hc, hnote⟩ := History.step_change hs
  rw [← membersHaveChannels_change hk (ha.members hk) hc]
  refine ⟨fun ha' => ha'.members (hk.change hc), fun hm' => keyAgreement_of_current ?_⟩
  intro b x hb
  obtain ⟨k', hk'⟩ := (mem_iff_lookup _ _).1 (hm' b x hb).2
  rcases member_cases hk hc hb with ⟨k, hn, hkey⟩ | ⟨hb₀, hn⟩
  · exact ⟨k, by rw [hnote]; exact History.heldKey_of_handed hn, hkey⟩
  · -- The member was there before; its channel's key has not changed since.
    obtain ⟨k, hheld, hkey⟩ := ha.current b x hb₀
    have hkept := key_kept (ha.members hk) hc hb₀ hk'
    rw [hkey] at hkept
    refine ⟨k, ?_, by rw [hk', ← hkept]⟩
    rw [hnote, History.heldKey_of_not_handed hn, hheld]

/-- **When the members' keys agree.**  In every run from the empty registry, every member
holds its channel's present key throughout if and only if each departure along the run
either leaves a persistent channel, or leaves another registered UDP address behind, or
was the last member's. -/
theorem keyAgreement_iff (limits : Limits) (es : List Call) :
    Throughout History.step KeyAgreement (.new limits) es ↔
      EachStep History.step (fun h e => SparesMembers h.server e) (.new limits) es :=
  throughout_iff_eachStep (fun h => KeysMatch h.server)
    (fun _ _ _ hk _ hs => hk.change (History.step_change hs).1)
    (fun _ _ _ hk ha _ hs => keyAgreement_step hk ha hs)
    (keysMatch_new limits) (keyAgreement_new limits) (eachStep_true _ _)

/-- `pub-x` goes under the second client when the first one leaves; the first creates it
anew, under another key, and joins it. -/
def recreatedRun : List Call :=
  [(.sample 7 1, .registerClient (.v4 1 1)), (.sample 7 1, .registerClient (.v4 2 2)),
    (.sample 7 1, .createChannel (some "x")), (.sample 7 1, .joinChannel (.v4 1 1) "pub-x"),
    (.sample 7 2, .joinChannel (.v4 2 2) "pub-x"), (.sample 7 1, .leaveChannel (.v4 1 1)),
    (.sample 8 1, .createChannel (some "x")), (.sample 8 3, .joinChannel (.v4 1 1) "pub-x")]

/-- The two are then in `pub-x` together, with different keys. -/
theorem keys_disagree : ∃ h, runFrom History.step (.new ⟨0, 0⟩) recreatedRun = some h ∧
    h.server.channelOf (.v4 1 1) = some "pub-x" ∧ h.server.channelOf (.v4 2 2) = some "pub-x" ∧
      ¬ KeyAgreement h := by
  refine ⟨_, rfl, by decide, by decide, fun ha => ?_⟩
  exact absurd (ha.shared (.v4 1 1) (.v4 2 2) "pub-x" (by decide) (by decide)) (by decide)

/-! ## What every run knows of its keys -/

/-- Every key in force and every key a member holds has been drawn, and the tables
agree as far as they do in every run. -/
structure Keyed (h : History) : Prop where
  keysMatch : KeysMatch h.server
  tokens : TokensMatch h.server
  owned : ParticipantsOwned h.server
  drawn : ∀ x k, h.server.channelKeys.lookup x = some k → k ∈ h.draws
  held : ∀ a ch, h.server.channelOf a = some ch → ∃ k, h.heldKey a = some k ∧ k ∈ h.draws

theorem keyed_new (limits : Limits) : Keyed (.new limits) where
  keysMatch := keysMatch_new limits
  tokens := tokensMatch_new limits
  owned ch u hu := by simp [participants, History.new, ServerState.new] at hu
  drawn x k hk := by simp [History.new, ServerState.new] at hk
  held a ch ha := by simp [channelOf, History.new, ServerState.new] at ha

theorem History.draws_note : (h.note e s').draws = (keyDrawn e.1 h.server e.2).toList ++ h.draws :=
  rfl

theorem History.mem_draws_note : k ∈ (h.note e s').draws ↔
    keyDrawn e.1 h.server e.2 = some k ∨ k ∈ h.draws := by
  rw [draws_note, List.mem_append, Option.mem_toList]

theorem Keyed.step (hi : Keyed h) (hf : FreshAddress h.server e) (hs : h.step e = some h') :
    Keyed h' := by
  obtain ⟨hc, hnote⟩ := History.step_change hs
  have hdrawn : ∀ x k, h'.server.channelKeys.lookup x = some k → k ∈ h'.draws := by
    intro x k hx
    rw [hnote, History.mem_draws_note]
    exact (key_cases hc hx).imp_right (hi.drawn x k)
  refine ⟨hi.keysMatch.change hc, hi.tokens.change hf hc, hi.owned.change hi.tokens hf hc, hdrawn,
    fun b x hb => ?_⟩
  rcases member_cases hi.keysMatch hc hb with ⟨k, hn, hkey⟩ | ⟨hb₀, hn⟩
  · exact ⟨k, by rw [hnote]; exact History.heldKey_of_handed hn, hdrawn x k hkey⟩
  · obtain ⟨k, hheld, hk⟩ := hi.held b x hb₀
    refine ⟨k, ?_, ?_⟩
    · rw [hnote, History.heldKey_of_not_handed hn, hheld]
    · rw [hnote, History.mem_draws_note]
      exact .inr hk

/-! ## A channel between two stays -/

/-- Nothing makes a persistent channel an ordinary one. -/
theorem persistent_mono (hc : Change env s op s') (hx : x ∈ s.persistent) :
    x ∈ s'.persistent := by
  cases hc with
  | refused | registered | rekeyed | renamed | removed | renewed | greeted | created | echoed =>
    exact hx
  | hungUp | left => rwa [persistent_dropParticipant]
  | established => exact Finset.mem_insert_of_mem hx
  | joined => rwa [persistent_joined]
  | swept => rwa [cleanupWith_persistent]

/-- When its last member goes, a channel that is not persistent goes too. -/
theorem gone_of_emptied (hi : Keyed h) (hf : FreshAddress h.server e)
    (hc : Change e.1 h.server e.2 s') (ha : h.server.channelOf a = some ch)
    (hout : ∀ b, s'.channelOf b ≠ some ch) (hper : ch ∉ h.server.persistent) :
    ch ∉ s'.channels := by
  obtain ⟨env, op⟩ := e
  have hdepart : ∀ {c : ClientInfo} {y : ChannelId} {b : SocketAddr} {s₁ : ServerState},
      Departed h.server b s₁ → h.server.clients.lookup b = some c → c.channel = some y →
        s' = s₁.dropParticipant env y c.udpAddr → ch ∉ s'.channels := by
    rintro c y b s₁ hd hl hy rfl
    have hlast : ∀ x, h.server.channelOf x = some ch → x = b := by
      intro x hx
      by_contra hxb
      refine hout x ?_
      rw [channelOf_dropParticipant]
      exact hd.channelOf_eq_some.2 ⟨hxb, hx⟩
    have hb : h.server.channelOf b = some y := (channelOf_of_lookup hl).trans hy
    obtain rfl : y = ch := Option.some.inj (hb.symm.trans (hlast a ha ▸ ha))
    rw [mem_channels_dropParticipant, hd.channels, ← udpOf_of_lookup hl, hd.destroys]
    rintro ⟨hin, hno⟩
    exact hno ⟨rfl, hi.owned.destroys_of_last hlast hin hper⟩
  cases hc with
  | refused => exact absurd ha (hout a)
  | @registered b =>
    have hab : a ≠ b := by
      rintro rfl
      obtain ⟨c, hl, -⟩ := channelOf_eq_some.1 ha
      exact hf a rfl (Finmap.mem_of_lookup_eq_some hl)
    exact absurd (by rw [channelOf_insert rfl, if_neg hab, ha]) (hout a)
  | rekeyed hl => exact absurd ((channelOf_rekeyed hl).trans ha) (hout a)
  | renamed hl => exact absurd ((channelOf_renamed hl).trans ha) (hout a)
  | @removed b c hl hb =>
    have hab : a ≠ b := by
      rintro rfl
      rw [channelOf_of_lookup hl, hb] at ha
      exact absurd ha (by simp)
    exact absurd ((departed_withoutClient c).channelOf_eq_some.2 ⟨hab, ha⟩) (hout a)
  | hungUp hl hy => exact hdepart (departed_withoutClient _) hl hy rfl
  | left hl hy => exact hdepart (departed_withoutMember _) hl hy rfl
  | created | established | renewed => exact absurd ha (hout a)
  | joined hch hb hfree =>
    refine absurd ?_ (hout a)
    rw [channelOf_joined hb, if_neg ?_, ha]
    rintro rfl
    rw [hfree] at ha
    exact absurd ha (by simp)
  | echoed hid hb hfree =>
    refine absurd ?_ (hout a)
    rw [channelOf_echoed hb, if_neg ?_, ha]
    rintro rfl
    rw [hfree] at ha
    exact absurd ha (by simp)
  | greeted ht hip hl => exact absurd ((channelOf_greeted hl).trans ha) (hout a)
  | swept => exact absurd (channelOf_cleanupWith.trans ha) (hout a)

/-- The first client into a persistent channel is handed a key drawn for it. -/
theorem drawn_of_first (hc : Change env s op s') (hn : keyHanded env s op = some (b, k))
    (hb : s'.channelOf b = some x) (hx : s'.channelKeys.lookup x = some k)
    (hper : x ∈ s.persistent) (hout : ∀ a, s.channelOf a ≠ some x) :
    keyDrawn env s op = some k := by
  cases hc with
  | @joined a ch token hch ha hfree h0 htok hr =>
    have hba : b = a := by simp [keyHanded, hr] at hn; exact hn.1.symm
    rw [channelOf_joined ha, if_pos hba] at hb
    obtain rfl : ch = x := Option.some.inj hb
    have hrot : s.rotatesKey ch = true := by
      simp [rotatesKey, not_occupied_iff.2 hout, hper]
    rw [channelKeys_joined, if_pos hrot, Finmap.lookup_insert] at hx
    simpa [keyDrawn, hr, hrot] using hx
  | echoed hid ha hfree h0 htok hdraw hr =>
    simp only [keyHanded, hr, Option.some.injEq, Prod.mk.injEq] at hn
    simp [keyDrawn, hr, hn.2]
  | @refused op hr =>
    cases op with
    | joinChannel a ch => obtain ⟨e, he⟩ := hr; simp [keyHanded, he] at hn
    | startEchoTest a => obtain ⟨e, he⟩ := hr; simp [keyHanded, he] at hn
    | _ => simp [keyHanded] at hn
  | _ => simp [keyHanded] at hn

/-- Before the gap: the channel has a member, or it has emptied already and what is left
of it is persistent or has a key that is not among the old ones. -/
def StillOld (old : List Bytes) (ch : ChannelId) (h : History) : Prop :=
  (∃ a, h.server.channelOf a = some ch) ∨
    ∀ k, h.server.channelKeys.lookup ch = some k → ch ∈ h.server.persistent ∨ k ∉ old

/-- After the gap: no member holds an old key, and none will, as the channel has a key
that is not old or is about to get one. -/
structure Renewed (old : List Bytes) (ch : ChannelId) (h : History) : Prop where
  members : ∀ b, h.server.channelOf b = some ch → ∃ k, h.heldKey b = some k ∧ k ∉ old
  key : ∀ k, h.server.channelKeys.lookup ch = some k →
    k ∉ old ∨ ch ∈ h.server.persistent ∧ ∀ a, h.server.channelOf a ≠ some ch

/-- Where every draw is fresh, the key a step draws is not an old one. -/
theorem notMem_of_drawn {old : List Bytes} (hsub : old ⊆ h.draws) (hs : h.step e = some h')
    (hfresh : h'.draws.Nodup) (hk : keyDrawn e.1 h.server e.2 = some k) : k ∉ old := by
  obtain ⟨-, hnote⟩ := History.step_change hs
  rw [hnote, History.draws_note, hk] at hfresh
  exact fun hin => (List.nodup_cons.1 hfresh).1 (hsub hin)

theorem StillOld.step {old : List Bytes} (ho : StillOld old ch h) (hi : Keyed h)
    (hsub : old ⊆ h.draws) (hf : FreshAddress h.server e) (hs : h.step e = some h')
    (hfresh : h'.draws.Nodup) : StillOld old ch h' := by
  obtain ⟨hc, -⟩ := History.step_change hs
  by_cases hin : ∃ a, h'.server.channelOf a = some ch
  · exact .inl hin
  have hout : ∀ b, h'.server.channelOf b ≠ some ch := fun b hb => hin ⟨b, hb⟩
  refine .inr fun k hk => ?_
  rcases key_cases hc hk with hdraw | hkey
  · exact .inr (notMem_of_drawn hsub hs hfresh hdraw)
  rcases ho with ⟨a, ha⟩ | ho
  · by_cases hper : ch ∈ h.server.persistent
    · exact .inl (persistent_mono hc hper)
    · have hgone := gone_of_emptied hi hf hc ha hout hper
      exact absurd (((hi.keysMatch.change hc) ch).1 (Finmap.mem_of_lookup_eq_some hk)) hgone
  · exact (ho k hkey).imp_left (persistent_mono hc)

/-- A moment without a member turns one into the other. -/
theorem StillOld.renewed {old : List Bytes} (ho : StillOld old ch h)
    (hout : ∀ a, h.server.channelOf a ≠ some ch) : Renewed old ch h where
  members b hb := absurd hb (hout b)
  key k hk := by
    rcases ho with ⟨a, ha⟩ | ho
    · exact absurd ha (hout a)
    · exact (ho k hk).symm.imp_right fun hper => ⟨hper, hout⟩

theorem Renewed.step {old : List Bytes} (hr : Renewed old ch h) (hi : Keyed h)
    (hsub : old ⊆ h.draws) (hs : h.step e = some h') (hfresh : h'.draws.Nodup) :
    Renewed old ch h' := by
  obtain ⟨hc, hnote⟩ := History.step_change hs
  -- Whoever is handed a key in this step is handed one that is not old.
  have hnew : ∀ b k, keyHanded e.1 h.server e.2 = some (b, k) → h'.server.channelOf b = some ch →
      h'.server.channelKeys.lookup ch = some k → k ∉ old := by
    intro b k hn hb hk
    rcases key_cases hc hk with hdraw | hkey
    · exact notMem_of_drawn hsub hs hfresh hdraw
    · rcases hr.key k hkey with hk' | ⟨hper, hout⟩
      · exact hk'
      · exact notMem_of_drawn hsub hs hfresh (drawn_of_first hc hn hb hk hper hout)
  constructor
  · intro b hb
    rcases member_cases hi.keysMatch hc hb with ⟨k, hn, hkey⟩ | ⟨hb₀, hn⟩
    · exact ⟨k, by rw [hnote]; exact History.heldKey_of_handed hn, hnew b k hn hb hkey⟩
    · obtain ⟨k, hheld, hk⟩ := hr.members b hb₀
      exact ⟨k, by rw [hnote, History.heldKey_of_not_handed hn, hheld], hk⟩
  · intro k hk
    rcases key_cases hc hk with hdraw | hkey
    · exact .inl (notMem_of_drawn hsub hs hfresh hdraw)
    rcases hr.key k hkey with hk' | ⟨hper, hout⟩
    · exact .inl hk'
    by_cases hin : ∃ b, h'.server.channelOf b = some ch
    · obtain ⟨b, hb⟩ := hin
      rcases member_cases hi.keysMatch hc hb with ⟨k', hn, hkey'⟩ | ⟨hb₀, -⟩
      · obtain rfl : k = k' := Option.some.inj (hk.symm.trans hkey')
        exact .inl (hnew b k hn hb hk)
      · exact absurd hb₀ (hout b)
    · exact .inr ⟨persistent_mono hc hper, fun b hb => hin ⟨b, hb⟩⟩

/-! ## Runs -/

theorem draws_sublist_step (hs : h.step e = some h') : h.draws.Sublist h'.draws := by
  obtain ⟨-, hnote⟩ := History.step_change hs
  rw [hnote, History.draws_note]
  exact List.sublist_append_right _ _

/-- A property that a run of fresh draws carries along, beside the old draws. -/
theorem carried_along (old : List Bytes) {P : History → Prop}
    (hstep : ∀ h e h', P h → Keyed h → old ⊆ h.draws → FreshConnections h e →
      h.step e = some h' → h'.draws.Nodup → P h')
    {t : History} {es : List Call} (hi : Keyed h) (hsub : old ⊆ h.draws) (hP : P h)
    (hf : EachStep History.step FreshConnections h es)
    (hrun : runFrom History.step h es = some t) :
    Keyed t ∧ h.draws.Sublist t.draws ∧ (t.draws.Nodup → P t) := by
  refine inv_runFrom (fun t => Keyed t ∧ h.draws.Sublist t.draws ∧ (t.draws.Nodup → P t))
    ?_ ⟨hi, .refl _, fun _ => hP⟩ hf hrun
  rintro t e t' ⟨ht, hle, hPt⟩ hfe hs
  have hle' := draws_sublist_step hs
  refine ⟨ht.step hfe hs, hle.trans hle', fun hfresh => ?_⟩
  have hold : old ⊆ t.draws := List.Subset.trans hsub hle.subset
  exact hstep t e t' (hPt (hfresh.sublist hle')) ht hold hfe hs hfresh

/-- **Forward secrecy of stays.**  Take any run of the server, whose draws of keys are all
different.  If a client is in a channel at one moment, nobody is at a later one, and a
client is again at a later one still, then the two hold keys of different draws. -/
theorem stays_have_different_keys (limits : Limits) (es₁ es₂ es₃ : List Call) (h₁ m h₂ : History)
    (hf : EachStep History.step FreshConnections (.new limits) (es₁ ++ (es₂ ++ es₃)))
    (hrun₁ : runFrom History.step (.new limits) es₁ = some h₁)
    (hrunm : runFrom History.step h₁ es₂ = some m)
    (hrun₂ : runFrom History.step m es₃ = some h₂) (hfresh : h₂.draws.Nodup)
    (ch : ChannelId) (a b : SocketAddr) (ha : h₁.server.channelOf a = some ch)
    (hgap : ∀ c, m.server.channelOf c ≠ some ch) (hb : h₂.server.channelOf b = some ch) :
    ∃ k₁ k₂, h₁.heldKey a = some k₁ ∧ k₁ ∈ h₁.draws ∧
      h₂.heldKey b = some k₂ ∧ k₂ ∈ h₂.draws ∧ k₁ ≠ k₂ := by
  obtain ⟨hf₁, hf₂₃⟩ := eachStep_append hf hrun₁
  obtain ⟨hf₂, hf₃⟩ := eachStep_append hf₂₃ hrunm
  have hi₁ : Keyed h₁ :=
    inv_runFrom Keyed (fun _ _ _ hi hfe hs => hi.step hfe hs) (keyed_new limits) hf₁ hrun₁
  obtain ⟨him, hle, hold⟩ := carried_along h₁.draws (P := StillOld h₁.draws ch)
    (fun _ _ _ ho hi hsub hfe hs hfr => ho.step hi hsub hfe hs hfr) hi₁ (List.Subset.refl _)
    (.inl ⟨a, ha⟩) hf₂ hrunm
  obtain ⟨-, hle', -⟩ := carried_along h₁.draws (P := fun _ => True)
    (fun _ _ _ _ _ _ _ _ _ => trivial) him hle.subset trivial hf₃ hrun₂
  obtain ⟨hi₂, -, hnew⟩ := carried_along h₁.draws (P := Renewed h₁.draws ch)
    (fun _ _ _ hr hi hsub _ hs hfr => hr.step hi hsub hs hfr) him hle.subset
    ((hold (hfresh.sublist hle')).renewed hgap) hf₃ hrun₂
  obtain ⟨k₁, hk₁, hd₁⟩ := hi₁.held a ch ha
  obtain ⟨k₂, hk₂, hd₂⟩ := (hnew hfresh).members b hb
  obtain ⟨k, hk, hd⟩ := hi₂.held b ch hb
  obtain rfl : k₂ = k := Option.some.inj (hk₂.symm.trans hk)
  refine ⟨k₁, k₂, hk₁, hd₁, hk₂, hd, ?_⟩
  rintro rfl
  exact hd₂ hd₁

/-- A stay of one client in a lobby, an empty lobby, and a stay of another. -/
theorem stays_have_different_keys_lobby : ∃ h₁ h₂ : History, ∃ k₁ k₂,
    h₁.heldKey (.v4 1 1) = some k₁ ∧ h₂.heldKey (.v4 2 2) = some k₂ ∧ k₁ ≠ k₂ := by
  let es₁ : List Call := [(.sample 7 1, .createPersistentChannel "lobby"),
    (.sample 7 1, .registerClient (.v4 1 1)), (.sample 7 1, .registerClient (.v4 2 2)),
    (.sample 8 1, .joinChannel (.v4 1 1) "pub-lobby")]
  let es₂ : List Call := [(.sample 8 1, .leaveChannel (.v4 1 1))]
  let es₃ : List Call := [(.sample 9 2, .joinChannel (.v4 2 2) "pub-lobby")]
  obtain ⟨k₁, k₂, hk₁, -, hk₂, -, hne⟩ :=
    stays_have_different_keys ⟨0, 0⟩ es₁ es₂ es₃ _ _ _ (by decide) rfl rfl rfl (by decide)
      "pub-lobby" (.v4 1 1) (.v4 2 2) (by decide) (not_occupied_iff.1 (by decide)) (by decide)
  exact ⟨_, _, k₁, k₂, hk₁, hk₂, hne⟩

end Server
end TcVoice
