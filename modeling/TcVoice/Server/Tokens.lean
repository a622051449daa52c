import TcVoice.Server.Registry

/-!
# UDP hello tokens

A join hands the client a token, and a UDP hello that shows it is taken for a
hello of that client in that channel.  This file is about whose tokens there
are at any moment.

* `tokenFor` — the client and channel a token stands for.
* `TokensMatch` — the tokens are exactly one for each member, and nobody else's.
* `TokensMatch.change` — every step keeps it, provided the listener does not
  hand out the address of an open connection.
* `reachable_tokens` — **each member owns exactly one token, and no sweep ever
  takes it away**.
-/

namespace TcVoice
namespace Server

open Runs Table ServerState

variable {env : Env} {s s' : ServerState} {op : Op} {a : SocketAddr} {ch : ChannelId}

/-! ## Whose token it is -/

/-- The client and the channel a token stands for. -/
def ServerState.tokenFor (s : ServerState) (t : UInt64) : Option (SocketAddr × ChannelId) :=
  (s.udpTokens.lookup t).map fun o => (o.1, o.2.1)

theorem tokenFor_eq_some {t : UInt64} : s.tokenFor t = some (a, ch) ↔
    ∃ created, s.udpTokens.lookup t = some (a, ch, created) := by
  simp only [tokenFor, Option.map_eq_some_iff, Prod.mk.injEq]
  constructor
  · rintro ⟨⟨_, _, created⟩, hl, rfl, rfl⟩
    exact ⟨created, hl⟩
  · rintro ⟨created, hl⟩
    exact ⟨(a, ch, created), hl, rfl, rfl⟩

theorem tokenFor_of_notMem {t : UInt64} (h : t ∉ s.udpTokens) : s.tokenFor t = none := by
  rw [tokenFor, (notMem_iff_lookup _ _).1 h, Option.map_none]

theorem tokenFor_congr {t : UInt64} (h : s'.udpTokens = s.udpTokens) :
    s'.tokenFor t = s.tokenFor t := by
  rw [tokenFor, h, tokenFor]

theorem tokenFor_insert {t x : UInt64} {created : ℕ}
    (h : s'.udpTokens = s.udpTokens.insert t (a, ch, created)) :
    s'.tokenFor x = if x = t then some (a, ch) else s.tokenFor x := by
  rw [tokenFor, h, lookup_insert_if, tokenFor]
  split <;> rfl

/-- Renewing a token's age leaves it the same client's. -/
theorem tokenFor_renewed {t x : UInt64}
    (h : s'.udpTokens = s.udpTokens.modify t fun o => (o.1, o.2.1, env.now)) :
    s'.tokenFor x = s.tokenFor x := by
  rw [tokenFor, h, lookup_modify, tokenFor]
  split
  · rename_i hx
    rw [hx]
    cases s.udpTokens.lookup t <;> rfl
  · rfl

theorem ServerState.Departed.tokenFor_eq_some {s₁ : ServerState} {b : SocketAddr} {t : UInt64}
    (h : Departed s a s₁) :
    s₁.tokenFor t = some (b, ch) ↔ s.tokenFor t = some (b, ch) ∧ b ≠ a := by
  simp only [Server.tokenFor_eq_some, h.udpTokens, lookup_tokensWithout, exists_and_right]

/-! ## One token for each member -/

/-- Every token is that of a member in its channel, every member has one, and no
member has two. -/
structure TokensMatch (s : ServerState) : Prop where
  nonzero : ∀ t, s.tokenFor t ≠ none → t ≠ 0
  honest : ∀ t a ch, s.tokenFor t = some (a, ch) → s.channelOf a = some ch
  unique : ∀ t t' a ch, s.tokenFor t = some (a, ch) → s.tokenFor t' = some (a, ch) → t = t'
  owned : ∀ a ch, s.channelOf a = some ch → ∃ t, s.tokenFor t = some (a, ch)

theorem tokensMatch_new (limits : Limits) : TokensMatch (.new limits) where
  nonzero _ h := absurd rfl h
  honest t a ch h := by simp [tokenFor, ServerState.new] at h
  unique t t' a ch h := by simp [tokenFor, ServerState.new] at h
  owned a ch h := by simp [channelOf, ServerState.new] at h

namespace TokensMatch

/-- The property only looks at whose tokens there are and who is in which channel. -/
theorem congr (hm : TokensMatch s) (htok : ∀ t, s'.tokenFor t = s.tokenFor t)
    (hof : ∀ a, s'.channelOf a = s.channelOf a) : TokensMatch s' where
  nonzero t h := hm.nonzero t (by rwa [← htok])
  honest t a ch h := by rw [hof]; exact hm.honest t a ch (by rwa [← htok])
  unique t t' a ch h h' := hm.unique t t' a ch (by rwa [← htok]) (by rwa [← htok])
  owned a ch h := by
    obtain ⟨t, ht⟩ := hm.owned a ch (by rwa [← hof])
    exact ⟨t, (htok t).trans ht⟩

/-- A leaver takes its token with it. -/
theorem depart {s₁ : ServerState} (hm : TokensMatch s) (hd : Departed s a s₁) :
    TokensMatch s₁ where
  nonzero t h := by
    obtain ⟨⟨b, ch⟩, ht⟩ := Option.ne_none_iff_exists'.1 h
    exact hm.nonzero t (by rw [(hd.tokenFor_eq_some.1 ht).1]; simp)
  honest t b ch h := by
    obtain ⟨ht, hb⟩ := hd.tokenFor_eq_some.1 h
    exact hd.channelOf_eq_some.2 ⟨hb, hm.honest t b ch ht⟩
  unique t t' b ch h h' :=
    hm.unique t t' b ch (hd.tokenFor_eq_some.1 h).1 (hd.tokenFor_eq_some.1 h').1
  owned b ch h := by
    obtain ⟨hb, hof⟩ := hd.channelOf_eq_some.1 h
    obtain ⟨t, ht⟩ := hm.owned b ch hof
    exact ⟨t, hd.tokenFor_eq_some.2 ⟨ht, hb⟩⟩

/-- A client that was in no channel joins one with a token nobody had. -/
theorem issue {t : UInt64} (hm : TokensMatch s) (hout : s.channelOf a = none) (h0 : t ≠ 0)
    (ht : t ∉ s.udpTokens)
    (htok : ∀ x, s'.tokenFor x = if x = t then some (a, ch) else s.tokenFor x)
    (hof : ∀ b, s'.channelOf b = if b = a then some ch else s.channelOf b) : TokensMatch s' := by
  -- Before the join no token was the client's, and `t` was no token at all.
  have hnone : ∀ x c, s.tokenFor x ≠ some (a, c) := by
    intro x c hx
    rw [hm.honest x a c hx] at hout
    exact absurd hout (by simp)
  refine ⟨fun x hx => ?_, fun x b c hx => ?_,
    fun x x' b c hx hx' => ?_, fun b c hb => ?_⟩
  · rw [htok] at hx
    split at hx
    · rename_i he
      rwa [he]
    · exact hm.nonzero x hx
  · rw [htok] at hx
    rw [hof]
    split at hx
    · cases hx
      rw [if_pos rfl]
    · have hb : b ≠ a := by
        rintro rfl
        exact hnone x c hx
      rw [if_neg hb]
      exact hm.honest x b c hx
  · rw [htok] at hx hx'
    split at hx <;> split at hx'
    · rename_i he he'
      rw [he, he']
    · cases hx
      exact absurd hx' (hnone x' _)
    · cases hx'
      exact absurd hx (hnone x _)
    · exact hm.unique x x' b c hx hx'
  · rw [hof] at hb
    split at hb
    · rename_i he
      cases hb
      exact ⟨t, by rw [htok, if_pos rfl, he]⟩
    · obtain ⟨x, hx⟩ := hm.owned b c hb
      have hxt : x ≠ t := by
        rintro rfl
        rw [tokenFor_of_notMem ht] at hx
        exact absurd hx (by simp)
      exact ⟨x, by rw [htok, if_neg hxt, hx]⟩

end TokensMatch

/-- A sweep keeps the token of every client that is still in the token's channel. -/
theorem lookup_udpTokens_cleanupWith_of_live {grace ttl : ℕ} {t : UInt64} {created : ℕ}
    (ht : s.udpTokens.lookup t = some (a, ch, created)) (ha : s.channelOf a = some ch) :
    (s.cleanupWith env grace ttl).2.udpTokens.lookup t = some (a, ch, created) :=
  lookup_udpTokens_cleanupWith.2 ⟨ht, fun hin => (of_mem_cleanupWith hin).2.1 a ha, .inl ha⟩

/-- Where all tokens are those of members, a sweep changes none of them. -/
theorem TokensMatch.tokenFor_cleanupWith {grace ttl : ℕ} (hm : TokensMatch s) (t : UInt64) :
    (s.cleanupWith env grace ttl).2.tokenFor t = s.tokenFor t := by
  cases ht : s.udpTokens.lookup t with
  | none =>
    have hnone : (s.cleanupWith env grace ttl).2.udpTokens.lookup t = none := by
      rw [Option.eq_none_iff_forall_ne_some]
      intro o ho
      rw [(lookup_udpTokens_cleanupWith.1 ho).1] at ht
      exact absurd ht (by simp)
    rw [tokenFor, tokenFor, ht, hnone]
  | some o =>
    obtain ⟨b, c, created⟩ := o
    have hof : s.channelOf b = some c := hm.honest t b c (tokenFor_eq_some.2 ⟨created, ht⟩)
    rw [tokenFor, tokenFor, ht, lookup_udpTokens_cleanupWith_of_live ht hof]

/-- **One step.**  Every change keeps the tokens matched to the members. -/
theorem TokensMatch.change (hm : TokensMatch s) (hf : FreshAddress s (env, op))
    (hc : Change env s op s') : TokensMatch s' := by
  cases hc with
  | refused => exact hm
  | @registered a =>
    refine hm.congr (fun t => rfl) fun b => ?_
    rw [channelOf_insert rfl]
    split
    · rename_i hb
      rw [hb, channelOf, (notMem_iff_lookup _ _).1 (hf a rfl)]
      rfl
    · rfl
  | rekeyed hl => exact hm.congr (fun t => rfl) fun b => channelOf_rekeyed hl
  | renamed hl => exact hm.congr (fun t => rfl) fun b => channelOf_renamed hl
  | removed => exact hm.depart (departed_withoutClient _)
  | hungUp =>
    exact (hm.depart (departed_withoutClient _)).congr
      (fun t => tokenFor_congr udpTokens_dropParticipant) fun b => channelOf_dropParticipant
  | left =>
    exact (hm.depart (departed_withoutMember _)).congr
      (fun t => tokenFor_congr udpTokens_dropParticipant) fun b => channelOf_dropParticipant
  | created | established => exact hm.congr (fun t => rfl) fun b => rfl
  | joined hch ha hout h0 htok =>
    exact hm.issue hout h0 htok (fun x => tokenFor_insert udpTokens_joined) fun b =>
      channelOf_joined ha
  | echoed hid ha hout h0 htok =>
    exact hm.issue hout h0 htok (fun x => tokenFor_insert rfl) fun b => channelOf_echoed ha
  | renewed => exact hm.congr (fun t => tokenFor_renewed rfl) fun b => rfl
  | greeted ht hip hl =>
    exact hm.congr (fun t => tokenFor_renewed rfl) fun b => channelOf_greeted hl
  | swept => exact hm.congr hm.tokenFor_cleanupWith fun b => channelOf_cleanupWith

theorem TokensMatch.step {e : Call} (hm : TokensMatch s) (hf : FreshAddress s e)
    (h : step s e = some s') : TokensMatch s' :=
  hm.change hf (exec_change h)

/-- **The life of a token.**  In every state a run of the server reaches, each client in
a channel owns exactly one token; it is not zero and stands for that client in that
channel; a token that names a registered client names the channel it is in; and a sweep,
at any clock reading and with any grace period and TTL, takes no member's token away. -/
theorem reachable_tokens (limits : Limits) (s : ServerState)
    (h : Reachable step FreshAddress (.new limits) s) :
    (∀ a ch, s.channelOf a = some ch → ∃ t, t ≠ 0 ∧ s.tokenFor t = some (a, ch) ∧
        ∀ t' ch', s.tokenFor t' = some (a, ch') → t' = t) ∧
      (∀ t a ch, a ∈ s.clients → s.tokenFor t = some (a, ch) → s.channelOf a = some ch) ∧
      ∀ env grace ttl t a ch created, s.udpTokens.lookup t = some (a, ch, created) →
        s.channelOf a = some ch →
          (s.cleanupWith env grace ttl).2.udpTokens.lookup t = some (a, ch, created) := by
  have hm : TokensMatch s :=
    h.induct TokensMatch (tokensMatch_new limits) fun _ _ _ hm hf hs => hm.step hf hs
  refine ⟨fun a ch ha => ?_, fun t a ch _ ht => hm.honest t a ch ht,
    fun env grace ttl t a ch created => lookup_udpTokens_cleanupWith_of_live⟩
  obtain ⟨t, ht⟩ := hm.owned a ch ha
  refine ⟨t, hm.nonzero t (by simp [ht]), ht, fun t' ch' ht' => ?_⟩
  have hch : ch' = ch := Option.some.inj ((hm.honest t' a ch' ht').symm.trans ha)
  exact hm.unique t' t a ch (hch ▸ ht') ht

/-- The one member of a channel holds the token drawn for it, token 5. -/
theorem reachable_tokens_joined : ∃ s : ServerState, s.channelOf (.v4 1 1) = some "pub-x" ∧
    ∃ t, t ≠ 0 ∧ s.tokenFor t = some (.v4 1 1, "pub-x") ∧
      ∀ t' ch', s.tokenFor t' = some (.v4 1 1, ch') → t' = t := by
  let es : List Call := [(.sample 7 1, .registerClient (.v4 1 1)),
    (.sample 7 1, .createChannel (some "x")), (.sample 7 5, .joinChannel (.v4 1 1) "pub-x")]
  obtain ⟨s, hrun, hin⟩ : ∃ s, runFrom step (.new ⟨0, 0⟩) es = some s ∧
      s.channelOf (.v4 1 1) = some "pub-x" := ⟨_, rfl, by decide⟩
  have hreach : Reachable step FreshAddress (.new ⟨0, 0⟩) s := ⟨es, by decide, hrun⟩
  exact ⟨s, hin, (reachable_tokens ⟨0, 0⟩ s hreach).1 _ _ hin⟩

end Server
end TcVoice
