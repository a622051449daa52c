import TcVoice.Server.History

/-!
# The identity-key index

Direct messages are routed by identity key, through an index that holds one
address for each key, while several connections may have bound the same key.

* `IndexSound` — whoever the index names is online with that key, in every run.
* `RoutesRight` — and the connection that bound a key last, while it keeps the
  key, is the one the index names.
* `LeavesOthersBound` — the steps that drop no index entry of another connection.
* `routesRight_iff` — **a run routes right exactly when each of its steps leaves
  the others bound**, with `route_lost_to_old_connection` for one that does not.
-/

namespace TcVoice
namespace Server

open Runs Table ServerState

variable {env : Env} {s s' : ServerState} {op : Op} {h h' : History} {e : Call}
  {a b : SocketAddr} {pk o : Bytes}

/-! ## Identity keys of the connections -/

/-- The identity key of a connected client. -/
def ServerState.pubkeyOf (s : ServerState) (a : SocketAddr) : Option Bytes :=
  (s.clients.lookup a).bind ClientInfo.pubkey

theorem pubkeyOf_of_lookup {c : ClientInfo} (hl : s.clients.lookup a = some c) :
    s.pubkeyOf a = c.pubkey := by
  simp [pubkeyOf, hl]

theorem pubkeyOf_of_notMem (hn : a ∉ s.clients) : s.pubkeyOf a = none := by
  simp [pubkeyOf, (notMem_iff_lookup _ _).1 hn]

theorem pubkeyOf_insert {c : ClientInfo} (hs : s'.clients = s.clients.insert a c) :
    s'.pubkeyOf b = if b = a then c.pubkey else s.pubkeyOf b := by
  rw [pubkeyOf, hs, lookup_insert_if]
  split <;> rfl

theorem pubkeyOf_congr (hs : s'.clients = s.clients) : s'.pubkeyOf b = s.pubkeyOf b := by
  rw [pubkeyOf, hs, pubkeyOf]

/-- An update that keeps a client's key keeps everybody's. -/
theorem pubkeyOf_insert_same {c d : ClientInfo} (hl : s.clients.lookup a = some c)
    (hs : s'.clients = s.clients.insert a d) (hc : d.pubkey = c.pubkey) :
    s'.pubkeyOf b = s.pubkeyOf b := by
  rw [pubkeyOf_insert hs]
  split
  · rename_i hb
    rw [hb, pubkeyOf_of_lookup hl, hc]
  · rfl

theorem lookup_unbindKey {index : Table Bytes SocketAddr} {key : Option Bytes} {q : Bytes} :
    (unbindKey index key).lookup q = if key = some q then none else index.lookup q := by
  cases key with
  | none => rfl
  | some pk =>
    rw [unbindKey, lookup_erase_if]
    simp only [Option.some.injEq, eq_comm]

/-- What a step does to the identity keys: nothing, or one connection starts without a
key, binds one, or goes. -/
inductive KeyChange (s s' : ServerState) : Op → Prop
  | same {op : Op} (hindex : s'.pubkeyIndex = s.pubkeyIndex)
      (hkeys : ∀ b, s'.pubkeyOf b = s.pubkeyOf b)
      (hset : ∀ a pk, op = .setPubkey a pk → a ∉ s.clients)
      (hgone : ∀ a, op = .removeClient a → a ∉ s.clients) : KeyChange s s' op
  | bound {a : SocketAddr} {pk : Bytes} (ha : a ∈ s.clients)
      (hindex : ∀ q, s'.pubkeyIndex.lookup q = if q = pk then some a
        else if s.pubkeyOf a = some q then none else s.pubkeyIndex.lookup q)
      (hkeys : ∀ b, s'.pubkeyOf b = if b = a then some pk else s.pubkeyOf b) :
      KeyChange s s' (.setPubkey a pk)
  | gone {a : SocketAddr} (ha : a ∈ s.clients)
      (hindex : ∀ q, s'.pubkeyIndex.lookup q =
        if s.pubkeyOf a = some q then none else s.pubkeyIndex.lookup q)
      (hkeys : ∀ b, s'.pubkeyOf b = if b = a then none else s.pubkeyOf b) :
      KeyChange s s' (.removeClient a)

theorem keyChange_rekeyed {c : ClientInfo} (hl : s.clients.lookup a = some c) :
    KeyChange s (s.rekeyed a c pk) (.setPubkey a pk) := by
  refine .bound (Finmap.mem_of_lookup_eq_some hl) (fun q => ?_)
    fun b => pubkeyOf_insert (c := { c with pubkey := some pk }) rfl
  rw [pubkeyOf_of_lookup hl, rekeyed, lookup_insert_if]
  by_cases hq : q = pk
  · rw [if_pos hq, if_pos hq]
  · rw [if_neg hq, if_neg hq]
    by_cases hc : c.pubkey = some pk
    · rw [if_neg (by simpa using hc), hc, if_neg]
      exact fun he => hq (Option.some.inj he).symm
    · rw [if_pos hc, lookup_unbindKey]

theorem keyChange_withoutClient {c : ClientInfo} (hl : s.clients.lookup a = some c)
    (hs : s'.clients = (s.withoutClient a c).clients)
    (hi : s'.pubkeyIndex = (s.withoutClient a c).pubkeyIndex) :
    KeyChange s s' (.removeClient a) := by
  refine .gone (Finmap.mem_of_lookup_eq_some hl) (fun q => ?_) fun b => ?_
  · rw [hi, pubkeyOf_of_lookup hl]
    exact lookup_unbindKey
  · rw [pubkeyOf_congr hs, pubkeyOf, withoutClient, lookup_erase_if]
    split <;> rfl

theorem keyChange_of_change (hf : FreshAddress s (env, op)) (hc : Change env s op s') :
    KeyChange s s' op := by
  cases hc with
  | refused hr =>
    refine .same rfl (fun _ => rfl) ?_ ?_
    · rintro a pk rfl
      exact hr
    · rintro a rfl
      exact hr
  | @registered a =>
    refine .same rfl (fun b => ?_) (by simp) (by simp)
    rw [pubkeyOf_insert rfl]
    split
    · rename_i hb
      rw [hb, pubkeyOf_of_notMem (hf a rfl)]
    · rfl
  | rekeyed hl => exact keyChange_rekeyed hl
  | @renamed a name c hl =>
    exact .same rfl (fun b => pubkeyOf_insert_same (d := { c with name := name }) hl rfl rfl)
      (by simp) (by simp)
  | removed hl => exact keyChange_withoutClient hl rfl rfl
  | hungUp hl =>
    exact keyChange_withoutClient hl clients_dropParticipant pubkeyIndex_dropParticipant
  | created | established | renewed => exact .same rfl (fun _ => rfl) (by simp) (by simp)
  | joined hch ha =>
    obtain ⟨c, hl⟩ := (mem_iff_lookup _ _).1 ha
    exact .same pubkeyIndex_joined (fun b => pubkeyOf_insert_same hl (clients_joined hl) rfl)
      (by simp) (by simp)
  | echoed hid ha =>
    obtain ⟨c, hl⟩ := (mem_iff_lookup _ _).1 ha
    exact .same rfl (fun b => pubkeyOf_insert_same hl (clients_echoed hl) rfl) (by simp) (by simp)
  | @left a c ch hl =>
    refine .same pubkeyIndex_dropParticipant (fun b => ?_) (by simp) (by simp)
    rw [pubkeyOf_congr clients_dropParticipant]
    exact pubkeyOf_insert_same (d := { c with channel := none, udpAddr := none }) hl rfl rfl
  | @greeted token udp tcp ch created c ht hip hl =>
    exact .same rfl
      (fun b => pubkeyOf_insert_same (d := { c with udpAddr := some udp }) hl rfl rfl)
      (by simp) (by simp)
  | swept =>
    exact .same cleanupWith_pubkeyIndex (fun b => pubkeyOf_congr cleanupWith_clients)
      (by simp) (by simp)

/-! ## The index is sound in every run -/

/-- Whoever the index names is online, with that identity key. -/
def IndexSound (s : ServerState) : Prop :=
  ∀ pk a, s.lookupPubkey pk = some a → s.pubkeyOf a = some pk

theorem IndexSound.keyChange (hi : IndexSound s) (hc : KeyChange s s' op) : IndexSound s' := by
  intro q b hq
  rw [lookupPubkey] at hq
  cases hc with
  | same hindex hkeys =>
    rw [hkeys]
    exact hi q b (by rwa [lookupPubkey, ← hindex])
  | @bound a pk ha hindex hkeys =>
    rw [hindex] at hq
    rw [hkeys]
    split at hq
    · rename_i hqp
      rw [if_pos (Option.some.inj hq).symm, hqp]
    · split at hq
      · exact absurd hq (by simp)
      · rename_i hne
        have hb := hi q b hq
        rw [if_neg ?_, hb]
        rintro rfl
        exact hne hb
  | @gone a ha hindex hkeys =>
    rw [hindex] at hq
    rw [hkeys]
    split at hq
    · exact absurd hq (by simp)
    · rename_i hne
      have hb := hi q b hq
      rw [if_neg ?_, hb]
      rintro rfl
      exact hne hb

/-! ## The last binder's entry -/

/-- The index sends a key's messages to the connection that bound the key last, as long
as it is online and has not bound another since; and whoever it sends them to is online
with that key. -/
structure RoutesRight (h : History) : Prop where
  lastWriter : ∀ pk a, h.lastBinder pk = some a → h.server.pubkeyOf a = some pk →
    h.server.lookupPubkey pk = some a
  sound : ∀ pk a, h.server.lookupPubkey pk = some a → h.server.pubkeyOf a = some pk

/-- A connection that gives up an identity key, by binding another or by disconnecting,
does not find another connection's entry under it in the index. -/
def LeavesOthersBound (s : ServerState) (e : Call) : Prop :=
  ∀ a o, s.pubkeyOf a = some o →
    (e.2 = .removeClient a ∨ ∃ pk, e.2 = .setPubkey a pk ∧ pk ≠ o) →
      ∀ b, s.lookupPubkey o = some b → b = a

/-- What the argument needs of every state on the way. -/
structure IndexInv (h : History) : Prop where
  sound : IndexSound h.server
  /-- The index only ever holds the last binder of a key. -/
  latest : ∀ pk a, h.server.lookupPubkey pk = some a → h.lastBinder pk = some a

theorem lastBinder_bound (ha : a ∈ h.server.clients) (he : e.2 = .setPubkey a pk) (q : Bytes) :
    (h.note e s').lastBinder q = if q = pk then some a else h.lastBinder q := by
  have hb : keyBound h.server e.2 = some (pk, a) := by simp [keyBound, he, ha]
  rw [History.note, hb]
  by_cases hq : q = pk
  · rw [if_pos hq, hq]
    exact remember_of_eq ..
  · rw [if_neg hq]
    exact remember_of_ne fun y hy => hq (Prod.mk.inj (Option.some.inj hy)).1.symm

theorem lastBinder_same (hset : ∀ a pk, e.2 = .setPubkey a pk → a ∉ h.server.clients) :
    (h.note e s').lastBinder = h.lastBinder := by
  have hb : keyBound h.server e.2 = none := by
    cases he : e.2 with
    | setPubkey a pk => simp [keyBound, hset a pk he]
    | _ => rfl
  rw [History.note, hb]
  rfl

theorem IndexInv.step (hi : IndexInv h) (hf : FreshAddress h.server e) (hs : h.step e = some h') :
    IndexInv h' := by
  obtain ⟨hc, hnote⟩ := History.step_change hs
  have hkc := keyChange_of_change hf hc
  refine ⟨hi.sound.keyChange hkc, fun q b hq => ?_⟩
  rw [lookupPubkey] at hq
  rw [hnote]
  generalize hop : e.2 = op at hkc
  cases hkc with
  | same hindex hkeys hset =>
    rw [lastBinder_same (hop ▸ hset)]
    exact hi.latest q b (by rwa [lookupPubkey, ← hindex])
  | @bound a pk ha hindex =>
    rw [lastBinder_bound ha hop]
    rw [hindex] at hq
    split at hq
    · rename_i hqp
      rw [if_pos hqp, hq]
    · rename_i hqp
      rw [if_neg hqp]
      split at hq
      · exact absurd hq (by simp)
      · exact hi.latest q b hq
  | gone ha hindex =>
    rw [lastBinder_same (by simp [hop])]
    rw [hindex] at hq
    split at hq
    · exact absurd hq (by simp)
    · exact hi.latest q b hq

/-- A step that changes no key routes right and takes nobody's entry away. -/
theorem routesRight_same (hi' : IndexInv h') (hr : RoutesRight h)
    (hlast : h'.lastBinder = h.lastBinder)
    (hindex : h'.server.pubkeyIndex = h.server.pubkeyIndex)
    (hkeys : ∀ b, h'.server.pubkeyOf b = h.server.pubkeyOf b)
    (hset : ∀ a pk, e.2 = .setPubkey a pk → a ∉ h.server.clients)
    (hgone : ∀ a, e.2 = .removeClient a → a ∉ h.server.clients) :
    RoutesRight h' ∧ LeavesOthersBound h.server e := by
  refine ⟨⟨fun q b hq hb => ?_, hi'.sound⟩, fun a o ha hgive => ?_⟩
  · rw [hlast] at hq
    rw [hkeys] at hb
    rw [lookupPubkey, hindex]
    exact hr.lastWriter q b hq hb
  · have hin : a ∈ h.server.clients := by
      by_contra hn
      rw [pubkeyOf_of_notMem hn] at ha
      exact absurd ha (by simp)
    rcases hgive with hg | ⟨pk, hg, -⟩
    · exact absurd hin (hgone a hg)
    · exact absurd hin (hset a pk hg)

section Changes

variable {a : SocketAddr} {pk : Bytes}

theorem routesRight_bound (hi : IndexInv h) (hi' : IndexInv h') (hr : RoutesRight h)
    (hop : e.2 = .setPubkey a pk)
    (hlast : ∀ q, h'.lastBinder q = if q = pk then some a else h.lastBinder q)
    (hindex : ∀ q, h'.server.pubkeyIndex.lookup q = if q = pk then some a
      else if h.server.pubkeyOf a = some q then none else h.server.pubkeyIndex.lookup q)
    (hkeys : ∀ b, h'.server.pubkeyOf b = if b = a then some pk else h.server.pubkeyOf b) :
    RoutesRight h' ↔ LeavesOthersBound h.server e := by
  constructor
  · intro hr' c o hco hgive b hb
    rcases hgive with hg | ⟨pk', hg, hne⟩
    · rw [hop] at hg
      exact absurd hg (by simp)
    obtain ⟨rfl, rfl⟩ : a = c ∧ pk = pk' := by
      rw [hop] at hg
      simpa using hg
    -- Had the entry been another's, that one would still be its last binder, unrouted.
    by_contra hba
    have hrouted := hr'.lastWriter o b (by rw [hlast, if_neg (Ne.symm hne), hi.latest o b hb])
      (by rw [hkeys, if_neg hba, hi.sound o b hb])
    rw [lookupPubkey, hindex, if_neg (Ne.symm hne), if_pos hco] at hrouted
    exact absurd hrouted (by simp)
  · intro hleave
    refine ⟨fun q b hq hb => ?_, hi'.sound⟩
    rw [hlast] at hq
    rw [hkeys] at hb
    rw [lookupPubkey, hindex]
    split at hq
    · rename_i hqp
      rw [if_pos hqp, hq]
    · rename_i hqp
      have hba : b ≠ a := by
        rintro rfl
        rw [if_pos rfl] at hb
        exact hqp (Option.some.inj hb).symm
      rw [if_neg hba] at hb
      have hroute := hr.lastWriter q b hq hb
      rw [if_neg hqp, if_neg ?_]
      · exact hroute
      · exact fun hco => hba (hleave a q hco (.inr ⟨pk, hop, Ne.symm hqp⟩) b hroute)

theorem routesRight_gone (hi : IndexInv h) (hi' : IndexInv h') (hr : RoutesRight h)
    (hop : e.2 = .removeClient a) (hlast : h'.lastBinder = h.lastBinder)
    (hindex : ∀ q, h'.server.pubkeyIndex.lookup q =
      if h.server.pubkeyOf a = some q then none else h.server.pubkeyIndex.lookup q)
    (hkeys : ∀ b, h'.server.pubkeyOf b = if b = a then none else h.server.pubkeyOf b) :
    RoutesRight h' ↔ LeavesOthersBound h.server e := by
  constructor
  · intro hr' c o hco hgive b hb
    rcases hgive with hg | ⟨pk', hg, -⟩
    · obtain rfl : a = c := by
        rw [hop] at hg
        simpa using hg
      by_contra hba
      have hrouted := hr'.lastWriter o b (by rw [hlast, hi.latest o b hb])
        (by rw [hkeys, if_neg hba, hi.sound o b hb])
      rw [lookupPubkey, hindex, if_pos hco] at hrouted
      exact absurd hrouted (by simp)
    · rw [hop] at hg
      exact absurd hg (by simp)
  · intro hleave
    refine ⟨fun q b hq hb => ?_, hi'.sound⟩
    rw [hlast] at hq
    rw [hkeys] at hb
    have hba : b ≠ a := by
      rintro rfl
      rw [if_pos rfl] at hb
      exact absurd hb (by simp)
    rw [if_neg hba] at hb
    have hroute := hr.lastWriter q b hq hb
    rw [lookupPubkey, hindex, if_neg ?_]
    · exact hroute
    · exact fun hco => hba (hleave a q hco (.inl hop) b hroute)

end Changes

/-- **One step.**  From a state that routes right, a step leads to such a state exactly
when it leaves the other connections bound. -/
theorem routesRight_step (hi : IndexInv h) (hr : RoutesRight h) (hf : FreshAddress h.server e)
    (hs : h.step e = some h') : RoutesRight h' ↔ LeavesOthersBound h.server e := by
  have hi' := hi.step hf hs
  obtain ⟨hc, hnote⟩ := History.step_change hs
  have hkc := keyChange_of_change hf hc
  generalize hop : e.2 = op at hkc
  cases hkc with
  | same hindex hkeys hset hgone =>
    have hlast : h'.lastBinder = h.lastBinder := by
      rw [hnote]
      exact lastBinder_same (hop ▸ hset)
    obtain ⟨hr', hleaves⟩ :=
      routesRight_same hi' hr hlast hindex hkeys (hop ▸ hset) (hop ▸ hgone)
    exact iff_of_true hr' hleaves
  | @bound a pk ha hindex hkeys =>
    refine routesRight_bound hi hi' hr hop (fun q => ?_) hindex hkeys
    rw [hnote]
    exact lastBinder_bound ha hop q
  | @gone a ha hindex hkeys =>
    refine routesRight_gone hi hi' hr hop ?_ hindex hkeys
    rw [hnote]
    exact lastBinder_same (by simp [hop])

/-! ## Runs -/

theorem indexInv_new (limits : Limits) : IndexInv (.new limits) where
  sound pk a hl := by simp [lookupPubkey, History.new, ServerState.new] at hl
  latest pk a hl := by simp [lookupPubkey, History.new, ServerState.new] at hl

theorem routesRight_new (limits : Limits) : RoutesRight (.new limits) where
  lastWriter pk a hl := absurd hl (by simp [History.new])
  sound := (indexInv_new limits).sound

/-- **When direct messages are routed right.**  In every run of the server, the index
names the last binder of each key, while that one keeps it, and only connections that
have the key, throughout if and only if at each step of the run a connection that gives
up a key, by binding another or by disconnecting, does not find another connection's
entry under it. -/
theorem routesRight_iff (limits : Limits) (es : List Call)
    (hf : EachStep History.step FreshConnections (.new limits) es) :
    Throughout History.step RoutesRight (.new limits) es ↔
      EachStep History.step (fun h e => LeavesOthersBound h.server e) (.new limits) es :=
  throughout_iff_eachStep IndexInv (fun _ _ _ hi hf hs => hi.step hf hs)
    (fun _ _ _ hi hr hf hs => routesRight_step hi hr hf hs)
    (indexInv_new limits) (routesRight_new limits) hf

/-- A client reconnects with its identity key before its old connection has timed out. -/
def reconnectRun : List Call :=
  [(.sample 7 1, .registerClient (.v4 1 1)), (.sample 7 1, .setPubkey (.v4 1 1) [42]),
    (.sample 7 1, .registerClient (.v4 1 2)), (.sample 7 1, .setPubkey (.v4 1 2) [42]),
    (.sample 7 1, .removeClient (.v4 1 1))]

/-- Each connection in that run had an address of its own. -/
theorem routesRight_iff_reconnectRun :
    Throughout History.step RoutesRight (.new ⟨0, 0⟩) reconnectRun ↔
      EachStep History.step (fun h e => LeavesOthersBound h.server e) (.new ⟨0, 0⟩) reconnectRun :=
  routesRight_iff ⟨0, 0⟩ reconnectRun (by decide)

/-- Once the old connection is gone, messages to the key find nobody, though the new
connection is online and bound it last. -/
theorem route_lost_to_old_connection :
    ∃ h, runFrom History.step (.new ⟨0, 0⟩) reconnectRun = some h ∧ ¬ RoutesRight h := by
  refine ⟨_, rfl, fun hr => ?_⟩
  exact absurd (hr.lastWriter [42] (.v4 1 2) (by decide) (by decide)) (by decide)

end Server
end TcVoice
