import TcVoice.Server.Membership

/-!
# Runs with a memory

The registry forgets which key it handed to whom, which keys it has drawn, and
who bound an identity key last.  `History` is the registry with those written
down beside it; recording them changes nothing in what the registry does.

* `keyDrawn`, `keyHanded`, `keyBound` — what one operation draws, hands out and binds.
* `History.step` — one operation, with its notes taken.
* `member_cases`, `key_kept`, `key_cases` — **how a step may change who is in a
  channel and what its key is**, in terms of the notes.
-/

namespace TcVoice
namespace Server

open Runs Table ServerState

variable {env : Env} {s s' : ServerState} {op : Op} {a b : SocketAddr} {ch x : ChannelId}
  {k : Bytes}

/-! ## Notes on one operation -/

/-- The voice key an operation draws and puts in force. -/
def keyDrawn (env : Env) (s : ServerState) : Op → Option Bytes
  | .createChannel name =>
    match s.createChannel env name with
    | some (.ok _, _) => some env.key.toList
    | _ => none
  | .createPersistentChannel name =>
    match s.createPersistentChannel env name with
    | some (.ok _, _) => some env.key.toList
    | _ => none
  | .joinChannel a ch =>
    match s.joinChannel env a ch with
    | some (.ok _, _) => if s.rotatesKey ch then some env.key.toList else none
    | _ => none
  | .startEchoTest a =>
    match s.startEchoTest env a with
    | some (.ok _, _) => some env.key.toList
    | _ => none
  | _ => none

/-- The voice key an operation hands out, and to whom. -/
def keyHanded (env : Env) (s : ServerState) : Op → Option (SocketAddr × Bytes)
  | .joinChannel a ch =>
    match s.joinChannel env a ch with
    | some (.ok params, _) => some (a, params.voiceKey)
    | _ => none
  | .startEchoTest a =>
    match s.startEchoTest env a with
    | some (.ok (_, _, key), _) => some (a, key)
    | _ => none
  | _ => none

/-- The identity key an operation binds, and to which connection. -/
def keyBound (s : ServerState) : Op → Option (Bytes × SocketAddr)
  | .setPubkey a pk => if a ∈ s.clients then some (pk, a) else none
  | _ => none

/-! ## The registry with its history -/

/-- The registry and what it forgets. -/
structure History where
  server : ServerState
  /-- The voice key each client was handed last. -/
  heldKey : SocketAddr → Option Bytes
  /-- The voice keys drawn so far, the latest first. -/
  draws : List Bytes
  /-- The connection that bound each identity key last. -/
  lastBinder : Bytes → Option SocketAddr

/-- Write an entry into a memory, if there is one to write. -/
def remember {α β : Type} [DecidableEq α] (memory : α → Option β) : Option (α × β) → α → Option β
  | some (x, y) => Function.update memory x (some y)
  | none => memory

theorem remember_of_eq {α β : Type} [DecidableEq α] (memory : α → Option β) (x : α) (y : β) :
    remember memory (some (x, y)) x = some y := Function.update_self ..

theorem remember_of_ne {α β : Type} [DecidableEq α] {memory : α → Option β}
    {entry : Option (α × β)} {x : α} (h : ∀ y, entry ≠ some (x, y)) :
    remember memory entry x = memory x := by
  cases entry with
  | none => rfl
  | some e =>
    have hne : x ≠ e.1 := by
      rintro rfl
      exact h e.2 rfl
    exact Function.update_of_ne hne _ _

namespace History

/-- The history that begins with the server. -/
def new (limits : Limits) : History := ⟨.new limits, fun _ => none, [], fun _ => none⟩

/-- Write down what an operation did, and the state it left. -/
def note (h : History) (e : Call) (s' : ServerState) : History where
  server := s'
  heldKey := remember h.heldKey (keyHanded e.1 h.server e.2)
  draws := (keyDrawn e.1 h.server e.2).toList ++ h.draws
  lastBinder := remember h.lastBinder (keyBound h.server e.2)

/-- One operation, with its notes taken. -/
def step (h : History) (e : Call) : Option History := (Server.step h.server e).map (h.note e)

theorem step_server (h : History) (e : Call) :
    (h.step e).map server = Server.step h.server e := by
  rw [step, Option.map_map]
  exact Option.map_id_apply

/-- Taking notes changes nothing: the registry runs as it would without. -/
theorem runFrom_server (h : History) (es : List Call) :
    (runFrom step h es).map server = runFrom Server.step h.server es :=
  runFrom_map step_server h es

theorem step_change {h h' : History} {e : Call} (hs : h.step e = some h') :
    Change e.1 h.server e.2 h'.server ∧ h' = h.note e h'.server := by
  obtain ⟨s', hs', rfl⟩ := Option.map_eq_some_iff.1 hs
  exact ⟨exec_change hs', rfl⟩

theorem heldKey_of_handed {h : History} {e : Call}
    (hn : keyHanded e.1 h.server e.2 = some (a, k)) : (h.note e s').heldKey a = some k := by
  rw [note, hn]
  exact remember_of_eq ..

theorem heldKey_of_not_handed {h : History} {e : Call}
    (hn : ∀ k, keyHanded e.1 h.server e.2 ≠ some (a, k)) :
    (h.note e s').heldKey a = h.heldKey a := remember_of_ne hn

end History

/-- The listener's guarantee, for a run with its history. -/
def FreshConnections (h : History) (e : Call) : Prop := FreshAddress h.server e

instance (h : History) (e : Call) : Decidable (FreshConnections h e) :=
  inferInstanceAs (Decidable (FreshAddress h.server e))

/-! ## Keys and members after a step -/

/-- A member after a step either was handed its channel's key in it, or was in the
channel before and was handed nothing. -/
theorem member_cases (hk : KeysMatch s) (hc : Change env s op s')
    (hb : s'.channelOf b = some x) :
    (∃ k, keyHanded env s op = some (b, k) ∧ s'.channelKeys.lookup x = some k) ∨
      (s.channelOf b = some x ∧ ∀ k, keyHanded env s op ≠ some (b, k)) := by
  have hk' := hk.change hc
  cases hc with
  | @refused op h =>
    refine .inr ⟨hb, fun k => ?_⟩
    cases op with
    | joinChannel a ch => obtain ⟨e, he⟩ := h; simp [keyHanded, he]
    | startEchoTest a => obtain ⟨e, he⟩ := h; simp [keyHanded, he]
    | _ => simp [keyHanded]
  | registered =>
    rw [channelOf_insert rfl] at hb
    split at hb
    · exact absurd hb (by simp)
    · exact .inr ⟨hb, by simp [keyHanded]⟩
  | rekeyed hl => exact .inr ⟨(channelOf_rekeyed hl).symm.trans hb, by simp [keyHanded]⟩
  | renamed hl => exact .inr ⟨(channelOf_renamed hl).symm.trans hb, by simp [keyHanded]⟩
  | removed =>
    exact .inr ⟨((departed_withoutClient _).channelOf_eq_some.1 hb).2, by simp [keyHanded]⟩
  | hungUp =>
    rw [channelOf_dropParticipant] at hb
    exact .inr ⟨((departed_withoutClient _).channelOf_eq_some.1 hb).2, by simp [keyHanded]⟩
  | left =>
    rw [channelOf_dropParticipant] at hb
    exact .inr ⟨((departed_withoutMember _).channelOf_eq_some.1 hb).2, by simp [keyHanded]⟩
  | created | established | renewed => exact .inr ⟨hb, by simp [keyHanded]⟩
  | @joined a ch token hch ha hout h0 htok hr =>
    rw [channelOf_joined ha] at hb
    split at hb
    · rename_i hba
      obtain rfl : ch = x := Option.some.inj hb
      obtain ⟨k, hkey⟩ := (mem_iff_lookup _ _).1 ((hk' ch).2 (by rwa [channels_joined]))
      exact .inl ⟨k, by simp [keyHanded, hr, hkey, hba], hkey⟩
    · rename_i hba
      exact .inr ⟨hb, by simp [keyHanded, hr, Ne.symm hba]⟩
  | @echoed a id token hid ha hout h0 htok hdraw hr =>
    rw [channelOf_echoed ha] at hb
    split at hb
    · rename_i hba
      obtain rfl : id = x := Option.some.inj hb
      exact .inl ⟨env.key.toList, by simp [keyHanded, hr, hba], Finmap.lookup_insert _⟩
    · rename_i hba
      exact .inr ⟨hb, by simp [keyHanded, hr, Ne.symm hba]⟩
  | greeted ht hip hl =>
    exact .inr ⟨(channelOf_greeted hl).symm.trans hb, by simp [keyHanded]⟩
  | swept => exact .inr ⟨channelOf_cleanupWith.symm.trans hb, by simp [keyHanded]⟩

/-- The key of a channel after a step was drawn in it or was the channel's key before. -/
theorem key_cases (hc : Change env s op s') (hx : s'.channelKeys.lookup x = some k) :
    keyDrawn env s op = some k ∨ s.channelKeys.lookup x = some k := by
  cases hc with
  | refused | registered | rekeyed | renamed | removed | renewed | greeted => exact .inr hx
  | hungUp | left =>
    rw [lookup_channelKeys_dropParticipant] at hx
    split at hx
    · exact absurd hx (by simp)
    · exact .inr hx
  | created hid hname hr =>
    rw [channelKeys_addChannel, lookup_insert_if] at hx
    split at hx
    · exact .inl (by simpa [keyDrawn, hr] using hx)
    · exact .inr hx
  | established hid hname hr =>
    rw [addChannel, lookup_insert_if] at hx
    split at hx
    · exact .inl (by simpa [keyDrawn, hr] using hx)
    · exact .inr hx
  | joined hch ha hout h0 htok hr =>
    rw [channelKeys_joined] at hx
    split at hx
    · rename_i hrot
      rw [lookup_insert_if] at hx
      split at hx
      · exact .inl (by simpa [keyDrawn, hr, hrot] using hx)
      · exact .inr hx
    · exact .inr hx
  | echoed hid ha hout h0 htok hdraw hr =>
    rw [channelKeys_echoed, lookup_insert_if] at hx
    split at hx
    · exact .inl (by simpa [keyDrawn, hr] using hx)
    · exact .inr hx
  | swept =>
    rw [lookup_channelKeys_cleanupWith] at hx
    split at hx
    · exact absurd hx (by simp)
    · exact .inr hx

/-- While a channel has a member and exists, its key does not change. -/
theorem key_kept (hm : MembersHaveChannels s) (hc : Change env s op s')
    (hb : s.channelOf b = some x) (hx : s'.channelKeys.lookup x = some k) :
    s.channelKeys.lookup x = some k := by
  have hin : x ∈ s.channels := (hm b x hb).1
  cases hc with
  | refused | registered | rekeyed | renamed | removed | renewed | greeted => exact hx
  | hungUp | left =>
    rw [lookup_channelKeys_dropParticipant] at hx
    split at hx
    · exact absurd hx (by simp)
    · exact hx
  | @created _ id hid | @established _ id hid | @echoed _ id _ hid =>
    have hne : x ≠ id := by
      rintro rfl
      exact hid hin
    exact (Finmap.lookup_insert_of_ne _ hne).symm.trans hx
  | joined =>
    rw [channelKeys_joined] at hx
    split at hx
    · rename_i hrot
      rw [lookup_insert_if] at hx
      split at hx
      · rename_i he
        rw [rotatesKey, ← he, occupied_iff.2 ⟨b, hb⟩] at hrot
        exact absurd hrot (by simp)
      · exact hx
    · exact hx
  | swept =>
    rw [lookup_channelKeys_cleanupWith] at hx
    split at hx
    · exact absurd hx (by simp)
    · exact hx

end Server
end TcVoice
