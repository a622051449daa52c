import Mathlib.Data.List.Count
import Mathlib.Data.Set.Insert
import TcVoice.Shared.Protocol

/-!
# The participant list a client holds

What the two client applications do to their `participants` when a message of the
server arrives: `handle` in `apps/desktop/src-tauri/src/drain.rs` and
`handle_server_message` in `crates/client/src/main.rs`.

* `Desktop.handle`, `Terminal.handleServerMessage` — the two of them, which differ
  in how they add and rename a participant.
* `ClientKind.handle`, `roster` — one message and a whole queue.
* `names_handle_peerJoined`, `names_handle_peerLeft`, `names_handle_nameChanged` —
  as sets of names, the lists of the two are the same, but for a rename of a name
  that a terminal holds twice.
-/

namespace TcVoice
namespace Client

/-- The participant list of the desktop application after a message. -/
def Desktop.handle (participants : List String) : ServerMessage → List String
  | .joinedChannel _ present _ _ => present
  | .peerJoined peerName =>
    if peerName ∈ participants then participants else participants ++ [peerName]
  | .peerLeft peerName => participants.filter fun p => p ≠ peerName
  | .leftChannel => []
  | .nameChanged oldName newName =>
    if oldName = "" then participants
    else participants.map fun p => if p = oldName then newName else p
  | _ => participants

/-- Rename the first participant of that name. -/
def renameFirst (oldName newName : String) : List String → List String
  | [] => []
  | p :: ps => if p = oldName then newName :: ps else p :: renameFirst oldName newName ps

/-- The participant list of the terminal application after a message. -/
def Terminal.handleServerMessage (participants : List String) : ServerMessage → List String
  | .joinedChannel _ present _ _ => present
  | .peerJoined peerName => participants ++ [peerName]
  | .peerLeft peerName => participants.filter fun p => p ≠ peerName
  | .leftChannel => []
  | .nameChanged oldName newName =>
    if oldName = "" then participants else renameFirst oldName newName participants
  | _ => participants

/-- The client applications. -/
inductive ClientKind where
  | desktop
  | terminal
  deriving DecidableEq, Repr

/-- The participant list after a message. -/
def ClientKind.handle : ClientKind → List String → ServerMessage → List String
  | desktop => Desktop.handle
  | terminal => Terminal.handleServerMessage

/-- The participant list after all the messages of a queue, in order. -/
def roster (kind : ClientKind) (queue : List ServerMessage) : List String :=
  queue.foldl kind.handle []

/-- The names on a list. -/
def names (participants : List String) : Set String := {n | n ∈ participants}

/-- A message that no client changes its list for. -/
def Plain : ServerMessage → Prop
  | .joinedChannel _ _ _ _ | .peerJoined _ | .peerLeft _ | .leftChannel | .nameChanged _ _ => False
  | _ => True

/-! ## What each message does -/

variable {kind : ClientKind} {ps present : List String} {n oldName newName : String}
  {msg : ServerMessage} {queue : List ServerMessage}

@[simp] theorem mem_names : n ∈ names ps ↔ n ∈ ps := Iff.rfl

theorem roster_append : roster kind (queue ++ [msg]) = kind.handle (roster kind queue) msg := by
  rw [roster, List.foldl_append]
  rfl

@[simp] theorem handle_joinedChannel {id : ChannelId} {token : UInt64} {key : Bytes} :
    kind.handle ps (.joinedChannel id present token key) = present := by
  cases kind <;> rfl

theorem handle_plain (h : Plain msg) : kind.handle ps msg = ps := by
  cases kind <;> cases msg <;> first | rfl | exact h.elim

/-- The name a client is given on connect changes no list. -/
@[simp] theorem handle_nameChanged_empty : kind.handle ps (.nameChanged "" newName) = ps := by
  cases kind <;> rfl

theorem names_handle_peerJoined : names (kind.handle ps (.peerJoined n)) = insert n (names ps) := by
  ext m
  cases kind with
  | desktop =>
    simp only [ClientKind.handle, Desktop.handle]
    split
    · rename_i hn
      simp only [mem_names, Set.mem_insert_iff]
      exact ⟨.inr, fun h => h.elim (fun hm => hm ▸ hn) id⟩
    · simp [or_comm]
  | terminal => simp [ClientKind.handle, Terminal.handleServerMessage, or_comm]

theorem names_handle_peerLeft : names (kind.handle ps (.peerLeft n)) = names ps \ {n} := by
  ext m
  cases kind <;> simp [ClientKind.handle, Desktop.handle, Terminal.handleServerMessage]

/-- Where a name is there at most once, renaming the first is renaming them all. -/
theorem renameFirst_eq_map (h : ps.count oldName ≤ 1) :
    renameFirst oldName newName ps = ps.map fun p => if p = oldName then newName else p := by
  induction ps with
  | nil => rfl
  | cons p ps ih =>
    rw [renameFirst, List.map_cons]
    by_cases hp : p = oldName
    · subst hp
      rw [List.count_cons_self] at h
      have hn : p ∉ ps := List.count_eq_zero.1 (by omega)
      rw [if_pos rfl, if_pos rfl]
      congr 1
      refine (List.map_id ps).symm.trans (List.map_congr_left fun q hq => (if_neg ?_).symm)
      rintro rfl
      exact hn hq
    · rw [if_neg hp, if_neg hp, ih]
      rwa [List.count_cons_of_ne hp] at h

theorem renameFirst_self : renameFirst n n ps = ps := by
  induction ps with
  | nil => rfl
  | cons p ps ih =>
    rw [renameFirst, ih]
    split
    · rename_i h
      rw [h]
    · rfl

/-- A list on which a rename has the same effect with either application. -/
def Renames (kind : ClientKind) (ps : List String) (oldName newName : String) : Prop :=
  kind = .terminal → oldName ≠ newName → ps.count oldName ≤ 1

theorem handle_nameChanged (h : Renames kind ps oldName newName) (ho : oldName ≠ "") :
    kind.handle ps (.nameChanged oldName newName) =
      ps.map fun p => if p = oldName then newName else p := by
  cases kind with
  | desktop => simp [ClientKind.handle, Desktop.handle, ho]
  | terminal =>
    simp only [ClientKind.handle, Terminal.handleServerMessage, if_neg ho]
    by_cases hne : oldName = newName
    · subst hne
      rw [renameFirst_self]
      refine (List.map_id ps).symm.trans (List.map_congr_left fun q _ => ?_)
      split
      · rename_i hq
        exact hq
      · rfl
    · exact renameFirst_eq_map (h rfl hne)

theorem names_handle_nameChanged (h : Renames kind ps oldName newName) (ho : oldName ≠ "") :
    names (kind.handle ps (.nameChanged oldName newName)) =
      {m | (m ∈ names ps ∧ m ≠ oldName) ∨ (m = newName ∧ oldName ∈ names ps)} := by
  ext m
  rw [handle_nameChanged h ho]
  simp only [mem_names, List.mem_map, Set.mem_ofPred_eq]
  constructor
  · rintro ⟨p, hp, hm⟩
    split at hm
    · rename_i hpo
      exact .inr ⟨hm.symm, hpo ▸ hp⟩
    · rename_i hpo
      exact .inl ⟨hm ▸ hp, hm ▸ hpo⟩
  · rintro (⟨hm, hmo⟩ | ⟨rfl, hmem⟩)
    · exact ⟨m, hm, if_neg hmo⟩
    · exact ⟨oldName, hmem, if_pos rfl⟩

end Client
end TcVoice
