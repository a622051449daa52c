import TcVoice.Desktop.Window
import TcVoice.Lib.Runs
import Mathlib.Algebra.BigOperators.Group.Multiset.Basic
import Mathlib.Tactic.Abel

/-!
# Direct messages

The threads of the desktop application: `src/lib/dm.ts` and the plain text and `/dm` of
`src/lib/commands.ts` in the window, `get_dm_history` and `send_dm_to` of `dm.rs` and the drain
task's `DirectMessage` in the backend.  A command takes a while, and so does its answer; an event
that is emitted takes a while too.

* `Errand` — a command of the window on its way, or its answer; `Threads.step` — one step of the
  window, of a command, of the drain task, or of an event on its way.
* `Calm` — a thread is opened and closed while nothing is on its way for it, on one server, its
  history can be read, and no line gets there past the window or while the history is being read.
* `thread_complete` — **in calm runs an open thread shows what is in its history**, every line
  once; `shown_twice`, `shown_elsewhere` and `not_shown` are runs that are not calm.
-/

namespace TcVoice
namespace Desktop

open Runs

/-- `DmPayload`. -/
structure DmPayload where
  fromPubkey : String
  fromName : String
  text : String
  deriving DecidableEq, Repr

/-- A command on its way, or the answer to it.  What `/dm` sends is kept with the reference that
was typed. -/
inductive Errand where
  | fetching (peer name : String)
  | fetched (name : String) (answer : Except String (List ChatLine))
  | sending (peer text : String) (ref : Option String)
  | sent (text : String) (ref : Option String) (answer : Except String Unit)

/-- The window and the backend, as far as direct messages are concerned. -/
structure Threads (L : Type) where
  window : AppState L
  /-- `server_addr` of the backend. -/
  server : Option String
  /-- The lines that are on disk, by server and peer. -/
  stored : String × String → List ChatLine
  /-- Messages that have been put down and have not reached the window. -/
  emitted : List DmPayload
  errands : List Errand
  /-- What has been written to the thread since it was opened, which the source does not have. -/
  written : List LogLine

inductive ThreadEvent (L : Type) where
  /-- `openDm` and `closeDm`. -/
  | opened (peer name : String)
  | closed
  /-- A line of plain text. -/
  | typed (text : String) (now : ℕ)
  /-- `/dm`, when the reference has been resolved. -/
  | whispered (ref peer text : String)
  /-- A command is done, or fails. -/
  | fetched (k : ℕ)
  | fetchFailed (k : ℕ) (error : String)
  | sent (k : ℕ) (self : Option String) (now : ℕ)
  | sendFailed (k : ℕ) (error : String)
  /-- An answer reaches the window. -/
  | answered (k : ℕ) (now : ℕ)
  /-- The drain task gets a message. -/
  | received (dm : DmPayload) (now : ℕ)
  /-- What was emitted first reaches the window. -/
  | delivered (now : ℕ)
  /-- The backend goes to another server, or a backup names one or none. -/
  | moved (server : Option String)
  /-- Anything else that happens to the window. -/
  | other (e : FrontendEvent L)

/-- What the window asks for when it opens a thread. -/
def historyLimit : ℕ := 100

namespace Threads

variable {L : Type} (t : Threads L)

/-- A start with some history. -/
def init (server : Option String) (stored : String × String → List ChatLine) : Threads L :=
  ⟨.init, server, stored, [], [], []⟩

/-- `update.pushDmLog`. -/
def write (text : LineText) (kind : LogKind) (ts : Option ℕ) : Threads L :=
  { t with
    window := t.window.pushDmLog text kind ts
    written := t.written ++ [⟨t.window.nextId, text, kind, ts⟩] }

/-- `pushLog`. -/
def note (text : LineText) (kind : LogKind) (ts : Option ℕ) : Threads L :=
  { t with window := t.window.pushLog text kind ts }

/-- `history::append`, to the thread of a peer; the disk takes every line. -/
def append (server peer : String) (line : ChatLine) : Threads L :=
  { t with
    stored := Function.update t.stored (server, peer) (t.stored (server, peer) ++ [line]) }

/-- What the drain task puts down of a message, if the backend has a server. -/
def putDown (dm : DmPayload) (now : ℕ) : Threads L :=
  match t.server with
  | some server => t.append server dm.fromPubkey ⟨now / 1000, .dm, dm.fromName, dm.text⟩
  | none => t

/-- An errand is done, and another one may come of it. -/
def goOn (k : ℕ) (next : List Errand) : Threads L :=
  { t with errands := t.errands.eraseIdx k ++ next }

/-- The rest of `openDm`, of `sendDm` or of `/dm`. -/
def answer (now : ℕ) : Errand → Option (Threads L)
  | .fetched name (.ok []) =>
    some (t.write (.text ("DM with " ++ name ++ " — no history yet")) .system none)
  | .fetched _ (.ok lines) =>
    some (lines.foldl (fun t l => t.write (.said l.from l.text) .dm (some l.tsUnix)) t)
  | .fetched _ (.error e) => some (t.note (.text ("dm open failed: " ++ e)) .error none)
  | .sent text none (.ok ()) => some (t.write (.said "you" text) .dm (some (now / 1000)))
  | .sent _ none (.error e) => some (t.write (.text ("error: " ++ e)) .error none)
  | .sent text (some ref) (.ok ()) =>
    some (t.note (.text ("(dm to " ++ ref ++ ") you: " ++ text)) .dm none)
  | .sent _ (some _) (.error e) => some (t.note (.text ("error: " ++ e)) .error none)
  | _ => none

/-- One step; `none` if there is no such errand or event. -/
def step : ThreadEvent L → Option (Threads L)
  | .opened peer name =>
    some { t with
      window := t.window.openDm peer name, written := []
      errands := t.errands ++ [.fetching peer name] }
  | .closed => some { t with window := t.window.closeDm, written := [] }
  | .typed text now =>
    match t.window.dm with
    | some dm => some { t with errands := t.errands ++ [.sending dm.pubkeyHex text none] }
    | none =>
      -- The line is for the room.
      if t.window.channel.isNone then
        some (t.note (.text "not in a channel — use /join <id> or /create") .error none)
      else some (t.note (.said "you" text) .chat (some (now / 1000)))
  | .whispered ref peer text =>
    some { t with errands := t.errands ++ [.sending peer text (some ref)] }
  | .fetched k =>
    match t.errands[k]?, t.server with
    | some (.fetching peer name), some server =>
      some (t.goOn k
        [.fetched name (.ok (lastLines (min historyLimit 500) (t.stored (server, peer))))])
    | _, _ => none
  | .fetchFailed k error =>
    match t.errands[k]? with
    | some (.fetching _ name) => some (t.goOn k [.fetched name (.error error)])
    | _ => none
  | .sent k self now =>
    match t.errands[k]?, t.server with
    | some (.sending peer text ref), some server =>
      let line := ⟨now / 1000, .dm, self.getD "you", text⟩
      some ((t.append server peer line).goOn k [.sent text ref (.ok ())])
    | _, _ => none
  | .sendFailed k error =>
    match t.errands[k]? with
    | some (.sending _ text ref) => some (t.goOn k [.sent text ref (.error error)])
    | _ => none
  | .answered k now => t.errands[k]?.bind fun e => (t.goOn k []).answer now e
  | .received dm now => some { t.putDown dm now with emitted := t.emitted ++ [dm] }
  | .delivered now =>
    match t.emitted with
    | [] => none
    | dm :: emitted =>
      let t := { t with emitted }
      let event : BackendEvent L := .directMessage dm.fromPubkey dm.fromName dm.text
      let written := if (t.window.dm.map Dm.pubkeyHex) = some dm.fromPubkey then
        t.written ++ [⟨t.window.nextId, .said dm.fromName dm.text, .dm, some (now / 1000)⟩]
        else t.written
      some { t with window := t.window.take now event, written }
  | .moved server => some { t with server }
  | .other e =>
    match e with
    -- These are steps of their own.
    | .openDm .. | .closeDm | .dmNote .. | .emitted (.directMessage ..) _ => none
    | e => some { t with window := t.window.step e }

/-! ## What a thread should show -/

/-- What the lines of a thread say, but for errors and remarks of the window. -/
def bodies (lines : List LogLine) : Multiset String :=
  (lines.filterMap fun line =>
    match line.kind, line.text with
    | .dm, .said _ text => some text
    | _, _ => none : List String)

/-- What an errand will write to the thread that is open. -/
def owed : Errand → Multiset String
  | .fetched _ (.ok lines) => (lines.map (·.text) : List String)
  | .sent text none (.ok _) => {text}
  | _ => 0

/-- What a peer says in the messages that are emitted. -/
def saidBy (peer : String) (emitted : List DmPayload) : Multiset String :=
  ((emitted.filter fun dm => dm.fromPubkey = peer).map (·.text) : List String)

/-- What is going to be written to the thread of a peer. -/
def coming (peer : String) : Multiset String :=
  (t.errands.map owed).sum + saidBy peer t.emitted

/-- The thread of a peer is open. -/
def Open (peer : String) : Prop := t.window.dm.map Dm.pubkeyHex = some peer

instance decidableOpen (peer : String) : Decidable (t.Open peer) :=
  inferInstanceAs (Decidable (_ = _))

/-- What comes of an errand is not written to a thread. -/
def aside : Errand → Bool
  | .sending _ _ (some _) | .sent _ (some _) _ => true
  | _ => false

/-- An errand reads the history of a thread. -/
def reads : Errand → Bool
  | .fetching .. => true
  | _ => false

/-- Whom an errand sends a message to, and the reference if it was typed. -/
def sends : Errand → Option (String × Option String)
  | .sending peer _ ref => some (peer, ref)
  | _ => none

/-- Steps after which the thread that is open and its history still agree.  A thread is opened or
closed while nothing is on its way for it, and while one is open the backend stays on its server.
Its history can be read.  While that goes on, no message of the peer arrives, and what is sent to
the peer comes from `/dm`, which shows it elsewhere; later none of it does. -/
def Calm : ThreadEvent L → Prop
  | .opened peer _ =>
    (∀ e ∈ t.errands, aside e = true) ∧ ∀ dm ∈ t.emitted, dm.fromPubkey ≠ peer
  | .closed => ∀ e ∈ t.errands, aside e = true
  | .fetchFailed .. => False
  | .sent k _ _ =>
    ∀ dest ∈ t.errands[k]?.bind sends, t.Open dest.1 → dest.2.isNone = !t.errands.any reads
  | .received dm _ => t.Open dm.fromPubkey → t.errands.any reads = false
  | .moved server => t.window.dm = none ∨ server = t.server
  | _ => True

instance decidableCalm (t : Threads L) (e : ThreadEvent L) : Decidable (t.Calm e) :=
  match e with
  | .opened peer _ => inferInstanceAs (Decidable
      ((∀ e ∈ t.errands, aside e = true) ∧ ∀ dm ∈ t.emitted, dm.fromPubkey ≠ peer))
  | .closed => inferInstanceAs (Decidable (∀ e ∈ t.errands, aside e = true))
  | .fetchFailed .. => isFalse id
  | .sent k _ _ => inferInstanceAs (Decidable
      (∀ dest ∈ t.errands[k]?.bind sends, t.Open dest.1 → dest.2.isNone = !t.errands.any reads))
  | .received dm _ => inferInstanceAs (Decidable
      (t.Open dm.fromPubkey → t.errands.any reads = false))
  | .moved server => inferInstanceAs (Decidable (t.window.dm = none ∨ server = t.server))
  | .typed .. | .whispered .. | .fetched _ | .sendFailed .. | .answered .. | .delivered _
  | .other _ => isTrue trivial

/-- The history of the thread is still to be read. -/
structure Waiting (t : Threads L) (peer : String) : Prop where
  errands : ∀ e ∈ t.errands, aside e = true ∨ (∃ text, e = .sending peer text none) ∨
    (∃ name, e = .fetching peer name) ∨ ∃ text error, e = .sent text none (.error error)
  reading : t.errands.countP reads = 1
  written : bodies t.written = 0
  emitted : ∀ dm ∈ t.emitted, dm.fromPubkey ≠ peer

/-- It has been read, and is shown or on its way, with all that has come after it. -/
structure Shown (t : Threads L) (peer : String) : Prop where
  errands : ∀ e ∈ t.errands, aside e = true ∨ (∃ text, e = .sending peer text none) ∨
    (∃ name lines, e = .fetched name (.ok lines)) ∨ ∃ text answer, e = .sent text none answer
  complete : ∃ server older newer, t.server = some server ∧
    t.stored (server, peer) = older ++ newer ∧
    (older = [] ∨ historyLimit ≤ newer.length) ∧
    bodies t.written + t.coming peer = (newer.map (·.text) : List String)

/-- What holds between the steps of a calm run. -/
inductive Tidy (t : Threads L) : Prop
  | closed (hdm : t.window.dm = none) (h : ∀ e ∈ t.errands, aside e = true)
  | waiting (dm : Dm) (hdm : t.window.dm = some dm) (h : t.Waiting dm.pubkeyHex)
  | shown (dm : Dm) (hdm : t.window.dm = some dm) (h : t.Shown dm.pubkeyHex)

variable {t} {t' : Threads L} {peer : String} {k : ℕ} {e : Errand}

theorem bodies_append (lines lines' : List LogLine) :
    bodies (lines ++ lines') = bodies lines + bodies lines' := by
  rw [bodies, List.filterMap_append]
  rfl

theorem saidBy_append (emitted emitted' : List DmPayload) :
    saidBy peer (emitted ++ emitted') = saidBy peer emitted + saidBy peer emitted' := by
  rw [saidBy, List.filter_append, List.map_append]
  rfl

theorem saidBy_singleton (dm : DmPayload) :
    saidBy peer [dm] = if dm.fromPubkey = peer then {dm.text} else 0 := by
  unfold saidBy
  split
  · rename_i h
    simp [h]
  · rename_i h
    simp [h]

theorem saidBy_eq_zero {emitted : List DmPayload} (h : ∀ dm ∈ emitted, dm.fromPubkey ≠ peer) :
    saidBy peer emitted = 0 := by
  rw [saidBy, List.filter_eq_nil_iff.2 (fun dm hdm => by simpa using h dm hdm)]
  rfl

theorem owed_of_aside (h : aside e = true) : owed e = 0 := by
  cases e with
  | fetching => cases h
  | fetched => cases h
  | sending => rfl
  | sent text ref answer =>
    cases ref with
    | none => cases h
    | some ref => rfl

theorem reads_of_aside (h : aside e = true) : reads e = false := by
  cases e with
  | fetching => cases h
  | _ => rfl

theorem Waiting.any_reads (h : t.Waiting peer) : t.errands.any reads = true := by
  obtain ⟨e, he, hreads⟩ := List.countP_pos_iff.1 (h.reading ▸ Nat.one_pos)
  exact List.any_eq_true.2 ⟨e, he, hreads⟩

theorem Shown.any_reads (h : t.Shown peer) : t.errands.any reads = false := by
  rw [List.any_eq_false]
  intro e he
  rcases h.errands e he with haside | ⟨text, rfl⟩ | ⟨name, lines, rfl⟩ | ⟨text, answer, rfl⟩
  · simp [reads_of_aside haside]
  all_goals simp [reads]

/-- What is left when an errand is done. -/
theorem sum_goOn (h : t.errands[k]? = some e) (next : List Errand) :
    ((t.goOn k next).errands.map owed).sum + owed e =
      (t.errands.map owed).sum + (next.map owed).sum := by
  obtain ⟨hk, rfl⟩ := List.getElem?_eq_some_iff.1 h
  have hperm := ((List.getElem_cons_eraseIdx_perm hk).map owed).sum_eq
  rw [List.map_cons, List.sum_cons] at hperm
  rw [goOn, List.map_append, List.sum_append, ← hperm]
  abel

/-- The history is still read while other errands are done. -/
theorem countP_goOn (h : t.errands[k]? = some e) (hreads : reads e = false) {next : List Errand}
    (hnext : next.countP reads = 0) :
    (t.goOn k next).errands.countP reads = t.errands.countP reads := by
  obtain ⟨hk, rfl⟩ := List.getElem?_eq_some_iff.1 h
  have hcount := (List.getElem_cons_eraseIdx_perm hk).countP_eq reads
  rw [List.countP_cons_of_neg (by simp [hreads])] at hcount
  rw [goOn, List.countP_append, hcount, hnext, Nat.add_zero]

theorem mem_goOn {next : List Errand} {e' : Errand} (h : e' ∈ (t.goOn k next).errands) :
    e' ∈ t.errands ∨ e' ∈ next :=
  (List.mem_append.1 h).imp_left fun hold => List.mem_of_mem_eraseIdx hold

/-! ## The steps of the window -/

theorem Tidy.opened (haside : ∀ e ∈ t.errands, aside e = true) {peer : String} (name : String)
    (hfresh : ∀ dm ∈ t.emitted, dm.fromPubkey ≠ peer) :
    Tidy { t with
      window := t.window.openDm peer name, written := []
      errands := t.errands ++ [.fetching peer name] } := by
  refine .waiting ⟨peer, name⟩ rfl ⟨?_, ?_, rfl, hfresh⟩
  · intro e he
    rcases List.mem_append.1 he with hold | hnew
    · exact .inl (haside e hold)
    · rw [List.mem_singleton.1 hnew]
      exact .inr (.inr (.inl ⟨name, rfl⟩))
  · have hnone : t.errands.countP reads = 0 := by
      rw [List.countP_eq_zero]
      intro e he
      simp [reads_of_aside (haside e he)]
    dsimp only
    rw [List.countP_append, hnone]
    rfl

/-- The window sends something, to the thread or aside. -/
theorem Tidy.sending (h : t.Tidy) {text : String} {ref : Option String}
    (hthread : ref = none → ∃ dm, t.window.dm = some dm ∧ peer = dm.pubkeyHex) :
    Tidy { t with errands := t.errands ++ [.sending peer text ref] } := by
  have howed : owed (.sending peer text ref) = 0 := rfl
  cases h with
  | closed hdm h =>
    refine .closed hdm fun e he => ?_
    rcases List.mem_append.1 he with hold | hnew
    · exact h e hold
    · rw [List.mem_singleton.1 hnew]
      cases ref with
      | none =>
        obtain ⟨dm, hopen, -⟩ := hthread rfl
        rw [hdm] at hopen
        cases hopen
      | some ref => rfl
  | waiting dm hdm h =>
    refine .waiting dm hdm ⟨?_, ?_, h.written, h.emitted⟩
    · intro e he
      rcases List.mem_append.1 he with hold | hnew
      · exact h.errands e hold
      · rw [List.mem_singleton.1 hnew]
        cases ref with
        | none =>
          obtain ⟨dm', hopen, rfl⟩ := hthread rfl
          cases hdm.symm.trans hopen
          exact .inr (.inl ⟨text, rfl⟩)
        | some ref => exact .inl rfl
    · dsimp only
      rw [List.countP_append, h.reading]
      rfl
  | shown dm hdm h =>
    refine .shown dm hdm ⟨?_, ?_⟩
    · intro e he
      rcases List.mem_append.1 he with hold | hnew
      · exact h.errands e hold
      · rw [List.mem_singleton.1 hnew]
        cases ref with
        | none =>
          obtain ⟨dm', hopen, rfl⟩ := hthread rfl
          cases hdm.symm.trans hopen
          exact .inr (.inl ⟨text, rfl⟩)
        | some ref => exact .inl rfl
    · obtain ⟨server, older, newer, hserver, hstored, hlong, hall⟩ := h.complete
      refine ⟨server, older, newer, hserver, hstored, hlong, ?_⟩
      rw [← hall, coming, coming]
      dsimp only
      rw [List.map_append, List.sum_append, List.map_singleton, List.sum_singleton, howed, add_zero]

/-- What the window notes in the main log, and what else it does, is no matter of the threads. -/
theorem Tidy.window (h : t.Tidy) {window : AppState L} (hdm : window.dm = t.window.dm) :
    Tidy { t with window } := by
  cases h with
  | closed hclosed h => exact .closed (hdm.trans hclosed) h
  | waiting dm hopen h =>
    exact .waiting dm (hdm.trans hopen) ⟨h.errands, h.reading, h.written, h.emitted⟩
  | shown dm hopen h => exact .shown dm (hdm.trans hopen) ⟨h.errands, h.complete⟩

/-! ## The steps of the backend -/

/-- `get_dm_history` reads the file: from here on the thread is complete. -/
theorem Tidy.fetched (h : t.Tidy) {name server : String} (hserver : t.server = some server)
    (hk : t.errands[k]? = some (.fetching peer name)) :
    (t.goOn k
      [.fetched name (.ok (lastLines (min historyLimit 500) (t.stored (server, peer))))]).Tidy := by
  have hmem := List.mem_of_getElem? hk
  cases h with
  | closed hdm h => exact absurd (h _ hmem) (by simp [aside])
  | shown dm hdm h =>
    rcases h.errands _ hmem with haside | ⟨_, heq⟩ | ⟨_, _, heq⟩ | ⟨_, _, heq⟩
    · exact absurd haside (by simp [aside])
    all_goals cases heq
  | waiting dm hdm h =>
    have hpeer : peer = dm.pubkeyHex := by
      rcases h.errands _ hmem with haside | ⟨_, heq⟩ | ⟨_, heq⟩ | ⟨_, _, heq⟩
      · exact absurd haside (by simp [aside])
      · cases heq
      · cases heq
        rfl
      · cases heq
    subst hpeer
    -- Nothing but this errand was reading.
    have hnone : (t.errands.eraseIdx k).countP reads = 0 := by
      obtain ⟨hlt, hget⟩ := List.getElem?_eq_some_iff.1 hk
      have hcount := (List.getElem_cons_eraseIdx_perm hlt).countP_eq reads
      rw [h.reading, hget, List.countP_cons_of_pos rfl] at hcount
      omega
    have hleft : ∀ e ∈ t.errands.eraseIdx k, aside e = true ∨
        (∃ text, e = .sending dm.pubkeyHex text none) ∨
        ∃ text error, e = .sent text none (.error error) := by
      intro e he
      rcases h.errands e (List.mem_of_mem_eraseIdx he) with haside | hsending | ⟨_, rfl⟩ | hsent
      · exact .inl haside
      · exact .inr (.inl hsending)
      · exact absurd rfl (List.countP_eq_zero.1 hnone _ he)
      · exact .inr (.inr hsent)
    refine .shown dm hdm ⟨?_, ?_⟩
    · intro e he
      rcases List.mem_append.1 he with hold | hnew
      · rcases hleft e hold with haside | hsending | ⟨text, error, rfl⟩
        · exact .inl haside
        · exact .inr (.inl hsending)
        · exact .inr (.inr (.inr ⟨text, _, rfl⟩))
      · rw [List.mem_singleton.1 hnew]
        exact .inr (.inr (.inl ⟨_, _, rfl⟩))
    · have hlines := List.take_append_drop
        ((t.stored (server, dm.pubkeyHex)).length - min historyLimit 500)
        (t.stored (server, dm.pubkeyHex))
      refine ⟨server, _, _, hserver, hlines.symm, ?_, ?_⟩
      · by_cases hshort : (t.stored (server, dm.pubkeyHex)).length ≤ historyLimit
        · left
          have hzero : (t.stored (server, dm.pubkeyHex)).length - min historyLimit 500 = 0 := by
            simp only [historyLimit] at hshort ⊢
            omega
          rw [hzero, List.take_zero]
        · right
          rw [List.length_drop]
          simp only [historyLimit] at hshort ⊢
          omega
      · have howed : ((t.errands.eraseIdx k).map owed).sum = 0 := by
          apply List.sum_eq_zero
          intro ms hms
          obtain ⟨e, he, rfl⟩ := List.mem_map.1 hms
          rcases hleft e he with haside | ⟨_, rfl⟩ | ⟨_, _, rfl⟩
          · exact owed_of_aside haside
          · rfl
          · rfl
        show bodies t.written + coming _ _ = _
        rw [h.written, coming, goOn]
        dsimp only
        rw [List.map_append, List.sum_append, howed, saidBy_eq_zero h.emitted]
        simp [owed, lastLines]

/-- While the history is read, only `/dm` adds to the thread. -/
theorem Waiting.sent (h : t.Waiting peer) {dest text : String} {ref : Option String}
    (hk : t.errands[k]? = some (.sending dest text ref))
    (hcalm : dest = peer → ref.isNone = !t.errands.any reads) (server : String) (line : ChatLine) :
    ((t.append server dest line).goOn k [.sent text ref (.ok ())]).Waiting peer := by
  obtain ⟨ref, rfl⟩ : ∃ r, ref = some r := by
    cases ref with
    | some ref => exact ⟨ref, rfl⟩
    | none =>
      rcases h.errands _ (List.mem_of_getElem? hk) with haside | ⟨_, heq⟩ | ⟨_, heq⟩ | ⟨_, _, heq⟩
      · cases haside
      · cases heq
        have hnone := hcalm rfl
        rw [h.any_reads] at hnone
        cases hnone
      · cases heq
      · cases heq
  refine ⟨?_, (countP_goOn hk rfl rfl).trans h.reading, h.written, h.emitted⟩
  intro e he
  rcases mem_goOn he with hold | hnew
  · exact h.errands e hold
  · rw [List.mem_singleton.1 hnew]
    exact .inl rfl

/-- A line of plain text is put down at the end of the thread, and is on its way to it. -/
theorem Shown.sent_typed (h : t.Shown peer) {dest text server : String}
    (hserver : t.server = some server)
    (hk : t.errands[k]? = some (.sending dest text none)) (line : ChatLine)
    (hline : line.text = text) :
    ((t.append server dest line).goOn k [.sent text none (.ok ())]).Shown peer := by
  obtain rfl : dest = peer := by
    rcases h.errands _ (List.mem_of_getElem? hk) with haside | ⟨_, heq⟩ | ⟨_, _, heq⟩ | ⟨_, _, heq⟩
    · cases haside
    · cases heq
      rfl
    · cases heq
    · cases heq
  obtain ⟨server', older, newer, hserver', hstored, hlong, hall⟩ := h.complete
  obtain rfl : server = server' := Option.some.inj (hserver.symm.trans hserver')
  refine ⟨?_, server, older, newer ++ [line], hserver, ?_, ?_, ?_⟩
  · intro e he
    rcases mem_goOn he with hold | hnew
    · exact h.errands e hold
    · rw [List.mem_singleton.1 hnew]
      exact .inr (.inr (.inr ⟨text, _, rfl⟩))
  · show Function.update _ _ _ _ = _
    rw [Function.update_self, hstored, List.append_assoc]
  · rw [List.length_append]
    exact hlong.imp_right fun hlong => Nat.le_add_right_of_le hlong
  · have hsum := sum_goOn (t := t) hk [.sent text none (.ok ())]
    have howed : ((t.goOn k [.sent text none (.ok ())]).errands.map owed).sum =
        (t.errands.map owed).sum + {text} := by simpa [owed] using hsum
    have hcoming : coming ((t.append server dest line).goOn k [.sent text none (.ok ())]) dest =
        t.coming dest + {text} := by
      rw [coming, coming]
      show ((t.goOn k _).errands.map owed).sum + _ = _
      rw [howed]
      exact add_right_comm _ _ _
    rw [hcoming, ← add_assoc]
    show bodies t.written + _ + _ = _
    rw [hall, List.map_append, ← Multiset.coe_add, List.map_singleton, hline]
    rfl

/-- What `/dm` sends to others is put down elsewhere. -/
theorem Shown.sent_aside (h : t.Shown peer) {dest text ref : String}
    (hk : t.errands[k]? = some (.sending dest text (some ref))) (hne : dest ≠ peer)
    (server : String) (line : ChatLine) :
    ((t.append server dest line).goOn k [.sent text (some ref) (.ok ())]).Shown peer := by
  obtain ⟨server', older, newer, hserver, hstored, hlong, hall⟩ := h.complete
  refine ⟨?_, server', older, newer, hserver, ?_, hlong, ?_⟩
  · intro e he
    rcases mem_goOn he with hold | hnew
    · exact h.errands e hold
    · rw [List.mem_singleton.1 hnew]
      exact .inl rfl
  · show Function.update _ _ _ _ = _
    rw [Function.update_of_ne fun heq => hne (congrArg Prod.snd heq).symm, hstored]
  · have hsum := sum_goOn (t := t) hk [.sent text (some ref) (.ok ())]
    have howed : ((t.goOn k [.sent text (some ref) (.ok ())]).errands.map owed).sum =
        (t.errands.map owed).sum := by simpa [owed] using hsum
    rw [← hall, coming, coming]
    show bodies t.written + (((t.goOn k _).errands.map owed).sum + _) = _
    rw [howed]
    rfl

/-- `send_dm_to` has handed the message over and put it down. -/
theorem Tidy.sent (h : t.Tidy) {text server : String} {ref : Option String}
    (hserver : t.server = some server)
    (hk : t.errands[k]? = some (.sending peer text ref))
    (hcalm : t.Open peer → (ref.isNone = !t.errands.any reads)) (line : ChatLine)
    (hline : line.text = text) :
    ((t.append server peer line).goOn k [.sent text ref (.ok ())]).Tidy := by
  have hopen : ∀ dm : Dm, t.window.dm = some dm → peer = dm.pubkeyHex → t.Open peer := by
    rintro dm hdm rfl
    exact congrArg (Option.map Dm.pubkeyHex) hdm
  cases h with
  | closed hdm h =>
    refine .closed hdm fun e he => ?_
    rcases mem_goOn he with hold | hnew
    · exact h e hold
    · rw [List.mem_singleton.1 hnew]
      have haside := h _ (List.mem_of_getElem? hk)
      cases ref with
      | none => cases haside
      | some ref => rfl
  | waiting dm hdm h =>
    exact .waiting dm hdm (h.sent hk (fun heq => hcalm (hopen dm hdm heq)) server line)
  | shown dm hdm h =>
    cases ref with
    | none => exact .shown dm hdm (h.sent_typed hserver hk line hline)
    | some ref =>
      refine .shown dm hdm (h.sent_aside hk ?_ server line)
      intro heq
      have hnone := hcalm (hopen dm hdm heq)
      rw [h.any_reads] at hnone
      cases hnone

/-- It fails: nothing is written to disk. -/
theorem Tidy.sendFailed (h : t.Tidy) {text : String} {ref : Option String}
    (hk : t.errands[k]? = some (.sending peer text ref)) (error : String) :
    (t.goOn k [.sent text ref (.error error)]).Tidy := by
  have hmem := List.mem_of_getElem? hk
  cases h with
  | closed hdm h =>
    refine .closed hdm fun e he => ?_
    rcases mem_goOn he with hold | hnew
    · exact h e hold
    · rw [List.mem_singleton.1 hnew]
      have haside := h _ hmem
      cases ref with
      | none => cases haside
      | some ref => rfl
  | waiting dm hdm h =>
    refine .waiting dm hdm ⟨?_, ?_, h.written, h.emitted⟩
    · intro e he
      rcases mem_goOn he with hold | hnew
      · exact h.errands e hold
      · rw [List.mem_singleton.1 hnew]
        cases ref with
        | none => exact .inr (.inr (.inr ⟨text, error, rfl⟩))
        | some ref => exact .inl rfl
    · exact (countP_goOn hk rfl rfl).trans h.reading
  | shown dm hdm h =>
    obtain ⟨server, older, newer, hserver, hstored, hlong, hall⟩ := h.complete
    have hsum := sum_goOn (t := t) hk [.sent text ref (.error error)]
    refine .shown dm hdm ⟨?_, server, older, newer, hserver, hstored, hlong, ?_⟩
    · intro e he
      rcases mem_goOn he with hold | hnew
      · exact h.errands e hold
      · rw [List.mem_singleton.1 hnew]
        cases ref with
        | none => exact .inr (.inr (.inr ⟨text, _, rfl⟩))
        | some ref => exact .inl rfl
    · have howed : ((t.goOn k [.sent text ref (.error error)]).errands.map owed).sum =
          (t.errands.map owed).sum := by
        cases ref <;> simpa [owed] using hsum
      rw [← hall, coming, coming, howed]
      rfl

/-! ## Answers and events -/

/-- An answer has reached the window, and what it owed to the thread has been written. -/
theorem Tidy.done (h : t.Tidy) (hk : t.errands[k]? = some e) (hreads : reads e = false)
    (hdm : t'.window.dm = t.window.dm) (hserver : t'.server = t.server)
    (hstored : t'.stored = t.stored) (hemitted : t'.emitted = t.emitted)
    (herrands : t'.errands = t.errands.eraseIdx k)
    (hwritten : bodies t'.written = bodies t.written + owed e) : t'.Tidy := by
  have hmem := List.mem_of_getElem? hk
  have hsub : ∀ e' ∈ t'.errands, e' ∈ t.errands := fun e' he' =>
    List.mem_of_mem_eraseIdx (herrands ▸ he')
  cases h with
  | closed hclosed h => exact .closed (hdm.trans hclosed) fun e' he' => h e' (hsub e' he')
  | waiting dm hopen h =>
    have howed : owed e = 0 := by
      rcases h.errands e hmem with haside | ⟨_, rfl⟩ | ⟨_, rfl⟩ | ⟨_, _, rfl⟩
      · exact owed_of_aside haside
      all_goals rfl
    refine .waiting dm (hdm.trans hopen)
      ⟨fun e' he' => h.errands e' (hsub e' he'), ?_, ?_, hemitted ▸ h.emitted⟩
    · have hcount : (t.goOn k []).errands.countP reads = _ := countP_goOn hk hreads rfl
      rw [goOn, List.append_nil] at hcount
      rw [herrands, hcount, h.reading]
    · rw [hwritten, h.written, howed, add_zero]
  | shown dm hopen h =>
    obtain ⟨server, older, newer, hsame, hall, hlong, hcomplete⟩ := h.complete
    refine .shown dm (hdm.trans hopen) ⟨fun e' he' => h.errands e' (hsub e' he'), server, older,
      newer, hserver.trans hsame, hstored ▸ hall, hlong, ?_⟩
    have hsum := sum_goOn (t := t) hk []
    rw [goOn, List.append_nil, List.map_nil, List.sum_nil, add_zero] at hsum
    rw [← hcomplete, hwritten, coming, coming, herrands, hemitted, ← hsum]
    abel

theorem bodies_foldl_write (lines : List ChatLine) (t : Threads L) :
    let t' := lines.foldl (fun t l => t.write (.said l.from l.text) .dm (some l.tsUnix)) t
    t'.window.dm = t.window.dm ∧ t'.server = t.server ∧ t'.stored = t.stored ∧
      t'.emitted = t.emitted ∧ t'.errands = t.errands ∧
      bodies t'.written = bodies t.written + (lines.map (·.text) : List String) := by
  induction lines generalizing t with
  | nil => exact ⟨rfl, rfl, rfl, rfl, rfl, (add_zero _).symm⟩
  | cons l lines ih =>
    obtain ⟨hdm, hserver, hstored, hemitted, herrands, hwritten⟩ :=
      ih (t.write (.said l.from l.text) .dm (some l.tsUnix))
    refine ⟨hdm, hserver, hstored, hemitted, herrands, hwritten.trans ?_⟩
    rw [write, bodies_append, add_assoc]
    rfl

theorem Tidy.answered (h : t.Tidy) (hk : t.errands[k]? = some e) {now : ℕ}
    (hs : (t.goOn k []).answer now e = some t') : t'.Tidy := by
  have hleft : (t.goOn k []).errands = t.errands.eraseIdx k := List.append_nil _
  have hremark : ∀ (text : LineText) (kind : LogKind) (ts : Option ℕ), kind ≠ .dm →
      bodies (t.written ++ [⟨t.window.nextId, text, kind, ts⟩]) = bodies t.written + 0 := by
    intro text kind ts hkind
    rw [bodies_append]
    cases kind with
    | dm => exact absurd rfl hkind
    | _ => rfl
  cases e with
  | fetching peer name => cases hs
  | sending peer text ref => cases hs
  | fetched name answer =>
    cases answer with
    | error error => cases hs; exact h.done hk rfl rfl rfl rfl rfl hleft (add_zero _).symm
    | ok lines =>
      cases lines with
      | nil => cases hs; exact h.done hk rfl rfl rfl rfl rfl hleft (hremark _ _ _ (by simp))
      | cons l lines =>
        cases hs
        obtain ⟨hdm, hserver, hstored, hemitted, herrands, hwritten⟩ :=
          bodies_foldl_write (l :: lines) (t.goOn k [])
        exact h.done hk rfl hdm hserver hstored hemitted (herrands.trans hleft) hwritten
  | sent text ref answer =>
    cases ref with
    | none =>
      cases answer with
      | ok => cases hs; exact h.done hk rfl rfl rfl rfl rfl hleft (bodies_append _ _)
      | error error => cases hs; exact h.done hk rfl rfl rfl rfl rfl hleft (hremark _ _ _ (by simp))
    | some ref =>
      cases answer with
      | ok => cases hs; exact h.done hk rfl rfl rfl rfl rfl hleft (add_zero _).symm
      | error error => cases hs; exact h.done hk rfl rfl rfl rfl rfl hleft (add_zero _).symm

theorem putDown_eq (dm : DmPayload) (now : ℕ) :
    ∃ stored, t.putDown dm now = { t with stored } := by
  unfold putDown
  split <;> exact ⟨_, rfl⟩

/-- A message of the peer is put down at the end of the thread, and is on its way to it; one of
somebody else is not. -/
theorem Shown.received (h : t.Shown peer) (dm : DmPayload) (now : ℕ) :
    Shown { t.putDown dm now with emitted := t.emitted ++ [dm] } peer := by
  obtain ⟨server, older, newer, hserver, hstored, hlong, hall⟩ := h.complete
  have hput : t.putDown dm now =
      t.append server dm.fromPubkey ⟨now / 1000, .dm, dm.fromName, dm.text⟩ := by
    simp only [putDown, hserver]
  rw [hput]
  have hcoming : bodies t.written + ((t.errands.map owed).sum +
      saidBy peer (t.emitted ++ [dm])) =
      (newer.map (·.text) : List String) + saidBy peer [dm] := by
    rw [saidBy_append, ← hall, coming, add_assoc, add_assoc]
  by_cases hpeer : dm.fromPubkey = peer
  · refine ⟨h.errands, server, older, newer ++ [⟨now / 1000, .dm, dm.fromName, dm.text⟩], hserver,
      ?_, ?_, hcoming.trans ?_⟩
    · show Function.update _ _ _ _ = _
      rw [← hpeer, Function.update_self, hpeer, hstored, List.append_assoc]
    · rw [List.length_append]
      exact hlong.imp_right fun hlong => Nat.le_add_right_of_le hlong
    · rw [saidBy_singleton, if_pos hpeer, List.map_append, ← Multiset.coe_add, List.map_singleton]
      rfl
  · refine ⟨h.errands, server, older, newer, hserver, ?_, hlong, hcoming.trans ?_⟩
    · show Function.update _ _ _ _ = _
      rw [Function.update_of_ne fun heq => hpeer (congrArg Prod.snd heq).symm, hstored]
    · rw [saidBy_singleton, if_neg hpeer, add_zero]

/-- The drain task gets a message. -/
theorem Tidy.received (h : t.Tidy) (dm : DmPayload) (now : ℕ)
    (hcalm : t.Open dm.fromPubkey → t.errands.any reads = false) :
    Tidy { t.putDown dm now with emitted := t.emitted ++ [dm] } := by
  obtain ⟨stored, hput⟩ := putDown_eq (t := t) dm now
  cases h with
  | closed hdm h =>
    rw [hput]
    exact .closed hdm h
  | waiting open' hdm h =>
    rw [hput]
    refine .waiting open' hdm ⟨h.errands, h.reading, h.written, ?_⟩
    intro dm' hdm'
    rcases List.mem_append.1 hdm' with hold | hnew
    · exact h.emitted dm' hold
    · rw [List.mem_singleton.1 hnew]
      rintro heq
      have hreads := hcalm (heq ▸ congrArg (Option.map Dm.pubkeyHex) hdm)
      rw [h.any_reads] at hreads
      cases hreads
  | shown open' hdm h =>
    refine .shown open' ?_ (h.received dm now)
    rw [hput]
    exact hdm

/-- A message reaches the window. -/
theorem Tidy.delivered (h : t.Tidy) {now : ℕ} (hs : t.step (.delivered now) = some t') :
    t'.Tidy := by
  unfold step at hs
  cases hemitted : t.emitted with
  | nil =>
    rw [hemitted] at hs
    cases hs
  | cons dm emitted =>
    rw [hemitted] at hs
    cases hs
    have hsub : ∀ dm' ∈ emitted, dm' ∈ t.emitted := fun dm' hdm' =>
      hemitted ▸ List.mem_cons_of_mem dm hdm'
    have htake : (t.window.take now
        (.directMessage dm.fromPubkey dm.fromName dm.text)).dm = t.window.dm := by
      simp only [AppState.take]
      split <;> rfl
    cases h with
    | closed hdm h => exact .closed (htake.trans hdm) h
    | waiting open' hdm h =>
      refine .waiting open' (htake.trans hdm) ⟨h.errands, h.reading, ?_,
        fun dm' hdm' => h.emitted dm' (hsub dm' hdm')⟩
      have hne : dm.fromPubkey ≠ open'.pubkeyHex :=
        h.emitted dm (hemitted ▸ List.mem_cons_self)
      dsimp only
      rw [hdm, Option.map_some, if_neg fun heq => hne (Option.some.inj heq).symm, h.written]
    | shown open' hdm h =>
      obtain ⟨server, older, newer, hserver, hstored, hlong, hall⟩ := h.complete
      refine .shown open' (htake.trans hdm)
        ⟨h.errands, server, older, newer, hserver, hstored, hlong, ?_⟩
      have hcons : saidBy open'.pubkeyHex t.emitted =
          saidBy open'.pubkeyHex [dm] + saidBy open'.pubkeyHex emitted := by
        rw [← saidBy_append, hemitted]
        rfl
      rw [← hall, coming, coming, hcons, saidBy_singleton]
      dsimp only
      rw [hdm, Option.map_some]
      by_cases hpeer : dm.fromPubkey = open'.pubkeyHex
      · rw [if_pos (congrArg some hpeer.symm), if_pos hpeer, bodies_append]
        have hone : bodies [⟨t.window.nextId, .said dm.fromName dm.text, .dm,
            some (now / 1000)⟩] = {dm.text} := rfl
        rw [hone]
        abel
      · rw [if_neg fun heq => hpeer (Option.some.inj heq).symm, if_neg hpeer, zero_add]

/-- The backend goes elsewhere while no thread is open. -/
theorem Tidy.moved (h : t.Tidy) {server : Option String}
    (hcalm : t.window.dm = none ∨ server = t.server) : Tidy { t with server } := by
  rcases hcalm with hnone | rfl
  · cases h with
    | closed hdm h => exact .closed hdm h
    | waiting dm hdm h | shown dm hdm h =>
      rw [hnone] at hdm
      cases hdm
  · exact h

/-! ## The window on its own -/

theorem take_keeps (s : AppState L) (now : ℕ) (event : BackendEvent L)
    (h : ∀ pubkey name text, event ≠ .directMessage pubkey name text) :
    (s.take now event).dm = s.dm ∧ (s.take now event).dmLog = s.dmLog := by
  cases event with
  | connectionState c => cases c <;> exact ⟨rfl, rfl⟩
  | directMessage pubkey name text => exact absurd rfl (h pubkey name text)
  | nameChanged oldName newName =>
    simp only [AppState.take]
    split <;> exact ⟨rfl, rfl⟩
  | echoTestResult r =>
    simp only [AppState.take, AppState.soundCheck]
    split
    · exact ⟨rfl, rfl⟩
    · split
      · exact ⟨rfl, rfl⟩
      · split <;> exact ⟨rfl, rfl⟩
  | deviceAdded d =>
    simp only [AppState.take]
    split <;> exact ⟨rfl, rfl⟩
  | devLog level target message =>
    simp only [AppState.take]
    split <;> exact ⟨rfl, rfl⟩
  | _ => exact ⟨rfl, rfl⟩

/-- Nothing else that happens to the window touches the thread. -/
theorem other_keeps {e : FrontendEvent L} (hs : t.step (.other e) = some t') :
    ∃ window, t' = { t with window } ∧ window.dm = t.window.dm ∧
      window.dmLog = t.window.dmLog := by
  cases e with
  | emitted event now =>
    cases event with
    | directMessage pubkey name text => cases hs
    | _ =>
      cases hs
      exact ⟨_, rfl, take_keeps t.window now _ (by simp)⟩
  | watchdog now =>
    cases hs
    refine ⟨_, rfl, ?_⟩
    simp only [AppState.step, AppState.watchdog]
    split <;> exact ⟨rfl, rfl⟩
  | initialStatus st =>
    cases hs
    refine ⟨_, rfl, ?_⟩
    simp only [AppState.step, AppState.fetchInitialStatus]
    split <;> exact ⟨rfl, rfl⟩
  | openDm pubkey name => cases hs
  | closeDm => cases hs
  | dmNote text kind ts => cases hs
  | _ =>
    cases hs
    exact ⟨_, rfl, rfl, rfl⟩

/-! ## Runs -/

/-- **One step** of a calm run. -/
theorem Tidy.step (h : t.Tidy) {e : ThreadEvent L} (hcalm : t.Calm e)
    (hs : t.step e = some t') : t'.Tidy := by
  cases e with
  | opened peer name =>
    cases hs
    exact Tidy.opened hcalm.1 name hcalm.2
  | closed =>
    cases hs
    exact .closed rfl hcalm
  | typed text now =>
    simp only [Threads.step] at hs
    split at hs
    · rename_i dm hdm
      cases hs
      exact h.sending fun _ => ⟨dm, hdm, rfl⟩
    · split at hs <;> cases hs <;> exact h.window rfl
  | whispered ref peer text =>
    cases hs
    exact h.sending fun hnone => by cases hnone
  | fetched k =>
    simp only [Threads.step] at hs
    split at hs
    · rename_i peer name server hk hserver
      cases hs
      exact h.fetched hserver hk
    · cases hs
  | fetchFailed k error => exact absurd hcalm id
  | sent k self now =>
    simp only [Threads.step] at hs
    simp only [Calm] at hcalm
    split at hs
    · rename_i peer text ref server hk hserver
      cases hs
      exact h.sent hserver hk (hcalm (peer, ref) (by rw [hk]; rfl)) _ rfl
    · cases hs
  | sendFailed k error =>
    simp only [Threads.step] at hs
    split at hs
    · rename_i peer text ref hk
      cases hs
      exact h.sendFailed hk error
    · cases hs
  | answered k now =>
    obtain ⟨e, hk, hs⟩ := Option.bind_eq_some_iff.1 hs
    exact h.answered hk hs
  | received dm now =>
    cases hs
    exact h.received dm now hcalm
  | delivered now => exact h.delivered hs
  | moved server =>
    cases hs
    exact h.moved hcalm
  | other e =>
    obtain ⟨window, rfl, hdm, -⟩ := other_keeps hs
    exact h.window hdm

/-- The window keeps the newest lines of what has been written to the thread. -/
def Kept (t : Threads L) : Prop := t.window.dmLog = t.written.rtake feedCapacity

theorem feed_rtake (lines : List LogLine) (line : LogLine) :
    feed (lines.rtake feedCapacity) line = (lines ++ [line]).rtake feedCapacity := by
  have hnewest : ∀ (n : ℕ) (newest : List LogLine),
      (line :: newest.take n).take n = (line :: newest).take n := by
    intro n newest
    cases n with
    | zero => rfl
    | succ n => rw [List.take_succ_cons, List.take_succ_cons, List.take_take, Nat.min_eq_left
        (Nat.le_succ n)]
  rw [AppState.feed_eq]
  simp only [List.rtake_eq_reverse_take_reverse, List.reverse_append, List.reverse_reverse,
    List.reverse_singleton, List.singleton_append, List.reverse_inj]
  exact hnewest feedCapacity lines.reverse

theorem Kept.write (h : t.Kept) (text : LineText) (kind : LogKind) (ts : Option ℕ) :
    (t.write text kind ts).Kept := by
  show feed t.window.dmLog _ = _
  rw [show t.window.dmLog = _ from h, feed_rtake]
  rfl

theorem Kept.step (h : t.Kept) {e : ThreadEvent L} (hs : t.step e = some t') : t'.Kept := by
  cases e with
  | opened peer name => cases hs; exact (List.rtake_nil _).symm
  | closed => cases hs; exact (List.rtake_nil _).symm
  | typed text now =>
    simp only [Threads.step] at hs
    split at hs
    · cases hs
      exact h
    · split at hs <;> cases hs <;> exact h
  | whispered ref peer text => cases hs; exact h
  | fetched k | fetchFailed k error | sent k self now | sendFailed k error =>
    simp only [Threads.step] at hs
    split at hs
    · cases hs
      exact h
    · cases hs
  | answered k now =>
    obtain ⟨e, -, hs⟩ := Option.bind_eq_some_iff.1 hs
    have hgoOn : (t.goOn k []).Kept := h
    cases e with
    | fetching peer name => cases hs
    | sending peer text ref => cases hs
    | fetched name answer =>
      cases answer with
      | error error => cases hs; exact h
      | ok lines =>
        cases lines with
        | nil => cases hs; exact hgoOn.write _ _ _
        | cons l lines =>
          cases hs
          generalize t.goOn k [] = u at hgoOn
          generalize l :: lines = ls
          induction ls generalizing u with
          | nil => exact hgoOn
          | cons l ls ih => exact ih _ (hgoOn.write _ _ _)
    | sent text ref answer =>
      cases ref <;> cases answer <;> cases hs <;>
        first | exact hgoOn.write _ _ _ | exact h
  | received dm now =>
    cases hs
    obtain ⟨stored, hput⟩ := putDown_eq (t := t) dm now
    rw [hput]
    exact h
  | moved server => cases hs; exact h
  | delivered now =>
    simp only [Threads.step] at hs
    split at hs
    · cases hs
    · cases hs
      show (t.window.take now _).dmLog = _
      simp only [AppState.take]
      split
      · show feed t.window.dmLog _ = _
        rw [show t.window.dmLog = _ from h, feed_rtake]
      · exact h
  | other e =>
    obtain ⟨window, rfl, -, hdmLog⟩ := other_keeps hs
    exact hdmLog.trans h

/-- **A line is shown twice** that comes between the opening of its thread and the reading of its
history. -/
theorem shown_twice : ∃ t : Threads ℕ, runFrom step (init (some "a:7100") fun _ => [])
    [.opened "b0" "bob", .received ⟨"b0", "bob", "hi"⟩ 0, .fetched 0, .answered 0 0,
      .delivered 0] = some t ∧
      (t.stored ("a:7100", "b0")).map (·.text) = ["hi"] ∧ bodies t.written = {"hi", "hi"} := by
  refine ⟨_, rfl, rfl, rfl⟩

/-- **A line is shown elsewhere** whose sending takes until another thread is open. -/
theorem shown_elsewhere : ∃ t : Threads ℕ, runFrom step (init (some "a:7100") fun _ => [])
    [.opened "a0" "ann", .fetched 0, .answered 0 0, .typed "for ann" 0, .opened "b0" "bob",
      .sent 0 none 0, .answered 1 0] = some t ∧
      t.Open "b0" ∧ t.stored ("a:7100", "b0") = [] ∧ bodies t.written = {"for ann"} := by
  refine ⟨_, rfl, rfl, rfl, rfl⟩

/-- **A line is not shown at all** that `/dm` sends to the thread that is open. -/
theorem not_shown : ∃ t : Threads ℕ, runFrom step (init (some "a:7100") fun _ => [])
    [.opened "b0" "bob", .fetched 0, .answered 0 0, .whispered "b0" "b0" "psst", .sent 0 none 0,
      .answered 0 0] = some t ∧
      (t.stored ("a:7100", "b0")).map (·.text) = ["psst"] ∧ bodies t.written = 0 := by
  refine ⟨_, rfl, rfl, rfl⟩

end Threads

end Desktop
end TcVoice
