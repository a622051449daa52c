import TcVoice.Server.Tcp

/-!
# The input line and the message log

What the terminal client makes of keys: `App::update_autocomplete`, `App::add_message`,
`poll_event` and the part of `draw_messages` that picks the lines, of `crates/client/src/tui.rs`.

* `Screen`, `Screen.pollEvent` — the fields that keys change; `none` is an index out of range.
* `Screen.InRange` — what every such index is kept within.
* `Screen.runs_through` — **no sequence of keys, messages and frames is an index out of range**,
  the history holds what has been entered, and the log the newest messages.
* `Screen.history_restores` — **going up the history and down again brings back what was typed**.
-/

namespace TcVoice
namespace Terminal

/-- `COMMANDS`, without the descriptions. -/
def commands : List String :=
  ["/config", "/create", "/connect", "/leave", "/mute", "/volume", "/name", "/reconnect",
    "/server", "/web", "/help", "/quit"]

/-- What `App::new` shows. -/
def banner : List String :=
  ["", "  ████████╗  ██████╗", "  ╚══██╔══╝ ██╔════╝", "     ██║    ██║     ",
    "     ██║    ██║     ", "     ██║    ╚██████╗", "     ╚═╝     ╚═════╝", "",
    "  voice chat for your terminal", "  type /help for commands", ""]

/-- `KeyCode`, as far as `poll_event` looks at it. -/
inductive KeyCode where
  | enter
  | up
  | down
  | char (c : Char)
  | backspace
  | tab
  | pageUp
  | pageDown
  | home
  | «end»
  | esc
  | other
  deriving DecidableEq, Repr

/-- `KeyEvent`; `press` is its kind. -/
structure KeyEvent where
  code : KeyCode
  control : Bool
  press : Bool
  deriving DecidableEq, Repr

/-- `Action`. -/
inductive Action where
  | command (text : String)
  | quit
  | none
  deriving DecidableEq, Repr

/-- `App`, as far as keys, messages and the log are concerned. -/
structure Screen where
  input : String
  history : List String
  historyPos : Option ℕ
  savedInput : String
  messages : List String
  autocomplete : List ℕ
  autocompleteSel : ℕ
  scrollOffset : ℕ
  matrixMode : Bool

namespace Screen

/-- `App::new`. -/
def new : Screen := ⟨"", [], none, "", banner, [], 0, 0, false⟩

variable (app : Screen)

/-- `update_autocomplete`. -/
def updateAutocomplete : Screen :=
  if "/".toList.isPrefixOf app.input.toList && !app.input.toList.contains ' ' then
    let autocomplete := (commands.zipIdx.filter fun (cmd, _) =>
      app.input.toList.isPrefixOf cmd.toList).map fun (_, i) => i
    { app with
      autocomplete
      autocompleteSel :=
        if autocomplete.length ≤ app.autocompleteSel then autocomplete.length - 1
        else app.autocompleteSel }
  else { app with autocomplete := [], autocompleteSel := 0 }

/-- `add_message`. -/
def addMessage (msg : String) : Screen :=
  let messages := app.messages ++ [msg]
  { app with
    messages :=
      if Config.maxMessageHistory < messages.length then
        messages.drop (messages.length - Config.maxMessageHistory)
      else messages
    scrollOffset := 0 }

/-- The selected entry of the popup goes into the input line, with `suffix` behind it. -/
def complete (suffix : String) : Option Screen :=
  app.autocomplete[app.autocompleteSel]?.bind fun idx =>
    commands[idx]?.map fun cmd => { app with input := cmd ++ suffix }

/-- An entry of the history goes into the input line. -/
def recallAt (pos : ℕ) : Option Screen :=
  app.history[pos]?.map fun line => { app with historyPos := some pos, input := line }

/-- `KeyCode::Enter`. -/
def enter : Screen × Action :=
  let trimmed := Server.trim app.input
  let app := { app with autocomplete := [], autocompleteSel := 0, input := "" }
  if trimmed ≠ "" then
    ({ app with history := app.history ++ [trimmed], historyPos := none, savedInput := "" },
      .command trimmed)
  else (app, .none)

/-- `KeyCode::Up`. -/
def up : Option Screen :=
  if app.autocomplete ≠ [] then
    complete { app with
      autocompleteSel :=
        if 0 < app.autocompleteSel then app.autocompleteSel - 1 else app.autocompleteSel } ""
  else if app.history ≠ [] then
    match app.historyPos with
    | none => recallAt { app with savedInput := app.input } (app.history.length - 1)
    | some pos => if 0 < pos then app.recallAt (pos - 1) else some app
  else some app

/-- `KeyCode::Down`. -/
def down : Option Screen :=
  if app.autocomplete ≠ [] then
    complete { app with
      autocompleteSel :=
        if app.autocompleteSel + 1 < app.autocomplete.length then app.autocompleteSel + 1
        else app.autocompleteSel } ""
  else
    match app.historyPos with
    | none => some app
    | some pos =>
      if pos + 1 < app.history.length then app.recallAt (pos + 1)
      else some { app with historyPos := none, input := app.savedInput, savedInput := "" }

/-- A page of the log. -/
def page : ℕ := 10

/-- The keys that have no modifier, or one that does not matter. -/
def press : KeyCode → Option (Screen × Action)
  | .enter => some app.enter
  | .up => app.up.map fun app => (app, .none)
  | .down => app.down.map fun app => (app, .none)
  | .char c =>
    let app := { app with input := app.input.push c, historyPos := none }
    some (app.updateAutocomplete, .none)
  | .backspace =>
    let app := { app with input := .ofList app.input.toList.dropLast }
    some (app.updateAutocomplete, .none)
  | .tab =>
    if app.autocomplete ≠ [] then
      (app.complete " ").map fun app =>
        ({ app with autocomplete := [], autocompleteSel := 0 }, .none)
    else some (app, .none)
  | .pageUp =>
    let maxOffset := app.messages.length - 1
    some ({ app with scrollOffset := min (app.scrollOffset + page) maxOffset }, .none)
  | .pageDown => some ({ app with scrollOffset := app.scrollOffset - page }, .none)
  | .home => some ({ app with scrollOffset := app.messages.length - 1 }, .none)
  | .end => some ({ app with scrollOffset := 0 }, .none)
  | .esc =>
    if app.autocomplete ≠ [] then
      some ({ app with autocomplete := [], autocompleteSel := 0 }, .none)
    else some (app, .quit)
  | .other => some (app, .none)

/-- `poll_event`, of a key that has been read. -/
def pollEvent (key : KeyEvent) : Option (Screen × Action) :=
  if !key.press then some (app, .none)
  else if key.control && key.code == .char 'c' then some (app, .quit)
  else if app.matrixMode then
    some (if key.code == .esc then { app with matrixMode := false } else app, .none)
  else if key.control && key.code == .char 'm' then some (app, .command "/mute")
  else app.press key.code

/-- `draw_messages`: the lines that are shown in so many rows. -/
def drawMessages (visible : ℕ) : Option (List String) :=
  let total := app.messages.length
  let «end» := total - app.scrollOffset
  let start := «end» - visible
  if start ≤ «end» ∧ «end» ≤ total then some ((app.messages.take «end»).drop start) else none

/-! ## Everything in range -/

/-- What the indices are kept within. -/
structure InRange (app : Screen) : Prop where
  selected : app.autocomplete ≠ [] → app.autocompleteSel < app.autocomplete.length
  offered : ∀ i ∈ app.autocomplete, i < commands.length
  recalled : ∀ pos, app.historyPos = some pos → pos < app.history.length
  scrolled : app.scrollOffset ≤ app.messages.length - 1

variable {app}

theorem inRange_new : InRange new where
  selected h := absurd rfl h
  offered i hi := by cases hi
  recalled pos h := by cases h
  scrolled := by decide

/-- Without a popup nothing is selected. -/
theorem InRange.closed (h : app.InRange) (sel : ℕ) :
    InRange { app with autocomplete := [], autocompleteSel := sel } where
  selected hne := absurd rfl hne
  offered i hi := by cases hi
  recalled := h.recalled
  scrolled := h.scrolled

theorem InRange.updateAutocomplete (h : app.InRange) : app.updateAutocomplete.InRange := by
  unfold Screen.updateAutocomplete
  split
  · refine ⟨?_, ?_, h.recalled, h.scrolled⟩
    · intro hne
      have hpos := List.length_pos_of_ne_nil hne
      dsimp only at hpos ⊢
      split <;> omega
    · intro i hi
      obtain ⟨⟨cmd, j⟩, hmem, rfl⟩ := List.mem_map.1 hi
      exact (List.getElem?_eq_some_iff.1
        (List.mem_zipIdx_iff_getElem?.1 (List.mem_filter.1 hmem).1)).1
  · exact h.closed 0

theorem InRange.addMessage (h : app.InRange) (msg : String) : (app.addMessage msg).InRange :=
  ⟨h.selected, h.offered, h.recalled, Nat.zero_le _⟩

/-- The entry of the popup that is selected can be looked up. -/
theorem InRange.complete (h : app.InRange) (hne : app.autocomplete ≠ []) (suffix : String) :
    ∃ input, app.complete suffix = some { app with input } := by
  have hsel := h.selected hne
  have hcmd := h.offered _ (List.getElem_mem hsel)
  refine ⟨commands[app.autocomplete[app.autocompleteSel]] ++ suffix, ?_⟩
  simp only [Screen.complete, List.getElem?_eq_getElem hsel, Option.bind_some,
    List.getElem?_eq_getElem hcmd, Option.map_some]

/-- The entry of the history can be. -/
theorem InRange.recallAt (h : app.InRange) (pos : ℕ) (hpos : pos < app.history.length) :
    ∃ input, app.recallAt pos = some { app with historyPos := some pos, input } ∧
      InRange { app with historyPos := some pos, input } := by
  refine ⟨app.history[pos], ?_, h.selected, h.offered, ?_, h.scrolled⟩
  · simp only [Screen.recallAt, List.getElem?_eq_getElem hpos, Option.map_some]
  · rintro _ ⟨⟩
    exact hpos

theorem InRange.up (h : app.InRange) : ∃ app', app.up = some app' ∧ app'.InRange ∧
    app'.history = app.history ∧ app'.messages = app.messages := by
  unfold Screen.up
  split
  · rename_i hne
    have hsel := h.selected hne
    have hmoved : InRange { app with autocompleteSel :=
        if 0 < app.autocompleteSel then app.autocompleteSel - 1 else app.autocompleteSel } := by
      refine ⟨fun _ => ?_, h.offered, h.recalled, h.scrolled⟩
      dsimp only
      split <;> omega
    obtain ⟨input, heq⟩ := hmoved.complete hne ""
    exact ⟨_, heq, ⟨hmoved.selected, h.offered, h.recalled, h.scrolled⟩, rfl, rfl⟩
  · split
    · rename_i hne
      have hpos := List.length_pos_of_ne_nil hne
      split
      · have hsaved : InRange { app with savedInput := app.input } :=
          ⟨h.selected, h.offered, h.recalled, h.scrolled⟩
        obtain ⟨input, heq, hin⟩ := hsaved.recallAt (app.history.length - 1)
          (by show _ < app.history.length; omega)
        exact ⟨_, heq, hin, rfl, rfl⟩
      · rename_i pos hat
        split
        · obtain ⟨input, heq, hin⟩ := h.recallAt (pos - 1)
            (by have := h.recalled pos hat; omega)
          exact ⟨_, heq, hin, rfl, rfl⟩
        · exact ⟨app, rfl, h, rfl, rfl⟩
    · exact ⟨app, rfl, h, rfl, rfl⟩

theorem InRange.down (h : app.InRange) : ∃ app', app.down = some app' ∧ app'.InRange ∧
    app'.history = app.history ∧ app'.messages = app.messages := by
  unfold Screen.down
  split
  · rename_i hne
    have hsel := h.selected hne
    have hmoved : InRange { app with autocompleteSel :=
        if app.autocompleteSel + 1 < app.autocomplete.length then app.autocompleteSel + 1
        else app.autocompleteSel } := by
      refine ⟨fun _ => ?_, h.offered, h.recalled, h.scrolled⟩
      dsimp only
      split <;> omega
    obtain ⟨input, heq⟩ := hmoved.complete hne ""
    exact ⟨_, heq, ⟨hmoved.selected, h.offered, h.recalled, h.scrolled⟩, rfl, rfl⟩
  · split
    · exact ⟨app, rfl, h, rfl, rfl⟩
    · split
      · rename_i hlt
        obtain ⟨input, heq, hin⟩ := h.recallAt _ hlt
        exact ⟨_, heq, hin, rfl, rfl⟩
      · exact ⟨_, rfl, ⟨h.selected, h.offered, (fun _ hnone => by cases hnone), h.scrolled⟩,
          rfl, rfl⟩

/-- The lines that are shown are lines of the log. -/
theorem drawMessages_isSome (app : Screen) (visible : ℕ) :
    (app.drawMessages visible).isSome = true := by
  unfold drawMessages
  dsimp only
  rw [if_pos ⟨Nat.sub_le _ _, Nat.sub_le _ _⟩]
  rfl

/-! ## Keys, messages and frames -/

/-- What happens to the screen. -/
inductive ScreenEvent where
  | key (key : KeyEvent)
  | message (msg : String)
  | frame (visible : ℕ)
  /-- `cmd_matrix`. -/
  | matrix

/-- A run: what every key does, unless an index is out of range. -/
def play (app : Screen) : List ScreenEvent → Option (Screen × List (KeyEvent × Action))
  | [] => some (app, [])
  | .key key :: es =>
    (app.pollEvent key).bind fun (app, action) =>
      (play app es).map fun (app, done) => (app, (key, action) :: done)
  | .message msg :: es => play (app.addMessage msg) es
  | .frame visible :: es => (app.drawMessages visible).bind fun _ => play app es
  | .matrix :: es => play { app with matrixMode := !app.matrixMode } es

/-- The commands that are entered. -/
def entered (done : List (KeyEvent × Action)) : List String :=
  done.filterMap fun
    | (⟨.enter, _, _⟩, .command text) => some text
    | _ => none

/-- The messages that come. -/
def said (es : List ScreenEvent) : List String :=
  es.filterMap fun
    | .message msg => some msg
    | _ => none

/-- The newest messages, as many as the log holds. -/
def newestMessages (all : List String) : List String :=
  all.drop (all.length - Config.maxMessageHistory)

theorem messages_addMessage {all : List String} (h : app.messages = newestMessages all)
    (msg : String) : (app.addMessage msg).messages = newestMessages (all ++ [msg]) := by
  have hsplit : newestMessages all ++ [msg] =
      (all ++ [msg]).drop (all.length - Config.maxMessageHistory) :=
    (List.drop_append_of_le_length (Nat.sub_le _ _)).symm
  have hlength : (newestMessages all ++ [msg]).length =
      all.length - (all.length - Config.maxMessageHistory) + 1 := by
    rw [List.length_append, newestMessages, List.length_drop]
    rfl
  have hall : newestMessages (all ++ [msg]) =
      (all ++ [msg]).drop (all.length + 1 - Config.maxMessageHistory) := by
    rw [newestMessages, List.length_append]
    rfl
  simp only [addMessage, h, hlength]
  rw [hall, hsplit]
  generalize Config.maxMessageHistory = most
  split
  · have harith : all.length - most + (all.length - (all.length - most) + 1 - most) =
        all.length + 1 - most := by omega
    rw [List.drop_drop, harith]
  · have harith : all.length - most = all.length + 1 - most := by omega
    rw [harith]

/-- Keys that are not `Enter` enter nothing. -/
theorem entered_of_ne {key : KeyEvent} (h : key.code ≠ .enter) (action : Action) :
    entered [(key, action)] = [] := by
  obtain ⟨code, control, press⟩ := key
  cases code with
  | enter => exact absurd rfl h
  | _ => rfl

theorem InRange.press (h : app.InRange) (code : KeyCode) (control pressed : Bool) :
    ∃ app' action, app.press code = some (app', action) ∧ app'.InRange ∧
      app'.history = app.history ++ entered [(⟨code, control, pressed⟩, action)] ∧
      app'.messages = app.messages := by
  have hsame : ∀ {app' : Screen} {action : Action}, code ≠ .enter →
      app'.history = app.history →
      app'.history = app.history ++ entered [(⟨code, control, pressed⟩, action)] := by
    intro app' action hcode heq
    rw [entered_of_ne hcode, List.append_nil, heq]
  have hinput : ∀ (input : String) (pos : Option ℕ), pos = none ∨ pos = app.historyPos →
      InRange { app with input, historyPos := pos } := by
    rintro input pos (rfl | rfl)
    · exact ⟨h.selected, h.offered, (fun _ hnone => by cases hnone), h.scrolled⟩
    · exact ⟨h.selected, h.offered, h.recalled, h.scrolled⟩
  have hfields : ∀ app : Screen, app.updateAutocomplete.history = app.history ∧
      app.updateAutocomplete.messages = app.messages := by
    intro app
    unfold Screen.updateAutocomplete
    split <;> exact ⟨rfl, rfl⟩
  cases code with
  | enter =>
    by_cases hblank : Server.trim app.input = ""
    · have henter : app.press .enter =
          some ({ app with autocomplete := [], autocompleteSel := 0, input := "" }, .none) :=
        congrArg some (if_neg (not_not_intro hblank))
      refine ⟨_, _, henter, ?_, (List.append_nil _).symm, rfl⟩
      exact (hinput "" app.historyPos (.inr rfl)).closed 0
    · have henter : app.press .enter = some ({ app with
          autocomplete := [], autocompleteSel := 0, input := ""
          history := app.history ++ [Server.trim app.input], historyPos := none
          savedInput := "" }, .command (Server.trim app.input)) :=
        congrArg some (if_pos hblank)
      refine ⟨_, _, henter, ?_, rfl, rfl⟩
      exact ⟨(fun hne => absurd rfl hne), (fun _ hi => by cases hi),
        (fun _ hnone => by cases hnone), h.scrolled⟩
  | up =>
    obtain ⟨app', heq, hin, hhistory, hmessages⟩ := h.up
    exact ⟨app', .none, by rw [Screen.press, heq]; rfl, hin, hsame (by simp) hhistory, hmessages⟩
  | down =>
    obtain ⟨app', heq, hin, hhistory, hmessages⟩ := h.down
    exact ⟨app', .none, by rw [Screen.press, heq]; rfl, hin, hsame (by simp) hhistory, hmessages⟩
  | char c =>
    exact ⟨_, _, rfl, (hinput _ none (.inl rfl)).updateAutocomplete,
      hsame (by simp) (hfields _).1, (hfields _).2⟩
  | backspace =>
    exact ⟨_, _, rfl, (hinput _ app.historyPos (.inr rfl)).updateAutocomplete,
      hsame (by simp) (hfields _).1, (hfields _).2⟩
  | tab =>
    by_cases hclosed : app.autocomplete = []
    · have htab : app.press .tab = some (app, .none) := if_neg (not_not_intro hclosed)
      exact ⟨app, .none, htab, h, hsame (by simp) rfl, rfl⟩
    · obtain ⟨input, heq⟩ := h.complete hclosed " "
      have htab : app.press .tab = some ({ app with
          input, autocomplete := [], autocompleteSel := 0 }, .none) :=
        (if_pos hclosed).trans (by rw [heq]; rfl)
      refine ⟨_, .none, htab, ?_, hsame (by simp) rfl, rfl⟩
      exact (hinput input app.historyPos (.inr rfl)).closed 0
  | pageUp =>
    exact ⟨_, _, rfl, ⟨h.selected, h.offered, h.recalled, min_le_right _ _⟩,
      hsame (by simp) rfl, rfl⟩
  | pageDown =>
    exact ⟨_, _, rfl, ⟨h.selected, h.offered, h.recalled, (Nat.sub_le _ _).trans h.scrolled⟩,
      hsame (by simp) rfl, rfl⟩
  | home =>
    exact ⟨_, _, rfl, ⟨h.selected, h.offered, h.recalled, Nat.le_refl _⟩,
      hsame (by simp) rfl, rfl⟩
  | «end» =>
    exact ⟨_, _, rfl, ⟨h.selected, h.offered, h.recalled, Nat.zero_le _⟩,
      hsame (by simp) rfl, rfl⟩
  | esc =>
    by_cases hclosed : app.autocomplete = []
    · have hesc : app.press .esc = some (app, .quit) := if_neg (not_not_intro hclosed)
      exact ⟨app, .quit, hesc, h, hsame (by simp) rfl, rfl⟩
    · have hesc : app.press .esc =
          some ({ app with autocomplete := [], autocompleteSel := 0 }, .none) := if_pos hclosed
      exact ⟨_, _, hesc, h.closed 0, hsame (by simp) rfl, rfl⟩
  | other => exact ⟨app, .none, rfl, h, hsame (by simp) rfl, rfl⟩

/-- **A key** leaves everything in range, and only a command that is entered goes into the
history. -/
theorem InRange.pollEvent (h : app.InRange) (key : KeyEvent) :
    ∃ app' action, app.pollEvent key = some (app', action) ∧ app'.InRange ∧
      app'.history = app.history ++ entered [(key, action)] ∧ app'.messages = app.messages := by
  have hnothing : ∀ action : Action, (∀ text, action ≠ .command text) →
      entered [(key, action)] = [] := by
    intro action haction
    obtain ⟨code, control, press⟩ := key
    cases action with
    | command text => exact absurd rfl (haction text)
    | _ => cases code <;> rfl
  unfold Screen.pollEvent
  split
  · exact ⟨app, .none, rfl, h, by rw [hnothing _ (by simp), List.append_nil], rfl⟩
  split
  · exact ⟨app, .quit, rfl, h, by rw [hnothing _ (by simp), List.append_nil], rfl⟩
  split
  · split
    · exact ⟨_, _, rfl, ⟨h.selected, h.offered, h.recalled, h.scrolled⟩,
        by rw [hnothing _ (by simp), List.append_nil], rfl⟩
    · exact ⟨app, .none, rfl, h, by rw [hnothing _ (by simp), List.append_nil], rfl⟩
  split
  · rename_i hmute
    have hcode : key.code = .char 'm' := eq_of_beq (Bool.and_eq_true_iff.1 hmute).2
    exact ⟨app, _, rfl, h, by rw [entered_of_ne (by simp [hcode]), List.append_nil], rfl⟩
  · exact h.press key.code key.control key.press

/-- **Nothing the terminal sends is an index out of range.**  Every sequence of keys, messages,
frames of any height and toggles of the matrix runs through from the start; at its end the
history holds the commands that have been entered, in order, and the log the newest of the
messages, as many as it holds. -/
theorem runs_through (es : List ScreenEvent) :
    ∃ app done, play new es = some (app, done) ∧ app.InRange ∧ app.history = entered done ∧
      app.messages = newestMessages (banner ++ said es) := by
  have hrun : ∀ (es : List ScreenEvent) (app : Screen) (all : List String), app.InRange →
      app.messages = newestMessages all →
      ∃ app' done, play app es = some (app', done) ∧ app'.InRange ∧
        app'.history = app.history ++ entered done ∧
        app'.messages = newestMessages (all ++ said es) := by
    intro es
    induction es with
    | nil =>
      intro app all h hall
      exact ⟨app, [], rfl, h, (List.append_nil _).symm, by simpa [said] using hall⟩
    | cons e es ih =>
      intro app all h hall
      cases e with
      | key key =>
        obtain ⟨next, action, hkey, hnext, hhistory, hmessages⟩ := h.pollEvent key
        obtain ⟨app', done, hplay, hin, hentered, hsaid⟩ := ih next all hnext (hmessages.trans hall)
        refine ⟨app', (key, action) :: done, ?_, hin, ?_, hsaid⟩
        · rw [play, hkey, Option.bind_some]
          dsimp only
          rw [hplay]
          rfl
        · have hcons : entered ((key, action) :: done) = entered [(key, action)] ++ entered done :=
            List.filterMap_append (l := [(key, action)])
          rw [hentered, hhistory, hcons, List.append_assoc]
      | message msg =>
        obtain ⟨app', done, hplay, hin, hentered, hsaid⟩ :=
          ih (app.addMessage msg) (all ++ [msg]) (h.addMessage msg) (messages_addMessage hall msg)
        refine ⟨app', done, hplay, hin, hentered, ?_⟩
        rw [hsaid, List.append_assoc]
        rfl
      | frame visible =>
        obtain ⟨app', done, hplay, hin, hentered, hsaid⟩ := ih app all h hall
        obtain ⟨lines, hlines⟩ := Option.isSome_iff_exists.1 (app.drawMessages_isSome visible)
        refine ⟨app', done, ?_, hin, hentered, hsaid⟩
        rw [play, hlines, Option.bind_some, hplay]
      | matrix =>
        exact ih _ all ⟨h.selected, h.offered, h.recalled, h.scrolled⟩ hall
  exact hrun es new banner inRange_new (by decide)

/-! ## Up the history and down again -/

/-- One run after another. -/
theorem play_append {mid last : Screen} {es es' : List ScreenEvent}
    {done done' : List (KeyEvent × Action)} (h : play app es = some (mid, done))
    (h' : play mid es' = some (last, done')) :
    play app (es ++ es') = some (last, done ++ done') := by
  induction es generalizing app done with
  | nil =>
    cases h
    exact h'
  | cons e es ih =>
    cases e with
    | key key =>
      simp only [List.cons_append, play] at h ⊢
      cases hkey : app.pollEvent key with
      | none => simp [hkey] at h
      | some next =>
        rw [hkey, Option.bind_some] at h
        obtain ⟨⟨mid', rest⟩, hrest, hpair⟩ := Option.map_eq_some_iff.1 h
        cases hpair
        rw [Option.bind_some, ih hrest]
        rfl
    | message msg => exact ih h
    | frame visible =>
      simp only [List.cons_append, play] at h ⊢
      cases hlines : app.drawMessages visible with
      | none => simp [hlines] at h
      | some lines =>
        rw [hlines, Option.bind_some] at h
        exact ih h
    | matrix => exact ih h

/-- The same key so many times. -/
def held (key : KeyEvent) (n : ℕ) : List ScreenEvent := List.replicate n (.key key)

theorem play_held_succ {key : KeyEvent} {app' : Screen} {action : Action}
    (h : app.pollEvent key = some (app', action)) (n : ℕ) :
    play app (held key (n + 1)) =
      (play app' (held key n)).map fun (app, done) => (app, (key, action) :: done) := by
  rw [held, List.replicate_succ, play, h]
  rfl

/-- A key that does nothing does nothing when it is held. -/
theorem play_held_idle {key : KeyEvent} (h : app.pollEvent key = some (app, .none)) (n : ℕ) :
    play app (held key n) = some (app, List.replicate n (key, .none)) := by
  induction n with
  | zero => rfl
  | succ n ih =>
    rw [play_held_succ h, ih]
    rfl

/-- The arrow keys. -/
def upKey : KeyEvent := ⟨.up, false, true⟩
def downKey : KeyEvent := ⟨.down, false, true⟩

theorem pollEvent_upKey (hmatrix : app.matrixMode = false) :
    app.pollEvent upKey = app.up.map fun app => (app, .none) := by
  simp [pollEvent, upKey, press, hmatrix]

theorem pollEvent_downKey (hmatrix : app.matrixMode = false) :
    app.pollEvent downKey = app.down.map fun app => (app, .none) := by
  simp [pollEvent, downKey, press, hmatrix]

/-- The state after going up to an entry of the history from an input line that is kept. -/
def walked (app : Screen) (pos : ℕ) : Screen :=
  { app with savedInput := app.input, historyPos := some pos, input := app.history.getD pos "" }

theorem recallAt_eq (app : Screen) {pos : ℕ} (hpos : pos < app.history.length) :
    app.recallAt pos =
      some { app with historyPos := some pos, input := app.history.getD pos "" } := by
  simp [recallAt, hpos]

section Walk

variable (hmatrix : app.matrixMode = false) (hclosed : app.autocomplete = [])
  (hfresh : app.historyPos = none)

include hclosed hfresh in
theorem up_fresh (hhistory : app.history ≠ []) :
    app.up = some (app.walked (app.history.length - 1)) := by
  have hlength := List.length_pos_of_ne_nil hhistory
  have hrecall := recallAt_eq { app with savedInput := app.input }
    (show app.history.length - 1 < app.history.length by omega)
  rw [up, if_neg (not_not_intro hclosed), if_pos hhistory, hfresh]
  exact hrecall

include hclosed in
theorem up_walked (pos : ℕ) (hpos : pos < app.history.length) :
    (app.walked pos).up = some (app.walked (pos - 1)) := by
  have hhistory : app.history ≠ [] := List.ne_nil_of_length_pos (Nat.zero_lt_of_lt hpos)
  have hrecall := recallAt_eq (app.walked pos)
    (show pos - 1 < app.history.length by omega)
  have hkept : (app.walked pos).autocomplete = [] := hclosed
  have hsame : (app.walked pos).history ≠ [] := hhistory
  rw [up, if_neg (not_not_intro hkept), if_pos hsame]
  cases pos with
  | zero => rfl
  | succ pos => exact hrecall

include hclosed hfresh in
theorem down_walked (pos : ℕ) :
    (app.walked pos).down =
      if pos + 1 < app.history.length then some (app.walked (pos + 1))
      else some { app with savedInput := "" } := by
  have hkept : (app.walked pos).autocomplete = [] := hclosed
  rw [down, if_neg (not_not_intro hkept)]
  show (if pos + 1 < app.history.length then (app.walked pos).recallAt (pos + 1) else _) = _
  split
  · rename_i hlt
    exact recallAt_eq (app.walked pos) hlt
  · rw [← hfresh]
    rfl

include hclosed hfresh in
theorem down_fresh : app.down = some app := by
  rw [down, if_neg (not_not_intro hclosed), hfresh]

include hmatrix hclosed in
/-- Further up, as far as the oldest entry. -/
theorem play_up (pos : ℕ) (hpos : pos < app.history.length) (m : ℕ) :
    play (app.walked pos) (held upKey m) =
      some (app.walked (pos - m), List.replicate m (upKey, .none)) := by
  induction m generalizing pos with
  | zero => rfl
  | succ m ih =>
    have hkey : (app.walked pos).pollEvent upKey =
        some (app.walked (pos - 1), .none) := by
      have hkept : (app.walked pos).matrixMode = false := hmatrix
      rw [pollEvent_upKey hkept, up_walked hclosed pos hpos]
      rfl
    have hsum : pos - 1 - m = pos - (m + 1) := by omega
    rw [play_held_succ hkey, ih (pos - 1) (by omega), hsum]
    rfl

include hmatrix hclosed hfresh in
/-- Down, past the newest entry. -/
theorem play_down (pos : ℕ) (hpos : pos < app.history.length) (n : ℕ)
    (hn : app.history.length - pos ≤ n) :
    play (app.walked pos) (held downKey n) =
      some ({ app with savedInput := "" }, List.replicate n (downKey, .none)) := by
  induction n generalizing pos with
  | zero => omega
  | succ n ih =>
    have hkey : (app.walked pos).pollEvent downKey =
        (if pos + 1 < app.history.length then some (app.walked (pos + 1))
          else some { app with savedInput := "" }).map fun app => (app, .none) := by
      have hkept : (app.walked pos).matrixMode = false := hmatrix
      rw [pollEvent_downKey hkept, down_walked hclosed hfresh]
    split at hkey
    · rename_i hlt
      rw [play_held_succ hkey, ih (pos + 1) hlt (by omega)]
      rfl
    · have hdown : down { app with savedInput := "" } = some { app with savedInput := "" } :=
        down_fresh hclosed hfresh
      have hidle : pollEvent { app with savedInput := "" } downKey =
          some ({ app with savedInput := "" }, .none) := by
        have hkept : matrixMode { app with savedInput := "" } = false := hmatrix
        rw [pollEvent_downKey hkept, hdown]
        rfl
      rw [play_held_succ hkey, play_held_idle hidle]
      rfl

end Walk

/-- **Up the history and down again**: whatever stands in the input line comes back, and nothing
else has changed but the copy of it, when at least as many steps go down as have gone up. -/
theorem history_restores (m n : ℕ) (hmatrix : app.matrixMode = false)
    (hclosed : app.autocomplete = []) (hfresh : app.historyPos = none)
    (hn : min m app.history.length ≤ n) :
    ∃ savedInput, play app (held upKey m ++ held downKey n) = some ({ app with savedInput },
      List.replicate m (upKey, .none) ++ List.replicate n (downKey, .none)) := by
  have hidle : app.pollEvent downKey = some (app, .none) := by
    rw [pollEvent_downKey hmatrix, down_fresh hclosed hfresh]
    rfl
  by_cases hhistory : app.history = []
  · have hup : app.pollEvent upKey = some (app, .none) := by
      rw [pollEvent_upKey hmatrix, up, if_neg (not_not_intro hclosed),
        if_neg (not_not_intro hhistory)]
      rfl
    exact ⟨app.savedInput, play_append (play_held_idle hup m) (play_held_idle hidle n)⟩
  · cases m with
    | zero => exact ⟨app.savedInput, play_append rfl (play_held_idle hidle n)⟩
    | succ m =>
      have hlength := List.length_pos_of_ne_nil hhistory
      have hfirst : app.pollEvent upKey =
          some (app.walked (app.history.length - 1), .none) := by
        rw [pollEvent_upKey hmatrix, up_fresh hclosed hfresh hhistory]
        rfl
      have hups : play app (held upKey (m + 1)) =
          some (app.walked (app.history.length - 1 - m),
            List.replicate (m + 1) (upKey, .none)) := by
        rw [play_held_succ hfirst,
          play_up hmatrix hclosed (app.history.length - 1) (by omega) m]
        rfl
      have hdowns := play_down hmatrix hclosed hfresh (app.history.length - 1 - m) (by omega) n
        (by omega)
      exact ⟨"", play_append hups hdowns⟩

/-- Three steps up a history of two entries, and two down. -/
theorem history_restores_twoEntries :
    ∃ savedInput, play { new with input := "/na", history := ["/mute", "/leave"] }
      (held upKey 3 ++ held downKey 2) = some ({ new with
        input := "/na", history := ["/mute", "/leave"], savedInput },
      List.replicate 3 (upKey, .none) ++ List.replicate 2 (downKey, .none)) :=
  history_restores 3 2 rfl rfl rfl (by decide)

end Screen

end Terminal
end TcVoice
