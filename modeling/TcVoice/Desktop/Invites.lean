import TcVoice.Desktop.Commands
import TcVoice.Lib.Machines
import TcVoice.Shared.Invite

/-!
# Invites

A `tc://` link from the system to a connection: `apps/desktop/src-tauri/src/deeplink.rs`, which
keeps it until the window can take it, the handlers of `src/lib/wire.ts`, which ask before they
connect to a server that nobody knows, `src/components/InviteConfirm.tsx`, and `connect` of
`commands.rs`.

* `Gate` — what the links go through; `Door.step` — the gate, the window and the backend, one
  step of any of them at a time.
* `dialable_parseInvite` — the address in an invite is dialed as it is shown.
* `dialed_chosen` — **no link makes the application connect to a server that the user has not
  chosen**, in any interleaving.
* `invites_handled` — **every link is handled once**, those that are emitted in their order, but
  those that a newer one has replaced before the window was up; `lost_on_reload` is one that a
  reload loses.
-/

namespace TcVoice
namespace Desktop

open Client Machines

/-! ## The gate -/

/-- `Invite`. -/
structure Invite where
  addr : String
  channel : Option String
  deriving DecidableEq, Repr

/-- `parse_invite`. -/
def parseInvite (raw : String) : Option Invite :=
  (parseLink raw).map fun (addr, channel) => ⟨addr, channel⟩

/-- `Gate`. -/
structure Gate where
  frontendReady : Bool
  pending : Option Invite

/-- `forward`: the gate, and what is emitted. -/
def Gate.forward (gate : Gate) (raw : String) : Gate × Option Invite :=
  match parseInvite raw with
  | none => (gate, none)
  | some invite =>
    if !gate.frontendReady then ({ gate with pending := some invite }, none)
    else (gate, some invite)

/-- `take_pending_invite`. -/
def Gate.takePendingInvite (gate : Gate) : Gate × Option Invite :=
  (⟨true, none⟩, gate.pending)

/-- The address that `connect` dials. -/
def dialable (addr : String) : String :=
  match parseLink addr with
  | some (dialable, _) => dialable
  | none => if ':' ∈ addr.toList then addr else addr ++ ":" ++ toString Config.tcpPort

/-! ## The window and the backend -/

/-- A connection that is being made, and the invite it is made for. -/
structure Dialing where
  addr : String
  invite : Option Invite

/-- The address that a window shows before it knows one. -/
def defaultAddr : String := "127.0.0.1:7100"

/-- The gate, the window and the backend. -/
structure Door where
  gate : Gate
  /-- The pending invites that have been taken and have not reached the window. -/
  taken : List Invite
  /-- Invites that have been emitted and have not reached the window. -/
  emitted : List Invite
  /-- The window has subscribed. -/
  listening : Bool
  /-- Invites that wait for the list of servers, with what it says of them when it is there. -/
  asked : List (Invite × Option Bool)
  /-- `invitePrompt`. -/
  prompt : Option Invite
  /-- `serverAddr` of the window. -/
  windowAddr : String
  core : AppCore
  dialing : List Dialing
  /-- The addresses that the drain tasks serve. -/
  lines : List String

/-- What happens. -/
inductive DoorEvent where
  /-- The system opens a link. -/
  | opened (raw : String)
  /-- `subscribeAll` is done. -/
  | subscribed
  /-- The gate hears `drainPendingInvite`, and answers. -/
  | drainPendingInvite
  /-- One of its answers reaches the window, which goes on with the invite. -/
  | drained (k : ℕ)
  /-- The invite that was emitted first reaches the window. -/
  | delivered
  /-- `listServers` answers for one of the invites that wait for it, or fails. -/
  | listed (k : ℕ)
  | listFailed (k : ℕ)
  /-- `handleInvite` goes on. -/
  | resumed (k : ℕ)
  | accept
  | decline
  /-- The user names an address: in the input line, or in the list of servers. -/
  | connect (addr : String)
  /-- Connecting to the server that the window shows: by itself or as the user says. -/
  | reconnect
  | connected (k : ℕ) (conn : ServerConnection) (now : ℕ)
  | connectFailed (k : ℕ)
  /-- A drain task dials again. -/
  | redialed (k : ℕ)
  /-- The welcome of a server reaches the window. -/
  | welcomed (k : ℕ)
  /-- The window takes the address that the backend has. -/
  | status
  | reload
  /-- Anything else that changes the state of the backend. -/
  | other (e : CoreEvent)

/-- What a step does to the outside: the invites that `handleInvite` is called for, the addresses
that are dialed, and the channels that are joined for invites. -/
structure Deed where
  handled : List Invite
  dials : List String
  joins : List (Invite × String)

namespace Deed

def nothing : Deed := ⟨[], [], []⟩
def handle (invite : Invite) : Deed := ⟨[invite], [], []⟩
def dial (addr : String) : Deed := ⟨[], [addr], []⟩

end Deed

namespace Door

variable (d : Door)

/-- `connect`, up to the dialing. -/
def connect (addr : String) (invite : Option Invite) : Door × Deed :=
  let addr := dialable addr
  ({ d with core := d.core.connectTearDown addr, dialing := d.dialing ++ [⟨addr, invite⟩] },
    .dial addr)

/-- `handleInvite`, up to the list of servers. -/
def handleInvite (invite : Invite) : Door × Deed :=
  ({ d with asked := d.asked ++ [(invite, none)] }, .handle invite)

/-- Does the registry have the address of an invite? -/
def knows (invite : Invite) : Bool := d.core.servers.any (·.addr = invite.addr)

/-- `listServers` has answered for an invite. -/
def answer (k : ℕ) (known : Invite → Bool) : Door :=
  { d with asked := d.asked.modify k fun (invite, known') =>
      (invite, known'.or (some (known invite))) }

/-- A step. -/
def step : DoorEvent → Door × Deed
  | .opened raw =>
    let (gate, invite) := d.gate.forward raw
    ({ d with gate, emitted := d.emitted ++ invite.toList }, .nothing)
  | .subscribed => ({ d with listening := true }, .nothing)
  | .drainPendingInvite =>
    let (gate, invite) := d.gate.takePendingInvite
    ({ d with gate, taken := d.taken ++ invite.toList }, .nothing)
  | .drained k =>
    match d.taken[k]? with
    | none => (d, .nothing)
    | some invite => { d with taken := d.taken.eraseIdx k }.handleInvite invite
  | .delivered =>
    match d.emitted with
    | [] => (d, .nothing)
    | invite :: emitted =>
      -- An event that finds no listener is gone.
      if d.listening then { d with emitted }.handleInvite invite
      else ({ d with emitted }, .nothing)
  | .listed k => (d.answer k d.knows, .nothing)
  | .listFailed k => (d.answer k fun _ => false, .nothing)
  | .resumed k =>
    match d.asked[k]? with
    | some (invite, some known) =>
      let d := { d with asked := d.asked.eraseIdx k }
      if known then d.connect invite.addr (some invite)
      else ({ d with prompt := some invite }, .nothing)
    | _ => (d, .nothing)
  | .accept =>
    match d.prompt with
    | none => (d, .nothing)
    | some invite => { d with prompt := none }.connect invite.addr (some invite)
  | .decline => ({ d with prompt := none }, .nothing)
  | .connect addr => d.connect addr none
  | .reconnect => d.connect d.windowAddr none
  | .connected k conn now =>
    match d.dialing[k]? with
    | none => (d, .nothing)
    | some ⟨addr, invite⟩ =>
      ({ d with
          core := d.core.connected conn addr now
          dialing := d.dialing.eraseIdx k
          lines := d.lines ++ [addr] },
        { Deed.nothing with
          joins := invite.toList.filterMap fun p => p.channel.map fun c => (p, c) })
  | .connectFailed k =>
    ({ d with
        core := if k < d.dialing.length then { d.core with conn := none } else d.core
        dialing := d.dialing.eraseIdx k }, .nothing)
  | .redialed k => (d, { Deed.nothing with dials := d.lines[k]?.toList })
  | .welcomed k => ({ d with windowAddr := d.lines[k]?.getD d.windowAddr }, .nothing)
  | .status =>
    ({ d with windowAddr := (d.core.serverAddr.filter (· ≠ "")).getD d.windowAddr }, .nothing)
  | .reload =>
    -- What the window was waiting for is forgotten; the connections are made all the same.
    ({ d with
        taken := []
        listening := false
        asked := []
        prompt := none
        windowAddr := defaultAddr
        dialing := d.dialing.map fun l => { l with invite := none } }, .nothing)
  | .other e =>
    match e with
    -- These are steps of `connect`.
    | .connectTearDown _ | .connected .. | .connectFailed => (d, .nothing)
    | e => ({ d with core := d.core.apply e }, .nothing)

/-- The application starts. -/
def start (saved : UserSettings) (macos : Bool) : Door where
  gate := ⟨false, none⟩
  taken := []
  emitted := []
  listening := false
  asked := []
  prompt := none
  windowAddr := defaultAddr
  core := .new saved macos
  dialing := []
  lines := []

end Door

/-! ## Addresses that are dialed -/

/-- An address with a port, or with brackets and a port, has a colon in it. -/
theorem colon_mem_withPort (addr : String) : ':' ∈ (withPort addr).toList := by
  unfold withPort
  split
  · rename_i hport
    unfold hasPort at hport
    dsimp only at hport
    split at hport
    · have hhead := List.mem_of_mem_head? (beq_iff_eq.1 hport)
      exact (List.rtakeWhile_suffix (fun c => c != ']') _).subset hhead
    · have hcount := beq_iff_eq.1 hport
      exact List.count_pos_iff.1 (by omega)
  · split <;> simp

theorem slash_notMem_withPort {addr : String} (h : '/' ∉ addr.toList) :
    '/' ∉ (withPort addr).toList := by
  have hport : '/' ∉ Nat.toDigits 10 Config.tcpPort := by decide
  unfold withPort
  split
  · exact h
  · split <;> simp [h, hport]

/-- There is no link without a slash. -/
theorem parseLink_of_slash_notMem {addr : String} (h : '/' ∉ addr.toList) :
    parseLink addr = none := by
  have hnone : ∀ scheme : String, '/' ∈ scheme.toList → stripPrefix scheme addr = none := by
    intro scheme hscheme
    unfold stripPrefix
    rw [if_neg]
    intro hprefix
    exact h ((List.isPrefixOf_iff_prefix.1 hprefix).subset hscheme)
  unfold parseLink
  rw [hnone "tc://" (by decide), hnone "TC://" (by decide)]
  rfl

/-- An address with a colon and without a slash is dialed as it is. -/
theorem dialable_of_plain {addr : String} (hslash : '/' ∉ addr.toList)
    (hcolon : ':' ∈ addr.toList) : dialable addr = addr := by
  unfold dialable
  rw [parseLink_of_slash_notMem hslash]
  exact if_pos hcolon

/-- What a link is read as is a plain address. -/
theorem plain_of_parseLink {raw addr : String} {channel : Option String}
    (h : parseLink raw = some (addr, channel)) :
    '/' ∉ addr.toList ∧ ':' ∈ addr.toList := by
  unfold parseLink at h
  split at h
  · cases h
  · rename_i rest hrest
    dsimp only at h
    split at h
    · cases h
    · cases h
      refine ⟨slash_notMem_withPort ?_, colon_mem_withPort _⟩
      rw [String.toList_ofList]
      intro hmem
      have := List.mem_takeWhile_imp hmem
      cases this

/-- The address of an invite is dialed as it is. -/
theorem dialable_parseInvite {raw : String} {invite : Invite}
    (h : parseInvite raw = some invite) : dialable invite.addr = invite.addr := by
  obtain ⟨⟨addr, channel⟩, hlink, rfl⟩ := Option.map_eq_some_iff.1 h
  exact dialable_of_plain (plain_of_parseLink hlink).1 (plain_of_parseLink hlink).2

/-- A host without a port does not become a link when it gets one. -/
theorem parseLink_host {addr : String} (hcolon : ':' ∉ addr.toList) :
    parseLink (addr ++ ":" ++ toString Config.tcpPort) = none := by
  have hnone : ∀ t c : Char, t ≠ ':' → c ≠ ':' → stripPrefix (.ofList [t, c, ':', '/', '/'])
      (addr ++ ":" ++ toString Config.tcpPort) = none := by
    intro t c ht hc
    unfold stripPrefix
    rw [if_neg]
    intro hprefix
    rw [List.isPrefixOf_iff_prefix, String.toList_ofList, String.toList_append,
      String.toList_append, List.append_assoc] at hprefix
    obtain ⟨rest, hrest⟩ := hprefix
    -- The first colon is behind the host, and so behind the scheme if there were one.
    rcases haddr : addr.toList with _ | ⟨a, _ | ⟨b, _ | ⟨d, tail⟩⟩⟩ <;> rw [haddr] at hrest hcolon
    · exact ht (List.cons.inj hrest).1
    · exact hc (List.cons.inj (List.cons.inj hrest).2).1
    · have hport : (toString Config.tcpPort).toList = ['7', '1', '0', '0'] := toList_tcpPort
      rw [hport] at hrest
      simp at hrest
    · simp only [List.cons_append, List.cons.injEq] at hrest
      rw [List.mem_cons, List.mem_cons, List.mem_cons] at hcolon
      exact hcolon (.inr (.inr (.inl hrest.2.2.1)))
  unfold parseLink
  rw [hnone 't' 'c' (by decide) (by decide), hnone 'T' 'C' (by decide) (by decide)]
  rfl

/-- What is dialed stays as it is. -/
theorem dialable_dialable (addr : String) : dialable (dialable addr) = dialable addr := by
  cases hlink : parseLink addr with
  | some link =>
    have hdial : dialable addr = link.1 := by
      unfold dialable
      rw [hlink]
    rw [hdial]
    exact dialable_of_plain (plain_of_parseLink hlink).1 (plain_of_parseLink hlink).2
  | none =>
    by_cases hcolon : ':' ∈ addr.toList
    · have hdial : dialable addr = addr := by
        unfold dialable
        rw [hlink]
        exact if_pos hcolon
      rw [hdial, hdial]
    · have hdial : dialable addr = addr ++ ":" ++ toString Config.tcpPort := by
        unfold dialable
        rw [hlink]
        exact if_neg hcolon
      rw [hdial]
      unfold dialable
      rw [parseLink_host hcolon]
      exact if_pos (by simp)

/-! ## Addresses that the user has chosen -/

/-- The addresses in the registry. -/
def AppCore.addrs (c : AppCore) : List String := c.servers.map (·.addr)

/-- Changing an entry changes no address. -/
theorem map_addr_changeServer {f : ServerEntry → ServerEntry} (hf : ∀ e, (f e).addr = e.addr)
    (servers : List ServerEntry) (addr : String) :
    (changeServer f servers addr).map (·.addr) = servers.map (·.addr) := by
  unfold changeServer
  induction servers with
  | nil => rfl
  | cons e servers ih =>
    rw [List.replaceF_cons]
    by_cases he : e.addr = addr
    · simp [he, hf]
    · simp [he, ih]

theorem mem_touchServer {servers : List ServerEntry} {addr : String} {now : ℕ} {a : String}
    (h : a ∈ (touchServer servers addr now).map (·.addr)) :
    a ∈ servers.map (·.addr) ∨ a = addr := by
  unfold touchServer at h
  split at h
  · rw [map_addr_changeServer] at h
    · exact .inl h
    · exact fun _ => rfl
  · simpa using h

/-- The addresses that a backup brings. -/
def brought : CoreEvent → List String
  | .command (.importSettings (.ok s)) => s.servers.map (·.addr) ++ s.server.toList
  | _ => []

/-- What is a step of `connect`. -/
def CoreEvent.ofConnect : CoreEvent → Bool
  | .connectTearDown _ | .connected .. | .connectFailed => true
  | _ => false

namespace AppCore

variable (c : AppCore)

/-- No command brings an address into the registry, or makes one the current one, but the
restoring of a backup. -/
theorem command_addrs (cmd : Command) :
    (∀ a ∈ (c.command cmd).1.addrs, a ∈ c.addrs ∨ a ∈ brought (.command cmd)) ∧
    ∀ a, (c.command cmd).1.serverAddr = some a →
      c.serverAddr = some a ∨ a ∈ brought (.command cmd) := by
  have hsame : ∀ c' : AppCore, c'.servers = c.servers → c'.serverAddr = c.serverAddr →
      (∀ a ∈ c'.addrs, a ∈ c.addrs ∨ a ∈ brought (.command cmd)) ∧
        ∀ a, c'.serverAddr = some a → c.serverAddr = some a ∨ a ∈ brought (.command cmd) := by
    intro c' hservers haddr
    unfold addrs
    rw [hservers, haddr]
    exact ⟨fun a ha => .inl ha, fun a ha => .inl ha⟩
  cases cmd with
  | importSettings json =>
    cases json with
    | error e => exact hsame _ rfl rfl
    | ok s =>
      constructor
      · intro a ha
        exact .inr (List.mem_append_left _ ha)
      · intro a ha
        exact .inr (List.mem_append_right _ (Option.mem_toList.2 ha))
  | forgetServer addr =>
    refine ⟨?_, fun a ha => .inl ha⟩
    intro a ha
    exact .inl ((List.filter_sublist.map _).subset ha)
  | setServerFavourite addr favourite =>
    refine ⟨?_, fun a ha => .inl ha⟩
    intro a ha
    unfold addrs at ha ⊢
    dsimp only [command] at ha
    rw [map_addr_changeServer] at ha
    · exact .inl ha
    · exact fun _ => rfl
  | labelServer addr label =>
    refine ⟨?_, fun a ha => .inl ha⟩
    intro a ha
    unfold addrs at ha ⊢
    dsimp only [command, labelServer] at ha
    rw [map_addr_changeServer] at ha
    · exact .inl ha
    · exact fun _ => rfl
  | setVoiceMode | setHotkey | unsetHotkey | setAutostart | setLanguage | setOverlayPosition
  | setOverlayVisibility =>
    apply hsame <;>
      (simp only [command, setVoiceMode, setHotkey, unsetHotkey]; repeat' split) <;> rfl
  | _ => exact hsame _ rfl rfl

/-- Nothing but a backup and the steps of `connect` does. -/
theorem apply_addrs {e : CoreEvent} (he : e.ofConnect = false) :
    (∀ a ∈ (c.apply e).addrs, a ∈ c.addrs ∨ a ∈ brought e) ∧
    ∀ a, (c.apply e).serverAddr = some a → c.serverAddr = some a ∨ a ∈ brought e := by
  have hsame : ∀ c' : AppCore, c'.servers = c.servers → c'.serverAddr = c.serverAddr →
      (∀ a ∈ c'.addrs, a ∈ c.addrs ∨ a ∈ brought e) ∧
        ∀ a, c'.serverAddr = some a → c.serverAddr = some a ∨ a ∈ brought e := by
    intro c' hservers haddr
    unfold addrs
    rw [hservers, haddr]
    exact ⟨fun a ha => .inl ha, fun a ha => .inl ha⟩
  cases e with
  | command cmd => exact c.command_addrs cmd
  | connectTearDown | connected | connectFailed => cases he
  | hotkey action state => cases action <;> cases state <;> exact hsame _ rfl rfl
  | message msg now =>
    cases msg with
    | joinedChannel channelId participants udpToken voiceKey =>
      refine ⟨?_, fun a ha => .inl ha⟩
      intro a ha
      unfold addrs at ha ⊢
      dsimp only [apply, handle] at ha
      cases haddr : c.serverAddr with
      | none =>
        rw [haddr] at ha
        exact .inl ha
      | some addr =>
        rw [haddr] at ha
        dsimp only [recordChannel] at ha
        rw [map_addr_changeServer] at ha
        · exact .inl ha
        · exact fun _ => rfl
    | nameChanged oldName newName =>
      apply hsame <;> (simp only [apply, handle]; split) <;> rfl
    | _ => exact hsame _ rfl rfl
  | _ => exact hsame _ rfl rfl

end AppCore

namespace Door

/-- The addresses that the user chooses with a step: what is typed or picked, what a prompt shows
that is accepted, and what a backup brings that is restored. -/
def chosen (d : Door) : DoorEvent → List String
  | .accept => d.prompt.toList.map (·.addr)
  | .connect addr => [addr]
  | .other e => brought e
  | _ => []

/-- The addresses that the user chooses in a run. -/
def chosenIn (d : Door) : List DoorEvent → List String
  | [] => []
  | e :: es => d.chosen e ++ chosenIn (d.step e).1 es

theorem chosenIn_concat (d : Door) (es : List DoorEvent) (e : DoorEvent) :
    chosenIn d (es ++ [e]) = chosenIn d es ++ (after step d es).chosen e := by
  induction es generalizing d with
  | nil => exact List.append_nil _
  | cons e' es ih =>
    rw [List.cons_append, chosenIn, chosenIn, ih, List.append_assoc]
    rfl

/-- What a start knows: the settings, and the address that a window shows before it knows one,
which it connects to by itself when nothing else has been chosen. -/
def configured (saved : UserSettings) : List String :=
  defaultAddr :: saved.servers.map (·.addr) ++ saved.server.toList

/-- One of some addresses, as it is given or as it is dialed. -/
def OneOf (given : List String) (addr : String) : Prop :=
  ∃ raw ∈ given, addr = raw ∨ addr = dialable raw

/-- One of some addresses, as it is dialed. -/
def DialOf (given : List String) (addr : String) : Prop := ∃ raw ∈ given, addr = dialable raw

theorem OneOf.dialable {given : List String} {addr : String} (h : OneOf given addr) :
    DialOf given (dialable addr) := by
  obtain ⟨raw, hmem, rfl | rfl⟩ := h
  · exact ⟨_, hmem, rfl⟩
  · exact ⟨raw, hmem, dialable_dialable raw⟩

theorem DialOf.oneOf {given : List String} {addr : String} (h : DialOf given addr) :
    OneOf given addr := by
  obtain ⟨raw, hmem, heq⟩ := h
  exact ⟨raw, hmem, .inr heq⟩

theorem OneOf.of_mem {given : List String} {addr : String} (h : addr ∈ given) :
    OneOf given addr := ⟨addr, h, .inl rfl⟩

theorem OneOf.append {given : List String} {addr : String} (h : OneOf given addr)
    (more : List String) : OneOf (given ++ more) addr := by
  obtain ⟨raw, hmem, heq⟩ := h
  exact ⟨raw, List.mem_append_left more hmem, heq⟩

theorem DialOf.append {given : List String} {addr : String} (h : DialOf given addr)
    (more : List String) : DialOf (given ++ more) addr := by
  obtain ⟨raw, hmem, heq⟩ := h
  exact ⟨raw, List.mem_append_left more hmem, heq⟩

/-- Every address that may still be dialed, but those that a prompt shows, is one of some. -/
structure Knows (given : List String) (d : Door) : Prop where
  registry : ∀ a ∈ d.core.addrs, OneOf given a
  current : ∀ a, d.core.serverAddr = some a → OneOf given a
  window : OneOf given d.windowAddr
  fallback : OneOf given defaultAddr
  dialing : ∀ l ∈ d.dialing, DialOf given l.addr
  lines : ∀ a ∈ d.lines, DialOf given a
  asked : ∀ q ∈ d.asked, q.2 = some true → OneOf given q.1.addr

variable {given : List String} {d : Door}

theorem Knows.append (h : Knows given d) (more : List String) : Knows (given ++ more) d where
  registry a ha := (h.registry a ha).append more
  current a ha := (h.current a ha).append more
  window := h.window.append more
  fallback := h.fallback.append more
  dialing l hl := (h.dialing l hl).append more
  lines a ha := (h.lines a ha).append more
  asked q hq hknown := (h.asked q hq hknown).append more

theorem knows_start (saved : UserSettings) (macos : Bool) :
    Knows (configured saved) (start saved macos) where
  registry a ha := .of_mem (List.mem_append_left _ (List.mem_cons_of_mem _ ha))
  current a ha := .of_mem (List.mem_append_right _ (Option.mem_toList.2 ha))
  window := .of_mem (List.mem_append_left _ List.mem_cons_self)
  fallback := .of_mem (List.mem_append_left _ List.mem_cons_self)
  dialing l hl := by cases hl
  lines a ha := by cases ha
  asked q hq := by cases hq

/-- Dialing one of the addresses. -/
theorem Knows.connect (h : Knows given d) {addr : String} (haddr : OneOf given addr)
    (invite : Option Invite) :
    Knows given (d.connect addr invite).1 ∧
      ∀ a ∈ (d.connect addr invite).2.dials, DialOf given a := by
  refine ⟨{ h with current := ?_, dialing := ?_ }, ?_⟩
  · rintro a ⟨⟩
    exact haddr.dialable.oneOf
  · intro l hl
    rcases List.mem_append.1 hl with hl | hl
    · exact h.dialing l hl
    · rw [List.mem_singleton.1 hl]
      exact haddr.dialable
  · intro a ha
    rw [List.mem_singleton.1 ha]
    exact haddr.dialable

/-- An invite that is to be looked up. -/
theorem Knows.handleInvite (h : Knows given d) (invite : Invite) :
    Knows given (d.handleInvite invite).1 := by
  refine { h with asked := ?_ }
  intro q hq hknown
  rcases List.mem_append.1 hq with hq | hq
  · exact h.asked q hq hknown
  · rw [List.mem_singleton.1 hq] at hknown
    cases hknown

/-- An answer that lets through only what the registry has. -/
theorem Knows.answer (h : Knows given d) (k : ℕ) {known : Invite → Bool}
    (hknown : ∀ invite, known invite = true → invite.addr ∈ d.core.addrs) :
    Knows given (d.answer k known) := by
  refine { h with asked := ?_ }
  intro q hq htrue
  obtain ⟨i, hi⟩ := List.mem_iff_getElem?.1 hq
  rw [Door.answer, List.getElem?_modify] at hi
  obtain ⟨⟨invite, known'⟩, hbefore, rfl⟩ := Option.map_eq_some_iff.1 hi
  have hasked := h.asked _ (List.mem_of_getElem? hbefore)
  dsimp only at htrue hasked ⊢
  split
  · rename_i hk
    rw [if_pos hk] at htrue
    cases known' with
    | none => exact h.registry _ (hknown invite (Option.some.inj htrue))
    | some b => exact hasked htrue
  · rename_i hk
    rw [if_neg hk] at htrue
    exact hasked htrue

/-- What a step leaves still knows only the given addresses, and it dials no other. -/
def Safe (given : List String) (o : Door × Deed) : Prop :=
  Knows given o.1 ∧ ∀ a ∈ o.2.dials, DialOf given a

theorem Knows.silent (h : Knows given d) (more : List String) :
    Safe (given ++ more) (d, .nothing) :=
  ⟨h.append more, fun a ha => by cases ha⟩

theorem Knows.handled (h : Knows given d) (more : List String) (invite : Invite) :
    Safe (given ++ more) (d.handleInvite invite) :=
  ⟨(h.handleInvite invite).append more, fun a ha => by cases ha⟩

theorem Knows.step_drained (h : Knows given d) (k : ℕ) :
    Safe (given ++ d.chosen (.drained k)) (d.step (.drained k)) := by
  simp only [Door.step]
  split
  · exact h.silent _
  · rename_i invite hk
    have htaken : Knows given { d with taken := d.taken.eraseIdx k } := { h with }
    exact htaken.handled _ invite

theorem Knows.step_delivered (h : Knows given d) :
    Safe (given ++ d.chosen .delivered) (d.step .delivered) := by
  simp only [Door.step]
  split
  · exact h.silent _
  · rename_i invite emitted hemitted
    have hleft : Knows given { d with emitted } := { h with }
    split
    · exact hleft.handled _ invite
    · exact hleft.silent _

theorem Knows.step_listed (h : Knows given d) (k : ℕ) :
    Safe (given ++ d.chosen (.listed k)) (d.step (.listed k)) := by
  refine (h.answer k ?_).silent _
  intro invite hknows
  obtain ⟨s, hs, heq⟩ := List.any_eq_true.1 hknows
  exact List.mem_map.2 ⟨s, hs, of_decide_eq_true heq⟩

/-- An invite goes on to a connection only with an answer that knows it. -/
theorem Knows.step_resumed (h : Knows given d) (k : ℕ) :
    Safe (given ++ d.chosen (.resumed k)) (d.step (.resumed k)) := by
  simp only [Door.step]
  have hleft : Knows given { d with asked := d.asked.eraseIdx k } := by
    refine { h with asked := ?_ }
    intro q hq
    exact h.asked q (List.mem_of_mem_eraseIdx hq)
  split
  · rename_i invite known hk
    have hmem := List.mem_of_getElem? hk
    split
    · rename_i htrue
      rw [htrue] at hmem
      have haddr := (h.asked _ hmem rfl).append (d.chosen (.resumed k))
      exact (hleft.append _).connect haddr (some invite)
    · have hprompted : Knows given { d with asked := d.asked.eraseIdx k, prompt := some invite } :=
        { hleft with }
      exact hprompted.silent _
  · exact h.silent _

/-- The user accepts the address that the prompt shows. -/
theorem Knows.step_accept (h : Knows given d) :
    Safe (given ++ d.chosen .accept) (d.step .accept) := by
  simp only [Door.step]
  split
  · exact h.silent _
  · rename_i invite hprompt
    have hleft : Knows given { d with prompt := none } := { h with }
    have haddr : OneOf (given ++ d.chosen .accept) invite.addr := by
      apply OneOf.of_mem
      simp [chosen, hprompt]
    exact (hleft.append _).connect haddr (some invite)

/-- A connection that stands brings its address, which was dialed, into the registry. -/
theorem Knows.step_connected (h : Knows given d) (k : ℕ) (conn : ServerConnection) (now : ℕ) :
    Safe (given ++ d.chosen (.connected k conn now)) (d.step (.connected k conn now)) := by
  simp only [Door.step]
  split
  · exact h.silent _
  · rename_i addr invite hk
    have hdial := h.dialing _ (List.mem_of_getElem? hk)
    refine ⟨Knows.append ?_ _, fun a ha => by cases ha⟩
    refine { h with registry := ?_, dialing := ?_, lines := ?_ }
    · intro a ha
      rcases mem_touchServer ha with ha | rfl
      · exact h.registry a ha
      · exact hdial.oneOf
    · intro l hl
      exact h.dialing l (List.mem_of_mem_eraseIdx hl)
    · intro a ha
      rcases List.mem_append.1 ha with ha | ha
      · exact h.lines a ha
      · exact List.mem_singleton.1 ha ▸ hdial

theorem Knows.step_connectFailed (h : Knows given d) (k : ℕ) :
    Safe (given ++ d.chosen (.connectFailed k)) (d.step (.connectFailed k)) := by
  refine Knows.silent (d := (d.step (.connectFailed k)).1)
    { h with registry := ?_, current := ?_, dialing := ?_ } _
  · simp only [Door.step]
    split <;> exact h.registry
  · simp only [Door.step]
    split <;> exact h.current
  · intro l hl
    exact h.dialing l (List.mem_of_mem_eraseIdx hl)

theorem Knows.step_redialed (h : Knows given d) (k : ℕ) :
    Safe (given ++ d.chosen (.redialed k)) (d.step (.redialed k)) := by
  refine ⟨h.append _, ?_⟩
  intro a ha
  exact (h.lines a (List.mem_of_getElem? (Option.mem_toList.1 ha))).append _

theorem Knows.step_welcomed (h : Knows given d) (k : ℕ) :
    Safe (given ++ d.chosen (.welcomed k)) (d.step (.welcomed k)) := by
  refine Knows.silent (d := (d.step (.welcomed k)).1) { h with window := ?_ } _
  show OneOf given (d.lines[k]?.getD d.windowAddr)
  cases hk : d.lines[k]? with
  | none => exact h.window
  | some a => exact (h.lines a (List.mem_of_getElem? hk)).oneOf

theorem Knows.step_status (h : Knows given d) :
    Safe (given ++ d.chosen .status) (d.step .status) := by
  refine Knows.silent (d := (d.step .status).1) { h with window := ?_ } _
  show OneOf given ((d.core.serverAddr.filter (· ≠ "")).getD d.windowAddr)
  cases haddr : d.core.serverAddr.filter (· ≠ "") with
  | none => exact h.window
  | some a => exact h.current a (Option.filter_eq_some_iff.1 haddr).1

theorem Knows.step_reload (h : Knows given d) :
    Safe (given ++ d.chosen .reload) (d.step .reload) := by
  refine Knows.silent (d := (d.step .reload).1)
    { h with window := h.fallback, dialing := ?_, asked := ?_ } _
  · intro l hl
    obtain ⟨l', hl', rfl⟩ := List.mem_map.1 hl
    exact h.dialing l' hl'
  · intro q hq
    cases hq

theorem Knows.step_other (h : Knows given d) (e : CoreEvent) :
    Safe (given ++ d.chosen (.other e)) (d.step (.other e)) := by
  cases he : e.ofConnect with
  | true =>
    have hstep : d.step (.other e) = (d, .nothing) := by
      cases e <;> first | rfl | cases he
    rw [hstep]
    exact h.silent _
  | false =>
    have hstep : d.step (.other e) = ({ d with core := d.core.apply e }, .nothing) := by
      cases e <;> first | rfl | cases he
    rw [hstep]
    obtain ⟨haddrs, hcurrent⟩ := d.core.apply_addrs he
    refine ⟨{ h.append _ with registry := ?_, current := ?_ }, fun a ha => by cases ha⟩
    · intro a ha
      rcases haddrs a ha with ha | ha
      · exact (h.registry a ha).append _
      · exact .of_mem (List.mem_append_right _ ha)
    · intro a ha
      rcases hcurrent a ha with ha | ha
      · exact (h.current a ha).append _
      · exact .of_mem (List.mem_append_right _ ha)

/-- **A step dials only what the user has chosen.** -/
theorem Knows.step (h : Knows given d) (e : DoorEvent) :
    Safe (given ++ d.chosen e) (d.step e) := by
  cases e with
  | opened raw => exact Knows.silent (d := (d.step (.opened raw)).1) { h with } _
  | subscribed => exact Knows.silent (d := (d.step .subscribed).1) { h with } _
  | drainPendingInvite => exact Knows.silent (d := (d.step .drainPendingInvite).1) { h with } _
  | drained k => exact h.step_drained k
  | delivered => exact h.step_delivered
  | listed k => exact h.step_listed k
  | listFailed k =>
    -- What has failed is taken for the answer that nobody knows the address.
    have hnone : ∀ invite : Invite, false = true → invite.addr ∈ d.core.addrs := by
      rintro _ ⟨⟩
    exact (h.answer k hnone).silent _
  | resumed k => exact h.step_resumed k
  | accept => exact h.step_accept
  | decline => exact Knows.silent (d := (d.step .decline).1) { h with } _
  | connect addr =>
    exact (h.append _).connect (.of_mem (List.mem_append_right _ List.mem_cons_self)) none
  | reconnect => exact (h.append _).connect (h.window.append _) none
  | connected k conn now => exact h.step_connected k conn now
  | connectFailed k => exact h.step_connectFailed k
  | redialed k => exact h.step_redialed k
  | welcomed k => exact h.step_welcomed k
  | status => exact h.step_status
  | reload => exact h.step_reload
  | other e => exact h.step_other e

/-- **No link connects by itself.**  Take the gate, the window with all that it waits for, the
backend with its registry and its drain tasks, and let links be opened, commands given, servers
answer or fail and the window be reloaded in any order.  Whatever address is dialed, by a link
that is known, by a prompt, by the input line, by the window on its own or by a drain task, is
one that the user has chosen up to then, in the form in which it is dialed: it was configured or
in the registry at the start, it was typed or picked, it came with a backup that was restored, or
it stood in a prompt that was accepted. -/
theorem dialed_chosen (saved : UserSettings) (macos : Bool) (es : List DoorEvent) (e : DoorEvent) :
    ∀ addr ∈ ((after step (start saved macos) es).step e).2.dials,
      ∃ raw ∈ configured saved ++ chosenIn (start saved macos) (es ++ [e]),
        addr = dialable raw := by
  have hrun : ∀ (es : List DoorEvent) (given : List String) (d : Door), Knows given d →
      Knows (given ++ chosenIn d es) (after Door.step d es) := by
    intro es
    induction es with
    | nil => exact fun given d h => h.append []
    | cons e es ih =>
      intro given d h
      rw [chosenIn, ← List.append_assoc]
      exact ih _ _ (h.step e).1
  have hknows := hrun es _ _ (knows_start saved macos)
  intro addr haddr
  obtain ⟨raw, hmem, heq⟩ := (hknows.step e).2 addr haddr
  refine ⟨raw, ?_, heq⟩
  rw [chosenIn_concat, ← List.append_assoc]
  exact hmem

/-- A link to an unknown server that is accepted in the prompt. -/
theorem dialed_chosen_prompt :
    let es : List DoorEvent := [.opened "tc://a", .subscribed, .drainPendingInvite, .drained 0,
      .listed 0, .resumed 0]
    ∃ raw ∈ configured .default ++ chosenIn (start .default false) (es ++ [.accept]),
      "a:7100" = dialable raw :=
  dialed_chosen .default false _ .accept "a:7100" (by decide)

/-! ## What becomes of a link -/

/-- The invites of the links that are opened. -/
def links (es : List DoorEvent) : List Invite :=
  es.filterMap fun
    | .opened raw => parseInvite raw
    | _ => none

/-- The invites that `handleInvite` is called for in a run. -/
def handledIn (d : Door) (es : List DoorEvent) : List Invite :=
  (outputs step d es).flatMap Deed.handled

theorem handledIn_append (d : Door) (es later : List DoorEvent) :
    handledIn d (es ++ later) = handledIn d es ++ handledIn (after step d es) later := by
  unfold handledIn
  rw [outputs_append, List.flatMap_append]

theorem links_append (es later : List DoorEvent) : links (es ++ later) = links es ++ links later :=
  List.filterMap_append

theorem links_cons (e : DoorEvent) (es : List DoorEvent) :
    links (e :: es) = links [e] ++ links es := links_append [e] es

/-- The steps that bring links to the window. -/
def ofLinks : DoorEvent → Bool
  | .opened _ | .subscribed | .drainPendingInvite | .drained _ | .delivered | .reload => true
  | _ => false

variable {d : Door} {ls : List Invite} {e : DoorEvent}

/-- Any other step leaves the gate and what has come through it as they are. -/
theorem step_others (he : ofLinks e = false) :
    (d.step e).1.gate = d.gate ∧ (d.step e).1.taken = d.taken ∧
      (d.step e).1.emitted = d.emitted ∧ (d.step e).1.listening = d.listening ∧
      (d.step e).2.handled = [] ∧ links [e] = [] := by
  cases e with
  | opened | subscribed | drainPendingInvite | drained | delivered | reload => cases he
  | resumed k =>
    simp only [step]
    split
    · split <;> exact ⟨rfl, rfl, rfl, rfl, rfl, rfl⟩
    · exact ⟨rfl, rfl, rfl, rfl, rfl, rfl⟩
  | accept =>
    simp only [step]
    split <;> exact ⟨rfl, rfl, rfl, rfl, rfl, rfl⟩
  | connected k conn now =>
    simp only [step]
    split <;> exact ⟨rfl, rfl, rfl, rfl, rfl, rfl⟩
  | other e => cases e <;> exact ⟨rfl, rfl, rfl, rfl, rfl, rfl⟩
  | _ => exact ⟨rfl, rfl, rfl, rfl, rfl, rfl⟩

/-- Until the window takes the pending invite, the newest link waits at the gate. -/
structure Waiting (d : Door) (ls : List Invite) : Prop where
  shut : d.gate.frontendReady = false
  newest : d.gate.pending = ls.getLast?
  none_taken : d.taken = []
  none_emitted : d.emitted = []

theorem Waiting.step (h : Waiting d ls) (htake : e ≠ .drainPendingInvite) :
    Waiting (d.step e).1 (ls ++ links [e]) ∧ (d.step e).2.handled = [] := by
  obtain ⟨hshut, hnewest, hnone, hempty⟩ := h
  have hsame : links [e] = [] → Waiting d (ls ++ links [e]) := by
    intro hlinks
    rw [hlinks, List.append_nil]
    exact ⟨hshut, hnewest, hnone, hempty⟩
  cases hlinks : ofLinks e with
  | false =>
    obtain ⟨hgate, htaken, hemitted, -, hhandled, hno⟩ := step_others (d := d) hlinks
    obtain ⟨hshut, hnewest, -, -⟩ := hsame hno
    exact ⟨⟨by rw [hgate, hshut], by rw [hgate, hnewest], by rw [htaken, hnone],
      by rw [hemitted, hempty]⟩, hhandled⟩
  | true =>
    cases e with
    | opened raw =>
      refine ⟨?_, rfl⟩
      cases hraw : parseInvite raw with
      | none =>
        rw [show links [.opened raw] = [] by simp [links, hraw], List.append_nil]
        constructor <;> simp [Door.step, Gate.forward, hraw, hshut, hnewest, hnone, hempty]
      | some invite =>
        rw [show links [.opened raw] = [invite] by simp [links, hraw]]
        constructor <;> simp [Door.step, Gate.forward, hraw, hshut, hnone, hempty]
    | subscribed =>
      obtain ⟨hshut, hnewest, -, -⟩ := hsame rfl
      exact ⟨⟨hshut, hnewest, hnone, hempty⟩, rfl⟩
    | drainPendingInvite => exact absurd rfl htake
    | drained k =>
      simp only [Door.step, hnone, List.getElem?_nil]
      exact ⟨hsame rfl, rfl⟩
    | delivered =>
      simp only [Door.step, hempty]
      exact ⟨hsame rfl, rfl⟩
    | reload =>
      obtain ⟨hshut, hnewest, -, -⟩ := hsame rfl
      exact ⟨⟨hshut, hnewest, rfl, hempty⟩, rfl⟩
    | _ => cases hlinks

/-- From then on the gate lets links through to a window that listens.  What it has handled are
the first of the links that were opened since, and somewhere among them what it has taken, when
that has arrived. -/
structure Serving (pending ls handled : List Invite) (d : Door) : Prop where
  gate : d.gate = ⟨true, none⟩
  listening : d.listening = true
  order : ∃ front arrived back, handled = front ++ arrived ++ back ∧
    arrived ++ d.taken = pending ∧ front ++ back ++ d.emitted = ls

variable {pending handled : List Invite}

/-- A link that is opened is emitted at once. -/
theorem Serving.step_opened (h : Serving pending ls handled d) (raw : String) :
    Serving pending (ls ++ links [.opened raw]) handled (d.step (.opened raw)).1 := by
  obtain ⟨hgate, hlistening, front, arrived, back, hhandled, harrived, hls⟩ := h
  have hforward : d.gate.forward raw = (d.gate, parseInvite raw) := by
    rw [hgate]
    cases hraw : parseInvite raw <;> simp [Gate.forward, hraw]
  have hlinks : links [.opened raw] = (parseInvite raw).toList := by
    cases hraw : parseInvite raw <;> simp [links, hraw]
  refine ⟨?_, hlistening, front, arrived, back, hhandled, harrived, ?_⟩
  · show (d.gate.forward raw).1 = _
    rw [hforward, hgate]
  · show front ++ back ++ (d.emitted ++ (d.gate.forward raw).2.toList) = _
    rw [hforward, hlinks, ← hls, List.append_assoc (front ++ back)]

/-- The pending invite arrives, behind those that were faster. -/
theorem Serving.step_drained (h : Serving pending ls handled d) (hone : pending.length ≤ 1)
    (k : ℕ) :
    Serving pending ls (handled ++ (d.step (.drained k)).2.handled) (d.step (.drained k)).1 := by
  obtain ⟨hgate, hlistening, front, arrived, back, hhandled, harrived, hls⟩ := h
  simp only [step]
  split
  · exact ⟨hgate, hlistening, front, arrived, back, by rw [hhandled]; exact List.append_nil _,
      harrived, hls⟩
  · rename_i invite hk
    -- Only one has been taken: this one.
    have hlength := congrArg List.length harrived
    rw [List.length_append] at hlength
    obtain ⟨hlt, hget⟩ := List.getElem?_eq_some_iff.1 hk
    obtain rfl : arrived = [] := List.length_eq_zero_iff.1 (by omega)
    obtain ⟨invite', htaken⟩ := List.length_eq_one_iff.1 (show d.taken.length = 1 by omega)
    obtain rfl : k = 0 := by omega
    simp only [htaken, List.getElem_cons_zero] at hget
    subst hget
    refine ⟨hgate, hlistening, front ++ back, [invite'], [], ?_, ?_, ?_⟩
    · simp [hhandled, handleInvite, Deed.handle]
    · simp [handleInvite, htaken, ← harrived]
    · simp [handleInvite, ← hls]

/-- The first of those that are on their way arrives. -/
theorem Serving.step_delivered (h : Serving pending ls handled d) :
    Serving pending ls (handled ++ (d.step .delivered).2.handled) (d.step .delivered).1 := by
  obtain ⟨hgate, hlistening, front, arrived, back, hhandled, harrived, hls⟩ := h
  simp only [step, hlistening]
  cases hemitted : d.emitted with
  | nil =>
    exact ⟨hgate, hlistening, front, arrived, back, by rw [hhandled]; exact List.append_nil _,
      harrived, hls⟩
  | cons invite emitted =>
    refine ⟨hgate, rfl, front, arrived, back ++ [invite], ?_, harrived, ?_⟩
    · simp [hhandled, handleInvite, Deed.handle]
    · simp [handleInvite, ← hls, hemitted]

theorem Serving.step (h : Serving pending ls handled d) (hone : pending.length ≤ 1)
    (hreload : e ≠ .reload) :
    Serving pending (ls ++ links [e]) (handled ++ (d.step e).2.handled) (d.step e).1 := by
  cases hlinks : ofLinks e with
  | false =>
    obtain ⟨hgate, htaken, hemitted, hlistening, hnothing, hno⟩ := step_others (d := d) hlinks
    rw [hnothing, hno, List.append_nil, List.append_nil]
    exact ⟨hgate ▸ h.gate, hlistening ▸ h.listening, htaken ▸ hemitted ▸ h.order⟩
  | true =>
    cases e with
    | opened raw => exact (List.append_nil handled).symm ▸ h.step_opened raw
    | subscribed =>
      rw [show links [.subscribed] = [] from rfl, List.append_nil]
      exact (List.append_nil handled).symm ▸ ⟨h.gate, rfl, h.order⟩
    | drainPendingInvite =>
      rw [show links [.drainPendingInvite] = [] from rfl, List.append_nil]
      have htake : d.gate.takePendingInvite = (d.gate, none) := by rw [h.gate]; rfl
      have hstep : d.step .drainPendingInvite = (d, .nothing) := by
        simp only [Door.step, htake, Option.toList_none, List.append_nil]
      rw [hstep]
      exact (List.append_nil handled).symm ▸ h
    | drained k =>
      rw [show links [.drained k] = [] from rfl, List.append_nil]
      exact h.step_drained hone k
    | delivered =>
      rw [show links [.delivered] = [] from rfl, List.append_nil]
      exact h.step_delivered
    | reload => exact absurd rfl hreload
    | _ => cases hlinks

/-- A window that has subscribed listens until it is reloaded. -/
theorem listening_step (hreload : e ≠ .reload) (hlistening : d.listening = true) :
    (d.step e).1.listening = true := by
  cases hlinks : ofLinks e with
  | false =>
    obtain ⟨-, -, -, hsame, -⟩ := step_others (d := d) hlinks
    rw [hsame, hlistening]
  | true =>
    cases e with
    | subscribed => rfl
    | reload => exact absurd rfl hreload
    | drained k =>
      simp only [step]
      split <;> exact hlistening
    | delivered =>
      simp only [step]
      split
      · exact hlistening
      · split <;> exact hlistening
    | opened | drainPendingInvite => exact hlistening
    | _ => cases hlinks

theorem listening_after {es : List DoorEvent} (hreload : .reload ∉ es)
    (h : d.listening = true ∨ .subscribed ∈ es) : (after step d es).listening = true := by
  induction es generalizing d with
  | nil =>
    rcases h with h | h
    · exact h
    · cases h
  | cons e es ih =>
    obtain ⟨he, hes⟩ := not_or.1 (mt List.mem_cons.2 hreload)
    refine ih hes ?_
    rcases h with h | h
    · exact .inl (listening_step (Ne.symm he) h)
    · rcases List.mem_cons.1 h with rfl | h
      · exact .inl rfl
      · exact .inr h

theorem waiting_after {es : List DoorEvent} (h : Waiting d ls)
    (htake : .drainPendingInvite ∉ es) :
    Waiting (after Door.step d es) (ls ++ links es) ∧ handledIn d es = [] := by
  induction es generalizing d ls with
  | nil => exact ⟨(List.append_nil ls).symm ▸ h, rfl⟩
  | cons e es ih =>
    obtain ⟨he, hes⟩ := not_or.1 (mt List.mem_cons.2 htake)
    obtain ⟨hnext, hnone⟩ := h.step (Ne.symm he)
    obtain ⟨hrest, hnone'⟩ := ih hnext hes
    rw [links_cons, ← List.append_assoc]
    refine ⟨hrest, ?_⟩
    show (d.step e).2.handled ++ handledIn (d.step e).1 es = []
    rw [hnone, hnone']
    rfl

theorem serving_after {es : List DoorEvent} (h : Serving pending ls handled d)
    (hone : pending.length ≤ 1) (hreload : .reload ∉ es) :
    Serving pending (ls ++ links es) (handled ++ handledIn d es) (after Door.step d es) := by
  induction es generalizing d ls handled with
  | nil =>
    rw [show links [] = [] from rfl, show handledIn d [] = [] from rfl, List.append_nil,
      List.append_nil]
    exact h
  | cons e es ih =>
    obtain ⟨he, hes⟩ := not_or.1 (mt List.mem_cons.2 hreload)
    have hrest := ih (h.step hone (Ne.symm he)) hes
    rw [List.append_assoc, List.append_assoc, ← links_cons] at hrest
    exact hrest

/-- **Every link is handled once.**  Let a window subscribe and take the pending invite after
that, as `App.tsx` does, and not be reloaded.  Whatever else happens, no invite is handled before.
What has been taken is the newest of the links that were opened before, if there were any; it is
handled when the answer arrives, and links that are opened meanwhile may come first.  Those that
are opened since are handled in their order: the handled ones, but for the one that was taken,
and the ones that are on their way are all of them.  The address of each is dialed as it is. -/
theorem invites_handled (saved : UserSettings) (macos : Bool) (first later : List DoorEvent)
    (hup : .subscribed ∈ first) (htake : .drainPendingInvite ∉ first)
    (hreload : .reload ∉ first ++ later) :
    let d := start saved macos
    let es := first ++ .drainPendingInvite :: later
    handledIn d first = [] ∧
    (∃ front arrived back, handledIn d es = front ++ arrived ++ back ∧
      arrived ++ (after step d es).taken = (links first).getLast?.toList ∧
      front ++ back ++ (after step d es).emitted = links later) ∧
    (after step d es).gate.pending = none ∧
    ∀ invite ∈ handledIn d es, dialable invite.addr = invite.addr := by
  intro d es
  obtain ⟨hfirst, hlater⟩ := not_or.1 (mt List.mem_append.2 hreload)
  have hstart : Waiting d [] := ⟨rfl, rfl, rfl, rfl⟩
  obtain ⟨⟨hshut, hnewest, hnone, hempty⟩, hnothing⟩ := waiting_after hstart htake
  have hlistening : (after step d first).listening = true :=
    listening_after hfirst (.inr hup)
  rw [List.nil_append] at hnewest
  have hafter : after step d es =
      after step ((after step d first).step .drainPendingInvite).1 later :=
    after_append d first (.drainPendingInvite :: later)
  have hhandled : handledIn d es =
      handledIn ((after step d first).step .drainPendingInvite).1 later := by
    rw [handledIn_append, hnothing]
    rfl
  generalize after step d first = t at *
  have htaken : Serving (links first).getLast?.toList [] [] (t.step .drainPendingInvite).1 := by
    refine ⟨rfl, hlistening, [], [], [], rfl, ?_, hempty⟩
    show t.taken ++ t.gate.pending.toList = _
    rw [hnone, hnewest]
    rfl
  have hone : (links first).getLast?.toList.length ≤ 1 := by
    cases (links first).getLast? <;> simp
  have hend := serving_after htaken hone hlater
  rw [List.nil_append, List.nil_append, ← hhandled, ← hafter] at hend
  refine ⟨hnothing, hend.order, by rw [hend.gate], ?_⟩
  intro invite hinvite
  obtain ⟨front, arrived, back, heq, harrived, hls⟩ := hend.order
  have hlink : invite ∈ links first ∨ invite ∈ links later := by
    rw [heq, List.mem_append, List.mem_append] at hinvite
    rcases hinvite with (hinvite | hinvite) | hinvite
    · exact .inr (hls ▸ List.mem_append_left _ (List.mem_append_left _ hinvite))
    · have hpending := harrived ▸ List.mem_append_left _ hinvite
      exact .inl (List.mem_of_mem_getLast? (Option.mem_toList.1 hpending))
    · exact .inr (hls ▸ List.mem_append_left _ (List.mem_append_right _ hinvite))
  have hparsed : ∀ es, invite ∈ links es → ∃ raw, parseInvite raw = some invite := by
    intro es hmem
    obtain ⟨e, -, he⟩ := List.mem_filterMap.1 hmem
    cases e with
    | opened raw => exact ⟨raw, he⟩
    | _ => cases he
  obtain ⟨raw, hraw⟩ := hlink.elim (hparsed first) (hparsed later)
  exact dialable_parseInvite hraw

/-- Two links start the application, and a third overtakes the newer one of them. -/
theorem invites_handled_coldStart :
    let first : List DoorEvent := [.opened "tc://a", .opened "tc://b", .subscribed]
    let later : List DoorEvent := [.opened "tc://c", .delivered, .drained 0]
    ∃ front arrived back,
      handledIn (start .default false) (first ++ .drainPendingInvite :: later) =
        front ++ arrived ++ back ∧
      arrived = [⟨"b:7100", none⟩] ∧ front ++ back = [⟨"c:7100", none⟩] := by
  intro first later
  obtain ⟨front, arrived, back, hhandled, harrived, hls⟩ :=
    (invites_handled .default false first later (by simp [first]) (by simp [first])
      (by simp [first, later])).2.1
  have htaken : (after step (start .default false)
    (first ++ .drainPendingInvite :: later)).taken = [] := by decide
  have hemitted : (after step (start .default false)
    (first ++ .drainPendingInvite :: later)).emitted = [] := by decide
  rw [htaken, List.append_nil] at harrived
  rw [hemitted, List.append_nil] at hls
  have hpending : (links first).getLast?.toList = [⟨"b:7100", none⟩] := by decide
  have hlinks : links later = [⟨"c:7100", none⟩] := by decide
  exact ⟨front, arrived, back, hhandled, harrived.trans hpending, hls.trans hlinks⟩

/-- **A reload loses links**: one that is opened while the window comes up again is emitted to
nobody, as the gate still holds the window for ready. -/
theorem lost_on_reload :
    let es : List DoorEvent := [.subscribed, .drainPendingInvite, .reload, .opened "tc://a",
      .delivered, .subscribed, .drainPendingInvite]
    links es = [⟨"a:7100", none⟩] ∧ handledIn (start .default false) es = [] ∧
      (after step (start .default false) es).taken = [] ∧
      (after step (start .default false) es).emitted = [] := by
  decide

end Door

end Desktop
end TcVoice
