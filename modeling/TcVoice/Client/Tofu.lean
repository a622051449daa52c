import TcVoice.Lib.Runs
import TcVoice.Lib.Table
import TcVoice.Shared.Config
import TcVoice.Shared.Protocol

/-!
# Trust on first use

The pinned certificates of `crates/client/src/tls.rs`, and who writes them: the
verifier of a TLS handshake, the user's commands, and the settings file that
both applications load them from and save them to.

* `TofuInner`, `TofuInner.verifyServerCert` — the pins, and the verifier.
* `App`, `App.step` — the running application with its settings file.
* `TrustsOnFirstUse` — a pin stays until the user takes it away, and no other
  certificate is accepted as long as it does.
* `trustsOnFirstUse_iff` — **pins hold exactly along the runs in which no server
  ever shows another certificate and no restart and no import finds a pin
  missing**, with `changed_certificate_trusted` for a server that does, and for
  a file that has lost its pins.
-/

namespace TcVoice
namespace Client

open Runs Table

/-! ## The verifier -/

/-- A byte as `{:02x}` writes it. -/
def hexByte (b : UInt8) : List Char :=
  [Nat.digitChar (b.toNat / 16), Nat.digitChar (b.toNat % 16)]

/-- `cert_fingerprint`, over the digest that `sha2` computes. -/
def certFingerprint (sha256 : Bytes → Vector UInt8 32) (cert : Bytes) : String :=
  "sha256:" ++ String.ofList ((sha256 cert).toList.flatMap hexByte)

/-- The result of a verification, for the user. -/
inductive TofuResult where
  /-- The first certificate of this server. -/
  | trustedNew (fingerprint : String)
  | trustedKnown
  /-- Another certificate than before. -/
  | mismatch (expected actual : String)
  deriving DecidableEq, Repr

/-- What the verifier knows. -/
structure TofuInner where
  /-- The fingerprints by server address. -/
  trusted : Table String String
  /-- The server that is being connected to. -/
  currentServer : String
  lastResult : Option TofuResult

namespace TofuInner

/-- `TofuState::new`. -/
def new (trusted : Table String String) : TofuInner := ⟨trusted, "", none⟩

/-- `set_current_server`. -/
def setCurrentServer (inner : TofuInner) (addr : String) : TofuInner :=
  { inner with currentServer := addr, lastResult := none }

/-- `trust_server`. -/
def trustServer (inner : TofuInner) (addr fingerprint : String) : TofuInner :=
  { inner with trusted := inner.trusted.insert addr fingerprint }

/-- `remove_server`. -/
def removeServer (inner : TofuInner) (addr : String) : TofuInner :=
  { inner with trusted := inner.trusted.erase addr }

/-- `verify_server_cert`: is the certificate accepted, and what is known afterwards. -/
def verifyServerCert (sha256 : Bytes → Vector UInt8 32) (inner : TofuInner) (endEntity : Bytes) :
    Bool × TofuInner :=
  let fingerprint := certFingerprint sha256 endEntity
  let server := inner.currentServer
  match inner.trusted.lookup server with
  | some known =>
    if known = fingerprint then (true, { inner with lastResult := some .trustedKnown })
    else
      -- Certificate changed: the new one is trusted from now on.
      (true, { inner with
        trusted := inner.trusted.insert server fingerprint
        lastResult := some (.mismatch known fingerprint) })
  | none =>
    (true, { inner with
      trusted := inner.trusted.insert server fingerprint
      lastResult := some (.trustedNew fingerprint) })

end TofuInner

/-! ## The application and its settings file -/

/-- The two applications, which share the settings file. -/
inductive FrontEnd where
  | terminal
  | desktop
  deriving DecidableEq, Repr

/-- The address that `network::connect` dials. -/
def connectAddr (serverAddr : String) : String :=
  if ':' ∈ serverAddr.toList then serverAddr else serverAddr ++ ":" ++ toString Config.tcpPort

/-- A running application, as far as its pins go.  An import starts a new set of pins, but a
connection keeps the set that it was begun with. -/
structure App where
  frontEnd : FrontEnd
  /-- How many sets of pins have been imported. -/
  imports : ℕ
  /-- The pins it was started with, and those of each import. -/
  stores : ℕ → TofuInner
  /-- `trusted_servers` in `tc.toml`. -/
  saved : Table String String
  /-- The connections under way whose certificates are still to come: the set of pins and the
  address of each. -/
  dialling : Multiset (ℕ × String)

inductive Event where
  /-- `network::connect` has reached a server, and tells the verifier its address. -/
  | dial (store : ℕ) (serverAddr : String)
  /-- The certificate of a connection that is under way comes in. -/
  | handshake (store : ℕ) (addr : String) (cert : Bytes)
  /-- A connection that is under way fails before its certificate comes. -/
  | giveUp (store : ℕ) (addr : String)
  | trustServer (addr fingerprint : String)
  | removeServer (addr : String)
  /-- `save_tofu`, which the terminal client calls when a connection is up. -/
  | saveTofu
  /-- Settings are saved: `save_settings` in the terminal client, `AppCore::save` in the
  desktop one. -/
  | saveSettings
  /-- `import_settings` of the desktop client. -/
  | importSettings (trusted : Table String String)
  /-- The application ends, and one of the two is started. -/
  | restart (frontEnd : FrontEnd)

/-- `build_settings` of the terminal client: the settings it writes have no trusted servers. -/
def buildSettings : Table String String := ∅

/-- `save_tofu`: what is in the file afterwards. -/
def saveTofu (tofu : TofuInner) (saved : Table String String) : Table String String :=
  if tofu.trusted.len = 0 then saved else tofu.trusted

/-- What is in the file after the settings have been saved. -/
def saveSettings (tofu : TofuInner) : FrontEnd → Table String String
  | .terminal => buildSettings
  | .desktop => tofu.trusted

namespace App

/-- An application that is started on a settings file. -/
def start (frontEnd : FrontEnd) (saved : Table String String) : App :=
  ⟨frontEnd, 0, fun _ => .new saved, saved, 0⟩

/-- The pins in use. -/
def tofu (c : App) : TofuInner := c.stores c.imports

/-- The fingerprint that is pinned for an address. -/
def pin (c : App) (addr : String) : Option String := c.tofu.trusted.lookup addr

/-- One of the sets of pins is replaced. -/
def setStore (c : App) (store : ℕ) (inner : TofuInner) : App :=
  { c with stores := Function.update c.stores store inner }

/-- One step of the application. -/
def step (sha256 : Bytes → Vector UInt8 32) (c : App) : Event → Option App
  | .dial store serverAddr =>
    let addr := connectAddr serverAddr
    if store ≤ c.imports then
      some { c.setStore store ((c.stores store).setCurrentServer addr) with
        dialling := (store, addr) ::ₘ c.dialling }
    else none
  | .handshake store addr cert =>
    if (store, addr) ∈ c.dialling then
      some { c.setStore store ((c.stores store).verifyServerCert sha256 cert).2 with
        dialling := c.dialling.erase (store, addr) }
    else none
  | .giveUp store addr =>
    if (store, addr) ∈ c.dialling then
      some { c with dialling := c.dialling.erase (store, addr) }
    else none
  | .trustServer addr fingerprint =>
    some (c.setStore c.imports (c.tofu.trustServer addr fingerprint))
  | .removeServer addr => some (c.setStore c.imports (c.tofu.removeServer addr))
  | .saveTofu =>
    match c.frontEnd with
    | .terminal => some { c with saved := Client.saveTofu c.tofu c.saved }
    | .desktop => none
  | .saveSettings => some { c with saved := Client.saveSettings c.tofu c.frontEnd }
  | .importSettings trusted =>
    match c.frontEnd with
    | .terminal => none
    | .desktop =>
      -- The settings are saved at once.
      some { c.setStore (c.imports + 1) (.new trusted) with
        imports := c.imports + 1
        saved := trusted }
  | .restart frontEnd => some (.start frontEnd c.saved)

end App

/-! ## Pins -/

namespace Event

/-- The user replaces or removes the pin of an address. -/
def Replaces (addr : String) : Event → Prop
  | trustServer a _ | removeServer a => a = addr
  | _ => False

/-- A handshake with an address, or a command about it. -/
def About (addr : String) : Event → Prop
  | handshake _ a _ | trustServer a _ | removeServer a => a = addr
  | _ => False

end Event

variable {sha256 : Bytes → Vector UInt8 32} {c c' : App} {e : Event} {es : List Event}
  {store : ℕ} {addr : String} {cert : Bytes}

/-- Every pin stays until the user replaces or removes it; a certificate that is accepted in
a handshake is the one that is pinned for the server, if one is; and neither a handshake nor a
command changes the pins of other servers. -/
structure TrustsOnFirstUse (sha256 : Bytes → Vector UInt8 32) (c : App) (es : List Event) :
    Prop where
  stays : ∀ addr fingerprint, Persists (App.step sha256) (fun c => c.pin addr = some fingerprint)
    (Event.Replaces addr) c es
  refuses : EachStep (App.step sha256) (fun c e => ∀ store addr cert,
    e = .handshake store addr cert → ((c.stores store).verifyServerCert sha256 cert).1 = true →
      ∀ fingerprint, c.pin addr = some fingerprint →
        certFingerprint sha256 cert = fingerprint) c es
  spares : EachStep (App.step sha256) (fun c e => ∀ addr, e.About addr →
    ∀ c', c.step sha256 e = some c' → ∀ other, other ≠ addr → c'.pin other = c.pin other) c es

/-- A certificate comes from a server that has no pin or shows the pinned one, and no other
connection has told the verifier its address in between; a restart finds every pin in the
settings file, and an import brings them all. -/
def KeepsPins (sha256 : Bytes → Vector UInt8 32) (c : App) : Event → Prop
  | .handshake store addr cert =>
    (∀ fingerprint, c.pin addr = some fingerprint → certFingerprint sha256 cert = fingerprint) ∧
      (store = c.imports → c.tofu.currentServer ≠ addr →
        c.pin c.tofu.currentServer = some (certFingerprint sha256 cert))
  | .importSettings trusted => ∀ addr fingerprint, c.pin addr = some fingerprint →
    trusted.lookup addr = some fingerprint
  | .restart _ => ∀ addr fingerprint, c.pin addr = some fingerprint →
    c.saved.lookup addr = some fingerprint
  | _ => True

/-- Every certificate is accepted. -/
theorem verifyServerCert_accepts (inner : TofuInner) :
    (inner.verifyServerCert sha256 cert).1 = true := by
  unfold TofuInner.verifyServerCert
  simp only
  split
  · split <;> rfl
  · rfl

/-- Whatever was pinned for the current server, its certificate is afterwards. -/
theorem lookup_verifyServerCert (inner : TofuInner) (a : String) :
    (inner.verifyServerCert sha256 cert).2.trusted.lookup a =
      if a = inner.currentServer then some (certFingerprint sha256 cert)
      else inner.trusted.lookup a := by
  unfold TofuInner.verifyServerCert
  simp only
  split
  · rename_i known hknown
    split
    · rename_i hsame
      split
      · rename_i haddr
        rw [haddr, hknown, hsame]
      · rfl
    · exact lookup_insert_if _ _ _ _
  · exact lookup_insert_if _ _ _ _

/-- The pins after one of the sets has been replaced. -/
theorem pin_setStore (inner : TofuInner) (a : String) :
    (c.setStore store inner).pin a =
      if store = c.imports then inner.trusted.lookup a else c.pin a := by
  show (Function.update c.stores store inner c.imports).trusted.lookup a = _
  split
  · rename_i hstore
    rw [hstore, Function.update_self]
  · rename_i hstore
    rw [Function.update_of_ne (Ne.symm hstore)]
    rfl

/-- The pins after a handshake. -/
theorem pin_handshake (h : c.step sha256 (.handshake store addr cert) = some c') (a : String) :
    c'.pin a = if store = c.imports ∧ a = c.tofu.currentServer
      then some (certFingerprint sha256 cert) else c.pin a := by
  simp only [App.step] at h
  split at h
  · cases h
    show (c.setStore store _).pin a = _
    rw [pin_setStore]
    by_cases hstore : store = c.imports
    · subst hstore
      rw [if_pos rfl, lookup_verifyServerCert]
      simp only [true_and]
      rfl
    · rw [if_neg hstore, if_neg fun h => hstore h.1]
  · cases h

/-- What `TrustsOnFirstUse` comes to in one step. -/
def StepKeepsPins (sha256 : Bytes → Vector UInt8 32) (c : App) (e : Event) : Prop :=
  (∀ a f, ¬ e.Replaces a → c.pin a = some f → ∀ c', c.step sha256 e = some c' →
      c'.pin a = some f) ∧
    (∀ store addr cert, e = .handshake store addr cert →
      ((c.stores store).verifyServerCert sha256 cert).1 = true →
        ∀ f, c.pin addr = some f → certFingerprint sha256 cert = f) ∧
    ∀ addr, e.About addr → ∀ c', c.step sha256 e = some c' →
      ∀ other, other ≠ addr → c'.pin other = c.pin other

theorem trustsOnFirstUse_iff_stepKeepsPins :
    TrustsOnFirstUse sha256 c es ↔
      EachStep (App.step sha256) (StepKeepsPins sha256) c es := by
  constructor
  · intro ⟨hstays, hrefuses, hspares⟩
    refine eachStep_and.2 ⟨?_, eachStep_and.2 ⟨hrefuses, hspares⟩⟩
    apply eachStep_forall.2
    intro a
    apply eachStep_forall.2
    intro f
    exact persists_iff.1 (hstays a f)
  · intro h
    obtain ⟨hstays, hrest⟩ := eachStep_and.1 h
    obtain ⟨hrefuses, hspares⟩ := eachStep_and.1 hrest
    refine ⟨fun a f => persists_iff.2 ?_, hrefuses, hspares⟩
    exact eachStep_forall.1 (eachStep_forall.1 hstays a) f

/-- A step that leaves all the pins as they are, and is no handshake. -/
theorem stepKeepsPins_of_pin_eq (h : ∀ c', c.step sha256 e = some c' → ∀ a, c'.pin a = c.pin a)
    (hno : ∀ store addr cert, e ≠ .handshake store addr cert) : StepKeepsPins sha256 c e := by
  refine ⟨fun a f _ hf c' hc' => ?_, fun store addr cert he => absurd he (hno store addr cert),
    fun addr _ c' hc' other _ => h c' hc' other⟩
  rw [h c' hc']
  exact hf

/-- A command that is about one address, and leaves the pins of all others as they are. -/
theorem stepKeepsPins_of_replaces {addr : String} (habout : ∀ a, e.About a → a = addr)
    (hreplaces : e.Replaces addr)
    (h : ∀ c', c.step sha256 e = some c' → ∀ a, a ≠ addr → c'.pin a = c.pin a)
    (hno : ∀ store addr cert, e ≠ .handshake store addr cert) : StepKeepsPins sha256 c e := by
  refine ⟨fun a f hnot hf c' hc' => ?_, fun store addr cert he => absurd he (hno store addr cert),
    fun a ha c' hc' other hother => ?_⟩
  · rw [h c' hc' a fun ha => hnot (ha ▸ hreplaces)]
    exact hf
  · exact h c' hc' other (habout a ha ▸ hother)

/-- A step that starts another set of pins. -/
theorem stepKeepsPins_of_pins {trusted : Table String String} (habout : ∀ a, ¬ e.About a)
    (hreplaces : ∀ a, ¬ e.Replaces a)
    (h : ∀ c', c.step sha256 e = some c' → ∀ a, c'.pin a = trusted.lookup a)
    (hno : ∀ store addr cert, e ≠ .handshake store addr cert)
    (hc' : c.step sha256 e = some c') :
    StepKeepsPins sha256 c e ↔ ∀ a f, c.pin a = some f → trusted.lookup a = some f := by
  constructor
  · intro ⟨hstays, _⟩ a f hf
    rw [← h c' hc']
    exact hstays a f (hreplaces a) hf c' hc'
  · intro hall
    refine ⟨fun a f _ hf c'' hc'' => ?_, fun store addr cert he => absurd he (hno _ _ _),
      fun a ha => absurd ha (habout a)⟩
    rw [h c'' hc'']
    exact hall a f hf

/-- A handshake does what it should exactly when its server shows the certificate that is
pinned, if one is, and is the one that the verifier knows about. -/
theorem handshake_stepKeepsPins (h : c.step sha256 (.handshake store addr cert) = some c') :
    StepKeepsPins sha256 c (.handshake store addr cert) ↔
      KeepsPins sha256 c (.handshake store addr cert) := by
  constructor
  · intro ⟨_, hrefuses, hspares⟩
    refine ⟨hrefuses _ _ _ rfl (verifyServerCert_accepts _), fun hstore hcur => ?_⟩
    rw [← hspares addr rfl c' h _ hcur, pin_handshake h, if_pos ⟨hstore, rfl⟩]
  · intro ⟨hsame, hcur⟩
    -- A pin that the handshake writes is one that was there.
    have hkept : store = c.imports → ∀ f, c.pin c.tofu.currentServer = some f →
        certFingerprint sha256 cert = f := by
      intro hstore f hf
      by_cases haddr : c.tofu.currentServer = addr
      · exact hsame f (haddr ▸ hf)
      · exact Option.some.inj ((hcur hstore haddr).symm.trans hf)
    refine ⟨fun a f _ hf c' hc' => ?_, fun _ _ _ he _ => ?_, fun a ha c' hc' other hother => ?_⟩
    · rw [pin_handshake hc']
      split
      · rename_i hwritten
        rw [hkept hwritten.1 f (hwritten.2 ▸ hf)]
      · exact hf
    · cases he
      exact hsame
    · rw [pin_handshake hc']
      split
      · rename_i hwritten
        have hne : c.tofu.currentServer ≠ addr := by
          intro heq
          exact hother (hwritten.2.trans (heq.trans ha))
        rw [hwritten.2, hcur hwritten.1 hne]
      · rfl

/-- **One step.**  What it has to leave as it is, it leaves exactly when the condition holds. -/
theorem stepKeepsPins_iff (h : c.step sha256 e = some c') :
    StepKeepsPins sha256 c e ↔ KeepsPins sha256 c e := by
  cases e with
  | handshake store addr cert => exact handshake_stepKeepsPins h
  | dial store serverAddr =>
    refine iff_of_true (stepKeepsPins_of_pin_eq ?_ nofun) trivial
    intro c' hc' a
    simp only [App.step] at hc'
    split at hc'
    · cases hc'
      show (c.setStore store _).pin a = _
      rw [pin_setStore]
      split
      · rename_i hstore
        subst hstore
        rfl
      · rfl
    · cases hc'
  | giveUp store addr =>
    refine iff_of_true (stepKeepsPins_of_pin_eq ?_ nofun) trivial
    intro c' hc' a
    simp only [App.step] at hc'
    split at hc'
    · cases hc'
      rfl
    · cases hc'
  | trustServer addr fingerprint =>
    refine iff_of_true (stepKeepsPins_of_replaces (fun a ha => ha.symm) rfl ?_ nofun) trivial
    intro c' hc' a ha
    cases hc'
    rw [pin_setStore, if_pos rfl]
    exact (lookup_insert_if _ _ _ _).trans (if_neg ha)
  | removeServer addr =>
    refine iff_of_true (stepKeepsPins_of_replaces (fun a ha => ha.symm) rfl ?_ nofun) trivial
    intro c' hc' a ha
    cases hc'
    rw [pin_setStore, if_pos rfl]
    exact (lookup_erase_if _ _ _).trans (if_neg ha)
  | saveTofu =>
    refine iff_of_true (stepKeepsPins_of_pin_eq ?_ nofun) trivial
    intro c' hc' a
    simp only [App.step] at hc'
    split at hc'
    · cases hc'
      rfl
    · cases hc'
  | saveSettings =>
    refine iff_of_true (stepKeepsPins_of_pin_eq ?_ nofun) trivial
    intro c' hc' a
    cases hc'
    rfl
  | importSettings trusted =>
    apply stepKeepsPins_of_pins (fun _ => id) (fun _ => id) _ (fun _ _ _ he => by cases he) h
    intro c' hc' a
    simp only [App.step] at hc'
    split at hc'
    · cases hc'
    · cases hc'
      show (Function.update c.stores (c.imports + 1) _ (c.imports + 1)).trusted.lookup a = _
      rw [Function.update_self]
      rfl
  | restart frontEnd =>
    apply stepKeepsPins_of_pins (fun _ => id) (fun _ => id) _ (fun _ _ _ he => by cases he) h
    intro c' hc' a
    cases hc'
    rfl

/-- **Trust on first use.**  Along a run, pins stay and no other certificate is accepted
exactly when every certificate that comes in is from a server without a pin or the pinned one,
with no other connection begun in between, and every restart and every import brings back all
the pins. -/
theorem trustsOnFirstUse_iff (sha256 : Bytes → Vector UInt8 32) (c : App) (es : List Event) :
    TrustsOnFirstUse sha256 c es ↔
      EachStep (App.step sha256) (KeepsPins sha256) c es :=
  trustsOnFirstUse_iff_stepKeepsPins.trans
    (eachStep_congr fun _ _ _ h => stepKeepsPins_iff h)

/-! ## A server that changes, and a file that forgets -/

/-- `sha2` on the two certificates below. -/
def exampleSha256 (cert : Bytes) : Vector UInt8 32 :=
  if cert = [1, 2, 3, 4, 5] then
    #v[116, 248, 31, 225, 103, 217, 155, 76, 180, 29, 109, 12, 205, 168, 34, 120,
      202, 238, 159, 62, 47, 37, 213, 229, 163, 147, 111, 243, 220, 236, 96, 208]
  else
    #v[110, 245, 58, 100, 8, 236, 68, 41, 121, 31, 168, 8, 228, 251, 231, 132,
      63, 147, 99, 22, 149, 10, 32, 186, 95, 187, 189, 208, 28, 210, 152, 153]

/-- A terminal client meets a server for the first time. -/
def firstMeeting : List Event := [.dial 0 "voice", .handshake 0 "voice:7100" [1, 2, 3, 4, 5]]

/-- It connects again, and gets another certificate. -/
def impostor : List Event := [.dial 0 "voice", .handshake 0 "voice:7100" [10, 20, 30, 40, 50]]

/-- The pin is saved, then any other setting; and the client is started again. -/
def forgetful : List Event := [.saveTofu, .saveSettings, .restart .terminal]

/-- The first server is accepted with its changed certificate, which replaces the pin; and a
pin that has been saved is lost at the next start. -/
theorem changed_certificate_trusted :
    (∃ c, runFrom (App.step exampleSha256) (.start .terminal ∅)
          (firstMeeting ++ [.dial 0 "voice"]) = some c ∧
        c.tofu.currentServer = "voice:7100" ∧
        c.pin "voice:7100" = some (certFingerprint exampleSha256 [1, 2, 3, 4, 5]) ∧
        (c.tofu.verifyServerCert exampleSha256 [10, 20, 30, 40, 50]).1 = true) ∧
      ¬ TrustsOnFirstUse exampleSha256 (.start .terminal ∅) (firstMeeting ++ impostor) ∧
      ¬ TrustsOnFirstUse exampleSha256 (.start .terminal ∅) (firstMeeting ++ forgetful) := by
  refine ⟨⟨_, rfl, rfl, by decide, by decide⟩, ?_, ?_⟩
  · intro h
    have hstays := h.stays "voice:7100" (certFingerprint exampleSha256 [1, 2, 3, 4, 5])
      firstMeeting impostor [] _ _ (List.append_nil _).symm rfl rfl
        (by simp [impostor, Event.Replaces]) (by decide)
    revert hstays
    decide
  · intro h
    have hstays := h.stays "voice:7100" (certFingerprint exampleSha256 [1, 2, 3, 4, 5])
      firstMeeting forgetful [] _ _ (List.append_nil _).symm rfl rfl
        (by simp [forgetful, Event.Replaces]) (by decide)
    revert hstays
    decide

end Client
end TcVoice
