import TcVoice.Server.RateLimit
import TcVoice.Lib.Runs
import Mathlib.Tactic.Ring

/-!
# The budget of commands

The rate limits of `reader_loop` in `crates/server/src/tcp.rs`: each command is held against
the bucket of its IP address, then against those of its connection.

* `throttle` — the buckets in their order, each asked only if those before it have allowed.
* `Gate`, `Gate.step` — all connections and their buckets, with commands in any order and at
  any times.
* `Charged` — what each bucket gives for a command.
* `ip_budget` — **the bucket of an address gives one token for each command that it lets
  through**: for those admitted, and for those that a bucket of the connection refuses
  afterwards; `flooding` is a connection that is over its own limit.
-/

namespace TcVoice
namespace Server

open Runs Table

variable {T N : Type}

/-- The limiters of one connection. -/
structure ConnLimiters (T N : Type) where
  cmd : RateLimiter T N
  create : RateLimiter T N
  deriving DecidableEq, Repr

/-- Commands that are always allowed. -/
def exempt : ClientMessage → Bool
  | .ping | .hello .. => true
  | _ => false

/-- Commands with the stricter cap. -/
def creates : ClientMessage → Bool
  | .createChannel _ | .startEchoTest => true
  | _ => false

/-- The buckets, each with an address of its own, and the connections. -/
structure Gate (T N : Type) where
  multiplier : N
  ipLimiter : IpRateLimiter T N
  conns : Table SocketAddr (ConnLimiters T N)

/-- What happens to the buckets.  A command reads the clock for each bucket it asks. -/
inductive GateEvent (T : Type) where
  | connect (a : SocketAddr) (now : T)
  | command (a : SocketAddr) (msg : ClientMessage) (now : Fin 3 → T)
  | disconnect (a : SocketAddr) (now : T)

section Admit

variable [Add N] [Sub N] [Mul N] [Min N] [LE N] [DecidableLE N] [OfScientific N] [Clock T N]

/-- The limiters that `reader_loop` starts with. -/
def ConnLimiters.new (multiplier : N) (now : T) : ConnLimiters T N where
  cmd := .new (Config.rateLimitCmdPerSec * multiplier) (Config.rateLimitCmdBurst * multiplier) now
  create := .new (Config.rateLimitCreatePerSec * multiplier)
    (Config.rateLimitCreateBurst * multiplier) now

/-- The rate limits of `reader_loop`: whether a command is admitted, and the buckets after it. -/
def throttle (ip : IpAddr) (msg : ClientMessage) (now : Fin 3 → T) (l : IpRateLimiter T N)
    (c : ConnLimiters T N) : Bool × IpRateLimiter T N × ConnLimiters T N :=
  match msg with
  | .ping | .hello .. => (true, l, c)
  | .createChannel _ | .startEchoTest =>
    match l.check ip (now 0) with
    | (false, l) => (false, l, c)
    | (true, l) =>
      match c.cmd.check (now 1) with
      | (false, cmd) => (false, l, { c with cmd })
      | (true, cmd) =>
        match c.create.check (now 2) with
        | (allowed, create) => (allowed, l, { cmd, create })
  | _ =>
    match l.check ip (now 0) with
    | (false, l) => (false, l, c)
    | (true, l) =>
      match c.cmd.check (now 1) with
      | (allowed, cmd) => (allowed, l, { c with cmd })

namespace Gate

/-- The buckets as the server starts. -/
def new (multiplier : N) : Gate T N where
  multiplier := multiplier
  ipLimiter := .new (Config.rateLimitIpCmdPerSec * multiplier)
    (Config.rateLimitIpCmdBurst * multiplier)
  conns := ∅

/-- One event; `none` where it cannot happen. -/
def step (g : Gate T N) : GateEvent T → Option (Gate T N)
  | .connect a now =>
    if a ∈ g.conns then none
    else some { g with
      ipLimiter := g.ipLimiter.track a.ip now
      conns := g.conns.insert a (.new g.multiplier now) }
  | .command a msg now =>
    (g.conns.lookup a).map fun c =>
      let (_, ipLimiter, c) := throttle a.ip msg now g.ipLimiter c
      { g with ipLimiter, conns := g.conns.insert a c }
  | .disconnect a now =>
    if a ∈ g.conns then
      some { g with ipLimiter := g.ipLimiter.untrack a.ip now, conns := g.conns.erase a }
    else none

/-- Whether a command is admitted. -/
def admits (g : Gate T N) (a : SocketAddr) (msg : ClientMessage) (now : Fin 3 → T) : Bool :=
  (g.conns.lookup a).any fun c => (throttle a.ip msg now g.ipLimiter c).1

end Gate

end Admit

section Asked

variable [Add N] [Sub N] [Mul N] [Min N] [LE N] [DecidableLE N] [OfScientific N] [Clock T N]
  {ip : IpAddr} {msg : ClientMessage} {now : Fin 3 → T} {l : IpRateLimiter T N}
  {c : ConnLimiters T N}

theorem throttle_exempt (h : exempt msg = true) : throttle ip msg now l c = (true, l, c) := by
  cases msg <;> first | rfl | cases h

/-- A command of the stricter cap asks three buckets. -/
theorem throttle_creates (h : creates msg = true) : throttle ip msg now l c =
    match l.check ip (now 0) with
    | (false, l) => (false, l, c)
    | (true, l) =>
      match c.cmd.check (now 1) with
      | (false, cmd) => (false, l, { c with cmd })
      | (true, cmd) =>
        match c.create.check (now 2) with
        | (allowed, create) => (allowed, l, { cmd, create }) := by
  cases msg <;> first | cases h; done | simp only [throttle]

/-- Any other command that is not exempt asks two. -/
theorem throttle_other (h : exempt msg = false) (h' : creates msg = false) :
    throttle ip msg now l c =
    match l.check ip (now 0) with
    | (false, l) => (false, l, c)
    | (true, l) =>
      match c.cmd.check (now 1) with
      | (allowed, cmd) => (allowed, l, { c with cmd }) := by
  cases msg <;> first | cases h; done | cases h'; done | simp only [throttle]

variable (ip now l c) in
/-- **What a command is held against**: the address's bucket is always asked, that of the
connection's commands after it, and the create bucket last. -/
theorem throttle_spec (h : exempt msg = false) :
    let ipOk := (l.check ip (now 0)).1
    let cmdOk := (c.cmd.check (now 1)).1
    let createOk := (c.create.check (now 2)).1
    let r := throttle ip msg now l c
    r.1 = (ipOk && cmdOk && (!creates msg || createOk)) ∧ r.2.1 = (l.check ip (now 0)).2 ∧
      r.2.2.cmd = (if ipOk then (c.cmd.check (now 1)).2 else c.cmd) ∧
      r.2.2.create =
        if ipOk && cmdOk && creates msg then (c.create.check (now 2)).2 else c.create := by
  dsimp only
  cases hcreates : creates msg with
  | true =>
    rw [throttle_creates hcreates]
    obtain ⟨ipOk, l'⟩ := l.check ip (now 0)
    obtain ⟨cmdOk, cmd⟩ := c.cmd.check (now 1)
    obtain ⟨createOk, create⟩ := c.create.check (now 2)
    cases ipOk <;> cases cmdOk <;> cases createOk <;> exact ⟨rfl, rfl, rfl, rfl⟩
  | false =>
    rw [throttle_other h hcreates]
    obtain ⟨ipOk, l'⟩ := l.check ip (now 0)
    obtain ⟨cmdOk, cmd⟩ := c.cmd.check (now 1)
    cases ipOk <;> cases cmdOk <;> exact ⟨rfl, rfl, rfl, rfl⟩

end Asked

/-! ## What the buckets give -/

namespace Gate

variable (g : Gate ℚ ℚ)

/-- What the bucket of an address has. -/
def ipLevel (ip : IpAddr) (now : ℚ) : ℚ :=
  ((g.ipLimiter.map.lookup ip).map fun entry => entry.limiter.level now).getD 0

/-- What the buckets of a connection have. -/
def cmdLevel (a : SocketAddr) (now : ℚ) : ℚ :=
  ((g.conns.lookup a).map fun c => c.cmd.level now).getD 0

def createLevel (a : SocketAddr) (now : ℚ) : ℚ :=
  ((g.conns.lookup a).map fun c => c.create.level now).getD 0

end Gate

/-- What each bucket gives for a command: one token if it is admitted, but the create bucket
only where it is asked; and if it is refused, the create bucket nothing, the command bucket
nothing but to a command that the create bucket refuses, and the bucket of the address nothing
but to a command that one of the connection refuses. -/
def Charged (g : Gate ℚ ℚ) : GateEvent ℚ → Prop
  | .command a msg now => ∀ g', g.step (.command a msg now) = some g' →
      let ipTaken := g.ipLevel a.ip (now 0) - g'.ipLevel a.ip (now 0)
      let cmdTaken := g.cmdLevel a (now 1) - g'.cmdLevel a (now 1)
      let createTaken := g.createLevel a (now 2) - g'.createLevel a (now 2)
      if exempt msg then ipTaken = 0 ∧ cmdTaken = 0 ∧ createTaken = 0
      else if g.admits a msg now then
        ipTaken = 1 ∧ cmdTaken = 1 ∧ createTaken = if creates msg then 1 else 0
      else
        let cmdRefuses := g.cmdLevel a (now 1) < 1
        let createRefuses := creates msg = true ∧ g.createLevel a (now 2) < 1
        createTaken = 0 ∧ (cmdTaken = 0 ∨ cmdTaken = 1 ∧ createRefuses) ∧
          (ipTaken = 0 ∧ g.ipLevel a.ip (now 0) < 1 ∨
            ipTaken = 1 ∧ (cmdRefuses ∨ createRefuses))
  | _ => True

/-- The buckets, with what an address's bucket has given for commands so far, the commands of
the address that were admitted, and those that were refused although its bucket had a token;
`Ping` and `Hello` are not counted. -/
structure Tally where
  gate : Gate ℚ ℚ
  taken : ℚ
  admitted : ℕ
  refusedLater : ℕ

namespace Tally

def new (multiplier : ℚ) : Tally := ⟨.new multiplier, 0, 0, 0⟩

/-- One event, counted for an address. -/
def step (ip : IpAddr) (t : Tally) (ev : GateEvent ℚ) : Option Tally :=
  (t.gate.step ev).map fun g => match ev with
    | .command a msg now =>
      let counts := decide (a.ip = ip) && !exempt msg
      let admitted := t.gate.admits a msg now
      let hadToken := decide (1 ≤ t.gate.ipLevel ip (now 0))
      { gate := g
        taken := t.taken + (t.gate.ipLevel ip (now 0) - g.ipLevel ip (now 0))
        admitted := t.admitted + if counts && admitted then 1 else 0
        refusedLater := t.refusedLater + if counts && !admitted && hadToken then 1 else 0 }
    | _ => { t with gate := g }

/-- What the bucket of the address has given is for the commands that it has let through. -/
def Balanced (t : Tally) : Prop := t.taken = t.admitted + t.refusedLater

end Tally

/-! ## The balance -/

/-- The address of every connection has a bucket. -/
def Gate.Tracked (g : Gate ℚ ℚ) : Prop := ∀ a ∈ g.conns, a.ip ∈ g.ipLimiter.map

section Steps

variable {g g' : Gate ℚ ℚ} {a : SocketAddr} {ip : IpAddr} {msg : ClientMessage}
  {now : Fin 3 → ℚ} {l : IpRateLimiter ℚ ℚ} {entry : IpEntry ℚ ℚ}

theorem check_of_lookup (h : l.map.lookup ip = some entry) (now : ℚ) : l.check ip now =
    ((entry.limiter.check now).1, { l with
      map := l.map.insert ip ⟨(entry.limiter.check now).2, entry.refcount, now⟩ }) := by
  unfold IpRateLimiter.check
  rw [h]

/-- A bucket that may be asked gives a token if it is asked and has one. -/
theorem level_asked (asked : Bool) (b : RateLimiter ℚ ℚ) (now : ℚ) :
    (if asked then (b.check now).2 else b).level now =
      b.level now - if asked && decide (1 ≤ b.level now) then 1 else 0 := by
  cases asked with
  | true => rw [if_pos rfl, RateLimiter.level_check, RateLimiter.check_fst, Bool.true_and]
  | false => exact (sub_zero _).symm

/-- The buckets after a command, with the connection's and the address's entry before it. -/
theorem step_command (hstep : g.step (.command a msg now) = some g') :
    ∃ c, g.conns.lookup a = some c ∧
      g.admits a msg now = (throttle a.ip msg now g.ipLimiter c).1 ∧
      g'.ipLimiter = (throttle a.ip msg now g.ipLimiter c).2.1 ∧
      g'.conns = g.conns.insert a (throttle a.ip msg now g.ipLimiter c).2.2 := by
  obtain ⟨c, hc, hg'⟩ := Option.map_eq_some_iff.1 hstep
  subst hg'
  refine ⟨c, hc, ?_, rfl, rfl⟩
  unfold Gate.admits
  rw [hc]
  rfl

/-- What a command asks of the three buckets, in levels. -/
theorem command_levels (h : g.Tracked) (hstep : g.step (.command a msg now) = some g')
    (hexempt : exempt msg = false) :
    let ipOk := decide (1 ≤ g.ipLevel a.ip (now 0))
    let cmdOk := decide (1 ≤ g.cmdLevel a (now 1))
    let createOk := decide (1 ≤ g.createLevel a (now 2))
    g.admits a msg now = (ipOk && cmdOk && (!creates msg || createOk)) ∧
      g'.ipLevel a.ip (now 0) = g.ipLevel a.ip (now 0) - (if ipOk then 1 else 0) ∧
      g'.cmdLevel a (now 1) = g.cmdLevel a (now 1) - (if ipOk && cmdOk then 1 else 0) ∧
      g'.createLevel a (now 2) = g.createLevel a (now 2) -
        if ipOk && cmdOk && creates msg && createOk then 1 else 0 := by
  obtain ⟨c, hc, hadmits, hip, hconns⟩ := step_command hstep
  obtain ⟨entry, hentry⟩ := (mem_iff_lookup _ _).1 (h a ((mem_iff_lookup _ _).2 ⟨c, hc⟩))
  have hspec := throttle_spec a.ip now g.ipLimiter c hexempt
  simp only [check_of_lookup hentry, RateLimiter.check_fst] at hspec
  have hipLevel : g.ipLevel a.ip (now 0) = entry.limiter.level (now 0) := by
    unfold Gate.ipLevel
    rw [hentry]
    rfl
  have hcmdLevel : g.cmdLevel a (now 1) = c.cmd.level (now 1) := by
    unfold Gate.cmdLevel
    rw [hc]
    rfl
  have hcreateLevel : g.createLevel a (now 2) = c.create.level (now 2) := by
    unfold Gate.createLevel
    rw [hc]
    rfl
  obtain ⟨hallowed, hl, hcmd, hcreate⟩ := hspec
  dsimp only
  rw [hipLevel, hcmdLevel, hcreateLevel]
  refine ⟨hadmits.trans hallowed, ?_, ?_, ?_⟩
  · unfold Gate.ipLevel
    rw [hip, hl, Finmap.lookup_insert]
    simp only [Option.map_some, Option.getD_some]
    rw [RateLimiter.level_check, RateLimiter.check_fst]
  · unfold Gate.cmdLevel
    rw [hconns, Finmap.lookup_insert]
    simp only [Option.map_some, Option.getD_some]
    rw [hcmd, level_asked]
  · unfold Gate.createLevel
    rw [hconns, Finmap.lookup_insert]
    simp only [Option.map_some, Option.getD_some]
    rw [hcreate, level_asked]

/-- An exempt command asks nothing. -/
theorem command_exempt (hstep : g.step (.command a msg now) = some g') (h : exempt msg = true) :
    g' = g := by
  obtain ⟨c, hc, -, hip, hconns⟩ := step_command hstep
  rw [throttle_exempt h] at hip hconns
  have hmult : g'.multiplier = g.multiplier := by
    obtain ⟨c, -, hg'⟩ := Option.map_eq_some_iff.1 hstep
    rw [← hg']
  cases g
  cases g'
  rw [insert_of_lookup hc] at hconns
  cases hip
  cases hconns
  cases hmult
  rfl

theorem charged_step (h : g.Tracked) (ev : GateEvent ℚ) : Charged g ev := by
  cases ev with
  | connect a now => trivial
  | disconnect a now => trivial
  | command a msg now =>
    intro g' hstep
    dsimp only
    cases hexempt : exempt msg with
    | true =>
      rw [command_exempt hstep hexempt, if_pos rfl]
      exact ⟨sub_self _, sub_self _, sub_self _⟩
    | false =>
      obtain ⟨hadmits, hip, hcmd, hcreate⟩ := command_levels h hstep hexempt
      rw [if_neg Bool.false_ne_true, hadmits, hip, hcmd, hcreate]
      by_cases hipOk : 1 ≤ g.ipLevel a.ip (now 0) <;>
        by_cases hcmdOk : 1 ≤ g.cmdLevel a (now 1) <;>
          by_cases hcreateOk : 1 ≤ g.createLevel a (now 2) <;>
            cases creates msg <;> simp_all

/-- A command takes nothing from the bucket of another address. -/
theorem command_other (hne : a.ip ≠ ip) (hstep : g.step (.command a msg now) = some g') (t : ℚ) :
    g'.ipLevel ip t = g.ipLevel ip t := by
  cases hexempt : exempt msg with
  | true => rw [command_exempt hstep hexempt]
  | false =>
    obtain ⟨c, hc, -, hip, -⟩ := step_command hstep
    rw [(throttle_spec _ _ _ _ hexempt).2.1] at hip
    unfold Gate.ipLevel
    rw [hip]
    unfold IpRateLimiter.check
    split
    · dsimp only
      rw [Finmap.lookup_insert_of_ne _ hne.symm]
    · rfl

theorem tracked_step (h : g.Tracked) {ev : GateEvent ℚ} (hstep : g.step ev = some g') :
    g'.Tracked := by
  cases ev with
  | connect a now =>
    simp only [Gate.step] at hstep
    split at hstep
    · cases hstep
    · cases hstep
      intro b hb
      rw [Finmap.mem_insert] at hb
      show b.ip ∈ Finmap.insert _ _ _
      rw [Finmap.mem_insert]
      rcases hb with rfl | hb
      · exact .inl rfl
      · exact .inr (h b hb)
  | disconnect a now =>
    simp only [Gate.step] at hstep
    split at hstep
    · cases hstep
      intro b hb
      obtain ⟨entry, hentry⟩ := (mem_iff_lookup _ _).1 (h b (Finmap.mem_erase.1 hb).2)
      show b.ip ∈ Table.modify _ _ _
      rw [mem_iff_lookup, lookup_modify]
      split
      · rename_i heq
        rw [← heq, hentry]
        exact ⟨_, rfl⟩
      · exact ⟨entry, hentry⟩
    · cases hstep
  | command a msg now =>
    cases hexempt : exempt msg with
    | true => rwa [command_exempt hstep hexempt]
    | false =>
      obtain ⟨c, hc, -, hip, hconns⟩ := step_command hstep
      rw [(throttle_spec _ _ _ _ hexempt).2.1] at hip
      intro b hb
      rw [hconns, Finmap.mem_insert] at hb
      have hbefore : b ∈ g.conns := by
        rcases hb with rfl | hb
        · exact (mem_iff_lookup _ _).2 ⟨c, hc⟩
        · exact hb
      rw [hip]
      unfold IpRateLimiter.check
      split
      · show b.ip ∈ Finmap.insert _ _ _
        rw [Finmap.mem_insert]
        exact .inr (h b hbefore)
      · exact h b hbefore

/-- What a command takes from the bucket of an address is for a command of that address, which
is admitted or refused later. -/
theorem command_paid (ip : IpAddr) (h : g.Tracked) (hstep : g.step (.command a msg now) = some g') :
    g.ipLevel ip (now 0) - g'.ipLevel ip (now 0) =
      ((if decide (a.ip = ip) && !exempt msg && g.admits a msg now then 1 else 0 : ℕ) : ℚ) +
        ((if decide (a.ip = ip) && !exempt msg && !g.admits a msg now &&
          decide (1 ≤ g.ipLevel ip (now 0)) then 1 else 0 : ℕ) : ℚ) := by
  by_cases hip : a.ip = ip
  · subst hip
    cases hexempt : exempt msg with
    | true =>
      rw [command_exempt hstep hexempt, sub_self]
      simp
    | false =>
      obtain ⟨hadmits, hlevel, -, -⟩ := command_levels h hstep hexempt
      rw [hlevel, hadmits, sub_sub_cancel]
      generalize decide (1 ≤ g.ipLevel a.ip (now 0)) = ipOk
      generalize decide (1 ≤ g.cmdLevel a (now 1)) = cmdOk
      generalize (!creates msg || decide (1 ≤ g.createLevel a (now 2))) = createOk
      cases ipOk <;> cases cmdOk <;> cases createOk <;> simp
  · rw [command_other hip hstep, sub_self, decide_eq_false hip]
    simp

theorem balanced_step {t t' : Tally} (h : t.gate.Tracked) (hbalanced : t.Balanced)
    {ev : GateEvent ℚ} (hstep : t.step ip ev = some t') : t'.Balanced := by
  obtain ⟨g', hgate, ht'⟩ := Option.map_eq_some_iff.1 hstep
  unfold Tally.Balanced at hbalanced ⊢
  cases ev with
  | connect a now =>
    rw [← ht']
    exact hbalanced
  | disconnect a now =>
    rw [← ht']
    exact hbalanced
  | command a msg now =>
    have hpaid := command_paid ip h hgate
    rw [← ht']
    dsimp only
    rw [hbalanced, hpaid]
    push_cast
    ring

end Steps

/-- **What the budget of an address is spent on**: in every run of connections, commands and
disconnections, in any order and at any times, the bucket of an address has given one token
for each command that was admitted, and one for each that it had a token for and a bucket of
the connection refused; and for each single command, the buckets give as `Charged` says. -/
theorem ip_budget (multiplier : ℚ) (ip : IpAddr) (events : List (GateEvent ℚ)) :
    Throughout (Tally.step ip) Tally.Balanced (.new multiplier) events ∧
      EachStep Gate.step Charged (.new multiplier) events := by
  have htracked : (Gate.new multiplier).Tracked := fun a ha => absurd ha Finmap.notMem_empty
  constructor
  · have hbalanced : (Tally.new multiplier).Balanced := by
      show (0 : ℚ) = (0 : ℕ) + (0 : ℕ)
      norm_num
    refine Throughout.mono (fun t h => h.2) (throughout_of_inv
      (fun t : Tally => t.gate.Tracked ∧ t.Balanced) ?_ ⟨htracked, hbalanced⟩
      (eachStep_true _ events))
    rintro t ev t' ⟨h, hb⟩ - hstep
    obtain ⟨g', hgate, ht'⟩ := Option.map_eq_some_iff.1 hstep
    refine ⟨?_, balanced_step h hb hstep⟩
    rw [← ht']
    cases ev <;> exact tracked_step h hgate
  · exact EachStep.of_inv Gate.Tracked (fun g ev g' h _ hstep =>
      ⟨tracked_step h hstep, charged_step h ev⟩) htracked (eachStep_true _ events)

/-- One connection sends 21 commands at once: the last is over its own limit, and is paid for
out of what all connections of its address have. -/
theorem flooding : ¬ Throughout (Tally.step (.v4 1)) (fun t => t.taken = t.admitted) (.new 1)
    (.connect (.v4 1 1) 0 :: List.replicate 21 (.command (.v4 1 1) .listChannels fun _ => 0)) := by
  intro h
  have hend : (runFrom (Tally.step (.v4 1)) (.new 1) (.connect (.v4 1 1) 0 ::
      List.replicate 21 (.command (.v4 1 1) .listChannels fun _ => 0))).map
        (fun t => (t.taken, t.admitted)) = some (21, 20) := by decide +kernel
  obtain ⟨t, ht, hcounts⟩ := Option.map_eq_some_iff.1 hend
  have hsame := throughout_iff.1 h 22 t ht
  rw [(Prod.mk.inj hcounts).1, (Prod.mk.inj hcounts).2] at hsame
  exact absurd hsame (by decide)

end Server
end TcVoice
