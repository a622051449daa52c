import TcVoice.Lib.Ledger
import TcVoice.Server.Relay

/-!
# The server's counters

`crates/server/src/metrics.rs`, with the places in `relay_loop` that count and the status line
of `run_maintenance` that reports.  Every counter is an atomic of its own: a worker adds to one
after another while the other workers add to theirs, and the maintenance task loads one after
another in between.

* `Counter`, `Metrics` — the counters, before any of them has come to the end of its 64 bits.
* `relayCounts` — what a turn of the relay counts after the registry has been asked.
* `Metered`, `Metered.step` — workers, counters and the status line, in any interleaving.
* `Books` — what the counters owe to the datagrams that are still being counted.
* `metrics_account` — **every datagram and every packet handed over is accounted for**, and the
  status lines add up.
-/

namespace TcVoice
namespace Server

open Runs Ledger

/-! ## Counters -/

/-- The fields of `Metrics`. -/
inductive Counter where
  | udpPacketsIn | udpBytesIn | udpHellosOk | udpHellosInvalid | udpKeepalives
  | udpVoiceRelayed | udpVoiceMalformed | udpBytesRelayed | udpFanoutTotal
  | tcpSends | tcpBroadcastSends | tcpDropsQueueFull | tcpRateLimited
  deriving DecidableEq, Repr

/-- The counters in the order in which `snapshot` loads them. -/
def Counter.all : List Counter :=
  [.udpPacketsIn, .udpBytesIn, .udpHellosOk, .udpHellosInvalid, .udpKeepalives,
    .udpVoiceRelayed, .udpVoiceMalformed, .udpBytesRelayed, .udpFanoutTotal,
    .tcpSends, .tcpBroadcastSends, .tcpDropsQueueFull, .tcpRateLimited]

theorem Counter.mem_all (c : Counter) : c ∈ Counter.all := by
  cases c <;> decide

theorem Counter.nodup_all : Counter.all.Nodup := by decide

/-- `Metrics`, and `Snapshot`.  The counters of the source are 64 bits wide and begin again at zero:
these are what they show as long as none of them has come to `2 ^ 64`. -/
abbrev Metrics := Counter → ℕ

/-- A counter of the control plane, which no relay worker touches. -/
def Counter.IsTcp (c : Counter) : Prop :=
  c = .tcpSends ∨ c = .tcpBroadcastSends ∨ c = .tcpDropsQueueFull ∨ c = .tcpRateLimited

instance (c : Counter) : Decidable c.IsTcp := inferInstanceAs (Decidable (_ ∨ _ ∨ _ ∨ _))

/-- What `relay_loop` counts as soon as it has a datagram. -/
def arrivalCounts (d : Datagram) : List (Counter × ℕ) :=
  [(.udpPacketsIn, 1), (.udpBytesIn, d.bytes.length)]

/-- What it counts when it has asked the registry. -/
def relayCounts (env : Env) (s : ServerState) (wk : Worker) (d : Datagram) (src : SocketAddr) :
    List (Counter × ℕ) :=
  match decodeUdpHello d.bytes with
  | some token =>
    if token = 0 then [(.udpKeepalives, 1)]
    else if (s.registerUdpByToken env token src).1 then [(.udpHellosOk, 1)]
    else [(.udpHellosInvalid, 1)]
  | none =>
    match VoicePacket.parseChannelId d.bytes with
    | none => [(.udpVoiceMalformed, 1)]
    | some _ =>
      let peers := (relayRound env s wk d src).2.1.peers
      if peers = [] then []
      else [(.udpVoiceRelayed, 1), (.udpFanoutTotal, peers.length),
        (.udpBytesRelayed, d.bytes.length * peers.length)]

/-! ## The relay with its counters -/

/-- Where a worker stands in its turn. -/
inductive Stage where
  | idle
  /-- It has a datagram, and counts its arrival. -/
  | arrived (counts : List (Counter × ℕ)) (d : Datagram) (src : SocketAddr)
  /-- It has asked the registry, counts the outcome, and then sends. -/
  | served (counts : List (Counter × ℕ)) (subs : List Submission)

/-- The relay with `stages.length` workers, and the maintenance task's readings. -/
structure Metered where
  relay : Relay
  stages : List Stage
  metrics : Metrics
  /-- Everything that has been handed to the kernel. -/
  sent : List Submission
  /-- The readings of the first snapshot and of the last one. -/
  first : Option Metrics
  prev : Option Metrics
  /-- A snapshot in the making, with the counters still to load. -/
  reading : Option (Metrics × List Counter)
  /-- The deltas of the status lines. -/
  logged : List Metrics
  /-- How many voice datagrams had nobody to go to. -/
  unheard : ℕ

namespace Metered

def new (limits : Limits) (workers : ℕ) : Metered :=
  ⟨.new limits, List.replicate workers .idle, fun _ => 0, [], none, none, none, [], 0⟩

inductive Event where
  /-- `recv_from` of a worker returns. -/
  | received (worker : ℕ) (d : Datagram) (src : SocketAddr)
  /-- A worker adds to the next counter. -/
  | counted (worker : ℕ)
  /-- A worker asks the registry. -/
  | asked (worker : ℕ)
  /-- A worker hands its packets to the kernel. -/
  | handed (worker : ℕ)
  /-- Another task calls the registry. -/
  | called (op : Op)
  /-- A task of the control plane counts. -/
  | tcpCounted (c : Counter)
  /-- `snapshot` begins. -/
  | snapshot
  /-- It loads the next counter. -/
  | loaded
  /-- The status line is logged. -/
  | status

/-- One step. -/
def step (m : Metered) (e : Env × Event) : Option Metered :=
  match e.2 with
  | .received i d src =>
    match m.stages[i]? with
    | some .idle => some { m with stages := m.stages.set i (.arrived (arrivalCounts d) d src) }
    | _ => none
  | .counted i =>
    match m.stages[i]? with
    | some (.arrived (a :: counts) d src) => some { m with
        metrics := add m.metrics a
        stages := m.stages.set i (.arrived counts d src) }
    | some (.served (a :: counts) subs) => some { m with
        metrics := add m.metrics a
        stages := m.stages.set i (.served counts subs) }
    | _ => none
  | .asked i =>
    match m.stages[i]? with
    | some (.arrived [] d src) =>
      let counts := relayCounts e.1 m.relay.state (m.relay.workers i) d src
      (m.relay.step (e.1, .received i d src)).map fun r => { m with
        relay := r
        stages := m.stages.set i (.served counts (m.relay.sent (e.1, .received i d src)))
        unheard := m.unheard + if counts = [] then 1 else 0 }
    | _ => none
  | .handed i =>
    match m.stages[i]? with
    | some (.served [] subs) => some { m with
        sent := subs ++ m.sent
        stages := m.stages.set i .idle }
    | _ => none
  | .called op => (m.relay.step (e.1, .called op)).map fun r => { m with relay := r }
  | .tcpCounted c => if c.IsTcp then some { m with metrics := add m.metrics (c, 1) } else none
  | .snapshot =>
    match m.reading with
    | none => some { m with reading := some (fun _ => 0, Counter.all) }
    | some _ => none
  | .loaded =>
    match m.reading with
    | some (now, c :: rest) =>
      some { m with reading := some (Function.update now c (m.metrics c), rest) }
    | _ => none
  | .status =>
    match m.reading with
    | some (now, []) =>
      match m.prev with
      -- The first snapshot is taken before the loop, and not reported.
      | none => some { m with first := some now, prev := some now, reading := none }
      | some prev => some { m with
          prev := some now
          logged := delta now prev :: m.logged
          reading := none }
    | _ => none

end Metered

/-! ## The books -/

/-- The bytes of what is handed to the kernel. -/
def bytesOf : List Submission → ℕ
  | [] => 0
  | some (_, data) :: subs => data.length + bytesOf subs
  | none :: subs => bytesOf subs

namespace Stage

/-- What a worker has still to count. -/
def counts : Stage → List (Counter × ℕ)
  | .idle => []
  | .arrived counts _ _ | .served counts _ => counts

end Stage

/-- A balance: weights for the counters, what a worker owes in its stage on top of what it has
still to count, and what the counters stand for. -/
structure Book where
  weight : Counter → ℤ
  owed : Stage → ℤ
  worth : Metered → ℤ

namespace Book

/-- Datagrams in, against what became of them. -/
def outcomes : Book where
  weight
    | .udpPacketsIn => 1
    | .udpKeepalives | .udpHellosOk | .udpHellosInvalid | .udpVoiceMalformed
    | .udpVoiceRelayed => -1
    | _ => 0
  owed
    | .arrived .. => -1
    | _ => 0
  worth m := m.unheard

/-- Packets out: voice, and answers to hellos. -/
def packets : Book where
  weight
    | .udpFanoutTotal | .udpHellosOk => 1
    | _ => 0
  owed
    | .served _ subs => -subs.length
    | _ => 0
  worth m := m.sent.length

/-- Bytes out; an answer to a hello has twelve. -/
def bytes : Book where
  weight
    | .udpBytesRelayed => 1
    | .udpHellosOk => 12
    | _ => 0
  owed
    | .served _ subs => -bytesOf subs
    | _ => 0
  worth m := bytesOf m.sent

/-- What a worker in this stage makes the counters differ from what they stand for. -/
def gap (b : Book) (st : Stage) : ℤ := weigh b.weight st.counts + b.owed st

/-- The counters stand for what they should, but for the workers that are at work. -/
def Balanced (b : Book) (m : Metered) : Prop :=
  value b.weight Counter.all m.metrics + total b.gap m.stages = b.worth m

end Book

section Laws

variable {env : Env} {s : ServerState} {r : Relay} {m m' : Metered} {b : Book} {d : Datagram}
  {src : SocketAddr} {i : ℕ} {st st' : Stage} {a : Counter × ℕ} {counts : List (Counter × ℕ)}
  {subs subs' : List Submission} {e : Env × Metered.Event}

theorem bytesOf_append : bytesOf (subs ++ subs') = bytesOf subs + bytesOf subs' := by
  induction subs with
  | nil => simp [bytesOf]
  | cons x subs ih =>
    cases x <;> simp only [List.cons_append, bytesOf, ih]
    omega

theorem bytesOf_sendToAll {data : Bytes} {addrs : List SocketAddr} :
    bytesOf (sendToAll data addrs) = data.length * addrs.length := by
  induction addrs with
  | nil => rfl
  | cons addr addrs ih =>
    have hcons : sendToAll data (addr :: addrs) = some (addr, data) :: sendToAll data addrs := rfl
    rw [hcons, bytesOf, ih, List.length_cons, Nat.mul_succ]
    omega

theorem length_encodeUdpHello (token : UInt64) : (encodeUdpHello token).length = 12 := by
  simp [encodeUdpHello, toBeBytes64, toBeBytes]

/-- What a turn counts is what it does: one outcome, or a voice datagram that nobody hears, and
as many packets and bytes as it hands over. -/
theorem relayCounts_spec (hs : Sound r) (env : Env) (i : ℕ) (d : Datagram) (src : SocketAddr) :
    let counts := relayCounts env r.state (r.workers i) d src
    let subs := r.sent (env, .received i d src)
    weigh Book.outcomes.weight counts = -1 + (if counts = [] then 1 else 0) ∧
      weigh Book.packets.weight counts = subs.length ∧
      weigh Book.bytes.weight counts = bytesOf subs ∧
      ∀ a ∈ counts, Book.outcomes.weight a.1 ≤ 0 ∧ 0 ≤ Book.packets.weight a.1 ∧
        0 ≤ Book.bytes.weight a.1 := by
  cases hd : decodeUdpHello d.bytes with
  | some token =>
    simp only [relayCounts, Relay.sent, relayRound, hd]
    by_cases h0 : token = 0
    · simp [h0, weigh, total, Book.outcomes, Book.packets, Book.bytes, bytesOf]
    · simp only [if_neg h0]
      cases hr : r.state.registerUdpByToken env token src with
      | mk accepted s' =>
        cases accepted <;>
          simp [weigh, total, Book.outcomes, Book.packets, Book.bytes, bytesOf,
            length_encodeUdpHello]
  | none =>
    simp only [relayCounts, Relay.sent, relayRound, hd]
    cases VoicePacket.parseChannelId d.bytes with
    | none => simp [weigh, total, Book.outcomes, Book.packets, Book.bytes, bytesOf]
    | some ch =>
      simp only
      generalize (if startsWith ch Config.echoChannelPrefix then _ else _) = peers
      rw [(BatchSender.sendToAll_spec (hs.batches i)).2, bytesOf_sendToAll]
      by_cases hp : peers = []
      · simp [hp, weigh, total, sendToAll]
      · simp [hp, weigh, total, Book.outcomes, Book.packets, Book.bytes, sendToAll]

/-! ## One step of the books -/

namespace Book

/-- A worker moves on to another stage. -/
theorem Balanced.move (h : b.Balanced m) (hst : m.stages[i]? = some st)
    (hstages : m'.stages = m.stages.set i st')
    (hworth : value b.weight Counter.all m'.metrics + b.gap st' + b.worth m =
      value b.weight Counter.all m.metrics + b.gap st + b.worth m') : b.Balanced m' := by
  have hb : value b.weight Counter.all m.metrics + total b.gap m.stages = b.worth m := h
  show value b.weight Counter.all m'.metrics + total b.gap m'.stages = b.worth m'
  rw [hstages, total_set hst]
  omega

theorem value_counted :
    value b.weight Counter.all (add m.metrics a) =
      value b.weight Counter.all m.metrics + b.weight a.1 * a.2 :=
  value_add Counter.nodup_all (Counter.mem_all a.1)

end Book

/-- A book that is balanced by what the workers do. -/
structure KeptBook (b : Book) : Prop where
  idle : b.gap .idle = 0
  arrived : ∀ d src, b.gap (.arrived (arrivalCounts d) d src) = 0
  counted : ∀ a counts d src subs, b.owed (.arrived (a :: counts) d src) =
      b.owed (.arrived counts d src) ∧
    b.owed (.served (a :: counts) subs) = b.owed (.served counts subs)
  tcp : ∀ c, c.IsTcp → b.weight c = 0
  /-- Nothing but the counters, the stages and what the counters stand for matters. -/
  worth : ∀ m relay stages metrics first prev reading logged, b.worth
    { m with relay, stages, metrics, first, prev, reading, logged } = b.worth m
  asked : ∀ (env : Env) (m : Metered) i d src, Sound m.relay →
    let counts := relayCounts env m.relay.state (m.relay.workers i) d src
    let m' := { m with unheard := m.unheard + if counts = [] then 1 else 0 }
    b.gap (.served counts (m.relay.sent (env, .received i d src))) + b.worth m =
      b.gap (.arrived [] d src) + b.worth m'
  handed : ∀ (m : Metered) subs,
    b.worth m = b.gap (.served [] subs) + b.worth { m with sent := subs ++ m.sent }

theorem kept_outcomes : KeptBook Book.outcomes where
  idle := rfl
  arrived _ _ := by simp [Book.gap, Stage.counts, arrivalCounts, weigh, total, Book.outcomes]
  counted _ _ _ _ _ := ⟨rfl, rfl⟩
  tcp c h := by rcases h with rfl | rfl | rfl | rfl <;> rfl
  worth _ _ _ _ _ _ _ _ := rfl
  asked env m i d src hs := by
    obtain ⟨h, -⟩ := relayCounts_spec hs env i d src
    show weigh Book.outcomes.weight (relayCounts _ _ _ _ _) + 0 + (m.unheard : ℤ) =
      0 + -1 + ((m.unheard + if relayCounts _ _ _ _ _ = [] then 1 else 0 : ℕ) : ℤ)
    rw [h, Nat.cast_add, Nat.cast_ite]
    simp only [Nat.cast_one, Nat.cast_zero]
    omega
  handed _ _ := by simp [Book.gap, Stage.counts, weigh, total, Book.outcomes]

theorem kept_packets : KeptBook Book.packets where
  idle := rfl
  arrived _ _ := by simp [Book.gap, Stage.counts, arrivalCounts, weigh, total, Book.packets]
  counted _ _ _ _ _ := ⟨rfl, rfl⟩
  tcp c h := by rcases h with rfl | rfl | rfl | rfl <;> rfl
  worth _ _ _ _ _ _ _ _ := rfl
  asked env m i d src hs := by
    obtain ⟨-, h, -⟩ := relayCounts_spec hs env i d src
    show weigh Book.packets.weight (relayCounts _ _ _ _ _) + -((m.relay.sent _).length : ℤ) +
      (m.sent.length : ℤ) = 0 + 0 + (m.sent.length : ℤ)
    rw [h]
    omega
  handed _ _ := by
    simp only [Book.gap, Stage.counts, weigh, total, Book.packets, List.length_append]
    omega

theorem kept_bytes : KeptBook Book.bytes where
  idle := rfl
  arrived _ _ := by simp [Book.gap, Stage.counts, arrivalCounts, weigh, total, Book.bytes]
  counted _ _ _ _ _ := ⟨rfl, rfl⟩
  tcp c h := by rcases h with rfl | rfl | rfl | rfl <;> rfl
  worth _ _ _ _ _ _ _ _ := rfl
  asked env m i d src hs := by
    obtain ⟨-, -, h, -⟩ := relayCounts_spec hs env i d src
    show weigh Book.bytes.weight (relayCounts _ _ _ _ _) + -(bytesOf (m.relay.sent _) : ℤ) +
      (bytesOf m.sent : ℤ) = 0 + 0 + (bytesOf m.sent : ℤ)
    rw [h]
    omega
  handed _ _ := by
    simp only [Book.gap, Stage.counts, weigh, total, Book.bytes, bytesOf_append]
    omega

/-- The next addition of a worker keeps a book balanced. -/
theorem KeptBook.count (hk : KeptBook b) (h : b.Balanced m) (hst : m.stages[i]? = some st)
    (hcounts : st.counts = a :: st'.counts) (howed : b.owed st = b.owed st') :
    b.Balanced { m with metrics := add m.metrics a, stages := m.stages.set i st' } := by
  refine h.move hst rfl ?_
  have hgap : b.gap st = b.weight a.1 * a.2 + b.gap st' := by
    unfold Book.gap
    rw [hcounts, howed]
    simp only [weigh, total]
    omega
  have hworth := hk.worth m m.relay (m.stages.set i st') (add m.metrics a) m.first m.prev
    m.reading m.logged
  rw [hgap, Book.value_counted, hworth]
  omega

/-- **One step keeps a book balanced.** -/
theorem KeptBook.step (hk : KeptBook b) (hs : Sound m.relay) (h : b.Balanced m)
    (hstep : m.step e = some m') : b.Balanced m' := by
  obtain ⟨env, ev⟩ := e
  have hsame : ∀ relay first prev reading logged,
      b.Balanced { m with relay, first, prev, reading, logged } := by
    intro relay first prev reading logged
    have hworth := hk.worth m relay m.stages m.metrics first prev reading logged
    exact Eq.trans h hworth.symm
  cases ev with
  | received i d src =>
    simp only [Metered.step] at hstep
    split at hstep
    · rename_i hst
      cases hstep
      refine h.move hst rfl ?_
      have hworth := hk.worth m m.relay (m.stages.set i (.arrived (arrivalCounts d) d src))
        m.metrics m.first m.prev m.reading m.logged
      rw [hk.idle, hk.arrived, hworth]
    · cases hstep
  | counted i =>
    simp only [Metered.step] at hstep
    split at hstep
    · rename_i a counts d src hst
      cases hstep
      exact hk.count h hst rfl (hk.counted a counts d src []).1
    · rename_i a counts subs hst
      cases hstep
      exact hk.count h hst rfl (hk.counted a counts ⟨[], Nat.zero_le _⟩ echoNoExclude subs).2
    · cases hstep
  | asked i =>
    simp only [Metered.step] at hstep
    split at hstep
    · rename_i d src hst
      obtain ⟨r, -, rfl⟩ := Option.map_eq_some_iff.1 hstep
      refine h.move hst rfl ?_
      have hask := hk.asked env m i d src hs
      generalize relayCounts env m.relay.state (m.relay.workers i) d src = counts at hask ⊢
      have hworth := hk.worth
        { m with unheard := m.unheard + if counts = [] then 1 else 0 } r
        (m.stages.set i (.served counts (m.relay.sent (env, .received i d src)))) m.metrics
        m.first m.prev m.reading m.logged
      simp only at hask hworth ⊢
      rw [hworth]
      omega
    · cases hstep
  | handed i =>
    simp only [Metered.step] at hstep
    split at hstep
    · rename_i subs hst
      cases hstep
      refine h.move hst rfl ?_
      have hhand := hk.handed m subs
      have hworth := hk.worth { m with sent := subs ++ m.sent } m.relay (m.stages.set i .idle)
        m.metrics m.first m.prev m.reading m.logged
      simp only at hhand hworth ⊢
      rw [hk.idle, hworth, hhand]
      omega
    · cases hstep
  | called op =>
    obtain ⟨r, -, rfl⟩ := Option.map_eq_some_iff.1 hstep
    exact hsame r m.first m.prev m.reading m.logged
  | tcpCounted c =>
    simp only [Metered.step] at hstep
    split at hstep
    · rename_i hc
      cases hstep
      have hworth := hk.worth m m.relay m.stages (add m.metrics (c, 1)) m.first m.prev
        m.reading m.logged
      show value _ _ (add m.metrics (c, 1)) + _ = _
      rw [Book.value_counted, hk.tcp c hc, Int.zero_mul, Int.add_zero]
      exact Eq.trans h hworth.symm
    · cases hstep
  | snapshot =>
    simp only [Metered.step] at hstep
    split at hstep <;> cases hstep
    exact hsame m.relay m.first m.prev _ m.logged
  | loaded =>
    simp only [Metered.step] at hstep
    split at hstep <;> cases hstep
    exact hsame m.relay m.first m.prev _ m.logged
  | status =>
    simp only [Metered.step] at hstep
    split at hstep
    · split at hstep <;> cases hstep
      · exact hsame m.relay _ _ _ m.logged
      · exact hsame m.relay m.first _ _ _
    · cases hstep

/-! ## Workers at work -/

/-- What a worker has still to count is the end of what its turn counts. -/
inductive Stage.Fits : Stage → Prop
  | idle : Fits .idle
  | arrived {counts : List (Counter × ℕ)} {d : Datagram} {src : SocketAddr}
      (h : counts <:+ arrivalCounts d) : Fits (.arrived counts d src)
  | served {counts : List (Counter × ℕ)} {subs : List Submission}
      (hsign : ∀ a ∈ counts, Book.outcomes.weight a.1 ≤ 0 ∧ 0 ≤ Book.packets.weight a.1 ∧
        0 ≤ Book.bytes.weight a.1)
      (hpackets : weigh Book.packets.weight counts ≤ subs.length)
      (hbytes : weigh Book.bytes.weight counts ≤ bytesOf subs) : Fits (.served counts subs)

theorem weigh_nonpos {w : Counter → ℤ} (h : ∀ a ∈ counts, w a.1 ≤ 0) : weigh w counts ≤ 0 := by
  induction counts with
  | nil => exact le_refl 0
  | cons a counts ih =>
    have ha : w a.1 * a.2 ≤ 0 :=
      Int.mul_nonpos_of_nonpos_of_nonneg (h a List.mem_cons_self) (Int.natCast_nonneg _)
    have hrest := ih fun x hx => h x (List.mem_cons_of_mem _ hx)
    unfold weigh at hrest ⊢
    simp only [total]
    omega

theorem Stage.Fits.counted (h : Stage.Fits (.served (a :: counts) subs)) :
    Stage.Fits (.served counts subs) := by
  cases h with
  | served hsign hpackets hbytes =>
    have hp : (0 : ℤ) ≤ Book.packets.weight a.1 * a.2 :=
      Int.mul_nonneg (hsign a List.mem_cons_self).2.1 (Int.natCast_nonneg _)
    have hb : (0 : ℤ) ≤ Book.bytes.weight a.1 * a.2 :=
      Int.mul_nonneg (hsign a List.mem_cons_self).2.2 (Int.natCast_nonneg _)
    unfold weigh at hpackets hbytes
    simp only [total] at hpackets hbytes
    refine .served (fun x hx => hsign x (List.mem_cons_of_mem _ hx)) ?_ ?_ <;>
      unfold weigh <;> omega

/-- In the middle of a turn the counters are never ahead of what has come in, and never behind
what has gone out. -/
theorem Stage.Fits.gaps (h : st.Fits) : Book.outcomes.gap st ≤ 0 ∧ Book.packets.gap st ≤ 0 ∧
    Book.bytes.gap st ≤ 0 := by
  cases h with
  | idle => exact ⟨le_refl 0, le_refl 0, le_refl 0⟩
  | arrived h =>
    simp only [arrivalCounts, List.suffix_cons_iff, List.suffix_nil] at h
    rcases h with rfl | rfl | rfl <;>
      simp [Book.gap, Stage.counts, weigh, total, Book.outcomes, Book.packets, Book.bytes]
  | @served counts subs hsign hpackets hbytes =>
    have hcounts : (Stage.served counts subs).counts = counts := rfl
    have hp : Book.packets.owed (.served counts subs) = -subs.length := rfl
    have hb : Book.bytes.owed (.served counts subs) = -bytesOf subs := rfl
    have ho : Book.outcomes.owed (.served counts subs) = 0 := rfl
    simp only [Book.gap, hcounts, hp, hb, ho]
    refine ⟨?_, by omega, by omega⟩
    rw [Int.add_zero]
    exact weigh_nonpos fun a ha => (hsign a ha).1

theorem metered_fits_step (hs : Sound m.relay) (h : ∀ st ∈ m.stages, st.Fits)
    (hstep : m.step e = some m') : ∀ st ∈ m'.stages, st.Fits := by
  have hset : ∀ {i} {st : Stage}, st.Fits → ∀ st' ∈ m.stages.set i st, st'.Fits := by
    intro i st hst st' hin
    rcases List.mem_or_eq_of_mem_set hin with hin | rfl
    · exact h st' hin
    · exact hst
  have hmem : ∀ {i} {st : Stage}, m.stages[i]? = some st → st.Fits := fun hi =>
    h _ (List.mem_of_getElem? hi)
  obtain ⟨env, ev⟩ := e
  cases ev with
  | received i d src =>
    simp only [Metered.step] at hstep
    split at hstep <;> cases hstep
    exact hset (.arrived (List.suffix_refl _))
  | counted i =>
    simp only [Metered.step] at hstep
    split at hstep <;> cases hstep
    · rename_i hi
      cases hmem hi with
      | arrived hsuffix => exact hset (.arrived ((List.suffix_cons _ _).trans hsuffix))
    · rename_i hi
      exact hset (hmem hi).counted
  | asked i =>
    simp only [Metered.step] at hstep
    split at hstep
    · obtain ⟨r, -, rfl⟩ := Option.map_eq_some_iff.1 hstep
      obtain ⟨-, hpackets, hbytes, hsign⟩ := relayCounts_spec hs env i _ _
      exact hset (.served hsign (le_of_eq hpackets) (le_of_eq hbytes))
    · cases hstep
  | handed i =>
    simp only [Metered.step] at hstep
    split at hstep <;> cases hstep
    exact hset .idle
  | called op =>
    obtain ⟨r, -, rfl⟩ := Option.map_eq_some_iff.1 hstep
    exact h
  | tcpCounted c | snapshot | loaded =>
    simp only [Metered.step] at hstep
    split at hstep <;> cases hstep
    exact h
  | status =>
    simp only [Metered.step] at hstep
    split at hstep
    · split at hstep <;> cases hstep <;> exact h
    · cases hstep

/-! ## Readings -/

/-- No reading is ahead of its counter or behind the reading before it, and the status lines
add up to the last snapshot. -/
structure Reads (m : Metered) : Prop where
  prev : ∀ prev, m.prev = some prev → ∀ c, prev c ≤ m.metrics c
  reading : ∀ now rest, m.reading = some (now, rest) → ∀ c, c ∉ rest →
    now c ≤ m.metrics c ∧ ∀ prev, m.prev = some prev → prev c ≤ now c
  sum : ∀ prev, m.prev = some prev →
    ∃ first, m.first = some first ∧ ∀ c, first c + reported m.logged c = prev c
  silent : m.prev = none → m.logged = []

theorem reads_new (limits : Limits) (workers : ℕ) : Reads (.new limits workers) where
  prev _ h := by cases h
  reading _ _ h := by cases h
  sum _ h := by cases h
  silent _ := rfl

/-- Counters go up, and nothing is read. -/
theorem Reads.counted (h : Reads m) {metrics : Metrics} {relay : Relay} {stages : List Stage}
    {sent : List Submission} {unheard : ℕ} (hle : ∀ c, m.metrics c ≤ metrics c) :
    Reads { m with metrics, relay, stages, sent, unheard } where
  prev p hp c := (h.prev p hp c).trans (hle c)
  reading now rest hr c hc := ⟨((h.reading now rest hr c hc).1).trans (hle c),
    (h.reading now rest hr c hc).2⟩
  sum := h.sum
  silent := h.silent

theorem Reads.step (h : Reads m) (hstep : m.step e = some m') : Reads m' := by
  obtain ⟨env, ev⟩ := e
  cases ev with
  | received i d src =>
    simp only [Metered.step] at hstep
    split at hstep <;> cases hstep
    exact h.counted fun _ => le_refl _
  | counted i =>
    simp only [Metered.step] at hstep
    split at hstep <;> cases hstep <;> exact h.counted fun c => le_add _ _ c
  | asked i =>
    simp only [Metered.step] at hstep
    split at hstep
    · obtain ⟨r, -, rfl⟩ := Option.map_eq_some_iff.1 hstep
      exact h.counted fun _ => le_refl _
    · cases hstep
  | handed i =>
    simp only [Metered.step] at hstep
    split at hstep <;> cases hstep
    exact h.counted fun _ => le_refl _
  | called op =>
    obtain ⟨r, -, rfl⟩ := Option.map_eq_some_iff.1 hstep
    exact h.counted fun _ => le_refl _
  | tcpCounted c =>
    simp only [Metered.step] at hstep
    split at hstep <;> cases hstep
    exact h.counted fun c => le_add _ _ c
  | snapshot =>
    simp only [Metered.step] at hstep
    split at hstep <;> cases hstep
    refine ⟨h.prev, fun now rest hr c hc => ?_, h.sum, h.silent⟩
    cases hr
    exact absurd (Counter.mem_all c) hc
  | loaded =>
    simp only [Metered.step] at hstep
    split at hstep <;> cases hstep
    rename_i now c rest hr
    refine ⟨h.prev, fun now' rest' hr' x hx => ?_, h.sum, h.silent⟩
    cases hr'
    by_cases hxc : x = c
    · subst hxc
      simp only [Function.update_self]
      exact ⟨le_refl _, fun p hp => h.prev p hp x⟩
    · simp only [Function.update_of_ne hxc]
      exact h.reading now (c :: rest) hr x fun hin => (List.mem_cons.1 hin).elim hxc hx
  | status =>
    simp only [Metered.step] at hstep
    split at hstep
    · rename_i now hr
      have hnow := fun c => h.reading now [] hr c List.not_mem_nil
      split at hstep <;> cases hstep
      · rename_i hnone
        refine ⟨fun p hp c => ?_, (fun _ _ hr' => by cases hr'), fun p hp => ?_,
          (fun hno => by cases hno)⟩
        · cases hp
          exact (hnow c).1
        · cases hp
          exact ⟨now, rfl, fun c => by simp only [h.silent hnone, reported, Nat.add_zero]⟩
      · rename_i prev hprev
        refine ⟨fun p hp c => ?_, (fun _ _ hr' => by cases hr'), fun p hp => ?_,
          (fun hno => by cases hno)⟩
        · cases hp
          exact (hnow c).1
        · cases hp
          obtain ⟨first, hfirst, hsum⟩ := h.sum prev hprev
          exact ⟨first, hfirst,
            sinceFirst_step (fun c => (hnow c).2 prev hprev) hsum⟩
    · cases hstep

/-! ## Runs -/

/-- Connections have IP addresses. -/
def Metered.HasPeers (m : Metered) (e : Env × Metered.Event) : Prop :=
  match e.2 with
  | .called op => HasPeer m.relay (e.1, .called op)
  | _ => True

instance (m : Metered) (e : Env × Metered.Event) : Decidable (m.HasPeers e) :=
  match e with
  | (env, .called op) => inferInstanceAs (Decidable (HasPeer m.relay (env, .called op)))
  | (_, .received ..) | (_, .counted _) | (_, .asked _) | (_, .handed _) | (_, .tcpCounted _)
  | (_, .snapshot) | (_, .loaded) | (_, .status) => isTrue trivial

theorem metered_sound_step (hs : Sound m.relay) (hp : m.HasPeers e) (hstep : m.step e = some m') :
    Sound m'.relay := by
  obtain ⟨env, ev⟩ := e
  cases ev with
  | asked i =>
    simp only [Metered.step] at hstep
    split at hstep
    · obtain ⟨r, hr, rfl⟩ := Option.map_eq_some_iff.1 hstep
      exact hs.step (fun _ he => by cases he) hr
    · cases hstep
  | called op =>
    obtain ⟨r, hr, rfl⟩ := Option.map_eq_some_iff.1 hstep
    exact hs.step hp hr
  | received | counted | handed | tcpCounted | snapshot | loaded =>
    simp only [Metered.step] at hstep
    split at hstep <;> cases hstep <;> exact hs
  | status =>
    simp only [Metered.step] at hstep
    split at hstep
    · split at hstep <;> cases hstep <;> exact hs
    · cases hstep

/-- What holds after any run. -/
structure Accounted (m : Metered) : Prop where
  sound : Sound m.relay
  fits : ∀ st ∈ m.stages, st.Fits
  outcomes : Book.outcomes.Balanced m
  packets : Book.packets.Balanced m
  bytes : Book.bytes.Balanced m
  reads : Reads m

theorem Accounted.step (h : Accounted m) (hp : m.HasPeers e) (hstep : m.step e = some m') :
    Accounted m' where
  sound := metered_sound_step h.sound hp hstep
  fits := metered_fits_step h.sound h.fits hstep
  outcomes := kept_outcomes.step h.sound h.outcomes hstep
  packets := kept_packets.step h.sound h.packets hstep
  bytes := kept_bytes.step h.sound h.bytes hstep
  reads := h.reads.step hstep

theorem accounted_new (limits : Limits) (workers : ℕ) : Accounted (.new limits workers) := by
  have hidle : ∀ b : Book, b.gap .idle = 0 →
      total b.gap (List.replicate workers Stage.idle) = 0 := by
    intro b hb
    refine total_eq_zero fun st hst => ?_
    rw [(List.mem_replicate.1 hst).2, hb]
  have hzero : ∀ b : Book, value b.weight Counter.all (fun _ => 0) = 0 :=
    fun b => total_eq_zero fun c _ => Int.mul_zero _
  refine ⟨sound_new limits, fun st hst => ?_, ?_, ?_, ?_, reads_new limits workers⟩
  · rw [(List.mem_replicate.1 hst).2]
    exact .idle
  · exact (congrArg₂ (· + ·) (hzero _) (hidle _ kept_outcomes.idle)).trans rfl
  · exact (congrArg₂ (· + ·) (hzero _) (hidle _ kept_packets.idle)).trans rfl
  · exact (congrArg₂ (· + ·) (hzero _) (hidle _ kept_bytes.idle)).trans rfl

end Laws

/-- **The counters account for everything**, before one of them begins again.  In every state of
every run, with any number of workers that count, ask the registry and send in any interleaving,
while other tasks call the registry and the maintenance task loads one counter after another: no
more outcomes are counted than datagrams, and no more packets and bytes have been handed to the
kernel than are counted; when no worker is in a turn, the outcomes are all the datagrams but those
that nobody was there to hear, and the counts of packets and bytes are exact.  The status lines add
up: with the first snapshot, to the last one, which no counter is behind. -/
theorem metrics_account (limits : Limits) (workers : ℕ) (es : List (Env × Metered.Event))
    (m : Metered) (hpeer : EachStep Metered.step Metered.HasPeers (.new limits workers) es)
    (hrun : runFrom Metered.step (.new limits workers) es = some m) :
    let c := m.metrics
    let outcomes := c .udpKeepalives + c .udpHellosOk + c .udpHellosInvalid +
      c .udpVoiceMalformed + c .udpVoiceRelayed
    (outcomes ≤ c .udpPacketsIn ∧ m.sent.length ≤ c .udpFanoutTotal + c .udpHellosOk ∧
        bytesOf m.sent ≤ c .udpBytesRelayed + 12 * c .udpHellosOk) ∧
      ((∀ st ∈ m.stages, st = .idle) → outcomes + m.unheard = c .udpPacketsIn ∧
        m.sent.length = c .udpFanoutTotal + c .udpHellosOk ∧
        bytesOf m.sent = c .udpBytesRelayed + 12 * c .udpHellosOk) ∧
      ∀ prev, m.prev = some prev → ∃ first, m.first = some first ∧
        ∀ x, first x + reported m.logged x = prev x ∧ prev x ≤ c x := by
  have h : Accounted m := inv_runFrom Accounted (fun _ _ _ h hp hs => h.step hp hs)
    (accounted_new limits workers) hpeer hrun
  have hgap : ∀ b : Book, (∀ st : Stage, st.Fits → b.gap st ≤ 0) → total b.gap m.stages ≤ 0 := by
    intro b hb
    have hneg := total_nonneg (f := fun st => -b.gap st) (l := m.stages) fun st hst => by
      have := hb st (h.fits st hst)
      omega
    have hflip : ∀ l : List Stage, total (fun st => -b.gap st) l = -total b.gap l := by
      intro l
      induction l with
      | nil => rfl
      | cons st l ih =>
        simp only [total, ih]
        omega
    rw [hflip] at hneg
    omega
  have h1 := h.outcomes
  have h2 := h.packets
  have h3 := h.bytes
  simp only [Book.Balanced, value, Counter.all, total, Book.outcomes, Book.packets,
    Book.bytes] at h1 h2 h3
  refine ⟨?_, fun hidle => ?_, fun prev hprev => ?_⟩
  · have g1 := hgap Book.outcomes fun st hst => hst.gaps.1
    have g2 := hgap Book.packets fun st hst => hst.gaps.2.1
    have g3 := hgap Book.bytes fun st hst => hst.gaps.2.2
    simp only [Book.outcomes, Book.packets, Book.bytes] at g1 g2 g3
    omega
  · have hz : ∀ b : Book, b.gap .idle = 0 → total b.gap m.stages = 0 := fun b hb =>
      total_eq_zero fun st hst => by rw [hidle st hst, hb]
    have g1 := hz Book.outcomes kept_outcomes.idle
    have g2 := hz Book.packets kept_packets.idle
    have g3 := hz Book.bytes kept_bytes.idle
    simp only [Book.outcomes, Book.packets, Book.bytes] at g1 g2 g3
    omega
  · obtain ⟨first, hfirst, hsum⟩ := h.reads.sum prev hprev
    exact ⟨first, hfirst, fun x => ⟨hsum x, h.reads.prev prev hprev x⟩⟩

/-- One worker registers the first of the two members of `pub-x` while another one is handed a
keepalive, and in between the first snapshot is taken. -/
def countedRun : List (Env × Metered.Event) :=
  let events : List Metered.Event :=
    [.called (.registerClient (.v4 1 1)), .called (.createChannel (some "x")),
      .called (.joinChannel (.v4 1 1) "pub-x"), .received 0 (helloDatagram 1) (.v4 1 11),
      .received 1 (helloDatagram 0) (.v4 2 22), .counted 0, .counted 0, .counted 1, .asked 0,
      .snapshot] ++ List.replicate 13 .loaded ++ [.status, .counted 1, .asked 1, .counted 1,
      .counted 0, .handed 0, .handed 1]
  events.map fun ev => (.sample 7 1, ev)

theorem metrics_account_countedRun : ∃ m : Metered,
    runFrom Metered.step (.new ⟨0, 0⟩ 2) countedRun = some m ∧ m.sent.length = 1 ∧
      m.sent.length = m.metrics .udpFanoutTotal + m.metrics .udpHellosOk := by
  obtain ⟨m, hrun, hidle, hlen⟩ : ∃ m : Metered,
      runFrom Metered.step (.new ⟨0, 0⟩ 2) countedRun = some m ∧
      m.stages = [.idle, .idle] ∧ m.sent.length = 1 := ⟨_, rfl, rfl, rfl⟩
  refine ⟨m, hrun, hlen, ((metrics_account ⟨0, 0⟩ 2 countedRun m (by decide) hrun).2.1 ?_).2.1⟩
  simp [hidle]

end Server
end TcVoice
