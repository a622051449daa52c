import TcVoice.Server.State

/-!
# Sending one packet to many addresses

`BatchSender` of `crates/server/src/udp.rs`, as it is built for Linux: the arrays
that one `sendmmsg` call reads are kept from packet to packet, and built again
only when the list of addresses is another one.  On other platforms the relay
sends to one address after the other.

* `octets`, `ofOctets` — numbers in network byte order.
* `Sockaddr`, `Sockaddr.read_sockaddrOf` — an address as it is handed to the
  kernel, and what the kernel makes of it.
* `BatchSender`, `BatchSender.Coherent` — the kept arrays, and the list of
  addresses they are for.
* `BatchSender.sendToAll_spec` — **the batch sends what the plain loop would**.
-/

namespace TcVoice

/-! ## Network byte order -/

/-- A number in `k` bytes, the highest first. -/
def octets : ℕ → ℕ → Bytes
  | 0, _ => []
  | k + 1, n => octets k (n / 256) ++ [.ofNat n]

/-- The number in some bytes, the highest first. -/
def ofOctets (b : Bytes) : ℕ := b.foldl (fun n x => n * 256 + x.toNat) 0

theorem ofOctets_octets (k n : ℕ) : ofOctets (octets k n) = n % 256 ^ k := by
  induction k generalizing n with
  | zero => rw [pow_zero, Nat.mod_one, octets, ofOctets, List.foldl_nil]
  | succ k ih =>
    have hstep : ofOctets (octets (k + 1) n) = ofOctets (octets k (n / 256)) * 256 + n % 256 := by
      rw [octets, ofOctets, List.foldl_append, List.foldl_cons, List.foldl_nil,
        UInt8.toNat_ofNat', ofOctets]
    rw [hstep, ih, Nat.pow_succ', Nat.mod_mul, Nat.add_comm, Nat.mul_comm]

/-- A word of `8 * k` bits is read back as it was written. -/
theorem ofNat_ofOctets_octets (k : ℕ) (x : BitVec (8 * k)) :
    BitVec.ofNat (8 * k) (ofOctets (octets k x.toNat)) = x := by
  have hlt : x.toNat < 256 ^ k := by
    have h := x.isLt
    rwa [Nat.pow_mul] at h
  rw [ofOctets_octets, Nat.mod_eq_of_lt hlt, BitVec.ofNat_toNat, BitVec.setWidth_eq]

namespace Server

/-! ## Addresses for the kernel -/

/-- A `sockaddr_storage`: zeroed, or holding a `sockaddr_in` or a `sockaddr_in6`.  Ports and
addresses are in network byte order. -/
inductive Sockaddr where
  | zeroed
  | in4 (port addr : Bytes)
  | in6 (port addr : Bytes) (flowinfo scopeId : BitVec 32)
  deriving DecidableEq, Repr

/-- What `rebuild` writes for an address. -/
def sockaddrOf : SocketAddr → Sockaddr
  | .v4 ip port => .in4 (octets 2 port.toNat) (octets 4 ip.toNat)
  | .v6 ip port flowinfo scopeId =>
    .in6 (octets 2 port.toNat) (octets 16 ip.toNat) flowinfo scopeId

/-- `size_of::<sockaddr_in>` or `size_of::<sockaddr_in6>`. -/
def sockaddrLen : SocketAddr → ℕ
  | .v4 .. => 16
  | .v6 .. => 28

/-- The address that the kernel reads; none from a length that is too short. -/
def Sockaddr.read : Sockaddr → ℕ → Option SocketAddr
  | .zeroed, _ => none
  | .in4 port addr, len =>
    if len < 16 then none
    else some (.v4 (.ofNat 32 (ofOctets addr)) (.ofNat 16 (ofOctets port)))
  | .in6 port addr flowinfo scopeId, len =>
    if len < 28 then none
    else some (.v6 (.ofNat 128 (ofOctets addr)) (.ofNat 16 (ofOctets port)) flowinfo scopeId)

/-- The kernel reads the address that was written. -/
theorem Sockaddr.read_sockaddrOf (a : SocketAddr) :
    (sockaddrOf a).read (sockaddrLen a) = some a := by
  cases a with
  | v4 ip port =>
    have hip := ofNat_ofOctets_octets 4 ip
    have hport := ofNat_ofOctets_octets 2 port
    simp only [sockaddrOf, sockaddrLen, read, lt_irrefl, if_false]
    rw [hip, hport]
  | v6 ip port flowinfo scopeId =>
    have hip := ofNat_ofOctets_octets 16 ip
    have hport := ofNat_ofOctets_octets 2 port
    simp only [sockaddrOf, sockaddrLen, read, lt_irrefl, if_false]
    rw [hip, hport]

/-! ## Sending -/

/-- What the array that is passed to the kernel holds: where to and which bytes; `none` if there is
no making sense of it.  What the kernel takes of the array is its own matter: it reads at most
`UIO_MAXIOV` headers, which are 1024, and stops at one that fails. -/
abbrev Submission := Option (SocketAddr × Bytes)

/-- `send_to_all` of the platforms without a batch call. -/
def sendToAll (data : Bytes) (addrs : List SocketAddr) : List Submission :=
  addrs.map fun addr => some (addr, data)

/-- An `mmsghdr`: the address it points at, by its place in the array, and the length of that.
The bytes are those of the one iovec that all headers share. -/
structure Mmsghdr where
  msgName : ℕ
  msgNamelen : ℕ
  deriving DecidableEq, Repr

/-- The buffers of `BatchSender`. -/
structure BatchSender where
  sockaddrs : List Sockaddr
  addrlen : List ℕ
  /-- What the shared iovec points at. -/
  iov : Bytes
  msgs : List Mmsghdr
  /-- The addresses that the arrays were built for. -/
  cachedAddrs : List SocketAddr

namespace BatchSender

/-- `BatchSender::new`. -/
def new : BatchSender := ⟨[], [], [], [], []⟩

/-- `rebuild`. -/
def rebuild (b : BatchSender) (addrs : List SocketAddr) : BatchSender where
  sockaddrs := addrs.map sockaddrOf
  addrlen := addrs.map sockaddrLen
  iov := b.iov
  msgs := (List.range addrs.length).map fun i => ⟨i, (addrs.map sockaddrLen).getD i 0⟩
  cachedAddrs := addrs

/-- `libc::sendmmsg` over the first `n` headers, as they are passed to it. -/
def sendmmsg (b : BatchSender) (n : ℕ) : List Submission :=
  (List.range n).map fun i => do
    let msg ← b.msgs[i]?
    let sockaddr ← b.sockaddrs[msg.msgName]?
    let addr ← sockaddr.read msg.msgNamelen
    return (addr, b.iov)

/-- `BatchSender::send_to_all`. -/
def sendToAll (b : BatchSender) (data : Bytes) (addrs : List SocketAddr) :
    BatchSender × List Submission :=
  if addrs = [] then (b, [])
  else
    let n := addrs.length
    let b := { b with iov := data }
    let b := if b.cachedAddrs ≠ addrs then b.rebuild addrs else b
    (b, b.sendmmsg n)

/-- The arrays are those of the cached addresses. -/
structure Coherent (b : BatchSender) : Prop where
  sockaddrs : b.sockaddrs = b.cachedAddrs.map sockaddrOf
  msgs : b.msgs = (List.range b.cachedAddrs.length).map fun i =>
    ⟨i, (b.cachedAddrs.map sockaddrLen).getD i 0⟩

theorem coherent_new : new.Coherent := ⟨rfl, rfl⟩

theorem coherent_rebuild (b : BatchSender) (addrs : List SocketAddr) :
    (b.rebuild addrs).Coherent := ⟨rfl, rfl⟩

variable {b : BatchSender} {data : Bytes} {addrs : List SocketAddr}

/-- Coherent arrays send the shared bytes to each of the cached addresses. -/
theorem Coherent.sendmmsg (h : b.Coherent) :
    b.sendmmsg b.cachedAddrs.length = Server.sendToAll b.iov b.cachedAddrs := by
  refine List.ext_getElem (by simp [BatchSender.sendmmsg, Server.sendToAll]) fun i hi _ => ?_
  have hlt : i < b.cachedAddrs.length := by simpa [BatchSender.sendmmsg] using hi
  have hmsg : b.msgs[i]? = some ⟨i, sockaddrLen b.cachedAddrs[i]⟩ := by
    simp [h.msgs, hlt]
  have haddr : b.sockaddrs[i]? = some (sockaddrOf b.cachedAddrs[i]) := by
    simp [h.sockaddrs, hlt]
  simp only [BatchSender.sendmmsg, Server.sendToAll, List.getElem_map, List.getElem_range, hmsg,
    haddr, Option.bind_eq_bind, Option.bind_some, Sockaddr.read_sockaddrOf]
  rfl

/-- **The batch sends what the plain loop would**, whatever it was used for before. -/
theorem sendToAll_spec (h : b.Coherent) :
    (b.sendToAll data addrs).1.Coherent ∧
      (b.sendToAll data addrs).2 = Server.sendToAll data addrs := by
  unfold BatchSender.sendToAll
  split
  · rename_i hnil
    rw [hnil]
    exact ⟨h, rfl⟩
  simp only
  split
  · have hc := coherent_rebuild { b with iov := data } addrs
    exact ⟨hc, hc.sendmmsg⟩
  · -- The addresses are those of the packet before: only the bytes have changed.
    rename_i hsame
    have hc : ({ b with iov := data } : BatchSender).Coherent := ⟨h.sockaddrs, h.msgs⟩
    rw [← not_not.1 hsame]
    exact ⟨hc, hc.sendmmsg⟩

end BatchSender
end Server
end TcVoice
