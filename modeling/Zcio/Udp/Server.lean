import Zcio.Http.Io
import Zcio.Lib.Registry
import Zcio.Net.Wait
import Zcio.Tcp.Clients

/-!
# Zcio.Udp.Server

The datagram server of `udp.c`: one socket, a table of the peers that were heard of, and a stream for
each peer that reads what its last datagram holds.

* **`udpRun_mailboxes`**: whatever happens, the server is a mailbox for each address.

A packet, a pointer in the source, is known by its index in the table; reads and queries go through
`zcio_read` and `zcio_available` of its stream. Sending and the Winsock branches are left out.
-/

namespace Zcio

open Lib

/-- `UDP_RECV_BUF`. -/
def UDP_RECV_BUF : Nat := 65535

/-- The address and the port of a `struct sockaddr_in`. -/
structure SockaddrIn where
  sinAddr : UInt32
  sinPort : UInt16
  deriving Repr, DecidableEq

/-! ### Packets

A packet is kept per peer, with the position of its reader. -/

/-- `udp_pktctx`. The buffer has `buf_cap` octets. -/
structure UdpPktctx where
  peer : SockaddrIn
  buf : Bytes
  bufLen : Nat
  bufPos : Nat
  pos_le : bufPos ≤ bufLen
  len_le : bufLen ≤ buf.length

/-- A packet from `zcio_xcalloc`. -/
def UdpPktctx.new (peer : SockaddrIn) : UdpPktctx := ⟨peer, [], 0, 0, Nat.zero_le 0, Nat.zero_le 0⟩

/-- What is buffered and not read. -/
def UdpPktctx.rest (pk : UdpPktctx) : Bytes := (pk.buf.take pk.bufLen).drop pk.bufPos

theorem UdpPktctx.length_rest (pk : UdpPktctx) : pk.rest.length = pk.bufLen - pk.bufPos := by
  rw [rest, List.length_drop, List.length_take, Nat.min_eq_left pk.len_le]

theorem length_le_overwrite (data buf : Bytes) : data.length ≤ (data ++ buf.drop data.length).length := by
  rw [List.length_append]
  exact Nat.le_add_right _ _

/-- The octets of a datagram are routed into the buffer, which has room for them or was grown. -/
def UdpPktctx.fill (pk : UdpPktctx) (data : Bytes) : UdpPktctx :=
  ⟨pk.peer, data ++ pk.buf.drop data.length, data.length, 0, Nat.zero_le data.length,
    length_le_overwrite data pk.buf⟩

@[simp] theorem UdpPktctx.fill_peer (pk : UdpPktctx) (data : Bytes) : (pk.fill data).peer = pk.peer := rfl

@[simp] theorem UdpPktctx.fill_rest (pk : UdpPktctx) (data : Bytes) : (pk.fill data).rest = data :=
  List.take_left

theorem UdpPktctx.pos_add_le (pk : UdpPktctx) (n : Nat) : pk.bufPos + min (pk.bufLen - pk.bufPos) n ≤ pk.bufLen := by
  have := pk.pos_le
  omega

/-- `udp_pkt_read`. -/
def udpPktRead (pk : UdpPktctx) (n : Nat) : Except Int Bytes × UdpPktctx :=
  let avail := pk.bufLen - pk.bufPos
  if avail = 0 then (.error ZCIO_ERR_WOULDBLOCK, pk)
  else (.ok ((pk.buf.drop pk.bufPos).take (min avail n)),
    ⟨pk.peer, pk.buf, pk.bufLen, pk.bufPos + min avail n, pk.pos_add_le n, pk.len_le⟩)

/-- `udp_pkt_available`. -/
def udpPktAvailable (pk : UdpPktctx) : Nat := pk.bufLen - pk.bufPos

/-- `zcio_read` of the stream of a packet. -/
def udpRead (pk : UdpPktctx) (n : Nat) : Except Int Bytes × UdpPktctx :=
  if n = 0 then (.ok [], pk) else udpPktRead pk n

/-- What a read of a mailbox gives. -/
def fetched (box : Bytes) (n : Nat) : Except Int Bytes :=
  if n = 0 then .ok [] else if box = [] then .error ZCIO_ERR_WOULDBLOCK else .ok (box.take n)

/-- **A read** takes from what is buffered. -/
theorem udpRead_eq (pk : UdpPktctx) (n : Nat) :
    (udpRead pk n).1 = fetched pk.rest n ∧ (udpRead pk n).2.peer = pk.peer ∧ (udpRead pk n).2.rest = pk.rest.drop n := by
  have hlen := pk.length_rest
  rw [udpRead, fetched]
  split
  · rename_i hn
    rw [hn]
    exact ⟨rfl, rfl, rfl⟩
  · rw [udpPktRead]
    split
    · rename_i hdrained
      have hnil : pk.rest = [] := List.length_eq_zero_iff.mp (hlen.trans hdrained)
      rw [hnil]
      exact ⟨rfl, rfl, List.drop_nil.symm⟩
    · rename_i hsome
      have hne : pk.rest ≠ [] := fun h => hsome (hlen.symm.trans (congrArg List.length h))
      have htake : (pk.buf.drop pk.bufPos).take (min (pk.bufLen - pk.bufPos) n) = pk.rest.take n := by
        rw [UdpPktctx.rest, List.drop_take, List.take_take, Nat.min_comm]
      rw [if_neg hne, htake]
      refine ⟨rfl, rfl, ?_⟩
      rw [UdpPktctx.rest, UdpPktctx.rest, List.drop_drop]
      dsimp only
      rcases Nat.le_total (pk.bufLen - pk.bufPos) n with hle | hle
      · -- all of it
        rw [Nat.min_eq_left hle, List.drop_of_length_le, List.drop_of_length_le]
        all_goals
          rw [List.length_take, Nat.min_eq_left pk.len_le]
          omega
      · rw [Nat.min_eq_right hle]

/-! ### The server

One socket, and a table of peers that grows. -/

/-- `struct zcio_udp_server`: the table has `peers_cap` slots, and `rcvtimeo_us` counts if
`rcvtimeo_set`. `sockTimeo` is `SO_RCVTIMEO` of the socket. -/
structure UdpServer where
  peers : List UdpPktctx := []
  peersCap : Nat := 0
  rcvtimeo : Option Nat := none
  sockTimeo : Timeval := ⟨0, 0⟩

/-- What `recvfrom` returns: the errors, and a datagram. -/
inductive RecvRet where
  | eintr
  | failed
  | datagram (peer : SockaddrIn) (data : Bytes)
  deriving Repr, DecidableEq

/-- The allocations of a receive, each of which may fail. -/
structure UdpAlloc where
  ctx : Bool := true
  stream : Bool := true
  packet : Bool := true
  table : Bool := true
  buffer : Bool := true
  deriving Repr, DecidableEq

/-- What `zcio_udp_server_receive` returns: `NULL` in silence, `NULL` with an error, or a packet. -/
inductive UdpReceived where
  | nothing
  | failed (e : HttpFail)
  | packet (i : Nat)
  deriving Repr, DecidableEq

/-- The loop around `recvfrom`, which returns no more than the buffer holds. -/
def udpRecvfrom : List RecvRet → Option (SockaddrIn × Bytes)
  | .eintr :: rets => udpRecvfrom rets
  | .datagram peer data :: _ => some (peer, data.take UDP_RECV_BUF)
  | .failed :: _ => none
  | [] => none

/-- `server_peer`. -/
def serverPeer (alloc : UdpAlloc) (s : UdpServer) (peer : SockaddrIn) : Option (UdpServer × Nat) :=
  match s.peers.findIdx? fun pk => pk.peer = peer with
  | some i => some (s, i)
  | none =>
    if !alloc.ctx || !alloc.stream || !alloc.packet then none
    else if s.peers.length ≥ s.peersCap then
      if !alloc.table then none
      else some ({ s with
        peers := s.peers ++ [.new peer]
        peersCap := if s.peersCap ≠ 0 then s.peersCap * 2 else 8 }, s.peers.length)
    else some ({ s with peers := s.peers ++ [.new peer] }, s.peers.length)

/-- `SO_RCVTIMEO` is set by a receive with another timeout than the one before. -/
def udpSetTimeo (nonBlock : Bool) (timeoutUs : Nat) (s : UdpServer) : UdpServer :=
  if nonBlock && s.rcvtimeo != some timeoutUs then
    { s with sockTimeo := ⟨timeoutUs / 1000000, timeoutUs % 1000000⟩, rcvtimeo := some timeoutUs }
  else s

/-- `zcio_udp_server_receive`. -/
def udpServerReceive (nonBlock : Bool) (timeoutUs : Nat) (rets : List RecvRet) (alloc : UdpAlloc) (s : UdpServer) :
    UdpServer × UdpReceived :=
  let s := udpSetTimeo nonBlock timeoutUs s
  let outOfMemory := UdpReceived.failed ⟨ZCIO_ERR_NOMEM, str "udp_receive: out of memory"⟩
  match udpRecvfrom rets with
  | none => (s, .nothing)
  | some (peer, data) =>
    if data = [] then (s, .nothing)
    else
      match serverPeer alloc s peer with
      | none => (s, outOfMemory)
      | some (s, i) =>
        match s.peers[i]? with
        | none => (s, .nothing)
        | some pk =>
          if pk.buf.length < data.length && !alloc.buffer then (s, outOfMemory)
          else ({ s with peers := s.peers.set i (pk.fill data) }, .packet i)

/-! ### Runs -/

/-- A call, with what it meets with. -/
inductive UdpCall where
  | receive (nonBlock : Bool) (timeoutUs : Nat) (rets : List RecvRet) (alloc : UdpAlloc)
  | read (i n : Nat)
  | available (i : Nat)

/-- What a call returns; nothing, if there is no such packet. -/
inductive UdpSeen where
  | received (r : UdpReceived)
  | read (r : Except Int Bytes)
  | available (n : Nat)
  | noPacket

def udpStep (s : UdpServer) : UdpCall → UdpServer × UdpSeen
  | .receive nonBlock timeoutUs rets alloc =>
    let (s, r) := udpServerReceive nonBlock timeoutUs rets alloc s
    (s, .received r)
  | .read i n =>
    match s.peers[i]? with
    | none => (s, .noPacket)
    | some pk =>
      let (r, pk) := udpRead pk n
      ({ s with peers := s.peers.set i pk }, .read r)
  | .available i =>
    match s.peers[i]? with
    | none => (s, .noPacket)
    | some pk => (s, .available (udpPktAvailable pk))

/-- The server behind a run of calls, and what they returned. -/
def udpRun (s : UdpServer) : List UdpCall → UdpServer × List (UdpCall × UdpSeen)
  | [] => (s, [])
  | call :: calls =>
    let (s, seen) := udpStep s call
    let (s, trace) := udpRun s calls
    (s, (call, seen) :: trace)

/-! ### Mailboxes

The server as its callers may think of it: for each address the octets that have come in and are not
read. `handle` says which address a packet is for. -/

/-- The unread octets for each address. -/
abbrev Mail := SockaddrIn → Bytes

/-- An allocation fails. -/
def UdpAlloc.Fails (alloc : UdpAlloc) : Prop :=
  (alloc.ctx && alloc.stream && alloc.packet && alloc.table && alloc.buffer) = false

/-- What a call does to the mailboxes. A datagram takes the place of what was not read, and nothing that
fails changes a mailbox. -/
def MailStep (handle : Nat → Option SockaddrIn) (m m' : Mail) : UdpCall → UdpSeen → Prop
  | .receive _ _ rets _, .received (.packet i) =>
    ∃ peer data, udpRecvfrom rets = some (peer, data) ∧ data ≠ [] ∧ handle i = some peer ∧
      m' = Function.update m peer data
  | .receive _ _ rets _, .received .nothing => m' = m ∧ ∀ peer data, udpRecvfrom rets = some (peer, data) → data = []
  | .receive _ _ _ alloc, .received (.failed e) =>
    m' = m ∧ alloc.Fails ∧ e = ⟨ZCIO_ERR_NOMEM, str "udp_receive: out of memory"⟩
  | .read i n, .read r =>
    ∃ peer, handle i = some peer ∧ r = fetched (m peer) n ∧ m' = Function.update m peer ((m peer).drop n)
  | .available i, .available n => ∃ peer, handle i = some peer ∧ n = (m peer).length ∧ m' = m
  | .read _ _, .noPacket => m' = m
  | .available _, .noPacket => m' = m
  | _, _ => False

/-- A run of the mailboxes. -/
inductive MailRun (handle : Nat → Option SockaddrIn) : Mail → List (UdpCall × UdpSeen) → Mail → Prop
  | nil (m : Mail) : MailRun handle m [] m
  | cons {m m' m'' : Mail} {call : UdpCall} {seen : UdpSeen} {trace : List (UdpCall × UdpSeen)}
      (step : MailStep handle m m' call seen) (run : MailRun handle m' trace m'') :
      MailRun handle m ((call, seen) :: trace) m''

/-! ### The invariant

The table has each peer once; its contents are the mail of each peer. -/

/-- What the packets of the server hold. -/
def UdpServer.mail (s : UdpServer) : Mail := valueAt UdpPktctx.peer UdpPktctx.rest [] s.peers

/-- The addresses of the packets. -/
def UdpServer.handle (s : UdpServer) (i : Nat) : Option SockaddrIn := s.peers[i]?.map UdpPktctx.peer

/-- **The invariant**: no address has two packets, the table has room for its packets, and the socket
has the timeout it is known by. -/
structure UdpServer.Ok (s : UdpServer) : Prop where
  keyed : (s.peers.map UdpPktctx.peer).Nodup
  room : s.peers.length ≤ s.peersCap
  timeo : s.sockTimeo = s.rcvtimeo.elim ⟨0, 0⟩ fun us => ⟨us / 1000000, us % 1000000⟩

variable {s : UdpServer} {alloc : UdpAlloc} {peer : SockaddrIn}

/-- A server whose packets are for the same addresses. -/
theorem UdpServer.Ok.set (h : s.Ok) {i : Nat} {pk pk' : UdpPktctx} (hget : s.peers[i]? = some pk)
    (hpeer : pk'.peer = pk.peer) :
    { s with peers := s.peers.set i pk' }.Ok ∧
      (s.peers.set i pk').map UdpPktctx.peer = s.peers.map UdpPktctx.peer := by
  obtain ⟨hi, hpk⟩ := List.getElem?_eq_some_iff.mp hget
  have hsame : (s.peers.set i pk').map UdpPktctx.peer = s.peers.map UdpPktctx.peer := by
    rw [List.map_set, hpeer, ← hpk, ← List.getElem_map UdpPktctx.peer, List.set_getElem_self]
    rwa [List.length_map]
  refine ⟨⟨?_, ?_, h.timeo⟩, hsame⟩
  · dsimp only
    rw [hsame]
    exact h.keyed
  · dsimp only
    rw [List.length_set]
    exact h.room

/-- `server_peer` finds or makes the packet, or an allocation fails. -/
theorem serverPeer_cases (h : s.Ok) (alloc : UdpAlloc) (peer : SockaddrIn) :
    (serverPeer alloc s peer = none ∧ alloc.Fails) ∨
      ∃ s', serverPeer alloc s peer = some (s', (intern UdpPktctx.peer (.new peer) s.peers).2) ∧
        s'.peers = (intern UdpPktctx.peer (.new peer) s.peers).1 ∧ s'.Ok ∧ s'.rcvtimeo = s.rcvtimeo := by
  -- the table is keyed by the peer, with or without the new one
  have hkeyed : ((intern UdpPktctx.peer (.new peer) s.peers).1.map UdpPktctx.peer).Nodup := intern_nodup h.keyed
  have hintern : intern UdpPktctx.peer (.new peer) s.peers =
      match s.peers.findIdx? fun pk => pk.peer = peer with
      | some i => (s.peers, i)
      | none => (s.peers ++ [.new peer], s.peers.length) := rfl
  rw [serverPeer]
  -- the peer is known
  cases hfound : s.peers.findIdx? fun pk => pk.peer = peer with
  | some i =>
    rw [hfound] at hintern
    rw [hintern]
    exact .inr ⟨s, rfl, rfl, h, rfl⟩
  -- a new peer: three allocations, each of which may fail
  | none =>
    rw [hfound] at hintern
    dsimp only at hintern
    rw [hintern] at hkeyed ⊢
    have hroom := h.room
    have hlen : (s.peers ++ [UdpPktctx.new peer]).length = s.peers.length + 1 := List.length_append
    dsimp only
    split
    · rename_i hfails
      refine .inl ⟨rfl, ?_⟩
      simp only [Bool.or_eq_true, Bool.not_eq_true'] at hfails
      rw [UdpAlloc.Fails]
      rcases hfails with (hf | hf) | hf <;> simp [hf]
    · -- the table is full and grows, or has room
      split
      · split
        · rename_i hfails
          simp only [Bool.not_eq_true'] at hfails
          refine .inl ⟨rfl, ?_⟩
          rw [UdpAlloc.Fails, hfails, Bool.and_false, Bool.false_and]
        · refine .inr ⟨_, rfl, rfl, ⟨hkeyed, ?_, h.timeo⟩, rfl⟩
          dsimp only
          rw [hlen]
          split <;> omega
      · refine .inr ⟨_, rfl, rfl, ⟨hkeyed, ?_, h.timeo⟩, rfl⟩
        dsimp only
        rw [hlen]
        omega

/-- The timeout behind a call: that of the last receive that was not to block. -/
def UdpCall.timeo (us : Option Nat) : UdpCall → Option Nat
  | .receive true timeoutUs _ _ => some timeoutUs
  | _ => us

theorem udpSetTimeo_ok (h : s.Ok) (nonBlock : Bool) (timeoutUs : Nat) (rets : List RecvRet) (alloc : UdpAlloc) :
    (udpSetTimeo nonBlock timeoutUs s).Ok ∧ (udpSetTimeo nonBlock timeoutUs s).peers = s.peers ∧
      (udpSetTimeo nonBlock timeoutUs s).rcvtimeo = (UdpCall.receive nonBlock timeoutUs rets alloc).timeo s.rcvtimeo := by
  rw [udpSetTimeo]
  cases nonBlock with
  | false => exact ⟨h, rfl, rfl⟩
  | true =>
    split
    · exact ⟨⟨h.keyed, h.room, rfl⟩, rfl, rfl⟩
    · rename_i hsame
      exact ⟨h, rfl, by simpa [UdpCall.timeo] using hsame⟩

/-- What a step of the server comes to: the invariant, the packets there were, and a step of the
mailboxes, for any reading of the packets that agrees with the server's. -/
structure UdpRefines (s : UdpServer) (call : UdpCall) (r : UdpServer × UdpSeen) : Prop where
  ok : r.1.Ok
  known : s.peers.map UdpPktctx.peer <+: r.1.peers.map UdpPktctx.peer
  timeo : r.1.rcvtimeo = call.timeo s.rcvtimeo
  mail : ∀ handle : Nat → Option SockaddrIn, (∀ i pk, r.1.peers[i]? = some pk → handle i = some pk.peer) →
    MailStep handle s.mail r.1.mail call r.2

/-- Nothing came. -/
theorem udpServerReceive_nothing {nonBlock : Bool} {timeoutUs : Nat} {rets : List RecvRet} {s₁ : UdpServer}
    (h₁ : s₁.Ok) (hpeers : s₁.peers = s.peers)
    (htimeo : s₁.rcvtimeo = (UdpCall.receive nonBlock timeoutUs rets alloc).timeo s.rcvtimeo)
    (hnone : ∀ peer data, udpRecvfrom rets = some (peer, data) → data = []) :
    UdpRefines s (.receive nonBlock timeoutUs rets alloc) (s₁, .received .nothing) where
  ok := h₁
  known := hpeers ▸ List.prefix_rfl
  timeo := htimeo
  mail handle _ := ⟨by rw [UdpServer.mail, UdpServer.mail, hpeers], hnone⟩

/-- **A receive** is a step of the mailboxes. -/
theorem udpServerReceive_refines (h : s.Ok) (nonBlock : Bool) (timeoutUs : Nat) (rets : List RecvRet) (alloc : UdpAlloc) :
    UdpRefines s (.receive nonBlock timeoutUs rets alloc)
      ((udpServerReceive nonBlock timeoutUs rets alloc s).1,
        .received (udpServerReceive nonBlock timeoutUs rets alloc s).2) := by
  obtain ⟨h₁, hpeers, htimeo⟩ := udpSetTimeo_ok h nonBlock timeoutUs rets alloc
  rw [udpServerReceive]
  generalize udpSetTimeo nonBlock timeoutUs s = s₁ at h₁ hpeers htimeo
  -- no datagram came
  cases hret : udpRecvfrom rets with
  | none => 
    refine udpServerReceive_nothing h₁ hpeers htimeo fun peer data hdata => ?_
    rw [hret] at hdata
    cases hdata
  | some got =>
    obtain ⟨peer, data⟩ := got
    dsimp only
    -- an empty datagram counts as none
    split
    · rename_i hempty
      refine udpServerReceive_nothing h₁ hpeers htimeo fun peer' data' hdata => ?_
      rw [hret] at hdata
      cases hdata
      exact hempty
    · rename_i hdata
      -- its sender is entered in the table, or there is no memory for it
      rcases serverPeer_cases h₁ alloc peer with ⟨hnone, hfails⟩ | ⟨s₂, hsome, hpeers₂, h₂, htimeo₂⟩
      · rw [hnone]
        exact ⟨h₁, hpeers ▸ List.prefix_rfl, htimeo, fun handle _ =>
          ⟨by rw [UdpServer.mail, UdpServer.mail, hpeers], hfails, rfl⟩⟩
      · obtain ⟨pk, hget, hpk⟩ := intern_get UdpPktctx.peer (.new peer) s₁.peers
        have hkept : s₁.peers <+: s₂.peers := hpeers₂ ▸ intern_prefix _ _ _
        have hmail : s₂.mail = s.mail := by
          rw [UdpServer.mail, UdpServer.mail, ← hpeers, hpeers₂]
          exact valueAt_intern h₁.keyed rfl
        rw [← hpeers₂] at hget
        rw [hsome]
        dsimp only
        generalize (intern UdpPktctx.peer (.new peer) s₁.peers).2 = i at hget
        rw [hget]
        dsimp only
        rw [hpeers] at hkept
        -- the payload of the sender is replaced, or there is no memory for the new one
        split
        · rename_i hfails
          rw [Bool.and_eq_true, Bool.not_eq_true'] at hfails
          refine ⟨h₂, hkept.map _, htimeo₂.trans htimeo, fun handle _ => ⟨hmail, ?_, rfl⟩⟩
          rw [UdpAlloc.Fails, hfails.2, Bool.and_false]
        · obtain ⟨h₃, hsame⟩ := h₂.set hget (pk.fill_peer data)
          refine ⟨h₃, ?_, htimeo₂.trans htimeo, fun handle hhandle => ⟨peer, data, hret, hdata, ?_, ?_⟩⟩
          · dsimp only
            rw [hsame]
            exact hkept.map _
          · -- the handle is that of the sender
            have hi := (List.getElem?_eq_some_iff.mp hget).1
            exact (hhandle i _ (List.getElem?_set_self hi)).trans (congrArg some hpk)
          · -- and only the sender's mail has changed
            have hset : valueAt UdpPktctx.peer UdpPktctx.rest [] (s₂.peers.set i (pk.fill data)) =
                Function.update s₂.mail pk.peer (pk.fill data).rest :=
              valueAt_set h₂.keyed hget (pk.fill_peer data)
            rw [UdpPktctx.fill_rest, hpk] at hset
            rw [← hmail]
            exact hset

/-- **One step.** -/
theorem udpStep_refines (h : s.Ok) (call : UdpCall) : UdpRefines s call (udpStep s call) := by
  cases call with
  | receive nonBlock timeoutUs rets alloc => exact udpServerReceive_refines h nonBlock timeoutUs rets alloc
  | read i n =>
    rw [udpStep]
    cases hget : s.peers[i]? with
    | none => exact ⟨h, List.prefix_rfl, rfl, fun _ _ => rfl⟩
    | some pk =>
      obtain ⟨hr, hpeer, hrest⟩ := udpRead_eq pk n
      obtain ⟨h', hsame⟩ := h.set hget hpeer
      have hi := (List.getElem?_eq_some_iff.mp hget).1
      have hbox : s.mail pk.peer = pk.rest := valueAt_get h.keyed hget
      refine ⟨h', hsame ▸ List.prefix_rfl, rfl, fun handle hhandle => ⟨pk.peer, ?_, ?_, ?_⟩⟩
      · exact (hhandle i _ (List.getElem?_set_self hi)).trans (congrArg some hpeer)
      · rw [hbox]
        exact hr
      · rw [hbox, ← hrest]
        exact valueAt_set h.keyed hget hpeer
  | available i =>
    rw [udpStep]
    cases hget : s.peers[i]? with
    | none => exact ⟨h, List.prefix_rfl, rfl, fun _ _ => rfl⟩
    | some pk =>
      refine ⟨h, List.prefix_rfl, rfl, fun handle hhandle => ⟨pk.peer, hhandle i pk hget, ?_, rfl⟩⟩
      have hbox : s.mail pk.peer = pk.rest := valueAt_get h.keyed hget
      rw [hbox, pk.length_rest]
      rfl

/-! ### Runs -/

/-- A run keeps the invariant and the packets, and is a run of the mailboxes. -/
theorem udpRun_refines (calls : List UdpCall) (h : s.Ok) :
    (udpRun s calls).1.Ok ∧ s.peers.map UdpPktctx.peer <+: (udpRun s calls).1.peers.map UdpPktctx.peer ∧
      (udpRun s calls).1.rcvtimeo = calls.foldl UdpCall.timeo s.rcvtimeo ∧
      MailRun (udpRun s calls).1.handle s.mail (udpRun s calls).2 (udpRun s calls).1.mail := by
  induction calls generalizing s with
  | nil => exact ⟨h, List.prefix_rfl, rfl, .nil _⟩
  | cons call calls ih =>
    obtain ⟨hok, hknown, htimeo, hmail⟩ := udpStep_refines h call
    obtain ⟨hok', hknown', htimeo', hrun⟩ := ih hok
    rw [htimeo] at htimeo'
    rw [udpRun]
    refine ⟨hok', hknown.trans hknown', htimeo', .cons (hmail _ fun i pk hget => ?_) hrun⟩
    -- a packet is for the address it is for in the end
    obtain ⟨rest, hrest⟩ := hknown'
    have hmap : ((udpStep s call).1.peers.map UdpPktctx.peer)[i]? = some pk.peer := by
      rw [List.getElem?_map, hget]
      rfl
    have hi := (List.getElem?_eq_some_iff.mp hmap).1
    rw [UdpServer.handle, ← List.getElem?_map, ← hrest, List.getElem?_append_left hi, hmap]

/-- **The server is a mailbox for each address.** In every run of receives and of reads through its
packets, in any order and with any interrupts, errors and failed allocations, a packet is for one
address for ever and an address has one packet; what the calls return is what they return of a mailbox
for each address, which holds the unread octets of its last datagram. The socket waits as long as the
last receive said that was not to block. -/
theorem udpRun_mailboxes (calls : List UdpCall) :
    let r := udpRun {} calls
    (∀ i j, (r.1.handle i).isSome → r.1.handle i = r.1.handle j → i = j) ∧
      MailRun r.1.handle (fun _ => []) r.2 r.1.mail ∧
      r.1.sockTimeo = (calls.foldl UdpCall.timeo none).elim ⟨0, 0⟩ fun us => ⟨us / 1000000, us % 1000000⟩ := by
  have hnew : UdpServer.Ok {} := ⟨List.nodup_nil, Nat.le_refl 0, rfl⟩
  obtain ⟨hok, -, htimeo, hrun⟩ := udpRun_refines calls hnew
  refine ⟨fun i j hsome heq => ?_, hrun, htimeo ▸ hok.timeo⟩
  simp only [UdpServer.handle, ← List.getElem?_map] at hsome heq
  obtain ⟨peer, hpeer⟩ := Option.isSome_iff_exists.mp hsome
  exact (List.getElem?_inj (List.getElem?_eq_some_iff.mp hpeer).1 hok.keyed).mp heq

end Zcio
