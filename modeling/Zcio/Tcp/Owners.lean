import Zcio.Tcp.Sockets

/-!
# Zcio.Tcp.Owners

A program that uses `tcp.c`: its clients, its servers with their connections, their streams, and the
descriptors it has of its own. It does not use what it has freed.

* **`tcpRun_owns`**: whatever is called in whatever order, each open socket has one owner that is still
  to close it, and each stream has one owner that is still to free it.
* **`adopt_outOfMemory`**: why `zcio_tcp_server_adopt` is left out where it has no memory.

A call that has not returned is no step. An address is one that `malloc` can return.
-/

namespace Zcio

open Lib

/-! ### Memory

The streams of the program at their addresses, as the allocator gave them out. A call on an
address that holds none is recorded. -/

/-- The process, and the streams in its memory. `wild` is whether one was used that is not there. -/
structure TcpMem where
  proc : TcpProc := {}
  streams : Nat → Option NetStream := fun _ => none
  wild : Bool := false

/-- Another stream, or none, at an address. -/
def TcpMem.put (m : TcpMem) (ptr : Nat) (st : Option NetStream) (proc : TcpProc) : TcpMem :=
  { m with streams := Function.update m.streams ptr st, proc }

/-- A call on a stream. -/
def TcpMem.onStream (m : TcpMem) (ptr : Nat) (f : NetStream → TcpProc → NetStream × TcpProc) : TcpMem :=
  match m.streams ptr with
  | none => { m with wild := true }
  | some st => m.put ptr (some (f st m.proc).1) (f st m.proc).2

/-- `zcio_stream_free`. -/
def TcpMem.freeStream (m : TcpMem) (ptr : Nat) (bye : List SockIo) : TcpMem :=
  match m.streams ptr with
  | none => { m with wild := true }
  | some st => m.put ptr none (zcioStreamFree st bye m.proc)

/-- The socket of a stream. -/
def TcpMem.sockOf (m : TcpMem) (ptr : Nat) : Option Nat := (m.streams ptr).bind fun st => st.ctx.sock

/-! ### The calls

The functions of tcp.c that take a stream or a socket from where the program keeps it. -/

/-- `zcio_tcp_client`. -/
structure TcpClient extends TcpConn where
  tls : Bool
  deriving Repr, DecidableEq

/-- `zcio_tcp_client_tls_upgrade`. -/
def zcioTcpClientTlsUpgrade (c : TcpClient) (handshake : List SockIo) (ok : Bool) (m : TcpMem) :
    Except HttpFail Unit × TcpClient × TcpMem :=
  if c.tls then (httpFail ZCIO_ERR (str "tls_upgrade: already secured"), c, m)
  else
    let m := m.onStream c.stream fun st p => zcioTlsWrap st handshake ok p
    if !ok then (httpFail ZCIO_ERR_TLS (str "tls_upgrade: handshake failed"), c, m)
    else (.ok (), { c with tls := true }, m)

/-- `zcio_tcp_client_wait_readable` and its like: they wait on `fd`, which is a copy. -/
def tcpConnWait (c : TcpConn) (timeoutMs : Int) (wantRead : Bool) (calls : List KernelSelect) (p : TcpProc) :
    Option Bool × TcpProc :=
  let w := tcpWait timeoutMs wantRead (!wantRead) calls p.ns
  (w.result.map fun r => if wantRead then r.readable else r.writable, { p.touch c.fd with ns := w.time })

/-- `zcio_tcp_client_bytes_available`, which asks for `fd` too; `FIONREAD` has `count`, or fails. -/
def zcioTcpClientBytesAvailable (c : TcpClient) (count : Option Int) (p : TcpProc) : Int × TcpProc :=
  (count.getD ZCIO_ERR, p.touch c.fd)

/-- `zcio_tcp_server_close_client`, with the stream. -/
def tcpServerCloseClient (l : TcpListener) (id : Nat) (freeOk : Bool) (bye : List SockIo) (m : TcpMem) :
    Except HttpFail Unit × TcpListener × TcpMem :=
  match zcioTcpServerCloseClient l.srv id freeOk with
  | (.error e, srv) => (.error e, { l with srv }, m)
  | (.ok (), srv) =>
    (.ok (), { l with srv }, ((l.srv.conn id).map fun c => m.freeStream c.stream bye).getD m)

/-- The clients that `zcio_tcp_server_free` frees. -/
def freeConns (srv : TcpServer TcpConn) (bye : Nat → List SockIo) (ids : List Nat) (m : TcpMem) : TcpMem :=
  ids.foldl (fun m id => ((srv.conn id).map fun c => m.freeStream c.stream (bye id)).getD m) m

/-- `zcio_tcp_server_free`. -/
def zcioTcpServerFree (l : TcpListener) (bye : Nat → List SockIo) (m : TcpMem) : TcpMem :=
  let m := freeConns l.srv bye (List.range l.srv.slotsLen) m
  { m with proc := (m.proc.touch l.listenFd).closesocket l.listenFd }

/-! ### The program

Clients, servers and their connections, and the steps a program may take. `Allowed` leaves
out the calls that the interface forbids. -/

/-- What a program has. -/
structure TcpWorld extends TcpMem where
  clients : Nat → Option TcpClient := fun _ => none
  servers : Nat → Option TcpListener := fun _ => none
  callerFds : List Nat := []

/-- What has a stream: a client, or a slot of a server. -/
inductive TcpHolder where
  | client (client : Nat)
  | slot (server id : Nat)
  deriving Repr, DecidableEq

/-- What has a descriptor besides the streams. -/
inductive FdHolder where
  | server (server : Nat)
  | caller (fd : Nat)
  deriving Repr, DecidableEq

def TcpWorld.connOf (w : TcpWorld) : TcpHolder → Option TcpConn
  | .client client => (w.clients client).map TcpClient.toTcpConn
  | .slot server id => (w.servers server).bind fun l => l.srv.conn id

def TcpWorld.fdOf (w : TcpWorld) : FdHolder → Option Nat
  | .server server => (w.servers server).map TcpListener.listenFd
  | .caller fd => if fd ∈ w.callerFds then some fd else none

/-- A call of the program. -/
inductive TcpStep where
  | socket
  | closesocket (fd : Nat)
  | connect (client stream : Nat) (call : ClientMake)
  | upgrade (client : Nat) (handshake : List SockIo) (ok : Bool)
  | clientFree (client : Nat) (bye : List SockIo)
  | use (holder : TcpHolder) (op : StreamOp)
  | wait (holder : TcpHolder) (timeoutMs : Int) (wantRead : Bool) (calls : List KernelSelect)
  | bytesAvailable (client : Nat) (count : Option Int)
  | listen (server : Nat) (call : ServerMake)
  | adopt (server fd : Nat) (tls nonblockOk allocated : Bool)
  | accept (server : Nat) (io : AcceptIo)
  | closeClient (server id : Nat) (freeOk : Bool) (bye : List SockIo)
  | serverFree (server : Nat) (bye : Nat → List SockIo)

def TcpWorld.step (w : TcpWorld) : TcpStep → TcpWorld
  | .socket => { w with proc := w.proc.socket, callerFds := lowestFree w.proc.openFds :: w.callerFds }
  | .closesocket fd => { w with proc := w.proc.closesocket fd, callerFds := w.callerFds.filter (· ≠ fd) }
  | .connect client stream call =>
    if (w.clients client).isSome || (w.streams stream).isSome then w
    else
      match tcpClientMake call w.proc with
      | (none, _) => w
      | (some (.error _), proc) => { w with proc }
      | (some (.ok (fd, st)), proc) =>
        { w with
          toTcpMem := w.put stream (some st) proc
          clients := Function.update w.clients client (some ⟨⟨fd, stream⟩, call.tls⟩) }
  | .upgrade client handshake ok =>
    match w.clients client with
    | none => w
    | some c =>
      let (_, c, mem) := zcioTcpClientTlsUpgrade c handshake ok w.toTcpMem
      { w with toTcpMem := mem, clients := Function.update w.clients client (some c) }
  | .clientFree client bye =>
    match w.clients client with
    | none => w
    | some c =>
      { w with toTcpMem := w.freeStream c.stream bye, clients := Function.update w.clients client none }
  | .use holder op =>
    match w.connOf holder with
    | none => w
    | some c => { w with toTcpMem := w.onStream c.stream fun st p => op.run st p }
  | .wait holder timeoutMs wantRead calls =>
    match w.connOf holder with
    | none => w
    | some c => { w with proc := (tcpConnWait c timeoutMs wantRead calls w.proc).2 }
  | .bytesAvailable client count =>
    match w.clients client with
    | none => w
    | some c => { w with proc := (zcioTcpClientBytesAvailable c count w.proc).2 }
  | .listen server call =>
    if (w.servers server).isSome then w
    else
      match tcpServerMake call w.proc with
      | (.error _, proc) => { w with proc }
      | (.ok l, proc) => { w with proc, servers := Function.update w.servers server (some l) }
  | .adopt server fd tls nonblockOk allocated =>
    if (w.servers server).isSome then w
    else
      match zcioTcpServerAdopt (some fd) tls nonblockOk allocated w.proc with
      | (.error _, proc) => { w with proc }
      | (.ok l, proc) =>
        { w with
          proc
          servers := Function.update w.servers server (some l)
          callerFds := w.callerFds.filter (· ≠ fd) }
  | .accept server io =>
    match w.servers server with
    | none => w
    | some l =>
      if (w.streams io.stream).isSome then w
      else
        match tcpServerAccept l io w.proc with
        | (none, _, _) => w
        | (some (.error _), l, proc) => { w with proc, servers := Function.update w.servers server (some l) }
        | (some (.ok (st, _)), l, proc) =>
          { w with
            toTcpMem := w.put io.stream (some st) proc
            servers := Function.update w.servers server (some l) }
  | .closeClient server id freeOk bye =>
    match w.servers server with
    | none => w
    | some l =>
      let (_, l, mem) := tcpServerCloseClient l id freeOk bye w.toTcpMem
      { w with toTcpMem := mem, servers := Function.update w.servers server (some l) }
  | .serverFree server bye =>
    match w.servers server with
    | none => w
    | some l =>
      { w with toTcpMem := zcioTcpServerFree l bye w.toTcpMem, servers := Function.update w.servers server none }

/-- The stream of a connection is not closed. -/
def TcpWorld.StreamOpen (w : TcpWorld) (holder : TcpHolder) : Prop :=
  ∀ c, w.connOf holder = some c → w.sockOf c.stream ≠ none

/-- What a program may do: it passes on and closes descriptors of its own, and once it has closed the
stream of a connection it neither waits on the connection nor asks what there is to read, which are the
calls that use the copy of the descriptor. An `adopt` that runs out of memory is left out. -/
def TcpStep.Allowed (w : TcpWorld) : TcpStep → Prop
  | .closesocket fd => fd ∈ w.callerFds
  | .wait holder _ _ _ => w.StreamOpen holder
  | .bytesAvailable client _ => w.StreamOpen (.client client)
  | .adopt _ fd _ _ allocated => fd ∈ w.callerFds ∧ allocated = true
  | _ => True

/-- The states of a program. -/
inductive TcpRun : TcpWorld → Prop
  | start : TcpRun {}
  | step {w : TcpWorld} (s : TcpStep) (h : TcpRun w) (allowed : s.Allowed w) : TcpRun (w.step s)

/-! ### What a call preserves

Each call on one stream keeps the others, and closes a descriptor at most once. -/

section Ok

variable {κ η : Type} {m : TcpMem} {others others' : κ → Option Nat} {conns conns' : η → Option TcpConn} {k : η}
  {c : TcpConn} {p' : TcpProc} {fd ptr : Nat} {st : NetStream}

/-- The invariant of the memory, for those that have the other descriptors, and those that have the streams. -/
structure TcpMem.Ok (m : TcpMem) (others : κ → Option Nat) (conns : η → Option TcpConn) : Prop where
  nodup : m.proc.openFds.Nodup
  fds : Owns (· ∈ m.proc.openFds) (Sum.elim m.sockOf others)
  streams : Owns (fun ptr => m.streams ptr ≠ none) fun k => (conns k).map TcpConn.stream
  mirror : ∀ k c, conns k = some c → ∀ fd, m.sockOf c.stream = some fd → fd = c.fd
  stray : m.proc.stray = false
  wild : m.wild = false

/-- The descriptors after a call on one stream. -/
theorem TcpMem.Ok.effect (h : m.Ok others conns) {sockOf' : Nat → Option Nat}
    (heffect : SockEffect (m.sockOf ptr) m.proc (sockOf' ptr) p') (hsame : SameBut m.sockOf ptr sockOf') :
    p'.openFds.Nodup ∧ Owns (· ∈ p'.openFds) (Sum.elim sockOf' others) ∧ p'.stray = false := by
  generalize hsock' : sockOf' ptr = sock' at heffect
  cases heffect with
  | kept same =>
    refine ⟨by rw [same.openFds]; exact h.nodup, h.fds.congr (fun r => by rw [same.openFds]) fun j => ?_, same.stray.trans h.stray⟩
    rcases j with ptr' | j
    · by_cases hptr : ptr' = ptr
      · rw [hptr]
        exact hsock'
      · exact hsame ptr' hptr
    · rfl
  | closed had gone stray =>
    refine ⟨by rw [gone]; exact h.nodup.erase _, ?_, stray.trans h.stray⟩
    refine h.fds.release (k := .inl ptr) had (fun r => ?_) hsock' fun j hj => ?_
    · rw [gone]
      exact h.nodup.mem_erase_iff
    · rcases j with ptr' | j
      · exact hsame ptr' fun hptr => hj (congrArg Sum.inl hptr)
      · rfl

theorem TcpMem.Ok.held (h : m.Ok others conns) (hst : m.streams ptr = some st) : st.ctx.Held m.proc := fun fd hfd =>
  h.fds.pooled (.inl ptr) fd (by rw [Sum.elim_inl, TcpMem.sockOf, hst]; exact hfd)

/-- The stream of a connection is there. -/
theorem TcpMem.Ok.live (h : m.Ok others conns) (hc : conns k = some c) : ∃ st, m.streams c.stream = some st :=
  Option.ne_none_iff_exists'.mp (h.streams.pooled k c.stream (by rw [hc]; rfl))

theorem TcpMem.Ok.proc (h : m.Ok others conns) (hp : m.proc.Same p') : { m with proc := p' }.Ok others conns where
  nodup := hp.openFds ▸ h.nodup
  fds := h.fds.congr (fun r => by rw [hp.openFds]) fun _ => rfl
  streams := h.streams
  mirror := h.mirror
  stray := hp.stray.trans h.stray
  wild := h.wild

theorem TcpMem.Ok.congr (h : m.Ok others conns) (hothers : ∀ k, others' k = others k) (hconns : ∀ k, conns' k = conns k) :
    m.Ok others' conns' := by
  rw [show others' = others from funext hothers, show conns' = conns from funext hconns]
  exact h

@[simp] theorem put_streams (m : TcpMem) (ptr : Nat) (st? : Option NetStream) (proc : TcpProc) :
    (m.put ptr st? proc).streams = Function.update m.streams ptr st? := rfl

theorem put_sockOf (m : TcpMem) (ptr : Nat) (st? : Option NetStream) (proc : TcpProc) :
    (m.put ptr st? proc).sockOf ptr = st?.bind fun st => st.ctx.sock := by
  rw [TcpMem.sockOf, put_streams, Function.update_self]

theorem put_sockOf_same (m : TcpMem) (ptr : Nat) (st? : Option NetStream) (proc : TcpProc) :
    SameBut m.sockOf ptr (m.put ptr st? proc).sockOf := fun j hj => by
  rw [TcpMem.sockOf, TcpMem.sockOf, put_streams, Function.update_of_ne hj]

theorem put_live (m : TcpMem) (ptr : Nat) (st? : Option NetStream) (proc : TcpProc) (j : Nat) :
    (m.put ptr st? proc).streams j ≠ none ↔ j = ptr ∧ st? ≠ none ∨ j ≠ ptr ∧ m.streams j ≠ none := by
  rw [put_streams]
  by_cases hj : j = ptr
  · rw [hj, Function.update_self]
    exact ⟨fun h => .inl ⟨rfl, h⟩, fun h => (h.resolve_right fun h => h.1 rfl).2⟩
  · rw [Function.update_of_ne hj]
    exact ⟨fun h => .inr ⟨hj, h⟩, fun h => (h.resolve_left fun h => hj h.1).2⟩

/-- **A call on a stream** that a connection has. -/
theorem TcpMem.Ok.onStream (h : m.Ok others conns) (hc : conns k = some c)
    {f : NetStream → TcpProc → NetStream × TcpProc}
    (hf : ∀ st, st.ctx.Held m.proc → SockEffect st.ctx.sock m.proc (f st m.proc).1.ctx.sock (f st m.proc).2) :
    (m.onStream c.stream f).Ok others conns := by
  obtain ⟨st, hst⟩ := h.live hc
  have hsock : m.sockOf c.stream = st.ctx.sock := by rw [TcpMem.sockOf, hst]; rfl
  have heffect := hf st (h.held hst)
  have hself := put_sockOf m c.stream (some (f st m.proc).1) (f st m.proc).2
  have hother := put_sockOf_same m c.stream (some (f st m.proc).1) (f st m.proc).2
  rw [← hsock, ← Option.bind_some (f st m.proc).1 fun st => st.ctx.sock, ← hself] at heffect
  obtain ⟨hnodup, hfds, hstray⟩ := h.effect heffect hother
  rw [TcpMem.onStream, hst]
  refine ⟨hnodup, hfds, h.streams.congr (fun ptr => ?_) fun _ => rfl, fun j d hd fd hfd => ?_, hstray, h.wild⟩
  · rw [put_live]
    by_cases hptr : ptr = c.stream
    · rw [hptr, hst]
      exact iff_of_true (.inl ⟨rfl, Option.some_ne_none _⟩) (Option.some_ne_none _)
    · exact ⟨fun hlive => (hlive.resolve_left fun h => hptr h.1).2, fun hlive => .inr ⟨hptr, hlive⟩⟩
  · refine h.mirror j d hd fd ?_
    by_cases hptr : d.stream = c.stream
    · rw [hptr] at hfd ⊢
      exact heffect.sub hfd
    · exact (hother _ hptr).symm.trans hfd

/-- **Freeing the stream** of a connection, which has none then. -/
theorem TcpMem.Ok.free (h : m.Ok others conns) (hc : conns k = some c) (bye : List SockIo) (hself : conns' k = none)
    (hsame : SameBut conns k conns') : (m.freeStream c.stream bye).Ok others conns' := by
  obtain ⟨st, hst⟩ := h.live hc
  have hsock : m.sockOf c.stream = st.ctx.sock := by rw [TcpMem.sockOf, hst]; rfl
  have heffect := zcioStreamFree_effect bye (h.held hst)
  have hput := put_sockOf m c.stream none (zcioStreamFree st bye m.proc)
  have hother := put_sockOf_same m c.stream none (zcioStreamFree st bye m.proc)
  rw [← hsock, ← Option.bind_none fun st : NetStream => st.ctx.sock, ← hput] at heffect
  obtain ⟨hnodup, hfds, hstray⟩ := h.effect heffect hother
  rw [TcpMem.freeStream, hst]
  refine ⟨hnodup, hfds, ?_, fun j d hd fd hfd => ?_, hstray, h.wild⟩
  · refine h.streams.release (k := k) (by rw [hc]; rfl) (fun ptr => ?_) (by rw [hself]; rfl) fun j hj => by rw [hsame j hj]
    rw [put_live]
    exact or_iff_right fun hnone => hnone.2 rfl
  · have hjk : j ≠ k := by
      rintro rfl
      rw [hself] at hd
      cases hd
    rw [hsame j hjk] at hd
    have hptr : d.stream ≠ c.stream := fun hptr =>
      hjk (h.streams.apart j k c.stream (by rw [hd]; exact congrArg some hptr) (by rw [hc]; rfl))
    exact h.mirror j d hd fd ((hother _ hptr).symm.trans hfd)

/-- **A new connection**, with the socket that was opened for it. -/
theorem TcpMem.Ok.new (h : m.Ok others conns) (hptr : m.streams ptr = none) (hopens : m.proc.Opens fd p')
    (hsock : st.ctx.sock = some fd) (hk : conns k = none) (hself : conns' k = some ⟨fd, ptr⟩)
    (hsame : SameBut conns k conns') : (m.put ptr (some st) p').Ok others conns' := by
  have hput : (m.put ptr (some st) p').sockOf ptr = some fd := (put_sockOf m ptr (some st) p').trans hsock
  have hother := put_sockOf_same m ptr (some st) p'
  refine ⟨?_, ?_, ?_, fun j d hd fd' hfd' => ?_, hopens.stray.trans h.stray, h.wild⟩
  · show p'.openFds.Nodup
    rw [hopens.openFds]
    exact List.nodup_cons.mpr ⟨hopens.fresh, h.nodup⟩
  · refine h.fds.acquire (k := .inl ptr) hopens.fresh ?_ (fun r => ?_) hput fun j hj => ?_
    · rw [Sum.elim_inl, TcpMem.sockOf, hptr]
      rfl
    · show r ∈ p'.openFds ↔ _
      rw [hopens.openFds]
      exact List.mem_cons
    · rcases j with ptr' | j
      · exact hother ptr' fun heq => hj (congrArg Sum.inl heq)
      · rfl
  · refine h.streams.acquire (k := k) (r := ptr) (fun hlive => hlive hptr) (by rw [hk]; rfl) (fun j => ?_)
      (by rw [hself]; rfl) fun j hj => by rw [hsame j hj]
    rw [put_live]
    by_cases hj : j = ptr
    · exact iff_of_true (.inl ⟨hj, Option.some_ne_none _⟩) (.inl hj)
    · exact ⟨fun hlive => .inr (hlive.resolve_left fun h => hj h.1).2, fun hlive => .inr ⟨hj, hlive.resolve_left hj⟩⟩
  · by_cases hjk : j = k
    · rw [hjk, hself] at hd
      rw [← Option.some.inj hd] at hfd' ⊢
      exact (Option.some.inj (hput.symm.trans hfd')).symm
    · rw [hsame j hjk] at hd
      have hne : d.stream ≠ ptr := by
        rintro rfl
        exact h.streams.pooled j d.stream (by rw [hd]; rfl) hptr
      exact h.mirror j d hd fd' ((hother _ hne).symm.trans hfd')

/-- **A descriptor** that is opened for something else. -/
theorem TcpMem.Ok.opens {k : κ} (h : m.Ok others conns) (hopens : m.proc.Opens fd p') (hk : others k = none)
    (hself : others' k = some fd) (hsame : SameBut others k others') : { m with proc := p' }.Ok others' conns where
  nodup := hopens.openFds ▸ List.nodup_cons.mpr ⟨hopens.fresh, h.nodup⟩
  fds := by
    refine h.fds.acquire (k := .inr k) hopens.fresh hk (fun r => ?_) hself fun j hj => ?_
    · rw [hopens.openFds]
      exact List.mem_cons
    · rcases j with ptr | j
      · rfl
      · exact hsame j fun heq => hj (congrArg Sum.inr heq)
  streams := h.streams
  mirror := h.mirror
  stray := hopens.stray.trans h.stray
  wild := h.wild

/-- A descriptor of something else is closed. -/
theorem TcpMem.Ok.closes {k : κ} (h : m.Ok others conns) (hk : others k = some fd) (hself : others' k = none)
    (hsame : SameBut others k others') : { m with proc := m.proc.closesocket fd }.Ok others' conns where
  nodup := h.nodup.erase fd
  fds := by
    refine h.fds.release (k := .inr k) hk (fun r => h.nodup.mem_erase_iff) hself fun j hj => ?_
    rcases j with ptr | j
    · rfl
    · exact hsame j fun heq => hj (congrArg Sum.inr heq)
  streams := h.streams
  mirror := h.mirror
  stray := ((TcpProc.Same.self m.proc).touch (h.fds.pooled (.inr k) fd hk)).stray.trans h.stray
  wild := h.wild

/-- A descriptor passes from one to another. -/
theorem TcpMem.Ok.passes {k k' : κ} (h : m.Ok others conns) (hk : others k = some fd) (hk' : others k' = none)
    (hself : others' k = none) (hself' : others' k' = some fd)
    (hsame : ∀ j, j ≠ k → j ≠ k' → others' j = others j) : m.Ok others' conns where
  nodup := h.nodup
  fds := by
    have hnone : Sum.elim m.sockOf others (.inr k') = none := hk'
    refine h.fds.transfer (k := .inr k) hk hnone hself hself' fun j hj hj' => ?_
    rcases j with ptr | j
    · rfl
    · exact hsame j (fun heq => hj (congrArg Sum.inr heq)) fun heq => hj' (congrArg Sum.inr heq)
  streams := h.streams
  mirror := h.mirror
  stray := h.stray
  wild := h.wild

/-- **The clients of a server** are freed, each once. -/
theorem TcpMem.Ok.freeConns (holder : Nat → η) (hinj : Function.Injective holder) {srv : TcpServer TcpConn}
    (bye : Nat → List SockIo) {ids : List Nat} (hnodup : ids.Nodup) (h : m.Ok others conns)
    (hids : ∀ id ∈ ids, conns (holder id) = srv.conn id) (hself : ∀ id ∈ ids, conns' (holder id) = none)
    (hsame : ∀ k, (∀ id ∈ ids, k ≠ holder id) → conns' k = conns k) : (freeConns srv bye ids m).Ok others conns' := by
  classical
  induction ids generalizing m conns with
  | nil => exact h.congr (fun _ => rfl) fun k => hsame k fun id hid => by cases hid
  | cons id ids ih =>
    obtain ⟨hid, hnodup⟩ := List.nodup_cons.mp hnodup
    have hne : ∀ id' ∈ ids, holder id' ≠ holder id := fun id' hid' heq => hid (hinj heq ▸ hid')
    rw [Zcio.freeConns, List.foldl_cons]
    -- the rest finds the connection of `id` gone
    have hnext : (((srv.conn id).map fun c => m.freeStream c.stream (bye id)).getD m).Ok others
        (Function.update conns (holder id) none) := by
      have hslot := hids id List.mem_cons_self
      cases hconn : srv.conn id with
      | none =>
        rw [hconn] at hslot
        refine h.congr (fun _ => rfl) fun k => ?_
        rw [← hslot, Function.update_eq_self]
      | some c => exact h.free (hslot.trans hconn) (bye id) (Function.update_self _ _ _) fun j hj => Function.update_of_ne hj _ _
    refine ih hnodup hnext (fun id' hid' => ?_) (fun id' hid' => hself id' (List.mem_cons_of_mem id hid')) fun k hk => ?_
    · rw [Function.update_of_ne (hne id' hid')]
      exact hids id' (List.mem_cons_of_mem id hid')
    · by_cases hkid : k = holder id
      · rw [hkid, Function.update_self]
        exact hself id List.mem_cons_self
      · rw [Function.update_of_ne hkid]
        exact hsame k fun id' hid' => (List.mem_cons.mp hid').elim (fun heq => heq ▸ hkid) (hk id')

end Ok

/-! ### Runs

Whatever the calls were, every open descriptor has its one owner, and every server keeps the
invariant of its slots. -/

/-- The invariant of a program. -/
structure TcpWorld.Ok (w : TcpWorld) : Prop where
  mem : w.toTcpMem.Ok w.fdOf w.connOf
  servers : ∀ k l, w.servers k = some l → l.srv.Inv

variable {w : TcpWorld}

theorem TcpWorld.Ok.update (h : w.Ok) {k : Nat} {l? : Option TcpListener} (hl : ∀ l, l? = some l → l.srv.Inv) :
    ∀ k' l, Function.update w.servers k l? k' = some l → l.srv.Inv := by
  intro k' l hk'
  by_cases hkk : k' = k
  · rw [hkk, Function.update_self] at hk'
    exact hl l hk'
  · rw [Function.update_of_ne hkk] at hk'
    exact h.servers k' l hk'

/-- The connections after a client was set. -/
theorem connOf_client (w : TcpWorld) (m : TcpMem) (client : Nat) (c? : Option TcpClient) :
    SameBut w.connOf (.client client)
      ({ w with toTcpMem := m, clients := Function.update w.clients client c? } : TcpWorld).connOf := fun j hj => by
  cases j with
  | client c =>
    have hne : c ≠ client := fun heq => hj (congrArg TcpHolder.client heq)
    rw [TcpWorld.connOf, TcpWorld.connOf]
    dsimp only
    rw [Function.update_of_ne hne]
  | slot server id => rfl

theorem connOf_client_self (w : TcpWorld) (m : TcpMem) (client : Nat) (c? : Option TcpClient) :
    ({ w with toTcpMem := m, clients := Function.update w.clients client c? } : TcpWorld).connOf (.client client) =
      c?.map TcpClient.toTcpConn :=
  congrArg (Option.map _) (Function.update_self client c? w.clients)

/-- The descriptors and the connections after a server was set. -/
theorem fdOf_server_self (w : TcpWorld) (m : TcpMem) (server : Nat) (l? : Option TcpListener) :
    ({ w with toTcpMem := m, servers := Function.update w.servers server l? } : TcpWorld).fdOf (.server server) =
      l?.map TcpListener.listenFd :=
  congrArg (Option.map _) (Function.update_self server l? w.servers)

theorem connOf_server_self (w : TcpWorld) (m : TcpMem) (server : Nat) (l? : Option TcpListener) (id : Nat) :
    ({ w with toTcpMem := m, servers := Function.update w.servers server l? } : TcpWorld).connOf (.slot server id) =
      l?.bind fun l => l.srv.conn id :=
  congrArg (Option.bind · _) (Function.update_self server l? w.servers)

theorem fdOf_server (w : TcpWorld) (m : TcpMem) (server : Nat) (l? : Option TcpListener) :
    SameBut w.fdOf (.server server)
      ({ w with toTcpMem := m, servers := Function.update w.servers server l? } : TcpWorld).fdOf := fun j hj => by
  cases j with
  | server k =>
    have hne : k ≠ server := fun heq => hj (congrArg FdHolder.server heq)
    rw [TcpWorld.fdOf, TcpWorld.fdOf]
    dsimp only
    rw [Function.update_of_ne hne]
  | caller fd => rfl

theorem connOf_server (w : TcpWorld) (m : TcpMem) (server : Nat) (l? : Option TcpListener) {k : TcpHolder}
    (hk : ∀ id, k ≠ .slot server id) :
    ({ w with toTcpMem := m, servers := Function.update w.servers server l? } : TcpWorld).connOf k = w.connOf k := by
  cases k with
  | client c => rfl
  | slot k id =>
    have hne : k ≠ server := by
      rintro rfl
      exact hk id rfl
    rw [TcpWorld.connOf, TcpWorld.connOf]
    dsimp only
    rw [Function.update_of_ne hne]

theorem TcpWorld.Ok.connect (h : w.Ok) (client stream : Nat) (call : ClientMake) :
    (w.step (.connect client stream call)).Ok := by
  rw [TcpWorld.step]
  by_cases hfree : ((w.clients client).isSome || (w.streams stream).isSome) = true
  · rw [if_pos hfree]
    exact h
  rw [if_neg hfree]
  rw [Bool.or_eq_true, not_or, Bool.not_eq_true, Bool.not_eq_true, Option.isSome_eq_false_iff, Option.isSome_eq_false_iff,
    Option.isNone_iff_eq_none, Option.isNone_iff_eq_none] at hfree
  have hopens := tcpClientMake_opens call w.proc
  generalize tcpClientMake call w.proc = out at hopens
  obtain ⟨res, p'⟩ := out
  match res with
  | none => exact h
  | some (.error e) => exact ⟨h.mem.proc hopens, h.servers⟩
  | some (.ok (fd, st)) =>
    obtain ⟨hopen, hsock⟩ := hopens
    refine ⟨?_, h.servers⟩
    refine h.mem.new hfree.2 hopen hsock (k := .client client) ?_ (connOf_client_self w _ client _)
      (connOf_client w _ client _)
    rw [TcpWorld.connOf, hfree.1]
    rfl

theorem TcpWorld.Ok.upgrade (h : w.Ok) (client : Nat) (handshake : List SockIo) (ok : Bool) :
    (w.step (.upgrade client handshake ok)).Ok := by
  rw [TcpWorld.step]
  cases hclient : w.clients client with
  | none => exact h
  | some c =>
    have hconn : w.connOf (.client client) = some c.toTcpConn := by
      rw [TcpWorld.connOf, hclient]
      rfl
    -- the client keeps its stream, wrapped or not
    have hsame : ∀ (m : TcpMem) (c' : TcpClient), c'.toTcpConn = c.toTcpConn → ∀ k,
        ({ w with toTcpMem := m, clients := Function.update w.clients client (some c') } : TcpWorld).connOf k = w.connOf k := by
      intro m c' hc' k
      by_cases hk : k = .client client
      · rw [hk, hconn, connOf_client_self]
        exact congrArg some hc'
      · exact connOf_client w m client (some c') k hk
    have hwrap := h.mem.onStream hconn (f := fun st p => zcioTlsWrap st handshake ok p) fun st hst =>
      zcioTlsWrap_effect handshake ok hst
    dsimp only
    rw [zcioTcpClientTlsUpgrade]
    split
    · exact ⟨h.mem.congr (fun _ => rfl) (hsame _ c rfl), h.servers⟩
    · dsimp only
      split
      · exact ⟨hwrap.congr (fun _ => rfl) (hsame _ c rfl), h.servers⟩
      · exact ⟨hwrap.congr (fun _ => rfl) (hsame _ _ rfl), h.servers⟩

theorem TcpWorld.Ok.clientFree (h : w.Ok) (client : Nat) (bye : List SockIo) : (w.step (.clientFree client bye)).Ok := by
  rw [TcpWorld.step]
  cases hclient : w.clients client with
  | none => exact h
  | some c =>
    refine ⟨?_, h.servers⟩
    refine h.mem.free (k := .client client) (c := c.toTcpConn) ?_ bye (connOf_client_self w _ client none)
      (connOf_client w _ client none)
    rw [TcpWorld.connOf, hclient]
    rfl

theorem TcpWorld.Ok.use (h : w.Ok) (holder : TcpHolder) (op : StreamOp) : (w.step (.use holder op)).Ok := by
  rw [TcpWorld.step]
  cases hconn : w.connOf holder with
  | none => exact h
  | some c =>
    have huse := h.mem.onStream hconn (f := fun st p => op.run st p) fun st hst => op.run_effect hst
    exact ⟨huse, h.servers⟩

/-- The copy of the descriptor is that of the stream, as long as that is open. -/
theorem TcpWorld.Ok.copy_open (h : w.Ok) {holder : TcpHolder} {c : TcpConn} (hconn : w.connOf holder = some c)
    (hopen : w.StreamOpen holder) : c.fd ∈ w.proc.openFds := by
  obtain ⟨fd, hfd⟩ := Option.ne_none_iff_exists'.mp (hopen c hconn)
  rw [← h.mem.mirror holder c hconn fd hfd]
  exact h.mem.fds.pooled (.inl c.stream) fd hfd

theorem TcpWorld.Ok.wait (h : w.Ok) {holder : TcpHolder} (hopen : w.StreamOpen holder) (timeoutMs : Int) (wantRead : Bool)
    (calls : List KernelSelect) : (w.step (.wait holder timeoutMs wantRead calls)).Ok := by
  rw [TcpWorld.step]
  cases hconn : w.connOf holder with
  | none => exact h
  | some c =>
    have htouch := (TcpProc.Same.self w.proc).touch (h.copy_open hconn hopen)
    exact ⟨h.mem.proc ⟨htouch.openFds, htouch.stray⟩, h.servers⟩

theorem TcpWorld.Ok.bytesAvailable (h : w.Ok) {client : Nat} (hopen : w.StreamOpen (.client client)) (count : Option Int) :
    (w.step (.bytesAvailable client count)).Ok := by
  rw [TcpWorld.step]
  cases hclient : w.clients client with
  | none => exact h
  | some c =>
    have hconn : w.connOf (.client client) = some c.toTcpConn := by rw [TcpWorld.connOf, hclient]; rfl
    exact ⟨h.mem.proc ((TcpProc.Same.self w.proc).touch (h.copy_open hconn hopen)), h.servers⟩

/-- Another server with the same socket and the same clients. -/
theorem TcpWorld.Ok.sameServer (h : w.Ok) {server : Nat} {l l' : TcpListener} (hl : w.servers server = some l) {m : TcpMem}
    (hm : m.Ok w.fdOf w.connOf) (hfd : l'.listenFd = l.listenFd) (hinv : l'.srv.Inv)
    (hconn : ∀ id, l'.srv.conn id = l.srv.conn id) :
    ({ w with toTcpMem := m, servers := Function.update w.servers server (some l') } : TcpWorld).Ok := by
  refine ⟨hm.congr (fun k => ?_) fun k => ?_, h.update fun l'' hl'' => by rwa [← Option.some.inj hl'']⟩
  · by_cases hk : k = .server server
    · rw [hk, fdOf_server_self, TcpWorld.fdOf, hl]
      exact congrArg some hfd
    · exact fdOf_server w m server _ k hk
  · by_cases hk : ∃ id, k = .slot server id
    · obtain ⟨id, rfl⟩ := hk
      rw [connOf_server_self, TcpWorld.connOf, hl]
      exact hconn id
    · exact connOf_server w m server _ fun id hid => hk ⟨id, hid⟩

/-- One slot of a server changes. -/
theorem TcpWorld.Ok.slot (h : w.Ok) {server : Nat} (id : Nat) {l l' : TcpListener} (hl : w.servers server = some l) {m : TcpMem}
    (hm : ∀ conns', conns' (.slot server id) = l'.srv.conn id → SameBut w.connOf (.slot server id) conns' → m.Ok w.fdOf conns')
    (hfd : l'.listenFd = l.listenFd) (hinv : l'.srv.Inv) (hconn : ∀ j, j ≠ id → l'.srv.conn j = l.srv.conn j) :
    ({ w with toTcpMem := m, servers := Function.update w.servers server (some l') } : TcpWorld).Ok := by
  refine ⟨(hm _ (connOf_server_self w m server (some l') id) fun k hk => ?_).congr (fun k => ?_) fun _ => rfl,
    h.update fun l'' hl'' => by rwa [← Option.some.inj hl'']⟩
  · by_cases hslot : ∃ j, k = .slot server j
    · obtain ⟨j, rfl⟩ := hslot
      rw [connOf_server_self, TcpWorld.connOf, hl]
      exact hconn j fun hj => hk (hj ▸ rfl)
    · exact connOf_server w m server _ fun j hj => hslot ⟨j, hj⟩
  · by_cases hk : k = .server server
    · rw [hk, fdOf_server_self, TcpWorld.fdOf, hl]
      exact congrArg some hfd
    · exact fdOf_server w m server _ k hk

/-- A server that has no clients yet. -/
theorem TcpWorld.Ok.newServer (h : w.Ok) {server : Nat} {l : TcpListener} (hnone : w.servers server = none)
    {m : TcpMem} {callerFds : List Nat}
    (hm : ∀ others' : FdHolder → Option Nat, others' (.server server) = some l.listenFd →
      (∀ k, k ≠ server → others' (.server k) = w.fdOf (.server k)) →
      (∀ fd, others' (.caller fd) = if fd ∈ callerFds then some fd else none) → m.Ok others' w.connOf)
    (hinv : l.srv.Inv) (hempty : ∀ id, l.srv.conn id = none) :
    ({ w with toTcpMem := m, servers := Function.update w.servers server (some l), callerFds } : TcpWorld).Ok := by
  refine ⟨(hm _ (congrArg (Option.map _) (Function.update_self server (some l) w.servers)) (fun k hk => ?_)
    fun fd => rfl).congr (fun _ => rfl) fun k => ?_, h.update fun l' hl' => by rwa [← Option.some.inj hl']⟩
  · exact congrArg (Option.map _) (Function.update_of_ne hk (some l) w.servers)
  · by_cases hk : ∃ id, k = .slot server id
    · obtain ⟨id, rfl⟩ := hk
      refine (connOf_server_self w m server (some l) id).trans ?_
      rw [TcpWorld.connOf, hnone]
      exact hempty id
    · exact connOf_server w m server _ fun id hid => hk ⟨id, hid⟩

theorem TcpWorld.Ok.listen (h : w.Ok) (server : Nat) (call : ServerMake) : (w.step (.listen server call)).Ok := by
  rw [TcpWorld.step]
  by_cases hfree : (w.servers server).isSome = true
  · rw [if_pos hfree]
    exact h
  rw [if_neg hfree]
  rw [Bool.not_eq_true, Option.isSome_eq_false_iff, Option.isNone_iff_eq_none] at hfree
  have hopens := tcpServerMake_opens call w.proc
  generalize tcpServerMake call w.proc = out at hopens
  obtain ⟨res, p'⟩ := out
  match res with
  | .error e => exact ⟨h.mem.proc hopens, h.servers⟩
  | .ok l =>
    obtain ⟨hopen, hinv, hempty⟩ := hopens
    refine h.newServer hfree (fun others' hself hother hcaller => ?_) hinv hempty
    refine h.mem.opens (k := FdHolder.server server) hopen ?_ hself fun j hj => ?_
    · rw [TcpWorld.fdOf, hfree]
      rfl
    · cases j with
      | server k => exact hother k fun hk => hj (congrArg _ hk)
      | caller fd => exact hcaller fd

theorem TcpWorld.Ok.adopt (h : w.Ok) (server : Nat) {fd : Nat} (hfd : fd ∈ w.callerFds) (tls nonblockOk : Bool) :
    (w.step (.adopt server fd tls nonblockOk true)).Ok := by
  have hheld : w.fdOf (.caller fd) = some fd := if_pos hfd
  have htouch := (TcpProc.Same.self w.proc).touch (h.mem.fds.pooled (.inr (.caller fd)) fd hheld)
  rw [TcpWorld.step]
  by_cases hfree : (w.servers server).isSome = true
  · rw [if_pos hfree]
    exact h
  rw [if_neg hfree]
  rw [Bool.not_eq_true, Option.isSome_eq_false_iff, Option.isNone_iff_eq_none] at hfree
  cases nonblockOk with
  | false => exact ⟨h.mem.proc htouch, h.servers⟩
  | true =>
    refine h.newServer hfree (fun others' hself hother hcaller => ?_) (tcpServer_new_inv tls) fun _ => rfl
    -- the descriptor passes from the caller to the server
    have hserver : w.fdOf (.server server) = none := by
      rw [TcpWorld.fdOf, hfree]
      rfl
    refine (h.mem.proc htouch).passes (k := FdHolder.caller fd) hheld hserver ?_ hself fun j hj hj' => ?_
    · rw [hcaller, if_neg fun hin => ?_]
      have hne := (List.mem_filter.mp hin).2
      exact of_decide_eq_true hne rfl
    · cases j with
      | server k => exact hother k fun hk => hj' (congrArg _ hk)
      | caller fd' =>
        have hne : fd' ≠ fd := fun heq => hj (congrArg _ heq)
        rw [hcaller, TcpWorld.fdOf]
        refine if_congr ⟨fun hin => (List.mem_filter.mp hin).1, fun hin => List.mem_filter.mpr ⟨hin, ?_⟩⟩ rfl rfl
        exact decide_eq_true hne

theorem TcpWorld.Ok.accept (h : w.Ok) (server : Nat) (io : AcceptIo) : (w.step (.accept server io)).Ok := by
  rw [TcpWorld.step]
  cases hl : w.servers server with
  | none => exact h
  | some l =>
    dsimp only
    by_cases hptr : (w.streams io.stream).isSome = true
    · rw [if_pos hptr]
      exact h
    rw [if_neg hptr]
    rw [Bool.not_eq_true, Option.isSome_eq_false_iff, Option.isNone_iff_eq_none] at hptr
    have hheld : l.listenFd ∈ w.proc.openFds := h.mem.fds.pooled (.inr (.server server)) l.listenFd (by
      rw [Sum.elim_inr, TcpWorld.fdOf, hl]
      rfl)
    have hopens := tcpServerAccept_opens (h.servers server l hl) hheld io
    generalize tcpServerAccept l io w.proc = out at hopens
    obtain ⟨res, l', p'⟩ := out
    match res with
    | none => exact h
    | some (.error e) =>
      obtain ⟨hp, hfd, hinv, hconn⟩ := hopens
      exact h.sameServer hl (h.mem.proc hp) hfd hinv hconn
    | some (.ok (st, id)) =>
      obtain ⟨hfd, hinv, hnone, hother, fd, hopen, hsock, hself⟩ := hopens
      refine h.slot id hl (fun conns' hconn hsame => ?_) hfd hinv hother
      refine h.mem.new hptr hopen hsock (k := .slot server id) ?_ (hconn.trans hself) hsame
      rw [TcpWorld.connOf, hl]
      exact hnone

theorem TcpWorld.Ok.closeClient (h : w.Ok) (server id : Nat) (freeOk : Bool) (bye : List SockIo) :
    (w.step (.closeClient server id freeOk bye)).Ok := by
  rw [TcpWorld.step]
  cases hl : w.servers server with
  | none => exact h
  | some l =>
    have hinv := h.servers server l hl
    have hslots := zcioTcpServerCloseClient_slots hinv id freeOk
    have hnext := zcioTcpServerCloseClient_inv hinv id freeOk
    dsimp only
    rw [tcpServerCloseClient]
    cases hclose : zcioTcpServerCloseClient l.srv id freeOk with
    | mk res srv =>
      rw [hclose] at hslots hnext
      obtain ⟨hok, hself, hother⟩ := hslots
      cases res with
      | error e =>
        refine h.sameServer hl h.mem rfl hnext fun j => ?_
        by_cases hj : j = id
        · rw [hj]
          refine hself.trans (Eq.symm ?_)
          by_contra hlive
          cases hok.mpr hlive
        · exact hother j hj
      | ok u =>
        obtain ⟨c, hc⟩ := Option.ne_none_iff_exists'.mp (hok.mp rfl)
        dsimp only
        rw [hc]
        refine h.slot id hl (fun conns' hconn hsame => ?_) rfl hnext hother
        refine h.mem.free (k := .slot server id) ?_ bye (hconn.trans hself) hsame
        rw [TcpWorld.connOf, hl]
        exact hc

theorem TcpWorld.Ok.serverFree (h : w.Ok) (server : Nat) (bye : Nat → List SockIo) :
    (w.step (.serverFree server bye)).Ok := by
  rw [TcpWorld.step]
  cases hl : w.servers server with
  | none => exact h
  | some l =>
    have hslot : ∀ id, w.connOf (.slot server id) = l.srv.conn id := fun id => by
      rw [TcpWorld.connOf, hl]
      rfl
    have hfd : w.fdOf (.server server) = some l.listenFd := by
      rw [TcpWorld.fdOf, hl]
      rfl
    -- no slot behind `slots_len` has a client
    have hfreed := h.mem.freeConns (TcpHolder.slot server) (fun _ _ heq => (TcpHolder.slot.inj heq).2) bye
      (List.nodup_range (n := l.srv.slotsLen)) (fun id _ => hslot id)
      (fun id _ => connOf_server_self w (zcioTcpServerFree l bye w.toTcpMem) server none id) fun k hk => by
        by_cases hslots : ∃ id, k = .slot server id
        · obtain ⟨id, rfl⟩ := hslots
          have hend : l.srv.slotsLen ≤ id := Nat.not_lt.mp fun hlt => hk id (List.mem_range.mpr hlt) rfl
          rw [connOf_server_self, hslot, (h.servers server l hl).empty id hend]
          rfl
        · exact connOf_server w _ server none fun id hid => hslots ⟨id, hid⟩
    have hheld := hfreed.fds.pooled (.inr (.server server)) l.listenFd hfd
    have htouched := hfreed.proc ((TcpProc.Same.self _).touch hheld)
    exact ⟨htouched.closes hfd (fdOf_server_self w _ server none) (fdOf_server w _ server none),
      h.update fun l' hl' => by cases hl'⟩

theorem TcpWorld.Ok.socket (h : w.Ok) : (w.step .socket).Ok := by
  have hfresh := lowestFree_not_mem w.proc.openFds
  have hnot : w.fdOf (.caller (lowestFree w.proc.openFds)) = none := by
    by_contra hsome
    obtain ⟨fd, hfd⟩ := Option.ne_none_iff_exists'.mp hsome
    have hpool := h.mem.fds.pooled (.inr (.caller (lowestFree w.proc.openFds))) fd hfd
    rw [TcpWorld.fdOf] at hfd
    split at hfd
    · rw [← Option.some.inj hfd] at hpool
      exact hfresh hpool
    · cases hfd
  refine ⟨h.mem.opens ((TcpProc.Same.self w.proc).opens w.proc.ns) hnot (if_pos List.mem_cons_self) fun j hj => ?_, h.servers⟩
  cases j with
  | server k => rfl
  | caller fd =>
    have hne : fd ≠ lowestFree w.proc.openFds := fun heq => hj (congrArg _ heq)
    exact if_congr (List.mem_cons.trans (or_iff_right hne)) rfl rfl

theorem TcpWorld.Ok.closesocket (h : w.Ok) {fd : Nat} (hfd : fd ∈ w.callerFds) : (w.step (.closesocket fd)).Ok := by
  refine ⟨h.mem.closes (k := FdHolder.caller fd) (if_pos hfd) (if_neg fun hin => ?_) fun j hj => ?_, h.servers⟩
  · exact of_decide_eq_true (List.mem_filter.mp hin).2 rfl
  · cases j with
    | server k => rfl
    | caller fd' =>
      have hne : fd' ≠ fd := fun heq => hj (congrArg _ heq)
      exact if_congr ⟨fun hin => (List.mem_filter.mp hin).1,
        fun hin => List.mem_filter.mpr ⟨hin, decide_eq_true hne⟩⟩ rfl rfl

theorem TcpWorld.Ok.step (h : w.Ok) {s : TcpStep} (allowed : s.Allowed w) : (w.step s).Ok := by
  cases s with
  | socket => exact h.socket
  | closesocket fd => exact h.closesocket allowed
  | connect client stream call => exact h.connect client stream call
  | upgrade client handshake ok => exact h.upgrade client handshake ok
  | clientFree client bye => exact h.clientFree client bye
  | use holder op => exact h.use holder op
  | wait holder timeoutMs wantRead calls => exact h.wait allowed timeoutMs wantRead calls
  | bytesAvailable client count => exact h.bytesAvailable allowed count
  | listen server call => exact h.listen server call
  | adopt server fd tls nonblockOk allocated =>
    obtain ⟨hfd, rfl⟩ := allowed
    exact h.adopt server hfd tls nonblockOk
  | accept server io => exact h.accept server io
  | closeClient server id freeOk bye => exact h.closeClient server id freeOk bye
  | serverFree server bye => exact h.serverFree server bye

theorem tcpRun_ok (h : TcpRun w) : w.Ok := by
  induction h with
  | start =>
    have hfds : ∀ j, Sum.elim ({} : TcpWorld).sockOf ({} : TcpWorld).fdOf j = none := fun j => by
      rcases j with ptr | server | fd
      · rfl
      · rfl
      · rfl
    have hconns : ∀ k, ({} : TcpWorld).connOf k = none := fun k => by
      cases k with
      | client client => rfl
      | slot server id => rfl
    refine ⟨⟨List.nodup_nil, .empty (fun _ => List.not_mem_nil) hfds, .empty (fun _ hlive => hlive rfl) fun k => ?_,
      fun k c hc => ?_, rfl, rfl⟩, fun k l hl => by cases hl⟩
    · rw [hconns]
      rfl
    · rw [hconns] at hc
      cases hc
  | step s h allowed ih => exact ih.step allowed

/-- **Every socket and every stream has one owner.** In any order of calls, each open socket is that of
one stream, one server or the caller, and each stream is that of one client or one slot. No socket that
is closed is used, and no stream that is freed. When everything is freed, nothing is open. -/
theorem tcpRun_owns (h : TcpRun w) :
    w.proc.openFds.Nodup ∧ Owns (· ∈ w.proc.openFds) (Sum.elim w.sockOf w.fdOf) ∧
      Owns (fun ptr => w.streams ptr ≠ none) (fun k => (w.connOf k).map TcpConn.stream) ∧
      w.proc.stray = false ∧ w.wild = false ∧
      ((∀ client, w.clients client = none) → (∀ server, w.servers server = none) → w.callerFds = [] →
        (∀ ptr, w.streams ptr = none) ∧ w.proc.openFds = []) := by
  have hok := (tcpRun_ok h).mem
  refine ⟨hok.nodup, hok.fds, hok.streams, hok.stray, hok.wild, fun hclients hservers hcaller => ?_⟩
  have hstreams : ∀ ptr, w.streams ptr = none := fun ptr => by
    by_contra hlive
    obtain ⟨k, hk⟩ := hok.streams.held ptr hlive
    cases k with
    | client client =>
      rw [TcpWorld.connOf, hclients] at hk
      cases hk
    | slot server id =>
      rw [TcpWorld.connOf, hservers] at hk
      cases hk
  refine ⟨hstreams, List.eq_nil_iff_forall_not_mem.mpr fun fd hfd => ?_⟩
  obtain ⟨j, hj⟩ := hok.fds.held fd hfd
  rcases j with ptr | server | fd'
  · rw [Sum.elim_inl, TcpMem.sockOf, hstreams] at hj
    cases hj
  · rw [Sum.elim_inr, TcpWorld.fdOf, hservers] at hj
    cases hj
  · rw [Sum.elim_inr, TcpWorld.fdOf, hcaller] at hj
    cases hj

def sampleClientMake : ClientMake where
  host := some (str "localhost")
  port := 80
  gai := { result := [{ connect := .connected }] }

/-- A caller that has a socket, lets a server adopt it, and connects to it. -/
def sampleTcpWorld : TcpWorld :=
  ((({} : TcpWorld).step .socket).step (.adopt 0 0 false true true)).step (.connect 0 0 sampleClientMake)

theorem tcpRun_owns_sample : sampleTcpWorld.proc.openFds = [1, 0] ∧ sampleTcpWorld.proc.stray = false :=
  ⟨by decide +kernel, (tcpRun_owns (.step (.connect 0 0 sampleClientMake)
    (.step (.adopt 0 0 false true true) (.step .socket .start trivial) ⟨by decide, rfl⟩) trivial)).2.2.2.1⟩

/-- **An adopt without memory** closes the socket, which the caller still has for its own: when the
caller closes it, it may be another's. -/
theorem adopt_outOfMemory (h : TcpRun w) {server fd : Nat} (hnone : w.servers server = none) (hfd : fd ∈ w.callerFds)
    (tls : Bool) : let w' := w.step (.adopt server fd tls true false)
    fd ∈ w'.callerFds ∧ fd ∉ w'.proc.openFds ∧ (w'.step (.closesocket fd)).proc.stray = true := by
  intro w'
  have hok := (tcpRun_ok h).mem
  have hw' : w' = { w with proc := (w.proc.touch fd).closesocket fd } := by
    rw [show w' = w.step (.adopt server fd tls true false) from rfl, TcpWorld.step, hnone]
    rfl
  have hgone : fd ∉ w.proc.openFds.erase fd := fun hin => (hok.nodup.mem_erase_iff.mp hin).1 rfl
  rw [hw']
  refine ⟨hfd, hgone, ?_⟩
  show (_ || decide (fd ∉ w.proc.openFds.erase fd)) = true
  rw [decide_eq_true hgone, Bool.or_true]

end Zcio
