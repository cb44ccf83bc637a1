import Zcio.Ws.Accept
import Zcio.H1.Conn
import Zcio.H2.Conn

/-!
# Zcio.Server.Loop

One TCP connection in the event loop of `http_server.c`: `conn_process`, the deadlines and
the drain. Accepting connections, the poll set and the wake pipe are left out; a connection
does not depend on another one.

What the outside world does in an iteration is a `ConnIo`: the events `poll` reports, what
the TLS handshake and the read return, and how much every write takes. The output buffer is
a field of the `conn` in the source. Here it is the one the protocol module appends to; a
connection whose protocol is not chosen has nothing to write.

Allocations succeed: the append of what was read as well as all of the feeds, whose hard errors are
failed allocations. One that fails marks the connection dead, with its output queued.
-/

namespace Zcio

/-! ### Configuration -/

/-- `struct zcio_http_server` as the loop reads it. The timeouts are those of `zhs_limits`. -/
structure LoopCfg where
  srv : Server
  lim : ZhsLimits
  /-- `versions & ZCIO_HTTP1_1`. -/
  http1 : Bool := true
  /-- `versions & ZCIO_HTTP2`. -/
  http2 : Bool := true
  headerTimeoutMs : Nat := 10000
  idleTimeoutMs : Nat := 60000
  writeTimeoutMs : Nat := 30000

/-- `READ_SCRATCH`. -/
def READ_SCRATCH : Nat := 65536

/-- `H2_PREFACE`. -/
def H2_PREFACE : Bytes := str "PRI * HTTP/2.0"

/-! ### The connection

What the loop keeps for a connection, whatever version it speaks. -/

/-- `conn_proto`, with the protocol module's connection. -/
inductive ConnProto where
  | unknown
  | h1 (h : Zh1Conn)
  | h2 (h : Zh2Conn)
  deriving Repr, DecidableEq

/-- `struct conn`. The last five fields are not in the source: the octets read so far, the
octets the transport took, what the WebSocket session got as its first input, and why the
connection was marked dead if a write failed or a deadline passed. -/
structure Conn where
  proto : ConnProto := .unknown
  inp : Bytes := []
  secure : Bool := false
  tlsPending : Bool := false
  redirect : Bool := false
  peerEof : Bool := false
  wantClose : Bool := false
  dead : Bool := false
  detached : Bool := false
  createdMs : Nat := 0
  activityMs : Nat := 0
  timingHead : Bool := false
  headStartMs : Nat := 0
  rcvd : Bytes := []
  wire : Bytes := []
  session : Option Bytes := none
  writeFailed : Bool := false
  expired : Bool := false
  deriving Repr, DecidableEq

/-- What `zh1_new_` is given. -/
def LoopCfg.h1 (g : LoopCfg) (c : Conn) : H1Cfg :=
  { srv := g.srv, lim := g.lim, secure := c.secure, redirect := c.redirect }

/-- What `zh2_new_` is given. -/
def LoopCfg.h2 (g : LoopCfg) (secure : Bool) : H2Cfg := { srv := g.srv, lim := g.lim, secure }

/-- The output of a protocol module. -/
def ConnProto.out : ConnProto → ZhsBuf
  | .unknown => {}
  | .h1 h => h.out
  | .h2 h => h.out

/-- `zhs_buf_consume_` on the output. -/
def ConnProto.consume (k : Nat) : ConnProto → ConnProto
  | .unknown => .unknown
  | .h1 h => .h1 { h with out := h.out.consume k }
  | .h2 h => .h2 { h with out := h.out.consume k }

/-- `out_pending`. -/
def Conn.outPending (c : Conn) : Bool := decide (0 < c.proto.out.avail)

/-- The listener a connection was accepted from. -/
inductive Listener where
  | plain
  | tls
  | redirect
  deriving Repr, DecidableEq

/-- `conn_create`. -/
def connCreate (now : Nat) : Listener → Conn
  | .plain => { createdMs := now, activityMs := now, headStartMs := now }
  | .tls =>
    { secure := true, tlsPending := true, createdMs := now, activityMs := now,
      headStartMs := now }
  | .redirect =>
    { proto := .h1 zh1New, redirect := true, createdMs := now, activityMs := now,
      headStartMs := now }

/-! ### The outside world

What a call of the loop is told by the system: the events, the octets read, what the socket
takes, the time. -/

/-- What `zcio_tls_handshake` returns; with success goes the negotiated protocol. -/
inductive HandshakeRes where
  | done (alpn : Option Bytes)
  | wouldBlock
  | failed
  deriving Repr, DecidableEq

/-- What `zcio_read` returns into a scratch buffer of `READ_SCRATCH` octets; none is the end
of the stream. -/
inductive ReadRes where
  | octets (b : { b : Bytes // b.length ≤ READ_SCRATCH })
  | wouldBlock
  | failed
  deriving Repr, DecidableEq

/-- What `zcio_write` returns: at most as many octets are taken as were offered. -/
inductive WriteRes where
  | accepted (n : Nat)
  | wouldBlock
  | failed
  deriving Repr, DecidableEq

/-- One iteration, as seen from a connection. The writes are answered one after the other;
when the answers run out the transport has no room. -/
structure ConnIo where
  now : Nat := 0
  pollin : Bool := false
  pollout : Bool := false
  /-- `POLLERR` or `POLLNVAL`. -/
  pollerr : Bool := false
  handshake : HandshakeRes := .wouldBlock
  read : ReadRes := .wouldBlock
  writes : List WriteRes := []
  deriving Repr, DecidableEq

variable (g : LoopCfg)

/-! ### Choosing the protocol

By ALPN on TLS, by the first octets otherwise. -/

/-- A new HTTP/1.1 connection, if the version is enabled. -/
def connStartH1 (c : Conn) : Conn :=
  if g.http1 then { c with proto := .h1 zh1New } else { c with dead := true }

/-- `conn_select_proto_tls`. -/
def connSelectProtoTls (c : Conn) (alpn : Option Bytes) : Conn :=
  if alpn = some (str "h2") then
    if g.http2 then { c with proto := .h2 (zh2New (g.h2 c.secure)) } else { c with dead := true }
  else connStartH1 g c

/-- `conn_select_proto_plain`; `false` means that more octets are needed. -/
def connSelectProtoPlain (c : Conn) : Conn × Bool :=
  let avail := c.inp.length
  if avail = 0 then (c, false)
  else
    let look := min avail H2_PREFACE.length
    if g.http2 ∧ c.inp.take look = H2_PREFACE.take look then
      if avail < H2_PREFACE.length then (c, false)
      else ({ c with proto := .h2 (zh2New (g.h2 c.secure)) }, true)
    else (connStartH1 g c, true)

/-! ### Feeding

The octets go to the parser of the version, and what it has left stays in front. -/

/-- `zh1_receiving_`. -/
def zh1Receiving (h : Zh1Conn) : Bool := h.receiving

/-- `zh1_mid_headers_`. -/
def zh1MidHeaders (h : Zh1Conn) : Bool :=
  h.receiving && (h.state == .reqline || h.state == .headers)

/-- `zh1_idle_`. -/
def zh1Idle (h : Zh1Conn) : Bool := h.state == .reqline && !h.receiving

/-- `conn_update_head_timing`. -/
def connUpdateHeadTiming (c : Conn) (now : Nat) : Conn :=
  match c.proto with
  | .h1 h =>
    if zh1Receiving h then
      if c.timingHead then c else { c with timingHead := true, headStartMs := now }
    else { c with timingHead := false }
  | _ => { c with timingHead := false }

/-- The key of the opening handshake. -/
def upgradeKey (h : Zh1Conn) : Bytes := (h.req.headers.get (str "sec-websocket-key")).getD []

/-- `zhs_detach_for_upgrade_`, called by `zcio_ws_accept` inside the handler: the 101 is
written first, then the queued output, and what is left of the input goes to the session.
Both writes are synchronous and succeed. -/
def zhsDetachForUpgrade (c : Conn) (h : Zh1Conn) (inp : Bytes) : Conn :=
  { c with
    proto := .h1 { h with out := h.out.consume h.out.avail }
    inp
    wire := c.wire ++ switchingProtocols (upgradeKey h) ++ h.out.rd
    session := some inp
    detached := true
    dead := true }

/-- The `zh1_feed_` and `zh2_feed_` calls of `conn_feed`, with what is made of the result. -/
def connParse (c : Conn) : Conn :=
  match c.proto with
  | .unknown => c
  | .h1 h =>
    let r := zh1Feed (g.h1 c) h c.inp
    match r.rc with
    | .needMore | .dispatched => { c with proto := .h1 r.c, inp := r.inp }
    | .close => { c with proto := .h1 r.c, inp := r.inp, wantClose := true }
    | .detached => zhsDetachForUpgrade c r.c r.inp
  | .h2 h =>
    let (rc, h, inp) := zh2Feed (g.h2 c.secure) h c.inp
    { c with proto := .h2 h, inp, wantClose := c.wantClose || rc == .closing }

/-- `zh2_pump_` on an HTTP/2 connection. -/
def connPump (c : Conn) : Conn :=
  match c.proto with
  | .h2 h => { c with proto := .h2 (zh2Pump (g.h2 c.secure) h) }
  | _ => c

/-- `conn_feed` as far as the protocol: `false` when none is chosen. -/
def connChoose (c : Conn) : Conn × Bool :=
  match c.proto with
  | .unknown => connSelectProtoPlain g c
  | _ => (c, true)

/-- `conn_feed` up to its call of `zh2_pump_`. -/
def connFeedPre (c : Conn) : Conn :=
  let (c, chosen) := connChoose g c
  if !chosen || c.dead then c else connParse g c

/-- `conn_feed`. -/
def connFeed (c : Conn) : Conn := connPump g (connFeedPre g c)

/-! ### Flushing -/

/-- `conn_flush`. -/
def connFlush (now : Nat) (c : Conn) : List WriteRes → Conn
  | [] => c
  | w :: ws =>
    if c.outPending then
      match w with
      | .accepted n =>
        if n = 0 then { c with dead := true, writeFailed := true }
        else
          let k := min n c.proto.out.avail
          connFlush now
            { c with
              proto := c.proto.consume k
              wire := c.wire ++ c.proto.out.rd.take k
              activityMs := now } ws
      | .wouldBlock => c
      | .failed => { c with dead := true, writeFailed := true }
    else c

/-! ### One iteration

Read, parse, pump, write, and the decision to close. -/

/-- The read of `conn_process`. -/
def connRead (c : Conn) (now : Nat) : ReadRes → Conn
  | .octets b =>
    if b.1 = [] then { c with peerEof := true }
    else { c with inp := c.inp ++ b.1, rcvd := c.rcvd ++ b.1, activityMs := now }
  | .wouldBlock => c
  | .failed => { c with peerEof := true }

/-- The input half of `conn_process`: poll errors, the TLS handshake or a read. -/
def connInput (c : Conn) (io : ConnIo) : Conn :=
  let c := if io.pollerr then { c with peerEof := true } else c
  if c.tlsPending then
    if io.pollin || io.pollout then
      match io.handshake with
      | .done alpn => connSelectProtoTls g { c with tlsPending := false, activityMs := io.now } alpn
      | .wouldBlock => c
      | .failed => { c with dead := true }
    else c
  else if io.pollin then connRead c io.now io.read
  else c

/-- The close decisions of `conn_process`. -/
def connCloseDecision (c : Conn) : Conn :=
  if c.detached then c
  else
    let c := if c.wantClose && !c.outPending then { c with dead := true } else c
    if c.peerEof then
      if c.outPending then { c with wantClose := true } else { c with dead := true }
    else c

/-- `conn_process`. -/
def connProcess (c : Conn) (io : ConnIo) : Conn :=
  let c := connInput g c io
  let c := if !c.dead && !c.tlsPending then connUpdateHeadTiming (connFeed g c) io.now else c
  let c := if !c.dead && io.pollout then connPump g c else c
  let c := if !c.dead && c.outPending then connFlush io.now c io.writes else c
  connCloseDecision c

/-- `POLLOUT` is requested for the connection (`zcio_http_server_poll`). -/
def connWantsPollout (c : Conn) : Bool := c.outPending || c.tlsPending

/-! ### Deadlines and the graceful stop

The deadlines of a connection, of which the earliest counts. -/

/-- `conn_deadline_ms`; `none` is `UINT64_MAX`. -/
def connDeadlineMs (c : Conn) : Option Nat :=
  if c.dead then none
  else if c.tlsPending || c.proto == .unknown then some (c.createdMs + g.headerTimeoutMs)
  else if c.outPending then some (c.activityMs + g.writeTimeoutMs)
  else
    match c.proto with
    | .h1 h =>
      if zh1Receiving h then
        some (c.headStartMs + if zh1MidHeaders h then g.headerTimeoutMs else g.idleTimeoutMs)
      else some (c.activityMs + g.idleTimeoutMs)
    | _ => some (c.activityMs + g.idleTimeoutMs)

/-- The deadline sweep on a connection. -/
def connSweep (now : Nat) (c : Conn) : Conn :=
  if (connDeadlineMs g c).any (· ≤ now) then { c with dead := true, expired := true } else c

/-- `conn_drained`. -/
def connDrained (c : Conn) : Bool :=
  if c.outPending then false
  else
    match c.proto with
    | .h1 h => zh1Idle h
    | .h2 h => zh2Idle h
    | .unknown => true

/-- `begin_stop` on a connection. -/
def connBeginStop (c : Conn) : Conn :=
  match c.proto with
  | .h1 h => { c with proto := .h1 { h with graceful := true } }
  | .h2 h => { c with proto := .h2 (zh2Graceful h) }
  | .unknown => c

/-! ### Runs

The states of a connection over any sequence of iterations, stops and sweeps that satisfy a
condition. -/

/-- The life of a connection in the loop, in iterations that all satisfy `ok`: whatever `poll`
reports, whatever the peer sends and however much the transport takes, with the sweeps and the
graceful stop coming at any time. A dead connection is not processed any more. -/
inductive LoopRun (ok : Conn → ConnIo → Prop) : Conn → Prop
  | accepted (now : Nat) (l : Listener) : LoopRun ok (connCreate now l)
  | process {c : Conn} (io : ConnIo) : LoopRun ok c → c.dead = false → ok c io →
      LoopRun ok (connProcess g c io)
  | stop {c : Conn} : LoopRun ok c → c.dead = false → LoopRun ok (connBeginStop c)
  | sweep {c : Conn} (now : Nat) : LoopRun ok c → LoopRun ok (connSweep g now c)
  /-- The drain bookkeeping of a stopping server closes what has nothing left to do. -/
  | drained {c : Conn} : LoopRun ok c → connDrained c = true →
      LoopRun ok { c with dead := true }
  /-- The drain deadline passes. -/
  | drainDeadline {c : Conn} : LoopRun ok c → LoopRun ok { c with dead := true, expired := true }

/-- Iterations without any restriction. -/
def AnyIo : Conn → ConnIo → Prop := fun _ _ => True

end Zcio
