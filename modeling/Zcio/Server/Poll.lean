import Zcio.Server.Loop

/-!
# Zcio.Server.Poll

The event loop of `http_server.c` over all its connections: `zcio_http_server_poll` with the poll
set, the accept loops, the deadline sweep and the drain bookkeeping, `zcio_http_server_stop` and
`zcio_http_server_run`.

What the outside world does in one call is a `PollIo`. HTTP/3 has its own sockets and connections
behind `zh3_process_`; of it the loop only sees whether it is there, its timer, whether it failed
and whether it is idle. The count of work items that a call returns is left out.
-/

namespace Zcio

/-! ### Configuration and state -/

/-- `struct zcio_http_server` as far as it does not change. -/
structure PollCfg extends LoopCfg where
  /-- `srv->tls` is there. -/
  tls : Bool := false
  maxConnections : Nat := 1024
  drainTimeoutMs : Nat := 5000

/-- The changing part. `listening` and `redirecting` say that `listen_fd` and `redirect_fd` are
valid. `closed` is not in the source: the connections `server_remove_dead` took out. -/
structure HttpServer where
  listening : Bool := true
  redirecting : Bool := false
  /-- `s->h3` is there. -/
  h3 : Bool := false
  conns : List Conn := []
  capConns : Nat := 0
  pollsetCap : Nat := 0
  stopFlag : Bool := false
  stopping : Bool := false
  stopped : Bool := false
  drainDeadlineMs : Nat := 0
  closed : List Conn := []
  deriving Repr, DecidableEq

/-- `zcio_http_server_start`, when all of it succeeds. -/
def zcioHttpServerStart (redirecting h3 : Bool) : HttpServer := { redirecting, h3 }

/-- `zcio_http_server_stop`. -/
def zcioHttpServerStop (s : HttpServer) : HttpServer := { s with stopFlag := true }

/-! ### The outside world

The events of each descriptor, by its index in the set, and what the calls of the system
return. -/

/-- The descriptors a poll set holds. -/
inductive PollFd where
  | listen
  | redirect
  | wake
  | h3
  | conn (i : Nat)
  deriving Repr, DecidableEq

/-- `revents`. -/
structure Revents where
  pollin : Bool := false
  pollout : Bool := false
  pollerr : Bool := false
  pollnval : Bool := false
  deriving Repr, DecidableEq

/-- What `accept` returns; with a new socket goes the time, whether `conn_create` gets what it
allocates and whether the array of connections can grow. -/
inductive AcceptRes where
  | interrupted
  | none
  | accepted (now : Nat) (made grown : Bool)
  deriving Repr, DecidableEq

/-- One call of `zcio_http_server_poll`, as the outside world answers it. -/
structure PollIo where
  /-- `zcio_now_ms_` in `begin_stop`, in front of `zcio_poll_` and behind it. -/
  stopMs : Nat := 0
  waitMs : Nat := 0
  nowMs : Nat := 0
  /-- `realloc` in `ensure_pollset` succeeds. -/
  pollsetGrown : Bool := true
  /-- The return value of `zcio_poll_` for its timeout, and the events of each descriptor. -/
  rc : Int → Int := fun _ => 0
  reports : PollFd → Revents := fun _ => {}
  listenAccepts : List AcceptRes := []
  redirectAccepts : List AcceptRes := []
  /-- `zh3_timeout_ms_`, whether `zh3_process_` succeeds, and `zh3_idle_`. -/
  h3TimeoutMs : Int := -1
  h3Processed : Bool := true
  h3Idle : Bool := true
  /-- What `conn_process` sees of connection `i`, the events apart. -/
  conns : Nat → ConnIo := fun _ => {}

/-! ### Accepting -/

variable (g : PollCfg)

/-- `server_add_conn`; when the array cannot grow, the connection is freed. -/
def serverAddConn (s : HttpServer) (c : Conn) (grown : Bool) : HttpServer :=
  if s.conns.length = s.capConns then
    if grown then
      { s with conns := s.conns ++ [c], capConns := if s.capConns ≠ 0 then s.capConns * 2 else 16 }
    else s
  else { s with conns := s.conns ++ [c] }

/-- `accept_loop`; when the answers run out, nobody is waiting. -/
def acceptLoop (l : Listener) (s : HttpServer) : List AcceptRes → HttpServer
  | [] => s
  | .interrupted :: rs => acceptLoop l s rs
  | .none :: _ => s
  | .accepted now made grown :: rs =>
    -- over the cap the socket is closed at once
    if s.conns.length ≥ g.maxConnections then acceptLoop l s rs
    else if made then acceptLoop l (serverAddConn s (connCreate now l) grown) rs
    else acceptLoop l s rs

/-- What the main listener accepts. -/
def mainListener : Listener := if g.tls then .tls else .plain

/-! ### The poll set

Listeners and the wakeup first, then one entry for each connection. -/

/-- The poll set under construction: its entries, each with whether `POLLOUT` is asked for, and the
indices kept aside. -/
structure PollSet where
  p : List (PollFd × Bool) := []
  idxListen : Option Nat := none
  idxRedirect : Option Nat := none
  idxWake : Nat := 0
  nspecial : Nat := 0
  deriving Repr, DecidableEq

/-- The special descriptors of the poll set. -/
def specialSet (s : HttpServer) : PollSet :=
  let a : PollSet := {}
  let a := if !s.stopping && s.listening then
    { a with p := a.p ++ [(.listen, false)], idxListen := some a.p.length } else a
  let a := if !s.stopping && s.redirecting then
    { a with p := a.p ++ [(.redirect, false)], idxRedirect := some a.p.length } else a
  let a := { a with p := a.p ++ [(PollFd.wake, false)], idxWake := a.p.length }
  let a := if s.h3 then { a with p := a.p ++ [(PollFd.h3, false)] } else a
  { a with nspecial := a.p.length }

/-- The poll set. -/
def pollSet (s : HttpServer) : PollSet :=
  let a := specialSet s
  { a with p := a.p ++ s.conns.mapIdx fun i c => (.conn i, connWantsPollout c) }

/-- `revents` of the entry at an index, as `poll` filled the set. -/
def PollSet.revents (a : PollSet) (io : PollIo) (idx : Nat) : Revents :=
  match a.p[idx]? with
  | some (fd, _) => io.reports fd
  | none => {}

/-- `while (ncap < need) ncap *= 2`. -/
def doubleTo (need : Nat) : Nat → Nat → Nat
  | 0, ncap => ncap
  | rounds + 1, ncap => if ncap < need then doubleTo need rounds (ncap * 2) else ncap

/-- `ensure_pollset`; `none` is `ZCIO_ERR_NOMEM`. -/
def ensurePollset (cap need : Nat) (grown : Bool) : Option Nat :=
  if need ≤ cap then some cap
  else if grown then some (doubleTo need need (if cap ≠ 0 then cap else 16))
  else none

/-! ### The time to wait

The caller's timeout, or the time to the first deadline. -/

/-- `to_min`: a negative timeout is none. -/
def toMin (cur cand : Int) : Int :=
  if cand < 0 then cur else if cur < 0 then cand else if cand < cur then cand else cur

/-- The smaller one of two deadlines; `none` is `UINT64_MAX`. -/
def minDeadline : Option Nat → Option Nat → Option Nat
  | some a, some b => some (min a b)
  | some a, none => some a
  | none, b => b

/-- The earliest deadline of the connections and the drain. -/
def earliestDeadline (s : HttpServer) : Option Nat :=
  let dl := s.conns.foldl (fun dl c => minDeadline dl (connDeadlineMs g.toLoopCfg c)) none
  if s.stopping then minDeadline dl (some s.drainDeadlineMs) else dl

/-- The timeout given to `zcio_poll_`. -/
def pollTimeout (s : HttpServer) (timeoutMs : Int) (io : PollIo) : Int :=
  let wait := match earliestDeadline g s with
    | some dl => toMin timeoutMs (min (dl - io.waitMs : Nat) (2 ^ 31 - 1))
    | none => timeoutMs
  if s.h3 then toMin wait io.h3TimeoutMs else wait

/-! ### Graceful stop

Listeners close, connections drain up to a deadline. -/

/-- `begin_stop`. -/
def beginStop (s : HttpServer) (now : Nat) : HttpServer :=
  { s with
    listening := false
    redirecting := false
    conns := s.conns.map connBeginStop
    stopping := true
    drainDeadlineMs := now + g.drainTimeoutMs }

/-- The drain bookkeeping on one connection. -/
def drainConn (s : HttpServer) (now : Nat) (c : Conn) : Conn :=
  let c := if connDrained c then { c with dead := true } else c
  if now ≥ s.drainDeadlineMs then { c with dead := true, expired := true } else c

/-- `server_remove_dead`. -/
def serverRemoveDead (s : HttpServer) : HttpServer :=
  { s with
    conns := s.conns.filter fun c => !c.dead
    closed := s.closed ++ s.conns.filter Conn.dead }

/-! ### One call

The parts in the order of the source. -/

/-- What `zcio_http_server_poll` returns: `ZCIO_ERR_EOF`, another error, or how much was done. -/
inductive PollRet where
  | eof
  | failed
  | served
  deriving Repr, DecidableEq

/-- The accept loops. -/
def serveListeners (s : HttpServer) (a : PollSet) (io : PollIo) (rc : Int) : HttpServer :=
  if rc > 0 then
    let ready idx := (a.revents io idx).pollin || (a.revents io idx).pollerr
    let s := if a.idxListen.any ready then acceptLoop g (mainListener g) s io.listenAccepts else s
    if a.idxRedirect.any ready then acceptLoop g .redirect s io.redirectAccepts else s
  else s

/-- What connection `i` of the poll set sees. -/
def connIo (a : PollSet) (io : PollIo) (rc : Int) (i : Nat) : ConnIo :=
  let r := if rc > 0 then a.revents io (a.nspecial + i) else {}
  { io.conns i with pollin := r.pollin, pollout := r.pollout, pollerr := r.pollerr || r.pollnval }

/-- The connections of the poll set, and the sweep over them. -/
def serveConns (s : HttpServer) (nc : Nat) (a : PollSet) (io : PollIo) (rc : Int) : HttpServer :=
  let served := (s.conns.take nc).mapIdx fun i c => connProcess g.toLoopCfg c (connIo a io rc i)
  { s with conns := served.map (connSweep g.toLoopCfg io.nowMs) ++ s.conns.drop nc }

/-- The drain bookkeeping and what follows it. -/
def finishPoll (s : HttpServer) (io : PollIo) : HttpServer × PollRet :=
  let s := if s.stopping then { s with conns := s.conns.map (drainConn s io.nowMs) } else s
  let s := serverRemoveDead s
  if s.stopping && s.conns.isEmpty && (!s.h3 || io.h3Idle) then ({ s with stopped := true }, .eof)
  else (s, .served)

/-- The stop, when it was asked for. -/
def stopIfAsked (s : HttpServer) (io : PollIo) : HttpServer :=
  if s.stopFlag && !s.stopping then beginStop g s io.stopMs else s

/-- `zcio_http_server_poll`. -/
def zcioHttpServerPoll (s : HttpServer) (timeoutMs : Int) (io : PollIo) : HttpServer × PollRet :=
  if s.stopped then (s, .eof)
  else
    let s := stopIfAsked g s io
    let nc := s.conns.length
    match ensurePollset s.pollsetCap (nc + 4) io.pollsetGrown with
    | none => (s, .failed)
    | some cap =>
      let s := { s with pollsetCap := cap }
      let a := pollSet s
      let rc := io.rc (pollTimeout g s timeoutMs io)
      if rc < 0 then (s, .failed)
      else
        let s := serveListeners g s a io rc
        let s := if s.h3 && !io.h3Processed then { s with h3 := false } else s
        finishPoll (serveConns g s nc a io rc) io

/-- `zcio_http_server_run`, with a bound on the calls: `none` is still running, and `true` is
`ZCIO_OK`. -/
def zcioHttpServerRun : Nat → HttpServer → (Nat → PollIo) → Option Bool
  | 0, _, _ => none
  | calls + 1, s, ios =>
    match zcioHttpServerPoll g s (-1) (ios 0) with
    | (_, .eof) => some true
    | (_, .failed) => some false
    | (s, .served) => zcioHttpServerRun calls s fun n => ios (n + 1)

end Zcio
