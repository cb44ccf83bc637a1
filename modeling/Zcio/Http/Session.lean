import Zcio.Http.Exchange

/-!
# Zcio.Http.Session

Keep-alive sessions of the HTTP client: `session_exchange_once`, and `zcio_http_session_request`
with its one retry. The retry is decided from the result alone. Whether a request can go out
twice is therefore settled here for every behaviour of the transport: it can where the first
attempt made its connection itself and lost it.
-/

namespace Zcio.Http

/-- `zcio_http_session`. Its TLS context is there if the origin is secure; `client` is the
connection that is kept. -/
structure HttpSession where
  origin : ZcioUrl
  client : Option HttpConn := none

/-- `zcio_http_session_create`. -/
def zcioHttpSessionCreate (baseUrl : CArg) (io : HttpIo) : Option HttpSession × HttpIo :=
  match urlParse baseUrl with
  | .error _ => (none, io)
  | .ok u =>
    let ctx := tlsCtxFor u.secure io
    (if ctx.1 then some { origin := u } else none, ctx.2)

/-- `session_connect`, with the connection it leaves in the session. -/
def sessionConnect (sess : HttpSession) (limits : Int × Int) (io : HttpIo) :
    Except HttpFail HttpConn × HttpIo :=
  match sess.client with
  | some conn => (.ok conn, io)
  | none =>
    let u := sess.origin
    let c := httpConnect io ⟨u.host, u.port, u.secure, limits.1, limits.2⟩
    match c.1 with
    | .error _ => (httpFail ZCIO_ERR_CONNECT (connectMsg (some u.host) u.port), c.2)
    | .ok conn => (.ok conn, c.2)

/-- `session_drop`. -/
def sessionDrop (sess : HttpSession) : HttpSession := { sess with client := none }

/-- `response_says_close`. -/
def responseSaysClose (block : Bytes) : Bool :=
  (findHeaderValue block (str "Connection")).any fun v => strstr (lower v) (str "close")

/-- The same of a whole response. -/
def rawSaysClose (raw : Bytes) : Bool :=
  (headEnd raw).any fun sep =>
    (memchr LF (raw.take sep)).any fun slEnd => responseSaysClose ((raw.take sep).drop (slEnd + 1))

/-- A call of `zcio_http_session_request`. -/
structure SessionCall where
  args : HttpArgs
  path : CArg
  opts : Option HttpOpts

/-- The header a session adds. -/
def keepAlive : HttpHeader := ⟨some (str "Connection"), some (str "keep-alive")⟩

/-- The request of a call: its path at the session's origin. -/
def sessionBuild (sess : HttpSession) (call : SessionCall) : Except HttpFail Bytes :=
  buildRequest { call.args with headers := call.args.headers ++ [keepAlive] }
    { sess.origin with path := (call.path.filter (· != [])).getD (str "/") }

/-- `session_exchange_once` on the connection. -/
def sessionOn (sess : HttpSession) (call : SessionCall) (deadline : Nat) (io : HttpIo) (conn : HttpConn) :
    Except HttpFail HttpResponse × HttpSession × HttpIo :=
  let kept := { sess with client := some conn }
  if !conn.hasStream then
    (httpFail ZCIO_ERR (str "http: no stream for connection"), sessionDrop sess, io)
  else
    match sessionBuild sess call with
    | .error e => (.error e, kept, io)
    | .ok req =>
      let rem := deadlineRemainingMs io deadline
      if rem.1 = 0 then (httpFail ZCIO_ERR_TIMEOUT expiredMsg, kept, rem.2)
      else
        let sent := httpSend rem.2 (conn.setTimeout rem.1) req
        if !sent.1 then
          (httpFail ZCIO_ERR (str "http: failed to send request"), sessionDrop sess, sent.2.1)
        else
          let read := readResponse sent.2.1 sent.2.2 deadline
          match read.1 with
          | .error e => (.error e, sessionDrop sess, read.2.1)
          | .ok [] =>
            (httpFail ZCIO_ERR (str "http: connection closed with no response"), sessionDrop sess,
              read.2.1)
          | .ok raw =>
            match parseResponse raw with
            | .error e => (.error e, sessionDrop sess, read.2.1)
            | .ok r =>
              (.ok r.1, if rawSaysClose raw then sessionDrop sess
                else { sess with client := some read.2.2 }, read.2.1)

/-- `session_exchange_once`. -/
def sessionExchangeOnce (sess : HttpSession) (call : SessionCall) (connectTimeoutMs : Int)
    (deadline : Nat) (io : HttpIo) : Except HttpFail HttpResponse × HttpSession × HttpIo :=
  let rem := deadlineRemainingMs io deadline
  if rem.1 = 0 then (httpFail ZCIO_ERR_TIMEOUT expiredMsg, sess, rem.2)
  else
    let c := sessionConnect sess (connectLimits rem.1 connectTimeoutMs) rem.2
    match c.1 with
    | .error e => (.error e, sess, c.2)
    | .ok conn => sessionOn sess call deadline c.2 conn

/-- `zcio_http_session_request`: any failure of the first attempt leads to the second. -/
def zcioHttpSessionRequest (sess : HttpSession) (call : SessionCall) (io : HttpIo) :
    Except HttpFail HttpResponse × HttpSession × HttpIo :=
  let d := callDeadline call.opts io
  match sessionExchangeOnce sess call d.1 d.2.1 d.2.2 with
  | (.ok resp, sess, io) => (.ok resp, sess, io)
  | (.error _, sess, io) => sessionExchangeOnce sess call d.1 d.2.1 io

/-! ### Runs

A session call by call, with the requests that each call has put on the wire. -/

/-- A call in the state it finds. -/
structure SessionStep where
  sess : HttpSession
  io : HttpIo
  call : SessionCall

/-- The session and the world behind the call. -/
def SessionStep.after (s : SessionStep) : HttpSession × HttpIo :=
  (zcioHttpSessionRequest s.sess s.call s.io).2

/-- The calls of a session, one after the other. -/
def sessionRun (sess : HttpSession) (io : HttpIo) : List SessionCall → List SessionStep
  | [] => []
  | call :: calls =>
    let s : SessionStep := ⟨sess, io, call⟩
    s :: sessionRun s.after.1 s.after.2 calls

/-- The number of the first connection that will be made. -/
def firstConnection (io : HttpIo) : Nat :=
  io.dials.length + (io.peers.takeWhile fun p => !p.toBool).length

/-- The requests that a call put onto a connection whole. -/
def SessionStep.sentWhole (s : SessionStep) : List HttpSent :=
  (s.after.2.sent.drop s.io.sent.length).filter fun x => x.put == x.req.length

/-- Unless the call found a connection kept from an earlier one, the whole request goes out once at
most, and onto the first connection that is made. -/
def SessionStep.SendsOnce (s : SessionStep) : Prop :=
  s.sess.client.isNone = true →
    s.sentWhole.length ≤ 1 ∧ ∀ x ∈ s.sentWhole, x.conn = firstConnection s.io

instance (s : SessionStep) : Decidable s.SendsOnce := inferInstanceAs (Decidable (_ → _))

/-! ### When a request is sent again

The parts of an attempt that decide about a second one. -/

/-- A new connection, made before the deadline. -/
def freshConn (origin : ZcioUrl) (connectTimeoutMs : Int) (deadline : Nat) (io : HttpIo) :
    Option (HttpConn × HttpIo) :=
  let rem := deadlineRemainingMs io deadline
  if rem.1 = 0 then none
  else
    let c := sessionConnect { origin } (connectLimits rem.1 connectTimeoutMs) rem.2
    c.1.toOption.map fun conn => (conn, c.2)

/-- The connection takes the whole request before the deadline. -/
def takesRequest (deadline : Nat) (io : HttpIo) (conn : HttpConn) (req : Bytes) : Bool :=
  let rem := deadlineRemainingMs io deadline
  conn.hasStream && rem.1 != 0 && (httpSend rem.2 (conn.setTimeout rem.1) req).1

/-- The world when the connection is lost: it has no stream, does not take the whole request, or
does not bring a response that is complete and can be parsed. `none` if it is not lost. -/
def lostConn (deadline : Nat) (io : HttpIo) (conn : HttpConn) (req : Bytes) : Option HttpIo :=
  let rem := deadlineRemainingMs io deadline
  if !conn.hasStream then some io
  else if rem.1 = 0 then none
  else
    let sent := httpSend rem.2 (conn.setTimeout rem.1) req
    if !sent.1 then some sent.2.1
    else
      let read := readResponse sent.2.1 sent.2.2 deadline
      match read.1 with
      | .error _ => some read.2.1
      | .ok [] => some read.2.1
      | .ok raw => if (parseResponse raw).toBool then none else some read.2.1

/-- The call makes its first connection itself and loses it, and the next one it makes takes the
whole request. -/
def SessionStep.resends (s : SessionStep) : Bool :=
  let d := callDeadline s.call.opts s.io
  s.sess.client.isNone &&
    (sessionBuild s.sess s.call).toOption.any fun req =>
      (freshConn s.sess.origin d.1 d.2.1 d.2.2).any fun c =>
        (lostConn d.2.1 c.2 c.1 req).any fun io =>
          (freshConn s.sess.origin d.1 d.2.1 io).any fun c' => takesRequest d.2.1 c'.2 c'.1 req

end Zcio.Http
