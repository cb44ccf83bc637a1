import Zcio.Http.Exchange
import Zcio.Ws.Session

/-!
# Zcio.Ws.Connect

The client handshake of `ws.c`: `zcio_ws_connect` with its redirects. The guard against a
downgrade looks at the URL that is parsed, so that it and the connect cannot disagree.
-/

namespace Zcio

/-! ### URLs -/

/-- What `ws_url_parse` finds. -/
structure WsUrl where
  secure : Bool
  host : Bytes
  port : Nat
  path : Bytes
  deriving Repr, DecidableEq

/-- The schemes, and whether they use TLS. -/
def wsScheme (sc : Bytes) : Option Bool :=
  if sc = str "ws" ∨ sc = str "http" then some false
  else if sc = str "wss" ∨ sc = str "https" then some true
  else none

/-- `ws_url_parse` behind the scheme. -/
def wsUrlParseAuth (url : Bytes) (secure : Bool) (p : Bytes) : Except HttpFail WsUrl :=
  let auth := p.takeWhile (· != 47)
  let path := if auth.length < p.length then p.drop auth.length else str "/"
  -- the user information goes up to the last `@`
  match splitHostPort (str "ws: unterminated IPv6 literal") (str "ws: malformed authority")
      (auth.rtakeWhile (· != 64)) with
  | .error e => .error e
  | .ok (host, portText) =>
    if host = [] then httpFail ZCIO_ERR_PROTOCOL (Http.urlMsg "ws: empty host in" url)
    else
      match portOf (str "ws: invalid port") (Http.urlMsg "ws: invalid port" portText) secure portText with
      | .error e => .error e
      | .ok port => .ok { secure, host, port, path }

/-- `ws_url_parse`. -/
def wsUrlParse : CArg → Except HttpFail WsUrl
  | none => httpFail ZCIO_ERR_INVALID_ARG (str "ws: NULL url")
  | some url =>
    match strstrAt url (str "://") with
    | none => httpFail ZCIO_ERR_PROTOCOL (Http.urlMsg "ws: no scheme in" url)
    | some sep =>
      if sep ≥ 8 then httpFail ZCIO_ERR_PROTOCOL (str "ws: bad scheme")
      else
        match wsScheme (lower (url.take sep)) with
        | none => httpFail ZCIO_ERR_PROTOCOL (Http.urlMsg "ws: unsupported scheme" (lower (url.take sep)))
        | some secure => wsUrlParseAuth url secure (url.drop (sep + 3))

/-- `ws_resolve`. -/
def wsResolve (u : WsUrl) (loc : Bytes) : Except HttpFail Bytes :=
  if loc = [] then httpFail ZCIO_ERR_PROTOCOL (str "ws: empty Location")
  else if strstr loc (str "://") then .ok loc
  else if loc.head? ≠ some 47 then
    httpFail ZCIO_ERR_PROTOCOL (str "ws: unsupported relative redirect")
  else .ok (absoluteUrl (if u.secure then str "wss" else str "ws") u.secure u.host u.port loc)

/-! ### The handshake

The request and the head of the answer. -/

/-- The request of `ws_send_handshake`. -/
def wsHandshake (u : WsUrl) (key : Bytes) (headers : List Http.HttpHeader) : Bytes :=
  str "GET " ++ u.path ++ str " HTTP/1.1\r\nHost: " ++ bracketed u.host ++ portSuffix u.secure u.port ++
    str "\r\nUpgrade: websocket\r\nConnection: Upgrade\r\nSec-WebSocket-Key: " ++ key ++
    str "\r\nSec-WebSocket-Version: 13\r\n" ++
    ((headers.filter (·.key.isSome)).map Http.headerText).flatten ++ crlf

/-- `ws_send_handshake`; a client without a stream takes nothing. -/
def wsSendHandshake (io : HttpIo) (conn : HttpConn) (req : Bytes) :
    Except HttpFail Unit × HttpIo × HttpConn :=
  if !conn.hasStream then (httpFail ZCIO_ERR (str "ws: handshake write failed"), io, conn)
  else
    let sent := httpSend io conn req
    (if sent.1 then .ok () else httpFail ZCIO_ERR (str "ws: handshake write failed"), sent.2)

/-- `WS_HANDSHAKE_HEAD_CAP`. -/
def WS_HANDSHAKE_HEAD_CAP : Nat := 64 * 1024

/-- One round of `ws_read_head`. -/
def wsReadHeadRound (s : HttpConn × Bytes) :
    (HttpConn × Bytes) ⊕ (Except HttpFail (Bytes × Nat) × HttpConn) :=
  let (conn, acc) := s
  match headEnd acc with
  | some i => .inr (.ok (acc, i + 4), conn)
  | none =>
    if acc.length > WS_HANDSHAKE_HEAD_CAP then
      .inr (httpFail ZCIO_ERR_PROTOCOL (str "ws: handshake response too large"), conn)
    else
      match httpRead conn 2048 with
      | (.error e, conn) => .inr (httpFail e (str "ws: handshake read failed"), conn)
      | (.ok [], conn) => .inr (httpFail ZCIO_ERR_EOF (str "ws: handshake read failed"), conn)
      | (.ok b, conn) => .inl (conn, acc ++ b)

theorem wsReadHeadRound_decreases : Lib.Decreases wsReadHeadRound fun s => Http.readsSize s.1.reads := by
  rintro ⟨conn, acc⟩ ⟨conn', acc'⟩ h
  unfold wsReadHeadRound at h
  dsimp only at h ⊢
  split at h
  · cases h
  · split at h
    · cases h
    · split at h
      · cases h
      · cases h
      · rename_i b c hne hread
        cases h
        have hb : (httpRead conn 2048).1 = .ok b := by rw [hread]
        have hsize := Http.httpRead_size (by decide) (fun hnil => hne (hnil ▸ rfl)) hb
        rwa [hread] at hsize

/-- `ws_read_head`: what was read, and where the body starts. -/
def wsReadHead (conn : HttpConn) : Except HttpFail (Bytes × Nat) × HttpConn :=
  Lib.loop wsReadHeadRound _ wsReadHeadRound_decreases (conn, [])

/-- `ws_parse_status`. -/
def wsParseStatus (head : Bytes) : Except HttpFail Nat :=
  let line := head.takeWhile (· != LF)
  match memchr SP line with
  | none => httpFail ZCIO_ERR_PROTOCOL (str "ws: malformed status line")
  | some sp =>
    let digits := ((line.drop (sp + 1)).take 3).takeWhile (isDigitOf 10)
    if digits.length ≠ 3 then httpFail ZCIO_ERR_PROTOCOL (str "ws: malformed status code")
    else .ok (digitsVal 10 digits)

/-- Spaces and tabs. -/
def isBlank (c : UInt8) : Bool := c == SP || c == HTAB

/-- `ws_find_header`. -/
def wsFindHeader (head name : Bytes) : Option Bytes :=
  ((head.splitOn LF).findSome? (lineValue (fun c => c == CR || isBlank c) name)).map cstr

/-- `ws_ci_has_token`: the token, which is not empty, is an element of the list. -/
def wsCiHasToken (list token : Bytes) : Bool :=
  (list.splitOn 44).any fun e => ciEq ((e.dropWhile isBlank).rdropWhile isBlank) token

/-! ### Connecting

One attempt per URL of a chain of redirects. -/

/-- A new session: its connection, and what was read behind the head. -/
structure WsClient where
  conn : HttpConn
  input : Bytes

/-- What a server answered. -/
structure WsAnswer where
  conn : HttpConn
  key : Bytes
  status : Nat
  head : Bytes
  rest : Bytes

/-- A connection with the request sent and the head of the response read. -/
def wsAsk (u : WsUrl) (headers : List Http.HttpHeader) (io : HttpIo) (conn : HttpConn) :
    Except HttpFail WsAnswer × HttpIo :=
  match httpRand io with
  | (none, io) => (httpFail ZCIO_ERR (str "ws: entropy for key failed"), io)
  | (some rnd, io) =>
    let key := base64 rnd
    match wsSendHandshake io conn (wsHandshake u key headers) with
    | (.error e, io, _) => (.error e, io)
    | (.ok (), io, conn) =>
      match wsReadHead conn with
      | (.error e, _) => (.error e, io)
      | (.ok (acc, bodyStart), conn) =>
        match wsParseStatus (acc.take bodyStart) with
        | .error e => (.error e, io)
        | .ok status =>
          (.ok { conn, key, status, head := acc.take bodyStart, rest := acc.drop bodyStart }, io)

/-- A round of `zcio_ws_connect` up to the status. -/
def wsDial (u : WsUrl) (headers : List Http.HttpHeader) (io : HttpIo) : Except HttpFail WsAnswer × HttpIo :=
  let ctx := Http.tlsCtxFor u.secure io
  if !ctx.1 then (httpFail ZCIO_ERR_TLS (str "ws: TLS context creation failed"), ctx.2)
  else
    let c := httpConnect ctx.2 ⟨u.host, u.port, u.secure, 0, 0⟩
    match c.1 with
    | .error underlying =>
      (httpFail ZCIO_ERR_CONNECT (str "ws: connect failed: " ++ underlying.take 191), c.2)
    | .ok conn => wsAsk u headers c.2 conn

/-- The 101 is for this handshake. -/
def wsAccepted (a : WsAnswer) : Bool :=
  (wsFindHeader a.head (str "upgrade")).any (wsCiHasToken · (str "websocket")) &&
    (wsFindHeader a.head (str "connection")).any (wsCiHasToken · (str "upgrade")) &&
    wsFindHeader a.head (str "sec-websocket-accept") == some (wsComputeAccept a.key)

/-- A status that may be followed. -/
def wsIsRedirect (status : Nat) : Bool := status ∈ [301, 302, 307, 308]

/-- The URL that a redirect leads to. -/
def wsNextUrl (u : WsUrl) (a : WsAnswer) : Except HttpFail Bytes :=
  match wsFindHeader a.head (str "location") with
  | none => httpFail ZCIO_ERR_PROTOCOL (str "ws: redirect without Location")
  | some loc => wsResolve u loc

/-- The text for any other answer. -/
def wsRejected (status : Nat) : Bytes :=
  str "ws: handshake rejected (status " ++ decimal status ++ str ")"

/-- The loop of `zcio_ws_connect`, with `left` further redirects to follow; `prevSecure` is of the
request before. -/
def wsConnectLoop (headers : List Http.HttpHeader) :
    Nat → Bool → CArg → HttpIo → Except HttpFail WsClient × HttpIo
  | left, prevSecure, url, io =>
    match wsUrlParse url with
    | .error e => (.error e, io)
    | .ok u =>
      if prevSecure ∧ !u.secure then
        (httpFail ZCIO_ERR_PROTOCOL (str "ws: refusing secure->insecure redirect downgrade"), io)
      else
        match wsDial u headers io with
        | (.error e, io) => (.error e, io)
        | (.ok a, io) =>
          if a.status = 101 then
            if wsAccepted a then
              (.ok { conn := { a.conn with timeoutMs := WS_DEFAULT_TIMEOUT }, input := a.rest }, io)
            else (httpFail ZCIO_ERR_PROTOCOL (str "ws: Sec-WebSocket-Accept mismatch"), io)
          else if wsIsRedirect a.status then
            match left with
            | left + 1 =>
              match wsNextUrl u a with
              | .error e => (.error e, io)
              | .ok next => wsConnectLoop headers left u.secure (some next) io
            | 0 => (httpFail ZCIO_ERR_PROTOCOL (wsRejected a.status), io)
          else (httpFail ZCIO_ERR_PROTOCOL (wsRejected a.status), io)

/-- A header that may not be sent. -/
def wsBadHeader (h : Http.HttpHeader) : Bool :=
  h.key.isSome && (!Http.headerTokenOk h.key || (h.value.isSome && !Http.headerTokenOk h.value))

/-- `zcio_ws_connect`. -/
def zcioWsConnect (url : CArg) (headers : List Http.HttpHeader) (io : HttpIo) :
    Except HttpFail WsClient × HttpIo :=
  if headers.any wsBadHeader then
    (httpFail ZCIO_ERR_INVALID_ARG (str "ws: illegal characters in extra header"), io)
  else wsConnectLoop headers 3 false url io

/-! ### Redirects and TLS

The same guard as that of the HTTP client. -/

theorem wsSendHandshake_adds (io : HttpIo) (conn : HttpConn) (req : Bytes) :
    io.Adds conn.tls (wsSendHandshake io conn req).2.1 := by
  unfold wsSendHandshake
  split
  · exact .refl io
  · exact httpSend_adds io conn req

theorem wsAsk_adds (u : WsUrl) (headers : List Http.HttpHeader) (io : HttpIo) (conn : HttpConn) :
    io.Adds conn.tls (wsAsk u headers io conn).2 := by
  have hrand : io.Adds conn.tls (httpRand io).2 := .of_same (httpRand_same io)
  unfold wsAsk
  split
  · rename_i io' hnone
    rwa [hnone] at hrand
  · rename_i rnd io' hsome
    rw [hsome] at hrand
    have hsend := hrand.trans (wsSendHandshake_adds io' conn (wsHandshake u (base64 rnd) headers))
    dsimp only
    split
    · rename_i io'' _ hfail
      rwa [hfail] at hsend
    · rename_i io'' conn' hok
      rw [hok] at hsend
      split
      · exact hsend
      · split
        · exact hsend
        · exact hsend

/-- The connect and the handshake of a round are of the scheme of its URL. -/
theorem wsDial_adds (u : WsUrl) (headers : List Http.HttpHeader) (io : HttpIo) :
    io.Adds u.secure (wsDial u headers io).2 := by
  have hctx := Http.tlsCtxFor_adds u.secure io
  unfold wsDial
  generalize Http.tlsCtxFor u.secure io = ctx at hctx
  dsimp only
  split
  · exact hctx
  · obtain ⟨hdial, htls⟩ := httpConnect_adds ctx.2 ⟨u.host, u.port, u.secure, 0, 0⟩
    have hc := hctx.trans hdial
    split
    · exact hc
    · rename_i conn hconn
      have hask := wsAsk_adds u headers (httpConnect ctx.2 ⟨u.host, u.port, u.secure, 0, 0⟩).2 conn
      rw [htls conn hconn] at hask
      exact hc.trans hask

/-- Along the redirects of a call; a request over TLS is followed by no other. -/
theorem wsConnectLoop_chain (headers : List Http.HttpHeader) (left : Nat) :
    ∀ (prevSecure : Bool) (url : CArg) (io : HttpIo),
      io.Chain prevSecure (wsConnectLoop headers left prevSecure url io).2 := by
  have hguard : ∀ {prevSecure secure : Bool}, ¬(prevSecure = true ∧ (!secure) = true) →
      prevSecure = true → secure = true := by
    intro prevSecure secure h hprev
    simpa [hprev] using h
  induction left with
  | zero =>
    intro prevSecure url io
    rw [wsConnectLoop]
    split
    · exact .refl _ io
    · rename_i u hurl
      split
      · exact .refl _ io
      · rename_i hnot
        have hdial := HttpIo.Chain.cons (.refl io) (.single (wsDial_adds u headers io)) (hguard hnot)
        cases hex : wsDial u headers io with
        | mk res io' =>
          rw [hex] at hdial
          cases res with
          | error e => exact hdial
          | ok a =>
            dsimp only
            repeat' split
            all_goals exact hdial
  | succ left ih =>
    intro prevSecure url io
    rw [wsConnectLoop]
    split
    · exact .refl _ io
    · rename_i u hurl
      split
      · exact .refl _ io
      · rename_i hnot
        have hadds := wsDial_adds u headers io
        have hdial := HttpIo.Chain.cons (.refl io) (.single hadds) (hguard hnot)
        cases hex : wsDial u headers io with
        | mk res io' =>
          rw [hex] at hadds hdial
          cases res with
          | error e => exact hdial
          | ok a =>
            dsimp only
            cases hnext : wsNextUrl u a with
            | error e =>
              dsimp only
              repeat' split
              all_goals exact hdial
            | ok next =>
              dsimp only
              split
              · split
                · exact hdial
                · exact hdial
              · split
                · -- the next round has the guard of this one
                  have hrest := HttpIo.Chain.cons hadds (ih u.secure (some next) io') fun h => h
                  exact .cons (.refl io) hrest (hguard hnot)
                · exact hdial

theorem zcioWsConnect_chain (url : CArg) (headers : List Http.HttpHeader) (io : HttpIo) :
    io.Chain false (zcioWsConnect url headers io).2 := by
  unfold zcioWsConnect
  split
  · exact .refl _ io
  · exact wsConnectLoop_chain headers 3 false url io

/-- **Redirects never downgrade from TLS**, in `zcio_http_request_opts` and in `zcio_ws_connect`:
of the connects and requests that a call adds to the records, those behind one with TLS have it. -/
theorem redirects_keep_tls (io : HttpIo) :
    (∀ (a : Http.HttpArgs) (url : CArg) (opts : Option Http.HttpOpts), ∃ dials sent,
      (Http.zcioHttpRequestOpts a url opts io).2.dials = io.dials ++ dials ∧
      (Http.zcioHttpRequestOpts a url opts io).2.sent = io.sent ++ sent ∧
      KeepsTls (dials.map (·.tls)) ∧ KeepsTls (sent.map (·.tls))) ∧
    ∀ (url : CArg) (headers : List Http.HttpHeader), ∃ dials sent,
      (zcioWsConnect url headers io).2.dials = io.dials ++ dials ∧
      (zcioWsConnect url headers io).2.sent = io.sent ++ sent ∧
      KeepsTls (dials.map (·.tls)) ∧ KeepsTls (sent.map (·.tls)) := by
  refine ⟨?_, ?_⟩
  · intro a url opts
    obtain ⟨⟨d, hd, hdk, -⟩, s, hs, hsk, -⟩ := Http.zcioHttpRequestOpts_chain a url opts io
    exact ⟨d, s, hd, hs, hdk, hsk⟩
  · intro url headers
    obtain ⟨⟨d, hd, hdk, -⟩, s, hs, hsk, -⟩ := zcioWsConnect_chain url headers io
    exact ⟨d, s, hd, hs, hdk, hsk⟩

end Zcio
