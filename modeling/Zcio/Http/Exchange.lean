import Zcio.Http.Response
import Zcio.Http.Request

/-!
# Zcio.Http.Exchange

One-shot requests of the HTTP client: `do_exchange`, and `zcio_http_request_opts`, which follows
redirects. `HttpIo` records every connect and every request of a call, so that what holds along
the chain is a statement about the records a call adds.
-/

namespace Zcio

/-! ### What a step leaves as it is

The records of dials and requests are only written where the client dials and sends. -/

/-- Nothing is connected and nothing sent. -/
structure HttpIo.Same (io io' : HttpIo) : Prop where
  dials : io'.dials = io.dials
  sent : io'.sent = io.sent
  peers : io'.peers = io.peers

namespace HttpIo.Same

variable {io io' io'' : HttpIo}

theorem refl (io : HttpIo) : io.Same io := ⟨rfl, rfl, rfl⟩

theorem trans (h : io.Same io') (h' : io'.Same io'') : io.Same io'' :=
  ⟨h'.dials.trans h.dials, h'.sent.trans h.sent, h'.peers.trans h.peers⟩

end HttpIo.Same

theorem httpNow_same (io : HttpIo) : io.Same (httpNow io).2 := ⟨rfl, rfl, rfl⟩

theorem httpRand_same (io : HttpIo) : io.Same (httpRand io).2 := ⟨rfl, rfl, rfl⟩

theorem httpTlsCtx_same (io : HttpIo) : io.Same (httpTlsCtx io).2 := ⟨rfl, rfl, rfl⟩

theorem deadlineRemainingMs_same (io : HttpIo) (deadline : Nat) :
    io.Same (deadlineRemainingMs io deadline).2 := by
  unfold deadlineRemainingMs
  split
  · exact .refl io
  · exact httpNow_same io

theorem Http.readResponseRound_same {deadline : Nat} (s : Http.RespRead) :
    (∀ s', Http.readResponseRound deadline s = .inl s' → s.io.Same s'.io) ∧
    ∀ r, Http.readResponseRound deadline s = .inr r → s.io.Same r.2.1 := by
  have hrem := deadlineRemainingMs_same s.io deadline
  refine ⟨?_, ?_⟩
  · intro s' h
    unfold Http.readResponseRound at h
    dsimp only at h
    repeat' split at h
    all_goals cases h
    exact hrem
  · intro r h
    unfold Http.readResponseRound at h
    dsimp only at h
    repeat' split at h
    all_goals cases h
    all_goals exact hrem

/-- Reading a response connects and sends nothing. -/
theorem Http.readResponse_same (io : HttpIo) (conn : HttpConn) (deadline : Nat) :
    io.Same (Http.readResponse io conn deadline).2.1 := by
  refine Lib.loop_inv (Http.readResponseRound_decreases deadline) (I := fun s => io.Same s.io)
    (Q := fun r => io.Same r.2.1) ?_ ?_ (.refl io)
  · intro s s' hi h
    exact hi.trans ((Http.readResponseRound_same s).1 s' h)
  · intro s r hi h
    exact hi.trans ((Http.readResponseRound_same s).2 r h)

/-! ### What a call adds to the records

Each call adds to the records behind what they held. -/

/-- The further connects and requests all use TLS, or none does. -/
structure HttpIo.Adds (secure : Bool) (io io' : HttpIo) : Prop where
  dials : ∃ d, io'.dials = io.dials ++ d ∧ ∀ x ∈ d, x.tls = secure
  sent : ∃ s, io'.sent = io.sent ++ s ∧ ∀ x ∈ s, x.tls = secure

namespace HttpIo.Adds

variable {secure : Bool} {io io' io'' : HttpIo}

theorem of_same (h : io.Same io') : io.Adds secure io' :=
  ⟨⟨[], by rw [h.dials, List.append_nil], fun _ hx => absurd hx List.not_mem_nil⟩,
    ⟨[], by rw [h.sent, List.append_nil], fun _ hx => absurd hx List.not_mem_nil⟩⟩

theorem refl (io : HttpIo) : io.Adds secure io := of_same (.refl io)

theorem trans (h : io.Adds secure io') (h' : io'.Adds secure io'') : io.Adds secure io'' := by
  obtain ⟨⟨d, hd, hdt⟩, s, hs, hst⟩ := h
  obtain ⟨⟨d', hd', hdt'⟩, s', hs', hst'⟩ := h'
  refine ⟨⟨d ++ d', by rw [hd', hd, List.append_assoc], ?_⟩,
    ⟨s ++ s', by rw [hs', hs, List.append_assoc], ?_⟩⟩
  · intro x hx
    exact (List.mem_append.mp hx).elim (hdt x) (hdt' x)
  · intro x hx
    exact (List.mem_append.mp hx).elim (hst x) (hst' x)

end HttpIo.Adds

theorem httpConnect_adds (io : HttpIo) (d : HttpDial) :
    io.Adds d.tls (httpConnect io d).2 ∧
      ∀ conn, (httpConnect io d).1 = .ok conn → conn.tls = d.tls := by
  refine ⟨⟨⟨[d], rfl, ?_⟩, [], (List.append_nil _).symm, ?_⟩, ?_⟩
  · intro x hx
    rw [List.mem_singleton.mp hx]
  · intro x hx
    exact absurd hx List.not_mem_nil
  · intro conn hconn
    unfold httpConnect at hconn
    cases hpeer : io.peers.headD (.error []) with
    | error e =>
      rw [hpeer] at hconn
      cases hconn
    | ok p =>
      rw [hpeer] at hconn
      cases hconn
      rfl

theorem httpSend_adds (io : HttpIo) (conn : HttpConn) (req : Bytes) :
    io.Adds conn.tls (httpSend io conn req).2.1 := by
  refine ⟨⟨[], (List.append_nil _).symm, ?_⟩, [_], rfl, ?_⟩
  · intro x hx
    exact absurd hx List.not_mem_nil
  · intro x hx
    rw [List.mem_singleton.mp hx]

@[simp] theorem setTimeout_tls (c : HttpConn) (rem : Int) : (c.setTimeout rem).tls = c.tls := by
  unfold HttpConn.setTimeout
  split
  · rfl
  · rfl

namespace Http

/-! ### One exchange -/

/-- What is left of the deadline limits the connect and each step on the connection. -/
def connectLimits (rem connectTimeoutMs : Int) : Int × Int :=
  (if rem > 0 ∧ (connectTimeoutMs ≤ 0 ∨ connectTimeoutMs > rem) then rem else connectTimeoutMs,
    if rem > 0 then rem else 0)

def expiredMsg : Bytes := str "http: request deadline exceeded"

/-- `do_exchange` on the connection: the request is sent and the response read and parsed. -/
def exchangeOn (a : HttpArgs) (u : ZcioUrl) (deadline : Nat) (io : HttpIo) (conn : HttpConn) :
    Except HttpFail (HttpResponse × Option Bytes) × HttpIo :=
  match buildRequest a u with
  | .error e => (.error e, io)
  | .ok req =>
    let rem := deadlineRemainingMs io deadline
    if rem.1 = 0 then (httpFail ZCIO_ERR_TIMEOUT expiredMsg, rem.2)
    else
      let sent := httpSend rem.2 (conn.setTimeout rem.1) req
      if !sent.1 then (httpFail ZCIO_ERR (str "http: failed to send request"), sent.2.1)
      else
        let read := readResponse sent.2.1 sent.2.2 deadline
        match read.1 with
        | .error e => (.error e, read.2.1)
        | .ok raw => (parseResponse raw, read.2.1)

/-- The TLS context of a connection that needs one. -/
def tlsCtxFor (secure : Bool) (io : HttpIo) : Bool × HttpIo :=
  if secure then httpTlsCtx io else (true, io)

/-- The text for a connect that failed. -/
def connectMsg (host : CArg) (port : Nat) : Bytes :=
  str "http: connect to " ++ host.getD (str "(null)") ++ str ":" ++ decimal port ++ str " failed"

/-- `do_exchange`, without the copy of the URL for `prev`: that is `urlParse url`. -/
def doExchange (a : HttpArgs) (url : CArg) (connectTimeoutMs : Int) (deadline : Nat) (io : HttpIo) :
    Except HttpFail (HttpResponse × Option Bytes) × HttpIo :=
  match urlParse url with
  | .error e => (.error e, io)
  | .ok u =>
    let rem := deadlineRemainingMs io deadline
    if rem.1 = 0 then (httpFail ZCIO_ERR_TIMEOUT expiredMsg, rem.2)
    else
      let limits := connectLimits rem.1 connectTimeoutMs
      let ctx := tlsCtxFor u.secure rem.2
      if !ctx.1 then (httpFail ZCIO_ERR_TLS (str "http: TLS context creation failed"), ctx.2)
      else
        let c := httpConnect ctx.2 ⟨u.host, u.port, u.secure, limits.1, limits.2⟩
        match c.1 with
        -- `url_free` has cleared the host by the time it is printed
        | .error _ => (httpFail ZCIO_ERR_CONNECT (connectMsg none u.port), c.2)
        | .ok conn =>
          if !conn.hasStream then (httpFail ZCIO_ERR (str "http: no stream for connection"), c.2)
          else exchangeOn a u deadline c.2 conn

/-! ### The chain of requests

A request and the redirects that follow it, up to the limit. -/

/-- `ZCIO_HTTP_MAX_REDIRECTS`. -/
def ZCIO_HTTP_MAX_REDIRECTS : Nat := 5

/-- `zcio_http_opts`. -/
structure HttpOpts where
  connectTimeoutMs : Int
  timeoutMs : Int

/-- The connect timeout and the deadline of a call. -/
def callDeadline (opts : Option HttpOpts) (io : HttpIo) : Int × Nat × HttpIo :=
  match opts with
  | none => (0, 0, io)
  | some o =>
    if o.timeoutMs > 0 then
      let n := httpNow io
      (o.connectTimeoutMs, n.1 + o.timeoutMs.toNat, n.2)
    else (o.connectTimeoutMs, 0, io)

/-- The target of a response that is followed. -/
def redirectTarget (r : HttpResponse × Option Bytes) : Option Bytes :=
  if 300 ≤ r.1.status ∧ r.1.status < 400 then r.2.filter (· != []) else none

/-- The URL that a response leads to; none if the redirect is refused or cannot be resolved. -/
def nextUrl (url : CArg) (r : HttpResponse × Option Bytes) : Option Bytes :=
  match urlParse url, redirectTarget r with
  | .ok prev, some location => (resolveRedirect prev location).toOption
  | _, _ => none

/-- The loop of `zcio_http_request_opts`, with `left` further redirects to follow. A response
that leads nowhere is returned as it is. -/
def requestLoop (a : HttpArgs) (connectTimeoutMs : Int) (deadline : Nat) :
    Nat → CArg → HttpIo → Except HttpFail HttpResponse × HttpIo
  | left, url, io =>
    match doExchange a url connectTimeoutMs deadline io with
    | (.error e, io) => (.error e, io)
    | (.ok r, io) =>
      match left, nextUrl url r with
      | left + 1, some next => requestLoop a connectTimeoutMs deadline left (some next) io
      | _, _ => (.ok r.1, io)

/-- `zcio_http_request_opts`. -/
def zcioHttpRequestOpts (a : HttpArgs) (url : CArg) (opts : Option HttpOpts) (io : HttpIo) :
    Except HttpFail HttpResponse × HttpIo :=
  let d := callDeadline opts io
  requestLoop a d.1 d.2.1 ZCIO_HTTP_MAX_REDIRECTS url d.2.2

/-! ### Redirects and TLS

Where the next URL comes from, and what the guard lets pass. -/

theorem tlsCtxFor_adds (secure : Bool) (io : HttpIo) : io.Adds secure (tlsCtxFor secure io).2 := by
  unfold tlsCtxFor
  split
  · exact .of_same (httpTlsCtx_same io)
  · exact .refl io

theorem exchangeOn_adds (a : HttpArgs) (u : ZcioUrl) (deadline : Nat) (io : HttpIo) (conn : HttpConn) :
    io.Adds conn.tls (exchangeOn a u deadline io conn).2 := by
  unfold exchangeOn
  cases buildRequest a u with
  | error e => exact .refl io
  | ok req =>
    dsimp only
    have hrem : io.Adds conn.tls (deadlineRemainingMs io deadline).2 :=
      .of_same (deadlineRemainingMs_same io deadline)
    generalize deadlineRemainingMs io deadline = rem at hrem
    have hsend := httpSend_adds rem.2 (conn.setTimeout rem.1) req
    rw [setTimeout_tls] at hsend
    have hsent := hrem.trans hsend
    generalize httpSend rem.2 (conn.setTimeout rem.1) req = sent at hsent
    split
    · exact hrem
    · split
      · exact hsent
      · have hread := hsent.trans (.of_same (readResponse_same sent.2.1 sent.2.2 deadline))
        split
        · exact hread
        · exact hread

/-- The connect and the request of an exchange are of the scheme of its URL. -/
theorem doExchange_adds (a : HttpArgs) {url : CArg} {u : ZcioUrl} (hurl : urlParse url = .ok u)
    (connectTimeoutMs : Int) (deadline : Nat) (io : HttpIo) :
    io.Adds u.secure (doExchange a url connectTimeoutMs deadline io).2 := by
  rw [doExchange, hurl]
  dsimp only
  have hrem : io.Adds u.secure (deadlineRemainingMs io deadline).2 :=
      .of_same (deadlineRemainingMs_same io deadline)
  generalize deadlineRemainingMs io deadline = rem at hrem
  have hctx := hrem.trans (tlsCtxFor_adds u.secure rem.2)
  generalize tlsCtxFor u.secure rem.2 = ctx at hctx
  split
  · exact hrem
  · split
    · exact hctx
    · obtain ⟨hdial, htls⟩ := httpConnect_adds ctx.2 ⟨u.host, u.port, u.secure,
        (connectLimits rem.1 connectTimeoutMs).1, (connectLimits rem.1 connectTimeoutMs).2⟩
      have hc := hctx.trans hdial
      split
      · exact hc
      · rename_i conn hconn
        split
        · exact hc
        · have hexchange := exchangeOn_adds a u deadline (httpConnect ctx.2 ⟨u.host, u.port, u.secure,
            (connectLimits rem.1 connectTimeoutMs).1, (connectLimits rem.1 connectTimeoutMs).2⟩).2 conn
          rw [htls conn hconn] at hexchange
          exact hc.trans hexchange

/-- Without a URL nothing is sent. -/
theorem doExchange_no_url (a : HttpArgs) {url : CArg} {e : HttpFail} (hurl : urlParse url = .error e)
    (connectTimeoutMs : Int) (deadline : Nat) (io : HttpIo) :
    doExchange a url connectTimeoutMs deadline io = (.error e, io) := by
  rw [doExchange, hurl]

end Http

/-! ### Chains

In a chain no request in clear text follows one over TLS. -/

/-- Once over TLS, always over TLS. -/
def KeepsTls (l : List Bool) : Prop := l.Pairwise fun a b => a = true → b = true

instance (l : List Bool) : Decidable (KeepsTls l) := inferInstanceAs (Decidable (l.Pairwise _))

theorem KeepsTls.append {l l' : List Bool} {secure : Bool} (hl : ∀ t ∈ l, t = secure)
    (hl' : KeepsTls l') (hnext : secure = true → ∀ t ∈ l', t = true) : KeepsTls (l ++ l') := by
  refine List.pairwise_append.mpr ⟨?_, hl', ?_⟩
  · refine List.pairwise_of_forall_mem_list ?_
    intro a ha b hb htls
    rw [hl b hb, ← hl a ha, htls]
  · intro a ha b hb htls
    exact hnext (hl a ha ▸ htls) b hb

/-- The further connects and requests of a call keep to TLS, and start with it if `secure`. -/
structure HttpIo.Chain (secure : Bool) (io io' : HttpIo) : Prop where
  dials : ∃ d, io'.dials = io.dials ++ d ∧ KeepsTls (d.map (·.tls)) ∧
    (secure = true → ∀ t ∈ d.map (·.tls), t = true)
  sent : ∃ s, io'.sent = io.sent ++ s ∧ KeepsTls (s.map (·.tls)) ∧
    (secure = true → ∀ t ∈ s.map (·.tls), t = true)

namespace HttpIo.Chain

variable {secure secure' : Bool} {io io' io'' : HttpIo}

theorem refl (secure : Bool) (io : HttpIo) : io.Chain secure io :=
  ⟨⟨[], (List.append_nil _).symm, List.Pairwise.nil, fun _ _ hx => absurd hx List.not_mem_nil⟩,
    ⟨[], (List.append_nil _).symm, List.Pairwise.nil, fun _ _ hx => absurd hx List.not_mem_nil⟩⟩

/-- A request with the redirects behind it. -/
theorem cons (h : io.Adds secure io') (h' : io'.Chain secure' io'')
    (hnext : secure = true → secure' = true) : io.Chain secure io'' := by
  obtain ⟨⟨d, hd, hdt⟩, s, hs, hst⟩ := h
  obtain ⟨⟨d', hd', hdk, hdt'⟩, s', hs', hsk, hst'⟩ := h'
  have hdt : ∀ t ∈ d.map (·.tls), t = secure := by
    intro t ht
    obtain ⟨x, hx, rfl⟩ := List.mem_map.mp ht
    exact hdt x hx
  have hst : ∀ t ∈ s.map (·.tls), t = secure := by
    intro t ht
    obtain ⟨x, hx, rfl⟩ := List.mem_map.mp ht
    exact hst x hx
  refine ⟨⟨d ++ d', by rw [hd', hd, List.append_assoc], ?_, ?_⟩,
    ⟨s ++ s', by rw [hs', hs, List.append_assoc], ?_, ?_⟩⟩
  · rw [List.map_append]
    exact hdk.append hdt fun hsecure => hdt' (hnext hsecure)
  · intro hsecure t ht
    rw [List.map_append] at ht
    exact (List.mem_append.mp ht).elim (fun ht => (hdt t ht).trans hsecure) (hdt' (hnext hsecure) t)
  · rw [List.map_append]
    exact hsk.append hst fun hsecure => hst' (hnext hsecure)
  · intro hsecure t ht
    rw [List.map_append] at ht
    exact (List.mem_append.mp ht).elim (fun ht => (hst t ht).trans hsecure) (hst' (hnext hsecure) t)

theorem single (h : io.Adds secure io') : io.Chain secure io' :=
  cons h (refl secure io') fun hsecure => hsecure

end HttpIo.Chain

namespace Http

/-- No request for the URL is made without TLS. -/
def urlSecure (url : CArg) : Bool := ((urlParse url).toOption).all (·.secure)

theorem nextUrl_secure {url : CArg} {r : HttpResponse × Option Bytes} {next : Bytes}
    (hnext : nextUrl url r = some next) (hsecure : urlSecure url = true) :
    urlSecure (some next) = true := by
  unfold nextUrl at hnext
  split at hnext
  · rename_i prev location hprev _
    rw [urlSecure, hprev] at hsecure
    rw [urlSecure]
    cases hu : urlParse (some next) with
    | error e => rfl
    | ok u =>
      cases hresolve : resolveRedirect prev location with
      | error e =>
        rw [hresolve] at hnext
        cases hnext
      | ok next' =>
        rw [hresolve] at hnext
        cases hnext
        exact resolveRedirect_secure hprev hsecure hresolve hu
  · cases hnext

theorem doExchange_chain (a : HttpArgs) (url : CArg) (connectTimeoutMs : Int) (deadline : Nat)
    (io : HttpIo) : io.Adds (urlSecure url) (doExchange a url connectTimeoutMs deadline io).2 := by
  cases hurl : urlParse url with
  | error e =>
    rw [doExchange_no_url a hurl]
    exact .refl io
  | ok u =>
    have hsecure : urlSecure url = u.secure := by
      rw [urlSecure, hurl]
      rfl
    rw [hsecure]
    exact doExchange_adds a hurl connectTimeoutMs deadline io

/-- Along the redirects of a call. -/
theorem requestLoop_chain (a : HttpArgs) (connectTimeoutMs : Int) (deadline left : Nat) :
    ∀ (url : CArg) (io : HttpIo),
      io.Chain (urlSecure url) (requestLoop a connectTimeoutMs deadline left url io).2 := by
  induction left with
  | zero =>
    intro url io
    have hadds := doExchange_chain a url connectTimeoutMs deadline io
    rw [requestLoop]
    cases hex : doExchange a url connectTimeoutMs deadline io with
    | mk res io' =>
      rw [hex] at hadds
      cases res with
      | error e => exact .single hadds
      | ok r => exact .single hadds
  | succ left ih =>
    intro url io
    have hadds := doExchange_chain a url connectTimeoutMs deadline io
    rw [requestLoop]
    cases hex : doExchange a url connectTimeoutMs deadline io with
    | mk res io' =>
      rw [hex] at hadds
      cases res with
      | error e => exact .single hadds
      | ok r =>
        dsimp only
        cases hnext : nextUrl url r with
        | none => exact .single hadds
        | some next => exact .cons hadds (ih (some next) io') (nextUrl_secure hnext)

theorem callDeadline_same (opts : Option HttpOpts) (io : HttpIo) :
    io.Same (callDeadline opts io).2.2 := by
  unfold callDeadline
  split
  · exact .refl io
  · split
    · exact httpNow_same io
    · exact .refl io

theorem zcioHttpRequestOpts_chain (a : HttpArgs) (url : CArg) (opts : Option HttpOpts) (io : HttpIo) :
    io.Chain (urlSecure url) (zcioHttpRequestOpts a url opts io).2 := by
  exact .cons (.of_same (callDeadline_same opts io)) (requestLoop_chain a _ _ ZCIO_HTTP_MAX_REDIRECTS url _) fun hsecure => hsecure

end Http

end Zcio
