import Zcio.HttpUtil.Hdrs

/-!
# Zcio.Server.Dispatch

The services `http_server.c` offers the protocol modules: the request object, the respond
policy behind `zcio_http_respond` (validation, filtering, the server's own headers) and
`zhs_dispatch_`, which runs the handler and guarantees a response.

The wire format is the protocol module's business. It is the parameter `respondFn` here:
a function on the module's own connection state `σ`, called at most once per request.
-/

namespace Zcio

/-! ### The request object -/

/-- The octets a request was made from, as they came off the wire: a record of what was
received, for stating what the parsed request has to do with it. -/
structure RawReq where
  method : Bytes := []
  /-- The request target or `:path`. -/
  target : Bytes := []
  /-- `:authority`; in HTTP/1.1 the `Host` field. -/
  authority : Option Bytes := none
  /-- The regular header fields, in order. -/
  fields : List (Bytes × Bytes) := []
  deriving Repr, DecidableEq

/-- `struct zcio_http_req`, less the plumbing pointers. A `char *` field is the
NUL-terminated string it reads as; `none` is `NULL`. `raw` is not in the source. -/
structure HttpReq where
  version : Nat := 0
  secure : Bool := false
  isHead : Bool := false
  wsUpgrade : Bool := false
  method : Option Bytes := none
  path : Option Bytes := none
  query : Option Bytes := none
  authority : Option Bytes := none
  headers : ZhsHdrs := {}
  body : Bytes := []
  streamId : Nat := 0
  responded : Bool := false
  raw : RawReq := {}
  deriving Repr, DecidableEq

/-! ### Handlers

A handler is a function of the requests so far, and may answer, answer again or take the
connection over. -/

/-- The body argument of a respond call: `NULL` with some length, or octets. -/
inductive RespBody where
  | null (len : Nat)
  | data (b : Bytes)
  deriving Repr, DecidableEq

/-- The `body_len` argument. -/
def RespBody.len : RespBody → Nat
  | .null n => n
  | .data b => b.length

/-- One call of `zcio_http_respond` by a handler, with arbitrary arguments. -/
structure RespondCall where
  status : Int
  headers : List (Option CStr × Option CStr) := []
  body : RespBody := .null 0
  deriving DecidableEq

/-- What a handler does with a request: respond calls, and the WebSocket upgrade that
takes the connection away from the loop (`zcio_ws_accept` succeeding). -/
inductive HandlerOp where
  | respond (call : RespondCall)
  | detach
  deriving DecidableEq

/-- A handler decides from the requests it was given before (oldest first) and the one at
hand. Every dispatch has its own history, so no behaviour over time is lost. -/
abbrev Handler := List HttpReq → HttpReq → List HandlerOp

/-- An IMF-fixdate: always 29 octets, all of them printable. -/
abbrev HttpDate := { s : Bytes // s.length = 29 ∧ zhsValueOk s = true }

/-- The parts of `struct zcio_http_server` the protocol modules reach. `date n` is what
`zhs_http_date_` reads off the clock for the response after the `n`-th dispatch. -/
structure Server where
  handler : Handler
  host : Option CStr := none
  hsts : Bool := false
  http3 : Bool := false
  boundPort : UInt16 := 0
  date : Nat → HttpDate := fun _ => ⟨str "Sun, 06 Nov 1994 08:49:37 GMT", by decide⟩

/-- A server whose handler leaves every request to the fallback response. -/
def Server.silent : Server := { handler := fun _ _ => [] }

/-! ### The respond policy

What a caller may send: names and values are checked, some fields are dropped, and the
server adds its own. -/

/-- The names `respond_filtered` drops: hop-by-hop headers and the server's own. -/
def respondDrop : List Bytes :=
  [str "connection", str "keep-alive", str "proxy-connection", str "transfer-encoding",
    str "upgrade", str "te", str "trailer", str "content-length", str "date", str "server"]

/-- `respond_filtered`. -/
def respondFiltered (name : Bytes) : Bool := respondDrop.any fun d => ciEq name d

/-- The check of one caller header: a token name and a clean value (`NULL` reads as `""`). -/
def respondHeaderOk (h : Option CStr × Option CStr) : Bool :=
  match h.1 with
  | none => false
  | some k => zhsTokenOk k.1 && zhsValueOk ((h.2.map (·.1)).getD [])

/-- A caller header as it goes into the final set. -/
def respondHeader (h : Option CStr × Option CStr) : Bytes × Bytes :=
  ((h.1.map (·.1)).getD [], (h.2.map (·.1)).getD [])

/-- `zcio_http_respond` accepts the call: a status in range and every header valid. -/
def RespondCall.valid (call : RespondCall) : Bool :=
  100 ≤ call.status && call.status ≤ 599 && call.headers.all respondHeaderOk &&
    decide (call.headers.length ≤ SIZE_MAX / 16 - 4)

/-- The final header set: the surviving caller headers, then Date, Server, HSTS and
Alt-Svc as the server is configured. -/
def finalHeaders (srv : Server) (secure : Bool) (date : HttpDate)
    (hs : List (Option CStr × Option CStr)) : List (Bytes × Bytes) :=
  (hs.map respondHeader).filter (fun h => !respondFiltered h.1) ++
    [(str "date", date.1), (str "server", str "zcio")] ++
    (if srv.hsts && secure then
      [(str "strict-transport-security", str "max-age=31536000")] else []) ++
    (if srv.http3 && secure then
      [(str "alt-svc", str "h3=\":" ++ decimal srv.boundPort.toNat ++ str "\"")] else [])

section Respond

variable {σ : Type}

/-- A protocol module's `respond_fn`: status, final headers and body onto its state. -/
abbrev RespondFn (σ : Type) := σ → Nat → List (Bytes × Bytes) → RespBody → σ

/-- `zcio_http_respond`, on the module state and the `responded` flag: a rejected call
changes nothing. -/
def zcioHttpRespond (srv : Server) (req : HttpReq) (date : HttpDate) (fn : RespondFn σ)
    (s : σ × Bool) (call : RespondCall) : σ × Bool :=
  if s.2 then s
  else if call.valid then
    (fn s.1 call.status.toNat (finalHeaders srv req.secure date call.headers) call.body, true)
  else s

/-- The 500 response `zhs_dispatch_` falls back to. -/
def fallback : RespondCall :=
  { status := 500, body := .data (str "Internal Server Error") }

/-- The handler takes the connection away on this request: `zcio_ws_accept` wants a
WebSocket opening handshake, and `zhs_detach_for_upgrade_` an HTTP/1.1 request. -/
def Server.detaches (srv : Server) (history : List HttpReq) (req : HttpReq) : Bool :=
  (srv.handler history req).contains .detach && req.version == 1 && req.wsUpgrade

/-- The respond calls of a handler. -/
def respondCalls (ops : List HandlerOp) : List RespondCall :=
  ops.filterMap fun op => match op with
    | .respond call => some call
    | .detach => none

/-- The calls that reach the connection. What the handler queues behind the upgrade goes to
a buffer that is released with the `conn`. -/
def Server.attachedOps (srv : Server) (history : List HttpReq) (req : HttpReq) :
    List HandlerOp :=
  let ops := srv.handler history req
  if srv.detaches history req then ops.takeWhile (· ≠ .detach) else ops

/-- `zhs_dispatch_`: run the handler on `req`, then make sure it was answered. Returns the
module state and the request's `responded` flag; a detached connection gets no fallback, and
is as it was at the detach. -/
def zhsDispatch (srv : Server) (history : List HttpReq) (req : HttpReq) (fn : RespondFn σ)
    (s : σ) : σ × Bool :=
  let date := srv.date history.length
  let calls := respondCalls (srv.attachedOps history req)
  let r := calls.foldl (zcioHttpRespond srv req date fn) (s, req.responded)
  if srv.detaches history req then r
  else zcioHttpRespond srv req date fn r fallback

end Respond

/-! ### Exactly one response

Whatever the handler does short of detaching, its effect on the connection is a single
call of `respondFn`: for the first acceptable call it made, or for the fallback. -/

/-- The call that is answered: the first valid one, else the fallback. -/
def Server.answer (srv : Server) (history : List HttpReq) (req : HttpReq) : RespondCall :=
  ((srv.handler history req).filterMap fun op => match op with
    | .respond call => if call.valid then some call else none
    | .detach => none).headD fallback

section Respond

variable {σ : Type}

theorem fallback_valid : fallback.valid = true := by decide

theorem foldl_respond_done (srv : Server) (req : HttpReq) (date : HttpDate) (fn : RespondFn σ)
    (s : σ) (calls : List RespondCall) :
    calls.foldl (zcioHttpRespond srv req date fn) (s, true) = (s, true) := by
  induction calls with
  | nil => rfl
  | cons c cs ih => rw [List.foldl_cons]; exact ih

theorem foldl_respond (srv : Server) (req : HttpReq) (date : HttpDate) (fn : RespondFn σ)
    (s : σ) (calls : List RespondCall) :
    calls.foldl (zcioHttpRespond srv req date fn) (s, false) =
      match calls.find? RespondCall.valid with
      | none => (s, false)
      | some c =>
        (fn s c.status.toNat (finalHeaders srv req.secure date c.headers) c.body, true) := by
  induction calls with
  | nil => rfl
  | cons c cs ih =>
    rw [List.foldl_cons]
    by_cases hc : c.valid = true
    · have hresp : zcioHttpRespond srv req date fn (s, false) c =
          (fn s c.status.toNat (finalHeaders srv req.secure date c.headers) c.body, true) := by
        simp [zcioHttpRespond, hc]
      rw [List.find?_cons_of_pos hc, hresp, foldl_respond_done]
    · have hresp : zcioHttpRespond srv req date fn (s, false) c = (s, false) := by
        simp [zcioHttpRespond, hc]
      rw [List.find?_cons_of_neg hc, hresp, ih]

/-- **One response per dispatch.** -/
theorem zhsDispatch_eq (srv : Server) (history : List HttpReq) (req : HttpReq)
    (fn : RespondFn σ) (s : σ) (hr : req.responded = false)
    (hd : srv.detaches history req = false) :
    zhsDispatch srv history req fn s =
      (fn s (srv.answer history req).status.toNat
        (finalHeaders srv req.secure (srv.date history.length) (srv.answer history req).headers)
        (srv.answer history req).body, true) := by
  have hans : srv.answer history req =
      ((respondCalls (srv.handler history req)).find? RespondCall.valid).getD fallback := by
    unfold Server.answer respondCalls
    generalize srv.handler history req = ops
    induction ops with
    | nil => rfl
    | cons op ops ih =>
      cases op with
      | detach => simpa using ih
      | respond c =>
        by_cases hc : c.valid = true
        · simp [hc]
        · simpa [hc] using ih
  unfold zhsDispatch Server.attachedOps
  dsimp only
  rw [hd, hr, foldl_respond, hans]
  simp only [Bool.false_eq_true, if_false]
  generalize List.find? _ _ = found
  cases found with
  | none => simp [zcioHttpRespond, fallback_valid]
  | some c => simp [zcioHttpRespond]

/-- A request that was answered before gets no second response, whatever the handler does. -/
theorem zhsDispatch_responded (srv : Server) (history : List HttpReq) (req : HttpReq)
    (fn : RespondFn σ) (s : σ) (hr : req.responded = true) :
    zhsDispatch srv history req fn s = (s, true) := by
  unfold zhsDispatch
  dsimp only
  rw [hr, foldl_respond_done]
  split
  · rfl
  · simp [zcioHttpRespond]

/-- What every response keeps, a dispatch keeps, whatever the handler does. -/
theorem zhsDispatch_inv {I : σ → Prop} (srv : Server) (history : List HttpReq) (req : HttpReq)
    {fn : RespondFn σ} (hfn : ∀ s status hdrs body, I s → I (fn s status hdrs body)) {s : σ}
    (hs : I s) : I (zhsDispatch srv history req fn s).1 := by
  have hcall : ∀ (date : HttpDate) (p : σ × Bool) (call : RespondCall), I p.1 →
      I (zcioHttpRespond srv req date fn p call).1 := by
    intro date p call hp
    unfold zcioHttpRespond
    split
    · exact hp
    · split
      · exact hfn _ _ _ _ hp
      · exact hp
  have hfold : ∀ (date : HttpDate) (calls : List RespondCall) (p : σ × Bool), I p.1 →
      I (calls.foldl (zcioHttpRespond srv req date fn) p).1 := by
    intro date calls
    induction calls with
    | nil => exact fun _ hp => hp
    | cons call calls ih => exact fun p hp => ih _ (hcall date p call hp)
  unfold zhsDispatch
  dsimp only
  split
  · exact hfold _ _ _ hs
  · exact hcall _ _ _ (hfold _ _ _ hs)

/-- The answered call is one `zcio_http_respond` accepts. -/
theorem Server.answer_valid (srv : Server) (history : List HttpReq) (req : HttpReq) :
    (srv.answer history req).valid = true := by
  unfold Server.answer
  generalize srv.handler history req = ops
  induction ops with
  | nil => exact fallback_valid
  | cons op ops ih =>
    cases op with
    | detach => simpa using ih
    | respond c =>
      by_cases hc : c.valid = true
      · simp [hc]
      · simpa [hc] using ih

end Respond

/-! ### The size of a response's headers

A bound for the fields of a response, from one for the fields of the caller. -/

/-- Names and values of at most `n` octets. -/
def HeadersWithin (n : Nat) (hs : List (Bytes × Bytes)) : Prop :=
  ∀ h ∈ hs, h.1.length ≤ n ∧ h.2.length ≤ n

/-- A handler whose header names and values have at most `n` octets. -/
def Server.Bounded (srv : Server) (n : Nat) : Prop :=
  ∀ history req call, HandlerOp.respond call ∈ srv.handler history req →
    HeadersWithin n (call.headers.map respondHeader)

/-- The answered call is one of the handler's, or the fallback. -/
theorem Server.answer_mem (srv : Server) (history : List HttpReq) (req : HttpReq) :
    HandlerOp.respond (srv.answer history req) ∈ srv.handler history req ∨
      srv.answer history req = fallback := by
  unfold Server.answer
  generalize srv.handler history req = ops
  induction ops with
  | nil => exact .inr rfl
  | cons op ops ih =>
    cases op with
    | detach => exact ih.imp (List.mem_cons_of_mem _) id
    | respond c =>
      by_cases hc : c.valid = true
      · simp [hc]
      · simpa [hc] using ih.imp (List.mem_cons_of_mem (.respond c)) id

/-- What the server adds to a bounded handler's headers is short. -/
theorem Server.Bounded.finalHeaders {srv : Server} {n : Nat} (h : srv.Bounded n) (hn : 29 ≤ n)
    (history : List HttpReq) (req : HttpReq) (secure : Bool) (date : HttpDate) :
    HeadersWithin n (finalHeaders srv secure date (srv.answer history req).headers) := by
  -- the caller's fields are those of an answer of the server, or there are none
  have hcaller : HeadersWithin n ((srv.answer history req).headers.map respondHeader) := by
    rcases srv.answer_mem history req with hmem | hfall
    · exact h history req _ hmem
    · rw [hfall]
      exact nofun
  -- a port has five digits at most
  have hport : (decimal srv.boundPort.toNat).length ≤ 5 :=
    length_decimal_le (by decide) (Nat.lt_trans srv.boundPort.toNat_lt (by decide))
  -- the fields that the server adds itself, each under its own condition
  have hown : HeadersWithin n ([(str "date", date.1), (str "server", str "zcio")] ++
      (if srv.hsts && secure then
        [(str "strict-transport-security", str "max-age=31536000")] else []) ++
      (if srv.http3 && secure then
        [(str "alt-svc", str "h3=\":" ++ decimal srv.boundPort.toNat ++ str "\"")] else [])) := by
    have hdate : (str "date").length ≤ 29 := by decide
    have halt : (str "alt-svc").length ≤ 29 := by decide
    intro p hp
    rcases List.mem_append.mp hp with hp | hp
    · rcases List.mem_append.mp hp with hp | hp
      · rcases List.mem_cons.mp hp with rfl | hp
        · exact ⟨hdate.trans hn, date.2.1.le.trans hn⟩
        · cases List.mem_singleton.mp hp
          exact ⟨Nat.le_trans (by decide) hn, Nat.le_trans (by decide) hn⟩
      · split at hp
        · cases List.mem_singleton.mp hp
          exact ⟨Nat.le_trans (by decide) hn, Nat.le_trans (by decide) hn⟩
        · cases hp
    · split at hp
      · cases List.mem_singleton.mp hp
        refine ⟨halt.trans hn, ?_⟩
        have hpre : (str "h3=\":").length = 5 := by decide
        have hpost : (str "\"").length = 1 := by decide
        simp only [List.length_append]
        omega
      · cases hp
  -- what goes out is some of the first and all of the second
  intro p hp
  unfold Zcio.finalHeaders at hp
  rw [List.append_assoc, List.append_assoc] at hp
  rcases List.mem_append.mp hp with hp | hp
  · exact hcaller p (List.mem_filter.mp hp).1
  · exact hown p (by rw [List.append_assoc]; exact hp)

end Zcio
