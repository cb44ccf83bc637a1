import Mathlib.Data.List.Infix
import Zcio.H1.Sized
import Zcio.Http.Framing
import Zcio.Http.Injection
import Zcio.Http.Session
import Zcio.Ws.Handshake

/-!
# Zcio.Http.Interop

A session of the client and a server of the same repository. What the client builds is a message
that the server takes (`CallOk.valid`), and what `h1_respond` queues for it is a response that the
client reads to its end (`answerMessage`). Both ends know from the `Connection` field of the response
whether the connection goes on. A run of calls is therefore a run of the handler
(`session_refines_rpc`), however the transport cuts the octets up.
-/

namespace Zcio

/-! ### Fields as pairs

The fields of a request of the client, as lines that the server reads. -/

/-- Field lines that carry the texts of `fs`. -/
def textFields (fs : List (Bytes × Bytes)) : List FieldLine := fs.map fun f => .ofText f.1 f.2

theorem textFields_lines (fs : List (Bytes × Bytes)) :
    fieldLines ((textFields fs).map (·.text)) = fieldLines (fs.map fun f => f.1 ++ str ": " ++ f.2) := by
  rw [textFields, List.map_map]
  congr 2
  funext f
  exact FieldLine.ofText_text f.1 f.2

theorem textFields_values (fs : List (Bytes × Bytes)) (name : Bytes) :
    fieldValues (textFields fs) name = valuesOf name (trimmed fs) := by
  rw [fieldValues, valuesOf, textFields, trimmed, List.filter_map, List.filter_map, List.map_map, List.map_map]
  rfl

theorem textFields_ok {fs : List (Bytes × Bytes)}
    (h : ∀ f ∈ fs, zhsTokenOk f.1 = true ∧ zhsValueOk f.2 = true) : ∀ f ∈ textFields fs, f.Ok := by
  intro f hf
  obtain ⟨p, hp, rfl⟩ := List.mem_map.mp hf
  exact FieldLine.ofText_ok (h p hp).1 (h p hp).2

/-- What the server takes for a field, the client does. -/
theorem FieldLine.Ok.fieldOk {f : FieldLine} (h : f.Ok) : Http.FieldOk f where
  name := h.name
  value := ⟨notMem_of_valueOk h.value (by decide), notMem_of_valueOk h.value (by decide)⟩
  pre := h.pre
  post := h.post

namespace Http

/-! ### The request of a call

A call of the session spells a message that the server takes, under conditions on the call
alone. -/

/-- The arguments of `build_request` in a session. -/
def sessionArgs (call : SessionCall) : HttpArgs :=
  { call.args with headers := call.args.headers ++ [keepAlive] }

def callUrl (origin : ZcioUrl) (call : SessionCall) : ZcioUrl :=
  { origin with path := (call.path.filter (· != [])).getD (str "/") }

/-- The fields of a call: those of the caller between the ones of the session. -/
def callFields (origin : ZcioUrl) (call : SessionCall) : List (Bytes × Bytes) :=
  (str "Host", origin.host) ::
    ((call.args.headers.filter headerKept).map (fun h => (h.key.getD [], h.value.getD [])) ++
      [(str "Connection", str "keep-alive"), (str "Content-Length", decimal call.args.bodyLen)])

/-- The request of a call as a message. -/
def callMessage (origin : ZcioUrl) (call : SessionCall) : H1Message where
  method := call.args.method.getD []
  target := (callUrl origin call).path
  fields := textFields (callFields origin call)
  body := .length (givenBody call.args)

/-- The names of the fields that a session writes, and of the other one that frames a request. -/
def sessionNames : List Bytes :=
  [str "host", str "connection", str "content-length", str "transfer-encoding"]

/-- A call that the server takes: the parts of the request are clean, the headers leave the
connection and the framing alone, the body has the length that is given, and all of it is within the
limits. The response to `HEAD` has no body, which the client would wait for. -/
structure CallOk (lim : ZhsLimits) (origin : ZcioUrl) (call : SessionCall) : Prop where
  method : headerTokenOk call.args.method = true ∧ zhsTokenOk (call.args.method.getD []) = true
  notHead : call.args.method.getD [] ≠ str "HEAD"
  path : SP ∉ (callUrl origin call).path ∧ ∃ r, zhsDecodeTarget (callUrl origin call).path lim = .ok r
  host : zhsValueOk origin.host = true
  keys : ∀ h ∈ call.args.headers, headerKept h = true →
    zhsTokenOk (h.key.getD []) = true ∧ lower (h.key.getD []) ∉ sessionNames
  body : (givenBody call.args).length = call.args.bodyLen
  short : call.args.bodyLen < 10 ^ 11 ∧ call.args.bodyLen ≤ lim.maxBodyBytes
  count : (callFields origin call).length ≤ lim.maxHeaders
  cost : ((textFields (callFields origin call)).map FieldLine.cost).sum ≤ ZhsHdrs.byteCap lim
  size : (callMessage origin call).headBytes.length ≤ lim.maxHeaderBytes

theorem sessionKept (call : SessionCall) :
    (sessionArgs call).headers.filter headerKept = call.args.headers.filter headerKept ++ [keepAlive] := by
  rw [sessionArgs, List.filter_append, List.filter_cons_of_pos (by decide), List.filter_nil]

/-- The fields of `build_request` are those of the call. -/
theorem requestFields_session (origin : ZcioUrl) (call : SessionCall) :
    (requestFields (sessionArgs call) (callUrl origin call)).map (fun f => (f.name, f.value)) =
      callFields origin call := by
  have hconnection : connectionFields (sessionArgs call) = [] := by
    rw [connectionFields, sessionKept, if_pos]
    rw [List.any_append, List.any_cons, Bool.or_eq_true]
    exact .inr (by decide)
  rw [requestFields, keptFields, sessionKept, hconnection, List.append_nil, List.map_append, List.map_cons,
    List.map_append, List.map_append, List.map_map, callFields, List.append_assoc]
  rfl

/-- The head of a message whose fields are written as pairs. -/
theorem requestHead_fields (method path : Bytes) (fs : List Lib.Http1.HeaderField) :
    Lib.Http1.requestHead method path fs =
      method ++ SP :: (path ++ SP :: str "HTTP/1.1") ++ crlf ++
        (fieldLines ((textFields (fs.map fun f => (f.name, f.value))).map (·.text)) ++ crlf) := by
  have hfields : Lib.Http1.writtenFields fs =
      fieldLines ((fs.map fun f => (f.name, f.value)).map fun f => f.1 ++ str ": " ++ f.2) := by
    induction fs with
    | nil => rfl
    | cons f fs ih =>
      rw [writtenFields_cons, List.map_cons, List.map_cons, fieldLines_cons, ih]
  have hversion : str "HTTP/1.1" = Lib.Http1.version := by decide
  rw [textFields_lines, ← hfields, hversion, Lib.Http1.requestHead]
  simp only [List.append_assoc]
  rfl

/-- **The octets of a call** are those of its message. -/
theorem CallOk.built {lim : ZhsLimits} {origin : ZcioUrl} {call : SessionCall} (h : CallOk lim origin call)
    (sess : HttpSession) (hsess : sess.origin = origin) :
    sessionBuild sess call = .ok (callMessage origin call).bytes := by
  subst hsess
  obtain ⟨req, hreq⟩ : ∃ req, buildRequest (sessionArgs call) (callUrl sess.origin call) = .ok req := by
    rw [buildRequest, if_neg (by rw [show (sessionArgs call).method = call.args.method from rfl, h.method.1]; decide)]
    exact ⟨_, rfl⟩
  have hparts := buildRequest_eq hreq
  rw [show (sessionArgs call).bodyLen = call.args.bodyLen from rfl, snprintf_short h.short.1,
    show call.args.bodyLen = (sessionArgs call).bodyLen from rfl, headFront_append, requestHead_fields,
    requestFields_session] at hparts
  rw [show sessionBuild sess call = buildRequest (sessionArgs call) (callUrl sess.origin call) from rfl, hreq, hparts,
    H1Message.bytes_head]
  rfl

section Request

variable {lim : ZhsLimits} {origin : ZcioUrl} {call : SessionCall}

theorem CallOk.fields (h : CallOk lim origin call) :
    ∀ f ∈ callFields origin call, zhsTokenOk f.1 = true ∧ zhsValueOk f.2 = true := by
  have hvalue : ∀ v : CArg, headerTokenOk v = true → zhsValueOk (v.getD []) = true := by
    intro v hv
    cases v with
    | none => rfl
    | some v =>
      refine zhsValueOk_iff.mpr fun c hc => ?_
      have hc := List.all_eq_true.mp hv c hc
      rw [Bool.not_eq_true', Bool.or_eq_false_iff, decide_eq_false_iff_not, UInt8.not_lt, UInt8.le_iff_toNat_le] at hc
      have hne : c.toNat ≠ 127 := fun heq => by
        rw [UInt8.toNat_inj.mp (heq.trans (by decide : 127 = (127 : UInt8).toNat))] at hc
        exact absurd hc.2 (by decide)
      have hlo : 32 ≤ c.toNat := hc.1
      rw [← Bool.not_eq_true, isCtl_iff]
      omega
  intro f hf
  rw [callFields, List.mem_cons, List.mem_append] at hf
  obtain rfl | hf | hf := hf
  · exact ⟨show zhsTokenOk (str "Host") = true by decide, h.host⟩
  · obtain ⟨x, hx, rfl⟩ := List.mem_map.mp hf
    obtain ⟨hmem, hkept⟩ := List.mem_filter.mp hx
    refine ⟨(h.keys x hmem hkept).1, ?_⟩
    rw [headerKept, Bool.and_eq_true, Bool.or_eq_true] at hkept
    obtain hnone | hsome := hkept.2
    · rw [Option.isNone_iff_eq_none.mp hnone]
      rfl
    · exact hvalue _ hsome
  · rw [List.mem_cons, List.mem_singleton] at hf
    obtain rfl | rfl := hf
    · exact ⟨show zhsTokenOk (str "Connection") = true by decide, show zhsValueOk (str "keep-alive") = true by decide⟩
    · exact ⟨show zhsTokenOk (str "Content-Length") = true by decide, decimal_clean _⟩

/-- A field that the session writes is the only one of its name. -/
theorem CallOk.values (h : CallOk lim origin call) {name : Bytes} (hname : name ∈ sessionNames) :
    fieldValues (textFields (callFields origin call)) name =
      valuesOf name (trimmed [(str "Host", origin.host), (str "Connection", str "keep-alive"),
        (str "Content-Length", decimal call.args.bodyLen)]) := by
  have hcaller : valuesOf name (trimmed ((call.args.headers.filter headerKept).map
      fun h => (h.key.getD [], h.value.getD []))) = [] := by
    refine valuesOf_trimmed_nil fun f hf heq => ?_
    obtain ⟨x, hx, rfl⟩ := List.mem_map.mp hf
    obtain ⟨hmem, hkept⟩ := List.mem_filter.mp hx
    exact (h.keys x hmem hkept).2 (heq ▸ hname)
  have hsplit : ∀ fs fs' : List (Bytes × Bytes),
      valuesOf name (trimmed (fs ++ fs')) = valuesOf name (trimmed fs) ++ valuesOf name (trimmed fs') := by
    intro fs fs'
    rw [trimmed, List.map_append, valuesOf_append]
    rfl
  rw [textFields_values, callFields, ← List.singleton_append, hsplit, hsplit, hcaller, List.nil_append, ← hsplit]
  rfl

/-- **A call is a message** that the server accepts. -/
theorem CallOk.valid (h : CallOk lim origin call) : (callMessage origin call).Valid lim := by
  obtain ⟨⟨path, query⟩, hdecoded⟩ := h.path.2
  obtain ⟨hurl, hclean⟩ := zhsDecodeTarget_clean hdecoded
  have hdigits : decVal (decimal call.args.bodyLen) = (givenBody call.args).length :=
    (decimalValue_decimal call.args.bodyLen).trans h.body.symm
  have hsize := h.size
  rw [H1Message.headBytes, ← List.append_assoc] at hsize
  -- each clause of a valid message, from the clause of the call it comes from
  exact
    { method := h.method.2
      target := ⟨h.path.1, notMem_of_valueOk hclean (by decide), hurl⟩
      decoded := ⟨path, query, hdecoded⟩
      fields := textFields_ok h.fields
      host := by
        show (fieldValues (textFields (callFields origin call)) (str "host")).length = 1
        rw [h.values (by decide)]
        rfl
      framed := by
        show fieldValues (textFields (callFields origin call)) (str "transfer-encoding") = [] ∧
          ∃ v, fieldValues (textFields (callFields origin call)) (str "content-length") = [v] ∧ v ≠ [] ∧
            (∀ p ∈ v, h1IsDigit p = true) ∧ decVal v = (givenBody call.args).length
        rw [h.values (by decide), h.values (by decide)]
        refine ⟨rfl, decimal call.args.bodyLen, ?_, decimal_ne_nil _, fun p hp => isDigit_of_mem_decimal hp, hdigits⟩
        exact congrArg (fun v => [v]) (trimOws_decimal _)
      persistent := by
        show ∀ v ∈ fieldValues (textFields (callFields origin call)) (str "connection"),
          h1TokenInList v (str "close") = false
        rw [h.values (by decide)]
        intro v hv
        obtain rfl : v = trimOws (str "keep-alive") := List.mem_singleton.mp hv
        decide
      count := by
        rw [callMessage, textFields, List.length_map]
        exact h.count
      cost := h.cost
      head := hsize
      trailerLen := by
        rw [List.length_append] at hsize
        exact le_trans (Nat.le_add_left _ _) hsize
      body := h.body.le.trans h.short.2
      object := lt_of_eq_of_lt h.body (h.short.1.trans (by decide)) }

end Request

/-! ### The response

What the server answers is a final response in the sense of the client's framing. -/

/-- A server that answers in line: the handler takes no connection away, its final statuses allow a
body, which is there if it has a length, and the responses fit the output and the client. -/
structure Answering (g : H1Cfg) : Prop where
  plain : g.redirect = false
  inline : ∀ history req, g.srv.detaches history req = false
  status : ∀ history req, 200 ≤ (g.srv.answer history req).status ∧
    bodiless (g.srv.answer history req).status.toNat = false
  body : ∀ history req, ∃ b, (g.srv.answer history req).body.Is b
  fits : ∀ close history req, (replyTo g close history req).length ≤ min g.lim.maxOutBytes ZCIO_HTTP_MAX_RESPONSE

/-- The fields of a response. -/
def answerFields (g : H1Cfg) (close : Bool) (history : List HttpReq) (req : HttpReq) : List (Bytes × Bytes) :=
  let call := g.srv.answer history req
  finalHeaders g.srv req.secure (g.srv.date history.length) call.headers ++
    framingFields close call.status.toNat call.body.len

/-- The response of `h1_respond` as a message, with the body `b`. -/
def answerMessage (g : H1Cfg) (close : Bool) (history : List HttpReq) (req : HttpReq) (b : Bytes) : RespMsg where
  major := 49
  minor := 49
  code := decimal (g.srv.answer history req).status.toNat
  reason := some (zhsStatusText (g.srv.answer history req).status.toNat)
  fields := textFields (answerFields g close history req)
  body := .length b

section Response

variable {g : H1Cfg} (hg : Answering g) (close : Bool) (history : List HttpReq) {req : HttpReq} {b : Bytes}

theorem answer_status (g : H1Cfg) (history : List HttpReq) (req : HttpReq) :
    100 ≤ (g.srv.answer history req).status.toNat ∧ (g.srv.answer history req).status.toNat ≤ 599 ∧
      (g.srv.answer history req).headers.all respondHeaderOk = true := by
  have hvalid := g.srv.answer_valid history req
  simp only [RespondCall.valid, Bool.and_eq_true, decide_eq_true_eq] at hvalid
  exact ⟨by omega, by omega, hvalid.1.2⟩

include hg in
/-- **The octets of a response** are those of its message. -/
theorem answerMessage_bytes (hhead : req.isHead = false) (hb : (g.srv.answer history req).body.Is b) :
    replyTo g close history req = (answerMessage g close history req b).bytes := by
  have hline : (answerMessage g close history req b).line = statusText (g.srv.answer history req).status.toNat := by
    have hfront : str "HTTP/1.1 " = str "HTTP/" ++ [49, 46, 49] ++ [SP] := by decide
    have hsep : str " " = [SP] := by decide
    rw [statusText, hfront, hsep]
    simp [RespMsg.line, RespMsg.tail, answerMessage]
  have hbody := hb.octets req.isHead (g.srv.answer history req).status.toNat
  rw [(hg.status history req).2, hhead] at hbody
  rw [replyTo, h1ResponseBytes_eq, fieldLines_cons, hhead, hbody, RespMsg.bytes, hline]
  show _ = _ ++ fieldLines ((textFields (answerFields g close history req)).map (·.text)) ++ crlf ++ b
  rw [textFields_lines]
  rfl

include hg in
/-- **A response is final** and framed by its length. -/
theorem answerMessage_final (hb : (g.srv.answer history req).body.Is b) :
    (answerMessage g close history req b).Final := by
  obtain ⟨hlo, hhi, hheaders⟩ := answer_status g history req
  obtain ⟨hfinal, hbodied⟩ := hg.status history req
  obtain ⟨a, b', c, hdec⟩ := decimal_status hlo hhi
  have hclean := zhsStatusText_clean (g.srv.answer history req).status.toNat
  have hfields : ∀ f ∈ answerFields g close history req, zhsTokenOk f.1 = true ∧ zhsValueOk f.2 = true := by
    intro f hf
    obtain hf | hf := List.mem_append.mp hf
    · exact finalHeaders_clean hheaders f hf
    · exact framingFields_clean _ _ _ f hf
  obtain ⟨-, hlength, hcoding⟩ := valuesOf_response g.srv req.secure (g.srv.date history.length)
    (g.srv.answer history req).headers close (g.srv.answer history req).status.toNat
    (g.srv.answer history req).body.len
  exact
    { version := show isDigit 49 = true ∧ isDigit 49 = true by decide
      code := ⟨congrArg List.length hdec, fun p hp => isDigit_of_mem_decimal hp⟩
      final := by
        -- a status from 200 on does not begin with a one
        intro hone
        have hone : (decimal (g.srv.answer history req).status.toNat).head? = some 49 := hone
        have hvalue := decimalValue_decimal (g.srv.answer history req).status.toNat
        have hdigit : ∀ d ∈ [a, b', c], isDigit d = true := fun d hd => isDigit_of_mem_decimal (hdec ▸ hd)
        have hb' := isDigit_iff.mp (hdigit b' (by simp))
        have hc := isDigit_iff.mp (hdigit c (by simp))
        rw [hdec] at hone hvalue
        obtain rfl : a = 49 := Option.some.inj hone
        simp only [decimalValue, List.foldl_cons, List.foldl_nil] at hvalue
        have h49 : (49 : UInt8).toNat = 49 := rfl
        omega
      reason := by
        intro text htext
        obtain rfl : zhsStatusText (g.srv.answer history req).status.toNat = text := Option.some.inj htext
        exact ⟨notMem_of_valueOk hclean (by decide), notMem_of_valueOk hclean (by decide)⟩
      fields := fun f hf => (textFields_ok hfields f hf).fieldOk
      framed := by
        show fieldValues (textFields (answerFields g close history req)) (str "transfer-encoding") = [] ∧
          ∃ v, fieldValues (textFields (answerFields g close history req)) (str "content-length") = [v] ∧ v ≠ [] ∧
            (∀ p ∈ v, isDigit p = true) ∧ decVal v = b.length
        rw [textFields_values, textFields_values]
        refine ⟨hcoding, decimal (g.srv.answer history req).body.len, ?_, decimal_ne_nil _,
          fun p hp => isDigit_of_mem_decimal hp, ?_⟩
        · rw [hbodied, if_neg Bool.false_ne_true] at hlength
          exact hlength
        · rw [← hb.len]
          exact decimalValue_decimal _ }

end Response

/-! ### Whether the connection goes on

Both sides read the same persistence off the response. -/

/-- What the client finds of a `Connection` field that is one word. -/
theorem RespMsg.rawSaysClose_bytes {r : RespMsg} (hr : r.Final) {v : Bytes}
    (hv : (fieldValues r.fields (str "connection")).head? = some v) (hne : v ≠ [])
    (hword : ∀ c ∈ v, isWord c = true) :
    ∃ post, (∀ c ∈ post, isOws c = true) ∧ rawSaysClose r.bytes = strstr (lower (v ++ post)) (str "close") := by
  obtain ⟨block, hhead, hblock⟩ := RespMsg.block_of_head hr.headOk hr.fields_ne_nil
  obtain ⟨post, hpost, hfind⟩ := @fields_word _ hr.fields (str "Connection") v
    (by rw [show lower (str "Connection") = str "connection" by decide, hv]) hne hword
  have hlf : LF ∉ r.line ++ [CR] := List.not_mem_append (RespMsg.line_clean hr.headOk).2 (by decide)
  have hend : memchr LF r.head = some (r.line ++ [CR]).length := by
    rw [hhead]
    exact memchr_append hlf _
  have hdrop : r.head.drop ((r.line ++ [CR]).length + 1) = block := by
    have hlen : (r.line ++ [CR] ++ [LF]).length = (r.line ++ [CR]).length + 1 := List.length_append
    rw [hhead, List.append_cons (r.line ++ [CR])]
    exact List.drop_left' hlen
  refine ⟨post, hpost, ?_⟩
  rw [rawSaysClose, RespMsg.bytes_eq, RespMsg.headEnd_bytes hr.headOk, Option.any_some, List.take_left, hend,
    Option.any_some, hdrop, responseSaysClose, hblock, hfind, Option.any_some]

/-- **Both ends agree** on whether the connection goes on. -/
theorem answerMessage_saysClose {g : H1Cfg} (hg : Answering g) (close : Bool) (history : List HttpReq)
    {req : HttpReq} {b : Bytes} (hb : (g.srv.answer history req).body.Is b) :
    rawSaysClose (answerMessage g close history req b).bytes = close := by
  have hfinal := answerMessage_final hg close history hb
  obtain ⟨hconnection, -⟩ := valuesOf_response g.srv req.secure (g.srv.date history.length)
    (g.srv.answer history req).headers close (g.srv.answer history req).status.toNat
    (g.srv.answer history req).body.len
  have hvalues : fieldValues (answerMessage g close history req b).fields (str "connection") =
      [if close then str "close" else str "keep-alive"] := by
    rw [show (answerMessage g close history req b).fields = textFields (answerFields g close history req) from rfl,
      textFields_values]
    exact hconnection
  have hows : ∀ c : UInt8, isOws c = true → tolower c ≠ 99 := by
    intro c hc heq
    have hrange := isOws_iff.mp hc
    obtain hsp | htab := hrange
    · rw [UInt8.toNat_inj.mp (hsp.trans (by decide : 32 = (32 : UInt8).toNat))] at heq
      exact absurd heq (by decide)
    · rw [UInt8.toNat_inj.mp (htab.trans (by decide : 9 = (9 : UInt8).toNat))] at heq
      exact absurd heq (by decide)
  cases close with
  | true =>
    obtain ⟨post, -, hcloses⟩ := RespMsg.rawSaysClose_bytes hfinal (v := str "close") (by rw [hvalues]; rfl)
      (by decide) (List.all_iff_forall_prop.mp (by decide))
    have hlower : lower (str "close" ++ post) = str "close" ++ lower post := by
      rw [lower, List.map_append]
      rfl
    rw [hcloses, hlower, strstr, List.any_eq_true]
    exact ⟨_, List.mem_cons_self, List.isPrefixOf_iff_prefix.mpr (List.prefix_append _ _)⟩
  | false =>
    obtain ⟨post, hpost, hcloses⟩ := RespMsg.rawSaysClose_bytes hfinal (v := str "keep-alive") (by rw [hvalues]; rfl)
      (by decide) (List.all_iff_forall_prop.mp (by decide))
    have hletter : (99 : UInt8) ∉ lower (str "keep-alive" ++ post) := by
      rw [lower, List.map_append, List.mem_append, not_or]
      refine ⟨by decide, fun hmem => ?_⟩
      obtain ⟨c, hc, heq⟩ := List.mem_map.mp hmem
      exact hows c (hpost c hc) heq
    -- no suffix begins with the letter `c`
    rw [hcloses, strstr, List.any_eq_false]
    intro t ht hprefix
    obtain ⟨rest, rfl⟩ := List.isPrefixOf_iff_prefix.mp hprefix
    have hmem : (99 : UInt8) ∈ str "close" ++ rest := List.mem_append_left _ (by decide)
    exact hletter (((List.mem_tails _ _).mp ht).subset hmem)

/-! ### The call at the client

The client's part: the request goes out whole and the response comes back whole. -/

theorem readsFor_prefix (n : Nat) (reads : List Bytes) : (readsFor n reads).1 <+: reads := by
  induction reads generalizing n with
  | nil => cases n <;> exact List.prefix_refl _
  | cons b reads ih =>
    cases n with
    | zero => exact List.nil_prefix
    | succ n => exact List.cons_prefix_cons.mpr ⟨rfl, ih _⟩

/-- A response that is all there is to read is read to its end. -/
theorem readResponse_whole {r : RespMsg} (hr : r.Final) {reads : List Bytes} (hflat : reads.flatten = r.bytes)
    (hsize : ∀ b ∈ reads, b ≠ [] ∧ b.length ≤ 8192) (hcap : r.bytes.length ≤ ZCIO_HTTP_MAX_RESPONSE) {io : HttpIo}
    {conn : HttpConn} (hconn : conn.reads = reads.map .ok) {deadline : Nat} (htime : InTime io deadline) :
    ∃ io' conn' resp location, readResponse io conn deadline = (.ok r.bytes, io', conn') ∧
      parseResponse r.bytes = .ok (resp, location) ∧ resp.status = decVal r.code ∧ resp.body = r.body.octets := by
  have hread : (readsFor r.bytes.length reads).1.flatten = r.bytes := by
    obtain ⟨x, hx⟩ := readsFor_flatten (hflat.trans (List.append_nil _).symm)
    obtain ⟨rest, hrest⟩ := readsFor_prefix r.bytes.length reads
    have hlen := congrArg List.length hflat
    rw [← hrest, List.flatten_append, List.length_append, hx, List.length_append] at hlen
    have hnil : x = [] := List.eq_nil_of_length_eq_zero (by omega)
    rw [hx, hnil, List.append_nil]
  obtain ⟨io', conn', resp, location, hdone, -, hparse, hbody⟩ := readResponse_reads hr
    (hflat.trans (List.append_nil _).symm) hsize (by rwa [hread]) (hconn.trans (List.append_nil _).symm) htime
  rw [hread] at hdone hparse
  exact ⟨io', conn', resp, location, hdone, hparse, hbody⟩

/-- A request that goes out whole, and the response to it, which comes in some segmentation: the call
returns what the response says, and the connection is kept unless the response closes it. -/
theorem sessionOn_reply {sess : HttpSession} {call : SessionCall} {deadline : Nat} {io : HttpIo} {conn : HttpConn}
    {req : Bytes} {r : RespMsg} {reads : List Bytes} {writes : List Nat}
    (hbuild : sessionBuild sess call = .ok req) (hstream : conn.hasStream = true)
    (hwrites : conn.writes = writes.map .ok) (hpos : ∀ k ∈ writes, 0 < k)
    (hreads : conn.reads = reads.map .ok) (hflat : reads.flatten = r.bytes)
    (hsize : ∀ b ∈ reads, b ≠ [] ∧ b.length ≤ 8192) (hr : r.Final)
    (hcap : r.bytes.length ≤ ZCIO_HTTP_MAX_RESPONSE) (htime : InTime io deadline) :
    ∃ resp conn' io', sessionOn sess call deadline io conn =
        (.ok resp, (if rawSaysClose r.bytes then sessionDrop sess else { sess with client := some conn' }), io') ∧
      resp.status = decVal r.code ∧ resp.body = r.body.octets ∧
      io'.sent = io.sent ++ [⟨conn.number, conn.tls, req, req.length⟩] := by
  obtain ⟨hrem, htime'⟩ := htime.remaining
  have hsame := deadlineRemainingMs_same io deadline
  -- the timeout set changes nothing that is read or written
  have hset : ∀ rem : Int, (conn.setTimeout rem).writes = writes.map .ok ∧
      (conn.setTimeout rem).number = conn.number ∧ (conn.setTimeout rem).tls = conn.tls := by
    intro rem
    rw [HttpConn.setTimeout]
    split
    · exact ⟨hwrites, rfl, rfl⟩
    · exact ⟨hwrites, rfl, rfl⟩
  rcases hrem' : deadlineRemainingMs io deadline with ⟨rem, io₁⟩
  rw [hrem'] at hrem htime' hsame
  obtain ⟨hwrites', hnumber, htls⟩ := hset rem
  -- the request goes out whole
  have hfull := (writeFrom_takes req.length (conn.setTimeout rem) req 0 (le_refl _)).mpr
    (by rw [hwrites', writesTake_positive hpos])
  rw [Nat.zero_add] at hfull
  have hleft := writeFrom_reads req.length (conn.setTimeout rem) req 0
  rw [setTimeout_reads, hreads] at hleft
  obtain ⟨conn₂, hsend, hconn₂⟩ : ∃ conn₂, httpSend io₁ (conn.setTimeout rem) req =
      (true, { io₁ with sent := io₁.sent ++ [⟨conn.number, conn.tls, req, req.length⟩] }, conn₂) ∧
        conn₂.reads = reads.map .ok := by
    refine ⟨(writeFrom httpWrite req.length (conn.setTimeout rem) req 0).2, ?_, hleft⟩
    simp only [httpSend, zcioWriteFull, hfull, hnumber, htls, beq_self_eq_true, Option.getD_some]
  have htime₂ : InTime { io₁ with sent := io₁.sent ++ [⟨conn.number, conn.tls, req, req.length⟩] } deadline := htime'
  -- the response is read whole, and parsed
  obtain ⟨io₃, conn₃, resp, location, hresponse, hparse, hstatus, hbody⟩ :=
    readResponse_whole hr hflat hsize hcap hconn₂ htime₂
  have hkept := readResponse_same { io₁ with sent := io₁.sent ++ [⟨conn.number, conn.tls, req, req.length⟩] } conn₂
    deadline
  rw [hresponse] at hkept
  obtain ⟨c, tail, hbytes⟩ := List.exists_cons_of_ne_nil (show r.bytes ≠ [] by rw [RespMsg.bytes_eq]; simp)
  -- the session keeps the connection unless the response says close
  refine ⟨resp, conn₃, io₃, ?_, hstatus, hbody, ?_⟩
  · rw [sessionOn, hstream, hbuild, hrem']
    dsimp only
    rw [if_neg (by decide), if_neg hrem, hsend]
    dsimp only
    rw [if_neg (by decide), hresponse, hbytes]
    dsimp only
    rw [← hbytes, hparse]
  · rw [hkept.sent]
    exact congrArg (· ++ _) hsame.sent

/-! ### Both ends

The transport between the two, with any cuts of the octets, and the calls of a session on
it. -/

/-- What the transport does during a call: how the request comes to the server and the response to
the client, what the writes of the client take, and how time passes. -/
structure Transit where
  feeds : List Bytes
  reads : List Bytes
  writes : List Nat := []
  ticks : List Nat := []

/-- The client's side of it. -/
def Transit.peer (t : Transit) : HttpPeer := { reads := t.reads.map .ok, writes := t.writes.map .ok }

/-- A session and the server's end of its connection. `served` are the requests that the handler was
given, on all connections. -/
structure Link where
  sess : HttpSession
  io : HttpIo := {}
  server : Zh1Conn := zh1New
  served : List HttpReq := []

namespace Link

variable (g : H1Cfg)

/-- The session and the world that a call finds: the transport is that of the connection that is kept,
or of the next one to be made. -/
def found (l : Link) (t : Transit) : HttpSession × HttpIo :=
  ({ l.sess with client := l.sess.client.map fun c => { c with toHttpPeer := t.peer } },
    { l.io with peers := [.ok t.peer], ticks := t.ticks })

/-- The server's end when a call begins: that of the connection that is kept, or a new one. -/
def accepted (l : Link) : Zh1Conn := if l.sess.client.isSome then l.server else zh1New

/-- The server's end when the request has come. -/
def fed (l : Link) (t : Transit) : Zh1Conn := (feedAll g l.accepted [] t.feeds).c

/-- A call: the request is fed to the server, and the client runs with the response to come. All that
is queued is sent. -/
def exchange (l : Link) (call : SessionCall) (t : Transit) : Except HttpFail HttpResponse × Link :=
  let r := zcioHttpSessionRequest (l.found t).1 call (l.found t).2
  let server := l.fed g t
  (r.1,
    { sess := r.2.1
      io := r.2.2
      server := { server with out := server.out.consume server.out.avail }
      served := l.served ++ (server.log.drop l.accepted.log.length).map (·.req) })

/-- The transport carries a call: the server gets the octets of the request and the client those that
the server has queued, in pieces of any size, before the deadline. -/
structure Carried (l : Link) (call : SessionCall) (t : Transit) : Prop where
  request : sessionBuild l.sess call = .ok t.feeds.flatten
  response : t.reads.flatten = (l.fed g t).out.rd
  reads : ∀ b ∈ t.reads, b ≠ [] ∧ b.length ≤ 8192
  writes : ∀ k ∈ t.writes, 0 < k
  inTime : InTime (callDeadline call.opts (l.found t).2).2.2 (callDeadline call.opts (l.found t).2).2.1

/-- The calls of a session, one after the other. -/
def run (l : Link) : List (SessionCall × Transit) → List (Except HttpFail HttpResponse) × Link
  | [] => ([], l)
  | (call, t) :: calls =>
    let r := l.exchange g call t
    let s := r.2.run calls
    (r.1 :: s.1, s.2)

/-- The transport carries each of the calls. -/
def Carries (l : Link) : List (SessionCall × Transit) → Prop
  | [] => True
  | (call, t) :: calls => l.Carried g call t ∧ (l.exchange g call t).2.Carries calls

end Link

/-! ### The calls as calls of the handler

A session is a sequence of calls of the handler: each returns what the handler answers, and
the connection is kept between them. -/

/-- What a run of calls comes to: each is given to the handler as one request, with those of its
connection before it, and gets the handler's answer. A connection ends with the request that reaches
the cap. -/
def rpcRun (g : H1Cfg) (origin : ZcioUrl) : List HttpReq → List SessionCall → List RespondCall
  | _, [] => []
  | history, call :: calls =>
    let req := (callMessage origin call).request g
    g.srv.answer history req ::
      rpcRun g origin (if lastOf g history.length then [] else history ++ [req]) calls

/-- The call returned what the handler answered. -/
def Returned (call : RespondCall) (res : Except HttpFail HttpResponse) : Prop :=
  ∃ resp, res = .ok resp ∧ resp.status = call.status ∧ call.body.Is resp.body

/-- Between calls: the connection that is kept is between requests at the server, which has sent all
its responses and has dispatched `history`. -/
structure Link.Matched (l : Link) (history : List HttpReq) : Prop where
  kept : l.sess.client.isSome = true →
    ∃ log, l.server = idleConn history.length {} log ∧ log.map (·.req) = history
  fresh : l.sess.client.isSome = false → history = []

section Step

variable {g : H1Cfg} {l : Link} {history : List HttpReq} {call : SessionCall} {t : Transit}

theorem Link.Matched.accepted (h : l.Matched history) :
    ∃ log, l.accepted = idleConn history.length {} log ∧ log.map (·.req) = history := by
  cases hclient : l.sess.client.isSome with
  | true =>
    rw [Link.accepted, if_pos hclient]
    exact h.kept hclient
  | false =>
    rw [Link.accepted, hclient, if_neg Bool.false_ne_true, h.fresh hclient]
    exact ⟨[], rfl, rfl⟩

/-- The call runs on the transport that it found. -/
theorem Link.found_runs (l : Link) (t : Transit) (call : SessionCall) (connectMs : Int) {deadline : Nat} {io : HttpIo}
    (hio : (l.found t).2.Same io) (htime : InTime io deadline) :
    ∃ conn io', sessionExchangeOnce (l.found t).1 call connectMs deadline io =
        sessionOn (l.found t).1 call deadline io' conn ∧
      conn.toHttpPeer = t.peer ∧ InTime io' deadline ∧ io'.sent = l.io.sent := by
  obtain ⟨hrem, htime'⟩ := htime.remaining
  have hsame := hio.trans (deadlineRemainingMs_same io deadline)
  rw [sessionExchangeOnce]
  rcases hrem' : deadlineRemainingMs io deadline with ⟨rem, io₁⟩
  rw [hrem'] at hrem htime' hsame
  dsimp only at hrem ⊢
  rw [if_neg hrem]
  cases hclient : l.sess.client with
  | some conn =>
    refine ⟨{ conn with toHttpPeer := t.peer }, io₁, ?_, rfl, htime', hsame.sent⟩
    rw [sessionConnect, show (l.found t).1.client = some { conn with toHttpPeer := t.peer } by
      rw [Link.found, hclient]; rfl]
  | none =>
    have hpeers : io₁.peers = [.ok t.peer] := hsame.peers
    rw [sessionConnect, show (l.found t).1.client = none by rw [Link.found, hclient]; rfl]
    simp only [httpConnect, hpeers]
    exact ⟨_, _, rfl, rfl, htime', hsame.sent⟩

/-- **One call.** -/
theorem Link.exchange_matched (hg : Answering g) (h : l.Matched history) (hcall : CallOk g.lim l.sess.origin call)
    (hc : l.Carried g call t) :
    Returned (g.srv.answer history ((callMessage l.sess.origin call).request g)) (l.exchange g call t).1 ∧
      (l.exchange g call t).2.Matched (if lastOf g history.length then []
        else history ++ [(callMessage l.sess.origin call).request g]) ∧
      (l.exchange g call t).2.sess.origin = l.sess.origin ∧
      (l.exchange g call t).2.served = l.served ++ [(callMessage l.sess.origin call).request g] ∧
      ∃ x, (l.exchange g call t).2.io.sent = l.io.sent ++ [x] ∧ x.req = (callMessage l.sess.origin call).bytes ∧
        x.put = x.req.length := by
  have hbuilt := hcall.built l.sess rfl
  have hflat : t.feeds.flatten = (callMessage l.sess.origin call).bytes :=
    Except.ok.inj (hc.request.symm.trans hbuilt)
  generalize hm : callMessage l.sess.origin call = m at *
  have hvalid : m.Valid g.lim := hm ▸ hcall.valid
  generalize hreq : m.request g = req at *
  have hhead : req.isHead = false := by
    rw [← hreq, ← hm]
    exact beq_eq_false_iff_ne.mpr hcall.notHead
  obtain ⟨log, haccepted, hlog⟩ := h.accepted
  obtain ⟨b, hb⟩ := hg.body history req
  have hbytes := answerMessage_bytes hg (lastOf g history.length) history hhead hb
  have hfits := hg.fits (lastOf g history.length) history req
  -- the server
  have hfed : l.fed g t = (zh1Feed g (idleConn history.length {} log) m.bytes).c := by
    rw [Link.fed, haccepted]
    exact (feedAll_message hvalid hg.plain (hm ▸ rfl) history.length {} log hflat).2.1
  have hout : ({} : ZhsBuf).len + (replyTo g (lastOf g history.length) (log.map (·.req)) (m.request g)).length ≤
      g.lim.maxOutBytes := by
    rw [hlog, hreq]
    exact (Nat.zero_add _).le.trans (hfits.trans (Nat.min_le_left _ _))
  have hanswers := zh1Feed_answers hvalid hg.plain hg.inline history.length {} log hout
  rw [← hfed] at hanswers
  have hqueued : (l.fed g t).out.rd = (answerMessage g (lastOf g history.length) history req b).bytes := by
    rw [hanswers.queued, hlog, hreq, ZhsBuf.rd_append, hbytes]
    rfl
  -- the client
  have hsame := callDeadline_same call.opts (l.found t).2
  obtain ⟨conn, io₁, hruns, hpeer, htime, hsent⟩ := l.found_runs t call (callDeadline call.opts (l.found t).2).1 hsame
    hc.inTime
  obtain ⟨resp, conn', io₂, hon, hstatus, hbody, hsent₂⟩ := @sessionOn_reply (l.found t).1 call _ io₁ conn m.bytes
    (answerMessage g (lastOf g history.length) history req b) t.reads t.writes hbuilt (congrArg HttpPeer.hasStream hpeer) (congrArg HttpPeer.writes hpeer) hc.writes
    (congrArg HttpPeer.reads hpeer) (hc.response.trans hqueued) hc.reads (answerMessage_final hg _ _ hb) (hbytes ▸ hfits.trans (Nat.min_le_right _ _)) htime
  rw [answerMessage_saysClose hg _ _ hb] at hon
  have hcall' : zcioHttpSessionRequest (l.found t).1 call (l.found t).2 = (.ok resp,
      (if lastOf g history.length then sessionDrop (l.found t).1 else { (l.found t).1 with client := some conn' }),
      io₂) := by
    rw [zcioHttpSessionRequest, hruns, hon]
  have hlogged : (l.fed g t).log.drop l.accepted.log.length =
      [{ no := history.length + 1, http10 := m.http10, req := m.request g }] := by
    rw [hanswers.logged, haccepted]
    exact List.drop_left
  have hdrained : ((l.fed g t).out.consume (l.fed g t).out.avail) = {} := by
    simp [ZhsBuf.consume, ZhsBuf.avail]
  rw [Link.exchange, hcall', hlogged, hdrained]
  refine ⟨⟨resp, rfl, ?_, hbody ▸ hb⟩, ?_, ?_, by rw [List.map_singleton, hreq],
    ⟨conn.number, conn.tls, m.bytes, m.bytes.length⟩, ?_, rfl, rfl⟩
  · obtain ⟨hlo, -⟩ := answer_status g history req
    have hvalue : decVal (decimal (g.srv.answer history req).status.toNat) = _ := decimalValue_decimal _
    rw [hstatus, show (answerMessage g (lastOf g history.length) history req b).code =
      decimal (g.srv.answer history req).status.toNat from rfl, hvalue]
    omega
  · cases hlast : lastOf g history.length with
    | true =>
      exact ⟨fun hkept => absurd hkept (by simp [sessionDrop]), fun _ => rfl⟩
    | false =>
      have hserver : { l.fed g t with out := ({} : ZhsBuf) } = idleConn (history ++ [req]).length {} (l.fed g t).log := by
        rw [List.length_append]
        exact congrArg (fun c : Zh1Conn => { c with out := ({} : ZhsBuf) }) (hanswers.idle hlast)
      refine ⟨fun _ => ⟨(l.fed g t).log, hserver, ?_⟩, fun hfresh => absurd hfresh (by simp)⟩
      rw [hanswers.logged, List.map_append, hlog, List.map_singleton, hreq]
      rfl
  · cases lastOf g history.length <;> rfl
  · rw [hsent₂, hsent]

end Step

/-- A transport that brings the request in one piece and the response octet by octet. -/
def octetwise (g : H1Cfg) (l : Link) (call : SessionCall) : Transit :=
  let feeds := [(callMessage l.sess.origin call).bytes]
  { feeds, reads := (feedAll g l.accepted [] feeds).c.out.rd.map fun c => [c] }

theorem octetwise_carried {g : H1Cfg} {l : Link} {call : SessionCall} (h : CallOk g.lim l.sess.origin call)
    (hopts : call.opts = none) : l.Carried g call (octetwise g l call) where
  request := by
    rw [h.built l.sess rfl, octetwise, List.flatten_singleton]
  response := List.flatMap_singleton' _
  reads b hb := by
    obtain ⟨c, -, rfl⟩ := List.mem_map.mp hb
    exact ⟨List.cons_ne_nil c [], show 1 ≤ 8192 by decide⟩
  writes := fun _ hk => absurd hk List.not_mem_nil
  inTime := by
    rw [hopts]
    exact .inl rfl

/-- A server with one answer. -/
def greetingCfg : H1Cfg :=
  { srv := { Server.silent with handler := fun _ _ => [.respond greeting] }, lim := zhsLimitsResolve {} }

theorem greetingCfg_answers (history : List HttpReq) (req : HttpReq) :
    greetingCfg.srv.answer history req = greeting := by
  have hvalid : greeting.valid = true := by decide
  simp [Server.answer, greetingCfg, hvalid]

theorem greetingCfg_answering : Answering greetingCfg where
  plain := rfl
  inline _ _ := rfl
  status history req := by
    rw [greetingCfg_answers]
    decide
  body history req := by
    rw [greetingCfg_answers]
    exact ⟨str "hi", .inl rfl⟩
  fits close history req := by
    rw [replyTo, greetingCfg_answers]
    show (h1ResponseBytes req.isHead close 200 (finalHeaders Server.silent false (Server.silent.date 0)
      greeting.headers) greeting.body).length ≤ _
    cases req.isHead <;> cases close <;> decide +kernel

def sampleOrigin : ZcioUrl := { scheme := str "http", secure := false, host := str "h", port := 80, path := str "/" }

/-- A request without a body, and one with a header and a body. -/
def sampleGet : SessionCall := ⟨⟨some (str "GET"), [], none, 0⟩, some (str "/a"), none⟩

def samplePut : SessionCall :=
  ⟨⟨some (str "PUT"), [⟨some (str "Accept"), some (str " */*")⟩], some (str "xy"), 2⟩, some (str "/b?x"), none⟩

theorem sampleCalls_ok : CallOk greetingCfg.lim sampleOrigin sampleGet ∧ CallOk greetingCfg.lim sampleOrigin samplePut := by
  refine ⟨⟨by decide, by decide, ⟨by decide, (str "/a", none), by decide⟩, by decide, by decide, by decide, by decide,
    by decide, by decide, by decide +kernel⟩, ⟨by decide, by decide, ⟨by decide, (str "/b", some (str "x")), by decide⟩,
    by decide, by decide, by decide, by decide, by decide, by decide, by decide +kernel⟩⟩

def sampleLink : Link := { sess := { origin := sampleOrigin } }

/-- The link behind the first call. -/
def sampleLater : Link := (sampleLink.exchange greetingCfg sampleGet (octetwise greetingCfg sampleLink sampleGet)).2

end Http

end Zcio
