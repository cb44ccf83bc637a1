import Zcio.H1.Reader
import Zcio.H1.Move

/-!
# Zcio.H1.Answer

The responses of an HTTP/1.1 connection as a client sees them.

* **`h1Respond_roundTrip`**: the octets of a response, whatever follows them, read back as
  the one message that was meant. No header of the handler adds a line, a framing field or a
  connection field.
* **`h1_persistence`**: when the connection is served on behind a response.
-/

namespace Zcio

/-! ### The octets of a response as lines

A response is a status line, field lines and a body. -/

/-- The status line without its CRLF. -/
def statusText (status : Nat) : Bytes :=
  str "HTTP/1.1 " ++ decimal status ++ str " " ++ zhsStatusText status

/-- The fields `h1_respond` adds to the final header set. -/
def framingFields (close : Bool) (status len : Nat) : List (Bytes × Bytes) :=
  (if bodiless status then [] else [(str "content-length", decimal len)]) ++
    [(str "connection", if close then str "close" else str "keep-alive")]

/-- The body octets that follow the head. -/
def sentOctets (isHead : Bool) (status : Nat) : RespBody → Bytes
  | .null _ => []
  | .data b => if bodiless status || isHead then [] else b

theorem fieldLines_headerLine (hdrs : List (Bytes × Bytes)) :
    fieldLines (hdrs.map fun h => h.1 ++ str ": " ++ h.2) = (hdrs.map headerLine).flatten := by
  rw [fieldLines, List.map_map]
  rfl

theorem fieldLines_framingFields (close : Bool) (status len : Nat) :
    fieldLines ((framingFields close status len).map fun h => h.1 ++ str ": " ++ h.2) ++ crlf =
      (if bodiless status then [] else str "content-length: " ++ decimal len ++ crlf) ++
        if close then str "connection: close\r\n\r\n" else str "connection: keep-alive\r\n\r\n" := by
  have hcl : str "content-length" ++ str ": " = str "content-length: " := by decide
  have hclose : str "connection" ++ str ": " ++ str "close" ++ crlf ++ crlf =
      str "connection: close\r\n\r\n" := by decide
  have hkeep : str "connection" ++ str ": " ++ str "keep-alive" ++ crlf ++ crlf =
      str "connection: keep-alive\r\n\r\n" := by decide
  unfold framingFields
  rw [fieldLines_headerLine, ← hcl, ← hclose, ← hkeep]
  cases bodiless status <;> cases close <;> simp [headerLine]

theorem h1ResponseBytes_eq (isHead close : Bool) (status : Nat) (hdrs : List (Bytes × Bytes))
    (body : RespBody) :
    h1ResponseBytes isHead close status hdrs body =
      fieldLines (statusText status ::
        (hdrs ++ framingFields close status body.len).map fun h => h.1 ++ str ": " ++ h.2) ++
        crlf ++ sentOctets isHead status body := by
  have hframing := fieldLines_framingFields close status body.len
  rw [fieldLines_cons, List.map_append, fieldLines_append, fieldLines_headerLine hdrs]
  unfold h1ResponseBytes statusLine
  simp only [List.append_assoc] at hframing ⊢
  rw [← List.append_assoc (fieldLines _) crlf, hframing]
  simp only [statusText, List.append_assoc]
  cases body <;> rfl

/-! ### The head reads back

The reader of RFC 9112 takes the head apart into the same lines. -/

/-- The reason phrases are clean. -/
theorem zhsStatusText_clean (status : Nat) : zhsValueOk (zhsStatusText status) = true := by
  unfold zhsStatusText
  split
  all_goals first | rw [str_ofList]; decide | rfl

/-- A status code has three digits. -/
theorem decimal_status {status : Nat} (hlo : 100 ≤ status) (hhi : status ≤ 599) :
    ∃ a b c, decimal status = [a, b, c] := by
  have hle : (decimal status).length ≤ 3 := length_decimal_le (by decide) (by omega)
  have hnot : ¬(decimal status).length ≤ 2 := fun h => by
    have := (length_decimal_le_iff (by decide)).mp h
    omega
  exact List.length_eq_three.mp (by omega)

theorem readStatusLine_statusText {status : Nat} (hlo : 100 ≤ status) (hhi : status ≤ 599) :
    readStatusLine (statusText status) = some status ∧ CR ∉ statusText status := by
  obtain ⟨a, b, c, hdec⟩ := decimal_status hlo hhi
  have hclean := zhsStatusText_clean status
  have hdigits : ∀ d ∈ [a, b, c], isDigit d = true := fun d hd => isDigit_of_mem_decimal (hdec ▸ hd)
  have hline : statusText status = str "HTTP/1.1 " ++ a :: b :: c :: 32 :: zhsStatusText status := by
    rw [statusText, hdec, List.append_assoc, List.append_assoc]
    rfl
  have hlen : (str "HTTP/1.1 ").length = 9 := by decide
  constructor
  · have htake : (statusText status).take 9 = str "HTTP/1.1 " := by rw [hline, ← hlen, List.take_left]
    have hdrop : (statusText status).drop 9 = a :: b :: c :: 32 :: zhsStatusText status := by
      rw [hline, ← hlen, List.drop_left]
    rw [readStatusLine, if_pos htake, hdrop]
    show (if [a, b, c].all isDigit && zhsValueOk (zhsStatusText status) then some (decimalValue [a, b, c])
      else none) = some status
    rw [List.all_eq_true.mpr hdigits, hclean, Bool.and_self, if_pos rfl, ← hdec, decimalValue_decimal]
  · have hcr : isDigit CR = false := by decide
    rw [hline]
    intro hmem
    rcases List.mem_append.mp hmem with hmem | hmem
    · exact absurd hmem (by decide)
    · rcases List.mem_append.mp (show CR ∈ [a, b, c] ++ 32 :: zhsStatusText status from hmem) with hmem | hmem
      · rw [hdigits CR hmem] at hcr
        cases hcr
      · rcases List.mem_cons.mp hmem with heq | hmem
        · exact absurd heq (by decide)
        · have hctl := zhsValueOk_iff.mp hclean CR hmem
          exact absurd hctl (by decide)

theorem decimal_clean (n : Nat) : zhsValueOk (decimal n) = true := by
  refine zhsValueOk_iff.mpr fun c hc => ?_
  have hrange := isDigit_iff.mp (isDigit_of_mem_decimal hc)
  rw [← Bool.not_eq_true, isCtl_iff]
  omega

theorem framingFields_clean (close : Bool) (status len : Nat) :
    ∀ f ∈ framingFields close status len, zhsTokenOk f.1 = true ∧ zhsValueOk f.2 = true := by
  intro f hf
  unfold framingFields at hf
  rcases List.mem_append.mp hf with hf | hf
  · split at hf
    · cases hf
    · rw [List.mem_singleton.mp hf]
      exact ⟨show zhsTokenOk (str "content-length") = true by decide, decimal_clean len⟩
  · rw [List.mem_singleton.mp hf]
    refine ⟨show zhsTokenOk (str "connection") = true by decide, ?_⟩
    cases close <;> decide

/-- **The head of a response** with clean headers reads back. -/
theorem readHead_h1ResponseBytes {isHead close : Bool} {status : Nat}
    {hdrs : List (Bytes × Bytes)} {body : RespBody} (hlo : 100 ≤ status) (hhi : status ≤ 599)
    (hh : ∀ f ∈ hdrs, zhsTokenOk f.1 = true ∧ zhsValueOk f.2 = true) (rest : Bytes) :
    readHead (h1ResponseBytes isHead close status hdrs body ++ rest) =
      some ({ status
              fields := (hdrs ++ framingFields close status body.len).map fun f =>
                (f.1, trimOws f.2) },
        sentOctets isHead status body ++ rest) := by
  obtain ⟨hstatus, hcr⟩ := readStatusLine_statusText hlo hhi
  have hne : statusText status ≠ [] := by simp [statusText, str]
  rw [h1ResponseBytes_eq, List.append_assoc _ (sentOctets isHead status body) rest]
  refine readHead_fields ⟨hne, hcr⟩ hstatus ?_ _
  intro f hf
  rcases List.mem_append.mp hf with hf | hf
  · exact hh f hf
  · exact framingFields_clean _ _ _ f hf

/-! ### The final header set

The caller's fields that survive, and the fields of the server. -/

/-- The handler's headers that survive `respond_filtered`. -/
def survivors (hs : List (Option CStr × Option CStr)) : List (Bytes × Bytes) :=
  (hs.map respondHeader).filter fun h => !respondFiltered h.1

/-- The server's own headers. -/
def serverFields (srv : Server) (secure : Bool) (date : HttpDate) : List (Bytes × Bytes) :=
  [(str "date", date.1), (str "server", str "zcio")] ++
    (if srv.hsts && secure then
      [(str "strict-transport-security", str "max-age=31536000")] else []) ++
    (if srv.http3 && secure then
      [(str "alt-svc", str "h3=\":" ++ decimal srv.boundPort.toNat ++ str "\"")] else [])

theorem finalHeaders_eq (srv : Server) (secure : Bool) (date : HttpDate)
    (hs : List (Option CStr × Option CStr)) :
    finalHeaders srv secure date hs = survivors hs ++ serverFields srv secure date := by
  simp only [finalHeaders, survivors, serverFields, List.append_assoc]

theorem serverFields_clean (srv : Server) (secure : Bool) (date : HttpDate) :
    ∀ f ∈ serverFields srv secure date, zhsTokenOk f.1 = true ∧ zhsValueOk f.2 = true := by
  intro f hf
  rcases List.mem_append.mp hf with hf | hf
  · rcases List.mem_append.mp hf with hf | hf
    · rcases List.mem_cons.mp hf with rfl | hf
      · exact ⟨show zhsTokenOk (str "date") = true by decide, date.2.2⟩
      · rw [List.mem_singleton.mp hf]
        decide
    · split at hf
      · rw [List.mem_singleton.mp hf]
        decide
      · cases hf
  · split at hf
    · rw [List.mem_singleton.mp hf]
      refine ⟨show zhsTokenOk (str "alt-svc") = true by decide, ?_⟩
      have hport := zhsValueOk_iff.mp (decimal_clean srv.boundPort.toNat)
      refine zhsValueOk_iff.mpr fun c hc => ?_
      rcases List.mem_append.mp hc with hc | hc
      · rcases List.mem_append.mp hc with hc | hc
        · exact zhsValueOk_iff.mp (by decide : zhsValueOk (str "h3=\":") = true) c hc
        · exact hport c hc
      · exact zhsValueOk_iff.mp (by decide : zhsValueOk (str "\"") = true) c hc
    · cases hf

/-- The headers of an accepted call, checked before anything is built, are clean. -/
theorem survivors_clean {hs : List (Option CStr × Option CStr)}
    (h : hs.all respondHeaderOk = true) :
    ∀ f ∈ survivors hs, zhsTokenOk f.1 = true ∧ zhsValueOk f.2 = true := by
  intro f hf
  obtain ⟨p, hp, rfl⟩ := List.mem_map.mp (List.mem_filter.mp hf).1
  have hok := List.all_eq_true.mp h p hp
  unfold respondHeaderOk at hok
  unfold respondHeader
  split at hok
  · cases hok
  · rename_i k hk
    rw [hk]
    simpa using hok

theorem finalHeaders_clean {srv : Server} {secure : Bool} {date : HttpDate}
    {hs : List (Option CStr × Option CStr)} (h : hs.all respondHeaderOk = true) :
    ∀ f ∈ finalHeaders srv secure date hs, zhsTokenOk f.1 = true ∧ zhsValueOk f.2 = true := by
  rw [finalHeaders_eq]
  intro f hf
  rcases List.mem_append.mp hf with hf | hf
  · exact survivors_clean h f hf
  · exact serverFields_clean srv secure date f hf

/-! ### Framing and connection fields

Each of the fields that decide about the body and the connection is there once at most. -/

theorem valuesOf_append (name : Bytes) (fs fs' : List (Bytes × Bytes)) :
    valuesOf name (fs ++ fs') = valuesOf name fs ++ valuesOf name fs' := by
  simp [valuesOf]

/-- Fields as the reader returns them. -/
def trimmed (fs : List (Bytes × Bytes)) : List (Bytes × Bytes) :=
  fs.map fun f => (f.1, trimOws f.2)

theorem valuesOf_trimmed_nil {name : Bytes} {fs : List (Bytes × Bytes)}
    (h : ∀ f ∈ fs, lower f.1 ≠ name) : valuesOf name (trimmed fs) = [] := by
  have hnone : (trimmed fs).filter (fun f => lower f.1 == name) = [] := by
    refine List.filter_eq_nil_iff.mpr fun f hf => ?_
    obtain ⟨p, hp, rfl⟩ := List.mem_map.mp hf
    simpa using h p hp
  rw [valuesOf, hnone]
  rfl

/-- No surviving header has a name that is dropped. -/
theorem valuesOf_survivors {name : Bytes} (hname : name ∈ respondDrop) (hlow : lower name = name)
    (hs : List (Option CStr × Option CStr)) : valuesOf name (trimmed (survivors hs)) = [] := by
  refine valuesOf_trimmed_nil fun f hf heq => ?_
  have hkeep := (List.mem_filter.mp hf).2
  rw [Bool.not_eq_true', respondFiltered, List.any_eq_false] at hkeep
  refine hkeep name hname ?_
  rw [ciEq, hlow, heq]
  exact BEq.rfl

theorem valuesOf_serverFields {name : Bytes}
    (hname : name ∉ [str "date", str "server", str "strict-transport-security", str "alt-svc"])
    (srv : Server) (secure : Bool) (date : HttpDate) :
    valuesOf name (trimmed (serverFields srv secure date)) = [] := by
  have hlow : ∀ s ∈ [str "date", str "server", str "strict-transport-security", str "alt-svc"],
      lower s = s := by decide
  have hnames : ∀ f ∈ serverFields srv secure date,
      f.1 ∈ [str "date", str "server", str "strict-transport-security", str "alt-svc"] := by
    unfold serverFields
    cases srv.hsts && secure <;> cases srv.http3 && secure <;> simp
  refine valuesOf_trimmed_nil fun f hf heq => hname ?_
  rw [← heq, hlow _ (hnames f hf)]
  exact hnames f hf

theorem trimOws_decimal (n : Nat) : trimOws (decimal n) = decimal n := by
  have hdigit : ∀ c : UInt8, isDigit c = true → isOws c = false := by
    intro c hc
    have hrange := isDigit_iff.mp hc
    rw [← Bool.not_eq_true, isOws_iff]
    omega
  have hows : ∀ c ∈ decimal n, isOws c = false := fun c hc => hdigit c (isDigit_of_mem_decimal hc)
  have hdrop : (decimal n).dropWhile isOws = decimal n := by
    cases hd : decimal n with
    | nil => rfl
    | cons c cs =>
      rw [hd] at hows
      rw [List.dropWhile_cons_of_neg (by rw [hows c List.mem_cons_self]; exact Bool.false_ne_true)]
  unfold trimOws
  rw [hdrop, List.rdropWhile_eq_self_iff]
  intro hne hlast
  rw [hows _ (List.getLast_mem hne)] at hlast
  cases hlast

/-- What the reader finds of the fields that frame the message. -/
theorem valuesOf_response (srv : Server) (secure : Bool) (date : HttpDate)
    (hs : List (Option CStr × Option CStr)) (close : Bool) (status len : Nat) :
    let fields := trimmed (finalHeaders srv secure date hs ++ framingFields close status len)
    valuesOf (str "connection") fields = [if close then str "close" else str "keep-alive"] ∧
    valuesOf (str "content-length") fields = (if bodiless status then [] else [decimal len]) ∧
    valuesOf (str "transfer-encoding") fields = [] := by
  have hsplit : ∀ name ∈ respondDrop, lower name = name →
      name ∉ [str "date", str "server", str "strict-transport-security", str "alt-svc"] →
      valuesOf name (trimmed (finalHeaders srv secure date hs ++ framingFields close status len)) =
        valuesOf name (trimmed (framingFields close status len)) := by
    intro name hdrop hlow hown
    unfold trimmed
    rw [finalHeaders_eq, List.map_append, List.map_append, valuesOf_append, valuesOf_append]
    have h1 := valuesOf_survivors hdrop hlow hs
    have h2 := valuesOf_serverFields hown srv secure date
    unfold trimmed at h1 h2
    rw [h1, h2]
    rfl
  refine ⟨?_, ?_, ?_⟩
  · rw [hsplit _ (by decide) (by decide) (by decide)]
    have htrim : trimOws (if close then str "close" else str "keep-alive") =
        if close then str "close" else str "keep-alive" := by cases close <;> decide
    unfold framingFields trimmed
    rw [List.map_append, valuesOf_append, List.map_singleton, htrim]
    cases bodiless status <;> rfl
  · rw [hsplit _ (by decide) (by decide) (by decide)]
    unfold framingFields trimmed
    rw [List.map_append, valuesOf_append]
    cases bodiless status with
    | true => rfl
    | false =>
      show [trimOws (decimal len)] = [decimal len]
      rw [trimOws_decimal]
  · rw [hsplit _ (by decide) (by decide) (by decide)]
    unfold framingFields trimmed
    rw [List.map_append, valuesOf_append]
    cases bodiless status <;> rfl

/-! ### The round trip

What the client reads is what the caller has given. -/

/-- A connection whose request has `method`. -/
def Zh1Conn.serving (c : Zh1Conn) (method : Bytes) : Zh1Conn :=
  { c with req := { c.req with method := some method, isHead := method == str "HEAD" } }

/-- The fields a client reads: what survives of the handler's headers, then the server's
own, then those of the framing. -/
def clientFields (srv : Server) (secure : Bool) (date : HttpDate)
    (hs : List (Option CStr × Option CStr)) (close : Bool) (status len : Nat) :
    List (Bytes × Bytes) :=
  trimmed (survivors hs) ++ trimmed (serverFields srv secure date) ++
    trimmed (framingFields close status len)

/-- The body arguments stand for the octets `b`: a `NULL` body has length zero. -/
def RespBody.Is (body : RespBody) (b : Bytes) : Prop := body = .data b ∨ body = .null 0 ∧ b = []

theorem RespBody.Is.len {body : RespBody} {b : Bytes} (h : body.Is b) : body.len = b.length := by
  rcases h with rfl | ⟨rfl, rfl⟩ <;> rfl

theorem RespBody.Is.octets {body : RespBody} {b : Bytes} (h : body.Is b) (isHead : Bool)
    (status : Nat) :
    sentOctets isHead status body = if bodiless status || isHead then [] else b := by
  rcases h with rfl | ⟨rfl, rfl⟩
  · rfl
  · exact (ite_self _).symm

/-- The body a client reads off a response of the server. -/
theorem readBody_response {method : Bytes} {h : RespHead} {b rest : Bytes}
    (hte : valuesOf (str "transfer-encoding") h.fields = [])
    (hcl : valuesOf (str "content-length") h.fields =
      if bodiless h.status then [] else [decimal b.length])
    (hlo : 200 ≤ h.status)
    (hconnect : method = str "CONNECT" → h.status < 300 → h.status = 204 ∨ b = []) :
    readBody method h ((if bodiless h.status || method == str "HEAD" then [] else b) ++ rest) =
      some (if bodiless h.status || method == str "HEAD" then [] else b, rest) := by
  have hbodiless : bodiless h.status = true ↔ h.status = 204 ∨ h.status = 304 := by
    simp only [bodiless, Bool.or_eq_true, Bool.and_eq_true, decide_eq_true_eq, beq_iff_eq]
    omega
  unfold readBody
  by_cases hsup : method = str "HEAD" ∨ h.status < 200 ∨ h.status = 204 ∨ h.status = 304
  · -- rule 1 holds exactly where the server suppresses the body
    have hno : (bodiless h.status || method == str "HEAD") = true := by
      rw [Bool.or_eq_true, hbodiless, beq_iff_eq]
      rcases hsup with hhead | hlt | hstatus
      · exact .inr hhead
      · omega
      · exact .inl hstatus
    rw [if_pos hsup, hno]
    rfl
  · rw [not_or, not_or, Nat.not_lt] at hsup
    have hhead : (method == str "HEAD") = false := by simpa using hsup.1
    have hbody : bodiless h.status = false := by
      rw [← Bool.not_eq_true, hbodiless]
      exact hsup.2.2
    rw [hbody] at hcl
    rw [if_neg (by rw [not_or, not_or, Nat.not_lt]; exact hsup), hbody, hhead]
    split
    · rename_i htunnel
      -- a tunnel begins behind the head: only an empty body is read as such
      rcases hconnect htunnel.1 htunnel.2 with h204 | hnil
      · exact absurd (.inl h204) hsup.2.2
      · rw [hnil]
        rfl
    · rw [hte]
      dsimp only
      rw [hcl]
      have hdigits : (decimal b.length).all isDigit = true :=
        List.all_eq_true.mpr fun c hc => isDigit_of_mem_decimal hc
      have hne : (decimal b.length).isEmpty = false := by simpa using decimal_ne_nil b.length
      simp [readDeclared, hdigits, decimalValue_decimal, decimal_ne_nil]

/-- **A response reads back as the message that was meant**, and what follows it is left
over. A 2xx response to CONNECT turns the connection into a tunnel at the end of its head,
so it is left out unless it has no body. -/
theorem h1Respond_roundTrip (g : H1Cfg) (c : Zh1Conn) (method : Bytes) (secure : Bool)
    (date : HttpDate) (call : RespondCall) (b : Bytes) (hvalid : call.valid = true)
    (hstatus : 200 ≤ call.status) (hbody : call.body.Is b)
    (hconnect : method = str "CONNECT" → call.status < 300 → call.status = 204 ∨ b = []) :
    ∃ msg : Bytes,
      (h1Respond g (c.serving method) call.status.toNat
        (finalHeaders g.srv secure date call.headers) call.body).out = c.out.append msg ∧
      ∃ m : RespMessage,
        (∀ rest, readResponse method (msg ++ rest) = some (m, rest)) ∧
        (m.status : Int) = call.status ∧
        m.fields = clientFields g.srv secure date call.headers (h1CloseConn g c) m.status
          b.length ∧
        m.body = (if method = str "HEAD" ∨ call.status = 204 ∨ call.status = 304 then [] else b) ∧
        (valuesOf (str "connection") m.fields).length = 1 ∧
        valuesOf (str "content-length") m.fields =
          (if call.status = 204 ∨ call.status = 304 then [] else [decimal b.length]) ∧
        valuesOf (str "transfer-encoding") m.fields = [] := by
  simp only [RespondCall.valid, Bool.and_eq_true, decide_eq_true_eq] at hvalid
  -- what the call checks: the status, the fields, the body
  obtain ⟨⟨⟨-, hhi⟩, hhdrs⟩, -⟩ := hvalid
  obtain ⟨status, hs⟩ : ∃ n : Nat, call.status = n := ⟨call.status.toNat, by omega⟩
  rw [hs] at hstatus hhi hconnect ⊢
  rw [Int.toNat_natCast]
  have hlo : 200 ≤ status := by exact_mod_cast hstatus
  have hhi : status ≤ 599 := by exact_mod_cast hhi
  -- the two statuses without a body
  have hbodiless : bodiless status = true ↔ status = 204 ∨ status = 304 := by
    simp only [bodiless, Bool.or_eq_true, Bool.and_eq_true, decide_eq_true_eq, beq_iff_eq]
    omega
  have hfields : clientFields g.srv secure date call.headers (h1CloseConn g c) status b.length =
      trimmed (finalHeaders g.srv secure date call.headers ++
        framingFields (h1CloseConn g c) status b.length) := by
    simp only [clientFields, trimmed, finalHeaders_eq, List.map_append]
  -- the fields that frame the response, each of them once
  obtain ⟨hconn, hcl, hte⟩ := valuesOf_response g.srv secure date call.headers (h1CloseConn g c)
    status b.length
  rw [← hfields] at hconn hcl hte
  -- the client reads the message, whatever stands behind it
  have hread : ∀ rest, readResponse method (h1ResponseBytes (method == str "HEAD")
      (h1CloseConn g c) status (finalHeaders g.srv secure date call.headers) call.body ++ rest) =
      some ({ status
              fields := clientFields g.srv secure date call.headers (h1CloseConn g c) status
                b.length
              body := if bodiless status || method == str "HEAD" then [] else b }, rest) := by
    intro rest
    have hclean := @finalHeaders_clean g.srv secure date call.headers hhdrs
    have hhead := @readHead_h1ResponseBytes (method == str "HEAD") (h1CloseConn g c) status _
      call.body (by omega) hhi hclean rest
    unfold readResponse
    rw [hhead, hbody.octets, hbody.len, ← trimmed, ← hfields]
    dsimp only
    rw [readBody_response hte hcl hlo fun hm hlt =>
      (hconnect hm (by exact_mod_cast hlt)).imp_left fun h => by exact_mod_cast h]
  -- the message read is the one asked for
  refine ⟨_, rfl, _, hread, rfl, rfl, ?_, ?_, ?_, hte⟩
  · have hsup : (bodiless status || method == str "HEAD") = true ↔
        method = str "HEAD" ∨ (status : Int) = 204 ∨ (status : Int) = 304 := by
      rw [Bool.or_eq_true, hbodiless, beq_iff_eq, or_comm]
      exact or_congr_right (by omega)
    simp only [hsup]
  · rw [hconn]
    rfl
  · rw [hcl]
    have hsup : bodiless status = true ↔ (status : Int) = 204 ∨ (status : Int) = 304 := by
      rw [hbodiless]
      omega
    simp only [hsup]

/-- A handler that answers with a header of its own and the body `hi`. -/
def greeting : RespondCall :=
  { status := 200
    headers := [(some ⟨str "X-A", by decide⟩, some ⟨str " b ", by decide⟩),
      (some ⟨str "Content-Length", by decide⟩, some ⟨str "9", by decide⟩)]
    body := .data (str "hi") }

theorem h1Respond_roundTrip_greeting :
    ∃ msg : Bytes, ∃ m : RespMessage,
      readResponse (str "GET") (msg ++ str "HTTP/1.1") = some (m, str "HTTP/1.1") ∧
      m.status = 200 ∧ m.body = str "hi" ∧
      valuesOf (str "content-length") m.fields = [str "2"] ∧
      (str "X-A", str "b") ∈ m.fields := by
  obtain ⟨msg, -, m, hread, hstatus, hfields, hbody, -, hcl, -⟩ :=
    h1Respond_roundTrip H1Cfg.silent zh1New (str "GET") false (Server.silent.date 0) greeting
      (str "hi") (by decide) (by decide) (.inl rfl) (by decide)
  have h200 : m.status = 200 := Int.natCast_inj.mp hstatus
  refine ⟨msg, m, hread _, h200, ?_, ?_, ?_⟩
  · rw [hbody]
    decide
  · rw [hcl]
    decide
  · rw [hfields, h200]
    decide +kernel

/-- A 200 response to CONNECT: its body is read as the first octets of a tunnel. -/
theorem h1Respond_roundTrip_connect :
    (readResponse (str "CONNECT") (h1Respond H1Cfg.silent (zh1New.serving (str "CONNECT")) 200
      (finalHeaders Server.silent false (Server.silent.date 0) greeting.headers)
      greeting.body).out.rd).map (fun p => (p.1.body, p.2)) = some ([], str "hi") := by
  decide +kernel

/-! ### The response to a request

A request that was not answered gets one response, one that was gets none. -/

variable (g : H1Cfg)

/-- The message `h1_finish` queues for the request at hand. -/
def h1Reply (c : Zh1Conn) : Bytes :=
  let answer := g.srv.answer c.history (h1Request g c)
  h1ResponseBytes c.req.isHead (h1CloseConn g c) answer.status.toNat
    (finalHeaders g.srv g.secure (g.srv.date c.history.length) answer.headers) answer.body

/-- A request that was not answered yet gets its response from one dispatch. -/
theorem h1Finish_unanswered {c : Zh1Conn} (hr : c.req.responded = false)
    (hd : g.srv.detaches c.history (h1Request g c) = false) :
    (h1Finish g c).1 = true ∧ (h1Finish g c).2.out = c.out.append (h1Reply g c) ∧
      (h1Finish g c).2.closeAfter =
        (h1CloseConn g c || decide ((c.out.append (h1Reply g c)).len > g.lim.maxOutBytes)) := by
  have hresp : (h1Request g c).responded = false := hr
  unfold h1Finish
  dsimp only
  rw [zhsDispatch_eq _ _ _ _ _ hresp hd, hd]
  have hor : (c.closeAfter || h1CloseConn g c) = h1CloseConn g c := by
    unfold h1CloseConn
    cases c.closeAfter <;> rfl
  refine ⟨rfl, rfl, ?_⟩
  show (c.closeAfter || h1CloseConn g c ||
    decide ((c.out.append (h1Reply g c)).len > g.lim.maxOutBytes)) = _
  rw [hor]

/-- A request that was answered before gets nothing more. -/
theorem h1Finish_answered {c : Zh1Conn} (hr : c.req.responded = true)
    (hd : g.srv.detaches c.history (h1Request g c) = false) :
    (h1Finish g c).1 = true ∧ (h1Finish g c).2.out = c.out ∧
      (h1Finish g c).2.closeAfter = c.closeAfter := by
  have hresp : (h1Request g c).responded = true := hr
  unfold h1Finish
  dsimp only
  rw [zhsDispatch_responded _ _ _ _ _ hresp, hd]
  exact ⟨rfl, rfl, rfl⟩

/-! ### Persistence

The response says that the connection closes exactly when it does. -/

/-- The message tells the client that the connection closes behind it. -/
def AdvertisesClose (msg : Bytes) : Prop :=
  ∃ h rest, readHead msg = some (h, rest) ∧ valuesOf (str "connection") h.fields = [str "close"]

theorem advertisesClose_h1Reply (c : Zh1Conn) :
    AdvertisesClose (h1Reply g c) ↔ h1CloseConn g c = true := by
  obtain ⟨call, hcall⟩ : ∃ call, g.srv.answer c.history (h1Request g c) = call := ⟨_, rfl⟩
  have hvalid : call.valid = true := hcall ▸ g.srv.answer_valid _ _
  simp only [RespondCall.valid, Bool.and_eq_true, decide_eq_true_eq] at hvalid
  obtain ⟨⟨⟨hlo, hhi⟩, hhdrs⟩, -⟩ := hvalid
  have hclean := @finalHeaders_clean g.srv g.secure (g.srv.date c.history.length) call.headers
    hhdrs
  have hhead := @readHead_h1ResponseBytes c.req.isHead (h1CloseConn g c) call.status.toNat _
    call.body (by omega) (by omega) hclean []
  rw [List.append_nil, List.append_nil] at hhead
  have hconn := (valuesOf_response g.srv g.secure (g.srv.date c.history.length) call.headers
    (h1CloseConn g c) call.status.toNat call.body.len).1
  have hne : str "keep-alive" ≠ str "close" := by decide
  unfold AdvertisesClose h1Reply
  dsimp only
  rw [hcall, hhead]
  constructor
  · rintro ⟨h, rest, heq, hclose⟩
    cases heq
    rw [← trimmed, hconn] at hclose
    cases hc : h1CloseConn g c with
    | true => rfl
    | false =>
      rw [hc] at hclose
      exact absurd (List.cons.inj hclose).1 hne
  · intro hc
    refine ⟨_, _, rfl, ?_⟩
    rw [← trimmed, hconn, hc]
    rfl

/-- **Serving a connection**: the states the rounds of `zh1_feed_` pass through. Between two
feeds output drains, a graceful stop may be asked for and octets arrive; a connection that
was handed off is not fed any more. -/
inductive Serving : FeedSt → Prop
  | new (x : Bytes) : Serving ⟨zh1New, x, 0⟩
  | round {s s' : FeedSt} : Serving s → feedStep g s = .inl s' → Serving s'
  | feed {s : FeedSt} {r : FeedRes} (n : Nat) (graceful : Bool) (x : Bytes) :
      Serving s → feedStep g s = .inr r → r.rc ≠ .detached →
      Serving ⟨{ r.c with out := r.c.out.consume n, graceful := r.c.graceful || graceful },
        r.inp ++ x, 0⟩

/-- The feed returns `ZH1_CLOSE` in this round. -/
def ClosesNow (s : FeedSt) : Prop := ∃ r, feedStep g s = .inr r ∧ r.rc = .close

/-- An answered request is still there only if its response closed the connection. -/
def AnsweredCloses (c : Zh1Conn) : Prop :=
  c.state = .dead ∨ (c.req.responded = true → c.closeAfter = true)

variable {g}

/-- Body framing is decided by the fields alone. -/
theorem h1Framing_same {c c' : Zh1Conn} (h : h1Framing g c = .ok c') :
    c'.req.responded = c.req.responded ∧ c'.closeAfter = c.closeAfter := by
  unfold h1Framing at h
  dsimp only at h
  split at h
  · cases h
  · split at h
    · cases h
    · split at h
      · split at h
        · cases h
        · cases h; exact ⟨rfl, rfl⟩
      · split at h
        · split at h
          · cases h
          · cases h; exact ⟨rfl, rfl⟩
        · cases h; exact ⟨rfl, rfl⟩

theorem AnsweredCloses.congr {c c' : Zh1Conn} (h : AnsweredCloses c) (hst : c.state ≠ .dead)
    (hr : c'.req.responded = c.req.responded) (hc : c'.closeAfter = c.closeAfter) :
    AnsweredCloses c' := by
  right
  rw [hr, hc]
  exact h.resolve_left hst

/-- A move within a request neither answers it nor decides to close. -/
theorem H1Move.answeredCloses {c c' : Zh1Conn} {code : PCode} (h : H1Move g c code c')
    (hc : AnsweredCloses c) : AnsweredCloses c' := by
  cases h with
  | wait => exact hc
  | close hdead => exact .inl hdead
  | reqline hst => exact hc.congr (by rw [hst]; decide) rfl rfl
  | field hst => exact hc.congr (by rw [hst]; decide) rfl rfl
  | @framed n c' hst hframing =>
    have hauth : (h1Authority { c with headBytes := c.headBytes + n }).req.responded =
          c.req.responded ∧
        (h1Authority { c with headBytes := c.headBytes + n }).closeAfter = c.closeAfter := by
      unfold h1Authority
      split <;> exact ⟨rfl, rfl⟩
    have hframe := h1Framing_same hframing
    exact hc.congr (by rw [hst]; decide) (hframe.1.trans hauth.1) (hframe.2.trans hauth.2)
  | noBody => exact hc
  | bodyPart hst => exact hc.congr (by rw [hst]; decide) rfl rfl
  | bodyEnd hst => exact hc.congr (by rw [hst]; decide) rfl rfl
  | lastChunk hst => exact hc.congr (by rw [hst]; decide) rfl rfl
  | chunk hst => exact hc.congr (by rw [hst]; decide) rfl rfl
  | noData hst => exact hc.congr (by rw [hst]; decide) rfl rfl
  | chunkPart hst => exact hc.congr (by rw [hst]; decide) rfl rfl
  | chunkEnd hst => exact hc.congr (by rw [hst]; decide) rfl rfl
  | crlf hst => exact hc.congr (by rw [hst]; decide) rfl rfl
  | trailer hst => exact hc.congr (by rw [hst]; decide) rfl rfl
  | trailerEnd hst => exact hc.congr (by rw [hst]; decide) rfl rfl

/-- A request completes behind its body or its trailer section. -/
theorem H1Move.stopped {c c' : Zh1Conn} (h : H1Move g c .complete c') :
    c'.state = .bodyCl ∨ c'.state = .trailer := by
  cases h with
  | noBody hst => exact .inl hst
  | bodyEnd hst => exact .inl hst
  | trailerEnd hst => exact .inr hst

/-- A round, with what the feed loop does about it. -/
theorem feedStep_answeredCloses {s : FeedSt} (hc : AnsweredCloses s.c) :
    match feedStep g s with
    | .inl s' => AnsweredCloses s'.c
    | .inr r => r.rc ≠ .detached → AnsweredCloses r.c := by
  have hmove := (h1Round_move g s.c s.inp).answeredCloses hc
  unfold feedStep feedNext
  cases hcode : (h1Round g s.c s.inp).code with
  | more => exact fun _ => hmove
  | next => exact hmove
  | close => exact fun _ => hmove
  | complete =>
    dsimp only
    cases hatt : (h1Finish g (h1Round g s.c s.inp).c).1 with
    | false => exact fun hrc => absurd rfl hrc
    | true =>
      cases hclose : (h1Finish g (h1Round g s.c s.inp).c).2.closeAfter with
      | true => exact fun _ => .inr fun _ => hclose
      | false =>
        -- the next request starts unanswered
        exact .inr fun hr => by cases hr

theorem Serving.answeredCloses {s : FeedSt} (h : Serving g s) : AnsweredCloses s.c := by
  induction h with
  | new x => exact .inr fun hr => by cases hr
  | round _ hstep ih =>
    have := feedStep_answeredCloses (g := g) ih
    rw [hstep] at this
    exact this
  | feed n graceful x _ hstep hrc ih =>
    have := feedStep_answeredCloses (g := g) ih
    rw [hstep] at this
    exact this hrc

/-- **When a connection is served on**, for every request dispatched on it. Behind the
response to the request `zh1_feed_` returns `ZH1_CLOSE` if and only if the response says
`connection: close` or the output with it is over the cap; a request that is dispatched once
more is not answered again, and the feed returns `ZH1_CLOSE` again. -/
theorem h1_persistence {s : FeedSt} (hs : Serving g s)
    (hcomplete : (h1Round g s.c s.inp).code = .complete)
    (hd : g.srv.detaches (h1Round g s.c s.inp).c.history
      (h1Request g (h1Round g s.c s.inp).c) = false) :
    let c := (h1Round g s.c s.inp).c
    let c' := (h1Finish g c).2
    (c.req.responded = false →
      ∃ msg, c'.out = c.out.append msg ∧
        (ClosesNow g s ↔ AdvertisesClose msg ∨ c'.out.len > g.lim.maxOutBytes)) ∧
    (c.req.responded = true → c'.out = c.out ∧ ClosesNow g s) := by
  intro c c'
  -- the connection goes on exactly when it is not marked to close behind the answer
  have hcloses : (h1Finish g c).1 = true → (ClosesNow g s ↔ c'.closeAfter = true) := by
    intro hatt
    have hstep : feedStep g s = if c'.closeAfter then
        .inr ⟨.close, c', (h1Round g s.c s.inp).inp⟩
        else .inl ⟨h1ResetNext c', (h1Round g s.c s.inp).inp, s.dispatched + 1⟩ := by
      unfold feedStep feedNext
      rw [hcomplete]
      dsimp only
      rw [hatt]
      rfl
    unfold ClosesNow
    rw [hstep]
    cases c'.closeAfter with
    | true => exact ⟨fun _ => rfl, fun _ => ⟨_, rfl, rfl⟩⟩
    | false => exact ⟨fun ⟨_, hr, _⟩ => (by cases hr), fun hr => (by cases hr)⟩
  constructor
  · -- the answer written says what the server is about to do
    intro hr
    obtain ⟨hatt, hout, hclose⟩ := h1Finish_unanswered g hr hd
    refine ⟨h1Reply g c, hout, ?_⟩
    rw [hcloses hatt, hclose, hout, advertisesClose_h1Reply, Bool.or_eq_true, decide_eq_true_eq]
  · -- a request answered before its end: nothing is written, and the connection closes
    intro hr
    obtain ⟨hatt, hout, hclose⟩ := h1Finish_answered g hr hd
    refine ⟨hout, (hcloses hatt).mpr ?_⟩
    have hmove := h1Round_move g s.c s.inp
    rw [hcomplete] at hmove
    -- the round that ends a request does not leave the connection dead
    have hlive : c.state ≠ .dead := by
      rcases hmove.stopped with hst | hst
      · rw [hst]
        decide
      · rw [hst]
        decide
    rw [hclose]
    exact (hmove.answeredCloses hs.answeredCloses).resolve_left hlive hr

/-- A GET that asks for persistence, by default. -/
def plainGet : Bytes := str "GET / HTTP/1.1\r\nHost: a\r\n\r\n"

/-- The state `n` rounds on, or where the feed returned. -/
def feedSteps (g : H1Cfg) : Nat → FeedSt → FeedSt
  | 0, s => s
  | n + 1, s =>
    match feedStep g s with
    | .inl s' => feedSteps g n s'
    | .inr _ => s

theorem Serving.steps {s : FeedSt} (h : Serving g s) (n : Nat) : Serving g (feedSteps g n s) := by
  induction n generalizing s with
  | zero => exact h
  | succ n ih =>
    unfold feedSteps
    split
    · rename_i s' hstep
      exact ih (h.round hstep)
    · exact h

theorem h1_persistence_plainGet :
    let s := feedSteps H1Cfg.silent 3 ⟨zh1New, plainGet, 0⟩
    let c := (h1Round H1Cfg.silent s.c s.inp).c
    ∃ msg, (h1Finish H1Cfg.silent c).2.out = c.out.append msg ∧
      (ClosesNow H1Cfg.silent s ↔ AdvertisesClose msg ∨
        (h1Finish H1Cfg.silent c).2.out.len > H1Cfg.silent.lim.maxOutBytes) :=
  (h1_persistence ((Serving.new plainGet).steps 3) (by decide +kernel) (by decide +kernel)).1
    (by decide +kernel)

/-- A server whose output cap is 10 octets. -/
def tightOutput : H1Cfg := { srv := .silent, lim := zhsLimitsResolve { maxOutBytes := 10 } }

/-- The response says `keep-alive`, and the feed returns `ZH1_CLOSE`. -/
theorem h1_persistence_overCap :
    (zh1Feed tightOutput zh1New plainGet).rc = .close ∧
      (readHead (zh1Feed tightOutput zh1New plainGet).c.out.rd).map
        (fun p => valuesOf (str "connection") p.1.fields) = some [str "keep-alive"] := by
  decide +kernel

end Zcio
