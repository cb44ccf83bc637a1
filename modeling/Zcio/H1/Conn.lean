import Mathlib.Data.List.DropRight
import Zcio.Lib.Loop
import Zcio.HttpUtil.Target
import Zcio.Server.Dispatch

/-!
# Zcio.H1.Conn

The HTTP/1.1 request parser and response serializer of `h1.c`: a sans-I/O state machine
that consumes an input buffer and appends responses to the output buffer.

Layout follows the source. Every stage function returns its code together with the
connection and the unread input. The line-based stages (request line, header fields,
chunk size, trailer) all look for a line first (`h1FindLine`) and then act on its text
alone; that split is what the segmentation argument rests on.

`log`, `reqNo` and `err` are not in the source. They record the calls of `zhs_dispatch_`,
the ordinal of the request being assembled, and the status of the error response, if one
was emitted.
-/

namespace Zcio

/-- The parser stages. -/
inductive H1State where
  | reqline
  | headers
  | bodyCl
  | chunkSize
  | chunkData
  | chunkCrlf
  | trailer
  /-- An error or redirect was emitted; the connection is closing. -/
  | dead
  deriving Repr, DecidableEq

/-- Stage helper results (`P_MORE` and so on). -/
inductive PCode where
  | more
  | next
  | close
  | complete
  deriving Repr, DecidableEq

/-- The return values of `zh1_feed_`. -/
inductive Zh1Rc where
  | needMore
  | dispatched
  | close
  | detached
  deriving Repr, DecidableEq

/-- `H1_CHUNK_LINE_MAX`. -/
def H1_CHUNK_LINE_MAX : Nat := 4096

/-- What does not change over a connection's life: server, limits and flags. -/
structure H1Cfg where
  srv : Server
  lim : ZhsLimits
  secure : Bool := false
  redirect : Bool := false

/-- A plain listener with the default limits in front of a silent handler. -/
def H1Cfg.silent : H1Cfg := { srv := .silent, lim := zhsLimitsResolve {} }

/-- One call of the handler: the request, its ordinal on the connection and whether it
came as HTTP/1.0. -/
structure H1Dispatch where
  no : Nat
  http10 : Bool
  req : HttpReq
  deriving Repr, DecidableEq

/-- What the handler reads of a request: method, path, query, authority, headers and body. -/
def H1Dispatch.view (d : H1Dispatch) :
    Option Bytes × Option Bytes × Option Bytes × Option Bytes × List ZhsHdr × Bytes :=
  (d.req.method, d.req.path, d.req.query, d.req.authority, d.req.headers.v, d.req.body)

/-- `struct zh1_conn` and its output buffer. -/
structure Zh1Conn where
  state : H1State := .reqline
  req : HttpReq := {}
  headBytes : Nat := 0
  receiving : Bool := false
  isHttp10 : Bool := false
  keepAlive : Bool := false
  graceful : Bool := false
  closeAfter : Bool := false
  reqCount : Nat := 0
  chunked : Bool := false
  clRemaining : Nat := 0
  chunkRemaining : Nat := 0
  out : ZhsBuf := {}
  log : List H1Dispatch := []
  reqNo : Nat := 0
  err : Option Nat := none
  deriving Repr, DecidableEq

/-- `zh1_new_`. -/
def zh1New : Zh1Conn := {}

/-- The requests handed to the handler so far. -/
def Zh1Conn.history (c : Zh1Conn) : List HttpReq := c.log.map (·.req)

/-! ### Text helpers

Digits, lists of tokens, the base64 alphabet, and lines up to their CRLF. -/

/-- `h1_is_digit`. -/
def h1IsDigit (c : UInt8) : Bool := 48 ≤ c && c ≤ 57

/-- Optional whitespace: SP or HTAB. -/
def isOws (c : UInt8) : Bool := c == SP || c == HTAB

theorem isOws_iff {c : UInt8} : isOws c = true ↔ c.toNat = 32 ∨ c.toNat = 9 := by
  rw [isOws, Bool.or_eq_true, beq_iff_eq, beq_iff_eq, ← UInt8.toNat_inj, ← UInt8.toNat_inj]
  exact Iff.rfl

/-- The part of `s` behind its last `c`, or all of it (`strrchr`). -/
def afterLast (c : UInt8) (s : Bytes) : Bytes := s.rtakeWhile (· != c)

/-- One round of `h1_token_in_list`: skip separators, cut the next element, compare. -/
def tokenRound (tok : Bytes) (p : Bytes) : Bytes ⊕ Bool :=
  if p = [] then .inr false
  else
    let start := p.dropWhile fun c => isOws c || c == 44
    let elt := start.takeWhile (· != 44)
    if ciEq (elt.rdropWhile isOws) tok then .inr true
    else .inl (start.dropWhile (· != 44))

theorem tokenRound_decreases (tok : Bytes) : Lib.Decreases (tokenRound tok) List.length := by
  intro p p' h
  unfold tokenRound at h
  split at h
  · cases h
  · rename_i hp
    dsimp only at h
    split at h
    · cases h
    · cases h
      obtain ⟨b, p, rfl⟩ := List.exists_cons_of_ne_nil hp
      have h2 := (List.dropWhile_sublist (l := (b :: p).dropWhile fun c => isOws c || c == 44)
        (· != 44)).length_le
      have h1 := (List.dropWhile_sublist (l := p) fun c => isOws c || c == 44).length_le
      by_cases hb : (isOws b || b == 44) = true
      · rw [List.dropWhile_cons_of_pos (p := fun c => isOws c || c == 44) hb] at h2 ⊢
        rw [List.length_cons]
        omega
      · rw [List.dropWhile_cons_of_neg (p := fun c => isOws c || c == 44) hb]
        have hne : (b != 44) = true := by
          simp only [Bool.or_eq_true, not_or] at hb
          simpa [bne] using hb.2
        rw [List.dropWhile_cons_of_pos (p := (· != 44)) hne, List.length_cons]
        have := (List.dropWhile_sublist (l := p) (· != 44)).length_le
        omega

/-- `h1_token_in_list`: `tok` is an element of the comma-separated `list`. -/
def h1TokenInList (list tok : Bytes) : Bool :=
  Lib.loop (tokenRound tok) _ (tokenRound_decreases tok) list

/-- The base64 alphabet. -/
def isB64 (c : UInt8) : Bool :=
  (65 ≤ c && c ≤ 90) || (97 ≤ c && c ≤ 122) || (48 ≤ c && c ≤ 57) || c == 43 || c == 47

/-- `h1_b64_declen`: the decoded length of a base64 string; `none` is `-1`. -/
def h1B64Declen (s : Bytes) : Option Nat :=
  let n := s.length
  if n = 0 ∨ n % 4 ≠ 0 then none
  else
    let pad := (if s.getD (n - 1) 0 = 61 then 1 else 0) +
      (if n ≥ 2 ∧ s.getD (n - 2) 0 = 61 then 1 else 0)
    if (s.take (n - pad)).all isB64 then some (n / 4 * 3 - pad) else none

/-- The outcome of `h1_find_line`. -/
inductive H1Line where
  /-- No LF is buffered yet. -/
  | incomplete
  /-- A bare LF. -/
  | bare
  /-- The line's text without its CRLF; `consumed` counts the CRLF. -/
  | line (text : Bytes) (consumed : Nat)
  deriving Repr, DecidableEq

/-- `h1_find_line`. -/
def h1FindLine (inp : Bytes) : H1Line :=
  match memchr LF inp with
  | none => .incomplete
  | some idx =>
    if idx = 0 ∨ inp.getD (idx - 1) 0 ≠ CR then .bare
    else .line (inp.take (idx - 1)) (idx + 1)

/-- **What a found line is**: the text in front of the first LF, which a CR precedes. -/
theorem h1FindLine_eq_line {inp text : Bytes} {consumed : Nat} :
    h1FindLine inp = .line text consumed ↔
      LF ∉ text ∧ consumed = text.length + 2 ∧ ∃ rest, inp = text ++ crlf ++ rest := by
  constructor
  · intro h
    unfold h1FindLine at h
    split at h
    · cases h
    · rename_i idx hidx
      obtain ⟨a, rest, rfl, rfl, ha⟩ := memchr_eq_some hidx
      split at h
      · cases h
      · rename_i hcr
        obtain ⟨hne, hcr⟩ := not_or.mp hcr
        have hcr := not_not.mp hcr
        cases h
        obtain ⟨t, b, rfl⟩ := List.eq_nil_or_concat a |>.resolve_left (by rintro rfl; simp at hne)
        have hb : b = CR := by simpa using hcr
        subst hb
        refine ⟨fun hm => ha ?_, ?_, rest, ?_⟩ <;> simp_all [crlf]
  · rintro ⟨hlf, rfl, rest, rfl⟩
    have hm : memchr LF (text ++ crlf ++ rest) = some (text ++ [CR]).length := by
      have := memchr_append (c := LF) (a := text ++ [CR]) (by simp [hlf]; decide) rest
      simpa [crlf] using this
    unfold h1FindLine
    rw [hm]
    simp [crlf]

theorem h1FindLine_eq_incomplete {inp : Bytes} : h1FindLine inp = .incomplete ↔ LF ∉ inp := by
  rw [← memchr_eq_none]
  unfold h1FindLine
  split
  · simp [*]
  · split <;> simp [*]

theorem length_drop_line {inp text : Bytes} {consumed : Nat}
    (h : h1FindLine inp = .line text consumed) :
    (inp.drop consumed).length + 2 ≤ inp.length := by
  obtain ⟨-, rfl, rest, rfl⟩ := h1FindLine_eq_line.mp h
  simp [crlf]

/-! ### Responses

`h1_respond` and what it calls: status lines, header lines and the fields that frame the
body. -/

/-- `zhs_status_text_`. -/
def zhsStatusText : Nat → Bytes
  | 100 => str "Continue"
  | 101 => str "Switching Protocols"
  | 200 => str "OK"
  | 201 => str "Created"
  | 202 => str "Accepted"
  | 204 => str "No Content"
  | 206 => str "Partial Content"
  | 301 => str "Moved Permanently"
  | 302 => str "Found"
  | 303 => str "See Other"
  | 304 => str "Not Modified"
  | 307 => str "Temporary Redirect"
  | 308 => str "Permanent Redirect"
  | 400 => str "Bad Request"
  | 401 => str "Unauthorized"
  | 403 => str "Forbidden"
  | 404 => str "Not Found"
  | 405 => str "Method Not Allowed"
  | 408 => str "Request Timeout"
  | 409 => str "Conflict"
  | 411 => str "Length Required"
  | 413 => str "Content Too Large"
  | 414 => str "URI Too Long"
  | 415 => str "Unsupported Media Type"
  | 421 => str "Misdirected Request"
  | 426 => str "Upgrade Required"
  | 429 => str "Too Many Requests"
  | 431 => str "Request Header Fields Too Large"
  | 500 => str "Internal Server Error"
  | 501 => str "Not Implemented"
  | 502 => str "Bad Gateway"
  | 503 => str "Service Unavailable"
  | 505 => str "HTTP Version Not Supported"
  | _ => []

/-- The status line. -/
def statusLine (status : Nat) : Bytes :=
  str "HTTP/1.1 " ++ decimal status ++ str " " ++ zhsStatusText status ++ crlf

/-- One header line. -/
def headerLine (h : Bytes × Bytes) : Bytes := h.1 ++ str ": " ++ h.2 ++ crlf

variable (g : H1Cfg)

/-- `h1_error` (`h1_emit_simple` without an extra header): an error response without a
body that closes the connection. -/
def h1Error (c : Zh1Conn) (status : Nat) : Zh1Conn :=
  let date := g.srv.date c.log.length
  { c with
    out := c.out.append (statusLine status ++ str "date: " ++ date.1 ++
      str "\r\nserver: zcio\r\n" ++ str "content-length: 0\r\nconnection: close\r\n\r\n")
    closeAfter := true
    state := .dead
    err := some status }

/-- A status without a response body. -/
def bodiless (status : Nat) : Bool :=
  (100 ≤ status && status < 200) || status == 204 || status == 304

/-- `h1_respond` decides to close: the client, the server, an earlier error or the
request cap ask for it. -/
def h1CloseConn (c : Zh1Conn) : Bool :=
  c.closeAfter || c.graceful || !c.keepAlive ||
    decide (c.reqCount + 1 ≥ g.lim.maxRequestsPerConn)

/-- The octets of a response: status line, headers, framing, and the body unless it is
suppressed. -/
def h1ResponseBytes (isHead close : Bool) (status : Nat) (hdrs : List (Bytes × Bytes))
    (body : RespBody) : Bytes :=
  statusLine status ++ (hdrs.map headerLine).flatten ++
    (if bodiless status then []
      else str "content-length: " ++ decimal body.len ++ crlf) ++
    (if close then str "connection: close\r\n\r\n" else str "connection: keep-alive\r\n\r\n") ++
    (match body with
      | .null _ => []
      | .data b => if bodiless status || isHead then [] else b)

/-- `h1_respond`. Over the output cap the connection closes once it drains. -/
def h1Respond : RespondFn Zh1Conn := fun c status hdrs body =>
  let close := h1CloseConn g c
  let out := c.out.append (h1ResponseBytes c.req.isHead close status hdrs body)
  { c with
    out
    closeAfter := c.closeAfter || close || decide (out.len > g.lim.maxOutBytes) }

/-- The host a redirect points at: the configured one, else the request's authority. -/
def h1RedirectHost (c : Zh1Conn) : Bytes :=
  match g.srv.host with
  | some h => if h.1 = [] then c.req.authority.getD [] else h.1
  | none => c.req.authority.getD []

/-- `h1_redirect`: 301 to the `https` equivalent. -/
def h1Redirect (c : Zh1Conn) : Zh1Conn :=
  let host := h1RedirectHost g c
  if host = [] then h1Error g c 400
  else
    let date := g.srv.date c.log.length
    { c with
      out := c.out.append (str "HTTP/1.1 301 Moved Permanently\r\ndate: " ++ date.1 ++
        str "\r\nserver: zcio\r\nlocation: https://" ++ host ++
        c.req.path.getD [slash] ++
        (match c.req.query with
          | some q => str "?" ++ q
          | none => []) ++
        str "\r\ncontent-length: 0\r\nconnection: close\r\n\r\n")
      closeAfter := true
      state := .dead }

/-! ### The stages

One function for each stage of the parser. A stage reads a line or a part of the body, and
says whether it needs more octets, is done, or has refused the request. -/

/-- A stage function's code, the connection and the unread input. -/
structure Stage where
  code : PCode
  c : Zh1Conn
  inp : Bytes
  deriving Repr, DecidableEq

/-- The common frame of the stages that read one line under the header budget: wait for
more, reject an oversized or bare-LF line, else charge the line to the budget and act on
its text. `act` continues with the input behind the line. -/
def h1Budgeted {α : Type} (c : Zh1Conn) (inp : Bytes) (stop : Stage → α)
    (act : Zh1Conn → Bytes → Bytes → α) : α :=
  match h1FindLine inp with
  | .incomplete =>
    if inp.length > g.lim.maxHeaderBytes then stop ⟨.close, h1Error g c 431, inp⟩
    else stop ⟨.more, c, inp⟩
  | .bare => stop ⟨.close, h1Error g c 400, inp⟩
  | .line text consumed =>
    if consumed > g.lim.maxHeaderBytes - c.headBytes then
      stop ⟨.close, h1Error g c 431, inp⟩
    else act { c with headBytes := c.headBytes + consumed } text (inp.drop consumed)

/-- **What a budgeted stage can do**: wait for the rest of a line, refuse, or act on a
line that fits the budget. -/
theorem h1Budgeted_cases {α : Type} (c : Zh1Conn) (inp : Bytes) (stop : Stage → α)
    (act : Zh1Conn → Bytes → Bytes → α) :
    (LF ∉ inp ∧ inp.length ≤ g.lim.maxHeaderBytes ∧
      h1Budgeted g c inp stop act = stop ⟨.more, c, inp⟩) ∨
    (∃ status, h1Budgeted g c inp stop act = stop ⟨.close, h1Error g c status, inp⟩) ∨
    (∃ text rest, inp = text ++ crlf ++ rest ∧ LF ∉ text ∧
      text.length + 2 ≤ g.lim.maxHeaderBytes - c.headBytes ∧
      h1Budgeted g c inp stop act =
        act { c with headBytes := c.headBytes + (text.length + 2) } text rest) := by
  unfold h1Budgeted
  split
  · rename_i hl
    split
    · exact .inr (.inl ⟨431, rfl⟩)
    · exact .inl ⟨h1FindLine_eq_incomplete.mp hl, by omega, rfl⟩
  · exact .inr (.inl ⟨400, rfl⟩)
  · rename_i text consumed hl
    split
    · exact .inr (.inl ⟨431, rfl⟩)
    · obtain ⟨hlf, rfl, rest, rfl⟩ := h1FindLine_eq_line.mp hl
      have hdrop : (text ++ crlf ++ rest).drop (text.length + 2) = rest :=
        List.drop_left' (by simp [crlf])
      exact .inr (.inr ⟨text, rest, rfl, hlf, by omega, by rw [hdrop]⟩)

/-- The three parts of a request line. -/
def splitReqline (line : Bytes) : Option (Bytes × Bytes × Bytes) :=
  match memchr SP line with
  | none => none
  | some mlen =>
    let tail := line.drop (mlen + 1)
    match memchr SP tail with
    | none => none
    | some tlen => some (line.take mlen, tail.take tlen, tail.drop (tlen + 1))

/-- The version text of a request line: `HTTP/1.1` (`false`), `HTTP/1.0` (`true`), or the
error status. -/
def h1Version (v : Bytes) : Except Nat Bool :=
  if v = str "HTTP/1.1" then .ok false
  else if v = str "HTTP/1.0" then .ok true
  else if v.length ≥ 6 ∧ v.take 5 = str "HTTP/" ∧ h1IsDigit (v.getD 5 0) then .error 505
  else .error 400

/-- `h1_reqline` on the text of a complete line. -/
def h1ReqlineText (c : Zh1Conn) (line rest : Bytes) : Stage :=
  let fail (status : Nat) : Stage := ⟨.close, h1Error g c status, rest⟩
  if line = [] ∨ line.head? = some SP ∨ line.head? = some HTAB then fail 400
  else
    match splitReqline line with
    | none => fail 400
    | some (method, target, version) =>
      if !zhsTokenOk method then fail 400
      else
        match h1Version version with
        | .error status => fail status
        | .ok http10 =>
          let c := { c with isHttp10 := http10 }
          if target.length > g.lim.maxUrlBytes then ⟨.close, h1Error g c 414, rest⟩
          else
            let c := { c with req := { c.req with
              method := some (cstr method)
              isHead := method == str "HEAD"
              raw := { c.req.raw with method, target } } }
            match zhsDecodeTarget target g.lim with
            | .error _ => ⟨.close, h1Error g c 400, rest⟩
            | .ok (path, query) =>
              ⟨.next,
                { c with
                  req := { c.req with path := some path, query, version := 1 }
                  state := .headers
                  reqNo := c.reqNo + 1 },
                rest⟩

/-- `h1_reqline`. -/
def h1Reqline (c : Zh1Conn) (inp : Bytes) : Stage :=
  let c := if inp.length > 0 then { c with receiving := true } else c
  h1Budgeted g c inp id (h1ReqlineText g)

/-- The outcome of the header loop: a stage result, or the end of the head. -/
inductive H1HeadEnd where
  | stop (s : Stage)
  | done (c : Zh1Conn) (inp : Bytes)
  deriving Repr, DecidableEq

/-- One header field of the text of a complete, non-empty line. -/
def h1HeaderText (c : Zh1Conn) (line rest : Bytes) : (Zh1Conn × Bytes) ⊕ H1HeadEnd :=
  let fail (status : Nat) : (Zh1Conn × Bytes) ⊕ H1HeadEnd :=
    .inr (.stop ⟨.close, h1Error g c status, rest⟩)
  if line = [] then .inr (.done c rest)
  else if line.head? = some SP ∨ line.head? = some HTAB then fail 400
  else
    match memchr 58 line with
    | none => fail 400
    | some nlen =>
      let name := line.take nlen
      if !zhsTokenOk name then fail 400
      else
        let value := ((line.drop (nlen + 1)).dropWhile isOws).rdropWhile isOws
        if !zhsValueOk value then fail 400
        else
          match c.req.headers.add name value g.lim true with
          | .error _ => fail 431
          | .ok headers =>
            .inl ({ c with req := { c.req with
                      headers
                      raw := { c.req.raw with
                        fields := c.req.raw.fields ++ [(name, value)] } } }, rest)

/-- One round of the header loop of `h1_headers`. -/
def h1HeaderRound (s : Zh1Conn × Bytes) : (Zh1Conn × Bytes) ⊕ H1HeadEnd :=
  h1Budgeted g s.1 s.2 (fun st => .inr (.stop st)) (h1HeaderText g)

/-- Another round of the header loop means a line was consumed; so does its end. -/
theorem h1HeaderText_cases (c : Zh1Conn) (line rest : Bytes) :
    (line = [] ∧ h1HeaderText g c line rest = .inr (.done c rest)) ∨
    (∃ status, h1HeaderText g c line rest = .inr (.stop ⟨.close, h1Error g c status, rest⟩)) ∨
    (∃ name v value headers, line = name ++ 58 :: v ∧ zhsTokenOk name = true ∧
      value = (v.dropWhile isOws).rdropWhile isOws ∧ zhsValueOk value = true ∧
      c.req.headers.add name value g.lim true = .ok headers ∧
      h1HeaderText g c line rest =
        .inl ({ c with req := { c.req with
                  headers
                  raw := { c.req.raw with
                    fields := c.req.raw.fields ++ [(name, value)] } } }, rest)) := by
  unfold h1HeaderText
  dsimp only
  split
  · exact .inl ⟨‹_›, rfl⟩
  · split
    · exact .inr (.inl ⟨400, rfl⟩)
    · split
      · exact .inr (.inl ⟨400, rfl⟩)
      · rename_i nlen hm
        obtain ⟨name, v, rfl, rfl, -⟩ := memchr_eq_some hm
        have hv : (name ++ 58 :: v).drop (name.length + 1) = v := by
          rw [← List.drop_drop, List.drop_left]
          rfl
        rw [List.take_left, hv]
        split
        · exact .inr (.inl ⟨400, rfl⟩)
        · split
          · exact .inr (.inl ⟨400, rfl⟩)
          · split
            · exact .inr (.inl ⟨431, rfl⟩)
            · rename_i ht hval _ headers hadd
              refine .inr (.inr ⟨name, v, _, headers, rfl, ?_, rfl, ?_, hadd, rfl⟩)
              · simpa using ht
              · simpa using hval

theorem h1HeaderRound_decreases : Lib.Decreases (h1HeaderRound g) fun s => s.2.length := by
  rintro ⟨c, inp⟩ s' h
  unfold h1HeaderRound at h
  obtain ⟨-, -, hb⟩ | ⟨_, hb⟩ | ⟨text, rest, rfl, -, -, hb⟩ :=
    h1Budgeted_cases g c inp (fun st => .inr (.stop st)) (h1HeaderText g)
  · rw [hb] at h; cases h
  · rw [hb] at h; cases h
  · rw [hb] at h
    obtain ⟨-, ht⟩ | ⟨_, ht⟩ | ⟨_, _, _, _, _, _, _, _, _, ht⟩ := h1HeaderText_cases g _ text rest
    · rw [ht] at h; cases h
    · rw [ht] at h; cases h
    · rw [ht] at h
      cases h
      simp [crlf]
      omega

/-- `h1_frame_content_length`: the declared length, or the error status. -/
def h1FrameContentLength (c : Zh1Conn) : Except Nat Nat :=
  match (c.req.headers.v.filter fun h => h.name == str "content-length").map (·.value) with
  | [] => .error 400
  | _ :: _ :: _ => .error 400
  | [first] =>
    if first = [] then .error 400
    else
      let rec go (v : Nat) : Bytes → Except Nat Nat
        | [] => .ok v
        | p :: ps =>
          if !h1IsDigit p then .error 400
          else if v > (2 ^ 64 - 1 - 9) / 10 then .error 413
          else go (v * 10 + (p.toNat - 48)) ps
      match go 0 first with
      | .error e => .error e
      | .ok v => if v > g.lim.maxBodyBytes then .error 413 else .ok v

/-- `h1_headers` takes the authority from the Host field, less any userinfo. -/
def h1Authority (c : Zh1Conn) : Zh1Conn :=
  match c.req.headers.get (str "host") with
  | some hv => { c with req := { c.req with
      authority := some (afterLast 64 hv)
      raw := { c.req.raw with authority := some hv } } }
  | none => c

/-- The client permits persistence: HTTP/1.1 unless it says `close`, HTTP/1.0 only if it
says `keep-alive`. -/
def h1KeepAlive (c : Zh1Conn) : Bool :=
  match c.req.headers.get (str "connection") with
  | some conn =>
    if c.isHttp10 then h1TokenInList conn (str "keep-alive")
    else !h1TokenInList conn (str "close")
  | none => !c.isHttp10

/-- The body framing of a complete head: the connection set up to read the body, or the
error status. -/
def h1Framing (c : Zh1Conn) : Except Nat Zh1Conn :=
  let te := c.req.headers.get (str "transfer-encoding")
  let tec := c.req.headers.count (str "transfer-encoding")
  let clc := c.req.headers.count (str "content-length")
  if te.isSome ∧ clc ≠ 0 then .error 400
  else if te.isSome ∧ c.isHttp10 then .error 400
  else
    -- a fresh budget for the trailer section
    let c := { c with headBytes := 0 }
    match te with
    | some te =>
      if tec ≠ 1 ∨ !ciEq te (str "chunked") then .error 501
      else .ok { c with chunked := true, chunkRemaining := 0, state := .chunkSize }
    | none =>
      if clc ≠ 0 then
        match h1FrameContentLength g c with
        | .error e => .error e
        | .ok cl => .ok { c with clRemaining := cl, state := .bodyCl }
      else .ok { c with clRemaining := 0, state := .bodyCl }

/-- The end of `h1_headers`: Host, redirect mode, body framing and persistence. -/
def h1HeadDone (c : Zh1Conn) (inp : Bytes) : Stage :=
  let hostc := c.req.headers.count (str "host")
  if !c.isHttp10 ∧ hostc ≠ 1 then ⟨.close, h1Error g c 400, inp⟩
  else if c.isHttp10 ∧ hostc > 1 then ⟨.close, h1Error g c 400, inp⟩
  else
    let c := h1Authority c
    if g.redirect then ⟨.close, h1Redirect g c, inp⟩
    else
      match h1Framing g c with
      | .error e => ⟨.close, h1Error g c e, inp⟩
      | .ok c => ⟨.next, { c with keepAlive := h1KeepAlive c }, inp⟩

/-- Take up to `n` octets of the input into the body. -/
def h1TakeBody (c : Zh1Conn) (n : Nat) (inp : Bytes) : Zh1Conn :=
  { c with req := { c.req with body := c.req.body ++ inp.take n } }

/-- `h1_body_cl`. -/
def h1BodyCl (c : Zh1Conn) (inp : Bytes) : Stage :=
  if c.clRemaining = 0 then ⟨.complete, c, inp⟩
  else if inp.length = 0 then ⟨.more, c, inp⟩
  else
    let take := min inp.length c.clRemaining
    let rem := c.clRemaining - take
    ⟨if rem = 0 then .complete else .more,
      { h1TakeBody c take inp with clRemaining := rem }, inp.drop take⟩

/-- The hex digits of a chunk-size line: the size, whether there was a digit, and what
follows; `none` when the size would overflow 64 bits. -/
def hexSize (size : Nat) (any : Bool) : Bytes → Option (Nat × Bool × Bytes)
  | [] => some (size, any, [])
  | b :: rest =>
    match hexval b with
    | none => some (size, any, b :: rest)
    | some hv =>
      if size > (2 ^ 64 - 1) / 16 then none else hexSize (size * 16 + hv) true rest

/-- The text of a complete chunk-size line. -/
def h1ChunkSizeText (c : Zh1Conn) (line rest : Bytes) : (Zh1Conn × Bytes) ⊕ Stage :=
  let fail (status : Nat) : (Zh1Conn × Bytes) ⊕ Stage := .inr ⟨.close, h1Error g c status, rest⟩
  if line.length > H1_CHUNK_LINE_MAX then fail 400
  else
    match hexSize 0 false line with
    | none => fail 400
    | some (size, any, ext) =>
      if !any ∨ (ext ≠ [] ∧ ext.head? ≠ some 59) then fail 400
      else if size = 0 then .inl ({ c with state := .trailer }, rest)
      else if size > g.lim.maxBodyBytes - c.req.body.length then fail 413
      else .inl ({ c with chunkRemaining := size, state := .chunkData }, rest)

/-- The text of a complete trailer line: ignored, and the empty one ends the message. -/
def h1TrailerText (c : Zh1Conn) (line rest : Bytes) : (Zh1Conn × Bytes) ⊕ Stage :=
  if line = [] then .inr ⟨.complete, c, rest⟩ else .inl (c, rest)

/-- One round of `h1_body_chunk`. -/
def h1ChunkRound (s : Zh1Conn × Bytes) : (Zh1Conn × Bytes) ⊕ Stage :=
  let c := s.1
  let inp := s.2
  match c.state with
  | .chunkSize =>
    match h1FindLine inp with
    | .incomplete =>
      if inp.length > H1_CHUNK_LINE_MAX then .inr ⟨.close, h1Error g c 400, inp⟩
      else .inr ⟨.more, c, inp⟩
    | .bare => .inr ⟨.close, h1Error g c 400, inp⟩
    | .line text consumed => h1ChunkSizeText g c text (inp.drop consumed)
  | .chunkData =>
    if c.chunkRemaining > 0 then
      if inp.length = 0 then .inr ⟨.more, c, inp⟩
      else
        let take := min inp.length c.chunkRemaining
        let rem := c.chunkRemaining - take
        let c := { h1TakeBody c take inp with chunkRemaining := rem }
        if rem > 0 then .inr ⟨.more, c, inp.drop take⟩
        else .inl ({ c with state := .chunkCrlf }, inp.drop take)
    else .inl ({ c with state := .chunkCrlf }, inp)
  | .chunkCrlf =>
    match inp with
    | p0 :: p1 :: rest =>
      if p0 ≠ CR ∨ p1 ≠ LF then .inr ⟨.close, h1Error g c 400, inp⟩
      else .inl ({ c with state := .chunkSize }, rest)
    | _ => .inr ⟨.more, c, inp⟩
  | _ => h1Budgeted g c inp .inr (fun c => h1TrailerText c)

theorem h1ReqlineText_inp (c : Zh1Conn) (line rest : Bytes) :
    (h1ReqlineText g c line rest).inp = rest ∧
      (h1ReqlineText g c line rest).code ≠ .complete := by
  unfold h1ReqlineText
  dsimp only
  split
  · simp
  · split
    · simp
    · split
      · simp
      · split
        · simp
        · split
          · simp
          · split <;> simp

theorem h1Reqline_length (c : Zh1Conn) (inp : Bytes) :
    ((h1Reqline g c inp).code = .next → (h1Reqline g c inp).inp.length < inp.length) ∧
      (h1Reqline g c inp).code ≠ .complete := by
  unfold h1Reqline
  dsimp only
  obtain ⟨-, -, hb⟩ | ⟨_, hb⟩ | ⟨text, rest, rfl, -, -, hb⟩ := h1Budgeted_cases g
    (if inp.length > 0 then { c with receiving := true } else c) inp id (h1ReqlineText g)
  · rw [hb]; simp
  · rw [hb]; simp
  · rw [hb]
    obtain ⟨hinp, hcode⟩ := h1ReqlineText_inp g _ text rest
    refine ⟨fun _ => ?_, hcode⟩
    rw [hinp]
    simp [crlf]
    omega

theorem h1HeadDone_inp (c : Zh1Conn) (inp : Bytes) :
    (h1HeadDone g c inp).inp = inp ∧ (h1HeadDone g c inp).code ≠ .complete := by
  unfold h1HeadDone
  dsimp only
  split
  · simp
  · split
    · simp
    · split
      · simp
      · split <;> simp

/-- The header loop of `h1_headers`. -/
def h1HeaderLoop (c : Zh1Conn) (inp : Bytes) : H1HeadEnd :=
  Lib.loop (h1HeaderRound g) _ (h1HeaderRound_decreases g) (c, inp)

/-- `h1_headers`. -/
def h1Headers (c : Zh1Conn) (inp : Bytes) : Stage :=
  match h1HeaderLoop g c inp with
  | .stop s => s
  | .done c inp => h1HeadDone g c inp

/-- Leaving the header loop at the end of a head took at least a line. -/
def HeadShorter (s : Zh1Conn × Bytes) : H1HeadEnd → Prop
  | .stop st => st.code ≠ .next ∧ st.code ≠ .complete
  | .done _ inp => inp.length < s.2.length

theorem h1HeaderLoop_shorter (c : Zh1Conn) (inp : Bytes) :
    HeadShorter (c, inp) (h1HeaderLoop g c inp) := by
  apply Lib.loop_induct (h1HeaderRound_decreases g)
  · rintro ⟨c, inp⟩ r h
    unfold h1HeaderRound at h
    obtain ⟨-, -, hb⟩ | ⟨_, hb⟩ | ⟨text, rest, rfl, -, -, hb⟩ :=
      h1Budgeted_cases g c inp (fun st => .inr (.stop st)) (h1HeaderText g)
    · rw [hb] at h; cases h; simp [HeadShorter]
    · rw [hb] at h; cases h; simp [HeadShorter]
    · rw [hb] at h
      obtain ⟨-, ht⟩ | ⟨_, ht⟩ | ⟨_, _, _, _, _, _, _, _, _, ht⟩ := h1HeaderText_cases g _ text rest
      · rw [ht] at h
        cases h
        simp [HeadShorter, crlf]
        omega
      · rw [ht] at h; cases h; simp [HeadShorter]
      · rw [ht] at h; cases h
  · intro s s' r h ih
    have hlt := h1HeaderRound_decreases g s s' h
    cases r with
    | stop st => exact ih
    | done c' inp' => exact Nat.lt_trans ih hlt

theorem h1Headers_length (c : Zh1Conn) (inp : Bytes) :
    ((h1Headers g c inp).code = .next → (h1Headers g c inp).inp.length < inp.length) ∧
      (h1Headers g c inp).code ≠ .complete := by
  have key := h1HeaderLoop_shorter g c inp
  unfold h1Headers
  cases hr : h1HeaderLoop g c inp with
  | stop st =>
    rw [hr] at key
    exact ⟨fun h => absurd h key.1, key.2⟩
  | done c' inp' =>
    rw [hr] at key
    obtain ⟨hinp, hcode⟩ := h1HeadDone_inp g c' inp'
    exact ⟨fun _ => by rw [hinp]; exact key, hcode⟩

/-- The measure of the chunk loop: a finished chunk still has its CRLF to check. -/
def chunkMeasure (s : Zh1Conn × Bytes) : Nat :=
  2 * s.2.length + if s.1.state = .chunkData then 1 else 0

theorem h1ChunkSizeText_cases (c : Zh1Conn) (line rest : Bytes) :
    (∃ status, h1ChunkSizeText g c line rest = .inr ⟨.close, h1Error g c status, rest⟩) ∨
    (∃ size ext, line.length ≤ H1_CHUNK_LINE_MAX ∧ hexSize 0 false line = some (size, true, ext) ∧
      (ext = [] ∨ ext.head? = some 59) ∧
      ((size = 0 ∧ h1ChunkSizeText g c line rest = .inl ({ c with state := .trailer }, rest)) ∨
        (0 < size ∧ size ≤ g.lim.maxBodyBytes - c.req.body.length ∧
          h1ChunkSizeText g c line rest =
            .inl ({ c with chunkRemaining := size, state := .chunkData }, rest)))) := by
  unfold h1ChunkSizeText
  dsimp only
  split
  · exact .inl ⟨400, rfl⟩
  · split
    · exact .inl ⟨400, rfl⟩
    · rename_i hlen _ size any ext hsize
      split
      · exact .inl ⟨400, rfl⟩
      · rename_i hok
        obtain ⟨hany, hext⟩ := not_or.mp hok
        have hany : any = true := by simpa using hany
        subst hany
        have hext : ext = [] ∨ ext.head? = some 59 := by
          by_cases he : ext = []
          · exact .inl he
          · exact .inr (not_not.mp fun hc => hext ⟨he, hc⟩)
        split
        · exact .inr ⟨size, ext, by omega, hsize, hext, .inl ⟨‹_›, rfl⟩⟩
        · split
          · exact .inl ⟨413, rfl⟩
          · exact .inr ⟨size, ext, by omega, hsize, hext, .inr ⟨by omega, by omega, rfl⟩⟩

/-- **What a round of the chunk loop can do.** -/
theorem h1ChunkRound_length (c : Zh1Conn) (inp : Bytes) :
    (∃ st, h1ChunkRound g (c, inp) = .inr st ∧ st.code ≠ .next ∧ st.inp.length ≤ inp.length) ∨
    (∃ c' inp', h1ChunkRound g (c, inp) = .inl (c', inp') ∧
      chunkMeasure (c', inp') < chunkMeasure (c, inp) ∧ inp'.length ≤ inp.length) := by
  unfold h1ChunkRound
  dsimp only
  split
  · -- chunk size
    rename_i hst
    split
    · split
      · exact .inl ⟨_, rfl, by simp, Nat.le_refl _⟩
      · exact .inl ⟨_, rfl, by simp, Nat.le_refl _⟩
    · exact .inl ⟨_, rfl, by simp, Nat.le_refl _⟩
    · rename_i text consumed hl
      have hlen := length_drop_line hl
      obtain ⟨_, ht⟩ | ⟨size, ext, -, -, -, ⟨-, ht⟩ | ⟨-, -, ht⟩⟩ :=
        h1ChunkSizeText_cases g c text (inp.drop consumed)
      · exact .inl ⟨_, ht, by simp, by simp⟩
      · refine .inr ⟨_, _, ht, ?_, by simp⟩
        simp only [chunkMeasure, hst]
        simp at hlen ⊢
        omega
      · refine .inr ⟨_, _, ht, ?_, by simp⟩
        simp only [chunkMeasure, hst]
        simp at hlen ⊢
        omega
  · -- chunk data
    rename_i hst
    split
    · split
      · exact .inl ⟨_, rfl, by simp, Nat.le_refl _⟩
      · split
        · exact .inl ⟨_, rfl, by simp, by simp⟩
        · refine .inr ⟨_, _, rfl, ?_, by simp⟩
          simp only [chunkMeasure, hst, reduceCtorEq, if_true, if_false, List.length_drop]
          omega
    · refine .inr ⟨_, _, rfl, ?_, Nat.le_refl _⟩
      simp [chunkMeasure, hst]
  · -- the CRLF behind a chunk
    rename_i hst
    split
    · split
      · exact .inl ⟨_, rfl, by simp, Nat.le_refl _⟩
      · refine .inr ⟨_, _, rfl, ?_, by simp; omega⟩
        simp [chunkMeasure]
        omega
    · exact .inl ⟨_, rfl, by simp, Nat.le_refl _⟩
  · -- trailer
    rename_i hsize hdata hcrlf
    obtain ⟨-, -, hb⟩ | ⟨_, hb⟩ | ⟨text, rest, rfl, -, -, hb⟩ :=
      h1Budgeted_cases g c inp .inr (fun c => h1TrailerText c)
    · exact .inl ⟨_, hb, by simp, Nat.le_refl _⟩
    · exact .inl ⟨_, hb, by simp, Nat.le_refl _⟩
    · rw [hb]
      unfold h1TrailerText
      split
      · exact .inl ⟨_, rfl, by simp, by simp; omega⟩
      · refine .inr ⟨_, _, rfl, ?_, by simp; omega⟩
        simp [chunkMeasure, crlf]
        omega

theorem h1ChunkRound_decreases : Lib.Decreases (h1ChunkRound g) chunkMeasure := by
  rintro ⟨c, inp⟩ s' h
  obtain ⟨st, hr, -⟩ | ⟨c', inp', hr, hlt, -⟩ := h1ChunkRound_length g c inp
  · rw [hr] at h; cases h
  · rw [hr] at h; cases h; exact hlt

/-- `h1_body_chunk`. -/
def h1BodyChunk (c : Zh1Conn) (inp : Bytes) : Stage :=
  Lib.loop (h1ChunkRound g) _ (h1ChunkRound_decreases g) (c, inp)

theorem h1BodyChunk_length (c : Zh1Conn) (inp : Bytes) :
    (h1BodyChunk g c inp).code ≠ .next ∧ (h1BodyChunk g c inp).inp.length ≤ inp.length := by
  refine Lib.loop_induct (h1ChunkRound_decreases g)
    (P := fun s st => st.code ≠ .next ∧ st.inp.length ≤ s.2.length) ?_ ?_ (c, inp)
  · rintro ⟨c, inp⟩ st h
    obtain ⟨st, hr, hc, hl⟩ | ⟨c', inp', hr, -⟩ := h1ChunkRound_length g c inp
    · rw [hr] at h; cases h; exact ⟨hc, hl⟩
    · rw [hr] at h; cases h
  · rintro ⟨c, inp⟩ s' st h ⟨hc, hl⟩
    obtain ⟨st, hr, -⟩ | ⟨c', inp', hr, -, hl'⟩ := h1ChunkRound_length g c inp
    · rw [hr] at h; cases h
    · rw [hr] at h; cases h; exact ⟨hc, Nat.le_trans hl hl'⟩

/-! ### Dispatch

Behind the last octet of a request it is handed over, and the fields of the parser are set
back for the next one. -/

/-- `h1_detect_ws`: a valid RFC 6455 opening handshake. -/
def h1DetectWs (c : Zh1Conn) : Bool :=
  let h := c.req.headers
  !c.isHttp10 && c.req.method == some (str "GET") &&
    (h.get (str "upgrade")).any (h1TokenInList · (str "websocket")) &&
    (h.get (str "connection")).any (h1TokenInList · (str "upgrade")) &&
    (h.get (str "sec-websocket-key")).any (fun k => h1B64Declen k == some 16) &&
    (h.get (str "sec-websocket-version")) == some (str "13")

/-- The request object as `h1_finish` hands it to the dispatcher. -/
def h1Request (c : Zh1Conn) : HttpReq :=
  { c.req with
    version := 1
    secure := g.secure
    streamId := 0
    wsUpgrade := c.req.wsUpgrade || h1DetectWs c }

/-- `h1_finish`: dispatch the assembled request; `false` when the connection was detached. -/
def h1Finish (c : Zh1Conn) : Bool × Zh1Conn :=
  let req := h1Request g c
  let history := c.history
  let c := { c with req, log := c.log ++ [{ no := c.reqNo, http10 := c.isHttp10, req }] }
  let (c, responded) := zhsDispatch g.srv history req (h1Respond g) c
  let c := { c with req := { c.req with responded } }
  if g.srv.detaches history req then (false, c)
  else (true, { c with reqCount := c.reqCount + 1 })

/-- `h1_reset_next`: per-request state for the next pipelined request. -/
def h1ResetNext (c : Zh1Conn) : Zh1Conn :=
  { c with
    req := {}
    state := .reqline
    headBytes := 0
    receiving := false
    chunked := false
    clRemaining := 0
    chunkRemaining := 0
    keepAlive := false
    isHttp10 := false }

/-! ### The feed loop

Stages follow each other until the input is used up, a stage waits, or the connection
closes. The measure counts octets and, for stages that take none, their order. -/

/-- The stage function the connection's state selects. `H1_DEAD` closes at once. -/
def h1Stage (c : Zh1Conn) (inp : Bytes) : Stage :=
  match c.state with
  | .reqline => h1Reqline g c inp
  | .headers => h1Headers g c inp
  | .bodyCl => h1BodyCl c inp
  | .chunkSize | .chunkData | .chunkCrlf | .trailer => h1BodyChunk g c inp
  | .dead => ⟨.close, c, inp⟩

/-- The locals of `zh1_feed_`. -/
structure FeedSt where
  c : Zh1Conn
  inp : Bytes
  dispatched : Nat := 0
  deriving Repr, DecidableEq

/-- What `zh1_feed_` returns and leaves behind. -/
structure FeedRes where
  rc : Zh1Rc
  c : Zh1Conn
  inp : Bytes
  deriving Repr, DecidableEq

/-- What the feed loop does with a stage's result. -/
def feedNext (dispatched : Nat) (st : Stage) : FeedSt ⊕ FeedRes :=
  match st.code with
  | .more => .inr ⟨if dispatched > 0 then .dispatched else .needMore, st.c, st.inp⟩
  | .next => .inl ⟨st.c, st.inp, dispatched⟩
  | .close => .inr ⟨.close, st.c, st.inp⟩
  | .complete =>
    let (attached, c) := h1Finish g st.c
    if !attached then .inr ⟨.detached, c, st.inp⟩
    else if c.closeAfter then .inr ⟨.close, c, st.inp⟩
    else .inl ⟨h1ResetNext c, st.inp, dispatched + 1⟩

/-- One round of `zh1_feed_`. -/
def feedRound (s : FeedSt) : FeedSt ⊕ FeedRes := feedNext g s.dispatched (h1Stage g s.c s.inp)

/-- The measure of the feed loop: completing a request without a body takes no octet, but
leads back to the request line. -/
def feedMeasure (s : FeedSt) : Nat := 2 * s.inp.length + if s.c.state = .reqline then 0 else 1

theorem h1Stage_length (c : Zh1Conn) (inp : Bytes) :
    ((h1Stage g c inp).code = .next → (h1Stage g c inp).inp.length < inp.length) ∧
    ((h1Stage g c inp).code = .complete →
      (h1Stage g c inp).inp.length ≤ inp.length ∧ c.state ≠ .reqline) := by
  unfold h1Stage
  split
  · obtain ⟨hn, hc⟩ := h1Reqline_length g c inp
    exact ⟨hn, fun h => absurd h hc⟩
  · obtain ⟨hn, hc⟩ := h1Headers_length g c inp
    exact ⟨hn, fun h => absurd h hc⟩
  · rename_i hst
    unfold h1BodyCl
    split
    · simp [hst]
    · split
      · simp
      · dsimp only
        split <;> simp [hst]
  all_goals first
    | (rename_i hst
       obtain ⟨hn, hl⟩ := h1BodyChunk_length g c inp
       exact ⟨fun h => absurd h hn, fun _ => ⟨hl, by simp [hst]⟩⟩)
    | simp

theorem feedRound_decreases : Lib.Decreases (feedRound g) feedMeasure := by
  intro s s' h
  obtain ⟨hnext, hcomplete⟩ := h1Stage_length g s.c s.inp
  unfold feedRound feedNext at h
  split at h
  · cases h
  · rename_i hc
    cases h
    have := hnext hc
    unfold feedMeasure
    dsimp only
    split <;> split <;> omega
  · cases h
  · rename_i hc
    have := hcomplete hc
    dsimp only at h
    split at h
    · cases h
    · split at h
      · cases h
      · cases h
        simp [feedMeasure, h1ResetNext, this.2]
        omega

/-- The loop of `zh1_feed_`. -/
def feedLoop (s : FeedSt) : FeedRes := Lib.loop (feedRound g) _ (feedRound_decreases g) s

/-- `zh1_feed_` on the buffered input. -/
def zh1Feed (c : Zh1Conn) (inp : Bytes) : FeedRes := feedLoop g { c, inp }

end Zcio
