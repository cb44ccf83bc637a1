import Zcio.Lib.Loop
import Zcio.Http.Io

/-!
# Zcio.Http.Response

How the HTTP client of `http.c` reads a response. `read_response` decides after every read
whether the response is complete, from the header block and what there is of the body;
`parse_response` takes the buffer apart once more.
-/

namespace Zcio.Http

/-- `ZCIO_HTTP_MAX_RESPONSE`. -/
def ZCIO_HTTP_MAX_RESPONSE : Nat := 64 * 1024 * 1024

/-! ### Chunked bodies

A scan of the whole buffer, done again with every read. -/

/-- The outcome of `chunked_scan`. -/
inductive ChunkScan where
  /-- 1: the body is complete; its payload. -/
  | done (payload : Bytes)
  /-- 0: there is more to come. -/
  | more
  /-- -1 -/
  | bad
  deriving Repr, DecidableEq

/-- The trailer section: a blank line with its LF is there. -/
def trailerDone (p : Bytes) : Bool :=
  (p.splitOn LF).dropLast.any fun line => line == [] || line == [CR]

/-- One round of `chunked_scan`: `p` is what is left and `got` the payload so far. -/
def chunkedRound (s : Bytes × Bytes) : (Bytes × Bytes) ⊕ ChunkScan :=
  let (p, got) := s
  match memchr LF p with
  | none => .inr .more
  | some lineEnd =>
    match strtoull16 p with
    | none => .inr .bad
    | some (sz, stop) =>
      if stop > lineEnd then .inr .bad
      else
        let p := p.drop (lineEnd + 1)
        if sz = 0 then .inr (if trailerDone p then .done got else .more)
        else if sz > ZCIO_HTTP_MAX_RESPONSE ∨ got.length + sz > ZCIO_HTTP_MAX_RESPONSE then .inr .bad
        else if p.length < sz + 2 then .inr .more
        else if (p.drop sz).take 2 = crlf then .inl (p.drop (sz + 2), got ++ p.take sz)
        else .inr .bad

theorem chunkedRound_decreases : Lib.Decreases chunkedRound fun s => s.1.length := by
  rintro ⟨p, got⟩ ⟨p', got'⟩ h
  unfold chunkedRound at h
  dsimp only at h ⊢
  split at h
  · cases h
  · rename_i lineEnd hline
    have hlt := memchr_lt hline
    split at h
    · cases h
    · split at h
      · cases h
      · split at h
        · cases h
        · split at h
          · cases h
          · split at h
            · cases h
            · split at h
              · cases h
                simp only [List.length_drop]
                omega
              · cases h

/-- `chunked_scan`, with the payload for `dst`. -/
def chunkedScan (p : Bytes) : ChunkScan :=
  Lib.loop chunkedRound _ chunkedRound_decreases (p, [])

/-! ### Reading

Reads go on until the response is complete, the connection ends or the buffer is full. -/

/-- What `read_response` keeps of a complete header block. -/
structure RespFraming where
  bodyOff : Nat
  contentLen : Int := -1
  chunked : Bool := false
  deriving Repr, DecidableEq

/-- `strstr(te, "chunked")` in lower case. -/
def saysChunked (block : Bytes) : Bool :=
  (findHeaderValue block (str "Transfer-Encoding")).any fun v => strstr (lower v) (str "chunked")

/-- The framing of a buffer with a complete header block. -/
def respFraming (out : Bytes) : Option RespFraming :=
  (headEnd out).map fun i =>
    { bodyOff := i + 4
      contentLen := ((findHeaderValue (out.take i) (str "Content-Length")).map atoll).getD (-1)
      chunked := saysChunked (out.take i) }

/-- The loop variables of `read_response`. -/
structure RespRead where
  io : HttpIo
  conn : HttpConn
  out : Bytes := []
  framing : Option RespFraming := none

/-- The text for a response over the cap. -/
def tooLongMsg : Bytes :=
  str "http: response exceeds " ++ decimal ZCIO_HTTP_MAX_RESPONSE ++ str " byte limit"

/-- Whether a response is complete; `none` if its chunks are malformed. -/
def respComplete (f : RespFraming) (out : Bytes) : Option Bool :=
  let body := out.drop f.bodyOff
  if f.chunked then
    match chunkedScan body with
    | .done _ => some true
    | .more => some false
    | .bad => none
  else some (decide (0 ≤ f.contentLen ∧ f.contentLen ≤ body.length))

/-- One round of `read_response`. -/
def readResponseRound (deadline : Nat) (s : RespRead) :
    RespRead ⊕ (Except HttpFail Bytes × HttpIo × HttpConn) :=
  let rem := deadlineRemainingMs s.io deadline
  if rem.1 = 0 then
    .inr (httpFail ZCIO_ERR_TIMEOUT (str "http: request deadline exceeded"), rem.2, s.conn)
  else
    let r := httpRead (s.conn.setTimeout rem.1) 8192
    match r.1 with
    | .error e => .inr (httpFail e (str "http: read failed"), rem.2, r.2)
    | .ok [] => .inr (.ok s.out, rem.2, r.2)
    | .ok chunk =>
      if s.out.length + chunk.length > ZCIO_HTTP_MAX_RESPONSE then
        .inr (httpFail ZCIO_ERR_PROTOCOL tooLongMsg, rem.2, r.2)
      else
        let out := s.out ++ chunk
        let framing := s.framing.or (respFraming out)
        match framing.map fun f => respComplete f out with
        | some (some true) => .inr (.ok out, rem.2, r.2)
        | some none => .inr (httpFail ZCIO_ERR_PROTOCOL (str "http: malformed chunked body"), rem.2, r.2)
        | _ => .inl { io := rem.2, conn := r.2, out, framing }

/-- What a script of reads still holds. -/
def readsSize (reads : List (Except Int Bytes)) : Nat :=
  (reads.map fun r => 1 + ((r.toOption).map List.length).getD 0).sum

/-- A read takes something off the script, or is at its end. -/
theorem httpRead_size {c : HttpConn} {n : Nat} (hn : 0 < n) {b : Bytes} (hb : b ≠ [])
    (h : (httpRead c n).1 = .ok b) : readsSize (httpRead c n).2.reads < readsSize c.reads := by
  unfold httpRead at h ⊢
  split at h
  · cases h
    exact absurd rfl hb
  · cases h
  · rename_i got reads hreads
    rw [hreads]
    split
    · simp [readsSize]
    · rename_i hlong
      simp [readsSize, Except.toOption]
      omega

@[simp] theorem setTimeout_reads (c : HttpConn) (rem : Int) : (c.setTimeout rem).reads = c.reads := by
  unfold HttpConn.setTimeout
  split
  · rfl
  · rfl

theorem readResponseRound_decreases (deadline : Nat) :
    Lib.Decreases (readResponseRound deadline) fun s => readsSize s.conn.reads := by
  intro s s' h
  unfold readResponseRound at h
  dsimp only at h ⊢
  split at h
  · cases h
  · split at h
    · cases h
    · cases h
    · rename_i chunk hne hread
      have hsize := httpRead_size (by decide) (fun hnil => hne (hnil ▸ rfl)) hread
      rw [setTimeout_reads] at hsize
      split at h
      · cases h
      · split at h
        · cases h
        · cases h
        · cases h
          exact hsize

/-- `read_response`. -/
def readResponse (io : HttpIo) (conn : HttpConn) (deadline : Nat) :
    Except HttpFail Bytes × HttpIo × HttpConn :=
  Lib.loop (readResponseRound deadline) _ (readResponseRound_decreases deadline) { io, conn }

/-! ### Parsing -/

/-- `zcio_http_response`; its texts are C strings. -/
structure HttpResponse where
  protocol : Bytes
  version : Bytes
  statusCode : Bytes
  statusText : Bytes
  headersJson : Bytes
  body : Bytes
  status : Int
  deriving Repr, DecidableEq

/-- `json_append_escaped`. -/
def jsonEscaped (s : Bytes) : Bytes :=
  s.flatMap fun c => if c = 34 ∨ c = 92 then [92, c] else [c]

/-- The entry of `headers_json` for a header line; `none` for a line that is skipped. -/
def jsonEntry (line : Bytes) : Option Bytes :=
  let line := if line.getLast? = some CR then line.dropLast else line
  (memchr 58 line).map fun colon =>
    let value := (line.drop (colon + 1)).dropWhile fun c => c == SP || c == HTAB
    str "\"" ++ jsonEscaped (cstr (line.take colon)) ++ str "\":\"" ++ jsonEscaped (cstr value) ++
      str "\""

/-- `headers_json`. -/
def headersJson (block : Bytes) : Bytes :=
  str "\x7b" ++ (str ",").intercalate ((block.splitOn LF).filterMap jsonEntry) ++ str "\x7d"

/-- The body behind a header block. -/
def responseBody (block body : Bytes) : Except HttpFail Bytes :=
  if saysChunked block then
    match chunkedScan body with
    | .done payload => .ok payload
    | _ => httpFail ZCIO_ERR_PROTOCOL (str "http: incomplete chunked body")
  else
    match findHeaderValue block (str "Content-Length") with
    | none => .ok body
    | some cl =>
      let n := atoll cl
      if 0 ≤ n ∧ n < body.length then .ok (body.take n.toNat) else .ok body

/-- The status line: protocol, version, code and text. -/
def statusLine (sl : Bytes) : Option (Bytes × Bytes × Bytes × Bytes) :=
  let sl := if sl.getLast? = some CR then sl.dropLast else sl
  (memchr SP sl).map fun space1 =>
    let pv := sl.take space1
    let slash := (memchr 47 pv).getD pv.length
    let rest := sl.drop (space1 + 1)
    let space2 := (memchr SP rest).getD rest.length
    (cstr (pv.take slash), cstr (pv.drop (slash + 1)), cstr (rest.take space2),
      cstr (rest.drop (space2 + 1)))

/-- `parse_response`: the response, and the Location header for `location_out`. -/
def parseResponse (raw : Bytes) : Except HttpFail (HttpResponse × Option Bytes) :=
  match headEnd raw with
  | none => httpFail ZCIO_ERR_PROTOCOL (str "http: no header terminator in response")
  | some sep =>
    let head := raw.take sep
    match memchr LF head with
    | none => httpFail ZCIO_ERR_PROTOCOL (str "http: malformed status line")
    | some slEnd =>
      match statusLine (head.take slEnd) with
      | none => httpFail ZCIO_ERR_PROTOCOL (str "http: malformed status line")
      | some (protocol, version, statusCode, statusText) =>
        let block := head.drop (slEnd + 1)
        match responseBody block (raw.drop (sep + 4)) with
        | .error e => .error e
        | .ok body =>
          .ok ({ protocol, version, statusCode, statusText, headersJson := headersJson block
                 body, status := atoi statusCode }, findHeaderValue block (str "Location"))

end Zcio.Http
