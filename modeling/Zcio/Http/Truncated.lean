import Zcio.H1.Persistence
import Zcio.Http.Framing

/-!
# Zcio.Http.Truncated

What the client makes of a response that the server does not finish. At the end of the stream
`read_response` gives out what there is, whatever framing was declared, so that it is for
`parse_response` to notice. It does notice a head without its end and a body in chunks that is
cut short; a body shorter than its Content-Length it takes for the whole.
-/

namespace Zcio.Http

open H1Body (chunkBytes)

namespace RespMsg

/-- The head declares the framing: a Content-Length, repeated perhaps, or transfer codings of
which `chunked` is the last. -/
def Declared (r : RespMsg) : Prop :=
  match r.body with
  | .none => False
  | .length b => fieldValues r.fields (str "transfer-encoding") = [] ∧
      fieldValues r.fields (str "content-length") ≠ [] ∧
      ∀ v ∈ fieldValues r.fields (str "content-length"),
        v ≠ [] ∧ (∀ p ∈ v, isDigit p = true) ∧ decVal v = b.length
  | .chunked chunks lastSize lastExt trailer =>
      fieldValues r.fields (str "content-length") = [] ∧
      (∃ e, (Rfc9112.listElements
          (Rfc9112.combined (fieldValues r.fields (str "transfer-encoding")))).getLast? = some e ∧
        ciEq e (str "chunked") = true) ∧
      LaxChunked chunks lastSize lastExt trailer

/-- A well-formed response that declares its framing. -/
structure Declares (r : RespMsg) : Prop extends HeadOk r where
  declared : r.Declared

variable {r : RespMsg}

theorem Declares.fields_ne_nil (hr : r.Declares) : r.fields ≠ [] := by
  intro hfields
  have hdeclared := hr.declared
  rw [Declared, hfields] at hdeclared
  cases hb : r.body with
  | none =>
    rw [hb] at hdeclared
    exact hdeclared.elim
  | length b =>
    rw [hb] at hdeclared
    exact hdeclared.2.1 rfl
  | chunked chunks lastSize lastExt trailer =>
    rw [hb] at hdeclared
    obtain ⟨-, ⟨e, he, -⟩, -⟩ := hdeclared
    cases he

/-- What `read_response` keeps of the head. -/
def seen (r : RespMsg) : RespFraming :=
  { bodyOff := r.head.length + 4
    contentLen := ((findHeaderValue r.head (str "Content-Length")).map atoll).getD (-1)
    chunked := saysChunked r.head }

theorem respFraming_seen (hr : r.HeadOk) (s : Bytes) :
    respFraming (r.head ++ (crlf ++ crlf ++ s)) = some r.seen := by
  rw [respFraming, headEnd_bytes hr, Option.map_some, List.take_left]
  rfl

/-- A body that is declared by its length is seen as such. -/
theorem Declares.length_seen (hr : r.Declares) {b : Bytes} (hb : r.body = .length b) :
    saysChunked r.head = false ∧ ∃ v, findHeaderValue r.head (str "Content-Length") = some v ∧
      atoll v = min (b.length : Int) (2 ^ 63 - 1) := by
  have hdeclared := hr.declared
  rw [Declared, hb] at hdeclared
  obtain ⟨hte, hcl, hall⟩ := hdeclared
  obtain ⟨v, vs, hv⟩ := List.exists_cons_of_ne_nil hcl
  obtain ⟨hne, hdigits, hval⟩ := hall v (hv ▸ List.mem_cons_self)
  obtain ⟨hfindcl, hfindte⟩ := findHeaderValue_framing hr.toHeadOk
  obtain ⟨post, hpost, hfind⟩ := @fields_word r.fields hr.fields (str "Content-Length") v
    (by rw [show lower (str "Content-Length") = str "content-length" by decide, hv]; rfl) hne
    fun c hc => (isDigit_facts c (hdigits c hc)).2.2
  refine ⟨?_, v ++ post, hfindcl.trans hfind, ?_⟩
  · rw [saysChunked, hfindte, @fields_none r.fields hr.fields (str "Transfer-Encoding") hte]
    rfl
  · rw [atoll_digits hne hdigits hpost, hval]

theorem Declares.chunked_seen (hr : r.Declares) {chunks : List H1Chunk} {lastSize lastExt : Bytes}
    {trailer : List Bytes} (hb : r.body = .chunked chunks lastSize lastExt trailer) :
    findHeaderValue r.head (str "Content-Length") = none := by
  have hdeclared := hr.declared
  rw [Declared, hb] at hdeclared
  rw [(findHeaderValue_framing hr.toHeadOk).1,
    @fields_none r.fields hr.fields (str "Content-Length") hdeclared.1]

end RespMsg

/-! ### The cut message

A response that was cut is neither complete nor malformed. -/

namespace RespMsg

variable {r : RespMsg}

/-- The chunks of a cut body are not complete. -/
theorem Declares.chunks_open (hr : r.Declares) (hchunked : saysChunked r.head = true) {b y : Bytes}
    (hcut : b ++ y = r.body.bytes) (hy : y ≠ []) (payload : Bytes) : chunkedScan b ≠ .done payload := by
  have hdeclared := hr.declared
  cases hb : r.body with
  | none =>
    rw [Declared, hb] at hdeclared
    exact hdeclared.elim
  | length body =>
    rw [(hr.length_seen hb).1] at hchunked
    cases hchunked
  | chunked chunks lastSize lastExt trailer =>
    rw [Declared, hb] at hdeclared
    obtain ⟨-, -, hlax⟩ := hdeclared
    rw [hb] at hcut
    intro hdone
    obtain hmore | ⟨hbad, -⟩ := @chunkedScan_open _ _ _ _ hlax [] _ _ hy hcut
    · rw [chunkedScan, hmore] at hdone
      cases hdone
    · rw [chunkedScan, hbad] at hdone
      cases hdone

/-- What a cut body without chunks has is less than what is declared. -/
theorem Declares.contentLen_open (hr : r.Declares) {b y : Bytes} (hcut : b ++ y = r.body.bytes)
    (hy : y ≠ []) (hmax : b.length ≤ ZCIO_HTTP_MAX_RESPONSE) :
    ¬(0 ≤ r.seen.contentLen ∧ r.seen.contentLen ≤ b.length) := by
  have hdeclared := hr.declared
  unfold seen
  cases hb : r.body with
  | none =>
    rw [Declared, hb] at hdeclared
    exact hdeclared.elim
  | length body =>
    obtain ⟨-, v, hv, hval⟩ := hr.length_seen hb
    have hpos := List.length_pos_iff.mpr hy
    have hlen : b.length + y.length = body.length := by
      rw [← List.length_append, hcut, hb]
      rfl
    have hcap : ZCIO_HTTP_MAX_RESPONSE < 2 ^ 63 - 1 := by decide
    dsimp only
    rw [hv, Option.map_some, Option.getD_some, hval]
    omega
  | chunked chunks lastSize lastExt trailer =>
    rw [hr.chunked_seen hb]
    rintro ⟨hneg, -⟩
    have hminus : (0 : Int) ≤ -1 := hneg
    omega

/-- In front of the end the client does not find the message complete. -/
theorem Declares.not_complete (hr : r.Declares) {a y : Bytes} (hcut : a ++ y = r.bytes) (hy : y ≠ [])
    (hmax : a.length ≤ ZCIO_HTTP_MAX_RESPONSE) :
    ((respFraming a).map fun f => respComplete f a) ≠ some (some true) := by
  obtain ⟨hend, -⟩ | ⟨b, rfl, hb⟩ := cut_head hr.toHeadOk hcut
  · rw [respFraming, hend]
    exact fun h => by cases h
  have hoff : (r.head ++ (crlf ++ crlf ++ b)).drop (r.head.length + 4) = b := by
    rw [← List.append_assoc]
    exact List.drop_left' (by simp)
  have hle : b.length ≤ ZCIO_HTTP_MAX_RESPONSE := by
    simp only [List.length_append] at hmax
    omega
  rw [respFraming_seen hr.toHeadOk, Option.map_some]
  simp only [respComplete, show r.seen.bodyOff = r.head.length + 4 from rfl, hoff]
  cases hchunked : r.seen.chunked with
  | true =>
    rw [if_pos rfl]
    have hopen := hr.chunks_open hchunked hb hy
    cases hscan : chunkedScan b with
    | done payload => exact absurd hscan (hopen payload)
    | more => exact fun h => by cases h
    | bad => exact fun h => by cases h
  | false =>
    rw [if_neg Bool.false_ne_true, decide_eq_false (hr.contentLen_open hb hy hle)]
    exact fun h => by cases h

/-- A message with its head whole and seen without chunks is never malformed. -/
theorem not_malformed (hr : r.HeadOk) (hchunked : saysChunked r.head = false) {a y : Bytes}
    (hcut : a ++ y = r.bytes) : ((respFraming a).map fun f => respComplete f a) ≠ some none := by
  obtain ⟨hend, -⟩ | ⟨b, rfl, -⟩ := cut_head hr hcut
  · rw [respFraming, hend]
    exact fun h => by cases h
  · have hseen : r.seen.chunked = false := hchunked
    rw [respFraming_seen hr, Option.map_some, respComplete, hseen, if_neg Bool.false_ne_true]
    exact fun h => by cases h

end RespMsg

/-! ### The end of the stream

The end of the input ends the read of a response without an error. -/

/-- The stream is at its end. -/
def AtEof (reads : List (Except Int Bytes)) : Prop := reads = [] ∨ ∃ more, reads = .ok [] :: more

theorem httpRead_eof {c : HttpConn} (h : AtEof c.reads) (n : Nat) : (httpRead c n).1 = .ok [] := by
  obtain hnil | ⟨more, hmore⟩ := h
  · rw [httpRead, hnil]
  · rw [httpRead, hmore]
    rfl

/-- At the end of the stream there is no more than the buffer. -/
theorem readResponseRound_eof {deadline : Nat} {io : HttpIo} {conn : HttpConn} {out : Bytes}
    {framing : Option RespFraming} (htime : InTime io deadline) (heof : AtEof conn.reads) :
    ∃ io' conn', readResponseRound deadline { io, conn, out, framing } = .inr (.ok out, io', conn') := by
  obtain ⟨hrem, -⟩ := htime.remaining
  have hread := @httpRead_eof (conn.setTimeout (deadlineRemainingMs io deadline).1)
    (by rwa [setTimeout_reads]) 8192
  simp only [readResponseRound, if_neg hrem, hread]
  exact ⟨_, _, rfl⟩

/-- A read over the cap. -/
theorem readResponseRound_long {deadline : Nat} {io : HttpIo} {conn : HttpConn} {out b : Bytes}
    {framing : Option RespFraming} {reads : List (Except Int Bytes)} (htime : InTime io deadline)
    (hreads : conn.reads = .ok b :: reads) (hb : b ≠ [] ∧ b.length ≤ 8192)
    (hcap : ZCIO_HTTP_MAX_RESPONSE < (out ++ b).length) :
    ∃ io' conn', readResponseRound deadline { io, conn, out, framing } =
      .inr (httpFail ZCIO_ERR_PROTOCOL tooLongMsg, io', conn') := by
  obtain ⟨hrem, -⟩ := htime.remaining
  have hread := httpRead_ok (n := 8192)
    ((setTimeout_reads conn (deadlineRemainingMs io deadline).1).trans hreads) hb.2
  rw [List.length_append] at hcap
  obtain ⟨c, t, rfl⟩ := List.exists_cons_of_ne_nil hb.1
  simp only [readResponseRound, if_neg hrem, hread, if_pos hcap]
  exact ⟨_, _, rfl⟩

/-- A stream that ends before the client finds the message complete: the client gives out all of
it, if it is not too long and no part of it is malformed. -/
theorem readResponse_toEof {deadline : Nat} {reads : List Bytes} {more : List (Except Int Bytes)}
    (heof : AtEof more) (hsize : ∀ b ∈ reads, b ≠ [] ∧ b.length ≤ 8192) :
    ∀ {io : HttpIo} {conn : HttpConn} {out : Bytes}, InTime io deadline →
      conn.reads = reads.map .ok ++ more → out.length ≤ ZCIO_HTTP_MAX_RESPONSE →
      (∀ a, a <+: out ++ reads.flatten → a.length ≤ ZCIO_HTTP_MAX_RESPONSE →
        ((respFraming a).map fun f => respComplete f a) ≠ some (some true)) →
      ∃ result io' conn', Lib.loop (readResponseRound deadline) _ (readResponseRound_decreases deadline)
          { io, conn, out, framing := respFraming out } = (result, io', conn') ∧
        ((result = .ok (out ++ reads.flatten) ∧
            (out ++ reads.flatten).length ≤ ZCIO_HTTP_MAX_RESPONSE) ∨
          (∃ e, result = .error e) ∧ (ZCIO_HTTP_MAX_RESPONSE < (out ++ reads.flatten).length ∨
            ∃ a, a <+: out ++ reads.flatten ∧
              ((respFraming a).map fun f => respComplete f a) = some none)) := by
  -- one read a round; no beginning of the response is complete
  induction reads with
  -- the input ends, which the client takes for the end of the response
  | nil =>
    intro io conn out htime hconn hcap _
    have hend : AtEof conn.reads := hconn ▸ heof
    obtain ⟨io', conn', hround⟩ :=
      @readResponseRound_eof deadline io conn out (respFraming out) htime hend
    refine ⟨_, io', conn', Lib.loop_of_inr hround, Or.inl ⟨?_, ?_⟩⟩
    · rw [List.flatten_nil, List.append_nil]
    · rwa [List.flatten_nil, List.append_nil]
  | cons b reads ih =>
    intro io conn out htime hconn hcap hopen
    have hb := hsize b List.mem_cons_self
    rw [List.flatten_cons, ← List.append_assoc] at hopen ⊢
    -- the response is too long
    by_cases hlong : ZCIO_HTTP_MAX_RESPONSE < (out ++ b).length
    · obtain ⟨io', conn', hround⟩ :=
        @readResponseRound_long deadline io conn out b (respFraming out) _ htime hconn hb hlong
      refine ⟨_, io', conn', Lib.loop_of_inr hround, Or.inr ⟨⟨_, rfl⟩, Or.inl ?_⟩⟩
      exact hlong.trans_le (List.prefix_append _ reads.flatten).length_le
    have hcap' := Nat.le_of_not_lt hlong
    obtain ⟨io', conn', htime', hconn', hround⟩ := readResponseRound_chunk htime hconn hb hcap'
    have hpre : out ++ b <+: out ++ b ++ reads.flatten := List.prefix_append _ _
    have hnot := hopen (out ++ b) hpre hcap'
    -- neither framed nor complete: the next read
    cases htest : (respFraming (out ++ b)).map fun f => respComplete f (out ++ b) with
    | none =>
      rw [htest] at hround
      rw [Lib.loop_of_inl hround]
      exact ih (fun x hx => hsize x (List.mem_cons_of_mem _ hx)) htime' hconn' hcap' hopen
    | some test =>
      rw [htest] at hround
      match test with
      -- the scan has found an error in the chunks
      | none => exact ⟨_, io', conn', Lib.loop_of_inr hround, Or.inr ⟨⟨_, rfl⟩, Or.inr ⟨_, hpre, htest⟩⟩⟩
      -- a beginning that is complete was excluded
      | some true => exact absurd htest hnot
      | some false =>
        rw [Lib.loop_of_inl hround]
        exact ih (fun x hx => hsize x (List.mem_cons_of_mem _ hx)) htime' hconn' hcap' hopen

/-! ### Taking the cut buffer apart

What the parser makes of a response that is cut short. -/

namespace RespMsg

variable {r : RespMsg}

/-- `parse_response` on a cut message: it fails within the head, and within chunks. -/
theorem Declares.parse_cut (hr : r.Declares) {raw rest : Bytes} (hcut : raw ++ rest = r.bytes)
    (hrest : rest ≠ []) :
    (∃ e, parseResponse raw = .error e) ↔
      raw.length < r.head.length + 4 ∨ saysChunked r.head = true := by
  -- the cut is within the head, or in the content
  obtain ⟨hend, hshort⟩ | ⟨b, rfl, hb⟩ := cut_head hr.toHeadOk hcut
  · have hparse : ∃ e, parseResponse raw = .error e := by
      rw [parseResponse, hend]
      exact ⟨_, rfl⟩
    exact ⟨fun _ => Or.inl hshort, fun _ => hparse⟩
  obtain ⟨block, resp, location, hblock, -, hparse⟩ := parseResponse_head hr.toHeadOk hr.fields_ne_nil b
  have hsame : saysChunked block = saysChunked r.head := by
    rw [saysChunked, saysChunked, hblock, (findHeaderValue_framing hr.toHeadOk).2]
  have hlen : ¬(r.head ++ (crlf ++ crlf ++ b)).length < r.head.length + 4 := by
    simp
  rw [hparse]
  -- chunks cut short are an error, a length cut short is not
  cases hchunked : saysChunked r.head with
  | true =>
    refine ⟨fun _ => Or.inr rfl, fun _ => ?_⟩
    rw [responseBody, hsame, hchunked, if_pos rfl]
    cases hscan : chunkedScan b with
    | done payload => exact absurd hscan (hr.chunks_open hchunked hb hrest payload)
    | more => exact ⟨_, rfl⟩
    | bad => exact ⟨_, rfl⟩
  | false =>
    constructor
    · rintro ⟨e, he⟩
      rw [responseBody, hsame, hchunked, if_neg Bool.false_ne_true] at he
      split at he
      · cases he
      · dsimp only at he
        split at he
        · cases he
        · cases he
    · rintro (hshort | hfalse)
      · exact absurd hshort hlen
      · cases hfalse

end RespMsg

/-- **A response that ends too early.** The stream ends before a response that declares its
framing is whole, wherever that is and however the stream splits what it has. The client then
fails if and only if the head is not whole either, or the first Transfer-Encoding names chunked,
or there is more than it takes; else it gives out what it has as the whole body. -/
theorem truncated_response (r : RespMsg) (hr : r.Declares) (reads : List Bytes) (rest : Bytes)
    (hcut : reads.flatten ++ rest = r.bytes) (hrest : rest ≠ [])
    (hsize : ∀ b ∈ reads, b ≠ [] ∧ b.length ≤ 8192) (io : HttpIo) (conn : HttpConn)
    (more : List (Except Int Bytes)) (hconn : conn.reads = reads.map .ok ++ more)
    (heof : AtEof more) (deadline : Nat) (htime : InTime io deadline) :
    (∀ out, (readResponse io conn deadline).1 = .ok out → ∃ e, parseResponse out = .error e) ↔
      reads.flatten.length < r.head.length + 4 ∨ saysChunked r.head = true ∨
        ZCIO_HTTP_MAX_RESPONSE < reads.flatten.length := by
  have hopen : ∀ a, a <+: [] ++ reads.flatten → a.length ≤ ZCIO_HTTP_MAX_RESPONSE →
      ((respFraming a).map fun f => respComplete f a) ≠ some (some true) := by
    rintro a ⟨t, ht⟩ hmax
    refine hr.not_complete (y := t ++ rest) ?_ (List.append_ne_nil_of_right_ne_nil t hrest) hmax
    rw [← List.append_assoc, ht, List.nil_append, hcut]
  obtain ⟨result, io', conn', hloop, hresult⟩ :=
    readResponse_toEof heof hsize htime hconn (Nat.zero_le _) hopen
  rw [List.nil_append] at hresult
  rw [readResponse, show ({ io, conn } : RespRead) =
    { io, conn, out := [], framing := respFraming [] } from rfl, hloop]
  obtain ⟨rfl, hmax⟩ | ⟨⟨e, rfl⟩, hwhy⟩ := hresult
  · have hparse := hr.parse_cut hcut hrest
    constructor
    · intro h
      obtain hshort | hchunked := hparse.mp (h _ rfl)
      · exact Or.inl hshort
      · exact Or.inr (Or.inl hchunked)
    · rintro (hshort | hchunked | hlong) out hout
      · exact Except.ok.inj hout ▸ hparse.mpr (Or.inl hshort)
      · exact Except.ok.inj hout ▸ hparse.mpr (Or.inr hchunked)
      · exact absurd hmax (Nat.not_le.mpr hlong)
  · -- the client has failed while it was reading
    refine ⟨fun _ => ?_, fun _ out hout => by cases hout⟩
    obtain hlong | ⟨a, ⟨t, ht⟩, hbad⟩ := hwhy
    · exact Or.inr (Or.inr hlong)
    · refine Or.inr (Or.inl (Bool.not_eq_false _ ▸ fun hchunked => ?_))
      refine RespMsg.not_malformed hr.toHeadOk hchunked (y := t ++ rest) ?_ hbad
      rw [← List.append_assoc, ht, hcut]

/-- The chunks end within the size of the second. -/
def cutReads : List Bytes :=
  [str "HTTP/1.1 200 OK\r\nTransfer-Encoding: Chunked\r\n\r\n0a;x=1\r\n01234", str "56789\r\n1"]

theorem sampleResponse_declares : sampleResponse.Declares where
  toHeadOk := sampleResponse_final.headOk
  declared := ⟨by decide, ⟨str "Chunked", by decide, by decide⟩,
    sampleResponse_final.laxChunked rfl⟩

theorem truncated_response_chunked :
    (∀ out, (readResponse {} { reads := cutReads.map .ok ++ [.ok []], number := 0, tls := false } 0).1 = .ok out →
        ∃ e, parseResponse out = .error e) ↔
      cutReads.flatten.length < sampleResponse.head.length + 4 ∨
        saysChunked sampleResponse.head = true ∨ ZCIO_HTTP_MAX_RESPONSE < cutReads.flatten.length :=
  truncated_response sampleResponse sampleResponse_declares cutReads
    (str "\r\na\r\n00\r\nTrailer: v\r\n\r\n") (by decide) (by decide) (by decide) {} _
    [.ok []] rfl (Or.inr ⟨[], rfl⟩) 0 (Or.inl rfl)

/-- Three of the five octets that are declared. -/
def shortResponse : RespMsg where
  major := 49
  minor := 49
  code := str "200"
  reason := some (str "OK")
  fields := [{ name := str "Content-Length", pre := str " ", value := str "5" }]
  body := .length (str "abcde")

def shortReads : List Bytes := [str "HTTP/1.1 200 OK\r\nContent-Length: 5\r\n\r\nab", str "c"]

theorem shortResponse_declares : shortResponse.Declares where
  version := by decide
  code := by decide +kernel
  reason := by
    intro text htext
    obtain rfl : str "OK" = text := Option.some.inj htext
    decide
  fields := by
    intro f hf
    obtain rfl := List.mem_singleton.mp hf
    exact ⟨by decide, by decide, by decide +kernel, by decide +kernel⟩
  declared := by
    refine ⟨by decide, by decide, ?_⟩
    intro v hv
    obtain rfl : v = str "5" := List.mem_singleton.mp hv
    exact ⟨by decide, by decide +kernel, by decide⟩

/-- The three octets are taken for the body. -/
theorem truncated_response_taken :
    shortResponse.Declares ∧ shortReads.flatten ++ str "de" = shortResponse.bytes ∧
      ∃ out resp location,
        (readResponse {} { reads := shortReads.map .ok, number := 0, tls := false } 0).1 = .ok out ∧
        parseResponse out = .ok (resp, location) ∧ resp.status = 200 ∧ resp.body = str "abc" := by
  refine ⟨shortResponse_declares, by decide, shortReads.flatten,
    { protocol := str "HTTP", version := str "1.1", statusCode := str "200", statusText := str "OK"
      headersJson := str "\x7b\"Content-Length\":\"5\"\x7d", body := str "abc", status := 200 },
    none, ?_, ?_, rfl, rfl⟩
  · decide
  · decide

end Zcio.Http
