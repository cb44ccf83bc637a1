import Zcio.Http.Session
import Zcio.Http.Truncated

/-!
# Zcio.Http.Resend

When a keep-alive session sends a request again. Each part of an attempt is described by what it
adds to the records, and the two attempts of a call are put together from that (`sendsOnce_iff`).
That says when a request goes out twice in terms of the attempts themselves. The condition on a run
of calls is one on what the transport will bring: the octets that the first connection gives are a
response (`Answers`), or the second one does not take the request. A deadline that cuts the first
attempt off also keeps the second from sending, so that no condition on the clock is needed.
-/

namespace Zcio.Http

/-! ### The deadline

The deadline of a request is over, and stays over. -/

/-- The deadline is over, now and later. -/
def Expired (io : HttpIo) (deadline : Nat) : Prop := deadline ≠ 0 ∧ deadline ≤ io.now

theorem Expired.of_remaining {io : HttpIo} {deadline : Nat}
    (h : (deadlineRemainingMs io deadline).1 = 0) : Expired (deadlineRemainingMs io deadline).2 deadline := by
  unfold deadlineRemainingMs at h ⊢
  split at h
  · exact absurd h (show (-1 : Int) ≠ 0 by decide)
  · rename_i hne
    rw [if_neg hne]
    dsimp only at h ⊢
    split at h
    · rename_i hle
      exact ⟨hne, hle⟩
    · rename_i hlt
      omega

theorem Expired.remaining {io : HttpIo} {deadline : Nat} (h : Expired io deadline) :
    (deadlineRemainingMs io deadline).1 = 0 := by
  have hle : (httpNow io).1 ≥ deadline := Nat.le_trans h.2 (Nat.le_add_right _ _)
  rw [deadlineRemainingMs, if_neg h.1]
  exact if_pos hle

/-! ### A response that can be read

Reading with a deadline and reading without one see the same octets, so that a response that
can be read is read by both unless the time runs out. -/

/-- What a read gives depends on what the stream holds only. -/
theorem httpRead_same {c c' : HttpConn} (h : c.reads = c'.reads) (n : Nat) :
    (httpRead c n).1 = (httpRead c' n).1 ∧ (httpRead c n).2.reads = (httpRead c' n).2.reads := by
  unfold httpRead
  rw [← h]
  cases hreads : c.reads with
  | nil => exact ⟨rfl, by rw [← h, hreads]⟩
  | cons r reads =>
    cases r with
    | error e => exact ⟨rfl, rfl⟩
    | ok b =>
      dsimp only
      split
      · exact ⟨rfl, rfl⟩
      · exact ⟨rfl, rfl⟩

/-- The two reads are of the same octets. -/
def SameRead (s s' : RespRead) : Prop :=
  s.conn.reads = s'.conn.reads ∧ s.out = s'.out ∧ s.framing = s'.framing

/-- A round with a deadline finds it over, or does what the round without one does. -/
theorem readResponseRound_timed (deadline : Nat) {s s' : RespRead} (h : SameRead s s') :
    match readResponseRound deadline s, readResponseRound 0 s' with
    | .inl t, .inl t' => SameRead t t'
    | .inr r, .inl _ => Expired r.2.1 deadline
    | .inr r, .inr r' => Expired r.2.1 deadline ∨ r.1 = r'.1
    | .inl _, .inr _ => False := by
  obtain ⟨hreads, hout, hframing⟩ := h
  have hexpired := @Expired.of_remaining s.io deadline
  have hread := @httpRead_same (s.conn.setTimeout (deadlineRemainingMs s.io deadline).1)
    (s'.conn.setTimeout (-1)) (by rw [setTimeout_reads, setTimeout_reads, hreads]) 8192
  unfold readResponseRound
  rw [show deadlineRemainingMs s'.io 0 = (-1, s'.io) from rfl]
  dsimp only
  -- the two reads see the same octets, under their own timeouts
  generalize deadlineRemainingMs s.io deadline = rem at hexpired hread ⊢
  generalize httpRead (s.conn.setTimeout rem.1) 8192 = r at hread ⊢
  generalize httpRead (s'.conn.setTimeout (-1)) 8192 = r' at hread ⊢
  obtain ⟨got, conn⟩ := r
  obtain ⟨got', conn'⟩ := r'
  obtain ⟨rfl, hleft⟩ := hread
  rw [if_neg (show ¬(-1 : Int) = 0 by decide), ← hout, ← hframing]
  -- the deadline is over: the timed round may end where the other goes on
  by_cases hrem : rem.1 = 0
  · rw [if_pos hrem]
    split
    · rename_i heq _
      cases heq
    · rename_i heq _
      cases heq
      exact hexpired hrem
    · rename_i heq _
      cases heq
      exact Or.inl (hexpired hrem)
    · rename_i heq _
      cases heq
  · -- time is left, and the branches of the two rounds agree
    rw [if_neg hrem]
    cases got with
    | error e => exact Or.inr rfl
    | ok chunk =>
      cases chunk with
      | nil => exact Or.inr rfl
      | cons c chunk =>
        dsimp only
        by_cases hlong : s.out.length + (c :: chunk).length > ZCIO_HTTP_MAX_RESPONSE
        · rw [if_pos hlong, if_pos hlong]
          exact Or.inr rfl
        · rw [if_neg hlong, if_neg hlong]
          cases (s.framing.or (respFraming (s.out ++ c :: chunk))).map
            fun f => respComplete f (s.out ++ c :: chunk) with
          -- neither framed nor complete: both go on with the same octets
          | none => exact ⟨hleft, rfl, rfl⟩
          | some test =>
            match test with
            | none => exact Or.inr rfl
            | some true => exact Or.inr rfl
            | some false => exact ⟨hleft, rfl, rfl⟩

/-- **A deadline cuts the reading of a response off, or does not show in the result.** -/
theorem readResponse_timed (deadline : Nat) (io io' : HttpIo) {conn conn' : HttpConn}
    (h : conn.reads = conn'.reads) :
    Expired (readResponse io conn deadline).2.1 deadline ∨
      (readResponse io conn deadline).1 = (readResponse io' conn' 0).1 := by
  refine Lib.loop_induct (readResponseRound_decreases deadline)
    (P := fun s r => ∀ s', SameRead s s' → Expired r.2.1 deadline ∨
      r.1 = (Lib.loop (readResponseRound 0) _ (readResponseRound_decreases 0) s').1)
    ?_ ?_ { io, conn } { io := io', conn := conn' } ⟨h, rfl, rfl⟩
  · intro s r hround s' hsame
    have hboth := readResponseRound_timed deadline hsame
    rw [hround] at hboth
    cases hround' : readResponseRound 0 s' with
    | inl t' =>
      rw [hround'] at hboth
      exact Or.inl hboth
    | inr r' =>
      rw [hround'] at hboth
      rw [Lib.loop_of_inr hround']
      exact hboth
  · intro s t r hround ih s' hsame
    have hboth := readResponseRound_timed deadline hsame
    rw [hround] at hboth
    cases hround' : readResponseRound 0 s' with
    | inl t' =>
      rw [hround'] at hboth
      rw [Lib.loop_of_inl hround']
      exact ih t' hboth
    | inr r' =>
      rw [hround'] at hboth
      exact hboth.elim

/-- What a connection brings is a response that the client can read: a final one with its framing,
and anything behind it; or one that is not chunked, with a whole head, up to the end of the stream. -/
inductive Answers : List (Except Int Bytes) → Prop
  | framed {r : RespMsg} {parts : List Bytes} {further : Bytes} (more : List (Except Int Bytes))
      (final : r.Final) (octets : parts.flatten = r.bytes ++ further)
      (sizes : ∀ b ∈ parts, b ≠ [] ∧ b.length ≤ 8192)
      (cap : (readsFor r.bytes.length parts).1.flatten.length ≤ ZCIO_HTTP_MAX_RESPONSE) :
      Answers (parts.map .ok ++ more)
  | toEof {r : RespMsg} {parts : List Bytes} {content : Bytes} {more : List (Except Int Bytes)}
      (head : r.HeadOk) (fields : r.fields ≠ []) (plain : saysChunked r.head = false)
      (octets : parts.flatten = r.head ++ (crlf ++ crlf ++ content))
      (sizes : ∀ b ∈ parts, b ≠ [] ∧ b.length ≤ 8192)
      (cap : parts.flatten.length ≤ ZCIO_HTTP_MAX_RESPONSE) (eof : AtEof more) :
      Answers (parts.map .ok ++ more)

/-- A response that is not chunked can be taken apart as soon as its head is whole. -/
theorem parseResponse_plain {r : RespMsg} (hr : r.HeadOk) (hfields : r.fields ≠ [])
    (hplain : saysChunked r.head = false) (s : Bytes) :
    (parseResponse (r.head ++ (crlf ++ crlf ++ s))).toBool = true := by
  obtain ⟨block, resp, location, hblock, -, hparse⟩ := RespMsg.parseResponse_head hr hfields s
  have hsame : saysChunked block = saysChunked r.head := by
    rw [saysChunked, saysChunked, hblock, (RespMsg.findHeaderValue_framing hr).2]
  rw [hparse, responseBody, hsame, hplain, if_neg Bool.false_ne_true]
  split
  · rfl
  · dsimp only
    split
    · rfl
    · rfl

/-- A part of a response that is not chunked has no framing yet, or the head is whole. -/
theorem respFraming_plain {r : RespMsg} (hr : r.HeadOk) (hplain : saysChunked r.head = false)
    {a y content : Bytes} (hcut : a ++ y = r.head ++ (crlf ++ crlf ++ content)) :
    respFraming a = none ∨
      ∃ f s, a = r.head ++ (crlf ++ crlf ++ s) ∧ respFraming a = some f ∧ f.chunked = false := by
  have hr' : { r with body := .length content }.HeadOk := ⟨hr.version, hr.code, hr.reason, hr.fields⟩
  have hbytes := RespMsg.bytes_eq { r with body := .length content }
  obtain ⟨hend, -⟩ | ⟨s, rfl, -⟩ := RespMsg.cut_head hr' (hcut.trans hbytes.symm)
  · left
    rw [respFraming, hend]
    rfl
  · exact .inr ⟨_, s, rfl, RespMsg.respFraming_seen hr' s, hplain⟩

/-- The reads of a response that is not chunked end with its length or with the stream. -/
theorem readResponse_plain {r : RespMsg} (hr : r.HeadOk) (hplain : saysChunked r.head = false)
    {more : List (Except Int Bytes)} (heof : AtEof more) {whole content : Bytes}
    (hwhole : whole = r.head ++ (crlf ++ crlf ++ content)) (hcap : whole.length ≤ ZCIO_HTTP_MAX_RESPONSE)
    {parts : List Bytes} (hsize : ∀ b ∈ parts, b ≠ [] ∧ b.length ≤ 8192) :
    ∀ (io : HttpIo) {conn : HttpConn} (out : Bytes), conn.reads = parts.map .ok ++ more →
      out ++ parts.flatten = whole →
      ∃ s, (Lib.loop (readResponseRound 0) _ (readResponseRound_decreases 0)
        { io, conn, out, framing := respFraming out }).1 = .ok (r.head ++ (crlf ++ crlf ++ s)) := by
  -- a chunk of the response a round; framing may be known early or never
  induction parts with
  | nil =>
    intro io conn out hconn hout
    obtain ⟨io', conn', hround⟩ :=
      @readResponseRound_eof 0 io conn out (respFraming out) (Or.inl rfl) (hconn ▸ heof)
    refine ⟨content, ?_⟩
    rw [List.flatten_nil, List.append_nil] at hout
    rw [Lib.loop_of_inr hround, hout, hwhole]
  -- the chunk fits below the cap, as the whole does
  | cons b parts ih =>
    intro io conn out hconn hout
    have hout' : (out ++ b) ++ parts.flatten = whole := by
      rw [List.append_assoc]
      exact hout
    have hcap' : (out ++ b).length ≤ ZCIO_HTTP_MAX_RESPONSE :=
      Nat.le_trans (List.IsPrefix.length_le ⟨_, hout'⟩) hcap
    have hnext := fun {io conn} => @ih (fun x hx => hsize x (List.mem_cons_of_mem _ hx)) io conn (out ++ b)
    obtain ⟨io', conn', -, hconn', hround⟩ :=
      readResponseRound_chunk (Or.inl rfl) hconn (hsize b List.mem_cons_self) hcap'
    -- no framing found so far, and the read goes on to the end of the input
    obtain hnone | ⟨f, s, hs, hframing, hchunked⟩ := respFraming_plain hr hplain (hout'.trans hwhole)
    · rw [hnone] at hround
      rw [Lib.loop_of_inl hround, ← hnone]
      exact hnext hconn' hout'
    · rw [hframing, Option.map_some, respComplete, if_neg (Bool.eq_false_iff.mp hchunked)] at hround
      -- a declared length: the read may stop in front of the end
      cases hcomplete : decide (0 ≤ f.contentLen ∧ f.contentLen ≤ ((out ++ b).drop f.bodyOff).length) with
      | true =>
        rw [hcomplete] at hround
        refine ⟨s, ?_⟩
        rw [Lib.loop_of_inr hround, hs]
      | false =>
        rw [hcomplete] at hround
        rw [Lib.loop_of_inl hround, ← hframing]
        exact hnext hconn' hout'

/-- A connection that answers brings a response that can be parsed, or the deadline is over. -/
theorem Answers.response (io : HttpIo) {conn : HttpConn} (h : Answers conn.reads) (deadline : Nat) :
    Expired (readResponse io conn deadline).2.1 deadline ∨
      ∃ raw, (readResponse io conn deadline).1 = .ok raw ∧ raw ≠ [] ∧ (parseResponse raw).toBool = true := by
  refine (readResponse_timed deadline io io (rfl : conn.reads = conn.reads)).imp_right fun hsame => ?_
  rw [hsame]
  generalize hreads : conn.reads = reads at h
  cases h with
  | @framed r parts further more final octets sizes cap =>
    obtain ⟨io', conn', resp, location, hread, -, hparse, -⟩ :=
      readResponse_reads final octets sizes cap hreads (Or.inl rfl : InTime io 0)
    obtain ⟨x, hx⟩ := readsFor_flatten octets
    refine ⟨_, congrArg Prod.fst hread, ?_, ?_⟩
    · rw [hx, RespMsg.bytes_eq]
      simp
    · rw [hparse]
      rfl
  | @toEof r parts content more head fields plain octets sizes cap eof =>
    obtain ⟨s, hread⟩ := readResponse_plain head plain eof octets cap sizes io [] hreads rfl
    exact ⟨_, hread, by simp, parseResponse_plain head fields plain s⟩

/-! ### Parts of an attempt

Connecting, sending, reading: what each of them adds to the record of requests on the wire.
-/

theorem buildRequest_ne_nil {a : HttpArgs} {u : ZcioUrl} {req : Bytes} (h : buildRequest a u = .ok req) :
    req ≠ [] := by
  unfold buildRequest at h
  split at h
  · cases h
  · cases h
    simp

/-- What `httpSend` says of a request it records. -/
theorem httpSend_whole {req : Bytes} (hreq : req ≠ []) (io : HttpIo) (conn : HttpConn) :
    ∃ x, (httpSend io conn req).2.1.sent = io.sent ++ [x] ∧ x.conn = conn.number ∧
      (x.put = x.req.length ↔ (httpSend io conn req).1 = true) ∧
      (httpSend io conn req).2.1.dials = io.dials ∧ (httpSend io conn req).2.1.peers = io.peers := by
  refine ⟨_, rfl, rfl, ?_, rfl, rfl⟩
  have hpos := List.length_pos_iff.mpr hreq
  dsimp only [httpSend]
  cases (zcioWriteFull httpWrite conn req).1 with
  | error e =>
    simp [Except.toOption]
    omega
  | ok n => simp [Except.toOption]

/-- Whether `httpSend` gets a request out depends on the writes of the connection only. -/
theorem httpSend_takes (io : HttpIo) (conn : HttpConn) (req : Bytes) :
    (httpSend io conn req).1 = writesTake conn.writes req.length := by
  have htakes := writeFrom_takes req.length conn req 0 (le_refl _)
  rw [Nat.zero_add] at htakes
  rw [Bool.eq_iff_iff, ← htakes]
  exact beq_iff_eq

theorem httpSend_reads (io : HttpIo) (conn : HttpConn) (req : Bytes) :
    (httpSend io conn req).2.2.reads = conn.reads := writeFrom_reads _ conn req 0

@[simp] theorem setTimeout_writes (c : HttpConn) (rem : Int) : (c.setTimeout rem).writes = c.writes := by
  unfold HttpConn.setTimeout
  split
  · rfl
  · rfl

@[simp] theorem setTimeout_number (c : HttpConn) (rem : Int) : (c.setTimeout rem).number = c.number := by
  unfold HttpConn.setTimeout
  split
  · rfl
  · rfl

/-- What an attempt adds: nothing, or the request on its connection, whole or not. -/
def AddsRequest (io io' : HttpIo) (conn : Nat) (whole : Bool) : Prop :=
  io'.dials = io.dials ∧ io'.peers = io.peers ∧
    ∃ s, io'.sent = io.sent ++ s ∧ s.length ≤ 1 ∧ (∀ x ∈ s, x.conn = conn) ∧
      ((∃ x ∈ s, x.put = x.req.length) ↔ whole = true)

theorem AddsRequest.nothing {io io' : HttpIo} (h : io.Same io') (conn : Nat) :
    AddsRequest io io' conn false :=
  ⟨h.dials, h.peers, [], by rw [h.sent, List.append_nil], Nat.zero_le 1,
    fun _ hx => absurd hx List.not_mem_nil, by simp⟩

theorem AddsRequest.same {io io' io'' : HttpIo} {conn : Nat} {whole : Bool}
    (h : AddsRequest io io' conn whole) (h' : io'.Same io'') : AddsRequest io io'' conn whole := by
  obtain ⟨hd, hp, s, hs, hrest⟩ := h
  exact ⟨h'.dials.trans hd, h'.peers.trans hp, s, h'.sent.trans hs, hrest⟩

/-- What an attempt on a connection does. -/
theorem sessionOn_adds {sess : HttpSession} {call : SessionCall} {req : Bytes}
    (hreq : sessionBuild sess call = .ok req) (deadline : Nat) (io : HttpIo) (conn : HttpConn) :
    AddsRequest io (sessionOn sess call deadline io conn).2.2 conn.number
      (takesRequest deadline io conn req) := by
  have hsame := deadlineRemainingMs_same io deadline
  have hsend := httpSend_whole (buildRequest_ne_nil hreq) (deadlineRemainingMs io deadline).2
    (conn.setTimeout (deadlineRemainingMs io deadline).1)
  rw [sessionOn, hreq, takesRequest]
  dsimp only
  generalize deadlineRemainingMs io deadline = rem at hsame hsend
  generalize httpSend rem.2 (conn.setTimeout rem.1) req = sent at hsend
  obtain ⟨x, hx, hconn, hwhole, hd, hp⟩ := hsend
  have hsent : AddsRequest io sent.2.1 conn.number sent.1 := by
    refine ⟨hd.trans hsame.dials, hp.trans hsame.peers, [x], by rw [hx, hsame.sent], le_refl 1, ?_, ?_⟩
    · intro y hy
      rw [List.mem_singleton.mp hy, hconn, setTimeout_number]
    · rw [← hwhole]
      simp
  have hread := hsent.same (readResponse_same sent.2.1 sent.2.2 deadline)
  generalize readResponse sent.2.1 sent.2.2 deadline = read at hread
  -- without a stream, or with no time left, nothing is written
  cases hstream : conn.hasStream with
  | false => exact .nothing (.refl io) _
  | true =>
    rw [Bool.true_and, if_neg (by decide)]
    by_cases hrem : rem.1 = 0
    · rw [if_pos hrem, bne_eq_false_iff_eq.mpr hrem]
      exact .nothing hsame _
    · rw [if_neg hrem, bne_iff_ne.mpr hrem, Bool.true_and]
      -- the send failed in the middle, or the request is on the wire as a whole
      cases hput : sent.1 with
      | false =>
        rw [hput] at hsent
        exact hsent
      | true =>
        rw [hput] at hread
        rw [if_neg (by decide)]
        -- reading the response writes nothing
        split
        · exact hread
        · exact hread
        · split
          · exact hread
          · exact hread

/-- The connection is lost, or the attempt succeeds, or the deadline is over. -/
theorem sessionOn_lost {sess : HttpSession} {call : SessionCall} {req : Bytes}
    (hreq : sessionBuild sess call = .ok req) (deadline : Nat) (io : HttpIo) (conn : HttpConn) :
    match lostConn deadline io conn req with
    | some io' => ∃ e, sessionOn sess call deadline io conn = (.error e, sessionDrop sess, io')
    | none => (∃ resp s', sessionOn sess call deadline io conn = (.ok resp, s')) ∨
        ∃ e sess' io', sessionOn sess call deadline io conn = (.error e, sess', io') ∧
          Expired io' deadline := by
  have hexpired := @Expired.of_remaining io deadline
  have htrue : ¬(!true) = true := by decide
  rw [sessionOn, hreq, lostConn]
  dsimp only
  generalize deadlineRemainingMs io deadline = rem at hexpired
  generalize httpSend rem.2 (conn.setTimeout rem.1) req = sent
  generalize readResponse sent.2.1 sent.2.2 deadline = read
  -- the connection is lost where there is no stream
  cases hstream : conn.hasStream with
  | false => exact ⟨_, rfl⟩
  | true =>
    simp only [if_neg htrue]
    -- a deadline that is over is an error of its own, and not a loss
    by_cases hrem : rem.1 = 0
    · simp only [if_pos hrem]
      exact Or.inr ⟨_, _, _, rfl, hexpired hrem⟩
    · simp only [if_neg hrem]
      -- lost on the send, on the read, on an empty answer or one that is no response
      cases hput : sent.1 with
      | false => exact ⟨_, rfl⟩
      | true =>
        simp only [if_neg htrue]
        cases hread : read.1 with
        | error e => exact ⟨_, rfl⟩
        | ok raw =>
          cases raw with
          | nil => exact ⟨_, rfl⟩
          | cons c raw =>
            dsimp only
            cases hparse : parseResponse (c :: raw) with
            | error e => exact ⟨_, rfl⟩
            | ok r => exact Or.inl ⟨_, _, rfl⟩

/-- A request that cannot be built is not sent. -/
theorem sessionOn_unbuilt {sess : HttpSession} {call : SessionCall} {e : HttpFail}
    (hreq : sessionBuild sess call = .error e) (deadline : Nat) (io : HttpIo) (conn : HttpConn) :
    (sessionOn sess call deadline io conn).2.2 = io ∧
      (sessionOn sess call deadline io conn).2.1.origin = sess.origin := by
  rw [sessionOn, hreq]
  dsimp only
  split
  · exact ⟨rfl, rfl⟩
  · exact ⟨rfl, rfl⟩

/-! ### New connections

A connection dialled afresh has a number that no request was sent under. -/

theorem freshConn_some {origin : ZcioUrl} {connectTimeoutMs : Int} {deadline : Nat} {io io' : HttpIo}
    {conn : HttpConn} (h : freshConn origin connectTimeoutMs deadline io = some (conn, io')) :
    conn.number = io.dials.length ∧ io.peers = .ok conn.toHttpPeer :: io'.peers ∧ io'.sent = io.sent ∧
      io'.dials.length = io.dials.length + 1 := by
  have hsame := deadlineRemainingMs_same io deadline
  unfold freshConn at h
  dsimp only at h
  generalize deadlineRemainingMs io deadline = rem at h hsame
  split at h
  · cases h
  · unfold sessionConnect httpConnect at h
    dsimp only at h
    rw [hsame.peers] at h
    cases hpeers : io.peers with
    | nil =>
      rw [hpeers] at h
      cases h
    | cons p peers =>
      rw [hpeers, List.headD_cons] at h
      cases p with
      | error e => cases h
      | ok p =>
        cases h
        refine ⟨congrArg List.length hsame.dials, rfl, hsame.sent, ?_⟩
        show (rem.2.dials ++ [_]).length = _
        rw [List.length_append, hsame.dials]
        rfl

theorem firstConnection_ok {io : HttpIo} {p : HttpPeer} {peers : List (Except Bytes HttpPeer)}
    (h : io.peers = .ok p :: peers) : firstConnection io = io.dials.length := by
  rw [firstConnection, h]
  rfl

/-- Where there is no new connection, the attempt fails and sends nothing, and a connection that is
made next is the first. -/
theorem exchange_unconnected {sess : HttpSession} (hclient : sess.client = none) (call : SessionCall)
    {connectTimeoutMs : Int} {deadline : Nat} {io : HttpIo}
    (h : freshConn sess.origin connectTimeoutMs deadline io = none) :
    ∃ e io', sessionExchangeOnce sess call connectTimeoutMs deadline io = (.error e, sess, io') ∧
      io'.sent = io.sent ∧ ∀ conn io'', freshConn sess.origin connectTimeoutMs deadline io' = some (conn, io'') →
        conn.number = firstConnection io := by
  have hsame := deadlineRemainingMs_same io deadline
  have hexpired := @Expired.of_remaining io deadline
  rw [sessionExchangeOnce]
  unfold freshConn at h
  dsimp only at h ⊢
  generalize deadlineRemainingMs io deadline = rem at h hsame hexpired
  -- the deadline was over, and is over for the next attempt too
  by_cases hrem : rem.1 = 0
  · rw [if_pos hrem]
    refine ⟨_, _, rfl, hsame.sent, ?_⟩
    intro conn io'' hconn
    unfold freshConn at hconn
    dsimp only at hconn
    rw [if_pos (hexpired hrem).remaining] at hconn
    cases hconn
  · rw [if_neg hrem] at h ⊢
    unfold sessionConnect httpConnect at h ⊢
    rw [hclient]
    dsimp only at h ⊢
    rw [hsame.peers] at h ⊢
    -- no peer answers, or the dial fails: the next connection has the next number
    cases hpeers : io.peers with
    | nil =>
      refine ⟨_, _, rfl, hsame.sent, ?_⟩
      intro conn io'' hconn
      obtain ⟨-, hp, -⟩ := freshConn_some hconn
      cases hp
    | cons p peers =>
      rw [hpeers, List.headD_cons] at h
      cases p with
      | ok p => cases h
      | error e =>
        refine ⟨_, _, rfl, hsame.sent, ?_⟩
        intro conn io'' hconn
        obtain ⟨hnumber, hp, -⟩ := freshConn_some hconn
        have hp' : peers = .ok conn.toHttpPeer :: io''.peers := hp
        have hdials : conn.number = (rem.2.dials ++ [_]).length := hnumber
        rw [hdials, List.length_append, hsame.dials, firstConnection, hpeers, hp']
        rfl

/-- The attempt on a new connection. -/
theorem exchange_connected {sess : HttpSession} (hclient : sess.client = none) {call : SessionCall}
    {connectTimeoutMs : Int} {deadline : Nat} {io io' : HttpIo} {conn : HttpConn}
    (h : freshConn sess.origin connectTimeoutMs deadline io = some (conn, io')) :
    sessionExchangeOnce sess call connectTimeoutMs deadline io = sessionOn sess call deadline io' conn := by
  unfold freshConn at h
  rw [sessionExchangeOnce]
  dsimp only at h ⊢
  generalize deadlineRemainingMs io deadline = rem at h
  split at h
  · cases h
  · rename_i hrem
    have hconnect : ∀ limits io, sessionConnect sess limits io = sessionConnect { origin := sess.origin } limits io := by
      intro limits io
      rw [sessionConnect, hclient]
      rfl
    rw [if_neg hrem, hconnect]
    obtain ⟨conn', hok, heq⟩ := Option.map_eq_some_iff.mp h
    cases hc : (sessionConnect { origin := sess.origin } (connectLimits rem.1 connectTimeoutMs) rem.2).1 with
    | error e =>
      rw [hc] at hok
      cases hok
    | ok conn'' =>
      rw [hc] at hok
      cases hok
      cases heq
      rfl

/-- Where the deadline is over, an attempt sends nothing. -/
theorem exchange_expired {sess : HttpSession} {call : SessionCall} {connectTimeoutMs : Int}
    {deadline : Nat} {io : HttpIo} (h : Expired io deadline) :
    (sessionExchangeOnce sess call connectTimeoutMs deadline io).2.2.sent = io.sent := by
  rw [sessionExchangeOnce]
  dsimp only
  rw [if_pos h.remaining]
  exact (deadlineRemainingMs_same io deadline).sent

theorem sessionConnect_sent (sess : HttpSession) (limits : Int × Int) (io : HttpIo) :
    (sessionConnect sess limits io).2.sent = io.sent := by
  unfold sessionConnect
  split
  · rfl
  · dsimp only
    split
    · rfl
    · rfl

/-- A request that cannot be built is not sent. -/
theorem exchange_unbuilt {sess : HttpSession} {call : SessionCall} {e : HttpFail}
    (hreq : sessionBuild sess call = .error e) (connectTimeoutMs : Int) (deadline : Nat) (io : HttpIo) :
    (sessionExchangeOnce sess call connectTimeoutMs deadline io).2.2.sent = io.sent ∧
      (sessionExchangeOnce sess call connectTimeoutMs deadline io).2.1.origin = sess.origin := by
  have hsame := deadlineRemainingMs_same io deadline
  rw [sessionExchangeOnce]
  dsimp only
  generalize deadlineRemainingMs io deadline = rem at hsame
  split
  · exact ⟨hsame.sent, rfl⟩
  · have hsent := (sessionConnect_sent sess (connectLimits rem.1 connectTimeoutMs) rem.2).trans hsame.sent
    generalize sessionConnect sess (connectLimits rem.1 connectTimeoutMs) rem.2 = c at hsent
    split
    · exact ⟨hsent, rfl⟩
    · obtain ⟨hio, horigin⟩ := sessionOn_unbuilt hreq deadline c.2 _
      exact ⟨(congrArg HttpIo.sent hio).trans hsent, horigin⟩

/-- What an attempt of a session without a connection adds: a request on a new connection. -/
theorem exchange_adds {sess : HttpSession} (hclient : sess.client = none) {call : SessionCall} {req : Bytes}
    (hreq : sessionBuild sess call = .ok req) (connectTimeoutMs : Int) (deadline : Nat) (io : HttpIo) :
    ∃ t, (sessionExchangeOnce sess call connectTimeoutMs deadline io).2.2.sent = io.sent ++ t ∧
      t.length ≤ 1 ∧ (∀ x ∈ t, ∃ c, freshConn sess.origin connectTimeoutMs deadline io = some c ∧ x.conn = c.1.number) ∧
      ((∃ x ∈ t, x.put = x.req.length) ↔ (freshConn sess.origin connectTimeoutMs deadline io).any
        (fun c => takesRequest deadline c.2 c.1 req) = true) := by
  cases hfresh : freshConn sess.origin connectTimeoutMs deadline io with
  | none =>
    obtain ⟨e, io', hattempt, hsent, -⟩ := exchange_unconnected hclient call hfresh
    rw [hattempt]
    exact ⟨[], by rw [hsent, List.append_nil], Nat.zero_le 1, fun _ hx => absurd hx List.not_mem_nil,
      by simp⟩
  | some c =>
    obtain ⟨-, -, hsent, -⟩ := freshConn_some hfresh
    obtain ⟨-, -, t, ht, hlen, hconn, hwhole⟩ := sessionOn_adds hreq deadline c.2 c.1
    rw [exchange_connected hclient hfresh]
    exact ⟨t, by rw [ht, hsent], hlen, fun x hx => ⟨c, rfl, hconn x hx⟩, hwhole⟩

/-! ### A call

The request is sent twice exactly when the first connection was lost with the whole request
on it and the second took the whole of it, too. -/

namespace SessionStep

theorem sentWhole_eq {s : SessionStep} {t : List HttpSent} (h : s.after.2.sent = s.io.sent ++ t) :
    s.sentWhole = t.filter fun x => x.put == x.req.length := by
  rw [sentWhole, h, List.drop_left]

/-- One request on the first connection, and behind it none that is whole. -/
theorem sendsOnce_of_sent {s : SessionStep} {t t' : List HttpSent}
    (h : s.after.2.sent = s.io.sent ++ (t ++ t')) (hlen : t.length ≤ 1)
    (ht : ∀ x ∈ t, x.conn = firstConnection s.io) (ht' : ∀ x ∈ t', x.put ≠ x.req.length) :
    s.SendsOnce := by
  intro _
  have hnone : t'.filter (fun x => x.put == x.req.length) = [] := by
    refine List.filter_eq_nil_iff.mpr ?_
    intro x hx hput
    exact ht' x hx (beq_iff_eq.mp hput)
  rw [sentWhole_eq h, List.filter_append, hnone, List.append_nil]
  exact ⟨(List.length_filter_le _ t).trans hlen, fun x hx => ht x (List.mem_of_mem_filter hx)⟩

theorem sendsOnce_of_one {s : SessionStep} {t : List HttpSent} (h : s.after.2.sent = s.io.sent ++ t)
    (hlen : t.length ≤ 1) (ht : ∀ x ∈ t, x.conn = firstConnection s.io) : s.SendsOnce :=
  sendsOnce_of_sent (by rw [h, List.append_nil] : s.after.2.sent = s.io.sent ++ (t ++ [])) hlen ht
    fun _ hx => absurd hx List.not_mem_nil

theorem sendsOnce_of_same {s : SessionStep} (h : s.after.2.sent = s.io.sent) : s.SendsOnce :=
  sendsOnce_of_one (t := []) (by rw [h, List.append_nil]) (Nat.zero_le 1)
    fun _ hx => absurd hx List.not_mem_nil

/-- A call whose request cannot be built. -/
theorem sendsOnce_unbuilt {s : SessionStep} {e : HttpFail} (hreq : sessionBuild s.sess s.call = .error e) :
    s.SendsOnce := by
  refine sendsOnce_of_same ?_
  have hsame := callDeadline_same s.call.opts s.io
  obtain ⟨hsent, horigin⟩ := exchange_unbuilt hreq (callDeadline s.call.opts s.io).1
    (callDeadline s.call.opts s.io).2.1 (callDeadline s.call.opts s.io).2.2
  rw [after, zcioHttpSessionRequest]
  cases hfirst : sessionExchangeOnce s.sess s.call (callDeadline s.call.opts s.io).1
      (callDeadline s.call.opts s.io).2.1 (callDeadline s.call.opts s.io).2.2 with
  | mk res p =>
    rw [hfirst] at hsent horigin
    have hfirstSent : p.2.sent = s.io.sent := hsent.trans hsame.sent
    cases res with
    | ok resp => exact hfirstSent
    | error e' =>
      have hreq' : sessionBuild p.1 s.call = .error e := by
        rw [← hreq, sessionBuild, sessionBuild, horigin]
      exact (exchange_unbuilt hreq' _ _ p.2).1.trans hfirstSent

/-- The condition on a call whose session has no connection. -/
theorem resends_eq {sess : HttpSession} {call : SessionCall} {req : Bytes} (hclient : sess.client = none)
    (hreq : sessionBuild sess call = .ok req) (io : HttpIo) :
    let d := callDeadline call.opts io
    resends ⟨sess, io, call⟩ =
      (freshConn sess.origin d.1 d.2.1 d.2.2).any fun c =>
        (lostConn d.2.1 c.2 c.1 req).any fun io' =>
          (freshConn sess.origin d.1 d.2.1 io').any fun c' => takesRequest d.2.1 c'.2 c'.1 req := by
  simp [resends, hclient, hreq, Except.toOption]

/-- The first attempt makes no connection: the second may make the first one. -/
theorem sendsOnce_unconnected {sess : HttpSession} {call : SessionCall} {req : Bytes} {io : HttpIo}
    (hclient : sess.client = none) (hreq : sessionBuild sess call = .ok req)
    (hfresh : freshConn sess.origin (callDeadline call.opts io).1 (callDeadline call.opts io).2.1
      (callDeadline call.opts io).2.2 = none) : SendsOnce ⟨sess, io, call⟩ := by
  have hsame := callDeadline_same call.opts io
  have hafter : after ⟨sess, io, call⟩ = (zcioHttpSessionRequest sess call io).2 := rfl
  obtain ⟨e, io', hattempt, hsent, hnext⟩ := exchange_unconnected hclient call hfresh
  rw [zcioHttpSessionRequest] at hafter
  generalize callDeadline call.opts io = d at *
  obtain ⟨t, ht, hlen, hconn, -⟩ := exchange_adds hclient hreq d.1 d.2.1 io'
  rw [hattempt] at hafter
  refine sendsOnce_of_one (t := t) ?_ hlen ?_
  · rw [hafter]
    exact ht.trans (by rw [hsent, hsame.sent])
  · intro x hx
    obtain ⟨c, hc, hx'⟩ := hconn x hx
    show x.conn = firstConnection io
    rw [hx', hnext c.1 c.2 hc, firstConnection, firstConnection, hsame.dials, hsame.peers]

/-- The first attempt makes the first connection: the request is sent again exactly if that is lost
and the next one takes it. -/
theorem sendsOnce_connected {sess : HttpSession} {call : SessionCall} {req : Bytes} {io io' : HttpIo}
    {conn : HttpConn} (hclient : sess.client = none) (hreq : sessionBuild sess call = .ok req)
    (hfresh : freshConn sess.origin (callDeadline call.opts io).1 (callDeadline call.opts io).2.1
      (callDeadline call.opts io).2.2 = some (conn, io')) :
    SendsOnce ⟨sess, io, call⟩ ↔
      ((lostConn (callDeadline call.opts io).2.1 io' conn req).any fun io'' =>
        (freshConn sess.origin (callDeadline call.opts io).1 (callDeadline call.opts io).2.1 io'').any
          fun c => takesRequest (callDeadline call.opts io).2.1 c.2 c.1 req) = false := by
  have hsame := callDeadline_same call.opts io
  have hafter : after ⟨sess, io, call⟩ = (zcioHttpSessionRequest sess call io).2 := rfl
  obtain ⟨hnumber, hpeers, hsent, hdials⟩ := freshConn_some hfresh
  rw [zcioHttpSessionRequest] at hafter
  generalize callDeadline call.opts io = d at *
  have hfirst : firstConnection io = conn.number := by
    rw [hnumber, firstConnection_ok (hsame.peers ▸ hpeers), hsame.dials]
  obtain ⟨hd, -, t, ht, hlen, hconn, -⟩ := sessionOn_adds hreq d.2.1 io' conn
  have hlost := sessionOn_lost hreq d.2.1 io' conn
  rw [exchange_connected hclient hfresh] at hafter
  cases hio : lostConn d.2.1 io' conn req with
  | none =>
    rw [hio] at hlost
    refine iff_of_true ?_ rfl
    refine sendsOnce_of_one (t := t) ?_ hlen fun x hx => (hconn x hx).trans hfirst.symm
    rw [hafter]
    rcases hlost with ⟨resp, s', hok⟩ | ⟨e, sess', io'', herr, hexpired⟩
    · rw [hok] at ht ⊢
      exact ht.trans (by rw [hsent, hsame.sent])
    · rw [herr] at ht ⊢
      exact (exchange_expired hexpired).trans (ht.trans (by rw [hsent, hsame.sent]))
  | some io'' =>
    rw [hio] at hlost
    obtain ⟨e, herr⟩ := hlost
    rw [herr] at hafter ht hd
    have hreq' : sessionBuild (sessionDrop sess) call = .ok req := hreq
    obtain ⟨t', ht', -, hconn', hwhole⟩ := exchange_adds (rfl : (sessionDrop sess).client = none) hreq' d.1 d.2.1 io''
    have hall : (after ⟨sess, io, call⟩).2.sent = io.sent ++ (t ++ t') := by
      rw [hafter]
      exact ht'.trans (by rw [ht, hsent, hsame.sent, List.append_assoc])
    refine ⟨fun h => ?_, fun h => ?_⟩
    · -- the second attempt is on another connection
      by_contra hagain
      obtain ⟨x, hx, hput⟩ := hwhole.mpr (Bool.not_eq_false _ ▸ hagain)
      have hmem : x ∈ (⟨sess, io, call⟩ : SessionStep).sentWhole := by
        rw [sentWhole_eq hall]
        exact List.mem_filter.mpr ⟨List.mem_append_right t hx, beq_iff_eq.mpr hput⟩
      have hx' := (h (by rw [hclient]; rfl)).2 x hmem
      obtain ⟨c, hc, hxc⟩ := hconn' x hx
      obtain ⟨hnumber', -⟩ := freshConn_some hc
      have hd' : io''.dials = io'.dials := hd
      have hx'' : x.conn = firstConnection io := hx'
      rw [hfirst, hxc, hnumber', hd', hdials, hnumber] at hx''
      exact absurd hx'' (Nat.succ_ne_self _)
    · refine sendsOnce_of_sent hall hlen (fun x hx => (hconn x hx).trans hfirst.symm) ?_
      intro x hx hput
      have hagain := hwhole.mp ⟨x, hx, hput⟩
      rw [show (sessionDrop sess).origin = sess.origin from rfl] at hagain
      rw [Option.any_some] at h
      exact absurd (h.symm.trans hagain) Bool.false_ne_true

/-- **Exactly when a call sends its request again.** -/
theorem sendsOnce_iff (s : SessionStep) : s.SendsOnce ↔ s.resends = false := by
  obtain ⟨sess, io, call⟩ := s
  cases hclient : sess.client with
  | some conn =>
    have hresends : resends ⟨sess, io, call⟩ = false := by
      simp [resends, hclient]
    refine iff_of_true ?_ hresends
    intro hnone
    simp [hclient] at hnone
  | none =>
    cases hreq : sessionBuild sess call with
    | error e =>
      have hresends : resends ⟨sess, io, call⟩ = false := by
        simp [resends, hreq, Except.toOption]
      exact iff_of_true (sendsOnce_unbuilt hreq) hresends
    | ok req =>
      rw [resends_eq hclient hreq]
      cases hfresh : freshConn sess.origin (callDeadline call.opts io).1 (callDeadline call.opts io).2.1
          (callDeadline call.opts io).2.2 with
      | none => exact iff_of_true (sendsOnce_unconnected hclient hreq hfresh) rfl
      | some c => exact sendsOnce_connected hclient hreq hfresh

end SessionStep

/-! ### Runs

A server that answers on the connection it was asked on is never asked twice. -/

/-- The condition on a call: its session has a connection. Or else, where its request can be built
and the next two connects both succeed, the first connection takes the request and answers it, or
the second does not take it. -/
def SessionStep.AnsweredFirst (s : SessionStep) : Prop :=
  s.sess.client.isSome = true ∨
    ∀ req p p' peers, sessionBuild s.sess s.call = .ok req → s.io.peers = .ok p :: .ok p' :: peers →
      (p.takes req.length = true ∧ Answers p.reads) ∨ p'.takes req.length = false

/-- A connection that takes the request and answers it is not lost before the deadline. -/
theorem lostConn_answered {deadline : Nat} {io io' : HttpIo} {conn : HttpConn} {req : Bytes}
    (htakes : conn.takes req.length = true) (hanswers : Answers conn.reads)
    (h : lostConn deadline io conn req = some io') : Expired io' deadline := by
  obtain ⟨hstream, hwrites⟩ := Bool.and_eq_true_iff.mp htakes
  have htrue : ¬(!true) = true := by decide
  have hreads := httpSend_reads (deadlineRemainingMs io deadline).2
    (conn.setTimeout (deadlineRemainingMs io deadline).1) req
  have hsend := httpSend_takes (deadlineRemainingMs io deadline).2
    (conn.setTimeout (deadlineRemainingMs io deadline).1) req
  rw [setTimeout_reads] at hreads
  rw [setTimeout_writes, hwrites] at hsend
  rw [lostConn, hstream] at h
  dsimp only at h
  generalize deadlineRemainingMs io deadline = rem at h hsend hreads
  generalize httpSend rem.2 (conn.setTimeout rem.1) req = sent at h hsend hreads
  have hread := Answers.response sent.2.1 (hreads ▸ hanswers) deadline
  generalize readResponse sent.2.1 sent.2.2 deadline = read at h hread
  rw [if_neg htrue] at h
  split at h
  · cases h
  · rw [hsend, if_neg htrue] at h
    obtain hexpired | ⟨raw, hraw, hne, hparse⟩ := hread
    · split at h
      · cases h
        exact hexpired
      · cases h
        exact hexpired
      · split at h
        · cases h
        · cases h
          exact hexpired
    · rw [hraw] at h
      obtain ⟨c, raw, rfl⟩ := List.exists_cons_of_ne_nil hne
      dsimp only at h
      rw [if_pos hparse] at h
      cases h

theorem lostConn_peers {deadline : Nat} {io io' : HttpIo} {conn : HttpConn} {req : Bytes}
    (h : lostConn deadline io conn req = some io') : io'.peers = io.peers := by
  have hsame := deadlineRemainingMs_same io deadline
  rw [lostConn] at h
  dsimp only at h
  generalize deadlineRemainingMs io deadline = rem at h hsame
  have hsent : (httpSend rem.2 (conn.setTimeout rem.1) req).2.1.peers = rem.2.peers := rfl
  generalize httpSend rem.2 (conn.setTimeout rem.1) req = sent at h hsent
  have hread := (readResponse_same sent.2.1 sent.2.2 deadline).peers
  generalize readResponse sent.2.1 sent.2.2 deadline = read at h hread
  have hkept : read.2.1.peers = io.peers := hread.trans (hsent.trans hsame.peers)
  split at h
  · cases h
    rfl
  · split at h
    · cases h
    · split at h
      · cases h
        exact hsent.trans hsame.peers
      · split at h
        · cases h
          exact hkept
        · cases h
          exact hkept
        · split at h
          · cases h
          · cases h
            exact hkept

namespace SessionStep

/-- Such a call does not send its request again. -/
theorem AnsweredFirst.resends {s : SessionStep} (h : s.AnsweredFirst) : s.resends = false := by
  obtain ⟨sess, io, call⟩ := s
  obtain hclient | hpeers := h
  · obtain ⟨conn, hconn⟩ := Option.isSome_iff_exists.mp hclient
    have hkept : sess.client = some conn := hconn
    simp [SessionStep.resends, hkept]
  · cases hclient : sess.client with
    | some conn => simp [SessionStep.resends, hclient]
    | none =>
      cases hreq : sessionBuild sess call with
      | error e => simp [SessionStep.resends, hreq, Except.toOption]
      | ok req =>
        have hsame := callDeadline_same call.opts io
        rw [resends_eq hclient hreq]
        generalize callDeadline call.opts io = d at hsame
        simp only [Option.any_eq_false]
        intro c hfresh io' hlost c' hfresh'
        -- both connects succeed
        obtain ⟨-, hfirst, -⟩ := freshConn_some hfresh
        obtain ⟨-, hsecond, -⟩ := freshConn_some hfresh'
        rw [hsame.peers, ← lostConn_peers hlost, hsecond] at hfirst
        obtain ⟨htakes, hanswers⟩ | hrefuses := hpeers req _ _ _ hreq hfirst
        · have hexpired := lostConn_answered htakes hanswers hlost
          unfold freshConn at hfresh'
          dsimp only at hfresh'
          rw [if_pos hexpired.remaining] at hfresh'
          cases hfresh'
        · have hsend := httpSend_takes (deadlineRemainingMs c'.2 d.2.1).2
            (c'.1.setTimeout (deadlineRemainingMs c'.2 d.2.1).1) req
          rw [setTimeout_writes] at hsend
          rw [takesRequest, hsend, Bool.and_right_comm, show (c'.1.hasStream && writesTake c'.1.writes req.length) = false
            from hrefuses]
          rfl

end SessionStep

/-- **A session sends a request at most once, unless it reused a connection**, in the runs where no
call finds a first new connection that does not answer and a second one that takes the request. -/
theorem sessionRun_sendsOnce (sess : HttpSession) (io : HttpIo) (calls : List SessionCall)
    (h : ∀ s ∈ sessionRun sess io calls, s.AnsweredFirst) : ∀ s ∈ sessionRun sess io calls, s.SendsOnce := by
  intro s hs
  exact s.sendsOnce_iff.mpr (h s hs).resends

def payment : SessionCall where
  args := { method := some (str "POST"), headers := [], body := some (str "pay"), bodyLen := 3 }
  path := some (str "/orders")
  opts := none

/-- A server that answers the first connection it takes. -/
def answeringServer : HttpIo where
  peers := [.ok { reads := [.ok sampleResponse.bytes] }, .ok {}]

theorem answeringServer_answers : Answers [.ok sampleResponse.bytes] :=
  @Answers.framed sampleResponse [sampleResponse.bytes] [] [] sampleResponse_final (by decide) (by decide)
    (by decide +kernel)

/-- The second call finds the connection of the first. -/
theorem payments_sent_once :
    ∃ s₁ s₂, sessionRun { origin := ⟨str "http", false, str "shop", 80, str "/"⟩ } answeringServer [payment, payment] =
      [s₁, s₂] ∧ s₁.SendsOnce ∧ s₂.SendsOnce := by
  have hall := sessionRun_sendsOnce { origin := ⟨str "http", false, str "shop", 80, str "/"⟩ } answeringServer
    [payment, payment] ?_
  · exact ⟨_, _, rfl, hall _ List.mem_cons_self, hall _ (List.mem_cons_of_mem _ List.mem_cons_self)⟩
  intro s hs
  obtain rfl | hs := List.mem_cons.mp hs
  · refine .inr fun req p p' peers _ hpeers => .inl ?_
    cases hpeers
    refine ⟨?_, answeringServer_answers⟩
    show writesTake [] req.length = true
    cases req.length <;> rfl
  · obtain rfl := List.mem_singleton.mp hs
    exact .inl (by decide +kernel)

/-- A server that takes the first request and closes without an answer, and answers the second. -/
def closingServer : HttpIo where
  peers := [.ok {}, .ok { reads := [.ok (str "HTTP/1.1 200 OK\r\nContent-Length: 0\r\n\r\n")] }]

/-- The first call of a session already sends its request on two connections. -/
theorem payment_sent_twice : ∃ sess,
    zcioHttpSessionCreate (some (str "http://shop")) closingServer = (some sess, closingServer) ∧
      ¬∀ s ∈ sessionRun sess closingServer [payment], s.SendsOnce := by
  refine ⟨{ origin := ⟨str "http", false, str "shop", 80, str "/"⟩ }, rfl, ?_⟩
  decide +kernel

end Zcio.Http
