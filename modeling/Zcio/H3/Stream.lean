import Zcio.Qpack.Codec
import Zcio.HttpUtil.Target
import Zcio.Server.Dispatch

/-!
# Zcio.H3.Stream

One HTTP/3 request stream of `h3.c`: the frame parser, the decoding of the HEADERS frame,
dispatch on FIN and the response.

The QUIC engine of OpenSSL is not modelled. What it does to a stream is the input: a
`H3Pass` lists the reads of one call of `h3_stream_read` and how they ended, and what comes of
the writes of the response. The requests the handler was given before, on whatever stream,
come with each pass.

`log`, `out` and `concluded` are not in the source. They record the calls of
`zhs_dispatch_`, the octets the stream took and that our side was concluded.
-/

namespace Zcio

/-! Frame types. -/
def H3_FRAME_DATA : Nat := 0x00
def H3_FRAME_HEADERS : Nat := 0x01

/-! ### Variable-length integers

RFC 9000 16: the length is in the top two bits. -/

/-- `h3_varint`: the length of the integer `p` starts with and its value; `none` when `p`
does not hold all of it. -/
def h3Varint : Bytes → Option (Nat × Nat)
  | [] => none
  | b :: rest =>
    let len := 1 <<< (b.toNat >>> 6)
    if rest.length + 1 < len then none
    else some (len, (rest.take (len - 1)).foldl (fun v x => v <<< 8 ||| x.toNat) (b.toNat &&& 0x3f))

/-- `h3_put_varint`. -/
def h3PutVarint (v : Nat) : Bytes :=
  let at' (n : Nat) : UInt8 := UInt8.ofNat (v >>> n)
  if v ≤ 0x3f then [at' 0]
  else if v ≤ 0x3fff then [0x40 ||| at' 8, at' 0]
  else if v ≤ 0x3fffffff then [0x80 ||| at' 24, at' 16, at' 8, at' 0]
  else [0xc0 ||| at' 56, at' 48, at' 40, at' 32, at' 24, at' 16, at' 8, at' 0]

theorem h3Varint_pos {p : Bytes} {n v : Nat} (h : h3Varint p = some (n, v)) :
    0 < n ∧ n ≤ p.length := by
  cases p with
  | nil => cases h
  | cons b rest =>
    rw [h3Varint] at h
    split at h
    · cases h
    · rename_i hlen
      cases h
      refine ⟨?_, by rw [List.length_cons]; omega⟩
      rw [Nat.one_shiftLeft]
      exact Nat.two_pow_pos _

/-! ### State -/

/-- `ZH3_PS_*`: what the frame parser is in the middle of. -/
inductive H3PState where
  | hdr
  | headers
  | data
  | skip
  deriving Repr, DecidableEq

/-- What does not change over a connection's life. -/
structure H3Cfg where
  srv : Server
  lim : ZhsLimits

/-- Default limits in front of a silent handler. -/
def H3Cfg.silent : H3Cfg := { srv := .silent, lim := zhsLimitsResolve {} }

/-- `zh3_stream`. -/
structure Zh3Stream where
  id : Nat
  isUni : Bool := false
  fin : Bool := false
  headersSeen : Bool := false
  dispatched : Bool := false
  done : Bool := false
  pstate : H3PState := .hdr
  fremain : Nat := 0
  inp : Bytes := []
  hdr : Bytes := []
  req : HttpReq := {}
  log : List HttpReq := []
  out : Bytes := []
  concluded : Bool := false
  deriving Repr, DecidableEq

/-- `h3_stream_new`. -/
def h3StreamNew (id : Nat) (isUni : Bool) : Zh3Stream := { id, isUni }

/-! ### Header decoding

The sink of the QPACK decoder, and what is made of the fields it has taken. -/

/-- `h3_hdr_ctx`. `fields` (not in the source) records the regular fields. -/
structure H3HdrCtx where
  method : Option Bytes := none
  path : Option Bytes := none
  scheme : Option Bytes := none
  authority : Option Bytes := none
  regularSeen : Bool := false
  bad : Bool := false
  headers : ZhsHdrs := {}
  fields : List (Bytes × Bytes) := []
  deriving Repr, DecidableEq

/-- A malformed request; the decoder goes on. -/
def H3HdrCtx.fail (x : H3HdrCtx) : H3HdrCtx × Int := ({ x with bad := true }, 0)

/-- `h3_conn_specific`. -/
def h3ConnSpecific (n : Bytes) : Bool :=
  [str "connection", str "keep-alive", str "proxy-connection", str "transfer-encoding",
    str "upgrade"].contains n

/-- The pseudo-header half of `h3_emit`: a known name, once, with a non-empty clean value,
before any regular field. -/
def h3EmitPseudo (x : H3HdrCtx) (name value : Bytes) : H3HdrCtx × Int :=
  if x.regularSeen then x.fail
  else if !zhsValueOk value then x.fail
  else if name = str ":method" then
    if x.method.isSome ∨ value = [] then x.fail else ({ x with method := some value }, 0)
  else if name = str ":path" then
    if x.path.isSome ∨ value = [] then x.fail else ({ x with path := some value }, 0)
  else if name = str ":scheme" then
    if x.scheme.isSome ∨ value = [] then x.fail else ({ x with scheme := some value }, 0)
  else if name = str ":authority" then
    if x.authority.isSome ∨ value = [] then x.fail else ({ x with authority := some value }, 0)
  else x.fail

/-- The regular-field half of `h3_emit`. -/
def h3EmitRegular (lim : ZhsLimits) (x : H3HdrCtx) (name value : Bytes) : H3HdrCtx × Int :=
  let x := { x with regularSeen := true }
  if !zhsLowerTokenOk name then x.fail
  else if !zhsValueOk value then x.fail
  else if h3ConnSpecific name then x.fail
  else if name = str "te" ∧ value ≠ str "trailers" then x.fail
  else
    match x.headers.add name value lim false with
    | .error _ => x.fail
    | .ok headers => ({ x with headers, fields := x.fields ++ [(name, value)] }, 0)

/-- `h3_emit`: nothing is looked at behind the first malformed field. -/
def h3Emit (lim : ZhsLimits) : EmitFn H3HdrCtx := fun x name value =>
  if x.bad then (x, 0)
  else if name.head? = some 58 then h3EmitPseudo x name value
  else h3EmitRegular lim x name value

/-- The request of a decoded field section; the authority is taken as it is. -/
def h3Head (lim : ZhsLimits) (req : HttpReq) (ok : Bool) (x : H3HdrCtx) : Except Fail HttpReq :=
  match x.method, x.path, x.scheme with
  | some method, some target, some _ =>
    if !ok ∨ x.bad then zcioFail .protocol "http3: malformed request headers"
    else
      match zhsDecodeTarget (cstr target) lim with
      | .error _ => zcioFail .protocol "http3: malformed request headers"
      | .ok (path, query) =>
        .ok { req with
          method := some (cstr method)
          isHead := cstr method == str "HEAD"
          path := some path
          query
          authority := (x.authority.map cstr).or req.authority
          headers := x.headers
          raw := { method, target, authority := x.authority, fields := x.fields } }
  | _, _, _ => zcioFail .protocol "http3: malformed request headers"

/-- `h3_decode_headers`: the buffered HEADERS payload becomes the stream's request. -/
def h3DecodeHeaders (lim : ZhsLimits) (st : Zh3Stream) : Except Fail Zh3Stream :=
  if st.hdr.length = 0 then zcioFail .protocol "http3: empty HEADERS frame"
  else
    let r := zqpDecode st.hdr lim.maxHeaderBytes (h3Emit lim) { headers := st.req.headers }
    (h3Head lim st.req (r.1 == .ok) r.2).map fun req => { st with req, hdr := [] }

/-! ### The frame parser

A round reads a frame header or a part of a payload. What a round can do is said once, in
`H3Move`. -/

/-- The state a frame header leads to: the payload of the first HEADERS frame and of DATA
frames is used, everything else is skipped. -/
def h3FrameState (lim : ZhsLimits) (st : Zh3Stream) (ftype flen : Nat) : Except Fail H3PState :=
  if ftype = H3_FRAME_HEADERS ∧ !st.headersSeen then
    if flen > lim.maxHeaderBytes then zcioFail .protocol "http3: HEADERS frame exceeds header cap"
    else .ok .headers
  else if ftype = H3_FRAME_DATA then .ok .data
  else .ok .skip

/-- What is taken of the current frame's payload. -/
def h3Take (st : Zh3Stream) : Nat := min st.inp.length st.fremain

/-- The payload taken off the input. -/
def h3Consume (st : Zh3Stream) : Zh3Stream :=
  { st with inp := st.inp.drop (h3Take st), fremain := st.fremain - h3Take st }

/-- The text of the error when the body grows too large. -/
def h3BodyCapFail (lim : ZhsLimits) : Fail :=
  ⟨.protocol, "http3: request body exceeds " ++ toString lim.maxBodyBytes ++ "-byte cap"⟩

/-- One round of `h3_parse`; the loop ends with the stream, and an error if there was one. -/
def h3ParseRound (lim : ZhsLimits) (st : Zh3Stream) : Zh3Stream ⊕ (Zh3Stream × Option Fail) :=
  match st.pstate with
  | .hdr =>
    match h3Varint st.inp with
    | none => .inr (st, none)
    | some (n1, ftype) =>
      match h3Varint (st.inp.drop n1) with
      | none => .inr (st, none)
      | some (n2, flen) =>
        let st := { st with inp := st.inp.drop (n1 + n2) }
        match h3FrameState lim st ftype flen with
        | .error e => .inr (st, some e)
        | .ok pstate => .inl { st with pstate, fremain := flen }
  | .headers =>
    if st.fremain > 0 ∧ st.inp.length = 0 then .inr (st, none)
    else
      let st := { h3Consume st with hdr := st.hdr ++ st.inp.take (h3Take st) }
      if st.fremain = 0 then
        match h3DecodeHeaders lim st with
        | .error e => .inr (st, some e)
        | .ok st => .inl { st with headersSeen := true, pstate := .hdr }
      else .inl st
  | .data =>
    if st.fremain > 0 ∧ st.inp.length = 0 then .inr (st, none)
    else if st.fremain > 0 ∧ h3Take st > lim.maxBodyBytes - st.req.body.length then
      .inr (st, some (h3BodyCapFail lim))
    else
      let st := { h3Consume st with
        req := { st.req with body := st.req.body ++ st.inp.take (h3Take st) } }
      .inl (if st.fremain = 0 then { st with pstate := .hdr } else st)
  | .skip =>
    if st.fremain > 0 ∧ st.inp.length = 0 then .inr (st, none)
    else
      let st := h3Consume st
      .inl (if st.fremain = 0 then { st with pstate := .hdr } else st)

/-- The measure of the parser: the end of a frame takes no octet, but leads back to the
frame header. -/
def h3Measure (st : Zh3Stream) : Nat := 2 * st.inp.length + if st.pstate = .hdr then 0 else 1

/-- Taking payload off the input, up to the end of the frame, is progress. -/
theorem h3Consume_measure {st : Zh3Stream}
    (hmore : ¬(st.fremain > 0 ∧ st.inp.length = 0)) :
    (h3Consume st).inp.length ≤ st.inp.length ∧
      ((h3Consume st).fremain ≠ 0 → (h3Consume st).inp.length < st.inp.length) := by
  simp only [h3Consume, h3Take, List.length_drop]
  omega

theorem h3DecodeHeaders_inp {lim : ZhsLimits} {st st' : Zh3Stream}
    (h : h3DecodeHeaders lim st = .ok st') : st' = { st with req := st'.req, hdr := [] } := by
  unfold h3DecodeHeaders at h
  split at h
  · cases h
  · dsimp only at h
    cases hr : h3Head lim st.req _ _ with
    | error e => rw [hr] at h; cases h
    | ok req => rw [hr] at h; cases h; rfl

theorem h3ParseRound_decreases (lim : ZhsLimits) :
    Lib.Decreases (h3ParseRound lim) h3Measure := by
  intro st st' h
  unfold h3ParseRound at h
  split at h
  · -- a frame header
    rename_i hst
    split at h
    · cases h
    · rename_i n1 ftype h1
      split at h
      · cases h
      · rename_i n2 flen h2
        obtain ⟨hpos1, hle1⟩ := h3Varint_pos h1
        obtain ⟨hpos2, hle2⟩ := h3Varint_pos h2
        rw [List.length_drop] at hle2
        dsimp only at h
        split at h
        · cases h
        · cases h
          simp only [h3Measure, hst, if_true, List.length_drop]
          split <;> omega
  · -- HEADERS payload
    rename_i hst
    split at h
    · cases h
    · rename_i hmore
      obtain ⟨hle, hlt⟩ := h3Consume_measure hmore
      dsimp only at h
      split at h
      · split at h
        · cases h
        · rename_i st₁ hdec
          cases h
          rw [h3DecodeHeaders_inp hdec]
          simp only [h3Measure, hst, if_true, reduceCtorEq, if_false]
          omega
      · rename_i hrem
        cases h
        have := hlt hrem
        simp only [h3Measure, h3Consume, hst, reduceCtorEq, if_false] at this ⊢
        omega
  · -- DATA payload
    rename_i hst
    split at h
    · cases h
    · rename_i hmore
      obtain ⟨hle, hlt⟩ := h3Consume_measure hmore
      split at h
      · cases h
      · dsimp only at h
        cases h
        split
        · simp only [h3Measure, hst, if_true, reduceCtorEq, if_false]
          omega
        · rename_i hrem
          have := hlt hrem
          simp only [h3Measure, h3Consume, hst, reduceCtorEq, if_false] at this ⊢
          omega
  · -- a skipped payload
    rename_i hst
    split at h
    · cases h
    · rename_i hmore
      obtain ⟨hle, hlt⟩ := h3Consume_measure hmore
      dsimp only at h
      cases h
      split
      · simp only [h3Measure, hst, if_true, reduceCtorEq, if_false]
        omega
      · rename_i hrem
        have := hlt hrem
        simp only [h3Measure, h3Consume, hst, reduceCtorEq, if_false] at this ⊢
        omega

/-- `h3_parse`. -/
def h3Parse (lim : ZhsLimits) (st : Zh3Stream) : Zh3Stream × Option Fail :=
  Lib.loop (h3ParseRound lim) _ (h3ParseRound_decreases lim) st

/-- **What a round of the parser can do to a stream.** -/
inductive H3Move (lim : ZhsLimits) (st : Zh3Stream) : Zh3Stream → Prop where
  /-- More octets are needed, or the next ones are refused. -/
  | stay : H3Move lim st st
  /-- A HEADERS frame that is too large. -/
  | refused {n : Nat} : H3Move lim st { st with inp := st.inp.drop n }
  | header {n flen : Nat} {pstate : H3PState} : st.pstate = .hdr →
      (pstate = .headers → st.headersSeen = false) →
      H3Move lim st { st with inp := st.inp.drop n, pstate, fremain := flen }
  | headersPart : st.pstate = .headers →
      H3Move lim st { h3Consume st with hdr := st.hdr ++ st.inp.take (h3Take st) }
  | headersEnd {st' : Zh3Stream} : st.pstate = .headers →
      h3DecodeHeaders lim
        { h3Consume st with hdr := st.hdr ++ st.inp.take (h3Take st) } = .ok st' →
      H3Move lim st { st' with headersSeen := true, pstate := .hdr }
  | data {pstate : H3PState} : pstate = .data ∨ pstate = .hdr →
      (st.inp.take (h3Take st)).length ≤ lim.maxBodyBytes - st.req.body.length →
      H3Move lim st { h3Consume st with
        req := { st.req with body := st.req.body ++ st.inp.take (h3Take st) }, pstate }
  | skip {pstate : H3PState} : pstate = .skip ∨ pstate = .hdr →
      H3Move lim st { h3Consume st with pstate }

/-- The stream behind a round, whether the loop goes on or not. -/
def h3RoundEnd : Zh3Stream ⊕ (Zh3Stream × Option Fail) → Zh3Stream
  | .inl st => st
  | .inr r => r.1

/-- **Inverting a round.** -/
theorem h3ParseRound_move (lim : ZhsLimits) (st : Zh3Stream) :
    H3Move lim st (h3RoundEnd (h3ParseRound lim st)) := by
  unfold h3ParseRound
  split
  · rename_i hst
    split
    · exact .stay
    · split
      · exact .stay
      · dsimp only
        split
        · exact .refused
        · rename_i pstate hps
          refine .header hst fun hp => ?_
          subst hp
          unfold h3FrameState at hps
          split at hps
          · rename_i hcond
            simpa using hcond.2
          · split at hps
            · cases hps
            · cases hps
  · rename_i hst
    split
    · exact .stay
    · dsimp only
      split
      · split
        · exact .headersPart hst
        · rename_i st' hdec
          exact .headersEnd hst hdec
      · exact .headersPart hst
  · rename_i hst
    split
    · exact .stay
    · split
      · exact .stay
      · rename_i hmore hcap
        have hlen : (st.inp.take (h3Take st)).length ≤ lim.maxBodyBytes - st.req.body.length := by
          rw [List.length_take]
          by_cases h0 : st.fremain > 0
          · have hle : ¬h3Take st > lim.maxBodyBytes - st.req.body.length := fun h => hcap ⟨h0, h⟩
            omega
          · have : h3Take st = 0 := by unfold h3Take; omega
            omega
        dsimp only [h3RoundEnd]
        split
        · exact .data (.inr rfl) hlen
        · have hmove := @H3Move.data lim st .data (.inl rfl) hlen
          rwa [← hst] at hmove
  · rename_i hst
    split
    · exact .stay
    · dsimp only [h3RoundEnd]
      split
      · exact .skip (.inr rfl)
      · have hmove := @H3Move.skip lim st .skip (.inl rfl)
        rwa [← hst] at hmove

/-- **The invariant rule of the parser.** -/
theorem h3Parse_inv {I : Zh3Stream → Prop} {lim : ZhsLimits}
    (step : ∀ st st', I st → H3Move lim st st' → I st') {st : Zh3Stream} (hs : I st) :
    I (h3Parse lim st).1 := by
  refine Lib.loop_inv (h3ParseRound_decreases lim) (I := I) (Q := fun r => I r.1) ?_ ?_ hs
  · intro st st' hi hb
    have hmove := h3ParseRound_move lim st
    rw [hb] at hmove
    exact step _ _ hi hmove
  · intro st r hi hb
    have hmove := h3ParseRound_move lim st
    rw [hb] at hmove
    exact step _ _ hi hmove

/-! ### Responding

A response is built as a whole and written until the transport stalls or fails. -/

/-- A frame on the wire: type, length, payload. -/
def h3FrameBytes (ftype : Nat) (payload : Bytes) : Bytes :=
  h3PutVarint ftype ++ h3PutVarint payload.length ++ payload

/-- `h3_encode_field`: the name is forced to lower case. -/
def h3EncodeField (h : Bytes × Bytes) : Bytes :=
  if h.1 = [] then [] else zqpEncode (lower h.1) h.2

/-- The field section of a response. -/
def h3FieldSection (status : Nat) (hdrs : List (Bytes × Bytes)) : Bytes :=
  zqpPrefixEncode ++ zqpEncodeStatus status ++ (hdrs.map h3EncodeField).flatten

/-- The octets of a response: a HEADERS frame, and a DATA frame unless there is no body. -/
def h3ResponseBytes (isHead : Bool) (status : Nat) (hdrs : List (Bytes × Bytes))
    (body : RespBody) : Bytes :=
  let noBody := isHead || status < 200 || status == 204 || status == 304
  h3FrameBytes H3_FRAME_HEADERS (h3FieldSection status hdrs) ++
    (match body with
      | .null _ => []
      | .data b => if noBody || b.isEmpty then [] else h3FrameBytes H3_FRAME_DATA b)

/-- What comes of a call of `SSL_write_ex`: an octet is taken and `more` of them, or none for now, or
the stream fails. -/
inductive H3Write where
  | took (more : Nat)
  | want
  | failed
  deriving Repr, DecidableEq

/-- `ZH3_WRITE_STALL`: the calls in a row that may take nothing. -/
def ZH3_WRITE_STALL : Nat := 1000

/-- `h3_stream_write_all`: the octets that the stream takes, and whether these are all of `p`. A call
that `writes` says nothing about takes what is left. -/
def h3StreamWriteAll : List H3Write → Nat → Bytes → Bytes × Bool
  | [], _, p => (p, true)
  | w :: writes, stalls, p =>
    if p = [] then ([], true)
    else
      match w with
      | .took more =>
        let r := h3StreamWriteAll writes 0 (p.drop (more + 1))
        (p.take (more + 1) ++ r.1, r.2)
      | .want =>
        if stalls + 1 > ZH3_WRITE_STALL then ([], false) else h3StreamWriteAll writes (stalls + 1) p
      | .failed => ([], false)

/-- `h3_respond`, called through a request with that `is_head`. The send side is concluded even when
the response has not been written whole. -/
def h3Respond (isHead : Bool) (writes : List H3Write := []) : RespondFn Zh3Stream := fun st status hdrs body =>
  { st with
    out := st.out ++ (h3StreamWriteAll writes 0 (h3ResponseBytes isHead status hdrs body)).1
    concluded := true }

/-! ### Reading and dispatch

A pass reads chunks until the stream blocks or ends, then hands over what is complete. -/

variable (g : H3Cfg)

/-- How the reads of one call of `h3_stream_read` ended: nothing more for now (or the guard
of the loop), FIN, or a reset. -/
inductive H3ReadEnd where
  | wantRead
  | fin
  | reset
  deriving Repr, DecidableEq

/-- One visit of a stream by `h3_pump_streams`: the chunks read and how the reads ended,
the requests dispatched before, and what comes of the writes of a response. -/
structure H3Pass where
  chunks : List Bytes
  ending : H3ReadEnd := .wantRead
  history : List HttpReq := []
  writes : List H3Write := []
  deriving Repr, DecidableEq

/-- The loop of `h3_stream_read` over the chunks; what unidirectional streams carry is
discarded. -/
def h3ReadChunks (lim : ZhsLimits) (st : Zh3Stream) : List Bytes → Zh3Stream × Option Fail
  | [] => (st, none)
  | chunk :: chunks =>
    if st.isUni then h3ReadChunks lim st chunks
    else
      match h3Parse lim { st with inp := st.inp ++ chunk } with
      | (st, some e) => (st, some e)
      | (st, none) => h3ReadChunks lim st chunks

/-- The request object as `h3_maybe_dispatch` hands it over. -/
def h3Request (st : Zh3Stream) : HttpReq :=
  { st.req with version := 3, secure := true, streamId := st.id }

/-- `h3_maybe_dispatch`. -/
def h3MaybeDispatch (history : List HttpReq) (st : Zh3Stream) (writes : List H3Write := []) : Zh3Stream :=
  if st.dispatched || !st.fin || st.isUni then st
  else if !st.headersSeen ∨ st.pstate ≠ .hdr then { st with done := true }
  else
    let req := h3Request st
    let st := (zhsDispatch g.srv history req (h3Respond req.isHead writes)
      { st with req, log := st.log ++ [req] }).1
    { st with req := {}, dispatched := true, done := true }

/-- One stream's slice of `h3_pump_streams`; a stream that is done is only reaped. -/
def h3PumpStream (st : Zh3Stream) (pass : H3Pass) : Zh3Stream :=
  if st.done then st
  else
    match h3ReadChunks g.lim st pass.chunks with
    | (st, some _) => { st with done := true }
    | (st, none) =>
      match pass.ending with
      | .reset => { st with done := true }
      | .wantRead | .fin =>
        let st := { st with fin := st.fin || pass.ending == .fin }
        if !st.isUni then h3MaybeDispatch g pass.history st pass.writes
        else if st.fin then { st with done := true }
        else st

/-- A stream's whole life: its passes, one after another. -/
def h3Run (st : Zh3Stream) (passes : List H3Pass) : Zh3Stream :=
  passes.foldl (h3PumpStream g) st

end Zcio
