import Zcio.Lib.SwapRemove
import Zcio.Hpack.Encode
import Zcio.HttpUtil.Target
import Zcio.Server.Dispatch

/-!
# Zcio.H2.Conn

The HTTP/2 connection of `h2.c`: framing, the stream table, header-block reassembly, flow
control in both directions and the flood guards.

A `zh2_stream *` is the stream's id here; that ids are pairwise distinct, so that the two
come to the same, is part of the stream-table invariant. Allocation failure, and with it
`c->oom`, is not modelled.

`hist` is not in the source. It records, newest first, the frames received and sent, the
connection errors, the header blocks completed, the requests dispatched and the responses
made, and is what the statements about whole runs are about.
-/

namespace Zcio

/-! ### Wire constants -/

/-- `ZH2_PREFACE`. -/
def ZH2_PREFACE : Bytes := str "PRI * HTTP/2.0\r\n\r\nSM\r\n\r\n"

/-- `ZH2_FRAME_HDR`. -/
def ZH2_FRAME_HDR : Nat := 9

/-! Frame types. -/
def ZH2_FT_DATA : UInt8 := 0x0
def ZH2_FT_HEADERS : UInt8 := 0x1
def ZH2_FT_PRIORITY : UInt8 := 0x2
def ZH2_FT_RST_STREAM : UInt8 := 0x3
def ZH2_FT_SETTINGS : UInt8 := 0x4
def ZH2_FT_PUSH_PROMISE : UInt8 := 0x5
def ZH2_FT_PING : UInt8 := 0x6
def ZH2_FT_GOAWAY : UInt8 := 0x7
def ZH2_FT_WINDOW_UPDATE : UInt8 := 0x8
def ZH2_FT_CONTINUATION : UInt8 := 0x9

/-! Frame flags. -/
def ZH2_FL_END_STREAM : UInt8 := 0x01
def ZH2_FL_ACK : UInt8 := 0x01
def ZH2_FL_END_HEADERS : UInt8 := 0x04
def ZH2_FL_PADDED : UInt8 := 0x08
def ZH2_FL_PRIORITY : UInt8 := 0x20

/-! Error codes. -/
def ZH2_E_NO_ERROR : Nat := 0x0
def ZH2_E_PROTOCOL_ERROR : Nat := 0x1
def ZH2_E_FLOW_CONTROL_ERROR : Nat := 0x3
def ZH2_E_STREAM_CLOSED : Nat := 0x5
def ZH2_E_FRAME_SIZE_ERROR : Nat := 0x6
def ZH2_E_REFUSED_STREAM : Nat := 0x7
def ZH2_E_COMPRESSION_ERROR : Nat := 0x9
def ZH2_E_ENHANCE_YOUR_CALM : Nat := 0xb

/-! SETTINGS identifiers. -/
def ZH2_S_HEADER_TABLE_SIZE : Nat := 0x1
def ZH2_S_ENABLE_PUSH : Nat := 0x2
def ZH2_S_MAX_CONCURRENT_STREAMS : Nat := 0x3
def ZH2_S_INITIAL_WINDOW_SIZE : Nat := 0x4
def ZH2_S_MAX_FRAME_SIZE : Nat := 0x5
def ZH2_S_MAX_HEADER_LIST_SIZE : Nat := 0x6

/-! Our settings, protocol defaults and flood guards. -/
def ZH2_OUR_MAX_FRAME : Nat := 16384
def ZH2_OUR_INITIAL_WINDOW : Nat := 65535
def ZH2_CONN_WINDOW : Nat := 65535
def ZH2_DEFAULT_INIT_WINDOW : Nat := 65535
def ZH2_DEFAULT_MAX_FRAME : Nat := 16384
def ZH2_MAX_WINDOW : Nat := 0x7fffffff
def ZH2_CONT_MAX : Nat := 64
def ZH2_PING_PER_FEED : Nat := 128
def ZH2_SETTINGS_PER_FEED : Nat := 64

/-! ### Byte helpers -/

/-- A big-endian number (`rd16`, `rd24`, `rd32` on 2, 3 and 4 octets). -/
def rd (p : Bytes) : Nat := p.foldl (fun v b => v * 256 + b.toNat) 0

/-- `wr16`. -/
def wr16 (v : Nat) : Bytes := [UInt8.ofNat (v / 2 ^ 8), UInt8.ofNat v]

/-- `wr32`. -/
def wr32 (v : Nat) : Bytes :=
  [UInt8.ofNat (v / 2 ^ 24), UInt8.ofNat (v / 2 ^ 16), UInt8.ofNat (v / 2 ^ 8), UInt8.ofNat v]

/-- A flag of a frame is set. -/
def hasFlag (flags fl : UInt8) : Bool := flags &&& fl != 0

/-! ### State

The connection of HTTP/2 as the code keeps it, with a history of what came in, went out,
failed and was handed over. -/

/-- A frame, its length being that of the payload. -/
structure Frame where
  type : UInt8
  flags : UInt8 := 0
  sid : Nat
  payload : Bytes := []
  deriving Repr, DecidableEq

/-- A frame on the wire, as `h2_frame` writes it. -/
def Frame.bytes (f : Frame) : Bytes :=
  let len := f.payload.length
  [UInt8.ofNat (len / 2 ^ 16), UInt8.ofNat (len / 2 ^ 8), UInt8.ofNat len, f.type, f.flags] ++
    wr32 f.sid ++ f.payload

/-- What happened on the connection. -/
inductive H2Event where
  | recv (f : Frame)
  | sent (f : Frame)
  /-- A connection error was raised. -/
  | error (code : Nat)
  /-- A header block was complete and is decoded. -/
  | block (trailer : Bool) (b : Bytes)
  | dispatched (id : Nat) (req : HttpReq)
  /-- The response on a stream, as `respond_fn` gets it. -/
  | responded (id : Nat) (isHead : Bool) (status : Nat) (hdrs : List (Bytes × Bytes))
      (body : RespBody)
  deriving Repr, DecidableEq

/-- `zh2_stream`. -/
structure Zh2Stream where
  id : Nat
  recvWindow : Int := ZH2_OUR_INITIAL_WINDOW
  gotHeaders : Bool := false
  endStreamRecv : Bool := false
  dispatched : Bool := false
  sendWindow : Int
  responded : Bool := false
  respHeadersDone : Bool := false
  respEndAfterBody : Bool := false
  sendDone : Bool := false
  respBody : Bytes := []
  bodyOff : Nat := 0
  req : HttpReq := {}
  deriving Repr, DecidableEq

/-- What does not change over a connection's life. -/
structure H2Cfg where
  srv : Server
  lim : ZhsLimits
  secure : Bool := false

/-- Default limits in front of a silent handler. -/
def H2Cfg.silent : H2Cfg := { srv := .silent, lim := zhsLimitsResolve {} }

/-- The flow-control part of `struct zh2_conn`, with the peer's settings. -/
structure Zh2Flow where
  recvWindow : Int := ZH2_CONN_WINDOW
  sendWindow : Int := ZH2_CONN_WINDOW
  peerInitialWindow : Nat := ZH2_DEFAULT_INIT_WINDOW
  peerMaxFrame : Nat := ZH2_DEFAULT_MAX_FRAME
  deriving Repr, DecidableEq

/-- The stream part of `struct zh2_conn`. -/
structure Zh2Table where
  streams : List Zh2Stream := []
  lastClientId : Nat := 0
  openCount : Nat := 0
  totalStreams : Nat := 0
  rapidReset : Nat := 0
  deriving Repr, DecidableEq

/-- The header-block reassembly part of `struct zh2_conn`. -/
structure Zh2Hdr where
  hdrActive : Bool := false
  hdrId : Nat := 0
  hdrStream : Option Nat := none
  hdrRefuse : Nat := 0
  hdrTrailer : Bool := false
  hdrEndStream : Bool := false
  hdrBlock : Bytes := []
  contCount : Nat := 0
  deriving Repr, DecidableEq

/-- `struct zh2_conn` and its output buffer. -/
structure Zh2Conn extends Zh2Flow, Zh2Table, Zh2Hdr where
  out : ZhsBuf := {}
  dec : ZhpDec := .new ZHP_DEC_TABLE_MAX
  prefaceGot : Nat := 0
  prefaceDone : Bool := false
  needSettings : Bool := true
  closing : Bool := false
  goawaySent : Bool := false
  peerGoaway : Bool := false
  gotError : Bool := false
  hist : List H2Event := []
  deriving Repr, DecidableEq

/-- Record an event. -/
def Zh2Conn.log (c : Zh2Conn) (e : H2Event) : Zh2Conn := { c with hist := e :: c.hist }

/-! ### Frame emission

Every frame goes out through `h2Frame`, which appends its octets and records it. -/

/-- `h2_frame`: append a frame to the output. -/
def h2Frame (c : Zh2Conn) (f : Frame) : Zh2Conn :=
  { c with out := c.out.append f.bytes, hist := .sent f :: c.hist }

/-- `q_rst`. -/
def qRst (c : Zh2Conn) (id code : Nat) : Zh2Conn :=
  h2Frame c { type := ZH2_FT_RST_STREAM, sid := id, payload := wr32 code }

/-- `q_window_update`. -/
def qWindowUpdate (c : Zh2Conn) (id incr : Nat) : Zh2Conn :=
  if incr = 0 then c
  else h2Frame c { type := ZH2_FT_WINDOW_UPDATE, sid := id, payload := wr32 incr }

/-- `q_settings_ack`. -/
def qSettingsAck (c : Zh2Conn) : Zh2Conn :=
  h2Frame c { type := ZH2_FT_SETTINGS, flags := ZH2_FL_ACK, sid := 0 }

/-- `q_ping_ack`. -/
def qPingAck (c : Zh2Conn) (data : Bytes) : Zh2Conn :=
  h2Frame c { type := ZH2_FT_PING, flags := ZH2_FL_ACK, sid := 0, payload := data }

/-- `q_goaway`. -/
def qGoaway (c : Zh2Conn) (code : Nat) : Zh2Conn :=
  if c.goawaySent then c
  else
    { h2Frame c { type := ZH2_FT_GOAWAY, sid := 0, payload := wr32 c.lastClientId ++ wr32 code } with
      goawaySent := true }

/-- `conn_error`: GOAWAY, then close once the output drains. -/
def connError (c : Zh2Conn) (code : Nat) : Zh2Conn :=
  { qGoaway (c.log (.error code)) code with gotError := true, closing := true }

/-! ### Stream table

Streams are found by id. A stream that is closed gives its place to the last one. -/

/-- `find_index`. -/
def findIndex (c : Zh2Conn) (id : Nat) : Option Nat := c.streams.findIdx? (·.id == id)

/-- `find_stream`. -/
def findStream (c : Zh2Conn) (id : Nat) : Option Zh2Stream := c.streams.find? (·.id == id)

/-- Write through a stream pointer. -/
def updateStream (c : Zh2Conn) (id : Nat) (f : Zh2Stream → Zh2Stream) : Zh2Conn :=
  { c with streams := c.streams.map fun st => if st.id = id then f st else st }

/-- `h2_stream_new`. -/
def h2StreamNew (c : Zh2Conn) (id : Nat) : Zh2Conn :=
  { c with
    streams := c.streams ++ [{ id, sendWindow := c.peerInitialWindow }]
    openCount := c.openCount + 1 }

/-- `stream_close`: the last stream takes the slot. -/
def streamClose (c : Zh2Conn) (idx : Nat) : Zh2Conn :=
  { c with
    streams := Lib.swapRemove c.streams idx
    openCount := c.openCount - 1 }

/-- Drop the stream `id` if it is in the table. -/
def closeById (c : Zh2Conn) (id : Nat) : Zh2Conn :=
  match findIndex c id with
  | some idx => streamClose c idx
  | none => c

/-- `rst_stream`. -/
def rstStream (c : Zh2Conn) (id code : Nat) : Zh2Conn := closeById (qRst c id code) id

/-! ### Receive-side flow control

DATA is taken off the windows. Once the room of a whole frame is used up, a WINDOW_UPDATE fills
the window again. -/

/-- A receive window after `len` octets: within a frame of empty it is topped up. -/
def topUp (window : Int) (len : Nat) : Int × Nat :=
  let w := window - len
  if w ≤ (65535 : Int) - ZH2_OUR_MAX_FRAME then (65535, ((65535 : Int) - w).toNat) else (w, 0)

/-- The connection half of `recv_consume`. -/
def recvConsumeConn (c : Zh2Conn) (len : Nat) : Zh2Conn :=
  let (w, delta) := topUp c.recvWindow len
  { qWindowUpdate c 0 delta with recvWindow := w }

/-- The stream half of `recv_consume`. -/
def recvConsumeStream (c : Zh2Conn) (st : Zh2Stream) (len : Nat) : Zh2Conn :=
  let (w, delta) := topUp st.recvWindow len
  updateStream (qWindowUpdate c st.id delta) st.id fun st => { st with recvWindow := w }

/-- `recv_consume`: `st` is `none` where the source passes `NULL` or a closed stream. -/
def recvConsume (c : Zh2Conn) (st : Option Zh2Stream) (len : Nat) : Zh2Conn :=
  match st with
  | none => recvConsumeConn c len
  | some st => recvConsumeStream (recvConsumeConn c len) st len

/-! ### Header decoding

The sink of the HPACK decoder: pseudo fields first, each once, then regular fields within
the limits. -/

/-- `is_conn_specific`. -/
def isConnSpecific (n : Bytes) : Bool :=
  [str "connection", str "keep-alive", str "proxy-connection", str "transfer-encoding",
    str "upgrade"].contains n

/-- `zh2_hdrctx`. The pseudo-header slots hold the octets copied; read as a `char *` they
end at the first NUL. `fields` (not in the source) records the regular fields. -/
structure HdrCtx where
  trailer : Bool := false
  seenRegular : Bool := false
  herr : Bool := false
  method : Option Bytes := none
  scheme : Option Bytes := none
  path : Option Bytes := none
  authority : Option Bytes := none
  headers : ZhsHdrs := {}
  fields : List (Bytes × Bytes) := []
  deriving Repr, DecidableEq

/-- Abort the decode: a malformed request. -/
def HdrCtx.bad (x : HdrCtx) : HdrCtx × Int := ({ x with herr := true }, -1)

/-- The pseudo-header half of `h2_emit`. -/
def h2EmitPseudo (x : HdrCtx) (name value : Bytes) : HdrCtx × Int :=
  if x.trailer || x.seenRegular then x.bad
  else if name = str ":method" then
    if x.method.isSome then x.bad else ({ x with method := some value }, 0)
  else if name = str ":scheme" then
    if x.scheme.isSome then x.bad else ({ x with scheme := some value }, 0)
  else if name = str ":path" then
    if x.path.isSome then x.bad else ({ x with path := some value }, 0)
  else if name = str ":authority" then
    if x.authority.isSome then x.bad else ({ x with authority := some value }, 0)
  else x.bad

/-- The regular-field half of `h2_emit`. -/
def h2EmitRegular (lim : ZhsLimits) (x : HdrCtx) (name value : Bytes) : HdrCtx × Int :=
  let x := { x with seenRegular := true }
  if !zhsLowerTokenOk name then x.bad
  else if isConnSpecific name then x.bad
  else if name = str "te" ∧ value ≠ str "trailers" then x.bad
  else if x.trailer then (x, 0)
  else
    match x.headers.add name value lim false with
    | .error _ => x.bad
    | .ok headers => ({ x with headers, fields := x.fields ++ [(name, value)] }, 0)

/-- `h2_emit`. -/
def h2Emit (lim : ZhsLimits) : EmitFn HdrCtx := fun x name value =>
  if name.head? = some 58 then h2EmitPseudo x name value else h2EmitRegular lim x name value

/-! ### Responding

The head goes out at once, cut into frames; the body waits for the pump. -/

variable (g : H2Cfg)

/-- `h2_encode_header`: the name is forced to lower case. -/
def h2EncodeHeader (h : Bytes × Bytes) : Bytes := zhpEncode (lower h.1) h.2

/-- The field block of a response. -/
def fieldBlock (status : Nat) (hdrs : List (Bytes × Bytes)) : Bytes :=
  zhpEncodeStatus status ++ (hdrs.map h2EncodeHeader).flatten

/-- The body that `zh2_respond` sends: none on HEAD, 1xx, 204 and 304. -/
def sentBody (isHead : Bool) (status : Nat) : RespBody → Bytes
  | .null _ => []
  | .data b => if isHead || status < 200 || status = 204 || status = 304 then [] else b

/-- The field block cut into pieces of `maxf` octets; the last one may be shorter. Every
piece but the last takes at least one octet, so `n = fb.length` rounds suffice. -/
def fragmentsN (maxf : Nat) : Nat → Bytes → List Bytes
  | 0, fb => [fb]
  | n + 1, fb => if fb.length ≤ maxf then [fb] else fb.take maxf :: fragmentsN maxf n (fb.drop maxf)

/-- The pieces of the do-while loop of `zh2_respond`. -/
def fragments (maxf : Nat) (fb : Bytes) : List Bytes := fragmentsN maxf fb.length fb

/-- CONTINUATION frames for the pieces behind the first; END_HEADERS on the last. -/
def contFrames (id : Nat) : List Bytes → List Frame
  | [] => []
  | [p] => [{ type := ZH2_FT_CONTINUATION, flags := ZH2_FL_END_HEADERS, sid := id, payload := p }]
  | p :: ps => { type := ZH2_FT_CONTINUATION, sid := id, payload := p } :: contFrames id ps

/-- The HEADERS and CONTINUATION frames of a response. -/
def headerFrames (id : Nat) (endStream : Bool) : List Bytes → List Frame
  | [] => []
  | p :: ps =>
    { type := ZH2_FT_HEADERS
      flags := (if ps.isEmpty then ZH2_FL_END_HEADERS else 0) |||
        (if endStream then ZH2_FL_END_STREAM else 0)
      sid := id, payload := p } :: contFrames id ps

/-- `zh2_respond`, called through the request of stream `id`. -/
def zh2Respond (id : Nat) (isHead : Bool) : RespondFn Zh2Conn := fun c status hdrs body =>
  match findStream c id with
  | none => c
  | some st =>
    if st.responded then c
    else
      let data := sentBody isHead status body
      let maxf := if c.peerMaxFrame ≠ 0 then c.peerMaxFrame else ZH2_DEFAULT_MAX_FRAME
      let c := (headerFrames id data.isEmpty (fragments maxf (fieldBlock status hdrs))).foldl
        h2Frame (c.log (.responded id isHead status hdrs body))
      updateStream c id fun st => { st with
        respHeadersDone := true
        responded := true
        respBody := data
        respEndAfterBody := !data.isEmpty
        sendDone := data.isEmpty }

/-! ### Dispatch -/

/-- The requests dispatched in a history, oldest first. -/
def requestsOf (h : List H2Event) : List HttpReq :=
  (h.filterMap fun e => match e with
    | .dispatched _ req => some req
    | _ => none).reverse

/-- The request object `h2_dispatch` hands over. -/
def h2Request (st : Zh2Stream) : HttpReq :=
  { st.req with version := 2, secure := g.secure, streamId := st.id, responded := false }

/-- Drop the stream once both sides are done with it. -/
def reap (c : Zh2Conn) (id : Nat) : Zh2Conn :=
  match findStream c id with
  | some st => if st.sendDone && st.endStreamRecv then closeById c id else c
  | none => c

/-- `h2_dispatch`. -/
def h2Dispatch (c : Zh2Conn) (id : Nat) : Zh2Conn :=
  match findStream c id with
  | none => c
  | some st =>
    if st.dispatched then c
    else
      let req := h2Request g st
      let history := requestsOf c.hist
      let c := (updateStream c id fun st => { st with dispatched := true, req }).log
        (.dispatched id req)
      let c := (zhsDispatch g.srv history req (zh2Respond id req.isHead) c).1
      reap (updateStream c id fun st => { st with req := {} }) id

/-! ### Header blocks

Fragments are gathered until the end of the block, then decoded whether or not the stream is
refused. -/

/-- The request of a decoded head: `none` asks for a stream reset. `strchr` strips userinfo
up to the first `@`. -/
def h2Head (x : HdrCtx) (body : Bytes) : Option HttpReq :=
  match x.method, x.scheme, x.path with
  | some method, some _, some target =>
    if !zhsTokenOk (cstr method) then none
    else
      match zhsDecodeTarget (cstr target) g.lim with
      | .error _ => none
      | .ok (path, query) =>
        let authority := match x.authority with
          | some a =>
            let a := cstr a
            some (match memchr 64 a with
              | some i => a.drop (i + 1)
              | none => a)
          | none => x.headers.get (str "host")
        some
          { method := some (cstr method)
            path := some path
            query
            authority
            isHead := cstr method == str "HEAD"
            headers := x.headers
            body
            raw := { method
                     target
                     authority := x.authority
                     fields := x.fields } }
  | _, _, _ => none

/-- The reassembly state cleared. -/
def clearHdr (c : Zh2Conn) : Zh2Conn :=
  { c with
    hdrActive := false, hdrStream := none, hdrId := 0, hdrRefuse := 0
    hdrTrailer := false, hdrEndStream := false, contCount := 0, hdrBlock := [] }

/-- `h2_finish_headers` behind the decode of the block: `ok` says the decoder ended
normally, `c` is as before the reassembly state was cleared. -/
def h2FinishDecoded (c : Zh2Conn) (ok : Bool) (x : HdrCtx) : Zh2Conn :=
  let c' := clearHdr c
  if !ok ∧ !x.herr then connError c' ZH2_E_COMPRESSION_ERROR
  else if x.herr then
    match c.hdrStream with
    | some id => rstStream c' id ZH2_E_PROTOCOL_ERROR
    | none => qRst c' c.hdrId (if c.hdrRefuse ≠ 0 then c.hdrRefuse else ZH2_E_PROTOCOL_ERROR)
  else if c.hdrRefuse ≠ 0 then qRst c' c.hdrId c.hdrRefuse
  else
    match c.hdrStream with
    | none => qRst c' c.hdrId ZH2_E_REFUSED_STREAM
    | some id =>
      if c.hdrTrailer then
        if !c.hdrEndStream then rstStream c' id ZH2_E_PROTOCOL_ERROR
        else h2Dispatch g (updateStream c' id fun st => { st with endStreamRecv := true }) id
      else
        match h2Head g x ((findStream c' id).elim [] (·.req.body)) with
        | none => rstStream c' id ZH2_E_PROTOCOL_ERROR
        | some req =>
          let c' := updateStream c' id fun st =>
            { st with req, gotHeaders := true, endStreamRecv := c.hdrEndStream }
          if c.hdrEndStream then h2Dispatch g c' id else c'

/-- `h2_finish_headers`. -/
def h2FinishHeaders (c : Zh2Conn) : Zh2Conn :=
  let r := zhpDecode c.dec c.hdrBlock g.lim.maxHeaderBytes (h2Emit g.lim)
    { trailer := c.hdrTrailer }
  h2FinishDecoded g ({ c with dec := r.d }.log (.block c.hdrTrailer c.hdrBlock)) (r.rc == .ok) r.u

/-- The cap of the reassembly buffer. -/
def hdrCap : Nat :=
  if g.lim.maxHeaderBytes > SIZE_MAX - 4096 then SIZE_MAX else g.lim.maxHeaderBytes + 4096

/-- `hdr_accumulate`; `none` after a connection error. -/
def hdrAccumulate (c : Zh2Conn) (frag : Bytes) : Zh2Conn ⊕ Zh2Conn :=
  if frag.length > hdrCap g - c.hdrBlock.length then .inr (connError c ZH2_E_ENHANCE_YOUR_CALM)
  else .inl { c with hdrBlock := c.hdrBlock ++ frag }

/-- The common end of `h2_on_headers` and `h2_on_continuation`. -/
def hdrFragment (c : Zh2Conn) (flags : UInt8) (frag : Bytes) : Zh2Conn :=
  match hdrAccumulate g c frag with
  | .inr c => c
  | .inl c => if hasFlag flags ZH2_FL_END_HEADERS then h2FinishHeaders g c else c

/-- The payload without PADDED and PRIORITY: `none` when they do not fit. -/
def stripHeaders (flags : UInt8) (payload : Bytes) : Option Bytes :=
  let padded := hasFlag flags ZH2_FL_PADDED
  if padded ∧ payload.length < 1 then none
  else
    let pad := if padded then (payload.headD 0).toNat else 0
    let p := if padded then payload.drop 1 else payload
    let prio := hasFlag flags ZH2_FL_PRIORITY
    if prio ∧ p.length < 5 then none
    else
      let p := if prio then p.drop 5 else p
      if pad > p.length then none else some (p.take (p.length - pad))

/-! ### Frame handlers

One function for each type of frame, with the errors in the order in which the source checks
them. -/

/-- Begin the reassembly of a header block. -/
def beginHdr (c : Zh2Conn) (f : Frame) (st : Option Nat) (refuse : Nat) (trailer : Bool) :
    Zh2Conn :=
  { c with
    hdrActive := true, hdrId := f.sid, hdrStream := st, hdrRefuse := refuse
    hdrTrailer := trailer, hdrEndStream := hasFlag f.flags ZH2_FL_END_STREAM
    contCount := 0, hdrBlock := [] }

/-- A HEADERS frame that opens a stream: accepted, or refused for one of three reasons. -/
def h2OpenStream (c : Zh2Conn) (f : Frame) : Zh2Conn :=
  let c := { c with lastClientId := f.sid, totalStreams := c.totalStreams + 1 }
  if c.closing || c.peerGoaway then beginHdr c f none ZH2_E_REFUSED_STREAM false
  else if g.lim.maxRequestsPerConn ≠ 0 ∧ c.totalStreams > g.lim.maxRequestsPerConn then
    beginHdr { qGoaway c ZH2_E_NO_ERROR with closing := true } f none ZH2_E_REFUSED_STREAM false
  else if c.openCount ≥ g.lim.maxStreams then beginHdr c f none ZH2_E_REFUSED_STREAM false
  else beginHdr (h2StreamNew c f.sid) f (some f.sid) 0 false

/-- `h2_on_headers`. -/
def h2OnHeaders (c : Zh2Conn) (f : Frame) : Zh2Conn :=
  if f.sid = 0 then connError c ZH2_E_PROTOCOL_ERROR
  else
    match stripHeaders f.flags f.payload with
    | none => connError c ZH2_E_PROTOCOL_ERROR
    | some frag =>
      match findStream c f.sid with
      | none =>
        if f.sid % 2 = 0 ∨ f.sid ≤ c.lastClientId then connError c ZH2_E_PROTOCOL_ERROR
        else hdrFragment g (h2OpenStream g c f) f.flags frag
      | some st =>
        if st.endStreamRecv then connError c ZH2_E_STREAM_CLOSED
        else if !st.gotHeaders then connError c ZH2_E_PROTOCOL_ERROR
        else hdrFragment g (beginHdr c f (some f.sid) 0 true) f.flags frag

/-- `h2_on_continuation`. -/
def h2OnContinuation (c : Zh2Conn) (f : Frame) : Zh2Conn :=
  let c := { c with contCount := c.contCount + 1 }
  if c.contCount > ZH2_CONT_MAX then connError c ZH2_E_ENHANCE_YOUR_CALM
  else hdrFragment g c f.flags f.payload

/-- The payload of a DATA frame without its padding: `none` when it does not fit. -/
def stripData (flags : UInt8) (payload : Bytes) : Option Bytes :=
  let padded := hasFlag flags ZH2_FL_PADDED
  if padded ∧ payload.length < 1 then none
  else
    let pad := if padded then (payload.headD 0).toNat else 0
    let p := if padded then payload.drop 1 else payload
    if pad > p.length then none else some (p.take (p.length - pad))

/-- `h2_on_data`. -/
def h2OnData (c : Zh2Conn) (f : Frame) : Zh2Conn :=
  let len := f.payload.length
  if f.sid = 0 then connError c ZH2_E_PROTOCOL_ERROR
  else if (len : Int) > c.recvWindow then connError c ZH2_E_FLOW_CONTROL_ERROR
  else
    match findStream c f.sid with
    | none =>
      let c := recvConsume c none len
      if f.sid > c.lastClientId then connError c ZH2_E_PROTOCOL_ERROR else c
    | some st =>
      if st.endStreamRecv || !st.gotHeaders then connError c ZH2_E_STREAM_CLOSED
      else if (len : Int) > st.recvWindow then
        recvConsume (rstStream c f.sid ZH2_E_FLOW_CONTROL_ERROR) none len
      else
        match stripData f.flags f.payload with
        | none => connError c ZH2_E_PROTOCOL_ERROR
        | some data =>
          if data.length > g.lim.maxBodyBytes - st.req.body.length then
            recvConsume (rstStream c f.sid ZH2_E_ENHANCE_YOUR_CALM) none len
          else
            let c := updateStream c f.sid fun st =>
              { st with req := { st.req with body := st.req.body ++ data } }
            if hasFlag f.flags ZH2_FL_END_STREAM then
              h2Dispatch g (updateStream (recvConsume c none len) f.sid fun st =>
                { st with endStreamRecv := true }) f.sid
            else recvConsume c (some st) len

/-- `h2_on_rst_stream`. -/
def h2OnRstStream (c : Zh2Conn) (f : Frame) : Zh2Conn :=
  if f.payload.length ≠ 4 then connError c ZH2_E_FRAME_SIZE_ERROR
  else if f.sid = 0 then connError c ZH2_E_PROTOCOL_ERROR
  else
    match findStream c f.sid with
    | some st =>
      let c := closeById
        { c with rapidReset := c.rapidReset + if st.responded then 0 else 1 } f.sid
      if c.rapidReset > g.lim.maxStreams then connError c ZH2_E_ENHANCE_YOUR_CALM else c
    | none => if f.sid > c.lastClientId then connError c ZH2_E_PROTOCOL_ERROR else c

/-- Retarget the streams' send windows by `delta`, stopping at the first that overflows. -/
def retarget (delta : Int) : List Zh2Stream → List Zh2Stream × Bool
  | [] => ([], true)
  | st :: sts =>
    let st := { st with sendWindow := st.sendWindow + delta }
    if st.sendWindow > (ZH2_MAX_WINDOW : Int) then (st :: sts, false)
    else
      let (sts, ok) := retarget delta sts
      (st :: sts, ok)

/-- The loop over the entries of a SETTINGS payload; `false` after a connection error. -/
def applySettings (c : Zh2Conn) : Bytes → Zh2Conn × Bool
  | i0 :: i1 :: v0 :: v1 :: v2 :: v3 :: rest =>
    let sid := rd [i0, i1]
    let val := rd [v0, v1, v2, v3]
    if sid = ZH2_S_ENABLE_PUSH then
      if val > 1 then (connError c ZH2_E_PROTOCOL_ERROR, false) else applySettings c rest
    else if sid = ZH2_S_INITIAL_WINDOW_SIZE then
      if val > ZH2_MAX_WINDOW then (connError c ZH2_E_FLOW_CONTROL_ERROR, false)
      else
        match retarget ((val : Int) - c.peerInitialWindow) c.streams with
        | (streams, true) => applySettings { c with streams, peerInitialWindow := val } rest
        | (streams, false) => (connError { c with streams } ZH2_E_FLOW_CONTROL_ERROR, false)
    else if sid = ZH2_S_MAX_FRAME_SIZE then
      if val < 16384 ∨ val > 16777215 then (connError c ZH2_E_PROTOCOL_ERROR, false)
      else applySettings { c with peerMaxFrame := val } rest
    else applySettings c rest
  | _ => (c, true)

/-- `h2_on_settings`, with the number of SETTINGS applied in this feed. -/
def h2OnSettings (c : Zh2Conn) (f : Frame) (count : Nat) : Zh2Conn × Nat :=
  if f.sid ≠ 0 then (connError c ZH2_E_PROTOCOL_ERROR, count)
  else if hasFlag f.flags ZH2_FL_ACK then
    (if f.payload.length ≠ 0 then connError c ZH2_E_FRAME_SIZE_ERROR else c, count)
  else if f.payload.length % 6 ≠ 0 then (connError c ZH2_E_FRAME_SIZE_ERROR, count)
  else if count + 1 > ZH2_SETTINGS_PER_FEED then (connError c ZH2_E_ENHANCE_YOUR_CALM, count + 1)
  else
    match applySettings c f.payload with
    | (c, true) => (qSettingsAck c, count + 1)
    | (c, false) => (c, count + 1)

/-- `h2_on_ping`, with the number of PINGs answered in this feed. -/
def h2OnPing (c : Zh2Conn) (f : Frame) (count : Nat) : Zh2Conn × Nat :=
  if f.sid ≠ 0 then (connError c ZH2_E_PROTOCOL_ERROR, count)
  else if f.payload.length ≠ 8 then (connError c ZH2_E_FRAME_SIZE_ERROR, count)
  else if hasFlag f.flags ZH2_FL_ACK then (c, count)
  else if count + 1 > ZH2_PING_PER_FEED ∨ c.out.avail > g.lim.maxOutBytes then
    (connError c ZH2_E_ENHANCE_YOUR_CALM, count + 1)
  else (qPingAck c f.payload, count + 1)

/-- The increment of a WINDOW_UPDATE frame. -/
def Frame.incr (f : Frame) : Nat := rd f.payload % 2 ^ 31

/-- `h2_on_window_update`. -/
def h2OnWindowUpdate (c : Zh2Conn) (f : Frame) : Zh2Conn :=
  if f.payload.length ≠ 4 then connError c ZH2_E_FRAME_SIZE_ERROR
  else if f.sid = 0 then
    if f.incr = 0 then connError c ZH2_E_PROTOCOL_ERROR
    else
      let c := { c with sendWindow := c.sendWindow + f.incr }
      if c.sendWindow > (ZH2_MAX_WINDOW : Int) then connError c ZH2_E_FLOW_CONTROL_ERROR else c
  else
    match findStream c f.sid with
    | some st =>
      if f.incr = 0 then rstStream c f.sid ZH2_E_PROTOCOL_ERROR
      else
        let c := updateStream c f.sid fun st => { st with sendWindow := st.sendWindow + f.incr }
        if st.sendWindow + f.incr > (ZH2_MAX_WINDOW : Int) then
          rstStream c f.sid ZH2_E_FLOW_CONTROL_ERROR
        else c
    | none => if f.sid > c.lastClientId then connError c ZH2_E_PROTOCOL_ERROR else c

/-- `h2_on_goaway`. -/
def h2OnGoaway (c : Zh2Conn) (f : Frame) : Zh2Conn :=
  if f.sid ≠ 0 then connError c ZH2_E_PROTOCOL_ERROR
  else if f.payload.length < 8 then connError c ZH2_E_FRAME_SIZE_ERROR
  else { c with peerGoaway := true }

/-- A PRIORITY frame is checked and ignored. -/
def h2OnPriority (c : Zh2Conn) (f : Frame) : Zh2Conn :=
  if f.sid = 0 then connError c ZH2_E_PROTOCOL_ERROR
  else if f.payload.length ≠ 5 then connError c ZH2_E_FRAME_SIZE_ERROR
  else c

/-! ### Feed

The preface, then one frame after the other, as long as a whole one is there. -/

/-- `consume_preface`; `true` when the preface is complete. -/
def consumePreface (c : Zh2Conn) : Bytes → Zh2Conn × Bytes × Bool
  | [] =>
    if c.prefaceGot < ZH2_PREFACE.length then (c, [], false)
    else ({ c with prefaceDone := true }, [], true)
  | b :: inp =>
    if c.prefaceGot < ZH2_PREFACE.length then
      if b ≠ ZH2_PREFACE.getD c.prefaceGot 0 then (connError c ZH2_E_PROTOCOL_ERROR, b :: inp, false)
      else consumePreface { c with prefaceGot := c.prefaceGot + 1 } inp
    else ({ c with prefaceDone := true }, b :: inp, true)

/-- The state of the frame loop. -/
structure Feed2St where
  c : Zh2Conn
  inp : Bytes
  pings : Nat := 0
  settings : Nat := 0
  deriving Repr, DecidableEq

/-- The frame `inp` starts with, once all of it is there. -/
def frameOf (inp : Bytes) : Frame :=
  { type := inp.getD 3 0
    flags := inp.getD 4 0
    sid := rd ((inp.drop 5).take 4) % 2 ^ 31
    payload := (inp.drop ZH2_FRAME_HDR).take (rd (inp.take 3)) }

/-- The switch over the frame type. -/
def onFrame (s : Feed2St) (f : Frame) : Feed2St :=
  let c := s.c
  if f.type = ZH2_FT_DATA then { s with c := h2OnData g c f }
  else if f.type = ZH2_FT_HEADERS then { s with c := h2OnHeaders g c f }
  else if f.type = ZH2_FT_PRIORITY then { s with c := h2OnPriority c f }
  else if f.type = ZH2_FT_RST_STREAM then { s with c := h2OnRstStream g c f }
  else if f.type = ZH2_FT_SETTINGS then
    let (c, settings) := h2OnSettings c f s.settings
    { s with c, settings }
  else if f.type = ZH2_FT_PUSH_PROMISE then { s with c := connError c ZH2_E_PROTOCOL_ERROR }
  else if f.type = ZH2_FT_PING then
    let (c, pings) := h2OnPing g c f s.pings
    { s with c, pings }
  else if f.type = ZH2_FT_GOAWAY then { s with c := h2OnGoaway c f }
  else if f.type = ZH2_FT_WINDOW_UPDATE then { s with c := h2OnWindowUpdate c f }
  else if f.type = ZH2_FT_CONTINUATION then { s with c := h2OnContinuation g c f }
  else s

/-- One round of the frame loop of `zh2_feed_`. -/
def zh2FeedRound (s : Feed2St) : Feed2St ⊕ (Zh2Conn × Bytes) :=
  if s.c.gotError then .inr (s.c, s.inp)
  else if s.inp.length < ZH2_FRAME_HDR then .inr (s.c, s.inp)
  else
    let len := rd (s.inp.take 3)
    if len > ZH2_OUR_MAX_FRAME then .inr (connError s.c ZH2_E_FRAME_SIZE_ERROR, s.inp)
    else if s.inp.length < ZH2_FRAME_HDR + len then .inr (s.c, s.inp)
    else
      let f := frameOf s.inp
      let c := s.c.log (.recv f)
      if c.needSettings ∧ f.type ≠ ZH2_FT_SETTINGS then
        .inr (connError c ZH2_E_PROTOCOL_ERROR, s.inp)
      else
        let c := { c with needSettings := false }
        if c.hdrActive ∧ (f.type ≠ ZH2_FT_CONTINUATION ∨ f.sid ≠ c.hdrId) then
          .inr (connError c ZH2_E_PROTOCOL_ERROR, s.inp)
        else if !c.hdrActive ∧ f.type = ZH2_FT_CONTINUATION then
          .inr (connError c ZH2_E_PROTOCOL_ERROR, s.inp)
        else .inl { onFrame g { s with c } f with inp := s.inp.drop (ZH2_FRAME_HDR + len) }

theorem zh2FeedRound_decreases : Lib.Decreases (zh2FeedRound g) fun s => s.inp.length := by
  intro s s' h
  unfold zh2FeedRound at h
  split at h
  · cases h
  · split at h
    · cases h
    · rename_i hlen
      dsimp only at h
      split at h
      · cases h
      · split at h
        · cases h
        · split at h
          · cases h
          · split at h
            · cases h
            · split at h
              · cases h
              · cases h
                simp only [List.length_drop, ZH2_FRAME_HDR] at hlen ⊢
                omega

/-- The return values of `zh2_feed_`. -/
inductive Zh2Rc where
  | ok
  | closing
  deriving Repr, DecidableEq

/-- The frame loop of `zh2_feed_`. -/
def zh2Frames (c : Zh2Conn) (inp : Bytes) : Zh2Conn × Bytes :=
  Lib.loop (zh2FeedRound g) _ (zh2FeedRound_decreases g) { c, inp }

/-- `zh2_feed_` on the buffered input: its result, the connection and the unread input. -/
def zh2Feed (c : Zh2Conn) (inp : Bytes) : Zh2Rc × Zh2Conn × Bytes :=
  let (c, inp, ready) := if c.prefaceDone then (c, inp, true) else consumePreface c inp
  if !ready then (if c.gotError then .closing else .ok, c, inp)
  else
    let (c, inp) := zh2Frames g c inp
    (if c.closing || c.gotError then .closing else .ok, c, inp)

/-! ### Pump

Bodies go out in chunks, as far as both windows and the output budget allow. -/

/-- The size of the next DATA frame of a stream: what is left, under the stream window, the
connection window, the peer's frame size and the output budget; 0 where the source breaks. -/
def pumpChunk (c : Zh2Conn) (st : Zh2Stream) : Nat :=
  let win := min (max st.sendWindow 0) (max c.sendWindow 0)
  let used := c.out.avail
  if st.bodyOff ≥ st.respBody.length ∨ win ≤ 0 ∨ used ≥ g.lim.maxOutBytes ∨
      g.lim.maxOutBytes - used ≤ ZH2_FRAME_HDR then 0
  else
    min (min (min (st.respBody.length - st.bodyOff) win.toNat) c.peerMaxFrame)
      (g.lim.maxOutBytes - used - ZH2_FRAME_HDR)

/-- Emit one DATA frame of `chunk` octets on stream `st`. -/
def pumpData (c : Zh2Conn) (st : Zh2Stream) (chunk : Nat) : Zh2Conn :=
  let last := st.bodyOff + chunk = st.respBody.length
  let c := h2Frame c
    { type := ZH2_FT_DATA
      flags := if last ∧ st.respEndAfterBody then ZH2_FL_END_STREAM else 0
      sid := st.id
      payload := (st.respBody.drop st.bodyOff).take chunk }
  let c := updateStream c st.id fun st => { st with
    bodyOff := st.bodyOff + chunk
    sendWindow := st.sendWindow - chunk
    sendDone := if last then true else st.sendDone }
  { c with sendWindow := c.sendWindow - chunk }

/-- One round of the inner loop of `zh2_pump_` on the stream in slot `i`. -/
def pumpStreamRound (i : Nat) (c : Zh2Conn) : Zh2Conn ⊕ Zh2Conn :=
  match c.streams[i]? with
  | none => .inr c
  | some st =>
    let chunk := pumpChunk g c st
    if chunk = 0 then .inr c else .inl (pumpData c st chunk)

/-- What is left of the body in slot `i`. -/
def pumpLeft (i : Nat) (c : Zh2Conn) : Nat :=
  match c.streams[i]? with
  | none => 0
  | some st => st.respBody.length - st.bodyOff

theorem pumpChunk_le (c : Zh2Conn) (st : Zh2Stream) :
    pumpChunk g c st ≤ st.respBody.length - st.bodyOff := by
  unfold pumpChunk
  dsimp only
  split
  · omega
  · omega

theorem pumpStreamRound_decreases (i : Nat) :
    Lib.Decreases (pumpStreamRound g i) (pumpLeft i) := by
  intro c c' h
  unfold pumpStreamRound at h
  split at h
  · cases h
  · rename_i st hst
    dsimp only at h
    split at h
    · cases h
    · have hle := pumpChunk_le g c st
      cases h
      simp only [pumpLeft, pumpData, h2Frame, updateStream, List.getElem?_map, hst,
        Option.map_some, if_true]
      omega

/-- The inner loop of `zh2_pump_`. -/
def pumpStream (i : Nat) (c : Zh2Conn) : Zh2Conn :=
  Lib.loop (pumpStreamRound g i) _ (pumpStreamRound_decreases g i) c

theorem pumpStream_length (i : Nat) (c : Zh2Conn) :
    (pumpStream g i c).streams.length = c.streams.length := by
  refine Lib.loop_induct (pumpStreamRound_decreases g i)
    (P := fun c c' => c'.streams.length = c.streams.length) ?_ ?_ c
  · intro c c' h
    unfold pumpStreamRound at h
    split at h
    · cases h; rfl
    · dsimp only at h
      split at h
      · cases h; rfl
      · cases h
  · intro c c' r h ih
    rw [ih]
    unfold pumpStreamRound at h
    split at h
    · cases h
    · dsimp only at h
      split at h
      · cases h
      · cases h
        simp [pumpData, h2Frame, updateStream]

/-- One round of the outer loop of `zh2_pump_`: slot `i`. -/
def pumpRound (s : Zh2Conn × Nat) : (Zh2Conn × Nat) ⊕ Zh2Conn :=
  match s.1.streams[s.2]? with
  | none => .inr s.1
  | some st =>
    let c := if st.respHeadersDone && !st.sendDone then pumpStream g s.2 s.1 else s.1
    match c.streams[s.2]? with
    | none => .inr c
    | some st =>
      if st.sendDone && st.endStreamRecv then .inl (streamClose c s.2, s.2)
      else .inl (c, s.2 + 1)

theorem pumpRound_decreases :
    Lib.Decreases (pumpRound g) fun s => s.1.streams.length - s.2 := by
  rintro ⟨c, i⟩ s' h
  unfold pumpRound at h
  dsimp only at h
  split at h
  · cases h
  · rename_i st hst
    have hlen : ∀ b : Bool, (if b then pumpStream g i c else c).streams.length =
        c.streams.length := by
      intro b
      cases b
      · rfl
      · exact pumpStream_length g i c
    have hi : i < c.streams.length := (List.getElem?_eq_some_iff.mp hst).1
    split at h
    · cases h
    · rename_i st' hst'
      have hi' := (List.getElem?_eq_some_iff.mp hst').1
      split at h
      · cases h
        simp only [streamClose]
        rw [Lib.length_swapRemove hi', hlen]
        omega
      · cases h
        simp only [hlen]
        omega

/-- `zh2_pump_`. -/
def zh2Pump (c : Zh2Conn) : Zh2Conn :=
  Lib.loop (pumpRound g) _ (pumpRound_decreases g) (c, 0)

/-! ### Lifecycle -/

/-- The payload of our SETTINGS frame. -/
def ourSettings : Bytes :=
  wr16 ZH2_S_HEADER_TABLE_SIZE ++ wr32 ZHP_DEC_TABLE_MAX ++
  wr16 ZH2_S_MAX_CONCURRENT_STREAMS ++ wr32 g.lim.maxStreams ++
  wr16 ZH2_S_INITIAL_WINDOW_SIZE ++ wr32 ZH2_OUR_INITIAL_WINDOW ++
  wr16 ZH2_S_MAX_FRAME_SIZE ++ wr32 ZH2_OUR_MAX_FRAME ++
  wr16 ZH2_S_MAX_HEADER_LIST_SIZE ++ wr32 (min g.lim.maxHeaderBytes 0xffffffff)

/-- `zh2_new_`. -/
def zh2New : Zh2Conn :=
  h2Frame {} { type := ZH2_FT_SETTINGS, sid := 0, payload := ourSettings g }

/-- `zh2_graceful_`. -/
def zh2Graceful (c : Zh2Conn) : Zh2Conn := { qGoaway c ZH2_E_NO_ERROR with closing := true }

/-- `zh2_idle_`. -/
def zh2Idle (c : Zh2Conn) : Bool :=
  if c.gotError then true
  else if c.hdrActive then false
  else c.streams.length == 0

end Zcio
