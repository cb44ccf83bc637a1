import Zcio.Stream
import Zcio.Lib.Loop
import Zcio.HttpUtil.Hdrs
import Zcio.HttpUtil.Utf8
import Zcio.Ws.Accept

/-!
# Zcio.Ws.Session

An open WebSocket session of `ws.c`, in either role: frame output, the frame parser and the
calls `zcio_ws_send`, `zcio_ws_recv`, `zcio_ws_ping` and `zcio_ws_close`.

The transport, the clock and the entropy source are scripts: what each further read, write and
look at the clock will bring. A script that is at its end blocks a read, takes all of a write
and gives the zero key. `wire`, `sent` and `got` record what went through the transport.
-/

namespace Zcio

/-! ### Frames

Opcodes, masks and the header as the code writes it. -/

/-- `WS_OP_*`: the opcodes in use. -/
inductive WsOpcode where
  | cont
  | text
  | bin
  | close
  | ping
  | pong
  deriving Repr, DecidableEq

/-- The low nibble of the first octet. -/
def WsOpcode.code : WsOpcode → UInt8
  | .cont => 0x0
  | .text => 0x1
  | .bin => 0x2
  | .close => 0x8
  | .ping => 0x9
  | .pong => 0xA

/-- The opcode of a nibble that is in use. -/
def WsOpcode.ofCode (c : UInt8) : Option WsOpcode :=
  [cont, text, bin, close, ping, pong].find? fun op => op.code = c

/-- `zcio_ws_type`. -/
inductive WsType where
  | text
  | binary
  deriving Repr, DecidableEq

/-- The value of the enumeration. -/
def WsType.code : WsType → Int
  | .text => 1
  | .binary => 2

/-- `zcio_ws_msg`. -/
structure WsMsg where
  type : WsType
  data : Bytes
  deriving Repr, DecidableEq

/-- A masking key. -/
abbrev MaskKey := { k : Bytes // k.length = 4 }

/-- `s` masked, where its first octet is octet `off` of the payload. -/
def wsMask (key : MaskKey) (off : Nat) (s : Bytes) : Bytes :=
  s.mapIdx fun i b => b ^^^ key.1.getD ((off + i) % 4) 0

/-- A frame that is sent; a server uses no key. -/
structure WsFrame where
  fin : Bool
  opcode : WsOpcode
  key : Option MaskKey
  payload : Bytes

/-- The header of `ws_send_frame`. -/
def WsFrame.header (f : WsFrame) : Bytes :=
  let mbit : UInt8 := if f.key.isSome then 0x80 else 0
  let len := f.payload.length
  ((if f.fin then 0x80 else 0) ||| (f.opcode.code &&& 0x0f)) ::
    ((if len < 126 then [mbit ||| UInt8.ofNat len]
      else if len ≤ 0xffff then [mbit ||| 126, UInt8.ofNat (len / 2 ^ 8), UInt8.ofNat len]
      else (mbit ||| 127) :: be64 len) ++
    (match f.key with
      | none => []
      | some key => key.1))

/-- The payload as it is sent. -/
def WsFrame.masked (f : WsFrame) : Bytes :=
  match f.key with
  | none => f.payload
  | some key => wsMask key 0 f.payload

/-- A complete frame. -/
def WsFrame.encode (f : WsFrame) : Bytes := f.header ++ f.masked

/-! ### The transport -/

/-- The buffer of `ws_fill`. -/
def WS_FILL : Nat := 4096

/-- What a `zcio_read` into the buffer of `ws_fill` brings. -/
inductive WsRead where
  | octets (b : { b : Bytes // b ≠ [] ∧ b.length ≤ WS_FILL })
  /-- `ZCIO_ERR_TIMEOUT` or `ZCIO_ERR_WOULDBLOCK`. -/
  | timeout
  /-- Nothing, or `ZCIO_ERR_EOF`. -/
  | eof
  /-- Any other negative result. -/
  | error (e : Int)

/-- A frame of which `put` octets went out. -/
structure WsSent where
  frame : WsFrame
  put : Nat

/-- The transport of a session, with the clock and the entropy source. -/
structure WsIo where
  reads : List WsRead := []
  writes : List (Except Int Nat) := []
  keys : List (Option MaskKey) := []
  /-- The time that passes before each look at the clock. -/
  ticks : List Nat := []
  now : Nat := 0
  timeoutMs : Int := 0
  wire : Bytes := []
  sent : List WsSent := []
  got : Bytes := []

/-- `zcio_write` on the transport. -/
def wsWrite (io : WsIo) (src : Bytes) : Except Int Nat × WsIo :=
  match io.writes with
  | [] => (.ok src.length, { io with wire := io.wire ++ src })
  | .ok k :: ws =>
    let n := min k src.length
    (.ok n, { io with writes := ws, wire := io.wire ++ src.take n })
  | .error e :: ws => (.error e, { io with writes := ws })

/-- `zcio_write_full`, compared with the length it was given. -/
def wsWriteAll (io : WsIo) (s : Bytes) : Bool × WsIo :=
  let r := zcioWriteFull wsWrite io s
  (match r.1 with
    | .ok n => n == s.length
    | .error _ => false, r.2)

/-- `zcio_rand_bytes_` for a masking key. -/
def wsRandKey (io : WsIo) : Option MaskKey × WsIo :=
  match io.keys with
  | [] => (some ⟨[0, 0, 0, 0], rfl⟩, io)
  | k :: ks => (k, { io with keys := ks })

/-- `zcio_now_ms_`. -/
def zcioNowMs (io : WsIo) : Nat × WsIo :=
  let now := io.now + io.ticks.headD 0
  (now, { io with now := now, ticks := io.ticks.tail })

/-- `ws_apply_timeout`. -/
def wsApplyTimeout (io : WsIo) (timeoutMs : Int) : WsIo := { io with timeoutMs := timeoutMs }

/-! ### The session -/

/-- `WS_DEFAULT_MAX_MSG`. -/
def WS_DEFAULT_MAX_MSG : Nat := 16 * 1024 * 1024

/-- `WS_DEFAULT_TIMEOUT`. -/
def WS_DEFAULT_TIMEOUT : Nat := 30000

/-- `zcio_ws`. -/
structure Ws where
  isServer : Bool
  inp : Bytes := []
  frag : Bytes := []
  curOpcode : WsOpcode := .cont
  fragActive : Bool := false
  maxMsgBytes : Nat := WS_DEFAULT_MAX_MSG
  timeoutMs : Int := WS_DEFAULT_TIMEOUT
  closeSent : Bool := false
  closeRecv : Bool := false
  failed : Bool := false
  closeCode : Nat := 0
  io : WsIo := {}

/-- `zhs_buf_consume_` on the input. -/
def Ws.consume (ws : Ws) (n : Nat) : Ws := { ws with inp := ws.inp.drop n }

/-- The negative results of the calls. -/
inductive WsErr where
  /-- A code and its recorded text. -/
  | fail (f : Fail)
  | timeout
  | eof
  /-- The result of the transport. -/
  | stream (e : Int)
  deriving Repr, DecidableEq

/-! ### Output

A frame is masked chunk by chunk into a buffer of the stack. -/

/-- The chunk in which a payload is masked. -/
def WS_CHUNK : Nat := 1024

/-- The loop that masks and writes the rest of a payload from offset `off` on; a round writes
an octet at least. -/
def wsSendChunks (key : MaskKey) : Nat → WsIo → Nat → Bytes → Bool × WsIo
  | 0, io, _, _ => (true, io)
  | fuel + 1, io, off, rest =>
    if rest = [] then (true, io)
    else
      let chunk := wsMask key off (rest.take WS_CHUNK)
      let r := wsWriteAll io chunk
      if r.1 then wsSendChunks key fuel r.2 (off + chunk.length) (rest.drop WS_CHUNK)
      else (false, r.2)

/-- The payload's part of `ws_send_frame`. -/
def wsPutPayload (io : WsIo) (f : WsFrame) : Bool × WsIo :=
  match f.key with
  | none => wsWriteAll io f.payload
  | some key => wsSendChunks key f.payload.length io 0 f.payload

/-- `ws_send_frame` from the header's write on. -/
def wsPutFrame (io : WsIo) (f : WsFrame) : Except Fail Unit × WsIo :=
  let h := wsWriteAll io f.header
  if h.1 = false then (zcioFail .err "ws: frame header write failed", h.2)
  else if f.payload = [] then (.ok (), h.2)
  else
    let r := wsPutPayload h.2 f
    if r.1 = false then (zcioFail .err "ws: frame payload write failed", r.2)
    else (.ok (), r.2)

/-- The key of a frame: none in the server's role, and a failure without entropy. -/
def wsFrameKey (ws : Ws) : Option (Option MaskKey) × WsIo :=
  if ws.isServer then (some none, ws.io)
  else
    let r := wsRandKey ws.io
    (r.1.map some, r.2)

/-- `ws_send_frame`. -/
def wsSendFrame (ws : Ws) (opcode : WsOpcode) (fin : Bool) (data : Bytes) :
    Except Fail Unit × Ws :=
  let k := wsFrameKey ws
  match k.1 with
  | none => (zcioFail .err "ws: entropy for mask key failed", { ws with io := k.2 })
  | some key =>
    let f : WsFrame := { fin, opcode, key, payload := data }
    let r := wsPutFrame (wsApplyTimeout k.2 ws.timeoutMs) f
    (r.1, { ws with
      io := { r.2 with sent := r.2.sent ++ [⟨f, r.2.wire.length - k.2.wire.length⟩] } })

/-- What `ws_pump` returns. -/
inductive PumpRes where
  | msg (m : WsMsg)
  | more
  | closed
  | fail (e : WsErr)
  deriving Repr, DecidableEq

/-- A close code on the wire. -/
def wsCode (code : Nat) : Bytes := [UInt8.ofNat (code / 2 ^ 8), UInt8.ofNat code]

/-- The close frame of `ws_protocol_fail` and of the echo, unless one was sent. Whether it goes
out is not looked at. -/
def wsSendClose (ws : Ws) (payload : Bytes) : Ws :=
  if ws.closeSent then ws
  else { (wsSendFrame ws .close true payload).2 with closeSent := true }

/-- `ws_protocol_fail`. -/
def wsProtocolFail (ws : Ws) (code : Nat) (msg : String) : PumpRes × Ws :=
  (.fail (.fail { code := .protocol, msg := "ws: " ++ msg }),
    { wsSendClose ws (wsCode code) with failed := true })

/-! ### Input

Octets are read into one buffer and taken off its front frame by frame. -/

/-- `ws_fill`; `none` while the read blocks. -/
def wsFill (ws : Ws) (timeoutMs : Int) : Option (Except WsErr Unit) × Ws :=
  let io := wsApplyTimeout ws.io timeoutMs
  match io.reads with
  | [] => (none, { ws with io := io })
  | .octets b :: reads =>
    (some (.ok ()), { ws with
      inp := ws.inp ++ b.1, io := { io with reads := reads, got := io.got ++ b.1 } })
  | .timeout :: reads => (some (.error .timeout), { ws with io := { io with reads := reads } })
  | .eof :: reads => (some (.error .eof), { ws with io := { io with reads := reads } })
  | .error e :: reads => (some (.error (.stream e)), { ws with io := { io with reads := reads } })

/-- `ws_emit`. -/
def wsEmit (opcode : WsOpcode) (data : Bytes) : PumpRes :=
  .msg { type := if opcode = .text then .text else .binary, data }

/-- A number in network order. -/
def beNat (s : Bytes) : Nat := s.foldl (fun v b => v * 2 ^ 8 + b.toNat) 0

/-- The close codes that are valid on the wire. -/
def wsCloseCodeOk (code : Nat) : Bool :=
  (1000 ≤ code && code ≤ 1003) || (1007 ≤ code && code ≤ 1014) || (3000 ≤ code && code ≤ 4999)

/-- `case WS_OP_CLOSE` of `ws_pump`. -/
def wsPumpClose (ws : Ws) (payload : Bytes) (total : Nat) : PumpRes × Ws :=
  let len := payload.length
  let code := if 2 ≤ len then beNat (payload.take 2) else 1005
  if len = 1 then wsProtocolFail (ws.consume total) 1002 "malformed close payload"
  else if 2 ≤ len ∧ wsCloseCodeOk code = false then
    wsProtocolFail (ws.consume total) 1002 "invalid close code"
  else if 2 < len ∧ zhsUtf8Valid (payload.drop 2) = false then
    wsProtocolFail (ws.consume total) 1007 "close reason not UTF-8"
  else
    let ws := { ws with closeCode := code, closeRecv := true }
    (.closed, (wsSendClose ws (if 2 ≤ len then wsCode code else [])).consume total)

/-- `case WS_OP_TEXT` and `case WS_OP_BIN` of `ws_pump`. -/
def wsPumpData (ws : Ws) (opcode : WsOpcode) (fin : Bool) (payload : Bytes) (total : Nat) :
    Ws ⊕ (PumpRes × Ws) :=
  if ws.fragActive then
    .inr (wsProtocolFail ws 1002 "new data frame during fragmented message")
  else if fin then
    if opcode = .text ∧ zhsUtf8Valid payload = false then
      .inr (wsProtocolFail (ws.consume total) 1007 "invalid UTF-8 text message")
    else .inr (wsEmit opcode payload, ws.consume total)
  else
    .inl ({ ws with fragActive := true, curOpcode := opcode, frag := ws.frag ++ payload }.consume
      total)

/-- `case WS_OP_CONT` of `ws_pump`. -/
def wsPumpCont (ws : Ws) (fin : Bool) (payload : Bytes) (total : Nat) : Ws ⊕ (PumpRes × Ws) :=
  if ws.fragActive = false then
    .inr (wsProtocolFail ws 1002 "continuation with no message in progress")
  else
    let data := ws.frag ++ payload
    if fin then
      let done := { ws.consume total with fragActive := false, frag := [] }
      if ws.curOpcode = .text ∧ zhsUtf8Valid data = false then
        .inr (wsProtocolFail done 1007 "invalid UTF-8 text message")
      else .inr (wsEmit ws.curOpcode data, done)
    else .inl { ws.consume total with frag := data }

/-- The `switch` of `ws_pump` on a frame of `total` octets whose payload is unmasked. -/
def wsPumpFrame (ws : Ws) (opcode : WsOpcode) (fin : Bool) (payload : Bytes) (total : Nat) :
    Ws ⊕ (PumpRes × Ws) :=
  match opcode with
  | .ping =>
    let s := wsSendFrame ws .pong true payload
    match s.1 with
    | .ok () => .inl (s.2.consume total)
    | .error e => .inr (.fail (.fail e), s.2.consume total)
  | .pong => .inl (ws.consume total)
  | .close => .inr (wsPumpClose ws payload total)
  | .text => wsPumpData ws .text fin payload total
  | .bin => wsPumpData ws .bin fin payload total
  | .cont => wsPumpCont ws fin payload total

/-- The header's fields that `ws_pump` reads. -/
structure WsHead where
  opcode : UInt8
  fin : Bool
  masked : Bool
  /-- Where the key or the payload begins. -/
  base : Nat
  len : Nat

/-- The rest of a round of `ws_pump`, with the opcode known to be in use. -/
def wsPumpBody (ws : Ws) (opcode : WsOpcode) (h : WsHead) : Ws ⊕ (PumpRes × Ws) :=
  let p := ws.inp
  let avail := p.length
  let control := h.opcode &&& 0x08 ≠ 0
  if control ∧ (h.fin = false ∨ 125 < h.len) then
    .inr (wsProtocolFail ws 1002 "fragmented or oversized control frame")
  else if ¬control ∧ (ws.maxMsgBytes < ws.frag.length ∨
      ws.maxMsgBytes - ws.frag.length < h.len) then
    .inr (wsProtocolFail ws 1009 "message exceeds max_msg_bytes")
  else
    let dataOff := if h.masked then h.base + 4 else h.base
    if avail < dataOff then .inr (.more, ws)
    else if SIZE_MAX - dataOff < h.len then
      .inr (wsProtocolFail ws 1009 "frame length overflow")
    else
      let total := dataOff + h.len
      if avail < total then .inr (.more, ws)
      else
        let raw := (p.drop dataOff).take h.len
        let payload :=
          if h.masked then raw.mapIdx fun i b => b ^^^ ((p.drop h.base).take 4).getD (i % 4) 0
          else raw
        -- the payload is unmasked in place
        wsPumpFrame { ws with inp := p.take dataOff ++ payload ++ p.drop total } opcode h.fin
          payload total

/-- A round of `ws_pump`. -/
def wsPumpRound (ws : Ws) : Ws ⊕ (PumpRes × Ws) :=
  let p := ws.inp
  let avail := p.length
  if avail < 2 then .inr (.more, ws)
  else
    let p0 := p.getD 0 0
    let p1 := p.getD 1 0
    if p0 &&& 0x70 ≠ 0 then .inr (wsProtocolFail ws 1002 "reserved bit set")
    else
      let len7 := (p1 &&& 0x7f).toNat
      let base := if len7 = 126 then 4 else if len7 = 127 then 10 else 2
      if avail < base then .inr (.more, ws)
      else
        let len :=
          if len7 = 126 then beNat ((p.drop 2).take 2)
          else if len7 = 127 then beNat ((p.drop 2).take 8)
          else len7
        let masked := decide (p1 &&& 0x80 ≠ 0)
        if len7 = 127 ∧ 2 ^ 63 ≤ len then
          .inr (wsProtocolFail ws 1002 "64-bit length high bit set")
        else if ws.isServer = true ∧ masked = false then
          .inr (wsProtocolFail ws 1002 "unmasked client frame")
        else if ws.isServer = false ∧ masked = true then
          .inr (wsProtocolFail ws 1002 "masked server frame")
        else
          match WsOpcode.ofCode (p0 &&& 0x0f) with
          | none => .inr (wsProtocolFail ws 1002 "reserved opcode")
          | some opcode =>
            wsPumpBody ws opcode
              { opcode := p0 &&& 0x0f, fin := decide (p0 &&& 0x80 ≠ 0), masked, base, len }

end Zcio
