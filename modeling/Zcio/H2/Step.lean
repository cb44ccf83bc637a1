import Zcio.H2.Table
import Mathlib.Logic.Relation

/-!
# Zcio.H2.Step

The connection as a **transition system**. `Step` says once what can happen to a
connection, in pieces small enough that the invariants of later modules hold between any
two of them: a frame is recorded as received in the same step that accounts for it, and a
stream is half-closed by the client in the same step that dispatches it.

`Reachable` is what a run of the code passes through: the state behind every frame of a
`zh2_feed_` call and behind every other call. `Reachable.run` ties the two together, and
`Run.induct` is the invariant rule every later module uses.
-/

namespace Zcio

variable (g : H2Cfg)

/-! ### Pieces of the handlers -/

/-- No header block is in progress and no connection error was raised: any frame but
CONTINUATION is taken. -/
def Zh2Conn.Between (c : Zh2Conn) : Prop := c.gotError = false ∧ c.hdrActive = false

/-- A frame that a handler reads without any effect. -/
structure Frame.Inert (f : Frame) (c : Zh2Conn) : Prop where
  notData : f.type ≠ ZH2_FT_DATA
  settings : f.type = ZH2_FT_SETTINGS → hasFlag f.flags ZH2_FL_ACK = true
  closed : f.type = ZH2_FT_WINDOW_UPDATE ∨ f.type = ZH2_FT_RST_STREAM →
    f.sid ≠ 0 ∧ findStream c f.sid = none ∧ f.sid ≤ c.lastClientId

theorem Frame.Inert.of_type {f : Frame} {c : Zh2Conn}
    (h : f.type ∉ [ZH2_FT_DATA, ZH2_FT_SETTINGS, ZH2_FT_WINDOW_UPDATE, ZH2_FT_RST_STREAM]) :
    f.Inert c := by
  simp only [List.mem_cons, List.not_mem_nil, or_false, not_or] at h
  exact ⟨h.1, fun hs => absurd hs h.2.1, fun hc => absurd hc (not_or.mpr h.2.2)⟩

/-- A connection error that leaves a RST_STREAM unread: it stands in the wrong place or
has the wrong size. -/
def Frame.Refused (f : Frame) (code : Nat) : Prop :=
  f.type = ZH2_FT_RST_STREAM → code = ZH2_E_PROTOCOL_ERROR ∨ f.payload.length ≠ 4

theorem Frame.Refused.of_type {f : Frame} {code : Nat} (h : f.type ≠ ZH2_FT_RST_STREAM) :
    f.Refused code :=
  fun ht => absurd ht h

/-! ### Field blocks on the wire

The payloads of a HEADERS frame and of the CONTINUATION frames behind it, joined, are the
field block they carry. `Zh2Conn.Whole` says that of a block still in progress: what was
gathered is what the frames in the history brought. -/

/-- The stream of the frame received last. -/
def lastSid : List H2Event → Option Nat
  | [] => none
  | .recv f :: _ => some f.sid
  | _ :: h => lastSid h

/-- The field block that the frames received last carry: HEADERS, less its padding and its
priority, and the CONTINUATION frames behind it. -/
def wireBlock : List H2Event → Bytes
  | [] => []
  | .recv f :: h =>
    if f.type = ZH2_FT_CONTINUATION then wireBlock h ++ f.payload
    else (stripHeaders f.flags f.payload).getD []
  | _ :: h => wireBlock h

/-- The block put together is that of the frames received, on their stream. -/
structure Zh2Conn.Whole (c : Zh2Conn) : Prop where
  octets : c.hdrBlock = wireBlock c.hist
  sid : lastSid c.hist = some c.hdrId
  stream : ∀ id, c.hdrStream = some id → id = c.hdrId

/-- INITIAL_WINDOW_SIZE and MAX_FRAME_SIZE behind a SETTINGS payload. -/
def settingsOf (s : Nat × Nat) : Bytes → Nat × Nat
  | i0 :: i1 :: v0 :: v1 :: v2 :: v3 :: rest =>
    let sid := rd [i0, i1]
    let val := rd [v0, v1, v2, v3]
    if sid = ZH2_S_INITIAL_WINDOW_SIZE then settingsOf (val, s.2) rest
    else if sid = ZH2_S_MAX_FRAME_SIZE then settingsOf (s.1, val) rest
    else settingsOf s rest
  | _ => s

/-- A stream's send window moved by `delta`. -/
def Zh2Stream.shift (delta : Int) (st : Zh2Stream) : Zh2Stream :=
  { st with sendWindow := st.sendWindow + delta }

/-- A stream but for its send window. -/
def Zh2Stream.core (st : Zh2Stream) : Zh2Stream := { st with sendWindow := 0 }

/-- Each stream is as it was but for its send window. -/
def Shifted (sts sts' : List Zh2Stream) : Prop := sts'.map (·.core) = sts.map (·.core)

/-- The streams and the peer's settings behind SETTINGS entries. -/
def retune (c : Zh2Conn) (streams : List Zh2Stream) (w m : Nat) : Zh2Conn :=
  { c with streams, peerInitialWindow := w, peerMaxFrame := m }

/-- `h2_dispatch` up to the call of `zhs_dispatch_`. -/
def h2Mark (c : Zh2Conn) (id : Nat) : Zh2Conn :=
  match findStream c id with
  | none => c
  | some st =>
    if st.dispatched then c
    else
      (updateStream c id fun s => { s with dispatched := true, req := h2Request g st }).log
        (.dispatched id (h2Request g st))

/-- What `zhs_dispatch_` answers the request that was dispatched last with. -/
def IsReply (h : List H2Event) (id : Nat) (isHead : Bool) (status : Nat)
    (hdrs : List (Bytes × Bytes)) (body : RespBody) : Prop :=
  ∃ req t, h = .dispatched id req :: t ∧ isHead = req.isHead ∧
    status = (g.srv.answer (requestsOf t) req).status.toNat ∧
    hdrs = finalHeaders g.srv req.secure (g.srv.date (requestsOf t).length)
      (g.srv.answer (requestsOf t) req).headers ∧
    body = (g.srv.answer (requestsOf t) req).body

/-- The decode of the reassembled block. -/
def blockRes (c : Zh2Conn) : DecodeRes HdrCtx :=
  zhpDecode c.dec c.hdrBlock g.lim.maxHeaderBytes (h2Emit g.lim) { trailer := c.hdrTrailer }

/-- The connection behind that decode, its reassembly state cleared. -/
def blockDone (c : Zh2Conn) : Zh2Conn :=
  clearHdr ({ c with dec := (blockRes g c).d }.log (.block c.hdrTrailer c.hdrBlock))

/-- A new stream id, accepted or not. -/
def countStream (c : Zh2Conn) (id : Nat) : Zh2Conn :=
  { c with lastClientId := id, totalStreams := c.totalStreams + 1 }

/-- Body octets of a DATA frame arrive on a stream. -/
def appendBody (c : Zh2Conn) (id : Nat) (data : Bytes) : Zh2Conn :=
  updateStream c id fun st => { st with req := { st.req with body := st.req.body ++ data } }

/-! Frame lemmas for the pieces. -/

section Frames

variable {g} (c : Zh2Conn)

@[simp] theorem qSettingsAck_frame :
    (qSettingsAck c).hist =
      .sent { type := ZH2_FT_SETTINGS, flags := ZH2_FL_ACK, sid := 0 } :: c.hist ∧
    (qSettingsAck c).toZh2Flow = c.toZh2Flow ∧ (qSettingsAck c).toZh2Table = c.toZh2Table ∧
    (qSettingsAck c).toZh2Hdr = c.toZh2Hdr ∧ (qSettingsAck c).dec = c.dec ∧
    (qSettingsAck c).gotError = c.gotError :=
  ⟨rfl, rfl, rfl, rfl, rfl, rfl⟩

@[simp] theorem qPingAck_frame (data : Bytes) :
    (qPingAck c data).hist =
      .sent { type := ZH2_FT_PING, flags := ZH2_FL_ACK, sid := 0, payload := data } :: c.hist ∧
    (qPingAck c data).toZh2Flow = c.toZh2Flow ∧ (qPingAck c data).toZh2Table = c.toZh2Table ∧
    (qPingAck c data).toZh2Hdr = c.toZh2Hdr ∧ (qPingAck c data).dec = c.dec ∧
    (qPingAck c data).gotError = c.gotError :=
  ⟨rfl, rfl, rfl, rfl, rfl, rfl⟩

@[simp] theorem zh2Graceful_frame :
    (zh2Graceful c).hist =
      (if c.goawaySent then [] else [.sent (goawayFrame c.lastClientId ZH2_E_NO_ERROR)]) ++
        c.hist ∧
    (zh2Graceful c).toZh2Flow = c.toZh2Flow ∧ (zh2Graceful c).toZh2Table = c.toZh2Table ∧
    (zh2Graceful c).toZh2Hdr = c.toZh2Hdr ∧ (zh2Graceful c).dec = c.dec ∧
    (zh2Graceful c).gotError = c.gotError := by
  obtain ⟨h1, h2, h3, h4, h5, h6, -⟩ := qGoaway_frame c ZH2_E_NO_ERROR
  exact ⟨h1, h2, h3, h4, h5, h6⟩

@[simp] theorem retune_frame (sts : List Zh2Stream) (w m : Nat) :
    (retune c sts w m).hist = c.hist ∧ (retune c sts w m).toZh2Hdr = c.toZh2Hdr ∧
    (retune c sts w m).toZh2Table = { c.toZh2Table with streams := sts } ∧
    (retune c sts w m).toZh2Flow =
      { c.toZh2Flow with peerInitialWindow := w, peerMaxFrame := m } ∧
    (retune c sts w m).dec = c.dec ∧ (retune c sts w m).gotError = c.gotError :=
  ⟨rfl, rfl, rfl, rfl, rfl, rfl⟩

@[simp] theorem blockDone_frame :
    (blockDone g c).hist = .block c.hdrTrailer c.hdrBlock :: c.hist ∧
    (blockDone g c).dec = (blockRes g c).d ∧ (blockDone g c).toZh2Hdr = {} ∧
    (blockDone g c).toZh2Flow = c.toZh2Flow ∧ (blockDone g c).toZh2Table = c.toZh2Table ∧
    (blockDone g c).gotError = c.gotError :=
  ⟨rfl, rfl, rfl, rfl, rfl, rfl⟩

@[simp] theorem countStream_frame (id : Nat) :
    (countStream c id).hist = c.hist ∧ (countStream c id).toZh2Hdr = c.toZh2Hdr ∧
    (countStream c id).toZh2Flow = c.toZh2Flow ∧ (countStream c id).dec = c.dec ∧
    (countStream c id).gotError = c.gotError ∧ (countStream c id).streams = c.streams ∧
    (countStream c id).lastClientId = id ∧ (countStream c id).rapidReset = c.rapidReset :=
  ⟨rfl, rfl, rfl, rfl, rfl, rfl, rfl, rfl⟩

@[simp] theorem h2StreamNew_frame (id : Nat) :
    (h2StreamNew c id).hist = c.hist ∧ (h2StreamNew c id).toZh2Hdr = c.toZh2Hdr ∧
    (h2StreamNew c id).toZh2Flow = c.toZh2Flow ∧ (h2StreamNew c id).dec = c.dec ∧
    (h2StreamNew c id).gotError = c.gotError ∧
    (h2StreamNew c id).streams = c.streams ++ [{ id, sendWindow := c.peerInitialWindow }] ∧
    (h2StreamNew c id).lastClientId = c.lastClientId ∧
    (h2StreamNew c id).rapidReset = c.rapidReset :=
  ⟨rfl, rfl, rfl, rfl, rfl, rfl, rfl, rfl⟩

@[simp] theorem h2Mark_frame (id : Nat) :
    (h2Mark g c id).toZh2Hdr = c.toZh2Hdr ∧ (h2Mark g c id).toZh2Flow = c.toZh2Flow ∧
    (h2Mark g c id).dec = c.dec ∧ (h2Mark g c id).gotError = c.gotError ∧
    (h2Mark g c id).lastClientId = c.lastClientId ∧
    (h2Mark g c id).rapidReset = c.rapidReset := by
  unfold h2Mark
  split
  · exact ⟨rfl, rfl, rfl, rfl, rfl, rfl⟩
  · split
    · exact ⟨rfl, rfl, rfl, rfl, rfl, rfl⟩
    · exact ⟨rfl, rfl, rfl, rfl, rfl, rfl⟩

/-- A run of frames in the history. -/
theorem foldl_h2Frame_hist (fs : List Frame) :
    (fs.foldl h2Frame c).hist = (fs.map H2Event.sent).reverse ++ c.hist := by
  induction fs generalizing c with
  | nil => rfl
  | cons f fs ih => simp [ih]

@[simp] theorem foldl_h2Frame_frame (fs : List Frame) :
    (fs.foldl h2Frame c).toZh2Hdr = c.toZh2Hdr ∧ (fs.foldl h2Frame c).toZh2Flow = c.toZh2Flow ∧
    (fs.foldl h2Frame c).toZh2Table = c.toZh2Table ∧ (fs.foldl h2Frame c).dec = c.dec ∧
    (fs.foldl h2Frame c).gotError = c.gotError := by
  induction fs generalizing c with
  | nil => exact ⟨rfl, rfl, rfl, rfl, rfl⟩
  | cons f fs ih => exact ih (h2Frame c f)

/-- The frames `zh2_respond` emits. -/
def respFrames (id : Nat) (isHead : Bool) (status : Nat) (hdrs : List (Bytes × Bytes))
    (body : RespBody) : List Frame :=
  headerFrames id (sentBody isHead status body).isEmpty
    (fragments (if c.peerMaxFrame ≠ 0 then c.peerMaxFrame else ZH2_DEFAULT_MAX_FRAME)
      (fieldBlock status hdrs))

variable {c}

theorem contFrames_type {id : Nat} {ps : List Bytes} {f : Frame} (h : f ∈ contFrames id ps) :
    f.type = ZH2_FT_CONTINUATION ∧ f.sid = id := by
  induction ps with
  | nil => cases h
  | cons p ps ih =>
    cases ps with
    | nil =>
      cases List.mem_singleton.mp h
      exact ⟨rfl, rfl⟩
    | cons q ps =>
      rcases List.mem_cons.mp h with rfl | h
      · exact ⟨rfl, rfl⟩
      · exact ih h

/-- A response is made of HEADERS and CONTINUATION frames on its stream. -/
theorem respFrames_type {id : Nat} {isHead : Bool} {status : Nat} {hdrs : List (Bytes × Bytes)}
    {body : RespBody} {f : Frame} (h : f ∈ respFrames c id isHead status hdrs body) :
    (f.type = ZH2_FT_HEADERS ∨ f.type = ZH2_FT_CONTINUATION) ∧ f.sid = id := by
  unfold respFrames headerFrames at h
  split at h
  · cases h
  · rcases List.mem_cons.mp h with rfl | h
    · exact ⟨.inl rfl, rfl⟩
    · exact ⟨.inr (contFrames_type h).1, (contFrames_type h).2⟩

theorem contFrames_payload {id : Nat} {ps : List Bytes} :
    (contFrames id ps).map (·.payload) = ps := by
  induction ps with
  | nil => rfl
  | cons p ps ih =>
    cases ps with
    | nil => rfl
    | cons q ps => exact congrArg (p :: ·) ih

/-- The payloads of a response's HEADERS and CONTINUATION frames are the pieces. -/
theorem headerFrames_payload {id : Nat} {e : Bool} {ps : List Bytes} :
    (headerFrames id e ps).map (·.payload) = ps := by
  cases ps with
  | nil => rfl
  | cons p ps => exact congrArg (p :: ·) contFrames_payload

theorem fragmentsN_le {maxf n : Nat} (hpos : 0 < maxf) {fb p : Bytes} (hn : fb.length ≤ n)
    (h : p ∈ fragmentsN maxf n fb) : p.length ≤ maxf := by
  induction n generalizing fb with
  | zero =>
    cases List.mem_singleton.mp h
    omega
  | succ n ih =>
    unfold fragmentsN at h
    split at h
    · cases List.mem_singleton.mp h
      assumption
    · rcases List.mem_cons.mp h with rfl | h
      · exact List.length_take_le _ _
      · refine ih ?_ h
        rw [List.length_drop]
        omega

/-- No frame of a response's headers is larger than the peer allows. -/
theorem respFrames_le {id : Nat} {isHead : Bool} {status : Nat} {hdrs : List (Bytes × Bytes)}
    {body : RespBody} {f : Frame} (hpos : 0 < c.peerMaxFrame)
    (h : f ∈ respFrames c id isHead status hdrs body) : f.payload.length ≤ c.peerMaxFrame := by
  unfold respFrames at h
  rw [if_pos hpos.ne'] at h
  have hmem := List.mem_map_of_mem (f := (·.payload)) h
  rw [headerFrames_payload] at hmem
  exact fragmentsN_le hpos (Nat.le_refl _) hmem

/-- A stream behind `zh2_respond`. -/
def Zh2Stream.answered (data : Bytes) (st : Zh2Stream) : Zh2Stream :=
  { st with
    respHeadersDone := true
    responded := true
    respBody := data
    respEndAfterBody := !data.isEmpty
    sendDone := data.isEmpty }

theorem zh2Respond_eq {id : Nat} {st : Zh2Stream} {isHead : Bool} {status : Nat}
    {hdrs : List (Bytes × Bytes)} {body : RespBody} (hst : findStream c id = some st)
    (hresp : st.responded = false) :
    zh2Respond id isHead c status hdrs body =
      updateStream ((respFrames c id isHead status hdrs body).foldl h2Frame
        (c.log (.responded id isHead status hdrs body))) id
        (.answered (sentBody isHead status body)) := by
  unfold zh2Respond
  rw [hst]
  dsimp only
  rw [if_neg (by rw [hresp]; exact Bool.false_ne_true)]
  rfl

/-- The DATA frame of `zh2_pump_`. -/
def dataFrame (st : Zh2Stream) (chunk : Nat) : Frame :=
  { type := ZH2_FT_DATA
    flags := if st.bodyOff + chunk = st.respBody.length ∧ st.respEndAfterBody then
      ZH2_FL_END_STREAM else 0
    sid := st.id
    payload := (st.respBody.drop st.bodyOff).take chunk }

/-- A stream behind a DATA frame of `chunk` octets. -/
def Zh2Stream.sentData (last : Prop) [Decidable last] (chunk : Nat) (st : Zh2Stream) :
    Zh2Stream :=
  { st with
    bodyOff := st.bodyOff + chunk
    sendWindow := st.sendWindow - chunk
    sendDone := if last then true else st.sendDone }

theorem pumpData_eq (c : Zh2Conn) (st : Zh2Stream) (chunk : Nat) :
    pumpData c st chunk =
      { updateStream (h2Frame c (dataFrame st chunk)) st.id
          (.sentData (st.bodyOff + chunk = st.respBody.length) chunk) with
        sendWindow := c.sendWindow - chunk } := rfl

/-! Nothing but the preface touches `prefaceDone`. -/

@[simp] theorem prefaceDone_log (e : H2Event) : (c.log e).prefaceDone = c.prefaceDone := rfl
@[simp] theorem prefaceDone_h2Frame (f : Frame) :
    (h2Frame c f).prefaceDone = c.prefaceDone := rfl
@[simp] theorem prefaceDone_qRst (id code : Nat) :
    (qRst c id code).prefaceDone = c.prefaceDone := rfl
@[simp] theorem prefaceDone_updateStream (id : Nat) (f : Zh2Stream → Zh2Stream) :
    (updateStream c id f).prefaceDone = c.prefaceDone := rfl
@[simp] theorem prefaceDone_streamClose (i : Nat) :
    (streamClose c i).prefaceDone = c.prefaceDone := rfl
@[simp] theorem prefaceDone_beginHdr (f : Frame) (st : Option Nat) (refuse : Nat)
    (trailer : Bool) : (beginHdr c f st refuse trailer).prefaceDone = c.prefaceDone := rfl
@[simp] theorem prefaceDone_retune (sts : List Zh2Stream) (w m : Nat) :
    (retune c sts w m).prefaceDone = c.prefaceDone := rfl
@[simp] theorem prefaceDone_blockDone : (blockDone g c).prefaceDone = c.prefaceDone := rfl
@[simp] theorem prefaceDone_countStream (id : Nat) :
    (countStream c id).prefaceDone = c.prefaceDone := rfl
@[simp] theorem prefaceDone_h2StreamNew (id : Nat) :
    (h2StreamNew c id).prefaceDone = c.prefaceDone := rfl
@[simp] theorem prefaceDone_qSettingsAck : (qSettingsAck c).prefaceDone = c.prefaceDone := rfl
@[simp] theorem prefaceDone_qPingAck (data : Bytes) :
    (qPingAck c data).prefaceDone = c.prefaceDone := rfl

@[simp] theorem prefaceDone_qWindowUpdate (id incr : Nat) :
    (qWindowUpdate c id incr).prefaceDone = c.prefaceDone := by
  unfold qWindowUpdate
  split <;> rfl

@[simp] theorem prefaceDone_qGoaway (code : Nat) :
    (qGoaway c code).prefaceDone = c.prefaceDone := by
  unfold qGoaway
  split <;> rfl

@[simp] theorem prefaceDone_connError (code : Nat) :
    (connError c code).prefaceDone = c.prefaceDone :=
  prefaceDone_qGoaway (c := c.log (.error code)) code

@[simp] theorem prefaceDone_zh2Graceful : (zh2Graceful c).prefaceDone = c.prefaceDone :=
  prefaceDone_qGoaway ZH2_E_NO_ERROR

@[simp] theorem prefaceDone_closeById (id : Nat) :
    (closeById c id).prefaceDone = c.prefaceDone := by
  unfold closeById
  split <;> rfl

@[simp] theorem prefaceDone_rstStream (id code : Nat) :
    (rstStream c id code).prefaceDone = c.prefaceDone :=
  prefaceDone_closeById (c := qRst c id code) id

@[simp] theorem prefaceDone_recvConsumeConn (len : Nat) :
    (recvConsumeConn c len).prefaceDone = c.prefaceDone :=
  prefaceDone_qWindowUpdate 0 (topUp c.recvWindow len).2

@[simp] theorem prefaceDone_h2Mark (id : Nat) : (h2Mark g c id).prefaceDone = c.prefaceDone := by
  unfold h2Mark
  split
  · rfl
  · split <;> rfl

@[simp] theorem prefaceDone_foldl_h2Frame (fs : List Frame) :
    (fs.foldl h2Frame c).prefaceDone = c.prefaceDone := by
  induction fs generalizing c with
  | nil => rfl
  | cons f fs ih => exact ih (c := h2Frame c f)

end Frames

/-! Nothing but frames received changes the block on the wire. -/

@[simp] theorem lastSid_recv (f : Frame) (h : List H2Event) : lastSid (.recv f :: h) = some f.sid := rfl
@[simp] theorem lastSid_sent (f : Frame) (h : List H2Event) : lastSid (.sent f :: h) = lastSid h := rfl
@[simp] theorem wireBlock_sent (f : Frame) (h : List H2Event) : wireBlock (.sent f :: h) = wireBlock h := rfl

@[simp] theorem lastSid_ite_sent (p : Prop) [Decidable p] (f : Frame) (h : List H2Event) :
    lastSid ((if p then [] else [.sent f]) ++ h) = lastSid h := by
  split
  · rfl
  · rfl

@[simp] theorem wireBlock_ite_sent (p : Prop) [Decidable p] (f : Frame) (h : List H2Event) :
    wireBlock ((if p then [] else [.sent f]) ++ h) = wireBlock h := by
  split
  · rfl
  · rfl

/-! ### Steps

One constructor for each thing that the connection can do to its state, with the checks it
has passed as hypotheses. Every invariant of the HTTP/2 modules is an induction over these;
no other proof opens the handlers. -/

/-- What can happen to a connection. -/
inductive Step : Zh2Conn → Zh2Conn → Prop
  /-- Preface octets, or the first SETTINGS. -/
  | setup (c : Zh2Conn) (got : Nat) (done need : Bool) : (c.prefaceDone = true → done = true) →
      Step c { c with prefaceGot := got, prefaceDone := done, needSettings := need }
  /-- A connection error that no complete frame caused. -/
  | error (c : Zh2Conn) (code : Nat) : Step c (connError c code)
  /-- A frame whose only effect is a connection error. -/
  | reject {c : Zh2Conn} {f : Frame} {code : Nat} :
      c.gotError = false → f.Refused code → Step c (connError (c.log (.recv f)) code)
  | ignore {c : Zh2Conn} {f : Frame} :
      c.Between → f.Inert c → Step c (c.log (.recv f))
  | goaway {c : Zh2Conn} {f : Frame} :
      c.Between → f.type = ZH2_FT_GOAWAY → Step c { c.log (.recv f) with peerGoaway := true }
  | ping {c : Zh2Conn} {f : Frame} :
      c.Between → f.type = ZH2_FT_PING → Step c (qPingAck (c.log (.recv f)) f.payload)
  /-- A SETTINGS frame, applied: every stream's window moves with the initial window. -/
  | settings {c : Zh2Conn} {f : Frame} {w m : Nat} :
      c.Between → f.type = ZH2_FT_SETTINGS → hasFlag f.flags ZH2_FL_ACK = false →
      settingsOf (c.peerInitialWindow, c.peerMaxFrame) f.payload = (w, m) →
      (16384 ≤ c.peerMaxFrame → 16384 ≤ m) →
      Step c (qSettingsAck (retune (c.log (.recv f))
        (c.streams.map (.shift ((w : Int) - c.peerInitialWindow))) w m))
  /-- A SETTINGS frame that raises a connection error with some entries applied. -/
  | settingsFail {c : Zh2Conn} {f : Frame} {sts : List Zh2Stream} (w m code : Nat) :
      c.Between → f.type = ZH2_FT_SETTINGS →
      Shifted c.streams sts →
      Step c (connError (retune (c.log (.recv f)) sts w m) code)
  | windowConn {c : Zh2Conn} {f : Frame} :
      c.Between → f.type = ZH2_FT_WINDOW_UPDATE → f.sid = 0 →
      Step c { c.log (.recv f) with sendWindow := c.sendWindow + f.incr }
  | windowConnError {c : Zh2Conn} {f : Frame} (code : Nat) :
      c.Between → f.type = ZH2_FT_WINDOW_UPDATE → f.sid = 0 →
      Step c (connError { c.log (.recv f) with sendWindow := c.sendWindow + f.incr } code)
  | windowStream {c : Zh2Conn} {f : Frame} {st : Zh2Stream} :
      c.Between → f.type = ZH2_FT_WINDOW_UPDATE → f.sid ≠ 0 → findStream c f.sid = some st →
      Step c (updateStream (c.log (.recv f)) f.sid (.shift f.incr))
  /-- An increment of zero, or one that overflows the stream's window. -/
  | windowReset {c : Zh2Conn} {f : Frame} {st : Zh2Stream} (code : Nat) :
      c.Between → f.type = ZH2_FT_WINDOW_UPDATE → f.sid ≠ 0 → findStream c f.sid = some st →
      Step c (rstStream (updateStream (c.log (.recv f)) f.sid (.shift f.incr)) f.sid code)
  | peerReset {c : Zh2Conn} {f : Frame} {st : Zh2Stream} {n : Nat} :
      c.Between → f.type = ZH2_FT_RST_STREAM → findStream c f.sid = some st →
      n ≤ c.rapidReset + 1 → n ≤ g.lim.maxStreams →
      Step c (closeById { c.log (.recv f) with rapidReset := n } f.sid)
  | peerResetFlood {c : Zh2Conn} {f : Frame} {st : Zh2Stream} {n : Nat} (code : Nat) :
      c.Between → f.type = ZH2_FT_RST_STREAM → findStream c f.sid = some st →
      n ≤ c.rapidReset + 1 →
      Step c (connError (closeById { c.log (.recv f) with rapidReset := n } f.sid) code)
  /-- DATA on a stream that was closed. -/
  | dataClosed {c : Zh2Conn} {f : Frame} :
      c.Between → f.type = ZH2_FT_DATA → f.sid ≠ 0 → findStream c f.sid = none →
      f.sid ≤ c.lastClientId → (f.payload.length : Int) ≤ c.recvWindow →
      Step c (recvConsumeConn (c.log (.recv f)) f.payload.length)
  /-- DATA on a stream that was never opened. -/
  | dataIdle {c : Zh2Conn} {f : Frame} (code : Nat) :
      c.Between → f.type = ZH2_FT_DATA → f.sid ≠ 0 → findStream c f.sid = none →
      Step c (connError (recvConsumeConn (c.log (.recv f)) f.payload.length) code)
  /-- DATA past the stream's window or the body cap. -/
  | dataReset {c : Zh2Conn} {f : Frame} {st : Zh2Stream} (code : Nat) :
      c.Between → f.type = ZH2_FT_DATA → f.sid ≠ 0 → findStream c f.sid = some st →
      (f.payload.length : Int) ≤ c.recvWindow →
      Step c (recvConsumeConn (rstStream (c.log (.recv f)) f.sid code) f.payload.length)
  | data {c : Zh2Conn} {f : Frame} {st : Zh2Stream} {data : Bytes} :
      c.Between → f.type = ZH2_FT_DATA → f.sid ≠ 0 → findStream c f.sid = some st →
      st.endStreamRecv = false → st.gotHeaders = true →
      (f.payload.length : Int) ≤ c.recvWindow → (f.payload.length : Int) ≤ st.recvWindow →
      data.length ≤ g.lim.maxBodyBytes - st.req.body.length →
      stripData f.flags f.payload = some data →
      Step c (recvConsumeStream (recvConsumeConn (appendBody (c.log (.recv f)) f.sid data)
        f.payload.length) st f.payload.length)
  /-- DATA with END_STREAM: the request is complete. -/
  | dataEnd {c : Zh2Conn} {f : Frame} {st : Zh2Stream} {data : Bytes} :
      c.Between → f.type = ZH2_FT_DATA → f.sid ≠ 0 → findStream c f.sid = some st →
      st.endStreamRecv = false → st.gotHeaders = true →
      (f.payload.length : Int) ≤ c.recvWindow →
      data.length ≤ g.lim.maxBodyBytes - st.req.body.length →
      stripData f.flags f.payload = some data →
      Step c (h2Mark g (updateStream (recvConsumeConn (appendBody (c.log (.recv f)) f.sid data)
        f.payload.length) f.sid fun st => { st with endStreamRecv := true }) f.sid)
  /-- HEADERS that open a stream. -/
  | headers {c : Zh2Conn} {f : Frame} :
      c.Between → f.type = ZH2_FT_HEADERS → f.sid % 2 = 1 → c.lastClientId < f.sid →
      (g.lim.maxRequestsPerConn ≠ 0 → c.totalStreams + 1 ≤ g.lim.maxRequestsPerConn) →
      c.openCount < g.lim.maxStreams → c.closing = false → f.sid < 2 ^ 31 →
      Step c (beginHdr (h2StreamNew (countStream (c.log (.recv f)) f.sid) f.sid) f
        (some f.sid) 0 false)
  /-- HEADERS on a stream id that is refused; the block is still read. -/
  | headersRefused {c : Zh2Conn} {f : Frame} :
      c.Between → f.type = ZH2_FT_HEADERS → c.lastClientId < f.sid → f.sid < 2 ^ 31 →
      Step c (beginHdr (countStream (c.log (.recv f)) f.sid) f none ZH2_E_REFUSED_STREAM false)
  /-- HEADERS on an open stream: trailers. -/
  | headersTrailer {c : Zh2Conn} {f : Frame} {st : Zh2Stream} :
      c.Between → f.type = ZH2_FT_HEADERS → findStream c f.sid = some st →
      st.endStreamRecv = false → st.gotHeaders = true →
      Step c (beginHdr (c.log (.recv f)) f (some f.sid) 0 true)
  | continuation {c : Zh2Conn} {f : Frame} :
      c.gotError = false → c.hdrActive = true → f.type = ZH2_FT_CONTINUATION →
      c.contCount + 1 ≤ ZH2_CONT_MAX →
      Step c { c.log (.recv f) with contCount := c.contCount + 1 }
  | continuationFlood {c : Zh2Conn} {f : Frame} (code : Nat) :
      c.gotError = false → c.hdrActive = true → f.type = ZH2_FT_CONTINUATION →
      Step c (connError { c.log (.recv f) with contCount := c.contCount + 1 } code)
  | accumulate {c : Zh2Conn} {frag : Bytes} :
      c.hdrActive = true → frag.length ≤ hdrCap g - c.hdrBlock.length →
      Step c { c with hdrBlock := c.hdrBlock ++ frag }
  /-- A block that does not decode. -/
  | blockError {c : Zh2Conn} (code : Nat) :
      c.hdrActive = true → c.Whole → Step c (connError (blockDone g c) code)
  /-- A block that decodes, or that the sink rejected. -/
  | blockReset {c : Zh2Conn} {id : Nat} (code : Nat) :
      c.hdrActive = true → (blockRes g c).rc = .ok ∨ (blockRes g c).u.herr = true →
      c.hdrStream = some id → c.Whole → Step c (rstStream (blockDone g c) id code)
  | blockRefused {c : Zh2Conn} (code : Nat) :
      c.hdrActive = true → (blockRes g c).rc = .ok ∨ (blockRes g c).u.herr = true →
      c.hdrStream = none ∨ c.hdrRefuse ≠ 0 → c.Whole → Step c (qRst (blockDone g c) c.hdrId code)
  /-- A request head without END_STREAM. -/
  | blockHead {c : Zh2Conn} {id : Nat} {body : Bytes} {req : HttpReq} :
      c.hdrActive = true → (blockRes g c).rc = .ok → (blockRes g c).u.herr = false →
      c.hdrStream = some id → c.hdrTrailer = false →
      body = (findStream c id).elim [] (·.req.body) → h2Head g (blockRes g c).u body = some req →
      c.gotError = false → c.Whole →
      Step c (updateStream (blockDone g c) id fun st =>
        { st with req, gotHeaders := true, endStreamRecv := false })
  /-- A request head with END_STREAM: the request is complete. -/
  | blockHeadEnd {c : Zh2Conn} {id : Nat} {body : Bytes} {req : HttpReq} :
      c.hdrActive = true → (blockRes g c).rc = .ok → (blockRes g c).u.herr = false →
      c.hdrStream = some id → c.hdrTrailer = false →
      body = (findStream c id).elim [] (·.req.body) → h2Head g (blockRes g c).u body = some req →
      c.gotError = false → c.Whole →
      Step c (h2Mark g (updateStream (blockDone g c) id fun st =>
        { st with req, gotHeaders := true, endStreamRecv := true }) id)
  /-- Trailers: the request is complete. -/
  | blockTrailer {c : Zh2Conn} {id : Nat} :
      c.hdrActive = true → (blockRes g c).rc = .ok → (blockRes g c).u.herr = false →
      c.hdrStream = some id → c.hdrTrailer = true → c.gotError = false → c.Whole →
      Step c (h2Mark g (updateStream (blockDone g c) id fun st =>
        { st with endStreamRecv := true }) id)
  /-- The response to the request that was dispatched last. -/
  | respond {c : Zh2Conn} {id : Nat} {st : Zh2Stream} {isHead : Bool} {status : Nat}
      {hdrs : List (Bytes × Bytes)} {body : RespBody} :
      findStream c id = some st → st.dispatched = true → st.responded = false →
      IsReply g c.hist id isHead status hdrs body →
      Step c (zh2Respond id isHead c status hdrs body)
  /-- The request object is released behind its dispatch. -/
  | release {c : Zh2Conn} (id : Nat) : (∀ st ∈ c.streams, st.id = id → st.dispatched = true) →
      Step c (updateStream c id fun st => { st with req := {} })
  /-- A stream both sides are done with leaves the table. -/
  | reap {c : Zh2Conn} {i : Nat} {st : Zh2Stream} :
      c.streams[i]? = some st → st.sendDone = true → st.endStreamRecv = true →
      Step c (streamClose c i)
  /-- A DATA frame of a response body. -/
  | pump {c : Zh2Conn} {i : Nat} {st : Zh2Stream} :
      c.streams[i]? = some st → st.respHeadersDone = true → pumpChunk g c st ≠ 0 →
      Step c (pumpData c st (pumpChunk g c st))
  | graceful (c : Zh2Conn) : Step c (zh2Graceful c)
  /-- The loop writes octets of the output to the socket. -/
  | drain (c : Zh2Conn) (n : Nat) : Step c { c with out := c.out.consume n }

/-- A connection error is final. -/
theorem Step.gotError_mono {g : H2Cfg} {c c' : Zh2Conn} (h : Step g c c') (he : c'.gotError = false) :
    c.gotError = false := by
  cases h with
  | respond hst _ hresp =>
    rw [zh2Respond_eq hst hresp] at he
    simpa using he
  | data =>
    rw [recvConsumeStream_eq] at he
    simpa [appendBody] using he
  | dataEnd => simpa [appendBody] using he
  | pump =>
    rw [pumpData_eq] at he
    simpa using he
  | error | reject | settingsFail | windowConnError | peerResetFlood | dataIdle |
    continuationFlood | blockError => simp at he
  | _ => simpa using he

/-- The preface is read once. -/
theorem Step.prefaceDone_mono {g : H2Cfg} {c c' : Zh2Conn} (h : Step g c c')
    (hd : c.prefaceDone = true) : c'.prefaceDone = true := by
  cases h with
  | setup _ _ _ hdone => exact hdone hd
  | respond hst _ hresp =>
    rw [zh2Respond_eq hst hresp]
    simpa using hd
  | data =>
    rw [recvConsumeStream_eq]
    simpa [appendBody] using hd
  | dataEnd => simpa [appendBody] using hd
  | pump =>
    rw [pumpData_eq]
    simpa using hd
  | _ => simpa using hd

/-- Finitely many steps. -/
def Steps : Zh2Conn → Zh2Conn → Prop := Relation.ReflTransGen (Step g)

section Handlers

variable {g}

theorem Steps.refl (c : Zh2Conn) : Steps g c c := Relation.ReflTransGen.refl

theorem Step.steps {c c' : Zh2Conn} (h : Step g c c') : Steps g c c' :=
  Relation.ReflTransGen.single h

theorem Steps.trans {a b c : Zh2Conn} (h : Steps g a b) (h' : Steps g b c) : Steps g a c :=
  Relation.ReflTransGen.trans h h'

theorem Steps.tail {a b c : Zh2Conn} (h : Steps g a b) (h' : Step g b c) : Steps g a c :=
  Relation.ReflTransGen.tail h h'

/-! ### Dispatch

A request that is complete is marked, handed to the server and answered, in this order, and
each is a step. No request of this version takes the connection over. -/

/-- HTTP/2 requests never detach. -/
theorem detaches_h2Request (history : List HttpReq) (st : Zh2Stream) :
    g.srv.detaches history (h2Request g st) = false := by
  simp [Server.detaches, h2Request]

theorem steps_reap (c : Zh2Conn) (id : Nat) : Steps g c (reap c id) := by
  unfold reap
  split
  · rename_i st hst
    split
    · rename_i hdone
      rw [Bool.and_eq_true] at hdone
      obtain ⟨i, hi, hclose⟩ := closeById_of_findStream hst
      rw [hclose]
      exact (Step.reap hi hdone.1 hdone.2).steps
    · exact .refl c
  · exact .refl c

/-- Behind the mark, a dispatch is a response, the release of the request and a reap. -/
theorem steps_h2Dispatch (c : Zh2Conn) (id : Nat) : Steps g (h2Mark g c id) (h2Dispatch g c id) := by
  unfold h2Mark h2Dispatch
  cases hst : findStream c id with
  | none => exact .refl c
  | some st =>
    dsimp only
    by_cases hdisp : st.dispatched = true
    · rw [if_pos hdisp, if_pos hdisp]
      exact .refl c
    · rw [if_neg hdisp, if_neg hdisp,
        zhsDispatch_eq _ _ _ _ _ rfl (detaches_h2Request _ st)]
      generalize hc : (updateStream c id fun s =>
        { s with dispatched := true, req := h2Request g st }).log
          (.dispatched id (h2Request g st)) = c₁
      -- behind the mark every stream of that id is dispatched, which the release needs
      have hmarked : ∀ s ∈ c₁.streams, s.id = id → s.dispatched = true := by
        subst hc
        intro s hs hid
        obtain ⟨s', -, rfl⟩ := mem_updateStream.mp hs
        split at hid
        · rename_i heq
          rw [if_pos heq]
        · rename_i hne
          exact absurd hid hne
      have hfind : findStream c₁ id =
          some { st with dispatched := true, req := h2Request g st } := by
        subst hc
        rw [findStream_log, findStream_updateStream (by exact fun _ => rfl), hst]
        rfl
      cases hresp : st.responded with
      | true =>
        -- a stream that was answered before is left alone
        have hsame : ∀ isHead status hdrs body,
            zh2Respond id isHead c₁ status hdrs body = c₁ := by
          intro isHead status hdrs body
          simp [zh2Respond, hfind, hresp]
        rw [hsame]
        exact (Step.release id hmarked).steps.trans (steps_reap _ id)
      | false =>
        -- the handler's answer goes to that stream and marks no other
        have hanswered : ∀ isHead status hdrs body,
            ∀ s ∈ (zh2Respond id isHead c₁ status hdrs body).streams, s.id = id →
              s.dispatched = true := by
          intro isHead status hdrs body s hs hid
          rw [zh2Respond_eq hfind hresp] at hs
          obtain ⟨s', hs', rfl⟩ := mem_updateStream.mp hs
          have hmem : s' ∈ c₁.streams := by simpa using hs'
          split at hid
          · rename_i heq
            rw [if_pos heq]
            exact hmarked s' hmem heq
          · rename_i hne
            rw [if_neg hne]
            exact hmarked s' hmem hid
        refine .trans ?_ ((Step.release id (hanswered _ _ _ _)).steps.trans (steps_reap _ id))
        subst hc
        exact (Step.respond hfind rfl hresp ⟨_, _, rfl, rfl, rfl, rfl, rfl⟩).steps

/-! ### Header blocks

A block is a step for its HEADERS frame, one for each fragment, and one for its end, which
has five outcomes. The fragments are counted against the cap before they are decoded. -/

theorem steps_h2FinishHeaders {c : Zh2Conn} (ha : c.hdrActive = true)
    (he : c.gotError = false) (hw : c.Whole) :
    Steps g c (h2FinishHeaders g c) := by
  unfold h2FinishHeaders
  dsimp only
  rw [← blockRes]
  unfold h2FinishDecoded
  dsimp only
  rw [← blockDone]
  split
  · -- the block does not decode: COMPRESSION_ERROR
    exact (Step.blockError _ ha hw).steps
  · rename_i hok
    -- from here on it decoded, or the sink rejected a field of it
    have hdec : (blockRes g c).rc = .ok ∨ (blockRes g c).u.herr = true := by
      by_contra hno
      rw [not_or] at hno
      exact hok ⟨by simpa using hno.1, by simpa using hno.2⟩
    split
    · -- a malformed request: reset, if there is a stream to reset
      split
      · rename_i id hid
        exact (Step.blockReset _ ha hdec hid hw).steps
      · rename_i hid
        exact (Step.blockRefused _ ha hdec (.inl hid) hw).steps
    · rename_i herr
      have hrc : (blockRes g c).rc = .ok := hdec.resolve_right herr
      have herr : (blockRes g c).u.herr = false := by simpa using herr
      split
      · rename_i href
        -- the stream had been refused when the block began
        exact (Step.blockRefused _ ha hdec (.inr href) hw).steps
      · split
        · rename_i hid
          exact (Step.blockRefused _ ha hdec (.inl hid) hw).steps
        · rename_i id hid
          split
          · rename_i htr
            split
            · -- a trailer block has to end the stream
              exact (Step.blockReset _ ha hdec hid hw).steps
            · exact (Step.blockTrailer ha hrc herr hid htr he hw).steps.trans (steps_h2Dispatch _ id)
          · rename_i htr
            have htr : c.hdrTrailer = false := by simpa using htr
            split
            · -- no request can be made of the fields
              exact (Step.blockReset _ ha hdec hid hw).steps
            · rename_i req hhead
              split
              · -- with END_STREAM the request is complete
                rename_i hend
                rw [hend]
                exact (Step.blockHeadEnd ha hrc herr hid htr rfl hhead he hw).steps.trans
                  (steps_h2Dispatch _ id)
              · rename_i hend
                rw [Bool.not_eq_true] at hend
                rw [hend]
                exact (Step.blockHead ha hrc herr hid htr rfl hhead he hw).steps

/-- The frame received last carries `frag` of the block, the rest is put together. -/
structure Zh2Conn.Gathers (c : Zh2Conn) (frag : Bytes) : Prop where
  octets : c.hdrBlock ++ frag = wireBlock c.hist
  sid : lastSid c.hist = some c.hdrId
  stream : ∀ id, c.hdrStream = some id → id = c.hdrId

/-- A HEADERS frame begins a block. -/
theorem Zh2Conn.Gathers.begin {a c : Zh2Conn} {f : Frame} {frag : Bytes} (ht : f.type = ZH2_FT_HEADERS)
    (hfrag : stripHeaders f.flags f.payload = some frag) {st : Option Nat} {refuse : Nat} {trailer : Bool}
    (hsid : lastSid a.hist = some f.sid) (hblock : wireBlock a.hist = wireBlock (.recv f :: c.hist))
    (hst : ∀ id, st = some id → id = f.sid) : (beginHdr a f st refuse trailer).Gathers frag := by
  have hwire : wireBlock (.recv f :: c.hist) = frag := by
    rw [wireBlock, if_neg (by rw [ht]; decide), hfrag, Option.getD_some]
  exact ⟨(hblock.trans hwire).symm, hsid, hst⟩

/-- A CONTINUATION frame on the stream of the block carries more of it. -/
theorem Zh2Conn.Whole.gathers {c : Zh2Conn} (h : c.Whole) {f : Frame} (ht : f.type = ZH2_FT_CONTINUATION)
    (hsid : f.sid = c.hdrId) {n : Nat} :
    Zh2Conn.Gathers { c.log (.recv f) with contCount := n } f.payload := by
  refine ⟨?_, congrArg some hsid, h.stream⟩
  show c.hdrBlock ++ f.payload = wireBlock (.recv f :: c.hist)
  rw [wireBlock, if_pos ht, h.octets]

theorem steps_hdrFragment {c : Zh2Conn} (ha : c.hdrActive = true) (he : c.gotError = false)
    (flags : UInt8) {frag : Bytes} (hg : c.Gathers frag) : Steps g c (hdrFragment g c flags frag) := by
  unfold hdrFragment hdrAccumulate
  by_cases hcap : frag.length > hdrCap g - c.hdrBlock.length
  · rw [if_pos hcap]
    exact (Step.error c _).steps
  · rw [if_neg hcap]
    dsimp only
    refine (Step.accumulate ha (Nat.le_of_not_gt hcap)).steps.trans ?_
    split
    · exact steps_h2FinishHeaders ha he ⟨hg.octets, hg.sid, hg.stream⟩
    · exact .refl _

/-! ### Between frames

A handler may only start while no block is in progress, and leaves the connection so unless
it began one. -/

/-- Between frames, what there is of a block is all that the frames carried. -/
def Zh2Conn.Settled (c : Zh2Conn) : Prop := c.gotError = false → c.hdrActive = true → c.Whole

theorem Zh2Conn.Settled.of_idle {c : Zh2Conn} (h : c.hdrActive = false) : c.Settled := by
  intro _ ha
  rw [h] at ha
  cases ha

theorem Zh2Conn.Settled.of_error {c : Zh2Conn} (h : c.gotError = true) : c.Settled := by
  intro he
  rw [h] at he
  cases he

/-- What leaves the block alone, on both sides. -/
theorem Zh2Conn.Settled.congr {c c' : Zh2Conn} (h : c.Settled) (he : c'.gotError = false → c.gotError = false)
    (hh : c'.toZh2Hdr = c.toZh2Hdr) (hs : lastSid c'.hist = lastSid c.hist)
    (hw : wireBlock c'.hist = wireBlock c.hist) : c'.Settled := by
  intro he' ha'
  obtain ⟨hoctets, hsid, hstream⟩ := h (he he') (by rw [← hh]; exact ha')
  exact ⟨by rw [hw, hh]; exact hoctets, by rw [hs, hh]; exact hsid, by rw [hh]; exact hstream⟩

@[simp] theorem zh2Respond_hdr (id : Nat) (isHead : Bool) (c : Zh2Conn) (status : Nat)
    (hdrs : List (Bytes × Bytes)) (body : RespBody) :
    (zh2Respond id isHead c status hdrs body).toZh2Hdr = c.toZh2Hdr := by
  unfold zh2Respond
  split
  · rfl
  · split
    · rfl
    · simp [Zh2Conn.log]

@[simp] theorem reap_hdr (c : Zh2Conn) (id : Nat) : (reap c id).toZh2Hdr = c.toZh2Hdr := by
  unfold reap
  split
  · split
    · simp
    · rfl
  · rfl

@[simp] theorem h2Dispatch_hdr (c : Zh2Conn) (id : Nat) : (h2Dispatch g c id).toZh2Hdr = c.toZh2Hdr := by
  unfold h2Dispatch
  split
  · rfl
  · rename_i st _
    split
    · rfl
    · dsimp only
      rw [zhsDispatch_eq _ _ _ _ _ rfl (detaches_h2Request _ st)]
      simp [Zh2Conn.log]

/-- A block that is complete is put away. -/
theorem h2FinishHeaders_hdr (c : Zh2Conn) : (h2FinishHeaders g c).toZh2Hdr = {} := by
  unfold h2FinishHeaders h2FinishDecoded
  dsimp only
  repeat' split
  all_goals simp [clearHdr]

theorem settled_hdrFragment {c : Zh2Conn} {flags : UInt8} {frag : Bytes} (hg : c.Gathers frag) :
    (hdrFragment g c flags frag).Settled := by
  unfold hdrFragment hdrAccumulate
  split
  · rename_i r heq
    split at heq
    · cases heq
      exact .of_error (by simp)
    · cases heq
  · rename_i r heq
    split at heq
    · cases heq
    · cases heq
      split
      · exact .of_idle (by rw [h2FinishHeaders_hdr])
      · exact fun _ _ => ⟨hg.octets, hg.sid, hg.stream⟩

/-! ### SETTINGS

A SETTINGS frame is read parameter by parameter. Whatever the order, the windows of the
streams move by one common amount, and a bad parameter leaves those before it applied. -/

@[simp] theorem Zh2Stream.shift_zero (st : Zh2Stream) : st.shift 0 = st := by
  simp [Zh2Stream.shift]

@[simp] theorem Zh2Stream.shift_shift (d e : Int) (st : Zh2Stream) :
    (st.shift d).shift e = st.shift (d + e) := by
  simp [Zh2Stream.shift, Int.add_assoc]

theorem retarget_ok {d : Int} {sts sts' : List Zh2Stream} (h : retarget d sts = (sts', true)) :
    sts' = sts.map (.shift d) := by
  induction sts generalizing sts' with
  | nil => cases h; rfl
  | cons st sts ih =>
    unfold retarget at h
    dsimp only at h
    split at h
    · cases h
    · cases hr : retarget d sts with
      | mk l ok =>
        rw [hr] at h
        cases h
        rw [List.map_cons, ← ih hr]
        rfl

theorem retarget_shifted (d : Int) (sts : List Zh2Stream) : Shifted sts (retarget d sts).1 := by
  induction sts with
  | nil => rfl
  | cons st sts ih =>
    unfold retarget
    dsimp only
    split
    · rfl
    · exact congrArg (st.core :: ·) ih

/-- A payload that is applied to its end moves the windows by the change of the initial
window over all its entries. -/
theorem applySettings_ok {c c' : Zh2Conn} {p : Bytes} (h : applySettings c p = (c', true)) :
    ∃ w m, settingsOf (c.peerInitialWindow, c.peerMaxFrame) p = (w, m) ∧
      (16384 ≤ c.peerMaxFrame → 16384 ≤ m) ∧
      c' = retune c (c.streams.map (.shift ((w : Int) - c.peerInitialWindow))) w m := by
  fun_induction applySettings c p with
  -- ENABLE_PUSH with a value other than 0 or 1
  | case1 => cases h
  | case2 c i0 i1 v0 v1 v2 v3 rest sid val hpush hval ih =>
    obtain ⟨w, m, hs, hm, rfl⟩ := ih h
    refine ⟨w, m, ?_, hm, rfl⟩
    have hsid : rd [i0, i1] = ZH2_S_ENABLE_PUSH := hpush
    rw [settingsOf]
    simpa [hsid, ZH2_S_ENABLE_PUSH, ZH2_S_INITIAL_WINDOW_SIZE, ZH2_S_MAX_FRAME_SIZE] using hs
  -- INITIAL_WINDOW_SIZE over 2^31 - 1
  | case3 => cases h
  | case4 c i0 i1 v0 v1 v2 v3 rest sid val hpush hinit hval sts hre ih =>
    obtain ⟨w, m, hs, hm, rfl⟩ := ih h
    refine ⟨w, m, ?_, hm, ?_⟩
    · have hsid : rd [i0, i1] = ZH2_S_INITIAL_WINDOW_SIZE := hinit
      rw [settingsOf]
      simpa [hsid] using hs
    · -- the entry's shift and that of the rest add up
      have hadd : (val : Int) - c.peerInitialWindow + (w - val) = w - c.peerInitialWindow := by
        omega
      rw [retarget_ok hre]
      simp only [retune, List.map_map]
      congr 2
      refine congrArg (List.map · c.streams) (funext fun st => ?_)
      rw [Function.comp_apply, Zh2Stream.shift_shift, hadd]
  -- a window that the change takes out of range
  | case5 => cases h
  -- MAX_FRAME_SIZE out of range
  | case6 => cases h
  | case7 c i0 i1 v0 v1 v2 v3 rest sid val hpush hinit hmax hval ih =>
    obtain ⟨w, m, hs, hm, rfl⟩ := ih h
    rw [not_or, Nat.not_lt] at hval
    refine ⟨w, m, ?_, fun _ => hm hval.1, rfl⟩
    have hsid : rd [i0, i1] = ZH2_S_MAX_FRAME_SIZE := hmax
    rw [settingsOf]
    simpa [hsid, ZH2_S_INITIAL_WINDOW_SIZE, ZH2_S_MAX_FRAME_SIZE] using hs
  -- an entry of another kind is passed over
  | case8 c i0 i1 v0 v1 v2 v3 rest sid hpush hinit hmax ih =>
    obtain ⟨w, m, hs, hm, rfl⟩ := ih h
    refine ⟨w, m, ?_, hm, rfl⟩
    rw [settingsOf]
    dsimp only
    rw [if_neg hinit, if_neg hmax]
    exact hs
  -- fewer than six octets are left
  | case9 p c hp =>
    cases h
    refine ⟨c'.peerInitialWindow, c'.peerMaxFrame, ?_, id, ?_⟩
    · unfold settingsOf
      split
      · exact absurd rfl (hp _ _ _ _ _ _ _)
      · rfl
    · rw [Int.sub_self, show Zh2Stream.shift 0 = id from funext Zh2Stream.shift_zero, List.map_id]
      rfl

/-- A payload that raises a connection error leaves windows moved at most. -/
theorem applySettings_fail {c c' : Zh2Conn} {p : Bytes} (h : applySettings c p = (c', false)) :
    ∃ sts w m code, Shifted c.streams sts ∧ c' = connError (retune c sts w m) code := by
  fun_induction applySettings c p with
  | case1 c => cases h; exact ⟨c.streams, _, _, _, rfl, rfl⟩
  | case2 c i0 i1 v0 v1 v2 v3 rest sid val hpush hval ih => exact ih h
  | case3 c => cases h; exact ⟨c.streams, _, _, _, rfl, rfl⟩
  | case4 c i0 i1 v0 v1 v2 v3 rest sid val hpush hinit hval sts hre ih =>
    obtain ⟨sts', w, m, code, hsh, rfl⟩ := ih h
    refine ⟨sts', w, m, code, ?_, rfl⟩
    have := retarget_shifted ((val : Int) - c.peerInitialWindow) c.streams
    rw [hre] at this
    exact hsh.trans this
  | case5 c i0 i1 v0 v1 v2 v3 rest sid val hpush hinit hval sts hre =>
    cases h
    have := retarget_shifted ((val : Int) - c.peerInitialWindow) c.streams
    rw [hre] at this
    exact ⟨sts, _, _, _, this, rfl⟩
  | case6 c => cases h; exact ⟨c.streams, _, _, _, rfl, rfl⟩
  | case7 c i0 i1 v0 v1 v2 v3 rest sid val hpush hinit hmax hval ih =>
    obtain ⟨sts, w, m, code, hsh, rfl⟩ := ih h
    exact ⟨sts, w, m, code, hsh, rfl⟩
  | case8 c i0 i1 v0 v1 v2 v3 rest sid hpush hinit hmax ih => exact ih h
  | case9 => cases h

/-! ### Frame handlers

Each handler of `zh2_feed` as a sequence of steps from the connection with its frame logged.
The proofs follow the branches of the source in their order. -/

variable {c : Zh2Conn} {f : Frame}

theorem zh2Graceful_beginHdr (c : Zh2Conn) (f : Frame) (st : Option Nat) (refuse : Nat)
    (trailer : Bool) :
    zh2Graceful (beginHdr c f st refuse trailer) =
      beginHdr (zh2Graceful c) f st refuse trailer := by
  have hsame : (beginHdr c f st refuse trailer).goawaySent = c.goawaySent := rfl
  unfold zh2Graceful qGoaway
  rw [hsame]
  by_cases hsent : c.goawaySent = true
  · rw [if_pos hsent, if_pos hsent]
    rfl
  · rw [if_neg hsent, if_neg hsent]
    rfl

theorem steps_h2OnHeaders (hb : c.Between) (ht : f.type = ZH2_FT_HEADERS)
    (hid : f.sid < 2 ^ 31) :
    Steps g c (h2OnHeaders g (c.log (.recv f)) f) := by
  have hrej : ∀ code, Steps g c (connError (c.log (.recv f)) code) :=
    fun code => (Step.reject hb.1 (.of_type (by rw [ht]; decide))).steps
  unfold h2OnHeaders
  split
  · -- an id that no client may use
    exact hrej _
  · split
    · -- the padding is longer than the frame
      exact hrej _
    · rename_i frag hfrag
      rw [findStream_log]
      -- a new stream, or trailers of one that is open
      cases hst : findStream c f.sid with
      | none =>
        dsimp only
        split
        · -- an id that was used before, or an even one
          exact hrej _
        · rename_i hnew
          rw [not_or, Nat.not_le] at hnew
          have hlt : c.lastClientId < f.sid := hnew.2
          have href := Step.headersRefused (g := g) hb ht hlt hid
          unfold h2OpenStream
          dsimp only
          split
          · -- draining: the stream is refused, the block still read
            exact href.steps.trans
              (steps_hdrFragment rfl (by simpa using hb.1) _ (.begin (c := c) ht hfrag rfl rfl nofun))
          · rename_i hclosing
            have hclosing : c.closing = false := by
              rw [Bool.or_eq_true, not_or] at hclosing
              simpa using hclosing.1
            split
            · -- the lifetime cap: the refusal, then the GOAWAY of a graceful shutdown
              have hshut := href.steps.tail (.graceful _)
              rw [zh2Graceful_beginHdr] at hshut
              exact hshut.trans (steps_hdrFragment rfl (by simpa using hb.1) _
                (.begin (c := c) ht hfrag (by simp) (by simp) nofun))
            · rename_i hmax
              split
              · -- the table is full
                exact href.steps.trans
                  (steps_hdrFragment rfl (by simpa using hb.1) _ (.begin (c := c) ht hfrag rfl rfl nofun))
              · rename_i hopen
                refine (Step.headers hb ht (by omega) hlt ?_ (Nat.not_le.mp hopen) hclosing
                  hid).steps.trans (steps_hdrFragment rfl (by simpa using hb.1) _
                (.begin (c := c) ht hfrag rfl rfl fun _ h => (Option.some.inj h).symm))
                intro hne
                exact Nat.le_of_not_gt fun hgt => hmax ⟨hne, hgt⟩
      -- a stream in the table: its second head carries the trailers
      | some st =>
        dsimp only
        split
        · -- the client has half-closed the stream
          exact hrej _
        · rename_i hend
          split
          · -- a second head without the end of the first
            exact hrej _
          · rename_i hgot
            exact (Step.headersTrailer hb ht hst (by simpa using hend) (by simpa using hgot)).steps.trans
              (steps_hdrFragment rfl (by simpa using hb.1) _
                (.begin (c := c) ht hfrag rfl rfl fun _ h => (Option.some.inj h).symm))

theorem steps_h2OnContinuation (he : c.gotError = false) (ha : c.hdrActive = true)
    (ht : f.type = ZH2_FT_CONTINUATION) (hw : c.Whole) (hsid : f.sid = c.hdrId) :
    Steps g c (h2OnContinuation g (c.log (.recv f)) f) := by
  unfold h2OnContinuation
  dsimp only
  split
  · exact (Step.continuationFlood _ he ha ht).steps
  · rename_i hle
    refine (Step.continuation he ha ht (Nat.le_of_not_gt hle)).steps.trans
      (steps_hdrFragment (by exact ha) (by exact he) _ (hw.gathers ht hsid))

theorem steps_h2OnData (hb : c.Between) (ht : f.type = ZH2_FT_DATA) :
    Steps g c (h2OnData g (c.log (.recv f)) f) := by
  have hrej : ∀ code, Steps g c (connError (c.log (.recv f)) code) :=
    fun code => (Step.reject hb.1 (.of_type (by rw [ht]; decide))).steps
  unfold h2OnData
  dsimp only
  split
  · -- DATA on stream 0
    exact hrej _
  · rename_i hsid
    split
    · -- past the window of the connection
      exact hrej _
    · rename_i hwin
      have hwin : (f.payload.length : Int) ≤ c.recvWindow := Int.not_lt.mp hwin
      rw [findStream_log]
      cases hst : findStream c f.sid with
      -- no such stream: closed by now, or never opened
      | none =>
        dsimp only
        rw [recvConsume_none]
        by_cases hidle : f.sid > c.lastClientId
        · rw [if_pos (by simpa using hidle)]
          exact (Step.dataIdle _ hb ht hsid hst).steps
        · rw [if_neg (by simpa using hidle)]
          exact (Step.dataClosed hb ht hsid hst (Nat.le_of_not_gt hidle) hwin).steps
      | some st =>
        simp only [recvConsume_none, recvConsume_some]
        split
        · -- half-closed by the client, or without a head
          exact hrej _
        · rename_i hopen
          rw [Bool.or_eq_true, not_or] at hopen
          have hend : st.endStreamRecv = false := by simpa using hopen.1
          have hgot : st.gotHeaders = true := by simpa using hopen.2
          split
          · -- past the window of the stream
            exact (Step.dataReset _ hb ht hsid hst hwin).steps
          · rename_i hswin
            split
            · -- the padding is longer than the frame
              exact hrej _
            · rename_i data hdata
              split
              · -- past the body cap
                exact (Step.dataReset _ hb ht hsid hst hwin).steps
              · rename_i hcap
                have hcap : data.length ≤ g.lim.maxBodyBytes - st.req.body.length :=
                  Nat.le_of_not_gt hcap
                split
                · exact (Step.dataEnd hb ht hsid hst hend hgot hwin hcap hdata).steps.trans
                    (steps_h2Dispatch _ _)
                · exact (Step.data hb ht hsid hst hend hgot hwin (Int.not_lt.mp hswin) hcap
                    hdata).steps

theorem steps_h2OnRstStream (hb : c.Between) (ht : f.type = ZH2_FT_RST_STREAM) :
    Steps g c (h2OnRstStream g (c.log (.recv f)) f) := by
  unfold h2OnRstStream
  split
  · rename_i hlen
    exact (Step.reject hb.1 fun _ => .inr hlen).steps
  · split
    · exact (Step.reject hb.1 fun _ => .inl rfl).steps
    · rename_i hsid
      rw [findStream_log]
      cases hst : findStream c f.sid with
      | none =>
        dsimp only
        split
        · exact (Step.reject hb.1 fun _ => .inl rfl).steps
        · rename_i hle
          refine (Step.ignore hb ⟨?_, ?_, fun _ => ⟨hsid, hst, Nat.le_of_not_gt hle⟩⟩).steps
          · rw [ht]; decide
          · intro h; rw [ht] at h; exact absurd h (by decide)
      | some st =>
        dsimp only
        generalize hk : (if st.responded = true then 0 else 1) = k
        have hn : c.rapidReset + k ≤ c.rapidReset + 1 := by
          rw [← hk]
          split
          · exact Nat.le_succ _
          · exact Nat.le_refl _
        by_cases hmax : c.rapidReset + k > g.lim.maxStreams
        · rw [if_pos (by simpa using hmax)]
          exact (Step.peerResetFlood _ hb ht hst hn).steps
        · rw [if_neg (by simpa using hmax)]
          exact (Step.peerReset hb ht hst hn (Nat.le_of_not_gt hmax)).steps

theorem steps_h2OnSettings (hb : c.Between) (ht : f.type = ZH2_FT_SETTINGS) (count : Nat) :
    Steps g c (h2OnSettings (c.log (.recv f)) f count).1 := by
  have hrej : ∀ code, Steps g c (connError (c.log (.recv f)) code) :=
    fun code => (Step.reject hb.1 (.of_type (by rw [ht]; decide))).steps
  unfold h2OnSettings
  split
  · exact hrej _
  · split
    · rename_i hack
      dsimp only
      split
      · exact hrej _
      · refine (Step.ignore hb ⟨?_, fun _ => hack, ?_⟩).steps
        · rw [ht]; decide
        · intro h; rw [ht] at h; exact absurd h (by decide)
    · rename_i hack
      have hack : hasFlag f.flags ZH2_FL_ACK = false := by simpa using hack
      split
      · exact hrej _
      · split
        · exact hrej _
        · split
          · rename_i c' happ
            obtain ⟨w, m, hs, hm, rfl⟩ := applySettings_ok happ
            exact (Step.settings hb ht hack hs hm).steps
          · rename_i c' happ
            obtain ⟨sts, w, m, code, hsh, rfl⟩ := applySettings_fail happ
            exact (Step.settingsFail w m code hb ht hsh).steps

theorem steps_h2OnPing (hb : c.Between) (ht : f.type = ZH2_FT_PING) (count : Nat) :
    Steps g c (h2OnPing g (c.log (.recv f)) f count).1 := by
  have hrej : ∀ code, Steps g c (connError (c.log (.recv f)) code) :=
    fun code => (Step.reject hb.1 (.of_type (by rw [ht]; decide))).steps
  unfold h2OnPing
  split
  · exact hrej _
  · split
    · exact hrej _
    · split
      · exact (Step.ignore hb (.of_type (by rw [ht]; decide))).steps
      · split
        · exact hrej _
        · exact (Step.ping hb ht).steps

theorem steps_h2OnWindowUpdate (hb : c.Between) (ht : f.type = ZH2_FT_WINDOW_UPDATE) :
    Steps g c (h2OnWindowUpdate (c.log (.recv f)) f) := by
  have hrej : ∀ code, Steps g c (connError (c.log (.recv f)) code) :=
    fun code => (Step.reject hb.1 (.of_type (by rw [ht]; decide))).steps
  unfold h2OnWindowUpdate
  split
  · exact hrej _
  · split
    · rename_i hsid
      split
      · exact hrej _
      · dsimp only
        split
        · exact (Step.windowConnError _ hb ht hsid).steps
        · exact (Step.windowConn hb ht hsid).steps
    · rename_i hsid
      rw [findStream_log]
      cases hst : findStream c f.sid with
      | none =>
        dsimp only
        split
        · exact hrej _
        · rename_i hle
          refine (Step.ignore hb ⟨?_, ?_, fun _ => ⟨hsid, hst, Nat.le_of_not_gt hle⟩⟩).steps
          · rw [ht]; decide
          · intro h; rw [ht] at h; exact absurd h (by decide)
      | some st =>
        dsimp only
        split
        · rename_i hzero
          -- the window of the stream that is dropped moves by nothing
          have hsame : updateStream (c.log (.recv f)) f.sid (.shift f.incr) = c.log (.recv f) := by
            rw [hzero]
            simp [updateStream, Zh2Conn.log]
          have hstep := Step.windowReset (g := g) ZH2_E_PROTOCOL_ERROR hb ht hsid hst
          rw [hsame] at hstep
          exact hstep.steps
        · split
          · exact (Step.windowReset _ hb ht hsid hst).steps
          · exact (Step.windowStream hb ht hsid hst).steps

theorem steps_onFrame {s : Feed2St} (hb : s.c.Between) (hid : f.sid < 2 ^ 31)
    (hcont : f.type ≠ ZH2_FT_CONTINUATION) :
    Steps g s.c (onFrame g { s with c := s.c.log (.recv f) } f).c := by
  have hrej : f.type ≠ ZH2_FT_RST_STREAM →
      ∀ code, Steps g s.c (connError (s.c.log (.recv f)) code) :=
    fun ht code => (Step.reject hb.1 (.of_type ht)).steps
  unfold onFrame
  dsimp only
  by_cases h0 : f.type = ZH2_FT_DATA
  · rw [if_pos h0]
    exact steps_h2OnData hb h0
  by_cases h1 : f.type = ZH2_FT_HEADERS
  · rw [if_neg h0, if_pos h1]
    exact steps_h2OnHeaders hb h1 hid
  by_cases h2 : f.type = ZH2_FT_PRIORITY
  · rw [if_neg h0, if_neg h1, if_pos h2]
    show Steps g s.c (h2OnPriority (s.c.log (.recv f)) f)
    unfold h2OnPriority
    split
    · exact hrej (by rw [h2]; decide) _
    · split
      · exact hrej (by rw [h2]; decide) _
      · exact (Step.ignore hb (.of_type (by rw [h2]; decide))).steps
  by_cases h3 : f.type = ZH2_FT_RST_STREAM
  · rw [if_neg h0, if_neg h1, if_neg h2, if_pos h3]
    exact steps_h2OnRstStream hb h3
  by_cases h4 : f.type = ZH2_FT_SETTINGS
  · rw [if_neg h0, if_neg h1, if_neg h2, if_neg h3, if_pos h4]
    exact steps_h2OnSettings hb h4 _
  by_cases h5 : f.type = ZH2_FT_PUSH_PROMISE
  · rw [if_neg h0, if_neg h1, if_neg h2, if_neg h3, if_neg h4, if_pos h5]
    exact hrej h3 _
  by_cases h6 : f.type = ZH2_FT_PING
  · rw [if_neg h0, if_neg h1, if_neg h2, if_neg h3, if_neg h4, if_neg h5, if_pos h6]
    exact steps_h2OnPing hb h6 _
  by_cases h7 : f.type = ZH2_FT_GOAWAY
  · rw [if_neg h0, if_neg h1, if_neg h2, if_neg h3, if_neg h4, if_neg h5, if_neg h6, if_pos h7]
    show Steps g s.c (h2OnGoaway (s.c.log (.recv f)) f)
    unfold h2OnGoaway
    split
    · exact hrej h3 _
    · split
      · exact hrej h3 _
      · exact (Step.goaway hb h7).steps
  by_cases h8 : f.type = ZH2_FT_WINDOW_UPDATE
  · rw [if_neg h0, if_neg h1, if_neg h2, if_neg h3, if_neg h4, if_neg h5, if_neg h6, if_neg h7,
      if_pos h8]
    exact steps_h2OnWindowUpdate hb h8
  · rw [if_neg h0, if_neg h1, if_neg h2, if_neg h3, if_neg h4, if_neg h5, if_neg h6, if_neg h7,
      if_neg h8, if_neg hcont]
    exact (Step.ignore hb (.of_type (by simp [h0, h3, h4, h8]))).steps

/-! ### The frame loop

A round of the loop takes one frame off the input, or stops with the input as it is. -/

/-- The connection behind a round of the frame loop. -/
def roundConn : Feed2St ⊕ (Zh2Conn × Bytes) → Zh2Conn
  | .inl s => s.c
  | .inr r => r.1

theorem steps_zh2FeedRound (s : Feed2St) (hset : s.c.Settled) :
    Steps g s.c (roundConn (zh2FeedRound g s)) := by
  unfold zh2FeedRound
  by_cases herr : s.c.gotError = true
  · rw [if_pos herr]
    exact .refl _
  rw [if_neg herr]
  split
  · exact .refl _
  · dsimp only
    split
    · -- the frame is too long
      exact (Step.error _ _).steps
    · split
      · exact .refl _
      · have herr : s.c.gotError = false := by simpa using herr
        have hsetup := (Step.setup (g := g) s.c s.c.prefaceGot s.c.prefaceDone false id).steps
        split
        · -- the first frame has to be SETTINGS
          exact (Step.reject herr fun _ => .inl rfl).steps
        · split
          · -- a block is in progress, and this is no CONTINUATION of it
            exact hsetup.tail (Step.reject herr fun _ => .inl rfl)
          · rename_i hcont
            split
            · -- a CONTINUATION without a block
              exact hsetup.tail (Step.reject herr fun _ => .inl rfl)
            · rename_i hcont'
              refine hsetup.trans ?_
              cases ha : s.c.hdrActive with
              -- between blocks: any frame
              | false =>
                refine steps_onFrame (s := { s with c := { s.c with needSettings := false } })
                  ⟨herr, ha⟩ (Nat.mod_lt _ (by decide)) fun ht => hcont' ⟨?_, ht⟩
                simpa using ha
              -- in a block: the CONTINUATION that was asked for
              | true =>
                have ht : (frameOf s.inp).type = ZH2_FT_CONTINUATION := by
                  by_contra hne
                  exact hcont ⟨ha, .inl hne⟩
                have hsid : (frameOf s.inp).sid = s.c.hdrId := by
                  by_contra hne
                  exact hcont ⟨ha, .inr hne⟩
                have hcase : (onFrame g { s with
                    c := { s.c.log (.recv (frameOf s.inp)) with needSettings := false } }
                    (frameOf s.inp)).c = h2OnContinuation g
                    ({ s.c with needSettings := false }.log (.recv (frameOf s.inp)))
                    (frameOf s.inp) := by
                  unfold onFrame
                  rw [ht]
                  rfl
                show Steps g _ (onFrame g { s with
                    c := { s.c.log (.recv (frameOf s.inp)) with needSettings := false } }
                    (frameOf s.inp)).c
                rw [hcase]
                obtain ⟨hoctets, hlast, hstream⟩ := hset herr ha
                exact steps_h2OnContinuation herr ha ht ⟨hoctets, hlast, hstream⟩ hsid

theorem steps_consumePreface (c : Zh2Conn) (inp : Bytes) :
    Steps g c (consumePreface c inp).1 := by
  induction inp generalizing c with
  | nil =>
    unfold consumePreface
    split
    · exact .refl c
    · exact (Step.setup c _ true _ fun _ => rfl).steps
  | cons b inp ih =>
    unfold consumePreface
    split
    · split
      · exact (Step.error c _).steps
      · exact (Step.setup c (c.prefaceGot + 1) _ _ id).steps.trans (ih _)
    · exact (Step.setup c _ true _ fun _ => rfl).steps

/-! ### The pump

A chunk that goes out is a step, and so is a stream that is taken out of the table behind
its last chunk. -/

theorem steps_pumpStream {i : Nat} {st : Zh2Stream} (hst : c.streams[i]? = some st)
    (hdone : st.respHeadersDone = true) : Steps g c (pumpStream g i c) := by
  -- over the rounds of one stream: its response headers stay out
  refine Lib.loop_induct (pumpStreamRound_decreases g i)
    (P := fun c c' => (∀ st, c.streams[i]? = some st → st.respHeadersDone = true) → Steps g c c')
    ?_ ?_ c (fun st' hst' => by rw [hst] at hst'; cases hst'; exact hdone)
  · intro c c' h _
    unfold pumpStreamRound at h
    split at h
    · cases h; exact .refl c
    · dsimp only at h
      split at h
      · cases h; exact .refl c
      · cases h
  · intro c c' r h ih hc
    unfold pumpStreamRound at h
    split at h
    · cases h
    · rename_i st hst
      dsimp only at h
      split at h
      · cases h
      · rename_i hchunk
        cases h
        refine (Step.pump hst (hc st hst) hchunk).steps.trans (ih fun st' hst' => ?_)
        simp only [pumpData, h2Frame, updateStream, List.getElem?_map, hst, Option.map_some,
          if_true, Option.some.injEq] at hst'
        subst hst'
        exact hc st hst

theorem steps_zh2Pump (c : Zh2Conn) : Steps g c (zh2Pump g c) := by
  have hround : ∀ s : Zh2Conn × Nat, Steps g s.1 (match pumpRound g s with
      | .inl s' => s'.1
      | .inr r => r) := by
    rintro ⟨c, i⟩
    unfold pumpRound
    dsimp only
    cases hst : c.streams[i]? with
    | none => exact .refl c
    | some st =>
      dsimp only
      generalize hc : (if (st.respHeadersDone && !st.sendDone) = true then pumpStream g i c
        else c) = c₁
      have hrun : Steps g c c₁ := by
        subst hc
        split
        · rename_i h
          rw [Bool.and_eq_true] at h
          exact steps_pumpStream hst h.1
        · exact .refl c
      refine hrun.trans ?_
      cases hst₁ : c₁.streams[i]? with
      | none => exact .refl c₁
      | some st₁ =>
        dsimp only
        by_cases hboth : (st₁.sendDone && st₁.endStreamRecv) = true
        · rw [if_pos hboth]
          rw [Bool.and_eq_true] at hboth
          exact (Step.reap hst₁ hboth.1 hboth.2).steps
        · rw [if_neg hboth]
          exact .refl c₁
  refine Lib.loop_induct (pumpRound_decreases g) (P := fun s r => Steps g s.1 r) ?_ ?_ (c, 0)
  · intro s r h
    have := hround s
    rw [h] at this
    exact this
  · intro s s' r h ih
    have := hround s
    rw [h] at this
    exact this.trans ih

/-! ### Between frames, a block is settled -/

/-- The frames that carry no field block leave the reassembly state alone. -/
theorem onFrame_hdr (s : Feed2St) (h1 : f.type ≠ ZH2_FT_HEADERS) (h9 : f.type ≠ ZH2_FT_CONTINUATION) :
    (onFrame g s f).c.toZh2Hdr = s.c.toZh2Hdr := by
  -- handler by handler: none but HEADERS and CONTINUATION writes to the block in progress
  have hdata : (h2OnData g s.c f).toZh2Hdr = s.c.toZh2Hdr := by
    unfold h2OnData
    dsimp only
    split
    · simp
    · split
      · simp
      · split
        · rw [recvConsume_none]
          split
          · simp
          · simp
        · simp only [recvConsume_none, recvConsume_some, recvConsumeStream_eq]
          repeat' split
          all_goals simp
  have hrst : (h2OnRstStream g s.c f).toZh2Hdr = s.c.toZh2Hdr := by
    unfold h2OnRstStream
    dsimp only
    repeat' split
    all_goals simp
  have hsettings : (h2OnSettings s.c f s.settings).1.toZh2Hdr = s.c.toZh2Hdr := by
    unfold h2OnSettings
    split
    · simp
    · split
      · dsimp only
        split
        · simp
        · rfl
      · split
        · simp
        · split
          · simp
          · split
            · rename_i c' happ
              obtain ⟨w, m, -, -, rfl⟩ := applySettings_ok happ
              simp
            · rename_i c' happ
              obtain ⟨sts, w, m, code, -, rfl⟩ := applySettings_fail happ
              simp
  have hping : (h2OnPing g s.c f s.pings).1.toZh2Hdr = s.c.toZh2Hdr := by
    unfold h2OnPing
    repeat' split
    all_goals simp
  have hwindow : (h2OnWindowUpdate s.c f).toZh2Hdr = s.c.toZh2Hdr := by
    unfold h2OnWindowUpdate
    dsimp only
    repeat' split
    all_goals simp
  unfold onFrame
  dsimp only
  rw [if_neg h1, if_neg h9]
  repeat' split
  · exact hdata
  · unfold h2OnPriority
    repeat' split
    all_goals simp
  · exact hrst
  · exact hsettings
  · simp
  · exact hping
  · unfold h2OnGoaway
    repeat' split
    all_goals simp
  · exact hwindow
  · rfl

/-- HEADERS between two blocks. -/
theorem settled_h2OnHeaders (ht : f.type = ZH2_FT_HEADERS) :
    (h2OnHeaders g (c.log (.recv f)) f).Settled := by
  unfold h2OnHeaders
  split
  · exact .of_error (by simp)
  · split
    · exact .of_error (by simp)
    · rename_i frag hfrag
      split
      · split
        · exact .of_error (by simp)
        · unfold h2OpenStream
          dsimp only
          repeat' split
          · exact settled_hdrFragment (.begin (c := c) ht hfrag rfl rfl nofun)
          · exact settled_hdrFragment (.begin (c := c) ht hfrag (by simp) (by simp) nofun)
          · exact settled_hdrFragment (.begin (c := c) ht hfrag rfl rfl nofun)
          · exact settled_hdrFragment (.begin (c := c) ht hfrag rfl rfl fun _ h => (Option.some.inj h).symm)
      · split
        · exact .of_error (by simp)
        · split
          · exact .of_error (by simp)
          · exact settled_hdrFragment (.begin (c := c) ht hfrag rfl rfl fun _ h => (Option.some.inj h).symm)

/-- **A frame** leaves the block settled. -/
theorem settled_zh2FeedRound (s : Feed2St) (hset : s.c.Settled) :
    (roundConn (zh2FeedRound g s)).Settled := by
  unfold zh2FeedRound
  by_cases herr : s.c.gotError = true
  · rw [if_pos herr]
    exact hset
  rw [if_neg herr]
  -- no frame is there
  split
  · exact hset
  · dsimp only
    split
    · -- the frame is too long
      exact .of_error (by simp [roundConn])
    · split
      · -- the frame is not whole
        exact hset
      · split
        · -- the first frame has to be SETTINGS
          exact .of_error (by simp [roundConn])
        · split
          · -- a block is in progress, and this is no CONTINUATION of it
            exact .of_error (by simp [roundConn])
          · rename_i hcont
            split
            · -- a CONTINUATION without a block
              exact .of_error (by simp [roundConn])
            · rename_i hcont'
              generalize frameOf s.inp = f at hcont hcont' ⊢
              change Zh2Conn.Settled (onFrame g { s with c := { s.c.log (.recv f) with needSettings := false } } f).c
              by_cases ht : f.type = ZH2_FT_CONTINUATION
              · -- more of the block in progress
                have ha : s.c.hdrActive = true := by
                  by_contra hidle
                  exact hcont' ⟨by simpa using hidle, ht⟩
                have hsid : f.sid = s.c.hdrId := by
                  by_contra hne
                  exact hcont ⟨ha, .inr hne⟩
                obtain ⟨hoctets, hlast, hstream⟩ := hset (by simpa using herr) ha
                have hwhole : Zh2Conn.Whole { s.c with needSettings := false } := ⟨hoctets, hlast, hstream⟩
                unfold onFrame h2OnContinuation
                rw [ht]
                change Zh2Conn.Settled (ite _ _ _)
                split
                · exact .of_error (by simp)
                · exact settled_hdrFragment (hwhole.gathers ht hsid)
              · -- no block is in progress, and only HEADERS begins one
                have ha : s.c.hdrActive = false := by
                  by_contra hactive
                  exact hcont ⟨by simpa using hactive, .inl ht⟩
                by_cases hh : f.type = ZH2_FT_HEADERS
                · unfold onFrame
                  dsimp only
                  rw [if_neg (by rw [hh]; decide), if_pos hh]
                  exact settled_h2OnHeaders (c := { s.c with needSettings := false }) hh
                · refine .of_idle ?_
                  rw [onFrame_hdr _ hh ht]
                  exact ha

theorem settled_consumePreface {c : Zh2Conn} (h : c.Settled) (inp : Bytes) :
    (consumePreface c inp).1.Settled := by
  induction inp generalizing c with
  | nil =>
    unfold consumePreface
    split
    · exact h
    · exact h.congr id rfl rfl rfl
  | cons b inp ih =>
    unfold consumePreface
    split
    · split
      · exact .of_error (by simp)
      · exact ih (h.congr id rfl rfl rfl)
    · exact h.congr id rfl rfl rfl

/-- **The invariant rule for the pump**: it sends DATA frames and drops streams. -/
theorem zh2Pump_inv {c : Zh2Conn} {I : Zh2Conn → Prop}
    (data : ∀ c st chunk, I c → I (pumpData c st chunk))
    (close : ∀ c i, I c → I (streamClose c i)) (h : I c) : I (zh2Pump g c) := by
  -- one stream: chunks go out until a window, the cap or the body ends it
  have hstream : ∀ i c, I c → I (pumpStream g i c) := by
    intro i c hc
    refine Lib.loop_inv (pumpStreamRound_decreases g i) (I := I) (Q := I) ?_ ?_ hc
    · -- a round with a chunk to send
      intro c c' hc hr
      unfold pumpStreamRound at hr
      split at hr
      · cases hr
      · dsimp only at hr
        split at hr
        · cases hr
        · cases hr
          exact data _ _ _ hc
    · -- the last round changes nothing
      intro c r hc hr
      unfold pumpStreamRound at hr
      split at hr
      · cases hr
        exact hc
      · dsimp only at hr
        split at hr
        · cases hr
          exact hc
        · cases hr
  have hslot : ∀ (b : Bool) i c, I c → I (if b = true then pumpStream g i c else c) := by
    intro b i c hc
    cases b
    · exact hc
    · exact hstream i c hc
  -- all streams: the index moves on, or the stream at it is reaped
  refine Lib.loop_inv (pumpRound_decreases g) (I := fun s => I s.1) (Q := I) ?_ ?_ (s := (c, 0)) h
  all_goals
    rintro ⟨c, i⟩ r hc hr
    unfold pumpRound at hr
    dsimp only at hr
    split at hr
  · cases hr
  · split at hr
    · cases hr
    · split at hr
      · cases hr
        exact close _ _ (hslot _ i c hc)
      · cases hr
        exact hslot _ i c hc
  · cases hr
    exact hc
  · split at hr
    · cases hr
      exact hslot _ i c hc
    · split at hr <;> cases hr

theorem settled_zh2Pump {c : Zh2Conn} (h : c.Settled) : (zh2Pump g c).Settled :=
  zh2Pump_inv (I := Zh2Conn.Settled) (fun _ _ _ h => h.congr id rfl rfl rfl) (fun _ _ h => h.congr id rfl rfl rfl) h

end Handlers

/-! ### Runs

The states that a connection reaches from a new one through feeds, pumps, answers, drains
and shutdowns. `Run.induct` is the rule of the later modules: what holds of a new connection
and is kept by a step holds of all of them. -/

/-- The connections a run of the code passes through, whatever the peer sends, however
its octets are cut, and however the calls interleave: the state behind every frame of a
`zh2_feed_` call and behind every other call. -/
inductive Reachable : Zh2Conn → Prop
  | new : Reachable (zh2New g)
  | preface {c : Zh2Conn} (inp : Bytes) : Reachable c → Reachable (consumePreface c inp).1
  | frame {s s' : Feed2St} : Reachable s.c → zh2FeedRound g s = .inl s' → Reachable s'.c
  | stop {s : Feed2St} {c' : Zh2Conn} {rest : Bytes} :
      Reachable s.c → zh2FeedRound g s = .inr (c', rest) → Reachable c'
  | pump {c : Zh2Conn} : Reachable c → Reachable (zh2Pump g c)
  | graceful {c : Zh2Conn} : Reachable c → Reachable (zh2Graceful c)
  | drain {c : Zh2Conn} (n : Nat) : Reachable c → Reachable { c with out := c.out.consume n }

/-- The connections reached by steps. -/
def Run (c : Zh2Conn) : Prop := Steps g (zh2New g) c

section Runs

variable {g} {c : Zh2Conn}

theorem Reachable.frames (h : Reachable g c) (inp : Bytes) :
    Reachable g (zh2Frames g c inp).1 := by
  refine Lib.loop_inv (zh2FeedRound_decreases g) (I := fun s => Reachable g s.c)
    (Q := fun r => Reachable g r.1) ?_ ?_ h
  · intro s s' hs hround
    exact hs.frame hround
  · intro s r hs hround
    exact hs.stop (show _ = Sum.inr (r.1, r.2) from hround)

/-- A whole `zh2_feed_` call is part of a run. -/
theorem Reachable.feed (h : Reachable g c) (inp : Bytes) :
    Reachable g (zh2Feed g c inp).2.1 := by
  unfold zh2Feed
  cases hdone : c.prefaceDone with
  | true => exact h.frames inp
  | false =>
    have hpre := h.preface inp
    revert hpre
    generalize consumePreface c inp = r
    obtain ⟨c', inp', ready⟩ := r
    intro hpre
    cases ready with
    | true => exact hpre.frames inp'
    | false => exact hpre

/-- Between two calls and behind every frame, what there is of a block is what the frames carried. -/
theorem Reachable.settled (h : Reachable g c) : c.Settled := by
  induction h with
  | new => exact .of_idle rfl
  | preface inp _ ih => exact settled_consumePreface ih inp
  | @frame s s' _ hround ih =>
    have hset := settled_zh2FeedRound (g := g) s ih
    rwa [hround] at hset
  | @stop s c' rest _ hround ih =>
    have hset := settled_zh2FeedRound (g := g) s ih
    rwa [hround] at hset
  | pump _ ih => exact settled_zh2Pump ih
  | graceful _ ih => exact ih.congr (by simp) (by simp) (by simp) (by simp)
  | drain n _ ih => exact ih.congr id rfl rfl rfl

/-- **Every run is made of steps.** -/
theorem Reachable.run (h : Reachable g c) : Run g c := by
  induction h with
  | new => exact .refl _
  | preface inp _ ih => exact ih.trans (steps_consumePreface _ inp)
  | @frame s s' hs hround ih =>
    have := steps_zh2FeedRound (g := g) s hs.settled
    rw [hround] at this
    exact ih.trans this
  | @stop s c' rest hs hround ih =>
    have := steps_zh2FeedRound (g := g) s hs.settled
    rw [hround] at this
    exact ih.trans this
  | pump _ ih => exact ih.trans (steps_zh2Pump _)
  | graceful _ ih => exact ih.tail (.graceful _)
  | drain n _ ih => exact ih.tail (.drain _ n)

/-- **The invariant rule.** What holds of a new connection and is kept by every step from
a connection that was reached holds of every connection reached. -/
theorem Run.induct {P : Zh2Conn → Prop} (new : P (zh2New g))
    (step : ∀ c c', Run g c → P c → Step g c c' → P c') (h : Run g c) : P c := by
  induction h with
  | refl => exact new
  | tail hrun hstep ih => exact step _ _ hrun ih hstep

/-- The octets of a client: the preface, an empty SETTINGS frame, then `frames`. -/
def clientOctets (frames : List Frame) : Bytes :=
  ZH2_PREFACE ++
    (({ type := ZH2_FT_SETTINGS, sid := 0 } :: frames : List Frame).map Frame.bytes).flatten

/-- A connection of a server with default limits and a handler that answers nothing
itself, behind the frames of a client. -/
def silentFeed (frames : List Frame) : Zh2Conn :=
  (zh2Feed .silent (zh2New .silent) (clientOctets frames)).2.1

theorem reachable_silentFeed (frames : List Frame) : Reachable .silent (silentFeed frames) :=
  Reachable.new.feed _

end Runs

end Zcio
