import Zcio.H2.SendFlow

/-!
# Zcio.H2.Response

**Response integrity.** What the server sends on each stream, over whole runs: nothing, or
the HEADERS and CONTINUATION frames of the handler's answer followed by DATA frames whose
payloads are a part of its body, with END_HEADERS and END_STREAM where they belong; and
nothing more once the stream was reset.

For the responses there are only three kinds of steps (`RespStep`): one that appends a
DATA frame, one that makes a response, and all the others, which are quiet.
-/

namespace Zcio

/-! ### What the wire says

The frames sent on a stream, read off the history, and what it means for them to be a
response: one head cut into fragments, then DATA frames, with the two end flags where they
belong. -/

/-- The frames sent, oldest first. -/
def sentFrames (h : List H2Event) : List Frame :=
  (h.filterMap fun e => match e with
    | .sent f => some f
    | _ => none).reverse

/-- The HEADERS, CONTINUATION and DATA frames sent on stream `id`, oldest first. -/
def responseFrames (id : Nat) (h : List H2Event) : List Frame :=
  (sentFrames h).filter fun f => f.isResponse && f.sid == id

/-- Stream `id` was reset: a RST_STREAM was sent on it, or received on it with its four
octets. One that itself raised a PROTOCOL_ERROR, because it stood inside a header block or
on an idle stream, was not taken as a reset. -/
def resets (id : Nat) : List H2Event → Prop
  | [] => False
  | .sent f :: h => f.type = ZH2_FT_RST_STREAM ∧ f.sid = id ∨ resets id h
  | .error code :: .recv f :: h =>
    (f.type = ZH2_FT_RST_STREAM ∧ f.sid = id ∧ f.payload.length = 4 ∧
      code ≠ ZH2_E_PROTOCOL_ERROR) ∨ resets id h
  | .recv f :: h =>
    (f.type = ZH2_FT_RST_STREAM ∧ f.sid = id ∧ f.payload.length = 4) ∨ resets id h
  | _ :: h => resets id h

/-- The frames of a response. -/
structure RespFrames where
  head : Frame
  conts : List Frame
  datas : List Frame := []

/-- Payloads put together. -/
def payloads (fs : List Frame) : Bytes := (fs.map (·.payload)).flatten

/-- The frames as they are sent. -/
def RespFrames.frames (r : RespFrames) : List Frame := r.head :: (r.conts ++ r.datas)

/-- A response with the field block `block` and the body `body`, as far as it was sent. -/
structure RespFrames.Ok (r : RespFrames) (block body : Bytes) : Prop where
  head : r.head.type = ZH2_FT_HEADERS
  conts : ∀ f ∈ r.conts, f.type = ZH2_FT_CONTINUATION
  datas : ∀ f ∈ r.datas, f.type = ZH2_FT_DATA ∧ f.payload ≠ []
  /-- END_HEADERS stands on the last of the header frames. -/
  endHeaders : (r.head :: r.conts).map (fun f => hasFlag f.flags ZH2_FL_END_HEADERS) =
    List.replicate r.conts.length false ++ [true]
  /-- HEADERS ends the stream if there is no body. -/
  endHead : hasFlag r.head.flags ZH2_FL_END_STREAM = body.isEmpty
  endConts : ∀ f ∈ r.conts, hasFlag f.flags ZH2_FL_END_STREAM = false
  /-- Else the DATA frame that completes the body does, which is the last one. -/
  endDatas : ∀ ds f, r.datas = ds ++ [f] →
    (∀ d ∈ ds, hasFlag d.flags ZH2_FL_END_STREAM = false) ∧
    (hasFlag f.flags ZH2_FL_END_STREAM = true ↔ payloads r.datas = body)
  block : payloads (r.head :: r.conts) = block
  body : payloads r.datas <+: body

/-! ### Header frames

The head of a response is cut at the frame size the peer allows. The fragments join to the
block again, and only the last of them ends it. -/

theorem fragmentsN_ne_nil (maxf n : Nat) (fb : Bytes) : fragmentsN maxf n fb ≠ [] := by
  cases n with
  | zero => exact List.cons_ne_nil _ _
  | succ n =>
    unfold fragmentsN
    split
    · exact List.cons_ne_nil _ _
    · exact List.cons_ne_nil _ _

theorem flatten_fragmentsN (maxf n : Nat) (fb : Bytes) : (fragmentsN maxf n fb).flatten = fb := by
  induction n generalizing fb with
  | zero => simp [fragmentsN]
  | succ n ih =>
    unfold fragmentsN
    split
    · simp
    · rw [List.flatten_cons, ih, List.take_append_drop]

theorem contFrames_endHeaders (id : Nat) (p : Bytes) (ps : List Bytes) :
    (contFrames id (p :: ps)).map (fun f => hasFlag f.flags ZH2_FL_END_HEADERS) =
      List.replicate ps.length false ++ [true] := by
  induction ps generalizing p with
  | nil =>
    show [hasFlag ZH2_FL_END_HEADERS ZH2_FL_END_HEADERS] = [true]
    decide
  | cons q ps ih =>
    have hno : hasFlag 0 ZH2_FL_END_HEADERS = false := by decide
    rw [contFrames, List.map_cons, ih, List.length_cons, List.replicate_succ, List.cons_append, hno]
    exact List.cons_ne_nil _ _

theorem contFrames_endStream {id : Nat} {ps : List Bytes} {f : Frame} (h : f ∈ contFrames id ps) :
    hasFlag f.flags ZH2_FL_END_STREAM = false := by
  induction ps with
  | nil => cases h
  | cons p ps ih =>
    cases ps with
    | nil =>
      cases List.mem_singleton.mp h
      show hasFlag ZH2_FL_END_HEADERS ZH2_FL_END_STREAM = false
      decide
    | cons q ps =>
      rcases List.mem_cons.mp h with rfl | h
      · show hasFlag 0 ZH2_FL_END_STREAM = false
        decide
      · exact ih h

theorem length_contFrames (id : Nat) (ps : List Bytes) : (contFrames id ps).length = ps.length := by
  have hlen := congrArg List.length (@contFrames_payload id ps)
  rwa [List.length_map] at hlen

/-- **The header frames of a response**, before any DATA. -/
theorem respFrames_ok (c : Zh2Conn) (id : Nat) (isHead : Bool) (status : Nat)
    (hdrs : List (Bytes × Bytes)) (body : RespBody) :
    ∃ r : RespFrames, r.datas = [] ∧ respFrames c id isHead status hdrs body = r.head :: r.conts ∧
      r.Ok (fieldBlock status hdrs) (sentBody isHead status body) := by
  unfold respFrames fragments
  generalize (if c.peerMaxFrame ≠ 0 then c.peerMaxFrame else ZH2_DEFAULT_MAX_FRAME) = maxf
  generalize fieldBlock status hdrs = fb
  generalize sentBody isHead status body = data
  have hflat := flatten_fragmentsN maxf fb.length fb
  -- a block with no fields still goes out, as one empty fragment
  cases hps : fragmentsN maxf fb.length fb with
  | nil => exact absurd hps (fragmentsN_ne_nil _ _ _)
  | cons p ps =>
    rw [hps] at hflat
    have hpay := @headerFrames_payload id data.isEmpty (p :: ps)
    unfold headerFrames at hpay ⊢
    dsimp only at hpay ⊢
    generalize hfl : ((if ps.isEmpty then ZH2_FL_END_HEADERS else 0) |||
      (if data.isEmpty then ZH2_FL_END_STREAM else 0) : UInt8) = fl at hpay ⊢
    -- both flags of the first frame, for the four ways they may be set
    have hbits : ∀ a b : Bool, hasFlag ((if a then ZH2_FL_END_HEADERS else 0) |||
        (if b then ZH2_FL_END_STREAM else 0)) ZH2_FL_END_HEADERS = a ∧
        hasFlag ((if a then ZH2_FL_END_HEADERS else 0) |||
          (if b then ZH2_FL_END_STREAM else 0)) ZH2_FL_END_STREAM = b := by decide
    obtain ⟨hendh, hends⟩ := hbits ps.isEmpty data.isEmpty
    rw [hfl] at hendh hends
    refine ⟨⟨⟨ZH2_FT_HEADERS, fl, id, p⟩, contFrames id ps, []⟩, rfl, rfl, rfl,
      fun f hf => (contFrames_type hf).1, nofun, ?_, hends, fun f hf => contFrames_endStream hf,
      ?_, ?_, ⟨_, rfl⟩⟩
    · -- END_HEADERS stands on the last frame of the block and on no other
      dsimp only
      rw [List.map_cons, length_contFrames, hendh]
      cases ps with
      | nil => rfl
      | cons q ps =>
        rw [contFrames_endHeaders, List.length_cons, List.replicate_succ, List.cons_append]
        rfl
    · -- no DATA yet, so that no payload is empty
      intro ds f heq
      exact absurd heq.symm (by simp)
    · -- the payloads joined are the block that was cut up
      unfold payloads
      dsimp only
      rw [hpay, hflat]

/-! ### Quiet steps

Most steps send no frame of a response and take no stream out of the table but by a reset.
They are collected in one relation, closed under composition, so that the invariant has to
be proved for it once. -/

section Quiet

variable {id : Nat} {e : H2Event} {h new : List H2Event}

/-- An error behind a frame can only take a reset back. -/
theorem resets_error {code : Nat} (hr : resets id (.error code :: h)) : resets id h := by
  unfold resets at hr
  split at hr
  · cases ‹_ :: _ = []›
  · cases ‹_ :: _ = _ :: _›
  · rename_i heq
    cases heq
    rcases hr with hr | hr
    · exact .inl ⟨hr.1, hr.2.1, hr.2.2.1⟩
    · exact .inr hr
  · cases ‹_ :: _ = _ :: _›
  · rename_i heq
    cases heq
    exact hr

theorem resets_append (hr : resets id (new ++ h)) : resets id new ∨ resets id h := by
  fun_induction resets id new with
  | case1 => exact .inr hr
  | case2 f new ih =>
    rcases hr with hr | hr
    · exact .inl (.inl hr)
    · exact (ih hr).imp_left .inr
  | case3 code f new ih =>
    rcases hr with hr | hr
    · exact .inl (.inl hr)
    · exact (ih hr).imp_left .inr
  | case4 f new ih =>
    rcases hr with hr | hr
    · exact .inl (.inl hr)
    · exact (ih hr).imp_left .inr
  | case5 e new hs her hrec ih =>
    cases e with
    | sent f => exact absurd rfl (hs f)
    | recv f => exact absurd rfl (hrec f)
    | error code =>
      cases new with
      | nil => exact .inr (resets_error hr)
      | cons e' new => exact ih (resets_error hr)
    | _ => exact ih hr

end Quiet

/-- An event that is no part of a response. -/
def H2Event.Plain : H2Event → Prop
  | .sent f => f.isResponse = false
  | _ => True

/-- The response side of a stream. -/
def Zh2Stream.reply (st : Zh2Stream) : Zh2Stream :=
  { id := st.id
    sendWindow := 0
    responded := st.responded
    respHeadersDone := st.respHeadersDone
    respEndAfterBody := st.respEndAfterBody
    sendDone := st.sendDone
    respBody := st.respBody
    bodyOff := st.bodyOff }

/-- A step that neither makes a response nor continues one. Streams may be dropped or
opened, and one that is reset is dropped. -/
structure QuietStep (c c' : Zh2Conn) : Prop where
  hist : ∃ new, c'.hist = new ++ c.hist ∧ (∀ e ∈ new, e.Plain) ∧
    ∀ id, resets id new → id ≤ c'.lastClientId ∧ ∀ st ∈ c'.streams, st.id ≠ id
  last : c.lastClientId ≤ c'.lastClientId
  streams : ∀ st' ∈ c'.streams, (∃ st ∈ c.streams, st.reply = st'.reply) ∨
    c.lastClientId < st'.id ∧ st'.reply = { id := st'.id, sendWindow := 0 }

namespace QuietStep

variable {g : H2Cfg} {a b c c' : Zh2Conn}

theorem trans (h : QuietStep a b) (h' : QuietStep b c) : QuietStep a c := by
  obtain ⟨new, hhist, hplain, hreset⟩ := h.hist
  obtain ⟨new', hhist', hplain', hreset'⟩ := h'.hist
  refine ⟨⟨new' ++ new, ?_, ?_, ?_⟩, h.last.trans h'.last, ?_⟩
  · rw [hhist', hhist, List.append_assoc]
  · intro e he
    rcases List.mem_append.mp he with he | he
    · exact hplain' e he
    · exact hplain e he
  · intro id hr
    rcases resets_append hr with hr | hr
    · exact hreset' id hr
    · -- a stream that was dropped does not come back
      obtain ⟨hle, hgone⟩ := hreset id hr
      refine ⟨hle.trans h'.last, fun st' hst' => ?_⟩
      rcases h'.streams st' hst' with ⟨st, hst, heq⟩ | ⟨hlt, -⟩
      · have hid : st.id = st'.id := congrArg (·.id) heq
        exact hid ▸ hgone st hst
      · omega
  · intro st'' hst''
    rcases h'.streams st'' hst'' with ⟨st', hst', heq'⟩ | ⟨hlt, hnew⟩
    · rcases h.streams st' hst' with ⟨st, hst, heq⟩ | ⟨hlt, hnew⟩
      · exact .inl ⟨st, hst, heq.trans heq'⟩
      · have hid : st'.id = st''.id := congrArg (·.id) heq'
        exact .inr ⟨hid ▸ hlt, heq'.symm.trans (hid ▸ hnew)⟩
    · exact .inr ⟨Nat.lt_of_le_of_lt h.last hlt, hnew⟩

/-- Events without a reset; streams may be dropped. -/
theorem events (new : List H2Event) (hhist : c'.hist = new ++ c.hist)
    (hplain : ∀ e ∈ new, e.Plain) (hno : ∀ id, ¬resets id new)
    (hlast : c.lastClientId ≤ c'.lastClientId)
    (hst : ∀ st' ∈ c'.streams, ∃ st ∈ c.streams, st.reply = st'.reply) : QuietStep c c' :=
  ⟨⟨new, hhist, hplain, fun id hr => absurd hr (hno id)⟩, hlast, fun st' h => .inl (hst st' h)⟩

/-- No event; streams may be dropped. -/
theorem silent (hhist : c'.hist = c.hist) (hlast : c.lastClientId ≤ c'.lastClientId)
    (hst : ∀ st' ∈ c'.streams, ∃ st ∈ c.streams, st.reply = st'.reply) : QuietStep c c' :=
  events [] hhist (fun _ he => (List.not_mem_nil he).elim) (fun _ hr => hr) hlast hst

/-- Nothing the response side reads. -/
theorem congr (hhist : c'.hist = c.hist) (ht : c'.streams = c.streams)
    (hlast : c.lastClientId ≤ c'.lastClientId) : QuietStep c c' :=
  silent hhist hlast fun st hst => ⟨st, ht ▸ hst, rfl⟩

/-- One event. -/
theorem event {e : H2Event} (hhist : c'.hist = e :: c.hist) (hplain : e.Plain)
    (hno : ∀ id, ¬resets id [e]) (ht : c'.toZh2Table = c.toZh2Table) : QuietStep c c' := by
  refine events [e] hhist (by simpa using hplain) hno (by rw [ht]) fun st hst => ⟨st, ?_, rfl⟩
  rwa [ht] at hst

/-- A frame is received. -/
theorem recv (c : Zh2Conn) {f : Frame} (hty : f.type ≠ ZH2_FT_RST_STREAM) :
    QuietStep c (c.log (.recv f)) :=
  event rfl trivial (by simp [resets, hty]) rfl

/-- A frame is sent. -/
theorem sent {f : Frame} (hhist : c'.hist = .sent f :: c.hist) (hresp : f.isResponse = false)
    (hty : f.type ≠ ZH2_FT_RST_STREAM) (ht : c'.toZh2Table = c.toZh2Table) : QuietStep c c' :=
  event hhist hresp (by simp [resets, hty]) ht

/-- At most one frame is sent. -/
theorem ite {p : Prop} [Decidable p] {f : Frame}
    (hhist : c'.hist = (if p then [] else [.sent f]) ++ c.hist) (hresp : f.isResponse = false)
    (hty : f.type ≠ ZH2_FT_RST_STREAM) (ht : c'.toZh2Table = c.toZh2Table) : QuietStep c c' := by
  by_cases hp : p
  · rw [if_pos hp] at hhist
    exact congr hhist (by rw [ht]) (by rw [ht])
  · rw [if_neg hp] at hhist
    exact sent hhist hresp hty ht

theorem error (c : Zh2Conn) (code : Nat) : QuietStep c (connError c code) := by
  refine trans (b := c.log (.error code)) (event rfl trivial (fun id hr => hr) rfl) ?_
  exact ite (connError_frame c code).1 rfl (show ZH2_FT_GOAWAY ≠ ZH2_FT_RST_STREAM by decide)
    (by simp)

/-- A write to streams that leaves their responses alone. -/
theorem update (c : Zh2Conn) (id : Nat) {f : Zh2Stream → Zh2Stream}
    (hf : ∀ st, (f st).reply = st.reply) : QuietStep c (updateStream c id f) := by
  refine silent rfl (Nat.le_refl _) fun st' hst' => ?_
  obtain ⟨st, hst, rfl⟩ := mem_updateStream.mp hst'
  refine ⟨st, hst, ?_⟩
  split
  · exact (hf st).symm
  · rfl

theorem mark (c : Zh2Conn) (id : Nat) : QuietStep c (h2Mark g c id) := by
  have hst : ∀ st' ∈ (h2Mark g c id).streams, ∃ st ∈ c.streams, st.reply = st'.reply := by
    intro st' hst'
    obtain ⟨st, hst, hsame, -⟩ := h2Mark_mem hst'
    exact ⟨st, hst, by rw [← hsame]; rfl⟩
  rcases h2Mark_hist (g := g) c id with hh | ⟨st, -, -, hh⟩
  · exact silent hh (by simp) hst
  · refine events [_] hh ?_ (fun _ hr => hr) (by simp) hst
    intro e he
    cases List.mem_singleton.mp he
    trivial

theorem consume (c : Zh2Conn) (len : Nat) : QuietStep c (recvConsumeConn c len) :=
  ite (recvConsumeConn_frame c len).1 rfl (show ZH2_FT_WINDOW_UPDATE ≠ ZH2_FT_RST_STREAM by decide)
    (by simp)

theorem consumeStream (c : Zh2Conn) (st : Zh2Stream) (len : Nat) :
    QuietStep c (recvConsumeStream c st len) := by
  rw [recvConsumeStream_eq]
  refine trans (b := qWindowUpdate c st.id (topUp st.recvWindow len).2) ?_
    (update _ _ fun _ => rfl)
  exact ite (qWindowUpdate_frame _ _ _).1 rfl
    (show ZH2_FT_WINDOW_UPDATE ≠ ZH2_FT_RST_STREAM by decide) (by simp)

/-- SETTINGS move windows at most. -/
theorem retune (c : Zh2Conn) {sts : List Zh2Stream} (hsh : Shifted c.streams sts) (w m : Nat) :
    QuietStep c (Zcio.retune c sts w m) := by
  refine silent rfl (Nat.le_refl _) fun st' hst' => ?_
  obtain ⟨st, hst, hcore⟩ := mem_of_shifted hsh hst'
  refine ⟨st, hst, ?_⟩
  show st.core.reply = st'.core.reply
  rw [hcore]

/-- A stream is dropped. -/
theorem close (hnd : c.ids.Nodup) (id : Nat) : QuietStep c (closeById c id) := by
  refine silent (by simp) (by simp) fun st hst => ?_
  exact ⟨st, ((mem_closeById hnd).mp hst).1, rfl⟩

/-- A stream id is taken, with a stream or without one. -/
theorem count (c : Zh2Conn) {id : Nat} (hlt : c.lastClientId < id) :
    QuietStep c (countStream c id) :=
  congr rfl rfl hlt.le

theorem opened (c : Zh2Conn) {id : Nat} (hlt : c.lastClientId < id) :
    QuietStep c (h2StreamNew (countStream c id) id) := by
  refine ⟨⟨[], rfl, fun _ he => (List.not_mem_nil he).elim, fun _ hr => hr.elim⟩, hlt.le, fun st hst => ?_⟩
  rcases List.mem_append.mp hst with hst | hst
  · exact .inl ⟨st, hst, rfl⟩
  · cases List.mem_singleton.mp hst
    exact .inr ⟨hlt, rfl⟩

/-- A reset of stream `id`, in one event, with the stream dropped. -/
theorem reset {e : H2Event} {id : Nat} (hhist : c'.hist = e :: c.hist) (hplain : e.Plain)
    (he : ∀ i, resets i [e] → i = id) (hle : id ≤ c.lastClientId)
    (hlast : c'.lastClientId = c.lastClientId)
    (hgone : ∀ st ∈ c'.streams, st.id ≠ id ∧ st ∈ c.streams) : QuietStep c c' := by
  refine ⟨⟨[e], hhist, by simpa using hplain, fun i hr => ?_⟩, hlast.ge, fun st hst =>
    .inl ⟨st, (hgone st hst).2, rfl⟩⟩
  rw [he i hr, hlast]
  exact ⟨hle, fun st hst => (hgone st hst).1⟩

theorem resets_rstFrame {id i code : Nat} (h : resets i [.sent (rstFrame id code)]) : i = id := by
  rcases h with h | h
  · exact h.2.symm
  · exact h.elim

/-- `rst_stream`. -/
theorem rst (hnd : c.ids.Nodup) {id : Nat} (code : Nat) (hle : id ≤ c.lastClientId) :
    QuietStep c (rstStream c id code) := by
  refine reset (e := .sent (rstFrame id code)) (by simp) rfl (fun _ => resets_rstFrame) hle
    (by simp) fun st hst => ?_
  have hmem : st ∈ (closeById c id).streams := by simpa using hst
  exact ((mem_closeById hnd).mp hmem).symm

/-- `q_rst` on an id without a stream. -/
theorem qRst {id : Nat} (code : Nat) (hle : id ≤ c.lastClientId)
    (hgone : ∀ st ∈ c.streams, st.id ≠ id) : QuietStep c (Zcio.qRst c id code) :=
  reset (e := .sent (rstFrame id code)) rfl rfl (fun _ => resets_rstFrame) hle rfl
    fun st hst => ⟨hgone st hst, hst⟩

theorem resets_recv {f : Frame} {i : Nat} (h : resets i [.recv f]) : i = f.sid := by
  rcases h with h | h
  · exact h.2.1.symm
  · exact h.elim

/-- A RST_STREAM is received. -/
theorem peerReset (ht : TableInv g c) {f : Frame} {st : Zh2Stream} {n : Nat}
    (hst : findStream c f.sid = some st) :
    QuietStep c (closeById { c.log (.recv f) with rapidReset := n } f.sid) := by
  obtain ⟨hmem, hid⟩ := findStream_some hst
  refine reset (e := .recv f) (by simp) trivial (fun _ => resets_recv) (hid ▸ ht.le_last st hmem)
    (by simp) fun s hs => ?_
  have hs : s ∈ (closeById c f.sid).streams := by
    rwa [closeById_streams (a := c) (b := { c.log (.recv f) with rapidReset := n }) rfl] at hs
  exact ((mem_closeById ht.nodup).mp hs).symm

/-- A frame without effect; it may be a reset of a stream that is gone. -/
theorem ignore {f : Frame} (hin : f.Inert c) : QuietStep c (c.log (.recv f)) := by
  by_cases hty : f.type = ZH2_FT_RST_STREAM
  · obtain ⟨-, hnone, hle⟩ := hin.closed (.inr hty)
    exact reset (e := .recv f) rfl trivial (fun _ => resets_recv) hle rfl fun st hst =>
      ⟨findStream_none hnone st hst, hst⟩
  · exact recv c hty

/-- A frame that only raises a connection error; a RST_STREAM among them resets nothing. -/
theorem reject (c : Zh2Conn) {f : Frame} {code : Nat} (href : f.Refused code) :
    QuietStep c (connError (c.log (.recv f)) code) := by
  refine trans (b := (c.log (.recv f)).log (.error code)) ?_
    (ite (connError_frame (c.log (.recv f)) code).1 rfl
      (show ZH2_FT_GOAWAY ≠ ZH2_FT_RST_STREAM by decide) (by simp))
  refine events [.error code, .recv f] rfl ?_ ?_ (Nat.le_refl _) fun st hst => ⟨st, hst, rfl⟩
  · intro e he
    rcases List.mem_cons.mp he with rfl | he
    · trivial
    · cases List.mem_singleton.mp he
      trivial
  · rintro id (⟨hty, -, hlen, hcode⟩ | hr)
    · rcases href hty with h | h
      · exact hcode h
      · exact h hlen
    · exact hr

end QuietStep

/-! ### What a step does to the responses

Four kinds are left: a quiet step, a head, a chunk of a body, and the end of a stream. -/

/-- The three kinds of steps. -/
inductive RespStep (g : H2Cfg) (c : Zh2Conn) : Zh2Conn → Prop
  | quiet {c' : Zh2Conn} : QuietStep c c' → RespStep g c c'
  | respond {id : Nat} {st : Zh2Stream} {isHead : Bool} {status : Nat}
      {hdrs : List (Bytes × Bytes)} {body : RespBody} :
      findStream c id = some st → st.responded = false →
      IsReply g c.hist id isHead status hdrs body →
      RespStep g c (zh2Respond id isHead c status hdrs body)
  | pump {st : Zh2Stream} {chunk : Nat} :
      st ∈ c.streams → st.respHeadersDone = true → chunk ≠ 0 →
      chunk ≤ st.respBody.length - st.bodyOff → RespStep g c (pumpData c st chunk)

section Step

variable {g : H2Cfg} {c c' : Zh2Conn}

theorem QuietStep.blockDone (c : Zh2Conn) : QuietStep c (Zcio.blockDone g c) :=
  event rfl trivial (fun _ hr => hr) rfl

/-- A header block for an id that has no stream ends in a reset of that id. -/
theorem QuietStep.blockRefused (hh : HdrInv g c) (ha : c.hdrActive = true)
    (hid : c.hdrStream = none ∨ c.hdrRefuse ≠ 0) (code : Nat) :
    QuietStep c (Zcio.qRst (Zcio.blockDone g c) c.hdrId code) := by
  have hnone : c.hdrStream = none := by
    cases hs : c.hdrStream with
    | none => rfl
    | some id =>
      rcases hid with hid | hid
      · rw [hs] at hid
        cases hid
      · exact absurd (hh.target ha id hs).2.1 hid
  exact (blockDone c).trans (qRst code (hh.id_le ha) (hh.refused ha hnone))

theorem Step.resp (hs : Step g c c') (ht : TableInv g c) (hh : HdrInv g c) : RespStep g c c' := by
  -- a frame that arrives moves no response unless it is a reset
  have hrecv : ∀ {f : Frame}, f.type ≠ ZH2_FT_RST_STREAM → QuietStep c (c.log (.recv f)) :=
    fun hty => .recv c hty
  have hopen : ∀ {id : Nat} {st : Zh2Stream}, findStream c id = some st →
      id ≤ c.lastClientId := by
    intro id st hst
    obtain ⟨hmem, hid⟩ := findStream_some hst
    exact hid ▸ ht.le_last st hmem
  have hdone : QuietStep c (Zcio.blockDone g c) := .blockDone c
  -- in every case but three the step is quiet: frames of other kinds, or none
  cases hs with
  | setup => exact .quiet (.congr rfl rfl (Nat.le_refl _))
  | error => exact .quiet (.error c _)
  | reject _ href => exact .quiet (.reject c href)
  | ignore _ hin => exact .quiet (.ignore hin)
  | goaway _ hty =>
    exact .quiet ((hrecv (by rw [hty]; decide)).trans (.congr rfl rfl (Nat.le_refl _)))
  | ping _ hty =>
    exact .quiet ((hrecv (by rw [hty]; decide)).trans
      (.sent rfl rfl (show ZH2_FT_PING ≠ ZH2_FT_RST_STREAM by decide) rfl))
  | @settings f w m _ hty =>
    have hsh : Shifted c.streams (c.streams.map (.shift ((w : Int) - c.peerInitialWindow))) := by
      unfold Shifted
      rw [List.map_map]
      rfl
    refine .quiet ((hrecv (f := f) (by rw [hty]; decide)).trans ?_)
    refine (QuietStep.retune (c.log (.recv f)) hsh w m).trans ?_
    exact .sent rfl rfl (show ZH2_FT_SETTINGS ≠ ZH2_FT_RST_STREAM by decide) rfl
  | @settingsFail f sts w m code _ hty hsh =>
    refine .quiet ((hrecv (f := f) (by rw [hty]; decide)).trans ?_)
    exact (QuietStep.retune (c.log (.recv f)) hsh w m).trans (.error _ code)
  | windowConn _ hty =>
    exact .quiet ((hrecv (by rw [hty]; decide)).trans (.congr rfl rfl (Nat.le_refl _)))
  | @windowConnError f code _ hty =>
    refine .quiet ((hrecv (f := f) (by rw [hty]; decide)).trans ?_)
    exact QuietStep.trans (b := { c.log (.recv f) with sendWindow := c.sendWindow + f.incr })
      (.congr rfl rfl (Nat.le_refl _)) (.error _ code)
  | windowStream _ hty =>
    exact .quiet ((hrecv (by rw [hty]; decide)).trans (.update _ _ fun _ => rfl))
  | @windowReset f st code _ hty _ hst =>
    have hids : (updateStream (c.log (.recv f)) f.sid (.shift f.incr)).ids = c.ids :=
      ids_updateStream fun _ => rfl
    refine .quiet ((hrecv (f := f) (by rw [hty]; decide)).trans ?_)
    refine QuietStep.trans (b := updateStream (c.log (.recv f)) f.sid (.shift f.incr))
      (.update _ _ fun _ => rfl) ?_
    refine QuietStep.rst ?_ code (hopen hst)
    rw [hids]
    exact ht.nodup
  -- a reset from the peer ends its own stream and no other
  | peerReset _ _ hst => exact .quiet (.peerReset ht hst)
  | peerResetFlood code _ _ hst => exact .quiet ((QuietStep.peerReset ht hst).trans (.error _ code))
  | dataClosed _ hty => exact .quiet ((hrecv (by rw [hty]; decide)).trans (.consume _ _))
  | dataIdle code _ hty =>
    exact .quiet (((hrecv (by rw [hty]; decide)).trans (.consume _ _)).trans (.error _ code))
  | @dataReset f st code _ hty _ hst =>
    refine .quiet ((hrecv (f := f) (by rw [hty]; decide)).trans ?_)
    exact (QuietStep.rst (c := c.log (.recv f)) ht.nodup code (hopen hst)).trans (.consume _ _)
  | @data f st data _ hty =>
    refine .quiet ((hrecv (f := f) (by rw [hty]; decide)).trans ?_)
    refine QuietStep.trans (b := appendBody (c.log (.recv f)) f.sid data) (.update _ _ fun _ => rfl) ?_
    exact (QuietStep.consume _ _).trans (.consumeStream _ _ _)
  | @dataEnd f st data _ hty =>
    refine .quiet ((hrecv (f := f) (by rw [hty]; decide)).trans ?_)
    refine QuietStep.trans (b := appendBody (c.log (.recv f)) f.sid data) (.update _ _ fun _ => rfl) ?_
    refine (QuietStep.consume _ _).trans (QuietStep.trans (.update _ _ ?_) (.mark _ _))
    exact fun _ => rfl
  | @headers f _ hty _ hlt =>
    refine .quiet ((hrecv (f := f) (by rw [hty]; decide)).trans ?_)
    exact (QuietStep.opened (c.log (.recv f)) hlt).trans (.congr rfl rfl (Nat.le_refl _))
  | @headersRefused f _ hty hlt =>
    refine .quiet ((hrecv (f := f) (by rw [hty]; decide)).trans ?_)
    exact (QuietStep.count (c.log (.recv f)) hlt).trans (.congr rfl rfl (Nat.le_refl _))
  | headersTrailer _ hty =>
    exact .quiet ((hrecv (by rw [hty]; decide)).trans (.congr rfl rfl (Nat.le_refl _)))
  | continuation _ _ hty =>
    exact .quiet ((hrecv (by rw [hty]; decide)).trans (.congr rfl rfl (Nat.le_refl _)))
  | @continuationFlood f code _ _ hty =>
    refine .quiet ((hrecv (f := f) (by rw [hty]; decide)).trans ?_)
    exact QuietStep.trans (b := { c.log (.recv f) with contCount := c.contCount + 1 })
      (.congr rfl rfl (Nat.le_refl _)) (.error _ code)
  | accumulate => exact .quiet (.congr rfl rfl (Nat.le_refl _))
  | blockError code => exact .quiet (hdone.trans (.error _ code))
  -- the block's stream is in the table, and its reset takes it away
  | blockReset code ha _ hid =>
    obtain ⟨-, -, st, hst, rfl, -⟩ := hh.target ha _ hid
    exact .quiet (hdone.trans
      (QuietStep.rst (c := Zcio.blockDone g c) ht.nodup code (ht.le_last st hst)))
  | blockRefused code ha _ hid => exact .quiet (.blockRefused hh ha hid code)
  | blockHead => exact .quiet (hdone.trans (.update _ _ fun _ => rfl))
  | blockHeadEnd =>
    refine .quiet (hdone.trans (QuietStep.trans (.update _ _ ?_) (.mark _ _)))
    exact fun _ => rfl
  | blockTrailer =>
    refine .quiet (hdone.trans (QuietStep.trans (.update _ _ ?_) (.mark _ _)))
    exact fun _ => rfl
  -- the three steps that write a response: the head, the body, the end of a stream
  | respond hst _ hresp hreply => exact .respond hst hresp hreply
  | release id => exact .quiet (.update _ id fun _ => rfl)
  | reap hst =>
    rw [streamClose_eq_closeById ht.nodup hst]
    exact .quiet (.close ht.nodup _)
  | pump hst hdone hne =>
    exact .pump (List.mem_of_getElem? hst) hdone hne (pumpChunk_le g c _)
  | graceful =>
    exact .quiet (.ite (zh2Graceful_frame c).1 rfl
      (show ZH2_FT_GOAWAY ≠ ZH2_FT_RST_STREAM by decide) (by simp))
  | drain => exact .quiet (.congr rfl rfl (Nat.le_refl _))

end Step

/-! ### Answered streams

The history of a stream that was answered: the head is there, and the octets sent are a
prefix of the body that was given. -/

section Replied

variable {g : H2Cfg} {id : Nat} {h new : List H2Event} {body sent : Bytes}

theorem sentFrames_append (new h : List H2Event) :
    sentFrames (new ++ h) = sentFrames h ++ sentFrames new := by
  simp [sentFrames]

@[simp] theorem sentFrames_sent (f : Frame) (h : List H2Event) :
    sentFrames (.sent f :: h) = sentFrames h ++ [f] := by
  simp [sentFrames]

theorem responseFrames_append (id : Nat) (new h : List H2Event) :
    responseFrames id (new ++ h) = responseFrames id h ++ responseFrames id new := by
  simp [responseFrames, sentFrames_append]

theorem responseFrames_sent (id : Nat) (f : Frame) (h : List H2Event) :
    responseFrames id (.sent f :: h) =
      responseFrames id h ++ [f].filter fun f => f.isResponse && f.sid == id := by
  simp [responseFrames]

theorem mem_sentFrames {f : Frame} : f ∈ sentFrames h ↔ H2Event.sent f ∈ h := by
  unfold sentFrames
  rw [List.mem_reverse, List.mem_filterMap]
  constructor
  · rintro ⟨e, he, heq⟩
    split at heq
    · cases heq
      exact he
    · cases heq
  · intro hf
    exact ⟨_, hf, rfl⟩

theorem responseFrames_plain (hp : ∀ e ∈ new, e.Plain) (id : Nat) :
    responseFrames id (new ++ h) = responseFrames id h := by
  have hnil : responseFrames id new = [] := by
    unfold responseFrames
    rw [List.filter_eq_nil_iff]
    intro f hf
    have hplain : f.isResponse = false := hp _ (mem_sentFrames.mp hf)
    simp [hplain]
  rw [responseFrames_append, hnil, List.append_nil]

/-- Stream `id` was answered: `body` is the body to send and `sent` what was sent of it. -/
def Replied (g : H2Cfg) (h : List H2Event) (id : Nat) (body sent : Bytes) : Prop :=
  ∃ (r : RespFrames) (t : List H2Event) (isHead : Bool) (status : Nat)
    (hdrs : List (Bytes × Bytes)) (b : RespBody),
    .responded id isHead status hdrs b :: t <:+ h ∧ IsReply g t id isHead status hdrs b ∧
    body = sentBody isHead status b ∧
    responseFrames id h = r.frames ∧ r.head :: r.conts <:+: sentFrames h ∧
    r.Ok (fieldBlock status hdrs) body ∧ payloads r.datas = sent

/-- What happens elsewhere changes nothing. -/
theorem Replied.append (ha : Replied g h id body sent)
    (hsame : responseFrames id (new ++ h) = responseFrames id h) :
    Replied g (new ++ h) id body sent := by
  obtain ⟨r, t, isHead, status, hdrs, b, hsuf, hreply, hbody, hframes, hinfix, hok, hsent⟩ := ha
  refine ⟨r, t, isHead, status, hdrs, b, hsuf.trans (List.suffix_append _ _), hreply, hbody,
    hsame.trans hframes, ?_, hok, hsent⟩
  rw [sentFrames_append]
  exact hinfix.trans ⟨[], sentFrames new, rfl⟩

/-- A response is made. -/
theorem Replied.respond (c : Zh2Conn) {isHead : Bool} {status : Nat}
    {hdrs : List (Bytes × Bytes)} {b : RespBody} (hreply : IsReply g h id isHead status hdrs b)
    (hnone : responseFrames id h = []) :
    Replied g (((respFrames c id isHead status hdrs b).map H2Event.sent).reverse ++
      .responded id isHead status hdrs b :: h) id (sentBody isHead status b) [] := by
  obtain ⟨r, hdatas, hframes, hok⟩ := respFrames_ok c id isHead status hdrs b
  have hsent : ∀ fs : List Frame, sentFrames (fs.map H2Event.sent).reverse = fs := by
    intro fs
    simp [sentFrames, List.filterMap_map]
  have hall : ∀ f ∈ respFrames c id isHead status hdrs b,
      (f.isResponse && f.sid == id) = true := by
    intro f hf
    obtain ⟨hty, hsid⟩ := respFrames_type hf
    rcases hty with hty | hty
    · simp [Frame.isResponse, hty, hsid]
    · simp [Frame.isResponse, hty, hsid]
  have hold : responseFrames id (.responded id isHead status hdrs b :: h) = [] := hnone
  refine ⟨r, h, isHead, status, hdrs, b, List.suffix_append _ _, hreply, rfl, ?_, ?_, hok, ?_⟩
  · rw [responseFrames_append, hold, List.nil_append]
    unfold responseFrames
    rw [hsent, List.filter_eq_self.mpr hall, hframes, RespFrames.frames, hdatas, List.append_nil]
  · rw [sentFrames_append, hsent, hframes]
    exact ⟨_, [], by rw [List.append_nil]⟩
  · rw [hdatas]
    rfl

/-- A DATA frame continues a response that is not complete. -/
theorem Replied.data (ha : Replied g h id body sent) {f : Frame} (hty : f.type = ZH2_FT_DATA)
    (hsid : f.sid = id) (hne : f.payload ≠ []) (hopen : sent ≠ body)
    (hpre : sent ++ f.payload <+: body)
    (hend : hasFlag f.flags ZH2_FL_END_STREAM = true ↔ sent ++ f.payload = body) :
    Replied g (.sent f :: h) id body (sent ++ f.payload) := by
  obtain ⟨r, t, isHead, status, hdrs, b, hsuf, hreply, hbody, hframes, hinfix, hok, hsent⟩ := ha
  have hpay : payloads (r.datas ++ [f]) = sent ++ f.payload := by
    simp [payloads, ← hsent]
  -- the frames before did not complete the body, so none of them ended the stream
  have hbefore : ∀ d ∈ r.datas, hasFlag d.flags ZH2_FL_END_STREAM = false := by
    intro d hd
    rcases List.eq_nil_or_concat r.datas with hnil | ⟨ds, l, hlast⟩
    · rw [hnil] at hd
      cases hd
    · rw [List.concat_eq_append] at hlast
      obtain ⟨hno, hlastEnd⟩ := hok.endDatas ds l hlast
      rw [hlast] at hd
      rcases List.mem_append.mp hd with hd | hd
      · exact hno d hd
      · cases List.mem_singleton.mp hd
        rw [← Bool.not_eq_true, hlastEnd, hsent]
        exact hopen
  refine ⟨{ r with datas := r.datas ++ [f] }, t, isHead, status, hdrs, b,
    hsuf.trans (List.suffix_cons _ _), hreply, hbody, ?_, ?_, ?_, hpay⟩
  · rw [responseFrames_sent, hframes]
    simp [RespFrames.frames, Frame.isResponse, hty, hsid]
  · rw [sentFrames_sent]
    exact hinfix.trans ⟨[], [f], rfl⟩
  · refine ⟨hok.head, hok.conts, ?_, hok.endHeaders, hok.endHead, hok.endConts, ?_, hok.block, ?_⟩
    · intro d hd
      rcases List.mem_append.mp hd with hd | hd
      · exact hok.datas d hd
      · cases List.mem_singleton.mp hd
        exact ⟨hty, hne⟩
    · intro ds l heq
      obtain ⟨rfl, hl⟩ := List.append_inj' heq rfl
      cases hl
      refine ⟨hbefore, ?_⟩
      rw [hpay]
      exact hend
    · show payloads (r.datas ++ [f]) <+: body
      rw [hpay]
      exact hpre

end Replied

/-! ### The invariant

Streams in the table are silent or answered, ids that are gone keep what was sent on them,
and behind a reset nothing is sent. -/

/-- A stream's response side agrees with what was sent on it. -/
structure StreamAnswered (g : H2Cfg) (h : List H2Event) (st : Zh2Stream) : Prop where
  responded : st.responded = true
  off_le : st.bodyOff ≤ st.respBody.length
  done : st.sendDone = true ↔ st.bodyOff = st.respBody.length
  endAfter : st.respEndAfterBody = !st.respBody.isEmpty
  answered : Replied g h st.id st.respBody (st.respBody.take st.bodyOff)

/-- Nothing was sent on a stream yet. -/
structure StreamSilent (h : List H2Event) (st : Zh2Stream) : Prop where
  responded : st.responded = false
  headers : st.respHeadersDone = false
  off : st.bodyOff = 0
  frames : responseFrames st.id h = []

/-- No frame of a response was sent on a stream behind a reset of it. -/
def Hushed (h : List H2Event) : Prop :=
  ∀ f t, h = .sent f :: t → f.isResponse = true → ¬resets f.sid t

/-- The responses of a connection. -/
structure RespInv (g : H2Cfg) (c : Zh2Conn) : Prop where
  alive : ∀ st ∈ c.streams, ¬resets st.id c.hist
  reset_le : ∀ id, resets id c.hist → id ≤ c.lastClientId
  stream : ∀ st ∈ c.streams, StreamSilent c.hist st ∨ StreamAnswered g c.hist st
  fresh : ∀ id, c.lastClientId < id → responseFrames id c.hist = []
  all : ∀ id, responseFrames id c.hist = [] ∨ ∃ body sent, Replied g c.hist id body sent
  hushed : Always Hushed c.hist

section Inv

variable {g : H2Cfg} {c c' : Zh2Conn}

theorem StreamSilent.congr {h h' : List H2Event} {st st' : Zh2Stream} (hs : StreamSilent h st)
    (heq : st.reply = st'.reply) (hf : responseFrames st.id h' = responseFrames st.id h) :
    StreamSilent h' st' := by
  have hid : st.id = st'.id := congrArg (·.id) heq
  have hresp : st.responded = st'.responded := congrArg (·.responded) heq
  have hdone : st.respHeadersDone = st'.respHeadersDone := congrArg (·.respHeadersDone) heq
  have hoff : st.bodyOff = st'.bodyOff := congrArg (·.bodyOff) heq
  refine ⟨hresp ▸ hs.responded, hdone ▸ hs.headers, hoff ▸ hs.off, ?_⟩
  rw [← hid, hf]
  exact hs.frames

theorem StreamAnswered.congr {h new : List H2Event} {st st' : Zh2Stream}
    (hs : StreamAnswered g h st) (heq : st.reply = st'.reply)
    (hf : responseFrames st.id (new ++ h) = responseFrames st.id h) :
    StreamAnswered g (new ++ h) st' := by
  have hid : st.id = st'.id := congrArg (·.id) heq
  have hbody : st.respBody = st'.respBody := congrArg (·.respBody) heq
  have hoff : st.bodyOff = st'.bodyOff := congrArg (·.bodyOff) heq
  have hend : st.respEndAfterBody = st'.respEndAfterBody := congrArg (·.respEndAfterBody) heq
  have hdone : st.sendDone = st'.sendDone := congrArg (·.sendDone) heq
  have hresp : st.responded = st'.responded := congrArg (·.responded) heq
  refine ⟨hresp ▸ hs.responded, ?_, ?_, ?_, ?_⟩
  · rw [← hoff, ← hbody]
    exact hs.off_le
  · rw [← hoff, ← hbody, ← hdone]
    exact hs.done
  · rw [← hend, ← hbody]
    exact hs.endAfter
  · rw [← hid, ← hbody, ← hoff]
    exact hs.answered.append hf

theorem hushed_plain {new h : List H2Event} (hp : ∀ e ∈ new, e.Plain) (ha : Always Hushed h) :
    Always Hushed (new ++ h) := by
  induction new with
  | nil => exact ha
  | cons e new ih =>
    rw [List.cons_append, always_cons]
    refine ⟨?_, ih fun e he => hp e (List.mem_cons_of_mem _ he)⟩
    rintro f t heq hresp
    cases heq
    have hplain : f.isResponse = false := hp _ List.mem_cons_self
    rw [hplain] at hresp
    cases hresp

theorem RespInv.quiet (h : RespInv g c) (hq : QuietStep c c') : RespInv g c' := by
  obtain ⟨new, hhist, hplain, hreset⟩ := hq.hist
  have hframes : ∀ id, responseFrames id (new ++ c.hist) = responseFrames id c.hist :=
    fun id => responseFrames_plain hplain id
  refine ⟨?_, ?_, ?_, ?_, ?_, ?_⟩
  · intro st' hst' hr
    rw [hhist] at hr
    rcases resets_append hr with hr | hr
    · exact (hreset _ hr).2 st' hst' rfl
    · rcases hq.streams st' hst' with ⟨st, hst, heq⟩ | ⟨hlt, -⟩
      · have hid : st.id = st'.id := congrArg (·.id) heq
        exact h.alive st hst (hid ▸ hr)
      · have := h.reset_le _ hr
        omega
  · intro id hr
    rw [hhist] at hr
    rcases resets_append hr with hr | hr
    · exact (hreset id hr).1
    · exact (h.reset_le id hr).trans hq.last
  · intro st' hst'
    rw [hhist]
    rcases hq.streams st' hst' with ⟨st, hst, heq⟩ | ⟨hlt, hnew⟩
    · exact (h.stream st hst).imp (fun hs => hs.congr heq (hframes _))
        fun hs => hs.congr heq (hframes _)
    · -- a new stream, on an id that nothing was sent on
      have hnone := h.fresh _ hlt
      have hempty : StreamSilent c.hist { id := st'.id, sendWindow := 0 } :=
        ⟨rfl, rfl, rfl, hnone⟩
      exact .inl (hempty.congr hnew.symm (hframes _))
  · intro id hlt
    rw [hhist, hframes]
    exact h.fresh id (Nat.lt_of_le_of_lt hq.last hlt)
  · intro id
    rw [hhist, hframes]
    exact (h.all id).imp_right fun ⟨body, sent, ha⟩ => ⟨body, sent, ha.append (hframes id)⟩
  · rw [hhist]
    exact hushed_plain hplain h.hushed

/-- A response is made on stream `id`, or a frame of one is sent. -/
def H2Event.On (id : Nat) : H2Event → Prop
  | .sent f => f.isResponse = true ∧ f.sid = id
  | .responded .. => True
  | _ => False

theorem not_resets_on {new : List H2Event} {id : Nat} (hon : ∀ e ∈ new, e.On id) (i : Nat) :
    ¬resets i new := by
  induction new with
  | nil => exact fun hr => hr
  | cons e new ih =>
    have ih := ih fun e he => hon e (List.mem_cons_of_mem _ he)
    have he := hon e List.mem_cons_self
    cases e with
    | sent f =>
      rintro (⟨hty, -⟩ | hr)
      · have hresp := he.1
        rw [Frame.isResponse, hty] at hresp
        exact absurd hresp (by decide)
      · exact ih hr
    | responded => exact ih
    | _ => exact he.elim

theorem responseFrames_on {new h : List H2Event} {id i : Nat} (hon : ∀ e ∈ new, e.On id)
    (hne : i ≠ id) : responseFrames i (new ++ h) = responseFrames i h := by
  have hnil : responseFrames i new = [] := by
    unfold responseFrames
    rw [List.filter_eq_nil_iff]
    intro f hf
    have hsid := (hon _ (mem_sentFrames.mp hf)).2
    simp [hsid, hne.symm]
  rw [responseFrames_append, hnil, List.append_nil]

theorem hushed_on {new h : List H2Event} {id : Nat} (hon : ∀ e ∈ new, e.On id)
    (hlive : ¬resets id h) (ha : Always Hushed h) : Always Hushed (new ++ h) := by
  induction new with
  | nil => exact ha
  | cons e new ih =>
    have hon' : ∀ e ∈ new, e.On id := fun e he => hon e (List.mem_cons_of_mem _ he)
    rw [List.cons_append, always_cons]
    refine ⟨?_, ih hon'⟩
    rintro f t heq -
    cases heq
    rw [(hon _ List.mem_cons_self).2]
    intro hr
    rcases resets_append hr with hr | hr
    · exact not_resets_on hon' id hr
    · exact hlive hr

/-- Response frames are sent on a stream of the table, and its fields say so. -/
theorem RespInv.send (h : RespInv g c) (ht : TableInv g c) {st : Zh2Stream} (hst : st ∈ c.streams)
    {f : Zh2Stream → Zh2Stream} (hid : ∀ s, (f s).id = s.id) (new : List H2Event)
    (hhist : c'.hist = new ++ c.hist) (hon : ∀ e ∈ new, e.On st.id)
    (hstreams : c'.streams = (updateStream c st.id f).streams)
    (hlast : c'.lastClientId = c.lastClientId) (hans : StreamAnswered g c'.hist (f st)) :
    RespInv g c' := by
  have hother : ∀ i, i ≠ st.id → responseFrames i (new ++ c.hist) = responseFrames i c.hist :=
    fun i hne => responseFrames_on hon hne
  refine ⟨?_, ?_, ?_, ?_, ?_, ?_⟩
  · -- a stream that is left has no reset in the history
    intro s' hs' hr
    rw [hstreams] at hs'
    obtain ⟨s, hs, rfl⟩ := mem_updateStream.mp hs'
    have hsame : (if s.id = st.id then f s else s).id = s.id := by
      split
      · exact hid s
      · rfl
    rw [hhist, hsame] at hr
    rcases resets_append hr with hr | hr
    · exact not_resets_on hon _ hr
    · exact h.alive s hs hr
  · -- nor does any id that was not seen yet
    intro i hr
    rw [hhist] at hr
    rw [hlast]
    rcases resets_append hr with hr | hr
    · exact absurd hr (not_resets_on hon _)
    · exact h.reset_le i hr
  · -- the stream that was written is answered now, the others as before
    intro s' hs'
    rw [hstreams] at hs'
    obtain ⟨s, hs, rfl⟩ := mem_updateStream.mp hs'
    by_cases heq : s.id = st.id
    · cases eq_of_mem_of_id ht.nodup hs hst heq
      rw [if_pos rfl]
      exact .inr hans
    · rw [if_neg heq, hhist]
      exact (h.stream s hs).imp (fun hs => hs.congr rfl (hother _ heq))
        fun hs => hs.congr rfl (hother _ heq)
  · -- ids the client has not used have no frames
    intro i hlt
    rw [hlast] at hlt
    have hle := ht.le_last st hst
    rw [hhist, hother i (by omega)]
    exact h.fresh i hlt
  · -- and every id, in the table or out of it, has a prefix of one response
    intro i
    by_cases heq : i = st.id
    · exact .inr ⟨_, _, heq ▸ hid st ▸ hans.answered⟩
    · rw [hhist, hother i heq]
      exact (h.all i).imp_right fun ⟨body, sent, ha⟩ => ⟨body, sent, ha.append (hother i heq)⟩
  · -- behind a reset nothing was written
    rw [hhist]
    exact hushed_on hon (h.alive st hst) h.hushed

/-- A response is made. -/
theorem RespInv.respond (h : RespInv g c) (ht : TableInv g c) {id : Nat} {st : Zh2Stream}
    {isHead : Bool} {status : Nat} {hdrs : List (Bytes × Bytes)} {body : RespBody}
    (hst : findStream c id = some st) (hresp : st.responded = false)
    (hreply : IsReply g c.hist id isHead status hdrs body) :
    RespInv g (zh2Respond id isHead c status hdrs body) := by
  obtain ⟨hmem, rfl⟩ := findStream_some hst
  -- a stream without a response has written no frame and no octet of a body
  have hsilent : StreamSilent c.hist st := by
    rcases h.stream st hmem with hs | hs
    · exact hs
    · have := hs.responded
      rw [hresp] at this
      cases this
  rw [zh2Respond_eq hst hresp]
  refine h.send ht hmem (f := .answered (sentBody isHead status body)) (fun _ => rfl)
    (((respFrames c st.id isHead status hdrs body).map H2Event.sent).reverse ++
      [.responded st.id isHead status hdrs body]) ?_ ?_ ?_ ?_ ?_
  · simp [foldl_h2Frame_hist]
  · -- what goes out is of this stream, and is no reset
    intro e he
    rcases List.mem_append.mp he with he | he
    · obtain ⟨f, hf, rfl⟩ := List.mem_map.mp (List.mem_reverse.mp he)
      obtain ⟨hty, hsid⟩ := respFrames_type hf
      refine ⟨?_, hsid⟩
      rcases hty with hty | hty
      · simp [Frame.isResponse, hty]
      · simp [Frame.isResponse, hty]
    · cases List.mem_singleton.mp he
      trivial
  · simp [updateStream]
  · simp
  · -- of the body nothing is sent yet, so that the whole of it is left
    have hans := Replied.respond (g := g) c hreply hsilent.frames
    refine ⟨rfl, ?_, ?_, rfl, ?_⟩
    · show st.bodyOff ≤ _
      rw [hsilent.off]
      exact Nat.zero_le _
    · show (sentBody isHead status body).isEmpty = true ↔
        st.bodyOff = (sentBody isHead status body).length
      rw [hsilent.off, List.isEmpty_iff, eq_comm (a := 0), List.length_eq_zero_iff]
    · show Replied g _ st.id (sentBody isHead status body)
        ((sentBody isHead status body).take st.bodyOff)
      rw [hsilent.off, List.take_zero]
      simpa [foldl_h2Frame_hist] using hans

/-- A DATA frame is sent. -/
theorem RespInv.pump (h : RespInv g c) (ht : TableInv g c) {st : Zh2Stream} {chunk : Nat}
    (hst : st ∈ c.streams) (hhead : st.respHeadersDone = true) (hne : chunk ≠ 0)
    (hle : chunk ≤ st.respBody.length - st.bodyOff) : RespInv g (pumpData c st chunk) := by
  -- only a stream with its head written has a body to send
  have hans : StreamAnswered g c.hist st := by
    rcases h.stream st hst with hs | hs
    · have := hs.headers
      rw [hhead] at this
      cases this
    · exact hs
  have hlt : st.bodyOff < st.respBody.length := by omega
  -- the DATA frame carries the octets counted
  have hlen : (dataFrame st chunk).payload.length = chunk := by
    simp only [dataFrame, List.length_take, List.length_drop]
    omega
  -- the body up to the old offset, then the payload, is the body up to the new one
  have happ : st.respBody.take st.bodyOff ++ (dataFrame st chunk).payload =
      st.respBody.take (st.bodyOff + chunk) := List.take_add.symm
  have hwhole : ∀ n, n ≤ st.respBody.length →
      (st.respBody.take n = st.respBody ↔ n = st.respBody.length) := by
    intro n hn
    rw [List.take_eq_self_iff]
    omega
  have hsent : Replied g (.sent (dataFrame st chunk) :: c.hist) st.id st.respBody
      (st.respBody.take st.bodyOff ++ (dataFrame st chunk).payload) := by
    refine hans.answered.data rfl rfl ?_ ?_ ?_ ?_
    · exact List.ne_nil_of_length_pos (by omega)
    · rw [ne_eq, hwhole _ hlt.le]
      exact hlt.ne
    · rw [happ]
      exact ⟨_, List.take_append_drop _ _⟩
    · have hflag : ∀ p : Prop, [Decidable p] →
          (hasFlag (if p then ZH2_FL_END_STREAM else 0) ZH2_FL_END_STREAM = true ↔ p) := by
        intro p _
        by_cases hp : p
        · simp only [hp, if_true]
          decide
        · simp only [hp, if_false]
          decide
      -- END_STREAM is asked for at the head, which was kept open for this body
      have hend : st.respEndAfterBody = true := by
        rw [hans.endAfter]
        cases hb : st.respBody with
        | nil =>
          rw [hb] at hlt
          exact absurd hlt (Nat.not_lt_zero _)
        | cons b bs => rfl
      rw [happ, hwhole _ (by omega)]
      refine (hflag _).trans ?_
      rw [hend]
      exact and_iff_left rfl
  rw [pumpData_eq]
  refine h.send ht hst (f := .sentData (st.bodyOff + chunk = st.respBody.length) chunk)
    (fun _ => rfl) [.sent (dataFrame st chunk)] rfl ?_ rfl rfl ?_
  · -- one frame of this stream goes out
    intro e he
    cases List.mem_singleton.mp he
    exact ⟨rfl, rfl⟩
  · -- the offset has moved by the payload, and reaches the end on the last one
    refine ⟨hans.responded, ?_, ?_, hans.endAfter, ?_⟩
    · show st.bodyOff + chunk ≤ st.respBody.length
      omega
    · show (if st.bodyOff + chunk = st.respBody.length then true else st.sendDone) = true ↔
        st.bodyOff + chunk = st.respBody.length
      split
      · rename_i hlast
        exact iff_of_true rfl hlast
      · rename_i hlast
        rw [hans.done]
        exact iff_of_false hlt.ne hlast
    · rw [happ] at hsent
      exact hsent

theorem RespInv.step (h : RespInv g c) (ht : TableInv g c) (hs : RespStep g c c') :
    RespInv g c' := by
  cases hs with
  | quiet hq => exact h.quiet hq
  | respond hst hresp hreply => exact h.respond ht hst hresp hreply
  | pump hst hdone hne hle => exact h.pump ht hst hdone hne hle

end Inv

/-! ### Whole runs

The invariant holds along a run; the response read off the wire is then decoded by any
decoder that has read the blocks in front of it. -/

section Runs

variable {g : H2Cfg} {c : Zh2Conn}

theorem Run.resp (h : Run g c) : RespInv g c := by
  refine h.induct (P := fun c => RespInv g c) ?_ ?_
  · refine ⟨?_, ?_, ?_, fun _ _ => rfl, fun _ => .inl rfl, ?_⟩
    · exact fun st hst => absurd hst List.not_mem_nil
    · rintro id (⟨hty, -⟩ | hr)
      · exact absurd hty (show ZH2_FT_SETTINGS ≠ ZH2_FT_RST_STREAM by decide)
      · exact hr.elim
    · exact fun st hst => absurd hst List.not_mem_nil
    · show Always Hushed
        ([.sent { type := ZH2_FT_SETTINGS, sid := 0, payload := ourSettings g }] ++ [])
      refine hushed_plain ?_ ?_
      · intro e he
        cases List.mem_singleton.mp he
        rfl
      · intro h' hs
        cases List.suffix_nil.mp hs
        exact nofun
  · intro c c' hrun ih hs
    obtain ⟨ht, hh⟩ := hrun.table
    exact ih.step ht (hs.resp ht hh)

/-- The fields of a response: `:status`, then the headers with their names in lower case. -/
def responseFields (status : Nat) (hdrs : List (Bytes × Bytes)) : List Field :=
  ⟨str ":status", decimal status⟩ :: hdrs.map fun h => ⟨lower h.1, h.2⟩

theorem fieldBlock_eq (status : Nat) (hdrs : List (Bytes × Bytes)) :
    fieldBlock status hdrs = encodeFields (responseFields status hdrs) := by
  unfold fieldBlock encodeFields responseFields
  rw [List.map_cons, List.flatten_cons, ← zhpEncodeStatus_eq, List.map_map]
  rfl

/-- The field block of a reply decodes to its fields. -/
theorem IsReply.decode (hsize : g.srv.Bounded (2 ^ 24)) {h : List H2Event} {id : Nat}
    {isHead : Bool} {status : Nat} {hdrs : List (Bytes × Bytes)} {body : RespBody}
    (hr : IsReply g h id isHead status hdrs body) {d : ZhpDec} (hd : d.Reachable) {m : Nat}
    (hm : fieldsSize (responseFields status hdrs) ≤ m) :
    (zhpDecode d (fieldBlock status hdrs) m collect []).rc = .ok ∧
    (zhpDecode d (fieldBlock status hdrs) m collect []).u = responseFields status hdrs := by
  obtain ⟨req, t, -, -, hstatus, hhdrs, -⟩ := hr
  have hwithin : HeadersWithin (2 ^ 24) hdrs := by
    rw [hhdrs]
    exact hsize.finalHeaders (by decide) _ _ _ _
  have hdigits : (decimal status).length ≤ 3 := by
    refine length_decimal_le (by decide) ?_
    have hvalid := g.srv.answer_valid (requestsOf t) req
    simp only [RespondCall.valid, Bool.and_eq_true, decide_eq_true_eq] at hvalid
    omega
  have hlower : lower (str ":status") = str ":status" := by decide +kernel
  have hcolon : (str ":status").length ≤ ZHP_INT_MAX := by decide
  have hlow : ∀ f ∈ responseFields status hdrs, lower f.name = f.name := by
    intro f hf
    rcases List.mem_cons.mp hf with rfl | hf
    · exact hlower
    · obtain ⟨p, -, rfl⟩ := List.mem_map.mp hf
      exact lower_lower p.1
  have hint : ∀ f ∈ responseFields status hdrs,
      f.name.length ≤ ZHP_INT_MAX ∧ f.value.length ≤ ZHP_INT_MAX := by
    intro f hf
    rcases List.mem_cons.mp hf with rfl | hf
    · exact ⟨hcolon, hdigits.trans (by decide)⟩
    · obtain ⟨p, hp, rfl⟩ := List.mem_map.mp hf
      have hlen := hwithin p hp
      exact ⟨(length_lower p.1).le.trans hlen.1, hlen.2⟩
  rw [fieldBlock_eq]
  obtain ⟨hrc, hu, -⟩ := zhpDecode_encode hd.inv hlow hint hm
  exact ⟨hrc, hu⟩

/-- **Response integrity.** -/
theorem zh2_response (hsize : g.srv.Bounded (2 ^ 24)) (h : Reachable g c) :
    (∀ id, responseFrames id c.hist = [] ∨
      ∃ (r : RespFrames) (t : List H2Event) (isHead : Bool) (status : Nat)
        (hdrs : List (Bytes × Bytes)) (body : RespBody),
        .responded id isHead status hdrs body :: t <:+ c.hist ∧
        IsReply g t id isHead status hdrs body ∧
        responseFrames id c.hist = r.frames ∧ r.head :: r.conts <:+: sentFrames c.hist ∧
        r.Ok (fieldBlock status hdrs) (sentBody isHead status body) ∧
        (∀ st ∈ c.streams, st.id = id →
          (st.sendDone = true ↔ payloads r.datas = sentBody isHead status body)) ∧
        ∀ d : ZhpDec, d.Reachable → ∀ m, fieldsSize (responseFields status hdrs) ≤ m →
          (zhpDecode d (fieldBlock status hdrs) m collect []).rc = .ok ∧
          (zhpDecode d (fieldBlock status hdrs) m collect []).u = responseFields status hdrs) ∧
    Always (fun h => ∀ f t, h = .sent f :: t → f.isResponse = true → ¬resets f.sid t) c.hist := by
  have hinv := h.run.resp
  refine ⟨fun id => ?_, hinv.hushed⟩
  by_cases hst : ∃ st ∈ c.streams, st.id = id
  · obtain ⟨st, hst, rfl⟩ := hst
    rcases hinv.stream st hst with hs | hs
    · exact .inl hs.frames
    · obtain ⟨r, t, isHead, status, hdrs, b, hsuf, hreply, hbody, hframes, hinfix, hok, hsent⟩ :=
        hs.answered
      rw [hbody] at hok
      refine .inr ⟨r, t, isHead, status, hdrs, b, hsuf, hreply, hframes, hinfix, hok, ?_,
        fun d hd m hm => hreply.decode hsize hd hm⟩
      intro st' hst' hid
      cases eq_of_mem_of_id h.run.table.1.nodup hst' hst hid
      have hle := hs.off_le
      rw [hs.done, hsent, ← hbody, List.take_eq_self_iff]
      omega
  · rcases hinv.all id with hnil | ⟨body, sent, hans⟩
    · exact .inl hnil
    · obtain ⟨r, t, isHead, status, hdrs, b, hsuf, hreply, hbody, hframes, hinfix, hok, -⟩ := hans
      rw [hbody] at hok
      exact .inr ⟨r, t, isHead, status, hdrs, b, hsuf, hreply, hframes, hinfix, hok,
        fun st hmem hid => absurd ⟨st, hmem, hid⟩ hst, fun d hd m hm => hreply.decode hsize hd hm⟩

theorem zh2_response_getRequest :
    (responseFrames 1 (zh2Pump .silent (silentFeed [getRequest])).hist).map (·.type) =
      [ZH2_FT_HEADERS, ZH2_FT_DATA] ∧
    ∃ r : RespFrames,
      responseFrames 1 (zh2Pump .silent (silentFeed [getRequest])).hist = r.frames ∧
      r.head.type = ZH2_FT_HEADERS := by
  have hrun : (responseFrames 1 (zh2Pump .silent (silentFeed [getRequest])).hist).map (·.type) =
      [ZH2_FT_HEADERS, ZH2_FT_DATA] := by decide +kernel
  refine ⟨hrun, ?_⟩
  have hresp := (zh2_response (g := .silent) (fun _ _ _ hcall => absurd hcall List.not_mem_nil)
    (reachable_silentFeed [getRequest]).pump).1 1
  rcases hresp with hnil | ⟨r, t, isHead, status, hdrs, body, -, -, hframes, -, hok, -⟩
  · rw [hnil] at hrun
    cases hrun
  · exact ⟨r, hframes, hok.head⟩

/-- A GET on stream 1, a header block on stream 3 that is not complete, and inside it a
RST_STREAM on stream 1. -/
def resetInBlock : List Frame :=
  [getRequest, { type := ZH2_FT_HEADERS, sid := 3, payload := [0x82] }, rstFrame 1 0]

/-- The RST_STREAM raises a PROTOCOL_ERROR, and the pump still sends the body on the
stream it named. -/
theorem zh2_response_resetInBlock :
    ¬∀ c, Reachable .silent c → Always (fun h => ∀ f t, h = .sent f :: t → f.isResponse = true →
      ∀ r : Frame, .recv r ∈ t ∨ .sent r ∈ t → r.type = ZH2_FT_RST_STREAM → r.sid ≠ f.sid)
      c.hist := by
  intro hall
  generalize hc : zh2Pump .silent (silentFeed resetInBlock) = c
  have hreach : Reachable .silent c := hc ▸ (reachable_silentFeed resetInBlock).pump
  have hhead : c.hist.head? = some (.sent
      { type := ZH2_FT_DATA, flags := ZH2_FL_END_STREAM, sid := 1
        payload := str "Internal Server Error" }) := by
    rw [← hc]
    decide +kernel
  have hmem : H2Event.recv (rstFrame 1 0) ∈ c.hist.tail := by
    rw [← hc]
    decide +kernel
  have heq := List.cons_head?_tail hhead
  exact hall c hreach c.hist List.suffix_rfl _ _ heq.symm rfl _ (.inl hmem) rfl rfl

end Runs

end Zcio
