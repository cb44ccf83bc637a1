import Zcio.H2.StreamTable

/-!
# Zcio.H2.RecvFlow

**Receive-window conservation.** Until a connection error is raised, the window the
connection keeps for itself and the one it keeps for each stream that the client has not
half-closed are what the wire says they are: 65535, plus the WINDOW_UPDATE increments
emitted, minus the DATA payloads received, padding included.
-/

namespace Zcio

/-! ### What the wire says

The DATA that came in and the credit that went out, read off the history. -/

/-- DATA payload octets received on the streams that `on` picks. -/
def dataIn (on : Nat → Bool) : H2Event → Nat
  | .recv f => if f.type = ZH2_FT_DATA ∧ on f.sid then f.payload.length else 0
  | _ => 0

/-- The WINDOW_UPDATE increment emitted for `id`. -/
def credit (id : Nat) : H2Event → Nat
  | .sent f => if f.type = ZH2_FT_WINDOW_UPDATE ∧ f.sid = id then f.incr else 0
  | _ => 0

/-- The DATA payload octets received on all streams. -/
def dataRecvd (h : List H2Event) : Nat := tally (dataIn fun _ => true) h

/-- The DATA payload octets received on stream `id`. -/
def dataRecvdOn (id : Nat) (h : List H2Event) : Nat := tally (dataIn (· == id)) h

/-- The WINDOW_UPDATE increments emitted for `id`; 0 is the connection. -/
def credited (id : Nat) (h : List H2Event) : Nat := tally (credit id) h

section Weights

variable {id : Nat} {on : Nat → Bool} {f : Frame}

@[simp] theorem dataIn_sent : dataIn on (.sent f) = 0 := rfl
@[simp] theorem dataIn_error {code : Nat} : dataIn on (.error code) = 0 := rfl
@[simp] theorem dataIn_block {t : Bool} {b : Bytes} : dataIn on (.block t b) = 0 := rfl
@[simp] theorem dataIn_dispatched {i : Nat} {req : HttpReq} :
    dataIn on (.dispatched i req) = 0 := rfl
@[simp] theorem dataIn_responded {i status : Nat} {isHead : Bool} {hdrs : List (Bytes × Bytes)}
    {body : RespBody} : dataIn on (.responded i isHead status hdrs body) = 0 := rfl
@[simp] theorem credit_recv : credit id (.recv f) = 0 := rfl
@[simp] theorem credit_error {code : Nat} : credit id (.error code) = 0 := rfl
@[simp] theorem credit_block {t : Bool} {b : Bytes} : credit id (.block t b) = 0 := rfl
@[simp] theorem credit_dispatched {i : Nat} {req : HttpReq} :
    credit id (.dispatched i req) = 0 := rfl
@[simp] theorem credit_responded {i status : Nat} {isHead : Bool} {hdrs : List (Bytes × Bytes)}
    {body : RespBody} : credit id (.responded i isHead status hdrs body) = 0 := rfl

theorem dataIn_recv_of_ne (h : f.type ≠ ZH2_FT_DATA) : dataIn on (.recv f) = 0 := by
  simp [dataIn, h]

theorem dataIn_recv_of_eq (h : f.type = ZH2_FT_DATA) :
    dataIn on (.recv f) = if on f.sid then f.payload.length else 0 := by
  simp [dataIn, h]

theorem credit_sent_of_ne (h : f.type ≠ ZH2_FT_WINDOW_UPDATE) :
    credit id (.sent f) = 0 := by
  simp [credit, h]

@[simp] theorem credit_rstFrame {i code : Nat} : credit id (.sent (rstFrame i code)) = 0 :=
  credit_sent_of_ne (show ZH2_FT_RST_STREAM ≠ ZH2_FT_WINDOW_UPDATE by decide)

@[simp] theorem credit_goawayFrame {last code : Nat} :
    credit id (.sent (goawayFrame last code)) = 0 :=
  credit_sent_of_ne (show ZH2_FT_GOAWAY ≠ ZH2_FT_WINDOW_UPDATE by decide)

/-- A frame reads back what `wr32` wrote. -/
theorem credit_windowFrame {i incr : Nat} (h : incr < 2 ^ 31) :
    credit id (.sent (windowFrame i incr)) = if i = id then incr else 0 := by
  have hincr : (windowFrame i incr).incr = incr := by
    rw [Frame.incr, windowFrame, rd_wr32 (by omega), Nat.mod_eq_of_lt h]
  simp only [credit, hincr]
  simp [windowFrame]

/-- An update of zero is not sent. -/
theorem tally_credit_window {i incr : Nat} (h : incr < 2 ^ 31) :
    tally (credit id) (if incr = 0 then [] else [.sent (windowFrame i incr)]) =
      if i = id then incr else 0 := by
  split
  · rename_i hzero
    simp [hzero]
  · simp [credit_windowFrame h]

theorem tally_dataIn_ite {p : Prop} [Decidable p] {f : Frame} :
    tally (dataIn on) (if p then [] else [.sent f]) = 0 := by
  split
  · rfl
  · rfl

theorem tally_credit_goaway {p : Prop} [Decidable p] {last code : Nat} :
    tally (credit id) (if p then [] else [.sent (goawayFrame last code)]) = 0 := by
  split
  · rfl
  · simp

/-- The headers of a response are none of the receive side's business. -/
theorem tally_credit_respFrames {c : Zh2Conn} {i status : Nat} {isHead : Bool}
    {hdrs : List (Bytes × Bytes)} {body : RespBody} :
    tally (credit id) ((respFrames c i isHead status hdrs body).map H2Event.sent).reverse = 0 := by
  refine tally_eq_zero fun e he => ?_
  obtain ⟨f, hf, rfl⟩ := List.mem_map.mp (List.mem_reverse.mp he)
  refine credit_sent_of_ne ?_
  rcases (respFrames_type hf).1 with ht | ht
  · rw [ht]; decide
  · rw [ht]; decide

theorem tally_dataIn_respFrames {c : Zh2Conn} {i status : Nat} {isHead : Bool}
    {hdrs : List (Bytes × Bytes)} {body : RespBody} :
    tally (dataIn on) ((respFrames c i isHead status hdrs body).map H2Event.sent).reverse = 0 := by
  refine tally_eq_zero fun e he => ?_
  obtain ⟨f, -, rfl⟩ := List.mem_map.mp (List.mem_reverse.mp he)
  rfl

end Weights

/-! ### The window

A window is what was granted minus what came in, and is topped up to its first size. -/

/-- A window behind `len` octets: it moves by what was received and what is credited, and
is within a frame of full again. -/
theorem topUp_spec {w : Int} {len : Nat} (hlen : (len : Int) ≤ w) (hmax : w ≤ 65535) :
    (topUp w len).1 = w - len + (topUp w len).2 ∧ 49152 ≤ (topUp w len).1 ∧
    (topUp w len).1 ≤ 65535 ∧ (topUp w len).2 < 2 ^ 31 := by
  have hframe : (ZH2_OUR_MAX_FRAME : Int) = 16384 := rfl
  unfold topUp
  dsimp only
  split
  · refine ⟨?_, ?_, ?_, ?_⟩
    all_goals dsimp only
    all_goals omega
  · refine ⟨?_, ?_, ?_, ?_⟩
    all_goals dsimp only
    all_goals omega

/-! ### The invariant

The two equations, on the connection and on every stream that is open. -/

/-- A window is what the wire says it is, and at most a frame away from full. -/
def Conserved (w : Int) (credit data : Nat) : Prop :=
  w = 65535 + credit - data ∧ 49152 ≤ w ∧ w ≤ 65535

/-- A window behind `len` octets received. -/
theorem Conserved.topUp {w : Int} {credit data len : Nat} (h : Conserved w credit data)
    (hlen : (len : Int) ≤ w) :
    Conserved (Zcio.topUp w len).1 (credit + (Zcio.topUp w len).2) (data + len) := by
  obtain ⟨hw, -, hmax⟩ := h
  obtain ⟨heq, hlo, hhi, -⟩ := topUp_spec hlen hmax
  refine ⟨?_, hlo, hhi⟩
  rw [heq, hw]
  push_cast
  omega

/-- The receive windows of a connection that raised no error. -/
structure RecvOk (c : Zh2Conn) : Prop where
  conn : Conserved c.recvWindow (credited 0 c.hist) (dataRecvd c.hist)
  stream : ∀ st ∈ c.streams, st.endStreamRecv = false →
    Conserved st.recvWindow (credited st.id c.hist) (dataRecvdOn st.id c.hist)
  fresh : ∀ id, c.lastClientId < id → credited id c.hist = 0 ∧ dataRecvdOn id c.hist = 0

section Step

variable {g : H2Cfg} {c c' : Zh2Conn}

/-- A step that receives no DATA and credits nothing; streams may be dropped or
half-closed. -/
theorem RecvOk.quiet (h : RecvOk c) (hwin : c'.recvWindow = c.recvWindow)
    (hlast : c.lastClientId ≤ c'.lastClientId)
    (hcredit : ∀ id, tally (credit id) c'.hist = tally (credit id) c.hist)
    (hdata : ∀ on, tally (dataIn on) c'.hist = tally (dataIn on) c.hist)
    (hst : ∀ st' ∈ c'.streams, st'.endStreamRecv = false → ∃ st ∈ c.streams,
      st.id = st'.id ∧ st.endStreamRecv = false ∧ st.recvWindow = st'.recvWindow) :
    RecvOk c' := by
  have hcr : ∀ id, credited id c'.hist = credited id c.hist := hcredit
  have hon : ∀ id, dataRecvdOn id c'.hist = dataRecvdOn id c.hist := fun id => hdata _
  have hall : dataRecvd c'.hist = dataRecvd c.hist := hdata _
  refine ⟨?_, ?_, ?_⟩
  · rw [hwin, hcr, hall]
    exact h.conn
  · intro st' hmem hopen
    obtain ⟨st, hst, hid, hend, hw⟩ := hst st' hmem hopen
    rw [hcr, hon, ← hw, ← hid]
    exact h.stream st hst hend
  · intro id hid
    rw [hcr, hon]
    exact h.fresh id (Nat.lt_of_le_of_lt hlast hid)

theorem tally_credit_recvConsumeConn {id len : Nat} (hlen : (len : Int) ≤ c.recvWindow)
    (hmax : c.recvWindow ≤ 65535) :
    tally (credit id) (recvConsumeConn c len).hist =
      (if 0 = id then (topUp c.recvWindow len).2 else 0) + tally (credit id) c.hist := by
  rw [(recvConsumeConn_frame c len).1, tally_append,
    tally_credit_window (topUp_spec hlen hmax).2.2.2]

theorem tally_dataIn_recvConsumeConn {on : Nat → Bool} {len : Nat} :
    tally (dataIn on) (recvConsumeConn c len).hist = tally (dataIn on) c.hist := by
  rw [(recvConsumeConn_frame c len).1, tally_append, tally_dataIn_ite, Nat.zero_add]

/-- A connection whose streams are those of `c`. -/
theorem same_streams (ht : c'.streams = c.streams) :
    ∀ st' ∈ c'.streams, st'.endStreamRecv = false → ∃ st ∈ c.streams,
      st.id = st'.id ∧ st.endStreamRecv = false ∧ st.recvWindow = st'.recvWindow := by
  intro st hst hopen
  exact ⟨st, ht ▸ hst, rfl, hopen, rfl⟩

/-- A connection whose streams are those of `c` with fields written that the receive side
does not read. -/
theorem map_streams {f : Zh2Stream → Zh2Stream} (ht : c'.streams = c.streams.map f)
    (hf : ∀ st ∈ c.streams, (f st).id = st.id ∧ (f st).recvWindow = st.recvWindow ∧
      ((f st).endStreamRecv = false → st.endStreamRecv = false)) :
    ∀ st' ∈ c'.streams, st'.endStreamRecv = false → ∃ st ∈ c.streams,
      st.id = st'.id ∧ st.endStreamRecv = false ∧ st.recvWindow = st'.recvWindow := by
  intro st' hst' hopen
  rw [ht] at hst'
  obtain ⟨st, hst, rfl⟩ := List.mem_map.mp hst'
  obtain ⟨hid, hwin, hend⟩ := hf st hst
  exact ⟨st, hst, hid.symm, hend hopen, hwin.symm⟩

theorem update_streams {i : Nat} {f : Zh2Stream → Zh2Stream}
    (ht : c'.streams = (updateStream c i f).streams)
    (hf : ∀ st ∈ c.streams, st.id = i → (f st).id = st.id ∧ (f st).recvWindow = st.recvWindow ∧
      ((f st).endStreamRecv = false → st.endStreamRecv = false)) :
    ∀ st' ∈ c'.streams, st'.endStreamRecv = false → ∃ st ∈ c.streams,
      st.id = st'.id ∧ st.endStreamRecv = false ∧ st.recvWindow = st'.recvWindow := by
  refine map_streams ht fun st hst => ?_
  split
  · exact hf st hst ‹_›
  · exact ⟨rfl, rfl, fun h => h⟩

/-- A request is complete: its stream is half-closed. -/
theorem finish_streams {i : Nat} {f : Zh2Stream → Zh2Stream}
    (hend : ∀ st, (f st).endStreamRecv = true) :
    ∀ st' ∈ (h2Mark g (updateStream c i f) i).streams, st'.endStreamRecv = false →
      ∃ st ∈ c.streams, st.id = st'.id ∧ st.endStreamRecv = false ∧
        st.recvWindow = st'.recvWindow := by
  intro st hst hopen
  exact ⟨st, (mem_finish hend hst hopen).1, rfl, hopen, rfl⟩

theorem close_streams (id : Nat) (hnd : c.ids.Nodup)
    (ht : c'.streams = (closeById c id).streams) :
    ∀ st' ∈ c'.streams, st'.endStreamRecv = false → ∃ st ∈ c.streams,
      st.id = st'.id ∧ st.endStreamRecv = false ∧ st.recvWindow = st'.recvWindow := by
  intro st hst hopen
  rw [ht] at hst
  exact ⟨st, ((mem_closeById hnd).mp hst).1, rfl, hopen, rfl⟩

/-- A request is complete. -/
theorem RecvOk.finish (h : RecvOk c) {i : Nat} {f : Zh2Stream → Zh2Stream}
    (hend : ∀ st, (f st).endStreamRecv = true) :
    RecvOk (h2Mark g (updateStream c i f) i) := by
  refine h.quiet (by simp) (by simp) (fun _ => ?_) (fun _ => ?_) (finish_streams hend)
  · rw [tally_h2Mark fun _ _ => rfl]
    simp
  · rw [tally_h2Mark fun _ _ => rfl]
    simp

/-- A frame other than DATA is received. -/
theorem RecvOk.recv (h : RecvOk c) {f : Frame} (hne : f.type ≠ ZH2_FT_DATA) :
    RecvOk (c.log (.recv f)) := by
  refine h.quiet rfl (Nat.le_refl _) (fun _ => ?_) (fun _ => ?_) (same_streams rfl)
  · simp
  · simp [dataIn_recv_of_ne hne]

/-- DATA is received and the connection credited for it; what happens to its stream is
`hst`. -/
theorem RecvOk.data (h : RecvOk c) {f : Frame} (hlast : f.sid ≤ c.lastClientId) (hlen : (f.payload.length : Int) ≤ c.recvWindow)
    {δ : Nat} (hwin : c'.recvWindow = (topUp c.recvWindow f.payload.length).1)
    (hlast' : c'.lastClientId = c.lastClientId)
    (hcredit : ∀ id, credited id c'.hist = credited id c.hist +
      (if id = 0 then (topUp c.recvWindow f.payload.length).2 else if id = f.sid then δ else 0))
    (hdata : ∀ on, tally (dataIn on) c'.hist =
      tally (dataIn on) c.hist + if on f.sid then f.payload.length else 0)
    (hpos : ∀ st ∈ c.streams, st.id ≠ 0)
    (hst : ∀ st' ∈ c'.streams, st'.endStreamRecv = false → ∃ st ∈ c.streams,
      st.id = st'.id ∧ st.endStreamRecv = false ∧
      if st.id = f.sid then (f.payload.length : Int) ≤ st.recvWindow ∧
        st'.recvWindow = (topUp st.recvWindow f.payload.length).1 ∧
        δ = (topUp st.recvWindow f.payload.length).2
      else st'.recvWindow = st.recvWindow) :
    RecvOk c' := by
  have hon : ∀ id, dataRecvdOn id c'.hist =
      dataRecvdOn id c.hist + if f.sid = id then f.payload.length else 0 := by
    intro id
    have := hdata (· == id)
    simpa [dataRecvdOn] using this
  -- on the connection every DATA frame counts, also for a stream that is gone
  refine ⟨?_, ?_, ?_⟩
  · have hall : dataRecvd c'.hist = dataRecvd c.hist + f.payload.length := by
      have := hdata fun _ => true
      simpa [dataRecvd] using this
    rw [hwin, hcredit, hall, if_pos rfl]
    exact h.conn.topUp hlen
  · -- on a stream, only a frame of its own id, with the credit it was given
    intro st' hmem hopen
    obtain ⟨st, hmem, hsid, hend, hcase⟩ := hst st' hmem hopen
    have hold := h.stream st hmem hend
    rw [← hsid, hcredit, hon, if_neg (hpos st hmem)]
    by_cases heq : st.id = f.sid
    · rw [if_pos heq] at hcase ⊢
      rw [if_pos heq.symm, hcase.2.1, hcase.2.2]
      exact hold.topUp hcase.1
    · rw [if_neg heq] at hcase ⊢
      rw [if_neg (Ne.symm heq), hcase]
      exact hold
  · -- ids above the last one have neither data nor credit
    intro id hlt
    rw [hlast'] at hlt
    obtain ⟨h1, h2⟩ := h.fresh id hlt
    rw [hcredit, hon, h1, h2, if_neg (by omega), if_neg (by omega), if_neg (by omega)]
    exact ⟨rfl, rfl⟩

theorem RecvOk.step (h : RecvOk c) (ht : TableInv g c) (hh : HdrInv g c) (hs : Step g c c')
    (he : c'.gotError = false) : RecvOk c' := by
  -- stream 0 stands for the connection, and no stream has that id
  have hpos : ∀ st ∈ c.streams, st.id ≠ 0 := by
    intro st hst h0
    have := ht.odd st hst
    omega
  have hdone : RecvOk (blockDone g c) :=
    h.quiet rfl (Nat.le_refl _) (by simp) (by simp) (same_streams rfl)
  -- the steps that end in an error are excluded
  cases hs with
  | error => simp at he
  | reject => simp at he
  | settingsFail => simp at he
  | windowConnError => simp at he
  | peerResetFlood => simp at he
  | dataIdle => simp at he
  | continuationFlood => simp at he
  | blockError => simp at he
  -- steps that bring no DATA and give no credit
  | setup => exact h.quiet rfl (Nat.le_refl _) (fun _ => rfl) (fun _ => rfl) (same_streams rfl)
  | ignore hb hin => exact h.recv hin.notData
  | goaway hb hty =>
    exact (h.recv (by rw [hty]; decide)).quiet rfl (Nat.le_refl _) (fun _ => rfl) (fun _ => rfl)
      (same_streams rfl)
  | ping hb hty =>
    refine (h.recv (by rw [hty]; decide)).quiet rfl (Nat.le_refl _) (fun _ => ?_) (fun _ => ?_)
      (same_streams rfl)
    · simp [credit, ZH2_FT_PING, ZH2_FT_WINDOW_UPDATE]
    · simp
  | settings hb hty =>
    refine (h.recv (by rw [hty]; decide)).quiet rfl (Nat.le_refl _) (fun _ => ?_) (fun _ => ?_)
      (map_streams rfl fun st _ => ⟨rfl, rfl, id⟩)
    · simp [credit, ZH2_FT_SETTINGS, ZH2_FT_WINDOW_UPDATE]
    · simp
  | windowConn hb hty =>
    exact (h.recv (by rw [hty]; decide)).quiet rfl (Nat.le_refl _) (fun _ => rfl) (fun _ => rfl)
      (same_streams rfl)
  | windowStream hb hty =>
    exact (h.recv (by rw [hty]; decide)).quiet rfl (Nat.le_refl _) (fun _ => rfl) (fun _ => rfl)
      (update_streams rfl fun st _ _ => ⟨rfl, rfl, id⟩)
  | @windowReset f st code hb hty =>
    have hupd : RecvOk (updateStream (c.log (.recv f)) f.sid (.shift f.incr)) :=
      (h.recv (by rw [hty]; decide)).quiet rfl (Nat.le_refl _) (fun _ => rfl) (fun _ => rfl)
        (update_streams rfl fun st _ _ => ⟨rfl, rfl, id⟩)
    have hids : (updateStream (c.log (.recv f)) f.sid (.shift f.incr)).ids = c.ids :=
      ids_updateStream fun _ => rfl
    exact hupd.quiet (by simp) (by simp) (by simp) (by simp)
      (close_streams f.sid (hids ▸ ht.nodup) (by simp))
  | @peerReset f st n hb hty =>
    refine (h.recv (by rw [hty]; decide)).quiet (by simp) (by simp) (by simp) (by simp)
      (close_streams f.sid ht.nodup ?_)
    exact closeById_streams (a := c.log (.recv f))
      (b := { c.log (.recv f) with rapidReset := n }) rfl f.sid
  -- DATA for a stream that is gone: the connection alone is credited
  | @dataClosed f hb hty hsid hst hle hlen =>
    refine h.data (δ := 0) hle hlen (by simp) (by simp) (fun id => ?_) (fun on => ?_) hpos ?_
    · rw [credited, tally_credit_recvConsumeConn (c := c.log (.recv f)) hlen h.conn.2.2]
      simp [credited, Nat.add_comm, eq_comm]
    · rw [tally_dataIn_recvConsumeConn]
      simp [dataIn_recv_of_eq hty, Nat.add_comm]
    · intro st hmem hopen
      have hmem : st ∈ c.streams := by simpa using hmem
      refine ⟨st, hmem, rfl, hopen, ?_⟩
      rw [if_neg (findStream_none hst st hmem)]
  -- DATA that resets its stream: the stream leaves the table
  | @dataReset f st code hb hty hsid hst hlen =>
    obtain ⟨hstmem, hstid⟩ := findStream_some hst
    refine h.data (δ := 0) (hstid ▸ ht.le_last st hstmem) hlen (by simp) (by simp) (fun id => ?_)
      (fun on => ?_) hpos ?_
    · rw [credited, tally_credit_recvConsumeConn (by simpa using hlen) (by simpa using h.conn.2.2)]
      simp [credited, Nat.add_comm, eq_comm]
    · rw [tally_dataIn_recvConsumeConn]
      simp [dataIn_recv_of_eq hty, Nat.add_comm]
    · intro s hmem hopen
      have hmem : s ∈ (closeById (c.log (.recv f)) f.sid).streams := by simpa using hmem
      obtain ⟨hmem, hne⟩ := (mem_closeById (c := c.log (.recv f)) ht.nodup).mp hmem
      refine ⟨s, hmem, rfl, hopen, ?_⟩
      rw [if_neg hne]
  -- DATA within a request: the connection and the stream are topped up
  | @data f st data hb hty hsid hst hopen hgot hlen hslen =>
    obtain ⟨hstmem, hstid⟩ := findStream_some hst
    have hmax : st.recvWindow ≤ 65535 := (h.stream st hstmem hopen).2.2
    rw [recvConsumeStream_eq]
    refine h.data (δ := (topUp st.recvWindow f.payload.length).2) (hstid ▸ ht.le_last st hstmem)
      hlen (by simp [appendBody]) (by simp [appendBody]) (fun id => ?_) (fun on => ?_) hpos ?_
    · simp only [credited, updateStream_frame, qWindowUpdate_frame, tally_append,
        tally_credit_window (topUp_spec hslen hmax).2.2.2]
      rw [tally_credit_recvConsumeConn (c := appendBody (c.log (.recv f)) f.sid data) hlen
        h.conn.2.2]
      show _ + (_ + tally (credit id) (.recv f :: c.hist)) = _
      rw [tally_cons, credit_recv, hstid]
      by_cases h0 : id = 0
      · simp [h0, hsid, Nat.add_comm, appendBody]
      · simp [h0, Ne.symm h0, Nat.add_comm, eq_comm]
    · simp only [updateStream_frame, qWindowUpdate_frame, tally_append, tally_dataIn_ite,
        tally_dataIn_recvConsumeConn]
      show 0 + tally (dataIn on) (.recv f :: c.hist) = _
      rw [tally_cons, dataIn_recv_of_eq hty, Nat.zero_add, Nat.add_comm]
    · intro s' hmem hopen'
      obtain ⟨s₁, hs₁, rfl⟩ := mem_updateStream.mp hmem
      have hs₁ : s₁ ∈ (appendBody (c.log (.recv f)) f.sid data).streams := by simpa using hs₁
      obtain ⟨s, hs, rfl⟩ := mem_updateStream.mp hs₁
      have hs : s ∈ c.streams := hs
      refine ⟨s, hs, ?_⟩
      -- at the frame's own stream the window was checked in front
      by_cases heq : s.id = f.sid
      · cases eq_of_mem_of_id ht.nodup hs hstmem (heq.trans hstid.symm)
        simp [heq, hopen, hslen]
      · simp only [if_neg heq, hstid] at hopen' ⊢
        exact ⟨trivial, hopen', trivial⟩
  -- the last DATA: the stream's own window does not matter any more
  | @dataEnd f st data hb hty hsid hst hopen hgot hlen =>
    obtain ⟨hstmem, hstid⟩ := findStream_some hst
    refine h.data (δ := 0) (hstid ▸ ht.le_last st hstmem) hlen (by simp [appendBody])
      (by simp [appendBody]) (fun id => ?_) (fun on => ?_) hpos ?_
    · rw [credited, tally_h2Mark fun _ _ => rfl, (updateStream_frame _ _ _).1,
        tally_credit_recvConsumeConn (c := appendBody (c.log (.recv f)) f.sid data) hlen
          h.conn.2.2]
      simp [credited, appendBody, Nat.add_comm, eq_comm]
    · rw [tally_h2Mark fun _ _ => rfl, (updateStream_frame _ _ _).1,
        tally_dataIn_recvConsumeConn]
      simp [appendBody, dataIn_recv_of_eq hty, Nat.add_comm]
    · intro s hmem hopen'
      obtain ⟨hmem, hne⟩ := mem_finish (fun _ => rfl) hmem hopen'
      have hmem : s ∈ (appendBody (c.log (.recv f)) f.sid data).streams := by simpa using hmem
      obtain ⟨s₁, hs₁, rfl⟩ := mem_updateStream.mp hmem
      by_cases heq : s₁.id = f.sid
      · rw [if_pos heq] at hne
        exact absurd heq hne
      · rw [if_neg heq] at hopen' ⊢
        exact ⟨s₁, hs₁, rfl, hopen', by rw [if_neg heq]⟩
  -- a stream opened starts at 65535, with nothing received or credited
  | @headers f hb hty hodd hlt =>
    have hlog := h.recv (f := f) (by rw [hty]; decide)
    refine ⟨hlog.conn, ?_, fun id hid => hlog.fresh id (hlt.trans hid)⟩
    intro st hmem hopen
    rcases List.mem_append.mp hmem with hmem | hmem
    · exact hlog.stream st hmem hopen
    · cases List.mem_singleton.mp hmem
      obtain ⟨h1, h2⟩ := hlog.fresh f.sid hlt
      show Conserved 65535 (credited f.sid (c.log (.recv f)).hist)
        (dataRecvdOn f.sid (c.log (.recv f)).hist)
      rw [h1, h2]
      exact ⟨by decide, by decide, by decide⟩
  | headersRefused hb hty hlt =>
    exact (h.recv (by rw [hty]; decide)).quiet rfl hlt.le (fun _ => rfl) (fun _ => rfl)
      (same_streams rfl)
  | headersTrailer hb hty =>
    exact (h.recv (by rw [hty]; decide)).quiet rfl (Nat.le_refl _) (fun _ => rfl) (fun _ => rfl)
      (same_streams rfl)
  | continuation hg ha hty =>
    exact (h.recv (by rw [hty]; decide)).quiet rfl (Nat.le_refl _) (fun _ => rfl) (fun _ => rfl)
      (same_streams rfl)
  | accumulate =>
    exact h.quiet rfl (Nat.le_refl _) (fun _ => rfl) (fun _ => rfl) (same_streams rfl)
  -- the ends of a block: resets, heads and trailers move no window
  | @blockReset id =>
    exact hdone.quiet (by simp) (by simp) (by simp) (by simp)
      (close_streams id ht.nodup (by simp))
  | blockRefused =>
    exact hdone.quiet (by simp) (by simp) (by simp) (by simp) (same_streams (by simp))
  | @blockHead id body req ha hrc herr hid =>
    obtain ⟨st, hst, hopen⟩ := hh.findTarget ht.nodup ha hid
    refine hdone.quiet (by simp) (by simp) (by simp) (by simp)
      (update_streams rfl fun s hs hsid => ⟨rfl, rfl, fun _ => ?_⟩)
    obtain ⟨hmem, hstid⟩ := findStream_some hst
    cases eq_of_mem_of_id ht.nodup hs hmem (hsid.trans hstid.symm)
    exact hopen
  | blockHeadEnd =>
    exact hdone.finish fun _ => rfl
  | blockTrailer =>
    exact hdone.finish fun _ => rfl
  -- what the server sends is no WINDOW_UPDATE but where it tops up
  | @respond id st isHead status hdrs body hst hdisp hresp =>
    rw [zh2Respond_eq hst hresp]
    refine h.quiet (by simp) (by simp) (fun i => ?_) (fun on => ?_)
      (update_streams (i := id) (f := .answered (sentBody isHead status body)) ?_
        fun st _ _ => ⟨rfl, rfl, fun hs => hs⟩)
    · simp [foldl_h2Frame_hist, tally_credit_respFrames]
    · simp [foldl_h2Frame_hist, tally_dataIn_respFrames]
    · simp [updateStream]
  | release =>
    exact h.quiet rfl (Nat.le_refl _) (fun _ => rfl) (fun _ => rfl)
      (update_streams rfl fun st _ _ => ⟨rfl, rfl, fun hs => hs⟩)
  | reap hst =>
    rw [streamClose_eq_closeById ht.nodup hst]
    exact h.quiet (by simp) (by simp) (by simp) (by simp) (close_streams _ ht.nodup rfl)
  | @pump i st =>
    refine h.quiet rfl (Nat.le_refl _) (fun _ => ?_) (fun _ => ?_)
      (update_streams rfl fun st _ _ => ⟨rfl, rfl, fun hs => hs⟩)
    · simp [pumpData_eq, credit, dataFrame, ZH2_FT_DATA, ZH2_FT_WINDOW_UPDATE]
    · simp [pumpData_eq]
  | graceful =>
    refine h.quiet (by simp) (by simp) (fun _ => ?_) (fun _ => ?_) (same_streams (by simp))
    · simp [tally_credit_goaway]
    · simp [tally_dataIn_ite]
  | drain => exact h.quiet rfl (Nat.le_refl _) (fun _ => rfl) (fun _ => rfl) (same_streams rfl)

end Step

/-! ### Flow-control errors

DATA within the windows is never answered by a flow-control error. -/

/-- An event that answers the peer with FLOW_CONTROL_ERROR: a connection error, or a
RST_STREAM or GOAWAY frame with that code. -/
def isFlowError : H2Event → Bool
  | .error code => code == ZH2_E_FLOW_CONTROL_ERROR
  | .sent f =>
    (f.type == ZH2_FT_RST_STREAM && f.payload == wr32 ZH2_E_FLOW_CONTROL_ERROR) ||
      (f.type == ZH2_FT_GOAWAY && f.payload.drop 4 == wr32 ZH2_E_FLOW_CONTROL_ERROR)
  | _ => false

/-- The flow-control errors so far. -/
def flowErrors (h : List H2Event) : List H2Event := h.filter isFlowError

theorem flowErrors_cons {e : H2Event} (he : isFlowError e = false) (h : List H2Event) :
    flowErrors (e :: h) = flowErrors h := by
  simp [flowErrors, he]

theorem flowErrors_append {h h' : List H2Event} (hh : ∀ e ∈ h, isFlowError e = false) :
    flowErrors (h ++ h') = flowErrors h' := by
  induction h with
  | nil => rfl
  | cons e h ih =>
    rw [List.cons_append, flowErrors_cons (hh e List.mem_cons_self)]
    exact ih fun e he => hh e (List.mem_cons_of_mem _ he)

section Flow

variable {g : H2Cfg} {c : Zh2Conn}

theorem flowErrors_connError {code : Nat} (hcode : code ≠ ZH2_E_FLOW_CONTROL_ERROR)
    (hwire : wr32 code ≠ wr32 ZH2_E_FLOW_CONTROL_ERROR) :
    flowErrors (connError c code).hist = flowErrors c.hist := by
  rw [(connError_frame c code).1, flowErrors_append, flowErrors_cons]
  · simpa [isFlowError] using hcode
  · intro e he
    split at he
    · cases he
    · cases List.mem_singleton.mp he
      have hdrop : (goawayFrame c.lastClientId code).payload.drop 4 = wr32 code := rfl
      have hty : (goawayFrame c.lastClientId code).type = ZH2_FT_GOAWAY := rfl
      simp [isFlowError, hdrop, hty, hwire, ZH2_FT_GOAWAY, ZH2_FT_RST_STREAM]

theorem flowErrors_recvConsumeConn (len : Nat) :
    flowErrors (recvConsumeConn c len).hist = flowErrors c.hist := by
  rw [(recvConsumeConn_frame c len).1]
  refine flowErrors_append fun e he => ?_
  split at he
  · cases he
  · cases List.mem_singleton.mp he
    rfl

theorem flowErrors_recvConsumeStream (st : Zh2Stream) (len : Nat) :
    flowErrors (recvConsumeStream c st len).hist = flowErrors c.hist := by
  rw [recvConsumeStream_eq, (updateStream_frame _ _ _).1, (qWindowUpdate_frame _ _ _).1]
  refine flowErrors_append fun e he => ?_
  split at he
  · cases he
  · cases List.mem_singleton.mp he
    rfl

theorem flowErrors_zh2Respond (id : Nat) (isHead : Bool) (status : Nat)
    (hdrs : List (Bytes × Bytes)) (body : RespBody) :
    flowErrors (zh2Respond id isHead c status hdrs body).hist = flowErrors c.hist := by
  cases hst : findStream c id with
  | none => simp [zh2Respond, hst]
  | some st =>
    cases hresp : st.responded with
    | true => simp [zh2Respond, hst, hresp]
    | false =>
      rw [zh2Respond_eq hst hresp, (updateStream_frame _ _ _).1, foldl_h2Frame_hist,
        flowErrors_append]
      · rfl
      · intro e he
        obtain ⟨f, hf, rfl⟩ := List.mem_map.mp (List.mem_reverse.mp he)
        rcases (respFrames_type hf).1 with hty | hty
        · simp [isFlowError, hty, ZH2_FT_HEADERS, ZH2_FT_RST_STREAM, ZH2_FT_GOAWAY]
        · simp [isFlowError, hty, ZH2_FT_CONTINUATION, ZH2_FT_RST_STREAM, ZH2_FT_GOAWAY]

theorem flowErrors_h2Dispatch (id : Nat) :
    flowErrors (h2Dispatch g c id).hist = flowErrors c.hist := by
  have hreap : ∀ c, (reap c id).hist = c.hist := by
    intro c
    unfold reap
    split
    · split
      · simp
      · rfl
    · rfl
  unfold h2Dispatch
  split
  · rfl
  · split
    · rfl
    · dsimp only
      rw [hreap, (updateStream_frame _ _ _).1]
      refine zhsDispatch_inv (I := fun c' : Zh2Conn => flowErrors c'.hist = flowErrors c.hist) _ _ _ ?_ rfl
      intro c' status hdrs body hc'
      exact (flowErrors_zh2Respond id _ status hdrs body).trans hc'

/-- A DATA frame within both windows is not a flow-control error. -/
theorem flowErrors_h2OnData {f : Frame} (hlen : (f.payload.length : Int) ≤ c.recvWindow)
    (hst : ∀ st, findStream c f.sid = some st → st.endStreamRecv = false →
      (f.payload.length : Int) ≤ st.recvWindow) :
    flowErrors (h2OnData g c f).hist = flowErrors c.hist := by
  have hproto : ∀ c', flowErrors (connError c' ZH2_E_PROTOCOL_ERROR).hist = flowErrors c'.hist :=
    fun c' => flowErrors_connError (by decide) (by decide)
  unfold h2OnData
  dsimp only
  -- padding longer than the frame is a protocol error
  split
  · exact hproto c
  · -- both windows were checked to hold the payload
    rw [if_neg (Int.not_lt.mpr hlen)]
    -- a stream that is gone: idle or closed, and neither is a flow error
    cases hfind : findStream c f.sid with
    | none =>
      dsimp only
      rw [recvConsume_none]
      by_cases hidle : f.sid > (recvConsumeConn c f.payload.length).lastClientId
      · rw [if_pos hidle, hproto, flowErrors_recvConsumeConn]
      · rw [if_neg hidle, flowErrors_recvConsumeConn]
    | some st =>
      simp only [recvConsume_none, recvConsume_some]
      -- more data than the declared length
      split
      · exact flowErrors_connError (by decide) (by decide)
      · rename_i hopen
        rw [Bool.or_eq_true, not_or] at hopen
        rw [if_neg (Int.not_lt.mpr (hst st hfind (by simpa using hopen.1)))]
        -- a body over its cap resets the stream with another code
        split
        · exact hproto c
        · split
          · rw [flowErrors_recvConsumeConn, (rstStream_frame _ _ _).1]
            exact flowErrors_cons rfl c.hist
          · -- END_STREAM hands the request over, else both windows are topped up
            split
            · rw [flowErrors_h2Dispatch, (updateStream_frame _ _ _).1,
                flowErrors_recvConsumeConn, (updateStream_frame _ _ _).1]
            · rw [flowErrors_recvConsumeStream, flowErrors_recvConsumeConn,
                (updateStream_frame _ _ _).1]

end Flow

/-! ### Whole runs -/

section Runs

variable {g : H2Cfg} {c : Zh2Conn}

theorem Run.recv (h : Run g c) : c.gotError = false → RecvOk c := by
  refine h.induct (P := fun c => c.gotError = false → RecvOk c) ?_ ?_
  · intro _
    refine ⟨?_, ?_, fun id _ => ⟨rfl, rfl⟩⟩
    · show Conserved 65535 0 0
      exact ⟨by decide, by decide, by decide⟩
    · intro st hst
      cases hst
  · intro c c' hrun ih hs he
    obtain ⟨ht, hh⟩ := hrun.table
    exact (ih (hs.gotError_mono he)).step ht hh hs he

/-- **Receive-window conservation.** -/
theorem zh2_recvWindow (h : Reachable g c) (he : c.gotError = false) :
    (c.recvWindow = 65535 + credited 0 c.hist - dataRecvd c.hist ∧
      49152 ≤ c.recvWindow ∧ c.recvWindow ≤ 65535) ∧
    (∀ st ∈ c.streams, st.endStreamRecv = false →
      st.recvWindow = 65535 + credited st.id c.hist - dataRecvdOn st.id c.hist ∧
        49152 ≤ st.recvWindow ∧ st.recvWindow ≤ 65535) ∧
    ∀ s : Feed2St, s.c = c → (frameOf s.inp).type = ZH2_FT_DATA →
      flowErrors (roundConn (zh2FeedRound g s)).hist = flowErrors c.hist := by
  have hok := h.run.recv he
  refine ⟨hok.conn, hok.stream, ?_⟩
  rintro s rfl hty
  have hproto : ∀ c', flowErrors (connError c' ZH2_E_PROTOCOL_ERROR).hist = flowErrors c'.hist :=
    fun c' => flowErrors_connError (by decide) (by decide)
  have hlog : ∀ b, flowErrors { s.c.log (.recv (frameOf s.inp)) with needSettings := b }.hist =
      flowErrors s.c.hist := fun b => flowErrors_cons rfl s.c.hist
  unfold zh2FeedRound
  rw [if_neg (by rw [he]; exact Bool.false_ne_true)]
  split
  · rfl
  · dsimp only
    split
    · exact flowErrors_connError (by decide) (by decide)
    · rename_i hmax
      split
      · rfl
      · split
        · exact (hproto _).trans (hlog _)
        · split
          · exact (hproto _).trans (hlog _)
          · split
            · exact (hproto _).trans (hlog _)
            · have hframe : (frameOf s.inp).payload.length ≤ 16384 := by
                have : (frameOf s.inp).payload.length ≤ rd (s.inp.take 3) := by
                  simp [frameOf]
                simp only [ZH2_OUR_MAX_FRAME] at hmax
                omega
              show flowErrors (onFrame g _ _).c.hist = _
              unfold onFrame
              rw [if_pos hty]
              refine (flowErrors_h2OnData ?_ ?_).trans (hlog _)
              · show _ ≤ s.c.recvWindow
                have := hok.conn.2.1
                omega
              · intro st hst hopen
                have := (hok.stream st (findStream_some hst).1 hopen).2.1
                omega

/-- The head of an upload on stream 1 and a DATA frame of it. -/
def upload : List Frame :=
  [{ type := ZH2_FT_HEADERS, flags := ZH2_FL_END_HEADERS, sid := 1, payload := [0x83, 0x86, 0x84] },
    { type := ZH2_FT_DATA, sid := 1, payload := str "hello" }]

theorem zh2_recvWindow_upload :
    (silentFeed upload).gotError = false ∧ dataRecvd (silentFeed upload).hist = 5 ∧
    (silentFeed upload).recvWindow = 65535 + credited 0 (silentFeed upload).hist -
      dataRecvd (silentFeed upload).hist :=
  ⟨by decide +kernel, by decide +kernel,
    (zh2_recvWindow (reachable_silentFeed upload) (by decide +kernel)).1.1⟩

end Runs

end Zcio
