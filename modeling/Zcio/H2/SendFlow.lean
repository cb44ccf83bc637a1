import Zcio.H2.StreamTable

/-!
# Zcio.H2.SendFlow

**Send-side flow control.** The peer's permission to send is read off the frames it sent
(`increments`, `peerSettings`), what was used of it off the frames emitted (`dataSent`),
and at every moment of a run without a connection error the second stays within the
first. The windows the code keeps, signed and moved whenever INITIAL_WINDOW_SIZE changes,
are the difference of the two (`SendOk`).
-/

namespace Zcio

/-! ### What the wire says

The increments that came in, the DATA that went out and the settings in force, read off the
history. -/

/-- The WINDOW_UPDATE increment received for `id`. -/
def incrIn (id : Nat) : H2Event → Nat
  | .recv f => if f.type = ZH2_FT_WINDOW_UPDATE ∧ f.sid = id then f.incr else 0
  | _ => 0

/-- DATA payload octets emitted on the streams that `on` picks. -/
def dataOut (on : Nat → Bool) : H2Event → Nat
  | .sent f => if f.type = ZH2_FT_DATA ∧ on f.sid then f.payload.length else 0
  | _ => 0

/-- The WINDOW_UPDATE increments received for `id`; 0 is the connection. -/
def increments (id : Nat) (h : List H2Event) : Nat := tally (incrIn id) h

/-- The DATA payload octets emitted on all streams. -/
def dataSent (h : List H2Event) : Nat := tally (dataOut fun _ => true) h

/-- The DATA payload octets emitted on stream `id`. -/
def dataSentOn (id : Nat) (h : List H2Event) : Nat := tally (dataOut (· == id)) h

/-- The peer's current INITIAL_WINDOW_SIZE and MAX_FRAME_SIZE. -/
def peerSettings : List H2Event → Nat × Nat
  | [] => (ZH2_DEFAULT_INIT_WINDOW, ZH2_DEFAULT_MAX_FRAME)
  | .recv f :: h =>
    if f.type = ZH2_FT_SETTINGS ∧ hasFlag f.flags ZH2_FL_ACK = false then
      settingsOf (peerSettings h) f.payload
    else peerSettings h
  | _ :: h => peerSettings h

/-- The frames a response is made of. -/
def Frame.isResponse (f : Frame) : Bool :=
  f.type == ZH2_FT_DATA || f.type == ZH2_FT_HEADERS || f.type == ZH2_FT_CONTINUATION

/-- A moment at which the permission is kept: overall, and for the frame just emitted. -/
structure SendMoment (h : List H2Event) : Prop where
  total : dataSent h ≤ 65535 + increments 0 h
  stream : ∀ f t, h = .sent f :: t → f.type = ZH2_FT_DATA →
    dataSentOn f.sid h ≤ (peerSettings t).1 + increments f.sid t
  frame : ∀ f t, h = .sent f :: t → f.isResponse = true → f.payload.length ≤ (peerSettings t).2

/-! ### Quiet events

Events that bring no increment and are no DATA leave all sums as they are. -/

/-- An event that neither grants nor uses window, with response frames of at most `m`. -/
def Quiet (m : Nat) : H2Event → Prop
  | .recv f => f.type ≠ ZH2_FT_WINDOW_UPDATE ∧
      ¬(f.type = ZH2_FT_SETTINGS ∧ hasFlag f.flags ZH2_FL_ACK = false)
  | .sent f => f.type ≠ ZH2_FT_DATA ∧ (f.isResponse = true → f.payload.length ≤ m)
  | _ => True

section Quiet

variable {m : Nat} {e : H2Event} {h new : List H2Event}

theorem incrIn_quiet (he : Quiet m e) (id : Nat) : incrIn id e = 0 := by
  cases e with
  | recv f => simp [incrIn, he.1]
  | _ => rfl

theorem dataOut_quiet (he : Quiet m e) (on : Nat → Bool) : dataOut on e = 0 := by
  cases e with
  | sent f => simp [dataOut, he.1]
  | _ => rfl

theorem peerSettings_quiet (he : Quiet m e) : peerSettings (e :: h) = peerSettings h := by
  cases e with
  | recv f => simp [peerSettings, he.2]
  | _ => rfl

theorem SendMoment.quiet (hm : SendMoment h) (he : Quiet (peerSettings h).2 e) :
    SendMoment (e :: h) := by
  have hdata : dataSent (e :: h) = dataSent h := by
    simp [dataSent, dataOut_quiet he]
  refine ⟨?_, ?_, ?_⟩
  · rw [hdata]
    refine hm.total.trans ?_
    simp [increments]
  · rintro f t heq hty
    cases heq
    exact absurd hty he.1
  · rintro f t heq hresp
    cases heq
    exact he.2 hresp

theorem increments_quiet (hq : ∀ e ∈ new, Quiet m e) (id : Nat) :
    increments id (new ++ h) = increments id h := by
  rw [increments, tally_append, tally_eq_zero fun e he => incrIn_quiet (hq e he) id, Nat.zero_add]
  rfl

theorem tally_dataOut_quiet (hq : ∀ e ∈ new, Quiet m e) (on : Nat → Bool) :
    tally (dataOut on) (new ++ h) = tally (dataOut on) h := by
  rw [tally_append, tally_eq_zero fun e he => dataOut_quiet (hq e he) on, Nat.zero_add]

theorem peerSettings_append_quiet (hq : ∀ e ∈ new, Quiet m e) :
    peerSettings (new ++ h) = peerSettings h := by
  induction new with
  | nil => rfl
  | cons e new ih =>
    rw [List.cons_append, peerSettings_quiet (hq e List.mem_cons_self)]
    exact ih fun e he => hq e (List.mem_cons_of_mem _ he)

theorem always_quiet (hq : ∀ e ∈ new, Quiet (peerSettings h).2 e) (ha : Always SendMoment h) :
    Always SendMoment (new ++ h) := by
  induction new with
  | nil => exact ha
  | cons e new ih =>
    have hq' : ∀ e ∈ new, Quiet (peerSettings h).2 e :=
      fun e he => hq e (List.mem_cons_of_mem _ he)
    have ih := ih hq'
    rw [List.cons_append, always_cons]
    refine ⟨(ih _ List.suffix_rfl).quiet ?_, ih⟩
    rw [peerSettings_append_quiet hq']
    exact hq e List.mem_cons_self

theorem quiet_nil : ∀ e ∈ ([] : List H2Event), Quiet m e := fun _ he => (List.not_mem_nil he).elim

theorem quiet_recv {f : Frame} (hw : f.type ≠ ZH2_FT_WINDOW_UPDATE)
    (hs : f.type ≠ ZH2_FT_SETTINGS) : Quiet m (.recv f) :=
  ⟨hw, fun h => hs h.1⟩

/-- A frame sent that is no part of a response. -/
theorem quiet_sent {f : Frame} (h : f.isResponse = false) : Quiet m (.sent f) := by
  refine ⟨fun hty => ?_, fun hresp => ?_⟩
  · simp [Frame.isResponse, hty] at h
  · rw [h] at hresp
    cases hresp

/-- At most one frame that is no part of a response. -/
theorem quiet_ite {p : Prop} [Decidable p] {f : Frame} (h : f.isResponse = false) :
    ∀ e ∈ (if p then [] else [H2Event.sent f]), Quiet m e := by
  intro e he
  split at he
  · cases he
  · cases List.mem_singleton.mp he
    exact quiet_sent h

end Quiet

/-! ### The invariant

Every window is its initial size plus the increments minus the DATA sent. -/

/-- The send windows of a connection that raised no error. -/
structure SendOk (c : Zh2Conn) : Prop where
  settings : (c.peerInitialWindow, c.peerMaxFrame) = peerSettings c.hist
  maxFrame : 16384 ≤ c.peerMaxFrame
  conn : c.sendWindow = 65535 + increments 0 c.hist - dataSent c.hist
  conn_nonneg : 0 ≤ c.sendWindow
  stream : ∀ st ∈ c.streams, st.sendWindow =
    c.peerInitialWindow + increments st.id c.hist - dataSentOn st.id c.hist
  fresh : ∀ id, c.lastClientId < id → increments id c.hist = 0 ∧ dataSentOn id c.hist = 0
  always : Always SendMoment c.hist

section Step

variable {g : H2Cfg} {c c' : Zh2Conn}

/-- The streams of `c'` are streams of `c`, as far as the send side reads them. -/
def Kept (c c' : Zh2Conn) : Prop :=
  ∀ st' ∈ c'.streams, ∃ st ∈ c.streams, st.id = st'.id ∧ st.sendWindow = st'.sendWindow

/-- A step whose events are quiet; streams may be dropped. -/
theorem SendOk.quiet (h : SendOk c) (new : List H2Event) (hhist : c'.hist = new ++ c.hist)
    (hq : ∀ e ∈ new, Quiet c.peerMaxFrame e) (hwin : c'.sendWindow = c.sendWindow)
    (hinit : c'.peerInitialWindow = c.peerInitialWindow)
    (hmax : c'.peerMaxFrame = c.peerMaxFrame) (hlast : c.lastClientId ≤ c'.lastClientId)
    (hkept : Kept c c') : SendOk c' := by
  have hinc : ∀ id, increments id c'.hist = increments id c.hist := by
    intro id
    rw [hhist, increments_quiet hq]
  have hon : ∀ id, dataSentOn id c'.hist = dataSentOn id c.hist := by
    intro id
    rw [dataSentOn, hhist, tally_dataOut_quiet hq]
    rfl
  have hall : dataSent c'.hist = dataSent c.hist := by
    rw [dataSent, hhist, tally_dataOut_quiet hq]
    rfl
  refine ⟨?_, ?_, ?_, ?_, ?_, ?_, ?_⟩
  · rw [hinit, hmax, hhist, peerSettings_append_quiet hq]
    exact h.settings
  · rw [hmax]
    exact h.maxFrame
  · rw [hwin, hinc, hall]
    exact h.conn
  · rw [hwin]
    exact h.conn_nonneg
  · intro st' hmem
    obtain ⟨st, hst, hid, hsend⟩ := hkept st' hmem
    rw [hinit, hinc, hon, ← hid, ← hsend]
    exact h.stream st hst
  · intro id hid
    rw [hinc, hon]
    exact h.fresh id (Nat.lt_of_le_of_lt hlast hid)
  · rw [hhist]
    refine always_quiet ?_ h.always
    rw [← h.settings]
    exact hq

theorem Kept.same (ht : c'.streams = c.streams) : Kept c c' :=
  fun st hst => ⟨st, ht ▸ hst, rfl, rfl⟩

theorem Kept.update {i : Nat} {f : Zh2Stream → Zh2Stream}
    (ht : c'.streams = (updateStream c i f).streams)
    (hf : ∀ st, (f st).id = st.id ∧ (f st).sendWindow = st.sendWindow) : Kept c c' := by
  intro st' hst'
  rw [ht] at hst'
  obtain ⟨st, hst, rfl⟩ := mem_updateStream.mp hst'
  refine ⟨st, hst, ?_⟩
  split
  · exact ⟨(hf st).1.symm, (hf st).2.symm⟩
  · exact ⟨rfl, rfl⟩

theorem Kept.close (i : Nat) (hnd : c.ids.Nodup) (ht : c'.streams = (closeById c i).streams) :
    Kept c c' := by
  intro st hst
  rw [ht] at hst
  exact ⟨st, ((mem_closeById hnd).mp hst).1, rfl, rfl⟩

theorem Kept.trans {a b d : Zh2Conn} (h : Kept a b) (h' : Kept b d) : Kept a d := by
  intro st'' hst''
  obtain ⟨st', hst', hid', hw'⟩ := h' st'' hst''
  obtain ⟨st, hst, hid, hw⟩ := h st' hst'
  exact ⟨st, hst, hid.trans hid', hw.trans hw'⟩

theorem Kept.mark (c : Zh2Conn) (i : Nat) : Kept c (h2Mark g c i) := by
  intro st hst
  obtain ⟨s, hs, hsame, -⟩ := h2Mark_mem hst
  refine ⟨s, hs, ?_, ?_⟩
  · rw [← hsame]
  · rw [← hsame]

/-- A quiet frame is received. -/
theorem SendOk.recv (h : SendOk c) {f : Frame} (hw : f.type ≠ ZH2_FT_WINDOW_UPDATE)
    (hs : f.type ≠ ZH2_FT_SETTINGS) : SendOk (c.log (.recv f)) :=
  h.quiet [.recv f] rfl (by simpa using quiet_recv hw hs) rfl rfl rfl (Nat.le_refl _) (.same rfl)

theorem increments_recv {f : Frame} (hty : f.type = ZH2_FT_WINDOW_UPDATE) (id : Nat)
    (h : List H2Event) :
    increments id (.recv f :: h) = (if f.sid = id then f.incr else 0) + increments id h := by
  simp [increments, incrIn, hty]

/-- A WINDOW_UPDATE frame is received: the window it is for moves by its increment. -/
theorem SendOk.window (h : SendOk c) {f : Frame} (hty : f.type = ZH2_FT_WINDOW_UPDATE)
    (hsid : f.sid ≤ c.lastClientId) (hhist : c'.hist = .recv f :: c.hist)
    (hwin : c'.sendWindow = c.sendWindow + if f.sid = 0 then (f.incr : Int) else 0)
    (hinit : c'.peerInitialWindow = c.peerInitialWindow)
    (hmax : c'.peerMaxFrame = c.peerMaxFrame) (hlast : c'.lastClientId = c.lastClientId)
    (hst : ∀ st' ∈ c'.streams, ∃ st ∈ c.streams, st.id = st'.id ∧
      st'.sendWindow = st.sendWindow + if f.sid = st.id then (f.incr : Int) else 0) :
    SendOk c' := by
  have hne : f.type ≠ ZH2_FT_SETTINGS := by rw [hty]; decide
  have hset : peerSettings (.recv f :: c.hist) = peerSettings c.hist := by
    simp [peerSettings, hne]
  have hon : ∀ id, dataSentOn id c'.hist = dataSentOn id c.hist := by
    intro id
    simp [hhist, dataSentOn, dataOut]
  have hall : dataSent c'.hist = dataSent c.hist := by simp [hhist, dataSent, dataOut]
  -- SETTINGS do not change
  refine ⟨?_, ?_, ?_, ?_, ?_, ?_, ?_⟩
  · rw [hinit, hmax, hhist, hset]
    exact h.settings
  · rw [hmax]
    exact h.maxFrame
  · -- the connection window grows by the increment of a frame on stream 0
    rw [hwin, hhist, increments_recv hty, ← hhist, hall, h.conn]
    split
    · push_cast
      omega
    · push_cast
      omega
  · rw [hwin]
    have := h.conn_nonneg
    split
    · omega
    · omega
  · -- a stream's window by that of a frame on its own id
    intro st' hmem
    obtain ⟨st, hst, hid, hsend⟩ := hst st' hmem
    rw [hsend, hon, hhist, increments_recv hty, hinit, ← hid, h.stream st hst]
    split
    · push_cast
      omega
    · push_cast
      omega
  · -- ids not used yet got no increment, for the frame's id is one that was
    intro id hid
    rw [hlast] at hid
    rw [hon, hhist, increments_recv hty, if_neg (by omega), Nat.zero_add]
    exact h.fresh id hid
  · -- the totals of this moment, with all the earlier ones
    rw [hhist, always_cons]
    have htotal := (h.always _ List.suffix_rfl).total
    refine ⟨⟨?_, nofun, nofun⟩, h.always⟩
    rw [increments_recv hty, ← hhist, hall]
    omega

/-- A SETTINGS frame is applied: every stream's window moves with the initial window. -/
theorem SendOk.retune (h : SendOk c) {f : Frame} {w m : Nat} (hty : f.type = ZH2_FT_SETTINGS)
    (hack : hasFlag f.flags ZH2_FL_ACK = false)
    (hset : settingsOf (c.peerInitialWindow, c.peerMaxFrame) f.payload = (w, m))
    (hm : 16384 ≤ m) :
    SendOk (Zcio.retune (c.log (.recv f))
      (c.streams.map (.shift ((w : Int) - c.peerInitialWindow))) w m) := by
  have hne : f.type ≠ ZH2_FT_WINDOW_UPDATE := by rw [hty]; decide
  have hinc : ∀ id, increments id (.recv f :: c.hist) = increments id c.hist := by
    intro id
    simp [increments, incrIn, hne]
  have hon : ∀ id, dataSentOn id (.recv f :: c.hist) = dataSentOn id c.hist := by
    intro id
    simp [dataSentOn, dataOut]
  have hall : dataSent (.recv f :: c.hist) = dataSent c.hist := by simp [dataSent, dataOut]
  -- windows move by the difference of the two initial windows, totals stay
  refine ⟨?_, hm, ?_, h.conn_nonneg, ?_, ?_, ?_⟩
  · show (w, m) = peerSettings (.recv f :: c.hist)
    rw [peerSettings, if_pos ⟨hty, hack⟩, ← h.settings, hset]
  · show c.sendWindow = 65535 + increments 0 (.recv f :: c.hist) - dataSent (.recv f :: c.hist)
    rw [hinc, hall]
    exact h.conn
  · -- RFC 9113 6.9.2: the difference goes to every stream of the table
    intro st' hmem
    obtain ⟨st, hst, rfl⟩ := List.mem_map.mp hmem
    show st.sendWindow + ((w : Int) - c.peerInitialWindow) =
      w + increments st.id (.recv f :: c.hist) - dataSentOn st.id (.recv f :: c.hist)
    rw [hinc, hon, h.stream st hst]
    omega
  · -- a stream opened later starts from the new value
    intro id hid
    show increments id (.recv f :: c.hist) = 0 ∧ dataSentOn id (.recv f :: c.hist) = 0
    rw [hinc, hon]
    exact h.fresh id hid
  · show Always SendMoment (.recv f :: c.hist)
    rw [always_cons]
    refine ⟨⟨?_, nofun, nofun⟩, h.always⟩
    rw [hinc, hall]
    exact (h.always _ List.suffix_rfl).total

/-- What the pump's minima keep. -/
theorem pumpChunk_spec {st : Zh2Stream} (hne : pumpChunk g c st ≠ 0) :
    (pumpChunk g c st : Int) ≤ st.sendWindow ∧ (pumpChunk g c st : Int) ≤ c.sendWindow ∧
    pumpChunk g c st ≤ c.peerMaxFrame ∧
    pumpChunk g c st ≤ st.respBody.length - st.bodyOff ∧
    c.out.avail + ZH2_FRAME_HDR + pumpChunk g c st ≤ g.lim.maxOutBytes := by
  unfold pumpChunk at hne ⊢
  dsimp only at hne ⊢
  split at hne
  · exact absurd rfl hne
  · rename_i hgo
    rw [if_neg hgo]
    omega

/-- A DATA frame of a response. -/
theorem SendOk.pump (h : SendOk c) (ht : TableInv g c) {i : Nat} {st : Zh2Stream}
    (hst : c.streams[i]? = some st) (hne : pumpChunk g c st ≠ 0) :
    SendOk (pumpData c st (pumpChunk g c st)) := by
  -- the chunk is what both windows, the frame size and the body allow
  obtain ⟨hswin, hcwin, hframe, hbody, -⟩ := pumpChunk_spec hne
  generalize pumpChunk g c st = chunk at *
  have hmem : st ∈ c.streams := List.mem_of_getElem? hst
  have hlen : (dataFrame st chunk).payload.length = chunk := by
    simp only [dataFrame, List.length_take, List.length_drop]
    omega
  -- the octets sent grow by the chunk, on its stream and on the connection
  have hon : ∀ id, dataSentOn id (.sent (dataFrame st chunk) :: c.hist) =
      (if st.id = id then chunk else 0) + dataSentOn id c.hist := by
    intro id
    simp only [dataSentOn, tally_cons, dataOut, hlen]
    simp [dataFrame]
  have hall : dataSent (.sent (dataFrame st chunk) :: c.hist) = chunk + dataSent c.hist := by
    simp only [dataSent, tally_cons, dataOut, hlen]
    simp [dataFrame]
  have hinc : ∀ id, increments id (.sent (dataFrame st chunk) :: c.hist) =
      increments id c.hist := by
    intro id
    simp [increments, incrIn]
  have hset : peerSettings (.sent (dataFrame st chunk) :: c.hist) = peerSettings c.hist := rfl
  have hconn := h.conn
  have hstream := h.stream st hmem
  refine ⟨?_, h.maxFrame, ?_, ?_, ?_, ?_, ?_⟩
  · -- a DATA frame brings no settings and no increments
    show (c.peerInitialWindow, c.peerMaxFrame) = peerSettings (.sent (dataFrame st chunk) :: c.hist)
    rw [hset]
    exact h.settings
  · show c.sendWindow - chunk = 65535 + increments 0 (.sent (dataFrame st chunk) :: c.hist) -
      dataSent (.sent (dataFrame st chunk) :: c.hist)
    rw [hinc, hall]
    push_cast
    omega
  · show 0 ≤ c.sendWindow - chunk
    omega
  · -- the window of the stream pays for the chunk, those of others stay
    intro s' hs'
    obtain ⟨s, hs, rfl⟩ := mem_updateStream.mp hs'
    have hold := h.stream s hs
    show _ = (c.peerInitialWindow : Int) + increments _ (.sent (dataFrame st chunk) :: c.hist) -
      dataSentOn _ (.sent (dataFrame st chunk) :: c.hist)
    rw [hinc, hon]
    by_cases heq : s.id = st.id
    · rw [if_pos heq]
      simp only [heq, if_true]
      rw [heq] at hold
      push_cast
      omega
    · rw [if_neg heq, if_neg (Ne.symm heq)]
      simpa using hold
  · -- the stream is in the table, so its id was used
    intro id hid
    have hid : c.lastClientId < id := hid
    have hle := ht.le_last st hmem
    show increments id (.sent (dataFrame st chunk) :: c.hist) = 0 ∧
      dataSentOn id (.sent (dataFrame st chunk) :: c.hist) = 0
    rw [hinc, hon, if_neg (by omega), Nat.zero_add]
    exact h.fresh id hid
  · -- the moment of this frame: totals, the stream's total, the frame's size
    show Always SendMoment (.sent (dataFrame st chunk) :: c.hist)
    rw [always_cons]
    refine ⟨⟨?_, ?_, ?_⟩, h.always⟩
    · rw [hinc, hall]
      omega
    · rintro f t heq -
      cases heq
      rw [show (dataFrame st chunk).sid = st.id from rfl, hon, if_pos rfl, ← h.settings]
      dsimp only
      omega
    · rintro f t heq -
      cases heq
      rw [hlen, ← h.settings]
      exact hframe

/-- A request is complete. -/
theorem SendOk.mark (h : SendOk c) (i : Nat) : SendOk (h2Mark g c i) := by
  rcases h2Mark_hist (g := g) c i with hh | ⟨st, -, -, hh⟩
  · exact h.quiet [] hh quiet_nil (by simp) (by simp) (by simp) (by simp) (.mark c i)
  · refine h.quiet [_] hh ?_ (by simp) (by simp) (by simp) (by simp) (.mark c i)
    intro e he
    cases List.mem_singleton.mp he
    trivial

/-- DATA was received and the connection credited for it. -/
theorem SendOk.consume (h : SendOk c) (len : Nat) : SendOk (recvConsumeConn c len) :=
  h.quiet _ (recvConsumeConn_frame c len).1 (quiet_ite rfl) (by simp) (by simp) (by simp) (by simp)
    (.same (by simp))

/-- A stream is reset. -/
theorem SendOk.rst (h : SendOk c) (hnd : c.ids.Nodup) (i code : Nat) :
    SendOk (rstStream c i code) := by
  refine h.quiet [.sent (rstFrame i code)] (by simp) ?_ (by simp) (by simp) (by simp) (by simp)
    (.close i hnd (by simp))
  intro e he
  cases List.mem_singleton.mp he
  exact quiet_sent rfl

/-- An increment for an open stream. -/
theorem SendOk.windowStream (h : SendOk c) (ht : TableInv g c) {f : Frame} {st : Zh2Stream}
    (hty : f.type = ZH2_FT_WINDOW_UPDATE) (hsid : f.sid ≠ 0) (hst : findStream c f.sid = some st) :
    SendOk (updateStream (c.log (.recv f)) f.sid (.shift f.incr)) := by
  obtain ⟨hmem, hstid⟩ := findStream_some hst
  refine h.window hty (hstid ▸ ht.le_last st hmem) rfl (by simp [hsid]) rfl rfl rfl
    fun s' hs' => ?_
  obtain ⟨s, hs, rfl⟩ := mem_updateStream.mp hs'
  refine ⟨s, hs, ?_⟩
  by_cases heq : s.id = f.sid
  · simp [heq, Zh2Stream.shift]
  · simp [heq, Ne.symm heq]

/-- A frame that has no effect; it may be an increment for a stream that is gone. -/
theorem SendOk.ignore (h : SendOk c) {f : Frame} (hin : f.Inert c) : SendOk (c.log (.recv f)) := by
  by_cases hty : f.type = ZH2_FT_WINDOW_UPDATE
  · obtain ⟨hsid, hnone, hle⟩ := hin.closed (.inl hty)
    refine h.window hty hle rfl (by simp [hsid]) rfl rfl rfl fun st hst => ⟨st, hst, rfl, ?_⟩
    rw [if_neg (Ne.symm (findStream_none hnone st hst)), Int.add_zero]
  · refine h.quiet [.recv f] rfl ?_ rfl rfl rfl (Nat.le_refl _) (.same rfl)
    intro e he
    cases List.mem_singleton.mp he
    refine ⟨hty, fun hset => ?_⟩
    have hack := hin.settings hset.1
    rw [hset.2] at hack
    cases hack

/-- A stream is opened with the peer's current initial window. -/
theorem SendOk.open (h : SendOk c) {id : Nat} (hlt : c.lastClientId < id) :
    SendOk (h2StreamNew (countStream c id) id) := by
  refine ⟨h.settings, h.maxFrame, h.conn, h.conn_nonneg, ?_,
    fun id' hid => h.fresh id' (hlt.trans hid), h.always⟩
  intro st hmem
  rcases List.mem_append.mp hmem with hmem | hmem
  · exact h.stream st hmem
  · cases List.mem_singleton.mp hmem
    obtain ⟨h1, h2⟩ := h.fresh id hlt
    show (c.peerInitialWindow : Int) =
      c.peerInitialWindow + increments id c.hist - dataSentOn id c.hist
    rw [h1, h2]
    simp

/-- A write to streams that the send side does not read. -/
theorem SendOk.update (h : SendOk c) {i : Nat} {f : Zh2Stream → Zh2Stream}
    (hf : ∀ st, (f st).id = st.id ∧ (f st).sendWindow = st.sendWindow) :
    SendOk (updateStream c i f) :=
  h.quiet [] rfl quiet_nil rfl rfl rfl (Nat.le_refl _) (.update rfl hf)

/-- The headers of a response. -/
theorem SendOk.respond (h : SendOk c) {id : Nat} {st : Zh2Stream} {isHead : Bool} {status : Nat}
    {hdrs : List (Bytes × Bytes)} {body : RespBody} (hst : findStream c id = some st)
    (hresp : st.responded = false) : SendOk (zh2Respond id isHead c status hdrs body) := by
  have hpos : 0 < c.peerMaxFrame := Nat.lt_of_lt_of_le (by decide) h.maxFrame
  rw [zh2Respond_eq hst hresp]
  refine SendOk.update ?_ fun _ => ⟨rfl, rfl⟩
  refine h.quiet (((respFrames c id isHead status hdrs body).map H2Event.sent).reverse ++
    [.responded id isHead status hdrs body]) ?_ ?_ (by simp) (by simp) (by simp) (by simp)
    (.same (by simp))
  · simp [foldl_h2Frame_hist]
  · intro e he
    rcases List.mem_append.mp he with he | he
    · obtain ⟨f, hf, rfl⟩ := List.mem_map.mp (List.mem_reverse.mp he)
      refine ⟨?_, fun _ => respFrames_le hpos hf⟩
      rcases (respFrames_type hf).1 with hty | hty
      · rw [hty]; decide
      · rw [hty]; decide
    · cases List.mem_singleton.mp he
      trivial

/-- DATA was received and a stream credited for it. -/
theorem SendOk.consumeStream (h : SendOk c) (st : Zh2Stream) (len : Nat) :
    SendOk (recvConsumeStream c st len) := by
  rw [recvConsumeStream_eq]
  refine SendOk.update ?_ fun _ => ⟨rfl, rfl⟩
  exact h.quiet _ (qWindowUpdate_frame _ _ _).1 (quiet_ite rfl) (by simp) (by simp) (by simp)
    (by simp) (.same (by simp))

/-- One quiet event, with streams and windows left alone. -/
theorem SendOk.one (h : SendOk c) {e : H2Event} (hhist : c'.hist = e :: c.hist)
    (hq : Quiet c.peerMaxFrame e) (hflow : c'.toZh2Flow = c.toZh2Flow)
    (htable : c'.toZh2Table = c.toZh2Table) : SendOk c' := by
  refine h.quiet [e] hhist ?_ (by rw [hflow]) (by rw [hflow]) (by rw [hflow]) (by rw [htable])
    (.same (by rw [htable]))
  intro e' he'
  cases List.mem_singleton.mp he'
  exact hq

/-- Nothing the send side reads. -/
theorem SendOk.congr (h : SendOk c) (hhist : c'.hist = c.hist)
    (hflow : c'.toZh2Flow = c.toZh2Flow) (hlast : c.lastClientId ≤ c'.lastClientId)
    (hkept : Kept c c') : SendOk c' :=
  h.quiet [] hhist quiet_nil (by rw [hflow]) (by rw [hflow]) (by rw [hflow]) hlast hkept

theorem SendOk.step (h : SendOk c) (ht : TableInv g c) (hs : Step g c c')
    (he : c'.gotError = false) : SendOk c' := by
  have hdone : SendOk (blockDone g c) := h.one rfl trivial rfl rfl
  -- the steps that end in an error are excluded
  cases hs with
  | error => simp at he
  | reject => simp at he
  | settingsFail => simp at he
  | windowConnError => simp at he
  | peerResetFlood => simp at he
  | dataIdle => simp at he
  | continuationFlood => simp at he
  | blockError => simp at he
  | setup => exact h.congr rfl rfl (Nat.le_refl _) (.same rfl)
  | ignore hb hin => exact h.ignore hin
  | goaway hb hty =>
    have hlog := h.recv (by rw [hty]; decide) (by rw [hty]; decide)
    exact hlog.congr rfl rfl (Nat.le_refl _) (.same rfl)
  | ping hb hty =>
    have hlog := h.recv (by rw [hty]; decide) (by rw [hty]; decide)
    exact hlog.one rfl (quiet_sent rfl) rfl rfl
  -- SETTINGS and WINDOW_UPDATE, the two frames that move the windows
  | settings hb hty hack hset hm =>
    exact (h.retune hty hack hset (hm h.maxFrame)).one rfl (quiet_sent rfl) rfl rfl
  | @windowConn f hb hty hsid =>
    refine h.window hty (by omega) rfl (by simp [hsid]) rfl rfl rfl fun st hst =>
      ⟨st, hst, rfl, ?_⟩
    have hodd := ht.odd st hst
    rw [if_neg (by omega), Int.add_zero]
  | windowStream hb hty hsid hst => exact h.windowStream ht hty hsid hst
  | @windowReset f st code hb hty hsid hst =>
    have hids : (updateStream (c.log (.recv f)) f.sid (.shift f.incr)).ids = c.ids :=
      ids_updateStream fun _ => rfl
    exact (h.windowStream ht hty hsid hst).rst (hids ▸ ht.nodup) f.sid code
  -- frames that only change streams in fields the windows do not depend on
  | @peerReset f st n hb hty =>
    have hlog := h.recv (f := f) (by rw [hty]; decide) (by rw [hty]; decide)
    refine hlog.congr (by simp) (by simp) (by simp) (.close f.sid ht.nodup ?_)
    exact closeById_streams (a := c.log (.recv f))
      (b := { c.log (.recv f) with rapidReset := n }) rfl f.sid
  | dataClosed hb hty =>
    exact (h.recv (by rw [hty]; decide) (by rw [hty]; decide)).consume _
  | dataReset code hb hty =>
    exact ((h.recv (by rw [hty]; decide) (by rw [hty]; decide)).rst ht.nodup _ _).consume _
  | @data f st data hb hty =>
    have hlog := h.recv (f := f) (by rw [hty]; decide) (by rw [hty]; decide)
    have hbody : SendOk (appendBody (c.log (.recv f)) f.sid data) :=
      hlog.update fun _ => ⟨rfl, rfl⟩
    exact (hbody.consume _).consumeStream st _
  | @dataEnd f st data hb hty =>
    have hlog := h.recv (f := f) (by rw [hty]; decide) (by rw [hty]; decide)
    have hbody : SendOk (appendBody (c.log (.recv f)) f.sid data) :=
      hlog.update fun _ => ⟨rfl, rfl⟩
    refine SendOk.mark ?_ f.sid
    exact (hbody.consume _).update fun _ => ⟨rfl, rfl⟩
  -- HEADERS: a stream opened starts with the peer's initial window
  | @headers f hb hty hodd hlt =>
    have hlog := h.recv (f := f) (by rw [hty]; decide) (by rw [hty]; decide)
    exact (hlog.open hlt).congr rfl rfl (Nat.le_refl _) (.same rfl)
  | headersRefused hb hty hlt =>
    have hlog := h.recv (by rw [hty]; decide) (by rw [hty]; decide)
    exact hlog.congr rfl rfl hlt.le (.same rfl)
  | headersTrailer hb hty =>
    have hlog := h.recv (by rw [hty]; decide) (by rw [hty]; decide)
    exact hlog.congr rfl rfl (Nat.le_refl _) (.same rfl)
  | continuation hg ha hty =>
    have hlog := h.recv (by rw [hty]; decide) (by rw [hty]; decide)
    exact hlog.congr rfl rfl (Nat.le_refl _) (.same rfl)
  -- inside a block nothing is sent but its reset
  | accumulate => exact h.congr rfl rfl (Nat.le_refl _) (.same rfl)
  | blockReset => exact hdone.rst ht.nodup _ _
  | blockRefused => exact hdone.one rfl (quiet_sent rfl) rfl rfl
  | blockHead => exact hdone.update fun _ => ⟨rfl, rfl⟩
  | blockHeadEnd =>
    refine SendOk.mark ?_ _
    exact hdone.update fun _ => ⟨rfl, rfl⟩
  | blockTrailer =>
    refine SendOk.mark ?_ _
    exact hdone.update fun _ => ⟨rfl, rfl⟩
  -- the response's head is no DATA; the pump sends the body
  | respond hst hdisp hresp => exact h.respond hst hresp
  | release => exact h.update fun _ => ⟨rfl, rfl⟩
  | reap hst =>
    rw [streamClose_eq_closeById ht.nodup hst]
    exact h.congr (by simp) (by simp) (by simp) (.close _ ht.nodup rfl)
  | pump hst hdone hne => exact h.pump ht hst hne
  | graceful =>
    exact h.quiet _ (zh2Graceful_frame c).1 (quiet_ite rfl) (by simp) (by simp) (by simp) (by simp)
      (.same (by simp))
  | drain => exact h.congr rfl rfl (Nat.le_refl _) (.same rfl)

end Step

/-! ### The pump's output budget

A chunk is cut to what the budget leaves, with room for its header. -/

section Pump

variable {g : H2Cfg} {c : Zh2Conn}

theorem length_Frame_bytes (f : Frame) : f.bytes.length = ZH2_FRAME_HDR + f.payload.length := by
  simp [Frame.bytes, wr32, ZH2_FRAME_HDR]
  omega

/-- A DATA frame fits the budget it was cut for. -/
theorem avail_pumpData {st : Zh2Stream} (hne : pumpChunk g c st ≠ 0) :
    (pumpData c st (pumpChunk g c st)).out.avail ≤ g.lim.maxOutBytes := by
  obtain ⟨-, -, -, hbody, hout⟩ := pumpChunk_spec hne
  generalize pumpChunk g c st = chunk at *
  have hlen : (dataFrame st chunk).payload.length = chunk := by
    simp only [dataFrame, List.length_take, List.length_drop]
    omega
  show (c.out.append (dataFrame st chunk).bytes).avail ≤ _
  rw [ZhsBuf.avail_append, length_Frame_bytes, hlen]
  omega

theorem avail_pumpStream (i : Nat) (c : Zh2Conn) :
    (pumpStream g i c).out.avail ≤ max c.out.avail g.lim.maxOutBytes := by
  refine Lib.loop_induct (pumpStreamRound_decreases g i)
    (P := fun c c' => c'.out.avail ≤ max c.out.avail g.lim.maxOutBytes) ?_ ?_ c
  · intro c c' h
    unfold pumpStreamRound at h
    split at h
    · cases h
      exact Nat.le_max_left _ _
    · dsimp only at h
      split at h
      · cases h
        exact Nat.le_max_left _ _
      · cases h
  · intro c c' r h ih
    unfold pumpStreamRound at h
    split at h
    · cases h
    · dsimp only at h
      split at h
      · cases h
      · rename_i hchunk
        cases h
        have := avail_pumpData hchunk
        omega

/-- A call of the pump leaves the pending output within the budget, or as it was. -/
theorem avail_zh2Pump (c : Zh2Conn) :
    (zh2Pump g c).out.avail ≤ max c.out.avail g.lim.maxOutBytes := by
  -- one visit of the loop: the stream at the index sends, then is reaped or passed
  have hround : ∀ s : Zh2Conn × Nat, (match pumpRound g s with
      | .inl s' => s'.1
      | .inr r => r).out.avail ≤ max s.1.out.avail g.lim.maxOutBytes := by
    rintro ⟨c, i⟩
    unfold pumpRound
    dsimp only
    cases hst : c.streams[i]? with
    | none => exact Nat.le_max_left _ _
    | some st =>
      dsimp only
      generalize hc : (if (st.respHeadersDone && !st.sendDone) = true then pumpStream g i c
        else c) = c₁
      have hc₁ : c₁.out.avail ≤ max c.out.avail g.lim.maxOutBytes := by
        subst hc
        split
        · exact avail_pumpStream i c
        · exact Nat.le_max_left _ _
      cases hst₁ : c₁.streams[i]? with
      | none => exact hc₁
      | some st₁ =>
        dsimp only
        by_cases hboth : (st₁.sendDone && st₁.endStreamRecv) = true
        · rw [if_pos hboth]
          exact hc₁
        · rw [if_neg hboth]
          exact hc₁
  -- the bound holds along the loop, whatever the index does
  refine Lib.loop_induct (pumpRound_decreases g)
    (P := fun s r => r.out.avail ≤ max s.1.out.avail g.lim.maxOutBytes) ?_ ?_ (c, 0)
  · intro s r h
    have := hround s
    rw [h] at this
    exact this
  · intro s s' r h ih
    have := hround s
    rw [h] at this
    dsimp only at this
    omega

end Pump

/-! ### Whole runs -/

section Runs

variable {g : H2Cfg} {c : Zh2Conn}

/-- Before our SETTINGS frame nothing has happened. -/
theorem sendOk_empty : SendOk {} := by
  refine ⟨rfl, Nat.le_refl _, by decide, by decide, ?_, fun id _ => ⟨rfl, rfl⟩, ?_⟩
  · intro st hst
    exact absurd hst List.not_mem_nil
  · intro h hs
    cases List.suffix_nil.mp hs
    exact ⟨Nat.zero_le _, nofun, nofun⟩

theorem Run.send (h : Run g c) : c.gotError = false → SendOk c := by
  refine h.induct (P := fun c => c.gotError = false → SendOk c) ?_ ?_
  · intro _
    exact sendOk_empty.one rfl (quiet_sent rfl) rfl rfl
  · intro c c' hrun ih hs he
    exact (ih (hs.gotError_mono he)).step hrun.table.1 hs he

/-- **Send-side flow control.** -/
theorem zh2_sendWindow (h : Reachable g c) :
    (c.gotError = false → Always (fun h =>
      dataSent h ≤ 65535 + increments 0 h ∧
      ∀ f t, h = .sent f :: t →
        (f.type = ZH2_FT_DATA → dataSentOn f.sid h ≤ (peerSettings t).1 + increments f.sid t) ∧
        (f.isResponse = true → f.payload.length ≤ (peerSettings t).2)) c.hist) ∧
    (zh2Pump g c).out.avail ≤ max c.out.avail g.lim.maxOutBytes := by
  refine ⟨fun he h' hs => ?_, avail_zh2Pump c⟩
  have hm := (h.run.send he).always h' hs
  exact ⟨hm.total, fun f t heq => ⟨hm.stream f t heq, hm.frame f t heq⟩⟩

/-- The fallback response to a GET, pumped: a body of 21 octets within the windows. -/
theorem zh2_sendWindow_getRequest :
    (zh2Pump .silent (silentFeed [getRequest])).gotError = false ∧
    dataSent (zh2Pump .silent (silentFeed [getRequest])).hist = 21 ∧
    dataSent (zh2Pump .silent (silentFeed [getRequest])).hist ≤
      65535 + increments 0 (zh2Pump .silent (silentFeed [getRequest])).hist :=
  ⟨by decide +kernel, by decide +kernel,
    ((zh2_sendWindow (reachable_silentFeed [getRequest]).pump).1 (by decide +kernel) _
      List.suffix_rfl).1⟩

end Runs

end Zcio
