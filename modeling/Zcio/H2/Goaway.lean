import Zcio.H2.StreamTable

/-!
# Zcio.H2.Goaway

Winding a connection down. A client retries every stream above the id that a GOAWAY carries,
so the frame is a promise: none of those was, or will be, processed. The invariant follows
the promise in `GoawayInv`; **`zh2_goaway_honest`** is what a client gets out of it.
-/

namespace Zcio

/-- The GOAWAY frames sent. -/
def goaways (h : List H2Event) : List Frame :=
  h.filterMap fun
    | .sent f => if f.type = ZH2_FT_GOAWAY then some f else none
    | _ => none

/-- The last stream id in a GOAWAY frame, as a client reads it. -/
def Frame.lastStreamId (f : Frame) : Nat := rd (f.payload.take 4) % 2 ^ 31

theorem lastStreamId_goawayFrame {last code : Nat} (h : last < 2 ^ 31) :
    (goawayFrame last code).lastStreamId = last := by
  have htake : (goawayFrame last code).payload.take 4 = wr32 last := rfl
  rw [Frame.lastStreamId, htake, rd_wr32 (by omega), Nat.mod_eq_of_lt h]

theorem goaways_sent {f : Frame} (hf : f.type ≠ ZH2_FT_GOAWAY) (h : List H2Event) :
    goaways (.sent f :: h) = goaways h := by
  simp [goaways, hf]

variable {g : H2Cfg} {a b c c' : Zh2Conn}

/-! ### Steps that leave the promise alone

Most steps move neither the last id promised nor the log of dispatches. -/

/-- No GOAWAY is sent, no stream is opened, and what is dispatched was in the table. -/
structure Calm (c c' : Zh2Conn) : Prop where
  sent : c'.goawaySent = c.goawaySent
  closing : c'.closing = c.closing
  last : c'.lastClientId = c.lastClientId
  frames : goaways c'.hist = goaways c.hist
  ids : ∀ st ∈ c'.streams, ∃ s ∈ c.streams, s.id = st.id
  disp : ∀ id ∈ dispatchedIds c'.hist, id ∈ dispatchedIds c.hist ∨ ∃ s ∈ c.streams, s.id = id

namespace Calm

theorem trans (h : Calm a b) (h' : Calm b c) : Calm a c := by
  refine ⟨h'.sent.trans h.sent, h'.closing.trans h.closing, h'.last.trans h.last,
    h'.frames.trans h.frames, ?_, ?_⟩
  · intro st hst
    obtain ⟨s, hs, hid⟩ := h'.ids st hst
    obtain ⟨r, hr, hrid⟩ := h.ids s hs
    exact ⟨r, hr, hrid.trans hid⟩
  · intro id hid
    rcases h'.disp id hid with hid | ⟨s, hs, rfl⟩
    · exact h.disp id hid
    · exact .inr (h.ids s hs)

theorem after (h' : Calm b c) (h : Calm a b) : Calm a c := h.trans h'

/-- The table as it was, and no GOAWAY and no dispatch in what was recorded. -/
theorem congr (hs : c'.goawaySent = c.goawaySent) (hc : c'.closing = c.closing)
    (ht : c'.toZh2Table = c.toZh2Table) (hf : goaways c'.hist = goaways c.hist)
    (hd : dispatches c'.hist = dispatches c.hist) : Calm c c' := by
  refine ⟨hs, hc, congrArg (·.lastClientId) ht, hf, fun st hst => ⟨st, ?_, rfl⟩, fun id hid => ?_⟩
  · have := congrArg (·.streams) ht
    exact this ▸ hst
  · rw [dispatchedIds, hd] at hid
    exact .inl hid

theorem log {e : H2Event} (hf : goaways (e :: c.hist) = goaways c.hist)
    (hd : dispatches (e :: c.hist) = dispatches c.hist) : Calm c (c.log e) :=
  .congr rfl rfl rfl hf hd

theorem recv (f : Frame) : Calm c (c.log (.recv f)) := .log rfl rfl

theorem frame {f : Frame} (hf : f.type ≠ ZH2_FT_GOAWAY) : Calm c (h2Frame c f) :=
  .congr rfl rfl rfl (goaways_sent hf _) rfl

theorem update (id : Nat) {f : Zh2Stream → Zh2Stream} (hf : ∀ s, (f s).id = s.id) :
    Calm c (updateStream c id f) := by
  refine ⟨rfl, rfl, rfl, rfl, fun st hst => ?_, fun _ hid => .inl hid⟩
  obtain ⟨s, hs, rfl⟩ := mem_updateStream.mp hst
  refine ⟨s, hs, ?_⟩
  split
  · exact (hf s).symm
  · rfl

theorem close (id : Nat) : Calm c (closeById c id) := by
  unfold closeById
  split
  · rename_i i hi
    obtain ⟨s, hs, -⟩ := findIndex_some hi
    exact ⟨rfl, rfl, rfl, rfl, fun st hst =>
      ⟨st, Lib.mem_of_mem_swapRemove (List.getElem?_eq_some_iff.mp hs).1 hst, rfl⟩,
      fun _ hid => .inl hid⟩
  · exact .congr rfl rfl rfl rfl rfl

theorem rst (id code : Nat) : Calm c (rstStream c id code) :=
  (frame (f := rstFrame id code) (show ZH2_FT_RST_STREAM ≠ ZH2_FT_GOAWAY by decide)).trans
    (close id)

theorem windowUpdate (id incr : Nat) : Calm c (qWindowUpdate c id incr) := by
  unfold qWindowUpdate
  split
  · exact .congr rfl rfl rfl rfl rfl
  · exact frame (show ZH2_FT_WINDOW_UPDATE ≠ ZH2_FT_GOAWAY by decide)

theorem consume (len : Nat) : Calm c (recvConsumeConn c len) := by
  have hw : Calm c (qWindowUpdate c 0 (topUp c.recvWindow len).2) := windowUpdate 0 _
  exact ⟨hw.sent, hw.closing, hw.last, hw.frames, hw.ids, hw.disp⟩

theorem mark (id : Nat) : Calm c (h2Mark g c id) := by
  unfold h2Mark
  split
  · exact .congr rfl rfl rfl rfl rfl
  · rename_i st hst
    obtain ⟨hmem, hstid⟩ := findStream_some hst
    split
    · exact .congr rfl rfl rfl rfl rfl
    · have hup : Calm c (updateStream c id fun s =>
          { s with dispatched := true, req := h2Request g st }) := update id fun _ => rfl
      refine ⟨rfl, rfl, rfl, rfl, hup.ids, fun i hi => ?_⟩
      rcases List.mem_cons.mp hi with rfl | hi
      · exact .inr ⟨st, hmem, hstid⟩
      · exact .inl hi

/-- A run of frames without GOAWAY. -/
theorem frames_foldl (fs : List Frame) (hf : ∀ f ∈ fs, f.type ≠ ZH2_FT_GOAWAY) :
    Calm c (fs.foldl h2Frame c) := by
  induction fs generalizing c with
  | nil => exact .congr rfl rfl rfl rfl rfl
  | cons f fs ih =>
    exact (frame (hf f List.mem_cons_self)).trans
      (ih fun f' hf' => hf f' (List.mem_cons_of_mem _ hf'))

end Calm

/-! ### The invariant

The id in a GOAWAY is not below that of any request handed over, and none is opened behind
it. -/

/-- **The promise**: `last` bounds every stream there is and every stream dispatched; it is
what the one GOAWAY carries, once that is sent, and no stream is opened any more. -/
structure GoawayInv (c : Zh2Conn) : Prop where
  bound : c.lastClientId < 2 ^ 31
  promise : ∃ last ≤ c.lastClientId, (∀ st ∈ c.streams, st.id ≤ last) ∧
    (∀ id ∈ dispatchedIds c.hist, id ≤ last) ∧
    (c.goawaySent = false ∧ goaways c.hist = [] ∨
      c.goawaySent = true ∧ c.closing = true ∧
        ∃ code, goaways c.hist = [goawayFrame last code])

theorem GoawayInv.calm (h : GoawayInv c) (hc : Calm c c') : GoawayInv c' := by
  obtain ⟨last, hlast, hids, hdisp, hgo⟩ := h.promise
  refine ⟨hc.last ▸ h.bound, last, hc.last ▸ hlast, ?_, ?_, ?_⟩
  · intro st hst
    obtain ⟨s, hs, hid⟩ := hc.ids st hst
    exact hid ▸ hids s hs
  · intro id hid
    rcases hc.disp id hid with hid | ⟨s, hs, rfl⟩
    · exact hdisp id hid
    · exact hids s hs
  · rw [hc.sent, hc.closing, hc.frames]
    exact hgo

/-- A new stream id is counted, accepted or not; it is accepted only before the GOAWAY. -/
theorem GoawayInv.count (h : GoawayInv c) {id : Nat} (hid : c.lastClientId < id)
    (hb : id < 2 ^ 31) : GoawayInv (countStream c id) := by
  obtain ⟨last, hlast, hrest⟩ := h.promise
  exact ⟨hb, last, hlast.trans hid.le, hrest⟩

theorem GoawayInv.open (h : GoawayInv c) {id : Nat} (hid : c.lastClientId < id)
    (hb : id < 2 ^ 31) (hclosing : c.closing = false) :
    GoawayInv (h2StreamNew (countStream c id) id) := by
  obtain ⟨last, hlast, hids, hdisp, hgo⟩ := h.promise
  refine ⟨hb, id, Nat.le_refl _, ?_, fun i hi => ?_, .inl ?_⟩
  · intro st hst
    rcases List.mem_append.mp hst with hst | hst
    · exact (hids st hst).trans (hlast.trans hid.le)
    · rw [List.mem_singleton.mp hst]
  · exact (hdisp i hi).trans (hlast.trans hid.le)
  · rcases hgo with hgo | ⟨-, hc, -⟩
    · exact hgo
    · rw [hclosing] at hc
      cases hc

/-- The GOAWAY goes out, with the last id of that moment, and the connection is closing. -/
theorem GoawayInv.goaway (h : GoawayInv c) (code : Nat) :
    GoawayInv { qGoaway c code with closing := true } := by
  obtain ⟨last, hlast, hids, hdisp, hgo⟩ := h.promise
  unfold qGoaway
  split
  · rename_i hsent
    refine ⟨h.bound, last, hlast, hids, hdisp, .inr ⟨hsent, rfl, ?_⟩⟩
    rcases hgo with ⟨hno, -⟩ | ⟨-, -, hgo⟩
    · rw [hno] at hsent
      cases hsent
    · exact hgo
  · rename_i hsent
    refine ⟨h.bound, c.lastClientId, Nat.le_refl _, fun st hst => (hids st hst).trans hlast,
      fun id hid => (hdisp id hid).trans hlast, .inr ⟨rfl, rfl, code, ?_⟩⟩
    rcases hgo with ⟨-, hno⟩ | ⟨hs, -⟩
    · show goawayFrame c.lastClientId code :: goaways c.hist = _
      rw [hno]
    · exact absurd hs hsent

theorem GoawayInv.error (h : GoawayInv c) (code : Nat) : GoawayInv (connError c code) := by
  have hlog : GoawayInv (c.log (.error code)) := h.calm (.log rfl rfl)
  obtain ⟨hb, hp⟩ := hlog.goaway code
  exact ⟨hb, hp⟩

theorem GoawayInv.graceful (h : GoawayInv c) : GoawayInv (zh2Graceful c) :=
  h.goaway ZH2_E_NO_ERROR

/-- **One step.** -/
theorem GoawayInv.step (h : GoawayInv c) (hn : c.ids.Nodup) (hs : Step g c c') : GoawayInv c' := by
  have hrecv : ∀ f, GoawayInv (c.log (.recv f)) := fun f => h.calm (.recv f)
  have hdone : Calm c (blockDone g c) := .congr rfl rfl rfl rfl rfl
  cases hs with
  | setup => exact h.calm (.congr rfl rfl rfl rfl rfl)
  | error => exact h.error _
  | reject => exact (hrecv _).error _
  | ignore => exact hrecv _
  | goaway => exact h.calm (.congr rfl rfl rfl rfl rfl)
  | ping => exact h.calm (.congr rfl rfl rfl 
      (goaways_sent (show ZH2_FT_PING ≠ ZH2_FT_GOAWAY by decide) _) rfl)
  | @settings f w m =>
    have hshift : Calm c (retune (c.log (.recv f))
        (c.streams.map (.shift ((w : Int) - c.peerInitialWindow))) w m) := by
      refine ⟨rfl, rfl, rfl, rfl, fun st hst => ?_, fun _ hid => .inl hid⟩
      obtain ⟨s, hs, rfl⟩ := List.mem_map.mp hst
      exact ⟨s, hs, rfl⟩
    exact h.calm (hshift.trans (.frame (show ZH2_FT_SETTINGS ≠ ZH2_FT_GOAWAY by decide)))
  | @settingsFail f sts w m code _ _ hsh =>
    have hshift : Calm c (retune (c.log (.recv f)) sts w m) := by
      refine ⟨rfl, rfl, rfl, rfl, fun st hst => ?_, fun _ hid => .inl hid⟩
      obtain ⟨s, hs, hcore⟩ := mem_of_shifted hsh hst
      exact ⟨s, hs, (congrArg (·.id) hcore)⟩
    exact (h.calm hshift).error code
  | windowConn => exact h.calm (.congr rfl rfl rfl rfl rfl)
  | @windowConnError f code =>
    have hx : GoawayInv { c.log (.recv f) with sendWindow := c.sendWindow + f.incr } :=
      h.calm (.congr rfl rfl rfl rfl rfl)
    exact hx.error code
  | windowStream => exact (hrecv _).calm (.update _ fun _ => rfl)
  | windowReset =>
    exact (hrecv _).calm ((Calm.rst _ _).after (.update _ fun _ => rfl))
  | @peerReset f st n =>
    have hx : Calm c { c.log (.recv f) with rapidReset := n } :=
      ⟨rfl, rfl, rfl, rfl, fun st hst => ⟨st, hst, rfl⟩, fun _ hid => .inl hid⟩
    exact h.calm (hx.trans (.close _))
  | @peerResetFlood f st n code =>
    have hx : Calm c { c.log (.recv f) with rapidReset := n } :=
      ⟨rfl, rfl, rfl, rfl, fun st hst => ⟨st, hst, rfl⟩, fun _ hid => .inl hid⟩
    exact (h.calm (hx.trans (.close _))).error code
  | dataClosed => exact (hrecv _).calm (.consume _)
  | dataIdle => exact ((hrecv _).calm (.consume _)).error _
  | dataReset => exact (hrecv _).calm ((Calm.rst _ _).trans (.consume _))
  | @data f st data =>
    rw [recvConsumeStream_eq]
    have hbody : Calm (c.log (.recv f)) (recvConsumeConn (appendBody (c.log (.recv f)) f.sid data)
        f.payload.length) := (Calm.consume _).after (.update _ fun _ => rfl)
    exact (hrecv f).calm (hbody.trans ((Calm.windowUpdate _ _).trans (.update _ fun _ => rfl)))
  | @dataEnd f st data =>
    have hbody : Calm (c.log (.recv f)) (recvConsumeConn (appendBody (c.log (.recv f)) f.sid data)
        f.payload.length) := (Calm.consume _).after (.update _ fun _ => rfl)
    exact (hrecv f).calm (hbody.trans ((Calm.mark _).after (.update _ fun _ => rfl)))
  | headers _ _ _ hlt _ _ hclosing hb =>
    exact ((hrecv _).open hlt hb hclosing).calm (.congr rfl rfl rfl rfl rfl)
  | headersRefused _ _ hlt hb => exact ((hrecv _).count hlt hb).calm (.congr rfl rfl rfl rfl rfl)
  | headersTrailer => exact h.calm (.congr rfl rfl rfl rfl rfl)
  | continuation => exact h.calm (.congr rfl rfl rfl rfl rfl)
  | @continuationFlood f code =>
    have hx : GoawayInv { c.log (.recv f) with contCount := c.contCount + 1 } :=
      h.calm (.congr rfl rfl rfl rfl rfl)
    exact hx.error code
  | accumulate => exact h.calm (.congr rfl rfl rfl rfl rfl)
  | blockError => exact (h.calm hdone).error _
  | blockReset => exact h.calm (hdone.trans (.rst _ _))
  | blockRefused =>
    exact h.calm (hdone.trans (.frame (show ZH2_FT_RST_STREAM ≠ ZH2_FT_GOAWAY by decide)))
  | blockHead => exact h.calm (hdone.trans (.update _ fun _ => rfl))
  | blockHeadEnd => exact h.calm (hdone.trans ((Calm.mark _).after (.update _ fun _ => rfl)))
  | blockTrailer => exact h.calm (hdone.trans ((Calm.mark _).after (.update _ fun _ => rfl)))
  | respond hst _ hresp =>
    rw [zh2Respond_eq hst hresp]
    refine h.calm (Calm.trans (.log rfl rfl) ((Calm.frames_foldl _ fun f hf => ?_).trans
      (.update _ fun _ => rfl)))
    rcases (respFrames_type hf).1 with hty | hty
    · rw [hty]
      decide
    · rw [hty]
      decide
  | release => exact h.calm (.update _ fun _ => rfl)
  | reap hst =>
    rw [streamClose_eq_closeById hn hst]
    exact h.calm (.close _)
  | @pump i st =>
    rw [pumpData_eq]
    have hsent := (Calm.frame (c := c) (f := dataFrame st (pumpChunk g c st))
      (show ZH2_FT_DATA ≠ ZH2_FT_GOAWAY by decide)).trans (.update st.id
      (f := .sentData (st.bodyOff + pumpChunk g c st = st.respBody.length) (pumpChunk g c st))
      fun _ => rfl)
    exact h.calm (hsent.trans (.congr rfl rfl rfl rfl rfl))
  | graceful => exact h.graceful
  | drain => exact h.calm (.congr rfl rfl rfl rfl rfl)

theorem Run.goaway (h : Run g c) : GoawayInv c := by
  refine h.induct (P := fun c => GoawayInv c) ?_ fun c c' hrun hi hs => ?_
  · refine ⟨Nat.two_pow_pos 31, 0, Nat.le_refl _, fun _ hst => ?_, fun _ hid => ?_, .inl ⟨rfl, rfl⟩⟩
    · cases hst
    · cases hid
  · exact hi.step hrun.table.1.nodup hs

/-- **A GOAWAY is honest**: at most one is ever sent, and no stream above the id it carries is
dispatched, before or after it. -/
theorem zh2_goaway_honest (h : Reachable g c) :
    (goaways c.hist).length ≤ 1 ∧
      ∀ f ∈ goaways c.hist, ∀ id ∈ dispatchedIds c.hist, id ≤ f.lastStreamId := by
  obtain ⟨hb, last, hlast, -, hdisp, hgo⟩ := h.run.goaway
  rcases hgo with ⟨-, hno⟩ | ⟨-, -, code, hone⟩
  · rw [hno]
    exact ⟨Nat.zero_le _, nofun⟩
  · rw [hone]
    refine ⟨Nat.le_refl _, fun f hf id hid => ?_⟩
    rw [List.mem_singleton.mp hf, lastStreamId_goawayFrame (hlast.trans_lt hb)]
    exact hdisp id hid

/-- A GET on stream 1, a graceful shutdown, and a GET on stream 3 that comes too late. -/
theorem zh2_goaway_honest_late :
    let c := (zh2Feed .silent (zh2Graceful (silentFeed [getRequest]))
      { getRequest with sid := 3 }.bytes).2.1
    (goaways c.hist).map (·.lastStreamId) = [1] ∧ dispatchedIds c.hist = [1] ∧
      ∀ f ∈ goaways c.hist, ∀ id ∈ dispatchedIds c.hist, id ≤ f.lastStreamId := by
  intro c
  have hreach : Reachable .silent c := (reachable_silentFeed [getRequest]).graceful.feed _
  exact ⟨by decide +kernel, by decide +kernel, (zh2_goaway_honest hreach).2⟩

end Zcio
