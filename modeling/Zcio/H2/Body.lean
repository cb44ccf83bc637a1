import Zcio.H2.Requests

/-!
# Zcio.H2.Body

The body of an HTTP/2 request is what the DATA frames of its stream carried, less their
padding, up to the dispatch. `dataOn` reads that off the history of the connection;
`BodyInv` says that a request still in the table has been given all of it so far.
-/

namespace Zcio

/-- What an event adds to the body on stream `id`: the octets of a DATA frame. -/
def bodyOctets (id : Nat) : H2Event → Bytes
  | .recv f =>
    if f.type = ZH2_FT_DATA ∧ f.sid = id then (stripData f.flags f.payload).getD [] else []
  | _ => []

/-- The octets that DATA frames carried on stream `id`. -/
def dataOn (id : Nat) : List H2Event → Bytes
  | [] => []
  | e :: h => dataOn id h ++ bodyOctets id e

/-- The requests dispatched, each with the DATA octets its stream had carried by then. -/
def carried : List H2Event → List (HttpReq × Bytes)
  | [] => []
  | .dispatched id req :: h => (req, dataOn id h) :: carried h
  | _ :: h => carried h

/-! ### Histories

The DATA of a stream, and what was handed over of it, read off the history. -/

section

variable {id : Nat} {h : List H2Event}

@[simp] theorem dataOn_sent (f : Frame) : dataOn id (.sent f :: h) = dataOn id h :=
  List.append_nil _
@[simp] theorem dataOn_error (code : Nat) : dataOn id (.error code :: h) = dataOn id h :=
  List.append_nil _
@[simp] theorem dataOn_block (t : Bool) (b : Bytes) : dataOn id (.block t b :: h) = dataOn id h :=
  List.append_nil _
@[simp] theorem dataOn_dispatched (i : Nat) (req : HttpReq) :
    dataOn id (.dispatched i req :: h) = dataOn id h :=
  List.append_nil _
@[simp] theorem dataOn_responded (i status : Nat) (isHead : Bool) (hdrs : List (Bytes × Bytes))
    (body : RespBody) : dataOn id (.responded i isHead status hdrs body :: h) = dataOn id h :=
  List.append_nil _

@[simp] theorem carried_recv (f : Frame) : carried (.recv f :: h) = carried h := rfl
@[simp] theorem carried_sent (f : Frame) : carried (.sent f :: h) = carried h := rfl
@[simp] theorem carried_error (code : Nat) : carried (.error code :: h) = carried h := rfl
@[simp] theorem carried_block (t : Bool) (b : Bytes) : carried (.block t b :: h) = carried h := rfl
@[simp] theorem carried_responded (i status : Nat) (isHead : Bool) (hdrs : List (Bytes × Bytes))
    (body : RespBody) : carried (.responded i isHead status hdrs body :: h) = carried h := rfl

/-- A frame of another type carries no body. -/
theorem dataOn_recv {f : Frame} (hty : f.type ≠ ZH2_FT_DATA) :
    dataOn id (.recv f :: h) = dataOn id h := by
  rw [dataOn, bodyOctets, if_neg fun hf => hty hf.1, List.append_nil]

theorem dataOn_recv_of_ne {f : Frame} (hsid : f.sid ≠ id) :
    dataOn id (.recv f :: h) = dataOn id h := by
  rw [dataOn, bodyOctets, if_neg fun hf => hsid hf.2, List.append_nil]

theorem dataOn_recv_data {f : Frame} {data : Bytes} (hty : f.type = ZH2_FT_DATA)
    (hdata : stripData f.flags f.payload = some data) :
    dataOn f.sid (.recv f :: h) = dataOn f.sid h ++ data := by
  rw [dataOn, bodyOctets, if_pos ⟨hty, rfl⟩, hdata, Option.getD_some]

theorem carried_dispatches : (carried h).map (·.1) = (dispatches h).map (·.2) := by
  induction h with
  | nil => rfl
  | cons e h ih =>
    cases e with
    | dispatched id req => exact congrArg (req :: ·) ih
    | _ => exact ih

/-- Frames sent leave both as they are. -/
@[simp] theorem dataOn_ite_sent (p : Prop) [Decidable p] (f : Frame) :
    dataOn id ((if p then [] else [.sent f]) ++ h) = dataOn id h := by
  split
  · rfl
  · exact dataOn_sent f

@[simp] theorem carried_ite_sent (p : Prop) [Decidable p] (f : Frame) :
    carried ((if p then [] else [.sent f]) ++ h) = carried h := by
  split
  · rfl
  · rfl

theorem track_foldl_h2Frame (fs : List Frame) (c : Zh2Conn) :
    dataOn id (fs.foldl h2Frame c).hist = dataOn id c.hist ∧
      carried (fs.foldl h2Frame c).hist = carried c.hist := by
  induction fs generalizing c with
  | nil => exact ⟨rfl, rfl⟩
  | cons f fs ih =>
    obtain ⟨hdata, hcarried⟩ := ih (h2Frame c f)
    exact ⟨hdata.trans (dataOn_sent f), hcarried⟩

end

/-! ### The invariant

The body of a stream in the table is the DATA received on it, with the padding taken off. -/

/-- **The invariant**: a request in the table has the body received so far, a stream that is
still to come has none, and so it was when a request was dispatched. Behind a connection
error nothing is dispatched any more. -/
structure BodyInv (c : Zh2Conn) : Prop where
  streams : c.gotError = false →
    ∀ st ∈ c.streams, st.dispatched = false → st.req.body = dataOn st.id c.hist
  fresh : c.gotError = false → ∀ id, c.lastClientId < id → dataOn id c.hist = []
  log : ∀ p ∈ carried c.hist, p.1.body = p.2

variable {g : H2Cfg} {c c' : Zh2Conn}

/-- Behind a connection error only the log counts. -/
theorem BodyInv.failed (h : BodyInv c) (he : c'.gotError = true)
    (hd : carried c'.hist = carried c.hist) : BodyInv c' := by
  refine ⟨fun hc => ?_, fun hc => ?_, by rw [hd]; exact h.log⟩
  · rw [he] at hc
    cases hc
  · rw [he] at hc
    cases hc

/-- Steps that touch no request. -/
theorem BodyInv.keep (h : BodyInv c) (he : c'.gotError = c.gotError)
    (hs : ∀ st ∈ c'.streams, ∃ s ∈ c.streams, s.SameReq st)
    (hl : c'.lastClientId = c.lastClientId)
    (hx : ∀ id, dataOn id c'.hist = dataOn id c.hist ∧ carried c'.hist = carried c.hist) :
    BodyInv c' := by
  refine ⟨fun hc st hst hdisp => ?_, fun hc id hid => ?_, ?_⟩
  · obtain ⟨s, hmem, hid, -, hdi, hr⟩ := hs st hst
    rw [hr, hid, (hx _).1]
    exact h.streams (he ▸ hc) s hmem (hdi ▸ hdisp)
  · rw [(hx id).1]
    exact h.fresh (he ▸ hc) id (hl ▸ hid)
  · rw [(hx 0).2]
    exact h.log

/-- A frame that carries no body. -/
theorem BodyInv.recv (h : BodyInv c) {f : Frame} (hty : f.type ≠ ZH2_FT_DATA) :
    BodyInv (c.log (.recv f)) :=
  h.keep rfl (fun st hst => ⟨st, hst, .refl st⟩) rfl fun _ => ⟨dataOn_recv hty, rfl⟩

/-- DATA on a stream that is no longer there. -/
theorem BodyInv.recvClosed (h : BodyInv c) {f : Frame} (hle : f.sid ≤ c.lastClientId)
    (hno : ∀ st ∈ c.streams, st.id ≠ f.sid) : BodyInv (c.log (.recv f)) := by
  refine ⟨fun hc st hst hdisp => ?_, fun hc id hid => ?_, h.log⟩
  · rw [Zh2Conn.log, dataOn_recv_of_ne (hno st hst).symm]
    exact h.streams hc st hst hdisp
  · have hne : f.sid ≠ id := by
      rintro rfl
      exact absurd hid (Nat.not_lt.mpr hle)
    rw [Zh2Conn.log, dataOn_recv_of_ne hne]
    exact h.fresh hc id hid

/-- DATA on a stream that is reset because of it. -/
theorem BodyInv.recvReset (h : BodyInv c) (hnd : c.ids.Nodup) {f : Frame}
    (hle : f.sid ≤ c.lastClientId) (code : Nat) :
    BodyInv (rstStream (c.log (.recv f)) f.sid code) := by
  have hframe := rstStream_frame (c.log (.recv f)) f.sid code
  have hlast : (rstStream (c.log (.recv f)) f.sid code).lastClientId = c.lastClientId := by
    simp
  refine ⟨fun hc st hst hdisp => ?_, fun hc id hid => ?_, ?_⟩
  · rw [congrArg (·.streams) hframe.2.1] at hst
    obtain ⟨hmem, hne⟩ := (mem_closeById (c := c.log (.recv f)) hnd).mp hst
    rw [hframe.1, dataOn_sent, Zh2Conn.log, dataOn_recv_of_ne hne.symm]
    exact h.streams (by simpa using hc) st hmem hdisp
  · have hne : f.sid ≠ id := by
      rintro rfl
      exact absurd hid (Nat.not_lt.mpr (hlast ▸ hle))
    rw [hframe.1, dataOn_sent, Zh2Conn.log, dataOn_recv_of_ne hne]
    exact h.fresh (by simpa using hc) id (hlast ▸ hid)
  · rw [hframe.1, carried_sent]
    exact h.log

/-- **DATA on an open stream**: what the frame carries goes to the end of the body. -/
theorem BodyInv.appendBody (h : BodyInv c) {f : Frame} {data : Bytes}
    (hle : f.sid ≤ c.lastClientId) (hty : f.type = ZH2_FT_DATA)
    (hdata : stripData f.flags f.payload = some data) :
    BodyInv (Zcio.appendBody (c.log (.recv f)) f.sid data) := by
  refine ⟨fun hc st hst hdisp => ?_, fun hc id hid => ?_, h.log⟩
  · change st.req.body = dataOn st.id (.recv f :: c.hist)
    obtain ⟨s, hs, rfl⟩ := mem_updateStream.mp hst
    split at hdisp
    · rename_i heq
      rw [if_pos heq]
      dsimp only
      rw [h.streams hc s hs hdisp, heq, dataOn_recv_data hty hdata]
    · rename_i hne
      rw [if_neg hne, dataOn_recv_of_ne fun he => hne he.symm]
      exact h.streams hc s hs hdisp
  · have hne : f.sid ≠ id := by
      rintro rfl
      exact absurd hid (Nat.not_lt.mpr hle)
    change dataOn id (.recv f :: c.hist) = []
    rw [dataOn_recv_of_ne hne]
    exact h.fresh hc id hid

theorem BodyInv.update (h : BodyInv c) (id : Nat) {f : Zh2Stream → Zh2Stream}
    (hf : ∀ s : Zh2Stream, s.SameReq (f s)) : BodyInv (updateStream c id f) :=
  h.keep rfl (sameReq_update id hf) rfl fun _ => ⟨rfl, rfl⟩

theorem BodyInv.close (h : BodyInv c) (id : Nat) : BodyInv (closeById c id) :=
  h.keep (by simp) (sameReq_close id) (by simp) fun _ => by simp

/-- The table as it was. -/
theorem BodyInv.congr (h : BodyInv c) (he : c'.gotError = c.gotError)
    (ht : c'.toZh2Table = c.toZh2Table)
    (hx : ∀ id, dataOn id c'.hist = dataOn id c.hist ∧ carried c'.hist = carried c.hist) :
    BodyInv c' := by
  have hs : c'.streams = c.streams := congrArg (·.streams) ht
  exact h.keep he (fun st hst => ⟨st, hs ▸ hst, .refl st⟩) (congrArg (·.lastClientId) ht) hx

theorem BodyInv.rst (h : BodyInv c) (id code : Nat) : BodyInv (rstStream c id code) :=
  BodyInv.close (c := qRst c id code) (h.congr (by simp) (by simp) fun _ => by simp) id

theorem BodyInv.consume (h : BodyInv c) (len : Nat) : BodyInv (recvConsumeConn c len) :=
  h.congr (by simp) (by simp) fun _ => by simp

/-- A request completes: the body that is dispatched is all that was carried. -/
theorem BodyInv.mark (h : BodyInv c) (he : c.gotError = false) (id : Nat)
    {f : Zh2Stream → Zh2Stream} (hid : ∀ s, (f s).id = s.id)
    (hf : ∀ s ∈ c.streams, s.id = id → (f s).req.body = dataOn id c.hist) :
    BodyInv (h2Mark g (updateStream c id f) id) := by
  have hframe := h2Mark_frame (g := g) (updateStream c id f) id
  have hhist := h2Mark_hist (g := g) (updateStream c id f) id
  have hdata : ∀ i, dataOn i (h2Mark g (updateStream c id f) id).hist = dataOn i c.hist := by
    intro i
    rcases hhist with hh | ⟨st, -, -, hh⟩
    · rw [hh, (updateStream_frame c id f).1]
    · rw [hh, dataOn_dispatched, (updateStream_frame c id f).1]
  refine ⟨fun _ st hst hdisp => ?_, fun _ i hi => ?_, ?_⟩
  · rw [hdata]
    obtain ⟨s, hs, rfl⟩ := mem_updateStream.mp (h2Mark_undispatched hst hdisp)
    split at hdisp
    · rename_i heq
      rw [if_pos heq, hid, hf s hs heq, heq]
    · rename_i hne
      rw [if_neg hne]
      exact h.streams he s hs hdisp
  · rw [hdata]
    simp only [hframe, updateStream_frame] at hi
    exact h.fresh he i hi
  · rcases hhist with hh | ⟨st, hst, -, hh⟩
    · rw [hh, (updateStream_frame c id f).1]
      exact h.log
    · rw [hh, carried, (updateStream_frame c id f).1]
      intro p hp
      rcases List.mem_cons.mp hp with rfl | hp
      · obtain ⟨hmem, hstid⟩ := findStream_some hst
        obtain ⟨s, hs, rfl⟩ := mem_updateStream.mp hmem
        split at hstid
        · rename_i heq
          rw [if_pos heq]
          exact hf s hs heq
        · rename_i hne
          exact absurd hstid hne
      · exact h.log p hp

/-- **One step.** -/
theorem BodyInv.step (h : BodyInv c) (ht : TableInv g c) (hh : HdrInv g c)
    (hs : Step g c c') : BodyInv c' := by
  have hdone : BodyInv (blockDone g c) := h.congr rfl rfl fun _ => by simp
  -- the request on the stream of the block is still in the table
  have htarget : ∀ {id : Nat}, c.hdrActive = true → c.hdrStream = some id → c.gotError = false →
      ∃ st, findStream c id = some st ∧ st.req.body = dataOn id c.hist ∧
        ∀ s ∈ c.streams, s.id = id → s = st := by
    intro id ha hid he
    obtain ⟨st, hst, hopen⟩ := hh.findTarget ht.nodup ha hid
    obtain ⟨hmem, hstid⟩ := findStream_some hst
    refine ⟨st, hst, ?_, fun s hs hsid => eq_of_mem_of_id ht.nodup hs hmem (hsid.trans hstid.symm)⟩
    rw [← hstid]
    exact h.streams he st hmem ((ht.ok st hmem).ended.trans hopen)
  cases hs with
  | setup => exact h.congr rfl rfl fun _ => ⟨rfl, rfl⟩
  | error => exact h.failed (by simp) (by simp)
  | reject => exact h.failed (by simp) (by simp)
  | ignore _ hinert => exact h.recv hinert.notData
  | goaway _ hty =>
    exact (h.recv (by rw [hty]; decide)).congr rfl rfl fun _ => ⟨rfl, rfl⟩
  | ping _ hty => exact (h.recv (by rw [hty]; decide)).congr rfl rfl fun _ => by simp
  | @settings f w m _ hty =>
    refine (h.recv (f := f) (by rw [hty]; decide)).keep rfl (fun st hst => ?_) rfl fun _ => by simp
    obtain ⟨s, hs, rfl⟩ := List.mem_map.mp hst
    exact ⟨s, hs, rfl, rfl, rfl, rfl⟩
  | settingsFail => exact h.failed (by simp) (by simp)
  | windowConn _ hty =>
    exact (h.recv (by rw [hty]; decide)).congr rfl rfl fun _ => ⟨rfl, rfl⟩
  | windowConnError => exact h.failed (by simp) (by simp)
  | windowStream _ hty =>
    exact (h.recv (by rw [hty]; decide)).update _ fun _ => ⟨rfl, rfl, rfl, rfl⟩
  | windowReset code _ hty =>
    refine BodyInv.rst (BodyInv.update (h.recv (by rw [hty]; decide)) _ ?_) _ code
    exact fun _ => ⟨rfl, rfl, rfl, rfl⟩
  | @peerReset f st n _ hty =>
    refine BodyInv.close ?_ f.sid
    exact (h.recv (by rw [hty]; decide)).keep rfl (fun st hst => ⟨st, hst, .refl st⟩) rfl
      fun _ => ⟨rfl, rfl⟩
  | peerResetFlood => exact h.failed (by simp) (by simp)
  | dataClosed _ _ _ hno hle => exact (h.recvClosed hle (findStream_none hno)).consume _
  | dataIdle => exact h.failed (by simp) (by simp)
  | @dataReset f st code hb hty _ hst =>
    obtain ⟨hstmem, hstid⟩ := findStream_some hst
    exact (h.recvReset ht.nodup (hstid ▸ ht.le_last st hstmem) code).consume _
  | @data f st data hb hty _ hst hopen hgot _ _ _ hdata =>
    obtain ⟨hstmem, hstid⟩ := findStream_some hst
    rw [recvConsumeStream_eq]
    have hbody := h.appendBody (hstid ▸ ht.le_last st hstmem) hty hdata
    refine BodyInv.update ((hbody.consume f.payload.length).congr ?_ ?_ fun _ => ?_) _
      fun _ => ⟨rfl, rfl, rfl, rfl⟩
    · simp
    · simp
    · simp
  | @dataEnd f st data hb hty _ hst hopen hgot _ _ hdata =>
    obtain ⟨hstmem, hstid⟩ := findStream_some hst
    have hbody := (h.appendBody (hstid ▸ ht.le_last st hstmem) hty hdata).consume f.payload.length
    refine hbody.mark ?_ f.sid (fun _ => rfl) fun s hs hsid => ?_
    · simpa [Zcio.appendBody] using hb.1
    · have hs' : s ∈ (Zcio.appendBody (c.log (.recv f)) f.sid data).streams := by simpa using hs
      have hdisp : s.dispatched = false := by
        obtain ⟨t, htmem, rfl⟩ := mem_updateStream.mp hs'
        split at hsid
        · rename_i heq
          cases eq_of_mem_of_id ht.nodup htmem hstmem (heq.trans hstid.symm)
          rw [if_pos heq]
          exact (ht.ok st hstmem).ended.trans hopen
        · rename_i hne
          exact absurd hsid hne
      have hall := hbody.streams (by simpa [Zcio.appendBody] using hb.1) s hs hdisp
      rwa [hsid] at hall
  | @headers f hb hty _ hlt =>
    have hnew := h.recv (f := f) (by rw [hty]; decide)
    refine ⟨fun he st hst hdisp => ?_, fun he id hid => ?_, hnew.log⟩
    · rcases List.mem_append.mp hst with hst | hst
      · exact hnew.streams he st hst hdisp
      · rw [List.mem_singleton.mp hst]
        exact (hnew.fresh he f.sid hlt).symm
    · exact hnew.fresh he id (hlt.trans hid)
  | @headersRefused f hb hty hlt =>
    have hnew := h.recv (f := f) (by rw [hty]; decide)
    exact ⟨hnew.streams, fun he id hid => hnew.fresh he id (hlt.trans hid), hnew.log⟩
  | @headersTrailer f st hb hty =>
    exact (h.recv (f := f) (by rw [hty]; decide)).congr rfl rfl fun _ => ⟨rfl, rfl⟩
  | @continuation f _ _ hty =>
    exact (h.recv (f := f) (by rw [hty]; decide)).congr rfl rfl fun _ => ⟨rfl, rfl⟩
  | continuationFlood => exact h.failed (by simp) (by simp)
  | accumulate => exact h.congr rfl rfl fun _ => ⟨rfl, rfl⟩
  | blockError => exact h.failed (by simp) (by simp)
  | blockReset => exact hdone.rst _ _
  | blockRefused => exact hdone.congr (by simp) (by simp) fun _ => by simp
  | @blockHead id body req ha _ _ hid _ hbody hhead he =>
    obtain ⟨st, hst, hall, -⟩ := htarget ha hid he
    rw [hst, Option.elim_some, hall] at hbody
    refine ⟨fun he st hst hdisp => ?_, hdone.fresh, hdone.log⟩
    obtain ⟨s, hs, rfl⟩ := mem_updateStream.mp hst
    split at hdisp
    · rename_i heq
      rw [if_pos heq]
      change req.body = dataOn s.id (.block c.hdrTrailer c.hdrBlock :: c.hist)
      rw [h2Head_body hhead, hbody, heq, dataOn_block]
    · rename_i hne
      rw [if_neg hne]
      exact hdone.streams he s hs hdisp
  | @blockHeadEnd id body req ha _ _ hid _ hbody hhead he =>
    obtain ⟨st, hst, hall, -⟩ := htarget ha hid he
    rw [hst, Option.elim_some, hall] at hbody
    refine hdone.mark he id (fun _ => rfl) fun s hs hsid => ?_
    rw [h2Head_body hhead, hbody, (blockDone_frame c).1, dataOn_block]
  | @blockTrailer id ha _ _ hid htr he =>
    obtain ⟨st, hst, hall, honly⟩ := htarget ha hid he
    refine hdone.mark he id (fun _ => rfl) fun s hs hsid => ?_
    cases honly s hs hsid
    rw [(blockDone_frame c).1, dataOn_block]
    exact hall
  | @respond id st isHead status hdrs body hst hdisp hresp =>
    rw [zh2Respond_eq hst hresp]
    refine BodyInv.update (h.congr ?_ ?_ fun i => ?_) _ fun _ => ⟨rfl, rfl, rfl, rfl⟩
    · simp
    · simp
    · obtain ⟨hdata, hcarried⟩ := @track_foldl_h2Frame i (respFrames c id isHead status hdrs body)
        (c.log (.responded id isHead status hdrs body))
      exact ⟨hdata.trans (dataOn_responded ..), hcarried⟩
  | @release id hall =>
    refine ⟨fun he st hst hdisp => ?_, h.fresh, h.log⟩
    obtain ⟨s, hs, rfl⟩ := mem_updateStream.mp hst
    split at hdisp
    · rename_i heq
      rw [hall s hs heq] at hdisp
      cases hdisp
    · rename_i hne
      rw [if_neg hne]
      exact h.streams he s hs hdisp
  | reap hst =>
    rw [streamClose_eq_closeById ht.nodup hst]
    exact h.close _
  | @pump i st =>
    rw [pumpData_eq]
    have hframe : BodyInv (h2Frame c (dataFrame st (pumpChunk g c st))) :=
      h.congr rfl rfl fun _ => by simp
    have hsent := hframe.update st.id
      (f := .sentData (st.bodyOff + pumpChunk g c st = st.respBody.length) (pumpChunk g c st))
      fun _ => ⟨rfl, rfl, rfl, rfl⟩
    exact hsent.congr rfl rfl fun _ => ⟨rfl, rfl⟩
  | graceful => exact h.congr (by simp) (by simp) fun _ => by simp
  | drain => exact h.congr rfl rfl fun _ => ⟨rfl, rfl⟩

/-- **Every body an HTTP/2 connection hands over** is what its DATA frames carried. -/
theorem Run.bodies (h : Run g c) : BodyInv c := by
  refine h.induct (P := BodyInv) ?_ fun c c' hrun hi hs => ?_
  · exact ⟨fun _ _ hst => (List.not_mem_nil hst).elim, fun _ _ _ => rfl, fun _ hp =>
      (List.not_mem_nil hp).elim⟩
  · obtain ⟨ht, hh⟩ := hrun.table
    exact hi.step ht hh hs

end Zcio
