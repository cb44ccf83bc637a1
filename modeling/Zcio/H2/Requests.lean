import Zcio.Server.Request
import Zcio.H2.Heads

/-!
# Zcio.H2.Requests

What a request of an HTTP/2 connection is by the time it reaches the handler. `h2_emit`
checks names and limits, so every request object is assembled from the fields of its header
block; it does not look at the octets of a value, which are cut at the first NUL on their
way into the object.

Which fields these are is read off the frames received (`Zcio.H2.Heads`). The invariant carries it
from the block that opens a stream to the dispatch: a stream that has its head keeps its section,
since a block that is no trailer is on a stream that has none yet (`fresh`).
-/

namespace Zcio

/-- The authority of an HTTP/2 request: `:authority` behind its first `@`, else Host. -/
def h2Auth (r : RawReq) : Option Bytes :=
  match r.authority with
  | some a => some (afterFirst 64 (cstr a))
  | none => r.host.map cstr

theorem fromReceived_h2Auth : FromReceived h2Auth := by
  intro r hr a ha
  unfold h2Auth at ha
  unfold RawReq.received at *
  cases hauth : r.authority with
  | some x =>
    have hclean : zhsValueOk x = true := hr.authority x (by rw [RawReq.received, hauth]; rfl)
    rw [hauth] at ha
    dsimp only at ha
    rw [cstr_of_valueOk hclean] at ha
    cases ha
    exact ⟨x, rfl, lessUserinfo_afterFirst x⟩
  | none =>
    rw [hauth] at ha
    obtain ⟨x, hx, rfl⟩ := Option.map_eq_some_iff.mp ha
    have hclean : zhsValueOk x = true := hr.authority x (by rw [RawReq.received, hauth]; exact hx)
    exact ⟨x, hx, .inl (cstr_of_valueOk hclean)⟩

/-! ### The sink

What the sink holds is clean, and its limits were checked. -/

/-- What the sink of the decoder has collected. -/
structure HdrCtx.Ok (lim : ZhsLimits) (x : HdrCtx) : Prop where
  names : ∀ f ∈ x.fields, zhsLowerTokenOk f.1 = true
  headers : x.headers.v = storedFields x.fields
  count : x.headers.n ≤ lim.maxHeaders

theorem HdrCtx.Ok.of_eq {lim : ZhsLimits} {x x' : HdrCtx} (h : x.Ok lim)
    (hf : x'.fields = x.fields) (hh : x'.headers = x.headers) : x'.Ok lim := by
  obtain ⟨hn, hv, hc⟩ := h
  exact ⟨by rw [hf]; exact hn, by rw [hh, hf]; exact hv, by rw [hh]; exact hc⟩

theorem h2EmitPseudo_same (x : HdrCtx) (name value : Bytes) :
    (h2EmitPseudo x name value).1.fields = x.fields ∧
      (h2EmitPseudo x name value).1.headers = x.headers := by
  unfold h2EmitPseudo
  split
  · exact ⟨rfl, rfl⟩
  · split
    · split <;> exact ⟨rfl, rfl⟩
    · split
      · split <;> exact ⟨rfl, rfl⟩
      · split
        · split <;> exact ⟨rfl, rfl⟩
        · split
          · split <;> exact ⟨rfl, rfl⟩
          · exact ⟨rfl, rfl⟩

theorem h2EmitRegular_ok {lim : ZhsLimits} {x : HdrCtx} (h : x.Ok lim) (name value : Bytes) :
    (h2EmitRegular lim x name value).1.Ok lim := by
  unfold h2EmitRegular
  dsimp only
  split
  · exact h.of_eq rfl rfl
  · rename_i hname
    split
    · exact h.of_eq rfl rfl
    · split
      · exact h.of_eq rfl rfl
      · split
        · exact h.of_eq rfl rfl
        · split
          · exact h.of_eq rfl rfl
          · rename_i headers hadd
            have hname : zhsLowerTokenOk name = true := by simpa using hname
            obtain ⟨hv, hc⟩ := storedFields_add h.headers (zhsLowerTokenOk_token hname)
              (.inr (lower_of_lowerToken hname)) hadd
            refine ⟨?_, hv, hc⟩
            intro f hf
            rcases List.mem_append.mp hf with hf | hf
            · exact h.names f hf
            · rw [List.mem_singleton.mp hf]
              exact hname

theorem h2Emit_ok {lim : ZhsLimits} (x : HdrCtx) (name value : Bytes) (h : x.Ok lim) :
    (h2Emit lim x name value).1.Ok lim := by
  unfold h2Emit
  split
  · exact h.of_eq (h2EmitPseudo_same x name value).1 (h2EmitPseudo_same x name value).2
  · exact h2EmitRegular_ok h name value

variable {g : H2Cfg} {c c' : Zh2Conn}

theorem blockRes_ok : (blockRes g c).u.Ok g.lim :=
  zhpDecode_sink (I := HdrCtx.Ok g.lim) (fun u n v hu => h2Emit_ok u n v hu) _ _ _
    ⟨nofun, rfl, Nat.zero_le _⟩

/-! ### The head

The request made of a section, with the fields it was made of. -/

/-- The head of a request, assembled from the fields of its block. -/
structure H2Head (lim : ZhsLimits) (req : HttpReq) : Prop where
  assembled : Assembled lim h2Auth req
  method : zhsTokenOk (cstr req.raw.method) = true
  lowerNames : ∀ f ∈ req.raw.fields, zhsLowerTokenOk f.1 = true

theorem h2Head_ok {x : HdrCtx} {body : Bytes} {req : HttpReq} (hx : x.Ok g.lim)
    (h : h2Head g x body = some req) : H2Head g.lim req := by
  unfold h2Head at h
  split at h
  · rename_i method scheme target hmethod hscheme htarget
    split at h
    · cases h
    · rename_i htok
      split at h
      · cases h
      · rename_i path query hdec
        cases h
        refine ⟨⟨rfl, rfl, ⟨path, rfl, hdec⟩, ?_, ?_, hx.headers, hx.count⟩, by simpa using htok,
          hx.names⟩
        · unfold h2Auth
          cases hauth : x.authority with
          | some a => rfl
          | none => exact get_host hx.headers
        · exact fun f hf => zhsLowerTokenOk_token (hx.names f hf)
  · cases h

theorem H2Head.withBody {lim : ZhsLimits} {req : HttpReq} (h : H2Head lim req) (b : Bytes) :
    H2Head lim { req with body := b } := by
  obtain ⟨⟨hm, hh, ht, ha, hn, hv, hc⟩, htok, hlow⟩ := h
  exact ⟨⟨hm, hh, ht, ha, hn, hv, hc⟩, htok, hlow⟩

theorem H2Head.request {st : Zh2Stream} (h : H2Head g.lim st.req) :
    H2Head g.lim (h2Request g st) := by
  obtain ⟨⟨hm, hh, ht, ha, hn, hv, hc⟩, htok, hlow⟩ := h
  exact ⟨⟨hm, hh, ht, ha, hn, hv, hc⟩, htok, hlow⟩

/-! ### The invariant

Every stream that has its head holds a request that came from a section. -/

/-- The head of a request, made of the field section `ws`. -/
structure Opened (lim : ZhsLimits) (ws : Option WireSection) (req : HttpReq) : Prop where
  head : H2Head lim req
  raw : ∃ s, ws = some s ∧ (s.InStep lim → s.fields.map sectionRaw = some req.raw)

theorem Opened.withBody {lim : ZhsLimits} {ws : Option WireSection} {req : HttpReq}
    (h : Opened lim ws req) (b : Bytes) : Opened lim ws { req with body := b } :=
  ⟨h.head.withBody b, h.raw⟩

theorem Opened.request {ws : Option WireSection} {st : Zh2Stream} (h : Opened g.lim ws st.req) :
    Opened g.lim ws (h2Request g st) :=
  ⟨h.head.request, h.raw⟩

/-- A stream that waits for the end of its request has the head of it. -/
def Zh2Stream.Headed (lim : ZhsLimits) (h : List H2Event) (st : Zh2Stream) : Prop :=
  st.gotHeaders = true → st.dispatched = false → Opened lim (sectionOn st.id h) st.req

/-- A stream's request as it was: the table may have changed in everything else. -/
def Zh2Stream.SameReq (s st : Zh2Stream) : Prop :=
  st.id = s.id ∧ st.gotHeaders = s.gotHeaders ∧ st.dispatched = s.dispatched ∧ st.req = s.req

theorem Zh2Stream.SameReq.refl (s : Zh2Stream) : s.SameReq s := ⟨rfl, rfl, rfl, rfl⟩

/-- **The invariant**: of the streams, of a trailer block in progress and of the requests
dispatched. -/
structure H2ReqInv (g : H2Cfg) (c : Zh2Conn) : Prop where
  streams : ∀ st ∈ c.streams, st.Headed g.lim c.hist
  trailer : c.hdrActive = true → c.hdrTrailer = true →
    ∀ st ∈ c.streams, c.hdrStream = some st.id → st.gotHeaders = true
  fresh : c.hdrActive = true → c.hdrTrailer = false → ∀ st ∈ c.streams, st.id = c.hdrId → st.gotHeaders = false
  log : ∀ p ∈ handedOf c.hist, Opened g.lim p.2 p.1

/-- A step that gives no stream a head says nothing new of a block in progress. -/
theorem H2ReqInv.sameBlock (h : H2ReqInv g c)
    (hs : ∀ st ∈ c'.streams, ∃ s ∈ c.streams, st.id = s.id ∧ st.gotHeaders = s.gotHeaders)
    (hh : c'.hdrActive = false ∨ c'.hdrActive = c.hdrActive ∧ c'.hdrTrailer = c.hdrTrailer ∧
      c'.hdrStream = c.hdrStream ∧ c'.hdrId = c.hdrId)
    (hstreams : ∀ st ∈ c'.streams, st.Headed g.lim c'.hist)
    (hlog : ∀ p ∈ handedOf c'.hist, Opened g.lim p.2 p.1) : H2ReqInv g c' := by
  refine ⟨hstreams, ?_, ?_, hlog⟩
  · intro ha htr st hst hid
    rcases hh with hidle | ⟨hact, htrail, hstream, -⟩
    · rw [hidle] at ha
      cases ha
    · obtain ⟨s, hmem, hsid, hg⟩ := hs st hst
      rw [hg]
      exact h.trailer (hact ▸ ha) (htrail ▸ htr) s hmem (by rw [← hstream, ← hsid]; exact hid)
  · intro ha htr st hst hid
    rcases hh with hidle | ⟨hact, htrail, -, hsame⟩
    · rw [hidle] at ha
      cases ha
    · obtain ⟨s, hmem, hsid, hg⟩ := hs st hst
      rw [hg]
      exact h.fresh (hact ▸ ha) (htrail ▸ htr) s hmem (by rw [← hsame, ← hsid]; exact hid)

/-- Steps that touch no request. -/
theorem H2ReqInv.keep (h : H2ReqInv g c)
    (hs : ∀ st ∈ c'.streams, ∃ s ∈ c.streams, s.SameReq st)
    (hh : c'.hdrActive = false ∨ c'.hdrActive = c.hdrActive ∧ c'.hdrTrailer = c.hdrTrailer ∧
      c'.hdrStream = c.hdrStream ∧ c'.hdrId = c.hdrId)
    (hd : SameHeads c.hist c'.hist) : H2ReqInv g c' := by
  refine h.sameBlock (fun st hst => ?_) hh (fun st hst hgot hdisp => ?_) (by rw [hd.handed]; exact h.log)
  · obtain ⟨s, hmem, hid, hg, -, -⟩ := hs st hst
    exact ⟨s, hmem, hid, hg⟩
  · obtain ⟨s, hmem, hid, hg, hdi, hr⟩ := hs st hst
    rw [hd.sectionOn, hid, hr]
    exact h.streams s hmem (hg ▸ hgot) (hdi ▸ hdisp)

/-- The table as it was. -/
theorem H2ReqInv.congr (h : H2ReqInv g c) (ht : c'.toZh2Table = c.toZh2Table)
    (hh : c'.hdrActive = false ∨ c'.hdrActive = c.hdrActive ∧ c'.hdrTrailer = c.hdrTrailer ∧
      c'.hdrStream = c.hdrStream ∧ c'.hdrId = c.hdrId)
    (hd : SameHeads c.hist c'.hist) : H2ReqInv g c' := by
  have hs : c'.streams = c.streams := congrArg (·.streams) ht
  exact h.keep (fun st hst => ⟨st, hs ▸ hst, .refl st⟩) hh hd

/-- A write to a stream that leaves its request alone. -/
theorem sameReq_update (id : Nat) {f : Zh2Stream → Zh2Stream} (hf : ∀ s : Zh2Stream, s.SameReq (f s)) :
    ∀ st ∈ (updateStream c id f).streams, ∃ s ∈ c.streams, s.SameReq st := by
  intro st hst
  obtain ⟨s, hs, rfl⟩ := mem_updateStream.mp hst
  refine ⟨s, hs, ?_⟩
  split
  · exact hf s
  · exact .refl s

/-- A stream leaves the table. -/
theorem sameReq_close (id : Nat) :
    ∀ st ∈ (closeById c id).streams, ∃ s ∈ c.streams, s.SameReq st := by
  intro st hst
  refine ⟨st, ?_, .refl st⟩
  unfold closeById at hst
  split at hst
  · rename_i i hi
    obtain ⟨s, hs, -⟩ := findIndex_some hi
    exact Lib.mem_of_mem_swapRemove (List.getElem?_eq_some_iff.mp hs).1 hst
  · exact hst

theorem sameReq_of_shifted {sts : List Zh2Stream} (hsh : Shifted c.streams sts) :
    ∀ st ∈ sts, ∃ s ∈ c.streams, s.SameReq st := by
  intro st hst
  obtain ⟨s, hs, hcore⟩ := mem_of_shifted hsh hst
  exact ⟨s, hs, (congrArg (·.id) hcore).symm, (congrArg (·.gotHeaders) hcore).symm,
    (congrArg (·.dispatched) hcore).symm, (congrArg (·.req) hcore).symm⟩

theorem H2ReqInv.update (h : H2ReqInv g c) (id : Nat) {f : Zh2Stream → Zh2Stream}
    (hf : ∀ s : Zh2Stream, s.SameReq (f s)) : H2ReqInv g (updateStream c id f) :=
  h.keep (sameReq_update id hf) (.inr ⟨rfl, rfl, rfl, rfl⟩) ⟨rfl, rfl⟩

theorem H2ReqInv.close (h : H2ReqInv g c) (id : Nat) : H2ReqInv g (closeById c id) :=
  h.keep (sameReq_close id) (.inr (by simp)) (by simp)

theorem H2ReqInv.rst (h : H2ReqInv g c) (id code : Nat) : H2ReqInv g (rstStream c id code) :=
  H2ReqInv.close (c := qRst c id code) (h.congr (by simp) (.inr (by simp)) (by simp)) id

theorem H2ReqInv.consume (h : H2ReqInv g c) (len : Nat) : H2ReqInv g (recvConsumeConn c len) :=
  h.congr (by simp) (.inr (by simp)) (by simp)

theorem H2ReqInv.error (h : H2ReqInv g c) (code : Nat) : H2ReqInv g (connError c code) :=
  h.congr (by simp) (.inr (by simp)) (by simp)

/-- A write to a stream that gives it no head. -/
theorem sameHead_update (id : Nat) {f : Zh2Stream → Zh2Stream}
    (hf : ∀ s : Zh2Stream, (f s).id = s.id ∧ (f s).gotHeaders = s.gotHeaders) :
    ∀ st ∈ (updateStream c id f).streams, ∃ s ∈ c.streams, st.id = s.id ∧ st.gotHeaders = s.gotHeaders := by
  intro st hst
  obtain ⟨s, hs, rfl⟩ := mem_updateStream.mp hst
  refine ⟨s, hs, ?_⟩
  split
  · exact hf s
  · exact ⟨rfl, rfl⟩

/-- Body octets arrive on a stream. -/
theorem H2ReqInv.appendBody (h : H2ReqInv g c) (id : Nat) (data : Bytes) :
    H2ReqInv g (Zcio.appendBody c id data) := by
  refine h.sameBlock (sameHead_update id fun _ => ⟨rfl, rfl⟩) (.inr ⟨rfl, rfl, rfl, rfl⟩) ?_ h.log
  intro st hst hgot hdisp
  obtain ⟨s, hs, rfl⟩ := mem_updateStream.mp hst
  split at hgot
  · rename_i heq
    rw [if_pos heq] at hdisp ⊢
    exact (h.streams s hs hgot hdisp).withBody _
  · rename_i hne
    rw [if_neg hne] at hdisp ⊢
    exact h.streams s hs hgot hdisp

/-- The request of a dispatched stream is released. -/
theorem H2ReqInv.release (h : H2ReqInv g c) (id : Nat)
    (hall : ∀ st ∈ c.streams, st.id = id → st.dispatched = true) :
    H2ReqInv g (updateStream c id fun st => { st with req := {} }) := by
  refine h.sameBlock (sameHead_update id fun _ => ⟨rfl, rfl⟩) (.inr ⟨rfl, rfl, rfl, rfl⟩) ?_ h.log
  intro st hst hgot hdisp
  obtain ⟨s, hs, rfl⟩ := mem_updateStream.mp hst
  split at hdisp
  · rename_i heq
    rw [hall s hs heq] at hdisp
    cases hdisp
  · rename_i hne
    rw [if_neg hne] at hgot ⊢
    exact h.streams s hs hgot hdisp

/-- A stream behind the mark is dispatched, or as it was. -/
theorem h2Mark_undispatched {id : Nat} {st : Zh2Stream} (h : st ∈ (h2Mark g c id).streams)
    (hdisp : st.dispatched = false) : st ∈ c.streams := by
  unfold h2Mark at h
  split at h
  · exact h
  · split at h
    · exact h
    · obtain ⟨s, hs, rfl⟩ := mem_updateStream.mp h
      split at hdisp
      · cases hdisp
      · rename_i hne
        rw [if_neg hne]
        exact hs

/-- A request completes on a stream that has its head. -/
theorem H2ReqInv.mark (h : H2ReqInv g c) (id : Nat) {f : Zh2Stream → Zh2Stream}
    (hidle : c.hdrActive = false) (hid : ∀ s, (f s).id = s.id)
    (hf : ∀ s ∈ c.streams, s.id = id → Opened g.lim (sectionOn id c.hist) (f s).req) :
    H2ReqInv g (h2Mark g (updateStream c id f) id) := by
  have hframe := h2Mark_frame (g := g) (updateStream c id f) id
  have hhist := h2Mark_hist (g := g) (updateStream c id f) id
  have hsection : ∀ i, sectionOn i (h2Mark g (updateStream c id f) id).hist = sectionOn i c.hist := by
    intro i
    rcases hhist with hh | ⟨st, -, -, hh⟩
    · rw [hh, (updateStream_frame c id f).1]
    · rw [hh, (updateStream_frame c id f).1]
      rfl
  refine ⟨?_, ?_, ?_, ?_⟩
  · intro st hst hgot hdisp
    rw [hsection]
    obtain ⟨s, hs, rfl⟩ := mem_updateStream.mp (h2Mark_undispatched hst hdisp)
    split at hgot
    · rename_i heq
      rw [if_pos heq, hid, heq]
      exact hf s hs heq
    · rename_i hne
      rw [if_neg hne] at hdisp ⊢
      exact h.streams s hs hgot hdisp
  · intro ha
    simp only [hframe, updateStream_frame] at ha
    rw [hidle] at ha
    cases ha
  · intro ha
    simp only [hframe, updateStream_frame] at ha
    rw [hidle] at ha
    cases ha
  · rcases hhist with hh | ⟨st, hst, -, hh⟩
    · rw [hh, (updateStream_frame c id f).1]
      exact h.log
    · rw [hh, handedOf, (updateStream_frame c id f).1]
      intro p hp
      rcases List.mem_cons.mp hp with rfl | hp
      · obtain ⟨hmem, hstid⟩ := findStream_some hst
        obtain ⟨s, hs, rfl⟩ := mem_updateStream.mp hmem
        split at hstid
        · rename_i heq
          rw [if_pos heq]
          exact (hf s hs heq).request
        · rename_i hne
          exact absurd hstid hne
      · exact h.log p hp

/-- A field block is complete: the streams that have their heads keep their sections. -/
theorem H2ReqInv.blockDone (h : H2ReqInv g c) (ha : c.hdrActive = true) (hw : c.Whole) :
    H2ReqInv g (Zcio.blockDone g c) := by
  refine ⟨fun st hst hgot hdisp => ?_, fun hactive => (by cases hactive), fun hactive => (by cases hactive), h.log⟩
  have hopened := h.streams st hst hgot hdisp
  rw [(blockDone_frame c).1]
  cases htr : c.hdrTrailer with
  | true => exact hopened
  | false =>
    have hne : c.hdrId ≠ st.id := by
      intro heq
      rw [h.fresh ha htr st hst heq.symm] at hgot
      cases hgot
    rw [sectionOn_block_ne hw.sid hne]
    exact hopened

/-- The last DATA of a request arrives: it has the head that the stream had. -/
theorem H2ReqInv.dataEnd (h : H2ReqInv g c) (hidle : c.hdrActive = false) {id len : Nat} {st : Zh2Stream}
    {data : Bytes} (hone : ∀ s ∈ c.streams, s.id = id → s = st) (hmem : st ∈ c.streams) (hid : st.id = id)
    (hgot : st.gotHeaders = true) (hdisp : st.dispatched = false) :
    H2ReqInv g (h2Mark g (updateStream (recvConsumeConn (Zcio.appendBody c id data) len) id
      fun st => { st with endStreamRecv := true }) id) := by
  refine H2ReqInv.mark ((h.appendBody id data).consume len) id ?_ (fun _ => rfl) fun s hs hsid => ?_
  · simp only [recvConsumeConn_frame]
    exact hidle
  · have hs : s ∈ (Zcio.appendBody c id data).streams := by simpa using hs
    obtain ⟨s', hs', rfl⟩ := mem_updateStream.mp hs
    split at hsid
    · rename_i heq
      cases hone s' hs' heq
      have hsame : SameHeads c.hist (recvConsumeConn (Zcio.appendBody c id data) len).hist := by
        simp [Zcio.appendBody]
      rw [if_pos heq, hsame.sectionOn, ← hid]
      exact (h.streams st hmem hgot hdisp).withBody _
    · rename_i hne
      exact absurd hsid hne

/-- A block begins that is not a trailer: a new stream has no head yet, and those there have other ids. -/
theorem H2ReqInv.beginBlock (h : H2ReqInv g c) (ht : TableInv g c) (hstreams : ∀ st ∈ c'.streams,
      st ∈ c.streams ∨ st.gotHeaders = false) (hnew : c.lastClientId < c'.hdrId) (htrailer : c'.hdrTrailer = false)
    (hhist : SameHeads c.hist c'.hist) : H2ReqInv g c' := by
  refine ⟨fun st hst hgot hdisp => ?_, fun _ htr => ?_, fun _ _ st hst hid => ?_, by rw [hhist.handed]; exact h.log⟩
  · rcases hstreams st hst with hst | hnone
    · rw [hhist.sectionOn]
      exact h.streams st hst hgot hdisp
    · rw [hnone] at hgot
      cases hgot
  · rw [htrailer] at htr
    cases htr
  · rcases hstreams st hst with hst | hnone
    · exact absurd (ht.le_last st hst) (Nat.not_le.mpr (hid ▸ hnew))
    · exact hnone

/-- **One step.** -/
theorem H2ReqInv.step (h : H2ReqInv g c) (hrun : Run g c) (ht : TableInv g c) (hh : HdrInv g c)
    (hs : Step g c c') : H2ReqInv g c' := by
  have hlog : ∀ f, H2ReqInv g (c.log (.recv f)) := fun f => h.congr rfl (.inr ⟨rfl, rfl, rfl, rfl⟩) ⟨rfl, rfl⟩
  have hcount : ∀ f n, H2ReqInv g { c.log (.recv f) with rapidReset := n } := fun f n =>
    h.keep (fun st hst => ⟨st, hst, .refl st⟩) (.inr ⟨rfl, rfl, rfl, rfl⟩) ⟨rfl, rfl⟩
  -- the section of the stream whose block is complete is that block
  have hopened : ∀ {id : Nat} {body : Bytes} {req : HttpReq}, (blockRes g c).rc = .ok →
      c.hdrStream = some id → c.hdrTrailer = false → h2Head g (blockRes g c).u body = some req → c.gotError = false →
      c.Whole → Opened g.lim (sectionOn id (Zcio.blockDone g c).hist) req := by
    intro id body req hrc hid htr hhead he hw
    refine ⟨h2Head_ok blockRes_ok hhead, ⟨blocksOf c.hist, wireBlock c.hist⟩, ?_, hrun.head_raw hw he htr hrc hhead rfl⟩
    rw [(blockDone_frame c).1, htr, hw.stream id hid, sectionOn_block hw.sid]
  cases hs with
  | setup => exact h.congr rfl (.inr ⟨rfl, rfl, rfl, rfl⟩) ⟨rfl, rfl⟩
  | error => exact h.error _
  | reject => exact (hlog _).error _
  | ignore => exact hlog _
  | goaway => exact h.congr rfl (.inr ⟨rfl, rfl, rfl, rfl⟩) ⟨rfl, rfl⟩
  | ping => exact h.congr rfl (.inr ⟨rfl, rfl, rfl, rfl⟩) ⟨rfl, rfl⟩
  | settings =>
    refine h.keep (fun st hst => ?_) (.inr ⟨rfl, rfl, rfl, rfl⟩) ⟨rfl, rfl⟩
    obtain ⟨s, hs, rfl⟩ := List.mem_map.mp hst
    exact ⟨s, hs, rfl, rfl, rfl, rfl⟩
  | @settingsFail f sts w m code _ _ hsh =>
    have hx : H2ReqInv g (retune (c.log (.recv f)) sts w m) :=
      h.keep (sameReq_of_shifted hsh) (.inr ⟨rfl, rfl, rfl, rfl⟩) ⟨rfl, rfl⟩
    exact hx.error code
  | windowConn => exact h.congr rfl (.inr ⟨rfl, rfl, rfl, rfl⟩) ⟨rfl, rfl⟩
  | @windowConnError f code =>
    have hx : H2ReqInv g { c.log (.recv f) with sendWindow := c.sendWindow + f.incr } :=
      h.congr rfl (.inr ⟨rfl, rfl, rfl, rfl⟩) ⟨rfl, rfl⟩
    exact hx.error code
  | windowStream => exact (hlog _).update _ fun _ => ⟨rfl, rfl, rfl, rfl⟩
  | @windowReset f st code =>
    have hx := (hlog f).update f.sid (f := .shift f.incr) fun _ => ⟨rfl, rfl, rfl, rfl⟩
    exact hx.rst f.sid code
  | @peerReset f st n => exact (hcount f n).close f.sid
  | @peerResetFlood f st n code => exact ((hcount f n).close f.sid).error code
  | dataClosed => exact (hlog _).consume _
  | dataIdle => exact ((hlog _).consume _).error _
  | dataReset => exact ((hlog _).rst _ _).consume _
  | @data f st data =>
    rw [recvConsumeStream_eq]
    refine H2ReqInv.update (H2ReqInv.congr (((hlog f).appendBody f.sid data).consume f.payload.length)
      ?_ (.inr ?_) ?_) _ fun _ => ⟨rfl, rfl, rfl, rfl⟩
    · simp
    · simp
    · simp
  | @dataEnd f st data hb _ _ hst hopen hgot =>
    obtain ⟨hmem, hid⟩ := findStream_some hst
    exact (hlog f).dataEnd hb.2 (fun s hs hsid => eq_of_mem_of_id ht.nodup hs hmem (hsid.trans hid.symm)) hmem hid
      hgot ((ht.ok st hmem).ended.trans hopen)
  | headers _ _ _ hlt =>
    refine h.beginBlock ht (fun st hst => ?_) hlt rfl ⟨rfl, rfl⟩
    rcases List.mem_append.mp hst with hst | hst
    · exact .inl hst
    · rw [List.mem_singleton.mp hst]
      exact .inr rfl
  | headersRefused _ _ hlt => exact h.beginBlock ht (fun st hst => .inl hst) hlt rfl ⟨rfl, rfl⟩
  | @headersTrailer f st hb hty hst hopen hgot =>
    refine ⟨h.streams, fun _ _ s hs hid => ?_, fun _ htrailer => (by cases htrailer), h.log⟩
    obtain ⟨hstmem, hstid⟩ := findStream_some hst
    have hsid : f.sid = s.id := Option.some.inj hid
    cases eq_of_mem_of_id ht.nodup hs hstmem (hsid.symm.trans hstid.symm)
    exact hgot
  | continuation => exact h.congr rfl (.inr ⟨rfl, rfl, rfl, rfl⟩) ⟨rfl, rfl⟩
  | @continuationFlood f code =>
    have hx : H2ReqInv g { c.log (.recv f) with contCount := c.contCount + 1 } :=
      h.congr rfl (.inr ⟨rfl, rfl, rfl, rfl⟩) ⟨rfl, rfl⟩
    exact hx.error code
  | accumulate => exact h.congr rfl (.inr ⟨rfl, rfl, rfl, rfl⟩) ⟨rfl, rfl⟩
  | blockError _ ha hw => exact (h.blockDone ha hw).error _
  | blockReset _ ha _ _ hw => exact (h.blockDone ha hw).rst _ _
  | blockRefused _ ha _ _ hw => exact (h.blockDone ha hw).congr (by simp) (.inr (by simp)) (by simp)
  | @blockHead id body req ha hrc _ hid htr hbody hhead he hw =>
    have hdone := h.blockDone ha hw
    refine ⟨?_, fun hactive => (by cases hactive), fun hactive => (by cases hactive), hdone.log⟩
    intro st hst hgot hdisp
    obtain ⟨s, hs, rfl⟩ := mem_updateStream.mp hst
    split at hgot
    · rename_i heq
      rw [if_pos heq]
      change Opened g.lim (sectionOn s.id (Zcio.blockDone g c).hist) req
      rw [heq]
      exact hopened hrc hid htr hhead he hw
    · rename_i hne
      rw [if_neg hne] at hdisp ⊢
      exact hdone.streams s hs hgot hdisp
  | @blockHeadEnd id body req ha hrc _ hid htr hbody hhead he hw =>
    exact (h.blockDone ha hw).mark id rfl (fun _ => rfl) fun _ _ _ => hopened hrc hid htr hhead he hw
  | @blockTrailer id ha _ _ hid htr _ hw =>
    have hdone := h.blockDone ha hw
    refine hdone.mark id rfl (fun _ => rfl) fun s hs hsid => ?_
    have hgot := h.trailer ha htr s hs (by rw [hid, hsid])
    obtain ⟨st, hst, hopen⟩ := hh.findTarget ht.nodup ha hid
    obtain ⟨hstmem, hstid⟩ := findStream_some hst
    cases eq_of_mem_of_id ht.nodup hs hstmem (hsid.trans hstid.symm)
    rw [← hsid]
    exact hdone.streams s hs hgot ((ht.ok s hs).ended.trans hopen)
  | @respond id st isHead status hdrs body hst hdisp hresp =>
    rw [zh2Respond_eq hst hresp]
    refine H2ReqInv.update (h.congr ?_ (.inr ?_) ?_) _ fun _ => ⟨rfl, rfl, rfl, rfl⟩
    · simp
    · simp
    · have hsame := sameHeads_foldl_h2Frame (respFrames c id isHead status hdrs body)
        (c.log (.responded id isHead status hdrs body))
      exact ⟨hsame.heads, hsame.handed⟩
  | release id hall => exact h.release id hall
  | reap hst =>
    rw [streamClose_eq_closeById ht.nodup hst]
    exact h.close _
  | @pump i st =>
    rw [pumpData_eq]
    have hframe : H2ReqInv g (h2Frame c (dataFrame st (pumpChunk g c st))) :=
      h.congr rfl (.inr ⟨rfl, rfl, rfl, rfl⟩) ⟨rfl, rfl⟩
    have hsent := hframe.update st.id
      (f := .sentData (st.bodyOff + pumpChunk g c st = st.respBody.length) (pumpChunk g c st))
      fun _ => ⟨rfl, rfl, rfl, rfl⟩
    exact hsent.congr rfl (.inr ⟨rfl, rfl, rfl, rfl⟩) ⟨rfl, rfl⟩
  | graceful =>
    refine h.congr (by simp) (.inr (by simp)) ?_
    simp
  | drain => exact h.congr rfl (.inr ⟨rfl, rfl, rfl, rfl⟩) ⟨rfl, rfl⟩

/-- **Every request an HTTP/2 connection dispatches**, over any run. -/
theorem Run.requests (h : Run g c) : H2ReqInv g c := by
  refine h.induct (P := fun c => H2ReqInv g c) ?_ fun c c' hrun hi hs => ?_
  · refine ⟨fun _ hst => ?_, fun ha => ?_, fun ha => ?_, fun _ hp => ?_⟩
    · cases hst
    · cases ha
    · cases ha
    · cases hp
  · obtain ⟨ht, hh⟩ := hrun.table
    exact hi.step hrun ht hh hs

/-- Each of them has the head that its section says. -/
theorem H2ReqInv.head (h : H2ReqInv g c) {p : Nat × HttpReq} (hp : p ∈ dispatches c.hist) :
    H2Head g.lim p.2 := by
  have hmem : p.2 ∈ (handedOf c.hist).map (·.1) := by
    rw [handedOf_dispatches]
    exact List.mem_map_of_mem hp
  obtain ⟨q, hq, heq⟩ := List.mem_map.mp hmem
  rw [← heq]
  exact (h.log q hq).head

end Zcio
