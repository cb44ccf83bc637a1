import Zcio.H2.Step
import Mathlib.Data.List.Nodup

/-!
# Zcio.H2.StreamTable

The **stream-table invariant** of an HTTP/2 connection, over whole runs.

It comes in three parts, each with the fields it reads: `TableInv` is about the table and
the dispatches, `HdrInv` about the header block in progress and `FloodInv` about the two
flood counters. Each part is carried over every step by the same few lemmas: a step that
leaves the fields alone (`congr`), one that writes to a stream (`update`), one that drops
a stream (`close`), and one that completes a request (`finish`).
-/

namespace Zcio

/-! ### Dispatches

The requests handed over, with the ids of their streams, read off the history. -/

/-- The requests dispatched with their stream ids, newest first. -/
def dispatches (h : List H2Event) : List (Nat × HttpReq) :=
  h.filterMap fun e => match e with
    | .dispatched id req => some (id, req)
    | _ => none

/-- The stream ids dispatched, newest first. -/
def dispatchedIds (h : List H2Event) : List Nat := (dispatches h).map Prod.fst

@[simp] theorem dispatches_recv (f : Frame) (h : List H2Event) :
    dispatches (.recv f :: h) = dispatches h := rfl
@[simp] theorem dispatches_sent (f : Frame) (h : List H2Event) :
    dispatches (.sent f :: h) = dispatches h := rfl
@[simp] theorem dispatches_error (code : Nat) (h : List H2Event) :
    dispatches (.error code :: h) = dispatches h := rfl
@[simp] theorem dispatches_block (t : Bool) (b : Bytes) (h : List H2Event) :
    dispatches (.block t b :: h) = dispatches h := rfl
@[simp] theorem dispatchedIds_dispatched (id : Nat) (req : HttpReq) (h : List H2Event) :
    dispatchedIds (.dispatched id req :: h) = id :: dispatchedIds h := rfl

/-- Frames sent are not dispatches. -/
@[simp] theorem dispatches_ite_sent (p : Prop) [Decidable p] (f : Frame)
    (h : List H2Event) :
    dispatches ((if p then [] else [.sent f]) ++ h) = dispatches h := by
  split
  · rfl
  · rfl

theorem dispatches_foldl_h2Frame (fs : List Frame) (c : Zh2Conn) :
    dispatches (fs.foldl h2Frame c).hist = dispatches c.hist := by
  induction fs generalizing c with
  | nil => rfl
  | cons f fs ih => rw [List.foldl_cons, ih]; rfl

variable (g : H2Cfg)

/-! ### The table

What holds of the streams of the table, of their number and of their ids against the log of
dispatches. Two operations matter: a stream is opened, and a stream is finished. -/

/-- What holds of every stream in the table. -/
structure StreamOk (st : Zh2Stream) : Prop where
  body : st.req.body.length ≤ g.lim.maxBodyBytes
  ended : st.dispatched = st.endStreamRecv

/-- The stream table and the dispatches. -/
structure TableInv (c : Zh2Conn) : Prop where
  count : c.openCount = c.streams.length
  max : c.streams.length ≤ g.lim.maxStreams
  nodup : c.ids.Nodup
  odd : ∀ st ∈ c.streams, st.id % 2 = 1
  le_last : ∀ st ∈ c.streams, st.id ≤ c.lastClientId
  ok : ∀ st ∈ c.streams, StreamOk g st
  once : (dispatchedIds c.hist).Nodup
  marked : ∀ st ∈ c.streams, st.dispatched = true ↔ st.id ∈ dispatchedIds c.hist
  old : ∀ id ∈ dispatchedIds c.hist, id ≤ c.lastClientId
  bodies : ∀ p ∈ dispatches c.hist, p.2.body.length ≤ g.lim.maxBodyBytes
  opened : ∃ l : List Nat, l.length ≤ c.totalStreams ∧
    (g.lim.maxRequestsPerConn ≠ 0 → l.length ≤ g.lim.maxRequestsPerConn) ∧
    dispatchedIds c.hist ⊆ l ∧ ∀ st ∈ c.streams, st.id ∈ l

section Table

variable {g} {c c' : Zh2Conn}

theorem TableInv.congr (h : TableInv g c) (ht : c'.toZh2Table = c.toZh2Table)
    (hd : dispatches c'.hist = dispatches c.hist) : TableInv g c' := by
  have hids : dispatchedIds c'.hist = dispatchedIds c.hist := congrArg (List.map Prod.fst) hd
  refine ⟨?_, ?_, ?_, ?_, ?_, ?_, ?_, ?_, ?_, ?_, ?_⟩
  · simpa only [ht] using h.count
  · simpa only [ht] using h.max
  · simpa only [ht] using h.nodup
  · simpa only [ht] using h.odd
  · simpa only [ht] using h.le_last
  · simpa only [ht] using h.ok
  · simpa only [hids] using h.once
  · simpa only [ht, hids] using h.marked
  · simpa only [ht, hids] using h.old
  · simpa only [hd] using h.bodies
  · simpa only [ht, hids] using h.opened

/-- A write to streams that keeps what identifies them. -/
theorem TableInv.map (h : TableInv g c) {f : Zh2Stream → Zh2Stream}
    (hid : ∀ st, (f st).id = st.id) (hdisp : ∀ st, (f st).dispatched = st.dispatched)
    (hok : ∀ st ∈ c.streams, StreamOk g (f st)) :
    TableInv g { c with streams := c.streams.map f } := by
  obtain ⟨l, hl⟩ := h.opened
  refine ⟨?_, ?_, ?_, ?_, ?_, ?_, h.once, ?_, h.old, h.bodies, l, hl.1, hl.2.1, hl.2.2.1, ?_⟩
  · simpa using h.count
  · simpa using h.max
  · have hids : (c.streams.map f).map (·.id) = c.streams.map (·.id) := by
      rw [List.map_map]
      exact List.map_congr_left fun st _ => hid st
    show ((c.streams.map f).map (·.id)).Nodup
    rw [hids]
    exact h.nodup
  all_goals
    intro st hst
    obtain ⟨s, hs, rfl⟩ := List.mem_map.mp hst
  · rw [hid]; exact h.odd s hs
  · rw [hid]; exact h.le_last s hs
  · exact hok s hs
  · rw [hid, hdisp]; exact h.marked s hs
  · rw [hid]; exact hl.2.2.2 s hs

theorem mem_of_shifted {sts sts' : List Zh2Stream} (h : Shifted sts sts') {st : Zh2Stream}
    (hst : st ∈ sts') : ∃ s ∈ sts, s.core = st.core := by
  have hmem : st.core ∈ sts.map (·.core) := h ▸ List.mem_map_of_mem hst
  exact List.mem_map.mp hmem

/-- Send windows are none of the table's business. -/
theorem TableInv.shifted (h : TableInv g c) {sts : List Zh2Stream} (hsh : Shifted c.streams sts) :
    TableInv g { c with streams := sts } := by
  have hlen : sts.length = c.streams.length := by simpa using congrArg List.length hsh
  have hids : sts.map (·.id) = c.streams.map (·.id) := by
    have hmap := congrArg (List.map (·.id)) hsh
    rw [List.map_map, List.map_map] at hmap
    exact hmap
  obtain ⟨l, hl⟩ := h.opened
  refine ⟨h.count.trans hlen.symm, hlen.le.trans h.max, ?_, ?_, ?_, ?_, h.once, ?_, h.old,
    h.bodies, l, hl.1, hl.2.1, hl.2.2.1, ?_⟩
  · show (sts.map (·.id)).Nodup
    exact hids ▸ h.nodup
  all_goals
    intro st hst
    obtain ⟨s, hs, hcore⟩ := mem_of_shifted hsh hst
    have hid : s.id = st.id := congrArg (·.id) hcore
    have hdisp : s.dispatched = st.dispatched := congrArg (·.dispatched) hcore
    have hend : s.endStreamRecv = st.endStreamRecv := congrArg (·.endStreamRecv) hcore
    have hreq : s.req = st.req := congrArg (·.req) hcore
  · exact hid ▸ h.odd s hs
  · exact hid ▸ h.le_last s hs
  · exact ⟨hreq ▸ (h.ok s hs).body, hdisp ▸ hend ▸ (h.ok s hs).ended⟩
  · exact hid ▸ hdisp ▸ h.marked s hs
  · exact hid ▸ hl.2.2.2 s hs

theorem TableInv.update (h : TableInv g c) {id : Nat} {f : Zh2Stream → Zh2Stream}
    (hid : ∀ st, (f st).id = st.id) (hdisp : ∀ st, (f st).dispatched = st.dispatched)
    (hok : ∀ st ∈ c.streams, st.id = id → StreamOk g st → StreamOk g (f st)) :
    TableInv g (updateStream c id f) := by
  refine h.map (f := fun st => if st.id = id then f st else st) ?_ ?_ ?_
  · intro st
    split
    · exact hid st
    · rfl
  · intro st
    split
    · exact hdisp st
    · rfl
  · intro st hst
    split
    · exact hok st hst ‹_› (h.ok st hst)
    · exact h.ok st hst

theorem TableInv.close (h : TableInv g c) (id : Nat) : TableInv g (closeById c id) := by
  have hmem : ∀ st ∈ (closeById c id).streams, st ∈ c.streams :=
    fun st hst => ((mem_closeById h.nodup).mp hst).1
  obtain ⟨l, hl⟩ := h.opened
  have hframe := closeById_frame c id
  refine ⟨openCount_closeById h.count, ?_, nodup_closeById h.nodup id, ?_, ?_, ?_, ?_, ?_, ?_, ?_,
    l, ?_, hl.2.1, ?_, ?_⟩
  · refine Nat.le_trans ?_ h.max
    unfold closeById
    split
    · rename_i i hi
      obtain ⟨s, hs, -⟩ := findIndex_some hi
      have := Lib.length_swapRemove (List.getElem?_eq_some_iff.mp hs).1
      show (Lib.swapRemove c.streams i).length ≤ _
      omega
    · exact Nat.le_refl _
  · exact fun st hst => h.odd st (hmem st hst)
  · intro st hst; simpa using h.le_last st (hmem st hst)
  · exact fun st hst => h.ok st (hmem st hst)
  · simpa using h.once
  · intro st hst; simpa using h.marked st (hmem st hst)
  · simpa using h.old
  · simpa using h.bodies
  · simpa using hl.1
  · simpa using hl.2.2.1
  · exact fun st hst => hl.2.2.2 st (hmem st hst)

/-- Marking a stream that was half-closed and not dispatched. -/
theorem h2Mark_updateStream {id : Nat} {st : Zh2Stream} {f : Zh2Stream → Zh2Stream}
    (hid : ∀ st, (f st).id = st.id) (hst : findStream c id = some st)
    (hdisp : (f st).dispatched = false) :
    h2Mark g (updateStream c id f) id =
      (updateStream c id fun s =>
        { f s with dispatched := true, req := h2Request g (f st) }).log
        (.dispatched id (h2Request g (f st))) := by
  unfold h2Mark
  rw [findStream_updateStream hid, hst]
  dsimp only [Option.map_some]
  rw [if_neg (by rw [hdisp]; exact Bool.false_ne_true), updateStream_updateStream hid]
  rfl

/-- A request is complete: its stream is half-closed and dispatched. -/
theorem TableInv.finish (h : TableInv g c) {id : Nat} {st : Zh2Stream}
    {f : Zh2Stream → Zh2Stream} (hid : ∀ st, (f st).id = st.id)
    (hdisp : ∀ st, (f st).dispatched = st.dispatched) (hend : ∀ st, (f st).endStreamRecv = true)
    (hst : findStream c id = some st) (hopen : st.endStreamRecv = false)
    (hbody : (f st).req.body.length ≤ g.lim.maxBodyBytes) :
    TableInv g (h2Mark g (updateStream c id f) id) := by
  obtain ⟨hmem, hstid⟩ := findStream_some hst
  -- the stream was open, so that it is dispatched here for the first time
  have hnot : st.dispatched = false := (h.ok st hmem).ended.trans hopen
  have hfresh : id ∉ dispatchedIds c.hist := by
    intro hin
    have := (h.marked st hmem).mpr (hstid ▸ hin)
    rw [hnot] at this
    cases this
  rw [h2Mark_updateStream hid hst ((hdisp st).trans hnot)]
  obtain ⟨l, hl⟩ := h.opened
  -- every stream behind the mark is one in front of it, changed or not
  have hupd : ∀ s ∈ (updateStream c id fun s =>
      { f s with dispatched := true, req := h2Request g (f st) }).streams,
      ∃ s' ∈ c.streams, (if s'.id = id then
        { f s' with dispatched := true, req := h2Request g (f st) } else s') = s :=
    fun s hs => mem_updateStream.mp hs
  refine ⟨?_, ?_, ?_, ?_, ?_, ?_, ?_, ?_, ?_, ?_, l, hl.1, hl.2.1, ?_, ?_⟩
  · simpa using h.count.trans length_updateStream.symm
  · simpa using length_updateStream.le.trans h.max
  · have hids : (updateStream c id fun s =>
        { f s with dispatched := true, req := h2Request g (f st) }).ids = c.ids :=
      ids_updateStream hid
    exact hids ▸ h.nodup
  · -- ids do not move, so that the parity and the bound stay
    intro s hs
    obtain ⟨s', hs', rfl⟩ := hupd s hs
    split
    · exact (congrArg (· % 2) (hid s')).trans (h.odd s' hs')
    · exact h.odd s' hs'
  · intro s hs
    obtain ⟨s', hs', rfl⟩ := hupd s hs
    split
    · exact (hid s').le.trans (h.le_last s' hs')
    · exact h.le_last s' hs'
  · -- at the marked stream the body is within its cap and END_STREAM is in
    intro s hs
    obtain ⟨s', hs', rfl⟩ := hupd s hs
    split
    · exact ⟨hbody, (hend s').symm⟩
    · exact h.ok s' hs'
  · -- the log of dispatches grows by one id that it did not have
    simpa using ⟨hfresh, h.once⟩
  · intro s hs
    obtain ⟨s', hs', rfl⟩ := hupd s hs
    split
    · rename_i heq
      simp [hid, heq]
    · rename_i hne
      simp [h.marked s' hs', hne]
  · intro id' hin
    rcases List.mem_cons.mp hin with rfl | hin
    · exact hstid ▸ h.le_last st hmem
    · exact h.old id' hin
  · -- what is handed over has the body the stream has
    intro p hp
    rcases List.mem_cons.mp hp with rfl | hp
    · exact hbody
    · exact h.bodies p hp
  · -- and was opened by HEADERS, as every stream of the table
    intro id' hin
    rcases List.mem_cons.mp hin with rfl | hin
    · exact hstid ▸ hl.2.2.2 st hmem
    · exact hl.2.2.1 hin
  · intro s hs
    obtain ⟨s', hs', rfl⟩ := hupd s hs
    split
    · exact (congrArg (· ∈ l) (hid s')).mpr (hl.2.2.2 s' hs')
    · exact hl.2.2.2 s' hs'

/-- A stream id is taken without a stream. -/
theorem TableInv.count_refused (h : TableInv g c) {id : Nat} (hlt : c.lastClientId < id) :
    TableInv g (countStream c id) := by
  obtain ⟨l, hl⟩ := h.opened
  exact ⟨h.count, h.max, h.nodup, h.odd, fun st hst => (h.le_last st hst).trans hlt.le, h.ok,
    h.once, h.marked, fun i hi => (h.old i hi).trans hlt.le, h.bodies, l, Nat.le_succ_of_le hl.1, hl.2⟩

/-- A stream is opened. -/
theorem TableInv.open (h : TableInv g c) {id : Nat} (hodd : id % 2 = 1)
    (hlt : c.lastClientId < id)
    (hreq : g.lim.maxRequestsPerConn ≠ 0 → c.totalStreams + 1 ≤ g.lim.maxRequestsPerConn)
    (hmax : c.openCount < g.lim.maxStreams) :
    TableInv g (h2StreamNew (countStream c id) id) := by
  have hnew : ∀ st ∈ (h2StreamNew (countStream c id) id).streams,
      st ∈ c.streams ∨ st = { id, sendWindow := c.peerInitialWindow } := by
    intro st hst
    simpa [h2StreamNew, countStream] using hst
  -- the id is above every id of the table and of the log
  have hnot : ∀ st ∈ c.streams, st.id ≠ id := by
    intro st hst heq
    have := h.le_last st hst
    omega
  have hfresh : id ∉ dispatchedIds c.hist := by
    intro hin
    have := h.old id hin
    omega
  -- the list of opened ids takes the new one at its front
  obtain ⟨l, hl⟩ := h.opened
  refine ⟨?_, ?_, ?_, ?_, ?_, ?_, h.once, ?_, fun i hi => (h.old i hi).trans hlt.le,
    h.bodies, id :: l, ?_, ?_, ?_, ?_⟩
  · simp [h2StreamNew, countStream, h.count]
  · have := h.count
    simp only [h2StreamNew, countStream, List.length_append, List.length_singleton]
    omega
  · have hids : (h2StreamNew (countStream c id) id).ids = c.ids ++ [id] := by
      simp [Zh2Table.ids, h2StreamNew, countStream]
    rw [hids]
    refine List.Nodup.append h.nodup (List.nodup_singleton id) ?_
    intro i hi hi'
    obtain ⟨st, hst, rfl⟩ := List.mem_map.mp hi
    exact hnot st hst (List.mem_singleton.mp hi')
  · -- in every clause a stream is an old one or the one just opened
    intro st hst
    rcases hnew st hst with hst | rfl
    · exact h.odd st hst
    · exact hodd
  · intro st hst
    rcases hnew st hst with hst | rfl
    · exact (h.le_last st hst).trans hlt.le
    · exact Nat.le_refl id
  · intro st hst
    rcases hnew st hst with hst | rfl
    · exact h.ok st hst
    · exact ⟨Nat.zero_le _, rfl⟩
  · intro st hst
    rcases hnew st hst with hst | rfl
    · exact h.marked st hst
    · exact ⟨fun hd => absurd hd Bool.false_ne_true, fun hin => absurd hin hfresh⟩
  · -- the lifetime cap counts refused streams too, hence the slack
    exact Nat.succ_le_succ hl.1
  · intro hne
    exact (Nat.succ_le_succ hl.1).trans (hreq hne)
  · exact fun i hi => List.mem_cons_of_mem _ (hl.2.2.1 hi)
  · intro st hst
    rcases hnew st hst with hst | rfl
    · exact List.mem_cons_of_mem _ (hl.2.2.2 st hst)
    · exact List.mem_cons_self

end Table

/-! ### The header block in progress

While a block is read its stream is the only one without a head. The stream of a block that
was refused is not in the table. -/

/-- The reassembly state. -/
structure HdrInv (c : Zh2Conn) : Prop where
  target : c.hdrActive = true → ∀ id, c.hdrStream = some id →
    id = c.hdrId ∧ c.hdrRefuse = 0 ∧ ∃ st ∈ c.streams, st.id = id ∧ st.endStreamRecv = false
  refused : c.hdrActive = true → c.hdrStream = none → ∀ st ∈ c.streams, st.id ≠ c.hdrId
  id_le : c.hdrActive = true → c.hdrId ≤ c.lastClientId
  got : c.gotError = false → ∀ st ∈ c.streams,
    st.gotHeaders = true ∨
      c.hdrActive = true ∧ c.hdrStream = some st.id ∧ c.hdrTrailer = false
  block : c.hdrBlock.length ≤ g.lim.maxHeaderBytes + 4096

section Hdr

variable {g} {c c' : Zh2Conn}

theorem HdrInv.congr (h : HdrInv g c) (ht : c'.toZh2Table = c.toZh2Table)
    (hh : c'.toZh2Hdr = c.toZh2Hdr) (he : c'.gotError = false → c.gotError = false) :
    HdrInv g c' := by
  refine ⟨?_, ?_, ?_, ?_, ?_⟩
  · simpa only [ht, hh] using h.target
  · simpa only [ht, hh] using h.refused
  · simpa only [ht, hh] using h.id_le
  · intro hc
    simpa only [ht, hh] using h.got (he hc)
  · simpa only [hh] using h.block

/-- A write to streams that keeps what identifies them and the state of their request. -/
theorem HdrInv.map (h : HdrInv g c) {f : Zh2Stream → Zh2Stream} (hid : ∀ st, (f st).id = st.id)
    (hend : ∀ st, (f st).endStreamRecv = st.endStreamRecv)
    (hgot : ∀ st, (f st).gotHeaders = st.gotHeaders) :
    HdrInv g { c with streams := c.streams.map f } := by
  refine ⟨?_, ?_, h.id_le, ?_, h.block⟩
  · intro ha id hs
    obtain ⟨h1, h2, st, hst, h3, h4⟩ := h.target ha id hs
    exact ⟨h1, h2, f st, List.mem_map_of_mem hst, (hid st).trans h3, (hend st).trans h4⟩
  · intro ha hs st hst
    obtain ⟨s, hs', rfl⟩ := List.mem_map.mp hst
    rw [hid]
    exact h.refused ha hs s hs'
  · intro he st hst
    obtain ⟨s, hs', rfl⟩ := List.mem_map.mp hst
    rw [hid, hgot]
    exact h.got he s hs'

theorem HdrInv.update (h : HdrInv g c) {id : Nat} {f : Zh2Stream → Zh2Stream}
    (hid : ∀ st, (f st).id = st.id) (hend : ∀ st, (f st).endStreamRecv = st.endStreamRecv)
    (hgot : ∀ st, (f st).gotHeaders = st.gotHeaders) : HdrInv g (updateStream c id f) := by
  refine h.map (f := fun st => if st.id = id then f st else st) ?_ ?_ ?_
  · intro st
    split
    · exact hid st
    · rfl
  · intro st
    split
    · exact hend st
    · rfl
  · intro st
    split
    · exact hgot st
    · rfl

/-- Dropping a stream other than the one whose block is in progress. -/
theorem HdrInv.close (h : HdrInv g c) (hnd : c.ids.Nodup) {id : Nat}
    (hother : c.hdrActive = true → c.hdrStream ≠ some id) : HdrInv g (closeById c id) := by
  have hmem : ∀ st, st ∈ (closeById c id).streams ↔ st ∈ c.streams ∧ st.id ≠ id :=
    fun st => mem_closeById hnd
  refine ⟨?_, ?_, ?_, ?_, ?_⟩
  · intro ha id' hs
    rw [(closeById_frame c id).2.2.1] at ha hs ⊢
    obtain ⟨h1, h2, st, hst, h3, h4⟩ := h.target ha id' hs
    refine ⟨h1, h2, st, (hmem st).mpr ⟨hst, ?_⟩, h3, h4⟩
    rintro rfl
    exact hother ha (hs.trans (congrArg some h3.symm))
  · intro ha hs st hst
    rw [(closeById_frame c id).2.2.1] at ha hs ⊢
    exact h.refused ha hs st ((hmem st).mp hst).1
  · intro ha
    simp only [closeById_frame] at ha ⊢
    exact h.id_le ha
  · intro he st hst
    simp only [closeById_frame] at he ⊢
    exact h.got he st ((hmem st).mp hst).1
  · simpa using h.block

theorem HdrInv.close_idle (h : HdrInv g c) (hnd : c.ids.Nodup) (ha : c.hdrActive = false)
    (id : Nat) : HdrInv g (closeById c id) := by
  refine h.close hnd fun hactive => ?_
  rw [ha] at hactive
  cases hactive

/-- No block is in progress. -/
theorem HdrInv.idle (ha : c.hdrActive = false) (hb : c.hdrBlock.length ≤ g.lim.maxHeaderBytes + 4096)
    (hgot : c.gotError = false → ∀ st ∈ c.streams, st.gotHeaders = true) : HdrInv g c := by
  refine ⟨?_, ?_, ?_, fun he st hst => .inl (hgot he st hst), hb⟩
  all_goals
    intro h
    rw [ha] at h
    cases h

/-- Between two blocks every stream has its request head. -/
theorem HdrInv.all_got (h : HdrInv g c) (hb : c.Between) :
    ∀ st ∈ c.streams, st.gotHeaders = true := by
  intro st hst
  rcases h.got hb.1 st hst with hg | ⟨ha, -⟩
  · exact hg
  · rw [hb.2] at ha
    cases ha

end Hdr

/-! ### The flood counters

CONTINUATION frames and resets are counted, and a connection that goes over a limit is
closed by the frame that does it. -/

/-- The counters that the flood guards watch, up to the connection error they raise. -/
structure FloodInv (c : Zh2Conn) : Prop where
  cont : c.contCount ≤ ZH2_CONT_MAX + 1
  cont_live : c.gotError = false → c.contCount ≤ ZH2_CONT_MAX
  rapid : c.rapidReset ≤ g.lim.maxStreams + 1
  rapid_live : c.gotError = false → c.rapidReset ≤ g.lim.maxStreams

theorem FloodInv.congr {g : H2Cfg} {c c' : Zh2Conn} (h : FloodInv g c)
    (hc : c'.contCount = c.contCount ∨ c'.contCount = 0) (hr : c'.rapidReset = c.rapidReset)
    (he : c'.gotError = false → c.gotError = false) : FloodInv g c' := by
  have hle : c'.contCount ≤ c.contCount := by omega
  refine ⟨hle.trans h.cont, fun hc' => hle.trans (h.cont_live (he hc')), ?_, ?_⟩
  · rw [hr]; exact h.rapid
  · rw [hr]; exact fun hc' => h.rapid_live (he hc')

/-! ### One step

Each invariant against each kind of step. The steps that change neither the table nor the
history are discharged by congruence. -/

section Step

variable {g} {c c' : Zh2Conn}

theorem findStream_appendBody (c : Zh2Conn) (id : Nat) (data : Bytes) :
    findStream (appendBody c id data) id = (findStream c id).map fun st =>
      { st with req := { st.req with body := st.req.body ++ data } } :=
  findStream_updateStream fun _ => rfl

/-- Body octets within the cap. -/
theorem TableInv.appendBody (h : TableInv g c) {id : Nat} {st : Zh2Stream} {data : Bytes}
    (hst : findStream c id = some st)
    (hcap : data.length ≤ g.lim.maxBodyBytes - st.req.body.length) :
    TableInv g (Zcio.appendBody c id data) := by
  refine h.update (fun _ => rfl) (fun _ => rfl) fun s hs hid hok => ⟨?_, hok.ended⟩
  obtain ⟨hmem, hstid⟩ := findStream_some hst
  cases eq_of_mem_of_id h.nodup hs hmem (hid.trans hstid.symm)
  have := hok.body
  simp only [List.length_append]
  omega

theorem h2Head_body {x : HdrCtx} {body : Bytes} {req : HttpReq} (h : h2Head g x body = some req) :
    req.body = body := by
  unfold h2Head at h
  split at h
  · split at h
    · cases h
    · split at h
      · cases h
      · cases h; rfl
  · cases h

/-- The body a request head keeps is within the cap. -/
theorem TableInv.body_le (h : TableInv g c) (id : Nat) :
    ((findStream c id).elim [] (·.req.body)).length ≤ g.lim.maxBodyBytes := by
  cases hst : findStream c id with
  | none => exact Nat.zero_le _
  | some st => exact (h.ok st (findStream_some hst).1).body

theorem HdrInv.findTarget (h : HdrInv g c) (hnd : c.ids.Nodup) (ha : c.hdrActive = true)
    {id : Nat} (hid : c.hdrStream = some id) :
    ∃ st, findStream c id = some st ∧ st.endStreamRecv = false := by
  obtain ⟨-, -, st, hst, hstid, hopen⟩ := h.target ha id hid
  cases hfind : findStream c id with
  | none => exact absurd hstid (findStream_none hfind st hst)
  | some s =>
    obtain ⟨hs, hsid⟩ := findStream_some hfind
    rw [eq_of_mem_of_id hnd hs hst (hsid.trans hstid.symm)]
    exact ⟨st, rfl, hopen⟩

theorem TableInv.step (h : TableInv g c) (hh : HdrInv g c) (hs : Step g c c') :
    TableInv g c' := by
  have hlog : ∀ f, TableInv g (c.log (.recv f)) := fun f => h.congr rfl rfl
  have hdone : TableInv g (blockDone g c) := h.congr rfl rfl
  -- most steps leave the table and the log of dispatches, and fall to congruence
  cases hs with
  | setup => exact h.congr rfl rfl
  | error => exact h.congr (by simp) (by simp)
  | reject => exact h.congr (by simp) (by simp)
  | ignore => exact hlog _
  | goaway => exact h.congr rfl rfl
  | ping => exact h.congr rfl rfl
  | @settings f w m =>
    refine TableInv.congr (c := { c.log (.recv f) with streams := _ })
      ((hlog f).map (f := .shift _) (fun _ => rfl) (fun _ => rfl) fun st hst => ?_) rfl rfl
    exact ⟨(h.ok st hst).body, (h.ok st hst).ended⟩
  | @settingsFail f sts w m code _ _ hsh =>
    exact TableInv.congr (c := { c.log (.recv f) with streams := sts }) ((hlog f).shifted hsh)
      (by simp) (by simp)
  | windowConn => exact h.congr rfl rfl
  | windowConnError => exact h.congr (by simp) (by simp)
  | windowStream =>
    exact (hlog _).update (fun _ => rfl) (fun _ => rfl) fun st _ _ hok => ⟨hok.body, hok.ended⟩
  -- a reset, ours or the peer's, takes one stream out
  | @windowReset f st code =>
    have hupd : TableInv g (updateStream (c.log (.recv f)) f.sid (.shift f.incr)) :=
      (hlog _).update (fun _ => rfl) (fun _ => rfl) fun st _ _ hok => ⟨hok.body, hok.ended⟩
    exact (hupd.close f.sid).congr (by simp) (by simp)
  | @peerReset f st n =>
    refine TableInv.close (c := { c.log (.recv f) with rapidReset := n }) ?_ f.sid
    exact ⟨h.count, h.max, h.nodup, h.odd, h.le_last, h.ok, h.once, h.marked, h.old, h.bodies,
      h.opened⟩
  | @peerResetFlood f st n code =>
    refine TableInv.congr (c := closeById { c.log (.recv f) with rapidReset := n } f.sid)
      (TableInv.close ?_ f.sid) (by simp) (by simp)
    exact ⟨h.count, h.max, h.nodup, h.odd, h.le_last, h.ok, h.once, h.marked, h.old, h.bodies,
      h.opened⟩
  | dataClosed => exact h.congr (by simp) (by simp)
  | dataIdle => exact h.congr (by simp) (by simp)
  | @dataReset f st code => exact ((hlog f).close f.sid).congr (by simp) (by simp)
  -- DATA with room for it: the stream's body grows within the cap
  | @data f st data _ _ _ hst _ _ _ _ hcap =>
    have hbody : TableInv g (Zcio.appendBody (c.log (.recv f)) f.sid data) :=
      (hlog f).appendBody hst hcap
    have hconn : TableInv g (recvConsumeConn (Zcio.appendBody (c.log (.recv f)) f.sid data)
        f.payload.length) := hbody.congr (by simp) (by simp)
    rw [recvConsumeStream_eq]
    refine TableInv.update (hconn.congr (by simp) (by simp)) (fun _ => rfl) (fun _ => rfl)
      fun st _ _ hok => ⟨hok.body, hok.ended⟩
  -- the last DATA of a stream: the request is complete and is handed over
  | @dataEnd f st data _ _ _ hst hopen _ _ hcap =>
    have hbody : TableInv g (Zcio.appendBody (c.log (.recv f)) f.sid data) :=
      (hlog f).appendBody hst hcap
    have hconn : TableInv g (recvConsumeConn (Zcio.appendBody (c.log (.recv f)) f.sid data)
        f.payload.length) := hbody.congr (by simp) (by simp)
    have hst' : findStream (recvConsumeConn (Zcio.appendBody (c.log (.recv f)) f.sid data)
        f.payload.length) f.sid =
        some { st with req := { st.req with body := st.req.body ++ data } } := by
      rw [findStream_table (a := Zcio.appendBody (c.log (.recv f)) f.sid data) (by simp),
        findStream_appendBody, findStream_log, hst]
      rfl
    refine hconn.finish (fun _ => rfl) (fun _ => rfl) (fun _ => rfl) hst' hopen ?_
    exact (hconn.ok _ (findStream_some hst').1).body
  -- the one step that opens a stream, behind its four checks
  | headers _ _ hodd hlt hreq hmax =>
    exact ((hlog _).open hodd hlt hreq hmax).congr rfl rfl
  | headersRefused _ _ hlt => exact ((hlog _).count_refused hlt).congr rfl rfl
  | headersTrailer => exact h.congr rfl rfl
  | continuation => exact h.congr rfl rfl
  | continuationFlood => exact h.congr (by simp) (by simp)
  | accumulate => exact h.congr rfl rfl
  | blockError => exact h.congr (by simp) (by simp)
  | @blockReset id => exact (hdone.close id).congr (by simp) (by simp)
  | blockRefused => exact h.congr (by simp) (by simp)
  -- a block that ends: of a head, of a head that is the request, of trailers
  | @blockHead id body req ha _ _ hid _ hbody hhead =>
    obtain ⟨st, hst, hopen⟩ := hh.findTarget h.nodup ha hid
    refine hdone.update (fun _ => rfl) (fun _ => rfl) fun s hs hsid hok => ⟨?_, ?_⟩
    · rw [h2Head_body hhead, hbody]
      exact h.body_le id
    · obtain ⟨hmem, hstid⟩ := findStream_some hst
      cases eq_of_mem_of_id h.nodup hs hmem (hsid.trans hstid.symm)
      exact hok.ended.trans hopen
  | @blockHeadEnd id body req ha _ _ hid _ hbody hhead =>
    obtain ⟨st, hst, hopen⟩ := hh.findTarget h.nodup ha hid
    refine hdone.finish (fun _ => rfl) (fun _ => rfl) (fun _ => rfl) hst hopen ?_
    rw [h2Head_body hhead, hbody]
    exact h.body_le id
  | @blockTrailer id ha _ _ hid =>
    obtain ⟨st, hst, hopen⟩ := hh.findTarget h.nodup ha hid
    exact hdone.finish (fun _ => rfl) (fun _ => rfl) (fun _ => rfl) hst hopen
      (h.ok st (findStream_some hst).1).body
  -- answers change neither ids nor bodies
  | @respond id st isHead status hdrs body hst hdisp hresp =>
    rw [zh2Respond_eq hst hresp]
    refine TableInv.update (h.congr (by simp) ?_) (fun _ => rfl) (fun _ => rfl)
      fun st _ _ hok => ⟨hok.body, hok.ended⟩
    rw [dispatches_foldl_h2Frame]
    rfl
  | release => exact h.update (fun _ => rfl) (fun _ => rfl) fun st _ _ hok => ⟨Nat.zero_le _, hok.ended⟩
  | reap hst =>
    rw [streamClose_eq_closeById h.nodup hst]
    exact h.close _
  | @pump i st =>
    have hframe : TableInv g (h2Frame c (dataFrame st (pumpChunk g c st))) := h.congr rfl rfl
    have hupd : TableInv g (updateStream (h2Frame c (dataFrame st (pumpChunk g c st))) st.id
        (.sentData (st.bodyOff + pumpChunk g c st = st.respBody.length) (pumpChunk g c st))) :=
      hframe.update (fun _ => rfl) (fun _ => rfl) fun st _ _ hok => ⟨hok.body, hok.ended⟩
    exact hupd.congr rfl rfl
  | graceful => exact h.congr (by simp) (by simp)
  | drain => exact h.congr rfl rfl

/-- The mark writes to its own stream, and there only to the flag and the request. -/
theorem h2Mark_mem {id : Nat} {st : Zh2Stream} (h : st ∈ (h2Mark g c id).streams) :
    ∃ s ∈ c.streams, { st with dispatched := s.dispatched, req := s.req } = s ∧
      (s.id ≠ id → st = s) := by
  unfold h2Mark at h
  split at h
  · exact ⟨st, h, rfl, fun _ => rfl⟩
  · split at h
    · exact ⟨st, h, rfl, fun _ => rfl⟩
    · obtain ⟨s, hs, rfl⟩ := mem_updateStream.mp h
      refine ⟨s, hs, ?_⟩
      split
      · exact ⟨rfl, fun hne => absurd ‹s.id = id› hne⟩
      · exact ⟨rfl, fun _ => rfl⟩

/-- The streams the client has not half-closed, behind the step that completes a request. -/
theorem mem_finish {id : Nat} {f : Zh2Stream → Zh2Stream}
    (hend : ∀ st, (f st).endStreamRecv = true) {st : Zh2Stream}
    (h : st ∈ (h2Mark g (updateStream c id f) id).streams) (hopen : st.endStreamRecv = false) :
    st ∈ c.streams ∧ st.id ≠ id := by
  obtain ⟨s, hs, hsame, hother⟩ := h2Mark_mem h
  have hsopen : s.endStreamRecv = false := by rw [← hsame]; exact hopen
  obtain ⟨s', hs', rfl⟩ := mem_updateStream.mp hs
  by_cases heq : s'.id = id
  · rw [if_pos heq, hend] at hsopen
    cases hsopen
  · rw [if_neg heq] at hother
    cases hother heq
    exact ⟨hs', heq⟩

theorem h2Mark_hist (c : Zh2Conn) (id : Nat) :
    (h2Mark g c id).hist = c.hist ∨
      ∃ st, findStream c id = some st ∧ st.dispatched = false ∧
        (h2Mark g c id).hist = .dispatched id (h2Request g st) :: c.hist := by
  unfold h2Mark
  split
  · exact .inl rfl
  · rename_i st hst
    split
    · exact .inl rfl
    · rename_i hdisp
      exact .inr ⟨st, hst, by simpa using hdisp, rfl⟩

theorem tally_h2Mark {w : H2Event → Nat} (hw : ∀ i req, w (.dispatched i req) = 0)
    (c : Zh2Conn) (id : Nat) : tally w (h2Mark g c id).hist = tally w c.hist := by
  rcases h2Mark_hist (g := g) c id with hh | ⟨st, -, -, hh⟩
  · rw [hh]
  · rw [hh, tally_cons, hw, Nat.zero_add]

/-- Behind the block of stream `id`, every other stream has its request head. -/
theorem HdrInv.got_other (h : HdrInv g c) (he : c.gotError = false) (id : Nat)
    (hid : ∀ id', c.hdrStream = some id' → id' = id) :
    ∀ st ∈ c.streams, st.id ≠ id → st.gotHeaders = true := by
  intro st hst hne
  rcases h.got he st hst with hg | ⟨-, hs, -⟩
  · exact hg
  · exact absurd (hid _ hs) hne

theorem hdrCap_le : hdrCap g ≤ g.lim.maxHeaderBytes + 4096 := by
  unfold hdrCap
  split
  · omega
  · exact Nat.le_refl _

theorem HdrInv.step (h : HdrInv g c) (ht : TableInv g c) (hs : Step g c c') : HdrInv g c' := by
  have hlog : ∀ f, HdrInv g (c.log (.recv f)) := fun f => h.congr rfl rfl id
  have hempty : ([] : Bytes).length ≤ g.lim.maxHeaderBytes + 4096 := Nat.zero_le _
  -- between two frames no block is in progress, which closes every case but the last kinds
  cases hs with
  | setup => exact h.congr rfl rfl id
  | error => exact h.congr (by simp) (by simp) (by simp)
  | reject => exact h.congr (by simp) (by simp) (by simp)
  | ignore => exact hlog _
  | goaway => exact h.congr rfl rfl id
  | ping => exact h.congr rfl rfl id
  | @settings f w m =>
    exact HdrInv.congr (c := { c.log (.recv f) with streams := _ })
      ((hlog f).map (f := .shift _) (fun _ => rfl) (fun _ => rfl) fun _ => rfl) rfl rfl id
  | settingsFail w m code hb => exact .idle (by simpa using hb.2) (by simpa using h.block) (by simp)
  | windowConn => exact h.congr rfl rfl id
  | windowConnError => exact h.congr (by simp) (by simp) (by simp)
  | windowStream => exact (hlog _).update (fun _ => rfl) (fun _ => rfl) fun _ => rfl
  -- a stream taken out while no block is read is not the block's stream
  | @windowReset f st code hb =>
    have hupd : HdrInv g (updateStream (c.log (.recv f)) f.sid (.shift f.incr)) :=
      (hlog f).update (fun _ => rfl) (fun _ => rfl) fun _ => rfl
    have hids : (updateStream (c.log (.recv f)) f.sid (.shift f.incr)).ids = c.ids :=
      ids_updateStream fun _ => rfl
    exact (hupd.close_idle (hids ▸ ht.nodup) hb.2 f.sid).congr (by simp) (by simp) (by simp)
  | @peerReset f st n hb =>
    have hreset : HdrInv g { c.log (.recv f) with rapidReset := n } :=
      ⟨h.target, h.refused, h.id_le, h.got, h.block⟩
    exact hreset.close_idle ht.nodup hb.2 f.sid
  | @peerResetFlood f st n code hb =>
    have hreset : HdrInv g { c.log (.recv f) with rapidReset := n } :=
      ⟨h.target, h.refused, h.id_le, h.got, h.block⟩
    exact (hreset.close_idle ht.nodup hb.2 f.sid).congr (by simp) (by simp) (by simp)
  | dataClosed => exact h.congr (by simp) (by simp) (by simp)
  | dataIdle => exact h.congr (by simp) (by simp) (by simp)
  | @dataReset f st code hb =>
    exact ((hlog f).close_idle ht.nodup hb.2 f.sid).congr (by simp) (by simp) (by simp)
  | @data f st data =>
    have hbody : HdrInv g (Zcio.appendBody (c.log (.recv f)) f.sid data) :=
      (hlog f).update (fun _ => rfl) (fun _ => rfl) fun _ => rfl
    rw [recvConsumeStream_eq]
    refine HdrInv.update (hbody.congr ?_ ?_ ?_) (fun _ => rfl) (fun _ => rfl) fun _ => rfl
    · simp
    · simp
    · simp
  -- the streams marked have their head already, so that none is pending
  | @dataEnd f st data hb =>
    have hbody : HdrInv g (Zcio.appendBody (c.log (.recv f)) f.sid data) :=
      (hlog f).update (fun _ => rfl) (fun _ => rfl) fun _ => rfl
    have hconn : HdrInv g (recvConsumeConn (Zcio.appendBody (c.log (.recv f)) f.sid data)
        f.payload.length) := hbody.congr (by simp) (by simp) (by simp)
    refine .idle ?_ ?_ fun _ s hs => ?_
    · simpa [Zcio.appendBody] using hb.2
    · simpa [Zcio.appendBody] using h.block
    · obtain ⟨s', hs', hsame, -⟩ := h2Mark_mem hs
      have hgot : s'.gotHeaders = s.gotHeaders := by rw [← hsame]
      rw [← hgot]
      obtain ⟨s'', hs'', rfl⟩ := mem_updateStream.mp hs'
      have hall := hconn.all_got (by simpa [Zcio.appendBody, Zh2Conn.Between] using hb)
        s'' hs''
      split
      · exact hall
      · exact hall
  -- HEADERS begins a block: the new stream is its target and the only one without a head
  | @headers f hb hty hodd hlt =>
    refine ⟨?_, ?_, fun _ => Nat.le_refl _, ?_, hempty⟩
    · intro _ id hid
      cases hid
      refine ⟨rfl, rfl, _, List.mem_append_right _ (List.mem_singleton_self _), rfl, rfl⟩
    · intro _ hnone
      cases hnone
    · intro he st hst
      rcases List.mem_append.mp hst with hst | hst
      · exact .inl (h.all_got hb st hst)
      · cases List.mem_singleton.mp hst
        exact .inr ⟨rfl, rfl, rfl⟩
  -- a refused stream has no place in the table; its id is above all that have
  | @headersRefused f hb hty hlt =>
    refine ⟨?_, ?_, fun _ => Nat.le_refl _, ?_, hempty⟩
    · intro _ id hid
      cases hid
    · intro _ _ st hst heq
      have hle := ht.le_last st hst
      rw [show st.id = f.sid from heq] at hle
      omega
    · exact fun _ st hst => .inl (h.all_got hb st hst)
  -- trailers: the target is the stream that is open
  | @headersTrailer f st hb hty hst hopen =>
    obtain ⟨hmem, hstid⟩ := findStream_some hst
    refine ⟨?_, ?_, ?_, ?_, hempty⟩
    · intro _ id hid
      cases hid
      exact ⟨rfl, rfl, st, hmem, hstid, hopen⟩
    · intro _ hnone
      cases hnone
    · exact fun _ => hstid.symm.le.trans (ht.le_last st hmem)
    · exact fun _ st hst => .inl (h.all_got hb st hst)
  | continuation => exact ⟨h.target, h.refused, h.id_le, h.got, h.block⟩
  | @continuationFlood f =>
    have hcont : HdrInv g { c.log (.recv f) with contCount := c.contCount + 1 } :=
      ⟨h.target, h.refused, h.id_le, h.got, h.block⟩
    exact hcont.congr (by simp) (by simp) (by simp)
  -- the accumulated block is within the cap, as it was checked in front
  | @accumulate frag ha hcap =>
    refine ⟨h.target, h.refused, h.id_le, h.got, ?_⟩
    have hblock := h.block
    have := hdrCap_le (g := g)
    simp only [List.length_append]
    omega
  -- the block ends, and with it the target
  | blockError => exact .idle (by simp) (by simp) (by simp)
  -- the only stream without its head is the block's, which the reset takes away
  | @blockReset id code ha hrc hid =>
    refine .idle (by simp) (by simp) fun he st hst => ?_
    simp only [rstStream_frame] at he hst
    obtain ⟨hmem, hne⟩ := (mem_closeById (c := blockDone g c) ht.nodup).mp hst
    refine h.got_other he id (fun id' hid' => ?_) st hmem hne
    rw [hid] at hid'
    exact (Option.some.inj hid').symm
  -- a refused block has no stream in the table
  | @blockRefused code ha hrc href =>
    have hnone : c.hdrStream = none := by
      rcases href with hnone | hne
      · exact hnone
      · cases hstream : c.hdrStream with
        | none => rfl
        | some id => exact absurd (h.target ha id hstream).2.1 hne
    refine .idle (by simp) (by simp) fun he st hst => ?_
    simp only [qRst_frame, blockDone_frame] at he hst
    refine h.got_other he (st.id + 1) (fun id' hid' => ?_) st hst (by omega)
    rw [hnone] at hid'
    cases hid'
  -- the head is in, also at the block's own stream
  | @blockHead id body req ha hrc herr hid =>
    refine .idle (by simp) (by simp) fun he st hst => ?_
    obtain ⟨s, hs, rfl⟩ := mem_updateStream.mp hst
    split
    · rfl
    · rename_i hne
      refine h.got_other (by simpa using he) id (fun id' hid' => ?_) s hs hne
      rw [hid] at hid'
      exact (Option.some.inj hid').symm
  | @blockHeadEnd id body req ha hrc herr hid =>
    refine .idle (by simp) (by simp) fun he st hst => ?_
    obtain ⟨s, hs, hsame, -⟩ := h2Mark_mem hst
    have hgot : s.gotHeaders = st.gotHeaders := by rw [← hsame]
    rw [← hgot]
    obtain ⟨s', hs', rfl⟩ := mem_updateStream.mp hs
    split
    · rfl
    · rename_i hne
      refine h.got_other (by simpa using he) id (fun id' hid' => ?_) s' hs' hne
      rw [hid] at hid'
      exact (Option.some.inj hid').symm
  -- the streams all have their heads when the block is a trailer
  | @blockTrailer id ha hrc herr hid htr =>
    refine .idle (by simp) (by simp) fun he st hst => ?_
    obtain ⟨s, hs, hsame, -⟩ := h2Mark_mem hst
    have hgot : s.gotHeaders = st.gotHeaders := by rw [← hsame]
    rw [← hgot]
    obtain ⟨s', hs', rfl⟩ := mem_updateStream.mp hs
    have hall : s'.gotHeaders = true := by
      rcases h.got (by simpa using he) s' hs' with hg | ⟨-, -, hno⟩
      · exact hg
      · rw [htr] at hno
        cases hno
    split
    · exact hall
    · exact hall
  | @respond id st isHead status hdrs body hst hdisp hresp =>
    rw [zh2Respond_eq hst hresp]
    refine HdrInv.update (h.congr ?_ ?_ ?_) (fun _ => rfl) (fun _ => rfl) fun _ => rfl
    · simp
    · simp
    · simp
  | release => exact h.update (fun _ => rfl) (fun _ => rfl) fun _ => rfl
  -- a stream that is reaped has ended, hence is not the target of a block
  | @reap i st hst hsent hend =>
    rw [streamClose_eq_closeById ht.nodup hst]
    refine h.close ht.nodup fun ha hid => ?_
    obtain ⟨s, hs, hopen⟩ := h.findTarget ht.nodup ha hid
    obtain ⟨hmem, hsid⟩ := findStream_some hs
    cases eq_of_mem_of_id ht.nodup hmem (List.mem_of_getElem? hst) hsid
    rw [hend] at hopen
    cases hopen
  | @pump i st =>
    have hframe : HdrInv g (h2Frame c (dataFrame st (pumpChunk g c st))) := h.congr rfl rfl id
    have hupd : HdrInv g (updateStream (h2Frame c (dataFrame st (pumpChunk g c st))) st.id
        (.sentData (st.bodyOff + pumpChunk g c st = st.respBody.length) (pumpChunk g c st))) :=
      hframe.update (fun _ => rfl) (fun _ => rfl) fun _ => rfl
    exact hupd.congr rfl rfl id
  | graceful => exact h.congr (by simp) (by simp) (by simp)
  | drain => exact h.congr rfl rfl id

theorem FloodInv.step (h : FloodInv g c) (hs : Step g c c') : FloodInv g c' := by
  -- two counters move, each behind its own check; the flood exits close the connection
  cases hs with
  | peerReset hb _ _ _ hmax =>
    refine ⟨?_, ?_, ?_, ?_⟩
    · simpa using h.cont
    · simpa using h.cont_live
    · simpa using hmax.trans (Nat.le_succ _)
    · simpa using fun _ => hmax
  | peerResetFlood code hb _ _ hn =>
    have hrapid := h.rapid_live hb.1
    refine ⟨?_, ?_, ?_, ?_⟩
    · simpa using h.cont
    · simp
    · simpa using hn.trans (Nat.succ_le_succ hrapid)
    · simp
  | continuation _ _ _ hmax => exact ⟨hmax.trans (Nat.le_succ _), fun _ => hmax, h.rapid, h.rapid_live⟩
  | continuationFlood code he =>
    have hcont := h.cont_live he
    refine ⟨?_, ?_, ?_, ?_⟩
    · simpa using Nat.succ_le_succ hcont
    · simp
    · simpa using h.rapid
    · simp
  -- no other step touches the counters
  | setup => exact h.congr (.inl rfl) rfl id
  | error => exact h.congr (by simp) (by simp) (by simp)
  | reject => exact h.congr (by simp) (by simp) (by simp)
  | ignore => exact h.congr (.inl rfl) rfl id
  | goaway => exact h.congr (.inl rfl) rfl id
  | ping => exact h.congr (.inl rfl) rfl id
  | settings => exact h.congr (.inl rfl) rfl id
  | settingsFail => exact h.congr (by simp) (by simp) (by simp)
  | windowConn => exact h.congr (.inl rfl) rfl id
  | windowConnError => exact h.congr (by simp) (by simp) (by simp)
  | windowStream => exact h.congr (.inl rfl) rfl id
  | windowReset => exact h.congr (by simp) (by simp) (by simp)
  | dataClosed => exact h.congr (by simp) (by simp) (by simp)
  | dataIdle => exact h.congr (by simp) (by simp) (by simp)
  | dataReset => exact h.congr (by simp) (by simp) (by simp)
  | data =>
    rw [recvConsumeStream_eq]
    exact h.congr (by simp [Zcio.appendBody]) (by simp [Zcio.appendBody])
      (by simp [Zcio.appendBody])
  | dataEnd =>
    exact h.congr (by simp [Zcio.appendBody]) (by simp [Zcio.appendBody])
      (by simp [Zcio.appendBody])
  -- a new block starts the count of CONTINUATION frames again
  | headers => exact h.congr (.inr rfl) rfl id
  | headersRefused => exact h.congr (.inr rfl) rfl id
  | headersTrailer => exact h.congr (.inr rfl) rfl id
  | accumulate => exact h.congr (.inl rfl) rfl id
  | blockError => exact h.congr (by simp) (by simp) (by simp)
  | blockReset => exact h.congr (by simp) (by simp) (by simp)
  | blockRefused => exact h.congr (by simp) (by simp) (by simp)
  | blockHead => exact h.congr (by simp) (by simp) (by simp)
  | blockHeadEnd => exact h.congr (by simp) (by simp) (by simp)
  | blockTrailer => exact h.congr (by simp) (by simp) (by simp)
  | respond hst _ hresp =>
    rw [zh2Respond_eq hst hresp]
    exact h.congr (by simp) (by simp) (by simp)
  | release => exact h.congr (.inl rfl) rfl id
  | reap => exact h.congr (.inl rfl) rfl id
  | pump => exact h.congr (.inl rfl) rfl id
  | graceful => exact h.congr (by simp) (by simp) (by simp)
  | drain => exact h.congr (.inl rfl) rfl id

end Step

/-! ### Whole runs

Together the three invariants give the properties of the stream table in every state of a
run. -/

section Runs

variable {g} {c : Zh2Conn}

theorem Run.table (h : Run g c) : TableInv g c ∧ HdrInv g c := by
  refine h.induct (P := fun c => TableInv g c ∧ HdrInv g c) ?_ ?_
  · refine ⟨⟨rfl, Nat.zero_le _, List.nodup_nil, ?_, ?_, ?_, List.nodup_nil, ?_, ?_, ?_, [],
      Nat.le_refl _, fun _ => Nat.zero_le _, fun _ h => h, ?_⟩,
      .idle rfl (Nat.zero_le _) fun _ => ?_⟩
    all_goals
      intro _ hmem
      cases hmem
  · rintro c c' _ ⟨ht, hh⟩ hs
    exact ⟨ht.step hh hs, hh.step ht hs⟩

theorem Run.flood (h : Run g c) : FloodInv g c := by
  refine h.induct (P := fun c => FloodInv g c) ?_ fun c c' _ hf hs => hf.step hs
  exact ⟨Nat.zero_le _, fun _ => Nat.zero_le _, Nat.zero_le _, fun _ => Nat.zero_le _⟩

/-- Distinct dispatches, each on a stream that was counted. -/
theorem TableInv.dispatches_le (h : TableInv g c) (hreq : g.lim.maxRequestsPerConn ≠ 0) :
    (dispatches c.hist).length ≤ g.lim.maxRequestsPerConn := by
  obtain ⟨l, -, hmax, hsub, -⟩ := h.opened
  have hlen := (List.subperm_of_subset h.once hsub).length_le
  rw [dispatchedIds, List.length_map] at hlen
  exact hlen.trans (hmax hreq)

/-- **The stream-table invariant.** -/
theorem zh2_streamTable {cfg : ServerConfig} (hlim : g.lim = zhsLimitsResolve cfg)
    (h : Reachable g c) :
    (c.openCount = c.streams.length ∧ c.streams.length ≤ g.lim.maxStreams) ∧
    (c.streams.map (·.id)).Nodup ∧
    (∀ st ∈ c.streams, st.id % 2 = 1 ∧ st.id ≤ c.lastClientId) ∧
    (c.hdrActive = true → c.hdrStream = none ∨
      ∃ st ∈ c.streams, c.hdrStream = some st.id ∧ st.id = c.hdrId) ∧
    (c.gotError = false → c.hdrActive = false → ∀ st ∈ c.streams, st.gotHeaders = true) ∧
    (∀ st ∈ c.streams, (st.dispatched = true ↔ st.endStreamRecv = true) ∧
      (st.id ∈ dispatchedIds c.hist ↔ st.endStreamRecv = true)) ∧
    (dispatchedIds c.hist).Nodup ∧
    (dispatches c.hist).length ≤ g.lim.maxRequestsPerConn ∧
    (∀ st ∈ c.streams, st.req.body.length ≤ g.lim.maxBodyBytes) ∧
    (∀ p ∈ dispatches c.hist, p.2.body.length ≤ g.lim.maxBodyBytes) ∧
    c.hdrBlock.length ≤ g.lim.maxHeaderBytes + 4096 ∧
    c.contCount ≤ 65 ∧ c.rapidReset ≤ g.lim.maxStreams + 1 := by
  obtain ⟨ht, hh⟩ := h.run.table
  have hf := h.run.flood
  have hreq : g.lim.maxRequestsPerConn ≠ 0 := by
    rw [hlim]
    exact (zhsLimitsResolve_pos cfg).2.2.2.2.2.1.ne'
  refine ⟨⟨ht.count, ht.max⟩, ht.nodup, fun st hst => ⟨ht.odd st hst, ht.le_last st hst⟩, ?_,
    fun he ha => hh.all_got ⟨he, ha⟩, ?_, ht.once, ht.dispatches_le hreq,
    fun st hst => (ht.ok st hst).body, ht.bodies, hh.block, hf.cont, hf.rapid⟩
  · intro ha
    cases hid : c.hdrStream with
    | none => exact .inl rfl
    | some id =>
      obtain ⟨hid', -, st, hst, hstid, -⟩ := hh.target ha id hid
      exact .inr ⟨st, hst, congrArg some hstid.symm, hstid.trans hid'⟩
  · intro st hst
    have hended := (ht.ok st hst).ended
    rw [← ht.marked st hst, hended]
    exact ⟨Iff.rfl, Iff.rfl⟩

/-- The HEADERS frame of `GET / HTTP/2` on stream 1: static-table indices only. -/
def getRequest : Frame :=
  { type := ZH2_FT_HEADERS, flags := ZH2_FL_END_HEADERS ||| ZH2_FL_END_STREAM, sid := 1
    payload := [0x82, 0x86, 0x84] }

theorem zh2_streamTable_getRequest :
    dispatchedIds (silentFeed [getRequest]).hist = [1] ∧
    (dispatches (silentFeed [getRequest]).hist).length ≤
      H2Cfg.silent.lim.maxRequestsPerConn :=
  ⟨by decide +kernel,
    (zh2_streamTable (show H2Cfg.silent.lim = zhsLimitsResolve {} from rfl)
      (reachable_silentFeed _)).2.2.2.2.2.2.2.1⟩

/-- A header block that does not decode: index 0. -/
def badBlock : Frame :=
  { type := ZH2_FT_HEADERS, flags := ZH2_FL_END_HEADERS, sid := 1, payload := [0x80] }

/-- Behind a COMPRESSION_ERROR the stream whose block failed stays in the table, without a
request head and with no block in progress. -/
theorem zh2_streamTable_compressionError :
    ¬∀ c, Reachable .silent c → c.hdrActive = false → ∀ st ∈ c.streams, st.gotHeaders = true := by
  intro h
  have hfalse : (silentFeed [badBlock]).hdrActive = false := by decide +kernel
  have hst : (silentFeed [badBlock]).streams.map (·.gotHeaders) = [false] := by decide +kernel
  have hall := h _ (reachable_silentFeed [badBlock]) hfalse
  have hmem : false ∈ (silentFeed [badBlock]).streams.map (·.gotHeaders) := by simp [hst]
  obtain ⟨st, hmem, hgot⟩ := List.mem_map.mp hmem
  rw [hall st hmem] at hgot
  cases hgot

end Runs

end Zcio
