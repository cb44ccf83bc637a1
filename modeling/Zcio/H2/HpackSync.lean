import Zcio.H2.StreamTable
import Zcio.Hpack.Abort

/-!
# Zcio.H2.HpackSync

**HPACK table synchronisation.** The dynamic table is shared by all streams, so every
header block of the connection has to be read to its end, whatever becomes of its stream.
Refused streams and trailers are read so; but `h2_emit` rejects a malformed request by
aborting the block, and what the peer inserts behind the rejected field is lost.

`zh2_hpackSync` says when the table is the peer's nevertheless.
-/

namespace Zcio

/-! ### What the wire says

The reference reads every block in full, from the first one on. -/

/-- The header blocks completed, newest first; the flag marks trailers. -/
def blocksOf (h : List H2Event) : List (Bool × Bytes) :=
  h.filterMap fun e => match e with
    | .block trailer b => some (trailer, b)
    | _ => none

/-- The table of a decoder that read every block in full. -/
def refTable (blocks : List (Bool × Bytes)) : Hpack.Table :=
  Hpack.decodeAll none { max := ZHP_DEC_TABLE_MAX } (blocks.map (·.2)).reverse

/-- `h2_emit` rejects no field of a block that an insertion stands at or behind. -/
def Unhurt (lim : ZhsLimits) (t : Hpack.Table) (trailer : Bool) (b : Bytes) : Prop :=
  ∀ r ∈ abandoned (h2Emit lim) { trailer } (Hpack.reps t b), Hpack.changes r = false

/-- So it was for every block. -/
def AllUnhurt (lim : ZhsLimits) : List (Bool × Bytes) → Prop
  | [] => True
  | (trailer, b) :: bs => Unhurt lim (refTable bs) trailer b ∧ AllUnhurt lim bs

theorem refTable_cons (trailer : Bool) (b : Bytes) (bs : List (Bool × Bytes)) :
    refTable ((trailer, b) :: bs) = (Hpack.decode none (refTable bs) b).table := by
  simp [refTable, Hpack.decodeAll]

@[simp] theorem blocksOf_recv (f : Frame) (h : List H2Event) :
    blocksOf (.recv f :: h) = blocksOf h := rfl
@[simp] theorem blocksOf_sent (f : Frame) (h : List H2Event) :
    blocksOf (.sent f :: h) = blocksOf h := rfl
@[simp] theorem blocksOf_error (code : Nat) (h : List H2Event) :
    blocksOf (.error code :: h) = blocksOf h := rfl
@[simp] theorem blocksOf_dispatched (id : Nat) (req : HttpReq) (h : List H2Event) :
    blocksOf (.dispatched id req :: h) = blocksOf h := rfl
@[simp] theorem blocksOf_responded (id : Nat) (isHead : Bool) (status : Nat)
    (hdrs : List (Bytes × Bytes)) (body : RespBody) (h : List H2Event) :
    blocksOf (.responded id isHead status hdrs body :: h) = blocksOf h := rfl
@[simp] theorem blocksOf_block (trailer : Bool) (b : Bytes) (h : List H2Event) :
    blocksOf (.block trailer b :: h) = (trailer, b) :: blocksOf h := rfl

/-- Frames sent are not blocks. -/
@[simp] theorem blocksOf_ite_sent (p : Prop) [Decidable p] (f : Frame) (h : List H2Event) :
    blocksOf ((if p then [] else [.sent f]) ++ h) = blocksOf h := by
  split
  · rfl
  · rfl

theorem blocksOf_foldl_h2Frame (fs : List Frame) (c : Zh2Conn) :
    blocksOf (fs.foldl h2Frame c).hist = blocksOf c.hist := by
  induction fs generalizing c with
  | nil => rfl
  | cons f fs ih => rw [List.foldl_cons, ih]; rfl

section Step

variable {g : H2Cfg} {c c' : Zh2Conn}

@[simp] theorem blocksOf_h2Mark (c : Zh2Conn) (id : Nat) :
    blocksOf (h2Mark g c id).hist = blocksOf c.hist := by
  rcases h2Mark_hist (g := g) c id with hh | ⟨st, -, -, hh⟩
  · rw [hh]
  · rw [hh]
    rfl

/-! ### The sink

A field that the sink refuses stops the decoder within the block. -/

/-- A field that the sink takes raises no error. -/
theorem h2Emit_herr {lim : ZhsLimits} {x : HdrCtx} {name value : Bytes}
    (h : ¬(h2Emit lim x name value).2 ≠ 0) : (h2Emit lim x name value).1.herr = x.herr := by
  have hbad : ∀ y : HdrCtx, ¬¬y.bad.2 ≠ 0 := fun y => by simp [HdrCtx.bad]
  revert h
  unfold h2Emit
  split
  · unfold h2EmitPseudo
    repeat' split
    all_goals first
      | exact fun h => absurd h (hbad _)
      | exact fun _ => rfl
  · unfold h2EmitRegular
    dsimp only
    repeat' split
    all_goals first
      | exact fun h => absurd h (hbad _)
      | exact fun _ => rfl

/-- A block fails to decode only while its fields are fine. -/
theorem blockRes_herr {e : Fail} (h : (blockRes g c).rc = .fail e) :
    (blockRes g c).u.herr = false := by
  revert h
  refine Lib.loop_inv (zhpDecodeRound_decreases c.hdrBlock g.lim.maxHeaderBytes (h2Emit g.lim))
    (I := fun s => s.u.herr = false) (Q := fun r => r.rc = .fail e → r.u.herr = false) ?_ ?_ rfl
  · intro s s' hs hb
    unfold zhpDecodeRound at hb
    split at hb
    · split at hb
      · cases hb
      · cases hb
        exact hs
      · split at hb
        · cases hb
        · dsimp only at hb
          split at hb
          · cases hb
          · rename_i hacc
            cases hb
            exact (h2Emit_herr hacc).trans hs
    · cases hb
  · intro s r hs hb hrc
    unfold zhpDecodeRound at hb
    split at hb
    · split at hb
      · cases hb
        exact hs
      · cases hb
      · split at hb
        · cases hb
          exact hs
        · dsimp only at hb
          split at hb
          · cases hb
            cases hrc
          · cases hb
    · cases hb
      exact hs

/-! ### Steps

Between the blocks both tables stay; behind a block read in full they are the same again. -/

/-- A step reads a header block, or leaves the decoder alone. -/
theorem Step.decoded (hs : Step g c c') :
    (c'.dec = c.dec ∧ blocksOf c'.hist = blocksOf c.hist) ∨
    (c'.dec = (blockRes g c).d ∧
      blocksOf c'.hist = (c.hdrTrailer, c.hdrBlock) :: blocksOf c.hist ∧
      (c'.gotError = false → (blockRes g c).rc = .ok ∨ (blockRes g c).u.herr = true)) := by
  cases hs with
  | blockError => exact .inr ⟨by simp, by simp, by simp⟩
  | blockReset _ _ hdec => exact .inr ⟨by simp, by simp, fun _ => hdec⟩
  | blockRefused _ _ hdec => exact .inr ⟨by simp, by simp, fun _ => hdec⟩
  | blockHead _ hrc => exact .inr ⟨by simp, by simp, fun _ => .inl hrc⟩
  | blockHeadEnd _ hrc => exact .inr ⟨by simp, by simp, fun _ => .inl hrc⟩
  | blockTrailer _ hrc => exact .inr ⟨by simp, by simp, fun _ => .inl hrc⟩
  | respond hst _ hresp =>
    rw [zh2Respond_eq hst hresp]
    refine .inl ⟨by simp, ?_⟩
    simp only [updateStream_frame, blocksOf_foldl_h2Frame]
    rfl
  | data =>
    rw [recvConsumeStream_eq]
    exact .inl ⟨by simp [appendBody], by simp [appendBody]⟩
  | dataEnd => exact .inl ⟨by simp [appendBody], by simp [appendBody]⟩
  | pump =>
    rw [pumpData_eq]
    exact .inl ⟨rfl, rfl⟩
  | _ => exact .inl ⟨by simp, by simp⟩

/-- The decoder and the reference. -/
structure SyncInv (g : H2Cfg) (c : Zh2Conn) : Prop where
  dec : c.dec.Inv
  table : c.gotError = false → AllUnhurt g.lim (blocksOf c.hist) →
    c.dec.abs = refTable (blocksOf c.hist)

theorem SyncInv.step (h : SyncInv g c) (hs : Step g c c') : SyncInv g c' := by
  rcases hs.decoded with ⟨hdec, hblocks⟩ | ⟨hdec, hblocks, hok⟩
  · refine ⟨hdec ▸ h.dec, fun he hun => ?_⟩
    rw [hblocks] at hun ⊢
    rw [hdec]
    exact h.table (hs.gotError_mono he) hun
  · refine ⟨hdec ▸ zhpDecode_inv h.dec _ _ _ _, fun he hun => ?_⟩
    rw [hblocks] at hun ⊢
    obtain ⟨hlast, hbefore⟩ := hun
    have htable := h.table (hs.gotError_mono he) hbefore
    rw [hdec, refTable_cons, ← htable]
    refine zhpDecode_table h.dec ?_ (htable ▸ hlast)
    intro e hfail
    rcases hok he with hrc | herr
    · rw [blockRes, hfail] at hrc
      cases hrc
    · rw [blockRes_herr (g := g) (c := c) hfail] at herr
      cases herr

end Step

/-! ### Whole runs -/

section Runs

variable {g : H2Cfg} {c : Zh2Conn}

theorem Run.sync (h : Run g c) : SyncInv g c := by
  refine h.induct (P := fun c => SyncInv g c) ?_ fun c c' _ hi hs => hi.step hs
  exact ⟨ZhpDec.new_inv _, fun _ _ => rfl⟩

/-- **HPACK table synchronisation.** As long as no connection error was raised and no
insertion was lost to an abort, the table is that of a decoder that read every block in
full. -/
theorem zh2_hpackSync (h : Reachable g c) (he : c.gotError = false)
    (hun : AllUnhurt g.lim (blocksOf c.hist)) : c.dec.abs = refTable (blocksOf c.hist) :=
  h.run.sync.table he hun

/-- A request on stream 1 that inserts `x: y`. -/
def insertingRequest : Frame :=
  { type := ZH2_FT_HEADERS, flags := ZH2_FL_END_HEADERS ||| ZH2_FL_END_STREAM, sid := 1
    payload := [0x82, 0x86, 0x84, 0x40, 1, 120, 1, 121] }

theorem zh2_hpackSync_insertingRequest :
    (silentFeed [insertingRequest]).dec.abs = { max := 4096, entries := [.ascii "x" "y"] } ∧
    (silentFeed [insertingRequest]).dec.abs =
      refTable (blocksOf (silentFeed [insertingRequest]).hist) := by
  have hblocks : blocksOf (silentFeed [insertingRequest]).hist =
      [(false, [0x82, 0x86, 0x84, 0x40, 1, 120, 1, 121])] := by decide +kernel
  have hnone : abandoned (h2Emit (zhsLimitsResolve {})) {}
      (Hpack.reps (refTable []) [0x82, 0x86, 0x84, 0x40, 1, 120, 1, 121]) = [] := by decide +kernel
  refine ⟨by decide +kernel,
    zh2_hpackSync (reachable_silentFeed [insertingRequest]) (by decide +kernel) ?_⟩
  rw [hblocks]
  refine ⟨fun r hr => ?_, trivial⟩
  have hr : r ∈ abandoned (h2Emit (zhsLimitsResolve {})) {}
      (Hpack.reps (refTable []) [0x82, 0x86, 0x84, 0x40, 1, 120, 1, 121]) := hr
  rw [hnone] at hr
  cases hr

/-- A request on stream 1 that inserts `X: y`, which is malformed: names are lower case. -/
def uppercaseRequest : Frame :=
  { type := ZH2_FT_HEADERS, flags := ZH2_FL_END_HEADERS ||| ZH2_FL_END_STREAM, sid := 1
    payload := [0x82, 0x86, 0x84, 0x40, 1, 88, 1, 121] }

/-- The stream is reset, the connection goes on, and the entry is missing from the table. -/
theorem zh2_hpackSync_uppercaseRequest :
    ¬∀ c, Reachable .silent c → c.gotError = false →
      c.dec.abs = refTable (blocksOf c.hist) := by
  intro h
  have hsync := h _ (reachable_silentFeed [uppercaseRequest]) (by decide +kernel)
  revert hsync
  decide +kernel

end Runs

end Zcio
