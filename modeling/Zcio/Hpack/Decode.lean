import Zcio.Hpack.Prim

/-!
# Zcio.Hpack.Decode

The HPACK decoder of `hpack.c`: the dynamic table as the source keeps it — a deque
`e[head, tail)` in a growing array, oldest entry first — and `zhp_decode_`, the loop over
the field representations of one header block.

The emit callback is a parameter on a state `σ`; a nonzero return aborts the block.
-/

namespace Zcio

/-! ### The dynamic table

An array of fields with two indices; entries go out at the head and in at the tail. -/

/-- The accounted size of an entry (RFC 7541 section 4.1). -/
def Field.cost (f : Field) : Nat := f.name.length + f.value.length + 32

/-- `ZHP_DEC_TABLE_MAX`. -/
def ZHP_DEC_TABLE_MAX : Nat := 4096

/-- `struct zhp_dec`. `e` is the whole array; its length is the field `cap`. -/
structure ZhpDec where
  max : Nat
  used : Nat := 0
  e : List Field := []
  head : Nat := 0
  tail : Nat := 0
  deriving Repr, DecidableEq

namespace ZhpDec

def cap (d : ZhpDec) : Nat := d.e.length

/-- The live entries, oldest first. -/
def live (d : ZhpDec) : List Field := (d.e.take d.tail).drop d.head

/-- `zhp_dec_new_`. -/
def new (maxTableBytes : Nat) : ZhpDec :=
  { max := if maxTableBytes > ZHP_DEC_TABLE_MAX then ZHP_DEC_TABLE_MAX else maxTableBytes }

/-- `dec_evict`: drop the oldest entry; an emptied deque starts over at slot 0. -/
def evict (d : ZhpDec) : ZhpDec :=
  let o := d.e.getD d.head default
  let head := d.head + 1
  let used := d.used - (o.name.length + o.value.length + 32)
  if head = d.tail then { d with used, head := 0, tail := 0 } else { d with used, head }

/-- One round of `while (used + cost > max && head < tail) dec_evict(d)`; `dec_set_max`
runs it with no cost to make room for. -/
def evictRound (cost : Nat) (d : ZhpDec) : ZhpDec ⊕ ZhpDec :=
  if d.used + cost > d.max ∧ d.head < d.tail then .inl d.evict else .inr d

theorem evictRound_decreases (cost : Nat) :
    Lib.Decreases (evictRound cost) fun d => d.tail - d.head := by
  intro d d' h
  unfold evictRound at h
  split at h
  · cases h
    unfold evict
    dsimp only
    split
    · dsimp only; omega
    · dsimp only; omega
  · cases h

/-- Evict until `cost` more octets fit or the table is empty. -/
def evictFor (cost : Nat) (d : ZhpDec) : ZhpDec :=
  Lib.loop (evictRound cost) _ (evictRound_decreases cost) d

/-- `dec_set_max`. -/
def setMax (d : ZhpDec) (newmax : Nat) : ZhpDec := evictFor 0 { d with max := newmax }

/-- The growth step of `dec_reserve`: double the array. -/
def grow (d : ZhpDec) : ZhpDec :=
  let ncap := if d.cap ≠ 0 then d.cap * 2 else 16
  { d with e := d.e ++ List.replicate (ncap - d.cap) default }

/-- `dec_reserve`: make `e[tail]` writable, by compaction if the deque has a dead prefix,
else by growth. -/
def reserve (d : ZhpDec) : ZhpDec :=
  if d.tail < d.cap then d
  else if d.head > 0 then
    let n := d.tail - d.head
    let d := { d with e := (d.e.drop d.head).take n ++ d.e.drop n, head := 0, tail := n }
    if d.tail < d.cap then d else d.grow
  else d.grow

/-- `dec_add`: insert a newest entry, evicting the oldest to fit. -/
def add (d : ZhpDec) (f : Field) : ZhpDec :=
  let cost := f.name.length + f.value.length + 32
  let d := evictFor cost d
  if cost > d.max then d
  else
    let d := d.reserve
    { d with e := d.e.set d.tail f, tail := d.tail + 1, used := d.used + cost }

/-- `hpack_resolve`: static entries first, then the dynamic table from the newest. -/
def resolve (d : ZhpDec) (idx : Nat) : Except Fail Field :=
  if idx = 0 then zcioFail .protocol "hpack: index 0"
  else if idx ≤ HPACK_STATIC.length then .ok (HPACK_STATIC.getD (idx - 1) default)
  else
    let di := idx - HPACK_STATIC.length - 1
    if di ≥ d.tail - d.head then zcioFail .protocol "hpack: index out of range"
    else .ok (d.e.getD (d.tail - 1 - di) default)

end ZhpDec

/-! ### Field representations

The four kinds of RFC 7541 6, told apart by the top bits of the first octet. -/

/-- `hpack_string`: the string literal at `pos` and the position behind it. -/
def hpackString (block : Bytes) (pos maxOut : Nat) : Except Fail (Bytes × Nat) :=
  if pos ≥ block.length then zcioFail .protocol "hpack: truncated string"
  else
    let huff := block.getD pos 0 &&& 0x80 ≠ 0
    match zhpIntDecode (block.drop pos) 7 with
    | .error e => .error e
    | .ok (c, slen) =>
      let pos := pos + c
      if slen > block.length - pos then zcioFail .protocol "hpack: string exceeds block"
      else
        let s := (block.drop pos).take slen
        let pos := pos + slen
        if huff then
          match zhpHuffDecode s maxOut with
          | .error e => .error e
          | .ok out => .ok (out, pos)
        else if slen > maxOut then zcioFail .protocol "hpack: string exceeds limit"
        else .ok (s, pos)

/-- `hpack_literal`: a name (by reference or literal) followed by a literal value. -/
def hpackLiteral (d : ZhpDec) (block : Bytes) (pos prefixBits maxOut : Nat) :
    Except Fail (Field × Nat) :=
  match zhpIntDecode (block.drop pos) prefixBits with
  | .error e => .error e
  | .ok (c, nidx) =>
    let pos := pos + c
    let name := if nidx = 0 then hpackString block pos maxOut
      else (d.resolve nidx).map fun f => (f.name, pos)
    match name with
    | .error e => .error e
    | .ok (nm, pos) =>
      match hpackString block pos maxOut with
      | .error e => .error e
      | .ok (vl, pos) => .ok (⟨nm, vl⟩, pos)

/-- What one representation of a block stands for. -/
inductive HpackRep where
  /-- A field, to be added to the dynamic table or not. -/
  | field (f : Field) (add : Bool)
  /-- A dynamic table size update. -/
  | resize (n : Nat)
  deriving Repr, DecidableEq

/-- The representation at `pos` of the block, and the position behind it: the four-way
branch at the top of the loop of `zhp_decode_`. -/
def hpackRep (d : ZhpDec) (block : Bytes) (pos maxOut : Nat) (seenField : Bool) :
    Except Fail (HpackRep × Nat) :=
  let b := block.getD pos 0
  if b &&& 0x80 ≠ 0 then
    match zhpIntDecode (block.drop pos) 7 with
    | .error e => .error e
    | .ok (c, idx) => (d.resolve idx).map fun f => (.field f false, pos + c)
  else if b &&& 0x40 ≠ 0 then
    (hpackLiteral d block pos 6 maxOut).map fun r => (.field r.1 true, r.2)
  else if b &&& 0x20 ≠ 0 then
    if seenField then zcioFail .protocol "hpack: size update after field line"
    else
      match zhpIntDecode (block.drop pos) 5 with
      | .error e => .error e
      | .ok (c, newmax) =>
        if newmax > ZHP_DEC_TABLE_MAX then zcioFail .protocol "hpack: size update exceeds cap"
        else .ok (.resize newmax, pos + c)
  else (hpackLiteral d block pos 4 maxOut).map fun r => (.field r.1 false, r.2)

/-! ### `zhp_decode_` -/

/-- `zhp_emit_fn`, on the caller's context `σ`. -/
abbrev EmitFn (σ : Type) := σ → Bytes → Bytes → σ × Int

/-- The return value of `zhp_decode_`: success, a decoding error, or whatever the emit
callback aborted with. -/
inductive DecodeRc where
  | ok
  | fail (e : Fail)
  | stopped (r : Int)
  deriving Repr, DecidableEq

/-- The loop variables of `zhp_decode_`. -/
structure DecodeSt (σ : Type) where
  pos : Nat := 0
  decoded : Nat := 0
  seenField : Bool := false
  d : ZhpDec
  u : σ

/-- The result of `zhp_decode_`: its return value, the decoder and the caller's context. -/
structure DecodeRes (σ : Type) where
  rc : DecodeRc
  d : ZhpDec
  u : σ
  deriving DecidableEq

section

variable {σ : Type}

/-- One round of `zhp_decode_`. The field is emitted before the table changes. -/
def zhpDecodeRound (block : Bytes) (maxDecoded : Nat) (emit : EmitFn σ) (s : DecodeSt σ) :
    DecodeSt σ ⊕ DecodeRes σ :=
  if s.pos < block.length then
    match hpackRep s.d block s.pos maxDecoded s.seenField with
    | .error e => .inr ⟨.fail e, s.d, s.u⟩
    | .ok (.resize n, pos) => .inl { s with pos, d := s.d.setMax n }
    | .ok (.field f add, pos) =>
      if f.name.length > maxDecoded - s.decoded ∨
          f.value.length > maxDecoded - s.decoded - f.name.length then
        .inr ⟨.fail ⟨.protocol, "hpack: header list too large"⟩, s.d, s.u⟩
      else
        let er := emit s.u f.name f.value
        if er.2 ≠ 0 then .inr ⟨.stopped er.2, s.d, er.1⟩
        else
          .inl { pos, decoded := s.decoded + (f.name.length + f.value.length)
                 seenField := true, d := if add then s.d.add f else s.d, u := er.1 }
  else .inr ⟨.ok, s.d, s.u⟩

/-! ### Progress

Every representation takes an octet at least, which makes the loop end. -/

theorem zhpIntCont_gt {v shift i : Nat} {p : Bytes} {c x : Nat}
    (h : zhpIntCont v shift i p = .ok (c, x)) : i < c := by
  induction p generalizing v shift i with
  | nil => cases h
  | cons b rest ih =>
    rw [zhpIntCont] at h
    split at h
    · cases h
    · split at h
      · cases h; omega
      · split at h
        · cases h
        · have := ih h
          omega

theorem zhpIntDecode_pos {p : Bytes} {n c x : Nat} (h : zhpIntDecode p n = .ok (c, x)) :
    0 < c := by
  unfold zhpIntDecode at h
  split at h
  · cases h
  · dsimp only at h
    split at h
    · cases h; omega
    · have := zhpIntCont_gt h
      omega

theorem hpackString_gt {block : Bytes} {pos maxOut pos' : Nat} {s : Bytes}
    (h : hpackString block pos maxOut = .ok (s, pos')) : pos < pos' := by
  unfold hpackString at h
  split at h
  · cases h
  · dsimp only at h
    split at h
    · cases h
    · rename_i c slen hint
      have := zhpIntDecode_pos hint
      split at h
      · cases h
      · split at h
        · split at h
          · cases h
          · cases h; omega
        · split at h
          · cases h
          · cases h; omega

theorem hpackLiteral_gt {d : ZhpDec} {block : Bytes} {pos n maxOut pos' : Nat} {f : Field}
    (h : hpackLiteral d block pos n maxOut = .ok (f, pos')) : pos < pos' := by
  unfold hpackLiteral at h
  split at h
  · cases h
  · rename_i c nidx hint
    have hc := zhpIntDecode_pos hint
    dsimp only at h
    split at h
    · cases h
    · rename_i nm pos1 hname
      have hpos1 : pos + c ≤ pos1 := by
        split at hname
        · exact Nat.le_of_lt (hpackString_gt hname)
        · cases hr : d.resolve nidx with
          | error e => rw [hr] at hname; cases hname
          | ok f => rw [hr] at hname; cases hname; exact le_refl _
      split at h
      · cases h
      · rename_i vl pos2 hval
        have := hpackString_gt hval
        cases h
        omega

theorem hpackRep_gt {d : ZhpDec} {block : Bytes} {pos maxOut pos' : Nat} {seen : Bool}
    {r : HpackRep} (h : hpackRep d block pos maxOut seen = .ok (r, pos')) : pos < pos' := by
  unfold hpackRep at h
  dsimp only at h
  split at h
  · split at h
    · cases h
    · rename_i c idx hint
      have := zhpIntDecode_pos hint
      cases hr : d.resolve idx with
      | error e => rw [hr] at h; cases h
      | ok f => rw [hr] at h; cases h; omega
  · split at h
    · cases hl : hpackLiteral d block pos 6 maxOut with
      | error e => rw [hl] at h; cases h
      | ok r => rw [hl] at h; cases h; exact hpackLiteral_gt hl
    · split at h
      · split at h
        · cases h
        · split at h
          · cases h
          · rename_i c newmax hint
            have := zhpIntDecode_pos hint
            split at h
            · cases h
            · cases h; omega
      · cases hl : hpackLiteral d block pos 4 maxOut with
        | error e => rw [hl] at h; cases h
        | ok r => rw [hl] at h; cases h; exact hpackLiteral_gt hl

theorem zhpDecodeRound_decreases (block : Bytes) (maxDecoded : Nat) (emit : EmitFn σ) :
    Lib.Decreases (zhpDecodeRound block maxDecoded emit) fun s => block.length - s.pos := by
  intro s s' h
  unfold zhpDecodeRound at h
  split at h
  · split at h
    · cases h
    · rename_i n pos hrep
      have := hpackRep_gt hrep
      cases h
      dsimp only
      omega
    · rename_i f add pos hrep
      have := hpackRep_gt hrep
      split at h
      · cases h
      · dsimp only at h
        split at h
        · cases h
        · cases h
          dsimp only
          omega
  · cases h

/-- `zhp_decode_`: decode one complete header block. -/
def zhpDecode (d : ZhpDec) (block : Bytes) (maxDecoded : Nat) (emit : EmitFn σ) (u : σ) :
    DecodeRes σ :=
  Lib.loop (zhpDecodeRound block maxDecoded emit) _
    (zhpDecodeRound_decreases block maxDecoded emit) { d, u }

/-- **What every emit keeps, the decoder keeps.** -/
theorem zhpDecode_sink {I : σ → Prop} {emit : EmitFn σ}
    (hemit : ∀ u name value, I u → I (emit u name value).1) (d : ZhpDec) (block : Bytes)
    (maxDecoded : Nat) {u : σ} (hu : I u) : I (zhpDecode d block maxDecoded emit u).u := by
  refine Lib.loop_inv (zhpDecodeRound_decreases block maxDecoded emit) (I := fun s => I s.u)
    (Q := fun r => I r.u) ?_ ?_ hu
  · intro s s' hs hb
    unfold zhpDecodeRound at hb
    split at hb
    · split at hb
      · cases hb
      · cases hb
        exact hs
      · split at hb
        · cases hb
        · dsimp only at hb
          split at hb
          · cases hb
          · cases hb
            exact hemit _ _ _ hs
    · cases hb
  · intro s r hs hb
    unfold zhpDecodeRound at hb
    split at hb
    · split at hb
      · cases hb
        exact hs
      · cases hb
      · split at hb
        · cases hb
          exact hs
        · dsimp only at hb
          split at hb
          · cases hb
            exact hemit _ _ _ hs
          · cases hb
    · cases hb
      exact hs

end

/-- The emit callback that collects the fields and never aborts. -/
def collect : EmitFn (List Field) := fun u name value => (u ++ [⟨name, value⟩], 0)

end Zcio
