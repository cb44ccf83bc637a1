import Zcio.Qpack.Codec
import Zcio.Qpack.Spec

/-!
# Zcio.Qpack.Refine

The decoder of `qpack.c` against the decoder of `Zcio.Qpack.Spec`. The code looks every line up as
it reads it and passes its cap to the Huffman decoder; that changes nothing, since a string over
the cap makes a field over the cap. It ignores the sign of the base, and four values of its
static table differ from the ones of the RFC.
-/

namespace Zcio

open Qpack (Line)
open Lib.Bits (and_ne_zero_iff)

/-! ### Octets

The bits that tell the representations apart, as comparisons. -/

theorem bit7_iff (b : UInt8) : b &&& 0x80 ≠ 0 ↔ b.toNat.testBit 7 = true := and_ne_zero_iff rfl

theorem bit6_iff (b : UInt8) : b &&& 0x40 ≠ 0 ↔ b.toNat.testBit 6 = true := and_ne_zero_iff rfl

theorem bit5_iff (b : UInt8) : b &&& 0x20 ≠ 0 ↔ b.toNat.testBit 5 = true := and_ne_zero_iff rfl

theorem bit4_iff (b : UInt8) : b &&& 0x10 ≠ 0 ↔ b.toNat.testBit 4 = true := and_ne_zero_iff rfl

theorem bit7_eq (b : UInt8) : (b &&& 0x80 != 0) = b.toNat.testBit 7 :=
  Bool.eq_iff_iff.mpr (bne_iff_ne.trans (bit7_iff b))

theorem bit3_eq (b : UInt8) : (b &&& 0x08 != 0) = b.toNat.testBit 3 :=
  Bool.eq_iff_iff.mpr (bne_iff_ne.trans (and_ne_zero_iff rfl))

/-! ### Readers

The prefix integers and strings of the code against those of the specification. A reader of
the code may fail on a string that is too long, which the specification only limits as a
whole. -/

section

variable {α : Type}

/-- A reader of the block that fails only where the reader of the specification does or what it
reads is too long. -/
def ReadsAs (block : Bytes) (tooLong : α → Prop) (o : Option (α × Bytes)) :
    Except Fail (α × Nat) → Prop
  | .ok (a, pos) => o = some (a, block.drop pos) ∧ ¬tooLong a
  | .error e => e.code = .protocol ∧ ∀ a rest, o = some (a, rest) → tooLong a

theorem ReadsAs.fail {block : Bytes} {tooLong : α → Prop} {o : Option (α × Bytes)} {e : Fail}
    (he : e.code = .protocol) (ho : o = none) : ReadsAs block tooLong o (.error e) := by
  refine ⟨he, fun a rest h => ?_⟩
  rw [ho] at h
  cases h

end

/-- An integer in the middle of a block. -/
theorem int_drop (block : Bytes) (pos : Nat) {n : Nat} (hn : n ≤ 8) :
    match zhpIntDecode (block.drop pos) n with
    | .error e => e.code = .protocol ∧ Hpack.int n (block.drop pos) = none
    | .ok (c, v) =>
      Hpack.int n (block.drop pos) = some (v, block.drop (pos + c)) ∧ v ≤ ZHP_INT_MAX := by
  rw [int_eq]
  cases h : zhpIntDecode (block.drop pos) n with
  | error e => exact ⟨zhpIntDecode_protocol h, rfl⟩
  | ok r =>
    obtain ⟨c, v⟩ := r
    refine ⟨?_, ((zhpIntDecode_eq_ok hn).mp h).2.2⟩
    rw [← List.drop_drop]
    rfl

theorem qpackReadString_readsAs {n : Nat} (hn : n ≤ 8) (block : Bytes) (pos m : Nat) (huff : Bool) :
    ReadsAs block (fun s => m < s.length) (Qpack.string n huff (block.drop pos))
      (qpackReadString block pos huff n m) := by
  have hint := int_drop block pos hn
  unfold qpackReadString Qpack.string
  -- the length, as a prefix integer
  cases hdec : zhpIntDecode (block.drop pos) n with
  | error e =>
    rw [hdec] at hint
    rw [hint.2]
    exact ReadsAs.fail hint.1 rfl
  | ok r =>
    obtain ⟨c, slen⟩ := r
    rw [hdec] at hint
    obtain ⟨heq, hmax⟩ := hint
    rw [heq]
    dsimp only
    rw [List.length_drop]
    -- the octets announced are there
    by_cases hlen : slen ≤ block.length - (pos + c)
    · rw [if_pos hlen, if_neg (Nat.not_lt.mpr hlen), List.drop_drop]
      have htake : ((block.drop (pos + c)).take slen).length = slen := by
        rw [List.length_take, List.length_drop, Nat.min_eq_left hlen]
      -- Huffman coded: the limit is on the decoded text
      cases huff with
      | true =>
        have hsize : ((block.drop (pos + c)).take slen).length ≤ SIZE_MAX / 8 := by
          rw [htake]
          exact hmax.trans (by decide)
        have hhuff := zhpHuffDecode_toOption hsize m
        rw [if_pos rfl, if_pos rfl]
        cases hout : zhpHuffDecode ((block.drop (pos + c)).take slen) m with
        | error e =>
          rw [hout] at hhuff
          refine ⟨zhpHuffDecode_protocol hout, fun s rest h => ?_⟩
          obtain ⟨out, hrfc, heq⟩ := Option.map_eq_some_iff.mp h
          cases heq
          rw [hrfc, Option.filter_some] at hhuff
          -- a decoding within the limit would have succeeded
          by_contra hshort
          rw [if_pos (decide_eq_true (Nat.not_lt.mp hshort))] at hhuff
          cases hhuff
        | ok out =>
          rw [hout] at hhuff
          obtain ⟨hrfc, hshort⟩ := Option.filter_eq_some_iff.mp hhuff.symm
          refine ⟨?_, Nat.not_lt.mpr (of_decide_eq_true hshort)⟩
          rw [hrfc]
          rfl
      -- plain: the limit is on the octets themselves
      | false =>
        rw [if_neg Bool.false_ne_true, if_neg Bool.false_ne_true]
        by_cases hlong : slen > m
        · rw [if_pos hlong]
          refine ⟨rfl, fun s rest h => ?_⟩
          cases h
          rwa [htake]
        · rw [if_neg hlong]
          refine ⟨rfl, ?_⟩
          show ¬m < _
          rwa [htake]
    · -- the string is longer than the block
      rw [if_neg hlen, if_pos (Nat.not_le.mp hlen)]
      exact ReadsAs.fail rfl rfl

theorem qpackValue_readsAs (block : Bytes) (pos m : Nat) :
    ReadsAs block (fun s => m < s.length) (Qpack.value (block.drop pos)) (qpackValue block pos m) := by
  unfold qpackValue Qpack.value
  by_cases hpos : pos ≥ block.length
  · rw [if_pos hpos, List.drop_of_length_le hpos]
    exact ReadsAs.fail rfl rfl
  · rw [if_neg hpos, headD_drop, ← bit7_eq]
    exact qpackReadString_readsAs (by decide) block pos m _

/-- What a line of the block comes to against a line of the specification. -/
def LineReadsAs (block : Bytes) (m : Nat) (o : Option (Line × Bytes)) :
    Except Fail (Field × Nat) → Prop
  | .ok (f, pos) => ∃ l, o = some (l, block.drop pos) ∧ l.field QPACK_STATIC = some f
  | .error e => e.code = .protocol ∧ ∀ l rest f, o = some (l, rest) →
      l.field QPACK_STATIC = some f → m < f.name.length + f.value.length

theorem LineReadsAs.fail {block : Bytes} {m : Nat} {o : Option (Line × Bytes)} {e : Fail}
    (he : e.code = .protocol) (ho : o = none) : LineReadsAs block m o (.error e) := by
  refine ⟨he, fun l rest f h => ?_⟩
  rw [ho] at h
  cases h

/-- **One field line.** -/
theorem qpackLine_readsAs (block : Bytes) (pos m : Nat) :
    LineReadsAs block m (Qpack.line (block.drop pos)) (qpackLine block pos m) := by
  unfold qpackLine Qpack.line
  rw [headD_drop]
  dsimp only
  generalize block.getD pos 0 = b
  by_cases h7 : b &&& 0x80 ≠ 0
  · -- an indexed line
    rw [if_pos h7, if_pos ((bit7_iff b).mp h7)]
    by_cases h6 : b &&& 0x40 = 0
    · rw [if_pos h6, if_neg ((bit6_iff b).not.mp (not_not.mpr h6))]
      exact LineReadsAs.fail rfl rfl
    · rw [if_neg h6, if_pos ((bit6_iff b).mp h6)]
      have hint := int_drop block pos (n := 6) (by decide)
      cases hdec : zhpIntDecode (block.drop pos) 6 with
      | error e =>
        rw [hdec] at hint
        exact LineReadsAs.fail hint.1 (by rw [hint.2]; rfl)
      | ok r =>
        rw [hdec] at hint
        rw [hint.1]
        dsimp only [Option.map_some]
        cases hf : QPACK_STATIC[r.2]? with
        | none =>
          refine ⟨rfl, fun l rest f h hfield => ?_⟩
          cases h
          rw [Line.field, hf] at hfield
          cases hfield
        | some f => exact ⟨_, rfl, hf⟩
  · rw [if_neg h7, if_neg ((bit7_iff b).not.mp h7)]
    by_cases h6 : b &&& 0x40 ≠ 0
    · -- a name reference
      rw [if_pos h6, if_pos ((bit6_iff b).mp h6)]
      by_cases h4 : b &&& 0x10 = 0
      · rw [if_pos h4, if_neg ((bit4_iff b).not.mp (not_not.mpr h4))]
        exact LineReadsAs.fail rfl rfl
      · rw [if_neg h4, if_pos ((bit4_iff b).mp h4)]
        have hint := int_drop block pos (n := 4) (by decide)
        cases hdec : zhpIntDecode (block.drop pos) 4 with
        | error e =>
          rw [hdec] at hint
          exact LineReadsAs.fail hint.1 (by rw [hint.2]; rfl)
        | ok r =>
          rw [hdec] at hint
          rw [hint.1]
          dsimp only [Option.bind_some]
          have hvalue := qpackValue_readsAs block (pos + r.1) m
          cases hf : QPACK_STATIC[r.2]? with
          | none =>
            refine ⟨rfl, fun l rest f h hfield => ?_⟩
            obtain ⟨v, -, heq⟩ := Option.map_eq_some_iff.mp h
            cases heq
            rw [Line.field, hf] at hfield
            cases hfield
          | some f =>
            dsimp only
            cases hv : qpackValue block (pos + r.1) m with
            | error e =>
              rw [hv] at hvalue
              refine ⟨hvalue.1, fun l rest f' h hfield => ?_⟩
              obtain ⟨v, hval, heq⟩ := Option.map_eq_some_iff.mp h
              cases heq
              rw [Line.field, hf] at hfield
              cases hfield
              exact Nat.lt_add_left _ (hvalue.2 _ _ hval)
            | ok v =>
              rw [hv] at hvalue
              refine ⟨.named r.2 v.1, by rw [hvalue.1]; rfl, ?_⟩
              rw [Line.field, hf]
              rfl
    · rw [if_neg h6, if_neg ((bit6_iff b).not.mp h6)]
      by_cases h5 : b &&& 0x20 ≠ 0
      · -- a literal name
        rw [if_pos h5, if_pos ((bit5_iff b).mp h5), bit3_eq]
        have hname := qpackReadString_readsAs (n := 3) (by decide) block pos m (b.toNat.testBit 3)
        cases hn : qpackReadString block pos (b.toNat.testBit 3) 3 m with
        | error e =>
          rw [hn] at hname
          refine ⟨hname.1, fun l rest f h hfield => ?_⟩
          obtain ⟨nm, hnm, h⟩ := Option.bind_eq_some_iff.mp h
          obtain ⟨v, -, heq⟩ := Option.map_eq_some_iff.mp h
          cases heq
          cases hfield
          exact Nat.lt_add_right _ (hname.2 _ _ hnm)
        | ok nm =>
          rw [hn] at hname
          rw [hname.1]
          dsimp only [Option.bind_some]
          have hvalue := qpackValue_readsAs block nm.2 m
          cases hv : qpackValue block nm.2 m with
          | error e =>
            rw [hv] at hvalue
            refine ⟨hvalue.1, fun l rest f h hfield => ?_⟩
            obtain ⟨v, hval, heq⟩ := Option.map_eq_some_iff.mp h
            cases heq
            cases hfield
            exact Nat.lt_add_left _ (hvalue.2 _ _ hval)
          | ok v =>
            rw [hv] at hvalue
            exact ⟨.literal nm.1 v.1, by rw [hvalue.1]; rfl, rfl⟩
      · rw [if_neg h5, if_neg ((bit5_iff b).not.mp h5)]
        split
        · exact LineReadsAs.fail rfl rfl
        · exact LineReadsAs.fail rfl rfl

/-! ### Sections

Line by line the code and the specification agree, up to the first line that either refuses.
-/

/-- The code's result agrees with the specification's: the return value and the fields
emitted. -/
structure QpAgrees (r : DecodeRc × List Field) (s : Qpack.Res) : Prop where
  rc : (r.1 = .ok ∧ s.ok = true) ∨ (∃ e, r.1 = .fail e ∧ e.code = .protocol) ∧ s.ok = false
  fields : r.2 = s.fields

/-- **The loop over the lines** of a section, from the middle of a block. -/
theorem zqpDecode_from (block : Bytes) (m : Nat) (s : QpDecodeSt (List Field)) {n : Nat}
    (hn : block.length - s.pos ≤ n) (hdecoded : s.decoded ≤ m) :
    let ls := Qpack.linesFrom n (block.drop s.pos)
    let fs := Qpack.fields QPACK_STATIC (m - s.decoded) ls.1
    QpAgrees (Lib.loop (zqpDecodeRound block m collect) _
      (zqpDecodeRound_decreases block m collect) s) ⟨fs.2 && ls.2, s.u ++ fs.1⟩ := by
  induction n generalizing s with
  | zero =>
    have hend : ¬s.pos < block.length := by omega
    have hround : zqpDecodeRound block m collect s = .inr (.ok, s.u) := by
      unfold zqpDecodeRound
      rw [if_neg hend]
    rw [Lib.loop_of_inr hround, List.drop_of_length_le (Nat.not_lt.mp hend)]
    exact ⟨.inl ⟨rfl, rfl⟩, (List.append_nil _).symm⟩
  | succ n ih =>
    by_cases hpos : s.pos < block.length
    · have hne : (block.drop s.pos).isEmpty = false := by
        rw [List.isEmpty_eq_false_iff, ne_eq, List.drop_eq_nil_iff]
        omega
      have hline := qpackLine_readsAs block s.pos m
      rw [Qpack.linesFrom, hne, if_neg Bool.false_ne_true]
      cases hl : qpackLine block s.pos m with
      | error e =>
        rw [hl] at hline
        have hround : zqpDecodeRound block m collect s = .inr (.fail e, s.u) := by
          unfold zqpDecodeRound
          rw [if_pos hpos, hl]
        rw [Lib.loop_of_inr hround]
        cases hspec : Qpack.line (block.drop s.pos) with
        | none => exact ⟨.inr ⟨⟨e, rfl, hline.1⟩, rfl⟩, (List.append_nil _).symm⟩
        | some r =>
          -- a line that the specification reads does not fit
          dsimp only
          have hstop : Qpack.fields QPACK_STATIC (m - s.decoded) (r.1 :: (Qpack.linesFrom n r.2).1) =
              ([], false) := by
            rw [Qpack.fields]
            cases hf : r.1.field QPACK_STATIC with
            | none => rfl
            | some f =>
              have hlong := hline.2 r.1 r.2 f hspec hf
              dsimp only
              rw [if_neg (by omega)]
          rw [hstop]
          exact ⟨.inr ⟨⟨e, rfl, hline.1⟩, rfl⟩, (List.append_nil _).symm⟩
      | ok r =>
        obtain ⟨f, pos⟩ := r
        rw [hl] at hline
        obtain ⟨l, hspec, hf⟩ := hline
        have hgt := qpackLine_gt hl
        rw [hspec]
        dsimp only
        rw [Qpack.fields, hf]
        dsimp only
        by_cases hfit : f.name.length + f.value.length ≤ m - s.decoded
        · have hround : zqpDecodeRound block m collect s = .inl
              ⟨pos, s.decoded + (f.name.length + f.value.length), s.u ++ [f]⟩ := by
            unfold zqpDecodeRound
            rw [if_pos hpos, hl]
            dsimp only
            rw [if_neg (by omega)]
            rfl
          rw [Lib.loop_of_inl hround, if_pos hfit]
          have hrest := ih ⟨pos, s.decoded + (f.name.length + f.value.length), s.u ++ [f]⟩
            (by show block.length - pos ≤ n; omega) (by dsimp only; omega)
          dsimp only at hrest
          rw [List.append_assoc, ← Nat.sub_sub] at hrest
          exact hrest
        · have hround : zqpDecodeRound block m collect s =
              .inr (.fail ⟨.protocol, "qpack: header list too large"⟩, s.u) := by
            unfold zqpDecodeRound
            rw [if_pos hpos, hl]
            dsimp only
            rw [if_pos (by omega)]
          rw [Lib.loop_of_inr hround, if_neg hfit]
          exact ⟨.inr ⟨⟨_, rfl, rfl⟩, rfl⟩, (List.append_nil _).symm⟩
    · have hround : zqpDecodeRound block m collect s = .inr (.ok, s.u) := by
        unfold zqpDecodeRound
        rw [if_neg hpos]
      rw [Lib.loop_of_inr hround, List.drop_of_length_le (Nat.not_lt.mp hpos)]
      exact ⟨.inl ⟨rfl, rfl⟩, (List.append_nil _).symm⟩

theorem fieldsSize_fields (table : List Field) (ls : List Line) (room : Nat) :
    fieldsSize (Qpack.fields table room ls).1 ≤ room := by
  induction ls generalizing room with
  | nil => exact Nat.zero_le _
  | cons l ls ih =>
    rw [Qpack.fields]
    split
    · exact Nat.zero_le _
    · rename_i f hf
      dsimp only
      split
      · rename_i hfit
        rw [fieldsSize_cons]
        have hrest := ih (room - (f.name.length + f.value.length))
        omega
      · exact Nat.zero_le _

/-! ### The sign of the base

The code masks the sign bit away, so that it reads a section as if the bit were clear. -/

/-- The section with the sign bit of its base cleared. -/
def Qpack.unsigned : Bytes → Bytes
  | ric :: base :: rest => ric :: (base &&& 0x7f) :: rest
  | bs => bs

/-- An integer depends on the prefix bits of the first octet. -/
theorem int_congr {n : Nat} {b c : UInt8} (h : b.toNat % 2 ^ n = c.toNat % 2 ^ n) (bs : Bytes) :
    Hpack.int n (b :: bs) = Hpack.int n (c :: bs) := by
  unfold Hpack.int
  dsimp only
  rw [h]

theorem clear_sign (b : UInt8) :
    (b &&& 0x7f).toNat % 2 ^ 7 = b.toNat % 2 ^ 7 ∧ (b &&& 0x7f).toNat.testBit 7 = false := by
  have hand : (b &&& 0x7f).toNat = b.toNat % 2 ^ 7 := by
    rw [UInt8.toNat_and]
    exact Nat.and_two_pow_sub_one_eq_mod b.toNat 7
  rw [hand, Nat.mod_mod, Nat.testBit_mod_two_pow]
  exact ⟨rfl, rfl⟩

/-- Zero with a prefix of eight bits is a zero octet. -/
theorem int_eight_zero {b : UInt8} {bs rest : Bytes} (h : Hpack.int 8 (b :: bs) = some (0, rest)) :
    b = 0 ∧ rest = bs := by
  have hb : b.toNat % 2 ^ 8 = b.toNat := Nat.mod_eq_of_lt b.toNat_lt
  unfold Hpack.int at h
  dsimp only at h
  rw [hb] at h
  split at h
  · rw [Option.some.injEq, Prod.mk.injEq] at h
    exact ⟨UInt8.toNat_inj.mp h.1, h.2.symm⟩
  · split at h
    · cases h
    · split at h
      · rw [Option.some.injEq, Prod.mk.injEq] at h
        omega
      · cases h

/-- Another first octet is a required insert count that is not zero. -/
theorem sectionStart_ric {a : UInt8} (ha : a ≠ 0) (bs : Bytes) : Qpack.sectionStart (a :: bs) = none := by
  unfold Qpack.sectionStart
  cases hint : Hpack.int 8 (a :: bs) with
  | none => rfl
  | some r =>
    obtain ⟨ric, rest⟩ := r
    have hric : ric ≠ 0 := by
      rintro rfl
      exact ha (int_eight_zero hint).1
    dsimp only
    rw [if_pos (.inl hric)]

/-- **The prefix of a section**, read as if the sign bit were clear. -/
theorem qpackSectionStart_spec (block : Bytes) :
    match qpackSectionStart block with
    | .ok pos => Qpack.sectionStart (Qpack.unsigned block) = some (block.drop pos)
    | .error e => e.code = .protocol ∧ Qpack.sectionStart (Qpack.unsigned block) = none := by
  cases block with
  | nil => exact ⟨rfl, rfl⟩
  | cons a bs =>
    -- a Required Insert Count of zero: no entry of the dynamic table is meant
    by_cases ha : a = 0
    · subst ha
      cases bs with
      | nil => exact ⟨rfl, rfl⟩
      | cons b rest =>
        -- the sign bit is not read, so that clearing it changes nothing here
        obtain ⟨hmod, hsign⟩ := clear_sign b
        have hbase := int_drop (0 :: b :: rest) 1 (n := 7) (by decide)
        have hstart : Qpack.sectionStart (Qpack.unsigned (0 :: b :: rest)) =
            (Hpack.int 7 (b :: rest)).map Prod.snd := by
          rw [← int_congr hmod]
          show (if (0 : Nat) ≠ 0 ∨ (b &&& 0x7f).toNat.testBit 7 = true then none
            else (Hpack.int 7 ((b &&& 0x7f) :: rest)).map Prod.snd) = _
          rw [hsign, if_neg (by simp)]
        have hcode : qpackSectionStart (0 :: b :: rest) =
            match zhpIntDecode (b :: rest) 7 with
            | .error e => .error e
            | .ok (c', _) => .ok (1 + c') := rfl
        rw [List.drop_succ_cons, List.drop_zero] at hbase
        rw [hstart, hcode]
        cases hdec : zhpIntDecode (b :: rest) 7 with
        | error e =>
          rw [hdec] at hbase
          exact ⟨hbase.1, by rw [hbase.2]; rfl⟩
        | ok r =>
          rw [hdec] at hbase
          dsimp only
          rw [hbase.1]
          rfl
    · -- any other count asks for a dynamic table, which this decoder has not
      have hnone : Qpack.sectionStart (Qpack.unsigned (a :: bs)) = none := by
        cases bs with
        | nil => exact sectionStart_ric ha []
        | cons b rest => exact sectionStart_ric ha _
      rw [hnone]
      have hric := int_drop (a :: bs) 0 (n := 8) (by decide)
      rw [List.drop_zero] at hric
      unfold qpackSectionStart
      cases hdec : zhpIntDecode (a :: bs) 8 with
      | error e =>
        rw [hdec] at hric
        exact ⟨hric.1, rfl⟩
      | ok r =>
        obtain ⟨c, ric⟩ := r
        rw [hdec] at hric
        -- a count that decodes to zero starts with the octet zero
        have hne : ric ≠ 0 := by
          rintro rfl
          exact ha (int_eight_zero hric.1).1
        dsimp only
        rw [if_pos hne]
        exact ⟨rfl, rfl⟩

/-- **A section decodes as specified**, over the table of the code and without the sign. -/
theorem zqpDecode_agrees (block : Bytes) (m : Nat) :
    QpAgrees (zqpDecode block m collect []) (Qpack.decode QPACK_STATIC m (Qpack.unsigned block)) := by
  have hstart := qpackSectionStart_spec block
  unfold zqpDecode Qpack.decode
  cases hs : qpackSectionStart block with
  | error e =>
    rw [hs] at hstart
    rw [hstart.2]
    exact ⟨.inr ⟨⟨e, rfl, hstart.1⟩, rfl⟩, rfl⟩
  | ok pos =>
    rw [hs] at hstart
    rw [hstart]
    have hlines := zqpDecode_from block m ⟨pos, 0, []⟩
      (List.length_drop (l := block)).ge (Nat.zero_le m)
    rw [Nat.sub_zero] at hlines
    exact hlines

/-! ### Sections as lists of fields

A section that is accepted gives the list of its fields, and the sink sees them in order. -/

/-- The fields within the cap are all of them if the lines have fields of that size. -/
theorem fields_complete {table : List Field} {room : Nat} {ls : List Line} {fs : List Field} :
    Qpack.fields table room ls = (fs, true) ↔
      ls.mapM (Line.field table) = some fs ∧ fieldsSize fs ≤ room := by
  -- line by line, with the room that the fields before have left
  induction ls generalizing room fs with
  | nil =>
    rw [Qpack.fields, List.mapM_nil]
    constructor
    · intro h
      cases h
      exact ⟨rfl, Nat.zero_le _⟩
    · rintro ⟨h, -⟩
      cases h
      rfl
  | cons l ls ih =>
    rw [Qpack.fields, List.mapM_cons]
    cases hl : l.field table with
    -- a line that names no field stops both
    | none => exact ⟨nofun, fun h => nomatch h.1⟩
    | some f =>
      dsimp only
      have hrest := @ih (room - (f.name.length + f.value.length))
      generalize Qpack.fields table (room - (f.name.length + f.value.length)) ls = r at hrest
      obtain ⟨gs, all⟩ := r
      cases hmap : ls.mapM (Line.field table) with
      -- a line further back names no field
      | none =>
        have hall : all = false := by
          rw [← Bool.not_eq_true]
          rintro rfl
          exact nomatch hmap.symm.trans (hrest.mp rfl).1
        subst hall
        refine ⟨fun h => ?_, fun h => nomatch h.1⟩
        split at h
        · cases h
        · cases h
      -- all lines behind it do, and the sizes decide
      | some gs' =>
        rw [hmap] at hrest
        constructor
        · intro h
          by_cases hfit : f.name.length + f.value.length ≤ room
          · rw [if_pos hfit] at h
            cases h
            obtain ⟨heq, hsize⟩ := hrest.mp rfl
            cases heq
            refine ⟨rfl, ?_⟩
            change f.name.length + f.value.length + fieldsSize gs ≤ room
            omega
          · rw [if_neg hfit] at h
            cases h
        · rintro ⟨heq, hsize⟩
          cases heq
          rw [fieldsSize_cons] at hsize
          have hr := hrest.mpr ⟨rfl, by omega⟩
          cases hr
          rw [if_pos (by omega)]

/-- **A section is accepted** if it is well formed and its fields are within the cap. -/
theorem decode_eq_ok {table : List Field} {cap : Nat} {block : Bytes} {fs : List Field} :
    Qpack.decode table cap block = ⟨true, fs⟩ ↔
      Qpack.sectionFields table block = some fs ∧ fieldsSize fs ≤ cap := by
  rw [Qpack.decode, Qpack.sectionFields]
  cases Qpack.sectionStart block with
  | none => simp
  | some bs =>
    dsimp only [Option.bind_some, Qpack.decodeLines]
    generalize Qpack.linesFrom bs.length bs = ls
    have hcomplete := @fields_complete table cap ls.1 fs
    cases ls.2 with
    | false => simp
    | true =>
      rw [if_pos rfl, ← hcomplete, Bool.and_true]
      constructor
      · intro h
        rw [Qpack.Res.mk.injEq] at h
        exact Prod.ext h.2 h.1
      · intro h
        rw [h]

section

variable {σ : Type} {emit : EmitFn σ}

/-- Two runs of the decoder over a block: one that hands the fields to `emit`, and one that only
collects them. -/
theorem zqpDecode_loop_foldl (hemit : ∀ u name value, (emit u name value).2 = 0) (block : Bytes) (m : Nat)
    (u₀ : σ) (s : QpDecodeSt (List Field)) {t : QpDecodeSt σ} (hpos : t.pos = s.pos) (hdecoded : t.decoded = s.decoded)
    (hu : t.u = s.u.foldl (fun u f => (emit u f.name f.value).1) u₀) :
    Lib.loop (zqpDecodeRound block m emit) _ (zqpDecodeRound_decreases block m emit) t =
      let r := Lib.loop (zqpDecodeRound block m collect) _ (zqpDecodeRound_decreases block m collect) s
      (r.1, r.2.foldl (fun u f => (emit u f.name f.value).1) u₀) := by
  -- both loops read the same octets; the sink only collects what the other is called with
  refine Lib.loop_induct (zqpDecodeRound_decreases block m collect)
    (P := fun s r => ∀ t : QpDecodeSt σ, t.pos = s.pos → t.decoded = s.decoded →
      t.u = s.u.foldl (fun u f => (emit u f.name f.value).1) u₀ →
      Lib.loop (zqpDecodeRound block m emit) _ (zqpDecodeRound_decreases block m emit) t =
        (r.1, r.2.foldl (fun u f => (emit u f.name f.value).1) u₀)) ?_ ?_ s t hpos hdecoded hu
  · intro s r hround t hpos hdecoded hu
    -- the last round of the collecting loop is the last one of the other
    unfold zqpDecodeRound at hround
    split at hround
    · rename_i hmore
      split at hround
      · rename_i e hline
        cases hround
        have hstop : zqpDecodeRound block m emit t = .inr (.fail e, t.u) := by
          rw [zqpDecodeRound, hpos, if_pos hmore, hline]
        rw [Lib.loop_of_inr hstop, hu]
      · rename_i f pos hline
        split at hround
        · rename_i hlarge
          cases hround
          have hstop : zqpDecodeRound block m emit t =
              .inr (.fail ⟨.protocol, "qpack: header list too large"⟩, t.u) := by
            rw [zqpDecodeRound, hpos, if_pos hmore, hline, hdecoded]
            dsimp only
            rw [if_pos hlarge]
          rw [Lib.loop_of_inr hstop, hu]
        · cases hround
    · rename_i hend
      cases hround
      have hstop : zqpDecodeRound block m emit t = .inr (.ok, t.u) := by
        rw [zqpDecodeRound, hpos, if_neg hend]
      rw [Lib.loop_of_inr hstop, hu]
  · -- a round that goes on emits the one field to both
    intro s s' r hround ih t hpos hdecoded hu
    unfold zqpDecodeRound at hround
    split at hround
    · rename_i hmore
      split at hround
      · cases hround
      · rename_i f pos hline
        split at hround
        · cases hround
        · rename_i hfit
          cases hround
          have hgo : zqpDecodeRound block m emit t =
              .inl ⟨pos, t.decoded + (f.name.length + f.value.length), (emit t.u f.name f.value).1⟩ := by
            rw [zqpDecodeRound, hpos, if_pos hmore, hline]
            dsimp only
            rw [hdecoded, if_neg hfit, hemit]
            rfl
          rw [Lib.loop_of_inl hgo]
          refine ih _ rfl (by dsimp only; rw [hdecoded]) ?_
          dsimp only [collect]
          rw [hu, List.foldl_append]
          rfl
    · cases hround

/-- **An emit that never stops the decoder** is given the fields one after the other. -/
theorem zqpDecode_foldl (hemit : ∀ u name value, (emit u name value).2 = 0) (block : Bytes) (m : Nat) (u : σ) :
    zqpDecode block m emit u =
      ((zqpDecode block m collect []).1,
        (zqpDecode block m collect []).2.foldl (fun u f => (emit u f.name f.value).1) u) := by
  rw [zqpDecode, zqpDecode]
  cases qpackSectionStart block with
  | error e => rfl
  | ok pos => exact zqpDecode_loop_foldl hemit block m u ⟨pos, 0, []⟩ rfl rfl rfl

end

/-- The decoder emits no more than the cap. -/
theorem fieldsSize_zqpDecode (block : Bytes) (m : Nat) :
    fieldsSize (zqpDecode block m collect []).2 ≤ m := by
  rw [(zqpDecode_agrees block m).fields]
  unfold Qpack.decode
  split
  · exact Nat.zero_le _
  · exact fieldsSize_fields QPACK_STATIC _ m

/-! ### The static table

The table of the code differs from that of RFC 9204 in rows that are misprinted. Names agree
throughout, and every section that uses none of these rows means the same. -/

/-- The entries whose values in `QPACK_STATIC` lack the spaces behind the semicolons. -/
def Qpack.misprinted : List Nat := [52, 57, 58, 85]

/-- The table of the code with its four values corrected. -/
theorem static_set : Qpack.STATIC = (((QPACK_STATIC.set 52 (.ascii "content-type" "text/html; charset=utf-8")).set 57
    (.ascii "strict-transport-security" "max-age=31536000; includesubdomains")).set 58
    (.ascii "strict-transport-security" "max-age=31536000; includesubdomains; preload")).set 85
    (.ascii "content-security-policy" "script-src 'none'; object-src 'none'; base-uri 'none'") := rfl

/-- A value that is corrected leaves its name. -/
theorem map_name_set {l : List Field} {i : Nat} {f : Field} (h : l[i]?.map Field.name = some f.name) :
    (l.set i f).map Field.name = l.map Field.name := by
  refine List.ext_getElem? fun j => ?_
  rw [List.getElem?_map, List.getElem?_map, List.getElem?_set]
  split
  · rename_i hij
    subst hij
    rw [h]
    split
    · rfl
    · rename_i hlen
      rw [List.getElem?_eq_none (Nat.not_lt.mp hlen)] at h
      cases h
  · rfl

theorem static_names : QPACK_STATIC.map Field.name = Qpack.STATIC.map Field.name := by
  rw [static_set, map_name_set rfl, map_name_set rfl, map_name_set rfl, map_name_set rfl]

theorem static_eq {i : Nat} (h : i ∉ Qpack.misprinted) : QPACK_STATIC[i]? = Qpack.STATIC[i]? := by
  have hne : ∀ j ∈ Qpack.misprinted, j ≠ i := fun j hj hji => h (hji ▸ hj)
  rw [static_set, List.getElem?_set_ne (hne 85 (by decide)), List.getElem?_set_ne (hne 58 (by decide)),
    List.getElem?_set_ne (hne 57 (by decide)), List.getElem?_set_ne (hne 52 (by decide))]

/-- The two tables name the same fields. -/
theorem Qpack.Line.field_eq {l : Line} (h : ∀ i, l = .indexed i → i ∉ Qpack.misprinted) :
    l.field QPACK_STATIC = l.field Qpack.STATIC := by
  cases l with
  | indexed i => exact static_eq (h i rfl)
  | named i value =>
    have hname := congrArg (fun names : List Bytes => names[i]?) static_names
    simp only [List.getElem?_map] at hname
    have hfield := congrArg (Option.map fun name => (⟨name, value⟩ : Field)) hname
    rwa [Option.map_map, Option.map_map] at hfield
  | literal name value => rw [Line.field, Line.field]

theorem fields_static {ls : List Line} (h : ∀ i, Line.indexed i ∈ ls → i ∉ Qpack.misprinted)
    (room : Nat) : Qpack.fields QPACK_STATIC room ls = Qpack.fields Qpack.STATIC room ls := by
  induction ls generalizing room with
  | nil => rw [Qpack.fields, Qpack.fields]
  | cons l ls ih =>
    have hl : l.field QPACK_STATIC = l.field Qpack.STATIC :=
      Line.field_eq fun i hi => h i (hi ▸ List.mem_cons_self)
    have hls := ih fun i hi => h i (List.mem_cons_of_mem _ hi)
    rw [Qpack.fields, Qpack.fields, hl]
    split
    · rfl
    · dsimp only
      rw [hls]

theorem decode_static {block : Bytes}
    (h : ∀ i, Line.indexed i ∈ Qpack.lines block → i ∉ Qpack.misprinted) (m : Nat) :
    Qpack.decode QPACK_STATIC m block = Qpack.decode Qpack.STATIC m block := by
  unfold Qpack.decode
  unfold Qpack.lines at h
  cases hstart : Qpack.sectionStart block with
  | none => rfl
  | some bs =>
    rw [hstart] at h
    dsimp only at h ⊢
    unfold Qpack.decodeLines
    dsimp only
    rw [fields_static h]

/-! ### What the encoder writes

Every section that the server writes is one that the specification reads back to the same
fields. -/

/-- A bit of the first octet of an integer comes from its flags. -/
theorem testBit_zhpIntEncode {n v : Nat} {flags : UInt8} (hn : n ≤ 8)
    (hflags : flags.toNat % 2 ^ n = 0) {i : Nat} {p : Bool}
    (h : ∀ k < 2 ^ n, (flags.toNat + k).testBit i = p) (rest : Bytes) :
    ((zhpIntEncode n flags v ++ rest).headD 0).toNat.testBit i = p := by
  rw [headD_zhpIntEncode hn hflags]
  have hpos := Nat.two_pow_pos n
  exact h _ (by omega)

theorem string_raw {n : Nat} {flags : UInt8} (hn : n ≤ 8) (hflags : flags.toNat % 2 ^ n = 0)
    {s : Bytes} (hs : s.length ≤ ZHP_INT_MAX) (rest : Bytes) :
    Qpack.string n false (zhpIntEncode n flags s.length ++ (s ++ rest)) = some (s, rest) := by
  unfold Qpack.string
  rw [int_flags hn hflags hs]
  dsimp only
  rw [if_pos (by simp), if_neg Bool.false_ne_true, List.take_left, List.drop_left]
  rfl

theorem value_qpackRawString {s : Bytes} (hs : s.length ≤ ZHP_INT_MAX) (rest : Bytes) :
    Qpack.value (qpackRawString s ++ rest) = some (s, rest) := by
  unfold Qpack.value qpackRawString
  rw [List.append_assoc, testBit_zhpIntEncode (n := 7) (p := false) (by decide) rfl (by decide)]
  exact string_raw (by decide) rfl hs rest

/-- `bs` is read as a line for the field `f`, whatever follows. -/
def QpEncodes (bs : Bytes) (f : Field) : Prop :=
  ∀ rest, ∃ l, Qpack.line (bs ++ rest) = some (l, rest) ∧ l.field QPACK_STATIC = some f

/-- A line with a name reference. -/
theorem named_encodes {i : Nat} {f : Field} {value : Bytes} (hf : QPACK_STATIC[i]? = some f)
    (hvalue : value.length ≤ ZHP_INT_MAX) :
    QpEncodes (zhpIntEncode 4 0x50 i ++ qpackRawString value) ⟨f.name, value⟩ := by
  intro rest
  have hi : i ≤ ZHP_INT_MAX := by
    have hlt : i < 99 := length_QPACK_STATIC ▸ (List.getElem?_eq_some_iff.mp hf).1
    exact (Nat.le_of_lt hlt).trans (by decide)
  refine ⟨.named i value, ?_, by rw [Line.field, hf]; rfl⟩
  unfold Qpack.line
  rw [List.append_assoc]
  dsimp only
  rw [testBit_zhpIntEncode (n := 4) (i := 7) (p := false) (by decide) rfl (by decide),
    testBit_zhpIntEncode (n := 4) (i := 6) (p := true) (by decide) rfl (by decide),
    testBit_zhpIntEncode (n := 4) (i := 4) (p := true) (by decide) rfl (by decide),
    if_neg Bool.false_ne_true, if_pos rfl, if_pos rfl, int_flags (by decide) rfl hi,
    Option.bind_some, value_qpackRawString hvalue]
  rfl

/-- A line with a literal name. -/
theorem literal_encodes {name value : Bytes} (hname : name.length ≤ ZHP_INT_MAX)
    (hvalue : value.length ≤ ZHP_INT_MAX) :
    QpEncodes (zhpIntEncode 3 0x20 name.length ++ name ++ qpackRawString value) ⟨name, value⟩ := by
  intro rest
  refine ⟨.literal name value, ?_, rfl⟩
  unfold Qpack.line
  rw [List.append_assoc, List.append_assoc]
  dsimp only
  rw [testBit_zhpIntEncode (n := 3) (i := 7) (p := false) (by decide) rfl (by decide),
    testBit_zhpIntEncode (n := 3) (i := 6) (p := false) (by decide) rfl (by decide),
    testBit_zhpIntEncode (n := 3) (i := 5) (p := true) (by decide) rfl (by decide),
    testBit_zhpIntEncode (n := 3) (i := 3) (p := false) (by decide) rfl (by decide),
    if_neg Bool.false_ne_true, if_neg Bool.false_ne_true, if_pos rfl,
    string_raw (by decide) rfl hname, Option.bind_some, value_qpackRawString hvalue]
  rfl

/-- An indexed line. -/
theorem indexed_encodes {i : Nat} {f : Field} (hf : QPACK_STATIC[i]? = some f) :
    QpEncodes (zhpIntEncode 6 0xC0 i) f := by
  intro rest
  have hi : i ≤ ZHP_INT_MAX := by
    have hlt : i < 99 := length_QPACK_STATIC ▸ (List.getElem?_eq_some_iff.mp hf).1
    exact (Nat.le_of_lt hlt).trans (by decide)
  refine ⟨.indexed i, ?_, hf⟩
  unfold Qpack.line
  dsimp only
  rw [testBit_zhpIntEncode (n := 6) (i := 7) (p := true) (by decide) rfl (by decide),
    testBit_zhpIntEncode (n := 6) (i := 6) (p := true) (by decide) rfl (by decide),
    if_pos rfl, if_pos rfl, int_flags (by decide) rfl hi]
  rfl

theorem qpack_static_lower : ∀ f ∈ QPACK_STATIC, lower f.name = f.name := by
  rw [QPACK_STATIC]
  repeat refine lowerTable_cons (by decide) ?_
  exact lowerTable_nil

/-- The name an encoded field is read back with. -/
def qpackEmittedName (name : Bytes) : Bytes :=
  if ∃ f ∈ QPACK_STATIC, f.name = lower name then lower name else name

/-- **Fields round-trip.** -/
theorem zqpEncode_encodes {name value : Bytes} (hname : name.length ≤ ZHP_INT_MAX)
    (hvalue : value.length ≤ ZHP_INT_MAX) :
    QpEncodes (zqpEncode name value) ⟨qpackEmittedName name, value⟩ := by
  unfold zqpEncode
  cases hidx : qpackStaticNameIndex name with
  | none =>
    have hno : ¬∃ f ∈ QPACK_STATIC, f.name = lower name := by
      rintro ⟨f, hmem, heq⟩
      have hne := List.findIdx?_eq_none_iff.mp hidx f hmem
      rw [ciEq, qpack_static_lower f hmem, heq, beq_self_eq_true] at hne
      cases hne
    rw [qpackEmittedName, if_neg hno]
    exact literal_encodes hname hvalue
  | some i =>
    obtain ⟨hi, heq, -⟩ := List.findIdx?_eq_some_iff_getElem.mp hidx
    have hmem : QPACK_STATIC[i] ∈ QPACK_STATIC := List.getElem_mem hi
    have hlow : QPACK_STATIC[i].name = lower name := by
      have hci : lower QPACK_STATIC[i].name = lower name := by simpa [ciEq] using heq
      rwa [qpack_static_lower _ hmem] at hci
    rw [qpackEmittedName, if_pos ⟨_, hmem, hlow⟩, ← hlow]
    exact named_encodes (List.getElem?_eq_getElem hi) hvalue

/-- A status with an entry of its own stands at that entry. -/
theorem qpackStatusIndex_eq {status i : Nat} (h : qpackStatusIndex status = some i) :
    QPACK_STATIC[i]? = some ⟨str ":status", decimal status⟩ := by
  have hmem : status ∈ [100, 103, 200, 204, 206, 302, 304, 400, 403, 404, 421, 425, 500, 503] := by
    unfold qpackStatusIndex at h
    split at h
    all_goals first
      | decide
      | cases h
  have hstatic := qpackStatusIndex_static status hmem
  rwa [h] at hstatic

/-- **Statuses round-trip.** -/
theorem zqpEncodeStatus_encodes {status : Nat} (hstatus : status ≤ 599) :
    QpEncodes (zqpEncodeStatus status) ⟨str ":status", decimal status⟩ := by
  unfold zqpEncodeStatus
  cases hidx : qpackStatusIndex status with
  | some i => exact indexed_encodes (qpackStatusIndex_eq hidx)
  | none =>
    have hlen : (decimal status).length ≤ ZHP_INT_MAX :=
      (length_decimal_le (k := 3) (by decide) (by omega)).trans (by decide)
    have hname : QPACK_STATIC[QPACK_STATUS_NAME_IDX]? = some (.ascii ":status" "103") := by
      decide
    exact named_encodes hname hlen

/-- **Encoded lines** decode to their fields. -/
theorem linesFrom_encodes {bss : List Bytes} {fs : List Field} (h : List.Forall₂ QpEncodes bss fs)
    {n room : Nat} (hn : bss.flatten.length ≤ n) (hroom : fieldsSize fs ≤ room) :
    Qpack.fields QPACK_STATIC room (Qpack.linesFrom n bss.flatten).1 = (fs, true) ∧
      (Qpack.linesFrom n bss.flatten).2 = true := by
  induction h generalizing n room with
  | nil =>
    cases n with
    | zero => exact ⟨rfl, rfl⟩
    | succ n => exact ⟨rfl, rfl⟩
  | @cons bs f bss fs hf _ ih =>
    have hne : bs ≠ [] := by
      rintro rfl
      obtain ⟨l, hl, -⟩ := hf []
      cases hl
    have hpos := List.length_pos_iff.mpr hne
    rw [List.flatten_cons, List.length_append] at hn
    rw [fieldsSize_cons] at hroom
    cases n with
    | zero => omega
    | succ n =>
      obtain ⟨l, hl, hfield⟩ := hf bss.flatten
      have hcons : (bs ++ bss.flatten).isEmpty = false := by
        rw [List.isEmpty_eq_false_iff]
        exact List.append_ne_nil_of_left_ne_nil hne _
      have hroom' : fieldsSize fs ≤ room - (f.name.length + f.value.length) := by omega
      obtain ⟨hfs, hall⟩ := ih (by omega : _ ≤ n) hroom'
      rw [List.flatten_cons, Qpack.linesFrom, hcons, if_neg Bool.false_ne_true, hl]
      dsimp only
      rw [Qpack.fields, hfield]
      dsimp only
      rw [if_pos (by omega), hfs]
      exact ⟨rfl, hall⟩

theorem sectionStart_zqpPrefixEncode (bs : Bytes) :
    Qpack.sectionStart (Qpack.unsigned (zqpPrefixEncode ++ bs)) = some bs := by
  have hric : Hpack.int 8 (0x00 :: 0x00 :: bs) = some (0, 0x00 :: bs) := rfl
  have hbase : Hpack.int 7 (0x00 :: bs) = some (0, bs) := rfl
  show Qpack.sectionStart (0x00 :: 0x00 :: bs) = some bs
  unfold Qpack.sectionStart
  rw [hric]
  dsimp only
  rw [hbase, if_neg (by rw [List.headD_cons]; decide)]
  rfl

/-- A section behind the prefix of the encoder. -/
theorem zqpDecode_encodes {bss : List Bytes} {fs : List Field} (h : List.Forall₂ QpEncodes bss fs)
    {m : Nat} (hm : fieldsSize fs ≤ m) :
    zqpDecode (zqpPrefixEncode ++ bss.flatten) m collect [] = (.ok, fs) := by
  have hag := zqpDecode_agrees (zqpPrefixEncode ++ bss.flatten) m
  have hdec : Qpack.decode QPACK_STATIC m (Qpack.unsigned (zqpPrefixEncode ++ bss.flatten)) =
      ⟨true, fs⟩ := by
    obtain ⟨hfs, hall⟩ := linesFrom_encodes h (Nat.le_refl _) hm
    rw [Qpack.decode, sectionStart_zqpPrefixEncode]
    dsimp only
    unfold Qpack.decodeLines
    dsimp only
    rw [hfs, hall]
    rfl
  rw [hdec] at hag
  refine Prod.ext ?_ hag.fields
  rcases hag.rc with hok | hbad
  · exact hok.1
  · exact absurd hbad.2 Bool.true_eq_false.mp

/-- The fields of a response head. -/
def qpackEmitted (status : Nat) (fields : List (CStr × CStr)) : List Field :=
  ⟨str ":status", decimal status⟩ :: fields.map fun p => ⟨qpackEmittedName p.1.1, p.2.1⟩

/-- **The QPACK codec.** A section whose indexed lines keep clear of the four entries decodes as
RFC 9204 specifies with the sign of the base left out; the fields emitted stay within the cap
and the loop ends whatever the block is; and what the encoder writes for a status and fields
reads back as these. -/
theorem zqp_codec :
    (∀ block m, (∀ i, Line.indexed i ∈ Qpack.lines (Qpack.unsigned block) → i ∉ Qpack.misprinted) →
      QpAgrees (zqpDecode block m collect [])
        (Qpack.decode Qpack.STATIC m (Qpack.unsigned block))) ∧
    (∀ block m, fieldsSize (zqpDecode block m collect []).2 ≤ m) ∧
    (∀ block m s, (Lib.iter (zqpDecodeRound block m collect) (block.length + 1) s).isSome) ∧
    ∀ (status : Nat) (fields : List (CStr × CStr)) (m : Nat), 100 ≤ status → status ≤ 599 →
      (∀ p ∈ fields, p.1.1.length ≤ 2 ^ 24 ∧ p.2.1.length ≤ 2 ^ 24) →
      fieldsSize (qpackEmitted status fields) ≤ m →
      zqpDecode (zqpPrefixEncode ++ zqpEncodeStatus status ++
          (fields.map fun p => zqpEncode p.1.1 p.2.1).flatten) m collect [] =
        (.ok, qpackEmitted status fields) := by
  refine ⟨fun block m h => ?_, fieldsSize_zqpDecode, fun block m s => ?_,
    fun status fields m _ hstatus hsmall hm => ?_⟩
  · rw [← decode_static h]
    exact zqpDecode_agrees block m
  · exact Lib.iter_isSome (zqpDecodeRound_decreases block m collect) _ s
      (Nat.lt_succ_of_le (Nat.sub_le _ _))
  · have henc : List.Forall₂ QpEncodes
        (zqpEncodeStatus status :: fields.map fun p => zqpEncode p.1.1 p.2.1)
        (qpackEmitted status fields) := by
      refine .cons (zqpEncodeStatus_encodes hstatus) ?_
      rw [List.forall₂_map_left_iff, List.forall₂_map_right_iff, List.forall₂_same]
      exact fun p hp => zqpEncode_encodes (hsmall p hp).1 (hsmall p hp).2
    rw [List.append_assoc]
    exact zqpDecode_encodes henc hm

/-- A base with the sign set: the specification rejects it, the code does not look. -/
theorem zqpDecode_ignores_sign :
    ¬∀ block m, QpAgrees (zqpDecode block m collect []) (Qpack.decode Qpack.STATIC m block) := by
  intro h
  rcases (h [0x00, 0x80] 64).rc with hok | hbad
  · exact absurd hok.2 (by decide)
  · obtain ⟨e, he, -⟩ := hbad.1
    have hcode : (zqpDecode [0x00, 0x80] 64 collect []).1 = .ok := by decide
    rw [hcode] at he
    cases he

/-- `:status` 404 and a name of the static table in capitals. -/
theorem zqp_codec_404 :
    QpAgrees (zqpDecode [0x00, 0x80, 0xDB] 64 collect [])
      (Qpack.decode Qpack.STATIC 64 [0x00, 0x00, 0xDB]) ∧
    (zqpDecode [0x00, 0x00, 0xDB, 0x5F, 0x4D, 0x01, 0x7A] 64 collect []).2 =
      [.ascii ":status" "404", .ascii "server" "z"] := by
  have hlines : ∀ i, Line.indexed i ∈ Qpack.lines (Qpack.unsigned [0x00, 0x80, 0xDB]) →
      i ∉ Qpack.misprinted := by
    have hone : Qpack.lines (Qpack.unsigned [0x00, 0x80, 0xDB]) = [.indexed 27] := by
      decide
    rw [hone]
    intro i hi
    cases List.mem_singleton.mp hi
    decide
  have hsign : Qpack.unsigned [0x00, 0x80, 0xDB] = [0x00, 0x00, 0xDB] := by decide
  have hdec := zqp_codec.1 [0x00, 0x80, 0xDB] 64 hlines
  rw [hsign] at hdec
  refine ⟨hdec, ?_⟩
  have hround := zqp_codec.2.2.2 404
    [(⟨str "Server", by decide⟩, ⟨str "z", by decide⟩)] 64 (by decide) (by decide)
    (by decide +kernel) (by decide +kernel)
  exact (congrArg Prod.snd hround).trans (by decide)

end Zcio
