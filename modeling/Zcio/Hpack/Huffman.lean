import Zcio.Lib.Bits
import Zcio.Lib.PrefixTree
import Zcio.Hpack.Decode

/-!
# Zcio.Hpack.Huffman

The Huffman decoder of `hpack.c` is exact. `HUFF_COUNT` and `HUFF_SYMBOL` induce a canonical
code, which is the code of RFC 7541 Appendix B and complete; `zhp_huff_decode_` accepts the
strings of octets whose bits are the codes of a message and fewer than eight one-bits, within
the limit on the output, and gives that message.
-/

namespace Zcio

open Lib (CodeTree)
open Lib.Bits (octetBits)

/-! ### The code

The code of RFC 7541 Appendix B, written out, and the canonical tables of the source, which
give the same tree. -/

/-- The low `len` bits of `code`, the most significant first. -/
def msbBits : Nat → Nat → List Bool
  | 0, _ => []
  | len + 1, code => code.testBit len :: msbBits len code

/-- The canonical code from length `len` on, with code and length of each symbol: `first` is the
first code of that length, and the codes of one length are consecutive. -/
def canonicalFrom (len first : Nat) : List Nat → List Nat → List (Nat × Nat × Nat)
  | [], _ => []
  | count :: counts, symbols =>
    ((symbols.take count).zipIdx first).map (fun p => (p.1, p.2, len)) ++
      canonicalFrom (len + 1) (2 * (first + count)) counts (symbols.drop count)

/-- The canonical code that `HUFF_COUNT` and `HUFF_SYMBOL` induce. -/
def huffTable : List (Nat × Nat × Nat) := canonicalFrom 1 0 (HUFF_COUNT.drop 1) HUFF_SYMBOL

/-- The symbols with their code words. -/
def huffCode : List (Nat × List Bool) := huffTable.map fun p => (p.1, msbBits p.2.2 p.2.1)

/-- The code of RFC 7541 Appendix B: code and length in bits of each symbol, EOS last. -/
def RFC7541_HUFFMAN : List (Nat × Nat) :=
  [(0x1ff8, 13), (0x7fffd8, 23), (0xfffffe2, 28), (0xfffffe3, 28), (0xfffffe4, 28),
    (0xfffffe5, 28), (0xfffffe6, 28), (0xfffffe7, 28), (0xfffffe8, 28), (0xffffea, 24),
    (0x3ffffffc, 30), (0xfffffe9, 28), (0xfffffea, 28), (0x3ffffffd, 30), (0xfffffeb, 28),
    (0xfffffec, 28), (0xfffffed, 28), (0xfffffee, 28), (0xfffffef, 28), (0xffffff0, 28),
    (0xffffff1, 28), (0xffffff2, 28), (0x3ffffffe, 30), (0xffffff3, 28), (0xffffff4, 28),
    (0xffffff5, 28), (0xffffff6, 28), (0xffffff7, 28), (0xffffff8, 28), (0xffffff9, 28),
    (0xffffffa, 28), (0xffffffb, 28), (0x14, 6), (0x3f8, 10), (0x3f9, 10), (0xffa, 12),
    (0x1ff9, 13), (0x15, 6), (0xf8, 8), (0x7fa, 11), (0x3fa, 10), (0x3fb, 10), (0xf9, 8),
    (0x7fb, 11), (0xfa, 8), (0x16, 6), (0x17, 6), (0x18, 6), (0x0, 5), (0x1, 5), (0x2, 5),
    (0x19, 6), (0x1a, 6), (0x1b, 6), (0x1c, 6), (0x1d, 6), (0x1e, 6), (0x1f, 6), (0x5c, 7),
    (0xfb, 8), (0x7ffc, 15), (0x20, 6), (0xffb, 12), (0x3fc, 10), (0x1ffa, 13), (0x21, 6),
    (0x5d, 7), (0x5e, 7), (0x5f, 7), (0x60, 7), (0x61, 7), (0x62, 7), (0x63, 7), (0x64, 7),
    (0x65, 7), (0x66, 7), (0x67, 7), (0x68, 7), (0x69, 7), (0x6a, 7), (0x6b, 7), (0x6c, 7),
    (0x6d, 7), (0x6e, 7), (0x6f, 7), (0x70, 7), (0x71, 7), (0x72, 7), (0xfc, 8), (0x73, 7),
    (0xfd, 8), (0x1ffb, 13), (0x7fff0, 19), (0x1ffc, 13), (0x3ffc, 14), (0x22, 6), (0x7ffd, 15),
    (0x3, 5), (0x23, 6), (0x4, 5), (0x24, 6), (0x5, 5), (0x25, 6), (0x26, 6), (0x27, 6), (0x6, 5),
    (0x74, 7), (0x75, 7), (0x28, 6), (0x29, 6), (0x2a, 6), (0x7, 5), (0x2b, 6), (0x76, 7),
    (0x2c, 6), (0x8, 5), (0x9, 5), (0x2d, 6), (0x77, 7), (0x78, 7), (0x79, 7), (0x7a, 7),
    (0x7b, 7), (0x7ffe, 15), (0x7fc, 11), (0x3ffd, 14), (0x1ffd, 13), (0xffffffc, 28),
    (0xfffe6, 20), (0x3fffd2, 22), (0xfffe7, 20), (0xfffe8, 20), (0x3fffd3, 22), (0x3fffd4, 22),
    (0x3fffd5, 22), (0x7fffd9, 23), (0x3fffd6, 22), (0x7fffda, 23), (0x7fffdb, 23),
    (0x7fffdc, 23), (0x7fffdd, 23), (0x7fffde, 23), (0xffffeb, 24), (0x7fffdf, 23),
    (0xffffec, 24), (0xffffed, 24), (0x3fffd7, 22), (0x7fffe0, 23), (0xffffee, 24),
    (0x7fffe1, 23), (0x7fffe2, 23), (0x7fffe3, 23), (0x7fffe4, 23), (0x1fffdc, 21),
    (0x3fffd8, 22), (0x7fffe5, 23), (0x3fffd9, 22), (0x7fffe6, 23), (0x7fffe7, 23),
    (0xffffef, 24), (0x3fffda, 22), (0x1fffdd, 21), (0xfffe9, 20), (0x3fffdb, 22), (0x3fffdc, 22),
    (0x7fffe8, 23), (0x7fffe9, 23), (0x1fffde, 21), (0x7fffea, 23), (0x3fffdd, 22),
    (0x3fffde, 22), (0xfffff0, 24), (0x1fffdf, 21), (0x3fffdf, 22), (0x7fffeb, 23),
    (0x7fffec, 23), (0x1fffe0, 21), (0x1fffe1, 21), (0x3fffe0, 22), (0x1fffe2, 21),
    (0x7fffed, 23), (0x3fffe1, 22), (0x7fffee, 23), (0x7fffef, 23), (0xfffea, 20), (0x3fffe2, 22),
    (0x3fffe3, 22), (0x3fffe4, 22), (0x7ffff0, 23), (0x3fffe5, 22), (0x3fffe6, 22),
    (0x7ffff1, 23), (0x3ffffe0, 26), (0x3ffffe1, 26), (0xfffeb, 20), (0x7fff1, 19),
    (0x3fffe7, 22), (0x7ffff2, 23), (0x3fffe8, 22), (0x1ffffec, 25), (0x3ffffe2, 26),
    (0x3ffffe3, 26), (0x3ffffe4, 26), (0x7ffffde, 27), (0x7ffffdf, 27), (0x3ffffe5, 26),
    (0xfffff1, 24), (0x1ffffed, 25), (0x7fff2, 19), (0x1fffe3, 21), (0x3ffffe6, 26),
    (0x7ffffe0, 27), (0x7ffffe1, 27), (0x3ffffe7, 26), (0x7ffffe2, 27), (0xfffff2, 24),
    (0x1fffe4, 21), (0x1fffe5, 21), (0x3ffffe8, 26), (0x3ffffe9, 26), (0xffffffd, 28),
    (0x7ffffe3, 27), (0x7ffffe4, 27), (0x7ffffe5, 27), (0xfffec, 20), (0xfffff3, 24),
    (0xfffed, 20), (0x1fffe6, 21), (0x3fffe9, 22), (0x1fffe7, 21), (0x1fffe8, 21), (0x7ffff3, 23),
    (0x3fffea, 22), (0x3fffeb, 22), (0x1ffffee, 25), (0x1ffffef, 25), (0xfffff4, 24),
    (0xfffff5, 24), (0x3ffffea, 26), (0x7ffff4, 23), (0x3ffffeb, 26), (0x7ffffe6, 27),
    (0x3ffffec, 26), (0x3ffffed, 26), (0x7ffffe7, 27), (0x7ffffe8, 27), (0x7ffffe9, 27),
    (0x7ffffea, 27), (0x7ffffeb, 27), (0xffffffe, 28), (0x7ffffec, 27), (0x7ffffed, 27),
    (0x7ffffee, 27), (0x7ffffef, 27), (0x7fffff0, 27), (0x3ffffee, 26), (0x3fffffff, 30)]

/-- The code word of a symbol. -/
def rfcHuffman (sym : Nat) : List Bool :=
  let p := RFC7541_HUFFMAN.getD sym (0, 0)
  msbBits p.2 p.1

/-- EOS. -/
def EOS : Nat := 256

/-- The tree of the code. -/
def huffTree : CodeTree Nat :=
  (CodeTree.pairUp (CodeTree.levels (HUFF_COUNT.drop 1) HUFF_SYMBOL)).headD (.leaf EOS)

theorem huffTree_root :
    (CodeTree.pairUp (CodeTree.levels (HUFF_COUNT.drop 1) HUFF_SYMBOL))[0]? = some huffTree := by
  have hne : CodeTree.pairUp (CodeTree.levels (HUFF_COUNT.drop 1) HUFF_SYMBOL) ≠ [] := by
    decide
  unfold huffTree
  cases h : CodeTree.pairUp (CodeTree.levels (HUFF_COUNT.drop 1) HUFF_SYMBOL) with
  | nil => exact absurd h hne
  | cons t ts => rfl

theorem codes_huffTree : huffTree.codes = huffCode := eq_of_beq (by decide +kernel)

/-- A code and its length in one number. -/
def codeDigit (p : Nat × Nat) : Nat := p.1 * 32 + p.2

/-- The code of the RFC in one number, in which a symbol is found at once. -/
def rfcPacked : Nat := Lib.Bits.packed (2 ^ 40) (RFC7541_HUFFMAN.map codeDigit)

theorem rfcPacked_digit (sym : Nat) :
    rfcPacked / (2 ^ 40) ^ sym % 2 ^ 40 = codeDigit (RFC7541_HUFFMAN.getD sym (0, 0)) ∧
      (RFC7541_HUFFMAN.getD sym (0, 0)).2 < 32 := by
  have hsmall : ∀ q ∈ RFC7541_HUFFMAN, q.2 < 32 ∧ codeDigit q < 2 ^ 40 := by decide +kernel
  have hdigit : ∀ d ∈ RFC7541_HUFFMAN.map codeDigit, d < 2 ^ 40 := by
    intro d hd
    obtain ⟨q, hq, rfl⟩ := List.mem_map.mp hd
    exact (hsmall q hq).2
  rw [rfcPacked, Lib.Bits.packed_digit hdigit, List.getD_eq_getElem?_getD, List.getD_eq_getElem?_getD,
    List.getElem?_map]
  cases hq : RFC7541_HUFFMAN[sym]? with
  | none => exact ⟨rfl, by decide⟩
  | some q => exact ⟨rfl, (hsmall q (List.mem_of_getElem? hq)).1⟩

theorem huffTable_rfc :
    ∀ p ∈ huffTable, p.1 < 257 ∧ RFC7541_HUFFMAN.getD p.1 (0, 0) = p.2 ∧ 0 < p.2.2 ∧ p.2.2 ≤ 30 := by
  have hall : ∀ p ∈ huffTable, p.1 < 257 ∧ rfcPacked / (2 ^ 40) ^ p.1 % 2 ^ 40 = codeDigit p.2 ∧ 0 < p.2.2 ∧
      p.2.2 ≤ 30 := by
    decide +kernel
  intro p hp
  obtain ⟨hsym, hcode, hpos, hlen⟩ := hall p hp
  obtain ⟨hrfc, hshort⟩ := rfcPacked_digit p.1
  rw [hcode, codeDigit, codeDigit] at hrfc
  refine ⟨hsym, Prod.ext ?_ ?_, hpos, hlen⟩
  · omega
  · omega

theorem huffTable_symbols : huffTable.map Prod.fst = HUFF_SYMBOL := by decide +kernel

theorem mem_HUFF_SYMBOL {sym : Nat} (h : sym < 257) : sym ∈ HUFF_SYMBOL := by
  have hmask : HUFF_SYMBOL.foldl (fun m s => m ||| 2 ^ s) 0 = 2 ^ (EOS + 1) - 1 := by decide +kernel
  have hbit := Lib.Bits.testBit_foldl_pow HUFF_SYMBOL 0 sym
  rw [hmask, Nat.testBit_two_pow_sub_one, decide_eq_true (show sym < EOS + 1 from h), Nat.zero_testBit,
    Bool.false_or] at hbit
  exact of_decide_eq_true hbit.symm

/-- **The code is the one of the RFC.** -/
theorem mem_huffCode {sym : Nat} {c : List Bool} :
    (sym, c) ∈ huffCode ↔ sym < 257 ∧ c = rfcHuffman sym := by
  constructor
  · intro h
    obtain ⟨p, hp, heq⟩ := List.mem_map.mp h
    cases heq
    obtain ⟨hlt, hcode, -⟩ := huffTable_rfc p hp
    exact ⟨hlt, by rw [rfcHuffman, hcode]⟩
  · rintro ⟨hlt, rfl⟩
    have hsym := mem_HUFF_SYMBOL hlt
    rw [← huffTable_symbols] at hsym
    obtain ⟨p, hp, rfl⟩ := List.mem_map.mp hsym
    exact List.mem_map.mpr ⟨p, hp, by rw [rfcHuffman, (huffTable_rfc p hp).2.1]⟩

theorem length_msbBits (len code : Nat) : (msbBits len code).length = len := by
  induction len with
  | zero => rfl
  | succ len ih => exact congrArg Nat.succ ih

theorem length_huffCode {p : Nat × List Bool} (h : p ∈ huffCode) : p.2.length ≤ 30 := by
  obtain ⟨q, hq, rfl⟩ := List.mem_map.mp h
  exact (length_msbBits _ _).le.trans (huffTable_rfc q hq).2.2.2

theorem nil_not_huffCode (sym : Nat) : (sym, []) ∉ huffCode := by
  intro h
  obtain ⟨p, hp, heq⟩ := List.mem_map.mp h
  have hlen := congrArg (fun q : Nat × List Bool => q.2.length) heq
  have hpos := (huffTable_rfc p hp).2.2.1
  dsimp only at hlen
  rw [length_msbBits, List.length_nil] at hlen
  omega

theorem rfcHuffman_mem {sym : Nat} (h : sym < 257) : (sym, rfcHuffman sym) ∈ huffTree.codes := by
  rw [codes_huffTree]
  exact mem_huffCode.mpr ⟨h, rfl⟩

/-! ### Bits of the input

The input as a list of bits, the most significant of an octet first. -/

/-- The bits of the input, the most significant of each octet first. -/
def huffBits (inp : Bytes) : List Bool := inp.flatMap fun c => msbBits 8 c.toNat

@[simp] theorem length_huffBits (inp : Bytes) : (huffBits inp).length = inp.length * 8 := by
  induction inp with
  | nil => rfl
  | cons c inp ih =>
    rw [huffBits, List.flatMap_cons, List.length_append, length_msbBits, List.length_cons,
      Nat.succ_mul, Nat.add_comm, ← ih]
    rfl

theorem msbBits_getElem? {len code i : Nat} (h : i < len) :
    (msbBits len code)[i]? = some (code.testBit (len - 1 - i)) := by
  induction len generalizing i with
  | zero => exact absurd h (Nat.not_lt_zero _)
  | succ len ih =>
    cases i with
    | zero => rfl
    | succ i =>
      rw [msbBits, List.getElem?_cons_succ, ih (Nat.lt_of_succ_lt_succ h), Nat.add_sub_cancel,
        Nat.sub_sub, Nat.add_comm 1 i]

/-- `huff_bit` is a bit of the input. -/
theorem huffBits_getElem? {inp : Bytes} {pos : Nat} (h : pos < inp.length * 8) :
    ∃ b : Bool, (huffBits inp)[pos]? = some b ∧ huffBit inp pos = b.toNat := by
  induction inp generalizing pos with
  | nil => exact absurd h (by rw [List.length_nil, Nat.zero_mul]; exact Nat.not_lt_zero _)
  | cons c inp ih =>
    rw [List.length_cons, Nat.succ_mul] at h
    have hlen := length_msbBits 8 c.toNat
    rw [huffBits, List.flatMap_cons]
    rcases Nat.lt_or_ge pos 8 with hlt | hge
    · refine ⟨_, (List.getElem?_append_left (hlen.symm ▸ hlt)).trans (msbBits_getElem? hlt), ?_⟩
      rw [huffBit, Nat.div_eq_of_lt hlt, Nat.mod_eq_of_lt hlt, List.getD_cons_zero,
        Nat.and_one_is_mod, Nat.toNat_testBit, Nat.shiftRight_eq_div_pow]
    · obtain ⟨b, hb, hbit⟩ := @ih (pos - 8) (by omega)
      refine ⟨b, ?_, ?_⟩
      · rw [List.getElem?_append_right (hlen.symm ▸ hge), hlen]
        exact hb
      · have hdiv : pos / 8 = (pos - 8) / 8 + 1 := by omega
        have hmod : pos % 8 = (pos - 8) % 8 := by omega
        rw [← hbit, huffBit, huffBit, hdiv, hmod, List.getD_cons_succ]

theorem drop_huffBits {inp : Bytes} {pos : Nat} (h : pos < inp.length * 8) :
    ∃ b : Bool, (huffBits inp).drop pos = b :: (huffBits inp).drop (pos + 1) ∧
      huffBit inp pos = b.toNat := by
  obtain ⟨b, hb, hbit⟩ := huffBits_getElem? h
  refine ⟨b, ?_, hbit⟩
  obtain ⟨hlt, heq⟩ := List.getElem?_eq_some_iff.mp hb
  rw [List.drop_eq_getElem_cons hlt, heq]

/-! ### One symbol

The walk of the code down its tables is the walk down the tree. -/

/-- The loop of `huff_symbol` reads off the tables what `canonicalWalk` does: `f` and `rel` are
the two parts of the running code. -/
theorem huffSymbolFrom_eq {inp : Bytes} (counts : List Nat) {f rel index pos : Nat}
    (hcounts : counts.sum ≤ (HUFF_SYMBOL.drop index).length) :
    huffSymbolFrom inp (inp.length * 8) counts (f + rel) (2 * f) index pos =
      match CodeTree.canonicalWalk counts (HUFF_SYMBOL.drop index) rel
        ((huffBits inp).drop pos) with
      | .sym s rest => .sym s (inp.length * 8 - rest.length)
      | .out => .out
      | .none => .none := by
  induction counts generalizing f rel index pos with
  | nil => rfl
  | cons count counts ih =>
    rw [List.sum_cons] at hcounts
    rw [huffSymbolFrom]
    by_cases hend : pos ≥ inp.length * 8
    · have hnil : (huffBits inp).drop pos = [] :=
        List.drop_of_length_le ((length_huffBits inp).le.trans hend)
      rw [if_pos hend, hnil]
      rfl
    · obtain ⟨b, hdrop, hbit⟩ := drop_huffBits (Nat.not_le.mp hend)
      have hshift : (f + rel) <<< 1 ||| b.toNat = 2 * f + (2 * rel + b.toNat) := by
        have hb := b.toNat_lt
        rw [Nat.shiftLeft_eq, Nat.mul_comm, ← Nat.two_pow_add_eq_or_of_lt (by omega)]
        omega
      rw [if_neg hend, hdrop, hbit, hshift, CodeTree.canonicalWalk]
      by_cases hplace : 2 * rel + b.toNat < count
      · have hget : (HUFF_SYMBOL.drop index)[2 * rel + b.toNat]? =
            some (HUFF_SYMBOL.getD (index + (2 * rel + b.toNat)) 0) := by
          have hlt : index + (2 * rel + b.toNat) < HUFF_SYMBOL.length := by
            rw [List.length_drop] at hcounts
            omega
          rw [List.getElem?_drop, List.getElem?_eq_getElem hlt, List.getD_eq_getElem _ _ hlt]
        rw [if_pos hplace, if_pos (by omega), hget, Nat.add_sub_cancel_left]
        dsimp only
        rw [List.length_drop, length_huffBits]
        congr 1
        omega
      · have hdone : (2 * f + count) <<< 1 = 2 * (2 * f + count) := by
          rw [Nat.shiftLeft_eq, Nat.mul_comm]
        have hcode : 2 * f + (2 * rel + b.toNat) = 2 * f + count + (2 * rel + b.toNat - count) := by
          omega
        rw [if_neg hplace, if_neg (by omega), hdone, hcode, ih (by
          rw [List.length_drop] at hcounts ⊢
          omega), List.drop_drop]

/-- **`huff_symbol` walks the tree.** -/
theorem huffSymbol_eq (inp : Bytes) (pos : Nat) :
    huffSymbol inp (inp.length * 8) pos =
      match huffTree.walk ((huffBits inp).drop pos) with
      | some (s, rest) => .sym s (inp.length * 8 - rest.length)
      | none => .out := by
  have h := @huffSymbolFrom_eq inp (HUFF_COUNT.drop 1) 0 0 0 pos (by decide +kernel)
  rw [huffSymbol]
  refine h.trans ?_
  rw [List.drop_zero, CodeTree.canonicalWalk_eq huffTree_root (by decide +kernel), CodeTree.walked]
  cases huffTree.walk ((huffBits inp).drop pos) with
  | none => rfl
  | some r => rfl

/-- The branch for no match in 30 bits is not taken. -/
theorem huffSymbol_ne_none (inp : Bytes) (pos : Nat) :
    huffSymbol inp (inp.length * 8) pos ≠ .none := by
  rw [huffSymbol_eq]
  cases huffTree.walk ((huffBits inp).drop pos) with
  | none => exact nofun
  | some r => exact nofun

/-! ### Messages

A message decodes exactly if it is the codes of its symbols, padded with fewer than eight
ones. -/

/-- The code words of a message, one after another. -/
def huffEncode (s : Bytes) : List Bool := s.flatMap fun b => rfcHuffman b.toNat

/-- `inp` is the encoding of `s`, filled up with fewer than eight one-bits. -/
def HuffEncodes (inp s : Bytes) : Prop :=
  ∃ k < 8, huffBits inp = huffEncode s ++ List.replicate k true

theorem octet_mem (b : UInt8) : (b.toNat, rfcHuffman b.toNat) ∈ huffTree.codes :=
  rfcHuffman_mem (Nat.lt_succ_of_lt b.toNat_lt)

theorem rfcHuffman_EOS : rfcHuffman EOS = List.replicate 30 true := by decide

/-- The padding begins EOS, so that it holds no code word. -/
theorem walk_ones {k : Nat} (h : k < 30) : huffTree.walk (List.replicate k true) = none := by
  have heos := @rfcHuffman_mem EOS (by decide)
  rw [rfcHuffman_EOS, ← Nat.add_sub_cancel' h.le, List.replicate_add] at heos
  exact CodeTree.walk_of_cut heos fun hnil => by
    rw [List.replicate_eq_nil_iff] at hnil
    omega

/-- The check of the padding. -/
theorem huffPadding_eq_ok {inp : Bytes} {pos : Nat} (hpos : pos ≤ inp.length * 8) :
    huffPadding inp (inp.length * 8) pos = .ok () ↔
      ∃ k < 8, (huffBits inp).drop pos = List.replicate k true := by
  have hlen : ((huffBits inp).drop pos).length = inp.length * 8 - pos := by
    rw [List.length_drop, length_huffBits]
  -- the loop over the bits that are left, as a statement about the list of them
  have hall : ((List.range' pos (inp.length * 8 - pos)).all fun bp => huffBit inp bp == 1) = true ↔
      (huffBits inp).drop pos = List.replicate (inp.length * 8 - pos) true := by
    rw [List.all_eq_true, List.eq_replicate_iff]
    constructor
    · refine fun h => ⟨hlen, fun b hb => ?_⟩
      obtain ⟨i, hi⟩ := List.mem_iff_getElem?.mp hb
      have hlt : i < inp.length * 8 - pos := hlen ▸ (List.getElem?_eq_some_iff.mp hi).1
      obtain ⟨b', hb', hbit⟩ := @huffBits_getElem? inp (pos + i) (by omega)
      rw [List.getElem?_drop, hb', Option.some.injEq] at hi
      subst hi
      have hone := h (pos + i) (List.mem_range'_1.mpr ⟨Nat.le_add_right _ _, by omega⟩)
      rw [hbit, beq_iff_eq] at hone
      exact Bool.toNat_eq_one.mp hone
    · rintro ⟨-, h⟩ bp hbp
      obtain ⟨hge, hlt⟩ := List.mem_range'_1.mp hbp
      obtain ⟨b, hb, hbit⟩ := @huffBits_getElem? inp bp (by omega)
      have hmem : b ∈ (huffBits inp).drop pos := by
        refine List.mem_iff_getElem?.mpr ⟨bp - pos, ?_⟩
        rw [List.getElem?_drop, Nat.add_sub_cancel' hge, hb]
      rw [hbit, h b hmem]
      rfl
  unfold huffPadding
  -- more than seven bits left are no padding
  by_cases hlong : inp.length * 8 - pos > 7
  · rw [if_pos hlong]
    refine ⟨nofun, ?_⟩
    rintro ⟨k, hk, heq⟩
    rw [heq, List.length_replicate] at hlen
    omega
  · rw [if_neg hlong]
    -- the test succeeds on ones only, and the ones are all that is left
    constructor
    · intro h
      split at h
      · rename_i hones
        exact ⟨_, by omega, hall.mp hones⟩
      · cases h
    · rintro ⟨k, hk, heq⟩
      rw [if_pos]
      rw [hall, heq]
      rw [heq, List.length_replicate] at hlen
      rw [hlen]

/-- **What is accepted is an encoding** of the output. -/
theorem zhpHuffDecode_sound {inp out : Bytes} {maxOut : Nat}
    (h : zhpHuffDecode inp maxOut = .ok out) :
    inp.length ≤ SIZE_MAX / 8 ∧ HuffEncodes inp out ∧ out.length ≤ maxOut := by
  unfold zhpHuffDecode at h
  split at h
  · cases h
  · rename_i hsize
    refine ⟨Nat.le_of_not_gt hsize, ?_⟩
    revert h
    -- the invariant: the bits up to the position are the code of what was written
    refine Lib.loop_inv (huffRound_decreases inp maxOut)
      (I := fun s => s.1 ≤ inp.length * 8 ∧ s.2.length ≤ maxOut ∧
        huffBits inp = huffEncode s.2 ++ (huffBits inp).drop s.1)
      (Q := fun r => r = .ok out → HuffEncodes inp out ∧ out.length ≤ maxOut) ?_ ?_
      ⟨Nat.zero_le _, Nat.zero_le _, rfl⟩
    · -- a round that reads a symbol
      rintro ⟨pos, got⟩ s' ⟨hpos, hmax, hbits⟩ hround
      unfold huffRound at hround
      dsimp only at hround hpos hmax hbits
      split at hround
      · rw [huffSymbol_eq] at hround
        cases hwalk : huffTree.walk ((huffBits inp).drop pos) with
        -- no code of the tree fits
        | none =>
          rw [hwalk] at hround
          cases hround
        | some r =>
          obtain ⟨sym, rest⟩ := r
          rw [hwalk] at hround
          dsimp only at hround
          obtain ⟨c, hc, hcut⟩ := CodeTree.exists_code_of_walk hwalk
          -- the symbol is one of the table, and its code is what the walk took
          rw [codes_huffTree, mem_huffCode] at hc
          have hlen : inp.length * 8 - pos = c.length + rest.length := by
            rw [← length_huffBits, ← List.length_drop, hcut, List.length_append]
          split at hround
          · cases hround
          · -- the end-of-string symbol is no octet
            rename_i heos
            split at hround
            · cases hround
            · rename_i hroom
              cases hround
              have hsym : (UInt8.ofNat sym).toNat = sym := UInt8.toNat_ofNat_of_lt' (by
                show sym < 256
                omega)
              have hrest : (huffBits inp).drop (inp.length * 8 - rest.length) = rest := by
                have hpast : inp.length * 8 - rest.length = pos + c.length := by omega
                rw [hpast, ← List.drop_drop, hcut, List.drop_left]
              -- the position moves behind the code, and the output grows by its octet
              refine ⟨Nat.sub_le _ _, ?_, ?_⟩
              · rw [List.length_append]
                exact Nat.not_le.mp hroom
              · dsimp only
                rw [hrest, huffEncode, List.flatMap_append, List.flatMap_singleton, hsym, ← hc.2,
                  List.append_assoc, ← hcut]
                exact hbits
      · cases hround
    · -- the last round
      rintro ⟨pos, got⟩ r ⟨hpos, hmax, hbits⟩ hround hr
      subst hr
      unfold huffRound at hround
      dsimp only at hround hpos hmax hbits
      split at hround
      · rw [huffSymbol_eq] at hround
        cases hwalk : huffTree.walk ((huffBits inp).drop pos) with
        | none =>
          rw [hwalk] at hround
          dsimp only at hround
          -- the walk stopped within the padding, which is checked
          cases hpad : huffPadding inp (inp.length * 8) pos with
          | error e =>
            rw [hpad] at hround
            cases hround
          | ok u =>
            rw [hpad] at hround
            cases hround
            obtain ⟨k, hk, hones⟩ := (huffPadding_eq_ok hpos).mp hpad
            exact ⟨⟨k, hk, hones ▸ hbits⟩, hmax⟩
        | some r =>
          -- a symbol that ends the loop is an error
          rw [hwalk] at hround
          dsimp only at hround
          split at hround
          · cases hround
          · split at hround
            · cases hround
            · cases hround
      · rename_i hend
        -- the bits ended with the last code
        cases hround
        have hnil : (huffBits inp).drop pos = [] :=
          List.drop_of_length_le ((length_huffBits inp).le.trans (Nat.not_lt.mp hend))
        rw [hnil] at hbits
        exact ⟨⟨0, by decide, hbits⟩, hmax⟩

/-- The loop reads the rest of a message. -/
theorem huffLoop_complete {inp : Bytes} {maxOut k : Nat} (hk : k < 8) (s : Bytes) {pos : Nat}
    {out : Bytes} (hpos : pos ≤ inp.length * 8) (hmax : (out ++ s).length ≤ maxOut)
    (hbits : (huffBits inp).drop pos = huffEncode s ++ List.replicate k true) :
    Lib.loop (huffRound inp maxOut) _ (huffRound_decreases inp maxOut) (pos, out) =
      .ok (out ++ s) := by
  induction s generalizing pos out with
  | nil =>
    refine Lib.loop_of_inr ?_
    have hones : (huffBits inp).drop pos = List.replicate k true := hbits
    have hout : huffSymbol inp (inp.length * 8) pos = .out := by
      rw [huffSymbol_eq, hones, walk_ones (by omega)]
    unfold huffRound
    dsimp only
    rw [hout, (huffPadding_eq_ok hpos).mpr ⟨k, hk, hones⟩, List.append_nil]
    split
    · rfl
    · rfl
  | cons b s ih =>
    have hwalk : huffTree.walk ((huffBits inp).drop pos) =
        some (b.toNat, huffEncode s ++ List.replicate k true) := by
      rw [hbits, huffEncode, List.flatMap_cons, List.append_assoc]
      exact CodeTree.walk_append (octet_mem b) _
    obtain ⟨c, hc, hcut⟩ := CodeTree.exists_code_of_walk hwalk
    have hne : c ≠ [] := by
      rintro rfl
      rw [codes_huffTree] at hc
      exact absurd hc (nil_not_huffCode _)
    -- `rest` is what the loop has in front of it after this symbol
    generalize hrest : huffEncode s ++ List.replicate k true = rest at hwalk hcut
    have hlen : inp.length * 8 - pos = c.length + rest.length := by
      rw [← length_huffBits, ← List.length_drop, hcut, List.length_append]
    have hpast : inp.length * 8 - rest.length = pos + c.length := by
      have := List.length_pos_iff.mpr hne
      omega
    have hround : huffRound inp maxOut (pos, out) =
        .inl (inp.length * 8 - rest.length, out ++ [b]) := by
      have hmore : pos < inp.length * 8 := by
        have := List.length_pos_iff.mpr hne
        omega
      have hroom : ¬out.length ≥ maxOut := by
        rw [List.length_append, List.length_cons] at hmax
        omega
      have hoctet : ¬b.toNat = 256 := Nat.ne_of_lt b.toNat_lt
      unfold huffRound
      dsimp only
      rw [if_pos hmore, huffSymbol_eq, hwalk]
      dsimp only
      rw [if_neg hoctet, if_neg hroom, UInt8.ofNat_toNat]
    rw [Lib.loop_of_inl hround, ih (Nat.sub_le _ _), List.append_assoc]
    · rfl
    · rwa [List.append_assoc]
    · rw [hpast, ← List.drop_drop, hcut, List.drop_left, hrest]

/-- **An encoding is accepted**, if the output fits. -/
theorem zhpHuffDecode_complete {inp s : Bytes} {maxOut : Nat} (hsize : inp.length ≤ SIZE_MAX / 8)
    (h : HuffEncodes inp s) (hmax : s.length ≤ maxOut) : zhpHuffDecode inp maxOut = .ok s := by
  obtain ⟨k, hk, hbits⟩ := h
  unfold zhpHuffDecode
  rw [if_neg (Nat.not_lt.mpr hsize)]
  exact huffLoop_complete hk s (Nat.zero_le _) hmax hbits

theorem zhpHuffDecode_eq_ok {inp s : Bytes} {maxOut : Nat} :
    zhpHuffDecode inp maxOut = .ok s ↔
      inp.length ≤ SIZE_MAX / 8 ∧ HuffEncodes inp s ∧ s.length ≤ maxOut :=
  ⟨zhpHuffDecode_sound, fun h => zhpHuffDecode_complete h.1 h.2.1 h.2.2⟩

/-- Read the symbols of a string up to its padding (RFC 7541 section 5.2); every symbol takes one
of the `n` steps. -/
def rfcHuffFrom : Nat → List Bool → Option Bytes
  | 0, _ => none
  | n + 1, bits =>
    match huffTree.walk bits with
    | some (sym, rest) =>
      if sym = EOS then none else (rfcHuffFrom n rest).map (UInt8.ofNat sym :: ·)
    | none => if bits.length < 8 ∧ bits.all id then some [] else none

/-- The string a Huffman-coded string literal stands for. -/
def rfcHuffDecode (s : Bytes) : Option Bytes := rfcHuffFrom (s.length * 8 + 1) (huffBits s)

theorem rfcHuffFrom_eq_some {n : Nat} {bits : List Bool} {out : Bytes} (hn : bits.length < n) :
    rfcHuffFrom n bits = some out ↔ ∃ k < 8, bits = huffEncode out ++ List.replicate k true := by
  induction n generalizing bits out with
  | zero => exact absurd hn (Nat.not_lt_zero _)
  | succ n ih =>
    rw [rfcHuffFrom]
    cases hwalk : huffTree.walk bits with
    -- no code fits what is left, so that it must be padding
    | none =>
      dsimp only
      constructor
      · intro h
        split at h
        · rename_i hones
          cases h
          refine ⟨bits.length, hones.1, List.eq_replicate_iff.mpr ⟨rfl, fun b hb => ?_⟩⟩
          exact List.all_eq_true.mp hones.2 b hb
        · cases h
      · rintro ⟨k, hk, rfl⟩
        cases out with
        | nil =>
          have hones : (huffEncode [] ++ List.replicate k true) = List.replicate k true := rfl
          rw [hones, if_pos]
          rw [List.length_replicate]
          exact ⟨hk, List.all_eq_true.mpr fun b hb => List.eq_of_mem_replicate hb⟩
        -- behind the code of an octet there is one that fits
        | cons b out =>
          rw [huffEncode, List.flatMap_cons, List.append_assoc,
            CodeTree.walk_append (octet_mem b)] at hwalk
          cases hwalk
    | some r =>
      obtain ⟨sym, rest⟩ := r
      obtain ⟨c, hc, rfl⟩ := CodeTree.exists_code_of_walk hwalk
      rw [codes_huffTree] at hc
      have hne : 0 < c.length := List.length_pos_iff.mpr fun h => nil_not_huffCode sym (h ▸ hc)
      -- the code has taken a bit at least
      have hlen : rest.length < n := by
        rw [List.length_append] at hn
        omega
      obtain ⟨hsym, rfl⟩ := mem_huffCode.mp hc
      dsimp only
      -- read: the symbol is an octet, and the rest decodes
      constructor
      · intro h
        split at h
        · cases h
        · rename_i heos
          obtain ⟨out', hout, rfl⟩ := Option.map_eq_some_iff.mp h
          obtain ⟨k, hk, rfl⟩ := (ih hlen).mp hout
          have hoctet : (UInt8.ofNat sym).toNat = sym := by
            refine UInt8.toNat_ofNat_of_lt' ?_
            have hlt : sym < 256 := Nat.lt_of_le_of_ne (Nat.le_of_lt_succ hsym) heos
            exact hlt
          refine ⟨k, hk, ?_⟩
          rw [huffEncode, huffEncode, List.flatMap_cons, hoctet, List.append_assoc]
      · rintro ⟨k, hk, heq⟩
        cases out with
        -- ones are the beginning of no code but that of the end
        | nil =>
          have hones : rfcHuffman sym ++ rest = List.replicate k true := heq
          rw [hones, walk_ones (by omega)] at hwalk
          cases hwalk
        -- the code is that of the first octet, for no code begins another
        | cons b out =>
          have hcons : rfcHuffman sym ++ rest =
              rfcHuffman b.toNat ++ (huffEncode out ++ List.replicate k true) := by
            rw [heq, huffEncode, List.flatMap_cons, List.append_assoc]
            rfl
          rw [hcons, CodeTree.walk_append (octet_mem b)] at hwalk
          cases hwalk
          have heos : b.toNat ≠ EOS := Nat.ne_of_lt b.toNat_lt
          rw [if_neg heos, (ih hlen).mpr ⟨k, hk, rfl⟩, Option.map_some, UInt8.ofNat_toNat]

theorem rfcHuffDecode_eq_some {inp s : Bytes} : rfcHuffDecode inp = some s ↔ HuffEncodes inp s :=
  rfcHuffFrom_eq_some (by rw [length_huffBits]; exact Nat.lt_succ_self _)

theorem toOption_eq_some {α ε : Type} {r : Except ε α} {a : α} : r.toOption = some a ↔ r = .ok a := by
  cases r with
  | error e => exact ⟨nofun, nofun⟩
  | ok b => exact ⟨fun h => congrArg _ (Option.some.inj h), fun h => congrArg _ (Except.ok.inj h)⟩

/-- **`zhp_huff_decode_` is the decoder of the RFC** with a limit on the output. -/
theorem zhpHuffDecode_toOption {inp : Bytes} (hsize : inp.length ≤ SIZE_MAX / 8) (maxOut : Nat) :
    (zhpHuffDecode inp maxOut).toOption =
      (rfcHuffDecode inp).filter fun out => out.length ≤ maxOut := by
  refine Option.ext fun out => ?_
  rw [toOption_eq_some, zhpHuffDecode_eq_ok, Option.filter_eq_some_iff, rfcHuffDecode_eq_some,
    decide_eq_true_iff]
  exact ⟨fun h => h.2, fun h => ⟨hsize, h⟩⟩

/-- **The message is unique**: an encoding that is a message and something no code of an octet
begins is that message and the padding. -/
theorem HuffEncodes.unique {inp s s' : Bytes} {x : List Bool} (h : HuffEncodes inp s')
    (hbits : huffBits inp = huffEncode s ++ x) (hx : ∀ b : UInt8, ¬rfcHuffman b.toNat <+: x) :
    s' = s ∧ ∃ k < 8, x = List.replicate k true := by
  obtain ⟨k, hk, heq⟩ := h
  have hinj : Function.Injective UInt8.toNat := fun a b hab => UInt8.toNat_inj.mp hab
  rcases CodeTree.flatMap_code_compare octet_mem hinj (hbits.symm.trans heq) with
    ⟨l, hl, hrest⟩ | ⟨l, hl, hrest⟩
  · cases l with
    | nil => exact ⟨hl.trans (List.append_nil s), k, hk, hrest⟩
    | cons b l =>
      rw [List.flatMap_cons, List.append_assoc] at hrest
      exact absurd ⟨_, hrest.symm⟩ (hx b)
  · cases l with
    | nil => exact ⟨(hl.trans (List.append_nil s')).symm, k, hk, hrest.symm⟩
    | cons b l =>
      -- a code of an octet is no beginning of the padding
      rw [List.flatMap_cons, List.append_assoc] at hrest
      have hwalk := CodeTree.walk_append (octet_mem b) (huffEncode l ++ x)
      have hones := walk_ones (k := k) (by omega)
      rw [hrest] at hones
      exact absurd (hones.symm.trans hwalk) nofun

theorem not_octet_begins_EOS (b : UInt8) (rest : List Bool) :
    ¬rfcHuffman b.toNat <+: rfcHuffman EOS ++ rest := by
  rintro ⟨x, hx⟩
  have hoctet := CodeTree.walk_append (octet_mem b) x
  have heos := CodeTree.walk_append (@rfcHuffman_mem EOS (by decide)) rest
  rw [hx, heos, Option.some.injEq, Prod.mk.injEq] at hoctet
  exact absurd hoctet.1.symm (Nat.ne_of_lt b.toNat_lt)

theorem not_ok_error {α : Type} {r : Except Fail α} (h : ∀ a, r ≠ .ok a) : ∃ e, r = .error e := by
  cases r with
  | error e => exact ⟨e, rfl⟩
  | ok a => exact absurd rfl (h a)

/-- Padding of more than seven bits, or with a zero bit, is rejected. -/
theorem zhpHuffDecode_bad_padding {inp s : Bytes} {pad : List Bool} (maxOut : Nat)
    (hbits : huffBits inp = huffEncode s ++ pad) (hpad : ∀ b : UInt8, ¬rfcHuffman b.toNat <+: pad)
    (hbad : 8 ≤ pad.length ∨ false ∈ pad) : ∃ e, zhpHuffDecode inp maxOut = .error e := by
  refine not_ok_error fun out hok => ?_
  obtain ⟨-, k, hk, rfl⟩ := (zhpHuffDecode_sound hok).2.1.unique hbits hpad
  rcases hbad with hlong | hzero
  · rw [List.length_replicate] at hlong
    omega
  · exact absurd (List.eq_of_mem_replicate hzero) nofun

/-- EOS is rejected. -/
theorem zhpHuffDecode_EOS {inp s : Bytes} {rest : List Bool} (maxOut : Nat)
    (hbits : huffBits inp = huffEncode s ++ rfcHuffman EOS ++ rest) :
    ∃ e, zhpHuffDecode inp maxOut = .error e := by
  rw [List.append_assoc] at hbits
  refine zhpHuffDecode_bad_padding maxOut hbits (fun b => not_octet_begins_EOS b rest) (.inl ?_)
  rw [rfcHuffman_EOS, List.length_append, List.length_replicate]
  omega

/-- More output than there is room for is rejected. -/
theorem zhpHuffDecode_too_long {inp s : Bytes} {maxOut : Nat} (h : HuffEncodes inp s)
    (hmax : maxOut < s.length) : ∃ e, zhpHuffDecode inp maxOut = .error e := by
  refine not_ok_error fun out hok => ?_
  obtain ⟨-, henc, hlen⟩ := zhpHuffDecode_sound hok
  obtain ⟨k, hk, hbits⟩ := h
  obtain ⟨rfl, -⟩ := henc.unique hbits fun b hpre => by
    obtain ⟨x, hx⟩ := hpre
    have hwalk := CodeTree.walk_append (octet_mem b) x
    rw [hx, walk_ones (by omega)] at hwalk
    exact absurd hwalk nofun
  omega

/-- **The Huffman decoder is exact.** The tables induce the code of RFC 7541 Appendix B, which is
prefix-free and complete; the decoder accepts the encodings of the messages that fit the limit
and gives the message, and rejects EOS, bad padding and too long an output; a code that no
length matches does not happen. -/
theorem zhpHuff_exact :
    (∀ sym c, (sym, c) ∈ huffCode ↔ sym < 257 ∧ c = rfcHuffman sym) ∧
    (∀ p ∈ huffCode, ∀ q ∈ huffCode, p.2 <+: q.2 → p = q) ∧
    (∀ bits : List Bool, 30 ≤ bits.length → ∃ p ∈ huffCode, p.2 <+: bits) ∧
    (∀ inp s maxOut, zhpHuffDecode inp maxOut = .ok s ↔
      inp.length ≤ SIZE_MAX / 8 ∧ HuffEncodes inp s ∧ s.length ≤ maxOut) ∧
    (∀ inp s rest maxOut, huffBits inp = huffEncode s ++ rfcHuffman EOS ++ rest →
      ∃ e, zhpHuffDecode inp maxOut = .error e) ∧
    (∀ inp s pad maxOut, huffBits inp = huffEncode s ++ pad →
      (∀ b : UInt8, ¬rfcHuffman b.toNat <+: pad) → 8 ≤ pad.length ∨ false ∈ pad →
      ∃ e, zhpHuffDecode inp maxOut = .error e) ∧
    (∀ inp s maxOut, HuffEncodes inp s → maxOut < s.length →
      ∃ e, zhpHuffDecode inp maxOut = .error e) ∧
    ∀ inp pos, huffSymbol inp (inp.length * 8) pos ≠ .none := by
  refine ⟨fun _ _ => mem_huffCode, fun p hp q hq hpre => ?_, fun bits hbits => ?_,
    fun _ _ _ => zhpHuffDecode_eq_ok, fun _ _ _ maxOut => zhpHuffDecode_EOS maxOut,
    fun _ _ _ maxOut => zhpHuffDecode_bad_padding maxOut, fun _ _ _ => zhpHuffDecode_too_long,
    huffSymbol_ne_none⟩
  · rw [← codes_huffTree] at hp hq
    have hsame := CodeTree.codes_prefixFree hp hq hpre
    exact Prod.ext hsame.1 hsame.2
  · have hcode := @CodeTree.exists_code_begins _ huffTree bits 30 (fun p hp => by
      rw [codes_huffTree] at hp
      exact length_huffCode hp) hbits
    rwa [codes_huffTree] at hcode

/-- `www.example.com` with five bits of padding, and EOS with two bits. -/
theorem zhpHuff_exact_www :
    zhpHuffDecode [0xf1, 0xe3, 0xc2, 0xe5, 0xf2, 0x3a, 0x6b, 0xa0, 0xab, 0x90, 0xf4, 0xff] 15 =
      .ok (str "www.example.com") ∧
    ∃ e, zhpHuffDecode [0xff, 0xff, 0xff, 0xff] 15 = .error e :=
  ⟨(zhpHuff_exact.2.2.2.1 _ _ _).mpr
      ⟨by decide, ⟨7, by decide, by decide⟩, by decide⟩,
    zhpHuff_exact.2.2.2.2.1 _ [] [true, true] 15 (by decide)⟩

end Zcio
