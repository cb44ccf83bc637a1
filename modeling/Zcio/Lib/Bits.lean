import Mathlib.Algebra.Order.Ring.Nat
import Mathlib.Data.Nat.Bitwise
import Mathlib.Tactic.Common
import Mathlib.Tactic.Ring

/-!
# Zcio.Lib.Bits

Octets as bits, the low ones first: the bits of octets (`unpack`), and the number that a run of
bits stands for (`ofBits`).
-/

namespace Lib.Bits

variable {p q : List Bool} {a b : List UInt8}

/-- The bits of an octet. -/
def octetBits (c : UInt8) : List Bool := (List.range 8).map c.toNat.testBit

/-- The bits of octets. -/
def unpack (b : List UInt8) : List Bool := b.flatMap octetBits

/-- The number that bits stand for. -/
def ofBits : List Bool → Nat
  | [] => 0
  | b :: p => b.toNat + 2 * ofBits p

/-! ### Bits of a number -/

theorem ofBits_lt : ∀ p : List Bool, ofBits p < 2 ^ p.length
  | [] => Nat.one_pos
  | b :: p => by
    have := ofBits_lt p
    have := b.toNat_lt
    rw [ofBits, List.length_cons, Nat.pow_succ]
    omega

theorem testBit_ofBits (p : List Bool) (i : Nat) : (ofBits p).testBit i = p.getD i false := by
  induction p generalizing i with
  | nil => simp [ofBits]
  | cons b p ih =>
    have hb := b.toNat_lt
    cases i with
    | zero => cases b <;> simp [ofBits, Nat.testBit_zero, Nat.add_mod]
    | succ i =>
      rw [Nat.testBit_succ, ofBits, show (b.toNat + 2 * ofBits p) / 2 = ofBits p by omega, ih]
      rfl

/-- One more bit above the others. -/
theorem ofBits_append (p : List Bool) (c : Bool) :
    ofBits (p ++ [c]) = ofBits p ||| c.toNat <<< p.length := by
  refine Nat.eq_of_testBit_eq fun i => ?_
  rw [Nat.testBit_or, testBit_ofBits, testBit_ofBits, Nat.testBit_shiftLeft]
  rcases Nat.lt_trichotomy i p.length with hlt | heq | hgt
  · simp [List.getD_eq_getElem?_getD, List.getElem?_append_left hlt, Nat.not_le.mpr hlt]
  · subst heq
    cases c <;> simp [List.getD_eq_getElem?_getD]
  · have hbit : c.toNat.testBit (i - p.length) = false :=
      Nat.testBit_lt_two_pow (lt_of_lt_of_le c.toNat_lt (Nat.le_self_pow (by omega) 2))
    simp [List.getD_eq_getElem?_getD, List.getElem?_append_right hgt.le, hbit,
      List.getElem?_eq_none hgt.le, List.getElem?_eq_none (l := [c]) (i := i - p.length)
        (by simp only [List.length_singleton]; omega)]

theorem ofBits_lt_octet (h : p.length ≤ 8) : ofBits p < 256 :=
  lt_of_lt_of_le (ofBits_lt p) (Nat.pow_le_pow_right (by decide) h)

theorem ofBits_append_eq (p q : List Bool) : ofBits (p ++ q) = ofBits p + 2 ^ p.length * ofBits q := by
  induction p with
  | nil => simp [ofBits]
  | cons b p ih =>
    rw [List.cons_append, ofBits, ofBits, ih, List.length_cons, Nat.pow_succ]
    ring

theorem ofBits_inj (hlen : p.length = q.length) (h : ofBits p = ofBits q) : p = q := by
  refine List.ext_getElem hlen fun i hp hq => ?_
  have hbit := congrArg (Nat.testBit · i) h
  simp only [testBit_ofBits] at hbit
  rwa [List.getD_eq_getElem _ _ hp, List.getD_eq_getElem _ _ hq] at hbit

/-! ### Octets -/

@[simp] theorem length_octetBits (c : UInt8) : (octetBits c).length = 8 := rfl

theorem ofBits_octetBits (c : UInt8) : ofBits (octetBits c) = c.toNat := by
  refine Nat.eq_of_testBit_eq fun i => ?_
  rw [testBit_ofBits, octetBits]
  rcases Nat.lt_or_ge i 8 with hlt | hge
  · simp [List.getD_eq_getElem?_getD, List.getElem?_range hlt]
  · rw [List.getD_eq_getElem?_getD, List.getElem?_eq_none (by simpa using hge)]
    exact (Nat.testBit_lt_two_pow (lt_of_lt_of_le c.toNat_lt
      (Nat.pow_le_pow_right (by decide) hge))).symm

theorem octetBits_injective : Function.Injective octetBits := fun c d h =>
  UInt8.toNat_inj.mp (by rw [← ofBits_octetBits c, ← ofBits_octetBits d, h])

/-- The bits of an octet that is filled up in part. -/
theorem octetBits_ofBits (h : p.length ≤ 8) :
    octetBits (UInt8.ofNat (ofBits p)) = p ++ List.replicate (8 - p.length) false := by
  have hval : (UInt8.ofNat (ofBits p)).toNat = ofBits p :=
    UInt8.toNat_ofNat_of_lt' (ofBits_lt_octet h)
  refine List.ext_getElem? fun i => ?_
  rw [octetBits, hval]
  rcases Nat.lt_or_ge i 8 with hlt | hge
  · rw [List.getElem?_map, List.getElem?_range hlt, Option.map_some, testBit_ofBits,
      List.getD_eq_getElem?_getD]
    rcases Nat.lt_or_ge i p.length with hin | hout
    · rw [List.getElem?_append_left hin, List.getElem?_eq_getElem hin]
      rfl
    · rw [List.getElem?_append_right hout, List.getElem?_eq_none hout,
        List.getElem?_replicate_of_lt (by omega)]
      rfl
  · rw [List.getElem?_eq_none (by simpa using hge), List.getElem?_eq_none]
    rw [List.length_append, List.length_replicate]
    omega

@[simp] theorem unpack_nil : unpack [] = [] := rfl

@[simp] theorem unpack_cons (c : UInt8) (b : List UInt8) :
    unpack (c :: b) = octetBits c ++ unpack b := rfl

@[simp] theorem unpack_append (a b : List UInt8) : unpack (a ++ b) = unpack a ++ unpack b :=
  List.flatMap_append

@[simp] theorem length_unpack (b : List UInt8) : (unpack b).length = 8 * b.length := by
  induction b with
  | nil => rfl
  | cons c b ih =>
    rw [unpack_cons, List.length_append, ih, length_octetBits, List.length_cons]
    omega

theorem unpack_injective : Function.Injective unpack := by
  intro a b h
  induction a generalizing b with
  | nil =>
    have hlen := congrArg List.length h
    rw [length_unpack, length_unpack, List.length_nil] at hlen
    exact (List.length_eq_zero_iff.mp (by omega)).symm
  | cons c a ih =>
    cases b with
    | nil =>
      have hlen := congrArg List.length h
      rw [length_unpack, length_unpack, List.length_nil, List.length_cons] at hlen
      omega
    | cons d b =>
      obtain ⟨hc, hrest⟩ := List.append_inj h (by simp)
      rw [octetBits_injective hc, ih hrest]

/-- The bits of the octets from the `n`th on. -/
theorem unpack_drop (b : List UInt8) (n : Nat) : unpack (b.drop n) = (unpack b).drop (8 * n) := by
  induction n generalizing b with
  | zero => rfl
  | succ n ih =>
    cases b with
    | nil => simp
    | cons c b =>
      rw [List.drop_succ_cons, ih, unpack_cons, Nat.mul_succ, Nat.add_comm, ← List.drop_drop,
        List.drop_left' (length_octetBits c)]

/-- The bits of the first `n` octets. -/
theorem unpack_take (b : List UInt8) (n : Nat) : unpack (b.take n) = (unpack b).take (8 * n) := by
  induction n generalizing b with
  | zero => rfl
  | succ n ih =>
    cases b with
    | nil => simp
    | cons c b =>
      rw [List.take_succ_cons, unpack_cons, ih, unpack_cons, Nat.mul_succ, Nat.add_comm,
        List.take_add, List.take_left' (length_octetBits c), List.drop_left' (length_octetBits c)]

/-! ### The octets of a number -/

/-- The octets of a number, the low ones first. -/
def octets (n v : Nat) : List UInt8 := (List.range n).map fun i => (v >>> (8 * i)).toUInt8

@[simp] theorem length_octets (n v : Nat) : (octets n v).length = n := by simp [octets]

theorem octets_succ (n v : Nat) : octets (n + 1) v = v.toUInt8 :: octets n (v / 256) := by
  simp only [octets, List.range_succ_eq_map, List.map_cons, List.map_map, Nat.mul_zero,
    Nat.shiftRight_zero]
  congr 1
  refine List.map_congr_left fun i _ => ?_
  rw [Function.comp_apply, Nat.mul_succ, Nat.add_comm, Nat.shiftRight_add,
    Nat.shiftRight_eq_div_pow v 8]

theorem ofBits_octets (n v : Nat) : ofBits (unpack (octets n v)) = v % 2 ^ (8 * n) := by
  induction n generalizing v with
  | zero => simp [octets, ofBits, Nat.mod_one]
  | succ n ih =>
    rw [octets_succ, unpack_cons, ofBits_append_eq, ofBits_octetBits, ih, length_octetBits,
      Nat.mul_succ, Nat.add_comm (8 * n), Nat.pow_add, Nat.mod_mul]
    rfl

/-- Octets are those of the number that they stand for. -/
theorem octets_ofBits (b : List UInt8) : octets b.length (ofBits (unpack b)) = b := by
  refine unpack_injective (ofBits_inj (by simp) ?_)
  rw [ofBits_octets, ← length_unpack, Nat.mod_eq_of_lt (ofBits_lt _)]

/-- A set of numbers as a mask. -/
theorem testBit_foldl_pow (l : List Nat) (m i : Nat) :
    (l.foldl (fun m s => m ||| 2 ^ s) m).testBit i = (m.testBit i || decide (i ∈ l)) := by
  induction l generalizing m with
  | nil => simp
  | cons s l ih =>
    rw [List.foldl_cons, ih, Nat.testBit_or, Nat.testBit_two_pow, Bool.or_assoc]
    simp only [List.mem_cons, Bool.decide_or, eq_comm]

/-- Digits to the base `b`, the lowest first, as one number. -/
def packed (b : Nat) : List Nat → Nat
  | [] => 0
  | d :: ds => d + b * packed b ds

theorem packed_digit {b : Nat} {ds : List Nat} (h : ∀ d ∈ ds, d < b) (i : Nat) :
    packed b ds / b ^ i % b = ds.getD i 0 := by
  induction ds generalizing i with
  | nil => simp [packed]
  | cons d ds ih =>
    have hd := h d List.mem_cons_self
    have hb : 0 < b := Nat.zero_lt_of_lt hd
    cases i with
    | zero =>
      rw [packed, Nat.pow_zero, Nat.div_one, Nat.add_mul_mod_self_left, Nat.mod_eq_of_lt hd]
      rfl
    | succ i =>
      rw [packed, Nat.pow_succ', ← Nat.div_div_eq_div_mul, Nat.add_mul_div_left _ _ hb, Nat.div_eq_of_lt hd,
        Nat.zero_add, ih fun d hd => h d (List.mem_cons_of_mem _ hd)]
      rfl

/-! ### Masks of one bit -/

theorem and_ne_zero_iff {b m : UInt8} {k : Nat} (hm : m.toNat = 2 ^ k) :
    b &&& m ≠ 0 ↔ b.toNat.testBit k = true := by
  rw [Ne, ← UInt8.toNat_inj, UInt8.toNat_and, hm, Nat.and_two_pow, UInt8.toNat_zero]
  cases b.toNat.testBit k
  · simp
  · simp

theorem and_eq_zero_iff {b m : UInt8} {k : Nat} (hm : m.toNat = 2 ^ k) :
    b &&& m = 0 ↔ b.toNat / 2 ^ k % 2 = 0 := by
  rw [← not_iff_not, ← ne_eq, and_ne_zero_iff hm, Nat.testBit_eq_decide_div_mod_eq, decide_eq_true_iff]
  omega

end Lib.Bits
