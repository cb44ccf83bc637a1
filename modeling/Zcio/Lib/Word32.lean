import Mathlib.Algebra.Order.Ring.Nat
import Mathlib.Tactic.Common

/-!
# Zcio.Lib.Word32

32-bit words as machine code computes them, and as bit strings: rotation, and a word as four
octets, the most significant one first.
-/

namespace Lib.Word32

/-- The word of four octets, the most significant one first. -/
def ofOctets (b₀ b₁ b₂ b₃ : UInt8) : BitVec 32 :=
  b₀.toBitVec ++ b₁.toBitVec ++ b₂.toBitVec ++ b₃.toBitVec

/-- The octets of a word, the most significant one first. -/
def octets (x : BitVec 32) : List UInt8 :=
  [UInt8.ofBitVec (x.extractLsb' 24 8), UInt8.ofBitVec (x.extractLsb' 16 8),
    UInt8.ofBitVec (x.extractLsb' 8 8), UInt8.ofBitVec (x.extractLsb' 0 8)]

/-- Word `t` of a block. -/
def wordAt (M : List UInt8) (t : Nat) : BitVec 32 :=
  ofOctets (M.getD (4 * t) 0) (M.getD (4 * t + 1) 0) (M.getD (4 * t + 2) 0) (M.getD (4 * t + 3) 0)

/-- A number as a 64-bit block. -/
def length64 (n : Nat) : List UInt8 :=
  (List.range 8).map fun i => UInt8.ofNat (n / 2 ^ (56 - 8 * i))

@[simp] theorem length_length64 (n : Nat) : (length64 n).length = 8 := by
  rw [length64, List.length_map, List.length_range]

theorem length_octets (x : BitVec 32) : (octets x).length = 4 := rfl

/-- The amounts by which a rotation shifts. -/
theorem shift_amounts {n : UInt32} (h : n.toNat < 32) :
    (n.toBitVec % 32).toNat = n.toNat ∧
      ((32 - n).toBitVec % 32).toNat = (32 - n.toNat) % 32 := by
  have hsub : (32 - n).toNat = 32 - n.toNat := by
    rw [UInt32.toNat_sub_of_le _ _ (UInt32.le_iff_toNat_le.mpr h.le)]
    rfl
  refine ⟨?_, ?_⟩
  · rw [BitVec.toNat_umod]
    exact Nat.mod_eq_of_lt h
  · rw [BitVec.toNat_umod]
    exact congrArg (· % 32) hsub

theorem shiftRight {n : UInt32} (h : n.toNat < 32) (x : UInt32) :
    (x >>> n).toBitVec = x.toBitVec >>> n.toNat := by
  rw [UInt32.toBitVec_shiftRight, BitVec.ushiftRight_eq', (shift_amounts h).1]

/-- Rotation to the right, by the definition of FIPS 180-4. -/
theorem rotateRight {n : UInt32} (h : n.toNat < 32) (h0 : 0 < n.toNat) (x : UInt32) :
    (x >>> n ||| x <<< (32 - n)).toBitVec = x.toBitVec.rotateRight n.toNat := by
  obtain ⟨hright, hleft⟩ := shift_amounts h
  rw [Nat.mod_eq_of_lt (Nat.sub_lt (by decide) h0)] at hleft
  rw [UInt32.toBitVec_or, UInt32.toBitVec_shiftRight, UInt32.toBitVec_shiftLeft,
    BitVec.ushiftRight_eq', BitVec.shiftLeft_eq', hright, hleft, BitVec.rotateRight_def,
    Nat.mod_eq_of_lt h]

/-- Rotation to the left. -/
theorem rotateLeft {n : UInt32} (h : n.toNat < 32) (h0 : 0 < n.toNat) (x : UInt32) :
    (x <<< n ||| x >>> (32 - n)).toBitVec = x.toBitVec.rotateLeft n.toNat := by
  obtain ⟨hleft, hright⟩ := shift_amounts h
  rw [Nat.mod_eq_of_lt (Nat.sub_lt (by decide) h0)] at hright
  rw [UInt32.toBitVec_or, UInt32.toBitVec_shiftRight, UInt32.toBitVec_shiftLeft,
    BitVec.ushiftRight_eq', BitVec.shiftLeft_eq', hright, hleft, BitVec.rotateLeft_def,
    Nat.mod_eq_of_lt h]

/-- Four octets shifted into their places. -/
theorem shifted (b₀ b₁ b₂ b₃ : UInt8) :
    (b₀.toUInt32 <<< 24 ||| b₁.toUInt32 <<< 16 ||| b₂.toUInt32 <<< 8 ||| b₃.toUInt32).toBitVec =
      ofOctets b₀ b₁ b₂ b₃ := by
  apply BitVec.eq_of_toNat_eq
  unfold ofOctets
  simp only [BitVec.toNat_append, UInt8.toNat_toBitVec, UInt32.toNat_toBitVec, UInt32.toNat_or,
    UInt32.toNat_shiftLeft, UInt8.toNat_toUInt32, Nat.shiftLeft_or_distrib, ← Nat.shiftLeft_add]
  -- no octet is shifted out of the word
  have hfit (b : UInt8) (s : Nat) (hs : s ≤ 24) : b.toNat <<< s % 2 ^ 32 = b.toNat <<< s := by
    refine Nat.mod_eq_of_lt ?_
    rw [Nat.shiftLeft_eq]
    calc b.toNat * 2 ^ s < 2 ^ 8 * 2 ^ s :=
          Nat.mul_lt_mul_of_pos_right b.toNat_lt (Nat.two_pow_pos s)
      _ = 2 ^ (8 + s) := (Nat.pow_add 2 8 s).symm
      _ ≤ 2 ^ 32 := Nat.pow_le_pow_right (by decide) (by omega)
  exact congrArg₂ (· ||| ·) (congrArg₂ (· ||| ·) (congrArg₂ (· ||| ·)
    (hfit b₀ 24 (by decide)) (hfit b₁ 16 (by decide))) (hfit b₂ 8 (by decide))) rfl

theorem octets_shifted (x : UInt32) :
    octets x.toBitVec = [(x >>> 24).toUInt8, (x >>> 16).toUInt8, (x >>> 8).toUInt8, x.toUInt8] := by
  have hoctet (s : Nat) (hs : s < 32) :
      UInt8.ofBitVec (x.toBitVec.extractLsb' s 8) = (x >>> UInt32.ofNat s).toUInt8 := by
    apply UInt8.toNat_inj.mp
    simp [Nat.mod_eq_of_lt hs]
  unfold octets
  rw [hoctet 24 (by decide), hoctet 16 (by decide), hoctet 8 (by decide)]
  rfl

end Lib.Word32
