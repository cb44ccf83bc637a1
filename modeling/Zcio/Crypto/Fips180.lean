import Mathlib.Data.Nat.NthRoot.Defs
import Zcio.Lib.BlockHash
import Zcio.Lib.Word32
import Zcio.Crypto.Sha256

/-!
# Zcio.Crypto.Fips180

SHA-256 as FIPS 180-4 has it, over words that are bit strings, and that `crypto.c` computes it:
its block function is the compression of section 6.2.2, and however a message is cut into calls
of `zcio_sha256_update`, the blocks are those of the padded message.
-/

namespace Zcio.Fips180

/-! ### The standard

FIPS 180-4, on words of 32 bits and with the constants from the roots of primes. -/

/-- The eight words of a hash value, or the eight working variables. -/
structure Hash where
  a : BitVec 32
  b : BitVec 32
  c : BitVec 32
  d : BitVec 32
  e : BitVec 32
  f : BitVec 32
  g : BitVec 32
  h : BitVec 32
  deriving DecidableEq

/-- The first 64 primes. -/
def primes : List Nat :=
  [2, 3, 5, 7, 11, 13, 17, 19, 23, 29, 31, 37, 41, 43, 47, 53, 59, 61, 67, 71, 73, 79, 83, 89, 97,
   101, 103, 107, 109, 113, 127, 131, 137, 139, 149, 151, 157, 163, 167, 173, 179, 181, 191, 193,
   197, 199, 211, 223, 227, 229, 233, 239, 241, 251, 257, 263, 269, 271, 277, 281, 283, 293, 307,
   311]

/-- The first 32 bits of the fractional part of the `k`-th root of the prime `p`. -/
def rootBits (k p : Nat) : BitVec 32 := BitVec.ofNat 32 (Nat.nthRoot k (p * 2 ^ (32 * k)))

/-- The constants of section 4.2.2, from the cube roots of the primes. -/
def K (t : Nat) : BitVec 32 := rootBits 3 (primes.getD t 0)

/-- The initial hash value of section 5.3.3, from the square roots of the first eight primes. -/
def H0 : Hash :=
  { a := rootBits 2 2, b := rootBits 2 3, c := rootBits 2 5, d := rootBits 2 7
    e := rootBits 2 11, f := rootBits 2 13, g := rootBits 2 17, h := rootBits 2 19 }

section Functions

variable (x y z : BitVec 32)

/-- The functions of section 4.1.2. -/
def Ch : BitVec 32 := (x &&& y) ^^^ (~~~x &&& z)
def Maj : BitVec 32 := (x &&& y) ^^^ (x &&& z) ^^^ (y &&& z)
def bigSigma0 : BitVec 32 := x.rotateRight 2 ^^^ x.rotateRight 13 ^^^ x.rotateRight 22
def bigSigma1 : BitVec 32 := x.rotateRight 6 ^^^ x.rotateRight 11 ^^^ x.rotateRight 25
def smallSigma0 : BitVec 32 := x.rotateRight 7 ^^^ x.rotateRight 18 ^^^ x >>> 3
def smallSigma1 : BitVec 32 := x.rotateRight 17 ^^^ x.rotateRight 19 ^^^ x >>> 10

end Functions

/-- The message schedule of section 6.2.2, step 1. -/
def W (M : Bytes) (t : Nat) : BitVec 32 :=
  if t < 16 then Lib.Word32.wordAt M t
  else smallSigma1 (W M (t - 2)) + W M (t - 7) + smallSigma0 (W M (t - 15)) + W M (t - 16)
termination_by t

/-- Step 3 for one `t`. -/
def round (M : Bytes) (s : Hash) (t : Nat) : Hash :=
  let T1 := s.h + bigSigma1 s.e + Ch s.e s.f s.g + K t + W M t
  let T2 := bigSigma0 s.a + Maj s.a s.b s.c
  { a := T1 + T2, b := s.a, c := s.b, d := s.c, e := s.d + T1, f := s.e, g := s.f, h := s.g }

/-- The next hash value, by section 6.2.2. -/
def compress (H : Hash) (M : Bytes) : Hash :=
  let s := (List.range 64).foldl (round M) H
  { a := s.a + H.a, b := s.b + H.b, c := s.c + H.c, d := s.d + H.d
    e := s.e + H.e, f := s.f + H.f, g := s.g + H.g, h := s.h + H.h }

/-- The message digest as octets. -/
def Hash.octets (H : Hash) : Bytes :=
  [H.a, H.b, H.c, H.d, H.e, H.f, H.g, H.h].flatMap Lib.Word32.octets

/-- SHA-256 of a message of octets: the compression of section 6.2.2 over the 512-bit blocks of
the message padded by section 5.1.1, its length in bits in the last 64. -/
def sha256 (msg : Bytes) : Bytes :=
  (Lib.BlockHash.digest compress 64 H0 0x80 0 (Lib.Word32.length64 (8 * msg.length)) msg).octets

end Zcio.Fips180

namespace Zcio.Crypto

open Lib.BlockHash (Follows Absorbed)

/-! ### The block function

The eight variables of the code against those of the standard, round by round. -/

/-- The words of a state as bit strings. -/
def Sha256St.words (s : Sha256St) : Fips180.Hash :=
  { a := s.a.toBitVec, b := s.b.toBitVec, c := s.c.toBitVec, d := s.d.toBitVec
    e := s.e.toBitVec, f := s.f.toBitVec, g := s.g.toBitVec, h := s.h.toBitVec }

theorem K_eq : ∀ t < 64, (K.getD t 0).toBitVec = Fips180.K t := by
  decide +kernel

theorem sha256Iv_words : sha256Iv.words = Fips180.H0 := by
  decide +kernel

/-- A rotation by a constant is the rotation of the bit string. -/
theorem toBitVec_ROTR (x : UInt32) {n : UInt32} (h : 0 < n.toNat ∧ n.toNat < 32) :
    (ROTR x n).toBitVec = x.toBitVec.rotateRight n.toNat :=
  Lib.Word32.rotateRight h.2 h.1 x

section Functions

variable (x y z : UInt32)

theorem toBitVec_s0 : (ROTR x 7 ^^^ ROTR x 18 ^^^ x >>> 3).toBitVec =
    Fips180.smallSigma0 x.toBitVec := by
  rw [UInt32.toBitVec_xor, UInt32.toBitVec_xor, toBitVec_ROTR x (by decide),
    toBitVec_ROTR x (by decide), Lib.Word32.shiftRight (by decide)]
  rfl

theorem toBitVec_s1 : (ROTR x 17 ^^^ ROTR x 19 ^^^ x >>> 10).toBitVec =
    Fips180.smallSigma1 x.toBitVec := by
  rw [UInt32.toBitVec_xor, UInt32.toBitVec_xor, toBitVec_ROTR x (by decide),
    toBitVec_ROTR x (by decide), Lib.Word32.shiftRight (by decide)]
  rfl

theorem toBitVec_S0 : (ROTR x 2 ^^^ ROTR x 13 ^^^ ROTR x 22).toBitVec =
    Fips180.bigSigma0 x.toBitVec := by
  rw [UInt32.toBitVec_xor, UInt32.toBitVec_xor, toBitVec_ROTR x (by decide),
    toBitVec_ROTR x (by decide), toBitVec_ROTR x (by decide)]
  rfl

theorem toBitVec_S1 : (ROTR x 6 ^^^ ROTR x 11 ^^^ ROTR x 25).toBitVec =
    Fips180.bigSigma1 x.toBitVec := by
  rw [UInt32.toBitVec_xor, UInt32.toBitVec_xor, toBitVec_ROTR x (by decide),
    toBitVec_ROTR x (by decide), toBitVec_ROTR x (by decide)]
  rfl

end Functions

theorem sha256Words_follows (p : Bytes) :
    Follows UInt32.toBitVec (Fips180.W p) 0 (sha256Words p) := by
  intro i hi
  have hlt : i < 16 := by
    rw [sha256Words, List.length_map, List.length_range] at hi
    exact hi
  have hget : (sha256Words p).getD i 0 =
      (p.getD (i * 4) 0).toUInt32 <<< 24 ||| (p.getD (i * 4 + 1) 0).toUInt32 <<< 16 |||
        (p.getD (i * 4 + 2) 0).toUInt32 <<< 8 ||| (p.getD (i * 4 + 3) 0).toUInt32 := by
    rw [List.getD_eq_getElem?_getD, sha256Words, List.getElem?_map, List.getElem?_range hlt]
    rfl
  rw [hget, Lib.Word32.shifted, Fips180.W, if_pos hlt, Lib.Word32.wordAt, Nat.mul_comm]

/-- The next word of the schedule is the one of the standard. -/
theorem sha256Next_eq {p : Bytes} {w : List UInt32} (h : Follows UInt32.toBitVec (Fips180.W p) 0 w)
    (hlen : 16 ≤ w.length) : (sha256Next w).toBitVec = Fips180.W p w.length := by
  have hword (k : Nat) (hk : 0 < k) (hk' : k ≤ 16) :
      (w.getD (w.length - k) 0).toBitVec = Fips180.W p (w.length - k) :=
    h _ (by omega)
  rw [Fips180.W, if_neg (by omega), ← hword 2 (by decide) (by decide),
    ← hword 7 (by decide) (by decide), ← hword 15 (by decide) (by decide),
    ← hword 16 (by decide) (by decide)]
  unfold sha256Next
  dsimp only
  rw [UInt32.toBitVec_add, UInt32.toBitVec_add, UInt32.toBitVec_add, toBitVec_s0, toBitVec_s1]
  ac_rfl

theorem sha256Extend_follows {p : Bytes} (n : Nat) {w : List UInt32}
    (h : Follows UInt32.toBitVec (Fips180.W p) 0 w) (hlen : 16 ≤ w.length) :
    Follows UInt32.toBitVec (Fips180.W p) 0 (sha256Extend w n) ∧
      (sha256Extend w n).length = w.length + n := by
  induction n generalizing w with
  | zero => exact ⟨h, rfl⟩
  | succ n ih =>
    have hnext := h.concat (sha256Next_eq h hlen)
    have hlen' : (w ++ [sha256Next w]).length = w.length + 1 := List.length_append
    obtain ⟨hfollows, hlength⟩ := ih hnext (by omega)
    exact ⟨hfollows, by rw [sha256Extend, hlength, hlen']; omega⟩

/-- The 64 words of the schedule. -/
theorem sha256Schedule_eq (p : Bytes) : ∀ t < 64,
    ((sha256Extend (sha256Words p) 48).getD t 0).toBitVec = Fips180.W p t := by
  have hlen : (sha256Words p).length = 16 := by
    rw [sha256Words, List.length_map, List.length_range]
  obtain ⟨hfollows, hlength⟩ := sha256Extend_follows 48 (sha256Words_follows p) hlen.ge
  intro t ht
  exact hfollows t (by omega)

theorem sha256Round_words (s : Sha256St) (k w : UInt32) {p : Bytes} {t : Nat}
    (hk : k.toBitVec = Fips180.K t) (hw : w.toBitVec = Fips180.W p t) :
    (sha256Round s k w).words = Fips180.round p s.words t := by
  have hT1 : (s.h + (ROTR s.e 6 ^^^ ROTR s.e 11 ^^^ ROTR s.e 25) +
      ((s.e &&& s.f) ^^^ (~~~s.e &&& s.g)) + k + w).toBitVec =
      s.h.toBitVec + Fips180.bigSigma1 s.e.toBitVec +
        Fips180.Ch s.e.toBitVec s.f.toBitVec s.g.toBitVec + Fips180.K t + Fips180.W p t := by
    rw [UInt32.toBitVec_add, UInt32.toBitVec_add, UInt32.toBitVec_add, UInt32.toBitVec_add,
      toBitVec_S1, hk, hw]
    rfl
  have hT2 : ((ROTR s.a 2 ^^^ ROTR s.a 13 ^^^ ROTR s.a 22) +
      ((s.a &&& s.b) ^^^ (s.a &&& s.c) ^^^ (s.b &&& s.c))).toBitVec =
      Fips180.bigSigma0 s.a.toBitVec +
        Fips180.Maj s.a.toBitVec s.b.toBitVec s.c.toBitVec := by
    rw [UInt32.toBitVec_add, toBitVec_S0]
    rfl
  unfold sha256Round Fips180.round Sha256St.words
  dsimp only
  rw [@UInt32.toBitVec_add s.d, @UInt32.toBitVec_add (_ + w) (_ + _), hT1, hT2]

theorem foldl_sha256Round (p : Bytes) (w : List UInt32)
    (hw : ∀ t < 64, (w.getD t 0).toBitVec = Fips180.W p t) (ts : List Nat)
    (hts : ∀ t ∈ ts, t < 64) (s : Sha256St) :
    (ts.foldl (fun s i => sha256Round s (K.getD i 0) (w.getD i 0)) s).words =
      ts.foldl (Fips180.round p) s.words := by
  induction ts generalizing s with
  | nil => rfl
  | cons t ts ih =>
    have ht := hts t List.mem_cons_self
    rw [List.foldl_cons, List.foldl_cons, ih (fun t h => hts t (List.mem_cons_of_mem _ h)),
      sha256Round_words s _ _ (K_eq t ht) (hw t ht)]

/-- **The block function is the compression of the standard.** -/
theorem sha256Block_words (s : Sha256St) (p : Bytes) :
    (sha256Block s p).words = Fips180.compress s.words p := by
  have hrounds := foldl_sha256Round p _ (sha256Schedule_eq p) (List.range 64)
    (fun t ht => List.mem_range.mp ht) s
  unfold sha256Block Fips180.compress
  dsimp only
  rw [← hrounds]
  simp only [Sha256St.words, UInt32.toBitVec_add, BitVec.add_comm]

/-! ### The calls

Octets that do not fill a block wait in the context. -/

/-- What the context holds of the message that it was given. -/
abbrev Sha256Ctx.Holds (c : Sha256Ctx) (msg : Bytes) : Prop :=
  Absorbed Fips180.compress 64 Fips180.H0 c.state.words c.held msg

theorem zcioSha256Init_holds (mem : Sha256Ctx) : (zcioSha256Init mem).Holds [] := by
  unfold Sha256Ctx.Holds zcioSha256Init
  rw [sha256Iv_words]
  exact .nil

/-- One round of `zcio_sha256_update`. -/
theorem sha256Take_holds {c c' : Sha256Ctx} {p rest msg : Bytes} (hc : c.Holds msg)
    (h : sha256Take (c, p) = .inl (c', rest)) :
    ∃ d, p = d ++ rest ∧ c'.Holds (msg ++ d) ∧ c'.bitlen = c.bitlen := by
  have hne : p ≠ [] := by
    rintro rfl
    cases h
  obtain ⟨d, rest', c₁, hp, hstep, hbits, hcases⟩ := sha256Take_cases c hne
  rw [hstep] at h
  cases h
  refine ⟨d, hp, ?_, hbits⟩
  obtain ⟨hfull, hzero, hstate⟩ | ⟨hroom, -, hstate, hheld⟩ := hcases
  · have hempty : c'.held = [] := by
      rw [Sha256Ctx.held, hzero]
      rfl
    unfold Sha256Ctx.Holds
    rw [hempty, hstate, sha256Block_words]
    exact hc.fill (by decide) (by rw [c.length_held]; exact hfull)
  · unfold Sha256Ctx.Holds
    rw [hstate, hheld]
    exact hc.grow (by rw [c.length_held]; exact hroom)

/-- **`zcio_sha256_update` absorbs its data**, behind what the context holds. -/
theorem zcioSha256Update_holds {c : Sha256Ctx} {msg : Bytes} (hc : c.Holds msg) (data : Bytes) :
    (zcioSha256Update c data).Holds (msg ++ data) ∧
      (zcioSha256Update c data).bitlen = c.bitlen + UInt64.ofNat data.length * 8 := by
  refine Lib.loop_induct sha256Take_decreases
    (P := fun s r => ∀ msg, s.1.Holds msg → r.Holds (msg ++ s.2) ∧ r.bitlen = s.1.bitlen)
    ?_ ?_ (_, data) msg hc
  · rintro ⟨c, p⟩ r h msg hc
    cases p with
    | nil =>
      cases h
      exact ⟨by rw [List.append_nil]; exact hc, rfl⟩
    | cons b p =>
      obtain ⟨_, _, _, -, hstep, -⟩ := sha256Take_cases c (List.cons_ne_nil b p)
      rw [hstep] at h
      cases h
  · rintro ⟨c, p⟩ ⟨c', rest⟩ r h ih msg hc
    obtain ⟨d, rfl, hc', hbits⟩ := sha256Take_holds hc h
    obtain ⟨hr, hrbits⟩ := ih _ hc'
    exact ⟨by rw [← List.append_assoc]; exact hr, hrbits.trans hbits⟩

/-- The calls one after another. -/
theorem foldl_zcioSha256Update {c : Sha256Ctx} {msg : Bytes} (hc : c.Holds msg)
    (hbits : c.bitlen = UInt64.ofNat (8 * msg.length)) (segs : List Bytes) :
    (segs.foldl zcioSha256Update c).Holds (msg ++ segs.flatten) ∧
      (segs.foldl zcioSha256Update c).bitlen =
        UInt64.ofNat (8 * (msg ++ segs.flatten).length) := by
  induction segs generalizing c msg with
  | nil =>
    rw [List.flatten_nil, List.append_nil]
    exact ⟨hc, hbits⟩
  | cons seg segs ih =>
    obtain ⟨hnext, hnextBits⟩ := zcioSha256Update_holds hc seg
    rw [List.flatten_cons, ← List.append_assoc]
    refine ih hnext ?_
    have hseg : UInt64.ofNat (8 * seg.length) = UInt64.ofNat seg.length * 8 := by
      rw [Nat.mul_comm, UInt64.ofNat_mul]
      rfl
    rw [hnextBits, hbits, List.length_append, Nat.mul_add, UInt64.ofNat_add, hseg]

/-- The padding loop. -/
theorem sha256Zeros_holds {c : Sha256Ctx} {msg : Bytes} (hc : c.Holds msg) :
    (Lib.loop sha256Zero _ sha256Zero_decreases c).Holds
        (msg ++ List.replicate ((120 - c.buflen.1) % 64) 0) ∧
      (Lib.loop sha256Zero _ sha256Zero_decreases c).buflen.1 = 56 := by
  refine Lib.loop_induct sha256Zero_decreases
    (P := fun c r => ∀ msg, c.Holds msg →
      r.Holds (msg ++ List.replicate ((120 - c.buflen.1) % 64) 0) ∧ r.buflen.1 = 56) ?_ ?_ c msg hc
  · intro c r h msg hc
    unfold sha256Zero at h
    split at h
    · cases h
    · rename_i hend
      cases h
      have hend : c.buflen.1 = 56 := Decidable.not_not.mp hend
      refine ⟨?_, hend⟩
      rw [hend]
      show c.Holds (msg ++ [])
      rw [List.append_nil]
      exact hc
  · intro c c' r h ih msg hc
    unfold sha256Zero at h
    split at h
    · rename_i hne
      cases h
      obtain ⟨hr, hlen⟩ := ih _ (zcioSha256Update_holds hc [0]).1
      refine ⟨?_, hlen⟩
      have hcount : (120 - c.buflen.1) % 64 =
          (120 - (zcioSha256Update c [0]).buflen.1) % 64 + 1 := by
        have hroom := c.buflen.2
        rw [zcioSha256Update_buflen, List.length_singleton]
        omega
      rw [hcount, List.replicate_succ, List.append_cons]
      exact hr
    · cases h

/-- The length octets of a message that is short enough. -/
theorem lenOctets_eq {msg : Bytes} (h : msg.length < 2 ^ 61) :
    lenOctets (UInt64.ofNat (8 * msg.length)) = Lib.Word32.length64 (8 * msg.length) := by
  unfold lenOctets Lib.Word32.length64
  refine List.map_congr_left fun i hi => ?_
  have hi := List.mem_range.mp hi
  apply UInt8.toNat_inj.mp
  have hbits : (UInt64.ofNat (8 * msg.length)).toNat = 8 * msg.length := by
    rw [UInt64.toNat_ofNat']
    exact Nat.mod_eq_of_lt (by omega)
  have hshift : (UInt64.ofNat (56 - i * 8)).toNat % 64 = 56 - 8 * i := by
    rw [UInt64.toNat_ofNat', Nat.mod_eq_of_lt (by omega)]
    omega
  rw [UInt64.toNat_toUInt8, UInt64.toNat_shiftRight, hbits, hshift, Nat.shiftRight_eq_div_pow,
    UInt8.toNat_ofNat']

theorem sha256Out_octets (s : Sha256St) : sha256Out s = s.words.octets := by
  unfold sha256Out Fips180.Hash.octets Sha256St.words word32
  simp only [List.flatMap_cons, List.flatMap_nil, Lib.Word32.octets_shifted, List.append_assoc,
    List.append_nil]

/-- `zcio_sha256_final` on a context that holds the message. -/
theorem zcioSha256Final_eq {c : Sha256Ctx} {msg : Bytes} (hc : c.Holds msg)
    (hbits : c.bitlen = UInt64.ofNat (8 * msg.length)) (h : msg.length < 2 ^ 61) :
    zcioSha256Final c = Fips180.sha256 msg := by
  obtain ⟨hmark, -⟩ := zcioSha256Update_holds hc [0x80]
  obtain ⟨hzeros, hfull⟩ := sha256Zeros_holds hmark
  have hcount : (120 - (zcioSha256Update c [0x80]).buflen.1) % 64 =
      Lib.BlockHash.padZeros 64 (Lib.Word32.length64 (8 * msg.length)).length msg.length := by
    have hlen : c.buflen.1 = msg.length % 64 := by
      rw [← c.length_held, hc.buffer, Lib.BlockHash.length_rest]
    rw [zcioSha256Update_buflen, hlen, List.length_singleton,
      Lib.Word32.length_length64, Lib.BlockHash.padZeros]
    omega
  rw [hcount, List.append_assoc, List.singleton_append] at hzeros
  unfold zcioSha256Final Fips180.sha256
  dsimp only
  generalize Lib.loop sha256Zero _ sha256Zero_decreases (zcioSha256Update c [0x80]) = c' at hzeros hfull
  -- the length goes behind the 56 octets that the context holds
  have hbuf : (bufWrite c'.buf 56 (lenOctets c.bitlen) (by simp [lenOctets])).1 =
      c'.held ++ Lib.Word32.length64 (8 * msg.length) := by
    have hdrop : c'.buf.1.drop (56 + (lenOctets c.bitlen).length) = [] :=
      List.drop_eq_nil_of_le (by rw [c'.buf.2]; simp [lenOctets])
    unfold bufWrite Sha256Ctx.held
    dsimp only
    rw [hdrop, List.append_nil, hfull, hbits, lenOctets_eq h]
  rw [hbuf, sha256Out_octets, sha256Block_words]
  refine congrArg _ (hzeros.digest (by decide) ?_)
  rw [c'.length_held, hfull]
  rfl

/-- **SHA-256 of a message in pieces.** Whatever the memory of the context held before, and however
a message of less than 2^61 octets is cut into calls of `zcio_sha256_update`, empty ones among
them, `zcio_sha256_final` gives the digest of FIPS 180-4; so does the one-shot `zcio_sha256`. -/
theorem zcioSha256_stream (mem : Sha256Ctx) (msg : Bytes) (h : msg.length < 2 ^ 61)
    (segs : List Bytes) (hsegs : segs.flatten = msg) :
    zcioSha256Final (segs.foldl zcioSha256Update (zcioSha256Init mem)) = Fips180.sha256 msg ∧
      zcioSha256 mem msg = Fips180.sha256 msg := by
  have hrun (segs : List Bytes) (hsegs : segs.flatten = msg) :
      zcioSha256Final (segs.foldl zcioSha256Update (zcioSha256Init mem)) = Fips180.sha256 msg := by
    obtain ⟨hholds, hbits⟩ := foldl_zcioSha256Update (zcioSha256Init_holds mem) rfl segs
    rw [List.nil_append, hsegs] at hholds hbits
    exact zcioSha256Final_eq hholds hbits h
  exact ⟨hrun segs hsegs, hrun [msg] (by rw [List.flatten_cons, List.flatten_nil, List.append_nil])⟩

/-- A context in cleared memory. -/
def Sha256Ctx.cleared : Sha256Ctx :=
  { state := ⟨0, 0, 0, 0, 0, 0, 0, 0⟩, bitlen := 0, buf := ⟨List.replicate 64 0, rfl⟩
    buflen := ⟨0, Nat.two_pow_pos 6⟩ }

theorem zcioSha256_stream_abc :
    zcioSha256Final ([str "a", [], str "bc"].foldl zcioSha256Update (zcioSha256Init .cleared)) =
        Fips180.sha256 (str "abc") ∧
      zcioSha256 .cleared (str "abc") = Fips180.sha256 (str "abc") :=
  zcioSha256_stream .cleared (str "abc") (by decide) _ (by decide)

/-- The first example of the standard. -/
example : Fips180.sha256 (str "abc") =
    [0xba, 0x78, 0x16, 0xbf, 0x8f, 0x01, 0xcf, 0xea, 0x41, 0x41, 0x40, 0xde, 0x5d, 0xae, 0x22, 0x23,
     0xb0, 0x03, 0x61, 0xa3, 0x96, 0x17, 0x7a, 0x9c, 0xb4, 0x10, 0xff, 0x61, 0xf2, 0x00, 0x15,
     0xad] := by
  have hdigest := @zcioSha256Final_eq _ (str "abc")
    (zcioSha256Update_holds (zcioSha256Init_holds .cleared) (str "abc")).1 (by decide +kernel)
    (by decide)
  rw [← hdigest]
  decide +kernel

end Zcio.Crypto
