import Zcio.Lib.BlockHash
import Zcio.Lib.Word32
import Zcio.Ws.Accept

/-!
# Zcio.Ws.Sha1

SHA-1 as RFC 3174 has it, over words that are bit strings, and that `sha1` in `ws.c` computes it.
The source pads in one block or in two; both are the blocks of the padded message.
-/

namespace Zcio.Rfc3174

/-! ### The standard

RFC 3174. -/

/-- The five words of a hash value. -/
structure Hash where
  a : BitVec 32
  b : BitVec 32
  c : BitVec 32
  d : BitVec 32
  e : BitVec 32
  deriving DecidableEq

/-- The initial value of section 6.1. -/
def H0 : Hash :=
  { a := 0x67452301, b := 0xEFCDAB89, c := 0x98BADCFE, d := 0x10325476, e := 0xC3D2E1F0 }

/-- The functions of section 5, by the round. -/
def f (t : Nat) (B C D : BitVec 32) : BitVec 32 :=
  if t ≤ 19 then (B &&& C) ||| (~~~B &&& D)
  else if t ≤ 39 then B ^^^ C ^^^ D
  else if t ≤ 59 then (B &&& C) ||| (B &&& D) ||| (C &&& D)
  else B ^^^ C ^^^ D

/-- The constants of section 5, by the round. -/
def K (t : Nat) : BitVec 32 :=
  if t ≤ 19 then 0x5A827999
  else if t ≤ 39 then 0x6ED9EBA1
  else if t ≤ 59 then 0x8F1BBCDC
  else 0xCA62C1D6

/-- The words of section 6.1, steps a and b. -/
def W (M : Bytes) (t : Nat) : BitVec 32 :=
  if t < 16 then Lib.Word32.wordAt M t
  else (W M (t - 3) ^^^ W M (t - 8) ^^^ W M (t - 14) ^^^ W M (t - 16)).rotateLeft 1
termination_by t

/-- Step d for one `t`. -/
def round (M : Bytes) (s : Hash) (t : Nat) : Hash :=
  let TEMP := s.a.rotateLeft 5 + f t s.b s.c s.d + s.e + W M t + K t
  { a := TEMP, b := s.a, c := s.b.rotateLeft 30, d := s.c, e := s.d }

/-- The value after a block, by section 6.1. -/
def compress (H : Hash) (M : Bytes) : Hash :=
  let s := (List.range 80).foldl (round M) H
  { a := H.a + s.a, b := H.b + s.b, c := H.c + s.c, d := H.d + s.d, e := H.e + s.e }

/-- The message digest as octets. -/
def Hash.octets (H : Hash) : Bytes := [H.a, H.b, H.c, H.d, H.e].flatMap Lib.Word32.octets

/-- SHA-1 of a message of octets: the blocks of the message padded by section 4, one after
another. -/
def sha1 (msg : Bytes) : Bytes :=
  (Lib.BlockHash.digest compress 64 H0 0x80 0 (Lib.Word32.length64 (8 * msg.length)) msg).octets

end Zcio.Rfc3174

namespace Zcio

open Lib.BlockHash (Follows foldBlocks)

/-! ### The block function -/

/-- The words of a chaining value as bit strings. -/
def Sha1St.words (s : Sha1St) : Rfc3174.Hash :=
  { a := s.a.toBitVec, b := s.b.toBitVec, c := s.c.toBitVec, d := s.d.toBitVec, e := s.e.toBitVec }

theorem toBitVec_rotl32 (v : UInt32) {n : UInt32} (h : 0 < n.toNat ∧ n.toNat < 32) :
    (rotl32 v n).toBitVec = v.toBitVec.rotateLeft n.toNat :=
  Lib.Word32.rotateLeft h.2 h.1 v

theorem length_sha1Words (p : Bytes) : (sha1Words p).length = p.length / 4 := by
  induction p using sha1Words.induct with
  | case1 p0 p1 p2 p3 rest ih =>
    rw [sha1Words, List.length_cons, ih]
    simp only [List.length_cons]
    omega
  | case2 p hp =>
    have hlt : p.length < 4 := by
      match p, hp with
      | [], _ => decide
      | [_], _ => exact Nat.lt_of_sub_eq_succ rfl
      | [_, _], _ => exact Nat.lt_of_sub_eq_succ rfl
      | [_, _, _], _ => exact Nat.lt_of_sub_eq_succ rfl
      | p0 :: p1 :: p2 :: p3 :: rest, hp => exact absurd rfl (hp p0 p1 p2 p3 rest)
    rw [Nat.div_eq_of_lt hlt, sha1Words.eq_2 _ hp]
    rfl

/-- The words of a block are read as the standard has them. -/
theorem sha1Words_getD (p : Bytes) (i : Nat) (hi : i < (sha1Words p).length) :
    ((sha1Words p).getD i 0).toBitVec = Lib.Word32.wordAt p i := by
  induction p using sha1Words.induct generalizing i with
  | case1 p0 p1 p2 p3 rest ih =>
    rw [sha1Words] at hi ⊢
    cases i with
    | zero => exact Lib.Word32.shifted p0 p1 p2 p3
    | succ i =>
      rw [List.length_cons] at hi
      exact ih i (by omega)
  | case2 p hp =>
    rw [sha1Words.eq_2 _ hp] at hi
    exact absurd hi (Nat.not_lt_zero i)

/-- The schedule grows as the standard's does. -/
theorem sha1Extend_follows {p : Bytes} (n : Nat) {w : List UInt32}
    (h : Follows UInt32.toBitVec (Rfc3174.W p) 0 w) (hlen : 16 ≤ w.length) :
    Follows UInt32.toBitVec (Rfc3174.W p) 0 (sha1Extend w n) ∧
      (sha1Extend w n).length = w.length + n := by
  induction n generalizing w with
  | zero => exact ⟨h, rfl⟩
  | succ n ih =>
    have hword (k : Nat) (hk : 0 < k) (hk' : k ≤ 16) :
        (w.getD (w.length - k) 0).toBitVec = Rfc3174.W p (w.length - k) :=
      h _ (by omega)
    have hnext : (rotl32 (w.getD (w.length - 3) 0 ^^^ w.getD (w.length - 8) 0 ^^^
        w.getD (w.length - 14) 0 ^^^ w.getD (w.length - 16) 0) 1).toBitVec =
          Rfc3174.W p w.length := by
      rw [Rfc3174.W, if_neg (by omega), toBitVec_rotl32 _ (by decide), UInt32.toBitVec_xor,
        UInt32.toBitVec_xor, UInt32.toBitVec_xor, hword 3 (by decide) (by decide),
        hword 8 (by decide) (by decide), hword 14 (by decide) (by decide),
        hword 16 (by decide) (by decide)]
      rfl
    obtain ⟨hfollows, hlength⟩ := ih (h.concat hnext) (by rw [List.length_append]; omega)
    refine ⟨hfollows, ?_⟩
    rw [sha1Extend, hlength, List.length_append, List.length_singleton]
    omega

/-- The 80 words of the schedule of a block. -/
theorem sha1Schedule_eq {p : Bytes} (hp : p.length = 64) :
    Follows UInt32.toBitVec (Rfc3174.W p) 0 (sha1Extend (sha1Words p) 64) ∧
      (sha1Extend (sha1Words p) 64).length = 80 := by
  have hlen : (sha1Words p).length = 16 := by rw [length_sha1Words, hp]
  have hstart : Follows UInt32.toBitVec (Rfc3174.W p) 0 (sha1Words p) := fun i hi => by
    rw [Rfc3174.W, if_pos (hlen ▸ hi)]
    exact sha1Words_getD p i hi
  obtain ⟨hfollows, hlength⟩ := sha1Extend_follows 64 hstart hlen.ge
  exact ⟨hfollows, by rw [hlength, hlen]⟩

/-- The function and the constant of a round. -/
theorem sha1_function (s : Sha1St) (t : Nat) :
    let fk : UInt32 × UInt32 :=
      if t < 20 then ((s.b &&& s.c) ||| (~~~s.b &&& s.d), 0x5A827999)
      else if t < 40 then (s.b ^^^ s.c ^^^ s.d, 0x6ED9EBA1)
      else if t < 60 then ((s.b &&& s.c) ||| (s.b &&& s.d) ||| (s.c &&& s.d), 0x8F1BBCDC)
      else (s.b ^^^ s.c ^^^ s.d, 0xCA62C1D6)
    fk.1.toBitVec = Rfc3174.f t s.b.toBitVec s.c.toBitVec s.d.toBitVec ∧
      fk.2.toBitVec = Rfc3174.K t := by
  unfold Rfc3174.f Rfc3174.K
  by_cases h20 : t < 20
  · rw [if_pos h20, if_pos (Nat.le_of_lt_succ h20), if_pos (Nat.le_of_lt_succ h20)]
    exact ⟨rfl, rfl⟩
  · have h19 : ¬t ≤ 19 := by omega
    rw [if_neg h20, if_neg h19, if_neg h19]
    by_cases h40 : t < 40
    · rw [if_pos h40, if_pos (Nat.le_of_lt_succ h40), if_pos (Nat.le_of_lt_succ h40)]
      exact ⟨rfl, rfl⟩
    · have h39 : ¬t ≤ 39 := by omega
      rw [if_neg h40, if_neg h39, if_neg h39]
      by_cases h60 : t < 60
      · rw [if_pos h60, if_pos (Nat.le_of_lt_succ h60), if_pos (Nat.le_of_lt_succ h60)]
        exact ⟨rfl, rfl⟩
      · have h59 : ¬t ≤ 59 := by omega
        rw [if_neg h60, if_neg h59, if_neg h59]
        exact ⟨rfl, rfl⟩

theorem sha1Round_words (s : Sha1St) (t : Nat) {w : UInt32} {p : Bytes}
    (hw : w.toBitVec = Rfc3174.W p t) :
    (sha1Round s t w).words = Rfc3174.round p s.words t := by
  obtain ⟨hf, hk⟩ := sha1_function s t
  have hswap : ∀ x : BitVec 32, x + Rfc3174.K t + Rfc3174.W p t =
      x + Rfc3174.W p t + Rfc3174.K t := fun x => by ac_rfl
  unfold sha1Round Rfc3174.round Sha1St.words
  dsimp only at hf hk ⊢
  rw [UInt32.toBitVec_add, UInt32.toBitVec_add, UInt32.toBitVec_add, UInt32.toBitVec_add, hf, hk,
    hw, toBitVec_rotl32 s.a (by decide), toBitVec_rotl32 s.b (by decide), hswap]
  rfl

theorem sha1Rounds_words {p : Bytes} (ws : List UInt32) (i : Nat) (s : Sha1St)
    (hw : ∀ k < ws.length, (ws.getD k 0).toBitVec = Rfc3174.W p (i + k)) :
    (sha1Rounds s i ws).words = (List.range' i ws.length).foldl (Rfc3174.round p) s.words := by
  induction ws generalizing i s with
  | nil => rfl
  | cons w ws ih =>
    have hhead : w.toBitVec = Rfc3174.W p i := hw 0 (Nat.succ_pos _)
    rw [sha1Rounds, List.length_cons, List.range'_succ, List.foldl_cons, ← sha1Round_words s i hhead]
    refine ih (i + 1) _ fun k hk => ?_
    have htail := hw (k + 1) (Nat.succ_lt_succ hk)
    rw [Nat.add_assoc, Nat.add_comm 1 k]
    exact htail

/-- **The block function** is that of the standard. -/
theorem sha1Block_words (s : Sha1St) {p : Bytes} (hp : p.length = 64) :
    (sha1Block s p).words = Rfc3174.compress s.words p := by
  obtain ⟨hfollows, hlength⟩ := sha1Schedule_eq hp
  have hrounds := sha1Rounds_words (p := p) _ 0 s fun k hk => by
    rw [Nat.zero_add]
    exact hfollows k hk
  rw [hlength, ← List.range_eq_range'] at hrounds
  unfold sha1Block Rfc3174.compress
  generalize sha1Rounds s 0 (sha1Extend (sha1Words p) 64) = r at hrounds
  rw [← hrounds]
  simp only [Sha1St.words, UInt32.toBitVec_add]

/-! ### The message

The padding of the code against that of the standard. -/

/-- The whole blocks of the message. -/
theorem sha1Full_words (st : Sha1St) (msg : Bytes) (n : Nat) (hn : n * 64 ≤ msg.length) :
    (sha1Full st msg n).words =
      (Lib.BlockHash.blocks 64 n msg).foldl Rfc3174.compress st.words := by
  induction n generalizing st msg with
  | zero => rfl
  | succ n ih =>
    have hblock : (msg.take 64).length = 64 := List.length_take_of_le (by omega)
    rw [sha1Full, Lib.BlockHash.blocks, List.foldl_cons, ← sha1Block_words st hblock]
    exact ih _ _ (by rw [List.length_drop]; omega)

theorem be64_eq {msg : Bytes} (h : msg.length < 2 ^ 61) :
    be64 (msg.length * 8 % 2 ^ 64) = Lib.Word32.length64 (8 * msg.length) := by
  rw [Nat.mod_eq_of_lt (by omega), Nat.mul_comm]
  unfold be64 Lib.Word32.length64
  refine List.map_congr_left fun i _ => ?_
  rw [Nat.mul_comm i 8]

/-- **The padding of the source**, in one block or in two, is that of the standard: `block` holds
the rest of the message and the end mark. -/
theorem sha1_blocks (st : Sha1St) {rest size : Bytes} (hrest : rest.length < 64)
    (hsize : size.length = 8) :
    (if (rest ++ [0x80]).length > 56 then
        sha1Block (sha1Block st (rest ++ [0x80] ++ List.replicate (64 - (rest ++ [0x80]).length) 0))
          (List.replicate 56 0 ++ size)
      else sha1Block st (rest ++ [0x80] ++ List.replicate (56 - (rest ++ [0x80]).length) 0 ++
        size)).words =
      foldBlocks Rfc3174.compress 64 st.words
        (rest ++ 0x80 :: List.replicate (Lib.BlockHash.padZeros 64 8 rest.length) 0 ++ size) := by
  have hlen : (rest ++ [0x80]).length = rest.length + 1 := List.length_append
  rw [hlen]
  split
  · -- the size does not fit behind the last octets: two blocks
    rename_i hlong
    have hfirst : (rest ++ [0x80] ++ List.replicate (64 - (rest.length + 1)) (0 : UInt8)).length =
        64 := by
      rw [List.length_append, hlen, List.length_replicate]
      omega
    have hsecond : (List.replicate 56 (0 : UInt8) ++ size).length = 64 := by
      rw [List.length_append, List.length_replicate, hsize]
    have hzeros : Lib.BlockHash.padZeros 64 8 rest.length = 64 - (rest.length + 1) + 56 := by
      unfold Lib.BlockHash.padZeros
      omega
    have hsplit : rest ++ 0x80 :: List.replicate (64 - (rest.length + 1) + 56) (0 : UInt8) ++ size =
        (rest ++ [0x80] ++ List.replicate (64 - (rest.length + 1)) 0) ++
          (List.replicate 56 0 ++ size) := by
      rw [← List.replicate_append_replicate]
      simp only [List.append_assoc, List.cons_append, List.nil_append]
    rw [hzeros, hsplit, Lib.BlockHash.foldBlocks_append (by rw [hfirst]) (by decide),
      Lib.BlockHash.foldBlocks_block hfirst (by decide),
      Lib.BlockHash.foldBlocks_block hsecond (by decide), sha1Block_words _ hsecond,
      sha1Block_words _ hfirst]
  · -- it fits: one block
    rename_i hshort
    have hzeros : Lib.BlockHash.padZeros 64 8 rest.length = 56 - (rest.length + 1) := by
      unfold Lib.BlockHash.padZeros
      omega
    have hone : (rest ++ [0x80] ++ List.replicate (56 - (rest.length + 1)) (0 : UInt8) ++
        size).length = 64 := by
      rw [List.length_append, List.length_append, hlen, List.length_replicate, hsize]
      omega
    rw [hzeros, List.append_cons rest 0x80 (List.replicate (56 - (rest.length + 1)) 0),
      Lib.BlockHash.foldBlocks_block hone (by decide), sha1Block_words _ hone]

theorem sha1_octets (st : Sha1St) :
    be32 st.a ++ be32 st.b ++ be32 st.c ++ be32 st.d ++ be32 st.e = st.words.octets := by
  unfold Rfc3174.Hash.octets Sha1St.words be32
  simp only [List.flatMap_cons, List.flatMap_nil, Lib.Word32.octets_shifted, List.append_assoc,
    List.append_nil]

/-- **SHA-1 of the source is that of RFC 3174.** -/
theorem sha1_eq {msg : Bytes} (h : msg.length < 2 ^ 61) : sha1 msg = Rfc3174.sha1 msg := by
  have hfull := sha1Full_words {} msg (msg.length / 64) (Nat.div_mul_le_self _ _)
  have hrest : (Lib.BlockHash.rest 64 msg).length = msg.length % 64 :=
    Lib.BlockHash.length_rest msg
  have hlt : (Lib.BlockHash.rest 64 msg).length < 64 := hrest ▸ Nat.mod_lt _ (by decide)
  have hzeros : Lib.BlockHash.padZeros 64 8 msg.length =
      Lib.BlockHash.padZeros 64 8 (Lib.BlockHash.rest 64 msg).length := by
    rw [hrest]
    unfold Lib.BlockHash.padZeros
    omega
  have hblocks := sha1_blocks (sha1Full {} msg (msg.length / 64)) hlt
    (Lib.Word32.length_length64 (8 * msg.length))
  rw [hfull] at hblocks
  have hdigest : foldBlocks Rfc3174.compress 64
      ((Lib.BlockHash.blocks 64 (msg.length / 64) msg).foldl Rfc3174.compress Rfc3174.H0)
      (Lib.BlockHash.rest 64 msg ++
        0x80 :: List.replicate (Lib.BlockHash.padZeros 64 8 (Lib.BlockHash.rest 64 msg).length) 0 ++
        Lib.Word32.length64 (8 * msg.length)) =
      Lib.BlockHash.digest Rfc3174.compress 64 Rfc3174.H0 0x80 0
        (Lib.Word32.length64 (8 * msg.length)) msg := by
    unfold Lib.BlockHash.digest Lib.BlockHash.pad
    rw [Lib.Word32.length_length64, hzeros, List.append_assoc, List.append_assoc,
      Lib.BlockHash.foldBlocks_rest (by decide) msg]
    rfl
  unfold sha1 Rfc3174.sha1
  dsimp only
  rw [be64_eq h]
  exact (sha1_octets _).trans (congrArg _ (hblocks.trans hdigest))

end Zcio
