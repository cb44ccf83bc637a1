import Zcio.Lib.Loop
import Zcio.Bytes

/-!
# Zcio.Crypto.Sha256

SHA-256 as `crypto.c` computes it: the block function and the context that takes a message in
pieces. The context cannot hold a full buffer: `zcio_sha256_update` empties it at 64 octets.
-/

namespace Zcio.Crypto

/-- `K`. -/
def K : List UInt32 :=
  [0x428a2f98, 0x71374491, 0xb5c0fbcf, 0xe9b5dba5, 0x3956c25b, 0x59f111f1,
   0x923f82a4, 0xab1c5ed5, 0xd807aa98, 0x12835b01, 0x243185be, 0x550c7dc3,
   0x72be5d74, 0x80deb1fe, 0x9bdc06a7, 0xc19bf174, 0xe49b69c1, 0xefbe4786,
   0x0fc19dc6, 0x240ca1cc, 0x2de92c6f, 0x4a7484aa, 0x5cb0a9dc, 0x76f988da,
   0x983e5152, 0xa831c66d, 0xb00327c8, 0xbf597fc7, 0xc6e00bf3, 0xd5a79147,
   0x06ca6351, 0x14292967, 0x27b70a85, 0x2e1b2138, 0x4d2c6dfc, 0x53380d13,
   0x650a7354, 0x766a0abb, 0x81c2c92e, 0x92722c85, 0xa2bfe8a1, 0xa81a664b,
   0xc24b8b70, 0xc76c51a3, 0xd192e819, 0xd6990624, 0xf40e3585, 0x106aa070,
   0x19a4c116, 0x1e376c08, 0x2748774c, 0x34b0bcb5, 0x391c0cb3, 0x4ed8aa4a,
   0x5b9cca4f, 0x682e6ff3, 0x748f82ee, 0x78a5636f, 0x84c87814, 0x8cc70208,
   0x90befffa, 0xa4506ceb, 0xbef9a3f7, 0xc67178f2]

/-- `ROTR`. -/
def ROTR (x n : UInt32) : UInt32 := x >>> n ||| x <<< (32 - n)

/-- The eight words of `state`. -/
structure Sha256St where
  a : UInt32
  b : UInt32
  c : UInt32
  d : UInt32
  e : UInt32
  f : UInt32
  g : UInt32
  h : UInt32
  deriving Repr, DecidableEq

/-- The first 16 words of the schedule: the block read big-endian. -/
def sha256Words (p : Bytes) : List UInt32 :=
  (List.range 16).map fun i =>
    (p.getD (i * 4) 0).toUInt32 <<< 24 ||| (p.getD (i * 4 + 1) 0).toUInt32 <<< 16 |||
      (p.getD (i * 4 + 2) 0).toUInt32 <<< 8 ||| (p.getD (i * 4 + 3) 0).toUInt32

/-- The next word behind the schedule `w`. -/
def sha256Next (w : List UInt32) : UInt32 :=
  let i := w.length
  let s0 := ROTR (w.getD (i - 15) 0) 7 ^^^ ROTR (w.getD (i - 15) 0) 18 ^^^ w.getD (i - 15) 0 >>> 3
  let s1 := ROTR (w.getD (i - 2) 0) 17 ^^^ ROTR (w.getD (i - 2) 0) 19 ^^^ w.getD (i - 2) 0 >>> 10
  w.getD (i - 16) 0 + s0 + w.getD (i - 7) 0 + s1

/-- `n` more words. -/
def sha256Extend (w : List UInt32) : Nat → List UInt32
  | 0 => w
  | n + 1 => sha256Extend (w ++ [sha256Next w]) n

/-- One of the 64 rounds, on its constant and its word. -/
def sha256Round (s : Sha256St) (k w : UInt32) : Sha256St :=
  let S1 := ROTR s.e 6 ^^^ ROTR s.e 11 ^^^ ROTR s.e 25
  let ch := (s.e &&& s.f) ^^^ (~~~s.e &&& s.g)
  let t1 := s.h + S1 + ch + k + w
  let S0 := ROTR s.a 2 ^^^ ROTR s.a 13 ^^^ ROTR s.a 22
  let mj := (s.a &&& s.b) ^^^ (s.a &&& s.c) ^^^ (s.b &&& s.c)
  let t2 := S0 + mj
  { a := t1 + t2, b := s.a, c := s.b, d := s.c, e := s.d + t1, f := s.e, g := s.f, h := s.g }

/-- `sha256_block` on the words of `state` and a block of 64 octets. -/
def sha256Block (st : Sha256St) (p : Bytes) : Sha256St :=
  let w := sha256Extend (sha256Words p) 48
  let s := (List.range 64).foldl (fun s i => sha256Round s (K.getD i 0) (w.getD i 0)) st
  { a := st.a + s.a, b := st.b + s.b, c := st.c + s.c, d := st.d + s.d
    e := st.e + s.e, f := st.f + s.f, g := st.g + s.g, h := st.h + s.h }

/-- `zcio_sha256_ctx`. -/
structure Sha256Ctx where
  state : Sha256St
  bitlen : UInt64
  buf : { b : Bytes // b.length = 64 }
  buflen : Fin 64

/-- The words that `zcio_sha256_init` stores. -/
def sha256Iv : Sha256St :=
  { a := 0x6a09e667, b := 0xbb67ae85, c := 0x3c6ef372, d := 0xa54ff53a
    e := 0x510e527f, f := 0x9b05688c, g := 0x1f83d9ab, h := 0x5be0cd19 }

/-- `zcio_sha256_init`: the buffer keeps what was in the memory. -/
def zcioSha256Init (c : Sha256Ctx) : Sha256Ctx :=
  { c with state := sha256Iv, bitlen := 0, buflen := 0 }

/-- `memcpy` into the buffer, at `k`. -/
def bufWrite (buf : { b : Bytes // b.length = 64 }) (k : Nat) (src : Bytes)
    (h : k + src.length ≤ 64) : { b : Bytes // b.length = 64 } :=
  ⟨buf.1.take k ++ src ++ buf.1.drop (k + src.length), by
    rw [List.length_append, List.length_append, List.length_take, List.length_drop, buf.2]
    omega⟩

/-- One round of the loop of `zcio_sha256_update`: as much of `p` as the buffer has room for,
and the block when that fills it. -/
def sha256Take (s : Sha256Ctx × Bytes) : (Sha256Ctx × Bytes) ⊕ Sha256Ctx :=
  let (c, p) := s
  if p.length = 0 then .inr c
  else
    let take := min (64 - c.buflen.1) p.length
    let buf := bufWrite c.buf c.buflen (p.take take) (by
      rw [List.length_take]
      have := c.buflen.2
      omega)
    if h : c.buflen.1 + take = 64 then
      .inl ({ c with state := sha256Block c.state buf.1, buf, buflen := 0 }, p.drop take)
    else
      .inl ({ c with buf, buflen := ⟨c.buflen.1 + take, by have := c.buflen.2; omega⟩ }, p.drop take)

theorem sha256Take_decreases : Lib.Decreases sha256Take fun s => s.2.length := by
  rintro ⟨c, p⟩ s' h
  unfold sha256Take at h
  have hroom := c.buflen.2
  dsimp only at h
  split at h
  · cases h
  · rename_i hp
    have hdrop : (p.drop (min (64 - c.buflen.1) p.length)).length < p.length := by
      rw [List.length_drop]
      omega
    split at h
    · cases h
      exact hdrop
    · cases h
      exact hdrop

/-- `zcio_sha256_update`. -/
def zcioSha256Update (c : Sha256Ctx) (data : Bytes) : Sha256Ctx :=
  Lib.loop sha256Take _ sha256Take_decreases
    ({ c with bitlen := c.bitlen + UInt64.ofNat data.length * 8 }, data)

/-- The octets that wait for the rest of their block. -/
def Sha256Ctx.held (c : Sha256Ctx) : Bytes := c.buf.1.take c.buflen.1

theorem Sha256Ctx.length_held (c : Sha256Ctx) : c.held.length = c.buflen.1 := by
  rw [held, List.length_take, c.buf.2]
  exact Nat.min_eq_left c.buflen.2.le

/-- **What a round does**: it takes the front `d` of what is left, and either fills the block with
it or keeps it. -/
theorem sha256Take_cases (c : Sha256Ctx) {p : Bytes} (hp : p ≠ []) :
    ∃ d rest c', p = d ++ rest ∧ sha256Take (c, p) = .inl (c', rest) ∧ c'.bitlen = c.bitlen ∧
      (c.buflen.1 + d.length = 64 ∧ c'.buflen = 0 ∧ c'.state = sha256Block c.state (c.held ++ d) ∨
        c.buflen.1 + d.length < 64 ∧ c'.buflen.1 = c.buflen.1 + d.length ∧ c'.state = c.state ∧
          c'.held = c.held ++ d) := by
  have hroom := c.buflen.2
  have hlen : p.length ≠ 0 := fun h => hp (List.length_eq_zero_iff.mp h)
  have htake : (p.take (min (64 - c.buflen.1) p.length)).length =
      min (64 - c.buflen.1) p.length := by
    rw [List.length_take]
    omega
  refine ⟨p.take (min (64 - c.buflen.1) p.length), p.drop (min (64 - c.buflen.1) p.length), ?_⟩
  rw [htake]
  unfold sha256Take
  dsimp only
  rw [if_neg hlen]
  -- the buffer up to the new cursor
  have hheld : ∀ h : c.buflen.1 + (p.take (min (64 - c.buflen.1) p.length)).length ≤ 64,
      (bufWrite c.buf c.buflen.1 (p.take (min (64 - c.buflen.1) p.length)) h).1.take
        (c.buflen.1 + min (64 - c.buflen.1) p.length) =
      c.held ++ p.take (min (64 - c.buflen.1) p.length) := by
    intro h
    unfold bufWrite
    refine List.take_left' ?_
    rw [List.length_append, htake]
    exact congrArg (· + _) c.length_held
  split
  · rename_i hfull
    refine ⟨_, (List.take_append_drop _ _).symm, rfl, rfl, .inl ⟨hfull, rfl, ?_⟩⟩
    have hle : c.buflen.1 + (p.take (min (64 - c.buflen.1) p.length)).length ≤ 64 := by omega
    have hblock := hheld hle
    rw [hfull, List.take_of_length_le (bufWrite c.buf c.buflen.1 _ hle).2.le] at hblock
    exact congrArg (sha256Block c.state) hblock
  · rename_i hfull
    exact ⟨_, (List.take_append_drop _ _).symm, rfl, rfl, .inr ⟨by omega, rfl, rfl, hheld (by omega)⟩⟩

/-- The buffer holds what does not make up a block. -/
theorem zcioSha256Update_buflen (c : Sha256Ctx) (data : Bytes) :
    (zcioSha256Update c data).buflen.1 = (c.buflen.1 + data.length) % 64 := by
  refine Lib.loop_induct sha256Take_decreases
    (P := fun s r => r.buflen.1 = (s.1.buflen.1 + s.2.length) % 64) ?_ ?_ (_, data)
  · rintro ⟨c, p⟩ r h
    cases p with
    | nil =>
      cases h
      exact (Nat.mod_eq_of_lt c.buflen.2).symm
    | cons b p =>
      obtain ⟨_, _, _, -, hstep, -⟩ := sha256Take_cases c (List.cons_ne_nil b p)
      rw [hstep] at h
      cases h
  · rintro ⟨c, p⟩ ⟨c₁, p₁⟩ r h ih
    cases p with
    | nil => cases h
    | cons b p =>
      obtain ⟨d, rest, c', hp, hstep, -, hcases⟩ := sha256Take_cases c (List.cons_ne_nil b p)
      rw [hstep] at h
      cases h
      dsimp only at ih ⊢
      rw [ih, hp, List.length_append]
      obtain ⟨hfull, hzero, -⟩ | ⟨-, hmore, -⟩ := hcases
      · rw [hzero, ← Nat.add_assoc, hfull, Nat.add_mod_left]
        exact congrArg (· % 64) (Nat.zero_add _)
      · rw [hmore, Nat.add_assoc]

/-- A round of the padding loop of `zcio_sha256_final`. -/
def sha256Zero (c : Sha256Ctx) : Sha256Ctx ⊕ Sha256Ctx :=
  if c.buflen.1 ≠ 56 then .inl (zcioSha256Update c [0]) else .inr c

theorem sha256Zero_decreases :
    Lib.Decreases sha256Zero fun c => (120 - c.buflen.1) % 64 := by
  intro c c' h
  unfold sha256Zero at h
  split at h
  · rename_i hne
    cases h
    have hroom := c.buflen.2
    show (120 - (zcioSha256Update c [0]).buflen.1) % 64 < (120 - c.buflen.1) % 64
    rw [zcioSha256Update_buflen, List.length_singleton]
    omega
  · cases h

/-- A word as four octets, big-endian. -/
def word32 (v : UInt32) : Bytes :=
  [(v >>> 24).toUInt8, (v >>> 16).toUInt8, (v >>> 8).toUInt8, v.toUInt8]

/-- The words of `state` as the octets of `out`. -/
def sha256Out (s : Sha256St) : Bytes :=
  word32 s.a ++ word32 s.b ++ word32 s.c ++ word32 s.d ++ word32 s.e ++ word32 s.f ++
    word32 s.g ++ word32 s.h

/-- The saved bit length as eight octets. -/
def lenOctets (bits : UInt64) : Bytes :=
  (List.range 8).map fun i => (bits >>> UInt64.ofNat (56 - i * 8)).toUInt8

/-- `zcio_sha256_final`: the octets of `out`. -/
def zcioSha256Final (c : Sha256Ctx) : Bytes :=
  let bits := c.bitlen
  let c := zcioSha256Update c [0x80]
  let c := Lib.loop sha256Zero _ sha256Zero_decreases c
  let buf := bufWrite c.buf 56 (lenOctets bits) (by simp [lenOctets])
  sha256Out (sha256Block c.state buf.1)

/-- `zcio_sha256`, on whatever is in the memory of its context. -/
def zcioSha256 (mem : Sha256Ctx) (data : Bytes) : Bytes :=
  zcioSha256Final (zcioSha256Update (zcioSha256Init mem) data)

end Zcio.Crypto
