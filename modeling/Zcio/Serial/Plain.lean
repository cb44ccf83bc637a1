import Zcio.Serial.RoundTrip

/-!
# Zcio.Serial.Plain

Writes of a serial that does not pack bits (`bit_stream` off). All modes take the same paths
then, so that two serials with the same cursors make the same raw writes (`Alike`). Not all of
the bits get there: those of `zcio_serial_write_bits` are refused, and a single byte behind
single bits takes their place.
-/

namespace Zcio

open Lib.Bits

variable {σ : Type} {e : SerialHost σ} {z z' : Serial σ}

/-! ### Raw writes of two serials

Two writers that differ in their bits only. -/

/-- What a raw write does to the mode's part. -/
def rawMode (e : SerialHost σ) (m : SerialMode σ) (src : Bytes) : SerialMode σ :=
  (rawWrite e { mode := m } src).2.mode

/-- Whether it goes outside of the block. -/
def rawStrays (e : SerialHost σ) (m : SerialMode σ) (src : Bytes) : Bool :=
  (rawWrite e { mode := m } src).2.strayed

theorem rawWrite_mode (z : Serial σ) (src : Bytes) :
    (rawWrite e z src).2 =
      { z with mode := rawMode e z.mode src, strayed := z.strayed || rawStrays e z.mode src } := by
  obtain ⟨mode, bs, crb, br, cwb, bw, f1, f2, f3, lr, st⟩ := z
  cases mode with
  | stream => exact congrArg (Serial.mk _ _ _ _ _ _ _ _ _ _) (Bool.or_false st).symm
  | count => exact congrArg (Serial.mk _ _ _ _ _ _ _ _ _ _) (Bool.or_false st).symm
  | buffer buf rpos wpos =>
    unfold rawMode rawStrays rawWrite
    dsimp only
    split_ifs
    · rw [Bool.or_false]
    · rw [Bool.or_false]
    · rw [Bool.or_true]

/-- A relation of two modes that raw writes keep, behind `k` octets and with room for `n`. -/
def RawAlike (e : SerialHost σ) (Rel : SerialMode σ → SerialMode σ → Nat → Nat → Prop) : Prop :=
  ∀ {m m' k n} (src : Bytes), Rel m m' k n → src.length ≤ n →
    Rel (rawMode e m src) (rawMode e m' src) (k + src.length) (n - src.length)

/-- Two serials behind the same writes: `k` bits are out or pending, there is room for `b`. -/
structure Alike (Rel : SerialMode σ → SerialMode σ → Nat → Nat → Prop) (z z' : Serial σ)
    (k b : Nat) : Prop where
  plain : z.bitStream = false
  plain' : z'.bitStream = false
  lt : z.bitsWritten < 8
  written : z'.bitsWritten = z.bitsWritten
  cur : z'.curWriteByte = z.curWriteByte
  rel : ∃ o n, Rel z.mode z'.mode o n ∧ 8 * o + z.bitsWritten = k ∧ z.bitsWritten + b ≤ 8 * n

/-! ### What gets lost

Without bit packing an array of bits is refused, and an octet takes the place of the bits in
progress. -/

/-- The bits that an operation behind `p` pending ones loses. -/
def SerialOp.drops (p : Nat) : SerialOp → Nat
  | .bits n => n
  | .byte => p
  | _ => 0

/-- The bits pending behind an operation. -/
def SerialOp.pending (p : Nat) : SerialOp → Nat
  | .bit => (p + 1) % 8
  | .byte => 0
  | _ => p

/-- The bits that operations lose. -/
def droppedBits : Nat → List SerialOp → Nat
  | _, [] => 0
  | p, op :: ops => op.drops p + droppedBits (op.pending p) ops

/-! ### The operations -/

variable {Rel : SerialMode σ → SerialMode σ → Nat → Nat → Prop} {k b : Nat}

theorem writeWholeByte_alike (hraw : RawAlike e Rel) {o n : Nat} (hp : z.bitStream = false)
    (hp' : z'.bitStream = false) (hrel : Rel z.mode z'.mode o n) (hb : 8 + b ≤ 8 * n) (c : UInt8) :
    Alike Rel (writeWholeByte e z c) (writeWholeByte e z' c) (8 * (o + 1)) b := by
  unfold writeWholeByte
  rw [rawWrite_mode, rawWrite_mode]
  refine ⟨hp, hp', by simp, rfl, rfl, o + 1, n - 1, ?_, rfl, by simp only; omega⟩
  exact hraw [c] hrel (by rw [List.length_singleton]; omega)

theorem zcioSerialWriteBit_alike (hraw : RawAlike e Rel) (h : Alike Rel z z' k (1 + b)) (c : Bool) :
    Alike Rel (zcioSerialWriteBit e z c) (zcioSerialWriteBit e z' c) (k + 1) b ∧
      (zcioSerialWriteBit e z c).bitsWritten = (z.bitsWritten + 1) % 8 := by
  obtain ⟨hp, hp', hlt, hw, hcur, o, n, hrel, hk, hb⟩ := h
  unfold zcioSerialWriteBit
  dsimp only
  rw [hw, hcur]
  split_ifs with hfull
  · refine ⟨?_, ?_⟩
    · rw [show k + 1 = 8 * (o + 1) by omega]
      refine writeWholeByte_alike hraw ?_ ?_ ?_ (n := n) (by omega) _
      · exact hp
      · exact hp'
      · exact hrel
    · simp only [writeWholeByte]
      omega
  · exact ⟨⟨hp, hp', by simp only; omega, rfl, rfl, o, n, hrel, by simp only; omega,
      by simp only; omega⟩, by simp only; omega⟩

theorem zcioSerialWriteByte_alike (hraw : RawAlike e Rel) (h : Alike Rel z z' k (8 + b)) (c : UInt8) :
    Alike Rel (zcioSerialWriteByte e z c) (zcioSerialWriteByte e z' c) (k + 8 - z.bitsWritten) b ∧
      (zcioSerialWriteByte e z c).bitsWritten = 0 := by
  obtain ⟨hp, hp', hlt, hw, hcur, o, n, hrel, hk, hb⟩ := h
  unfold zcioSerialWriteByte
  rw [hp, hp', if_neg (by simp), if_neg (by simp)]
  refine ⟨?_, rfl⟩
  have hwhole := writeWholeByte_alike (b := b) hraw hp hp' hrel (by omega) c
  rwa [show 8 * (o + 1) = k + 8 - z.bitsWritten by omega] at hwhole

theorem zcioSerialWriteBytes_alike (hraw : RawAlike e Rel) (src : Bytes)
    (h : Alike Rel z z' k (8 * src.length + b)) :
    Alike Rel (zcioSerialWriteBytes e z src).2 (zcioSerialWriteBytes e z' src).2
        (k + 8 * src.length) b ∧
      (zcioSerialWriteBytes e z src).2.bitsWritten = z.bitsWritten := by
  obtain ⟨hp, hp', hlt, hw, hcur, o, n, hrel, hk, hb⟩ := h
  have hbulk : ∀ y : Serial σ, y.bitStream = false →
      (zcioSerialWriteBytes e y src).2 =
        { y with mode := rawMode e y.mode src, strayed := y.strayed || rawStrays e y.mode src } := by
    intro y hy
    rw [← rawWrite_mode]
    unfold zcioSerialWriteBytes
    rw [hy]
  rw [hbulk z hp, hbulk z' hp']
  exact ⟨⟨hp, hp', hlt, hw, hcur, o + src.length, n - src.length, hraw src hrel (by omega),
    by simp only; omega, by simp only; omega⟩, rfl⟩

/-- **The write of a value** keeps two serials alike, and counts the bits that it does not lose. -/
theorem SerialVal.write_alike (hraw : RawAlike e Rel) (v : SerialVal)
    (h : Alike Rel z z' k ((v.toBits e).length + b)) :
    Alike Rel (v.write e z) (v.write e z') (k + (v.toBits e).length - v.op.drops z.bitsWritten) b ∧
      v.op.drops z.bitsWritten ≤ k + (v.toBits e).length ∧
      (v.write e z).bitsWritten = v.op.pending z.bitsWritten := by
  have hk := h.rel.choose_spec.choose_spec.2.1
  cases v with
  | bit c =>
    obtain ⟨hbit, hw⟩ := zcioSerialWriteBit_alike hraw h c
    exact ⟨hbit, Nat.zero_le _, hw⟩
  | bits cs =>
    -- refused
    have hwrite : ∀ y : Serial σ, y.bitStream = false → (SerialVal.bits cs).write e y = y := by
      intro y hy
      simp [write, zcioSerialWriteBits, hy]
    rw [hwrite z h.plain, hwrite z' h.plain']
    obtain ⟨hp, hp', hlt, hw, hcur, o, n, hrel, hk, hb⟩ := h
    simp only [toBits, op, SerialOp.drops, SerialOp.pending, List.length_map] at hb ⊢
    exact ⟨⟨hp, hp', hlt, hw, hcur, o, n, hrel, by omega, by omega⟩, by omega, trivial⟩
  | byte c =>
    obtain ⟨hbyte, hw⟩ := zcioSerialWriteByte_alike hraw h c
    refine ⟨hbyte, ?_, hw⟩
    simp only [op, SerialOp.drops]
    omega
  | bytes cs =>
    simp only [toBits, length_unpack] at h ⊢
    obtain ⟨hbytes, hw⟩ := zcioSerialWriteBytes_alike hraw cs h
    exact ⟨hbytes, Nat.zero_le _, hw⟩
  | scalar t x =>
    simp only [toBits, length_unpack] at h ⊢
    obtain ⟨hbytes, hw⟩ := zcioSerialWriteBytes_alike hraw (hostOctets e t.size x.toNat) h
    exact ⟨hbytes, Nat.zero_le _, hw⟩
  | str s =>
    simp only [toBits, length_unpack, strOctets, List.length_append] at h ⊢
    rw [Nat.mul_add, Nat.add_assoc] at h
    obtain ⟨hpre, hw⟩ := zcioSerialWriteBytes_alike hraw (hostOctets e 8 (s.length % 2 ^ 64)) h
    simp only [write, zcioSerialWriteStr, op, SerialOp.drops, SerialOp.pending]
    by_cases hs : s.length = 0
    · rw [if_neg (by simpa using hs), if_neg (by simpa using hs)]
      cases List.length_eq_zero_iff.mp hs
      refine ⟨?_, Nat.zero_le _, hw⟩
      simpa using hpre
    · rw [if_pos hs, if_pos hs]
      obtain ⟨hbytes, hw'⟩ := zcioSerialWriteBytes_alike hraw s hpre
      rw [Nat.add_assoc, ← Nat.mul_add] at hbytes
      exact ⟨hbytes, Nat.zero_le _, hw'.trans hw⟩

theorem foldl_write_alike (hraw : RawAlike e Rel) (vs : List SerialVal)
    (h : Alike Rel z z' k ((vs.flatMap (SerialVal.toBits e)).length + b)) :
    ∃ k', Alike Rel (vs.foldl (SerialVal.write e) z) (vs.foldl (SerialVal.write e) z') k' b ∧
      k' + droppedBits z.bitsWritten (vs.map SerialVal.op) =
        k + (vs.flatMap (SerialVal.toBits e)).length := by
  induction vs generalizing z z' k with
  | nil => exact ⟨k, by simpa using h, rfl⟩
  | cons v vs ih =>
    rw [List.flatMap_cons, List.length_append, Nat.add_assoc] at h
    obtain ⟨hv, hle, hw⟩ := v.write_alike hraw h
    obtain ⟨k', hk', heq⟩ := ih hv
    rw [hw] at heq
    refine ⟨k', hk', ?_⟩
    simp only [List.map_cons, droppedBits, List.flatMap_cons, List.length_append]
    omega

/-- **A whole sequence of writes.** The relation holds at the end, and the octets are those of
the bits that were not lost. -/
theorem serialWrite_alike (hraw : RawAlike e Rel) (vs : List SerialVal)
    (h : Alike Rel z z' k (vs.flatMap (SerialVal.toBits e)).length) :
    ∃ n, Rel (serialWrite e z vs).mode (serialWrite e z' vs).mode
      ((k + (vs.flatMap (SerialVal.toBits e)).length -
        droppedBits z.bitsWritten (vs.map SerialVal.op) + 7) / 8) n := by
  obtain ⟨k', hend, hk'⟩ := foldl_write_alike (b := 0) hraw vs h
  unfold serialWrite zcioSerialSynchronize
  obtain ⟨hp, hp', hlt, hw, hcur, o, n, hrel, hk, hb⟩ := hend
  generalize vs.foldl (SerialVal.write e) z = y at *
  generalize vs.foldl (SerialVal.write e) z' = y' at *
  by_cases hmid : 0 < y.bitsWritten ∧ y.bitsWritten < 8
  · rw [if_pos hmid, if_pos (by rwa [hw]), hcur]
    rw [zcioSerialWriteByte_full rfl, zcioSerialWriteByte_full rfl]
    unfold writeWholeByte
    rw [rawWrite_mode, rawWrite_mode]
    refine ⟨n - 1, ?_⟩
    have hone := hraw [y.curWriteByte] hrel (by rw [List.length_singleton]; omega)
    rwa [List.length_singleton, show o + 1 = (k + (vs.flatMap (SerialVal.toBits e)).length -
      droppedBits z.bitsWritten (vs.map SerialVal.op) + 7) / 8 by omega] at hone
  · rw [if_neg hmid, if_neg (by rwa [hw])]
    refine ⟨n, ?_⟩
    rwa [show (k + (vs.flatMap (SerialVal.toBits e)).length -
      droppedBits z.bitsWritten (vs.map SerialVal.op) + 7) / 8 = o by omega]

end Zcio
