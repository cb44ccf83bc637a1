import Zcio.Serial.Ops

/-!
# Zcio.Serial.BitStream

A serial that packs bits. What it was given are bits: those in the octets written, and behind
them the pending ones of `curWriteByte` (`Packed`). Read again, they are the bits that are left
of `curReadByte` and behind them those in the octets still to come (`Ahead`). Whole octets are
written and read at any of the eight alignments.
-/

namespace Zcio

open Lib.Bits

variable {σ : Type} {e : SerialHost σ} (S : Sink e.toStreamVt) {z : Serial σ}

/-! ### Raw writes

A raw write to a sink that keeps its octets. -/

/-- A stream is behind the serial. -/
def Serial.isStream (z : Serial σ) : Bool :=
  match z.mode with
  | .stream _ => true
  | _ => false

/-- The octets that were written. -/
def Serial.out (z : Serial σ) : Bytes :=
  match z.mode with
  | .stream s => S.written s
  | .buffer buf _ wpos => buf.take wpos
  | .count .. => []

/-- There is room for `n` octets more. -/
def Serial.room (z : Serial σ) (n : Nat) : Prop :=
  match z.mode with
  | .stream s => S.room s n
  | .buffer buf _ wpos => wpos + n ≤ buf.length
  | .count .. => False

/-- **A raw write** for which there is room. -/
theorem rawWrite_ok {n : Nat} {src : Bytes} (hroom : z.room S n) (hn : src.length ≤ n) :
    ∃ m, (rawWrite e z src).2 = { z with mode := m } ∧
      ({ z with mode := m } : Serial σ).isStream = z.isStream ∧
      ({ z with mode := m } : Serial σ).out S = z.out S ++ src ∧
      ({ z with mode := m } : Serial σ).room S (n - src.length) := by
  obtain ⟨mode, bs, crb, br, cwb, bw, f1, f2, f3, lr, st⟩ := z
  cases mode with
  | count => exact hroom.elim
  | buffer buf rpos wpos =>
    simp only [Serial.room] at hroom
    have hfront : (buf.take wpos ++ src).length = wpos + src.length := by
      rw [List.length_append, List.length_take_of_le (by omega)]
    refine ⟨.buffer (buf.take wpos ++ src ++ buf.drop (wpos + src.length)) rpos
      (wpos + src.length), ?_, rfl, ?_, ?_⟩
    · have hle : src.length ≤ buf.length - wpos := by omega
      simp only [rawWrite]
      rw [if_neg (Nat.not_lt.mpr (hle.trans (le_bufferCap _ _))), if_pos hle]
    · exact List.take_left' hfront
    · simp only [Serial.room]
      rw [List.length_append, hfront, List.length_drop]
      omega
  | stream s =>
    obtain ⟨s', heq, hwritten, hroom'⟩ := S.zcioWriteFull_ok (s := s) hroom hn
    refine ⟨.stream s', ?_, rfl, hwritten, hroom'⟩
    simp only [rawWrite, heq]

/-! ### Bits on their way out

The octets written and the bits of the one that is open, as one list of bits. -/

/-- The serial has taken `bits`, and there is room for `b` more. -/
structure Packed (z : Serial σ) (bits : List Bool) (b : Nat) : Prop where
  lt : z.bitsWritten < 8
  /-- The pending bits are the low ones of `curWriteByte`. -/
  bits : ∃ p, p.length = z.bitsWritten ∧ z.curWriteByte = UInt8.ofNat (ofBits p) ∧
    bits = unpack (z.out S) ++ p
  room : ∃ n, z.room S n ∧ z.bitsWritten + b ≤ 8 * n

variable {S} {bits : List Bool} {b : Nat}

theorem Packed.length (h : Packed S z bits b) : bits.length % 8 = z.bitsWritten := by
  obtain ⟨p, hp, -, rfl⟩ := h.bits
  have := h.lt
  rw [List.length_append, length_unpack]
  omega

/-- The path for whole octets, with `p` pending that fill the octet. -/
theorem writeWholeByte_packed {c : UInt8} {n : Nat} (hroom : z.room S n) (hb : 8 + b ≤ 8 * n) :
    Packed S (writeWholeByte e z c) (unpack (z.out S) ++ octetBits c) b ∧
      (writeWholeByte e z c).bitStream = z.bitStream ∧
      (writeWholeByte e z c).isStream = z.isStream := by
  obtain ⟨m, heq, hstream, hout, hroom'⟩ :=
    rawWrite_ok S hroom (by rw [List.length_singleton]; omega : [c].length ≤ n)
  unfold writeWholeByte
  rw [heq]
  refine ⟨⟨by simp, ⟨[], rfl, rfl, ?_⟩, ⟨n - 1, hroom', ?_⟩⟩, rfl, hstream⟩
  · have hout' : unpack (z.out S ++ [c]) = unpack (z.out S) ++ octetBits c := by simp
    rw [List.append_nil, ← hout', ← hout]
    rfl
  · simp only
    omega

theorem or_shift_octet (p : List Bool) (c : Bool) :
    UInt8.ofNat (ofBits p) ||| (c.toNat <<< p.length).toUInt8 = UInt8.ofNat (ofBits (p ++ [c])) := by
  rw [ofBits_append]
  exact (UInt8.ofNat_or ..).symm

/-- **A bit** is one bit more. -/
theorem zcioSerialWriteBit_packed (h : Packed S z bits (b + 1)) (c : Bool) :
    Packed S (zcioSerialWriteBit e z c) (bits ++ [c]) b ∧
      (zcioSerialWriteBit e z c).bitStream = z.bitStream ∧
      (zcioSerialWriteBit e z c).isStream = z.isStream := by
  obtain ⟨hlt, ⟨p, hp, hcur, rfl⟩, n, hroom, hb⟩ := h
  unfold zcioSerialWriteBit
  dsimp only
  rw [hcur, ← hp, or_shift_octet]
  split_ifs with hfull
  · -- the octet is full
    have hbits : octetBits (UInt8.ofNat (ofBits (p ++ [c]))) = p ++ [c] := by
      rw [octetBits_ofBits (by simp; omega), List.length_append, List.length_singleton, hfull]
      simp
    have hwhole := writeWholeByte_packed (b := b) (c := UInt8.ofNat (ofBits (p ++ [c])))
      (z := { z with curWriteByte := UInt8.ofNat (ofBits (p ++ [c])), bitsWritten := p.length + 1 })
      hroom (by omega)
    rw [hbits] at hwhole
    rw [List.append_assoc]
    exact hwhole
  · refine ⟨⟨by simp only; omega, ⟨p ++ [c], by simp, rfl, ?_⟩, n, hroom, by simp only; omega⟩,
      rfl, rfl⟩
    rw [List.append_assoc]
    rfl

/-- Bits one after the other. -/
theorem foldl_writeBit_packed (cs : List Bool) (h : Packed S z bits (cs.length + b)) :
    Packed S (cs.foldl (zcioSerialWriteBit e) z) (bits ++ cs) b ∧
      (cs.foldl (zcioSerialWriteBit e) z).bitStream = z.bitStream ∧
      (cs.foldl (zcioSerialWriteBit e) z).isStream = z.isStream := by
  induction cs generalizing z bits with
  | nil => exact ⟨by rwa [List.append_nil, ← Nat.zero_add b], rfl, rfl⟩
  | cons c cs ih =>
    rw [List.length_cons, Nat.add_right_comm] at h
    obtain ⟨hbit, hbs, hst⟩ := zcioSerialWriteBit_packed h c
    obtain ⟨hrest, hbs', hst'⟩ := ih hbit
    rw [List.append_cons]
    exact ⟨hrest, hbs'.trans hbs, hst'.trans hst⟩

/-! ### Octets on their way out -/

/-- A full octet is written as it is: `zcio_serial_write_bit` and `zcio_serial_synchronize` set
`bits_written` to 8 for this. -/
theorem zcioSerialWriteByte_full (h : z.bitsWritten = 8) (c : UInt8) :
    zcioSerialWriteByte e z c = writeWholeByte e z c := by
  unfold zcioSerialWriteByte
  rw [if_neg (by rw [h]; simp)]

/-- The octet of `zcio_serial_write_byte` at any alignment. -/
theorem zcioSerialWriteByte_packed (hbs : z.bitStream = true) (h : Packed S z bits (8 + b))
    (c : UInt8) :
    Packed S (zcioSerialWriteByte e z c) (bits ++ octetBits c) b ∧
      (zcioSerialWriteByte e z c).bitStream = true ∧
      (zcioSerialWriteByte e z c).isStream = z.isStream := by
  unfold zcioSerialWriteByte
  split_ifs with hmid
  · have hbits := foldl_writeBit_packed (e := e) (octetBits c) (b := b) h
    exact ⟨hbits.1, hbits.2.1.trans hbs, hbits.2.2⟩
  · obtain ⟨hlt, ⟨p, hp, -, rfl⟩, n, hroom, hb⟩ := h
    -- nothing is pending
    have hp0 : p = [] := List.length_eq_zero_iff.mp (by
      rw [hbs] at hmid
      simp only [true_and] at hmid
      omega)
    subst hp0
    rw [List.append_nil]
    have hwhole := writeWholeByte_packed (e := e) (c := c) hroom (by omega : 8 + b ≤ 8 * n)
    exact ⟨hwhole.1, hwhole.2.1.trans hbs, hwhole.2.2⟩

theorem foldl_writeByte_packed (src : Bytes) (hbs : z.bitStream = true)
    (h : Packed S z bits (8 * src.length + b)) :
    Packed S (src.foldl (zcioSerialWriteByte e) z) (bits ++ unpack src) b ∧
      (src.foldl (zcioSerialWriteByte e) z).bitStream = true ∧
      (src.foldl (zcioSerialWriteByte e) z).isStream = z.isStream := by
  induction src generalizing z bits with
  | nil => exact ⟨by simpa using h, hbs, rfl⟩
  | cons c src ih =>
    rw [List.length_cons, show 8 * (src.length + 1) + b = 8 + (8 * src.length + b) by omega] at h
    obtain ⟨hbyte, hbs', hst⟩ := zcioSerialWriteByte_packed hbs h c
    obtain ⟨hrest, hbs'', hst'⟩ := ih hbs' hbyte
    rw [unpack_cons, ← List.append_assoc]
    exact ⟨hrest, hbs'', hst'.trans hst⟩

/-- **Bulk octets**: on a stream at any alignment, to a buffer when nothing is pending. -/
theorem zcioSerialWriteBytes_packed (src : Bytes) (hbs : z.bitStream = true)
    (hal : z.isStream = true ∨ src = [] ∨ bits.length % 8 = 0)
    (h : Packed S z bits (8 * src.length + b)) :
    Packed S (zcioSerialWriteBytes e z src).2 (bits ++ unpack src) b ∧
      (zcioSerialWriteBytes e z src).2.bitStream = true ∧
      (zcioSerialWriteBytes e z src).2.isStream = z.isStream := by
  have hlen := h.length
  cases hmode : z.mode with
  | stream s =>
    have heq : zcioSerialWriteBytes e z src =
        (.ok src.length, src.foldl (zcioSerialWriteByte e) z) := by
      simp only [zcioSerialWriteBytes, hbs, hmode]
    rw [heq]
    exact foldl_writeByte_packed src hbs h
  | count => exact absurd h.room.choose_spec.1 (by simp [Serial.room, hmode])
  | buffer buf rpos wpos =>
    have heq : zcioSerialWriteBytes e z src = rawWrite e z src := by
      simp only [zcioSerialWriteBytes, hbs, hmode]
    rw [heq]
    have hst : z.isStream = false := by simp only [Serial.isStream, hmode]
    obtain ⟨hlt, ⟨p, hp, hcur, rfl⟩, n, hroom, hb⟩ := h
    obtain ⟨m, hraw, hstream, hout, hroom'⟩ := rawWrite_ok (e := e) S hroom
      (by omega : src.length ≤ n)
    rw [hraw]
    refine ⟨⟨hlt, ⟨p, hp, hcur, ?_⟩, n - src.length, hroom', by simp only; omega⟩, hbs, hstream⟩
    rw [hout, unpack_append]
    rcases hal with hs | rfl | hal
    · rw [hst] at hs
      contradiction
    · simp
    · -- the pending bits are none
      have hp0 : p = [] := List.length_eq_zero_iff.mp (by omega)
      subst hp0
      simp

/-! ### Values

Every kind of value as a list of bits. -/

@[simp] theorem length_hostOctets (e : SerialHost σ) (n v : Nat) :
    (hostOctets e n v).length = n := by
  unfold hostOctets
  split_ifs <;> simp

/-- The octets of a string with its length in front. -/
def strOctets (e : SerialHost σ) (s : Bytes) : Bytes := hostOctets e 8 (s.length % 2 ^ 64) ++ s

/-- The bits that the write of a value adds. -/
def SerialVal.toBits (e : SerialHost σ) : SerialVal → List Bool
  | .bit b => [b]
  | .bits b => b.map fun c => c.toNat.testBit 0
  | .byte b => octetBits b
  | .bytes b => unpack b
  | .scalar t v => unpack (hostOctets e t.size v.toNat)
  | .str s => unpack (strOctets e s)

/-- An operation that moves octets in bulk, one at least. -/
def SerialOp.isBulk : SerialOp → Bool
  | .bytes n => n ≠ 0
  | .scalar _ | .str => true
  | _ => false

/-- The bits of an operation, up to whole octets. -/
def SerialOp.shift : SerialOp → Nat
  | .bit => 1
  | .bits n => n
  | _ => 0

/-- Behind `n` bits, no bulk operation starts in the middle of an octet. -/
def bulkAligned : Nat → List SerialOp → Prop
  | _, [] => True
  | n, op :: ops => (op.isBulk → n % 8 = 0) ∧ bulkAligned (n + op.shift) ops

instance bulkAligned.decidable : (n : Nat) → (ops : List SerialOp) → Decidable (bulkAligned n ops)
  | _, [] => .isTrue trivial
  | n, op :: ops =>
    have := bulkAligned.decidable (n + op.shift) ops
    inferInstanceAs (Decidable ((op.isBulk → n % 8 = 0) ∧ bulkAligned (n + op.shift) ops))

theorem bulkAligned_congr {n m : Nat} (h : n % 8 = m % 8) (ops : List SerialOp) :
    bulkAligned n ops ↔ bulkAligned m ops := by
  induction ops generalizing n m with
  | nil => exact Iff.rfl
  | cons op ops ih =>
    unfold bulkAligned
    rw [h, ih (m := m + op.shift) (by omega)]

theorem SerialVal.length_toBits (v : SerialVal) : (v.toBits e).length % 8 = v.op.shift % 8 := by
  cases v <;> simp [SerialVal.toBits, SerialVal.op, SerialOp.shift]

/-- **The write of a value** adds its bits. -/
theorem SerialVal.write_packed (v : SerialVal) (hbs : z.bitStream = true)
    (hal : z.isStream = true ∨ (v.op.isBulk → bits.length % 8 = 0))
    (h : Packed S z bits ((v.toBits e).length + b)) :
    Packed S (v.write e z) (bits ++ v.toBits e) b ∧ (v.write e z).bitStream = true ∧
      (v.write e z).isStream = z.isStream := by
  cases v with
  | bit c =>
    have hbit := zcioSerialWriteBit_packed (e := e) (by simpa [toBits, Nat.add_comm] using h) c
    exact ⟨hbit.1, hbit.2.1.trans hbs, hbit.2.2⟩
  | bits cs =>
    have hbits := foldl_writeBit_packed (e := e) (cs.map fun c => c.toNat.testBit 0) h
    rw [List.foldl_map] at hbits
    simp only [write, zcioSerialWriteBits, hbs, if_true]
    exact ⟨hbits.1, hbits.2.1.trans hbs, hbits.2.2⟩
  | byte c => exact zcioSerialWriteByte_packed hbs h c
  | bytes cs =>
    refine zcioSerialWriteBytes_packed cs hbs (hal.imp_right fun hb => ?_) (by simpa [toBits] using h)
    by_cases hnil : cs = []
    · exact .inl hnil
    · exact .inr (hb (by simpa [op, SerialOp.isBulk] using hnil))
  | scalar t x =>
    exact zcioSerialWriteBytes_packed _ hbs (hal.imp_right fun hb => .inr (hb rfl))
      (by simpa [toBits] using h)
  | str s =>
    have hlen : bits.length % 8 = 0 ∨ z.isStream = true := hal.symm.imp_left fun hb => hb rfl
    simp only [toBits, strOctets, unpack_append, List.length_append, Nat.add_assoc] at h
    rw [length_unpack] at h
    obtain ⟨hpre, hbs', hst⟩ := zcioSerialWriteBytes_packed (e := e)
      (hostOctets e 8 (s.length % 2 ^ 64)) hbs (hlen.symm.imp_right .inr) h
    simp only [write, zcioSerialWriteStr, toBits, strOctets, unpack_append, ← List.append_assoc]
    split_ifs with hs
    · rw [length_unpack] at hpre
      have hrest := zcioSerialWriteBytes_packed (e := e) s hbs' (hlen.symm.imp hst.trans fun hl => .inr (by
        rw [List.length_append, length_unpack]
        omega)) hpre
      exact ⟨hrest.1, hrest.2.1, hrest.2.2.trans hst⟩
    · cases List.length_eq_zero_iff.mp (not_not.mp hs)
      exact ⟨by simpa using hpre, hbs', hst⟩

theorem foldl_write_packed (vs : List SerialVal) (hbs : z.bitStream = true)
    (hal : z.isStream = true ∨ bulkAligned bits.length (vs.map SerialVal.op))
    (h : Packed S z bits ((vs.flatMap (SerialVal.toBits e)).length + b)) :
    Packed S (vs.foldl (SerialVal.write e) z) (bits ++ vs.flatMap (SerialVal.toBits e)) b := by
  induction vs generalizing z bits with
  | nil => simpa using h
  | cons v vs ih =>
    rw [List.flatMap_cons, List.length_append, Nat.add_assoc] at h
    obtain ⟨hv, hbs', hst⟩ := v.write_packed hbs (hal.imp_right fun ha => ha.1) h
    rw [List.flatMap_cons, ← List.append_assoc]
    refine ih hbs' (hal.imp hst.trans fun ha => ?_) hv
    refine (bulkAligned_congr ?_ _).mp ha.2
    have := v.length_toBits (e := e)
    rw [List.length_append]
    omega

/-- **The end of the writes**: the last octet is filled up with zeros. -/
theorem zcioSerialSynchronize_packed (h : Packed S z bits b) :
    ∃ k < 8, unpack ((zcioSerialSynchronize e z).out S) = bits ++ List.replicate k false := by
  obtain ⟨hlt, ⟨p, hp, hcur, rfl⟩, n, hroom, hb⟩ := h
  unfold zcioSerialSynchronize
  split_ifs with hmid
  · obtain ⟨⟨-, ⟨q, hq, -, hout⟩, -⟩, -⟩ := writeWholeByte_packed (e := e) (S := S) (b := 0)
      (z := { z with bitsWritten := 8 }) (c := z.curWriteByte) (n := n) hroom (by omega)
    have hq0 : q = [] := List.length_eq_zero_iff.mp hq
    subst hq0
    rw [List.append_nil, hcur, octetBits_ofBits (by omega)] at hout
    refine ⟨8 - p.length, by omega, ?_⟩
    rw [zcioSerialWriteByte_full rfl, hcur, ← hout, List.append_assoc]
    rfl
  · have hp0 : p = [] := List.length_eq_zero_iff.mp (by omega)
    subst hp0
    exact ⟨0, by decide, by simp⟩

/-- **A whole sequence of writes** behind whole octets: the octets of the bits, the last one
filled up. -/
theorem serialWrite_packed {w : Bytes} (vs : List SerialVal) (hbs : z.bitStream = true)
    (hal : z.isStream = true ∨ bulkAligned 0 (vs.map SerialVal.op))
    (h : Packed S z (unpack w) (vs.flatMap (SerialVal.toBits e)).length) :
    ∃ out, (serialWrite e z vs).out S = w ++ out ∧
      ∃ k < 8, unpack out = vs.flatMap (SerialVal.toBits e) ++ List.replicate k false := by
  have hal' : z.isStream = true ∨ bulkAligned (unpack w).length (vs.map SerialVal.op) :=
    hal.imp_right (bulkAligned_congr (by rw [length_unpack]; omega) _).mp
  obtain ⟨k, hk, hend⟩ := zcioSerialSynchronize_packed (foldl_write_packed (b := 0) vs hbs hal' h)
  rw [List.append_assoc] at hend
  unfold serialWrite
  generalize (zcioSerialSynchronize e (vs.foldl (SerialVal.write e) z)).out S = o at hend ⊢
  have hfront : o.take w.length = w := unpack_injective (by
    rw [unpack_take, hend]
    exact List.take_left' (length_unpack _))
  refine ⟨o.drop w.length, ?_, k, hk, ?_⟩
  · conv_lhs => rw [← List.take_append_drop w.length o, hfront]
  · rw [unpack_drop, hend]
    exact List.drop_left' (length_unpack _)

/-- Octets that hold bits, the last one filled up, are as many as it takes. -/
theorem length_of_unpack {out : Bytes} {k : Nat} (hk : k < 8)
    (h : unpack out = bits ++ List.replicate k false) : out.length = (bits.length + 7) / 8 := by
  have hlen := congrArg List.length h
  rw [length_unpack, List.length_append, List.length_replicate] at hlen
  omega

/-- A fresh serial over a stream. -/
theorem zcioSerialNew_packed {s : σ} {n : Nat} (hroom : S.room s n) (hb : b ≤ 8 * n) :
    Packed S (zcioSerialNew s true) (unpack (S.written s)) b :=
  ⟨Nat.zero_lt_succ 7, ⟨[], rfl, rfl, (List.append_nil _).symm⟩, n, hroom, by
    simpa [zcioSerialNew] using hb⟩

end Zcio
