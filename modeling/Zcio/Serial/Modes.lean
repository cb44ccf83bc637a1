import Zcio.Serial.Plain

/-!
# Zcio.Serial.Modes

A serial over a buffer against one over a memory stream. Bulk octets bypass the bits that are
pending in a buffer, where a stream packs them: the two agree on what they write and read if no
bulk operation of a serial that packs bits starts in the middle of an octet, and only then.
-/

namespace Zcio

open Lib.Bits

/-- A host with memory streams. -/
abbrev memHost (bigEndian : Bool) : SerialHost MemBuf := { toStreamVt := memVt, bigEndian }

variable {bigEndian : Bool}

/-! ### Writes

The two modes put out the same octets where no bulk operation starts within an octet. -/

/-- Both modes write the same octets to a zeroed block of any size they fit in. -/
def writesAgree (bigEndian bitStream : Bool) (vs : List SerialVal) : Prop :=
  ∀ n, (vs.flatMap (SerialVal.toBits (memHost bigEndian))).length ≤ 8 * n →
    let block : Bytes := List.replicate n 0
    Serial.out (e := memHost bigEndian) memSink
        (serialWrite (memHost bigEndian) (zcioSerialNewBuffer block bitStream) vs) =
      Serial.out (e := memHost bigEndian) memSink
        (serialWrite (memHost bigEndian) (zcioSerialNew { data := block } bitStream) vs)

/-- The same octets are out, and there is room. -/
def SameOut (bigEndian : Bool) (m m' : SerialMode MemBuf) (_o n : Nat) : Prop :=
  Serial.out (e := memHost bigEndian) memSink { mode := m } =
      Serial.out (e := memHost bigEndian) memSink { mode := m' } ∧
    Serial.room (e := memHost bigEndian) memSink { mode := m } n ∧
    Serial.room (e := memHost bigEndian) memSink { mode := m' } n

theorem sameOut_raw (bigEndian : Bool) : RawAlike (memHost bigEndian) (SameOut bigEndian) := by
  rintro m m' k n src ⟨hout, hroom, hroom'⟩ hn
  obtain ⟨m₁, heq, -, hout₁, hroom₁⟩ := rawWrite_ok (e := memHost bigEndian) memSink hroom hn
  obtain ⟨m₂, heq', -, hout₂, hroom₂⟩ := rawWrite_ok (e := memHost bigEndian) memSink hroom' hn
  unfold rawMode
  rw [heq, heq']
  exact ⟨hout₁.trans (by rw [hout]; exact hout₂.symm), hroom₁, hroom₂⟩

/-- Without packing, the modes agree on every sequence of writes. -/
theorem writesAgree_plain (bigEndian : Bool) (vs : List SerialVal) :
    writesAgree bigEndian false vs := by
  intro n hn block
  have hroom : block.length = n := List.length_replicate
  have hstart : Alike (SameOut bigEndian) (zcioSerialNewBuffer block false)
      (zcioSerialNew { data := block } false) 0
      (vs.flatMap (SerialVal.toBits (memHost bigEndian))).length := by
    refine ⟨rfl, rfl, Nat.zero_lt_succ 7, rfl, rfl, 0, n, ⟨rfl, ?_, ?_⟩, rfl, ?_⟩
    · exact (Nat.zero_add n).trans_le hroom.ge
    · exact (Nat.zero_add n).trans_le hroom.ge
    · simpa [zcioSerialNewBuffer] using hn
  obtain ⟨n', hout, -⟩ := serialWrite_alike (sameOut_raw bigEndian) vs hstart
  exact hout

/-- With packing, they agree when bulk octets start octets. -/
theorem writesAgree_aligned (bigEndian : Bool) {vs : List SerialVal}
    (h : bulkAligned 0 (vs.map SerialVal.op)) : writesAgree bigEndian true vs := by
  intro n hn block
  have hroom : block.length = n := List.length_replicate
  have hbuf : Packed (e := memHost bigEndian) memSink (zcioSerialNewBuffer block true)
      (unpack []) (vs.flatMap (SerialVal.toBits (memHost bigEndian))).length :=
    ⟨Nat.zero_lt_succ 7, ⟨[], rfl, rfl, rfl⟩, n, (Nat.zero_add n).trans_le hroom.ge, by
      simpa [zcioSerialNewBuffer] using hn⟩
  have hstream : memSink.room { data := block } n := (Nat.zero_add n).trans_le hroom.ge
  obtain ⟨out, hout, k, hk, hbits⟩ := serialWrite_packed vs rfl (.inr h) hbuf
  obtain ⟨out', hout', k', hk', hbits'⟩ := serialWrite_packed (S := memSink)
    (e := memHost bigEndian) vs rfl (.inl rfl)
    (zcioSerialNew_packed hstream hn)
  rw [hout, hout']
  have hlen : out.length = out'.length := by
    rw [length_of_unpack hk hbits, length_of_unpack hk' hbits']
  have hpad : k = k' := by
    have h₁ := congrArg List.length hbits
    have h₂ := congrArg List.length hbits'
    rw [length_unpack, List.length_append, List.length_replicate] at h₁ h₂
    omega
  have heq : out = out' := unpack_injective (by rw [hbits, hbits', hpad])
  rw [heq]
  rfl

/-! ### Writes that tell the modes apart

Zeros throughout, but for the first bulk operation in the middle of an octet. -/

/-- The value with no bit set. -/
def SerialOp.zeroVal : SerialOp → SerialVal
  | .bit => .bit false
  | .bits n => .bits (List.replicate n 0)
  | .byte => .byte 0
  | .bytes n => .bytes (List.replicate n 0)
  | .scalar t => .scalar t 0
  | .str => .str []

/-- A value with a bit set, of a bulk operation. -/
def SerialOp.oneVal : SerialOp → SerialVal
  | .bytes n => .bytes (List.replicate n 1)
  | .scalar t => .scalar t 1
  | .str => .str [0]
  | op => op.zeroVal

/-- The values for operations behind `n` bits. -/
def tellingVals : Nat → List SerialOp → List SerialVal
  | _, [] => []
  | n, op :: ops =>
    if op.isBulk ∧ n % 8 ≠ 0 then op.oneVal :: ops.map SerialOp.zeroVal
    else op.zeroVal :: tellingVals (n + op.shift) ops

theorem SerialOp.op_zeroVal (o : SerialOp) : o.zeroVal.op = o := by
  cases o <;> simp [zeroVal, SerialVal.op]

theorem SerialOp.op_oneVal (o : SerialOp) : o.oneVal.op = o := by
  cases o <;> simp [oneVal, zeroVal, SerialVal.op]

theorem map_op_zeroVal (ops : List SerialOp) :
    (ops.map SerialOp.zeroVal).map SerialVal.op = ops := by
  rw [List.map_map]
  exact List.map_id'' SerialOp.op_zeroVal ops

theorem map_op_tellingVals (n : Nat) (ops : List SerialOp) :
    (tellingVals n ops).map SerialVal.op = ops := by
  induction ops generalizing n with
  | nil => rfl
  | cons op ops ih =>
    unfold tellingVals
    split_ifs
    · rw [List.map_cons, SerialOp.op_oneVal, map_op_zeroVal]
    · rw [List.map_cons, SerialOp.op_zeroVal, ih]

theorem unpack_zeros (n : Nat) : unpack (List.replicate n 0) = List.replicate (8 * n) false := by
  induction n with
  | zero => rfl
  | succ n ih =>
    rw [List.replicate_succ, unpack_cons, ih, show octetBits 0 = List.replicate 8 false by decide,
      List.replicate_append_replicate]
    congr 1
    omega

theorem hostOctets_zero (e : SerialHost MemBuf) (n : Nat) :
    hostOctets e n 0 = List.replicate n 0 := by
  have hzero : octets n 0 = List.replicate n 0 := by
    simp [octets, List.map_const']
  unfold hostOctets
  rw [hzero, List.reverse_replicate, ite_self]

theorem SerialOp.toBits_zeroVal (o : SerialOp) :
    o.zeroVal.toBits (memHost bigEndian) =
      List.replicate (o.zeroVal.toBits (memHost bigEndian)).length false := by
  cases o with
  | bit => rfl
  | bits n => simp [zeroVal, SerialVal.toBits]
  | byte => rfl
  | bytes n => simp [zeroVal, SerialVal.toBits, unpack_zeros]
  | scalar t => simp [zeroVal, SerialVal.toBits, hostOctets_zero, unpack_zeros]
  | str =>
    simp only [zeroVal, SerialVal.toBits, strOctets, List.length_nil, Nat.zero_mod,
      hostOctets_zero, List.append_nil, unpack_zeros, List.length_replicate]

theorem flatMap_zeroVal (ops : List SerialOp) :
    (ops.map SerialOp.zeroVal).flatMap (SerialVal.toBits (memHost bigEndian)) =
      List.replicate ((ops.map SerialOp.zeroVal).flatMap
        (SerialVal.toBits (memHost bigEndian))).length false := by
  rw [List.eq_replicate_iff]
  refine ⟨rfl, fun b hb => ?_⟩
  obtain ⟨v, hv, hmem⟩ := List.mem_flatMap.mp hb
  obtain ⟨o, -, rfl⟩ := List.mem_map.mp hv
  rw [o.toBits_zeroVal] at hmem
  exact List.eq_of_mem_replicate hmem

theorem SerialOp.toBits_oneVal (bigEndian : Bool) {o : SerialOp} (h : o.isBulk = true) :
    true ∈ o.oneVal.toBits (memHost bigEndian) := by
  cases o with
  | bytes n =>
    obtain ⟨m, rfl⟩ := Nat.exists_eq_succ_of_ne_zero (by simpa [isBulk] using h)
    simp only [oneVal, SerialVal.toBits, List.replicate_succ, unpack_cons]
    exact List.mem_append_left _ (by decide)
  | scalar t => cases bigEndian <;> cases t <;> decide
  | str => cases bigEndian <;> decide
  | bit | bits | byte => contradiction

/-! ### Only zeros from here

A writer behind its last one writes zeros, which is how two outputs may agree by chance. -/

/-- Behind `o`, a serial over a buffer has written zeros only, and none but zeros are pending. -/
structure ZeroTail (bigEndian : Bool) (o : Bytes) (z : Serial MemBuf) : Prop where
  buffer : z.isStream = false
  room : Serial.room (e := memHost bigEndian) memSink z 0
  cur : z.curWriteByte = 0
  out : ∃ k, Serial.out (e := memHost bigEndian) memSink z = o ++ List.replicate k 0

variable {o : Bytes} {z : Serial MemBuf}

/-- A raw write of zeros. One that does not fit writes nothing. -/
theorem ZeroTail.raw (h : ZeroTail bigEndian o z) (n : Nat) :
    ZeroTail bigEndian o (rawWrite (memHost bigEndian) z (List.replicate n 0)).2 := by
  obtain ⟨hbuf, hroom, hcur, k, hout⟩ := h
  obtain ⟨mode, bs, crb, br, cwb, bw, f1, f2, f3, lr, st⟩ := z
  cases mode with
  | stream => contradiction
  | count => exact hroom.elim
  | buffer buf rpos wpos =>
    simp only [Serial.room, Nat.add_zero] at hroom
    unfold rawWrite
    dsimp only
    rw [bufferCap_eq hroom]
    split_ifs with hfull hfits
    · exact ⟨rfl, hroom, hcur, k, hout⟩
    · rw [List.length_replicate] at hfull ⊢
      have hfront : (buf.take wpos ++ List.replicate n 0).length = wpos + n := by
        rw [List.length_append, List.length_take_of_le hroom, List.length_replicate]
      refine ⟨rfl, ?_, hcur, k + n, ?_⟩
      · simp only [Serial.room, List.length_append, hfront, List.length_drop]
        omega
      · simp only [Serial.out] at hout ⊢
        rw [List.take_left' hfront, hout, List.append_assoc, List.replicate_append_replicate]
    · exact absurd (Nat.not_lt.mp hfull) hfits

theorem ZeroTail.congr {y : Serial MemBuf} (h : ZeroTail bigEndian o z) (hmode : y.mode = z.mode)
    (hcur : y.curWriteByte = 0) : ZeroTail bigEndian o y := by
  obtain ⟨hbuf, hroom, -, hout⟩ := h
  refine ⟨?_, ?_, hcur, ?_⟩
  · simpa only [Serial.isStream, hmode] using hbuf
  · simpa only [Serial.room, hmode] using hroom
  · simpa only [Serial.out, hmode] using hout

theorem ZeroTail.writeWholeByte (h : ZeroTail bigEndian o z) :
    ZeroTail bigEndian o (writeWholeByte (memHost bigEndian) z 0) :=
  (h.raw 1).congr rfl rfl

theorem ZeroTail.writeBit (h : ZeroTail bigEndian o z) :
    ZeroTail bigEndian o (zcioSerialWriteBit (memHost bigEndian) z false) := by
  have hzero : z.curWriteByte ||| (false.toNat <<< z.bitsWritten).toUInt8 = 0 := by
    rw [h.cur]
    simp
  unfold zcioSerialWriteBit
  dsimp only
  rw [hzero]
  split_ifs
  · exact (h.congr rfl rfl : ZeroTail bigEndian o { z with
      curWriteByte := 0, bitsWritten := z.bitsWritten + 1 }).writeWholeByte
  · exact h.congr rfl rfl

theorem ZeroTail.writeBits (h : ZeroTail bigEndian o z) (n : Nat) :
    ZeroTail bigEndian o
      ((List.replicate n false).foldl (zcioSerialWriteBit (memHost bigEndian)) z) := by
  induction n generalizing z with
  | zero => exact h
  | succ n ih => exact ih h.writeBit

theorem ZeroTail.writeByte (h : ZeroTail bigEndian o z) :
    ZeroTail bigEndian o (zcioSerialWriteByte (memHost bigEndian) z 0) := by
  unfold zcioSerialWriteByte
  split_ifs
  · exact h.writeBits 8
  · exact h.writeWholeByte

/-- Bulk octets go to a buffer as they are. -/
theorem zcioSerialWriteBytes_buffer (h : z.isStream = false) (src : Bytes) :
    zcioSerialWriteBytes (memHost bigEndian) z src = rawWrite (memHost bigEndian) z src := by
  unfold zcioSerialWriteBytes
  split
  next s _ hs => simp [Serial.isStream, hs] at h
  next => rfl

theorem ZeroTail.writeBytes (h : ZeroTail bigEndian o z) (n : Nat) :
    ZeroTail bigEndian o (zcioSerialWriteBytes (memHost bigEndian) z (List.replicate n 0)).2 := by
  rw [zcioSerialWriteBytes_buffer h.buffer]
  exact h.raw n

theorem ZeroTail.write (h : ZeroTail bigEndian o z) (op : SerialOp) :
    ZeroTail bigEndian o (op.zeroVal.write (memHost bigEndian) z) := by
  cases op with
  | bit => exact h.writeBit
  | bits n =>
    simp only [SerialOp.zeroVal, SerialVal.write, zcioSerialWriteBits]
    split_ifs
    · have hlow : List.replicate n false =
          (List.replicate n (0 : UInt8)).map fun c => c.toNat.testBit 0 := by simp
      have hbits := h.writeBits n
      rwa [hlow, List.foldl_map] at hbits
    · exact h
  | byte => exact h.writeByte
  | bytes n => exact h.writeBytes n
  | scalar t =>
    have hbytes := h.writeBytes t.size
    rwa [← hostOctets_zero (memHost bigEndian)] at hbytes
  | str =>
    have hbytes := h.writeBytes 8
    rw [← hostOctets_zero (memHost bigEndian)] at hbytes
    simpa [SerialOp.zeroVal, SerialVal.write, zcioSerialWriteStr] using hbytes

theorem ZeroTail.serialWrite (h : ZeroTail bigEndian o z) (ops : List SerialOp) :
    ZeroTail bigEndian o (serialWrite (memHost bigEndian) z (ops.map SerialOp.zeroVal)) := by
  induction ops generalizing z with
  | nil =>
    unfold Zcio.serialWrite zcioSerialSynchronize
    rw [List.map_nil, List.foldl_nil]
    split_ifs
    · have hfull : ZeroTail bigEndian o { z with bitsWritten := 8 } := h.congr rfl h.cur
      simpa only [h.cur] using hfull.writeByte
    · exact h
  | cons op ops ih => exact ih (h.write op)

/-! ### Bulk octets in the middle of an octet -/

/-- In a buffer they come before the bits that are pending. -/
theorem rawWrite_zeroTail {src : Bytes} {n : Nat} (hbuf : z.isStream = false)
    (hcur : z.curWriteByte = 0) (hroom : Serial.room (e := memHost bigEndian) memSink z n)
    (hn : src.length ≤ n) :
    ZeroTail bigEndian (Serial.out (e := memHost bigEndian) memSink z ++ src)
      (rawWrite (memHost bigEndian) z src).2 := by
  obtain ⟨m, heq, hstream, hout, hroom'⟩ := rawWrite_ok (e := memHost bigEndian) memSink hroom hn
  rw [heq]
  refine ⟨hstream.trans hbuf, ?_, hcur, 0, ?_⟩
  · unfold Serial.room at hroom' ⊢
    cases m with
    | stream s => exact absurd (hstream.trans hbuf) (by simp [Serial.isStream])
    | count => exact hroom'
    | buffer buf rpos wpos =>
      dsimp only at hroom' ⊢
      omega
  · rw [hout, List.replicate_zero, List.append_nil]

theorem SerialOp.oneVal_zeroTail {op : SerialOp} {n : Nat} (hbulk : op.isBulk = true)
    (hbuf : z.isStream = false) (hcur : z.curWriteByte = 0)
    (hroom : Serial.room (e := memHost bigEndian) memSink z n)
    (hn : (op.oneVal.toBits (memHost bigEndian)).length ≤ 8 * n) :
    ∃ b m, op.oneVal.toBits (memHost bigEndian) = unpack b ++ List.replicate m false ∧
      ZeroTail bigEndian (Serial.out (e := memHost bigEndian) memSink z ++ b)
        (op.oneVal.write (memHost bigEndian) z) := by
  have hraw := fun {src : Bytes} (hsrc : src.length ≤ n) =>
    rawWrite_zeroTail hbuf hcur hroom hsrc
  cases op with
  | bit | bits | byte => contradiction
  | bytes c =>
    simp only [oneVal, SerialVal.toBits, length_unpack, SerialVal.write,
      zcioSerialWriteBytes_buffer hbuf] at hn ⊢
    exact ⟨_, 0, (List.append_nil _).symm, hraw (Nat.le_of_mul_le_mul_left hn (by decide))⟩
  | scalar t =>
    simp only [oneVal, SerialVal.toBits, length_unpack, SerialVal.write, zcioSerialWriteScalar,
      zcioSerialWriteBytes_buffer hbuf] at hn ⊢
    exact ⟨_, 0, (List.append_nil _).symm, hraw (Nat.le_of_mul_le_mul_left hn (by decide))⟩
  | str =>
    simp only [oneVal, SerialVal.toBits, length_unpack, strOctets, List.length_append] at hn
    have htail := hraw (by omega :
      (hostOctets (memHost bigEndian) 8 ([(0 : UInt8)].length % 2 ^ 64)).length ≤ n)
    simp only [oneVal, SerialVal.toBits, strOctets, unpack_append, SerialVal.write,
      zcioSerialWriteStr, zcioSerialWriteBytes_buffer hbuf]
    refine ⟨_, 8, rfl, ?_⟩
    rw [if_pos (by decide), zcioSerialWriteBytes_buffer htail.buffer]
    exact htail.raw 1

/-- The place of the first bit set. -/
theorem first_true_inj {p q m k : Nat} {w : List Bool} (hw : true ∈ w)
    (h : List.replicate p false ++ (w ++ List.replicate m false) =
      List.replicate q false ++ (w ++ List.replicate k false)) : p = q := by
  have hfirst : ∀ n l, (List.replicate n false ++ (w ++ l)).idxOf true = w.idxOf true + n := by
    intro n l
    rw [List.idxOf_append, if_neg (by simp), List.idxOf_append, if_pos hw, List.length_replicate]
  have hidx := congrArg (List.idxOf true) h
  rw [hfirst, hfirst] at hidx
  omega

/-- The pending bits of a serial that was given zeros only. -/
theorem Packed.zeros {q b : Nat}
    (h : Packed (e := memHost bigEndian) memSink z (List.replicate q false) b) :
    z.curWriteByte = 0 ∧
      unpack (Serial.out (e := memHost bigEndian) memSink z) =
        List.replicate (q - z.bitsWritten) false := by
  obtain ⟨-, ⟨p, hp, hcur, hbits⟩, -⟩ := h
  obtain ⟨hlen, hout, hpz⟩ := List.replicate_eq_append_iff.mp hbits
  have hp0 : ∀ n, ofBits (List.replicate n false) = 0 := by
    intro n
    induction n with
    | zero => rfl
    | succ n ih => rw [List.replicate_succ, ofBits, ih]; rfl
  refine ⟨?_, ?_⟩
  · rw [hcur, hpz, hp0]
    rfl
  · rw [hout]
    congr 1
    omega

/-- **The modes differ** on these values, behind any number of zeros. -/
theorem tellingVals_differ (ops : List SerialOp) {z z' : Serial MemBuf} {q n : Nat}
    (hst : z.isStream = true) (hbuf : z'.isStream = false) (hbs : z.bitStream = true)
    (hbs' : z'.bitStream = true) (hq : q % 8 = n % 8)
    (hz : Packed (e := memHost bigEndian) memSink z (List.replicate q false)
      ((tellingVals n ops).flatMap (SerialVal.toBits (memHost bigEndian))).length)
    (hz' : Packed (e := memHost bigEndian) memSink z' (List.replicate q false)
      ((tellingVals n ops).flatMap (SerialVal.toBits (memHost bigEndian))).length)
    (h : ¬ bulkAligned n ops) :
    Serial.out (e := memHost bigEndian) memSink
        (serialWrite (memHost bigEndian) z' (tellingVals n ops)) ≠
      Serial.out (e := memHost bigEndian) memSink
        (serialWrite (memHost bigEndian) z (tellingVals n ops)) := by
  induction ops generalizing z z' q n with
  | nil => exact absurd trivial h
  | cons op ops ih =>
    unfold tellingVals at hz hz' ⊢
    by_cases hmid : op.isBulk = true ∧ n % 8 ≠ 0
    · rw [if_pos hmid] at hz hz' ⊢
      rw [List.flatMap_cons, List.length_append] at hz'
      obtain ⟨hcur, hzeros⟩ := hz'.zeros
      have hpend := hz'.length
      rw [List.length_replicate] at hpend
      -- the stream has the bits of the value behind all of the zeros
      obtain ⟨k, -, hstream⟩ := zcioSerialSynchronize_packed
        (foldl_write_packed (b := 0) (op.oneVal :: ops.map SerialOp.zeroVal) hbs (.inl hst) hz)
      -- the buffer in front of those pending
      obtain ⟨m, hroom, hm⟩ := hz'.room
      obtain ⟨b, j, hb, htail⟩ :=
        SerialOp.oneVal_zeroTail hmid.1 hbuf hcur hroom (by omega)
      obtain ⟨-, -, -, k', hbuffer⟩ := htail.serialWrite ops
      intro heq
      have hbits := congrArg unpack (hbuffer.symm.trans heq)
      have hone := SerialOp.toBits_oneVal bigEndian hmid.1
      have hw : true ∈ unpack b := by
        rw [hb] at hone
        exact (List.mem_append.mp hone).resolve_right (by simp)
      change _ = unpack (Serial.out (e := memHost bigEndian) memSink
        (zcioSerialSynchronize (memHost bigEndian) _)) at hbits
      rw [hstream, List.flatMap_cons, hb, flatMap_zeroVal, unpack_append, unpack_append, hzeros,
        unpack_zeros] at hbits
      simp only [List.append_assoc, List.replicate_append_replicate] at hbits
      have := first_true_inj hw hbits
      omega
    · rw [if_neg hmid] at hz hz' ⊢
      rw [List.flatMap_cons, List.length_append] at hz hz'
      have hal : op.zeroVal.op.isBulk = true → (List.replicate q false).length % 8 = 0 := by
        rw [op.op_zeroVal, List.length_replicate, hq]
        exact fun hb => not_not.mp fun hne => hmid ⟨hb, hne⟩
      obtain ⟨hy, hbs₁, hst₁⟩ := op.zeroVal.write_packed hbs (.inl hst) hz
      obtain ⟨hy', hbs₂, hst₂⟩ := op.zeroVal.write_packed hbs' (.inr hal) hz'
      rw [op.toBits_zeroVal, List.replicate_append_replicate] at hy hy'
      refine ih (hst₁.trans hst) (hst₂.trans hbuf) hbs₁ hbs₂ ?_ hy hy' fun hrest => ?_
      · have hlen := op.zeroVal.length_toBits (e := memHost bigEndian)
        rw [op.op_zeroVal] at hlen
        omega
      · exact h ⟨fun hb => not_not.mp fun hne => hmid ⟨hb, hne⟩, hrest⟩

/-- **Writes.** The modes agree on all values of a sequence of operations if and only if no bulk
operation of a serial that packs bits starts in the middle of an octet. -/
theorem writesAgree_iff (bigEndian bitStream : Bool) (ops : List SerialOp) :
    (∀ vs, vs.map SerialVal.op = ops → writesAgree bigEndian bitStream vs) ↔
      (bitStream = true → bulkAligned 0 ops) := by
  cases bitStream with
  | false => exact ⟨fun _ h => absurd h (by decide), fun _ vs _ => writesAgree_plain bigEndian vs⟩
  | true =>
    constructor
    · intro hagree _
      by_contra hna
      have hvs := hagree _ (map_op_tellingVals 0 ops)
      generalize hlen : ((tellingVals 0 ops).flatMap
        (SerialVal.toBits (memHost bigEndian))).length = len at hvs
      have hn : len ≤ 8 * len := by omega
      have hroom : (List.replicate len (0 : UInt8)).length = len := List.length_replicate
      have hbuf : Packed (e := memHost bigEndian) memSink
          (zcioSerialNewBuffer (List.replicate len 0) true) (List.replicate 0 false)
          ((tellingVals 0 ops).flatMap (SerialVal.toBits (memHost bigEndian))).length :=
        ⟨Nat.zero_lt_succ 7, ⟨[], rfl, rfl, rfl⟩, len, (Nat.zero_add len).trans_le hroom.ge, by
          rw [hlen]; simpa [zcioSerialNewBuffer] using hn⟩
      have hstream : memSink.room { data := List.replicate len 0 } len :=
        (Nat.zero_add len).trans_le hroom.ge
      exact tellingVals_differ ops rfl rfl rfl rfl rfl
        (zcioSerialNew_packed hstream (by rw [hlen]; exact hn)) hbuf hna (hvs len (by rw [hlen]; exact hn))
    · rintro h vs rfl
      exact writesAgree_aligned bigEndian (h rfl)

end Zcio
