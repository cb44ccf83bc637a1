import Zcio.Serial.Modes

/-!
# Zcio.Serial.Lasting

Reads from a buffer and from a memory stream over the same block, as long as the input lasts:
a read from a buffer that comes short sets `read_eof`, which stays set (`EofKept`). Until then
both modes return the same values, if bulk octets start octets, and if no string is longer than
what `zcio_serial_read_str` takes from a stream.
-/

namespace Zcio

open Lib.Bits

variable (bigEndian : Bool) {z z' : Serial MemBuf}

/-! ### The end of the input of a buffer

Once a read has come short the flag of the end stays set. -/

/-- A buffer is behind the serial, and the read position is in its block. -/
def Serial.isBuffer (z : Serial MemBuf) : Bool :=
  match z.mode with
  | .buffer buf rpos _ => rpos ≤ buf.length
  | _ => false

theorem Serial.isStream_of_isBuffer (h : z.isBuffer = true) : z.isStream = false := by
  unfold isBuffer at h
  unfold isStream
  split at h
  next heq => rw [heq]
  next => contradiction

/-- From `z` to `z'`, over a buffer, `read_eof` was not cleared. -/
structure EofKept (z z' : Serial MemBuf) : Prop where
  buffer : z'.isBuffer = true
  eof : z'.readEof = false → z.readEof = false

theorem EofKept.refl (h : z.isBuffer = true) : EofKept z z := ⟨h, id⟩

theorem EofKept.trans {y : Serial MemBuf} (h : EofKept z z') (h' : EofKept z' y) : EofKept z y :=
  ⟨h'.buffer, fun he => h.eof (h'.eof he)⟩

theorem rawRead_eofKept (h : z.isBuffer = true) (dst : Bytes) :
    EofKept z (rawRead (memHost bigEndian) z dst).2.2 := by
  obtain ⟨mode, bs, crb, br, cwb, bw, f1, f2, f3, lr, st⟩ := z
  cases mode with
  | stream | count => contradiction
  | buffer buf rpos wpos =>
    have hpos : rpos ≤ buf.length := of_decide_eq_true h
    unfold rawRead
    dsimp only
    rw [bufferCap_eq hpos]
    split_ifs with hfits
    · exact ⟨decide_eq_true (by omega), id⟩
    · exact ⟨h, fun he => absurd he (by simp)⟩

theorem readFreshByte_eofKept (h : z.isBuffer = true) :
    EofKept z (readFreshByte (memHost bigEndian) z).2 := by
  obtain ⟨hbuf, heof⟩ := rawRead_eofKept bigEndian h [0]
  exact ⟨hbuf, heof⟩

theorem zcioSerialReadBit_eofKept (h : z.isBuffer = true) :
    EofKept z (zcioSerialReadBit (memHost bigEndian) z).2 := by
  unfold zcioSerialReadBit
  dsimp only
  split_ifs
  · obtain ⟨hbuf, heof⟩ := readFreshByte_eofKept bigEndian h
    exact ⟨hbuf, heof⟩
  · exact ⟨h, id⟩

theorem readBitsLoop_eofKept (h : z.isBuffer = true) (n : Nat) :
    EofKept z (readBitsLoop (memHost bigEndian) n z).2 := by
  induction n generalizing z with
  | zero => exact .refl h
  | succ n ih =>
    have hbit := zcioSerialReadBit_eofKept bigEndian h
    exact hbit.trans (ih hbit.buffer)

theorem zcioSerialReadByte_eofKept (h : z.isBuffer = true) :
    EofKept z (zcioSerialReadByte (memHost bigEndian) z).2 := by
  unfold zcioSerialReadByte
  split_ifs
  · exact readBitsLoop_eofKept bigEndian h 8
  · exact readFreshByte_eofKept bigEndian h

/-- Bulk octets come from a buffer as they are. -/
theorem zcioSerialReadBytes_buffer (h : z.isBuffer = true) (dst : Bytes) :
    zcioSerialReadBytes (memHost bigEndian) z dst = rawRead (memHost bigEndian) z dst := by
  have hst := Serial.isStream_of_isBuffer h
  unfold zcioSerialReadBytes
  split
  next s _ hs => simp [Serial.isStream, hs] at hst
  next => rfl

theorem readStrBody_eofKept (h : z.isBuffer = true) (n : Nat) :
    EofKept z (readStrBody (memHost bigEndian) z n).2 := by
  unfold readStrBody
  split_ifs
  · exact .refl h
  · exact .refl h
  · rw [zcioSerialReadBytes_buffer bigEndian h]
    exact rawRead_eofKept bigEndian h _

/-- The length was read, or the end of the input is noted. -/
theorem zcioSerialReadStr_eofKept (h : z.isBuffer = true) :
    EofKept z (rawRead (memHost bigEndian) z (List.replicate 8 0)).2.2 ∧
      EofKept (rawRead (memHost bigEndian) z (List.replicate 8 0)).2.2
        (zcioSerialReadStr (memHost bigEndian) z).2 := by
  have hpre := rawRead_eofKept bigEndian h (List.replicate 8 0)
  refine ⟨hpre, ?_⟩
  unfold zcioSerialReadStr
  rw [zcioSerialReadBytes_buffer bigEndian h]
  dsimp only
  split_ifs
  · exact .refl hpre.buffer
  · exact readStrBody_eofKept bigEndian hpre.buffer _

theorem SerialOp.read_eofKept (h : z.isBuffer = true) (op : SerialOp) :
    EofKept z (op.read (memHost bigEndian) z).2 := by
  cases op with
  | bit => exact zcioSerialReadBit_eofKept bigEndian h
  | bits n =>
    simp only [read, zcioSerialReadBits]
    split_ifs
    · exact readBitsLoop_eofKept bigEndian h _
    · exact .refl h
  | byte => exact zcioSerialReadByte_eofKept bigEndian h
  | bytes n =>
    simp only [read, zcioSerialReadBytes_buffer bigEndian h]
    exact rawRead_eofKept bigEndian h _
  | scalar t =>
    simp only [read, zcioSerialReadScalar, zcioSerialReadBytes_buffer bigEndian h]
    exact rawRead_eofKept bigEndian h _
  | str => exact (zcioSerialReadStr_eofKept bigEndian h).1.trans (zcioSerialReadStr_eofKept bigEndian h).2

theorem serialRead_eofKept (h : z.isBuffer = true) (ops : List SerialOp) :
    EofKept z (serialRead (memHost bigEndian) z ops).2 := by
  induction ops generalizing z with
  | nil => exact .refl h
  | cons op ops ih =>
    have hop := op.read_eofKept bigEndian h
    exact hop.trans (ih hop.buffer)

theorem readStrMax_stream (h : z.isStream = true) : readStrMax z = streamReadCap := by
  unfold Serial.isStream at h
  unfold readStrMax
  split at h
  next heq => rw [heq]
  next => contradiction

theorem readStrMax_buffer (h : z.isBuffer = true) :
    readStrMax z = (z.left (e := memHost bigEndian) memSource).length := by
  unfold Serial.isBuffer at h
  unfold readStrMax Serial.left
  split at h
  next heq =>
    rw [heq]
    dsimp only
    rw [if_pos (of_decide_eq_true h)]
    exact List.length_drop.symm
  next => contradiction

/-! ### Reads that do not come short

A read whose flag is still clear has had all of its octets. -/

theorem rawRead_lasts {dst : Bytes} (h : z.isBuffer = true)
    (heof : (rawRead (memHost bigEndian) z dst).2.2.readEof = false) :
    dst.length ≤ (z.left (e := memHost bigEndian) memSource).length := by
  obtain ⟨mode, bs, crb, br, cwb, bw, f1, f2, f3, lr, st⟩ := z
  cases mode with
  | stream | count => contradiction
  | buffer buf rpos wpos =>
    have hpos : rpos ≤ buf.length := of_decide_eq_true h
    unfold rawRead at heof
    dsimp only at heof
    rw [bufferCap_eq hpos] at heof
    simp only [Serial.left, List.length_drop]
    split_ifs at heof with hle
    exact hle

theorem readFreshByte_lasts (h : z.isBuffer = true)
    (heof : (readFreshByte (memHost bigEndian) z).2.readEof = false) :
    z.left (e := memHost bigEndian) memSource ≠ [] := by
  have hle := rawRead_lasts bigEndian h heof
  exact List.ne_nil_of_length_pos hle

variable {bits : List Bool}

theorem zcioSerialReadBit_lasts (h : z.isBuffer = true)
    (ha : Ahead (e := memHost bigEndian) memSource z bits)
    (heof : (zcioSerialReadBit (memHost bigEndian) z).2.readEof = false) : bits ≠ [] := by
  unfold zcioSerialReadBit at heof
  dsimp only at heof
  rw [ha.bits]
  split_ifs at heof with hfresh
  · have hne := readFreshByte_lasts bigEndian h heof
    intro hnil
    have hlen := congrArg List.length (List.append_eq_nil_iff.mp hnil).2
    rw [length_unpack, List.length_nil] at hlen
    exact hne (List.length_eq_zero_iff.mp (by omega))
  · have hle := ha.le
    intro hnil
    have hlen := congrArg List.length (List.append_eq_nil_iff.mp hnil).1
    unfold Serial.partialBits at hlen
    rw [if_neg (by omega), List.length_drop, length_octetBits, List.length_nil] at hlen
    omega

theorem readBitsLoop_lasts (h : z.isBuffer = true)
    (ha : Ahead (e := memHost bigEndian) memSource z bits) {n : Nat}
    (heof : (readBitsLoop (memHost bigEndian) n z).2.readEof = false) : n ≤ bits.length := by
  induction n generalizing z bits with
  | zero => exact Nat.zero_le _
  | succ n ih =>
    have hbit := zcioSerialReadBit_eofKept bigEndian h
    have hloop := readBitsLoop_eofKept bigEndian hbit.buffer n
    obtain ⟨c, rest, rfl⟩ := List.exists_cons_of_ne_nil (zcioSerialReadBit_lasts bigEndian h ha (hloop.eof heof))
    have hrest := ih hbit.buffer (zcioSerialReadBit_ahead ha).2.1 heof
    rw [List.length_cons]
    omega

theorem zcioSerialReadByte_lasts (h : z.isBuffer = true)
    (ha : Ahead (e := memHost bigEndian) memSource z bits)
    (heof : (zcioSerialReadByte (memHost bigEndian) z).2.readEof = false) : 8 ≤ bits.length := by
  unfold zcioSerialReadByte at heof
  split_ifs at heof with hmid
  · exact readBitsLoop_lasts bigEndian h ha heof
  · have hlen := List.length_pos_iff.mpr (readFreshByte_lasts bigEndian h heof)
    rw [ha.bits, List.length_append, length_unpack]
    omega

/-- Bulk octets that are there, between two octets. -/
theorem rawRead_lasts_ahead {dst : Bytes} (h : z.isBuffer = true)
    (ha : Ahead (e := memHost bigEndian) memSource z bits) (hal : bits.length % 8 = 0)
    (heof : (rawRead (memHost bigEndian) z dst).2.2.readEof = false) :
    ∃ b rest y, rawRead (memHost bigEndian) z dst = (dst.length, b, y) ∧ b.length = dst.length ∧
      bits = unpack b ++ rest := by
  have hle := rawRead_lasts bigEndian h heof
  obtain ⟨y, hy, -⟩ := rawRead_ok (e := memHost bigEndian) memSource dst hle
  have hbits := ha.bits
  rw [partialBits_fresh (ha.aligned.mp hal), List.nil_append] at hbits
  refine ⟨_, unpack ((z.left (e := memHost bigEndian) memSource).drop dst.length), y, hy,
    List.length_take_of_le hle, ?_⟩
  rw [hbits, ← unpack_append, List.take_append_drop]

/-- **A read from a buffer that lasts** takes the bits of a value. -/
theorem SerialOp.read_lasts (op : SerialOp) (h : z.isBuffer = true)
    (ha : Ahead (e := memHost bigEndian) memSource z bits)
    (hal : op.isBulk = true → bits.length % 8 = 0)
    (hsome : (op.read (memHost bigEndian) z).1 ≠ none)
    (heof : (op.read (memHost bigEndian) z).2.readEof = false) :
    ∃ (v : SerialVal) (rest : List Bool), v.op = op ∧
      bits = v.toBits (memHost bigEndian) ++ rest ∧
      ∀ s, v = .str s → s.length < 2 ^ 64 - 1 := by
  cases op with
  | bit =>
    obtain ⟨c, rest, rfl⟩ := List.exists_cons_of_ne_nil (zcioSerialReadBit_lasts bigEndian h ha heof)
    exact ⟨.bit c, rest, rfl, rfl, fun _ h => by cases h⟩
  | bits n =>
    have hle : n ≤ bits.length := by
      simp only [read, zcioSerialReadBits, ha.packs, if_true, List.length_replicate] at heof
      exact readBitsLoop_lasts bigEndian h ha heof
    -- an octet for each of the bits
    have hlow : ((bits.take n).map Bool.toUInt8).map (fun c => c.toNat.testBit 0) = bits.take n := by
      rw [List.map_map]
      exact List.map_id'' (fun b => by cases b <;> decide) _
    refine ⟨.bits ((bits.take n).map Bool.toUInt8), bits.drop n, ?_, ?_, fun _ h => by cases h⟩
    · simp only [SerialVal.op, List.length_map, List.length_take_of_le hle]
    · simp only [SerialVal.toBits]
      rw [hlow, List.take_append_drop]
  | byte =>
    have hle := zcioSerialReadByte_lasts bigEndian h ha heof
    have hlen : (bits.take 8).length = 8 := List.length_take_of_le hle
    refine ⟨.byte (UInt8.ofNat (ofBits (bits.take 8))), bits.drop 8, rfl, ?_, fun _ h => by cases h⟩
    simp only [SerialVal.toBits]
    rw [octetBits_ofBits hlen.le, hlen, Nat.sub_self, List.replicate_zero, List.append_nil,
      List.take_append_drop]
  | bytes n =>
    by_cases hn : n = 0
    · subst hn
      exact ⟨.bytes [], bits, rfl, rfl, fun _ h => by cases h⟩
    · simp only [read, zcioSerialReadBytes_buffer bigEndian h] at heof
      obtain ⟨b, rest, y, -, hlen, hbits⟩ :=
        rawRead_lasts_ahead bigEndian h ha (hal (by simpa [isBulk] using hn)) heof
      rw [List.length_replicate] at hlen
      exact ⟨.bytes b, rest, by rw [SerialVal.op, hlen], hbits, fun _ h => by cases h⟩
  | scalar t =>
    simp only [read, zcioSerialReadScalar, zcioSerialReadBytes_buffer bigEndian h] at heof
    obtain ⟨b, rest, y, -, hlen, hbits⟩ := rawRead_lasts_ahead bigEndian h ha (hal rfl) heof
    rw [List.length_replicate] at hlen
    refine ⟨.scalar t (BitVec.ofNat _ (hostValue (memHost bigEndian) b)), rest, rfl, ?_, fun _ h => by cases h⟩
    have hlt := hostValue_lt (memHost bigEndian) b
    rw [hlen] at hlt
    simp only [SerialVal.toBits]
    rw [BitVec.toNat_ofNat, Nat.mod_eq_of_lt hlt, ← hlen, hostOctets_hostValue]
    exact hbits
  | str =>
    have hpre : (rawRead (memHost bigEndian) z (List.replicate 8 0)).2.2.readEof = false :=
      (zcioSerialReadStr_eofKept bigEndian h).2.eof heof
    obtain ⟨b, rest, y, hy, hlen, hbits⟩ := rawRead_lasts_ahead bigEndian h ha (hal rfl) hpre
    rw [List.length_replicate] at hlen
    have hal' := hal rfl
    subst hbits
    rw [List.length_append, length_unpack] at hal'
    obtain ⟨y', hy', hrest, -⟩ := zcioSerialReadBytes_ahead (e := memHost bigEndian)
      (List.replicate 8 0) b (by rw [hlen]; rfl) (.inr (.inr (by omega))) ha
    rw [zcioSerialReadBytes_buffer bigEndian h, hy] at hy'
    obtain ⟨-, rfl⟩ := Prod.mk.inj (Prod.mk.inj hy').2
    have hyb : y.isBuffer = true := by
      have hkept := rawRead_eofKept bigEndian h (List.replicate 8 0)
      rw [hy] at hkept
      exact hkept.buffer
    -- the length is one that the block has room for
    have hn : hostValue (memHost bigEndian) b ≠ 2 ^ 64 - 1 ∧
        hostValue (memHost bigEndian) b ≤ readStrMax y := by
      by_contra hcon
      refine hsome ?_
      have hlen8 : zcioSerialReadBytes (memHost bigEndian) z (List.replicate 8 0) = (8, b, y) := by
        rw [zcioSerialReadBytes_buffer bigEndian h, hy, List.length_replicate]
      simp only [read, zcioSerialReadStr_eq hlen8, readStrBody]
      rw [if_pos (by omega)]
      rfl
    rw [readStrMax_buffer bigEndian hyb] at hn
    have hbits := hrest.bits
    rw [partialBits_fresh (hrest.aligned.mp (by omega)), List.nil_append] at hbits
    have hs := List.length_take_of_le hn.2
    have hlt := hostValue_lt (memHost bigEndian) b
    rw [hlen] at hlt
    refine ⟨.str ((y.left (e := memHost bigEndian) memSource).take (hostValue (memHost bigEndian) b)),
      unpack ((y.left (e := memHost bigEndian) memSource).drop (hostValue (memHost bigEndian) b)),
      rfl, ?_, ?_⟩
    · simp only [SerialVal.toBits, strOctets]
      rw [hs, Nat.mod_eq_of_lt hlt, unpack_append, List.append_assoc, ← unpack_append,
        List.take_append_drop, ← hbits]
      have hb := hostOctets_hostValue (memHost bigEndian) b
      rw [hlen] at hb
      rw [hb]
    · intro s hs'
      cases hs'
      rw [hs]
      omega

/-! ### Sequences of reads that pack bits

The values read off a block are those that its bits spell. -/

theorem serialRead_lasts (ops : List SerialOp) (h : z.isBuffer = true)
    (ha : Ahead (e := memHost bigEndian) memSource z bits) {n : Nat}
    (hn : (n + bits.length) % 8 = 0) (hal : bulkAligned n ops)
    (hsome : none ∉ (serialRead (memHost bigEndian) z ops).1)
    (heof : (serialRead (memHost bigEndian) z ops).2.readEof = false) :
    ∃ (vs : List SerialVal) (rest : List Bool), vs.map SerialVal.op = ops ∧
      (serialRead (memHost bigEndian) z ops).1 = vs.map (fun v => some v.readAs) ∧
      bits = vs.flatMap (SerialVal.toBits (memHost bigEndian)) ++ rest := by
  -- one read a round; the bits in front of it are those of the values read
  induction ops generalizing z bits n with
  | nil => exact ⟨[], bits, rfl, rfl, rfl⟩
  | cons op ops ih =>
    -- the flag of the end stays once it is set
    have hkept := op.read_eofKept bigEndian h
    have hrest := serialRead_eofKept bigEndian hkept.buffer ops
    simp only [serialRead, List.mem_cons, not_or] at hsome heof
    have halop : op.isBulk = true → bits.length % 8 = 0 := fun hb => by
      have := hal.1 hb
      omega
    -- a read that did not run out had all the bits of its value
    obtain ⟨v, rest, rfl, rfl, hfits⟩ :=
      op.read_lasts bigEndian h ha halop (Ne.symm hsome.1) (hrest.eof heof)
    have hlen := v.length_toBits (e := memHost bigEndian)
    rw [List.length_append] at hn halop
    obtain ⟨hv, hz, hst⟩ := v.read_ahead (e := memHost bigEndian)
      (fun s hs => ⟨hfits s hs, fun hst => by
        rw [Serial.isStream_of_isBuffer h] at hst
        contradiction⟩)
      (.inr fun hb => by
        have := halop hb
        rw [SerialOp.shift_of_isBulk hb] at hlen
        omega) ha
    -- and the rest is read from behind them
    obtain ⟨vs, rest', hops, hvals, hbits⟩ :=
      ih hkept.buffer hz (by omega) hal.2 hsome.2 heof
    refine ⟨v :: vs, rest', by rw [List.map_cons, hops], ?_, ?_⟩
    · simp only [serialRead, hv, hvals, List.map_cons]
    · rw [hbits, List.flatMap_cons, List.append_assoc]

/-! ### Reads that do not pack bits

Block and stream give the same values as long as neither comes short. -/

/-- Two serials in front of the same octets, over a stream and over a buffer. -/
structure ReadAlike (bigEndian : Bool) (z z' : Serial MemBuf) : Prop where
  stream : z.isStream = true
  buffer : z'.isBuffer = true
  plain : z.bitStream = false
  plain' : z'.bitStream = false
  read : z.bitsRead = z'.bitsRead
  cur : z.curReadByte = z'.curReadByte
  left : z.left (e := memHost bigEndian) memSource = z'.left (e := memHost bigEndian) memSource

theorem rawRead_alike (dst : Bytes) (h : ReadAlike bigEndian z z')
    (hle : dst.length ≤ (z'.left (e := memHost bigEndian) memSource).length) :
    ∃ b y y', rawRead (memHost bigEndian) z dst = (dst.length, b, y) ∧
      rawRead (memHost bigEndian) z' dst = (dst.length, b, y') ∧ b.length = dst.length ∧
      ReadAlike bigEndian y y' := by
  have hkept := rawRead_eofKept bigEndian h.buffer dst
  obtain ⟨y', hy', hleft', -, hbs', hread', hcur'⟩ :=
    rawRead_ok (e := memHost bigEndian) memSource dst hle
  obtain ⟨y, hy, hleft, hst, hbs, hread, hcur⟩ :=
    rawRead_ok (e := memHost bigEndian) (z := z) memSource dst (by rw [h.left]; exact hle)
  rw [hy'] at hkept
  refine ⟨_, y, y', by rw [hy, h.left], hy', List.length_take_of_le hle, hst.trans h.stream,
    hkept.buffer, hbs.trans h.plain, hbs'.trans h.plain', ?_, ?_, ?_⟩
  · rw [hread, hread', h.read]
  · rw [hcur, hcur', h.cur]
  · rw [hleft, hleft', h.left]

theorem readFreshByte_alike (h : ReadAlike bigEndian z z')
    (heof : (readFreshByte (memHost bigEndian) z').2.readEof = false) :
    (readFreshByte (memHost bigEndian) z).1 = (readFreshByte (memHost bigEndian) z').1 ∧
      ReadAlike bigEndian (readFreshByte (memHost bigEndian) z).2
        (readFreshByte (memHost bigEndian) z').2 := by
  obtain ⟨b, y, y', hy, hy', -, hal⟩ := rawRead_alike bigEndian [0] h (rawRead_lasts bigEndian h.buffer heof)
  simp only [readFreshByte, hy, hy', true_and]
  exact ⟨hal.stream, hal.buffer, hal.plain, hal.plain', rfl, rfl, hal.left⟩

theorem zcioSerialReadBit_alike (h : ReadAlike bigEndian z z')
    (heof : (zcioSerialReadBit (memHost bigEndian) z').2.readEof = false) :
    (zcioSerialReadBit (memHost bigEndian) z).1 = (zcioSerialReadBit (memHost bigEndian) z').1 ∧
      ReadAlike bigEndian (zcioSerialReadBit (memHost bigEndian) z).2
        (zcioSerialReadBit (memHost bigEndian) z').2 := by
  unfold zcioSerialReadBit at heof ⊢
  dsimp only at heof ⊢
  rw [h.read]
  split_ifs at heof ⊢ with hfresh
  · obtain ⟨-, hal⟩ := readFreshByte_alike bigEndian h heof
    rw [hal.read, hal.cur]
    exact ⟨rfl, hal.stream, hal.buffer, hal.plain, hal.plain', rfl, rfl, hal.left⟩
  · rw [h.read, h.cur]
    exact ⟨rfl, h.stream, h.buffer, h.plain, h.plain', rfl, rfl, h.left⟩

theorem zcioSerialReadByte_alike (h : ReadAlike bigEndian z z')
    (heof : (zcioSerialReadByte (memHost bigEndian) z').2.readEof = false) :
    (zcioSerialReadByte (memHost bigEndian) z).1 = (zcioSerialReadByte (memHost bigEndian) z').1 ∧
      ReadAlike bigEndian (zcioSerialReadByte (memHost bigEndian) z).2
        (zcioSerialReadByte (memHost bigEndian) z').2 := by
  unfold zcioSerialReadByte at heof ⊢
  rw [h.plain', if_neg (by simp)] at heof
  rw [h.plain, h.plain', if_neg (by simp), if_neg (by simp)]
  exact readFreshByte_alike bigEndian h heof

theorem zcioSerialReadBytes_plain (h : z.bitStream = false) (dst : Bytes) :
    zcioSerialReadBytes (memHost bigEndian) z dst = rawRead (memHost bigEndian) z dst := by
  unfold zcioSerialReadBytes
  rw [h]

theorem readStrBody_alike {n : Nat} (h : ReadAlike bigEndian z z')
    (hsome : (readStrBody (memHost bigEndian) z' n).1 ≠ none)
    (hcap : ∀ s, (readStrBody (memHost bigEndian) z' n).1 = some s → s.length ≤ streamReadCap) :
    (readStrBody (memHost bigEndian) z n).1 = (readStrBody (memHost bigEndian) z' n).1 ∧
      ReadAlike bigEndian (readStrBody (memHost bigEndian) z n).2
        (readStrBody (memHost bigEndian) z' n).2 := by
  unfold readStrBody at hsome hcap ⊢
  -- the length is one that the buffer has room for
  by_cases hn : n = 2 ^ 64 - 1 ∨ n > readStrMax z'
  · rw [if_pos hn] at hsome
    exact absurd rfl hsome
  rw [if_neg hn] at hcap ⊢
  rw [not_or, Nat.not_lt, readStrMax_buffer bigEndian h.buffer] at hn
  by_cases hzero : n = 0
  · subst hzero
    rw [if_neg (by simp), if_pos rfl, if_pos rfl]
    exact ⟨rfl, h⟩
  rw [if_neg hzero, zcioSerialReadBytes_plain bigEndian h.plain'] at hcap ⊢
  obtain ⟨s, y, y', hy, hy', hs, hal⟩ :=
    rawRead_alike bigEndian (List.replicate n 0) h (by rw [List.length_replicate]; exact hn.2)
  rw [List.length_replicate] at hy hy' hs
  rw [hy'] at hcap ⊢
  dsimp only at hcap ⊢
  rw [List.take_of_length_le hs.le] at hcap ⊢
  have hle := hcap s rfl
  rw [if_neg (by rw [readStrMax_stream h.stream]; omega), if_neg hzero,
    zcioSerialReadBytes_plain bigEndian h.plain, hy]
  exact ⟨by simp only [List.take_of_length_le hs.le], hal⟩

theorem zcioSerialReadStr_alike (h : ReadAlike bigEndian z z')
    (hsome : (zcioSerialReadStr (memHost bigEndian) z').1 ≠ none)
    (heof : (zcioSerialReadStr (memHost bigEndian) z').2.readEof = false)
    (hcap : ∀ s, (zcioSerialReadStr (memHost bigEndian) z').1 = some s → s.length ≤ streamReadCap) :
    (zcioSerialReadStr (memHost bigEndian) z).1 = (zcioSerialReadStr (memHost bigEndian) z').1 ∧
      ReadAlike bigEndian (zcioSerialReadStr (memHost bigEndian) z).2
        (zcioSerialReadStr (memHost bigEndian) z').2 := by
  have hpre := (zcioSerialReadStr_eofKept bigEndian h.buffer).2.eof heof
  obtain ⟨b, y, y', hy, hy', -, hal⟩ := rawRead_alike bigEndian (List.replicate 8 0) h (rawRead_lasts bigEndian h.buffer hpre)
  rw [← zcioSerialReadBytes_plain bigEndian h.plain, List.length_replicate] at hy
  rw [← zcioSerialReadBytes_plain bigEndian h.plain', List.length_replicate] at hy'
  rw [zcioSerialReadStr_eq hy'] at hsome hcap ⊢
  rw [zcioSerialReadStr_eq hy]
  exact readStrBody_alike bigEndian hal hsome hcap

theorem SerialOp.read_alike (op : SerialOp) (h : ReadAlike bigEndian z z')
    (hsome : (op.read (memHost bigEndian) z').1 ≠ none)
    (heof : (op.read (memHost bigEndian) z').2.readEof = false)
    (hcap : ∀ s, (op.read (memHost bigEndian) z').1 = some (.str s) → s.length ≤ streamReadCap) :
    (op.read (memHost bigEndian) z).1 = (op.read (memHost bigEndian) z').1 ∧
      ReadAlike bigEndian (op.read (memHost bigEndian) z).2 (op.read (memHost bigEndian) z').2 := by
  -- each kind of read takes the same octets in both streams
  cases op with
  | bit =>
    obtain ⟨heq, hal⟩ := zcioSerialReadBit_alike bigEndian h heof
    exact ⟨by simp only [read, heq], hal⟩
  -- no bits of a bit stream are left to a plain one
  | bits n =>
    simp only [read, zcioSerialReadBits, h.plain, h.plain', Bool.false_eq_true, if_false, true_and]
    exact h
  | byte =>
    obtain ⟨heq, hal⟩ := zcioSerialReadByte_alike bigEndian h heof
    exact ⟨by simp only [read, heq], hal⟩
  -- a block is read straight from the source
  | bytes n =>
    simp only [read, zcioSerialReadBytes_plain bigEndian h.plain'] at heof
    obtain ⟨b, y, y', hy, hy', -, hal⟩ := rawRead_alike bigEndian _ h (rawRead_lasts bigEndian h.buffer heof)
    simp only [read, zcioSerialReadBytes_plain bigEndian h.plain, zcioSerialReadBytes_plain bigEndian h.plain', hy, hy',
      true_and]
    exact hal
  | scalar t =>
    simp only [read, zcioSerialReadScalar, zcioSerialReadBytes_plain bigEndian h.plain'] at heof
    obtain ⟨b, y, y', hy, hy', -, hal⟩ := rawRead_alike bigEndian _ h (rawRead_lasts bigEndian h.buffer heof)
    simp only [read, zcioSerialReadScalar, zcioSerialReadBytes_plain bigEndian h.plain,
      zcioSerialReadBytes_plain bigEndian h.plain', hy, hy', true_and]
    exact hal
  -- a text has a length first, which is held to the cap
  | str =>
    simp only [read] at hsome hcap
    obtain ⟨heq, hal⟩ := zcioSerialReadStr_alike bigEndian h (fun hnone => hsome (by rw [hnone]; rfl)) heof
      (fun s hs => hcap s (by rw [hs]; rfl))
    exact ⟨by simp only [read, heq], hal⟩

theorem serialRead_alike (ops : List SerialOp) (h : ReadAlike bigEndian z z')
    (hsome : none ∉ (serialRead (memHost bigEndian) z' ops).1)
    (heof : (serialRead (memHost bigEndian) z' ops).2.readEof = false)
    (hcap : ∀ s, some (.str s) ∈ (serialRead (memHost bigEndian) z' ops).1 →
      s.length ≤ streamReadCap) :
    (serialRead (memHost bigEndian) z ops).1 = (serialRead (memHost bigEndian) z' ops).1 := by
  induction ops generalizing z z' with
  | nil => rfl
  | cons op ops ih =>
    have hkept := op.read_eofKept bigEndian h.buffer
    have hrest := serialRead_eofKept bigEndian hkept.buffer ops
    simp only [serialRead, List.mem_cons, not_or] at hsome heof hcap
    obtain ⟨heq, hal⟩ := op.read_alike bigEndian h (Ne.symm hsome.1) (hrest.eof heof)
      (fun s hs => hcap s (.inl hs.symm))
    have hops := ih hal hsome.2 heof (fun s hs => hcap s (.inr hs))
    simp only [serialRead, heq, hops]

/-! ### Strings from a stream

A stream holds the length of a text to a cap, which a block does not need. -/

theorem rawRead_isStream (z : Serial MemBuf) (dst : Bytes) :
    (rawRead (memHost bigEndian) z dst).2.2.isStream = z.isStream ∧
      (rawRead (memHost bigEndian) z dst).1 ≤ dst.length := by
  obtain ⟨mode, bs, crb, br, cwb, bw, f1, f2, f3, lr, st⟩ := z
  cases mode with
  | count => exact ⟨rfl, le_rfl⟩
  | buffer buf rpos wpos =>
    unfold rawRead
    dsimp only
    split_ifs
    · exact ⟨rfl, le_rfl⟩
    · exact ⟨rfl, le_rfl⟩
    · exact ⟨rfl, Nat.zero_le _⟩
  | stream s =>
    obtain ⟨s', heq, -⟩ := memSource.zcioReadFull_ok s dst.length
    simp only [rawRead]
    rw [show (memHost bigEndian).read = memVt.read from rfl, heq]
    dsimp only
    refine ⟨?_, List.length_take_le ..⟩
    split_ifs <;> rfl

theorem zcioSerialReadBit_isStream (z : Serial MemBuf) :
    (zcioSerialReadBit (memHost bigEndian) z).2.isStream = z.isStream := by
  unfold zcioSerialReadBit
  dsimp only
  split_ifs
  · exact (rawRead_isStream bigEndian z [0]).1
  · rfl

theorem readBitsLoop_isStream (n : Nat) (z : Serial MemBuf) :
    (readBitsLoop (memHost bigEndian) n z).2.isStream = z.isStream := by
  induction n generalizing z with
  | zero => rfl
  | succ n ih => exact (ih _).trans (zcioSerialReadBit_isStream bigEndian z)

theorem zcioSerialReadByte_isStream (z : Serial MemBuf) :
    (zcioSerialReadByte (memHost bigEndian) z).2.isStream = z.isStream := by
  unfold zcioSerialReadByte
  split_ifs
  · exact readBitsLoop_isStream bigEndian 8 z
  · exact (rawRead_isStream bigEndian z [0]).1

theorem readBytesLoop_isStream (n : Nat) (z : Serial MemBuf) :
    (readBytesLoop (memHost bigEndian) n z).2.isStream = z.isStream := by
  induction n generalizing z with
  | zero => rfl
  | succ n ih => exact (ih _).trans (zcioSerialReadByte_isStream bigEndian z)

theorem zcioSerialReadBytes_isStream (z : Serial MemBuf) (dst : Bytes) :
    (zcioSerialReadBytes (memHost bigEndian) z dst).2.2.isStream = z.isStream ∧
      (zcioSerialReadBytes (memHost bigEndian) z dst).1 ≤ dst.length := by
  unfold zcioSerialReadBytes
  split
  · exact ⟨readBytesLoop_isStream bigEndian _ z, le_rfl⟩
  · exact rawRead_isStream bigEndian z dst

theorem zcioSerialReadStr_stream (h : z.isStream = true) :
    (zcioSerialReadStr (memHost bigEndian) z).2.isStream = true ∧
      ∀ s, (zcioSerialReadStr (memHost bigEndian) z).1 = some s → s.length ≤ streamReadCap := by
  have hpre := (zcioSerialReadBytes_isStream bigEndian z (List.replicate 8 0)).1.trans h
  unfold zcioSerialReadStr readStrBody
  dsimp only
  rw [readStrMax_stream hpre]
  split_ifs with h8 hmax hzero
  · exact ⟨hpre, fun s hs => absurd hs (by simp)⟩
  · exact ⟨hpre, fun s hs => absurd hs (by simp)⟩
  · refine ⟨hpre, fun s hs => ?_⟩
    cases hs
    exact Nat.zero_le _
  · generalize hostValue (memHost bigEndian) _ = n at hmax
    obtain ⟨hst, hle⟩ := zcioSerialReadBytes_isStream bigEndian
      (zcioSerialReadBytes (memHost bigEndian) z (List.replicate 8 0)).2.2 (List.replicate n 0)
    refine ⟨hst.trans hpre, fun s hs => ?_⟩
    cases hs
    rw [List.length_replicate] at hle
    exact (List.length_take_le ..).trans (hle.trans (by omega))

theorem SerialOp.read_stream (op : SerialOp) (h : z.isStream = true) :
    (op.read (memHost bigEndian) z).2.isStream = true ∧
      ∀ s, (op.read (memHost bigEndian) z).1 = some (.str s) → s.length ≤ streamReadCap := by
  cases op with
  | bit => exact ⟨(zcioSerialReadBit_isStream bigEndian z).trans h, fun s hs => absurd hs (by simp [read])⟩
  | bits n =>
    refine ⟨?_, fun s hs => absurd hs (by simp [read])⟩
    simp only [read, zcioSerialReadBits]
    split_ifs
    · exact (readBitsLoop_isStream bigEndian _ z).trans h
    · exact h
  | byte => exact ⟨(zcioSerialReadByte_isStream bigEndian z).trans h, fun s hs => absurd hs (by simp [read])⟩
  | bytes n =>
    exact ⟨(zcioSerialReadBytes_isStream bigEndian z _).1.trans h, fun s hs => absurd hs (by simp [read])⟩
  | scalar t =>
    exact ⟨(zcioSerialReadBytes_isStream bigEndian z _).1.trans h, fun s hs => absurd hs (by simp [read])⟩
  | str =>
    obtain ⟨hst, hcap⟩ := zcioSerialReadStr_stream bigEndian h
    refine ⟨hst, fun s hs => hcap s ?_⟩
    simpa [read] using hs

/-- No string from a stream is longer than the cap. -/
theorem serialRead_strings (ops : List SerialOp) (h : z.isStream = true) :
    ∀ s, some (.str s) ∈ (serialRead (memHost bigEndian) z ops).1 → s.length ≤ streamReadCap := by
  induction ops generalizing z with
  | nil => exact fun s hs => absurd hs (by simp [serialRead])
  | cons op ops ih =>
    obtain ⟨hst, hcap⟩ := op.read_stream bigEndian h
    intro s hs
    simp only [serialRead, List.mem_cons] at hs
    rcases hs with hs | hs
    · exact hcap s hs.symm
    · exact ih hst s hs

/-! ### Both modes

The exact condition under which the two modes agree. -/

/-- What the operations read from a buffer. -/
def bufferReads (bigEndian bitStream : Bool) (block : Bytes) (ops : List SerialOp) :
    List (Option SerialVal) × Serial MemBuf :=
  serialRead (memHost bigEndian) (zcioSerialNewBuffer block bitStream) ops

/-- No read from the buffer comes short. -/
def readsLast (bigEndian bitStream : Bool) (block : Bytes) (ops : List SerialOp) : Prop :=
  none ∉ (bufferReads bigEndian bitStream block ops).1 ∧
    (bufferReads bigEndian bitStream block ops).2.readEof = false

/-- A memory stream of the block gives the same values. -/
def readsAgree (bigEndian bitStream : Bool) (block : Bytes) (ops : List SerialOp) : Prop :=
  (serialRead (memHost bigEndian) (zcioSerialNew { data := block } bitStream) ops).1 =
    (bufferReads bigEndian bitStream block ops).1

/-- No string is longer than what `zcio_serial_read_str` takes from a stream. -/
def stringsFit (vals : List (Option SerialVal)) : Prop :=
  ∀ s, some (.str s) ∈ vals → s.length ≤ streamReadCap

/-- **Reads.** While the input lasts the modes agree, up to strings that a stream refuses. -/
theorem readsAgree_iff {bitStream : Bool} {block : Bytes} {ops : List SerialOp}
    (hal : bitStream = true → bulkAligned 0 ops) (h : readsLast bigEndian bitStream block ops) :
    readsAgree bigEndian bitStream block ops ↔
      stringsFit (bufferReads bigEndian bitStream block ops).1 := by
  unfold readsAgree
  constructor
  · intro heq
    rw [← heq]
    exact serialRead_strings bigEndian ops rfl
  · intro hfit
    obtain ⟨hsome, heof⟩ := h
    cases bitStream with
    | false => exact serialRead_alike bigEndian ops ⟨rfl, rfl, rfl, rfl, rfl, rfl, rfl⟩ hsome heof hfit
    | true =>
      have hbuf : Ahead (e := memHost bigEndian) memSource (zcioSerialNewBuffer block true)
          (unpack block) := ⟨rfl, le_rfl, rfl⟩
      have hstream : Ahead (e := memHost bigEndian) memSource (zcioSerialNew { data := block } true)
          (unpack block) := ⟨rfl, le_rfl, rfl⟩
      obtain ⟨vs, rest, rfl, hvals, hbits⟩ := serialRead_lasts bigEndian ops rfl hbuf
        (by rw [length_unpack]; omega) (hal rfl) hsome heof
      -- the stream has the bits of the same values ahead
      rw [hbits] at hstream
      refine (serialRead_ahead vs (fun s hs => ?_) (.inl rfl) hstream).trans hvals.symm
      have hle := hfit s (by
        rw [bufferReads, hvals]
        exact List.mem_map.mpr ⟨.str s, hs, rfl⟩)
      exact ⟨lt_of_le_of_lt hle (by decide), fun _ => hle⟩

/-- **Buffer and stream.** For a sequence of operations, a buffer gets the same octets as a
memory stream whatever the values are, and gives the same values while the input lasts (as long
as no string is too long for a stream), if and only if no bulk operation of a serial that packs
bits starts in the middle of an octet. -/
theorem serial_modes_agree (bigEndian bitStream : Bool) (ops : List SerialOp) :
    ((∀ vs, vs.map SerialVal.op = ops → writesAgree bigEndian bitStream vs) ∧
      ∀ block, readsLast bigEndian bitStream block ops →
        (readsAgree bigEndian bitStream block ops ↔
          stringsFit (bufferReads bigEndian bitStream block ops).1)) ↔
      (bitStream = true → bulkAligned 0 ops) :=
  ⟨fun h => (writesAgree_iff bigEndian bitStream ops).mp h.1,
    fun h => ⟨(writesAgree_iff bigEndian bitStream ops).mpr h, fun _ => readsAgree_iff bigEndian h⟩⟩

/-- A bit and an octet of bulk: 01 00 on a stream, and 00 01 in a buffer. -/
theorem serial_modes_differ :
    let vs : List SerialVal := [.bit true, .bytes [0]]
    Serial.out (e := memHost false) memSink
        (serialWrite (memHost false) (zcioSerialNew { data := [0, 0] } true) vs) = [1, 0] ∧
      Serial.out (e := memHost false) memSink
        (serialWrite (memHost false) (zcioSerialNewBuffer [0, 0] true) vs) = [0, 1] ∧
      ¬ writesAgree false true vs := by
  refine ⟨by decide, by decide, fun h => ?_⟩
  have heq := h 2 (by decide)
  revert heq
  decide

end Zcio
