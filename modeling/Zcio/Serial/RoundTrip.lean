import Zcio.Serial.BitStream

/-!
# Zcio.Serial.RoundTrip

What a serial that packs bits reads again. The bits ahead of it are those left of
`curReadByte` and behind them those of the octets still to come (`Ahead`); a read takes the
ones of its value, at any alignment.
-/

namespace Zcio

open Lib.Bits

variable {σ : Type} {e : SerialHost σ} (R : Source e.toStreamVt) {z : Serial σ}

/-! ### Raw reads

A raw read from a source that gives its octets. -/

/-- The octets still to come. -/
def Serial.left (z : Serial σ) : Bytes :=
  match z.mode with
  | .stream s => R.rest s
  | .buffer buf rpos _ => buf.drop rpos
  | .count .. => []

/-- **A raw read** of octets that are there. -/
theorem rawRead_ok (dst : Bytes) (h : dst.length ≤ (z.left R).length) :
    ∃ z', rawRead e z dst = (dst.length, (z.left R).take dst.length, z') ∧
      z'.left R = (z.left R).drop dst.length ∧ z'.isStream = z.isStream ∧
      z'.bitStream = z.bitStream ∧ z'.bitsRead = z.bitsRead ∧ z'.curReadByte = z.curReadByte := by
  obtain ⟨mode, bs, crb, br, cwb, bw, f1, f2, f3, lr, st⟩ := z
  cases mode with
  | count =>
    have hnil : dst = [] := List.length_eq_zero_iff.mp (Nat.le_zero.mp h)
    subst hnil
    exact ⟨_, rfl, rfl, rfl, rfl, rfl, rfl⟩
  | buffer buf rpos wpos =>
    simp only [Serial.left, List.length_drop] at h
    refine ⟨⟨.buffer buf (rpos + dst.length) wpos, bs, crb, br, cwb, bw, f1, f2, f3, dst.length,
      st⟩, ?_, ?_, rfl, rfl, rfl, rfl⟩
    · simp only [rawRead, Serial.left, if_pos (h.trans (le_bufferCap _ _)), if_pos h]
    · simp only [Serial.left, List.drop_drop]
  | stream s =>
    obtain ⟨s', heq, hrest⟩ := R.zcioReadFull_ok s dst.length
    have hlen : ((R.rest s).take dst.length).length = dst.length := List.length_take_of_le h
    refine ⟨⟨.stream s', bs, crb, br, cwb, bw, false, false, f3, dst.length, st⟩, ?_, hrest, rfl, rfl,
      rfl, rfl⟩
    simp only [rawRead, heq, hlen, Serial.left, List.drop_length, List.append_nil, ne_eq,
      not_true_eq_false, if_false]

/-! ### Bits on their way in

The bits left of the octet read last, and the octets behind it, as one list of bits. -/

/-- The bits of `curReadByte` that were not read. -/
def Serial.partialBits (z : Serial σ) : List Bool :=
  if z.bitsRead = 0 then [] else (octetBits z.curReadByte).drop z.bitsRead

/-- `bits` are ahead of a serial that packs bits. -/
structure Ahead (z : Serial σ) (bits : List Bool) : Prop where
  packs : z.bitStream = true
  le : z.bitsRead ≤ 8
  bits : bits = z.partialBits ++ unpack (z.left R)

variable {R} {bits : List Bool}

theorem octetBits_drop {c : UInt8} {i : Nat} (h : i < 8) :
    (octetBits c).drop i = c.toNat.testBit i :: (octetBits c).drop (i + 1) := by
  rw [List.drop_eq_getElem_cons (by simpa using h)]
  simp [octetBits]

theorem partialBits_fresh (h : z.bitsRead = 0 ∨ z.bitsRead = 8) : z.partialBits = [] := by
  unfold Serial.partialBits
  rcases h with h | h
  · rw [if_pos h]
  · rw [h]
    rfl

/-- The alignment can be told from what is ahead. -/
theorem Ahead.aligned (h : Ahead R z bits) : bits.length % 8 = 0 ↔ z.bitsRead = 0 ∨ z.bitsRead = 8 := by
  have hle := h.le
  rw [h.bits, List.length_append, length_unpack]
  unfold Serial.partialBits
  split_ifs with h0
  · simp [h0]
  · rw [List.length_drop, length_octetBits]
    omega

/-- Octets that begin with those of given bits. -/
theorem unpack_eq_append {l : Bytes} {c : UInt8} (h : unpack l = octetBits c ++ bits) :
    ∃ l', l = c :: l' ∧ unpack l' = bits := by
  cases l with
  | nil =>
    have := congrArg List.length h
    rw [List.length_append, length_octetBits] at this
    exact absurd this (by simp; omega)
  | cons d l =>
    obtain ⟨hd, hrest⟩ := List.append_inj h (by simp)
    exact ⟨l, by rw [octetBits_injective hd], hrest⟩

theorem readFreshByte_ok {c : UInt8} {l : Bytes} (h : z.left R = c :: l) :
    ∃ z', readFreshByte e z = (c, z') ∧ z'.left R = l ∧ z'.isStream = z.isStream ∧
      z'.bitStream = z.bitStream ∧ z'.bitsRead = 0 ∧ z'.curReadByte = c := by
  obtain ⟨z', heq, hleft, hst, hbs, -⟩ := 
    rawRead_ok (e := e) R [0] (z := z) (by rw [h]; simp)
  rw [h] at heq hleft
  refine ⟨{ z' with curReadByte := c, bitsRead := 0 }, ?_, hleft, hst, hbs, rfl, rfl⟩
  simp only [readFreshByte, heq]
  rfl

/-- **A bit** is the first one ahead. -/
theorem zcioSerialReadBit_ahead {c : Bool} (h : Ahead R z (c :: bits)) :
    (zcioSerialReadBit e z).1 = c ∧ Ahead R (zcioSerialReadBit e z).2 bits ∧
      (zcioSerialReadBit e z).2.isStream = z.isStream := by
  obtain ⟨hbs, hle, hbits⟩ := h
  unfold zcioSerialReadBit
  dsimp only
  split_ifs with hfresh
  · rw [partialBits_fresh hfresh, List.nil_append] at hbits
    cases hleft : z.left R with
    | nil =>
      rw [hleft] at hbits
      exact absurd hbits (by simp)
    | cons d l =>
      obtain ⟨z', heq, hleft', hst, hbs', hread, hcur⟩ := readFreshByte_ok hleft
      rw [heq]
      dsimp only
      rw [hleft, unpack_cons, ← List.drop_zero (l := octetBits d), octetBits_drop (by decide)] at hbits
      obtain ⟨hc, hrest⟩ := List.cons.inj hbits
      refine ⟨?_, ⟨hbs'.trans hbs, by simp only [hread]; decide, ?_⟩, hst⟩
      · rw [hread, hcur, hc]
      · simp only [Serial.partialBits, hread, hcur]
        rw [hrest, ← hleft']
        rfl
  · have hpart : z.partialBits = (octetBits z.curReadByte).drop z.bitsRead := by
      unfold Serial.partialBits
      rw [if_neg (by omega)]
    rw [hpart, octetBits_drop (by omega)] at hbits
    obtain ⟨hc, hrest⟩ := List.cons.inj hbits
    refine ⟨hc.symm, ⟨hbs, by simp only; omega, ?_⟩, rfl⟩
    simp only [Serial.partialBits]
    rw [if_neg (by omega)]
    exact hrest

theorem readBitsLoop_ahead (cs : List Bool) (h : Ahead R z (cs ++ bits)) :
    (readBitsLoop e cs.length z).1 = cs ∧ Ahead R (readBitsLoop e cs.length z).2 bits ∧
      (readBitsLoop e cs.length z).2.isStream = z.isStream := by
  induction cs generalizing z with
  | nil => exact ⟨rfl, h, rfl⟩
  | cons c cs ih =>
    obtain ⟨hc, hz, hst⟩ := zcioSerialReadBit_ahead h
    obtain ⟨hcs, hz', hst'⟩ := ih hz
    simp only [List.length_cons, readBitsLoop]
    exact ⟨by rw [hc, hcs], hz', hst'.trans hst⟩

/-! ### Octets on their way in -/

/-- **An octet** at any alignment. -/
theorem zcioSerialReadByte_ahead {c : UInt8} (h : Ahead R z (octetBits c ++ bits)) :
    (zcioSerialReadByte e z).1 = c ∧ Ahead R (zcioSerialReadByte e z).2 bits ∧
      (zcioSerialReadByte e z).2.isStream = z.isStream := by
  unfold zcioSerialReadByte
  split_ifs with hmid
  · have hloop := readBitsLoop_ahead (e := e) (octetBits c) h
    rw [length_octetBits] at hloop
    refine ⟨?_, hloop.2⟩
    dsimp only
    rw [hloop.1, ofBits_octetBits]
    exact UInt8.ofNat_toNat
  · obtain ⟨hbs, hle, hbits⟩ := h
    have hfresh : z.bitsRead = 0 ∨ z.bitsRead = 8 := by
      rw [hbs] at hmid
      simp only [true_and] at hmid
      omega
    rw [partialBits_fresh hfresh, List.nil_append] at hbits
    obtain ⟨l, hleft, hl⟩ := unpack_eq_append hbits.symm
    obtain ⟨z', heq, hleft', hst, hbs', hread, -⟩ := readFreshByte_ok hleft
    rw [heq]
    refine ⟨rfl, ⟨hbs'.trans hbs, by rw [hread]; decide, ?_⟩, hst⟩
    rw [partialBits_fresh (.inl hread), hleft', hl]
    rfl

theorem readBytesLoop_ahead (b : Bytes) (h : Ahead R z (unpack b ++ bits)) :
    (readBytesLoop e b.length z).1 = b ∧ Ahead R (readBytesLoop e b.length z).2 bits ∧
      (readBytesLoop e b.length z).2.isStream = z.isStream := by
  induction b generalizing z with
  | nil => exact ⟨rfl, h, rfl⟩
  | cons c b ih =>
    rw [unpack_cons, List.append_assoc] at h
    obtain ⟨hc, hz, hst⟩ := zcioSerialReadByte_ahead h
    obtain ⟨hb, hz', hst'⟩ := ih hz
    simp only [List.length_cons, readBytesLoop]
    exact ⟨by rw [hc, hb], hz', hst'.trans hst⟩

/-- **Bulk octets**: from a stream at any alignment, from a buffer between two octets. -/
theorem zcioSerialReadBytes_ahead (dst b : Bytes) (hdst : dst.length = b.length)
    (hal : z.isStream = true ∨ b = [] ∨ bits.length % 8 = 0) (h : Ahead R z (unpack b ++ bits)) :
    ∃ z', zcioSerialReadBytes e z dst = (b.length, b, z') ∧ Ahead R z' bits ∧
      z'.isStream = z.isStream := by
  have hbs := h.packs
  by_cases hmode : z.isStream = true
  · obtain ⟨s, hs⟩ : ∃ s, z.mode = .stream s := by
      unfold Serial.isStream at hmode
      split at hmode
      next s heq => exact ⟨s, heq⟩
      next => contradiction
    have hloop := readBytesLoop_ahead (e := e) b h
    refine ⟨{ (readBytesLoop e b.length z).2 with lastRead := b.length }, ?_,
      ⟨hloop.2.1.packs, hloop.2.1.le, hloop.2.1.bits⟩, hloop.2.2⟩
    simp only [zcioSerialReadBytes, hbs, hs, hdst, hloop.1]
  · have heq : zcioSerialReadBytes e z dst = rawRead e z dst := by
      unfold zcioSerialReadBytes
      split
      next s _ hs => exact absurd (by simp [Serial.isStream, hs]) hmode
      next => rfl
    rw [heq, ← hdst]
    rcases (hal.resolve_left hmode) with rfl | hal
    · cases List.length_eq_zero_iff.mp hdst
      obtain ⟨z', hz', hleft, hst, hbs', hread, hcur⟩ :=
        rawRead_ok (e := e) R [] (z := z) (Nat.zero_le _)
      refine ⟨z', hz', ⟨hbs'.trans hbs, hread.trans_le h.le, ?_⟩, hst⟩
      have hsame : z'.partialBits = z.partialBits := by
        simp only [Serial.partialBits, hread, hcur]
      rw [hsame, hleft]
      exact h.bits
    · have hfresh := h.aligned.mp (by rw [List.length_append, length_unpack]; omega)
      have hbits := h.bits
      rw [partialBits_fresh hfresh, List.nil_append] at hbits
      -- what is left begins with `b`
      have hlen : b.length ≤ (z.left R).length := by
        have := congrArg List.length hbits
        rw [List.length_append, length_unpack, length_unpack] at this
        omega
      obtain ⟨z', hz', hleft, hst, hbs', hread, -⟩ :=
        rawRead_ok (e := e) R dst (z := z) (hdst.trans_le hlen)
      have htake : (z.left R).take dst.length = b := unpack_injective (by
        rw [unpack_take, ← hbits, hdst]
        exact List.take_left' (length_unpack b))
      refine ⟨z', by rw [hz', htake], ⟨hbs'.trans hbs, hread.trans_le h.le, ?_⟩, hst⟩
      rw [partialBits_fresh (by rwa [hread]), hleft, unpack_drop, ← hbits, hdst]
      exact (List.drop_left' (length_unpack b)).symm

/-! ### Values

Every kind of value is read back from its bits. -/

/-- The host reads its integers as it writes them. -/
theorem hostValue_hostOctets (e : SerialHost σ) {n v : Nat} (h : v < 2 ^ (8 * n)) :
    hostValue e (hostOctets e n v) = v := by
  unfold hostValue hostOctets
  split_ifs
  · rw [List.reverse_reverse, ofBits_octets, Nat.mod_eq_of_lt h]
  · rw [ofBits_octets, Nat.mod_eq_of_lt h]

theorem hostValue_lt (e : SerialHost σ) (b : Bytes) : hostValue e b < 2 ^ (8 * b.length) := by
  unfold hostValue
  refine lt_of_lt_of_eq (ofBits_lt _) ?_
  rw [length_unpack]
  split_ifs
  · rw [List.length_reverse]
  · rfl

/-- Octets are those of the integer that they stand for. -/
theorem hostOctets_hostValue (e : SerialHost σ) (b : Bytes) :
    hostOctets e b.length (hostValue e b) = b := by
  unfold hostValue hostOctets
  split_ifs
  · rw [← List.length_reverse, octets_ofBits, List.reverse_reverse]
  · exact octets_ofBits b

/-- What a value is read as: of an array of bits, each element's low bit. -/
def SerialVal.readAs : SerialVal → SerialVal
  | .bits b => .bits (b.map fun c => (c.toNat.testBit 0).toUInt8)
  | v => v

/-- A string that may be read again. -/
def strFits (stream : Bool) (n : Nat) : Prop := n < 2 ^ 64 - 1 ∧ (stream = true → n ≤ streamReadCap)

/-- The length is there. -/
theorem zcioSerialReadStr_eq {b : Bytes} {y : Serial σ}
    (h : zcioSerialReadBytes e z (List.replicate 8 0) = (8, b, y)) :
    zcioSerialReadStr e z = readStrBody e y (hostValue e b) := by
  unfold zcioSerialReadStr
  rw [h]
  rfl

theorem zcioSerialReadStr_ahead {s : Bytes} (hfits : strFits z.isStream s.length)
    (hal : z.isStream = true ∨ bits.length % 8 = 0)
    (h : Ahead R z (unpack (strOctets e s) ++ bits)) :
    (zcioSerialReadStr e z).1 = some s ∧ Ahead R (zcioSerialReadStr e z).2 bits ∧
      (zcioSerialReadStr e z).2.isStream = z.isStream := by
  unfold strOctets at h
  rw [unpack_append, List.append_assoc] at h
  have hmod : s.length % 2 ^ 64 = s.length := Nat.mod_eq_of_lt (by have := hfits.1; omega)
  obtain ⟨z', heq, hz', hst⟩ := zcioSerialReadBytes_ahead (e := e) (List.replicate 8 0)
    (hostOctets e 8 (s.length % 2 ^ 64)) (by simp)
    (hal.imp_right fun ha => .inr (by rw [List.length_append, length_unpack]; omega)) h
  have hn : hostValue e (hostOctets e 8 (s.length % 2 ^ 64)) = s.length := by
    rw [hostValue_hostOctets e (Nat.mod_lt _ (by decide)), hmod]
  -- the string is no longer than what may be there
  have hmax : s.length ≤ readStrMax z' := by
    unfold readStrMax
    have hbits := congrArg List.length hz'.bits
    rw [List.length_append, List.length_append, length_unpack, length_unpack] at hbits
    split
    next buf rpos wpos hmode =>
      have hnost : z.isStream = false := by rw [← hst]; simp only [Serial.isStream, hmode]
      have hal' := hal.resolve_left (by rw [hnost]; decide)
      have hfresh := hz'.aligned.mp (by rw [List.length_append, length_unpack]; omega)
      rw [partialBits_fresh hfresh] at hbits
      simp only [Serial.left, hmode, List.length_drop, List.length_nil] at hbits
      split
      · omega
      · omega
    next total wpos rpos hmode =>
      have hnost : z.isStream = false := by rw [← hst]; simp only [Serial.isStream, hmode]
      have hal' := hal.resolve_left (by rw [hnost]; decide)
      have hfresh := hz'.aligned.mp (by rw [List.length_append, length_unpack]; omega)
      rw [partialBits_fresh hfresh] at hbits
      simp only [Serial.left, hmode, List.length_nil] at hbits
      omega
    next s' hmode =>
      exact hfits.2 (by rw [← hst]; simp only [Serial.isStream, hmode])
  rw [length_hostOctets] at heq
  rw [zcioSerialReadStr_eq heq, hn]
  unfold readStrBody
  rw [if_neg (by have := hfits.1; omega)]
  by_cases hnil : s.length = 0
  · rw [if_pos hnil]
    cases List.length_eq_zero_iff.mp hnil
    exact ⟨rfl, hz', hst⟩
  · rw [if_neg hnil]
    obtain ⟨z'', heq', hz'', hst'⟩ := zcioSerialReadBytes_ahead (e := e)
      (List.replicate s.length 0) s (by simp) (hal.imp hst.trans .inr) hz'
    rw [heq']
    exact ⟨by simp, hz'', hst'.trans hst⟩

/-- **The read of a value** takes its bits. -/
theorem SerialVal.read_ahead (v : SerialVal) (hfits : ∀ s, v = .str s → strFits z.isStream s.length)
    (hal : z.isStream = true ∨ (v.op.isBulk → bits.length % 8 = 0))
    (h : Ahead R z (v.toBits e ++ bits)) :
    (v.op.read e z).1 = some v.readAs ∧ Ahead R (v.op.read e z).2 bits ∧
      (v.op.read e z).2.isStream = z.isStream := by
  cases v with
  | bit c =>
    have hbit := zcioSerialReadBit_ahead (e := e) h
    exact ⟨by simp only [op, SerialOp.read, hbit.1, readAs], hbit.2⟩
  | bits cs =>
    have hloop := readBitsLoop_ahead (e := e) (cs.map fun c => c.toNat.testBit 0) h
    rw [List.length_map] at hloop
    simp only [op, SerialOp.read, zcioSerialReadBits, h.packs, if_true, List.length_replicate,
      hloop.1, readAs, List.map_map, Function.comp_def, true_and]
    exact hloop.2
  | byte c =>
    have hbyte := zcioSerialReadByte_ahead (e := e) h
    exact ⟨by simp only [op, SerialOp.read, hbyte.1, readAs], hbyte.2⟩
  | bytes cs =>
    obtain ⟨z', heq, hz', hst⟩ := zcioSerialReadBytes_ahead (e := e)
      (List.replicate cs.length 0) cs (by simp) (hal.imp_right fun ha => by
        by_cases hnil : cs = []
        · exact .inl hnil
        · exact .inr (ha (by simpa [op, SerialOp.isBulk] using hnil))) h
    simp only [op, SerialOp.read, heq, readAs, true_and]
    exact ⟨hz', hst⟩
  | scalar t x =>
    obtain ⟨z', heq, hz', hst⟩ := zcioSerialReadBytes_ahead (e := e)
      (List.replicate t.size 0) (hostOctets e t.size x.toNat) (by simp)
      (hal.imp_right fun ha => .inr (ha rfl)) h
    simp only [op, SerialOp.read, zcioSerialReadScalar, heq, readAs, hostValue_hostOctets e x.isLt]
    exact ⟨by simp, hz', hst⟩
  | str s =>
    have hs := zcioSerialReadStr_ahead (e := e) (hfits s rfl) (hal.imp_right fun ha => ha rfl) h
    exact ⟨by simp only [op, SerialOp.read, hs.1, readAs, Option.map_some], hs.2⟩

theorem SerialOp.shift_of_isBulk {o : SerialOp} (h : o.isBulk = true) : o.shift = 0 := by
  cases o <;> first | rfl | contradiction

/-- Values one after the other. Between two octets the bits ahead are those of whole octets. -/
theorem serialRead_ahead (vs : List SerialVal)
    (hfits : ∀ s, .str s ∈ vs → strFits z.isStream s.length)
    (hal : z.isStream = true ∨
      ∃ n, (n + (vs.flatMap (SerialVal.toBits e) ++ bits).length) % 8 = 0 ∧
        bulkAligned n (vs.map SerialVal.op))
    (h : Ahead R z (vs.flatMap (SerialVal.toBits e) ++ bits)) :
    (serialRead e z (vs.map SerialVal.op)).1 = vs.map fun v => some v.readAs := by
  induction vs generalizing z with
  | nil => rfl
  | cons v vs ih =>
    rw [List.flatMap_cons, List.append_assoc] at h hal
    have hlen := v.length_toBits (e := e)
    obtain ⟨hv, hz, hst⟩ := v.read_ahead (fun s hs => hfits s (by simp [hs]))
      (hal.imp_right fun ⟨n, hn, ha⟩ hbulk => by
        have := ha.1 hbulk
        rw [SerialOp.shift_of_isBulk hbulk] at hlen
        rw [List.length_append] at hn
        omega) h
    have hvs := ih (fun s hs => by rw [hst]; exact hfits s (List.mem_cons_of_mem v hs))
      (hal.imp hst.trans fun ⟨n, hn, ha⟩ => ⟨n + v.op.shift, by
        rw [List.length_append] at hn
        omega, ha.2⟩) hz
    simp only [List.map_cons, serialRead, hv, hvs]

/-! ### The round trip -/

/-- **Round trip.** What a serial that packs bits writes to a stream, closed by
`zcio_serial_synchronize`, are the bits of the values, in the least number of octets; any stream
of these octets is read as the same values by the same operations. -/
theorem serial_round_trip {σ τ : Type} {vt : StreamVt σ} {ut : StreamVt τ} (bigEndian : Bool)
    (S : Sink vt) (R : Source ut) (vs : List SerialVal)
    (hstr : ∀ s, .str s ∈ vs → s.length ≤ streamReadCap) :
    let e : SerialHost σ := { toStreamVt := vt, bigEndian }
    let size := ((vs.flatMap (SerialVal.toBits e)).length + 7) / 8
    ∀ s, S.room s size →
      ∃ out, Serial.out (e := e) S (serialWrite e (zcioSerialNew s true) vs) = S.written s ++ out ∧
        out.length = size ∧
        ∀ r, R.rest r = out →
          (serialRead { toStreamVt := ut, bigEndian } (zcioSerialNew r true)
            (vs.map SerialVal.op)).1 = vs.map fun v => some v.readAs := by
  intro e size s hroom
  obtain ⟨out, hout, k, hk, hbits⟩ := serialWrite_packed (e := e) vs rfl (.inl rfl)
    (zcioSerialNew_packed hroom (by omega))
  refine ⟨out, hout, length_of_unpack hk hbits, fun r hr => ?_⟩
  -- the same bits are ahead of the reads
  have hahead : Ahead (e := { toStreamVt := ut, bigEndian }) R (zcioSerialNew r true)
      (vs.flatMap (SerialVal.toBits { toStreamVt := ut, bigEndian }) ++
        List.replicate k false) :=
    ⟨rfl, le_rfl, by simp only [Serial.left, zcioSerialNew, hr]; exact hbits.symm⟩
  refine serialRead_ahead vs (fun x hx => ⟨?_, fun _ => hstr x hx⟩) (.inl rfl) hahead
  exact lt_of_le_of_lt (hstr x hx) (by decide)

/-- A bit, an octet across the alignment and a string: 89 bits, and 12 octets. -/
theorem serial_round_trip_mixed :
    let vs : List SerialVal := [.bit true, .byte 0xAB, .str [104, 105]]
    ∃ out, out.length = 12 ∧
      (serialRead { toStreamVt := memVt } (zcioSerialNew { data := out } true)
        (vs.map SerialVal.op)).1 = vs.map some := by
  obtain ⟨out, -, hlen, hread⟩ := serial_round_trip false memSink memSource
    [.bit true, .byte 0xAB, .str [104, 105]]
    (by intro s hs; simp at hs; subst hs; decide)
    { data := List.replicate 12 0 } (by show 0 + _ ≤ 12; decide)
  exact ⟨out, hlen, hread { data := out } rfl⟩

end Zcio
