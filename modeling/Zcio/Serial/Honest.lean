import Zcio.Serial.Block
import Zcio.Serial.RoundTrip
import Zcio.Serial.Tally

/-!
# Zcio.Serial.Honest

The counts that the serializer returns against the octets that it has moved, in any state that
calls can lead to and over a stream of any behaviour. They agree but for bit-packed streams, where
`zcio_serial_write_bytes` and `zcio_serial_read_bytes` return `size` whatever the stream does.
-/

namespace Zcio

open Lib.Bits (octetBits ofBits octetBits_ofBits)

variable {σ : Type}

/-! ### Reached states

The states that calls lead to. Between two calls the bits not yet written, and those not yet
read, make one octet at most. -/

/-- The states that calls on a new serializer lead to. -/
inductive Serial.Reached (e : SerialHost σ) (seek : σ → UInt64 → SeekWhich → σ) : Serial σ → Prop
  | new (s : σ) (bitStream : Bool) : Reached e seek (zcioSerialNew s bitStream)
  | newCount : Reached e seek zcioSerialNewCount
  | newBuffer (buf : Bytes) (bitStream : Bool) : Reached e seek (zcioSerialNewBuffer buf bitStream)
  | call {z : Serial σ} (h : Reached e seek z) (call : SerialCall) : Reached e seek (call.run e seek z)

/-- The octets in progress are sound: pending bits under no others, and at most an octet read off. -/
structure Serial.Aligned (z : Serial σ) : Prop where
  pends : ∃ p, z.Pends p
  read : z.bitsRead ≤ 8

variable {e : SerialHost σ} {z y : Serial σ}

/-- Reads leave the pending bits alone. -/
theorem Serial.Aligned.reads (h : z.Aligned) (hwritten : y.bitsWritten = z.bitsWritten)
    (hcur : y.curWriteByte = z.curWriteByte) (hread : y.bitsRead ≤ 8) : y.Aligned := by
  obtain ⟨p, hlt, hz, hc⟩ := h.pends
  exact ⟨⟨p, hlt, hwritten.trans hz, hcur.trans hc⟩, hread⟩

theorem writeWholeByte_aligned (hread : z.bitsRead ≤ 8) (c : UInt8) : (writeWholeByte e z c).Aligned := by
  rw [writeWholeByte, rawWrite_mode]
  exact ⟨⟨[], Nat.zero_lt_succ 7, rfl, rfl⟩, hread⟩

theorem zcioSerialWriteBit_aligned (h : z.Aligned) (c : Bool) : (zcioSerialWriteBit e z c).Aligned := by
  obtain ⟨⟨p, hlt, hwritten, hcur⟩, hread⟩ := h
  rw [zcioSerialWriteBit, hwritten, hcur, or_shift_octet]
  split
  · refine writeWholeByte_aligned ?_ _
    exact hread
  · rename_i hpart
    have hpart' : p.length + 1 ≠ 8 := hpart
    refine ⟨⟨p ++ [c], ?_, ?_, rfl⟩, hread⟩
    · rw [List.length_append, List.length_singleton]
      omega
    · rw [List.length_append, List.length_singleton]

/-- What each step of a `foldl` keeps is kept by all of it. -/
theorem foldl_aligned {α : Type} {f : Serial σ → α → Serial σ} (hf : ∀ {z} a, z.Aligned → (f z a).Aligned)
    (as : List α) (h : z.Aligned) : (as.foldl f z).Aligned := by
  induction as generalizing z with
  | nil => exact h
  | cons a as ih => exact ih (hf a h)

theorem zcioSerialWriteByte_aligned (c : UInt8) (h : z.Aligned) : (zcioSerialWriteByte e z c).Aligned := by
  rw [zcioSerialWriteByte]
  split
  · exact foldl_aligned (fun b hb => zcioSerialWriteBit_aligned hb b) _ h
  · exact writeWholeByte_aligned h.read c

theorem rawWrite_aligned (h : z.Aligned) (src : Bytes) : (rawWrite e z src).2.Aligned := by
  rw [rawWrite_mode]
  exact h.reads rfl rfl h.read

theorem zcioSerialWriteBytes_aligned (h : z.Aligned) (src : Bytes) : (zcioSerialWriteBytes e z src).2.Aligned := by
  rw [zcioSerialWriteBytes]
  split
  · exact foldl_aligned (fun c hc => zcioSerialWriteByte_aligned c hc) src h
  · exact rawWrite_aligned h src

theorem SerialVal.write_aligned (v : SerialVal) (h : z.Aligned) : (v.write e z).Aligned := by
  cases v with
  | bit b => exact zcioSerialWriteBit_aligned h b
  | bits b =>
    rw [SerialVal.write, zcioSerialWriteBits]
    split
    · exact foldl_aligned (fun c hc => zcioSerialWriteBit_aligned hc _) b h
    · exact h
  | byte b => exact zcioSerialWriteByte_aligned b h
  | bytes b => exact zcioSerialWriteBytes_aligned h b
  | scalar t v => exact zcioSerialWriteBytes_aligned h _
  | str s =>
    have hlen := zcioSerialWriteBytes_aligned (e := e) h (hostOctets e 8 (s.length % 2 ^ 64))
    rw [SerialVal.write, zcioSerialWriteStr]
    split
    · exact zcioSerialWriteBytes_aligned hlen s
    · exact hlen

theorem rawRead_aligned (h : z.Aligned) (dst : Bytes) : (rawRead e z dst).2.2.Aligned := by
  obtain ⟨hwritten, hcur, hread⟩ := rawRead_bits e z dst
  exact h.reads hwritten hcur (hread.trans_le h.read)

theorem readFreshByte_aligned (h : z.Aligned) : (readFreshByte e z).2.Aligned := by
  obtain ⟨hwritten, hcur, -⟩ := rawRead_bits e z [0]
  exact h.reads hwritten hcur (Nat.zero_le 8)

theorem zcioSerialReadBit_aligned (h : z.Aligned) : (zcioSerialReadBit e z).2.Aligned := by
  have hle := h.read
  rw [zcioSerialReadBit]
  split
  · exact (readFreshByte_aligned h).reads rfl rfl (Nat.succ_le_of_lt (Nat.zero_lt_succ 7))
  · exact h.reads rfl rfl (by simp only; omega)

theorem readBitsLoop_aligned (n : Nat) (h : z.Aligned) : (readBitsLoop e n z).2.Aligned := by
  induction n generalizing z with
  | zero => exact h
  | succ n ih => exact ih (zcioSerialReadBit_aligned h)

theorem zcioSerialReadByte_aligned (h : z.Aligned) : (zcioSerialReadByte e z).2.Aligned := by
  rw [zcioSerialReadByte]
  split
  · exact readBitsLoop_aligned 8 h
  · exact readFreshByte_aligned h

theorem readBytesLoop_aligned (n : Nat) (h : z.Aligned) : (readBytesLoop e n z).2.Aligned := by
  induction n generalizing z with
  | zero => exact h
  | succ n ih => exact ih (zcioSerialReadByte_aligned h)

theorem zcioSerialReadBytes_aligned (h : z.Aligned) (dst : Bytes) : (zcioSerialReadBytes e z dst).2.2.Aligned := by
  rw [zcioSerialReadBytes]
  split
  · exact (readBytesLoop_aligned dst.length h).reads rfl rfl (readBytesLoop_aligned dst.length h).read
  · exact rawRead_aligned h dst

theorem zcioSerialReadStr_aligned (h : z.Aligned) : (zcioSerialReadStr e z).2.Aligned := by
  have hlen := zcioSerialReadBytes_aligned (e := e) h (List.replicate 8 0)
  rw [zcioSerialReadStr]
  dsimp only
  split
  · exact hlen
  · rw [readStrBody]
    split
    · exact hlen
    · split
      · exact hlen
      · exact zcioSerialReadBytes_aligned hlen _

theorem SerialOp.read_aligned (op : SerialOp) (h : z.Aligned) : (op.read e z).2.Aligned := by
  cases op with
  | bit => exact zcioSerialReadBit_aligned h
  | bits n =>
    rw [SerialOp.read, zcioSerialReadBits]
    cases z.bitStream with
    | true => exact readBitsLoop_aligned _ h
    | false => exact h
  | byte => exact zcioSerialReadByte_aligned h
  | bytes n => exact zcioSerialReadBytes_aligned h _
  | scalar t => exact zcioSerialReadBytes_aligned h _
  | str => exact zcioSerialReadStr_aligned h

theorem zcioSerialSynchronize_aligned (h : z.Aligned) : (zcioSerialSynchronize e z).Aligned := by
  rw [zcioSerialSynchronize]
  split
  · rw [zcioSerialWriteByte_full rfl]
    refine writeWholeByte_aligned ?_ _
    exact h.read
  · exact h

/-- **Reached states** are aligned. -/
theorem Serial.Reached.aligned {seek : σ → UInt64 → SeekWhich → σ} (h : z.Reached e seek) : z.Aligned := by
  induction h with
  | new | newCount | newBuffer => exact ⟨⟨[], Nat.zero_lt_succ 7, rfl, rfl⟩, Nat.le_refl 8⟩
  | @call z _ call ih =>
    cases call with
    | write v => exact v.write_aligned ih
    | read op => exact op.read_aligned ih
    | synchronize => exact zcioSerialSynchronize_aligned ih
    | setWritePos i =>
      rw [SerialCall.run, zcioSerialSetWritePos]
      split <;> exact ih.reads rfl rfl ih.read
    | setReadPos i =>
      rw [SerialCall.run, zcioSerialSetReadPos]
      split <;> exact ih.reads rfl rfl ih.read

/-! ### Counts

What a call says it has moved, and what it has moved. -/

section Counts

variable (e : SerialHost σ)

/-- The octets of the medium that were stored from `z` to `z'`: the stream has taken them, or the
write position has passed them. -/
def Serial.stored (z z' : Serial (Tally σ)) : Nat :=
  match z.mode, z'.mode with
  | .stream t, .stream t' => t'.put - t.put
  | .count _ wpos _, .count _ wpos' _ => (((wpos' : Int) - wpos) % 2 ^ 64).toNat
  | .buffer _ _ wpos, .buffer _ _ wpos' => wpos' - wpos
  | _, _ => 0

/-- The octets of the medium that were obtained from `z` to `z'`. -/
def Serial.obtained (z z' : Serial (Tally σ)) : Nat :=
  match z.mode, z'.mode with
  | .stream t, .stream t' => t'.got - t.got
  | .count _ _ rpos, .count _ _ rpos' => (((rpos' : Int) - rpos) % 2 ^ 64).toNat
  | .buffer _ rpos _, .buffer _ rpos' _ => rpos' - rpos
  | _, _ => 0

/-- `zcio_serial_write_bytes` returns the number of octets it stores in the medium. A code that is
returned says that there are none. -/
def WriteHonest (z : Serial (Tally σ)) (src : Bytes) : Prop :=
  let (r, z') := zcioSerialWriteBytes (tallied e) z src
  z'.strayed = false ∧
    match r with
    | .ok n => n = z.stored z'
    | .error _ => z.stored z' = 0

/-- `zcio_serial_read_bytes` returns the number of octets it obtains from the medium, which is
`zcio_serial_last_read` from then on. -/
def ReadHonest (z : Serial (Tally σ)) (dst : Bytes) : Prop :=
  let (r, _, z') := zcioSerialReadBytes (tallied e) z dst
  z'.strayed = false ∧ r = z.obtained z' ∧ z'.lastRead = z.obtained z'

/-- `zcio_serial_read_str` returns no more octets than it obtains behind the length. -/
def StrHonest (z : Serial (Tally σ)) : Prop :=
  let (_, _, z₁) := zcioSerialReadBytes (tallied e) z (List.replicate 8 0)
  let (s, z') := zcioSerialReadStr (tallied e) z
  z₁.strayed = false ∧ z'.strayed = false ∧
    match s with
    | some s => s.length ≤ z₁.obtained z'
    | none => True

/-- The bits that wait for an octet to be full. -/
def Serial.pendingBits (z : Serial σ) : List Bool := (octetBits z.curWriteByte).take z.bitsWritten

/-- A copy of `n` octets at a position of a block does not leave the block. -/
def KeepsInside (size pos n : Nat) : Prop := pos ≤ size ∨ n = 0 ∨ bufferCap size pos < n

/-- A read of `n` octets does not leave the block of a buffer. -/
def Serial.ReadsInside (z : Serial σ) (n : Nat) : Prop :=
  match z.mode with
  | .buffer buf rpos _ => KeepsInside buf.length rpos n
  | _ => True

/-- The medium is not a bit-packed stream, or it takes each octet. -/
def TakesAll (z : Serial (Tally σ)) (src : Bytes) : Prop :=
  match z.mode with
  | .stream t => z.bitStream = true → takesEach e (packedOctets z.pendingBits src) t
  | .count .. => True
  | .buffer buf _ wpos => KeepsInside buf.length wpos src.length

/-- The medium is not a bit-packed stream, or it gives each octet. -/
def GivesAll (z : Serial (Tally σ)) (n : Nat) : Prop :=
  match z.mode with
  | .stream t => z.bitStream = true → givesEach e n t
  | .count .. => True
  | .buffer buf rpos _ => KeepsInside buf.length rpos n

/-- The length is in the block of a buffer, and the octets it declares are there: no string is
accepted, or the medium gives all of it. -/
def GivesStr (z : Serial (Tally σ)) : Prop :=
  let (r, b, z₁) := zcioSerialReadBytes (tallied e) z (List.replicate 8 0)
  z.ReadsInside 8 ∧
    (r ≠ 8 ∨ hostValue (tallied e) b = 2 ^ 64 - 1 ∨ readStrMax z₁ < hostValue (tallied e) b ∨
      GivesAll e z₁ (hostValue (tallied e) b))

end Counts

variable {z : Serial (Tally σ)}

theorem Serial.Pends.pendingBits {z : Serial σ} {p : List Bool} (h : z.Pends p) : z.pendingBits = p := by
  rw [Serial.pendingBits, h.cur, h.written, octetBits_ofBits (Nat.le_of_lt h.lt)]
  exact List.take_left' rfl

theorem Serial.stored_stream {z' : Serial (Tally σ)} {t t' : Tally σ} (h : z.mode = .stream t)
    (h' : z'.mode = .stream t') : z.stored z' = t'.put - t.put := by
  rw [Serial.stored, h, h']

theorem Serial.obtained_stream {z' : Serial (Tally σ)} {t t' : Tally σ} (h : z.mode = .stream t)
    (h' : z'.mode = .stream t') : z.obtained z' = t'.got - t.got := by
  rw [Serial.obtained, h, h']

/-- A copy that stays inside is one of the octets that are left. -/
theorem keepsInside_iff {size pos n : Nat} (hfits : n ≤ bufferCap size pos) :
    KeepsInside size pos n ↔ n ≤ size - pos := by
  rw [KeepsInside]
  constructor
  · rintro (hpos | rfl | hshort)
    · rwa [bufferCap_eq hpos] at hfits
    · exact Nat.zero_le _
    · exact absurd hfits (Nat.not_le.mpr hshort)
  · intro hle
    by_cases hpos : pos ≤ size
    · exact .inl hpos
    · exact .inr (.inl (by omega))

/-- The position in count mode goes on modulo 2^64. -/
theorem count_advance (pos : Nat) {n : Nat} (hn : n < 2 ^ 64) :
    (((((pos + n) % 2 ^ 64 : Nat) : Int) - pos) % 2 ^ 64).toNat = n := by
  omega

/-! ### Writes

A write is honest exactly if its sink has taken what it was given. -/

theorem zcioSerialWriteBytes_bulk {e : SerialHost σ} {z : Serial σ} (src : Bytes)
    (h : z.bitStream = true → ∀ s, z.mode ≠ .stream s) :
    zcioSerialWriteBytes e z src = rawWrite e z src := by
  rw [zcioSerialWriteBytes]
  split
  next s hbits hmode => exact absurd hmode (h hbits s)
  next => rfl

theorem writeHonest_count {total wpos rpos : Nat} (hmode : z.mode = .count total wpos rpos) (hin : z.strayed = false)
    {src : Bytes} (hsrc : src.length < 2 ^ 64) : WriteHonest e z src := by
  rw [WriteHonest, zcioSerialWriteBytes_bulk src (by rw [hmode]; nofun), rawWrite, hmode]
  refine ⟨hin, ?_⟩
  rw [Serial.stored, hmode]
  exact (count_advance wpos hsrc).symm

theorem writeHonest_buffer {buf : Bytes} {rpos wpos : Nat} (hmode : z.mode = .buffer buf rpos wpos)
    (hin : z.strayed = false) (src : Bytes) : WriteHonest e z src ↔ KeepsInside buf.length wpos src.length := by
  rw [WriteHonest, zcioSerialWriteBytes_bulk src (by rw [hmode]; nofun), rawWrite, hmode]
  dsimp only
  by_cases hshort : src.length > bufferCap buf.length wpos
  · rw [if_pos hshort]
    refine iff_of_true ⟨hin, ?_⟩ (.inr (.inr hshort))
    rw [Serial.stored, hmode]
    exact (Nat.sub_self wpos).symm
  rw [if_neg hshort, keepsInside_iff (Nat.not_lt.mp hshort)]
  by_cases hfits : src.length ≤ buf.length - wpos
  · rw [if_pos hfits]
    refine iff_of_true ⟨hin, ?_⟩ hfits
    rw [Serial.stored, hmode]
    exact (Nat.add_sub_cancel_left wpos src.length).symm
  · rw [if_neg hfits]
    exact iff_of_false (fun hhonest => Bool.noConfusion hhonest.1) hfits

/-- Over a stream, without bits: the count is that of `zcio_write_full`. -/
theorem writeHonest_plain {t : Tally σ} (hmode : z.mode = .stream t) (hplain : z.bitStream = false)
    (hin : z.strayed = false) (src : Bytes) : WriteHonest e z src := by
  rw [WriteHonest, zcioSerialWriteBytes_bulk src (by rw [hplain]; nofun), rawWrite, hmode]
  obtain ⟨r, t', hwrite, -, hput⟩ | ⟨err, t', hwrite, hput⟩ := zcioWriteFull_tallied e t src
  · simp only [hwrite]
    refine ⟨hin, ?_⟩
    rw [Serial.stored_stream hmode rfl, hput]
    exact (Nat.add_sub_cancel_left t.put r).symm
  · simp only [hwrite]
    refine ⟨hin, ?_⟩
    rw [Serial.stored_stream hmode rfl, hput]
    exact Nat.sub_self t.put

/-- Over a bit-packed stream `size` is returned: true if each octet was taken. -/
theorem writeHonest_packed (h : z.Aligned) {t : Tally σ} (hmode : z.mode = .stream t) (hpacks : z.bitStream = true)
    (hin : z.strayed = false) (src : Bytes) :
    WriteHonest e z src ↔ takesEach e (packedOctets z.pendingBits src) t := by
  obtain ⟨p, hpends⟩ := h.pends
  obtain ⟨p', hmode', -, hin', -⟩ := foldl_writeByte_onStream (e := e) src ⟨hmode, hpacks, hin, hpends⟩
  obtain ⟨hle, -, hall⟩ := putEach_put e (packedOctets p src) t
  rw [length_packedOctets] at hall
  rw [hpends.pendingBits, ← hall, WriteHonest, zcioSerialWriteBytes, hpacks, hmode]
  dsimp only
  rw [and_iff_right hin', Serial.stored_stream hmode hmode']
  omega

/-- **`zcio_serial_write_bytes`** is honest just where no bit-packed stream refuses an octet and no
copy leaves a block. -/
theorem writeHonest_iff (h : z.Aligned) (hin : z.strayed = false) {src : Bytes} (hsrc : src.length < 2 ^ 64) :
    WriteHonest e z src ↔ TakesAll e z src := by
  rw [TakesAll]
  split
  next t hmode =>
    cases hpacks : z.bitStream with
    | true =>
      rw [writeHonest_packed h hmode hpacks hin]
      exact (imp_iff_right rfl).symm
    | false => exact iff_of_true (writeHonest_plain hmode hpacks hin src) nofun
  next hmode => exact iff_of_true (writeHonest_count hmode hin hsrc) trivial
  next hmode => exact writeHonest_buffer hmode hin src

/-! ### Reads

A read is honest exactly if its source has given what was asked for. -/

variable (e) in
/-- What is true of any bulk read: `last_read` is what is returned, and no more than that was
obtained. All of it was just if `All`. -/
structure ReadSpec (z : Serial (Tally σ)) (dst : Bytes) (All : Prop) : Prop where
  inside : (zcioSerialReadBytes (tallied e) z dst).2.2.strayed = false ↔ z.ReadsInside dst.length
  last : (zcioSerialReadBytes (tallied e) z dst).2.2.lastRead = (zcioSerialReadBytes (tallied e) z dst).1
  le : (zcioSerialReadBytes (tallied e) z dst).2.2.strayed = false →
    z.obtained (zcioSerialReadBytes (tallied e) z dst).2.2 ≤ (zcioSerialReadBytes (tallied e) z dst).1
  all : (zcioSerialReadBytes (tallied e) z dst).2.2.strayed = false ∧
    (zcioSerialReadBytes (tallied e) z dst).1 ≤ z.obtained (zcioSerialReadBytes (tallied e) z dst).2.2 ↔ All

theorem zcioSerialReadBytes_bulk {e : SerialHost σ} {z : Serial σ} (dst : Bytes)
    (h : z.bitStream = true → ∀ s, z.mode ≠ .stream s) :
    zcioSerialReadBytes e z dst = rawRead e z dst := by
  rw [zcioSerialReadBytes]
  split
  next s hbits hmode => exact absurd hmode (h hbits s)
  next => rfl

theorem readSpec_count {total wpos rpos : Nat} (hmode : z.mode = .count total wpos rpos) (hin : z.strayed = false)
    {dst : Bytes} (hdst : dst.length < 2 ^ 64) : ReadSpec e z dst True := by
  have hread : zcioSerialReadBytes (tallied e) z dst = (dst.length, dst, { z with
      mode := .count total wpos ((rpos + dst.length) % 2 ^ 64), lastRead := dst.length }) := by
    rw [zcioSerialReadBytes_bulk dst (by rw [hmode]; nofun), rawRead, hmode]
  have hobtained : z.obtained (zcioSerialReadBytes (tallied e) z dst).2.2 = dst.length := by
    rw [hread, Serial.obtained, hmode]
    exact count_advance rpos hdst
  rw [hread] at hobtained
  constructor
  · rw [hread, Serial.ReadsInside, hmode]
    exact iff_of_true hin trivial
  · rw [hread]
  · rw [hread, hobtained]
    exact fun _ => Nat.le_refl _
  · rw [hread, hobtained]
    exact iff_of_true ⟨hin, Nat.le_refl _⟩ trivial

theorem readSpec_buffer {buf : Bytes} {rpos wpos : Nat} (hmode : z.mode = .buffer buf rpos wpos)
    (hin : z.strayed = false) (dst : Bytes) : ReadSpec e z dst (KeepsInside buf.length rpos dst.length) := by
  have hraw := zcioSerialReadBytes_bulk (e := tallied e) (z := z) dst (by rw [hmode]; nofun)
  rw [rawRead, hmode] at hraw
  dsimp only at hraw
  by_cases hcap : dst.length ≤ bufferCap buf.length rpos
  · rw [if_pos hcap] at hraw
    by_cases hfits : dst.length ≤ buf.length - rpos
    · rw [if_pos hfits] at hraw
      have hobtained : z.obtained (zcioSerialReadBytes (tallied e) z dst).2.2 = dst.length := by
        rw [hraw, Serial.obtained, hmode]
        exact Nat.add_sub_cancel_left rpos dst.length
      rw [hraw] at hobtained
      constructor
      · rw [hraw, Serial.ReadsInside, hmode]
        exact iff_of_true hin ((keepsInside_iff hcap).mpr hfits)
      · rw [hraw]
      · rw [hraw, hobtained]
        exact fun _ => Nat.le_refl _
      · rw [hraw, hobtained, keepsInside_iff hcap]
        exact iff_of_true ⟨hin, Nat.le_refl _⟩ hfits
    · rw [if_neg hfits] at hraw
      constructor
      · rw [hraw, Serial.ReadsInside, hmode]
        exact iff_of_false (fun hstray => Bool.noConfusion hstray) (fun hkeeps => hfits ((keepsInside_iff hcap).mp hkeeps))
      · rw [hraw]
      · rw [hraw]
        exact fun hstray => Bool.noConfusion hstray
      · rw [hraw, keepsInside_iff hcap]
        exact iff_of_false (fun hall => Bool.noConfusion hall.1) hfits
  · rw [if_neg hcap] at hraw
    constructor
    · rw [hraw, Serial.ReadsInside, hmode]
      exact iff_of_true hin (.inr (.inr (Nat.not_le.mp hcap)))
    · rw [hraw]
    · rw [hraw, Serial.obtained, hmode]
      exact fun _ => Nat.le_of_eq (Nat.sub_self rpos)
    · rw [hraw]
      exact iff_of_true ⟨hin, Nat.zero_le _⟩ (.inr (.inr (Nat.not_le.mp hcap)))

/-- Over a stream, without bits: the count is that of `zcio_read_full`, and 0 for an error. -/
theorem readSpec_plain {t : Tally σ} (hmode : z.mode = .stream t) (hplain : z.bitStream = false)
    (hin : z.strayed = false) (dst : Bytes) : ReadSpec e z dst True := by
  have hraw := zcioSerialReadBytes_bulk (e := tallied e) (z := z) dst (by rw [hplain]; nofun)
  obtain ⟨hmode', -, hin'⟩ := rawRead_onStream (e := e) hmode dst
  rw [← hraw] at hmode' hin'
  have hcount : (rawRead (tallied e) z dst).1 = (zcioReadFull (tallied e).read t dst.length).2.got - t.got ∧
      (rawRead (tallied e) z dst).2.2.lastRead = (rawRead (tallied e) z dst).1 := by
    rw [rawRead, hmode]
    obtain ⟨b, t', hread, -, hgot⟩ | ⟨err, t', hread, hgot⟩ := zcioReadFull_tallied e t dst.length
    · simp only [hread]
      refine ⟨by rw [hgot, Nat.add_sub_cancel_left], ?_⟩
      split_ifs <;> rfl
    · simp only [hread]
      exact ⟨by rw [hgot, Nat.sub_self], trivial⟩
  rw [← hraw, ← Serial.obtained_stream hmode hmode'] at hcount
  obtain ⟨hcount, hlast⟩ := hcount
  refine ⟨?_, hlast, fun _ => Nat.le_of_eq hcount.symm,
    iff_of_true ⟨hin'.trans hin, Nat.le_of_eq hcount⟩ trivial⟩
  rw [Serial.ReadsInside, hmode]
  exact iff_of_true (hin'.trans hin) trivial

/-- Over a bit-packed stream `size` is returned: true if each octet was there. -/
theorem readSpec_packed (h : z.Aligned) {t : Tally σ} (hmode : z.mode = .stream t) (hpacks : z.bitStream = true)
    (hin : z.strayed = false) (dst : Bytes) : ReadSpec e z dst (givesEach e dst.length t) := by
  obtain ⟨hmode', -, hin', -⟩ := readBytesLoop_draws (e := e) dst.length ⟨hmode, hpacks, hin, h.read⟩
  obtain ⟨hge, hle, hall⟩ := getEach_got e dst.length t
  have hread : zcioSerialReadBytes (tallied e) z dst = (dst.length, (readBytesLoop (tallied e) dst.length z).1,
      { (readBytesLoop (tallied e) dst.length z).2 with lastRead := dst.length }) := by
    rw [zcioSerialReadBytes, hpacks, hmode]
  have hobtained : z.obtained { (readBytesLoop (tallied e) dst.length z).2 with lastRead := dst.length } =
      (getEach e dst.length t).got - t.got := Serial.obtained_stream hmode hmode'
  constructor
  · rw [hread, Serial.ReadsInside, hmode]
    exact iff_of_true hin' trivial
  · rw [hread]
  · rw [hread, hobtained]
    exact fun _ => by omega
  · rw [hread, hobtained, and_iff_right hin', ← hall]
    omega

theorem readSpec (h : z.Aligned) (hin : z.strayed = false) (dst : Bytes) (hdst : dst.length < 2 ^ 64) :
    ReadSpec e z dst (GivesAll e z dst.length) := by
  rw [GivesAll]
  split
  next t hmode =>
    cases hpacks : z.bitStream with
    | true =>
      rw [imp_iff_right rfl]
      exact readSpec_packed h hmode hpacks hin dst
    | false =>
      rw [iff_true_intro (fun hfalse : false = true => absurd hfalse Bool.false_ne_true)]
      exact readSpec_plain hmode hpacks hin dst
  next hmode => exact readSpec_count hmode hin hdst
  next hmode => exact readSpec_buffer hmode hin dst

/-- **`zcio_serial_read_bytes`** is honest just where no bit-packed stream falls short and no copy
leaves a block. -/
theorem readHonest_iff (h : z.Aligned) (hin : z.strayed = false) (dst : Bytes) (hdst : dst.length < 2 ^ 64) :
    ReadHonest e z dst ↔ GivesAll e z dst.length := by
  obtain ⟨-, hlast, hle, hall⟩ := readSpec (e := e) h hin dst hdst
  rw [ReadHonest, ← hall]
  dsimp only
  rw [hlast]
  refine and_congr_right fun hstray => ?_
  constructor
  · exact fun heq => Nat.le_of_eq heq.1
  · intro hge
    have heq := Nat.le_antisymm hge (hle hstray)
    exact ⟨heq, heq⟩

/-! ### Strings

A text is two reads, of its length and of its octets. -/

/-- A bulk read fills the memory it is given, and counts no more than that. -/
theorem zcioSerialReadBytes_length (z : Serial (Tally σ)) (dst : Bytes) :
    (zcioSerialReadBytes (tallied e) z dst).2.1.length = dst.length ∧
      (zcioSerialReadBytes (tallied e) z dst).1 ≤ dst.length := by
  rw [zcioSerialReadBytes]
  split
  · exact ⟨readBytesLoop_length dst.length z, Nat.le_refl _⟩
  rw [rawRead]
  split
  · exact ⟨rfl, Nat.le_refl _⟩
  next buf rpos wpos _ =>
    split_ifs with hcap hfits
    · refine ⟨?_, Nat.le_refl _⟩
      rw [List.length_take_of_le]
      rwa [List.length_drop]
    · -- as much as is in the block behind its start
      refine ⟨?_, Nat.le_refl _⟩
      unfold bufferCap at hcap
      simp only [strayRead, List.length_append, List.length_take]
      split_ifs at hcap <;> omega
    · exact ⟨rfl, Nat.zero_le _⟩
  next t _ =>
    obtain ⟨b, t', hread, hle, -⟩ | ⟨err, t', hread, -⟩ := zcioReadFull_tallied e t dst.length
    · rw [hread]
      refine ⟨?_, hle⟩
      rw [List.length_append, List.length_drop]
      omega
    · rw [hread]
      exact ⟨rfl, Nat.zero_le _⟩

theorem givesAll_zero (z : Serial (Tally σ)) : GivesAll e z 0 := by
  rw [GivesAll]
  split
  · exact fun _ => trivial
  · trivial
  · exact .inr (.inl rfl)

/-- The string behind a length. -/
theorem readStrBody_honest (h : z.Aligned) (hin : z.strayed = false) {n : Nat} (hn : n < 2 ^ 64) :
    ((readStrBody (tallied e) z n).2.strayed = false ∧
        match (readStrBody (tallied e) z n).1 with
        | some s => s.length ≤ z.obtained (readStrBody (tallied e) z n).2
        | none => True) ↔
      (n = 2 ^ 64 - 1 ∨ readStrMax z < n ∨ GivesAll e z n) := by
  rw [readStrBody]
  by_cases hdeclared : n = 2 ^ 64 - 1 ∨ n > readStrMax z
  · rw [if_pos hdeclared, ← or_assoc]
    exact iff_of_true ⟨hin, trivial⟩ (.inl hdeclared)
  rw [if_neg hdeclared, ← or_assoc, or_iff_right hdeclared]
  by_cases hzero : n = 0
  · rw [if_pos hzero, hzero]
    exact iff_of_true ⟨hin, Nat.zero_le _⟩ (givesAll_zero z)
  · rw [if_neg hzero]
    obtain ⟨-, -, -, hall⟩ := readSpec (e := e) h hin (List.replicate n 0) (by rwa [List.length_replicate])
    obtain ⟨hlen, hle⟩ := zcioSerialReadBytes_length (e := e) z (List.replicate n 0)
    rw [List.length_replicate] at hall
    rw [← hall]
    dsimp only
    rw [List.length_take_of_le (hle.trans_eq hlen.symm)]

/-- **`zcio_serial_read_str`** is honest just where the octets that the length declares are there. -/
theorem strHonest_iff (h : z.Aligned) (hin : z.strayed = false) : StrHonest e z ↔ GivesStr e z := by
  have haligned := zcioSerialReadBytes_aligned (e := tallied e) h (List.replicate 8 0)
  have hlen := (zcioSerialReadBytes_length (e := e) z (List.replicate 8 0)).1
  have hinside := (readSpec (e := e) h hin (List.replicate 8 0) (by decide)).inside
  rw [List.length_replicate] at hinside
  rw [StrHonest, GivesStr, zcioSerialReadStr, ← hinside]
  generalize zcioSerialReadBytes (tallied e) z (List.replicate 8 0) = res at haligned hlen ⊢
  obtain ⟨r, b, z₁⟩ := res
  dsimp only at haligned hlen ⊢
  refine and_congr_right fun hin₁ => ?_
  by_cases hr : r ≠ 8
  · rw [if_pos hr]
    exact iff_of_true ⟨hin₁, trivial⟩ (.inl hr)
  · rw [if_neg hr, or_iff_right hr]
    have hlt := hostValue_lt (tallied e) b
    rw [hlen] at hlt
    exact readStrBody_honest haligned hin₁ hlt

/-! ### Any reached state -/

/-- **Transfer counts**, in any mode and any state that calls lead to, over a stream of any
behaviour, as long as nothing outside of a block has been touched: those of bulk writes and reads
and the length of a string are honest just if a bit-packed stream takes and gives each octet, and
the copy does not leave the block of a buffer. -/
theorem serial_counts_honest (seek : Tally σ → UInt64 → SeekWhich → Tally σ) (h : z.Reached (tallied e) seek)
    (hin : z.strayed = false) :
    (∀ src : Bytes, src.length < 2 ^ 64 → (WriteHonest e z src ↔ TakesAll e z src)) ∧
      (∀ dst : Bytes, dst.length < 2 ^ 64 → (ReadHonest e z dst ↔ GivesAll e z dst.length)) ∧
      (StrHonest e z ↔ GivesStr e z) :=
  ⟨fun _ hsrc => writeHonest_iff h.aligned hin hsrc, fun dst hdst => readHonest_iff h.aligned hin dst hdst,
    strHonest_iff h.aligned hin⟩

/-- A stream that gives the octets it holds and takes none. -/
def heldHost : SerialHost Bytes where
  read s n := (.ok (s.take n), s.drop n)
  write s _ := (.ok 0, s)
  eof s := s.isEmpty

/-- Two octets of a plain stream. -/
theorem serial_counts_honest_sample :
    (ReadHonest heldHost (zcioSerialNew { stream := [7] } false) [0, 0] ↔
      GivesAll heldHost (zcioSerialNew { stream := [7] } false) 2) :=
  (serial_counts_honest (fun t _ _ => t) (.new _ _) rfl).2.1 [0, 0] (by decide)

/-- Bit-packed, it is full for a write, empty behind the length of a string, and no read tells. -/
theorem serial_counts_fabricated :
    let z := zcioSerialNew { stream := [1, 0, 0, 0, 0, 0, 0, 0] } true
    ¬WriteHonest heldHost z [7] ∧ ¬ReadHonest heldHost z (List.replicate 9 0) ∧ ¬StrHonest heldHost z ∧
      (zcioSerialReadStr (tallied heldHost) z).1 = some [0] := by
  refine ⟨fun h => ?_, fun h => ?_, fun h => ?_, by decide⟩
  · exact Nat.one_ne_zero h.2
  · exact absurd h.2.1 (by decide)
  · exact Nat.not_succ_le_zero 0 h.2.2

end Zcio
