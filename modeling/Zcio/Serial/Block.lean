import Zcio.Serial.Plain

/-!
# Zcio.Serial.Block

Buffer mode and its block. A call is made of raw transfers, each of which is done whole or not at
all. As long as no position is set beyond the end, all of them stay inside of the block (`Moves`);
a call that does not fit transfers nothing unless a part of it does fit.
-/

namespace Zcio

open Lib.Bits (octetBits)

variable {σ : Type} (e : SerialHost σ)

/-! ### Calls

The calls on a block, and how many octets each of them may move. -/

/-- A call on a serial. -/
inductive SerialCall where
  | write (v : SerialVal)
  | read (op : SerialOp)
  | synchronize
  | setWritePos (i : UInt64)
  | setReadPos (i : UInt64)
  deriving Repr, DecidableEq

/-- The serial after a call. -/
def SerialCall.run (seek : σ → UInt64 → SeekWhich → σ) (z : Serial σ) : SerialCall → Serial σ
  | .write v => v.write e z
  | .read op => (op.read e z).2
  | .synchronize => zcioSerialSynchronize e z
  | .setWritePos i => zcioSerialSetWritePos seek z i
  | .setReadPos i => zcioSerialSetReadPos seek z i

/-- The size of the block. -/
def Serial.blockSize (z : Serial σ) : Nat :=
  match z.mode with
  | .buffer buf _ _ => buf.length
  | _ => 0

/-- The octets of the block behind the read position. -/
def Serial.readLeft (z : Serial σ) : Bytes :=
  match z.mode with
  | .buffer buf rpos _ => buf.drop rpos
  | _ => []

/-- The room in the block behind the write position. -/
def Serial.writeRoom (z : Serial σ) : Nat :=
  match z.mode with
  | .buffer buf _ wpos => buf.length - wpos
  | _ => 0

/-- The sizes of the raw transfers that a call consists of. Those of a string to read are the length
and, if that is there, the octets it declares. -/
def SerialCall.parts (z : Serial σ) : SerialCall → List Nat
  | .write (.bit _) => List.replicate ((z.bitsWritten + 1) / 8) 1
  | .write (.bits b) => if z.bitStream then List.replicate ((z.bitsWritten + b.length) / 8) 1 else []
  | .write (.byte _) => [1]
  | .write (.bytes b) => [b.length]
  | .write (.scalar t _) => [t.size]
  | .write (.str s) => [8, s.length]
  | .read .bit => List.replicate (if z.bitsRead % 8 = 0 then 1 else 0) 1
  | .read (.bits n) =>
    if z.bitStream then List.replicate ((z.bitsRead % 8 + n + 7) / 8 - (z.bitsRead % 8 + 7) / 8) 1 else []
  | .read .byte => [1]
  | .read (.bytes n) => [n]
  | .read (.scalar t) => [t.size]
  | .read .str => if z.readLeft.length < 8 then [8] else [8, hostValue e (z.readLeft.take 8)]
  | .synchronize => if 0 < z.bitsWritten then [1] else []
  | .setWritePos _ | .setReadPos _ => []

/-- What the block has for a call. -/
def SerialCall.room (z : Serial σ) : SerialCall → Nat
  | .read _ => z.readLeft.length
  | _ => z.writeRoom

/-- A state in which the positions are in `[0, buf_size]` and nothing outside has been touched. -/
structure Serial.InBlock (z : Serial σ) : Prop where
  within : z.strayed = false
  positions : match z.mode with
    | .buffer buf rpos wpos => rpos ≤ buf.length ∧ wpos ≤ buf.length
    | _ => False

/-- The calls keep inside of the block, and one that does not fit transfers nothing. -/
def Serial.Contained (seek : σ → UInt64 → SeekWhich → σ) (z : Serial σ) : List SerialCall → Prop
  | [] => z.InBlock
  | call :: calls =>
    z.InBlock ∧ (call.room z < (call.parts e z).sum → (call.run e seek z).mode = z.mode) ∧
      Contained seek (call.run e seek z) calls

/-- A position is set inside of the block; another call fits, or no part of it does. -/
def SerialCall.Fits (z : Serial σ) (call : SerialCall) : Prop :=
  match call with
  | .setWritePos i | .setReadPos i => i.toNat ≤ z.blockSize
  | call => (call.parts e z).sum ≤ call.room z ∨ ∀ n ∈ call.parts e z, n = 0 ∨ call.room z < n

/-- Each call fits in the state it is made in. -/
def Serial.AllFit (seek : σ → UInt64 → SeekWhich → σ) (z : Serial σ) : List SerialCall → Prop
  | [] => True
  | call :: calls => call.Fits e z ∧ AllFit seek (call.run e seek z) calls

/-! ### Transfers inside of the block

A transfer that fits the room left stays within the block. -/

variable {z z' z'' y : Serial σ} {i o i' o' : Nat}

/-- From `z` to `z'`, `i` octets were read and `o` octets written, all of them in the block. -/
def Serial.Moves (z z' : Serial σ) (i o : Nat) : Prop :=
  ∃ buf buf' rpos wpos,
    z.mode = .buffer buf rpos wpos ∧ z'.mode = .buffer buf' (rpos + i) (wpos + o) ∧
      buf'.length = buf.length ∧ (o = 0 → buf' = buf) ∧ rpos + i ≤ buf.length ∧ wpos + o ≤ buf.length ∧
      z.strayed = false ∧ z'.strayed = false

theorem Serial.InBlock.buffer (h : z.InBlock) :
    ∃ buf rpos wpos, z.mode = .buffer buf rpos wpos ∧ rpos ≤ buf.length ∧ wpos ≤ buf.length := by
  obtain ⟨-, hpos⟩ := h
  split at hpos
  next buf rpos wpos hmode => exact ⟨buf, rpos, wpos, hmode, hpos⟩
  next => exact hpos.elim

theorem Serial.InBlock.moves (h : z.InBlock) : z.Moves z 0 0 := by
  obtain ⟨buf, rpos, wpos, hmode, hr, hw⟩ := h.buffer
  exact ⟨buf, buf, rpos, wpos, hmode, hmode, rfl, fun _ => rfl, hr, hw, h.within, h.within⟩

namespace Serial.Moves

theorem inBlock (h : z.Moves z' i o) : z'.InBlock := by
  obtain ⟨buf, buf', rpos, wpos, -, hmode, hlen, -, hr, hw, -, hin⟩ := h
  refine ⟨hin, ?_⟩
  rw [hmode]
  exact ⟨hr.trans_eq hlen.symm, hw.trans_eq hlen.symm⟩

theorem trans (h : z.Moves z' i o) (h' : z'.Moves z'' i' o') : z.Moves z'' (i + i') (o + o') := by
  obtain ⟨buf, buf₁, rpos, wpos, hz, hz', hlen, hsame, -, -, hin, -⟩ := h
  obtain ⟨buf₂, buf₃, rpos', wpos', hz₁, hz'', hlen', hsame', hr', hw', -, hin'⟩ := h'
  rw [hz'] at hz₁
  cases hz₁
  refine ⟨buf, buf₃, rpos, wpos, hz, ?_, hlen'.trans hlen, fun ho => ?_, by omega, by omega, hin, hin'⟩
  · rw [hz'', Nat.add_assoc, Nat.add_assoc]
  · rw [hsame' (by omega), hsame (by omega)]

/-- The other fields do not matter. -/
theorem congr (h : z.Moves z' i o) (hmode : y.mode = z'.mode) (hin : y.strayed = z'.strayed) :
    z.Moves y i o := by
  obtain ⟨buf, buf', rpos, wpos, hz, hz', hlen, hsame, hr, hw, hs, hs'⟩ := h
  exact ⟨buf, buf', rpos, wpos, hz, hmode.trans hz', hlen, hsame, hr, hw, hs, hin.trans hs'⟩

theorem congr_left (h : z.Moves z' i o) (hmode : y.mode = z.mode) (hin : y.strayed = z.strayed) :
    y.Moves z' i o := by
  obtain ⟨buf, buf', rpos, wpos, hz, hz', hlen, hsame, hr, hw, hs, hs'⟩ := h
  exact ⟨buf, buf', rpos, wpos, hmode.trans hz, hz', hlen, hsame, hr, hw, hin.trans hs, hs'⟩

theorem readLeft (h : z.Moves z' i o) : z'.readLeft.length + i = z.readLeft.length := by
  obtain ⟨buf, buf', rpos, wpos, hz, hz', hlen, -, hr, -⟩ := h
  simp only [Serial.readLeft, hz, hz', List.length_drop]
  omega

theorem writeRoom (h : z.Moves z' i o) : z'.writeRoom + o = z.writeRoom := by
  obtain ⟨buf, buf', rpos, wpos, hz, hz', hlen, -, -, hw, -⟩ := h
  simp only [Serial.writeRoom, hz, hz']
  omega

/-- Nothing was transferred just if block and positions are the same. -/
theorem mode_eq (h : z.Moves z' i o) : z'.mode = z.mode ↔ i = 0 ∧ o = 0 := by
  obtain ⟨buf, buf', rpos, wpos, hz, hz', -, hsame, -⟩ := h
  rw [hz, hz']
  constructor
  · intro heq
    injection heq with hbuf hr hw
    omega
  · rintro ⟨rfl, rfl⟩
    rw [hsame rfl]
    rfl

end Serial.Moves

/-! ### Raw transfers -/

theorem rawWrite_moves (h : z.InBlock) (src : Bytes) :
    z.Moves (rawWrite e z src).2 0 (if src.length ≤ z.writeRoom then src.length else 0) := by
  obtain ⟨buf, rpos, wpos, hmode, hr, hw⟩ := h.buffer
  simp only [rawWrite, Serial.writeRoom, hmode, bufferCap_eq hw]
  by_cases hfits : src.length ≤ buf.length - wpos
  · rw [if_neg (Nat.not_lt.mpr hfits), if_pos hfits, if_pos hfits]
    refine ⟨buf, _, rpos, wpos, hmode, rfl, ?_, fun hnil => ?_, hr, by omega, h.within, h.within⟩
    · simp only [List.length_append, List.length_drop, List.length_take_of_le hw]
      omega
    · rw [List.length_eq_zero_iff.mp hnil, List.append_nil]
      exact List.take_append_drop wpos buf
  · rw [if_pos (Nat.not_le.mp hfits), if_neg hfits]
    exact h.moves

theorem rawRead_moves (h : z.InBlock) (dst : Bytes) :
    z.Moves (rawRead e z dst).2.2 (if dst.length ≤ z.readLeft.length then dst.length else 0) 0 := by
  obtain ⟨buf, rpos, wpos, hmode, hr, hw⟩ := h.buffer
  simp only [rawRead, Serial.readLeft, hmode, bufferCap_eq hr, List.length_drop]
  by_cases hfits : dst.length ≤ buf.length - rpos
  · rw [if_pos hfits, if_pos hfits, if_pos hfits]
    exact ⟨buf, buf, rpos, wpos, hmode, rfl, rfl, fun _ => rfl, by omega, hw, h.within, h.within⟩
  · rw [if_neg hfits, if_neg hfits]
    exact h.moves.congr hmode.symm rfl

theorem rawRead_bits (z : Serial σ) (dst : Bytes) :
    (rawRead e z dst).2.2.bitsWritten = z.bitsWritten ∧
      (rawRead e z dst).2.2.curWriteByte = z.curWriteByte ∧
      (rawRead e z dst).2.2.bitsRead = z.bitsRead := by
  unfold rawRead
  split
  · exact ⟨rfl, rfl, rfl⟩
  · split_ifs <;> exact ⟨rfl, rfl, rfl⟩
  · split
    · exact ⟨rfl, rfl, rfl⟩
    · dsimp only
      split_ifs <;> exact ⟨rfl, rfl, rfl⟩

/-! ### Bits and octets to write -/

theorem writeWholeByte_moves (h : z.InBlock) (byte : UInt8) :
    z.Moves (writeWholeByte e z byte) 0 (min 1 z.writeRoom) ∧
      (writeWholeByte e z byte).bitsRead = z.bitsRead := by
  have hmoves := rawWrite_moves e h [byte]
  rw [List.length_singleton] at hmoves
  have hmin : (if 1 ≤ z.writeRoom then 1 else 0) = min 1 z.writeRoom := by split <;> omega
  rw [hmin] at hmoves
  refine ⟨hmoves.congr rfl rfl, ?_⟩
  rw [writeWholeByte, rawWrite_mode]

theorem zcioSerialWriteBit_moves (h : z.InBlock) (hw : z.bitsWritten < 8) (bit : Bool) :
    z.Moves (zcioSerialWriteBit e z bit) 0 (min ((z.bitsWritten + 1) / 8) z.writeRoom) ∧
      (zcioSerialWriteBit e z bit).bitsWritten = (z.bitsWritten + 1) % 8 ∧
      (zcioSerialWriteBit e z bit).bitsRead = z.bitsRead := by
  rw [zcioSerialWriteBit]
  by_cases hfull : z.bitsWritten + 1 = 8
  · rw [if_pos hfull, hfull]
    obtain ⟨hmoves, hread⟩ := writeWholeByte_moves e (z := { z with
      curWriteByte := z.curWriteByte ||| (bit.toNat <<< z.bitsWritten).toUInt8
      bitsWritten := 8 }) ⟨h.within, h.positions⟩
      (z.curWriteByte ||| (bit.toNat <<< z.bitsWritten).toUInt8)
    exact ⟨hmoves.congr_left rfl rfl, rfl, hread⟩
  · rw [if_neg hfull, Nat.div_eq_of_lt (by omega), Nat.mod_eq_of_lt (by omega), Nat.zero_min]
    exact ⟨h.moves.congr rfl rfl, rfl, rfl⟩

/-- Bits one after the other: an octet is put out for every eight. -/
theorem writeBits_moves {α : Type} (f : α → Bool) (bits : List α) (h : z.InBlock) (hw : z.bitsWritten < 8) :
    z.Moves (bits.foldl (fun z b => zcioSerialWriteBit e z (f b)) z) 0
        (min ((z.bitsWritten + bits.length) / 8) z.writeRoom) ∧
      (bits.foldl (fun z b => zcioSerialWriteBit e z (f b)) z).bitsWritten = (z.bitsWritten + bits.length) % 8 ∧
      (bits.foldl (fun z b => zcioSerialWriteBit e z (f b)) z).bitsRead = z.bitsRead := by
  induction bits generalizing z with
  | nil =>
    rw [List.foldl_nil, List.length_nil, Nat.add_zero, Nat.div_eq_of_lt hw, Nat.mod_eq_of_lt hw, Nat.zero_min]
    exact ⟨h.moves, rfl, rfl⟩
  | cons bit bits ih =>
    obtain ⟨hone, hwritten, hread⟩ := zcioSerialWriteBit_moves e h hw (f bit)
    obtain ⟨hrest, hwritten', hread'⟩ := ih hone.inBlock (by rw [hwritten]; exact Nat.mod_lt _ (by decide))
    have hroom := hone.writeRoom
    rw [List.foldl_cons, List.length_cons]
    rw [hwritten] at hrest hwritten'
    refine ⟨?_, ?_, hread'.trans hread⟩
    · have hsum : min ((z.bitsWritten + 1) / 8) z.writeRoom +
          min (((z.bitsWritten + 1) % 8 + bits.length) / 8) (zcioSerialWriteBit e z (f bit)).writeRoom =
          min ((z.bitsWritten + (bits.length + 1)) / 8) z.writeRoom := by omega
      rw [← hsum]
      exact hone.trans hrest
    · rw [hwritten']
      omega

theorem zcioSerialWriteByte_moves (h : z.InBlock) (hw : z.bitsWritten < 8) (byte : UInt8) :
    z.Moves (zcioSerialWriteByte e z byte) 0 (min 1 z.writeRoom) ∧
      (zcioSerialWriteByte e z byte).bitsWritten < 8 ∧
      (zcioSerialWriteByte e z byte).bitsRead = z.bitsRead := by
  rw [zcioSerialWriteByte]
  split
  · obtain ⟨hmoves, hwritten, hread⟩ := writeBits_moves e id (octetBits byte) h hw
    have hlen : (octetBits byte).length = 8 := rfl
    rw [hlen, Nat.add_div_right _ (by decide), Nat.div_eq_of_lt hw] at hmoves
    refine ⟨hmoves, ?_, hread⟩
    exact hwritten.trans_lt (Nat.mod_lt _ (by decide))
  · obtain ⟨hmoves, hread⟩ := writeWholeByte_moves e h byte
    exact ⟨hmoves, Nat.zero_lt_succ 7, hread⟩

/-- Bulk octets go to a buffer as they are. -/
theorem zcioSerialWriteBytes_raw (h : z.InBlock) (src : Bytes) :
    zcioSerialWriteBytes e z src = rawWrite e z src := by
  obtain ⟨buf, rpos, wpos, hmode, -⟩ := h.buffer
  rw [zcioSerialWriteBytes, hmode]
  cases z.bitStream with
  | true => rfl
  | false => rfl

theorem zcioSerialWriteBytes_moves (h : z.InBlock) (src : Bytes) :
    z.Moves (zcioSerialWriteBytes e z src).2 0 (if src.length ≤ z.writeRoom then src.length else 0) ∧
      (zcioSerialWriteBytes e z src).2.bitsWritten = z.bitsWritten ∧
      (zcioSerialWriteBytes e z src).2.bitsRead = z.bitsRead := by
  have hmoves := rawWrite_moves e h src
  rw [zcioSerialWriteBytes_raw e h]
  refine ⟨hmoves, ?_, ?_⟩
  · rw [rawWrite_mode]
  · rw [rawWrite_mode]

/-! ### Bits and octets to read -/

theorem readFreshByte_moves (h : z.InBlock) :
    z.Moves (readFreshByte e z).2 (min 1 z.readLeft.length) 0 ∧
      (readFreshByte e z).2.bitsWritten = z.bitsWritten ∧ (readFreshByte e z).2.bitsRead = 0 := by
  have hmoves := rawRead_moves e h [0]
  rw [List.length_singleton] at hmoves
  have hmin : (if 1 ≤ z.readLeft.length then 1 else 0) = min 1 z.readLeft.length := by split <;> omega
  rw [hmin] at hmoves
  exact ⟨hmoves.congr rfl rfl, (rawRead_bits e z [0]).1, rfl⟩

theorem zcioSerialReadBit_moves (h : z.InBlock) (hr : z.bitsRead ≤ 8) :
    z.Moves (zcioSerialReadBit e z).2 (min (if z.bitsRead % 8 = 0 then 1 else 0) z.readLeft.length) 0 ∧
      (zcioSerialReadBit e z).2.bitsWritten = z.bitsWritten ∧
      (zcioSerialReadBit e z).2.bitsRead = z.bitsRead % 8 + 1 := by
  rw [zcioSerialReadBit]
  by_cases hfresh : z.bitsRead = 0 ∨ z.bitsRead = 8
  · obtain ⟨hmoves, hwritten, hread⟩ := readFreshByte_moves e h
    have hmod : z.bitsRead % 8 = 0 := by omega
    rw [if_pos hfresh, if_pos hmod, hmod]
    refine ⟨hmoves.congr rfl rfl, hwritten, ?_⟩
    exact congrArg (· + 1) hread
  · have hmod : z.bitsRead % 8 = z.bitsRead := Nat.mod_eq_of_lt (by omega)
    rw [if_neg hfresh, hmod, if_neg (fun hzero => hfresh (.inl hzero)), Nat.zero_min]
    exact ⟨h.moves.congr rfl rfl, rfl, rfl⟩

/-- Bits one after the other: an octet is taken when those of the last one are used up. -/
theorem readBitsLoop_moves (n : Nat) (h : z.InBlock) (hr : z.bitsRead ≤ 8) :
    z.Moves (readBitsLoop e n z).2
        (min ((z.bitsRead % 8 + n + 7) / 8 - (z.bitsRead % 8 + 7) / 8) z.readLeft.length) 0 ∧
      (readBitsLoop e n z).2.bitsWritten = z.bitsWritten ∧ (readBitsLoop e n z).2.bitsRead ≤ 8 := by
  induction n generalizing z with
  | zero =>
    rw [Nat.add_zero, Nat.sub_self, Nat.zero_min]
    exact ⟨h.moves, rfl, hr⟩
  | succ n ih =>
    obtain ⟨hone, hwritten, hread⟩ := zcioSerialReadBit_moves e h hr
    obtain ⟨hrest, hwritten', hread'⟩ := ih hone.inBlock (by omega)
    have hleft := hone.readLeft
    rw [hread] at hrest
    refine ⟨?_, hwritten'.trans hwritten, hread'⟩
    have hsum : min (if z.bitsRead % 8 = 0 then 1 else 0) z.readLeft.length +
        min (((z.bitsRead % 8 + 1) % 8 + n + 7) / 8 - ((z.bitsRead % 8 + 1) % 8 + 7) / 8)
          (zcioSerialReadBit e z).2.readLeft.length =
        min ((z.bitsRead % 8 + (n + 1) + 7) / 8 - (z.bitsRead % 8 + 7) / 8) z.readLeft.length := by
      split at hleft
      · rename_i hzero
        rw [if_pos hzero]
        omega
      · rename_i hzero
        rw [if_neg hzero]
        omega
    rw [← hsum]
    exact hone.trans hrest

theorem zcioSerialReadByte_moves (h : z.InBlock) (hr : z.bitsRead ≤ 8) :
    z.Moves (zcioSerialReadByte e z).2 (min 1 z.readLeft.length) 0 ∧
      (zcioSerialReadByte e z).2.bitsWritten = z.bitsWritten ∧ (zcioSerialReadByte e z).2.bitsRead ≤ 8 := by
  rw [zcioSerialReadByte]
  split
  · obtain ⟨hmoves, hwritten, hread⟩ := readBitsLoop_moves e 8 h hr
    have hone : (z.bitsRead % 8 + 8 + 7) / 8 - (z.bitsRead % 8 + 7) / 8 = 1 := by omega
    rw [hone] at hmoves
    exact ⟨hmoves, hwritten, hread⟩
  · obtain ⟨hmoves, hwritten, hread⟩ := readFreshByte_moves e h
    exact ⟨hmoves, hwritten, hread.trans_le (Nat.zero_le 8)⟩

/-- Bulk octets come from a buffer as they are. -/
theorem zcioSerialReadBytes_raw (h : z.InBlock) (dst : Bytes) :
    zcioSerialReadBytes e z dst = rawRead e z dst := by
  obtain ⟨buf, rpos, wpos, hmode, -⟩ := h.buffer
  rw [zcioSerialReadBytes, hmode]
  cases z.bitStream with
  | true => rfl
  | false => rfl

theorem zcioSerialReadBytes_moves (h : z.InBlock) (dst : Bytes) :
    z.Moves (zcioSerialReadBytes e z dst).2.2 (if dst.length ≤ z.readLeft.length then dst.length else 0) 0 ∧
      (zcioSerialReadBytes e z dst).2.2.bitsWritten = z.bitsWritten ∧
      (zcioSerialReadBytes e z dst).2.2.bitsRead = z.bitsRead := by
  rw [zcioSerialReadBytes_raw e h]
  obtain ⟨hwritten, -, hread⟩ := rawRead_bits e z dst
  exact ⟨rawRead_moves e h dst, hwritten, hread⟩

/-! ### Calls in the block

Each call stays inside if its parts fit, and strays if one does not. -/

/-- The bits of an octet in progress are counted below 8, or up to 8 in front of a fresh one. -/
def Serial.Counts (z : Serial σ) : Prop := z.bitsWritten < 8 ∧ z.bitsRead ≤ 8

/-- What does not fit as a whole is not transferred at all just if no part fits. -/
def AllOrPart (room : Nat) (parts : List Nat) (moved : Nat) : Prop :=
  room < parts.sum → (moved = 0 ↔ ∀ n ∈ parts, n = 0 ∨ room < n)

theorem allOrPart_octets (room k : Nat) : AllOrPart room (List.replicate k 1) (min k room) := by
  intro hroom
  rw [List.sum_replicate_nat, Nat.mul_one] at hroom
  constructor
  · intro hzero n hn
    rw [(List.mem_replicate.mp hn).2]
    omega
  · intro hparts
    have hone := hparts 1 (List.mem_replicate.mpr ⟨by omega, rfl⟩)
    omega

theorem allOrPart_bulk (room n : Nat) : AllOrPart room [n] (if n ≤ room then n else 0) := by
  intro hroom
  rw [List.sum_singleton] at hroom
  rw [if_neg (Nat.not_le.mpr hroom)]
  refine iff_of_true rfl fun m hm => .inr ?_
  rw [List.mem_singleton.mp hm]
  exact hroom

theorem allOrPart_prefixed {room room' n : Nat} (hroom' : room' + (if 8 ≤ room then 8 else 0) = room) :
    AllOrPart room [8, n] ((if 8 ≤ room then 8 else 0) + if n ≤ room' then n else 0) := by
  intro hroom
  rw [List.sum_cons, List.sum_singleton] at hroom
  constructor
  · intro hzero m hm
    have hshort : ¬8 ≤ room := by
      intro hle
      rw [if_pos hle] at hzero
      omega
    rw [if_neg hshort] at hzero hroom'
    obtain rfl | hm := List.mem_cons.mp hm
    · exact .inr (Nat.not_le.mp hshort)
    · rw [List.mem_singleton.mp hm]
      split at hzero
      · exact .inl (by omega)
      · exact .inr (by omega)
  · intro hparts
    have h8 := hparts 8 List.mem_cons_self
    have hn := hparts n (List.mem_cons_of_mem _ List.mem_cons_self)
    rw [if_neg (by omega)] at hroom' ⊢
    split
    · omega
    · rfl

/-- **A write in the block.** -/
theorem SerialVal.write_moves (v : SerialVal) (h : z.InBlock) (hz : z.Counts) :
    ∃ o, z.Moves (v.write e z) 0 o ∧ (v.write e z).Counts ∧
      AllOrPart z.writeRoom ((SerialCall.write v).parts e z) o := by
  obtain ⟨hw, hr⟩ := hz
  have hmod (n : Nat) : n % 8 < 8 := Nat.mod_lt n (by decide)
  cases v with
  | bit b =>
    obtain ⟨hmoves, hwritten, hread⟩ := zcioSerialWriteBit_moves e h hw b
    exact ⟨_, hmoves, ⟨hwritten.trans_lt (hmod _), hread.trans_le hr⟩, allOrPart_octets _ _⟩
  | bits b =>
    rw [SerialVal.write, zcioSerialWriteBits, SerialCall.parts]
    cases z.bitStream with
    | true =>
      obtain ⟨hmoves, hwritten, hread⟩ := writeBits_moves e (fun b : UInt8 => b.toNat.testBit 0) b h hw
      exact ⟨_, hmoves, ⟨hwritten.trans_lt (hmod _), hread.trans_le hr⟩, allOrPart_octets _ _⟩
    | false => exact ⟨0, h.moves, ⟨hw, hr⟩, fun hlt => absurd hlt (Nat.not_lt_zero _)⟩
  | byte b =>
    obtain ⟨hmoves, hwritten, hread⟩ := zcioSerialWriteByte_moves e h hw b
    exact ⟨_, hmoves, ⟨hwritten, hread.trans_le hr⟩, allOrPart_octets _ 1⟩
  | bytes b =>
    obtain ⟨hmoves, hwritten, hread⟩ := zcioSerialWriteBytes_moves e h b
    exact ⟨_, hmoves, ⟨hwritten.trans_lt hw, hread.trans_le hr⟩, allOrPart_bulk _ _⟩
  | scalar t v =>
    obtain ⟨hmoves, hwritten, hread⟩ := zcioSerialWriteBytes_moves e h (hostOctets e t.size v.toNat)
    rw [length_hostOctets] at hmoves
    exact ⟨_, hmoves, ⟨hwritten.trans_lt hw, hread.trans_le hr⟩, allOrPart_bulk _ _⟩
  | str s =>
    obtain ⟨hlen, hwritten, hread⟩ := zcioSerialWriteBytes_moves e h (hostOctets e 8 (s.length % 2 ^ 64))
    obtain ⟨hstr, hwritten', hread'⟩ := zcioSerialWriteBytes_moves e hlen.inBlock s
    rw [length_hostOctets] at hlen
    have hparts := allOrPart_prefixed (n := s.length) hlen.writeRoom
    rw [SerialVal.write, zcioSerialWriteStr]
    by_cases hs : s.length = 0
    · rw [if_neg (not_not.mpr hs)]
      refine ⟨_, hlen, ⟨hwritten.trans_lt hw, hread.trans_le hr⟩, ?_⟩
      rw [hs, if_pos (Nat.zero_le _), Nat.add_zero] at hparts
      rw [SerialCall.parts, hs]
      exact hparts
    · rw [if_pos hs]
      exact ⟨_, hlen.trans hstr, ⟨(hwritten'.trans hwritten).trans_lt hw, (hread'.trans hread).trans_le hr⟩, hparts⟩

theorem zcioSerialSynchronize_moves (h : z.InBlock) (hz : z.Counts) :
    ∃ o, z.Moves (zcioSerialSynchronize e z) 0 o ∧ (zcioSerialSynchronize e z).Counts ∧
      AllOrPart z.writeRoom (SerialCall.synchronize.parts e z) o := by
  rw [zcioSerialSynchronize, SerialCall.parts]
  by_cases hpart : 0 < z.bitsWritten
  · rw [if_pos ⟨hpart, hz.1⟩, if_pos hpart, zcioSerialWriteByte_full rfl]
    obtain ⟨hmoves, hread⟩ :=
      writeWholeByte_moves e (z := { z with bitsWritten := 8 }) ⟨h.within, h.positions⟩ z.curWriteByte
    exact ⟨_, hmoves.congr_left rfl rfl, ⟨Nat.zero_lt_succ 7, hread.trans_le hz.2⟩, allOrPart_octets _ 1⟩
  · rw [if_neg (fun hmid => hpart hmid.1), if_neg hpart]
    exact ⟨0, h.moves, hz, fun hlt => absurd hlt (Nat.not_lt_zero _)⟩

theorem rawRead_octets (h : z.InBlock) (dst : Bytes) (hfits : dst.length ≤ z.readLeft.length) :
    ∃ y, rawRead e z dst = (dst.length, z.readLeft.take dst.length, y) := by
  obtain ⟨buf, rpos, wpos, hmode, hr, -⟩ := h.buffer
  simp only [Serial.readLeft, hmode, List.length_drop] at hfits ⊢
  simp only [rawRead, hmode, bufferCap_eq hr]
  rw [if_pos hfits, if_pos hfits]
  exact ⟨_, rfl⟩

theorem rawRead_short (h : z.InBlock) (dst : Bytes) (hshort : z.readLeft.length < dst.length) :
    (rawRead e z dst).1 = 0 := by
  obtain ⟨buf, rpos, wpos, hmode, hr, -⟩ := h.buffer
  simp only [Serial.readLeft, hmode, List.length_drop] at hshort
  simp only [rawRead, hmode, bufferCap_eq hr]
  rw [if_neg (Nat.not_le.mpr hshort)]

theorem readStrMax_inBlock (h : z.InBlock) : readStrMax z = z.readLeft.length := by
  obtain ⟨buf, rpos, wpos, hmode, hr, -⟩ := h.buffer
  simp only [readStrMax, Serial.readLeft, hmode, List.length_drop]
  rw [if_pos hr]

theorem readStrBody_moves (h : z.InBlock) (hz : z.Counts) (n : Nat) :
    ∃ i, z.Moves (readStrBody e z n).2 i 0 ∧ (readStrBody e z n).2.Counts ∧ (z.readLeft.length < n → i = 0) := by
  rw [readStrBody, readStrMax_inBlock h]
  split
  · exact ⟨0, h.moves, hz, fun _ => rfl⟩
  · rename_i hdeclared
    split
    · exact ⟨0, h.moves, hz, fun _ => rfl⟩
    · obtain ⟨hmoves, hwritten, hread⟩ := zcioSerialReadBytes_moves e h (List.replicate n 0)
      refine ⟨_, hmoves, ⟨hwritten.trans_lt hz.1, hread.trans_le hz.2⟩, fun hlt => ?_⟩
      exact absurd (.inr hlt) hdeclared

theorem zcioSerialReadStr_moves (h : z.InBlock) (hz : z.Counts) :
    ∃ i, z.Moves (zcioSerialReadStr e z).2 i 0 ∧ (zcioSerialReadStr e z).2.Counts ∧
      AllOrPart z.readLeft.length ((SerialCall.read .str).parts e z) i := by
  obtain ⟨hmoves, hwritten, hread⟩ := zcioSerialReadBytes_moves e h (List.replicate 8 0)
  have hparts := allOrPart_bulk z.readLeft.length 8
  rw [zcioSerialReadBytes_raw e h, List.length_replicate] at *
  rw [zcioSerialReadStr, zcioSerialReadBytes_raw e h, SerialCall.parts]
  by_cases hshort : z.readLeft.length < 8
  · rw [if_pos hshort]
    have hnone := rawRead_short e h (List.replicate 8 0) hshort
    dsimp only
    rw [if_pos (by rw [hnone]; decide)]
    exact ⟨_, hmoves, ⟨hwritten.trans_lt hz.1, hread.trans_le hz.2⟩, hparts⟩
  · rw [Nat.not_lt] at hshort
    obtain ⟨y, hy⟩ := rawRead_octets e h (List.replicate 8 0) hshort
    rw [hy] at hmoves hwritten hread
    rw [if_pos hshort] at hmoves
    rw [if_neg (Nat.not_lt.mpr hshort), hy]
    dsimp only
    rw [List.length_replicate, if_neg (by decide)]
    obtain ⟨i, hbody, hcounts, -⟩ := readStrBody_moves e hmoves.inBlock
      ⟨hwritten.trans_lt hz.1, hread.trans_le hz.2⟩ (hostValue e (z.readLeft.take 8))
    refine ⟨_, hmoves.trans hbody, hcounts, fun _ => ?_⟩
    -- the length has been taken, whatever becomes of the string
    refine iff_of_false (by omega) fun hall => ?_
    have h8 := hall 8 List.mem_cons_self
    omega

/-- **A read in the block.** -/
theorem SerialOp.read_moves (op : SerialOp) (h : z.InBlock) (hz : z.Counts) :
    ∃ i, z.Moves (op.read e z).2 i 0 ∧ (op.read e z).2.Counts ∧
      AllOrPart z.readLeft.length ((SerialCall.read op).parts e z) i := by
  obtain ⟨hw, hr⟩ := hz
  cases op with
  | bit =>
    obtain ⟨hmoves, hwritten, hread⟩ := zcioSerialReadBit_moves e h hr
    exact ⟨_, hmoves, ⟨hwritten.trans_lt hw, hread.trans_le (Nat.mod_lt _ (by decide))⟩, allOrPart_octets _ _⟩
  | bits n =>
    rw [SerialOp.read, zcioSerialReadBits, SerialCall.parts]
    cases z.bitStream with
    | true =>
      obtain ⟨hmoves, hwritten, hread⟩ := readBitsLoop_moves e n h hr
      rw [List.length_replicate]
      exact ⟨_, hmoves, ⟨hwritten.trans_lt hw, hread⟩, allOrPart_octets _ _⟩
    | false => exact ⟨0, h.moves, ⟨hw, hr⟩, fun hlt => absurd hlt (Nat.not_lt_zero _)⟩
  | byte =>
    obtain ⟨hmoves, hwritten, hread⟩ := zcioSerialReadByte_moves e h hr
    exact ⟨_, hmoves, ⟨hwritten.trans_lt hw, hread⟩, allOrPart_octets _ 1⟩
  | bytes n =>
    obtain ⟨hmoves, hwritten, hread⟩ := zcioSerialReadBytes_moves e h (List.replicate n 0)
    rw [List.length_replicate] at hmoves
    exact ⟨_, hmoves, ⟨hwritten.trans_lt hw, hread.trans_le hr⟩, allOrPart_bulk _ _⟩
  | scalar t =>
    obtain ⟨hmoves, hwritten, hread⟩ := zcioSerialReadBytes_moves e h (List.replicate t.size 0)
    rw [List.length_replicate] at hmoves
    exact ⟨_, hmoves, ⟨hwritten.trans_lt hw, hread.trans_le hr⟩, allOrPart_bulk _ _⟩
  | str => exact zcioSerialReadStr_moves e h ⟨hw, hr⟩

/-! ### Runs

The condition is checked in front of every call, on the indices as they are then. -/

theorem Serial.InBlock.setPos (h : z.InBlock) (buf : Bytes) (rpos wpos : Nat) :
    ({ z with mode := .buffer buf rpos wpos } : Serial σ).InBlock ↔ rpos ≤ buf.length ∧ wpos ≤ buf.length :=
  ⟨fun hset => hset.positions, fun hpos => ⟨h.within, hpos⟩⟩

/-- **One call**: it keeps inside of the block and transfers all or nothing just if it fits. -/
theorem SerialCall.run_fits (seek : σ → UInt64 → SeekWhich → σ) (call : SerialCall) (h : z.InBlock) (hz : z.Counts) :
    (call.run e seek z).Counts ∧
      ((call.room z < (call.parts e z).sum → (call.run e seek z).mode = z.mode) ∧
          (call.run e seek z).InBlock ↔ call.Fits e z) := by
  -- a call that transfers `k` octets
  have htransfer {room k i o : Nat} {parts : List Nat} {y : Serial σ} (hmoves : z.Moves y i o)
      (hk : i = 0 ∧ o = 0 ↔ k = 0) (hparts : AllOrPart room parts k) :
      ((room < parts.sum → y.mode = z.mode) ∧ y.InBlock) ↔
        (parts.sum ≤ room ∨ ∀ n ∈ parts, n = 0 ∨ room < n) := by
    rw [and_iff_left hmoves.inBlock, hmoves.mode_eq, hk, ← Nat.not_lt, ← imp_iff_not_or]
    constructor
    · exact fun hnone hlt => (hparts hlt).mp (hnone hlt)
    · exact fun hall hlt => (hparts hlt).mpr (hall hlt)
  obtain ⟨buf, rpos, wpos, hmode, hr, hw⟩ := h.buffer
  cases call with
  | write v =>
    obtain ⟨o, hmoves, hcounts, hparts⟩ := v.write_moves e h hz
    exact ⟨hcounts, htransfer hmoves (and_iff_right rfl) hparts⟩
  | read op =>
    obtain ⟨i, hmoves, hcounts, hparts⟩ := op.read_moves e h hz
    exact ⟨hcounts, htransfer hmoves (and_iff_left rfl) hparts⟩
  | synchronize =>
    obtain ⟨o, hmoves, hcounts, hparts⟩ := zcioSerialSynchronize_moves e h hz
    exact ⟨hcounts, htransfer hmoves (and_iff_right rfl) hparts⟩
  | setWritePos i =>
    have hrun : SerialCall.run e seek z (.setWritePos i) = { z with mode := .buffer buf rpos i.toNat } := by
      rw [SerialCall.run, zcioSerialSetWritePos, hmode]
    rw [hrun, h.setPos]
    refine ⟨hz, ?_⟩
    rw [SerialCall.Fits, Serial.blockSize, hmode]
    exact ⟨fun hset => hset.2.2, fun hi => ⟨fun hlt => absurd hlt (Nat.not_lt_zero _), hr, hi⟩⟩
  | setReadPos i =>
    have hrun : SerialCall.run e seek z (.setReadPos i) = { z with mode := .buffer buf i.toNat wpos } := by
      rw [SerialCall.run, zcioSerialSetReadPos, hmode]
    rw [hrun, h.setPos]
    refine ⟨hz, ?_⟩
    rw [SerialCall.Fits, Serial.blockSize, hmode]
    exact ⟨fun hset => hset.2.1, fun hi => ⟨fun hlt => absurd hlt (Nat.not_lt_zero _), hi, hw⟩⟩

theorem Serial.contained_iff (seek : σ → UInt64 → SeekWhich → σ) (calls : List SerialCall) (h : z.InBlock) (hz : z.Counts) :
    z.Contained e seek calls ↔ z.AllFit e seek calls := by
  induction calls generalizing z with
  | nil => exact iff_of_true h trivial
  | cons call calls ih =>
    obtain ⟨hcounts, hfits⟩ := call.run_fits e seek h hz
    rw [Serial.Contained, Serial.AllFit, and_iff_right h, ← hfits, and_assoc]
    refine and_congr_right fun _ => ?_
    constructor
    · intro hrest
      have hin : (call.run e seek z).InBlock := by
        cases calls with
        | nil => exact hrest
        | cons => exact hrest.1
      exact ⟨hin, (ih hin hcounts).mp hrest⟩
    · rintro ⟨hin, hrest⟩
      exact (ih hin hcounts).mpr hrest

/-- **Buffer mode and its block**, for any block and calls: every octet read or written is in the
block, the positions are in `[0, buf_size]` and a call that does not fit transfers nothing, just if
no position is set beyond the end and no call meets with room for a part of it only. -/
theorem serial_buffer_contained (seek : σ → UInt64 → SeekWhich → σ) (buf : Bytes) (bitStream : Bool) (calls : List SerialCall) :
    (zcioSerialNewBuffer buf bitStream).Contained e seek calls ↔
      (zcioSerialNewBuffer buf bitStream).AllFit e seek calls :=
  Serial.contained_iff e seek calls ⟨rfl, Nat.zero_le _, Nat.zero_le _⟩ ⟨Nat.zero_lt_succ 7, Nat.le_refl 8⟩

/-- A write behind position 2 of a block of one octet. -/
theorem serial_buffer_strays :
    let e : SerialHost Unit := { read := fun s _ => (.ok [], s), write := fun s _ => (.ok 0, s) }
    let calls : List SerialCall := [.setWritePos 2, .write (.byte 7)]
    let z := zcioSerialNewBuffer [0] false
    (calls.foldl (SerialCall.run e fun s _ _ => s) z).strayed = true ∧ ¬z.Contained e (fun s _ _ => s) calls := by
  refine ⟨rfl, fun hin => ?_⟩
  have hpos := hin.2.2.1.positions.2
  exact absurd hpos (by decide)

end Zcio
