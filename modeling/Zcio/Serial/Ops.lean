import Zcio.Stream
import Zcio.Lib.Bits

/-!
# Zcio.Serial.Ops

The bit and byte serializer of `serial.c` in its three modes. The texts of the errors are left out.
Positions are taken as the `size_t` that they are the image of. Memory around the block of a buffer
is not modelled: an access to it sets `strayed`, and only the part of it that is in the block counts.

Bits fill an octet from the low one up. `bitsRead` is 0 and 8 alike when the next bit needs a
fresh octet; `bitsWritten` is 8 only inside of a call.
-/

namespace Zcio

open Lib.Bits (octetBits ofBits octets)

/-! ### The serializer -/

/-- The mode and its own part of the state. -/
inductive SerialMode (σ : Type) where
  | stream (s : σ)
  | count (total wpos rpos : Nat)
  | buffer (buf : Bytes) (rpos wpos : Nat)
  deriving Repr, DecidableEq

/-- `struct zcio_serial`. -/
structure Serial (σ : Type) where
  mode : SerialMode σ
  bitStream : Bool := false
  curReadByte : UInt8 := 0
  bitsRead : Nat := 8
  curWriteByte : UInt8 := 0
  bitsWritten : Nat := 0
  readEof : Bool := false
  readEmpty : Bool := false
  shortRead : Bool := false
  lastRead : Nat := 0
  /-- Buffer mode has copied to or from an octet outside of its block. -/
  strayed : Bool := false
  deriving Repr, DecidableEq

/-- The streams of a host, and the order it keeps the octets of an integer in. -/
structure SerialHost (σ : Type) extends StreamVt σ where
  bigEndian : Bool := false

variable {σ : Type} (e : SerialHost σ)

/-- `zcio_serial_new`. -/
def zcioSerialNew (s : σ) (bitStream : Bool) : Serial σ := { mode := .stream s, bitStream }

/-- `zcio_serial_new_count`. -/
def zcioSerialNewCount : Serial σ := { mode := .count 0 0 0 }

/-- `zcio_serial_new_buffer`. -/
def zcioSerialNewBuffer (buf : Bytes) (bitStream : Bool) : Serial σ :=
  { mode := .buffer buf 0 0, bitStream }

/-! ### The raw byte path

All calls end here: in a stream, in a block of memory of a fixed size, or in a count. -/

/-- `cap`: `(uint64_t)buf_size - (uint64_t)pos`. -/
def bufferCap (size pos : Nat) : Nat := if pos ≤ size then size - pos else size + 2 ^ 64 - pos

/-- A `memcpy` to `buf + pos` that begins in front of the block: the octets from `buf` on are in it. -/
def strayWrite (buf : Bytes) (pos : Nat) (src : Bytes) : Bytes :=
  src.drop (2 ^ 64 - pos) ++ buf.drop (src.length - (2 ^ 64 - pos))

/-- A `memcpy` from there; what is outside of the block is not known and left as it was. -/
def strayRead (buf : Bytes) (pos : Nat) (dst : Bytes) : Bytes :=
  dst.take (2 ^ 64 - pos) ++ buf.take (dst.length - (2 ^ 64 - pos))

/-- `raw_write`. -/
def rawWrite (z : Serial σ) (src : Bytes) : Except Int Nat × Serial σ :=
  match z.mode with
  | .count total wpos rpos =>
    (.ok src.length, { z with
      mode := .count ((total + src.length) % 2 ^ 64) ((wpos + src.length) % 2 ^ 64) rpos })
  | .buffer buf rpos wpos =>
    if src.length > bufferCap buf.length wpos then (.ok 0, z)
    else if src.length ≤ buf.length - wpos then
      (.ok src.length, { z with
        mode := .buffer (buf.take wpos ++ src ++ buf.drop (wpos + src.length)) rpos
          (wpos + src.length) })
    else (.ok src.length, { z with
      mode := .buffer (strayWrite buf wpos src) rpos ((wpos + src.length) % 2 ^ 64), strayed := true })
  | .stream s =>
    let (r, s) := zcioWriteFull e.write s src
    (r, { z with mode := .stream s })

/-- `raw_read` into `dst`; the result is the number of octets. -/
def rawRead (z : Serial σ) (dst : Bytes) : Nat × Bytes × Serial σ :=
  match z.mode with
  | .count total wpos rpos =>
    (dst.length, dst, { z with
      mode := .count total wpos ((rpos + dst.length) % 2 ^ 64), lastRead := dst.length })
  | .buffer buf rpos wpos =>
    if dst.length ≤ bufferCap buf.length rpos then
      if dst.length ≤ buf.length - rpos then
        (dst.length, (buf.drop rpos).take dst.length, { z with
          mode := .buffer buf (rpos + dst.length) wpos, lastRead := dst.length })
      else (dst.length, strayRead buf rpos dst, { z with
        mode := .buffer buf ((rpos + dst.length) % 2 ^ 64) wpos, lastRead := dst.length
        strayed := true })
    else (0, dst, { z with lastRead := 0, readEof := true })
  | .stream s =>
    match zcioReadFull e.read s dst.length with
    | (.error _, s) =>
      (0, dst, { z with mode := .stream s, lastRead := 0, shortRead := true, readEof := true })
    | (.ok b, s) =>
      (b.length, b ++ dst.drop b.length,
        if b.length ≠ dst.length then
          if e.eof s then
            { z with mode := .stream s, lastRead := b.length, shortRead := true, readEof := true }
          else
            { z with mode := .stream s, lastRead := b.length, shortRead := true, readEmpty := true }
        else
          { z with mode := .stream s, lastRead := b.length, readEmpty := false, readEof := false })

/-! ### Single bits and bytes

Bits fill an octet from its low end. -/

/-- The path of `zcio_serial_write_byte` outside of a partial octet. -/
def writeWholeByte (z : Serial σ) (byte : UInt8) : Serial σ :=
  { (rawWrite e z [byte]).2 with curWriteByte := 0, bitsWritten := 0 }

/-- `zcio_serial_write_bit`. The octet is written with `bits_written` at 8, for which
`zcio_serial_write_byte` takes its second path. -/
def zcioSerialWriteBit (z : Serial σ) (bit : Bool) : Serial σ :=
  let z := { z with
    curWriteByte := z.curWriteByte ||| (bit.toNat <<< z.bitsWritten).toUInt8
    bitsWritten := z.bitsWritten + 1 }
  if z.bitsWritten = 8 then writeWholeByte e z z.curWriteByte else z

/-- `zcio_serial_write_byte`. -/
def zcioSerialWriteByte (z : Serial σ) (byte : UInt8) : Serial σ :=
  if z.bitStream ∧ 0 < z.bitsWritten ∧ z.bitsWritten < 8 then
    (octetBits byte).foldl (zcioSerialWriteBit e) z
  else writeWholeByte e z byte

/-- A fresh octet from `raw_read`; none there reads as 0. -/
def readFreshByte (z : Serial σ) : UInt8 × Serial σ :=
  let (_, dst, z) := rawRead e z [0]
  (dst.headD 0, { z with curReadByte := dst.headD 0, bitsRead := 0 })

/-- `zcio_serial_read_bit`. -/
def zcioSerialReadBit (z : Serial σ) : Bool × Serial σ :=
  let z := if z.bitsRead = 0 ∨ z.bitsRead = 8 then (readFreshByte e z).2 else z
  (z.curReadByte.toNat.testBit z.bitsRead, { z with bitsRead := z.bitsRead + 1 })

/-- `n` bits one after the other. -/
def readBitsLoop : Nat → Serial σ → List Bool × Serial σ
  | 0, z => ([], z)
  | n + 1, z =>
    let (bit, z) := zcioSerialReadBit e z
    let (bits, z) := readBitsLoop n z
    (bit :: bits, z)

/-- `zcio_serial_read_byte`. -/
def zcioSerialReadByte (z : Serial σ) : UInt8 × Serial σ :=
  if z.bitStream ∧ 0 < z.bitsRead ∧ z.bitsRead < 8 then
    let (bits, z) := readBitsLoop e 8 z
    ((ofBits bits).toUInt8, z)
  else readFreshByte e z

/-! ### Bulk bytes -/

/-- `zcio_serial_write_bytes`. -/
def zcioSerialWriteBytes (z : Serial σ) (src : Bytes) : Except Int Nat × Serial σ :=
  match z.bitStream, z.mode with
  | true, .stream _ => (.ok src.length, src.foldl (zcioSerialWriteByte e) z)
  | _, _ => rawWrite e z src

/-- `n` octets one after the other. -/
def readBytesLoop : Nat → Serial σ → Bytes × Serial σ
  | 0, z => ([], z)
  | n + 1, z =>
    let (byte, z) := zcioSerialReadByte e z
    let (bytes, z) := readBytesLoop n z
    (byte :: bytes, z)

/-- `zcio_serial_read_bytes` into `dst`. -/
def zcioSerialReadBytes (z : Serial σ) (dst : Bytes) : Nat × Bytes × Serial σ :=
  match z.bitStream, z.mode with
  | true, .stream _ =>
    let (bytes, z) := readBytesLoop e dst.length z
    (dst.length, bytes, { z with lastRead := dst.length })
  | _, _ => rawRead e z dst

/-! ### Arrays of bits -/

/-- `zcio_serial_write_bits` of the part of the array that `index` and `count` select. -/
def zcioSerialWriteBits (z : Serial σ) (bits : Bytes) : Serial σ :=
  if z.bitStream then bits.foldl (fun z b => zcioSerialWriteBit e z (b.toNat.testBit 0)) z else z

/-- `zcio_serial_read_bits` into the part of the array that `index` and `count` select. -/
def zcioSerialReadBits (z : Serial σ) (bits : Bytes) : Bytes × Serial σ :=
  if z.bitStream then
    let (b, z) := readBitsLoop e bits.length z
    (b.map fun bit => bit.toUInt8, z)
  else (bits, z)

/-! ### Scalars -/

/-- The types that `ZCIO_SERIAL_SCALAR` is used for, and the two floating-point ones. -/
inductive ScalarType where
  | i8 | u8 | i16 | u16 | i32 | u32 | i64 | u64 | f32 | f64
  deriving Repr, DecidableEq

/-- `sizeof(T)`. -/
def ScalarType.size : ScalarType → Nat
  | .i8 | .u8 => 1
  | .i16 | .u16 => 2
  | .i32 | .u32 | .f32 => 4
  | .i64 | .u64 | .f64 => 8

/-- The octets of an integer of `n` octets as the host keeps them. -/
def hostOctets (n v : Nat) : Bytes :=
  if e.bigEndian then (octets n v).reverse else octets n v

/-- The integer that octets stand for on the host. -/
def hostValue (b : Bytes) : Nat :=
  ofBits (Lib.Bits.unpack (if e.bigEndian then b.reverse else b))

/-- `zcio_serial_write_T`, of the bits of the value. -/
def zcioSerialWriteScalar (t : ScalarType) (z : Serial σ) (v : BitVec (8 * t.size)) : Serial σ :=
  (zcioSerialWriteBytes e z (hostOctets e t.size v.toNat)).2

/-- `zcio_serial_read_T`. -/
def zcioSerialReadScalar (t : ScalarType) (z : Serial σ) : BitVec (8 * t.size) × Serial σ :=
  let (_, b, z) := zcioSerialReadBytes e z (List.replicate t.size 0)
  (BitVec.ofNat _ (hostValue e b), z)

/-! ### Strings

The length first, as eight octets. -/

/-- `zcio_serial_write_str`. -/
def zcioSerialWriteStr (z : Serial σ) (s : Bytes) : Serial σ :=
  let z := (zcioSerialWriteBytes e z (hostOctets e 8 (s.length % 2 ^ 64))).2
  if s.length ≠ 0 then (zcioSerialWriteBytes e z s).2 else z

/-- A `uint64_t` as an `int64_t`. -/
def toInt64 (n : Nat) : Int := if n < 2 ^ 63 then n else n - 2 ^ 64

/-- `STREAM_READ_CAP`. -/
def streamReadCap : Nat := 256 * 1024 * 1024

/-- The length that `zcio_serial_read_str` lets a string declare. A block has less than 2^63 octets. -/
def readStrMax (z : Serial σ) : Nat :=
  match z.mode with
  | .buffer buf rpos _ =>
    if rpos ≤ buf.length then buf.length - rpos else (buf.length - toInt64 rpos).toNat
  | .count total _ rpos => (toInt64 total - toInt64 rpos).toNat
  | .stream _ => streamReadCap

/-- `zcio_serial_read_str` once the length is there. -/
def readStrBody (z : Serial σ) (n : Nat) : Option Bytes × Serial σ :=
  if n = 2 ^ 64 - 1 ∨ n > readStrMax z then (none, z)
  else if n = 0 then (some [], z)
  else
    let (got, out, z) := zcioSerialReadBytes e z (List.replicate n 0)
    (some (out.take got), z)

/-- `zcio_serial_read_str`; NULL is `none`. -/
def zcioSerialReadStr (z : Serial σ) : Option Bytes × Serial σ :=
  let (r, b, z) := zcioSerialReadBytes e z (List.replicate 8 0)
  if r ≠ 8 then (none, z) else readStrBody e z (hostValue e b)

/-! ### Positions and the end

The positions are stored as they are given. -/

/-- `zcio_serial_synchronize`. The flush of the stream moves no octets of the serial. -/
def zcioSerialSynchronize (z : Serial σ) : Serial σ :=
  if 0 < z.bitsWritten ∧ z.bitsWritten < 8 then
    zcioSerialWriteByte e { z with bitsWritten := 8 } z.curWriteByte
  else z

/-- `zcio_serial_write_pos`, of a serial that does not ask its stream. -/
def zcioSerialWritePos (z : Serial σ) : Option Int :=
  match z.mode with
  | .count _ wpos _ => some (toInt64 wpos)
  | .buffer _ _ wpos => some (toInt64 wpos)
  | .stream _ => none

/-- The two bits of `zcio_seek_which`. -/
inductive SeekWhich where
  | read | write
  deriving Repr, DecidableEq

/-- `zcio_serial_set_write_pos`; `seek` is `zcio_seek` of a stream from its start. -/
def zcioSerialSetWritePos (seek : σ → UInt64 → SeekWhich → σ) (z : Serial σ) (i : UInt64) : Serial σ :=
  match z.mode with
  | .count total _ rpos => { z with mode := .count total i.toNat rpos }
  | .buffer buf rpos _ => { z with mode := .buffer buf rpos i.toNat }
  | .stream s => { z with mode := .stream (seek s i .write) }

/-- `zcio_serial_set_read_pos`. -/
def zcioSerialSetReadPos (seek : σ → UInt64 → SeekWhich → σ) (z : Serial σ) (i : UInt64) : Serial σ :=
  match z.mode with
  | .count total wpos _ => { z with mode := .count total wpos i.toNat }
  | .buffer buf _ wpos => { z with mode := .buffer buf i.toNat wpos }
  | .stream s => { z with mode := .stream (seek s i .read) }

theorem le_bufferCap (size pos : Nat) : size - pos ≤ bufferCap size pos := by
  rw [bufferCap]
  split <;> omega

theorem bufferCap_eq {size pos : Nat} (h : pos ≤ size) : bufferCap size pos = size - pos := if_pos h

/-! ### Sequences of operations -/

/-- A write with its value, or what a read returned. -/
inductive SerialVal where
  | bit (b : Bool)
  | bits (b : Bytes)
  | byte (b : UInt8)
  | bytes (b : Bytes)
  | scalar (t : ScalarType) (v : BitVec (8 * t.size))
  | str (s : Bytes)
  deriving Repr, DecidableEq

/-- An operation without its value. -/
inductive SerialOp where
  | bit
  | bits (n : Nat)
  | byte
  | bytes (n : Nat)
  | scalar (t : ScalarType)
  | str
  deriving Repr, DecidableEq

/-- The operation that a value belongs to. -/
def SerialVal.op : SerialVal → SerialOp
  | .bit _ => .bit
  | .bits b => .bits b.length
  | .byte _ => .byte
  | .bytes b => .bytes b.length
  | .scalar t _ => .scalar t
  | .str _ => .str

/-- The write of a value. -/
def SerialVal.write (z : Serial σ) : SerialVal → Serial σ
  | .bit b => zcioSerialWriteBit e z b
  | .bits b => zcioSerialWriteBits e z b
  | .byte b => zcioSerialWriteByte e z b
  | .bytes b => (zcioSerialWriteBytes e z b).2
  | .scalar t v => zcioSerialWriteScalar e t z v
  | .str s => zcioSerialWriteStr e z s

/-- A read, into zeroed memory; NULL is `none`. -/
def SerialOp.read (z : Serial σ) : SerialOp → Option SerialVal × Serial σ
  | .bit => let (b, z) := zcioSerialReadBit e z; (some (.bit b), z)
  | .bits n => let (b, z) := zcioSerialReadBits e z (List.replicate n 0); (some (.bits b), z)
  | .byte => let (b, z) := zcioSerialReadByte e z; (some (.byte b), z)
  | .bytes n =>
    let (_, b, z) := zcioSerialReadBytes e z (List.replicate n 0); (some (.bytes b), z)
  | .scalar t => let (v, z) := zcioSerialReadScalar e t z; (some (.scalar t v), z)
  | .str => let (s, z) := zcioSerialReadStr e z; (s.map .str, z)

/-- Writes one after the other, and the call of `zcio_serial_synchronize` behind them. -/
def serialWrite (z : Serial σ) (vs : List SerialVal) : Serial σ :=
  zcioSerialSynchronize e (vs.foldl (SerialVal.write e) z)

/-- Reads one after the other. -/
def serialRead (z : Serial σ) : List SerialOp → List (Option SerialVal) × Serial σ
  | [] => ([], z)
  | op :: ops =>
    let (v, z) := op.read e z
    let (vs, z) := serialRead z ops
    (v :: vs, z)

end Zcio
