import Zcio.Serial.Plain

/-!
# Zcio.Serial.Count

The sizing pass. A serial in count mode does not pack bits, whatever the serial does that it is
to size: what it tallies are the octets of a serial with `bit_stream` off.
-/

namespace Zcio

open Lib.Bits

variable {σ : Type} {e : SerialHost σ} (S : Sink e.toStreamVt)

/-- A stream behind `base` and `o` more octets, and a serial that has counted the latter. -/
def Counts (base : Nat) (m m' : SerialMode σ) (o n : Nat) : Prop :=
  (Serial.out S { mode := m }).length = base + o ∧ Serial.room S { mode := m } n ∧
    ∃ t r, m' = .count t (o % 2 ^ 64) r

variable {S}

theorem counts_raw (base : Nat) : RawAlike e (Counts S base) := by
  rintro m m' k n src ⟨hout, hroom, t, r, rfl⟩ hn
  obtain ⟨m₁, heq, -, hout', hroom'⟩ := rawWrite_ok (e := e) S hroom hn
  refine ⟨?_, ?_, (t + src.length) % 2 ^ 64, r, ?_⟩
  · unfold rawMode
    rw [heq]
    refine (congrArg List.length hout').trans ?_
    rw [List.length_append, hout]
    omega
  · unfold rawMode
    rw [heq]
    exact hroom'
  · simp only [rawMode, rawWrite]
    congr 1
    omega

/-- **What the sizing pass counts**: the octets of a stream that does not pack bits, which are
those of the bits that are not lost. -/
theorem serialWrite_counts {s : σ} {n : Nat} (vs : List SerialVal) (hroom : S.room s n)
    (hn : (vs.flatMap (SerialVal.toBits e)).length ≤ 8 * n) :
    let o := ((vs.flatMap (SerialVal.toBits e)).length -
      droppedBits 0 (vs.map SerialVal.op) + 7) / 8
    (Serial.out S (serialWrite e (zcioSerialNew s false) vs)).length = (S.written s).length + o ∧
      zcioSerialWritePos (serialWrite e (zcioSerialNewCount (σ := σ)) vs) =
        some (toInt64 (o % 2 ^ 64)) := by
  have hstart : Alike (Counts S (S.written s).length) (zcioSerialNew s false) zcioSerialNewCount 0
      (vs.flatMap (SerialVal.toBits e)).length :=
    ⟨rfl, rfl, Nat.zero_lt_succ 7, rfl, rfl, 0, n, ⟨rfl, hroom, 0, 0, rfl⟩, rfl, by
      simpa [zcioSerialNew] using hn⟩
  obtain ⟨n', hout, -, t, r, hcount⟩ := serialWrite_alike (counts_raw _) vs hstart
  rw [Nat.zero_add] at hout hcount
  refine ⟨hout, ?_⟩
  unfold zcioSerialWritePos
  rw [hcount]
  rfl

theorem toInt64_mod_eq {o n : Nat} (h : o ≤ n) :
    toInt64 (o % 2 ^ 64) = (n : Int) ↔ o = n ∧ n < 2 ^ 63 := by
  unfold toInt64
  split_ifs <;> omega

/-- **The sizing pass.** It gives the size that a stream gets with either setting of
`bit_stream` if and only if the bits lost without packing do not make up an octet (and the size
fits the result). -/
theorem serial_count {vt : StreamVt σ} (bigEndian : Bool) (S : Sink vt) (vs : List SerialVal) :
    let e : SerialHost σ := { toStreamVt := vt, bigEndian }
    let bits := (vs.flatMap (SerialVal.toBits e)).length
    let size := fun bitStream s =>
      (Serial.out (e := e) S (serialWrite e (zcioSerialNew s bitStream) vs)).length -
        (S.written s).length
    let pos := zcioSerialWritePos (serialWrite e (zcioSerialNewCount (σ := σ)) vs)
    ∀ s, S.room s ((bits + 7) / 8) →
      ((∀ bitStream, pos = some ((size bitStream s : Nat) : Int)) ↔
        (bits - droppedBits 0 (vs.map SerialVal.op) + 7) / 8 = (bits + 7) / 8 ∧
          (bits + 7) / 8 < 2 ^ 63) := by
  intro e bits size pos s hroom
  obtain ⟨hplain, hcount⟩ := serialWrite_counts (e := e) vs hroom (by omega)
  obtain ⟨out, hout, k, hk, hbits⟩ := serialWrite_packed (e := e) vs rfl (.inl rfl)
    (zcioSerialNew_packed hroom (by omega))
  have hfalse : size false s = (bits - droppedBits 0 (vs.map SerialVal.op) + 7) / 8 := by
    simp only [size]
    omega
  have htrue : size true s = (bits + 7) / 8 := by
    simp only [size]
    rw [hout, List.length_append, Nat.add_sub_cancel_left]
    exact length_of_unpack hk hbits
  have hle : (bits - droppedBits 0 (vs.map SerialVal.op) + 7) / 8 ≤ (bits + 7) / 8 := by omega
  simp only [pos, hcount, Bool.forall_bool, hfalse, htrue, Option.some_inj]
  rw [toInt64_mod_eq le_rfl, toInt64_mod_eq hle]
  constructor
  · exact fun h => h.2
  · exact fun h => ⟨⟨rfl, h.1.trans_lt h.2⟩, h⟩

/-- An integer and a string: 15 octets in every mode. -/
theorem serial_count_fifteen :
    let e : SerialHost MemBuf := { toStreamVt := memVt }
    let vs : List SerialVal := [.scalar .i32 7, .str [97, 98, 99]]
    let s : MemBuf := { data := List.replicate 15 0 }
    ∀ bitStream, zcioSerialWritePos (serialWrite e (zcioSerialNewCount (σ := MemBuf)) vs) =
      some (((Serial.out (e := e) memSink (serialWrite e (zcioSerialNew s bitStream) vs)).length -
        (memSink.written s).length : Nat) : Int) := by
  have hroom : memSink.room { data := List.replicate 15 0 } 15 := Nat.le_refl 15
  exact (serial_count false memSink [.scalar .i32 7, .str [97, 98, 99]] _ hroom).mpr
    ⟨by decide, by decide⟩

/-- A bit in front of a byte: a stream that packs bits has two octets of them, and the sizing pass drops
the bit. -/
theorem serial_count_bits :
    let e : SerialHost MemBuf := { toStreamVt := memVt }
    let vs : List SerialVal := [.bit true, .byte 5]
    let pos := zcioSerialWritePos (serialWrite e (zcioSerialNewCount (σ := MemBuf)) vs)
    let out := Serial.out (e := e) memSink (serialWrite e (zcioSerialNew { data := [0, 0] } true) vs)
    pos = some 1 ∧ out = [11, 0] ∧ pos ≠ some (out.length : Int) := by
  decide

end Zcio
