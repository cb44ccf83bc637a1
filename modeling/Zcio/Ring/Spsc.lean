import Zcio.Lib.Circular
import Zcio.Bytes

/-!
# Zcio.Ring.Spsc

The ring buffer of `ring.c` with one producer and one consumer. Every load of a cursor, every
`memcpy` and every publication of a cursor is one step; what is computed between two of them
goes with the one before it. The two sides take their steps in any order (`RingRun`).

`size_t` is 64 bits wide. The data block is a function of the slot; that only the slots below
`capacity` are ever touched is part of the invariant.
-/

namespace Zcio

open Lib.Circular (store load)

/-! ### The ring

The cursors and the block, with the arithmetic of `size_t`. -/

/-- What does not change about a ring: its slots, one of which stays empty, and the mode. -/
structure RingCfg where
  capacity : Nat
  nonBlocking : Bool := true
  pos : 0 < capacity
  le_max : capacity ≤ 2 ^ 62

/-- The shared block: `head` is the producer's cursor, `tail` the consumer's. -/
structure Ring where
  head : Nat := 0
  tail : Nat := 0
  data : Nat → UInt8

variable (g : RingCfg)

/-- `(h + capacity - t) % capacity`. -/
def ringStored (h t : Nat) : Nat := sizeSub (sizeAdd h g.capacity) t % g.capacity

/-- `(capacity - 1 + t - h) % capacity`. -/
def ringFree (h t : Nat) : Nat := sizeSub (sizeAdd (g.capacity - 1) t) h % g.capacity

/-- `zcio_ring_available_read`. -/
def zcioRingAvailableRead (r : Ring) : Nat := ringStored g r.head r.tail

/-- `zcio_ring_available_write`. -/
def zcioRingAvailableWrite (r : Ring) : Nat := ringFree g r.head r.tail

/-- `end`: how much of a chunk goes in front of the wrap. -/
def ringEnd (cursor chunk : Nat) : Nat :=
  if chunk < g.capacity - cursor then chunk else g.capacity - cursor

/-! ### The producer

A write in its steps: load, copy in front of the wrap, copy behind it, publish. -/

/-- Where a call of `zcio_ring_write` or `zcio_ring_read` stands. -/
inductive RingPc where
  /-- At the test of the loop. -/
  | test
  /-- `zcio_ring_available_*` has loaded `head`. -/
  | loaded (h : Nat)
  /-- It has returned. -/
  | avail (a : Nat)
  /-- The own cursor was loaded; the first copy comes next. -/
  | copy (cursor chunk : Nat)
  /-- The second copy comes next. -/
  | wrap (cursor chunk : Nat)
  /-- The cursor is to be published. -/
  | publish (cursor chunk : Nat)
  deriving Repr, DecidableEq

/-- The locals of `zcio_ring_write`. -/
structure WriteCall where
  src : Bytes
  written : Nat := 0
  fullSpins : Nat := 0
  pc : RingPc := .test
  deriving Repr, DecidableEq

/-- One step of `zcio_ring_write`; at the end its result. -/
def ringWriteStep (r : Ring) (c : WriteCall) : Ring × (WriteCall ⊕ Nat) :=
  match c.pc with
  | .test =>
    if c.written < c.src.length then (r, .inl { c with pc := .loaded r.head })
    else (r, .inr c.written)
  | .loaded h => (r, .inl { c with pc := .avail (ringFree g h r.tail) })
  | .avail a =>
    if a = 0 then
      if g.nonBlocking then
        if c.written > 0 ∨ c.fullSpins > 100 then (r, .inr c.written)
        else (r, .inl { c with fullSpins := c.fullSpins + 1, pc := .test })
      else (r, .inl { c with pc := .test })
    else (r, .inl { c with pc := .copy r.head (min a (c.src.length - c.written)) })
  | .copy h chunk =>
    let e := ringEnd g h chunk
    ({ r with data := store r.data h ((c.src.drop c.written).take e) },
      .inl { c with pc := if chunk > e then .wrap h chunk else .publish h chunk })
  | .wrap h chunk =>
    let e := ringEnd g h chunk
    ({ r with data := store r.data 0 ((c.src.drop (c.written + e)).take (chunk - e)) },
      .inl { c with pc := .publish h chunk })
  | .publish h chunk =>
    ({ r with head := sizeAdd h chunk % g.capacity },
      .inl { c with written := c.written + chunk, pc := .test })

/-! ### The consumer

A read, in the same steps. -/

/-- The locals of `zcio_ring_read`; `dst` is what was copied out so far. -/
structure ReadCall where
  n : Nat
  dst : Bytes := []
  got : Nat := 0
  emptySpins : Nat := 0
  pc : RingPc := .test
  deriving Repr, DecidableEq

/-- One step of `zcio_ring_read`; at the end the octets it returns. -/
def ringReadStep (r : Ring) (c : ReadCall) : Ring × (ReadCall ⊕ Bytes) :=
  match c.pc with
  | .test =>
    if c.got < c.n then (r, .inl { c with pc := .loaded r.head })
    else (r, .inr (c.dst.take c.got))
  | .loaded h => (r, .inl { c with pc := .avail (ringStored g h r.tail) })
  | .avail a =>
    if a = 0 then
      if g.nonBlocking then
        if c.got > 0 ∨ c.emptySpins > 1000000 then (r, .inr (c.dst.take c.got))
        else (r, .inl { c with emptySpins := c.emptySpins + 1, pc := .test })
      else (r, .inl { c with pc := .test })
    else (r, .inl { c with pc := .copy r.tail (min a (c.n - c.got)) })
  | .copy t chunk =>
    let e := ringEnd g t chunk
    (r, .inl { c with
      dst := c.dst.take c.got ++ load r.data t e
      pc := if chunk > e then .wrap t chunk else .publish t chunk })
  | .wrap t chunk =>
    let e := ringEnd g t chunk
    (r, .inl { c with
      dst := c.dst.take (c.got + e) ++ load r.data 0 (chunk - e)
      pc := .publish t chunk })
  | .publish t chunk =>
    ({ r with tail := sizeAdd t chunk % g.capacity },
      .inl { c with got := c.got + chunk, pc := .test })

/-! ### Both sides

The shared ring with a call of each side in progress. -/

/-- The ring with a producer and a consumer: the calls that are going on, and what the calls
before them were given and returned. -/
structure RingSys where
  ring : Ring
  writer : Option WriteCall := none
  reader : Option ReadCall := none
  writes : List (Bytes × Nat) := []
  reads : List Bytes := []

/-- The producer's next step. -/
def RingSys.stepWriter (s : RingSys) : RingSys :=
  match s.writer with
  | none => s
  | some c =>
    match ringWriteStep g s.ring c with
    | (ring, .inl c) => { s with ring, writer := some c }
    | (ring, .inr n) => { s with ring, writer := none, writes := s.writes ++ [(c.src, n)] }

/-- The consumer's next step. -/
def RingSys.stepReader (s : RingSys) : RingSys :=
  match s.reader with
  | none => s
  | some c =>
    match ringReadStep g s.ring c with
    | (ring, .inl c) => { s with ring, reader := some c }
    | (ring, .inr b) => { s with ring, reader := none, reads := s.reads ++ [b] }

/-- `zcio_ring_write` is called. -/
def RingSys.callWrite (s : RingSys) (src : Bytes) : RingSys := { s with writer := some { src } }

/-- `zcio_ring_read` is called. -/
def RingSys.callRead (s : RingSys) (n : Nat) : RingSys := { s with reader := some { n } }

/-- Calls of any sizes, one at a time on either side, and their steps in any order. -/
inductive RingRun : RingSys → Prop
  | init (data : Nat → UInt8) : RingRun { ring := { data } }
  | write {s : RingSys} (src : Bytes) : RingRun s → s.writer = none → RingRun (s.callWrite src)
  | read {s : RingSys} (n : Nat) : RingRun s → s.reader = none → RingRun (s.callRead n)
  | writer {s : RingSys} : RingRun s → RingRun (s.stepWriter g)
  | reader {s : RingSys} : RingRun s → RingRun (s.stepReader g)

/-- The octets written: what the finished writes took, and the one going on has published. -/
def RingSys.sent (s : RingSys) : Bytes :=
  (s.writes.map fun w => w.1.take w.2).flatten ++
    (s.writer.map fun c => c.src.take c.written).getD []

/-- The octets returned by the finished reads, and those the one going on has taken. -/
def RingSys.received (s : RingSys) : Bytes :=
  s.reads.flatten ++ (s.reader.map fun c => c.dst.take c.got).getD []

end Zcio
