import Zcio.HttpUtil.Hdrs

/-!
# Zcio.HttpUtil.Buf

**The growable byte buffer is a byte queue.** `BufMem` is `zhs_buf` with the block of memory
behind it: growth by doubling, allocations that fail, consumed octets that stay until they are
compacted away. A run of any operations reads as the abstract queue after the same operations
(`zhsBuf_refines_queue`); an operation that fails is none.

The protocol modules work on `ZhsBuf`, which keeps the readable region only and whose
allocations succeed. `append_view` and `consume_view` connect the two.
-/

namespace Zcio

/-- An answer of `realloc`: `none`, or what its block holds where nothing has been written. -/
abbrev Realloc := Option (Nat → UInt8)

/-- A block that `realloc` has brought to `cap` octets: the old octets stay in front. -/
def reallocBlock (data : Bytes) (cap : Nat) (fresh : Nat → UInt8) : Bytes :=
  (data ++ (List.range (cap - data.length)).map fresh).take cap

/-- `memcpy` and `memmove`: the block with `s` written at `pos`. -/
def blockWrite (data : Bytes) (pos : Nat) (s : Bytes) : Bytes :=
  data.take pos ++ s ++ data.drop (pos + s.length)

/-- `zhs_buf`, with the octets `data` points at. -/
structure BufMem where
  data : Bytes := []
  off : Nat := 0
  len : Nat := 0
  cap : Nat := 0

namespace BufMem

/-- `ZHS_AVAIL`. -/
def avail (b : BufMem) : Nat := sizeSub b.len b.off

/-- The readable region `data[off, len)`. -/
def readable (b : BufMem) : Bytes := (b.data.take b.len).drop b.off

/-- The loop of `zhs_buf_reserve_`: double until `need` fits, without wrapping. -/
def growCap (need cap : Nat) (hcap : 0 < cap) : Nat :=
  if cap < need then
    if cap > SIZE_MAX / 2 then need else growCap need (cap * 2) (by omega)
  else cap
termination_by need - cap

theorem firstCap_pos (cap : Nat) : 0 < if cap ≠ 0 then cap else 256 := by
  split <;> omega

/-- `zhs_buf_reserve_`: room for `extra` octets behind `len`. -/
def reserve (b : BufMem) (extra : Nat) (r : Realloc) : Except ZcioResult Unit × BufMem :=
  if extra > sizeSub SIZE_MAX b.len then (.error .nomem, b)
  else
    let need := sizeAdd b.len extra
    if need ≤ b.cap then (.ok (), b)
    else
      let cap := growCap need (if b.cap ≠ 0 then b.cap else 256) (firstCap_pos b.cap)
      match r with
      | none => (.error .nomem, b)
      | some fresh => (.ok (), { b with data := reallocBlock b.data cap fresh, cap })

/-- `zhs_buf_append_`. -/
def append (b : BufMem) (s : Bytes) (r : Realloc) : Except ZcioResult Unit × BufMem :=
  if s.length = 0 then (.ok (), b)
  else
    match b.reserve s.length r with
    | (.error e, b) => (.error e, b)
    | (.ok (), b) =>
      (.ok (), { b with data := blockWrite b.data b.len s, len := sizeAdd b.len s.length })

/-- `zhs_buf_consume_`: clamp, advance `off`, and compact. -/
def consume (b : BufMem) (n : Nat) : BufMem :=
  let n := if n > b.avail then b.avail else n
  let b := { b with off := sizeAdd b.off n }
  if b.off = b.len then { b with off := 0, len := 0 }
  else if b.off ≥ 4096 ∧ b.off ≥ sizeSub b.len b.off then
    -- the two regions may overlap: the source is read as a whole
    { b with
      data := blockWrite b.data 0 ((b.data.drop b.off).take (sizeSub b.len b.off))
      len := sizeSub b.len b.off
      off := 0 }
  else b

/-- `zhs_buf_reset_`. -/
def reset (b : BufMem) : BufMem := { b with off := 0, len := 0 }

end BufMem

/-! ### Runs, and the queue

The operations in any order, each with its own answer of `realloc`, and the queue of octets
they stand for. -/

/-- A call on the buffer, with the answer that `realloc` gives if the call comes to it. -/
inductive BufOp where
  | reserve (extra : Nat) (r : Realloc)
  | append (s : Bytes) (r : Realloc)
  | consume (n : Nat)
  | reset

/-- One call: its result code and the buffer it leaves. -/
def BufMem.step (b : BufMem) : BufOp → Except ZcioResult Unit × BufMem
  | .reserve extra r => b.reserve extra r
  | .append s r => b.append s r
  | .consume n => (.ok (), b.consume n)
  | .reset => (.ok (), b.reset)

/-- The calls one after another: their result codes and the buffer they leave. -/
def BufMem.run (b : BufMem) : List BufOp → List (Except ZcioResult Unit) × BufMem
  | [] => ([], b)
  | op :: ops =>
    let (res, b) := b.step op
    let (ress, b) := BufMem.run b ops
    (res :: ress, b)

/-- The abstract byte queue: what a call with a result does to the content. Only an append that
succeeded adds, and reserving is invisible. -/
def queueStep (q : Bytes) : BufOp → Except ZcioResult Unit → Bytes
  | .append s _, .ok () => q ++ s
  | .append _ _, .error _ => q
  | .reserve _ _, _ => q
  | .consume n, _ => q.drop n
  | .reset, _ => []

/-- The queue after the calls with these results. -/
def queueRun (q : Bytes) (calls : List (BufOp × Except ZcioResult Unit)) : Bytes :=
  calls.foldl (fun q call => queueStep q call.1 call.2) q

/-! ### Blocks

The octets in front of the index stay where they are when a block grows. -/

theorem length_reallocBlock (data : Bytes) (cap : Nat) (fresh : Nat → UInt8) :
    (reallocBlock data cap fresh).length = cap := by
  simp only [reallocBlock, List.length_take, List.length_append, List.length_map, List.length_range]
  omega

/-- What stood in front stays, up to the new size. -/
theorem take_reallocBlock {data : Bytes} {k cap : Nat} (fresh : Nat → UInt8)
    (hk : k ≤ data.length) (hcap : k ≤ cap) : (reallocBlock data cap fresh).take k = data.take k := by
  rw [reallocBlock, List.take_take, Nat.min_eq_left hcap, List.take_append_of_le_length hk]

theorem length_blockWrite {data s : Bytes} {pos : Nat} (h : pos + s.length ≤ data.length) :
    (blockWrite data pos s).length = data.length := by
  simp only [blockWrite, List.length_append, List.length_take, List.length_drop]
  omega

/-- The block up to the end of what was written. -/
theorem take_blockWrite {data s : Bytes} {pos : Nat} (h : pos ≤ data.length) :
    (blockWrite data pos s).take (pos + s.length) = data.take pos ++ s := by
  have hlen : (data.take pos ++ s).length = pos + s.length := by
    rw [List.length_append, List.length_take, Nat.min_eq_left h]
  rw [blockWrite, List.take_append_of_le_length (Nat.le_of_eq hlen.symm), ← hlen, List.take_length]

namespace BufMem

/-- What holds of a buffer between calls. The last field bounds the dead prefix. -/
structure Inv (b : BufMem) : Prop where
  size : b.data.length = b.cap
  off_le : b.off ≤ b.len
  len_le : b.len ≤ b.cap
  cap_le : b.cap ≤ SIZE_MAX
  dead : b.off = 0 ∨ b.off < 4096 ∨ b.off < b.len - b.off

theorem Inv.init : Inv {} where
  size := rfl
  off_le := Nat.le_refl 0
  len_le := Nat.le_refl 0
  cap_le := Nat.zero_le _
  dead := .inl rfl

variable {b : BufMem}

theorem Inv.len_lt (h : b.Inv) : b.len < 2 ^ 64 := by
  have := h.len_le
  have := h.cap_le
  simp only [SIZE_MAX] at this
  omega

theorem Inv.avail_eq (h : b.Inv) : b.avail = b.len - b.off := sizeSub_of_le h.off_le h.len_lt

theorem Inv.length_readable (h : b.Inv) : b.readable.length = b.len - b.off := by
  have := h.len_le
  rw [readable, List.length_drop, List.length_take, h.size, Nat.min_eq_left this]

/-! ### Reserve and append

An append is refused only where the size does not fit a `size_t` or `realloc` has refused.
-/

/-- Doubling ends with a capacity that suffices and is a `size_t`. -/
theorem growCap_spec {need cap : Nat} (hcap : 0 < cap) (hneed : need ≤ SIZE_MAX)
    (hmax : cap ≤ SIZE_MAX) :
    need ≤ growCap need cap hcap ∧ growCap need cap hcap ≤ SIZE_MAX := by
  fun_induction growCap need cap hcap with
  | case1 cap hcap hlt hbig => exact ⟨Nat.le_refl need, hneed⟩
  | case2 cap hcap hlt hsmall ih => exact ih (by omega)
  | case3 cap hcap hge => exact ⟨by omega, hmax⟩

/-- Reserving `extra` octets is refused: the size is no `size_t`, or the block has to grow and
`realloc` has none. -/
def Refused (b : BufMem) (extra : Nat) (r : Realloc) : Prop :=
  SIZE_MAX < b.len + extra ∨ b.cap < b.len + extra ∧ r = none

/-- **Reserving**: it is refused and nothing changes, or there is room behind the same octets. -/
theorem reserve_cases (h : b.Inv) (extra : Nat) (r : Realloc) :
    b.Refused extra r ∧ b.reserve extra r = (.error .nomem, b) ∨
    ¬b.Refused extra r ∧ ∃ data cap, b.reserve extra r = (.ok (), { b with data, cap }) ∧
      b.len + extra ≤ cap ∧ cap ≤ SIZE_MAX ∧ data.length = cap ∧
      data.take b.len = b.data.take b.len := by
  have hcap := h.cap_le
  have hlen := h.len_le.trans hcap
  have hsub : sizeSub SIZE_MAX b.len = SIZE_MAX - b.len := sizeSub_of_le hlen (by decide)
  rw [reserve, hsub]
  -- the size asked for does not fit a size_t
  by_cases hextra : extra > SIZE_MAX - b.len
  · rw [if_pos hextra]
    exact .inl ⟨.inl (by omega), rfl⟩
  have hneed : b.len + extra ≤ SIZE_MAX := by omega
  rw [if_neg hextra, sizeAdd_of_lt (Nat.lt_of_le_of_lt hneed (by decide))]
  dsimp only
  -- there is room already
  by_cases hfits : b.len + extra ≤ b.cap
  · rw [if_pos hfits]
    have hroom : ¬b.Refused extra r := by
      rintro (hbig | ⟨hgrow, -⟩) <;> omega
    exact .inr ⟨hroom, b.data, b.cap, rfl, hfits, hcap, h.size, rfl⟩
  -- the block has to grow, and realloc may refuse
  rw [if_neg hfits]
  cases r with
  | none => exact .inl ⟨.inr ⟨by omega, rfl⟩, rfl⟩
  | some fresh =>
    have hroom : ¬b.Refused extra (some fresh) := by
      rintro (hbig | ⟨-, hnone⟩)
      · omega
      · cases hnone
    -- the doubling starts below the limit
    have hfirst : (if b.cap ≠ 0 then b.cap else 256) ≤ SIZE_MAX := by
      split
      · exact hcap
      · decide
    obtain ⟨hge, hle⟩ := growCap_spec (firstCap_pos b.cap) hneed hfirst
    have hdata : b.len ≤ b.data.length := h.size ▸ h.len_le
    exact .inr ⟨hroom, _, _, rfl, hge, hle, length_reallocBlock _ _ _,
      take_reallocBlock fresh hdata (by omega)⟩

/-- Room for the octets changes nothing that can be read. -/
theorem reserve_spec (h : b.Inv) (extra : Nat) (r : Realloc) :
    (b.reserve extra r).2.Inv ∧ (b.reserve extra r).2.readable = b.readable := by
  rcases reserve_cases h extra r with ⟨-, hres⟩ | ⟨-, data, cap, hres, hroom, hmax, hsize, htake⟩
  · rw [hres]
    exact ⟨h, rfl⟩
  · rw [hres]
    refine ⟨⟨hsize, h.off_le, (Nat.le_add_right _ _).trans hroom, hmax, h.dead⟩, ?_⟩
    rw [readable, htake, readable]

/-- Nothing is refused when nothing is asked for. -/
theorem Inv.not_refused_zero (h : b.Inv) (r : Realloc) : ¬b.Refused 0 r := by
  have hlen := h.len_le
  have hcap := h.cap_le
  rintro (hbig | ⟨hgrow, -⟩) <;> omega

/-- **Appending**: it is refused and nothing changes, or the octets stand behind what was
readable. -/
theorem append_cases (h : b.Inv) (s : Bytes) (r : Realloc) :
    b.Refused s.length r ∧ b.append s r = (.error .nomem, b) ∨
    ¬b.Refused s.length r ∧ ∃ b', b.append s r = (.ok (), b') ∧ b'.Inv ∧ b'.off = b.off ∧
      b'.readable = b.readable ++ s := by
  rw [append]
  -- an empty append asks for nothing
  by_cases hs : s.length = 0
  · rw [if_pos hs]
    obtain rfl := List.eq_nil_of_length_eq_zero hs
    exact .inr ⟨h.not_refused_zero r, b, rfl, h, rfl, (List.append_nil _).symm⟩
  rw [if_neg hs]
  rcases reserve_cases h s.length r with
    ⟨hno, hres⟩ | ⟨hok, data, cap, hres, hroom, hmax, hsize, htake⟩
  · rw [hres]
    exact .inl ⟨hno, rfl⟩
  · rw [hres]
    have hoff := h.off_le
    have hdead := h.dead
    have hle : b.len ≤ data.length := by omega
    have hadd : sizeAdd b.len s.length = b.len + s.length :=
      sizeAdd_of_lt (Nat.lt_of_le_of_lt (hroom.trans hmax) (by decide))
    -- the octets stand behind the ones that were readable
    refine .inr ⟨hok, _, rfl, ⟨?_, ?_, ?_, hmax, ?_⟩, rfl, ?_⟩ <;> dsimp only
    · rw [length_blockWrite (by omega), hsize]
    · omega
    · omega
    · omega
    · have hin : b.off ≤ (b.data.take b.len).length := by
        rw [List.length_take, h.size, Nat.min_eq_left h.len_le]
        exact hoff
      rw [readable, readable, hadd, take_blockWrite hle, htake, List.drop_append_of_le_length hin]

/-! ### Consume -/

/-- `consume` without the arithmetic of `size_t`. -/
theorem consume_eq (h : b.Inv) (n : Nat) :
    b.consume n =
      let off := b.off + min n (b.len - b.off)
      if off = b.len then { b with off := 0, len := 0 }
      else if off ≥ 4096 ∧ off ≥ b.len - off then
        { b with
          data := blockWrite b.data 0 ((b.data.drop off).take (b.len - off))
          len := b.len - off
          off := 0 }
      else { b with off } := by
  have hoff := h.off_le
  have hlt := h.len_lt
  have hclamp : (if n > b.avail then b.avail else n) = min n (b.len - b.off) := by
    rw [h.avail_eq]
    split <;> omega
  have hadd : sizeAdd b.off (min n (b.len - b.off)) = b.off + min n (b.len - b.off) :=
    sizeAdd_of_lt (by omega)
  rw [consume, hclamp]
  dsimp only
  rw [hadd, sizeSub_of_le (by omega) hlt]

/-- **Consuming** drops from the front, whatever becomes of the memory. -/
theorem consume_spec (h : b.Inv) (n : Nat) :
    (b.consume n).Inv ∧ (b.consume n).readable = b.readable.drop n := by
  have hoff := h.off_le
  have hlen := h.len_le
  rw [consume_eq h]
  dsimp only
  by_cases hempty : b.off + min n (b.len - b.off) = b.len
  · rw [if_pos hempty]
    refine ⟨⟨h.size, Nat.le_refl 0, Nat.zero_le _, h.cap_le, .inl rfl⟩, ?_⟩
    have hall : b.readable.length ≤ n := by
      rw [h.length_readable]
      omega
    rw [List.drop_of_length_le hall]
    rfl
  rw [if_neg hempty]
  -- fewer octets are consumed than there are
  have hn : min n (b.len - b.off) = n := by omega
  rw [hn] at hempty ⊢
  have hrest : b.readable.drop n = (b.data.drop (b.off + n)).take (b.len - (b.off + n)) := by
    rw [readable, List.drop_drop, List.drop_take]
  rw [hrest]
  by_cases hdead : b.off + n ≥ 4096 ∧ b.off + n ≥ b.len - (b.off + n)
  · rw [if_pos hdead]
    have hmoved : ((b.data.drop (b.off + n)).take (b.len - (b.off + n))).length =
        b.len - (b.off + n) := by
      rw [List.length_take, List.length_drop, h.size]
      omega
    refine ⟨⟨?_, Nat.zero_le _, (Nat.sub_le _ _).trans hlen, h.cap_le, .inl rfl⟩, ?_⟩
    · rw [length_blockWrite (by rw [hmoved, h.size]; omega), h.size]
    · have htake := take_blockWrite (s := (b.data.drop (b.off + n)).take (b.len - (b.off + n)))
        (Nat.zero_le b.data.length)
      rw [hmoved, Nat.zero_add, List.take_zero, List.nil_append] at htake
      rw [readable, List.drop_zero, htake]
  · rw [if_neg hdead]
    have hoff' : b.off + n ≤ b.len := by omega
    have hbound : b.off + n = 0 ∨ b.off + n < 4096 ∨ b.off + n < b.len - (b.off + n) := by omega
    refine ⟨⟨h.size, hoff', hlen, h.cap_le, hbound⟩, ?_⟩
    rw [readable, List.drop_take]

/-! ### Runs -/

/-- Every call keeps the invariant and does to the readable region what it does to the queue. -/
theorem step_refines (h : b.Inv) (op : BufOp) :
    (b.step op).2.Inv ∧ (b.step op).2.readable = queueStep b.readable op (b.step op).1 := by
  cases op with
  | reserve extra r =>
    obtain ⟨hinv, hread⟩ := reserve_spec h extra r
    exact ⟨hinv, by simpa only [step, queueStep] using hread⟩
  | append s r =>
    rw [step]
    rcases append_cases h s r with ⟨-, hres⟩ | ⟨-, b', hres, hinv, -, hread⟩
    · rw [hres]
      exact ⟨h, rfl⟩
    · rw [hres]
      exact ⟨hinv, hread⟩
  | consume n => exact consume_spec h n
  | reset =>
    exact ⟨⟨h.size, Nat.le_refl 0, Nat.zero_le _, h.cap_le, .inl rfl⟩, rfl⟩

/-- **A run is a run of the queue.** -/
theorem run_refines (h : b.Inv) (ops : List BufOp) :
    (b.run ops).2.Inv ∧ (b.run ops).2.readable = queueRun b.readable (ops.zip (b.run ops).1) := by
  induction ops generalizing b with
  | nil => exact ⟨h, rfl⟩
  | cons op ops ih =>
    obtain ⟨hinv, hread⟩ := step_refines h op
    have hrest := ih hinv
    rw [hread] at hrest
    exact hrest

/-! ### The buffer of the protocol modules

The protocol modules use a buffer without its memory; it is the readable part of this one.
-/

/-- The buffer as the protocol modules see it. -/
def view (b : BufMem) : ZhsBuf := { off := b.off, rd := b.readable }

/-- An append that succeeds is `ZhsBuf.append`. -/
theorem append_view (h : b.Inv) {s : Bytes} {r : Realloc} (hok : (b.append s r).1 = .ok ()) :
    (b.append s r).2.view = b.view.append s := by
  rcases append_cases h s r with ⟨-, hres⟩ | ⟨-, b', hres, -, hoff, hread⟩
  · rw [hres] at hok
    cases hok
  · rw [hres, view, hoff, hread]
    rfl

/-- A consume is `ZhsBuf.consume`: both compact at the same time. -/
theorem consume_view (h : b.Inv) (n : Nat) : (b.consume n).view = b.view.consume n := by
  have hrd : (b.consume n).readable = (b.view.consume n).rd :=
    (consume_spec h n).2.trans (ZhsBuf.rd_consume b.view n).symm
  have hoff : (b.consume n).off = (b.view.consume n).off := by
    have hle := h.off_le
    have hrest : (b.readable.drop (min n (b.len - b.off))).length =
        b.len - (b.off + min n (b.len - b.off)) := by
      rw [List.length_drop, h.length_readable]
      omega
    rw [consume_eq h]
    simp only [ZhsBuf.consume, ZhsBuf.avail, view, h.length_readable, hrest]
    by_cases hempty : b.off + min n (b.len - b.off) = b.len
    · rw [if_pos hempty, if_pos (by omega)]
    · have hrem : ¬b.len - (b.off + min n (b.len - b.off)) = 0 := by omega
      rw [if_neg hempty, if_neg hrem]
      by_cases hdead : 4096 ≤ b.off + min n (b.len - b.off) ∧
          b.len - (b.off + min n (b.len - b.off)) ≤ b.off + min n (b.len - b.off)
      · rw [if_pos hdead, if_pos hdead]
      · rw [if_neg hdead, if_neg hdead]
  rw [view, hrd, hoff]

end BufMem

/-- **`zhs_buf` is a byte queue.** After any calls, any of whose allocations may have failed, what
can be read is the queue's content, the region lies inside the block, and a further consume leaves
a bounded dead prefix. A further reserve or append succeeds unless it is refused memory that it
needs, or the size passes `SIZE_MAX`; one that fails leaves the buffer as it is. -/
theorem zhsBuf_refines_queue (ops : List BufOp) :
    let b := (BufMem.run {} ops).2
    b.readable = queueRun [] (ops.zip (BufMem.run {} ops).1) ∧
    b.off ≤ b.len ∧ b.len ≤ b.cap ∧ b.data.length = b.cap ∧
    (∀ n, (b.consume n).off = 0 ∨ (b.consume n).off < 4096 ∨
      (b.consume n).off < (b.consume n).len - (b.consume n).off) ∧
    (∀ extra r, ((b.reserve extra r).1 = .ok () ↔ ¬b.Refused extra r) ∧
      ((b.reserve extra r).1 = .ok () ∨ (b.reserve extra r).2 = b)) ∧
    ∀ s r, ((b.append s r).1 = .ok () ↔ ¬b.Refused s.length r) ∧
      ((b.append s r).1 = .ok () ∨ (b.append s r).2 = b) := by
  intro b
  obtain ⟨hinv, hread⟩ := BufMem.run_refines BufMem.Inv.init ops
  refine ⟨hread, hinv.off_le, hinv.len_le, hinv.size, ?_, ?_, ?_⟩
  · intro n
    exact (BufMem.consume_spec hinv n).1.dead
  · intro extra r
    rcases BufMem.reserve_cases hinv extra r with ⟨hno, hres⟩ | ⟨hok, _, _, hres, -⟩
    · rw [hres]
      exact ⟨iff_of_false (fun h => nomatch h) (not_not_intro hno), .inr rfl⟩
    · rw [hres]
      exact ⟨iff_of_true rfl hok, .inl rfl⟩
  · intro s r
    rcases BufMem.append_cases hinv s r with ⟨hno, hres⟩ | ⟨hok, _, hres, -⟩
    · rw [hres]
      exact ⟨iff_of_false (fun h => nomatch h) (not_not_intro hno), .inr rfl⟩
    · rw [hres]
      exact ⟨iff_of_true rfl hok, .inl rfl⟩

end Zcio
