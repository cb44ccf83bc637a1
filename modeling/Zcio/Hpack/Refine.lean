import Mathlib.Data.List.GetD
import Zcio.Hpack.Spec
import Zcio.Lib.Bits

/-!
# Zcio.Hpack.Refine

The decoder of `hpack.c` refines the list-based decoder of `Zcio.Hpack.Spec`.

The two read a block in lockstep: a position in the block against the octets from that
position on. The heart is the dynamic table. `ZhpDec.Inv` is what every table operation
keeps; under it `ZhpDec.abs` — the live slots of the deque, newest first — commutes with
eviction, insertion (through compaction and growth of the array) and lookup.
-/

namespace Zcio

open Hpack (Table leb within)
open Lib.Bits (and_eq_zero_iff)

/-! ### Integers

The loop over the octets of an integer against the sum of RFC 7541 5.1, up to the limit that
the code puts on it. -/

theorem and_80_eq_zero (b : UInt8) : b &&& 0x80 = 0 ↔ ¬128 ≤ b := by
  have hlt := b.toNat_lt
  rw [@and_eq_zero_iff b 0x80 7 rfl, UInt8.le_iff_toNat_le]
  change _ ↔ ¬128 ≤ b.toNat
  omega

theorem and_40_eq_zero (b : UInt8) (h : ¬128 ≤ b) : b &&& 0x40 = 0 ↔ ¬64 ≤ b := by
  rw [UInt8.le_iff_toNat_le] at h
  change ¬128 ≤ b.toNat at h
  rw [@and_eq_zero_iff b 0x40 6 rfl, UInt8.le_iff_toNat_le]
  change _ ↔ ¬64 ≤ b.toNat
  omega

theorem and_20_eq_zero (b : UInt8) (h : ¬64 ≤ b) : b &&& 0x20 = 0 ↔ ¬32 ≤ b := by
  rw [UInt8.le_iff_toNat_le] at h
  change ¬64 ≤ b.toNat at h
  rw [@and_eq_zero_iff b 0x20 5 rfl, UInt8.le_iff_toNat_le]
  change _ ↔ ¬32 ≤ b.toNat
  omega

theorem and_7f (b : UInt8) : b.toNat &&& 0x7f = b.toNat % 128 :=
  Nat.and_two_pow_sub_one_eq_mod b.toNat 7

/-- The octets of a continuation that say more follow. -/
def moreOctets (bs : Bytes) : Bytes := bs.takeWhile fun o => decide (128 ≤ o)

/-- The continuation loop after `k` octets, in closed form: it succeeds exactly on a
complete continuation of at most four octets in all whose value is under the cap. -/
theorem zhpIntCont_eq (p : Bytes) :
    ∀ (v k i : Nat), k ≤ 3 →
      (zhpIntCont v (7 * k) i p).toOption =
        match p.drop (moreOctets p).length with
        | [] => none
        | last :: _ =>
          let total := v + 2 ^ (7 * k) * leb (moreOctets p ++ [last])
          if k + (moreOctets p).length + 1 ≤ 4 ∧ total ≤ 2 ^ 24 then
            some (i + (moreOctets p).length + 1, total)
          else none := by
  -- one octet a round; the shift grows by seven with it
  induction p with
  | nil => intro v k i _; rfl
  | cons b rest ih =>
    intro v k i hk
    have hv : v + (b.toNat &&& 0x7f) <<< (7 * k) = v + 2 ^ (7 * k) * (b.toNat % 128) := by
      rw [and_7f, Nat.shiftLeft_eq, Nat.mul_comm]
    have hpow : (2 : Nat) ^ (7 * (k + 1)) = 2 ^ (7 * k) * 128 := by
      rw [Nat.mul_succ, Nat.pow_add]
    rw [zhpIntCont]
    dsimp only
    rw [hv]
    -- an octet with the top bit set goes on
    by_cases hb : 128 ≤ b
    · have hmore : moreOctets (b :: rest) = b :: moreOctets rest := by
        simp [moreOctets, hb]
      have hlen : (b :: moreOctets rest).length = (moreOctets rest).length + 1 := rfl
      have hleb : ∀ last, v + 2 ^ (7 * k) * leb (b :: moreOctets rest ++ [last]) =
          v + 2 ^ (7 * k) * (b.toNat % 128) +
            2 ^ (7 * (k + 1)) * leb (moreOctets rest ++ [last]) := by
        intro last
        rw [List.cons_append, leb, hpow, Nat.mul_add, Nat.mul_assoc, Nat.add_assoc]
      rw [if_neg (c := b &&& 0x80 = 0) ((and_80_eq_zero b).not.mpr (not_not.mpr hb)), hmore, hlen,
        List.drop_succ_cons]
      simp only [hleb]
      -- the value is too large already, and the rest only adds to it
      by_cases hbig : v + 2 ^ (7 * k) * (b.toNat % 128) > ZHP_INT_MAX
      · rw [if_pos hbig]
        unfold ZHP_INT_MAX at hbig
        split
        · rfl
        · rw [if_neg (by omega)]; rfl
      · rw [if_neg hbig]
        -- four octets are the limit, whatever they say
        by_cases hk3 : k = 3
        · subst hk3
          rw [if_pos (by omega)]
          split
          · rfl
          · rw [if_neg (by omega)]; rfl
        · -- the next round has one octet more behind it
          rw [if_neg (by omega), show 7 * k + 7 = 7 * (k + 1) from rfl,
            ih _ (k + 1) (i + 1) (by omega)]
          split
          · rfl
          · dsimp only
            rw [show k + 1 + (moreOctets rest).length = k + ((moreOctets rest).length + 1) by omega,
              show i + 1 + (moreOctets rest).length = i + ((moreOctets rest).length + 1) by omega]
    · -- the last octet closes the sum
      have hmore : moreOctets (b :: rest) = [] := by simp [moreOctets, hb]
      rw [if_pos (c := b &&& 0x80 = 0) ((and_80_eq_zero b).mpr hb), hmore]
      simp only [List.length_nil, List.drop_zero, List.nil_append, leb, Nat.mul_zero,
        Nat.add_zero]
      unfold ZHP_INT_MAX
      by_cases hbig : v + 2 ^ (7 * k) * (b.toNat % 128) > 2 ^ 24
      · rw [if_pos hbig, if_neg (by omega)]; rfl
      · rw [if_neg hbig, if_pos (by omega)]; rfl

/-- **The integer decoder is the specification's.** -/
theorem int_eq (n : Nat) (p : Bytes) :
    Hpack.int n p = (zhpIntDecode p n).toOption.map fun r => (r.2, p.drop r.1) := by
  cases p with
  | nil => rfl
  | cons b rest =>
    unfold Hpack.int zhpIntDecode
    simp only [Nat.and_two_pow_sub_one_eq_mod]
    by_cases hv : b.toNat % 2 ^ n < 2 ^ n - 1
    · rw [if_pos hv, if_pos hv]; rfl
    · rw [if_neg hv, if_neg hv]
      have hc := zhpIntCont_eq rest (b.toNat % 2 ^ n) 0 1 (by omega)
      simp only [Nat.mul_zero, Nat.pow_zero, Nat.one_mul, Nat.zero_add] at hc
      rw [hc]
      unfold moreOctets
      cases hd : rest.drop (rest.takeWhile fun o => decide (128 ≤ o)).length with
      | nil => rfl
      | cons last r =>
        dsimp only
        split
        · have hr : rest.drop ((rest.takeWhile fun o => decide (128 ≤ o)).length + 1) = r := by
            rw [← List.drop_drop, hd]; rfl
          simp only [Option.map_some]
          rw [show 1 + (rest.takeWhile fun o => decide (128 ≤ o)).length + 1 =
            (rest.takeWhile fun o => decide (128 ≤ o)).length + 1 + 1 by omega,
            List.drop_succ_cons, hr]
        · rfl

theorem zhpIntDecode_protocol {p : Bytes} {n : Nat} {e : Fail}
    (h : zhpIntDecode p n = .error e) : e.code = .protocol := by
  have hcont : ∀ (p : Bytes) (v s i : Nat), zhpIntCont v s i p = .error e → e.code = .protocol := by
    intro p
    induction p with
    | nil => intro v s i h; cases h; rfl
    | cons b rest ih =>
      intro v s i h
      rw [zhpIntCont] at h
      split at h
      · cases h; rfl
      · split at h
        · cases h
        · split at h
          · cases h; rfl
          · exact ih _ _ _ h
  unfold zhpIntDecode at h
  split at h
  · cases h; rfl
  · dsimp only at h
    split at h
    · cases h
    · exact hcont _ _ _ _ h

/-- No integer is over the cap. -/
theorem int_le {n : Nat} (hn : n ≤ 8) {bs rest : Bytes} {v : Nat} (h : Hpack.int n bs = some (v, rest)) :
    v ≤ 2 ^ 24 := by
  unfold Hpack.int at h
  split at h
  · cases h
  · dsimp only at h
    split at h
    · rename_i hlt
      cases h
      have hpow : 2 ^ n ≤ 256 := Nat.pow_le_pow_right (by decide) hn
      omega
    · split at h
      · cases h
      · split at h
        · rename_i htotal
          cases h
          exact htotal.2
        · cases h

/-! ### Strings

A string is a length and octets, plain or in the Huffman code. -/

theorem headD_drop (s : Bytes) (k : Nat) : (s.drop k).headD 0 = s.getD k 0 := by
  rw [List.headD_eq_head?_getD, List.head?_drop, List.getD_eq_getElem?_getD]

/-- The string decoder at `pos` is the specification's on the octets from `pos` on. -/
theorem string_eq (block : Bytes) (pos m : Nat) :
    Hpack.string (some m) (block.drop pos) =
      (hpackString block pos m).toOption.map fun r => (r.1, block.drop r.2) := by
  unfold Hpack.string hpackString
  rw [int_eq]
  by_cases hpos : pos ≥ block.length
  · rw [if_pos hpos, List.drop_of_length_le hpos]; rfl
  · rw [if_neg hpos]
    dsimp only
    cases hint : zhpIntDecode (block.drop pos) 7 with
    | error e => rfl
    | ok r =>
      obtain ⟨c, n⟩ := r
      simp only [Except.toOption, Option.map_some, List.drop_drop, List.length_drop, headD_drop]
      -- the octets announced are there
      by_cases hn : n ≤ block.length - (pos + c)
      · rw [if_pos hn, if_neg (c := n > block.length - (pos + c)) (by omega)]
        -- Huffman coded, under the limit of the decoded text
        by_cases hh : 128 ≤ block.getD pos 0
        · rw [if_pos hh, if_pos ((and_80_eq_zero _).not.mpr (not_not.mpr hh))]
          have hmax : n ≤ 2 ^ 24 := int_le (n := 7) (by decide) (by rw [int_eq, hint]; rfl)
          have hsize : ((block.drop (pos + c)).take n).length ≤ SIZE_MAX / 8 :=
            (List.length_take_le _ _).trans (hmax.trans (by decide))
          have hhuff := zhpHuffDecode_toOption hsize m
          rw [show (rfcHuffDecode ((block.drop (pos + c)).take n)).filter (fun s => within (some m) s.length) =
            (zhpHuffDecode ((block.drop (pos + c)).take n) m).toOption from hhuff.symm]
          cases zhpHuffDecode ((block.drop (pos + c)).take n) m <;> rfl
        · -- plain, under the same limit
          rw [if_neg hh, if_neg (not_not.mpr ((and_80_eq_zero _).mpr hh))]
          simp only [within, Option.all_some, decide_eq_true_eq]
          by_cases hm : n ≤ m
          · rw [if_pos hm, if_neg (by omega)]; rfl
          · rw [if_neg hm, if_pos (by omega)]; rfl
      · rw [if_neg hn, if_pos (c := n > block.length - (pos + c)) (by omega)]; rfl

theorem hpackString_protocol {block : Bytes} {pos m : Nat} {e : Fail}
    (h : hpackString block pos m = .error e) : e.code = .protocol := by
  unfold hpackString at h
  split at h
  · cases h; rfl
  · dsimp only at h
    split at h
    · rename_i e' hint
      cases h
      exact zhpIntDecode_protocol hint
    · split at h
      · cases h; rfl
      · split at h
        · split at h
          · rename_i e' hhuff
            cases h
            exact zhpHuffDecode_protocol hhuff
          · cases h
        · split at h
          · cases h; rfl
          · cases h

/-! ### The dynamic table

The deque of the code, an array with two indices, as the list of RFC 7541 2.3.2: newest
first. -/

namespace ZhpDec

/-- What the deque keeps while entries are evicted: cursors in order and inside the array,
and an exact account of the live entries. -/
structure Deque (d : ZhpDec) : Prop where
  head_le : d.head ≤ d.tail
  tail_le : d.tail ≤ d.cap
  used_eq : d.used = Lib.Fifo.size Field.cost d.live

/-- **The table invariant.** The array has one of the sizes doubling gives, and the
account stays within the maximum. -/
structure Inv (d : ZhpDec) : Prop extends Deque d where
  used_le : d.used ≤ d.max
  max_le : d.max ≤ 4096
  cap_mem : d.cap ∈ [0, 16, 32, 64, 128]

/-- The table a deque stands for: its live entries, newest first. -/
def abs (d : ZhpDec) : Table := { max := d.max, entries := d.live.reverse }

theorem length_live {d : ZhpDec} (h : d.Deque) : d.live.length = d.tail - d.head := by
  have := h.tail_le
  unfold cap at this
  simp only [live, List.length_drop, List.length_take]
  omega

theorem live_cons {d : ZhpDec} (h : d.Deque) (hlt : d.head < d.tail) :
    d.live = d.e.getD d.head default :: (d.e.take d.tail).drop (d.head + 1) := by
  have htail := h.tail_le
  unfold cap at htail
  have hlen : d.head < (d.e.take d.tail).length := by rw [List.length_take]; omega
  unfold live
  rw [List.drop_eq_getElem_cons hlen, List.getElem_take, List.getD_eq_getElem _ _ (by omega)]

/-! #### Eviction

The oldest entries go until the new one fits. The loop of the code and the definition of the
RFC drop the same ones. -/

theorem evict_live {d : ZhpDec} (h : d.Deque) (hlt : d.head < d.tail) :
    d.evict.live = d.live.tail := by
  rw [live_cons h hlt, List.tail_cons]
  unfold evict
  dsimp only
  split
  · rename_i heq
    rw [heq, List.drop_of_length_le (by simp)]
    simp [live]
  · rfl

theorem evict_deque {d : ZhpDec} (h : d.Deque) (hlt : d.head < d.tail) : d.evict.Deque := by
  have htail := h.tail_le
  have hused : d.evict.used = Lib.Fifo.size Field.cost d.evict.live := by
    have hu := h.used_eq
    rw [evict_live h hlt]
    rw [live_cons h hlt, Lib.Fifo.size_cons] at hu
    rw [live_cons h hlt, List.tail_cons]
    have hcost : (d.e.getD d.head default).cost = (d.e.getD d.head default).name.length +
      (d.e.getD d.head default).value.length + 32 := rfl
    unfold evict
    dsimp only
    split <;> dsimp only <;> omega
  refine ⟨?_, ?_, hused⟩
  · unfold evict
    dsimp only
    split
    · exact le_refl _
    · dsimp only; omega
  · unfold evict cap at *
    dsimp only
    split
    · exact Nat.zero_le _
    · exact htail

@[simp] theorem evict_max (d : ZhpDec) : d.evict.max = d.max := by
  unfold evict
  dsimp only
  split <;> rfl

@[simp] theorem evict_e (d : ZhpDec) : d.evict.e = d.e := by
  unfold evict
  dsimp only
  split <;> rfl

/-- **The eviction loop.** It drops the oldest live entries until `cost` more octets fit,
and empties the deque if they never do. -/
theorem evictFor_spec (cost : Nat) {d : ZhpDec} (h : d.Deque) :
    (evictFor cost d).Deque ∧ (evictFor cost d).max = d.max ∧ (evictFor cost d).e = d.e ∧
      (evictFor cost d).live.reverse =
        if cost ≤ d.max then Lib.Fifo.evict Field.cost (d.max - cost) d.live.reverse else [] := by
  -- the loop drops from the back while the entry does not fit
  revert h
  refine Lib.loop_induct (evictRound_decreases cost)
    (P := fun d r => d.Deque → r.Deque ∧ r.max = d.max ∧ r.e = d.e ∧ r.live.reverse =
      if cost ≤ d.max then Lib.Fifo.evict Field.cost (d.max - cost) d.live.reverse else [])
    ?_ ?_ d
  · intro d r hb hd
    unfold evictRound at hb
    split at hb
    · cases hb
    · rename_i hstop
      cases hb
      refine ⟨hd, rfl, rfl, ?_⟩
      have hlen := length_live hd
      have hused := hd.used_eq
      -- it fits: nothing is evicted
      by_cases hroom : d.used + cost ≤ d.max
      · rw [if_pos (by omega), Lib.Fifo.evict_of_le]
        rw [Lib.Fifo.size_reverse]
        omega
      · -- the table is empty, and the entry may be larger than the table
        have hnil : d.live = [] := List.eq_nil_of_length_eq_zero (by omega)
        rw [hnil]
        split
        · exact (Lib.Fifo.evict_nil _).symm
        · rfl
  · intro d d' r hb ih hd
    unfold evictRound at hb
    split at hb
    · rename_i hgo
      cases hb
      obtain ⟨h1, h2, h3, h4⟩ := ih (evict_deque hd hgo.2)
      refine ⟨h1, h2.trans (evict_max d), h3.trans (evict_e d), ?_⟩
      have hused := hd.used_eq
      rw [h4, evict_max, evict_live hd hgo.2]
      split
      · -- the oldest entry goes, in the queue and in the specification
        rw [Lib.Fifo.evict_of_lt (l := d.live.reverse)
          (by rw [Lib.Fifo.size_reverse]; omega), List.dropLast_reverse]
      · rfl
    · cases hb

/-! #### Insertion

An entry goes in front of the others; the array is compacted or grown where there is no room
behind the tail. -/

theorem grow_live {d : ZhpDec} (h : d.Deque) : d.grow.live = d.live := by
  have := h.tail_le
  unfold cap at this
  unfold grow live
  dsimp only
  rw [List.take_append_of_le_length this]

theorem cap_grow (d : ZhpDec) : d.grow.cap = if d.cap ≠ 0 then d.cap * 2 else 16 := by
  unfold grow
  simp only [cap, List.length_append, List.length_replicate]
  by_cases h : d.e.length = 0
  · simp [h]
  · simp only [ne_eq, h, not_false_eq_true, if_true]
    omega

/-- **Making room for a slot.** The live entries stay, the slot behind them is inside the
array, and the array grows only when every slot of it is live. -/
theorem reserve_spec {d : ZhpDec} (h : d.Deque) :
    d.reserve.Deque ∧ d.reserve.live = d.live ∧ d.reserve.max = d.max ∧
      d.reserve.used = d.used ∧ d.reserve.tail < d.reserve.cap ∧
      (d.reserve.cap = d.cap ∨
        (d.live.length = d.cap ∧ d.reserve.cap = if d.cap ≠ 0 then d.cap * 2 else 16)) := by
  have hhead := h.head_le
  have htail := h.tail_le
  unfold reserve
  -- there is room behind the tail
  by_cases hroom : d.tail < d.cap
  · rw [if_pos hroom]
    exact ⟨h, rfl, rfl, rfl, hroom, Or.inl rfl⟩
  · rw [if_neg hroom]
    -- there is room in front of the head: the live part moves to the front
    by_cases hh : d.head > 0
    · rw [if_pos hh]
      dsimp only
      have hlen : ((d.e.drop d.head).take (d.tail - d.head)).length = d.tail - d.head := by
        unfold cap at htail
        simp only [List.length_take, List.length_drop]
        omega
      have hcap : ((d.e.drop d.head).take (d.tail - d.head) ++
          d.e.drop (d.tail - d.head)).length = d.e.length := by
        unfold cap at htail
        rw [List.length_append, hlen, List.length_drop]
        omega
      -- what is live stays what it was
      have hlive : ({ d with
            e := (d.e.drop d.head).take (d.tail - d.head) ++ d.e.drop (d.tail - d.head)
            head := 0, tail := d.tail - d.head } : ZhpDec).live = d.live := by
        unfold live
        dsimp only
        rw [List.drop_zero, List.take_append_of_le_length (le_of_eq hlen.symm),
          List.take_of_length_le (le_of_eq hlen), List.take_drop]
        congr 2
        omega
      rw [if_pos (by unfold cap at *; dsimp only; rw [hcap]; omega)]
      refine ⟨⟨Nat.zero_le _, ?_, ?_⟩, hlive, rfl, rfl, ?_, Or.inl hcap⟩
      · unfold cap at *; dsimp only; rw [hcap]; omega
      · rw [hlive]; exact h.used_eq
      · unfold cap at *; dsimp only; rw [hcap]; omega
    · -- the array is full and grows
      rw [if_neg hh]
      have hlen := length_live h
      have hcg := cap_grow d
      refine ⟨⟨hhead, ?_, ?_⟩, grow_live h, rfl, rfl, ?_, Or.inr ⟨by omega, hcg⟩⟩
      · change d.tail ≤ d.grow.cap
        rw [hcg]; split <;> omega
      · rw [grow_live h]; exact h.used_eq
      · change d.tail < d.grow.cap
        rw [hcg]; split <;> omega

theorem live_set_tail {d : ZhpDec} (h : d.Deque) (hlt : d.tail < d.cap) (f : Field) (u : Nat) :
    ({ d with e := d.e.set d.tail f, tail := d.tail + 1, used := u } : ZhpDec).live =
      d.live ++ [f] := by
  have hhead := h.head_le
  unfold cap at hlt
  unfold live
  dsimp only
  rw [List.take_add_one, List.take_set_of_le (le_refl _), List.getElem?_set_self hlt,
    Option.toList_some, List.drop_append_of_le_length (by rw [List.length_take]; omega)]

/-- **Insertion is the specification's.** -/
theorem add_spec {d : ZhpDec} (h : d.Inv) (f : Field) :
    (d.add f).Inv ∧ (d.add f).abs = d.abs.add f := by
  obtain ⟨hdq, hmax, he, hlive⟩ := evictFor_spec f.cost h.toDeque
  have hcap : (evictFor f.cost d).cap = d.cap := by unfold cap; rw [he]
  have hle := h.max_le
  have hcapd := h.cap_mem
  have hused := hdq.used_eq
  unfold add
  dsimp only
  rw [show f.name.length + f.value.length + 32 = f.cost from rfl, hmax]
  unfold Table.add abs Lib.Fifo.push
  dsimp only
  by_cases hfit : f.cost ≤ d.max
  · rw [if_neg (by omega), if_pos hfit]
    rw [if_pos hfit] at hlive
    have hsize := Lib.Fifo.size_evict_le Field.cost (d.max - f.cost) d.live.reverse
    rw [← hlive, Lib.Fifo.size_reverse, ← hused] at hsize
    obtain ⟨hr, hrl, hrm, hru, hrt, hrc⟩ := reserve_spec hdq
    have hset := live_set_tail hr hrt f ((evictFor f.cost d).reserve.used + f.cost)
    have hlen32 := Lib.Fifo.length_mul_le_size Field.cost (k := 32)
      (fun f => by unfold Field.cost; omega) (evictFor f.cost d).live
    refine ⟨⟨⟨?_, ?_, ?_⟩, ?_, ?_, ?_⟩, ?_⟩
    · have := hr.head_le
      dsimp only; omega
    · unfold cap at *
      dsimp only
      rw [List.length_set]; omega
    · rw [hset, Lib.Fifo.size_append, ← hr.used_eq, Lib.Fifo.size_cons, Lib.Fifo.size_nil]
      rfl
    · dsimp only; rw [hru, hrm]; omega
    · dsimp only; rw [hrm]; omega
    · have hc' : ({ (evictFor f.cost d).reserve with
          e := (evictFor f.cost d).reserve.e.set (evictFor f.cost d).reserve.tail f
          tail := (evictFor f.cost d).reserve.tail + 1
          used := (evictFor f.cost d).reserve.used + f.cost } : ZhpDec).cap =
            (evictFor f.cost d).reserve.cap := by
        unfold cap; dsimp only; rw [List.length_set]
      rw [hc']
      -- a full array holds `cap` live entries of 32 octets and more, and one more fits:
      -- so a full array has at most 64 slots
      have h32 : 32 ≤ f.cost := by unfold Field.cost; omega
      rw [hcap] at hrc
      rcases hrc with hrc | ⟨hfull, hrc⟩
      · rw [hrc]; exact hcapd
      · rw [hrc]
        simp only [List.mem_cons, List.not_mem_nil, or_false] at hcapd ⊢
        split <;> omega
    · rw [hset, hrl, List.reverse_append, List.reverse_singleton, List.singleton_append, hlive, hrm,
        hmax]
  · rw [if_pos (by omega), if_neg hfit]
    rw [if_neg hfit] at hlive
    refine ⟨⟨hdq, ?_, by omega, by rw [hcap]; exact hcapd⟩, by rw [hlive, hmax]⟩
    have hnil : (evictFor f.cost d).live = [] := List.reverse_eq_nil_iff.mp hlive
    rw [hnil] at hused
    rw [hused, Lib.Fifo.size_nil]
    exact Nat.zero_le _

/-- **A size update is the specification's.** -/
theorem setMax_spec {d : ZhpDec} (h : d.Inv) {n : Nat} (hn : n ≤ 4096) :
    (d.setMax n).Inv ∧ (d.setMax n).abs = d.abs.resize n := by
  have hd : ({ d with max := n } : ZhpDec).Deque := ⟨h.head_le, h.tail_le, h.used_eq⟩
  obtain ⟨hdq, hmax, he, hlive⟩ := evictFor_spec 0 hd
  rw [if_pos (Nat.zero_le _)] at hlive
  dsimp only [Nat.sub_zero] at hmax he hlive
  have hused := hdq.used_eq
  have hsize := Lib.Fifo.size_evict_le Field.cost n d.live.reverse
  have hlive' : (setMax d n).live.reverse = Lib.Fifo.evict Field.cost n d.live.reverse := hlive
  rw [← hlive', Lib.Fifo.size_reverse] at hsize
  refine ⟨⟨hdq, ?_, ?_, ?_⟩, ?_⟩
  · change (evictFor 0 { d with max := n }).used ≤ (evictFor 0 { d with max := n }).max
    rw [hused, hmax]
    exact hsize
  · change (evictFor 0 { d with max := n }).max ≤ 4096
    rw [hmax]; exact hn
  · have : (setMax d n).cap = d.cap := congrArg List.length he
    rw [this]; exact h.cap_mem
  · unfold abs Table.resize
    rw [hlive']
    change ({ max := (evictFor 0 { d with max := n }).max, entries := _ } : Table) = _
    rw [hmax]

/-- The table of the code is that of the specification. -/
theorem hpack_static : HPACK_STATIC = Hpack.STATIC := rfl

/-- **Lookup is the specification's.** -/
theorem find_eq {d : ZhpDec} (h : d.Inv) (i : Nat) :
    d.abs.find i = (d.resolve i).toOption := by
  unfold Table.find resolve
  rw [← hpack_static]
  by_cases h0 : i = 0
  · rw [if_pos h0, if_pos h0]; rfl
  · rw [if_neg h0, if_neg h0]
    by_cases hs : i ≤ HPACK_STATIC.length
    · rw [if_pos hs, if_pos hs, List.getElem?_eq_getElem (by omega),
        List.getD_eq_getElem _ _ (by omega)]
      rfl
    · rw [if_neg hs, if_neg hs]
      dsimp only [abs]
      have hlen := length_live h.toDeque
      have htail := h.tail_le
      have hhead := h.head_le
      unfold cap at htail
      by_cases hd : i - HPACK_STATIC.length - 1 ≥ d.tail - d.head
      · rw [if_pos hd, List.getElem?_eq_none (by rw [List.length_reverse]; omega)]; rfl
      · rw [if_neg hd, List.getElem?_reverse (by omega), hlen]
        unfold live
        rw [List.getElem?_drop, List.getElem?_take_of_lt (by omega),
          show d.head + (d.tail - d.head - 1 - (i - HPACK_STATIC.length - 1)) =
            d.tail - 1 - (i - HPACK_STATIC.length - 1) by omega,
          List.getElem?_eq_getElem (by omega), List.getD_eq_getElem _ _ (by omega)]
        rfl

theorem resolve_protocol {d : ZhpDec} {i : Nat} {e : Fail} (h : d.resolve i = .error e) :
    e.code = .protocol := by
  unfold resolve at h
  split at h
  · cases h; rfl
  · split at h
    · cases h
    · dsimp only at h
      split at h
      · cases h; rfl
      · cases h

theorem new_inv (m : Nat) : (new m).Inv := by
  refine ⟨⟨le_refl _, le_refl _, rfl⟩, Nat.zero_le _, ?_, ?_⟩
  · unfold new ZHP_DEC_TABLE_MAX
    dsimp only
    split <;> omega
  · exact List.mem_cons_self

end ZhpDec

/-! ### Representations

Each of the four kinds of representations is read as the RFC says, on the same octets. -/

theorem literal_eq {d : ZhpDec} (h : d.Inv) (block : Bytes) (pos n m : Nat) :
    Hpack.literal (some m) d.abs n (block.drop pos) =
      (hpackLiteral d block pos n m).toOption.map fun r => (r.1, block.drop r.2) := by
  unfold Hpack.literal hpackLiteral
  rw [int_eq]
  cases hint : zhpIntDecode (block.drop pos) n with
  | error e => rfl
  | ok r =>
    obtain ⟨c, i⟩ := r
    simp only [Except.toOption, Option.map_some, List.drop_drop]
    have hname : (if i = 0 then Hpack.string (some m) (block.drop (pos + c))
          else (d.abs.find i).map fun f => (f.name, block.drop (pos + c))) =
        (if i = 0 then hpackString block (pos + c) m
          else (d.resolve i).map fun f => (f.name, pos + c)).toOption.map
            fun r => (r.1, block.drop r.2) := by
      split
      · exact string_eq block (pos + c) m
      · rw [ZhpDec.find_eq h]
        cases d.resolve i <;> rfl
    rw [hname]
    generalize (if i = 0 then hpackString block (pos + c) m
      else (d.resolve i).map fun f => (f.name, pos + c)) = name
    cases name with
    | error e => rfl
    | ok r =>
      simp only [Except.toOption, Option.map_some]
      rw [string_eq]
      cases hpackString block r.2 m <;> rfl

theorem hpackLiteral_protocol {d : ZhpDec} {block : Bytes} {pos n m : Nat} {e : Fail}
    (h : hpackLiteral d block pos n m = .error e) : e.code = .protocol := by
  unfold hpackLiteral at h
  split at h
  · rename_i e' hint
    cases h
    exact zhpIntDecode_protocol hint
  · rename_i c nidx hint
    dsimp only at h
    split at h
    · rename_i e' hname
      cases h
      split at hname
      · exact hpackString_protocol hname
      · cases hr : d.resolve nidx with
        | error e' => rw [hr] at hname; cases hname; exact ZhpDec.resolve_protocol hr
        | ok f => rw [hr] at hname; cases hname
    · split at h
      · rename_i e' hval
        cases h
        exact hpackString_protocol hval
      · cases h

/-- **One representation.** The code accepts it exactly when the specification does, a
size update in the wrong place or over the cap apart, which the specification rejects in
its loop. -/
theorem rep_cases {d : ZhpDec} (h : d.Inv) (block : Bytes) (pos m : Nat) (seen : Bool) :
    match hpackRep d block pos m seen with
    | .ok (.field f a, pos') =>
      Hpack.rep (some m) d.abs (block.drop pos) = some (.field f a, block.drop pos')
    | .ok (.resize n, pos') =>
      Hpack.rep (some m) d.abs (block.drop pos) = some (.resize n, block.drop pos') ∧
        seen = false ∧ n ≤ 4096
    | .error e => e.code = .protocol ∧
        (Hpack.rep (some m) d.abs (block.drop pos) = none ∨
          ∃ n bs, Hpack.rep (some m) d.abs (block.drop pos) = some (.resize n, bs) ∧
            (seen = true ∨ n > 4096)) := by
  unfold hpackRep Hpack.rep
  simp only [headD_drop, int_eq, literal_eq h, ZhpDec.find_eq h]
  generalize block.getD pos 0 = b
  -- an indexed field
  by_cases h80 : 128 ≤ b
  · rw [if_pos h80, if_pos ((and_80_eq_zero b).not.mpr (not_not.mpr h80))]
    cases hint : zhpIntDecode (block.drop pos) 7 with
    | error e => exact ⟨zhpIntDecode_protocol hint, Or.inl rfl⟩
    | ok r =>
      cases hres : d.resolve r.2 with
      | error e => simp [hres, Except.map, Except.toOption, ZhpDec.resolve_protocol hres]
      | ok f => simp [hres, Except.map, Except.toOption]
  · rw [if_neg h80, if_neg (not_not.mpr ((and_80_eq_zero b).mpr h80))]
    -- a literal that the table takes in
    by_cases h40 : 64 ≤ b
    · rw [if_pos h40, if_pos ((and_40_eq_zero b h80).not.mpr (not_not.mpr h40))]
      cases hlit : hpackLiteral d block pos 6 m with
      | error e => exact ⟨hpackLiteral_protocol hlit, Or.inl rfl⟩
      | ok r => rfl
    · rw [if_neg h40, if_neg (not_not.mpr ((and_40_eq_zero b h80).mpr h40))]
      -- a resize, refused behind a field or above 4096
      by_cases h20 : 32 ≤ b
      · rw [if_pos h20, if_pos ((and_20_eq_zero b h40).not.mpr (not_not.mpr h20))]
        cases hint : zhpIntDecode (block.drop pos) 5 with
        | error e =>
          cases seen with
          | true => exact ⟨rfl, Or.inl rfl⟩
          | false => exact ⟨zhpIntDecode_protocol hint, Or.inl rfl⟩
        | ok r =>
          obtain ⟨c, n⟩ := r
          -- one that comes too late
          cases seen with
          | true =>
            exact ⟨rfl, Or.inr ⟨n, block.drop (pos + c),
              by simp [Except.toOption], Or.inl rfl⟩⟩
          | false =>
            unfold ZHP_DEC_TABLE_MAX
            -- one that is too large
            by_cases hn : n > 4096
            · simp only [Bool.false_eq_true, if_false, if_pos hn]
              exact ⟨rfl, Or.inr ⟨n, block.drop (pos + c),
                by simp [Except.toOption], Or.inr hn⟩⟩
            · simp only [Bool.false_eq_true, if_false, if_neg hn]
              exact ⟨by simp [Except.toOption], trivial, by omega⟩
      · -- a literal that the table does not take in
        rw [if_neg h20, if_neg (not_not.mpr ((and_20_eq_zero b h40).mpr h20))]
        cases hlit : hpackLiteral d block pos 4 m with
        | error e => exact ⟨hpackLiteral_protocol hlit, Or.inl rfl⟩
        | ok r => rfl

/-! ### Blocks

Representation by representation the decoder stays with the specification: same fields, same
table. -/

/-- The code's result agrees with the specification's: the return value, the fields
emitted and the table. -/
structure Agrees (r : DecodeRes (List Field)) (s : Hpack.Res) : Prop where
  rc : (r.rc = .ok ∧ s.ok = true) ∨ (∃ e, r.rc = .fail e ∧ e.code = .protocol) ∧ s.ok = false
  fields : r.u = s.fields
  table : r.d.abs = s.table

/-- The two decoders at corresponding points of a block. -/
def InStep (block : Bytes) (s : DecodeSt (List Field)) (t : Hpack.St) : Prop :=
  t = { bs := block.drop s.pos, decoded := s.decoded, seenField := s.seenField
        table := s.d.abs, fields := s.u }

/-- The size guard of `zhp_decode_`, written without overflow, is the plain bound. -/
theorem guard_iff (m decoded nl vl : Nat) (h : decoded ≤ m) :
    (nl > m - decoded ∨ vl > m - decoded - nl) ↔ within (some m) (decoded + (nl + vl)) = false := by
  simp only [within, Option.all_some, decide_eq_false_iff_not]
  omega

/-- What the loop of `zhp_decode_` keeps. -/
structure DecodeSt.Inv (m : Nat) (s : DecodeSt (List Field)) : Prop where
  dec : s.d.Inv
  decoded : s.decoded ≤ m

/-- One round keeps the decoder's invariant, whatever the callback does. -/
theorem zhpDecodeRound_dec {σ : Type} {block : Bytes} {m : Nat} {emit : EmitFn σ}
    {s s' : DecodeSt σ} (h : s.d.Inv) (hb : zhpDecodeRound block m emit s = .inl s') :
    s'.d.Inv := by
  unfold zhpDecodeRound at hb
  split at hb
  · have hrep := rep_cases h block s.pos m s.seenField
    split at hb
    · cases hb
    · rename_i n pos hr
      rw [hr] at hrep
      cases hb
      exact (ZhpDec.setMax_spec h hrep.2.2).1
    · rename_i f add pos hr
      split at hb
      · cases hb
      · dsimp only at hb
        split at hb
        · cases hb
        · cases hb
          dsimp only
          split
          · exact (ZhpDec.add_spec h f).1
          · exact h
  · cases hb

/-- **Lockstep.** From corresponding points the two decoders end in agreement. -/
theorem zhpDecode_inStep (block : Bytes) (m : Nat) (s : DecodeSt (List Field))
    (hs : s.Inv m) (t : Hpack.St) (ht : InStep block s t) :
    Agrees (Lib.loop (zhpDecodeRound block m collect) _ (zhpDecodeRound_decreases block m collect)
      s) (Hpack.decodeFrom (some m) t) := by
  revert t
  revert hs
  refine Lib.loop_induct (zhpDecodeRound_decreases block m collect)
    (P := fun s r => s.Inv m → ∀ t, InStep block s t → Agrees r (Hpack.decodeFrom (some m) t))
    ?_ ?_ s
  · -- the last round of the code is the last round of the specification
    rintro s r hb hs t rfl
    unfold zhpDecodeRound at hb
    unfold Hpack.decodeFrom
    rw [Lib.loop_eq]
    unfold Hpack.round
    dsimp only
    split at hb
    · rename_i hpos
      rw [if_neg (fun hnil => by rw [List.drop_eq_nil_iff] at hnil; omega)]
      have hrep := rep_cases hs.dec block s.pos m s.seenField
      split at hb
      · rename_i e hr
        rw [hr] at hrep
        cases hb
        obtain ⟨hcode, hnone | ⟨n, bs, hsome, hbad⟩⟩ := hrep
        · rw [hnone]; exact ⟨Or.inr ⟨⟨e, rfl, hcode⟩, rfl⟩, rfl, rfl⟩
        · rw [hsome]
          dsimp only
          rw [if_pos hbad]
          exact ⟨Or.inr ⟨⟨e, rfl, hcode⟩, rfl⟩, rfl, rfl⟩
      · cases hb
      · rename_i f add pos hr
        rw [hr] at hrep
        rw [hrep]
        dsimp only
        split at hb
        · rename_i hbig
          cases hb
          rw [(guard_iff m s.decoded _ _ hs.decoded).mp hbig]
          exact ⟨Or.inr ⟨⟨_, rfl, rfl⟩, rfl⟩, rfl, rfl⟩
        · simp only [collect] at hb
          cases hb
    · rename_i hpos
      cases hb
      rw [if_pos (List.drop_eq_nil_iff.mpr (by omega))]
      exact ⟨Or.inl ⟨rfl, rfl⟩, rfl, rfl⟩
  · rintro s s' r hb ih hs t rfl
    have hdec := zhpDecodeRound_dec hs.dec hb
    unfold zhpDecodeRound at hb
    unfold Hpack.decodeFrom
    split at hb
    · rename_i hpos
      have hrep := rep_cases hs.dec block s.pos m s.seenField
      have hne : block.drop s.pos ≠ [] :=
        fun hnil => by rw [List.drop_eq_nil_iff] at hnil; omega
      split at hb
      · cases hb
      · rename_i n pos hr
        rw [hr] at hrep
        cases hb
        have hag := ih ⟨hdec, hs.decoded⟩ _ rfl
        rw [Lib.loop_of_inl]
        · exact hag
        · unfold Hpack.round
          dsimp only
          rw [if_neg hne, hrep.1]
          dsimp only
          rw [if_neg (by rw [hrep.2.1]; simp; omega), (ZhpDec.setMax_spec hs.dec hrep.2.2).2]
      · rename_i f add pos hr
        rw [hr] at hrep
        split at hb
        · cases hb
        · rename_i hok
          simp only [collect, ne_eq, not_true_eq_false, if_false, Sum.inl.injEq] at hb
          subst hb
          have hw : within (some m) (s.decoded + (f.name.length + f.value.length)) = true := by
            rw [← Bool.not_eq_false]
            exact fun hf => hok ((guard_iff m s.decoded _ _ hs.decoded).mpr hf)
          have hle : s.decoded + (f.name.length + f.value.length) ≤ m := by
            simpa [within] using hw
          have hag := ih ⟨hdec, hle⟩ _ rfl
          rw [Lib.loop_of_inl]
          · exact hag
          · unfold Hpack.round
            dsimp only
            rw [if_neg hne, hrep]
            dsimp only
            rw [if_pos hw]
            cases add with
            | false => rfl
            | true =>
              simp only [if_true]
              rw [(ZhpDec.add_spec hs.dec f).2]
    · cases hb

/-- **A block decodes as specified.** -/
theorem zhpDecode_agrees {d : ZhpDec} (h : d.Inv) (block : Bytes) (m : Nat) :
    Agrees (zhpDecode d block m collect []) (Hpack.decode (some m) d.abs block) :=
  zhpDecode_inStep block m { d, u := [] } ⟨h, Nat.zero_le _⟩ _ rfl

/-- Whatever the callback does, a decoded block leaves a well-formed table. -/
theorem zhpDecode_inv {σ : Type} {d : ZhpDec} (h : d.Inv) (block : Bytes) (m : Nat)
    (emit : EmitFn σ) (u : σ) : (zhpDecode d block m emit u).d.Inv := by
  refine Lib.loop_inv (zhpDecodeRound_decreases block m emit) (I := fun s => s.d.Inv)
    (Q := fun r => r.d.Inv) (fun s s' hi hb => zhpDecodeRound_dec hi hb) ?_ h
  intro s r hi hb
  unfold zhpDecodeRound at hb
  split at hb
  · split at hb
    · cases hb; exact hi
    · cases hb
    · split at hb
      · cases hb; exact hi
      · dsimp only at hb
        split at hb
        · cases hb; exact hi
        · cases hb
  · cases hb; exact hi

/-! ### Runs

Any sequence of blocks, from a new decoder. -/

/-- The results of a sequence of `zhp_decode_` calls on one decoder, each with its block
and its size cap. -/
def decodeCalls (d : ZhpDec) : List (Bytes × Nat) → List (DecodeRes (List Field))
  | [] => []
  | (block, m) :: calls =>
    let r := zhpDecode d block m collect []
    r :: decodeCalls r.d calls

/-- The same calls on the specification decoder. -/
def specCalls (t : Table) : List (Bytes × Nat) → List Hpack.Res
  | [] => []
  | (block, m) :: calls =>
    let r := Hpack.decode (some m) t block
    r :: specCalls r.table calls

/-- The decoder states of every run: a new decoder, and what each further representation
of any block makes of it. -/
inductive ZhpDec.Reachable : ZhpDec → Prop
  | new (m : Nat) : Reachable (.new m)
  | round {σ : Type} {block : Bytes} {m : Nat} {emit : EmitFn σ} {s s' : DecodeSt σ} :
      Reachable s.d → zhpDecodeRound block m emit s = .inl s' → Reachable s'.d

theorem ZhpDec.Reachable.inv {d : ZhpDec} (h : d.Reachable) : d.Inv := by
  induction h with
  | new m => exact ZhpDec.new_inv m
  | round _ hb ih => exact zhpDecodeRound_dec ih hb

theorem decodeCalls_agree {d : ZhpDec} (h : d.Inv) (calls : List (Bytes × Nat)) :
    List.Forall₂ Agrees (decodeCalls d calls) (specCalls d.abs calls) := by
  induction calls generalizing d with
  | nil => exact .nil
  | cons c calls ih =>
    obtain ⟨block, m⟩ := c
    have hag := zhpDecode_agrees h block m
    refine .cons hag ?_
    rw [← hag.table]
    exact ih (zhpDecode_inv h block m collect [])

/-- **The HPACK decoder refines RFC 7541.** On every sequence of blocks and size caps,
every call's return value, emitted fields and resulting table are those of the list-based
decoder; and in every reachable state the cursors are in order and inside an array of at
most 128 slots, and the accounted size is the live entries' and within a maximum of at
most 4096. -/
theorem zhpDecode_refines_rfc7541 :
    (∀ (maxTableBytes : Nat) (calls : List (Bytes × Nat)),
      List.Forall₂ Agrees (decodeCalls (.new maxTableBytes) calls)
        (specCalls { max := min maxTableBytes 4096 } calls)) ∧
    (∀ d : ZhpDec, d.Reachable →
      d.head ≤ d.tail ∧ d.tail ≤ d.cap ∧ d.cap ≤ 128 ∧
      d.used = (d.live.map fun f => f.name.length + f.value.length + 32).sum ∧
      d.used ≤ d.max ∧ d.max ≤ 4096) := by
  refine ⟨fun m calls => ?_, fun d hd => ?_⟩
  · have habs : (ZhpDec.new m).abs = { max := min m 4096 } := by
      unfold ZhpDec.abs ZhpDec.new ZhpDec.live ZHP_DEC_TABLE_MAX
      simp only [List.take_nil, List.drop_nil, List.reverse_nil, Table.mk.injEq, and_true]
      split <;> omega
    rw [← habs]
    exact decodeCalls_agree (ZhpDec.new_inv m) calls
  · have hi := hd.inv
    have hcap := hi.cap_mem
    simp only [List.mem_cons, List.not_mem_nil, or_false] at hcap
    exact ⟨hi.head_le, hi.tail_le, by omega, hi.used_eq, hi.used_le, hi.max_le⟩

/-- The two requests of RFC 7541 appendix C.3 on one decoder: the second refers to the
entry the first one inserted. -/
theorem zhpDecode_refines_rfc7541_c3 :
    List.Forall₂ Agrees
      (decodeCalls (.new 4096)
        [([0x82, 0x86, 0x84, 0x41, 0x03, 0x77, 0x77, 0x77], 65536), ([0x82, 0xbe], 65536)])
      (specCalls { max := min 4096 4096 }
        [([0x82, 0x86, 0x84, 0x41, 0x03, 0x77, 0x77, 0x77], 65536), ([0x82, 0xbe], 65536)]) ∧
    (ZhpDec.new 4096).used ≤ (ZhpDec.new 4096).max :=
  ⟨zhpDecode_refines_rfc7541.1 4096 _,
    (zhpDecode_refines_rfc7541.2 (.new 4096) (.new 4096)).2.2.2.2.1⟩

end Zcio
