import Mathlib.Algebra.Order.Ring.Nat
import Mathlib.Data.List.GetD
import Mathlib.Tactic.Common

/-!
# Zcio.Lib.BlockHash

Hashing by blocks: a message is padded to whole blocks of `n` items and a compression function is
folded over them, from an initial value. A program that is given the message in pieces holds the
value of the whole blocks and the rest that is no block yet (`Absorbed`); what it makes of the
next piece is said once, in `Absorbed.grow` and `Absorbed.fill`, so that no two ways to cut the
message differ.
-/

namespace Lib.BlockHash

universe u v

variable {σ : Type u} {β : Type v}

/-! ### Blocks -/

/-- The first `k` blocks of `n` items. -/
def blocks (n : Nat) : Nat → List β → List (List β)
  | 0, _ => []
  | k + 1, l => l.take n :: blocks n k (l.drop n)

/-- The compression function over the whole blocks of `l`. -/
def foldBlocks (f : σ → List β → σ) (n : Nat) (st : σ) (l : List β) : σ :=
  (blocks n (l.length / n) l).foldl f st

/-- What is left behind the whole blocks. -/
def rest (n : Nat) (l : List β) : List β := l.drop (l.length / n * n)

variable {f : σ → List β → σ} {n : Nat} {st : σ}

theorem blocks_append_left {a : List β} (k : Nat) (h : a.length = k * n) (m : Nat) (b : List β) :
    blocks n (k + m) (a ++ b) = blocks n k a ++ blocks n m b := by
  induction k generalizing a with
  | zero =>
    rw [Nat.zero_mul] at h
    rw [List.length_eq_zero_iff.mp h, Nat.zero_add]
    rfl
  | succ k ih =>
    have hn : n ≤ a.length := by
      rw [h, Nat.succ_mul]
      exact Nat.le_add_left _ _
    have hlen : (a.drop n).length = k * n := by
      rw [List.length_drop, h, Nat.succ_mul, Nat.add_sub_cancel]
    rw [Nat.succ_add, blocks, blocks, List.take_append_of_le_length hn,
      List.drop_append_of_le_length hn, ih hlen]
    rfl

/-- Whole blocks in front are folded first. -/
theorem foldBlocks_append {a : List β} (h : n ∣ a.length) (hn : 0 < n) (b : List β) :
    foldBlocks f n st (a ++ b) = foldBlocks f n (foldBlocks f n st a) b := by
  obtain ⟨k, hk⟩ := h
  rw [Nat.mul_comm] at hk
  have hdiv : (a ++ b).length / n = k + b.length / n := by
    rw [List.length_append, hk, Nat.mul_comm, Nat.mul_add_div hn]
  unfold foldBlocks
  rw [hdiv, blocks_append_left k hk, List.foldl_append, hk, Nat.mul_div_cancel _ hn]

theorem foldBlocks_short {l : List β} (h : l.length < n) : foldBlocks f n st l = st := by
  rw [foldBlocks, Nat.div_eq_of_lt h]
  rfl

theorem foldBlocks_block {l : List β} (h : l.length = n) (hn : 0 < n) :
    foldBlocks f n st l = f st l := by
  rw [foldBlocks, h, Nat.div_self hn, blocks, List.take_of_length_le h.le]
  rfl

theorem take_append_rest (l : List β) : l.take (l.length / n * n) ++ rest n l = l :=
  List.take_append_drop _ _

theorem length_rest (l : List β) : (rest n l).length = l.length % n := by
  have := Nat.div_add_mod' l.length n
  rw [rest, List.length_drop]
  omega

theorem rest_short {l : List β} (h : l.length < n) : rest n l = l := by
  rw [rest, Nat.div_eq_of_lt h, Nat.zero_mul, List.drop_zero]

theorem length_whole (l : List β) : (l.take (l.length / n * n)).length = l.length / n * n :=
  List.length_take_of_le (Nat.div_mul_le_self _ _)

/-- Whatever comes behind a message is folded behind its rest. -/
theorem foldBlocks_rest (hn : 0 < n) (l d : List β) :
    foldBlocks f n st (l ++ d) = foldBlocks f n (foldBlocks f n st l) (rest n l ++ d) := by
  have hdvd : n ∣ (l.take (l.length / n * n)).length := by
    rw [length_whole]
    exact Nat.dvd_mul_left _ _
  have hrest : (rest n l).length < n := by
    rw [length_rest]
    exact Nat.mod_lt _ hn
  have hwhole : foldBlocks f n st l = foldBlocks f n st (l.take (l.length / n * n)) := by
    conv_lhs => rw [← take_append_rest (n := n) l]
    rw [foldBlocks_append hdvd hn, foldBlocks_short hrest]
  rw [hwhole, ← foldBlocks_append hdvd hn, ← List.append_assoc, take_append_rest]

theorem rest_append (l d : List β) : rest n (l ++ d) = rest n (rest n l ++ d) := by
  rcases Nat.eq_zero_or_pos n with rfl | hn
  · simp [rest]
  have hlen : (rest n l ++ d).length + l.length / n * n = (l ++ d).length := by
    have := Nat.div_add_mod' l.length n
    rw [List.length_append, length_rest, List.length_append]
    omega
  have hdiv : (l ++ d).length / n = l.length / n + (rest n l ++ d).length / n := by
    rw [← hlen, Nat.add_mul_div_right _ _ hn, Nat.add_comm]
  have hle : l.length / n * n ≤ l.length := Nat.div_mul_le_self _ _
  rw [rest, hdiv, Nat.add_mul, ← List.drop_drop, List.drop_append_of_le_length hle]
  rfl

/-! ### A message in pieces -/

/-- The value of the whole blocks of `msg`, and the rest of it. -/
structure Absorbed (f : σ → List β → σ) (n : Nat) (iv st : σ) (buf msg : List β) : Prop where
  state : st = foldBlocks f n iv msg
  buffer : buf = rest n msg

variable {iv : σ} {buf msg : List β}

theorem Absorbed.nil : Absorbed f n iv iv [] ([] : List β) :=
  ⟨by rw [foldBlocks, List.length_nil, Nat.zero_div]; rfl, List.drop_nil.symm⟩

/-- A piece that does not fill the block stays in the buffer. -/
theorem Absorbed.grow (h : Absorbed f n iv st buf msg) {d : List β}
    (hd : buf.length + d.length < n) : Absorbed f n iv st (buf ++ d) (msg ++ d) := by
  have hlt : (rest n msg ++ d).length < n := by
    rw [List.length_append, ← h.buffer]
    exact hd
  constructor
  · rw [foldBlocks_rest (Nat.zero_lt_of_lt hd), foldBlocks_short hlt]
    exact h.state
  · rw [rest_append, rest_short hlt, h.buffer]

/-- A piece that fills the block has it compressed. -/
theorem Absorbed.fill (h : Absorbed f n iv st buf msg) (hn : 0 < n) {d : List β}
    (hd : buf.length + d.length = n) : Absorbed f n iv (f st (buf ++ d)) [] (msg ++ d) := by
  have heq : (rest n msg ++ d).length = n := by
    rw [List.length_append, ← h.buffer]
    exact hd
  constructor
  · rw [foldBlocks_rest hn, foldBlocks_block heq hn, ← h.buffer, ← h.state]
  · rw [rest_append, rest, heq, Nat.div_self hn, Nat.one_mul, List.drop_of_length_le heq.le]

/-! ### Padding -/

/-- How many zeros bring `len` items, an end mark and a length of `lenSize` items to whole
blocks. -/
def padZeros (n lenSize len : Nat) : Nat := (n - (len + 1 + lenSize) % n) % n

/-- The padded message: the end mark, zeros, and the length. -/
def pad (n : Nat) (one zero : β) (size msg : List β) : List β :=
  msg ++ one :: List.replicate (padZeros n size.length msg.length) zero ++ size

/-- The hash value before it is written out. -/
def digest (f : σ → List β → σ) (n : Nat) (iv : σ) (one zero : β) (size msg : List β) : σ :=
  foldBlocks f n iv (pad n one zero size msg)

/-- A message with its end mark and zeros absorbed, and the length filling the last block. -/
theorem Absorbed.digest {one zero : β} {size : List β} (hn : 0 < n)
    (h : Absorbed f n iv st buf
      (msg ++ one :: List.replicate (padZeros n size.length msg.length) zero))
    (hfull : buf.length + size.length = n) :
    f st (buf ++ size) = digest f n iv one zero size msg :=
  (h.fill hn hfull).state

/-! ### Message schedules -/

/-- A list is the beginning of a sequence, read through `φ`. -/
def Follows {α : Type u} {γ : Type v} (φ : α → γ) (F : Nat → γ) (d : α) (w : List α) : Prop :=
  ∀ i < w.length, φ (w.getD i d) = F i

theorem Follows.concat {α : Type u} {γ : Type v} {φ : α → γ} {F : Nat → γ} {d : α} {w : List α}
    (h : Follows φ F d w) {x : α} (hx : φ x = F w.length) : Follows φ F d (w ++ [x]) := by
  intro i hi
  rw [List.length_append, List.length_singleton] at hi
  by_cases hlast : i = w.length
  · subst hlast
    rw [List.getD_append_right _ _ _ _ (Nat.le_refl _), Nat.sub_self]
    exact hx
  · have hlt : i < w.length := by omega
    rw [List.getD_append _ _ _ _ hlt]
    exact h i hlt

end Lib.BlockHash
