import Mathlib.Algebra.Order.BigOperators.Group.List
import Mathlib.Algebra.Order.Ring.Nat
import Mathlib.Tactic.Common

/-!
# Zcio.Lib.Fifo

**A bounded first-in first-out table.** The entries stand newest first, each has a cost,
and the total cost stays under a bound: the oldest entries are evicted to make room, and
an entry that is larger than the whole bound leaves the table empty.
-/

namespace Lib.Fifo

universe u

variable {α : Type u} (cost : α → Nat)

/-- The total cost of a table. -/
def size (l : List α) : Nat := (l.map cost).sum

/-- Drop the oldest entry at most `n` times, while the table is larger than `m`. -/
def evictN (m : Nat) : Nat → List α → List α
  | 0, l => l
  | n + 1, l => if size cost l ≤ m then l else evictN m n l.dropLast

/-- Evict from the oldest until the table fits `m` or is empty. -/
def evict (m : Nat) (l : List α) : List α := evictN cost m l.length l

/-- Add a newest entry to a table bounded by `m`. -/
def push (m : Nat) (x : α) (l : List α) : List α :=
  if cost x ≤ m then x :: evict cost (m - cost x) l else []

@[simp] theorem size_nil : size cost ([] : List α) = 0 := rfl

@[simp] theorem size_cons (x : α) (l : List α) :
    size cost (x :: l) = cost x + size cost l := by
  simp [size]

theorem size_append (l r : List α) : size cost (l ++ r) = size cost l + size cost r := by
  simp [size]

theorem size_reverse (l : List α) : size cost l.reverse = size cost l := by
  simp [size]

variable {cost}

/-- A table that fits stays as it is. -/
theorem evict_of_le {m : Nat} {l : List α} (h : size cost l ≤ m) : evict cost m l = l := by
  unfold evict
  cases hl : l.length with
  | zero => rfl
  | succ n => rw [evictN, if_pos h]

/-- A table that does not fit loses its oldest entry first. -/
theorem evict_of_lt {m : Nat} {l : List α} (h : m < size cost l) :
    evict cost m l = evict cost m l.dropLast := by
  unfold evict
  cases l with
  | nil => simp at h
  | cons x l => rw [List.length_cons, evictN, if_neg (by omega), List.length_dropLast,
      List.length_cons, Nat.add_sub_cancel]

theorem evict_nil (m : Nat) : evict cost m ([] : List α) = [] := rfl

/-- **Eviction makes room.** -/
theorem size_evict_le (cost : α → Nat) (m : Nat) (l : List α) : size cost (evict cost m l) ≤ m := by
  induction hn : l.length generalizing l with
  | zero =>
    obtain rfl := List.eq_nil_of_length_eq_zero hn
    simp [evict_nil]
  | succ n ih =>
    by_cases h : size cost l ≤ m
    · rw [evict_of_le h]; exact h
    · rw [evict_of_lt (by omega)]
      exact ih l.dropLast (by simp [hn])

/-- Entries that cost at least `k` each: a bound on the size bounds their number. -/
theorem length_mul_le_size (cost : α → Nat) {k : Nat} (hk : ∀ x, k ≤ cost x) (l : List α) :
    l.length * k ≤ size cost l := by
  induction l with
  | nil => simp
  | cons x l ih =>
    rw [List.length_cons, size_cons, Nat.succ_mul]
    have := hk x
    omega

end Lib.Fifo
