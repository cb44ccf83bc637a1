import Mathlib.Algebra.Order.Ring.Nat
import Mathlib.Data.List.Basic
import Mathlib.Data.Nat.ModEq
import Mathlib.Tactic.Common

/-!
# Zcio.Lib.Circular

**Circular buffers.** A stream of items is laid out in `n` slots: the item at position `p`
stands in slot `p % n`. `Holds m n p s` says that the memory `m` holds the items `s` from
position `p` on. Cursors are positions modulo `n`; the distance of two positions less than
`n` apart can be had from their cursors (`distance`, `room`). Copies into and out of the memory
are linear, so that they have to be split where the slots wrap around.
-/

namespace Lib.Circular

universe u

variable {α : Type u} {n c p : Nat} {m : Nat → α} {s b : List α}

/-! ### Positions and slots -/

/-- Positions less than a round apart have slots of their own. -/
theorem mod_inj {i j : Nat} (hi : c ≤ i) (hj : c ≤ j) (hi' : i < c + n) (hj' : j < c + n)
    (h : i % n = j % n) : i = j := by
  obtain ⟨a, rfl⟩ := Nat.exists_eq_add_of_le hi
  obtain ⟨b, rfl⟩ := Nat.exists_eq_add_of_le hj
  have hab : a % n = b % n := Nat.ModEq.add_left_cancel' c h
  rw [Nat.mod_eq_of_lt (by omega), Nat.mod_eq_of_lt (by omega)] at hab
  rw [hab]

/-- The cursor of a later position, as long as the slots do not wrap around. -/
theorem mod_add {i : Nat} (h : p % n + i < n) : (p + i) % n = p % n + i := by
  rw [← Nat.mod_add_mod, Nat.mod_eq_of_lt h]

/-- The distance of two positions, from their cursors. -/
theorem distance (hcp : c ≤ p) (h : p - c < n) : (p % n + n - c % n) % n = p - c := by
  obtain ⟨d, rfl⟩ := Nat.exists_eq_add_of_le hcp
  have hd : d < n := by omega
  have hc : c % n < n := Nat.mod_lt _ (by omega)
  rw [Nat.add_sub_cancel_left, ← Nat.mod_add_mod]
  rcases Nat.lt_or_ge (c % n + d) n with hlt | hge
  · rw [Nat.mod_eq_of_lt hlt, show c % n + d + n - c % n = d + n by omega, Nat.add_mod_right,
      Nat.mod_eq_of_lt hd]
  · rw [Nat.mod_eq_sub_mod hge, Nat.mod_eq_of_lt (a := c % n + d - n) (by omega),
      show c % n + d - n + n - c % n = d by omega, Nat.mod_eq_of_lt hd]

/-- The room in front of the reader when one slot stays empty, from the cursors. -/
theorem room (hcp : c ≤ p) (h : p - c < n) : (n - 1 + c % n - p % n) % n = n - 1 - (p - c) := by
  obtain ⟨d, rfl⟩ := Nat.exists_eq_add_of_le hcp
  have hd : d < n := by omega
  have hc : c % n < n := Nat.mod_lt _ (by omega)
  rw [Nat.add_sub_cancel_left, ← Nat.mod_add_mod c n d]
  rcases Nat.lt_or_ge (c % n + d) n with hlt | hge
  · rw [Nat.mod_eq_of_lt hlt, show n - 1 + c % n - (c % n + d) = n - 1 - d by omega,
      Nat.mod_eq_of_lt (by omega)]
  · rw [Nat.mod_eq_sub_mod hge, Nat.mod_eq_of_lt (a := c % n + d - n) (by omega),
      show n - 1 + c % n - (c % n + d - n) = n - 1 - d + n by omega, Nat.add_mod_right,
      Nat.mod_eq_of_lt (by omega)]

/-! ### The memory -/

/-- The memory behind a copy of `b` to slot `a` and those behind it. -/
def store (m : Nat → α) (a : Nat) (b : List α) (i : Nat) : α :=
  if a ≤ i then (b[i - a]?).getD (m i) else m i

/-- What a copy of `k` items from slot `a` on gets. -/
def load (m : Nat → α) (a k : Nat) : List α := (List.range k).map fun i => m (a + i)

@[simp] theorem length_load (m : Nat → α) (a k : Nat) : (load m a k).length = k := by
  simp [load]

/-- Slots outside of the copy keep their items. -/
theorem store_other {a i : Nat} (h : i < a ∨ a + b.length ≤ i) : store m a b i = m i := by
  unfold store
  split
  · rw [List.getElem?_eq_none (by omega)]
    rfl
  · rfl

theorem store_at {a i : Nat} (h : i < b.length) : some (store m a b (a + i)) = b[i]? := by
  unfold store
  rw [if_pos (Nat.le_add_right a i), Nat.add_sub_cancel_left, List.getElem?_eq_getElem h]
  rfl

/-- The memory holds `s` from position `p` on. -/
def Holds (m : Nat → α) (n p : Nat) (s : List α) : Prop :=
  ∀ i < s.length, s[i]? = some (m ((p + i) % n))

theorem Holds.nil (m : Nat → α) (n p : Nat) : Holds m n p [] := nofun

theorem Holds.append {t : List α} (hs : Holds m n p s) (ht : Holds m n (p + s.length) t) :
    Holds m n p (s ++ t) := by
  intro i hi
  rw [List.length_append] at hi
  rcases Nat.lt_or_ge i s.length with hlt | hge
  · rw [List.getElem?_append_left hlt]
    exact hs i hlt
  · rw [List.getElem?_append_right hge, ht _ (by omega)]
    congr 3
    omega

theorem Holds.drop (hs : Holds m n p s) (k : Nat) : Holds m n (p + k) (s.drop k) := by
  intro i hi
  rw [List.length_drop] at hi
  rw [List.getElem?_drop, hs _ (by omega), Nat.add_assoc]

/-- A copy that does not wrap puts its items in place. -/
theorem Holds.store (hfit : p % n + b.length ≤ n) : Holds (store m (p % n) b) n p b := by
  intro i hi
  rw [mod_add (by omega), store_at hi]

/-- **A copy behind what is held**, less than a round from its start, overwrites none of it. -/
theorem Holds.store_later (hs : Holds m n c s) (hle : c + s.length ≤ p)
    (hroom : p + b.length ≤ c + n) (hfit : p % n + b.length ≤ n) :
    Holds (Circular.store m (p % n) b) n c s := by
  intro i hi
  rw [hs i hi]
  congr 1
  refine (store_other ?_).symm
  by_contra hin
  rw [not_or, Nat.not_lt, Nat.not_le] at hin
  -- the slot would be that of two positions
  have hslot : (p + ((c + i) % n - p % n)) % n = (c + i) % n := by
    rw [mod_add (p := p) (by omega)]
    omega
  have := mod_inj (c := c) (by omega) (by omega) (by omega) (by omega) hslot
  omega

/-- The position behind the last slot of the round. -/
theorem mod_round (hn : 0 < n) (p : Nat) : (p + (n - p % n)) % n = 0 := by
  rw [← Nat.mod_add_mod, Nat.add_sub_cancel' (Nat.mod_lt p hn).le, Nat.mod_self]

/-- The second half of a copy that wraps goes to the front. -/
theorem Holds.store_front (hs : Holds m n p (b.take (n - p % n))) (hn : 0 < n)
    (hlen : n ≤ p % n + b.length) (hle : b.length ≤ n) :
    Holds (Circular.store m 0 (b.drop (n - p % n))) n p b := by
  have hmod := Nat.mod_lt p hn
  have hfirst : (b.take (n - p % n)).length = n - p % n := by
    rw [List.length_take]
    omega
  have hsecond : (b.drop (n - p % n)).length = b.length - (n - p % n) := List.length_drop
  have hround := mod_round hn p
  rw [← hround]
  have hboth := (hs.store_later (p := p + (n - p % n)) (b := b.drop (n - p % n)) (by omega)
    (by omega) (by omega)).append (t := b.drop (n - p % n))
      (by rw [hfirst]; exact Holds.store (by omega))
  rwa [List.take_append_drop] at hboth

/-- A copy out of the memory that does not wrap. -/
theorem Holds.load {k : Nat} (hs : Holds m n p s) (hk : k ≤ s.length) (hfit : p % n + k ≤ n) :
    load m (p % n) k = s.take k := by
  refine List.ext_getElem? fun i => ?_
  rcases Nat.lt_or_ge i k with hlt | hge
  · rw [List.getElem?_take_of_lt hlt, hs i (by omega), mod_add (by omega)]
    simp [Circular.load, hlt]
  · rw [List.getElem?_eq_none (by rw [length_load]; exact hge),
      List.getElem?_eq_none (by rw [List.length_take]; omega)]

end Lib.Circular
