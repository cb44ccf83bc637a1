import Mathlib.Data.List.Perm.Basic
import Mathlib.Data.List.Nodup

/-!
# Zcio.Lib.SwapRemove

Removal from an unordered array by moving the last element into the gap. The remaining
elements are those of the list without the removed one, in another order; proofs use
`mem_swapRemove_iff` and `swapRemove_keys` and never unfold the definition.
-/

namespace Lib

universe u v

variable {α : Type u} {β : Type v}

/-- Overwrite the element at `i` with the last one and shorten the list. -/
def swapRemove (l : List α) (i : Nat) : List α :=
  match l.getLast? with
  | none => l
  | some x => (l.set i x).dropLast

/-- The order aside, `swapRemove` erases. -/
theorem swapRemove_perm {l : List α} {i : Nat} (h : i < l.length) :
    (swapRemove l i).Perm (l.eraseIdx i) := by
  obtain ⟨l, x, rfl⟩ := List.eq_nil_or_concat l |>.resolve_left (by rintro rfl; simp at h)
  rw [List.concat_eq_append] at h ⊢
  simp only [swapRemove, List.getLast?_append, List.getLast?_singleton, Option.some_or]
  rw [List.length_append, List.length_singleton] at h
  by_cases hi : i = l.length
  · subst hi
    rw [List.set_append_right _ _ (Nat.le_refl _), List.eraseIdx_append_of_length_le (Nat.le_refl _)]
    simp
  · have hlt : i < l.length := by omega
    rw [List.set_append_left _ _ hlt, List.dropLast_concat,
      List.eraseIdx_append_of_lt_length hlt]
    exact (List.set_perm_cons_eraseIdx hlt x).trans (List.perm_append_singleton _ _).symm

theorem length_swapRemove {l : List α} {i : Nat} (h : i < l.length) :
    (swapRemove l i).length = l.length - 1 := by
  rw [(swapRemove_perm h).length_eq, List.length_eraseIdx_of_lt h]

/-- The list does not grow, whatever the position. -/
theorem length_swapRemove_le (l : List α) (i : Nat) : (swapRemove l i).length ≤ l.length := by
  unfold swapRemove
  split
  · exact Nat.le_refl _
  · rw [List.length_dropLast, List.length_set]
    exact Nat.sub_le _ _

/-- The elements in front of the gap stay where they are. -/
theorem getElem?_swapRemove_of_lt {l : List α} {i j : Nat} (h : i < l.length) (hj : j < i) :
    (swapRemove l i)[j]? = l[j]? := by
  obtain ⟨l, x, rfl⟩ := List.eq_nil_or_concat l |>.resolve_left (by rintro rfl; simp at h)
  rw [List.concat_eq_append] at h ⊢
  simp only [swapRemove, List.getLast?_append, List.getLast?_singleton, Option.some_or]
  rw [List.length_append, List.length_singleton] at h
  have hlt : j < ((l ++ [x]).set i x).length - 1 := by
    rw [List.length_set, List.length_append, List.length_singleton]
    omega
  rw [List.getElem?_dropLast, if_pos hlt, List.getElem?_set_ne (by omega)]

theorem take_swapRemove {l : List α} {i : Nat} (h : i < l.length) : (swapRemove l i).take i = l.take i := by
  refine List.ext_getElem? fun j => ?_
  rw [List.getElem?_take, List.getElem?_take]
  split
  · rename_i hj
    exact getElem?_swapRemove_of_lt h hj
  · rfl

/-- Behind the gap there is what was behind it, the order aside. -/
theorem drop_swapRemove_perm {l : List α} {i : Nat} (h : i < l.length) :
    ((swapRemove l i).drop i).Perm (l.drop (i + 1)) := by
  have hperm := swapRemove_perm h
  rw [List.eraseIdx_eq_take_drop_succ, ← List.take_append_drop i (swapRemove l i), take_swapRemove h] at hperm
  exact (List.perm_append_left_iff _).mp hperm

theorem mem_of_mem_swapRemove {l : List α} {i : Nat} (h : i < l.length) {x : α}
    (hx : x ∈ swapRemove l i) : x ∈ l :=
  List.mem_of_mem_eraseIdx ((swapRemove_perm h).mem_iff.mp hx)

/-- Keys that were distinct stay so, and the removed one is gone. -/
theorem swapRemove_keys {key : α → β} {l : List α} {i : Nat} {x : α}
    (hnd : (l.map key).Nodup) (hx : l[i]? = some x) :
    ((swapRemove l i).map key).Nodup ∧ key x ∉ (swapRemove l i).map key := by
  obtain ⟨h, rfl⟩ := List.getElem?_eq_some_iff.mp hx
  have hperm := (swapRemove_perm h).map key
  have hcons : (l.map key).Perm (key l[i] :: (swapRemove l i).map key) := by
    refine ((List.getElem_cons_eraseIdx_perm h).symm.map key).trans ?_
    rw [List.map_cons]
    exact hperm.symm.cons _
  have := hcons.nodup_iff.mp hnd
  rw [List.nodup_cons] at this
  exact ⟨this.2, this.1⟩

/-- With distinct keys, what is left is everything with another key. -/
theorem mem_swapRemove_iff {key : α → β} {l : List α} {i : Nat} {x y : α}
    (hnd : (l.map key).Nodup) (hx : l[i]? = some x) :
    y ∈ swapRemove l i ↔ y ∈ l ∧ key y ≠ key x := by
  obtain ⟨h, rfl⟩ := List.getElem?_eq_some_iff.mp hx
  have hperm : l.Perm (l[i] :: swapRemove l i) :=
    ((List.getElem_cons_eraseIdx_perm h).symm).trans ((swapRemove_perm h).symm.cons _)
  constructor
  · intro hy
    refine ⟨mem_of_mem_swapRemove h hy, fun hk => ?_⟩
    exact (swapRemove_keys hnd hx).2 (hk ▸ List.mem_map_of_mem hy)
  · rintro ⟨hy, hk⟩
    rcases List.mem_cons.mp (hperm.mem_iff.mp hy) with rfl | hy
    · exact absurd rfl hk
    · exact hy

end Lib
