import Mathlib.Logic.Function.Basic
import Mathlib.Data.List.Nodup

/-!
# Zcio.Lib.Registry

**A table that is searched by key and grows at its end.** `intern` finds the entry of a key, or appends
one. An index is good for ever: entries never move, and no key gets a second one. So such a table is a
function from keys to values (`valueAt`), with the value of an absent key for what is not there.
-/

namespace Lib

variable {α κ β : Type} [DecidableEq κ] {key : α → κ} {l : List α} {x y new : α} {i : Nat}

/-- The table with an entry of the key of `new`, and the index of that entry. -/
def intern (key : α → κ) (new : α) (l : List α) : List α × Nat :=
  match l.findIdx? fun x => key x = key new with
  | some i => (l, i)
  | none => (l ++ [new], l.length)

/-- The entry is there, or is the new one at the end. -/
theorem intern_cases (key : α → κ) (new : α) (l : List α) :
    (∃ i x, l[i]? = some x ∧ key x = key new ∧ intern key new l = (l, i)) ∨
      (key new ∉ l.map key ∧ intern key new l = (l ++ [new], l.length)) := by
  rw [intern]
  cases hfound : l.findIdx? fun x => key x = key new with
  | some i =>
    obtain ⟨hi, hkey, -⟩ := List.findIdx?_eq_some_iff_getElem.mp hfound
    exact .inl ⟨i, l[i], List.getElem?_eq_getElem hi, of_decide_eq_true hkey, rfl⟩
  | none =>
    refine .inr ⟨fun hin => ?_, rfl⟩
    obtain ⟨x, hx, hkey⟩ := List.mem_map.mp hin
    have hno := List.findIdx?_eq_none_iff.mp hfound x hx
    rw [decide_eq_true hkey] at hno
    cases hno

theorem intern_get (key : α → κ) (new : α) (l : List α) :
    ∃ x, (intern key new l).1[(intern key new l).2]? = some x ∧ key x = key new := by
  rcases intern_cases key new l with ⟨i, x, hget, hkey, heq⟩ | ⟨-, heq⟩
  · rw [heq]
    exact ⟨x, hget, hkey⟩
  · rw [heq]
    exact ⟨new, List.getElem?_concat_length, rfl⟩

/-- **Keys stay distinct.** -/
theorem intern_nodup (hl : (l.map key).Nodup) : ((intern key new l).1.map key).Nodup := by
  rcases intern_cases key new l with ⟨i, x, -, -, heq⟩ | ⟨hnew, heq⟩
  · rw [heq]
    exact hl
  · rw [heq, List.map_append, List.map_singleton]
    exact List.nodup_append.mpr ⟨hl, List.nodup_singleton _, fun a ha b hb hab =>
      hnew (by rwa [← List.mem_singleton.mp hb, ← hab])⟩

/-- **Indices stay.** -/
theorem intern_prefix (key : α → κ) (new : α) (l : List α) : l <+: (intern key new l).1 := by
  rcases intern_cases key new l with ⟨i, x, -, -, heq⟩ | ⟨-, heq⟩
  · exact heq ▸ List.prefix_rfl
  · rw [heq]
    exact List.prefix_append l [new]

/-! ### The table as a function -/

/-- The value at a key. -/
def valueAt (key : α → κ) (val : α → β) (empty : β) (l : List α) (k : κ) : β :=
  (l.find? fun x => key x = k).elim empty val

variable {val : α → β} {empty : β}

theorem valueAt_get (hl : (l.map key).Nodup) (hget : l[i]? = some x) : valueAt key val empty l (key x) = val x := by
  induction l generalizing i with
  | nil => cases hget
  | cons z l ih =>
    obtain ⟨hz, hl⟩ := List.nodup_cons.mp hl
    cases i with
    | zero =>
      cases hget
      rw [valueAt, List.find?_cons, decide_eq_true rfl]
      rfl
    | succ i =>
      have hne : key z ≠ key x := fun h => hz (h ▸ List.mem_map_of_mem (List.mem_of_getElem? hget))
      rw [valueAt, List.find?_cons, decide_eq_false hne]
      exact ih hl hget

theorem valueAt_of_not_mem {k : κ} (h : k ∉ l.map key) : valueAt key val empty l k = empty := by
  have hnone : (l.find? fun x => key x = k) = none := List.find?_eq_none.mpr fun x hx hkey =>
    h (List.mem_map.mpr ⟨x, hx, of_decide_eq_true hkey⟩)
  rw [valueAt, hnone]
  rfl

/-- An entry that is changed under its key. -/
theorem valueAt_set (hl : (l.map key).Nodup) (hget : l[i]? = some x) (hkey : key y = key x) :
    valueAt key val empty (l.set i y) = Function.update (valueAt key val empty l) (key x) (val y) := by
  obtain ⟨hi, hx⟩ := List.getElem?_eq_some_iff.mp hget
  have hmap : (l.set i y).map key = l.map key := by
    rw [List.map_set, hkey, ← hx, ← List.getElem_map key, List.set_getElem_self]
    rwa [List.length_map]
  have hnodup : ((l.set i y).map key).Nodup := hmap ▸ hl
  funext k
  by_cases hk : k = key x
  · subst hk
    rw [Function.update_self, ← hkey]
    exact valueAt_get hnodup (List.getElem?_set_self hi)
  · rw [Function.update_of_ne hk]
    by_cases hin : k ∈ l.map key
    · obtain ⟨z, hz, rfl⟩ := List.mem_map.mp hin
      obtain ⟨j, hj⟩ := List.mem_iff_getElem?.mp hz
      have hij : i ≠ j := by
        rintro rfl
        rw [hget] at hj
        cases hj
        exact hk rfl
      rw [valueAt_get hl hj]
      exact valueAt_get hnodup ((List.getElem?_set_ne hij).trans hj)
    · rw [valueAt_of_not_mem hin, valueAt_of_not_mem (hmap ▸ hin)]

/-- A new entry has the value of an absent key. -/
theorem valueAt_intern (hl : (l.map key).Nodup) (hnew : val new = empty) :
    valueAt key val empty (intern key new l).1 = valueAt key val empty l := by
  rcases intern_cases key new l with ⟨i, x, -, -, heq⟩ | ⟨habsent, heq⟩
  · rw [heq]
  · have hnodup : ((intern key new l).1.map key).Nodup := intern_nodup hl
    rw [heq] at hnodup ⊢
    funext k
    by_cases hin : k ∈ l.map key
    · obtain ⟨z, hz, rfl⟩ := List.mem_map.mp hin
      obtain ⟨j, hj⟩ := List.mem_iff_getElem?.mp hz
      rw [valueAt_get hl hj]
      exact valueAt_get hnodup (List.getElem?_append_left (List.getElem?_eq_some_iff.mp hj).1 ▸ hj)
    · rw [valueAt_of_not_mem hin]
      by_cases hk : k = key new
      · subst hk
        rw [← hnew]
        exact valueAt_get hnodup List.getElem?_concat_length
      · refine valueAt_of_not_mem fun hin' => ?_
        rw [List.map_append, List.map_singleton] at hin'
        rcases List.mem_append.mp hin' with h | h
        · exact hin h
        · exact hk (List.mem_singleton.mp h)

end Lib
