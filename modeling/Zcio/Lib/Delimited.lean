import Mathlib.Data.List.DropRight

/-!
# Zcio.Lib.Delimited

Lists of elements in a string: the elements stand between separators, with blanks around them
that do not count, and an element of blanks only is none. Leading blanks and separators can be
skipped, and what joins two lists with a separator is their elements one after the other.
-/

namespace Lib

variable {α : Type*} [DecidableEq α] (sep : α) (blank : α → Bool)

/-- A string without the blanks around it. -/
def trim (s : List α) : List α := (s.dropWhile blank).rdropWhile blank

/-- The elements of a string. -/
def elements (s : List α) : List (List α) :=
  ((s.splitOn sep).map (trim blank)).filter fun e => !e.isEmpty

variable {sep blank}

omit [DecidableEq α] in
theorem trim_cons_blank {b : α} (hb : blank b = true) (s : List α) :
    trim blank (b :: s) = trim blank s := by
  rw [trim, List.dropWhile_cons_of_pos hb, trim]

theorem elements_nil : elements sep blank ([] : List α) = [] := by
  rw [elements, List.splitOn_nil]
  rfl

/-- Two lists with a separator between them. -/
theorem elements_append (s t : List α) :
    elements sep blank (s ++ sep :: t) = elements sep blank s ++ elements sep blank t := by
  unfold elements
  rw [List.splitOn_append_cons_self, List.map_append, List.filter_append]

theorem elements_sep (s : List α) : elements sep blank (sep :: s) = elements sep blank s := by
  have h := @elements_append _ _ sep blank [] s
  rwa [elements_nil] at h

theorem elements_blank {b : α} (hb : blank b = true) (s : List α) :
    elements sep blank (b :: s) = elements sep blank s := by
  by_cases hsep : b = sep
  · rw [hsep, elements_sep]
  · unfold elements
    rw [List.splitOn_cons_eq_if_modifyHead, if_neg (by simpa using hsep)]
    obtain ⟨e, es, heq⟩ := List.exists_cons_of_ne_nil (List.splitOn_ne_nil sep s)
    rw [heq, List.modifyHead_cons, List.map_cons, List.map_cons, trim_cons_blank hb]

/-- Blanks and separators in front do not count. -/
theorem elements_dropWhile (s : List α) :
    elements sep blank (s.dropWhile fun b => blank b || b == sep) = elements sep blank s := by
  induction s with
  | nil => rfl
  | cons b s ih =>
    by_cases hb : (blank b || b == sep) = true
    · rw [List.dropWhile_cons_of_pos (p := fun b => blank b || b == sep) hb, ih]
      obtain hblank | hsep := (Bool.or_eq_true _ _).mp hb
      · rw [elements_blank hblank]
      · rw [beq_iff_eq.mp hsep, elements_sep]
    · rw [List.dropWhile_cons_of_neg (p := fun b => blank b || b == sep) hb]

/-- A string without a separator is one element, or none. -/
theorem elements_single {s : List α} (hs : sep ∉ s) :
    elements sep blank s = if trim blank s = [] then [] else [trim blank s] := by
  unfold elements
  rw [List.splitOn_eq_singleton hs, List.map_singleton, List.filter_singleton]
  by_cases hnil : trim blank s = []
  · rw [if_pos hnil, hnil]
    rfl
  · rw [if_neg hnil, List.isEmpty_eq_false_iff.mpr hnil]
    rfl

/-- The element in front, and the others. -/
theorem elements_cut (s : List α) :
    elements sep blank s = elements sep blank (s.takeWhile (· != sep)) ++
      elements sep blank (s.dropWhile (· != sep)) := by
  cases hd : s.dropWhile (· != sep) with
  | nil =>
    have h := List.takeWhile_append_dropWhile (p := (· != sep)) (l := s)
    rw [hd, List.append_nil] at h
    rw [h, elements_nil, List.append_nil]
  | cons b t =>
    have hb : b = sep := by
      have hne : s.dropWhile (· != sep) ≠ [] := by rw [hd]; exact List.cons_ne_nil b t
      have hhead := List.head_dropWhile_not (· != sep) hne
      simpa [hd] using hhead
    subst hb
    have h := List.takeWhile_append_dropWhile (p := (· != b)) (l := s)
    rw [hd] at h
    rw [elements_sep, ← elements_append, h]

/-- Behind blanks and separators an element begins. -/
theorem trim_takeWhile (s : List α) :
    trim blank ((s.dropWhile fun b => blank b || b == sep).takeWhile (· != sep)) =
      ((s.dropWhile fun b => blank b || b == sep).takeWhile (· != sep)).rdropWhile blank := by
  induction s with
  | nil => rfl
  | cons b s ih =>
    by_cases hb : (blank b || b == sep) = true
    · rw [List.dropWhile_cons_of_pos (p := fun b => blank b || b == sep) hb, ih]
    · rw [List.dropWhile_cons_of_neg (p := fun b => blank b || b == sep) hb]
      rw [Bool.or_eq_true, not_or, beq_iff_eq] at hb
      rw [List.takeWhile_cons_of_pos (p := (· != sep)) (by simpa using hb.2), trim,
        List.dropWhile_cons_of_neg hb.1]

/-- Lists that are joined with separators. -/
theorem elements_intercalate (ls : List (List α)) :
    elements sep blank ([sep].intercalate ls) = ls.flatMap (elements sep blank) := by
  induction ls with
  | nil => exact elements_nil
  | cons l ls ih =>
    cases ls with
    | nil =>
      rw [List.flatMap_cons, List.flatMap_nil, List.append_nil]
      simp [List.intercalate]
    | cons l' ls =>
      rw [List.flatMap_cons, ← ih, ← elements_append]
      simp [List.intercalate]

end Lib
