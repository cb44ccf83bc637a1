import Zcio.Lib.Loop
import Zcio.Lib.SwapRemove

/-!
# Zcio.Lib.Sweep

**Sweeping an unordered array.** A pass over an array visits its elements in place. One that is
finished is dropped: the last element moves into its slot and is visited next. However the elements
move, each is visited once (`sweep_perm`).
-/

namespace Lib

universe u

variable {α : Type u} (visit : α → α) (gone : α → Bool)

/-- One round, at slot `s.2`. -/
def sweepRound (s : List α × Nat) : (List α × Nat) ⊕ List α :=
  match s.1[s.2]? with
  | none => .inr s.1
  | some x =>
    if gone (visit x) then .inl (swapRemove (s.1.set s.2 (visit x)) s.2, s.2)
    else .inl (s.1.set s.2 (visit x), s.2 + 1)

variable {visit gone}

theorem sweepRound_end {l : List α} {i : Nat} (h : l[i]? = none) : sweepRound visit gone (l, i) = .inr l := by
  rw [sweepRound, h]

theorem sweepRound_gone {l : List α} {i : Nat} {x : α} (h : l[i]? = some x) (hgone : gone (visit x) = true) :
    sweepRound visit gone (l, i) = .inl (swapRemove (l.set i (visit x)) i, i) := by
  rw [sweepRound, h]
  exact if_pos hgone

theorem sweepRound_kept {l : List α} {i : Nat} {x : α} (h : l[i]? = some x) (hkept : gone (visit x) = false) :
    sweepRound visit gone (l, i) = .inl (l.set i (visit x), i + 1) := by
  rw [sweepRound, h]
  exact if_neg (by rw [hkept]; exact Bool.false_ne_true)

variable (visit gone)

theorem sweepRound_decreases : Decreases (sweepRound visit gone) fun s => s.1.length - s.2 := by
  rintro ⟨l, i⟩ s' h
  cases hx : l[i]? with
  | none =>
    rw [sweepRound_end hx] at h
    cases h
  | some x =>
    have hi : i < l.length := (List.getElem?_eq_some_iff.mp hx).1
    cases hgone : gone (visit x) with
    | true =>
      rw [sweepRound_gone hx hgone] at h
      cases h
      dsimp only
      rw [length_swapRemove (by rwa [List.length_set]), List.length_set]
      omega
    | false =>
      rw [sweepRound_kept hx hgone] at h
      cases h
      dsimp only
      rw [List.length_set]
      omega

/-- The pass from slot `i` on. -/
def sweepFrom (l : List α) (i : Nat) : List α := loop (sweepRound visit gone) _ (sweepRound_decreases visit gone) (l, i)

/-- The pass. -/
def sweep (l : List α) : List α := sweepFrom visit gone l 0

variable {visit gone} {l : List α} {i : Nat} {x : α}

theorem sweepFrom_end (h : l[i]? = none) : sweepFrom visit gone l i = l := by
  rw [sweepFrom, loop_of_inr (sweepRound_end h)]

theorem sweepFrom_gone (h : l[i]? = some x) (hgone : gone (visit x) = true) :
    sweepFrom visit gone l i = sweepFrom visit gone (swapRemove (l.set i (visit x)) i) i := by
  rw [sweepFrom, loop_of_inl (sweepRound_gone h hgone), sweepFrom]

theorem sweepFrom_kept (h : l[i]? = some x) (hkept : gone (visit x) = false) :
    sweepFrom visit gone l i = sweepFrom visit gone (l.set i (visit x)) (i + 1) := by
  rw [sweepFrom, loop_of_inl (sweepRound_kept h hkept), sweepFrom]

/-- What is in front of the slot stays, and what is behind is visited and kept or dropped. -/
theorem sweepFrom_perm (l : List α) (i : Nat) :
    (sweepFrom visit gone l i).Perm (l.take i ++ ((l.drop i).map visit).filter fun x => !gone x) := by
  refine loop_induct (sweepRound_decreases visit gone)
    (P := fun s l' => l'.Perm (s.1.take s.2 ++ ((s.1.drop s.2).map visit).filter fun x => !gone x)) ?_ ?_ (l, i)
  · rintro ⟨l, i⟩ l' hround
    cases hx : l[i]? with
    | none =>
      rw [sweepRound_end hx] at hround
      cases hround
      have hi := List.getElem?_eq_none_iff.mp hx
      rw [List.take_of_length_le hi, List.drop_eq_nil_of_le hi]
      exact (List.append_nil l).symm ▸ List.Perm.refl l
    | some x =>
      cases hgone : gone (visit x) with
      | true => rw [sweepRound_gone hx hgone] at hround; cases hround
      | false => rw [sweepRound_kept hx hgone] at hround; cases hround
  · rintro ⟨l, i⟩ s' l' hround ih
    cases hx : l[i]? with
    | none => rw [sweepRound_end hx] at hround; cases hround
    | some x =>
      obtain ⟨hi, hget⟩ := List.getElem?_eq_some_iff.mp hx
      have hi' : i < (l.set i (visit x)).length := by rwa [List.length_set]
      have hbehind : (l.set i (visit x)).drop (i + 1) = l.drop (i + 1) := List.drop_set_of_lt (Nat.lt_succ_self i)
      have hfront : (l.set i (visit x)).take i = l.take i := List.take_set_of_le (Nat.le_refl i)
      dsimp only
      rw [List.drop_eq_getElem_cons hi, hget, List.map_cons, List.filter_cons]
      cases hgone : gone (visit x) with
      | true =>
        -- the last element has moved into the slot
        rw [sweepRound_gone hx hgone] at hround
        cases hround
        have hperm := drop_swapRemove_perm hi'
        rw [hbehind] at hperm
        have hkept : (swapRemove (l.set i (visit x)) i).take i = l.take i := by
          rw [take_swapRemove hi', hfront]
        dsimp only at ih
        rw [hkept] at ih
        exact ih.trans (((hperm.map visit).filter _).append_left _)
      | false =>
        rw [sweepRound_kept hx hgone] at hround
        cases hround
        dsimp only at ih
        rw [hbehind, List.take_add_one, hfront, List.getElem?_set_self (by exact hi)] at ih
        simpa using ih

/-- **Each element is visited once**, and dropped if it is finished then. -/
theorem sweep_perm (l : List α) : (sweep visit gone l).Perm ((l.map visit).filter fun x => !gone x) := by
  have h := @sweepFrom_perm _ visit gone l 0
  rwa [List.take_zero, List.nil_append, List.drop_zero] at h

theorem length_sweep_le (visit : α → α) (gone : α → Bool) (l : List α) : (sweep visit gone l).length ≤ l.length :=
  (sweep_perm l).length_eq.le.trans ((List.length_filter_le _ _).trans (List.length_map visit).le)

theorem mem_sweep {y : α} : y ∈ sweep visit gone l ↔ (∃ x ∈ l, visit x = y) ∧ gone y = false := by
  rw [(sweep_perm l).mem_iff, List.mem_filter, List.mem_map, Bool.not_eq_true']

/-! ### Weights -/

variable (f : α → Nat)

theorem weight_set (h : i < l.length) (x : α) : ((l.set i x).map f).sum + f l[i] = (l.map f).sum + f x := by
  have hset := ((List.set_perm_cons_eraseIdx h x).map f).sum_nat
  have hget := ((List.getElem_cons_eraseIdx_perm h).map f).sum_nat
  rw [List.map_cons, List.sum_cons] at hset hget
  omega

theorem weight_swapRemove (h : i < l.length) : ((swapRemove l i).map f).sum + f l[i] = (l.map f).sum := by
  have hswap := ((swapRemove_perm h).map f).sum_nat
  have hget := ((List.getElem_cons_eraseIdx_perm h).map f).sum_nat
  rw [List.map_cons, List.sum_cons] at hget
  omega

end Lib
