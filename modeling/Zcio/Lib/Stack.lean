import Mathlib.Algebra.BigOperators.Group.List.Basic
import Mathlib.Algebra.Order.Ring.Nat
import Mathlib.Tactic.Common

/-!
# Zcio.Lib.Stack

Items that push themselves onto a stack, pop what is on top of it, or do nothing. A run fails
exactly if it comes to more pops than there were pushes (`run_isSome`).
-/

namespace Lib.Stack

universe u

/-- What an item does to the stack. -/
inductive Act where
  | push
  | pop
  | skip
  deriving DecidableEq, Repr

variable {α : Type u} (act : α → Act)

/-- One item on a stack, the top first. -/
def step (st : List α) (a : α) : Option (List α) :=
  match act a with
  | .push => some (a :: st)
  | .skip => some st
  | .pop => st.tail?

/-- The items one after another. -/
def run (st : List α) : List α → Option (List α)
  | [] => some st
  | a :: as => (step act st a).bind fun st' => run st' as

variable {act} {st st' out : List α} {a : α} {as : List α}

@[simp] theorem run_nil : run act st [] = some st := rfl

theorem run_cons (h : step act st a = some st') : run act st (a :: as) = run act st' as := by
  rw [run, h]
  rfl

theorem run_cons_none (h : step act st a = none) : run act st (a :: as) = none := by
  rw [run, h]
  rfl

theorem step_push (h : act a = .push) : step act st a = some (a :: st) := by
  rw [step, h]

theorem step_skip (h : act a = .skip) : step act st a = some st := by
  rw [step, h]

theorem step_pop (h : act a = .pop) : step act st a = st.tail? := by
  rw [step, h]

/-- **A run fails exactly if it pops the empty stack**: some beginning of it has more pops than
the stack and its pushes supply. -/
theorem run_isSome :
    (run act st as).isSome ↔ ∀ pre, pre <+: as →
      pre.countP (act · = .pop) ≤ st.length + pre.countP (act · = .push) := by
  induction as generalizing st with
  | nil =>
    refine ⟨fun _ pre hpre => ?_, fun _ => rfl⟩
    rw [List.prefix_nil.mp hpre]
    exact Nat.zero_le _
  | cons a as ih =>
    -- a beginning of `a :: as` is empty, or `a` and a beginning of `as`
    have hsplit (P : List α → Prop) (hnil : P []) :
        (∀ pre, pre <+: a :: as → P pre) ↔ ∀ pre, pre <+: as → P (a :: pre) := by
      refine ⟨fun h pre hpre => h _ (List.cons_prefix_cons.mpr ⟨rfl, hpre⟩), fun h pre hpre => ?_⟩
      cases pre with
      | nil => exact hnil
      | cons b pre =>
        obtain ⟨rfl, htail⟩ := List.cons_prefix_cons.mp hpre
        exact h pre htail
    rw [hsplit _ (Nat.zero_le _)]
    simp only [List.countP_cons]
    cases hact : act a with
    | push =>
      rw [run_cons (step_push hact), ih]
      refine forall₂_congr fun pre _ => ?_
      simp
      omega
    | skip =>
      rw [run_cons (step_skip hact), ih]
      simp
    | pop =>
      cases st with
      | nil =>
        rw [run_cons_none (step_pop hact)]
        simp only [Option.isSome_none, Bool.false_eq_true, false_iff]
        intro h
        have hpop := h [] List.nil_prefix
        simp at hpop
      | cons b st =>
        rw [run_cons (step_pop hact), ih]
        refine forall₂_congr fun pre _ => ?_
        simp
        omega

/-- A run that only pushes. -/
theorem run_pushes (h : ∀ a ∈ as, act a = .push) : run act st as = some (as.reverse ++ st) := by
  induction as generalizing st with
  | nil => rfl
  | cons a as ih =>
    rw [run_cons (step_push (h a List.mem_cons_self)), ih fun b hb => h b (List.mem_cons_of_mem _ hb)]
    simp

/-- What a property holds of that is on the stack or pushed holds of the whole stack after. -/
theorem forall_mem_run {P : α → Prop} (h : run act st as = some out) (hst : ∀ a ∈ st, P a)
    (has : ∀ a ∈ as, act a = .push → P a) : ∀ a ∈ out, P a := by
  induction as generalizing st with
  | nil =>
    cases h
    exact hst
  | cons a as ih =>
    have hrest : ∀ b ∈ as, act b = .push → P b := fun b hb => has b (List.mem_cons_of_mem _ hb)
    cases hact : act a with
    | push =>
      rw [run_cons (step_push hact)] at h
      exact ih h (List.forall_mem_cons.mpr ⟨has a List.mem_cons_self hact, hst⟩) hrest
    | skip =>
      rw [run_cons (step_skip hact)] at h
      exact ih h hst hrest
    | pop =>
      cases st with
      | nil =>
        rw [run_cons_none (step_pop hact)] at h
        cases h
      | cons b st =>
        rw [run_cons (step_pop hact)] at h
        exact ih h (fun c hc => hst c (List.mem_cons_of_mem _ hc)) hrest

/-- The stack weighs no more than what was on it and what came. -/
theorem sum_run (w : α → Nat) (h : run act st as = some out) :
    (out.map w).sum ≤ (st.map w).sum + (as.map w).sum := by
  induction as generalizing st with
  | nil =>
    cases h
    exact Nat.le_add_right _ _
  | cons a as ih =>
    rw [List.map_cons, List.sum_cons]
    cases hact : act a with
    | push =>
      rw [run_cons (step_push hact)] at h
      have := ih h
      rw [List.map_cons, List.sum_cons] at this
      omega
    | skip =>
      rw [run_cons (step_skip hact)] at h
      have := ih h
      omega
    | pop =>
      cases st with
      | nil =>
        rw [run_cons_none (step_pop hact)] at h
        cases h
      | cons b st =>
        rw [run_cons (step_pop hact)] at h
        have := ih h
        rw [List.map_cons, List.sum_cons]
        omega

theorem run_append (as bs : List α) :
    run act st (as ++ bs) = (run act st as).bind fun st' => run act st' bs := by
  induction as generalizing st with
  | nil => rfl
  | cons a as ih =>
    rw [List.cons_append, run, run, Option.bind_assoc]
    exact congrArg _ (funext fun st' => ih)

/-- A last item that pushes itself is on top at the end. -/
theorem run_concat_push (h : run act st (as ++ [a]) = some out) (hact : act a = .push) :
    out.head? = some a := by
  rw [run_append] at h
  obtain ⟨st', -, h⟩ := Option.bind_eq_some_iff.mp h
  rw [run_cons (step_push hact)] at h
  cases h
  rfl

/-- A run's pushes are popped again or left on the stack. -/
theorem length_run (h : run act st as = some out) :
    out.length + as.countP (act · = .pop) = st.length + as.countP (act · = .push) := by
  induction as generalizing st with
  | nil =>
    cases h
    rfl
  | cons a as ih =>
    rw [List.countP_cons, List.countP_cons]
    cases hact : act a with
    | push =>
      rw [run_cons (step_push hact)] at h
      have := ih h
      rw [List.length_cons] at this
      simp
      omega
    | skip =>
      rw [run_cons (step_skip hact)] at h
      exact ih h
    | pop =>
      cases st with
      | nil =>
        rw [run_cons_none (step_pop hact)] at h
        cases h
      | cons b st =>
        rw [run_cons (step_pop hact)] at h
        have := ih h
        rw [List.length_cons]
        simp
        omega

end Lib.Stack
