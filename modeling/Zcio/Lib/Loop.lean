import Mathlib.Algebra.Order.Ring.Nat
import Mathlib.Tactic.Common

/-!
# Zcio.Lib.Loop

**Loops with a measure.** A `for (;;)` of an imperative program is one round
`body : σ → σ ⊕ ρ` — `.inl s'` goes round again, `.inr r` leaves the loop with `r` —
together with a measure that every further round decreases. `loop` runs it to the end.

The definition recurses structurally on the measure, so a loop evaluates on a concrete
state; nothing else should unfold it. Proofs go through `loop_eq` (one round) and the
two rules derived from it: `loop_induct` for a relation between the entry state and the
result, `loop_inv` for an invariant of the state.
-/

namespace Lib

universe u v

variable {σ : Type u} {ρ : Type v}

/-- At most `n` rounds of `body`; `none` if it has not ended by then. -/
def iter (body : σ → σ ⊕ ρ) : Nat → σ → Option ρ
  | 0, _ => none
  | n + 1, s =>
    match body s with
    | .inl s' => iter body n s'
    | .inr r => some r

/-- `μ` decreases with every further round of `body`. -/
def Decreases (body : σ → σ ⊕ ρ) (μ : σ → Nat) : Prop :=
  ∀ s s', body s = .inl s' → μ s' < μ s

variable {body : σ → σ ⊕ ρ} {μ : σ → Nat}

theorem iter_isSome (h : Decreases body μ) :
    ∀ (n : Nat) (s : σ), μ s < n → (iter body n s).isSome := by
  intro n
  induction n with
  | zero => intro s hs; omega
  | succ n ih =>
    intro s hs
    rw [iter]
    cases hb : body s with
    | inr r => rfl
    | inl s' =>
      have := h s s' hb
      exact ih s' (by omega)

/-- More rounds than needed change nothing. -/
theorem iter_mono {n m : Nat} {s : σ} {r : ρ} (hnm : n ≤ m) (h : iter body n s = some r) :
    iter body m s = some r := by
  induction n generalizing m s with
  | zero => simp [iter] at h
  | succ n ih =>
    obtain ⟨m, rfl⟩ : ∃ k, m = k + 1 := ⟨m - 1, by omega⟩
    rw [iter] at h ⊢
    cases hb : body s with
    | inr r' => rw [hb] at h; exact h
    | inl s' =>
      rw [hb] at h
      exact ih (by omega) h

/-- Run `body` from `s` until it leaves the loop. -/
def loop (body : σ → σ ⊕ ρ) (μ : σ → Nat) (h : Decreases body μ) (s : σ) : ρ :=
  (iter body (μ s + 1) s).get (iter_isSome h _ s (Nat.lt_succ_self _))

theorem iter_eq_loop (h : Decreases body μ) (s : σ) :
    iter body (μ s + 1) s = some (loop body μ h s) := by
  rw [loop, Option.some_get]

/-- One round of the loop. -/
theorem loop_eq (h : Decreases body μ) (s : σ) :
    loop body μ h s =
      match body s with
      | .inl s' => loop body μ h s'
      | .inr r => r := by
  have hs := iter_eq_loop h s
  rw [iter] at hs
  cases hb : body s with
  | inr r =>
    rw [hb] at hs
    exact (Option.some.inj hs).symm
  | inl s' =>
    rw [hb] at hs
    have hlt := h s s' hb
    have := iter_mono (m := μ s) (by omega) (iter_eq_loop h s')
    exact Option.some.inj (hs.symm.trans this)

theorem loop_of_inl {h : Decreases body μ} {s s' : σ} (hb : body s = .inl s') :
    loop body μ h s = loop body μ h s' := by
  rw [loop_eq h s, hb]

theorem loop_of_inr {h : Decreases body μ} {s : σ} {r : ρ} (hb : body s = .inr r) :
    loop body μ h s = r := by
  rw [loop_eq h s, hb]

/-- **Induction over the rounds.** A relation between the entry state and the result
that holds of a last round and is carried backwards over a round holds of the loop. -/
theorem loop_induct (h : Decreases body μ) {P : σ → ρ → Prop}
    (done : ∀ s r, body s = .inr r → P s r)
    (step : ∀ s s' r, body s = .inl s' → P s' r → P s r) (s : σ) :
    P s (loop body μ h s) := by
  induction hn : μ s using Nat.strongRecOn generalizing s with
  | _ n ih =>
    subst hn
    cases hb : body s with
    | inr r => rw [loop_of_inr hb]; exact done s r hb
    | inl s' =>
      rw [loop_of_inl hb]
      exact step s s' _ hb (ih (μ s') (h s s' hb) s' rfl)

/-- **The invariant rule.** An invariant that every round keeps, and that gives `Q` of
the result when the loop is left, gives `Q` of the loop. -/
theorem loop_inv (h : Decreases body μ) {I : σ → Prop} {Q : ρ → Prop}
    (step : ∀ s s', I s → body s = .inl s' → I s')
    (done : ∀ s r, I s → body s = .inr r → Q r) {s : σ} (hs : I s) :
    Q (loop body μ h s) :=
  loop_induct h (P := fun s r => I s → Q r) (fun s r hb hi => done s r hi hb)
    (fun s s' _ hb ih hi => ih (step s s' hi hb)) s hs

end Lib
