import Mathlib.Data.List.Nodup
import Mathlib.Logic.Function.Basic

/-!
# Zcio.Lib.Ownership

**Resources with exactly one holder.** There is a pool of resources, and holders of which each has one
or none. A resource is in the pool if and only if some holder has it, and no two have the same: so none
is lost, and none is given back twice. What a program does to them is one of four things: a holder
acquires a fresh resource, releases its own, hands it to another, or nothing.
-/

namespace Lib

variable {ρ η : Type} {pool pool' : ρ → Prop} {holds holds' : η → Option ρ} {r : ρ} {k k' : η}

/-- Every resource of the pool has a holder, and no other one. -/
structure Owns (pool : ρ → Prop) (holds : η → Option ρ) : Prop where
  held : ∀ r, pool r → ∃ k, holds k = some r
  pooled : ∀ k r, holds k = some r → pool r
  apart : ∀ k k' r, holds k = some r → holds k' = some r → k = k'

/-- Only `k` may hold something else than before. -/
def SameBut (holds : η → Option ρ) (k : η) (holds' : η → Option ρ) : Prop := ∀ j, j ≠ k → holds' j = holds j

theorem Owns.empty (hpool : ∀ r, ¬pool r) (hholds : ∀ k, holds k = none) : Owns pool holds where
  held r hr := absurd hr (hpool r)
  pooled k r hk := by
    rw [hholds] at hk
    cases hk
  apart k k' r hk := by
    rw [hholds] at hk
    cases hk

theorem Owns.congr (h : Owns pool holds) (hpool : ∀ r, pool' r ↔ pool r) (hholds : ∀ k, holds' k = holds k) :
    Owns pool' holds' where
  held r hr := by
    obtain ⟨k, hk⟩ := h.held r ((hpool r).mp hr)
    exact ⟨k, (hholds k).trans hk⟩
  pooled k r hk := (hpool r).mpr (h.pooled k r ((hholds k).symm.trans hk))
  apart k k' r hk hk' := h.apart k k' r ((hholds k).symm.trans hk) ((hholds k').symm.trans hk')

/-- **Acquiring** a resource that is not in the pool. -/
theorem Owns.acquire (h : Owns pool holds) (hfresh : ¬pool r) (hk : holds k = none)
    (hpool : ∀ r', pool' r' ↔ r' = r ∨ pool r') (hself : holds' k = some r) (hsame : SameBut holds k holds') :
    Owns pool' holds' where
  held r' hr' := by
    obtain rfl | hold := (hpool r').mp hr'
    · exact ⟨k, hself⟩
    · obtain ⟨j, hj⟩ := h.held r' hold
      have hne : j ≠ k := by
        rintro rfl
        rw [hk] at hj
        cases hj
      exact ⟨j, (hsame j hne).trans hj⟩
  pooled j r' hj := by
    by_cases hjk : j = k
    · rw [hjk, hself] at hj
      exact (hpool r').mpr (.inl (Option.some.inj hj).symm)
    · exact (hpool r').mpr (.inr (h.pooled j r' ((hsame j hjk).symm.trans hj)))
  apart i j r' hi hj := by
    by_cases hik : i = k
    · by_cases hjk : j = k
      · rw [hik, hjk]
      · rw [hik, hself] at hi
        rw [hsame j hjk, ← Option.some.inj hi] at hj
        exact absurd (h.pooled j r hj) hfresh
    · rw [hsame i hik] at hi
      by_cases hjk : j = k
      · rw [hjk, hself] at hj
        rw [← Option.some.inj hj] at hi
        exact absurd (h.pooled i r hi) hfresh
      · rw [hsame j hjk] at hj
        exact h.apart i j r' hi hj

/-- **Releasing** the resource of a holder. -/
theorem Owns.release (h : Owns pool holds) (hk : holds k = some r)
    (hpool : ∀ r', pool' r' ↔ r' ≠ r ∧ pool r') (hself : holds' k = none) (hsame : SameBut holds k holds') :
    Owns pool' holds' := by
  have hback : ∀ j r', holds' j = some r' → j ≠ k ∧ holds j = some r' := by
    intro j r' hj
    have hjk : j ≠ k := by
      rintro rfl
      rw [hself] at hj
      cases hj
    exact ⟨hjk, (hsame j hjk).symm.trans hj⟩
  refine ⟨fun r' hr' => ?_, fun j r' hj => ?_, fun i j r' hi hj => ?_⟩
  · obtain ⟨hne, hold⟩ := (hpool r').mp hr'
    obtain ⟨j, hj⟩ := h.held r' hold
    have hjk : j ≠ k := by
      rintro rfl
      rw [hk] at hj
      exact hne (Option.some.inj hj).symm
    exact ⟨j, (hsame j hjk).trans hj⟩
  · obtain ⟨hjk, hj⟩ := hback j r' hj
    refine (hpool r').mpr ⟨?_, h.pooled j r' hj⟩
    rintro rfl
    exact hjk (h.apart j k r' hj hk)
  · exact h.apart i j r' (hback i r' hi).2 (hback j r' hj).2

/-- **Handing over** the resource of `k` to `k'`. -/
theorem Owns.transfer (h : Owns pool holds) (hk : holds k = some r) (hk' : holds k' = none)
    (hself : holds' k = none) (hself' : holds' k' = some r) (hsame : ∀ j, j ≠ k → j ≠ k' → holds' j = holds j) :
    Owns pool holds' := by
  classical
  have hne : k' ≠ k := by
    rintro rfl
    rw [hk] at hk'
    cases hk'
  have hin : pool r := h.pooled k r hk
  -- in between nobody has it
  have hreleased : Owns (fun r' => r' ≠ r ∧ pool r') (Function.update holds k none) :=
    h.release hk (fun _ => Iff.rfl) (Function.update_self k none holds) fun j hj => Function.update_of_ne hj none holds
  refine hreleased.acquire (fun hr => hr.1 rfl) ?_ (fun r' => ⟨fun hr' => ?_, fun hr' => ?_⟩) hself' fun j hj => ?_
  · rwa [Function.update_of_ne hne]
  · by_cases heq : r' = r
    · exact .inl heq
    · exact .inr ⟨heq, hr'⟩
  · obtain rfl | ⟨-, hr'⟩ := hr'
    · exact hin
    · exact hr'
  · by_cases hjk : j = k
    · rw [hjk, Function.update_self, hself]
    · rw [Function.update_of_ne hjk]
      exact hsame j hjk hj

end Lib
