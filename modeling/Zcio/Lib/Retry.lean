import Mathlib.Algebra.Order.Ring.Nat
import Mathlib.Tactic.Common

/-!
# Zcio.Lib.Retry

**Waiting with a deadline.** A call that may be interrupted is told how long it may take, and is made
again with the time that is left. The clock counts in fine units, of which `g` make a tick; deadlines
and timeouts are in ticks, as a program reads them.

What such a loop promises is proved once, for any outcome of the call: `retry_before` says when it is
back, `retry_notEarly` that it does not give up before its time, and `retry_open` that it goes on only
while there is time left.
-/

namespace Lib

variable {ρ : Type}

/-- A call that may be interrupted. For the ticks it may take (`none`: any number) it has an outcome,
`none` if it was interrupted, and the units of time it took. -/
abbrev Interruptible (ρ : Type) := Option Nat → Option ρ × Nat

/-- How a wait ended: its outcome, `none` if the last call that is known was interrupted; and the time. -/
structure Waited (ρ : Type) where
  result : Option ρ
  time : Nat

/-- The call is made until it is not interrupted, or the deadline has passed: then the outcome is `late`. -/
def retry (g : Nat) (deadline : Option Nat) (late : ρ) : List (Interruptible ρ) → Nat → Waited ρ
  | [], t => ⟨none, t⟩
  | call :: calls, t =>
    let (outcome, took) := call (deadline.map (· - t / g))
    match outcome with
    | some r => ⟨some r, t + took⟩
    | none =>
      if (deadline.elim true fun d => (t + took) / g < d) then retry g deadline late calls (t + took)
      else ⟨some late, t + took⟩

/-- A call that keeps its timeout: it is back at most `slack` units behind it, and an outcome by which
it gave up did not come before. -/
structure Punctual (g slack : Nat) (gaveUp : ρ → Prop) (call : Interruptible ρ) : Prop where
  back : ∀ n, (call (some n)).2 ≤ n * g + slack
  full : ∀ n r, (call (some n)).1 = some r → gaveUp r → n * g ≤ (call (some n)).2

section

variable {g slack : Nat} {gaveUp : ρ → Prop} {late : ρ} {call : Interruptible ρ} {calls : List (Interruptible ρ)}
  {deadline : Option Nat} {d t : Nat} {r : ρ}

theorem retry_done (h : (call (deadline.map (· - t / g))).1 = some r) :
    retry g deadline late (call :: calls) t = ⟨some r, t + (call (deadline.map (· - t / g))).2⟩ := by
  simp only [retry, h]

theorem retry_again (h : (call (deadline.map (· - t / g))).1 = none)
    (hleft : ∀ d ∈ deadline, (t + (call (deadline.map (· - t / g))).2) / g < d) :
    retry g deadline late (call :: calls) t =
      retry g deadline late calls (t + (call (deadline.map (· - t / g))).2) := by
  simp only [retry, h]
  refine if_pos ?_
  cases deadline with
  | none => rfl
  | some d => exact decide_eq_true (hleft d rfl)

theorem retry_late (h : (call (some (d - t / g))).1 = none) (hpast : d ≤ (t + (call (some (d - t / g))).2) / g) :
    retry g (some d) late (call :: calls) t = ⟨some late, t + (call (some (d - t / g))).2⟩ := by
  simp only [retry, Option.map_some, h]
  exact if_neg fun hd => (of_decide_eq_true hd).not_ge hpast

/-- One round: the call is over, there is time for another, or the deadline has passed. -/
theorem retry_cases (g d t : Nat) (late : ρ) (call : Interruptible ρ) (calls : List (Interruptible ρ)) :
    let took := (call (some (d - t / g))).2
    (∃ r, (call (some (d - t / g))).1 = some r ∧ retry g (some d) late (call :: calls) t = ⟨some r, t + took⟩) ∨
      ((t + took) / g < d ∧ retry g (some d) late (call :: calls) t = retry g (some d) late calls (t + took)) ∨
      (d ≤ (t + took) / g ∧ retry g (some d) late (call :: calls) t = ⟨some late, t + took⟩) := by
  cases h : (call (some (d - t / g))).1 with
  | some r => exact .inl ⟨r, rfl, retry_done h⟩
  | none =>
    rcases Nat.lt_or_ge ((t + (call (some (d - t / g))).2) / g) d with hleft | hpast
    · refine .inr (.inl ⟨hleft, retry_again h fun d' hd' => ?_⟩)
      obtain rfl := Option.some.inj hd'
      exact hleft
    · exact .inr (.inr ⟨hpast, retry_late h hpast⟩)

/-- The ticks up to `d`, from the middle of one. -/
theorem ticks_left (hg : 0 < g) (ht : t / g ≤ d) :
    t + (d - t / g) * g < (d + 1) * g ∧ d * g ≤ t + (d - t / g) * g := by
  have hsplit := Nat.div_add_mod t g
  have hmod := Nat.mod_lt t hg
  have hmul : (d - t / g) * g + g * (t / g) = d * g := by
    rw [Nat.mul_comm g, ← Nat.add_mul, Nat.sub_add_cancel ht]
  rw [Nat.add_mul, Nat.one_mul]
  omega

/-- **The wait is over in time**, however often it was interrupted. -/
theorem retry_before (hg : 0 < g) (hcalls : ∀ c ∈ calls, Punctual g slack gaveUp c) (ht : t / g ≤ d) :
    (retry g (some d) late calls t).time < (d + 1) * g + slack := by
  induction calls generalizing t with
  | nil =>
    have := ticks_left hg ht
    change t < _
    omega
  | cons call calls ih =>
    obtain ⟨hcall, hcalls⟩ := List.forall_mem_cons.mp hcalls
    have hback := hcall.back (d - t / g)
    have hleft := ticks_left hg ht
    rcases retry_cases g d t late call calls with ⟨r, -, heq⟩ | ⟨hagain, heq⟩ | ⟨-, heq⟩
    · rw [heq]
      dsimp only
      omega
    · rw [heq]
      exact ih hcalls hagain.le
    · rw [heq]
      dsimp only
      omega

/-- **The wait is not given up early.** -/
theorem retry_notEarly (hg : 0 < g) (hcalls : ∀ c ∈ calls, Punctual g slack gaveUp c) (ht : t / g ≤ d)
    (hresult : (retry g (some d) late calls t).result = some r) (hgave : gaveUp r) :
    d * g ≤ (retry g (some d) late calls t).time := by
  induction calls generalizing t with
  | nil => cases hresult
  | cons call calls ih =>
    obtain ⟨hcall, hcalls⟩ := List.forall_mem_cons.mp hcalls
    rcases retry_cases g d t late call calls with ⟨r', hr', heq⟩ | ⟨hagain, heq⟩ | ⟨hpast, heq⟩
    · rw [heq] at hresult ⊢
      obtain rfl := Option.some.inj hresult
      have hfull := hcall.full (d - t / g) r' hr' hgave
      exact (ticks_left hg ht).2.trans (Nat.add_le_add_left hfull t)
    · rw [heq] at hresult ⊢
      exact ih hcalls hagain.le hresult
    · rw [heq]
      exact (Nat.le_div_iff_mul_le hg).mp hpast

/-- **Only time that is left is waited for.** If all calls that are known were interrupted, then the
deadline has not passed behind the last one. -/
theorem retry_open (hne : calls ≠ []) (hopen : (retry g (some d) late calls t).result = none) :
    (retry g (some d) late calls t).time / g < d := by
  induction calls generalizing t with
  | nil => exact absurd rfl hne
  | cons call calls ih =>
    rcases retry_cases g d t late call calls with ⟨r, -, heq⟩ | ⟨hagain, heq⟩ | ⟨-, heq⟩
    · rw [heq] at hopen
      cases hopen
    · rw [heq] at hopen ⊢
      cases calls with
      | nil => exact hagain
      | cons call' calls => exact ih (List.cons_ne_nil _ _) hopen
    · rw [heq] at hopen
      cases hopen

/-- The outcome is `late`, or that of one of the calls. -/
theorem retry_result (hresult : (retry g deadline late calls t).result = some r) :
    r = late ∨ ∃ call ∈ calls, ∃ n, (call n).1 = some r := by
  induction calls generalizing t with
  | nil => cases hresult
  | cons call calls ih =>
    cases h : (call (deadline.map (· - t / g))).1 with
    | some r' =>
      rw [retry_done h] at hresult
      obtain rfl := Option.some.inj hresult
      exact .inr ⟨call, List.mem_cons_self, _, h⟩
    | none =>
      simp only [retry, h] at hresult
      split at hresult
      · rcases ih hresult with hlate | ⟨call', hmem, hr⟩
        · exact .inl hlate
        · exact .inr ⟨call', List.mem_cons_of_mem _ hmem, hr⟩
      · exact .inl (Option.some.inj hresult).symm

end

end Lib
