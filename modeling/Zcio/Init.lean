import Mathlib.Data.List.Induction
import Mathlib.Logic.Function.Basic
import Mathlib.Tactic.Common

/-!
# Zcio.Init

The one-time initialisation of `util.c`, which every call of `tls.c` that makes a context goes through,
from any number of threads. A step is one atomic access to `g_init_state` or one call of the body, and
the threads take their steps in any order.

* **`zcioInit_once`**: the body runs once and as a whole before any call is back, and no call waits for
  ever.

The steps are taken one after the other, as acquire and release make them appear.
-/

namespace Zcio

/-- `ZCIO_INIT_NONE`, `ZCIO_INIT_BUSY` and `ZCIO_INIT_DONE`. -/
inductive InitState where
  | none
  | busy
  | done
  deriving Repr, DecidableEq

/-- The calls in the body of `zcio_init`. -/
inductive InitOp where
  | socketStartup
  | tlsInstallDefaultBackend
  deriving Repr, DecidableEq

/-- The body of `zcio_init`. -/
def initBody : List InitOp := [.socketStartup, .tlsInstallDefaultBackend]

/-- Where a thread stands: it has not called `zcio_init`, or its last call is at the compare-exchange, in
front of a call of the body or of the store behind it, at the load of the loop, or back. -/
inductive InitPc where
  | idle
  | cas
  | socket
  | backend
  | store
  | spin
  | returned
  deriving Repr, DecidableEq

/-- The threads that share `g_init_state` and `g_backend`, and the calls that were made of the body. -/
structure InitSys (τ β : Type) where
  initState : InitState := .none
  gBackend : Option β := none
  ran : List InitOp := []
  pc : τ → InitPc := fun _ => .idle

/-- What happens next: a thread calls `zcio_init`, goes on with its call, or calls
`zcio_tls_set_backend`. -/
inductive InitMove (τ β : Type) where
  | call (t : τ)
  | run (t : τ)
  | setBackend (b : β)

variable {τ β : Type} [DecidableEq τ]

def InitSys.goto (s : InitSys τ β) (t : τ) (pc : InitPc) : InitSys τ β := { s with pc := Function.update s.pc t pc }

/-- The next step of a call of `zcio_init`. -/
def zcioInitStep (dflt : β) (s : InitSys τ β) (t : τ) : InitSys τ β :=
  match s.pc t with
  | .idle | .returned => s
  | .cas => if s.initState = .none then { s with initState := .busy }.goto t .socket else s.goto t .spin
  | .socket => { s with ran := s.ran ++ [InitOp.socketStartup] }.goto t .backend
  | .backend => { s with ran := s.ran ++ [InitOp.tlsInstallDefaultBackend], gBackend := some dflt }.goto t .store
  | .store => { s with initState := .done }.goto t .returned
  | .spin => if s.initState = .done then s.goto t .returned else s

/-- A thread calls `zcio_init` when it is not in a call. -/
def initMove (dflt : β) (s : InitSys τ β) : InitMove τ β → InitSys τ β
  | .call t => if s.pc t = .idle ∨ s.pc t = .returned then s.goto t .cas else s
  | .run t => zcioInitStep dflt s t
  | .setBackend b => { s with gBackend := some b }

/-- A run from the start of the process. -/
def initRun (dflt : β) (moves : List (InitMove τ β)) : InitSys τ β := moves.foldl (initMove dflt) {}

/-! ### The invariant

Which thread has the right to initialise, and what each of the others is waiting for. -/

/-- What was called of the body in front of a point of it. -/
def InitPc.before : InitPc → Option (List InitOp)
  | .socket => some []
  | .backend => some [.socketStartup]
  | .store => some initBody
  | _ => none

theorem InitPc.before_prefix {pc : InitPc} {ops : List InitOp} (h : pc.before = some ops) : ops <+: initBody := by
  cases pc <;> cases h <;> decide

/-- **The invariant**, for each state of `g_init_state`. -/
def InitSys.Inv (s : InitSys τ β) : Prop :=
  match s.initState with
  | .none => s.ran = [] ∧ ∀ t, s.pc t = .idle ∨ s.pc t = .cas
  | .busy => ∃ w, (s.pc w).before = some s.ran ∧ (s.pc w = .store → s.gBackend.isSome) ∧
      ∀ t, t ≠ w → s.pc t = .idle ∨ s.pc t = .cas ∨ s.pc t = .spin
  | .done => s.ran = initBody ∧ s.gBackend.isSome ∧ ∀ t, (s.pc t).before = none

variable {dflt : β} {s : InitSys τ β}

@[simp] theorem goto_pc_self (s : InitSys τ β) (t : τ) (pc : InitPc) : (s.goto t pc).pc t = pc :=
  Function.update_self ..

theorem goto_pc_of_ne {t u : τ} (h : u ≠ t) (s : InitSys τ β) (pc : InitPc) : (s.goto t pc).pc u = s.pc u :=
  Function.update_of_ne h ..

/-- What all threads but one satisfy, and that one where it goes. -/
theorem forall_goto {P : τ → InitPc → Prop} {t : τ} {pc : InitPc} (hpc : P t pc) (h : ∀ u, u ≠ t → P u (s.pc u)) :
    ∀ u, P u ((s.goto t pc).pc u) := by
  intro u
  by_cases hu : u = t
  · rw [hu, goto_pc_self]
    exact hpc
  · rw [goto_pc_of_ne hu]
    exact h u hu

/-- A call that starts, or stops at the loop, in a state that allows it. -/
theorem InitSys.Inv.goto_outside (h : s.Inv) {t : τ} {pc : InitPc} (hold : (s.pc t).before = none)
    (hnew : pc = .idle ∨ pc = .cas ∨ pc = .spin ∧ s.initState ≠ .none ∨ pc = .returned ∧ s.initState = .done) :
    (s.goto t pc).Inv := by
  unfold Inv at h ⊢
  have hstate : (s.goto t pc).initState = s.initState := rfl
  rw [hstate]
  cases hs : s.initState with
  | none =>
    rw [hs] at h
    refine ⟨h.1, forall_goto (P := fun _ pc => pc = .idle ∨ pc = .cas) ?_ fun u _ => h.2 u⟩
    simpa [hs] using hnew
  | busy =>
    rw [hs] at h
    obtain ⟨w, hbefore, hbackend, hothers⟩ := h
    have hw : w ≠ t := by
      rintro rfl
      rw [hold] at hbefore
      cases hbefore
    refine ⟨w, ?_, ?_, fun u hu => ?_⟩
    · rw [goto_pc_of_ne hw]
      exact hbefore
    · rw [goto_pc_of_ne hw]
      exact hbackend
    · by_cases hut : u = t
      · rw [hut, goto_pc_self]
        simpa [hs] using hnew
      · rw [goto_pc_of_ne hut]
        exact hothers u hu
  | done =>
    rw [hs] at h
    refine ⟨h.1, h.2.1, forall_goto (P := fun _ pc => pc.before = none) ?_ fun u _ => h.2.2 u⟩
    rcases hnew with rfl | rfl | ⟨rfl, -⟩ | ⟨rfl, -⟩ <;> rfl

/-- A call that is in the body, or goes there, while no other one is. -/
theorem InitSys.goto_winner {t : τ} {pc : InitPc} (hbusy : s.initState = .busy) (hpc : pc.before = some s.ran)
    (hstore : pc = .store → s.gBackend.isSome)
    (hothers : ∀ u, u ≠ t → s.pc u = .idle ∨ s.pc u = .cas ∨ s.pc u = .spin) : (s.goto t pc).Inv := by
  have hstate : (s.goto t pc).initState = .busy := hbusy
  rw [Inv, hstate]
  refine ⟨t, ?_, ?_, fun u hu => ?_⟩
  · rw [goto_pc_self]
    exact hpc
  · rw [goto_pc_self]
    exact hstore
  · rw [goto_pc_of_ne hu]
    exact hothers u hu

/-- A call in the body is the one that won. -/
theorem InitSys.Inv.winner (h : s.Inv) {t : τ} {ops : List InitOp} (ht : (s.pc t).before = some ops) :
    s.initState = .busy ∧ s.ran = ops ∧ (s.pc t = .store → s.gBackend.isSome) ∧
      ∀ u, u ≠ t → s.pc u = .idle ∨ s.pc u = .cas ∨ s.pc u = .spin := by
  have houtside : ∀ {pc : InitPc}, pc = .idle ∨ pc = .cas ∨ pc = .spin → pc.before ≠ some ops := by
    rintro pc (rfl | rfl | rfl) hpc <;> cases hpc
  unfold Inv at h
  cases hs : s.initState with
  | none =>
    rw [hs] at h
    exact absurd ht (houtside ((h.2 t).imp_right .inl))
  | busy =>
    rw [hs] at h
    obtain ⟨w, hbefore, hbackend, hothers⟩ := h
    by_cases hw : t = w
    · subst hw
      rw [ht] at hbefore
      exact ⟨rfl, (Option.some.inj hbefore).symm, hbackend, hothers⟩
    · exact absurd ht (houtside (hothers t hw))
  | done =>
    rw [hs] at h
    rw [h.2.2 t] at ht
    cases ht

/-- **The next step of a call** keeps the invariant. -/
theorem zcioInitStep_inv (h : s.Inv) (t : τ) : (zcioInitStep dflt s t).Inv := by
  rw [zcioInitStep]
  cases hpc : s.pc t with
  | idle => exact h
  | returned => exact h
  | cas =>
    dsimp only
    split
    · -- this call wins
      rename_i hnone
      rw [InitSys.Inv, hnone] at h
      refine InitSys.goto_winner rfl (by rw [h.1]; rfl) (fun hstore => by cases hstore) fun u _ => ?_
      exact (h.2 u).imp_right .inl
    · rename_i hlost
      exact h.goto_outside (by rw [hpc]; rfl) (.inr (.inr (.inl ⟨rfl, hlost⟩)))
  | socket =>
    obtain ⟨hbusy, hran, -, hothers⟩ := h.winner (t := t) (by rw [hpc]; rfl)
    exact InitSys.goto_winner hbusy (by rw [hran]; rfl) (fun hstore => by cases hstore) hothers
  | backend =>
    obtain ⟨hbusy, hran, -, hothers⟩ := h.winner (t := t) (by rw [hpc]; rfl)
    exact InitSys.goto_winner hbusy (by rw [hran]; rfl) (fun _ => rfl) hothers
  | store =>
    obtain ⟨-, hran, hbackend, hothers⟩ := h.winner (t := t) (by rw [hpc]; rfl)
    refine ⟨hran, hbackend hpc, forall_goto (P := fun _ pc => pc.before = none) rfl fun u hu => ?_⟩
    rcases hothers u hu with hu | hu | hu <;> exact congrArg InitPc.before hu
  | spin =>
    dsimp only
    split
    · rename_i hdone
      exact h.goto_outside (by rw [hpc]; rfl) (.inr (.inr (.inr ⟨rfl, hdone⟩)))
    · exact h

theorem initMove_inv (h : s.Inv) (move : InitMove τ β) : (initMove dflt s move).Inv := by
  cases move with
  | call t =>
    rw [initMove]
    split
    · rename_i hout
      exact h.goto_outside (by rcases hout with hpc | hpc <;> rw [hpc] <;> rfl) (.inr (.inl rfl))
    · exact h
  | run t => exact zcioInitStep_inv h t
  | setBackend b =>
    unfold InitSys.Inv at h
    rw [initMove]
    unfold InitSys.Inv
    dsimp only
    cases hs : s.initState with
    | none =>
      rw [hs] at h
      exact h
    | busy =>
      rw [hs] at h
      obtain ⟨w, hbefore, -, hothers⟩ := h
      exact ⟨w, hbefore, fun _ => rfl, hothers⟩
    | done =>
      rw [hs] at h
      exact ⟨h.1, rfl, h.2.2⟩

theorem initRun_inv (moves : List (InitMove τ β)) : (initRun dflt moves).Inv := by
  induction moves using List.reverseRecOn with
  | nil => exact ⟨rfl, fun _ => .inl rfl⟩
  | append_singleton moves move ih =>
    rw [initRun, List.foldl_append]
    exact initMove_inv ih move

/-! ### No call waits for ever

A thread that runs alone from any state of the run is done in a bounded number of steps. -/

/-- What is left of the call that won: it ends with the store, and no other call has moved. -/
def Finishes (dflt : β) (s : InitSys τ β) (w : τ) (n : Nat) : Prop :=
  ∃ ws : List τ, ws.length ≤ n ∧ (ws.foldl (zcioInitStep dflt) s).initState = .done ∧
    (ws.foldl (zcioInitStep dflt) s).pc w = .returned ∧
    ∀ u, u ≠ w → (ws.foldl (zcioInitStep dflt) s).pc u = s.pc u

theorem finishes_store {w : τ} (hpc : s.pc w = .store) : Finishes dflt s w 1 := by
  have hstep : zcioInitStep dflt s w = { s with initState := .done }.goto w .returned := by rw [zcioInitStep, hpc]
  refine ⟨[w], Nat.le_refl 1, ?_⟩
  rw [List.foldl_cons, List.foldl_nil, hstep]
  exact ⟨rfl, goto_pc_self _ _ _, fun u hu => goto_pc_of_ne hu _ _⟩

theorem Finishes.step {w : τ} {n : Nat} {pc : InitPc} {s₁ : InitSys τ β} (hstep : zcioInitStep dflt s w = s₁.goto w pc)
    (hsame : s₁.pc = s.pc) (h : Finishes dflt (s₁.goto w pc) w n) : Finishes dflt s w (n + 1) := by
  obtain ⟨ws, hlen, hdone, hret, hothers⟩ := h
  refine ⟨w :: ws, Nat.succ_le_succ hlen, ?_⟩
  rw [List.foldl_cons, hstep]
  refine ⟨hdone, hret, fun u hu => ?_⟩
  rw [hothers u hu, goto_pc_of_ne hu, hsame]

theorem finishes_backend {w : τ} (hpc : s.pc w = .backend) : Finishes dflt s w 2 := by
  have hstep : zcioInitStep dflt s w =
      { s with ran := s.ran ++ [InitOp.tlsInstallDefaultBackend], gBackend := some dflt }.goto w .store := by
    rw [zcioInitStep, hpc]
  exact .step hstep rfl (finishes_store (goto_pc_self _ _ _))

theorem finishes_socket {w : τ} (hpc : s.pc w = .socket) : Finishes dflt s w 3 := by
  have hstep : zcioInitStep dflt s w = { s with ran := s.ran ++ [InitOp.socketStartup] }.goto w .backend := by
    rw [zcioInitStep, hpc]
  exact .step hstep rfl (finishes_backend (goto_pc_self _ _ _))

theorem Finishes.mono {w : τ} {n m : Nat} (h : Finishes dflt s w n) (hle : n ≤ m) : Finishes dflt s w m := by
  obtain ⟨ws, hlen, hrest⟩ := h
  exact ⟨ws, Nat.le_trans hlen hle, hrest⟩

/-- The call of `t` is back behind at most `n` steps of calls. -/
def Returns (dflt : β) (s : InitSys τ β) (t : τ) (n : Nat) : Prop :=
  ∃ ts : List τ, ts.length ≤ n ∧ (ts.foldl (zcioInitStep dflt) s).pc t = .returned

/-- A call behind the body, at the compare-exchange or in the loop. -/
theorem returns_done {t : τ} (hdone : s.initState = .done) (hpc : s.pc t = .cas ∨ s.pc t = .spin) : Returns dflt s t 2 := by
  have hspin : ∀ s₁ : InitSys τ β, s₁.initState = .done → s₁.pc t = .spin →
      (zcioInitStep dflt s₁ t).pc t = .returned := by
    intro s₁ hdone₁ hpc₁
    rw [zcioInitStep, hpc₁]
    dsimp only
    rw [if_pos hdone₁, goto_pc_self]
  rcases hpc with hpc | hpc
  · have hlost : zcioInitStep dflt s t = s.goto t .spin := by
      rw [zcioInitStep, hpc]
      dsimp only
      rw [if_neg (by rw [hdone]; exact InitState.noConfusion)]
    refine ⟨[t, t], Nat.le_refl 2, ?_⟩
    rw [List.foldl_cons, List.foldl_cons, List.foldl_nil, hlost]
    exact hspin _ hdone (goto_pc_self _ _ _)
  · exact ⟨[t], Nat.le_succ 1, hspin s hdone hpc⟩

/-- **A call comes back**, if the threads go on. -/
theorem InitSys.Inv.returns (h : s.Inv) {t : τ} (hidle : s.pc t ≠ .idle) (hback : s.pc t ≠ .returned) :
    Returns dflt s t 5 := by
  have houtside : (s.pc t).before = none → s.pc t = .cas ∨ s.pc t = .spin := by
    intro hnone
    cases hpc : s.pc t with
    | cas => exact .inl rfl
    | spin => exact .inr rfl
    | idle => exact absurd hpc hidle
    | returned => exact absurd hpc hback
    | socket => rw [hpc] at hnone; cases hnone
    | backend => rw [hpc] at hnone; cases hnone
    | store => rw [hpc] at hnone; cases hnone
  unfold InitSys.Inv at h
  cases hs : s.initState with
  | none =>
    -- it wins, and goes through the body
    rw [hs] at h
    have hcas : s.pc t = .cas := (h.2 t).resolve_left hidle
    have hwin : zcioInitStep dflt s t = { s with initState := .busy }.goto t .socket := by
      rw [zcioInitStep, hcas]
      exact if_pos hs
    have hfinish : Finishes dflt ({ s with initState := .busy }.goto t .socket) t 3 := finishes_socket (goto_pc_self _ _ _)
    obtain ⟨ws, hlen, -, hret, -⟩ := hfinish
    refine ⟨t :: ws, by rw [List.length_cons]; omega, ?_⟩
    rw [List.foldl_cons, hwin]
    exact hret
  | busy =>
    rw [hs] at h
    obtain ⟨w, hbefore, -, hothers⟩ := h
    have hfinish : Finishes dflt s w 3 := by
      cases hpc : s.pc w with
      | socket => exact finishes_socket hpc
      | backend => exact (finishes_backend hpc).mono (by omega)
      | store => exact (finishes_store hpc).mono (by omega)
      | idle => rw [hpc] at hbefore; cases hbefore
      | cas => rw [hpc] at hbefore; cases hbefore
      | spin => rw [hpc] at hbefore; cases hbefore
      | returned => rw [hpc] at hbefore; cases hbefore
    obtain ⟨ws, hlen, hdone, hret, hsame⟩ := hfinish
    by_cases hw : t = w
    · subst hw
      exact ⟨ws, by omega, hret⟩
    · have hpc := hsame t hw
      have hout : s.pc t = .cas ∨ s.pc t = .spin := (hothers t hw).resolve_left hidle
      rw [← hpc] at hout
      obtain ⟨ts, hlen', hret'⟩ := @returns_done _ _ _ dflt _ t hdone hout
      refine ⟨ws ++ ts, by rw [List.length_append]; omega, ?_⟩
      rw [List.foldl_append]
      exact hret'
  | done =>
    rw [hs] at h
    obtain ⟨ts, hlen, hret⟩ := @returns_done _ _ _ dflt _ t hs (houtside (h.2.2 t))
    exact ⟨ts, by omega, hret⟩

/-! ### Runs -/

/-- The calls of the body are made in order. -/
theorem initRun_ran (dflt : β) (moves : List (InitMove τ β)) : (initRun dflt moves).ran <+: initBody := by
  have h : (initRun dflt moves).Inv := initRun_inv moves
  generalize initRun dflt moves = s at h
  unfold InitSys.Inv at h
  cases hs : s.initState with
  | none =>
    rw [hs] at h
    rw [h.1]
    exact List.nil_prefix
  | busy =>
    rw [hs] at h
    obtain ⟨w, hbefore, -⟩ := h
    exact InitPc.before_prefix hbefore
  | done =>
    rw [hs] at h
    exact h.1 ▸ List.prefix_rfl

/-- No call is back before the store. -/
theorem InitSys.Inv.done_of_returned (h : s.Inv) {t : τ} (ht : s.pc t = .returned) :
    s.ran = initBody ∧ s.gBackend.isSome := by
  unfold Inv at h
  cases hs : s.initState with
  | none =>
    rw [hs] at h
    rcases h.2 t with hpc | hpc <;> rw [hpc] at ht <;> cases ht
  | busy =>
    rw [hs] at h
    obtain ⟨w, hbefore, -, hothers⟩ := h
    by_cases hw : t = w
    · rw [← hw, ht] at hbefore
      cases hbefore
    · rcases hothers t hw with hpc | hpc | hpc <;> rw [hpc] at ht <;> cases ht
  | done =>
    rw [hs] at h
    exact ⟨h.1, h.2.1⟩

/-- Two threads are not in the body. -/
theorem InitSys.Inv.alone (h : s.Inv) {t u : τ} (ht : (s.pc t).before.isSome) (hu : (s.pc u).before.isSome) : t = u := by
  obtain ⟨ops, hops⟩ := Option.isSome_iff_exists.mp ht
  by_contra hne
  rcases (h.winner hops).2.2.2 u (Ne.symm hne) with hpc | hpc | hpc <;> rw [hpc] at hu <;> cases hu

/-- **Initialised once, and before anyone goes on.** In every state of a run of any threads: the calls
of the body were made in order and none twice, and not by two threads at a time; when a call is back,
the body was run as a whole and there is a TLS backend; and a call that is not back is back behind at
most five more steps of the calls. -/
theorem zcioInit_once (dflt : β) (moves : List (InitMove τ β)) :
    let s := initRun dflt moves
    s.ran <+: initBody ∧ (∀ t u, (s.pc t).before.isSome → (s.pc u).before.isSome → t = u) ∧
      (∀ t, s.pc t = .returned → s.ran = initBody ∧ s.gBackend.isSome) ∧
      ∀ t, s.pc t ≠ .idle → s.pc t ≠ .returned → Returns dflt s t 5 := by
  intro s
  have h : s.Inv := initRun_inv moves
  exact ⟨initRun_ran dflt moves, fun t u => h.alone, fun t => h.done_of_returned, fun t => h.returns⟩

end Zcio
