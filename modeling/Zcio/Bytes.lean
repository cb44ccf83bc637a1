import Mathlib.Data.List.TakeWhile
import Mathlib.Algebra.Order.Ring.Nat
import Mathlib.Tactic.Common

/-!
# Zcio.Bytes

Octet strings and the handful of C library routines the HTTP modules read them with.

A `(pointer, length)` pair of the source is a `Bytes`. A NUL-terminated `char *` is the
text *before* its first NUL (`cstr`): that is all `strlen`, `strcmp`, `strchr` and the
handlers ever see of it, so a length-delimited octet string that is copied into a
`char *` is truncated here exactly where the C program truncates it.
-/

namespace Zcio

/-- A string of octets. -/
abbrev Bytes := List UInt8

/-- The octets of an ASCII literal. -/
def str (s : String) : Bytes := s.toList.map fun c => c.toNat.toUInt8

/-- A literal by its characters. -/
theorem str_ofList (cs : List Char) : str (String.ofList cs) = cs.map fun c => c.toNat.toUInt8 := by
  rw [str, String.toList_ofList]

abbrev HTAB : UInt8 := 9
abbrev LF : UInt8 := 10
abbrev CR : UInt8 := 13
abbrev SP : UInt8 := 32

/-- The line terminator of HTTP/1.1. -/
abbrev crlf : Bytes := [CR, LF]

/-- A universal statement about octets is a statement about 256 of them. -/
theorem forall_octet {P : UInt8 → Prop} (h : ∀ n : Fin 256, P (UInt8.ofNat n)) (b : UInt8) :
    P b := by
  simpa using h ⟨b.toNat, b.toNat_lt⟩

/-! ### `memchr` -/

/-- `memchr`: the index of the first `c` in `s`. -/
def memchr (c : UInt8) (s : Bytes) : Option Nat := s.idxOf? c

@[simp] theorem memchr_nil (c : UInt8) : memchr c [] = none := rfl

theorem memchr_cons (c b : UInt8) (s : Bytes) :
    memchr c (b :: s) = if b = c then some 0 else (memchr c s).map (· + 1) := by
  unfold memchr
  rw [List.idxOf?_cons]
  simp only [beq_iff_eq]

theorem memchr_eq_none {c : UInt8} {s : Bytes} : memchr c s = none ↔ c ∉ s := by
  simp [memchr]

/-- Inverting a hit: the text splits at the first occurrence. -/
theorem memchr_eq_some {c : UInt8} {s : Bytes} {i : Nat} (h : memchr c s = some i) :
    ∃ a b, s = a ++ c :: b ∧ a.length = i ∧ c ∉ a := by
  induction s generalizing i with
  | nil => simp at h
  | cons x s ih =>
    rw [memchr_cons] at h
    by_cases hx : x = c
    · rw [if_pos hx] at h
      obtain rfl : (0 : Nat) = i := Option.some.inj h
      exact ⟨[], s, by simp [hx], rfl, by simp⟩
    · rw [if_neg hx] at h
      obtain ⟨j, hj, rfl⟩ := Option.map_eq_some_iff.mp h
      obtain ⟨a, b, rfl, rfl, ha⟩ := ih hj
      exact ⟨x :: a, b, rfl, rfl, by simp [Ne.symm hx, ha]⟩

/-- The first occurrence is found where it stands. -/
theorem memchr_append {c : UInt8} {a : Bytes} (h : c ∉ a) (b : Bytes) :
    memchr c (a ++ c :: b) = some a.length := by
  induction a with
  | nil => simp [memchr_cons]
  | cons x a ih =>
    have hx : x ≠ c := fun hEq => h (by simp [hEq])
    rw [List.cons_append, memchr_cons, if_neg hx, ih (fun hm => h (by simp [hm]))]
    rfl

/-- Text appended behind a hit does not move it. -/
theorem memchr_append_of_some {c : UInt8} {s : Bytes} {i : Nat} (h : memchr c s = some i)
    (x : Bytes) : memchr c (s ++ x) = some i := by
  obtain ⟨a, b, rfl, rfl, ha⟩ := memchr_eq_some h
  rw [List.append_assoc, List.cons_append]
  exact memchr_append ha _

theorem memchr_lt {c : UInt8} {s : Bytes} {i : Nat} (h : memchr c s = some i) :
    i < s.length := by
  obtain ⟨a, b, rfl, rfl, -⟩ := memchr_eq_some h
  simp

/-! ### NUL-terminated strings

What a C function sees of a list of octets. -/

/-- What a `char *` made from the octets `s` reads as: the text before the first NUL. -/
def cstr (s : Bytes) : Bytes := s.takeWhile (· != 0)

theorem cstr_eq_self {s : Bytes} (h : (0 : UInt8) ∉ s) : cstr s = s := by
  unfold cstr
  rw [List.takeWhile_eq_self_iff]
  intro b hb
  simp only [bne_iff_ne, ne_eq]
  rintro rfl
  exact h hb

/-- A NUL-terminated string handed in by a caller: by construction it holds no NUL. -/
abbrev CStr := { s : Bytes // (0 : UInt8) ∉ s }

/-! ### Case folding (the C locale) -/

/-- `tolower`. -/
def tolower (b : UInt8) : UInt8 := if 65 ≤ b ∧ b ≤ 90 then b + 32 else b

/-- A string with every letter in lower case. -/
def lower (s : Bytes) : Bytes := s.map tolower

@[simp] theorem length_lower (s : Bytes) : (lower s).length = s.length := by simp [lower]

theorem toNat_tolower (b : UInt8) :
    (tolower b).toNat = if 65 ≤ b.toNat ∧ b.toNat ≤ 90 then b.toNat + 32 else b.toNat := by
  simp only [tolower, UInt8.le_iff_toNat_le]
  change (if 65 ≤ b.toNat ∧ b.toNat ≤ 90 then b + 32 else b).toNat = _
  split
  · rename_i hb
    rw [UInt8.toNat_add]
    exact Nat.mod_eq_of_lt (by change b.toNat + 32 < 256; omega)
  · rfl

/-- An octet is its lower case, or 32 below it. -/
theorem toNat_of_tolower {b c : UInt8} (h : tolower b = c) : b = c ∨ b.toNat + 32 = c.toNat := by
  rw [← UInt8.toNat_inj, ← h, toNat_tolower]
  split
  · exact .inr rfl
  · exact .inl rfl

theorem tolower_tolower (b : UInt8) : tolower (tolower b) = tolower b := by
  apply UInt8.toNat_inj.mp
  simp only [toNat_tolower]
  by_cases hb : 65 ≤ b.toNat ∧ b.toNat ≤ 90
  · rw [if_pos hb, if_neg (by omega)]
  · rw [if_neg hb, if_neg hb]

theorem lower_lower (s : Bytes) : lower (lower s) = lower s := by
  simp [lower, tolower_tolower]

/-- ASCII case-insensitive equality (`ci_eq`, `h1_ci_eq`). -/
def ciEq (a b : Bytes) : Bool := lower a == lower b

/-- The decimal digits of `n` (`"%d"`, `"%zu"` of a non-negative number). -/
def decimal (n : Nat) : Bytes := (Nat.toDigits 10 n).map fun c => c.toNat.toUInt8

theorem length_decimal_le_iff {n k : Nat} (hk : 0 < k) : (decimal n).length ≤ k ↔ n < 10 ^ k := by
  rw [decimal, List.length_map]
  exact Nat.length_toDigits_le_iff (by decide) hk

theorem length_decimal_le {n k : Nat} (hk : 0 < k) (h : n < 10 ^ k) : (decimal n).length ≤ k :=
  (length_decimal_le_iff hk).mpr h

/-! ### The arithmetic of `size_t`

Sums, differences and products modulo 2^64. -/

/-- `a + b` on `size_t`. -/
def sizeAdd (a b : Nat) : Nat := (a + b) % 2 ^ 64

/-- `a - b` on `size_t`. -/
def sizeSub (a b : Nat) : Nat := (a + (2 ^ 64 - b % 2 ^ 64)) % 2 ^ 64

/-- `a * b` on `size_t`. -/
def sizeMul (a b : Nat) : Nat := a * b % 2 ^ 64

theorem sizeAdd_of_lt {a b : Nat} (h : a + b < 2 ^ 64) : sizeAdd a b = a + b := Nat.mod_eq_of_lt h

theorem sizeSub_of_le {a b : Nat} (hba : b ≤ a) (ha : a < 2 ^ 64) : sizeSub a b = a - b := by
  unfold sizeSub
  rw [Nat.mod_eq_of_lt (a := b) (by omega), show a + (2 ^ 64 - b) = a - b + 2 ^ 64 by omega,
    Nat.add_mod_right, Nat.mod_eq_of_lt (by omega)]

theorem sizeMul_of_lt {a b : Nat} (h : a * b < 2 ^ 64) : sizeMul a b = a * b := Nat.mod_eq_of_lt h

/-! ### Result codes -/

/-- The negative result codes the modelled functions return (`zcio_result`); success is
`Except.ok`. -/
inductive ZcioResult where
  | err
  | invalidArg
  | nomem
  | protocol
  deriving Repr, DecidableEq

/-- A failed call: its code and the text `zcio_fail_` records for `zcio_last_error`. -/
structure Fail where
  code : ZcioResult
  msg : String
  deriving Repr, DecidableEq

/-- `zcio_fail_`: record `msg` and return `code`. -/
def zcioFail {α : Type} (code : ZcioResult) (msg : String) : Except Fail α :=
  .error { code, msg }

end Zcio
