import Mathlib.Data.Bool.AllAny
import Zcio.Bytes

/-!
# Zcio.HttpUtil.Validate

The octet classes every protocol module validates with (`http_util.c`): RFC 9110 tokens,
their lower-case form, and field values without control octets.
-/

namespace Zcio

/-- RFC 9110 `tchar` (`is_tchar`). -/
def isTchar (c : UInt8) : Bool :=
  (97 ≤ c && c ≤ 122) || (65 ≤ c && c ≤ 90) || (48 ≤ c && c ≤ 57) ||
    (str "!#$%&'*+-.^_`|~").contains c

/-- `zhs_token_ok_`: a non-empty run of `tchar`. -/
def zhsTokenOk (s : Bytes) : Bool := !s.isEmpty && s.all isTchar

/-- `zhs_lower_token_ok_`: a token without upper-case letters. -/
def zhsLowerTokenOk (s : Bytes) : Bool :=
  !s.isEmpty && s.all fun c => !(65 ≤ c && c ≤ 90) && isTchar c

/-- A control octet a field value may not hold: below SP other than HTAB, or DEL. -/
def isCtl (c : UInt8) : Bool := (c < 32 && c != HTAB) || c == 127

/-- `zhs_value_ok_`: no control octet other than HTAB. The empty value is fine. -/
def zhsValueOk (s : Bytes) : Bool := s.all fun c => !isCtl c

/-! ### What the classes exclude -/

theorem isTchar_ne {c d : UInt8} (hc : isTchar c = true) (hd : isTchar d = false) : c ≠ d := by
  rintro rfl
  rw [hc] at hd
  exact absurd hd (by decide)

/-- The marks of `tchar` are visible. -/
theorem tcharMark_range {c : UInt8} (h : (str "!#$%&'*+-.^_`|~").contains c = true) :
    33 ≤ c.toNat ∧ c.toNat < 127 := by
  have hall : ∀ b ∈ str "!#$%&'*+-.^_`|~", 33 ≤ b.toNat ∧ b.toNat < 127 := by
    rw [str_ofList]
    exact List.all_iff_forall_prop.mp (by decide)
  exact hall c (List.contains_iff_mem.mp h)

theorem isTchar_iff {c : UInt8} : isTchar c = true ↔
    (97 ≤ c.toNat ∧ c.toNat ≤ 122) ∨ (65 ≤ c.toNat ∧ c.toNat ≤ 90) ∨
      (48 ≤ c.toNat ∧ c.toNat ≤ 57) ∨ (str "!#$%&'*+-.^_`|~").contains c = true := by
  simp only [isTchar, Bool.or_eq_true, Bool.and_eq_true, decide_eq_true_eq, UInt8.le_iff_toNat_le,
    or_assoc]
  exact Iff.rfl

theorem isCtl_iff {c : UInt8} : isCtl c = true ↔ c.toNat < 32 ∧ c ≠ HTAB ∨ c.toNat = 127 := by
  simp only [isCtl, Bool.or_eq_true, Bool.and_eq_true, decide_eq_true_eq, bne_iff_ne, beq_iff_eq,
    UInt8.lt_iff_toNat_lt, ← UInt8.toNat_inj]
  exact Iff.rfl

theorem isTchar_range {c : UInt8} (h : isTchar c = true) : 33 ≤ c.toNat ∧ c.toNat < 127 := by
  obtain hc | hc | hc | hc := isTchar_iff.mp h
  · omega
  · omega
  · omega
  · exact tcharMark_range hc

theorem isTchar_not_isCtl (c : UInt8) (h : isTchar c = true) : isCtl c = false := by
  have hrange := isTchar_range h
  rw [← Bool.not_eq_true, isCtl_iff]
  omega

theorem isTchar_tolower (c : UInt8) (h : isTchar c = true) : isTchar (tolower c) = true := by
  have hlower := toNat_tolower c
  by_cases hc : 65 ≤ c.toNat ∧ c.toNat ≤ 90
  · rw [if_pos hc] at hlower
    exact isTchar_iff.mpr (.inl (by omega))
  · rw [if_neg hc] at hlower
    rwa [UInt8.toNat_inj.mp hlower]

theorem not_upper_tolower (c : UInt8) : (65 ≤ tolower c && tolower c ≤ 90) = false := by
  rw [← Bool.not_eq_true, Bool.and_eq_true, decide_eq_true_eq, decide_eq_true_eq,
    UInt8.le_iff_toNat_le, UInt8.le_iff_toNat_le, toNat_tolower]
  change ¬(65 ≤ _ ∧ _ ≤ 90)
  split <;> omega

theorem zhsTokenOk_iff {s : Bytes} :
    zhsTokenOk s = true ↔ s ≠ [] ∧ ∀ c ∈ s, isTchar c = true := by
  simp [zhsTokenOk]

theorem zhsValueOk_iff {s : Bytes} :
    zhsValueOk s = true ↔ ∀ c ∈ s, isCtl c = false := by
  simp [zhsValueOk]

/-- An octet outside the token alphabet does not occur in a token. -/
theorem notMem_of_token {s : Bytes} {d : UInt8} (hs : zhsTokenOk s = true)
    (hd : isTchar d = false) : d ∉ s := by
  intro hm
  exact isTchar_ne ((zhsTokenOk_iff.mp hs).2 d hm) hd rfl

theorem zhsTokenOk_valueOk {s : Bytes} (h : zhsTokenOk s = true) : zhsValueOk s = true :=
  zhsValueOk_iff.mpr fun c hc => isTchar_not_isCtl c ((zhsTokenOk_iff.mp h).2 c hc)

/-- A value that passes the check holds no control octet, NUL, CR and LF in particular. -/
theorem notMem_of_valueOk {s : Bytes} {d : UInt8} (hs : zhsValueOk s = true)
    (hd : isCtl d = true) : d ∉ s := by
  intro hm
  have := zhsValueOk_iff.mp hs d hm
  rw [hd] at this
  exact absurd this (by decide)

theorem cstr_of_valueOk {s : Bytes} (h : zhsValueOk s = true) : cstr s = s :=
  cstr_eq_self (notMem_of_valueOk h (by decide))

theorem cstr_of_token {s : Bytes} (h : zhsTokenOk s = true) : cstr s = s :=
  cstr_of_valueOk (zhsTokenOk_valueOk h)

theorem zhsLowerTokenOk_token {s : Bytes} (h : zhsLowerTokenOk s = true) :
    zhsTokenOk s = true := by
  simp only [zhsLowerTokenOk, Bool.and_eq_true, List.all_eq_true] at h
  rw [zhsTokenOk_iff]
  refine ⟨by simpa using h.1, fun c hc => (h.2 c hc).2⟩

/-- Lower-casing a token gives a lower-case token. -/
theorem zhsLowerTokenOk_lower {s : Bytes} (h : zhsTokenOk s = true) :
    zhsLowerTokenOk (lower s) = true := by
  obtain ⟨hne, hall⟩ := zhsTokenOk_iff.mp h
  simp only [zhsLowerTokenOk, lower, Bool.and_eq_true, List.all_eq_true, List.mem_map]
  refine ⟨by simpa using hne, ?_⟩
  rintro _ ⟨c, hc, rfl⟩
  rw [not_upper_tolower c, isTchar_tolower c (hall c hc)]
  decide

end Zcio
