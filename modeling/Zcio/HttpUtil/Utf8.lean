import Zcio.Bytes

/-!
# Zcio.HttpUtil.Utf8

The UTF-8 check of `http_util.c`: a table-driven automaton whose states are multiples of 12.
`zhsUtf8Valid_iff` says that it accepts the encodings of the strings of characters and no
other octets.
-/

namespace Zcio

/-- The character class of each octet, and then the next state for each state and class. -/
def utf8Dfa : List Nat :=
  [0,0,0,0,0,0,0,0,0,0,0,0,0,0,0,0, 0,0,0,0,0,0,0,0,0,0,0,0,0,0,0,0,
   0,0,0,0,0,0,0,0,0,0,0,0,0,0,0,0, 0,0,0,0,0,0,0,0,0,0,0,0,0,0,0,0,
   0,0,0,0,0,0,0,0,0,0,0,0,0,0,0,0, 0,0,0,0,0,0,0,0,0,0,0,0,0,0,0,0,
   0,0,0,0,0,0,0,0,0,0,0,0,0,0,0,0, 0,0,0,0,0,0,0,0,0,0,0,0,0,0,0,0,
   1,1,1,1,1,1,1,1,1,1,1,1,1,1,1,1, 9,9,9,9,9,9,9,9,9,9,9,9,9,9,9,9,
   7,7,7,7,7,7,7,7,7,7,7,7,7,7,7,7, 7,7,7,7,7,7,7,7,7,7,7,7,7,7,7,7,
   8,8,2,2,2,2,2,2,2,2,2,2,2,2,2,2, 2,2,2,2,2,2,2,2,2,2,2,2,2,2,2,2,
   10,3,3,3,3,3,3,3,3,3,3,3,3,4,3,3, 11,6,6,6,5,8,8,8,8,8,8,8,8,8,8,8,
   0,12,24,36,60,96,84,12,12,12,48,72, 12,12,12,12,12,12,12,12,12,12,12,12,
   12, 0,12,12,12,12,12, 0,12, 0,12,12, 12,24,12,12,12,12,12,24,12,24,12,12,
   12,12,12,12,12,12,12,24,12,12,12,12, 12,24,12,12,12,12,12,12,12,24,12,12,
   12,12,12,12,12,12,12,36,12,36,12,12, 12,36,12,12,12,12,12,36,12,36,12,12,
   12,36,12,12,12,12,12,12,12,12,12,12]

/-- `ZHS_UTF8_ACCEPT`. -/
def ZHS_UTF8_ACCEPT : Nat := 0

/-- `ZHS_UTF8_REJECT`. -/
def ZHS_UTF8_REJECT : Nat := 12

/-- `zhs_utf8_step_`. -/
def zhsUtf8Step (state : Nat) (byte : UInt8) : Nat :=
  utf8Dfa.getD (256 + state + utf8Dfa.getD byte.toNat 0) 0

/-- The loop of `zhs_utf8_valid_` in state `st`. -/
def utf8ValidFrom (st : Nat) : Bytes → Bool
  | [] => st == ZHS_UTF8_ACCEPT
  | b :: s =>
    let st := zhsUtf8Step st b
    if st = ZHS_UTF8_REJECT then false else utf8ValidFrom st s

/-- `zhs_utf8_valid_`. -/
def zhsUtf8Valid (s : Bytes) : Bool := utf8ValidFrom ZHS_UTF8_ACCEPT s

/-- `s` is a string of characters in UTF-8. -/
def IsUtf8 (s : Bytes) : Prop := ∃ cs : List Char, s = cs.flatMap String.utf8EncodeChar

/-! ### The automaton

A byte has a class, and a state has a successor for each class. Class by class the table is
compared with the ranges of RFC 3629. -/

/-- `b` lies between `lo` and `hi`. -/
abbrev octetIn (lo hi : Nat) (b : UInt8) : Prop := lo ≤ b.toNat ∧ b.toNat ≤ hi

/-- The state after the first octet of a character. -/
def utf8Lead (b : UInt8) : Nat :=
  if octetIn 0x00 0x7F b then 0
  else if octetIn 0xC2 0xDF b then 24
  else if octetIn 0xE0 0xE0 b then 48
  else if octetIn 0xED 0xED b then 60
  else if octetIn 0xE1 0xEF b then 36
  else if octetIn 0xF0 0xF0 b then 72
  else if octetIn 0xF1 0xF3 b then 84
  else if octetIn 0xF4 0xF4 b then 96
  else ZHS_UTF8_REJECT

/-- The states inside a character: the octets each goes on with, and the state after them. -/
def utf8Inner : List (Nat × Nat × Nat × Nat) :=
  [(24, 0x80, 0xBF, 0), (36, 0x80, 0xBF, 24), (48, 0xA0, 0xBF, 24), (60, 0x80, 0x9F, 24),
    (72, 0x90, 0xBF, 36), (84, 0x80, 0xBF, 36), (96, 0x80, 0x8F, 36)]

theorem inner_states : ∀ row ∈ utf8Inner, row.1 ≠ ZHS_UTF8_ACCEPT ∧ row.1 ≠ ZHS_UTF8_REJECT ∧
    row.2.2.2 ≠ ZHS_UTF8_REJECT := by
  decide

/-- The class of an octet, by ranges. -/
def utf8Class (n : Nat) : Nat :=
  if n ≤ 0x7F then 0
  else if n ≤ 0x8F then 1
  else if n ≤ 0x9F then 9
  else if n ≤ 0xBF then 7
  else if n ≤ 0xC1 then 8
  else if n ≤ 0xDF then 2
  else if n = 0xE0 then 10
  else if n = 0xED then 4
  else if n ≤ 0xEF then 3
  else if n = 0xF0 then 11
  else if n ≤ 0xF3 then 6
  else if n = 0xF4 then 5
  else 8

theorem utf8Class_eq {n : Nat} (hn : n < 256) : utf8Dfa.getD n 0 = utf8Class n := by
  have htable : utf8Dfa.take 256 = (List.range 256).map utf8Class := by decide +kernel
  have hat := congrArg (·[n]?) htable
  simp only [List.getElem?_take, List.getElem?_map, List.getElem?_range hn, if_pos hn,
    Option.map_some] at hat
  rw [List.getD_eq_getElem?_getD, hat, Option.getD_some]

/-- There are twelve classes, three of them for the octets that go on with a character. -/
theorem utf8Class_spec : ∀ n < 256, utf8Class n < 12 ∧ (utf8Class n = 1 ↔ 0x80 ≤ n ∧ n ≤ 0x8F) ∧
    (utf8Class n = 9 ↔ 0x90 ≤ n ∧ n ≤ 0x9F) ∧ (utf8Class n = 7 ↔ 0xA0 ≤ n ∧ n ≤ 0xBF) := by
  decide +kernel

theorem utf8Class_lt (b : UInt8) : utf8Class b.toNat < 12 := (utf8Class_spec _ b.toNat_lt).1

/-- The next states of a state, by class. -/
def utf8Row (st : Nat) : List Nat := (utf8Dfa.drop (256 + st)).take 12

theorem zhsUtf8Step_eq (st : Nat) (b : UInt8) : zhsUtf8Step st b = (utf8Row st).getD (utf8Class b.toNat) 0 := by
  rw [zhsUtf8Step, utf8Class_eq b.toNat_lt, utf8Row, List.getD_eq_getElem?_getD, List.getD_eq_getElem?_getD,
    List.getElem?_take_of_lt (utf8Class_lt b), List.getElem?_drop]

/-- The classes of the octets that a state inside a character goes on with. -/
def utf8Goes (lo hi : Nat) (cl : Nat) : Bool :=
  cl = 1 && lo = 0x80 || cl = 9 && lo ≤ 0x90 && 0x9F ≤ hi || cl = 7 && hi = 0xBF

theorem zhsUtf8Step_accept (b : UInt8) : zhsUtf8Step ZHS_UTF8_ACCEPT b = utf8Lead b := by
  have htable : ∀ n < 256, (utf8Row ZHS_UTF8_ACCEPT).getD (utf8Class n) 0 = utf8Lead (UInt8.ofNat n) := by
    decide +kernel
  rw [zhsUtf8Step_eq, htable _ b.toNat_lt, UInt8.ofNat_toNat]

theorem zhsUtf8Step_inner {st lo hi st' : Nat} (h : (st, lo, hi, st') ∈ utf8Inner) (b : UInt8) :
    zhsUtf8Step st b = if octetIn lo hi b then st' else ZHS_UTF8_REJECT := by
  have htable : ∀ row ∈ utf8Inner, ∀ cl < 12, (utf8Row row.1).getD cl 0 =
      if utf8Goes row.2.1 row.2.2.1 cl then row.2.2.2 else ZHS_UTF8_REJECT := by
    decide
  have hgoes : utf8Goes lo hi (utf8Class b.toNat) = true ↔ octetIn lo hi b := by
    simp only [utf8Goes, octetIn, Bool.or_eq_true, Bool.and_eq_true, decide_eq_true_eq,
      (utf8Class_spec _ b.toNat_lt).2]
    simp only [utf8Inner, List.mem_cons, List.not_mem_nil, or_false, Prod.mk.injEq] at h
    obtain ⟨-, rfl, rfl, -⟩ | ⟨-, rfl, rfl, -⟩ | ⟨-, rfl, rfl, -⟩ | ⟨-, rfl, rfl, -⟩ | ⟨-, rfl, rfl, -⟩ |
      ⟨-, rfl, rfl, -⟩ | ⟨-, rfl, rfl, -⟩ := h
    all_goals omega
  rw [zhsUtf8Step_eq, htable _ h _ (utf8Class_lt b)]
  exact if_congr hgoes rfl rfl

/-- Inside a character: an octet in the range of the state, and on from the next state. -/
theorem utf8ValidFrom_inner {st lo hi st' : Nat} (h : (st, lo, hi, st') ∈ utf8Inner) (s : Bytes) :
    utf8ValidFrom st s = true ↔
      ∃ b r, s = b :: r ∧ octetIn lo hi b ∧ utf8ValidFrom st' r = true := by
  obtain ⟨hst, -, hst'⟩ := inner_states _ h
  cases s with
  | nil => simp [utf8ValidFrom, hst]
  | cons b r =>
    simp only [utf8ValidFrom, zhsUtf8Step_inner h, List.cons.injEq]
    constructor
    · intro hv
      by_cases hb : octetIn lo hi b
      · rw [if_pos hb, if_neg hst'] at hv
        exact ⟨b, r, ⟨rfl, rfl⟩, hb, hv⟩
      · rw [if_neg hb, if_pos rfl] at hv
        cases hv
    · rintro ⟨b', r', ⟨rfl, rfl⟩, hb, hv⟩
      rwa [if_pos hb, if_neg hst']

/-- Between characters: the end, or a first octet and what its state goes on with. -/
theorem utf8ValidFrom_accept (b : UInt8) (r : Bytes) :
    utf8ValidFrom ZHS_UTF8_ACCEPT (b :: r) = true ↔
      utf8Lead b ≠ ZHS_UTF8_REJECT ∧ utf8ValidFrom (utf8Lead b) r = true := by
  simp only [utf8ValidFrom, zhsUtf8Step_accept]
  by_cases hb : utf8Lead b = ZHS_UTF8_REJECT
  · simp [hb]
  · simp [hb]

theorem afterE0 : (48, 0xA0, 0xBF, 24) ∈ utf8Inner := by decide
theorem afterED : (60, 0x80, 0x9F, 24) ∈ utf8Inner := by decide
theorem twoTails : (36, 0x80, 0xBF, 24) ∈ utf8Inner := by decide
theorem afterF0 : (72, 0x90, 0xBF, 36) ∈ utf8Inner := by decide
theorem threeTails : (84, 0x80, 0xBF, 36) ∈ utf8Inner := by decide
theorem afterF4 : (96, 0x80, 0x8F, 36) ∈ utf8Inner := by decide

theorem utf8ValidFrom_one (s : Bytes) : utf8ValidFrom 24 s = true ↔
    ∃ b r, s = b :: r ∧ octetIn 0x80 0xBF b ∧ utf8ValidFrom ZHS_UTF8_ACCEPT r = true :=
  utf8ValidFrom_inner (by decide : (24, 0x80, 0xBF, ZHS_UTF8_ACCEPT) ∈ utf8Inner) s

theorem utf8ValidFrom_two {st lo hi : Nat} (h : (st, lo, hi, 24) ∈ utf8Inner) (s : Bytes) :
    utf8ValidFrom st s = true ↔ ∃ b₁ b₂ r, s = b₁ :: b₂ :: r ∧ octetIn lo hi b₁ ∧
      octetIn 0x80 0xBF b₂ ∧ utf8ValidFrom ZHS_UTF8_ACCEPT r = true := by
  rw [utf8ValidFrom_inner h]
  constructor
  · rintro ⟨b₁, r, rfl, hb₁, hrun⟩
    obtain ⟨b₂, r, rfl, hb₂, hrun⟩ := (utf8ValidFrom_one r).mp hrun
    exact ⟨b₁, b₂, r, rfl, hb₁, hb₂, hrun⟩
  · rintro ⟨b₁, b₂, r, rfl, hb₁, hb₂, hrun⟩
    exact ⟨b₁, b₂ :: r, rfl, hb₁, (utf8ValidFrom_one _).mpr ⟨b₂, r, rfl, hb₂, hrun⟩⟩

theorem utf8ValidFrom_three {st lo hi : Nat} (h : (st, lo, hi, 36) ∈ utf8Inner) (s : Bytes) :
    utf8ValidFrom st s = true ↔ ∃ b₁ b₂ b₃ r, s = b₁ :: b₂ :: b₃ :: r ∧ octetIn lo hi b₁ ∧
      octetIn 0x80 0xBF b₂ ∧ octetIn 0x80 0xBF b₃ ∧
        utf8ValidFrom ZHS_UTF8_ACCEPT r = true := by
  rw [utf8ValidFrom_inner h]
  constructor
  · rintro ⟨b₁, r, rfl, hb₁, hrun⟩
    obtain ⟨b₂, b₃, r, rfl, hb₂, hb₃, hrun⟩ := (utf8ValidFrom_two twoTails r).mp hrun
    exact ⟨b₁, b₂, b₃, r, rfl, hb₁, hb₂, hb₃, hrun⟩
  · rintro ⟨b₁, b₂, b₃, r, rfl, hb₁, hb₂, hb₃, hrun⟩
    exact ⟨b₁, _, rfl, hb₁, (utf8ValidFrom_two twoTails _).mpr ⟨b₂, b₃, r, rfl, hb₂, hb₃, hrun⟩⟩

/-! ### Characters

The well-formed sequences of one to four octets, and what the automaton does on each. -/

/-- The octets of one character: the shortest form, and no surrogate. -/
inductive Utf8Char : Bytes → Prop
  | one {b : UInt8} : octetIn 0x00 0x7F b → Utf8Char [b]
  | two {b₀ b₁ : UInt8} : octetIn 0xC2 0xDF b₀ → octetIn 0x80 0xBF b₁ → Utf8Char [b₀, b₁]
  | three {b₀ b₁ b₂ : UInt8} : octetIn 0xE0 0xEF b₀ → octetIn 0x80 0xBF b₁ →
      octetIn 0x80 0xBF b₂ → (b₀.toNat = 0xE0 → 0xA0 ≤ b₁.toNat) →
      (b₀.toNat = 0xED → b₁.toNat ≤ 0x9F) → Utf8Char [b₀, b₁, b₂]
  | four {b₀ b₁ b₂ b₃ : UInt8} : octetIn 0xF0 0xF4 b₀ → octetIn 0x80 0xBF b₁ →
      octetIn 0x80 0xBF b₂ → octetIn 0x80 0xBF b₃ → (b₀.toNat = 0xF0 → 0x90 ≤ b₁.toNat) →
      (b₀.toNat = 0xF4 → b₁.toNat ≤ 0x8F) → Utf8Char [b₀, b₁, b₂, b₃]

theorem exists_char {v : Nat} (h : v < 0xD800 ∨ 0xDFFF < v ∧ v < 0x110000) :
    ∃ c : Char, c.val.toNat = v := by
  refine ⟨Char.ofNat v, ?_⟩
  rw [Char.ofNat, dif_pos h]
  rfl

theorem ofNat_eq {n : Nat} {b : UInt8} (h : n = b.toNat) : UInt8.ofNat n = b := by
  rw [h, UInt8.ofNat_toNat]

/-- The value of the character is in the octets. -/
theorem Utf8Char.encodes {s : Bytes} (h : Utf8Char s) :
    ∃ c : Char, String.utf8EncodeChar c = s := by
  cases h with
  | @one b hb =>
    unfold octetIn at hb
    obtain ⟨c, hc⟩ := exists_char (v := b.toNat) (by omega)
    refine ⟨c, ?_⟩
    simp only [String.utf8EncodeChar, hc]
    rw [if_pos (by omega), ofNat_eq rfl]
  | @two b₀ b₁ h₀ h₁ =>
    unfold octetIn at h₀ h₁
    obtain ⟨c, hc⟩ := exists_char (v := (b₀.toNat - 0xC0) * 64 + (b₁.toNat - 0x80)) (by omega)
    refine ⟨c, ?_⟩
    simp only [String.utf8EncodeChar, hc]
    rw [if_neg (by omega), if_pos (by omega), ofNat_eq (b := b₀) (by omega),
      ofNat_eq (b := b₁) (by omega)]
  | @three b₀ b₁ b₂ h₀ h₁ h₂ hlong hsurrogate =>
    unfold octetIn at h₀ h₁ h₂
    obtain ⟨c, hc⟩ := exists_char
      (v := (b₀.toNat - 0xE0) * 4096 + (b₁.toNat - 0x80) * 64 + (b₂.toNat - 0x80)) (by omega)
    refine ⟨c, ?_⟩
    simp only [String.utf8EncodeChar, hc]
    rw [if_neg (by omega), if_neg (by omega), if_pos (by omega), ofNat_eq (b := b₀) (by omega),
      ofNat_eq (b := b₁) (by omega), ofNat_eq (b := b₂) (by omega)]
  | @four b₀ b₁ b₂ b₃ h₀ h₁ h₂ h₃ hlong hlast =>
    unfold octetIn at h₀ h₁ h₂ h₃
    obtain ⟨c, hc⟩ := exists_char
      (v := (b₀.toNat - 0xF0) * 262144 + (b₁.toNat - 0x80) * 4096 + (b₂.toNat - 0x80) * 64 +
        (b₃.toNat - 0x80)) (by omega)
    refine ⟨c, ?_⟩
    simp only [String.utf8EncodeChar, hc]
    rw [if_neg (by omega), if_neg (by omega), if_neg (by omega), ofNat_eq (b := b₀) (by omega),
      ofNat_eq (b := b₁) (by omega), ofNat_eq (b := b₂) (by omega), ofNat_eq (b := b₃) (by omega)]

theorem octetIn_ofNat {lo hi n : Nat} (hlo : lo ≤ n) (hn : n ≤ hi) (h : n < 256) :
    octetIn lo hi (UInt8.ofNat n) ∧ (UInt8.ofNat n).toNat = n := by
  have heq : (UInt8.ofNat n).toNat = n := by
    rw [UInt8.toNat_ofNat']
    exact Nat.mod_eq_of_lt h
  exact ⟨⟨by omega, by omega⟩, heq⟩

theorem utf8Char_encode (c : Char) : Utf8Char (String.utf8EncodeChar c) := by
  have hvalid : c.val.toNat < 0xD800 ∨ 0xDFFF < c.val.toNat ∧ c.val.toNat < 0x110000 := c.valid
  simp only [String.utf8EncodeChar]
  generalize c.val.toNat = v at hvalid
  split_ifs with h1 h2 h3
  · exact .one (octetIn_ofNat (by omega) h1 (by omega)).1
  · exact .two (octetIn_ofNat (by omega) (by omega) (by omega)).1
      (octetIn_ofNat (by omega) (by omega) (by omega)).1
  · obtain ⟨h₀, heq₀⟩ := @octetIn_ofNat 0xE0 0xEF (v / 4096 % 16 + 0xE0)
      (by omega) (by omega) (by omega)
    obtain ⟨h₁, heq₁⟩ := @octetIn_ofNat 0x80 0xBF (v / 64 % 64 + 0x80)
      (by omega) (by omega) (by omega)
    exact .three h₀ h₁ (octetIn_ofNat (by omega) (by omega) (by omega)).1 (by omega) (by omega)
  · obtain ⟨h₀, heq₀⟩ := @octetIn_ofNat 0xF0 0xF4 (v / 262144 % 8 + 0xF0)
      (by omega) (by omega) (by omega)
    obtain ⟨h₁, heq₁⟩ := @octetIn_ofNat 0x80 0xBF (v / 4096 % 64 + 0x80)
      (by omega) (by omega) (by omega)
    exact .four h₀ h₁ (octetIn_ofNat (by omega) (by omega) (by omega)).1
      (octetIn_ofNat (by omega) (by omega) (by omega)).1 (by omega) (by omega)

/-- From between characters to between characters. -/
theorem Utf8Char.accepted {s : Bytes} (h : Utf8Char s) {r : Bytes}
    (hr : utf8ValidFrom ZHS_UTF8_ACCEPT r = true) :
    utf8ValidFrom ZHS_UTF8_ACCEPT (s ++ r) = true := by
  cases h with
  | one hb =>
    have hlead : utf8Lead _ = 0 := if_pos hb
    refine (utf8ValidFrom_accept _ _).mpr ⟨?_, ?_⟩
    · rw [hlead]; decide
    · rw [hlead]; exact hr
  | @two b₀ b₁ h₀ h₁ =>
    have hlead : utf8Lead b₀ = 24 := by
      unfold utf8Lead octetIn at *
      rw [if_neg (by omega), if_pos h₀]
    refine (utf8ValidFrom_accept _ _).mpr ⟨?_, ?_⟩
    · rw [hlead]; decide
    · rw [hlead]; exact (utf8ValidFrom_one _).mpr ⟨b₁, r, rfl, h₁, hr⟩
  | @three b₀ b₁ b₂ h₀ h₁ h₂ hlong hsurrogate =>
    -- the state after the first octet knows which second octets are overlong or surrogates
    have hlead : ∃ lo hi st, (st, lo, hi, 24) ∈ utf8Inner ∧ utf8Lead b₀ = st ∧
        octetIn lo hi b₁ := by
      unfold utf8Lead octetIn at *
      by_cases hE0 : b₀.toNat = 0xE0
      · exact ⟨_, _, _, afterE0, by rw [if_neg (by omega), if_neg (by omega), if_pos (by omega)],
          by omega, by omega⟩
      · by_cases hED : b₀.toNat = 0xED
        · exact ⟨_, _, _, afterED, by rw [if_neg (by omega), if_neg (by omega), if_neg (by omega),
            if_pos (by omega)], by omega, by omega⟩
        · exact ⟨_, _, _, twoTails, by rw [if_neg (by omega), if_neg (by omega), if_neg (by omega),
            if_neg (by omega), if_pos (by omega)], h₁⟩
    obtain ⟨lo, hi, st, hrow, hst, hin⟩ := hlead
    refine (utf8ValidFrom_accept _ _).mpr ⟨?_, ?_⟩
    · rw [hst]; exact (inner_states _ hrow).2.1
    · rw [hst]; exact (utf8ValidFrom_two hrow _).mpr ⟨b₁, b₂, r, rfl, hin, h₂, hr⟩
  | @four b₀ b₁ b₂ b₃ h₀ h₁ h₂ h₃ hlong hlast =>
    have hlead : ∃ lo hi st, (st, lo, hi, 36) ∈ utf8Inner ∧ utf8Lead b₀ = st ∧
        octetIn lo hi b₁ := by
      unfold utf8Lead octetIn at *
      by_cases hF0 : b₀.toNat = 0xF0
      · exact ⟨_, _, _, afterF0, by rw [if_neg (by omega), if_neg (by omega), if_neg (by omega),
          if_neg (by omega), if_neg (by omega), if_pos (by omega)], by omega, by omega⟩
      · by_cases hF4 : b₀.toNat = 0xF4
        · exact ⟨_, _, _, afterF4, by rw [if_neg (by omega), if_neg (by omega), if_neg (by omega),
            if_neg (by omega), if_neg (by omega), if_neg (by omega), if_neg (by omega),
            if_pos (by omega)], by omega, by omega⟩
        · exact ⟨_, _, _, threeTails, by rw [if_neg (by omega), if_neg (by omega),
            if_neg (by omega), if_neg (by omega), if_neg (by omega), if_neg (by omega),
            if_pos (by omega)], h₁⟩
    obtain ⟨lo, hi, st, hrow, hst, hin⟩ := hlead
    refine (utf8ValidFrom_accept _ _).mpr ⟨?_, ?_⟩
    · rw [hst]; exact (inner_states _ hrow).2.1
    · rw [hst]; exact (utf8ValidFrom_three hrow _).mpr ⟨b₁, b₂, b₃, r, rfl, hin, h₂, h₃, hr⟩

/-- What may be the first octet of a character, and the state after it. -/
theorem utf8Lead_cases (b : UInt8) :
    octetIn 0x00 0x7F b ∧ utf8Lead b = 0 ∨ octetIn 0xC2 0xDF b ∧ utf8Lead b = 24 ∨
      octetIn 0xE0 0xE0 b ∧ utf8Lead b = 48 ∨ octetIn 0xED 0xED b ∧ utf8Lead b = 60 ∨
      (octetIn 0xE1 0xEF b ∧ ¬octetIn 0xED 0xED b) ∧ utf8Lead b = 36 ∨ octetIn 0xF0 0xF0 b ∧ utf8Lead b = 72 ∨
      octetIn 0xF1 0xF3 b ∧ utf8Lead b = 84 ∨ octetIn 0xF4 0xF4 b ∧ utf8Lead b = 96 ∨
      utf8Lead b = ZHS_UTF8_REJECT := by
  rw [utf8Lead]
  by_cases h1 : octetIn 0x00 0x7F b
  · exact .inl ⟨h1, if_pos h1⟩
  rw [if_neg h1]
  by_cases h2 : octetIn 0xC2 0xDF b
  · exact .inr (.inl ⟨h2, if_pos h2⟩)
  rw [if_neg h2]
  by_cases h3 : octetIn 0xE0 0xE0 b
  · exact .inr (.inr (.inl ⟨h3, if_pos h3⟩))
  rw [if_neg h3]
  by_cases h4 : octetIn 0xED 0xED b
  · exact .inr (.inr (.inr (.inl ⟨h4, if_pos h4⟩)))
  rw [if_neg h4]
  by_cases h5 : octetIn 0xE1 0xEF b
  · exact .inr (.inr (.inr (.inr (.inl ⟨⟨h5, h4⟩, if_pos h5⟩))))
  rw [if_neg h5]
  by_cases h6 : octetIn 0xF0 0xF0 b
  · exact .inr (.inr (.inr (.inr (.inr (.inl ⟨h6, if_pos h6⟩)))))
  rw [if_neg h6]
  by_cases h7 : octetIn 0xF1 0xF3 b
  · exact .inr (.inr (.inr (.inr (.inr (.inr (.inl ⟨h7, if_pos h7⟩))))))
  rw [if_neg h7]
  by_cases h8 : octetIn 0xF4 0xF4 b
  · exact .inr (.inr (.inr (.inr (.inr (.inr (.inr (.inl ⟨h8, if_pos h8⟩)))))))
  · exact .inr (.inr (.inr (.inr (.inr (.inr (.inr (.inr (if_neg h8))))))))

/-- What is accepted is empty or begins with a character. -/
theorem utf8Char_of_accepted {s : Bytes} (h : utf8ValidFrom ZHS_UTF8_ACCEPT s = true)
    (hne : s ≠ []) :
    ∃ a r, Utf8Char a ∧ s = a ++ r ∧ utf8ValidFrom ZHS_UTF8_ACCEPT r = true := by
  cases s with
  | nil => exact absurd rfl hne
  | cons b r =>
    obtain ⟨hlead, hrun⟩ := (utf8ValidFrom_accept b r).mp h
    obtain ⟨h1, heq⟩ | ⟨h2, heq⟩ | ⟨h3, heq⟩ | ⟨h4, heq⟩ | ⟨⟨h5, hne5⟩, heq⟩ | ⟨h6, heq⟩ | ⟨h7, heq⟩ | ⟨h8, heq⟩ | heq :=
      utf8Lead_cases b
    all_goals rw [heq] at hlead hrun
    · exact ⟨[b], r, .one h1, rfl, hrun⟩
    · obtain ⟨b₁, r, rfl, hb₁, hrun⟩ := (utf8ValidFrom_one _).mp hrun
      exact ⟨[b, b₁], r, .two h2 hb₁, rfl, hrun⟩
    -- three octets
    · obtain ⟨b₁, b₂, r, rfl, hb₁, hb₂, hrun⟩ := (utf8ValidFrom_two afterE0 _).mp hrun
      exact ⟨[b, b₁, b₂], r, .three ⟨by omega, by omega⟩ ⟨by omega, by omega⟩ hb₂ (by omega)
        (by omega), rfl, hrun⟩
    · obtain ⟨b₁, b₂, r, rfl, hb₁, hb₂, hrun⟩ := (utf8ValidFrom_two afterED _).mp hrun
      exact ⟨[b, b₁, b₂], r, .three ⟨by omega, by omega⟩ ⟨by omega, by omega⟩ hb₂ (by omega)
        (by omega), rfl, hrun⟩
    · obtain ⟨b₁, b₂, r, rfl, hb₁, hb₂, hrun⟩ := (utf8ValidFrom_two twoTails _).mp hrun
      exact ⟨[b, b₁, b₂], r, .three ⟨by omega, by omega⟩ hb₁ hb₂ (by omega) (by omega), rfl, hrun⟩
    -- four octets
    · obtain ⟨b₁, b₂, b₃, r, rfl, hb₁, hb₂, hb₃, hrun⟩ := (utf8ValidFrom_three afterF0 _).mp hrun
      exact ⟨[b, b₁, b₂, b₃], r, .four ⟨by omega, by omega⟩ ⟨by omega, by omega⟩ hb₂ hb₃
        (by omega) (by omega), rfl, hrun⟩
    · obtain ⟨b₁, b₂, b₃, r, rfl, hb₁, hb₂, hb₃, hrun⟩ := (utf8ValidFrom_three threeTails _).mp hrun
      exact ⟨[b, b₁, b₂, b₃], r, .four ⟨by omega, by omega⟩ hb₁ hb₂ hb₃ (by omega) (by omega),
        rfl, hrun⟩
    · obtain ⟨b₁, b₂, b₃, r, rfl, hb₁, hb₂, hb₃, hrun⟩ := (utf8ValidFrom_three afterF4 _).mp hrun
      exact ⟨[b, b₁, b₂, b₃], r, .four ⟨by omega, by omega⟩ ⟨by omega, by omega⟩ hb₂ hb₃
        (by omega) (by omega), rfl, hrun⟩
    · exact absurd rfl hlead

/-- **The UTF-8 check** accepts the encodings of strings and nothing else. -/
theorem zhsUtf8Valid_iff (s : Bytes) : zhsUtf8Valid s = true ↔ IsUtf8 s := by
  constructor
  · intro h
    induction hn : s.length using Nat.strongRecOn generalizing s with
    | _ n ih =>
      by_cases hne : s = []
      · exact ⟨[], hne⟩
      · obtain ⟨a, r, ha, rfl, hr⟩ := utf8Char_of_accepted h hne
        obtain ⟨c, rfl⟩ := ha.encodes
        have hpos := c.utf8Size_pos
        rw [List.length_append, String.length_utf8EncodeChar] at hn
        obtain ⟨cs, rfl⟩ := ih r.length (by omega) r hr rfl
        exact ⟨c :: cs, rfl⟩
  · rintro ⟨cs, rfl⟩
    induction cs with
    | nil => rfl
    | cons c cs ih => exact (utf8Char_encode c).accepted ih

instance (s : Bytes) : Decidable (IsUtf8 s) := decidable_of_iff _ (zhsUtf8Valid_iff s)

/-! ### The automaton over any split

The state is all that is kept between two calls, and the state of rejection is never left.
-/

/-- The states, and all of them are multiples of the number of classes. -/
def utf8States : List Nat := [0, 12, 24, 36, 48, 60, 72, 84, 96]

/-- A step leads from a state to a state. -/
theorem zhsUtf8Step_mem {st : Nat} (h : st ∈ utf8States) (b : UInt8) :
    zhsUtf8Step st b ∈ utf8States := by
  have htable : ∀ st ∈ utf8States, ∀ cl < 12, (utf8Row st).getD cl 0 ∈ utf8States := by
    decide
  rw [zhsUtf8Step_eq]
  exact htable st h _ (utf8Class_lt b)

theorem foldl_utf8_mem {st : Nat} (h : st ∈ utf8States) (s : Bytes) :
    s.foldl zhsUtf8Step st ∈ utf8States := by
  induction s generalizing st with
  | nil => exact h
  | cons b s ih => exact ih (zhsUtf8Step_mem h b)

/-- The index of a step lies in the table. -/
theorem utf8_index_lt {st : Nat} (h : st ∈ utf8States) (b : UInt8) :
    256 + st + utf8Dfa.getD b.toNat 0 < 364 := by
  have hst : ∀ st ∈ utf8States, st ≤ 96 := by decide
  have hcl := utf8Class_lt b
  have := hst st h
  rw [utf8Class_eq b.toNat_lt]
  omega

theorem zhsUtf8Step_reject (b : UInt8) : zhsUtf8Step ZHS_UTF8_REJECT b = ZHS_UTF8_REJECT := by
  have htable : ∀ cl < 12, (utf8Row ZHS_UTF8_REJECT).getD cl 0 = ZHS_UTF8_REJECT := by
    decide
  rw [zhsUtf8Step_eq, htable _ (utf8Class_lt b)]

theorem foldl_utf8_reject (s : Bytes) : s.foldl zhsUtf8Step ZHS_UTF8_REJECT = ZHS_UTF8_REJECT := by
  induction s with
  | nil => rfl
  | cons b s ih => rw [List.foldl_cons, zhsUtf8Step_reject, ih]

/-- Stopping at the first reject changes nothing. -/
theorem utf8ValidFrom_foldl (st : Nat) (s : Bytes) :
    utf8ValidFrom st s = true ↔ s.foldl zhsUtf8Step st = ZHS_UTF8_ACCEPT := by
  induction s generalizing st with
  | nil => exact beq_iff_eq
  | cons b s ih =>
    rw [utf8ValidFrom, List.foldl_cons]
    by_cases hreject : zhsUtf8Step st b = ZHS_UTF8_REJECT
    · rw [if_pos hreject, hreject, foldl_utf8_reject]
      exact iff_of_false Bool.false_ne_true (by decide)
    · rw [if_neg hreject]
      exact ih _

/-- **UTF-8 validation is exact.** `zhs_utf8_valid_` accepts the concatenations of encoded
characters; so does the automaton fed octet by octet over any split of the text; it never leaves
its rejecting state, and never reads outside its table of 364 entries. -/
theorem zhsUtf8_exact (s : Bytes) :
    (zhsUtf8Valid s = true ↔ IsUtf8 s) ∧
    (∀ segs : List Bytes, segs.flatten = s →
      (segs.foldl (fun st seg => seg.foldl zhsUtf8Step st) ZHS_UTF8_ACCEPT = ZHS_UTF8_ACCEPT ↔
        zhsUtf8Valid s = true)) ∧
    (∀ s' : Bytes, s.foldl zhsUtf8Step ZHS_UTF8_ACCEPT = ZHS_UTF8_REJECT →
      (s ++ s').foldl zhsUtf8Step ZHS_UTF8_ACCEPT = ZHS_UTF8_REJECT) ∧
    utf8Dfa.length = 364 ∧
    ∀ b : UInt8, b.toNat < 364 ∧
      256 + s.foldl zhsUtf8Step ZHS_UTF8_ACCEPT + utf8Dfa.getD b.toNat 0 < 364 := by
  have hstart : ZHS_UTF8_ACCEPT ∈ utf8States := by decide
  refine ⟨zhsUtf8Valid_iff s, fun segs hsegs => ?_, fun s' hreject => ?_, by decide +kernel,
    fun b => ⟨b.toNat_lt.trans (by decide), utf8_index_lt (foldl_utf8_mem hstart s) b⟩⟩
  · rw [← List.foldl_flatten, hsegs]
    exact (utf8ValidFrom_foldl _ s).symm
  · rw [List.foldl_append, hreject, foldl_utf8_reject]

end Zcio
