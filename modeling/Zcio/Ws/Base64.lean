import Zcio.H1.Conn
import Zcio.Ws.Sha1

/-!
# Zcio.Ws.Base64

The base64 of `ws.c` against the decoder of RFC 4648, and `h1_b64_declen`, which tells a key's
length without decoding it.
-/

namespace Zcio.Rfc4648

/-! ### The standard

RFC 4648, four characters at a time. -/

/-- The padding character. -/
abbrev PAD : UInt8 := 61

/-- The value of a character of the alphabet of table 1. -/
def value (c : UInt8) : Option Nat :=
  if 65 ≤ c ∧ c ≤ 90 then some (c.toNat - 65)
  else if 97 ≤ c ∧ c ≤ 122 then some (c.toNat - 97 + 26)
  else if 48 ≤ c ∧ c ≤ 57 then some (c.toNat - 48 + 52)
  else if c = 43 then some 62
  else if c = 47 then some 63
  else none

/-- The octets of four characters; only the last four of a text may be padded. -/
def quantum (c₀ c₁ c₂ c₃ : UInt8) (last : Bool) : Option Bytes :=
  match value c₀, value c₁, value c₂, value c₃ with
  | some v₀, some v₁, some v₂, some v₃ =>
    let v := v₀ * 2 ^ 18 + v₁ * 2 ^ 12 + v₂ * 2 ^ 6 + v₃
    some [UInt8.ofNat (v / 2 ^ 16), UInt8.ofNat (v / 2 ^ 8), UInt8.ofNat v]
  | some v₀, some v₁, some v₂, none =>
    let v := v₀ * 2 ^ 18 + v₁ * 2 ^ 12 + v₂ * 2 ^ 6
    if last ∧ c₃ = PAD then some [UInt8.ofNat (v / 2 ^ 16), UInt8.ofNat (v / 2 ^ 8)] else none
  | some v₀, some v₁, none, none =>
    let v := v₀ * 2 ^ 18 + v₁ * 2 ^ 12
    if last ∧ c₂ = PAD ∧ c₃ = PAD then some [UInt8.ofNat (v / 2 ^ 16)] else none
  | _, _, _, _ => none

/-- The decoder of section 4. -/
def decode : Bytes → Option Bytes
  | [] => some []
  | c₀ :: c₁ :: c₂ :: c₃ :: rest =>
    match quantum c₀ c₁ c₂ c₃ rest.isEmpty, decode rest with
    | some a, some b => some (a ++ b)
    | _, _ => none
  | _ => none

end Zcio.Rfc4648

namespace Zcio

open Rfc4648 (PAD)

/-! ### Characters -/

theorem value_b64Char (v : Nat) : Rfc4648.value (b64Char v) = some (v % 64) := by
  have hall : ∀ i : Fin 64, Rfc4648.value (B64.getD i.val 0) = some i.val := by decide +kernel
  exact hall ⟨v % 64, Nat.mod_lt v (by decide)⟩

theorem value_isSome (c : UInt8) : (Rfc4648.value c).isSome = isB64 c :=
  forall_octet (P := fun c => (Rfc4648.value c).isSome = isB64 c) (by decide +kernel) c

theorem value_pad : Rfc4648.value PAD = none := by decide

theorem isB64_b64Char (v : Nat) : isB64 (b64Char v) = true := by
  rw [← value_isSome, value_b64Char]
  rfl

theorem exists_value {c : UInt8} (h : isB64 c = true) : ∃ v, Rfc4648.value c = some v :=
  Option.isSome_iff_exists.mp (by rw [value_isSome]; exact h)

/-- An octet is found in a number that has it there. -/
theorem octet_of_eq {v : Nat} {b : UInt8} (h : v % 256 = b.toNat) : UInt8.ofNat v = b := by
  apply UInt8.toNat_inj.mp
  rw [UInt8.toNat_ofNat']
  exact h

/-! ### The round trip -/

/-- **Decoding gives the octets back.** -/
theorem decode_base64 (x : Bytes) : Rfc4648.decode (base64 x) = some x := by
  induction x using base64.induct with
  | case1 i0 i1 i2 rest ih =>
    have h0 := i0.toNat_lt
    have h1 := i1.toNat_lt
    have h2 := i2.toNat_lt
    rw [base64]
    dsimp only [List.cons_append, List.nil_append]
    rw [Rfc4648.decode, ih, Rfc4648.quantum]
    simp only [value_b64Char]
    congr 1
    rw [octet_of_eq (b := i0), octet_of_eq (b := i1), octet_of_eq (b := i2)]
    · rfl
    all_goals omega
  | case2 i0 =>
    have h0 := i0.toNat_lt
    have hpad : str "==" = [PAD, PAD] := by decide
    rw [base64]
    dsimp only [List.cons_append, List.nil_append]
    rw [hpad, Rfc4648.decode, Rfc4648.decode, Rfc4648.quantum]
    simp only [value_b64Char, value_pad, List.isEmpty_nil, and_self, if_true]
    rw [octet_of_eq (b := i0)]
    · rfl
    · omega
  | case3 i0 i1 =>
    have h0 := i0.toNat_lt
    have h1 := i1.toNat_lt
    have hpad : str "=" = [PAD] := by decide
    rw [base64]
    dsimp only [List.cons_append, List.nil_append]
    rw [hpad, Rfc4648.decode, Rfc4648.decode, Rfc4648.quantum]
    simp only [value_b64Char, value_pad, List.isEmpty_nil, and_self, if_true]
    rw [octet_of_eq (b := i0), octet_of_eq (b := i1)]
    · rfl
    all_goals omega
  | case4 => rfl

/-! ### The shape of a text

Which texts of the alphabet decode to sixteen octets. -/

/-- Characters of the alphabet in front of at most two padding characters, in groups of four. -/
structure B64Text (s body : Bytes) (pad : Nat) : Prop where
  text : s = body ++ List.replicate pad PAD
  pad : pad ≤ 2
  body : ∀ c ∈ body, isB64 c = true
  groups : s.length % 4 = 0

theorem isB64_ne_pad {c : UInt8} (h : isB64 c = true) : c ≠ PAD := by
  rintro rfl
  exact absurd h (by decide)

/-- The characters counted from the end. -/
theorem getD_padded {body : Bytes} (hbody : ∀ c ∈ body, isB64 c = true) (pad k : Nat) (hk : 0 < k)
    (hlen : k ≤ body.length + pad) :
    (body ++ List.replicate pad PAD).getD (body.length + pad - k) 0 = PAD ↔ k ≤ pad := by
  by_cases hle : k ≤ pad
  · rw [List.getD_append_right _ _ _ _ (by omega), List.getD_replicate _ (by omega)]
    exact iff_of_true rfl hle
  · have hlt : body.length + pad - k < body.length := by omega
    rw [List.getD_append _ _ _ _ hlt, List.getD_eq_getElem _ _ hlt]
    exact iff_of_false (isB64_ne_pad (hbody _ (List.getElem_mem hlt))) hle

/-- **The length checker on a well-formed text.** -/
theorem B64Text.declen {s body : Bytes} {pad : Nat} (h : B64Text s body pad) (hne : s ≠ []) :
    h1B64Declen s = some (s.length / 4 * 3 - pad) := by
  have hlen : s.length = body.length + pad := by
    rw [h.text, List.length_append, List.length_replicate]
  have hpos : 0 < s.length := List.length_pos_iff.mpr hne
  have hgroups := h.groups
  have hlast := getD_padded h.body pad 1 (by decide) (by omega)
  have hbut := getD_padded h.body pad 2 (by decide) (by omega)
  rw [← h.text, ← hlen] at hlast hbut
  have hcount : (if s.getD (s.length - 1) 0 = PAD then 1 else 0) +
      (if s.length ≥ 2 ∧ s.getD (s.length - 2) 0 = PAD then 1 else 0) = pad := by
    have hpad := h.pad
    simp only [hlast, hbut]
    split <;> split <;> omega
  have htake : s.take (s.length - pad) = body := by
    rw [h.text]
    exact List.take_left' (by rw [← h.text]; omega)
  unfold h1B64Declen
  dsimp only
  rw [if_neg (by omega), hcount, htake, if_pos (List.all_eq_true.mpr h.body)]

/-- The last two characters of a text. -/
theorem exists_last_two {s : Bytes} (h : 2 ≤ s.length) :
    ∃ l x y, s = l ++ [x, y] ∧ s.getD (s.length - 1) 0 = y ∧ s.getD (s.length - 2) 0 = x := by
  have hlast : (s.drop (s.length - 2)).length = 2 := by
    rw [List.length_drop]
    omega
  obtain ⟨x, y, hxy⟩ := List.length_eq_two.mp hlast
  have hs : s = s.take (s.length - 2) ++ [x, y] := by
    rw [← hxy, List.take_append_drop]
  have hlen : (s.take (s.length - 2)).length = s.length - 2 :=
    List.length_take_of_le (Nat.sub_le _ _)
  generalize s.take (s.length - 2) = l at hs hlen
  subst hs
  rw [List.length_append] at hlen ⊢
  refine ⟨l, x, y, rfl, ?_, ?_⟩
  · rw [List.getD_append_right _ _ _ _ (by simp)]
    simp
  · rw [List.getD_append_right _ _ _ _ (by simp)]
    simp

theorem B64Text.of_take {s body : Bytes} {pad : Nat} (hs : s = body ++ List.replicate pad PAD)
    (hpad : pad ≤ 2) (hall : (s.take (s.length - pad)).all isB64 = true)
    (hgroups : s.length % 4 = 0) : B64Text s body pad := by
  have htake : s.take (s.length - pad) = body := by
    rw [hs]
    exact List.take_left' (by rw [List.length_append, List.length_replicate, Nat.add_sub_cancel])
  rw [htake] at hall
  exact ⟨hs, hpad, List.all_eq_true.mp hall, hgroups⟩

theorem all_of_declen {s : Bytes} {n v : Nat}
    (h : (if s.all isB64 = true then some n else none) = some v) : s.all isB64 = true := by
  by_contra hall
  rw [if_neg hall] at h
  cases h

/-- **A text that the checker takes is well-formed.** -/
theorem B64Text.of_declen {s : Bytes} {v : Nat} (h : h1B64Declen s = some v) :
    s ≠ [] ∧ ∃ body pad, B64Text s body pad := by
  unfold h1B64Declen at h
  dsimp only at h
  by_cases hn : s.length = 0 ∨ s.length % 4 ≠ 0
  · rw [if_pos hn] at h
    cases h
  · have htwo : 2 ≤ s.length := by omega
    obtain ⟨l, x, y, hs, hy, hx⟩ := exists_last_two htwo
    rw [if_neg hn, hy, hx] at h
    have hlen : s.length = l.length + 2 := by rw [hs, List.length_append]; rfl
    have hne : s ≠ [] := by
      rintro rfl
      exact absurd htwo (by decide)
    refine ⟨hne, ?_⟩
    have hgroups : s.length % 4 = 0 := by omega
    by_cases hpady : y = PAD
    · rw [if_pos hpady] at h
      by_cases hpadx : x = PAD
      · rw [if_pos (⟨htwo, hpadx⟩ : s.length ≥ 2 ∧ x = PAD)] at h
        exact ⟨l, 2, .of_take (by rw [hs, hpadx, hpady]; rfl) (by decide) (all_of_declen h) hgroups⟩
      · rw [if_neg (fun hx => hpadx hx.2 : ¬(s.length ≥ 2 ∧ x = PAD))] at h
        refine ⟨l ++ [x], 1, .of_take ?_ (by decide) (all_of_declen h) hgroups⟩
        rw [hs, hpady, List.append_assoc]
        rfl
    · rw [if_neg hpady] at h
      by_cases hpadx : x = PAD
      · -- a padding character in front of another one is looked at
        rw [if_pos (⟨htwo, hpadx⟩ : s.length ≥ 2 ∧ x = PAD)] at h
        have hall := all_of_declen h
        have hmem : x ∈ s.take (s.length - (0 + 1)) := by
          have hfront : s = (l ++ [x]) ++ [y] := by rw [hs, List.append_assoc]; rfl
          have hcut : (l ++ [x]).length = s.length - (0 + 1) := by
            rw [hlen, List.length_append]
            rfl
          rw [hfront, List.take_left' (hfront ▸ hcut)]
          exact List.mem_append_right _ List.mem_cons_self
        exact absurd hpadx (isB64_ne_pad (List.all_eq_true.mp hall x hmem))
      · rw [if_neg (fun hx => hpadx hx.2 : ¬(s.length ≥ 2 ∧ x = PAD))] at h
        refine ⟨s, 0, .of_take ?_ (by decide) (all_of_declen h) hgroups⟩
        rw [List.replicate_zero, List.append_nil]

theorem quantum_full {c₀ c₁ c₂ c₃ : UInt8} (h₀ : isB64 c₀ = true) (h₁ : isB64 c₁ = true)
    (h₂ : isB64 c₂ = true) (h₃ : isB64 c₃ = true) (last : Bool) :
    ∃ a, Rfc4648.quantum c₀ c₁ c₂ c₃ last = some a ∧ a.length = 3 := by
  obtain ⟨v₀, h₀⟩ := exists_value h₀
  obtain ⟨v₁, h₁⟩ := exists_value h₁
  obtain ⟨v₂, h₂⟩ := exists_value h₂
  obtain ⟨v₃, h₃⟩ := exists_value h₃
  unfold Rfc4648.quantum
  rw [h₀, h₁, h₂, h₃]
  exact ⟨_, rfl, rfl⟩

/-- The last four characters. -/
theorem B64Text.length_decode_last {c₀ c₁ c₂ c₃ : UInt8} {body : Bytes} {pad : Nat}
    (h : B64Text [c₀, c₁, c₂, c₃] body pad) :
    ∃ out, Rfc4648.decode [c₀, c₁, c₂, c₃] = some out ∧ out.length = 4 / 4 * 3 - pad := by
  obtain ⟨htext, hpad, hbody, -⟩ := h
  have hcases : pad = 0 ∨ pad = 1 ∨ pad = 2 := by omega
  have hval {c : UInt8} (hc : c ∈ body) : ∃ v, Rfc4648.value c = some v := exists_value (hbody c hc)
  unfold Rfc4648.decode Rfc4648.decode
  rw [List.isEmpty_nil]
  obtain rfl | rfl | rfl := hcases
  · rw [List.replicate_zero, List.append_nil] at htext
    subst htext
    obtain ⟨a, ha, hlen⟩ := quantum_full (hbody c₀ (by simp)) (hbody c₁ (by simp))
      (hbody c₂ (by simp)) (hbody c₃ (by simp)) true
    rw [ha]
    exact ⟨_, rfl, by rw [List.append_nil, hlen]⟩
  · obtain ⟨rfl, hlast⟩ := @List.append_inj' _ [c₀, c₁, c₂] [c₃] body _ htext rfl
    obtain ⟨v₀, h₀⟩ := hval (c := c₀) (by simp)
    obtain ⟨v₁, h₁⟩ := hval (c := c₁) (by simp)
    obtain ⟨v₂, h₂⟩ := hval (c := c₂) (by simp)
    obtain rfl : c₃ = PAD := List.head_eq_of_cons_eq hlast
    unfold Rfc4648.quantum
    rw [h₀, h₁, h₂, value_pad]
    exact ⟨_, rfl, rfl⟩
  · obtain ⟨rfl, hlast⟩ := @List.append_inj' _ [c₀, c₁] [c₂, c₃] body _ htext rfl
    obtain ⟨v₀, h₀⟩ := hval (c := c₀) (by simp)
    obtain ⟨v₁, h₁⟩ := hval (c := c₁) (by simp)
    obtain rfl : c₂ = PAD := List.head_eq_of_cons_eq hlast
    obtain rfl : c₃ = PAD := List.head_eq_of_cons_eq (List.tail_eq_of_cons_eq hlast)
    unfold Rfc4648.quantum
    rw [h₀, h₁, value_pad]
    exact ⟨_, rfl, rfl⟩

/-- Four characters with more behind them. -/
theorem B64Text.cons {c₀ c₁ c₂ c₃ : UInt8} {rest body : Bytes} {pad : Nat}
    (h : B64Text (c₀ :: c₁ :: c₂ :: c₃ :: rest) body pad) (hne : rest ≠ []) :
    ∃ body', body = [c₀, c₁, c₂, c₃] ++ body' ∧ B64Text rest body' pad := by
  have hgroups := h.groups
  have hpad := h.pad
  have hpos : rest.length ≠ 0 := fun h0 => hne (List.length_eq_zero_iff.mp h0)
  have hlen := congrArg List.length h.text
  rw [List.length_append, List.length_replicate] at hlen
  simp only [List.length_cons] at hlen hgroups
  have hfour : 4 ≤ body.length := by omega
  have hquad : [c₀, c₁, c₂, c₃] = body.take 4 := by
    have hcut := congrArg (List.take 4) h.text
    rw [List.take_append_of_le_length hfour] at hcut
    exact hcut
  have hdrop : rest = body.drop 4 ++ List.replicate pad PAD := by
    have hcut := congrArg (List.drop 4) h.text
    rw [List.drop_append_of_le_length hfour] at hcut
    exact hcut
  refine ⟨body.drop 4, by rw [hquad, List.take_append_drop], hdrop, hpad,
    fun c hc => h.body c (List.mem_of_mem_drop hc), by omega⟩

/-- **The value of the checker** is the length of what the text stands for. -/
theorem B64Text.length_decode {s body : Bytes} {pad : Nat} (h : B64Text s body pad) (hne : s ≠ []) :
    ∃ out, Rfc4648.decode s = some out ∧ out.length = s.length / 4 * 3 - pad := by
  obtain ⟨k, hk⟩ : ∃ k, s.length = 4 * k := ⟨s.length / 4, by have := h.groups; omega⟩
  induction k generalizing s body with
  | zero => exact absurd (List.length_eq_zero_iff.mp hk) hne
  | succ k ih =>
    match s, hk with
    | c₀ :: c₁ :: c₂ :: c₃ :: rest, hk =>
      have hrest : rest.length = 4 * k := by
        simp only [List.length_cons] at hk
        omega
      by_cases hnil : rest = []
      · subst hnil
        exact h.length_decode_last
      · -- the first four characters are in front of the padding
        obtain ⟨body', rfl, hbody'⟩ := h.cons hnil
        obtain ⟨out, hout, hlen⟩ := ih hbody' hnil hrest
        have hc (c : UInt8) (hc : c ∈ [c₀, c₁, c₂, c₃]) : isB64 c = true :=
          h.body c (List.mem_append_left body' hc)
        obtain ⟨a, ha, hlena⟩ := quantum_full (hc c₀ (by simp)) (hc c₁ (by simp)) (hc c₂ (by simp))
          (hc c₃ (by simp)) rest.isEmpty
        refine ⟨a ++ out, by rw [Rfc4648.decode, ha, hout], ?_⟩
        have hpad := h.pad
        have hpos : rest.length ≠ 0 := fun h0 => hnil (List.length_eq_zero_iff.mp h0)
        rw [List.length_append, hlena, hlen]
        simp only [List.length_cons]
        omega

/-! ### All of it -/

theorem B64Text.four {s body : Bytes} {pad : Nat} (h : B64Text s body pad) {q : Bytes}
    (hq : ∀ c ∈ q, isB64 c = true) (hlen : q.length = 4) : B64Text (q ++ s) (q ++ body) pad := by
  refine ⟨by rw [List.append_assoc, ← h.text], h.pad, List.forall_mem_append.mpr ⟨hq, h.body⟩, ?_⟩
  rw [List.length_append, hlen, Nat.add_mod_left, h.groups]

/-- What is written is well-formed. -/
theorem base64_text (x : Bytes) : ∃ body pad, B64Text (base64 x) body pad := by
  have hchars (vs : List Nat) : ∀ c ∈ vs.map b64Char, isB64 c = true := fun c hc => by
    obtain ⟨v, -, rfl⟩ := List.mem_map.mp hc
    exact isB64_b64Char v
  induction x using base64.induct with
  | case1 i0 i1 i2 rest ih =>
    obtain ⟨body, pad, ih⟩ := ih
    rw [base64]
    exact ⟨_, pad, ih.four (hchars [_, _, _, _]) rfl⟩
  | case2 i0 =>
    have hpad : str "==" = List.replicate 2 PAD := by decide
    rw [base64, hpad]
    exact ⟨_, 2, rfl, by decide, hchars [_, _], by simp⟩
  | case3 i0 i1 =>
    have hpad : str "=" = List.replicate 1 PAD := by decide
    rw [base64, hpad]
    exact ⟨_, 1, rfl, by decide, hchars [_, _, _], by simp⟩
  | case4 => exact ⟨[], 0, rfl, by decide, fun _ h => (List.not_mem_nil h).elim, rfl⟩

theorem base64_ne_nil {x : Bytes} (h : x ≠ []) : base64 x ≠ [] := by
  intro hnil
  have hdec := decode_base64 x
  rw [hnil] at hdec
  exact h (Option.some.inj hdec).symm

/-- The length of a key is known without decoding it. -/
theorem h1B64Declen_base64 {x : Bytes} (h : x ≠ []) : h1B64Declen (base64 x) = some x.length := by
  obtain ⟨body, pad, htext⟩ := base64_text x
  obtain ⟨out, hout, hlen⟩ := htext.length_decode (base64_ne_nil h)
  rw [decode_base64] at hout
  cases hout
  rw [htext.declen (base64_ne_nil h), hlen]

/-- **SHA-1, base64 and the key length are exact.** -/
theorem ws_sha1_base64_exact :
    (∀ msg : Bytes, msg.length < 2 ^ 61 → sha1 msg = Rfc3174.sha1 msg) ∧
    (∀ x : Bytes, Rfc4648.decode (base64 x) = some x) ∧
    (∀ s : Bytes, 0 ∉ s → s.length < 2 ^ 31 →
      ((h1B64Declen s).isSome = true ↔ s ≠ [] ∧ ∃ body pad, B64Text s body pad) ∧
      ∀ v, h1B64Declen s = some v → v < 2 ^ 31 ∧
        ∃ out, Rfc4648.decode s = some out ∧ out.length = v) ∧
    ∀ x : Bytes, x ≠ [] → h1B64Declen (base64 x) = some x.length := by
  refine ⟨fun _ h => sha1_eq h, decode_base64, fun s _ hlen => ⟨⟨fun h => ?_, fun h => ?_⟩,
    fun v h => ?_⟩, fun _ h => h1B64Declen_base64 h⟩
  · obtain ⟨v, hv⟩ := Option.isSome_iff_exists.mp h
    exact B64Text.of_declen hv
  · obtain ⟨hne, body, pad, htext⟩ := h
    rw [htext.declen hne]
    rfl
  · obtain ⟨hne, body, pad, htext⟩ := B64Text.of_declen h
    obtain ⟨out, hout, hlength⟩ := htext.length_decode hne
    rw [htext.declen hne] at h
    cases h
    exact ⟨by omega, out, hout, hlength⟩

/-- The key of the standard's example is one of 16 octets, and its digest is as the standard has
it. -/
theorem ws_sha1_base64_exact_key :
    h1B64Declen (base64 (str "the sample nonce")) = some 16 ∧
      sha1 (str "abc") = Rfc3174.sha1 (str "abc") :=
  ⟨ws_sha1_base64_exact.2.2.2 (str "the sample nonce") (by decide),
    ws_sha1_base64_exact.1 (str "abc") (by decide)⟩

end Zcio
