import Mathlib.Data.List.Basic
import Mathlib.Tactic.Common

/-!
# Zcio.Lib.JsonObject

The texts of JSON objects whose members are strings, over octets below 0x80: RFC 8259, sections 2,
4 and 7. A string stands for its UTF-16 code units, and `objectText` is the list of the members.
-/

namespace Lib.Json

abbrev Text := List UInt8

/-! ### The grammar -/

/-- `ws`. -/
def isWs (c : UInt8) : Bool := c = 0x20 ∨ c = 0x09 ∨ c = 0x0A ∨ c = 0x0D

def skipWs (t : Text) : Text := t.dropWhile isWs

/-- `HEXDIG`. -/
def hexDigit (c : UInt8) : Option Nat :=
  if 48 ≤ c ∧ c ≤ 57 then some (c.toNat - 48)
  else if 65 ≤ c ∧ c ≤ 70 then some (c.toNat - 55)
  else if 97 ≤ c ∧ c ≤ 102 then some (c.toNat - 87)
  else none

/-- What an escape of one octet stands for. -/
def unescape (c : UInt8) : Option Nat :=
  if c = 0x22 ∨ c = 0x5C ∨ c = 0x2F then some c.toNat
  else if c = 0x62 then some 0x08
  else if c = 0x66 then some 0x0C
  else if c = 0x6E then some 0x0A
  else if c = 0x72 then some 0x0D
  else if c = 0x74 then some 0x09
  else none

/-- Four hexadecimal digits. -/
def codeUnit (a b c d : UInt8) : Option Nat := do
  return (((← hexDigit a) * 16 + (← hexDigit b)) * 16 + (← hexDigit c)) * 16 + (← hexDigit d)

/-- A string behind its opening quotation mark, and what follows it. -/
def stringRest : Text → Option (List Nat × Text)
  | [] => none
  | 0x22 :: t => some ([], t)
  | 0x5C :: 0x75 :: h₁ :: h₂ :: h₃ :: h₄ :: t =>
    (codeUnit h₁ h₂ h₃ h₄).bind fun u => (stringRest t).map fun (s, t) => (u :: s, t)
  | 0x5C :: c :: t => (unescape c).bind fun u => (stringRest t).map fun (s, t) => (u :: s, t)
  | c :: t =>
    if c = 0x5C ∨ c < 0x20 ∨ 0x80 ≤ c then none
    else (stringRest t).map fun (s, t) => (c.toNat :: s, t)
termination_by structural t => t

/-- A string, with blanks around it. -/
def stringText (t : Text) : Option (List Nat × Text) :=
  match skipWs t with
  | 0x22 :: t => (stringRest t).map fun (s, t) => (s, skipWs t)
  | _ => none

/-- A member whose value is a string. -/
def member (t : Text) : Option ((List Nat × List Nat) × Text) :=
  match stringText t with
  | some (name, 0x3A :: t) => (stringText t).map fun (value, t) => ((name, value), t)
  | _ => none

/-- Members up to the end of the object, at most `fuel` of them, and blanks behind it. -/
def membersText : Nat → Text → Option (List (List Nat × List Nat))
  | 0, _ => none
  | fuel + 1, t =>
    match member t with
    | some (m, 0x2C :: t) => (membersText fuel t).map (m :: ·)
    | some (m, 0x7D :: t) => if skipWs t = [] then some [m] else none
    | _ => none

/-- **An object**: its members. A member takes some octets, so that there are no more than those. -/
def objectText (t : Text) : Option (List (List Nat × List Nat)) :=
  match skipWs t with
  | 0x7B :: t =>
    match skipWs t with
    | 0x7D :: t => if skipWs t = [] then some [] else none
    | t => membersText t.length t
  | _ => none

/-! ### Escaped strings -/

/-- A writer that escapes quotation marks and reverse solidi, and nothing else. -/
def escapeQuotes (s : Text) : Text := s.flatMap fun c => if c = 0x22 ∨ c = 0x5C then [0x5C, c] else [c]

/-- What may stand in a string as it is, or behind a reverse solidus. -/
def Printable (s : Text) : Prop := ∀ c ∈ s, 0x20 ≤ c ∧ c < 0x80

/-- The code units of octets. -/
def units (s : Text) : List Nat := s.map UInt8.toNat

theorem escapeQuotes_cons (c : UInt8) (s : Text) :
    escapeQuotes (c :: s) = (if c = 0x22 ∨ c = 0x5C then [0x5C, c] else [c]) ++ escapeQuotes s := rfl

/-- One octet of an escaped string. -/
theorem stringRest_escaped (c : UInt8) (t : Text) :
    stringRest ((if c = 0x22 ∨ c = 0x5C then [0x5C, c] else [c]) ++ t) =
      if c < 0x20 ∨ 0x80 ≤ c then none else (stringRest t).map fun (s, t) => (c.toNat :: s, t) := by
  by_cases hquote : c = 0x22 ∨ c = 0x5C
  · have hplain : ¬(c < 0x20 ∨ 0x80 ≤ c) := by
      obtain rfl | rfl := hquote
      · decide
      · decide
    rw [if_pos hquote, if_neg hplain]
    obtain rfl | rfl := hquote
    · rfl
    · rfl
  · obtain ⟨hmark, hsolidus⟩ := not_or.mp hquote
    rw [if_neg hquote, List.singleton_append, stringRest.eq_5 c t hmark]
    · simp only [hsolidus, false_or]
    · exact fun _ _ _ _ _ heq _ => hsolidus heq
    · exact fun _ _ heq _ => hsolidus heq

/-- **A string in quotation marks** reads as its octets just if it is printable. -/
theorem stringRest_escapeQuotes (s t : Text) (hs : Printable s) :
    stringRest (escapeQuotes s ++ 0x22 :: t) = some (units s, t) := by
  induction s with
  | nil =>
    show stringRest (0x22 :: t) = some ([], t)
    rfl
  | cons c s ih =>
    obtain ⟨hc, hrest⟩ := List.forall_mem_cons.mp hs
    have hplain : ¬(c < 0x20 ∨ 0x80 ≤ c) := not_or.mpr ⟨UInt8.not_lt.mpr hc.1, UInt8.not_le.mpr hc.2⟩
    rw [escapeQuotes_cons, List.append_assoc, stringRest_escaped, if_neg hplain, ih hrest]
    rfl

theorem stringRest_unprintable (s t : Text) (hs : ¬Printable s) : stringRest (escapeQuotes s ++ t) = none := by
  induction s with
  | nil => exact absurd (fun _ hc => nomatch hc) hs
  | cons c s ih =>
    rw [escapeQuotes_cons, List.append_assoc, stringRest_escaped]
    split
    · rfl
    · rename_i hplain
      rw [not_or, UInt8.not_lt, UInt8.not_le] at hplain
      have hrest : ¬Printable s := fun hrest => hs (List.forall_mem_cons.mpr ⟨hplain, hrest⟩)
      rw [ih hrest]
      rfl

/-! ### Written objects -/

/-- A member as the writer puts it. -/
def writeMember (m : Text × Text) : Text :=
  0x22 :: escapeQuotes m.1 ++ 0x22 :: 0x3A :: 0x22 :: escapeQuotes m.2 ++ [0x22]

/-- An object as the writer puts it. -/
def writeObject (ms : List (Text × Text)) : Text :=
  0x7B :: [(0x2C : UInt8)].intercalate (ms.map writeMember) ++ [0x7D]

/-- Name and value are printable. -/
def PrintableMember (m : Text × Text) : Prop := Printable m.1 ∧ Printable m.2

theorem skipWs_cons {c : UInt8} (h : isWs c = false) (t : Text) : skipWs (c :: t) = c :: t := by
  rw [skipWs, List.dropWhile_cons_of_neg]
  rw [h]
  exact Bool.false_ne_true

theorem stringText_mark (t : Text) :
    stringText (0x22 :: t) = (stringRest t).map fun (s, t) => (s, skipWs t) := by
  rw [stringText, skipWs_cons (by decide)]
  rfl

theorem stringText_quoted (s t : Text) (hs : Printable s) :
    stringText (0x22 :: (escapeQuotes s ++ 0x22 :: t)) = some (units s, skipWs t) := by
  rw [stringText_mark, stringRest_escapeQuotes s t hs]
  rfl

theorem stringText_unprintable (s t : Text) (hs : ¬Printable s) :
    stringText (0x22 :: (escapeQuotes s ++ t)) = none := by
  rw [stringText_mark, stringRest_unprintable s t hs]
  rfl

theorem member_named {name : List Nat} {t t' : Text} (h : stringText t = some (name, 0x3A :: t')) :
    member t = (stringText t').map fun (value, t) => ((name, value), t) := by
  rw [member, h]
  rfl

theorem writeMember_append (m : Text × Text) (t : Text) :
    writeMember m ++ t =
      0x22 :: (escapeQuotes m.1 ++ 0x22 :: 0x3A :: 0x22 :: (escapeQuotes m.2 ++ 0x22 :: t)) := by
  simp only [writeMember, List.cons_append, List.append_assoc, List.nil_append]

theorem member_written {m : Text × Text} (hm : PrintableMember m) {c : UInt8} (hc : isWs c = false) (t : Text) :
    member (writeMember m ++ c :: t) = some ((units m.1, units m.2), c :: t) := by
  rw [writeMember_append, member_named (stringText_quoted _ _ hm.1), stringText_quoted _ _ hm.2, skipWs_cons hc]
  rfl

theorem member_unprintable {m : Text × Text} (hm : ¬PrintableMember m) (t : Text) :
    member (writeMember m ++ t) = none := by
  rw [writeMember_append]
  by_cases hname : Printable m.1
  · have hvalue : ¬Printable m.2 := fun hvalue => hm ⟨hname, hvalue⟩
    rw [member_named (stringText_quoted _ _ hname), stringText_unprintable _ _ hvalue]
    rfl
  · rw [member, stringText_unprintable _ _ hname]

theorem membersText_comma {m : List Nat × List Nat} {t t' : Text} (h : member t = some (m, 0x2C :: t')) (fuel : Nat) :
    membersText (fuel + 1) t = (membersText fuel t').map (m :: ·) := by
  rw [membersText, h]
  rfl

theorem membersText_none {t : Text} (h : member t = none) (fuel : Nat) : membersText (fuel + 1) t = none := by
  rw [membersText, h]

/-- Members behind each other: the first that is not printable stops the reader. -/
theorem membersText_written (m : Text × Text) (ms : List (Text × Text)) (fuel : Nat) (hfuel : ms.length < fuel) :
    membersText fuel ([(0x2C : UInt8)].intercalate ((m :: ms).map writeMember) ++ [0x7D]) =
        some ((m :: ms).map fun m => (units m.1, units m.2)) ∧ (∀ m' ∈ m :: ms, PrintableMember m') ∨
      membersText fuel ([(0x2C : UInt8)].intercalate ((m :: ms).map writeMember) ++ [0x7D]) = none ∧
        ∃ m' ∈ m :: ms, ¬PrintableMember m' := by
  induction ms generalizing m fuel with
  | nil =>
    obtain ⟨fuel, rfl⟩ : ∃ k, fuel = k + 1 := ⟨fuel - 1, by omega⟩
    rw [List.map_singleton, List.intercalate_singleton]
    by_cases hm : PrintableMember m
    · rw [membersText, member_written hm (by decide)]
      exact .inl ⟨rfl, fun m' hm' => List.mem_singleton.mp hm' ▸ hm⟩
    · rw [membersText_none (member_unprintable hm _)]
      exact .inr ⟨rfl, m, List.mem_singleton_self m, hm⟩
  | cons m₁ ms ih =>
    obtain ⟨fuel, rfl⟩ : ∃ k, fuel = k + 1 := ⟨fuel - 1, by omega⟩
    rw [List.length_cons] at hfuel
    rw [List.map_cons, List.intercalate_cons_of_ne_nil (by simp), List.append_assoc, List.append_assoc,
      List.singleton_append]
    by_cases hm : PrintableMember m
    · rw [membersText_comma (member_written hm (by decide) _)]
      obtain ⟨hrest, hall⟩ | ⟨hrest, m', hm', hbad⟩ := ih m₁ fuel (by omega)
      · rw [hrest]
        exact .inl ⟨rfl, List.forall_mem_cons.mpr ⟨hm, hall⟩⟩
      · rw [hrest]
        exact .inr ⟨rfl, m', List.mem_cons_of_mem m hm', hbad⟩
    · rw [membersText_none (member_unprintable hm _)]
      exact .inr ⟨rfl, m, List.mem_cons_self, hm⟩

theorem length_written (m : Text × Text) (ms : List (Text × Text)) :
    ms.length < ([(0x2C : UInt8)].intercalate ((m :: ms).map writeMember) ++ [0x7D]).length := by
  induction ms generalizing m with
  | nil =>
    rw [List.length_append]
    exact Nat.succ_pos _
  | cons m₁ ms ih =>
    rw [List.map_cons, List.intercalate_cons_of_ne_nil (by simp), List.append_assoc, List.append_assoc,
      List.singleton_append, List.length_append, List.length_cons, List.length_cons]
    have hrest := ih m₁
    omega

/-- **A written object** is one with these members just if all of them are printable. -/
theorem objectText_writeObject (ms : List (Text × Text)) :
    objectText (writeObject ms) = some (ms.map fun m => (units m.1, units m.2)) ↔ ∀ m ∈ ms, PrintableMember m := by
  rw [writeObject, List.cons_append]
  cases ms with
  | nil => exact iff_of_true rfl (fun _ hm => nomatch hm)
  | cons m ms =>
    -- the first member starts with a quotation mark, and each has more than one octet
    obtain ⟨t, ht⟩ : ∃ t, [(0x2C : UInt8)].intercalate ((m :: ms).map writeMember) ++ [0x7D] = 0x22 :: t := by
      cases ms with
      | nil =>
        rw [List.map_singleton, List.intercalate_singleton, writeMember_append]
        exact ⟨_, rfl⟩
      | cons m₁ ms =>
        rw [List.map_cons, List.intercalate_cons_of_ne_nil (by simp), List.append_assoc, writeMember_append]
        exact ⟨_, rfl⟩
    have hlen : ms.length < (0x22 :: t).length := by
      rw [← ht]
      exact length_written m ms
    have hread := membersText_written m ms _ hlen
    have hobject : objectText (0x7B :: 0x22 :: t) = membersText (0x22 :: t).length (0x22 :: t) := rfl
    rw [ht] at hread ⊢
    rw [hobject]
    obtain ⟨hread, hall⟩ | ⟨hread, m', hm', hbad⟩ := hread
    · exact iff_of_true hread hall
    · rw [hread]
      exact iff_of_false nofun fun hall => hbad (hall m' hm')

end Lib.Json
