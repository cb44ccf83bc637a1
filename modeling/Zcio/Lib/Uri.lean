import Mathlib.Data.Bool.AllAny
import Mathlib.Data.List.Basic
import Mathlib.Data.List.TakeWhile
import Mathlib.Tactic.Common

/-!
# Zcio.Lib.Uri

The authority of a URI: RFC 3986, sections 2 and 3.2. User information, registered names and IP
literals as tests on their texts, and the octets that they do not have.
-/

namespace Lib.Uri

abbrev Text := List UInt8

/-! ### Characters -/

def isAlpha (c : UInt8) : Bool := (65 ≤ c && c ≤ 90) || (97 ≤ c && c ≤ 122)

def isDigit (c : UInt8) : Bool := 48 ≤ c && c ≤ 57

/-- `HEXDIG`. -/
def isHex (c : UInt8) : Bool := isDigit c || (65 ≤ c && c ≤ 70) || (97 ≤ c && c ≤ 102)

/-- `unreserved`: a letter, a digit, `-`, `.`, `_` or `~`. -/
def isUnreserved (c : UInt8) : Bool := isAlpha c || isDigit c || c = 45 || c = 46 || c = 95 || c = 126

/-- `sub-delims`: one of `!$&'()*+,;=`. -/
def isSubDelim (c : UInt8) : Bool := [33, 36, 38, 39, 40, 41, 42, 43, 44, 59, 61].contains c

/-- Characters that pass a test, and octets that are percent-encoded. -/
def encoded (p : UInt8 → Bool) : Text → Bool
  | [] => true
  | 37 :: a :: b :: t => isHex a && isHex b && encoded p t
  | c :: t => p c && encoded p t
termination_by structural t => t

/-- `gen-delims`: one of `:/?#[]@`. -/
def isGenDelim (c : UInt8) : Bool := [58, 47, 63, 35, 91, 93, 64].contains c

/-! ### The parts of an authority -/

/-- `userinfo`. -/
def isUserinfo (t : Text) : Bool := encoded (fun c => isUnreserved c || isSubDelim c || c = 58) t

/-- `reg-name`; an IPv4 address is one. -/
def isRegName (t : Text) : Bool := encoded (fun c => isUnreserved c || isSubDelim c) t

/-- `h16`. -/
def isH16 (t : Text) : Bool := 1 ≤ t.length && t.length ≤ 4 && t.all isHex

/-- The number that digits stand for. -/
def digitsValue (t : Text) : Nat := t.foldl (fun n d => n * 10 + (d.toNat - 48)) 0

/-- `dec-octet`. -/
def isDecOctet (t : Text) : Bool :=
  t.all isDigit && t != [] && (t.head? != some 48 || t.length = 1) && digitsValue t ≤ 255

/-- `IPv4address`. -/
def isIPv4 (t : Text) : Bool := (t.splitOn 46).length = 4 && (t.splitOn 46).all isDecOctet

/-- The number of 16-bit groups of a part of an IPv6 address. The last two may be an IPv4 address. -/
def groupCount (v4 : Bool) (t : Text) : Option Nat :=
  let gs := t.splitOn 58
  if t = [] then some 0
  else if gs.all isH16 then some gs.length
  else if v4 && gs.dropLast.all isH16 && gs.getLast?.any isIPv4 then some (gs.length + 1)
  else none

/-- The texts in front of the first `"::"` and behind it. -/
def splitDouble : Text → Option (Text × Text)
  | 58 :: 58 :: t => some ([], t)
  | c :: t => (splitDouble t).map fun (a, b) => (c :: a, b)
  | [] => none
termination_by structural t => t

/-- `IPv6address`: eight groups, or up to seven with a `"::"` for the others. -/
def isIPv6 (t : Text) : Bool :=
  match splitDouble t with
  | none => groupCount true t = some 8
  | some (a, b) =>
    match groupCount false a, groupCount true b with
    | some m, some n => m + n ≤ 7
    | _, _ => false

/-- `IPvFuture`. -/
def isIPvFuture : Text → Bool
  | [] => false
  | v :: t =>
    let version := t.takeWhile isHex
    (v = 118 || v = 86) && version != [] &&
      match t.drop version.length with
      | 46 :: t => t != [] && t.all fun c => isUnreserved c || isSubDelim c || c = 58
      | _ => false

/-- What may be between the brackets of an `IP-literal`. -/
def isIPLiteral (t : Text) : Bool := isIPv6 t || isIPvFuture t

/-! ### Octets that they do not have -/

/-- A class that none of some octets is in. -/
theorem contains_eq_false {P : UInt8 → Prop} {l : Text} (h : ∀ d ∈ l, ¬P d) {c : UInt8} (hc : P c) :
    l.contains c = false := by
  rw [← Bool.not_eq_true, List.contains_iff_mem]
  exact fun hmem => h c hmem hc

/-- Delimiters other than a colon. -/
def isHardDelim (c : UInt8) : Bool := [47, 63, 35, 91, 93, 64].contains c

theorem encoded_mem {p : UInt8 → Bool} {t : Text} (h : encoded p t = true) {c : UInt8} (hc : c ∈ t) :
    p c = true ∨ c = 37 ∨ isHex c = true := by
  induction t using encoded.induct with
  | case1 => exact absurd hc List.not_mem_nil
  | case2 a b t ih =>
    rw [encoded, Bool.and_eq_true, Bool.and_eq_true] at h
    obtain ⟨⟨ha, hb⟩, ht⟩ := h
    simp only [List.mem_cons] at hc
    obtain rfl | rfl | rfl | hc := hc
    · exact .inr (.inl rfl)
    · exact .inr (.inr ha)
    · exact .inr (.inr hb)
    · exact ih ht hc
  | case3 d t hne ih =>
    rw [encoded, Bool.and_eq_true] at h
    · obtain rfl | hc := List.mem_cons.mp hc
      · exact .inl h.1
      · exact ih h.2 hc
    · exact hne

theorem regName_mem {t : Text} (h : isRegName t = true) {c : UInt8} (hc : c ∈ t) : isGenDelim c = false := by
  have hnone : ∀ d ∈ ([58, 47, 63, 35, 91, 93, 64] : Text),
      ¬((isUnreserved d || isSubDelim d) = true ∨ d = 37 ∨ isHex d = true) :=
    List.all_iff_forall_prop.mp (by decide)
  exact contains_eq_false hnone (encoded_mem h hc)

theorem mem_splitOn {t : Text} {x c : UInt8} (h : c ∈ t) : c = x ∨ ∃ g ∈ t.splitOn x, c ∈ g := by
  have hjoin : ∀ gs : List Text, c ∈ [x].intercalate gs → c = x ∨ ∃ g ∈ gs, c ∈ g := by
    intro gs
    induction gs with
    | nil => exact fun h => absurd h List.not_mem_nil
    | cons g gs ih =>
      intro h
      cases gs with
      | nil =>
        rw [List.intercalate_singleton] at h
        exact .inr ⟨g, List.mem_singleton_self g, h⟩
      | cons g' gs =>
        rw [List.intercalate_cons_cons, List.mem_append, List.mem_append] at h
        obtain (h | h) | h := h
        · exact .inr ⟨g, List.mem_cons_self, h⟩
        · exact .inl (List.mem_singleton.mp h)
        · obtain h | ⟨k, hk, h⟩ := ih h
          · exact .inl h
          · exact .inr ⟨k, List.mem_cons_of_mem g hk, h⟩
  apply hjoin
  rwa [List.intercalate_splitOn]

/-- The octets of an IPv6 address. -/
def isIPv6Octet (c : UInt8) : Bool := isHex c || c = 58 || c = 46

theorem isIPv6Octet_of_isHex {c : UInt8} (h : isHex c = true) : isIPv6Octet c = true := by
  rw [isIPv6Octet, h]
  rfl

theorem h16_mem {t : Text} (h : isH16 t = true) {c : UInt8} (hc : c ∈ t) : isIPv6Octet c = true := by
  rw [isH16, Bool.and_eq_true, List.all_eq_true] at h
  exact isIPv6Octet_of_isHex (h.2 c hc)

theorem ipv4_mem {t : Text} (h : isIPv4 t = true) {c : UInt8} (hc : c ∈ t) : isIPv6Octet c = true := by
  rw [isIPv4, Bool.and_eq_true, List.all_eq_true] at h
  obtain rfl | ⟨g, hg, hcg⟩ := mem_splitOn (x := 46) hc
  · decide
  · have hdec := h.2 g hg
    rw [isDecOctet, Bool.and_eq_true, Bool.and_eq_true, Bool.and_eq_true, List.all_eq_true] at hdec
    apply isIPv6Octet_of_isHex
    rw [isHex, hdec.1.1.1 c hcg]
    rfl

theorem groupCount_mem {v4 : Bool} {t : Text} {n : Nat} (h : groupCount v4 t = some n) {c : UInt8} (hc : c ∈ t) :
    isIPv6Octet c = true := by
  rw [groupCount] at h
  split at h
  · rename_i hnil
    rw [hnil] at hc
    exact absurd hc List.not_mem_nil
  obtain rfl | ⟨g, hg, hcg⟩ := mem_splitOn (x := 58) hc
  · decide
  · split at h
    · rename_i hall
      exact h16_mem (List.all_eq_true.mp hall g hg) hcg
    · split at h
      · rename_i hmixed
        rw [Bool.and_eq_true, Bool.and_eq_true, List.all_eq_true, Option.any_eq_true] at hmixed
        obtain ⟨⟨-, hall⟩, last, hlast, hv4⟩ := hmixed
        rw [← List.dropLast_append_getLast? last hlast, List.mem_append] at hg
        obtain hg | hg := hg
        · exact h16_mem (hall g hg) hcg
        · rw [List.mem_singleton.mp hg] at hcg
          exact ipv4_mem hv4 hcg
      · cases h

theorem splitDouble_eq {t a b : Text} (h : splitDouble t = some (a, b)) : t = a ++ 58 :: 58 :: b := by
  induction t using splitDouble.induct generalizing a b with
  | case1 t =>
    cases h
    rfl
  | case2 c t hne ih =>
    rw [splitDouble, Option.map_eq_some_iff] at h
    · obtain ⟨⟨a', b'⟩, hsplit, heq⟩ := h
      cases heq
      rw [ih hsplit, List.cons_append]
    · exact hne
  | case3 => cases h

theorem ipv6_mem {t : Text} (h : isIPv6 t = true) {c : UInt8} (hc : c ∈ t) : isIPv6Octet c = true := by
  rw [isIPv6] at h
  split at h
  · exact groupCount_mem (of_decide_eq_true h) hc
  · rename_i a b hsplit
    split at h
    · rename_i m n ha hb
      rw [splitDouble_eq hsplit, List.mem_append, List.mem_cons, List.mem_cons] at hc
      obtain hc | rfl | rfl | hc := hc
      · exact groupCount_mem ha hc
      · decide
      · decide
      · exact groupCount_mem hb hc
    · cases h

theorem ipvFuture_mem {t : Text} (h : isIPvFuture t = true) {c : UInt8} (hc : c ∈ t) : isHardDelim c = false := by
  have hnone : ∀ d ∈ ([47, 63, 35, 91, 93, 64] : Text), ¬(isHex d = true ∨ (d = 118 ∨ d = 86) ∨ d = 46 ∨
      (isUnreserved d || isSubDelim d || d = 58) = true) :=
    List.all_iff_forall_prop.mp (by decide)
  apply contains_eq_false hnone
  cases t with
  | nil => exact absurd hc List.not_mem_nil
  | cons v t =>
    rw [isIPvFuture, Bool.and_eq_true, Bool.and_eq_true] at h
    obtain ⟨⟨hv, -⟩, htail⟩ := h
    obtain rfl | hc := List.mem_cons.mp hc
    · rw [Bool.or_eq_true, decide_eq_true_iff, decide_eq_true_iff] at hv
      exact .inr (.inl hv)
    · have hsplit := List.prefix_iff_eq_append.mp (List.takeWhile_prefix (l := t) isHex)
      rw [← hsplit, List.mem_append] at hc
      obtain hc | hc := hc
      · exact .inl (List.mem_takeWhile_imp hc)
      · split at htail
        · rename_i address hdrop
          rw [hdrop] at hc
          rw [Bool.and_eq_true, List.all_eq_true] at htail
          obtain rfl | hc := List.mem_cons.mp hc
          · exact .inr (.inr (.inl rfl))
          · exact .inr (.inr (.inr (htail.2 c hc)))
        · cases htail

/-- The octets of an IP literal. -/
theorem ipLiteral_mem {t : Text} (h : isIPLiteral t = true) {c : UInt8} (hc : c ∈ t) : isHardDelim c = false := by
  have hnone : ∀ d ∈ ([47, 63, 35, 91, 93, 64] : Text), ¬isIPv6Octet d = true :=
    List.all_iff_forall_prop.mp (by decide)
  rw [isIPLiteral, Bool.or_eq_true] at h
  obtain h | h := h
  · exact contains_eq_false hnone (ipv6_mem h hc)
  · exact ipvFuture_mem h hc

/-! ### Authorities -/

/-- `host`, and what it is without brackets. -/
inductive IsHost : Text → Text → Prop
  | name {host : Text} (h : isRegName host = true) : IsHost host host
  | literal {host : Text} (h : isIPLiteral host = true) : IsHost (91 :: (host ++ [93])) host

/-- `host [ ":" port ]`. -/
inductive IsHostPort : Text → Text → Text → Prop
  | bare {t host : Text} (h : IsHost t host) : IsHostPort t host []
  | port {t host port : Text} (h : IsHost t host) (hport : port.all isDigit = true) :
    IsHostPort (t ++ 58 :: port) host port

/-- `[ userinfo "@" ] host [ ":" port ]`. -/
inductive IsAuthority : Text → Text → Text → Prop
  | bare {t host port : Text} (h : IsHostPort t host port) : IsAuthority t host port
  | user {user t host port : Text} (huser : isUserinfo user = true) (h : IsHostPort t host port) :
    IsAuthority (user ++ 64 :: t) host port

/-- An authority goes up to the first `/`, `?` or `#`. -/
def authorityText (t : Text) : Text := t.takeWhile fun c => c != 47 && c != 63 && c != 35

end Lib.Uri
