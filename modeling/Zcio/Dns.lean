import Zcio.Server.Request

/-!
# Zcio.Dns

The addresses of `dns.c`: `zcio_is_ipv4` goes through a string once, with the number of its segment and
the digits and the value of it so far.

* **`zcioIsIpv4_iff`**: it accepts the dotted quads, which may have leading zeros.

What is asked of the resolver is left out.
-/

namespace Zcio

/-- The loop of `zcio_is_ipv4`, with the test behind it. -/
def isIpv4Loop : Bytes → Nat → Nat → Nat → Bool
  | [], seg, segLen, segVal =>
    if seg ≠ 3 then false
    else if segLen = 0 || segVal > 255 then false
    else true
  | ch :: p, seg, segLen, segVal =>
    if isDigit ch then
      if segLen + 1 > 3 then false else isIpv4Loop p seg (segLen + 1) (segVal * 10 + (ch.toNat - 48))
    else if ch = 46 then
      if seg ≥ 3 then false
      else if segLen = 0 then false
      else if segVal > 255 then false
      else isIpv4Loop p (seg + 1) 0 0
    else false

/-- `zcio_is_ipv4`. -/
def zcioIsIpv4 (s : Option Bytes) : Bool :=
  match s with
  | none => false
  | some [] => false
  | some s => isIpv4Loop s 0 0 0

/-! ### Dotted quads

Four numbers below 256 with dots between them; the loop counts the dots and the digits of
each number. -/

/-- A number from 0 to 255 in one to three digits. -/
structure Ipv4Segment (t : Bytes) : Prop where
  ne : t ≠ []
  len : t.length ≤ 3
  digits : ∀ ch ∈ t, isDigit ch = true
  val : decimalValue t ≤ 255

theorem decimalValue_concat (t : Bytes) (ch : UInt8) : decimalValue (t ++ [ch]) = decimalValue t * 10 + (ch.toNat - 48) := by
  rw [decimalValue, List.foldl_append]
  rfl

/-- The segments that are missing, each behind its dot. -/
def dotted (rest : List Bytes) : Bytes := rest.flatMap fun r => 46 :: r

/-- The next octet is of the segment that is begun, or the dot behind it. -/
theorem cons_eq_dotted {ch : UInt8} {p u : Bytes} {rest : List Bytes} (h : ch :: p = u ++ dotted rest) :
    (∃ u', u = ch :: u' ∧ p = u' ++ dotted rest) ∨
      u = [] ∧ ch = 46 ∧ ∃ r rest', rest = r :: rest' ∧ p = r ++ dotted rest' := by
  cases u with
  | cons c u' =>
    obtain ⟨rfl, hp⟩ := List.cons.inj h
    exact .inl ⟨u', rfl, hp⟩
  | nil =>
    cases rest with
    | nil => cases h
    | cons r rest' =>
      obtain ⟨hch, hp⟩ := List.cons.inj h
      exact .inr ⟨rfl, hch, r, rest', rfl, hp⟩

/-- The loop accepts what completes the segment that is begun, and brings those that are missing. -/
theorem isIpv4Loop_iff (p : Bytes) {seg : Nat} (hseg : seg ≤ 3) {t : Bytes} (hlen : t.length ≤ 3)
    (hdigits : ∀ ch ∈ t, isDigit ch = true) :
    isIpv4Loop p seg t.length (decimalValue t) = true ↔
      ∃ (u : Bytes) (rest : List Bytes), Ipv4Segment (t ++ u) ∧ (∀ r ∈ rest, Ipv4Segment r) ∧ seg + rest.length = 3 ∧
        p = u ++ dotted rest := by
  induction p generalizing seg t with
  | nil =>
    rw [isIpv4Loop]
    constructor
    · intro h
      split at h
      · cases h
      rename_i hthree
      split at h
      · cases h
      rename_i hval
      rw [Bool.or_eq_true, decide_eq_true_iff, decide_eq_true_iff, not_or, List.length_eq_zero_iff] at hval
      refine ⟨[], [], ?_, fun r hr => (List.not_mem_nil hr).elim, by rw [List.length_nil]; omega, rfl⟩
      rw [List.append_nil]
      exact ⟨hval.1, hlen, hdigits, Nat.not_lt.mp hval.2⟩
    · rintro ⟨u, rest, hsegment, -, hthree, heq⟩
      obtain ⟨rfl, hrest⟩ := List.append_eq_nil_iff.mp heq.symm
      cases rest with
      | cons r rest => cases hrest
      | nil =>
        rw [List.append_nil] at hsegment
        rw [List.length_nil, Nat.add_zero] at hthree
        rw [if_neg (not_not_intro hthree), if_neg]
        rw [Bool.or_eq_true, decide_eq_true_iff, decide_eq_true_iff, not_or, List.length_eq_zero_iff]
        exact ⟨hsegment.ne, Nat.not_lt.mpr hsegment.val⟩
  | cons ch p ih =>
    rw [isIpv4Loop]
    by_cases hdigit : isDigit ch = true
    · have hdot : ch ≠ 46 := by
        rintro rfl
        cases hdigit
      rw [if_pos hdigit]
      by_cases hlong : t.length + 1 > 3
      · rw [if_pos hlong]
        refine iff_of_false Bool.false_ne_true ?_
        rintro ⟨u, rest, hsegment, -, -, heq⟩
        obtain ⟨u', rfl, -⟩ | ⟨-, hch, -⟩ := cons_eq_dotted heq
        · have hlen' := hsegment.len
          rw [List.length_append, List.length_cons] at hlen'
          omega
        · exact hdot hch
      -- one more digit of the segment
      have hcat : (t ++ [ch]).length = t.length + 1 := List.length_append
      rw [if_neg hlong, ← decimalValue_concat, ← hcat,
        ih hseg (by omega) (List.forall_mem_append.mpr ⟨hdigits, by simpa using hdigit⟩)]
      constructor
      · rintro ⟨u, rest, hsegment, hrest, hthree, rfl⟩
        exact ⟨ch :: u, rest, by rwa [List.append_assoc] at hsegment, hrest, hthree, rfl⟩
      · rintro ⟨u, rest, hsegment, hrest, hthree, heq⟩
        obtain ⟨u', rfl, hp⟩ | ⟨-, hch, -⟩ := cons_eq_dotted heq
        · exact ⟨u', rest, by rwa [List.append_assoc], hrest, hthree, hp⟩
        · exact absurd hch hdot
    rw [if_neg hdigit]
    -- no digit is left for the segment
    have hno : ∀ u', ¬Ipv4Segment (t ++ ch :: u') := fun u' hsegment =>
      hdigit (hsegment.digits ch (List.mem_append_right t List.mem_cons_self))
    by_cases hdot : ch = 46
    · rw [if_pos hdot]
      have hrhs : (∃ (u : Bytes) (rest : List Bytes), Ipv4Segment (t ++ u) ∧ (∀ r ∈ rest, Ipv4Segment r) ∧
          seg + rest.length = 3 ∧ ch :: p = u ++ dotted rest) ↔ Ipv4Segment t ∧ seg < 3 ∧
          ∃ (u : Bytes) (rest : List Bytes), Ipv4Segment ([] ++ u) ∧ (∀ r ∈ rest, Ipv4Segment r) ∧
            seg + 1 + rest.length = 3 ∧ p = u ++ dotted rest := by
        constructor
        · rintro ⟨u, rest, hsegment, hrest, hthree, heq⟩
          obtain ⟨u', rfl, -⟩ | ⟨rfl, -, r, rest', rfl, hp⟩ := cons_eq_dotted heq
          · exact absurd hsegment (hno u')
          · obtain ⟨hr, hrest'⟩ := List.forall_mem_cons.mp hrest
            rw [List.append_nil] at hsegment
            rw [List.length_cons] at hthree
            exact ⟨hsegment, by omega, r, rest', hr, hrest', by omega, hp⟩
        · rintro ⟨hsegment, -, r, rest, hr, hrest, hthree, rfl⟩
          refine ⟨[], r :: rest, by rwa [List.append_nil], List.forall_mem_cons.mpr ⟨hr, hrest⟩, ?_, ?_⟩
          · rw [List.length_cons]
            omega
          · rw [hdot]
            rfl
      rw [hrhs]
      by_cases hmany : seg ≥ 3
      · rw [if_pos hmany]
        exact iff_of_false Bool.false_ne_true fun h => by omega
      rw [if_neg hmany]
      by_cases hempty : t.length = 0
      · rw [if_pos hempty]
        exact iff_of_false Bool.false_ne_true fun h => h.1.ne (List.length_eq_zero_iff.mp hempty)
      rw [if_neg hempty]
      by_cases hval : decimalValue t > 255
      · rw [if_pos hval]
        exact iff_of_false Bool.false_ne_true fun h => Nat.not_le.mpr hval h.1.val
      rw [if_neg hval]
      have hsegment : Ipv4Segment t :=
        ⟨fun ht => hempty (List.length_eq_zero_iff.mpr ht), hlen, hdigits, Nat.not_lt.mp hval⟩
      have hrest := ih (t := []) (show seg + 1 ≤ 3 by omega) (Nat.zero_le 3) fun _ hch => (List.not_mem_nil hch).elim
      exact hrest.trans ⟨fun h => ⟨hsegment, Nat.not_le.mp hmany, h⟩, fun h => h.2.2⟩
    · rw [if_neg hdot]
      refine iff_of_false Bool.false_ne_true ?_
      rintro ⟨u, rest, hsegment, -, -, heq⟩
      obtain ⟨u', rfl, -⟩ | ⟨-, hch, -⟩ := cons_eq_dotted heq
      · exact hno u' hsegment
      · exact hdot hch

/-- **The dotted quads.** `zcio_is_ipv4` accepts four segments with dots between them, and nothing else. -/
theorem zcioIsIpv4_iff (s : Option Bytes) :
    zcioIsIpv4 s = true ↔ ∃ a b c d, Ipv4Segment a ∧ Ipv4Segment b ∧ Ipv4Segment c ∧ Ipv4Segment d ∧
      s = some (a ++ str "." ++ b ++ str "." ++ c ++ str "." ++ d) := by
  have hdot : str "." = [46] := by decide
  cases s with
  | none => exact iff_of_false Bool.false_ne_true fun ⟨_, _, _, _, _, _, _, _, h⟩ => by cases h
  | some s =>
    have hloop : zcioIsIpv4 (some s) = isIpv4Loop s 0 0 0 := by
      cases s with
      | nil => rfl
      | cons ch p => rfl
    have hiff := isIpv4Loop_iff s (Nat.zero_le 3) (t := []) (Nat.zero_le 3) fun _ hch => (List.not_mem_nil hch).elim
    rw [hloop, hdot]
    refine hiff.trans ⟨?_, ?_⟩
    · rintro ⟨a, rest, ha, hrest, hthree, rfl⟩
      match rest, hthree with
      | [b, c, d], _ =>
        obtain ⟨hb, hrest⟩ := List.forall_mem_cons.mp hrest
        obtain ⟨hc, hrest⟩ := List.forall_mem_cons.mp hrest
        refine ⟨a, b, c, d, ha, hb, hc, (List.forall_mem_cons.mp hrest).1, ?_⟩
        simp [dotted]
    · rintro ⟨a, b, c, d, ha, hb, hc, hd, hs⟩
      refine ⟨a, [b, c, d], ha, by simp [hb, hc, hd], rfl, ?_⟩
      rw [Option.some.inj hs]
      simp [dotted]

end Zcio
