import Zcio.Lib.Uri
import Zcio.Url.Authority

/-!
# Zcio.Url.Loose

The authorities that `url_parse` and `ws_url_parse` take, as a grammar. A host is what stands in front
of the first colon, or between brackets, of any characters; a port is what `strtol` takes, with blanks
and a plus sign in front of its digits. The splitter and the port reader of the parsers accept this
grammar and nothing else (`splitHostPort_iff`, `portOf_iff`), whatever the texts of their errors are.
-/

namespace Zcio

/-- `host [ ":" port ]` of any characters: brackets in front make a literal of the host. -/
inductive LooseHostPort : Bytes → Bytes → Bytes → Prop
  | bare {host : Bytes} (hcolon : 58 ∉ host) (hopen : host.head? ≠ some 91) : LooseHostPort host host []
  | port {host port : Bytes} (hcolon : 58 ∉ host) (hopen : host.head? ≠ some 91) :
    LooseHostPort (host ++ 58 :: port) host port
  | literal {host : Bytes} (hclose : 93 ∉ host) : LooseHostPort (91 :: (host ++ [93])) host []
  | literalPort {host port : Bytes} (hclose : 93 ∉ host) : LooseHostPort (91 :: (host ++ 93 :: 58 :: port)) host port

/-- A port text and its number: no text, or at most 15 octets, of which the first may be blanks and a plus
sign, with a number in 1..65535. -/
inductive LoosePort (secure : Bool) : Bytes → Nat → Prop
  | default : LoosePort secure [] (if secure then 443 else 80)
  | number {blanks digits : Bytes} (plus : Bool) (hblanks : ∀ c ∈ blanks, isSpace c = true) (hne : digits ≠ [])
      (hdigits : ∀ c ∈ digits, isDigit c = true)
      (hlen : (blanks ++ (if plus then [43] else []) ++ digits).length < 16)
      (hrange : 1 ≤ decimalValue digits ∧ decimalValue digits ≤ 65535) :
    LoosePort secure (blanks ++ (if plus then [43] else []) ++ digits) (decimalValue digits)

/-! ### Hosts

The grammar of the text in front of the port, with an equivalence to the splitting. -/

theorem splitHostPort_loose (unterminated malformed : Bytes) {t host port : Bytes} (h : LooseHostPort t host port) :
    splitHostPort unterminated malformed t = .ok (host, port) := by
  cases h with
  | bare hcolon hopen => rw [splitHostPort_plain _ _ hopen, memchr_eq_none.mpr hcolon]
  | port hcolon hopen =>
    have hhead : (host ++ 58 :: port).head? ≠ some 91 := by
      cases host with
      | nil => exact fun heq => absurd (Option.some.inj heq) (by decide)
      | cons c host => exact hopen
    have hdrop : (host ++ 58 :: port).drop (host.length + 1) = port := by
      rw [← List.drop_drop, List.drop_left]
      rfl
    rw [splitHostPort_plain _ _ hhead, memchr_append hcolon]
    dsimp only
    rw [List.take_left, hdrop]
  | literal hclose => exact splitHostPort_literal unterminated malformed hclose []
  | literalPort hclose => exact splitHostPort_literal unterminated malformed hclose (58 :: port)

theorem looseHostPort_of_split {unterminated malformed t host port : Bytes}
    (h : splitHostPort unterminated malformed t = .ok (host, port)) : LooseHostPort t host port := by
  -- in brackets the host ends at the bracket
  by_cases hhead : t.head? = some 91
  · obtain ⟨auth, rfl⟩ : ∃ auth, t = 91 :: auth := by
      cases t with
      | nil => cases hhead
      | cons c auth =>
        cases hhead
        exact ⟨auth, rfl⟩
    cases hrb : memchr 93 auth with
    | none =>
      rw [splitHostPort, hrb] at h
      cases h
    | some rb =>
      obtain ⟨name, rest, rfl, -, hclose⟩ := memchr_eq_some hrb
      rw [splitHostPort_literal _ _ hclose] at h
      split at h
      · cases h
        exact .literal hclose
      · cases h
        exact .literalPort hclose
      · cases h
  · -- else it ends at the first colon
    rw [splitHostPort_plain _ _ hhead] at h
    cases hsep : memchr 58 t with
    | none =>
      rw [hsep] at h
      cases h
      exact .bare (memchr_eq_none.mp hsep) hhead
    | some sep =>
      obtain ⟨name, text, rfl, rfl, hcolon⟩ := memchr_eq_some hsep
      have hdrop : (name ++ 58 :: text).drop (name.length + 1) = text := by
        rw [← List.drop_drop, List.drop_left]
        rfl
      rw [hsep] at h
      dsimp only at h
      rw [List.take_left, hdrop] at h
      cases h
      refine .port hcolon fun hopen => hhead ?_
      rw [List.head?_append, hopen]
      rfl

/-- **The splitter takes the grammar.** -/
theorem splitHostPort_iff {unterminated malformed t host port : Bytes} :
    splitHostPort unterminated malformed t = .ok (host, port) ↔ LooseHostPort t host port :=
  ⟨looseHostPort_of_split, splitHostPort_loose unterminated malformed⟩

/-- A text is split in one way. -/
theorem LooseHostPort.unique {t host host' port port' : Bytes} (h : LooseHostPort t host port)
    (h' : LooseHostPort t host' port') : host = host' ∧ port = port' :=
  Prod.mk.inj (Except.ok.inj ((splitHostPort_loose [] [] h).symm.trans (splitHostPort_loose [] [] h')))

/-! ### Ports

What `strtol` takes for a number, and the range. -/

theorem isDigit_of_isDigitOf {c : UInt8} (h : isDigitOf 10 c = true) : isDigit c = true := by
  rw [isDigitOf, Option.any_eq_true] at h
  obtain ⟨d, hd, hlt⟩ := h
  have hlt : d < 10 := of_decide_eq_true hlt
  rw [digitVal] at hd
  split at hd
  · rename_i hrange
    exact isDigit_iff.mpr hrange
  · split at hd
    · cases hd
      omega
    · split at hd
      · cases hd
        omega
      · cases hd

theorem signLength_le (t : Bytes) : signLength t ≤ t.length := by
  rw [signLength.eq_def]
  split
  · exact Nat.succ_le_succ (Nat.zero_le _)
  · exact Nat.succ_le_succ (Nat.zero_le _)
  · exact Nat.zero_le _

theorem leadLength_ten (t : Bytes) : leadLength 10 t = 0 := by
  rw [leadLength.eq_def]
  split
  · exact if_neg fun h => absurd h.1 (by decide)
  · rfl

/-- The sign of a number that is positive. -/
theorem take_signLength {t : Bytes} (h : t.head? ≠ some 45) :
    t.take (signLength t) = if t.head? = some 43 then [43] else [] := by
  cases t with
  | nil => rfl
  | cons c t =>
    by_cases hplus : c = 43
    · rw [hplus]
      rfl
    · have hminus : c ≠ 45 := fun heq => h (by rw [heq]; rfl)
      have hnone : signLength (c :: t) = 0 := by
        rw [signLength.eq_def]
        split
        · rename_i heq
          exact absurd (List.cons.inj heq).1 hminus
        · rename_i heq
          exact absurd (List.cons.inj heq).1 hplus
        · rfl
      rw [hnone, List.head?_cons, if_neg fun heq => hplus (Option.some.inj heq)]
      rfl

/-- **A positive number that `strtol` reads to the end of the text.** -/
theorem strtoNum_whole {text : Bytes} {r : StrtoNum} (h : strtoNum 10 text = some r) (hstop : r.stop = text.length)
    (hpos : 1 ≤ r.long) :
    ∃ blanks digits, ∃ plus : Bool, text = blanks ++ (if plus then [43] else []) ++ digits ∧
      (∀ c ∈ blanks, isSpace c = true) ∧ digits ≠ [] ∧ (∀ c ∈ digits, isDigit c = true) ∧
      r.magnitude = decimalValue digits ∧ r.neg = false := by
  simp only [strtoNum, leadLength_ten, List.drop_zero] at h
  have hblanks := List.takeWhile_append_dropWhile (p := isSpace) (l := text)
  have hdropped : text.drop (text.takeWhile isSpace).length = text.dropWhile isSpace := by
    have hdrop := congrArg (List.drop (text.takeWhile isSpace).length) hblanks
    rw [List.drop_left] at hdrop
    exact hdrop.symm
  rw [hdropped] at h
  generalize hsigned : text.dropWhile isSpace = signed at h hblanks
  split at h
  · cases h
  · rename_i hne
    cases h
    dsimp only at hstop hpos ⊢
    have hneg : signed.head? ≠ some 45 := by
      intro hminus
      rw [StrtoNum.long, decide_eq_true hminus, if_pos rfl] at hpos
      dsimp only at hpos
      omega
    generalize hdigits : (signed.drop (signLength signed)).takeWhile (isDigitOf 10) = digits at hne hstop
    have hdig : ∀ c ∈ digits, isDigit c = true := fun c hc => by
      rw [← hdigits] at hc
      exact isDigit_of_isDigitOf (List.mem_takeWhile_imp hc)
    have hrest : signed.drop (signLength signed) = digits := by
      -- the digits go on to the end
      have hprefix := List.takeWhile_prefix (p := isDigitOf 10) (l := signed.drop (signLength signed))
      rw [hdigits] at hprefix
      refine ( hprefix.eq_of_length ?_).symm
      have hlen := congrArg List.length hblanks
      have hsign := signLength_le signed
      rw [List.length_append] at hlen
      rw [List.length_drop]
      omega
    refine ⟨text.takeWhile isSpace, digits, decide (signed.head? = some 43), ?_, fun c hc => List.mem_takeWhile_imp hc,
      hne, hdig, digitsVal_digits hdig, decide_eq_false hneg⟩
    have hparts := List.take_append_drop (signLength signed) signed
    rw [hrest, take_signLength hneg] at hparts
    simp only [decide_eq_true_eq]
    rw [List.append_assoc, hparts, hblanks]

/-- Blanks and a plus sign do not change the number. -/
theorem strtoNum_number {blanks digits : Bytes} (plus : Bool) (hblanks : ∀ c ∈ blanks, isSpace c = true)
    (hne : digits ≠ []) (hdigits : ∀ c ∈ digits, isDigit c = true) :
    ∃ r, strtoNum 10 (blanks ++ (if plus then [43] else []) ++ digits) = some r ∧ r.neg = false ∧
      r.magnitude = decimalValue digits ∧ r.stop = (blanks ++ (if plus then [43] else []) ++ digits).length := by
  obtain ⟨c, ds, rfl⟩ := List.exists_cons_of_ne_nil hne
  obtain ⟨hspace, hminus, hplus⟩ :=
    Http.digitVal_facts c (Http.isDigitOf_isSome (isDigitOf_of_isDigit (hdigits c List.mem_cons_self)).1)
  generalize hsigned : (if plus then ([43] : Bytes) else []) ++ (c :: ds) = signed
  -- the first octet behind the blanks is no blank and no minus
  have hhead : ∀ d, signed.head? = some d → isSpace d = false ∧ d ≠ 45 := by
    intro d hd
    rw [← hsigned] at hd
    cases plus with
    | true =>
      cases hd
      exact ⟨by decide, by decide⟩
    | false =>
      cases hd
      exact ⟨hspace, hminus⟩
  -- the blanks are passed, then the sign
  have hblank : (blanks ++ signed).takeWhile isSpace = blanks := by
    rw [List.takeWhile_append_of_pos hblanks]
    cases signed with
    | nil => simp
    | cons d t => rw [List.takeWhile_cons_of_neg (by rw [(hhead d rfl).1]; exact Bool.false_ne_true), List.append_nil]
  have hsign : signLength signed = (if plus then [43] else [] : Bytes).length := by
    rw [← hsigned]
    cases plus with
    | true => rfl
    | false =>
      show signLength (c :: ds) = 0
      rw [signLength.eq_def]
      split
      · exact absurd (List.cons.inj ‹_›).1 hminus
      · exact absurd (List.cons.inj ‹_›).1 hplus
      · rfl
  have htail : signed.drop (signLength signed) = c :: ds := by
    rw [hsign, ← hsigned, List.drop_left]
  -- what follows is digits to the end
  have hall : (c :: ds).takeWhile (isDigitOf 10) = c :: ds :=
    List.takeWhile_eq_self_iff.mpr fun d hd => (isDigitOf_of_isDigit (hdigits d hd)).1
  have hneg : decide (signed.head? = some 45) = false := decide_eq_false fun h => (hhead 45 h).2 rfl
  rw [List.append_assoc, hsigned]
  simp only [strtoNum, hblank, List.drop_left, leadLength_ten, List.drop_zero, htail, hall, hneg]
  rw [if_neg hne]
  refine ⟨_, rfl, rfl, digitsVal_digits hdigits, ?_⟩
  dsimp only
  rw [hsign, ← hsigned, List.length_append, List.length_append]
  omega

/-- **The port reader takes the grammar.** -/
theorem portOf_iff {tooLong invalid : Bytes} {secure : Bool} {text : Bytes} {port : Nat} :
    portOf tooLong invalid secure text = .ok port ↔ LoosePort secure text port := by
  constructor
  · -- a port read off the text: the number was the whole of it, and in range
    intro h
    rw [portOf] at h
    split at h
    · rename_i hnil
      cases h
      rw [hnil]
      exact .default
    split at h
    · cases h
    rename_i hlen
    split at h
    · cases h
    rename_i r hr
    split at h
    · cases h
    rename_i hrange
    cases h
    rw [not_or, not_or, not_not] at hrange
    obtain ⟨hstop, hlow, hhigh⟩ := hrange
    obtain ⟨blanks, digits, plus, rfl, hblanks, hne, hdigits, hvalue, hneg⟩ := strtoNum_whole hr hstop (Int.not_lt.mp hlow)
    have hlong : r.long.toNat = decimalValue digits := by
      rw [StrtoNum.long, hneg, if_neg Bool.false_ne_true, hvalue] at hhigh hlow ⊢
      omega
    rw [hlong]
    refine .number plus hblanks hne hdigits (Nat.not_le.mp hlen) ?_
    omega
  · -- and a number in that form is read as its value
    intro h
    cases h with
    | default => exact if_pos rfl
    | @number blanks digits plus hblanks hne hdigits hlen hrange =>
      obtain ⟨r, hr, hneg, hvalue, hstop⟩ := strtoNum_number plus hblanks hne hdigits
      have hnil : blanks ++ (if plus then [43] else []) ++ digits ≠ [] := List.append_ne_nil_of_right_ne_nil _ hne
      have hlong : r.long = decimalValue digits := by
        rw [StrtoNum.long, hneg, if_neg Bool.false_ne_true, hvalue]
        omega
      rw [portOf, if_neg hnil, if_neg (Nat.not_le.mpr hlen), hr]
      dsimp only
      rw [hlong, if_neg (by rw [not_or, not_or]; exact ⟨not_not_intro hstop, by omega, by omega⟩), Int.toNat_natCast]

theorem LoosePort.unique {secure : Bool} {text : Bytes} {port port' : Nat} (h : LoosePort secure text port)
    (h' : LoosePort secure text port') : port = port' :=
  Except.ok.inj (((@portOf_iff [] [] secure text port).mpr h).symm.trans (portOf_iff.mpr h'))

/-- A port of digits only stands for their number. -/
theorem LoosePort.eq_of_digits {secure : Bool} {text : Bytes} {port : Nat} (h : LoosePort secure text port)
    (hne : text ≠ []) (hdigits : ∀ c ∈ text, isDigit c = true) : port = decimalValue text := by
  have hport := (@portOf_iff [] [] secure text port).mpr h
  obtain ⟨r, hr, hneg, hvalue, -⟩ := @strtoNum_number [] text false nofun hne hdigits
  rw [if_neg Bool.false_ne_true, List.nil_append, List.nil_append] at hr
  rw [portOf, if_neg hne, hr] at hport
  split at hport
  · cases hport
  · dsimp only at hport
    split at hport
    · cases hport
    · rename_i hrange
      cases hport
      rw [StrtoNum.long, hneg, if_neg Bool.false_ne_true, hvalue] at hrange ⊢
      omega

end Zcio
