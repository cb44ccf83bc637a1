import Zcio.H1.Reader
import Zcio.Http.Message
import Zcio.Ws.Connect

/-!
# Zcio.Url.Authority

What `url_parse` and `ws_url_parse` have in common: the host and the port of an authority. Each
part comes with what it says of its result, and an authority that is written out of a host and a
port is read back as these.
-/

namespace Zcio

/-! ### The parts

What the splitting leaves of the text, and the characters that may be in it. -/

/-- The authority as the parsers delimit it, without user information. -/
def hostPortText (p : Bytes) : Bytes := (p.takeWhile (· != 47)).rtakeWhile (· != 64)

/-- The target behind the authority. -/
def targetText (p : Bytes) : Bytes :=
  let auth := p.takeWhile (· != 47)
  if auth.length < p.length then p.drop auth.length else str "/"

theorem hostPortText_mem {p : Bytes} {c : UInt8} (h : c ∈ hostPortText p) : c ≠ 47 ∧ c ≠ 64 ∧ c ∈ p := by
  have hat := List.mem_rtakeWhile_imp h
  have hauth := (List.rtakeWhile_suffix _ _).subset h
  have hslash := List.mem_takeWhile_imp hauth
  refine ⟨fun heq => ?_, fun heq => ?_, (List.takeWhile_sublist _).subset hauth⟩
  · rw [heq] at hslash
    exact absurd hslash (by decide)
  · rw [heq] at hat
    exact absurd hat (by decide)

/-- Without a bracket in front the first colon ends the host. -/
theorem splitHostPort_plain (unterminated malformed : Bytes) {auth : Bytes} (h : auth.head? ≠ some 91) :
    splitHostPort unterminated malformed auth =
      .ok (match memchr 58 auth with
        | none => (auth, [])
        | some sep => (auth.take sep, auth.drop (sep + 1))) := by
  rw [splitHostPort]
  · cases memchr 58 auth with
    | none => rfl
    | some sep => rfl
  · intro auth' heq
    rw [heq] at h
    exact h rfl

/-- With one the host is in brackets, and nothing but a port may follow. -/
theorem splitHostPort_literal (unterminated malformed : Bytes) {host : Bytes} (h : 93 ∉ host) (rest : Bytes) :
    splitHostPort unterminated malformed (91 :: (host ++ 93 :: rest)) =
      match rest with
      | [] => .ok (host, [])
      | 58 :: port => .ok (host, port)
      | _ => httpFail ZCIO_ERR_PROTOCOL malformed := by
  have hdrop : (host ++ 93 :: rest).drop (host.length + 1) = rest := by
    rw [← List.drop_drop, List.drop_left]
    rfl
  rw [splitHostPort, memchr_append h rest]
  dsimp only
  rw [hdrop, List.take_left]
  rfl

theorem splitHostPort_mem {unterminated malformed auth host port : Bytes}
    (h : splitHostPort unterminated malformed auth = .ok (host, port)) {c : UInt8} (hc : c ∈ host) : c ∈ auth := by
  unfold splitHostPort at h
  split at h
  · split at h
    · cases h
    · rename_i rb _
      split at h
      · cases h
        exact List.mem_cons_of_mem _ (List.mem_of_mem_take hc)
      · cases h
        exact List.mem_cons_of_mem _ (List.mem_of_mem_take hc)
      · cases h
  · split at h
    · cases h
      exact hc
    · cases h
      exact List.mem_of_mem_take hc

theorem portOf_range {tooLong invalid text : Bytes} {secure : Bool} {port : Nat}
    (h : portOf tooLong invalid secure text = .ok port) : 1 ≤ port ∧ port ≤ 65535 := by
  rw [portOf] at h
  split at h
  · cases h
    split
    · decide
    · decide
  · split at h
    · cases h
    · split at h
      · cases h
      · rename_i r _
        split at h
        · cases h
        · rename_i hrange
          cases h
          simp only [not_or] at hrange
          omega

/-! ### The port as text

A number that is written out is read as itself. -/

theorem isDigitOf_of_isDigit {c : UInt8} (h : isDigit c = true) :
    isDigitOf 10 c = true ∧ (digitVal c).getD 0 = c.toNat - 48 := by
  obtain ⟨hdigit, hval, -⟩ := Http.isDigit_facts c h
  exact ⟨hdigit, hval⟩

theorem digitsVal_digits {s : Bytes} (hs : ∀ c ∈ s, isDigit c = true) : digitsVal 10 s = decimalValue s := by
  have hfold : ∀ v : Nat, s.foldl (fun v c => v * 10 + (digitVal c).getD 0) v =
      s.foldl (fun n d => n * 10 + (d.toNat - 48)) v := by
    induction s with
    | nil => exact fun _ => rfl
    | cons c s ih =>
      intro v
      rw [List.foldl_cons, List.foldl_cons, (isDigitOf_of_isDigit (hs c List.mem_cons_self)).2]
      exact ih (fun d hd => hs d (List.mem_cons_of_mem c hd)) _
  exact hfold 0

/-- Digits are read as their value. -/
theorem strtoNum_decimalValue {s : Bytes} (hne : s ≠ []) (hs : ∀ c ∈ s, isDigit c = true) :
    strtoNum 10 s = some ⟨false, decimalValue s, s.length⟩ := by
  have hread : strtoNum 10 (s ++ []) = some ⟨false, digitsVal 10 s, s.length⟩ :=
    Http.strtoNum_digits hne (fun c hc => (isDigitOf_of_isDigit (hs c hc)).1) nofun
  rwa [List.append_nil, digitsVal_digits hs] at hread

/-- The text of a port that is not the default one. -/
def portText (secure : Bool) (port : Nat) : Bytes :=
  if port = (if secure then 443 else 80) then [] else decimal port

/-- **A port that is written out** is read back. -/
theorem portOf_portText (tooLong invalid : Bytes) (secure : Bool) {port : Nat} (hlo : 1 ≤ port) (hhi : port ≤ 65535) :
    portOf tooLong invalid secure (portText secure port) = .ok port := by
  rw [portText]
  by_cases hdefault : port = if secure then 443 else 80
  · rw [if_pos hdefault, portOf, if_pos rfl, hdefault]
  · have hlen : (decimal port).length ≤ 5 := length_decimal_le (by decide) (by omega)
    rw [if_neg hdefault, portOf, if_neg (decimal_ne_nil port), if_neg (by omega),
      strtoNum_decimalValue (decimal_ne_nil port) (fun c hc => isDigit_of_mem_decimal hc), decimalValue_decimal]
    have hlong : StrtoNum.long ⟨false, port, (decimal port).length⟩ = port := by
      rw [StrtoNum.long, if_neg Bool.false_ne_true]
      dsimp only
      omega
    dsimp only
    rw [hlong, if_neg (by omega), Int.toNat_natCast]

/-! ### Authorities that are written out

The authority of a URL that the client builds is read back. -/

/-- The authority of a host and a port. -/
def writtenAuthority (secure : Bool) (host : Bytes) (port : Nat) : Bytes :=
  bracketed host ++ portSuffix secure port

/-- **A host and a port that are written out** are split again. -/
theorem splitHostPort_written (unterminated malformed : Bytes) (secure : Bool) {host : Bytes} (port : Nat)
    (hopen : 91 ∉ host) (hclose : 93 ∉ host) :
    splitHostPort unterminated malformed (writtenAuthority secure host port) = .ok (host, portText secure port) := by
  rw [writtenAuthority, bracketed, portSuffix, portText]
  by_cases hcolon : 58 ∈ host
  · -- a literal in brackets
    rw [if_pos hcolon]
    by_cases hdefault : port = if secure then 443 else 80
    · rw [if_pos hdefault, if_pos hdefault, List.append_nil, List.append_assoc]
      exact splitHostPort_literal unterminated malformed hclose []
    · rw [if_neg hdefault, if_neg hdefault, List.append_assoc, List.append_assoc]
      exact splitHostPort_literal unterminated malformed hclose (58 :: decimal port)
  · have hhead : (host ++ if port = (if secure then 443 else 80) then [] else str ":" ++ decimal port).head? ≠
        some 91 := by
      cases host with
      | nil =>
        by_cases hdefault : port = if secure then 443 else 80
        · rw [if_pos hdefault]
          nofun
        · rw [if_neg hdefault]
          show some (58 : UInt8) ≠ some 91
          decide
      | cons c host =>
        intro heq
        exact hopen (List.mem_cons.mpr (.inl (Option.some.inj heq).symm))
    rw [if_neg hcolon, splitHostPort_plain _ _ hhead]
    by_cases hdefault : port = if secure then 443 else 80
    · rw [if_pos hdefault, if_pos hdefault, List.append_nil, memchr_eq_none.mpr hcolon]
    · rw [if_neg hdefault, if_neg hdefault]
      have hsep : memchr 58 (host ++ (str ":" ++ decimal port)) = some host.length :=
        memchr_append hcolon (decimal port)
      have hdrop : (host ++ (str ":" ++ decimal port)).drop (host.length + 1) = decimal port := by
        rw [← List.drop_drop, List.drop_left]
        rfl
      rw [hsep]
      dsimp only
      rw [List.take_left, hdrop]

theorem mem_decimal {n : Nat} {c : UInt8} (h : c ∈ decimal n) : 48 ≤ c ∧ c ≤ 57 :=
  isDigit_iff.mp (isDigit_of_mem_decimal h)

theorem writtenAuthority_mem {secure : Bool} {host : Bytes} {port : Nat} {c : UInt8}
    (h : c ∈ writtenAuthority secure host port) : c ∈ host ∨ c = 91 ∨ c = 93 ∨ c = 58 ∨ (48 ≤ c ∧ c ≤ 57) := by
  rw [writtenAuthority, bracketed, portSuffix, List.mem_append] at h
  obtain h | h := h
  · split at h
    · simp only [List.mem_append] at h
      obtain (h | h) | h := h
      · exact .inr (.inl (List.mem_singleton.mp h))
      · exact .inl h
      · exact .inr (.inr (.inl (List.mem_singleton.mp h)))
    · exact .inl h
  · by_cases hdefault : port = if secure then 443 else 80
    · rw [if_pos hdefault] at h
      exact absurd h List.not_mem_nil
    · rw [if_neg hdefault] at h
      obtain h | h := List.mem_append.mp h
      · exact .inr (.inr (.inr (.inl (List.mem_singleton.mp h))))
      · exact .inr (.inr (.inr (.inr (mem_decimal h))))

/-- A written authority in front of a rooted target is delimited as it is. -/
theorem hostPortText_written (secure : Bool) {host : Bytes} (port : Nat) (hslash : 47 ∉ host) (hat : 64 ∉ host)
    (rest : Bytes) :
    hostPortText (writtenAuthority secure host port ++ 47 :: rest) = writtenAuthority secure host port ∧
      targetText (writtenAuthority secure host port ++ 47 :: rest) = 47 :: rest := by
  have hauth : (writtenAuthority secure host port ++ 47 :: rest).takeWhile (· != 47) =
      writtenAuthority secure host port := by
    rw [List.takeWhile_append_of_pos, List.takeWhile_cons_of_neg (by decide), List.append_nil]
    intro c hc
    refine bne_iff_ne.mpr fun heq => ?_
    rw [heq] at hc
    obtain h | h | h | h | h := writtenAuthority_mem hc
    · exact hslash h
    · exact absurd h (by decide)
    · exact absurd h (by decide)
    · exact absurd h (by decide)
    · exact absurd h.1 (by decide)
  rw [hostPortText, targetText, hauth]
  refine ⟨?_, ?_⟩
  · rw [List.rtakeWhile_eq_self_iff]
    intro c hc
    refine bne_iff_ne.mpr fun heq => ?_
    rw [heq] at hc
    obtain h | h | h | h | h := writtenAuthority_mem hc
    · exact hat h
    · exact absurd h (by decide)
    · exact absurd h (by decide)
    · exact absurd h (by decide)
    · exact absurd h.2 (by decide)
  · rw [List.drop_left, if_pos]
    rw [List.length_append, List.length_cons]
    omega

end Zcio
