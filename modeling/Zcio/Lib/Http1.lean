import Mathlib.Data.List.DropRight
import Mathlib.Data.List.TakeWhile
import Zcio.Lib.Uri

/-!
# Zcio.Lib.Http1

A reader of HTTP/1.1 requests: RFC 9112, sections 2 to 6, for the ones that are framed by a
Content-Length field or have no body. It is strict: lines end with CRLF, a field name is a token
with the colon next to it, and what makes the framing ambiguous is refused.

The reader is sound (`readRequest_sound`), and reads what is written out of valid parts
(`readRequest_written`).
-/

namespace Lib.Http1

open Uri (Text isAlpha isDigit isUnreserved isSubDelim encoded digitsValue)

/-! ### Characters -/

/-- `tchar`. -/
def isTchar (c : UInt8) : Bool :=
  isAlpha c || isDigit c || [33, 35, 36, 37, 38, 39, 42, 43, 45, 46, 94, 95, 96, 124, 126].contains c

/-- `token`. -/
def isToken (t : Text) : Bool := t != [] && t.all isTchar

/-- The characters of a URI without a fragment. -/
def isTargetChar (c : UInt8) : Bool := isUnreserved c || isSubDelim c || [47, 58, 63, 64, 91, 93].contains c

/-- `request-target`, in any of its four forms. -/
def isTarget (t : Text) : Bool := t != [] && encoded isTargetChar t

/-- Whitespace around a field value. -/
def isOws (c : UInt8) : Bool := c = 32 || c = 9

/-- What a field value is made of: visible characters, `obs-text`, blanks and tabs. -/
def isFieldChar (c : UInt8) : Bool := (32 ≤ c && c != 127) || c = 9

/-- The letters of a field name in lower case. -/
def lowerName (t : Text) : Text := t.map fun c => if 65 ≤ c && c ≤ 90 then c + 32 else c

/-! ### Requests -/

structure HeaderField where
  name : Text
  value : Text
  deriving Repr, DecidableEq

structure Request where
  method : Text
  target : Text
  fields : List HeaderField
  body : Text
  deriving Repr, DecidableEq

/-- The fields of a name, which is in lower case. -/
def named (name : Text) (fs : List HeaderField) : List HeaderField := fs.filter fun f => lowerName f.name == name

/-- `"content-length"`. -/
def contentLengthName : Text := [99, 111, 110, 116, 101, 110, 116, 45, 108, 101, 110, 103, 116, 104]

/-- `"transfer-encoding"`. -/
def transferEncodingName : Text :=
  [116, 114, 97, 110, 115, 102, 101, 114, 45, 101, 110, 99, 111, 100, 105, 110, 103]

/-- `"host"`. -/
def hostName : Text := [104, 111, 115, 116]

/-- `"HTTP/1.1"`. -/
def version : Text := [72, 84, 84, 80, 47, 49, 46, 49]

/-! ### The reader -/

/-- A text without the whitespace around it. -/
def trim (t : Text) : Text := (t.dropWhile isOws).rdropWhile isOws

/-- The text up to the first CRLF, and what is behind it. -/
def splitLine : Text → Option (Text × Text)
  | 13 :: 10 :: t => some ([], t)
  | c :: t => (splitLine t).map fun (a, b) => (c :: a, b)
  | [] => none
termination_by structural t => t

/-- `request-line`. -/
def readRequestLine (line : Text) : Option (Text × Text) :=
  match line.splitOn 32 with
  | [method, target, v] => if isToken method && isTarget target && v == version then some (method, target) else none
  | _ => none

/-- `field-line`. -/
def readField (line : Text) : Option HeaderField :=
  let name := line.takeWhile (· != 58)
  match line.drop name.length with
  | _ :: value => if isToken name && value.all isFieldChar then some ⟨name, trim value⟩ else none
  | [] => none

/-- HeaderField lines up to an empty line, and what is behind it. -/
def readFields : Nat → Text → Option (List HeaderField × Text)
  | 0, _ => none
  | fuel + 1, t =>
    match splitLine t with
    | none => none
    | some ([], rest) => some ([], rest)
    | some (line, rest) =>
      match readField line, readFields fuel rest with
      | some f, some (fs, rest) => some (f :: fs, rest)
      | _, _ => none

/-- The length of the body. Fields that repeat a length have to repeat it literally, and a transfer
coding next to them is refused, as is one that stands alone: the reader has none. -/
def bodyLength (fs : List HeaderField) : Option Nat :=
  if named transferEncodingName fs != [] then none
  else
    match (named contentLengthName fs).map HeaderField.value with
    | [] => some 0
    | v :: vs => if v != [] && v.all isDigit && vs.all (· == v) then some (digitsValue v) else none

/-- A request, and what is left behind it. One without a `Host` field, or with two, is refused. -/
def readRequest (t : Text) : Option (Request × Text) :=
  match splitLine t with
  | none => none
  | some (line, rest) =>
    match readRequestLine line, readFields rest.length rest with
    | some (method, target), some (fields, rest) =>
      match bodyLength fields with
      | some n =>
        if (named hostName fields).length = 1 && n ≤ rest.length then
          some (⟨method, target, fields, rest.take n⟩, rest.drop n)
        else none
      | none => none
    | _, _ => none

/-! ### Lines -/

theorem splitLine_cons {c : UInt8} (hc : c ≠ 13) (t : Text) :
    splitLine (c :: t) = (splitLine t).map fun (a, b) => (c :: a, b) := by
  rw [splitLine]
  intro t' heq
  exact absurd heq hc

theorem splitLine_append {line : Text} (h : 13 ∉ line) (rest : Text) :
    splitLine (line ++ 13 :: 10 :: rest) = some (line, rest) := by
  induction line with
  | nil => rfl
  | cons c line ih =>
    have hc : c ≠ 13 := fun heq => h (heq ▸ List.mem_cons_self)
    rw [List.cons_append, splitLine_cons hc, ih fun hmem => h (List.mem_cons_of_mem c hmem)]
    rfl

theorem splitLine_eq {t line rest : Text} (h : splitLine t = some (line, rest)) : t = line ++ 13 :: 10 :: rest := by
  induction t using splitLine.induct generalizing line rest with
  | case1 t =>
    cases h
    rfl
  | case2 c t hne ih =>
    rw [splitLine, Option.map_eq_some_iff] at h
    · obtain ⟨⟨a, b⟩, hsplit, heq⟩ := h
      cases heq
      rw [ih hsplit, List.cons_append]
    · exact hne
  | case3 => cases h

/-! ### Characters of the parts -/

theorem token_mem {t : Text} (h : isToken t = true) {c : UInt8} (hc : c ∈ t) : c ≠ 13 ∧ c ≠ 32 ∧ c ≠ 58 := by
  rw [isToken, Bool.and_eq_true, List.all_eq_true] at h
  have hne : ∀ d, isTchar d = false → c ≠ d := fun d hd heq =>
    Bool.false_ne_true (hd.symm.trans (heq ▸ h.2 c hc))
  exact ⟨hne 13 (by decide), hne 32 (by decide), hne 58 (by decide)⟩

theorem target_mem {t : Text} (h : isTarget t = true) {c : UInt8} (hc : c ∈ t) : c ≠ 13 ∧ c ≠ 32 := by
  have hnone : ∀ d ∈ ([13, 32] : Text), ¬(isTargetChar d = true ∨ d = 37 ∨ Uri.isHex d = true) :=
    List.all_iff_forall_prop.mp (by decide)
  rw [isTarget, Bool.and_eq_true] at h
  have hout := Uri.contains_eq_false hnone (Uri.encoded_mem h.2 hc)
  simpa using hout

theorem cr_not_mem_value {t : Text} (h : t.all isFieldChar = true) : 13 ∉ t := fun hc =>
  absurd (List.all_eq_true.mp h 13 hc) (by decide)

/-! ### Whitespace -/

theorem trim_cons {c : UInt8} (hc : isOws c = true) (t : Text) : trim (c :: t) = trim t := by
  rw [trim, List.dropWhile_cons_of_pos hc, trim]

theorem trim_eq_self {t : Text} (h : ∀ c ∈ t, isOws c = false) : trim t = t := by
  have hfront : t.dropWhile isOws = t := by
    refine List.dropWhile_eq_self_iff.mpr fun hne => ?_
    rw [h _ (List.getElem_mem hne)]
    exact Bool.false_ne_true
  rw [trim, hfront, List.rdropWhile_eq_self_iff]
  intro hne
  rw [h _ (List.getLast_mem hne)]
  exact Bool.false_ne_true

/-- What is cut off is whitespace. -/
theorem mem_trim_or {t : Text} {c : UInt8} (h : c ∈ t) : c ∈ trim t ∨ isOws c = true := by
  rw [← List.takeWhile_append_dropWhile (p := isOws) (l := t), List.mem_append] at h
  obtain h | h := h
  · exact .inr (List.mem_takeWhile_imp h)
  · rw [← List.rdropWhile_append_rtakeWhile (p := isOws) (l := t.dropWhile isOws), List.mem_append] at h
    obtain h | h := h
    · exact .inl h
    · exact .inr (List.mem_rtakeWhile_imp h)

theorem mem_of_mem_trim {t : Text} {c : UInt8} (h : c ∈ trim t) : c ∈ t :=
  (List.dropWhile_sublist _).subset ((List.rdropWhile_prefix isOws (l := _)).subset h)

theorem all_trim {t : Text} : (trim t).all isFieldChar = true ↔ t.all isFieldChar = true := by
  have hows : ∀ c : UInt8, isOws c = true → isFieldChar c = true := by
    intro c hc
    rw [isOws, Bool.or_eq_true, decide_eq_true_iff, decide_eq_true_iff] at hc
    obtain rfl | rfl := hc
    · rfl
    · rfl
  rw [List.all_eq_true, List.all_eq_true]
  refine ⟨fun h c hc => ?_, fun h c hc => h c (mem_of_mem_trim hc)⟩
  obtain hc | hc := mem_trim_or hc
  · exact h c hc
  · exact hows c hc

/-! ### Request lines -/

theorem readRequestLine_written {method target : Text} (hmethod : isToken method = true)
    (htarget : isTarget target = true) :
    readRequestLine (method ++ 32 :: (target ++ 32 :: version)) = some (method, target) := by
  have hm : 32 ∉ method := fun hc => (token_mem hmethod hc).2.1 rfl
  have ht : 32 ∉ target := fun hc => (target_mem htarget hc).2 rfl
  have hsplit : (method ++ 32 :: (target ++ 32 :: version)).splitOn 32 = [method, target, version] := by
    rw [List.splitOn_append_cons_self, List.splitOn_append_cons_self, List.splitOn_eq_singleton hm,
      List.splitOn_eq_singleton ht, List.splitOn_eq_singleton (by decide)]
    rfl
  rw [readRequestLine, hsplit]
  dsimp only
  rw [hmethod, htarget]
  rfl

theorem readRequestLine_sound {line method target : Text} (h : readRequestLine line = some (method, target)) :
    isToken method = true ∧ isTarget target = true := by
  rw [readRequestLine] at h
  split at h
  · split at h
    · rename_i hok
      cases h
      rw [Bool.and_eq_true, Bool.and_eq_true] at hok
      exact hok.1
    · cases h
  · cases h

/-! ### Fields -/

/-- The parts of a field line: a token, and characters that may stand in a value. -/
structure HeaderField.Ok (f : HeaderField) : Prop where
  name : isToken f.name = true
  value : f.value.all isFieldChar = true

/-- A field line that is written out. -/
def HeaderField.line (f : HeaderField) : Text := f.name ++ 58 :: 32 :: f.value

/-- The field as it is read. -/
def HeaderField.trimmed (f : HeaderField) : HeaderField := ⟨f.name, trim f.value⟩

theorem readField_written {f : HeaderField} (h : f.Ok) : readField f.line = some f.trimmed := by
  have hname : f.line.takeWhile (· != 58) = f.name := by
    rw [HeaderField.line, List.takeWhile_append_of_pos, List.takeWhile_cons_of_neg (by decide), List.append_nil]
    exact fun c hc => bne_iff_ne.mpr (token_mem h.name hc).2.2
  have hvalue : (32 :: f.value).all isFieldChar = true := by
    rw [List.all_cons, h.value]
    rfl
  rw [readField, hname, HeaderField.line, List.drop_left]
  dsimp only
  rw [h.name, hvalue, trim_cons rfl]
  rfl

theorem readField_sound {line : Text} {f : HeaderField} (h : readField line = some f) : f.Ok := by
  rw [readField] at h
  split at h
  · split at h
    · rename_i hok
      cases h
      rw [Bool.and_eq_true] at hok
      exact ⟨hok.1, all_trim.mpr hok.2⟩
    · cases h
  · cases h

theorem HeaderField.cr_not_mem_line {f : HeaderField} (h : f.Ok) : 13 ∉ f.line := by
  intro hc
  rw [HeaderField.line, List.mem_append, List.mem_cons, List.mem_cons] at hc
  obtain hc | hc | hc | hc := hc
  · exact (token_mem h.name hc).1 rfl
  · exact absurd hc (by decide)
  · exact absurd hc (by decide)
  · exact cr_not_mem_value h.value hc

theorem HeaderField.line_ne_nil (f : HeaderField) : f.line ≠ [] := List.append_ne_nil_of_right_ne_nil _ (List.cons_ne_nil _ _)

/-- HeaderField lines that are written out, each with its CRLF. -/
def writtenFields (fs : List HeaderField) : Text := (fs.map fun f => f.line ++ [13, 10]).flatten

/-- **Written fields** are read, with the whitespace around their values cut off. -/
theorem readFields_written {fs : List HeaderField} (h : ∀ f ∈ fs, f.Ok) (rest : Text) {fuel : Nat}
    (hfuel : fs.length < fuel) :
    readFields fuel (writtenFields fs ++ 13 :: 10 :: rest) = some (fs.map HeaderField.trimmed, rest) := by
  induction fs generalizing fuel with
  | nil =>
    obtain ⟨fuel, rfl⟩ := Nat.exists_eq_add_of_lt hfuel
    rw [readFields]
    rfl
  | cons f fs ih =>
    obtain ⟨fuel, rfl⟩ := Nat.exists_eq_succ_of_ne_zero (Nat.ne_zero_of_lt hfuel)
    have hok := h f List.mem_cons_self
    have hsplit : splitLine (writtenFields (f :: fs) ++ 13 :: 10 :: rest) =
        some (f.line, writtenFields fs ++ 13 :: 10 :: rest) := by
      rw [writtenFields, List.map_cons, List.flatten_cons, List.append_assoc, List.append_assoc]
      exact splitLine_append (HeaderField.cr_not_mem_line hok) _
    obtain ⟨c, line, hline⟩ := List.exists_cons_of_ne_nil f.line_ne_nil
    rw [readFields, hsplit, hline]
    dsimp only
    rw [← hline, readField_written hok, ih (fun f hf => h f (List.mem_cons_of_mem _ hf)) (Nat.lt_of_succ_lt_succ hfuel)]
    rfl

/-- What is read is valid, and the last line in front of the rest is empty. -/
theorem readFields_sound {fuel : Nat} {t rest : Text} {fs : List HeaderField} (h : readFields fuel t = some (fs, rest)) :
    (∀ f ∈ fs, f.Ok) ∧ ∃ lines, t = lines ++ 13 :: 10 :: rest ∧ (lines = [] ∨ [13, 10] <:+ lines) := by
  induction fuel generalizing t fs with
  | zero => cases h
  | succ fuel ih =>
    rw [readFields] at h
    split at h
    · cases h
    · rename_i rest' hsplit
      cases h
      exact ⟨nofun, [], splitLine_eq hsplit, .inl rfl⟩
    · rename_i line rest' _ hsplit
      split at h
      · rename_i f fs' rest'' hfield hfields
        cases h
        obtain ⟨hok, lines, rfl, hlines⟩ := ih hfields
        refine ⟨?_, line ++ 13 :: 10 :: lines, ?_, .inr ?_⟩
        · intro f' hf'
          obtain rfl | hf' := List.mem_cons.mp hf'
          · exact readField_sound hfield
          · exact hok f' hf'
        · rw [splitLine_eq hsplit, List.append_assoc, List.cons_append, List.cons_append]
        · obtain rfl | ⟨l, rfl⟩ := hlines
          · exact List.suffix_append line [13, 10]
          · refine ⟨line ++ 13 :: 10 :: l, ?_⟩
            rw [List.append_assoc]
            rfl
      · cases h

/-! ### Requests that are written out -/

/-- What a reader must be able to tell of a request. -/
structure Request.Ok (r : Request) : Prop where
  method : isToken r.method = true
  target : isTarget r.target = true
  fields : ∀ f ∈ r.fields, f.Ok
  host : (named hostName r.fields).length = 1
  length : bodyLength r.fields = some r.body.length

/-- The head of a request. -/
def requestHead (method target : Text) (fs : List HeaderField) : Text :=
  method ++ 32 :: (target ++ 32 :: version) ++ 13 :: 10 :: (writtenFields fs ++ [13, 10])

theorem length_writtenFields (fs : List HeaderField) : fs.length ≤ (writtenFields fs).length := by
  induction fs with
  | nil => exact Nat.le_refl _
  | cons f fs ih =>
    rw [writtenFields, List.map_cons, List.flatten_cons, List.length_append, List.length_cons, ← writtenFields,
      List.length_append, List.length_cons]
    omega

theorem named_trimmed (name : Text) (fs : List HeaderField) :
    named name (fs.map HeaderField.trimmed) = (named name fs).map HeaderField.trimmed := by
  rw [named, List.filter_map]
  rfl

/-- **Written requests**: the head and a body of the length that the fields say are read as they
are. -/
theorem readRequest_written {method target body : Text} {fs : List HeaderField} (hmethod : isToken method = true)
    (htarget : isTarget target = true) (hfs : ∀ f ∈ fs, f.Ok) (hhost : (named hostName fs).length = 1)
    (hlength : bodyLength (fs.map HeaderField.trimmed) = some body.length) (rest : Text) :
    readRequest (requestHead method target fs ++ (body ++ rest)) =
      some (⟨method, target, fs.map HeaderField.trimmed, body⟩, rest) := by
  have hline : 13 ∉ method ++ 32 :: (target ++ 32 :: version) := by
    intro hc
    rw [List.mem_append, List.mem_cons, List.mem_append, List.mem_cons] at hc
    obtain hc | hc | hc | hc | hc := hc
    · exact (token_mem hmethod hc).1 rfl
    · exact absurd hc (by decide)
    · exact (target_mem htarget hc).1 rfl
    · exact absurd hc (by decide)
    · exact absurd hc (by decide)
  have htext : requestHead method target fs ++ (body ++ rest) = method ++ 32 :: (target ++ 32 :: version) ++
      13 :: 10 :: (writtenFields fs ++ 13 :: 10 :: (body ++ rest)) := by
    simp only [requestHead, List.append_assoc, List.cons_append, List.nil_append]
  have hfuel : fs.length < (writtenFields fs ++ 13 :: 10 :: (body ++ rest)).length := by
    rw [List.length_append, List.length_cons]
    have hlen := length_writtenFields fs
    omega
  rw [htext, readRequest, splitLine_append hline]
  dsimp only
  rw [readRequestLine_written hmethod htarget, readFields_written hfs _ hfuel]
  dsimp only
  rw [hlength]
  dsimp only
  rw [named_trimmed, List.length_map, hhost, List.length_append, if_pos, List.take_left, List.drop_left]
  simp

/-- **Soundness**: a request that is read is valid, and between its head, which ends with an empty
line, and what is left there is just the body. -/
theorem readRequest_sound {t rest : Text} {r : Request} (h : readRequest t = some (r, rest)) :
    r.Ok ∧ ∃ head, t = head ++ [13, 10, 13, 10] ++ (r.body ++ rest) := by
  rw [readRequest] at h
  split at h
  · cases h
  rename_i line rest₁ hsplit
  split at h
  · rename_i method target fields rest₂ hline hfields
    split at h
    · rename_i n hlength
      split at h
      · rename_i hok
        cases h
        rw [Bool.and_eq_true, decide_eq_true_iff, decide_eq_true_iff] at hok
        obtain ⟨hmethod, htarget⟩ := readRequestLine_sound hline
        obtain ⟨hfs, lines, rfl, hlines⟩ := readFields_sound hfields
        refine ⟨⟨hmethod, htarget, hfs, hok.1, ?_⟩, ?_⟩
        · rw [hlength, List.length_take_of_le hok.2]
        · dsimp only
          rw [List.take_append_drop, splitLine_eq hsplit]
          obtain rfl | ⟨l, rfl⟩ := hlines
          · refine ⟨line, ?_⟩
            rw [List.append_assoc]
            rfl
          · refine ⟨line ++ 13 :: 10 :: l, ?_⟩
            simp
      · cases h
    · cases h
  · cases h

end Lib.Http1
