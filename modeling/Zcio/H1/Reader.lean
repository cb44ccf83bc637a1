import Zcio.H1.Step
import Zcio.Server.Request

/-!
# Zcio.H1.Reader

A client's reader of HTTP/1.1 responses, after RFC 9112: a status line, field lines up to an
empty one, and a body whose length is decided from the request method, the status and the
fields (section 6.3). Of the server it takes the classes of octets only, which are those of a
token and of a field value in the RFC (`zhsTokenOk`, `zhsValueOk`); lines, fields and framing
are read by rules of its own, and `Zcio.H1.Answer` holds the output of the server against it.
-/

namespace Zcio

/-! ### The head

Lines up to the first empty one: a status line, then fields. -/

/-- A line and what follows its CRLF. -/
def takeLine : Bytes → Option (Bytes × Bytes)
  | 13 :: 10 :: rest => some ([], rest)
  | b :: rest => (takeLine rest).map fun p => (b :: p.1, p.2)
  | [] => none

/-- The lines up to an empty one, and what follows that; `cur` is the line begun, in
reverse. -/
def headLines (cur : Bytes) : Bytes → Option (List Bytes × Bytes)
  | 13 :: 10 :: rest =>
    if cur = [] then some ([], rest)
    else (headLines [] rest).map fun p => (cur.reverse :: p.1, p.2)
  | b :: rest => headLines (b :: cur) rest
  | [] => none

/-- `HTTP-version SP 3DIGIT SP [ reason-phrase ]`: the status code. -/
def readStatusLine (l : Bytes) : Option Nat :=
  if l.take 9 = str "HTTP/1.1 " then
    match l.drop 9 with
    | a :: b :: c :: 32 :: reason =>
      if [a, b, c].all isDigit && zhsValueOk reason then some (decimalValue [a, b, c]) else none
    | _ => none
  else none

/-- A value without the whitespace around it. -/
def trimOws (v : Bytes) : Bytes := (v.dropWhile isOws).rdropWhile isOws

/-- `field-name ":" OWS field-value OWS`. -/
def readFieldLine (l : Bytes) : Option (Bytes × Bytes) :=
  match memchr 58 l with
  | none => none
  | some i =>
    if zhsTokenOk (l.take i) && zhsValueOk (l.drop (i + 1)) then
      some (l.take i, trimOws (l.drop (i + 1)))
    else none

/-- Status and fields of a response. -/
structure RespHead where
  status : Nat
  fields : List (Bytes × Bytes)
  deriving Repr, DecidableEq

def readHead (s : Bytes) : Option (RespHead × Bytes) :=
  match headLines [] s with
  | some (l :: ls, rest) =>
    match readStatusLine l, ls.mapM readFieldLine with
    | some status, some fields => some ({ status, fields }, rest)
    | _, _ => none
  | _ => none

/-- The values of the fields called `name`. -/
def valuesOf (name : Bytes) (fields : List (Bytes × Bytes)) : List Bytes :=
  (fields.filter fun f => lower f.1 == name).map (·.2)

/-! ### The body

The rules of RFC 9112 6.3 in their order. -/

/-- The size on a chunk-size line, its extension skipped. -/
def readChunkSize (l : Bytes) : Option Nat :=
  let digits := l.takeWhile (· != 59)
  if digits ≠ [] && digits.all fun d => (hexval d).isSome then
    some (digits.foldl (fun n d => n * 16 + (hexval d).getD 0) 0)
  else none

/-- A chunked body with its trailer section, in at most `fuel` chunks. -/
def readChunks : Nat → Bytes → Option (Bytes × Bytes)
  | 0, _ => none
  | fuel + 1, s =>
    match takeLine s with
    | none => none
    | some (l, rest) =>
      match readChunkSize l with
      | none => none
      | some 0 => (headLines [] rest).map fun p => ([], p.2)
      | some n =>
        if (rest.drop n).take 2 = crlf then
          (readChunks fuel (rest.drop (n + 2))).map fun p => (rest.take n ++ p.1, p.2)
        else none

/-- A body of the declared length; the declarations have to agree. -/
def readDeclared (values : List Bytes) (rest : Bytes) : Option (Bytes × Bytes) :=
  match values with
  -- no length at all: the body ends with the connection
  | [] => some (rest, [])
  | v :: vs =>
    if vs.all (· == v) && !v.isEmpty && v.all isDigit && decimalValue v ≤ rest.length then
      some (rest.take (decimalValue v), rest.drop (decimalValue v))
    else none

/-- A body by the rules of section 6.3, for a response to `method`. -/
def readBody (method : Bytes) (h : RespHead) (rest : Bytes) : Option (Bytes × Bytes) :=
  -- rule 1
  if method = str "HEAD" ∨ h.status < 200 ∨ h.status = 204 ∨ h.status = 304 then some ([], rest)
  -- rule 2: the connection is a tunnel from here on
  else if method = str "CONNECT" ∧ h.status < 300 then some ([], rest)
  else
    match valuesOf (str "transfer-encoding") h.fields with
    | [] => readDeclared (valuesOf (str "content-length") h.fields) rest
    | tes =>
      if lower (trimOws (afterLast 44 (tes.getLastD []))) = str "chunked" then readChunks (rest.length + 1) rest
      else some (rest, [])

/-- A response message. -/
structure RespMessage extends RespHead where
  body : Bytes
  deriving Repr, DecidableEq

/-- **The reader**: one message off the front of `s`, and what follows it. -/
def readResponse (method s : Bytes) : Option (RespMessage × Bytes) :=
  match readHead s with
  | none => none
  | some (h, rest) =>
    match readBody method h rest with
    | none => none
    | some (body, rest) => some ({ h with body }, rest)

/-! ### Reading what was written

Lines put together are taken apart again. -/

theorem headLines_line {l : Bytes} (h : CR ∉ l) (cur rest : Bytes) :
    headLines cur (l ++ crlf ++ rest) =
      if cur.reverse ++ l = [] then some ([], rest)
      else (headLines [] rest).map fun p => ((cur.reverse ++ l) :: p.1, p.2) := by
  induction l generalizing cur with
  | nil =>
    show headLines cur (13 :: 10 :: rest) = _
    rw [headLines, List.append_nil]
    simp only [List.reverse_eq_nil_iff]
  | cons b l ih =>
    have hb : b ≠ CR := fun heq => h (by simp [heq])
    have hstep : headLines cur (b :: (l ++ crlf ++ rest)) =
        headLines (b :: cur) (l ++ crlf ++ rest) := by
      rw [headLines]
      intro _ heq
      exact absurd heq hb
    show headLines cur (b :: (l ++ crlf ++ rest)) = _
    rw [hstep, ih (fun hm => h (List.mem_cons_of_mem _ hm)), List.reverse_cons,
      List.append_assoc]
    rfl

/-- Lines that are not empty come back one by one. -/
theorem headLines_fieldLines {ls : List Bytes} (h : ∀ l ∈ ls, l ≠ [] ∧ CR ∉ l) (rest : Bytes) :
    headLines [] (fieldLines ls ++ crlf ++ rest) = some (ls, rest) := by
  induction ls with
  | nil => rfl
  | cons l ls ih =>
    have hl := h l List.mem_cons_self
    have hsplit : fieldLines (l :: ls) ++ crlf ++ rest =
        l ++ crlf ++ (fieldLines ls ++ crlf ++ rest) := by
      simp [fieldLines]
    rw [hsplit, headLines_line hl.2, ih fun l' hl' => h l' (List.mem_cons_of_mem _ hl')]
    simp [hl.1]

theorem readFieldLine_headerText {name value : Bytes} (hn : zhsTokenOk name = true)
    (hv : zhsValueOk value = true) :
    readFieldLine (name ++ str ": " ++ value) = some (name, trimOws value) := by
  have hcolon : (58 : UInt8) ∉ name := notMem_of_token hn (by decide)
  have htext : name ++ str ": " ++ value = name ++ 58 :: (SP :: value) := by
    rw [List.append_assoc]
    rfl
  have hdrop : (name ++ 58 :: (SP :: value)).drop (name.length + 1) = SP :: value := by
    rw [← List.drop_drop, List.drop_left]
    rfl
  have hval : zhsValueOk (SP :: value) = true := hv
  have htrim : trimOws (SP :: value) = trimOws value := rfl
  unfold readFieldLine
  rw [htext, memchr_append hcolon]
  dsimp only
  rw [List.take_left, hdrop, hn, hval, htrim]
  rfl

theorem readFieldLine_mapM {fields : List (Bytes × Bytes)}
    (h : ∀ f ∈ fields, zhsTokenOk f.1 = true ∧ zhsValueOk f.2 = true) :
    (fields.map fun f => f.1 ++ str ": " ++ f.2).mapM readFieldLine =
      some (fields.map fun f => (f.1, trimOws f.2)) := by
  induction fields with
  | nil => rfl
  | cons f fields ih =>
    obtain ⟨hn, hv⟩ := h f List.mem_cons_self
    rw [List.map_cons, List.mapM_cons, readFieldLine_headerText hn hv,
      ih fun f' hf' => h f' (List.mem_cons_of_mem _ hf')]
    rfl

/-- A head of clean fields reads back, with the whitespace around the values gone. -/
theorem readHead_fields {l : Bytes} {status : Nat} {fields : List (Bytes × Bytes)}
    (hl : l ≠ [] ∧ CR ∉ l) (hstatus : readStatusLine l = some status)
    (hf : ∀ f ∈ fields, zhsTokenOk f.1 = true ∧ zhsValueOk f.2 = true) (rest : Bytes) :
    readHead (fieldLines (l :: fields.map fun f => f.1 ++ str ": " ++ f.2) ++ crlf ++ rest) =
      some ({ status, fields := fields.map fun f => (f.1, trimOws f.2) }, rest) := by
  have hlines : ∀ l' ∈ l :: fields.map (fun f => f.1 ++ str ": " ++ f.2), l' ≠ [] ∧ CR ∉ l' := by
    intro l' hl'
    rcases List.mem_cons.mp hl' with rfl | hl'
    · exact hl
    · obtain ⟨f, hmem, rfl⟩ := List.mem_map.mp hl'
      have hname := notMem_of_token (hf f hmem).1 (d := CR) (by decide)
      have hvalue := notMem_of_valueOk (hf f hmem).2 (d := CR) (by decide)
      have hsep : CR ∉ str ": " := by decide
      simp only [List.mem_append, not_or]
      exact ⟨by simp [str], ⟨hname, hsep⟩, hvalue⟩
  unfold readHead
  rw [headLines_fieldLines hlines]
  dsimp only
  rw [hstatus, readFieldLine_mapM hf]

/-! ### Numbers -/

/-- A decimal digit survives the way into an octet. -/
theorem toUInt8_digit {c : Char} (h : c.isDigit = true) :
    isDigit c.toNat.toUInt8 = true ∧ c.toNat.toUInt8.toNat = c.toNat := by
  obtain ⟨hlo, hhi⟩ : 48 ≤ c.toNat ∧ c.toNat ≤ 57 := by
    simpa [Char.isDigit, UInt32.le_iff_toNat_le] using h
  have hnat : c.toNat.toUInt8.toNat = c.toNat := by
    show c.toNat % 2 ^ 8 = c.toNat
    exact Nat.mod_eq_of_lt (by omega)
  refine ⟨?_, hnat⟩
  simp only [isDigit, Bool.and_eq_true, decide_eq_true_eq, UInt8.le_iff_toNat_le, hnat]
  exact ⟨hlo, hhi⟩

theorem isDigit_of_mem_decimal {n : Nat} {b : UInt8} (h : b ∈ decimal n) : isDigit b = true := by
  obtain ⟨c, hc, rfl⟩ := List.mem_map.mp h
  exact (toUInt8_digit (Nat.isDigit_of_mem_toDigits (by decide) (by decide) hc)).1

theorem decimal_ne_nil (n : Nat) : decimal n ≠ [] := by
  simp [decimal, Nat.toDigits_ne_nil]

theorem decimalValue_decimal (n : Nat) : decimalValue (decimal n) = n := by
  have hfold : ∀ (l : List Char) (v : Nat), (∀ c ∈ l, c.isDigit = true) →
      (l.map fun c => c.toNat.toUInt8).foldl (fun n d => n * 10 + (d.toNat - 48)) v =
        Nat.ofDigitChars 10 l v := by
    intro l
    induction l with
    | nil => exact fun _ _ => rfl
    | cons c l ih =>
      intro v hl
      rw [List.map_cons, List.foldl_cons, Nat.ofDigitChars_cons,
        ih _ fun d hd => hl d (List.mem_cons_of_mem _ hd),
        (toUInt8_digit (hl c List.mem_cons_self)).2, Nat.mul_comm v 10]
      rfl
  unfold decimalValue decimal
  rw [hfold _ _ fun c hc => Nat.isDigit_of_mem_toDigits (by decide) (by decide) hc]
  exact Nat.ofDigitChars_ten_toDigits

end Zcio
