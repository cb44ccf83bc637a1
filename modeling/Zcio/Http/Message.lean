import Zcio.H1.Message
import Zcio.Server.Request
import Zcio.Http.Response

/-!
# Zcio.Http.Message

Responses as a server writes them, and what the text functions of the client make of their
parts: the header block, a size line, a trailer section. Each comes in two lemmas, for the part
with anything behind it and for the part cut short.
-/

namespace Zcio.Http

/-! ### Responses

A response in the form of RFC 9112, as far as the client relies on it. -/

/-- A size line of a chunked body: hex digits for `n`, then nothing or an extension. -/
structure SizeLine (size ext : Bytes) (n : Nat) : Prop where
  ne : size ≠ []
  hex : ∀ b ∈ size, (hexval b).isSome = true
  val : hexVal size = n
  extOk : ext = [] ∨ ext.head? = some 59 ∨ ext.head? = some SP ∨ ext.head? = some HTAB
  clean : CR ∉ ext ∧ LF ∉ ext

/-- A size line as the client takes it: the extension may have a CR. -/
structure LaxSizeLine (size ext : Bytes) (n : Nat) : Prop where
  ne : size ≠ []
  hex : ∀ b ∈ size, (hexval b).isSome = true
  val : hexVal size = n
  extOk : ext = [] ∨ ext.head? = some 59 ∨ ext.head? = some SP ∨ ext.head? = some HTAB
  lf : LF ∉ ext

theorem SizeLine.lax {size ext : Bytes} {n : Nat} (h : SizeLine size ext n) : LaxSizeLine size ext n :=
  ⟨h.ne, h.hex, h.val, h.extOk, h.clean.2⟩

/-- A body in chunks as the client takes it. -/
structure LaxChunked (chunks : List H1Chunk) (lastSize lastExt : Bytes) (trailer : List Bytes) : Prop where
  chunks : ∀ c ∈ chunks, c.data ≠ [] ∧ LaxSizeLine c.size c.ext c.data.length
  last : LaxSizeLine lastSize lastExt 0
  trailer : ∀ l ∈ trailer, l ≠ [] ∧ LF ∉ l

/-- A field line: a token, and a value without CR and LF in optional whitespace. -/
structure FieldOk (f : FieldLine) : Prop where
  name : zhsTokenOk f.name = true
  value : CR ∉ f.value ∧ LF ∉ f.value
  pre : ∀ b ∈ f.pre, isOws b = true
  post : ∀ b ∈ f.post, isOws b = true

/-- A response on the wire. -/
structure RespMsg where
  major : UInt8
  minor : UInt8
  code : Bytes
  /-- The reason phrase behind the second space. -/
  reason : Option Bytes
  fields : List FieldLine
  body : H1Body
  deriving Repr, DecidableEq

namespace RespMsg

/-- What is behind the status code. -/
def tail (r : RespMsg) : Bytes :=
  match r.reason with
  | none => []
  | some text => SP :: text

/-- The status line. -/
def line (r : RespMsg) : Bytes :=
  str "HTTP/" ++ [r.major, 46, r.minor] ++ SP :: (r.code ++ r.tail)

/-- The response on the wire. -/
def bytes (r : RespMsg) : Bytes :=
  r.line ++ crlf ++ fieldLines (r.fields.map (·.text)) ++ crlf ++ r.body.bytes

/-- The fields announce the framing that is used, and nothing else. -/
def Framed (r : RespMsg) : Prop :=
  match r.body with
  | .none => False
  | .length b => fieldValues r.fields (str "transfer-encoding") = [] ∧
      ∃ v, fieldValues r.fields (str "content-length") = [v] ∧ v ≠ [] ∧
        (∀ p ∈ v, isDigit p = true) ∧ decVal v = b.length
  | .chunked chunks lastSize lastExt trailer =>
      fieldValues r.fields (str "content-length") = [] ∧
      (∃ v, fieldValues r.fields (str "transfer-encoding") = [v] ∧
        ciEq v (str "chunked") = true) ∧
      (∀ c ∈ chunks, c.data ≠ [] ∧ SizeLine c.size c.ext c.data.length) ∧
      SizeLine lastSize lastExt 0 ∧ ∀ l ∈ trailer, l ≠ [] ∧ CR ∉ l ∧ LF ∉ l

/-- A well-formed final response with a framed body. -/
structure Final (r : RespMsg) : Prop where
  version : isDigit r.major = true ∧ isDigit r.minor = true
  code : r.code.length = 3 ∧ ∀ p ∈ r.code, isDigit p = true
  final : r.code.head? ≠ some 49
  reason : ∀ text, r.reason = some text → CR ∉ text ∧ LF ∉ text
  fields : ∀ f ∈ r.fields, FieldOk f
  framed : r.Framed

/-- A status line and field lines that are well formed. -/
structure HeadOk (r : RespMsg) : Prop where
  version : isDigit r.major = true ∧ isDigit r.minor = true
  code : r.code.length = 3 ∧ ∀ p ∈ r.code, isDigit p = true
  reason : ∀ text, r.reason = some text → CR ∉ text ∧ LF ∉ text
  fields : ∀ f ∈ r.fields, FieldOk f

theorem Final.headOk {r : RespMsg} (hr : r.Final) : r.HeadOk :=
  ⟨hr.version, hr.code, hr.reason, hr.fields⟩

theorem Final.laxChunked {r : RespMsg} (hr : r.Final) {chunks : List H1Chunk} {lastSize lastExt : Bytes}
    {trailer : List Bytes} (hb : r.body = .chunked chunks lastSize lastExt trailer) :
    LaxChunked chunks lastSize lastExt trailer := by
  have hframed := hr.framed
  rw [Framed, hb] at hframed
  obtain ⟨-, -, hchunks, hlast, htrailer⟩ := hframed
  exact ⟨fun c hc => ⟨(hchunks c hc).1, (hchunks c hc).2.lax⟩, hlast.lax,
    fun l hl => ⟨(htrailer l hl).1, (htrailer l hl).2.2⟩⟩

end RespMsg

/-! ### The end of the header block

The first empty line ends the head, and no line of a head contains it. -/

theorem headEnd_cons {c : UInt8} (hc : c ≠ CR) (s : Bytes) :
    headEnd (c :: s) = (headEnd s).map (· + 1) := by
  rw [headEnd, if_neg]
  simp [hc.symm]

theorem headEnd_append {l : Bytes} (hl : CR ∉ l) (s : Bytes) :
    headEnd (l ++ s) = (headEnd s).map (· + l.length) := by
  induction l with
  | nil => simp
  | cons c l ih =>
    have hc : c ≠ CR := fun h => hl (h ▸ List.mem_cons_self)
    rw [List.cons_append, headEnd_cons hc, ih fun h => hl (List.mem_cons_of_mem _ h), Option.map_map]
    rfl

/-- A line end with a line behind it is not the end. -/
theorem headEnd_crlf {c : UInt8} (hc : c ≠ CR) (s : Bytes) :
    headEnd (CR :: LF :: c :: s) = (headEnd (c :: s)).map (· + 2) := by
  rw [headEnd, if_neg (by simp [hc.symm]), headEnd_cons (by decide), Option.map_map]
  rfl

theorem headEnd_crlf_crlf (s : Bytes) : headEnd (crlf ++ crlf ++ s) = some 0 := by
  show headEnd (CR :: LF :: CR :: LF :: s) = some 0
  rw [headEnd, if_pos (by simp)]

/-- What is behind the end does not move it. -/
theorem headEnd_some {s : Bytes} {i : Nat} (h : headEnd s = some i) (x : Bytes) :
    headEnd (s ++ x) = some i ∧ i + 4 ≤ s.length := by
  induction s generalizing i with
  | nil => cases h
  | cons c s ih =>
    rw [headEnd] at h
    rw [List.cons_append, headEnd]
    split at h
    · rename_i hpre
      cases h
      have hp : [CR, LF, CR, LF] <+: c :: s := List.isPrefixOf_iff_prefix.mp hpre
      have hpx : [CR, LF, CR, LF] <+: c :: (s ++ x) := hp.trans (List.prefix_append (c :: s) x)
      rw [if_pos (List.isPrefixOf_iff_prefix.mpr hpx)]
      exact ⟨rfl, hp.length_le⟩
    · rename_i hpre
      obtain ⟨j, hj, rfl⟩ := Option.map_eq_some_iff.mp h
      obtain ⟨heq, hlen⟩ := ih hj
      have hpx : ¬[CR, LF, CR, LF].isPrefixOf (c :: (s ++ x)) = true := by
        -- the four octets would lie within `c :: s`
        intro hp
        have hp' : [CR, LF, CR, LF] <+: (c :: s) ++ x := List.isPrefixOf_iff_prefix.mp hp
        have hshort : [CR, LF, CR, LF] <+: c :: s :=
          List.prefix_of_prefix_length_le hp' (List.prefix_append _ _) (by simp; omega)
        exact hpre (List.isPrefixOf_iff_prefix.mpr hshort)
      rw [if_neg hpx, heq]
      exact ⟨rfl, by rw [List.length_cons]; omega⟩

/-- Lines with CRLF between them. -/
def joinLines : Bytes → List Bytes → Bytes
  | l, [] => l
  | l, l' :: ls => l ++ crlf ++ joinLines l' ls

theorem joinLines_crlf (l : Bytes) (ls : List Bytes) :
    l ++ crlf ++ fieldLines ls = joinLines l ls ++ crlf := by
  induction ls generalizing l with
  | nil => simp [joinLines, fieldLines]
  | cons l' ls ih => rw [joinLines, fieldLines_cons, ih l', List.append_assoc (l ++ crlf)]

theorem headEnd_joinLines {l : Bytes} {ls : List Bytes} (hl : CR ∉ l)
    (hls : ∀ l ∈ ls, l ≠ [] ∧ CR ∉ l) (s : Bytes) :
    headEnd (joinLines l ls ++ (crlf ++ crlf ++ s)) = some (joinLines l ls).length := by
  induction ls generalizing l with
  | nil =>
    rw [joinLines, headEnd_append hl, headEnd_crlf_crlf, Option.map_some, Nat.zero_add]
  | cons l' ls ih =>
    obtain ⟨hne, hcr⟩ := hls l' List.mem_cons_self
    have hrest := ih hcr fun x hx => hls x (List.mem_cons_of_mem _ hx)
    obtain ⟨c, t, ht⟩ : ∃ c t, joinLines l' ls ++ (crlf ++ crlf ++ s) = c :: t ∧ c ≠ CR := by
      cases l' with
      | nil => exact absurd rfl hne
      | cons c l' =>
        have hc : c ≠ CR := fun h => hcr (h ▸ List.mem_cons_self)
        cases ls with
        | nil => exact ⟨c, _, rfl, hc⟩
        | cons l'' ls => exact ⟨c, _, rfl, hc⟩
    rw [joinLines, List.append_assoc, List.append_assoc, headEnd_append hl, ht.1]
    rw [ht.1] at hrest
    show Option.map _ (headEnd (CR :: LF :: c :: t)) = _
    rw [headEnd_crlf ht.2, hrest]
    simp
    omega

/-! ### Header fields

The search of the client through the lines of a head. -/

/-- The CR in front of a line's LF is not part of a value. -/
theorem headerLineValue_cr (key l : Bytes) : headerLineValue key (l ++ [CR]) = headerLineValue key l := by
  cases hcolon : memchr 58 l with
  | none =>
    have hl : memchr 58 (l ++ [CR]) = none := by
      rw [memchr_eq_none] at hcolon ⊢
      exact List.not_mem_append hcolon (by decide)
    simp only [headerLineValue, lineValue, hcolon, hl]
  | some colon =>
    have hlt := memchr_lt hcolon
    have hvalue : ∀ y : Bytes, ((y ++ [CR]).dropWhile fun c => c == SP || c == HTAB).rdropWhile (· == CR) =
        (y.dropWhile fun c => c == SP || c == HTAB).rdropWhile (· == CR) := by
      intro y
      have hdrop : ((y ++ [CR]).dropWhile fun c => c == SP || c == HTAB) =
          (y.dropWhile fun c => c == SP || c == HTAB) ++ [CR] := by
        rw [List.dropWhile_append]
        split
        · rename_i hnil
          rw [List.isEmpty_iff.mp hnil]
          rfl
        · rfl
      rw [hdrop, List.rdropWhile_concat_pos _ _ _ (by rfl)]
    simp only [headerLineValue, lineValue, hcolon, memchr_append_of_some hcolon]
    rw [List.take_append_of_le_length hlt.le, List.drop_append_of_le_length hlt, hvalue]

/-- The lines of a header block, as `find_header_value` sees them. -/
theorem findSome_joinLines {l : Bytes} {ls : List Bytes} (h : ∀ x ∈ l :: ls, LF ∉ x) (key : Bytes) :
    ((joinLines l ls).splitOn LF).findSome? (headerLineValue key) =
      (l :: ls).findSome? (headerLineValue key) := by
  have hl : LF ∉ l := h l List.mem_cons_self
  induction ls generalizing l with
  | nil => rw [joinLines, List.splitOn_eq_singleton hl]
  | cons l' ls ih =>
    have hrest : ∀ x ∈ l' :: ls, LF ∉ x := fun x hx => h x (List.mem_cons_of_mem _ hx)
    have hsplit : joinLines l (l' :: ls) = (l ++ [CR]) ++ LF :: joinLines l' ls := by
      simp [joinLines]
    rw [hsplit, List.splitOn_append_cons_self_of_not_mem (List.not_mem_append hl (by decide)), List.findSome?_cons,
      headerLineValue_cr, ih hrest (hrest l' List.mem_cons_self), ← List.findSome?_cons]

/-- A line that starts with another letter than the key is not the header's. -/
theorem headerLineValue_head {k c : UInt8} (h : tolower c ≠ tolower k) (key l : Bytes) :
    headerLineValue (k :: key) (c :: l) = none := by
  unfold headerLineValue lineValue
  split
  · rfl
  · rename_i colon hcolon
    rw [if_neg]
    rintro ⟨hlen, hkey⟩
    subst hlen
    rw [List.length_cons, List.take_succ_cons] at hkey
    exact h (List.cons.inj hkey).1

/-- The value of a field line: what is behind the colon and whitespace. -/
theorem headerLineValue_text {f : FieldLine} (hf : FieldOk f) (key : Bytes) :
    headerLineValue key f.text =
      if lower f.name = lower key then
        some (((f.pre ++ f.value ++ f.post).dropWhile fun c => c == SP || c == HTAB).rdropWhile (· == CR))
      else none := by
  have hcolon : memchr 58 f.text = some f.name.length := memchr_append (notMem_of_token hf.name rfl) _
  have htake : f.text.take f.name.length = f.name := List.take_left
  have hdrop : f.text.drop (f.name.length + 1) = f.pre ++ f.value ++ f.post := by
    rw [FieldLine.text, List.drop_append, List.drop_eq_nil_of_le (by omega), List.nil_append,
      Nat.add_sub_cancel_left]
    rfl
  simp only [headerLineValue, lineValue, hcolon, htake, hdrop]
  by_cases hkey : lower f.name = lower key
  · have hlen : f.name.length = key.length := by
      rw [← length_lower f.name, hkey, length_lower]
    rw [if_pos ⟨hlen, hkey⟩, if_pos hkey]
  · rw [if_neg (fun h => hkey h.2), if_neg hkey]

/-- An octet of a word: neither NUL, CR, LF nor whitespace. -/
def isWord (c : UInt8) : Bool := c != 0 && c != CR && c != LF && !isOws c

/-- The value of a field whose value is a word: trailing whitespace stays. -/
theorem headerLineValue_word {f : FieldLine} (hf : FieldOk f) (hne : f.value ≠ [])
    (hword : ∀ c ∈ f.value, isWord c = true) {key : Bytes} (hkey : lower f.name = lower key) :
    headerLineValue key f.text = some (f.value ++ f.post) := by
  have hfront : (f.pre ++ f.value ++ f.post).dropWhile (fun c => c == SP || c == HTAB) =
      f.value ++ f.post := by
    obtain ⟨c, t, hct⟩ := List.exists_cons_of_ne_nil hne
    have hc : isOws c = false := by
      have := hword c (hct ▸ List.mem_cons_self)
      rw [isWord, Bool.and_eq_true, Bool.not_eq_true'] at this
      exact this.2
    show List.dropWhile isOws _ = _
    rw [List.append_assoc, List.dropWhile_append_of_pos hf.pre, hct, List.cons_append,
      List.dropWhile_cons_of_neg]
    exact Bool.eq_false_iff.mp hc
  have hback : (f.value ++ f.post).rdropWhile (· == CR) = f.value ++ f.post := by
    rw [List.rdropWhile_eq_self_iff]
    intro hnil hlast
    have hmem := List.getLast_mem hnil
    rw [beq_iff_eq.mp hlast, List.mem_append] at hmem
    rcases hmem with hmem | hmem
    · exact hf.value.1 hmem
    · exact absurd (hf.post _ hmem) (by decide)
  rw [headerLineValue_text hf, if_pos hkey, hfront, hback]

/-- The header that decides is the first field of the name. -/
theorem findSome_fields {fs : List FieldLine} (hfs : ∀ f ∈ fs, FieldOk f) (key : Bytes) :
    (fs.map (·.text)).findSome? (headerLineValue key) =
      ((fs.filter fun f => lower f.name == lower key).head?).bind fun f => headerLineValue key f.text := by
  induction fs with
  | nil => rfl
  | cons f fs ih =>
    rw [List.map_cons, List.findSome?_cons, ih fun x hx => hfs x (List.mem_cons_of_mem _ hx),
      List.filter_cons]
    by_cases hkey : lower f.name = lower key
    · rw [headerLineValue_text (hfs f List.mem_cons_self), if_pos hkey, if_pos (beq_iff_eq.mpr hkey),
        List.head?_cons, Option.bind_some, headerLineValue_text (hfs f List.mem_cons_self), if_pos hkey]
    · rw [headerLineValue_text (hfs f List.mem_cons_self), if_neg hkey, if_neg (by simpa using hkey)]

theorem text_clean {f : FieldLine} (hf : FieldOk f) : f.text ≠ [] ∧ CR ∉ f.text ∧ LF ∉ f.text := by
  have hows : ∀ {s : Bytes} {c : UInt8}, (∀ b ∈ s, isOws b = true) → isOws c = false → c ∉ s :=
    fun h hc hm => absurd (h _ hm) (Bool.eq_false_iff.mp hc)
  have hpart : ∀ c : UInt8, isTchar c = false → c ≠ 58 → isOws c = false → c ∉ f.value → c ∉ f.text := by
    intro c ht h58 ho hv hm
    rcases List.mem_append.mp hm with hm | hm
    · exact notMem_of_token hf.name ht hm
    · rcases List.mem_cons.mp hm with hm | hm
      · exact h58 hm
      · rcases List.mem_append.mp hm with hm | hm
        · rcases List.mem_append.mp hm with hm | hm
          · exact hows hf.pre ho hm
          · exact hv hm
        · exact hows hf.post ho hm
  exact ⟨by simp [FieldLine.text], hpart CR (by decide) (by decide) (by decide) hf.value.1,
    hpart LF (by decide) (by decide) (by decide) hf.value.2⟩

theorem fields_none {fs : List FieldLine} (hfs : ∀ f ∈ fs, FieldOk f) {key : Bytes}
    (h : fieldValues fs (lower key) = []) :
    ((fs.map (·.text)).findSome? (headerLineValue key)).map cstr = none := by
  rw [findSome_fields hfs, List.map_eq_nil_iff.mp h]
  rfl

theorem fields_word {fs : List FieldLine} (hfs : ∀ f ∈ fs, FieldOk f) {key v : Bytes}
    (h : (fieldValues fs (lower key)).head? = some v) (hne : v ≠ [])
    (hword : ∀ c ∈ v, isWord c = true) :
    ∃ post, (∀ b ∈ post, isOws b = true) ∧
      ((fs.map (·.text)).findSome? (headerLineValue key)).map cstr = some (v ++ post) := by
  rw [fieldValues, List.head?_map] at h
  obtain ⟨f, hf, hv⟩ := Option.map_eq_some_iff.mp h
  subst hv
  have hmem : f ∈ fs.filter fun f => lower f.name == lower key := List.mem_of_head? hf
  obtain ⟨hfmem, hname⟩ := List.mem_filter.mp hmem
  have hok := hfs f hfmem
  refine ⟨f.post, hok.post, ?_⟩
  have hzero : (0 : UInt8) ∉ f.value ++ f.post := by
    intro hm
    rcases List.mem_append.mp hm with hm | hm
    · exact absurd (hword _ hm) (by decide)
    · exact absurd (hok.post _ hm) (by decide)
  rw [findSome_fields hfs, hf, Option.bind_some,
    headerLineValue_word hok hne hword (beq_iff_eq.mp hname), Option.map_some, cstr_eq_self hzero]

/-! ### Numbers

What `strtol` and its relatives make of digits. -/

theorem digitVal_range {c : UInt8} (h : (digitVal c).isSome = true) :
    48 ≤ c.toNat ∧ c.toNat ≤ 57 ∨ 97 ≤ c.toNat ∧ c.toNat ≤ 122 ∨ 65 ≤ c.toNat ∧ c.toNat ≤ 90 := by
  rw [digitVal] at h
  split at h
  · exact .inl ‹_›
  split at h
  · exact .inr (.inl ‹_›)
  split at h
  · exact .inr (.inr ‹_›)
  · cases h

theorem isSpace_iff {c : UInt8} : isSpace c = true ↔ c.toNat = 32 ∨ 9 ≤ c.toNat ∧ c.toNat ≤ 13 := by
  rw [isSpace, Bool.or_eq_true, Bool.and_eq_true, beq_iff_eq, decide_eq_true_iff, decide_eq_true_iff,
    UInt8.le_iff_toNat_le, UInt8.le_iff_toNat_le, ← UInt8.toNat_inj]
  exact Iff.rfl

theorem digitVal_facts (c : UInt8) (h : (digitVal c).isSome = true) :
    isSpace c = false ∧ c ≠ 45 ∧ c ≠ 43 := by
  have hrange := digitVal_range h
  have hsigns : ¬(c.toNat = 32 ∨ 9 ≤ c.toNat ∧ c.toNat ≤ 13) ∧ c.toNat ≠ 45 ∧ c.toNat ≠ 43 := by
    omega
  refine ⟨?_, fun heq => hsigns.2.1 (congrArg _ heq), fun heq => hsigns.2.2 (congrArg _ heq)⟩
  rw [← Bool.not_eq_true, isSpace_iff]
  exact hsigns.1

theorem isDigitOf_isSome {base : Nat} {c : UInt8} (h : isDigitOf base c = true) :
    (digitVal c).isSome = true := by
  unfold isDigitOf at h
  cases hd : digitVal c with
  | none => rw [hd] at h; cases h
  | some d => rfl

theorem hexDigit_not_x (c : UInt8) (h : isDigitOf 16 c = true) : tolower c ≠ 120 := by
  intro hx
  obtain rfl | hupper := toNat_of_tolower hx
  · exact absurd h (by decide)
  · have hc : c = 88 := UInt8.toNat_inj.mp (Nat.add_right_cancel hupper)
    exact absurd (hc ▸ h) (by decide)

/-- A number in front of anything that does not go on with it. -/
theorem strtoNum_digits {base : Nat} {s rest : Bytes} (hne : s ≠ [])
    (hs : ∀ c ∈ s, isDigitOf base c = true)
    (hrest : ∀ c, rest.head? = some c → isDigitOf base c = false ∧ tolower c ≠ 120) :
    strtoNum base (s ++ rest) = some ⟨false, digitsVal base s, s.length⟩ := by
  obtain ⟨c, t, rfl⟩ := List.exists_cons_of_ne_nil hne
  obtain ⟨hspace, hminus, hplus⟩ := digitVal_facts c (isDigitOf_isSome (hs c List.mem_cons_self))
  have hblank : (c :: t ++ rest).takeWhile isSpace = [] := by
    rw [List.cons_append, List.takeWhile_cons_of_neg (Bool.eq_false_iff.mp hspace)]
  have hdigits : (c :: t ++ rest).takeWhile (isDigitOf base) = c :: t := by
    rw [List.takeWhile_append_of_pos hs]
    cases rest with
    | nil => simp
    | cons d rest =>
      rw [List.takeWhile_cons_of_neg (Bool.eq_false_iff.mp (hrest d rfl).1), List.append_nil]
  have hsign : signLength (c :: t ++ rest) = 0 := by
    rw [List.cons_append]
    unfold signLength
    split
    · exact absurd (List.cons.inj ‹_›).1 hminus
    · exact absurd (List.cons.inj ‹_›).1 hplus
    · rfl
  -- the octet behind a leading zero is no `x`
  have hlead : leadLength base (c :: t ++ rest) = 0 := by
    unfold leadLength
    split
    · rename_i x d y heq
      rw [if_neg]
      rintro ⟨rfl, hx, -⟩
      cases t with
      | nil =>
        have : rest = x :: d :: y := (List.cons.inj heq).2
        exact (hrest x (this ▸ rfl)).2 hx
      | cons x' t =>
        obtain rfl : x' = x := (List.cons.inj (List.cons.inj heq).2).1
        exact hexDigit_not_x x' (hs x' (by simp)) hx
    · rfl
  have hneg : decide ((c :: t ++ rest).head? = some 45) = false :=
    decide_eq_false fun h => hminus (Option.some.inj h)
  simp only [strtoNum, hblank, List.length_nil, List.drop_zero, hsign, hlead, hdigits, hneg]
  rw [if_neg hne, Nat.zero_add]

/-! ### Numbers of the protocol

Sizes of chunks and declared lengths. -/

theorem foldl_digits (base : Nat) {g : UInt8 → Nat} {s : Bytes}
    (h : ∀ c ∈ s, (digitVal c).getD 0 = g c) (v : Nat) :
    s.foldl (fun v c => v * base + (digitVal c).getD 0) v = s.foldl (fun v c => v * base + g c) v := by
  induction s generalizing v with
  | nil => rfl
  | cons c s ih =>
    rw [List.foldl_cons, List.foldl_cons, h c List.mem_cons_self,
      ih fun x hx => h x (List.mem_cons_of_mem _ hx)]

theorem isDigit_facts (c : UInt8) (h : isDigit c = true) :
    isDigitOf 10 c = true ∧ (digitVal c).getD 0 = c.toNat - 48 ∧ isWord c = true := by
  have hrange := isDigit_iff.mp h
  have hval : digitVal c = some (c.toNat - 48) := if_pos hrange
  have hne : ∀ d : UInt8, d.toNat < 48 → c ≠ d := fun d hd heq => by
    rw [heq] at hrange
    omega
  refine ⟨?_, ?_, ?_⟩
  · rw [isDigitOf, hval]
    exact decide_eq_true (by omega)
  · rw [hval]
    rfl
  · simp [isWord, isOws, hne 0 (by decide), hne CR (by decide), hne LF (by decide), hne SP (by decide),
      hne HTAB (by decide)]

theorem hexval_facts (c : UInt8) (h : (hexval c).isSome = true) :
    isDigitOf 16 c = true ∧ (digitVal c).getD 0 = (hexval c).getD 0 ∧ c ≠ LF ∧ c ≠ CR := by
  have hrange := hexval_range h
  have hval : digitVal c = hexval c ∧ isDigitOf 16 c = true := by
    obtain hc | hc | hc := hrange
    · have hd : digitVal c = some (c.toNat - 48) := if_pos hc
      have hh : hexval c = some (c.toNat - 48) := if_pos hc
      rw [hh, isDigitOf, hd]
      exact ⟨rfl, decide_eq_true (by omega)⟩
    · have h09 : ¬(48 ≤ c.toNat ∧ c.toNat ≤ 57) := by omega
      have hd : digitVal c = some (c.toNat - 97 + 10) := (if_neg h09).trans (if_pos ⟨hc.1, hc.2.trans (by decide)⟩)
      have hh : hexval c = some (c.toNat - 97 + 10) := (if_neg h09).trans (if_pos hc)
      rw [hh, isDigitOf, hd]
      exact ⟨rfl, decide_eq_true (by omega)⟩
    · have h09 : ¬(48 ≤ c.toNat ∧ c.toNat ≤ 57) := by omega
      have haz : ∀ n : Nat, ¬(97 ≤ c.toNat ∧ c.toNat ≤ n) := by omega
      have hd : digitVal c = some (c.toNat - 65 + 10) :=
        (if_neg h09).trans ((if_neg (haz 122)).trans (if_pos ⟨hc.1, hc.2.trans (by decide)⟩))
      have hh : hexval c = some (c.toNat - 65 + 10) := (if_neg h09).trans ((if_neg (haz 102)).trans (if_pos hc))
      rw [hh, isDigitOf, hd]
      exact ⟨rfl, decide_eq_true (by omega)⟩
  have hne : ∀ d : UInt8, d.toNat < 48 → c ≠ d := fun d hd heq => by
    rw [heq] at hrange
    omega
  exact ⟨hval.2, by rw [hval.1], hne LF (by decide), hne CR (by decide)⟩

/-- `atoll` of a decimal number with whitespace behind it; what does not fit becomes the largest. -/
theorem atoll_digits {v post : Bytes} (hne : v ≠ []) (hv : ∀ c ∈ v, isDigit c = true)
    (hpost : ∀ c ∈ post, isOws c = true) :
    atoll (v ++ post) = min (decVal v : Int) (2 ^ 63 - 1) := by
  have hows : ∀ c : UInt8, isOws c = true → isDigitOf 10 c = false ∧ tolower c ≠ 120 := by
    intro c hc
    rw [isOws, Bool.or_eq_true, beq_iff_eq, beq_iff_eq] at hc
    obtain rfl | rfl := hc
    · decide
    · decide
  have hval : digitsVal 10 v = decVal v :=
    foldl_digits 10 (fun c hc => (isDigit_facts c (hv c hc)).2.1) 0
  have hnum : strtoNum 10 (v ++ post) = some ⟨false, digitsVal 10 v, v.length⟩ :=
    strtoNum_digits hne (fun c hc => (isDigit_facts c (hv c hc)).1)
      fun c hc => hows c (hpost c (List.mem_of_head? hc))
  rw [atoll, hnum, hval]
  rfl

/-- `atoi` of a short decimal number. -/
theorem atoi_digits {v : Bytes} (hne : v ≠ []) (hv : ∀ c ∈ v, isDigit c = true)
    (hlt : decVal v < 2 ^ 31) : atoi v = decVal v := by
  have hpost : ∀ c ∈ ([] : Bytes), isOws c = true := fun c hc => absurd hc List.not_mem_nil
  have h : atoll (v ++ []) = decVal v := by
    rw [atoll_digits hne hv hpost]
    omega
  rw [List.append_nil] at h
  rw [atoi, h, Int.bmod_eq_of_le]
  · omega
  · omega

/-- The size line of a chunk in front of anything; what does not fit becomes the largest. -/
theorem strtoull16_sizeLine {size ext : Bytes} {n : Nat} (h : LaxSizeLine size ext n) (rest : Bytes) :
    strtoull16 (size ++ ext ++ crlf ++ rest) = some (min n ULLONG_MAX, size.length) := by
  have hval : digitsVal 16 size = n := by
    rw [← h.val]
    exact foldl_digits 16 (fun c hc => (hexval_facts c (h.hex c hc)).2.1) 0
  have hstop : ∀ c, (ext ++ crlf ++ rest).head? = some c →
      isDigitOf 16 c = false ∧ tolower c ≠ 120 := by
    intro c hc
    rcases h.extOk with hext | hext | hext | hext
    · rw [hext] at hc
      cases hc
      decide
    all_goals
      cases ext with
      | nil => cases hext
      | cons e ext =>
        cases hext
        cases hc
        decide
  have hnum : strtoNum 16 (size ++ (ext ++ crlf ++ rest)) = some ⟨false, digitsVal 16 size, size.length⟩ :=
    strtoNum_digits h.ne (fun c hc => (hexval_facts c (h.hex c hc)).1) hstop
  rw [List.append_assoc, List.append_assoc, ← List.append_assoc ext, strtoull16, hnum]
  simp only [Option.map_some, hval]
  by_cases hn : n > ULLONG_MAX
  · rw [if_pos hn, min_eq_right hn.le]
  · rw [if_neg hn, min_eq_left (not_lt.mp hn)]
    rfl

theorem LaxSizeLine.lfFree {size ext : Bytes} {n : Nat} (h : LaxSizeLine size ext n) :
    LF ∉ size ++ ext ++ [CR] :=
  List.not_mem_append
    (List.not_mem_append (fun hm => (hexval_facts LF (h.hex LF hm)).2.2.1 rfl) h.lf) (by decide)

theorem memchr_sizeLine {size ext : Bytes} {n : Nat} (h : LaxSizeLine size ext n) (rest : Bytes) :
    memchr LF (size ++ ext ++ crlf ++ rest) = some ((size ++ ext).length + 1) := by
  have hsplit : size ++ ext ++ crlf ++ rest = (size ++ ext ++ [CR]) ++ LF :: rest := by simp
  rw [hsplit, memchr_append h.lfFree, List.length_append]
  rfl

end Zcio.Http
