import Zcio.H1.Reader
import Zcio.Http.Request
import Zcio.Lib.Http1

/-!
# Zcio.Http.Injection

What a reader of HTTP/1.1 makes of the octets of `build_request`. The method and the caller's
headers are checked for control characters; the path and the host of the URL, which a redirect or
the caller of a session gives, are not, and a header may repeat a field that the request has.
-/

namespace Zcio.Http

open Lib.Http1 (HeaderField Request readRequest requestHead writtenFields named bodyLength isToken isTarget isFieldChar
  lowerName hostName contentLengthName transferEncodingName)

/-! ### The request as it is meant

The fields a caller means to send, and the reader of RFC 9112 that would find them. -/

def HttpHeader.field (h : HttpHeader) : HeaderField := ⟨h.key.getD [], h.value.getD []⟩

/-- The headers of the caller that are kept. -/
def keptFields (a : HttpArgs) : List HeaderField := (a.headers.filter headerKept).map HttpHeader.field

/-- `Connection: close`, unless the caller has a `Connection` header. -/
def connectionFields (a : HttpArgs) : List HeaderField :=
  if (a.headers.filter headerKept).any fun h => h.key.any fun k => ciEq k (str "connection") then []
  else [⟨str "Connection", str "close"⟩]

/-- The fields of a request, in order. -/
def requestFields (a : HttpArgs) (u : ZcioUrl) : List HeaderField :=
  ⟨str "Host", u.host⟩ :: (keptFields a ++ connectionFields a ++ [⟨str "Content-Length", decimal a.bodyLen⟩])

/-- The body that the caller gives. -/
def givenBody (a : HttpArgs) : Bytes := if a.bodyLen = 0 then [] else a.body.getD []

/-- `req` is read as one request with this method, target, fields and body, and nothing is left. One
field is `Host`, one the length of the body, and none a transfer coding. -/
structure ReadsAs (a : HttpArgs) (u : ZcioUrl) (req : Bytes) : Prop where
  read : readRequest req =
    some (⟨a.method.getD [], u.path, (requestFields a u).map HeaderField.trimmed, givenBody a⟩, [])
  host : named hostName (requestFields a u) = [⟨str "Host", u.host⟩]
  length : named contentLengthName (requestFields a u) = [⟨str "Content-Length", decimal (givenBody a).length⟩]
  coding : named transferEncodingName (requestFields a u) = []

/-- The names of the fields that a caller must not give. -/
def framingNames : List Bytes := [hostName, contentLengthName, transferEncodingName]

/-- The arguments keep to their places: the method and the keys are tokens, the target has the
characters of one and the host no control characters; no key is a framing name, and the body has the
length that is given, which fits into the buffer of the line. -/
structure Contained (a : HttpArgs) (u : ZcioUrl) : Prop where
  method : isToken (a.method.getD []) = true
  target : isTarget u.path = true
  host : u.host.all isFieldChar = true
  keys : ∀ h ∈ a.headers, headerKept h = true →
    isToken (h.key.getD []) = true ∧ lowerName (h.key.getD []) ∉ framingNames
  body : (givenBody a).length = a.bodyLen
  short : a.bodyLen < 10 ^ 11

/-! ### The octets

The octets of a request as lines, whatever the arguments. -/

theorem writtenFields_append (fs gs : List HeaderField) : writtenFields (fs ++ gs) = writtenFields fs ++ writtenFields gs := by
  rw [writtenFields, List.map_append, List.flatten_append]
  rfl

theorem writtenFields_cons (f : HeaderField) (fs : List HeaderField) :
    writtenFields (f :: fs) = f.name ++ str ": " ++ f.value ++ crlf ++ writtenFields fs := by
  have hsep : str ": " = [58, 32] := by decide
  rw [writtenFields, List.map_cons, List.flatten_cons, ← writtenFields, HeaderField.line, hsep]
  simp only [List.append_assoc, List.cons_append, List.nil_append]

theorem writtenFields_kept (hs : List HttpHeader) : (hs.map headerText).flatten = writtenFields (hs.map HttpHeader.field) := by
  induction hs with
  | nil => rfl
  | cons h hs ih =>
    rw [List.map_cons, List.flatten_cons, List.map_cons, writtenFields_cons, ih]
    rfl

/-- The head up to the length. -/
def headFront (a : HttpArgs) (u : ZcioUrl) : Bytes :=
  a.method.getD [] ++ 32 :: (u.path ++ 32 :: Lib.Http1.version) ++
    crlf ++ writtenFields (⟨str "Host", u.host⟩ :: (keptFields a ++ connectionFields a))

theorem writtenFields_connection (a : HttpArgs) :
    (if (a.headers.filter headerKept).any fun h => h.key.any fun k => ciEq k (str "connection") then []
      else str "Connection: close\r\n") = writtenFields (connectionFields a) := by
  rw [connectionFields]
  split
  · rfl
  · decide

theorem buildRequest_eq {a : HttpArgs} {u : ZcioUrl} {req : Bytes} (h : buildRequest a u = .ok req) :
    req = headFront a u ++ snprintf 32 (str "Content-Length: " ++ decimal a.bodyLen ++ crlf ++ crlf) ++
      givenBody a := by
  have hsep : str " " = [32] := by decide
  have hversion : str " HTTP/1.1\r\nHost: " = 32 :: (Lib.Http1.version ++ (crlf ++ (str "Host" ++ str ": "))) := by
    decide
  rw [buildRequest] at h
  split at h
  · cases h
  · cases h
    rw [writtenFields_kept, writtenFields_connection, headFront, writtenFields_cons, writtenFields_append, hsep,
      hversion]
    simp only [keptFields, givenBody, List.append_assoc, List.cons_append, List.nil_append]

/-- With the whole `Content-Length` line it is the head of the request that is meant. -/
theorem headFront_append (a : HttpArgs) (u : ZcioUrl) :
    headFront a u ++ (str "Content-Length: " ++ decimal a.bodyLen ++ crlf ++ crlf) =
      requestHead (a.method.getD []) u.path (requestFields a u) := by
  have hname : str "Content-Length: " = str "Content-Length" ++ str ": " := by decide
  have hfields : writtenFields (requestFields a u) =
      writtenFields (⟨str "Host", u.host⟩ :: (keptFields a ++ connectionFields a)) ++
        (str "Content-Length: " ++ decimal a.bodyLen ++ crlf) := by
    rw [requestFields, ← List.cons_append, writtenFields_append, writtenFields_cons ⟨_, decimal a.bodyLen⟩, hname]
    exact congrArg _ (List.append_nil _)
  rw [requestHead, hfields, headFront]
  simp only [List.append_assoc, List.cons_append]
  rfl

/-! ### Names

Which of the caller's fields are dropped because the client writes them itself. -/

theorem named_single {name key : Bytes} (h : lowerName key = name) (value : Bytes) :
    named name [⟨key, value⟩] = [⟨key, value⟩] := List.filter_cons_of_pos (beq_iff_eq.mpr h)

theorem named_other {name key : Bytes} (h : lowerName key ≠ name) (value : Bytes) :
    named name [⟨key, value⟩] = [] := List.filter_cons_of_neg (by rwa [beq_iff_eq])

theorem named_append (name : Bytes) (fs gs : List HeaderField) : named name (fs ++ gs) = named name fs ++ named name gs := by
  rw [named, List.filter_append, named, named]

theorem named_connection {name : Bytes} (h : name ∈ framingNames) (a : HttpArgs) :
    named name (connectionFields a) = [] := by
  have hnone : ∀ name ∈ framingNames, named name [⟨str "Connection", str "close"⟩] = [] := by decide
  rw [connectionFields]
  split
  · rfl
  · exact hnone name h

/-- The fields of a framing name: the one that the request has, and the caller's. -/
theorem named_requestFields {name : Bytes} (h : name ∈ framingNames) (a : HttpArgs) (u : ZcioUrl) :
    named name (requestFields a u) =
      named name [⟨str "Host", u.host⟩] ++ named name (keptFields a) ++
        named name [⟨str "Content-Length", decimal a.bodyLen⟩] := by
  rw [requestFields, ← List.singleton_append, named_append, named_append, named_append, named_connection h]
  simp only [List.append_assoc, List.nil_append]

theorem named_host (host : Bytes) :
    named hostName [⟨str "Host", host⟩] = [⟨str "Host", host⟩] ∧
      named contentLengthName [⟨str "Host", host⟩] = [] ∧ named transferEncodingName [⟨str "Host", host⟩] = [] :=
  ⟨named_single (by decide) host, named_other (by decide) host, named_other (by decide) host⟩

theorem named_length (value : Bytes) :
    named hostName [⟨str "Content-Length", value⟩] = [] ∧
      named contentLengthName [⟨str "Content-Length", value⟩] = [⟨str "Content-Length", value⟩] ∧
      named transferEncodingName [⟨str "Content-Length", value⟩] = [] :=
  ⟨named_other (by decide) value, named_single (by decide) value,
    named_other (by decide) value⟩

/-- No header that is kept has a framing name. -/
theorem named_kept_iff {a : HttpArgs} :
    (∀ name ∈ framingNames, named name (keptFields a) = []) ↔
      ∀ h ∈ a.headers, headerKept h = true → lowerName (h.key.getD []) ∉ framingNames := by
  constructor
  · intro hnone h hh hkept hname
    have hmem : h.field ∈ named (lowerName (h.key.getD [])) (keptFields a) := by
      rw [named, List.mem_filter]
      exact ⟨List.mem_map_of_mem (List.mem_filter.mpr ⟨hh, hkept⟩), beq_self_eq_true _⟩
    rw [hnone _ hname] at hmem
    exact List.not_mem_nil hmem
  · intro hkeys name hname
    rw [named, List.filter_eq_nil_iff]
    intro f hf heq
    obtain ⟨h, hh, rfl⟩ := List.mem_map.mp hf
    obtain ⟨hmem, hkept⟩ := List.mem_filter.mp hh
    refine hkeys h hmem hkept ?_
    have hlower : lowerName (h.key.getD []) = name := beq_iff_eq.mp heq
    rwa [hlower]

/-! ### Contained arguments are read as they are meant -/

theorem isFieldChar_of_headerTokenOk {s : CArg} (h : headerTokenOk s = true) : (s.getD []).all isFieldChar = true := by
  have hall : ∀ c : UInt8, (!(c < 32 || c == 127)) = true → isFieldChar c = true := by
    intro c hc
    rw [Bool.not_eq_true', Bool.or_eq_false_iff, decide_eq_false_iff_not, UInt8.not_lt] at hc
    rw [isFieldChar, decide_eq_true hc.1, bne, hc.2]
    rfl
  cases s with
  | none => cases h
  | some t =>
    rw [Option.getD_some, List.all_eq_true]
    exact fun c hc => hall c (List.all_eq_true.mp h c hc)

theorem kept_value {h : HttpHeader} (hkept : headerKept h = true) : h.field.value.all isFieldChar = true := by
  rw [headerKept, Bool.and_eq_true, Bool.or_eq_true] at hkept
  obtain hnone | hvalue := hkept.2
  · rw [HttpHeader.field, Option.isNone_iff_eq_none.mp hnone]
    rfl
  · exact isFieldChar_of_headerTokenOk hvalue

theorem decimal_chars (n : Nat) : (decimal n).all isFieldChar = true ∧ (decimal n).all Lib.Uri.isDigit = true ∧
    ∀ c ∈ decimal n, Lib.Http1.isOws c = false := by
  have hall : ∀ c : UInt8, isDigit c = true →
      isFieldChar c = true ∧ Lib.Uri.isDigit c = true ∧ Lib.Http1.isOws c = false := by
    intro c hc
    have hrange := isDigit_iff.mp hc
    have hne : ∀ d : UInt8, 57 < d.toNat ∨ d.toNat < 48 → c ≠ d := fun d hd heq => by
      rw [heq] at hrange
      omega
    have h32 : 32 ≤ c := UInt8.le_iff_toNat_le.mpr ((by decide : 32 ≤ 48).trans hrange.1)
    refine ⟨?_, hc, ?_⟩
    · simp [isFieldChar, h32, hne 127 (by decide)]
    · simp [Lib.Http1.isOws, hne 32 (by decide), hne 9 (by decide)]
  refine ⟨List.all_eq_true.mpr fun c hc => ?_, List.all_eq_true.mpr fun c hc => ?_, fun c hc => ?_⟩
  · exact (hall c (isDigit_of_mem_decimal hc)).1
  · exact (hall c (isDigit_of_mem_decimal hc)).2.1
  · exact (hall c (isDigit_of_mem_decimal hc)).2.2

theorem requestFields_ok_iff {a : HttpArgs} {u : ZcioUrl} :
    (∀ f ∈ requestFields a u, f.Ok) ↔ u.host.all isFieldChar = true ∧
      ∀ h ∈ a.headers, headerKept h = true → isToken (h.key.getD []) = true := by
  have hconst : isToken (str "Host") = true ∧ isToken (str "Content-Length") = true ∧
      isToken (str "Connection") = true ∧ (str "close").all isFieldChar = true := by decide
  constructor
  · intro h
    refine ⟨(h _ List.mem_cons_self).value, fun h' hh hkept => ?_⟩
    refine (h h'.field ?_).name
    apply List.mem_cons_of_mem
    apply List.mem_append_left
    apply List.mem_append_left
    exact List.mem_map_of_mem (List.mem_filter.mpr ⟨hh, hkept⟩)
  · rintro ⟨hhost, hkeys⟩ f hf
    rw [requestFields, List.mem_cons, List.mem_append, List.mem_append] at hf
    obtain rfl | (hf | hf) | hf := hf
    · exact ⟨hconst.1, hhost⟩
    · obtain ⟨h, hh, rfl⟩ := List.mem_map.mp hf
      obtain ⟨hmem, hkept⟩ := List.mem_filter.mp hh
      exact ⟨hkeys h hmem hkept, kept_value hkept⟩
    · rw [connectionFields] at hf
      split at hf
      · exact absurd hf List.not_mem_nil
      · rw [List.mem_singleton.mp hf]
        exact ⟨hconst.2.2.1, hconst.2.2.2⟩
    · rw [List.mem_singleton.mp hf]
      exact ⟨hconst.2.1, (decimal_chars a.bodyLen).1⟩

theorem bodyLength_requestFields {a : HttpArgs} {u : ZcioUrl}
    (hlength : named contentLengthName (requestFields a u) = [⟨str "Content-Length", decimal a.bodyLen⟩])
    (hcoding : named transferEncodingName (requestFields a u) = []) :
    bodyLength ((requestFields a u).map HeaderField.trimmed) = some a.bodyLen := by
  obtain ⟨-, hdigits, hows⟩ := decimal_chars a.bodyLen
  have hne : (decimal a.bodyLen != []) = true := bne_iff_ne.mpr (decimal_ne_nil a.bodyLen)
  have hvalue : Lib.Uri.digitsValue (decimal a.bodyLen) = a.bodyLen := decimalValue_decimal a.bodyLen
  rw [bodyLength, Lib.Http1.named_trimmed, Lib.Http1.named_trimmed, hlength, hcoding, List.map_nil,
    if_neg (by decide), List.map_singleton, List.map_singleton, HeaderField.trimmed, Lib.Http1.trim_eq_self hows]
  dsimp only
  rw [hne, hdigits, hvalue]
  rfl

/-- The `Content-Length` line is not cut off. -/
theorem snprintf_short {n : Nat} (h : n < 10 ^ 11) :
    snprintf 32 (str "Content-Length: " ++ decimal n ++ crlf ++ crlf) =
      str "Content-Length: " ++ decimal n ++ crlf ++ crlf := by
  have hname : (str "Content-Length: ").length = 16 := by decide
  have hdigits := (length_decimal_le_iff (by decide)).mpr h
  have hcrlf : crlf.length = 2 := rfl
  rw [snprintf, List.take_of_length_le]
  simp only [List.length_append, hname, hcrlf]
  omega

theorem readsAs_of_contained {a : HttpArgs} {u : ZcioUrl} {req : Bytes} (hreq : buildRequest a u = .ok req)
    (h : Contained a u) : ReadsAs a u req := by
  have hkept := named_kept_iff.mpr fun h' hh hk => (h.keys h' hh hk).2
  have hnames : hostName ∈ framingNames ∧ contentLengthName ∈ framingNames ∧ transferEncodingName ∈ framingNames := by
    decide
  have hhost : named hostName (requestFields a u) = [⟨str "Host", u.host⟩] := by
    rw [named_requestFields hnames.1, hkept _ hnames.1, (named_host _).1, (named_length _).1]
    rfl
  have hlength : named contentLengthName (requestFields a u) = [⟨str "Content-Length", decimal a.bodyLen⟩] := by
    rw [named_requestFields hnames.2.1, hkept _ hnames.2.1, (named_host _).2.1, (named_length _).2.1]
    rfl
  have hcoding : named transferEncodingName (requestFields a u) = [] := by
    rw [named_requestFields hnames.2.2, hkept _ hnames.2.2, (named_host _).2.2, (named_length _).2.2]
    rfl
  have hbody := bodyLength_requestFields hlength hcoding
  rw [← h.body] at hbody
  have hread := Lib.Http1.readRequest_written h.method h.target
    (requestFields_ok_iff.mpr ⟨h.host, fun h' hh hk => (h.keys h' hh hk).1⟩) (by rw [hhost]; rfl) hbody []
  refine ⟨?_, hhost, ?_, hcoding⟩
  · rw [buildRequest_eq hreq, snprintf_short h.short, headFront_append]
    rwa [List.append_nil] at hread
  · rwa [h.body]

/-! ### What is read as it is meant is contained -/

theorem field_ok_of_trimmed {f : HeaderField} (h : f.trimmed.Ok) : f.Ok := ⟨h.name, Lib.Http1.all_trim.mp h.value⟩

/-- A longer line loses the end of the empty line behind it: where that should be is a digit. -/
theorem snprintf_long {n : Nat} (h : 10 ^ 11 ≤ n) :
    ∃ front d tail, snprintf 32 (str "Content-Length: " ++ decimal n ++ crlf ++ crlf) = front ++ [d] ++ tail ∧
      d ≠ 13 ∧ tail.length = 3 := by
  have hname : (str "Content-Length: ").length = 16 := by decide
  have hlen : 11 < (decimal n).length :=
    Nat.lt_of_not_le fun hle => Nat.not_lt.mpr h ((length_decimal_le_iff (by decide)).mp hle)
  obtain ⟨ds, d, rest, hdecimal, hds⟩ : ∃ ds d rest, decimal n = ds ++ d :: rest ∧ ds.length = 11 := by
    refine ⟨(decimal n).take 11, (decimal n)[11], (decimal n).drop 12, ?_, List.length_take_of_le (Nat.le_of_lt hlen)⟩
    rw [← List.drop_eq_getElem_cons hlen, List.take_append_drop]
  have hdigit : isDigit d = true := by
    apply isDigit_of_mem_decimal (n := n)
    rw [hdecimal]
    exact List.mem_append_right ds List.mem_cons_self
  refine ⟨str "Content-Length: " ++ ds, d, (rest ++ crlf ++ crlf).take 3, ?_, ?_, ?_⟩
  · have hfront : (str "Content-Length: " ++ ds ++ [d]).length = 28 := by
      rw [List.length_append, List.length_append, hname, hds]
      rfl
    have hsplit : str "Content-Length: " ++ decimal n ++ crlf ++ crlf =
        str "Content-Length: " ++ ds ++ [d] ++ (rest ++ crlf ++ crlf) := by
      rw [hdecimal]
      simp only [List.append_assoc, List.cons_append, List.nil_append]
    rw [snprintf, hsplit, List.take_append, hfront, List.take_of_length_le (by rw [hfront]; decide)]
  · rintro rfl
    cases hdigit
  · have hcrlf : crlf.length = 2 := rfl
    rw [List.length_take, List.length_append, List.length_append, hcrlf]
    omega

theorem short_of_readsAs {a : HttpArgs} {u : ZcioUrl} {req : Bytes} (hreq : buildRequest a u = .ok req)
    (h : ReadsAs a u req) : a.bodyLen < 10 ^ 11 := by
  by_contra hlong
  obtain ⟨front, d, tail, hline, hd, htail⟩ := snprintf_long (Nat.not_lt.mp hlong)
  obtain ⟨-, head, hhead⟩ := Lib.Http1.readRequest_sound h.read
  -- the head ends with an empty line, and is what stands in front of the body
  rw [buildRequest_eq hreq, hline, List.append_nil] at hhead
  have hsame := List.append_cancel_right hhead
  have hcut : (headFront a u ++ front ++ [d]) ++ tail = (head ++ [13]) ++ [10, 13, 10] := by
    simpa only [List.append_assoc, List.cons_append, List.nil_append] using hsame
  obtain ⟨hend, -⟩ := List.append_inj' hcut (by rw [htail]; rfl)
  exact hd (List.cons.inj (List.append_inj' hend rfl).2).1

theorem contained_of_readsAs {a : HttpArgs} {u : ZcioUrl} {req : Bytes} (hreq : buildRequest a u = .ok req)
    (h : ReadsAs a u req) : Contained a u := by
  obtain ⟨hok, -⟩ := Lib.Http1.readRequest_sound h.read
  obtain ⟨hhost, htokens⟩ := requestFields_ok_iff.mp fun f hf =>
    field_ok_of_trimmed (hok.fields f.trimmed (List.mem_map_of_mem hf))
  -- each framing name is taken by the request itself
  have hkept : ∀ name ∈ framingNames, named name (keptFields a) = [] := by
    intro name hname
    have hparts := named_requestFields hname a u
    rw [framingNames, List.mem_cons, List.mem_cons, List.mem_singleton] at hname
    apply List.eq_nil_of_length_eq_zero
    have hlen := congrArg List.length hparts
    obtain rfl | rfl | rfl := hname
    · rw [h.host, (named_host _).1, (named_length _).1] at hlen
      simpa using hlen
    · rw [h.length, (named_host _).2.1, (named_length _).2.1] at hlen
      simpa using hlen
    · rw [h.coding, (named_host _).2.2, (named_length _).2.2] at hlen
      simpa using hlen.symm
  have hbody : (givenBody a).length = a.bodyLen := by
    have hname : contentLengthName ∈ framingNames := by decide
    have hparts := named_requestFields hname a u
    rw [hkept _ hname, h.length, (named_host _).2.1, (named_length _).2.1] at hparts
    have hdecimal : decimal (givenBody a).length = decimal a.bodyLen := (HeaderField.mk.inj (List.cons.inj hparts).1).2
    rw [← decimalValue_decimal (givenBody a).length, hdecimal, decimalValue_decimal]
  exact ⟨hok.method, hok.target, hhost, fun h' hh hk => ⟨htokens h' hh hk, named_kept_iff.mp hkept h' hh hk⟩, hbody,
    short_of_readsAs hreq h⟩

/-- **Requests are read as they are meant** exactly if their arguments keep to their places, whatever
URL was parsed, and with the path of any call of a session. -/
theorem buildRequest_readsAs_iff {a : HttpArgs} {u : ZcioUrl} {req : Bytes} (h : buildRequest a u = .ok req) :
    ReadsAs a u req ↔ Contained a u :=
  ⟨contained_of_readsAs h, readsAs_of_contained h⟩

/-- A request with headers and a body. -/
theorem buildRequest_readsAs_sample :
    ∃ u req, urlParse (some (str "http://h:81/a?b")) = .ok u ∧
      buildRequest ⟨some (str "PUT"), [⟨some (str "Accept"), some (str " */*")⟩], some (str "xy"), 2⟩ u = .ok req ∧
      ReadsAs ⟨some (str "PUT"), [⟨some (str "Accept"), some (str " */*")⟩], some (str "xy"), 2⟩ u req := by
  refine ⟨_, _, rfl, rfl, (buildRequest_readsAs_iff rfl).mpr ⟨?_, ?_, ?_, ?_, ?_, ?_⟩⟩
  · decide
  · decide
  · decide
  · decide
  · decide
  · decide

/-- The path of a URL can end the request line: a reader takes another target, and a field that no
header stands for. -/
theorem buildRequest_injected :
    ∃ u req, urlParse (some (str "http://h/x HTTP/1.1\r\nX-Evil: 1\r\nY:")) = .ok u ∧
      buildRequest ⟨some (str "GET"), [], none, 0⟩ u = .ok req ∧
      (readRequest req).map (fun r => (r.1.target, r.1.fields.take 2)) =
        some (str "/x", [⟨str "X-Evil", str "1"⟩, ⟨str "Y", str "HTTP/1.1"⟩]) ∧
      ¬ReadsAs ⟨some (str "GET"), [], none, 0⟩ u req := by
  refine ⟨_, _, rfl, rfl, ?_, ?_⟩
  · decide
  · intro h
    have htarget := (contained_of_readsAs rfl h).target
    exact absurd htarget (by decide)

end Zcio.Http
