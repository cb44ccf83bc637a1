import Zcio.H1.Framing
import Zcio.H3.Heads
import Zcio.Server.Bodies

/-!
# Zcio.Server.Logical

One request, three ways of sending it. A `LogicalRequest` is what a client has in mind, and `Delivered`
says that a request handed to the handler was sent for it: as an HTTP/1.1 message, or in a field section
and DATA frames that are read off the octets received, by RFC 7541 with the peer's table and by RFC 9204
with the static table of the RFC (`Zcio.H2.Heads`, `Zcio.H3.Heads`).

The proof has one half for each side of the wire. `Delivered.conveys` takes what the parsers have in
common from the section: the method, the target, the authority in its place, the body, and the regular
fields in order, which over HTTP/3 are those of the section unless a line refers to a row of the static
table that the code has wrong. `Conveys.same_iff` compares two requests received so: everything but the
authority and these rows agrees. HTTP/1.1 cuts the authority behind the last `@`, HTTP/2 behind the first
and only in `:authority`, HTTP/3 takes `:authority` as it is and never looks at Host.
-/

namespace Zcio

/-! ### Userinfo

The authority behind its last at sign. -/

theorem takeWhile_stop {α : Type} {p : α → Bool} {x : α} (hx : p x = false) (l r : List α) :
    (l ++ x :: r).takeWhile p = l.takeWhile p := by
  induction l with
  | nil => rw [List.nil_append, List.takeWhile_cons, hx]; rfl
  | cons a l ih => rw [List.cons_append, List.takeWhile_cons, List.takeWhile_cons, ih]

theorem afterLast_append (c : UInt8) (u b : Bytes) : afterLast c (u ++ c :: b) = afterLast c b := by
  unfold afterLast List.rtakeWhile
  rw [List.reverse_append, List.reverse_cons, List.append_assoc, List.singleton_append,
    takeWhile_stop (by simp)]

theorem afterLast_eq_self {c : UInt8} {s : Bytes} : afterLast c s = s ↔ c ∉ s := by
  unfold afterLast
  rw [List.rtakeWhile_eq_self_iff]
  constructor
  · intro h hc
    simpa using h c hc
  · intro h x hx
    have hne : x ≠ c := fun he => h (he ▸ hx)
    simpa using hne

/-- Cutting behind the last and behind the first is the same with at most one. -/
theorem afterLast_eq_afterFirst {c : UInt8} {s : Bytes} :
    afterLast c s = afterFirst c s ↔ s.count c ≤ 1 := by
  unfold afterFirst
  cases h : memchr c s with
  | none =>
    have hno := memchr_eq_none.mp h
    rw [List.count_eq_zero.mpr hno]
    exact ⟨fun _ => Nat.zero_le 1, fun _ => afterLast_eq_self.mpr hno⟩
  | some i =>
    obtain ⟨u, b, rfl, rfl, hno⟩ := memchr_eq_some h
    have hdrop : (u ++ c :: b).drop (u.length + 1) = b := by
      rw [← List.drop_drop, List.drop_left]
      rfl
    dsimp only
    rw [hdrop, afterLast_append, afterLast_eq_self, List.count_append, List.count_eq_zero.mpr hno,
      List.count_cons_self, ← List.count_eq_zero]
    omega

/-! ### Logical requests

A request as its sender means it, and the ways it may come: in a message of HTTP/1.1, in
HEADERS of HTTP/2, in a stream of HTTP/3. -/

/-- A request, whatever it is sent over. `fields` are the regular ones, their names in lower
case. -/
structure LogicalRequest where
  method : Bytes
  target : Bytes
  authority : Bytes
  fields : List (Bytes × Bytes)
  body : Bytes
  deriving Repr, DecidableEq

/-- Where the client puts the authority. -/
inductive AuthorityForm where
  /-- In `:authority`. -/
  | pseudo
  /-- In a Host field only. -/
  | host
  deriving Repr, DecidableEq

/-- A field that is neither Host nor connection-specific. -/
def isRegular (name : Bytes) : Bool := name != str "host" && !isConnSpecific name

/-- The regular fields received. -/
def RawReq.regular (r : RawReq) : List (Bytes × Bytes) :=
  (r.fields.map fun f => (lower f.1, f.2)).filter fun f => isRegular f.1

/-- The regular headers the handler sees. -/
def regularHeaders (req : HttpReq) : List ZhsHdr := req.headers.v.filter fun h => isRegular h.name

/-- The octets received are those of `l`, the authority aside. -/
structure RawReq.Carries (r : RawReq) (l : LogicalRequest) : Prop where
  method : r.method = l.method
  target : r.target = l.target
  fields : r.regular = l.fields

/-- The authority received is `a`, in that place. -/
def AuthorityForm.Holds (r : RawReq) (a : Bytes) : AuthorityForm → Prop
  | .pseudo => r.authority = some a
  | .host => r.authority = none ∧ r.host = some a

/-- The fields of `l`: its pseudo-header fields, the Host field if that is the form, and the regular ones. -/
def LogicalRequest.wire (l : LogicalRequest) (form : AuthorityForm) (scheme : Bytes) : List Field :=
  [⟨str ":method", l.method⟩, ⟨str ":scheme", scheme⟩, ⟨str ":path", l.target⟩] ++
    (match form with
      | .pseudo => [⟨str ":authority", l.authority⟩]
      | .host => [⟨str "host", l.authority⟩]) ++
    l.fields.map fun f => ⟨f.1, f.2⟩

/-- The section of these fields carries `l`. -/
theorem wire_carries {l : LogicalRequest} (form : AuthorityForm) (scheme : Bytes)
    (hfields : ∀ f ∈ l.fields, f.1.head? ≠ some 58 ∧ lower f.1 = f.1 ∧ isRegular f.1 = true) :
    (sectionRaw (l.wire form scheme)).Carries l ∧ form.Holds (sectionRaw (l.wire form scheme)) l.authority := by
  have hregular : ∀ hs : List (Bytes × Bytes), (∀ f ∈ hs, f.1.head? ≠ some 58 ∧ lower f.1 = f.1 ∧ isRegular f.1 = true) →
      ((regularFields (hs.map fun f => ⟨f.1, f.2⟩)).map fun f => (lower f.1, f.2)).filter (fun f => isRegular f.1) = hs := by
    intro hs hall
    induction hs with
    | nil => rfl
    | cons f hs ih =>
      obtain ⟨hpseudo, hlower, hreg⟩ := hall f List.mem_cons_self
      have htail := ih fun f hf => hall f (List.mem_cons_of_mem _ hf)
      have hnot : Field.isPseudo ⟨f.1, f.2⟩ = false :=
        Bool.eq_false_iff.mpr fun h => hpseudo (isPseudo_iff.mp h)
      simp only [regularFields, List.map_cons, List.filter_cons, hnot, Bool.not_false, if_true, hlower, hreg] at htail ⊢
      rw [htail]
  have hnone : fieldValue (str ":authority") (l.fields.map fun f => ⟨f.1, f.2⟩) = none := by
    refine fieldValue_eq_none.mpr fun f hf heq => ?_
    obtain ⟨p, hp, rfl⟩ := List.mem_map.mp hf
    refine (hfields p hp).1 ?_
    rw [show p.1 = str ":authority" from heq]
    decide
  cases form with
  | pseudo => exact ⟨⟨rfl, rfl, hregular _ hfields⟩, rfl⟩
  | host =>
    refine ⟨⟨rfl, rfl, hregular _ hfields⟩, ?_, rfl⟩
    exact hnone

/-- How a request came, with what it depends on there: the section of its stream. -/
inductive Way where
  | h1
  | h2 (form : AuthorityForm) (s : WireSection)
  | h3 (form : AuthorityForm) (payload : Bytes)

/-- The protocol version. -/
def Way.version : Way → Version
  | .h1 => .h1
  | .h2 _ _ => .h2
  | .h3 _ _ => .h3

/-- The requests dispatched, newest first, each with the section and the DATA octets of its stream. -/
def deliveries : List H2Event → List (HttpReq × Option WireSection × Bytes)
  | [] => []
  | .dispatched id req :: h => (req, sectionOn id h, dataOn id h) :: deliveries h
  | _ :: h => deliveries h

/-- **A request handed over that was sent for `l`.** In HTTP/1.1 the message is what its framing made of
it. In HTTP/2 and HTTP/3 the head is in the field section of the stream, and the body in its DATA frames. -/
inductive Delivered (l : LogicalRequest) : ZhsLimits → Way → HttpReq → Prop
  | h1 (g : H1Cfg) (evs : List H1Event) {d : H1Dispatch} :
      d ∈ (H1Run.run g {} evs).c.log → d.req.raw.Carries l →
      d.req.raw.host = some l.authority → d.req.body = l.body →
      Delivered l g.lim .h1 d.req
  | h2 (g : H2Cfg) (form : AuthorityForm) {c : Zh2Conn} {req : HttpReq} {s : WireSection} {fs : List Field} :
      Reachable g c → (req, some s, l.body) ∈ deliveries c.hist → s.fields = some fs →
      (sectionRaw fs).Carries l → form.Holds (sectionRaw fs) l.authority →
      Delivered l g.lim (.h2 form s) req
  | h3 (g : H3Cfg) (id : Nat) (isUni : Bool) (passes : List H3Pass) (form : AuthorityForm) {req : HttpReq}
      {payload : Bytes} {fs : List Field} :
      req ∈ (h3Run g (h3StreamNew id isUni) passes).log →
      h3HeadOf (h3Received g (h3StreamNew id isUni) passes) = some payload →
      Qpack.sectionFields Qpack.STATIC payload = some fs →
      (sectionRaw fs).Carries l → form.Holds (sectionRaw fs) l.authority →
      h3DataOf (h3Received g (h3StreamNew id isUni) passes) = l.body →
      Delivered l g.lim (.h3 form payload) req

/-- The handler is given the same request. -/
structure SameRequest (r r' : HttpReq) : Prop where
  method : r'.method = r.method
  path : r'.path = r.path
  query : r'.query = r.query
  authority : r'.authority = r.authority
  headers : regularHeaders r' = regularHeaders r
  isHead : r'.isHead = r.isHead
  body : r'.body = r.body

/-- No insertion into the table of the connection was lost in front of the request. -/
def Way.InStep (lim : ZhsLimits) : Way → Prop
  | .h2 _ s => s.InStep lim
  | _ => True

/-- No line refers to a row of the static table of QPACK whose value the code has wrong. -/
def Way.RowsKept : Way → Prop
  | .h3 _ payload => ∀ i, Qpack.Line.indexed i ∈ Qpack.lines payload → i ∉ Qpack.misprinted
  | _ => True

/-- What a version makes of the authority `a` it finds in that place. -/
def Way.makesOf (a : Bytes) : Way → Option Bytes
  | .h1 => some (afterLast 64 a)
  | .h2 .pseudo _ => some (afterFirst 64 a)
  | .h2 .host _ => some a
  | .h3 .pseudo _ => some a
  | .h3 .host _ => none

/-- When a version makes of the authority what HTTP/1.1 makes of it. -/
def AuthorityKept (a : Bytes) : Way → Prop
  | .h1 => True
  | .h2 .pseudo _ => a.count 64 ≤ 1
  | .h2 .host _ => 64 ∉ a
  | .h3 .pseudo _ => 64 ∉ a
  | .h3 .host _ => False

theorem makesOf_eq_iff {a : Bytes} {way : Way} : way.makesOf a = some (afterLast 64 a) ↔ AuthorityKept a way := by
  have hsome : ∀ x : Bytes, some x = some (afterLast 64 a) ↔ afterLast 64 a = x := fun x =>
    Option.some_inj.trans eq_comm
  cases way with
  | h1 => exact iff_of_true rfl trivial
  | h2 form s =>
    cases form with
    | pseudo => exact (hsome _).trans afterLast_eq_afterFirst
    | host => exact (hsome _).trans afterLast_eq_self
  | h3 form payload =>
    cases form with
    | pseudo => exact (hsome _).trans afterLast_eq_self
    | host => exact iff_of_false nofun id

/-! ### Regular fields

The fields of a request but the pseudo fields, as the handler sees them. -/

/-- The header that a field is, if it is a regular one. -/
def Field.header (f : Field) : Option ZhsHdr :=
  if !f.isPseudo && isRegular (lower f.name) then some ⟨lower f.name, cstr f.value⟩ else none

theorem filterMap_header (fs : List Field) :
    fs.filterMap Field.header = (sectionRaw fs).regular.map fun f => ⟨f.1, cstr f.2⟩ := by
  induction fs with
  | nil => rfl
  | cons f fs ih =>
    have hcons : (sectionRaw (f :: fs)).regular =
        (if !f.isPseudo && isRegular (lower f.name) then [(lower f.name, f.value)] else []) ++ (sectionRaw fs).regular := by
      change (((regularFields (f :: fs)).map _).filter _ : List (Bytes × Bytes)) =
        _ ++ ((regularFields fs).map _).filter _
      rw [regularFields, regularFields, List.filter_cons]
      cases f.isPseudo with
      | true => rfl
      | false =>
        simp only [Bool.not_false, Bool.true_and, if_true, List.map_cons, List.filter_cons]
        split <;> rfl
    rw [List.filterMap_cons, Field.header, hcons, List.map_append, ← ih]
    by_cases hf : (!f.isPseudo && isRegular (lower f.name)) = true
    · rw [if_pos hf, if_pos hf]
      rfl
    · rw [if_neg hf, if_neg hf]
      rfl

/-- The regular headers are the regular fields, as C strings. -/
theorem regularHeaders_of_assembled {auth : RawReq → Option Bytes} {lim : ZhsLimits} {req : HttpReq}
    (h : Assembled lim auth req) : regularHeaders req = req.raw.regular.map fun f => ⟨f.1, cstr f.2⟩ := by
  unfold regularHeaders RawReq.regular
  rw [h.headers, storedFields, List.filter_map, List.filter_map, List.map_map]
  rfl

/-- A row that is printed wrong is a regular field with another value. -/
theorem header_misprinted {i : Nat} (hi : i ∈ Qpack.misprinted) {f f' : Field} (hf : Qpack.STATIC[i]? = some f)
    (hf' : QPACK_STATIC[i]? = some f') : f.header ≠ f'.header := by
  have hall : ∀ i ∈ Qpack.misprinted, (Qpack.STATIC[i]?).bind Field.header ≠ (QPACK_STATIC[i]?).bind Field.header := by
    decide +kernel
  have hne := hall i hi
  rwa [hf, hf'] at hne

/-- Of two lists that are kept alike, the heads and the rest have to agree. -/
theorem filterMap_cons_eq_iff {α β : Type*} {g : α → Option β} {a a' : α} (hkept : (g a).isSome = (g a').isSome)
    {as as' : List α} :
    (a' :: as').filterMap g = (a :: as).filterMap g ↔ g a' = g a ∧ as'.filterMap g = as.filterMap g := by
  rw [List.filterMap_cons, List.filterMap_cons]
  cases hx : g a with
  | none =>
    rw [hx] at hkept
    rw [Option.isNone_iff_eq_none.mp (Option.isSome_eq_false_iff.mp hkept.symm)]
    simp
  | some x =>
    rw [hx] at hkept
    obtain ⟨x', hx'⟩ := Option.isSome_iff_exists.mp hkept.symm
    rw [hx']
    simp

/-- **The headers of a section are those of the RFC if and only if no line refers to such a row.** -/
theorem headers_rows_iff {ls : List Qpack.Line} {fs fs' : List Field}
    (h : ls.mapM (Qpack.Line.field Qpack.STATIC) = some fs) (h' : ls.mapM (Qpack.Line.field QPACK_STATIC) = some fs') :
    fs'.filterMap Field.header = fs.filterMap Field.header ↔ ∀ i, Qpack.Line.indexed i ∈ ls → i ∉ Qpack.misprinted := by
  induction ls generalizing fs fs' with
  | nil =>
    cases h
    cases h'
    exact iff_of_true rfl nofun
  | cons l ls ih =>
    rw [List.mapM_cons] at h h'
    obtain ⟨f, hf, h⟩ := Option.bind_eq_some_iff.mp h
    obtain ⟨gs, hgs, h⟩ := Option.bind_eq_some_iff.mp h
    obtain ⟨f', hf', h'⟩ := Option.bind_eq_some_iff.mp h'
    obtain ⟨gs', hgs', h'⟩ := Option.bind_eq_some_iff.mp h'
    cases h
    cases h'
    have hkept : f.header.isSome = f'.header.isSome := by
      obtain ⟨hnone, -⟩ | ⟨e, e', he, he', hsame⟩ := sameField_line l
      · rw [hnone] at hf
        cases hf
      · rw [hf] at he
        rw [hf'] at he'
        cases he
        cases he'
        rw [Field.header, Field.header, hsame.isPseudo, hsame.name]
        split <;> rfl
    have hhead : f'.header = f.header ↔ ∀ i, l = .indexed i → i ∉ Qpack.misprinted := by
      constructor
      · rintro heq i rfl hi
        exact header_misprinted hi hf hf' heq.symm
      · intro hl
        have hfield := Qpack.Line.field_eq hl
        rw [hf, hf'] at hfield
        cases hfield
        rfl
    rw [filterMap_cons_eq_iff hkept, hhead, ih hgs hgs']
    constructor
    · rintro ⟨hl, hls⟩ i hi
      rcases List.mem_cons.mp hi with rfl | hi
      · exact hl i rfl
      · exact hls i hi
    · exact fun hall => ⟨fun i hi => hall i (hi ▸ List.mem_cons_self), fun i hi => hall i (List.mem_cons_of_mem _ hi)⟩

variable {l : LogicalRequest} {lim : ZhsLimits} {way : Way} {req r₁ : HttpReq}

/-! ### What is received

The request that a way makes of a logical request. -/

/-- The authority is in its place. -/
def Way.Places (a : Bytes) (r : RawReq) : Way → Prop
  | .h1 => r.host = some a
  | .h2 form _ => form.Holds r a
  | .h3 .pseudo _ => r.authority = some a
  | .h3 .host _ => r.authority = none

/-- **What the octets received say** of a request for `l`. -/
structure Conveys (l : LogicalRequest) (lim : ZhsLimits) (way : Way) (req : HttpReq) : Prop where
  handed : Handed lim way.version req
  method : req.raw.method = l.method
  target : req.raw.target = l.target
  authority : way.Places l.authority req.raw
  fields : regularHeaders req = (l.fields.map fun f => ⟨f.1, cstr f.2⟩) ↔ way.RowsKept
  body : req.body = l.body

/-- A dispatch with its section is one, and its DATA octets are those of its stream. -/
theorem mem_deliveries {h : List H2Event} {req : HttpReq} {ws : Option WireSection} {data : Bytes}
    (hd : (req, ws, data) ∈ deliveries h) : (req, ws) ∈ handedOf h ∧ (req, data) ∈ carried h := by
  induction h with
  | nil => cases hd
  | cons e h ih =>
    cases e with
    | dispatched id r =>
      rcases List.mem_cons.mp hd with heq | hd
      · cases heq
        exact ⟨List.mem_cons_self, List.mem_cons_self⟩
      · exact ⟨List.mem_cons_of_mem _ (ih hd).1, List.mem_cons_of_mem _ (ih hd).2⟩
    | _ => exact ih hd

/-- The fields of a section are those of its lines. -/
theorem fields_of_lines {table fs : List Field} {payload : Bytes} (h : Qpack.sectionFields table payload = some fs) :
    (Qpack.lines payload).mapM (Qpack.Line.field table) = some fs := by
  rw [Qpack.sectionFields] at h
  obtain ⟨bs, hbs, h⟩ := Option.bind_eq_some_iff.mp h
  rw [Qpack.lines, hbs]
  dsimp only at h ⊢
  split at h
  · exact h
  · cases h

theorem Delivered.conveys (h : Delivered l lim way req) (hstep : way.InStep lim) : Conveys l lim way req := by
  cases h with
  | h1 g evs hd hc hhost hbody =>
    have hhanded : Handed g.lim .h1 _ := .h1 g evs hd
    refine ⟨hhanded, hc.method, hc.target, hhost, iff_of_true ?_ trivial, hbody⟩
    rw [regularHeaders_of_assembled hhanded.assembled, hc.fields]
  | @h2 g form c req s fs hreach hd hfields hc hform =>
    obtain ⟨hopened, hdata⟩ := mem_deliveries hd
    have hhanded : Handed g.lim .h2 req := handed_iff_carried.mpr ⟨_, .h2 g hreach hdata⟩
    -- the section is the one that the head was made of
    obtain ⟨s', hs', hraw⟩ := (hreach.run.requests.log _ hopened).raw
    cases hs'
    have hraw := hraw hstep
    rw [hfields, Option.map_some, Option.some_inj] at hraw
    refine ⟨hhanded, hraw ▸ hc.method, hraw ▸ hc.target, hraw ▸ hform, iff_of_true ?_ trivial,
      hreach.run.bodies.log _ hdata⟩
    rw [regularHeaders_of_assembled hhanded.assembled, ← hraw, hc.fields]
  | @h3 g id isUni passes form req payload fs hreq hhead hfields hc hform hdata =>
    have hhanded : Handed g.lim .h3 req := .h3 g id isUni passes hreq
    obtain ⟨payload', fs', hhead', ⟨hfields', -⟩, hraw⟩ := h3Run_heads g id isUni passes req hreq
    rw [hhead] at hhead'
    cases hhead'
    rw [unsigned_of_fields hfields] at hfields'
    obtain ⟨hnone, -⟩ | ⟨gs, gs', hgs, hgs', hsame⟩ := sameFields_sectionFields payload
    · rw [hfields] at hnone
      cases hnone
    rw [hfields] at hgs
    rw [hfields'] at hgs'
    cases hgs
    cases hgs'
    have hvalue : ∀ name : Bytes, name.head? = some 58 → fieldValue name fs' = fieldValue name fs :=
      fun _ hname => fieldValue_same hsame hname
    refine ⟨hhanded, ?_, ?_, ?_, ?_, (h3Run_bodies g id isUni passes _ hreq).trans hdata⟩
    · rw [hraw, ← hc.method]
      exact congrArg (·.getD []) (hvalue (str ":method") (by decide))
    · rw [hraw, ← hc.target]
      exact congrArg (·.getD []) (hvalue (str ":path") (by decide))
    · have hauth : req.raw.authority = (sectionRaw fs).authority := by
        rw [hraw]
        exact hvalue (str ":authority") (by decide)
      cases form with
      | pseudo => exact hauth.trans hform
      | host => exact hauth.trans hform.1
    · -- the same lines, with one table and with the other
      rw [regularHeaders_of_assembled hhanded.assembled, hraw, ← hc.fields, ← filterMap_header, ← filterMap_header]
      exact headers_rows_iff (fields_of_lines hfields) (fields_of_lines hfields')

/-- What HTTP/1.1 makes of the authority, whose octets are clean. -/
theorem Delivered.h1Authority (h : Delivered l lim .h1 req) :
    req.authority = some (afterLast 64 l.authority) ∧ zhsValueOk l.authority = true := by
  cases h with
  | h1 g evs hd _ hhost =>
    have hdisp := (h1Run_requests g evs).log _ hd
    constructor
    · rw [hdisp.assembled.authority, h1Auth, hdisp.host, hhost]
      rfl
    · obtain ⟨f, hf, hfv⟩ := Option.map_eq_some_iff.mp hhost
      rw [← hfv]
      exact hdisp.values f (List.mem_of_find?_eq_some hf)

/-- What any version makes of an authority with clean octets. -/
theorem Conveys.makes (h : Conveys l lim way req) (hclean : zhsValueOk l.authority = true)
    (hway : way ≠ .h1) : req.authority = way.makesOf l.authority := by
  have hcstr := cstr_of_valueOk hclean
  cases way with
  | h1 => exact absurd rfl hway
  | h2 form s =>
    cases form with
    | pseudo =>
      have hauth : req.authority = h2Auth req.raw := h.handed.assembled.authority
      have hplace : req.raw.authority = some l.authority := h.authority
      rw [hauth, h2Auth, hplace]
      dsimp only
      rw [hcstr, Way.makesOf]
    | host =>
      have hauth : req.authority = h2Auth req.raw := h.handed.assembled.authority
      have hplace : req.raw.authority = none ∧ req.raw.host = some l.authority := h.authority
      rw [hauth, h2Auth, hplace.1, hplace.2, Way.makesOf, Option.map_some, hcstr]
  | h3 form payload =>
    cases form with
    | pseudo =>
      have hauth : req.authority = h3Auth req.raw := h.handed.assembled.authority
      have hplace : req.raw.authority = some l.authority := h.authority
      rw [hauth, h3Auth, hplace, Way.makesOf, Option.map_some, hcstr]
    | host =>
      have hauth : req.authority = h3Auth req.raw := h.handed.assembled.authority
      have hplace : req.raw.authority = none := h.authority
      rw [hauth, h3Auth, hplace, Way.makesOf, Option.map_none]

theorem Delivered.authority (h : Delivered l lim way req) (hstep : way.InStep lim)
    (hclean : zhsValueOk l.authority = true) : req.authority = way.makesOf l.authority := by
  by_cases hway : way = .h1
  · subst hway
    exact h.h1Authority.1
  · exact (h.conveys hstep).makes hclean hway

/-- **All agrees but the authority and the rows.** -/
theorem Conveys.same_iff (h₁ : Conveys l lim .h1 r₁) (h : Conveys l lim way req) :
    SameRequest r₁ req ↔ req.authority = r₁.authority ∧ way.RowsKept := by
  have hheaders₁ : regularHeaders r₁ = l.fields.map fun f => ⟨f.1, cstr f.2⟩ := h₁.fields.mpr trivial
  constructor
  · intro hs
    exact ⟨hs.authority, h.fields.mp (hs.headers.trans hheaders₁)⟩
  · rintro ⟨hauth, hrows⟩
    have ha₁ := h₁.handed.assembled
    have ha := h.handed.assembled
    obtain ⟨path₁, hpath₁, hdec₁⟩ := ha₁.target
    obtain ⟨path, hpath, hdec⟩ := ha.target
    rw [h₁.target] at hdec₁
    rw [h.target, hdec₁] at hdec
    injection hdec with hdec
    injection hdec with hpaths hqueries
    refine ⟨?_, ?_, hqueries.symm, hauth, ?_, ?_, h.body.trans h₁.body.symm⟩
    · rw [ha.method, ha₁.method, h.method, h₁.method]
    · rw [hpath, hpath₁, hpaths]
    · rw [hheaders₁, h.fields.mpr hrows]
    · rw [ha.isHead, ha₁.isHead, h.method, h₁.method]

/-! ### HTTP/1.1 messages

A logical request as a message with a Host field. -/

/-- The request a client means by a message. -/
def H1Message.logical (m : H1Message) : LogicalRequest where
  method := m.method
  target := m.target
  authority := ((fieldValues m.fields (str "host")).head?).getD []
  fields := (m.fields.map fun f => (lower f.name, f.value)).filter fun f => isRegular f.1
  body := m.body.octets

/-- The Host field of a message is the one received. -/
theorem host_message (m : H1Message) (lim : ZhsLimits) :
    (m.parsed lim).raw.host = (fieldValues m.fields (str "host")).head? := by
  unfold RawReq.host fieldValues H1Message.parsed
  rw [List.head?_map, List.head?_filter, List.find?_map, Option.map_map]
  rfl

/-- Between requests, no input is nothing to do. -/
theorem feedLoop_idleConn_nil (g : H1Cfg) (k : Nat) (out : ZhsBuf) (log : List H1Dispatch)
    (d : Nat) : (feedLoop g ⟨idleConn k out log, [], d⟩).c.log = log := by
  have hstep : feedStep g ⟨idleConn k out log, [], d⟩ =
      .inr ⟨if d > 0 then .dispatched else .needMore, idleConn k out log, []⟩ := by
    simp only [feedStep, h1Round, idleConn, h1Reqline]
    rw [h1Budgeted_wait g (by simp) (by simp)]
    rfl
  rw [feedLoop_of_inr g hstep]
  rfl

theorem mem_dispatchesOf (g : H1Cfg) {ms : List H1Message} {m : H1Message} (hm : m ∈ ms) (k : Nat) :
    ∃ d ∈ dispatchesOf g k ms, d.req = m.request g := by
  induction ms generalizing k with
  | nil => cases hm
  | cons m' ms ih =>
    rw [dispatchesOf]
    rcases List.mem_cons.mp hm with rfl | hm
    · exact ⟨_, List.mem_cons_self, rfl⟩
    · obtain ⟨d, hd, hreq⟩ := ih hm (k + 1)
      exact ⟨d, List.mem_cons_of_mem _ hd, hreq⟩

/-- **A well-formed message delivers what its octets say**, wherever it stands in the
stream. -/
theorem delivered_message {g : H1Cfg} {ms : List H1Message} {m : H1Message} (hm : m ∈ ms)
    (hms : ∀ m ∈ ms, m.Valid g.lim) (hr : g.redirect = false)
    (hd : ∀ history req, g.srv.detaches history req = false)
    (hcap : ms.length < g.lim.maxRequestsPerConn)
    (hout : (responses g [] (ms.map (·.request g))).length ≤ g.lim.maxOutBytes) :
    Delivered m.logical g.lim .h1 (m.request g) := by
  have hrun := feedLoop_messages g ms 0 {} [] hms hr hd (by omega)
    (by simpa [ZhsBuf.len] using hout) [] 0
  have hlog : (H1Run.run g {} [.feed (ms.map (·.bytes)).flatten]).c.log = dispatchesOf g 0 ms := by
    change (zh1Feed g zh1New ([] ++ (ms.map (·.bytes)).flatten)).c.log = _
    rw [List.nil_append, ← List.append_nil (ms.map (·.bytes)).flatten]
    change (feedLoop g ⟨idleConn 0 {} [], (ms.map (·.bytes)).flatten ++ [], 0⟩).c.log = _
    rw [hrun, feedLoop_idleConn_nil]
    rfl
  obtain ⟨d, hdmem, hdreq⟩ := mem_dispatchesOf g hm 0
  have hraw : (m.request g).raw = (m.parsed g.lim).raw := rfl
  rw [← hdreq]
  refine .h1 g [.feed (ms.map (·.bytes)).flatten] (by rw [hlog]; exact hdmem) ?_ ?_ ?_
  · rw [hdreq, hraw]
    refine ⟨rfl, rfl, ?_⟩
    simp only [RawReq.regular, H1Message.parsed, H1Message.logical, List.map_map]
    rfl
  · rw [hdreq, hraw, host_message]
    obtain ⟨x, hx⟩ := List.length_eq_one_iff.mp (hms m hm).host
    rw [H1Message.logical, hx]
    rfl
  · rw [hdreq]
    rfl

/-! ### Agreement

Two ways deliver the same request exactly when both keep its authority and its rows. -/

/-- **The versions agree on a request if and only if its authority leaves them no choice and its fields
no row to get wrong**: one that is delivered another way than over HTTP/1.1 is the same request to the
handler exactly when that version cuts off the same userinfo and, over HTTP/3, refers to none of the four
rows. Over HTTP/2 the table has to be the peer's. -/
theorem delivered_same_iff (h₁ : Delivered l lim .h1 r₁) (h : Delivered l lim way req) (hstep : way.InStep lim) :
    SameRequest r₁ req ↔ AuthorityKept l.authority way ∧ way.RowsKept := by
  obtain ⟨hauth₁, hclean⟩ := h₁.h1Authority
  rw [(h₁.conveys trivial).same_iff (h.conveys hstep), hauth₁, h.authority hstep hclean, makesOf_eq_iff]

/-- The upload of `sampleUpload` over HTTP/2: its head and its body, on stream 1. -/
def uploadFrames : List Frame :=
  [{ type := ZH2_FT_HEADERS, flags := ZH2_FL_END_HEADERS, sid := 1
     payload := [0x83, 0x86, 0x04, 0x04] ++ str "/a?b" ++ [0x01, 0x01] ++ str "x" },
   { type := ZH2_FT_DATA, flags := ZH2_FL_END_STREAM, sid := 1, payload := str "hi" }]

/-- A chunked upload and the same in DATA frames. -/
theorem delivered_same_upload :
    ∃ req ∈ silentRequests uploadFrames,
      SameRequest (sampleUpload.request H1Cfg.silent) req := by
  have hone : ∃ p ∈ deliveries (silentFeed uploadFrames).hist, p.1 ∈ silentRequests uploadFrames ∧
      p.2 = (some ⟨[], [0x83, 0x86, 0x04, 0x04] ++ str "/a?b" ++ [0x01, 0x01] ++ str "x"⟩, str "hi") := by
    decide +kernel
  have hfields : WireSection.fields ⟨[], [0x83, 0x86, 0x04, 0x04] ++ str "/a?b" ++ [0x01, 0x01] ++ str "x"⟩ =
      some (LogicalRequest.wire ⟨str "POST", str "/a?b", str "x", [], str "hi"⟩ .pseudo (str "http")) := by
    decide +kernel
  obtain ⟨p, hp, hmem, hwire⟩ := hone
  obtain ⟨req, ws, data⟩ := p
  cases hwire
  have hlogical : sampleUpload.logical = ⟨str "POST", str "/a?b", str "x", [], str "hi"⟩ := by
    decide +kernel
  have h₁ : Delivered sampleUpload.logical (zhsLimitsResolve {}) .h1 (sampleUpload.request H1Cfg.silent) := by
    refine delivered_message (g := H1Cfg.silent) (List.mem_singleton_self sampleUpload)
      ?_ rfl (fun _ _ => rfl) (by decide) (by decide +kernel)
    intro m hm
    rw [List.mem_singleton.mp hm]
    exact sampleUpload_valid
  rw [hlogical] at h₁
  obtain ⟨hcarries, hplace⟩ := wire_carries
    (l := ⟨str "POST", str "/a?b", str "x", [], str "hi"⟩) .pseudo (str "http") nofun
  refine ⟨req, hmem, (delivered_same_iff h₁
    (.h2 .silent .pseudo (reachable_silentFeed _) hp hfields hcarries hplace) trivial).mpr ⟨?_, trivial⟩⟩
  change List.count 64 (str "x") ≤ 1
  decide

/-- Userinfo in a Host field: HTTP/1.1 removes it, HTTP/2 does not. -/
theorem delivered_differs_host :
    let l : LogicalRequest := ⟨str "GET", str "/", str "u@a", [], []⟩
    let way : Way := .h2 .host ⟨[], [0x82, 0x86, 0x84] ++ literalLine "host" "u@a"⟩
    ∃ r₁ req, Delivered l (zhsLimitsResolve {}) .h1 r₁ ∧
      Delivered l (zhsLimitsResolve {}) way req ∧ way.InStep (zhsLimitsResolve {}) ∧
      r₁.authority = some (str "a") ∧ req.authority = some (str "u@a") ∧ ¬SameRequest r₁ req := by
  intro l way
  have hone : ∃ d ∈ (H1Run.run H1Cfg.silent {}
      [.feed (str "GET / HTTP/1.1\r\nHost: u@a\r\n\r\n")]).c.log,
      d.req.raw.method = str "GET" ∧ d.req.raw.target = str "/" ∧ d.req.raw.regular = [] ∧
        d.req.raw.host = some (str "u@a") ∧ d.req.body = [] ∧
        d.req.authority = some (str "a") := by decide +kernel
  have htwo : ∃ p ∈ deliveries (silentFeed [getWith (literalLine "host" "u@a")]).hist,
      p.2 = (some ⟨[], [0x82, 0x86, 0x84] ++ literalLine "host" "u@a"⟩, []) ∧
        p.1.authority = some (str "u@a") := by decide +kernel
  have hfields : WireSection.fields ⟨[], [0x82, 0x86, 0x84] ++ literalLine "host" "u@a"⟩ =
      some [⟨str ":method", str "GET"⟩, ⟨str ":scheme", str "http"⟩, ⟨str ":path", str "/"⟩,
        ⟨str "host", str "u@a"⟩] := by decide +kernel
  obtain ⟨d, hd, hm₁, ht₁, hf₁, hh₁, hb₁, ha₁⟩ := hone
  obtain ⟨⟨req, ws, data⟩, hp, hwire, ha₂⟩ := htwo
  cases hwire
  refine ⟨d.req, req, .h1 H1Cfg.silent _ hd ⟨hm₁, ht₁, hf₁⟩ hh₁ hb₁,
    .h2 .silent .host (reachable_silentFeed _) hp hfields ⟨rfl, rfl, rfl⟩ ⟨rfl, rfl⟩, trivial, ha₁, ha₂, fun hsame => ?_⟩
  have hauth := hsame.authority
  rw [ha₁, ha₂] at hauth
  exact absurd hauth (by decide)

end Zcio
