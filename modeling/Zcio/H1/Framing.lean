import Zcio.H1.Message
import Zcio.H1.Once

/-!
# Zcio.H1.Framing

The parser reads back what a client wrote. Stage by stage, a round on the wire form of a
message's part consumes exactly that part; put together, a feed of pipelined messages
followed by anything dispatches the messages in order and goes on with what follows
(`feedLoop_messages`). The other half is an invariant of every run: what reaches the
handler was framed unambiguously.
-/

namespace Zcio

variable (g : H1Cfg)

/-! ### The header list

A list of field lines stored one after the other, and what the three look-ups of the server
find in it. -/

theorem storeAll_cons (lim : ZhsLimits) (h : ZhsHdrs) (f : FieldLine) (fs : List FieldLine) :
    storeAll lim h (f :: fs) =
      storeAll lim (((h.add f.name f.value lim true).toOption).getD h) fs := rfl

/-- The stored form of a field. -/
def FieldLine.stored (f : FieldLine) : ZhsHdr := { name := lower f.name, value := f.value }

theorem cstr_lower_token {s : Bytes} (h : zhsTokenOk s = true) : cstr (lower s) = lower s :=
  cstr_of_token (zhsLowerTokenOk_token (zhsLowerTokenOk_lower h))

/-- Adding a field within the caps. -/
theorem add_field (lim : ZhsLimits) {h : ZhsHdrs} {f : FieldLine} (hf : f.Ok)
    (hn : h.v.length < lim.maxHeaders) (hlen : f.text.length ≤ lim.maxHeaderBytes)
    (hb : h.bytes + f.cost ≤ ZhsHdrs.byteCap lim) :
    ∃ h', h.add f.name f.value lim true = .ok h' ∧ h'.v = h.v ++ [f.stored] ∧
      h'.bytes = h.bytes + f.cost := by
  have hlen' : f.name.length ≤ lim.maxHeaderBytes ∧ f.value.length ≤ lim.maxHeaderBytes := by
    simp [FieldLine.text] at hlen
    omega
  obtain ⟨h', hadd⟩ := ZhsHdrs.add_of_room (h := h) true hn hlen'.1 hlen'.2 hb
  obtain ⟨-, hv, hbytes⟩ := ZhsHdrs.add_ok hadd
  refine ⟨h', hadd, ?_, hbytes⟩
  rw [hv, if_pos rfl, cstr_lower_token hf.name, cstr_of_valueOk hf.value]
  rfl

theorem count_stored {h : ZhsHdrs} {fs : List FieldLine} (hv : h.v = fs.map FieldLine.stored)
    (name : Bytes) (hname : lower name = name) : h.count name = (fieldValues fs name).length := by
  simp only [ZhsHdrs.count, hv, hname, fieldValues, List.countP_map, List.length_map]
  rw [List.countP_eq_length_filter]
  rfl

theorem get_stored {h : ZhsHdrs} {fs : List FieldLine} (hv : h.v = fs.map FieldLine.stored)
    (name : Bytes) (hname : lower name = name) : h.get name = (fieldValues fs name).head? := by
  simp only [ZhsHdrs.get, hv, hname, fieldValues, List.head?_map, List.find?_map,
    Option.map_map, List.head?_filter]
  rfl

theorem values_stored {h : ZhsHdrs} {fs : List FieldLine} (hv : h.v = fs.map FieldLine.stored)
    (name : Bytes) :
    (h.v.filter fun x => x.name == name).map (·.value) = fieldValues fs name := by
  simp only [hv, fieldValues, List.filter_map, List.map_map]
  rfl

/-! ### The head

A request line and field lines in the form of RFC 9112 are taken by the parser round by
round, within the limits of the server. -/

theorem ows_facts (b : UInt8) (h : isOws b = true) : b ≠ LF ∧ b ≠ 58 := by
  constructor
  · rintro rfl
    exact absurd h (by decide)
  · rintro rfl
    exact absurd h (by decide)

theorem dropWhile_all {p : UInt8 → Bool} {a b : Bytes} (ha : ∀ x ∈ a, p x = true) :
    (a ++ b).dropWhile p = b.dropWhile p := by
  rw [List.dropWhile_append, List.dropWhile_eq_nil_iff.mpr ha]
  rfl

theorem FieldLine.Ok.trim {f : FieldLine} (h : f.Ok) :
    ((f.pre ++ f.value ++ f.post).dropWhile isOws).rdropWhile isOws = f.value := by
  rw [List.append_assoc, dropWhile_all h.pre]
  cases hv : f.value with
  | nil =>
    rw [List.nil_append, List.dropWhile_eq_nil_iff.mpr h.post]
    rfl
  | cons b v =>
    have hb : isOws b = false := h.head b (by rw [hv]; rfl)
    rw [List.cons_append, List.dropWhile_cons_of_neg (by simp [hb]), ← List.cons_append,
      List.rdropWhile, List.reverse_append, dropWhile_all (by simpa using h.post)]
    have hlast : isOws ((b :: v).getLast (by simp)) = false :=
      h.last _ (by rw [hv, List.getLast?_eq_getLast_of_ne_nil (by simp)])
    rw [← List.rdropWhile, List.rdropWhile_eq_self_iff]
    intro _
    simp [hlast]

theorem FieldLine.Ok.lf {f : FieldLine} (h : f.Ok) : LF ∉ f.text := by
  simp only [FieldLine.text, List.mem_append, List.mem_cons, not_or]
  refine ⟨notMem_of_token h.name (by decide), by decide, ⟨?_, ?_⟩, ?_⟩
  · exact fun hm => (ows_facts _ (h.pre _ hm)).1 rfl
  · exact notMem_of_valueOk h.value (by decide)
  · exact fun hm => (ows_facts _ (h.post _ hm)).1 rfl

theorem FieldLine.Ok.headOk {f : FieldLine} (h : f.Ok) :
    f.text ≠ [] ∧ f.text.head? ≠ some SP ∧ f.text.head? ≠ some HTAB := by
  obtain ⟨hne, hall⟩ := zhsTokenOk_iff.mp h.name
  obtain ⟨b, s, hbs⟩ := List.exists_cons_of_ne_nil hne
  have hb : isTchar b = true := hall b (by simp [hbs])
  simp only [FieldLine.text, hbs, List.cons_append, List.head?_cons]
  refine ⟨by simp, fun h => ?_, fun h => ?_⟩
  · exact isTchar_ne hb (d := SP) (by decide) (Option.some.inj h)
  · exact isTchar_ne hb (d := HTAB) (by decide) (Option.some.inj h)

/-- The connection with the fields stored. -/
def storeFields (lim : ZhsLimits) (c : Zh1Conn) (fs : List FieldLine) : Zh1Conn :=
  { c with
    headBytes := c.headBytes + (fieldLines (fs.map (·.text))).length
    req := { c.req with
      headers := storeAll lim c.req.headers fs
      raw := { c.req.raw with
        fields := c.req.raw.fields ++ fs.map fun f => (f.name, f.value) } } }

theorem h1Round_headers {c : Zh1Conn} (hst : c.state = .headers) (inp : Bytes) :
    h1Round g c inp = h1Budgeted g c inp id (fun c text rest =>
      headStage g (h1HeaderText g c text rest)) := by
  simp only [h1Round, hst, h1HeaderRound]
  exact h1Budgeted_map g (headStage g) _ _ _ _

/-- One field line. -/
theorem h1Round_field {c : Zh1Conn} {f : FieldLine} (hst : c.state = .headers) (hf : f.Ok)
    (hb : f.text.length + 2 ≤ g.lim.maxHeaderBytes - c.headBytes) {headers : ZhsHdrs}
    (hadd : c.req.headers.add f.name f.value g.lim true = .ok headers) (y : Bytes) :
    h1Round g c (f.text ++ crlf ++ y) =
      ⟨.next, { c with
        headBytes := c.headBytes + (f.text.length + 2)
        req := { c.req with
          headers
          raw := { c.req.raw with
            fields := c.req.raw.fields ++ [(f.name, f.value)] } } }, y⟩ := by
  obtain ⟨hne, hsp, htab⟩ := hf.headOk
  have hcolon : memchr 58 f.text = some f.name.length :=
    memchr_append (notMem_of_token hf.name (by decide)) _
  have htake : f.text.take f.name.length = f.name := List.take_left
  have hdrop : f.text.drop (f.name.length + 1) = f.pre ++ f.value ++ f.post := by
    rw [FieldLine.text, ← List.drop_drop, List.drop_left]
    rfl
  rw [h1Round_headers g hst, h1Budgeted_line g y hf.lf hb, h1HeaderText]
  rw [if_neg hne, if_neg (by simp [hsp, htab])]
  simp only [hcolon, htake, hdrop, hf.trim, hf.name, hf.value, hadd]
  rfl

/-- All field lines of a head, one round each. -/
theorem feedLoop_fields {c : Zh1Conn} (hst : c.state = .headers) (fs : List FieldLine)
    (hfs : ∀ f ∈ fs, f.Ok) (hn : c.req.headers.v.length + fs.length ≤ g.lim.maxHeaders)
    (hcost : c.req.headers.bytes + (fs.map FieldLine.cost).sum ≤ ZhsHdrs.byteCap g.lim)
    (hb : (fieldLines (fs.map (·.text))).length ≤ g.lim.maxHeaderBytes - c.headBytes)
    (y : Bytes) (d : Nat) :
    feedLoop g ⟨c, fieldLines (fs.map (·.text)) ++ y, d⟩ =
        feedLoop g ⟨storeFields g.lim c fs, y, d⟩ ∧
      (storeAll g.lim c.req.headers fs).v = c.req.headers.v ++ fs.map FieldLine.stored := by
  -- one field line a round; the caps pay for the line and for the ones behind it
  induction fs generalizing c with
  | nil => simp [storeFields, storeAll, fieldLines]
  | cons f fs ih =>
    have hf := hfs f List.mem_cons_self
    simp only [List.length_cons, List.map_cons, List.sum_cons] at hn hcost hb
    have hlen : (fieldLines (f.text :: fs.map (·.text))).length =
        f.text.length + 2 + (fieldLines (fs.map (·.text))).length := by
      simp [fieldLines_cons, crlf]
      omega
    rw [hlen] at hb
    -- the store takes the field, for the count and the octets leave room
    obtain ⟨headers, hadd, hv, hbytes⟩ := add_field g.lim hf (h := c.req.headers)
      (by omega) (by omega) (by omega)
    have hstore : storeAll g.lim c.req.headers (f :: fs) = storeAll g.lim headers fs := by
      rw [storeAll_cons, hadd]
      rfl
    -- the induction goes on from the connection that has stored it
    obtain ⟨hrun, hvs⟩ := ih (c := { c with
        headBytes := c.headBytes + (f.text.length + 2)
        req := { c.req with
          headers
          raw := { c.req.raw with
            fields := c.req.raw.fields ++ [(f.name, f.value)] } } }) hst
      (fun f hm => hfs f (List.mem_cons_of_mem _ hm)) (by simp only [hv]; simp; omega)
      (by simp only [hbytes]; omega) (by simp only; omega)
    refine ⟨?_, by rw [hstore, hvs, hv]; simp⟩
    rw [List.map_cons, fieldLines_cons, List.append_assoc,
      feedLoop_next g d (h1Round_field g hst hf (by omega) hadd _), hrun]
    simp only [storeFields, hstore, List.map_cons, hlen, List.append_assoc, Nat.add_assoc,
      List.singleton_append]

theorem splitReqline_line {a b v : Bytes} (ha : SP ∉ a) (hb : SP ∉ b) :
    splitReqline (a ++ SP :: (b ++ SP :: v)) = some (a, b, v) := by
  have hdrop : (a ++ SP :: (b ++ SP :: v)).drop (a.length + 1) = b ++ SP :: v := by
    rw [← List.drop_drop, List.drop_left]
    rfl
  have hdrop' : (b ++ SP :: v).drop (b.length + 1) = v := by
    rw [← List.drop_drop, List.drop_left]
    rfl
  unfold splitReqline
  simp only [memchr_append ha, hdrop, memchr_append hb, hdrop', List.take_left]

theorem H1Message.Valid.line_lf {m : H1Message} {lim : ZhsLimits} (hm : m.Valid lim) : LF ∉ m.line := by
  simp only [H1Message.line, List.mem_append, List.mem_cons, not_or]
  refine ⟨notMem_of_token hm.method (by decide), by decide, hm.target.2.1, by decide, ?_⟩
  cases m.http10 <;> decide

/-- The request line. -/
theorem h1Round_reqline {c : Zh1Conn} {m : H1Message} (hst : c.state = .reqline)
    (hm : m.Valid g.lim) (hb : m.line.length + 2 ≤ g.lim.maxHeaderBytes - c.headBytes) (y : Bytes) :
    h1Round g c (m.line ++ crlf ++ y) =
      ⟨.next, acceptLine c (m.line.length + 2) m.http10 m.method m.target (m.pathQuery g.lim).1
        (m.pathQuery g.lim).2, y⟩ := by
  obtain ⟨hsp, -, hurl⟩ := hm.target
  obtain ⟨path, query, hdec⟩ := hm.decoded
  obtain ⟨hne, hall⟩ := zhsTokenOk_iff.mp hm.method
  obtain ⟨b, s, hbs⟩ := List.exists_cons_of_ne_nil hne
  have hbt : isTchar b = true := hall b (by simp [hbs])
  have hhead : m.line.head? = some b := by rw [H1Message.line, hbs]; rfl
  have hlne : m.line ≠ [] := by rw [H1Message.line, hbs]; simp
  have hsplit : splitReqline m.line =
      some (m.method, m.target, if m.http10 then str "HTTP/1.0" else str "HTTP/1.1") :=
    splitReqline_line (notMem_of_token hm.method (by decide)) hsp
  have hver : h1Version (if m.http10 then str "HTTP/1.0" else str "HTTP/1.1") = .ok m.http10 := by
    cases m.http10 <;> decide
  have hpq : m.pathQuery g.lim = (path, query) := by rw [H1Message.pathQuery, hdec]; rfl
  have hpos : (m.line ++ crlf ++ y).length > 0 := by simp only [crlf, List.length_append, List.length_cons]; omega
  have hround : h1Round g c (m.line ++ crlf ++ y) = h1Reqline g c (m.line ++ crlf ++ y) := by
    simp only [h1Round, hst]
  rw [hround, h1Reqline, if_pos hpos,
    h1Budgeted_line g (c := { c with receiving := true }) y hm.line_lf hb, h1ReqlineText, if_neg]
  · simp only [hsplit, hm.method, hver, hdec, hpq, Bool.not_true, Bool.false_eq_true, if_false]
    rw [if_neg (by omega)]
    rfl
  · rw [hhead]
    simp only [hlne, false_or, not_or]
    refine ⟨fun h => ?_, fun h => ?_⟩
    · exact isTchar_ne hbt (d := SP) (by decide) (Option.some.inj h)
    · exact isTchar_ne hbt (d := HTAB) (by decide) (Option.some.inj h)

/-- The connection behind a head whose fields are stored. -/
def behindHead (m : H1Message) (c : Zh1Conn) : Zh1Conn :=
  let c := { c with
    headBytes := 0
    keepAlive := true
    req := { c.req with
      authority := m.authority
      raw := { c.req.raw with authority := (fieldValues m.fields (str "host")).head? } } }
  match m.body with
  | .none => { c with clRemaining := 0, state := .bodyCl }
  | .length b => { c with clRemaining := b.length, state := .bodyCl }
  | .chunked _ _ _ _ => { c with chunked := true, chunkRemaining := 0, state := .chunkSize }

theorem le_foldl_decimal (ps : Bytes) (v : Nat) :
    v ≤ ps.foldl (fun v p => v * 10 + (p.toNat - 48)) v := by
  induction ps generalizing v with
  | nil => exact Nat.le_refl v
  | cons p ps ih =>
    have := ih (v * 10 + (p.toNat - 48))
    rw [List.foldl_cons]
    omega

/-- A number of a real body's size passes the overflow guard digit by digit. -/
theorem decimal_go (ps : Bytes) (v : Nat) (hd : ∀ p ∈ ps, h1IsDigit p = true)
    (hlt : ps.foldl (fun v p => v * 10 + (p.toNat - 48)) v < 2 ^ 63) :
    h1FrameContentLength.go v ps = .ok (ps.foldl (fun v p => v * 10 + (p.toNat - 48)) v) := by
  induction ps generalizing v with
  | nil => rfl
  | cons p ps ih =>
    rw [List.foldl_cons] at hlt
    have hle := le_foldl_decimal ps (v * 10 + (p.toNat - 48))
    rw [h1FrameContentLength.go, hd p List.mem_cons_self, if_neg (by simp), if_neg (by omega)]
    exact ih _ (fun q hq => hd q (List.mem_cons_of_mem _ hq)) hlt

theorem contentLength_eq {c : Zh1Conn} {fs : List FieldLine}
    (hv : c.req.headers.v = fs.map FieldLine.stored) {v : Bytes} {n : Nat}
    (hvals : fieldValues fs (str "content-length") = [v]) (hne : v ≠ [])
    (hd : ∀ p ∈ v, h1IsDigit p = true) (hval : decVal v = n) (hlt : n < 2 ^ 63)
    (hmax : n ≤ g.lim.maxBodyBytes) : h1FrameContentLength g c = .ok n := by
  unfold h1FrameContentLength
  rw [values_stored hv, hvals]
  simp only
  rw [if_neg hne, decimal_go v 0 hd (by unfold decVal at hval; omega)]
  unfold decVal at hval
  simp only [hval]
  rw [if_neg (by omega)]

/-- What the framing of a complete head decides. -/
theorem h1Framing_eq {c : Zh1Conn} {m : H1Message} (hm : m.Valid g.lim)
    (hv : c.req.headers.v = m.fields.map FieldLine.stored) (h10 : c.isHttp10 = m.http10) :
    h1Framing g c = .ok (match m.body with
      | .none => { c with headBytes := 0, clRemaining := 0, state := .bodyCl }
      | .length b => { c with headBytes := 0, clRemaining := b.length, state := .bodyCl }
      | .chunked _ _ _ _ =>
        { c with headBytes := 0, chunked := true, chunkRemaining := 0, state := .chunkSize }) := by
  have hte := get_stored hv (str "transfer-encoding") (by decide)
  have htec := count_stored hv (str "transfer-encoding") (by decide)
  have hclc := count_stored hv (str "content-length") (by decide)
  have hframed := hm.framed
  have hobj := hm.object
  have hmax := hm.body
  unfold H1Message.Framed at hframed
  unfold h1Framing
  cases hbody : m.body with
  | none =>
    rw [hbody] at hframed
    simp [hte, hclc, hframed.1, hframed.2]
  | length b =>
    rw [hbody] at hframed hobj hmax
    obtain ⟨ht, v, hvals, hne, hd, hval⟩ := hframed
    have hcl : h1FrameContentLength g { c with headBytes := 0 } = .ok b.length :=
      contentLength_eq g hv hvals hne hd hval hobj hmax
    simp [hte, hclc, ht, hvals, hcl]
  | chunked chunks lastSize lastExt trailer =>
    rw [hbody] at hframed
    obtain ⟨h10', hcl, ⟨v, hvals, hci⟩, -⟩ := hframed
    simp [hte, htec, hclc, hcl, hvals, hci, h10, h10']

theorem h1KeepAlive_eq {c : Zh1Conn} {m : H1Message} (hm : m.Valid g.lim)
    (hv : c.req.headers.v = m.fields.map FieldLine.stored) (h10 : c.isHttp10 = m.http10) :
    h1KeepAlive c = true := by
  have hget := get_stored hv (str "connection") (by decide)
  have hp := hm.persistent
  unfold H1Message.Persistent at hp
  unfold h1KeepAlive
  rw [hget, h10]
  cases hten : m.http10 with
  | true =>
    rw [hten, if_pos rfl] at hp
    obtain ⟨v, hhead, htok⟩ := hp
    rw [hhead]
    exact htok
  | false =>
    rw [hten, if_neg (by simp)] at hp
    cases hvals : (fieldValues m.fields (str "connection")).head? with
    | none => rfl
    | some v =>
      have := hp v (List.mem_of_head? hvals)
      simp [this]

/-- The empty line that ends the head. -/
theorem h1Round_headEnd {c : Zh1Conn} {m : H1Message} (hst : c.state = .headers)
    (hm : m.Valid g.lim) (hr : g.redirect = false)
    (hv : c.req.headers.v = m.fields.map FieldLine.stored) (h10 : c.isHttp10 = m.http10)
    (hb : 2 ≤ g.lim.maxHeaderBytes - c.headBytes) (y : Bytes) :
    h1Round g c (crlf ++ y) = ⟨.next, behindHead m c, y⟩ := by
  -- the empty line is within the budget of the head
  have hline := h1Budgeted_emptyLine g y id (fun c text rest =>
    headStage g (h1HeaderText g c text rest)) hb
  -- one Host field, whose value becomes the authority
  have hhost := count_stored hv (str "host") (by decide)
  have hget := get_stored hv (str "host") (by decide)
  rw [hm.host] at hhost
  obtain ⟨host, hvals⟩ := List.length_eq_one_iff.mp hm.host
  rw [hvals] at hget
  rw [h1Round_headers g hst, hline]
  simp only [h1HeaderText, if_true, headStage]
  unfold h1HeadDone
  simp only [hhost]
  rw [if_neg (by simp), if_neg (by simp), if_neg (by simp [hr])]
  have hauth : h1Authority { c with headBytes := c.headBytes + 2 } =
      { c with
        headBytes := c.headBytes + 2
        req := { c.req with
          authority := m.authority
          raw := { c.req.raw with authority := (fieldValues m.fields (str "host")).head? } } } := by
    unfold h1Authority
    simp only [hget, List.head?_cons, H1Message.authority, hvals, Option.map_some]
  -- the framing and the persistence were read off the same fields
  rw [hauth, h1Framing_eq g hm (by exact hv) (by exact h10)]
  simp only
  unfold behindHead
  cases hbody : m.body with
  | none => simp only; rw [h1KeepAlive_eq g hm (by exact hv) (by exact h10)]
  | length b => simp only; rw [h1KeepAlive_eq g hm (by exact hv) (by exact h10)]
  | chunked chunks lastSize lastExt trailer =>
    simp only
    rw [h1KeepAlive_eq g hm (by exact hv) (by exact h10)]

/-! ### The body

The three framings of a body. Chunks of any sizes and extensions are decoded to their data.
-/

theorem hex_facts (b : UInt8) (h : (hexval b).isSome = true) : b ≠ LF := by
  rintro rfl
  exact absurd h (by decide)

theorem le_foldl_hex (ds : Bytes) (v : Nat) :
    v ≤ ds.foldl (fun v b => v * 16 + (hexval b).getD 0) v := by
  induction ds generalizing v with
  | nil => exact Nat.le_refl v
  | cons b ds ih =>
    have := ih (v * 16 + (hexval b).getD 0)
    rw [List.foldl_cons]
    omega

/-- The digits of a size line, whatever their case and however many leading zeros. -/
theorem hexSize_eq (ds : Bytes) (v : Nat) (any : Bool) {ext : Bytes}
    (hd : ∀ b ∈ ds, (hexval b).isSome = true) (hext : ext = [] ∨ ext.head? = some 59)
    (hlt : ds.foldl (fun v b => v * 16 + (hexval b).getD 0) v < 2 ^ 63) :
    hexSize v any (ds ++ ext) =
      some (ds.foldl (fun v b => v * 16 + (hexval b).getD 0) v, any || !ds.isEmpty, ext) := by
  induction ds generalizing v any with
  | nil =>
    rcases hext with rfl | hext
    · simp [hexSize]
    · obtain ⟨e, rfl⟩ : ∃ e, ext = 59 :: e := by
        cases ext with
        | nil => simp at hext
        | cons b e => exact ⟨e, by rw [List.head?_cons] at hext; rw [Option.some.inj hext]⟩
      have h59 : hexval 59 = none := by decide
      simp [hexSize, h59]
  | cons b ds ih =>
    obtain ⟨hv, hhv⟩ := Option.isSome_iff_exists.mp (hd b List.mem_cons_self)
    rw [List.foldl_cons, hhv, Option.getD_some] at hlt
    have hle := le_foldl_hex ds (v * 16 + hv)
    rw [List.cons_append, hexSize, hhv]
    simp only
    rw [if_neg (by omega), ih _ true (fun b hb => hd b (List.mem_cons_of_mem _ hb)) hlt]
    simp [hhv]

theorem SizeLineOk.lfFree {size ext : Bytes} {n : Nat} (h : SizeLineOk size ext n) :
    LF ∉ size ++ ext := by
  simp only [List.mem_append, not_or]
  exact ⟨fun hm => hex_facts _ (h.hex _ hm) rfl, h.lf⟩

theorem SizeLineOk.hexSize {size ext : Bytes} {n : Nat} (h : SizeLineOk size ext n)
    (hn : n < 2 ^ 63) : hexSize 0 false (size ++ ext) = some (n, true, ext) := by
  have hval := h.val
  unfold hexVal at hval
  rw [hexSize_eq size 0 false h.hex h.extOk (by omega), hval]
  simp [h.ne]

theorem h1Round_sizeLine {c : Zh1Conn} (hst : c.state = .chunkSize) {text : Bytes}
    (hlf : LF ∉ text) (y : Bytes) :
    h1Round g c (text ++ crlf ++ y) = chunkStage (h1ChunkSizeText g c text y) := by
  simp only [h1Round, hst, h1ChunkRound]
  rw [h1FindLine_eq_line.mpr ⟨hlf, rfl, y, rfl⟩]
  simp only
  rw [List.drop_left' (by simp [crlf])]

/-- The size line of a chunk that fits the body cap. -/
theorem h1Round_size {c : Zh1Conn} (hst : c.state = .chunkSize) {size ext : Bytes} {n : Nat}
    (h : SizeLineOk size ext n) (hpos : 0 < n) (hn : n < 2 ^ 63)
    (hmax : c.req.body.length + n ≤ g.lim.maxBodyBytes) (y : Bytes) :
    h1Round g c (size ++ ext ++ crlf ++ y) =
      ⟨.next, { c with chunkRemaining := n, state := .chunkData }, y⟩ := by
  rw [h1Round_sizeLine g hst h.lfFree, h1ChunkSizeText,
    if_neg (Nat.not_lt.mpr h.short), h.hexSize hn]
  simp only
  rw [if_neg, if_neg (by omega), if_neg (by omega)]
  · rfl
  · rcases h.extOk with he | he <;> simp [he]

/-- The size line of the last chunk. -/
theorem h1Round_lastSize {c : Zh1Conn} (hst : c.state = .chunkSize) {size ext : Bytes}
    (h : SizeLineOk size ext 0) (y : Bytes) :
    h1Round g c (size ++ ext ++ crlf ++ y) = ⟨.next, { c with state := .trailer }, y⟩ := by
  rw [h1Round_sizeLine g hst h.lfFree, h1ChunkSizeText,
    if_neg (Nat.not_lt.mpr h.short), h.hexSize (by decide)]
  dsimp only
  rw [if_neg, if_pos rfl]
  · rfl
  · rcases h.extOk with he | he <;> simp [he]

/-- The connection with more of the body read. -/
def withBody (c : Zh1Conn) (b : Bytes) : Zh1Conn :=
  { c with req := { c.req with body := c.req.body ++ b } }

/-- One chunk: size line, data, CRLF. -/
theorem feedLoop_chunk {c : Zh1Conn} (hst : c.state = .chunkSize) (hrem : c.chunkRemaining = 0)
    {ch : H1Chunk} (hne : ch.data ≠ []) (hsz : SizeLineOk ch.size ch.ext ch.data.length)
    (hn : ch.data.length < 2 ^ 63)
    (hmax : c.req.body.length + ch.data.length ≤ g.lim.maxBodyBytes) (y : Bytes) (d : Nat) :
    feedLoop g ⟨c, H1Body.chunkBytes ch ++ y, d⟩ = feedLoop g ⟨withBody c ch.data, y, d⟩ := by
  have hpos : 0 < ch.data.length := List.length_pos_of_ne_nil hne
  have hsplit : H1Body.chunkBytes ch ++ y =
      ch.size ++ ch.ext ++ crlf ++ (ch.data ++ (crlf ++ y)) := by
    simp [H1Body.chunkBytes]
  rw [hsplit, feedLoop_next g d (h1Round_size g hst hsz hpos hn hmax _)]
  -- the data
  have hdata : h1Round g { c with chunkRemaining := ch.data.length, state := .chunkData }
      (ch.data ++ (crlf ++ y)) =
        ⟨.next, { withBody c ch.data with chunkRemaining := 0, state := .chunkCrlf },
          crlf ++ y⟩ := by
    rw [show h1Round g { c with chunkRemaining := ch.data.length, state := .chunkData } _ =
      chunkStage (h1ChunkRound g
        ({ c with chunkRemaining := ch.data.length, state := .chunkData }, _)) from rfl,
      h1ChunkData_eq g (c := { c with chunkRemaining := ch.data.length, state := .chunkData }) rfl
        (by simp only; omega),
      if_pos (by simp)]
    simp [h1TakeBody, withBody]
  rw [feedLoop_next g d hdata]
  -- its CRLF
  have hcrlf : h1Round g { withBody c ch.data with chunkRemaining := 0, state := .chunkCrlf }
      (crlf ++ y) =
        ⟨.next, { withBody c ch.data with chunkRemaining := 0, state := .chunkSize }, y⟩ := rfl
  rw [feedLoop_next g d hcrlf]
  have hback : ({ withBody c ch.data with chunkRemaining := 0, state := .chunkSize } : Zh1Conn) =
      withBody c ch.data := by
    simp only [withBody, hst, hrem]
  rw [hback]

theorem feedLoop_chunks {c : Zh1Conn} (hst : c.state = .chunkSize) (hrem : c.chunkRemaining = 0)
    (chunks : List H1Chunk)
    (hc : ∀ ch ∈ chunks, ch.data ≠ [] ∧ SizeLineOk ch.size ch.ext ch.data.length)
    (hn : (chunks.map (·.data)).flatten.length < 2 ^ 63)
    (hmax : c.req.body.length + (chunks.map (·.data)).flatten.length ≤ g.lim.maxBodyBytes)
    (y : Bytes) (d : Nat) :
    feedLoop g ⟨c, (chunks.map H1Body.chunkBytes).flatten ++ y, d⟩ =
      feedLoop g ⟨withBody c (chunks.map (·.data)).flatten, y, d⟩ := by
  induction chunks generalizing c with
  | nil => simp [withBody]
  | cons ch chunks ih =>
    obtain ⟨hne, hsz⟩ := hc ch List.mem_cons_self
    simp only [List.map_cons, List.flatten_cons, List.length_append] at hn hmax ⊢
    rw [List.append_assoc, feedLoop_chunk g hst hrem hne hsz (by omega) (by omega),
      ih (c := withBody c ch.data) hst hrem (fun x hx => hc x (List.mem_cons_of_mem _ hx))
        (by omega) (by simp only [withBody, List.length_append]; omega)]
    simp [withBody]

/-- A whole framed body: the parser comes to the end of the request with nothing of what
follows consumed. The four last fields are scratch, cleared for the next request. -/
theorem feedLoop_body {c : Zh1Conn} {m : H1Message} (hm : m.Valid g.lim)
    (hbody : c.req.body = []) (y : Bytes) (d : Nat) :
    ∃ (c₀ : Zh1Conn) (inp₀ : Bytes) (state : H1State) (headBytes cl ch : Nat),
      feedLoop g ⟨behindHead m c, m.body.bytes ++ y, d⟩ = feedLoop g ⟨c₀, inp₀, d⟩ ∧
      h1Round g c₀ inp₀ = ⟨.complete,
        { withBody (behindHead m c) m.body.octets with
          state, headBytes, clRemaining := cl, chunkRemaining := ch }, y⟩ := by
  have hmax := hm.body
  have hobj := hm.object
  have hframed := hm.framed
  have htr := hm.trailerLen
  unfold H1Message.Framed at hframed
  -- the three framings; only chunks take more rounds than the last one
  cases hb : m.body with
  -- no body: the request is complete without another octet
  | none =>
    refine ⟨_, _, .bodyCl, 0, 0, c.chunkRemaining, rfl, ?_⟩
    simp [h1Round, behindHead, hb, h1BodyCl, withBody, H1Body.octets, H1Body.bytes]
  -- a declared length: one round takes it all
  | length b =>
    refine ⟨_, _, .bodyCl, 0, 0, c.chunkRemaining, rfl, ?_⟩
    have hround : ∀ inp, h1Round g (behindHead m c) inp = h1BodyCl (behindHead m c) inp := by
      intro inp
      simp [h1Round, behindHead, hb]
    rw [hround]
    by_cases h0 : b.length = 0
    · obtain rfl := List.eq_nil_of_length_eq_zero h0
      simp [behindHead, hb, h1BodyCl, withBody, H1Body.octets, H1Body.bytes]
    · rw [h1BodyCl_eq (by simpa [behindHead, hb] using h0)]
      simp [behindHead, hb, h1TakeBody, withBody, H1Body.octets, H1Body.bytes]
  -- chunks, then the last size line, then the trailer lines and the empty line
  | chunked chunks lastSize lastExt trailer =>
    rw [hb] at hframed hmax hobj
    obtain ⟨-, -, -, hchunks, hlast, htrailer⟩ := hframed
    simp only [H1Message.trailer, hb, List.length_append] at htr
    have htr2 : crlf.length = 2 := rfl
    have hst : (behindHead m c).state = .chunkSize := by simp [behindHead, hb]
    have hrem : (behindHead m c).chunkRemaining = 0 := by simp [behindHead, hb]
    have hhead : (behindHead m c).headBytes = 0 := by simp [behindHead, hb]
    have hreq : (behindHead m c).req.body = [] := by simp [behindHead, hb, hbody]
    -- the octets of the body are cut where the rounds stop
    have hsplit : (H1Body.chunked chunks lastSize lastExt trailer).bytes ++ y =
        (chunks.map H1Body.chunkBytes).flatten ++
          (lastSize ++ lastExt ++ crlf ++ (fieldLines trailer ++ (crlf ++ y))) := by
      simp [H1Body.bytes]
    rw [hsplit, feedLoop_chunks g hst hrem chunks hchunks hobj (by
      rw [hreq, List.length_nil, Nat.zero_add]; exact hmax)]
    generalize hc₁ : withBody (behindHead m c) (chunks.map (·.data)).flatten = c₁
    have hst₁ : c₁.state = .chunkSize := by rw [← hc₁]; exact hst
    have hhead₁ : c₁.headBytes = 0 := by rw [← hc₁]; exact hhead
    rw [feedLoop_next g d (h1Round_lastSize g hst₁ hlast _),
      feedLoop_trailerLines g (c := { c₁ with state := .trailer }) rfl trailer htrailer
        (by simp only [hhead₁]; omega)]
    -- the round in which the empty line completes the request
    refine ⟨_, _, .trailer, (fieldLines trailer).length + 2, c₁.clRemaining, c₁.chunkRemaining,
      rfl, ?_⟩
    rw [h1Round_trailerEnd g (by rfl) (by simp only [hhead₁]; omega)]
    simp [H1Body.octets, hc₁, hhead₁]

/-! ### Dispatch and the next request

Behind the last octet of a message the parser stands where it stood in front of the first,
with one request more in its log. -/

/-- The octets of the response to `req`, given the requests before it, on a connection that
persists. -/
def response (history : List HttpReq) (req : HttpReq) : Bytes :=
  let call := g.srv.answer history req
  h1ResponseBytes req.isHead false call.status.toNat
    (finalHeaders g.srv req.secure (g.srv.date history.length) call.headers) call.body

/-- The responses to a list of requests. -/
def responses (history : List HttpReq) : List HttpReq → Bytes
  | [] => []
  | req :: reqs => response g history req ++ responses (history ++ [req]) reqs

/-- A response on a persistent connection with room in the output. -/
theorem h1Respond_persists {c : Zh1Conn} {status : Nat} {hdrs : List (Bytes × Bytes)}
    {body : RespBody} (hclose : h1CloseConn g c = false) (hca : c.closeAfter = false)
    (hout : c.out.len + (h1ResponseBytes c.req.isHead false status hdrs body).length ≤
      g.lim.maxOutBytes) :
    h1Respond g c status hdrs body =
      { c with out := c.out.append (h1ResponseBytes c.req.isHead false status hdrs body) } := by
  have hle : ¬(c.out.append (h1ResponseBytes c.req.isHead false status hdrs body)).len >
      g.lim.maxOutBytes := by
    rw [ZhsBuf.len_append]
    omega
  unfold h1Respond
  simp only [hclose, hca, hle, decide_false, Bool.or_self]

/-- A request that completes on a persistent connection: its response, and on with the
next. -/
theorem feedLoop_finish {c₀ c₁ : Zh1Conn} {inp₀ y : Bytes} (d : Nat)
    (hround : h1Round g c₀ inp₀ = ⟨.complete, c₁, y⟩)
    (hd : g.srv.detaches c₁.history (h1Request g c₁) = false)
    (hresp : c₁.req.responded = false) (hka : c₁.keepAlive = true) (hgr : c₁.graceful = false)
    (hca : c₁.closeAfter = false) (hcap : c₁.reqCount + 1 < g.lim.maxRequestsPerConn)
    (hout : c₁.out.len + (response g c₁.history (h1Request g c₁)).length ≤ g.lim.maxOutBytes) :
    feedLoop g ⟨c₀, inp₀, d⟩ =
      feedLoop g ⟨h1ResetNext { c₁ with
        log := c₁.log ++ [{ no := c₁.reqNo, http10 := c₁.isHttp10, req := h1Request g c₁ }]
        out := c₁.out.append (response g c₁.history (h1Request g c₁))
        reqCount := c₁.reqCount + 1 }, y, d + 1⟩ := by
  -- nothing asks for the connection's end
  have hclose : h1CloseConn g { c₁ with
      req := h1Request g c₁
      log := c₁.log ++ [{ no := c₁.reqNo, http10 := c₁.isHttp10, req := h1Request g c₁ }] } =
        false := by
    simp [h1CloseConn, hca, hgr, hka]
    omega
  -- the response goes out whole, so that the request is done with
  have hfin : h1Finish g c₁ = (true, { c₁ with
      req := { h1Request g c₁ with responded := true }
      log := c₁.log ++ [{ no := c₁.reqNo, http10 := c₁.isHttp10, req := h1Request g c₁ }]
      out := c₁.out.append (response g c₁.history (h1Request g c₁))
      reqCount := c₁.reqCount + 1 }) := by
    unfold h1Finish
    dsimp only
    rw [zhsDispatch_eq g.srv c₁.history (h1Request g c₁) (h1Respond g) _ hresp hd,
      h1Respond_persists g hclose hca hout, hd]
    rfl
  -- and the next request starts from the fields a new one has
  apply feedLoop_of_inl
  simp only [feedStep, hround, feedNext, hfin]
  simp [h1ResetNext, hca]

/-- A connection between requests: `k` of them dispatched. -/
def idleConn (k : Nat) (out : ZhsBuf) (log : List H1Dispatch) : Zh1Conn :=
  { reqCount := k, out, log, reqNo := k }

/-- The dispatches of the messages, the first with number `k + 1`. -/
def dispatchesOf (k : Nat) : List H1Message → List H1Dispatch
  | [] => []
  | m :: ms => { no := k + 1, http10 := m.http10, req := m.request g } :: dispatchesOf (k + 1) ms

/-- **A message is read to its last octet** and no further, into the request that it stands for. -/
theorem feedLoop_parsed {k : Nat} {out : ZhsBuf} {log : List H1Dispatch} {m : H1Message}
    (hm : m.Valid g.lim) (hr : g.redirect = false) (y : Bytes) (d : Nat) :
    ∃ c₀ inp₀ c₁, feedLoop g ⟨idleConn k out log, m.bytes ++ y, d⟩ = feedLoop g ⟨c₀, inp₀, d⟩ ∧
      h1Round g c₀ inp₀ = ⟨.complete, c₁, y⟩ ∧ c₁.req = m.parsed g.lim ∧ c₁.isHttp10 = m.http10 ∧
      c₁.keepAlive = true ∧ c₁.graceful = false ∧ c₁.closeAfter = false ∧ c₁.reqCount = k ∧
      c₁.out = out ∧ c₁.log = log ∧ c₁.reqNo = k + 1 ∧ c₁.err = none := by
  have hhead := hm.head
  simp only [List.length_append] at hhead
  have hcrlf : crlf.length = 2 := rfl
  have hsplit : m.bytes ++ y = m.line ++ crlf ++
      (fieldLines (m.fields.map (·.text)) ++ (crlf ++ (m.body.bytes ++ y))) := by
    simp [H1Message.bytes]
  -- the request line
  rw [hsplit, feedLoop_next g d (h1Round_reqline g (c := idleConn k out log) rfl hm
    (by simp only [idleConn]; omega) _)]
  generalize hc₁ : acceptLine (idleConn k out log) (m.line.length + 2) m.http10 m.method m.target
    (m.pathQuery g.lim).1 (m.pathQuery g.lim).2 = c₁
  have hst₁ : c₁.state = .headers := by rw [← hc₁]; rfl
  have hhb₁ : c₁.headBytes = m.line.length + 2 := by
    rw [← hc₁]; simp [acceptLine, idleConn]
  -- the fields
  obtain ⟨hfields, hv⟩ := feedLoop_fields g hst₁ m.fields hm.fields
    (by rw [← hc₁]; simpa [acceptLine, idleConn] using hm.count)
    (by rw [← hc₁]; simpa [acceptLine, idleConn] using hm.cost)
    (by rw [hhb₁]; omega) (crlf ++ (m.body.bytes ++ y)) d
  rw [hfields]
  generalize hc₂ : storeFields g.lim c₁ m.fields = c₂
  have hv₂ : c₂.req.headers.v = m.fields.map FieldLine.stored := by
    rw [← hc₂]
    simp only [storeFields]
    rw [hv, ← hc₁]
    rfl
  have h10₂ : c₂.isHttp10 = m.http10 := by rw [← hc₂, ← hc₁]; rfl
  -- the end of the head and the body
  rw [feedLoop_next g d (h1Round_headEnd g (c := c₂) (by rw [← hc₂]; exact hst₁) hm hr hv₂ h10₂
    (by rw [← hc₂]; simp only [storeFields, hhb₁]; omega) _)]
  obtain ⟨c₀, inp₀, state, headBytes, cl, ch, hrun, hround⟩ := feedLoop_body g (c := c₂) hm
    (by rw [← hc₂, ← hc₁]; rfl) y d
  refine ⟨c₀, inp₀, _, hrun, hround, ?_, ?_⟩
  · have hbh : (behindHead m c₂).req = { c₂.req with
        authority := m.authority
        raw := { c₂.req.raw with authority := (fieldValues m.fields (str "host")).head? } } := by
      unfold behindHead
      cases m.body <;> rfl
    simp only [withBody, hbh]
    rw [← hc₂, ← hc₁]
    simp [storeFields, acceptLine, idleConn, H1Message.parsed, cstr_of_token hm.method]
  · simp only [withBody]
    unfold behindHead
    rw [← hc₂, ← hc₁]
    cases m.body <;> simp [storeFields, acceptLine, idleConn]

/-- The request object of a message that has been read. -/
theorem h1Request_parsed {c : Zh1Conn} {m : H1Message} (hreq : c.req = m.parsed g.lim)
    (h10 : c.isHttp10 = m.http10) : h1Request g c = m.request g := by
  simp only [H1Message.request, h1Request, hreq, h1DetectWs, h10]

/-- **One message** and its response. -/
theorem feedLoop_message {k : Nat} {out : ZhsBuf} {log : List H1Dispatch} {m : H1Message}
    (hm : m.Valid g.lim) (hr : g.redirect = false)
    (hd : ∀ history req, g.srv.detaches history req = false)
    (hcap : k + 1 < g.lim.maxRequestsPerConn)
    (hout : out.len + (response g (log.map (·.req)) (m.request g)).length ≤ g.lim.maxOutBytes)
    (y : Bytes) (d : Nat) :
    feedLoop g ⟨idleConn k out log, m.bytes ++ y, d⟩ =
      feedLoop g ⟨idleConn (k + 1) (out.append (response g (log.map (·.req)) (m.request g)))
        (log ++ [{ no := k + 1, http10 := m.http10, req := m.request g }]), y, d + 1⟩ := by
  obtain ⟨c₀, inp₀, c₃, hrun, hround, hreq, h10, hka, hgr, hca, hrc, hout₃, hlog, hno, herr⟩ :=
    @feedLoop_parsed g k out log m hm hr y d
  rw [hrun]
  have hrequest := h1Request_parsed g hreq h10
  have hhist : c₃.history = log.map (·.req) := by rw [Zh1Conn.history, hlog]
  rw [feedLoop_finish g d hround (hd _ _) (by rw [hreq]; rfl) hka hgr hca (by omega)
    (by rw [hhist, hrequest, hout₃]; exact hout)]
  have hend : h1ResetNext { c₃ with
      log := c₃.log ++ [{ no := c₃.reqNo, http10 := c₃.isHttp10, req := h1Request g c₃ }]
      out := c₃.out.append (response g c₃.history (h1Request g c₃))
      reqCount := c₃.reqCount + 1 } =
      idleConn (k + 1) (out.append (response g (log.map (·.req)) (m.request g)))
        (log ++ [{ no := k + 1, http10 := m.http10, req := m.request g }]) := by
    simp only [h1ResetNext, idleConn, hhist, hrequest, h10, hgr, hca, hrc, hout₃, hlog, hno, herr]
  rw [hend]

/-- **Pipelined messages**: each is dispatched in turn, and what follows the last is left. -/
theorem feedLoop_messages (ms : List H1Message) (k : Nat) (out : ZhsBuf) (log : List H1Dispatch)
    (hms : ∀ m ∈ ms, m.Valid g.lim) (hr : g.redirect = false)
    (hd : ∀ history req, g.srv.detaches history req = false)
    (hcap : k + ms.length < g.lim.maxRequestsPerConn)
    (hout : out.len + (responses g (log.map (·.req)) (ms.map (·.request g))).length ≤
      g.lim.maxOutBytes) (y : Bytes) (d : Nat) :
    feedLoop g ⟨idleConn k out log, (ms.map (·.bytes)).flatten ++ y, d⟩ =
      feedLoop g ⟨idleConn (k + ms.length)
        (out.append (responses g (log.map (·.req)) (ms.map (·.request g))))
        (log ++ dispatchesOf g k ms), y, d + ms.length⟩ := by
  induction ms generalizing k out log d with
  | nil => simp [responses, dispatchesOf, ZhsBuf.append]
  | cons m ms ih =>
    simp only [List.map_cons, responses, List.length_append, List.length_cons] at hcap hout
    rw [List.map_cons, List.flatten_cons, List.append_assoc,
      feedLoop_message g (hms m List.mem_cons_self) hr hd (by omega) (by omega),
      ih _ _ _ (fun x hx => hms x (List.mem_cons_of_mem _ hx)) (by omega) (by
        rw [ZhsBuf.len_append, List.map_append]
        simp only [List.map_cons, List.map_nil]
        omega)]
    simp only [List.map_append, List.map_cons, List.map_nil, responses, dispatchesOf,
      List.append_assoc, List.singleton_append, ZhsBuf.append_append, List.length_cons,
      Nat.add_assoc, Nat.add_comm 1]

/-! ### Nothing ambiguous reaches the handler

Of the heads that a recipient might frame in two ways none is dispatched, in any run. -/

/-- The head frames its body in one way: not both by Transfer-Encoding and Content-Length,
by at most one Content-Length, and by Transfer-Encoding only as a single `chunked` on
HTTP/1.1. -/
def Unambiguous (http10 : Bool) (h : ZhsHdrs) : Prop :=
  ¬(h.count (str "transfer-encoding") ≠ 0 ∧ h.count (str "content-length") ≠ 0) ∧
    h.count (str "content-length") ≤ 1 ∧
    (h.count (str "transfer-encoding") ≠ 0 → h.count (str "transfer-encoding") = 1 ∧
      (∃ te, h.get (str "transfer-encoding") = some te ∧ ciEq te (str "chunked") = true) ∧
      http10 = false)

theorem contentLength_count {c : Zh1Conn} {n : Nat} (h : h1FrameContentLength g c = .ok n) :
    c.req.headers.count (str "content-length") = 1 := by
  have hcount : c.req.headers.count (str "content-length") =
      ((c.req.headers.v.filter fun h => h.name == str "content-length").map (·.value)).length := by
    rw [ZhsHdrs.count, List.countP_eq_length_filter, List.length_map]
    rfl
  rw [hcount]
  unfold h1FrameContentLength at h
  split at h
  · cases h
  · cases h
  · rename_i hl
    rw [hl]
    rfl

theorem h1Framing_unambiguous {c c' : Zh1Conn} (h : h1Framing g c = .ok c') :
    Unambiguous c'.isHttp10 c'.req.headers := by
  unfold h1Framing at h
  dsimp only at h
  split at h
  · -- both Transfer-Encoding and Content-Length: refused
    cases h
  · rename_i hboth
    split at h
    · -- Transfer-Encoding in HTTP/1.0: refused
      cases h
    · rename_i hten
      split at h
      · rename_i te hte
        rw [hte] at hboth hten
        split at h
        · -- more than one coding, or a coding that is not chunked: refused
          cases h
        · rename_i hok
          obtain ⟨htec, hci⟩ := not_or.mp hok
          cases h
          have hcl : c.req.headers.count (str "content-length") = 0 := by simpa using hboth
          refine ⟨fun hb => hb.2 hcl, by simp only [hcl]; omega,
            fun _ => ⟨not_not.mp htec, ⟨te, hte, by simpa using hci⟩, by simpa using hten⟩⟩
      · -- no Transfer-Encoding: at most one Content-Length, or none
        rename_i hte
        have h0 : c.req.headers.count (str "transfer-encoding") = 0 :=
          ZhsHdrs.get_eq_none_iff.mp hte
        split at h
        · split at h
          · cases h
          · rename_i hcl
            cases h
            have := contentLength_count g hcl
            exact ⟨fun hb => hb.1 h0, Nat.le_of_eq this, fun hne => absurd h0 hne⟩
        · rename_i hcl
          cases h
          exact ⟨fun hb => hb.1 h0, by simp only; omega, fun hne => absurd h0 hne⟩

/-- Everything dispatched was unambiguous, and so is the head whose body is being read. -/
def FramingInv (c : Zh1Conn) : Prop :=
  (∀ d ∈ c.log, Unambiguous d.http10 d.req.headers) ∧
    (c.state = .reqline ∨ c.state = .headers ∨ c.state = .dead ∨
      Unambiguous c.isHttp10 c.req.headers)

theorem framingInv_body {c : Zh1Conn} (h : FramingInv c)
    (hst : c.state = .bodyCl ∨ c.state.inChunked = true) :
    Unambiguous c.isHttp10 c.req.headers := by
  rcases h.2 with h | h | h | h
  · rw [h] at hst; simp [H1State.inChunked] at hst
  · rw [h] at hst; simp [H1State.inChunked] at hst
  · rw [h] at hst; simp [H1State.inChunked] at hst
  · exact h

theorem framingInv_move {c c' : Zh1Conn} {code : PCode} (hi : FramingInv c)
    (h : H1Move g c code c') : FramingInv c' := by
  have hbody : ∀ {st : H1State}, c.state = st → st.inChunked = true →
      Unambiguous c.isHttp10 c.req.headers :=
    fun hst hc => framingInv_body hi (.inr (by rw [hst]; exact hc))
  cases h with
  | wait => exact hi
  | close hst hlog => exact ⟨by rw [hlog]; exact hi.1, .inr (.inr (.inl hst))⟩
  | reqline => exact ⟨hi.1, .inr (.inl rfl)⟩
  | field hst => exact ⟨hi.1, .inr (.inl hst)⟩
  | framed hst hf =>
    have hun := h1Framing_unambiguous g hf
    refine ⟨?_, .inr (.inr (.inr hun))⟩
    simp only [(h1Framing_frame g hf).1, (h1Authority_frame _).1]
    exact hi.1
  | noBody => exact hi
  | bodyPart hst => exact ⟨hi.1, .inr (.inr (.inr (framingInv_body hi (.inl hst))))⟩
  | bodyEnd hst => exact ⟨hi.1, .inr (.inr (.inr (framingInv_body hi (.inl hst))))⟩
  | lastChunk hst => exact ⟨hi.1, .inr (.inr (.inr (hbody hst rfl)))⟩
  | chunk hst => exact ⟨hi.1, .inr (.inr (.inr (hbody hst rfl)))⟩
  | noData hst => exact ⟨hi.1, .inr (.inr (.inr (hbody hst rfl)))⟩
  | chunkPart hst => exact ⟨hi.1, .inr (.inr (.inr (hbody hst rfl)))⟩
  | chunkEnd hst => exact ⟨hi.1, .inr (.inr (.inr (hbody hst rfl)))⟩
  | crlf hst => exact ⟨hi.1, .inr (.inr (.inr (hbody hst rfl)))⟩
  | trailer hst => exact ⟨hi.1, .inr (.inr (.inr (hbody hst rfl)))⟩
  | trailerEnd hst => exact ⟨hi.1, .inr (.inr (.inr (hbody hst rfl)))⟩

theorem framingInv_finish {c c' : Zh1Conn} (hi : FramingInv c) (h : H1Move g c .complete c') :
    FramingInv (h1Finish g c').2 := by
  have hi' := framingInv_move g hi h
  have hst : c'.state = .bodyCl ∨ c'.state.inChunked = true := by
    rcases (h.complete_state g).2 with ⟨hst, -⟩ | hst
    · exact .inl hst
    · exact .inr (by rw [hst]; rfl)
  have hun := framingInv_body hi' hst
  obtain ⟨out, closeAfter, responded, reqCount, -, heq⟩ := h1Finish_eq g c'
  rw [heq]
  refine ⟨fun d hd => ?_, .inr (.inr (.inr hun))⟩
  rcases List.mem_append.mp hd with hd | hd
  · exact hi'.1 d hd
  · rw [List.mem_singleton.mp hd]
    exact hun

/-- Every state of every run, whatever the handler does. -/
theorem run_framingInv (evs : List H1Event) {r : H1Run} (hi : FramingInv r.c) :
    FramingInv (r.run g evs).c := by
  induction evs generalizing r with
  | nil => exact hi
  | cons ev evs ih =>
    apply ih
    cases ev with
    | drain n => exact hi
    | graceful => exact hi
    | feed x =>
      exact feedLoop_inv g (I := FramingInv) (Q := FramingInv)
        (fun _ _ hi h => framingInv_move g hi h) (fun _ _ hi h => framingInv_move g hi h)
        (fun _ _ hi h => framingInv_move g hi h) (fun _ _ hi h _ => framingInv_finish g hi h)
        (fun _ _ hi h _ _ => ⟨(framingInv_finish g hi h).1, .inl rfl⟩) hi

/-! ### The round trip

Any list of valid messages is parsed into the list of requests that they spell. -/

/-- A message as the handler is to read it. -/
def H1Message.view (lim : ZhsLimits) (m : H1Message) :
    Option Bytes × Option Bytes × Option Bytes × Option Bytes × List ZhsHdr × Bytes :=
  (some m.method, some (m.pathQuery lim).1, (m.pathQuery lim).2, m.authority,
    m.fields.map FieldLine.stored, m.body.octets)

theorem storeAll_v {lim : ZhsLimits} (fs : List FieldLine) {h : ZhsHdrs} (hfs : ∀ f ∈ fs, f.Ok)
    (hn : h.v.length + fs.length ≤ lim.maxHeaders)
    (hlen : ∀ f ∈ fs, f.text.length ≤ lim.maxHeaderBytes)
    (hcost : h.bytes + (fs.map FieldLine.cost).sum ≤ ZhsHdrs.byteCap lim) :
    (storeAll lim h fs).v = h.v ++ fs.map FieldLine.stored := by
  induction fs generalizing h with
  | nil => simp [storeAll]
  | cons f fs ih =>
    simp only [List.length_cons, List.map_cons, List.sum_cons] at hn hcost
    obtain ⟨h', hadd, hv, hbytes⟩ := add_field lim (hfs f List.mem_cons_self) (h := h)
      (by omega) (hlen f List.mem_cons_self) (by omega)
    rw [storeAll_cons, hadd]
    simp only [Except.toOption, Option.getD_some]
    rw [ih (fun x hx => hfs x (List.mem_cons_of_mem _ hx)) (by rw [hv]; simp; omega)
      (fun x hx => hlen x (List.mem_cons_of_mem _ hx)) (by rw [hbytes]; omega), hv]
    simp

theorem length_le_fieldLines {lines : List Bytes} {l : Bytes} (h : l ∈ lines) :
    l.length ≤ (fieldLines lines).length := by
  obtain ⟨a, b, rfl⟩ := List.append_of_mem h
  simp [fieldLines]
  omega

theorem H1Message.Valid.storeAll_v {m : H1Message} {lim : ZhsLimits} (hm : m.Valid lim) :
    (storeAll lim {} m.fields).v = m.fields.map FieldLine.stored := by
  have hhead := hm.head
  simp only [List.length_append] at hhead
  rw [Zcio.storeAll_v m.fields hm.fields (by simpa using hm.count) ?_ (by simpa using hm.cost)]
  · rfl
  · intro f hf
    have := length_le_fieldLines (List.mem_map_of_mem (f := (·.text)) hf)
    omega

theorem dispatches_view (ms : List H1Message) (hms : ∀ m ∈ ms, m.Valid g.lim) (k : Nat) :
    (dispatchesOf g k ms).map (·.view) = ms.map (·.view g.lim) := by
  induction ms generalizing k with
  | nil => rfl
  | cons m ms ih =>
    rw [dispatchesOf, List.map_cons, ih (fun x hx => hms x (List.mem_cons_of_mem _ hx)), List.map_cons]
    congr 1
    simp only [H1Dispatch.view, H1Message.view, H1Message.request, h1Request, H1Message.parsed,
      (hms m List.mem_cons_self).storeAll_v]

/-- **Framing round trip.** Pipelined persistent requests, each framed in any of the ways
HTTP/1.1 allows and followed by anything, are dispatched in order as they were written, and
parsing goes on at the first octet behind them on a connection ready for a new request. And
in no run does a head with ambiguous framing reach the handler. -/
theorem zh1Feed_framing :
    (∀ (ms : List H1Message) (rest : Bytes), (∀ m ∈ ms, m.Valid g.lim) → g.redirect = false →
      (∀ history req, g.srv.detaches history req = false) →
      ms.length < g.lim.maxRequestsPerConn →
      (responses g [] (ms.map (·.request g))).length ≤ g.lim.maxOutBytes →
      ∃ c : Zh1Conn, c.state = .reqline ∧ c.req = {} ∧ c.headBytes = 0 ∧ c.closeAfter = false ∧
        c.log.map (·.view) = ms.map (·.view g.lim) ∧
        zh1Feed g zh1New ((ms.map (·.bytes)).flatten ++ rest) =
          feedLoop g ⟨c, rest, ms.length⟩) ∧
    (∀ (evs : List H1Event), ∀ d ∈ (H1Run.run g {} evs).c.log,
      Unambiguous d.http10 d.req.headers) := by
  refine ⟨fun ms rest hms hr hd hcap hout => ?_, fun evs => ?_⟩
  · have hrun := feedLoop_messages g ms 0 {} [] hms hr hd (by omega)
      (by simpa [ZhsBuf.len] using hout) rest 0
    rw [Nat.zero_add] at hrun
    refine ⟨_, rfl, rfl, rfl, rfl, ?_, hrun⟩
    exact dispatches_view g ms hms 0
  · exact (run_framingInv g evs (r := {}) ⟨by simp [zh1New], .inl rfl⟩).1

/-- An upload in one chunk with an extension and a trailer. -/
def sampleUpload : H1Message where
  method := str "POST"
  target := str "/a?b"
  fields := [{ name := str "Host", pre := [SP], value := str "x" },
    { name := str "Transfer-Encoding", value := str "Chunked", post := [HTAB] }]
  body := .chunked [{ size := str "02", ext := str ";e", data := str "hi" }] (str "0") []
    [str "t: 1"]

theorem sampleUpload_valid : sampleUpload.Valid (zhsLimitsResolve {}) where
  method := by decide
  target := by decide
  decoded := ⟨str "/a", some (str "b"), by decide⟩
  fields := by
    intro f hf
    have : f = { name := str "Host", pre := [SP], value := str "x" } ∨
        f = { name := str "Transfer-Encoding", value := str "Chunked", post := [HTAB] } := by
      simpa [sampleUpload] using hf
    rcases this with rfl | rfl
    · refine ⟨?_, ?_, ?_, ?_, ?_, ?_⟩ <;> decide +kernel
    · refine ⟨?_, ?_, ?_, ?_, ?_, ?_⟩ <;> decide +kernel
  host := by decide
  framed := by
    refine ⟨rfl, by decide, ⟨str "Chunked", by decide, by decide⟩, ?_, ?_,
      by decide⟩
    · intro c hc
      obtain rfl := List.mem_singleton.mp hc
      refine ⟨?_, ?_, ?_, ?_, ?_, ?_, ?_⟩ <;> decide +kernel
    · refine ⟨?_, ?_, ?_, ?_, ?_, ?_⟩ <;> decide +kernel
  persistent := by
    simp [H1Message.Persistent, sampleUpload]
    decide
  count := by decide
  cost := by decide
  head := by decide
  trailerLen := by decide
  body := by decide
  object := by decide

theorem zh1Feed_framing_upload :
    ∃ c : Zh1Conn, c.state = .reqline ∧ c.req = {} ∧ c.headBytes = 0 ∧ c.closeAfter = false ∧
      c.log.map (·.view) = [sampleUpload, sampleUpload].map (·.view H1Cfg.silent.lim) ∧
      zh1Feed H1Cfg.silent zh1New
          (([sampleUpload, sampleUpload].map (·.bytes)).flatten ++ str "GET") =
        feedLoop H1Cfg.silent ⟨c, str "GET", 2⟩ :=
  (zh1Feed_framing H1Cfg.silent).1 [sampleUpload, sampleUpload] (str "GET")
    (by
      intro m hm
      have : m = sampleUpload := by simpa using hm
      rw [this]
      exact sampleUpload_valid)
    rfl (fun _ _ => rfl) (by decide) (by decide +kernel)

end Zcio
