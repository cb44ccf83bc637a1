import Zcio.Http.Message

/-!
# Zcio.Http.Framing

The client reads exactly the framed response. `chunked_scan` and the test for the end of a
response are settled on every cut of the message: in front of the end they ask for more, and
behind it they find it, whatever follows. From this the reads are followed by induction, and
`parse_response` finds the same framing on the whole buffer.
-/

namespace Zcio.Http

open H1Body (chunkBytes)

/-! ### The chunks

A size line, its data and the CRLF behind it are read in one round of `chunked_scan`; cut
anywhere, they are waited for. -/

/-- A round that has a whole size line. -/
theorem chunkedRound_sizeLine {size ext : Bytes} {n : Nat} (h : LaxSizeLine size ext n)
    (p got : Bytes) :
    chunkedRound (size ++ ext ++ crlf ++ p, got) =
      if n = 0 then .inr (if trailerDone p then .done got else .more)
      else if n > ZCIO_HTTP_MAX_RESPONSE ∨ got.length + n > ZCIO_HTTP_MAX_RESPONSE then .inr .bad
      else if p.length < n + 2 then .inr .more
      else if (p.drop n).take 2 = crlf then .inl (p.drop (n + 2), got ++ p.take n)
      else .inr .bad := by
  have hdrop : (size ++ ext ++ crlf ++ p).drop ((size ++ ext).length + 1 + 1) = p :=
    List.drop_left' (by simp [Nat.add_assoc])
  have hstop : ¬size.length > (size ++ ext).length + 1 := by simp; omega
  simp only [chunkedRound, memchr_sizeLine h, strtoull16_sizeLine h, hdrop, if_neg hstop]
  by_cases hn : n ≤ ULLONG_MAX
  · rw [min_eq_left hn]
  · -- a size that does not fit is over the cap
    have hmax : ULLONG_MAX > ZCIO_HTTP_MAX_RESPONSE := by decide
    have hbig : n > ZCIO_HTTP_MAX_RESPONSE := hmax.trans (not_le.mp hn)
    have hpos : n ≠ 0 := (Nat.zero_lt_of_lt hbig).ne'
    rw [min_eq_right (not_le.mp hn).le, if_neg (show ULLONG_MAX ≠ 0 by decide), if_pos (Or.inl hmax),
      if_neg hpos, if_pos (Or.inl hbig)]

/-- A round over a whole chunk. -/
theorem chunkedRound_chunk {c : H1Chunk} (hne : c.data ≠ [])
    (hc : LaxSizeLine c.size c.ext c.data.length)
    {got : Bytes} (hcap : got.length + c.data.length ≤ ZCIO_HTTP_MAX_RESPONSE) (p : Bytes) :
    chunkedRound (chunkBytes c ++ p, got) = .inl (p, got ++ c.data) := by
  have hpos : c.data.length ≠ 0 := fun h => hne (List.eq_nil_of_length_eq_zero h)
  have hsplit : chunkBytes c ++ p = c.size ++ c.ext ++ crlf ++ (c.data ++ crlf ++ p) := by
    simp [chunkBytes]
  have hlong : ¬(c.data ++ crlf ++ p).length < c.data.length + 2 := by simp
  have hend : ((c.data ++ crlf ++ p).drop c.data.length).take 2 = crlf := by
    rw [List.append_assoc, List.drop_left]
    rfl
  have hrest : (c.data ++ crlf ++ p).drop (c.data.length + 2) = p := List.drop_left' (by simp)
  have hdata : (c.data ++ crlf ++ p).take c.data.length = c.data := by
    rw [List.append_assoc, List.take_left]
  rw [hsplit, chunkedRound_sizeLine hc, if_neg hpos, if_neg (by omega), if_neg hlong, if_pos hend,
    hrest, hdata]

/-- Without a line end there is more to come. -/
theorem chunkedRound_cut {a got : Bytes} (ha : LF ∉ a) : chunkedRound (a, got) = .inr .more := by
  simp only [chunkedRound, memchr_eq_none.mpr ha]

/-! ### The trailer section

The scan looks for the empty line and for nothing else in the trailer. -/

theorem trailerDone_line {l : Bytes} (hl : LF ∉ l) (p : Bytes) :
    trailerDone (l ++ LF :: p) = (l == [] || l == [CR] || trailerDone p) := by
  have hp : p.splitOn LF ≠ [] := List.splitOn_ne_nil LF p
  rw [trailerDone, List.splitOn_append_cons_self_of_not_mem hl, List.dropLast_cons_of_ne_nil hp,
    List.any_cons]
  rfl

theorem trailerDone_cut {a : Bytes} (ha : LF ∉ a) : trailerDone a = false := by
  rw [trailerDone, List.splitOn_eq_singleton ha]
  rfl

theorem trailerDone_whole {trailer : List Bytes} (h : ∀ l ∈ trailer, l ≠ [] ∧ LF ∉ l)
    (p : Bytes) : trailerDone (fieldLines trailer ++ crlf ++ p) = true := by
  induction trailer with
  | nil => exact trailerDone_line (l := [CR]) (by decide) p
  | cons l trailer ih =>
    have hl : LF ∉ l ++ [CR] := List.not_mem_append (h l List.mem_cons_self).2 (by decide)
    have hsplit : fieldLines (l :: trailer) ++ crlf ++ p =
        (l ++ [CR]) ++ LF :: (fieldLines trailer ++ crlf ++ p) := by
      simp [fieldLines_cons]
    rw [hsplit, trailerDone_line hl, ih fun x hx => h x (List.mem_cons_of_mem _ hx), Bool.or_true]

theorem trailerDone_short {trailer : List Bytes} (h : ∀ l ∈ trailer, l ≠ [] ∧ LF ∉ l)
    {a y : Bytes} (hy : y ≠ []) (hcut : a ++ y = fieldLines trailer ++ crlf) :
    trailerDone a = false := by
  induction trailer generalizing a with
  | nil =>
    rcases cut_line (l := [CR]) (by decide) hcut with ha | ⟨b, -, hb⟩
    · exact trailerDone_cut ha
    · exact absurd (List.append_eq_nil_iff.mp hb).2 hy
  | cons l trailer ih =>
    obtain ⟨hne, hlf⟩ := h l List.mem_cons_self
    have hl : LF ∉ l ++ [CR] := List.not_mem_append hlf (by decide)
    have hsplit : a ++ y = (l ++ [CR]) ++ LF :: (fieldLines trailer ++ crlf) := by
      rw [hcut]
      simp [fieldLines_cons]
    rcases cut_line hl hsplit with ha | ⟨b, rfl, hb⟩
    · exact trailerDone_cut ha
    · have hblank : (l ++ [CR] == [CR]) = false := by simp [hne]
      rw [trailerDone_line hl, hblank, ih (fun x hx => h x (List.mem_cons_of_mem _ hx)) hb]
      simp

/-! ### The body in chunks

The scan of a whole body gives the payloads joined, and no proper beginning of it is
complete. -/

/-- The chunks of a body fit the cap together. -/
theorem chunkedScan_loop {chunks : List H1Chunk} {lastSize lastExt : Bytes} {trailer : List Bytes}
    (h : LaxChunked chunks lastSize lastExt trailer)
    {got : Bytes} (hcap : got.length + ((chunks.map (·.data)).flatten).length ≤ ZCIO_HTTP_MAX_RESPONSE)
    (x : Bytes) :
    Lib.loop chunkedRound _ chunkedRound_decreases
        ((H1Body.chunked chunks lastSize lastExt trailer).bytes ++ x, got) =
      .done (got ++ (chunks.map (·.data)).flatten) := by
  induction chunks generalizing got with
  | nil =>
    have hsplit : (H1Body.chunked [] lastSize lastExt trailer).bytes ++ x =
        lastSize ++ lastExt ++ crlf ++ (fieldLines trailer ++ crlf ++ x) := by
      simp [H1Body.bytes]
    have hround := chunkedRound_sizeLine h.last (fieldLines trailer ++ crlf ++ x) got
    rw [if_pos rfl, trailerDone_whole h.trailer, if_pos rfl] at hround
    rw [hsplit, Lib.loop_of_inr hround]
    simp
  | cons c chunks ih =>
    obtain ⟨hne, hc⟩ := h.chunks c List.mem_cons_self
    have hsplit : (H1Body.chunked (c :: chunks) lastSize lastExt trailer).bytes ++ x =
        chunkBytes c ++ ((H1Body.chunked chunks lastSize lastExt trailer).bytes ++ x) := by
      simp [H1Body.bytes]
    simp only [List.map_cons, List.flatten_cons, List.length_append] at hcap
    have hround := chunkedRound_chunk hne hc (by omega : got.length + c.data.length ≤ _)
      ((H1Body.chunked chunks lastSize lastExt trailer).bytes ++ x)
    rw [hsplit, Lib.loop_of_inl hround, ih ⟨fun c' hc' => h.chunks c' (List.mem_cons_of_mem _ hc'), h.last, h.trailer⟩
      (by rw [List.length_append]; omega)]
    simp

/-- In front of the end of the body there is more to come, unless the chunks are over the cap. -/
theorem chunkedScan_open {chunks : List H1Chunk} {lastSize lastExt : Bytes} {trailer : List Bytes}
    (h : LaxChunked chunks lastSize lastExt trailer)
    {got a y : Bytes} (hy : y ≠ [])
    (hcut : a ++ y = (H1Body.chunked chunks lastSize lastExt trailer).bytes) :
    Lib.loop chunkedRound _ chunkedRound_decreases (a, got) = .more ∨
      Lib.loop chunkedRound _ chunkedRound_decreases (a, got) = .bad ∧
        ZCIO_HTTP_MAX_RESPONSE < got.length + ((chunks.map (·.data)).flatten).length := by
  induction chunks generalizing got a with
  | nil =>
    have hsplit : a ++ y = (lastSize ++ lastExt ++ [CR]) ++ LF :: (fieldLines trailer ++ crlf) := by
      rw [hcut]
      simp [H1Body.bytes]
    rcases cut_line h.last.lfFree hsplit with ha | ⟨b, rfl, hb⟩
    · exact .inl (Lib.loop_of_inr (chunkedRound_cut ha))
    · have hround := chunkedRound_sizeLine h.last b got
      rw [if_pos rfl, trailerDone_short h.trailer hy hb, if_neg Bool.false_ne_true] at hround
      refine .inl (Lib.loop_of_inr ?_)
      simpa using hround
  | cons c chunks ih =>
    obtain ⟨hne, hc⟩ := h.chunks c List.mem_cons_self
    have hsplit : a ++ y = (c.size ++ c.ext ++ [CR]) ++
        LF :: (c.data ++ crlf ++ (H1Body.chunked chunks lastSize lastExt trailer).bytes) := by
      rw [hcut]
      simp [H1Body.bytes, chunkBytes]
    rcases cut_line hc.lfFree hsplit with ha | ⟨b, rfl, hb⟩
    · exact .inl (Lib.loop_of_inr (chunkedRound_cut ha))
    have hpos : c.data.length ≠ 0 := fun h => hne (List.eq_nil_of_length_eq_zero h)
    have hround := chunkedRound_sizeLine hc b got
    rw [if_neg hpos] at hround
    simp only [List.map_cons, List.flatten_cons, List.length_append]
    by_cases hcap : c.data.length > ZCIO_HTTP_MAX_RESPONSE ∨
        got.length + c.data.length > ZCIO_HTTP_MAX_RESPONSE
    · rw [if_pos hcap] at hround
      refine .inr ⟨Lib.loop_of_inr ?_, by omega⟩
      simpa using hround
    by_cases hshort : b.length < c.data.length + 2
    · -- the cut is within the data or its CRLF
      rw [if_neg hcap, if_pos hshort] at hround
      refine .inl (Lib.loop_of_inr ?_)
      simpa using hround
    · have hpre : c.data ++ crlf <+: b :=
        List.prefix_of_prefix_length_le ⟨_, hb.symm⟩ (List.prefix_append b y)
          (by rw [List.length_append]; exact Nat.not_lt.mp hshort)
      obtain ⟨m, rfl⟩ := hpre
      rw [List.append_assoc] at hb
      have hwhole := chunkedRound_chunk hne hc (by omega : got.length + c.data.length ≤ _) m
      have hshape : chunkBytes c ++ m =
          c.size ++ c.ext ++ [CR] ++ LF :: (c.data ++ crlf ++ m) := by
        simp [chunkBytes]
      rw [hshape] at hwhole
      rw [Lib.loop_of_inl hwhole]
      have hrest := @ih ⟨fun c' hc' => h.chunks c' (List.mem_cons_of_mem _ hc'), h.last, h.trailer⟩ (got ++ c.data) m
        (List.append_cancel_left hb)
      rwa [List.length_append, Nat.add_assoc] at hrest

/-- In front of the end of the body there is more to come. -/
theorem chunkedScan_cut {chunks : List H1Chunk} {lastSize lastExt : Bytes} {trailer : List Bytes}
    (h : LaxChunked chunks lastSize lastExt trailer)
    {got : Bytes} (hcap : got.length + ((chunks.map (·.data)).flatten).length ≤ ZCIO_HTTP_MAX_RESPONSE)
    {a y : Bytes} (hy : y ≠ [])
    (hcut : a ++ y = (H1Body.chunked chunks lastSize lastExt trailer).bytes) :
    Lib.loop chunkedRound _ chunkedRound_decreases (a, got) = .more :=
  (chunkedScan_open h hy hcut).resolve_right
    fun hbad => absurd hbad.2 (Nat.not_lt.mpr hcap)

/-! ### The header block

What the client finds in the head of a response that is valid, and the framing it takes from
it. -/

namespace RespMsg

variable {r : RespMsg}

/-- The header block, without the CRLFs that end it. -/
def head (r : RespMsg) : Bytes := joinLines r.line (r.fields.map (·.text))

theorem bytes_eq (r : RespMsg) : r.bytes = r.head ++ (crlf ++ crlf ++ r.body.bytes) := by
  have h := joinLines_crlf r.line (r.fields.map (·.text))
  rw [bytes, h, head]
  simp

theorem notMem_tail {c : UInt8} (hc : ∀ text, r.reason = some text → c ∉ text) (hsp : c ≠ SP) :
    c ∉ r.tail := by
  unfold tail
  split
  · exact List.not_mem_nil
  · rename_i text htext
    simp [hsp, hc text htext]

theorem notMem_line (hr : r.HeadOk) {c : UInt8} (hhttp : c ∉ str "HTTP/") (hsp : c ≠ SP) (hdot : c ≠ 46)
    (hdig : isDigit c = false) (hc : ∀ text, r.reason = some text → c ∉ text) : c ∉ r.line := by
  have hne : ∀ {d : UInt8}, isDigit d = true → c ≠ d := by
    rintro d hd rfl
    exact absurd hd (Bool.eq_false_iff.mp hdig)
  have hcode : c ∉ r.code := fun hm => hne (hr.code.2 c hm) rfl
  simp [line, hhttp, hsp, hdot, hcode, notMem_tail hc hsp, hne hr.version.1, hne hr.version.2]

theorem line_clean (hr : r.HeadOk) : CR ∉ r.line ∧ LF ∉ r.line :=
  ⟨notMem_line hr (by decide) (by decide) (by decide) (by decide) fun text h => (hr.reason text h).1,
    notMem_line hr (by decide) (by decide) (by decide) (by decide) fun text h => (hr.reason text h).2⟩

theorem headEnd_bytes (hr : r.HeadOk) (s : Bytes) :
    headEnd (r.head ++ (crlf ++ crlf ++ s)) = some r.head.length := by
  refine headEnd_joinLines (line_clean hr).1 ?_ s
  intro l hl
  obtain ⟨f, hf, rfl⟩ := List.mem_map.mp hl
  exact ⟨(text_clean (hr.fields f hf)).1, (text_clean (hr.fields f hf)).2.1⟩

/-- The status line is not a header's. -/
theorem findHeaderValue_head (hr : r.HeadOk) {k : UInt8} (hk : tolower k ≠ 104) (key : Bytes) :
    findHeaderValue r.head (k :: key) =
      ((r.fields.map (·.text)).findSome? (headerLineValue (k :: key))).map cstr := by
  have hlines : ∀ x ∈ r.line :: r.fields.map (·.text), LF ∉ x := by
    intro x hx
    rcases List.mem_cons.mp hx with rfl | hx
    · exact (line_clean hr).2
    · obtain ⟨f, hf, rfl⟩ := List.mem_map.mp hx
      exact (text_clean (hr.fields f hf)).2.2
  have hline : headerLineValue (k :: key) r.line = none := headerLineValue_head (c := 72) hk.symm key _
  rw [findHeaderValue, head, findSome_joinLines hlines, List.findSome?_cons, hline]

/-- The framing fields in the head. -/
theorem findHeaderValue_framing (hr : r.HeadOk) :
    findHeaderValue r.head (str "Content-Length") =
        ((r.fields.map (·.text)).findSome? (headerLineValue (str "Content-Length"))).map cstr ∧
      findHeaderValue r.head (str "Transfer-Encoding") =
        ((r.fields.map (·.text)).findSome? (headerLineValue (str "Transfer-Encoding"))).map cstr :=
  ⟨findHeaderValue_head (k := 67) hr (by decide) _, findHeaderValue_head (k := 84) hr (by decide) _⟩

/-- The body is framed by its length. -/
theorem length_fields (hr : r.Final) {b : Bytes} (hb : r.body = .length b)
    (hcap : b.length ≤ ZCIO_HTTP_MAX_RESPONSE) :
    ((r.fields.map (·.text)).findSome? (headerLineValue (str "Transfer-Encoding"))).map cstr = none ∧
      ∃ v, ((r.fields.map (·.text)).findSome? (headerLineValue (str "Content-Length"))).map cstr =
        some v ∧ atoll v = b.length := by
  have hframed := hr.framed
  rw [Framed, hb] at hframed
  obtain ⟨hte, v, hcl, hne, hdigits, hval⟩ := hframed
  have hmax : ZCIO_HTTP_MAX_RESPONSE < 2 ^ 63 := by decide
  refine ⟨fields_none hr.fields hte, ?_⟩
  obtain ⟨post, hpost, hfind⟩ := @fields_word r.fields hr.fields (str "Content-Length") v
    (by rw [show lower (str "Content-Length") = str "content-length" by decide, hcl]; rfl) hne
    fun c hc => (isDigit_facts c (hdigits c hc)).2.2
  refine ⟨v ++ post, hfind, ?_⟩
  rw [atoll_digits hne hdigits hpost, hval]
  omega

/-- The body is framed in chunks. -/
theorem chunked_fields (hr : r.Final) {chunks : List H1Chunk} {lastSize lastExt : Bytes}
    {trailer : List Bytes} (hb : r.body = .chunked chunks lastSize lastExt trailer) :
    ((r.fields.map (·.text)).findSome? (headerLineValue (str "Content-Length"))).map cstr = none ∧
      ∃ v, ((r.fields.map (·.text)).findSome? (headerLineValue (str "Transfer-Encoding"))).map cstr =
        some v ∧ strstr (lower v) (str "chunked") = true := by
  have hframed := hr.framed
  rw [Framed, hb] at hframed
  obtain ⟨hcl, ⟨v, hte, hci⟩, -⟩ := hframed
  have hlower : lower v = str "chunked" := beq_iff_eq.mp hci
  have hne : v ≠ [] := by
    rintro rfl
    exact absurd hlower (by decide)
  -- a coding that is chunked is one word of letters
  have hfacts : ∀ c : UInt8, tolower c ∈ str "chunked" → isWord c = true := by
    intro c hc
    have hne : ∀ d, tolower d ∉ str "chunked" → c ≠ d := fun d hd heq => hd (heq ▸ hc)
    simp [isWord, isOws, hne 0 (by decide), hne CR (by decide), hne LF (by decide), hne SP (by decide),
      hne HTAB (by decide)]
  have hword : ∀ c ∈ v, isWord c = true := by
    intro c hc
    exact hfacts c (hlower ▸ List.mem_map_of_mem hc)
  -- no Content-Length, and the first Transfer-Encoding is found
  refine ⟨fields_none hr.fields hcl, ?_⟩
  obtain ⟨post, -, hfind⟩ := @fields_word r.fields hr.fields (str "Transfer-Encoding") v
    (by rw [show lower (str "Transfer-Encoding") = str "transfer-encoding" by decide, hte]; rfl)
    hne hword
  refine ⟨v ++ post, hfind, ?_⟩
  -- with case folded it begins with the word asked for
  have hsplit : lower (v ++ post) = str "chunked" ++ lower post := by
    rw [← hlower]
    exact List.map_append
  rw [hsplit, strstr, List.any_eq_true]
  exact ⟨_, List.mem_cons_self, List.isPrefixOf_iff_prefix.mpr (List.prefix_append _ _)⟩

/-- The framing that `read_response` finds. -/
def framing (r : RespMsg) : RespFraming :=
  match r.body with
  | .length b => { bodyOff := r.head.length + 4, contentLen := b.length }
  | _ => { bodyOff := r.head.length + 4, chunked := true }

theorem respFraming_bytes (hr : r.Final) (hcap : r.body.octets.length ≤ ZCIO_HTTP_MAX_RESPONSE)
    (s : Bytes) : respFraming (r.head ++ (crlf ++ crlf ++ s)) = some r.framing := by
  obtain ⟨hcl, hte⟩ := findHeaderValue_framing hr.headOk
  rw [respFraming, headEnd_bytes hr.headOk, Option.map_some, List.take_left, saysChunked, hcl, hte]
  unfold framing
  cases hb : r.body with
  | none =>
    have hframed := hr.framed
    rw [Framed, hb] at hframed
    exact hframed.elim
  | length b =>
    rw [hb] at hcap
    obtain ⟨hnone, v, hv, hval⟩ := length_fields hr hb hcap
    rw [hnone, hv, Option.map_some, hval]
    rfl
  | chunked chunks lastSize lastExt trailer =>
    obtain ⟨hnone, v, hv, hval⟩ := chunked_fields hr hb
    rw [hnone, hv, Option.any_some, hval]
    rfl

/-- The body behind the header block, cut short or with anything behind it. -/
theorem respComplete_bytes (hr : r.Final) (hcap : r.body.octets.length ≤ ZCIO_HTTP_MAX_RESPONSE) :
    (∀ {b y : Bytes}, b ++ y = r.body.bytes → y ≠ [] →
      respComplete r.framing (r.head ++ (crlf ++ crlf ++ b)) = some false) ∧
    ∀ x : Bytes, respComplete r.framing (r.head ++ (crlf ++ crlf ++ (r.body.bytes ++ x))) = some true := by
  have hoff : ∀ s : Bytes, (r.head ++ (crlf ++ crlf ++ s)).drop (r.head.length + 4) = s := by
    intro s
    rw [← List.append_assoc]
    exact List.drop_left' (by simp)
  have hframed := hr.framed
  cases hb : r.body with
  -- the client knows two framings, and a response without one is not framed
  | none =>
    rw [Framed, hb] at hframed
    exact hframed.elim
  -- a length: complete with its last octet
  | length body =>
    have hframing : r.framing = { bodyOff := r.head.length + 4, contentLen := body.length } := by
      rw [framing, hb]
    simp only [hframing, respComplete, hoff, H1Body.bytes]
    refine ⟨fun {b y} hcut hy => ?_, fun x => ?_⟩
    · have hlen : b.length + y.length = body.length := by rw [← List.length_append, hcut]
      have hpos := List.length_pos_iff.mpr hy
      simp
      omega
    · simp
  -- chunks: complete with the empty line
  | chunked chunks lastSize lastExt trailer =>
    have hframing : r.framing = { bodyOff := r.head.length + 4, chunked := true } := by
      rw [framing, hb]
    have hlen : ([] : Bytes).length + ((chunks.map (·.data)).flatten).length ≤
        ZCIO_HTTP_MAX_RESPONSE := by
      rw [List.length_nil, Nat.zero_add]
      rwa [hb] at hcap
    simp only [hframing, respComplete, hoff, chunkedScan]
    refine ⟨fun {b y} hcut hy => ?_, fun x => ?_⟩
    · rw [chunkedScan_cut (hr.laxChunked hb) hlen hy hcut]
      rfl
    · rw [chunkedScan_loop (hr.laxChunked hb) hlen x]
      rfl

/-- A part of the message has the head cut short, or the whole of it. -/
theorem cut_head (hr : r.HeadOk) {a y : Bytes} (hcut : a ++ y = r.bytes) :
    (headEnd a = none ∧ a.length < r.head.length + 4) ∨
      ∃ b, a = r.head ++ (crlf ++ crlf ++ b) ∧ b ++ y = r.body.bytes := by
  have hwhole : r.head.length + 4 ≤ a.length →
      ∃ b, a = r.head ++ (crlf ++ crlf ++ b) ∧ b ++ y = r.body.bytes := fun hlen => by
    rw [bytes_eq, ← List.append_assoc] at hcut
    have hpre : r.head ++ (crlf ++ crlf) <+: a := by
      refine List.prefix_of_prefix_length_le ⟨r.body.bytes, ?_⟩ (List.prefix_append a y) ?_
      · rw [hcut, List.append_assoc, List.append_assoc]
      · rw [List.length_append]
        exact hlen
    obtain ⟨b, rfl⟩ := hpre
    exact ⟨b, List.append_assoc .., by simpa using hcut⟩
  cases hend : headEnd a with
  | none =>
    by_cases hlen : a.length < r.head.length + 4
    · exact .inl ⟨rfl, hlen⟩
    · obtain ⟨b, rfl, -⟩ := hwhole (not_lt.mp hlen)
      rw [headEnd_bytes hr] at hend
      cases hend
  | some i =>
    obtain ⟨hi, hlen⟩ := headEnd_some hend y
    rw [hcut, bytes_eq, headEnd_bytes hr] at hi
    obtain rfl : r.head.length = i := Option.some.inj hi
    exact .inr (hwhole hlen)

/-- In front of the end of the message, the header block is not whole or the body is not. -/
theorem respFraming_cut (hr : r.Final) (hcap : r.body.octets.length ≤ ZCIO_HTTP_MAX_RESPONSE)
    {a y : Bytes} (hcut : a ++ y = r.bytes) (hy : y ≠ []) :
    respFraming a = none ∨ respFraming a = some r.framing ∧ respComplete r.framing a = some false := by
  obtain ⟨hend, -⟩ | ⟨b, rfl, hb⟩ := cut_head hr.headOk hcut
  · left
    rw [respFraming, hend]
    rfl
  · right
    exact ⟨respFraming_bytes hr hcap b, (respComplete_bytes hr hcap).1 hb hy⟩

end RespMsg

/-! ### The reads

The loop over the reads of the transport. The invariant is that what was read is a beginning
of the response that is not complete. -/

/-- The reads it takes to get `n` octets, and the others. -/
def readsFor : Nat → List Bytes → List Bytes × List Bytes
  | 0, reads => ([], reads)
  | _ + 1, [] => ([], [])
  | n + 1, b :: reads =>
    let r := readsFor (n + 1 - b.length) reads
    (b :: r.1, r.2)

@[simp] theorem readsFor_zero (reads : List Bytes) : readsFor 0 reads = ([], reads) := by
  rw [readsFor]

theorem readsFor_cons {n : Nat} (hn : 0 < n) (b : Bytes) (reads : List Bytes) :
    readsFor n (b :: reads) =
      (b :: (readsFor (n - b.length) reads).1, (readsFor (n - b.length) reads).2) := by
  cases n with
  | zero => exact absurd hn (Nat.lt_irrefl 0)
  | succ n => rfl

/-- They bring the octets that were asked for. -/
theorem readsFor_flatten {reads : List Bytes} {y further : Bytes} (h : reads.flatten = y ++ further) :
    ∃ x, (readsFor y.length reads).1.flatten = y ++ x := by
  induction reads generalizing y with
  | nil =>
    obtain ⟨rfl, -⟩ := List.append_eq_nil_iff.mp h.symm
    exact ⟨[], rfl⟩
  | cons b reads ih =>
    by_cases hy : y = []
    · subst hy
      exact ⟨[], rfl⟩
    · rw [readsFor_cons (List.length_pos_iff.mpr hy)]
      rw [List.flatten_cons] at h
      rcases List.append_eq_append_iff.mp h with ⟨m, rfl, hm⟩ | ⟨m, rfl, hm⟩
      · obtain ⟨x, hx⟩ := ih hm
        refine ⟨x, ?_⟩
        rw [List.flatten_cons, List.length_append, Nat.add_sub_cancel_left, hx, List.append_assoc]
      · have hzero : y.length - (y ++ m).length = 0 := by simp
        refine ⟨m, ?_⟩
        rw [hzero, List.flatten_cons]
        simp

/-- No look at the clock finds the deadline over. -/
def InTime (io : HttpIo) (deadline : Nat) : Prop :=
  deadline = 0 ∨ io.now + io.ticks.sum < deadline

instance (io : HttpIo) (deadline : Nat) : Decidable (InTime io deadline) :=
  inferInstanceAs (Decidable (_ ∨ _))

theorem InTime.remaining {io : HttpIo} {deadline : Nat} (h : InTime io deadline) :
    (deadlineRemainingMs io deadline).1 ≠ 0 ∧ InTime (deadlineRemainingMs io deadline).2 deadline := by
  unfold deadlineRemainingMs
  split
  · rename_i hzero
    exact ⟨show (-1 : Int) ≠ 0 by decide, Or.inl hzero⟩
  · rename_i hne
    have hlt := h.resolve_left hne
    have hsum : io.ticks.headD 0 + io.ticks.tail.sum = io.ticks.sum := by
      cases io.ticks with
      | nil => rfl
      | cons t ticks => simp
    dsimp only [httpNow]
    rw [if_neg (by omega)]
    refine ⟨by omega, Or.inr ?_⟩
    show io.now + io.ticks.headD 0 + io.ticks.tail.sum < deadline
    omega

theorem httpRead_ok {c : HttpConn} {n : Nat} {b : Bytes} {reads : List (Except Int Bytes)}
    (h : c.reads = .ok b :: reads) (hb : b.length ≤ n) : httpRead c n = (.ok b, { c with reads }) := by
  unfold httpRead
  rw [h]
  dsimp only
  rw [if_pos hb]

/-- The framing stays as it was found. -/
theorem respFraming_or (a x : Bytes) : (respFraming a).or (respFraming (a ++ x)) = respFraming (a ++ x) := by
  cases hend : headEnd a with
  | none =>
    have hnone : respFraming a = none := by
      rw [respFraming, hend]
      rfl
    rw [hnone, Option.none_or]
  | some i =>
    obtain ⟨hi, hlen⟩ := headEnd_some hend x
    have hsome : respFraming a = respFraming (a ++ x) := by
      simp only [respFraming, hend, hi, Option.map_some]
      rw [List.take_append_of_le_length (by omega)]
    rw [hsome]
    exact Option.or_self

/-- One more read, before the deadline and under the cap. -/
theorem readResponseRound_chunk {deadline : Nat} {io : HttpIo} {conn : HttpConn} {out b : Bytes}
    {reads : List (Except Int Bytes)} (htime : InTime io deadline)
    (hreads : conn.reads = .ok b :: reads) (hb : b ≠ [] ∧ b.length ≤ 8192)
    (hcap : (out ++ b).length ≤ ZCIO_HTTP_MAX_RESPONSE) :
    ∃ io' conn', InTime io' deadline ∧ conn'.reads = reads ∧
      readResponseRound deadline { io, conn, out, framing := respFraming out } =
        match (respFraming (out ++ b)).map fun f => respComplete f (out ++ b) with
        | some (some true) => .inr (.ok (out ++ b), io', conn')
        | some none =>
            .inr (httpFail ZCIO_ERR_PROTOCOL (str "http: malformed chunked body"), io', conn')
        | _ => .inl { io := io', conn := conn', out := out ++ b, framing := respFraming (out ++ b) } := by
  obtain ⟨hrem, htime'⟩ := htime.remaining
  have hread := httpRead_ok (n := 8192)
    ((setTimeout_reads conn (deadlineRemainingMs io deadline).1).trans hreads) hb.2
  refine ⟨(deadlineRemainingMs io deadline).2,
    { conn.setTimeout (deadlineRemainingMs io deadline).1 with reads }, htime', rfl, ?_⟩
  rw [List.length_append] at hcap
  obtain ⟨c, t, rfl⟩ := List.exists_cons_of_ne_nil hb.1
  simp only [readResponseRound, if_neg hrem, hread, if_neg (Nat.not_lt.mpr hcap)]
  generalize hframing : (respFraming out).or (respFraming (out ++ c :: t)) = framing
  rw [respFraming_or] at hframing
  subst hframing
  rfl

/-- Behind the part `out` of the message, the reads go on until nothing is left of `y`. -/
theorem readResponse_loop {r : RespMsg} (hr : r.Final)
    (hbody : r.body.octets.length ≤ ZCIO_HTTP_MAX_RESPONSE) {deadline : Nat} {reads : List Bytes}
    {more : List (Except Int Bytes)} (hsize : ∀ b ∈ reads, b ≠ [] ∧ b.length ≤ 8192) :
    ∀ {io : HttpIo} {conn : HttpConn} {out y further : Bytes}, InTime io deadline →
      conn.reads = reads.map .ok ++ more → out ++ y = r.bytes → y ≠ [] →
      reads.flatten = y ++ further →
      (out ++ (readsFor y.length reads).1.flatten).length ≤ ZCIO_HTTP_MAX_RESPONSE →
      ∃ io' conn', Lib.loop (readResponseRound deadline) _ (readResponseRound_decreases deadline)
          { io, conn, out, framing := respFraming out } =
          (.ok (out ++ (readsFor y.length reads).1.flatten), io', conn') ∧
        conn'.reads = (readsFor y.length reads).2.map .ok ++ more := by
  induction reads with
  | nil =>
    intro io conn out y further _ _ _ hy hflat _
    exact absurd (List.append_eq_nil_iff.mp hflat.symm).1 hy
  | cons b reads ih =>
    intro io conn out y further htime hconn hout hy hflat hcap
    rw [readsFor_cons (List.length_pos_iff.mpr hy), List.flatten_cons] at hcap ⊢
    rw [List.flatten_cons] at hflat
    have hcap' : (out ++ b).length ≤ ZCIO_HTTP_MAX_RESPONSE := by
      simp only [List.length_append] at hcap ⊢
      omega
    obtain ⟨io', conn', htime', hconn', hround⟩ :=
      readResponseRound_chunk htime hconn (hsize b List.mem_cons_self) hcap'
    by_cases hlast : y.length ≤ b.length
    · -- the read has the rest of the message
      obtain ⟨x, rfl⟩ : y <+: b :=
        List.prefix_of_prefix_length_le ⟨further, hflat.symm⟩ (List.prefix_append b _) hlast
      have hwhole : out ++ (y ++ x) = r.head ++ (crlf ++ crlf ++ (r.body.bytes ++ x)) := by
        rw [← List.append_assoc, hout, RespMsg.bytes_eq]
        simp
      rw [hwhole, RespMsg.respFraming_bytes hr hbody, Option.map_some,
        (RespMsg.respComplete_bytes hr hbody).2] at hround
      have hzero : y.length - (y ++ x).length = 0 := by simp
      refine ⟨io', conn', ?_, ?_⟩
      · rw [Lib.loop_of_inr hround, hzero, ← hwhole]
        simp
      · rw [hzero, readsFor_zero]
        exact hconn'
    · obtain ⟨m, rfl⟩ : b <+: y :=
        List.prefix_of_prefix_length_le (List.prefix_append b _) ⟨further, hflat.symm⟩ (by omega)
      have hm : m ≠ [] := by
        rintro rfl
        simp at hlast
      have hrest : (out ++ b) ++ m = r.bytes := by rw [List.append_assoc, hout]
      have hround' : readResponseRound deadline { io, conn, out, framing := respFraming out } =
          .inl { io := io', conn := conn', out := out ++ b, framing := respFraming (out ++ b) } := by
        rcases RespMsg.respFraming_cut hr hbody hrest hm with hnone | ⟨hsome, hshort⟩
        · rw [hround, hnone]
          rfl
        · rw [hround, hsome, Option.map_some, hshort]
      have hsub : (b ++ m).length - b.length = m.length := by simp
      rw [hsub, ← List.append_assoc] at hcap
      rw [hsub]
      rw [List.append_assoc] at hflat
      obtain ⟨io'', conn'', hloop, hreads⟩ := ih (fun x hx => hsize x (List.mem_cons_of_mem _ hx))
        htime' hconn' hrest hm (List.append_cancel_left hflat) hcap
      refine ⟨io'', conn'', ?_, hreads⟩
      rw [Lib.loop_of_inl hround', hloop, List.append_assoc]

/-! ### Taking the buffer apart

Behind the last read the buffer is parsed as a whole: status line, fields, content. -/

namespace RespMsg

variable {r : RespMsg}

theorem statusLine_line (hr : r.HeadOk) :
    ∃ protocol version text, statusLine (r.line ++ [CR]) = some (protocol, version, r.code, text) := by
  have hdigit : ∀ c : UInt8, isDigit c = true → c ≠ SP ∧ c ≠ 0 := fun c hc =>
    ⟨fun heq => absurd (heq ▸ hc) (by decide), fun heq => absurd (heq ▸ hc) (by decide)⟩
  have hcode : ∀ c : UInt8, isDigit c = false → c ∉ r.code := fun c hc hm =>
    absurd (hr.code.2 c hm) (Bool.eq_false_iff.mp hc)
  have hfront : SP ∉ str "HTTP/" ++ [r.major, 46, r.minor] := by
    have hmajor := (hdigit r.major hr.version.1).1
    have hminor := (hdigit r.minor hr.version.2).1
    have hdot : SP ≠ (46 : UInt8) := by decide
    refine List.not_mem_append (by decide) ?_
    simp [hmajor.symm, hminor.symm, hdot]
  have hspace : memchr SP r.line = some 8 := memchr_append hfront _
  have hrest : r.line.drop 9 = r.code ++ r.tail := rfl
  have hspace2 : (memchr SP (r.code ++ r.tail)).getD (r.code ++ r.tail).length = r.code.length := by
    unfold tail
    split
    · rw [List.append_nil, memchr_eq_none.mpr (hcode SP (by decide))]
      rfl
    · rw [memchr_append (hcode SP (by decide))]
      rfl
  have hcstr : cstr r.code = r.code := cstr_eq_self (hcode 0 (by decide))
  have hlast : (r.line ++ [CR]).getLast? = some CR := List.getLast?_concat
  unfold statusLine
  simp only [hlast, if_pos, List.dropLast_concat, hspace, Option.map_some, hrest, hspace2,
    List.take_left, hcstr]
  exact ⟨_, _, _, rfl⟩

/-- `parse_response` finds the body again. -/
theorem responseBody_bytes (hr : r.Final) (hcap : r.body.octets.length ≤ ZCIO_HTTP_MAX_RESPONSE)
    {block : Bytes} (hblock : ∀ key, findHeaderValue block key =
      ((r.fields.map (·.text)).findSome? (headerLineValue key)).map cstr) (x : Bytes) :
    responseBody block (r.body.bytes ++ x) = .ok r.body.octets := by
  have hframed := hr.framed
  cases hb : r.body with
  | none =>
    rw [Framed, hb] at hframed
    exact hframed.elim
  -- a length: so many octets from the front
  | length b =>
    rw [hb] at hcap
    obtain ⟨hnone, v, hv, hval⟩ := length_fields hr hb hcap
    have hsays : saysChunked block = false := by
      rw [saysChunked, hblock, hnone]
      rfl
    rw [responseBody, hsays, if_neg Bool.false_ne_true, hblock, hv]
    simp only [hval, H1Body.bytes, H1Body.octets, Int.toNat_natCast, List.take_left]
    by_cases hx : x = []
    · simp [hx]
    · have hpos := List.length_pos_iff.mpr hx
      rw [if_pos (by rw [List.length_append]; omega)]
  -- chunks: the payloads joined
  | chunked chunks lastSize lastExt trailer =>
    obtain ⟨-, v, hv, hval⟩ := chunked_fields hr hb
    have hsays : saysChunked block = true := by
      rw [saysChunked, hblock, hv, Option.any_some, hval]
    have hlen : ([] : Bytes).length + ((chunks.map (·.data)).flatten).length ≤
        ZCIO_HTTP_MAX_RESPONSE := by
      rw [List.length_nil, Nat.zero_add]
      rwa [hb] at hcap
    rw [responseBody, if_pos hsays, chunkedScan, chunkedScan_loop (hr.laxChunked hb) hlen x]
    rfl

/-- There is a framing field. -/
theorem Final.fields_ne_nil (hr : r.Final) : r.fields ≠ [] := by
  intro hfields
  have hframed := hr.framed
  rw [Framed, hfields] at hframed
  cases hb : r.body with
  | none =>
    rw [hb] at hframed
    exact hframed.elim
  | length b =>
    rw [hb] at hframed
    obtain ⟨-, v, hv, -⟩ := hframed
    cases hv
  | chunked chunks lastSize lastExt trailer =>
    rw [hb] at hframed
    obtain ⟨-, ⟨v, hv, -⟩, -⟩ := hframed
    cases hv

/-- The block behind the status line. -/
theorem block_of_head (hr : r.HeadOk) (hne : r.fields ≠ []) :
    ∃ block, r.head = (r.line ++ [CR]) ++ LF :: block ∧ ∀ key, findHeaderValue block key =
      ((r.fields.map (·.text)).findSome? (headerLineValue key)).map cstr := by
  cases hfields : r.fields with
  | nil => exact absurd hfields hne
  | cons f fs =>
    refine ⟨joinLines f.text (fs.map (·.text)), ?_, fun key => ?_⟩
    · rw [head, hfields, List.map_cons, joinLines]
      simp
    · have hlines : ∀ x ∈ f.text :: fs.map (·.text), LF ∉ x := by
        intro x hx
        rw [← List.map_cons, ← hfields] at hx
        obtain ⟨g, hg, rfl⟩ := List.mem_map.mp hx
        exact (text_clean (hr.fields g hg)).2.2
      rw [findHeaderValue, findSome_joinLines hlines, List.map_cons]

theorem atoi_code (hr : r.HeadOk) : atoi r.code = decVal r.code := by
  obtain ⟨hlen, hdigits⟩ := hr.code
  have hne : r.code ≠ [] := by
    intro hnil
    rw [hnil] at hlen
    cases hlen
  refine atoi_digits hne hdigits ?_
  obtain ⟨a, b, c, hcode⟩ := List.length_eq_three.mp hlen
  have ha := a.toNat_lt
  have hb := b.toNat_lt
  have hc := c.toNat_lt
  rw [hcode, decVal]
  simp only [List.foldl_cons, List.foldl_nil]
  omega

/-- `parse_response` on a whole head and anything behind it. -/
theorem parseResponse_head (hr : r.HeadOk) (hne : r.fields ≠ []) (s : Bytes) :
    ∃ (block : Bytes) (resp : HttpResponse) (location : Option Bytes),
      (∀ key, findHeaderValue block key =
        ((r.fields.map (·.text)).findSome? (headerLineValue key)).map cstr) ∧
      resp.status = decVal r.code ∧
      parseResponse (r.head ++ (crlf ++ crlf ++ s)) =
        (responseBody block s).map fun body => ({ resp with body }, location) := by
  obtain ⟨block, hhead, hblock⟩ := block_of_head hr hne
  obtain ⟨protocol, version, text, hstatus⟩ := statusLine_line hr
  -- the status line ends at the first LF, since it holds none
  have hlf : LF ∉ r.line ++ [CR] := List.not_mem_append (line_clean hr).2 (by decide)
  have hend : memchr LF r.head = some (r.line ++ [CR]).length := by
    rw [hhead]
    exact memchr_append hlf _
  have htake : r.head.take (r.line ++ [CR]).length = r.line ++ [CR] := by
    rw [hhead, List.take_left]
  -- the field block is what follows it
  have hdrop : r.head.drop ((r.line ++ [CR]).length + 1) = block := by
    have hlen : (r.line ++ [CR] ++ [LF]).length = (r.line ++ [CR]).length + 1 := List.length_append
    rw [hhead, List.append_cons (r.line ++ [CR])]
    exact List.drop_left' hlen
  have hbody : (r.head ++ (crlf ++ crlf ++ s)).drop (r.head.length + 4) = s := by
    rw [← List.append_assoc]
    exact List.drop_left' (by simp)
  refine ⟨block, { protocol, version, statusCode := r.code, statusText := text
                   headersJson := headersJson block, body := [], status := decVal r.code },
    findHeaderValue block (str "Location"), hblock, rfl, ?_⟩
  simp only [parseResponse, headEnd_bytes hr, List.take_left, hend, htake, hstatus, hdrop, hbody,
    atoi_code hr]
  cases responseBody block s with
  | error e => rfl
  | ok body => rfl

theorem parseResponse_bytes (hr : r.Final) (hcap : r.body.octets.length ≤ ZCIO_HTTP_MAX_RESPONSE)
    (x : Bytes) :
    ∃ resp location, parseResponse (r.bytes ++ x) = .ok (resp, location) ∧
      resp.status = decVal r.code ∧ resp.body = r.body.octets := by
  obtain ⟨block, resp, location, hblock, hstatus, hparse⟩ :=
    parseResponse_head hr.headOk hr.fields_ne_nil (r.body.bytes ++ x)
  have hraw : r.bytes ++ x = r.head ++ (crlf ++ crlf ++ (r.body.bytes ++ x)) := by
    rw [bytes_eq]
    simp
  rw [hraw, hparse, responseBody_bytes hr hcap hblock]
  exact ⟨_, _, rfl, hstatus, rfl⟩

/-- The octets of a body are on the wire. -/
theorem octets_length_le (r : RespMsg) : r.body.octets.length ≤ r.bytes.length := by
  have hbody : r.body.octets.length ≤ r.body.bytes.length := by
    cases r.body with
    | none => exact Nat.le_refl _
    | length b => exact Nat.le_refl _
    | chunked chunks lastSize lastExt trailer =>
      have hchunks : ((chunks.map (·.data)).flatten).length ≤ ((chunks.map chunkBytes).flatten).length := by
        induction chunks with
        | nil => exact Nat.le_refl _
        | cons c chunks ih =>
          simp only [List.map_cons, List.flatten_cons, List.length_append, chunkBytes]
          omega
      simp only [H1Body.octets, H1Body.bytes, List.length_append]
      omega
  rw [bytes_eq, List.length_append, List.length_append]
  omega

end RespMsg

/-! ### The client

A final response is returned whole, whatever the reads were it came in, and octets behind it
are left out. -/

/-- The reads up to the one that completes a final response are the client's buffer, and the response
is parsed out of it. -/
theorem readResponse_reads {r : RespMsg} (hr : r.Final) {reads : List Bytes} {further : Bytes}
    (hreads : reads.flatten = r.bytes ++ further) (hsize : ∀ b ∈ reads, b ≠ [] ∧ b.length ≤ 8192)
    (hcap : (readsFor r.bytes.length reads).1.flatten.length ≤ ZCIO_HTTP_MAX_RESPONSE)
    {io : HttpIo} {conn : HttpConn} {more : List (Except Int Bytes)}
    (hconn : conn.reads = reads.map .ok ++ more) {deadline : Nat} (htime : InTime io deadline) :
    ∃ io' conn' resp location,
      readResponse io conn deadline =
        (.ok (readsFor r.bytes.length reads).1.flatten, io', conn') ∧
      conn'.reads = (readsFor r.bytes.length reads).2.map .ok ++ more ∧
      parseResponse (readsFor r.bytes.length reads).1.flatten = .ok (resp, location) ∧
      resp.status = decVal r.code ∧ resp.body = r.body.octets := by
  obtain ⟨x, hx⟩ := readsFor_flatten hreads
  have hbody : r.body.octets.length ≤ ZCIO_HTTP_MAX_RESPONSE := by
    have hle := r.octets_length_le
    rw [hx, List.length_append] at hcap
    omega
  have hne : r.bytes ≠ [] := by
    rw [RespMsg.bytes_eq]
    simp
  obtain ⟨io', conn', hloop, hrest⟩ := readResponse_loop hr hbody hsize htime hconn
    (List.nil_append r.bytes) hne hreads hcap
  obtain ⟨resp, location, hparse, hstatus, hoctets⟩ := RespMsg.parseResponse_bytes hr hbody x
  rw [← hx] at hparse
  exact ⟨io', conn', resp, location, hloop, hrest, hparse, hstatus, hoctets⟩

/-- **The client reads exactly the framed response.** However the stream splits a final response
and the octets behind it, the client stops with the read that completes the body, and takes the
status and the body out of its buffer. `more` is what the stream would bring after that. -/
theorem readResponse_framed (r : RespMsg) (hr : r.Final) (reads : List Bytes) (further : Bytes)
    (hreads : reads.flatten = r.bytes ++ further) (hsize : ∀ b ∈ reads, b ≠ [] ∧ b.length ≤ 8192)
    (hcap : (readsFor r.bytes.length reads).1.flatten.length ≤ ZCIO_HTTP_MAX_RESPONSE)
    (io : HttpIo) (conn : HttpConn) (more : List (Except Int Bytes))
    (hconn : conn.reads = reads.map .ok ++ more) (deadline : Nat) (htime : InTime io deadline) :
    ∃ io' conn' resp location,
      readResponse io conn deadline =
        (.ok (readsFor r.bytes.length reads).1.flatten, io', conn') ∧
      conn'.reads = (readsFor r.bytes.length reads).2.map .ok ++ more ∧
      parseResponse (readsFor r.bytes.length reads).1.flatten = .ok (resp, location) ∧
      resp.status = decVal r.code ∧ resp.body = r.body.octets :=
  readResponse_reads hr hreads hsize hcap hconn htime

/-- A body in chunks, cut within the header terminator, a size line and the trailer. -/
def sampleResponse : RespMsg where
  major := 49
  minor := 49
  code := str "200"
  reason := some (str "OK")
  fields := [{ name := str "Transfer-Encoding", pre := str " ", value := str "Chunked" }]
  body := .chunked [{ size := str "0a", ext := str ";x=1", data := str "0123456789" },
    { size := str "1", data := str "a" }] (str "00") [] [str "Trailer: v"]

def sampleReads : List Bytes :=
  [str "HTTP/1.1 200 OK\r\nTransfer-Encoding: Chunked\r\n\r", str "\n0", str "a;x=1\r\n01234",
    str "56789\r", str "\n1\r\na\r\n00\r\nTrail", str "er: v\r\n\r", str "\nHTTP/1.1 ", str "500"]

theorem sampleResponse_final : sampleResponse.Final where
  version := by decide
  code := by decide +kernel
  final := by decide
  reason := by
    intro text htext
    obtain rfl : str "OK" = text := Option.some.inj htext
    decide
  fields := by
    intro f hf
    obtain rfl := List.mem_singleton.mp hf
    exact ⟨by decide, by decide, by decide +kernel, by decide +kernel⟩
  framed := by
    refine ⟨by decide, ⟨str "Chunked", by decide, by decide⟩, ?_, ?_, by decide⟩
    · intro c hc
      rcases List.mem_cons.mp hc with rfl | hc
      · exact ⟨by decide, by decide, by decide +kernel, by decide, by decide, by decide⟩
      · obtain rfl := List.mem_singleton.mp hc
        exact ⟨by decide, by decide, by decide +kernel, by decide, by decide, by decide⟩
    · exact ⟨by decide, by decide +kernel, by decide, by decide, by decide⟩

theorem readResponse_framed_sample :
    ∃ io' conn' resp location,
      readResponse {} { reads := sampleReads.map .ok ++ [.error ZCIO_ERR_TIMEOUT], number := 0, tls := false } 0 =
        (.ok (sampleReads.take 7).flatten, io', conn') ∧
      conn'.reads = [.ok (str "500"), .error ZCIO_ERR_TIMEOUT] ∧
      parseResponse (sampleReads.take 7).flatten = .ok (resp, location) ∧
      resp.status = 200 ∧ resp.body = str "0123456789a" :=
  readResponse_framed sampleResponse sampleResponse_final sampleReads (str "HTTP/1.1 500")
    (by decide) (by decide) (by decide) {} _ [.error ZCIO_ERR_TIMEOUT] rfl 0 (Or.inl rfl)

end Zcio.Http
