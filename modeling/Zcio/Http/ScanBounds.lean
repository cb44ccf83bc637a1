import Zcio.Http.Chunked

/-!
# Zcio.Http.ScanBounds

Which octets `chunked_scan` looks at. The data is not a C string, and `strtoull` does not know where
it ends: in front of a number it skips whitespace, the newline of the size line with it, so that it
leaves the data where nothing else stops it.
-/

namespace Zcio.Http

/-! ### The octets of a number

How far `strtoul` looks: up to the first octet that is no digit, and that one too. -/

/-- The octets of `0x`, which `strtoull` looks behind before it takes them. -/
def hexMarkLength : Bytes → Nat
  | 48 :: x :: _ => if tolower x = 120 then 2 else 0
  | _ => 0

/-- The number of octets that `strtoull(s, &stop, 16)` looks at: whitespace, a sign, `0x`, digits and
the octet that is none of these. -/
def strtoullReads (s : Bytes) : Nat :=
  let blank := (s.takeWhile isSpace).length
  let signed := s.drop blank
  let t := signed.drop (signLength signed)
  let mark := hexMarkLength t
  blank + signLength signed + mark + ((t.drop mark).takeWhile (isDigitOf 16)).length + 1

/-- Nothing but the beginning of a number. -/
def numberText (s : Bytes) : Bool :=
  let signed := s.dropWhile isSpace
  let t := signed.drop (signLength signed)
  (t.drop (hexMarkLength t)).all (isDigitOf 16)

theorem takeWhile_append_length (p : UInt8 → Bool) (y b : Bytes) :
    ((y ++ b).takeWhile p).length + 1 ≤ y.length ↔ y.all p = false := by
  induction y with
  | nil => simp
  | cons c y ih =>
    by_cases hc : p c = true
    · rw [List.cons_append, List.takeWhile_cons_of_pos hc, List.all_cons, hc, Bool.true_and, ← ih,
        List.length_cons, List.length_cons]
      omega
    · rw [List.cons_append, List.takeWhile_cons_of_neg hc, List.all_cons, Bool.eq_false_iff.mpr hc]
      simp

theorem takeWhile_append_of_not_all {p : UInt8 → Bool} {y : Bytes} (h : y.all p = false) (b : Bytes) :
    (y ++ b).takeWhile p = y.takeWhile p := by
  have hlen := (takeWhile_append_length p y []).mpr h
  rw [List.append_nil] at hlen
  rw [List.takeWhile_append, if_neg (by omega)]

theorem hexMarkLength_le (s : Bytes) : hexMarkLength s ≤ 2 := by
  unfold hexMarkLength
  split
  · split
    · exact Nat.le_refl _
    · exact Nat.zero_le _
  · exact Nat.zero_le _

theorem hexMarkLength_eq_zero {c : UInt8} (hc : c ≠ 48) (s : Bytes) : hexMarkLength (c :: s) = 0 := by
  unfold hexMarkLength
  split
  · rename_i heq
    exact absurd (List.cons.inj heq).1 hc
  · rfl

/-- Two octets tell whether there is a mark. -/
theorem hexMarkLength_append (c d : UInt8) (s b : Bytes) :
    hexMarkLength (c :: d :: s ++ b) = hexMarkLength (c :: d :: s) := by
  by_cases hc : c = 48
  · subst hc
    rfl
  · rw [List.cons_append, hexMarkLength_eq_zero hc, hexMarkLength_eq_zero hc]

theorem ne_zero_of_not_hex {c : UInt8} (h : isDigitOf 16 c = false) : c ≠ 48 := by
  rintro rfl
  exact absurd h (by decide)

/-- The octets behind the whitespace and the sign that `strtoull` looks at. -/
theorem digitReads_le (t b : Bytes) :
    hexMarkLength (t ++ b) + ((t ++ b).drop (hexMarkLength (t ++ b)) |>.takeWhile (isDigitOf 16)).length + 1 ≤
        t.length ↔
      (t.drop (hexMarkLength t)).all (isDigitOf 16) = false := by
  match t with
  | [] => simp
  | [c] =>
    have hmark : hexMarkLength [c] = 0 := by
      by_cases hc : c = 48
      · subst hc
        rfl
      · exact hexMarkLength_eq_zero hc []
    by_cases hc : isDigitOf 16 c = true
    · -- behind a digit there is a further look
      have hall : ([c].drop (hexMarkLength [c])).all (isDigitOf 16) = true := by
        rw [hmark, List.drop_zero, List.all_cons, hc]
        rfl
      rw [hall, List.cons_append, List.nil_append, List.length_singleton]
      refine iff_of_false ?_ (by decide)
      intro hle
      have hzero : hexMarkLength (c :: b) = 0 := by omega
      rw [hzero, List.drop_zero, List.takeWhile_cons_of_pos hc, List.length_cons] at hle
      omega
    · have hmark' : hexMarkLength (c :: b) = 0 := hexMarkLength_eq_zero (ne_zero_of_not_hex (Bool.eq_false_iff.mpr hc)) b
      rw [hmark, List.drop_zero, List.cons_append, List.nil_append, hmark', List.drop_zero,
        List.takeWhile_cons_of_neg hc, List.all_cons, Bool.eq_false_iff.mpr hc]
      exact iff_of_true (Nat.le_refl _) rfl
  | c :: d :: t =>
    have hle := hexMarkLength_le (c :: d :: t)
    have hlen : hexMarkLength (c :: d :: t) ≤ (c :: d :: t).length := by
      simp only [List.length_cons]
      omega
    rw [hexMarkLength_append, List.drop_append_of_le_length hlen, ← takeWhile_append_length _ _ b,
      List.length_drop]
    omega

theorem leadLength_eq_zero {c : UInt8} (hc : c ≠ 48) (s : Bytes) : leadLength 16 (c :: s) = 0 := by
  unfold leadLength
  split
  · rename_i heq
    exact absurd (List.cons.inj heq).1 hc
  · rfl

/-- The `0x` that is taken is that of the text, when the text has more than the beginning of a number. -/
theorem leadLength_append {t : Bytes} (h : (t.drop (hexMarkLength t)).all (isDigitOf 16) = false) (b : Bytes) :
    leadLength 16 (t ++ b) = leadLength 16 t ∧ (t.drop (leadLength 16 t)).all (isDigitOf 16) = false ∧
      leadLength 16 t ≤ t.length := by
  cases t with
  | nil => cases h
  | cons c t =>
    by_cases hc : c = 48
    · subst hc
      match t with
      | [] => exact absurd h (by decide)
      | [d] =>
        have hd : tolower d ≠ 120 := by
          intro hd
          rw [hexMarkLength, if_pos hd] at h
          cases h
        have hlead : leadLength 16 [48, d] = 0 := rfl
        have hmark : hexMarkLength [48, d] = 0 := if_neg hd
        rw [hmark] at h
        rw [hlead]
        refine ⟨?_, h, Nat.zero_le _⟩
        cases b with
        | nil => rfl
        | cons e b => exact if_neg fun hx => hd hx.2.1
      | d :: e :: t =>
        refine ⟨rfl, ?_, ?_⟩
        · rw [leadLength]
          rw [hexMarkLength] at h
          by_cases hd : tolower d = 120
          · rw [if_pos hd] at h
            by_cases he : isDigitOf 16 e = true
            · rwa [if_pos ⟨rfl, hd, he⟩]
            · -- the mark is no digit itself
              rw [if_neg fun hx => he hx.2.2, List.drop_zero, List.all_cons, List.all_cons,
                Bool.eq_false_iff.mpr fun hx => hexDigit_not_x d hx hd, Bool.false_and, Bool.and_false]
          · rw [if_neg hd] at h
            rwa [if_neg fun hx => hd hx.2.1]
        · rw [leadLength]
          split
          · simp
          · exact Nat.zero_le _
    · rw [List.cons_append, leadLength_eq_zero hc, leadLength_eq_zero hc]
      rw [hexMarkLength_eq_zero hc] at h
      exact ⟨rfl, h, Nat.zero_le _⟩

/-! ### Signs and whitespace

What `strtoul` passes in front of the digits. -/

theorem signLength_le (s : Bytes) : signLength s ≤ 1 := by
  unfold signLength
  split
  · exact Nat.le_refl _
  · exact Nat.le_refl _
  · exact Nat.zero_le _

theorem signLength_append {s : Bytes} (h : s ≠ []) (b : Bytes) : signLength (s ++ b) = signLength s := by
  obtain ⟨c, t, rfl⟩ := List.exists_cons_of_ne_nil h
  have hcons (x : Bytes) : signLength (c :: x) = if c = 45 ∨ c = 43 then 1 else 0 := by
    by_cases hminus : c = 45
    · subst hminus
      rfl
    by_cases hplus : c = 43
    · subst hplus
      rfl
    rw [if_neg (not_or.mpr ⟨hminus, hplus⟩)]
    unfold signLength
    split
    · exact absurd (List.cons.inj ‹_›).1 hminus
    · exact absurd (List.cons.inj ‹_›).1 hplus
    · rfl
  rw [List.cons_append, hcons, hcons]

/-- The sign and the rest of a text that is not only whitespace. -/
theorem sign_append {s : Bytes} (h : s ≠ []) (b : Bytes) :
    signLength (s ++ b) = signLength s ∧
      (s ++ b).drop (signLength (s ++ b)) = s.drop (signLength s) ++ b ∧ signLength s ≤ s.length := by
  have hlen : signLength s ≤ s.length := (signLength_le s).trans (List.length_pos_of_ne_nil h)
  refine ⟨signLength_append h b, ?_, hlen⟩
  rw [signLength_append h b, List.drop_append_of_le_length hlen]

/-- The whitespace of a text that is not only whitespace. -/
theorem blank_append {w : Bytes} (h : w.dropWhile isSpace ≠ []) (b : Bytes) :
    (w ++ b).takeWhile isSpace = w.takeWhile isSpace ∧
      (w ++ b).drop (w.takeWhile isSpace).length = w.dropWhile isSpace ++ b := by
  have hsum : (w.takeWhile isSpace).length + (w.dropWhile isSpace).length = w.length := by
    rw [← List.length_append, List.takeWhile_append_dropWhile]
  have hpos := List.length_pos_of_ne_nil h
  refine ⟨?_, ?_⟩
  · rw [List.takeWhile_append, if_neg (by omega)]
  · rw [List.drop_append_of_le_length (by omega)]
    congr 1
    nth_rewrite 2 [← @List.takeWhile_append_dropWhile _ isSpace w]
    exact List.drop_left

/-- **What keeps a number inside**: of `w` and what is behind it, `strtoull` looks at `w` only, unless
that is nothing but the beginning of a number. -/
theorem strtoullReads_le (w b : Bytes) : strtoullReads (w ++ b) ≤ w.length ↔ numberText w = false := by
  have hsum : (w.takeWhile isSpace).length + (w.dropWhile isSpace).length = w.length := by
    rw [← List.length_append, List.takeWhile_append_dropWhile]
  by_cases hnil : w.dropWhile isSpace = []
  · have hall : (w ++ b).takeWhile isSpace = w ++ b.takeWhile isSpace := by
      rw [List.takeWhile_append, if_pos (by rw [← hsum, hnil]; rfl)]
    refine iff_of_false ?_ ?_
    · rw [strtoullReads, hall, List.length_append]
      omega
    · rw [numberText, hnil]
      decide
  obtain ⟨hblank, hsigned⟩ := blank_append hnil b
  obtain ⟨hsign, hdigits, hlen⟩ := sign_append hnil b
  rw [strtoullReads, numberText, hblank, hsigned, hdigits, hsign, ← digitReads_le _ b, List.length_drop]
  omega

/-- And then what is behind it does not matter. -/
theorem strtoNum_append {w : Bytes} (h : numberText w = false) (b : Bytes) :
    strtoNum 16 (w ++ b) = strtoNum 16 w := by
  by_cases hnil : w.dropWhile isSpace = []
  · rw [numberText, hnil] at h
    exact absurd h (by decide)
  obtain ⟨hblank, hsigned⟩ := blank_append hnil b
  obtain ⟨hsign, hdigits, hlen⟩ := sign_append hnil b
  have hself : w.drop (w.takeWhile isSpace).length = w.dropWhile isSpace := by
    have := (blank_append hnil []).2
    rwa [List.append_nil, List.append_nil] at this
  have hhead : (w.dropWhile isSpace ++ b).head? = (w.dropWhile isSpace).head? := by
    obtain ⟨c, t, ht⟩ := List.exists_cons_of_ne_nil hnil
    rw [ht]
    rfl
  rw [numberText] at h
  generalize ht : (w.dropWhile isSpace).drop (signLength (w.dropWhile isSpace)) = t at h hdigits
  obtain ⟨hlead, hnot, hle⟩ := leadLength_append h b
  rw [hsign] at hdigits
  simp only [strtoNum, hblank, hsigned, hdigits, hsign, hself, ht, hhead, hlead,
    List.drop_append_of_le_length hle, takeWhile_append_of_not_all hnot]

theorem strtoull16_append {w : Bytes} (h : numberText w = false) (b : Bytes) :
    strtoull16 (w ++ b) = strtoull16 w := by
  rw [strtoull16, strtoNum_append h b, strtoull16]

/-! ### The scan and what it looks at

The octets the scan looks at, as indices into the buffer. -/

/-- The octets that the loop over the trailers looks at. -/
def trailerReads (p : Bytes) : Nat :=
  match hline : memchr LF p with
  | none => p.length
  | some te =>
    if te = 0 ∨ (te = 1 ∧ p.head? = some CR) then te + 1
    else te + 1 + trailerReads (p.drop (te + 1))
termination_by p.length
decreasing_by
  have hlt := memchr_lt hline
  rw [List.length_drop]
  omega

/-- Where a scan is: `p` as an offset, `total`, and what it has looked at so far, as offsets and
lengths. -/
structure ScanAt where
  off : Nat
  total : Nat
  reads : List (Nat × Nat)

/-- A round of `chunked_scan` on `range`, with `behind` in the memory behind it; with a destination
(`copy`) the data are copied. -/
def scanReadsRound (range behind : Bytes) (copy : Bool) (s : ScanAt) : ScanAt ⊕ (Int × List (Nat × Nat)) :=
  let p := range.drop s.off
  match memchr LF p with
  | none => .inr (0, s.reads ++ [(s.off, p.length)])
  | some lineEnd =>
    -- `strtoull` gets the pointer only
    let reads := s.reads ++ [(s.off, lineEnd + 1), (s.off, strtoullReads (p ++ behind))]
    match strtoull16 (p ++ behind) with
    | none => .inr (-1, reads)
    | some (sz, stop) =>
      if stop > lineEnd then .inr (-1, reads)
      else
        let off := s.off + (lineEnd + 1)
        let p := p.drop (lineEnd + 1)
        if sz = 0 then .inr (if trailerDone p then 1 else 0, reads ++ [(off, trailerReads p)])
        else if sz > ZCIO_HTTP_MAX_RESPONSE ∨ s.total + sz > ZCIO_HTTP_MAX_RESPONSE then .inr (-1, reads)
        else if p.length < sz + 2 then .inr (0, reads)
        else
          let reads := reads ++ (if copy then [(off, sz)] else []) ++
            [(off + sz, if (p.drop sz).head? = some CR then 2 else 1)]
          if (p.drop sz).take 2 = crlf then .inl { off := off + (sz + 2), total := s.total + sz, reads }
          else .inr (-1, reads)

theorem scanReadsRound_decreases (range behind : Bytes) (copy : Bool) :
    Lib.Decreases (scanReadsRound range behind copy) fun s => range.length - s.off := by
  intro s s' h
  simp only [scanReadsRound] at h
  split at h
  · cases h
  rename_i lineEnd hline
  have hlt := memchr_lt hline
  rw [List.length_drop] at hlt
  split at h
  · cases h
  split at h
  · cases h
  split at h
  · cases h
  split at h
  · cases h
  split at h
  · cases h
  split at h
  · cases h
    dsimp only
    omega
  · cases h

/-- `chunked_scan` on `range`: its result, and what it looks at. -/
def scanReads (range behind : Bytes) (copy : Bool) : Int × List (Nat × Nat) :=
  Lib.loop (scanReadsRound range behind copy) _ (scanReadsRound_decreases range behind copy)
    { off := 0, total := 0, reads := [] }

/-- The octets looked at are within `len`. -/
def InRange (len : Nat) (reads : List (Nat × Nat)) : Prop := ∀ r ∈ reads, r.1 + r.2 ≤ len

/-- The result of a scan as a number. -/
def ChunkScan.code : ChunkScan → Int
  | .done _ => 1
  | .more => 0
  | .bad => -1

/-- `p` has complete chunks with `total` octets before it, and behind further ones of them comes `w`,
where the next size line should be. -/
inductive AtSizeLine : Bytes → Nat → Bytes → Prop
  | here (p : Bytes) (total : Nat) : AtSizeLine p total p
  | chunk {line data rest w : Bytes} {total stop : Nat} (hline : LF ∉ line)
      (hsize : strtoull16 (line ++ LF :: (data ++ crlf ++ rest)) = some (data.length, stop))
      (hstop : stop ≤ line.length) (hdata : data ≠ []) (hcap : total + data.length ≤ ZCIO_HTTP_MAX_RESPONSE)
      (hrest : AtSizeLine rest (total + data.length) w) :
      AtSizeLine (line ++ LF :: (data ++ crlf ++ rest)) total w

theorem trailerReads_le (p : Bytes) : trailerReads p ≤ p.length := by
  fun_induction trailerReads p with
  | case1 p hline => exact Nat.le_refl _
  | case2 p te hline hblank => exact memchr_lt hline
  | case3 p te hline hblank ih =>
    have hlt := memchr_lt hline
    rw [List.length_drop] at ih
    omega

/-- A complete chunk is a round. -/
theorem chunkedRound_whole {line data rest got : Bytes} {stop : Nat} (hline : LF ∉ line)
    (hsize : strtoull16 (line ++ LF :: (data ++ crlf ++ rest)) = some (data.length, stop))
    (hstop : stop ≤ line.length) (hdata : data ≠ []) (hcap : got.length + data.length ≤ ZCIO_HTTP_MAX_RESPONSE) :
    chunkedRound (line ++ LF :: (data ++ crlf ++ rest), got) = .inl (rest, got ++ data) := by
  have hdrop : (line ++ LF :: (data ++ crlf ++ rest)).drop (line.length + 1) = data ++ crlf ++ rest := by
    rw [List.drop_append, List.drop_eq_nil_of_le (by omega), List.nil_append, Nat.add_sub_cancel_left]
    rfl
  have hpos := List.length_pos_of_ne_nil hdata
  have hcrlf : (data ++ crlf ++ rest).drop data.length = crlf ++ rest := by
    rw [List.append_assoc]
    exact List.drop_left
  have hbehind : (data ++ crlf ++ rest).drop (data.length + 2) = rest := by
    rw [← List.drop_drop, hcrlf]
    rfl
  have htake : (data ++ crlf ++ rest).take data.length = data := by
    rw [List.append_assoc]
    exact List.take_left
  have hlen : ¬(data ++ crlf ++ rest).length < data.length + 2 := by
    simp only [List.length_append, show crlf.length = 2 from rfl]
    omega
  simp only [chunkedRound, memchr_append hline, hsize, hdrop]
  rw [if_neg (by omega), if_neg (by omega), if_neg (by omega), if_neg hlen, hcrlf, hbehind, htake]
  rfl

/-- The chunk of a further round. -/
theorem atSizeLine_inl {p got p' got' : Bytes} (h : chunkedRound (p, got) = .inl (p', got')) (w : Bytes) :
    AtSizeLine p got.length w ↔ w = p ∨ AtSizeLine p' got'.length w := by
  constructor
  · intro hw
    generalize htotal : got.length = total at hw
    cases hw with
    | here => exact .inl rfl
    | chunk hline hsize hstop hdata hcap hrest =>
      subst htotal
      rw [chunkedRound_whole hline hsize hstop hdata hcap] at h
      cases h
      rw [List.length_append]
      exact .inr hrest
  · rintro (rfl | hw)
    · exact .here _ _
    · obtain ⟨lineEnd, sz, stop, hline, hnum, hstop, hsz, hcap, hshort, hend, hs⟩ := chunkedRound_inl h
      cases hs
      obtain ⟨line, rest, rfl, rfl, hlf⟩ := memchr_eq_some hline
      have hdrop : (line ++ LF :: rest).drop (line.length + 1) = rest := by
        rw [List.drop_append, List.drop_eq_nil_of_le (by omega), List.nil_append, Nat.add_sub_cancel_left]
        rfl
      rw [hdrop] at hw hend hshort
      have hrest : rest = rest.take sz ++ crlf ++ rest.drop (sz + 2) := by
        rw [← hend, ← List.drop_drop, List.append_assoc, List.take_append_drop, List.take_append_drop]
      have hlen : (rest.take sz).length = sz := List.length_take_of_le (by omega)
      rw [List.length_append] at hw
      rw [hrest] at hnum ⊢
      refine .chunk hlf (by rwa [hlen]) (by omega) ?_ (by omega) hw
      exact List.ne_nil_of_length_pos (by omega)

theorem atSizeLine_inr {p got : Bytes} {out : ChunkScan} (h : chunkedRound (p, got) = .inr out) (w : Bytes) :
    AtSizeLine p got.length w ↔ w = p := by
  constructor
  · intro hw
    generalize htotal : got.length = total at hw
    cases hw with
    | here => rfl
    | chunk hline hsize hstop hdata hcap hrest =>
      subst htotal
      rw [chunkedRound_whole hline hsize hstop hdata hcap] at h
      cases h
  · rintro rfl
    exact .here _ _

/-! ### Rounds

A round stays within the input, or leaves it at the number of a chunk that is the last thing
in it. -/

theorem inRange_append {len : Nat} {reads new : List (Nat × Nat)} :
    InRange len (reads ++ new) ↔ InRange len reads ∧ InRange len new :=
  List.forall_mem_append

variable {range : Bytes} (behind : Bytes) (copy : Bool)

/-- **A round that stays in the range** is one of the scan. -/
theorem scanReadsRound_stays {off : Nat} (reads : List (Nat × Nat)) (got : Bytes) (hoff : off ≤ range.length)
    (hin : LF ∉ range.drop off ∨ numberText (range.drop off) = false) :
    ∃ new, InRange range.length new ∧
      match chunkedRound (range.drop off, got) with
      | .inr out => scanReadsRound range behind copy ⟨off, got.length, reads⟩ = .inr (out.code, reads ++ new)
      | .inl (p', got') => ∃ off', p' = range.drop off' ∧ off' ≤ range.length ∧
          scanReadsRound range behind copy ⟨off, got.length, reads⟩ =
            .inl ⟨off', got'.length, reads ++ new⟩ := by
  have hlen : (range.drop off).length = range.length - off := List.length_drop
  cases hline : memchr LF (range.drop off) with
  | none =>
    simp only [chunkedRound, scanReadsRound, hline]
    refine ⟨[(off, (range.drop off).length)], ?_, rfl⟩
    intro r hr
    rw [List.mem_singleton.mp hr]
    dsimp only
    omega
  | some lineEnd =>
    have hlt := memchr_lt hline
    have hnot : numberText (range.drop off) = false := by
      refine hin.resolve_left fun hlf => ?_
      rw [memchr_eq_none.mpr hlf] at hline
      cases hline
    have hnumber := (strtoullReads_le (range.drop off) behind).mpr hnot
    have hfirst : InRange range.length
        [(off, lineEnd + 1), (off, strtoullReads (range.drop off ++ behind))] := by
      intro r hr
      simp only [List.mem_cons, List.not_mem_nil, or_false] at hr
      obtain rfl | rfl := hr
      · dsimp only
        omega
      · dsimp only
        omega
    have hstr := strtoull16_append hnot behind
    have hdrop : (range.drop off).drop (lineEnd + 1) = range.drop (off + (lineEnd + 1)) := List.drop_drop
    have hrest : (range.drop (off + (lineEnd + 1))).length = range.length - (off + (lineEnd + 1)) :=
      List.length_drop
    cases hnum : strtoull16 (range.drop off) with
    | none =>
      simp only [chunkedRound, scanReadsRound, hline, hstr, hnum]
      exact ⟨_, hfirst, rfl⟩
    | some r =>
      obtain ⟨sz, stop⟩ := r
      simp only [chunkedRound, scanReadsRound, hline, hstr, hnum, hdrop]
      by_cases hstop : stop > lineEnd
      · simp only [if_pos hstop]
        exact ⟨_, hfirst, rfl⟩
      simp only [if_neg hstop]
      by_cases hsz : sz = 0
      · have htrailer := trailerReads_le (range.drop (off + (lineEnd + 1)))
        have hlast : InRange range.length
            [(off + (lineEnd + 1), trailerReads (range.drop (off + (lineEnd + 1))))] := by
          intro r hr
          rw [List.mem_singleton.mp hr]
          dsimp only
          omega
        simp only [if_pos hsz, List.append_assoc]
        refine ⟨_, inRange_append.mpr ⟨hfirst, hlast⟩, ?_⟩
        split
        · rfl
        · rfl
      simp only [if_neg hsz]
      by_cases hcap : sz > ZCIO_HTTP_MAX_RESPONSE ∨ got.length + sz > ZCIO_HTTP_MAX_RESPONSE
      · simp only [if_pos hcap]
        exact ⟨_, hfirst, rfl⟩
      simp only [if_neg hcap]
      by_cases hshort : (range.drop (off + (lineEnd + 1))).length < sz + 2
      · simp only [if_pos hshort]
        exact ⟨_, hfirst, rfl⟩
      simp only [if_neg hshort, List.append_assoc]
      -- the data and the CRLF are there
      have hdata : InRange range.length ((if copy then [(off + (lineEnd + 1), sz)] else []) ++
          [(off + (lineEnd + 1) + sz,
            if ((range.drop (off + (lineEnd + 1))).drop sz).head? = some CR then 2 else 1)]) := by
        refine inRange_append.mpr ⟨fun r hr => ?_, fun r hr => ?_⟩
        · cases copy with
          | false => cases hr
          | true =>
            rw [List.mem_singleton.mp hr]
            dsimp only
            omega
        · rw [List.mem_singleton.mp hr]
          dsimp only
          split
          · omega
          · omega
      by_cases hend : ((range.drop (off + (lineEnd + 1))).drop sz).take 2 = crlf
      · simp only [if_pos hend]
        refine ⟨_, inRange_append.mpr ⟨hfirst, hdata⟩, off + (lineEnd + 1) + (sz + 2), List.drop_drop, by omega, ?_⟩
        rw [List.length_append, List.length_take_of_le (by omega)]
      · simp only [if_neg hend]
        exact ⟨_, inRange_append.mpr ⟨hfirst, hdata⟩, rfl⟩

/-- **What a round looks at**: a size line, and whatever `strtoull` makes of it. -/
theorem scanReadsRound_reads (range behind : Bytes) (copy : Bool) (s : ScanAt) :
    ∃ new, Sum.elim ScanAt.reads Prod.snd (scanReadsRound range behind copy s) = s.reads ++ new ∧
      (LF ∈ range.drop s.off → (s.off, strtoullReads (range.drop s.off ++ behind)) ∈ new) := by
  simp only [scanReadsRound]
  cases hline : memchr LF (range.drop s.off) with
  | none => exact ⟨_, rfl, fun hlf => absurd hlf (memchr_eq_none.mp hline)⟩
  | some lineEnd =>
    have hmem (new : List (Nat × Nat)) : (s.off, strtoullReads (range.drop s.off ++ behind)) ∈
        [(s.off, lineEnd + 1), (s.off, strtoullReads (range.drop s.off ++ behind))] ++ new :=
      List.mem_append_left _ (List.mem_cons_of_mem _ List.mem_cons_self)
    have hfirst := hmem []
    rw [List.append_nil] at hfirst
    dsimp only
    split
    · exact ⟨_, rfl, fun _ => hfirst⟩
    split
    · exact ⟨_, rfl, fun _ => hfirst⟩
    split
    · exact ⟨_, List.append_assoc _ _ _, fun _ => hmem _⟩
    split
    · exact ⟨_, rfl, fun _ => hfirst⟩
    split
    · exact ⟨_, rfl, fun _ => hfirst⟩
    rw [List.append_assoc, List.append_assoc]
    split
    · exact ⟨_, rfl, fun _ => hmem _⟩
    · exact ⟨_, rfl, fun _ => hmem _⟩

/-- What was looked at stays so. -/
theorem scanReads_subset (s : ScanAt) :
    s.reads ⊆ (Lib.loop (scanReadsRound range behind copy) _
      (scanReadsRound_decreases range behind copy) s).2 := by
  refine Lib.loop_induct (scanReadsRound_decreases range behind copy) (P := fun s out => s.reads ⊆ out.2) ?_ ?_ s
  · intro s out hround
    obtain ⟨new, hreads, -⟩ := scanReadsRound_reads range behind copy s
    rw [hround, Sum.elim_inr] at hreads
    rw [hreads]
    exact List.subset_append_left s.reads new
  · intro s s' out hround ih
    obtain ⟨new, hreads, -⟩ := scanReadsRound_reads range behind copy s
    rw [hround, Sum.elim_inl] at hreads
    rw [hreads] at ih
    exact fun r hr => ih (List.mem_append_left new hr)

/-- A size line that is only the beginning of a number takes `strtoull` out of the range. -/
theorem scanReadsRound_leaves {off : Nat} (total : Nat) (reads : List (Nat × Nat)) (hoff : off ≤ range.length)
    (hlf : LF ∈ range.drop off) (hnumber : numberText (range.drop off) = true) :
    ¬InRange range.length (Lib.loop (scanReadsRound range behind copy) _
      (scanReadsRound_decreases range behind copy) ⟨off, total, reads⟩).2 := by
  intro hin
  obtain ⟨new, hreads, hmem⟩ := scanReadsRound_reads range behind copy ⟨off, total, reads⟩
  have hread : (off, strtoullReads (range.drop off ++ behind)) ∈ (Lib.loop (scanReadsRound range behind copy) _
      (scanReadsRound_decreases range behind copy) ⟨off, total, reads⟩).2 := by
    have hnew := List.mem_append_right reads (hmem hlf)
    cases hround : scanReadsRound range behind copy ⟨off, total, reads⟩ with
    | inr out =>
      rw [Lib.loop_of_inr hround]
      rw [hround, Sum.elim_inr] at hreads
      rwa [hreads]
    | inl s' =>
      rw [Lib.loop_of_inl hround]
      rw [hround, Sum.elim_inl] at hreads
      rw [← hreads] at hnew
      exact scanReads_subset behind copy s' hnew
  have hle : off + strtoullReads (range.drop off ++ behind) ≤ range.length := hin _ hread
  have hout : ¬strtoullReads (range.drop off ++ behind) ≤ (range.drop off).length := by
    rw [strtoullReads_le, hnumber]
    exact Bool.false_ne_true.symm
  rw [List.length_drop] at hout
  omega

/-- A whole scan, from a size line on. -/
theorem scanReads_loop (n : Nat) : ∀ (off : Nat) (got : Bytes) (reads : List (Nat × Nat)),
    (range.drop off).length ≤ n → off ≤ range.length →
    (InRange range.length (Lib.loop (scanReadsRound range behind copy) _
        (scanReadsRound_decreases range behind copy) ⟨off, got.length, reads⟩).2 ↔
      InRange range.length reads ∧
        ∀ w, AtSizeLine (range.drop off) got.length w → LF ∈ w → numberText w = false) ∧
    (InRange range.length (Lib.loop (scanReadsRound range behind copy) _
        (scanReadsRound_decreases range behind copy) ⟨off, got.length, reads⟩).2 →
      (Lib.loop (scanReadsRound range behind copy) _
        (scanReadsRound_decreases range behind copy) ⟨off, got.length, reads⟩).1 =
        (Lib.loop chunkedRound _ chunkedRound_decreases (range.drop off, got)).code) := by
  induction n using Nat.strongRecOn with
  | _ n ih =>
    intro off got reads hn hoff
    by_cases hin : LF ∉ range.drop off ∨ numberText (range.drop off) = false
    · obtain ⟨new, hnew, hround⟩ := scanReadsRound_stays behind copy reads got hoff hin
      have hhere : LF ∈ range.drop off → numberText (range.drop off) = false :=
        fun hlf => hin.resolve_left (not_not_intro hlf)
      cases hscan : chunkedRound (range.drop off, got) with
      | inr out =>
        rw [hscan] at hround
        rw [Lib.loop_of_inr hround, Lib.loop_of_inr hscan]
        refine ⟨?_, fun _ => rfl⟩
        simp only [inRange_append, hnew, and_true, atSizeLine_inr hscan, forall_eq]
        exact (and_iff_left hhere).symm
      | inl s' =>
        obtain ⟨p', got'⟩ := s'
        rw [hscan] at hround
        obtain ⟨off', rfl, hoff', hround⟩ := hround
        have hless : (range.drop off').length < (range.drop off).length := chunkedRound_decreases _ _ hscan
        obtain ⟨hiff, hresult⟩ := ih _ (lt_of_lt_of_le hless hn) off' got' (reads ++ new) (Nat.le_refl _) hoff'
        rw [Lib.loop_of_inl hround, Lib.loop_of_inl hscan]
        refine ⟨hiff.trans ?_, hresult⟩
        simp only [inRange_append, hnew, and_true, atSizeLine_inl hscan]
        refine and_congr_right fun _ => ⟨fun h w hw => ?_, fun h w hw => h w (.inr hw)⟩
        obtain rfl | hw := hw
        · exact hhere
        · exact h w hw
    · obtain ⟨hlf, hnumber⟩ := not_or.mp hin
      have hleaves := scanReadsRound_leaves behind copy got.length reads hoff (not_not.mp hlf)
        (Bool.not_eq_false _ ▸ hnumber)
      refine ⟨iff_of_false hleaves ?_, fun h => absurd h hleaves⟩
      rintro ⟨-, h⟩
      exact hnumber (h _ (.here _ _) (not_not.mp hlf))

/-- **A scan that stays in its range** has the result that the octets of the range give. -/
theorem scanReads_result {behind : Bytes} {copy : Bool} (h : InRange range.length (scanReads range behind copy).2) :
    (scanReads range behind copy).1 = (chunkedScan range).code :=
  (scanReads_loop behind copy (range.drop 0).length 0 [] [] (Nat.le_refl _) (Nat.zero_le _)).2 h

/-! ### In its range -/

/-- `chunked_scan` looks at octets of its range only and ends with 0, 1 or -1. -/
def ScanStays (range behind : Bytes) (copy : Bool) : Prop :=
  InRange range.length (scanReads range behind copy).2 ∧ (scanReads range behind copy).1 ∈ [0, 1, -1]

/-- **When `chunked_scan` stays in its range**: unless, in the place of a size line, there is
whitespace with a newline in it and behind that only the beginning of a number. -/
theorem scan_stays_in_range (range behind : Bytes) (copy : Bool) :
    ScanStays range behind copy ↔ ∀ w, AtSizeLine range 0 w → LF ∈ w → numberText w = false := by
  have hloop := scanReads_loop behind copy (range.drop 0).length 0 [] [] (Nat.le_refl _)
    (Nat.zero_le _)
  have hcode (out : ChunkScan) : out.code ∈ [0, 1, -1] := by
    cases out with
    | done payload => exact show (1 : Int) ∈ [0, 1, -1] by decide
    | more => exact show (0 : Int) ∈ [0, 1, -1] by decide
    | bad => exact show (-1 : Int) ∈ [0, 1, -1] by decide
  constructor
  · rintro ⟨hin, -⟩
    exact (hloop.1.mp hin).2
  · intro h
    have hin := hloop.1.mpr ⟨fun r hr => absurd hr List.not_mem_nil, h⟩
    refine ⟨hin, ?_⟩
    rw [scanReads_result hin]
    exact hcode _

/-- An empty size line that is the last thing in the range. -/
theorem scan_leaves_range : ¬∀ (range behind : Bytes) (copy : Bool), ScanStays range behind copy := by
  intro h
  have hin := (h [LF] [] false).1
  have hread : (0, 2) ∈ (scanReads [LF] [] false).2 := by decide +kernel
  exact absurd (hin _ hread) (by decide)

end Zcio.Http
