import Zcio.Http.Framing

/-!
# Zcio.Http.Chunked

The two decoders of chunked bodies agree. `h1_body_chunk` goes through its buffer as the octets
arrive and keeps a state between its calls; `chunked_scan` starts at the front of the body after
every read. What the server has still to see of a body is told by its state (`ChunkRest`), so
that a body that it has accepted, in whatever parts, is a body in chunks as the client takes it.
-/

namespace Zcio.Http

open H1Body (chunkBytes)

/-! ### The passes of `chunked_scan`

The client scans a body twice: once to measure, once to copy. Both passes see the same
chunks. -/

/-- The outcome of a pass of `chunked_scan` with its destination. -/
inductive ChunkPass where
  /-- 1: `*decoded_len`, and what `dst` holds. -/
  | done (decodedLen : Nat) (dst : Option Bytes)
  /-- 0 -/
  | more
  /-- -1 -/
  | bad
  /-- A `memcpy` goes over the end of `dst`. -/
  | overrun
  deriving Repr, DecidableEq

/-- `if (dst) memcpy(dst + total, src, ...)`; `none` if that goes over the end of `dst`. -/
def copyOut (dst : Option Bytes) (total : Nat) (src : Bytes) : Option (Option Bytes) :=
  match dst with
  | none => some none
  | some d =>
    if total + src.length ≤ d.length then
      some (some (d.take total ++ src ++ d.drop (total + src.length)))
    else none

/-- One round of `chunked_scan` with `p`, `total` and `dst`. -/
def chunkedPassRound (s : Bytes × Nat × Option Bytes) : (Bytes × Nat × Option Bytes) ⊕ ChunkPass :=
  let (p, total, dst) := s
  match memchr LF p with
  | none => .inr .more
  | some lineEnd =>
    match strtoull16 p with
    | none => .inr .bad
    | some (sz, stop) =>
      if stop > lineEnd then .inr .bad
      else
        let p := p.drop (lineEnd + 1)
        if sz = 0 then .inr (if trailerDone p then .done total dst else .more)
        else if sz > ZCIO_HTTP_MAX_RESPONSE ∨ total + sz > ZCIO_HTTP_MAX_RESPONSE then .inr .bad
        else if p.length < sz + 2 then .inr .more
        else
          match copyOut dst total (p.take sz) with
          | none => .inr .overrun
          | some dst =>
            if (p.drop sz).take 2 = crlf then .inl (p.drop (sz + 2), total + sz, dst)
            else .inr .bad

theorem chunkedPassRound_decreases : Lib.Decreases chunkedPassRound fun s => s.1.length := by
  rintro ⟨p, total, dst⟩ s' h
  simp only [chunkedPassRound] at h
  cases hline : memchr LF p with
  | none =>
    rw [hline] at h
    cases h
  | some lineEnd =>
    have hlt := memchr_lt hline
    rw [hline] at h
    dsimp only at h
    split at h
    · cases h
    split at h
    · cases h
    split at h
    · cases h
    split at h
    · cases h
    split at h
    · cases h
    split at h
    · cases h
    split at h
    · cases h
      simp only [List.length_drop]
      omega
    · cases h

/-- `chunked_scan` with a destination. -/
def chunkedPass (p : Bytes) (dst : Option Bytes) : ChunkPass :=
  Lib.loop chunkedPassRound _ chunkedPassRound_decreases (p, 0, dst)

/-- A destination with `got` at its front. -/
def written (got : Bytes) (dst : Option Bytes) : Option Bytes := dst.map fun d => got ++ d.drop got.length

/-- There is room for `n` octets. -/
def Fits (n : Nat) (dst : Option Bytes) : Prop := ∀ d, dst = some d → n ≤ d.length

theorem copyOut_written {got src : Bytes} {dst : Option Bytes} (h : Fits (got ++ src).length dst) :
    copyOut (written got dst) got.length src = some (written (got ++ src) dst) := by
  cases dst with
  | none => rfl
  | some d =>
    have hlen := h d rfl
    rw [List.length_append] at hlen
    have hroom : got.length + src.length ≤ (got ++ d.drop got.length).length := by
      rw [List.length_append, List.length_drop]
      omega
    have hback : (got ++ d.drop got.length).drop (got.length + src.length) =
        d.drop (got ++ src).length := by
      rw [List.drop_append, List.drop_drop, List.length_append]
      simp
    rw [written, Option.map_some, copyOut, if_pos hroom, List.take_left, hback]
    rfl

/-- **What a further round of the scan has found**: a chunk whose data and CRLF are there. -/
theorem chunkedRound_inl {p got : Bytes} {s' : Bytes × Bytes} (h : chunkedRound (p, got) = .inl s') :
    ∃ lineEnd sz stop, memchr LF p = some lineEnd ∧ strtoull16 p = some (sz, stop) ∧
      ¬stop > lineEnd ∧ sz ≠ 0 ∧
      ¬(sz > ZCIO_HTTP_MAX_RESPONSE ∨ got.length + sz > ZCIO_HTTP_MAX_RESPONSE) ∧
      ¬(p.drop (lineEnd + 1)).length < sz + 2 ∧
      ((p.drop (lineEnd + 1)).drop sz).take 2 = crlf ∧
      s' = ((p.drop (lineEnd + 1)).drop (sz + 2), got ++ (p.drop (lineEnd + 1)).take sz) := by
  simp only [chunkedRound] at h
  split at h
  · cases h
  rename_i lineEnd hline
  split at h
  · cases h
  rename_i sz stop hnum
  split at h
  · cases h
  rename_i hstop
  split at h
  · cases h
  rename_i hsz
  split at h
  · cases h
  rename_i hcap
  split at h
  · cases h
  rename_i hshort
  split at h
  · rename_i hend
    cases h
    exact ⟨lineEnd, sz, stop, hline, hnum, hstop, hsz, hcap, hshort, hend, rfl⟩
  · cases h

/-- A pass follows the scan while there is room in the destination. -/
theorem chunkedPassRound_inl {p got p' got' : Bytes} {dst : Option Bytes}
    (h : chunkedRound (p, got) = .inl (p', got')) (hfits : Fits got'.length dst) :
    chunkedPassRound (p, got.length, written got dst) = .inl (p', got'.length, written got' dst) := by
  obtain ⟨lineEnd, sz, stop, hline, hnum, hstop, hsz, hcap, hshort, hend, hs⟩ := chunkedRound_inl h
  cases hs
  have htake : ((p.drop (lineEnd + 1)).take sz).length = sz := by
    rw [List.length_take]
    omega
  simp only [chunkedPassRound, hline, hnum, if_neg hstop, if_neg hsz, if_neg hcap, if_neg hshort,
    copyOut_written hfits, if_pos hend]
  rw [List.length_append, htake]

/-- What a pass makes of the outcome of the scan. -/
def ChunkScan.pass (dst : Option Bytes) : ChunkScan → ChunkPass
  | .done payload => .done payload.length (written payload dst)
  | .more => .more
  | .bad => .bad

/-- **What a last round has found.** -/
theorem chunkedRound_inr {p got : Bytes} {out : ChunkScan} (h : chunkedRound (p, got) = .inr out)
    (hout : out ≠ .bad) :
    (out = .more ∧ memchr LF p = none) ∨
      ∃ lineEnd sz stop, memchr LF p = some lineEnd ∧ strtoull16 p = some (sz, stop) ∧
        ¬stop > lineEnd ∧
        (sz = 0 ∧ out = (if trailerDone (p.drop (lineEnd + 1)) then .done got else .more) ∨
          sz ≠ 0 ∧
            ¬(sz > ZCIO_HTTP_MAX_RESPONSE ∨ got.length + sz > ZCIO_HTTP_MAX_RESPONSE) ∧
            (p.drop (lineEnd + 1)).length < sz + 2 ∧ out = .more) := by
  simp only [chunkedRound] at h
  split at h
  · rename_i hline
    exact .inl ⟨(Sum.inr.inj h).symm, hline⟩
  rename_i lineEnd hline
  split at h
  · exact absurd (Sum.inr.inj h).symm hout
  rename_i sz stop hnum
  split at h
  · exact absurd (Sum.inr.inj h).symm hout
  rename_i hstop
  refine .inr ⟨lineEnd, sz, stop, hline, hnum, hstop, ?_⟩
  split at h
  · rename_i hsz
    exact .inl ⟨hsz, (Sum.inr.inj h).symm⟩
  rename_i hsz
  split at h
  · exact absurd (Sum.inr.inj h).symm hout
  rename_i hcap
  split at h
  · rename_i hshort
    exact .inr ⟨hsz, hcap, hshort, (Sum.inr.inj h).symm⟩
  split at h
  · cases h
  · exact absurd (Sum.inr.inj h).symm hout

theorem chunkedPassRound_inr {p got : Bytes} {out : ChunkScan} {dst : Option Bytes}
    (h : chunkedRound (p, got) = .inr out) (hout : out ≠ .bad) :
    chunkedPassRound (p, got.length, written got dst) = .inr (out.pass dst) := by
  obtain ⟨rfl, hline⟩ | ⟨lineEnd, sz, stop, hline, hnum, hstop, hend⟩ := chunkedRound_inr h hout
  · simp only [chunkedPassRound, hline]
    rfl
  obtain ⟨rfl, rfl⟩ | ⟨hsz, hcap, hshort, rfl⟩ := hend
  · simp only [chunkedPassRound, hline, hnum, if_neg hstop, if_pos]
    split
    · rfl
    · rfl
  · simp only [chunkedPassRound, hline, hnum, if_neg hstop, if_neg hsz, if_neg hcap, if_pos hshort]
    rfl

/-- The payload only grows. -/
theorem chunkedScan_grows (p got : Bytes) :
    ∀ payload, Lib.loop chunkedRound _ chunkedRound_decreases (p, got) = .done payload →
      got.length ≤ payload.length := by
  refine Lib.loop_induct chunkedRound_decreases
    (P := fun s out => ∀ payload, out = .done payload → s.2.length ≤ payload.length) ?_ ?_ (p, got)
  · rintro ⟨p, got⟩ out hround payload rfl
    obtain ⟨hout, -⟩ | ⟨_, _, _, _, _, _, ⟨-, hout⟩ | ⟨-, -, -, hout⟩⟩ :=
      chunkedRound_inr hround (fun h => by cases h)
    · cases hout
    · split at hout
      · cases hout
        exact Nat.le_refl _
      · cases hout
    · cases hout
  · rintro ⟨p, got⟩ s' out hround ih payload hout
    obtain ⟨_, _, _, _, _, _, _, _, _, _, rfl⟩ := chunkedRound_inl hround
    have hle := ih payload hout
    rw [List.length_append] at hle
    exact Nat.le_of_add_right_le hle

/-- **The passes are the scan.** A pass without a destination ends like the scan, unless that is
with an error; and a pass with room for the payload also puts it into the destination. -/
theorem chunkedPass_loop {dst : Option Bytes} (p got : Bytes) :
    Lib.loop chunkedRound _ chunkedRound_decreases (p, got) ≠ .bad →
      (dst = none ∨ ∃ payload, Lib.loop chunkedRound _ chunkedRound_decreases (p, got) = .done payload ∧
        Fits payload.length dst) →
      Lib.loop chunkedPassRound _ chunkedPassRound_decreases (p, got.length, written got dst) =
        (Lib.loop chunkedRound _ chunkedRound_decreases (p, got)).pass dst := by
  induction hn : p.length using Nat.strongRecOn generalizing p got with
  | _ n ih =>
    subst hn
    intro hbad hroom
    cases hround : chunkedRound (p, got) with
    | inr out =>
      rw [Lib.loop_of_inr hround] at hbad ⊢
      rw [Lib.loop_of_inr (chunkedPassRound_inr hround hbad)]
    | inl s' =>
      obtain ⟨p', got'⟩ := s'
      rw [Lib.loop_of_inl hround] at hbad hroom ⊢
      have hfits : Fits got'.length dst := by
        obtain rfl | ⟨payload, hpayload, hfits⟩ := hroom
        · intro d hd
          cases hd
        · exact fun d hd => (chunkedScan_grows p' got' payload hpayload).trans (hfits d hd)
      rw [Lib.loop_of_inl (chunkedPassRound_inl hround hfits)]
      exact ih p'.length (chunkedRound_decreases _ _ hround) p' got' rfl hbad hroom

/-- The scan has the payload: so do the two passes of `parse_response`. -/
theorem chunkedPass_done {p payload : Bytes} (h : chunkedScan p = .done payload) :
    chunkedPass p none = .done payload.length none ∧
      ∀ dst : Bytes, payload.length ≤ dst.length →
        chunkedPass p (some dst) = .done payload.length (some (payload ++ dst.drop payload.length)) := by
  have hbad : chunkedScan p ≠ .bad := fun hbad => by rw [h] at hbad; cases hbad
  refine ⟨?_, fun dst hlen => ?_⟩
  · have hpass := @chunkedPass_loop none p [] hbad (.inl rfl)
    rw [← chunkedScan, h] at hpass
    exact hpass
  · have hfits : Fits payload.length (some dst) := fun d hd => Option.some.inj hd ▸ hlen
    have hpass := @chunkedPass_loop (some dst) p [] hbad (.inr ⟨payload, h, hfits⟩)
    rw [← chunkedScan, h] at hpass
    exact hpass

theorem chunkedPass_more {p : Bytes} (h : chunkedScan p = .more) : chunkedPass p none = .more := by
  have hpass := @chunkedPass_loop none p [] (fun hbad => by rw [← chunkedScan, h] at hbad; cases hbad) (.inl rfl)
  rw [← chunkedScan, h] at hpass
  exact hpass

/-! ### What the server has still to see

The octets that are left of a body in chunks, from each of the stages of the server. -/

/-- `s` is a body in chunks with the payload `b`. -/
def ChunkedBytes (s b : Bytes) : Prop :=
  ∃ chunks lastSize lastExt trailer, LaxChunked chunks lastSize lastExt trailer ∧
    s = (H1Body.chunked chunks lastSize lastExt trailer).bytes ∧ b = (chunks.map (·.data)).flatten

/-- `s` is the rest of a body, and `b` of its payload, for a connection within the body. -/
def ChunkRest (c : Zh1Conn) (s b : Bytes) : Prop :=
  match c.state with
  | .chunkSize => ChunkedBytes s b
  | .chunkData => ∃ d s' b', d.length = c.chunkRemaining ∧ s = d ++ crlf ++ s' ∧
      ChunkedBytes s' b' ∧ b = d ++ b'
  | .chunkCrlf => ∃ s', s = crlf ++ s' ∧ ChunkedBytes s' b
  | _ => ∃ trailer : List Bytes, (∀ l ∈ trailer, l ≠ [] ∧ LF ∉ l) ∧ s = fieldLines trailer ++ crlf ∧ b = []

/-- The way from `c` to `c'` is over the octets `x`, of which `d` are payload. -/
structure Consumes (c c' : Zh1Conn) (x d : Bytes) : Prop where
  body : c'.req.body = c.req.body ++ d
  rest : ∀ s b, ChunkRest c' s b → ChunkRest c (x ++ s) (d ++ b)

theorem Consumes.refl (c : Zh1Conn) : Consumes c c [] [] := ⟨(List.append_nil _).symm, fun _ _ h => h⟩

theorem Consumes.trans {c c' c'' : Zh1Conn} {x x' d d' : Bytes} (h : Consumes c c' x d)
    (h' : Consumes c' c'' x' d') : Consumes c c'' (x ++ x') (d ++ d') where
  body := by rw [h'.body, h.body, List.append_assoc]
  rest s b hs := by
    rw [List.append_assoc, List.append_assoc]
    exact h.rest _ _ (h'.rest s b hs)

/-- The digits that `h1_body_chunk` has read. -/
theorem hexSize_digits {line : Bytes} {size size' : Nat} {any any' : Bool} {ext : Bytes}
    (h : hexSize size any line = some (size', any', ext)) :
    ∃ ds, line = ds ++ ext ∧ (∀ b ∈ ds, (hexval b).isSome = true) ∧
      size' = ds.foldl (fun v b => v * 16 + (hexval b).getD 0) size ∧ any' = (any || !ds.isEmpty) := by
  induction line generalizing size any with
  | nil =>
    rw [hexSize] at h
    cases h
    exact ⟨[], rfl, by simp, rfl, (Bool.or_false _).symm⟩
  | cons b line ih =>
    rw [hexSize] at h
    cases hb : hexval b with
    | none =>
      rw [hb] at h
      cases h
      exact ⟨[], rfl, by simp, rfl, (Bool.or_false _).symm⟩
    | some hv =>
      rw [hb] at h
      dsimp only at h
      split at h
      · cases h
      · obtain ⟨ds, hline, hds, hsize, hany⟩ := ih h
        refine ⟨b :: ds, by rw [hline, List.cons_append], ?_, ?_, ?_⟩
        · intro x hx
          obtain rfl | hx := List.mem_cons.mp hx
          · rw [hb]
            rfl
          · exact hds x hx
        · rw [List.foldl_cons, hb]
          exact hsize
        · rw [hany, Bool.true_or]
          simp

/-- A size line that the server takes. -/
theorem laxSizeLine_of_hexSize {line ext : Bytes} {size : Nat}
    (h : hexSize 0 false line = some (size, true, ext)) (hext : ext = [] ∨ ext.head? = some 59)
    (hlf : LF ∉ line) : ∃ ds, line = ds ++ ext ∧ LaxSizeLine ds ext size := by
  obtain ⟨ds, rfl, hds, hsize, hany⟩ := hexSize_digits h
  refine ⟨ds, rfl, ?_, hds, hsize.symm, ?_, fun hm => hlf (List.mem_append_right _ hm)⟩
  · rintro rfl
    cases hany
  · exact hext.imp_right Or.inl

theorem ChunkedBytes.cons {ds ext d s b : Bytes} (hd : d ≠ []) (hline : LaxSizeLine ds ext d.length)
    (h : ChunkedBytes s b) : ChunkedBytes (ds ++ ext ++ crlf ++ (d ++ crlf ++ s)) (d ++ b) := by
  obtain ⟨chunks, lastSize, lastExt, trailer, hlax, rfl, rfl⟩ := h
  refine ⟨{ size := ds, ext, data := d } :: chunks, lastSize, lastExt, trailer,
    ⟨?_, hlax.last, hlax.trailer⟩, ?_, rfl⟩
  · intro c hc
    obtain rfl | hc := List.mem_cons.mp hc
    · exact ⟨hd, hline⟩
    · exact hlax.chunks c hc
  · simp [H1Body.bytes, chunkBytes]

/-! ### The rounds of `h1_body_chunk`

A round of the server takes a part of these octets, and fails on none of them. -/

variable (g : H1Cfg)

/-- What a stage of the chunk loop has done to its input: more is to come, or the rest of the
body was there. -/
def BodyStage (c : Zh1Conn) (inp : Bytes) (st : Stage) : Prop :=
  (st.code = .more → ∃ x d, inp = x ++ st.inp ∧ Consumes c st.c x d) ∧
    (st.code = .complete → ∃ x d, inp = x ++ st.inp ∧ st.c.req.body = c.req.body ++ d ∧ ChunkRest c x d)

/-- What a round has done to its input. -/
def BodyRound (c : Zh1Conn) (inp : Bytes) : (Zh1Conn × Bytes) ⊕ Stage → Prop
  | .inl (c', inp') => ∃ x d, inp = x ++ inp' ∧ Consumes c c' x d
  | .inr st => BodyStage c inp st

theorem BodyRound.of_close {c c' : Zh1Conn} {inp inp' : Bytes} :
    BodyRound c inp (.inr ⟨.close, c', inp'⟩) :=
  ⟨(fun h => by cases h), (fun h => by cases h)⟩

theorem BodyRound.of_more (c : Zh1Conn) (inp : Bytes) : BodyRound c inp (.inr ⟨.more, c, inp⟩) :=
  ⟨fun _ => ⟨[], [], rfl, .refl c⟩, (fun h => by cases h)⟩

/-- A size line: the last one, or that of a chunk. -/
theorem sizeText_round {c : Zh1Conn} (hst : c.state = .chunkSize) {line : Bytes} (hlf : LF ∉ line)
    (rest : Bytes) : BodyRound c (line ++ crlf ++ rest) (h1ChunkSizeText g c line rest) := by
  obtain ⟨status, htext⟩ | ⟨size, ext, -, hsize, hext, ⟨rfl, htext⟩ | ⟨hpos, -, htext⟩⟩ :=
    h1ChunkSizeText_cases g c line rest
  · rw [htext]
    exact .of_close
  · obtain ⟨ds, rfl, hline⟩ := laxSizeLine_of_hexSize hsize hext hlf
    rw [htext]
    refine ⟨_, [], rfl, (List.append_nil _).symm, fun s b hs => ?_⟩
    obtain ⟨trailer, htrailer, rfl, rfl⟩ := hs
    rw [ChunkRest, hst]
    refine ⟨[], ds, ext, trailer, ⟨by simp, hline, htrailer⟩, ?_, rfl⟩
    simp [H1Body.bytes]
  · obtain ⟨ds, rfl, hline⟩ := laxSizeLine_of_hexSize hsize hext hlf
    rw [htext]
    refine ⟨_, [], rfl, (List.append_nil _).symm, fun s b hs => ?_⟩
    obtain ⟨d, s', b', hd, rfl, hbytes, rfl⟩ := hs
    have hne : d ≠ [] := by
      rintro rfl
      exact absurd hd (Nat.ne_of_lt hpos)
    rw [ChunkRest, hst]
    rw [show size = d.length from hd.symm] at hline
    exact .cons hne hline hbytes

/-- The data of a chunk, as much as there is. -/
theorem takeBody_consumes {c : Zh1Conn} (hst : c.state = .chunkData) (inp : Bytes) (n : Nat)
    (hn : n = min inp.length c.chunkRemaining) :
    Consumes c { h1TakeBody c n inp with chunkRemaining := c.chunkRemaining - n } (inp.take n)
      (inp.take n) := by
  refine ⟨rfl, fun s b hs => ?_⟩
  have hlen : (inp.take n).length = n := by
    rw [List.length_take]
    omega
  rw [ChunkRest, show ({ h1TakeBody c n inp with chunkRemaining := c.chunkRemaining - n } : Zh1Conn).state =
    .chunkData from hst] at hs
  obtain ⟨d, s', b', hd, rfl, hbytes, rfl⟩ := hs
  rw [ChunkRest, hst]
  refine ⟨inp.take n ++ d, s', b', ?_, ?_, hbytes, (List.append_assoc _ _ _).symm⟩
  · rw [List.length_append, hlen, hd]
    exact Nat.add_sub_of_le (hn ▸ Nat.min_le_right _ _)
  · simp only [List.append_assoc]

/-- The data is whole: the CRLF is next. -/
theorem dataDone_consumes {c : Zh1Conn} (hst : c.state = .chunkData) (hrem : c.chunkRemaining = 0) :
    Consumes c { c with state := .chunkCrlf } [] [] := by
  refine ⟨(List.append_nil _).symm, fun s b hs => ?_⟩
  obtain ⟨s', rfl, hbytes⟩ := hs
  rw [ChunkRest, hst]
  exact ⟨[], s', b, hrem.symm, rfl, hbytes, rfl⟩

theorem dataEnd_consumes {c : Zh1Conn} (hst : c.state = .chunkCrlf) :
    Consumes c { c with state := .chunkSize } crlf [] := by
  refine ⟨(List.append_nil _).symm, fun s b hs => ?_⟩
  rw [ChunkRest, hst]
  exact ⟨s, rfl, hs⟩

/-- A connection in none of the states in front of it reads the trailer. -/
def InTrailer (c : Zh1Conn) : Prop := c.state ≠ .chunkSize ∧ c.state ≠ .chunkData ∧ c.state ≠ .chunkCrlf

theorem chunkRest_trailer {c : Zh1Conn} (h : InTrailer c) (s b : Bytes) :
    ChunkRest c s b ↔
      ∃ trailer : List Bytes, (∀ l ∈ trailer, l ≠ [] ∧ LF ∉ l) ∧ s = fieldLines trailer ++ crlf ∧ b = [] := by
  obtain ⟨hsize, hdata, hcrlf⟩ := h
  rw [ChunkRest]
  split
  · exact absurd ‹_› hsize
  · exact absurd ‹_› hdata
  · exact absurd ‹_› hcrlf
  · exact Iff.rfl

theorem trailerLine_consumes {c : Zh1Conn} (h : InTrailer c) {line : Bytes} (hne : line ≠ [])
    (hlf : LF ∉ line) (n : Nat) : Consumes c { c with headBytes := n } (line ++ crlf) [] := by
  refine ⟨(List.append_nil _).symm, fun s b hs => ?_⟩
  obtain ⟨trailer, htrailer, rfl, rfl⟩ := (chunkRest_trailer (c := { c with headBytes := n }) h s b).mp hs
  refine (chunkRest_trailer h _ _).mpr ⟨line :: trailer, ?_, ?_, rfl⟩
  · intro l hl
    obtain rfl | hl := List.mem_cons.mp hl
    · exact ⟨hne, hlf⟩
    · exact htrailer l hl
  · rw [fieldLines_cons, List.append_assoc (line ++ crlf)]

/-- **What a round of `h1_body_chunk` does to its input.** -/
theorem h1ChunkRound_body (c : Zh1Conn) (inp : Bytes) : BodyRound c inp (h1ChunkRound g (c, inp)) := by
  unfold h1ChunkRound
  dsimp only
  split
  · -- the size line
    rename_i hst
    cases hline : h1FindLine inp with
    | incomplete =>
      dsimp only
      split
      · exact .of_close
      · exact .of_more c inp
    | bare => exact .of_close
    | line text consumed =>
      obtain ⟨hlf, rfl, rest, rfl⟩ := h1FindLine_eq_line.mp hline
      have hdrop : (text ++ crlf ++ rest).drop (text.length + 2) = rest :=
        List.drop_left' (by simp [crlf])
      dsimp only
      rw [hdrop]
      exact sizeText_round g hst hlf rest
  · -- the data of a chunk
    rename_i hst
    by_cases hpos : c.chunkRemaining > 0
    · rw [if_pos hpos]
      by_cases hinp : inp.length = 0
      · rw [if_pos hinp]
        exact .of_more c inp
      rw [if_neg hinp]
      have htake := takeBody_consumes hst inp _ rfl
      have hsplit := (List.take_append_drop (min inp.length c.chunkRemaining) inp).symm
      split
      · exact ⟨fun _ => ⟨_, _, hsplit, htake⟩, fun h => by cases h⟩
      · rename_i hrem
        have hzero := Nat.eq_zero_of_not_pos hrem
        have hdone := dataDone_consumes (c := { h1TakeBody c (min inp.length c.chunkRemaining) inp with
          chunkRemaining := c.chunkRemaining - min inp.length c.chunkRemaining }) hst hzero
        have hboth := htake.trans hdone
        rw [List.append_nil] at hboth
        exact ⟨_, _, hsplit, hboth⟩
    · rw [if_neg hpos]
      exact ⟨[], [], rfl, dataDone_consumes hst (Nat.eq_zero_of_not_pos hpos)⟩
  · -- the CRLF behind a chunk
    rename_i hst
    split
    · rename_i p0 p1 rest
      split
      · exact .of_close
      · rename_i hcrlf
        obtain ⟨hcr, hlf⟩ := not_or.mp hcrlf
        obtain rfl := not_not.mp hcr
        obtain rfl := not_not.mp hlf
        exact ⟨crlf, [], rfl, dataEnd_consumes hst⟩
    · exact .of_more c inp
  · -- the trailer
    rename_i hsize hdata hcrlf
    have htrailer : InTrailer c := ⟨hsize, hdata, hcrlf⟩
    obtain ⟨-, -, hb⟩ | ⟨_, hb⟩ | ⟨text, rest, rfl, hlf, -, hb⟩ :=
      h1Budgeted_cases g c inp .inr (fun c => h1TrailerText c)
    · rw [hb]
      exact .of_more c inp
    · rw [hb]
      exact .of_close
    · rw [hb, h1TrailerText]
      by_cases hne : text = []
      · rw [if_pos hne]
        subst hne
        refine ⟨(fun h => by cases h), fun _ => ⟨crlf, [], rfl, (List.append_nil _).symm, ?_⟩⟩
        exact (chunkRest_trailer htrailer _ _).mpr ⟨[], by simp, rfl, rfl⟩
      · rw [if_neg hne]
        exact ⟨text ++ crlf, [], rfl, trailerLine_consumes htrailer hne hlf _⟩

/-- A stage behind a way over the front of the input. -/
theorem BodyStage.after {c c' : Zh1Conn} {x d inp' : Bytes} {st : Stage} (h : Consumes c c' x d)
    (hst : BodyStage c' inp' st) : BodyStage c (x ++ inp') st := by
  refine ⟨fun hmore => ?_, fun hcomplete => ?_⟩
  · obtain ⟨x', d', rfl, h'⟩ := hst.1 hmore
    exact ⟨x ++ x', d ++ d', (List.append_assoc _ _ _).symm, h.trans h'⟩
  · obtain ⟨x', d', rfl, hbody, hrest⟩ := hst.2 hcomplete
    refine ⟨x ++ x', d ++ d', (List.append_assoc _ _ _).symm, ?_, h.rest _ _ hrest⟩
    rw [hbody, h.body, List.append_assoc]

theorem h1BodyChunk_body (c : Zh1Conn) (inp : Bytes) : BodyStage c inp (h1BodyChunk g c inp) := by
  refine Lib.loop_induct (h1ChunkRound_decreases g) (P := fun s st => BodyStage s.1 s.2 st) ?_ ?_ (c, inp)
  · rintro ⟨c, inp⟩ st hround
    have hbody := h1ChunkRound_body g c inp
    rwa [hround] at hbody
  · rintro ⟨c, inp⟩ ⟨c', inp'⟩ st hround ih
    have hbody := h1ChunkRound_body g c inp
    rw [hround] at hbody
    obtain ⟨x, d, rfl, hconsumes⟩ := hbody
    exact ih.after hconsumes

/-! ### A body that arrives in parts

The parts are taken one after the other, up to the end of the body. -/

/-- `h1_body_chunk` is called for every part that arrives, with what was left of the parts before
in front of it, as long as it asks for more. -/
def h1BodyChunkParts (c : Zh1Conn) (left : Bytes) : List Bytes → Stage
  | [] => ⟨.more, c, left⟩
  | part :: parts =>
    let st := h1BodyChunk g c (left ++ part)
    match st.code with
    | .more => h1BodyChunkParts st.c st.inp parts
    | _ => { st with inp := st.inp ++ parts.flatten }

/-- All of the parts were the rest of a body. -/
theorem h1BodyChunkParts_rest {parts : List Bytes} :
    ∀ {c : Zh1Conn} {left : Bytes}, (h1BodyChunkParts g c left parts).code = .complete →
      (h1BodyChunkParts g c left parts).inp = [] →
      ∃ d, (h1BodyChunkParts g c left parts).c.req.body = c.req.body ++ d ∧
        ChunkRest c (left ++ parts.flatten) d := by
  induction parts with
  | nil =>
    intro c left hcode _
    cases hcode
  | cons part parts ih =>
    intro c left hcode hinp
    obtain ⟨hmore, hcomplete⟩ := h1BodyChunk_body g c (left ++ part)
    rw [List.flatten_cons, ← List.append_assoc]
    rw [h1BodyChunkParts] at hcode hinp ⊢
    cases hst : (h1BodyChunk g c (left ++ part)).code with
    | more =>
      simp only [hst] at hcode hinp ⊢
      obtain ⟨x, d, hsplit, hconsumes⟩ := hmore hst
      obtain ⟨d', hbody, hrest⟩ := ih hcode hinp
      refine ⟨d ++ d', ?_, ?_⟩
      · rw [hbody, hconsumes.body, List.append_assoc]
      · rw [hsplit, List.append_assoc]
        exact hconsumes.rest _ _ hrest
    | complete =>
      simp only [hst] at hcode hinp ⊢
      obtain ⟨x, d, hsplit, hbody, hrest⟩ := hcomplete hst
      obtain ⟨hleft, hparts⟩ := List.append_eq_nil_iff.mp hinp
      rw [hleft, List.append_nil] at hsplit
      refine ⟨d, hbody, ?_⟩
      rwa [hsplit, hparts, List.append_nil]
    | next =>
      simp only [hst] at hcode
      cases hcode
    | close =>
      simp only [hst] at hcode
      cases hcode

/-- **The decoders agree.** The server takes the parts together as one body in chunks, with the
payload `b`. Then the client finds the same body in them: its first pass gives the length of the
payload, its second one puts the payload at the front of its destination and leaves the rest of
that alone, and at every cut in front of the end it asks for more. -/
theorem chunked_decoders_agree (c : Zh1Conn) (hst : c.state = .chunkSize) (parts : List Bytes)
    (hcode : (h1BodyChunkParts g c [] parts).code = .complete)
    (hinp : (h1BodyChunkParts g c [] parts).inp = []) (b : Bytes)
    (hbody : (h1BodyChunkParts g c [] parts).c.req.body = c.req.body ++ b)
    (hcap : b.length ≤ ZCIO_HTTP_MAX_RESPONSE) :
    chunkedPass parts.flatten none = .done b.length none ∧
      (∀ dst : Bytes, b.length ≤ dst.length →
        chunkedPass parts.flatten (some dst) = .done b.length (some (b ++ dst.drop b.length))) ∧
      ∀ a y : Bytes, a ++ y = parts.flatten → y ≠ [] → chunkedPass a none = .more := by
  obtain ⟨d, hd, hrest⟩ := h1BodyChunkParts_rest g hcode hinp
  obtain rfl := List.append_cancel_left (hbody.symm.trans hd)
  rw [ChunkRest, hst, List.nil_append] at hrest
  obtain ⟨chunks, lastSize, lastExt, trailer, hlax, hbytes, rfl⟩ := hrest
  have hlen : ([] : Bytes).length + ((chunks.map (·.data)).flatten).length ≤ ZCIO_HTTP_MAX_RESPONSE := by
    rwa [List.length_nil, Nat.zero_add]
  have hscan : chunkedScan parts.flatten = .done (chunks.map (·.data)).flatten := by
    have hloop := chunkedScan_loop hlax hlen []
    rwa [List.append_nil, ← hbytes] at hloop
  obtain ⟨hfirst, hsecond⟩ := chunkedPass_done hscan
  refine ⟨hfirst, hsecond, fun a y hcut hy => chunkedPass_more ?_⟩
  exact chunkedScan_cut hlax hlen hy (hcut.trans hbytes)

/-- A body that arrives in parts cut within a size line, the data, a CRLF and the trailer; the
extension and the trailer have a CR of their own. -/
def sampleParts : List Bytes :=
  [str "0", str "A;x=\ry\r\n01234", str "56789\r", str "\n1\r\na\r\n00;\r\nTrail", str "er: \r\r\n\r", str "\n"]

theorem chunked_decoders_agree_sample :
    chunkedPass sampleParts.flatten none = .done 11 none ∧
      (∀ dst : Bytes, 11 ≤ dst.length →
        chunkedPass sampleParts.flatten (some dst) = .done 11 (some (str "0123456789a" ++ dst.drop 11))) ∧
      ∀ a y : Bytes, a ++ y = sampleParts.flatten → y ≠ [] → chunkedPass a none = .more :=
  chunked_decoders_agree H1Cfg.silent { state := .chunkSize } rfl sampleParts (by decide +kernel)
    (by decide +kernel) (str "0123456789a") (by decide +kernel) (by decide +kernel)

end Zcio.Http
