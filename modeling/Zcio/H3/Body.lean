import Zcio.H3.Requests

/-!
# Zcio.H3.Body

The body of an HTTP/3 request is what the DATA frames of its stream carry. `h3DataOf` reads
that off the octets of the stream frame by frame; `H3Reads` says that the parser, which takes
the octets in chunks and stops inside frames, has put together as much of it as it has seen.
-/

namespace Zcio

/-! ### Frames

The DATA of a sequence of frames, with the last one cut off anywhere. -/

/-- The frame the octets start with: the length of its header, its type and the length of
its payload. -/
def h3FrameAt (s : Bytes) : Option (Nat × Nat × Nat) :=
  match h3Varint s with
  | none => none
  | some (n1, ftype) => (h3Varint (s.drop n1)).map fun (n2, flen) => (n1 + n2, ftype, flen)

theorem h3FrameAt_le {s : Bytes} {n ftype flen : Nat} (h : h3FrameAt s = some (n, ftype, flen)) :
    0 < n ∧ n ≤ s.length := by
  unfold h3FrameAt at h
  split at h
  · cases h
  · rename_i n1 t h1
    obtain ⟨⟨n2, l⟩, h2, heq⟩ := Option.map_eq_some_iff.mp h
    cases heq
    have hle1 := h3Varint_pos h1
    have hle2 := h3Varint_pos h2
    rw [List.length_drop] at hle2
    omega

/-- What the DATA frames in the octets of a stream carry, the last one cut off or not. -/
def h3DataOf (s : Bytes) : Bytes :=
  match _h : h3FrameAt s with
  | none => []
  | some (n, ftype, flen) =>
    (if ftype = H3_FRAME_DATA then (s.drop n).take flen else []) ++ h3DataOf (s.drop (n + flen))
termination_by s.length
decreasing_by
  have hle := h3FrameAt_le _h
  rw [List.length_drop]
  omega

theorem h3DataOf_none {s : Bytes} (h : h3FrameAt s = none) : h3DataOf s = [] := by
  rw [h3DataOf]
  split
  · rfl
  · rename_i heq
    rw [h] at heq
    cases heq

theorem h3DataOf_some {s : Bytes} {n ftype flen : Nat}
    (h : h3FrameAt s = some (n, ftype, flen)) :
    h3DataOf s = (if ftype = H3_FRAME_DATA then (s.drop n).take flen else []) ++
      h3DataOf (s.drop (n + flen)) := by
  rw [h3DataOf]
  split
  · rename_i heq
    rw [h] at heq
    cases heq
  · rename_i heq
    rw [h] at heq
    cases heq
    rfl

/-- An integer that is there is there with more octets behind it. -/
theorem h3Varint_append {p : Bytes} {r : Nat × Nat} (h : h3Varint p = some r) (ext : Bytes) :
    h3Varint (p ++ ext) = some r := by
  cases p with
  | nil => cases h
  | cons b rest =>
    rw [h3Varint] at h
    rw [List.cons_append, h3Varint]
    split at h
    · cases h
    · rename_i hlen
      have hlong : ¬(rest ++ ext).length + 1 < 1 <<< (b.toNat >>> 6) := by
        rw [List.length_append]
        omega
      rw [if_neg hlong, List.take_append_of_le_length (by omega)]
      exact h

theorem h3FrameAt_append {s : Bytes} {r : Nat × Nat × Nat} (h : h3FrameAt s = some r)
    (ext : Bytes) : h3FrameAt (s ++ ext) = some r := by
  unfold h3FrameAt at h ⊢
  split at h
  · cases h
  · rename_i n1 t h1
    obtain ⟨r2, h2, rfl⟩ := Option.map_eq_some_iff.mp h
    rw [h3Varint_append h1]
    dsimp only
    rw [List.drop_append_of_le_length (h3Varint_pos h1).2, h3Varint_append h2]
    rfl

/-- The first frame, and what is behind it. -/
theorem h3DataOf_frame {s : Bytes} {n ftype flen : Nat}
    (h : h3FrameAt s = some (n, ftype, flen)) (ext : Bytes) :
    h3DataOf (s ++ ext) =
      (if ftype = H3_FRAME_DATA then (s.drop n ++ ext).take flen else []) ++
        h3DataOf ((s.drop n ++ ext).drop flen) := by
  rw [h3DataOf_some (h3FrameAt_append h ext), ← List.drop_drop,
    List.drop_append_of_le_length (h3FrameAt_le h).2]

/-! ### Rounds

The proofs about the parser follow the rounds of `h3ParseRound`, which finds a frame in front of it or
is inside a payload. What it finds is said once, by `H3Round`. -/

/-- **What a round of the parser comes to.** -/
inductive H3Round (lim : ZhsLimits) (st : Zh3Stream) : Zh3Stream ⊕ (Zh3Stream × Option Fail) → Prop where
  /-- No whole frame header is there, or nothing of the payload. -/
  | waits : (st.pstate = .hdr → h3FrameAt st.inp = none) → (st.pstate ≠ .hdr → 0 < st.fremain ∧ st.inp = []) →
      H3Round lim st (.inr (st, none))
  | header {n ftype flen : Nat} {pstate : H3PState} : st.pstate = .hdr →
      h3FrameAt st.inp = some (n, ftype, flen) → h3FrameState lim st ftype flen = .ok pstate →
      H3Round lim st (.inl { st with inp := st.inp.drop n, pstate, fremain := flen })
  | headerRefused {n ftype flen : Nat} {e : Fail} : st.pstate = .hdr →
      h3FrameAt st.inp = some (n, ftype, flen) → h3FrameState lim st ftype flen = .error e →
      H3Round lim st (.inr ({ st with inp := st.inp.drop n }, some e))
  | headersPart : st.pstate = .headers →
      H3Round lim st (.inl { h3Consume st with hdr := st.hdr ++ st.inp.take (h3Take st) })
  | headersEnd {st₁ : Zh3Stream} : st.pstate = .headers → st.fremain - h3Take st = 0 →
      h3DecodeHeaders lim { h3Consume st with hdr := st.hdr ++ st.inp.take (h3Take st) } = .ok st₁ →
      H3Round lim st (.inl { st₁ with headersSeen := true, pstate := .hdr })
  | headersRefused {e : Fail} : st.pstate = .headers → st.fremain - h3Take st = 0 →
      h3DecodeHeaders lim { h3Consume st with hdr := st.hdr ++ st.inp.take (h3Take st) } = .error e →
      H3Round lim st (.inr ({ h3Consume st with hdr := st.hdr ++ st.inp.take (h3Take st) }, some e))
  | data {pstate : H3PState} : st.pstate = .data →
      pstate = st.pstate ∨ pstate = .hdr ∧ st.fremain - h3Take st = 0 →
      ¬(st.fremain > 0 ∧ h3Take st > lim.maxBodyBytes - st.req.body.length) →
      H3Round lim st (.inl { h3Consume st with
        req := { st.req with body := st.req.body ++ st.inp.take (h3Take st) }, pstate })
  | dataRefused : st.pstate = .data → h3Take st > lim.maxBodyBytes - st.req.body.length →
      H3Round lim st (.inr (st, some (h3BodyCapFail lim)))
  | skip {pstate : H3PState} : st.pstate = .skip →
      pstate = st.pstate ∨ pstate = .hdr ∧ st.fremain - h3Take st = 0 →
      H3Round lim st (.inl { h3Consume st with pstate })

/-- **Inverting a round**, with the octets it found. -/
theorem h3ParseRound_cases (lim : ZhsLimits) (st : Zh3Stream) : H3Round lim st (h3ParseRound lim st) := by
  have hwaits : st.pstate ≠ .hdr → st.fremain > 0 ∧ st.inp.length = 0 → H3Round lim st (.inr (st, none)) :=
    fun hne h => .waits (fun hst => absurd hst hne) fun _ => ⟨h.1, List.eq_nil_of_length_eq_zero h.2⟩
  unfold h3ParseRound
  split
  · -- a frame header
    rename_i hst
    have hnone : h3FrameAt st.inp = none → H3Round lim st (.inr (st, none)) :=
      fun hat => .waits (fun _ => hat) fun hne => absurd hst hne
    cases h1 : h3Varint st.inp with
    | none => exact hnone (by rw [h3FrameAt, h1])
    | some r1 =>
      obtain ⟨n1, ftype⟩ := r1
      dsimp only
      cases h2 : h3Varint (st.inp.drop n1) with
      | none => exact hnone (by rw [h3FrameAt, h1]; dsimp only; rw [h2]; rfl)
      | some r2 =>
        obtain ⟨n2, flen⟩ := r2
        have hat : h3FrameAt st.inp = some (n1 + n2, ftype, flen) := by
          rw [h3FrameAt, h1]
          dsimp only
          rw [h2]
          rfl
        dsimp only
        split
        · rename_i e hps
          exact .headerRefused hst hat hps
        · rename_i pstate hps
          exact .header hst hat hps
  · -- HEADERS payload
    rename_i hst
    split
    · rename_i hstop
      exact hwaits (by rw [hst]; decide) hstop
    · dsimp only
      split
      · rename_i hrem
        split
        · rename_i e hdec
          exact .headersRefused hst hrem hdec
        · rename_i st₁ hdec
          exact .headersEnd hst hrem hdec
      · exact .headersPart hst
  · -- DATA payload
    rename_i hst
    split
    · rename_i hstop
      exact hwaits (by rw [hst]; decide) hstop
    · split
      · rename_i hcap
        exact .dataRefused hst hcap.2
      · rename_i hroom
        dsimp only
        split
        · rename_i hrem
          exact .data hst (.inr ⟨rfl, hrem⟩) hroom
        · exact .data hst (.inl rfl) hroom
  · -- a skipped payload
    rename_i hst
    split
    · rename_i hstop
      exact hwaits (by rw [hst]; decide) hstop
    · dsimp only
      split
      · rename_i hrem
        exact .skip hst (.inr ⟨rfl, hrem⟩)
      · exact .skip hst (.inl rfl)

/-! ### The parser

What the parser has taken of a payload and what is still to come make the payload. -/

/-- The body octets still to come: in the rest of the current frame, and in the frames
behind it. -/
def h3RestOf (pstate : H3PState) (fremain : Nat) (s : Bytes) : Bytes :=
  match pstate with
  | .hdr => h3DataOf s
  | .data => s.take fremain ++ h3DataOf (s.drop fremain)
  | .headers | .skip => h3DataOf (s.drop fremain)

/-- **The parser has read `all`**: what it has of the body and what is still to come make up
the body that `all` carries, whatever follows. -/
def H3Reads (st : Zh3Stream) (all : Bytes) : Prop :=
  ∀ ext, st.req.body ++ h3RestOf st.pstate st.fremain (st.inp ++ ext) = h3DataOf (all ++ ext)

theorem H3Reads.append {st : Zh3Stream} {all : Bytes} (h : H3Reads st all) (chunk : Bytes) :
    H3Reads { st with inp := st.inp ++ chunk } (all ++ chunk) := by
  intro ext
  have := h (chunk ++ ext)
  simpa using this

/-- Taking payload off the input moves it out of what is still to come. -/
theorem take_drop_h3Take (st : Zh3Stream) (ext : Bytes) :
    (st.inp ++ ext).drop st.fremain =
        (st.inp.drop (h3Take st) ++ ext).drop (st.fremain - h3Take st) ∧
      (st.inp ++ ext).take st.fremain = st.inp.take (h3Take st) ++
        (st.inp.drop (h3Take st) ++ ext).take (st.fremain - h3Take st) := by
  have hle : h3Take st ≤ st.inp.length := Nat.min_le_left _ _
  have hf : h3Take st + (st.fremain - h3Take st) = st.fremain :=
    Nat.add_sub_cancel' (Nat.min_le_right _ _)
  have hdrop : (st.inp ++ ext).drop (h3Take st) = st.inp.drop (h3Take st) ++ ext :=
    List.drop_append_of_le_length hle
  constructor
  · rw [← hdrop, List.drop_drop, hf]
  · conv_lhs => rw [← hf]
    rw [List.take_add, List.take_append_of_le_length hle, hdrop]

theorem h3DecodeHeaders_body {lim : ZhsLimits} {st st' : Zh3Stream}
    (h : h3DecodeHeaders lim st = .ok st') : st'.req.body = st.req.body := by
  unfold h3DecodeHeaders at h
  split at h
  · cases h
  · dsimp only at h
    cases hr : h3Head lim st.req _ _ with
    | error e => rw [hr] at h; cases h
    | ok req =>
      rw [hr] at h
      cases h
      unfold h3Head at hr
      split at hr
      · split at hr
        · cases hr
        · split at hr
          · cases hr
          · cases hr
            rfl
      · cases hr

/-- Octets taken off a payload are no longer to come, whether it ends with them or goes on. -/
theorem h3RestOf_consume (st : Zh3Stream) (ext : Bytes) {pstate : H3PState}
    (hp : pstate = st.pstate ∨ pstate = .hdr ∧ st.fremain - h3Take st = 0) (hst : st.pstate ≠ .hdr) :
    (if st.pstate = .data then st.inp.take (h3Take st) else []) ++
        h3RestOf pstate (st.fremain - h3Take st) (st.inp.drop (h3Take st) ++ ext) =
      h3RestOf st.pstate st.fremain (st.inp ++ ext) := by
  obtain ⟨hdrop, htake⟩ := take_drop_h3Take st ext
  -- at the end of a payload the frames behind it are what is left
  have hend : st.fremain - h3Take st = 0 → h3RestOf .hdr (st.fremain - h3Take st) (st.inp.drop (h3Take st) ++ ext) =
      h3RestOf st.pstate (st.fremain - h3Take st) (st.inp.drop (h3Take st) ++ ext) := by
    intro hrem
    rw [hrem]
    cases hpst : st.pstate with
    | hdr => exact absurd hpst hst
    | _ => rfl
  have hgoes : (if st.pstate = .data then st.inp.take (h3Take st) else []) ++
      h3RestOf st.pstate (st.fremain - h3Take st) (st.inp.drop (h3Take st) ++ ext) =
        h3RestOf st.pstate st.fremain (st.inp ++ ext) := by
    cases hpst : st.pstate with
    | hdr => exact absurd hpst hst
    | data =>
      rw [if_pos rfl, h3RestOf, h3RestOf, hdrop, htake, List.append_assoc]
    | _ =>
      rw [if_neg (by decide), List.nil_append, h3RestOf, h3RestOf, hdrop]
  rcases hp with rfl | ⟨rfl, hrem⟩
  · exact hgoes
  · rw [hend hrem]
    exact hgoes

/-- **A round of the parser** goes on with the same body. -/
theorem H3Reads.round {lim : ZhsLimits} {st st' : Zh3Stream} {all : Bytes} (h : H3Reads st all)
    (hround : h3ParseRound lim st = .inl st') : H3Reads st' all := by
  intro ext
  rw [← h ext]
  have hcases := h3ParseRound_cases lim st
  rw [hround] at hcases
  cases hcases with
  | @header n ftype flen pstate hst hat hps =>
    rw [hst]
    change st.req.body ++ h3RestOf pstate flen _ = st.req.body ++ h3DataOf (st.inp ++ ext)
    rw [h3DataOf_frame hat]
    unfold h3FrameState at hps
    split at hps
    · rename_i hheaders
      split at hps
      · cases hps
      · cases hps
        rw [if_neg (by rw [hheaders.1]; decide)]
        rfl
    · split at hps
      · rename_i hdata
        cases hps
        rw [if_pos hdata]
        rfl
      · rename_i hskip
        cases hps
        rw [if_neg hskip]
        rfl
  | headersPart hst =>
    rw [← h3RestOf_consume st ext (.inl rfl) (by rw [hst]; decide), if_neg (by rw [hst]; decide)]
    rfl
  | @headersEnd st₁ hst hrem hdec =>
    have hbody := h3DecodeHeaders_body hdec
    rw [h3DecodeHeaders_inp hdec]
    dsimp only at hbody ⊢
    rw [hbody, ← h3RestOf_consume st ext (.inr ⟨rfl, hrem⟩) (by rw [hst]; decide), if_neg (by rw [hst]; decide)]
    rfl
  | data hst hp =>
    rw [← h3RestOf_consume st ext hp (by rw [hst]; decide), if_pos hst, ← List.append_assoc]
    rfl
  | skip hst hp =>
    rw [← h3RestOf_consume st ext hp (by rw [hst]; decide), if_neg (by rw [hst]; decide)]
    rfl

/-- **A parser that stops without an error** has no whole header in front of it, or none of the
payload it is in. -/
theorem h3ParseRound_stops {lim : ZhsLimits} {st st' : Zh3Stream}
    (hround : h3ParseRound lim st = .inr (st', none)) :
    st' = st ∧ (st.pstate = .hdr → h3FrameAt st.inp = none) ∧
      (st.pstate ≠ .hdr → 0 < st.fremain ∧ st.inp = []) := by
  have hcases := h3ParseRound_cases lim st
  rw [hround] at hcases
  cases hcases with
  | waits hhdr hpayload => exact ⟨rfl, hhdr, hpayload⟩

/-! ### Whole streams

The body is the DATA received so far, for as long as the stream reads. -/

/-- The octets a stream reads: nothing behind its end. -/
def h3Received (g : H3Cfg) (st : Zh3Stream) : List H3Pass → Bytes
  | [] => []
  | pass :: passes =>
    if st.done then []
    else pass.chunks.flatten ++ h3Received g (h3PumpStream g st pass) passes

/-- **What a stream knows of the octets it has read**: `R` is kept by every read and every round of
the parser, and gives `Q` of the request that is handed over behind the last whole frame. -/
structure H3Tracks (lim : ZhsLimits) (R : Zh3Stream → Bytes → Prop) (Q : HttpReq → Bytes → Prop) : Prop where
  append : ∀ {st all} (chunk : Bytes), R st all → R { st with inp := st.inp ++ chunk } (all ++ chunk)
  round : ∀ {st st' all}, R st all → h3ParseRound lim st = .inl st' → R st' all
  fin : ∀ {st all} (fin : Bool), R st all → R { st with fin } all
  handed : ∀ {st all}, R st all → st.headersSeen = true → st.pstate = .hdr → h3FrameAt st.inp = none →
    Q (h3Request st) all

/-- The stream has parsed `all`, up to a frame header that is not there; a unidirectional one parses
nothing. -/
def H3Open (R : Zh3Stream → Bytes → Prop) (st : Zh3Stream) (all : Bytes) : Prop :=
  st.isUni = true ∨ R st all ∧ (st.pstate = .hdr → h3FrameAt st.inp = none)

/-- What is left behind a pass: an open stream that has parsed `all`, or one that is done, with what
it has handed over. -/
def PassInv (R : Zh3Stream → Bytes → Prop) (Q : HttpReq → Bytes → Prop) (st : Zh3Stream) (all : Bytes) : Prop :=
  (∀ req ∈ st.log, Q req all) ∧ (st.done = false → st.log = [] ∧ H3Open R st all)

section Tracks

variable {R : Zh3Stream → Bytes → Prop} {Q : HttpReq → Bytes → Prop}

theorem H3Tracks.parse {lim : ZhsLimits} (hR : H3Tracks lim R Q) {st st' : Zh3Stream} {all : Bytes} (h : R st all)
    (hparse : h3Parse lim st = (st', none)) : R st' all ∧ (st'.pstate = .hdr → h3FrameAt st'.inp = none) := by
  have hloop := Lib.loop_inv (h3ParseRound_decreases lim) (I := fun s => R s all)
    (Q := fun r => r.2 = none → R r.1 all ∧ (r.1.pstate = .hdr → h3FrameAt r.1.inp = none))
    (fun s s' hi hb => hR.round hi hb) (fun s r hi hb => ?_) h
  · have hres := hloop
    change (h3Parse lim st).2 = none → R (h3Parse lim st).1 all ∧
      ((h3Parse lim st).1.pstate = .hdr → h3FrameAt (h3Parse lim st).1.inp = none) at hres
    rw [hparse] at hres
    exact hres rfl
  · obtain ⟨s', e⟩ := r
    rintro rfl
    obtain ⟨rfl, hat, -⟩ := h3ParseRound_stops hb
    exact ⟨hi, hat⟩

theorem H3Tracks.readChunks {lim : ZhsLimits} (hR : H3Tracks lim R Q) (chunks : List Bytes) {st st' : Zh3Stream}
    {all : Bytes} (h : H3Open R st all) (hread : h3ReadChunks lim st chunks = (st', none)) :
    H3Open R st' (all ++ chunks.flatten) := by
  induction chunks generalizing st all with
  | nil =>
    cases hread
    rw [List.flatten_nil, List.append_nil]
    exact h
  | cons chunk chunks ih =>
    rw [h3ReadChunks] at hread
    rw [List.flatten_cons, ← List.append_assoc]
    split at hread
    · rename_i huni
      exact ih (.inl huni) hread
    · rename_i huni
      have hr := h.resolve_left huni
      split at hread
      · cases hread
      · rename_i st₁ hparse
        exact ih (.inr (hR.parse (hR.append chunk hr.1) hparse)) hread

/-- A stream that is done has only its log to show. -/
theorem PassInv.ended {st : Zh3Stream} {all : Bytes} (hdone : st.done = true)
    (hlog : ∀ req ∈ st.log, Q req all) : PassInv R Q st all := by
  refine ⟨hlog, fun hf => ?_⟩
  rw [hdone] at hf
  cases hf

variable {g : H3Cfg}

theorem H3Tracks.maybeDispatch (hR : H3Tracks g.lim R Q) (history : List HttpReq) (writes : List H3Write)
    {st : Zh3Stream} {all : Bytes} (hlog : st.log = []) (h : H3Open R st all) :
    PassInv R Q (h3MaybeDispatch g history st writes) all := by
  have hnil : ∀ req ∈ st.log, Q req all := by
    rw [hlog]
    exact fun _ hreq => (List.not_mem_nil hreq).elim
  unfold h3MaybeDispatch
  split
  · exact ⟨hnil, fun _ => ⟨hlog, h⟩⟩
  · rename_i hopen
    split
    · exact .ended rfl hnil
    · rename_i hready
      refine .ended rfl fun req hreq => ?_
      obtain ⟨hr, hwaits⟩ := h.resolve_left fun huni => hopen (by rw [huni, Bool.or_true])
      obtain ⟨hseen, hps⟩ := not_or.mp hready
      have hseen : st.headersSeen = true := by simpa using hseen
      have hps : st.pstate = .hdr := not_not.mp hps
      dsimp only at hreq
      rw [h3MaybeDispatch_log, hlog] at hreq
      rw [List.mem_singleton.mp hreq]
      exact hR.handed hr hseen hps (hwaits hps)

/-- **One pass.** -/
theorem H3Tracks.pumpStream (hR : H3Tracks g.lim R Q) {st : Zh3Stream} {all : Bytes} (h : PassInv R Q st all)
    (hopen : st.done = false) (pass : H3Pass) :
    PassInv R Q (h3PumpStream g st pass) (all ++ pass.chunks.flatten) := by
  obtain ⟨hlog, hreads⟩ := h.2 hopen
  have hnil : ∀ {s : Zh3Stream}, s.log = [] → ∀ req ∈ s.log, Q req (all ++ pass.chunks.flatten) := by
    intro s hs req hreq
    rw [hs] at hreq
    exact (List.not_mem_nil hreq).elim
  unfold h3PumpStream
  rw [if_neg (by rw [hopen]; exact Bool.false_ne_true)]
  split
  · rename_i st₁ e hread
    have hkeep := h3ReadChunks_log g.lim pass.chunks st
    rw [hread] at hkeep
    exact .ended rfl (hnil (hkeep.trans hlog))
  · rename_i st₁ hread
    have hreads₁ := hR.readChunks pass.chunks hreads hread
    have hlog₁ : st₁.log = [] := by
      have hkeep := h3ReadChunks_log g.lim pass.chunks st
      rw [hread] at hkeep
      exact hkeep.trans hlog
    split
    · exact .ended rfl (hnil hlog₁)
    all_goals
      have hopen₁ := hreads₁.imp_right fun hr => And.intro (hR.fin (st₁.fin || pass.ending == .fin) hr.1) hr.2
      dsimp only
      split
      · exact hR.maybeDispatch _ _ hlog₁ hopen₁
      · split
        · exact .ended rfl (hnil hlog₁)
        · exact ⟨hnil hlog₁, fun _ => ⟨hlog₁, hopen₁⟩⟩

theorem H3Tracks.run (hR : H3Tracks g.lim R Q) (passes : List H3Pass) {st : Zh3Stream} {all : Bytes}
    (h : PassInv R Q st all) :
    ∀ req ∈ (h3Run g st passes).log, Q req (all ++ h3Received g st passes) := by
  induction passes generalizing st all with
  | nil =>
    rw [h3Received, List.append_nil]
    exact h.1
  | cons pass passes ih =>
    rw [h3Received]
    cases hdone : st.done with
    | true =>
      have hsame : h3PumpStream g st pass = st := by rw [h3PumpStream, if_pos hdone]
      have hrun : h3Run g st (pass :: passes) = h3Run g st passes := by
        rw [h3Run, List.foldl_cons, hsame]
        rfl
      have hnone : h3Received g st passes = [] := by
        cases passes with
        | nil => rfl
        | cons p ps => rw [h3Received, if_pos hdone]
      have := ih h
      rwa [hnone, ← hrun] at this
    | false =>
      rw [if_neg Bool.false_ne_true, ← List.append_assoc]
      exact ih (hR.pumpStream h hdone pass)

/-- **Whole streams**: what holds of a new stream is known of every request handed over. -/
theorem H3Tracks.stream (hR : H3Tracks g.lim R Q) {id : Nat} {isUni : Bool} (hnew : R (h3StreamNew id isUni) [])
    (passes : List H3Pass) :
    ∀ req ∈ (h3Run g (h3StreamNew id isUni) passes).log, Q req (h3Received g (h3StreamNew id isUni) passes) :=
  hR.run passes ⟨fun _ hreq => (List.not_mem_nil hreq).elim, fun _ => ⟨rfl, .inr ⟨hnew, fun _ => rfl⟩⟩⟩

end Tracks

/-! ### The body -/

theorem h3Reads_tracks (lim : ZhsLimits) : H3Tracks lim H3Reads fun req all => req.body = h3DataOf all where
  append chunk h := h.append chunk
  round h hround := h.round hround
  fin _ h := h
  handed := by
    intro st all h _ hps hat
    have hall := h []
    rw [hps, List.append_nil, List.append_nil] at hall
    change st.req.body ++ h3DataOf st.inp = h3DataOf all at hall
    rwa [h3DataOf_none hat, List.append_nil] at hall

/-- **Every body an HTTP/3 stream hands over** is what its DATA frames carried. -/
theorem h3Run_bodies (g : H3Cfg) (id : Nat) (isUni : Bool) (passes : List H3Pass) :
    ∀ req ∈ (h3Run g (h3StreamNew id isUni) passes).log,
      req.body = h3DataOf (h3Received g (h3StreamNew id isUni) passes) :=
  (h3Reads_tracks g.lim).stream (fun _ => rfl) passes

end Zcio
