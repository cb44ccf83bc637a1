import Zcio.H3.Section

/-!
# Zcio.H3.Grammar

Which streams the server takes for a request. `h3Frames` cuts the octets of a stream into whole
frames; `H3Request` says which of them are a request by RFC 9114, and `H3Taken` which ones the server
takes, with the rules of `Zcio.H3.Section` for the field section. `h3Judge` is what the parser makes of
the frames, one after the other.

The parser is followed over any segmentation by a judgement of what it has and what is still to come,
which no round of it changes (`h3ParseRound_judge`); so the judgement of the whole stream is there
before the first read, and FIN only asks for it (`h3PumpStream_last`).
-/

namespace Zcio

/-! ### Frames

A stream of HTTP/3 as RFC 9114 has it: frames of a type, a length and a payload, both
numbers in the variable-length form. -/

/-- A whole frame: its type and its payload. -/
abbrev H3Frame := Nat × Bytes

/-- The whole frames of a stream, and what is left behind them. -/
def h3Frames (s : Bytes) : List H3Frame × Bytes :=
  match _h : h3FrameAt s with
  | none => ([], s)
  | some (n, ftype, flen) =>
    if (s.drop n).length < flen then ([], s)
    else
      let r := h3Frames (s.drop (n + flen))
      ((ftype, (s.drop n).take flen) :: r.1, r.2)
termination_by s.length
decreasing_by
  have hle := h3FrameAt_le _h
  rw [List.length_drop]
  omega

theorem h3Frames_none {s : Bytes} (h : h3FrameAt s = none) : h3Frames s = ([], s) := by
  rw [h3Frames]
  split
  · rfl
  · rename_i heq
    rw [h] at heq
    cases heq

theorem h3Frames_some {s : Bytes} {n ftype flen : Nat} (h : h3FrameAt s = some (n, ftype, flen)) :
    h3Frames s =
      if (s.drop n).length < flen then ([], s)
      else ((ftype, (s.drop n).take flen) :: (h3Frames ((s.drop n).drop flen)).1,
        (h3Frames ((s.drop n).drop flen)).2) := by
  rw [h3Frames]
  split
  · rename_i heq
    rw [h] at heq
    cases heq
  · rename_i heq
    rw [h] at heq
    cases heq
    rw [List.drop_drop]

/-! ### Requests

What a request is on the wire: HEADERS first, then DATA, with other frames in between that
are passed over. `h3Request_iff` gives the exact condition under which the server takes it.
-/

/-- The payload of the first HEADERS frame. -/
def h3Section (fs : List H3Frame) : Option Bytes :=
  (fs.find? fun f => f.1 = H3_FRAME_HEADERS).map (·.2)

/-- What the DATA frames carry. -/
def h3Payloads (fs : List H3Frame) : Bytes :=
  (fs.filter fun f => f.1 = H3_FRAME_DATA).flatMap (·.2)

/-- The types of the frames, without those that are ignored. -/
def h3Types (fs : List H3Frame) : List Nat :=
  (fs.map (·.1)).filter fun t => t = H3_FRAME_DATA ∨ t = H3_FRAME_HEADERS

/-- HEADERS, any number of DATA, and HEADERS again for a trailer section, or not. -/
def H3Ordered (ts : List Nat) : Prop :=
  ∃ n, ts = H3_FRAME_HEADERS :: List.replicate n H3_FRAME_DATA ∨
    ts = H3_FRAME_HEADERS :: (List.replicate n H3_FRAME_DATA ++ [H3_FRAME_HEADERS])

/-- A stream is a request: whole frames in the order of the protocol, a well-formed field section in
front and a body within the limit. -/
structure H3Request (lim : ZhsLimits) (s : Bytes) : Prop where
  whole : (h3Frames s).2 = []
  ordered : H3Ordered (h3Types (h3Frames s).1)
  head : ∃ payload, h3Section (h3Frames s).1 = some payload ∧ H3SectionOk lim payload
  body : (h3Payloads (h3Frames s).1).length ≤ lim.maxBodyBytes

/-- A stream is taken for a request: it does not end within a payload, and has a field section and a
body that will do. -/
structure H3Taken (lim : ZhsLimits) (s : Bytes) : Prop where
  uncut : h3FrameAt (h3Frames s).2 = none
  head : ∃ payload, h3Section (h3Frames s).1 = some payload ∧ H3SectionTaken lim payload
  body : (h3Payloads (h3Frames s).1).length ≤ lim.maxBodyBytes

/-- What the server does not look at in a stream that it takes: that it does not end within a frame
header, that the frames are in order, and the rest of the rules for the field section. -/
structure H3Kept (lim : ZhsLimits) (s : Bytes) : Prop where
  whole : (h3Frames s).2 = []
  ordered : H3Ordered (h3Types (h3Frames s).1)
  head : ∀ payload, h3Section (h3Frames s).1 = some payload → H3SectionKept lim payload

/-- **A request is a stream that the server takes and that keeps the rest.** -/
theorem h3Request_iff {lim : ZhsLimits} {s : Bytes} : H3Request lim s ↔ H3Taken lim s ∧ H3Kept lim s := by
  constructor
  · rintro ⟨hwhole, hordered, ⟨payload, hsection, hok⟩, hbody⟩
    obtain ⟨htaken, hkept⟩ := h3SectionOk_iff.mp hok
    refine ⟨⟨by rw [hwhole]; rfl, ⟨payload, hsection, htaken⟩, hbody⟩, hwhole, hordered, fun payload' h => ?_⟩
    rw [hsection] at h
    cases h
    exact hkept
  · rintro ⟨⟨-, ⟨payload, hsection, htaken⟩, hbody⟩, hwhole, hordered, hkept⟩
    exact ⟨hwhole, hordered, ⟨payload, hsection, h3SectionOk_iff.mpr ⟨htaken, hkept payload hsection⟩⟩, hbody⟩

/-! ### The judgement of the parser

The verdict on a sequence of frames as a fold, with two arguments: whether HEADERS was seen,
and how much room the body has left. -/

/-- What the parser makes of a field section. -/
def h3SectionParses (lim : ZhsLimits) (payload : Bytes) : Bool :=
  payload.length ≤ lim.maxHeaderBytes &&
    (h3DecodeHeaders lim { id := 0, hdr := payload }).toBool

/-- It goes by the rules. -/
theorem h3SectionParses_iff {lim : ZhsLimits} {payload : Bytes} :
    h3SectionParses lim payload = true ↔ H3SectionTaken lim payload := by
  rw [h3SectionParses, Bool.and_eq_true, decide_eq_true_iff, H3SectionTaken]
  refine and_congr_right fun _ => ?_
  obtain ⟨fs, st', hfields, hserved, hdec, -⟩ | ⟨hnone, e, herr⟩ :=
    @h3DecodeHeaders_served lim { id := 0, hdr := payload } rfl
  · rw [hdec]
    exact iff_of_true rfl ⟨fs, hfields, hserved⟩
  · rw [herr]
    exact iff_of_false Bool.false_ne_true fun ⟨fs, hfields, hserved⟩ => hnone fs hfields hserved

/-- What the parser makes of frames, with or without the field section behind it and with room for
`room` octets of the body. -/
def h3Judge (lim : ZhsLimits) (rest : Bytes) : Bool → Nat → List H3Frame → Bool
  | seen, _, [] => seen && (h3FrameAt rest).isNone
  | seen, room, (ftype, payload) :: fs =>
    if ftype = H3_FRAME_HEADERS ∧ (!seen) = true then
      h3SectionParses lim payload && h3Judge lim rest true room fs
    else if ftype = H3_FRAME_DATA then
      decide (payload.length ≤ room) && h3Judge lim rest seen (room - payload.length) fs
    else h3Judge lim rest seen room fs

/-- The judgement of a whole stream. -/
def h3JudgeAll (lim : ZhsLimits) (seen : Bool) (room : Nat) (s : Bytes) : Bool :=
  h3Judge lim (h3Frames s).2 seen room (h3Frames s).1

theorem h3Judge_iff {lim : ZhsLimits} {rest : Bytes} (fs : List H3Frame) :
    ∀ (seen : Bool) (room : Nat), h3Judge lim rest seen room fs = true ↔
      h3FrameAt rest = none ∧ (seen = true ∨ (h3Section fs).any (h3SectionParses lim) = true) ∧
        (h3Payloads fs).length ≤ room := by
  -- frame by frame; the two arguments are what the frames before have left
  induction fs with
  | nil =>
    intro seen room
    simp [h3Judge, h3Section, h3Payloads, and_comm]
  | cons f fs ih =>
    intro seen room
    obtain ⟨ftype, payload⟩ := f
    have hne : H3_FRAME_DATA ≠ H3_FRAME_HEADERS := by decide
    rw [h3Judge]
    -- HEADERS: the first one has to be a section that parses, a later one is passed
    by_cases hh : ftype = H3_FRAME_HEADERS
    · subst hh
      have hpay : h3Payloads ((H3_FRAME_HEADERS, payload) :: fs) = h3Payloads fs := by
        simp [h3Payloads, hne.symm]
      have hsec : h3Section ((H3_FRAME_HEADERS, payload) :: fs) = some payload := by
        simp [h3Section]
      rw [hpay, hsec]
      cases seen with
      | true =>
        rw [if_neg (by simp), if_neg hne.symm, ih]
        simp
      | false =>
        rw [if_pos ⟨rfl, rfl⟩, Bool.and_eq_true, ih]
        simp only [Option.any_some]
        tauto
    · have hsec : h3Section ((ftype, payload) :: fs) = h3Section fs := by
        simp [h3Section, hh]
      rw [hsec, if_neg (fun h => hh h.1)]
      -- DATA takes from the room
      by_cases hd : ftype = H3_FRAME_DATA
      · subst hd
        have hpay : (h3Payloads ((H3_FRAME_DATA, payload) :: fs)).length =
            payload.length + (h3Payloads fs).length := by
          simp [h3Payloads]
        rw [if_pos rfl, Bool.and_eq_true, ih, hpay, decide_eq_true_iff]
        constructor
        · rintro ⟨hle, hrest, hseen, hlen⟩
          exact ⟨hrest, hseen, by omega⟩
        · rintro ⟨hrest, hseen, hlen⟩
          exact ⟨by omega, hrest, hseen, by omega⟩
      · -- other frames change nothing
        have hpay : h3Payloads ((ftype, payload) :: fs) = h3Payloads fs := by
          simp [h3Payloads, hd]
        rw [if_neg hd, hpay, ih]

theorem h3JudgeAll_iff {lim : ZhsLimits} {s : Bytes} :
    h3JudgeAll lim false lim.maxBodyBytes s = true ↔ H3Taken lim s := by
  have hany : (h3Section (h3Frames s).1).any (h3SectionParses lim) = true ↔
      ∃ payload, h3Section (h3Frames s).1 = some payload ∧ H3SectionTaken lim payload := by
    rw [Option.any_eq_true]
    exact exists_congr fun payload => and_congr_right fun _ => h3SectionParses_iff
  rw [h3JudgeAll, h3Judge_iff, hany]
  constructor
  · rintro ⟨huncut, hhead, hbody⟩
    exact ⟨huncut, hhead.resolve_left Bool.false_ne_true, hbody⟩
  · intro h
    exact ⟨h.uncut, Or.inr h.head, h.body⟩

/-! ### The parser

A stream in the middle of a frame has a verdict too, on any input that may still come. A
round of the parser keeps that verdict, which is the invariant of this module. -/

/-- The judgement from a state of the parser, with `s` for what is not parsed. -/
def Zh3Stream.judge (lim : ZhsLimits) (st : Zh3Stream) (s : Bytes) : Bool :=
  let room := lim.maxBodyBytes - st.req.body.length
  match st.pstate with
  | .hdr => h3JudgeAll lim st.headersSeen room s
  | .headers => decide (st.fremain ≤ s.length) && h3SectionParses lim (st.hdr ++ s.take st.fremain) &&
      h3JudgeAll lim true room (s.drop st.fremain)
  | .data => decide (st.fremain ≤ s.length) && decide (st.fremain ≤ room) &&
      h3JudgeAll lim st.headersSeen (room - st.fremain) (s.drop st.fremain)
  | .skip => decide (st.fremain ≤ s.length) && h3JudgeAll lim st.headersSeen room (s.drop st.fremain)

/-- What there is of the field section. -/
structure Zh3Stream.Fresh (lim : ZhsLimits) (st : Zh3Stream) : Prop where
  headers : st.headersSeen = false → st.req.headers = {}
  hdr : st.pstate ≠ .headers → st.hdr = []
  unseen : st.pstate = .headers → st.headersSeen = false
  cap : st.pstate = .headers → st.hdr.length + st.fremain ≤ lim.maxHeaderBytes

/-- What the decoder says depends on the octets of the field section alone. -/
theorem h3DecodeHeaders_toBool {lim : ZhsLimits} {st : Zh3Stream} (h : st.req.headers = {}) :
    (h3DecodeHeaders lim st).toBool = (h3DecodeHeaders lim { id := 0, hdr := st.hdr }).toBool := by
  have hhead : ∀ (req req' : HttpReq) (ok : Bool) (x : H3HdrCtx),
      (h3Head lim req ok x).toBool = (h3Head lim req' ok x).toBool := by
    intro req req' ok x
    unfold h3Head
    split
    · split
      · rfl
      · split
        · rfl
        · rfl
    · rfl
  have hmap : ∀ {α β : Type} (f : α → β) (r : Except Fail α), (r.map f).toBool = r.toBool := by
    intro α β f r
    cases r with
    | error e => rfl
    | ok a => rfl
  unfold h3DecodeHeaders
  split
  · rfl
  · dsimp only
    rw [hmap, hmap, h]
    exact hhead _ _ _ _

/-- Whether the payload is all there does not change with what is taken of it. -/
theorem fremain_le_iff (st : Zh3Stream) (ext : Bytes) :
    (st.fremain - h3Take st ≤ (st.inp.drop (h3Take st) ++ ext).length) ↔
      st.fremain ≤ (st.inp ++ ext).length := by
  have hle : h3Take st ≤ st.inp.length := Nat.min_le_left _ _
  have hle' : h3Take st ≤ st.fremain := Nat.min_le_right _ _
  simp only [List.length_append, List.length_drop]
  omega

/-- The judgement behind a frame header. -/
theorem judge_header {lim : ZhsLimits} {st : Zh3Stream} (hst : st.pstate = .hdr)
    {n ftype flen : Nat} (hat : h3FrameAt st.inp = some (n, ftype, flen)) (ext : Bytes) :
    st.judge lim (st.inp ++ ext) =
      if (st.inp.drop n ++ ext).length < flen then false
      else h3Judge lim (h3Frames ((st.inp.drop n ++ ext).drop flen)).2 st.headersSeen
        (lim.maxBodyBytes - st.req.body.length)
        ((ftype, (st.inp.drop n ++ ext).take flen) :: (h3Frames ((st.inp.drop n ++ ext).drop flen)).1) := by
  have hat' := h3FrameAt_append hat ext
  have hdrop : (st.inp ++ ext).drop n = st.inp.drop n ++ ext :=
    List.drop_append_of_le_length (h3FrameAt_le hat).2
  rw [Zh3Stream.judge, hst]
  dsimp only
  rw [h3JudgeAll, h3Frames_some hat', hdrop]
  split
  · rw [h3Judge, hat']
    simp
  · rfl

/-- The state behind a frame header. -/
theorem h3FrameState_fresh {lim : ZhsLimits} {st : Zh3Stream} (hfresh : st.Fresh lim) (hhdr : st.hdr = [])
    {ftype flen n : Nat} {pstate : H3PState} (hps : h3FrameState lim st ftype flen = .ok pstate) :
    Zh3Stream.Fresh lim { st with inp := st.inp.drop n, pstate, fremain := flen } := by
  have hcase : pstate = .headers → st.headersSeen = false ∧ flen ≤ lim.maxHeaderBytes := by
    rintro rfl
    unfold h3FrameState at hps
    split at hps
    · rename_i hheaders
      split at hps
      · cases hps
      · rename_i hcap
        exact ⟨by simpa using hheaders.2, Nat.not_lt.mp hcap⟩
    · split at hps
      · cases hps
      · cases hps
  refine ⟨hfresh.headers, fun _ => hhdr, fun h => (hcase h).1, fun h => ?_⟩
  show st.hdr.length + flen ≤ _
  rw [hhdr, List.length_nil, Nat.zero_add]
  exact (hcase h).2

theorem h3FrameState_judge {lim : ZhsLimits} {st : Zh3Stream} (hst : st.pstate = .hdr) (hhdr : st.hdr = [])
    {n ftype flen : Nat} (hat : h3FrameAt st.inp = some (n, ftype, flen)) {pstate : H3PState}
    (hps : h3FrameState lim st ftype flen = .ok pstate) (ext : Bytes) :
    Zh3Stream.judge lim { st with inp := st.inp.drop n, pstate, fremain := flen } (st.inp.drop n ++ ext) =
      st.judge lim (st.inp ++ ext) := by
  rw [judge_header hst hat]
  generalize st.inp.drop n ++ ext = s
  by_cases hlen : s.length < flen
  · -- the payload is cut short
    have hnot : decide (flen ≤ s.length) = false := decide_eq_false (Nat.not_le.mpr hlen)
    rw [if_pos hlen, Zh3Stream.judge]
    unfold h3FrameState at hps
    repeat' split at hps
    all_goals cases hps
    all_goals
      dsimp only
      rw [hnot]
      rfl
  · have hyes : decide (flen ≤ s.length) = true := decide_eq_true (Nat.not_lt.mp hlen)
    have hpay : (s.take flen).length = flen := by
      rw [List.length_take]
      exact Nat.min_eq_left (Nat.not_lt.mp hlen)
    rw [if_neg hlen, h3Judge, hpay, Zh3Stream.judge]
    unfold h3FrameState at hps
    split at hps
    · rename_i hheaders
      split at hps
      · cases hps
      · cases hps
        rw [if_pos hheaders]
        dsimp only
        rw [hyes, hhdr]
        rfl
    · rename_i hnot
      rw [if_neg hnot]
      split at hps
      · rename_i hdata
        cases hps
        rw [if_pos hdata]
        dsimp only
        rw [hyes]
        rfl
      · rename_i hskip
        cases hps
        rw [if_neg hskip]
        dsimp only
        rw [hyes]
        rfl

/-- Whether the payload ends with what is there. -/
theorem fremain_le_of_end {st : Zh3Stream} (hrem : st.fremain - h3Take st = 0) (ext : Bytes) :
    decide (st.fremain ≤ (st.inp ++ ext).length) = true := by
  have hle : h3Take st ≤ st.inp.length := Nat.min_le_left _ _
  refine decide_eq_true ?_
  rw [List.length_append]
  omega

/-- The end of the field section. -/
theorem headersEnd_judge {lim : ZhsLimits} {st st₁ : Zh3Stream} (hfresh : st.Fresh lim)
    (hst : st.pstate = .headers) (hrem : st.fremain - h3Take st = 0)
    (hdec : h3DecodeHeaders lim { h3Consume st with hdr := st.hdr ++ st.inp.take (h3Take st) } = .ok st₁) :
    Zh3Stream.Fresh lim { st₁ with headersSeen := true, pstate := .hdr } ∧ ∀ ext,
      Zh3Stream.judge lim { st₁ with headersSeen := true, pstate := .hdr } (st₁.inp ++ ext) =
        st.judge lim (st.inp ++ ext) := by
  have hbody := h3DecodeHeaders_body hdec
  have heq := h3DecodeHeaders_inp hdec
  have hok := @h3DecodeHeaders_toBool lim { h3Consume st with hdr := st.hdr ++ st.inp.take (h3Take st) }
    (hfresh.headers (hfresh.unseen hst))
  rw [hdec] at hok
  -- the section was decoded, and its octets are gone
  have hhdr : st₁.hdr = [] := by rw [heq]
  have hinp : st₁.inp = st.inp.drop (h3Take st) := by rw [heq]; rfl
  refine ⟨⟨fun h => absurd h nofun, fun _ => hhdr, fun h => absurd h nofun, fun h => absurd h nofun⟩, ?_⟩
  intro ext
  obtain ⟨hdrop, htake⟩ := take_drop_h3Take st ext
  rw [hrem, List.drop_zero] at hdrop
  rw [hrem, List.take_zero, List.append_nil] at htake
  -- the verdict on the section is that of the decoder
  have hsection : h3SectionParses lim (st.hdr ++ st.inp.take (h3Take st)) = true := by
    rw [h3SectionParses, Bool.and_eq_true]
    refine ⟨decide_eq_true ?_, hok.symm⟩
    have hcap := hfresh.cap hst
    rw [List.length_append, List.length_take]
    have hmin : min (h3Take st) st.inp.length ≤ h3Take st := Nat.min_le_left _ _
    have hle : h3Take st ≤ st.fremain := Nat.min_le_right _ _
    omega
  -- the body did not change
  have hroom : st₁.req.body.length = st.req.body.length := by rw [hbody]; rfl
  rw [Zh3Stream.judge, Zh3Stream.judge, hst]
  dsimp only
  rw [hdrop, htake, fremain_le_of_end hrem, hsection, hinp, hroom]
  rfl

/-- A part of the field section. -/
theorem headersPart_judge {lim : ZhsLimits} {st : Zh3Stream} (hfresh : st.Fresh lim)
    (hst : st.pstate = .headers) :
    Zh3Stream.Fresh lim { h3Consume st with hdr := st.hdr ++ st.inp.take (h3Take st) } ∧ ∀ ext,
      Zh3Stream.judge lim { h3Consume st with hdr := st.hdr ++ st.inp.take (h3Take st) }
        ((h3Consume st).inp ++ ext) = st.judge lim (st.inp ++ ext) := by
  refine ⟨⟨hfresh.headers, fun h => absurd hst h, hfresh.unseen, ?_⟩, ?_⟩
  · intro h
    have hcap := hfresh.cap hst
    have hle : h3Take st ≤ st.fremain := Nat.min_le_right _ _
    show (st.hdr ++ st.inp.take (h3Take st)).length + (st.fremain - h3Take st) ≤ _
    rw [List.length_append, List.length_take]
    have hmin : min (h3Take st) st.inp.length ≤ h3Take st := Nat.min_le_left _ _
    omega
  · intro ext
    obtain ⟨hdrop, htake⟩ := take_drop_h3Take st ext
    have hle := fremain_le_iff st ext
    rw [Zh3Stream.judge, Zh3Stream.judge]
    simp only [h3Consume, hst]
    rw [hdrop, htake, List.append_assoc, decide_eq_decide.mpr hle]

/-- A stream is as fresh as it was behind octets taken off a payload that is no field section. -/
theorem Zh3Stream.Fresh.consume {lim : ZhsLimits} {st : Zh3Stream} (hfresh : st.Fresh lim) (hst : st.pstate ≠ .headers)
    {pstate : H3PState} (hp : pstate = st.pstate ∨ pstate = .hdr ∧ st.fremain - h3Take st = 0) (body : Bytes) :
    Zh3Stream.Fresh lim { h3Consume st with req := { st.req with body }, pstate } := by
  have hne : pstate ≠ .headers := by
    rcases hp with rfl | ⟨rfl, -⟩
    · exact hst
    · decide
  exact ⟨hfresh.headers, fun _ => hfresh.hdr hst, fun h => absurd h hne, fun h => absurd h hne⟩

/-- Payload that is skipped. -/
theorem skip_judge {lim : ZhsLimits} {st : Zh3Stream} (hfresh : st.Fresh lim) (hst : st.pstate = .skip)
    {pstate : H3PState} (hp : pstate = st.pstate ∨ pstate = .hdr ∧ st.fremain - h3Take st = 0) :
    Zh3Stream.Fresh lim { h3Consume st with pstate } ∧ ∀ ext,
      Zh3Stream.judge lim { h3Consume st with pstate } ((h3Consume st).inp ++ ext) = st.judge lim (st.inp ++ ext) := by
  refine ⟨hfresh.consume (by rw [hst]; decide) hp st.req.body, fun ext => ?_⟩
  obtain ⟨hdrop, -⟩ := take_drop_h3Take st ext
  rcases hp with rfl | ⟨rfl, hrem⟩
  · rw [Zh3Stream.judge, Zh3Stream.judge]
    simp only [h3Consume, hst]
    rw [hdrop, decide_eq_decide.mpr (fremain_le_iff st ext)]
  · rw [hrem, List.drop_zero] at hdrop
    rw [Zh3Stream.judge, Zh3Stream.judge, hst]
    dsimp only
    rw [hdrop, fremain_le_of_end hrem]
    rfl

/-- Payload that goes to the body. -/
theorem data_judge {lim : ZhsLimits} {st : Zh3Stream} (hfresh : st.Fresh lim) (hst : st.pstate = .data)
    {pstate : H3PState} (hp : pstate = st.pstate ∨ pstate = .hdr ∧ st.fremain - h3Take st = 0)
    (hroom : ¬(st.fremain > 0 ∧ h3Take st > lim.maxBodyBytes - st.req.body.length)) :
    Zh3Stream.Fresh lim
        { h3Consume st with req := { st.req with body := st.req.body ++ st.inp.take (h3Take st) }, pstate } ∧ ∀ ext,
      Zh3Stream.judge lim
        { h3Consume st with req := { st.req with body := st.req.body ++ st.inp.take (h3Take st) }, pstate }
        ((h3Consume st).inp ++ ext) = st.judge lim (st.inp ++ ext) := by
  refine ⟨hfresh.consume (by rw [hst]; decide) hp _, fun ext => ?_⟩
  -- what is taken of the payload fits the body, or nothing was left to take
  have hle : h3Take st ≤ st.fremain := Nat.min_le_right _ _
  have hfits : h3Take st ≤ lim.maxBodyBytes - st.req.body.length := by
    by_cases h0 : st.fremain > 0
    · exact Nat.not_lt.mp fun h => hroom ⟨h0, h⟩
    · omega
  have hlen : (st.req.body ++ st.inp.take (h3Take st)).length = st.req.body.length + h3Take st := by
    have hmin : h3Take st ≤ st.inp.length := Nat.min_le_left _ _
    rw [List.length_append, List.length_take, Nat.min_eq_left hmin]
  obtain ⟨hdrop, -⟩ := take_drop_h3Take st ext
  rcases hp with rfl | ⟨rfl, hrem⟩
  · -- the rest of the frame is judged with the room that is left
    rw [Zh3Stream.judge, Zh3Stream.judge]
    simp only [h3Consume, hst]
    have hfit : (st.fremain - h3Take st ≤ lim.maxBodyBytes - (st.req.body ++ st.inp.take (h3Take st)).length) ↔
        st.fremain ≤ lim.maxBodyBytes - st.req.body.length := by
      rw [hlen]
      omega
    have hsub : lim.maxBodyBytes - (st.req.body ++ st.inp.take (h3Take st)).length -
        (st.fremain - h3Take st) = lim.maxBodyBytes - st.req.body.length - st.fremain := by
      rw [hlen]
      omega
    rw [hdrop, decide_eq_decide.mpr (fremain_le_iff st ext), decide_eq_decide.mpr hfit, hsub]
  · -- the frame ends here: all that was left of it was taken
    rw [hrem, List.drop_zero] at hdrop
    have hsame : h3Take st = st.fremain := by omega
    have hyes : decide (st.fremain ≤ lim.maxBodyBytes - st.req.body.length) = true :=
      decide_eq_true (hsame ▸ hfits)
    rw [Zh3Stream.judge, Zh3Stream.judge, hst]
    dsimp only
    have hleft : lim.maxBodyBytes - (st.req.body.length + h3Take st) =
        lim.maxBodyBytes - st.req.body.length - st.fremain := by
      rw [hsame, Nat.sub_sub]
    rw [hdrop, fremain_le_of_end hrem, hyes, hlen, hleft]
    rfl

/-- **A round of the parser** does not change the judgement. -/
theorem h3ParseRound_judge {lim : ZhsLimits} {st st' : Zh3Stream} (hfresh : st.Fresh lim)
    (hround : h3ParseRound lim st = .inl st') :
    st'.Fresh lim ∧ ∀ ext, st'.judge lim (st'.inp ++ ext) = st.judge lim (st.inp ++ ext) := by
  have hcases := h3ParseRound_cases lim st
  rw [hround] at hcases
  cases hcases with
  | header hst hat hps =>
    have hhdr : st.hdr = [] := hfresh.hdr (by rw [hst]; decide)
    exact ⟨h3FrameState_fresh hfresh hhdr hps, fun ext => h3FrameState_judge hst hhdr hat hps ext⟩
  | headersPart hst => exact headersPart_judge hfresh hst
  | headersEnd hst hrem hdec => exact headersEnd_judge hfresh hst hrem hdec
  | data hst hp hroom => exact data_judge hfresh hst hp hroom
  | skip hst hp => exact skip_judge hfresh hst hp

/-- **A round that fails** is in front of a stream that will not do, whatever follows. -/
theorem h3ParseRound_refused {lim : ZhsLimits} {st st' : Zh3Stream} {e : Fail} (hfresh : st.Fresh lim)
    (hround : h3ParseRound lim st = .inr (st', some e)) (ext : Bytes) :
    st.judge lim (st.inp ++ ext) = false := by
  have hcases := h3ParseRound_cases lim st
  rw [hround] at hcases
  cases hcases with
  | @headerRefused n ftype flen _ hst hat hps =>
    -- a HEADERS frame over the cap
    rw [judge_header hst hat]
    split
    · rfl
    · rename_i hlen
      have hpay : ((st.inp.drop n ++ ext).take flen).length = flen := by
        rw [List.length_take]
        exact Nat.min_eq_left (Nat.not_lt.mp hlen)
      unfold h3FrameState at hps
      split at hps
      · rename_i hheaders
        split at hps
        · rename_i hcap
          have hbig : decide (flen ≤ lim.maxHeaderBytes) = false := decide_eq_false (Nat.not_le.mpr hcap)
          rw [h3Judge, if_pos hheaders, h3SectionParses, hpay, hbig]
          rfl
        · cases hps
      · split at hps
        · cases hps
        · cases hps
  | headersRefused hst hrem hdec =>
    -- a field section that is malformed
    have hok := @h3DecodeHeaders_toBool lim { h3Consume st with hdr := st.hdr ++ st.inp.take (h3Take st) }
      (hfresh.headers (hfresh.unseen hst))
    rw [hdec] at hok
    obtain ⟨-, htake⟩ := take_drop_h3Take st ext
    rw [hrem, List.take_zero, List.append_nil] at htake
    have hsection : h3SectionParses lim (st.hdr ++ st.inp.take (h3Take st)) = false := by
      rw [h3SectionParses, ← hok]
      exact Bool.and_false _
    rw [Zh3Stream.judge, hst]
    dsimp only
    rw [htake, hsection, Bool.and_false, Bool.false_and]
  | dataRefused hst hcap =>
    -- a body over the limit
    have hle : h3Take st ≤ st.fremain := Nat.min_le_right _ _
    have hbig : decide (st.fremain ≤ lim.maxBodyBytes - st.req.body.length) = false :=
      decide_eq_false (by omega)
    rw [Zh3Stream.judge, hst]
    dsimp only
    rw [hbig, Bool.and_false, Bool.false_and]

/-- A parser that has stopped with the end of the stream in front of it. -/
theorem h3ParseRound_atEnd {lim : ZhsLimits} {st st' : Zh3Stream}
    (hround : h3ParseRound lim st = .inr (st', none)) :
    st' = st ∧ st.judge lim st.inp = (st.headersSeen && decide (st.pstate = .hdr)) := by
  obtain ⟨heq, hhdr, hpayload⟩ := h3ParseRound_stops hround
  refine ⟨heq, ?_⟩
  cases hst : st.pstate with
  | hdr =>
    rw [Zh3Stream.judge, hst]
    dsimp only
    rw [h3JudgeAll, h3Frames_none (hhdr hst), h3Judge, hhdr hst]
    simp
  | _ =>
    obtain ⟨hrem, hinp⟩ := hpayload (by rw [hst]; exact nofun)
    have hno : decide (st.fremain ≤ st.inp.length) = false := by
      rw [hinp]
      exact decide_eq_false (Nat.not_le.mpr hrem)
    rw [Zh3Stream.judge, hst]
    dsimp only
    rw [hno]
    simp

/-- The judgement `f` of what follows is that of the parser, or the parser has failed and `f` is
against the stream whatever follows. -/
def H3Keeps (lim : ZhsLimits) (f : Bytes → Bool) : Zh3Stream × Option Fail → Prop
  | (_, some _) => ∀ ext, f ext = false
  | (st, none) => st.Fresh lim ∧ (∀ ext, st.judge lim (st.inp ++ ext) = f ext) ∧
      f [] = (st.headersSeen && decide (st.pstate = .hdr))

/-- **A call of the parser** keeps the judgement. -/
theorem h3Parse_keeps {lim : ZhsLimits} {st : Zh3Stream} {f : Bytes → Bool} (hfresh : st.Fresh lim)
    (hjudge : ∀ ext, st.judge lim (st.inp ++ ext) = f ext) : H3Keeps lim f (h3Parse lim st) := by
  refine Lib.loop_inv (h3ParseRound_decreases lim)
    (I := fun s => s.Fresh lim ∧ ∀ ext, s.judge lim (s.inp ++ ext) = f ext) (Q := H3Keeps lim f)
    ?_ ?_ ⟨hfresh, hjudge⟩
  · rintro s s' ⟨hf, hj⟩ hround
    obtain ⟨hf', hj'⟩ := h3ParseRound_judge hf hround
    exact ⟨hf', fun ext => (hj' ext).trans (hj ext)⟩
  · rintro s ⟨s', _ | e⟩ ⟨hf, hj⟩ hround
    · obtain ⟨rfl, hend⟩ := h3ParseRound_atEnd hround
      have hnil := hj []
      rw [List.append_nil] at hnil
      exact ⟨hf, hj, hnil.symm.trans hend⟩
    · intro ext
      rw [← hj ext]
      exact h3ParseRound_refused hf hround ext

/-! ### Whole streams

The verdict at the end of a stream is reached whatever the chunks were in which its octets
came. -/

/-- A request stream that is read, without the end of it in sight. -/
structure Zh3Stream.Reading (st : Zh3Stream) : Prop where
  bidi : st.isUni = false
  fin : st.fin = false
  dispatched : st.dispatched = false
  done : st.done = false
  log : st.log = []

theorem H3Move.reading {lim : ZhsLimits} {st st' : Zh3Stream} (hmove : H3Move lim st st')
    (h : st.Reading) : st'.Reading := by
  obtain ⟨huni, hfin, hdis, hdone, hlog⟩ := h
  cases hmove with
  | headersEnd hst hdec =>
    rw [h3DecodeHeaders_inp hdec]
    exact ⟨huni, hfin, hdis, hdone, hlog⟩
  | _ => exact ⟨huni, hfin, hdis, hdone, hlog⟩

theorem h3Parse_reading {lim : ZhsLimits} {st : Zh3Stream} (h : st.Reading) : (h3Parse lim st).1.Reading :=
  h3Parse_inv (I := Zh3Stream.Reading) (fun _ _ hi hmove => hmove.reading hi) h

/-- **The reads of a pass** keep the judgement, whatever the octets are cut into. -/
theorem h3ReadChunks_keeps {lim : ZhsLimits} (chunks : List Bytes) :
    ∀ {st : Zh3Stream} {f : Bytes → Bool}, st.Reading → H3Keeps lim f (st, none) →
      (h3ReadChunks lim st chunks).1.Reading ∧
        H3Keeps lim (fun ext => f (chunks.flatten ++ ext)) (h3ReadChunks lim st chunks) := by
  induction chunks with
  | nil =>
    intro st f hread hkeeps
    exact ⟨hread, hkeeps⟩
  | cons chunk chunks ih =>
    intro st f hread hkeeps
    obtain ⟨hfresh, hjudge, -⟩ := hkeeps
    have hread' : ({ st with inp := st.inp ++ chunk } : Zh3Stream).Reading :=
      ⟨hread.bidi, hread.fin, hread.dispatched, hread.done, hread.log⟩
    have hkeeps' := @h3Parse_keeps lim { st with inp := st.inp ++ chunk } (fun ext => f (chunk ++ ext))
      ⟨hfresh.headers, hfresh.hdr, hfresh.unseen, hfresh.cap⟩ (fun ext => by
        rw [← hjudge (chunk ++ ext), ← List.append_assoc]
        rfl)
    have hparse := @h3Parse_reading lim _ hread'
    have hflat : ∀ ext, f ((chunk :: chunks).flatten ++ ext) = f (chunk ++ (chunks.flatten ++ ext)) := by
      intro ext
      rw [List.flatten_cons, List.append_assoc]
    rw [h3ReadChunks, hread.bidi, if_neg Bool.false_ne_true]
    split
    · rename_i st₁ e hres
      rw [hread.bidi] at hparse hkeeps'
      rw [hres] at hparse hkeeps'
      exact ⟨hparse, fun ext => (hflat ext).trans (hkeeps' _)⟩
    · rename_i st₁ hres
      rw [hread.bidi] at hparse hkeeps'
      rw [hres] at hparse hkeeps'
      obtain ⟨hread₁, hkeeps₁⟩ := ih hparse hkeeps'
      refine ⟨hread₁, ?_⟩
      simp only [hflat]
      exact hkeeps₁

/-- Where a stream is between two passes: it is read on, or it has been dropped and nothing that
follows will do. -/
def H3Between (lim : ZhsLimits) (f : Bytes → Bool) (st : Zh3Stream) : Prop :=
  st.Reading ∧ H3Keeps lim f (st, none) ∨ st.done = true ∧ st.log = [] ∧ ∀ ext, f ext = false

variable (g : H3Cfg)

/-- The octets of the passes. -/
def h3Octets (passes : List H3Pass) : Bytes := passes.flatMap fun pass => pass.chunks.flatten

/-- A pass that leaves the stream open. -/
theorem h3PumpStream_between {st : Zh3Stream} {f : Bytes → Bool} (h : H3Between g.lim f st) {pass : H3Pass}
    (hwant : pass.ending = .wantRead) :
    H3Between g.lim (fun ext => f (pass.chunks.flatten ++ ext)) (h3PumpStream g st pass) := by
  obtain ⟨chunks, ending, history, writes⟩ := pass
  cases hwant
  rcases h with ⟨hread, hkeeps⟩ | ⟨hdone, hlog, hno⟩
  · obtain ⟨hread₁, hkeeps₁⟩ := h3ReadChunks_keeps chunks hread hkeeps
    rw [h3PumpStream, hread.done, if_neg Bool.false_ne_true]
    split
    · rename_i st₁ e hres
      rw [hres] at hread₁ hkeeps₁
      exact Or.inr ⟨rfl, hread₁.log, hkeeps₁⟩
    · rename_i st₁ hres
      rw [hres] at hread₁ hkeeps₁
      obtain ⟨hbidi, hfin, hdispatched, hdone, hlog⟩ := hread₁
      obtain ⟨hfresh, hjudge, hend⟩ := hkeeps₁
      dsimp only at hbidi hfin hdispatched hdone hlog ⊢
      rw [if_pos (by rw [hbidi]; rfl), h3MaybeDispatch, if_pos (by simp [hfin])]
      exact Or.inl ⟨⟨hbidi, by simp [hfin], hdispatched, hdone, hlog⟩,
        ⟨hfresh.headers, hfresh.hdr, hfresh.unseen, hfresh.cap⟩, hjudge, hend⟩
  · rw [h3PumpStream, if_pos hdone]
    exact Or.inr ⟨hdone, hlog, fun ext => hno _⟩

theorem h3Run_between {passes : List H3Pass} (hwant : ∀ pass ∈ passes, pass.ending = .wantRead) :
    ∀ {st : Zh3Stream} {f : Bytes → Bool}, H3Between g.lim f st →
      H3Between g.lim (fun ext => f (h3Octets passes ++ ext)) (h3Run g st passes) := by
  induction passes with
  | nil =>
    intro st f h
    exact h
  | cons pass passes ih =>
    intro st f h
    have hpump := h3PumpStream_between g h (hwant pass List.mem_cons_self)
    have hrest := ih (fun p hp => hwant p (List.mem_cons_of_mem _ hp)) hpump
    have hflat : ∀ ext, h3Octets (pass :: passes) ++ ext = pass.chunks.flatten ++ (h3Octets passes ++ ext) := by
      intro ext
      rw [h3Octets, List.flatMap_cons, List.append_assoc]
      rfl
    simp only [hflat]
    exact hrest

/-- What is dispatched at FIN. -/
theorem h3MaybeDispatch_fin (history : List HttpReq) (writes : List H3Write) {st : Zh3Stream} (huni : st.isUni = false)
    (hfin : st.fin = true) (hdispatched : st.dispatched = false) (hlog : st.log = []) :
    (h3MaybeDispatch g history st writes).log ≠ [] ↔ (st.headersSeen && decide (st.pstate = .hdr)) = true := by
  rw [h3MaybeDispatch, if_neg (by simp [huni, hfin, hdispatched])]
  split
  · rename_i hnot
    have hno : (st.headersSeen && decide (st.pstate = .hdr)) = false := by
      rcases hnot with hseen | hst
      · have hseen : st.headersSeen = false := by simpa using hseen
        rw [hseen, Bool.false_and]
      · rw [decide_eq_false hst, Bool.and_false]
    rw [hno, hlog]
    simp
  · rename_i hready
    obtain ⟨hseen, hst⟩ := not_or.mp hready
    have hyes : (st.headersSeen && decide (st.pstate = .hdr)) = true := by
      rw [decide_eq_true (not_not.mp hst), Bool.and_true]
      simpa using hseen
    have hdispatch := h3MaybeDispatch_log g history st writes
    dsimp only
    rw [hdispatch, hyes]
    simp

/-- **The pass that brings FIN** dispatches if the judgement is for the stream. -/
theorem h3PumpStream_last {st : Zh3Stream} {f : Bytes → Bool} (h : H3Between g.lim f st) {pass : H3Pass}
    (hlast : pass.ending = .fin) :
    (h3PumpStream g st pass).log ≠ [] ↔ f pass.chunks.flatten = true := by
  obtain ⟨chunks, ending, history, writes⟩ := pass
  cases hlast
  rcases h with ⟨hread, hkeeps⟩ | ⟨hdone, hlog, hno⟩
  · obtain ⟨hread₁, hkeeps₁⟩ := h3ReadChunks_keeps chunks hread hkeeps
    rw [h3PumpStream, hread.done, if_neg Bool.false_ne_true]
    split
    · rename_i st₁ e hres
      rw [hres] at hread₁ hkeeps₁
      have hno := hkeeps₁ []
      dsimp only at hno ⊢
      rw [List.append_nil] at hno
      rw [hread₁.log, hno]
      simp
    · rename_i st₁ hres
      rw [hres] at hread₁ hkeeps₁
      obtain ⟨hbidi, hfin, hdispatched, hdone, hlog⟩ := hread₁
      obtain ⟨-, -, hend⟩ := hkeeps₁
      dsimp only at hbidi hfin hdispatched hdone hlog hend ⊢
      rw [List.append_nil] at hend
      rw [if_pos (by rw [hbidi]; rfl), hend]
      exact h3MaybeDispatch_fin g history writes hbidi (by simp) hdispatched hlog
  · rw [h3PumpStream, if_pos hdone, hlog, hno]
    simp

/-- A new request stream has all of its octets in front of it. -/
theorem h3StreamNew_between (lim : ZhsLimits) (id : Nat) :
    H3Between lim (h3JudgeAll lim false lim.maxBodyBytes) (h3StreamNew id false) := by
  refine Or.inl ⟨⟨rfl, rfl, rfl, rfl, rfl⟩, ⟨fun _ => rfl, fun _ => rfl, nofun, nofun⟩, fun ext => rfl, ?_⟩
  rw [h3JudgeAll, h3Frames_none rfl]
  rfl

/-- **The server takes** the streams that `H3Taken` says, however they are cut into reads. -/
theorem h3Run_taken (id : Nat) {passes : List H3Pass} (hwant : ∀ pass ∈ passes, pass.ending = .wantRead)
    {last : H3Pass} (hlast : last.ending = .fin) :
    (h3Run g (h3StreamNew id false) (passes ++ [last])).log ≠ [] ↔
      H3Taken g.lim (h3Octets (passes ++ [last])) := by
  have hlog := h3PumpStream_last g (h3Run_between g hwant (h3StreamNew_between g.lim id)) hlast
  rw [← h3JudgeAll_iff, h3Octets, List.flatMap_append, List.flatMap_singleton, h3Run, List.foldl_append]
  exact hlog

/-- What is done stays done. -/
theorem h3Run_of_done {st : Zh3Stream} (hdone : st.done = true) (passes : List H3Pass) :
    h3Run g st passes = st := by
  induction passes with
  | nil => rfl
  | cons pass passes ih =>
    rw [h3Run, List.foldl_cons, h3PumpStream, if_pos hdone]
    exact ih

/-- A stream that is still read has received all its octets. -/
theorem h3Received_of_open (last : H3Pass) (passes : List H3Pass) :
    ∀ {st : Zh3Stream}, (h3Run g st passes).done = false →
      h3Received g st (passes ++ [last]) = h3Octets (passes ++ [last]) := by
  induction passes with
  | nil =>
    intro st hopen
    have hopen : st.done = false := hopen
    rw [List.nil_append, h3Received, hopen]
    rfl
  | cons pass passes ih =>
    intro st hopen
    have hst : st.done = false := by
      by_contra hdone
      rw [h3Run_of_done g (by simpa using hdone)] at hopen
      exact hdone hopen
    rw [List.cons_append, h3Received, hst, if_neg Bool.false_ne_true, ih hopen, h3Octets, h3Octets,
      List.flatMap_cons]

/-- The body of frames none of which is cut in its payload. -/
theorem h3DataOf_frames {s : Bytes} (huncut : h3FrameAt (h3Frames s).2 = none) :
    h3DataOf s = h3Payloads (h3Frames s).1 := by
  fun_induction h3Frames s with
  | case1 s hat => exact h3DataOf_none hat
  | case2 s n ftype flen hat hlen =>
    rw [hat] at huncut
    cases huncut
  | case3 s n ftype flen hat hlen r ih =>
    rw [h3DataOf_some hat, ih huncut]
    by_cases hd : ftype = H3_FRAME_DATA
    · rw [if_pos hd]
      simp [h3Payloads, hd, r]
    · rw [if_neg hd]
      simp [h3Payloads, hd, r]

/-- **Requests and no others**: a stream is dispatched if and only if it is a request, with the body
that its DATA frames carry. -/
def H3Grammar (lim : ZhsLimits) (s : Bytes) (log : List HttpReq) : Prop :=
  (log ≠ [] ↔ H3Request lim s) ∧ ∀ req ∈ log, req.body = h3Payloads (h3Frames s).1

theorem h3Run_payloads (id : Nat) {passes : List H3Pass} (hwant : ∀ pass ∈ passes, pass.ending = .wantRead)
    {last : H3Pass} (hlast : last.ending = .fin) :
    ∀ req ∈ (h3Run g (h3StreamNew id false) (passes ++ [last])).log,
      req.body = h3Payloads (h3Frames (h3Octets (passes ++ [last]))).1 := by
  intro req hreq
  have htaken := (h3Run_taken g id hwant hlast).mp (List.ne_nil_of_mem hreq)
  have hopen : (h3Run g (h3StreamNew id false) passes).done = false := by
    rcases h3Run_between g hwant (h3StreamNew_between g.lim id) with ⟨hread, -⟩ | ⟨hdone, hlog, -⟩
    · exact hread.done
    · -- a stream that has been dropped hands nothing over
      have hsame := h3Run_of_done g hdone [last]
      rw [h3Run, List.foldl_append, ← h3Run, ← h3Run, hsame, hlog] at hreq
      exact (List.not_mem_nil hreq).elim
  rw [h3Run_bodies g id false _ req hreq, h3Received_of_open g last passes hopen]
  exact h3DataOf_frames htaken.uncut

/-- **The server takes nothing but requests**, unless a stream that it takes ends within a frame header,
has its frames out of order, or has a field section that breaks a rule the server does not check. -/
theorem h3Run_grammar (id : Nat) {passes : List H3Pass} (hwant : ∀ pass ∈ passes, pass.ending = .wantRead)
    {last : H3Pass} (hlast : last.ending = .fin) :
    H3Grammar g.lim (h3Octets (passes ++ [last])) (h3Run g (h3StreamNew id false) (passes ++ [last])).log ↔
      (H3Taken g.lim (h3Octets (passes ++ [last])) → H3Kept g.lim (h3Octets (passes ++ [last]))) := by
  have htaken := h3Run_taken g id hwant hlast
  constructor
  · rintro ⟨hiff, -⟩ h
    exact (h3Request_iff.mp (hiff.mp (htaken.mpr h))).2
  · intro hkept
    refine ⟨⟨fun hlog => ?_, fun h => htaken.mpr (h3Request_iff.mp h).1⟩, h3Run_payloads g id hwant hlast⟩
    have h := htaken.mp hlog
    exact h3Request_iff.mpr ⟨h, hkept h⟩

/-- The field section of `GET https://x/`. -/
def h3GetSection : Bytes := [0x00, 0x00, 0xd1, 0xc1, 0xd7, 0x50, 0x01, 0x78]

/-- It keeps the rules that the server does not check. -/
theorem h3GetSection_kept : H3SectionKept H3Cfg.silent.lim h3GetSection := by
  have hfields : Qpack.sectionFields Qpack.STATIC h3GetSection = some [.ascii ":method" "GET", .ascii ":path" "/",
      .ascii ":scheme" "https", .ascii ":authority" "x"] := by decide +kernel
  refine ⟨rfl, fun fs hfs => ?_⟩
  rw [hfields] at hfs
  cases hfs
  refine ⟨⟨fun m hm => ?_, fun s hs => ?_, fun t ht => ?_, fun _ _ _ hh => (nomatch hh), fun s _ _ => ?_⟩,
    ⟨⟨by decide, by decide⟩, by decide, fun t ht => ?_⟩⟩
  · cases hm
    decide
  · cases hs
    decide
  · cases ht
    exact .inr (by decide)
  · exact ⟨str "x", str "x", [], rfl, .bare (.name (by decide)), by decide⟩
  · cases ht
    exact (zhsDecodeTarget_served.mp ⟨(str "/", none), by decide⟩)

/-- A request and the first octet of a frame behind it: a HEADERS frame, and a type. -/
def h3HalfFrame : Bytes := [0x01, 0x08] ++ h3GetSection ++ [0x00]

/-- In two reads, the FIN behind the second. -/
theorem h3Run_grammar_sample :
    H3Grammar H3Cfg.silent.lim (h3HalfFrame.take 10)
      (h3Run H3Cfg.silent (h3StreamNew 0 false)
        [{ chunks := [h3HalfFrame.take 3] }, { chunks := [(h3HalfFrame.take 10).drop 3], ending := .fin }]).log := by
  have hat : h3FrameAt (h3HalfFrame.take 10) = some (2, 1, 8) := by decide
  have hframes : h3Frames (h3HalfFrame.take 10) = ([(1, h3GetSection)], []) := by
    rw [h3Frames_some hat, h3Frames_none (by decide)]
    decide
  refine (@h3Run_grammar H3Cfg.silent 0 [{ chunks := [h3HalfFrame.take 3] }] (by decide)
    { chunks := [(h3HalfFrame.take 10).drop 3], ending := .fin } rfl).mpr fun _ => ?_
  change H3Kept H3Cfg.silent.lim (h3HalfFrame.take 10)
  refine ⟨by rw [hframes], ⟨0, .inl (by rw [hframes]; decide)⟩, fun payload hpayload => ?_⟩
  rw [hframes] at hpayload
  cases hpayload
  exact h3GetSection_kept

/-- **A frame cut in its header** passes for the end of the request. -/
theorem h3_half_frame_taken :
    ¬ H3Grammar H3Cfg.silent.lim h3HalfFrame
      (h3Run H3Cfg.silent (h3StreamNew 0 false) [{ chunks := [h3HalfFrame], ending := .fin }]).log := by
  have hlog : (h3Run H3Cfg.silent (h3StreamNew 0 false) [{ chunks := [h3HalfFrame], ending := .fin }]).log ≠ [] := by
    decide +kernel
  have hat : h3FrameAt h3HalfFrame = some (2, 1, 8) := by decide
  have hrest : (h3Frames h3HalfFrame).2 = [0x00] := by
    rw [h3Frames_some hat, h3Frames_none (by decide)]
    decide
  rintro ⟨hiff, -⟩
  have hwhole := (hiff.mp hlog).whole
  rw [hrest] at hwhole
  cases hwhole

end Zcio
