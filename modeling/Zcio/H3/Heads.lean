import Zcio.H3.Section

/-!
# Zcio.H3.Heads

The field section of an HTTP/3 request is the payload of the first HEADERS frame of its stream.
`h3HeadOf` reads that off the octets; `H3Heads` says that the parser, which takes the octets in
chunks and stops inside frames, is on its way to it or has made the request of its fields.

It is the body's argument over again (`Zcio.H3.Body`): what is there of the section and what is still
to come do not change with a round of the parser, whatever follows.
-/

namespace Zcio

/-! ### The section of a stream

The payload of the first HEADERS frame, as far as it has come. -/

/-- The payload of the first HEADERS frame in the octets of a stream, cut off or not. -/
def h3HeadOf (s : Bytes) : Option Bytes :=
  match _h : h3FrameAt s with
  | none => none
  | some (n, ftype, flen) =>
    if ftype = H3_FRAME_HEADERS then some ((s.drop n).take flen) else h3HeadOf (s.drop (n + flen))
termination_by s.length
decreasing_by
  have hle := h3FrameAt_le _h
  rw [List.length_drop]
  omega

theorem h3HeadOf_frame {s : Bytes} {n ftype flen : Nat} (h : h3FrameAt s = some (n, ftype, flen)) (ext : Bytes) :
    h3HeadOf (s ++ ext) =
      if ftype = H3_FRAME_HEADERS then some ((s.drop n ++ ext).take flen)
      else h3HeadOf ((s.drop n ++ ext).drop flen) := by
  have hat := h3FrameAt_append h ext
  rw [h3HeadOf]
  split
  · rename_i heq
    rw [hat] at heq
    cases heq
  · rename_i heq
    rw [hat] at heq
    cases heq
    rw [← List.drop_drop, List.drop_append_of_le_length (h3FrameAt_le h).2]

/-- The section from a state of the parser, with `s` for what is not parsed. -/
def Zh3Stream.headFrom (st : Zh3Stream) (s : Bytes) : Option Bytes :=
  match st.pstate with
  | .hdr => h3HeadOf s
  | .headers => some (st.hdr ++ s.take st.fremain)
  | .data | .skip => h3HeadOf (s.drop st.fremain)

/-- The fields of a section as the server reads them, which are those of a request it serves. -/
def H3SectionRead (lim : ZhsLimits) (payload : Bytes) (fs : List Field) : Prop :=
  Qpack.sectionFields QPACK_STATIC (Qpack.unsigned payload) = some fs ∧ H3Served lim fs

/-- **The parser has read `all`**: the section is still to come, or it is the one that the request
was made of. -/
structure H3Heads (lim : ZhsLimits) (st : Zh3Stream) (all : Bytes) : Prop where
  fresh : st.headersSeen = false → st.req.headers = {}
  empty : st.pstate ≠ .headers → st.hdr = []
  parsing : st.pstate = .headers → st.headersSeen = false
  unseen : st.headersSeen = false → ∀ ext, st.headFrom (st.inp ++ ext) = h3HeadOf (all ++ ext)
  seen : st.headersSeen = true → ∃ payload fs, (∀ ext, h3HeadOf (all ++ ext) = some payload) ∧
    H3SectionRead lim payload fs ∧ st.req.raw = sectionRaw fs

section

variable {lim : ZhsLimits} {st st' : Zh3Stream} {all : Bytes}

theorem H3Heads.append (h : H3Heads lim st all) (chunk : Bytes) :
    H3Heads lim { st with inp := st.inp ++ chunk } (all ++ chunk) := by
  refine ⟨h.fresh, h.empty, h.parsing, fun hs ext => ?_, fun hs => ?_⟩
  · have hall := h.unseen hs (chunk ++ ext)
    rw [← List.append_assoc, ← List.append_assoc] at hall
    exact hall
  · obtain ⟨payload, fs, hhead, hread, hraw⟩ := h.seen hs
    refine ⟨payload, fs, fun ext => ?_, hread, hraw⟩
    rw [List.append_assoc]
    exact hhead _

/-- What the section is does not change with a payload taken off the input. -/
theorem headFrom_rest (hst : st.pstate = .data ∨ st.pstate = .skip) (ext : Bytes) {pstate : H3PState}
    (hp : pstate = st.pstate ∨ pstate = .hdr ∧ st.fremain - h3Take st = 0) :
    Zh3Stream.headFrom { h3Consume st with pstate } ((h3Consume st).inp ++ ext) = st.headFrom (st.inp ++ ext) := by
  have htake := (take_drop_h3Take st ext).1
  have hrest : st.headFrom (st.inp ++ ext) = h3HeadOf ((st.inp ++ ext).drop st.fremain) := by
    rcases hst with hst | hst <;> rw [Zh3Stream.headFrom, hst]
  rw [hrest, htake]
  rcases hp with rfl | ⟨rfl, hrem⟩
  · rcases hst with hst | hst <;> (rw [Zh3Stream.headFrom, hst]; rfl)
  · rw [hrem, List.drop_zero]
    rfl

/-- The end of the section: the request is the one that its fields say. -/
theorem H3Heads.decoded (h : H3Heads lim st all) (hst : st.pstate = .headers) (hrem : st.fremain - h3Take st = 0)
    {st₁ : Zh3Stream}
    (hdec : h3DecodeHeaders lim { h3Consume st with hdr := st.hdr ++ st.inp.take (h3Take st) } = .ok st₁) :
    H3Heads lim { st₁ with headersSeen := true, pstate := .hdr } all := by
  have hunseen := h.parsing hst
  have hinp := h3DecodeHeaders_inp hdec
  obtain ⟨fs, st₂, hfields, hserved, hok, hraw⟩ | ⟨-, e, herr⟩ := @h3DecodeHeaders_served lim
    { h3Consume st with hdr := st.hdr ++ st.inp.take (h3Take st) } (h.fresh hunseen)
  · rw [hdec] at hok
    cases hok
    refine ⟨nofun, fun _ => ?_, nofun, nofun, fun _ => ⟨_, fs, fun ext => ?_, ⟨hfields, hserved⟩, hraw⟩⟩
    · show st₁.hdr = []
      rw [hinp]
    · rw [← h.unseen hunseen ext, Zh3Stream.headFrom, hst]
      dsimp only
      rw [(take_drop_h3Take st ext).2, hrem, List.take_zero, List.append_nil]
  · rw [hdec] at herr
    cases herr

/-- A frame header that is not the one of the section leads on to the same section. -/
theorem H3Heads.header (h : H3Heads lim st all) (hst : st.pstate = .hdr) {n ftype flen : Nat} {pstate : H3PState}
    (hat : h3FrameAt st.inp = some (n, ftype, flen)) (hps : h3FrameState lim st ftype flen = .ok pstate) :
    H3Heads lim { st with inp := st.inp.drop n, pstate, fremain := flen } all := by
  have hhdr := h.empty (by rw [hst]; decide)
  have hframe : ∀ ext, st.headFrom (st.inp ++ ext) = h3HeadOf (st.inp ++ ext) := fun ext => by
    rw [Zh3Stream.headFrom, hst]
  unfold h3FrameState at hps
  split at hps
  · -- HEADERS: the section begins
    rename_i hheaders
    have hunseen : st.headersSeen = false := by simpa using hheaders.2
    split at hps
    · cases hps
    · cases hps
      refine ⟨h.fresh, fun _ => hhdr, fun _ => hunseen, fun hs ext => ?_, h.seen⟩
      rw [← h.unseen hs ext, hframe, h3HeadOf_frame hat, if_pos hheaders.1]
      change some (st.hdr ++ _) = _
      rw [hhdr]
      rfl
  · rename_i hnot
    have hother : st.headersSeen = false → ftype ≠ H3_FRAME_HEADERS := fun hs hf =>
      hnot ⟨hf, by rw [hs]; rfl⟩
    split at hps
    all_goals
      cases hps
      refine ⟨h.fresh, fun _ => hhdr, (fun hp => by cases hp), fun hs ext => ?_, h.seen⟩
      rw [← h.unseen hs ext, hframe, h3HeadOf_frame hat, if_neg (hother hs)]
      rfl

/-- A part of the section. -/
theorem H3Heads.part (h : H3Heads lim st all) (hst : st.pstate = .headers) :
    H3Heads lim { h3Consume st with hdr := st.hdr ++ st.inp.take (h3Take st) } all := by
  refine ⟨h.fresh, fun hne => absurd hst hne, h.parsing, fun hs ext => ?_, h.seen⟩
  rw [← h.unseen hs ext, Zh3Stream.headFrom, Zh3Stream.headFrom]
  simp only [h3Consume, hst]
  rw [(take_drop_h3Take st ext).2, List.append_assoc]

/-- **A round of the parser** goes on to the same section. -/
theorem H3Heads.round (h : H3Heads lim st all) (hround : h3ParseRound lim st = .inl st') : H3Heads lim st' all := by
  have hcases := h3ParseRound_cases lim st
  rw [hround] at hcases
  -- a payload that is none of the section
  have hpayload : ∀ {pstate : H3PState}, st.pstate = .data ∨ st.pstate = .skip →
      pstate = st.pstate ∨ pstate = .hdr ∧ st.fremain - h3Take st = 0 → pstate ≠ .headers ∧ st.hdr = [] := by
    intro pstate hst hp
    rcases hp with rfl | ⟨rfl, -⟩
    · rcases hst with hst | hst <;> (rw [hst]; exact ⟨by decide, h.empty (by rw [hst]; decide)⟩)
    · rcases hst with hst | hst <;> exact ⟨by decide, h.empty (by rw [hst]; decide)⟩
  cases hcases with
  | header hst hat hps => exact h.header hst hat hps
  | headersPart hst => exact h.part hst
  | headersEnd hst hrem hdec => exact h.decoded hst hrem hdec
  | data hst hp =>
    obtain ⟨hne, hhdr⟩ := hpayload (.inl hst) hp
    exact ⟨h.fresh, fun _ => hhdr, fun hp => absurd hp hne,
      fun hs ext => (headFrom_rest (.inl hst) ext hp).trans (h.unseen hs ext), h.seen⟩
  | skip hst hp =>
    obtain ⟨hne, hhdr⟩ := hpayload (.inr hst) hp
    exact ⟨h.fresh, fun _ => hhdr, fun hp => absurd hp hne,
      fun hs ext => (headFrom_rest (.inr hst) ext hp).trans (h.unseen hs ext), h.seen⟩

end

/-! ### Whole streams

A request that was handed over has the fields of that payload. -/

/-- The request is the one that the section of the stream says, as the server reads it. -/
def H3Opened (lim : ZhsLimits) (req : HttpReq) (all : Bytes) : Prop :=
  ∃ payload fs, h3HeadOf all = some payload ∧ H3SectionRead lim payload fs ∧ req.raw = sectionRaw fs

theorem h3Heads_tracks (lim : ZhsLimits) : H3Tracks lim (H3Heads lim) (H3Opened lim) where
  append chunk h := h.append chunk
  round h hround := h.round hround
  fin _ h := ⟨h.fresh, h.empty, h.parsing, h.unseen, h.seen⟩
  handed := by
    intro st all h hseen _ _
    obtain ⟨payload, fs, hhead, hread, hraw⟩ := h.seen hseen
    have hall := hhead []
    rw [List.append_nil] at hall
    exact ⟨payload, fs, hall, hread, hraw⟩

/-- **Every head an HTTP/3 stream hands over** is what its first HEADERS frame carries. -/
theorem h3Run_heads (g : H3Cfg) (id : Nat) (isUni : Bool) (passes : List H3Pass) :
    ∀ req ∈ (h3Run g (h3StreamNew id isUni) passes).log,
      H3Opened g.lim req (h3Received g (h3StreamNew id isUni) passes) :=
  (h3Heads_tracks g.lim).stream ⟨fun _ => rfl, fun _ => rfl, nofun, fun _ _ => rfl, nofun⟩ passes

end Zcio
