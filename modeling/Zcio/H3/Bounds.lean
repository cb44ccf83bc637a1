import Zcio.H3.Goaway
import Zcio.Lib.Sweep

/-!
# Zcio.H3.Bounds

**What a peer can make an HTTP/3 connection hold.** The parser of a stream leaves less than a frame
header of its input. The field section is held to its cap, and so is what is decoded from it, since the
decoder emits no more octets than the cap and the sink keeps no more than it is given
(`h3Gather_octets`); the body is held to its own. The table of streams is capped, and so are the requests
that a connection may make. All of it holds in every state of a run.

The pump of the table is a sweep (`h3PumpStreams_streams`), so that a stream of the table has been read
once in every visit since it was accepted (`h3ConnRun_streams`).
-/

namespace Zcio

/-! ### Input

A frame header is short, so that little waits in front of it. -/

/-- `sizeof tmp` in `h3_stream_read`. -/
def H3_READ_CHUNK : Nat := 4096

theorem h3VarintLen_le (b : UInt8) : 1 <<< (b.toNat >>> 6) ≤ 8 := by
  have hb : b.toNat >>> 6 ≤ 3 := by
    have := b.toNat_lt
    rw [Nat.shiftRight_eq_div_pow]
    omega
  rw [Nat.one_shiftLeft]
  exact Nat.pow_le_pow_right (by decide) hb

theorem h3Varint_le {p : Bytes} {n v : Nat} (h : h3Varint p = some (n, v)) : n ≤ 8 := by
  cases p with
  | nil => cases h
  | cons b rest =>
    rw [h3Varint] at h
    split at h
    · cases h
    · cases h
      exact h3VarintLen_le b

theorem h3Varint_short {p : Bytes} (h : h3Varint p = none) : p.length < 8 := by
  cases p with
  | nil => exact Nat.zero_lt_succ 7
  | cons b rest =>
    rw [h3Varint] at h
    split at h
    · rename_i hlen
      have := h3VarintLen_le b
      rw [List.length_cons]
      omega
    · cases h

/-- A frame header that is not whole is short. -/
theorem h3FrameAt_short {s : Bytes} (h : h3FrameAt s = none) : s.length < 16 := by
  unfold h3FrameAt at h
  split at h
  · rename_i h1
    have := h3Varint_short h1
    omega
  · rename_i n1 ftype h1
    have hn1 := h3Varint_le h1
    have hrest := h3Varint_short (Option.map_eq_none_iff.mp h)
    rw [List.length_drop] at hrest
    omega

/-! ### The head of a request

The octets of the fields that were decoded are within the limits of the server. -/

/-- The octets of a value that may be missing. -/
def optLength (v : Option Bytes) : Nat := (v.getD []).length

/-- The octets of the stored headers. -/
def ZhsHdrs.octets (h : ZhsHdrs) : Nat := (h.v.map fun x => x.name.length + x.value.length).sum

/-- The octets of the head of a request. -/
def HttpReq.headOctets (req : HttpReq) : Nat :=
  optLength req.method + optLength req.path + optLength req.query + optLength req.authority + req.headers.octets

/-- The octets that the sink of the decoder keeps. -/
def H3HdrCtx.octets (x : H3HdrCtx) : Nat :=
  optLength x.method + optLength x.path + optLength x.scheme + optLength x.authority + x.headers.octets

section Head

variable {lim : ZhsLimits}

theorem length_cstr_le (s : Bytes) : (cstr s).length ≤ s.length := (List.takeWhile_sublist _).length_le

theorem ZhsHdrs.add_octets {h h' : ZhsHdrs} {name value : Bytes} (hadd : h.add name value lim false = .ok h') :
    h'.octets ≤ h.octets + (name.length + value.length) := by
  obtain ⟨-, hv, -⟩ := ZhsHdrs.add_ok hadd
  have hname := length_cstr_le name
  have hvalue := length_cstr_le value
  simp only [ZhsHdrs.octets, hv, List.map_append, List.sum_append, List.map_cons, List.map_nil, List.sum_cons,
    List.sum_nil, Bool.false_eq_true, if_false]
  omega

/-- A field adds no more than its octets to what the sink keeps. -/
theorem h3Emit_octets (x : H3HdrCtx) (name value : Bytes) :
    (h3Emit lim x name value).1.octets ≤ x.octets + (name.length + value.length) := by
  have hbad : x.fail.1.octets ≤ x.octets + (name.length + value.length) := Nat.le_add_right _ _
  have hnew : ∀ {v : Option Bytes}, ¬(v.isSome ∨ value = []) → optLength v = 0 := by
    intro v hv
    cases v with
    | none => rfl
    | some v => exact absurd (.inl rfl) hv
  rw [h3Emit]
  split
  · exact Nat.le_add_right _ _
  · split
    · unfold h3EmitPseudo
      -- each name has a slot of its own, which is empty before
      (repeat' split) <;> try exact hbad
      all_goals
        rename_i hslot
        have hempty := hnew hslot
        simp only [H3HdrCtx.octets, optLength, Option.getD_some] at hempty ⊢
        omega
    · unfold h3EmitRegular
      dsimp only
      (repeat' split) <;> try exact hbad
      rename_i headers hadd
      have hadded := ZhsHdrs.add_octets hadd
      simp only [H3HdrCtx.octets] at hadded ⊢
      omega

/-- **The sink keeps no more than it is given.** -/
theorem h3Gather_octets (fs : List Field) (x : H3HdrCtx) :
    (fs.foldl (fun x f => (h3Emit lim x f.name f.value).1) x).octets ≤ x.octets + fieldsSize fs := by
  induction fs generalizing x with
  | nil => exact Nat.le_add_right _ _
  | cons f fs ih =>
    have hone := @h3Emit_octets lim x f.name f.value
    have hrest := ih (h3Emit lim x f.name f.value).1
    rw [List.foldl_cons, fieldsSize_cons]
    omega

theorem h3Head_octets {req req' : HttpReq} {ok : Bool} {x : H3HdrCtx} (h : h3Head lim req ok x = .ok req') :
    req'.headOctets ≤ x.octets + req.headOctets := by
  unfold h3Head at h
  split at h
  · rename_i method target scheme hmethod hpath hscheme
    split at h
    · cases h
    · split at h
      · cases h
      · rename_i path query hdec
        cases h
        have htarget := (length_zhsDecodeTarget hdec).trans (length_cstr_le target)
        have hcstr := length_cstr_le method
        have hauthority : optLength ((x.authority.map cstr).or req.authority) ≤ optLength x.authority + optLength req.authority := by
          cases x.authority with
          | none => exact Nat.le_add_left _ _
          | some a => exact (length_cstr_le a).trans (Nat.le_add_right _ _)
        simp only [HttpReq.headOctets, H3HdrCtx.octets, hmethod, hpath, hscheme, optLength, Option.getD_some] at hauthority ⊢
        omega
  · cases h

/-- **What is decoded from a field section** has no more octets than a field section may have. -/
theorem h3DecodeHeaders_octets {st st' : Zh3Stream} (hdec : h3DecodeHeaders lim st = .ok st')
    (hreq : st.req.headers = {}) (hempty : st.req.headOctets = 0) : st'.req.headOctets ≤ lim.maxHeaderBytes := by
  unfold h3DecodeHeaders at hdec
  split at hdec
  · cases hdec
  · dsimp only at hdec
    rw [hreq, zqpDecode_foldl (h3Emit_zero lim)] at hdec
    cases hhead : h3Head lim st.req _ _ with
    | error e =>
      rw [hhead] at hdec
      cases hdec
    | ok req =>
      rw [hhead] at hdec
      cases hdec
      have hkept := h3Head_octets hhead
      have hgiven := @h3Gather_octets lim (zqpDecode st.hdr lim.maxHeaderBytes collect []).2 {}
      have hsize := fieldsSize_zqpDecode st.hdr lim.maxHeaderBytes
      have hnone : H3HdrCtx.octets {} = 0 := rfl
      dsimp only at hkept ⊢
      omega

end Head

/-! ### A stream

What a stream may hold while it waits, and what it holds when it is done. -/

/-- What a stream holds. -/
structure Zh3Stream.Small (lim : ZhsLimits) (st : Zh3Stream) : Prop where
  inp : st.inp.length < 16 + H3_READ_CHUNK
  head : st.hdr.length + st.req.headOctets ≤ lim.maxHeaderBytes
  body : st.req.body.length ≤ lim.maxBodyBytes

/-- What a stream holds between two reads. -/
structure Zh3Stream.Waiting (lim : ZhsLimits) (st : Zh3Stream) : Prop extends st.Fresh lim where
  inp : st.inp.length < 16
  head : st.req.headOctets ≤ lim.maxHeaderBytes
  unread : st.headersSeen = false → st.req.headOctets = 0
  body : st.req.body.length ≤ lim.maxBodyBytes

section Stream

variable {lim : ZhsLimits} {st st' : Zh3Stream}

theorem Zh3Stream.Fresh.hdr_le (h : st.Fresh lim) : st.hdr.length ≤ lim.maxHeaderBytes := by
  by_cases hst : st.pstate = .headers
  · exact (Nat.le_add_right _ _).trans (h.cap hst)
  · rw [h.hdr hst]
    exact Nat.zero_le _

/-- A field section that is read has not been decoded yet. -/
theorem Zh3Stream.Fresh.head_le (h : st.Fresh lim) (hhead : st.req.headOctets ≤ lim.maxHeaderBytes)
    (hunread : st.headersSeen = false → st.req.headOctets = 0) :
    st.hdr.length + st.req.headOctets ≤ lim.maxHeaderBytes := by
  by_cases hst : st.pstate = .headers
  · rw [hunread (h.unseen hst), Nat.add_zero]
    exact h.hdr_le
  · rw [h.hdr hst, List.length_nil, Nat.zero_add]
    exact hhead

theorem Zh3Stream.Waiting.small (h : st.Waiting lim) : st.Small lim :=
  ⟨h.inp.trans_le (Nat.le_add_right _ _), h.head_le h.head h.unread, h.body⟩

/-- What a round of the parser keeps: its input does not grow, and the caps hold. -/
structure Zh3Stream.Sized (lim : ZhsLimits) (n : Nat) (st : Zh3Stream) : Prop where
  inp : st.inp.length ≤ n
  head : st.req.headOctets ≤ lim.maxHeaderBytes
  unread : st.headersSeen = false → st.req.headOctets = 0
  body : st.req.body.length ≤ lim.maxBodyBytes

theorem H3Move.sizes {n : Nat} (hmove : H3Move lim st st') (hfresh : st.Fresh lim) (h : st.Sized lim n) :
    st'.Sized lim n := by
  obtain ⟨hinp, hhead, hunread, hbody⟩ := h
  have hdrop : ∀ k, (st.inp.drop k).length ≤ n := fun k => by
    rw [List.length_drop]
    omega
  cases hmove with
  | stay => exact ⟨hinp, hhead, hunread, hbody⟩
  | refused => exact ⟨hdrop _, hhead, hunread, hbody⟩
  | header => exact ⟨hdrop _, hhead, hunread, hbody⟩
  | headersPart => exact ⟨hdrop _, hhead, hunread, hbody⟩
  | headersEnd hst hdec =>
    have heq := h3DecodeHeaders_inp hdec
    have hunseen := hfresh.unseen hst
    have hdecoded := h3DecodeHeaders_octets hdec (hfresh.headers hunseen) (hunread hunseen)
    refine ⟨?_, hdecoded, nofun, ?_⟩
    · rw [heq]
      exact hdrop _
    · rw [h3DecodeHeaders_body hdec]
      exact hbody
  | data hp hlen =>
    refine ⟨hdrop _, hhead, hunread, ?_⟩
    dsimp only
    rw [List.length_append]
    omega
  | skip => exact ⟨hdrop _, hhead, hunread, hbody⟩

/-- The field section is under its cap when the parser stops, for whatever reason. -/
theorem h3ParseRound_head {n : Nat} {e : Option Fail} (hfresh : st.Fresh lim) (h : st.Sized lim n)
    (hround : h3ParseRound lim st = .inr (st', e)) : st'.hdr.length + st'.req.headOctets ≤ lim.maxHeaderBytes := by
  have hhead := hfresh.head_le h.head h.unread
  have hcases := h3ParseRound_cases lim st
  rw [hround] at hcases
  cases hcases with
  | waits => exact hhead
  | headerRefused => exact hhead
  | headersRefused hst =>
    have hcap := hfresh.cap hst
    have hle : h3Take st ≤ st.fremain := Nat.min_le_right _ _
    have hnone := h.unread (hfresh.unseen hst)
    change (st.hdr ++ st.inp.take (h3Take st)).length + st.req.headOctets ≤ _
    rw [List.length_append, List.length_take, hnone]
    omega
  | dataRefused => exact hhead

/-- What the parser leaves: a stream that waits for more, or what was there when it failed. -/
def H3Left (lim : ZhsLimits) : Zh3Stream × Option Fail → Prop
  | (st, none) => st.Waiting lim
  | (st, some _) => st.Small lim

/-- **A call of the parser**, with a chunk more than it had left. -/
theorem h3Parse_left (hfresh : st.Fresh lim) (hinp : st.inp.length < 16 + H3_READ_CHUNK)
    (hsized : st.Sized lim st.inp.length) : H3Left lim (h3Parse lim st) := by
  refine Lib.loop_inv (h3ParseRound_decreases lim) (I := fun s => s.Fresh lim ∧ s.Sized lim st.inp.length)
    (Q := H3Left lim) ?_ ?_ ⟨hfresh, hsized⟩
  · intro s s' ⟨hf, hs⟩ hround
    have hmove := h3ParseRound_move lim s
    rw [hround] at hmove
    exact ⟨(h3ParseRound_judge hf hround).1, hmove.sizes hf hs⟩
  · intro s ⟨s', e⟩ ⟨hf, hs⟩ hround
    cases e with
    | some e =>
      have hmove := h3ParseRound_move lim s
      rw [hround] at hmove
      have hs' := hmove.sizes hf hs
      exact ⟨hs'.inp.trans_lt hinp, h3ParseRound_head hf hs hround, hs'.body⟩
    | none =>
      obtain ⟨rfl, hhdr, hpayload⟩ := h3ParseRound_stops hround
      refine ⟨hf, ?_, hs.head, hs.unread, hs.body⟩
      by_cases hst : s'.pstate = .hdr
      · exact h3FrameAt_short (hhdr hst)
      · rw [(hpayload hst).2]
        exact Nat.zero_lt_succ 15

/-- **The reads of a pass.** -/
theorem h3ReadChunks_left {chunks : List Bytes} (hchunks : ∀ b ∈ chunks, b.length ≤ H3_READ_CHUNK)
    (h : st.Waiting lim) : H3Left lim (h3ReadChunks lim st chunks) := by
  induction chunks generalizing st with
  | nil => exact h
  | cons chunk chunks ih =>
    obtain ⟨hchunk, hchunks⟩ := List.forall_mem_cons.mp hchunks
    rw [h3ReadChunks]
    split
    · exact ih hchunks h
    · have hlen : (st.inp ++ chunk).length < 16 + H3_READ_CHUNK := by
        have := h.inp
        rw [List.length_append]
        omega
      have hleft := @h3Parse_left lim { st with inp := st.inp ++ chunk } ⟨h.headers, h.hdr, h.unseen, h.cap⟩ hlen
        ⟨Nat.le_refl _, h.head, h.unread, h.body⟩
      split
      · rename_i st₁ e hres
        rw [hres] at hleft
        exact hleft
      · rename_i st₁ hres
        rw [hres] at hleft
        exact ih hchunks hleft

/-! ### A pass

A pass over a stream reads its chunks, and may hand a request over. -/

/-- What no round of the parser changes. -/
def Zh3Stream.frame (st : Zh3Stream) : Nat × Bool × Bool × List HttpReq × Bytes × Bool :=
  (st.id, st.isUni, st.dispatched, st.log, st.out, st.concluded)

theorem H3Move.frame (hmove : H3Move lim st st') : st'.frame = st.frame := by
  cases hmove with
  | headersEnd hst hdec =>
    rw [h3DecodeHeaders_inp hdec]
    rfl
  | _ => rfl

theorem h3ReadChunks_frame (chunks : List Bytes) : (h3ReadChunks lim st chunks).1.frame = st.frame := by
  induction chunks generalizing st with
  | nil => rfl
  | cons chunk chunks ih =>
    rw [h3ReadChunks]
    split
    · exact ih
    · have hparse := @h3Parse_inv (fun s => s.frame = st.frame) lim (fun _ _ hi hmove => hmove.frame.trans hi)
        { st with inp := st.inp ++ chunk } rfl
      split
      · rename_i heq
        rw [heq] at hparse
        exact hparse
      · rename_i heq
        rw [heq] at hparse
        exact ih.trans hparse

/-- A request that may still be handed over: one, or none. -/
def Zh3Stream.pending (st : Zh3Stream) : Nat := if st.isUni || st.dispatched then 0 else 1

/-- Within its bounds, whether it is read on or not. -/
structure Zh3Stream.Held (lim : ZhsLimits) (st : Zh3Stream) : Prop where
  small : st.Small lim
  waiting : st.done = false → st.Waiting lim

/-- A stream that is dropped as it is. -/
theorem Zh3Stream.Small.held (h : st.Small lim) (hdone : st.done = true) : st.Held lim :=
  ⟨h, fun hno => by rw [hdone] at hno; cases hno⟩

/-- What a pass does to a stream: at most one request is handed over, and none twice. -/
structure H3PassDone (lim : ZhsLimits) (st st' : Zh3Stream) : Prop where
  held : st'.Held lim
  log : ∃ new, st'.log = st.log ++ new ∧ new.length + st'.pending ≤ st.pending

/-- Nothing is handed over. -/
theorem H3PassDone.none (hheld : st'.Held lim) (hframe : st'.frame = st.frame) : H3PassDone lim st st' := by
  simp only [Zh3Stream.frame, Prod.mk.injEq] at hframe
  obtain ⟨-, huni, hdispatched, hlog, -⟩ := hframe
  refine ⟨hheld, [], by rw [hlog, List.append_nil], ?_⟩
  rw [Zh3Stream.pending, Zh3Stream.pending, huni, hdispatched, List.length_nil, Nat.zero_add]

variable {g : H3Cfg}

theorem h3MaybeDispatch_done (history : List HttpReq) (writes : List H3Write) (h : st.Waiting g.lim) :
    H3PassDone g.lim st (h3MaybeDispatch g history st writes) := by
  rw [h3MaybeDispatch]
  -- not ready, refused, or dispatched
  split
  · exact .none ⟨h.small, fun _ => h⟩ rfl
  · rename_i hready
    split
    · exact .none (Zh3Stream.Small.held ⟨h.small.inp, h.small.head, h.small.body⟩ rfl) rfl
    · -- answering leaves the octets that wait where they are
      have hkept := @zhsDispatch_inv _ (fun s : Zh3Stream => (s.inp, s.hdr, s.log) =
          (st.inp, st.hdr, st.log ++ [h3Request st])) g.srv history (h3Request st)
        (h3Respond (h3Request st).isHead writes) (fun s status hdrs body hs => hs)
        { st with req := h3Request st, log := st.log ++ [h3Request st] } rfl
      simp only [Prod.mk.injEq] at hkept
      obtain ⟨hinp, hhdr, hlog⟩ := hkept
      have hsmall := h.small
      -- the stream had not been dispatched, so that it counted as one request
      have hpending : st.pending = 1 := by
        simp only [Bool.or_eq_true, not_or, Bool.not_eq_true] at hready
        rw [Zh3Stream.pending, hready.2, hready.1.1]
        rfl
      refine ⟨Zh3Stream.Small.held ⟨?_, ?_, Nat.zero_le _⟩ rfl, [h3Request st], hlog, ?_⟩
      · dsimp only
        rw [hinp]
        exact hsmall.inp
      · dsimp only
        rw [hhdr]
        exact (Nat.le_add_right _ _).trans hsmall.head
      · -- now it has, and counts as none
        rw [hpending, Zh3Stream.pending, if_pos (Bool.or_true _)]
        rfl

/-- **One pass** of a stream. -/
theorem h3PumpStream_done {pass : H3Pass} (hchunks : ∀ b ∈ pass.chunks, b.length ≤ H3_READ_CHUNK)
    (h : st.Held g.lim) : H3PassDone g.lim st (h3PumpStream g st pass) := by
  cases hdone : st.done with
  -- a stream that is done is not touched
  | true =>
    rw [h3PumpStream, if_pos hdone]
    exact .none h rfl
  | false =>
    have hleft := h3ReadChunks_left hchunks (h.waiting hdone)
    have hframe := @h3ReadChunks_frame g.lim st pass.chunks
    rw [h3PumpStream, if_neg (by rw [hdone]; exact Bool.false_ne_true)]
    generalize h3ReadChunks g.lim st pass.chunks = res at hleft hframe
    obtain ⟨st₁, e⟩ := res
    cases e with
    -- a frame that is not allowed ends the stream
    | some e => exact .none (Zh3Stream.Small.held ⟨hleft.inp, hleft.head, hleft.body⟩ rfl) hframe
    | none =>
      have hsmall := hleft.small
      -- no chunk failed: what was read is within its bounds
      have hended : Zh3Stream.Held g.lim { st₁ with done := true } :=
        Zh3Stream.Small.held ⟨hsmall.inp, hsmall.head, hsmall.body⟩ rfl
      have hread : ∀ fin : Bool, H3PassDone g.lim st
          (if !st₁.isUni then h3MaybeDispatch g pass.history { st₁ with fin } pass.writes
            else if fin then { st₁ with fin, done := true } else { st₁ with fin }) := by
        intro fin
        have hwait : Zh3Stream.Waiting g.lim { st₁ with fin } :=
          ⟨⟨hleft.headers, hleft.hdr, hleft.unseen, hleft.cap⟩, hleft.inp, hleft.head, hleft.unread, hleft.body⟩
        -- a stream of the client's own kind of request, or a one-way stream
        split
        · obtain ⟨hheld, new, hlog, hcount⟩ := h3MaybeDispatch_done pass.history pass.writes hwait
          simp only [Zh3Stream.frame, Prod.mk.injEq] at hframe
          refine ⟨hheld, new, hlog.trans (by rw [hframe.2.2.2.1]), hcount.trans ?_⟩
          rw [Zh3Stream.pending, Zh3Stream.pending, hframe.2.1, hframe.2.2.1]
        · split
          · exact .none (Zh3Stream.Small.held ⟨hsmall.inp, hsmall.head, hsmall.body⟩ rfl) hframe
          · exact .none ⟨hwait.small, fun _ => hwait⟩ hframe
      cases pass.ending with
      | reset => exact .none hended hframe
      | wantRead => exact hread _
      | fin => exact hread _

theorem h3StreamNew_held (lim : ZhsLimits) (id : Nat) (isUni : Bool) : (h3StreamNew id isUni).Held lim := by
  have hfresh : (h3StreamNew id isUni).Fresh lim :=
    ⟨fun _ => rfl, fun _ => rfl, fun h => (by cases h), fun h => (by cases h)⟩
  have hwait : (h3StreamNew id isUni).Waiting lim :=
    ⟨hfresh, Nat.zero_lt_succ 15, Nat.zero_le _, fun _ => rfl, Nat.zero_le _⟩
  exact ⟨hwait.small, fun _ => hwait⟩

theorem h3PumpStream_id (g : H3Cfg) (st : Zh3Stream) (pass : H3Pass) : (h3PumpStream g st pass).id = st.id := by
  have hframe := congrArg Prod.fst (@h3ReadChunks_frame g.lim st pass.chunks)
  have hdispatch : ∀ s : Zh3Stream, (h3MaybeDispatch g pass.history s pass.writes).id = s.id := by
    intro s
    rw [h3MaybeDispatch]
    split
    · rfl
    · split
      · rfl
      · exact @zhsDispatch_inv _ (fun s' : Zh3Stream => s'.id = s.id) g.srv pass.history (h3Request s)
          (h3Respond (h3Request s).isHead pass.writes) (fun s' status hdrs body hs => hs)
          { s with req := h3Request s, log := s.log ++ [h3Request s] } rfl
  rw [h3PumpStream]
  split
  · rfl
  · generalize h3ReadChunks g.lim st pass.chunks = res at hframe
    obtain ⟨st₁, e⟩ := res
    cases e with
    | some e => exact hframe
    | none =>
      have hread : ∀ fin : Bool, Zh3Stream.id
          (if !st₁.isUni then h3MaybeDispatch g pass.history { st₁ with fin } pass.writes
            else if fin then { st₁ with fin, done := true } else { st₁ with fin }) = st.id := by
        intro fin
        split
        · exact (hdispatch _).trans hframe
        · split
          · exact hframe
          · exact hframe
      cases pass.ending with
      | reset => exact hframe
      | wantRead => exact hread _
      | fin => exact hread _

end Stream

/-! ### The table

The streams of the connection, those accepted and those dropped. -/

section Table

variable {g : H3Cfg} {c : Zh3Conn} {v : H3Visit}

/-- The reads of a visit fit into `tmp`. -/
def H3Visit.Chunked (v : H3Visit) : Prop := ∀ id, ∀ b ∈ (v.reads id).chunks, b.length ≤ H3_READ_CHUNK

/-- A visit of a stream. -/
def h3Visit (g : H3Cfg) (v : H3Visit) (st : Zh3Stream) : Zh3Stream := h3PumpStream g st (v.reads st.id)

/-- A stream that is freed behind its visit. -/
def h3Freed (v : H3Visit) (st : Zh3Stream) : Bool := st.done && v.drained st.id

/-- The requests that may still be handed over. -/
def Zh3Conn.pending (c : Zh3Conn) : Nat := (c.streams.map Zh3Stream.pending).sum

/-- What a pump does. -/
structure H3Pumped (g : H3Cfg) (v : H3Visit) (c : Zh3Conn) (i : Nat) (c' : Zh3Conn) : Prop where
  rest : c' = { c with streams := c'.streams, log := c'.log }
  streams : c'.streams = Lib.sweepFrom (h3Visit g v) (h3Freed v) c.streams i
  log : c'.log.length + c'.pending ≤ c.log.length + c.pending

/-- **The pump is a sweep** of the table. -/
theorem h3PumpStreams_swept (hchunks : v.Chunked) (hheld : ∀ st ∈ c.streams, st.Held g.lim) : H3Pumped g v c 0 (h3PumpStreams g v c) := by
  refine Lib.loop_induct (h3PumpRound_decreases g v)
    (P := fun s c' => (∀ st ∈ s.1.streams, st.Held g.lim) → H3Pumped g v s.1 s.2 c') ?_ ?_ (c, 0) hheld
  · intro ⟨c, i⟩ c' hround hheld
    unfold h3PumpRound at hround
    dsimp only at hround
    split at hround
    · rename_i hnone
      cases hround
      exact ⟨rfl, (Lib.sweepFrom_end hnone).symm, Nat.le_refl _⟩
    · split at hround
      · cases hround
      · cases hround
  · intro ⟨c, i⟩ ⟨c₁, i₁⟩ c' hround ih hheld
    unfold h3PumpRound at hround
    dsimp only at hround hheld ih ⊢
    split at hround
    · cases hround
    · rename_i st hst
      obtain ⟨hi, hget⟩ := List.getElem?_eq_some_iff.mp hst
      obtain ⟨hst', new, hlog, hcount⟩ := h3PumpStream_done (hchunks st.id) (hheld st (List.mem_of_getElem? hst))
      have hset : ∀ s ∈ c.streams.set i (h3Visit g v st), s.Held g.lim := by
        intro s hs
        rcases List.mem_or_eq_of_mem_set hs with hs | rfl
        · exact hheld s hs
        · exact hst'
      have hi' : i < (c.streams.set i (h3Visit g v st)).length := by rwa [List.length_set]
      have hweight := Lib.weight_set Zh3Stream.pending hi (h3Visit g v st)
      rw [hget] at hweight
      have hlen : (c.log ++ (h3PumpStream g st (v.reads st.id)).log.drop st.log.length).length = c.log.length + new.length := by
        rw [hlog, List.drop_left, List.length_append]
      have hfreed : h3Freed v (h3Visit g v st) = ((h3PumpStream g st (v.reads st.id)).done && v.drained st.id) := by
        rw [h3Freed, h3Visit, h3PumpStream_id]
      change new.length + (h3Visit g v st).pending ≤ st.pending at hcount
      split at hround
      · -- the last stream moves into the slot
        rename_i hgone
        cases hround
        obtain ⟨hrest, hstreams, hlog'⟩ := ih fun s hs => hset s (Lib.mem_of_mem_swapRemove hi' hs)
        refine ⟨hrest, hstreams.trans (Lib.sweepFrom_gone hst (hfreed.trans hgone)).symm, ?_⟩
        have hswap := Lib.weight_swapRemove Zh3Stream.pending hi'
        simp only [Zh3Conn.pending, hlen] at hlog' ⊢
        change _ ≤ _ + ((Lib.swapRemove (c.streams.set i (h3Visit g v st)) i).map Zh3Stream.pending).sum at hlog'
        omega
      · rename_i hkept
        cases hround
        obtain ⟨hrest, hstreams, hlog'⟩ := ih hset
        refine ⟨hrest, hstreams.trans (Lib.sweepFrom_kept hst (hfreed.trans (Bool.not_eq_true _ ▸ hkept))).symm, ?_⟩
        simp only [Zh3Conn.pending, hlen] at hlog' ⊢
        change _ ≤ _ + ((c.streams.set i (h3Visit g v st)).map Zh3Stream.pending).sum at hlog'
        omega

/-- **The invariant**: the table, the requests and every stream are within their bounds. -/
structure H3ConnHeld (lim : ZhsLimits) (c : Zh3Conn) : Prop where
  streams : c.streams.length ≤ lim.maxStreams + 8
  requests : c.requests ≤ lim.maxRequestsPerConn
  log : c.log.length + c.pending ≤ c.requests
  held : ∀ st ∈ c.streams, st.Held lim

theorem mem_push_held {lim : ZhsLimits} (hheld : ∀ st ∈ c.streams, st.Held lim) (id : Nat) (isUni : Bool) :
    ∀ st ∈ c.streams ++ [h3StreamNew id isUni], st.Held lim := by
  intro st hst
  rcases List.mem_append.mp hst with hst | hst
  · exact hheld st hst
  · rw [List.mem_singleton.mp hst]
    exact h3StreamNew_held lim id isUni

theorem H3ConnHeld.accept {lim : ZhsLimits} (h : H3ConnHeld lim c) (s : Nat × Bool) :
    H3ConnHeld lim (h3AcceptStream lim c s) ∧
      ∀ st ∈ (h3AcceptStream lim c s).streams, st ∈ c.streams ∨ st = h3StreamNew s.1 s.2 := by
  obtain ⟨hstreams, hrequests, hlog, hheld⟩ := h
  obtain ⟨id, isUni⟩ := s
  have hmem : ∀ st ∈ c.streams ++ [h3StreamNew id isUni], st ∈ c.streams ∨ st = h3StreamNew id isUni := fun st hst =>
    (List.mem_append.mp hst).imp_right List.mem_singleton.mp
  have hsame : ∀ st ∈ c.streams, st ∈ c.streams ∨ st = h3StreamNew id isUni := fun st hst => .inl hst
  rw [h3AcceptStream]
  dsimp only
  -- a request stream, up to the cap, or a one-way stream, up to the cap and eight
  cases isUni with
  | false =>
    rw [if_pos (by rfl)]
    split
    · -- refused: nothing is added
      exact ⟨⟨hstreams, hrequests, hlog, hheld⟩, hsame⟩
    · rename_i hroom
      rw [not_or] at hroom
      -- the new stream is one more, of a request that is not dispatched
      refine ⟨⟨?_, ?_, ?_, mem_push_held hheld id false⟩, hmem⟩
      · rw [List.length_append, List.length_singleton]
        omega
      · dsimp only
        omega
      · rw [Zh3Conn.pending, List.map_append, List.sum_append]
        change _ + (c.pending + 1) ≤ _
        dsimp only
        omega
  | true =>
    rw [if_neg (by exact Bool.false_ne_true)]
    split
    · exact ⟨⟨hstreams, hrequests, hlog, hheld⟩, hsame⟩
    · rename_i hroom
      -- a one-way stream brings no request
      refine ⟨⟨?_, hrequests, ?_, mem_push_held hheld id true⟩, hmem⟩
      · rw [List.length_append, List.length_singleton]
        omega
      · rw [Zh3Conn.pending, List.map_append, List.sum_append]
        exact hlog

theorem H3ConnHeld.accepts {lim : ZhsLimits} (h : H3ConnHeld lim c) (accepted : List (Nat × Bool)) :
    H3ConnHeld lim (h3AcceptStreams lim accepted c) ∧
      ∀ st ∈ (h3AcceptStreams lim accepted c).streams, st ∈ c.streams ∨ ∃ id isUni, st = h3StreamNew id isUni := by
  unfold h3AcceptStreams
  generalize accepted.take ZH3_ACCEPT_CAP = accepted
  induction accepted generalizing c with
  | nil => exact ⟨h, fun st hst => .inl hst⟩
  | cons s accepted ih =>
    obtain ⟨hone, hnew⟩ := h.accept s
    obtain ⟨hheld, hmem⟩ := ih hone
    refine ⟨hheld, fun st hst => ?_⟩
    rcases hmem st hst with hst | hst
    · exact (hnew st hst).imp_right fun heq => ⟨s.1, s.2, heq⟩
    · exact .inr hst

/-- **A visit** keeps the bounds. A stream of the table behind it was there before, or is new, and has
been read. -/
theorem H3ConnHeld.process (h : H3ConnHeld g.lim c) (hchunks : v.Chunked) :
    H3ConnHeld g.lim (zh3Process g v c) ∧ ∀ st' ∈ (zh3Process g v c).streams,
      ∃ st, st' = h3PumpStream g st (v.reads st.id) ∧ (st ∈ c.streams ∨ ∃ id isUni, st = h3StreamNew id isUni) := by
  -- pumping drops the streams that are done and keeps the rest within their bounds
  have hpump : ∀ {c₁ : Zh3Conn}, H3ConnHeld g.lim c₁ →
      H3ConnHeld g.lim (h3ConnClosed v.closed (h3PumpStreams g v c₁)) ∧
        ∀ st' ∈ (h3ConnClosed v.closed (h3PumpStreams g v c₁)).streams,
          ∃ st ∈ c₁.streams, st' = h3PumpStream g st (v.reads st.id) := by
    intro c₁ h₁
    obtain ⟨hrest, hstreams, hlog⟩ := h3PumpStreams_swept hchunks h₁.held
    have hrequests : (h3PumpStreams g v c₁).requests = c₁.requests := by rw [hrest]
    have hmem : ∀ st' ∈ (h3PumpStreams g v c₁).streams, ∃ st ∈ c₁.streams, st' = h3PumpStream g st (v.reads st.id) := by
      intro st' hst'
      rw [hstreams] at hst'
      obtain ⟨⟨st, hst, heq⟩, -⟩ := Lib.mem_sweep.mp hst'
      exact ⟨st, hst, heq.symm⟩
    refine ⟨⟨?_, hrequests.le.trans h₁.requests, hlog.trans (h₁.log.trans hrequests.ge), fun st' hst' => ?_⟩, hmem⟩
    · refine le_trans ?_ h₁.streams
      change (h3PumpStreams g v c₁).streams.length ≤ c₁.streams.length
      rw [hstreams]
      exact Lib.length_sweep_le _ _ _
    · obtain ⟨st, hst, rfl⟩ := hmem st' hst'
      exact (h3PumpStream_done (hchunks st.id) (h₁.held st hst)).held
  rw [zh3Process]
  -- a connection that is closed is pumped, one that is open first accepts
  split
  · obtain ⟨hheld, hmem⟩ := hpump h
    refine ⟨hheld, fun st' hst' => ?_⟩
    obtain ⟨st, hst, heq⟩ := hmem st' hst'
    exact ⟨st, heq, .inl hst⟩
  · -- the control stream is none of the client's
    have hopen : H3ConnHeld g.lim (h3OpenControl v.credit c) ∧ (h3OpenControl v.credit c).streams = c.streams := by
      rw [h3OpenControl]
      split
      · exact ⟨h, rfl⟩
      · exact ⟨⟨h.streams, h.requests, h.log, h.held⟩, rfl⟩
    obtain ⟨haccept, hnew⟩ := hopen.1.accepts v.accepted
    obtain ⟨hheld, hmem⟩ := hpump haccept
    refine ⟨hheld, fun st' hst' => ?_⟩
    obtain ⟨st, hst, heq⟩ := hmem st' hst'
    refine ⟨st, heq, ?_⟩
    rw [hopen.2] at hnew
    exact hnew st hst

theorem H3ConnHeld.graceful {lim : ZhsLimits} (h : H3ConnHeld lim c) :
    H3ConnHeld lim (zh3Graceful c) ∧ (zh3Graceful c).streams = c.streams := by
  rw [zh3Graceful, h3SendGoaway]
  split
  · exact ⟨⟨h.streams, h.requests, h.log, h.held⟩, rfl⟩
  · split
    · exact ⟨⟨h.streams, h.requests, h.log, h.held⟩, rfl⟩
    · exact ⟨⟨h.streams, h.requests, h.log, h.held⟩, rfl⟩

end Table

/-! ### Runs

The bounds hold behind every step of a run. -/

section Run

variable {g : H3Cfg}

/-- The reads of a run fit into `tmp`. -/
def H3Chunked (steps : List H3ConnStep) : Prop := ∀ v, H3ConnStep.process v ∈ steps → v.Chunked

/-- The visits of a run. -/
def h3Visits (steps : List H3ConnStep) : List H3Visit :=
  steps.filterMap fun step => match step with
    | .process v => some v
    | .graceful => none

/-- A stream of the table has been read in every visit from the one on that accepted it. -/
def Zh3Stream.Served (g : H3Cfg) (visits : List H3Visit) (st : Zh3Stream) : Prop :=
  ∃ k isUni, k < visits.length ∧ st = h3Run g (h3StreamNew st.id isUni) ((visits.drop k).map fun v => v.reads st.id)

theorem Zh3Stream.Served.again {visits : List H3Visit} {st : Zh3Stream} (h : st.Served g visits) (v : H3Visit) :
    (h3PumpStream g st (v.reads st.id)).Served g (visits ++ [v]) := by
  obtain ⟨k, isUni, hk, heq⟩ := h
  refine ⟨k, isUni, ?_, ?_⟩
  · rw [List.length_append]
    omega
  · rw [h3Run] at heq
    rw [h3PumpStream_id, List.drop_append_of_le_length hk.le, List.map_append, h3Run, List.foldl_append, ← heq]
    rfl

theorem h3StreamNew_served (visits : List H3Visit) (v : H3Visit) (id : Nat) (isUni : Bool) :
    (h3PumpStream g (h3StreamNew id isUni) (v.reads id)).Served g (visits ++ [v]) := by
  refine ⟨visits.length, isUni, ?_, ?_⟩
  · rw [List.length_append]
    exact Nat.lt_succ_self _
  · rw [h3PumpStream_id, List.drop_left]
    rfl

/-- **The bounds hold in every state of a run**, and until the connection is freed each stream of the table
is a run of its own. -/
theorem h3ConnRun_held (credit : Bool) {steps : List H3ConnStep} (hsteps : H3Chunked steps) :
    H3ConnHeld g.lim (h3ConnRun g credit steps) ∧ ((h3ConnRun g credit steps).freed = false →
      ∀ st ∈ (h3ConnRun g credit steps).streams, st.Served g (h3Visits steps)) := by
  -- the induction is on the last visit, for a visit is judged by the connection it finds
  induction steps using List.reverseRecOn with
  -- a new connection has no stream
  | nil =>
    have hstreams : (h3ConnNew credit).streams = [] ∧ (h3ConnNew credit).requests = 0 ∧ (h3ConnNew credit).log = [] := by
      cases credit <;> exact ⟨rfl, rfl, rfl⟩
    obtain ⟨hstreams, hrequests, hlog⟩ := hstreams
    rw [h3ConnRun, List.foldl_nil]
    refine ⟨⟨?_, ?_, ?_, ?_⟩, fun _ st hst => ?_⟩
    · rw [hstreams]
      exact Nat.zero_le _
    · rw [hrequests]
      exact Nat.zero_le _
    · rw [Zh3Conn.pending, hstreams, hlog]
      exact Nat.zero_le _
    · intro st hst
      rw [hstreams] at hst
      exact absurd hst List.not_mem_nil
    · rw [hstreams] at hst
      exact absurd hst List.not_mem_nil
  | append_singleton steps step ih =>
    obtain ⟨hheld, hserved⟩ := ih fun v hv => hsteps v (List.mem_append_left _ hv)
    rw [h3ConnRun, List.foldl_append, List.foldl_cons, List.foldl_nil, ← h3ConnRun]
    unfold h3ConnStep
    -- behind the end of the connection nothing is read
    cases hfreed : (h3ConnRun g credit steps).freed with
    | true =>
      rw [if_pos rfl]
      exact ⟨hheld, fun hno => by rw [hfreed] at hno; cases hno⟩
    | false =>
      rw [if_neg Bool.false_ne_true]
      have hserved := hserved hfreed
      cases step with
      | process v =>
        obtain ⟨hheld', hmem⟩ := hheld.process (hsteps v (List.mem_append_right _ List.mem_cons_self))
        refine ⟨hheld', fun _ st' hst' => ?_⟩
        -- an old stream that is served once more, or one accepted on this visit
        obtain ⟨st, rfl, hst | ⟨id, isUni, rfl⟩⟩ := hmem st' hst'
        · rw [h3Visits, List.filterMap_append]
          exact (hserved st hst).again v
        · rw [h3Visits, List.filterMap_append]
          exact h3StreamNew_served _ v id isUni
      | graceful =>
        obtain ⟨hheld', hstreams⟩ := hheld.graceful
        refine ⟨hheld', fun _ st hst => ?_⟩
        rw [hstreams] at hst
        rw [h3Visits, List.filterMap_append, List.filterMap_cons_none rfl, List.filterMap_nil, List.append_nil]
        exact hserved st hst

end Run

end Zcio
