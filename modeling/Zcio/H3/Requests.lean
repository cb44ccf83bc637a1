import Zcio.Server.Request
import Zcio.H3.Stream

/-!
# Zcio.H3.Requests

What a request of an HTTP/3 stream is by the time it reaches the handler. The sink of the
QPACK decoder keeps `CtxOk`; `StreamInv` carries it through the frame parser to the request
that is dispatched on FIN. Every field value passes `zhs_value_ok_`, pseudo-headers
included; that `:method` is a token is checked nowhere.
-/

namespace Zcio

variable (g : H3Cfg)

/-- The authority of an HTTP/3 request: `:authority` as it is. -/
def h3Auth (r : RawReq) : Option Bytes := r.authority.map cstr

theorem fromReceived_h3Auth : FromReceived h3Auth := by
  intro r hr a ha
  obtain ⟨x, hx, rfl⟩ := Option.map_eq_some_iff.mp ha
  have hrec : r.received = some x := by rw [RawReq.received, hx]; rfl
  exact ⟨x, hrec, .inl (cstr_of_valueOk (hr.authority x hrec))⟩

/-! ### The sink

What the sink holds is clean, and its limits were checked. -/

/-- What the sink of the decoder has collected is clean. -/
structure H3HdrCtx.Ok (lim : ZhsLimits) (x : H3HdrCtx) : Prop where
  method : ∀ m, x.method = some m → zhsValueOk m = true
  authority : ∀ a, x.authority = some a → zhsValueOk a = true
  names : ∀ f ∈ x.fields, zhsLowerTokenOk f.1 = true
  values : ∀ f ∈ x.fields, zhsValueOk f.2 = true
  headers : x.headers.v = storedFields x.fields
  count : x.headers.n ≤ lim.maxHeaders

theorem H3HdrCtx.Ok.fail {lim : ZhsLimits} {x : H3HdrCtx} (h : x.Ok lim) : x.fail.1.Ok lim :=
  ⟨h.method, h.authority, h.names, h.values, h.headers, h.count⟩

theorem h3EmitPseudo_ok {lim : ZhsLimits} {x : H3HdrCtx} (h : x.Ok lim) (name value : Bytes) :
    (h3EmitPseudo x name value).1.Ok lim := by
  unfold h3EmitPseudo
  split
  · exact h.fail
  · split
    · exact h.fail
    · rename_i hval
      have hval : zhsValueOk value = true := by simpa using hval
      have hsome : ∀ v, some value = some v → zhsValueOk v = true := by
        rintro v ⟨⟩
        exact hval
      split
      · split
        · exact h.fail
        · exact ⟨hsome, h.authority, h.names, h.values, h.headers, h.count⟩
      · split
        · split
          · exact h.fail
          · exact ⟨h.method, h.authority, h.names, h.values, h.headers, h.count⟩
        · split
          · split
            · exact h.fail
            · exact ⟨h.method, h.authority, h.names, h.values, h.headers, h.count⟩
          · split
            · split
              · exact h.fail
              · exact ⟨h.method, hsome, h.names, h.values, h.headers, h.count⟩
            · exact h.fail

theorem h3EmitRegular_ok {lim : ZhsLimits} {x : H3HdrCtx} (h : x.Ok lim) (name value : Bytes) :
    (h3EmitRegular lim x name value).1.Ok lim := by
  have hseen : ({ x with regularSeen := true } : H3HdrCtx).Ok lim :=
    ⟨h.method, h.authority, h.names, h.values, h.headers, h.count⟩
  unfold h3EmitRegular
  dsimp only
  split
  · exact hseen.fail
  · rename_i hname
    split
    · exact hseen.fail
    · rename_i hval
      split
      · exact hseen.fail
      · split
        · exact hseen.fail
        · split
          · exact hseen.fail
          · rename_i headers hadd
            have hname : zhsLowerTokenOk name = true := by simpa using hname
            have hval : zhsValueOk value = true := by simpa using hval
            obtain ⟨hv, hc⟩ := storedFields_add h.headers (zhsLowerTokenOk_token hname)
              (.inr (lower_of_lowerToken hname)) hadd
            refine ⟨h.method, h.authority, ?_, ?_, hv, hc⟩
            · intro f hf
              rcases List.mem_append.mp hf with hf | hf
              · exact h.names f hf
              · rw [List.mem_singleton.mp hf]
                exact hname
            · intro f hf
              rcases List.mem_append.mp hf with hf | hf
              · exact h.values f hf
              · rw [List.mem_singleton.mp hf]
                exact hval

theorem h3Emit_ok {lim : ZhsLimits} (x : H3HdrCtx) (name value : Bytes) (h : x.Ok lim) :
    (h3Emit lim x name value).1.Ok lim := by
  unfold h3Emit
  split
  · exact h
  · split
    · exact h3EmitPseudo_ok h name value
    · exact h3EmitRegular_ok h name value

/-! ### The head

The request made of a section that was accepted. -/

/-- The head of a request, assembled from octets that are clean but for `:method`. -/
structure H3Head (lim : ZhsLimits) (req : HttpReq) : Prop where
  assembled : Assembled lim h3Auth req
  method : zhsValueOk req.raw.method = true
  authority : ∀ a, req.raw.authority = some a → zhsValueOk a = true
  values : ∀ f ∈ req.raw.fields, zhsValueOk f.2 = true
  lowerNames : ∀ f ∈ req.raw.fields, zhsLowerTokenOk f.1 = true
  unanswered : req.responded = false

/-- A request of which only the body is there. -/
def OnlyBody (req : HttpReq) : Prop := req = { body := req.body }

theorem h3Head_ok {lim : ZhsLimits} {req req' : HttpReq} {ok : Bool} {x : H3HdrCtx}
    (hreq : OnlyBody req) (hx : x.Ok lim) (h : h3Head lim req ok x = .ok req') :
    H3Head lim req' ∧ req'.body = req.body := by
  unfold h3Head at h
  split at h
  · rename_i method target scheme hmethod htarget hscheme
    split at h
    · cases h
    · split at h
      · cases h
      · rename_i path query hdec
        cases h
        have hnone : req.authority = none := by rw [hreq]
        refine ⟨⟨⟨rfl, rfl, ⟨path, rfl, hdec⟩, ?_, ?_, hx.headers, hx.count⟩,
          hx.method _ hmethod, hx.authority, hx.values, hx.names, ?_⟩, rfl⟩
        · dsimp only
          rw [hnone, Option.or_none]
          rfl
        · exact fun f hf => zhsLowerTokenOk_token (hx.names f hf)
        · dsimp only
          rw [hreq]
  · cases h

theorem h3DecodeHeaders_ok {lim : ZhsLimits} {st st' : Zh3Stream}
    (h : h3DecodeHeaders lim st = .ok st') (hreq : OnlyBody st.req) :
    H3Head lim st'.req ∧ st'.req.body = st.req.body := by
  have hhdrs : st.req.headers = {} := by rw [hreq]
  unfold h3DecodeHeaders at h
  split at h
  · cases h
  · dsimp only at h
    have hx : (zqpDecode st.hdr lim.maxHeaderBytes (h3Emit lim)
        { headers := st.req.headers }).2.Ok lim := by
      refine zqpDecode_sink (I := H3HdrCtx.Ok lim) (fun u n v hu => h3Emit_ok u n v hu) _ _ ?_
      rw [hhdrs]
      exact ⟨nofun, nofun, nofun, nofun, rfl, Nat.zero_le _⟩
    cases hh : h3Head lim st.req _ _ with
    | error e => rw [hh] at h; cases h
    | ok req =>
      rw [hh] at h
      cases h
      exact h3Head_ok hreq hx hh

/-! ### The parser

The parser adds to the body and leaves the head. -/

/-- The request under construction: only a body before HEADERS, a head behind it. -/
structure StreamInv (lim : ZhsLimits) (st : Zh3Stream) : Prop where
  before : st.headersSeen = false → OnlyBody st.req
  head : st.headersSeen = true → H3Head lim st.req
  parsing : st.pstate = .headers → st.headersSeen = false
  body : st.req.body.length ≤ lim.maxBodyBytes

theorem H3Head.withBody {lim : ZhsLimits} {req : HttpReq} (h : H3Head lim req) (b : Bytes) :
    H3Head lim { req with body := b } := by
  obtain ⟨⟨hm, hh, ht, ha, hn, hv, hc⟩, hmethod, hauth, hvals, hlow, hresp⟩ := h
  exact ⟨⟨hm, hh, ht, ha, hn, hv, hc⟩, hmethod, hauth, hvals, hlow, hresp⟩

theorem OnlyBody.withBody {req : HttpReq} (h : OnlyBody req) (b : Bytes) :
    OnlyBody { req with body := b } := by
  unfold OnlyBody at h ⊢
  rw [h]

/-- **A round of the parser keeps the invariant.** -/
theorem H3Move.inv {lim : ZhsLimits} {st st' : Zh3Stream} (hmove : H3Move lim st st')
    (h : StreamInv lim st) : StreamInv lim st' := by
  cases hmove with
  | stay => exact h
  | refused => exact ⟨h.before, h.head, h.parsing, h.body⟩
  | header hst hp => exact ⟨h.before, h.head, hp, h.body⟩
  | headersPart hst => exact ⟨h.before, h.head, h.parsing, h.body⟩
  | headersEnd hst hdec =>
    obtain ⟨hhead, hbody⟩ := h3DecodeHeaders_ok hdec (h.before (h.parsing hst))
    exact ⟨nofun, fun _ => hhead, nofun, by rw [hbody]; exact h.body⟩
  | data hp hlen =>
    refine ⟨fun hs => (h.before hs).withBody _, fun hs => (h.head hs).withBody _, ?_, ?_⟩
    · rintro rfl
      rcases hp with hp | hp <;> cases hp
    · have := h.body
      simp only [List.length_append]
      omega
  | skip hp =>
    refine ⟨h.before, h.head, ?_, h.body⟩
    rintro rfl
    rcases hp with hp | hp <;> cases hp

theorem H3Move.log {lim : ZhsLimits} {st st' : Zh3Stream} (hmove : H3Move lim st st') :
    st'.log = st.log := by
  cases hmove with
  | headersEnd hst hdec => rw [h3DecodeHeaders_inp hdec]; rfl
  | _ => rfl

/-! ### Whole streams

Every request that is handed over, over the whole life of a stream. -/

/-- What holds of a request when the handler gets it. -/
structure H3Dispatched (lim : ZhsLimits) (req : HttpReq) : Prop extends H3Head lim req where
  body : req.body.length ≤ lim.maxBodyBytes

/-- **The invariant of a stream**: of the requests dispatched, and of the one in progress
unless the stream is done. -/
structure H3Inv (lim : ZhsLimits) (st : Zh3Stream) : Prop where
  log : ∀ req ∈ st.log, H3Dispatched lim req
  stream : st.done = true ∨ StreamInv lim st

theorem h3ReadChunks_log (lim : ZhsLimits) (chunks : List Bytes) (st : Zh3Stream) :
    (h3ReadChunks lim st chunks).1.log = st.log := by
  induction chunks generalizing st with
  | nil => rfl
  | cons chunk chunks ih =>
    rw [h3ReadChunks]
    split
    · exact ih st
    · have hkeep := @h3Parse_inv (fun s => s.log = st.log) lim
        (fun _ _ hi hmove => hmove.log.trans hi) { st with inp := st.inp ++ chunk } rfl
      split
      · rename_i heq
        rw [heq] at hkeep
        exact hkeep
      · rename_i heq
        rw [heq] at hkeep
        exact (ih _).trans hkeep

theorem h3ReadChunks_inv {lim : ZhsLimits} (chunks : List Bytes) {st : Zh3Stream}
    (h : StreamInv lim st) : StreamInv lim (h3ReadChunks lim st chunks).1 := by
  induction chunks generalizing st with
  | nil => exact h
  | cons chunk chunks ih =>
    rw [h3ReadChunks]
    split
    · exact ih h
    · have hparse := @h3Parse_inv (StreamInv lim) lim (fun _ _ hi hmove => hmove.inv hi)
        { st with inp := st.inp ++ chunk } ⟨h.before, h.head, h.parsing, h.body⟩
      split
      · rename_i heq
        rw [heq] at hparse
        exact hparse
      · rename_i heq
        rw [heq] at hparse
        exact ih hparse

/-- Flags of the request object are no part of what was received. -/
theorem H3Head.flags {lim : ZhsLimits} {req : HttpReq} (h : H3Head lim req)
    (version streamId : Nat) (secure : Bool) :
    H3Head lim { req with version, secure, streamId } := by
  obtain ⟨⟨hm, hh, ht, ha, hn, hv, hc⟩, hmethod, hauth, hvals, hlow, hresp⟩ := h
  exact ⟨⟨hm, hh, ht, ha, hn, hv, hc⟩, hmethod, hauth, hvals, hlow, hresp⟩

/-- Dispatch logs the request in progress. -/
theorem h3MaybeDispatch_log (history : List HttpReq) (st : Zh3Stream) (writes : List H3Write) :
    (zhsDispatch g.srv history (h3Request st) (h3Respond (h3Request st).isHead writes)
      { st with req := h3Request st, log := st.log ++ [h3Request st] }).1.log =
        st.log ++ [h3Request st] := by
  refine zhsDispatch_inv (I := fun s : Zh3Stream => s.log = st.log ++ [h3Request st]) _ _ _ ?_ rfl
  intro s status hdrs body hs
  exact hs

theorem h3MaybeDispatch_inv (history : List HttpReq) (writes : List H3Write) {st : Zh3Stream} (hi : H3Inv g.lim st)
    (h : StreamInv g.lim st) : H3Inv g.lim (h3MaybeDispatch g history st writes) := by
  unfold h3MaybeDispatch
  split
  · exact hi
  · split
    · exact ⟨hi.log, .inl rfl⟩
    · rename_i hready
      have hseen : st.headersSeen = true := by
        by_contra hs
        exact hready (.inl (by simpa using hs))
      have hreq : H3Dispatched g.lim (h3Request st) := ⟨(h.head hseen).flags _ _ _, h.body⟩
      refine ⟨?_, .inl rfl⟩
      intro req hmem
      dsimp only at hmem
      rw [h3MaybeDispatch_log] at hmem
      rcases List.mem_append.mp hmem with hmem | hmem
      · exact hi.log req hmem
      · rw [List.mem_singleton.mp hmem]
        exact hreq

theorem h3PumpStream_inv {st : Zh3Stream} (hi : H3Inv g.lim st) (pass : H3Pass) :
    H3Inv g.lim (h3PumpStream g st pass) := by
  unfold h3PumpStream
  split
  · exact hi
  · rename_i hdone
    have hs : StreamInv g.lim st := hi.stream.resolve_left hdone
    have hinv := h3ReadChunks_inv pass.chunks hs
    have hlog := h3ReadChunks_log g.lim pass.chunks st
    have hlog' : ∀ req ∈ (h3ReadChunks g.lim st pass.chunks).1.log, H3Dispatched g.lim req := by
      rw [hlog]
      exact hi.log
    split
    · rename_i st₁ e heq
      rw [heq] at hlog'
      exact ⟨hlog', .inl rfl⟩
    · rename_i st₁ heq
      rw [heq] at hlog' hinv
      have hfin : ∀ fin, StreamInv g.lim { st₁ with fin } := fun _ =>
        ⟨hinv.before, hinv.head, hinv.parsing, hinv.body⟩
      split
      · exact ⟨hlog', .inl rfl⟩
      all_goals
        dsimp only
        split
        · exact h3MaybeDispatch_inv g _ _ ⟨hlog', .inr (hfin _)⟩ (hfin _)
        · split
          · exact ⟨hlog', .inl rfl⟩
          · exact ⟨hlog', .inr (hfin _)⟩

/-- **Every request an HTTP/3 stream dispatches**, over its whole life. -/
theorem h3Run_requests (id : Nat) (isUni : Bool) (passes : List H3Pass) :
    H3Inv g.lim (h3Run g (h3StreamNew id isUni) passes) := by
  have hrun : ∀ st : Zh3Stream, H3Inv g.lim st → H3Inv g.lim (h3Run g st passes) := by
    induction passes with
    | nil => exact fun st hi => hi
    | cons pass passes ih => exact fun st hi => ih _ (h3PumpStream_inv g hi pass)
  refine hrun _ ⟨nofun, .inr ⟨fun _ => rfl, nofun, nofun, Nat.zero_le _⟩⟩

end Zcio
