import Zcio.H1.Once
import Zcio.H1.Answer
import Zcio.H2.Response
import Zcio.H3.Requests

/-!
# Zcio.Server.OneResponse

One dispatch, one response, on every protocol version. `zhsDispatch_eq` is the policy's half:
whatever the handler calls, the hook runs once, with the first call that is acceptable or the
fallback. Here the three hooks are held against it: what reaches the output is the one
message of that call.

* **`dispatch_queues_one`**: a dispatch queues that message if and only if the request was
  not answered before. HTTP/2 and HTTP/3 dispatch no answered request; HTTP/1.1 does when it
  is fed again behind a response that closed the connection.
-/

namespace Zcio

/-! ### The messages

The octets that a dispatch may queue, by version. -/

/-- The header frames `h2_dispatch` queues for the request of a stream. -/
def h2Reply (g : H2Cfg) (c : Zh2Conn) (st : Zh2Stream) : List Frame :=
  let req := h2Request g st
  let answer := g.srv.answer (requestsOf c.hist) req
  respFrames c st.id req.isHead answer.status.toNat
    (finalHeaders g.srv g.secure (g.srv.date (requestsOf c.hist).length) answer.headers)
    answer.body

/-- The octets `h3_maybe_dispatch` queues for the request of a stream. -/
def h3Reply (g : H3Cfg) (history : List HttpReq) (st : Zh3Stream) : Bytes :=
  let req := h3Request st
  let answer := g.srv.answer history req
  h3ResponseBytes req.isHead answer.status.toNat
    (finalHeaders g.srv true (g.srv.date history.length) answer.headers) answer.body

/-- `h3_maybe_dispatch` calls the dispatcher. -/
def Zh3Stream.Ready (st : Zh3Stream) : Prop :=
  st.dispatched = false ∧ st.fin = true ∧ st.isUni = false ∧ st.headersSeen = true ∧
    st.pstate = .hdr

/-! ### HTTP/1.1

The response is queued by the first call that is accepted. -/

theorem append_ne_self {b : ZhsBuf} {s : Bytes} (h : s ≠ []) : b.append s ≠ b := by
  intro heq
  have hlen := congrArg (fun b : ZhsBuf => b.rd.length) heq
  simp only [ZhsBuf.rd_append, List.length_append] at hlen
  exact h (List.length_eq_zero_iff.mp (by omega))

theorem h1Reply_ne_nil (g : H1Cfg) (c : Zh1Conn) : h1Reply g c ≠ [] := by
  simp [h1Reply, h1ResponseBytes, statusLine, str]

theorem h1Finish_one (g : H1Cfg) (c : Zh1Conn)
    (hd : g.srv.detaches c.history (h1Request g c) = false) :
    (h1Finish g c).2.out = c.out.append (h1Reply g c) ↔ c.req.responded = false := by
  cases hr : c.req.responded with
  | false => exact ⟨fun _ => rfl, fun _ => (h1Finish_unanswered g hr hd).2.1⟩
  | true =>
    refine ⟨fun hout => ?_, fun h => by cases h⟩
    rw [(h1Finish_answered g hr hd).2.1] at hout
    exact absurd hout.symm (append_ne_self (h1Reply_ne_nil g c))

/-! ### HTTP/2

The head is queued at once, and the body waits in the stream. -/

theorem out_foldl_h2Frame (fs : List Frame) (c : Zh2Conn) :
    (fs.foldl h2Frame c).out = c.out.append (fs.map Frame.bytes).flatten := by
  induction fs generalizing c with
  | nil => simp [ZhsBuf.append]
  | cons f fs ih =>
    rw [List.foldl_cons, ih, List.map_cons, List.flatten_cons, ← ZhsBuf.append_append]
    rfl

theorem reap_out (c : Zh2Conn) (id : Nat) : (reap c id).out = c.out := by
  unfold reap
  split
  · split
    · exact (closeById_frame c id).2.2.2.1
    · rfl
  · rfl

theorem h2Reply_ne_nil (g : H2Cfg) (c : Zh2Conn) (st : Zh2Stream) :
    ((h2Reply g c st).map Frame.bytes).flatten ≠ [] := by
  have hfirst : ∀ (maxf n : Nat) (fb : Bytes), fragmentsN maxf n fb ≠ [] := by
    intro maxf n fb
    cases n with
    | zero => exact List.cons_ne_nil _ _
    | succ n =>
      unfold fragmentsN
      split <;> exact List.cons_ne_nil _ _
  unfold h2Reply respFrames headerFrames fragments
  dsimp only
  split
  · rename_i hnil
    exact absurd hnil (hfirst _ _ _)
  · simp [Frame.bytes]

theorem h2Dispatch_one (g : H2Cfg) {c : Zh2Conn} {id : Nat} {st : Zh2Stream}
    (hst : findStream c id = some st) (hdisp : st.dispatched = false) :
    (h2Dispatch g c id).out = c.out.append ((h2Reply g c st).map Frame.bytes).flatten ↔
      st.responded = false := by
  obtain ⟨-, rfl⟩ := findStream_some hst
  have hmark : h2Dispatch g c st.id = reap (updateStream (zhsDispatch g.srv (requestsOf c.hist)
      (h2Request g st) (zh2Respond st.id (h2Request g st).isHead)
      ((updateStream c st.id fun s => { s with dispatched := true, req := h2Request g st }).log
        (.dispatched st.id (h2Request g st)))).1 st.id fun s => { s with req := {} }) st.id := by
    unfold h2Dispatch
    rw [hst]
    dsimp only
    rw [hdisp]
    rfl
  rw [hmark, reap_out, (updateStream_frame _ _ _).2.2.2.1,
    zhsDispatch_eq _ _ _ _ _ rfl (detaches_h2Request _ st)]
  generalize hc : (updateStream c st.id fun s =>
    { s with dispatched := true, req := h2Request g st }).log
      (.dispatched st.id (h2Request g st)) = c₁
  have hout : c₁.out = c.out := by subst hc; rfl
  have hfind : findStream c₁ st.id =
      some { st with dispatched := true, req := h2Request g st } := by
    subst hc
    rw [findStream_log, findStream_updateStream (by exact fun _ => rfl), hst]
    rfl
  cases hresp : st.responded with
  | false =>
    refine ⟨fun _ => rfl, fun _ => ?_⟩
    rw [zh2Respond_eq hfind hresp, (updateStream_frame _ _ _).2.2.2.1, out_foldl_h2Frame]
    subst hc
    rfl
  | true =>
    refine ⟨fun heq => ?_, fun h => by cases h⟩
    have hsame : ∀ isHead status hdrs body,
        zh2Respond st.id isHead c₁ status hdrs body = c₁ := by
      intro isHead status hdrs body
      simp [zh2Respond, hfind, hresp]
    rw [hsame, hout] at heq
    exact absurd heq.symm (append_ne_self (h2Reply_ne_nil g c st))

/-- A stream is answered by the dispatch of its request only. -/
theorem Run.unanswered {g : H2Cfg} {c : Zh2Conn} (h : Run g c) {st : Zh2Stream}
    (hst : st ∈ c.streams) (hdisp : st.dispatched = false) : st.responded = false := by
  rcases h.resp.stream st hst with hs | ha
  · exact hs.responded
  · obtain ⟨r, t, isHead, status, hdrs, b, hsuf, ⟨req, t', rfl, -⟩, -⟩ := ha.answered
    have hmem : st.id ∈ dispatchedIds c.hist := by
      obtain ⟨new, hnew⟩ := hsuf
      refine List.mem_map.mpr ⟨(st.id, req), ?_, rfl⟩
      rw [← hnew]
      simp [dispatches]
    rw [(h.table.1.marked st hst).mpr hmem] at hdisp
    cases hdisp

/-! ### HTTP/3

The response is written to its own stream. -/

theorem h3Reply_ne_nil (g : H3Cfg) (history : List HttpReq) (st : Zh3Stream) :
    h3Reply g history st ≠ [] := by
  simp [h3Reply, h3ResponseBytes, h3FrameBytes, h3PutVarint, H3_FRAME_HEADERS]

theorem h3MaybeDispatch_one (g : H3Cfg) (history : List HttpReq) {st : Zh3Stream}
    (hst : st.Ready) :
    (h3MaybeDispatch g history st).out = st.out ++ h3Reply g history st ↔
      st.req.responded = false := by
  obtain ⟨hdisp, hfin, huni, hseen, hps⟩ := hst
  have hd : g.srv.detaches history (h3Request st) = false := by simp [Server.detaches, h3Request]
  have hstep : (h3MaybeDispatch g history st).out = (zhsDispatch g.srv history (h3Request st)
      (h3Respond (h3Request st).isHead)
      { st with req := h3Request st, log := st.log ++ [h3Request st] }).1.out := by
    unfold h3MaybeDispatch
    rw [hdisp, hfin, huni, hseen, hps]
    rfl
  rw [hstep]
  cases hr : st.req.responded with
  | false =>
    have hresp : (h3Request st).responded = false := hr
    rw [zhsDispatch_eq _ _ _ _ _ hresp hd]
    exact ⟨fun _ => rfl, fun _ => rfl⟩
  | true =>
    have hresp : (h3Request st).responded = true := hr
    rw [zhsDispatch_responded _ _ _ _ _ hresp]
    refine ⟨fun heq => ?_, fun h => by cases h⟩
    exact absurd (List.append_right_eq_self.mp heq.symm) (h3Reply_ne_nil g history st)

/-! ### All versions -/

/-- A call that `zcio_http_respond` rejects, a second one included, has no effect. -/
theorem zcioHttpRespond_rejected {σ : Type} (srv : Server) (req : HttpReq) (date : HttpDate)
    (fn : RespondFn σ) {s : σ × Bool} {call : RespondCall}
    (h : s.2 = true ∨ call.valid = false) : zcioHttpRespond srv req date fn s call = s := by
  unfold zcioHttpRespond
  rcases h with hdone | hbad
  · rw [if_pos hdone]
  · split
    · rfl
    · rw [if_neg (by rw [hbad]; exact Bool.false_ne_true)]

/-- **One dispatch queues exactly one response**, that of the first acceptable call or the
fallback, if and only if the request was not answered before; a rejected call has no effect.
On HTTP/2 and HTTP/3 no request is answered before its dispatch. -/
theorem dispatch_queues_one (g₁ : H1Cfg) (g₂ : H2Cfg) (g₃ : H3Cfg) :
    (∀ {σ : Type} (srv : Server) (req : HttpReq) (date : HttpDate) (fn : RespondFn σ)
      (s : σ × Bool) (call : RespondCall), s.2 = true ∨ call.valid = false →
      zcioHttpRespond srv req date fn s call = s) ∧
    (∀ c : Zh1Conn, g₁.srv.detaches c.history (h1Request g₁ c) = false →
      ((h1Finish g₁ c).2.out = c.out.append (h1Reply g₁ c) ↔ c.req.responded = false)) ∧
    (∀ (c : Zh2Conn) (id : Nat) (st : Zh2Stream), findStream c id = some st →
      st.dispatched = false →
      ((h2Dispatch g₂ c id).out = c.out.append ((h2Reply g₂ c st).map Frame.bytes).flatten ↔
        st.responded = false)) ∧
    (∀ (history : List HttpReq) (st : Zh3Stream), st.Ready →
      ((h3MaybeDispatch g₃ history st).out = st.out ++ h3Reply g₃ history st ↔
        st.req.responded = false)) ∧
    (∀ c : Zh2Conn, Run g₂ c →
      ∀ st ∈ c.streams, st.dispatched = false → st.responded = false) ∧
    (∀ (id : Nat) (isUni : Bool) (passes : List H3Pass),
      ∀ req ∈ (h3Run g₃ (h3StreamNew id isUni) passes).log, req.responded = false) := by
  refine ⟨fun srv req date fn s call h => zcioHttpRespond_rejected srv req date fn h,
    h1Finish_one g₁, fun c id st hst hdisp => h2Dispatch_one g₂ hst hdisp,
    fun history st hst => h3MaybeDispatch_one g₃ history hst,
    fun c h st hst hdisp => h.unanswered hst hdisp, fun id isUni passes req hreq => ?_⟩
  exact ((h3Run_requests g₃ id isUni passes).log req hreq).unanswered

theorem dispatch_queues_one_plainGet :
    let c := (feedSteps H1Cfg.silent 3 ⟨zh1New, plainGet, 0⟩).c
    c.req.path = some (str "/") ∧
      (h1Finish H1Cfg.silent c).2.out = c.out.append (h1Reply H1Cfg.silent c) := by
  refine ⟨by decide +kernel, ?_⟩
  have hone := (dispatch_queues_one H1Cfg.silent H2Cfg.silent H3Cfg.silent).2.1
    (feedSteps H1Cfg.silent 3 ⟨zh1New, plainGet, 0⟩).c (by decide +kernel)
  exact hone.mpr (by decide +kernel)

/-- Fed again behind a response that closed the connection, HTTP/1.1 dispatches the request
once more, and nothing is queued. -/
theorem dispatch_queues_none_closing :
    let r := H1Run.run H1Cfg.silent {} [.feed closingRequest]
    let r' := r.step H1Cfg.silent (.feed [])
    r'.c.log.length = r.c.log.length + 1 ∧ r'.c.out = r.c.out := by
  decide +kernel

end Zcio
