import Zcio.H1.Answer
import Zcio.H1.Bodiless

/-!
# Zcio.H1.Sized

A request whose body is framed by its length, or that has none, in any segmentation: as long as it
is not whole the connection waits, so that the feeds of its parts end as one feed of the whole
(`feedAll_message`). Only chunk-size lines can be cut short.
-/

namespace Zcio

variable (g : H1Cfg)

/-! ### The parts of a message

A message cut within its head or within its body is waited for. -/

/-- The head on the wire. -/
def H1Message.headBytes (m : H1Message) : Bytes :=
  m.line ++ crlf ++ (fieldLines (m.fields.map (·.text)) ++ crlf)

theorem H1Message.bytes_head (m : H1Message) : m.bytes = m.headBytes ++ m.body.bytes := by
  simp only [H1Message.bytes, headBytes, List.append_assoc]

variable {g} {m : H1Message}

/-- **A whole head** is read to its end. -/
theorem feedLoop_head (hm : m.Valid g.lim) (hr : g.redirect = false) (k : Nat) (out : ZhsBuf)
    (log : List H1Dispatch) (y : Bytes) (d : Nat) :
    ∃ c : Zh1Conn, feedLoop g ⟨idleConn k out log, m.headBytes ++ y, d⟩ =
      feedLoop g ⟨behindHead m c, y, d⟩ := by
  have hhead := hm.head
  simp only [List.length_append] at hhead
  have hcrlf : crlf.length = 2 := rfl
  have hsplit : m.headBytes ++ y =
      m.line ++ crlf ++ (fieldLines (m.fields.map (·.text)) ++ (crlf ++ y)) := by
    simp only [H1Message.headBytes, List.append_assoc]
  rw [hsplit, feedLoop_next g d (h1Round_reqline g (c := idleConn k out log) rfl hm
    (by simp only [idleConn]; omega) _)]
  generalize hc₁ : acceptLine (idleConn k out log) (m.line.length + 2) m.http10 m.method m.target
    (m.pathQuery g.lim).1 (m.pathQuery g.lim).2 = c₁
  have hst₁ : c₁.state = .headers := by rw [← hc₁]; rfl
  have hhb₁ : c₁.headBytes = m.line.length + 2 := by
    rw [← hc₁]
    simp [acceptLine, idleConn]
  have hreq₁ : c₁.req.headers = {} := by rw [← hc₁]; rfl
  obtain ⟨hfields, hv⟩ := feedLoop_fields g hst₁ m.fields hm.fields
    (by rw [hreq₁]; simpa using hm.count) (by rw [hreq₁]; simpa using hm.cost)
    (by rw [hhb₁]; omega) (crlf ++ y) d
  rw [hfields]
  generalize hc₂ : storeFields g.lim c₁ m.fields = c₂
  have hv₂ : c₂.req.headers.v = m.fields.map FieldLine.stored := by
    rw [← hc₂]
    simp only [storeFields]
    rw [hv, hreq₁]
    rfl
  have h10₂ : c₂.isHttp10 = m.http10 := by rw [← hc₂, ← hc₁]; rfl
  have hst₂ : c₂.state = .headers := by rw [← hc₂]; exact hst₁
  have hhb₂ : 2 ≤ g.lim.maxHeaderBytes - c₂.headBytes := by
    rw [← hc₂]
    simp only [storeFields, hhb₁]
    omega
  exact ⟨c₂, feedLoop_next g d (h1Round_headEnd g hst₂ hm hr hv₂ h10₂ hhb₂ y)⟩

/-- A head cut short: the connection waits. -/
theorem feedLoop_head_cut (hm : m.Valid g.lim) (k : Nat) (out : ZhsBuf) (log : List H1Dispatch)
    {a y : Bytes} (hcut : a ++ y = m.headBytes) (hy : y ≠ []) (d : Nat) :
    (feedLoop g ⟨idleConn k out log, a, d⟩).rc.stops = false := by
  have hhead := hm.head
  have hlf : LF ∉ m.line ++ [CR] := List.not_mem_append (hm.line_lf) (by decide)
  have hsplit : a ++ y = (m.line ++ [CR]) ++ LF :: (fieldLines (m.fields.map (·.text)) ++ crlf) := by
    rw [hcut, H1Message.headBytes]
    simp
  have hlen : a.length ≤ g.lim.maxHeaderBytes := by
    have hle : (a ++ y).length ≤ g.lim.maxHeaderBytes := by
      rw [hcut, H1Message.headBytes]
      simpa using hhead
    rw [List.length_append] at hle
    omega
  obtain ha | ⟨b, rfl, hb⟩ := cut_line hlf hsplit
  · obtain ⟨c', hround, -⟩ := h1Round_reqline_wait g (c := idleConn k out log) rfl ha hlen
    exact (feedLoop_wait g hround d).2
  simp only [List.length_append, List.length_cons, List.length_nil] at hhead
  have hround := h1Round_reqline g (c := idleConn k out log) rfl hm (by simp only [idleConn]; omega) b
  rw [show m.line ++ [CR] ++ LF :: b = m.line ++ crlf ++ b by simp, feedLoop_next g d hround]
  refine (feedLoop_fields_cut g hm.fields ?_ hy hb ?_ ?_ ?_ d).2
  · rfl
  · simpa [acceptLine, idleConn] using hm.count
  · simpa [acceptLine, idleConn] using hm.cost
  · simp only [acceptLine, idleConn, List.length_append, List.length_cons, List.length_nil]
    omega

/-- A body that is not in chunks. -/
def H1Body.sized : H1Body → Bool
  | .chunked _ _ _ _ => false
  | _ => true

/-- A body cut short. -/
theorem feedLoop_body_cut (hsized : m.body.sized = true) (c : Zh1Conn) {b y : Bytes}
    (hcut : b ++ y = m.body.bytes) (hy : y ≠ []) (d : Nat) :
    (feedLoop g ⟨behindHead m c, b, d⟩).rc.stops = false := by
  cases hbody : m.body with
  | none =>
    rw [hbody] at hcut
    exact absurd (List.append_eq_nil_iff.mp hcut).2 hy
  | length body =>
    rw [hbody] at hcut
    have hbytes : b ++ y = body := hcut
    have hshort : b.length < body.length := by
      have hpos := List.length_pos_iff.mpr hy
      rw [← hbytes, List.length_append]
      omega
    have hround : h1Round g (behindHead m c) b = h1BodyCl (behindHead m c) b := by
      simp [h1Round, behindHead, hbody]
    have hleft : (behindHead m c).clRemaining = body.length := by simp [behindHead, hbody]
    rw [h1BodyCl_eq (by rw [hleft]; omega), hleft, if_neg (by omega)] at hround
    exact (feedLoop_wait g hround d).2
  | chunked chunks lastSize lastExt trailer =>
    rw [hbody] at hsized
    cases hsized

/-- **A message cut short**: the connection waits for the rest of it. -/
theorem feedLoop_cut (hm : m.Valid g.lim) (hr : g.redirect = false) (hsized : m.body.sized = true)
    (k : Nat) (out : ZhsBuf) (log : List H1Dispatch) {a y : Bytes} (hcut : a ++ y = m.bytes)
    (hy : y ≠ []) (d : Nat) : (feedLoop g ⟨idleConn k out log, a, d⟩).rc.stops = false := by
  have hparts : (∃ s, a ++ s = m.headBytes ∧ s ≠ []) ∨
      ∃ b, a = m.headBytes ++ b ∧ b ++ y = m.body.bytes := by
    rw [H1Message.bytes_head] at hcut
    obtain ⟨s, hs, hbody⟩ | ⟨b, hb, hbody⟩ := List.append_eq_append_iff.mp hcut
    · by_cases hnil : s = []
      · subst hnil
        exact .inr ⟨[], by rw [hs, List.append_nil, List.append_nil], hbody⟩
      · exact .inl ⟨s, hs.symm, hnil⟩
    · exact .inr ⟨b, hb, hbody.symm⟩
  obtain ⟨s, hs, hnil⟩ | ⟨b, rfl, hb⟩ := hparts
  · exact feedLoop_head_cut hm k out log hs hnil d
  · obtain ⟨c, hrun⟩ := feedLoop_head hm hr k out log b d
    rw [hrun]
    exact feedLoop_body_cut hsized c hb hy d

/-! ### Segments

A message that comes in any segments is answered with its last octet. -/

/-- **Where no front of a stream stops the parser**, the feeds of its parts end as one feed. -/
theorem feedAll_waits {c : Zh1Conn} {s : Bytes}
    (hwait : ∀ a y, a ++ y = s → y ≠ [] → (zh1Feed g c a).rc.stops = false) (segs : List Bytes) :
    ∀ a, a ++ segs.flatten = s → (zh1Feed g c a).rc.stops = false →
      (feedAll g (zh1Feed g c a).c (zh1Feed g c a).inp segs).Same (zh1Feed g c s) := by
  induction segs with
  | nil =>
    intro a ha hstop
    rw [List.flatten_nil, List.append_nil] at ha
    subst ha
    exact ⟨hstop.symm, rfl, rfl⟩
  | cons x xs ih =>
    intro a ha hstop
    have hsame : (zh1Feed g (zh1Feed g c a).c ((zh1Feed g c a).inp ++ x)).Same (zh1Feed g c (a ++ x)) :=
      feedLoop_resume g ⟨c, a, 0⟩ hstop x 0 0
    rw [List.flatten_cons, ← List.append_assoc] at ha
    rw [feedAll]
    by_cases hlast : (zh1Feed g c (a ++ x)).rc.stops = true
    · rw [if_pos (hsame.1.trans hlast)]
      have hnil : xs.flatten = [] := by
        by_contra hne
        rw [hwait (a ++ x) _ ha hne] at hlast
        cases hlast
      rw [hnil, List.append_nil] at ha
      rwa [ha] at hsame
    · rw [if_neg (by rwa [hsame.1]), hsame.2.1, hsame.2.2]
      exact ih (a ++ x) ha (Bool.eq_false_of_not_eq_true hlast)

theorem zh1Feed_idle_nil (k : Nat) (out : ZhsBuf) (log : List H1Dispatch) :
    zh1Feed g (idleConn k out log) [] = ⟨.needMore, idleConn k out log, []⟩ := by
  have hround : h1Round g (idleConn k out log) [] = ⟨.more, idleConn k out log, []⟩ := by
    simp only [h1Round, idleConn, h1Reqline, h1Budgeted_wait g (List.not_mem_nil) (Nat.zero_le _)]
    rfl
  refine feedLoop_of_inr g ?_
  simp only [feedStep, feedNext, hround]
  rfl

/-- A message in any segmentation, on a connection between requests. -/
theorem feedAll_message (hm : m.Valid g.lim) (hr : g.redirect = false) (hsized : m.body.sized = true)
    (k : Nat) (out : ZhsBuf) (log : List H1Dispatch) {segs : List Bytes} (hsegs : segs.flatten = m.bytes) :
    (feedAll g (idleConn k out log) [] segs).Same (zh1Feed g (idleConn k out log) m.bytes) := by
  have h := feedAll_waits (g := g) (c := idleConn k out log) (s := m.bytes)
    (fun a y ha hy => feedLoop_cut hm hr hsized k out log ha hy 0) segs [] hsegs
    (by rw [zh1Feed_idle_nil]; rfl)
  rwa [zh1Feed_idle_nil] at h

/-! ### The response -/

/-- The octets of the response to `req`, given the requests before it. -/
def replyTo (g : H1Cfg) (close : Bool) (history : List HttpReq) (req : HttpReq) : Bytes :=
  let call := g.srv.answer history req
  h1ResponseBytes req.isHead close call.status.toNat
    (finalHeaders g.srv req.secure (g.srv.date history.length) call.headers) call.body

/-- The request that reaches the cap is the last one of its connection. -/
def lastOf (g : H1Cfg) (k : Nat) : Bool := decide (k + 1 ≥ g.lim.maxRequestsPerConn)

/-- What a message does to a connection between requests: it is dispatched and answered, and the
connection is ready for the next one unless this was the last. -/
structure Answers (g : H1Cfg) (k : Nat) (out : ZhsBuf) (log : List H1Dispatch) (m : H1Message) (c : Zh1Conn) :
    Prop where
  logged : c.log = log ++ [{ no := k + 1, http10 := m.http10, req := m.request g }]
  queued : c.out = out.append (replyTo g (lastOf g k) (log.map (·.req)) (m.request g))
  idle : lastOf g k = false → c = idleConn (k + 1) c.out c.log

theorem zh1Feed_answers (hm : m.Valid g.lim) (hr : g.redirect = false)
    (hd : ∀ history req, g.srv.detaches history req = false) (k : Nat) (out : ZhsBuf)
    (log : List H1Dispatch)
    (hout : out.len + (replyTo g (lastOf g k) (log.map (·.req)) (m.request g)).length ≤ g.lim.maxOutBytes) :
    Answers g k out log m (zh1Feed g (idleConn k out log) m.bytes).c := by
  cases hlast : lastOf g k with
  | false =>
    rw [hlast] at hout
    have hcap : k + 1 < g.lim.maxRequestsPerConn := by simpa [lastOf] using hlast
    have hrun := @feedLoop_message g k out log _ hm hr hd hcap hout [] 0
    rw [List.append_nil] at hrun
    have hidle := @zh1Feed_idle_nil g (k + 1) (out.append (response g (log.map (·.req)) (m.request g)))
      (log ++ [{ no := k + 1, http10 := m.http10, req := m.request g }])
    have hc : (zh1Feed g (idleConn k out log) m.bytes).c =
        idleConn (k + 1) (out.append (response g (log.map (·.req)) (m.request g)))
          (log ++ [{ no := k + 1, http10 := m.http10, req := m.request g }]) := by
      rw [zh1Feed, hrun, (feedLoop_counter g _ _ _ 0).2.1]
      exact congrArg FeedRes.c hidle
    rw [hc]
    exact ⟨rfl, by rw [hlast]; rfl, fun _ => rfl⟩
  | true =>
    obtain ⟨c₀, inp₀, c, hrun, hround, hreq, h10, hka, hgr, hca, hrc, hout₀, hlog, hno, -⟩ :=
      @feedLoop_parsed g k out log m hm hr [] 0
    rw [List.append_nil] at hrun
    have hrequest := h1Request_parsed g hreq h10
    have hhist : c.history = log.map (·.req) := by rw [Zh1Conn.history, hlog]
    have hclose : h1CloseConn g c = true := by
      have hcap : k + 1 ≥ g.lim.maxRequestsPerConn := by simpa [lastOf] using hlast
      rw [h1CloseConn, hrc, decide_eq_true hcap, Bool.or_true]
    obtain ⟨hatt, hbytes, hafter⟩ := h1Finish_unanswered g (c := c) (by rw [hreq]; rfl) (hd _ _)
    rw [hclose, Bool.true_or] at hafter
    obtain ⟨out', closeAfter, responded, reqCount, -, hfinish⟩ := h1Finish_eq g c
    have hc : (zh1Feed g (idleConn k out log) m.bytes).c = (h1Finish g c).2 := by
      rw [zh1Feed, hrun, feedLoop_step]
      simp only [feedStep, hround, feedNext, hatt, hafter]
      rfl
    rw [hc]
    refine ⟨?_, ?_, fun hno => by rw [hlast] at hno; cases hno⟩
    · rw [hfinish]
      dsimp only
      rw [hlog, hno, h10, hrequest]
    · rw [hbytes, hout₀, hlast, h1Reply, hclose, hhist, ← hrequest]
      rfl

end Zcio
