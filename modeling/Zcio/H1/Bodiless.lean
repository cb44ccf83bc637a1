import Zcio.H1.Framing
import Zcio.H1.Segment

/-!
# Zcio.H1.Bodiless

A request without a body, in any segmentation. As long as its head is not whole the connection
waits within it, so that no read is refused for the way in which the request was cut, and the
request is dispatched once, whatever the handler does with it.
-/

namespace Zcio

variable (g : H1Cfg)

/-- A round that asks for more ends the feed. -/
theorem feedLoop_wait {c c' : Zh1Conn} {a inp : Bytes} (hround : h1Round g c a = ⟨.more, c', inp⟩) (d : Nat) :
    (feedLoop g ⟨c, a, d⟩).c = c' ∧ (feedLoop g ⟨c, a, d⟩).rc.stops = false := by
  have hstep : feedStep g ⟨c, a, d⟩ = .inr ⟨if d > 0 then .dispatched else .needMore, c', inp⟩ := by
    simp only [feedStep, feedNext, hround]
  rw [feedLoop_of_inr g hstep]
  refine ⟨rfl, ?_⟩
  dsimp only
  split
  · rfl
  · rfl

/-! ### The head cut short

A head that is not complete leaves the parser waiting. -/

theorem h1Round_headers_wait {c : Zh1Conn} (hst : c.state = .headers) {a : Bytes} (ha : LF ∉ a)
    (hlen : a.length ≤ g.lim.maxHeaderBytes) : h1Round g c a = ⟨.more, c, a⟩ := by
  rw [h1Round_headers g hst, h1Budgeted_wait g ha hlen]
  rfl

/-- Within the field lines the connection waits for more of them. -/
theorem feedLoop_fields_cut {fs : List FieldLine} (hfs : ∀ f ∈ fs, f.Ok) :
    ∀ {c : Zh1Conn} {a y : Bytes}, c.state = .headers → y ≠ [] →
      a ++ y = fieldLines (fs.map (·.text)) ++ crlf →
      c.req.headers.v.length + fs.length ≤ g.lim.maxHeaders →
      c.req.headers.bytes + (fs.map FieldLine.cost).sum ≤ ZhsHdrs.byteCap g.lim →
      c.headBytes + (fieldLines (fs.map (·.text)) ++ crlf).length ≤ g.lim.maxHeaderBytes →
      ∀ d, (feedLoop g ⟨c, a, d⟩).c.state = .headers ∧ (feedLoop g ⟨c, a, d⟩).rc.stops = false := by
  -- in front of the LF there is no line
  have hwait : ∀ {c : Zh1Conn} {a y s : Bytes}, c.state = .headers → LF ∉ a → a ++ y = s →
      c.headBytes + s.length ≤ g.lim.maxHeaderBytes →
      ∀ d, (feedLoop g ⟨c, a, d⟩).c.state = .headers ∧ (feedLoop g ⟨c, a, d⟩).rc.stops = false := by
    intro c a y s hst ha hcut hlen d
    have hle : a.length ≤ g.lim.maxHeaderBytes := by
      rw [← hcut, List.length_append] at hlen
      omega
    obtain ⟨hc, hrc⟩ := feedLoop_wait g (h1Round_headers_wait g hst ha hle) d
    exact ⟨by rw [hc, hst], hrc⟩
  induction fs with
  | nil =>
    intro c a y hst hy hcut _ _ hlen d
    obtain ha | ⟨b, -, hb⟩ := cut_line (l := [CR]) (by decide) hcut
    · exact hwait hst ha hcut hlen d
    · exact absurd (List.append_eq_nil_iff.mp hb).2 hy
  | cons f fs ih =>
    intro c a y hst hy hcut hn hcost hlen d
    have hf := hfs f List.mem_cons_self
    have hlf : LF ∉ f.text ++ [CR] := List.not_mem_append hf.lf (by decide)
    have hsplit : a ++ y = (f.text ++ [CR]) ++ LF :: (fieldLines (fs.map (·.text)) ++ crlf) := by
      rw [hcut]
      simp [fieldLines_cons]
    obtain ha | ⟨b, rfl, hb⟩ := cut_line hlf hsplit
    · exact hwait hst ha hcut hlen d
    rw [show f.text ++ [CR] ++ LF :: b = f.text ++ crlf ++ b by simp]
    simp only [List.map_cons, fieldLines_cons, List.length_cons, List.sum_cons, List.length_append,
      List.length_nil] at hn hcost hlen
    obtain ⟨headers, hadd, hv, hbytes⟩ := add_field g.lim hf (h := c.req.headers)
      (by omega) (by omega) (by omega)
    rw [feedLoop_next g d (h1Round_field g hst hf (by omega) hadd b)]
    refine ih (fun x hx => hfs x (List.mem_cons_of_mem _ hx)) ?_ hy hb ?_ ?_ ?_ d
    · exact hst
    · dsimp only
      rw [hv, List.length_append, List.length_singleton]
      omega
    · dsimp only
      rw [hbytes]
      omega
    · simp only [List.length_append, List.length_cons, List.length_nil]
      omega

theorem h1Round_reqline_wait {c : Zh1Conn} (hst : c.state = .reqline) {a : Bytes} (ha : LF ∉ a)
    (hlen : a.length ≤ g.lim.maxHeaderBytes) :
    ∃ c', h1Round g c a = ⟨.more, c', a⟩ ∧ c'.state = .reqline := by
  simp only [h1Round, hst, h1Reqline, h1Budgeted_wait g ha hlen]
  refine ⟨_, rfl, ?_⟩
  split
  · rfl
  · exact hst

/-- A bodiless message cut short: the connection waits within the head. -/
theorem zh1Feed_cut {m : H1Message} (hm : m.Valid g.lim) (hbody : m.body = .none) {a y : Bytes}
    (hcut : a ++ y = m.bytes) (hy : y ≠ []) :
    ((zh1Feed g zh1New a).c.state = .reqline ∨ (zh1Feed g zh1New a).c.state = .headers) ∧
      (zh1Feed g zh1New a).rc.stops = false := by
  have hhead := hm.head
  have hlf : LF ∉ m.line ++ [CR] := List.not_mem_append (hm.line_lf) (by decide)
  have hbytes : m.bytes = m.line ++ crlf ++ (fieldLines (m.fields.map (·.text)) ++ crlf) := by
    simp [H1Message.bytes, hbody, H1Body.bytes]
  have hsplit : a ++ y = (m.line ++ [CR]) ++ LF :: (fieldLines (m.fields.map (·.text)) ++ crlf) := by
    rw [hcut, hbytes]
    simp
  have hlen : a.length ≤ g.lim.maxHeaderBytes := by
    have hle : (a ++ y).length ≤ g.lim.maxHeaderBytes := by
      rw [hcut, hbytes]
      simpa using hhead
    rw [List.length_append] at hle
    omega
  obtain ha | ⟨b, rfl, hb⟩ := cut_line hlf hsplit
  · obtain ⟨c', hround, hst⟩ := h1Round_reqline_wait g (c := zh1New) rfl ha hlen
    obtain ⟨hc, hrc⟩ := feedLoop_wait g hround 0
    exact ⟨.inl (by rw [zh1Feed, hc, hst]), hrc⟩
  simp only [List.length_append, List.length_cons, List.length_nil] at hhead
  have hround := h1Round_reqline g (c := zh1New) rfl hm (by simp only [zh1New]; omega) b
  have hcost := hm.cost
  obtain ⟨hst, hrc⟩ := feedLoop_fields_cut g hm.fields
    (c := acceptLine zh1New (m.line.length + 2) m.http10 m.method m.target (m.pathQuery g.lim).1
      (m.pathQuery g.lim).2) rfl hy hb (by simpa [acceptLine, zh1New] using hm.count)
    (by simpa [acceptLine, zh1New] using hm.cost)
    (by simp only [acceptLine, zh1New, List.length_append, List.length_cons, List.length_nil]; omega) 0
  rw [zh1Feed, show m.line ++ [CR] ++ LF :: b = m.line ++ crlf ++ b by simp, feedLoop_next g 0 hround]
  exact ⟨.inr hst, hrc⟩

/-! ### Whole

A message without a body is dispatched with the empty line. -/

/-- The dispatch of the first message of a connection. -/
def H1Message.dispatch (g : H1Cfg) (m : H1Message) : H1Dispatch :=
  { no := 1, http10 := m.http10, req := m.request g }

/-- A message that is read at once is dispatched once, whatever the handler does. -/
theorem zh1Feed_message {m : H1Message} (hm : m.Valid g.lim) (hr : g.redirect = false) :
    (zh1Feed g zh1New m.bytes).c.log = [m.dispatch g] := by
  obtain ⟨c₀, inp₀, c, hrun, hround, hreq, h10, -, -, -, -, -, hlog, hno, -⟩ :=
    @feedLoop_parsed g 0 {} [] m hm hr [] 0
  rw [List.append_nil] at hrun
  obtain ⟨out, closeAfter, responded, reqCount, -, hfinish⟩ := h1Finish_eq g c
  have hdispatch : (h1Finish g c).2.log = [m.dispatch g] := by
    rw [hfinish]
    dsimp only
    rw [hlog, hno, h10, h1Request_parsed g hreq h10]
    rfl
  rw [zh1Feed, show zh1New = idleConn 0 {} [] from rfl, hrun, feedLoop_step]
  simp only [feedStep, hround, feedNext]
  by_cases hdetached : (!(h1Finish g c).1) = true
  · simp only [if_pos hdetached]
    exact hdispatch
  simp only [if_neg hdetached]
  by_cases hclose : (h1Finish g c).2.closeAfter = true
  · simp only [if_pos hclose]
    exact hdispatch
  simp only [if_neg hclose]
  -- the connection waits for a further request
  have hwait : h1Round g (h1ResetNext (h1Finish g c).2) [] = ⟨.more, h1ResetNext (h1Finish g c).2, []⟩ := by
    simp only [h1Round, h1ResetNext, h1Reqline, h1Budgeted_wait g (List.not_mem_nil) (Nat.zero_le _)]
    rfl
  rw [(feedLoop_wait g hwait _).1]
  exact hdispatch

/-- **In any segmentation.** A message without a body is dispatched once, however the stream
splits it. -/
theorem feedSegments_message {m : H1Message} (hm : m.Valid g.lim) (hr : g.redirect = false)
    (hbody : m.body = .none) {segs : List Bytes} (hsegs : segs.flatten = m.bytes) :
    (feedSegments g segs).c.log = [m.dispatch g] := by
  obtain ⟨hlog, -⟩ | ⟨b, y, hsplit, hcut⟩ := feedSegments_cases g segs
  · rw [hlog, hsegs]
    exact zh1Feed_message g hm hr
  · -- no cut of the head stands in front of a chunk-size line
    obtain ⟨a, line, rest, rfl, rfl, -, -, ⟨-, -, hstate⟩, -, -⟩ := hcut
    have hprefix : a ++ (line ++ [CR] ++ LF :: rest) = m.bytes := by
      rw [← hsegs, hsplit]
      simp
    obtain ⟨hst | hst, -⟩ := zh1Feed_cut g hm hbody hprefix (by simp)
    · rw [hst] at hstate
      cases hstate
    · rw [hst] at hstate
      cases hstate

end Zcio
