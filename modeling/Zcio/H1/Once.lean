import Zcio.H1.Move

/-!
# Zcio.H1.Once

How often the handler sees a request over the whole life of a connection. The event loop
feeds a connection again and again, also while the output of one that answered `ZH1_CLOSE`
drains. Up to there every accepted request is dispatched once, in order. `zh1_feed_` does
not remember that it closed, though: when the last response closes the connection the
parser is left in the stage that completed the request, and the next feed completes it once
more.
-/

namespace Zcio

variable (g : H1Cfg)

/-! ### Runs

Feeds, drains and calls of the graceful shutdown, in any order. -/

/-- What the event loop does with a connection. -/
inductive H1Event where
  /-- Octets arrived (none, on an iteration that only drains output); feed them. -/
  | feed (x : Bytes)
  /-- `n` octets of output were written. -/
  | drain (n : Nat)
  /-- `zh1_graceful_`. -/
  | graceful
  deriving Repr, DecidableEq

/-- A connection with its input buffer. -/
structure H1Run where
  c : Zh1Conn := zh1New
  inp : Bytes := []
  deriving Repr, DecidableEq

/-- One event. -/
def H1Run.step (r : H1Run) : H1Event → H1Run
  | .feed x =>
    let f := zh1Feed g r.c (r.inp ++ x)
    ⟨f.c, f.inp⟩
  | .drain n => { r with c := { r.c with out := r.c.out.consume n } }
  | .graceful => { r with c := { r.c with graceful := true } }

/-- A run from `r`. -/
def H1Run.run (r : H1Run) (evs : List H1Event) : H1Run := evs.foldl (H1Run.step g) r

/-- Every accepted request was dispatched once, in order. -/
def OnceEach (c : Zh1Conn) : Prop := c.log.map (·.no) = List.range' 1 c.log.length

/-- The event feeds a connection whose last response closed it, and the parser still
stands where it completed that request: behind a body, or in a trailer section that the
buffered input completes. -/
def FedAgain (r : H1Run) : H1Event → Prop
  | .feed x => r.c.closeAfter = true ∧
      (r.c.state = .bodyCl ∨ (r.c.state = .trailer ∧
        TrailerEnds (g.lim.maxHeaderBytes - r.c.headBytes) (r.inp ++ x)))
  | _ => False

/-! ### The invariant

Requests are handed over in the order of their numbers, and a request that was answered is
not fed again. -/

/-- The connection goes on: the requests so far are dispatched, one may be in progress. -/
def Live (c : Zh1Conn) : Prop :=
  c.closeAfter = false ∧ c.reqNo = c.log.length + if c.state = .reqline then 0 else 1

/-- The last response closed the connection. -/
def Answered (c : Zh1Conn) : Prop :=
  c.closeAfter = true ∧ c.reqNo = c.log.length ∧
    ((c.state = .bodyCl ∧ c.clRemaining = 0) ∨ c.state = .trailer)

/-- Between events. -/
def OnceInv (c : Zh1Conn) : Prop :=
  OnceEach c ∧ (c.state = .dead ∨ Live c ∨ Answered c)

/-- Between rounds of a feed. -/
def Feeding (c : Zh1Conn) : Prop := OnceEach c ∧ (c.state = .dead ∨ Live c)

theorem h1Framing_frame {c c' : Zh1Conn} (h : h1Framing g c = .ok c') :
    c'.log = c.log ∧ c'.closeAfter = c.closeAfter ∧ c'.reqNo = c.reqNo ∧
      (c'.state = .chunkSize ∨ c'.state = .bodyCl) := by
  unfold h1Framing at h
  dsimp only at h
  split at h
  · cases h
  · split at h
    · cases h
    · split at h
      · split at h
        · cases h
        · cases h; exact ⟨rfl, rfl, rfl, .inl rfl⟩
      · split at h
        · split at h
          · cases h
          · cases h; exact ⟨rfl, rfl, rfl, .inr rfl⟩
        · cases h; exact ⟨rfl, rfl, rfl, .inr rfl⟩

theorem h1Authority_frame (c : Zh1Conn) :
    (h1Authority c).log = c.log ∧ (h1Authority c).closeAfter = c.closeAfter ∧
      (h1Authority c).reqNo = c.reqNo := by
  unfold h1Authority
  split <;> exact ⟨rfl, rfl, rfl⟩

/-- A move within a request keeps the log and the decision to close; accepting a request
line starts the next request. -/
theorem H1Move.frame {c c' : Zh1Conn} {code : PCode} (h : H1Move g c code c')
    (hcode : code ≠ .close) :
    c'.log = c.log ∧ c'.closeAfter = c.closeAfter ∧
      (c'.state = c.state ∧ c'.reqNo = c.reqNo ∨
        c.state = .reqline ∧ c'.state = .headers ∧ c'.reqNo = c.reqNo + 1 ∨
        c.state ≠ .reqline ∧ c.state ≠ .dead ∧ c'.state ≠ .reqline ∧ c'.reqNo = c.reqNo) := by
  cases h with
  | close => exact absurd rfl hcode
  | reqline hst => exact ⟨rfl, rfl, .inr (.inl ⟨hst, rfl, rfl⟩)⟩
  | framed hst hf =>
    obtain ⟨h1, h2, h3, h4⟩ := h1Framing_frame g hf
    obtain ⟨a1, a2, a3⟩ := h1Authority_frame { c with headBytes := c.headBytes + _ }
    refine ⟨h1.trans a1, h2.trans a2, .inr (.inr ⟨by simp [hst], by simp [hst], ?_,
      h3.trans a3⟩)⟩
    rcases h4 with h4 | h4 <;> simp [h4]
  | lastChunk hst => exact ⟨rfl, rfl, .inr (.inr ⟨by simp [hst], by simp [hst], by simp, rfl⟩)⟩
  | chunk hst => exact ⟨rfl, rfl, .inr (.inr ⟨by simp [hst], by simp [hst], by simp, rfl⟩)⟩
  | noData hst => exact ⟨rfl, rfl, .inr (.inr ⟨by simp [hst], by simp [hst], by simp, rfl⟩)⟩
  | chunkEnd hst => exact ⟨rfl, rfl, .inr (.inr ⟨by simp [hst], by simp [hst], by simp, rfl⟩)⟩
  | crlf hst => exact ⟨rfl, rfl, .inr (.inr ⟨by simp [hst], by simp [hst], by simp, rfl⟩)⟩
  | _ => exact ⟨rfl, rfl, .inl ⟨rfl, rfl⟩⟩

theorem onceEach_of_log {c c' : Zh1Conn} (h : c'.log = c.log) (hc : OnceEach c) :
    OnceEach c' := by
  unfold OnceEach at hc ⊢
  rw [h]
  exact hc

/-- Dispatching the request the numbering is at. -/
theorem onceEach_append {c c' : Zh1Conn} {d : H1Dispatch} (h : c'.log = c.log ++ [d])
    (hc : OnceEach c) : OnceEach c' ↔ d.no = c.log.length + 1 := by
  unfold OnceEach at hc ⊢
  rw [h]
  simp only [List.map_append, List.map_cons, List.map_nil, List.length_append,
    List.length_singleton, List.range'_concat, hc, Nat.one_mul]
  rw [List.append_cancel_left_eq, List.singleton_inj]
  omega

theorem feeding_move {c c' : Zh1Conn} {code : PCode} (hi : Feeding c) (h : H1Move g c code c')
    (hcode : code ≠ .close) : Feeding c' := by
  obtain ⟨hlog, hclose, hst⟩ := h.frame g hcode
  refine ⟨onceEach_of_log hlog hi.1, ?_⟩
  rcases hi.2 with hdead | ⟨hc, hno⟩
  · left
    rcases hst with ⟨hst, -⟩ | ⟨hst, -⟩ | ⟨-, hst, -⟩
    · rw [hst, hdead]
    · rw [hdead] at hst; cases hst
    · exact absurd hdead hst
  · right
    refine ⟨hclose.trans hc, ?_⟩
    rw [hlog]
    rcases hst with ⟨hst, hn⟩ | ⟨hst, hst', hn⟩ | ⟨hst, -, hst', hn⟩
    · rw [hn, hst, hno]
    · rw [hn, hno, hst, hst']; rfl
    · rw [hn, hno, if_neg hst, if_neg hst']

/-- The stages in which a request completes. -/
theorem H1Move.complete_state {c c' : Zh1Conn} (h : H1Move g c .complete c') :
    c'.state = c.state ∧ ((c'.state = .bodyCl ∧ c'.clRemaining = 0) ∨ c'.state = .trailer) := by
  cases h with
  | noBody hst h0 => exact ⟨rfl, .inl ⟨hst, h0⟩⟩
  | bodyEnd hst => exact ⟨rfl, .inl ⟨hst, rfl⟩⟩
  | trailerEnd hst => exact ⟨rfl, .inr hst⟩

/-- A completed request is dispatched under its own number. -/
theorem feeding_complete {c c' : Zh1Conn} (hi : Feeding c) (h : H1Move g c .complete c') :
    Feeding c' ∧ c'.closeAfter = false ∧ c'.reqNo = c'.log.length + 1 := by
  have hf := feeding_move g hi h (by simp)
  obtain ⟨-, hst⟩ := h.complete_state g
  rcases hf.2 with hdead | ⟨hc, hno⟩
  · rw [hdead] at hst
    simp at hst
  · refine ⟨hf, hc, ?_⟩
    rw [hno, if_neg]
    rcases hst with ⟨hst, -⟩ | hst <;> simp [hst]

/-- A feed of a connection that goes on, or is dead. -/
theorem feedLoop_once (hd : ∀ history req, g.srv.detaches history req = false) {s : FeedSt}
    (hs : Feeding s.c) : OnceInv (feedLoop g s).c := by
  refine feedLoop_inv g (I := Feeding) (Q := OnceInv) ?_ ?_ ?_ ?_ ?_ hs
  · intro c c' hi h
    exact feeding_move g hi h (by simp)
  · intro c c' hi h
    obtain ⟨honce, hst⟩ := feeding_move g hi h (by simp)
    exact ⟨honce, hst.imp_right .inl⟩
  · intro c c' hi h
    cases h with
    | close hst hlog => exact ⟨onceEach_of_log hlog hi.1, .inl hst⟩
  · intro c c' hi h hstop
    obtain ⟨hf, -, hno⟩ := feeding_complete g hi h
    obtain ⟨-, hst⟩ := h.complete_state g
    obtain ⟨out, closeAfter, responded, reqCount, -, heq⟩ := h1Finish_eq g c'
    rw [heq] at hstop ⊢
    have hclose : closeAfter = true := by simpa [hd] using hstop
    refine ⟨(onceEach_append rfl hf.1).mpr hno, .inr (.inr ⟨hclose, ?_, hst⟩)⟩
    simp only [List.length_append, List.length_singleton]
    exact hno
  · intro c c' hi h _ hclose
    obtain ⟨hf, -, hno⟩ := feeding_complete g hi h
    obtain ⟨out, closeAfter, responded, reqCount, -, heq⟩ := h1Finish_eq g c'
    rw [heq] at hclose ⊢
    refine ⟨(onceEach_append rfl hf.1).mpr hno, .inr ⟨hclose, ?_⟩⟩
    simp only [h1ResetNext, List.length_append, List.length_singleton]
    exact hno

/-! ### Feeding after the last response

A connection that has sent its last response still reads what it is fed. -/

/-- In the trailer section of an answered request, input that does not complete the
section does no harm. -/
theorem feedLoop_answered {s : FeedSt} (honce : OnceEach s.c) (ha : Answered s.c)
    (hst : s.c.state = .trailer)
    (hends : ¬TrailerEnds (g.lim.maxHeaderBytes - s.c.headBytes) s.inp) :
    OnceInv (feedLoop g s).c := by
  refine feedLoop_induct g (P := fun s r => OnceEach s.c → Answered s.c → s.c.state = .trailer →
    ¬TrailerEnds (g.lim.maxHeaderBytes - s.c.headBytes) s.inp → OnceInv r.c) ?_ ?_ s honce ha
    hst hends
  · intro s r h honce ha hst hends
    simp only [feedStep, h1Round_trailer g hst] at h
    obtain ⟨-, -, hb⟩ | ⟨_, hb⟩ | ⟨text, rest, hinp, hlf, hbud, hb⟩ :=
      h1Budgeted_cases g s.c s.inp id (fun c text rest => chunkStage (h1TrailerText c text rest))
    · rw [hb] at h
      cases h
      exact ⟨honce, .inr (.inr ha)⟩
    · rw [hb] at h
      cases h
      exact ⟨onceEach_of_log rfl honce, .inl rfl⟩
    · rw [hb] at h
      unfold h1TrailerText at h
      by_cases hnil : text = []
      · exact absurd ⟨[], rest, by simp [hinp, hnil, fieldLines], by simp,
          by simpa [hnil, fieldLines] using hbud⟩ hends
      · rw [if_neg hnil] at h
        cases h
  · intro s s' r h ih honce ha hst hends
    simp only [feedStep, h1Round_trailer g hst] at h
    obtain ⟨-, -, hb⟩ | ⟨_, hb⟩ | ⟨text, rest, hinp, hlf, hbud, hb⟩ :=
      h1Budgeted_cases g s.c s.inp id (fun c text rest => chunkStage (h1TrailerText c text rest))
    · rw [hb] at h; cases h
    · rw [hb] at h; cases h
    · rw [hb] at h
      unfold h1TrailerText at h
      by_cases hnil : text = []
      · exact absurd ⟨[], rest, by simp [hinp, hnil, fieldLines], by simp,
          by simpa [hnil, fieldLines] using hbud⟩ hends
      · rw [if_neg hnil] at h
        cases h
        refine ih (onceEach_of_log rfl honce) ⟨ha.1, ha.2.1, ha.2.2⟩ hst ?_
        -- a section that ends behind this line would have ended with it
        rintro ⟨lines, rest', hrest, hl, hlen⟩
        refine hends ⟨text :: lines, rest', ?_, ?_, ?_⟩
        · rw [hinp, fieldLines_cons, show rest = _ from hrest]; simp
        · intro l hm
          rcases List.mem_cons.mp hm with rfl | hm
          · exact ⟨hnil, hlf⟩
          · exact hl l hm
        · simp only [chunkStage] at hlen
          simp [fieldLines_cons, crlf]
          omega

/-- Completing an answered request once more dispatches it once more. -/
theorem feedLoop_again {c : Zh1Conn} {inp : Bytes} {d : Nat} (hclose : c.closeAfter = true)
    {rest : Bytes} {c' : Zh1Conn} (hround : h1Round g c inp = ⟨.complete, c', rest⟩)
    (hc' : c'.closeAfter = c.closeAfter ∧ c'.log = c.log ∧ c'.reqNo = c.reqNo) :
    ∃ disp, (feedLoop g ⟨c, inp, d⟩).c.log = c.log ++ [disp] ∧ disp.no = c.reqNo := by
  obtain ⟨out, closeAfter, responded, reqCount, hmono, heq⟩ := h1Finish_eq g c'
  have hca : closeAfter = true := hmono (hc'.1.trans hclose)
  have hstep : ∃ rc, feedStep g ⟨c, inp, d⟩ = .inr ⟨rc, (h1Finish g c').2, rest⟩ := by
    simp only [feedStep, hround, feedNext, heq, hca, if_true]
    split
    · exact ⟨_, rfl⟩
    · exact ⟨_, rfl⟩
  obtain ⟨rc, hstep⟩ := hstep
  rw [feedLoop_of_inr g hstep, heq]
  exact ⟨_, by rw [hc'.2.1], hc'.2.2⟩

theorem zh1Feed_again {c : Zh1Conn} (inp : Bytes) (ha : Answered c)
    (h : c.state = .bodyCl ∨ (c.state = .trailer ∧
      TrailerEnds (g.lim.maxHeaderBytes - c.headBytes) inp)) :
    ∃ disp, (zh1Feed g c inp).c.log = c.log ++ [disp] ∧ disp.no = c.reqNo := by
  obtain ⟨hclose, -, hst⟩ := ha
  rcases h with h | ⟨h, lines, rest, rfl, hl, hlen⟩
  · have h0 : c.clRemaining = 0 := by
      rcases hst with ⟨-, h0⟩ | hst
      · exact h0
      · rw [h] at hst; cases hst
    have hround : h1Round g c inp = ⟨.complete, c, inp⟩ := by
      simp only [h1Round, h, h1BodyCl, h0, if_true]
    exact feedLoop_again g hclose hround ⟨rfl, rfl, rfl⟩
  · rw [zh1Feed, List.append_assoc, feedLoop_trailerLines g h lines hl (by omega)]
    have hround := h1Round_trailerEnd g
      (c := { c with headBytes := c.headBytes + (fieldLines lines).length }) h
      (by simp only; omega) rest
    exact feedLoop_again g (c := { c with headBytes := _ }) hclose hround ⟨rfl, rfl, rfl⟩

/-! ### Whole runs -/

/-- **One event.** -/
theorem step_once (hd : ∀ history req, g.srv.detaches history req = false) {r : H1Run}
    (hi : OnceInv r.c) (ev : H1Event) :
    (¬FedAgain g r ev → OnceInv (r.step g ev).c) ∧
      (FedAgain g r ev → ¬OnceEach (r.step g ev).c) := by
  cases ev with
  | drain n => exact ⟨fun _ => hi, False.elim⟩
  | graceful => exact ⟨fun _ => hi, False.elim⟩
  | feed x =>
    constructor
    · intro hnot
      rcases hi.2 with hdead | hlive | ha
      · exact feedLoop_once g hd ⟨hi.1, .inl hdead⟩
      · exact feedLoop_once g hd ⟨hi.1, .inr hlive⟩
      · have hst : r.c.state = .trailer := by
          rcases ha.2.2 with ⟨hst, -⟩ | hst
          · exact absurd ⟨ha.1, .inl hst⟩ hnot
          · exact hst
        exact feedLoop_answered g hi.1 ha hst fun hends => hnot ⟨ha.1, .inr ⟨hst, hends⟩⟩
    · rintro ⟨hclose, h⟩
      have ha : Answered r.c := by
        rcases hi.2 with hdead | hlive | ha
        · rw [hdead] at h
          simp at h
        · rw [hlive.1] at hclose; cases hclose
        · exact ha
      obtain ⟨disp, hlog, hno⟩ := zh1Feed_again g (r.inp ++ x) ha h
      intro honce
      have hno' : disp.no = r.c.log.length + 1 := (onceEach_append hlog hi.1).mp honce
      rw [hno, ha.2.1] at hno'
      omega

theorem run_once (hd : ∀ history req, g.srv.detaches history req = false) {r : H1Run}
    (hi : OnceInv r.c) (evs : List H1Event) :
    (∀ pre, pre <+: evs → OnceEach (r.run g pre).c) ↔
      (∀ pre ev, pre ++ [ev] <+: evs → ¬FedAgain g (r.run g pre) ev) := by
  induction evs generalizing r with
  | nil =>
    constructor
    · intro _ pre ev h
      have := h.length_le
      simp at this
    · intro _ pre h
      rw [List.prefix_nil.mp h]
      exact hi.1
  | cons ev evs ih =>
    by_cases hagain : FedAgain g r ev
    · -- both sides fail at this event
      constructor
      · intro h
        have := h [ev] (by simp)
        exact absurd this ((step_once g hd hi ev).2 hagain)
      · intro h
        exact absurd hagain (h [] ev (by simp))
    · have hi' := (step_once g hd hi ev).1 hagain
      have ih := ih hi'
      constructor
      · intro h pre e hpre
        cases pre with
        | nil =>
          obtain rfl : e = ev := by simpa using hpre
          exact hagain
        | cons p pre =>
          rw [List.cons_append, List.cons_prefix_cons] at hpre
          obtain ⟨rfl, hpre⟩ := hpre
          exact ih.mp (fun q hq => h (p :: q) (List.cons_prefix_cons.mpr ⟨rfl, hq⟩)) pre e hpre
      · intro h pre hpre
        cases pre with
        | nil => exact hi.1
        | cons p pre =>
          rw [List.cons_prefix_cons] at hpre
          obtain ⟨rfl, hpre⟩ := hpre
          exact ih.mpr (fun q e hq => h (p :: q) e (by
            rw [List.cons_append]; exact List.cons_prefix_cons.mpr ⟨rfl, hq⟩)) pre hpre

/-- **Exactly-once dispatch.** Over a run of any feeds, drains and graceful requests with
a handler that does not detach, every accepted request is dispatched exactly once in every
state reached, if and only if no event feeds a connection whose last response closed it
while the parser stands where it completed that request. -/
theorem zh1Feed_dispatch_once (hd : ∀ history req, g.srv.detaches history req = false)
    (evs : List H1Event) :
    (∀ pre, pre <+: evs → OnceEach (H1Run.run g {} pre).c) ↔
      (∀ pre ev, pre ++ [ev] <+: evs → ¬FedAgain g (H1Run.run g {} pre) ev) :=
  run_once g hd (r := {}) ⟨rfl, .inr (.inl ⟨rfl, rfl⟩)⟩ evs

/-- A request that asks the server to close. -/
def closingRequest : Bytes := str "GET / HTTP/1.1\r\nHost: a\r\nConnection: close\r\n\r\n"

theorem zh1Feed_dispatch_once_closing :
    (∀ pre, pre <+: [H1Event.feed closingRequest, .drain 1] →
        OnceEach (H1Run.run H1Cfg.silent {} pre).c) ↔
      (∀ pre ev, pre ++ [ev] <+: [H1Event.feed closingRequest, .drain 1] →
        ¬FedAgain H1Cfg.silent (H1Run.run H1Cfg.silent {} pre) ev) :=
  zh1Feed_dispatch_once H1Cfg.silent (fun _ _ => rfl) _

/-- The iteration after the one that read the request dispatches it a second time. -/
theorem zh1Feed_dispatch_twice :
    (H1Run.run H1Cfg.silent {} [.feed closingRequest, .feed []]).c.log.map (·.no) = [1, 1] := by
  decide +kernel

end Zcio
