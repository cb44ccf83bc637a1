import Zcio.Server.Phase
import Zcio.H1.Unread
import Zcio.H2.Segment

/-!
# Zcio.Server.Input

How much input a connection holds. A parser that waits for more leaves a line or a frame
unread, and a read adds `READ_SCRATCH` octets to that. A parser that has stopped takes
nothing any more, but `conn_process` goes on reading until the output is out
(`loop_unboundedInput`). Without such reads the buffer is bounded (`loop_boundedInput`).
-/

namespace Zcio

/-! ### What the HTTP/2 parser leaves

A frame that is not complete is left, and a frame is bounded. -/

section Unread

variable {g : H2Cfg}

theorem consumePreface_suffix (c : Zh2Conn) (inp : Bytes) : (consumePreface c inp).2.1 <:+ inp := by
  induction inp generalizing c with
  | nil =>
    rw [consumePreface]
    split <;> exact List.suffix_rfl
  | cons b inp ih =>
    rw [consumePreface]
    split
    · split
      · exact List.suffix_rfl
      · exact (ih _).trans (List.suffix_cons b inp)
    · exact List.suffix_rfl

theorem nextFrame_suffix {c c' : Zh2Conn} {f : Frame} {inp rest : Bytes}
    (h : nextFrame c inp = .inl (c', f, rest)) : rest <:+ inp := by
  unfold nextFrame at h
  split at h
  · cases h
  · split at h
    · cases h
    · split at h
      · cases h
      · split at h
        · cases h
        · dsimp only at h
          split at h
          · cases h
          · split at h
            · cases h
            · split at h
              · cases h
              · cases h
                exact List.drop_suffix _ _

theorem zh2Frames_unread (c : Zh2Conn) (inp : Bytes) :
    (zh2Frames g c inp).2 <:+ inp ∧ ((zh2Frames g c inp).1.gotError = false →
      (zh2Frames g c inp).2.length ≤ ZH2_FRAME_HDR + ZH2_OUR_MAX_FRAME) := by
  refine Lib.loop_induct (zh2FeedRound_decreases g)
    (P := fun s r => r.2 <:+ s.inp ∧
      (r.1.gotError = false → r.2.length ≤ ZH2_FRAME_HDR + ZH2_OUR_MAX_FRAME)) ?_ ?_ { c, inp }
  · -- the ways the loop ends: an error, or a header or a payload that is not whole
    intro s r h
    have herror : ∀ (c : Zh2Conn) (code : Nat), (connError c code).gotError = true :=
      fun c code => (connError_flags c code).1
    have hfail : ∀ (c : Zh2Conn) (code : Nat) {p : Prop},
        (connError c code).gotError = false → p := by
      intro c code p hok
      rw [herror] at hok
      cases hok
    unfold zh2FeedRound at h
    split at h
    · rename_i herr
      cases h
      refine ⟨List.suffix_rfl, fun hok => ?_⟩
      rw [herr] at hok
      cases hok
    · split at h
      · rename_i hshort
        cases h
        exact ⟨List.suffix_rfl, fun _ => (Nat.le_of_lt hshort).trans (Nat.le_add_right _ _)⟩
      · dsimp only at h
        split at h
        · cases h
          exact ⟨List.suffix_rfl, hfail _ _⟩
        · -- less than one frame is left, and a frame is within its limit
          split at h
          · rename_i hmax hcut
            cases h
            exact ⟨List.suffix_rfl, fun _ => (Nat.le_of_lt hcut).trans
              (Nat.add_le_add_left (Nat.le_of_not_lt hmax) _)⟩
          · split at h
            · cases h
              exact ⟨List.suffix_rfl, hfail _ _⟩
            · split at h
              · cases h
                exact ⟨List.suffix_rfl, hfail _ _⟩
              · split at h
                · cases h
                  exact ⟨List.suffix_rfl, hfail _ _⟩
                · cases h
  · -- a frame was read, and what is left is behind it
    intro s s' r h ⟨hend, hrest⟩
    refine ⟨hend.trans ?_, hrest⟩
    rw [zh2FeedRound_eq] at h
    split at h
    · cases h
    · rename_i c' f rest hnext
      cases h
      exact nextFrame_suffix hnext

/-- **What `zh2_feed_` leaves**: less than a frame, unless the connection failed. -/
theorem zh2Feed_unread (c : Zh2Conn) (inp : Bytes) :
    (zh2Feed g c inp).2.2 <:+ inp ∧ ((zh2Feed g c inp).2.1.gotError = false →
      (zh2Feed g c inp).2.2.length ≤ ZH2_FRAME_HDR + ZH2_OUR_MAX_FRAME) := by
  unfold zh2Feed
  cases hdone : c.prefaceDone with
  | true =>
    simp only [if_true, Bool.not_true, Bool.false_eq_true, if_false]
    exact zh2Frames_unread c inp
  | false =>
    simp only [Bool.false_eq_true, if_false]
    have hend := consumePreface_suffix c inp
    cases hp : consumePreface c inp with
    | mk c' r =>
      obtain ⟨rest, ready⟩ := r
      rw [hp] at hend
      cases ready with
      | true =>
        simp only [Bool.not_true, Bool.false_eq_true, if_false]
        obtain ⟨hend', hlen⟩ := zh2Frames_unread (g := g) c' rest
        exact ⟨hend'.trans hend, hlen⟩
      | false =>
        simp only [Bool.not_false, if_true]
        refine ⟨hend, fun hok => ?_⟩
        rcases (consumePreface_waits hdone hp).2 with hnil | href
        · rw [hnil]
          exact Nat.zero_le _
        · rw [href.error] at hok
          cases hok

end Unread

/-! ### The bound

Unread input is bounded by what a parser may leave, as long as the connection reads. -/

/-- What a parser may leave unread while it waits for more. -/
def LoopCfg.unreadMax (g : LoopCfg) : Nat :=
  max (max g.lim.maxHeaderBytes H1_CHUNK_LINE_MAX) (ZH2_FRAME_HDR + ZH2_OUR_MAX_FRAME)

/-- The parser has stopped for good: it has failed, or answered the last request it will. -/
def Conn.Stopped (c : Conn) : Prop :=
  match c.proto with
  | .unknown => False
  | .h1 h => h.Stopped
  | .h2 h => h.gotError = true

/-- Nothing is read for a parser that has stopped. -/
def StoppedReadsNothing (c : Conn) (io : ConnIo) : Prop := c.Stopped → readsOctets io = false

/-- The input buffer, between iterations. -/
structure InputInv (g : LoopCfg) (c : Conn) : Prop where
  bound : c.inp.length ≤ g.unreadMax + READ_SCRATCH
  waiting : c.dead = false → ¬c.Stopped → c.inp.length ≤ g.unreadMax

section Bound

variable {g : LoopCfg} {c : Conn} {io : ConnIo}

theorem inp_connSelectProtoTls (c : Conn) (alpn : Option Bytes) :
    (connSelectProtoTls g c alpn).inp = c.inp := by
  unfold connSelectProtoTls connStartH1
  split
  · split <;> rfl
  · split <;> rfl

/-- **The input phase** adds at most a read to what was left. -/
theorem InputInv.input (h : InputInv g c) (halive : c.dead = false)
    (hok : StoppedReadsNothing c io) :
    (connInput g c io).inp.length ≤ g.unreadMax + READ_SCRATCH := by
  have hcases := connInput_cases (g := g) c io
  generalize connInput g c io = c₁ at hcases ⊢
  cases hcases with
  | quiet => exact h.bound
  | @read e b hb htls hin hread hne =>
    have hreads : readsOctets io = true := by
      unfold readsOctets
      rw [hin, hread]
      simpa using hne
    have hwait := h.waiting halive fun hstop => by
      rw [hok hstop] at hreads
      cases hreads
    show (c.inp ++ b).length ≤ _
    rw [List.length_append]
    omega
  | secured =>
    rw [inp_connSelectProtoTls]
    exact h.bound

/-- The output phase keeps a stopped parser stopped. -/
theorem ConnProto.Emits.stopped {b c' : Conn} (h : b.proto.Emits (g.h2 b.secure) c'.proto)
    (hs : b.Stopped) : c'.Stopped := by
  unfold Conn.Stopped at hs ⊢
  cases hp : b.proto with
  | unknown =>
    rw [hp] at hs
    exact hs.elim
  | h1 h1 =>
    rw [hp] at hs h
    obtain ⟨out, heq⟩ := h.h1
    rw [heq]
    exact hs
  | h2 h2 =>
    rw [hp] at hs h
    obtain ⟨h', heq, herr⟩ := h.h2
    rw [heq]
    exact herr.trans hs

/-- **The feed** leaves an end of the input, and a short one unless the parser stopped. -/
theorem connFed_unread (halive : (connInput g c io).dead = false) :
    (connFed g c io).inp <:+ (connInput g c io).inp ∧
      ((connFed g c io).dead = false → ¬(connFed g c io).Stopped →
        (connFed g c io).inp.length ≤ g.unreadMax) := by
  -- the timing of heads touches none of the three fields
  have htiming : ∀ b : Conn, (connUpdateHeadTiming b io.now).inp = b.inp ∧
      (connUpdateHeadTiming b io.now).dead = b.dead ∧
      (connUpdateHeadTiming b io.now).proto = b.proto := by
    intro b
    unfold connUpdateHeadTiming
    split
    · split
      · split <;> exact ⟨rfl, rfl, rfl⟩
      · exact ⟨rfl, rfl, rfl⟩
    · exact ⟨rfl, rfl, rfl⟩
  unfold connFed Conn.Stopped
  rw [(htiming _).1, (htiming _).2.1, (htiming _).2.2]
  have hcases := connFeedPre_cases (g := g) halive
  generalize connFeedPre g (connInput g c io) = b at hcases ⊢
  generalize connInput g c io = c₁ at hcases halive ⊢
  have hleft : h1UnreadMax (g.h1 c₁) ≤ g.unreadMax := Nat.le_max_left _ _
  -- the version decides what may be left unread
  cases hcases with
  | undecided _ _ hshort =>
    have hpreface : H2_PREFACE.length ≤ ZH2_FRAME_HDR + ZH2_OUR_MAX_FRAME := by decide
    exact ⟨List.suffix_rfl, fun _ _ => (Nat.le_of_lt hshort).trans
      (hpreface.trans (Nat.le_max_right _ _))⟩
  | refused => exact ⟨List.suffix_rfl, nofun⟩
  | @h1 h _ hstop =>
    obtain ⟨hend, hlen, -⟩ := feedLoop_unread (g := g.h1 c₁) { c := h, inp := c₁.inp }
    exact ⟨hend, fun _ _ => (hlen hstop).trans hleft⟩
  | @h1Close h _ hclose =>
    obtain ⟨hend, -, hstopped⟩ := feedLoop_unread (g := g.h1 c₁) { c := h, inp := c₁.inp }
    exact ⟨hend, fun _ hns => absurd (hstopped hclose) hns⟩
  -- a detached connection belongs to the handler
  | @h1Detached h _ _ =>
    obtain ⟨hend, -, -⟩ := feedLoop_unread (g := g.h1 c₁) { c := h, inp := c₁.inp }
    exact ⟨hend, nofun⟩
  | @h2 h _ =>
    obtain ⟨hend, hlen⟩ := zh2Feed_unread (g := g.h2 c₁.secure) h c₁.inp
    exact ⟨hend, fun _ hns => (hlen (by simpa using hns)).trans (Nat.le_max_right _ _)⟩

theorem inputInv_connProcess (h : InputInv g c) (hinv : ConnInv g c) (halive : c.dead = false)
    (hok : StoppedReadsNothing c io) : InputInv g (connProcess g c io) := by
  have hbound := h.input halive hok
  by_cases hoff : (connInput g c io).dead = true ∨ (connInput g c io).tlsPending = true
  · have hproto := connInput_unfed hinv halive io hoff
    rw [connProcess_unfed (connBehindFeed_eq_none.mpr hoff) hproto]
    obtain ⟨d, w, heq, hkeep, -⟩ := connCloseDecision_eq (connInput g c io)
    rw [heq]
    refine ⟨hbound, fun hlive _ => ?_⟩
    show (connInput g c io).inp.length ≤ g.unreadMax
    have hlive : d = false := hlive
    have halive₁ : (connInput g c io).dead = false := by
      cases hd : (connInput g c io).dead with
      | false => rfl
      | true =>
        rw [hkeep hd] at hlive
        cases hlive
    have htls : (connInput g c io).tlsPending = true := by
      rcases hoff with hd | htls
      · rw [halive₁] at hd
        cases hd
      · exact htls
    -- the handshake is going on, and nothing was read
    have hcases := connInput_cases (g := g) c io
    generalize connInput g c io = c₁ at hcases htls hproto ⊢
    cases hcases with
    | quiet => exact h.waiting halive (by rw [Conn.Stopped, show c.proto = _ from hproto]; exact id)
    | read _ hno _ _ _ =>
      rw [show c.tlsPending = true from htls] at hno
      cases hno
    | secured e alpn _ =>
      have hdone : ∀ c : Conn, c.tlsPending = false →
          (connSelectProtoTls g c alpn).tlsPending = false := by
        intro c hc
        unfold connSelectProtoTls connStartH1
        split
        · split <;> exact hc
        · split <;> exact hc
      rw [hdone _ rfl] at htls
      cases htls
  · rw [not_or, Bool.not_eq_true, Bool.not_eq_true] at hoff
    obtain ⟨hend, hwait⟩ := connFed_unread hoff.1
    have hemit := connProcess_emits hoff.1 hoff.2
    have hinp : (connProcess g c io).inp = (connFed g c io).inp := by
      obtain ⟨_, _, _, _, _, _, heq⟩ := hemit.frame
      rw [heq]
    refine ⟨?_, fun hlive hns => ?_⟩
    · rw [hinp]
      exact hend.length_le.trans hbound
    · rw [hinp]
      refine hwait ?_ fun hs => hns (hemit.proto.stopped hs)
      cases hd : (connFed g c io).dead with
      | false => rfl
      | true =>
        rw [hemit.dead hd] at hlive
        cases hlive

theorem inp_connBeginStop (c : Conn) : (connBeginStop c).inp = c.inp := by
  unfold connBeginStop
  split <;> rfl

theorem stopped_connBeginStop (hs : c.Stopped) : (connBeginStop c).Stopped := by
  unfold Conn.Stopped at hs
  unfold connBeginStop
  split
  · rename_i h hp
    rw [hp] at hs
    exact hs
  · rename_i h hp
    rw [hp] at hs
    exact (zh2Graceful_frame h).2.2.2.2.2.trans hs
  · rename_i hp
    rw [hp] at hs
    exact hs.elim

/-- **Bounded input.** When nothing is read for a parser that has stopped, the unread input
never exceeds one line, chunk-size line or frame and one read: neither between iterations nor
inside one, behind its read. -/
theorem loop_boundedInput (hrun : LoopRun g StoppedReadsNothing c) :
    c.inp.length ≤ g.unreadMax + READ_SCRATCH ∧
      ∀ io, c.dead = false → StoppedReadsNothing c io →
        (connInput g c io).inp.length ≤ g.unreadMax + READ_SCRATCH := by
  have hinv : InputInv g c := by
    induction hrun with
    | accepted now l =>
      have hempty : (connCreate now l).inp = [] := by cases l <;> rfl
      refine ⟨?_, fun _ _ => ?_⟩ <;> rw [hempty] <;> exact Nat.zero_le _
    | process io hrun halive hok ih => exact inputInv_connProcess ih hrun.inv.1 halive hok
    | stop _ halive ih =>
      refine ⟨?_, fun _ hns => ?_⟩
      · rw [inp_connBeginStop]
        exact ih.bound
      · rw [inp_connBeginStop]
        exact ih.waiting halive fun hs => hns (stopped_connBeginStop hs)
    | @sweep c now _ ih =>
      unfold connSweep
      split
      · exact ⟨ih.bound, nofun⟩
      · exact ih
    | drained _ _ ih => exact ⟨ih.bound, nofun⟩
    | drainDeadline _ ih => exact ⟨ih.bound, nofun⟩
  exact ⟨hinv.bound, fun io halive hok => hinv.input halive hok⟩

end Bound

/-! ### A peer that goes on sending

A connection that has refused its request still reads. -/

/-- The largest read there is. -/
def fullRead : { b : Bytes // b.length ≤ READ_SCRATCH } :=
  ⟨List.replicate READ_SCRATCH 0, by rw [List.length_replicate]⟩

/-- A peer that sends and does not read. -/
def flood (b : { b : Bytes // b.length ≤ READ_SCRATCH }) : ConnIo :=
  { pollin := true, read := .octets b }

/-- The connection of a refused request whose answer is not out. -/
structure Refusing (c : Conn) : Prop where
  proto : ∃ h, c.proto = .h1 h ∧ h.state = .dead
  alive : c.dead = false
  attached : c.detached = false
  plain : c.tlsPending = false
  pending : c.outPending = true
  noEof : c.peerEof = false

/-- Everything the peer sends is kept. -/
theorem Refusing.flood {g : LoopCfg} {c : Conn} (h : Refusing c)
    {b : { b : Bytes // b.length ≤ READ_SCRATCH }} (hb : b.1 ≠ []) :
    Refusing (connProcess g c (flood b)) ∧
      (connProcess g c (Zcio.flood b)).inp = c.inp ++ b.1 := by
  obtain ⟨⟨h1, hp, hst⟩, halive, hatt, htls, hpending, heof⟩ := h
  have hparse : ∀ (g : H1Cfg) (inp : Bytes), zh1Feed g h1 inp = ⟨.close, h1, inp⟩ := by
    intro g inp
    refine feedLoop_of_inr _ ?_
    unfold feedStep h1Round
    simp only [hst]
    rfl
  have hinput : connInput g c (Zcio.flood b) =
      { c with inp := c.inp ++ b.1, rcvd := c.rcvd ++ b.1, activityMs := 0 } := by
    simp [connInput, Zcio.flood, htls, connRead, hb]
  have hfeed : ∃ t s, connUpdateHeadTiming (connFeed g (connInput g c (Zcio.flood b))) 0 =
      { c with
        inp := c.inp ++ b.1, rcvd := c.rcvd ++ b.1, activityMs := 0
        wantClose := true, timingHead := t, headStartMs := s } := by
    rw [hinput]
    obtain ⟨proto, inp, secure, tls, redirect, eof, want, dead, det, created, act, timing, head,
      rcvd, wire, session, failed, expired⟩ := c
    dsimp only at hp halive hatt htls heof
    subst hp halive
    simp only [connFeed, connFeedPre, connChoose, Bool.not_true, Bool.false_or,
      Bool.false_eq_true, if_false, connParse, hparse, connPump, connUpdateHeadTiming]
    split
    · split
      · exact ⟨_, _, rfl⟩
      · exact ⟨_, _, rfl⟩
    · exact ⟨_, _, rfl⟩
  obtain ⟨t, s, hfeed⟩ := hfeed
  have hprocess : connProcess g c (Zcio.flood b) = { c with
      inp := c.inp ++ b.1, rcvd := c.rcvd ++ b.1, activityMs := 0
      wantClose := true, timingHead := t, headStartMs := s } := by
    have hgo : (!(connInput g c (Zcio.flood b)).dead && !(connInput g c (Zcio.flood b)).tlsPending)
        = true := by
      rw [hinput]
      simp [halive, htls]
    unfold connProcess
    dsimp only
    rw [if_pos hgo, show (Zcio.flood b).now = 0 from rfl, hfeed]
    generalize hc' : ({ c with
      inp := c.inp ++ b.1, rcvd := c.rcvd ++ b.1, activityMs := 0
      wantClose := true, timingHead := t, headStartMs := s } : Conn) = c'
    have hkeep : c'.outPending = true ∧ c'.detached = false ∧ c'.peerEof = false := by
      rw [← hc']
      exact ⟨hpending, hatt, heof⟩
    -- no POLLOUT, no write, and the close has to wait for the output
    have hpump : (if (!c'.dead && (Zcio.flood b).pollout) = true then connPump g c' else c') =
        c' := if_neg (by simp [Zcio.flood])
    have hflush : connFlush 0 c' (Zcio.flood b).writes = c' := rfl
    rw [hpump, hflush, ite_self]
    simp [connCloseDecision, hkeep]
  rw [hprocess]
  exact ⟨⟨⟨h1, hp, hst⟩, halive, hatt, htls, hpending, heof⟩, rfl⟩

/-- A request that is refused at its first octet. -/
def refused : Conn :=
  connProcess silentLoop (connCreate 0 .plain) { pollin := true, read := .octets ⟨[LF], by decide⟩ }

/-- An HTTP/1 parser that has failed. -/
def ConnProto.failedH1 : ConnProto → Bool
  | .unknown => false
  | .h1 h => decide (h.state = .dead)
  | .h2 _ => false

theorem refusing_refused : Refusing refused := by
  have hdead : refused.proto.failedH1 = true := by decide +kernel
  refine ⟨?_, by decide +kernel, by decide +kernel, by decide +kernel, by decide +kernel,
    by decide +kernel⟩
  cases hp : refused.proto with
  | unknown => rw [hp] at hdead; cases hdead
  | h1 h =>
    rw [hp] at hdead
    exact ⟨h, rfl, of_decide_eq_true hdead⟩
  | h2 h => rw [hp] at hdead; cases hdead

theorem loop_boundedInput_refused :
    refused.inp.length ≤ silentLoop.unreadMax + READ_SCRATCH :=
  (loop_boundedInput (.process { pollin := true, read := .octets ⟨[LF], by decide⟩ }
    (.accepted 0 .plain) rfl fun h => absurd h id)).1

/-- Two full reads behind the refusal are over the bound. -/
theorem loop_unboundedInput :
    ¬∀ (g : LoopCfg) (c : Conn), LoopRun g AnyIo c →
      c.inp.length ≤
        max (max g.lim.maxHeaderBytes 4096) (9 + 16384) + READ_SCRATCH := by
  intro hall
  have hfull : fullRead.1 ≠ [] := by
    intro hnil
    have := congrArg List.length hnil
    rw [fullRead, List.length_replicate] at this
    cases this
  obtain ⟨h₁, hinp₁⟩ := refusing_refused.flood (g := silentLoop) hfull
  obtain ⟨h₂, hinp₂⟩ := h₁.flood (g := silentLoop) hfull
  have hrun : LoopRun silentLoop AnyIo refused := .process _ (.accepted 0 .plain) rfl trivial
  have hlen := hall silentLoop _ (.process (flood fullRead)
    (.process (flood fullRead) hrun refusing_refused.alive trivial) h₁.alive trivial)
  rw [hinp₂, hinp₁] at hlen
  simp only [List.length_append] at hlen
  have hread : fullRead.1.length = READ_SCRATCH := List.length_replicate
  rw [hread] at hlen
  have hmax : max (max silentLoop.lim.maxHeaderBytes 4096) (9 + 16384) = 32768 := by decide
  rw [hmax] at hlen
  have hscratch : READ_SCRATCH = 65536 := rfl
  omega

end Zcio
