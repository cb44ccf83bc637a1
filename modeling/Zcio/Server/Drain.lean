import Zcio.Server.Wakeup

/-!
# Zcio.Server.Drain

The graceful end of an HTTP/2 connection. `zh2_feed_` returns `ZH2_CLOSING` as soon as the
GOAWAY is queued, and `conn_process` then closes when the output is out, whatever is left in
the stream table (`loop_drainCut`). Nothing is lost when an iteration that takes all that was queued
finds the table of a closing connection empty (`loop_gracefulDrain`).

Two facts carry this. A connection that is closing opens no stream any more, so an empty table stays
empty (`Advances.streams`). And only a stop, an error or the request cap makes a connection close
(`Advances.asked`): one that was not told before the iteration, and does not see more streams in it
than the cap allows, is not closed by it.
-/

namespace Zcio

/-- The iteration cannot close a connection over an open stream: the transport takes less than was
queued before it, or no stream is open on a connection that was told to close, or the HEADERS frames
of the input stay within the cap on a connection that was not. -/
def FinishesFirst (g : LoopCfg) (c : Conn) (io : ConnIo) : Prop :=
  room io.writes < c.proto.out.avail ∨ ∀ h, FeedsH2 g c h →
    if h.closing then h.streams = []
    else ¬(g.h2 c.secure).OverCap (h.totalStreams + headersAhead h (c.inp ++ connOctets c io))

/-- The connection was closed although nothing had gone wrong on it. -/
structure ClosedClean (c : Conn) (h : Zh2Conn) : Prop where
  dead : c.dead = true
  proto : c.proto = .h2 h
  error : h.gotError = false
  peerEof : c.peerEof = false
  written : c.writeFailed = false
  inTime : c.expired = false

/-- The request was received in full, and the response is out. -/
def Zh2Stream.Finished (st : Zh2Stream) : Prop := st.endStreamRecv = true ∧ st.sendDone = true

section Drain

variable {g : LoopCfg} {c : Conn} {h' : Zh2Conn}

/-! ### Why a connection closes

A connection of HTTP/2 is marked to close when it is closing or has failed, or its peer has
ended. -/

/-- HTTP/2 asks for the close when it is closing or has failed; else the peer's stream has ended. -/
def AskedFor (c : Conn) : Prop :=
  c.wantClose = true → c.peerEof = true ∨ match c.proto with
    | .unknown => False
    | .h1 _ => True
    | .h2 h => h.closing = true ∨ h.gotError = true

/-- What the pump and the writes leave. -/
theorem closing_emits {h h' : Zh2Conn} {g : H2Cfg} (he : (ConnProto.h2 h).Emits g (.h2 h'))
    (hask : h.closing = true ∨ h.gotError = true) : h'.closing = true ∨ h'.gotError = true := by
  suffices hall : ∀ p, (ConnProto.h2 h).Emits g p → ∀ h', p = .h2 h' →
      h'.closing = true ∨ h'.gotError = true from hall _ he h' rfl
  intro p he
  induction he with
  | refl =>
    rintro h' heq
    cases heq
    exact hask
  | @write p' o _ ih =>
    rintro h' heq
    cases p' with
    | unknown => cases heq
    | h1 _ => cases heq
    | h2 h₂ =>
      cases heq
      exact ih h₂ rfl
  | @pump h₂ _ ih =>
    rintro h' heq
    cases heq
    have hpump := advances_zh2Pump (g := g) h₂
    exact (ih h₂ rfl).imp hpump.closing hpump.error

/-- `zh2_feed_` says that the connection is to be closed. -/
theorem closing_of_zh2Feed {g : H2Cfg} {h : Zh2Conn} {inp : Bytes} (hrc : (zh2Feed g h inp).1 = .closing) :
    (zh2Feed g h inp).2.1.closing = true ∨ (zh2Feed g h inp).2.1.gotError = true := by
  unfold zh2Feed at hrc ⊢
  dsimp only at hrc ⊢
  generalize (if h.prefaceDone then (h, inp, true) else consumePreface h inp) = r at hrc ⊢
  obtain ⟨h', inp', ready⟩ := r
  cases ready with
  | false =>
    simp only [Bool.not_false, if_true] at hrc ⊢
    split at hrc
    · rename_i he
      exact .inr he
    · cases hrc
  | true =>
    simp only [Bool.not_true, Bool.false_eq_true, if_false] at hrc ⊢
    split at hrc
    · rename_i he
      exact Bool.or_eq_true _ _ ▸ he
    · cases hrc

/-- The feed asks for the close when HTTP/2 does. -/
theorem FedFrom.asked {io : ConnIo} {b : Conn} {h h₀ : Zh2Conn} (hfrom : FedFrom g c io b h h₀)
    (hc : AskedFor c) (hw : b.wantClose = true) :
    b.peerEof = true ∨ h.closing = true ∨ h.gotError = true := by
  rcases hfrom.wantClose hw with hw | hrc
  · rcases hc hw with heof | hask
    · exact .inl (hfrom.peerEof heof)
    · rcases hfrom.before with hp | ⟨hp, -⟩
      · rw [hp] at hask
        have hfeed := advances_zh2Feed (g := g.h2 c.secure) h₀ (c.inp ++ connOctets c io)
        rw [hfrom.fed]
        exact .inr (hask.imp hfeed.closing hfeed.error)
      · rw [hp] at hask
        exact hask.elim
  · rw [hfrom.fed]
    exact .inr (closing_of_zh2Feed hrc)

theorem AskedFor.eof_of_unknown (hc : AskedFor c) (hw : c.wantClose = true) (hp : c.proto = .unknown) :
    c.peerEof = true := by
  rcases hc hw with heof | hask
  · exact heof
  · rw [hp] at hask
    exact hask.elim

/-- The timing of a head says nothing of the close. -/
theorem connFed_closing (c : Conn) (io : ConnIo) :
    (connFed g c io).wantClose = (connFeedPre g (connInput g c io)).wantClose ∧
      (connFed g c io).peerEof = (connFeedPre g (connInput g c io)).peerEof := by
  unfold connFed connUpdateHeadTiming
  split
  · split
    · split <;> exact ⟨rfl, rfl⟩
    · exact ⟨rfl, rfl⟩
  · exact ⟨rfl, rfl⟩

theorem askedFor_connProcess (hinv : ConnInv g c) (halive : c.dead = false) (hc : AskedFor c)
    (io : ConnIo) : AskedFor (connProcess g c io) := by
  intro hw
  have hleaves := connInput_leaves hinv io
  -- where no octet has been parsed it was asked before
  have hbefore : (connInput g c io).proto = .unknown → (connInput g c io).wantClose = true →
      (connInput g c io).peerEof = true := by
    intro hunknown hwant
    have hproto : c.proto = .unknown := by
      rcases hleaves.proto with heq | ⟨heq, -⟩
      · rw [← heq, hunknown]
      · exact heq
    exact hleaves.peerEof (hc.eof_of_unknown (hleaves.wantClose ▸ hwant) hproto)
  by_cases hoff : (connInput g c io).dead = true ∨ (connInput g c io).tlsPending = true
  · -- nothing was fed
    have hp := connInput_unfed hinv halive io hoff
    rw [connProcess_unfed (connBehindFeed_eq_none.mpr hoff) hp] at hw ⊢
    obtain ⟨d, w, heq, -⟩ := connCloseDecision_eq (connInput g c io)
    rw [heq]
    refine .inl ?_
    rcases wantClose_connCloseDecision hw with hw | heof
    · exact hbefore hp hw
    · exact heof
  · rw [not_or, Bool.not_eq_true, Bool.not_eq_true] at hoff
    obtain ⟨hframe, hemits, -, hwant, -⟩ := connProcess_emits (g := g) hoff.1 hoff.2
    obtain ⟨p, wire, a, d, wc, wf, heq⟩ := hframe
    obtain ⟨hwantFed, heofFed⟩ := connFed_closing (g := g) c io
    have heof' : (connProcess g c io).peerEof = (connFeedPre g (connInput g c io)).peerEof := by
      rw [heq]
      exact heofFed
    rw [heof']
    have hwant := hwant hw
    rw [hwantFed, heofFed] at hwant
    rcases hwant with hwant | heof
    · rw [connFed, proto_connUpdateHeadTiming] at hemits
      cases hp : (connFeedPre g (connInput g c io)).proto with
      | h1 h =>
        rw [hp] at hemits
        obtain ⟨out, hout⟩ := hemits.h1
        rw [hout]
        exact .inr trivial
      | h2 h =>
        obtain ⟨h₀, hfrom⟩ := connFeedPre_from hleaves hoff.1 hp
        rcases hfrom.asked hc hwant with heof | hask
        · exact .inl heof
        · rw [hp] at hemits
          obtain ⟨h', hout, -⟩ := hemits.h2
          rw [hout] at hemits ⊢
          exact .inr (closing_emits hemits hask)
      | unknown =>
        have hcase := connFeedPre_cases (g := g) hoff.1
        generalize connFeedPre g (connInput g c io) = b at hcase hp hwant ⊢
        cases hcase with
        | undecided hunknown _ _ => exact .inl (hbefore hunknown hwant)
        | refused hunknown _ => exact .inl (hbefore hunknown hwant)
        | h1 _ _ => cases hp
        | h1Close _ _ => cases hp
        | h1Detached _ _ => cases hp
        | h2 _ => cases hp
    · exact .inl heof

theorem LoopRun.askedFor {ok : Conn → ConnIo → Prop} (h : LoopRun g ok c) : AskedFor c := by
  induction h with
  | accepted now l =>
    intro hw
    cases l <;> cases hw
  | @process c io hrun halive _ ih => exact askedFor_connProcess hrun.inv.1 halive ih io
  | @stop c _ _ ih =>
    intro hw
    have hkeep : (connBeginStop c).wantClose = c.wantClose ∧ (connBeginStop c).peerEof = c.peerEof := by
      unfold connBeginStop
      split <;> exact ⟨rfl, rfl⟩
    rw [hkeep.1] at hw
    rw [hkeep.2]
    refine (ih hw).imp_right fun hask => ?_
    cases hp : c.proto with
    | unknown =>
      rw [hp] at hask
      exact hask.elim
    | h1 h =>
      rw [show (connBeginStop c).proto = .h1 { h with graceful := true } by rw [connBeginStop, hp]]
      trivial
    | h2 h =>
      rw [show (connBeginStop c).proto = .h2 (zh2Graceful h) by rw [connBeginStop, hp]]
      exact .inl rfl
  | sweep now _ ih =>
    unfold connSweep
    split
    · exact ih
    · exact ih
  | drained _ _ ih => exact ih
  | drainDeadline _ ih => exact ih

/-! ### One iteration -/

/-- **One iteration** closes a connection cleanly only when its table is empty. -/
theorem streams_of_closedClean (hinv : ConnInv g c) (halive : c.dead = false)
    (hatt : c.detached = false) (hc : AskedFor c) {io : ConnIo} (hfinish : FinishesFirst g c io)
    (hclosed : ClosedClean (connProcess g c io) h') : h'.streams = [] := by
  obtain ⟨hdead, hp', herror, heof, hwritten, -⟩ := hclosed
  obtain ⟨b, h, hb, hfed⟩ := connProcess_h2 hinv halive hatt hp'
  obtain ⟨h₀, hfrom⟩ := connBehindFeed_from hinv hb hfed.proto
  rw [connProcess_fed hb hfed] at hdead hp' heof hwritten
  have hpending := connFlush_pending io.now
    { b with proto := .h2 (zh2Pump (g.h2 b.secure) h), timingHead := false } io.writes
  obtain ⟨o, t, a, f, -, hflush⟩ := connFlush_eq io.now
    { b with proto := .h2 (zh2Pump (g.h2 b.secure) h), timingHead := false } io.writes
  generalize hc₁ : connFlush io.now { b with
    proto := .h2 (zh2Pump (g.h2 b.secure) h), timingHead := false } io.writes = c₁
    at hdead hp' heof hwritten hpending hflush
  obtain ⟨dead, wantClose, hclose, -, hwhy, -⟩ := connCloseDecision_eq c₁
  rw [hclose] at hdead hp' heof hwritten
  have hp' : c₁.proto = .h2 h' := hp'
  have heof : c₁.peerEof = false := heof
  have hwritten : c₁.writeFailed = false := hwritten
  rw [hflush] at hp' heof hwritten
  cases hp'
  have hok : h.gotError = false := by rwa [← gotError_zh2Pump (g := g.h2 b.secure) h]
  rcases hwhy hdead with hd | ⟨hidle, hasked⟩
  · -- a write failed
    have hf : f = true := by
      rw [hflush] at hd
      simpa [hfed.alive] using hd
    simp [hf] at hwritten
  · have htook : (zh2Pump (g.h2 b.secure) h).out.avail ≤ room io.writes := by
      rw [hidle] at hpending
      exact le_room (by simpa [ConnProto.out] using hpending.symm)
    have hwant : b.wantClose = true := by
      rw [hflush] at hasked
      rcases hasked with hw | he
      · exact hw
      · have he : b.peerEof = true := he
        rw [show b.peerEof = false from heof] at he
        cases he
    have hclosing : h.closing = true := by
      rcases hfrom.asked hc hwant with he | hclosing | he
      · rw [show b.peerEof = false from heof] at he
        cases he
      · exact hclosing
      · rw [hok] at he
        cases he
    have hfeed := advances_zh2Feed (g := g.h2 c.secure) h₀ (c.inp ++ connOctets c io)
    rw [← hfrom.fed] at hfeed
    rcases hfinish with hless | hall
    · have := hfrom.queued
      omega
    · have hstart := hall h₀ hfrom.before
      split at hstart
      · -- an empty table stays empty
        rename_i htold
        have hpump := (advances_zh2Pump (g := g.h2 b.secure) h).streams hclosing
        have hsame := hfeed.streams htold
        rw [hstart] at hsame
        exact List.eq_nil_of_length_eq_zero (Nat.le_zero.mp (hpump.trans hsame))
      · -- nothing told the connection to close
        rename_i huntold
        rcases hfeed.asked hclosing with htold | he | hcap
        · exact absurd htold huntold
        · rw [hok] at he
          cases he
        · exact absurd (hcap.mono hfeed.total.2) hstart

/-! ### Whole runs

The condition is asked of every iteration of the run; behind it a close over an open stream
is left to failures, to the end of the peer and to the deadlines. -/

/-- **Graceful drain**: in a run whose iterations cannot close a connection over an open stream, a
connection on which nothing went wrong is closed with all its exchanges finished. -/
theorem loop_gracefulDrain (hrun : LoopRun g (FinishesFirst g) c) (hclosed : ClosedClean c h') :
    ∀ st ∈ h'.streams, st.Finished := by
  suffices hempty : h'.streams = [] by
    intro st hst
    rw [hempty] at hst
    cases hst
  induction hrun with
  | accepted now l =>
    have hp := hclosed.proto
    cases l <;> exact absurd hp (by simp [connCreate])
  | @process c io hrun halive hfinish _ =>
    exact streams_of_closedClean hrun.inv.1 halive (hrun.attached halive) hrun.askedFor hfinish hclosed
  | @stop c _ halive _ =>
    -- a stop closes nothing
    have hdead := hclosed.dead
    have hkeep : (connBeginStop c).dead = c.dead := by
      unfold connBeginStop
      split <;> rfl
    rw [hkeep, halive] at hdead
    cases hdead
  | @sweep c now _ ih =>
    unfold connSweep at hclosed
    split at hclosed
    · exact absurd hclosed.inTime (by simp)
    · exact ih hclosed
  | @drained c _ hdrained ih =>
    obtain ⟨-, hp, herror, heof, hwritten, htime⟩ := hclosed
    cases hd : c.dead with
    | true => exact ih ⟨hd, hp, herror, heof, hwritten, htime⟩
    | false =>
      have hp : c.proto = .h2 h' := hp
      unfold connDrained at hdrained
      split at hdrained
      · cases hdrained
      · rw [hp] at hdrained
        dsimp only at hdrained
        unfold zh2Idle at hdrained
        rw [herror, if_neg (by simp)] at hdrained
        split at hdrained
        · cases hdrained
        · exact List.length_eq_zero_iff.mp (by simpa using hdrained)
  | drainDeadline _ _ => exact absurd hclosed.inTime (by simp)

end Drain

/-! ### A stop during an upload

A request that is still on its way is cut off with the connection. -/

/-- A connection with prior knowledge of HTTP/2 that sent `frames`, behind a graceful stop and
an iteration that writes everything out. -/
def stopped (frames : List Frame) (hlen : (clientOctets frames).length ≤ READ_SCRATCH) : Conn :=
  connProcess silentLoop
    (connBeginStop (connProcess silentLoop (connCreate 0 .plain)
      { pollin := true, read := .octets ⟨clientOctets frames, hlen⟩
        writes := [.accepted 1000] }))
    { pollout := true, writes := [.accepted 1000] }

/-- A test of the connection's parser, which only one of HTTP/2 passes. -/
def ConnProto.h2Test (p : ConnProto) (test : Zh2Conn → Bool) : Bool :=
  match p with
  | .h2 h => test h
  | _ => false

theorem h2Test_iff {p : ConnProto} {test : Zh2Conn → Bool} :
    p.h2Test test = true ↔ ∃ h, p = .h2 h ∧ test h = true := by
  cases p with
  | h2 h => exact ⟨fun ht => ⟨h, rfl, ht⟩, fun ⟨_, heq, ht⟩ => by cases heq; exact ht⟩
  | unknown => exact ⟨fun ht => (by cases ht), fun ⟨_, heq, _⟩ => by cases heq⟩
  | h1 h => exact ⟨fun ht => (by cases ht), fun ⟨_, heq, _⟩ => by cases heq⟩

/-- The GET was answered before the stop. -/
theorem loop_gracefulDrain_getRequest :
    (stopped [getRequest] (by decide)).dead = true ∧
      ∀ h, ClosedClean (stopped [getRequest] (by decide)) h → ∀ st ∈ h.streams, st.Finished := by
  refine ⟨by decide +kernel, fun h hclosed => loop_gracefulDrain (g := silentLoop) ?_ hclosed⟩
  refine .process _ (.stop (.process _ (.accepted 0 .plain) rfl ?_) (by decide +kernel))
    (by decide +kernel) ?_
  · refine .inr fun h hfeeds => ?_
    obtain ⟨-, rfl⟩ := hfeeds.resolve_left (fun hp => by cases hp)
    rw [if_neg (by decide)]
    unfold H2Cfg.OverCap
    decide +kernel
  · refine .inr fun h hfeeds => ?_
    generalize hc : connBeginStop _ = c at hfeeds ⊢
    have htold : c.proto.h2Test (fun h => h.closing && h.streams.isEmpty) = true := by
      subst hc
      decide +kernel
    obtain ⟨h₁, hp₁, htest⟩ := h2Test_iff.mp htold
    rw [Bool.and_eq_true] at htest
    rcases hfeeds with hp | ⟨hp, -⟩
    · rw [hp₁] at hp
      cases hp
      rw [if_pos htest.1]
      exact List.isEmpty_iff.mp htest.2
    · rw [hp₁] at hp
      cases hp

/-- The headers of a POST, whose body is still to come. -/
def postHeaders : Frame :=
  { type := ZH2_FT_HEADERS, flags := ZH2_FL_END_HEADERS, sid := 1, payload := [0x83, 0x86, 0x84] }

/-- The connection is closed in the middle of an upload, with nothing gone wrong. -/
theorem loop_drainCut :
    ¬∀ (g : LoopCfg) (c : Conn) (h : Zh2Conn), LoopRun g AnyIo c → h.closing = true →
      ClosedClean c h → ∀ st ∈ h.streams, st.Finished := by
  intro hall
  have hrun : LoopRun silentLoop AnyIo (stopped [postHeaders] (by decide)) :=
    .process _ (.stop (.process _ (.accepted 0 .plain) rfl trivial) (by decide +kernel))
      (by decide +kernel) trivial
  have hcut : (stopped [postHeaders] (by decide)).dead = true ∧
      (stopped [postHeaders] (by decide)).peerEof = false ∧
      (stopped [postHeaders] (by decide)).writeFailed = false ∧
      (stopped [postHeaders] (by decide)).expired = false := by decide +kernel
  have hopen : (stopped [postHeaders] (by decide)).proto.h2Test
      (fun h => (!h.gotError && h.closing) && h.streams.any fun st => !st.endStreamRecv) = true := by
    decide +kernel
  obtain ⟨h, hp, htest⟩ := h2Test_iff.mp hopen
  rw [Bool.and_eq_true, Bool.and_eq_true, Bool.not_eq_true'] at htest
  obtain ⟨st, hst, hunfinished⟩ := List.any_eq_true.mp htest.2
  have hdone := (hall silentLoop _ h hrun htest.1.2
    ⟨hcut.1, hp, htest.1.1, hcut.2.1, hcut.2.2.1, hcut.2.2.2⟩ st hst).1
  rw [hdone] at hunfinished
  cases hunfinished

end Zcio
