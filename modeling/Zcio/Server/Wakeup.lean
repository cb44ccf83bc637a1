import Zcio.H2.Wire
import Zcio.Server.Phase

/-!
# Zcio.Server.Wakeup

Whether an HTTP/2 connection with something to send asks for `POLLOUT`. The pump runs in
front of the flush, and not again behind it. When `max_out_bytes` stopped the pump and the
flush then emptied the buffer, the connection sleeps with body to send
(`loop_lostWakeup`). It does not when no iteration's writes take enough to empty a queue that has
reached the cap (`loop_noLostWakeup`).

The argument: behind the pump a stream that could send has the queue at the cap, within a frame header
(`Settled.atCap`). The feed and the pump only append to what was queued before (`Advances.avail`). A
transport that takes less than the one or the other leaves something in the queue.
-/

namespace Zcio

/-! ### The condition

The socket takes less than the cap of the queue by more than a frame header, or less than
was queued already. A queue at the cap is not emptied then. -/

/-- The octets that the writes of an iteration take. A write of the socket takes no more than it was
offered. -/
def room : List WriteRes → Nat
  | .accepted k :: ws => k + room ws
  | _ => 0

/-- The transport cannot empty a queue that has reached `max_out_bytes`: it takes less than that,
by more than a frame header, or less than was queued before the iteration. -/
def RoomToSend (g : LoopCfg) (c : Conn) (io : ConnIo) : Prop :=
  room io.writes + ZH2_FRAME_HDR < g.lim.maxOutBytes ∨ room io.writes < c.proto.out.avail

/-- Output is pending on an HTTP/2 connection that could send. -/
def Awake (c : Conn) : Prop :=
  ∀ h, c.proto = .h2 h → (∃ st ∈ h.streams, Sendable h st) → c.outPending = true

theorem le_room {ws : List WriteRes} {n : Nat} (h : takesAll ws n = true) : n ≤ room ws := by
  induction ws generalizing n with
  | nil =>
    rw [takesAll, beq_iff_eq] at h
    omega
  | cons w ws ih =>
    cases w with
    | accepted k =>
      rw [takesAll, Bool.or_eq_true, Bool.and_eq_true, beq_iff_eq] at h
      rw [room]
      rcases h with h | ⟨-, h⟩
      · omega
      · have := ih h
        omega
    | wouldBlock =>
      rw [takesAll, beq_iff_eq] at h
      omega
    | failed =>
      rw [takesAll, beq_iff_eq] at h
      omega

/-! ### What was there before the iteration

The parts of an iteration that lead up to the pump, from the state in front of it. -/

/-- The octets that an iteration reads behind those that are there. -/
def connOctets (c : Conn) (io : ConnIo) : Bytes :=
  if c.tlsPending then []
  else if io.pollin then
    match io.read with
    | .octets b => b.1
    | _ => []
  else []

/-- The module that `conn_feed` feeds: the one there was, or a new one. -/
def FeedsH2 (g : LoopCfg) (c : Conn) (h₀ : Zh2Conn) : Prop :=
  c.proto = .h2 h₀ ∨ c.proto = .unknown ∧ h₀ = zh2New (g.h2 c.secure)

/-- `conn_feed` made `h` of `h₀`, up to the pump. -/
structure FedFrom (g : LoopCfg) (c : Conn) (io : ConnIo) (b : Conn) (h h₀ : Zh2Conn) : Prop where
  before : FeedsH2 g c h₀
  secure : b.secure = c.secure
  peerEof : c.peerEof = true → b.peerEof = true
  fed : h = (zh2Feed (g.h2 c.secure) h₀ (c.inp ++ connOctets c io)).2.1
  wantClose : b.wantClose = true → c.wantClose = true ∨
    (zh2Feed (g.h2 c.secure) h₀ (c.inp ++ connOctets c io)).1 = .closing

section Before

variable {g : LoopCfg} {c : Conn}

/-- What the input phase leaves for the feed. -/
structure InputLeaves (g : LoopCfg) (c : Conn) (io : ConnIo) (c₁ : Conn) : Prop where
  inp : c₁.inp = c.inp ++ connOctets c io
  secure : c₁.secure = c.secure
  wantClose : c₁.wantClose = c.wantClose
  peerEof : c.peerEof = true → c₁.peerEof = true
  proto : c₁.proto = c.proto ∨
    c.proto = .unknown ∧ ∀ h, c₁.proto = .h2 h → h = zh2New (g.h2 c.secure)

theorem connSelectProtoTls_leaves {e : Bool} {now : Nat} (hunknown : c.proto = .unknown)
    (htls : c.tlsPending = true) (heof : c.peerEof = true → e = true) (alpn : Option Bytes) (io : ConnIo) :
    InputLeaves g c io
      (connSelectProtoTls g { c with peerEof := e, tlsPending := false, activityMs := now } alpn) := by
  have hinp : c.inp = c.inp ++ connOctets c io := by
    rw [connOctets, if_pos htls, List.append_nil]
  unfold connSelectProtoTls connStartH1
  split
  · split
    · exact ⟨hinp, rfl, rfl, heof, .inr ⟨hunknown, fun h hp => by cases hp; rfl⟩⟩
    · exact ⟨hinp, rfl, rfl, heof, .inl rfl⟩
  · split
    · exact ⟨hinp, rfl, rfl, heof, .inr ⟨hunknown, fun h hp => absurd hp (by simp)⟩⟩
    · exact ⟨hinp, rfl, rfl, heof, .inl rfl⟩

theorem connInput_leaves (hinv : ConnInv g c) (io : ConnIo) : InputLeaves g c io (connInput g c io) := by
  unfold connInput
  dsimp only
  -- an error of the poll only sets the flag of the end
  obtain ⟨e, he, heof⟩ : ∃ e, (if io.pollerr = true then { c with peerEof := true } else c) =
      { c with peerEof := e } ∧ (c.peerEof = true → e = true) := by
    split
    · exact ⟨true, rfl, fun _ => rfl⟩
    · exact ⟨c.peerEof, rfl, id⟩
  rw [he]
  -- during the handshake no octet is read
  by_cases htls : c.tlsPending = true
  · have hinp : c.inp = c.inp ++ connOctets c io := by
      rw [connOctets, if_pos htls, List.append_nil]
    rw [if_pos htls]
    split
    · split
      · exact connSelectProtoTls_leaves (hinv.handshake htls) htls heof _ io
      · exact ⟨hinp, rfl, rfl, heof, .inl rfl⟩
      · exact ⟨hinp, rfl, rfl, heof, .inl rfl⟩
    · exact ⟨hinp, rfl, rfl, heof, .inl rfl⟩
  · -- the read of one buffer, if the socket is readable
    rw [if_neg htls]
    by_cases hin : io.pollin = true
    · have hread : connOctets c io = match io.read with
          | .octets b => b.1
          | _ => [] := by rw [connOctets, if_neg htls, if_pos hin]
      rw [if_pos hin]
      unfold connRead
      split
      · rename_i b hb
        rw [hb] at hread
        split
        · -- an empty read is the end of the input
          rename_i hnil
          have hnil : connOctets c io = [] := hread.trans hnil
          exact ⟨by rw [hnil, List.append_nil], rfl, rfl, fun _ => rfl, .inl rfl⟩
        · exact ⟨by rw [hread], rfl, rfl, heof, .inl rfl⟩
      · -- nothing to read for now
        rename_i hb
        rw [hb] at hread
        exact ⟨by rw [hread]; exact (List.append_nil _).symm, rfl, rfl, heof, .inl rfl⟩
      · -- the read failed
        rename_i hb
        rw [hb] at hread
        exact ⟨by rw [hread]; exact (List.append_nil _).symm, rfl, rfl, fun _ => rfl, .inl rfl⟩
    · have hnil : connOctets c io = [] := by rw [connOctets, if_neg htls, if_neg hin]
      rw [if_neg hin]
      exact ⟨by rw [hnil, List.append_nil], rfl, rfl, heof, .inl rfl⟩

theorem connFeedPre_from {c₁ : Conn} {io : ConnIo} (hleaves : InputLeaves g c io c₁) (halive : c₁.dead = false)
    {h : Zh2Conn} (hp : (connFeedPre g c₁).proto = .h2 h) :
    ∃ h₀, FedFrom g c io (connFeedPre g c₁) h h₀ := by
  have hcase := connFeedPre_cases (g := g) halive
  generalize connFeedPre g c₁ = b at hp hcase ⊢
  obtain ⟨hinp, hsecure, hwant, heof, hproto⟩ := hleaves
  cases hcase with
  | undecided hunknown _ _ =>
    rw [hunknown] at hp
    cases hp
  | refused hunknown _ =>
    rw [show c₁.proto = .h2 h from hp] at hunknown
    cases hunknown
  | h1 _ _ => cases hp
  | h1Close _ _ => cases hp
  | h1Detached _ _ => cases hp
  | @h2 h₀ hstart =>
    cases hp
    refine ⟨h₀, ?_, hsecure, heof, by rw [hinp, hsecure], fun hw => ?_⟩
    · rcases hstart with hp₀ | ⟨hp₀, hnew⟩
      · rcases hproto with heq | ⟨hunknown, hnew⟩
        · exact .inl (heq ▸ hp₀)
        · exact .inr ⟨hunknown, hnew h₀ hp₀⟩
      · rw [hsecure] at hnew
        rcases hproto with heq | ⟨hunknown, -⟩
        · exact .inr ⟨heq ▸ hp₀, hnew⟩
        · exact .inr ⟨hunknown, hnew⟩
    · have hw : (c₁.wantClose || (zh2Feed (g.h2 c₁.secure) h₀ c₁.inp).1 == .closing) = true := hw
      rwa [Bool.or_eq_true, beq_iff_eq, hwant, hsecure, hinp] at hw

theorem connBehindFeed_from (hinv : ConnInv g c) {io : ConnIo} {b : Conn} {h : Zh2Conn}
    (hb : connBehindFeed g c io = some b) (hp : b.proto = .h2 h) : ∃ h₀, FedFrom g c io b h h₀ := by
  unfold connBehindFeed at hb
  dsimp only at hb
  split at hb
  · rename_i hgo
    rw [Bool.and_eq_true, Bool.not_eq_true', Bool.not_eq_true'] at hgo
    obtain rfl := Option.some.inj hb
    exact connFeedPre_from (connInput_leaves hinv io) hgo.1 hp
  · cases hb

/-- Nothing that was queued leaves the queue before the flush. -/
theorem FedFrom.queued {io : ConnIo} {b : Conn} {h h₀ : Zh2Conn} (hfrom : FedFrom g c io b h h₀) :
    c.proto.out.avail ≤ (zh2Pump (g.h2 b.secure) h).out.avail := by
  refine Nat.le_trans ?_ (advances_zh2Pump h).avail
  rcases hfrom.before with hp | ⟨hp, -⟩
  · rw [hp, hfrom.fed]
    exact (advances_zh2Feed h₀ _).avail
  · rw [hp]
    exact Nat.zero_le _

end Before

/-! ### One iteration

A stream that is left with something to send has output in front of it. -/

section Wakeup

variable {g : LoopCfg} {c : Conn}

theorem Sendable.withOut {h : Zh2Conn} {o : ZhsBuf} {st : Zh2Stream}
    (hs : Sendable { h with out := o } st) : Sendable h st :=
  ⟨hs.body, hs.stream, hs.conn⟩

/-- Behind the pump of a connection that has not failed, a stream that could send has the queue at
the cap. -/
theorem FedH2.atCap {b : Conn} {h : Zh2Conn} (hfed : FedH2 g b h) (hok : h.gotError = false)
    {st : Zh2Stream} (hst : st ∈ (zh2Pump (g.h2 b.secure) h).streams)
    (hsend : Sendable (zh2Pump (g.h2 b.secure) h) st) :
    g.lim.maxOutBytes ≤ (zh2Pump (g.h2 b.secure) h).out.avail + ZH2_FRAME_HDR := by
  have hrun := hfed.reach.run
  have hmax : 0 < (zh2Pump (g.h2 b.secure) h).peerMaxFrame := by
    rw [(zh2Pump_tighter h).maxFrame]
    have := (hrun.send hok).maxFrame
    omega
  exact (zh2Pump_settled hrun.table.1.nodup st hst).atCap (hfed.reach.pump.run.ready st hst) hsend hmax

/-- **One iteration**: it leaves a connection that could send with output pending. -/
theorem awake_connProcess (hinv : ConnInv g c) (halive : c.dead = false)
    (hatt : c.detached = false) {io : ConnIo} (hroom : RoomToSend g c io)
    (halive' : (connProcess g c io).dead = false) : Awake (connProcess g c io) := by
  rintro h' hp' ⟨st, hst, hsend⟩
  obtain ⟨b, h, hb, hfed⟩ := connProcess_h2 hinv halive hatt hp'
  obtain ⟨h₀, hfrom⟩ := connBehindFeed_from hinv hb hfed.proto
  rw [connProcess_fed hb hfed] at halive' hp' ⊢
  have hpending := connFlush_pending io.now
    { b with proto := .h2 (zh2Pump (g.h2 b.secure) h), timingHead := false } io.writes
  obtain ⟨o, t, a, f, -, hflush⟩ := connFlush_eq io.now
    { b with proto := .h2 (zh2Pump (g.h2 b.secure) h), timingHead := false } io.writes
  generalize hc₁ : connFlush io.now { b with
    proto := .h2 (zh2Pump (g.h2 b.secure) h), timingHead := false } io.writes = c₁
    at halive' hp' hpending hflush ⊢
  obtain ⟨dead, wantClose, hclose, -, -, hfinish⟩ := connCloseDecision_eq c₁
  rw [hclose] at halive' hp' ⊢
  change c₁.outPending = true
  by_contra hidle
  have hidle : c₁.outPending = false := by simpa using hidle
  -- the transport took the whole queue
  have htook : (zh2Pump (g.h2 b.secure) h).out.avail ≤ room io.writes := by
    rw [hidle] at hpending
    exact le_room (by simpa [ConnProto.out] using hpending.symm)
  cases herr : h.gotError with
  | true =>
    -- a failed connection with nothing queued was closed
    have hdet : c₁.detached = false := by
      rw [hflush]
      exact hfed.attached
    have hwant : c₁.wantClose = true := by
      rw [hflush]
      exact hfed.error herr
    have hdead := hfinish hdet hwant hidle
    rw [show dead = false from halive'] at hdead
    cases hdead
  | false =>
    -- the flush changes no stream and no window
    have hp' : c₁.proto = .h2 h' := hp'
    rw [hflush] at hp'
    cases hp'
    have hcap := hfed.atCap herr hst hsend.withOut
    have hqueued := hfrom.queued
    rcases hroom with hless | hless <;> omega

/-- A graceful stop only queues a GOAWAY. -/
theorem awake_connBeginStop (h : Awake c) : Awake (connBeginStop c) := by
  rintro h' hp' ⟨st, hst, hsend⟩
  refine outPending_connBeginStop ?_
  unfold connBeginStop at hp'
  split at hp'
  · cases hp'
  · rename_i h₀ hp₀
    cases hp'
    exact h h₀ hp₀ ⟨st, by simpa using hst, hsend.body, hsend.stream, by simpa using hsend.conn⟩
  · rename_i hp₀
    rw [hp₀] at hp'
    cases hp'

/-! ### Whole runs -/

/-- **No lost wakeup**: in a run in which no iteration's writes can empty a queue that has reached the
cap, a connection that could send has output pending, and the next poll asks for `POLLOUT`. -/
theorem loop_noLostWakeup {g : LoopCfg} {c : Conn} (hrun : LoopRun g (RoomToSend g) c)
    (halive : c.dead = false) {h : Zh2Conn} (hp : c.proto = .h2 h) {st : Zh2Stream}
    (hst : st ∈ h.streams) (hsend : Sendable h st) :
    c.outPending = true ∧ connWantsPollout c = true := by
  have hawake : Awake c := by
    clear hp hst hsend
    induction hrun with
    | accepted now l => exact fun h hp => by cases l <;> exact absurd hp (by simp [connCreate])
    | @process c io hrun hlive hroom _ =>
      exact awake_connProcess hrun.inv.1 hlive (hrun.attached hlive) hroom halive
    | stop _ hlive ih => exact awake_connBeginStop (ih hlive)
    | @sweep c now _ ih =>
      unfold connSweep at halive ⊢
      split
      · rename_i hlate
        rw [if_pos hlate] at halive
        cases halive
      · rename_i hearly
        rw [if_neg hearly] at halive
        exact ih halive
    | drained _ _ _ => cases halive
    | drainDeadline _ _ => cases halive
  have hpending := hawake h hp ⟨st, hst, hsend⟩
  exact ⟨hpending, by rw [connWantsPollout, hpending]; rfl⟩

end Wakeup

/-! ### A response longer than the cap

The pump stops at the cap, and nothing wakes it again. -/

/-- A server with the fallback response, whose body does not fit under the cap. -/
def cappedLoop : LoopCfg :=
  { srv := .silent, lim := zhsLimitsResolve { maxOutBytes := 100 } }

/-- A GET over HTTP/2 with prior knowledge arrives, and the transport answers `writes`. -/
def getIo (writes : List WriteRes) : ConnIo :=
  { pollin := true, read := .octets ⟨clientOctets [getRequest], by decide⟩, writes }

/-- The connection behind the GET. -/
def cappedConn (writes : List WriteRes) : Conn :=
  connProcess cappedLoop (connCreate 0 .plain) (getIo writes)

/-- Some stream can send. -/
def sendsNext (c : Conn) : Bool :=
  match c.proto with
  | .h2 h => h.streams.any fun st =>
      decide (st.bodyOff < st.respBody.length) && decide (0 < st.sendWindow) &&
        decide (0 < h.sendWindow)
  | _ => false

theorem exists_sendable {c : Conn} (h : sendsNext c = true) :
    ∃ h2, c.proto = .h2 h2 ∧ ∃ st ∈ h2.streams, Sendable h2 st := by
  unfold sendsNext at h
  split at h
  · rename_i h2 hp
    obtain ⟨st, hst, hsend⟩ := List.any_eq_true.mp h
    simp only [Bool.and_eq_true, decide_eq_true_eq] at hsend
    exact ⟨h2, hp, st, hst, hsend.1.1, hsend.1.2, hsend.2⟩
  · cases h

theorem loop_noLostWakeup_blocked :
    (cappedConn []).outPending = true ∧ connWantsPollout (cappedConn []) = true := by
  have hroom : RoomToSend cappedLoop (connCreate 0 .plain) (getIo []) := .inl (by decide)
  obtain ⟨h, hp, st, hst, hsend⟩ := exists_sendable (c := cappedConn []) (by decide +kernel)
  exact loop_noLostWakeup (.process (getIo []) (.accepted 0 .plain) rfl hroom)
    (by decide +kernel) hp hst hsend

/-- The transport takes everything: the body stays behind, and nobody will ask for it. -/
theorem loop_lostWakeup :
    ¬∀ (g : LoopCfg) (c : Conn), 9 < g.lim.maxOutBytes → LoopRun g AnyIo c → c.dead = false →
      ∀ h, c.proto = .h2 h → ∀ st ∈ h.streams, Sendable h st → c.outPending = true := by
  intro hall
  obtain ⟨h, hp, st, hst, hsend⟩ :=
    exists_sendable (c := cappedConn [.accepted 1000]) (by decide +kernel)
  have hpending := hall cappedLoop _ (by decide)
    (.process (getIo [.accepted 1000]) (.accepted 0 .plain) rfl trivial) (by decide +kernel)
    h hp st hst hsend
  revert hpending
  decide +kernel

end Zcio
