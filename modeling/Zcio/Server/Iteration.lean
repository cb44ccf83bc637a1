import Zcio.Server.Loop
import Zcio.H2.Pump

/-!
# Zcio.Server.Iteration

What one call of `conn_process` does, part by part, and for an HTTP/2 connection as a whole
(`connProcess_h2`). `ConnInv` is what every connection in the loop satisfies.
-/

namespace Zcio

/-! ### The output

The output of a connection does not depend on the version it speaks: it is a buffer, and the
socket takes from its front. -/

/-- The protocol module with another output buffer. -/
def ConnProto.withOut (o : ZhsBuf) : ConnProto → ConnProto
  | .unknown => .unknown
  | .h1 h => .h1 { h with out := o }
  | .h2 h => .h2 { h with out := o }

theorem ConnProto.withOut_self (p : ConnProto) : p.withOut p.out = p := by cases p <;> rfl

theorem ConnProto.withOut_withOut (p : ConnProto) (o o' : ZhsBuf) :
    (p.withOut o).withOut o' = p.withOut o' := by cases p <;> rfl

theorem ConnProto.consume_eq (p : ConnProto) (k : Nat) :
    p.consume k = p.withOut (p.out.consume k) := by cases p <;> rfl

theorem ConnProto.out_consume (p : ConnProto) (k : Nat) :
    (p.consume k).out.rd = p.out.rd.drop k := by
  cases p with
  | unknown => exact List.drop_nil.symm
  | h1 h => exact ZhsBuf.rd_consume h.out k
  | h2 h => exact ZhsBuf.rd_consume h.out k

/-- The transport takes `n` octets and no write fails up to then. -/
def takesAll : List WriteRes → Nat → Bool
  | .accepted k :: ws, n => n == 0 || (k != 0 && takesAll ws (n - k))
  | [], n | .wouldBlock :: _, n | .failed :: _, n => n == 0

theorem Conn.outPending_iff {c : Conn} : c.outPending = true ↔ c.proto.out.rd ≠ [] := by
  unfold Conn.outPending ZhsBuf.avail
  rw [decide_eq_true_eq, List.length_pos_iff]

theorem connFlush_idle (now : Nat) {c : Conn} (h : c.outPending = false) (ws : List WriteRes) :
    connFlush now c ws = c := by
  cases ws with
  | nil => rfl
  | cons w ws => simp [connFlush, h]

/-- **What `conn_flush` does**: some of the queued octets go to the transport, in order, and a
failed write marks the connection dead. -/
theorem connFlush_eq (now : Nat) (c : Conn) (ws : List WriteRes) :
    ∃ (o : ZhsBuf) (t : Bytes) (activityMs : Nat) (failed : Bool), c.proto.out.rd = t ++ o.rd ∧
      connFlush now c ws = { c with
        proto := c.proto.withOut o
        wire := c.wire ++ t
        activityMs
        dead := c.dead || failed
        writeFailed := c.writeFailed || failed } := by
  induction ws generalizing c with
  | nil => exact ⟨c.proto.out, [], c.activityMs, false, rfl, by simp [connFlush, c.proto.withOut_self]⟩
  | cons w ws ih =>
    have hstay : ∃ (o : ZhsBuf) (t : Bytes) (activityMs : Nat) (failed : Bool),
        c.proto.out.rd = t ++ o.rd ∧ c = { c with
          proto := c.proto.withOut o
          wire := c.wire ++ t
          activityMs
          dead := c.dead || failed
          writeFailed := c.writeFailed || failed } :=
      ⟨c.proto.out, [], c.activityMs, false, rfl, by simp [c.proto.withOut_self]⟩
    have hfail : ∃ (o : ZhsBuf) (t : Bytes) (activityMs : Nat) (failed : Bool),
        c.proto.out.rd = t ++ o.rd ∧ { c with dead := true, writeFailed := true } = { c with
          proto := c.proto.withOut o
          wire := c.wire ++ t
          activityMs
          dead := c.dead || failed
          writeFailed := c.writeFailed || failed } :=
      ⟨c.proto.out, [], c.activityMs, true, rfl, by simp [c.proto.withOut_self]⟩
    unfold connFlush
    split
    · cases w with
      | wouldBlock => exact hstay
      | failed => exact hfail
      | accepted n =>
        dsimp only
        split
        · exact hfail
        · -- what this write took, then what the next ones take
          obtain ⟨o, t, a, f, hrd, heq⟩ := ih { c with
            proto := c.proto.consume (min n c.proto.out.avail)
            wire := c.wire ++ c.proto.out.rd.take (min n c.proto.out.avail)
            activityMs := now }
          rw [c.proto.out_consume] at hrd
          refine ⟨o, c.proto.out.rd.take (min n c.proto.out.avail) ++ t, a, f, ?_, ?_⟩
          · rw [List.append_assoc, ← hrd, List.take_append_drop]
          · rw [heq, ConnProto.consume_eq, ConnProto.withOut_withOut, List.append_assoc]
    · exact hstay

/-- **Output is pending behind a flush** unless the transport took all of it. -/
theorem connFlush_pending (now : Nat) (c : Conn) (ws : List WriteRes) :
    (connFlush now c ws).outPending = !takesAll ws c.proto.out.avail := by
  have hzero : ∀ c : Conn, c.outPending = !(c.proto.out.avail == 0) := by
    intro c
    unfold Conn.outPending
    cases c.proto.out.avail <;> rfl
  -- the loop takes one result of the transport a round
  induction ws generalizing c with
  | nil => exact hzero c
  | cons w ws ih =>
    unfold connFlush
    cases hpending : c.outPending with
    -- nothing is left to write, and nothing was to be taken
    | false =>
      have h0 : (c.proto.out.avail == 0) = true := by
        have := hzero c
        rw [hpending] at this
        simpa using this.symm
      cases w <;> simp [takesAll, h0, hpending]
    | true =>
      have h0 : (c.proto.out.avail == 0) = false := by
        have := hzero c
        rw [hpending] at this
        simpa using this.symm
      rw [if_pos rfl]
      cases w with
      -- a full socket and a failed write both leave the rest where it is
      | wouldBlock =>
        rw [takesAll, h0]
        exact hpending
      | failed =>
        rw [takesAll, h0]
        exact hpending
      | accepted n =>
        rw [takesAll, h0, Bool.false_or]
        dsimp only
        split
        · -- a write that takes nothing ends the loop as a full socket does
          rename_i hn
          rw [hn]
          exact hpending
        · rename_i hn
          -- what was taken comes off the front of the queue
          have havail : (c.proto.consume (min n c.proto.out.avail)).out.avail =
              c.proto.out.avail - n := by
            rw [ZhsBuf.avail, c.proto.out_consume, List.length_drop]
            show c.proto.out.avail - min n c.proto.out.avail = c.proto.out.avail - n
            omega
          rw [ih, havail, bne_iff_ne.mpr hn, Bool.true_and]

/-- What every write keeps, a flush keeps. -/
theorem connFlush_reach {R : Zh2Conn → Prop} (hdrain : ∀ h n, R h → R { h with out := h.out.consume n })
    (now : Nat) (ws : List WriteRes) {c : Conn} (hc : ∀ h, c.proto = .h2 h → R h) :
    ∀ h, (connFlush now c ws).proto = .h2 h → R h := by
  induction ws generalizing c with
  | nil => exact hc
  | cons w ws ih =>
    unfold connFlush
    split
    · cases w with
      | wouldBlock => exact hc
      | failed => exact hc
      | accepted n =>
        dsimp only
        split
        · exact hc
        · refine ih fun h heq => ?_
          have heq : c.proto.consume (min n c.proto.out.avail) = .h2 h := heq
          cases hp : c.proto with
          | h2 h₀ =>
            rw [hp] at heq
            cases heq
            exact hdrain h₀ _ (hc h₀ hp)
          | unknown =>
            rw [hp] at heq
            cases heq
          | h1 h₁ =>
            rw [hp] at heq
            cases heq
    · exact hc

theorem zh2Graceful_avail (h : Zh2Conn) : h.out.avail ≤ (zh2Graceful h).out.avail := by
  unfold zh2Graceful qGoaway
  split
  · exact Nat.le_refl _
  · show h.out.avail ≤ (h.out.append _).avail
    rw [ZhsBuf.avail_append]
    omega

/-- A graceful stop takes nothing out of the queue. -/
theorem outPending_connBeginStop {c : Conn} (h : c.outPending = true) :
    (connBeginStop c).outPending = true := by
  unfold connBeginStop
  unfold Conn.outPending at h ⊢
  split
  · rename_i hp
    rw [hp] at h
    exact h
  · rename_i h2 hp
    rw [hp, decide_eq_true_eq] at h
    exact decide_eq_true (h.trans_le (zh2Graceful_avail h2))
  · exact h

/-! ### The invariant

During the handshake no version is chosen, and what a version's parser has is a state that
its own module reaches. -/

/-- What holds of every connection in the loop: no protocol is chosen before the handshake is
over, and an HTTP/2 connection is one the calls of its module lead to. -/
structure ConnInv (g : LoopCfg) (c : Conn) : Prop where
  handshake : c.tlsPending = true → c.proto = .unknown
  reach : ∀ h, c.proto = .h2 h → Reachable (g.h2 c.secure) h

section Invariant

variable {g : LoopCfg} {c : Conn}

/-- Nothing but flags, buffers and times changed. -/
theorem ConnInv.congr {c' : Conn} (h : ConnInv g c) (hp : c'.proto = c.proto)
    (ht : c'.tlsPending = true → c.tlsPending = true) (hs : c'.secure = c.secure) :
    ConnInv g c' := by
  refine ⟨fun hpending => ?_, fun h2 heq => ?_⟩
  · rw [hp]
    exact h.handshake (ht hpending)
  · rw [hp] at heq
    rw [hs]
    exact h.reach h2 heq

theorem connInv_connCreate (now : Nat) (l : Listener) : ConnInv g (connCreate now l) := by
  have hh2 : ∀ h, (connCreate now l).proto ≠ .h2 h := by
    intro h
    cases l <;> simp [connCreate]
  refine ⟨fun htls => ?_, fun h heq => absurd heq (hh2 h)⟩
  cases l with
  | plain => rfl
  | tls => rfl
  | redirect => simp [connCreate] at htls

/-- An HTTP/1.1 connection, or none. -/
theorem connInv_connStartH1 (hp : c.proto = .unknown) (ht : c.tlsPending = false) :
    ConnInv g (connStartH1 g c) := by
  unfold connStartH1
  split
  · refine ⟨fun h => ?_, fun h heq => absurd heq (by simp)⟩
    rw [show c.tlsPending = true from h] at ht
    cases ht
  · refine ⟨fun _ => hp, fun h heq => ?_⟩
    rw [show c.proto = .h2 h from heq] at hp
    cases hp

theorem connInv_connSelectProtoTls (hp : c.proto = .unknown) (ht : c.tlsPending = false)
    (alpn : Option Bytes) : ConnInv g (connSelectProtoTls g c alpn) := by
  unfold connSelectProtoTls
  split
  · split
    · refine ⟨fun h => ?_, fun h heq => ?_⟩
      · rw [show c.tlsPending = true from h] at ht
        cases ht
      · cases heq
        exact .new
    · refine ⟨fun _ => hp, fun h heq => ?_⟩
      rw [show c.proto = .h2 h from heq] at hp
      cases hp
  · exact connInv_connStartH1 hp ht

theorem connInv_connInput (h : ConnInv g c) (io : ConnIo) : ConnInv g (connInput g c io) := by
  unfold connInput
  dsimp only
  generalize hc₁ : (if io.pollerr = true then { c with peerEof := true } else c) = c₁
  have h₁ : ConnInv g c₁ := by
    subst hc₁
    split
    · exact h.congr rfl id rfl
    · exact h
  split
  · rename_i htls
    have hp := h₁.handshake htls
    split
    · split
      · exact connInv_connSelectProtoTls (c := { c₁ with tlsPending := false, activityMs := io.now })
          hp rfl _
      · exact h₁
      · exact h₁.congr rfl id rfl
    · exact h₁
  · split
    · unfold connRead
      split
      · split
        · exact h₁.congr rfl id rfl
        · exact h₁.congr rfl id rfl
      · exact h₁
      · exact h₁.congr rfl id rfl
    · exact h₁

/-- Where `conn_feed` is not called, no protocol is chosen. -/
theorem connInput_unfed (h : ConnInv g c) (halive : c.dead = false) (io : ConnIo)
    (hoff : (connInput g c io).dead = true ∨ (connInput g c io).tlsPending = true) :
    (connInput g c io).proto = .unknown := by
  rcases hoff with hdead | htls
  · revert hdead
    unfold connInput
    dsimp only
    -- an error of the poll counts as the end of the peer's input
    generalize hc₁ : (if io.pollerr = true then { c with peerEof := true } else c) = c₁
    have h₁ : c₁.dead = false ∧ ConnInv g c₁ := by
      subst hc₁
      split
      · exact ⟨halive, h.congr rfl id rfl⟩
      · exact ⟨halive, h⟩
    -- no branch that goes on leaves the connection dead
    have hlive : ∀ {p : Prop}, c₁.dead = true → p := by
      intro p hdead
      rw [h₁.1] at hdead
      cases hdead
    split
    · -- the handshake is still to be finished, hence no version was chosen
      rename_i htls
      have hp := h₁.2.handshake htls
      split
      · split
        · unfold connSelectProtoTls connStartH1
          split
          · split
            · exact hlive
            · exact fun _ => hp
          · split
            · exact hlive
            · exact fun _ => hp
        · exact hlive
        · exact fun _ => hp
      · exact hlive
    · split
      · -- a read never ends the connection by itself
        unfold connRead
        split
        · split <;> exact hlive
        · exact hlive
        · exact hlive
      · exact hlive
  · exact (connInv_connInput h io).handshake htls

/-! ### Feeding

An iteration behind its feed, for a connection that speaks HTTP/2. -/

/-- `zh2_feed_` reports an error on the connection. -/
theorem zh2Feed_gotError {g : H2Cfg} {h : Zh2Conn} {inp : Bytes}
    (he : (zh2Feed g h inp).2.1.gotError = true) : (zh2Feed g h inp).1 = .closing := by
  unfold zh2Feed at he ⊢
  dsimp only at he ⊢
  generalize (if h.prefaceDone then (h, inp, true) else consumePreface h inp) = r at he ⊢
  obtain ⟨h', inp', ready⟩ := r
  cases ready with
  | true =>
    simp only [Bool.not_true, Bool.false_eq_true, if_false] at he ⊢
    rw [he, Bool.or_true, if_pos rfl]
  | false =>
    simp only [Bool.not_false, if_true] at he ⊢
    rw [he, if_pos rfl]

/-- The connection as `conn_feed` hands it to `zh2_pump_`; `none` when the iteration does not
feed it. -/
def connBehindFeed (g : LoopCfg) (c : Conn) (io : ConnIo) : Option Conn :=
  let c := connInput g c io
  if !c.dead && !c.tlsPending then some (connFeedPre g c) else none

/-- What `zh2_feed_` did to an HTTP/2 connection: the module is one its calls lead to, and a
connection error asks for the close. -/
structure FedH2 (g : LoopCfg) (b : Conn) (h : Zh2Conn) : Prop where
  proto : b.proto = .h2 h
  alive : b.dead = false
  attached : b.detached = false
  reach : Reachable (g.h2 b.secure) h
  error : h.gotError = true → b.wantClose = true

/-- A parsed HTTP/2 connection was one before. -/
theorem connParse_h2 {h : Zh2Conn} (hp : (connParse g c).proto = .h2 h) :
    ∃ h₀, c.proto = .h2 h₀ ∧ h = (zh2Feed (g.h2 c.secure) h₀ c.inp).2.1 ∧
      connParse g c = { c with
        proto := .h2 h
        inp := (zh2Feed (g.h2 c.secure) h₀ c.inp).2.2
        wantClose := c.wantClose || (zh2Feed (g.h2 c.secure) h₀ c.inp).1 == .closing } := by
  revert hp
  unfold connParse
  cases hproto : c.proto with
  | unknown =>
    intro hp
    rw [hproto] at hp
    cases hp
  | h1 h₁ =>
    dsimp only
    cases (zh1Feed (g.h1 c) h₁ c.inp).rc <;> exact nofun
  | h2 h₀ =>
    intro hp
    cases hp
    exact ⟨h₀, rfl, rfl, rfl⟩

theorem connParse_fed {h : Zh2Conn} (hinv : ConnInv g c) (halive : c.dead = false)
    (hatt : c.detached = false) (hp : (connParse g c).proto = .h2 h) :
    FedH2 g (connParse g c) h := by
  obtain ⟨h₀, hproto, hfed, heq⟩ := connParse_h2 hp
  have hreach : Reachable (g.h2 c.secure) h := hfed ▸ (hinv.reach h₀ hproto).feed c.inp
  refine ⟨hp, by rw [heq]; exact halive, by rw [heq]; exact hatt, by rw [heq]; exact hreach,
    fun he => ?_⟩
  rw [hfed] at he
  rw [heq, zh2Feed_gotError he]
  exact Bool.or_true _

/-- The connection the parser gets once a protocol is chosen. -/
theorem connChoose_spec (hinv : ConnInv g c) (ht : c.tlsPending = false) :
    ConnInv g (connChoose g c).1 ∧ (connChoose g c).1.detached = c.detached ∧
      ((connChoose g c).2 = false → (connChoose g c).1 = c ∧ c.proto = .unknown) ∧
      ((connChoose g c).1.dead = true → c.dead = true ∨ (connChoose g c).1.proto = .unknown) := by
  unfold connChoose
  cases hp : c.proto with
  | unknown =>
    dsimp only
    unfold connSelectProtoPlain
    dsimp only
    split
    · -- nothing has arrived, so nothing is chosen
      exact ⟨hinv, rfl, fun _ => ⟨rfl, rfl⟩, fun h => .inl h⟩
    · -- the first octets agree with the preface of HTTP/2, in part or as a whole
      split
      · split
        · exact ⟨hinv, rfl, fun _ => ⟨rfl, rfl⟩, fun h => .inl h⟩
        · refine ⟨⟨fun h => ?_, fun h heq => ?_⟩, rfl, nofun, fun h => .inl h⟩
          · rw [show c.tlsPending = true from h] at ht
            cases ht
          · cases heq
            exact .new
      · -- any other octet makes it HTTP/1
        refine ⟨connInv_connStartH1 hp ht, ?_, nofun, ?_⟩
        · unfold connStartH1
          split <;> rfl
        · unfold connStartH1
          split
          · exact fun h => .inl h
          · exact fun _ => .inr hp
  -- a version once chosen stays
  | h1 h => exact ⟨hinv, rfl, nofun, fun h => .inl h⟩
  | h2 h => exact ⟨hinv, rfl, nofun, fun h => .inl h⟩

theorem connFeedPre_fed {h : Zh2Conn} (hinv : ConnInv g c) (halive : c.dead = false)
    (hatt : c.detached = false) (ht : c.tlsPending = false)
    (hp : (connFeedPre g c).proto = .h2 h) : FedH2 g (connFeedPre g c) h := by
  obtain ⟨hinv', hdet, hunchosen, hdead⟩ := connChoose_spec hinv ht
  unfold connFeedPre at hp ⊢
  dsimp only at hp ⊢
  split at hp
  · -- nothing was parsed: no protocol is chosen
    rename_i hstop
    exfalso
    rw [Bool.or_eq_true, Bool.not_eq_true'] at hstop
    rcases hstop with hno | hd
    · obtain ⟨heq, hunknown⟩ := hunchosen hno
      rw [heq, hunknown] at hp
      cases hp
    · rcases hdead hd with hd | hunknown
      · rw [halive] at hd
        cases hd
      · rw [hunknown] at hp
        cases hp
  · rename_i hgo
    rw [Bool.or_eq_true, not_or] at hgo
    rw [if_neg (by simpa using hgo)]
    exact connParse_fed hinv' (by simpa using hgo.2) (hdet.trans hatt) hp

end Invariant

/-! ### A whole iteration

Feed, pump, flush and the decision to close, put together. -/

section Iteration

variable {g : LoopCfg} {c : Conn}

theorem detached_connInput (io : ConnIo) : (connInput g c io).detached = c.detached := by
  unfold connInput
  dsimp only
  generalize hc₁ : (if io.pollerr = true then { c with peerEof := true } else c) = c₁
  have h₁ : c₁.detached = c.detached := by
    subst hc₁
    split <;> rfl
  rw [← h₁]
  split
  · split
    · split
      · unfold connSelectProtoTls connStartH1
        split <;> split <;> rfl
      · rfl
      · rfl
    · rfl
  · split
    · unfold connRead
      split
      · split <;> rfl
      · rfl
      · rfl
    · rfl

/-- **An iteration on an HTTP/2 connection** is the feed, one pump, the flush and the close
decision. The second call of `zh2_pump_`, made when `POLLOUT` was reported, changes nothing. -/
theorem connProcess_fed {io : ConnIo} {b : Conn} {h : Zh2Conn}
    (hb : connBehindFeed g c io = some b) (hfed : FedH2 g b h) :
    connProcess g c io = connCloseDecision (connFlush io.now
      { b with proto := .h2 (zh2Pump (g.h2 b.secure) h), timingHead := false } io.writes) := by
  unfold connBehindFeed at hb
  dsimp only at hb
  split at hb
  · rename_i hgo
    obtain rfl := Option.some.inj hb
    -- feeding ends with a pump, and the timing of heads leaves HTTP/2 alone
    have hpump : connUpdateHeadTiming (connFeed g (connInput g c io)) io.now =
        { connFeedPre g (connInput g c io) with
          proto := .h2 (zh2Pump (g.h2 (connFeedPre g (connInput g c io)).secure) h)
          timingHead := false } := by
      unfold connFeed connPump
      rw [hfed.proto]
      rfl
    -- the second pump of the iteration finds nothing more to send
    have hidem : zh2Pump (g.h2 (connFeedPre g (connInput g c io)).secure)
        (zh2Pump (g.h2 (connFeedPre g (connInput g c io)).secure) h) =
        zh2Pump (g.h2 (connFeedPre g (connInput g c io)).secure) h :=
      zh2Pump_idem hfed.reach.run.table.1.nodup
    unfold connProcess
    dsimp only
    rw [if_pos hgo, hpump]
    generalize hc₁ : ({ connFeedPre g (connInput g c io) with
      proto := .h2 (zh2Pump (g.h2 (connFeedPre g (connInput g c io)).secure) h)
      timingHead := false } : Conn) = c₁
    have hagain : connPump g c₁ = c₁ := by
      subst hc₁
      unfold connPump
      dsimp only
      rw [hidem]
    have hlive : c₁.dead = false := by
      subst hc₁
      exact hfed.alive
    -- the flush runs if there is output, and changes nothing if there is none
    rw [hagain, ite_self, hlive]
    cases hpending : c₁.outPending with
    | true => rw [if_pos (by rfl)]
    | false => rw [if_neg (by simp), connFlush_idle _ hpending]
  · cases hb

/-- The protocol is HTTP/2. -/
def ConnProto.isH2 : ConnProto → Bool
  | .h2 _ => true
  | _ => false

theorem ConnProto.isH2_withOut (p : ConnProto) (o : ZhsBuf) : (p.withOut o).isH2 = p.isH2 := by
  cases p <;> rfl

theorem isH2_connPump (c : Conn) : (connPump g c).proto.isH2 = c.proto.isH2 := by
  unfold connPump
  split
  · rename_i h hp
    rw [hp]
    rfl
  · rfl

theorem proto_connUpdateHeadTiming (c : Conn) (now : Nat) :
    (connUpdateHeadTiming c now).proto = c.proto := by
  unfold connUpdateHeadTiming
  split
  · split
    · split <;> rfl
    · rfl
  · rfl

/-- **The close decision**: a connection that was not handed over dies when nothing is queued
and the protocol or the peer has asked for the end. -/
theorem connCloseDecision_eq (c : Conn) :
    ∃ dead wantClose : Bool, connCloseDecision c = { c with dead, wantClose } ∧
      (c.dead = true → dead = true) ∧
      (dead = true → c.dead = true ∨ c.outPending = false ∧ (c.wantClose = true ∨ c.peerEof = true)) ∧
      (c.detached = false → c.wantClose = true → c.outPending = false → dead = true) := by
  by_cases hdet : c.detached = true
  · refine ⟨c.dead, c.wantClose, by rw [connCloseDecision, if_pos hdet], id, .inl, fun hatt => ?_⟩
    rw [hdet] at hatt
    cases hatt
  · cases hp : c.outPending with
    | true =>
      by_cases he : c.peerEof = true
      · exact ⟨c.dead, true, by simp [connCloseDecision, hdet, hp, he], id, .inl, nofun⟩
      · have heq : connCloseDecision c = c := by simp [connCloseDecision, hdet, hp, he]
        exact ⟨c.dead, c.wantClose, heq, id, .inl, nofun⟩
    | false =>
      cases hw : c.wantClose with
      | true =>
        have heq : connCloseDecision c = { c with dead := true } := by
          simp [connCloseDecision, hdet, hp, hw]
        exact ⟨true, c.wantClose, heq, fun _ => rfl, fun _ => .inr ⟨rfl, .inl rfl⟩,
          fun _ _ _ => rfl⟩
      | false =>
        by_cases he : c.peerEof = true
        · exact ⟨true, c.wantClose, by simp [connCloseDecision, hdet, hp, hw, he], fun _ => rfl,
            fun _ => .inr ⟨rfl, .inr he⟩, nofun⟩
        · have heq : connCloseDecision c = c := by simp [connCloseDecision, hdet, hw, he]
          exact ⟨c.dead, c.wantClose, heq, id, .inl, nofun⟩

theorem proto_connCloseDecision (c : Conn) : (connCloseDecision c).proto = c.proto := by
  obtain ⟨d, w, heq, -⟩ := connCloseDecision_eq c
  rw [heq]

theorem isH2_connFlush (now : Nat) (c : Conn) (ws : List WriteRes) :
    (connFlush now c ws).proto.isH2 = c.proto.isH2 := by
  obtain ⟨o, t, a, f, -, heq⟩ := connFlush_eq now c ws
  rw [heq]
  exact c.proto.isH2_withOut o

/-- What follows the feed does not change the protocol. -/
theorem isH2_connProcess (io : ConnIo) :
    (connProcess g c io).proto.isH2 =
      ((connBehindFeed g c io).getD (connInput g c io)).proto.isH2 := by
  unfold connProcess connBehindFeed
  dsimp only
  rw [proto_connCloseDecision]
  generalize connInput g c io = c₁
  have hflush : ∀ c₂ : Conn, (if (!c₂.dead && c₂.outPending) = true
      then connFlush io.now c₂ io.writes else c₂).proto.isH2 = c₂.proto.isH2 := by
    intro c₂
    split
    · exact isH2_connFlush io.now c₂ io.writes
    · rfl
  have hpump : ∀ c₂ : Conn, (if (!c₂.dead && io.pollout) = true then connPump g c₂
      else c₂).proto.isH2 = c₂.proto.isH2 := by
    intro c₂
    split
    · exact isH2_connPump c₂
    · rfl
  rw [hflush, hpump]
  split
  · rw [proto_connUpdateHeadTiming]
    exact isH2_connPump _
  · rfl

/-- **An HTTP/2 connection behind an iteration** was fed in it. -/
theorem connProcess_h2 (hinv : ConnInv g c) (halive : c.dead = false) (hatt : c.detached = false)
    {io : ConnIo} {h' : Zh2Conn} (hp : (connProcess g c io).proto = .h2 h') :
    ∃ b h, connBehindFeed g c io = some b ∧ FedH2 g b h := by
  have hh2 := isH2_connProcess (g := g) (c := c) io
  rw [hp] at hh2
  unfold connBehindFeed at hh2 ⊢
  dsimp only at hh2 ⊢
  split at hh2
  · rename_i hgo
    rw [Bool.and_eq_true, Bool.not_eq_true', Bool.not_eq_true'] at hgo
    rw [if_pos (by simp [hgo])]
    cases hb : (connFeedPre g (connInput g c io)).proto with
    | h2 h =>
      exact ⟨_, h, rfl, connFeedPre_fed (connInv_connInput hinv io) hgo.1
        ((detached_connInput io).trans hatt) hgo.2 hb⟩
    | unknown =>
      rw [Option.getD_some, hb] at hh2
      cases hh2
    | h1 h =>
      rw [Option.getD_some, hb] at hh2
      cases hh2
  · rename_i hstop
    have hoff : (connInput g c io).dead = true ∨ (connInput g c io).tlsPending = true := by
      cases hd : (connInput g c io).dead with
      | true => exact .inl rfl
      | false =>
        right
        simpa [hd] using hstop
    rw [Option.getD_none, connInput_unfed hinv halive io hoff] at hh2
    cases hh2

/-! ### The invariant over a run

Every event of the loop keeps the invariant: iterations, stops, sweeps and both ends of a
drain. -/

/-- What is settled before the first octet is parsed. -/
def Conn.fixed (c : Conn) : Bool × Bool × Bool := (c.secure, c.redirect, c.tlsPending)

theorem fixed_connFeedPre (c : Conn) : (connFeedPre g c).fixed = c.fixed := by
  have hchoose : (connChoose g c).1.fixed = c.fixed := by
    unfold connChoose
    split
    · unfold connSelectProtoPlain connStartH1
      dsimp only
      split
      · rfl
      · split
        · split <;> rfl
        · split <;> rfl
    · rfl
  have hparse : ∀ c : Conn, (connParse g c).fixed = c.fixed := by
    intro c
    unfold connParse
    split
    · rfl
    · dsimp only
      split <;> rfl
    · rfl
  unfold connFeedPre
  dsimp only
  split
  · exact hchoose
  · rw [hparse, hchoose]

theorem fixed_connPump (c : Conn) : (connPump g c).fixed = c.fixed := by
  unfold connPump
  split <;> rfl

theorem fixed_connUpdateHeadTiming (c : Conn) (now : Nat) :
    (connUpdateHeadTiming c now).fixed = c.fixed := by
  unfold connUpdateHeadTiming
  split
  · split
    · split <;> rfl
    · rfl
  · rfl

theorem fixed_connFlush (now : Nat) (c : Conn) (ws : List WriteRes) :
    (connFlush now c ws).fixed = c.fixed := by
  obtain ⟨o, t, a, f, -, heq⟩ := connFlush_eq now c ws
  rw [heq]
  rfl

theorem fixed_connCloseDecision (c : Conn) : (connCloseDecision c).fixed = c.fixed := by
  obtain ⟨d, w, heq, -⟩ := connCloseDecision_eq c
  rw [heq]
  rfl

theorem fixed_connProcess (io : ConnIo) :
    (connProcess g c io).fixed = (connInput g c io).fixed := by
  unfold connProcess
  dsimp only
  rw [fixed_connCloseDecision]
  generalize connInput g c io = c₁
  have hflush : ∀ c₂ : Conn, (if (!c₂.dead && c₂.outPending) = true
      then connFlush io.now c₂ io.writes else c₂).fixed = c₂.fixed := by
    intro c₂
    split
    · exact fixed_connFlush io.now c₂ io.writes
    · rfl
  have hpump : ∀ c₂ : Conn, (if (!c₂.dead && io.pollout) = true then connPump g c₂
      else c₂).fixed = c₂.fixed := by
    intro c₂
    split
    · exact fixed_connPump c₂
    · rfl
  rw [hflush, hpump]
  split
  · rw [fixed_connUpdateHeadTiming]
    exact (fixed_connPump _).trans (fixed_connFeedPre _)
  · rfl

/-- An iteration that does not feed leaves the connection without a protocol. -/
theorem connProcess_unfed {io : ConnIo} (hoff : connBehindFeed g c io = none)
    (hp : (connInput g c io).proto = .unknown) :
    connProcess g c io = connCloseDecision (connInput g c io) := by
  have hout : (connInput g c io).outPending = false := by
    unfold Conn.outPending
    rw [hp]
    rfl
  have hpump : connPump g (connInput g c io) = connInput g c io := by
    unfold connPump
    rw [hp]
  unfold connBehindFeed at hoff
  dsimp only at hoff
  split at hoff
  · cases hoff
  · rename_i hstop
    unfold connProcess
    dsimp only
    rw [if_neg hstop, hpump, ite_self, hout, Bool.and_false, if_neg (by simp)]

theorem connBehindFeed_eq_none {io : ConnIo} :
    connBehindFeed g c io = none ↔
      (connInput g c io).dead = true ∨ (connInput g c io).tlsPending = true := by
  unfold connBehindFeed
  dsimp only
  cases (connInput g c io).dead <;> cases (connInput g c io).tlsPending <;> simp

theorem connInv_connProcess (hinv : ConnInv g c) (halive : c.dead = false)
    (hatt : c.detached = false) (io : ConnIo) : ConnInv g (connProcess g c io) := by
  refine ⟨fun htls => ?_, fun h' hp => ?_⟩
  · have hfixed := congrArg (·.2.2) (fixed_connProcess (g := g) (c := c) io)
    have htls' : (connInput g c io).tlsPending = true := hfixed.symm.trans htls
    have hp := connInput_unfed hinv halive io (.inr htls')
    rw [connProcess_unfed (connBehindFeed_eq_none.mpr (.inr htls')) hp, proto_connCloseDecision, hp]
  · obtain ⟨b, h, hb, hfed⟩ := connProcess_h2 hinv halive hatt hp
    have hsecure : (connProcess g c io).secure = b.secure := by
      rw [connProcess_fed hb hfed]
      exact congrArg (·.1) ((fixed_connCloseDecision _).trans (fixed_connFlush io.now _ io.writes))
    rw [connProcess_fed hb hfed, proto_connCloseDecision] at hp
    rw [hsecure]
    exact connFlush_reach (fun h n hr => hr.drain n) io.now io.writes (fun h heq => by cases heq; exact hfed.reach.pump) h' hp

/-- A connection that was handed over is dead. -/
def Conn.Gone (c : Conn) : Prop := c.detached = true → c.dead = true

theorem gone_of_attached {c : Conn} (h : c.detached = false) : c.Gone := by
  intro hdet
  rw [h] at hdet
  cases hdet

theorem gone_connFeedPre {c : Conn} (h : c.detached = false) : (connFeedPre g c).Gone := by
  have hchoose : (connChoose g c).1.detached = false := by
    rw [← h]
    unfold connChoose
    split
    · unfold connSelectProtoPlain connStartH1
      dsimp only
      split
      · rfl
      · split
        · split <;> rfl
        · split <;> rfl
    · rfl
  unfold connFeedPre
  dsimp only
  split
  · exact gone_of_attached hchoose
  · unfold connParse
    split
    · exact gone_of_attached hchoose
    · dsimp only
      split
      · exact gone_of_attached hchoose
      · exact gone_of_attached hchoose
      · exact gone_of_attached hchoose
      · exact fun _ => rfl
    · exact gone_of_attached hchoose

theorem gone_connPump (h : c.Gone) : (connPump g c).Gone := by
  unfold connPump
  split
  · exact h
  · exact h

theorem gone_connUpdateHeadTiming (h : c.Gone) (now : Nat) :
    (connUpdateHeadTiming c now).Gone := by
  unfold connUpdateHeadTiming
  split
  · split
    · split <;> exact h
    · exact h
  · exact h

theorem gone_connFlush (h : c.Gone) (now : Nat) (ws : List WriteRes) :
    (connFlush now c ws).Gone := by
  obtain ⟨o, t, a, f, -, heq⟩ := connFlush_eq now c ws
  rw [heq]
  intro hdet
  show (c.dead || f) = true
  rw [h hdet, Bool.true_or]

theorem gone_connCloseDecision (h : c.Gone) : (connCloseDecision c).Gone := by
  obtain ⟨d, w, heq, hdead, -⟩ := connCloseDecision_eq c
  rw [heq]
  exact fun hdet => hdead (h hdet)

theorem gone_connProcess (hatt : c.detached = false) (io : ConnIo) : (connProcess g c io).Gone := by
  unfold connProcess
  dsimp only
  have hinput : (connInput g c io).detached = false := (detached_connInput io).trans hatt
  refine gone_connCloseDecision ?_
  have hflush : ∀ c₂ : Conn, c₂.Gone → (if (!c₂.dead && c₂.outPending) = true
      then connFlush io.now c₂ io.writes else c₂).Gone := by
    intro c₂ h₂
    split
    · exact gone_connFlush h₂ _ _
    · exact h₂
  have hpump : ∀ c₂ : Conn, c₂.Gone → (if (!c₂.dead && io.pollout) = true then connPump g c₂
      else c₂).Gone := by
    intro c₂ h₂
    split
    · exact gone_connPump h₂
    · exact h₂
  refine hflush _ (hpump _ ?_)
  split
  · exact gone_connUpdateHeadTiming (gone_connPump (gone_connFeedPre hinput)) _
  · exact gone_of_attached hinput

/-- **The invariant of the loop.** -/
theorem LoopRun.inv {ok : Conn → ConnIo → Prop} (h : LoopRun g ok c) : ConnInv g c ∧ c.Gone := by
  induction h with
  | accepted now l =>
    refine ⟨connInv_connCreate now l, gone_of_attached ?_⟩
    cases l <;> rfl
  | @process c io _ halive _ ih =>
    -- an iteration runs on connections that the server still owns
    have hatt : c.detached = false := by
      cases hd : c.detached with
      | false => rfl
      | true =>
        rw [ih.2 hd] at halive
        cases halive
    exact ⟨connInv_connProcess ih.1 halive hatt io, gone_connProcess hatt io⟩
  -- a stop makes each version finish what it has begun
  | @stop c _ _ ih =>
    unfold connBeginStop
    split
    · rename_i h hp
      refine ⟨⟨fun htls => ?_, fun h' heq => absurd heq (by simp)⟩, ih.2⟩
      rw [ih.1.handshake htls] at hp
      cases hp
    · rename_i h hp
      refine ⟨⟨fun htls => ?_, fun h' heq => ?_⟩, ih.2⟩
      · rw [ih.1.handshake htls] at hp
        cases hp
      · cases heq
        exact (ih.1.reach h hp).graceful
    · exact ih
  -- the sweep and the two ends of the drain only mark connections dead
  | sweep now _ ih =>
    unfold connSweep
    split
    · exact ⟨ih.1.congr rfl id rfl, fun _ => rfl⟩
    · exact ih
  | drained _ _ ih => exact ⟨ih.1.congr rfl id rfl, fun _ => rfl⟩
  | drainDeadline _ ih => exact ⟨ih.1.congr rfl id rfl, fun _ => rfl⟩

theorem LoopRun.attached {ok : Conn → ConnIo → Prop} (h : LoopRun g ok c)
    (halive : c.dead = false) : c.detached = false := by
  cases hd : c.detached with
  | false => rfl
  | true =>
    rw [h.inv.2 hd] at halive
    cases halive

end Iteration

/-- A server with the fallback response and the default limits. -/
def silentLoop : LoopCfg := { srv := .silent, lim := zhsLimitsResolve {} }

end Zcio
