import Zcio.Server.Iteration
import Zcio.H1.Segment

/-!
# Zcio.Server.Phase

The three phases of `conn_process`, each with everything it can do: the input
(`connInput_cases`), the feed (`connFeedPre_cases`), and the output with the close decision
(`connProcess_emits`). An invariant of the loop goes through the three by cases.
-/

namespace Zcio

/-! ### The input

The ways the first part of an iteration ends. -/

/-- The iteration reads octets. -/
def readsOctets (io : ConnIo) : Bool :=
  io.pollin && match io.read with
    | .octets b => !b.1.isEmpty
    | _ => false

/-- **What the input phase can do.** -/
inductive InputCase (g : LoopCfg) (c : Conn) (io : ConnIo) : Conn → Prop where
  | quiet (peerEof dead : Bool) : (c.dead = true → dead = true) →
      InputCase g c io { c with peerEof, dead }
  | read (peerEof : Bool) {b : Bytes} {hb : b.length ≤ READ_SCRATCH} : c.tlsPending = false →
      io.pollin = true → io.read = .octets ⟨b, hb⟩ → b ≠ [] →
      InputCase g c io { c with
        peerEof
        inp := c.inp ++ b
        rcvd := c.rcvd ++ b
        activityMs := io.now }
  /-- The TLS handshake is over. -/
  | secured (peerEof : Bool) (alpn : Option Bytes) : c.tlsPending = true →
      InputCase g c io
        (connSelectProtoTls g { c with peerEof, tlsPending := false, activityMs := io.now } alpn)

section Phases

variable {g : LoopCfg} {c : Conn}

theorem connInput_cases (c : Conn) (io : ConnIo) : InputCase g c io (connInput g c io) := by
  unfold connInput
  dsimp only
  obtain ⟨e, he⟩ : ∃ e, (if io.pollerr = true then { c with peerEof := true } else c) =
      { c with peerEof := e } := by
    split
    · exact ⟨true, rfl⟩
    · exact ⟨c.peerEof, rfl⟩
  rw [he]
  split
  · rename_i htls
    split
    · split
      · exact .secured e _ htls
      · exact .quiet e c.dead id
      · exact .quiet e true fun _ => rfl
    · exact .quiet e c.dead id
  · rename_i htls
    split
    · rename_i hin
      unfold connRead
      split
      · rename_i b hread
        split
        · exact .quiet true c.dead id
        · rename_i hne
          exact .read e (by simpa using htls) hin hread hne
      · exact .quiet e c.dead id
      · exact .quiet true c.dead id
    · exact .quiet e c.dead id

/-! ### The feed

The ways the second part ends, by the version. -/

/-- The HTTP/1.1 connection the parser is called on: the one there is, or a new one when the
octets do not start with the HTTP/2 preface. -/
structure StartsH1 (g : LoopCfg) (c : Conn) (h : Zh1Conn) : Prop where
  chosen : (connChoose g c).1.proto = .h1 h
  cases : c.proto = .h1 h ∨ c.proto = .unknown ∧ h = zh1New

/-- **What `conn_feed` can do up to its pump.** -/
inductive FeedCase (g : LoopCfg) (c : Conn) : Conn → Prop where
  /-- More octets are needed to choose the protocol. -/
  | undecided : c.proto = .unknown → (connChoose g c).1.proto = .unknown →
      c.inp.length < H2_PREFACE.length → FeedCase g c c
  /-- The version is not enabled. -/
  | refused : c.proto = .unknown → (connChoose g c).1.proto = .unknown →
      FeedCase g c { c with dead := true }
  | h1 {h : Zh1Conn} : StartsH1 g c h → (zh1Feed (g.h1 c) h c.inp).rc.stops = false →
      FeedCase g c { c with
        proto := .h1 (zh1Feed (g.h1 c) h c.inp).c, inp := (zh1Feed (g.h1 c) h c.inp).inp }
  | h1Close {h : Zh1Conn} : StartsH1 g c h → (zh1Feed (g.h1 c) h c.inp).rc = .close →
      FeedCase g c { c with
        proto := .h1 (zh1Feed (g.h1 c) h c.inp).c, inp := (zh1Feed (g.h1 c) h c.inp).inp
        wantClose := true }
  | h1Detached {h : Zh1Conn} : StartsH1 g c h → (zh1Feed (g.h1 c) h c.inp).rc = .detached →
      FeedCase g c
        (zhsDetachForUpgrade c (zh1Feed (g.h1 c) h c.inp).c (zh1Feed (g.h1 c) h c.inp).inp)
  | h2 {h : Zh2Conn} : c.proto = .h2 h ∨ c.proto = .unknown ∧ h = zh2New (g.h2 c.secure) →
      FeedCase g c { c with
        proto := .h2 (zh2Feed (g.h2 c.secure) h c.inp).2.1
        inp := (zh2Feed (g.h2 c.secure) h c.inp).2.2
        wantClose := c.wantClose || (zh2Feed (g.h2 c.secure) h c.inp).1 == .closing }

/-- The parser of HTTP/1.1, on a connection that may have just become one. -/
theorem connParse_h1 {h : Zh1Conn} (hs : StartsH1 g c h) :
    FeedCase g c (connParse g { c with proto := .h1 h }) := by
  unfold connParse
  dsimp only
  have hcfg : g.h1 { c with proto := .h1 h } = g.h1 c := rfl
  rw [hcfg]
  cases hrc : (zh1Feed (g.h1 c) h c.inp).rc with
  | needMore => exact .h1 hs (by rw [hrc]; rfl)
  | dispatched => exact .h1 hs (by rw [hrc]; rfl)
  | close => exact .h1Close hs hrc
  | detached => exact .h1Detached hs hrc

theorem connFeedPre_cases (halive : c.dead = false) : FeedCase g c (connFeedPre g c) := by
  unfold connFeedPre
  -- a version that was chosen feeds its own parser
  cases hp : c.proto with
  | h1 h =>
    have hchoose : connChoose g c = (c, true) := by rw [connChoose, hp]
    rw [hchoose]
    dsimp only
    rw [halive, if_neg (by simp)]
    have hc : ({ c with proto := .h1 h } : Conn) = c := by rw [← hp]
    have hparse := connParse_h1 (g := g) ⟨by rw [hchoose]; exact hp, .inl hp⟩
    rwa [hc] at hparse
  | h2 h =>
    have hchoose : connChoose g c = (c, true) := by rw [connChoose, hp]
    rw [hchoose]
    dsimp only
    rw [halive, if_neg (by simp)]
    unfold connParse
    rw [hp]
    exact .h2 (.inl hp)
  -- none yet: the octets decide
  | unknown =>
    have hchoose : connChoose g c = connSelectProtoPlain g c := by rw [connChoose, hp]
    rw [hchoose]
    unfold connSelectProtoPlain at hchoose ⊢
    dsimp only at hchoose ⊢
    -- no octet yet
    split at hchoose
    · rename_i h0
      rw [if_pos h0]
      refine .undecided hp (by rw [hchoose]; exact hp) ?_
      rw [h0]
      decide
    · rename_i h0
      rw [if_neg h0]
      -- the beginning of the preface of HTTP/2
      split at hchoose
      · rename_i hlook
        rw [if_pos hlook]
        split at hchoose
        · rename_i hshort
          rw [if_pos hshort]
          exact .undecided hp (by rw [hchoose]; exact hp) hshort
        · rename_i hlong
          rw [if_neg hlong]
          dsimp only
          rw [if_neg (by simp [halive])]
          exact .h2 (.inr ⟨hp, rfl⟩)
      · -- anything else is HTTP/1, if the listener takes it
        rename_i hlook
        rw [if_neg hlook]
        unfold connStartH1 at hchoose ⊢
        split at hchoose
        · rename_i hon
          rw [if_pos hon]
          dsimp only
          rw [if_neg (by simp [halive])]
          exact connParse_h1 ⟨by rw [hchoose], .inr ⟨hp, rfl⟩⟩
        · rename_i hoff
          rw [if_neg hoff]
          exact .refused hp (by rw [hchoose]; exact hp)

/-! ### The output

What the rest of an iteration does to a connection, whatever version it speaks. -/

/-- What the output phase does to the protocol module: octets leave the buffer, and the pump
of HTTP/2 runs. -/
inductive ConnProto.Emits (g : H2Cfg) (p : ConnProto) : ConnProto → Prop where
  | refl : Emits g p p
  | write {p' : ConnProto} (o : ZhsBuf) : Emits g p p' → Emits g p (p'.withOut o)
  | pump {h : Zh2Conn} : Emits g p (.h2 h) → Emits g p (.h2 (zh2Pump g h))

theorem ConnProto.Emits.unknown {g : H2Cfg} {p' : ConnProto} (h : ConnProto.unknown.Emits g p') :
    p' = .unknown := by
  induction h with
  | refl => rfl
  | write o _ ih => rw [ih]; rfl
  | pump _ ih => cases ih

theorem ConnProto.Emits.h1 {g : H2Cfg} {h : Zh1Conn} {p' : ConnProto}
    (he : (ConnProto.h1 h).Emits g p') : ∃ out, p' = .h1 { h with out } := by
  induction he with
  | refl => exact ⟨h.out, rfl⟩
  | write o _ ih =>
    obtain ⟨out, rfl⟩ := ih
    exact ⟨o, rfl⟩
  | pump _ ih =>
    obtain ⟨_, heq⟩ := ih
    cases heq

theorem ConnProto.Emits.h2 {g : H2Cfg} {h : Zh2Conn} {p' : ConnProto}
    (he : (ConnProto.h2 h).Emits g p') : ∃ h', p' = .h2 h' ∧ h'.gotError = h.gotError := by
  induction he with
  | refl => exact ⟨h, rfl, rfl⟩
  | write o _ ih =>
    obtain ⟨h', rfl, herr⟩ := ih
    exact ⟨_, rfl, herr⟩
  | pump _ ih =>
    obtain ⟨h', heq, herr⟩ := ih
    cases heq
    exact ⟨_, rfl, (gotError_zh2Pump _).trans herr⟩

/-- Writes are the only thing that counts as activity here. -/
theorem connFlush_activity (now : Nat) (c : Conn) (ws : List WriteRes) :
    (connFlush now c ws).activityMs = c.activityMs ∨
      (connFlush now c ws).activityMs = now ∧
        c.wire.length < (connFlush now c ws).wire.length := by
  induction ws generalizing c with
  | nil => exact .inl rfl
  | cons w ws ih =>
    unfold connFlush
    split
    · rename_i hpending
      cases w with
      | wouldBlock => exact .inl rfl
      | failed => exact .inl rfl
      | accepted n =>
        dsimp only
        split
        · exact .inl rfl
        · -- at least one octet went out
          rename_i hn
          have hgrow : c.wire.length <
              (c.wire ++ c.proto.out.rd.take (min n c.proto.out.avail)).length := by
            have hpos : 0 < c.proto.out.rd.length := by
              have hne := Conn.outPending_iff.mp hpending
              rw [← List.length_pos_iff] at hne
              exact hne
            rw [List.length_append, List.length_take]
            unfold ZhsBuf.avail
            omega
          rcases ih { c with
            proto := c.proto.consume (min n c.proto.out.avail)
            wire := c.wire ++ c.proto.out.rd.take (min n c.proto.out.avail)
            activityMs := now } with hsame | ⟨hnow, hlen⟩
          · refine .inr ⟨hsame, ?_⟩
            obtain ⟨o, t, a, f, -, heq⟩ := connFlush_eq now { c with
              proto := c.proto.consume (min n c.proto.out.avail)
              wire := c.wire ++ c.proto.out.rd.take (min n c.proto.out.avail)
              activityMs := now } ws
            rw [heq]
            refine hgrow.trans_le ?_
            rw [@List.length_append _ _ t]
            exact Nat.le_add_right _ _
          · exact .inr ⟨hnow, hgrow.trans hlen⟩
    · exact .inl rfl

/-- The close decision asks for the close only behind the end of the peer's stream. -/
theorem wantClose_connCloseDecision (h : (connCloseDecision c).wantClose = true) :
    c.wantClose = true ∨ c.peerEof = true := by
  unfold connCloseDecision at h
  split at h
  · exact .inl h
  · dsimp only at h
    generalize hc₁ : (if (c.wantClose && !c.outPending) = true then { c with dead := true } else c) = c₁ at h
    have hsame : c₁.wantClose = c.wantClose ∧ c₁.peerEof = c.peerEof := by
      subst hc₁
      split <;> exact ⟨rfl, rfl⟩
    rw [← hsame.1, ← hsame.2]
    split at h
    · rename_i heof
      exact .inr heof
    · exact .inl h

/-- What the output phase makes of a connection. -/
structure Emitted (g : LoopCfg) (now : Nat) (b c' : Conn) : Prop where
  frame : ∃ (proto : ConnProto) (wire : Bytes) (activityMs : Nat) (dead wantClose writeFailed : Bool),
    c' = { b with proto, wire, activityMs, dead, wantClose, writeFailed }
  proto : b.proto.Emits (g.h2 b.secure) c'.proto
  dead : b.dead = true → c'.dead = true
  wantClose : c'.wantClose = true → b.wantClose = true ∨ b.peerEof = true
  activity : c'.activityMs = b.activityMs ∧ b.wire.length ≤ c'.wire.length ∨
    c'.activityMs = now ∧ b.wire.length < c'.wire.length

theorem Emitted.refl (g : LoopCfg) (now : Nat) (b : Conn) : Emitted g now b b :=
  ⟨⟨_, _, _, _, _, _, rfl⟩, .refl, id, .inl, .inl ⟨rfl, Nat.le_refl _⟩⟩

section Emitted

variable {now : Nat} {b c' : Conn}

theorem Emitted.pump (h : Emitted g now b c') : Emitted g now b (connPump g c') := by
  obtain ⟨⟨p, w, a, d, wc, wf, rfl⟩, hproto, hdead, hclose, hact⟩ := h
  unfold connPump
  split
  · rename_i h2 hp
    have hp : p = .h2 h2 := hp
    subst hp
    exact ⟨⟨_, _, _, _, _, _, rfl⟩, hproto.pump, hdead, hclose, hact⟩
  · exact ⟨⟨_, _, _, _, _, _, rfl⟩, hproto, hdead, hclose, hact⟩

theorem Emitted.flush (h : Emitted g now b c') (ws : List WriteRes) :
    Emitted g now b (connFlush now c' ws) := by
  obtain ⟨⟨p, w, a, d, wc, wf, hc'⟩, hproto, hdead, hclose, hact⟩ := h
  have hactivity := connFlush_activity now c' ws
  obtain ⟨o, t, a', f, -, heq⟩ := connFlush_eq now c' ws
  have hwire : (connFlush now c' ws).wire.length = c'.wire.length + t.length := by
    rw [heq]
    exact List.length_append
  refine ⟨⟨_, _, _, _, _, _, by rw [heq, hc']⟩, ?_, fun hd => ?_, fun hw => ?_, ?_⟩
  · rw [heq]
    exact hproto.write o
  · rw [heq]
    show (c'.dead || f) = true
    rw [hdead hd, Bool.true_or]
  · rw [heq] at hw
    exact hclose hw
  · -- the times of the writes before, and of these
    rcases hactivity with hsame | ⟨hnow, hgrow⟩
    · rcases hact with ⟨ha, hle⟩ | ⟨ha, hlt⟩
      · exact .inl ⟨hsame.trans ha, by omega⟩
      · exact .inr ⟨hsame.trans ha, by omega⟩
    · refine .inr ⟨hnow, ?_⟩
      rcases hact with ⟨-, hle⟩ | ⟨-, hlt⟩ <;> omega

theorem Emitted.close (h : Emitted g now b c') : Emitted g now b (connCloseDecision c') := by
  obtain ⟨⟨p, w, a, d, wc, wf, hc'⟩, hproto, hdead, hclose, hact⟩ := h
  obtain ⟨d', wc', heq, hkeep, -⟩ := connCloseDecision_eq c'
  refine ⟨⟨_, _, _, _, _, _, by rw [heq, hc']⟩, ?_, fun hd => ?_, fun hw => ?_, ?_⟩
  · rw [heq]
    exact hproto
  · rw [heq]
    exact hkeep (hdead hd)
  · rcases wantClose_connCloseDecision hw with hw | heof
    · exact hclose hw
    · rw [hc'] at heof
      exact .inr heof
  · rw [heq]
    exact hact

end Emitted

/-- The pump does not look at the head timing, nor the other way round. -/
theorem connUpdateHeadTiming_connPump (b : Conn) (now : Nat) :
    connUpdateHeadTiming (connPump g b) now = connPump g (connUpdateHeadTiming b now) := by
  cases hp : b.proto with
  | h2 h =>
    unfold connUpdateHeadTiming connPump
    simp only [hp]
  | unknown =>
    unfold connUpdateHeadTiming connPump
    simp only [hp]
  | h1 h =>
    unfold connUpdateHeadTiming connPump
    simp only [hp]
    split
    · split <;> simp only [hp]
    · rfl

/-- The connection as the parser leaves it. -/
def connFed (g : LoopCfg) (c : Conn) (io : ConnIo) : Conn :=
  connUpdateHeadTiming (connFeedPre g (connInput g c io)) io.now

/-- **The output phase of an iteration that fed the parser.** -/
theorem connProcess_emits {io : ConnIo} (halive : (connInput g c io).dead = false)
    (htls : (connInput g c io).tlsPending = false) :
    Emitted g io.now (connFed g c io) (connProcess g c io) := by
  unfold connProcess
  dsimp only
  have hgo : (!(connInput g c io).dead && !(connInput g c io).tlsPending) = true := by
    rw [halive, htls]
    rfl
  rw [if_pos hgo, connFeed, connUpdateHeadTiming_connPump]
  refine Emitted.close ?_
  have hpump : ∀ c' : Conn, Emitted g io.now (connFed g c io) c' →
      Emitted g io.now (connFed g c io) (if (!c'.dead && io.pollout) = true then connPump g c'
        else c') := by
    intro c' h
    split
    · exact h.pump
    · exact h
  have hflush : ∀ c' : Conn, Emitted g io.now (connFed g c io) c' →
      Emitted g io.now (connFed g c io) (if (!c'.dead && c'.outPending) = true
        then connFlush io.now c' io.writes else c') := by
    intro c' h
    split
    · exact h.flush io.writes
    · exact h
  exact hflush _ (hpump _ (Emitted.refl g io.now _).pump)

/-- A connection whose input phase failed stays dead. -/
theorem connProcess_dead {io : ConnIo} (hdead : (connInput g c io).dead = true) :
    (connProcess g c io).dead = true := by
  unfold connProcess
  simp only [hdead, Bool.not_true, Bool.false_and, Bool.false_eq_true, if_false]
  obtain ⟨d, w, heq, hkeep, -⟩ := connCloseDecision_eq (connInput g c io)
  rw [heq]
  exact hkeep hdead

end Phases

end Zcio
