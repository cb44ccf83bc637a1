import Zcio.Ws.Wire

/-!
# Zcio.Ws.Receive

`zcio_ws_recv` refines the reference. `WsLive` relates a session to what the reference makes of
the octets read so far: the events that are behind it, and a run on the input that is still
buffered. Calls keep it until the session is over, and then they deliver nothing.
-/

namespace Zcio

open Rfc6455 (Event End messages pongs messages_append pongs_append)

/-- The payloads of the pongs that a session has sent. -/
def Ws.pongsSent (ws : Ws) : List Bytes :=
  (ws.io.sent.filter fun s => decide (s.frame.opcode = .pong)).map fun s => s.frame.payload

/-- How far a session that only receives has come: the peer has closed it, it has failed on a
violation, or it may go on when there is more. -/
def Ws.outcome (ws : Ws) : End :=
  if ws.closeRecv then .closed else if ws.failed && ws.closeSent then .violation else .waiting

/-- All that a session has sent went out. -/
structure Ws.Flushed (ws : Ws) : Prop where
  healthy : ws.io.Healthy
  sent : ∀ s ∈ ws.io.sent, s.Whole
  wire : ws.io.wire = (ws.io.sent.map fun s => s.frame.encode).flatten

/-- A session that is in use, with `es` behind it. -/
structure WsLive (ws : Ws) (es : List Event) : Prop extends ws.Flushed where
  run : ∀ y, Rfc6455.run ws.isServer ws.maxMsgBytes none (ws.io.got ++ y) =
    (es ++ (Rfc6455.run ws.isServer ws.maxMsgBytes ws.progress (ws.inp ++ y)).1,
      (Rfc6455.run ws.isServer ws.maxMsgBytes ws.progress (ws.inp ++ y)).2)
  whole : ws.Whole
  pongs : ws.pongsSent = Rfc6455.pongs es
  opened : ws.closeSent = false ∧ ws.closeRecv = false ∧ ws.failed = false

/-- A session that is over: nothing more is read. -/
structure Over (ws : Ws) (es : List Event) (e : End) : Prop extends ws.Flushed where
  run : Rfc6455.run ws.isServer ws.maxMsgBytes none ws.io.got = (es, e)
  pongs : ws.pongsSent = Rfc6455.pongs es
  stopped : ws.closeRecv = true ∨ ws.failed = true
  outcome : ws.outcome = e

variable {ws ws' : Ws} {es : List Event}

theorem Ws.Fresh.live (h : ws.Fresh) (hio : ws.io.Healthy) : WsLive ws [] := by
  have hprogress : ws.progress = none := by
    unfold Ws.progress
    rw [h.idle.1]
    rfl
  refine ⟨⟨hio, ?_, ?_⟩, fun y => ?_, fun _ => h.idle.2, ?_, h.opened⟩
  · rw [h.wire.2]
    simp
  · rw [h.wire.1, h.wire.2]
    rfl
  · rw [hprogress, h.got, List.nil_append]
  · unfold Ws.pongsSent
    rw [h.wire.2]
    rfl

/-! ### Sending on a healthy transport

Answers to pings and closes go out whole. -/

theorem Ws.Flushed.congr (h : ws.Flushed) (hio : ws'.io = ws.io) : ws'.Flushed :=
  ⟨hio ▸ h.healthy, hio ▸ h.sent, hio ▸ h.wire⟩

theorem Ws.Flushed.send (h : ws.Flushed) (op : WsOpcode) (data : Bytes) :
    ∃ io, wsSendFrame ws op true data = (.ok (), { ws with io := io }) ∧
      Ws.Flushed { ws with io := io } ∧ io.got = ws.io.got ∧
      Ws.pongsSent { ws with io := io } =
        ws.pongsSent ++ if op = .pong then [data] else [] := by
  obtain ⟨key, io, heq, -, hwire, hsent, -, hgot, hio⟩ :=
    wsSendFrame_healthy h.healthy op true data
  refine ⟨io, heq, ⟨hio, ?_, ?_⟩, hgot, ?_⟩
  · intro s hs
    rw [hsent] at hs
    obtain hs | hs := List.mem_append.mp hs
    · exact h.sent s hs
    · rw [List.mem_singleton.mp hs]
      rfl
  · dsimp only
    rw [hwire, hsent, h.wire, List.map_append, List.flatten_append]
    simp
  · unfold Ws.pongsSent
    dsimp only
    rw [hsent, List.filter_append, List.map_append]
    by_cases hop : op = .pong
    · simp [hop]
    · simp [hop]

theorem Ws.Flushed.sendClose (h : ws.Flushed) (payload : Bytes) :
    ∃ io, wsSendClose ws payload = { ws with io := io, closeSent := true } ∧
      Ws.Flushed { ws with io := io } ∧ io.got = ws.io.got ∧
      Ws.pongsSent { ws with io := io } = ws.pongsSent := by
  unfold wsSendClose
  by_cases hs : ws.closeSent = true
  · rw [if_pos hs]
    refine ⟨ws.io, ?_, h.congr rfl, rfl, rfl⟩
    rw [← hs]
  · rw [if_neg hs]
    obtain ⟨io, heq, hflushed, hgot, hpongs⟩ := h.send .close payload
    refine ⟨io, by rw [heq], hflushed, hgot, hpongs.trans ?_⟩
    rw [if_neg (by decide), List.append_nil]

/-! ### A round

A round reads one frame, as the reference does. -/

theorem Ws.size_progress (h : ws.Whole) : ws.progress.size = ws.frag.length := by
  unfold Ws.progress
  cases hact : ws.fragActive with
  | true => rfl
  | false =>
    rw [h hact]
    rfl

theorem WsLive.violation (h : WsLive ws es) (hbad : ∀ y, Rfc6455.run ws.isServer ws.maxMsgBytes
      ws.progress (ws.inp ++ y) = ([], .violation)) {ws₁ : Ws} (hio : ws₁.io = ws.io)
    (hsame : ws₁.isServer = ws.isServer ∧ ws₁.maxMsgBytes = ws.maxMsgBytes ∧
      ws₁.closeRecv = ws.closeRecv) (code : Nat) (msg : String) :
    Over (wsProtocolFail ws₁ code msg).2 es .violation := by
  have hflushed₁ : ws₁.Flushed := h.toFlushed.congr hio
  obtain ⟨io, heq, hflushed, hgot, hpongs⟩ := hflushed₁.sendClose (wsCode code)
  have hws : (wsProtocolFail ws₁ code msg).2 =
      { ws₁ with io := io, closeSent := true, failed := true } := by
    unfold wsProtocolFail
    dsimp only
    rw [heq]
  rw [hws]
  refine ⟨hflushed.congr rfl, ?_, ?_, .inr rfl, ?_⟩
  · have hrun := h.run []
    rw [hbad [], List.append_nil, List.append_nil] at hrun
    dsimp only
    rw [hgot, hio, hsame.1, hsame.2.1, hrun]
  · refine Eq.trans hpongs (Eq.trans ?_ h.pongs)
    unfold Ws.pongsSent
    rw [hio]
  · unfold Ws.outcome
    dsimp only
    rw [hsame.2.2, h.opened.2.1]
    rfl

/-- A step of the reference. -/
theorem WsLive.step (h : WsLive ws es) {f : Rfc6455.Frame} {rest : Bytes}
    (hframe : ws.frame = .got f rest) {a : Rfc6455.Progress} {es' : List Event}
    (hstep : Rfc6455.step ws.progress f = .go a es') {ws' : Ws} (hflushed : ws'.Flushed)
    (hsame : ws'.isServer = ws.isServer ∧ ws'.maxMsgBytes = ws.maxMsgBytes ∧
      ws'.io.got = ws.io.got)
    (hopened : ws'.closeSent = false ∧ ws'.closeRecv = false ∧ ws'.failed = false)
    (hinp : ws'.inp = rest) (hprogress : ws'.progress = a) (hwhole : ws'.Whole)
    (hpongs : ws'.pongsSent = ws.pongsSent ++ Rfc6455.pongs es') : WsLive ws' (es ++ es') where
  toFlushed := hflushed
  run y := by
    have hgot : Rfc6455.frame ws.isServer ws.maxMsgBytes ws.progress.size (ws.inp ++ y) =
        .got f (rest ++ y) := by
      rw [Ws.size_progress h.whole]
      exact Rfc6455.frame_append hframe y
    have hgo := Rfc6455.run_go hgot hstep
    rw [hsame.1, hsame.2.1, hsame.2.2, h.run y, hgo, hinp, hprogress, List.append_assoc]
  whole := hwhole
  pongs := by rw [hpongs, h.pongs, pongs_append]
  opened := hopened

/-- What `ws_pump` ends with on a session in use that has delivered `ms`. -/
inductive PumpEnds (ms : List WsMsg) : PumpRes × Ws → Prop
  | more (ws : Ws) (es : List Event) : WsLive ws es → messages es = ms → PumpEnds ms (.more, ws)
  | message (ws : Ws) (es : List Event) (m : WsMsg) : WsLive ws es → messages es = ms ++ [m] →
      PumpEnds ms (.msg m, ws)
  | closed (ws : Ws) (es : List Event) : Over ws es .closed → messages es = ms →
      PumpEnds ms (.closed, ws)
  | violation (ws : Ws) (es : List Event) (f : Fail) : Over ws es .violation → messages es = ms →
      f.code = .protocol → PumpEnds ms (.fail (.fail f), ws)

theorem WsLive.pumpViolation (h : WsLive ws es) (hbad : ∀ y, Rfc6455.run ws.isServer ws.maxMsgBytes
      ws.progress (ws.inp ++ y) = ([], .violation)) {ws₁ : Ws} (hio : ws₁.io = ws.io)
    (hsame : ws₁.isServer = ws.isServer ∧ ws₁.maxMsgBytes = ws.maxMsgBytes ∧
      ws₁.closeRecv = ws.closeRecv) (code : Nat) (msg : String) :
    PumpEnds (messages es) (wsProtocolFail ws₁ code msg) :=
  .violation _ es _ (h.violation hbad hio hsame code msg) rfl rfl

/-- **A round of `ws_pump`** on a session in use is one step of the reference. -/
theorem WsLive.round (h : WsLive ws es) :
    (∃ ws' es', wsPumpRound ws = .inl ws' ∧ WsLive ws' es' ∧ messages es' = messages es) ∨
    ∃ r, wsPumpRound ws = .inr r ∧ PumpEnds (messages es) r := by
  have hcases := wsPumpRound_cases ws
  generalize wsPumpRound ws = r at hcases
  cases hcases with
  | more hmore => exact .inr ⟨_, rfl, .more ws es h rfl⟩
  | violation code msg hbad =>
    refine .inr ⟨_, rfl, h.pumpViolation (fun y => Rfc6455.run_violation ?_) rfl ⟨rfl, rfl, rfl⟩
      code msg⟩
    rw [Ws.size_progress h.whole]
    exact Rfc6455.frame_violation_append hbad y
  | frame f rest inp total hframe hdrop hlen =>
    have hgot : ∀ y, Rfc6455.frame ws.isServer ws.maxMsgBytes ws.progress.size (ws.inp ++ y) =
        .got f (rest ++ y) := fun y => by
      rw [Ws.size_progress h.whole]
      exact Rfc6455.frame_append hframe y
    have hflushed : Ws.Flushed { ws with inp } := h.toFlushed.congr rfl
    have hcases := wsPumpFrame_cases { ws with inp } f total
    generalize wsPumpFrame { ws with inp } f.opcode f.fin f.payload total = r at hcases
    cases hcases with
    | ping hop hok =>
      obtain ⟨io, heq, hflushed', hgot', hpongs⟩ := hflushed.send .pong f.payload
      have hstep : Rfc6455.step ws.progress f = .go ws.progress [.pong f.payload] := by
        unfold Rfc6455.step
        rw [hop]
      rw [heq]
      refine .inl ⟨_, _, rfl, h.step hframe hstep (hflushed'.congr rfl) ⟨rfl, rfl, hgot'⟩ h.opened
        hdrop rfl h.whole hpongs, ?_⟩
      rw [messages_append]
      exact List.append_nil _
    | pingFailed e hop herr =>
      -- the pong of a healthy transport goes out
      obtain ⟨io, heq, -⟩ := hflushed.send .pong f.payload
      rw [heq] at herr
      cases herr
    | pong hop =>
      have hstep : Rfc6455.step ws.progress f = .go ws.progress [] := by
        unfold Rfc6455.step
        rw [hop]
      refine .inl ⟨_, _, rfl, h.step hframe hstep (hflushed.congr rfl) ⟨rfl, rfl, rfl⟩ h.opened
        hdrop rfl h.whole (List.append_nil _).symm, ?_⟩
      rw [messages_append]
      exact List.append_nil _
    | violation inp' frag active code msg hle hstep =>
      have hstop : ∀ y, Rfc6455.run ws.isServer ws.maxMsgBytes ws.progress (ws.inp ++ y) =
          ([], .violation) := fun y => Rfc6455.run_stop (hgot y) (hstep h.whole)
      refine .inr ⟨_, rfl, ?_⟩
      apply h.pumpViolation hstop
      · rfl
      · exact ⟨rfl, rfl, rfl⟩
    | closed code echo hstep =>
      have hflushed' : Ws.Flushed { ws with inp, closeCode := code, closeRecv := true } :=
        h.toFlushed.congr rfl
      obtain ⟨io, heq, hflushed'', hgot'', hpongs⟩ := hflushed'.sendClose echo
      rw [heq]
      refine .inr ⟨_, rfl, .closed _ es ⟨hflushed''.congr rfl, ?_, hpongs.trans h.pongs, .inl rfl, rfl⟩
        rfl⟩
      have hrun := h.run []
      rw [Rfc6455.run_stop (hgot []) hstep, List.append_nil, List.append_nil] at hrun
      exact (congrArg (Rfc6455.run ws.isServer ws.maxMsgBytes none) hgot'').trans hrun
    | message m frag hstep =>
      obtain ⟨hfrag, hstep⟩ := hstep h.whole
      refine .inr ⟨_, rfl, .message _ _ m (h.step hframe hstep (hflushed.congr rfl) ⟨rfl, rfl, rfl⟩
        h.opened hdrop rfl (fun _ => hfrag) (List.append_nil _).symm) ?_⟩
      rw [messages_append]
      rfl
    | fragment op frag hstep =>
      refine .inl ⟨_, _, rfl, h.step hframe (hstep h.whole) (hflushed.congr rfl) ⟨rfl, rfl, rfl⟩
        h.opened hdrop rfl (fun hact => ?_) (List.append_nil _).symm, ?_⟩
      · cases hact
      · rw [messages_append]
        exact List.append_nil _

/-- **`ws_pump`** on a session in use. -/
theorem WsLive.pump (h : WsLive ws es) : PumpEnds (messages es) (wsPump ws) := by
  refine Lib.loop_inv wsPumpRound_decreases
    (I := fun ws => ∃ es', WsLive ws es' ∧ messages es' = messages es) ?_ ?_ ⟨es, h, rfl⟩
  · rintro s s' ⟨es', hlive, hms⟩ hb
    obtain ⟨ws', es'', heq, hlive', hms'⟩ | ⟨r, heq, -⟩ := hlive.round
    · rw [hb] at heq
      cases heq
      exact ⟨es'', hlive', hms'.trans hms⟩
    · rw [hb] at heq
      cases heq
  · rintro s r ⟨es', hlive, hms⟩ hb
    obtain ⟨ws', es'', heq, -⟩ | ⟨r', heq, hends⟩ := hlive.round
    · rw [hb] at heq
      cases heq
    · rw [hb] at heq
      cases heq
      rwa [hms] at hends

/-! ### The script

The octets of the transport that are still to be read. -/

/-- The octets that a script brings. -/
def wsOctets (reads : List WsRead) : Bytes :=
  reads.flatMap fun
    | .octets b => b.1
    | _ => []

/-- `ws'` is `ws` after some reads. -/
structure Ws.Reads (ws ws' : Ws) : Prop where
  isServer : ws'.isServer = ws.isServer
  maxMsgBytes : ws'.maxMsgBytes = ws.maxMsgBytes
  reads : ws'.io.reads <:+ ws.io.reads
  got : ws'.io.got ++ wsOctets ws'.io.reads = ws.io.got ++ wsOctets ws.io.reads

theorem Ws.Reads.refl (ws : Ws) : ws.Reads ws := ⟨rfl, rfl, List.suffix_rfl, rfl⟩

theorem Ws.Reads.trans {ws'' : Ws} (h : ws.Reads ws') (h' : ws'.Reads ws'') : ws.Reads ws'' :=
  ⟨h'.isServer.trans h.isServer, h'.maxMsgBytes.trans h.maxMsgBytes, h'.reads.trans h.reads,
    h'.got.trans h.got⟩

theorem Ws.Keeps.toReads (h : ws.Keeps ws') : ws.Reads ws' :=
  ⟨h.isServer, h.maxMsgBytes, h.reads ▸ List.suffix_rfl, by rw [h.got, h.reads]⟩

theorem reads_wsFill (ws : Ws) (ms : Int) : ws.Reads (wsFill ws ms).2 := by
  unfold wsFill
  dsimp only [wsApplyTimeout]
  cases hr : ws.io.reads with
  | nil => exact ⟨rfl, rfl, List.nil_suffix, by rw [hr]⟩
  | cons rd reads =>
    have hsuffix : reads <:+ ws.io.reads := hr ▸ List.suffix_cons ..
    cases rd with
    | octets b =>
      refine ⟨rfl, rfl, hsuffix, ?_⟩
      rw [hr]
      exact List.append_assoc ..
    | timeout => exact ⟨rfl, rfl, hsuffix, by rw [hr]; rfl⟩
    | eof => exact ⟨rfl, rfl, hsuffix, by rw [hr]; rfl⟩
    | error e => exact ⟨rfl, rfl, hsuffix, by rw [hr]; rfl⟩

/-! ### `zcio_ws_recv`

A call of recv, by how it ends. -/

/-- What `zcio_ws_recv` returns with on a session in use that has delivered `ms`: the reads of
`script` are to come, and the call has a timeout if `timed`. -/
inductive RecvEnds (script : List WsRead) (timed : Prop) (ms : List WsMsg) :
    Option (Except WsErr WsMsg) → Ws → Prop
  | message (ws : Ws) (es : List Event) (m : WsMsg) : WsLive ws es → messages es = ms ++ [m] →
      RecvEnds script timed ms (some (.ok m)) ws
  | blocks (ws : Ws) (es : List Event) : WsLive ws es → messages es = ms → ws.frame = .more →
      ws.io.reads = [] → RecvEnds script timed ms none ws
  | timeout (ws : Ws) (es : List Event) : WsLive ws es → messages es = ms → ws.frame = .more →
      timed → RecvEnds script timed ms (some (.error .timeout)) ws
  | error (ws : Ws) (es : List Event) (e : Int) : WsLive ws es → messages es = ms →
      ws.frame = .more → .error e ∈ script →
      RecvEnds script timed ms (some (.error (.stream e))) ws
  | lost (ws : Ws) (es : List Event) : Over ws es .waiting → messages es = ms → .eof ∈ script →
      RecvEnds script timed ms (some (.error .eof)) ws
  | closed (ws : Ws) (es : List Event) : Over ws es .closed → messages es = ms →
      RecvEnds script timed ms (some (.error .eof)) ws
  | violation (ws : Ws) (es : List Event) (f : Fail) : Over ws es .violation →
      messages es = ms → f.code = .protocol → RecvEnds script timed ms (some (.error (.fail f))) ws

/-- Looking at the clock and setting a timeout change nothing. -/
theorem WsLive.congr (h : WsLive ws es) {io : WsIo} (hio : io.writes = ws.io.writes ∧
      io.keys = ws.io.keys ∧ io.wire = ws.io.wire ∧ io.sent = ws.io.sent ∧ io.got = ws.io.got) :
    WsLive { ws with io := io } es := by
  obtain ⟨hwrites, hkeys, hwire, hsent, hgot⟩ := hio
  refine ⟨⟨⟨?_, ?_⟩, ?_, ?_⟩, fun y => ?_, h.whole, ?_, h.opened⟩
  · rw [hwrites]
    exact h.healthy.writes
  · rw [hkeys]
    exact h.healthy.keys
  · rw [hsent]
    exact h.sent
  · rw [hwire, hsent]
    exact h.wire
  · rw [hgot]
    exact h.run y
  · unfold Ws.pongsSent
    rw [hsent]
    exact h.pongs

/-- Nothing is left in the input but the beginning of a frame. -/
theorem WsLive.waits (h : WsLive ws es) (hmore : ws.frame = .more) :
    Rfc6455.run ws.isServer ws.maxMsgBytes none ws.io.got = (es, .waiting) := by
  have hrun := h.run []
  have hframe : Rfc6455.frame ws.isServer ws.maxMsgBytes ws.progress.size ws.inp = .more := by
    rw [Ws.size_progress h.whole]
    exact hmore
  rw [List.append_nil, List.append_nil, Rfc6455.run_more hframe, List.append_nil] at hrun
  exact hrun

/-- Octets that come in are read behind those that are there. -/
theorem WsLive.fill (h : WsLive ws es) (io : WsIo) (s : Bytes) (hio : io.writes = ws.io.writes ∧
      io.keys = ws.io.keys ∧ io.wire = ws.io.wire ∧ io.sent = ws.io.sent)
    (hgot : io.got = ws.io.got ++ s) :
    WsLive { ws with inp := ws.inp ++ s, io := io } es := by
  have h' : WsLive { ws with io := { io with got := ws.io.got } } es :=
    h.congr ⟨hio.1, hio.2.1, hio.2.2.1, hio.2.2.2, rfl⟩
  refine ⟨⟨⟨h'.healthy.writes, h'.healthy.keys⟩, h'.sent, h'.wire⟩, fun y => ?_, h.whole, h'.pongs,
    h.opened⟩
  have hrun := h.run (s ++ y)
  rw [← List.append_assoc, ← List.append_assoc] at hrun
  rw [hgot]
  exact hrun

/-- What `ws_fill` does in a session in use that waits for more. -/
inductive FillCases (ws : Ws) (es : List Event) : Option (Except WsErr Unit) × Ws → Prop
  | blocks (ws' : Ws) : WsLive ws' es → ws'.frame = ws.frame → ws'.io.reads = [] →
      FillCases ws es (none, ws')
  | got (ws' : Ws) : WsLive ws' es → FillCases ws es (some (.ok ()), ws')
  | timeout (ws' : Ws) : WsLive ws' es → ws'.frame = ws.frame →
      FillCases ws es (some (.error .timeout), ws')
  | eof (ws' : Ws) : WsLive ws' es → ws'.frame = ws.frame → .eof ∈ ws.io.reads →
      FillCases ws es (some (.error .eof), ws')
  | error (ws' : Ws) (e : Int) : WsLive ws' es → ws'.frame = ws.frame → .error e ∈ ws.io.reads →
      FillCases ws es (some (.error (.stream e)), ws')

theorem WsLive.fillCases (h : WsLive ws es) (ms : Int) : FillCases ws es (wsFill ws ms) := by
  unfold wsFill
  dsimp only [wsApplyTimeout]
  cases hr : ws.io.reads with
  | nil => exact .blocks _ (h.congr ⟨rfl, rfl, rfl, rfl, rfl⟩) rfl rfl
  | cons rd reads =>
    cases rd with
    | octets b => exact .got _ (h.fill _ b.1 ⟨rfl, rfl, rfl, rfl⟩ rfl)
    | timeout => exact .timeout _ (h.congr ⟨rfl, rfl, rfl, rfl, rfl⟩) rfl
    | eof =>
      exact .eof _ (h.congr ⟨rfl, rfl, rfl, rfl, rfl⟩) rfl (hr ▸ List.mem_cons_self)
    | error e =>
      exact .error _ e (h.congr ⟨rfl, rfl, rfl, rfl, rfl⟩) rfl (hr ▸ List.mem_cons_self)

theorem WsLive.timeLeft (h : WsLive ws es) (deadline : Option Nat) :
    WsLive (wsTimeLeft deadline ws).2 es ∧ (wsTimeLeft deadline ws).2.frame = ws.frame ∧
      ((wsTimeLeft deadline ws).1 = none → deadline ≠ none) := by
  unfold wsTimeLeft
  cases deadline with
  | none => exact ⟨h, rfl, fun hno => by cases hno⟩
  | some d => exact ⟨h.congr ⟨rfl, rfl, rfl, rfl, rfl⟩, rfl, fun _ => Option.some_ne_none d⟩

/-- The end of the transport. -/
theorem WsLive.lost (h : WsLive ws es) (hmore : ws.frame = .more) :
    Over { ws with failed := true } es .waiting := by
  refine ⟨⟨h.healthy, h.sent, h.wire⟩, h.waits hmore, h.pongs, .inr rfl, ?_⟩
  unfold Ws.outcome
  dsimp only
  rw [h.opened.1, h.opened.2.1]
  rfl

/-- **A round of `zcio_ws_recv`** on a session in use. -/
theorem WsLive.recvRound (h : WsLive ws es) (deadline : Option Nat) :
    (∃ ws' es', wsRecvRound deadline ws = .inl ws' ∧ WsLive ws' es' ∧ messages es' = messages es) ∨
    ∃ r ws', wsRecvRound deadline ws = .inr (r, ws') ∧
      RecvEnds ws.io.reads (deadline ≠ none) (messages es) r ws' := by
  have hpump := h.pump
  have hmore := wsPump_more ws
  have hreads := (keeps_wsPump ws).reads
  unfold wsRecvRound
  dsimp only
  generalize wsPump ws = p at hpump hmore hreads
  cases hpump with
  | message ws₁ es₁ m hlive hms => exact .inr ⟨_, _, rfl, .message ws₁ es₁ m hlive hms⟩
  | closed ws₁ es₁ hover hms => exact .inr ⟨_, _, rfl, .closed ws₁ es₁ hover hms⟩
  | violation ws₁ es₁ f hover hms hf => exact .inr ⟨_, _, rfl, .violation ws₁ es₁ f hover hms hf⟩
  | more ws₁ es₁ hlive hms =>
    have hframe : ws₁.frame = .more := hmore rfl
    obtain ⟨hlive', hframe', hnone⟩ := hlive.timeLeft deadline
    have hreads' := (keeps_wsTimeLeft deadline ws₁).reads
    rw [hframe] at hframe'
    rw [hreads] at hreads'
    dsimp only
    cases hleft : (wsTimeLeft deadline ws₁).1 with
    | none => exact .inr ⟨_, _, rfl, .timeout _ es₁ hlive' hms hframe' (hnone hleft)⟩
    | some ms =>
      have hfill := hlive'.fillCases ms
      dsimp only
      generalize wsFill (wsTimeLeft deadline ws₁).2 ms = f at hfill
      cases hfill with
      | blocks ws' hl hf hr => exact .inr ⟨_, _, rfl, .blocks ws' es₁ hl hms (hf.trans hframe') hr⟩
      | got ws' hl => exact .inl ⟨ws', es₁, rfl, hl, hms⟩
      | timeout ws' hl hf =>
        dsimp only
        by_cases hd : deadline = none
        · rw [if_pos hd]
          exact .inl ⟨ws', es₁, rfl, hl, hms⟩
        · rw [if_neg hd]
          exact .inr ⟨_, _, rfl, .timeout ws' es₁ hl hms (hf.trans hframe') hd⟩
      | eof ws' hl hf hmem =>
        exact .inr ⟨_, _, rfl, .lost _ es₁ (hl.lost (hf.trans hframe')) hms (hreads' ▸ hmem)⟩
      | error ws' e hl hf hmem =>
        exact .inr ⟨_, _, rfl, .error ws' es₁ e hl hms (hf.trans hframe') (hreads' ▸ hmem)⟩

theorem RecvEnds.mono {script script' : List WsRead} {timed timed' : Prop} {ms : List WsMsg}
    {r : Option (Except WsErr WsMsg)} (h : RecvEnds script timed ms r ws)
    (hscript : script <:+ script') (htimed : timed → timed') :
    RecvEnds script' timed' ms r ws := by
  cases h with
  | message _ es m hl hms => exact .message ws es m hl hms
  | blocks _ es hl hms hf hr => exact .blocks ws es hl hms hf hr
  | timeout _ es hl hms hf ht => exact .timeout ws es hl hms hf (htimed ht)
  | error _ es e hl hms hf hmem => exact .error ws es e hl hms hf (hscript.subset hmem)
  | lost _ es ho hms hmem => exact .lost ws es ho hms (hscript.subset hmem)
  | closed _ es ho hms => exact .closed ws es ho hms
  | violation _ es f ho hms hf => exact .violation ws es f ho hms hf

/-- The session behind a round of `zcio_ws_recv`. -/
theorem reads_wsRecvRound (deadline : Option Nat) (ws : Ws) :
    ws.Reads ((wsRecvRound deadline ws).elim id Prod.snd) := by
  have hpump := (keeps_wsPump ws).toReads
  have hleft := hpump.trans (keeps_wsTimeLeft deadline (wsPump ws).2).toReads
  unfold wsRecvRound
  dsimp only
  split
  · exact hpump
  · exact hpump
  · exact hpump
  split
  · exact hleft
  rename_i ms hms
  have hfill := hleft.trans (reads_wsFill (wsTimeLeft deadline (wsPump ws).2).2 ms)
  split
  · exact hfill
  · exact hfill
  · split
    · exact hfill
    · exact hfill
  · exact ⟨hfill.isServer, hfill.maxMsgBytes, hfill.reads, hfill.got⟩
  · exact hfill

theorem reads_wsDeadline (ws : Ws) (timeoutMs : Int) : ws.Reads (wsDeadline ws timeoutMs).2 := by
  unfold wsDeadline
  split
  · exact ⟨rfl, rfl, List.suffix_rfl, rfl⟩
  · exact .refl ws

theorem reads_zcioWsRecv (ws : Ws) (timeoutMs : Int) : ws.Reads (zcioWsRecv ws timeoutMs).2 := by
  unfold zcioWsRecv
  split
  · exact .refl ws
  refine Lib.loop_inv _ (I := ws.Reads)
    (Q := fun r : Option (Except WsErr WsMsg) × Ws => ws.Reads r.2) ?_ ?_ (reads_wsDeadline ..)
  · intro s s' hi hb
    have h := reads_wsRecvRound (wsDeadline ws timeoutMs).1 s
    rw [hb] at h
    exact hi.trans h
  · intro s r hi hb
    have h := reads_wsRecvRound (wsDeadline ws timeoutMs).1 s
    rw [hb] at h
    exact hi.trans h

/-- **`zcio_ws_recv`** on a session in use. -/
theorem WsLive.recv (h : WsLive ws es) (timeoutMs : Int) :
    RecvEnds ws.io.reads (0 ≤ timeoutMs) (messages es) (zcioWsRecv ws timeoutMs).1
      (zcioWsRecv ws timeoutMs).2 := by
  have hdeadline : WsLive (wsDeadline ws timeoutMs).2 es := by
    unfold wsDeadline
    split
    · exact h.congr ⟨rfl, rfl, rfl, rfl, rfl⟩
    · exact h
  have htimed : (wsDeadline ws timeoutMs).1 ≠ none → 0 ≤ timeoutMs := by
    intro hne
    by_contra hneg
    unfold wsDeadline at hne
    rw [if_neg hneg] at hne
    exact hne rfl
  have hreads := (reads_wsDeadline ws timeoutMs).reads
  unfold zcioWsRecv
  rw [if_neg (by rw [h.opened.2.1, h.opened.2.2]; decide)]
  refine Lib.loop_inv _ (I := fun s => ∃ es', WsLive s es' ∧ messages es' = messages es ∧
      s.io.reads <:+ ws.io.reads)
    (Q := fun r : Option (Except WsErr WsMsg) × Ws =>
      RecvEnds ws.io.reads (0 ≤ timeoutMs) (messages es) r.1 r.2) ?_ ?_
    ⟨es, hdeadline, rfl, hreads⟩
  · rintro s s' ⟨es', hlive, hms, hsuffix⟩ hb
    have hread := reads_wsRecvRound (wsDeadline ws timeoutMs).1 s
    rw [hb] at hread
    obtain ⟨ws', es'', heq, hlive', hms'⟩ | ⟨r, ws', heq, -⟩ :=
      hlive.recvRound (wsDeadline ws timeoutMs).1
    · rw [hb] at heq
      cases heq
      exact ⟨es'', hlive', hms'.trans hms, hread.reads.trans hsuffix⟩
    · rw [hb] at heq
      cases heq
  · rintro s r ⟨es', hlive, hms, hsuffix⟩ hb
    obtain ⟨ws', es'', heq, -⟩ | ⟨r', ws', heq, hends⟩ :=
      hlive.recvRound (wsDeadline ws timeoutMs).1
    · rw [hb] at heq
      cases heq
    · rw [hb] at heq
      cases heq
      rw [hms] at hends
      exact hends.mono hsuffix htimed

theorem Over.recv {e : End} (h : Over ws es e) (timeoutMs : Int) :
    zcioWsRecv ws timeoutMs = (some (.error .eof), ws) :=
  if_pos h.stopped

end Zcio
