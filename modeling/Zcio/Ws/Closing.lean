import Mathlib.Logic.Relation
import Zcio.Ws.RoundTrip

/-!
# Zcio.Ws.Closing

The closing handshake. `zcio_ws_close` sends a close frame and waits; the peer answers it with
a close frame of its own. `Closing` is the two sessions with the octets on the way between them,
and a step is a read or a `ws_pump` of one of them, so that a run is any interleaving of the two
and any cut of the octets into reads. Messages, pings and pongs that were on the way before may
stand in front of either close frame.
-/

namespace Zcio

open Relation (ReflTransGen)
open Rfc6455 (Event Progress isControl)

/-! ### Frames in front of a close frame

Messages, pings and pongs may stand in front of a close frame; the pongs that answer them
are such frames themselves. -/

/-- `s` is whole frames that a receiver takes and goes on, from the message in progress `a` to
`a'`. -/
inductive Passes (server : Bool) (max : Nat) : Progress → Bytes → Progress → Prop
  | nil (a : Progress) : Passes server max a [] a
  | cons {a a' b : Progress} {s rest : Bytes} {f : Rfc6455.Frame} {es : List Event} :
      Rfc6455.frame server max a.size s = .got f rest → Rfc6455.step a f = .go a' es →
      Passes server max a' rest b → Passes server max a s b

/-- `s` is pongs for a receiver of the role. -/
inductive Pongs (server : Bool) : Bytes → Prop
  | nil : Pongs server []
  | cons {key : Option MaskKey} {payload s : Bytes} : key.isSome = server → payload.length ≤ 125 →
      Pongs server s → Pongs server ((WsFrame.mk true .pong key payload).encode ++ s)

variable {server : Bool} {max : Nat} {a b : Progress} {s w : Bytes}

theorem Pongs.append (hs : Pongs server s) (hw : Pongs server w) : Pongs server (s ++ w) := by
  induction hs with
  | nil => exact hw
  | cons hkey hlen _ ih =>
    rw [List.append_assoc]
    exact .cons hkey hlen ih

/-- A control frame on the wire is read back whatever is in progress. -/
theorem control_encode (f : WsFrame) (hcontrol : isControl f.opcode = true) (hfin : f.fin = true)
    (hlen : f.payload.length ≤ 125) (max progress : Nat) (rest : Bytes) :
    Rfc6455.frame f.key.isSome max progress (f.encode ++ rest) =
      .got ⟨f.fin, f.opcode, f.payload⟩ rest := by
  refine frame_encode f (by omega) (fun _ => ⟨hfin, hlen⟩) (fun hno => ?_) rest
  rw [hcontrol] at hno
  cases hno

theorem Pongs.passes (hw : Pongs server w) (a : Progress) : Passes server max a w a := by
  induction hw with
  | nil => exact .nil a
  | @cons key payload s hkey hlen _ ih =>
    subst hkey
    exact .cons (control_encode ⟨true, .pong, key, payload⟩ rfl rfl hlen max a.size s) rfl ih

theorem Passes.pongs (h : Passes server max a s b) (hw : Pongs server w) :
    Passes server max a (s ++ w) b := by
  induction h with
  | nil a => exact hw.passes a
  | cons hframe hstep _ ih => exact .cons (Rfc6455.frame_append hframe w) hstep ih

/-- A control frame that is read is short. -/
theorem frame_control {progress : Nat} {rest : Bytes} {f : Rfc6455.Frame}
    (h : Rfc6455.frame server max progress s = .got f rest) (hcontrol : isControl f.opcode = true) :
    f.payload.length ≤ 125 := by
  unfold Rfc6455.frame at h
  cases hs : Rfc6455.head s with
  | more => rw [hs] at h; cases h
  | violation => rw [hs] at h; cases h
  | got hd r =>
    rw [hs] at h
    dsimp only at h
    split_ifs at h with hlegal
    cases hp : hd.payload r with
    | none => rw [hp] at h; cases h
    | some p =>
      obtain ⟨p, r'⟩ := p
      rw [hp] at h
      cases h
      rw [show p.length = hd.len from Rfc6455.Head.payload_length hp]
      exact (hlegal.1.2.2 hcontrol).2

/-! ### A session that reads

A session that waits for a close frame reads the frames in front of it, one a round, and
answers the pings among them. -/

/-- A session on a healthy transport that reads frames of its peer, of which `s` are in front of
the close frame; its own close frame may have been sent. -/
structure Ws.Reading (ws : Ws) (sent : Bool) (s : Bytes) : Prop where
  healthy : ws.io.Healthy
  whole : ws.Whole
  closeSent : ws.closeSent = sent
  closeRecv : ws.closeRecv = false
  failed : ws.failed = false
  passes : ∃ a, Passes ws.isServer ws.maxMsgBytes ws.progress s a

/-- `ws'` is `ws` after some rounds that answered pings with `w`. -/
structure Ws.Answers (ws ws' : Ws) (w : Bytes) : Prop where
  isServer : ws'.isServer = ws.isServer
  maxMsgBytes : ws'.maxMsgBytes = ws.maxMsgBytes
  wire : ws'.io.wire = ws.io.wire ++ w
  pongs : Pongs (!ws.isServer) w

variable {ws ws' : Ws} {sent : Bool}

theorem Ws.Answers.refl (ws : Ws) : ws.Answers ws [] :=
  ⟨rfl, rfl, (List.append_nil _).symm, .nil⟩

theorem Ws.Answers.trans {ws'' : Ws} {w' : Bytes} (h : ws.Answers ws' w) (h' : ws'.Answers ws'' w') :
    ws.Answers ws'' (w ++ w') := by
  refine ⟨h'.isServer.trans h.isServer, h'.maxMsgBytes.trans h.maxMsgBytes, ?_, ?_⟩
  · rw [h'.wire, h.wire, List.append_assoc]
  · have hpongs := h'.pongs
    rw [h.isServer] at hpongs
    exact h.pongs.append hpongs

/-- A round that goes on or delivers a message, and what it leaves. -/
def Goes (r : Ws ⊕ (PumpRes × Ws)) (ws : Ws) : Prop := r = .inl ws ∨ ∃ m, r = .inr (.msg m, ws)

/-- **A frame in front** is answered or delivered, and the session reads on. -/
theorem Ws.Reading.frame (h : ws.Reading sent s) {f : Rfc6455.Frame} {es : List Event}
    (hstep : Rfc6455.step ws.progress f = .go a es) (hrest : Passes ws.isServer ws.maxMsgBytes a w b)
    (hlen : isControl f.opcode = true → f.payload.length ≤ 125) {total : Nat}
    {r : Ws ⊕ (PumpRes × Ws)} (hr : FrameCases ws f total r) :
    ∃ ws' out, Goes r ws' ∧ ws'.Reading sent w ∧ ws'.inp = ws.inp.drop total ∧
      ws.Answers ws' out := by
  -- a ping or a pong leaves the message in progress as it is
  have hping : f.opcode = .ping ∨ f.opcode = .pong → a = ws.progress := fun hop => by
    unfold Rfc6455.step at hstep
    obtain hop | hop := hop
    · rw [hop] at hstep
      cases hstep
      rfl
    · rw [hop] at hstep
      cases hstep
      rfl
  cases hr with
  -- a ping is answered by a pong of the same payload, the only output of a read
  | ping hop hok =>
    obtain ⟨key, io, heq, hkey, hwire, -, -, -, hio⟩ :=
      wsSendFrame_healthy h.healthy .pong true f.payload
    rw [heq]
    have hpong : Pongs (!ws.isServer) ((WsFrame.mk true .pong key f.payload).encode ++ []) :=
      .cons hkey (hlen (by rw [hop]; rfl)) .nil
    rw [List.append_nil] at hpong
    refine ⟨_, _, .inl rfl, ⟨hio, h.whole, h.closeSent, h.closeRecv, h.failed, b, ?_⟩, rfl,
      ⟨rfl, rfl, hwire, hpong⟩⟩
    rw [hping (.inl hop)] at hrest
    exact hrest
  -- a healthy session can send it
  | pingFailed e hop hbad =>
    obtain ⟨key, io, heq, -⟩ := wsSendFrame_healthy h.healthy .pong true f.payload
    rw [heq] at hbad
    cases hbad
  | pong hop =>
    rw [hping (.inr hop)] at hrest
    exact ⟨_, [], .inl rfl, ⟨h.healthy, h.whole, h.closeSent, h.closeRecv, h.failed, b, hrest⟩, rfl,
      rfl, rfl, (List.append_nil _).symm, .nil⟩
  -- a violation stops the reference, which goes on here
  | violation inp frag active code msg _ hbad =>
    rw [hbad h.whole] at hstep
    cases hstep
  -- and so does a close
  | closed code echo hbad =>
    rw [hbad] at hstep
    cases hstep
  -- a message that is complete, then one that is not
  | message m frag hmsg =>
    obtain ⟨rfl, hgo⟩ := hmsg h.whole
    rw [hgo] at hstep
    cases hstep
    exact ⟨_, [], .inr ⟨m, rfl⟩, ⟨h.healthy, fun _ => rfl, h.closeSent, h.closeRecv, h.failed, b,
      hrest⟩, rfl, rfl, rfl, (List.append_nil _).symm, .nil⟩
  | fragment op frag hgo =>
    rw [hgo h.whole] at hstep
    cases hstep
    exact ⟨_, [], .inl rfl, ⟨h.healthy, fun hno => (by cases hno), h.closeSent, h.closeRecv, h.failed,
      b, hrest⟩, rfl, rfl, rfl, (List.append_nil _).symm, .nil⟩

/-- What comes behind them: nothing yet, or the close frame with the payload `p`. -/
inductive CloseTail (server : Bool) (p : Bytes) : Bytes → Prop
  | none : CloseTail server p []
  | close {key : Option MaskKey} (post : Bytes) : key.isSome = server → p.length ≤ 125 →
      CloseTail server p ((WsFrame.mk true .close key p).encode ++ post)

/-- A session that reads, with `inp` on the way: what it has not taken yet ends with `z`. -/
structure Ws.Awaits (ws : Ws) (sent : Bool) (inp z : Bytes) : Prop where
  reading : ∃ s, ws.Reading sent s ∧ ws.inp ++ inp = s ++ z

/-- What reading leads to: on to further frames, or to the close frame. -/
inductive ReadsOn (ws : Ws) (sent : Bool) (inp z p : Bytes) : Ws ⊕ (PumpRes × Ws) → Prop
  | goes {ws' : Ws} {out : Bytes} : ws.Answers ws' out → ws'.Awaits sent inp z →
      ReadsOn ws sent inp z p (.inl ws')
  | waits {ws' : Ws} {out : Bytes} {r : PumpRes} : r = .more ∨ (∃ m, r = .msg m) →
      ws.Answers ws' out → ws'.Awaits sent inp z → ReadsOn ws sent inp z p (.inr (r, ws'))
  | closes {ws' : Ws} {out : Bytes} (total : Nat) : z ≠ [] → ws.Answers ws' out →
      ws'.Reading sent [] → ReadsOn ws sent inp z p (.inr (wsPumpClose ws' p total))

theorem Ws.Reading.unmasked (h : ws.Reading sent s) (inp : Bytes) :
    Ws.Reading { ws with inp } sent s :=
  ⟨h.healthy, h.whole, h.closeSent, h.closeRecv, h.failed, h.passes⟩

theorem WsFrame.encode_ne_nil (f : WsFrame) : f.encode ≠ [] := by
  obtain ⟨tail, htail⟩ := f.encode_cons
  rw [htail]
  exact List.cons_ne_nil _ _

/-- The frame at the front of what is to come. -/
theorem Passes.front {z p : Bytes} (h : Passes server max a s b) (hz : CloseTail server p z) :
    (z = [] ∧ Rfc6455.frame server max a.size (s ++ z) = .more) ∨
    (s = [] ∧ z ≠ [] ∧ ∃ rest, Rfc6455.frame server max a.size (s ++ z) = .got ⟨true, .close, p⟩ rest) ∨
    ∃ f a' es rest, Rfc6455.frame server max a.size (s ++ z) = .got f (rest ++ z) ∧
      Rfc6455.step a f = .go a' es ∧ Passes server max a' rest b ∧
      (isControl f.opcode = true → f.payload.length ≤ 125) := by
  cases h with
  | nil =>
    cases hz with
    | none => exact .inl ⟨rfl, rfl⟩
    | @close key post hkey hlen =>
      subst hkey
      refine .inr (.inl ⟨rfl, ?_, post, ?_⟩)
      · exact List.append_ne_nil_of_left_ne_nil (WsFrame.encode_ne_nil _) post
      · exact control_encode (WsFrame.mk true .close key p) rfl rfl hlen max a.size post
  | cons hframe hstep hrest =>
    exact .inr (.inr ⟨_, _, _, _, Rfc6455.frame_append hframe z, hstep, hrest, frame_control hframe⟩)

/-- **A round** of `ws_pump` reads on. -/
theorem Ws.Awaits.round {inp z p : Bytes} (h : ws.Awaits sent inp z)
    (hz : CloseTail ws.isServer p z) : ReadsOn ws sent inp z p (wsPumpRound ws) := by
  obtain ⟨s, hreading, heq⟩ := h.reading
  obtain ⟨b, hpasses⟩ := hreading.passes
  have hfront := hpasses.front hz
  rw [Ws.size_progress hreading.whole, ← heq] at hfront
  have hcases := wsPumpRound_cases ws
  generalize wsPumpRound ws = r at hcases
  cases hcases with
  | more hmore => exact .waits (.inl rfl) (.refl ws) h
  | violation code msg hbad =>
    -- what is there is the front of frames that are legal
    have hall : Rfc6455.frame ws.isServer ws.maxMsgBytes ws.frag.length (ws.inp ++ inp) =
      .violation := Rfc6455.frame_violation_append hbad inp
    rw [hall] at hfront
    obtain ⟨-, hno⟩ | ⟨-, -, rest, hno⟩ | ⟨f, a, es, rest, hno, -⟩ := hfront
    · cases hno
    · cases hno
    · cases hno
  | frame f rest unmasked total hgot hdrop hlen =>
    have hall : Rfc6455.frame ws.isServer ws.maxMsgBytes ws.frag.length (ws.inp ++ inp) =
      .got f (rest ++ inp) := Rfc6455.frame_append hgot inp
    rw [hall] at hfront
    obtain ⟨-, hno⟩ | ⟨rfl, hne, rest', hclose⟩ | ⟨f', a, es, rest', hgo, hstep, hrest, hcontrol⟩ := hfront
    · cases hno
    · cases hclose
      exact .closes total hne ⟨rfl, rfl, (List.append_nil _).symm, .nil⟩ (hreading.unmasked unmasked)
    · injection hgo with hf heq'
      subst hf
      obtain ⟨ws', out, hgoes, hreading', hinp, hanswers⟩ :=
        (hreading.unmasked unmasked).frame hstep hrest hcontrol
          (wsPumpFrame_cases { ws with inp := unmasked } f total)
      have hawaits : ws'.Awaits sent inp z :=
        ⟨rest', hreading', by rw [hinp, ← heq', ← hdrop]⟩
      have hanswers' : ws.Answers ws' out := ⟨hanswers.1, hanswers.2, hanswers.3, hanswers.4⟩
      obtain hinl | ⟨m, hmsg⟩ := hgoes
      · rw [hinl]
        exact .goes hanswers' hawaits
      · rw [hmsg]
        exact .waits (.inr ⟨m, rfl⟩) hanswers' hawaits

/-- **`ws_pump`** reads on. -/
theorem Ws.Awaits.pump {inp z p : Bytes} (h : ws.Awaits sent inp z)
    (hz : CloseTail ws.isServer p z) : ReadsOn ws sent inp z p (.inr (wsPump ws)) := by
  refine Lib.loop_inv wsPumpRound_decreases
    (I := fun ws' => ∃ out, ws.Answers ws' out ∧ ws'.Awaits sent inp z)
    (Q := fun r => ReadsOn ws sent inp z p (.inr r)) ?_ ?_ ⟨[], .refl ws, h⟩
  · rintro ws₁ ws₂ ⟨out, hanswers, hawaits⟩ hb
    have hround := hawaits.round (hanswers.isServer ▸ hz)
    rw [hb] at hround
    cases hround with
    | goes hanswers' hawaits' => exact ⟨_, hanswers.trans hanswers', hawaits'⟩
  · rintro ws₁ r ⟨out, hanswers, hawaits⟩ hb
    have hround := hawaits.round (hanswers.isServer ▸ hz)
    rw [hb] at hround
    cases hround with
    | waits hr hanswers' hawaits' => exact .waits hr (hanswers.trans hanswers') hawaits'
    | closes total hne hanswers' hreading => exact .closes total hne (hanswers.trans hanswers') hreading

/-! ### The close frame

The close frame is answered by its own code, unless a close was sent already. -/

/-- A session that sent and received a close frame, with the code, and did not fail. -/
structure Ws.ClosedWith (ws : Ws) (code : Nat) : Prop where
  closeSent : ws.closeSent = true
  closeRecv : ws.closeRecv = true
  failed : ws.failed = false
  closeCode : ws.closeCode = code

theorem beNat_wsCode (code : UInt16) (r : Bytes) :
    beNat ((wsCode code.toNat ++ r).take 2) = code.toNat :=
  beNat_two _ code.toNat_lt

/-- What `zcio_ws_close` puts into a close frame. -/
theorem wsClosePayload_ok {code : UInt16} {reason : Option CStr} {p : Bytes}
    (h : wsClosePayload code reason = .ok p) :
    ∃ r, p = wsCode code.toNat ++ r ∧ r.length ≤ 123 ∧ IsUtf8 r := by
  unfold wsClosePayload at h
  cases reason with
  | none =>
    cases h
    exact ⟨[], (List.append_nil _).symm, Nat.zero_le _, [], rfl⟩
  | some r =>
    dsimp only at h
    split_ifs at h with hlong hbad
    · cases h
    · cases h
    cases h
    refine ⟨r.1, rfl, not_lt.mp hlong, ?_⟩
    by_contra hno
    refine hbad ⟨fun hnil => hno ?_, utf8_false.mpr hno⟩
    rw [hnil]
    exact ⟨[], rfl⟩

/-- **A close frame with a valid code** is a clean close; it is echoed by a session that has not
sent its own. -/
theorem Ws.Reading.close (h : ws.Reading sent []) {code : UInt16} {r : Bytes} (hr : IsUtf8 r)
    (hcode : wsCloseCodeOk code.toNat = true) (total : Nat) :
    ∃ ws', wsPumpClose ws (wsCode code.toNat ++ r) total = (.closed, ws') ∧
      ws'.ClosedWith code.toNat ∧ (sent = false → ∃ key : Option MaskKey, key.isSome = !ws.isServer ∧
        ws'.io.wire = ws.io.wire ++ (WsFrame.mk true .close key (wsCode code.toNat)).encode) := by
  have hlen : (wsCode code.toNat ++ r).length = r.length + 2 := by
    rw [List.length_append]
    exact Nat.add_comm ..
  have hutf8 : ¬zhsUtf8Valid ((wsCode code.toNat ++ r).drop 2) = false := fun hno =>
    utf8_false.mp hno hr
  have hbad : ¬(2 ≤ r.length + 2 ∧ wsCloseCodeOk code.toNat = false) := fun hno => by
    rw [hcode] at hno
    cases hno.2
  have htwo : 2 ≤ r.length + 2 := Nat.le_add_left ..
  simp only [wsPumpClose, hlen, beNat_wsCode]
  rw [if_neg (by omega), if_pos htwo, if_neg hbad, if_neg fun hno => hutf8 hno.2]
  refine ⟨_, rfl, ?_⟩
  unfold wsSendClose
  cases sent with
  | true =>
    rw [if_pos h.closeSent]
    exact ⟨⟨h.closeSent, rfl, h.failed, rfl⟩, fun hno => (by cases hno)⟩
  | false =>
    have hopen : ¬ws.closeSent = true := by rw [h.closeSent]; exact Bool.false_ne_true
    rw [if_neg hopen, if_pos htwo]
    obtain ⟨key, io, heq, hkey, hwire, -⟩ := @wsSendFrame_healthy
      { ws with closeCode := code.toNat, closeRecv := true } h.healthy .close true
      (wsCode code.toNat)
    rw [heq]
    exact ⟨⟨rfl, rfl, h.failed, rfl⟩, fun _ => ⟨key, hkey, hwire⟩⟩

/-- A close frame with any other code fails the session. -/
theorem wsPumpClose_invalid (ws : Ws) {code : UInt16} (r : Bytes)
    (hcode : wsCloseCodeOk code.toNat = false) (total : Nat) :
    (wsPumpClose ws (wsCode code.toNat ++ r) total).2.failed = true := by
  have hlen : (wsCode code.toNat ++ r).length = r.length + 2 := by
    rw [List.length_append]
    exact Nat.add_comm ..
  have htwo : 2 ≤ r.length + 2 := Nat.le_add_left ..
  simp only [wsPumpClose, hlen, beNat_wsCode]
  rw [if_neg (by omega), if_pos htwo, if_pos ⟨htwo, hcode⟩]
  rfl

/-! ### The two parties

Two sessions with the octets on their way between them. A turn is a read of any part of
these and a call of the pump. -/

/-- `ws_fill` when the read brings `b`. -/
def Ws.fill (ws : Ws) (b : { b : Bytes // b ≠ [] ∧ b.length ≤ WS_FILL }) (timeoutMs : Int) : Ws :=
  (wsFill { ws with io := { ws.io with reads := [.octets b] } } timeoutMs).2

/-- A session, with the octets on the way to it and the octets it has put on the way. -/
structure Party where
  ws : Ws
  inp : Bytes
  out : Bytes

/-- What the calls do while a session neither failed nor got a close frame: they read, or they
run `ws_pump`. -/
inductive Party.Turn (p : Party) : Party → Prop
  | reads (b : { b : Bytes // b ≠ [] ∧ b.length ≤ WS_FILL }) (timeoutMs : Int) (rest : Bytes) :
      p.ws.closeRecv = false → p.ws.failed = false → p.inp = b.1 ++ rest →
      p.Turn ⟨p.ws.fill b timeoutMs, rest, p.out⟩
  | pumps : p.ws.closeRecv = false → p.ws.failed = false →
      p.Turn ⟨(wsPump p.ws).2, p.inp, p.out ++ (wsPump p.ws).2.io.wire.drop p.ws.io.wire.length⟩

/-- The session that called `zcio_ws_close` and the other one. -/
structure Closing where
  initiator : Ws
  peer : Ws
  toPeer : Bytes
  toInitiator : Bytes

/-- A turn of either party. -/
inductive Closing.Step (s : Closing) : Closing → Prop
  | initiator {p : Party} : Party.Turn ⟨s.initiator, s.toInitiator, s.toPeer⟩ p →
      s.Step { s with initiator := p.ws, toInitiator := p.inp, toPeer := p.out }
  | peer {p : Party} : Party.Turn ⟨s.peer, s.toPeer, s.toInitiator⟩ p →
      s.Step { s with peer := p.ws, toPeer := p.inp, toInitiator := p.out }

/-- What a turn of a session leads to that awaits a close frame with the payload `p`. -/
inductive TurnCases (q : Party) (sent : Bool) (z p : Bytes) : Party → Prop
  | waits {ws' : Ws} {inp out : Bytes} : q.ws.Answers ws' out → ws'.Awaits sent inp z →
      TurnCases q sent z p ⟨ws', inp, q.out ++ out⟩
  | closes {ws' : Ws} {out : Bytes} (total : Nat) : z ≠ [] → q.ws.Answers ws' out →
      ws'.Reading sent [] →
      TurnCases q sent z p ⟨(wsPumpClose ws' p total).2, q.inp,
        q.out ++ (wsPumpClose ws' p total).2.io.wire.drop q.ws.io.wire.length⟩

theorem Ws.Awaits.running {inp z : Bytes} (h : ws.Awaits sent inp z) :
    ws.closeRecv = false ∧ ws.failed = false := by
  obtain ⟨s, hreading, -⟩ := h.reading
  exact ⟨hreading.closeRecv, hreading.failed⟩

theorem Ws.Awaits.fill {rest z : Bytes} {b : { b : Bytes // b ≠ [] ∧ b.length ≤ WS_FILL }}
    (h : ws.Awaits sent (b.1 ++ rest) z) (ms : Int) : (ws.fill b ms).Awaits sent rest z := by
  obtain ⟨s, hreading, heq⟩ := h.reading
  refine ⟨s, ⟨⟨hreading.healthy.writes, hreading.healthy.keys⟩, hreading.whole, hreading.closeSent,
    hreading.closeRecv, hreading.failed, hreading.passes⟩, ?_⟩
  rw [← heq, ← List.append_assoc]
  rfl

theorem Party.Turn.cases {q q' : Party} (h : q.Turn q') {z p : Bytes}
    (hawaits : q.ws.Awaits sent q.inp z) (hz : CloseTail q.ws.isServer p z) :
    TurnCases q sent z p q' := by
  cases h with
  | reads b ms rest hrecv hfailed hinp =>
    have hanswers : q.ws.Answers (q.ws.fill b ms) [] := ⟨rfl, rfl, (List.append_nil _).symm, .nil⟩
    rw [hinp] at hawaits
    have hturn := TurnCases.waits (p := p) hanswers (hawaits.fill ms)
    rwa [List.append_nil] at hturn
  | pumps hrecv hfailed =>
    have hpump := hawaits.pump hz
    generalize wsPump q.ws = r at hpump
    cases hpump with
    | waits hr hanswers hawaits' =>
      rw [hanswers.wire, List.drop_left]
      exact .waits hanswers hawaits'
    | closes total hne hanswers hreading => exact .closes total hne hanswers hreading

/-! ### Every close frame is reached

No session stops in front of a close frame, so that a run can always be continued to its
end. -/

/-- All that is on the way can be read. -/
theorem Ws.Awaits.readAll {inp z : Bytes} (h : ws.Awaits sent inp z) (out : Bytes) :
    ∃ ws', ReflTransGen Party.Turn ⟨ws, inp, out⟩ ⟨ws', [], out⟩ ∧ ws'.Awaits sent [] z ∧
      ws'.isServer = ws.isServer := by
  induction inp generalizing ws with
  | nil => exact ⟨ws, .refl, h, rfl⟩
  | cons x inp ih =>
    have hone : [x] ≠ [] ∧ [x].length ≤ WS_FILL := ⟨List.cons_ne_nil x [], Nat.succ_le_succ (Nat.zero_le _)⟩
    obtain ⟨ws', hrun, hawaits, hserver⟩ :=
      @ih (ws.fill ⟨[x], hone⟩ 0) (Ws.Awaits.fill (b := ⟨[x], hone⟩) h 0)
    exact ⟨ws', .head (.reads ⟨[x], hone⟩ 0 inp h.running.1 h.running.2 rfl) hrun, hawaits, hserver⟩

/-- Then `ws_pump` gets to the close frame, one message after the other. -/
theorem Ws.Awaits.pumpAll {z p : Bytes} (h : ws.Awaits sent [] z) (hz : CloseTail ws.isServer p z)
    (hne : z ≠ []) (out : Bytes) :
    ∃ q' ws' total, ReflTransGen Party.Turn ⟨ws, [], out⟩ q' ∧
      q'.ws = (wsPumpClose ws' p total).2 ∧ ws'.Reading sent [] := by
  induction hn : ws.inp.length using Nat.strongRecOn generalizing ws out with
  | _ n ih =>
    subst hn
    have hturn : Party.Turn ⟨ws, [], out⟩ _ := .pumps h.running.1 h.running.2
    have hpump := h.pump hz
    have hmore := wsPump_more ws
    have hshort := @shorter_wsPump ws
    generalize wsPump ws = r at hpump hturn hmore hshort
    cases hpump with
    | closes total _ hanswers hreading => exact ⟨_, _, total, .single hturn, rfl, hreading⟩
    | @waits ws' _ _ hr hanswers hawaits =>
      have hz' : CloseTail ws'.isServer p z := hanswers.isServer ▸ hz
      obtain hr | ⟨m, hm⟩ := hr
      · -- a frame is there
        obtain ⟨s, hreading, heq⟩ := hawaits.reading
        obtain ⟨b, hpasses⟩ := hreading.passes
        have hfront := hpasses.front hz'
        rw [← heq, List.append_nil, Ws.size_progress hreading.whole] at hfront
        have hframe : Rfc6455.frame ws'.isServer ws'.maxMsgBytes ws'.frag.length ws'.inp = .more :=
          hmore hr
        rw [hframe] at hfront
        obtain ⟨hnil, -⟩ | ⟨-, -, rest, hno⟩ | ⟨f, a, es, rest, hno, -⟩ := hfront
        · exact absurd hnil hne
        · cases hno
        · cases hno
      · obtain ⟨q', ws'', total, hrun, hq⟩ := ih _ (hshort hm) hawaits hz' _ rfl
        exact ⟨q', ws'', total, .head hturn hrun, hq⟩

theorem Ws.Awaits.finish {inp z p : Bytes} (h : ws.Awaits sent inp z)
    (hz : CloseTail ws.isServer p z) (hne : z ≠ []) (out : Bytes) :
    ∃ q' ws' total, ReflTransGen Party.Turn ⟨ws, inp, out⟩ q' ∧
      q'.ws = (wsPumpClose ws' p total).2 ∧ ws'.Reading sent [] := by
  obtain ⟨ws₁, hread, hawaits, hserver⟩ := h.readAll out
  obtain ⟨q', ws', total, hrun, hq⟩ := hawaits.pumpAll (hserver ▸ hz) hne out
  exact ⟨q', ws', total, hread.trans hrun, hq⟩

theorem Closing.peerRun {s : Closing} {q : Party}
    (h : ReflTransGen Party.Turn ⟨s.peer, s.toPeer, s.toInitiator⟩ q) :
    ReflTransGen Closing.Step s { s with peer := q.ws, toPeer := q.inp, toInitiator := q.out } :=
  h.lift (fun q : Party => { s with peer := q.ws, toPeer := q.inp, toInitiator := q.out })
    fun _ _ hturn => .peer hturn

theorem Closing.initiatorRun {s : Closing} {q : Party}
    (h : ReflTransGen Party.Turn ⟨s.initiator, s.toInitiator, s.toPeer⟩ q) :
    ReflTransGen Closing.Step s { s with initiator := q.ws, toInitiator := q.inp, toPeer := q.out } :=
  h.lift (fun q : Party => { s with initiator := q.ws, toInitiator := q.inp, toPeer := q.out })
    fun _ _ hturn => .initiator hturn

/-! ### Agreement

The phases of a close: sent, echoed, agreed. A turn of either party keeps to them. -/

/-- Whatever is read and run, no session fails, and the two can always get to where both have
sent and received a close frame with the code. -/
def CloseAgrees (code : Nat) (s : Closing) : Prop :=
  ∀ s', ReflTransGen Closing.Step s s' → s'.initiator.failed = false ∧ s'.peer.failed = false ∧
    ∃ s'', ReflTransGen Closing.Step s' s'' ∧ s''.initiator.ClosedWith code ∧
      s''.peer.ClosedWith code

/-- How far the two are: a close frame with the payload `p` is on the way, or the echo is, or both
have closed. -/
inductive ClosePhase (code : UInt16) (p : Bytes) (s : Closing) : Prop
  | sent {z : Bytes} : s.peer.isServer = (!s.initiator.isServer) → z ≠ [] →
      CloseTail s.peer.isServer p z → s.peer.Awaits false s.toPeer z →
      s.initiator.Awaits true s.toInitiator [] → ClosePhase code p s
  | echoed {z : Bytes} : z ≠ [] → CloseTail s.initiator.isServer (wsCode code.toNat) z →
      s.peer.ClosedWith code.toNat → s.initiator.Awaits true s.toInitiator z → ClosePhase code p s
  | agreed : s.peer.ClosedWith code.toNat → s.initiator.ClosedWith code.toNat →
      ClosePhase code p s

theorem Ws.Awaits.append {inp z : Bytes} (h : ws.Awaits sent inp z) (y : Bytes) :
    ws.Awaits sent (inp ++ y) (z ++ y) := by
  obtain ⟨s, hreading, heq⟩ := h.reading
  exact ⟨s, hreading, by rw [← List.append_assoc, heq, List.append_assoc]⟩

theorem Ws.Awaits.pongs {inp : Bytes} (h : ws.Awaits sent inp []) (hw : Pongs ws.isServer w) :
    ws.Awaits sent (inp ++ w) [] := by
  obtain ⟨s, hreading, heq⟩ := h.reading
  obtain ⟨b, hpasses⟩ := hreading.passes
  refine ⟨s ++ w, ⟨hreading.healthy, hreading.whole, hreading.closeSent, hreading.closeRecv,
    hreading.failed, b, hpasses.pongs hw⟩, ?_⟩
  rw [← List.append_assoc, heq, List.append_nil, List.append_nil]

theorem CloseTail.append {p z : Bytes} (h : CloseTail server p z) (hne : z ≠ []) (y : Bytes) :
    CloseTail server p (z ++ y) := by
  cases h with
  | none => exact absurd rfl hne
  | close post hkey hlen =>
    rw [List.append_assoc]
    exact .close (post ++ y) hkey hlen

variable {code : UInt16} {r : Bytes}

theorem Party.Turn.running {q q' : Party} (h : q.Turn q') : q.ws.closeRecv = false := by
  cases h with
  | reads b ms rest hrecv _ _ => exact hrecv
  | pumps hrecv _ => exact hrecv

theorem not_turn {inp out : Bytes} {q : Party} {c : Nat} (h : ws.ClosedWith c) :
    ¬Party.Turn ⟨ws, inp, out⟩ q := fun hturn => by
  have hrecv : ws.closeRecv = false := hturn.running
  rw [h.closeRecv] at hrecv
  cases hrecv

/-- The close frame is taken, and echoed to the initiator. -/
theorem Ws.Reading.echo {ws₀ : Ws} {out : Bytes} (h : ws.Reading sent []) (hr : IsUtf8 r)
    (hcode : wsCloseCodeOk code.toNat = true) (hanswers : ws₀.Answers ws out) (total : Nat) :
    let ws' := (wsPumpClose ws (wsCode code.toNat ++ r) total).2
    ws'.ClosedWith code.toNat ∧ (sent = false → ∃ key : Option MaskKey, key.isSome = !ws₀.isServer ∧
      ws'.io.wire.drop ws₀.io.wire.length =
        out ++ (WsFrame.mk true .close key (wsCode code.toNat)).encode) := by
  obtain ⟨ws', heq, hclosed, hecho⟩ := h.close hr hcode total
  rw [heq]
  refine ⟨hclosed, fun hsent => ?_⟩
  obtain ⟨key, hkey, hwire⟩ := hecho hsent
  refine ⟨key, hkey.trans (by rw [hanswers.isServer]), ?_⟩
  dsimp only
  rw [hwire, hanswers.wire, List.append_assoc, List.drop_left]

/-- **A step** keeps the phase or moves to the next, when the code is valid. -/
theorem ClosePhase.step {s s' : Closing} (h : ClosePhase code (wsCode code.toNat ++ r) s)
    (hr : IsUtf8 r) (hcode : wsCloseCodeOk code.toNat = true) (hstep : s.Step s') :
    ClosePhase code (wsCode code.toNat ++ r) s' := by
  cases h with
  -- the close is on its way, behind what the peer still has to read
  | @sent z hrole hne hz hpeer hinit =>
    cases hstep with
    -- the initiator may read frames that the peer sent before it saw the close
    | initiator hturn =>
      have hcases := hturn.cases hinit (p := []) .none
      cases hcases with
      | @waits ws' inp out hanswers hawaits =>
        refine .sent ?_ (List.append_ne_nil_of_left_ne_nil hne out) (hz.append hne out)
          (hpeer.append out) hawaits
        exact hrole.trans (congrArg not hanswers.isServer.symm)
      | closes total hno hanswers hreading => exact absurd rfl hno
    -- the peer reads one more frame, or the close itself
    | peer hturn =>
      have hcases := hturn.cases hpeer hz
      cases hcases with
      | @waits ws' inp out hanswers hawaits =>
        have hpongs : Pongs s.initiator.isServer out := by
          have h := hanswers.pongs
          dsimp only at h
          rwa [hrole, Bool.not_not] at h
        exact .sent (hanswers.isServer.trans hrole) hne (hanswers.isServer ▸ hz) hawaits
          (hinit.pongs hpongs)
      -- the close is answered with the same code, behind the pongs of before
      | @closes ws' out total hno hanswers hreading =>
        obtain ⟨hclosed, hecho⟩ := hreading.echo hr hcode hanswers total
        obtain ⟨key, hkey, hwire⟩ := hecho rfl
        dsimp only at hkey hwire ⊢
        rw [hrole, Bool.not_not] at hkey
        have hpongs : Pongs s.initiator.isServer out := by
          have h := hanswers.pongs
          dsimp only at h
          rwa [hrole, Bool.not_not] at h
        have hawaits := (hinit.pongs hpongs).append
          (WsFrame.mk true .close key (wsCode code.toNat)).encode
        have htail := @CloseTail.close s.initiator.isServer (wsCode code.toNat) key
          [] hkey (show 2 ≤ 125 by omega)
        rw [List.append_nil] at htail
        rw [hwire, ← List.append_assoc]
        exact .echoed (WsFrame.encode_ne_nil _) htail hclosed hawaits
  -- the echo is on its way to the initiator
  | echoed hne hz hpeer hinit =>
    cases hstep with
    | initiator hturn =>
      have hcases := hturn.cases hinit hz
      cases hcases with
      | waits hanswers hawaits =>
        exact .echoed hne (hanswers.isServer ▸ hz) hpeer hawaits
      | closes total hno hanswers hreading =>
        obtain ⟨hclosed, -⟩ := hreading.echo (r := []) ⟨[], rfl⟩ hcode hanswers total
        rw [List.append_nil] at hclosed
        exact .agreed hpeer hclosed
    -- the peer has closed and reads no more
    | peer hturn => exact absurd hturn (not_turn hpeer)
  -- both have closed
  | agreed hpeer hinit =>
    cases hstep with
    | initiator hturn => exact absurd hturn (not_turn hinit)
    | peer hturn => exact absurd hturn (not_turn hpeer)

theorem ClosePhase.run {s s' : Closing} (h : ClosePhase code (wsCode code.toNat ++ r) s)
    (hr : IsUtf8 r) (hcode : wsCloseCodeOk code.toNat = true) (hrun : ReflTransGen Closing.Step s s') :
    ClosePhase code (wsCode code.toNat ++ r) s' := by
  induction hrun with
  | refl => exact h
  | tail _ hstep ih => exact ih.step hr hcode hstep

/-- In every phase no session has failed, -/
theorem ClosePhase.healthy {s : Closing} {p : Bytes} (h : ClosePhase code p s) :
    s.initiator.failed = false ∧ s.peer.failed = false := by
  cases h with
  | sent hrole hne hz hpeer hinit => exact ⟨hinit.running.2, hpeer.running.2⟩
  | echoed hne hz hpeer hinit => exact ⟨hinit.running.2, hpeer.failed⟩
  | agreed hpeer hinit => exact ⟨hinit.failed, hpeer.failed⟩

/-- and the rest of the handshake is still possible. -/
theorem ClosePhase.finish {s : Closing} (h : ClosePhase code (wsCode code.toNat ++ r) s)
    (hr : IsUtf8 r) (hcode : wsCloseCodeOk code.toNat = true) :
    ∃ s', ReflTransGen Closing.Step s s' ∧ s'.initiator.ClosedWith code.toNat ∧
      s'.peer.ClosedWith code.toNat := by
  -- the last part first
  have hlast : ∀ s : Closing, ∀ z, z ≠ [] → CloseTail s.initiator.isServer (wsCode code.toNat) z →
      s.peer.ClosedWith code.toNat → s.initiator.Awaits true s.toInitiator z →
      ∃ s', ReflTransGen Closing.Step s s' ∧ s'.initiator.ClosedWith code.toNat ∧
        s'.peer.ClosedWith code.toNat := fun s z hne hz hpeer hinit => by
    obtain ⟨q, ws, total, hturns, hq, hreading⟩ := hinit.finish hz hne s.toPeer
    obtain ⟨hclosed, -⟩ := hreading.echo (r := []) ⟨[], rfl⟩ hcode (.refl ws) total
    rw [List.append_nil, ← hq] at hclosed
    exact ⟨_, Closing.initiatorRun hturns, hclosed, hpeer⟩
  cases h with
  | agreed hpeer hinit => exact ⟨s, .refl, hinit, hpeer⟩
  | echoed hne hz hpeer hinit => exact hlast s _ hne hz hpeer hinit
  | sent hrole hne hz hpeer hinit =>
    obtain ⟨q, ws, total, hturns, hq, hreading⟩ := hpeer.finish hz hne s.toInitiator
    obtain ⟨hclosed, -⟩ := hreading.echo hr hcode (.refl ws) total
    rw [← hq] at hclosed
    have hrun := Closing.peerRun hturns
    -- the peer has read the close frame, so the echo is on the way
    have hphase := (ClosePhase.sent hrole hne hz hpeer hinit).run hr hcode hrun
    cases hphase with
    | sent _ _ _ hreads _ =>
      have hrecv := hreads.running.1
      rw [hclosed.closeRecv] at hrecv
      cases hrecv
    | agreed _ hinit' => exact ⟨_, hrun, hinit', hclosed⟩
    | echoed hne' hz' hpeer' hinit' =>
      obtain ⟨s', hrun', hagreed⟩ := hlast _ _ hne' hz' hpeer' hinit'
      exact ⟨s', hrun.trans hrun', hagreed⟩

/-- The two when `zcio_ws_close` of `a` has sent a close frame: `toPeer` and `toInitiator` are on
the way from before. -/
def Closing.start (a b : Ws) (payload toPeer toInitiator : Bytes) : Closing :=
  { initiator := wsSendClose a payload
    peer := b
    toPeer := toPeer ++ (wsSendClose a payload).io.wire.drop a.io.wire.length
    toInitiator }

/-- **The closing handshake.** `zcio_ws_close` sends its close frame and waits for the answer. The
two sessions then agree, whatever else was on the way and in whatever order the octets are read,
if and only if `ws_pump` takes the code. -/
theorem ws_close_agreement {a b : Ws} {toPeer toInitiator payload : Bytes}
    (ha : a.Awaits false toInitiator []) (hb : b.Awaits false toPeer [])
    (hrole : b.isServer = !a.isServer) (code : UInt16) (reason : Option CStr)
    (hsends : wsClosePayload code reason = .ok payload) :
    zcioWsClose a code reason =
        ((wsAwaitClose (wsSendClose a payload)).1.map .ok, (wsAwaitClose (wsSendClose a payload)).2) ∧
      (CloseAgrees code.toNat (Closing.start a b payload toPeer toInitiator) ↔
        wsCloseCodeOk code.toNat = true) := by
  obtain ⟨s, hreading, heq⟩ := ha.reading
  obtain ⟨key, io, hframe, hkey, hwire, -, -, -, hio⟩ :=
    wsSendFrame_healthy hreading.healthy .close true payload
  obtain ⟨r, rfl, hlen, hr⟩ := wsClosePayload_ok hsends
  have hopen : a.closeSent = false ∧ a.failed = false := ⟨hreading.closeSent, hreading.failed⟩
  have hsent : wsSendClose a (wsCode code.toNat ++ r) = { a with io, closeSent := true } := by
    unfold wsSendClose
    rw [hopen.1, if_neg Bool.false_ne_true, hframe]
  have hz : CloseTail b.isServer (wsCode code.toNat ++ r)
      (WsFrame.mk true .close key (wsCode code.toNat ++ r)).encode := by
    have htail := @CloseTail.close b.isServer (wsCode code.toNat ++ r) key []
      (hkey.trans hrole.symm) (by
        rw [List.length_append]
        exact Nat.add_le_add (show 2 ≤ 2 by omega) hlen)
    rwa [List.append_nil] at htail
  have hpeer := hb.append (WsFrame.mk true .close key (wsCode code.toNat ++ r)).encode
  rw [List.nil_append] at hpeer
  have hne := WsFrame.encode_ne_nil ⟨true, .close, key, wsCode code.toNat ++ r⟩
  have hstart : Closing.start a b (wsCode code.toNat ++ r) toPeer toInitiator =
      ⟨{ a with io, closeSent := true }, b,
        toPeer ++ (WsFrame.mk true .close key (wsCode code.toNat ++ r)).encode, toInitiator⟩ := by
    unfold Closing.start
    rw [hsent]
    dsimp only
    rw [hwire, List.drop_left]
  rw [hstart]
  refine ⟨?_, fun hagrees => ?_, fun hcode s' hrun => ?_⟩
  · unfold zcioWsClose
    rw [if_pos hopen, hsends]
    dsimp only
    rw [hsent, hframe]
  · by_contra hno
    have hbad := Bool.eq_false_of_not_eq_true hno
    -- the peer gets to the close frame, and fails
    obtain ⟨q, ws, total, hturns, hq, -⟩ := hpeer.finish hz hne toInitiator
    have hrun := Closing.peerRun (s := ⟨{ a with io, closeSent := true }, b, _, toInitiator⟩) hturns
    obtain ⟨-, hfailed, -⟩ := hagrees _ hrun
    dsimp only at hfailed
    rw [hq, wsPumpClose_invalid ws r hbad] at hfailed
    cases hfailed
  · have hinit : Ws.Awaits { a with io, closeSent := true } true toInitiator [] :=
      ⟨s, ⟨hio, hreading.whole, rfl, hreading.closeRecv, hreading.failed, hreading.passes⟩, heq⟩
    have hphase : ClosePhase code (wsCode code.toNat ++ r) ⟨{ a with io, closeSent := true }, b,
        toPeer ++ (WsFrame.mk true .close key (wsCode code.toNat ++ r)).encode, toInitiator⟩ :=
      .sent hrole hne hz hpeer hinit
    have hphase' := hphase.run hr hcode hrun
    exact ⟨hphase'.healthy.1, hphase'.healthy.2, hphase'.finish hr hcode⟩

/-- A server and a client in the middle of a session. -/
def closingServer : Ws := { isServer := true }

def closingClient : Ws := { isServer := false, io := greeter.io }

/-- The client closes with the code 1000 and a reason while a ping of the server is on the way. -/
theorem ws_close_agreement_normal :
    CloseAgrees 1000
      (Closing.start closingClient closingServer [0x03, 0xE8, 0x62, 0x79, 0x65] [] [0x89, 0]) := by
  have ha : closingClient.Awaits false [0x89, 0] [] :=
    ⟨[0x89, 0], ⟨⟨fun w hw => (by cases hw), by decide⟩, fun _ => rfl, rfl, rfl, rfl, none,
      @Passes.cons _ _ none none none [0x89, 0] [] ⟨true, .ping, []⟩ [.pong []] rfl rfl
        (.nil none)⟩, rfl⟩
  have hb : closingServer.Awaits false [] [] :=
    ⟨[], ⟨⟨fun w hw => (by cases hw), by decide⟩, fun _ => rfl, rfl, rfl, rfl, none, .nil none⟩, rfl⟩
  exact (ws_close_agreement ha hb rfl 1000 (some ⟨[0x62, 0x79, 0x65], by decide⟩) rfl).2.mpr
    (by decide)

/-- **A code that is sent and not taken.** `zcio_ws_close` sends 1005, and the peer fails. -/
theorem ws_close_disagreement :
    wsClosePayload 1005 none = .ok [0x03, 0xED] ∧
      (Closing.start closingServer closingClient [0x03, 0xED] [] []).toPeer = [0x88, 2, 0x03, 0xED] ∧
      ¬CloseAgrees 1005 (Closing.start closingServer closingClient [0x03, 0xED] [] []) := by
  have hwire : (Closing.start closingServer closingClient [0x03, 0xED] [] []).toPeer =
      [0x88, 2, 0x03, 0xED] := by decide
  refine ⟨rfl, hwire, fun hagrees => ?_⟩
  have hturns : ∃ out, ReflTransGen Party.Turn
      ⟨closingClient, (Closing.start closingServer closingClient [0x03, 0xED] [] []).toPeer, []⟩
      ⟨(wsPump (closingClient.fill ⟨[0x88, 2, 0x03, 0xED], by decide⟩ 0)).2, [], out⟩ := by
    rw [hwire]
    exact ⟨_, (ReflTransGen.single (.reads ⟨[0x88, 2, 0x03, 0xED], by decide⟩ 0 [] rfl rfl rfl)).tail
      (.pumps rfl rfl)⟩
  obtain ⟨out, hturns⟩ := hturns
  obtain ⟨-, hfailed, -⟩ := hagrees _ (Closing.peerRun hturns)
  have hfails : (wsPump (closingClient.fill ⟨[0x88, 2, 0x03, 0xED], by decide⟩ 0)).2.failed = true := by
    decide
  exact absurd (hfails.symm.trans hfailed) (by decide)

end Zcio
