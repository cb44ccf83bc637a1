import Zcio.Ws.Round

/-!
# Zcio.Ws.Calls

The loops of `ws.c` and the calls they serve. `ws_pump` ends because every round that goes on
takes a frame off the input; a call that waits ends, or blocks, because every round that goes
on takes a read off the script or a message off the input.
-/

namespace Zcio

variable {ws : Ws}

/-! ### What a round leaves alone

The role, the limits and the script of reads beyond the octets used. -/

/-- `ws'` has the role, the limit and the unread script of `ws`, and no more input. -/
structure Ws.Keeps (ws ws' : Ws) : Prop where
  isServer : ws'.isServer = ws.isServer
  maxMsgBytes : ws'.maxMsgBytes = ws.maxMsgBytes
  reads : ws'.io.reads = ws.io.reads
  got : ws'.io.got = ws.io.got
  inp : ws'.inp.length ≤ ws.inp.length

theorem Ws.Keeps.refl (ws : Ws) : ws.Keeps ws := ⟨rfl, rfl, rfl, rfl, le_rfl⟩

theorem Ws.Keeps.trans {ws' ws'' : Ws} (h : ws.Keeps ws') (h' : ws'.Keeps ws'') :
    ws.Keeps ws'' :=
  ⟨h'.isServer.trans h.isServer, h'.maxMsgBytes.trans h.maxMsgBytes, h'.reads.trans h.reads,
    h'.got.trans h.got, h'.inp.trans h.inp⟩

theorem Ws.Keeps.consume (ws : Ws) (n : Nat) : ws.Keeps (ws.consume n) :=
  ⟨rfl, rfl, rfl, rfl, (List.drop_suffix n ws.inp).length_le⟩

theorem keeps_wsSendFrame (ws : Ws) (opcode : WsOpcode) (fin : Bool) (data : Bytes) :
    ws.Keeps (wsSendFrame ws opcode fin data).2 := by
  obtain ⟨io, heq, hreads, hgot, -⟩ := wsSendFrame_frame ws opcode fin data
  rw [heq]
  exact ⟨rfl, rfl, hreads, hgot, le_rfl⟩

theorem keeps_wsSendClose (ws : Ws) (payload : Bytes) : ws.Keeps (wsSendClose ws payload) := by
  unfold wsSendClose
  split
  · exact .refl ws
  · have h := keeps_wsSendFrame ws .close true payload
    exact ⟨h.isServer, h.maxMsgBytes, h.reads, h.got, h.inp⟩

theorem keeps_wsProtocolFail (ws : Ws) (code : Nat) (msg : String) :
    ws.Keeps (wsProtocolFail ws code msg).2 := by
  have h := keeps_wsSendClose ws (wsCode code)
  exact ⟨h.isServer, h.maxMsgBytes, h.reads, h.got, h.inp⟩

/-- The session that a round ends with, whether or not it goes on. -/
def roundWs : Ws ⊕ (PumpRes × Ws) → Ws
  | .inl ws => ws
  | .inr r => r.2

theorem FrameCases.keeps {f : Rfc6455.Frame} {total : Nat} {r : Ws ⊕ (PumpRes × Ws)}
    (h : FrameCases ws f total r) : ws.Keeps (roundWs r) := by
  have hconsume := Ws.Keeps.consume ws total
  cases h with
  | ping hop hs => exact (keeps_wsSendFrame ws .pong true f.payload).trans (.consume _ total)
  | pingFailed e hop hs => exact (keeps_wsSendFrame ws .pong true f.payload).trans (.consume _ total)
  | pong hop => exact hconsume
  | violation inp frag active code msg hlen hstep =>
    have hset : ws.Keeps { ws with inp, frag, fragActive := active } := ⟨rfl, rfl, rfl, rfl, hlen⟩
    exact hset.trans (keeps_wsProtocolFail ..)
  | closed code echo hstep =>
    have hset : ws.Keeps { ws with closeCode := code, closeRecv := true } :=
      ⟨rfl, rfl, rfl, rfl, le_rfl⟩
    exact (hset.trans (keeps_wsSendClose _ echo)).trans (.consume _ total)
  | message m frag hstep => exact ⟨rfl, rfl, rfl, rfl, hconsume.inp⟩
  | fragment op frag hstep => exact ⟨rfl, rfl, rfl, rfl, hconsume.inp⟩

theorem keeps_wsPumpRound (ws : Ws) : ws.Keeps (roundWs (wsPumpRound ws)) := by
  have hcases := wsPumpRound_cases ws
  generalize wsPumpRound ws = r at hcases
  cases hcases with
  | more h => exact .refl ws
  | violation code msg h => exact keeps_wsProtocolFail ws code msg
  | frame f rest inp total h hdrop hlen =>
    have hset : ws.Keeps { ws with inp } := ⟨rfl, rfl, rfl, rfl, hlen.le⟩
    exact hset.trans (wsPumpFrame_cases { ws with inp } f total).keeps

/-- The rounds that go on or deliver a message. -/
def RoundGoes (r : Ws ⊕ (PumpRes × Ws)) : Prop := ∀ p, r = .inr p → ∃ m, p.1 = .msg m

theorem FrameCases.consumed {f : Rfc6455.Frame} {total : Nat} {r : Ws ⊕ (PumpRes × Ws)}
    (h : FrameCases ws f total r) (hgoes : RoundGoes r) :
    (roundWs r).inp = ws.inp.drop total := by
  cases h with
  | ping hop hs =>
    obtain ⟨io, heq, -⟩ := wsSendFrame_frame ws .pong true f.payload
    rw [heq]
    rfl
  | pong hop => rfl
  | message m frag hstep => rfl
  | fragment op frag hstep => rfl
  | pingFailed e hop hs =>
    obtain ⟨m, hm⟩ := hgoes _ rfl
    cases hm
  | violation inp frag active code msg hlen hstep =>
    obtain ⟨m, hm⟩ := hgoes _ rfl
    cases hm
  | closed code echo hstep =>
    obtain ⟨m, hm⟩ := hgoes _ rfl
    cases hm

/-- **The input gets shorter** with every round that goes on or delivers a message. -/
theorem wsPumpRound_shorter (ws : Ws) (hgoes : RoundGoes (wsPumpRound ws)) :
    (roundWs (wsPumpRound ws)).inp.length < ws.inp.length := by
  have hcases := wsPumpRound_cases ws
  generalize wsPumpRound ws = r at hcases hgoes
  cases hcases with
  | more h =>
    obtain ⟨m, hm⟩ := hgoes _ rfl
    cases hm
  | violation code msg h =>
    obtain ⟨m, hm⟩ := hgoes _ rfl
    cases hm
  | frame f rest inp total hframe hdrop hlen =>
    rw [(wsPumpFrame_cases { ws with inp } f total).consumed hgoes, hdrop]
    exact Rfc6455.frame_shorter hframe

theorem wsPumpRound_decreases : Lib.Decreases wsPumpRound fun ws => ws.inp.length := by
  intro ws ws' h
  have hlt := wsPumpRound_shorter ws fun p hp => by
    rw [h] at hp
    cases hp
  rwa [h] at hlt

/-! ### `ws_pump`

Rounds until a message is there, an error came or octets are missing. -/

/-- `ws_pump`. -/
def wsPump (ws : Ws) : PumpRes × Ws :=
  Lib.loop wsPumpRound (fun ws => ws.inp.length) wsPumpRound_decreases ws

theorem keeps_wsPump (ws : Ws) : ws.Keeps (wsPump ws).2 := by
  refine Lib.loop_inv wsPumpRound_decreases (I := ws.Keeps) (Q := fun r => ws.Keeps r.2) ?_ ?_
    (.refl ws)
  · intro s s' hi hb
    have h := keeps_wsPumpRound s
    rw [hb] at h
    exact hi.trans h
  · intro s r hi hb
    have h := keeps_wsPumpRound s
    rw [hb] at h
    exact hi.trans h

theorem shorter_wsPump (ws : Ws) {m : WsMsg} (hm : (wsPump ws).1 = .msg m) :
    (wsPump ws).2.inp.length < ws.inp.length := by
  refine Lib.loop_induct wsPumpRound_decreases
    (P := fun s r => r.1 = .msg m → r.2.inp.length < s.inp.length) ?_ ?_ ws hm
  · intro s r hb hr
    have hlt := wsPumpRound_shorter s fun p hp => by
      rw [hb] at hp
      cases hp
      exact ⟨m, hr⟩
    rwa [hb] at hlt
  · intro s s' r hb ih hr
    have h := keeps_wsPumpRound s
    rw [hb] at h
    exact (ih hr).trans_le h.inp

/-- **A pump that asks for more** has read no complete frame and no violation. -/
theorem wsPump_more (ws : Ws) (hmore : (wsPump ws).1 = .more) : (wsPump ws).2.frame = .more := by
  refine Lib.loop_induct wsPumpRound_decreases (P := fun _ r => r.1 = .more → r.2.frame = .more)
    ?_ (fun s s' r hb ih => ih) ws hmore
  intro s r hb hr
  have hcases := wsPumpRound_cases s
  rw [hb] at hcases
  generalize hround : (Sum.inr r : Ws ⊕ (PumpRes × Ws)) = round at hcases
  cases hcases with
  | more h =>
    cases hround
    exact h
  | violation code msg h =>
    cases hround
    cases hr
  | frame f rest inp total h hdrop hlen =>
    have hframe := wsPumpFrame_cases { s with inp } f total
    rw [← hround] at hframe
    cases hframe with
    | pingFailed e hop hs => cases hr
    | violation inp frag active code msg hlen hstep => cases hr
    | closed code echo hstep => cases hr
    | message m frag hstep => cases hr

/-! ### `zcio_ws_recv`

Pump and fill by turns, up to the deadline. -/

/-- `INT_MAX`. -/
def INT_MAX : Nat := 2 ^ 31 - 1

/-- The time left until the deadline, and none when it is reached; without one a read blocks. -/
def wsTimeLeft (deadline : Option Nat) (ws : Ws) : Option Int × Ws :=
  match deadline with
  | none => (some (-1), ws)
  | some d =>
    let n := zcioNowMs ws.io
    (if d ≤ n.1 then none else some (min (d - n.1) INT_MAX : Nat), { ws with io := n.2 })

/-- A round of `zcio_ws_recv`. It returns nothing while a read blocks. -/
def wsRecvRound (deadline : Option Nat) (ws : Ws) : Ws ⊕ (Option (Except WsErr WsMsg) × Ws) :=
  let p := wsPump ws
  match p.1 with
  | .msg m => .inr (some (.ok m), p.2)
  | .closed => .inr (some (.error .eof), p.2)
  | .fail e => .inr (some (.error e), p.2)
  | .more =>
    let l := wsTimeLeft deadline p.2
    match l.1 with
    | none => .inr (some (.error .timeout), l.2)
    | some ms =>
      let f := wsFill l.2 ms
      match f.1 with
      | none => .inr (none, f.2)
      | some (.ok ()) => .inl f.2
      | some (.error .timeout) =>
        -- the timeout of the read, not the deadline
        if deadline = none then .inl f.2 else .inr (some (.error .timeout), f.2)
      | some (.error .eof) => .inr (some (.error .eof), { f.2 with failed := true })
      | some (.error e) => .inr (some (.error e), f.2)

theorem keeps_wsTimeLeft (deadline : Option Nat) (ws : Ws) :
    ws.Keeps (wsTimeLeft deadline ws).2 := by
  unfold wsTimeLeft
  split
  · exact .refl ws
  · exact ⟨rfl, rfl, rfl, rfl, le_rfl⟩

/-- A read that does not block takes an entry of the script. -/
theorem wsFill_reads (ws : Ws) (ms : Int) (h : (wsFill ws ms).1 ≠ none) :
    ∃ rd, ws.io.reads = rd :: (wsFill ws ms).2.io.reads := by
  unfold wsFill at h ⊢
  dsimp only [wsApplyTimeout] at h ⊢
  cases hr : ws.io.reads with
  | nil =>
    rw [hr] at h
    exact absurd rfl h
  | cons rd reads => cases rd <;> exact ⟨_, rfl⟩

theorem wsRecvRound_reads {deadline : Option Nat} {ws ws' : Ws}
    (h : wsRecvRound deadline ws = .inl ws') :
    (wsPump ws).1 = .more ∧ ∃ ms, (wsTimeLeft deadline (wsPump ws).2).1 = some ms ∧
      ws' = (wsFill (wsTimeLeft deadline (wsPump ws).2).2 ms).2 ∧
      (wsFill (wsTimeLeft deadline (wsPump ws).2).2 ms).1 ≠ none := by
  unfold wsRecvRound at h
  dsimp only at h
  split at h
  · cases h
  · cases h
  · cases h
  · rename_i hmore
    refine ⟨hmore, ?_⟩
    split at h
    · cases h
    · rename_i ms hms
      refine ⟨ms, hms, ?_⟩
      split at h
      · cases h
      · rename_i hok
        cases h
        exact ⟨rfl, by rw [hok]; exact Option.some_ne_none _⟩
      · rename_i htimeout
        split at h
        · cases h
          exact ⟨rfl, by rw [htimeout]; exact Option.some_ne_none _⟩
        · cases h
      · cases h
      · cases h

theorem wsRecvRound_decreases (deadline : Option Nat) :
    Lib.Decreases (wsRecvRound deadline) fun ws => ws.io.reads.length := by
  intro ws ws' h
  obtain ⟨-, ms, -, rfl, hread⟩ := wsRecvRound_reads h
  obtain ⟨rd, hreads⟩ := wsFill_reads _ _ hread
  have hkeeps := ((keeps_wsPump ws).trans (keeps_wsTimeLeft deadline _)).reads
  dsimp only
  rw [← hkeeps, hreads]
  exact Nat.lt_succ_self _

/-- The deadline of a call with a timeout. -/
def wsDeadline (ws : Ws) (timeoutMs : Int) : Option Nat × Ws :=
  if 0 ≤ timeoutMs then
    let n := zcioNowMs ws.io
    (some (n.1 + timeoutMs.toNat), { ws with io := n.2 })
  else (none, ws)

/-- `zcio_ws_recv`. -/
def zcioWsRecv (ws : Ws) (timeoutMs : Int) : Option (Except WsErr WsMsg) × Ws :=
  if ws.closeRecv = true ∨ ws.failed = true then (some (.error .eof), ws)
  else
    let d := wsDeadline ws timeoutMs
    Lib.loop (wsRecvRound d.1) (fun ws => ws.io.reads.length) (wsRecvRound_decreases d.1) d.2

/-! ### `zcio_ws_send` and `zcio_ws_ping` -/

/-- `zcio_ws_send`. -/
def zcioWsSend (ws : Ws) (type : Int) (data : Bytes) : Except Fail Unit × Ws :=
  if ws.failed = true ∨ ws.closeSent = true then
    (zcioFail .err "ws_send: session is closing/closed", ws)
  else if type = WsType.text.code then
    if data ≠ [] ∧ zhsUtf8Valid data = false then
      (zcioFail .invalidArg "ws_send: text payload not UTF-8", ws)
    else wsSendFrame ws .text true data
  else if type = WsType.binary.code then wsSendFrame ws .bin true data
  else (zcioFail .invalidArg "ws_send: invalid message type", ws)

/-- `zcio_ws_ping`. -/
def zcioWsPing (ws : Ws) (data : Bytes) : Except Fail Unit × Ws :=
  if ws.failed = true ∨ ws.closeSent = true then
    (zcioFail .err "ws_ping: session is closing/closed", ws)
  else if 125 < data.length then
    (zcioFail .invalidArg "ws_ping: payload exceeds 125 bytes", ws)
  else wsSendFrame ws .ping true data

/-! ### `zcio_ws_close`

A close frame is sent, then frames are read until the peer's own comes. -/

/-- The payload of the close frame that `zcio_ws_close` sends. -/
def wsClosePayload (code : UInt16) (reason : Option CStr) : Except Fail Bytes :=
  match reason with
  | none => .ok (wsCode code.toNat)
  | some r =>
    if 123 < r.1.length then zcioFail .invalidArg "ws_close: reason too long"
    else if r.1 ≠ [] ∧ zhsUtf8Valid r.1 = false then
      zcioFail .invalidArg "ws_close: reason not UTF-8"
    else .ok (wsCode code.toNat ++ r.1)

/-- A round of the wait for the peer's close frame. It returns nothing while a read blocks. -/
def wsCloseRound (deadline : Nat) (ws : Ws) : Ws ⊕ (Option Unit × Ws) :=
  if ws.closeRecv then .inr (some (), ws)
  else
    let n := zcioNowMs ws.io
    let ws := { ws with io := n.2 }
    if deadline ≤ n.1 then .inr (some (), ws)
    else
      let p := wsPump ws
      match p.1 with
      | .msg _ => .inl p.2
      | .closed => .inr (some (), p.2)
      | .fail _ => .inr (some (), { p.2 with failed := true })
      | .more =>
        let f := wsFill p.2 (deadline - n.1 : Nat)
        match f.1 with
        | none => .inr (none, f.2)
        | some (.ok ()) => .inl f.2
        | some (.error .timeout) =>
          let n := zcioNowMs f.2.io
          let ws := { f.2 with io := n.2 }
          if deadline ≤ n.1 then .inr (some (), ws) else .inl ws
        | some (.error _) => .inr (some (), { f.2 with failed := true })

/-- What a read adds to the measure of the wait. -/
def WsRead.size : WsRead → Nat
  | .octets b => b.1.length + 1
  | _ => 1

/-- The input that is there and that is to come. -/
def Ws.pending (ws : Ws) : Nat := ws.inp.length + (ws.io.reads.map WsRead.size).sum

theorem pending_wsFill (ws : Ws) (ms : Int) (h : (wsFill ws ms).1 ≠ none) :
    (wsFill ws ms).2.pending < ws.pending := by
  unfold wsFill at h ⊢
  dsimp only [wsApplyTimeout, Ws.pending] at h ⊢
  cases hr : ws.io.reads with
  | nil =>
    rw [hr] at h
    exact absurd rfl h
  | cons rd reads =>
    rw [List.map_cons, List.sum_cons]
    cases rd with
    | octets b =>
      simp only [List.length_append, WsRead.size]
      omega
    | timeout => simp only [WsRead.size]; omega
    | eof => simp only [WsRead.size]; omega
    | error e => simp only [WsRead.size]; omega

theorem Ws.Keeps.pending_le {ws' : Ws} (h : ws.Keeps ws') : ws'.pending ≤ ws.pending := by
  unfold Ws.pending
  rw [h.reads]
  exact Nat.add_le_add_right h.inp _

theorem wsCloseRound_decreases (deadline : Nat) : Lib.Decreases (wsCloseRound deadline) Ws.pending := by
  intro ws ws' h
  unfold wsCloseRound at h
  dsimp only at h
  split at h
  · cases h
  split at h
  · cases h
  generalize hws₁ : { ws with io := (zcioNowMs ws.io).2 } = ws₁ at h
  have hpending : ws₁.pending = ws.pending := by rw [← hws₁]; rfl
  have hkeeps := (keeps_wsPump ws₁).pending_le
  split at h
  · rename_i m hm
    cases h
    have hlt := shorter_wsPump ws₁ hm
    have hreads := (keeps_wsPump ws₁).reads
    rw [← hpending]
    unfold Ws.pending
    rw [hreads]
    exact Nat.add_lt_add_right hlt _
  · cases h
  · cases h
  · have hfill := pending_wsFill (wsPump ws₁).2 (deadline - (zcioNowMs ws.io).1 : Nat)
    split at h
    · cases h
    · rename_i hok
      cases h
      have := hfill (by rw [hok]; exact Option.some_ne_none _)
      omega
    · rename_i htimeout
      have := hfill (by rw [htimeout]; exact Option.some_ne_none _)
      split at h
      · cases h
      · cases h
        refine lt_of_le_of_lt ?_ (this.trans_le (hkeeps.trans hpending.le))
        exact le_rfl
    · cases h

/-- The wait of `zcio_ws_close` for the peer's close frame. -/
def wsAwaitClose (ws : Ws) : Option Unit × Ws :=
  if ws.closeRecv = true ∨ ws.failed = true then (some (), ws)
  else
    let n := zcioNowMs ws.io
    let deadline := n.1 + if 0 < ws.timeoutMs then ws.timeoutMs.toNat else WS_DEFAULT_TIMEOUT
    Lib.loop (wsCloseRound deadline) Ws.pending (wsCloseRound_decreases deadline)
      { ws with io := n.2 }

/-- `zcio_ws_close`. -/
def zcioWsClose (ws : Ws) (code : UInt16) (reason : Option CStr) :
    Option (Except Fail Unit) × Ws :=
  let await (ws : Ws) : Option (Except Fail Unit) × Ws :=
    let r := wsAwaitClose ws
    (r.1.map .ok, r.2)
  if ws.closeSent = false ∧ ws.failed = false then
    match wsClosePayload code reason with
    | .error f => (some (.error f), ws)
    | .ok payload =>
      let s := wsSendFrame ws .close true payload
      match s.1 with
      | .error _ => (some (.ok ()), { s.2 with closeSent := true, failed := true })
      | .ok () => await { s.2 with closeSent := true }
  else await ws

end Zcio
