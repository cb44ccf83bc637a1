import Zcio.Ws.Calls

/-!
# Zcio.Ws.Wire

What a session puts on the wire when writes may fail at any octet. A frame that went out in
part is not remembered by `zcio_ws_send`, `zcio_ws_ping` or `zcio_ws_recv`, so that a later call
writes behind it (`ws_wire_torn`). As long as no call is made in such a state, the wire holds
complete frames and the beginning of one (`ws_wire_intact`).
-/

namespace Zcio

/-! ### The frames of a session

What a session has written is whole frames, or whole frames and the beginning of one that
was torn. -/

/-- The frames of which something was written. -/
def Ws.begun (ws : Ws) : List WsSent := ws.io.sent.filter fun s => decide (0 < s.put)

/-- All of the frame was written. -/
def WsSent.Whole (s : WsSent) : Prop := s.put = s.frame.encode.length

/-- Some frame was written in part. -/
def Ws.Torn (ws : Ws) : Prop := ∃ s ∈ ws.begun, ¬s.Whole

/-- A session whose last frame went out in part is marked as failed, or has the close frames of
both sides behind it. -/
def Ws.Sealed (ws : Ws) : Prop := ws.Torn → ws.failed = true ∨ ws.closeRecv = true

/-- **The wire of a session** is the beginning of its frames; at most the last of them is not
whole; at most one is a close frame, and no message or ping comes after that. -/
structure Ws.WireIntact (ws : Ws) : Prop where
  wire : ws.io.wire <+: (ws.begun.map fun s => s.frame.encode).flatten
  whole : ∀ a s t b, ws.begun = a ++ s :: t :: b → s.Whole
  oneClose : (ws.begun.filter fun s => decide (s.frame.opcode = .close)).length ≤ 1
  last : ∀ a s b, ws.begun = a ++ s :: b → s.frame.opcode = .close →
    ∀ t ∈ b, t.frame.opcode ≠ .text ∧ t.frame.opcode ≠ .bin ∧ t.frame.opcode ≠ .ping

/-! ### The invariant

Behind a torn frame nothing is written. -/

/-- What holds of the log between two frames. -/
structure Ws.WireInv (ws : Ws) : Prop where
  wire : ws.io.wire = (ws.begun.map fun s => s.frame.encode.take s.put).flatten
  put : ∀ s ∈ ws.begun, s.put ≤ s.frame.encode.length
  whole : ∀ s ∈ ws.begun.dropLast, s.Whole
  close : ∀ s ∈ ws.begun, s.frame.opcode = .close → ws.closeSent = true
  /-- After the close frame only pongs. -/
  last : ws.begun.Pairwise fun s t => s.frame.opcode = .close → t.frame.opcode = .pong

variable {ws ws' : Ws}

/-- Whole frames but for the last are the beginning of whole frames. -/
theorem wire_prefix (l : List WsSent) (h : ∀ s ∈ l.dropLast, s.Whole) :
    (l.map fun s => s.frame.encode.take s.put).flatten <+: (l.map fun s => s.frame.encode).flatten := by
  induction l with
  | nil => exact List.nil_prefix
  | cons s l ih =>
    rw [List.map_cons, List.map_cons, List.flatten_cons, List.flatten_cons]
    cases l with
    | nil => simpa using List.take_prefix s.put s.frame.encode
    | cons t l =>
      rw [List.dropLast_cons_cons] at h
      have hs : s.put = s.frame.encode.length := h s List.mem_cons_self
      rw [hs, List.take_length]
      exact (List.prefix_append_right_inj _).mpr (ih fun u hu => h u (List.mem_cons_of_mem _ hu))

theorem Ws.WireInv.intact (h : ws.WireInv) : ws.WireIntact where
  wire := by
    rw [h.wire]
    exact wire_prefix _ h.whole
  whole := by
    intro a s t b heq
    refine h.whole s ?_
    have hne : s :: t :: b ≠ [] := fun hnil => by cases hnil
    rw [heq, List.dropLast_append_of_ne_nil hne, List.dropLast_cons_cons]
    exact List.mem_append_right _ List.mem_cons_self
  oneClose := by
    have hpair := h.last.filter fun s => decide (s.frame.opcode = .close)
    have hmem : ∀ s ∈ ws.begun.filter fun s => decide (s.frame.opcode = .close),
        s.frame.opcode = .close := fun s hs => of_decide_eq_true (List.mem_filter.mp hs).2
    generalize ws.begun.filter (fun s => decide (s.frame.opcode = .close)) = l at hpair hmem
    match l with
    | [] => exact Nat.zero_le _
    | [s] => exact le_rfl
    | s :: t :: l =>
      have hpong := (List.pairwise_cons.mp hpair).1 t List.mem_cons_self (hmem s List.mem_cons_self)
      have hclose := hmem t (List.mem_cons_of_mem _ List.mem_cons_self)
      rw [hpong] at hclose
      cases hclose
  last := by
    intro a s b heq hs t ht
    have hpair := h.last
    rw [heq] at hpair
    have hpong := (List.pairwise_cons.mp (List.pairwise_append.mp hpair).2.1).1 t ht hs
    rw [hpong]
    decide

theorem Ws.begun_congr (hsent : ws'.io.sent = ws.io.sent) : ws'.begun = ws.begun := by
  unfold Ws.begun
  rw [hsent]

theorem Ws.WireInv.congr (h : ws.WireInv) (hwire : ws'.io.wire = ws.io.wire)
    (hsent : ws'.io.sent = ws.io.sent) (hclose : ws.closeSent = true → ws'.closeSent = true) :
    ws'.WireInv := by
  have hbegun := Ws.begun_congr hsent
  refine ⟨?_, ?_, ?_, fun s hs hop => ?_, ?_⟩
  · rw [hwire, hbegun]
    exact h.wire
  · rw [hbegun]
    exact h.put
  · rw [hbegun]
    exact h.whole
  · rw [hbegun] at hs
    exact hclose (h.close s hs hop)
  · rw [hbegun]
    exact h.last

theorem Ws.torn_congr (hsent : ws'.io.sent = ws.io.sent) : ws'.Torn ↔ ws.Torn := by
  unfold Ws.Torn
  rw [Ws.begun_congr hsent]

theorem Ws.begun_append {s : WsSent} (hsent : ws'.io.sent = ws.io.sent ++ [s]) :
    ws'.begun = ws.begun ++ if 0 < s.put then [s] else [] := by
  unfold Ws.begun
  rw [hsent, List.filter_append]
  by_cases hs : 0 < s.put
  · simp [hs]
  · simp [hs]

theorem Ws.whole_of_not_torn (h : ¬ws.Torn) : ∀ s ∈ ws.begun, s.Whole := fun s hs => by
  by_contra hno
  exact h ⟨s, hs, hno⟩

/-- A frame behind whole frames. -/
theorem Ws.WireInv.append (h : ws.WireInv) (hwhole : ¬ws.Torn) {f : WsFrame} {n : Nat}
    (hn : n ≤ f.encode.length) (hwire : ws'.io.wire = ws.io.wire ++ f.encode.take n)
    (hsent : ws'.io.sent = ws.io.sent ++ [⟨f, n⟩])
    (hop : f.opcode = .pong ∨ ws.closeSent = false)
    (hclose : f.opcode = .close → ws'.closeSent = true)
    (hkeep : ws.closeSent = true → ws'.closeSent = true) :
    ws'.WireInv ∧ (n = f.encode.length → ¬ws'.Torn) := by
  have hall := Ws.whole_of_not_torn hwhole
  have hbegun := Ws.begun_append hsent
  by_cases hpos : 0 < n
  · rw [if_pos hpos] at hbegun
    refine ⟨⟨?_, ?_, ?_, ?_, ?_⟩, ?_⟩
    · rw [hwire, hbegun, h.wire, List.map_append, List.flatten_append]
      simp
    · rw [hbegun]
      intro s hs
      obtain hs | hs := List.mem_append.mp hs
      · exact h.put s hs
      · rw [List.mem_singleton.mp hs]
        exact hn
    · rw [hbegun, List.dropLast_concat]
      exact hall
    · rw [hbegun]
      intro s hs hopc
      obtain hs | hs := List.mem_append.mp hs
      · exact hkeep (h.close s hs hopc)
      · rw [List.mem_singleton.mp hs] at hopc
        exact hclose hopc
    · rw [hbegun]
      refine List.pairwise_append.mpr ⟨h.last, List.pairwise_singleton .., fun s hs t ht hopc => ?_⟩
      rw [List.mem_singleton.mp ht]
      -- a close frame is behind us, so this one is a pong
      refine hop.resolve_right fun hno => ?_
      rw [h.close s hs hopc] at hno
      cases hno
    · rintro hfull ⟨s, hs, hno⟩
      rw [hbegun] at hs
      obtain hs | hs := List.mem_append.mp hs
      · exact hno (hall s hs)
      · rw [List.mem_singleton.mp hs] at hno
        exact hno hfull
  · rw [if_neg hpos, List.append_nil] at hbegun
    have hzero : n = 0 := Nat.eq_zero_of_not_pos hpos
    refine ⟨⟨?_, ?_, ?_, ?_, ?_⟩, fun _ => ?_⟩
    · rw [hwire, hbegun, hzero, List.take_zero, List.append_nil]
      exact h.wire
    · rw [hbegun]
      exact h.put
    · rw [hbegun]
      exact h.whole
    · rw [hbegun]
      exact fun s hs hopc => hkeep (h.close s hs hopc)
    · rw [hbegun]
      exact h.last
    · unfold Ws.Torn
      rw [hbegun]
      exact hwhole

/-- **Sending a frame**, a pong or in front of the close frame, behind whole frames. -/
theorem Ws.WireInv.send (h : ws.WireInv) (hwhole : ¬ws.Torn) {op : WsOpcode}
    (hop : op = .pong ∨ ws.closeSent = false) (fin : Bool) (data : Bytes) {closed : Bool}
    (hclose : op = .close → closed = true) (hkeep : ws.closeSent = true → closed = true) :
    Ws.WireInv { (wsSendFrame ws op fin data).2 with closeSent := closed } ∧
      ((wsSendFrame ws op fin data).1 = .ok () → ¬(wsSendFrame ws op fin data).2.Torn) := by
  have hstep := wsSendFrame_step ws op fin data
  generalize wsSendFrame ws op fin data = r at hstep
  obtain ⟨r, ws'⟩ := r
  cases hstep with
  | noKey keys f hclient hbad =>
    refine ⟨h.congr rfl rfl hkeep, fun hok => ?_⟩
    cases hok
  | put key n r keys writes hrole hkeys hwrites hn hres hall =>
    exact (h.append hwhole hn rfl rfl hop hclose hkeep).imp id
      fun htorn hok => htorn (hres.mp hok)

/-- The close frame of the peer's violation or of the echo. -/
theorem Ws.WireInv.sendClose (h : ws.WireInv) (hwhole : ¬ws.Torn) (payload : Bytes) :
    (wsSendClose ws payload).WireInv ∧ (wsSendClose ws payload).closeSent = true := by
  unfold wsSendClose
  by_cases hsent : ws.closeSent = true
  · rw [if_pos hsent]
    exact ⟨h, hsent⟩
  · rw [if_neg hsent]
    exact ⟨(h.send hwhole (.inr (Bool.eq_false_iff.mpr hsent)) true payload (fun _ => rfl)
      fun _ => rfl).1, rfl⟩

/-! ### Calls

Each call of the interface, from any state that the interface reaches. -/

/-- The invariant of a run. -/
structure Ws.RunInv (ws : Ws) : Prop extends ws.WireInv where
  recv : ws.closeRecv = true → ws.closeSent = true

theorem Ws.RunInv.congr (h : ws.RunInv) (hwire : ws'.io.wire = ws.io.wire)
    (hsent : ws'.io.sent = ws.io.sent) (hclose : ws'.closeSent = ws.closeSent)
    (hrecv : ws'.closeRecv = ws.closeRecv) : ws'.RunInv :=
  ⟨h.toWireInv.congr hwire hsent fun hs => hclose.trans hs,
    fun hr => hclose.trans (h.recv (hrecv.symm.trans hr))⟩

theorem wsProtocolFail_inv (h : ws.RunInv) (hwhole : ¬ws.Torn) (code : Nat) (msg : String) :
    (wsProtocolFail ws code msg).2.RunInv := by
  obtain ⟨hinv, hclose⟩ := h.sendClose hwhole (wsCode code)
  exact ⟨hinv.congr rfl rfl id, fun _ => hclose⟩

/-- The outcomes of `ws_pump` after which a call may go on. -/
def PumpRes.GoesOn : PumpRes → Prop
  | .msg _ | .more => True
  | .closed | .fail _ => False

/-- The state that a round of `ws_pump` leaves. -/
structure RoundInv (r : Ws ⊕ (PumpRes × Ws)) : Prop where
  inv : (roundWs r).RunInv
  /-- A round that lets the caller go on has written nothing, or a whole pong. -/
  whole : (∀ p, r = .inr p → p.1.GoesOn) → ¬(roundWs r).Torn

theorem FrameCases.wire {f : Rfc6455.Frame} {total : Nat} {r : Ws ⊕ (PumpRes × Ws)}
    (hcases : FrameCases ws f total r) (h : ws.RunInv) (hwhole : ¬ws.Torn) : RoundInv r := by
  have hpong : Ws.WireInv { (wsSendFrame ws .pong true f.payload).2 with closeSent := ws.closeSent } ∧
      _ := h.send hwhole (.inl rfl) true f.payload (fun hop => by cases hop) id
  obtain ⟨io, hframe, -⟩ := wsSendFrame_frame ws .pong true f.payload
  have hpong' : (wsSendFrame ws .pong true f.payload).2.RunInv := by
    refine ⟨hpong.1.congr rfl rfl ?_, ?_⟩
    · rw [hframe]
      exact id
    · rw [hframe]
      exact h.recv
  cases hcases with
  | ping hop hs => exact ⟨hpong'.congr rfl rfl rfl rfl, fun _ => hpong.2 hs⟩
  | pingFailed e hop hs =>
    exact ⟨hpong'.congr rfl rfl rfl rfl, fun hgo => (hgo _ rfl).elim⟩
  | pong hop => exact ⟨h.congr rfl rfl rfl rfl, fun _ => hwhole⟩
  | violation inp frag active code msg hlen hstep =>
    have hset : Ws.RunInv { ws with inp, frag, fragActive := active } := h.congr rfl rfl rfl rfl
    exact ⟨wsProtocolFail_inv hset hwhole code msg,
      fun hgo => (hgo _ rfl).elim⟩
  | closed code echo hstep =>
    have hset : Ws.WireInv { ws with closeCode := code, closeRecv := true } :=
      h.toWireInv.congr rfl rfl id
    obtain ⟨hinv, hclose⟩ := hset.sendClose hwhole echo
    exact ⟨⟨hinv.congr rfl rfl id, fun _ => hclose⟩, fun hgo => (hgo _ rfl).elim⟩
  | message m frag hstep => exact ⟨h.congr rfl rfl rfl rfl, fun _ => hwhole⟩
  | fragment op frag hstep => exact ⟨h.congr rfl rfl rfl rfl, fun _ => hwhole⟩

theorem wsPumpRound_wire (h : ws.RunInv) (hwhole : ¬ws.Torn) : RoundInv (wsPumpRound ws) := by
  have hcases := wsPumpRound_cases ws
  generalize wsPumpRound ws = r at hcases
  cases hcases with
  | more hmore => exact ⟨h, fun _ => hwhole⟩
  | violation code msg hbad =>
    exact ⟨wsProtocolFail_inv h hwhole code msg, fun hgo => (hgo _ rfl).elim⟩
  | frame f rest inp total hframe hdrop hlen =>
    exact (wsPumpFrame_cases { ws with inp } f total).wire (h.congr rfl rfl rfl rfl) hwhole

/-- **`ws_pump`** lets its caller go on only behind whole frames. -/
theorem wsPump_wire (h : ws.RunInv) (hwhole : ¬ws.Torn) :
    (wsPump ws).2.RunInv ∧ ((wsPump ws).1.GoesOn → ¬(wsPump ws).2.Torn) := by
  refine Lib.loop_inv wsPumpRound_decreases (I := fun ws => ws.RunInv ∧ ¬ws.Torn)
    (Q := fun r => r.2.RunInv ∧ (r.1.GoesOn → ¬r.2.Torn)) ?_ ?_ ⟨h, hwhole⟩
  · rintro s s' ⟨hinv, hs⟩ hb
    have hround := wsPumpRound_wire hinv hs
    rw [hb] at hround
    exact ⟨hround.inv, hround.whole fun p hp => by cases hp⟩
  · rintro s r ⟨hinv, hs⟩ hb
    have hround := wsPumpRound_wire hinv hs
    rw [hb] at hround
    refine ⟨hround.inv, fun hgo => hround.whole fun p hp => ?_⟩
    cases hp
    exact hgo

theorem wsFill_wire (h : ws.RunInv) (ms : Int) :
    (wsFill ws ms).2.RunInv ∧ ((wsFill ws ms).2.Torn ↔ ws.Torn) := by
  unfold wsFill
  dsimp only [wsApplyTimeout]
  split
  all_goals exact ⟨h.congr rfl rfl rfl rfl, Ws.torn_congr rfl⟩

theorem wsRecvRound_wire (deadline : Option Nat) (h : ws.RunInv) (hwhole : ¬ws.Torn) :
    (∀ ws', wsRecvRound deadline ws = .inl ws' → ws'.RunInv ∧ ¬ws'.Torn) ∧
      ∀ r, wsRecvRound deadline ws = .inr r → r.2.RunInv := by
  obtain ⟨hinv, hgo⟩ := wsPump_wire h hwhole
  have hleft : (wsTimeLeft deadline (wsPump ws).2).2.RunInv ∧
      ((wsTimeLeft deadline (wsPump ws).2).2.Torn ↔ (wsPump ws).2.Torn) := by
    unfold wsTimeLeft
    split
    · exact ⟨hinv, Iff.rfl⟩
    · exact ⟨hinv.congr rfl rfl rfl rfl, Ws.torn_congr rfl⟩
  refine ⟨fun ws' hround => ?_, fun r hround => ?_⟩
  · obtain ⟨hmore, ms, -, rfl, -⟩ := wsRecvRound_reads hround
    obtain ⟨hfill, htorn⟩ := wsFill_wire hleft.1 ms
    rw [hmore] at hgo
    exact ⟨hfill, fun ht => hgo trivial (hleft.2.mp (htorn.mp ht))⟩
  · unfold wsRecvRound at hround
    dsimp only at hround
    split at hround
    · cases hround; exact hinv
    · cases hround; exact hinv
    · cases hround; exact hinv
    split at hround
    · cases hround; exact hleft.1
    rename_i ms _
    obtain ⟨hfill, -⟩ := wsFill_wire hleft.1 ms
    split at hround
    · cases hround; exact hfill
    · cases hround
    · split at hround
      · cases hround
      · cases hround; exact hfill
    · cases hround; exact hfill.congr rfl rfl rfl rfl
    · cases hround; exact hfill

theorem zcioWsRecv_wire (h : ws.RunInv) (hsealed : ws.Sealed) (timeoutMs : Int) :
    (zcioWsRecv ws timeoutMs).2.RunInv := by
  unfold zcioWsRecv
  by_cases hdone : ws.closeRecv = true ∨ ws.failed = true
  · rw [if_pos hdone]
    exact h
  rw [if_neg hdone]
  have hwhole : ¬ws.Torn := fun ht => hdone (hsealed ht).symm
  have hstart : (wsDeadline ws timeoutMs).2.RunInv ∧ ¬(wsDeadline ws timeoutMs).2.Torn := by
    unfold wsDeadline
    split
    · exact ⟨h.congr rfl rfl rfl rfl, hwhole⟩
    · exact ⟨h, hwhole⟩
  refine Lib.loop_inv _ (I := fun s : Ws => s.RunInv ∧ ¬s.Torn)
    (Q := fun r : Option (Except WsErr WsMsg) × Ws => r.2.RunInv) ?_ ?_ hstart
  · exact fun s s' hi hb => (wsRecvRound_wire _ hi.1 hi.2).1 s' hb
  · exact fun s r hi hb => (wsRecvRound_wire _ hi.1 hi.2).2 r hb

/-- A message or a ping: nothing goes out behind a close frame. -/
theorem Ws.RunInv.sendFrame (h : ws.RunInv) (hwhole : ¬ws.Torn) {op : WsOpcode}
    (hop : op ≠ .close) (hopen : ws.closeSent = false) (data : Bytes) :
    (wsSendFrame ws op true data).2.RunInv := by
  obtain ⟨io, hframe, -⟩ := wsSendFrame_frame ws op true data
  have hinv : Ws.WireInv { (wsSendFrame ws op true data).2 with closeSent := ws.closeSent } :=
    (h.send hwhole (.inr hopen) true data (fun hc => absurd hc hop) id).1
  refine ⟨hinv.congr rfl rfl ?_, ?_⟩
  · rw [hframe]
    exact id
  · rw [hframe]
    exact h.recv

theorem Ws.RunInv.notTorn (h : ws.RunInv) (hsealed : ws.Sealed)
    (hopen : ¬(ws.failed = true ∨ ws.closeSent = true)) : ¬ws.Torn := by
  intro ht
  obtain hfailed | hrecv := hsealed ht
  · exact hopen (.inl hfailed)
  · exact hopen (.inr (h.recv hrecv))

theorem zcioWsSend_wire (h : ws.RunInv) (hsealed : ws.Sealed) (type : Int) (data : Bytes) :
    (zcioWsSend ws type data).2.RunInv := by
  unfold zcioWsSend
  by_cases hdone : ws.failed = true ∨ ws.closeSent = true
  · rw [if_pos hdone]
    exact h
  rw [if_neg hdone]
  have hwhole := h.notTorn hsealed hdone
  have hopen : ws.closeSent = false := Bool.eq_false_iff.mpr fun hc => hdone (.inr hc)
  by_cases htext : type = WsType.text.code
  · rw [if_pos htext]
    split
    · exact h
    · exact h.sendFrame hwhole (by decide) hopen data
  rw [if_neg htext]
  split
  · exact h.sendFrame hwhole (by decide) hopen data
  · exact h

theorem zcioWsPing_wire (h : ws.RunInv) (hsealed : ws.Sealed) (data : Bytes) :
    (zcioWsPing ws data).2.RunInv := by
  unfold zcioWsPing
  by_cases hdone : ws.failed = true ∨ ws.closeSent = true
  · rw [if_pos hdone]
    exact h
  rw [if_neg hdone]
  split
  · exact h
  · exact h.sendFrame (h.notTorn hsealed hdone) (by decide)
      (Bool.eq_false_iff.mpr fun hc => hdone (.inr hc)) data

theorem wsCloseRound_wire (deadline : Nat) (h : ws.RunInv) (hwhole : ¬ws.Torn) :
    (∀ ws', wsCloseRound deadline ws = .inl ws' → ws'.RunInv ∧ ¬ws'.Torn) ∧
      ∀ r, wsCloseRound deadline ws = .inr r → r.2.RunInv := by
  unfold wsCloseRound
  dsimp only
  generalize hws₁ : { ws with io := (zcioNowMs ws.io).2 } = ws₁
  have hinv₁ : ws₁.RunInv := by
    rw [← hws₁]
    exact h.congr rfl rfl rfl rfl
  have hwhole₁ : ¬ws₁.Torn := by
    rw [← hws₁]
    exact hwhole
  -- the pump, then one read
  obtain ⟨hinv, hgo⟩ := wsPump_wire hinv₁ hwhole₁
  obtain ⟨hfill, htorn⟩ := wsFill_wire hinv (deadline - (zcioNowMs ws.io).1 : Nat)
  refine ⟨fun ws' hround => ?_, fun r hround => ?_⟩
  · -- the loop goes on
    split at hround
    · cases hround
    split at hround
    · cases hround
    split at hround
    · -- a message that nobody waits for any more
      rename_i m hm
      cases hround
      rw [hm] at hgo
      exact ⟨hinv, hgo trivial⟩
    · cases hround
    · cases hround
    · -- the pump wants more octets
      rename_i hmore
      rw [hmore] at hgo
      have hwhole₂ := fun ht => hgo trivial (htorn.mp ht)
      split at hround
      · cases hround
      · cases hround
        exact ⟨hfill, hwhole₂⟩
      · split at hround
        · cases hround
        · cases hround
          exact ⟨hfill.congr rfl rfl rfl rfl, hwhole₂⟩
      · cases hround
  · -- the loop ends
    split at hround
    · cases hround; exact h
    split at hround
    · cases hround; exact hinv₁
    split at hround
    · cases hround
    · cases hround; exact hinv
    · cases hround; exact hinv.congr rfl rfl rfl rfl
    · split at hround
      · cases hround; exact hfill
      · cases hround
      · split at hround
        · cases hround; exact hfill.congr rfl rfl rfl rfl
        · cases hround
      · cases hround; exact hfill.congr rfl rfl rfl rfl

theorem wsAwaitClose_wire (h : ws.RunInv) (hsealed : ws.Sealed) :
    (wsAwaitClose ws).2.RunInv := by
  unfold wsAwaitClose
  by_cases hdone : ws.closeRecv = true ∨ ws.failed = true
  · rw [if_pos hdone]
    exact h
  rw [if_neg hdone]
  have hwhole : ¬ws.Torn := fun ht => hdone (hsealed ht).symm
  refine Lib.loop_inv _ (I := fun s : Ws => s.RunInv ∧ ¬s.Torn)
    (Q := fun r : Option Unit × Ws => r.2.RunInv) ?_ ?_
    ⟨h.congr rfl rfl rfl rfl, hwhole⟩
  · exact fun s s' hi hb => (wsCloseRound_wire _ hi.1 hi.2).1 s' hb
  · exact fun s r hi hb => (wsCloseRound_wire _ hi.1 hi.2).2 r hb

theorem zcioWsClose_wire (h : ws.RunInv) (hsealed : ws.Sealed) (code : UInt16)
    (reason : Option CStr) : (zcioWsClose ws code reason).2.RunInv := by
  unfold zcioWsClose
  dsimp only
  by_cases hopen : ws.closeSent = false ∧ ws.failed = false
  · rw [if_pos hopen]
    split
    · exact h
    · rename_i payload _
      have hwhole := h.notTorn hsealed (by rw [hopen.1, hopen.2]; decide)
      have hsend : Ws.WireInv { (wsSendFrame ws .close true payload).2 with closeSent := true } ∧ _ :=
        h.send hwhole (.inr hopen.1) true payload (fun _ => rfl) fun _ => rfl
      split
      · exact ⟨hsend.1.congr rfl rfl id, fun _ => rfl⟩
      · rename_i hok
        exact wsAwaitClose_wire ⟨hsend.1, fun _ => rfl⟩ fun ht => absurd ht (hsend.2 hok)
  · rw [if_neg hopen]
    exact wsAwaitClose_wire h hsealed

/-- A session as it is opened; the handshake may have read some of the input. -/
structure Ws.Fresh (ws : Ws) : Prop where
  idle : ws.fragActive = false ∧ ws.frag = []
  opened : ws.closeSent = false ∧ ws.closeRecv = false ∧ ws.failed = false
  wire : ws.io.wire = [] ∧ ws.io.sent = []
  got : ws.io.got = ws.inp

/-- The calls on a session. -/
inductive WsCall where
  | send (type : Int) (data : Bytes)
  | ping (data : Bytes)
  | recv (timeoutMs : Int)
  | close (code : UInt16) (reason : Option CStr)

/-- The session after a call. -/
def WsCall.run (ws : Ws) : WsCall → Ws
  | .send type data => (zcioWsSend ws type data).2
  | .ping data => (zcioWsPing ws data).2
  | .recv timeoutMs => (zcioWsRecv ws timeoutMs).2
  | .close code reason => (zcioWsClose ws code reason).2

/-- The runs in which no call is made behind a frame that went out in part, on a session that
is still in use. -/
inductive WsRun : Ws → Prop
  | fresh {ws : Ws} : ws.Fresh → WsRun ws
  | call {ws : Ws} (c : WsCall) : WsRun ws → ws.Sealed → WsRun (c.run ws)

theorem WsRun.inv (h : WsRun ws) : ws.RunInv := by
  induction h with
  | @fresh ws hf =>
    have hbegun : ws.begun = [] := by
      unfold Ws.begun
      rw [hf.wire.2]
      rfl
    refine ⟨⟨?_, ?_, ?_, ?_, ?_⟩, fun hr => ?_⟩
    · rw [hbegun]
      exact hf.wire.1
    · simp [hbegun]
    · simp [hbegun]
    · simp [hbegun]
    · simp [hbegun]
    · rw [hf.opened.2.1] at hr
      cases hr
  | call c hrun hsealed ih =>
    cases c with
    | send type data => exact zcioWsSend_wire ih hsealed type data
    | ping data => exact zcioWsPing_wire ih hsealed data
    | recv timeoutMs => exact zcioWsRecv_wire ih hsealed timeoutMs
    | close code reason => exact zcioWsClose_wire ih hsealed code reason

/-- **The wire is intact** in every run in which no call is made behind a frame that went out
in part. -/
theorem ws_wire_intact (h : WsRun ws) : ws.WireIntact := h.inv.intact

/-- A server whose transport takes a header and an octet of the payload, and then fails once. -/
def tornSession : Ws := { isServer := true, io := { writes := [.ok 2, .ok 1, .error (-1)] } }

theorem tornSession_fresh : tornSession.Fresh :=
  ⟨⟨rfl, rfl⟩, ⟨rfl, rfl, rfl⟩, ⟨rfl, rfl⟩, rfl⟩

/-- The last frame may be torn. -/
theorem ws_wire_intact_tornLast :
    (WsCall.run tornSession (.send 2 [1, 2])).io.wire = [0x82, 2, 1] ∧
      (WsCall.run tornSession (.send 2 [1, 2])).WireIntact := by
  refine ⟨by decide, ws_wire_intact (.call _ (.fresh tornSession_fresh) ?_)⟩
  rintro ⟨s, hs, -⟩
  cases hs

theorem WsFrame.encode_cons (f : WsFrame) :
    ∃ tail, f.encode = ((if f.fin then 0x80 else 0) ||| (f.opcode.code &&& 0x0f)) :: tail :=
  ⟨_, rfl⟩

theorem WsFrame.encode_length (f : WsFrame) : 2 ≤ f.encode.length := by
  unfold WsFrame.encode WsFrame.header
  dsimp only
  split_ifs
  all_goals
    simp only [List.length_append, List.length_cons]
    omega

/-- No frame begins with the octet 3: the opcode is reserved. -/
theorem WsFrame.first_ne_three (f : WsFrame) (tail : Bytes) : f.encode ≠ 3 :: tail := by
  obtain ⟨tail', heq⟩ := f.encode_cons
  have hall : ∀ (fin : Bool) (op : WsOpcode),
      ((if fin then 0x80 else 0) ||| (op.code &&& 0x0f) : UInt8) ≠ 3 := by
    intro fin op
    cases fin <;> cases op <;> decide
  rw [heq]
  intro h
  exact hall _ _ (List.cons.inj h).1

/-- A frame with 2 as its second octet has a payload of two octets. -/
theorem WsFrame.length_of_second {f : WsFrame} {b : UInt8} {tail : Bytes}
    (h : f.encode = b :: 2 :: tail) : tail.length = 2 := by
  have hlen := f.length_masked
  unfold WsFrame.encode WsFrame.header at h
  dsimp only at h
  -- a mask sets the top bit of the second octet, which two has not
  have hkeyed : ∀ x : UInt8, (0x80 ||| x : UInt8) ≠ 2 := by
    apply forall_octet
    decide +kernel
  -- a short payload has its length in the second octet, the longer ones a fixed number
  by_cases h1 : f.payload.length < 126
  · rw [if_pos h1] at h
    cases hkey : f.key with
    | some key =>
      rw [hkey] at h
      exact absurd (List.cons.inj (List.cons.inj h).2).1 (hkeyed _)
    | none =>
      rw [hkey] at h
      simp only [Option.isSome_none, Bool.false_eq_true, if_false, List.append_nil,
        List.cons_append, List.nil_append, List.cons.injEq] at h
      obtain ⟨-, htwo, rfl⟩ := h
      rw [hlen]
      have htwo' := congrArg UInt8.toNat htwo
      rw [UInt8.zero_or, UInt8.toNat_ofNat', Nat.mod_eq_of_lt (by omega)] at htwo'
      exact htwo'
  rw [if_neg h1] at h
  by_cases h2 : f.payload.length ≤ 0xffff
  · rw [if_pos h2] at h
    have hsecond := (List.cons.inj (List.cons.inj h).2).1
    cases hkey : f.key with
    | none =>
      rw [hkey] at hsecond
      cases hsecond
    | some key => exact absurd (hkey ▸ hsecond) (hkeyed _)
  · rw [if_neg h2] at h
    have hsecond := (List.cons.inj (List.cons.inj h).2).1
    cases hkey : f.key with
    | none =>
      rw [hkey] at hsecond
      cases hsecond
    | some key => exact absurd (hkey ▸ hsecond) (hkeyed _)

/-- A message behind a torn one: the octets are no frames, whatever frames are meant. -/
theorem ws_wire_torn :
    let ws := [WsCall.send 2 [1, 2], WsCall.send 2 [7, 7, 7]].foldl WsCall.run tornSession
    ws.io.wire = [0x82, 2, 1, 0x82, 3, 7, 7, 7] ∧
      (¬∃ fs : List WsFrame, ws.io.wire <+: (fs.map WsFrame.encode).flatten) ∧
      ¬ws.WireIntact := by
  intro ws
  have hwire : ws.io.wire = [0x82, 2, 1, 0x82, 3, 7, 7, 7] := by decide
  have hno : ¬∃ fs : List WsFrame, [0x82, 2, 1, 0x82, 3, 7, 7, 7] <+:
      (fs.map WsFrame.encode).flatten := by
    rintro ⟨fs, rest, hfs⟩
    cases fs with
    | nil => cases hfs
    | cons f fs =>
      obtain ⟨tail, hf⟩ := f.encode_cons
      rw [List.map_cons, List.flatten_cons] at hfs
      -- the first frame has four octets, and the second begins with 3
      have hsecond : ∃ b tail, f.encode = b :: 2 :: tail := by
        cases tail with
        | nil =>
          have := f.encode_length
          rw [hf] at this
          exact absurd this (by simp)
        | cons c tail =>
          rw [hf] at hfs
          obtain rfl : 2 = c := (List.cons.inj (List.cons.inj hfs).2).1
          exact ⟨_, tail, hf⟩
      obtain ⟨b, tail, hf⟩ := hsecond
      have hlen := WsFrame.length_of_second hf
      match tail, hlen with
      | [x, y], _ =>
        rw [hf] at hfs
        cases fs with
        | nil => simp at hfs
        | cons g fs =>
          obtain ⟨tail, hg⟩ := g.encode_cons
          rw [List.map_cons, List.flatten_cons, hg] at hfs
          simp only [List.cons_append, List.nil_append, List.cons.injEq] at hfs
          exact g.first_ne_three tail (hg.trans (by rw [← hfs.2.2.2.2.1]))
  rw [hwire]
  refine ⟨rfl, hno, fun h => hno ⟨ws.begun.map fun s => s.frame, ?_⟩⟩
  rw [List.map_map, ← hwire]
  exact h.wire

end Zcio
