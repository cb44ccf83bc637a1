import Zcio.H2.Response

/-!
# Zcio.H2.Pump

When `zh2_pump_` stops. It goes through the table once and leaves every stream `Settled`: the
body is out, or a flow-control window is closed, or the output is at its cap. A second call
finds nothing to do (`zh2Pump_idem`), and a stream that is left with something to send finds the
queue within a frame header of the cap (`Settled.atCap`).

The proof follows the two loops. The inner one works on one slot of the table and ends when no chunk
fits (`pumpStream_slot`). What it did to the queue and to the connection's window only makes it harder
for the other streams to send (`Tighter`), so the slots in front, which were settled, stay so; that is
the invariant of the outer loop (`SettledTo`), through the swap that closes a stream as well.
-/

namespace Zcio

/-- The stream has body left, and both windows let it go out. -/
structure Sendable (c : Zh2Conn) (st : Zh2Stream) : Prop where
  body : st.bodyOff < st.respBody.length
  stream : 0 < st.sendWindow
  conn : 0 < c.sendWindow

/-- A stream with body left has its response headers out and is not done. -/
def Zh2Stream.Ready (st : Zh2Stream) : Prop :=
  st.bodyOff < st.respBody.length → st.respHeadersDone = true ∧ st.sendDone = false

/-! ### Streams that are ready

A stream with its head written and octets left is one that the pump may send on. -/

section Ready

variable {g : H2Cfg} {c c' : Zh2Conn}

theorem Zh2Stream.Ready.congr {st st' : Zh2Stream} (h : st.Ready) (heq : st.reply = st'.reply) :
    st'.Ready := by
  have hbody : st.respBody = st'.respBody := congrArg (·.respBody) heq
  have hoff : st.bodyOff = st'.bodyOff := congrArg (·.bodyOff) heq
  have hhead : st.respHeadersDone = st'.respHeadersDone := congrArg (·.respHeadersDone) heq
  have hdone : st.sendDone = st'.sendDone := congrArg (·.sendDone) heq
  unfold Zh2Stream.Ready
  rw [← hbody, ← hoff, ← hhead, ← hdone]
  exact h

theorem ready_answered (st : Zh2Stream) (data : Bytes) : (st.answered data).Ready := by
  intro hlt
  refine ⟨rfl, ?_⟩
  cases data with
  | nil => exact absurd hlt (Nat.not_lt_zero _)
  | cons b bs => rfl

/-- A DATA frame that leaves something of the body leaves the stream ready. -/
theorem Zh2Stream.Ready.sentData {st : Zh2Stream} (h : st.Ready) {chunk : Nat} :
    (st.sentData (st.bodyOff + chunk = st.respBody.length) chunk).Ready := by
  intro hlt
  have hlt : st.bodyOff + chunk < st.respBody.length := hlt
  obtain ⟨hhead, hdone⟩ := h (by omega)
  refine ⟨hhead, ?_⟩
  show (if st.bodyOff + chunk = st.respBody.length then true else st.sendDone) = false
  rw [if_neg hlt.ne, hdone]

theorem ready_step (h : ∀ st ∈ c.streams, st.Ready) (ht : TableInv g c) (hs : RespStep g c c') :
    ∀ st ∈ c'.streams, st.Ready := by
  intro st' hst'
  cases hs with
  | quiet hq =>
    rcases hq.streams st' hst' with ⟨st, hst, heq⟩ | ⟨-, hnew⟩
    · exact (h st hst).congr heq
    · have hempty : ({ id := st'.id, sendWindow := 0 } : Zh2Stream).Ready :=
        fun hlt => absurd hlt (Nat.not_lt_zero _)
      exact hempty.congr hnew.symm
  | @respond id st isHead status hdrs body hst hresp =>
    rw [zh2Respond_eq hst hresp] at hst'
    obtain ⟨s, hs, rfl⟩ := mem_updateStream.mp hst'
    split
    · exact ready_answered s _
    · exact h s (by simpa using hs)
  | @pump st chunk hst =>
    rw [pumpData_eq] at hst'
    obtain ⟨s, hs, rfl⟩ := mem_updateStream.mp hst'
    split
    · rename_i hid
      rw [eq_of_mem_of_id ht.nodup hs hst hid]
      exact (h st hst).sentData
    · exact h s hs

theorem Run.ready (h : Run g c) : ∀ st ∈ c.streams, st.Ready := by
  refine h.induct (P := fun c => ∀ st ∈ c.streams, st.Ready) ?_ ?_
  · exact fun st hst => absurd hst List.not_mem_nil
  · intro c c' hrun ih hs
    obtain ⟨ht, hh⟩ := hrun.table
    exact ready_step ih ht (hs.resp ht hh)

end Ready

/-! ### One stream

The inner loop on one slot of the table. -/

section Pump

variable (g : H2Cfg) {c c' : Zh2Conn}

/-- The pump has nothing left to do for the stream. -/
structure Settled (c : Zh2Conn) (st : Zh2Stream) : Prop where
  stuck : st.respHeadersDone = true → st.sendDone = false → pumpChunk g c st = 0
  unfinished : ¬(st.sendDone = true ∧ st.endStreamRecv = true)

/-- Less room: the output grew and the connection's window fell. -/
structure Tighter (c c' : Zh2Conn) : Prop where
  out : c.out.avail ≤ c'.out.avail
  window : c'.sendWindow ≤ c.sendWindow
  maxFrame : c'.peerMaxFrame = c.peerMaxFrame

theorem Tighter.refl (c : Zh2Conn) : Tighter c c := ⟨Nat.le_refl _, Int.le_refl _, rfl⟩

theorem Tighter.trans {a b c : Zh2Conn} (h : Tighter a b) (h' : Tighter b c) : Tighter a c :=
  ⟨h.out.trans h'.out, h'.window.trans h.window, h'.maxFrame.trans h.maxFrame⟩

variable {g}

theorem pumpChunk_tighter (h : Tighter c c') {st : Zh2Stream} (h0 : pumpChunk g c st = 0) :
    pumpChunk g c' st = 0 := by
  obtain ⟨hout, hwin, hmax⟩ := h
  unfold pumpChunk at h0 ⊢
  dsimp only at h0 ⊢
  rw [hmax]
  split at h0
  · rw [if_pos (by omega)]
  · split
    · rfl
    · omega

theorem Settled.tighter (h : Tighter c c') {st : Zh2Stream} (hs : Settled g c st) :
    Settled g c' st :=
  ⟨fun hhead hdone => pumpChunk_tighter h (hs.stuck hhead hdone), hs.unfinished⟩

/-- A frame on the stream in slot `i` leaves the other slots alone. -/
theorem pumpData_slot (hnd : c.ids.Nodup) {i j : Nat} {st : Zh2Stream} {chunk : Nat}
    (hst : c.streams[i]? = some st) (hj : j ≠ i) :
    (pumpData c st chunk).streams[j]? = c.streams[j]? := by
  rw [pumpData_eq]
  show (c.streams.map fun s => if s.id = st.id then _ else s)[j]? = _
  rw [List.getElem?_map]
  cases hs : c.streams[j]? with
  | none => rfl
  | some s =>
    obtain ⟨hi, hsi⟩ := List.getElem?_eq_some_iff.mp hst
    obtain ⟨hj', hsj⟩ := List.getElem?_eq_some_iff.mp hs
    have hid : s.id ≠ st.id := by
      intro heq
      have hlti : i < c.ids.length := by simpa [Zh2Table.ids] using hi
      have hltj : j < c.ids.length := by simpa [Zh2Table.ids] using hj'
      have hids : c.ids[j] = c.ids[i] := by simpa [Zh2Table.ids, hsi, hsj] using heq
      exact hj (hnd.getElem_inj_iff.mp hids)
    rw [Option.map_some, if_neg hid]

theorem pumpData_tighter (st : Zh2Stream) (chunk : Nat) : Tighter c (pumpData c st chunk) := by
  refine ⟨?_, ?_, rfl⟩
  · show c.out.avail ≤ (c.out.append (dataFrame st chunk).bytes).avail
    rw [ZhsBuf.avail_append]
    omega
  · show c.sendWindow - (chunk : Int) ≤ c.sendWindow
    omega

theorem pumpData_ids (st : Zh2Stream) (chunk : Nat) : (pumpData c st chunk).ids = c.ids := by
  rw [pumpData_eq]
  exact ids_updateStream (c := h2Frame c (dataFrame st chunk)) fun _ => rfl

/-- What the inner loop does to the table: only slot `i` changes, and its stream is stuck. -/
structure PumpedSlot (g : H2Cfg) (i : Nat) (c c' : Zh2Conn) : Prop where
  tighter : Tighter c c'
  ids : c'.ids = c.ids
  others : ∀ j, j ≠ i → c'.streams[j]? = c.streams[j]?
  stuck : ∀ st, c'.streams[i]? = some st → pumpChunk g c' st = 0

theorem pumpStream_slot (i : Nat) (hnd : c.ids.Nodup) : PumpedSlot g i c (pumpStream g i c) := by
  -- over the rounds, from the last one back
  refine Lib.loop_induct (pumpStreamRound_decreases g i)
    (P := fun c c' => c.ids.Nodup → PumpedSlot g i c c') ?_ ?_ c hnd
  · intro c c' h _
    unfold pumpStreamRound at h
    split at h
    · rename_i hnone
      cases h
      refine ⟨.refl c, rfl, fun _ _ => rfl, fun st hst => ?_⟩
      rw [hnone] at hst
      cases hst
    · rename_i st hst
      dsimp only at h
      split at h
      · rename_i h0
        cases h
        refine ⟨.refl c, rfl, fun _ _ => rfl, fun st' hst' => ?_⟩
        rw [hst] at hst'
        cases hst'
        exact h0
      · cases h
  · intro c c' r h ih hnd
    unfold pumpStreamRound at h
    split at h
    · cases h
    · rename_i st hst
      dsimp only at h
      split at h
      · cases h
      · cases h
        have hids := pumpData_ids (c := c) st (pumpChunk g c st)
        obtain ⟨htight, hids', hothers, hstuck⟩ := ih (hids ▸ hnd)
        exact ⟨(pumpData_tighter st _).trans htight, hids'.trans hids,
          fun j hj => (hothers j hj).trans (pumpData_slot hnd hst hj), hstuck⟩

/-! ### The whole table

The outer loop, with the swap of a stream that is closed. -/

theorem zh2Pump_tighter (c : Zh2Conn) : Tighter c (zh2Pump g c) :=
  zh2Pump_inv (I := Tighter c) (fun _ st chunk h => h.trans (pumpData_tighter st chunk))
    (fun _ _ h => ⟨h.out, h.window, h.maxFrame⟩) (.refl c)

theorem gotError_zh2Pump (c : Zh2Conn) : (zh2Pump g c).gotError = c.gotError :=
  zh2Pump_inv (I := fun c' => c'.gotError = c.gotError) (fun _ _ _ h => h) (fun _ _ h => h) rfl

/-- Every slot in front of `i` is settled. -/
def SettledTo (g : H2Cfg) (s : Zh2Conn × Nat) : Prop :=
  s.1.ids.Nodup ∧ ∀ j < s.2, ∀ st, s.1.streams[j]? = some st → Settled g s.1 st

theorem streamClose_settled (i : Nat) (h : SettledTo g (c, i)) {st : Zh2Stream}
    (hst : c.streams[i]? = some st) : SettledTo g (streamClose c i, i) := by
  obtain ⟨hnd, hset⟩ := h
  refine ⟨(Lib.swapRemove_keys hnd hst).1, fun j hj s hs => ?_⟩
  have hs : (Lib.swapRemove c.streams i)[j]? = some s := hs
  rw [Lib.getElem?_swapRemove_of_lt (List.getElem?_eq_some_iff.mp hst).1 hj] at hs
  exact ⟨(hset j hj s hs).stuck, (hset j hj s hs).unfinished⟩

/-- **The pump settles every stream.** -/
theorem zh2Pump_settled (hnd : c.ids.Nodup) :
    ∀ st ∈ (zh2Pump g c).streams, Settled g (zh2Pump g c) st := by
  refine Lib.loop_inv (pumpRound_decreases g) (I := SettledTo g)
    (Q := fun r => ∀ st ∈ r.streams, Settled g r st) ?_ ?_
    (s := (c, 0)) ⟨hnd, fun j hj => absurd hj (Nat.not_lt_zero j)⟩
  · rintro ⟨c, i⟩ s' ⟨hnd, hset⟩ h
    unfold pumpRound at h
    dsimp only at h
    split at h
    · cases h
    · rename_i st hst
      -- the slot's own stream, pumped or not
      generalize hc₁ : (if (st.respHeadersDone && !st.sendDone) = true then pumpStream g i c
        else c) = c₁ at h
      have hslot : Tighter c c₁ ∧ c₁.ids = c.ids ∧
          (∀ j, j ≠ i → c₁.streams[j]? = c.streams[j]?) ∧
          ∀ st₁, c₁.streams[i]? = some st₁ → st₁.respHeadersDone = true →
            st₁.sendDone = false → pumpChunk g c₁ st₁ = 0 := by
        subst hc₁
        split
        · obtain ⟨htight, hids, hothers, hstuck⟩ := pumpStream_slot (g := g) i hnd
          exact ⟨htight, hids, hothers, fun st₁ hst₁ _ _ => hstuck st₁ hst₁⟩
        · rename_i hidle
          refine ⟨.refl c, rfl, fun _ _ => rfl, fun st₁ hst₁ hhead hdone => ?_⟩
          rw [hst] at hst₁
          cases hst₁
          rw [hhead, hdone] at hidle
          exact absurd rfl hidle
      obtain ⟨htight, hids, hothers, hstuck⟩ := hslot
      have hset₁ : SettledTo g (c₁, i) := by
        refine ⟨hids ▸ hnd, fun j hj s hs => ?_⟩
        have hs : c₁.streams[j]? = some s := hs
        rw [hothers j hj.ne] at hs
        exact (hset j hj s hs).tighter htight
      split at h
      · cases h
      · rename_i st₁ hst₁
        split at h
        · cases h
          exact streamClose_settled i hset₁ hst₁
        · rename_i hopen
          cases h
          refine ⟨hset₁.1, fun j hj s hs => ?_⟩
          rcases Nat.lt_succ_iff_lt_or_eq.mp hj with hj | rfl
          · exact hset₁.2 j hj s hs
          · have hs : c₁.streams[j]? = some s := hs
            rw [hst₁] at hs
            cases hs
            exact ⟨hstuck st₁ hst₁, by simpa using hopen⟩
  · rintro ⟨c, i⟩ r ⟨-, hset⟩ h st hst
    unfold pumpRound at h
    dsimp only at h
    split at h
    · rename_i hnone
      cases h
      obtain ⟨j, hj, rfl⟩ := List.getElem_of_mem hst
      have hlen := List.getElem?_eq_none_iff.mp hnone
      exact hset j (by omega) _ (List.getElem?_eq_getElem hj)
    · rename_i st₀ hst₀
      -- the slot is still there behind the inner loop
      have hlen : ∀ b : Bool, (if b = true then pumpStream g i c else c).streams.length =
          c.streams.length := by
        intro b
        cases b
        · rfl
        · exact pumpStream_length g i c
      have hi := (List.getElem?_eq_some_iff.mp hst₀).1
      split at h
      · rename_i hnone
        have := List.getElem?_eq_none_iff.mp hnone
        rw [hlen] at this
        omega
      · split at h <;> cases h

/-- The pump changes nothing where every stream is settled. -/
theorem zh2Pump_of_settled (h : ∀ st ∈ c.streams, Settled g c st) : zh2Pump g c = c := by
  refine Lib.loop_induct (pumpRound_decreases g)
    (P := fun s r => (∀ st ∈ s.1.streams, Settled g s.1 st) → r = s.1) ?_ ?_ (c, 0) h
  all_goals
    rintro ⟨c, i⟩
    -- at every index the stream is settled: nothing goes out, and the index moves on
    have hround : (∀ st ∈ c.streams, Settled g c st) →
        pumpRound g (c, i) = .inr c ∨ pumpRound g (c, i) = .inl (c, i + 1) := by
      intro hset
      unfold pumpRound
      dsimp only
      cases hst : c.streams[i]? with
      | none => exact .inl rfl
      | some st =>
        have hs := hset st (List.mem_of_getElem? hst)
        -- the stream has no chunk to send
        have hstay : (if (st.respHeadersDone && !st.sendDone) = true then pumpStream g i c
            else c) = c := by
          split
          · rename_i hgo
            rw [Bool.and_eq_true, Bool.not_eq_true'] at hgo
            refine Lib.loop_of_inr ?_
            unfold pumpStreamRound
            rw [hst]
            exact if_pos (hs.stuck hgo.1 hgo.2)
          · rfl
        dsimp only
        rw [hstay, hst]
        dsimp only
        -- nor is it done, so that it stays in the table
        rw [if_neg (by simpa using hs.unfinished)]
        exact .inr rfl
  · intro r hr hset
    rcases hround hset with h | h
    · rw [h] at hr
      cases hr
      rfl
    · rw [h] at hr
      cases hr
  · intro s' r hr ih hset
    rcases hround hset with h | h
    · rw [h] at hr
      cases hr
    · rw [h] at hr
      cases hr
      exact ih hset

/-- **A second call finds nothing to do.** -/
theorem zh2Pump_idem (hnd : c.ids.Nodup) : zh2Pump g (zh2Pump g c) = zh2Pump g c :=
  zh2Pump_of_settled (zh2Pump_settled hnd)

/-! ### The cap

A stream that was left with something to send was left for want of room. -/

/-- A settled stream that could send waits for the output to drain. -/
theorem Settled.atCap {st : Zh2Stream} (hs : Settled g c st) (hr : st.Ready)
    (hsend : Sendable c st) (hmax : 0 < c.peerMaxFrame) :
    g.lim.maxOutBytes ≤ c.out.avail + ZH2_FRAME_HDR := by
  obtain ⟨hhead, hdone⟩ := hr hsend.body
  have h0 := hs.stuck hhead hdone
  have hbody := hsend.body
  have hst := hsend.stream
  have hconn := hsend.conn
  unfold pumpChunk at h0
  dsimp only at h0
  split at h0 <;> omega

end Pump

end Zcio
