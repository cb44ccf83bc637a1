import Zcio.Ws.Session

/-!
# Zcio.Ws.Output

What sending a frame does: some of the octets of the frame go out, all of them if and only if
the call succeeds (`wsSendFrame_step`). When no write fails and there is entropy, it succeeds.
-/

namespace Zcio

/-- Every further write takes an octet at least, and there is entropy. -/
structure WsIo.Healthy (io : WsIo) : Prop where
  writes : ∀ w ∈ io.writes, ∃ k, w = .ok (k + 1)
  keys : none ∉ io.keys

/-! ### Writing

A write puts a beginning of its octets on the wire, all of them if it succeeds. -/

/-- `io'` is `io` after some writes that put out `s`. -/
structure WsIo.Puts (io : WsIo) (s : Bytes) (io' : WsIo) : Prop where
  eq : io' = { io with writes := io'.writes, wire := io.wire ++ s }
  writes : io'.writes <:+ io.writes

theorem WsIo.Puts.refl (io : WsIo) : io.Puts [] io := ⟨by rw [List.append_nil], List.suffix_rfl⟩

theorem WsIo.Puts.trans {io io' io'' : WsIo} {s s' : Bytes} (h : io.Puts s io')
    (h' : io'.Puts s' io'') : io.Puts (s ++ s') io'' := by
  refine ⟨?_, h'.writes.trans h.writes⟩
  rw [h'.eq, h.eq]
  simp only [List.append_assoc]

theorem WsIo.Puts.healthy {io io' : WsIo} {s : Bytes} (h : io.Puts s io') (hio : io.Healthy) :
    io'.Healthy := by
  refine ⟨fun w hw => hio.writes w (h.writes.subset hw), ?_⟩
  rw [h.eq]
  exact hio.keys

theorem wsWrite_puts (io : WsIo) (src : Bytes) :
    (∃ n, (wsWrite io src).1 = .ok n ∧ n ≤ src.length ∧ io.Puts (src.take n) (wsWrite io src).2 ∧
      (io.Healthy → src ≠ [] → n ≠ 0)) ∨
    ∃ e, (wsWrite io src).1 = .error e ∧ io.Puts [] (wsWrite io src).2 ∧ ¬io.Healthy := by
  obtain ⟨reads, writes, keys, ticks, now, timeout, wire, sent, got⟩ := io
  cases writes with
  | nil =>
    refine .inl ⟨src.length, rfl, le_rfl, ⟨?_, List.suffix_rfl⟩, fun _ hne => ?_⟩
    · rw [List.take_length]
      rfl
    · exact (List.length_pos_iff.mpr hne).ne'
  | cons w ws =>
    cases w with
    | ok k =>
      refine .inl ⟨min k src.length, rfl, min_le_right .., ⟨rfl, List.suffix_cons ..⟩,
        fun hio hne => ?_⟩
      obtain ⟨j, hj⟩ := hio.writes _ List.mem_cons_self
      cases hj
      have hpos := List.length_pos_iff.mpr hne
      omega
    | error e =>
      refine .inr ⟨e, rfl, ⟨?_, List.suffix_cons ..⟩, fun hio => ?_⟩
      · rw [List.append_nil]
        rfl
      · obtain ⟨j, hj⟩ := hio.writes _ List.mem_cons_self
        cases hj

/-- The octets that a loop of writes puts out are the first ones. -/
theorem writeFrom_puts {fuel : Nat} {io : WsIo} {src : Bytes} {put : Nat}
    (hfuel : src.length ≤ fuel) :
    ∃ n ≤ src.length, io.Puts (src.take n) (writeFrom wsWrite fuel io src put).2 ∧
      ((writeFrom wsWrite fuel io src put).1 = .ok (put + n) ∨
        n = 0 ∧ put = 0 ∧ src ≠ [] ∧ ∃ e, (writeFrom wsWrite fuel io src put).1 = .error e) ∧
      (io.Healthy → n = src.length) := by
  induction fuel generalizing io src put with
  | zero =>
    have hnil : src = [] := List.length_eq_zero_iff.mp (Nat.le_zero.mp hfuel)
    subst hnil
    exact ⟨0, le_rfl, .refl io, .inl rfl, fun _ => rfl⟩
  | succ fuel ih =>
    unfold writeFrom
    by_cases hnil : src = []
    · subst hnil
      exact ⟨0, le_rfl, .refl io, .inl rfl, fun _ => rfl⟩
    rw [if_neg hnil]
    have hone := wsWrite_puts io src
    generalize wsWrite io src = r at hone
    obtain ⟨r, io'⟩ := r
    obtain ⟨n, hr, hn, hputs, hpos⟩ | ⟨e, hr, hputs, hbad⟩ := hone
    · dsimp only at hr hputs
      subst hr
      cases n with
      | zero =>
        refine ⟨0, Nat.zero_le _, hputs, .inl rfl, fun hio => absurd rfl (hpos hio hnil)⟩
      | succ n =>
        have hlen : (src.drop (n + 1)).length = src.length - (n + 1) := List.length_drop
        obtain ⟨m, hm, hputs', hres, hall⟩ := @ih io' (src.drop (n + 1)) (put + (n + 1)) (by omega)
        have htake : src.take (n + 1) ++ (src.drop (n + 1)).take m = src.take (n + 1 + m) := by
          rw [List.take_add (i := n + 1)]
        refine ⟨n + 1 + m, by omega, htake ▸ hputs.trans hputs', .inl ?_, fun hio => ?_⟩
        · obtain heq | ⟨-, hzero, -⟩ := hres
          · exact heq.trans (by rw [Nat.add_assoc])
          · omega
        · have := hall (hputs.healthy hio)
          omega
    · dsimp only at hr hputs
      subst hr
      refine ⟨0, Nat.zero_le _, hputs, ?_, fun hio => absurd hio hbad⟩
      by_cases hput : put = 0
      · exact .inr ⟨rfl, hput, hnil, e, if_pos hput⟩
      · exact .inl (if_neg hput)

theorem wsWriteAll_puts (io : WsIo) (s : Bytes) :
    ∃ n ≤ s.length, io.Puts (s.take n) (wsWriteAll io s).2 ∧
      ((wsWriteAll io s).1 = true ↔ n = s.length) ∧ (io.Healthy → n = s.length) := by
  obtain ⟨n, hn, hputs, hres, hall⟩ := @writeFrom_puts s.length io s 0 le_rfl
  refine ⟨n, hn, hputs, ?_, hall⟩
  unfold wsWriteAll zcioWriteFull
  dsimp only
  obtain hok | ⟨rfl, -, hne, e, herr⟩ := hres
  · rw [hok]
    simp
  · rw [herr]
    have hpos := List.length_pos_iff.mpr hne
    simp only [Bool.false_eq_true, false_iff]
    omega

theorem length_wsMask (key : MaskKey) (off : Nat) (s : Bytes) : (wsMask key off s).length = s.length :=
  List.length_mapIdx

theorem wsMask_append (key : MaskKey) (off : Nat) (s t : Bytes) :
    wsMask key off (s ++ t) = wsMask key off s ++ wsMask key (off + s.length) t := by
  unfold wsMask
  rw [List.mapIdx_append]
  simp only [Nat.add_assoc, Nat.add_comm s.length]

theorem wsSendChunks_puts {key : MaskKey} {fuel : Nat} {io : WsIo} {off : Nat} {rest : Bytes}
    (hfuel : rest.length ≤ fuel) :
    ∃ n ≤ rest.length, io.Puts ((wsMask key off rest).take n) (wsSendChunks key fuel io off rest).2 ∧
      ((wsSendChunks key fuel io off rest).1 = true ↔ n = rest.length) ∧
      (io.Healthy → n = rest.length) := by
  -- one chunk a round, masked from where the one before it ended
  induction fuel generalizing io off rest with
  | zero =>
    have hnil : rest = [] := List.length_eq_zero_iff.mp (Nat.le_zero.mp hfuel)
    subst hnil
    exact ⟨0, le_rfl, .refl io, by simp [wsSendChunks], fun _ => rfl⟩
  | succ fuel ih =>
    unfold wsSendChunks
    by_cases hnil : rest = []
    · subst hnil
      exact ⟨0, le_rfl, .refl io, by simp, fun _ => rfl⟩
    rw [if_neg hnil]
    dsimp only
    have hpos := List.length_pos_iff.mpr hnil
    -- the mask of the rest is that of its two parts
    have hsplit : wsMask key off rest = wsMask key off (rest.take WS_CHUNK) ++
        wsMask key (off + (rest.take WS_CHUNK).length) (rest.drop WS_CHUNK) := by
      rw [← wsMask_append, List.take_append_drop]
    have hlen : (rest.take WS_CHUNK).length + (rest.drop WS_CHUNK).length = rest.length := by
      rw [← List.length_append, List.take_append_drop]
    have hchunk : 0 < (rest.take WS_CHUNK).length := by
      rw [List.length_take]
      exact lt_min (by decide) hpos
    obtain ⟨n, hn, hputs, hres, hall⟩ := wsWriteAll_puts io (wsMask key off (rest.take WS_CHUNK))
    rw [length_wsMask] at hn hres hall ⊢
    -- the chunk went out as a whole
    by_cases hok : n = (rest.take WS_CHUNK).length
    · rw [if_pos (hres.mpr hok)]
      obtain ⟨m, hm, hputs', hres', hall'⟩ := @ih
        (wsWriteAll io (wsMask key off (rest.take WS_CHUNK))).2 (off + (rest.take WS_CHUNK).length)
        (rest.drop WS_CHUNK) (by omega)
      refine ⟨n + m, by omega, ?_, by rw [hres']; omega, fun hio => ?_⟩
      · rw [hsplit, List.take_append, length_wsMask, hok,
          List.take_of_length_le (l := wsMask key off (rest.take WS_CHUNK)) (by rw [length_wsMask]; omega),
          Nat.add_sub_cancel_left]
        rw [List.take_of_length_le (by rw [length_wsMask]; omega)] at hputs
        exact hputs.trans hputs'
      · have := hall' (hputs.healthy hio)
        omega
    · -- a write failed within the chunk
      rw [if_neg (fun h => hok (hres.mp h))]
      refine ⟨n, by omega, ?_, ?_, fun hio => absurd (hall hio) hok⟩
      · rw [hsplit, List.take_append_of_le_length (by rw [length_wsMask]; omega)]
        exact hputs
      · simp only [Bool.false_eq_true, false_iff]
        omega

/-! ### Frames

A frame is written header first, then its payload in chunks. -/

theorem WsFrame.length_masked (f : WsFrame) : f.masked.length = f.payload.length := by
  unfold WsFrame.masked
  split
  · rfl
  · exact length_wsMask ..

/-- The payload goes out in one write, or in masked chunks. -/
theorem wsPutPayload_puts (io : WsIo) (f : WsFrame) :
    ∃ n ≤ f.payload.length, io.Puts (f.masked.take n) (wsPutPayload io f).2 ∧
      ((wsPutPayload io f).1 = true ↔ n = f.payload.length) ∧
      (io.Healthy → n = f.payload.length) := by
  unfold wsPutPayload WsFrame.masked
  cases f.key with
  | none => exact wsWriteAll_puts io f.payload
  | some key => exact wsSendChunks_puts le_rfl

theorem wsPutFrame_puts (io : WsIo) (f : WsFrame) :
    ∃ n ≤ f.encode.length, io.Puts (f.encode.take n) (wsPutFrame io f).2 ∧
      ((wsPutFrame io f).1 = .ok () ↔ n = f.encode.length) ∧
      (io.Healthy → n = f.encode.length) := by
  have hlen : f.encode.length = f.header.length + f.payload.length := by
    rw [WsFrame.encode, List.length_append, f.length_masked]
  obtain ⟨n, hn, hputs, hres, hall⟩ := wsWriteAll_puts io f.header
  unfold wsPutFrame
  dsimp only
  -- the header went out
  by_cases hok : n = f.header.length
  · have htrue := hres.mpr hok
    rw [if_neg (by simp [htrue])]
    rw [hok, List.take_length] at hputs
    -- a frame without a payload ends here
    by_cases hnil : f.payload = []
    · rw [if_pos hnil]
      have hempty : f.payload.length = 0 := by rw [hnil]; rfl
      have hencode : f.encode = f.header := by
        rw [WsFrame.encode, List.eq_nil_of_length_eq_zero (f.length_masked.trans hempty),
          List.append_nil]
      rw [hencode] at hlen ⊢
      exact ⟨f.header.length, le_rfl, by rwa [List.take_length], by simp, fun _ => rfl⟩
    · -- the payload follows, as a whole or up to a failure
      rw [if_neg hnil]
      obtain ⟨m, hm, hputs', hres', hall'⟩ := wsPutPayload_puts (wsWriteAll io f.header).2 f
      generalize wsPutPayload (wsWriteAll io f.header).2 f = r at hputs' hres'
      refine ⟨f.header.length + m, by omega, ?_, ?_, fun hio => ?_⟩
      · have hput : (if r.1 = false then (zcioFail .err "ws: frame payload write failed", r.2)
            else ((.ok () : Except Fail Unit), r.2)).2 = r.2 := by
          split <;> rfl
        rw [hput, WsFrame.encode, List.take_length_add_append]
        exact hputs.trans hputs'
      · cases hr1 : r.1 with
        | false =>
          have hne : m ≠ f.payload.length := fun h => by
            rw [hres'.mpr h] at hr1
            cases hr1
          simp only [if_true, zcioFail, reduceCtorEq, false_iff]
          omega
        | true =>
          have := hres'.mp hr1
          simp only [Bool.true_eq_false, if_false, true_iff]
          omega
      · have := hall' (hputs.healthy hio)
        omega
  · -- a write failed within the header
    have hfalse : (wsWriteAll io f.header).1 = false :=
      Bool.eq_false_iff.mpr fun h => hok (hres.mp h)
    rw [if_pos hfalse]
    refine ⟨n, by omega, ?_, ?_, fun hio => absurd (hall hio) hok⟩
    · rw [WsFrame.encode, List.take_append_of_le_length hn]
      exact hputs
    · simp only [zcioFail, reduceCtorEq, false_iff]
      omega

/-- What `ws_send_frame` does: nothing for want of entropy, or some of a frame goes out. -/
inductive SendStep (ws : Ws) (opcode : WsOpcode) (fin : Bool) (data : Bytes) :
    Except Fail Unit → Ws → Prop
  | noKey (keys : List (Option MaskKey)) (f : Fail) : ws.isServer = false → ¬ws.io.Healthy →
      SendStep ws opcode fin data (.error f) { ws with io := { ws.io with keys := keys } }
  | put (key : Option MaskKey) (n : Nat) (r : Except Fail Unit) (keys : List (Option MaskKey))
      (writes : List (Except Int Nat)) : key.isSome = !ws.isServer → keys <:+ ws.io.keys →
      writes <:+ ws.io.writes → n ≤ (WsFrame.mk fin opcode key data).encode.length →
      (r = .ok () ↔ n = (WsFrame.mk fin opcode key data).encode.length) →
      (ws.io.Healthy → n = (WsFrame.mk fin opcode key data).encode.length) →
      SendStep ws opcode fin data r { ws with io := { ws.io with
        keys := keys, timeoutMs := ws.timeoutMs, writes := writes
        wire := ws.io.wire ++ (WsFrame.mk fin opcode key data).encode.take n
        sent := ws.io.sent ++ [⟨⟨fin, opcode, key, data⟩, n⟩] } }

/-- The key of a frame. -/
theorem wsFrameKey_spec (ws : Ws) :
    ∃ keys, keys <:+ ws.io.keys ∧ (wsFrameKey ws).2 = { ws.io with keys := keys } ∧
      (((wsFrameKey ws).1 = none ∧ ws.isServer = false ∧ ¬ws.io.Healthy) ∨
        ∃ key, (wsFrameKey ws).1 = some key ∧ key.isSome = !ws.isServer) := by
  unfold wsFrameKey
  cases hs : ws.isServer with
  | true => exact ⟨_, List.suffix_rfl, rfl, .inr ⟨none, rfl, rfl⟩⟩
  | false =>
    simp only [Bool.false_eq_true, if_false, wsRandKey]
    cases hk : ws.io.keys with
    | nil => exact ⟨[], List.suffix_rfl, (by rw [← hk] : ws.io = { ws.io with keys := [] }),
        .inr ⟨_, rfl, rfl⟩⟩
    | cons k ks =>
      refine ⟨ks, List.suffix_cons .., rfl, ?_⟩
      cases k with
      | none => exact .inl ⟨rfl, trivial, fun hio => hio.keys (hk ▸ List.mem_cons_self)⟩
      | some key => exact .inr ⟨some key, rfl, rfl⟩

/-- **Sending a frame.** -/
theorem wsSendFrame_step (ws : Ws) (opcode : WsOpcode) (fin : Bool) (data : Bytes) :
    SendStep ws opcode fin data (wsSendFrame ws opcode fin data).1
      (wsSendFrame ws opcode fin data).2 := by
  obtain ⟨keys, hkeys, hio, ⟨hnone, hclient, hbad⟩ | ⟨key, hsome, hrole⟩⟩ := wsFrameKey_spec ws
  · unfold wsSendFrame
    simp only [hnone, hio]
    exact .noKey keys _ hclient hbad
  · unfold wsSendFrame
    simp only [hsome, hio]
    obtain ⟨n, hn, hputs, hres, hall⟩ := wsPutFrame_puts
      (wsApplyTimeout { ws.io with keys := keys } ws.timeoutMs) ⟨fin, opcode, key, data⟩
    generalize hr : wsPutFrame (wsApplyTimeout { ws.io with keys := keys } ws.timeoutMs)
      ⟨fin, opcode, key, data⟩ = r at hputs hres ⊢
    obtain ⟨r, io⟩ := r
    dsimp only at hputs hres ⊢
    obtain ⟨writes, hwrites⟩ : ∃ writes, io.writes = writes := ⟨_, rfl⟩
    have heq := hputs.eq
    have hsuffix := hputs.writes
    rw [hwrites] at heq hsuffix
    subst heq
    have hlen : (ws.io.wire ++ (WsFrame.mk fin opcode key data).encode.take n).length -
        ws.io.wire.length = n := by
      rw [List.length_append, Nat.add_sub_cancel_left, List.length_take_of_le hn]
    dsimp only [wsApplyTimeout]
    rw [hlen]
    refine .put key n r keys writes hrole hkeys hsuffix hn hres fun hhealthy => hall ?_
    exact ⟨hhealthy.writes, fun hmem => hhealthy.keys (hkeys.subset hmem)⟩

variable {ws : Ws} {opcode : WsOpcode} {fin : Bool} {data : Bytes}

/-- Sending touches the transport only. -/
theorem wsSendFrame_frame (ws : Ws) (opcode : WsOpcode) (fin : Bool) (data : Bytes) :
    ∃ io, (wsSendFrame ws opcode fin data).2 = { ws with io := io } ∧
      io.reads = ws.io.reads ∧ io.got = ws.io.got ∧ (ws.io.Healthy → io.Healthy) := by
  have hstep := wsSendFrame_step ws opcode fin data
  generalize wsSendFrame ws opcode fin data = s at hstep
  obtain ⟨r, ws'⟩ := s
  cases hstep with
  | noKey keys f hclient hbad => exact ⟨_, rfl, rfl, rfl, fun hio => absurd hio hbad⟩
  | put key n r keys writes hrole hkeys hwrites =>
    exact ⟨_, rfl, rfl, rfl, fun hio => ⟨fun w hw => hio.writes w (hwrites.subset hw),
      fun hmem => hio.keys (hkeys.subset hmem)⟩⟩

/-- **Sending on a healthy transport** puts out the whole frame. -/
theorem wsSendFrame_healthy (hio : ws.io.Healthy) (opcode : WsOpcode) (fin : Bool) (data : Bytes) :
    ∃ key io, wsSendFrame ws opcode fin data = (.ok (), { ws with io := io }) ∧
      key.isSome = !ws.isServer ∧
      io.wire = ws.io.wire ++ (WsFrame.mk fin opcode key data).encode ∧
      io.sent = ws.io.sent ++ [⟨⟨fin, opcode, key, data⟩,
        (WsFrame.mk fin opcode key data).encode.length⟩] ∧
      io.reads = ws.io.reads ∧ io.got = ws.io.got ∧ io.Healthy := by
  have hstep := wsSendFrame_step ws opcode fin data
  obtain ⟨io', heq, -, -, hhealthy⟩ := wsSendFrame_frame ws opcode fin data
  have hio' := hhealthy hio
  generalize wsSendFrame ws opcode fin data = s at hstep heq
  obtain ⟨r, ws'⟩ := s
  cases hstep with
  | noKey keys f hclient hbad => exact absurd hio hbad
  | put key n r keys writes hrole hkeys hwrites hn hres hall =>
    have hfull := hall hio
    have hok := hres.mpr hfull
    have hio'' := congrArg Ws.io heq
    dsimp only at hio''
    subst hok
    refine ⟨key, _, rfl, hrole, ?_, ?_, rfl, rfl, hio'' ▸ hio'⟩
    · rw [hfull, List.take_length]
    · rw [hfull]

end Zcio
