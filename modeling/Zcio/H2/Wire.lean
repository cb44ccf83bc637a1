import Zcio.H2.Pump

/-!
# Zcio.H2.Wire

What a call of the HTTP/2 module does to its output, and to the fields that decide the end of the
connection (`Advances`).

**The history is what is on the wire.** `h2_frame` is the only place where the module writes to its
output, so every call appends whole frames to it, the ones that the history records as sent. Over a
run, what the transport took and what is still queued are together exactly the octets of these
frames (`Reachable.wire`): the statements about sent frames are statements about octets.

**A call ends the connection for a reason**: an error, or the request cap. A connection that is
closing opens no stream any more.

The proofs go through the module function by function. Each function takes a connection that has
advanced from an earlier one, and advances it further.
-/

namespace Zcio

/-- The request cap is exceeded. -/
def H2Cfg.OverCap (g : H2Cfg) (total : Nat) : Prop :=
  g.lim.maxRequestsPerConn ≠ 0 ∧ g.lim.maxRequestsPerConn < total

/-- From `a` to `c`: frames were appended to the output, and the history has them; at most `k` new
stream ids were seen. -/
structure Advances (g : H2Cfg) (k : Nat) (a c : Zh2Conn) : Prop where
  frames : ∃ fs : List Frame, sentFrames c.hist = sentFrames a.hist ++ fs ∧
    c.out.rd = a.out.rd ++ (fs.map Frame.bytes).flatten
  error : a.gotError = true → c.gotError = true
  closing : a.closing = true → c.closing = true
  asked : c.closing = true → a.closing = true ∨ c.gotError = true ∨ g.OverCap c.totalStreams
  total : a.totalStreams ≤ c.totalStreams ∧ c.totalStreams ≤ a.totalStreams + k
  streams : a.closing = true → c.streams.length ≤ a.streams.length

/-- What `Advances` reads. -/
def Zh2Conn.gist (c : Zh2Conn) : ZhsBuf × List Frame × Bool × Bool × Nat × Nat :=
  (c.out, sentFrames c.hist, c.gotError, c.closing, c.totalStreams, c.streams.length)

/-- The octets of the frames sent. -/
def wireOctets (h : List H2Event) : Bytes := ((sentFrames h).map Frame.bytes).flatten

section Advances

variable {g : H2Cfg} {k j : Nat} {a b c c' : Zh2Conn}

theorem H2Cfg.OverCap.mono {n m : Nat} (h : g.OverCap n) (hle : n ≤ m) : g.OverCap m :=
  ⟨h.1, h.2.trans_le hle⟩

theorem Advances.refl (c : Zh2Conn) : Advances g 0 c c where
  frames := ⟨[], (List.append_nil _).symm, (List.append_nil _).symm⟩
  error := id
  closing := id
  asked := Or.inl
  total := ⟨Nat.le_refl _, Nat.le_refl _⟩
  streams := fun _ => Nat.le_refl _

theorem Advances.trans (h : Advances g k a b) (h' : Advances g j b c) : Advances g (k + j) a c where
  frames := by
    obtain ⟨fs, hsent, hout⟩ := h.frames
    obtain ⟨fs', hsent', hout'⟩ := h'.frames
    refine ⟨fs ++ fs', ?_, ?_⟩
    · rw [hsent', hsent, List.append_assoc]
    · rw [hout', hout, List.map_append, List.flatten_append, List.append_assoc]
  error := fun he => h'.error (h.error he)
  closing := fun hc => h'.closing (h.closing hc)
  asked := fun hc => by
    rcases h'.asked hc with hb | he
    · rcases h.asked hb with ha | he | hcap
      · exact .inl ha
      · exact .inr (.inl (h'.error he))
      · exact .inr (.inr (hcap.mono h'.total.1))
    · exact .inr he
  total := by
    have := h.total
    have := h'.total
    omega
  streams := fun hc => (h'.streams (h.closing hc)).trans (h.streams hc)

theorem Advances.mono (h : Advances g k a c) (hle : k ≤ j) : Advances g j a c :=
  { h with total := ⟨h.total.1, h.total.2.trans (Nat.add_le_add_left hle _)⟩ }

/-- The queue never gets shorter. -/
theorem Advances.avail (h : Advances g k a c) : a.out.avail ≤ c.out.avail := by
  obtain ⟨fs, -, hout⟩ := h.frames
  unfold ZhsBuf.avail
  rw [hout, List.length_append]
  omega

/-- A change of fields that do not matter here. -/
theorem Advances.congr (h : Advances g k a c) (heq : c'.gist = c.gist) : Advances g k a c' := by
  unfold Zh2Conn.gist at heq
  simp only [Prod.mk.injEq] at heq
  obtain ⟨hout, hsent, herror, hclosing, htotal, hstreams⟩ := heq
  refine ⟨?_, ?_, ?_, ?_, ?_, ?_⟩
  · rw [hout, hsent]
    exact h.frames
  · rw [herror]
    exact h.error
  · rw [hclosing]
    exact h.closing
  · rw [hclosing, herror, htotal]
    exact h.asked
  · rw [htotal]
    exact h.total
  · rw [hstreams]
    exact h.streams

/-! ### Frames and the table -/

/-- An event that is not a frame sent. -/
theorem Advances.log (h : Advances g k a c) {e : H2Event} (he : ∀ f, e ≠ .sent f) :
    Advances g k a (c.log e) := by
  refine h.congr ?_
  cases e with
  | sent f => exact absurd rfl (he f)
  | _ => rfl

theorem Advances.h2Frame (h : Advances g k a c) (f : Frame) : Advances g k a (h2Frame c f) := by
  have hsent : Advances g 0 c (Zcio.h2Frame c f) :=
    { frames := ⟨[f], sentFrames_sent f c.hist, by simp [Zcio.h2Frame]⟩
      error := id
      closing := id
      asked := Or.inl
      total := ⟨Nat.le_refl _, Nat.le_refl _⟩
      streams := fun _ => Nat.le_refl _ }
  exact h.trans hsent

theorem Advances.h2Frames (h : Advances g k a c) (fs : List Frame) :
    Advances g k a (fs.foldl Zcio.h2Frame c) := by
  induction fs generalizing c with
  | nil => exact h
  | cons f fs ih => exact ih (h.h2Frame f)

theorem Advances.qWindowUpdate (h : Advances g k a c) (id incr : Nat) :
    Advances g k a (qWindowUpdate c id incr) := by
  unfold Zcio.qWindowUpdate
  split
  · exact h
  · exact h.h2Frame _

theorem Advances.qGoaway (h : Advances g k a c) (code : Nat) : Advances g k a (qGoaway c code) := by
  unfold Zcio.qGoaway
  split
  · exact h
  · exact (h.h2Frame _).congr rfl

theorem Advances.connError (h : Advances g k a c) (code : Nat) : Advances g k a (connError c code) :=
  { (h.log (e := .error code) nofun).qGoaway code with
    error := fun _ => rfl
    closing := fun _ => rfl
    asked := fun _ => .inr (.inl rfl) }

theorem Advances.updateStream (h : Advances g k a c) (id : Nat) (f : Zh2Stream → Zh2Stream) :
    Advances g k a (updateStream c id f) :=
  h.congr (by simp [Zh2Conn.gist, Zcio.updateStream])

theorem Advances.streamClose (h : Advances g k a c) (i : Nat) : Advances g k a (streamClose c i) :=
  { h with
    streams := fun hc => by
      refine Nat.le_trans ?_ (h.streams hc)
      exact Lib.length_swapRemove_le c.streams i }

theorem Advances.closeById (h : Advances g k a c) (id : Nat) : Advances g k a (closeById c id) := by
  unfold Zcio.closeById
  split
  · exact h.streamClose _
  · exact h

theorem Advances.rstStream (h : Advances g k a c) (id code : Nat) : Advances g k a (rstStream c id code) :=
  (h.h2Frame _).closeById id

theorem Advances.recvConsumeConn (h : Advances g k a c) (len : Nat) : Advances g k a (recvConsumeConn c len) :=
  (h.qWindowUpdate 0 (topUp c.recvWindow len).2).congr rfl

theorem Advances.recvConsume (h : Advances g k a c) (st : Option Zh2Stream) (len : Nat) :
    Advances g k a (recvConsume c st len) := by
  cases st with
  | none => exact h.recvConsumeConn len
  | some st => exact ((h.recvConsumeConn len).qWindowUpdate st.id _).updateStream st.id _

/-! ### Responses and header blocks -/

theorem Advances.zh2Respond (h : Advances g k a c) (id : Nat) (isHead : Bool) (status : Nat)
    (hdrs : List (Bytes × Bytes)) (body : RespBody) :
    Advances g k a (zh2Respond id isHead c status hdrs body) := by
  unfold Zcio.zh2Respond
  split
  · exact h
  · split
    · exact h
    · exact ((h.log (e := .responded id isHead status hdrs body) nofun).h2Frames _).updateStream id _

theorem Advances.h2Dispatch (h : Advances g k a c) (id : Nat) : Advances g k a (h2Dispatch g c id) := by
  unfold Zcio.h2Dispatch
  split
  · exact h
  · rename_i st _
    split
    · exact h
    · dsimp only
      rw [zhsDispatch_eq _ _ _ _ _ rfl (detaches_h2Request _ st)]
      have hmark : Advances g k a ((Zcio.updateStream c id fun s =>
          { s with dispatched := true, req := h2Request g st }).log (.dispatched id (h2Request g st))) :=
        (h.updateStream id _).log nofun
      have hreleased := fun status hdrs body =>
        (hmark.zh2Respond id (h2Request g st).isHead status hdrs body).updateStream id
          fun s => { s with req := {} }
      unfold reap
      split
      · split
        · exact (hreleased _ _ _).closeById id
        · exact hreleased _ _ _
      · exact hreleased _ _ _

theorem Advances.h2FinishHeaders (h : Advances g k a c) : Advances g k a (h2FinishHeaders g c) := by
  have hdone : ∀ d, Advances g k a (clearHdr ({ c with dec := d }.log (.block c.hdrTrailer c.hdrBlock))) :=
    fun _ => h.congr rfl
  unfold Zcio.h2FinishHeaders h2FinishDecoded
  dsimp only
  split
  · exact (hdone _).connError _
  · split
    · split
      · exact (hdone _).rstStream _ _
      · exact (hdone _).h2Frame _
    · split
      · exact (hdone _).h2Frame _
      · split
        · exact (hdone _).h2Frame _
        · split
          · split
            · exact (hdone _).rstStream _ _
            · exact ((hdone _).updateStream _ _).h2Dispatch _
          · split
            · exact (hdone _).rstStream _ _
            · split
              · exact ((hdone _).updateStream _ _).h2Dispatch _
              · exact (hdone _).updateStream _ _

theorem Advances.hdrFragment (h : Advances g k a c) (flags : UInt8) (frag : Bytes) :
    Advances g k a (hdrFragment g c flags frag) := by
  unfold Zcio.hdrFragment hdrAccumulate
  by_cases hlong : frag.length > hdrCap g - c.hdrBlock.length
  · rw [if_pos hlong]
    exact h.connError _
  · rw [if_neg hlong]
    have hblock : Advances g k a { c with hdrBlock := c.hdrBlock ++ frag } := h.congr rfl
    dsimp only
    split
    · exact hblock.h2FinishHeaders
    · exact hblock

/-! ### Frame handlers -/

/-- A stream id that is seen for the first time: refused, or a new stream unless the connection is
closing. -/
theorem Advances.h2OpenStream (h : Advances g k a c) (f : Frame) :
    Advances g (k + 1) a (h2OpenStream g c f) := by
  have hcounted : Advances g (k + 1) a
      { c with lastClientId := f.sid, totalStreams := c.totalStreams + 1 } :=
    h.trans
      { frames := ⟨[], (List.append_nil _).symm, (List.append_nil _).symm⟩
        error := id
        closing := id
        asked := Or.inl
        total := ⟨Nat.le_succ _, Nat.le_refl _⟩
        streams := fun _ => Nat.le_refl _ }
  unfold Zcio.h2OpenStream
  dsimp only
  split
  · exact hcounted.congr rfl
  · rename_i hopen
    split
    · rename_i hcap
      exact
        { @Advances.congr _ _ _ _ (Zcio.qGoaway _ ZH2_E_NO_ERROR) (hcounted.qGoaway ZH2_E_NO_ERROR) rfl with
          closing := fun _ => rfl
          asked := fun _ => .inr (.inr ⟨hcap.1, by
            unfold Zcio.qGoaway
            split <;> exact hcap.2⟩) }
    · split
      · exact hcounted.congr rfl
      · exact
          { hcounted with
            streams := fun hc => absurd (by rw [h.closing hc]; rfl) hopen }

theorem Advances.h2OnHeaders (h : Advances g k a c) (f : Frame) :
    Advances g (k + 1) a (h2OnHeaders g c f) := by
  have hless : Advances g (k + 1) a c := h.mono (Nat.le_succ k)
  unfold Zcio.h2OnHeaders
  split
  · exact hless.connError _
  · split
    · exact hless.connError _
    · split
      · split
        · exact hless.connError _
        · exact (h.h2OpenStream f).hdrFragment _ _
      · split
        · exact hless.connError _
        · split
          · exact hless.connError _
          · refine Advances.hdrFragment ?_ _ _
            exact hless.congr rfl

theorem Advances.h2OnContinuation (h : Advances g k a c) (f : Frame) : Advances g k a (h2OnContinuation g c f) := by
  have hcounted : Advances g k a { c with contCount := c.contCount + 1 } := h.congr rfl
  unfold Zcio.h2OnContinuation
  dsimp only
  split
  · exact hcounted.connError _
  · exact hcounted.hdrFragment _ _

theorem Advances.h2OnData (h : Advances g k a c) (f : Frame) : Advances g k a (h2OnData g c f) := by
  unfold Zcio.h2OnData
  dsimp only
  split
  · exact h.connError _
  · split
    · exact h.connError _
    · split
      · split
        · exact (h.recvConsume none _).connError _
        · exact h.recvConsume none _
      · rename_i st _
        split
        · exact h.connError _
        · split
          · exact (h.rstStream _ _).recvConsume none _
          · split
            · exact h.connError _
            · split
              · exact (h.rstStream _ _).recvConsume none _
              · have hbody := h.updateStream f.sid fun st =>
                  { st with req := { st.req with body := st.req.body ++ ‹Bytes› } }
                split
                · exact ((hbody.recvConsume none _).updateStream _ _).h2Dispatch _
                · exact hbody.recvConsume (some st) _

theorem Advances.h2OnRstStream (h : Advances g k a c) (f : Frame) : Advances g k a (h2OnRstStream g c f) := by
  unfold Zcio.h2OnRstStream
  split
  · exact h.connError _
  · split
    · exact h.connError _
    · split
      · rename_i st _
        have hcounted : ∀ n, Advances g k a { c with rapidReset := n } := fun _ => h.congr rfl
        have hclosed := (hcounted (c.rapidReset + if st.responded then 0 else 1)).closeById f.sid
        dsimp only
        generalize Zcio.closeById _ f.sid = c₁ at hclosed ⊢
        split
        · exact hclosed.connError _
        · exact hclosed
      · split
        · exact h.connError _
        · exact h

theorem length_retarget {delta : Int} {sts sts' : List Zh2Stream} {ok : Bool}
    (h : retarget delta sts = (sts', ok)) : sts'.length = sts.length := by
  have hcore := congrArg List.length (retarget_shifted delta sts)
  rwa [List.length_map, List.length_map, h] at hcore

theorem Advances.applySettings (h : Advances g k a c) (p : Bytes) : Advances g k a (applySettings c p).1 := by
  fun_induction Zcio.applySettings c p with
  | case1 => exact h.connError _
  | case2 c i0 i1 v0 v1 v2 v3 rest sid val _ _ ih => exact ih h
  | case3 => exact h.connError _
  | case4 c i0 i1 v0 v1 v2 v3 rest sid val _ _ _ streams heq ih =>
    exact ih (h.congr (by simp [Zh2Conn.gist, length_retarget heq]))
  | case5 c i0 i1 v0 v1 v2 v3 rest sid val _ _ _ streams heq =>
    refine Advances.connError ?_ _
    exact h.congr (by simp [Zh2Conn.gist, length_retarget heq])
  | case6 => exact h.connError _
  | case7 c i0 i1 v0 v1 v2 v3 rest sid val _ _ _ _ ih => exact ih (h.congr rfl)
  | case8 c i0 i1 v0 v1 v2 v3 rest sid _ _ _ ih => exact ih h
  | case9 => exact h

theorem Advances.h2OnSettings (h : Advances g k a c) (f : Frame) (count : Nat) :
    Advances g k a (h2OnSettings c f count).1 := by
  unfold Zcio.h2OnSettings
  split
  · exact h.connError _
  · split
    · dsimp only
      split
      · exact h.connError _
      · exact h
    · split
      · exact h.connError _
      · split
        · exact h.connError _
        · have happlied := h.applySettings f.payload
          split
          · rename_i heq
            rw [heq] at happlied
            exact happlied.h2Frame _
          · rename_i heq
            rw [heq] at happlied
            exact happlied

theorem Advances.h2OnPing (h : Advances g k a c) (f : Frame) (count : Nat) :
    Advances g k a (h2OnPing g c f count).1 := by
  unfold Zcio.h2OnPing
  split
  · exact h.connError _
  · split
    · exact h.connError _
    · split
      · exact h
      · split
        · exact h.connError _
        · exact h.h2Frame _

theorem Advances.h2OnWindowUpdate (h : Advances g k a c) (f : Frame) : Advances g k a (h2OnWindowUpdate c f) := by
  unfold Zcio.h2OnWindowUpdate
  split
  · exact h.connError _
  · split
    · split
      · exact h.connError _
      · dsimp only
        split
        · refine Advances.connError ?_ _
          exact h.congr rfl
        · exact h.congr rfl
    · split
      · split
        · exact h.rstStream _ _
        · dsimp only
          split
          · exact (h.updateStream _ _).rstStream _ _
          · exact h.updateStream _ _
      · split
        · exact h.connError _
        · exact h

/-- Only a HEADERS frame shows a new stream id. -/
theorem Advances.onFrame {s : Feed2St} (h : Advances g k a s.c) (f : Frame) :
    Advances g (k + if f.type = ZH2_FT_HEADERS then 1 else 0) a (onFrame g s f).c := by
  have hless : Advances g (k + if f.type = ZH2_FT_HEADERS then 1 else 0) a s.c :=
    h.mono (Nat.le_add_right k _)
  generalize hj : (if f.type = ZH2_FT_HEADERS then 1 else 0) = j at hless ⊢
  unfold Zcio.onFrame
  dsimp only
  split
  · exact hless.h2OnData f
  split
  · rename_i htype
    rw [if_pos htype] at hj
    subst hj
    exact h.h2OnHeaders f
  split
  · unfold h2OnPriority
    split
    · exact hless.connError _
    · split
      · exact hless.connError _
      · exact hless
  split
  · exact hless.h2OnRstStream f
  split
  · exact hless.h2OnSettings f s.settings
  split
  · exact hless.connError _
  split
  · exact hless.h2OnPing f s.pings
  split
  · unfold h2OnGoaway
    split
    · exact hless.connError _
    · split
      · exact hless.connError _
      · exact hless.congr rfl
  split
  · exact hless.h2OnWindowUpdate f
  split
  · exact hless.h2OnContinuation f
  · exact hless

end Advances

/-! ### Calls

A call of the connection appends to its output exactly the octets of the frames it has
recorded. -/

section Calls

variable {g : H2Cfg} {c : Zh2Conn}

/-- The HEADERS frames that the octets of whole or started frames hold, in at most `n` frames. -/
def headersInN : Nat → Bytes → Nat
  | 0, _ => 0
  | n + 1, inp =>
    if inp.length < ZH2_FRAME_HDR then 0
    else (if (frameOf inp).type = ZH2_FT_HEADERS then 1 else 0) +
      headersInN n (inp.drop (ZH2_FRAME_HDR + rd (inp.take 3)))

/-- The HEADERS frames in `inp`. -/
def headersIn (inp : Bytes) : Nat := headersInN inp.length inp

/-- The HEADERS frames in `inp`, behind what is left of the preface. -/
def headersAhead (c : Zh2Conn) (inp : Bytes) : Nat :=
  headersIn (if c.prefaceDone then inp else inp.drop (ZH2_PREFACE.length - c.prefaceGot))

theorem headersInN_enough {inp : Bytes} {n m : Nat} (hn : inp.length ≤ n) (hm : inp.length ≤ m) :
    headersInN n inp = headersInN m inp := by
  induction n generalizing inp m with
  | zero =>
    obtain rfl := List.eq_nil_of_length_eq_zero (Nat.le_zero.mp hn)
    cases m <;> rfl
  | succ n ih =>
    cases m with
    | zero =>
      obtain rfl := List.eq_nil_of_length_eq_zero (Nat.le_zero.mp hm)
      rfl
    | succ m =>
      rw [headersInN, headersInN]
      split
      · rfl
      · rename_i hlong
        have hdrop : (inp.drop (ZH2_FRAME_HDR + rd (inp.take 3))).length ≤ inp.length - 1 := by
          rw [List.length_drop, ZH2_FRAME_HDR]
          omega
        rw [ih (m := m) (by omega) (by omega)]

/-- The first frame, and the others. -/
theorem headersIn_frame {inp : Bytes} (hlong : ZH2_FRAME_HDR ≤ inp.length) :
    headersIn inp = (if (frameOf inp).type = ZH2_FT_HEADERS then 1 else 0) +
      headersIn (inp.drop (ZH2_FRAME_HDR + rd (inp.take 3))) := by
  have hpos : 0 < inp.length := Nat.lt_of_lt_of_le (by decide) hlong
  have hdrop : (inp.drop (ZH2_FRAME_HDR + rd (inp.take 3))).length ≤ inp.length - 1 := by
    rw [List.length_drop, ZH2_FRAME_HDR]
    omega
  rw [headersIn, headersInN_enough (m := inp.length - 1 + 1) (Nat.le_refl _) (by omega), headersInN,
    if_neg (Nat.not_lt.mpr hlong), headersIn, headersInN_enough hdrop (Nat.le_refl _)]

theorem advances_consumePreface (c : Zh2Conn) (inp : Bytes) :
    Advances g 0 c (consumePreface c inp).1 ∧ ((consumePreface c inp).2.2 = true →
      (consumePreface c inp).2.1 = inp.drop (ZH2_PREFACE.length - c.prefaceGot)) := by
  fun_induction consumePreface c inp with
  | case1 => exact ⟨.refl _, nofun⟩
  | case2 => exact ⟨(Advances.refl _).congr rfl, fun _ => List.drop_nil.symm⟩
  | case3 => exact ⟨(Advances.refl _).connError _, nofun⟩
  | case4 c b inp hmore _ ih =>
    have hgot : Advances g 0 c { c with prefaceGot := c.prefaceGot + 1 } := (Advances.refl c).congr rfl
    refine ⟨hgot.trans ih.1, fun hready => ?_⟩
    rw [ih.2 hready]
    dsimp only
    rw [show ZH2_PREFACE.length - c.prefaceGot = ZH2_PREFACE.length - (c.prefaceGot + 1) + 1 by omega,
      List.drop_succ_cons]
  | case5 c b inp hdone =>
    refine ⟨(Advances.refl _).congr rfl, fun _ => ?_⟩
    rw [show ZH2_PREFACE.length - c.prefaceGot = 0 by omega, List.drop_zero]

/-- **One round of the frame loop**: a frame is taken from the input. -/
theorem advances_zh2FeedRound (s : Feed2St) : match zh2FeedRound g s with
    | .inl s' => ∃ k, Advances g k s.c s'.c ∧ k + headersIn s'.inp = headersIn s.inp
    | .inr r => Advances g 0 s.c r.1 := by
  have hlogged : Advances g 0 s.c (s.c.log (.recv (frameOf s.inp))) :=
    (Advances.refl s.c).log (e := .recv (frameOf s.inp)) nofun
  have hrecv : Advances g 0 s.c { s.c.log (.recv (frameOf s.inp)) with needSettings := false } :=
    hlogged.congr rfl
  unfold zh2FeedRound
  dsimp only
  by_cases herror : s.c.gotError = true
  · rw [if_pos herror]
    exact .refl _
  by_cases hshort : s.inp.length < ZH2_FRAME_HDR
  · rw [if_neg herror, if_pos hshort]
    exact .refl _
  by_cases hlarge : rd (s.inp.take 3) > ZH2_OUR_MAX_FRAME
  · rw [if_neg herror, if_neg hshort, if_pos hlarge]
    exact (Advances.refl _).connError _
  by_cases hpart : s.inp.length < ZH2_FRAME_HDR + rd (s.inp.take 3)
  · rw [if_neg herror, if_neg hshort, if_neg hlarge, if_pos hpart]
    exact .refl _
  rw [if_neg herror, if_neg hshort, if_neg hlarge, if_neg hpart]
  by_cases hfirst : (s.c.log (.recv (frameOf s.inp))).needSettings = true ∧
      (frameOf s.inp).type ≠ ZH2_FT_SETTINGS
  · rw [if_pos hfirst]
    exact hlogged.connError _
  rw [if_neg hfirst]
  split
  · rename_i heq
    split at heq
    · cases heq
    · split at heq
      · cases heq
      · cases heq
        refine ⟨_, Advances.onFrame (s := { s with c := _ }) hrecv (frameOf s.inp), ?_⟩
        rw [headersIn_frame (Nat.not_lt.mp hshort), Nat.zero_add]
  · rename_i heq
    split at heq
    · cases heq
      exact hrecv.connError _
    · split at heq
      · cases heq
        exact hrecv.connError _
      · cases heq

theorem advances_frame {s s' : Feed2St} (h : zh2FeedRound g s = .inl s') :
    ∃ k, Advances g k s.c s'.c ∧ k + headersIn s'.inp = headersIn s.inp := by
  have hround := advances_zh2FeedRound (g := g) s
  rwa [h] at hround

theorem advances_stop {s : Feed2St} {r : Zh2Conn × Bytes} (h : zh2FeedRound g s = .inr r) :
    Advances g 0 s.c r.1 := by
  have hround := advances_zh2FeedRound (g := g) s
  rwa [h] at hround

theorem advances_zh2Frames (c : Zh2Conn) (inp : Bytes) :
    Advances g (headersIn inp) c (zh2Frames g c inp).1 := by
  -- what was seen and what is still ahead are the HEADERS frames of the input
  refine Lib.loop_inv (zh2FeedRound_decreases g)
    (I := fun s => ∃ k, Advances g k c s.c ∧ k + headersIn s.inp = headersIn inp)
    (Q := fun r => Advances g (headersIn inp) c r.1) ?_ ?_ (s := { c, inp })
    ⟨0, .refl c, Nat.zero_add _⟩
  · rintro s s' ⟨k, hs, hsum⟩ hround
    obtain ⟨j, hadv, htakes⟩ := advances_frame hround
    exact ⟨k + j, hs.trans hadv, by omega⟩
  · rintro s r ⟨k, hs, hsum⟩ hround
    exact (hs.trans (advances_stop hround)).mono (by omega)

/-- **A call of `zh2_feed_`**. -/
theorem advances_zh2Feed (c : Zh2Conn) (inp : Bytes) :
    Advances g (headersAhead c inp) c (zh2Feed g c inp).2.1 := by
  unfold zh2Feed headersAhead
  cases c.prefaceDone with
  | true => exact advances_zh2Frames c inp
  | false =>
    have hpre := advances_consumePreface (g := g) c inp
    revert hpre
    generalize consumePreface c inp = r
    obtain ⟨c', inp', ready⟩ := r
    rintro ⟨hpre, hrest⟩
    cases ready with
    | true =>
      obtain rfl := hrest rfl
      refine (hpre.trans (advances_zh2Frames c' _)).mono ?_
      rw [Nat.zero_add]
      exact Nat.le_refl _
    | false => exact hpre.mono (Nat.zero_le _)

/-- **A call of `zh2_pump_`**. -/
theorem advances_zh2Pump (c : Zh2Conn) : Advances g 0 c (zh2Pump g c) :=
  zh2Pump_inv (I := Advances g 0 c)
    (fun c' st chunk h => by
      rw [pumpData_eq]
      exact ((h.h2Frame (dataFrame st chunk)).updateStream st.id
        (.sentData (st.bodyOff + chunk = st.respBody.length) chunk)).congr rfl)
    (fun _ i h => h.streamClose i) (.refl c)

/-! ### The wire -/

/-- More frames in the history, more octets on the wire. -/
theorem Advances.wire {k : Nat} {a : Zh2Conn} (h : Advances g k a c) {gone : Bytes}
    (ha : gone ++ a.out.rd = wireOctets a.hist) : gone ++ c.out.rd = wireOctets c.hist := by
  obtain ⟨fs, hsent, hout⟩ := h.frames
  rw [hout, ← List.append_assoc, ha, wireOctets, wireOctets, hsent, List.map_append,
    List.flatten_append]

/-- **What is on the wire is what the history says**: what the transport took and what is queued are
the octets of the frames sent. -/
theorem Reachable.wire (h : Reachable g c) : ∃ gone, gone ++ c.out.rd = wireOctets c.hist := by
  induction h with
  | new => exact ⟨[], by simp [zh2New, h2Frame, wireOctets, sentFrames]⟩
  | preface inp _ ih =>
    obtain ⟨gone, ih⟩ := ih
    exact ⟨gone, (advances_consumePreface (g := g) _ inp).1.wire ih⟩
  | frame _ hround ih =>
    obtain ⟨gone, ih⟩ := ih
    obtain ⟨k, hadv, -⟩ := advances_frame hround
    exact ⟨gone, hadv.wire ih⟩
  | @stop s c' rest _ hround ih =>
    obtain ⟨gone, ih⟩ := ih
    exact ⟨gone, (advances_stop hround).wire ih⟩
  | pump _ ih =>
    obtain ⟨gone, ih⟩ := ih
    exact ⟨gone, (advances_zh2Pump _).wire ih⟩
  | @graceful c _ ih =>
    obtain ⟨gone, ih⟩ := ih
    exact ⟨gone, ((Advances.refl (g := g) c).qGoaway ZH2_E_NO_ERROR).wire ih⟩
  | @drain c n _ ih =>
    -- what is taken goes to the transport
    obtain ⟨gone, ih⟩ := ih
    refine ⟨gone ++ c.out.rd.take n, ?_⟩
    show (gone ++ c.out.rd.take n) ++ (c.out.consume n).rd = wireOctets c.hist
    rw [ZhsBuf.rd_consume, List.append_assoc, List.take_append_drop, ih]

end Calls

end Zcio
