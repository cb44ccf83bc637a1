import Zcio.H1.Step

/-!
# Zcio.H1.Move

What a round of the parser can do to the connection, whatever the input was. `H1Move` has
one constructor per way a stage can end, with everything the stage has checked by then;
`h1Round_move` is the inversion. An invariant of the connection is a case analysis over
`H1Move` plus what `h1_finish` does (`h1Finish_eq`), put together by `feedLoop_inv`.
-/

namespace Zcio

variable (g : H1Cfg)

/-- The connection after `h1_reqline` accepted a request line. -/
def acceptLine (c : Zh1Conn) (n : Nat) (http10 : Bool) (method target path : Bytes)
    (query : Option Bytes) : Zh1Conn :=
  { c with
    receiving := true
    headBytes := c.headBytes + n
    isHttp10 := http10
    req := { c.req with
      method := some (cstr method)
      isHead := method == str "HEAD"
      raw := { c.req.raw with method, target }
      path := some path
      query
      version := 1 }
    state := .headers
    reqNo := c.reqNo + 1 }

/-- The connection after `h1_headers` stored a field. -/
def acceptField (c : Zh1Conn) (n : Nat) (name value : Bytes) (headers : ZhsHdrs) : Zh1Conn :=
  { c with
    headBytes := c.headBytes + n
    req := { c.req with
      headers
      raw := { c.req.raw with fields := c.req.raw.fields ++ [(name, value)] } } }

/-- **What a round can do.** -/
inductive H1Move (c : Zh1Conn) : PCode → Zh1Conn → Prop where
  /-- Nothing to act on yet. -/
  | wait (receiving : Bool) : c.state ≠ .bodyCl ∨ c.clRemaining ≠ 0 →
      H1Move c .more { c with receiving }
  /-- An error or redirect response went out, or had before. -/
  | close {c' : Zh1Conn} : c'.state = .dead → c'.log = c.log → H1Move c .close c'
  | reqline {n : Nat} {http10 : Bool} {method target path : Bytes} {query : Option Bytes} :
      c.state = .reqline → zhsTokenOk method = true →
      zhsDecodeTarget target g.lim = .ok (path, query) →
      H1Move c .next (acceptLine c n http10 method target path query)
  | field {n : Nat} {name value : Bytes} {headers : ZhsHdrs} :
      c.state = .headers → zhsTokenOk name = true → zhsValueOk value = true →
      c.req.headers.add name value g.lim true = .ok headers →
      H1Move c .next (acceptField c n name value headers)
  /-- The head is complete and its framing was accepted. -/
  | framed {n : Nat} {c' : Zh1Conn} : c.state = .headers →
      h1Framing g (h1Authority { c with headBytes := c.headBytes + n }) = .ok c' →
      H1Move c .next { c' with keepAlive := h1KeepAlive c' }
  | noBody : c.state = .bodyCl → c.clRemaining = 0 → H1Move c .complete c
  | bodyPart {b : Bytes} : c.state = .bodyCl → b.length < c.clRemaining →
      H1Move c .more { c with
        req := { c.req with body := c.req.body ++ b }
        clRemaining := c.clRemaining - b.length }
  | bodyEnd {b : Bytes} : c.state = .bodyCl → b.length = c.clRemaining →
      H1Move c .complete { c with
        req := { c.req with body := c.req.body ++ b }
        clRemaining := 0 }
  | lastChunk : c.state = .chunkSize → H1Move c .next { c with state := .trailer }
  | chunk {size : Nat} : c.state = .chunkSize →
      size ≤ g.lim.maxBodyBytes - c.req.body.length →
      H1Move c .next { c with chunkRemaining := size, state := .chunkData }
  | noData : c.state = .chunkData → c.chunkRemaining = 0 →
      H1Move c .next { c with state := .chunkCrlf }
  | chunkPart {b : Bytes} : c.state = .chunkData → b.length < c.chunkRemaining →
      H1Move c .more { c with
        req := { c.req with body := c.req.body ++ b }
        chunkRemaining := c.chunkRemaining - b.length }
  | chunkEnd {b : Bytes} : c.state = .chunkData → b.length = c.chunkRemaining →
      H1Move c .next { c with
        req := { c.req with body := c.req.body ++ b }
        chunkRemaining := 0
        state := .chunkCrlf }
  | crlf : c.state = .chunkCrlf → H1Move c .next { c with state := .chunkSize }
  | trailer {n : Nat} : c.state = .trailer →
      H1Move c .next { c with headBytes := c.headBytes + n }
  | trailerEnd {n : Nat} : c.state = .trailer →
      H1Move c .complete { c with headBytes := c.headBytes + n }

theorem h1Redirect_frame (c : Zh1Conn) :
    (h1Redirect g c).state = .dead ∧ (h1Redirect g c).log = c.log := by
  unfold h1Redirect
  dsimp only
  split <;> exact ⟨rfl, rfl⟩

theorem h1Authority_log (c : Zh1Conn) : (h1Authority c).log = c.log := by
  unfold h1Authority
  split <;> rfl

/-! ### The inversion, stage by stage -/

theorem h1Reqline_move {c : Zh1Conn} (hst : c.state = .reqline) (inp : Bytes) :
    H1Move g c (h1Reqline g c inp).code (h1Reqline g c inp).c := by
  unfold h1Reqline
  dsimp only
  generalize hrecv : (if inp.length > 0 then { c with receiving := true } else c) = c₁
  have hc₁ : c₁ = { c with receiving := c₁.receiving } := by
    rw [← hrecv]; split <;> rfl
  have hlog : c₁.log = c.log := by rw [hc₁]
  obtain ⟨-, -, hb⟩ | ⟨status, hb⟩ | ⟨text, rest, rfl, -, -, hb⟩ :=
    h1Budgeted_cases g c₁ inp id (h1ReqlineText g)
  · rw [hb, hc₁]
    exact .wait _ (.inl (by rw [hst]; simp))
  · rw [hb]
    exact .close rfl hlog
  · have hr : c₁ = { c with receiving := true } := by
      rw [← hrecv, if_pos (by simp only [crlf, List.length_append, List.length_cons]; omega)]
    rw [hb]
    unfold h1ReqlineText
    dsimp only
    split
    · exact .close rfl hlog
    · split
      · exact .close rfl hlog
      · split
        · exact .close rfl hlog
        · split
          · exact .close rfl hlog
          · split
            · exact .close rfl hlog
            · split
              · exact .close rfl hlog
              · rename_i hmethod _ http10 _ _ _ path query htarget
                rw [hr]
                exact .reqline hst (by simpa using hmethod) htarget

theorem h1HeadDone_move {c c₀ : Zh1Conn} {n : Nat} (hst : c₀.state = .headers)
    (hc : c = { c₀ with headBytes := c₀.headBytes + n }) (inp : Bytes) :
    H1Move g c₀ (h1HeadDone g c inp).code (h1HeadDone g c inp).c := by
  have hlog : c.log = c₀.log := by rw [hc]
  unfold h1HeadDone
  dsimp only
  split
  · exact .close rfl hlog
  · split
    · exact .close rfl hlog
    · split
      · obtain ⟨hdead, hrlog⟩ := h1Redirect_frame g (h1Authority c)
        exact .close hdead (by rw [hrlog, h1Authority_log, hlog])
      · split
        · exact .close rfl ((h1Authority_log c).trans hlog)
        · rename_i c' hf
          rw [hc] at hf
          exact .framed hst hf

theorem headers_move {c : Zh1Conn} (hst : c.state = .headers) (inp : Bytes) :
    H1Move g c (headStage g (h1HeaderRound g (c, inp))).code
      (headStage g (h1HeaderRound g (c, inp))).c := by
  unfold h1HeaderRound
  obtain ⟨-, -, hb⟩ | ⟨status, hb⟩ | ⟨text, rest, rfl, -, -, hb⟩ :=
    h1Budgeted_cases g c inp (fun st => .inr (.stop st)) (h1HeaderText g)
  · rw [hb]
    exact .wait _ (.inl (by rw [hst]; simp))
  · rw [hb]
    exact .close rfl rfl
  · rw [hb]
    obtain ⟨-, ht⟩ | ⟨status, ht⟩ | ⟨name, v, value, headers, -, hname, -, hvalue, hadd, ht⟩ :=
      h1HeaderText_cases g { c with headBytes := c.headBytes + (text.length + 2) } text rest
    · rw [ht]
      exact h1HeadDone_move g hst rfl rest
    · rw [ht]
      exact .close rfl rfl
    · rw [ht]
      exact .field hst hname hvalue hadd

theorem h1BodyCl_move {c : Zh1Conn} (hst : c.state = .bodyCl) (inp : Bytes) :
    H1Move g c (h1BodyCl c inp).code (h1BodyCl c inp).c := by
  by_cases h0 : c.clRemaining = 0
  · rw [h1BodyCl, if_pos h0]
    exact .noBody hst h0
  · rw [h1BodyCl_eq h0]
    by_cases hle : c.clRemaining ≤ inp.length
    · rw [if_pos hle]
      have := H1Move.bodyEnd (g := g) (b := inp.take c.clRemaining) hst (by simp [hle])
      rwa [← Nat.sub_eq_zero_of_le hle] at this
    · rw [if_neg hle]
      have htake : inp.take c.clRemaining = inp := List.take_of_length_le (by omega)
      have := H1Move.bodyPart (g := g) (b := inp) hst (by omega)
      rwa [← htake, List.length_take, Nat.min_eq_right (by omega)] at this

theorem chunked_move {c : Zh1Conn} (hc : c.state.inChunked = true) (inp : Bytes) :
    H1Move g c (chunkStage (h1ChunkRound g (c, inp))).code
      (chunkStage (h1ChunkRound g (c, inp))).c := by
  cases hst : c.state with
  -- a size line: the wait, a refusal, the last chunk or another one
  | chunkSize =>
    have hwait := H1Move.wait (g := g) (c := c) c.receiving (.inl (by rw [hst]; simp))
    unfold h1ChunkRound
    simp only [hst]
    split
    · split
      · exact .close rfl rfl
      · exact hwait
    · exact .close rfl rfl
    · rename_i text consumed _
      obtain ⟨status, ht⟩ | ⟨size, ext, -, -, -, ⟨-, ht⟩ | ⟨-, hsize, ht⟩⟩ :=
        h1ChunkSizeText_cases g c text (inp.drop consumed)
      · rw [ht]; exact .close rfl rfl
      · rw [ht]; exact .lastChunk hst
      · rw [ht]; exact .chunk hst hsize
  -- data: all of the chunk, a part of it, or none
  | chunkData =>
    by_cases h0 : c.chunkRemaining = 0
    · unfold h1ChunkRound
      simp only [hst]
      rw [if_neg (by omega)]
      exact .noData hst h0
    · rw [h1ChunkData_eq g hst h0]
      split
      · rename_i hle
        exact .chunkEnd (b := inp.take c.chunkRemaining) hst (by simp [hle])
      · rename_i hle
        have htake : inp.take c.chunkRemaining = inp := List.take_of_length_le (by omega)
        have := H1Move.chunkPart (g := g) (b := inp) hst (by omega)
        rwa [← htake, List.length_take, Nat.min_eq_right (by omega)] at this
  -- the CRLF behind a chunk
  | chunkCrlf =>
    have hwait := H1Move.wait (g := g) (c := c) c.receiving (.inl (by rw [hst]; simp))
    unfold h1ChunkRound
    simp only [hst]
    split
    · split
      · exact .close rfl rfl
      · exact .crlf hst
    · exact hwait
  -- a trailer line
  | trailer =>
    unfold h1ChunkRound
    simp only [hst]
    obtain ⟨-, -, hb⟩ | ⟨status, hb⟩ | ⟨text, rest, rfl, -, -, hb⟩ :=
      h1Budgeted_cases g c inp .inr (fun c => h1TrailerText c)
    · rw [hb]
      exact .wait _ (.inl (by rw [hst]; simp))
    · rw [hb]
      exact .close rfl rfl
    · rw [hb]
      unfold h1TrailerText
      split
      · exact .trailerEnd hst
      · exact .trailer hst
  | _ => rw [hst] at hc; cases hc

/-- **Inverting a round.** -/
theorem h1Round_move (c : Zh1Conn) (inp : Bytes) :
    H1Move g c (h1Round g c inp).code (h1Round g c inp).c := by
  cases hst : c.state with
  | reqline =>
    rw [show h1Round g c inp = h1Reqline g c inp by simp only [h1Round, hst]]
    exact h1Reqline_move g hst inp
  | headers =>
    rw [show h1Round g c inp = headStage g (h1HeaderRound g (c, inp)) by
      simp only [h1Round, hst]]
    exact headers_move g hst inp
  | bodyCl =>
    rw [show h1Round g c inp = h1BodyCl c inp by simp only [h1Round, hst]]
    exact h1BodyCl_move g hst inp
  | dead =>
    rw [show h1Round g c inp = ⟨.close, c, inp⟩ by simp only [h1Round, hst]]
    exact .close hst rfl
  | _ =>
    have hc : c.state.inChunked = true := by rw [hst]; rfl
    rw [h1Round_chunked g hc]
    exact chunked_move g hc inp

/-! ### Dispatch

The end of a request is the only move that leaves the parser. -/

/-- **What `h1_finish` does**: one more call in the log, possibly a response in the output
and a decision to close; the parser's own state stays. -/
theorem h1Finish_eq (c : Zh1Conn) :
    ∃ (out : ZhsBuf) (closeAfter responded : Bool) (reqCount : Nat),
      (c.closeAfter = true → closeAfter = true) ∧
      h1Finish g c = (!g.srv.detaches c.history (h1Request g c),
        { c with
          req := { h1Request g c with responded }
          log := c.log ++ [{ no := c.reqNo, http10 := c.isHttp10, req := h1Request g c }]
          out, closeAfter, reqCount }) := by
  unfold h1Finish
  dsimp only
  generalize hc₁ : ({ c with
    req := h1Request g c
    log := c.log ++ [{ no := c.reqNo, http10 := c.isHttp10, req := h1Request g c }] } : Zh1Conn) =
      c₁
  -- a response touches the output and the decision to close, nothing else
  have hframe : ∃ out closeAfter, (c.closeAfter = true → closeAfter = true) ∧
      (zhsDispatch g.srv c.history (h1Request g c) (h1Respond g) c₁).1 =
        { c₁ with out, closeAfter } := by
    refine zhsDispatch_inv (I := fun c₂ : Zh1Conn => ∃ out closeAfter,
      (c.closeAfter = true → closeAfter = true) ∧ c₂ = { c₁ with out, closeAfter }) _ _ _ ?_ ?_
    · rintro _ status hdrs body ⟨out, closeAfter, hclose, rfl⟩
      refine ⟨_, _, fun hc => ?_, rfl⟩
      simp [hclose hc]
    · exact ⟨c₁.out, c₁.closeAfter, fun h => by rw [← hc₁]; exact h, rfl⟩
  obtain ⟨out, closeAfter, hclose, heq⟩ := hframe
  rw [heq, ← hc₁]
  split
  · rename_i hd
    exact ⟨out, closeAfter, _, _, hclose, by rw [hd]; rfl⟩
  · rename_i hd
    exact ⟨out, closeAfter, _, _, hclose, by rw [Bool.not_eq_true] at hd; rw [hd]; rfl⟩

/-- **The invariant rule for a feed.** `I` holds between rounds, `Q` when the feed returns. -/
theorem feedLoop_inv {I Q : Zh1Conn → Prop}
    (next : ∀ c c', I c → H1Move g c .next c' → I c')
    (more : ∀ c c', I c → H1Move g c .more c' → Q c')
    (close : ∀ c c', I c → H1Move g c .close c' → Q c')
    (stop : ∀ c c', I c → H1Move g c .complete c' →
      ((h1Finish g c').1 = false ∨ (h1Finish g c').2.closeAfter = true) → Q (h1Finish g c').2)
    (reset : ∀ c c', I c → H1Move g c .complete c' → (h1Finish g c').1 = true →
      (h1Finish g c').2.closeAfter = false → I (h1ResetNext (h1Finish g c').2))
    {s : FeedSt} (hs : I s.c) : Q (feedLoop g s).c := by
  -- every round is one move; the loop is an induction on them
  refine feedLoop_induct g (P := fun s r => I s.c → Q r.c) ?_ ?_ s hs
  · intro s r h hi
    have hmove := h1Round_move g s.c s.inp
    unfold feedStep feedNext at h
    -- a round that ends the loop
    split at h
    · rename_i hc
      cases h
      exact more _ _ hi (hc ▸ hmove)
    · cases h
    · rename_i hc
      cases h
      exact close _ _ hi (hc ▸ hmove)
    · rename_i hc
      dsimp only at h
      split at h
      · rename_i hatt
        cases h
        exact stop _ _ hi (hc ▸ hmove) (.inl (by simpa using hatt))
      · -- a complete request closes the connection, or makes way for the next one
        split at h
        · rename_i hclose
          cases h
          exact stop _ _ hi (hc ▸ hmove) (.inr hclose)
        · cases h
  · intro s s' r h ih hi
    have hmove := h1Round_move g s.c s.inp
    apply ih
    unfold feedStep feedNext at h
    split at h
    · -- a round behind which the loop goes on
      cases h
    · rename_i hc
      cases h
      exact next _ _ hi (hc ▸ hmove)
    · cases h
    · rename_i hc
      dsimp only at h
      split at h
      · cases h
      · rename_i hatt
        split at h
        · cases h
        · rename_i hclose
          cases h
          exact reset _ _ hi (hc ▸ hmove) (by simpa using hatt) (by simpa using hclose)

end Zcio
