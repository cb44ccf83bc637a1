import Zcio.Server.Request
import Zcio.H1.Once

/-!
# Zcio.H1.Requests

What a request of an HTTP/1.1 connection is by the time it reaches the handler. `ReqInv`
follows a request through the stages: which part of the object is there, and how much of the
body is still to come. `Dispatched` is what it comes to: the head assembled from clean
octets, a body within its limit, and a declared length that is the body's.
-/

namespace Zcio

variable (g : H1Cfg)

/-- The authority of an HTTP/1.1 request: the Host field behind its last `@`. -/
def h1Auth (r : RawReq) : Option Bytes := r.authority.map (afterLast 64)

theorem lessUserinfo_afterLast (r : Bytes) : LessUserinfo r (afterLast 64 r) := by
  induction r using List.reverseRecOn with
  | nil => exact .inl rfl
  | append_singleton r b ih =>
    unfold afterLast at ih ⊢
    by_cases hb : b = 64
    · subst hb
      rw [List.rtakeWhile_concat_neg _ _ _ (by decide)]
      exact .inr ⟨r, rfl⟩
    · rw [List.rtakeWhile_concat_pos _ _ _ (by simpa using hb)]
      rcases ih with h | ⟨ui, h⟩
      · exact .inl (by rw [h])
      · refine .inr ⟨ui, ?_⟩
        conv_lhs => rw [h]
        simp

theorem fromReceived_h1Auth : FromReceived h1Auth := by
  intro r _ a ha
  obtain ⟨x, hx, rfl⟩ := Option.map_eq_some_iff.mp ha
  refine ⟨x, ?_, lessUserinfo_afterLast x⟩
  rw [RawReq.received, hx]
  rfl

/-! ### The invariant

What the parser has stored so far is what the lines so far say, stage by stage. -/

/-- The head read so far: assembled, and clean. -/
structure HeadRead (lim : ZhsLimits) (req : HttpReq) : Prop where
  assembled : Assembled lim h1Auth req
  method : zhsTokenOk req.raw.method = true
  values : ∀ f ∈ req.raw.fields, zhsValueOk f.2 = true

/-- The whole head, with the authority taken from Host. -/
structure HeadEnd (lim : ZhsLimits) (req : HttpReq) : Prop extends HeadRead lim req where
  host : req.raw.authority = req.raw.host

/-- What is declared is what the body has and will have. -/
def LengthLeft (req : HttpReq) (left : Nat) : Prop :=
  Honest (declared req.headers.v) (req.body.length + left) ∧
    (declared req.headers.v = [] → left = 0)

/-- Where the request stands, stage by stage. -/
def ReqStage (lim : ZhsLimits) (c : Zh1Conn) : Prop :=
  match c.state with
  | .reqline => c.req = {}
  | .headers => HeadRead lim c.req ∧ c.req.raw.authority = none ∧ c.req.body = []
  | .bodyCl => HeadEnd lim c.req ∧ LengthLeft c.req c.clRemaining ∧
      c.req.body.length + c.clRemaining ≤ lim.maxBodyBytes
  | .chunkData => HeadEnd lim c.req ∧ declared c.req.headers.v = [] ∧
      c.req.body.length + c.chunkRemaining ≤ lim.maxBodyBytes
  | .chunkSize | .chunkCrlf | .trailer => HeadEnd lim c.req ∧ declared c.req.headers.v = [] ∧
      c.req.body.length ≤ lim.maxBodyBytes
  | .dead => True

/-- What holds of a request when the handler gets it. -/
structure Dispatched (lim : ZhsLimits) (req : HttpReq) : Prop extends HeadEnd lim req where
  length : LengthHonest req
  body : req.body.length ≤ lim.maxBodyBytes

/-- **The invariant**: of the requests dispatched and of the one in progress. -/
structure ReqInv (lim : ZhsLimits) (c : Zh1Conn) : Prop where
  log : ∀ d ∈ c.log, Dispatched lim d.req
  stage : ReqStage lim c

/-! ### The stages

Each move of the parser keeps this, and the last one makes a request of it. -/

theorem length_declared (h : ZhsHdrs) :
    (declared h.v).length = h.count (str "content-length") := by
  have hlow : lower (str "content-length") = str "content-length" := by decide
  unfold declared ZhsHdrs.count
  rw [List.length_map, hlow, List.countP_eq_length_filter]

/-- The digits the loop of `h1_frame_content_length` accepts, and their value. -/
theorem frameContentLength_go {v n : Nat} {s : Bytes}
    (h : h1FrameContentLength.go v s = .ok n) :
    s.all isDigit = true ∧ s.foldl (fun n d => n * 10 + (d.toNat - 48)) v = n := by
  induction s generalizing v with
  | nil => cases h; exact ⟨rfl, rfl⟩
  | cons p s ih =>
    rw [h1FrameContentLength.go] at h
    split at h
    · cases h
    · rename_i hd
      split at h
      · cases h
      · obtain ⟨hall, hval⟩ := ih h
        refine ⟨?_, hval⟩
        rw [List.all_cons, hall, Bool.and_true]
        simpa [h1IsDigit, isDigit] using hd

theorem h1FrameContentLength_ok {c : Zh1Conn} {n : Nat} (h : h1FrameContentLength g c = .ok n) :
    Honest (declared c.req.headers.v) n ∧ declared c.req.headers.v ≠ [] ∧
      n ≤ g.lim.maxBodyBytes := by
  unfold h1FrameContentLength at h
  change (match declared c.req.headers.v with
    | [] => _ | _ :: _ :: _ => _ | [first] => _) = _ at h
  split at h
  · cases h
  · cases h
  · rename_i first hdecl
    split at h
    · cases h
    · rename_i hne
      split at h
      · cases h
      · rename_i v hgo
        split at h
        · cases h
        · cases h
          obtain ⟨hall, hval⟩ := frameContentLength_go hgo
          exact ⟨.inr ⟨first, hdecl, hne, hall, hval⟩, by rw [hdecl]; simp, by omega⟩

/-- **The framing decision**: a chunked body without a declared length, or a body of the
declared length. -/
theorem h1Framing_ok {c c' : Zh1Conn} (h : h1Framing g c = .ok c') :
    c'.req = c.req ∧
      (c'.state = .chunkSize ∧ declared c.req.headers.v = [] ∨
        c'.state = .bodyCl ∧ Honest (declared c.req.headers.v) c'.clRemaining ∧
          (declared c.req.headers.v = [] → c'.clRemaining = 0) ∧
          c'.clRemaining ≤ g.lim.maxBodyBytes) := by
  have hnil : c.req.headers.count (str "content-length") = 0 ↔
      declared c.req.headers.v = [] := by
    rw [← length_declared, List.length_eq_zero_iff]
  unfold h1Framing at h
  dsimp only at h
  split at h
  · cases h
  · rename_i hboth
    split at h
    · cases h
    · split at h
      · rename_i te hte
        split at h
        · cases h
        · cases h
          refine ⟨rfl, .inl ⟨rfl, hnil.mp ?_⟩⟩
          by_contra hne
          exact hboth ⟨by rw [hte]; rfl, hne⟩
      · split at h
        · split at h
          · cases h
          · rename_i cl hcl
            cases h
            obtain ⟨hhon, hne, hle⟩ := h1FrameContentLength_ok g hcl
            exact ⟨rfl, .inr ⟨rfl, hhon, fun hd => absurd hd hne, hle⟩⟩
        · rename_i hz
          cases h
          have hd := hnil.mp (not_not.mp hz)
          exact ⟨rfl, .inr ⟨rfl, .inl hd, fun _ => rfl, Nat.zero_le _⟩⟩

/-- Taking the authority from Host completes the head. -/
theorem h1Authority_head {c : Zh1Conn} {lim : ZhsLimits} (h : HeadRead lim c.req)
    (hnone : c.req.raw.authority = none) :
    HeadEnd lim (h1Authority c).req ∧ (h1Authority c).req.headers = c.req.headers ∧
      (h1Authority c).req.body = c.req.body := by
  have hget := get_host (r := c.req.raw) h.assembled.headers
  have hclean : c.req.raw.host.map cstr = c.req.raw.host := by
    cases hh : c.req.raw.host with
    | none => rfl
    | some v =>
      obtain ⟨f, hf, rfl⟩ := Option.map_eq_some_iff.mp hh
      rw [Option.map_some, cstr_of_valueOk (h.values f (List.mem_of_find?_eq_some hf))]
  rw [hclean] at hget
  obtain ⟨hm, hh, ht, ha, hn, hv, hc⟩ := h.assembled
  unfold h1Authority
  split
  · rename_i hv' hsome
    rw [hget] at hsome
    exact ⟨⟨⟨⟨hm, hh, ht, rfl, hn, hv, hc⟩, h.method, h.values⟩, hsome.symm⟩, rfl, rfl⟩
  · rename_i hno
    rw [hget] at hno
    exact ⟨⟨h, by rw [hnone, hno]⟩, rfl, rfl⟩

/-- A request line starts a head. -/
theorem acceptLine_head {c : Zh1Conn} {n : Nat} {http10 : Bool} {method target path : Bytes}
    {query : Option Bytes} (hreq : c.req = {}) (hm : zhsTokenOk method = true)
    (hdec : zhsDecodeTarget target g.lim = .ok (path, query)) :
    ReqStage g.lim (acceptLine c n http10 method target path query) := by
  have hcstr := cstr_of_token hm
  have htarget := cstr_eq_self (zhsDecodeTarget_noNul hdec)
  show HeadRead g.lim (acceptLine c n http10 method target path query).req ∧ _ ∧ _
  simp only [acceptLine, hreq]
  refine ⟨⟨⟨rfl, ?_, ⟨path, rfl, ?_⟩, rfl, nofun, rfl, Nat.zero_le _⟩, hm, nofun⟩, trivial, trivial⟩
  · rw [hcstr]
  · rw [htarget]
    exact hdec

/-- A field is added to the head. -/
theorem acceptField_head {c : Zh1Conn} {n : Nat} {name value : Bytes} {headers : ZhsHdrs}
    (hst : c.state = .headers) (hs : ReqStage g.lim c) (hname : zhsTokenOk name = true)
    (hvalue : zhsValueOk value = true)
    (hadd : c.req.headers.add name value g.lim true = .ok headers) :
    ReqStage g.lim (acceptField c n name value headers) := by
  simp only [ReqStage, acceptField, hst] at hs ⊢
  obtain ⟨⟨⟨hm, hh, ht, ha, hn, hv, hc⟩, htok, hvals⟩, hnone, hbody⟩ := hs
  obtain ⟨hv', hc'⟩ := storedFields_add hv hname (.inl rfl) hadd
  refine ⟨⟨⟨hm, hh, ht, ha, ?_, hv', hc'⟩, htok, ?_⟩, hnone, hbody⟩
  · intro f hf
    rcases List.mem_append.mp hf with hf | hf
    · exact hn f hf
    · rw [List.mem_singleton.mp hf]
      exact hname
  · intro f hf
    rcases List.mem_append.mp hf with hf | hf
    · exact hvals f hf
    · rw [List.mem_singleton.mp hf]
      exact hvalue

/-- The head with more of the body. -/
theorem HeadEnd.withBody {lim : ZhsLimits} {req : HttpReq} (h : HeadEnd lim req) (b : Bytes) :
    HeadEnd lim { req with body := b } := by
  obtain ⟨⟨⟨hm, hh, ht, ha, hn, hv, hc⟩, htok, hvals⟩, hhost⟩ := h
  exact ⟨⟨⟨hm, hh, ht, ha, hn, hv, hc⟩, htok, hvals⟩, hhost⟩

/-- **A move keeps the invariant of the request in progress.** -/
theorem H1Move.stage {c c' : Zh1Conn} {code : PCode} (h : H1Move g c code c')
    (hs : ReqStage g.lim c) : ReqStage g.lim c' := by
  cases h with
  | wait => exact hs
  | close hdead =>
    simp only [ReqStage, hdead]
  | reqline hst hm hdec =>
    simp only [ReqStage, hst] at hs
    exact acceptLine_head g hs hm hdec
  | field hst hname hvalue hadd => exact acceptField_head g hst hs hname hvalue hadd
  | framed hst hf =>
    rename_i n c₁
    simp only [ReqStage, hst] at hs
    obtain ⟨hread, hnone, hbody⟩ := hs
    obtain ⟨hend, hhdrs, hbody'⟩ :=
      h1Authority_head (c := { c with headBytes := c.headBytes + n }) hread hnone
    obtain ⟨hreq, hcase⟩ := h1Framing_ok g hf
    have hnil : (h1Authority { c with headBytes := c.headBytes + n }).req.body = [] :=
      hbody'.trans hbody
    rcases hcase with ⟨hst', hdecl⟩ | ⟨hst', hhon, hzero, hle⟩
    · simp only [ReqStage, hst', hreq]
      exact ⟨hend, hdecl, by rw [hnil]; exact Nat.zero_le _⟩
    · simp only [ReqStage, hst', hreq, LengthLeft, hnil, List.length_nil, Nat.zero_add]
      exact ⟨hend, ⟨hhon, hzero⟩, hle⟩
  | noBody => exact hs
  | bodyPart hst hlt =>
    simp only [ReqStage, LengthLeft, hst, List.length_append] at hs ⊢
    obtain ⟨hend, ⟨hhon, hzero⟩, hle⟩ := hs
    have hsum : ∀ n b : Nat, b < c.clRemaining → n + b + (c.clRemaining - b) =
        n + c.clRemaining := by omega
    rw [hsum _ _ hlt]
    exact ⟨hend.withBody _, ⟨hhon, fun hd => by rw [hzero hd, Nat.zero_sub]⟩, hle⟩
  | bodyEnd hst heq =>
    simp only [ReqStage, LengthLeft, hst, List.length_append, heq] at hs ⊢
    obtain ⟨hend, ⟨hhon, -⟩, hle⟩ := hs
    exact ⟨hend.withBody _, ⟨hhon, fun _ => trivial⟩, hle⟩
  | lastChunk hst =>
    simp only [ReqStage, hst] at hs ⊢
    exact hs
  | chunk hst hsize =>
    simp only [ReqStage, hst] at hs ⊢
    obtain ⟨hend, hdecl, hle⟩ := hs
    exact ⟨hend, hdecl, by omega⟩
  | noData hst h0 =>
    simp only [ReqStage, hst, h0, Nat.add_zero] at hs ⊢
    exact hs
  | chunkPart hst hlt =>
    simp only [ReqStage, hst, List.length_append] at hs ⊢
    obtain ⟨hend, hdecl, hle⟩ := hs
    exact ⟨hend.withBody _, hdecl, by omega⟩
  | chunkEnd hst heq =>
    simp only [ReqStage, hst, List.length_append, heq] at hs ⊢
    obtain ⟨hend, hdecl, hle⟩ := hs
    exact ⟨hend.withBody _, hdecl, hle⟩
  | crlf hst =>
    simp only [ReqStage, hst] at hs ⊢
    exact hs
  | trailer hst =>
    simp only [ReqStage, hst] at hs ⊢
    exact hs
  | trailerEnd hst =>
    simp only [ReqStage, hst] at hs ⊢
    exact hs

/-- A complete request is fit for the handler. -/
theorem dispatched_of_complete {c c' : Zh1Conn} (h : H1Move g c .complete c')
    (hs : ReqStage g.lim c) : Dispatched g.lim c'.req := by
  have hs' := h.stage g hs
  obtain ⟨-, ⟨hst, h0⟩ | hst⟩ := h.complete_state g
  · simp only [ReqStage, LengthLeft, hst, h0, Nat.add_zero] at hs'
    obtain ⟨hend, ⟨hhon, -⟩, hle⟩ := hs'
    exact ⟨hend, hhon, hle⟩
  · simp only [ReqStage, hst] at hs'
    obtain ⟨hend, hdecl, hle⟩ := hs'
    exact ⟨hend, .inl hdecl, hle⟩

/-- Flags of the request object are no part of what was received. -/
theorem Dispatched.flags {lim : ZhsLimits} {req : HttpReq} (h : Dispatched lim req)
    (version streamId : Nat) (secure wsUpgrade responded : Bool) :
    Dispatched lim { req with version, secure, streamId, wsUpgrade, responded } := by
  obtain ⟨⟨⟨⟨hm, hh, ht, ha, hn, hv, hc⟩, htok, hvals⟩, hhost⟩, hlen, hbody⟩ := h
  exact ⟨⟨⟨⟨hm, hh, ht, ha, hn, hv, hc⟩, htok, hvals⟩, hhost⟩, hlen, hbody⟩

/-- `h1_finish` logs the request and leaves the stage as it was. -/
theorem h1Finish_inv {c : Zh1Conn} (hi : ReqInv g.lim c) (hd : Dispatched g.lim c.req)
    (hst : c.state = .bodyCl ∧ c.clRemaining = 0 ∨ c.state = .trailer) :
    ReqInv g.lim (h1Finish g c).2 := by
  obtain ⟨out, closeAfter, responded, reqCount, -, heq⟩ := h1Finish_eq g c
  have hreq : Dispatched g.lim (h1Request g c) := hd.flags _ _ _ _ _
  have hreq' : Dispatched g.lim { h1Request g c with responded } := hd.flags _ _ _ _ _
  rw [heq]
  refine ⟨?_, ?_⟩
  · intro d hd'
    rcases List.mem_append.mp hd' with hd' | hd'
    · exact hi.log d hd'
    · rw [List.mem_singleton.mp hd']
      exact hreq
  · rcases hst with ⟨hst, h0⟩ | hst
    · have hs := hi.stage
      simp only [ReqStage, LengthLeft, hst, h0, Nat.add_zero] at hs ⊢
      exact ⟨hreq'.toHeadEnd, hs.2.1, hs.2.2⟩
    · have hs := hi.stage
      simp only [ReqStage, hst] at hs ⊢
      exact ⟨hreq'.toHeadEnd, hs.2⟩

/-- **A feed keeps the invariant.** -/
theorem feedLoop_requests {s : FeedSt} (hs : ReqInv g.lim s.c) :
    ReqInv g.lim (feedLoop g s).c := by
  have hmove : ∀ c c' code, ReqInv g.lim c → H1Move g c code c' → ReqInv g.lim c' := by
    intro c c' code hi h
    refine ⟨?_, h.stage g hi.stage⟩
    by_cases hcode : code = .close
    · subst hcode
      cases h with
      | close _ hlog => rw [hlog]; exact hi.log
    · rw [(h.frame g hcode).1]
      exact hi.log
  have hfinish : ∀ c c', ReqInv g.lim c → H1Move g c .complete c' →
      ReqInv g.lim (h1Finish g c').2 := by
    intro c c' hi h
    exact h1Finish_inv g (hmove _ _ _ hi h) (dispatched_of_complete g h hi.stage)
      (h.complete_state g).2
  refine feedLoop_inv g (I := ReqInv g.lim) (Q := ReqInv g.lim) ?_ ?_ ?_ ?_ ?_ hs
  · exact fun c c' hi h => hmove _ _ _ hi h
  · exact fun c c' hi h => hmove _ _ _ hi h
  · exact fun c c' hi h => hmove _ _ _ hi h
  · exact fun c c' hi h _ => hfinish _ _ hi h
  · intro c c' hi h _ _
    exact ⟨(hfinish _ _ hi h).log, rfl⟩

/-- **Every request an HTTP/1.1 connection dispatches**, over any run. -/
theorem h1Run_requests (evs : List H1Event) : ReqInv g.lim (H1Run.run g {} evs).c := by
  have hrun : ∀ r : H1Run, ReqInv g.lim r.c → ReqInv g.lim (H1Run.run g r evs).c := by
    induction evs with
    | nil => exact fun r hr => hr
    | cons ev evs ih =>
      intro r hr
      refine ih (r.step g ev) ?_
      cases ev with
      | feed x => exact feedLoop_requests g hr
      | drain n => exact ⟨hr.log, hr.stage⟩
      | graceful => exact ⟨hr.log, hr.stage⟩
  exact hrun {} ⟨nofun, rfl⟩

/-- The octets of a dispatched request are clean. -/
theorem Dispatched.clean {lim : ZhsLimits} {req : HttpReq} (h : Dispatched lim req) :
    req.raw.Clean := by
  refine ⟨h.method, h.values, ?_⟩
  intro a ha
  rw [RawReq.received, h.host, Option.or_self] at ha
  obtain ⟨f, hf, rfl⟩ := Option.map_eq_some_iff.mp ha
  exact h.values f (List.mem_of_find?_eq_some hf)

end Zcio
