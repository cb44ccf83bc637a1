import Mathlib.Data.List.Induction
import Zcio.H3.Conn

/-!
# Zcio.H3.Goaway

What the GOAWAY of a connection is worth. The client takes every request stream from the id that it
carries on for not processed, and this server always sends id 0. So the frame is honest in a run
exactly if no request is handed to the handler on a connection that sends it, before or after;
`H3ConnStep.breaks` is the step that makes it a lie.
-/

namespace Zcio

/-! ### Streams of the table

A stream that reads a request hands it over when its last octet comes, and not before. -/

/-- The reads of `pass` bring the end of a request that the server takes. -/
def Zh3Stream.completes (lim : ZhsLimits) (st : Zh3Stream) (pass : H3Pass) : Bool :=
  !st.done && !st.isUni && pass.ending == .fin && st.judge lim (st.inp ++ pass.chunks.flatten)

/-- A stream of the table: done, unidirectional, or read on. -/
def H3Live (lim : ZhsLimits) (st : Zh3Stream) : Prop :=
  st.done = true ∨ st.isUni = true ∧ st.log = [] ∨
    st.Reading ∧ H3Keeps lim (fun ext => st.judge lim (st.inp ++ ext)) (st, none)

theorem h3StreamNew_live (lim : ZhsLimits) (id : Nat) (isUni : Bool) : H3Live lim (h3StreamNew id isUni) := by
  cases isUni with
  | true => exact Or.inr (Or.inl ⟨rfl, rfl⟩)
  | false =>
    rcases h3StreamNew_between lim id with ⟨hread, hfresh, -, hend⟩ | ⟨hdone, -⟩
    · exact Or.inr (Or.inr ⟨hread, hfresh, fun ext => rfl, hend⟩)
    · cases hdone

theorem H3Between.live {lim : ZhsLimits} {f : Bytes → Bool} {st : Zh3Stream} (h : H3Between lim f st) :
    H3Live lim st := by
  rcases h with ⟨hread, hfresh, hjudge, hend⟩ | ⟨hdone, -⟩
  · exact Or.inr (Or.inr ⟨hread, hfresh, fun ext => rfl, (hjudge []).trans hend⟩)
  · exact Or.inl hdone

/-- A unidirectional stream is discarded. -/
theorem h3ReadChunks_uni (lim : ZhsLimits) {st : Zh3Stream} (huni : st.isUni = true) (chunks : List Bytes) :
    h3ReadChunks lim st chunks = (st, none) := by
  induction chunks with
  | nil => rfl
  | cons chunk chunks ih => rw [h3ReadChunks, if_pos huni, ih]

variable {g : H3Cfg}

/-- FIN and a reset are the end of a stream that is read. -/
theorem h3PumpStream_ended {st : Zh3Stream} {f : Bytes → Bool} (hread : st.Reading)
    (hkeeps : H3Keeps g.lim f (st, none)) {pass : H3Pass} (hend : pass.ending ≠ .wantRead) :
    (h3PumpStream g st pass).done = true ∧
      (pass.ending = .reset → (h3PumpStream g st pass).log = []) := by
  obtain ⟨hread₁, -⟩ := h3ReadChunks_keeps pass.chunks hread hkeeps
  rw [h3PumpStream, hread.done, if_neg Bool.false_ne_true]
  split
  · rename_i st₁ e hres
    rw [hres] at hread₁
    exact ⟨rfl, fun _ => hread₁.log⟩
  · rename_i st₁ hres
    rw [hres] at hread₁
    cases hpass : pass.ending with
    | reset => exact ⟨rfl, fun _ => hread₁.log⟩
    | wantRead => exact absurd hpass hend
    | fin =>
      refine ⟨?_, fun h => by cases h⟩
      obtain ⟨hbidi, -, hdispatched, -, -⟩ := hread₁
      dsimp only at hbidi hdispatched ⊢
      rw [if_pos (by rw [hbidi]; rfl), h3MaybeDispatch, if_neg (by simp [hbidi, hdispatched])]
      split
      · rfl
      · rfl

/-- What a pass hands over: nothing, unless it completes a request. -/
def HandsOver (lim : ZhsLimits) (st : Zh3Stream) (pass : H3Pass) (st' : Zh3Stream) : Prop :=
  H3Live lim st' ∧ ∃ new, st'.log = st.log ++ new ∧ (new ≠ [] ↔ st.completes lim pass = true)

/-- A pass that ends in nothing. -/
theorem HandsOver.none {lim : ZhsLimits} {st st' : Zh3Stream} {pass : H3Pass} (hlive : H3Live lim st')
    (hlog : st'.log = st.log) (hno : st.completes lim pass = false) : HandsOver lim st pass st' := by
  refine ⟨hlive, [], by rw [hlog, List.append_nil], ?_⟩
  rw [hno]
  simp

/-- **One pass** of a stream of the table. -/
theorem h3PumpStream_live {st : Zh3Stream} (h : H3Live g.lim st) (pass : H3Pass) :
    HandsOver g.lim st pass (h3PumpStream g st pass) := by
  -- a stream that is done, a one-way stream, or one that reads its request
  rcases h with hdone | ⟨huni, hlog⟩ | ⟨hread, hkeeps⟩
  · -- nothing is pumped any more
    rw [h3PumpStream, if_pos hdone]
    exact .none (Or.inl hdone) rfl (by simp [Zh3Stream.completes, hdone])
  · -- a one-way stream hands over no request
    have hno : st.completes g.lim pass = false := by simp [Zh3Stream.completes, huni]
    have hlog' : (h3PumpStream g st pass).log = st.log ∧ H3Live g.lim (h3PumpStream g st pass) := by
      rw [h3PumpStream]
      split
      · rename_i hdone
        exact ⟨rfl, Or.inl hdone⟩
      · rw [h3ReadChunks_uni g.lim huni]
        dsimp only
        split
        · exact ⟨rfl, Or.inl rfl⟩
        all_goals
          rw [if_neg (by rw [huni]; exact Bool.false_ne_true)]
          split
          · exact ⟨rfl, Or.inl rfl⟩
          · exact ⟨rfl, Or.inr (Or.inl ⟨huni, hlog⟩)⟩
    exact .none hlog'.2 hlog'.1 hno
  · have hbetween : H3Between g.lim (fun ext => st.judge g.lim (st.inp ++ ext)) st := Or.inl ⟨hread, hkeeps⟩
    cases hend : pass.ending with
    -- more is to come, and nothing was handed over
    | wantRead =>
      have hpump := h3PumpStream_between g hbetween hend
      have hlog : (h3PumpStream g st pass).log = [] := by
        rcases hpump with ⟨hread', -⟩ | ⟨-, hlog, -⟩
        · exact hread'.log
        · exact hlog
      exact .none hpump.live (hlog.trans hread.log.symm) (by simp [Zh3Stream.completes, hend])
    -- the end of the stream decides whether its frames were a request
    | fin =>
      have hlast := h3PumpStream_last g hbetween hend
      have hdone := @h3PumpStream_ended _ _ _ hread hkeeps pass (by rw [hend]; exact fun h => by cases h)
      refine ⟨Or.inl hdone.1, _, by rw [hread.log, List.nil_append], ?_⟩
      rw [hlast, Zh3Stream.completes, hread.done, hread.bidi, hend]
      simp
    -- a reset ends the stream without a request
    | reset =>
      obtain ⟨hdone, hlog⟩ := @h3PumpStream_ended _ _ _ hread hkeeps pass (by rw [hend]; exact fun h => by cases h)
      exact .none (Or.inl hdone) ((hlog hend).trans hread.log.symm) (by simp [Zh3Stream.completes, hend])

/-! ### The pump

The requests handed over in one visit are those completed in it. -/

/-- Some stream is brought to the end of a request. -/
def Completes (lim : ZhsLimits) (v : H3Visit) (streams : List Zh3Stream) : Prop :=
  ∃ st ∈ streams, st.completes lim (v.reads st.id) = true

/-- What a visit does to a connection, from slot `i` of the table on: the streams stay live, and
requests are handed over just where a stream completes one. -/
structure Pumped (lim : ZhsLimits) (v : H3Visit) (c : Zh3Conn) (i : Nat) (c' : Zh3Conn) : Prop where
  rest : c' = { c with streams := c'.streams, log := c'.log }
  live : ∀ st ∈ c'.streams, H3Live lim st
  log : ∃ new, c'.log = c.log ++ new ∧ (new ≠ [] ↔ Completes lim v (c.streams.drop i))

/-- One more slot in front of those that are visited. -/
theorem Pumped.round {lim : ZhsLimits} {v : H3Visit} {c c' : Zh3Conn} {st : Zh3Stream} {new : List HttpReq}
    {streams rest : List Zh3Stream} {i j : Nat}
    (h : Pumped lim v { c with streams, log := c.log ++ new } j c')
    (hdrop : c.streams.drop i = st :: rest) (hmem : ∀ s, s ∈ streams.drop j ↔ s ∈ rest)
    (hnew : new ≠ [] ↔ st.completes lim (v.reads st.id) = true) : Pumped lim v c i c' := by
  obtain ⟨hrest, hlive, more, hlog, hmore⟩ := h
  refine ⟨hrest, hlive, new ++ more, by rw [hlog, List.append_assoc], ?_⟩
  have hsplit : Completes lim v (c.streams.drop i) ↔
      st.completes lim (v.reads st.id) = true ∨ Completes lim v (streams.drop j) := by
    rw [hdrop, Completes, List.exists_mem_cons_iff, Completes]
    simp only [hmem]
  rw [hsplit, ← hnew, ← hmore, ne_eq, List.append_eq_nil_iff, not_and_or]

/-- **The pump** visits every stream once. -/
theorem h3PumpStreams_pumped (v : H3Visit) {c : Zh3Conn} (hlive : ∀ st ∈ c.streams, H3Live g.lim st) :
    Pumped g.lim v c 0 (h3PumpStreams g v c) := by
  refine Lib.loop_induct (h3PumpRound_decreases g v)
    (P := fun s c' => (∀ st ∈ s.1.streams, H3Live g.lim st) → Pumped g.lim v s.1 s.2 c') ?_ ?_ (c, 0) hlive
  · rintro ⟨c, i⟩ c' hround hlive
    unfold h3PumpRound at hround
    dsimp only at hround hlive ⊢
    split at hround
    · rename_i hnone
      cases hround
      refine ⟨rfl, hlive, [], (List.append_nil _).symm, ?_⟩
      rw [List.drop_eq_nil_of_le (List.getElem?_eq_none_iff.mp hnone)]
      simp [Completes]
    · split at hround
      · cases hround
      · cases hround
  · rintro ⟨c, i⟩ ⟨c₁, i₁⟩ c' hround ih hlive
    unfold h3PumpRound at hround
    dsimp only at hround hlive ih ⊢
    split at hround
    · cases hround
    · rename_i st hst
      obtain ⟨hi, hget⟩ := List.getElem?_eq_some_iff.mp hst
      obtain ⟨hst', new, hlog, hnew⟩ := h3PumpStream_live (hlive st (List.mem_of_getElem? hst)) (v.reads st.id)
      have hset : ∀ s ∈ c.streams.set i (h3PumpStream g st (v.reads st.id)), H3Live g.lim s := by
        intro s hs
        rcases List.mem_or_eq_of_mem_set hs with hs | rfl
        · exact hlive s hs
        · exact hst'
      have hdrop : c.streams.drop i = st :: c.streams.drop (i + 1) := by
        rw [List.drop_eq_getElem_cons hi, hget]
      have hadd : (h3PumpStream g st (v.reads st.id)).log.drop st.log.length = new := by
        rw [hlog, List.drop_left]
      rw [hadd] at hround
      have hi' : i < (c.streams.set i (h3PumpStream g st (v.reads st.id))).length := by rwa [List.length_set]
      have hbehind : (c.streams.set i (h3PumpStream g st (v.reads st.id))).drop (i + 1) =
          c.streams.drop (i + 1) := List.drop_set_of_lt (Nat.lt_succ_self i)
      split at hround
      · -- the last stream moves into the slot
        cases hround
        refine (ih fun s hs => hset s (Lib.mem_of_mem_swapRemove hi' hs)).round hdrop (fun s => ?_) hnew
        rw [(Lib.drop_swapRemove_perm hi').mem_iff, hbehind]
      · cases hround
        refine (ih hset).round hdrop (fun s => ?_) hnew
        rw [hbehind]

/-! ### The connection

A GOAWAY is honest if no request is handed over behind it. -/

/-- What opens the control stream, and the GOAWAY. -/
def h3Preface : Bytes := [0x00, 0x04, 0x00]
def h3Goaway : Bytes := [0x07, 0x01, 0x00]

/-- The ids that the client reads in the GOAWAY frames of the control stream, behind its type. -/
def Zh3Conn.goaways (c : Zh3Conn) : List Nat :=
  match c.control with
  | none => []
  | some out => (h3Frames (out.drop 1)).1.filterMap fun f =>
    if f.1 = H3_FRAME_GOAWAY then (h3Varint f.2).map (·.2) else none

/-- **A GOAWAY is honest**: every request stream handed to the handler has a smaller id. -/
def H3Honest (c : Zh3Conn) : Prop := ∀ id ∈ c.goaways, ∀ req ∈ c.log, req.streamId < id

/-- **The invariant of a connection**: its streams are live, and on the control stream there is one
GOAWAY from the moment it is recorded; then the connection is wound down. -/
structure H3ConnInv (lim : ZhsLimits) (c : Zh3Conn) : Prop where
  live : ∀ st ∈ c.streams, H3Live lim st
  control : c.goawaySent = false ∧ (c.control = none ∨ c.control = some h3Preface) ∨
    c.goawaySent = true ∧ c.draining = true ∧ c.control = some (h3Preface ++ h3Goaway)

theorem H3ConnInv.goaways {lim : ZhsLimits} {c : Zh3Conn} (h : H3ConnInv lim c) :
    c.goaways = if c.goawaySent then [0] else [] := by
  have hsettings : h3Frames (h3Preface.drop 1) = ([(H3_FRAME_SETTINGS, [])], []) := by
    rw [h3Frames_some (show h3FrameAt (h3Preface.drop 1) = some (2, 4, 0) by decide), h3Frames_none (by decide)]
    decide
  have hgoaway : h3Frames ((h3Preface ++ h3Goaway).drop 1) =
      ([(H3_FRAME_SETTINGS, []), (H3_FRAME_GOAWAY, [0x00])], []) := by
    have hsecond : h3Frames h3Goaway = ([(H3_FRAME_GOAWAY, [0x00])], []) := by
      rw [h3Frames_some (show h3FrameAt h3Goaway = some (2, 7, 1) by decide), h3Frames_none (by decide)]
      decide
    have hfirst : ((h3Preface ++ h3Goaway).drop 1).drop 2 = h3Goaway := rfl
    rw [h3Frames_some (show h3FrameAt ((h3Preface ++ h3Goaway).drop 1) = some (2, 4, 0) by decide), hfirst,
      List.drop_zero, hsecond]
    decide
  rw [Zh3Conn.goaways]
  rcases h.control with ⟨hsent, hnone | hpre⟩ | ⟨hsent, -, hboth⟩
  · rw [hnone, hsent]
    rfl
  · rw [hpre, hsent]
    dsimp only
    rw [hsettings]
    rfl
  · rw [hboth, hsent]
    dsimp only
    rw [hgoaway]
    rfl

/-- The GOAWAY carries 0, and no id is below that. -/
theorem H3ConnInv.honest_iff {lim : ZhsLimits} {c : Zh3Conn} (h : H3ConnInv lim c) :
    H3Honest c ↔ c.goawaySent = false ∨ c.log = [] := by
  rw [H3Honest, h.goaways]
  cases hsent : c.goawaySent with
  | false => simp
  | true => simp [List.eq_nil_iff_forall_not_mem]

/-! ### Steps

Only a visit that completes a request on a draining connection breaks the promise. -/

theorem h3AcceptStreams_spec (lim : ZhsLimits) (accepted : List (Nat × Bool)) {c : Zh3Conn}
    (hlive : ∀ st ∈ c.streams, H3Live lim st) :
    ∃ requests streams, h3AcceptStreams lim accepted c = { c with requests, streams } ∧
      ∀ st ∈ streams, H3Live lim st := by
  unfold h3AcceptStreams
  generalize accepted.take ZH3_ACCEPT_CAP = accepted
  induction accepted generalizing c with
  | nil => exact ⟨_, _, rfl, hlive⟩
  | cons s accepted ih =>
    have hpush : ∀ st ∈ c.streams ++ [h3StreamNew s.1 s.2], H3Live lim st := by
      intro st hst
      rcases List.mem_append.mp hst with hst | hst
      · exact hlive st hst
      · rw [List.mem_singleton.mp hst]
        exact h3StreamNew_live lim s.1 s.2
    have hone : ∃ requests streams, h3AcceptStream lim c s = { c with requests, streams } ∧
        ∀ st ∈ streams, H3Live lim st := by
      unfold h3AcceptStream
      dsimp only
      split
      · split
        · exact ⟨_, _, rfl, hlive⟩
        · exact ⟨_, _, rfl, hpush⟩
      · split
        · exact ⟨_, _, rfl, hlive⟩
        · exact ⟨_, _, rfl, hpush⟩
    obtain ⟨requests, streams, heq, hlive'⟩ := hone
    rw [List.foldl_cons, heq]
    obtain ⟨requests', streams', heq', hlive''⟩ := @ih { c with requests, streams } hlive'
    exact ⟨requests', streams', heq', hlive''⟩

theorem zh3Process_spec (v : H3Visit) {c : Zh3Conn} (h : H3ConnInv g.lim c) :
    H3ConnInv g.lim (zh3Process g v c) ∧ (zh3Process g v c).goawaySent = c.goawaySent ∧
      ∃ new, (zh3Process g v c).log = c.log ++ new ∧
        (c.draining = true → (new ≠ [] ↔ Completes g.lim v c.streams)) := by
  -- the streams are pumped in both states of the connection
  have hpump : ∀ {c₁ : Zh3Conn}, H3ConnInv g.lim c₁ →
      H3ConnInv g.lim (h3ConnClosed v.closed (h3PumpStreams g v c₁)) ∧
        (h3ConnClosed v.closed (h3PumpStreams g v c₁)).goawaySent = c₁.goawaySent ∧
        ∃ new, (h3ConnClosed v.closed (h3PumpStreams g v c₁)).log = c₁.log ++ new ∧
          (new ≠ [] ↔ Completes g.lim v c₁.streams) := by
    intro c₁ h₁
    obtain ⟨hrest, hlive, hlog⟩ := h3PumpStreams_pumped v h₁.live
    rw [h3ConnClosed, hrest]
    exact ⟨⟨hlive, h₁.control⟩, rfl, hlog⟩
  rw [zh3Process]
  cases hdraining : c.draining with
  -- draining: no stream is accepted, so that the streams are those of before
  | true =>
    obtain ⟨hinv, hsent, new, hlog, hnew⟩ := hpump h
    exact ⟨hinv, hsent, new, hlog, fun _ => hnew⟩
  -- open: the control stream, then the streams accepted, then the pump
  | false =>
    have hunsent : c.goawaySent = false := by
      rcases h.control with ⟨hsent, -⟩ | ⟨-, hd, -⟩
      · exact hsent
      · rw [hdraining] at hd
        cases hd
    have hopen : H3ConnInv g.lim (h3OpenControl v.credit c) ∧
        (h3OpenControl v.credit c).goawaySent = c.goawaySent ∧ (h3OpenControl v.credit c).log = c.log := by
      rw [h3OpenControl]
      split
      · exact ⟨h, rfl, rfl⟩
      · exact ⟨⟨h.live, Or.inl ⟨hunsent, Or.inr rfl⟩⟩, rfl, rfl⟩
    obtain ⟨hinv₁, hsent₁, hlog₁⟩ := hopen
    obtain ⟨requests, streams, heq, hlive⟩ := h3AcceptStreams_spec g.lim v.accepted hinv₁.live
    rw [if_neg Bool.false_ne_true, heq]
    obtain ⟨hinv, hsent, new, hlog, -⟩ := @hpump
      { h3OpenControl v.credit c with requests, streams } ⟨hlive, hinv₁.control⟩
    exact ⟨hinv, hsent.trans hsent₁, new, hlog.trans (by rw [hlog₁]), nofun⟩

theorem zh3Graceful_spec {lim : ZhsLimits} {c : Zh3Conn} (h : H3ConnInv lim c) :
    H3ConnInv lim (zh3Graceful c) ∧ (zh3Graceful c).goawaySent = c.control.isSome ∧
      (zh3Graceful c).log = c.log := by
  rw [zh3Graceful, h3SendGoaway]
  rcases h.control with ⟨hsent, hnone | hpre⟩ | ⟨hsent, -, hboth⟩
  · dsimp only
    rw [hnone]
    exact ⟨⟨h.live, Or.inl ⟨hsent, Or.inl rfl⟩⟩, hsent, rfl⟩
  · dsimp only
    rw [hpre]
    dsimp only
    rw [hsent]
    exact ⟨⟨h.live, Or.inr ⟨rfl, rfl, rfl⟩⟩, rfl, rfl⟩
  · dsimp only
    rw [hboth]
    dsimp only
    rw [hsent]
    exact ⟨⟨h.live, Or.inr ⟨rfl, rfl, rfl⟩⟩, rfl, rfl⟩

/-- **A step that makes the GOAWAY a lie**: it is sent with requests handed over before, or it was sent
and a stream completes a request. -/
def H3ConnStep.Breaks (lim : ZhsLimits) (c : Zh3Conn) (step : H3ConnStep) : Prop :=
  c.freed = false ∧
    match step with
    | .process v => c.goawaySent = true ∧ Completes lim v c.streams
    | .graceful => c.control.isSome = true ∧ c.log ≠ []

/-- **One step** of an honest connection. -/
theorem h3ConnStep_honest {c : Zh3Conn} (h : H3ConnInv g.lim c) (step : H3ConnStep) :
    H3ConnInv g.lim (h3ConnStep g c step) ∧
      (H3Honest c → (H3Honest (h3ConnStep g c step) ↔ ¬ step.Breaks g.lim c)) := by
  unfold h3ConnStep
  cases hfreed : c.freed with
  | true =>
    refine ⟨h, fun hhonest => ⟨fun _ hbreaks => ?_, fun _ => hhonest⟩⟩
    have hlive := hbreaks.1
    rw [hfreed] at hlive
    cases hlive
  | false =>
    rw [if_neg Bool.false_ne_true]
    cases step with
    | process v =>
      obtain ⟨hinv, hsent, new, hlog, hnew⟩ := zh3Process_spec v h
      refine ⟨hinv, fun hhonest => ?_⟩
      rw [hinv.honest_iff, hsent, hlog, H3ConnStep.Breaks]
      cases hgo : c.goawaySent with
      | false => simp
      | true =>
        have hdraining : c.draining = true := by
          rcases h.control with ⟨hno, -⟩ | ⟨-, hd, -⟩
          · rw [hgo] at hno
            cases hno
          · exact hd
        have hnil : c.log = [] := (h.honest_iff.mp hhonest).resolve_left (by rw [hgo]; exact nofun)
        rw [hnil, ← hnew hdraining]
        simp [hfreed]
    | graceful =>
      obtain ⟨hinv, hsent, hlog⟩ := zh3Graceful_spec h
      refine ⟨hinv, fun _ => ?_⟩
      rw [hinv.honest_iff, hsent, hlog, H3ConnStep.Breaks]
      cases c.control.isSome with
      | false => simp
      | true => simp [hfreed]

/-! ### Runs -/

theorem h3ConnRun_inv (credit : Bool) (steps : List H3ConnStep) : H3ConnInv g.lim (h3ConnRun g credit steps) := by
  have hstart : H3ConnInv g.lim (h3ConnNew credit) := by
    cases credit with
    | true => exact ⟨fun _ hst => (List.not_mem_nil hst).elim, Or.inl ⟨rfl, Or.inr rfl⟩⟩
    | false => exact ⟨fun _ hst => (List.not_mem_nil hst).elim, Or.inl ⟨rfl, Or.inl rfl⟩⟩
  induction steps using List.reverseRecOn with
  | nil => exact hstart
  | append_singleton steps step ih =>
    rw [h3ConnRun, List.foldl_append]
    exact (h3ConnStep_honest ih step).1

variable (g)

/-- **The GOAWAY is honest in every state of a run** exactly if no step makes it a lie. -/
theorem h3ConnRun_honest (credit : Bool) (steps : List H3ConnStep) :
    (∀ pre, pre <+: steps → H3Honest (h3ConnRun g credit pre)) ↔
      ∀ pre step, pre ++ [step] <+: steps → ¬ step.Breaks g.lim (h3ConnRun g credit pre) := by
  have hone : ∀ pre step, H3Honest (h3ConnRun g credit pre) →
      (H3Honest (h3ConnRun g credit (pre ++ [step])) ↔ ¬ step.Breaks g.lim (h3ConnRun g credit pre)) := by
    intro pre step hhonest
    rw [h3ConnRun, List.foldl_append]
    exact (h3ConnStep_honest (h3ConnRun_inv credit pre) step).2 hhonest
  constructor
  · intro hall pre step hpre
    have hshort : pre <+: steps := (List.prefix_append pre [step]).trans hpre
    exact (hone pre step (hall pre hshort)).mp (hall _ hpre)
  · intro hgood pre
    induction pre using List.reverseRecOn with
    | nil =>
      intro _
      refine (h3ConnRun_inv credit []).honest_iff.mpr (Or.inr ?_)
      cases credit with
      | true => rfl
      | false => rfl
    | append_singleton pre step ih =>
      intro hpre
      have hshort : pre <+: steps := (List.prefix_append pre [step]).trans hpre
      exact (hone pre step (ih hshort)).mpr (hgood pre step hpre)

/-- A `GET /` on the first request stream, and a graceful shutdown behind its response. -/
theorem h3_goaway_lies :
    ¬ H3Honest (h3ConnRun H3Cfg.silent true
      [.process { accepted := [(0, false)], reads := fun _ => { chunks := [h3HalfFrame.take 10], ending := .fin } },
        .graceful]) := by
  rw [(h3ConnRun_inv true _).honest_iff]
  decide +kernel

end Zcio
