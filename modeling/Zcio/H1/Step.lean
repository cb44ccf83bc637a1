import Zcio.H1.Conn

/-!
# Zcio.H1.Step

The three nested loops of the parser as one. `zh1_feed_` calls a stage, and two of the
stages loop over lines or chunks themselves; `h1Round` is a single round of whichever loop
the connection is in, and `feedLoop_eq` says that running `h1Round` to the end is the feed
loop. Every statement about whole runs is then an induction over rounds.

What a round can do to its input is said once, in `h1Round_cases`: it reads a definite
number of octets and looks at no others, or it waits and can be resumed, or it refuses.
-/

namespace Zcio

variable (g : H1Cfg)

/-- A round of the chunk loop as a stage: another round is `P_NEXT`. -/
def chunkStage : (Zh1Conn × Bytes) ⊕ Stage → Stage
  | .inl (c, inp) => ⟨.next, c, inp⟩
  | .inr st => st

/-- A round of the header loop as a stage; the loop's end goes on to the framing. -/
def headStage : (Zh1Conn × Bytes) ⊕ H1HeadEnd → Stage
  | .inl (c, inp) => ⟨.next, c, inp⟩
  | .inr (.stop st) => st
  | .inr (.done c inp) => h1HeadDone g c inp

/-- One round of the innermost loop the connection is in. -/
def h1Round (c : Zh1Conn) (inp : Bytes) : Stage :=
  match c.state with
  | .reqline => h1Reqline g c inp
  | .headers => headStage g (h1HeaderRound g (c, inp))
  | .bodyCl => h1BodyCl c inp
  | .chunkSize | .chunkData | .chunkCrlf | .trailer => chunkStage (h1ChunkRound g (c, inp))
  | .dead => ⟨.close, c, inp⟩

/-- A round together with what the feed loop does about it. -/
def feedStep (s : FeedSt) : FeedSt ⊕ FeedRes := feedNext g s.dispatched (h1Round g s.c s.inp)

/-! ### The loops flatten

The source has a loop for the fields of a head and one for the chunks of a body. Their
rounds are made rounds of the feed loop, so that one induction serves for all three. -/

/-- The state is one of the chunked sub-states. -/
def H1State.inChunked : H1State → Bool
  | .chunkSize | .chunkData | .chunkCrlf | .trailer => true
  | _ => false

theorem h1HeaderRound_state {c c' : Zh1Conn} {inp inp' : Bytes}
    (h : h1HeaderRound g (c, inp) = .inl (c', inp')) : c'.state = c.state := by
  unfold h1HeaderRound at h
  obtain ⟨-, -, hb⟩ | ⟨_, hb⟩ | ⟨text, rest, rfl, -, -, hb⟩ :=
    h1Budgeted_cases g c inp (fun st => .inr (.stop st)) (h1HeaderText g)
  · rw [hb] at h; cases h
  · rw [hb] at h; cases h
  · rw [hb] at h
    obtain ⟨-, ht⟩ | ⟨_, ht⟩ | ⟨_, _, _, _, _, _, _, _, _, ht⟩ := h1HeaderText_cases g _ text rest
    · rw [ht] at h; cases h
    · rw [ht] at h; cases h
    · rw [ht] at h; cases h; rfl

theorem h1ChunkRound_state {c c' : Zh1Conn} {inp inp' : Bytes} (hc : c.state.inChunked = true)
    (h : h1ChunkRound g (c, inp) = .inl (c', inp')) : c'.state.inChunked = true := by
  unfold h1ChunkRound at h
  dsimp only at h
  -- the size line: a wait, a refusal or one of its two successors
  split at h
  · split at h
    · split at h <;> cases h
    · cases h
    · rename_i text consumed _
      obtain ⟨_, ht⟩ | ⟨_, _, -, -, -, ⟨-, ht⟩ | ⟨-, -, ht⟩⟩ :=
        h1ChunkSizeText_cases g c text (inp.drop consumed)
      · rw [ht] at h; cases h
      · rw [ht] at h; cases h; rfl
      · rw [ht] at h; cases h; rfl
  · -- data of a chunk, all of it or a part
    split at h
    · split at h
      · cases h
      · split at h
        · cases h
        · cases h; rfl
    · cases h; rfl
  · -- the CRLF behind a chunk
    split at h
    · split at h
      · cases h
      · cases h; rfl
    · cases h
  · -- a trailer line; only an empty one leaves the loop, and it does so by .inr
    obtain ⟨-, -, hb⟩ | ⟨_, hb⟩ | ⟨text, rest, rfl, -, -, hb⟩ :=
      h1Budgeted_cases g c inp .inr (fun c => h1TrailerText c)
    · rw [hb] at h; cases h
    · rw [hb] at h; cases h
    · rw [hb] at h
      unfold h1TrailerText at h
      split at h
      · cases h
      · cases h; exact hc

theorem h1Stage_chunked {c : Zh1Conn} (hc : c.state.inChunked = true) (inp : Bytes) :
    h1Stage g c inp = h1BodyChunk g c inp := by
  unfold h1Stage
  split <;> simp_all [H1State.inChunked]

theorem h1Round_chunked {c : Zh1Conn} (hc : c.state.inChunked = true) (inp : Bytes) :
    h1Round g c inp = chunkStage (h1ChunkRound g (c, inp)) := by
  unfold h1Round
  split <;> simp_all [H1State.inChunked]

/-- A round is the stage's result, or it goes on inside the stage's own loop and leaves
that result unchanged. -/
theorem h1Stage_round (c : Zh1Conn) (inp : Bytes) :
    h1Stage g c inp = h1Round g c inp ∨
      ((h1Round g c inp).code = .next ∧
        h1Stage g c inp = h1Stage g (h1Round g c inp).c (h1Round g c inp).inp) := by
  cases hst : c.state with
  | reqline => left; simp only [h1Stage, h1Round, hst]
  | bodyCl => left; simp only [h1Stage, h1Round, hst]
  | dead => left; simp only [h1Stage, h1Round, hst]
  | headers =>
    have hs : h1Stage g c inp = h1Headers g c inp := by simp only [h1Stage, hst]
    have hr : h1Round g c inp = headStage g (h1HeaderRound g (c, inp)) := by
      simp only [h1Round, hst]
    rw [hs, hr]
    cases hround : h1HeaderRound g (c, inp) with
    | inr r =>
      left
      have hl : h1HeaderLoop g c inp = r := Lib.loop_of_inr hround
      simp only [h1Headers, hl]
      cases r <;> rfl
    | inl s' =>
      obtain ⟨c', inp'⟩ := s'
      right
      have hst' : c'.state = .headers := by rw [h1HeaderRound_state g hround, hst]
      have hl : h1HeaderLoop g c inp = h1HeaderLoop g c' inp' := Lib.loop_of_inl hround
      refine ⟨rfl, ?_⟩
      simp only [headStage, h1Headers, hl, h1Stage, hst']
  | _ =>
    have hc : c.state.inChunked = true := by rw [hst]; rfl
    rw [h1Stage_chunked g hc, h1Round_chunked g hc]
    cases hround : h1ChunkRound g (c, inp) with
    | inr st =>
      left
      exact Lib.loop_of_inr hround
    | inl s' =>
      obtain ⟨c', inp'⟩ := s'
      right
      refine ⟨rfl, ?_⟩
      simp only [chunkStage]
      rw [h1Stage_chunked g (h1ChunkRound_state g hc hround)]
      exact Lib.loop_of_inl hround

theorem feedLoop_eq (s : FeedSt) :
    feedLoop g s =
      match feedRound g s with
      | .inl s' => feedLoop g s'
      | .inr r => r := by
  rw [feedLoop, Lib.loop_eq]
  cases feedRound g s <;> rfl

/-- **The loops flatten**: one round leaves the feed loop's result unchanged. -/
theorem feedLoop_step (s : FeedSt) :
    feedLoop g s =
      match feedStep g s with
      | .inl s' => feedLoop g s'
      | .inr r => r := by
  rcases h1Stage_round g s.c s.inp with h | ⟨hnext, h⟩
  · have hs : feedStep g s = feedRound g s := by rw [feedStep, feedRound, h]
    rw [hs]
    exact feedLoop_eq g s
  · have hs : feedStep g s =
        .inl ⟨(h1Round g s.c s.inp).c, (h1Round g s.c s.inp).inp, s.dispatched⟩ := by
      rw [feedStep, feedNext, hnext]
    have hround : feedRound g s =
        feedRound g ⟨(h1Round g s.c s.inp).c, (h1Round g s.c s.inp).inp, s.dispatched⟩ := by
      rw [feedRound, feedRound, h]
    rw [hs]
    dsimp only
    rw [feedLoop_eq g s, hround, ← feedLoop_eq]

theorem feedLoop_of_inl {s s' : FeedSt} (h : feedStep g s = .inl s') :
    feedLoop g s = feedLoop g s' := by
  rw [feedLoop_step, h]

theorem feedLoop_of_inr {s : FeedSt} {r : FeedRes} (h : feedStep g s = .inr r) :
    feedLoop g s = r := by
  rw [feedLoop_step, h]

/-- A round that leads on within a request. -/
theorem feedLoop_next {c c' : Zh1Conn} {inp inp' : Bytes} (d : Nat)
    (h : h1Round g c inp = ⟨.next, c', inp'⟩) :
    feedLoop g ⟨c, inp, d⟩ = feedLoop g ⟨c', inp', d⟩ := by
  apply feedLoop_of_inl
  simp only [feedStep, h, feedNext]

/-- The measure of the flattened loop. -/
def roundMeasure (s : FeedSt) : Nat :=
  3 * s.inp.length + match s.c.state with
    | .reqline => 0
    | .chunkData => 2
    | _ => 1

theorem h1HeaderRound_done_length {c c' : Zh1Conn} {inp inp' : Bytes}
    (h : h1HeaderRound g (c, inp) = .inr (.done c' inp')) : inp'.length < inp.length := by
  have := h1HeaderLoop_shorter g c inp
  have hl : h1HeaderLoop g c inp = .done c' inp' := Lib.loop_of_inr h
  rw [hl] at this
  exact this

theorem h1Round_measure (c : Zh1Conn) (inp : Bytes) (d : Nat) :
    ((h1Round g c inp).code = .next →
      roundMeasure ⟨(h1Round g c inp).c, (h1Round g c inp).inp, d⟩ < roundMeasure ⟨c, inp, d⟩) ∧
    ((h1Round g c inp).code = .complete →
      (h1Round g c inp).inp.length ≤ inp.length ∧ c.state ≠ .reqline) := by
  -- whatever takes an octet goes down, since the length weighs twice
  have hshort : ∀ (c' : Zh1Conn) (inp' : Bytes), inp'.length < inp.length →
      roundMeasure ⟨c', inp', d⟩ < roundMeasure ⟨c, inp, d⟩ := by
    intro c' inp' h
    simp only [roundMeasure]
    split <;> split <;> omega
  -- a stage that takes octets, or a round of one of the two inner loops
  rcases h1Stage_round g c inp with h | ⟨hn, h⟩
  · rw [← h]
    obtain ⟨hnext, hcomplete⟩ := h1Stage_length g c inp
    exact ⟨fun hc => hshort _ _ (hnext hc), hcomplete⟩
  · refine ⟨fun _ => ?_, fun hc => by rw [hn] at hc; cases hc⟩
    cases hst : c.state with
    -- the head's loop: its own measure, or the end of the head
    | headers =>
      have hr : h1Round g c inp = headStage g (h1HeaderRound g (c, inp)) := by
        simp only [h1Round, hst]
      apply hshort
      rw [hr] at hn ⊢
      cases hround : h1HeaderRound g (c, inp) with
      | inl s' => exact h1HeaderRound_decreases g _ _ hround
      | inr r =>
        rw [hround] at hn
        cases r with
        | stop st =>
          have := h1HeaderLoop_shorter g c inp
          rw [show h1HeaderLoop g c inp = .stop st from Lib.loop_of_inr hround] at this
          exact absurd hn this.1
        | done c' inp' =>
          rw [headStage, (h1HeadDone_inp g c' inp').1]
          exact h1HeaderRound_done_length g hround
    | reqline =>
      apply hshort
      have hr : h1Round g c inp = h1Reqline g c inp := by simp only [h1Round, hst]
      rw [hr] at hn ⊢
      exact (h1Reqline_length g c inp).1 hn
    | bodyCl =>
      have hr : h1Round g c inp = h1Stage g c inp := by simp only [h1Round, h1Stage, hst]
      apply hshort
      rw [hr] at hn ⊢
      exact (h1Stage_length g c inp).1 hn
    | dead =>
      have hr : h1Round g c inp = ⟨.close, c, inp⟩ := by simp only [h1Round, hst]
      rw [hr] at hn
      cases hn
    -- chunks: the step from a chunk's last octet to its CRLF takes nothing, and the state pays
    | _ =>
      have hc : c.state.inChunked = true := by rw [hst]; rfl
      rw [h1Round_chunked g hc] at hn ⊢
      obtain ⟨st, hround, hcode, -⟩ | ⟨c', inp', hround, hlt, hle⟩ := h1ChunkRound_length g c inp
      · rw [hround] at hn; exact absurd hn hcode
      · rw [hround]
        have hc' := h1ChunkRound_state g hc hround
        simp only [chunkMeasure, hst] at hlt
        simp only [chunkStage, roundMeasure, hst]
        revert hc' hlt
        cases c'.state <;> simp [H1State.inChunked] <;> omega

theorem feedStep_measure {s s' : FeedSt} (h : feedStep g s = .inl s') :
    roundMeasure s' < roundMeasure s := by
  obtain ⟨hnext, hcomplete⟩ := h1Round_measure g s.c s.inp s.dispatched
  unfold feedStep feedNext at h
  split at h
  · cases h
  · cases h; exact hnext ‹_›
  · cases h
  · obtain ⟨hle, hne⟩ := hcomplete ‹_›
    dsimp only at h
    split at h
    · cases h
    · split at h
      · cases h
      · cases h
        simp only [roundMeasure, h1ResetNext]
        split <;> first | contradiction | omega

/-- **Induction over the rounds of a feed.** -/
theorem feedLoop_induct {P : FeedSt → FeedRes → Prop}
    (done : ∀ s r, feedStep g s = .inr r → P s r)
    (step : ∀ s s' r, feedStep g s = .inl s' → P s' r → P s r) (s : FeedSt) :
    P s (feedLoop g s) := by
  induction hn : roundMeasure s using Nat.strongRecOn generalizing s with
  | _ n ih =>
    subst hn
    rw [feedLoop_step]
    cases hs : feedStep g s with
    | inr r => exact done s r hs
    | inl s' => exact step s s' _ hs (ih _ (feedStep_measure g hs) s' rfl)

/-! ### Lines and their prefixes

A line that is complete is found at its CRLF, and none of its prefixes is taken for a line.
-/

/-- Input that, with more behind it, starts with a line either holds the line already or
ends inside it, in front of its LF. -/
theorem line_prefix {inp x text rest : Bytes} (h : inp ++ x = text ++ crlf ++ rest) :
    (∃ r, inp = text ++ crlf ++ r) ∨ ∃ t, inp ++ t = text ++ [CR] ∧ x = t ++ LF :: rest := by
  have hsplit : text ++ crlf ++ rest = (text ++ [CR]) ++ LF :: rest := by simp [crlf]
  rw [hsplit] at h
  rcases List.append_eq_append_iff.mp h with ⟨t, ht, hx⟩ | ⟨t, ht, hx⟩
  · exact .inr ⟨t, ht.symm, hx⟩
  · cases t with
    | nil => exact .inr ⟨[], by simpa using ht, by simpa using hx.symm⟩
    | cons b r =>
      rw [List.cons_append] at hx
      obtain ⟨rfl, -⟩ := List.cons.inj hx
      exact .inl ⟨r, by rw [ht]; simp [crlf]⟩

/-- The part of a line in front of its LF holds no LF. -/
theorem lf_notMem_prefix {inp t text : Bytes} (h : inp ++ t = text ++ [CR]) (hlf : LF ∉ text) :
    LF ∉ inp ∧ inp.length ≤ text.length + 1 := by
  constructor
  · intro hm
    have : LF ∈ text ++ [CR] := h ▸ List.mem_append_left t hm
    rcases List.mem_append.mp this with hm | hm
    · exact hlf hm
    · exact absurd hm (by decide)
  · have := congrArg List.length h
    simp at this
    omega

theorem h1Budgeted_line {α : Type} {c : Zh1Conn} {text : Bytes} (rest : Bytes)
    {stop : Stage → α} {act : Zh1Conn → Bytes → Bytes → α} (hlf : LF ∉ text)
    (hb : text.length + 2 ≤ g.lim.maxHeaderBytes - c.headBytes) :
    h1Budgeted g c (text ++ crlf ++ rest) stop act =
      act { c with headBytes := c.headBytes + (text.length + 2) } text rest := by
  have hl : h1FindLine (text ++ crlf ++ rest) = .line text (text.length + 2) :=
    h1FindLine_eq_line.mpr ⟨hlf, rfl, rest, rfl⟩
  have hdrop : (text ++ crlf ++ rest).drop (text.length + 2) = rest :=
    List.drop_left' (by simp [crlf])
  unfold h1Budgeted
  rw [hl]
  dsimp only
  rw [if_neg (by omega), hdrop]

theorem h1Budgeted_emptyLine {α : Type} {c : Zh1Conn} (rest : Bytes) (stop : Stage → α)
    (act : Zh1Conn → Bytes → Bytes → α) (hb : 2 ≤ g.lim.maxHeaderBytes - c.headBytes) :
    h1Budgeted g c (crlf ++ rest) stop act =
      act { c with headBytes := c.headBytes + 2 } [] rest :=
  h1Budgeted_line g rest (List.not_mem_nil) hb

theorem h1Budgeted_wait {α : Type} {c : Zh1Conn} {inp : Bytes} {stop : Stage → α}
    {act : Zh1Conn → Bytes → Bytes → α} (hlf : LF ∉ inp)
    (hlen : inp.length ≤ g.lim.maxHeaderBytes) :
    h1Budgeted g c inp stop act = stop ⟨.more, c, inp⟩ := by
  unfold h1Budgeted
  rw [h1FindLine_eq_incomplete.mpr hlf]
  dsimp only
  rw [if_neg (by omega)]

theorem h1Budgeted_map {α β : Type} (f : α → β) (c : Zh1Conn) (inp : Bytes) (stop : Stage → α)
    (act : Zh1Conn → Bytes → Bytes → α) :
    f (h1Budgeted g c inp stop act) =
      h1Budgeted g c inp (fun st => f (stop st)) (fun c text rest => f (act c text rest)) := by
  unfold h1Budgeted
  split
  · split <;> rfl
  · rfl
  · split <;> rfl

/-! ### What a round does to its input

With more octets behind its input a round does the same, waits, or has refused the request
already. All of the segmentation results rest on these three cases. -/

/-- The round read the octets in front of what it left and looked at no others. -/
def Reads (c : Zh1Conn) (inp : Bytes) (st : Stage) : Prop :=
  st.code ≠ .more ∧ ∃ q, inp = q ++ st.inp ∧ ∀ y, h1Round g c (q ++ y) = { st with inp := y }

/-- The round stopped for more input and goes on as if all of it had been there. -/
def Waits (c : Zh1Conn) (inp : Bytes) (st : Stage) : Prop :=
  st.code = .more ∧ st.c.log = c.log ∧ st.c.err = c.err ∧
    ∀ x, h1Round g st.c (st.inp ++ x) = h1Round g c (inp ++ x)

/-- The round answered with an error response. -/
def Refuses (c : Zh1Conn) (st : Stage) : Prop :=
  st.code = .close ∧ st.c.log = c.log ∧ st.c.err.isSome = true

/-- A chunk-size line of exactly the maximal length, cut between its CR and its LF. -/
def SizeLineCut (c : Zh1Conn) (inp x : Bytes) : Prop :=
  c.state = .chunkSize ∧ ∃ line rest, inp = line ++ [CR] ∧ x = LF :: rest ∧ LF ∉ line ∧
    line.length = H1_CHUNK_LINE_MAX

/-- What a round does, as `h1Round_cases` says it. -/
def RoundCases (c : Zh1Conn) (inp : Bytes) : Prop :=
  Reads g c inp (h1Round g c inp) ∨ Waits g c inp (h1Round g c inp) ∨
    (Refuses c (h1Round g c inp) ∧
      ∀ x, Refuses c (h1Round g c (inp ++ x)) ∨ SizeLineCut c inp x)

theorem refuses_error {c c' : Zh1Conn} (h : c'.log = c.log) (status : Nat) (inp : Bytes) :
    Refuses c ⟨.close, h1Error g c' status, inp⟩ := ⟨rfl, h, rfl⟩

/-- The stages that read a line under the header budget. `recv` is the connection after
the arrival of input was noted, `act` what is done with the line. -/
theorem roundCases_budgeted {c : Zh1Conn} (recv : Bytes → Zh1Conn)
    (act : Zh1Conn → Bytes → Bytes → Stage)
    (hround : ∀ inp, h1Round g c inp = h1Budgeted g (recv inp) inp id act)
    (hact : ∀ c text rest y, act c text y = { act c text rest with inp := y })
    (hcode : ∀ c text rest, (act c text rest).code ≠ .more)
    (hlog : ∀ inp, (recv inp).log = c.log ∧ (recv inp).err = c.err)
    (happ : ∀ inp x, inp ≠ [] → recv (inp ++ x) = recv inp)
    (hresume : ∀ inp x, h1Round g (recv inp) (inp ++ x) = h1Round g c (inp ++ x))
    (inp : Bytes) : RoundCases g c inp := by
  unfold RoundCases
  by_cases hline : ∃ text rest, inp = text ++ crlf ++ rest ∧ LF ∉ text ∧
      text.length + 2 ≤ g.lim.maxHeaderBytes - (recv inp).headBytes
  · left
    obtain ⟨text, rest, rfl, hlf, hbud⟩ := hline
    have hne : text ++ crlf ≠ [] := by simp [crlf]
    rw [hround, h1Budgeted_line g rest hlf hbud]
    refine ⟨hcode _ _ _, text ++ crlf, ?_, fun y => ?_⟩
    · rw [hact _ text rest rest]
    · rw [hround, happ _ y hne, ← happ _ rest hne, h1Budgeted_line g y hlf hbud]
      exact hact _ _ _ _
  · right
    by_cases hwait : LF ∉ inp ∧ inp.length ≤ g.lim.maxHeaderBytes
    · left
      rw [hround, h1Budgeted_wait g hwait.1 hwait.2]
      exact ⟨rfl, (hlog inp).1, (hlog inp).2, hresume inp⟩
    · -- neither a line nor a tolerable part of one, and more input cannot mend that
      have hrefuse : ∀ x, Refuses c (h1Round g c (inp ++ x)) := by
        intro x
        rw [hround]
        obtain ⟨hlf, hlen, -⟩ | ⟨status, hb⟩ | ⟨text, rest, heq, hlf, hbud, -⟩ :=
          h1Budgeted_cases g (recv (inp ++ x)) (inp ++ x) id act
        · simp only [List.mem_append, not_or, List.length_append] at hlf hlen
          exact absurd ⟨hlf.1, by omega⟩ hwait
        · rw [hb]
          exact refuses_error g (hlog _).1 status _
        · exfalso
          rcases line_prefix heq with ⟨r, rfl⟩ | ⟨t, ht, -⟩
          · rw [happ _ x (by simp [crlf])] at hbud
            exact hline ⟨text, r, rfl, hlf, hbud⟩
          · have := lf_notMem_prefix ht hlf
            exact hwait ⟨this.1, by omega⟩
      right
      exact ⟨by simpa using hrefuse [], fun x => .inl (hrefuse x)⟩

/-! Each stage in turn. -/

theorem h1ReqlineText_uniform (c : Zh1Conn) (text rest y : Bytes) :
    h1ReqlineText g c text y = { h1ReqlineText g c text rest with inp := y } := by
  unfold h1ReqlineText
  dsimp only
  split
  · rfl
  · split
    · rfl
    · split
      · rfl
      · split
        · rfl
        · split
          · rfl
          · split <;> rfl

theorem h1HeadDone_uniform (c : Zh1Conn) (rest y : Bytes) :
    h1HeadDone g c y = { h1HeadDone g c rest with inp := y } := by
  unfold h1HeadDone
  dsimp only
  split
  · rfl
  · split
    · rfl
    · split
      · rfl
      · split <;> rfl

theorem h1HeaderText_uniform (c : Zh1Conn) (text rest y : Bytes) :
    headStage g (h1HeaderText g c text y) =
      { headStage g (h1HeaderText g c text rest) with inp := y } := by
  unfold h1HeaderText
  dsimp only
  split
  · exact h1HeadDone_uniform g c rest y
  · split
    · rfl
    · split
      · rfl
      · split
        · rfl
        · split
          · rfl
          · split <;> rfl

theorem h1TrailerText_uniform (c : Zh1Conn) (text rest y : Bytes) :
    chunkStage (h1TrailerText c text y) =
      { chunkStage (h1TrailerText c text rest) with inp := y } := by
  unfold h1TrailerText
  split <;> rfl

theorem h1ChunkSizeText_uniform (c : Zh1Conn) (text rest y : Bytes) :
    chunkStage (h1ChunkSizeText g c text y) =
      { chunkStage (h1ChunkSizeText g c text rest) with inp := y } := by
  unfold h1ChunkSizeText
  dsimp only
  split
  · rfl
  · split
    · rfl
    · split
      · rfl
      · split
        · rfl
        · split <;> rfl

theorem h1ReqlineText_code (c : Zh1Conn) (text rest : Bytes) :
    (h1ReqlineText g c text rest).code ≠ .more := by
  unfold h1ReqlineText
  dsimp only
  split
  · simp
  · split
    · simp
    · split
      · simp
      · split
        · simp
        · split
          · simp
          · split <;> simp

theorem h1HeadDone_code (c : Zh1Conn) (inp : Bytes) : (h1HeadDone g c inp).code ≠ .more := by
  unfold h1HeadDone
  dsimp only
  split
  · simp
  · split
    · simp
    · split
      · simp
      · split <;> simp

theorem h1HeaderText_code (c : Zh1Conn) (text rest : Bytes) :
    (headStage g (h1HeaderText g c text rest)).code ≠ .more := by
  obtain ⟨-, ht⟩ | ⟨_, ht⟩ | ⟨_, _, _, _, _, _, _, _, _, ht⟩ := h1HeaderText_cases g c text rest
  · rw [ht]; exact h1HeadDone_code g c rest
  · rw [ht]; simp [headStage]
  · rw [ht]; simp [headStage]

theorem h1TrailerText_code (c : Zh1Conn) (text rest : Bytes) :
    (chunkStage (h1TrailerText c text rest)).code ≠ .more := by
  unfold h1TrailerText
  split <;> simp [chunkStage]

theorem h1ChunkSizeText_code (c : Zh1Conn) (text rest : Bytes) :
    (chunkStage (h1ChunkSizeText g c text rest)).code ≠ .more := by
  obtain ⟨_, ht⟩ | ⟨_, _, -, -, -, ⟨-, ht⟩ | ⟨-, -, ht⟩⟩ := h1ChunkSizeText_cases g c text rest
  all_goals rw [ht]; simp [chunkStage]

theorem roundCases_reqline {c : Zh1Conn} (hst : c.state = .reqline) (inp : Bytes) :
    RoundCases g c inp := by
  have hround : ∀ {c : Zh1Conn}, c.state = .reqline → ∀ inp, h1Round g c inp =
      h1Budgeted g (if inp.length > 0 then { c with receiving := true } else c) inp id
        (h1ReqlineText g) := by
    intro c hst inp
    simp only [h1Round, hst, h1Reqline]
  refine roundCases_budgeted g _ _ (hround hst) (h1ReqlineText_uniform g)
    (h1ReqlineText_code g) ?_ ?_ ?_ inp
  · intro inp
    split <;> exact ⟨rfl, rfl⟩
  · intro inp x hne
    have : 0 < inp.length := List.length_pos_of_ne_nil hne
    rw [if_pos (by simp; omega), if_pos this]
  · intro inp x
    by_cases hpos : inp.length > 0
    · have happ : (inp ++ x).length > 0 := by simp; omega
      rw [if_pos hpos, hround hst, hround (c := { c with receiving := true }) hst, if_pos happ,
        if_pos happ]
    · rw [if_neg hpos]

theorem roundCases_headers {c : Zh1Conn} (hst : c.state = .headers) (inp : Bytes) :
    RoundCases g c inp := by
  refine roundCases_budgeted g (fun _ => c)
    (fun c text rest => headStage g (h1HeaderText g c text rest)) ?_ (h1HeaderText_uniform g)
    (h1HeaderText_code g) (fun _ => ⟨rfl, rfl⟩) (fun _ _ _ => rfl) (fun _ _ => rfl) inp
  intro inp
  simp only [h1Round, hst, h1HeaderRound]
  exact h1Budgeted_map g (headStage g) _ _ _ _

theorem roundCases_trailer {c : Zh1Conn} (hst : c.state = .trailer) (inp : Bytes) :
    RoundCases g c inp := by
  refine roundCases_budgeted g (fun _ => c)
    (fun c text rest => chunkStage (h1TrailerText c text rest)) ?_ h1TrailerText_uniform
    h1TrailerText_code (fun _ => ⟨rfl, rfl⟩) (fun _ _ _ => rfl) (fun _ _ => rfl) inp
  intro inp
  simp only [h1Round, hst, h1ChunkRound]
  exact h1Budgeted_map g chunkStage _ _ _ _

theorem h1BodyCl_eq {c : Zh1Conn} (h0 : c.clRemaining ≠ 0) (inp : Bytes) :
    h1BodyCl c inp = ⟨if c.clRemaining ≤ inp.length then .complete else .more,
      { h1TakeBody c c.clRemaining inp with clRemaining := c.clRemaining - inp.length },
      inp.drop c.clRemaining⟩ := by
  unfold h1BodyCl
  rw [if_neg h0]
  by_cases hne : inp.length = 0
  · obtain rfl := List.eq_nil_of_length_eq_zero hne
    rw [if_pos hne, if_neg (by simpa using h0)]
    simp [h1TakeBody]
  · rw [if_neg hne]
    rcases Nat.le_total c.clRemaining inp.length with hle | hle
    · simp [hle]
    · rw [Nat.min_eq_left hle]
      have hiff : c.clRemaining - inp.length = 0 ↔ c.clRemaining ≤ inp.length := by omega
      simp [h1TakeBody, hiff, List.take_of_length_le hle, List.drop_of_length_le hle]

theorem h1ChunkData_eq {c : Zh1Conn} (hst : c.state = .chunkData) (h0 : c.chunkRemaining ≠ 0)
    (inp : Bytes) :
    chunkStage (h1ChunkRound g (c, inp)) =
      if c.chunkRemaining ≤ inp.length then
        ⟨.next, { h1TakeBody c c.chunkRemaining inp with
          chunkRemaining := 0, state := .chunkCrlf }, inp.drop c.chunkRemaining⟩
      else
        ⟨.more, { h1TakeBody c c.chunkRemaining inp with
          chunkRemaining := c.chunkRemaining - inp.length }, inp.drop c.chunkRemaining⟩ := by
  simp only [h1ChunkRound, hst]
  rw [if_pos (by omega)]
  by_cases hne : inp.length = 0
  · obtain rfl := List.eq_nil_of_length_eq_zero hne
    rw [if_pos hne, if_neg (by simpa using h0)]
    simp [h1TakeBody, chunkStage]
  · rw [if_neg hne]
    by_cases hle : c.chunkRemaining ≤ inp.length
    · rw [if_pos hle, Nat.min_eq_right hle, if_neg (by omega), Nat.sub_self]
      rfl
    · have hle' : inp.length ≤ c.chunkRemaining := by omega
      rw [if_neg hle, Nat.min_eq_left hle', if_pos (by omega)]
      simp [chunkStage, h1TakeBody, List.take_of_length_le hle', List.drop_of_length_le hle']

theorem roundCases_bodyCl {c : Zh1Conn} (hst : c.state = .bodyCl) (inp : Bytes) :
    RoundCases g c inp := by
  have hround : ∀ {c : Zh1Conn}, c.state = .bodyCl → ∀ inp,
      h1Round g c inp = h1BodyCl c inp := by
    intro c hst inp
    simp only [h1Round, hst]
  unfold RoundCases
  by_cases h0 : c.clRemaining = 0
  · left
    have hdone : ∀ y, h1Round g c y = ⟨.complete, c, y⟩ := by
      intro y
      rw [hround hst, h1BodyCl, if_pos h0]
    exact ⟨by rw [hdone]; simp, [], by rw [hdone]; rfl,
      fun y => by rw [hdone, List.nil_append, hdone]⟩
  · rw [hround hst, h1BodyCl_eq h0]
    by_cases hlen : c.clRemaining ≤ inp.length
    · left
      refine ⟨by simp [hlen], inp.take c.clRemaining, (List.take_append_drop _ _).symm, fun y => ?_⟩
      have hq : (inp.take c.clRemaining).length = c.clRemaining := by simp; omega
      rw [hround hst, h1BodyCl_eq h0, if_pos hlen, if_pos (by simp; omega), List.drop_left' hq]
      simp only [h1TakeBody, List.take_left' hq]
      rw [show c.clRemaining - (inp.take c.clRemaining ++ y).length = c.clRemaining - inp.length by
        simp; omega]
    · right; left
      rw [if_neg hlen]
      refine ⟨rfl, rfl, rfl, fun x => ?_⟩
      have hrem : c.clRemaining - inp.length ≠ 0 := by omega
      rw [List.drop_of_length_le (by omega), List.nil_append, hround hst, h1BodyCl_eq h0,
        hround (c := { h1TakeBody c c.clRemaining inp with
          clRemaining := c.clRemaining - inp.length }) hst, h1BodyCl_eq hrem]
      have hiff : c.clRemaining - inp.length ≤ x.length ↔
          c.clRemaining ≤ inp.length + x.length := by omega
      simp [h1TakeBody, List.take_append, List.drop_append, hiff, Nat.sub_sub,
        List.drop_of_length_le (Nat.le_of_not_le hlen)]

theorem roundCases_chunkData {c : Zh1Conn} (hst : c.state = .chunkData) (inp : Bytes) :
    RoundCases g c inp := by
  have hround : ∀ {c : Zh1Conn}, c.state = .chunkData → ∀ inp,
      h1Round g c inp = chunkStage (h1ChunkRound g (c, inp)) := by
    intro c hst inp
    simp only [h1Round, hst]
  unfold RoundCases
  -- the chunk was empty: on to its CRLF, whatever the input
  by_cases h0 : c.chunkRemaining = 0
  · left
    have hdone : ∀ y, h1Round g c y = ⟨.next, { c with state := .chunkCrlf }, y⟩ := by
      intro y
      rw [hround hst]
      simp only [h1ChunkRound, hst]
      rw [if_neg (by omega)]
      rfl
    exact ⟨by rw [hdone]; simp, [], by rw [hdone]; rfl,
      fun y => by rw [hdone, List.nil_append, hdone]⟩
  · rw [hround hst, h1ChunkData_eq g hst h0]
    -- the whole chunk is here: the same octets are taken with more behind them
    by_cases hlen : c.chunkRemaining ≤ inp.length
    · left
      rw [if_pos hlen]
      refine ⟨by simp, inp.take c.chunkRemaining, (List.take_append_drop _ _).symm, fun y => ?_⟩
      have hq : (inp.take c.chunkRemaining).length = c.chunkRemaining := by simp; omega
      rw [hround hst, h1ChunkData_eq g hst h0, if_pos (by simp; omega), List.drop_left' hq]
      simp only [h1TakeBody, List.take_left' hq]
    · -- a part of it: taking the rest later is taking all at once
      right; left
      rw [if_neg hlen]
      refine ⟨rfl, rfl, rfl, fun x => ?_⟩
      have hrem : c.chunkRemaining - inp.length ≠ 0 := by omega
      rw [List.drop_of_length_le (by omega), List.nil_append, hround hst, h1ChunkData_eq g hst h0,
        hround (c := { h1TakeBody c c.chunkRemaining inp with
          chunkRemaining := c.chunkRemaining - inp.length }) hst,
        h1ChunkData_eq g (c := { h1TakeBody c c.chunkRemaining inp with
          chunkRemaining := c.chunkRemaining - inp.length }) hst hrem]
      have hiff : c.chunkRemaining - inp.length ≤ x.length ↔
          c.chunkRemaining ≤ inp.length + x.length := by omega
      simp [h1TakeBody, List.take_append, List.drop_append, hiff, Nat.sub_sub,
        List.drop_of_length_le (Nat.le_of_not_le hlen)]

theorem roundCases_chunkCrlf {c : Zh1Conn} (hst : c.state = .chunkCrlf) (inp : Bytes) :
    RoundCases g c inp := by
  have hround : ∀ inp, h1Round g c inp = chunkStage (h1ChunkRound g (c, inp)) := by
    intro inp
    simp only [h1Round, hst]
  unfold RoundCases
  match inp with
  -- fewer than two octets: the round waits
  | [] | [_] =>
    right; left
    have hwait : ∀ inp : Bytes, inp.length < 2 → h1Round g c inp = ⟨.more, c, inp⟩ := by
      intro inp hlen
      rw [hround]
      simp only [h1ChunkRound, hst]
      match inp with
      | [] | [_] => rfl
      | _ :: _ :: _ => exact absurd hlen (Nat.not_lt.mpr (by simp))
    rw [hwait _ (by simp)]
    exact ⟨rfl, rfl, rfl, fun _ => rfl⟩
  | p0 :: p1 :: rest =>
    by_cases hcr : p0 ≠ CR ∨ p1 ≠ LF
    · -- two octets that are no CRLF are refused however the input goes on
      right; right
      have hrefuse : ∀ y, Refuses c (h1Round g c (p0 :: p1 :: y)) := by
        intro y
        rw [hround]
        simp only [h1ChunkRound, hst]
        rw [if_pos hcr]
        exact refuses_error g rfl 400 _
      exact ⟨hrefuse rest, fun x => .inl (hrefuse (rest ++ x))⟩
    · -- the CRLF is taken
      left
      have hread : ∀ y, h1Round g c (p0 :: p1 :: y) =
          ⟨.next, { c with state := .chunkSize }, y⟩ := by
        intro y
        rw [hround]
        simp only [h1ChunkRound, hst]
        rw [if_neg hcr]
        rfl
      rw [hread]
      exact ⟨by simp, [p0, p1], rfl, fun y => hread y⟩

theorem roundCases_chunkSize {c : Zh1Conn} (hst : c.state = .chunkSize) (inp : Bytes) :
    RoundCases g c inp := by
  have hround : ∀ inp, h1Round g c inp = chunkStage (h1ChunkRound g (c, inp)) := by
    intro inp
    simp only [h1Round, hst]
  have hline : ∀ text y, LF ∉ text →
      h1Round g c (text ++ crlf ++ y) = chunkStage (h1ChunkSizeText g c text y) := by
    intro text y hlf
    rw [hround]
    simp only [h1ChunkRound, hst]
    rw [h1FindLine_eq_line.mpr ⟨hlf, rfl, y, rfl⟩]
    dsimp only
    rw [List.drop_left' (by simp [crlf])]
  unfold RoundCases
  by_cases hl : ∃ text rest, inp = text ++ crlf ++ rest ∧ LF ∉ text
  · left
    obtain ⟨text, rest, rfl, hlf⟩ := hl
    rw [hline text rest hlf]
    refine ⟨h1ChunkSizeText_code g c text rest, text ++ crlf, ?_, fun y => ?_⟩
    · rw [h1ChunkSizeText_uniform g c text rest rest]
    · rw [hline text y hlf]
      exact h1ChunkSizeText_uniform g c text rest y
  · right
    by_cases hwait : LF ∉ inp ∧ inp.length ≤ H1_CHUNK_LINE_MAX
    · left
      have hmore : h1Round g c inp = ⟨.more, c, inp⟩ := by
        rw [hround]
        simp only [h1ChunkRound, hst]
        rw [h1FindLine_eq_incomplete.mpr hwait.1]
        dsimp only
        rw [if_neg (by omega)]
        rfl
      rw [hmore]
      exact ⟨rfl, rfl, rfl, fun _ => rfl⟩
    · right
      have hrefuse : ∀ x, Refuses c (h1Round g c (inp ++ x)) ∨ SizeLineCut c inp x := by
        intro x
        rw [hround]
        simp only [h1ChunkRound, hst]
        cases hx : h1FindLine (inp ++ x) with
        | bare => exact .inl (refuses_error g rfl 400 _)
        | incomplete =>
          have hlf := h1FindLine_eq_incomplete.mp hx
          simp only [List.mem_append, not_or] at hlf
          have hlong : (inp ++ x).length > H1_CHUNK_LINE_MAX := by
            have : ¬inp.length ≤ H1_CHUNK_LINE_MAX := fun h => hwait ⟨hlf.1, h⟩
            simp
            omega
          dsimp only
          rw [if_pos hlong]
          exact .inl (refuses_error g rfl 400 _)
        | line text consumed =>
          obtain ⟨hlf, -, rest, heq⟩ := h1FindLine_eq_line.mp hx
          rcases line_prefix heq with ⟨r, rfl⟩ | ⟨t, ht, hxt⟩
          · exact absurd ⟨text, r, rfl, hlf⟩ hl
          · obtain ⟨hlf', hle⟩ := lf_notMem_prefix ht hlf
            have hlong : ¬inp.length ≤ H1_CHUNK_LINE_MAX := fun h => hwait ⟨hlf', h⟩
            by_cases htext : text.length > H1_CHUNK_LINE_MAX
            · left
              dsimp only
              rw [h1ChunkSizeText, if_pos htext]
              exact refuses_error g rfl 400 _
            · -- the only way left: the cut is right in front of the LF
              right
              have hlen := congrArg List.length ht
              simp only [List.length_append, List.length_singleton] at hlen
              obtain rfl := List.eq_nil_of_length_eq_zero (show t.length = 0 by omega)
              rw [List.append_nil] at ht
              exact ⟨hst, text, rest, ht, hxt, hlf, by omega⟩
      refine ⟨?_, hrefuse⟩
      rcases hrefuse [] with h | ⟨-, _, _, -, hnil, -⟩
      · simpa using h
      · cases hnil

theorem roundCases_dead {c : Zh1Conn} (hst : c.state = .dead) (inp : Bytes) :
    RoundCases g c inp := by
  have hround : ∀ inp, h1Round g c inp = ⟨.close, c, inp⟩ := by
    intro inp
    simp only [h1Round, hst]
  left
  exact ⟨by rw [hround]; simp, [], by rw [hround]; rfl,
    fun y => by rw [hround, List.nil_append, hround]⟩

/-- **What a round does to its input**: it reads some octets and looks at no others, or it
waits and can be resumed, or it refuses, and then more input would not have helped. The
exception is a chunk-size line of exactly the maximal length. -/
theorem h1Round_cases (c : Zh1Conn) (inp : Bytes) : RoundCases g c inp := by
  cases hst : c.state with
  | reqline => exact roundCases_reqline g hst inp
  | headers => exact roundCases_headers g hst inp
  | bodyCl => exact roundCases_bodyCl g hst inp
  | chunkSize => exact roundCases_chunkSize g hst inp
  | chunkData => exact roundCases_chunkData g hst inp
  | chunkCrlf => exact roundCases_chunkCrlf g hst inp
  | trailer => exact roundCases_trailer g hst inp
  | dead => exact roundCases_dead g hst inp

/-! ### The trailer section

Trailer lines are read and dropped up to the empty line. -/

/-- Lines as they go over the wire. -/
def fieldLines (lines : List Bytes) : Bytes := (lines.map (· ++ crlf)).flatten

theorem fieldLines_cons (line : Bytes) (lines : List Bytes) :
    fieldLines (line :: lines) = line ++ crlf ++ fieldLines lines := by
  simp [fieldLines]

theorem fieldLines_append (ls ls' : List Bytes) :
    fieldLines (ls ++ ls') = fieldLines ls ++ fieldLines ls' := by
  simp [fieldLines]

/-- A cut lies in front of the LF of the first line, or behind it. -/
theorem cut_line {a y l rest : Bytes} (hl : LF ∉ l) (h : a ++ y = l ++ LF :: rest) :
    LF ∉ a ∨ ∃ b, a = l ++ LF :: b ∧ b ++ y = rest := by
  rcases List.append_eq_append_iff.mp h with ⟨m, hm, -⟩ | ⟨m, hm, hy⟩
  · left
    intro ha
    exact hl (hm ▸ List.mem_append_left m ha)
  · cases m with
    | nil =>
      left
      rwa [hm, List.append_nil]
    | cons x b =>
      obtain ⟨rfl, hrest⟩ := List.cons.inj hy
      exact Or.inr ⟨b, hm, hrest.symm⟩

/-- The input starts with a whole trailer section of at most `budget` octets: non-empty
lines up to the empty one. -/
def TrailerEnds (budget : Nat) (inp : Bytes) : Prop :=
  ∃ lines rest, inp = fieldLines lines ++ crlf ++ rest ∧ (∀ l ∈ lines, l ≠ [] ∧ LF ∉ l) ∧
    (fieldLines lines).length + 2 ≤ budget

theorem h1Round_trailer {c : Zh1Conn} (hst : c.state = .trailer) (inp : Bytes) :
    h1Round g c inp = h1Budgeted g c inp id (fun c text rest =>
      chunkStage (h1TrailerText c text rest)) := by
  simp only [h1Round, hst, h1ChunkRound]
  exact h1Budgeted_map g chunkStage _ _ _ _

theorem h1Round_trailerLine {c : Zh1Conn} (hst : c.state = .trailer) {line : Bytes}
    (hne : line ≠ []) (hlf : LF ∉ line)
    (hb : line.length + 2 ≤ g.lim.maxHeaderBytes - c.headBytes) (y : Bytes) :
    h1Round g c (line ++ crlf ++ y) =
      ⟨.next, { c with headBytes := c.headBytes + (line.length + 2) }, y⟩ := by
  rw [h1Round_trailer g hst, h1Budgeted_line g y hlf hb, h1TrailerText, if_neg hne]
  rfl

theorem h1Round_trailerEnd {c : Zh1Conn} (hst : c.state = .trailer)
    (hb : 2 ≤ g.lim.maxHeaderBytes - c.headBytes) (y : Bytes) :
    h1Round g c (crlf ++ y) = ⟨.complete, { c with headBytes := c.headBytes + 2 }, y⟩ := by
  rw [h1Round_trailer g hst, h1Budgeted_emptyLine g y id _ hb, h1TrailerText, if_pos rfl]
  rfl

/-- Trailer lines within the budget are passed over. -/
theorem feedLoop_trailerLines {c : Zh1Conn} (hst : c.state = .trailer) (lines : List Bytes)
    (hl : ∀ l ∈ lines, l ≠ [] ∧ LF ∉ l)
    (hb : (fieldLines lines).length ≤ g.lim.maxHeaderBytes - c.headBytes) (y : Bytes) (d : Nat) :
    feedLoop g ⟨c, fieldLines lines ++ y, d⟩ =
      feedLoop g ⟨{ c with headBytes := c.headBytes + (fieldLines lines).length }, y, d⟩ := by
  induction lines generalizing c with
  | nil => rfl
  | cons line lines ih =>
    obtain ⟨hne, hlf⟩ := hl line List.mem_cons_self
    have hlen : (fieldLines (line :: lines)).length =
        line.length + 2 + (fieldLines lines).length := by simp [fieldLines_cons, crlf]; omega
    rw [hlen] at hb
    rw [fieldLines_cons, List.append_assoc,
      feedLoop_next g d (h1Round_trailerLine g hst hne hlf (by omega) (fieldLines lines ++ y)),
      ih (c := { c with headBytes := c.headBytes + (line.length + 2) }) hst
        (fun l hm => hl l (List.mem_cons_of_mem _ hm)) (by simp only; omega)]
    simp only
    rw [← fieldLines_cons, hlen, Nat.add_assoc]

end Zcio
