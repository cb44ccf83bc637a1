import Zcio.H1.Step

/-!
# Zcio.H1.Segment

Does the parser's answer depend on how the stream was cut into reads? A read that waits is
resumed as if all the input had been there (`feedLoop_resume`), and one that stops would
have stopped on more input too (`feedLoop_stop`), with one exception. `h1_body_chunk`
measures a buffered partial chunk-size line, CR included, against the limit it otherwise
sets for the line without its CRLF, so a size line of exactly that length is refused when
a read ends between its CR and its LF.

`zh1Feed_segmentation` states which streams that leaves untouched, and `feedSegments_agree_short` that a
stream without a size line of that length is one of them.
-/

namespace Zcio

variable (g : H1Cfg)

/-- `zh1_feed_` is done with the connection. -/
def Zh1Rc.stops : Zh1Rc → Bool
  | .close | .detached => true
  | .needMore | .dispatched => false

/-- Two feeds that ended alike, up to whether something was dispatched meanwhile. -/
def FeedRes.Same (r r' : FeedRes) : Prop :=
  r.rc.stops = r'.rc.stops ∧ r.c = r'.c ∧ r.inp = r'.inp

theorem FeedRes.Same.refl (r : FeedRes) : r.Same r := ⟨rfl, rfl, rfl⟩

theorem FeedRes.Same.symm {r r' : FeedRes} (h : r.Same r') : r'.Same r :=
  ⟨h.1.symm, h.2.1.symm, h.2.2.symm⟩

theorem FeedRes.Same.trans {r r' r'' : FeedRes} (h : r.Same r') (h' : r'.Same r'') :
    r.Same r'' :=
  ⟨h.1.trans h'.1, h.2.1.trans h'.2.1, h.2.2.trans h'.2.2⟩

/-! ### Steps on longer input

A round that reads leaves its tail alone, so that the loop on a longer input goes through
the same rounds first. -/

/-- What the feed loop does with a stage depends neither on the input behind it nor on the
number of requests dispatched before. -/
theorem feedNext_inl {d : Nat} {st : Stage} {s' : FeedSt} (h : feedNext g d st = .inl s')
    (d' : Nat) (y : Bytes) :
    s'.inp = st.inp ∧ ∃ e, feedNext g d' { st with inp := y } = .inl ⟨s'.c, y, e⟩ := by
  unfold feedNext at h ⊢
  split at h
  · cases h
  · rename_i hc
    cases h
    simp only [hc]
    exact ⟨trivial, _, rfl⟩
  · cases h
  · rename_i hc
    simp only [hc]
    dsimp only at h
    split at h
    · cases h
    · rename_i hatt
      split at h
      · cases h
      · rename_i hclose
        cases h
        rw [if_neg hatt, if_neg hclose]
        exact ⟨rfl, _, rfl⟩

theorem feedNext_inr {d : Nat} {st : Stage} {r : FeedRes} (h : feedNext g d st = .inr r)
    (d' : Nat) (y : Bytes) :
    r.inp = st.inp ∧
      ∃ rc, rc.stops = r.rc.stops ∧ feedNext g d' { st with inp := y } = .inr ⟨rc, r.c, y⟩ := by
  unfold feedNext at h ⊢
  split at h
  · rename_i hc
    cases h
    simp only [hc]
    refine ⟨trivial, _, ?_, rfl⟩
    split <;> split <;> rfl
  · cases h
  · rename_i hc
    cases h
    simp only [hc]
    exact ⟨trivial, _, rfl, rfl⟩
  · rename_i hc
    simp only [hc]
    dsimp only at h
    split at h
    · rename_i hatt
      cases h
      rw [if_pos hatt]
      exact ⟨rfl, _, rfl, rfl⟩
    · rename_i hatt
      split at h
      · rename_i hclose
        cases h
        rw [if_neg hatt, if_pos hclose]
        exact ⟨rfl, _, rfl, rfl⟩
      · cases h

theorem feedNext_more {d : Nat} {st : Stage} {r : FeedRes} (h : feedNext g d st = .inr r)
    (hstop : r.rc.stops = false) : st.code = .more ∧ r.c = st.c ∧ r.inp = st.inp := by
  unfold feedNext at h
  split at h
  · cases h; exact ⟨‹_›, rfl, rfl⟩
  · cases h
  · cases h; cases hstop
  · dsimp only at h
    split at h
    · cases h; cases hstop
    · split at h
      · cases h; cases hstop
      · cases h

/-- A round that goes on has read a definite prefix of its input. -/
theorem feedStep_reads {s s' : FeedSt} (h : feedStep g s = .inl s') :
    ∃ q, s.inp = q ++ s'.inp ∧
      ∀ (d : Nat) (y : Bytes), ∃ e, feedStep g ⟨s.c, q ++ y, d⟩ = .inl ⟨s'.c, y, e⟩ := by
  have hcode : (h1Round g s.c s.inp).code = .next ∨ (h1Round g s.c s.inp).code = .complete := by
    unfold feedStep feedNext at h
    split at h
    · cases h
    · exact .inl ‹_›
    · cases h
    · exact .inr ‹_›
  rcases h1Round_cases g s.c s.inp with ⟨-, q, hq, hy⟩ | ⟨hmore, -⟩ | ⟨⟨hclose, -⟩, -⟩
  · have hinp := (feedNext_inl g h 0 []).1
    refine ⟨q, by rw [hinp]; exact hq, fun d y => ?_⟩
    obtain ⟨-, e, he⟩ := feedNext_inl g h d y
    exact ⟨e, by rw [feedStep, hy]; exact he⟩
  · rw [hmore] at hcode
    rcases hcode with hcode | hcode <;> cases hcode
  · rw [hclose] at hcode
    rcases hcode with hcode | hcode <;> cases hcode

/-- The dispatch counter only shows in the return code. -/
theorem feedLoop_counter (c : Zh1Conn) (inp : Bytes) (d d' : Nat) :
    (feedLoop g ⟨c, inp, d⟩).Same (feedLoop g ⟨c, inp, d'⟩) := by
  refine feedLoop_induct g (P := fun s r => ∀ d', r.Same (feedLoop g ⟨s.c, s.inp, d'⟩))
    ?_ ?_ ⟨c, inp, d⟩ d'
  · intro s r h d'
    obtain ⟨hinp, rc, hrc, hr⟩ := feedNext_inr g h d' (h1Round g s.c s.inp).inp
    rw [feedLoop_of_inr g (s := ⟨s.c, s.inp, d'⟩) hr]
    exact ⟨hrc.symm, rfl, hinp⟩
  · intro s s' r h ih d'
    obtain ⟨hinp, e, he⟩ := feedNext_inl g h d' (h1Round g s.c s.inp).inp
    rw [feedLoop_of_inl g (s := ⟨s.c, s.inp, d'⟩) he, ← hinp]
    exact ih e

/-- **A waiting connection is resumed** as if the new input had been there before. -/
theorem feedLoop_resume (s : FeedSt) (hstop : (feedLoop g s).rc.stops = false) (x : Bytes)
    (d d' : Nat) :
    (feedLoop g ⟨(feedLoop g s).c, (feedLoop g s).inp ++ x, d⟩).Same
      (feedLoop g ⟨s.c, s.inp ++ x, d'⟩) := by
  refine feedLoop_induct g (P := fun s r => r.rc.stops = false → ∀ d',
    (feedLoop g ⟨r.c, r.inp ++ x, d⟩).Same (feedLoop g ⟨s.c, s.inp ++ x, d'⟩)) ?_ ?_ s hstop d'
  · intro s r h hstop d'
    obtain ⟨hmore, hc, hinp⟩ := feedNext_more g h hstop
    rcases h1Round_cases g s.c s.inp with ⟨hne, -⟩ | ⟨-, -, -, hx⟩ | ⟨⟨hclose, -⟩, -⟩
    · exact absurd hmore hne
    · have hstep : feedStep g ⟨r.c, r.inp ++ x, d⟩ = feedStep g ⟨s.c, s.inp ++ x, d⟩ := by
        simp only [feedStep]
        rw [hc, hinp, hx]
      refine FeedRes.Same.trans ?_ (feedLoop_counter g s.c (s.inp ++ x) d d')
      rw [feedLoop_step g ⟨r.c, r.inp ++ x, d⟩, hstep, ← feedLoop_step]
      exact FeedRes.Same.refl _
    · rw [hmore] at hclose; cases hclose
  · intro s s' r h ih hstop d'
    obtain ⟨q, hq, hy⟩ := feedStep_reads g h
    obtain ⟨e, he⟩ := hy d' (s'.inp ++ x)
    rw [hq, List.append_assoc, feedLoop_of_inl g he]
    exact ih hstop e

/-! ### Stopping

The loop stops because it waits, and then goes on with the next octets, or because the
request was refused, and then no octet changes that. -/

/-- Having read exactly `a`, the connection `c` stands in front of a chunk-size line. -/
def AtSizeLine (c : Zh1Conn) (a : Bytes) : Prop :=
  (zh1Feed g c a).rc.stops = false ∧ (zh1Feed g c a).inp = [] ∧
    (zh1Feed g c a).c.state = .chunkSize

/-- The feed `r` of `inp` on `c` was stopped by the limit on a partial chunk-size line
that its next octet, the LF in `x`, would have completed. -/
def CutShort (c : Zh1Conn) (inp x : Bytes) (r : FeedRes) : Prop :=
  ∃ a line rest, inp = a ++ line ++ [CR] ∧ x = LF :: rest ∧ LF ∉ line ∧
    line.length = H1_CHUNK_LINE_MAX ∧ AtSizeLine g c a ∧ r.c.log = (zh1Feed g c a).c.log ∧
    r.c.err.isSome = true

/-- Two feeds with the same dispatches and the same verdict. -/
def FeedRes.Alike (r r' : FeedRes) : Prop :=
  r.c.log = r'.c.log ∧ r.c.err.isSome = r'.c.err.isSome

theorem feedStep_refuses {s : FeedSt} (h : Refuses s.c (h1Round g s.c s.inp)) :
    ∃ r, feedStep g s = .inr r ∧ r.rc = .close ∧ r.c.log = s.c.log ∧ r.c.err.isSome = true := by
  refine ⟨⟨.close, (h1Round g s.c s.inp).c, (h1Round g s.c s.inp).inp⟩, ?_, rfl, h.2.1, h.2.2⟩
  rw [feedStep, feedNext, h.1]

theorem atSizeLine_nil {c : Zh1Conn} (h : c.state = .chunkSize) :
    AtSizeLine g c [] ∧ (zh1Feed g c []).c = c := by
  have hround : h1Round g c [] = ⟨.more, c, []⟩ := by
    simp only [h1Round, h, h1ChunkRound]
    rfl
  have hstep : feedStep g ⟨c, [], 0⟩ = .inr ⟨.needMore, c, []⟩ := by
    simp only [feedStep, hround, feedNext]
    rfl
  have hfeed : zh1Feed g c [] = ⟨.needMore, c, []⟩ := feedLoop_of_inr g hstep
  rw [AtSizeLine, hfeed]
  exact ⟨⟨rfl, rfl, h⟩, rfl⟩

/-- **A connection that stopped** would have stopped the same way on more input, unless a
chunk-size line was cut short. -/
theorem feedLoop_stop (s : FeedSt) (hstop : (feedLoop g s).rc.stops = true) (x : Bytes)
    (d : Nat) :
    (feedLoop g s).Alike (feedLoop g ⟨s.c, s.inp ++ x, d⟩) ∨
      CutShort g s.c s.inp x (feedLoop g s) := by
  refine feedLoop_induct g (P := fun s r => r.rc.stops = true → ∀ d,
    r.Alike (feedLoop g ⟨s.c, s.inp ++ x, d⟩) ∨ CutShort g s.c s.inp x r) ?_ ?_ s hstop d
  · intro s r h hstop d
    rcases h1Round_cases g s.c s.inp with ⟨-, q, hq, hy⟩ | ⟨hmore, -⟩ | ⟨hrefuse, hx⟩
    · -- what was read decides
      left
      obtain ⟨-, rc, -, hr⟩ := feedNext_inr g h d ((h1Round g s.c s.inp).inp ++ x)
      have hstep : feedStep g ⟨s.c, s.inp ++ x, d⟩ =
          .inr ⟨rc, r.c, (h1Round g s.c s.inp).inp ++ x⟩ := by
        simp only [feedStep]
        conv => lhs; rw [hq, List.append_assoc, hy]
        exact hr
      rw [feedLoop_of_inr g hstep]
      exact ⟨rfl, rfl⟩
    · rw [feedStep, feedNext, hmore] at h
      cases h
      dsimp only at hstop
      split at hstop <;> cases hstop
    · obtain ⟨r', hr', -, hlog, herr⟩ := feedStep_refuses g hrefuse
      obtain rfl : r' = r := Sum.inr.inj (hr'.symm.trans h)
      rcases hx x with hx | ⟨hst, line, rest, hinp, rfl, hlf, hlen⟩
      · left
        obtain ⟨r'', hr'', -, hlog', herr'⟩ := feedStep_refuses g (s := ⟨s.c, s.inp ++ x, d⟩) hx
        rw [feedLoop_of_inr g hr'']
        exact ⟨hlog.trans hlog'.symm, herr.trans herr'.symm⟩
      · right
        obtain ⟨hat, hc⟩ := atSizeLine_nil g hst
        exact ⟨[], line, rest, hinp, rfl, hlf, hlen, hat, by rw [hc]; exact hlog, herr⟩
  · intro s s' r h ih hstop d
    obtain ⟨q, hq, hy⟩ := feedStep_reads g h
    obtain ⟨e, he⟩ := hy d (s'.inp ++ x)
    rcases ih hstop e with ih | ⟨a, line, rest, hinp, hx, hlf, hlen, hat, hlog, herr⟩
    · left
      rw [hq, List.append_assoc, feedLoop_of_inl g he]
      exact ih
    · right
      -- the octets this round read go in front
      have hsame : (zh1Feed g s.c (q ++ a)).Same (zh1Feed g s'.c a) := by
        obtain ⟨e, he⟩ := hy 0 a
        rw [zh1Feed, feedLoop_of_inl g he]
        exact feedLoop_counter g s'.c a e 0
      refine ⟨q ++ a, line, rest, ?_, hx, hlf, hlen, ?_, ?_, herr⟩
      · rw [hq, hinp]; simp
      · exact ⟨hsame.1.trans hat.1, hsame.2.2.trans hat.2.1, by rw [hsame.2.1]; exact hat.2.2⟩
      · rw [hsame.2.1]; exact hlog

/-! ### Whole runs

Two cuts of a stream are compared through the feed of the whole stream at once. -/

/-- Feed the segments one after another to a connection with unread input `inp`, until it
closes or is detached. -/
def feedAll (c : Zh1Conn) (inp : Bytes) : List Bytes → FeedRes
  | [] => ⟨.needMore, c, inp⟩
  | x :: xs =>
    let r := zh1Feed g c (inp ++ x)
    if r.rc.stops then r else feedAll r.c r.inp xs

/-- A whole run on a fresh connection. -/
def feedSegments (segs : List Bytes) : FeedRes := feedAll g zh1New [] segs

/-- The dispatched requests, as the handler reads them. -/
def FeedRes.requests (r : FeedRes) :
    List (Option Bytes × Option Bytes × Option Bytes × Option Bytes × List ZhsHdr × Bytes) :=
  r.c.log.map (·.view)

/-- The parser refused the stream with an error response. -/
def FeedRes.rejected (r : FeedRes) : Bool := r.c.err.isSome

theorem FeedRes.Alike.agree {r r' : FeedRes} (h : r.Alike r') :
    r.requests = r'.requests ∧ r.rejected = r'.rejected :=
  ⟨by rw [requests, h.1, requests], h.2⟩

/-- The run over the segments, started where a feed of `a` left the connection, ends as one
feed of everything, unless it cut a chunk-size line short. -/
theorem feedAll_cases (c : Zh1Conn) (a : Bytes) (segs : List Bytes)
    (ha : (zh1Feed g c a).rc.stops = false) :
    (feedAll g (zh1Feed g c a).c (zh1Feed g c a).inp segs).Alike
        (zh1Feed g c (a ++ segs.flatten)) ∨
      ∃ b y, a ++ segs.flatten = b ++ y ∧
        CutShort g c b y (feedAll g (zh1Feed g c a).c (zh1Feed g c a).inp segs) := by
  induction segs generalizing a with
  | nil =>
    left
    simp only [feedAll, List.flatten_nil, List.append_nil]
    exact ⟨rfl, rfl⟩
  | cons x xs ih =>
    have hsame := feedLoop_resume g ⟨c, a, 0⟩ ha x 0 0
    have hr : (zh1Feed g (zh1Feed g c a).c ((zh1Feed g c a).inp ++ x)).Same
        (zh1Feed g c (a ++ x)) := hsame
    rw [feedAll]
    have hflat : a ++ (x :: xs).flatten = (a ++ x) ++ xs.flatten := by simp
    rw [hflat]
    cases hstop : (zh1Feed g c (a ++ x)).rc.stops with
    | true =>
      rw [if_pos (hr.1.trans hstop)]
      rcases feedLoop_stop g ⟨c, a ++ x, 0⟩ hstop xs.flatten 0 with hal | hcut
      · left
        exact ⟨by rw [hr.2.1]; exact hal.1, by rw [hr.2.1]; exact hal.2⟩
      · right
        obtain ⟨b, line, rest, hb, hx, hlf, hlen, hat, hlog, herr⟩ := hcut
        exact ⟨a ++ x, xs.flatten, rfl, b, line, rest, hb, hx, hlf, hlen, hat,
          by rw [hr.2.1]; exact hlog, by rw [hr.2.1]; exact herr⟩
    | false =>
      rw [if_neg (by rw [hr.1, hstop]; simp), hr.2.1, hr.2.2]
      exact ih (a ++ x) hstop

theorem zh1Feed_new_nil : zh1Feed g zh1New [] = ⟨.needMore, zh1New, []⟩ := by
  refine feedLoop_of_inr g ?_
  simp only [feedStep, h1Round, zh1New, h1Reqline]
  rw [h1Budgeted_wait g (by simp) (by simp)]
  rfl

theorem feedSegments_cases (segs : List Bytes) :
    (feedSegments g segs).Alike (zh1Feed g zh1New segs.flatten) ∨
      ∃ b y, segs.flatten = b ++ y ∧ CutShort g zh1New b y (feedSegments g segs) := by
  have h := feedAll_cases g zh1New [] segs (by rw [zh1Feed_new_nil]; rfl)
  rw [zh1Feed_new_nil, List.nil_append] at h
  exact h

/-- One segment is one feed. -/
theorem feedSegments_whole (s : Bytes) : (feedSegments g [s]).Alike (zh1Feed g zh1New s) := by
  simp only [feedSegments, feedAll, List.nil_append]
  split <;> exact ⟨rfl, rfl⟩

/-- A read that ends between the CR and the LF of a maximal chunk-size line is refused. -/
theorem feedSegments_cut {a line b : Bytes} (hat : AtSizeLine g zh1New a) (hlf : LF ∉ line)
    (hlen : line.length = H1_CHUNK_LINE_MAX) :
    (feedSegments g [a ++ line ++ [CR], LF :: b]).c.log = (zh1Feed g zh1New a).c.log ∧
      (feedSegments g [a ++ line ++ [CR], LF :: b]).rejected = true := by
  obtain ⟨hrun, hinp, hst⟩ := hat
  have hsame := feedLoop_resume g ⟨zh1New, a, 0⟩ hrun (line ++ [CR]) 0 0
  rw [show (feedLoop g ⟨zh1New, a, 0⟩) = zh1Feed g zh1New a from rfl, hinp,
    List.nil_append] at hsame
  generalize hc : (zh1Feed g zh1New a).c = c at hsame hst ⊢
  have hround : Refuses c (h1Round g c (line ++ [CR])) := by
    simp only [h1Round, hst, h1ChunkRound]
    rw [h1FindLine_eq_incomplete.mpr (by simp [hlf]; decide)]
    rw [if_pos (by simp; omega)]
    exact refuses_error g rfl 400 _
  obtain ⟨r, hr, hrc, hlog, herr⟩ := feedStep_refuses g (s := ⟨c, line ++ [CR], 0⟩) hround
  rw [feedLoop_of_inr g hr] at hsame
  have hfeed : feedSegments g [a ++ line ++ [CR], LF :: b] =
      zh1Feed g zh1New (a ++ (line ++ [CR])) := by
    simp only [feedSegments, feedAll, List.nil_append, List.append_assoc]
    rw [if_pos]
    rw [show zh1Feed g zh1New (a ++ (line ++ [CR])) =
      feedLoop g ⟨zh1New, a ++ (line ++ [CR]), 0⟩ from rfl, ← hsame.1, hrc]
    rfl
  rw [hfeed, FeedRes.rejected]
  have hceq : r.c = (zh1Feed g zh1New (a ++ (line ++ [CR]))).c := hsame.2.1
  rw [← hceq]
  exact ⟨hlog, herr⟩

/-- Every run of a stream that is refused behind its maximal size lines agrees with the feed of the whole. -/
theorem feedSegments_agree {s : Bytes}
    (h : ∀ a line b, s = a ++ line ++ crlf ++ b → LF ∉ line → line.length = H1_CHUNK_LINE_MAX → AtSizeLine g zh1New a →
      (zh1Feed g zh1New s).requests = (zh1Feed g zh1New a).requests ∧ (zh1Feed g zh1New s).rejected = true)
    {segs : List Bytes} (hs : segs.flatten = s) :
    (feedSegments g segs).requests = (zh1Feed g zh1New s).requests ∧
      (feedSegments g segs).rejected = (zh1Feed g zh1New s).rejected := by
  subst hs
  rcases feedSegments_cases g segs with hal | ⟨b, y, hsplit, hcut⟩
  · exact hal.agree
  · -- a read ended behind the CR of such a line
    obtain ⟨a, line, rest, rfl, rfl, hlf, hlen, hat, hlog, herr⟩ := hcut
    obtain ⟨hreq, hrej⟩ := h a line rest (by rw [hsplit]; simp [crlf]) hlf hlen hat
    refine ⟨Eq.trans ?_ hreq.symm, herr.trans hrej.symm⟩
    rw [FeedRes.requests, hlog, FeedRes.requests]

/-- **No size line of exactly 4096 octets**: the cuts do not matter. -/
theorem feedSegments_agree_short {s : Bytes}
    (hno : ∀ a line b, s = a ++ line ++ crlf ++ b → LF ∉ line → AtSizeLine g zh1New a → line.length ≠ H1_CHUNK_LINE_MAX)
    {segs : List Bytes} (hs : segs.flatten = s) :
    (feedSegments g segs).requests = (zh1Feed g zh1New s).requests ∧
      (feedSegments g segs).rejected = (zh1Feed g zh1New s).rejected :=
  feedSegments_agree g (fun a line b heq hlf hlen hat => absurd hlen (hno a line b heq hlf hat)) hs

/-- **Segmentation independence.** Every two ways of cutting the stream into reads lead to
the same dispatched requests and the same verdict exactly when, behind each chunk-size line
of exactly 4096 octets the parser comes to, the stream is refused before another request
is dispatched; in particular when there is no such line. -/
theorem zh1Feed_segmentation (s : Bytes) :
    (∀ segs₁ segs₂ : List Bytes, segs₁.flatten = s → segs₂.flatten = s →
      (feedSegments g segs₁).requests = (feedSegments g segs₂).requests ∧
        (feedSegments g segs₁).rejected = (feedSegments g segs₂).rejected) ↔
    (∀ a line b, s = a ++ line ++ crlf ++ b → LF ∉ line →
      line.length = H1_CHUNK_LINE_MAX → AtSizeLine g zh1New a →
      (zh1Feed g zh1New s).requests = (zh1Feed g zh1New a).requests ∧
        (zh1Feed g zh1New s).rejected = true) := by
  constructor
  · rintro h a line b rfl hlf hlen hat
    obtain ⟨hreq, hrej⟩ := h [a ++ line ++ crlf ++ b] [a ++ line ++ [CR], LF :: b]
      (by simp) (by simp [crlf])
    obtain ⟨hwreq, hwrej⟩ := (feedSegments_whole g (a ++ line ++ crlf ++ b)).agree
    obtain ⟨hlog, hcut⟩ := feedSegments_cut g (b := b) hat hlf hlen
    refine ⟨hwreq.symm.trans (hreq.trans ?_), hwrej.symm.trans (hrej.trans hcut)⟩
    rw [FeedRes.requests, hlog, FeedRes.requests]
  · intro h segs₁ segs₂ h₁ h₂
    obtain ⟨hreq₁, hrej₁⟩ := feedSegments_agree g h h₁
    obtain ⟨hreq₂, hrej₂⟩ := feedSegments_agree g h h₂
    exact ⟨hreq₁.trans hreq₂.symm, hrej₁.trans hrej₂.symm⟩

/-- The size line of a last chunk with an extension, however long within the limit. -/
theorem h1Round_lastChunk {c : Zh1Conn} (hst : c.state = .chunkSize) {line ext : Bytes} (hlf : LF ∉ line)
    (hlen : line.length ≤ H1_CHUNK_LINE_MAX) (hsize : hexSize 0 false line = some (0, true, ext))
    (hext : ext.head? = some 59) (rest : Bytes) :
    h1Round g c (line ++ crlf ++ rest) = ⟨.next, { c with state := .trailer }, rest⟩ := by
  have hline : h1FindLine (line ++ crlf ++ rest) = .line line (line.length + 2) :=
    h1FindLine_eq_line.mpr ⟨hlf, rfl, rest, rfl⟩
  have hdrop : (line ++ crlf ++ rest).drop (line.length + 2) = rest := by
    rw [← List.drop_drop, List.append_assoc, List.drop_left]
    rfl
  simp only [h1Round, hst, h1ChunkRound, hline, hdrop, h1ChunkSizeText]
  rw [if_neg (Nat.not_lt.mpr hlen), hsize]
  dsimp only
  rw [if_neg (by simp [hext]), if_pos rfl]
  rfl

/-- Behind such a line it does not matter how long it was. -/
theorem zh1Feed_lastChunk {a : Bytes} (hat : AtSizeLine g zh1New a) {line line' ext ext' : Bytes} (hlf : LF ∉ line)
    (hlf' : LF ∉ line') (hlen : line.length ≤ H1_CHUNK_LINE_MAX) (hlen' : line'.length ≤ H1_CHUNK_LINE_MAX)
    (hsize : hexSize 0 false line = some (0, true, ext)) (hsize' : hexSize 0 false line' = some (0, true, ext'))
    (hext : ext.head? = some 59) (hext' : ext'.head? = some 59) (rest : Bytes) :
    (zh1Feed g zh1New (a ++ (line ++ crlf ++ rest))).c = (zh1Feed g zh1New (a ++ (line' ++ crlf ++ rest))).c := by
  obtain ⟨hrun, hinp, hst⟩ := hat
  have hloop : zh1Feed g zh1New a = feedLoop g ⟨zh1New, a, 0⟩ := rfl
  have hsame := feedLoop_resume g ⟨zh1New, a, 0⟩ hrun (line ++ crlf ++ rest) 0 0
  have hsame' := feedLoop_resume g ⟨zh1New, a, 0⟩ hrun (line' ++ crlf ++ rest) 0 0
  rw [← hloop, hinp, List.nil_append, feedLoop_next g 0 (h1Round_lastChunk g hst hlf hlen hsize hext rest)] at hsame
  rw [← hloop, hinp, List.nil_append, feedLoop_next g 0 (h1Round_lastChunk g hst hlf' hlen' hsize' hext' rest)]
    at hsame'
  exact hsame.2.1.symm.trans hsame'.2.1

/-- A chunked request up to its first chunk-size line. -/
def chunkedHead : Bytes :=
  str "POST / HTTP/1.1\r\nHost: a\r\nTransfer-Encoding: chunked\r\n\r\n"

/-- The last chunk's size line, filled up to the limit by an extension. -/
def maximalSizeLine : Bytes := str "0;" ++ List.replicate 4094 97

/-- A stream with such a line is accepted whole and refused when a read ends between the
line's CR and its LF. -/
theorem zh1Feed_segmentation_maximalSizeLine :
    (feedSegments H1Cfg.silent [chunkedHead ++ maximalSizeLine ++ crlf ++ crlf]).rejected =
        false ∧
      (feedSegments H1Cfg.silent
        [chunkedHead ++ maximalSizeLine ++ [CR], LF :: crlf]).rejected = true ∧
      [chunkedHead ++ maximalSizeLine ++ crlf ++ crlf].flatten =
        [chunkedHead ++ maximalSizeLine ++ [CR], LF :: crlf].flatten := by
  have hat : AtSizeLine H1Cfg.silent zh1New chunkedHead := by
    rw [AtSizeLine, chunkedHead, str_ofList]
    decide +kernel
  have hfront : maximalSizeLine = 48 :: 59 :: List.replicate 4094 97 := by
    have hzero : str "0;" = [48, 59] := str_ofList _
    rw [maximalSizeLine, hzero, List.cons_append, List.cons_append, List.nil_append]
  have hlf : LF ∉ maximalSizeLine := by
    rw [hfront, List.mem_cons, List.mem_cons, List.mem_replicate]
    decide
  have hlen : maximalSizeLine.length = H1_CHUNK_LINE_MAX := by
    rw [hfront, List.length_cons, List.length_cons, List.length_replicate]
    rfl
  refine ⟨?_, ?_, ?_⟩
  · -- a short line leads to the same connection
    have hzero : ∀ ext : Bytes, hexSize 0 false (48 :: 59 :: ext) = some (0, true, 59 :: ext) := fun _ => rfl
    have hsize := hzero (List.replicate 4094 97)
    rw [← hfront] at hsize
    have hlf' : LF ∉ ([48, 59] : Bytes) := by decide
    have hsame := zh1Feed_lastChunk H1Cfg.silent hat hlf hlf' hlen.le (by decide) hsize (hzero [])
      List.head?_cons List.head?_cons crlf
    have hassoc : chunkedHead ++ maximalSizeLine ++ crlf ++ crlf = chunkedHead ++ (maximalSizeLine ++ crlf ++ crlf) := by
      simp only [List.append_assoc]
    rw [FeedRes.rejected, (feedSegments_whole H1Cfg.silent _).2, hassoc, hsame, chunkedHead, str_ofList]
    decide +kernel
  · exact (feedSegments_cut H1Cfg.silent hat hlf hlen).2
  · simp [crlf]

end Zcio
