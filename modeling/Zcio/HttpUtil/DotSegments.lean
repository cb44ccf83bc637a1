import Zcio.HttpUtil.Segments

/-!
# Zcio.HttpUtil.DotSegments

The remove_dot_segments of RFC 3986, section 5.2.4, which `remove_dot_segments` names as what it
does: a loop that rewrites the front of an input buffer and moves one segment at a time to an
output buffer. On a path that the code accepts both run the segments over the same stack; the
RFC keeps a slash behind a last `.` or `..`.
-/

namespace Zcio

open Lib.Stack (run run_cons step_skip step_pop step_push)

/-! ### The algorithm of the RFC

RFC 3986 5.2.4, with its five rules in their order. -/

/-- The input and the output buffer. -/
structure Dots where
  input : Bytes
  output : Bytes
  deriving Repr, DecidableEq

/-- The octets up to the last slash of an output buffer, the slash removed with what follows. -/
def dropLastSegment (out : Bytes) : Bytes :=
  ((out.reverse.dropWhile (· != slash)).drop 1).reverse

/-- The first path segment of a non-empty input: its initial slash, if any, and what follows up
to the next one. -/
def firstSegment : Bytes → Bytes
  | [] => []
  | c :: rest => c :: rest.takeWhile (· != slash)

/-- One round of step 2, its cases A to E. -/
def Dots.round (s : Dots) : Dots ⊕ Bytes :=
  if s.input = [] then .inr s.output
  -- A: the prefix "../" or "./" is removed
  else if [dot, dot, slash] <+: s.input then .inl { s with input := s.input.drop 3 }
  else if [dot, slash] <+: s.input then .inl { s with input := s.input.drop 2 }
  -- B: the prefix "/./", or a whole "/.", becomes "/"
  else if [slash, dot, slash] <+: s.input then
    .inl { s with input := slash :: s.input.drop 3 }
  else if s.input = [slash, dot] then .inl { s with input := [slash] }
  -- C: so does the prefix "/../", or a whole "/..", and the last output segment goes
  else if [slash, dot, dot, slash] <+: s.input then
    .inl ⟨slash :: s.input.drop 4, dropLastSegment s.output⟩
  else if s.input = [slash, dot, dot] then .inl ⟨[slash], dropLastSegment s.output⟩
  -- D: a lone "." or ".." is removed
  else if s.input = [dot] ∨ s.input = [dot, dot] then .inl { s with input := [] }
  -- E: the first segment moves to the output
  else .inl ⟨s.input.drop (firstSegment s.input).length, s.output ++ firstSegment s.input⟩

theorem Dots.round_decreases : Lib.Decreases Dots.round fun s => s.input.length := by
  rintro ⟨input, output⟩ s' h
  unfold round at h
  dsimp only at h
  cases input with
  | nil =>
    rw [if_pos rfl] at h
    cases h
  | cons c rest =>
    rw [if_neg (List.cons_ne_nil _ _)] at h
    -- a prefix that is dropped is there
    have hdrop (n : Nat) : ((c :: rest).drop (n + 1)).length < (c :: rest).length := by
      rw [List.length_drop, List.length_cons]
      omega
    have hkeep {p : Bytes} (hp : p <+: c :: rest) (h2 : 2 ≤ p.length) :
        (slash :: (c :: rest).drop p.length).length < (c :: rest).length := by
      have := hp.length_le
      rw [List.length_cons, List.length_drop]
      omega
    split at h
    · cases h
      exact hdrop 2
    · split at h
      · cases h
        exact hdrop 1
      · split at h
        · rename_i hp
          cases h
          exact hkeep hp (by decide)
        · split at h
          · rename_i heq
            cases h
            show 1 < (c :: rest).length
            rw [heq]
            decide
          · split at h
            · rename_i hp
              cases h
              exact hkeep hp (by decide)
            · split at h
              · rename_i heq
                cases h
                show 1 < (c :: rest).length
                rw [heq]
                decide
              · split at h
                · cases h
                  exact Nat.succ_pos _
                · cases h
                  exact hdrop _

/-- `remove_dot_segments` of RFC 3986, section 5.2.4. -/
def rfcRemoveDotSegments (path : Bytes) : Bytes :=
  Lib.loop Dots.round _ Dots.round_decreases ⟨path, []⟩

/-! ### One segment of a rooted path

A round of the algorithm takes one segment and the slash in front of it. -/

theorem dropLastSegment_stackPath {seg : Bytes} (hseg : slash ∉ seg) (st : List Bytes) :
    dropLastSegment (stackPath (seg :: st)) = stackPath st := by
  have hrev : ∀ c ∈ seg.reverse, (c != slash) = true := fun c hc => by
    rw [bne_iff_ne]
    rintro rfl
    exact hseg (List.mem_reverse.mp hc)
  unfold dropLastSegment
  rw [stackPath_cons, List.reverse_append, List.reverse_cons, List.append_assoc,
    List.dropWhile_append_of_pos hrev]
  simp

/-- The segment a rooted input starts with. -/
theorem firstSegment_rooted {seg rem : Bytes} (hseg : slash ∉ seg)
    (hrem : rem = [] ∨ rem.head? = some slash) :
    firstSegment (slash :: (seg ++ rem)) = slash :: seg := by
  have hpos : ∀ c ∈ seg, (c != slash) = true := fun c hc => by
    rw [bne_iff_ne]
    rintro rfl
    exact hseg hc
  rw [firstSegment, List.takeWhile_append_of_pos hpos]
  cases rem with
  | nil => simp
  | cons c rem =>
    obtain rfl : c = slash := by
      rcases hrem with h | h
      · cases h
      · exact Option.some.inj h
    simp

/-- A rooted path is cut after its first segment in one way. -/
theorem segment_unique {p seg rem rem' : Bytes} (hp : slash ∉ p) (hseg : slash ∉ seg)
    (hrem' : rem' = [] ∨ rem'.head? = some slash) (hrem : rem = [] ∨ rem.head? = some slash)
    (h : p ++ rem' = seg ++ rem) : seg = p ∧ rem = rem' := by
  have hfirst := firstSegment_rooted hseg hrem
  rw [← h, firstSegment_rooted hp hrem'] at hfirst
  obtain rfl : p = seg := List.tail_eq_of_cons_eq hfirst
  exact ⟨rfl, (List.append_cancel_left h).symm⟩

/-- When a prefix that is a whole segment and the next slash matches. -/
theorem segment_prefix {p seg rem : Bytes} (hp : slash ∉ p) (hseg : slash ∉ seg)
    (hrem : rem = [] ∨ rem.head? = some slash) :
    slash :: (p ++ [slash]) <+: slash :: (seg ++ rem) ↔ seg = p ∧ rem ≠ [] := by
  rw [List.cons_prefix_cons]
  refine ⟨fun ⟨_, rest, h⟩ => ?_, fun ⟨hp, hne⟩ => ⟨rfl, ?_⟩⟩
  · rw [List.append_assoc, List.singleton_append] at h
    obtain ⟨rfl, rfl⟩ := segment_unique hp hseg (.inr rfl) hrem h
    exact ⟨rfl, List.cons_ne_nil _ _⟩
  · subst hp
    refine List.prefix_append_right_inj _ |>.mpr ?_
    obtain ⟨c, rest, rfl⟩ := List.exists_cons_of_ne_nil hne
    obtain rfl : c = slash := Option.some.inj (hrem.resolve_left hne)
    exact ⟨rest, rfl⟩

/-- When an input that is a whole segment matches. -/
theorem segment_whole {p seg rem : Bytes} (hp : slash ∉ p) (hseg : slash ∉ seg)
    (hrem : rem = [] ∨ rem.head? = some slash) :
    slash :: (seg ++ rem) = slash :: p ↔ seg = p ∧ rem = [] := by
  refine ⟨fun h => ?_, fun ⟨hp, hnil⟩ => by rw [hp, hnil, List.append_nil]⟩
  have htail := (List.tail_eq_of_cons_eq h).symm
  rw [← List.append_nil p] at htail
  exact segment_unique hp hseg (.inl rfl) hrem htail

/-- What follows a segment of dots: a last one leaves its slash. -/
def dotsRest (rem : Bytes) : Bytes := if rem = [] then [slash] else rem

/-- What stays of an input when a segment of dots and the slash behind it become a slash. -/
theorem drop_dots {p rem : Bytes} (hne : rem ≠ []) (hrem : rem = [] ∨ rem.head? = some slash) :
    slash :: (slash :: (p ++ rem)).drop (p.length + 2) = dotsRest rem := by
  obtain ⟨c, rest, rfl⟩ := List.exists_cons_of_ne_nil hne
  obtain rfl : c = slash := Option.some.inj (hrem.resolve_left hne)
  rw [dotsRest, if_neg hne, List.drop_succ_cons, ← List.drop_drop, List.drop_left]
  rfl

/-- **One segment** of a rooted input is one item on the stack of the output. -/
theorem Dots.round_segment {seg rem out : Bytes} (hseg : slash ∉ seg)
    (hrem : rem = [] ∨ rem.head? = some slash) :
    Dots.round ⟨slash :: (seg ++ rem), out⟩ = .inl (
      if seg = [dot] then ⟨dotsRest rem, out⟩
      else if seg = [dot, dot] then ⟨dotsRest rem, dropLastSegment out⟩
      else ⟨rem, out ++ slash :: seg⟩) := by
  -- the two rules for a relative input do not apply behind a slash
  have hroot {p : Bytes} (hp : p.head? = some dot) : ¬p <+: slash :: (seg ++ rem) := by
    rintro ⟨rest, h⟩
    cases p with
    | nil => cases hp
    | cons c p =>
      rw [Option.some.inj hp] at h
      exact absurd (List.head_eq_of_cons_eq h) (by decide)
  have hroot' {p : Bytes} (hp : p.head? = some dot) : slash :: (seg ++ rem) ≠ p := fun h =>
    hroot hp (h ▸ List.prefix_refl _)
  have hdot : slash ∉ [dot] := by decide
  have hdots : slash ∉ [dot, dot] := by decide
  unfold round
  dsimp only
  rw [if_neg (List.cons_ne_nil _ _), if_neg (hroot rfl), if_neg (hroot rfl)]
  -- each rule on the whole input becomes a test of the first segment
  simp only [show [slash, dot, slash] = slash :: ([dot] ++ [slash]) from rfl,
    show [slash, dot, dot, slash] = slash :: ([dot, dot] ++ [slash]) from rfl,
    segment_prefix hdot hseg hrem, segment_prefix hdots hseg hrem, segment_whole hdot hseg hrem,
    segment_whole hdots hseg hrem]
  -- a single dot, a double dot, or a name
  by_cases h1 : seg = [dot]
  · subst h1
    by_cases hnil : rem = []
    · simp [hnil, dotsRest]
    · rw [if_pos ⟨rfl, hnil⟩, if_pos rfl, ← drop_dots hnil hrem (p := [dot])]
      rfl
  · by_cases h2 : seg = [dot, dot]
    · subst h2
      by_cases hnil : rem = []
      · simp [hnil, dotsRest]
      · rw [if_neg fun h => h1 h.1, if_neg fun h => h1 h.1, if_pos ⟨rfl, hnil⟩, if_neg h1,
          if_pos rfl, ← drop_dots hnil hrem (p := [dot, dot])]
        rfl
    · rw [if_neg fun h => h1 h.1, if_neg fun h => h1 h.1, if_neg fun h => h2 h.1,
        if_neg fun h => h2 h.1, if_neg fun h => h.elim (hroot' rfl) (hroot' rfl), if_neg h1,
        if_neg h2, firstSegment_rooted hseg hrem]
      exact congrArg (fun r => Sum.inl (Dots.mk r _)) List.drop_left

/-! ### The whole path

Segments are pushed and popped as by the code, up to the slash at the end of a path that
ends in dots. -/

/-- The path's last segment is `.` or `..`. -/
def EndsInDots (path : Bytes) : Prop :=
  (pathSegments path).getLast? = some [dot] ∨ (pathSegments path).getLast? = some [dot, dot]

instance (path : Bytes) : Decidable (EndsInDots path) := inferInstanceAs (Decidable (_ ∨ _))

theorem endsInDots_cons {seg rem : Bytes} (hseg : slash ∉ seg)
    (hrem : rem = [] ∨ rem.head? = some slash) :
    EndsInDots (slash :: (seg ++ rem)) ↔
      if rem = [] then seg = [dot] ∨ seg = [dot, dot] else EndsInDots rem := by
  unfold EndsInDots
  rw [pathSegments_cons hseg hrem]
  split
  · rename_i hnil
    rw [hnil]
    exact or_congr Option.some_inj Option.some_inj
  · rename_i hne
    obtain ⟨c, rest, rfl⟩ := List.exists_cons_of_ne_nil hne
    have hsegs : pathSegments (c :: rest) ≠ [] := List.splitOn_ne_nil _ _
    rw [List.getLast?_cons_of_ne_nil hsegs]

/-- The slash the RFC keeps. -/
def dotsSlash (path : Bytes) : Bytes := if EndsInDots path then [slash] else []

theorem dotsSlash_dots {seg rem : Bytes} (hseg : slash ∉ seg)
    (hrem : rem = [] ∨ rem.head? = some slash) (hd : seg = [dot] ∨ seg = [dot, dot]) :
    dotsSlash (slash :: (seg ++ rem)) = if rem = [] then [slash] else dotsSlash rem := by
  by_cases hnil : rem = []
  · rw [if_pos hnil]
    exact if_pos ((endsInDots_cons hseg hrem).mpr (by rw [if_pos hnil]; exact hd))
  · rw [if_neg hnil]
    simp only [dotsSlash, endsInDots_cons hseg hrem, if_neg hnil]

theorem dotsSlash_ordinary {seg rem : Bytes} (hseg : slash ∉ seg)
    (hrem : rem = [] ∨ rem.head? = some slash) (hd : ¬(seg = [dot] ∨ seg = [dot, dot])) :
    dotsSlash (slash :: (seg ++ rem)) = dotsSlash rem := by
  by_cases hnil : rem = []
  · have hend : ¬EndsInDots (slash :: (seg ++ rem)) := fun h =>
      hd (by rw [endsInDots_cons hseg hrem, if_pos hnil] at h; exact h)
    rw [dotsSlash, if_neg hend, hnil]
    exact (if_neg (by decide)).symm
  · simp only [dotsSlash, endsInDots_cons hseg hrem, if_neg hnil]

theorem Dots.loop_nil (out : Bytes) :
    Lib.loop Dots.round _ Dots.round_decreases ⟨[], out⟩ = out :=
  Lib.loop_of_inr rfl

/-- A last slash goes to the output. -/
theorem Dots.loop_slash (out : Bytes) :
    Lib.loop Dots.round _ Dots.round_decreases ⟨[slash], out⟩ = out ++ [slash] := by
  have hround := @Dots.round_segment [] [] out List.not_mem_nil (.inl rfl)
  rw [if_neg (by decide), if_neg (by decide)] at hround
  exact (Lib.loop_of_inl hround).trans (loop_nil _)

/-- **The algorithm of the RFC runs the segments over a stack**, and keeps a slash behind a last
segment of dots. -/
theorem Dots.loop_run {rem : Bytes} {st out : List Bytes}
    (hrem : rem = [] ∨ rem.head? = some slash) (hst : ∀ seg ∈ st, slash ∉ seg)
    (h : run segmentAct st (pathSegments rem) = some out) :
    Lib.loop Dots.round _ Dots.round_decreases ⟨rem, stackPath st⟩ =
      stackPath out ++ dotsSlash rem := by
  induction hn : rem.length using Nat.strongRecOn generalizing rem st with
  | _ n ih =>
    cases rem with
    | nil =>
      cases h
      exact (loop_nil _).trans (List.append_nil _).symm
    | cons c rest =>
      obtain ⟨seg, rem, rfl, hseg, hrem', -⟩ := exists_segment rest
      obtain rfl : c = slash := Option.some.inj (hrem.resolve_left (List.cons_ne_nil _ _))
      have hlt : rem.length < n := by
        rw [← hn, List.length_cons, List.length_append]
        omega
      rw [Lib.loop_of_inl (Dots.round_segment hseg hrem')]
      rw [pathSegments_cons hseg hrem'] at h
      -- a segment of dots that leaves `st'` on the stack
      have hdots {st' : List Bytes} (hst' : ∀ seg ∈ st', slash ∉ seg)
          (h : run segmentAct st' (pathSegments rem) = some out) :
          Lib.loop Dots.round _ Dots.round_decreases ⟨dotsRest rem, stackPath st'⟩ =
            stackPath out ++ if rem = [] then [slash] else dotsSlash rem := by
        unfold dotsRest
        split
        · rename_i hnil
          subst hnil
          cases h
          exact loop_slash _
        · exact ih rem.length hlt hrem' hst' h rfl
      by_cases h1 : seg = [dot]
      · have hact : segmentAct seg = .skip := by rw [h1]; decide
        rw [run_cons (step_skip hact)] at h
        rw [if_pos h1, dotsSlash_dots hseg hrem' (.inl h1)]
        exact hdots hst h
      · rw [if_neg h1]
        by_cases h2 : seg = [dot, dot]
        · have hact : segmentAct seg = .pop := segmentAct_pop.mpr h2
          rw [if_pos h2, dotsSlash_dots hseg hrem' (.inr h2)]
          cases st with
          | nil =>
            rw [Lib.Stack.run_cons_none (step_pop hact)] at h
            cases h
          | cons top st =>
            rw [run_cons (step_pop hact)] at h
            rw [dropLastSegment_stackPath (hst top List.mem_cons_self)]
            exact hdots (fun a ha => hst a (List.mem_cons_of_mem _ ha)) h
        · have hact : segmentAct seg = .push := segmentAct_push.mpr ⟨h1, h2⟩
          rw [run_cons (step_push hact)] at h
          rw [if_neg h2, ← stackPath_cons, dotsSlash_ordinary hseg hrem' fun h => h.elim h1 h2]
          exact ih rem.length hlt hrem' (List.forall_mem_cons.mpr ⟨hseg, hst⟩) h rfl

/-- A path that leaves nothing on the stack ends in dots: an ordinary last segment is left. -/
theorem endsInDots_of_run_nil {path : Bytes} (hroot : path.head? = some slash)
    (h : run segmentAct [] (pathSegments path) = some []) : EndsInDots path := by
  have hne : pathSegments path ≠ [] := by
    cases path with
    | nil => cases hroot
    | cons c rest => exact List.splitOn_ne_nil _ _
  by_contra hd
  have hlast : segmentAct ((pathSegments path).getLast hne) = .push := by
    refine segmentAct_push.mpr ⟨fun h => hd (.inl ?_), fun h => hd (.inr ?_)⟩
    · rw [List.getLast?_eq_some_getLast hne, h]
    · rw [List.getLast?_eq_some_getLast hne, h]
  rw [← List.dropLast_append_getLast hne] at h
  have htop := Lib.Stack.run_concat_push h hlast
  cases htop

/-- **`remove_dot_segments` is the algorithm of RFC 3986 but for the slash behind a last `.` or
`..`**: on a path that it accepts the two agree exactly if the last segment is an ordinary one, or
every ordinary segment of the path is popped by a later `..`. -/
theorem removeDotSegments_rfc {path out : Bytes} (hroot : path.head? = some slash)
    (h : removeDotSegments path = some out) :
    out = rfcRemoveDotSegments path ↔
      ¬EndsInDots path ∨ (pathSegments path).countP (segmentAct · = .push) =
        (pathSegments path).countP (segmentAct · = .pop) := by
  rw [removeDotSegments_eq hroot] at h
  obtain ⟨st, hst, rfl⟩ := Option.map_eq_some_iff.mp h
  -- the loop of the RFC leaves the stack, with a slash for a path that ends in dots
  have hrfc : rfcRemoveDotSegments path = stackPath st ++ dotsSlash path :=
    Dots.loop_run (.inr hroot) (fun _ h => absurd h List.not_mem_nil) hst
  have hcount := Lib.Stack.length_run hst
  rw [List.length_nil, Nat.zero_add] at hcount
  rw [hrfc]
  unfold normalPath dotsSlash
  -- nothing is left: both give the root
  by_cases hnil : st = []
  · subst hnil
    rw [if_pos rfl]
    rw [List.length_nil, Nat.zero_add] at hcount
    refine iff_of_true ?_ (.inr hcount.symm)
    have hd : EndsInDots path := endsInDots_of_run_nil hroot hst
    rw [if_pos hd]
    rfl
  · -- the code leaves the slash out that the RFC keeps
    rw [if_neg hnil]
    have hlen : st.length ≠ 0 := fun h => hnil (List.length_eq_zero_iff.mp h)
    by_cases hd : EndsInDots path
    · rw [if_pos hd]
      refine iff_of_false (fun h => ?_) (by rintro (hn | hn); exacts [hn hd, by omega])
      have := congrArg List.length h
      rw [List.length_append, List.length_singleton] at this
      omega
    · rw [if_neg hd, List.append_nil]
      exact iff_of_true rfl (.inl hd)

theorem removeDotSegments_rfc_parent :
    str "/a/c" = rfcRemoveDotSegments (str "/a/b/../c") ↔
      ¬EndsInDots (str "/a/b/../c") ∨
        (pathSegments (str "/a/b/../c")).countP (segmentAct · = .push) =
          (pathSegments (str "/a/b/../c")).countP (segmentAct · = .pop) :=
  removeDotSegments_rfc (by decide) (by decide)

/-- `/a/.` names the directory `/a/`, and becomes `/a`. -/
theorem removeDotSegments_lastDot :
    ¬∀ path out : Bytes, path.head? = some slash → removeDotSegments path = some out →
      out = rfcRemoveDotSegments path := by
  intro h
  have hdiff : str "/a" ≠ rfcRemoveDotSegments (str "/a/.") := by decide
  exact hdiff (h (str "/a/.") (str "/a") (by decide) (by decide))

end Zcio
