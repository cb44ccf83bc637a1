import Mathlib.Data.List.Induction
import Zcio.HttpUtil.Target
import Zcio.Lib.Stack

/-!
# Zcio.HttpUtil.Segments

What `zhs_decode_target_` accepts and what it gives. The segments of the decoded path push
themselves onto a stack, `..` pops it and `.` does nothing; `remove_dot_segments` does this in
the memory it reads from, so that what is on the stack stands in front of what is still to be
read.
-/

namespace Zcio

open Lib.Stack (Act)

/-! ### Segments

A path as a list of segments, and the act of each segment on a stack: nothing, pop or push.
-/

/-- The segments of a rooted path: the texts between its slashes. -/
def pathSegments : Bytes → List Bytes
  | [] => []
  | _ :: rest => rest.splitOn slash

/-- What a segment does to the segments in front of it. -/
def segmentAct (seg : Bytes) : Act :=
  if seg = [dot] then .skip else if seg = [dot, dot] then .pop else .push

/-- The path of the segments on a stack, its top last. -/
def stackPath (st : List Bytes) : Bytes := st.reverse.flatMap (slash :: ·)

@[simp] theorem stackPath_nil : stackPath [] = [] := rfl

theorem stackPath_cons (seg : Bytes) (st : List Bytes) :
    stackPath (seg :: st) = stackPath st ++ slash :: seg := by
  rw [stackPath, List.reverse_cons, List.flatMap_append, List.flatMap_singleton]
  rfl

theorem stackPath_eq_nil {st : List Bytes} : stackPath st = [] ↔ st = [] := by
  cases st with
  | nil => exact ⟨fun _ => rfl, fun _ => rfl⟩
  | cons seg st =>
    rw [stackPath_cons]
    exact ⟨fun h => absurd h (List.append_ne_nil_of_right_ne_nil _ nofun), nofun⟩

theorem length_stackPath (st : List Bytes) :
    (stackPath st).length = (st.map fun seg => seg.length + 1).sum := by
  induction st with
  | nil => rfl
  | cons seg st ih =>
    rw [stackPath_cons, List.length_append, ih, List.map_cons, List.sum_cons, Nat.add_comm]
    rfl

theorem segmentAct_push {seg : Bytes} : segmentAct seg = .push ↔ seg ≠ [dot] ∧ seg ≠ [dot, dot] := by
  unfold segmentAct
  split
  · rename_i h
    exact ⟨nofun, fun hn => absurd h hn.1⟩
  · rename_i h
    split
    · rename_i hh
      exact ⟨nofun, fun hn => absurd hh hn.2⟩
    · rename_i hh
      exact ⟨fun _ => ⟨h, hh⟩, fun _ => rfl⟩

theorem segmentAct_pop {seg : Bytes} : segmentAct seg = .pop ↔ seg = [dot, dot] := by
  unfold segmentAct
  split
  · rename_i h
    refine ⟨nofun, fun hn => ?_⟩
    rw [h] at hn
    exact absurd hn (by decide)
  · split
    · rename_i h
      exact ⟨fun _ => h, fun _ => rfl⟩
    · rename_i h
      exact ⟨nofun, fun hn => absurd hn h⟩

/-- The first segment of a path, and the rest of it. -/
theorem pathSegments_cons {seg rem : Bytes} (hseg : slash ∉ seg)
    (hrem : rem = [] ∨ rem.head? = some slash) :
    pathSegments (slash :: (seg ++ rem)) = seg :: pathSegments rem := by
  cases rem with
  | nil =>
    rw [List.append_nil]
    exact List.splitOn_eq_singleton hseg
  | cons c rest =>
    obtain rfl : c = slash := by
      rcases hrem with h | h
      · cases h
      · exact Option.some.inj h
    exact List.splitOn_append_cons_self_of_not_mem hseg rest

/-- A rooted path is cut at the end of its first segment. -/
theorem exists_segment (rest : Bytes) : ∃ seg rem, rest = seg ++ rem ∧ slash ∉ seg ∧
    (rem = [] ∨ rem.head? = some slash) ∧ rest.takeWhile (· != slash) = seg := by
  refine ⟨rest.takeWhile (· != slash), rest.dropWhile (· != slash),
    List.takeWhile_append_dropWhile.symm, fun h => ?_, ?_, rfl⟩
  · have := List.mem_takeWhile_imp h
    simp at this
  · cases hd : rest.dropWhile (· != slash) with
    | nil => exact .inl rfl
    | cons c rem =>
      have := List.head_dropWhile_not (· != slash) (l := rest) (by rw [hd]; exact nofun)
      simp only [hd, List.head_cons, bne_eq_false_iff_eq] at this
      exact .inr (congrArg some this)

theorem slash_notMem_pathSegments (path : Bytes) : ∀ seg ∈ pathSegments path, slash ∉ seg := by
  induction hn : path.length using Nat.strongRecOn generalizing path with
  | _ n ih =>
    cases path with
    | nil => exact fun _ h => absurd h List.not_mem_nil
    | cons c rest =>
      obtain ⟨seg, rem, rfl, hseg, hrem, -⟩ := exists_segment rest
      have hlen : rem.length < n := by
        rw [← hn, List.length_cons, List.length_append]
        omega
      show ∀ s ∈ pathSegments (slash :: (seg ++ rem)), slash ∉ s
      rw [pathSegments_cons hseg hrem]
      exact List.forall_mem_cons.mpr ⟨hseg, ih rem.length hlen rem rfl⟩

/-- The segments of a stack's path are the stack. -/
theorem pathSegments_stackPath {st : List Bytes} (h : ∀ seg ∈ st, slash ∉ seg) (hne : st ≠ []) :
    pathSegments (stackPath st) = st.reverse := by
  have hmem : ∀ seg ∈ st.reverse, slash ∉ seg := fun seg hs => h seg (List.mem_reverse.mp hs)
  have hrev : st.reverse ≠ [] := fun h => hne (List.reverse_eq_nil_iff.mp h)
  unfold stackPath
  generalize st.reverse = segs at hmem hrev
  clear h hne st
  induction segs with
  | nil => exact absurd rfl hrev
  | cons seg segs ih =>
    rw [List.flatMap_cons, List.cons_append, pathSegments_cons (hmem seg List.mem_cons_self)]
    · cases segs with
      | nil => rfl
      | cons seg' segs =>
        rw [ih (fun s hs => hmem s (List.mem_cons_of_mem _ hs)) nofun]
    · cases segs with
      | nil => exact .inl rfl
      | cons seg' segs => exact .inr rfl

/-- The segments weigh no more than the path. -/
theorem sum_pathSegments (path : Bytes) :
    ((pathSegments path).map fun seg => seg.length + 1).sum = path.length := by
  induction hn : path.length using Nat.strongRecOn generalizing path with
  | _ n ih =>
    cases path with
    | nil => exact hn
    | cons c rest =>
      obtain ⟨seg, rem, rfl, hseg, hrem, -⟩ := exists_segment rest
      have hlen : rem.length + (seg.length + 1) = n := by
        rw [← hn, List.length_cons, List.length_append]
        omega
      show ((pathSegments (slash :: (seg ++ rem))).map _).sum = n
      rw [pathSegments_cons hseg hrem, List.map_cons, List.sum_cons,
        ih rem.length (by omega) rem rfl]
      omega

/-! ### The loop in place

`remove_dot_segments` writes over the path it reads. The invariant is that what was written
so far is the stack of the segments read, and never reaches beyond what was read. -/

/-- `popSeg` goes back to the slash in front of the last segment. -/
theorem popSeg_eq {path pre seg : Bytes} (hseg : slash ∉ seg)
    (h : path.take (pre.length + 1 + seg.length) = pre ++ slash :: seg) :
    popSeg path (pre.length + 1 + seg.length) = pre.length := by
  -- the loop walks back over the octets of the segment to its slash
  induction seg using List.reverseRecOn with
  | nil =>
    have hget : path[pre.length]? = some slash := by
      have := congrArg (·[pre.length]?) h
      rw [List.length_nil, Nat.add_zero] at this
      simpa using this
    show popSeg path (pre.length + 1) = _
    rw [popSeg, if_pos hget]
  | append_singleton seg x ih =>
    have hx : x ≠ slash := fun hx => hseg (by rw [hx]; exact List.mem_append_right _ List.mem_cons_self)
    rw [List.length_append, List.length_singleton, ← Nat.add_assoc] at h ⊢
    have hget : path[pre.length + 1 + seg.length]? = some x := by
      have hlast := congrArg (·[pre.length + 1 + seg.length]?) h
      rw [← List.cons_append, ← List.append_assoc] at hlast
      have hlen : (pre ++ slash :: seg).length = pre.length + 1 + seg.length := by
        simp
        omega
      rw [List.getElem?_take_of_lt (Nat.lt_succ_self _), ← hlen, List.getElem?_concat_length] at hlast
      rw [← hlen]
      exact hlast
    rw [popSeg, hget, if_neg fun h => hx (Option.some.inj h)]
    refine ih (fun hm => hseg (List.mem_append_left _ hm)) ?_
    have hcut := congrArg (List.take (pre.length + 1 + seg.length)) h
    rw [List.take_take, Nat.min_eq_left (Nat.le_succ _), ← List.cons_append, ← List.append_assoc,
      List.take_left' (by simp; omega)] at hcut
    exact hcut

theorem take_set_slash {path out : Bytes} {o : Nat} (h : path.take o = out) (ho : o < path.length) :
    (path.set o slash).take (o + 1) = out ++ [slash] := by
  rw [List.take_add_one, List.take_set_of_le (Nat.le_refl _), h, List.getElem?_set_self ho]
  rfl

theorem take_memWrite {mem src : Bytes} {k : Nat} (h : k ≤ mem.length) :
    (memWrite mem k src).take (k + src.length) = mem.take k ++ src := by
  unfold memWrite
  exact List.take_left' (by rw [List.length_append, List.length_take, Nat.min_eq_left h])

/-- What lies behind a write stays. -/
theorem drop_memWrite {mem src : Bytes} {k j : Nat} (h : k ≤ mem.length) (hj : k + src.length ≤ j) :
    (memWrite mem k src).drop j = mem.drop j := by
  have hlen : (mem.take k ++ src).length = k + src.length := by
    rw [List.length_append, List.length_take, Nat.min_eq_left h]
  unfold memWrite
  rw [List.drop_append, List.drop_eq_nil_of_le (hlen.le.trans hj), List.nil_append, hlen,
    List.drop_drop, Nat.add_sub_cancel' hj]

/-- **What the loop keeps**: the segments on the stack stand in front of the write cursor, and
what is still to be read, `rem`, has not been overwritten. -/
structure Rds.Holds (len : Nat) (s : Rds) (st : List Bytes) (rem : Bytes) : Prop where
  length : s.path.length = len
  out : s.path.take s.o = stackPath st
  cursor : s.o = (stackPath st).length
  behind : s.o ≤ s.i
  rest : s.path.drop s.i = rem
  noSlash : ∀ seg ∈ st, slash ∉ seg

/-- The scan for the end of the segment. -/
theorem Rds.Holds.segEnd {len : Nat} {s : Rds} {st : List Bytes} {seg rem : Bytes}
    (h : s.Holds len st (slash :: (seg ++ rem))) (hseg : slash ∉ seg)
    (hrem : rem = [] ∨ rem.head? = some slash) :
    s.path.drop (s.i + 1) = seg ++ rem ∧ segEnd s.path (s.i + 1) = s.i + 1 + seg.length := by
  have hdrop : s.path.drop (s.i + 1) = seg ++ rem := by
    rw [← List.drop_drop, h.rest]
    rfl
  refine ⟨hdrop, ?_⟩
  have hseg' : ∀ c ∈ seg, (c != slash) = true := fun c hc => by
    rw [bne_iff_ne]
    rintro rfl
    exact hseg hc
  unfold Zcio.segEnd
  rw [hdrop, List.takeWhile_append_of_pos hseg']
  cases rem with
  | nil => simp
  | cons c rem =>
    obtain rfl : c = slash := by
      rcases hrem with h | h
      · cases h
      · exact Option.some.inj h
    simp

/-- **One segment** in place is one item on the stack. -/
theorem Rds.segment_holds {len : Nat} {s : Rds} {st : List Bytes} {seg rem : Bytes}
    (h : s.Holds len st (slash :: (seg ++ rem))) (hseg : slash ∉ seg)
    (hrem : rem = [] ∨ rem.head? = some slash) :
    match Lib.Stack.step segmentAct st seg with
    | none => s.segment = none
    | some st' => ∃ path o, s.segment = some (path, o) ∧
        Rds.Holds len ⟨path, o, s.i + 1 + seg.length⟩ st' rem := by
  obtain ⟨hdrop, hend⟩ := h.segEnd hseg hrem
  have hrest : s.path.drop (s.i + 1 + seg.length) = rem := by
    rw [← List.drop_drop, hdrop, List.drop_left]
  have hbehind := h.behind
  have hroom : s.i + 1 + seg.length ≤ s.path.length := by
    have := congrArg List.length hdrop
    have hi := congrArg List.length h.rest
    rw [List.length_drop, List.length_append] at this
    rw [List.length_drop, List.length_cons] at hi
    omega
  unfold segment
  dsimp only
  rw [hend, hdrop, Nat.add_sub_cancel_left, List.take_left]
  unfold Lib.Stack.step segmentAct
  by_cases hdot : seg = [dot]
  · rw [if_pos hdot, if_pos hdot]
    exact ⟨_, _, rfl, h.length, h.out, h.cursor, by show s.o ≤ s.i + 1 + seg.length; omega, hrest,
      h.noSlash⟩
  · rw [if_neg hdot, if_neg hdot]
    by_cases hdd : seg = [dot, dot]
    · rw [if_pos hdd, if_pos hdd]
      dsimp only
      cases st with
      | nil =>
        have ho : s.o = 0 := h.cursor
        rw [if_pos ho]
        rfl
      | cons top st =>
        have hcur := h.cursor
        have hout := h.out
        rw [stackPath_cons] at hcur hout
        have hlen : s.o = (stackPath st).length + 1 + top.length := by
          rw [hcur, List.length_append, List.length_cons]
          omega
        have hpop : popSeg s.path s.o = (stackPath st).length := by
          rw [hlen] at hout ⊢
          exact popSeg_eq (h.noSlash top List.mem_cons_self) hout
        rw [if_neg (by omega), hpop]
        refine ⟨_, _, rfl, h.length, ?_, rfl, ?_, hrest, fun a ha => h.noSlash a (List.mem_cons_of_mem _ ha)⟩
        · have hcut := congrArg (List.take (stackPath st).length) hout
          rw [List.take_take, Nat.min_eq_left (by omega), List.take_left] at hcut
          exact hcut
        · show (stackPath st).length ≤ s.i + 1 + seg.length
          omega
    · rw [if_neg hdd, if_neg hdd]
      -- the slash and the text go behind the stack, over what has been read
      have hset : s.o + 1 ≤ (s.path.set s.o slash).length := by
        rw [List.length_set]
        omega
      have htake : (s.path.set s.o slash).take (s.o + 1) = stackPath st ++ [slash] :=
        take_set_slash h.out (by omega)
      have hnext : s.o + 1 + seg.length ≤ s.i + 1 + seg.length := by omega
      refine ⟨_, _, rfl, ?_, ?_, ?_, ?_, ?_, List.forall_mem_cons.mpr ⟨hseg, h.noSlash⟩⟩
      · rw [length_memWrite (by rw [List.length_set]; omega), List.length_set, h.length]
      · refine (take_memWrite hset).trans ?_
        rw [htake, stackPath_cons, List.append_assoc]
        rfl
      · show s.o + 1 + seg.length = _
        rw [stackPath_cons, List.length_append, List.length_cons, ← h.cursor]
        omega
      · exact hnext
      · refine (drop_memWrite hset hnext).trans ?_
        rw [List.drop_set_of_lt (by omega), hrest]

/-- The path of the segments left on the stack. -/
def normalPath (st : List Bytes) : Bytes := if st = [] then [slash] else stackPath st

/-- What the loop leaves is the path of the stack. -/
theorem Rds.Holds.normal {len : Nat} {s : Rds} {st : List Bytes} {rem : Bytes}
    (h : s.Holds len st rem) : (if s.o = 0 then [slash] else s.path.take s.o) = normalPath st := by
  unfold normalPath
  have hiff : s.o = 0 ↔ st = [] := by
    rw [h.cursor, List.length_eq_zero_iff, stackPath_eq_nil]
  by_cases ho : s.o = 0
  · rw [if_pos ho, if_pos (hiff.mp ho)]
  · rw [if_neg ho, if_neg fun hn => ho (hiff.mpr hn), h.out]

/-- **The loop in place runs the segments that are left over the stack.** -/
theorem Rds.loop_holds {len : Nat} {s : Rds} {st : List Bytes} {rem : Bytes}
    (h : s.Holds len st rem) (hrem : rem = [] ∨ rem.head? = some slash) :
    (Lib.loop (Rds.round len) _ (Rds.round_decreases len) s).map
        (fun s => if s.o = 0 then [slash] else s.path.take s.o) =
      (Lib.Stack.run segmentAct st (pathSegments rem)).map normalPath := by
  induction hn : rem.length using Nat.strongRecOn generalizing s st rem with
  | _ n ih =>
    cases rem with
    | nil =>
      have hend : len ≤ s.i := by
        have := congrArg List.length h.rest
        rw [List.length_drop, h.length] at this
        simp at this
        omega
      rw [Lib.loop_of_inr (r := some s) (by unfold Rds.round; rw [if_neg (by omega)])]
      exact congrArg some h.normal
    | cons c rest =>
      obtain rfl : c = slash := by
        rcases hrem with hrem | hrem
        · cases hrem
        · exact Option.some.inj hrem
      obtain ⟨seg, rem, rfl, hseg, hrem', -⟩ := exists_segment rest
      have hlt : s.i < len := by
        have := congrArg List.length h.rest
        rw [List.length_drop, h.length, List.length_cons] at this
        omega
      have hstep := Rds.segment_holds h hseg hrem'
      obtain ⟨-, hend⟩ := h.segEnd hseg hrem'
      rw [pathSegments_cons hseg hrem']
      cases hact : Lib.Stack.step segmentAct st seg with
      | none =>
        rw [hact] at hstep
        rw [Lib.Stack.run_cons_none hact]
        rw [Lib.loop_of_inr (r := none) (by unfold Rds.round; rw [if_pos hlt, hstep])]
        rfl
      | some st' =>
        rw [hact] at hstep
        obtain ⟨path, o, hsegment, hnext⟩ := hstep
        rw [Lib.Stack.run_cons hact]
        by_cases hslash : s.i + 1 + seg.length = len - 1 ∧ path[s.i + 1 + seg.length]? = some slash
        · -- the trailing slash is an empty segment
          obtain ⟨hlast, hget⟩ := hslash
          have hlen : path.length = len := hnext.length
          have hrest : path.drop (s.i + 1 + seg.length) = rem := hnext.rest
          have hone : rem = [slash] := by
            obtain ⟨hin, hval⟩ := List.getElem?_eq_some_iff.mp hget
            rw [← hrest, List.drop_eq_getElem_cons hin, hval, List.drop_eq_nil_of_le (by omega)]
          have hbehind : o ≤ s.i + 1 + seg.length := hnext.behind
          have htake := take_set_slash hnext.out (show o < path.length by omega)
          have hround : s.round len =
              .inr (some ⟨path.set o slash, o + 1, s.i + 1 + seg.length⟩) := by
            unfold Rds.round
            rw [if_pos hlt, hsegment]
            dsimp only
            rw [hend, if_pos ⟨hlast, hget⟩]
          have hpush : segmentAct [] = .push := by decide
          rw [Lib.loop_of_inr hround, hone, Option.map_some, if_neg (Nat.succ_ne_zero o), htake]
          show _ = (Lib.Stack.run segmentAct st' [[]]).map normalPath
          rw [Lib.Stack.run_cons (Lib.Stack.step_push hpush), Lib.Stack.run_nil, Option.map_some,
            normalPath, if_neg (List.cons_ne_nil _ _), stackPath_cons]
        · have hround : s.round len = .inl ⟨path, o, s.i + 1 + seg.length⟩ := by
            unfold Rds.round
            rw [if_pos hlt, hsegment]
            dsimp only
            rw [hend, if_neg hslash]
          rw [Lib.loop_of_inl hround]
          exact ih rem.length (by rw [← hn, List.length_cons, List.length_append]; omega) hnext hrem' rfl

/-- **`remove_dot_segments` runs the segments over a stack.** -/
theorem removeDotSegments_eq {path : Bytes} (h : path.head? = some slash) :
    removeDotSegments path =
      (Lib.Stack.run segmentAct [] (pathSegments path)).map normalPath := by
  have hstart : Rds.Holds path.length ⟨path, 0, 0⟩ [] path :=
    ⟨rfl, rfl, rfl, Nat.le_refl _, rfl, fun _ h => absurd h List.not_mem_nil⟩
  exact Rds.loop_holds hstart (.inr h)

/-- What is left on the stack. -/
theorem run_pathSegments {path : Bytes} {st : List Bytes}
    (h : Lib.Stack.run segmentAct [] (pathSegments path) = some st) :
    ∀ seg ∈ st, slash ∉ seg ∧ segmentAct seg = .push :=
  Lib.Stack.forall_mem_run h (fun _ h => absurd h List.not_mem_nil) fun seg hseg hact =>
    ⟨slash_notMem_pathSegments path seg hseg, hact⟩

theorem head_normalPath (st : List Bytes) : (normalPath st).head? = some slash := by
  induction st with
  | nil => rfl
  | cons seg st ih =>
    rw [normalPath, if_neg (List.cons_ne_nil _ _), stackPath_cons]
    cases st with
    | nil => rfl
    | cons seg' st =>
      rw [normalPath, if_neg (List.cons_ne_nil _ _)] at ih
      rw [List.head?_append, ih]
      rfl

/-- The segments of a normal path push. -/
theorem pathSegments_normalPath {st : List Bytes}
    (h : ∀ seg ∈ st, slash ∉ seg ∧ segmentAct seg = .push) :
    (∀ seg ∈ pathSegments (normalPath st), segmentAct seg = .push) ∧
      normalPath (pathSegments (normalPath st)).reverse = normalPath st := by
  cases st with
  | nil =>
    refine ⟨fun seg hseg => ?_, rfl⟩
    obtain rfl := List.mem_singleton.mp hseg
    decide
  | cons seg st =>
    rw [normalPath, if_neg (List.cons_ne_nil _ _),
      pathSegments_stackPath (fun s hs => (h s hs).1) (List.cons_ne_nil _ _), List.reverse_reverse]
    exact ⟨fun s hs => (h s (List.mem_reverse.mp hs)).2, if_neg (List.cons_ne_nil _ _)⟩

/-- A normal path is a fixed point. -/
theorem removeDotSegments_normalPath {st : List Bytes}
    (h : ∀ seg ∈ st, slash ∉ seg ∧ segmentAct seg = .push) :
    removeDotSegments (normalPath st) = some (normalPath st) := by
  obtain ⟨hpush, hsame⟩ := pathSegments_normalPath h
  rw [removeDotSegments_eq (head_normalPath st), Lib.Stack.run_pushes hpush, List.append_nil,
    Option.map_some, hsame]

/-- A normal path is no longer than the path it comes from. -/
theorem length_normalPath {path : Bytes} {st : List Bytes} (hne : path ≠ [])
    (h : Lib.Stack.run segmentAct [] (pathSegments path) = some st) :
    (normalPath st).length ≤ path.length := by
  unfold normalPath
  split
  · exact List.length_pos_iff.mpr hne
  · rw [length_stackPath]
    have hsum := Lib.Stack.sum_run (fun seg : Bytes => seg.length + 1) h
    rw [sum_pathSegments] at hsum
    simpa using hsum

/-! ### Percent-decoding

Text with escapes, and what it decodes to. -/

/-- A hex digit. -/
def IsHex (c : UInt8) : Prop := (hexval c).isSome

/-- Every `%` is followed by two hex digits. -/
def PctOk (s : Bytes) : Prop :=
  ∀ a b, s = a ++ 37 :: b → ∃ h l b', b = h :: l :: b' ∧ IsHex h ∧ IsHex l

/-- The text with each `%XX` replaced by the octet it stands for. -/
def pctText : Bytes → Bytes
  | 37 :: h :: l :: rest =>
    UInt8.ofNat ((hexval h).getD 0 * 16 + (hexval l).getD 0) :: pctText rest
  | c :: rest => c :: pctText rest
  | [] => []

instance (c : UInt8) : Decidable (IsHex c) := inferInstanceAs (Decidable ((hexval c).isSome = true))

theorem isHex_ne {c : UInt8} (h : IsHex c) : c ≠ 37 := by
  rintro rfl
  exact absurd h (by decide)

theorem pctOk_nil : PctOk [] := fun a b h => by
  cases a with
  | nil => cases h
  | cons c a => cases h

theorem pctOk_cons {c : UInt8} {rest : Bytes} (hc : c ≠ 37) : PctOk (c :: rest) ↔ PctOk rest := by
  constructor
  · intro h a b hab
    exact h (c :: a) b (congrArg (c :: ·) hab)
  · intro h a b hab
    cases a with
    | nil => exact absurd (List.cons.inj hab).1 hc
    | cons d a => exact h a b (List.cons.inj hab).2

theorem pctOk_pct {rest : Bytes} : PctOk (37 :: rest) ↔
    ∃ h l rest', rest = h :: l :: rest' ∧ IsHex h ∧ IsHex l ∧ PctOk rest' := by
  constructor
  · intro hok
    obtain ⟨h, l, rest', rfl, hh, hl⟩ := hok [] rest rfl
    refine ⟨h, l, rest', rfl, hh, hl, fun a b hab => ?_⟩
    exact hok (37 :: h :: l :: a) b (by rw [hab]; rfl)
  · rintro ⟨h, l, rest', rfl, hh, hl, hok⟩ a b hab
    cases a with
    | nil =>
      cases hab
      exact ⟨h, l, rest', rfl, hh, hl⟩
    | cons d a =>
      have htail : h :: l :: rest' = a ++ 37 :: b := (List.cons.inj hab).2
      exact (pctOk_cons (isHex_ne hh)).mpr ((pctOk_cons (isHex_ne hl)).mpr hok) a b htail

theorem pctDecode_ne {c : UInt8} (hc : c ≠ 37) (rest : Bytes) :
    pctDecode (c :: rest) = if isPathCtl c then none else (pctDecode rest).map (c :: ·) := by
  rw [pctDecode.eq_def]
  exact if_neg hc

theorem pctText_ne {c : UInt8} (hc : c ≠ 37) (rest : Bytes) :
    pctText (c :: rest) = c :: pctText rest := by
  rw [pctText]
  intro h l rest' heq
  exact absurd heq hc

/-- An octet in front of a decoded text. -/
theorem decoded_cons {d : UInt8} {rest out : Bytes} {p : Prop}
    (ih : ∀ {out}, pctDecode rest = some out ↔
      p ∧ out = pctText rest ∧ ∀ b ∈ pctText rest, isPathCtl b = false) :
    (if isPathCtl d then none else (pctDecode rest).map (d :: ·)) = some out ↔
      p ∧ out = d :: pctText rest ∧ ∀ b ∈ d :: pctText rest, isPathCtl b = false := by
  rw [List.forall_mem_cons]
  split
  · rename_i hd
    refine ⟨nofun, fun h => ?_⟩
    rw [h.2.2.1] at hd
    cases hd
  · rename_i hd
    rw [Option.map_eq_some_iff]
    constructor
    · rintro ⟨o, ho, rfl⟩
      obtain ⟨hp, rfl, hclean⟩ := ih.mp ho
      exact ⟨hp, rfl, Bool.eq_false_of_not_eq_true hd, hclean⟩
    · rintro ⟨hp, rfl, -, hclean⟩
      exact ⟨_, ih.mpr ⟨hp, rfl, hclean⟩, rfl⟩

/-- **`pct_decode`** decodes a text whose `%XX` are well formed if no control octet comes out. -/
theorem pctDecode_eq_some {s out : Bytes} : pctDecode s = some out ↔
    PctOk s ∧ out = pctText s ∧ ∀ b ∈ pctText s, isPathCtl b = false := by
  induction s using pctText.induct generalizing out with
  | case1 h l rest ih =>
    rw [pctOk_pct, pctDecode.eq_def]
    dsimp only
    rw [if_pos rfl]
    cases hh : hexval h with
    | none =>
      refine ⟨fun h => (by cases h), ?_⟩
      rintro ⟨⟨_, _, _, heq, hhex, -⟩, -⟩
      cases heq
      rw [IsHex, hh] at hhex
      cases hhex
    | some hi =>
      cases hl : hexval l with
      | none =>
        refine ⟨fun h => (by cases h), ?_⟩
        rintro ⟨⟨_, _, _, heq, -, hhex, -⟩, -⟩
        cases heq
        rw [IsHex, hl] at hhex
        cases hhex
      | some lo =>
        have hok : (∃ h' l' rest', h :: l :: rest = h' :: l' :: rest' ∧ IsHex h' ∧ IsHex l' ∧
            PctOk rest') ↔ PctOk rest := by
          constructor
          · rintro ⟨_, _, _, heq, -, -, hok⟩
            cases heq
            exact hok
          · intro hok
            exact ⟨h, l, rest, rfl, by rw [IsHex, hh]; rfl, by rw [IsHex, hl]; rfl, hok⟩
        rw [hok, pctText, hh, hl]
        exact decoded_cons ih
  | case2 c rest hne ih =>
    by_cases hc : c = 37
    · -- the text ends inside a `%XX`
      subst hc
      rw [pctOk_pct, pctDecode.eq_def]
      dsimp only
      rw [if_pos rfl]
      constructor
      · intro h
        split at h
        · rename_i hx lx rest'
          exact absurd rfl (hne hx lx rest' rfl)
        · cases h
      · rintro ⟨⟨h, l, rest', rfl, -⟩, -⟩
        exact absurd rfl (hne h l rest' rfl)
    · rw [pctDecode_ne hc, pctText_ne hc, pctOk_cons hc]
      exact decoded_cons ih
  | case3 =>
    rw [pctDecode, pctText, Option.some.injEq]
    exact ⟨fun h => ⟨pctOk_nil, h.symm, fun _ hb => absurd hb List.not_mem_nil⟩, fun h => h.2.1.symm⟩

/-! ### `zhs_decode_target_`

A target is split at the first question mark; the path is decoded and normalised, the query
is only checked. -/

/-- The part of a target in front of the first `?`. -/
def rawPath (raw : Bytes) : Bytes := raw.takeWhile (· != 63)

/-- The part behind the first `?`. -/
def rawQuery (raw : Bytes) : Option Bytes :=
  match raw.dropWhile (· != 63) with
  | [] => none
  | _ :: query => some query

/-- A target that the decoder has to accept. -/
structure TargetOk (raw : Bytes) (lim : ZhsLimits) : Prop where
  rooted : raw.head? = some slash
  length : raw.length ≤ lim.maxUrlBytes
  pct : PctOk (rawPath raw)
  path : ∀ b ∈ pctText (rawPath raw), ¬(b < 32 ∨ b = 127)
  query : ∀ query, rawQuery raw = some query → ∀ b ∈ query, b = HTAB ∨ ¬(b < 32 ∨ b = 127)
  dots : ∀ pre, pre <+: pathSegments (pctText (rawPath raw)) →
    pre.count [dot, dot] ≤ pre.countP fun seg => seg ≠ [dot] ∧ seg ≠ [dot, dot]

/-- The path the source cuts off, and the query behind it. -/
theorem target_split (raw : Bytes) :
    let plen := (memchr 63 raw).getD raw.length
    raw.take plen = rawPath raw ∧
      rawQuery raw = if plen < raw.length then some (raw.drop (plen + 1)) else none := by
  cases h : memchr 63 raw with
  | none =>
    have hno := memchr_eq_none.mp h
    have hall : ∀ c ∈ raw, (c != 63) = true := fun c hc => by
      rw [bne_iff_ne]
      rintro rfl
      exact hno hc
    dsimp only [Option.getD_none]
    rw [List.take_length, rawPath, rawQuery, List.takeWhile_eq_self_iff.mpr hall,
      List.dropWhile_eq_nil_iff.mpr hall, if_neg (Nat.lt_irrefl _)]
    exact ⟨rfl, rfl⟩
  | some i =>
    obtain ⟨a, b, rfl, rfl, ha⟩ := memchr_eq_some h
    have hall : ∀ c ∈ a, (c != 63) = true := fun c hc => by
      rw [bne_iff_ne]
      rintro rfl
      exact ha hc
    dsimp only [Option.getD_some]
    rw [rawPath, rawQuery, List.takeWhile_append_of_pos hall, List.dropWhile_append_of_pos hall,
      if_pos (by simp), List.take_left, ← List.drop_drop, List.drop_left]
    simp

/-- The steps of the decoder. -/
theorem zhsDecodeTarget_eq_ok {raw path : Bytes} {query : Option Bytes} {lim : ZhsLimits}
    (hstar : raw ≠ [42]) : zhsDecodeTarget raw lim = .ok (path, query) ↔
      raw.head? = some slash ∧ raw.length ≤ lim.maxUrlBytes ∧
      (∃ dec, pctDecode (rawPath raw) = some dec ∧ removeDotSegments dec = some path) ∧
      (∀ q, rawQuery raw = some q → zhsValueOk q = true) ∧ query = rawQuery raw := by
  obtain ⟨htake, hquery⟩ := target_split raw
  unfold zhsDecodeTarget
  -- the checks in the order of the code, each against its clause
  cases raw with
  | nil => exact ⟨nofun, fun h => nomatch h.1⟩
  | cons c rest =>
    rw [List.isEmpty_cons, if_neg Bool.false_ne_true]
    split
    · rename_i hlong
      exact ⟨nofun, fun h => absurd h.2.1 (Nat.not_le.mpr hlong)⟩
    · rename_i hlong
      split
      · rename_i hhead
        exact ⟨nofun, fun h => absurd h.1 hhead⟩
      · rename_i hhead
        dsimp only at htake hquery ⊢
        rw [htake, hquery]
        -- the path is decoded and its dot segments are removed
        cases hdec : pctDecode (rawPath (c :: rest)) with
        | none => exact ⟨nofun, fun ⟨_, _, ⟨_, h, _⟩, _⟩ => nomatch h⟩
        | some dec =>
          dsimp only
          cases hdots : removeDotSegments dec with
          | none =>
            refine ⟨nofun, ?_⟩
            rintro ⟨-, -, ⟨_, h, hd⟩, -⟩
            cases h
            rw [hdots] at hd
            cases hd
          | some p =>
            dsimp only
            -- with the path done only the query is left to check
            have hrest (q : Option Bytes) (hq : Prop) (h : hq) :
                (Except.ok (p, q) : Except Fail (Bytes × Option Bytes)) = .ok (path, query) ↔
                  (c :: rest).head? = some slash ∧ (c :: rest).length ≤ lim.maxUrlBytes ∧
                  (∃ d, some dec = some d ∧ removeDotSegments d = some path) ∧ hq ∧ query = q := by
              constructor
              · intro heq
                cases heq
                exact ⟨Decidable.not_not.mp hhead, Nat.not_lt.mp hlong, ⟨dec, rfl, hdots⟩, h, rfl⟩
              · rintro ⟨-, -, ⟨_, heq, hd⟩, -, rfl⟩
                cases heq
                rw [hdots] at hd
                cases hd
                rfl
            -- the query, if there is one, is a clean field value
            split
            · split
              · rename_i hok
                refine hrest _ _ fun q hq => ?_
                cases hq
                exact hok
              · rename_i hbad
                exact ⟨nofun, fun h => absurd (h.2.2.2.1 _ rfl) hbad⟩
            · exact hrest _ _ nofun

/-- A target that is accepted is short enough and clean. -/
theorem zhsDecodeTarget_clean {raw path : Bytes} {query : Option Bytes} {lim : ZhsLimits}
    (h : zhsDecodeTarget raw lim = .ok (path, query)) : raw.length ≤ lim.maxUrlBytes ∧ zhsValueOk raw = true := by
  by_cases hstar : raw = [42]
  · subst hstar
    refine ⟨?_, by decide⟩
    by_contra hlong
    rw [zhsDecodeTarget, if_neg (by decide), if_pos (Nat.not_le.mp hlong)] at h
    cases h
  obtain ⟨-, hlen, ⟨dec, hdec, -⟩, hquery, -⟩ := (zhsDecodeTarget_eq_ok hstar).mp h
  refine ⟨hlen, zhsValueOk_iff.mpr fun c hc => ?_⟩
  -- the octets of the path are more than free of controls
  have hctl : ∀ c : UInt8, isPathCtl c = false → isCtl c = false := by
    intro c
    rw [← Bool.not_eq_true, ← Bool.not_eq_true, isPathCtl_iff, isCtl_iff]
    omega
  -- the target is the path and, behind the mark, the query
  rw [← List.takeWhile_append_dropWhile (p := (· != 63)) (l := raw)] at hc
  obtain hc | hc := List.mem_append.mp hc
  · exact hctl c (isPathCtl_of_pctDecode hdec c hc)
  · cases hdrop : raw.dropWhile (· != 63) with
    | nil =>
      rw [hdrop] at hc
      cases hc
    | cons q rest =>
      have hq : q = 63 := by
        have hnot := List.head?_dropWhile_not (· != 63) raw
        rw [hdrop] at hnot
        simpa using hnot
      rw [hdrop] at hc
      obtain rfl | hc := List.mem_cons.mp hc
      · rw [hq]
        decide
      · exact zhsValueOk_iff.mp (hquery rest (by rw [rawQuery, hdrop])) c hc


theorem isPathCtl_eq_false {b : UInt8} : isPathCtl b = false ↔ ¬(b < 32 ∨ b = 127) := by
  simp [isPathCtl]

theorem isCtl_eq_false (b : UInt8) : isCtl b = false ↔ b = HTAB ∨ ¬(b < 32 ∨ b = 127) := by
  rw [← Bool.not_eq_true, isCtl_iff, ← UInt8.toNat_inj (a := b) (b := 127), UInt8.lt_iff_toNat_lt]
  change ¬(b.toNat < 32 ∧ b ≠ HTAB ∨ b.toNat = 127) ↔ b = HTAB ∨ ¬(b.toNat < 32 ∨ b.toNat = 127)
  constructor
  · intro h
    by_cases hb : b = HTAB
    · exact .inl hb
    · exact .inr fun hctl => h (hctl.imp_left fun hlt => ⟨hlt, hb⟩)
  · rintro (rfl | h)
    · decide
    · exact fun hctl => h (hctl.imp_left And.left)

/-- The decoded path of a rooted target is rooted. -/
theorem head_pctText {raw : Bytes} (h : raw.head? = some slash) :
    (pctText (rawPath raw)).head? = some slash := by
  cases raw with
  | nil => cases h
  | cons c rest =>
    cases h
    have hpath : rawPath (slash :: rest) = slash :: rawPath rest := List.takeWhile_cons_of_pos rfl
    rw [hpath, pctText_ne (by decide)]
    rfl

theorem length_pctText (s : Bytes) : (pctText s).length ≤ s.length := by
  induction s using pctText.induct with
  | case1 h l rest ih =>
    rw [pctText, List.length_cons]
    simp only [List.length_cons]
    omega
  | case2 c rest hne ih =>
    rw [pctText.eq_2 _ _ hne, List.length_cons, List.length_cons]
    omega
  | case3 => exact Nat.le_refl _

/-- Each `%XX` makes the text shorter. -/
theorem length_pctText_lt {s : Bytes} (hok : PctOk s) (h : (37 : UInt8) ∈ s) :
    (pctText s).length < s.length := by
  induction s using pctText.induct with
  | case1 h l rest ih =>
    have := length_pctText rest
    rw [pctText, List.length_cons]
    simp only [List.length_cons]
    omega
  | case2 c rest hne ih =>
    have hc : c ≠ 37 := by
      rintro rfl
      obtain ⟨h, l, rest', rfl, -⟩ := pctOk_pct.mp hok
      exact hne _ l rest' rfl rfl
    have hrest : (37 : UInt8) ∈ rest := (List.mem_cons.mp h).resolve_left fun h => hc h.symm
    rw [pctText_ne hc, List.length_cons, List.length_cons]
    exact Nat.succ_lt_succ (ih ((pctOk_cons hc).mp hok) hrest)
  | case3 => exact absurd h List.not_mem_nil

/-- A text without a `%` stands for itself. -/
theorem pctText_eq_self {s : Bytes} (h : (37 : UInt8) ∉ s) : pctText s = s ∧ PctOk s := by
  induction s with
  | nil => exact ⟨rfl, pctOk_nil⟩
  | cons c rest ih =>
    have hc : c ≠ 37 := fun hc => h (hc ▸ List.mem_cons_self)
    obtain ⟨htext, hok⟩ := ih fun hm => h (List.mem_cons_of_mem _ hm)
    exact ⟨by rw [pctText_ne hc, htext], (pctOk_cons hc).mpr hok⟩

/-- `..` never pops the empty stack. -/
theorem run_pathSegments_isSome (path : Bytes) :
    (Lib.Stack.run segmentAct [] (pathSegments path)).isSome ↔
      ∀ pre, pre <+: pathSegments path →
        pre.count [dot, dot] ≤ pre.countP fun seg => seg ≠ [dot] ∧ seg ≠ [dot, dot] := by
  rw [Lib.Stack.run_isSome]
  refine forall₂_congr fun pre _ => ?_
  have hpop : pre.countP (segmentAct · = .pop) = pre.count [dot, dot] :=
    List.countP_congr fun seg _ => by
      rw [decide_eq_true_iff, segmentAct_pop, beq_iff_eq]
  have hpush : pre.countP (segmentAct · = .push) =
      pre.countP fun seg => seg ≠ [dot] ∧ seg ≠ [dot, dot] :=
    List.countP_congr fun seg _ => by
      rw [decide_eq_true_iff, decide_eq_true_iff, segmentAct_push]
  rw [hpop, hpush, List.length_nil, Nat.zero_add]

/-- What the decoder gives is rooted, normal, and no longer than the text it comes from. -/
theorem zhsDecodeTarget_normal {raw path : Bytes} {query : Option Bytes} {lim : ZhsLimits}
    (hstar : raw ≠ [42]) (h : zhsDecodeTarget raw lim = .ok (path, query)) :
    path.head? = some slash ∧
      (∀ seg ∈ pathSegments path, seg ≠ [dot] ∧ seg ≠ [dot, dot]) ∧
      path.length ≤ (pctText (rawPath raw)).length ∧ removeDotSegments path = some path := by
  obtain ⟨hhead, -, ⟨dec, hdec, hdots⟩, -, -⟩ := (zhsDecodeTarget_eq_ok hstar).mp h
  obtain ⟨-, rfl, -⟩ := pctDecode_eq_some.mp hdec
  have hroot := head_pctText hhead
  rw [removeDotSegments_eq hroot] at hdots
  obtain ⟨st, hst, rfl⟩ := Option.map_eq_some_iff.mp hdots
  have hsegs := run_pathSegments hst
  have hne : pctText (rawPath raw) ≠ [] := fun hnil => by
    rw [hnil] at hroot
    cases hroot
  exact ⟨head_normalPath st, fun seg hseg =>
    segmentAct_push.mp ((pathSegments_normalPath hsegs).1 seg hseg),
    length_normalPath hne hst, removeDotSegments_normalPath hsegs⟩

/-- **The targets that are decoded**: those that have to be. -/
theorem zhsDecodeTarget_targetOk {raw : Bytes} {lim : ZhsLimits} (hstar : raw ≠ [42]) :
    (∃ r, zhsDecodeTarget raw lim = .ok r) ↔ TargetOk raw lim := by
  constructor
  · rintro ⟨⟨path, query⟩, h⟩
    obtain ⟨hhead, hlen, ⟨dec, hdec, hdots⟩, hquery, -⟩ := (zhsDecodeTarget_eq_ok hstar).mp h
    obtain ⟨hpct, rfl, hclean⟩ := pctDecode_eq_some.mp hdec
    refine ⟨hhead, hlen, hpct, fun b hb => isPathCtl_eq_false.mp (hclean b hb),
      fun q hq b hb => (isCtl_eq_false b).mp (zhsValueOk_iff.mp (hquery q hq) b hb), ?_⟩
    rw [removeDotSegments_eq (head_pctText hhead)] at hdots
    obtain ⟨st, hst, -⟩ := Option.map_eq_some_iff.mp hdots
    exact (run_pathSegments_isSome _).mp (by rw [hst]; rfl)
  · intro h
    obtain ⟨st, hst⟩ := Option.isSome_iff_exists.mp ((run_pathSegments_isSome _).mpr h.dots)
    refine ⟨(normalPath st, rawQuery raw), (zhsDecodeTarget_eq_ok hstar).mpr ⟨h.rooted, h.length,
      ⟨_, pctDecode_eq_some.mpr ⟨h.pct, rfl, fun b hb => isPathCtl_eq_false.mpr (h.path b hb)⟩, ?_⟩,
      fun q hq => zhsValueOk_iff.mpr fun b hb => (isCtl_eq_false b).mpr (h.query q hq b hb), rfl⟩⟩
    rw [removeDotSegments_eq (head_pctText h.rooted), hst]
    rfl

/-- A target of a request: `*`, or one that has to be decoded. -/
def TargetServed (raw : Bytes) (lim : ZhsLimits) : Prop :=
  raw = [42] ∧ 0 < lim.maxUrlBytes ∨ TargetOk raw lim

theorem zhsDecodeTarget_served {raw : Bytes} {lim : ZhsLimits} :
    (∃ r, zhsDecodeTarget raw lim = .ok r) ↔ TargetServed raw lim := by
  by_cases hstar : raw = [42]
  · subst hstar
    have hnot : ¬TargetOk [42] lim := fun h => nomatch h.rooted
    rw [TargetServed, or_iff_left hnot, zhsDecodeTarget, if_neg (by decide)]
    split
    · rename_i hlong
      exact iff_of_false nofun fun h => by simp at hlong; omega
    · rename_i hshort
      exact iff_of_true ⟨_, rfl⟩ ⟨rfl, by simp at hshort; omega⟩
  · rw [zhsDecodeTarget_targetOk hstar, TargetServed, or_iff_right fun h => hstar h.1]

/-- A decoded target is no longer than what it came from. -/
theorem length_zhsDecodeTarget {raw path : Bytes} {query : Option Bytes} {lim : ZhsLimits}
    (h : zhsDecodeTarget raw lim = .ok (path, query)) : path.length + (query.getD []).length ≤ raw.length := by
  by_cases hstar : raw = [42]
  · subst hstar
    rw [zhsDecodeTarget, if_neg (by decide)] at h
    split at h
    · cases h
    · cases h
      decide
  · obtain ⟨-, -, hlen, -⟩ := zhsDecodeTarget_normal hstar h
    obtain ⟨-, -, -, -, rfl⟩ := (zhsDecodeTarget_eq_ok hstar).mp h
    have hpath := hlen.trans (length_pctText (rawPath raw))
    have hsplit := congrArg List.length (List.takeWhile_append_dropWhile (p := (· != 63)) (l := raw))
    rw [List.length_append] at hsplit
    rw [rawPath] at hpath
    cases hdrop : raw.dropWhile (· != 63) with
    | nil =>
      rw [rawQuery, hdrop]
      rw [hdrop] at hsplit
      simp only [List.length_nil, Option.getD_none] at hsplit ⊢
      omega
    | cons c q =>
      rw [rawQuery, hdrop]
      rw [hdrop] at hsplit
      simp only [List.length_cons, Option.getD_some] at hsplit ⊢
      omega

/-- **Decoding a target is safe and exact.** It succeeds for the targets that it has to accept;
the path is then rooted, has no dot segment left, is no longer than the raw one and is a fixed
point, and the query is the raw text. -/
theorem zhsDecodeTarget_exact (raw : Bytes) (lim : ZhsLimits) (hstar : raw ≠ [42]) :
    ((∃ r, zhsDecodeTarget raw lim = .ok r) ↔ TargetOk raw lim) ∧
    ∀ path query, zhsDecodeTarget raw lim = .ok (path, query) →
      path.head? = some slash ∧
      (∀ seg ∈ pathSegments path, seg ≠ [dot] ∧ seg ≠ [dot, dot]) ∧
      path.length ≤ (rawPath raw).length ∧
      removeDotSegments path = some path ∧
      query = rawQuery raw := by
  refine ⟨zhsDecodeTarget_targetOk hstar, fun path query h => ?_⟩
  obtain ⟨-, -, -, -, hquery⟩ := (zhsDecodeTarget_eq_ok hstar).mp h
  obtain ⟨hroot, hsegs, hlen, hfix⟩ := zhsDecodeTarget_normal hstar h
  exact ⟨hroot, hsegs, hlen.trans (length_pctText _), hfix, hquery⟩

/-- An encoded `..` that pops. -/
theorem zhsDecodeTarget_exact_encoded :
    TargetOk (str "/a/%2e%2E/b?x") (zhsLimitsResolve {}) ∧
    removeDotSegments (str "/b") = some (str "/b") :=
  have hstar : str "/a/%2e%2E/b?x" ≠ [42] := by decide
  have hok : zhsDecodeTarget (str "/a/%2e%2E/b?x") (zhsLimitsResolve {}) =
      .ok (str "/b", some (str "x")) := by decide +kernel
  have h := zhsDecodeTarget_exact (str "/a/%2e%2E/b?x") (zhsLimitsResolve {}) hstar
  ⟨h.1.mp ⟨_, hok⟩, (h.2 _ _ hok).2.2.2.1⟩

end Zcio
