import Zcio.Lib.Loop
import Zcio.HttpUtil.Hdrs

/-!
# Zcio.HttpUtil.Target

Request-target decoding (`zhs_decode_target_`): percent-decoding of the path, the in-place
removal of dot segments, and the raw query.

`removeDotSegments` works on the memory of the path buffer as the source does: `path` is
overwritten at the write cursor `o` while it is still being read at `i`.
-/

namespace Zcio

abbrev slash : UInt8 := 47
abbrev dot : UInt8 := 46

/-- The control octets a decoded path may not hold: below SP, or DEL. -/
def isPathCtl (c : UInt8) : Bool := c < 32 || c == 127

theorem isPathCtl_iff {c : UInt8} : isPathCtl c = true ↔ c.toNat < 32 ∨ c.toNat = 127 := by
  rw [isPathCtl, Bool.or_eq_true, decide_eq_true_iff, beq_iff_eq, UInt8.lt_iff_toNat_lt,
    ← UInt8.toNat_inj]
  exact Iff.rfl

/-! ### Percent-decoding

An escape needs two hexadecimal digits and may not stand for a control octet. -/

/-- `hexval` (`h1_hex` is the same function). -/
def hexval (c : UInt8) : Option Nat :=
  if 48 ≤ c ∧ c ≤ 57 then some (c.toNat - 48)
  else if 97 ≤ c ∧ c ≤ 102 then some (c.toNat - 97 + 10)
  else if 65 ≤ c ∧ c ≤ 70 then some (c.toNat - 65 + 10)
  else none

theorem hexval_range {c : UInt8} (h : (hexval c).isSome = true) :
    48 ≤ c.toNat ∧ c.toNat ≤ 57 ∨ 97 ≤ c.toNat ∧ c.toNat ≤ 102 ∨ 65 ≤ c.toNat ∧ c.toNat ≤ 70 := by
  rw [hexval] at h
  split at h
  · exact .inl ‹_›
  split at h
  · exact .inr (.inl ‹_›)
  split at h
  · exact .inr (.inr ‹_›)
  · cases h

/-- `pct_decode`: `none` on a malformed `%XX` or a decoded control octet. -/
def pctDecode : Bytes → Option Bytes
  | [] => some []
  | c :: rest =>
    if c = 37 then
      match rest with
      | h :: l :: rest' =>
        match hexval h, hexval l with
        | some hi, some lo =>
          let d := UInt8.ofNat (hi * 16 + lo)
          if isPathCtl d then none else (pctDecode rest').map (d :: ·)
        | _, _ => none
      | _ => none
    else if isPathCtl c then none
    else (pctDecode rest).map (c :: ·)

/-- Inverting one step of the decoder: a successful decode is empty, or starts with a
clean octet that stands for itself or for a `%XX`. -/
theorem pctDecode_cons {c : UInt8} {rest out : Bytes} (h : pctDecode (c :: rest) = some out) :
    ∃ d out' rest', out = d :: out' ∧ isPathCtl d = false ∧ pctDecode rest' = some out' ∧
      rest'.length ≤ rest.length ∧ (c ≠ 37 → d = c ∧ rest' = rest) := by
  rw [pctDecode.eq_def] at h
  dsimp only at h
  split at h
  · rename_i hc
    split at h
    · rename_i hx l rest'
      split at h
      · split at h
        · cases h
        · rename_i hd
          obtain ⟨o, ho, rfl⟩ := Option.map_eq_some_iff.mp h
          exact ⟨_, o, rest', rfl, by simpa using hd, ho, by simp only [List.length_cons]; omega,
            fun hn => absurd hc hn⟩
      · cases h
    · cases h
  · split at h
    · cases h
    · rename_i hc hd
      obtain ⟨o, ho, rfl⟩ := Option.map_eq_some_iff.mp h
      exact ⟨c, o, rest, rfl, by simpa using hd, ho, le_refl _, fun _ => ⟨rfl, rfl⟩⟩

/-- No control octet survives percent-decoding. -/
theorem pctDecode_clean {s out : Bytes} (h : pctDecode s = some out) :
    ∀ b ∈ out, isPathCtl b = false := by
  induction hn : s.length using Nat.strongRecOn generalizing s out with
  | _ n ih =>
    cases s with
    | nil =>
      obtain rfl : [] = out := by simpa [pctDecode] using h
      simp
    | cons c rest =>
      obtain ⟨d, out', rest', rfl, hd, hrec, hlen, -⟩ := pctDecode_cons h
      intro b hb
      rcases List.mem_cons.mp hb with rfl | hb
      · exact hd
      · exact ih rest'.length (by rw [← hn, List.length_cons]; omega) hrec rfl b hb

/-- What it takes has no control octet. -/
theorem isPathCtl_of_pctDecode {s out : Bytes} (h : pctDecode s = some out) :
    ∀ b ∈ s, isPathCtl b = false := by
  have hhex : ∀ c : UInt8, (hexval c).isSome = true → isPathCtl c = false := by
    intro c hc
    have hrange := hexval_range hc
    rw [← Bool.not_eq_true, isPathCtl_iff]
    omega
  fun_induction pctDecode s generalizing out with
  | case1 => simp
  | case2 => cases h
  | case3 hd ld rest hi lo hlo hhi =>
    rename_i ih
    obtain ⟨o, ho, -⟩ := Option.map_eq_some_iff.mp h
    refine List.forall_mem_cons.mpr ⟨by decide, List.forall_mem_cons.mpr ⟨?_, List.forall_mem_cons.mpr ⟨?_, ih ho⟩⟩⟩
    · exact hhex hd (by rw [hhi]; rfl)
    · exact hhex ld (by rw [hlo]; rfl)
  | case4 => cases h
  | case5 => cases h
  | case6 => cases h
  | case7 c rest _ hc ih =>
    obtain ⟨o, ho, -⟩ := Option.map_eq_some_iff.mp h
    exact List.forall_mem_cons.mpr ⟨Bool.eq_false_iff.mpr hc, ih ho⟩

/-! ### Dot segments, in place

The output is written over the input, behind the point that was read. -/

/-- Overwrite `mem` from index `k` with `src` (`memmove`, `memcpy`). -/
def memWrite (mem : Bytes) (k : Nat) (src : Bytes) : Bytes :=
  mem.take k ++ src ++ mem.drop (k + src.length)

theorem length_memWrite {mem src : Bytes} {k : Nat} (h : k + src.length ≤ mem.length) :
    (memWrite mem k src).length = mem.length := by
  simp [memWrite]; omega

theorem mem_memWrite {mem src : Bytes} {k : Nat} {b : UInt8} (h : b ∈ memWrite mem k src) :
    b ∈ mem ∨ b ∈ src := by
  simp only [memWrite, List.mem_append] at h
  rcases h with (h | h) | h
  · exact Or.inl (List.mem_of_mem_take h)
  · exact Or.inr h
  · exact Or.inl (List.mem_of_mem_drop h)

/-- The scan for the end of the segment that starts at `seg`. -/
def segEnd (path : Bytes) (seg : Nat) : Nat :=
  seg + ((path.drop seg).takeWhile (· != slash)).length

/-- Pop the last output segment and its slash, from write cursor `o`. -/
def popSeg (path : Bytes) : Nat → Nat
  | 0 => 0
  | o + 1 => if path[o]? = some slash then o else popSeg path o

/-- The loop variables of `remove_dot_segments`. -/
structure Rds where
  path : Bytes
  o : Nat
  i : Nat
  deriving Repr, DecidableEq

/-- What one segment does to the output: skip `.`, pop for `..` (`none` above the root),
copy anything else down. -/
def Rds.segment (s : Rds) : Option (Bytes × Nat) :=
  let seg := s.i + 1
  let text := (s.path.drop seg).take (segEnd s.path seg - seg)
  if text = [dot] then some (s.path, s.o)
  else if text = [dot, dot] then
    if s.o = 0 then none else some (s.path, popSeg s.path s.o)
  else some (memWrite (s.path.set s.o slash) (s.o + 1) text, s.o + 1 + text.length)

/-- One round of the loop over the `len` octets of the path: one segment, then the
trailing slash. -/
def Rds.round (len : Nat) (s : Rds) : Rds ⊕ Option Rds :=
  if s.i < len then
    match s.segment with
    | none => .inr none
    | some (path, o) =>
      let i := segEnd s.path (s.i + 1)
      if i = len - 1 ∧ path[i]? = some slash then
        .inr (some { path := path.set o slash, o := o + 1, i })
      else .inl { path, o, i }
  else .inr (some s)

/-- What a round preserves: the buffer keeps its size, holds only clean octets, and the
output, if any, is rooted and lies behind the read cursor. -/
structure Rds.Inv (len : Nat) (s : Rds) : Prop where
  length : s.path.length = len
  clean : ∀ b ∈ s.path, isPathCtl b = false
  rooted : s.o = 0 ∨ s.path[0]? = some slash
  behind : s.o ≤ s.i

theorem segEnd_ge (path : Bytes) (seg : Nat) : seg ≤ segEnd path seg := Nat.le_add_right _ _

theorem segEnd_le (path : Bytes) (seg : Nat) (h : seg ≤ path.length) :
    segEnd path seg ≤ path.length := by
  have := (List.takeWhile_prefix (· != slash) (l := path.drop seg)).length_le
  rw [List.length_drop] at this
  unfold segEnd
  omega

theorem popSeg_lt (path : Bytes) : ∀ {o : Nat}, 0 < o → popSeg path o < o
  | o + 1, _ => by
    rw [popSeg]
    split
    · omega
    · rcases Nat.eq_zero_or_pos o with rfl | ho
      · simp [popSeg]
      · exact Nat.lt_succ_of_lt (popSeg_lt path ho)

/-- The segment's text is what lies between the two cursors. -/
theorem length_segText (path : Bytes) (seg : Nat) (h : seg ≤ path.length) :
    ((path.drop seg).take (segEnd path seg - seg)).length = segEnd path seg - seg := by
  have := segEnd_le path seg h
  simp; omega

theorem Rds.segment_inv {len : Nat} {s : Rds} {path : Bytes} {o : Nat} (hi : s.Inv len)
    (hlt : s.i < s.path.length) (h : s.segment = some (path, o)) :
    path.length = len ∧ (∀ b ∈ path, isPathCtl b = false) ∧
      (o = 0 ∨ path[0]? = some slash) ∧ o ≤ segEnd s.path (s.i + 1) := by
  have hge := segEnd_ge s.path (s.i + 1)
  have hbehind := hi.behind
  have hlen := length_segText s.path (s.i + 1) (by omega)
  have hle := segEnd_le s.path (s.i + 1) (by omega)
  unfold segment at h
  dsimp only at h
  generalize htext : (s.path.drop (s.i + 1)).take (segEnd s.path (s.i + 1) - (s.i + 1)) = text
    at h hlen
  split at h
  · cases h
    exact ⟨hi.length, hi.clean, hi.rooted, by omega⟩
  · split at h
    · split at h
      · cases h
      · rename_i ho
        cases h
        have := popSeg_lt s.path (o := s.o) (by omega)
        exact ⟨hi.length, hi.clean, Or.inr (hi.rooted.resolve_left ho), by omega⟩
    · cases h
      have hw : s.o + 1 + text.length ≤ (s.path.set s.o slash).length := by
        rw [List.length_set]; omega
      refine ⟨by rw [length_memWrite hw, List.length_set, hi.length], ?_, Or.inr ?_, by omega⟩
      · intro b hb
        rcases mem_memWrite hb with hb | hb
        · rcases List.mem_or_eq_of_mem_set hb with hb | rfl
          · exact hi.clean b hb
          · decide
        · rw [← htext] at hb
          exact hi.clean b (List.mem_of_mem_drop (List.mem_of_mem_take hb))
      · -- index 0 lies in the untouched prefix, which `set` has just rooted
        have h0 : (s.path.set s.o slash)[0]? = some slash := by
          rcases hi.rooted with ho | hr
          · rw [ho, List.getElem?_set_self (by omega)]
          · by_cases ho : s.o = 0
            · rw [ho, List.getElem?_set_self (by omega)]
            · rw [List.getElem?_set_ne ho]; exact hr
        unfold memWrite
        rw [List.append_assoc, List.getElem?_append_left (by simp; omega),
          List.getElem?_take_of_lt (by omega)]
        exact h0

theorem Rds.round_decreases (len : Nat) : Lib.Decreases (Rds.round len) fun s => len - s.i := by
  intro s s' h
  unfold round at h
  split at h
  · split at h
    · cases h
    · dsimp only at h
      split at h
      · cases h
      · cases h
        have := segEnd_ge s.path (s.i + 1)
        dsimp only
        omega
  · cases h

theorem Rds.round_inl {len : Nat} {s s' : Rds} (hi : s.Inv len) (h : s.round len = .inl s') :
    s'.Inv len := by
  unfold round at h
  split at h
  · rename_i hlt
    split at h
    · cases h
    · rename_i path o hseg
      obtain ⟨h1, h2, h3, h4⟩ := segment_inv hi (by rw [hi.length]; exact hlt) hseg
      dsimp only at h
      split at h
      · cases h
      · cases h
        exact ⟨h1, h2, h3, h4⟩
  · cases h

/-- The output cursor of a finished loop is rooted and inside the buffer. -/
theorem Rds.round_inr {len : Nat} {s r : Rds} (hi : s.Inv len) (hpos : 0 < len)
    (h : s.round len = .inr (some r)) :
    r.path.length = len ∧ (∀ b ∈ r.path, isPathCtl b = false) ∧
      (r.o = 0 ∨ r.path[0]? = some slash) := by
  unfold round at h
  split at h
  · rename_i hlt
    split at h
    · cases h
    · rename_i path o hseg
      obtain ⟨h1, h2, h3, h4⟩ := segment_inv hi (by rw [hi.length]; exact hlt) hseg
      dsimp only at h
      split at h
      · rename_i hend
        cases h
        refine ⟨by rw [List.length_set]; exact h1, ?_, Or.inr ?_⟩
        · intro b hb
          rcases List.mem_or_eq_of_mem_set hb with hb | rfl
          · exact h2 b hb
          · decide
        · rcases Nat.eq_zero_or_pos o with rfl | ho
          · exact List.getElem?_set_self (by omega)
          · rw [List.getElem?_set_ne (by omega)]
            exact h3.resolve_left (by omega)
      · cases h
  · cases h
    exact ⟨hi.length, hi.clean, hi.rooted⟩

/-- `remove_dot_segments`: `none` when a `..` would pop above the root. -/
def removeDotSegments (path : Bytes) : Option Bytes :=
  (Lib.loop (Rds.round path.length) _ (Rds.round_decreases path.length) ⟨path, 0, 0⟩).map
    fun s => if s.o = 0 then [slash] else s.path.take s.o

/-- A normalized path is rooted, and as clean as the text it came from. -/
theorem removeDotSegments_rooted {path out : Bytes} (hne : path ≠ [])
    (hclean : ∀ b ∈ path, isPathCtl b = false) (h : removeDotSegments path = some out) :
    out.head? = some slash ∧ ∀ b ∈ out, isPathCtl b = false := by
  obtain ⟨r, hr, rfl⟩ := Option.map_eq_some_iff.mp h
  have hpos : 0 < path.length := List.length_pos_iff.mpr hne
  have hinv : ∀ r, Lib.loop (Rds.round path.length) _ (Rds.round_decreases path.length)
        ⟨path, 0, 0⟩ = some r →
      r.path.length = path.length ∧ (∀ b ∈ r.path, isPathCtl b = false) ∧
        (r.o = 0 ∨ r.path[0]? = some slash) :=
    Lib.loop_inv (Rds.round_decreases path.length) (I := Rds.Inv path.length)
      (Q := fun res => ∀ r, res = some r → _)
      (fun s s' hi hb => Rds.round_inl hi hb)
      (fun s res hi hb r hres => Rds.round_inr hi hpos (hres ▸ hb))
      ⟨rfl, hclean, Or.inl rfl, le_refl _⟩
  obtain ⟨hlen, hcl, hroot⟩ := hinv r hr
  by_cases ho : r.o = 0
  · rw [if_pos ho]
    exact ⟨rfl, List.forall_mem_singleton.mpr (by decide)⟩
  · rw [if_neg ho]
    refine ⟨?_, fun b hb => hcl b (List.mem_of_mem_take hb)⟩
    rw [List.head?_eq_getElem?, List.getElem?_take_of_lt (by omega)]
    exact hroot.resolve_left ho

/-! ### `zhs_decode_target_` -/

/-- `zhs_decode_target_`: the decoded, normalized path and the raw query. Neither holds a
NUL (control octets are rejected in both), so the `char *` results are these octets. -/
def zhsDecodeTarget (raw : Bytes) (lim : ZhsLimits) : Except Fail (Bytes × Option Bytes) :=
  if raw.isEmpty then zcioFail .protocol "http: empty request target"
  else if raw.length > lim.maxUrlBytes then
    zcioFail .protocol "http: request target too long"
  else if raw = [42] then .ok (raw, none)
  else if raw.head? ≠ some slash then
    zcioFail .protocol "http: non-origin-form target"
  else
    let plen := (memchr 63 raw).getD raw.length
    match pctDecode (raw.take plen) with
    | none => zcioFail .protocol "http: malformed request path"
    | some path =>
      match removeDotSegments path with
      | none => zcioFail .protocol "http: path escapes root"
      | some path =>
        if plen < raw.length then
          let query := raw.drop (plen + 1)
          if zhsValueOk query then .ok (path, some query)
          else zcioFail .protocol "http: control bytes in query"
        else .ok (path, none)

/-- What a handler may rely on in a path: it is `*`, or rooted and free of control octets. -/
def PathOk (path : Bytes) : Prop :=
  path = [42] ∨ (path.head? = some slash ∧ ∀ b ∈ path, isPathCtl b = false)

instance (path : Bytes) : Decidable (PathOk path) :=
  inferInstanceAs (Decidable (path = [42] ∨
    (path.head? = some slash ∧ ∀ b ∈ path, isPathCtl b = false)))

/-- Every path the decoder returns is well-formed, and it never reports running out of
memory. -/
theorem zhsDecodeTarget_pathOk {raw path : Bytes} {query : Option Bytes} {lim : ZhsLimits}
    (h : zhsDecodeTarget raw lim = .ok (path, query)) : PathOk path := by
  unfold zhsDecodeTarget at h
  split at h
  · cases h
  · split at h
    · cases h
    · split at h
      · rename_i hstar
        cases h
        exact Or.inl hstar
      · split at h
        · cases h
        · rename_i hnil _ _ hhead
          dsimp only at h
          split at h
          · cases h
          · rename_i dec hdec
            split at h
            · cases h
            · rename_i p hp
              have hpath : p = path := by
                split at h
                · split at h
                  · cases h; rfl
                  · cases h
                · cases h; rfl
              subst hpath
              have hne : dec ≠ [] := by
                obtain ⟨t, rfl⟩ : ∃ t, raw = slash :: t := by
                  cases raw with
                  | nil => simp at hhead
                  | cons c t => exact ⟨t, by simpa using hhead⟩
                have hplen : 0 < (memchr 63 (slash :: t)).getD (slash :: t).length := by
                  rw [memchr_cons, if_neg (by decide)]
                  cases memchr 63 t <;> simp
                obtain ⟨k, hk⟩ := Nat.exists_eq_succ_of_ne_zero (Nat.ne_of_gt hplen)
                rw [hk, List.take_succ_cons] at hdec
                obtain ⟨d, out', -, rfl, -⟩ := pctDecode_cons hdec
                simp
              exact Or.inr (removeDotSegments_rooted hne (pctDecode_clean hdec) hp)

end Zcio
