import Zcio.HttpUtil.Hdrs
import Zcio.Lib.Loop
import Zcio.Stream

/-!
# Zcio.Copy

`zcio_copy`. The limit and the number of octets so far are unsigned, but the loop compares them as
`int64_t`: a limit from `2^63` on, which is negative there, ends the loop before its first round.
Only `SIZE_MAX` has a case of its own.
-/

namespace Zcio

variable {σ τ : Type}

/-- A conversion to `int64_t`, and what an addition of two of them gives. -/
def wrap64 (x : Int) : Int := x.bmod (2 ^ 64)

/-- The size of `buf`. -/
def COPY_BUF : Nat := 16384

/-- The variables of `zcio_copy`: the two streams and `total`. -/
structure CopyAt (σ τ : Type) where
  src : σ
  dst : τ
  total : Int

/-- A round of `zcio_copy`. -/
def zcioCopyRound (vs : StreamVt σ) (vd : StreamVt τ) (limit : Nat) (c : CopyAt σ τ) :
    CopyAt σ τ ⊕ (Except Int Int × σ × τ) :=
  let unbounded := limit == SIZE_MAX
  if unbounded || decide (c.total < wrap64 limit) then
    -- `limit - (size_t)total`
    let left := ((limit - c.total) % 2 ^ 64).toNat
    let want := if !unbounded && decide (left < COPY_BUF) then left else COPY_BUF
    match vs.read c.src want with
    | (.error e, src) => .inr (if c.total ≠ 0 then .ok c.total else .error e, src, c.dst)
    | (.ok [], src) => .inr (.ok c.total, src, c.dst)
    | (.ok b, src) =>
      match zcioWriteFull vd.write c.dst b with
      | (.error e, dst) => .inr (if c.total ≠ 0 then .ok c.total else .error e, src, dst)
      | (.ok w, dst) =>
        let total := wrap64 (c.total + w)
        if w < b.length then .inr (.ok total, src, dst) else .inl { src, dst, total }
  else .inr (.ok c.total, c.src, c.dst)

/-- `zcio_copy` with at most `rounds` rounds. -/
def zcioCopy (vs : StreamVt σ) (vd : StreamVt τ) (limit rounds : Nat) (src : σ) (dst : τ) :
    Option (Except Int Int × σ × τ) :=
  Lib.iter (zcioCopyRound vs vd limit) rounds { src, dst, total := 0 }

/-- How many of `n` octets a limit lets through behind the first `t`. -/
def copyLeft (limit t n : Nat) : Nat := if limit = SIZE_MAX then n else min (limit - t) n

/-- The limit is one that the comparison of `zcio_copy` understands. -/
def LimitOk (limit : Nat) : Prop := limit = SIZE_MAX ∨ limit < 2 ^ 63

theorem wrap64_add (x y : Int) : wrap64 (wrap64 x + y) = wrap64 (x + y) := Int.bmod_add_bmod ..

theorem wrap64_nat {t : Nat} (h : t < 2 ^ 63) : wrap64 t = t := by
  rw [wrap64, Int.bmod_eq_of_le]
  · omega
  · omega

/-- The loop of `zcio_copy` goes on below the limit. -/
theorem copy_goes_on {limit t : Nat} (hlimit : LimitOk limit) (ht : limit = SIZE_MAX ∨ t ≤ limit) :
    (limit == SIZE_MAX || decide (wrap64 t < wrap64 limit)) =
      (limit == SIZE_MAX || decide (t < limit)) := by
  obtain rfl | hlt := hlimit
  · rw [beq_self_eq_true, Bool.true_or, Bool.true_or]
  · obtain rfl | hle := ht
    · exact absurd hlt (by decide)
    · rw [wrap64_nat hlt, wrap64_nat (by omega)]
      congr 1
      exact decide_eq_decide.mpr (by omega)

/-- What a round asks for. -/
theorem copy_want {limit t n : Nat} (hlimit : LimitOk limit) (ht : limit = SIZE_MAX ∨ t < limit) :
    ∃ want, 0 < want ∧ min want n ≤ copyLeft limit t n ∧
      (if !(limit == SIZE_MAX) && decide (((limit - wrap64 t) % 2 ^ 64).toNat < COPY_BUF)
        then ((limit - wrap64 t) % 2 ^ 64).toNat else COPY_BUF) = want := by
  obtain rfl | hlt := hlimit
  · exact ⟨COPY_BUF, by decide, by rw [copyLeft, if_pos rfl]; exact Nat.min_le_right _ _, by simp⟩
  · have hne : limit ≠ SIZE_MAX := by
      rintro rfl
      exact absurd hlt (by decide)
    have hleft : ((limit - wrap64 t) % 2 ^ 64).toNat = limit - t := by
      have hlt' := ht.resolve_left hne
      rw [wrap64_nat (by omega), Int.emod_eq_of_lt (by omega) (by omega)]
      omega
    have hlt' := ht.resolve_left hne
    rw [hleft, copyLeft, if_neg hne]
    refine ⟨min (limit - t) COPY_BUF, ?_, ?_, ?_⟩
    · exact Nat.lt_min.mpr ⟨by omega, by decide⟩
    · omega
    · rw [beq_eq_false_iff_ne.mpr hne, Bool.not_false, Bool.true_and]
      split
      · rename_i hsmall
        have := of_decide_eq_true hsmall
        omega
      · rename_i hlarge
        have := of_decide_eq_false (Bool.eq_false_iff.mpr hlarge)
        omega

variable {vs : StreamVt σ} {vd : StreamVt τ} (S : Source vs) (D : Sink vd)

/-- A round that has octets to copy takes some of them over, and no more than the limit allows. -/
theorem zcioCopyRound_more {limit t : Nat} {s : σ} {d : τ} (hlimit : LimitOk limit)
    (ht : limit = SIZE_MAX ∨ t ≤ limit) (hroom : D.room d (copyLeft limit t (S.rest s).length))
    (hmore : 0 < copyLeft limit t (S.rest s).length) :
    ∃ k s' d', 0 < k ∧ k ≤ copyLeft limit t (S.rest s).length ∧
      zcioCopyRound vs vd limit ⟨s, d, wrap64 t⟩ = .inl ⟨s', d', wrap64 (t + k : Nat)⟩ ∧
      D.written d' = D.written d ++ (S.rest s).take k ∧ S.rest s' = (S.rest s).drop k ∧
      D.room d' (copyLeft limit t (S.rest s).length - k) := by
  have hbelow : limit = SIZE_MAX ∨ t < limit := by
    by_cases hmax : limit = SIZE_MAX
    · exact .inl hmax
    · rw [copyLeft, if_neg hmax] at hmore
      exact .inr (by omega)
  obtain ⟨want, hpos, hmin, hwant⟩ := copy_want (n := (S.rest s).length) hlimit hbelow
  obtain ⟨b, s', hread, hlen, hrest, hnil⟩ := S.read (s := s) hpos
  have hsum : (S.rest s).length = b.length + (S.rest s').length := by
    rw [hrest, List.length_append]
  have hb : b ≠ [] := by
    intro h
    have hempty : (S.rest s).length = 0 := by
      rw [hnil h]
      rfl
    rw [copyLeft, hempty] at hmore
    split at hmore
    · omega
    · omega
  have hle : b.length ≤ copyLeft limit t (S.rest s).length := by omega
  obtain ⟨d', hwrite, hwritten, hroom'⟩ := D.zcioWriteFull_ok hroom hle
  refine ⟨b.length, s', d', List.length_pos_iff.mpr hb, hle, ?_, ?_, ?_, hroom'⟩
  · have hgoes : (limit == SIZE_MAX || decide (wrap64 t < wrap64 limit)) = true := by
      rw [copy_goes_on hlimit ht, Bool.or_eq_true, beq_iff_eq, decide_eq_true_iff]
      exact hbelow
    obtain ⟨c, y, rfl⟩ := List.exists_cons_of_ne_nil hb
    simp only [zcioCopyRound, hgoes, if_true, hwant, hread, hwrite, lt_irrefl, if_false, wrap64_add]
    rw [Int.natCast_add]
  · rw [hwritten, hrest, List.take_left]
  · rw [hrest, List.drop_left]

/-- The last round. -/
theorem zcioCopyRound_last (vd : StreamVt τ) {limit t : Nat} {s : σ} (d : τ) (hlimit : LimitOk limit)
    (ht : limit = SIZE_MAX ∨ t ≤ limit) (hmore : copyLeft limit t (S.rest s).length = 0) :
    ∃ s', zcioCopyRound vs vd limit ⟨s, d, wrap64 t⟩ = .inr (.ok (wrap64 t), s', d) ∧ S.rest s' = S.rest s := by
  by_cases hbelow : limit = SIZE_MAX ∨ t < limit
  · -- the source is at its end
    have hnil : S.rest s = [] := by
      refine List.length_eq_zero_iff.mp ?_
      rw [copyLeft] at hmore
      split at hmore
      · exact hmore
      · have := hbelow.resolve_left (by assumption)
        omega
    obtain ⟨want, hpos, hmin, hwant⟩ := copy_want (n := (S.rest s).length) hlimit hbelow
    obtain ⟨b, s', hread, hlen, hrest, -⟩ := S.read (s := s) hpos
    rw [hnil] at hrest
    obtain ⟨rfl, hrest'⟩ := List.append_eq_nil_iff.mp hrest.symm
    have hgoes : (limit == SIZE_MAX || decide (wrap64 t < wrap64 limit)) = true := by
      rw [copy_goes_on hlimit ht, Bool.or_eq_true, beq_iff_eq, decide_eq_true_iff]
      exact hbelow
    refine ⟨s', ?_, by rw [hrest', hnil]⟩
    simp only [zcioCopyRound, hgoes, if_true, hwant, hread]
  · have hgoes : (limit == SIZE_MAX || decide (wrap64 t < wrap64 limit)) = false := by
      rw [copy_goes_on hlimit ht, Bool.eq_false_iff, Ne, Bool.or_eq_true, beq_iff_eq, decide_eq_true_iff]
      exact hbelow
    refine ⟨s, ?_, rfl⟩
    simp only [zcioCopyRound, hgoes, Bool.false_eq_true, if_false]

theorem copyLeft_le (limit t n : Nat) : copyLeft limit t n ≤ n := by
  rw [copyLeft]
  split
  · exact Nat.le_refl n
  · exact Nat.min_le_right _ _

/-- The limit after a round. -/
theorem copyLeft_add {limit t n k : Nat} (hk : k ≤ copyLeft limit t n) :
    copyLeft limit (t + k) (n - k) = copyLeft limit t n - k := by
  rw [copyLeft, copyLeft]
  rw [copyLeft] at hk
  split
  · rfl
  · rw [if_neg (by assumption)] at hk
    omega

/-- **A whole copy**, from `t` octets on. -/
theorem zcioCopy_loop {limit : Nat} (hlimit : LimitOk limit) (rounds : Nat) : ∀ (s : σ) (d : τ) (t : Nat),
    (S.rest s).length < rounds → (limit = SIZE_MAX ∨ t ≤ limit) →
    D.room d (copyLeft limit t (S.rest s).length) →
    ∃ s' d', Lib.iter (zcioCopyRound vs vd limit) rounds ⟨s, d, wrap64 t⟩ =
        some (.ok (wrap64 (t + copyLeft limit t (S.rest s).length : Nat)), s', d') ∧
      D.written d' = D.written d ++ (S.rest s).take (copyLeft limit t (S.rest s).length) ∧
      S.rest s' = (S.rest s).drop (copyLeft limit t (S.rest s).length) := by
  induction rounds with
  | zero =>
    intro s d t hrounds
    omega
  | succ rounds ih =>
    intro s d t hrounds ht hroom
    rw [Lib.iter]
    by_cases hmore : copyLeft limit t (S.rest s).length = 0
    · obtain ⟨s', hround, hrest⟩ := zcioCopyRound_last S vd d hlimit ht hmore
      refine ⟨s', d, ?_, ?_, ?_⟩
      · rw [hround, hmore, Nat.add_zero]
      · rw [hmore, List.take_zero, List.append_nil]
      · rw [hmore, hrest, List.drop_zero]
    · obtain ⟨k, s', d', hpos, hk, hround, hwritten, hrest, hroom'⟩ :=
        zcioCopyRound_more S D hlimit ht hroom (Nat.pos_of_ne_zero hmore)
      have hlen : (S.rest s').length = (S.rest s).length - k := by
        rw [hrest, List.length_drop]
      have hle := copyLeft_le limit t (S.rest s).length
      have hleft : copyLeft limit (t + k) (S.rest s').length = copyLeft limit t (S.rest s).length - k := by
        rw [hlen, copyLeft_add hk]
      have ht' : limit = SIZE_MAX ∨ t + k ≤ limit := by
        by_cases hmax : limit = SIZE_MAX
        · exact .inl hmax
        · rw [copyLeft, if_neg hmax] at hk
          exact .inr (by omega)
      obtain ⟨s'', d'', hiter, hwritten', hrest'⟩ := ih s' d' (t + k) (by omega) ht' (by rwa [hleft])
      rw [hround]
      dsimp only
      rw [hleft] at hiter hwritten' hrest'
      refine ⟨s'', d'', ?_, ?_, ?_⟩
      · rw [hiter, Nat.add_assoc, Nat.add_sub_cancel' hk]
      · rw [hwritten', hwritten, hrest, List.append_assoc, ← List.take_add, Nat.add_sub_cancel' hk]
      · rw [hrest', hrest, List.drop_drop, Nat.add_sub_cancel' hk]

/-! ### The limit

The largest `size_t` stands for no limit; any other number is the most that is copied. -/

/-- How many of `n` octets `zcio_copy` should copy. -/
def copyCount (limit n : Nat) : Nat := if limit = SIZE_MAX then n else min limit n

/-- `zcio_copy` ends, returns the number of octets that the limit lets through, and has written these
and read no others. -/
def CopiesExactly (limit : Nat) (s : σ) (d : τ) : Prop :=
  ∃ rounds s' d', zcioCopy vs vd limit rounds s d = some (.ok (copyCount limit (S.rest s).length), s', d') ∧
    D.written d' = D.written d ++ (S.rest s).take (copyCount limit (S.rest s).length) ∧
    S.rest s' = (S.rest s).drop (copyCount limit (S.rest s).length)

/-- A limit that is negative as `int64_t` ends the loop at once. -/
theorem zcioCopyRound_stuck (vs : StreamVt σ) (vd : StreamVt τ) {limit : Nat} (hsize : limit ≤ SIZE_MAX)
    (hlimit : ¬LimitOk limit) (s : σ) (d : τ) :
    zcioCopyRound vs vd limit ⟨s, d, 0⟩ = .inr (.ok 0, s, d) := by
  obtain ⟨hmax, hge⟩ := not_or.mp hlimit
  have hneg : wrap64 limit < 0 := by
    have hlt : limit < SIZE_MAX := lt_of_le_of_ne hsize hmax
    have hwrap : wrap64 limit = wrap64 (limit - 2 ^ 64) := by
      rw [wrap64, wrap64, show (2 : Int) ^ 64 = ((2 ^ 64 : Nat) : Int) by omega, Int.sub_bmod_right]
    rw [hwrap, wrap64, Int.bmod_eq_of_le]
    · simp only [SIZE_MAX] at hlt
      omega
    · omega
    · simp only [SIZE_MAX] at hlt
      omega
  have hgoes : (limit == SIZE_MAX || decide (0 < wrap64 limit)) = false := by
    rw [beq_eq_false_iff_ne.mpr hmax, Bool.false_or]
    exact decide_eq_false (by omega)
  simp only [zcioCopyRound, hgoes, Bool.false_eq_true, if_false]

/-- Below the limits of `int64_t` the copy is exact. -/
theorem copiesExactly_of_lt {limit : Nat} {s : σ} {d : τ} (hlimit : LimitOk limit)
    (hroom : D.room d (copyCount limit (S.rest s).length))
    (hlt : copyCount limit (S.rest s).length < 2 ^ 63) : CopiesExactly S D limit s d := by
  have hcount : copyLeft limit 0 (S.rest s).length = copyCount limit (S.rest s).length := rfl
  obtain ⟨s', d', hiter, hwritten, hrest⟩ := zcioCopy_loop S D hlimit ((S.rest s).length + 1) s d 0
    (Nat.lt_succ_self _) (.inr (Nat.zero_le _)) hroom
  rw [hcount, Nat.zero_add, wrap64_nat hlt] at hiter
  exact ⟨_, s', d', hiter, hwritten, hrest⟩

/-- **When `zcio_copy` copies what the limit says**: the limit is no negative `int64_t`, or it is
`SIZE_MAX` and the octets can be counted, or there is nothing to copy. -/
theorem zcio_copy_exact (limit : Nat) (s : σ) (d : τ) (hsize : limit ≤ SIZE_MAX)
    (hroom : D.room d (copyCount limit (S.rest s).length)) :
    CopiesExactly S D limit s d ↔
      limit < 2 ^ 63 ∨ (limit = SIZE_MAX ∧ (S.rest s).length < 2 ^ 63) ∨ S.rest s = [] := by
  constructor
  · rintro ⟨rounds, s', d', hcopy, -, -⟩
    by_contra hnot
    obtain ⟨hge, hnot⟩ := not_or.mp hnot
    obtain ⟨hmany, hne⟩ := not_or.mp hnot
    have hpos : 0 < (S.rest s).length := List.length_pos_iff.mpr hne
    by_cases hmax : limit = SIZE_MAX
    · -- the count wraps
      have hcount : copyCount limit (S.rest s).length = (S.rest s).length := if_pos hmax
      obtain ⟨s'', d'', hiter, -, -⟩ := zcioCopy_loop S D (.inl hmax) ((S.rest s).length + 1) s d 0
        (Nat.lt_succ_self _) (.inl hmax) hroom
      have hsame := (Lib.iter_mono (Nat.le_max_left rounds ((S.rest s).length + 1)) hcopy).symm.trans
        (Lib.iter_mono (Nat.le_max_right rounds ((S.rest s).length + 1)) hiter)
      have htotal : ((copyCount limit (S.rest s).length : Nat) : Int) =
          wrap64 (0 + copyCount limit (S.rest s).length : Nat) :=
        Except.ok.inj (Prod.mk.inj (Option.some.inj hsame)).1
      have hlt : wrap64 (0 + copyCount limit (S.rest s).length : Nat) < 2 ^ 63 := Int.bmod_lt (by decide)
      rw [← htotal, hcount] at hlt
      exact hmany ⟨hmax, by omega⟩
    · have hround := zcioCopyRound_stuck vs vd hsize (not_or.mpr ⟨hmax, hge⟩) s d
      cases rounds with
      | zero => cases hcopy
      | succ rounds =>
        rw [zcioCopy, Lib.iter, hround] at hcopy
        have htotal : (0 : Int) = (copyCount limit (S.rest s).length : Nat) :=
          Except.ok.inj (Prod.mk.inj (Option.some.inj hcopy)).1
        rw [copyCount, if_neg hmax] at htotal
        omega
  · rintro (hlt | ⟨hmax, hlt⟩ | hnil)
    · refine copiesExactly_of_lt S D (.inr hlt) hroom ?_
      rw [copyCount, if_neg (by simp only [SIZE_MAX]; omega)]
      omega
    · refine copiesExactly_of_lt S D (.inl hmax) hroom ?_
      rwa [copyCount, if_pos hmax]
    · have hzero : copyCount limit (S.rest s).length = 0 := by
        rw [hnil, copyCount]
        split
        · rfl
        · exact Nat.min_zero _
      by_cases hlimit : LimitOk limit
      · exact copiesExactly_of_lt S D hlimit hroom (by rw [hzero]; decide)
      · refine ⟨1, s, d, ?_, ?_, ?_⟩
        · rw [zcioCopy, Lib.iter, zcioCopyRound_stuck vs vd hsize hlimit, hzero]
          rfl
        · rw [hzero, List.take_zero, List.append_nil]
        · rw [hzero, List.drop_zero]

theorem zcio_copy_exact_sample :
    CopiesExactly memSource memSink SIZE_MAX { data := str "until-eof-copy" } { data := List.replicate 32 0 } :=
  (zcio_copy_exact memSource memSink SIZE_MAX { data := str "until-eof-copy" } { data := List.replicate 32 0 }
    (by decide) (show 0 + copyCount SIZE_MAX 14 ≤ 32 by decide)).mpr (.inr (.inl ⟨rfl, by decide⟩))

/-- One octet to copy, room for it, and the limit `2 ^ 63`. -/
theorem zcio_copy_nothing :
    memSink.room { data := [0] } (copyCount (2 ^ 63) (memSource.rest { data := [7] }).length) ∧
      ¬CopiesExactly memSource memSink (2 ^ 63) { data := [7] } { data := [0] } := by
  refine ⟨show 0 + copyCount (2 ^ 63) 1 ≤ 1 by decide, ?_⟩
  rintro ⟨rounds, s', d', hcopy, -⟩
  have hlimit : ¬LimitOk (2 ^ 63) := not_or.mpr ⟨by decide, by decide⟩
  have hround := zcioCopyRound_stuck memVt memVt (by decide) hlimit { data := [7] } { data := [0] }
  cases rounds with
  | zero => cases hcopy
  | succ rounds =>
    rw [zcioCopy, Lib.iter, hround] at hcopy
    have htotal : (0 : Int) = (copyCount (2 ^ 63) 1 : Nat) :=
      Except.ok.inj (Prod.mk.inj (Option.some.inj hcopy)).1
    exact absurd htotal (by decide)

end Zcio
