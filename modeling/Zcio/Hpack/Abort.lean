import Zcio.Hpack.Refine

/-!
# Zcio.Hpack.Abort

A block whose emit callback may abort it, against the decoder of `Zcio.Hpack.Spec` that
reads every block to its end and has no size cap.

A block that the code decodes to its end leaves the reference's table. One that the
callback aborts leaves the table as it was at the rejected field, which is the reference's
if and as long as nothing from that field on inserts an entry (`zhpDecode_table`).
-/

namespace Zcio

open Hpack (Table within)

/-! ### Without the size cap

A representation read under the cap is read without it, too. -/

theorem string_uncapped {m : Nat} {bs : Bytes} {r : Bytes × Bytes}
    (h : Hpack.string (some m) bs = some r) : Hpack.string none bs = some r := by
  unfold Hpack.string at h ⊢
  cases hint : Hpack.int 7 bs with
  | none =>
    rw [hint] at h
    cases h
  | some p =>
    obtain ⟨n, rest⟩ := p
    rw [hint] at h
    dsimp only at h ⊢
    by_cases hn : n ≤ rest.length
    · rw [if_pos hn] at h ⊢
      split at h
      · rename_i hhuff
        rw [if_pos hhuff]
        obtain ⟨out, hout, rfl⟩ := Option.map_eq_some_iff.mp h
        rw [(Option.filter_eq_some_iff.mp hout).1]
        rfl
      · rename_i hhuff
        rw [if_neg hhuff]
        split at h
        · cases h
          rfl
        · cases h
    · rw [if_neg hn] at h
      cases h

theorem literal_uncapped {m n : Nat} {t : Table} {bs : Bytes} {r : Field × Bytes}
    (h : Hpack.literal (some m) t n bs = some r) : Hpack.literal none t n bs = some r := by
  unfold Hpack.literal at h ⊢
  cases hint : Hpack.int n bs with
  | none =>
    rw [hint] at h
    cases h
  | some p =>
    obtain ⟨i, rest⟩ := p
    rw [hint] at h
    dsimp only at h ⊢
    have hname : ∀ {q : Bytes × Bytes},
        (if i = 0 then Hpack.string (some m) rest else (t.find i).map fun f => (f.name, rest)) =
          some q →
        (if i = 0 then Hpack.string none rest else (t.find i).map fun f => (f.name, rest)) =
          some q := by
      intro q hq
      split at hq
      · rename_i hi
        rw [if_pos hi]
        exact string_uncapped hq
      · rename_i hi
        rw [if_neg hi]
        exact hq
    split at h
    · cases h
    · rename_i name rest' hq
      rw [hname hq]
      dsimp only
      split at h
      · cases h
      · rename_i value rest'' hv
        rw [string_uncapped hv]
        exact h

/-- A representation read under a cap is read without one. -/
theorem rep_uncapped {m : Nat} {t : Table} {bs : Bytes} {r : HpackRep × Bytes}
    (h : Hpack.rep (some m) t bs = some r) : Hpack.rep none t bs = some r := by
  unfold Hpack.rep at h ⊢
  dsimp only at h ⊢
  split at h
  · rename_i h80
    rw [if_pos h80]
    exact h
  · rename_i h80
    rw [if_neg h80]
    split at h
    · rename_i h40
      rw [if_pos h40]
      obtain ⟨p, hp, hr⟩ := Option.map_eq_some_iff.mp h
      rw [literal_uncapped hp]
      exact congrArg some hr
    · rename_i h40
      rw [if_neg h40]
      split at h
      · rename_i h20
        rw [if_pos h20]
        exact h
      · rename_i h20
        rw [if_neg h20]
        obtain ⟨p, hp, hr⟩ := Option.map_eq_some_iff.mp h
        rw [literal_uncapped hp]
        exact congrArg some hr

/-! ### The representations of a block

A block as the list of its representations, and which of them change the table. -/

namespace Hpack

/-- A representation that changes the table. -/
def changes : HpackRep → Bool
  | .field _ add => add
  | .resize _ => true

/-- The representations the reference reads, at most `n` of them. -/
def repsN : Nat → St → List HpackRep
  | 0, _ => []
  | n + 1, s =>
    match rep none s.table s.bs, round none s with
    | some (r, _), .inl s' => r :: repsN n s'
    | _, _ => []

/-- The representations of a block. -/
def reps (t : Table) (block : Bytes) : List HpackRep :=
  repsN block.length { bs := block, table := t }

/-- A round of the reference on a field. -/
theorem round_field {s : St} {f : Field} {add : Bool} {bs : Bytes} (hne : s.bs ≠ [])
    (hrep : rep none s.table s.bs = some (.field f add, bs)) :
    round none s =
      .inl { bs, decoded := s.decoded + (f.name.length + f.value.length), seenField := true
             fields := s.fields ++ [f], table := if add then s.table.add f else s.table } := by
  unfold round
  rw [if_neg hne, hrep]
  rfl

/-- A round of the reference on a size update that is in place. -/
theorem round_resize {s : St} {n : Nat} {bs : Bytes} (hne : s.bs ≠ [])
    (hrep : rep none s.table s.bs = some (.resize n, bs)) (hseen : s.seenField = false)
    (hn : n ≤ 4096) : round none s = .inl { s with bs, table := s.table.resize n } := by
  unfold round
  rw [if_neg hne, hrep]
  dsimp only
  rw [if_neg (by rw [hseen]; simp; omega)]

theorem repsN_succ {n : Nat} {s s' : St} {r : HpackRep} {bs : Bytes}
    (hrep : rep none s.table s.bs = some (r, bs)) (hround : round none s = .inl s') :
    repsN (n + 1) s = r :: repsN n s' := by
  rw [repsN, hrep, hround]

/-- A round that goes on read a representation. -/
theorem round_inl {s s' : St} (h : round none s = .inl s') :
    ∃ r bs, rep none s.table s.bs = some (r, bs) ∧
      (changes r = false → s'.table = s.table) := by
  unfold round at h
  split at h
  · cases h
  · cases hrep : rep none s.table s.bs with
    | none =>
      rw [hrep] at h
      cases h
    | some p =>
      obtain ⟨r, bs⟩ := p
      refine ⟨r, bs, rfl, fun hch => ?_⟩
      rw [hrep] at h
      cases r with
      | resize n => cases hch
      | field f add =>
        have hadd : add = false := hch
        subst hadd
        cases h
        rfl

/-- Representations that change nothing leave the table. -/
theorem decodeFrom_table {n : Nat} {s : St} (hn : s.bs.length ≤ n)
    (h : ∀ r ∈ repsN n s, changes r = false) : (decodeFrom none s).table = s.table := by
  -- one representation a round, none of which touches the table
  induction n generalizing s with
  | zero =>
    have hnil : s.bs = [] := List.eq_nil_of_length_eq_zero (Nat.le_zero.mp hn)
    unfold decodeFrom
    rw [Lib.loop_of_inr (r := ⟨true, s.fields, s.table⟩) (by rw [round, if_pos hnil])]
  | succ n ih =>
    cases hround : round none s with
    -- the last round leaves the table, however it ends
    | inr r =>
      unfold decodeFrom
      rw [Lib.loop_of_inr hround]
      unfold round at hround
      split at hround
      · cases hround
        rfl
      · split at hround
        · cases hround
          rfl
        · split at hround
          · cases hround
            rfl
          · cases hround
        · dsimp only at hround
          split at hround
          · cases hround
          · cases hround
            rfl
    -- the round read one that does not change it
    | inl s' =>
      obtain ⟨r, bs, hrep, hsame⟩ := round_inl hround
      have hlt : s'.bs.length < s.bs.length := round_decreases none s s' hround
      rw [repsN_succ hrep hround] at h
      unfold decodeFrom at ih ⊢
      rw [Lib.loop_of_inl hround, ih (by omega) fun r hr => h r (List.mem_cons_of_mem _ hr)]
      exact hsame (h r List.mem_cons_self)

end Hpack

/-! ### A callback that may abort

Up to the abort the decoder and the reference read the same representations. -/

section Abort

variable {σ : Type}

/-- What an abort leaves unread: the representations from the first field that the
callback rejects on. -/
def abandoned (emit : EmitFn σ) (u : σ) : List HpackRep → List HpackRep
  | [] => []
  | .resize _ :: rs => abandoned emit u rs
  | .field f add :: rs =>
    let er := emit u f.name f.value
    if er.2 ≠ 0 then .field f add :: rs else abandoned emit er.1 rs

/-- The code and the reference at corresponding points of a block. -/
structure Abreast (block : Bytes) (m : Nat) (s : DecodeSt σ) (t : Hpack.St) : Prop where
  bs : t.bs = block.drop s.pos
  seen : t.seenField = s.seenField
  table : t.table = s.d.abs
  dec : s.d.Inv
  decoded : s.decoded ≤ m

/-- **One round of both**: the same representation, on to corresponding points. -/
theorem Abreast.next {block : Bytes} {m : Nat} {emit : EmitFn σ} {s s' : DecodeSt σ} {t : Hpack.St}
    (h : Abreast block m s t) (hb : zhpDecodeRound block m emit s = .inl s') :
    ∃ r bs t', Hpack.rep none t.table t.bs = some (r, bs) ∧ Hpack.round none t = .inl t' ∧
      Abreast block m s' t' ∧
      match r with
      | .resize _ => t'.fields = t.fields ∧ s'.u = s.u
      | .field f _ => t'.fields = t.fields ++ [f] ∧ ¬(emit s.u f.name f.value).2 ≠ 0 ∧
          s'.u = (emit s.u f.name f.value).1 := by
  have hdec := zhpDecodeRound_dec h.dec hb
  unfold zhpDecodeRound at hb
  split at hb
  · rename_i hpos
    have hne : t.bs ≠ [] := by
      rw [h.bs]
      intro hnil
      rw [List.drop_eq_nil_iff] at hnil
      omega
    -- the representation read in the code is the one of the reference, up to the cap
    have hrep := rep_cases h.dec block s.pos m s.seenField
    split at hb
    · cases hb
    · -- a resize
      rename_i k pos hok
      rw [hok] at hrep
      have hrep' : Hpack.rep none t.table t.bs = some (.resize k, block.drop pos) := by
        rw [h.table, h.bs]
        exact rep_uncapped hrep.1
      have hround := Hpack.round_resize hne hrep' (h.seen.trans hrep.2.1) hrep.2.2
      cases hb
      refine ⟨_, _, _, hrep', hround, ⟨rfl, h.seen, ?_, hdec, h.decoded⟩, rfl, rfl⟩
      show t.table.resize k = (s.d.setMax k).abs
      rw [(ZhpDec.setMax_spec h.dec hrep.2.2).2, h.table]
    · -- a field, which the sink has taken
      rename_i f add pos hok
      rw [hok] at hrep
      have hrep' : Hpack.rep none t.table t.bs = some (.field f add, block.drop pos) := by
        rw [h.table, h.bs]
        exact rep_uncapped hrep
      have hround := Hpack.round_field hne hrep'
      split at hb
      · cases hb
      · rename_i hfits
        dsimp only at hb
        split at hb
        · cases hb
        · rename_i hacc
          cases hb
          -- the fields are within the cap, so that both go on
          have hle : s.decoded + (f.name.length + f.value.length) ≤ m := by
            have := h.decoded
            omega
          refine ⟨_, _, _, hrep', hround, ⟨rfl, rfl, ?_, hdec, hle⟩, rfl, hacc, rfl⟩
          dsimp only
          -- the table takes it in, or not, in both
          cases add with
          | false => exact h.table
          | true =>
            simp only [if_true]
            rw [(ZhpDec.add_spec h.dec f).2, h.table]
  · cases hb

/-- At the end of the block both are done. -/
theorem Abreast.ended {block : Bytes} {m : Nat} {s : DecodeSt σ} {t : Hpack.St}
    (h : Abreast block m s t) (hpos : ¬s.pos < block.length) :
    Hpack.decodeFrom none t = ⟨true, t.fields, t.table⟩ := by
  have hnil : t.bs = [] := by
    rw [h.bs, List.drop_eq_nil_iff]
    omega
  unfold Hpack.decodeFrom
  rw [Lib.loop_of_inr (r := ⟨true, t.fields, t.table⟩) (by rw [Hpack.round, if_pos hnil])]

/-- **A block under an aborting callback.** -/
theorem zhpDecode_abreast {block : Bytes} {m : Nat} {emit : EmitFn σ} (s : DecodeSt σ)
    (t : Hpack.St) (n : Nat) (h : Abreast block m s t) (hn : t.bs.length ≤ n)
    (hquiet : ∀ r ∈ abandoned emit s.u (Hpack.repsN n t), Hpack.changes r = false) {r : DecodeRes σ}
    (hr : Lib.loop (zhpDecodeRound block m emit) _ (zhpDecodeRound_decreases block m emit) s = r)
    (hfail : ∀ e, r.rc ≠ .fail e) : r.d.abs = (Hpack.decodeFrom none t).table := by
  revert t n hr hfail r
  refine Lib.loop_induct (zhpDecodeRound_decreases block m emit) (P := fun s r' => ∀ (t : Hpack.St)
    (n : Nat), Abreast block m s t → t.bs.length ≤ n →
    (∀ r ∈ abandoned emit s.u (Hpack.repsN n t), Hpack.changes r = false) →
    ∀ {r : DecodeRes σ}, r' = r → (∀ e, r.rc ≠ .fail e) →
      r.d.abs = (Hpack.decodeFrom none t).table) ?_ ?_ s
  · rintro s r' hb t n h hn hquiet r rfl hfail
    unfold zhpDecodeRound at hb
    split at hb
    · rename_i hpos
      have hne : t.bs ≠ [] := by
        rw [h.bs]
        intro hnil
        rw [List.drop_eq_nil_iff] at hnil
        omega
      have hrep := rep_cases h.dec block s.pos m s.seenField
      split at hb
      · cases hb
        exact absurd rfl (hfail _)
      · cases hb
      · rename_i f add pos hok
        rw [hok] at hrep
        have hrep' : Hpack.rep none t.table t.bs = some (.field f add, block.drop pos) := by
          rw [h.table, h.bs]
          exact rep_uncapped hrep
        split at hb
        · cases hb
          exact absurd rfl (hfail _)
        · dsimp only at hb
          split at hb
          · -- the rejected field and all behind it are abandoned
            rename_i hrej
            cases hb
            have hround := Hpack.round_field hne hrep'
            have habandoned : abandoned emit s.u (Hpack.repsN n t) = Hpack.repsN n t := by
              cases n with
              | zero => exact absurd (List.eq_nil_of_length_eq_zero (Nat.le_zero.mp hn)) hne
              | succ n =>
                rw [Hpack.repsN_succ hrep' hround, abandoned, if_pos hrej]
            rw [habandoned] at hquiet
            rw [Hpack.decodeFrom_table hn hquiet, h.table]
          · cases hb
    · rename_i hpos
      cases hb
      rw [h.ended hpos, h.table]
  · rintro s s' r' hb ih t n h hn hquiet r rfl hfail
    obtain ⟨rep, bs, t', hrep, hround, hnext, hout⟩ := h.next hb
    have hlt : t'.bs.length < t.bs.length := Hpack.round_decreases none _ _ hround
    cases n with
    | zero => omega
    | succ n =>
      rw [Hpack.repsN_succ hrep hround] at hquiet
      unfold Hpack.decodeFrom
      rw [Lib.loop_of_inl hround]
      refine ih t' n hnext (by omega) ?_ rfl hfail
      cases rep with
      | resize k =>
        rw [abandoned] at hquiet
        rw [hout.2]
        exact hquiet
      | field f add =>
        rw [abandoned, if_neg hout.2.1] at hquiet
        rw [hout.2.2]
        exact hquiet

/-- **A block that is read to its end**: the callback was given the fields that the reference
reads, one after the other. -/
theorem zhpDecode_gathers {block : Bytes} {m : Nat} {emit : EmitFn σ} {R : List Field → σ → Prop}
    (hemit : ∀ fs u f, R fs u → ¬(emit u f.name f.value).2 ≠ 0 →
      R (fs ++ [f]) (emit u f.name f.value).1) {d : ZhpDec} (h : d.Inv) {u : σ} (hu : R [] u)
    (hok : (zhpDecode d block m emit u).rc = .ok) :
    (Hpack.decode none d.abs block).ok = true ∧
      R (Hpack.decode none d.abs block).fields (zhpDecode d block m emit u).u := by
  -- the two loops side by side, with what the sink has gathered
  refine Lib.loop_induct (zhpDecodeRound_decreases block m emit) (P := fun s r => ∀ t : Hpack.St,
    Abreast block m s t → R t.fields s.u → r.rc = .ok →
      (Hpack.decodeFrom none t).ok = true ∧ R (Hpack.decodeFrom none t).fields r.u)
    ?_ ?_ { d, u } { bs := block, table := d.abs } ⟨rfl, rfl, rfl, h, Nat.zero_le _⟩ hu hok
  · -- of the ways the loop ends only one is a success: the block was read to its end
    intro s r hb t h hR hok
    unfold zhpDecodeRound at hb
    split at hb
    · split at hb
      · cases hb
        cases hok
      · cases hb
      · split at hb
        · cases hb
          cases hok
        · dsimp only at hb
          split at hb
          · cases hb
            cases hok
          · cases hb
    · rename_i hpos
      cases hb
      rw [h.ended hpos]
      exact ⟨rfl, hR⟩
  · -- one representation more, on both sides
    intro s s' r hb ih t h hR hok
    obtain ⟨rep, bs, t', -, hround, hnext, hout⟩ := h.next hb
    unfold Hpack.decodeFrom
    rw [Lib.loop_of_inl hround]
    refine ih t' hnext ?_ hok
    cases rep with
    | resize k =>
      rw [hout.1, hout.2]
      exact hR
    | field f add =>
      rw [hout.1, hout.2.2]
      exact hemit _ _ _ hR hout.2.1

/-- The table behind a block that did not fail to decode: the reference's, unless an abort
abandoned a representation that changes it. -/
theorem zhpDecode_table {d : ZhpDec} (h : d.Inv) {block : Bytes} {m : Nat} {emit : EmitFn σ} {u : σ}
    (hfail : ∀ e, (zhpDecode d block m emit u).rc ≠ .fail e)
    (hquiet : ∀ r ∈ abandoned emit u (Hpack.reps d.abs block), Hpack.changes r = false) :
    (zhpDecode d block m emit u).d.abs = (Hpack.decode none d.abs block).table :=
  zhpDecode_abreast { d, u } { bs := block, table := d.abs } block.length
    ⟨rfl, rfl, rfl, h, Nat.zero_le _⟩ (Nat.le_refl _) hquiet rfl hfail

end Abort

end Zcio
