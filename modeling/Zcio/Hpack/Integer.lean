import Zcio.Hpack.Refine

/-!
# Zcio.Hpack.Integer

The prefixed integers of RFC 7541 section 5.1, which HPACK and QPACK share. `Hpack.rfcInt` reads
one without any limit; `zhp_int_decode_` is that reader under the limits of four continuation
octets and `2 ^ 24`, and reads back what `zhp_int_encode_` writes for every prefix width.
-/

namespace Zcio

open Hpack (leb)

/-! ### The integer of RFC 7541 -/

/-- The integer with an `n`-bit prefix that `p` starts with, behind the number of its octets;
`none` if it is not complete. -/
def Hpack.rfcInt (n : Nat) : Bytes → Option (Nat × Nat)
  | [] => none
  | b :: bs =>
    let v := b.toNat % 2 ^ n
    if v < 2 ^ n - 1 then some (1, v)
    else
      match bs.drop (moreOctets bs).length with
      | [] => none
      | last :: _ =>
        some ((moreOctets bs).length + 2, 2 ^ n - 1 + leb (moreOctets bs ++ [last]))

/-- A prefix of at most eight bits is an octet. -/
theorem prefixMax_le {n : Nat} (hn : n ≤ 8) : 2 ^ n ≤ 256 := Nat.pow_le_pow_right (by decide) hn

/-- **The decoder accepts the integers of RFC 7541** that are complete, have at most four
continuation octets and are at most `2 ^ 24`. -/
theorem zhpIntDecode_eq_ok {n c v : Nat} (hn : n ≤ 8) {p : Bytes} :
    zhpIntDecode p n = .ok (c, v) ↔
      Hpack.rfcInt n p = some (c, v) ∧ c ≤ 5 ∧ v ≤ ZHP_INT_MAX := by
  have hpow := prefixMax_le hn
  have hmax : ZHP_INT_MAX = 2 ^ 24 := rfl
  cases p with
  | nil => exact ⟨fun h => (by cases h), fun h => by cases h.1⟩
  | cons b bs =>
    rw [zhpIntDecode, Hpack.rfcInt]
    simp only [Nat.and_two_pow_sub_one_eq_mod]
    -- the value fits the prefix
    by_cases hv : b.toNat % 2 ^ n < 2 ^ n - 1
    · rw [if_pos hv, if_pos hv]
      constructor
      · intro h
        cases h
        exact ⟨rfl, by omega, by omega⟩
      · rintro ⟨h, -, -⟩
        cases h
        rfl
    · -- the prefix is full, and octets follow
      have hfull : b.toNat % 2 ^ n = 2 ^ n - 1 := by
        have := Nat.mod_lt b.toNat (Nat.two_pow_pos n)
        omega
      have hcont := zhpIntCont_eq bs (2 ^ n - 1) 0 1 (by omega)
      simp only [Nat.mul_zero, Nat.pow_zero, Nat.one_mul, Nat.zero_add] at hcont
      rw [if_neg hv, if_neg hv, hfull, ← toOption_eq_some, hcont]
      cases bs.drop (moreOctets bs).length with
      | nil => exact ⟨fun h => (by cases h), fun h => by cases h.1⟩
      | cons last rest =>
        simp only [Option.ite_none_right_eq_some, Option.some.injEq, Prod.mk.injEq, hmax]
        omega

/-! ### No word overflows

Every value on the way of the loop fits its word, also where the loop ends in an error. -/

/-- What a round of the continuation loop computes: the seven bits of an octet, shifted, and
their sum with the value so far. -/
structure IntRound where
  shift : Nat
  group : Nat
  sum : Nat
  deriving Repr, DecidableEq

/-- The rounds that `zhpIntCont` makes. -/
def zhpIntRounds (v shift : Nat) : Bytes → List IntRound
  | [] => []
  | b :: rest =>
    let group := (b.toNat &&& 0x7f) <<< shift
    let sum := v + group
    { shift, group, sum } ::
      (if sum > ZHP_INT_MAX then []
      else if b &&& 0x80 = 0 then []
      else if shift + 7 ≥ 28 then []
      else zhpIntRounds sum (shift + 7) rest)

/-- The rounds of a call of `zhp_int_decode_`. -/
def zhpIntDecodeRounds (p : Bytes) (prefixBits : Nat) : List IntRound :=
  match p with
  | [] => []
  | b :: rest =>
    let prefixMax := 2 ^ prefixBits - 1
    let v := b.toNat &&& prefixMax
    if v < prefixMax then [] else zhpIntRounds v 0 rest

/-- A word of 64 bits holds everything a round computes. -/
def IntRound.Fits (r : IntRound) : Prop := r.shift < 64 ∧ r.group < 2 ^ 64 ∧ r.sum < 2 ^ 64

theorem zhpIntRounds_fits {v shift : Nat} (hv : v ≤ ZHP_INT_MAX) (hshift : shift ≤ 27)
    (p : Bytes) : ∀ r ∈ zhpIntRounds v shift p, r.Fits := by
  induction p generalizing v shift with
  | nil => exact fun r hr => absurd hr List.not_mem_nil
  | cons b rest ih =>
    have hgroup : (b.toNat &&& 0x7f) <<< shift < 2 ^ 7 * 2 ^ 27 := by
      rw [and_7f, Nat.shiftLeft_eq]
      exact Nat.mul_lt_mul_of_lt_of_le (Nat.mod_lt _ (by decide))
        (Nat.pow_le_pow_right (by decide) hshift) (Nat.two_pow_pos 27)
    have hmax : ZHP_INT_MAX = 2 ^ 24 := rfl
    intro r hr
    rw [zhpIntRounds] at hr
    rcases List.mem_cons.mp hr with rfl | hr
    · exact ⟨by dsimp only; omega, by dsimp only; omega, by dsimp only; omega⟩
    · split at hr
      · exact absurd hr List.not_mem_nil
      · rename_i hsum
        split at hr
        · exact absurd hr List.not_mem_nil
        · split at hr
          · exact absurd hr List.not_mem_nil
          · exact ih (by omega) (by omega) r hr

theorem zhpIntDecodeRounds_fits {n : Nat} (hn : n ≤ 8) (p : Bytes) :
    ∀ r ∈ zhpIntDecodeRounds p n, r.Fits := by
  intro r hr
  unfold zhpIntDecodeRounds at hr
  split at hr
  · exact absurd hr List.not_mem_nil
  · dsimp only at hr
    split at hr
    · exact absurd hr List.not_mem_nil
    · rename_i b rest _
      have hle : b.toNat &&& (2 ^ n - 1) ≤ ZHP_INT_MAX := by
        have := prefixMax_le hn
        have hmod := Nat.mod_lt b.toNat (Nat.two_pow_pos n)
        rw [Nat.and_two_pow_sub_one_eq_mod, ZHP_INT_MAX]
        omega
      exact zhpIntRounds_fits hle (by decide) _ r hr

/-! ### The encoder

Seven bits an octet, low end first. -/

/-- Flags over a clear prefix leave the prefix to the value. -/
theorem toNat_flags_or {n v : Nat} {flags : UInt8} (hn : n ≤ 8) (hflags : flags.toNat % 2 ^ n = 0)
    (hv : v < 2 ^ n) : (flags ||| UInt8.ofNat v).toNat = flags.toNat + v := by
  have hpow := prefixMax_le hn
  have hval : (UInt8.ofNat v).toNat = v := UInt8.toNat_ofNat_of_lt' (by
    show v < 256
    omega)
  obtain ⟨k, hk⟩ := Nat.dvd_of_mod_eq_zero hflags
  rw [UInt8.toNat_or, hval, hk, Nat.two_pow_add_eq_or_of_lt hv]

/-- Seven bits of a number under the continuation bit. -/
theorem contOctet (v : Nat) :
    128 ≤ UInt8.ofNat (0x80 ||| (v &&& 0x7f)) ∧
      (UInt8.ofNat (0x80 ||| (v &&& 0x7f))).toNat % 128 = v % 128 := by
  have hand : v &&& 0x7f = v % 128 := Nat.and_two_pow_sub_one_eq_mod v 7
  rw [hand]
  have hlt : v % 128 < 128 := Nat.mod_lt _ (by decide)
  generalize v % 128 = r at hlt ⊢
  have hall : ∀ r : Fin 128, 128 ≤ UInt8.ofNat (0x80 ||| r.1) ∧
      (UInt8.ofNat (0x80 ||| r.1)).toNat % 128 = r.1 := by decide
  exact hall ⟨r, hlt⟩

/-- The loop of `zhp_int_encode_` writes continuation octets whose value is the number:
all but the last say that more follow, and there are no more of them than needed. -/
theorem zhpIntEncode_loop (s : Nat × Bytes) :
    ∃ more last, Lib.loop zhpIntEncodeRound _ zhpIntEncodeRound_decreases s =
        s.2 ++ (more ++ [last]) ∧
      (∀ o ∈ more, 128 ≤ o) ∧ ¬128 ≤ last ∧ leb (more ++ [last]) = s.1 ∧
      ∀ k, s.1 < 128 ^ (k + 1) → more.length ≤ k := by
  -- seven bits a round, from the low end
  refine Lib.loop_induct zhpIntEncodeRound_decreases (P := fun s r => ∃ more last,
    r = s.2 ++ (more ++ [last]) ∧ (∀ o ∈ more, 128 ≤ o) ∧ ¬128 ≤ last ∧
    leb (more ++ [last]) = s.1 ∧ ∀ k, s.1 < 128 ^ (k + 1) → more.length ≤ k) ?_ ?_ s
  · intro s r hb
    unfold zhpIntEncodeRound at hb
    split at hb
    · cases hb
    · -- the last octet holds what is left
      rename_i hlt
      cases hb
      have hval : (UInt8.ofNat s.1).toNat = s.1 := by
        rw [UInt8.toNat_ofNat']
        omega
      refine ⟨[], UInt8.ofNat s.1, rfl, nofun, ?_, ?_, fun k _ => Nat.zero_le k⟩
      · rw [UInt8.le_iff_toNat_le, hval]
        exact hlt
      · simp only [List.nil_append, leb, hval]
        omega
  · intro s s' r hb ih
    unfold zhpIntEncodeRound at hb
    split at hb
    · -- a round that goes on writes the low seven bits with the top bit set
      rename_i hge
      cases hb
      obtain ⟨more, last, hr, hmore, hlast, hleb, hlen⟩ := ih
      have hoct := contOctet s.1
      dsimp only at hr hleb hlen
      rw [Nat.shiftRight_eq_div_pow] at hleb hlen
      refine ⟨UInt8.ofNat (0x80 ||| (s.1 &&& 0x7f)) :: more, last, ?_, ?_, hlast, ?_, ?_⟩
      · rw [hr]
        simp
      · intro o ho
        rcases List.mem_cons.mp ho with rfl | ho
        · exact hoct.1
        · exact hmore o ho
      · rw [List.cons_append, leb, hleb, hoct.2]
        omega
      · -- and divides what is left by 128
        intro k hk
        cases k with
        | zero => omega
        | succ k =>
          have hdiv : s.1 / 2 ^ 7 < 128 ^ (k + 1) := by
            rw [Nat.div_lt_iff_lt_mul (by decide)]
            rw [Nat.pow_succ] at hk
            exact hk
          exact Nat.succ_le_succ (hlen k hdiv)
    · cases hb

theorem takeWhile_more {more : Bytes} {last : UInt8} (hmore : ∀ o ∈ more, 128 ≤ o)
    (hlast : ¬128 ≤ last) (rest : Bytes) :
    (more ++ last :: rest).takeWhile (fun o => decide (128 ≤ o)) = more := by
  rw [List.takeWhile_append_of_pos (by simpa using hmore)]
  simp [hlast]

/-- What the encoder writes: one octet, or a full prefix and the continuation octets. -/
theorem zhpIntEncode_cases (n : Nat) (flags : UInt8) (v : Nat) :
    (v < 2 ^ n - 1 ∧ zhpIntEncode n flags v = [flags ||| UInt8.ofNat v]) ∨
      (2 ^ n - 1 ≤ v ∧ ∃ more last,
        zhpIntEncode n flags v = (flags ||| UInt8.ofNat (2 ^ n - 1)) :: (more ++ [last]) ∧
        (∀ o ∈ more, 128 ≤ o) ∧ ¬128 ≤ last ∧ leb (more ++ [last]) = v - (2 ^ n - 1) ∧
        ∀ k, v - (2 ^ n - 1) < 128 ^ (k + 1) → more.length ≤ k) := by
  unfold zhpIntEncode
  by_cases hv : v < 2 ^ n - 1
  · exact .inl ⟨hv, if_pos hv⟩
  · obtain ⟨more, last, hr, hmore, hlast, hleb, hlen⟩ :=
      zhpIntEncode_loop (v - (2 ^ n - 1), [flags ||| UInt8.ofNat (2 ^ n - 1)])
    exact .inr ⟨by omega, more, last, (if_neg hv).trans hr, hmore, hlast, hleb, hlen⟩

variable {n v : Nat} {flags : UInt8}

/-- The first octet holds the flags and what of the value fits. -/
theorem headD_zhpIntEncode (hn : n ≤ 8) (hflags : flags.toNat % 2 ^ n = 0) {rest : Bytes} :
    ((zhpIntEncode n flags v ++ rest).headD 0).toNat = flags.toNat + min v (2 ^ n - 1) := by
  have hpos := Nat.two_pow_pos n
  rcases zhpIntEncode_cases n flags v with ⟨hv, heq⟩ | ⟨hv, more, last, heq, -⟩
  · rw [heq, Nat.min_eq_left (by omega)]
    exact toNat_flags_or hn hflags (by omega)
  · rw [heq, Nat.min_eq_right hv]
    exact toNat_flags_or hn hflags (by omega)

theorem rfcInt_zhpIntEncode (hn : n ≤ 8) (hflags : flags.toNat % 2 ^ n = 0)
    (hv : v ≤ ZHP_INT_MAX) (rest : Bytes) :
    Hpack.rfcInt n (zhpIntEncode n flags v ++ rest) =
        some ((zhpIntEncode n flags v).length, v) ∧ (zhpIntEncode n flags v).length ≤ 5 := by
  have hpos := Nat.two_pow_pos n
  have hmod : ∀ k < 2 ^ n, (flags ||| UInt8.ofNat k).toNat % 2 ^ n = k := by
    intro k hk
    rw [toNat_flags_or hn hflags hk, Nat.add_mod, hflags, Nat.zero_add, Nat.mod_mod,
      Nat.mod_eq_of_lt hk]
  rcases zhpIntEncode_cases n flags v with ⟨hlt, heq⟩ | ⟨hge, more, last, heq, hmore, hlast, hleb, hlen⟩
  · rw [heq, List.singleton_append, Hpack.rfcInt]
    rw [hmod v (by omega), if_pos hlt]
    exact ⟨rfl, by rw [List.length_singleton]; decide⟩
  · have hshort : more.length ≤ 3 := by
      refine hlen 3 ?_
      rw [ZHP_INT_MAX] at hv
      omega
    have htake : moreOctets (more ++ last :: rest) = more := takeWhile_more hmore hlast rest
    have hsplit : (flags ||| UInt8.ofNat (2 ^ n - 1)) :: (more ++ [last]) ++ rest =
        (flags ||| UInt8.ofNat (2 ^ n - 1)) :: (more ++ last :: rest) := by
      simp only [List.cons_append, List.append_assoc, List.nil_append]
    rw [heq, hsplit, Hpack.rfcInt]
    rw [hmod _ (by omega), if_neg (Nat.lt_irrefl _), htake, List.drop_left]
    dsimp only
    rw [hleb, Nat.add_sub_cancel' hge]
    refine ⟨?_, ?_⟩
    · simp only [List.length_cons, List.length_append, List.length_nil]
    · simp only [List.length_cons, List.length_append, List.length_nil]
      omega

theorem zhpIntDecode_zhpIntEncode (hn : n ≤ 8) (hflags : flags.toNat % 2 ^ n = 0)
    (hv : v ≤ ZHP_INT_MAX) {rest : Bytes} :
    zhpIntDecode (zhpIntEncode n flags v ++ rest) n =
      .ok ((zhpIntEncode n flags v).length, v) := by
  obtain ⟨hint, hlen⟩ := rfcInt_zhpIntEncode hn hflags hv rest
  exact (zhpIntDecode_eq_ok hn).mpr ⟨hint, hlen, hv⟩

/-- The specification reads an integer back, whatever its flags. -/
theorem int_flags (hn : n ≤ 8) (hflags : flags.toNat % 2 ^ n = 0) (hv : v ≤ ZHP_INT_MAX)
    (rest : Bytes) : Hpack.int n (zhpIntEncode n flags v ++ rest) = some (v, rest) := by
  rw [int_eq, zhpIntDecode_zhpIntEncode hn hflags hv]
  show some (v, (zhpIntEncode n flags v ++ rest).drop _) = some (v, rest)
  rw [List.drop_left]

/-- **The prefixed-integer codec.** What the encoder writes under clear prefix bits reads back
with any octets behind it; the decoder succeeds with the value and the length of RFC 7541
exactly on a complete integer of at most four continuation octets and at most `2 ^ 24`; and no
shift and no sum of its rounds leaves a word of 64 bits. -/
theorem zhpInt_codec :
    (∀ (n : Nat) (flags : UInt8) (v : Nat) (rest : Bytes),
      n ≤ 8 → flags.toNat % 2 ^ n = 0 → v ≤ 2 ^ 24 →
        zhpIntDecode (zhpIntEncode n flags v ++ rest) n =
          .ok ((zhpIntEncode n flags v).length, v)) ∧
    (∀ (n : Nat) (p : Bytes), n ≤ 8 →
      (∀ c v, zhpIntDecode p n = .ok (c, v) ↔
        Hpack.rfcInt n p = some (c, v) ∧ c - 1 ≤ 4 ∧ v ≤ 2 ^ 24) ∧
      ∀ r ∈ zhpIntDecodeRounds p n, r.shift < 64 ∧ r.group < 2 ^ 64 ∧ r.sum < 2 ^ 64) := by
  refine ⟨fun n flags v rest hn hflags hv => zhpIntDecode_zhpIntEncode hn hflags hv,
    fun n p hn => ⟨fun c v => ?_, zhpIntDecodeRounds_fits hn p⟩⟩
  rw [zhpIntDecode_eq_ok hn, Nat.sub_le_iff_le_add]
  rfl

/-- 1337 under a prefix of five bits, as in RFC 7541 appendix C.1.2, the flags set. -/
theorem zhpInt_codec_1337 :
    zhpIntDecode (zhpIntEncode 5 0xE0 1337 ++ [0x20]) 5 = .ok ((zhpIntEncode 5 0xE0 1337).length, 1337) ∧
      zhpIntEncode 5 0xE0 1337 = [0xFF, 0x9A, 0x0A] ∧
      (zhpIntDecode [0xFF, 0x9A, 0x0A] 5 = .ok (3, 1337) ↔
        Hpack.rfcInt 5 [0xFF, 0x9A, 0x0A] = some (3, 1337) ∧ 3 - 1 ≤ 4 ∧ 1337 ≤ 2 ^ 24) :=
  ⟨zhpInt_codec.1 5 0xE0 1337 [0x20] (by decide) (by decide) (by decide), by decide,
    (zhpInt_codec.2 5 [0xFF, 0x9A, 0x0A] (by decide)).1 3 1337⟩

end Zcio
