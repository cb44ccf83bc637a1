import Mathlib.Algebra.Order.Ring.Nat
import Mathlib.Data.List.Basic
import Mathlib.Tactic.Common

/-!
# Zcio.Lib.PrefixTree

**Complete prefix codes.** A code tree has a symbol at each leaf and two children at every other
node, so that every string of bits either leads to a leaf or stops inside the code of one. A
canonical code gives the tree as the number of leaves on each level, the leaves of a level to
the left of its inner nodes; `canonicalWalk` reads one symbol off these numbers alone, and
`canonicalWalk_eq` says that it walks the tree.
-/

namespace Lib

universe u v

/-- A complete prefix code. -/
inductive CodeTree (σ : Type u) where
  | leaf (s : σ)
  | node (zero one : CodeTree σ)
  deriving DecidableEq

namespace CodeTree

variable {σ : Type u} {t : CodeTree σ} {s s' : σ} {c c' bits rest : List Bool}

/-- Read one symbol: the symbol and the bits behind its code, `none` if the bits end before. -/
def walk : CodeTree σ → List Bool → Option (σ × List Bool)
  | leaf s, bits => some (s, bits)
  | node _ _, [] => none
  | node zero _, false :: bits => zero.walk bits
  | node _ one, true :: bits => one.walk bits

/-- The symbols with their codes, from left to right. -/
def codes : CodeTree σ → List (σ × List Bool)
  | leaf s => [(s, [])]
  | node zero one =>
    zero.codes.map (fun p => (p.1, false :: p.2)) ++ one.codes.map (fun p => (p.1, true :: p.2))

theorem walk_append (h : (s, c) ∈ t.codes) (rest : List Bool) :
    t.walk (c ++ rest) = some (s, rest) := by
  induction t generalizing c with
  | leaf a =>
    rw [codes, List.mem_singleton] at h
    cases h
    rfl
  | node zero one ihz iho =>
    rw [codes, List.mem_append, List.mem_map, List.mem_map] at h
    rcases h with ⟨p, hp, heq⟩ | ⟨p, hp, heq⟩
    · cases heq
      exact ihz hp
    · cases heq
      exact iho hp

/-- What was read off is the code of a symbol. -/
theorem exists_code_of_walk (h : t.walk bits = some (s, rest)) :
    ∃ c, (s, c) ∈ t.codes ∧ bits = c ++ rest := by
  induction t generalizing bits with
  | leaf a =>
    cases h
    exact ⟨[], List.mem_singleton.mpr rfl, rfl⟩
  | node zero one ihz iho =>
    cases bits with
    | nil => cases h
    | cons b bits =>
      cases b with
      | false =>
        obtain ⟨c, hc, rfl⟩ := ihz h
        exact ⟨false :: c, List.mem_append_left _ (List.mem_map.mpr ⟨_, hc, rfl⟩), rfl⟩
      | true =>
        obtain ⟨c, hc, rfl⟩ := iho h
        exact ⟨true :: c, List.mem_append_right _ (List.mem_map.mpr ⟨_, hc, rfl⟩), rfl⟩

/-- The bits end before a symbol does exactly if they are cut off inside a code. -/
theorem exists_code_of_walk_none (h : t.walk bits = none) :
    ∃ p ∈ t.codes, bits <+: p.2 ∧ bits.length < p.2.length := by
  induction t generalizing bits with
  | leaf a => cases h
  | node zero one ihz iho =>
    cases bits with
    | nil =>
      obtain ⟨p, hp⟩ : ∃ p, p ∈ zero.codes := by
        cases zero with
        | leaf a => exact ⟨_, List.mem_singleton.mpr rfl⟩
        | node z o =>
          obtain ⟨p, hp, -⟩ := @ihz [] rfl
          exact ⟨p, hp⟩
      exact ⟨_, List.mem_append_left _ (List.mem_map.mpr ⟨p, hp, rfl⟩), List.nil_prefix,
        Nat.succ_pos _⟩
    | cons b bits =>
      cases b with
      | false =>
        obtain ⟨p, hp, hpre, hlen⟩ := ihz h
        exact ⟨_, List.mem_append_left _ (List.mem_map.mpr ⟨p, hp, rfl⟩),
          List.cons_prefix_cons.mpr ⟨rfl, hpre⟩, Nat.succ_lt_succ hlen⟩
      | true =>
        obtain ⟨p, hp, hpre, hlen⟩ := iho h
        exact ⟨_, List.mem_append_right _ (List.mem_map.mpr ⟨p, hp, rfl⟩),
          List.cons_prefix_cons.mpr ⟨rfl, hpre⟩, Nat.succ_lt_succ hlen⟩

/-- **No code begins another.** -/
theorem codes_prefixFree (h : (s, c) ∈ t.codes) (h' : (s', c') ∈ t.codes) (hpre : c <+: c') :
    s = s' ∧ c = c' := by
  obtain ⟨x, rfl⟩ := hpre
  have heq := walk_append h x
  have hself := walk_append h' []
  rw [List.append_nil, heq] at hself
  cases hself
  exact ⟨rfl, (List.append_nil c).symm⟩

/-- Bits that are cut off inside a code lead to no symbol. -/
theorem walk_of_cut (h : (s, c ++ rest) ∈ t.codes) (hrest : rest ≠ []) : t.walk c = none := by
  cases hw : t.walk c with
  | none => rfl
  | some r =>
    obtain ⟨a, x⟩ := r
    obtain ⟨c', hc', rfl⟩ := exists_code_of_walk hw
    have hpre : c' <+: c' ++ x ++ rest := ⟨x ++ rest, (List.append_assoc c' x rest).symm⟩
    have hlen := congrArg List.length (codes_prefixFree hc' h hpre).2
    rw [List.length_append, List.length_append] at hlen
    exact absurd (List.eq_nil_of_length_eq_zero (by omega)) hrest

/-- **The code is complete**: enough bits always lead to a symbol. -/
theorem exists_code_begins {n : Nat} (hn : ∀ p ∈ t.codes, p.2.length ≤ n) (hbits : n ≤ bits.length) :
    ∃ p ∈ t.codes, p.2 <+: bits := by
  cases hw : t.walk bits with
  | none =>
    obtain ⟨p, hp, -, hlen⟩ := exists_code_of_walk_none hw
    exact absurd (hn p hp) (by omega)
  | some r =>
    obtain ⟨a, x⟩ := r
    obtain ⟨c, hc, heq⟩ := exists_code_of_walk hw
    exact ⟨_, hc, x, heq.symm⟩

/-! ### Messages -/

section

variable {α : Type v} {code : α → List Bool} {sym : α → σ}

/-- Two messages with something behind them that are the same bits: one message continues the
other. -/
theorem flatMap_code_compare (hcode : ∀ a, (sym a, code a) ∈ t.codes)
    (hsym : Function.Injective sym) {m m' : List α} {x y : List Bool}
    (h : m.flatMap code ++ x = m'.flatMap code ++ y) :
    (∃ l, m' = m ++ l ∧ x = l.flatMap code ++ y) ∨ ∃ l, m = m' ++ l ∧ y = l.flatMap code ++ x := by
  induction m generalizing m' with
  | nil => exact .inl ⟨m', rfl, h⟩
  | cons a m ih =>
    cases m' with
    | nil => exact .inr ⟨a :: m, rfl, h.symm⟩
    | cons b m' =>
      rw [List.flatMap_cons, List.flatMap_cons, List.append_assoc, List.append_assoc] at h
      have ha := walk_append (hcode a) (m.flatMap code ++ x)
      have hb := walk_append (hcode b) (m'.flatMap code ++ y)
      rw [h, hb, Option.some.injEq, Prod.mk.injEq] at ha
      obtain rfl := hsym ha.1
      rcases ih ha.2.symm with ⟨l, rfl, hl⟩ | ⟨l, rfl, hl⟩
      · exact .inl ⟨l, rfl, hl⟩
      · exact .inr ⟨l, rfl, hl⟩

end

/-! ### Canonical codes -/

/-- The nodes of a level from the nodes of the next one, two by two. -/
def pairUp : List (CodeTree σ) → List (CodeTree σ)
  | zero :: one :: ts => node zero one :: pairUp ts
  | _ => []

theorem pairUp_getElem? {ts : List (CodeTree σ)} {i : Nat} {t : CodeTree σ}
    (h : (pairUp ts)[i]? = some t) :
    ∃ zero one, t = node zero one ∧ ts[2 * i]? = some zero ∧ ts[2 * i + 1]? = some one := by
  induction ts using pairUp.induct generalizing i with
  | case1 zero one ts ih =>
    cases i with
    | zero =>
      cases h
      exact ⟨zero, one, rfl, rfl, rfl⟩
    | succ i => exact ih h
  | case2 ts hts =>
    rw [pairUp.eq_2 _ hts] at h
    cases h

/-- The nodes of a level: `counts` says how many leaves it and the levels below have. -/
def levels : List Nat → List σ → List (CodeTree σ)
  | [], _ => []
  | count :: counts, symbols =>
    (symbols.take count).map leaf ++ pairUp (levels counts (symbols.drop count))

/-- The outcome of a walk. -/
inductive Walked (σ : Type u) where
  | sym (s : σ) (rest : List Bool)
  /-- The bits ended before. -/
  | out
  /-- No level has a leaf there. -/
  | none

/-- Read one symbol off the numbers of leaves: `rel` is the place of the current node among the
inner nodes of its level. -/
def canonicalWalk : List Nat → List σ → Nat → List Bool → Walked σ
  | [], _, _, _ => .none
  | _ :: _, _, _, [] => .out
  | count :: counts, symbols, rel, b :: bits =>
    let place := 2 * rel + b.toNat
    if place < count then
      match symbols[place]? with
      | some s => .sym s bits
      | .none => .none
    else canonicalWalk counts (symbols.drop count) (place - count) bits

/-- What a walk in the tree comes to. -/
def walked (t : CodeTree σ) (bits : List Bool) : Walked σ :=
  match t.walk bits with
  | some (s, rest) => .sym s rest
  | .none => .out

/-- **Canonical decoding walks the tree.** -/
theorem canonicalWalk_eq {counts : List Nat} {symbols : List σ} {rel : Nat}
    (h : (pairUp (levels counts symbols))[rel]? = some t) (hcounts : counts.sum ≤ symbols.length)
    (bits : List Bool) : canonicalWalk counts symbols rel bits = t.walked bits := by
  induction counts generalizing symbols rel t bits with
  | nil => cases h
  | cons count counts ih =>
    rw [List.sum_cons] at hcounts
    obtain ⟨zero, one, rfl, hzero, hone⟩ := pairUp_getElem? h
    cases bits with
    | nil => rfl
    | cons b bits =>
      -- the child the bit leads to
      have hchild : ∃ child, (levels (count :: counts) symbols)[2 * rel + b.toNat]? = some child ∧
          (node zero one).walked (b :: bits) = child.walked bits := by
        cases b with
        | false => exact ⟨zero, hzero, rfl⟩
        | true => exact ⟨one, hone, rfl⟩
      obtain ⟨child, hget, hwalked⟩ := hchild
      have hleaves : ((symbols.take count).map leaf : List (CodeTree σ)).length = count := by
        rw [List.length_map, List.length_take]
        omega
      rw [hwalked, canonicalWalk]
      rw [levels] at hget
      by_cases hplace : 2 * rel + b.toNat < count
      · rw [List.getElem?_append_left (by rw [hleaves]; exact hplace), List.getElem?_map,
          List.getElem?_take_of_lt hplace] at hget
        obtain ⟨s, hs, rfl⟩ := Option.map_eq_some_iff.mp hget
        rw [if_pos hplace, hs]
        rfl
      · rw [List.getElem?_append_right (by rw [hleaves]; omega), hleaves] at hget
        rw [if_neg hplace]
        exact ih hget (by rw [List.length_drop]; omega) bits

end CodeTree

end Lib
