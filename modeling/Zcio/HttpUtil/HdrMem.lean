import Mathlib.Algebra.BigOperators.Group.List.Basic
import Zcio.HttpUtil.Hdrs

/-!
# Zcio.HttpUtil.HdrMem

**The accounting of a header list.** `HdrMem` is `zhs_hdrs` on `size_t` arithmetic with
allocations that fail. Every check of `zhs_hdrs_add_` subtracts or doubles unsigned numbers; that
none of it wraps is an invariant of the list (`HdrMem.Inv`), and with it the caps hold
(`zhsHdrs_accounting`).

The protocol modules work on `ZhsHdrs`, whose allocations succeed; `add_view` connects the two.
-/

namespace Zcio

/-- A `zhs_hdr` with its two blocks: the octets copied in, in front of the NUL that ends each. -/
structure HdrBlock where
  name : Bytes
  value : Bytes

/-- What a stored header counts for. -/
def HdrBlock.size (x : HdrBlock) : Nat := x.name.length + x.value.length + 32

/-- `zhs_hdrs`: the headers in `v[0, n)`, the capacity of `v`, the octets accounted for. -/
structure HdrMem where
  v : List HdrBlock := []
  cap : Nat := 0
  bytes : Nat := 0

/-- The answers of the allocator in one call of `zhs_hdrs_add_`: whether a request of that size
is met. -/
structure HdrAlloc where
  nv : Nat → Bool
  nm : Nat → Bool
  vl : Nat → Bool

/-- How an add fails: through `zcio_fail_`, or with the bare code `ZCIO_ERR_NOMEM`. -/
inductive AddFail where
  | fail (f : Fail)
  | nomem

namespace HdrMem

/-- The field `n`. -/
def n (h : HdrMem) : Nat := h.v.length

/-- The local `cap` of `zhs_hdrs_add_`, the roof of `bytes`. -/
def roof (lim : ZhsLimits) : Nat :=
  if lim.maxHeaderBytes > SIZE_MAX / 2 then SIZE_MAX else sizeMul lim.maxHeaderBytes 2

/-- The local `ncap`: twice the capacity, up to the largest number of headers. -/
def ncap (h : HdrMem) (lim : ZhsLimits) : Nat :=
  let ncap := if h.cap ≠ 0 then sizeMul h.cap 2 else 8
  if ncap > lim.maxHeaders then lim.maxHeaders else ncap

/-- `sizeof(zhs_hdr)`: two pointers. -/
def sizeofHdr : Nat := 16

/-- Make room for one more header, if `v` is full. -/
def grow (h : HdrMem) (lim : ZhsLimits) (a : HdrAlloc) : Option HdrMem :=
  if h.n = h.cap then
    if a.nv (sizeMul (h.ncap lim) sizeofHdr) then some { h with cap := h.ncap lim } else none
  else some h

/-- `zhs_hdrs_add_`. -/
def add (h : HdrMem) (name value : Bytes) (lim : ZhsLimits) (lowerName : Bool) (a : HdrAlloc) :
    Except AddFail Unit × HdrMem :=
  if h.n ≥ lim.maxHeaders then
    (.error (.fail { code := .protocol, msg := "http: too many headers" }), h)
  else if name.length > lim.maxHeaderBytes ∨ value.length > lim.maxHeaderBytes ∨
      sizeAdd (sizeAdd name.length value.length) 32 > sizeSub (roof lim) h.bytes then
    (.error (.fail { code := .protocol, msg := "http: header block too large" }), h)
  else
    match h.grow lim a with
    | none => (.error .nomem, h)
    | some h =>
      if !a.nm (sizeAdd name.length 1) || !a.vl (sizeAdd value.length 1) then
        -- the larger array stays
        (.error .nomem, h)
      else
        (.ok (), { h with
          v := h.v ++ [{ name := if lowerName then lower name else name, value }]
          bytes := sizeAdd h.bytes (sizeAdd (sizeAdd name.length value.length) 32) })

end HdrMem

/-- The arguments of one call, the allocator's answers included. -/
structure HdrCall where
  name : Bytes
  value : Bytes
  lowerName : Bool
  alloc : HdrAlloc
  name_lt : name.length < 2 ^ 62
  value_lt : value.length < 2 ^ 62

/-- One call of `zhs_hdrs_add_`. -/
def HdrMem.call (h : HdrMem) (lim : ZhsLimits) (c : HdrCall) : Except AddFail Unit × HdrMem :=
  h.add c.name c.value lim c.lowerName c.alloc

/-- The list after some calls, whatever they returned. -/
def HdrMem.run (lim : ZhsLimits) (h : HdrMem) (calls : List HdrCall) : HdrMem :=
  calls.foldl (fun h c => (h.call lim c).2) h

namespace HdrMem

variable {lim : ZhsLimits} {h : HdrMem}

/-! ### The roof

The largest number of fields that the limits allow for. -/

/-- The saturated doubling. -/
theorem roof_eq (lim : ZhsLimits) : roof lim = min (2 * lim.maxHeaderBytes) SIZE_MAX := by
  have hmax : SIZE_MAX = 2 ^ 64 - 1 := rfl
  rw [roof]
  by_cases hbig : lim.maxHeaderBytes > SIZE_MAX / 2
  · rw [if_pos hbig]
    omega
  · rw [if_neg hbig, sizeMul_of_lt (by omega)]
    omega

theorem roof_lt (lim : ZhsLimits) : roof lim < 2 ^ 64 := by
  rw [roof_eq]
  exact Nat.lt_of_le_of_lt (Nat.min_le_right _ _) (by decide)

theorem roof_eq_byteCap (lim : ZhsLimits) : roof lim = ZhsHdrs.byteCap lim := by
  have hmax : SIZE_MAX = 2 ^ 64 - 1 := rfl
  rw [roof, ZhsHdrs.byteCap]
  by_cases hbig : lim.maxHeaderBytes > SIZE_MAX / 2
  · rw [if_pos hbig, if_pos hbig]
  · rw [if_neg hbig, if_neg hbig, sizeMul_of_lt (by omega)]

/-! ### The invariant -/

/-- What holds of a list between calls. -/
structure Inv (lim : ZhsLimits) (h : HdrMem) : Prop where
  n_le : h.n ≤ lim.maxHeaders
  n_le_cap : h.n ≤ h.cap
  bytes_eq : h.bytes = (h.v.map HdrBlock.size).sum
  bytes_le : h.bytes ≤ roof lim

theorem Inv.init (lim : ZhsLimits) : Inv lim {} where
  n_le := Nat.zero_le _
  n_le_cap := Nat.le_refl 0
  bytes_eq := rfl
  bytes_le := Nat.zero_le _

theorem length_le_size (v : List HdrBlock) : 32 * v.length ≤ (v.map HdrBlock.size).sum := by
  induction v with
  | nil => exact Nat.le_refl 0
  | cons x v ih =>
    have hx : 32 ≤ x.size := Nat.le_add_left 32 _
    rw [List.length_cons, List.map_cons, List.sum_cons]
    omega

/-- The accounting keeps the number of headers far below the word size. -/
theorem Inv.n_lt (hinv : h.Inv lim) : h.n < 2 ^ 59 := by
  have hsize := length_le_size h.v
  have hbytes := hinv.bytes_eq
  have hle := hinv.bytes_le
  have hlt := roof_lt lim
  rw [n]
  omega

/-- **The guard's subtraction never wraps.** -/
theorem Inv.room_eq (hinv : h.Inv lim) : sizeSub (roof lim) h.bytes = roof lim - h.bytes :=
  sizeSub_of_le hinv.bytes_le (roof_lt lim)

/-! ### One call -/

/-- The new capacity of a full array: the doubling does not wrap. -/
theorem Inv.ncap_eq (hinv : h.Inv lim) (hfull : h.n = h.cap) :
    h.ncap lim = min (if h.cap ≠ 0 then h.cap * 2 else 8) lim.maxHeaders := by
  have hlt := hinv.n_lt
  rw [ncap, sizeMul_of_lt (by omega)]
  generalize (if h.cap ≠ 0 then h.cap * 2 else 8) = twice
  split <;> omega

/-- A full array has room for one more header after it grew. -/
theorem Inv.lt_ncap (hinv : h.Inv lim) (hn : h.n < lim.maxHeaders) (hfull : h.n = h.cap) :
    h.n < h.ncap lim := by
  rw [hinv.ncap_eq hfull]
  split <;> omega

/-- The block that is asked for holds `ncap` headers: its size does not wrap. -/
theorem Inv.request_eq (hinv : h.Inv lim) (hfull : h.n = h.cap) :
    sizeMul (h.ncap lim) sizeofHdr = h.ncap lim * sizeofHdr := by
  have hlt := hinv.n_lt
  have hle : h.ncap lim < 2 ^ 60 := by
    rw [hinv.ncap_eq hfull]
    split <;> omega
  exact sizeMul_of_lt (by rw [sizeofHdr]; omega)

theorem grow_cases (hinv : h.Inv lim) (hn : h.n < lim.maxHeaders) (a : HdrAlloc) :
    h.grow lim a = none ∨ ∃ cap, h.grow lim a = some { h with cap } ∧ h.n < cap := by
  rw [grow]
  by_cases hfull : h.n = h.cap
  · rw [if_pos hfull]
    split
    · exact .inr ⟨h.ncap lim, rfl, hinv.lt_ncap hn hfull⟩
    · exact .inl rfl
  · rw [if_neg hfull]
    exact .inr ⟨h.cap, rfl, Nat.lt_of_le_of_ne hinv.n_le_cap hfull⟩

/-- **The sum `nlen + vlen + 32` never wraps.** -/
theorem size_eq {name value : Bytes} (hname : name.length < 2 ^ 62) (hvalue : value.length < 2 ^ 62) :
    sizeAdd (sizeAdd name.length value.length) 32 = name.length + value.length + 32 := by
  rw [sizeAdd_of_lt (a := name.length) (by omega), sizeAdd_of_lt (by omega)]

/-- **One add**: it fails and at most the capacity grew, or one header more is accounted for. -/
theorem add_cases (hinv : h.Inv lim) {name value : Bytes} (hname : name.length < 2 ^ 62)
    (hvalue : value.length < 2 ^ 62) (lo : Bool) (a : HdrAlloc) :
    (∃ e cap, h.add name value lim lo a = (.error e, { h with cap }) ∧ h.n ≤ cap) ∨
    ∃ cap, h.add name value lim lo a =
        (.ok (), { v := h.v ++ [{ name := if lo then lower name else name, value }], cap,
                   bytes := h.bytes + (name.length + value.length + 32) }) ∧
      h.n < cap ∧ h.n < lim.maxHeaders ∧ name.length ≤ lim.maxHeaderBytes ∧
      value.length ≤ lim.maxHeaderBytes ∧
      h.bytes + (name.length + value.length + 32) ≤ roof lim := by
  rw [add, size_eq hname hvalue, hinv.room_eq]
  by_cases hn : h.n ≥ lim.maxHeaders
  · rw [if_pos hn]
    exact .inl ⟨_, h.cap, rfl, hinv.n_le_cap⟩
  rw [if_neg hn]
  by_cases hlarge : name.length > lim.maxHeaderBytes ∨ value.length > lim.maxHeaderBytes ∨
      name.length + value.length + 32 > roof lim - h.bytes
  · rw [if_pos hlarge]
    exact .inl ⟨_, h.cap, rfl, hinv.n_le_cap⟩
  rw [if_neg hlarge]
  rcases grow_cases hinv (by omega) a with hgrow | ⟨cap, hgrow, hcap⟩
  · rw [hgrow]
    exact .inl ⟨_, h.cap, rfl, hinv.n_le_cap⟩
  rw [hgrow]
  dsimp only
  split
  · exact .inl ⟨_, cap, rfl, hcap.le⟩
  · have hle := hinv.bytes_le
    have hroof := roof_lt lim
    have hsum : h.bytes + (name.length + value.length + 32) ≤ roof lim := by omega
    rw [sizeAdd_of_lt (by omega)]
    exact .inr ⟨cap, rfl, hcap, by omega, by omega, by omega, hsum⟩

/-- Every call keeps the invariant. -/
theorem Inv.call (hinv : h.Inv lim) (c : HdrCall) : (h.call lim c).2.Inv lim := by
  rw [HdrMem.call]
  rcases add_cases hinv c.name_lt c.value_lt c.lowerName c.alloc with
    ⟨e, cap, hres, hcap⟩ | ⟨cap, hres, hcap, hn, -, -, hsum⟩
  · rw [hres]
    exact ⟨hinv.n_le, hcap, hinv.bytes_eq, hinv.bytes_le⟩
  · rw [hres]
    have hlen : ∀ x : HdrBlock, HdrMem.n { v := h.v ++ [x], cap, bytes := 0 } = h.n + 1 :=
      fun x => List.length_append
    have hstored : (if c.lowerName then lower c.name else c.name).length = c.name.length := by
      split
      · exact length_lower c.name
      · rfl
    refine ⟨(hlen _).trans_le hn, (hlen _).trans_le hcap, ?_, hsum⟩
    simp only [List.map_append, List.map_cons, List.map_nil, List.sum_append, List.sum_cons,
      List.sum_nil, HdrBlock.size, hstored, hinv.bytes_eq, Nat.add_zero]

/-- **Every run keeps the invariant.** -/
theorem Inv.run (hinv : h.Inv lim) (calls : List HdrCall) : (HdrMem.run lim h calls).Inv lim := by
  induction calls generalizing h with
  | nil => exact hinv
  | cons c calls ih => exact ih (hinv.call c)

/-! ### The list of the protocol modules

The protocol modules use the list without its memory. -/

/-- The list as the protocol modules see it: both blocks read as C strings. -/
def view (h : HdrMem) : ZhsHdrs where
  v := h.v.map fun x => { name := cstr x.name, value := cstr x.value }
  cap := h.cap
  bytes := h.bytes

/-- An add that succeeds is one of `ZhsHdrs.add`, to the same headers and octets. -/
theorem add_view (hinv : h.Inv lim) {name value : Bytes} (hname : name.length < 2 ^ 62)
    (hvalue : value.length < 2 ^ 62) {lo : Bool} {a : HdrAlloc}
    (hok : (h.add name value lim lo a).1 = .ok ()) :
    ∃ h', h.view.add name value lim lo = .ok h' ∧
      h'.v = (h.add name value lim lo a).2.view.v ∧
      h'.bytes = (h.add name value lim lo a).2.bytes := by
  rcases add_cases hinv hname hvalue lo a with
    ⟨e, cap, hres, hcap⟩ | ⟨cap, hres, -, hn, hnlen, hvlen, hsum⟩
  · rw [hres] at hok
    cases hok
  · have hcount : h.view.n = h.n := List.length_map _
    rw [roof_eq_byteCap] at hsum
    obtain ⟨h', hadd⟩ := ZhsHdrs.add_of_room lo (hcount.trans_lt hn) hnlen hvlen hsum
    obtain ⟨-, hv, hbytes⟩ := ZhsHdrs.add_ok hadd
    refine ⟨h', hadd, ?_, ?_⟩
    · rw [hv, hres]
      simp only [view, List.map_append, List.map_cons, List.map_nil]
    · rw [hbytes, hres]
      rfl

end HdrMem

/-- **The accounting of a header list.** After any calls from the empty list: both caps on the
number of headers hold; `bytes` is what the stored headers count for and stays under the roof; the
arithmetic of the next guard does not wrap; and a next call that fails leaves the headers and
`bytes` as they are. -/
theorem zhsHdrs_accounting (lim : ZhsLimits) (calls : List HdrCall) :
    let h := HdrMem.run lim {} calls
    h.n ≤ lim.maxHeaders ∧ h.n ≤ h.cap ∧
    h.bytes = (h.v.map fun x => x.name.length + x.value.length + 32).sum ∧
    h.bytes ≤ min (2 * lim.maxHeaderBytes) SIZE_MAX ∧
    sizeSub (HdrMem.roof lim) h.bytes + h.bytes = HdrMem.roof lim ∧
    ∀ c : HdrCall,
      sizeAdd (sizeAdd c.name.length c.value.length) 32 = c.name.length + c.value.length + 32 ∧
      ((h.call lim c).1 = .ok () ∨
        (h.call lim c).2.v = h.v ∧ (h.call lim c).2.bytes = h.bytes) := by
  intro h
  have hinv : h.Inv lim := (HdrMem.Inv.init lim).run calls
  refine ⟨hinv.n_le, hinv.n_le_cap, hinv.bytes_eq, ?_, ?_, ?_⟩
  · rw [← HdrMem.roof_eq]
    exact hinv.bytes_le
  · rw [hinv.room_eq]
    exact Nat.sub_add_cancel hinv.bytes_le
  · intro c
    refine ⟨HdrMem.size_eq c.name_lt c.value_lt, ?_⟩
    rcases HdrMem.add_cases hinv c.name_lt c.value_lt c.lowerName c.alloc with
      ⟨e, cap, hres, -⟩ | ⟨cap, hres, -⟩
    · rw [HdrMem.call, hres]
      exact .inr ⟨rfl, rfl⟩
    · rw [HdrMem.call, hres]
      exact .inl rfl

end Zcio
