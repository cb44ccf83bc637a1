import Zcio.HttpUtil.Target
import Zcio.Server.Dispatch

/-!
# Zcio.Server.Request

What a handler may rely on in a request, whatever protocol version it came in on.
`Assembled` is what the three parsers have in common: how the fields of the request object
come from the octets received (`RawReq`). On top of it

* `WellFormed`: method, path, header names and values and authority passed their checks,
  and nothing was truncated on the way into a `char *`;
* `LengthHonest`: a declared content length is that of the body.
-/

namespace Zcio

/-! ### Text

Userinfo, and octets that decoding cannot bring in. -/

theorem lower_of_lowerToken {s : Bytes} (h : zhsLowerTokenOk s = true) : lower s = s := by
  simp only [zhsLowerTokenOk, Bool.and_eq_true, List.all_eq_true] at h
  have hid : ∀ c ∈ s, tolower c = id c := by
    intro c hc
    have hup := (h.2 c hc).1
    unfold tolower
    split
    · rename_i h65
      simp [h65.1, h65.2] at hup
    · rfl
  unfold lower
  rw [List.map_congr_left hid, List.map_id]

/-- The part of an authority behind its first `@`, or all of it (`strchr`). -/
def afterFirst (c : UInt8) (s : Bytes) : Bytes :=
  match memchr c s with
  | some i => s.drop (i + 1)
  | none => s

/-- `a` is the authority `r`, or what is left of it without its userinfo. -/
def LessUserinfo (r a : Bytes) : Prop := a = r ∨ ∃ ui, r = ui ++ 64 :: a

theorem lessUserinfo_afterFirst (r : Bytes) : LessUserinfo r (afterFirst 64 r) := by
  unfold afterFirst
  cases h : memchr 64 r with
  | none => exact .inl rfl
  | some i =>
    obtain ⟨a, b, rfl, rfl, -⟩ := memchr_eq_some h
    refine .inr ⟨a, ?_⟩
    dsimp only
    rw [← List.drop_drop, List.drop_left]
    rfl

theorem hexval_zero : hexval 0 = none := by decide

/-- A percent-encoded text that decodes holds no NUL. -/
theorem pctDecode_noNul {s out : Bytes} (h : pctDecode s = some out) : (0 : UInt8) ∉ s := by
  fun_induction pctDecode s generalizing out with
  | case1 => exact List.not_mem_nil
  | case2 => cases h
  | case3 =>
    rename_i x l rest hi lo hlo hhi d hctl ih
    obtain ⟨out', hout, -⟩ := Option.map_eq_some_iff.mp h
    have hx : x ≠ 0 := by rintro rfl; rw [hexval_zero] at hhi; cases hhi
    have hl : l ≠ 0 := by rintro rfl; rw [hexval_zero] at hlo; cases hlo
    simp only [List.mem_cons, not_or]
    exact ⟨by decide, hx.symm, hl.symm, ih hout⟩
  | case4 => cases h
  | case5 => cases h
  | case6 => cases h
  | case7 c rest hc hctl ih =>
    obtain ⟨out', hout, -⟩ := Option.map_eq_some_iff.mp h
    have hne : c ≠ 0 := by rintro rfl; exact hctl (by decide)
    simp only [List.mem_cons, not_or]
    exact ⟨hne.symm, ih hout⟩

/-- A target that decodes holds no NUL, so that its C string is the target. -/
theorem zhsDecodeTarget_noNul {raw path : Bytes} {query : Option Bytes} {lim : ZhsLimits}
    (h : zhsDecodeTarget raw lim = .ok (path, query)) : (0 : UInt8) ∉ raw := by
  unfold zhsDecodeTarget at h
  split at h
  · cases h
  · split at h
    · cases h
    · split at h
      · rename_i hstar
        rw [hstar]
        decide
      · split at h
        · cases h
        · dsimp only at h
          split at h
          · cases h
          · rename_i dec hdec
            split at h
            · cases h
            · cases hq : memchr 63 raw with
              | none =>
                rw [hq, Option.getD_none, List.take_length] at hdec
                exact pctDecode_noNul hdec
              | some i =>
                rw [hq, Option.getD_some] at hdec h
                obtain ⟨a, b, rfl, rfl, -⟩ := memchr_eq_some hq
                have hb : (a ++ 63 :: b).drop (a.length + 1) = b := by
                  rw [← List.drop_drop, List.drop_left]
                  rfl
                rw [List.take_left] at hdec
                rw [if_pos (by simp), hb] at h
                split at h
                · rename_i hval
                  have hq0 := notMem_of_valueOk (d := 0) hval (by decide)
                  simp only [List.mem_append, List.mem_cons, not_or]
                  exact ⟨pctDecode_noNul hdec, by decide, hq0⟩
                · cases h

/-! ### Assembly

How the object that the handler sees is put together from the octets received. -/

/-- The value of the first Host field. -/
def RawReq.host (r : RawReq) : Option Bytes :=
  (r.fields.find? fun f => lower f.1 == str "host").map (·.2)

/-- The authority the client sent: `:authority`, else the Host field. -/
def RawReq.received (r : RawReq) : Option Bytes := r.authority.or r.host

/-- The header list made from the fields received. -/
def storedFields (fields : List (Bytes × Bytes)) : List ZhsHdr :=
  fields.map fun f => ⟨lower f.1, cstr f.2⟩

/-- **How a request object comes from the octets received.** What becomes of the authority
differs between the versions: `auth` is the version's own rule. -/
structure Assembled (lim : ZhsLimits) (auth : RawReq → Option Bytes) (req : HttpReq) : Prop where
  method : req.method = some (cstr req.raw.method)
  isHead : req.isHead = (cstr req.raw.method == str "HEAD")
  target : ∃ path, req.path = some path ∧
    zhsDecodeTarget (cstr req.raw.target) lim = .ok (path, req.query)
  authority : req.authority = auth req.raw
  names : ∀ f ∈ req.raw.fields, zhsTokenOk f.1 = true
  headers : req.headers.v = storedFields req.raw.fields
  count : req.headers.n ≤ lim.maxHeaders

/-- Storing one more field. -/
theorem storedFields_add {h h' : ZhsHdrs} {fields : List (Bytes × Bytes)} {name value : Bytes}
    {lim : ZhsLimits} {lo : Bool} (hv : h.v = storedFields fields)
    (hname : zhsTokenOk name = true) (hlo : lo = true ∨ lower name = name)
    (hadd : h.add name value lim lo = .ok h') :
    h'.v = storedFields (fields ++ [(name, value)]) ∧ h'.n ≤ lim.maxHeaders := by
  obtain ⟨hn, hv', -⟩ := ZhsHdrs.add_ok hadd
  have hlower : (if lo then lower name else name) = lower name := by
    rcases hlo with rfl | hlo
    · rfl
    · rw [hlo]
      exact ite_self _
  have hcstr : cstr (lower name) = lower name :=
    cstr_of_token (zhsLowerTokenOk_token (zhsLowerTokenOk_lower hname))
  constructor
  · rw [hv', hv, hlower, hcstr]
    simp [storedFields]
  · unfold ZhsHdrs.n at hn ⊢
    rw [hv', List.length_append, List.length_singleton]
    exact hn

/-- The Host field of the header list is the one received. -/
theorem get_host {h : ZhsHdrs} {r : RawReq} (hv : h.v = storedFields r.fields) :
    h.get (str "host") = r.host.map cstr := by
  have hlow : lower (str "host") = str "host" := by decide
  unfold ZhsHdrs.get RawReq.host
  rw [hlow, hv, storedFields, List.find?_map, Option.map_map, Option.map_map]
  rfl

/-! ### Well-formed requests

What a handler may rely on. -/

/-- **What reaches the handler is what was received and validated.** -/
structure WellFormed (lim : ZhsLimits) (req : HttpReq) : Prop where
  method : req.method = some req.raw.method ∧ zhsTokenOk req.raw.method = true
  path : ∃ path, req.path = some path ∧ PathOk path
  headers : req.headers.v = req.raw.fields.map fun f => ⟨lower f.1, f.2⟩
  names : ∀ h ∈ req.headers.v, zhsLowerTokenOk h.name = true
  values : ∀ h ∈ req.headers.v, zhsValueOk h.value = true
  authority : ∀ a, req.authority = some a →
    ∃ r, req.raw.received = some r ∧ zhsValueOk r = true ∧ LessUserinfo r a
  count : req.headers.n ≤ lim.maxHeaders
  body : req.body.length ≤ lim.maxBodyBytes

/-- The octets received pass the checks of `http_util.c`. -/
structure RawReq.Clean (r : RawReq) : Prop where
  method : zhsTokenOk r.method = true
  values : ∀ f ∈ r.fields, zhsValueOk f.2 = true
  authority : ∀ a, r.received = some a → zhsValueOk a = true

/-- The rule for the authority takes a clean one as it was received, up to userinfo. -/
def FromReceived (auth : RawReq → Option Bytes) : Prop :=
  ∀ r : RawReq, r.Clean → ∀ a, auth r = some a → ∃ x, r.received = some x ∧ LessUserinfo x a

section

variable {lim : ZhsLimits} {auth : RawReq → Option Bytes} {req : HttpReq}

/-- Clean octets make a well-formed request. -/
theorem Assembled.wellFormed (h : Assembled lim auth req) (hauth : FromReceived auth)
    (hbody : req.body.length ≤ lim.maxBodyBytes) (hc : req.raw.Clean) : WellFormed lim req := by
  obtain ⟨path, hpath, hdec⟩ := h.target
  refine ⟨⟨?_, hc.method⟩, ⟨path, hpath, zhsDecodeTarget_pathOk hdec⟩, ?_, ?_, ?_, ?_, h.count,
    hbody⟩
  · rw [h.method, cstr_of_token hc.method]
  · rw [h.headers]
    exact List.map_congr_left fun f hf => by rw [cstr_of_valueOk (hc.values f hf)]
  · rw [h.headers]
    intro x hx
    obtain ⟨f, hf, rfl⟩ := List.mem_map.mp hx
    exact zhsLowerTokenOk_lower (h.names f hf)
  · rw [h.headers]
    intro x hx
    obtain ⟨f, hf, rfl⟩ := List.mem_map.mp hx
    dsimp only
    rw [cstr_of_valueOk (hc.values f hf)]
    exact hc.values f hf
  · intro a ha
    rw [h.authority] at ha
    obtain ⟨r, hr, hless⟩ := hauth _ hc _ ha
    exact ⟨r, hr, hc.authority r hr, hless⟩

/-- A well-formed request was made from clean octets, its authority included if it has one. -/
theorem WellFormed.clean (h : WellFormed lim req)
    (hauth : req.authority = none → ∀ a, req.raw.received = some a → zhsValueOk a = true) :
    req.raw.Clean := by
  refine ⟨h.method.2, ?_, ?_⟩
  · intro f hf
    refine h.values ⟨lower f.1, f.2⟩ ?_
    rw [h.headers]
    exact List.mem_map.mpr ⟨f, hf, rfl⟩
  · intro r hr
    cases ha : req.authority with
    | none => exact hauth ha r hr
    | some a =>
      obtain ⟨r', hr', hval, -⟩ := h.authority a ha
      rw [hr] at hr'
      cases hr'
      exact hval

end

/-! ### The declared length

A Content-Length, and when it is that of the body. -/

/-- A decimal digit. -/
def isDigit (c : UInt8) : Bool := 48 ≤ c && c ≤ 57

theorem isDigit_iff {c : UInt8} : isDigit c = true ↔ 48 ≤ c.toNat ∧ c.toNat ≤ 57 := by
  rw [isDigit, Bool.and_eq_true, decide_eq_true_iff, decide_eq_true_iff, UInt8.le_iff_toNat_le,
    UInt8.le_iff_toNat_le]
  exact Iff.rfl

/-- The number a string of digits stands for. -/
def decimalValue (s : Bytes) : Nat := s.foldl (fun n d => n * 10 + (d.toNat - 48)) 0

/-- The values of the content-length headers. -/
def declared (hdrs : List ZhsHdr) : List Bytes :=
  (hdrs.filter fun h => h.name == str "content-length").map (·.value)

/-- `values` declares at most one length: a plain decimal number, that of the body. -/
def Honest (values : List Bytes) (bodyLen : Nat) : Prop :=
  values = [] ∨ ∃ v, values = [v] ∧ v ≠ [] ∧ v.all isDigit = true ∧ decimalValue v = bodyLen

/-- A content length the request declares is that of its body. -/
def LengthHonest (req : HttpReq) : Prop := Honest (declared req.headers.v) req.body.length

end Zcio
