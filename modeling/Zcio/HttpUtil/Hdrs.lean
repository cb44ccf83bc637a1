import Zcio.HttpUtil.Validate

/-!
# Zcio.HttpUtil.Hdrs

The shared plumbing of the HTTP modules (`http_util.c`): the growable byte buffer
`zhs_buf`, the resolved limits `zhs_limits` and the bounded header list `zhs_hdrs`.

Allocation failure is not modelled here: every allocation of these modules succeeds.
-/

namespace Zcio

/-- The largest `size_t`. -/
def SIZE_MAX : Nat := 2 ^ 64 - 1

/-! ### `zhs_buf` -/

/-- `zhs_buf`, up to its spare capacity: `off` consumed octets followed by the readable
region `rd = data[off, len)`. -/
structure ZhsBuf where
  off : Nat := 0
  rd : Bytes := []
  deriving Repr, DecidableEq

namespace ZhsBuf

/-- `ZHS_AVAIL`. -/
def avail (b : ZhsBuf) : Nat := b.rd.length

/-- The field `len`: the consumed prefix counts until the buffer compacts. -/
def len (b : ZhsBuf) : Nat := b.off + b.rd.length

/-- `zhs_buf_append_`. -/
def append (b : ZhsBuf) (s : Bytes) : ZhsBuf := { b with rd := b.rd ++ s }

/-- `zhs_buf_consume_`: advance `off`, resetting an emptied buffer and compacting one
whose dead prefix is large and dominates the data. -/
def consume (b : ZhsBuf) (n : Nat) : ZhsBuf :=
  let n := min n b.avail
  let off := b.off + n
  let rd := b.rd.drop n
  if rd.length = 0 then { off := 0, rd := [] }
  else if 4096 ≤ off ∧ rd.length ≤ off then { off := 0, rd }
  else { off, rd }

@[simp] theorem rd_append (b : ZhsBuf) (s : Bytes) : (b.append s).rd = b.rd ++ s := rfl
@[simp] theorem off_append (b : ZhsBuf) (s : Bytes) : (b.append s).off = b.off := rfl

@[simp] theorem len_append (b : ZhsBuf) (s : Bytes) :
    (b.append s).len = b.len + s.length := by
  simp [len, append]; omega

@[simp] theorem avail_append (b : ZhsBuf) (s : Bytes) :
    (b.append s).avail = b.avail + s.length := by
  simp [avail]

theorem append_append (b : ZhsBuf) (s t : Bytes) :
    (b.append s).append t = b.append (s ++ t) := by
  simp [append]

theorem rd_consume (b : ZhsBuf) (n : Nat) : (b.consume n).rd = b.rd.drop n := by
  have hmin : b.rd.drop (min n b.avail) = b.rd.drop n := by
    rcases Nat.le_total n b.rd.length with h | h
    · rw [avail, Nat.min_eq_left h]
    · rw [avail, Nat.min_eq_right h, List.drop_of_length_le h, List.drop_length]
  unfold consume
  simp only [hmin]
  split
  · rename_i h
    exact (List.eq_nil_of_length_eq_zero h).symm
  · split <;> rfl

end ZhsBuf

/-! ### Limits

The limits of a server, with the defaults for those that are zero. -/

/-- `zhs_limits`, less the timeouts (no parser reads them). -/
structure ZhsLimits where
  maxHeaderBytes : Nat
  maxHeaders : Nat
  maxBodyBytes : Nat
  maxUrlBytes : Nat
  maxStreams : Nat
  maxRequestsPerConn : Nat
  maxOutBytes : Nat
  deriving Repr, DecidableEq

/-- The limit fields of `zcio_http_server_config`; zero asks for the default. -/
structure ServerConfig where
  maxHeaderBytes : Nat := 0
  maxHeaders : Nat := 0
  maxBodyBytes : Nat := 0
  maxUrlBytes : Nat := 0
  maxStreams : Nat := 0
  maxRequestsPerConn : Nat := 0
  maxOutBytes : Nat := 0
  deriving Repr, DecidableEq

/-- `x ? x : dflt` of the source. -/
def orDefault (x dflt : Nat) : Nat := if x ≠ 0 then x else dflt

/-- `zhs_limits_resolve_`. -/
def zhsLimitsResolve (cfg : ServerConfig) : ZhsLimits where
  maxHeaderBytes := orDefault cfg.maxHeaderBytes (32 * 1024)
  maxHeaders := orDefault cfg.maxHeaders 128
  maxBodyBytes := orDefault cfg.maxBodyBytes (64 * 1024 * 1024)
  maxUrlBytes := orDefault cfg.maxUrlBytes 8192
  maxStreams := orDefault cfg.maxStreams 128
  maxRequestsPerConn := orDefault cfg.maxRequestsPerConn 1024
  maxOutBytes := orDefault cfg.maxOutBytes (4 * 1024 * 1024)

theorem orDefault_pos (x : Nat) {dflt : Nat} (h : 0 < dflt) : 0 < orDefault x dflt := by
  unfold orDefault
  split <;> omega

/-- Every resolved limit is positive, whatever the configuration says. -/
theorem zhsLimitsResolve_pos (cfg : ServerConfig) :
    0 < (zhsLimitsResolve cfg).maxHeaderBytes ∧ 0 < (zhsLimitsResolve cfg).maxHeaders ∧
    0 < (zhsLimitsResolve cfg).maxBodyBytes ∧ 0 < (zhsLimitsResolve cfg).maxUrlBytes ∧
    0 < (zhsLimitsResolve cfg).maxStreams ∧ 0 < (zhsLimitsResolve cfg).maxRequestsPerConn ∧
    0 < (zhsLimitsResolve cfg).maxOutBytes := by
  refine ⟨?_, ?_, ?_, ?_, ?_, ?_, ?_⟩ <;> exact orDefault_pos _ (by decide)

/-! ### `zhs_hdrs`

Fields in the order in which they came, with the octets they cost. -/

/-- `zhs_hdr`: a stored header, both parts NUL-terminated strings. -/
structure ZhsHdr where
  name : Bytes
  value : Bytes
  deriving Repr, DecidableEq

/-- `zhs_hdrs`: the stored headers in order (`n` is their number), the capacity of the
array that holds them and the octets accounted for. -/
structure ZhsHdrs where
  v : List ZhsHdr := []
  cap : Nat := 0
  bytes : Nat := 0
  deriving Repr, DecidableEq

namespace ZhsHdrs

/-- The field `n`. -/
def n (h : ZhsHdrs) : Nat := h.v.length

/-- The roof `bytes` stays under: twice the header budget, clamped to `size_t`. -/
def byteCap (lim : ZhsLimits) : Nat :=
  if lim.maxHeaderBytes > SIZE_MAX / 2 then SIZE_MAX else lim.maxHeaderBytes * 2

/-- The capacity after `zhs_hdrs_add_` made room for one more header. -/
def grow (lim : ZhsLimits) (h : ZhsHdrs) : Nat :=
  if h.n = h.cap then min (if h.cap ≠ 0 then h.cap * 2 else 8) lim.maxHeaders else h.cap

/-- `zhs_hdrs_add_`: copy in one header under the two caps; `lowerName` forces the stored
name to lower case. -/
def add (h : ZhsHdrs) (name value : Bytes) (lim : ZhsLimits) (lowerName : Bool) :
    Except Fail ZhsHdrs :=
  if h.n ≥ lim.maxHeaders then
    zcioFail .protocol "http: too many headers"
  else if name.length > lim.maxHeaderBytes ∨ value.length > lim.maxHeaderBytes ∨
      name.length + value.length + 32 > byteCap lim - h.bytes then
    zcioFail .protocol "http: header block too large"
  else
    .ok { v := h.v ++ [{ name := cstr (if lowerName then lower name else name)
                         value := cstr value }]
          cap := h.grow lim
          bytes := h.bytes + (name.length + value.length + 32) }

/-- `zhs_hdrs_get_`: the first header of that name. Stored names are lower case; only the
query is folded (`hdr_name_eq`). -/
def get (h : ZhsHdrs) (name : Bytes) : Option Bytes :=
  (h.v.find? fun x => x.name == lower name).map (·.value)

/-- `zhs_hdrs_count_`. -/
def count (h : ZhsHdrs) (name : Bytes) : Nat :=
  h.v.countP fun x => x.name == lower name

/-- Inverting a successful add: the caps held and exactly one header was appended. -/
theorem add_ok {h h' : ZhsHdrs} {name value : Bytes} {lim : ZhsLimits} {lo : Bool}
    (he : h.add name value lim lo = .ok h') :
    h.n < lim.maxHeaders ∧
      h'.v = h.v ++ [{ name := cstr (if lo then lower name else name), value := cstr value }] ∧
      h'.bytes = h.bytes + (name.length + value.length + 32) := by
  unfold add at he
  split at he
  · cases he
  · rename_i hn
    split at he
    · cases he
    · cases he
      exact ⟨by omega, rfl, rfl⟩

/-- An add within both caps succeeds. -/
theorem add_of_room {h : ZhsHdrs} {name value : Bytes} {lim : ZhsLimits} (lo : Bool)
    (hn : h.n < lim.maxHeaders) (hname : name.length ≤ lim.maxHeaderBytes)
    (hvalue : value.length ≤ lim.maxHeaderBytes)
    (hb : h.bytes + (name.length + value.length + 32) ≤ byteCap lim) :
    ∃ h', h.add name value lim lo = .ok h' := by
  unfold add
  rw [if_neg (by omega), if_neg (by omega)]
  exact ⟨_, rfl⟩

theorem get_eq_none_iff {h : ZhsHdrs} {name : Bytes} :
    h.get name = none ↔ h.count name = 0 := by
  simp [get, count]

end ZhsHdrs

end Zcio
