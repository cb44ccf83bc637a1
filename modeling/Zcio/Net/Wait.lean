import Zcio.Lib.Retry
import Zcio.Bytes

/-!
# Zcio.Net.Wait

The waits of `socket_init.c`, and `tcp_wait` of `tcp.c` over them. A `select` or a `poll` that a signal
interrupts is made again with the time that is left. The clock counts nanoseconds, of which the code
sees the milliseconds.

What the kernel does in a wait is a list of calls, one for each `select` or `poll`: a wait that needs
more of them than there are has not returned. The Winsock branches are left out.
-/

namespace Zcio

open Lib

def ZCIO_ERR_WOULDBLOCK : Int := -10

/-! ### The clock

The clock counts nanoseconds, and the code reads it in milliseconds. -/

def NS_PER_MS : Nat := 1000000

/-- `zcio_now_ms_`, when `CLOCK_MONOTONIC` stands at `ns`. -/
def zcioNowMsAt (ns : Nat) : Nat :=
  let tvSec := ns / 1000000000
  let tvNsec := ns % 1000000000
  tvSec * 1000 + tvNsec / 1000000

theorem zcioNowMsAt_eq (ns : Nat) : zcioNowMsAt ns = ns / NS_PER_MS := by
  rw [zcioNowMsAt, NS_PER_MS]
  omega

/-- A `struct timeval`. -/
structure Timeval where
  tvSec : Nat
  tvUsec : Nat
  deriving Repr, DecidableEq

/-- The nanoseconds of a `struct timeval`. -/
def Timeval.ns (tv : Timeval) : Nat := tv.tvSec * 1000000000 + tv.tvUsec * 1000

/-- The `tv` that `zcio_select_eintr` makes of the milliseconds that are left. -/
def Timeval.ofMs (ms : Nat) : Timeval := ⟨ms / 1000, ms % 1000 * 1000⟩

theorem Timeval.ofMs_ns (ms : Nat) : (Timeval.ofMs ms).ns = ms * NS_PER_MS := by
  rw [Timeval.ns, Timeval.ofMs, NS_PER_MS]
  dsimp only
  omega

/-! ### `zcio_poll_` and `zcio_select_eintr`

A wait that is interrupted is taken up again with the time that is left. -/

/-- `deadline`, in milliseconds; a negative timeout has none. -/
def waitDeadline (timeoutMs : Int) (ns : Nat) : Option Nat :=
  if timeoutMs ≥ 0 then some (zcioNowMsAt ns + timeoutMs.toNat) else none

section Poll

variable {φ : Type}

/-- `zcio_poll_` over the array `fds`: what it returns, and the array as `poll` left it. -/
def zcioPoll (fds : φ) (timeoutMs : Int) (calls : List (Interruptible (Int × φ))) (ns : Nat) : Waited (Int × φ) :=
  retry NS_PER_MS (waitDeadline timeoutMs ns) (0, fds) calls ns

end Poll

/-- What `select` returns, and whether the descriptor is in the two sets behind it. -/
structure SelectRet where
  rc : Int
  rfds : Bool
  wfds : Bool
  deriving Repr, DecidableEq

/-- A `select`, for its timeout: `none` for `EINTR`, and how long it took. -/
abbrev KernelSelect := Option Timeval → Option SelectRet × Nat

/-- `rc`, `*out_read` and `*out_write` of `zcio_select_eintr`. -/
structure Selected where
  rc : Int
  outRead : Bool
  outWrite : Bool
  deriving Repr, DecidableEq

/-- `zcio_select_eintr`. A `select` that was interrupted leaves its sets alone. -/
def zcioSelectEintr (wantRead wantWrite : Bool) (timeoutMs : Int) (calls : List KernelSelect) (ns : Nat) :
    Waited Selected :=
  let w := retry NS_PER_MS (waitDeadline timeoutMs ns) ⟨0, wantRead, wantWrite⟩
    (calls.map fun call ms => call (ms.map Timeval.ofMs)) ns
  ⟨w.result.map fun r => ⟨r.rc, wantRead && r.rfds, wantWrite && r.wfds⟩, w.time⟩

/-- `sock_wait`. -/
structure SockWait where
  readable : Bool := false
  writable : Bool := false
  excepted : Bool := false
  rc : Int
  deriving Repr, DecidableEq

/-- `tcp_wait`. -/
def tcpWait (timeoutMs : Int) (wantRead wantWrite : Bool) (calls : List KernelSelect) (ns : Nat) : Waited SockWait :=
  let w := zcioSelectEintr wantRead wantWrite timeoutMs calls ns
  ⟨w.result.map fun r =>
    if r.rc > 0 then { rc := r.rc, readable := r.outRead, writable := r.outWrite } else { rc := r.rc }, w.time⟩

/-! ### Deadlines

The time left is computed from the deadline, so that the errors of rounding do not add up.
-/

/-- A `select` that keeps its timeout, up to `slack`. -/
structure KernelSelect.Punctual (slack : Nat) (call : KernelSelect) : Prop where
  back : ∀ tv, (call (some tv)).2 ≤ tv.ns + slack
  full : ∀ tv r, (call (some tv)).1 = some r → r.rc = 0 → tv.ns ≤ (call (some tv)).2

/-- It keeps the milliseconds it is given as a `struct timeval`. -/
theorem KernelSelect.Punctual.ofMs {slack : Nat} {call : KernelSelect} (h : call.Punctual slack) :
    Lib.Punctual NS_PER_MS slack (fun r => r.rc = 0) fun ms => call (ms.map Timeval.ofMs) where
  back n := by
    rw [← Timeval.ofMs_ns]
    exact h.back _
  full n r hr hrc := by
    rw [← Timeval.ofMs_ns]
    exact h.full _ r hr hrc

section Deadline

variable {timeoutMs : Int} {ns slack : Nat}

theorem waitDeadline_of_nonneg (h : 0 ≤ timeoutMs) :
    waitDeadline timeoutMs ns = some (ns / NS_PER_MS + timeoutMs.toNat) := by
  rw [waitDeadline, if_pos h, zcioNowMsAt_eq]

/-- The deadline in nanoseconds, which is up to a millisecond early. -/
theorem deadline_ns (ns t : Nat) :
    (ns / NS_PER_MS + t) * NS_PER_MS ≤ ns + t * NS_PER_MS ∧ ns + t * NS_PER_MS < (ns / NS_PER_MS + t + 1) * NS_PER_MS := by
  have hsplit := Nat.div_add_mod ns NS_PER_MS
  have hmod := Nat.mod_lt ns (show 0 < NS_PER_MS by decide)
  rw [Nat.add_mul, Nat.add_mul, Nat.add_mul, Nat.one_mul, Nat.mul_comm (ns / NS_PER_MS)]
  omega

/-- A wait of `timeoutMs` from `ns` on that ended at `time`: at most a millisecond late, on top of how
late the kernel is, and when it gave up, less than a millisecond early. Until its time is up it may
go on. -/
structure KeepsTime (timeoutMs : Int) (ns slack : Nat) (gaveUp returned : Prop) (time : Nat) : Prop where
  inTime : time < ns + (timeoutMs.toNat + 1) * NS_PER_MS + slack
  notEarly : gaveUp → ns + timeoutMs.toNat * NS_PER_MS < time + NS_PER_MS
  stillOpen : ¬ returned → time < ns + timeoutMs.toNat * NS_PER_MS

/-- **A stream of signals moves no deadline.** -/
theorem retry_keepsTime {ρ : Type} {gaveUp : ρ → Prop} {calls : List (Interruptible ρ)} (late : ρ) (h : 0 ≤ timeoutMs)
    (hne : calls ≠ []) (hcalls : ∀ c ∈ calls, Lib.Punctual NS_PER_MS slack gaveUp c) :
    let w := retry NS_PER_MS (waitDeadline timeoutMs ns) late calls ns
    KeepsTime timeoutMs ns slack (∃ r, w.result = some r ∧ gaveUp r) (w.result.isSome = true) w.time := by
  have hpos : 0 < NS_PER_MS := by decide
  have hstart : ns / NS_PER_MS ≤ ns / NS_PER_MS + timeoutMs.toNat := Nat.le_add_right _ _
  obtain ⟨hearly, hlate⟩ := deadline_ns ns timeoutMs.toNat
  rw [waitDeadline_of_nonneg h]
  refine ⟨?_, fun ⟨r, hr, hgave⟩ => ?_, fun hopen => ?_⟩
  · have hbefore := @retry_before _ NS_PER_MS slack gaveUp late _ _ _ hpos hcalls hstart
    rw [Nat.add_mul] at hbefore ⊢
    omega
  · have := retry_notEarly hpos hcalls hstart hr hgave
    rw [Nat.add_mul, Nat.one_mul] at hlate
    omega
  · have hleft := retry_open hne (Option.not_isSome_iff_eq_none.mp hopen)
    exact (Nat.div_lt_iff_lt_mul hpos).mp hleft |>.trans_le hearly

theorem tcpWait_time (wantRead wantWrite : Bool) {calls : List KernelSelect} (h : 0 ≤ timeoutMs)
    (hne : calls ≠ []) (hcalls : ∀ c ∈ calls, c.Punctual slack) :
    let w := tcpWait timeoutMs wantRead wantWrite calls ns
    KeepsTime timeoutMs ns slack (∃ r, w.result = some r ∧ r.rc = 0) (w.result.isSome = true) w.time := by
  have hkept : ∀ c ∈ calls.map fun (call : KernelSelect) ms => call (ms.map Timeval.ofMs),
      Lib.Punctual NS_PER_MS slack (fun r => r.rc = 0) c := by
    intro c hc
    obtain ⟨call, hcall, rfl⟩ := List.mem_map.mp hc
    exact (hcalls call hcall).ofMs
  have htime := @retry_keepsTime timeoutMs ns _ _ _ _ ⟨0, wantRead, wantWrite⟩ h (List.map_eq_nil_iff.not.mpr hne) hkept
  rw [tcpWait, zcioSelectEintr]
  dsimp only at htime ⊢
  rw [Option.map_map]
  refine ⟨htime.inTime, fun ⟨r, hr, hrc⟩ => ?_, fun hopen => htime.stillOpen ?_⟩
  · obtain ⟨ret, hret, rfl⟩ := Option.map_eq_some_iff.mp hr
    refine htime.notEarly ⟨ret, hret, ?_⟩
    dsimp only [Function.comp] at hrc
    split at hrc <;> exact hrc
  · rwa [Option.isSome_map] at hopen

/-- What is reported to be ready was asked for, and a `select` said so. -/
theorem tcpWait_ready (wantRead wantWrite : Bool) (calls : List KernelSelect) {r : SockWait}
    (hr : (tcpWait timeoutMs wantRead wantWrite calls ns).result = some r) (hready : r.readable = true ∨ r.writable = true) :
    ∃ call ∈ calls, ∃ tv ret, (call tv).1 = some ret ∧ 0 < ret.rc ∧ r.rc = ret.rc ∧
      r.readable = (wantRead && ret.rfds) ∧ r.writable = (wantWrite && ret.wfds) := by
  have hfrom := fun r => @retry_result _ NS_PER_MS ⟨0, wantRead, wantWrite⟩
    (calls.map fun (call : KernelSelect) ms => call (ms.map Timeval.ofMs)) (waitDeadline timeoutMs ns) ns r
  rw [tcpWait, zcioSelectEintr] at hr
  dsimp only at hr
  rw [Option.map_map] at hr
  obtain ⟨ret, hret, rfl⟩ := Option.map_eq_some_iff.mp hr
  dsimp only [Function.comp] at hready ⊢
  by_cases hrc : ret.rc > 0
  · rw [if_pos hrc]
    rcases hfrom ret hret with rfl | ⟨c, hc, n, hn⟩
    · exact absurd hrc (Int.lt_irrefl 0)
    · obtain ⟨call, hcall, rfl⟩ := List.mem_map.mp hc
      exact ⟨call, hcall, _, ret, hn, hrc, rfl, rfl, rfl⟩
  · rw [if_neg hrc] at hready
    rcases hready with hr | hr <;> cases hr

/-- **`tcp_wait` keeps its timeout.** However often it is interrupted: it is back in time, and does not
report a timeout before. With a timeout or without one, what it reports to be ready was asked for, and a
`select` said so. -/
theorem tcpWait_keepsTime (timeoutMs : Int) (ns : Nat) (wantRead wantWrite : Bool) (calls : List KernelSelect) :
    let w := tcpWait timeoutMs wantRead wantWrite calls ns
    (∀ slack, 0 ≤ timeoutMs → calls ≠ [] → (∀ c ∈ calls, c.Punctual slack) →
      KeepsTime timeoutMs ns slack (∃ r, w.result = some r ∧ r.rc = 0) (w.result.isSome = true) w.time) ∧
    ∀ r, w.result = some r → (r.readable = true ∨ r.writable = true) →
      ∃ call ∈ calls, ∃ tv ret, (call tv).1 = some ret ∧ 0 < ret.rc ∧ r.rc = ret.rc ∧
        r.readable = (wantRead && ret.rfds) ∧ r.writable = (wantWrite && ret.wfds) :=
  ⟨fun _ h hne hcalls => tcpWait_time wantRead wantWrite h hne hcalls, fun _ => tcpWait_ready wantRead wantWrite calls⟩

/-- A `select` that a signal interrupts after 3 milliseconds. -/
def signalledSelect : KernelSelect := fun tv => (none, min 3000000 ((tv.map Timeval.ns).getD 0))

/-- A wait of 5 milliseconds, and two signals. -/
theorem tcpWait_keepsTime_signals : (tcpWait 5 true false [signalledSelect, signalledSelect] 0).time < 6000000 := by
  have hcalls : ∀ c ∈ [signalledSelect, signalledSelect], c.Punctual 0 := by
    intro c hc
    obtain rfl : c = signalledSelect := by simpa using hc
    exact ⟨fun tv => by simp [signalledSelect], fun tv r hr => by cases hr⟩
  exact ((tcpWait_keepsTime 5 0 true false _).1 0 (by decide) (List.cons_ne_nil _ _) hcalls).inTime

end Deadline

end Zcio
