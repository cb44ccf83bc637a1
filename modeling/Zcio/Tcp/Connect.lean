import Mathlib.Data.List.Perm.Subperm
import Zcio.Net.Wait
import Zcio.Tcp.Clients

/-!
# Zcio.Tcp.Connect

Connecting in `tcp.c`: the addresses of a host are tried in their order, each with a socket of its own,
and a wait if the connect does not end at once.

* **`tcpDoConnect_first`**: the first address that can be reached is the one that is connected, no
  socket of another one is left, and the time is bounded by the number of addresses.

Sockets are numbered as POSIX has it, with the least number that is free, so that a number comes back
when its socket is closed. The resolver's answer and what the kernel makes of each address are inputs.
-/

namespace Zcio

def ZCIO_ERR_DNS : Int := -11

/-! ### Descriptors

The system gives out the lowest free descriptor. -/

/-- The least descriptor that is not open. -/
def lowestFree (fds : List Nat) : Nat := ((List.range (fds.length + 1)).find? fun fd => fd ∉ fds).getD 0

theorem lowestFree_not_mem (fds : List Nat) : lowestFree fds ∉ fds := by
  rw [lowestFree]
  cases hfree : (List.range (fds.length + 1)).find? fun fd => fd ∉ fds with
  | some fd => simpa using List.find?_some hfree
  | none =>
    -- there are more numbers than descriptors
    have hall : List.range (fds.length + 1) ⊆ fds := fun fd hfd => by
      simpa using List.find?_eq_none.mp hfree fd hfd
    have hle := (List.nodup_range.subperm hall).length_le
    rw [List.length_range] at hle
    omega

/-- A process: its open descriptors, whether a call was made on one that is not open, and the clock. -/
structure TcpProc where
  openFds : List Nat := []
  stray : Bool := false
  ns : Nat := 0
  deriving Repr, DecidableEq

/-- `socket` and `zcio_socket_nosigpipe`, when it succeeds. -/
def TcpProc.socket (p : TcpProc) : TcpProc := { p with openFds := lowestFree p.openFds :: p.openFds }

/-- A system call on a descriptor. -/
def TcpProc.touch (p : TcpProc) (fd : Nat) : TcpProc := { p with stray := p.stray || fd ∉ p.openFds }

/-- `zcio_closesocket`. -/
def TcpProc.closesocket (p : TcpProc) (fd : Nat) : TcpProc :=
  { p.touch fd with openFds := p.openFds.erase fd }

/-! ### The candidates

One address after the other, each with a socket of its own. -/

/-- What `connect` returns on a socket that does not block. -/
inductive ConnectRet where
  | connected
  | inProgress
  | failed
  deriving Repr, DecidableEq

/-- A `struct addrinfo`, by what comes of it: whether there is a socket for it, what `connect` and the
wait behind it return, and `SO_ERROR`. -/
structure ConnectCand where
  socketOk : Bool := true
  connect : ConnectRet
  calls : List KernelSelect := []
  soError : Int := 0

/-- How a candidate ended: connected, still in the wait, or with `last_err` and, if it was assigned,
`last_err_timeout`. -/
inductive Tried where
  | connected (fd : Nat)
  | waiting (fd : Nat)
  | failed (why : Bytes) (timedOut : Option Bool)
  deriving Repr, DecidableEq

/-- A round of the loop in `tcp_do_connect`. -/
def tryCandidate (cto : Int) (c : ConnectCand) (p : TcpProc) : Tried × TcpProc :=
  if !c.socketOk then (.failed (str "socket() failed") none, p)
  else
    let cand := lowestFree p.openFds
    -- `zcio_set_nonblocking` and `connect`
    let p := (p.socket.touch cand).touch cand
    match c.connect with
    | .connected => (.connected cand, p)
    | .failed => (.failed (str "connect failed immediately") (some false), p.closesocket cand)
    | .inProgress =>
      let w := tcpWait cto false true c.calls p.ns
      let p := { p.touch cand with ns := w.time }
      match w.result with
      | none => (.waiting cand, p)
      | some r =>
        if r.rc > 0 && r.writable then
          -- `getsockopt`
          let p := p.touch cand
          if c.soError = 0 then (.connected cand, p)
          else (.failed (str "connect failed") (some false), p.closesocket cand)
        else (.failed (if r.rc = 0 then str "timed out" else str "select failed") (some (r.rc = 0)),
          p.closesocket cand)

/-- The loop of `tcp_do_connect`, with `last_err` and `last_err_timeout`. -/
def tryCandidates (cto : Int) : List ConnectCand → Bytes → Bool → TcpProc → Tried × TcpProc
  | [], lastErr, lastErrTimeout, p => (.failed lastErr (some lastErrTimeout), p)
  | c :: cs, _, lastErrTimeout, p =>
    match tryCandidate cto c p with
    | (.failed why timedOut, p) => tryCandidates cto cs why (timedOut.getD lastErrTimeout) p
    | r => r

def TCP_DEFAULT_CONNECT_TIMEOUT_MS : Int := 15000

/-- `cto`. -/
def connectTimeout (connectTimeoutMs : Int) : Int :=
  if connectTimeoutMs > 0 then connectTimeoutMs else TCP_DEFAULT_CONNECT_TIMEOUT_MS

/-- `%d`. -/
def decimalInt (n : Int) : Bytes := if n < 0 then str "-" ++ decimal n.natAbs else decimal n.natAbs

/-- What `getaddrinfo` returns, with the text of `gai_strerror` for it. -/
structure GaiRet where
  rc : Int := 0
  strerror : Bytes := []
  result : List ConnectCand

/-- `tcp_do_connect`: the socket or the error, nothing while it waits. -/
def tcpDoConnect (host : Bytes) (port : Int) (connectTimeoutMs : Int) (gai : GaiRet) (p : TcpProc) :
    Option (Except HttpFail Nat) × TcpProc :=
  if gai.rc ≠ 0 ∨ gai.result = [] then
    (some (httpFail ZCIO_ERR_DNS (str "tcp: getaddrinfo(" ++ host ++ str ") failed: " ++ gai.strerror)), p)
  else
    match tryCandidates (connectTimeout connectTimeoutMs) gai.result (str "no address candidates") false p with
    | (.connected fd, p) => (some (.ok fd), p)
    | (.waiting _, p) => (none, p)
    | (.failed lastErr lastErrTimeout, p) =>
      (some (httpFail (if lastErrTimeout = some true then ZCIO_ERR_TIMEOUT else ZCIO_ERR_CONNECT)
        (str "tcp: connect to " ++ host ++ str ":" ++ decimalInt port ++ str " failed (" ++ lastErr ++ str ")")), p)

/-! ### One candidate

A candidate that fails leaves no socket behind. -/

variable {cto : Int} {c : ConnectCand} {p : TcpProc}

theorem closesocket_socket (p : TcpProc) (ns : Nat) :
    ({ p.socket with ns := ns } : TcpProc).closesocket (lowestFree p.openFds) = { p with ns := ns } := by
  rw [TcpProc.closesocket, TcpProc.touch, TcpProc.socket]
  simp

/-- What a candidate leaves: its socket if it is connected or waits, and else nothing but the time. -/
def Tried.Leaves (p : TcpProc) : Tried → TcpProc → Prop
  | .connected fd, p' => fd = lowestFree p.openFds ∧ p' = { p.socket with ns := p'.ns }
  | .waiting fd, p' => fd = lowestFree p.openFds ∧ p' = { p.socket with ns := p'.ns }
  | .failed _ _, p' => p' = { p with ns := p'.ns }

/-- A call on the socket that was opened last. -/
theorem touch_socket (p : TcpProc) (ns : Nat) :
    ({ p.socket with ns := ns } : TcpProc).touch (lowestFree p.openFds) = { p.socket with ns := ns } := by
  rw [TcpProc.touch, TcpProc.socket]
  simp

/-- **A candidate that fails leaves no socket.** -/
theorem tryCandidate_leaves (cto : Int) (c : ConnectCand) (p : TcpProc) :
    (tryCandidate cto c p).1.Leaves p (tryCandidate cto c p).2 := by
  have hclosed := closesocket_socket p
  have htouched := touch_socket p
  have hopened : p.socket.touch (lowestFree p.openFds) = p.socket := htouched p.ns
  rw [tryCandidate]
  split
  · rfl
  · simp only [hopened, htouched]
    cases c.connect with
    | connected => exact ⟨rfl, rfl⟩
    | failed => exact hclosed p.ns
    | inProgress =>
      dsimp only
      generalize tcpWait cto false true c.calls p.socket.ns = w
      cases w.result with
      | none => exact ⟨rfl, rfl⟩
      | some r =>
        have hleft : ∀ why timedOut, (Tried.failed why timedOut).Leaves p
            (({ p.socket with ns := w.time } : TcpProc).closesocket (lowestFree p.openFds)) := fun _ _ => by
          rw [hclosed]
          rfl
        dsimp only
        split
        · split
          · exact ⟨rfl, rfl⟩
          · exact hleft _ _
        · exact hleft _ _

/-- The waits of a candidate keep their timeout, up to `slack`. -/
def ConnectCand.Punctual (slack : Nat) (c : ConnectCand) : Prop :=
  c.connect = .inProgress → c.calls ≠ [] ∧ ∀ call ∈ c.calls, call.Punctual slack

theorem tryCandidate_time {slack : Nat} (hcto : 0 ≤ cto) (hc : c.Punctual slack) (p : TcpProc) :
    (tryCandidate cto c p).2.ns ≤ p.ns + ((cto.toNat + 1) * NS_PER_MS + slack) := by
  have hnow : p.ns ≤ p.ns + ((cto.toNat + 1) * NS_PER_MS + slack) := Nat.le_add_right _ _
  rw [tryCandidate]
  split
  · exact hnow
  · dsimp only
    cases hconnect : c.connect with
    | connected => exact hnow
    | failed => exact hnow
    | inProgress =>
      obtain ⟨hne, hcalls⟩ := hc hconnect
      have htime := (@tcpWait_time cto p.socket.ns slack false true c.calls hcto hne hcalls).inTime
      have hle : (tcpWait cto false true c.calls p.socket.ns).time ≤ p.ns + ((cto.toNat + 1) * NS_PER_MS + slack) := by
        rw [← Nat.add_assoc]
        exact htime.le
      dsimp only
      split
      · exact hle
      · split
        · split
          · exact hle
          · exact hle
        · exact hle

/-! ### All candidates

The first that does not fail decides. -/

/-- Candidates that fail one after the other, from `p` to `p'`. -/
inductive Skipped (cto : Int) : TcpProc → List ConnectCand → TcpProc → Prop
  | nil (p : TcpProc) : Skipped cto p [] p
  | cons {p p' : TcpProc} {c : ConnectCand} {cs : List ConnectCand} {why : Bytes} {timedOut : Option Bool}
      (failed : (tryCandidate cto c p).1 = .failed why timedOut) (rest : Skipped cto (tryCandidate cto c p).2 cs p') :
      Skipped cto p (c :: cs) p'

theorem Skipped.leaves {cs : List ConnectCand} {p' : TcpProc} (h : Skipped cto p cs p') :
    p'.openFds = p.openFds ∧ p'.stray = p.stray := by
  induction h with
  | nil p => exact ⟨rfl, rfl⟩
  | @cons p p' c cs why timedOut failed _ ih =>
    have hleaves := tryCandidate_leaves cto c p
    rw [failed] at hleaves
    obtain ⟨hfds, hstray⟩ := ih
    rw [hfds, hstray, hleaves]
    exact ⟨rfl, rfl⟩

/-- The wait for a candidate timed out, in the state that those in front of it left. -/
def OneTimesOut (cto : Int) (p : TcpProc) (cs : List ConnectCand) : Prop :=
  ∃ pre c post p₁ why, cs = pre ++ c :: post ∧ Skipped cto p pre p₁ ∧ (tryCandidate cto c p₁).1 = .failed why (some true)

theorem OneTimesOut.cons {cs : List ConnectCand} {why : Bytes} {timedOut : Option Bool}
    (failed : (tryCandidate cto c p).1 = .failed why timedOut) (h : OneTimesOut cto (tryCandidate cto c p).2 cs) :
    OneTimesOut cto p (c :: cs) := by
  obtain ⟨pre, c', post, p₁, why', rfl, hskipped, hlate⟩ := h
  exact ⟨c :: pre, c', post, p₁, why', rfl, .cons failed hskipped, hlate⟩

/-- **How the loop ends**: with the first candidate that does not fail, or behind them all. -/
theorem tryCandidates_ends (cto : Int) (cs : List ConnectCand) (lastErr : Bytes) (lastErrTimeout : Bool) (p : TcpProc) :
    let r := tryCandidates cto cs lastErr lastErrTimeout p
    (∃ pre c post p₁, cs = pre ++ c :: post ∧ Skipped cto p pre p₁ ∧ tryCandidate cto c p₁ = r ∧
      ∀ why timedOut, r.1 ≠ .failed why timedOut) ∨
    ∃ why timedOut, r.1 = .failed why (some timedOut) ∧ Skipped cto p cs r.2 ∧
      (timedOut = true → lastErrTimeout = true ∨ OneTimesOut cto p cs) := by
  -- one candidate a round, each from the state the failed ones left
  induction cs generalizing lastErr lastErrTimeout p with
  | nil => exact .inr ⟨lastErr, lastErrTimeout, rfl, .nil p, .inl⟩
  | cons c cs ih =>
    rw [tryCandidates]
    cases htried : (tryCandidate cto c p).1 with
    -- it is connected, or its wait has no end: the rest is not tried
    | connected fd =>
      have hpair : tryCandidate cto c p = (.connected fd, (tryCandidate cto c p).2) := Prod.ext htried rfl
      rw [hpair]
      exact .inl ⟨[], c, cs, p, rfl, .nil p, hpair, fun _ _ h => by cases h⟩
    | waiting fd =>
      have hpair : tryCandidate cto c p = (.waiting fd, (tryCandidate cto c p).2) := Prod.ext htried rfl
      rw [hpair]
      exact .inl ⟨[], c, cs, p, rfl, .nil p, hpair, fun _ _ h => by cases h⟩
    -- it failed, and the rest decides
    | failed why timedOut =>
      have hpair : tryCandidate cto c p = (.failed why timedOut, (tryCandidate cto c p).2) := Prod.ext htried rfl
      rw [hpair]
      dsimp only
      rcases ih why (timedOut.getD lastErrTimeout) (tryCandidate cto c p).2 with
        ⟨pre, c', post, p₁, hsplit, hskipped, hat, hopen⟩ | ⟨why', timedOut', hfailed, hskipped, hlate⟩
      · exact .inl ⟨c :: pre, c', post, p₁, by rw [hsplit]; rfl, .cons htried hskipped, hat, hopen⟩
      · refine .inr ⟨why', timedOut', hfailed, .cons htried hskipped, fun htrue => ?_⟩
        rcases hlate htrue with hlast | hlate
        · -- an error that sets no flag leaves the flag of the candidate before
          cases timedOut with
          | none => exact .inl hlast
          | some b =>
            obtain rfl : b = true := hlast
            exact .inr ⟨[], c, cs, p, why, rfl, .nil p, htried⟩
        · exact .inr (hlate.cons htried)

theorem tryCandidates_time {slack : Nat} (hcto : 0 ≤ cto) {cs : List ConnectCand} (hcs : ∀ c ∈ cs, c.Punctual slack)
    (lastErr : Bytes) (lastErrTimeout : Bool) (p : TcpProc) :
    (tryCandidates cto cs lastErr lastErrTimeout p).2.ns ≤ p.ns + cs.length * ((cto.toNat + 1) * NS_PER_MS + slack) := by
  induction cs generalizing lastErr lastErrTimeout p with
  | nil => exact Nat.le_add_right _ _
  | cons c cs ih =>
    obtain ⟨hc, hcs⟩ := List.forall_mem_cons.mp hcs
    have hone := tryCandidate_time hcto hc p
    rw [tryCandidates, List.length_cons, Nat.add_mul, Nat.one_mul]
    split
    · rename_i why timedOut p₁ heq
      rw [heq] at hone
      have hrest := ih hcs why (timedOut.getD lastErrTimeout) p₁
      dsimp only at hone
      omega
    · omega

theorem connectTimeout_pos (connectTimeoutMs : Int) : 0 < connectTimeout connectTimeoutMs := by
  rw [connectTimeout]
  split
  · assumption
  · decide

theorem tryCandidates_leaves (cto : Int) (cs : List ConnectCand) (lastErr : Bytes) (lastErrTimeout : Bool) (p : TcpProc) :
    (tryCandidates cto cs lastErr lastErrTimeout p).1.Leaves p (tryCandidates cto cs lastErr lastErrTimeout p).2 := by
  induction cs generalizing lastErr lastErrTimeout p with
  | nil => rfl
  | cons c cs ih =>
    have hleaves := tryCandidate_leaves cto c p
    rw [tryCandidates]
    generalize tryCandidate cto c p = out at hleaves
    obtain ⟨tried, p₁⟩ := out
    cases tried with
    | connected fd => exact hleaves
    | waiting fd => exact hleaves
    | failed why timedOut =>
      -- the next candidate finds the descriptors as they were
      have hp₁ : p₁ = { p with ns := p₁.ns } := hleaves
      have hrest := ih why (timedOut.getD lastErrTimeout) p₁
      rw [hp₁] at hrest ⊢
      exact hrest

/-- What `tcp_do_connect` leaves: the socket that it returns, or none. -/
theorem tcpDoConnect_leaves (host : Bytes) (port connectTimeoutMs : Int) (gai : GaiRet) (p : TcpProc) :
    match tcpDoConnect host port connectTimeoutMs gai p with
    | (none, _) => True
    | (some (.error _), p') => p' = { p with ns := p'.ns }
    | (some (.ok fd), p') => fd = lowestFree p.openFds ∧ p' = { p.socket with ns := p'.ns } := by
  rw [tcpDoConnect]
  by_cases hgai : gai.rc ≠ 0 ∨ gai.result = []
  · rw [if_pos hgai]
    rfl
  · rw [if_neg hgai]
    have hleaves := tryCandidates_leaves (connectTimeout connectTimeoutMs) gai.result (str "no address candidates") false p
    generalize tryCandidates _ _ _ _ p = out at hleaves
    obtain ⟨tried, p'⟩ := out
    cases tried with
    | connected fd => exact hleaves
    | waiting fd => trivial
    | failed why timedOut => exact hleaves

/-- **The first address that can be reached.** `tcp_do_connect` is back with the socket of the first
candidate that does not fail, which is the only one that is left open, or with no socket left; a
timeout is reported only if a wait timed out. Each candidate takes the timeout at most, and no call was
made on a closed socket. -/
theorem tcpDoConnect_first (host : Bytes) (port : Int) (connectTimeoutMs : Int) {gai : GaiRet} {slack : Nat}
    (hgai : ∀ c ∈ gai.result, c.Punctual slack) (p : TcpProc) :
    let cto := connectTimeout connectTimeoutMs
    let r := tcpDoConnect host port connectTimeoutMs gai p
    r.2.stray = p.stray ∧ r.2.ns ≤ p.ns + gai.result.length * ((cto.toNat + 1) * NS_PER_MS + slack) ∧
      match r.1 with
      | some (.error e) => r.2.openFds = p.openFds ∧
        (Skipped cto p gai.result r.2 ∨ e.code = ZCIO_ERR_DNS ∧ r.2 = p) ∧
        (e.code = ZCIO_ERR_TIMEOUT → OneTimesOut cto p gai.result)
      | some (.ok fd) => fd ∉ p.openFds ∧ r.2.openFds = fd :: p.openFds ∧
        ∃ pre c post p₁, gai.result = pre ++ c :: post ∧ Skipped cto p pre p₁ ∧ tryCandidate cto c p₁ = (.connected fd, r.2)
      | none => ∃ pre c post p₁ fd, gai.result = pre ++ c :: post ∧ Skipped cto p pre p₁ ∧
        tryCandidate cto c p₁ = (.waiting fd, r.2) := by
  intro cto r
  have hr : r = tcpDoConnect host port connectTimeoutMs gai p := rfl
  rw [tcpDoConnect] at hr
  -- no addresses, and no socket was made
  split at hr
  · rw [hr]
    refine ⟨rfl, Nat.le_add_right _ _, rfl, .inr ⟨rfl, rfl⟩, fun h => ?_⟩
    cases h
  · have htime := tryCandidates_time (connectTimeout_pos connectTimeoutMs).le hgai (str "no address candidates") false p
    have hends := tryCandidates_ends cto gai.result (str "no address candidates") false p
    change r = match tryCandidates cto gai.result (str "no address candidates") false p with
      | (.connected fd, p) => (some (.ok fd), p)
      | (.waiting _, p) => (none, p)
      | (.failed lastErr lastErrTimeout, p) =>
        (some (httpFail (if lastErrTimeout = some true then ZCIO_ERR_TIMEOUT else ZCIO_ERR_CONNECT)
          (str "tcp: connect to " ++ host ++ str ":" ++ decimalInt port ++ str " failed (" ++ lastErr ++ str ")")), p) at hr
    generalize tryCandidates cto gai.result (str "no address candidates") false p = out at hr htime hends
    obtain ⟨tried, p'⟩ := out
    -- a candidate that did not fail ends the loop, open or waiting
    rcases hends with ⟨pre, c, post, p₁, hsplit, hskipped, hat, hopen⟩ | ⟨why, timedOut, hfailed, hskipped, hlate⟩
    · have hleaves := tryCandidate_leaves cto c p₁
      obtain ⟨hfds, hstray⟩ := hskipped.leaves
      rw [hat] at hleaves
      -- connected: the descriptor is the only one that is left
      cases tried with
      | connected fd =>
        obtain ⟨hfd, hp'⟩ := hleaves
        rw [hr]
        refine ⟨by rw [hp']; exact hstray, htime, ?_, ?_, pre, c, post, p₁, hsplit, hskipped, hat⟩
        · rw [hfd, hfds]
          exact lowestFree_not_mem p.openFds
        · rw [hfd, ← hfds]
          exact congrArg TcpProc.openFds hp'
      -- the wait never ends; the candidates before have failed
      | waiting fd =>
        rw [hr]
        exact ⟨by rw [hleaves.2]; exact hstray, htime, pre, c, post, p₁, fd, hsplit, hskipped, hat⟩
      | failed why timedOut => exact absurd rfl (hopen why timedOut)
    · -- all have failed, and the code is that of the last one with a code
      obtain ⟨hfds, hstray⟩ := hskipped.leaves
      dsimp only at hfailed hskipped hfds hstray
      subst hfailed
      rw [hr]
      refine ⟨hstray, htime, hfds, .inl hskipped, fun hcode => ?_⟩
      refine (hlate ?_).resolve_left Bool.false_ne_true
      by_contra hno
      rw [if_neg fun h => hno (Option.some.inj h)] at hcode
      cases hcode

/-- Three addresses: one that refuses, one whose wait takes 15 seconds, and one that is there. -/
def sampleGai : GaiRet where
  result := [{ connect := .failed }, { connect := .inProgress, calls := [fun tv => (some ⟨0, false, false⟩, (tv.map Timeval.ns).getD 0)] },
    { connect := .connected }]

theorem tcpDoConnect_first_third : (tcpDoConnect (str "host") 80 0 sampleGai {}).2.openFds = [0] ∧
    (tcpDoConnect (str "host") 80 0 sampleGai {}).2.ns ≤ 3 * (((connectTimeout 0).toNat + 1) * NS_PER_MS) := by
  have hgai : ∀ c ∈ sampleGai.result, c.Punctual 0 := by
    intro c hc hprogress
    simp only [sampleGai, List.mem_cons, List.not_mem_nil, or_false] at hc
    rcases hc with rfl | rfl | rfl
    · cases hprogress
    · refine ⟨List.cons_ne_nil _ _, fun call hcall => ?_⟩
      rw [List.mem_singleton.mp hcall]
      exact ⟨fun tv => by simp, fun tv r _ _ => by simp⟩
    · cases hprogress
  obtain ⟨-, htime, hout⟩ := tcpDoConnect_first (str "host") 80 0 hgai {}
  have hns : ({} : TcpProc).ns = 0 := rfl
  have hlen : sampleGai.result.length = 3 := rfl
  rw [hns, hlen, Nat.zero_add, Nat.add_zero] at htime
  refine ⟨?_, htime⟩
  have hfirst : (tcpDoConnect (str "host") 80 0 sampleGai {}).1 = some (.ok 0) := by decide +kernel
  rw [hfirst] at hout
  exact hout.2.1

end Zcio
