import Zcio.Stream
import Zcio.Http.Text

/-!
# Zcio.Http.Io

The world of the HTTP client of `http.c`: the connections it makes, the clock and the errors.

The transport is a script: what each further connect gives, and what each read and write of a
connection will bring. `dials` and `sent` record the connects that were tried and the requests
that were put on a connection.
-/

namespace Zcio

/-! ### Errors -/

/-- A failed call: the negative result and the text for `zcio_last_error`. -/
structure HttpFail where
  code : Int
  msg : Bytes
  deriving Repr, DecidableEq

def ZCIO_ERR : Int := -1
def ZCIO_ERR_INVALID_ARG : Int := -2
def ZCIO_ERR_CONNECT : Int := -3
def ZCIO_ERR_TIMEOUT : Int := -4
def ZCIO_ERR_EOF : Int := -5
def ZCIO_ERR_TLS : Int := -6
def ZCIO_ERR_PROTOCOL : Int := -12

/-- `zcio_fail_`: the text is cut to the size of its buffer. -/
def httpFail {α : Type} (code : Int) (msg : Bytes) : Except HttpFail α :=
  .error ⟨code, msg.take 511⟩

/-! ### Connections

A connection reads and writes as the script of its transport says. -/

/-- What a connection will bring. -/
structure HttpPeer where
  /-- What each further read gives; nothing is the end of the stream. -/
  reads : List (Except Int Bytes) := []
  /-- What each further write takes, at most. -/
  writes : List (Except Int Nat) := []
  /-- Whether `zcio_tcp_client_stream` gives a stream. -/
  hasStream : Bool := true

/-- A `zcio_tcp_client`; `number` counts the connects. -/
structure HttpConn extends HttpPeer where
  number : Nat
  tls : Bool
  timeoutMs : Int := 0

/-- `zcio_read` on a connection; a read after the script is at the end of the stream. -/
def httpRead (c : HttpConn) (n : Nat) : Except Int Bytes × HttpConn :=
  match c.reads with
  | [] => (.ok [], c)
  | .error e :: reads => (.error e, { c with reads })
  | .ok b :: reads =>
    if b.length ≤ n then (.ok b, { c with reads })
    else (.ok (b.take n), { c with reads := .ok (b.drop n) :: reads })

/-- `zcio_write` on a connection; a write after the script is taken whole. -/
def httpWrite (c : HttpConn) (src : Bytes) : Except Int Nat × HttpConn :=
  match c.writes with
  | [] => (.ok src.length, c)
  | .ok k :: writes => (.ok (min k src.length), { c with writes })
  | .error e :: writes => (.error e, { c with writes })

/-- Whether a script of writes takes `n` octets. -/
def writesTake : List (Except Int Nat) → Nat → Bool
  | _, 0 => true
  | [], _ + 1 => true
  | .error _ :: _, _ + 1 => false
  | .ok 0 :: _, _ + 1 => false
  | .ok (k + 1) :: writes, n + 1 => writesTake writes (n - k)

/-- The connection has a stream and takes `n` octets. -/
def HttpPeer.takes (p : HttpPeer) (n : Nat) : Bool := p.hasStream && writesTake p.writes n

/-- `zcio_write_full` puts all of it on a connection exactly if its script of writes takes it. -/
theorem writeFrom_takes (fuel : Nat) : ∀ (conn : HttpConn) (src : Bytes) (put : Nat), src.length ≤ fuel →
    ((writeFrom httpWrite fuel conn src put).1.toOption = some (put + src.length) ↔
      writesTake conn.writes src.length = true) := by
  induction fuel with
  | zero =>
    intro conn src put hfuel
    obtain rfl := List.eq_nil_of_length_eq_zero (Nat.le_zero.mp hfuel)
    exact iff_of_true rfl (by rw [List.length_nil, writesTake])
  | succ fuel ih =>
    intro conn src put hfuel
    cases src with
    | nil => exact iff_of_true rfl (by rw [List.length_nil, writesTake])
    | cons c src =>
      rw [writeFrom, if_neg (List.cons_ne_nil c src), List.length_cons, httpWrite]
      rw [List.length_cons] at hfuel
      cases hwrites : conn.writes with
      | nil =>
        -- behind the script everything is taken
        refine iff_of_true ?_ (by rw [writesTake])
        refine ((ih conn ((c :: src).drop (src.length + 1)) (put + (src.length + 1)) (by simp)).mpr ?_).trans ?_
        · rw [List.drop_eq_nil_of_le (by simp), List.length_nil, writesTake]
        · rw [List.drop_eq_nil_of_le (by simp), List.length_nil, Nat.add_zero]
      | cons w writes =>
        cases w with
        | error e =>
          rw [writesTake]
          by_cases hput : put = 0
          · simp [hput, Except.toOption]
          · simp [hput, Except.toOption]
        | ok k =>
          cases k with
          | zero => simp [writesTake, Except.toOption]
          | succ k =>
            have hmin : min (k + 1) (src.length + 1) = min k src.length + 1 := by omega
            have hleft : ((c :: src).drop (min k src.length + 1)).length = src.length - k := by
              rw [List.length_drop, List.length_cons]
              omega
            have hput : put + (min k src.length + 1) + (src.length - k) = put + (src.length + 1) := by omega
            have hnext := ih { conn with writes } ((c :: src).drop (min k src.length + 1))
              (put + (min k src.length + 1)) (by omega)
            rw [hleft, hput] at hnext
            simp only [hmin, List.length_cons]
            rw [writesTake]
            exact hnext

/-- A script whose writes all take something takes any number of octets. -/
theorem writesTake_positive {writes : List Nat} (hpos : ∀ k ∈ writes, 0 < k) (n : Nat) :
    writesTake (writes.map .ok) n = true := by
  induction writes generalizing n with
  | nil => cases n <;> rfl
  | cons k writes ih =>
    obtain ⟨k, rfl⟩ := Nat.exists_eq_succ_of_ne_zero (hpos k List.mem_cons_self).ne'
    cases n with
    | zero => rfl
    | succ n => exact ih (fun k hk => hpos k (List.mem_cons_of_mem _ hk)) (n - k)

/-- Writing takes nothing from what there is to read. -/
theorem writeFrom_reads (fuel : Nat) : ∀ (conn : HttpConn) (src : Bytes) (put : Nat),
    (writeFrom httpWrite fuel conn src put).2.reads = conn.reads := by
  induction fuel with
  | zero =>
    intro conn src put
    rfl
  | succ fuel ih =>
    intro conn src put
    have hwrite : (httpWrite conn src).2.reads = conn.reads := by
      unfold httpWrite
      split
      · rfl
      · rfl
      · rfl
    rw [writeFrom]
    split
    · rfl
    · split
      · rename_i hw
        rwa [hw] at hwrite
      · rename_i hw
        rwa [hw] at hwrite
      · rename_i hw
        rw [ih]
        rwa [hw] at hwrite

/-! ### The world

What the client asks of the system, with a record of dials and of requests written. -/

/-- A connect that was tried. -/
structure HttpDial where
  host : Bytes
  port : Nat
  tls : Bool
  connectMs : Int
  ioMs : Int
  deriving Repr, DecidableEq

/-- A request of which `put` octets went onto a connection. -/
structure HttpSent where
  conn : Nat
  tls : Bool
  req : Bytes
  put : Nat
  deriving Repr, DecidableEq

structure HttpIo where
  /-- What each further connect gives, or the text of its error; it fails behind the script. -/
  peers : List (Except Bytes HttpPeer) := []
  /-- Whether each further `zcio_tls_client_ctx` succeeds. -/
  ctxs : List Bool := []
  /-- What each further `zcio_rand_bytes_` gives. -/
  rands : List (Option Bytes) := []
  /-- The time that passes before each look at the clock. -/
  ticks : List Nat := []
  now : Nat := 0
  dials : List HttpDial := []
  sent : List HttpSent := []

/-- `zcio_now_ms_`. -/
def httpNow (io : HttpIo) : Nat × HttpIo :=
  let now := io.now + io.ticks.headD 0
  (now, { io with now, ticks := io.ticks.tail })

/-- `zcio_tls_client_ctx`. -/
def httpTlsCtx (io : HttpIo) : Bool × HttpIo := (io.ctxs.headD true, { io with ctxs := io.ctxs.tail })

/-- `zcio_rand_bytes_`. -/
def httpRand (io : HttpIo) : Option Bytes × HttpIo :=
  (io.rands.headD none, { io with rands := io.rands.tail })

/-- `tcp_client_make`. -/
def httpConnect (io : HttpIo) (d : HttpDial) : Except Bytes HttpConn × HttpIo :=
  ((io.peers.headD (.error [])).map fun p =>
      { toHttpPeer := p, number := io.dials.length, tls := d.tls, timeoutMs := d.ioMs },
    { io with peers := io.peers.tail, dials := io.dials ++ [d] })

/-- `zcio_write_full` of a request, compared with its length. -/
def httpSend (io : HttpIo) (c : HttpConn) (req : Bytes) : Bool × HttpIo × HttpConn :=
  let r := zcioWriteFull httpWrite c req
  let put := (r.1.toOption).getD 0
  (r.1.toOption == some req.length,
    { io with sent := io.sent ++ [⟨c.number, c.tls, req, put⟩] }, r.2)

/-! ### Deadlines

The time left of a call, which becomes the timeout of each read. -/

/-- `deadline_remaining_ms`: -1 without a deadline, 0 when it is over. -/
def deadlineRemainingMs (io : HttpIo) (deadline : Nat) : Int × HttpIo :=
  if deadline = 0 then (-1, io)
  else
    let n := httpNow io
    (if n.1 ≥ deadline then 0 else (min (deadline - n.1) (2 ^ 31 - 1) : Nat), n.2)

/-- `zcio_stream_set_timeout_` where there is a deadline. -/
def HttpConn.setTimeout (c : HttpConn) (rem : Int) : HttpConn :=
  if rem > 0 then { c with timeoutMs := rem } else c

end Zcio
