import Zcio.Lib.SwapRemove
import Zcio.H3.Grammar

/-!
# Zcio.H3.Conn

One HTTP/3 connection of `h3.c`: its control stream, its table of streams, and the way it is wound
down. What the QUIC engine of OpenSSL does is the input of a step, as it is for one stream; octets
written to the control stream are taken whole.

`draining` is the flag of the server. `log` and `freed` are not in the source: the requests handed
to the handler, and that the connection is gone.
-/

namespace Zcio

def H3_FRAME_SETTINGS : Nat := 0x04
def H3_FRAME_GOAWAY : Nat := 0x07
def H3_UNI_CONTROL : Nat := 0x00
def ZH3_ACCEPT_CAP : Nat := 1024

/-- `zh3_conn`; `control` has the octets written to the control stream. -/
structure Zh3Conn where
  control : Option Bytes := none
  streams : List Zh3Stream := []
  requests : Nat := 0
  shutdownSent : Bool := false
  goawaySent : Bool := false
  draining : Bool := false
  freed : Bool := false
  log : List HttpReq := []

/-- A visit of the connection by `zh3_process_`: whether there is credit for a stream of ours, the
streams that came in (their ids, and whether they are unidirectional), what each stream reads and
whether its send side has drained, and whether the connection is closed. -/
structure H3Visit where
  credit : Bool := true
  accepted : List (Nat × Bool) := []
  reads : Nat → H3Pass := fun _ => { chunks := [] }
  drained : Nat → Bool := fun _ => false
  closed : Bool := false

/-! ### Control stream

The server opens its control stream once there is credit for it, and sends SETTINGS and
later GOAWAY on it. -/

/-- `h3_open_control`. -/
def h3OpenControl (credit : Bool) (c : Zh3Conn) : Zh3Conn :=
  if c.control.isSome || !credit then c
  else { c with control := some ([H3_UNI_CONTROL, H3_FRAME_SETTINGS, 0x00].map UInt8.ofNat) }

/-- `h3_send_goaway`. -/
def h3SendGoaway (c : Zh3Conn) : Zh3Conn :=
  match c.control with
  | none => c
  | some out =>
    if c.goawaySent then c
    else { c with
      goawaySent := true
      control := some (out ++ [H3_FRAME_GOAWAY, 0x01, 0x00].map UInt8.ofNat) }

/-- `h3_conn_new`. -/
def h3ConnNew (credit : Bool) : Zh3Conn := h3OpenControl credit {}

/-! ### Streams

Streams are accepted up to the caps, pumped in the order of the table, and dropped when they
are done. -/

/-- A round of `h3_accept_streams`: a stream over a cap is refused. Both sides of the sum are `uint32_t`. -/
def h3AcceptStream (lim : ZhsLimits) (c : Zh3Conn) (s : Nat × Bool) : Zh3Conn :=
  let st := h3StreamNew s.1 s.2
  if !s.2 then
    if c.requests ≥ lim.maxRequestsPerConn ∨ c.streams.length ≥ lim.maxStreams then c
    else { c with requests := c.requests + 1, streams := c.streams ++ [st] }
  else if c.streams.length ≥ (lim.maxStreams + 8) % 2 ^ 32 then c
  else { c with streams := c.streams ++ [st] }

/-- `h3_accept_streams`. -/
def h3AcceptStreams (lim : ZhsLimits) (accepted : List (Nat × Bool)) (c : Zh3Conn) : Zh3Conn :=
  (accepted.take ZH3_ACCEPT_CAP).foldl (h3AcceptStream lim) c

variable (g : H3Cfg)

/-- A round of `h3_pump_streams`, at slot `i`: the last stream takes the slot of one that is freed. -/
def h3PumpRound (v : H3Visit) (s : Zh3Conn × Nat) : (Zh3Conn × Nat) ⊕ Zh3Conn :=
  let (c, i) := s
  match c.streams[i]? with
  | none => .inr c
  | some st =>
    let st' := h3PumpStream g st (v.reads st.id)
    let c := { c with
      streams := c.streams.set i st'
      log := c.log ++ st'.log.drop st.log.length }
    if st'.done && v.drained st.id then .inl ({ c with streams := Lib.swapRemove c.streams i }, i)
    else .inl (c, i + 1)

theorem h3PumpRound_decreases (v : H3Visit) :
    Lib.Decreases (h3PumpRound g v) fun s => s.1.streams.length - s.2 := by
  rintro ⟨c, i⟩ s' h
  unfold h3PumpRound at h
  dsimp only at h
  split at h
  · cases h
  · rename_i st hst
    have hi : i < c.streams.length := (List.getElem?_eq_some_iff.mp hst).1
    split at h
    · cases h
      dsimp only
      rw [Lib.length_swapRemove (by rwa [List.length_set]), List.length_set]
      omega
    · cases h
      dsimp only
      rw [List.length_set]
      omega

/-- `h3_pump_streams`. -/
def h3PumpStreams (v : H3Visit) (c : Zh3Conn) : Zh3Conn :=
  Lib.loop (h3PumpRound g v) _ (h3PumpRound_decreases g v) (c, 0)

/-! ### Lifecycle

A visit of the event loop, and the graceful shutdown. -/

/-- `h3_conn_closed`, and the connection freed if it is. -/
def h3ConnClosed (closed : Bool) (c : Zh3Conn) : Zh3Conn :=
  { c with shutdownSent := c.shutdownSent || c.draining, freed := closed }

/-- `zh3_process_`, for one connection. -/
def zh3Process (v : H3Visit) (c : Zh3Conn) : Zh3Conn :=
  let c := if c.draining then c else h3AcceptStreams g.lim v.accepted (h3OpenControl v.credit c)
  h3ConnClosed v.closed (h3PumpStreams g v c)

/-- `zh3_graceful_`, for one connection. -/
def zh3Graceful (c : Zh3Conn) : Zh3Conn :=
  { h3SendGoaway { c with draining := true } with shutdownSent := true }

/-- What happens to a connection. -/
inductive H3ConnStep where
  | process (v : H3Visit)
  | graceful

/-- One step; a connection that is freed takes none. -/
def h3ConnStep (c : Zh3Conn) (step : H3ConnStep) : Zh3Conn :=
  if c.freed then c
  else
    match step with
    | .process v => zh3Process g v c
    | .graceful => zh3Graceful c

/-- A run of a connection from `h3_conn_new` on. -/
def h3ConnRun (credit : Bool) (steps : List H3ConnStep) : Zh3Conn :=
  steps.foldl (h3ConnStep g) (h3ConnNew credit)

end Zcio
