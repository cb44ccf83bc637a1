import Mathlib.Algebra.Group.Action.Defs
import Mathlib.Algebra.Order.BigOperators.Group.List
import Zcio.H3.Bounds
import Zcio.Net.Wait

/-!
# Zcio.H3.Server

The HTTP/3 engine of `h3.c`: the table of its connections, the loop that serves them, and the graceful
stop. The loop is a sweep of the table, so that a connection of the server is a run of its own
(`h3SrvRun_conns`), and what is proved of one connection holds of each. With the caps on the table this
bounds what all peers together can make the server hold (`h3SrvRun_memory`).

Connections are numbered as they are accepted; the source has no such numbers.
-/

namespace Zcio

/-- What does not change over a server's life. -/
structure H3SrvCfg extends H3Cfg where
  maxConnections : Nat

/-- `struct zh3_srv`, and the number of connections that were accepted. -/
structure Zh3Srv where
  conns : List (Nat × Zh3Conn) := []
  draining : Bool := false
  accepted : Nat := 0

/-- What a call of `zh3_process_` meets with: the connections that wait to be accepted (whether there is
credit for a stream of ours), and the visit of each connection. -/
structure H3Tick where
  incoming : List Bool := []
  visits : Nat → H3Visit := fun _ => {}

variable (g : H3SrvCfg)

/-- A round of the accept loop of `zh3_process_`. -/
def h3AcceptConn (h : Zh3Srv) (credit : Bool) : Zh3Srv :=
  if h.conns.length < g.maxConnections then
    { h with conns := h.conns ++ [(h.accepted, h3ConnNew credit)], accepted := h.accepted + 1 }
  else h

/-- The accept loop; it is not entered while the server drains. -/
def h3AcceptConns (tick : H3Tick) (h : Zh3Srv) : Zh3Srv :=
  if h.draining then h else (tick.incoming.take ZH3_ACCEPT_CAP).foldl (h3AcceptConn g) h

/-- A connection is served. -/
def h3ServeConn (tick : H3Tick) (p : Nat × Zh3Conn) : Nat × Zh3Conn :=
  (p.1, zh3Process g.toH3Cfg (tick.visits p.1) p.2)

/-- `zh3_process_`. -/
def zh3SrvProcess (tick : H3Tick) (h : Zh3Srv) : Zh3Srv :=
  let h := h3AcceptConns g tick h
  { h with conns := Lib.sweep (h3ServeConn g tick) (fun p => p.2.freed) h.conns }

/-- `zh3_graceful_`. -/
def zh3SrvGraceful (h : Zh3Srv) : Zh3Srv :=
  { h with draining := true, conns := h.conns.map fun p => (p.1, zh3Graceful p.2) }

/-- `zh3_idle_`. -/
def zh3Idle (h : Zh3Srv) : Bool := h.conns.isEmpty

/-- What happens to a server. -/
inductive H3SrvStep where
  | process (tick : H3Tick)
  | graceful

/-- A step, as connection `n` sees it. -/
def H3SrvStep.at (n : Nat) : H3SrvStep → H3ConnStep
  | .process tick => .process (tick.visits n)
  | .graceful => .graceful

def h3SrvStep (h : Zh3Srv) : H3SrvStep → Zh3Srv
  | .process tick => zh3SrvProcess g tick h
  | .graceful => zh3SrvGraceful h

/-- A run of the server from `zh3_new_` on. -/
def h3SrvRun (steps : List H3SrvStep) : Zh3Srv := steps.foldl (h3SrvStep g) {}

/-! ### Connections

What a visit does to a connection that is draining. -/

section Conn

variable {g : H3SrvCfg} {c : Zh3Conn}

theorem zh3Graceful_frame (c : Zh3Conn) : (zh3Graceful c).freed = c.freed ∧ (zh3Graceful c).draining = true := by
  rw [zh3Graceful, h3SendGoaway]
  split
  · exact ⟨rfl, rfl⟩
  · split
    · exact ⟨rfl, rfl⟩
    · exact ⟨rfl, rfl⟩

theorem h3AcceptStreams_draining (lim : ZhsLimits) (accepted : List (Nat × Bool)) (c : Zh3Conn) :
    (h3AcceptStreams lim accepted c).draining = c.draining := by
  rw [h3AcceptStreams]
  generalize accepted.take ZH3_ACCEPT_CAP = accepted
  induction accepted generalizing c with
  | nil => rfl
  | cons s accepted ih =>
    rw [List.foldl_cons, ih, h3AcceptStream]
    split
    · split
      · rfl
      · rfl
    · split
      · rfl
      · rfl

theorem h3PumpStreams_draining (v : H3Visit) (c : Zh3Conn) :
    (h3PumpStreams g.toH3Cfg v c).draining = c.draining := by
  refine Lib.loop_inv (h3PumpRound_decreases g.toH3Cfg v) (I := fun s => s.1.draining = c.draining)
    (Q := fun c' => c'.draining = c.draining) ?_ ?_ rfl
  · intro ⟨c₁, i⟩ s' hi hround
    unfold h3PumpRound at hround
    dsimp only at hround
    split at hround
    · cases hround
    · split at hround
      · cases hround
        exact hi
      · cases hround
        exact hi
  · intro ⟨c₁, i⟩ c' hi hround
    unfold h3PumpRound at hround
    dsimp only at hround
    split at hround
    · cases hround
      exact hi
    · split at hround
      · cases hround
      · cases hround

theorem zh3Process_draining (v : H3Visit) (c : Zh3Conn) : (zh3Process g.toH3Cfg v c).draining = c.draining := by
  rw [zh3Process]
  change (h3PumpStreams g.toH3Cfg v _).draining = _
  rw [h3PumpStreams_draining]
  split
  · rfl
  · rw [h3AcceptStreams_draining, h3OpenControl]
    split
    · rfl
    · rfl

/-- One more step of a connection that is not freed. -/
theorem h3ConnRun_append {credit : Bool} {steps : List H3ConnStep} (step : H3ConnStep)
    (hfreed : (h3ConnRun g.toH3Cfg credit steps).freed = false) :
    h3ConnRun g.toH3Cfg credit (steps ++ [step]) =
      (match step with
        | .process v => zh3Process g.toH3Cfg v (h3ConnRun g.toH3Cfg credit steps)
        | .graceful => zh3Graceful (h3ConnRun g.toH3Cfg credit steps)) := by
  rw [h3ConnRun, List.foldl_append, List.foldl_cons, List.foldl_nil, ← h3ConnRun]
  unfold h3ConnStep
  exact if_neg (hfreed ▸ Bool.false_ne_true)

end Conn

/-! ### The table

Connections are accepted up to the cap, and freed behind their close. -/

section Table

variable {g : H3SrvCfg} {h : Zh3Srv} {steps : List H3SrvStep}

/-- The table: within its cap, and each number once. -/
structure H3TableOk (g : H3SrvCfg) (h : Zh3Srv) : Prop where
  count : h.conns.length ≤ g.maxConnections
  numbers : (h.conns.map Prod.fst).Nodup
  below : ∀ p ∈ h.conns, p.1 < h.accepted

theorem H3TableOk.accept (ht : H3TableOk g h) (credit : Bool) :
    H3TableOk g (h3AcceptConn g h credit) ∧ (h3AcceptConn g h credit).draining = h.draining ∧
      ∀ p ∈ (h3AcceptConn g h credit).conns, p ∈ h.conns ∨ p.2 = h3ConnNew credit := by
  rw [h3AcceptConn]
  split
  · rename_i hroom
    refine ⟨⟨?_, ?_, fun p hp => ?_⟩, rfl, fun p hp => ?_⟩
    · rw [List.length_append, List.length_singleton]
      omega
    · rw [List.map_append, List.map_singleton]
      refine List.Nodup.append ht.numbers (List.nodup_singleton _) fun n hn hnew => ?_
      obtain ⟨p, hp, rfl⟩ := List.mem_map.mp hn
      exact absurd (ht.below p hp) (List.mem_singleton.mp hnew ▸ Nat.lt_irrefl _)
    · rcases List.mem_append.mp hp with hp | hp
      · exact (ht.below p hp).trans (Nat.lt_succ_self _)
      · rw [List.mem_singleton.mp hp]
        exact Nat.lt_succ_self _
    · exact (List.mem_append.mp hp).imp_right fun hp => by rw [List.mem_singleton.mp hp]
  · exact ⟨ht, rfl, fun p hp => .inl hp⟩

theorem H3TableOk.accepts (ht : H3TableOk g h) (tick : H3Tick) :
    H3TableOk g (h3AcceptConns g tick h) ∧ (h3AcceptConns g tick h).draining = h.draining ∧
      ∀ p ∈ (h3AcceptConns g tick h).conns, p ∈ h.conns ∨ h.draining = false ∧ ∃ credit, p.2 = h3ConnNew credit := by
  rw [h3AcceptConns]
  cases hdraining : h.draining with
  | true => exact ⟨ht, hdraining, fun p hp => .inl hp⟩
  | false =>
    rw [if_neg Bool.false_ne_true]
    generalize tick.incoming.take ZH3_ACCEPT_CAP = incoming
    induction incoming generalizing h with
    | nil => exact ⟨ht, hdraining, fun p hp => .inl hp⟩
    | cons credit incoming ih =>
      obtain ⟨hone, hflag, hnew⟩ := ht.accept credit
      obtain ⟨hall, hflag', hmem⟩ := ih hone (hflag.trans hdraining)
      refine ⟨hall, hflag', fun p hp => ?_⟩
      rcases hmem p hp with hp | hp
      · exact (hnew p hp).imp_right fun heq => ⟨rfl, credit, heq⟩
      · exact .inr hp

/-- The table behind the loop. -/
theorem H3TableOk.serve (ht : H3TableOk g h) (tick : H3Tick) :
    H3TableOk g { h with conns := Lib.sweep (h3ServeConn g tick) (fun p => p.2.freed) h.conns } := by
  have hnumbers : (h.conns.map (h3ServeConn g tick)).map Prod.fst = h.conns.map Prod.fst := by
    rw [List.map_map]
    rfl
  refine ⟨(Lib.length_sweep_le _ _ _).trans ht.count, ?_, fun p hp => ?_⟩
  · rw [((Lib.sweep_perm h.conns).map Prod.fst).nodup_iff]
    refine List.Nodup.sublist (List.filter_sublist.map Prod.fst) ?_
    rw [hnumbers]
    exact ht.numbers
  · obtain ⟨⟨q, hq, rfl⟩, -⟩ := Lib.mem_sweep.mp hp
    exact ht.below q hq

/-! ### Runs

A run of the server is a run of each of its connections. -/

/-- A connection of the table is a run of its own: it was accepted in step `k`, with no stop before. -/
structure H3Owned (g : H3SrvCfg) (steps : List H3SrvStep) (draining : Bool) (p : Nat × Zh3Conn) : Prop where
  freed : p.2.freed = false
  draining : p.2.draining = draining
  run : ∃ k credit, k < steps.length ∧ H3SrvStep.graceful ∉ steps.take (k + 1) ∧
    p.2 = h3ConnRun g.toH3Cfg credit ((steps.drop k).map (H3SrvStep.at p.1))

/-- **The invariant** of a run. -/
structure H3SrvInv (g : H3SrvCfg) (steps : List H3SrvStep) (h : Zh3Srv) : Prop extends H3TableOk g h where
  stopped : h.draining = false → H3SrvStep.graceful ∉ steps
  owned : ∀ p ∈ h.conns, H3Owned g steps h.draining p

/-- One more step of a connection of the table. -/
theorem H3Owned.step {draining : Bool} {p : Nat × Zh3Conn} (ho : H3Owned g steps draining p) (step : H3SrvStep) :
    ∃ k credit, k < (steps ++ [step]).length ∧ H3SrvStep.graceful ∉ (steps ++ [step]).take (k + 1) ∧
      h3ConnRun g.toH3Cfg credit (((steps ++ [step]).drop k).map (H3SrvStep.at p.1)) =
        (match step.at p.1 with
          | .process v => zh3Process g.toH3Cfg v p.2
          | .graceful => zh3Graceful p.2) := by
  obtain ⟨k, credit, hk, hbefore, hrun⟩ := ho.run
  refine ⟨k, credit, ?_, ?_, ?_⟩
  · rw [List.length_append]
    omega
  · rwa [List.take_append_of_le_length hk]
  · have hfreed := ho.freed
    rw [hrun] at hfreed
    rw [List.drop_append_of_le_length hk.le, List.map_append, List.map_singleton, h3ConnRun_append _ hfreed, ← hrun]

theorem H3SrvInv.process (hi : H3SrvInv g steps h) (tick : H3Tick) :
    H3SrvInv g (steps ++ [.process tick]) (zh3SrvProcess g tick h) := by
  obtain ⟨htable, hflag, hmem⟩ := hi.toH3TableOk.accepts tick
  refine { htable.serve tick with stopped := fun hno hin => ?_, owned := fun p' hp' => ?_ }
  · rcases List.mem_append.mp hin with hin | hin
    · exact hi.stopped (hflag.symm.trans hno) hin
    · cases List.mem_singleton.mp hin
  · obtain ⟨⟨p, hp, rfl⟩, hfreed⟩ := Lib.mem_sweep.mp hp'
    rcases hmem p hp with hp | ⟨hdraining, credit, hnew⟩
    · have ho := hi.owned p hp
      obtain ⟨k, credit, hk, hbefore, hrun⟩ := ho.step (.process tick)
      exact ⟨hfreed, (zh3Process_draining _ _).trans (ho.draining.trans hflag.symm), k, credit, hk, hbefore, hrun.symm⟩
    · -- a connection that was accepted in this step
      have hfresh : p.2.draining = false := by
        rw [hnew]
        cases credit <;> rfl
      refine ⟨hfreed, (zh3Process_draining _ _).trans (hfresh.trans (hflag.trans hdraining).symm), steps.length, credit, ?_,
        ?_, ?_⟩
      · rw [List.length_append]
        exact Nat.lt_succ_self _
      · rw [List.take_of_length_le (by rw [List.length_append]; rfl)]
        intro hin
        rcases List.mem_append.mp hin with hin | hin
        · exact hi.stopped hdraining hin
        · cases List.mem_singleton.mp hin
      · rw [List.drop_left, h3ServeConn, hnew]
        cases credit <;> rfl

theorem H3SrvInv.graceful (hi : H3SrvInv g steps h) : H3SrvInv g (steps ++ [.graceful]) (zh3SrvGraceful h) := by
  refine { count := ?_, numbers := ?_, below := fun p' hp' => ?_, stopped := fun hno => ?_, owned := fun p' hp' => ?_ }
  · rw [zh3SrvGraceful, List.length_map]
    exact hi.count
  · rw [zh3SrvGraceful, List.map_map]
    exact hi.numbers
  · obtain ⟨p, hp, rfl⟩ := List.mem_map.mp hp'
    exact hi.below p hp
  · cases hno
  · obtain ⟨p, hp, rfl⟩ := List.mem_map.mp hp'
    have ho := hi.owned p hp
    obtain ⟨hfreed, hdraining⟩ := zh3Graceful_frame p.2
    obtain ⟨k, credit, hk, hbefore, hrun⟩ := ho.step .graceful
    exact ⟨hfreed.trans ho.freed, hdraining, k, credit, hk, hbefore, hrun.symm⟩

theorem h3SrvRun_inv (steps : List H3SrvStep) : H3SrvInv g steps (h3SrvRun g steps) := by
  induction steps using List.reverseRecOn with
  | nil =>
    exact { count := Nat.zero_le _, numbers := List.nodup_nil, below := fun p hp => absurd hp List.not_mem_nil
            stopped := fun _ => List.not_mem_nil, owned := fun p hp => absurd hp List.not_mem_nil }
  | append_singleton steps step ih =>
    rw [h3SrvRun, List.foldl_append, List.foldl_cons, List.foldl_nil, ← h3SrvRun]
    cases step with
    | process tick => exact ih.process tick
    | graceful => exact ih.graceful

/-- The reads of a run fit into `tmp`. -/
def H3SrvChunked (steps : List H3SrvStep) : Prop :=
  ∀ tick, H3SrvStep.process tick ∈ steps → ∀ n, (tick.visits n).Chunked

theorem H3SrvChunked.conn (hsteps : H3SrvChunked steps) (k n : Nat) :
    H3Chunked ((steps.drop k).map (H3SrvStep.at n)) := by
  intro v hv
  obtain ⟨step, hstep, heq⟩ := List.mem_map.mp hv
  cases step with
  | process tick =>
    cases heq
    exact hsteps tick (List.mem_of_mem_drop hstep) n
  | graceful => cases heq

/-- A connection of the table, from the step that accepted it. -/
theorem h3SrvRun_owned (hsteps : H3SrvChunked steps) : ∀ p ∈ (h3SrvRun g steps).conns,
    p.2.draining = (h3SrvRun g steps).draining ∧ ∃ k credit, k < steps.length ∧
      H3SrvStep.graceful ∉ steps.take (k + 1) ∧
      p.2 = h3ConnRun g.toH3Cfg credit ((steps.drop k).map (H3SrvStep.at p.1)) ∧
      ∀ st ∈ p.2.streams, st.Served g.toH3Cfg (h3Visits ((steps.drop k).map (H3SrvStep.at p.1))) := by
  intro p hp
  obtain ⟨hfreed, hdraining, k, credit, hk, hbefore, hrun⟩ := (h3SrvRun_inv (g := g) steps).owned p hp
  refine ⟨hdraining, k, credit, hk, hbefore, hrun, ?_⟩
  have hserved := (h3ConnRun_held (g := g.toH3Cfg) credit (hsteps.conn k p.1)).2
  rw [← hrun] at hserved
  exact hserved hfreed

/-- **The server is its connections.** In every state of a run each connection of the table is a run of
its own, from the step on that accepted it, and was accepted before the stop; so is each stream of a
connection, which was read in every visit since. No connection is in the table twice. -/
theorem h3SrvRun_conns (hsteps : H3SrvChunked steps) :
    ((h3SrvRun g steps).conns.map Prod.fst).Nodup ∧ ∀ p ∈ (h3SrvRun g steps).conns,
      p.2.draining = (h3SrvRun g steps).draining ∧ ∃ k credit, k < steps.length ∧
        H3SrvStep.graceful ∉ steps.take (k + 1) ∧
        p.2 = h3ConnRun g.toH3Cfg credit ((steps.drop k).map (H3SrvStep.at p.1)) ∧
        ∀ st ∈ p.2.streams, st.Served g.toH3Cfg (h3Visits ((steps.drop k).map (H3SrvStep.at p.1))) :=
  ⟨(h3SrvRun_inv (g := g) steps).numbers, h3SrvRun_owned hsteps⟩

/-! ### Memory

The octets that wait, over all streams of all connections. -/

/-- The octets of its peer that a stream holds: input, a field section that is not whole, and the head
and the body of the request. -/
def Zh3Stream.octets (st : Zh3Stream) : Nat :=
  st.inp.length + (st.hdr.length + st.req.headOctets) + st.req.body.length

def Zh3Conn.octets (c : Zh3Conn) : Nat := (c.streams.map Zh3Stream.octets).sum

def Zh3Srv.octets (h : Zh3Srv) : Nat := (h.conns.map fun p => p.2.octets).sum

/-- The most that a stream holds. -/
def h3StreamCap (lim : ZhsLimits) : Nat := 16 + H3_READ_CHUNK + lim.maxHeaderBytes + lim.maxBodyBytes

theorem Zh3Stream.Small.octets_le {lim : ZhsLimits} {st : Zh3Stream} (hs : st.Small lim) :
    st.octets ≤ h3StreamCap lim := by
  have := hs.inp
  have := hs.head
  have := hs.body
  rw [Zh3Stream.octets, h3StreamCap]
  omega

theorem H3ConnHeld.octets_le {lim : ZhsLimits} {c : Zh3Conn} (hc : H3ConnHeld lim c) :
    c.octets ≤ (lim.maxStreams + 8) * h3StreamCap lim := by
  refine (List.sum_le_card_nsmul _ (h3StreamCap lim) fun n hn => ?_).trans ?_
  · obtain ⟨st, hst, rfl⟩ := List.mem_map.mp hn
    exact (hc.held st hst).small.octets_le
  · rw [List.length_map, smul_eq_mul]
    exact Nat.mul_le_mul_right _ hc.streams

/-- **What all peers together can make the server hold**, in every state of a run: the tables are within
their caps, no connection has had more requests handed over than it may make, and the octets that wait
to be parsed or handed over are bounded by the limits alone. -/
theorem h3SrvRun_memory (hsteps : H3SrvChunked steps) :
    (h3SrvRun g steps).conns.length ≤ g.maxConnections ∧
      (∀ p ∈ (h3SrvRun g steps).conns, p.2.streams.length ≤ g.lim.maxStreams + 8 ∧
        p.2.log.length ≤ g.lim.maxRequestsPerConn ∧
        ∀ st ∈ p.2.streams, st.done = false → st.inp.length < 16) ∧
      (h3SrvRun g steps).octets ≤ g.maxConnections * ((g.lim.maxStreams + 8) * h3StreamCap g.lim) := by
  have hinv := h3SrvRun_inv (g := g) steps
  have hheld : ∀ p ∈ (h3SrvRun g steps).conns, H3ConnHeld g.lim p.2 := by
    intro p hp
    obtain ⟨-, -, k, credit, -, -, hrun⟩ := hinv.owned p hp
    rw [hrun]
    exact (h3ConnRun_held credit (hsteps.conn k p.1)).1
  refine ⟨hinv.count, fun p hp => ?_, ?_⟩
  · obtain ⟨hstreams, hrequests, hlog, hstream⟩ := hheld p hp
    exact ⟨hstreams, (Nat.le_add_right _ _).trans (hlog.trans hrequests), fun st hst hopen =>
      ((hstream st hst).waiting hopen).inp⟩
  · refine (List.sum_le_card_nsmul _ ((g.lim.maxStreams + 8) * h3StreamCap g.lim) fun n hn => ?_).trans ?_
    · obtain ⟨p, hp, rfl⟩ := List.mem_map.mp hn
      exact (hheld p hp).octets_le
    · rw [List.length_map, smul_eq_mul]
      exact Nat.mul_le_mul_right _ hinv.count

end Table

/-- A server with room for one connection. -/
def smallH3Srv : H3SrvCfg := { H3Cfg.silent with maxConnections := 1 }

/-- Two connections come in, the one that is taken opens a stream, and the server is stopped. -/
def sampleH3Steps : List H3SrvStep :=
  [.process { incoming := [true, true] },
    .process { visits := fun _ => { accepted := [(0, false)], reads := fun _ => { chunks := [h3HalfFrame] } } }, .graceful]

theorem sampleH3Steps_chunked : H3SrvChunked sampleH3Steps := by
  intro tick htick n id b hb
  simp only [sampleH3Steps, List.mem_cons, H3SrvStep.process.injEq, reduceCtorEq, List.not_mem_nil, or_false] at htick
  rcases htick with rfl | rfl
  · cases hb
  · rw [List.mem_singleton.mp hb]
    decide

theorem h3SrvRun_conns_sample : ((h3SrvRun smallH3Srv sampleH3Steps).conns.map Prod.fst).Nodup :=
  (h3SrvRun_conns sampleH3Steps_chunked).1

theorem h3SrvRun_memory_sample : (h3SrvRun smallH3Srv sampleH3Steps).conns.length ≤ 1 :=
  (h3SrvRun_memory sampleH3Steps_chunked).1

end Zcio
