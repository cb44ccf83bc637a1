import Zcio.Net.Wait
import Zcio.Server.Input
import Zcio.Server.Poll

/-!
# Zcio.Server.PollRun

The event loop over whole runs. What one call does is said once (`zcioHttpServerPoll_cases`): every
connection of the poll set goes through an iteration of its own with the events of its own
descriptor, however the indices of the set fall. So a run of the server is a run of each
connection (`serverRun_conns`), and what is proved of one connection holds of all of them.
-/

namespace Zcio

variable {g : PollCfg}

/-! ### Every connection gets its own events

The set that poll fills has a place for every connection, and its events are read back from
the same place. -/

/-- The iteration of connection `i`, with the events of its descriptor. -/
def PollIo.seen (io : PollIo) (rc : Int) (i : Nat) : ConnIo :=
  let r := if rc > 0 then io.reports (.conn i) else {}
  { io.conns i with pollin := r.pollin, pollout := r.pollout, pollerr := r.pollerr || r.pollnval }

theorem pollSet_conn (s : HttpServer) {i : Nat} {c : Conn} (h : s.conns[i]? = some c) :
    (pollSet s).p[(pollSet s).nspecial + i]? = some (.conn i, connWantsPollout c) := by
  have hspecial : (pollSet s).nspecial = (specialSet s).p.length := rfl
  rw [hspecial]
  show ((specialSet s).p ++ _)[(specialSet s).p.length + i]? = _
  rw [List.getElem?_append_right (Nat.le_add_right _ _), Nat.add_sub_cancel_left, List.getElem?_mapIdx, h]
  rfl

theorem connIo_pollSet (s : HttpServer) (io : PollIo) (rc : Int) {i : Nat} (h : i < s.conns.length) :
    connIo (pollSet s) io rc i = io.seen rc i := by
  have hconn : (pollSet s).revents io ((pollSet s).nspecial + i) = io.reports (.conn i) := by
    rw [PollSet.revents, pollSet_conn s (List.getElem?_eq_getElem h)]
  rw [connIo, PollIo.seen, hconn]

/-- The listeners' entries are where the indices say. -/
theorem pollSet_listeners (s : HttpServer) {idx : Nat} :
    ((pollSet s).idxListen = some idx → (pollSet s).p[idx]? = some (.listen, false)) ∧
      ((pollSet s).idxRedirect = some idx → (pollSet s).p[idx]? = some (.redirect, false)) := by
  have hset : (pollSet s).idxListen = (specialSet s).idxListen ∧
      (pollSet s).idxRedirect = (specialSet s).idxRedirect ∧
      ∃ t, (pollSet s).p = (specialSet s).p ++ t := ⟨rfl, rfl, _, rfl⟩
  obtain ⟨hlisten, hredirect, t, ht⟩ := hset
  rw [hlisten, hredirect, ht, specialSet]
  cases s.stopping <;> cases s.listening <;> cases s.redirecting <;> cases s.h3 <;>
    refine ⟨fun h => ?_, fun h => ?_⟩ <;> first | cases h; rfl | cases h

/-! ### Accepting

Listeners accept until there is nothing left, the cap is reached or memory runs out. -/

/-- A connection that was just made, at a time of one of the answers. -/
def Fresh (l : Listener) (rs : List AcceptRes) (c : Conn) : Prop :=
  ∃ now made grown, AcceptRes.accepted now made grown ∈ rs ∧ c = connCreate now l

/-- The connections fit under the cap and into their array. -/
structure Roomy (g : PollCfg) (s : HttpServer) : Prop where
  cap : s.conns.length ≤ g.maxConnections
  room : s.conns.length ≤ s.capConns

/-- **What an accept loop does**: new connections behind the others, under the cap. -/
theorem acceptLoop_spec (l : Listener) (rs : List AcceptRes) (s : HttpServer) :
    ∃ new capConns, acceptLoop g l s rs = { s with conns := s.conns ++ new, capConns } ∧
      (∀ c ∈ new, Fresh l rs c) ∧ (Roomy g s → Roomy g (acceptLoop g l s rs)) := by
  induction rs generalizing s with
  | nil => exact ⟨[], s.capConns, by rw [acceptLoop, List.append_nil], fun _ hc => absurd hc List.not_mem_nil, id⟩
  | cons r rs ih =>
    have hlater {c : Conn} : Fresh l rs c → Fresh l (r :: rs) c := by
      rintro ⟨now, made, grown, hmem, heq⟩
      exact ⟨now, made, grown, List.mem_cons_of_mem r hmem, heq⟩
    have hskip : ∃ new capConns, acceptLoop g l s rs = { s with conns := s.conns ++ new, capConns } ∧
        (∀ c ∈ new, Fresh l (r :: rs) c) ∧ (Roomy g s → Roomy g (acceptLoop g l s rs)) := by
      obtain ⟨new, capConns, heq, hnew, hroomy⟩ := ih s
      exact ⟨new, capConns, heq, fun c hc => hlater (hnew c hc), hroomy⟩
    cases r with
    | interrupted => exact hskip
    | none => exact ⟨[], s.capConns, by rw [acceptLoop, List.append_nil], fun _ hc => absurd hc List.not_mem_nil, id⟩
    | accepted now made grown =>
      rw [acceptLoop]
      split
      · exact hskip
      · rename_i hcap
        split
        · -- the connection that is made now, then those of the answers left
          have hadd : ∀ cap', (s.conns.length ≤ s.capConns → s.conns.length + 1 ≤ cap') →
              ∃ new capConns, acceptLoop g l { s with conns := s.conns ++ [connCreate now l], capConns := cap' } rs =
                  { s with conns := s.conns ++ new, capConns } ∧
                (∀ c ∈ new, Fresh l (.accepted now made grown :: rs) c) ∧
                (Roomy g s → Roomy g
                  (acceptLoop g l { s with conns := s.conns ++ [connCreate now l], capConns := cap' } rs)) := by
            intro cap' hcap'
            obtain ⟨new, capConns, heq, hnew, hroomy⟩ :=
              ih { s with conns := s.conns ++ [connCreate now l], capConns := cap' }
            refine ⟨connCreate now l :: new, capConns, ?_, fun c hc => ?_, fun h => hroomy ⟨?_, ?_⟩⟩
            · rw [heq, List.append_assoc]
              rfl
            · cases hc with
              | head => exact ⟨now, made, grown, List.mem_cons_self, rfl⟩
              | tail _ hc => exact hlater (hnew c hc)
            · rw [List.length_append, List.length_singleton]
              omega
            · rw [List.length_append, List.length_singleton]
              exact hcap' h.room
          rw [serverAddConn]
          split
          · split
            · exact hadd _ fun h => by split <;> omega
            · exact hskip
          · exact hadd s.capConns fun h => by omega
        · exact hskip

/-- An accept loop that only runs when its listener is ready. -/
theorem acceptLoop_when (l : Listener) (rs : List AcceptRes) (s : HttpServer) (ready : Bool) :
    ∃ new capConns, (if ready then acceptLoop g l s rs else s) =
        { s with conns := s.conns ++ new, capConns } ∧
      (∀ c ∈ new, Fresh l rs c) ∧ (ready = false → new = []) ∧
      (Roomy g s → Roomy g (if ready then acceptLoop g l s rs else s)) := by
  cases ready with
  | false =>
    refine ⟨[], s.capConns, ?_, fun _ hc => absurd hc List.not_mem_nil, fun _ => rfl, id⟩
    rw [List.append_nil]
    rfl
  | true =>
    obtain ⟨new, capConns, heq, hnew, hroomy⟩ := acceptLoop_spec (g := g) l rs s
    exact ⟨new, capConns, heq, hnew, nofun, hroomy⟩

/-- What the accept loops of a call do. -/
theorem serveListeners_spec (s : HttpServer) (a : PollSet) (io : PollIo) (rc : Int) :
    ∃ new capConns, serveListeners g s a io rc = { s with conns := s.conns ++ new, capConns } ∧
      (∀ c ∈ new, Fresh (mainListener g) io.listenAccepts c ∨ Fresh .redirect io.redirectAccepts c) ∧
      (a.idxListen = none → a.idxRedirect = none → new = []) ∧
      (Roomy g s → Roomy g (serveListeners g s a io rc)) := by
  rw [serveListeners]
  split
  · dsimp only
    generalize hready : (fun idx => (a.revents io idx).pollin || (a.revents io idx).pollerr) = ready
    obtain ⟨new₁, cap₁, heq₁, hnew₁, hnone₁, hroomy₁⟩ :=
      acceptLoop_when (g := g) (mainListener g) io.listenAccepts s (a.idxListen.any ready)
    rw [heq₁] at hroomy₁ ⊢
    obtain ⟨new₂, cap₂, heq₂, hnew₂, hnone₂, hroomy₂⟩ := acceptLoop_when (g := g) .redirect
      io.redirectAccepts { s with conns := s.conns ++ new₁, capConns := cap₁ } (a.idxRedirect.any ready)
    refine ⟨new₁ ++ new₂, cap₂, ?_, fun c hc => ?_, fun hl hr => ?_, fun h => hroomy₂ (hroomy₁ h)⟩
    · rw [heq₂, List.append_assoc]
    · rcases List.mem_append.mp hc with hc | hc
      · exact .inl (hnew₁ c hc)
      · exact .inr (hnew₂ c hc)
    · rw [hnone₁ (by rw [hl]; rfl), hnone₂ (by rw [hr]; rfl)]
      rfl
  · exact ⟨[], s.capConns, by rw [List.append_nil], fun _ hc => absurd hc List.not_mem_nil,
      fun _ _ => rfl, id⟩

/-! ### One call

A call of `zcio_http_server_poll` has three outcomes: no memory, a failure of poll, or the
sequence of parts that serves everything. -/

/-- The server behind the service of its connections: each of the poll set after its iteration and
the sweep, and the new ones. -/
def servedState (g : PollCfg) (s : HttpServer) (io : PollIo) (rc : Int) (new : List Conn)
    (pollsetCap capConns : Nat) (h3 : Bool) : HttpServer :=
  { s with
    conns := (s.conns.mapIdx fun i c =>
      connSweep g.toLoopCfg io.nowMs (connProcess g.toLoopCfg c (io.seen rc i))) ++ new
    pollsetCap, capConns, h3 }

/-- What one call comes to, `s` being the server behind `begin_stop`. -/
inductive PollCases (g : PollCfg) (s : HttpServer) (timeoutMs : Int) (io : PollIo) :
    HttpServer × PollRet → Prop
  | noMemory : io.pollsetGrown = false → PollCases g s timeoutMs io (s, .failed)
  | failed (cap : Nat) : io.rc (pollTimeout g s timeoutMs io) < 0 →
      PollCases g s timeoutMs io ({ s with pollsetCap := cap }, .failed)
  | served (new : List Conn) (cap capConns : Nat) (h3 : Bool) :
      0 ≤ io.rc (pollTimeout g s timeoutMs io) →
      (∀ c ∈ new, Fresh (mainListener g) io.listenAccepts c ∨ Fresh .redirect io.redirectAccepts c) →
      (s.listening = false → s.redirecting = false → new = []) →
      (Roomy g s → (s.conns ++ new).length ≤ g.maxConnections ∧ (s.conns ++ new).length ≤ capConns) →
      (h3 = true → s.h3 = true) →
      PollCases g s timeoutMs io
        (finishPoll (servedState g s io (io.rc (pollTimeout g s timeoutMs io)) new cap capConns h3) io)

theorem pollTimeout_pollsetCap (s : HttpServer) (cap : Nat) (timeoutMs : Int) (io : PollIo) :
    pollTimeout g { s with pollsetCap := cap } timeoutMs io = pollTimeout g s timeoutMs io := rfl

theorem serveConns_eq (s : HttpServer) (new : List Conn) (cap capConns : Nat) (h3 : Bool) (io : PollIo)
    (rc : Int) :
    serveConns g { s with conns := s.conns ++ new, pollsetCap := cap, capConns, h3 } s.conns.length
      (pollSet s) io rc = servedState g s io rc new cap capConns h3 := by
  have hserved : ((s.conns.mapIdx fun i c => connProcess g.toLoopCfg c (connIo (pollSet s) io rc i)).map
      (connSweep g.toLoopCfg io.nowMs)) = s.conns.mapIdx fun i c =>
        connSweep g.toLoopCfg io.nowMs (connProcess g.toLoopCfg c (io.seen rc i)) := by
    refine List.ext_getElem? fun i => ?_
    rw [List.getElem?_map, List.getElem?_mapIdx, List.getElem?_mapIdx]
    cases hi : s.conns[i]? with
    | none => rfl
    | some c =>
      obtain ⟨hlt, -⟩ := List.getElem?_eq_some_iff.mp hi
      rw [Option.map_some, Option.map_some, Option.map_some, connIo_pollSet s io rc hlt]
  simp only [serveConns, servedState, List.take_left, List.drop_left, hserved]

/-- **What one call does.** -/
theorem zcioHttpServerPoll_cases {s : HttpServer} (hs : s.stopped = false) (timeoutMs : Int) (io : PollIo) :
    PollCases g (stopIfAsked g s io) timeoutMs io (zcioHttpServerPoll g s timeoutMs io) := by
  rw [zcioHttpServerPoll, hs, if_neg Bool.false_ne_true]
  dsimp only
  generalize stopIfAsked g s io = s
  -- no memory for the set of descriptors
  cases hcap : ensurePollset s.pollsetCap (s.conns.length + 4) io.pollsetGrown with
  | none =>
    refine .noMemory ?_
    rw [ensurePollset] at hcap
    cases hgrown : io.pollsetGrown with
    | false => rfl
    | true =>
      rw [hgrown] at hcap
      split at hcap <;> cases hcap
  | some cap =>
    dsimp only
    rw [pollTimeout_pollsetCap]
    -- poll itself failed
    split
    · rename_i hrc
      exact .failed cap hrc
    · rename_i hrc
      -- the listeners come first; what they accepted stands behind the old connections
      obtain ⟨new, capConns, heq, hnew, hnone, hroomy⟩ := serveListeners_spec (g := g)
        { s with pollsetCap := cap } (pollSet s) io (io.rc (pollTimeout g s timeoutMs io))
      have hset : pollSet { s with pollsetCap := cap } = pollSet s := rfl
      rw [hset, heq]
      -- without a listener nothing is accepted
      have hquiet : s.listening = false → s.redirecting = false → new = [] := by
        intro hl hr
        refine hnone ?_ ?_
        · show (specialSet s).idxListen = none
          simp [specialSet, hl, hr]
          cases s.h3 <;> rfl
        · show (specialSet s).idxRedirect = none
          simp [specialSet, hl, hr]
          cases s.h3 <;> rfl
      have hroom : Roomy g s →
          (s.conns ++ new).length ≤ g.maxConnections ∧ (s.conns ++ new).length ≤ capConns := by
        intro h
        have hafter := hroomy ⟨h.cap, h.room⟩
        rw [heq] at hafter
        exact ⟨hafter.cap, hafter.room⟩
      have hrc : 0 ≤ io.rc (pollTimeout g s timeoutMs io) := Int.not_lt.mp hrc
      -- the wakeup of HTTP/3, then the connections in their order
      split
      · have := serveConns_eq (g := g) s new cap capConns false io (io.rc (pollTimeout g s timeoutMs io))
        rw [this]
        exact .served new cap capConns false hrc hnew hquiet hroom nofun
      · have := serveConns_eq (g := g) s new cap capConns s.h3 io (io.rc (pollTimeout g s timeoutMs io))
        rw [this]
        exact .served new cap capConns s.h3 hrc hnew hquiet hroom id

/-! ### A run of the server is a run of each connection

The other connections, the listeners and the set are all that a run of the server adds, and
none of it is seen by a connection. -/

/-- The life of a server, in which the iterations of all connections satisfy `ok`: calls of
`zcio_http_server_poll` with any timeouts, whatever the outside world does in them, and
`zcio_http_server_stop` at any time. -/
inductive ServerRun (g : PollCfg) (ok : Conn → ConnIo → Prop) : HttpServer → Prop
  | start (redirecting h3 : Bool) : ServerRun g ok (zcioHttpServerStart redirecting h3)
  | stop {s : HttpServer} : ServerRun g ok s → ServerRun g ok (zcioHttpServerStop s)
  | poll {s : HttpServer} (timeoutMs : Int) (io : PollIo) : ServerRun g ok s →
      (∀ rc i c, (stopIfAsked g s io).conns[i]? = some c → ok c (io.seen rc i)) →
      ServerRun g ok (zcioHttpServerPoll g s timeoutMs io).1

/-- What holds of a server between two calls. -/
structure ServerInv (g : PollCfg) (ok : Conn → ConnIo → Prop) (s : HttpServer) : Prop where
  live : ∀ c ∈ s.conns, LoopRun g.toLoopCfg ok c ∧ c.dead = false
  gone : ∀ c ∈ s.closed, LoopRun g.toLoopCfg ok c ∧ c.dead = true
  roomy : Roomy g s
  shut : s.stopping = true → s.listening = false ∧ s.redirecting = false
  drained : s.stopped = true → s.stopping = true ∧ s.conns = []

section Invariant

variable {ok : Conn → ConnIo → Prop} {s : HttpServer}

theorem dead_connBeginStop (c : Conn) : (connBeginStop c).dead = c.dead := by
  rw [connBeginStop]
  cases c.proto <;> rfl

theorem ServerInv.stopIfAsked (h : ServerInv g ok s) (io : PollIo) : ServerInv g ok (stopIfAsked g s io) := by
  rw [Zcio.stopIfAsked]
  split
  · rename_i hasked
    rw [Bool.and_eq_true, Bool.not_eq_true'] at hasked
    refine ⟨fun c hc => ?_, h.gone, ⟨?_, ?_⟩, fun _ => ⟨rfl, rfl⟩, fun hstopped => ?_⟩
    · obtain ⟨c₀, hc₀, rfl⟩ := List.mem_map.mp hc
      obtain ⟨hrun, halive⟩ := h.live c₀ hc₀
      exact ⟨.stop hrun halive, (dead_connBeginStop c₀).trans halive⟩
    · rw [beginStop, List.length_map]
      exact h.roomy.cap
    · rw [beginStop, List.length_map]
      exact h.roomy.room
    · have hstopping := (h.drained hstopped).1
      rw [hasked.2] at hstopping
      cases hstopping
  · exact h

theorem loopRun_drainConn {c : Conn} (h : LoopRun g.toLoopCfg ok c) (s : HttpServer) (now : Nat) :
    LoopRun g.toLoopCfg ok (drainConn s now c) := by
  have hdrained : LoopRun g.toLoopCfg ok (if connDrained c then { c with dead := true } else c) := by
    split
    · rename_i hd
      exact .drained h hd
    · exact h
  rw [drainConn]
  split
  · exact .drainDeadline hdrained
  · exact hdrained

/-- The drain bookkeeping and the removal of the dead. -/
theorem finishPoll_inv {s : HttpServer} (io : PollIo) (hlive : ∀ c ∈ s.conns, LoopRun g.toLoopCfg ok c)
    (hgone : ∀ c ∈ s.closed, LoopRun g.toLoopCfg ok c ∧ c.dead = true) (hroomy : Roomy g s)
    (hshut : s.stopping = true → s.listening = false ∧ s.redirecting = false) (hstopped : s.stopped = false) :
    ServerInv g ok (finishPoll s io).1 := by
  rw [finishPoll]
  -- a drain marks connections dead at its deadline, and moves nothing else
  generalize hb : (if s.stopping then { s with conns := s.conns.map (drainConn s io.nowMs) } else s) = b
  have hbook : (∀ c ∈ b.conns, LoopRun g.toLoopCfg ok c) ∧ b.conns.length = s.conns.length ∧
      b = { s with conns := b.conns } := by
    subst hb
    split
    · refine ⟨fun c hc => ?_, List.length_map _, rfl⟩
      obtain ⟨c₀, hc₀, rfl⟩ := List.mem_map.mp hc
      exact loopRun_drainConn (hlive c₀ hc₀) s io.nowMs
    · exact ⟨hlive, rfl, rfl⟩
  obtain ⟨hruns, hlen, heq⟩ := hbook
  rw [heq]
  -- the dead are removed, each with its own run
  have hleft : (b.conns.filter fun c => !c.dead).length ≤ s.conns.length :=
    (List.length_filter_le _ _).trans hlen.le
  have halive : ∀ c ∈ b.conns.filter fun c => !c.dead, LoopRun g.toLoopCfg ok c ∧ c.dead = false := by
    intro c hc
    obtain ⟨hc, hdead⟩ := List.mem_filter.mp hc
    exact ⟨hruns c hc, by simpa using hdead⟩
  have hclosed : ∀ c ∈ s.closed ++ b.conns.filter Conn.dead, LoopRun g.toLoopCfg ok c ∧ c.dead = true := by
    intro c hc
    rcases List.mem_append.mp hc with hc | hc
    · exact hgone c hc
    · obtain ⟨hc, hdead⟩ := List.mem_filter.mp hc
      exact ⟨hruns c hc, hdead⟩
  have hroom : Roomy g (serverRemoveDead { s with conns := b.conns }) :=
    ⟨hleft.trans hroomy.cap, hleft.trans hroomy.room⟩
  -- with nothing left behind a stop, the server is done
  split
  · rename_i hdone
    simp only [Bool.and_eq_true] at hdone
    refine ⟨halive, hclosed, ⟨hroom.cap, hroom.room⟩, hshut, fun _ => ⟨hdone.1.1, ?_⟩⟩
    exact List.isEmpty_iff.mp hdone.1.2
  · refine ⟨halive, hclosed, hroom, hshut, fun h => ?_⟩
    have h : s.stopped = true := h
    rw [hstopped] at h
    cases h

theorem Fresh.loopRun {l : Listener} {rs : List AcceptRes} {c : Conn} (h : Fresh l rs c) :
    LoopRun g.toLoopCfg ok c := by
  obtain ⟨now, -, -, -, rfl⟩ := h
  exact .accepted now l

/-- One call keeps the invariant. -/
theorem ServerInv.poll (h : ServerInv g ok s) (timeoutMs : Int) (io : PollIo)
    (hok : ∀ rc i c, (Zcio.stopIfAsked g s io).conns[i]? = some c → ok c (io.seen rc i)) :
    ServerInv g ok (zcioHttpServerPoll g s timeoutMs io).1 := by
  cases hs : s.stopped with
  | true =>
    rw [zcioHttpServerPoll, hs]
    exact h
  | false =>
    have hstop := h.stopIfAsked io
    have hstopped : (Zcio.stopIfAsked g s io).stopped = false := by
      rw [Zcio.stopIfAsked]
      split <;> exact hs
    generalize hpoll : zcioHttpServerPoll g s timeoutMs io = res
    have hcases := zcioHttpServerPoll_cases (g := g) hs timeoutMs io
    rw [hpoll] at hcases
    generalize Zcio.stopIfAsked g s io = s₁ at hcases hstop hok hstopped
    cases hcases with
    | noMemory => exact hstop
    | failed cap _ => exact ⟨hstop.live, hstop.gone, ⟨hstop.roomy.cap, hstop.roomy.room⟩, hstop.shut, hstop.drained⟩
    | served new cap capConns h3 hrc hnew hquiet hroomy _ =>
      refine finishPoll_inv io (fun c hc => ?_) hstop.gone ?_ hstop.shut hstopped
      · rcases List.mem_append.mp hc with hc | hc
        · -- an iteration of its own and the sweep
          obtain ⟨i, hi, rfl⟩ := List.mem_mapIdx.mp hc
          obtain ⟨hrun, halive⟩ := hstop.live s₁.conns[i] (List.getElem_mem hi)
          exact .sweep io.nowMs (.process _ hrun halive (hok _ i _ (List.getElem?_eq_getElem hi)))
        · rcases hnew c hc with hfresh | hfresh <;> exact hfresh.loopRun
      · obtain ⟨hcap, hroom⟩ := hroomy hstop.roomy
        rw [List.length_append] at hcap hroom
        refine ⟨?_, ?_⟩ <;> simpa [servedState] using ‹_›

theorem serverRun_inv (h : ServerRun g ok s) : ServerInv g ok s := by
  induction h with
  | start redirecting h3 =>
    exact ⟨fun _ hc => absurd hc List.not_mem_nil, fun _ hc => absurd hc List.not_mem_nil,
      ⟨Nat.zero_le _, Nat.zero_le _⟩, nofun, nofun⟩
  | stop _ ih => exact ⟨ih.live, ih.gone, ⟨ih.roomy.cap, ih.roomy.room⟩, ih.shut, ih.drained⟩
  | poll timeoutMs io _ hok ih => exact ih.poll timeoutMs io hok

/-- **The server is its connections.** In every run each connection the server holds, and each one
it has closed, is in a state that a run of this connection alone leads to, in which it only sees
the events of its own descriptor. There are never more of them than the cap, a stopping server
has no listeners, and a stopped one no connections. -/
theorem serverRun_conns (h : ServerRun g ok s) : ServerInv g ok s := serverRun_inv h

end Invariant

/-- A server over `silentLoop` that holds one connection. -/
def silentPoll : PollCfg := { silentLoop with maxConnections := 1 }

/-- Two peers are waiting at the listener. -/
def twoWaiting : PollIo where
  rc := fun _ => 1
  reports := fun fd => if fd = .listen then { pollin := true } else {}
  listenAccepts := [.interrupted, .accepted 5 true true, .accepted 6 true true]

/-- The second peer is over the cap. -/
theorem serverRun_conns_twoWaiting :
    ∃ s, ServerRun silentPoll AnyIo s ∧ s.conns = [connCreate 5 .plain] ∧ s.stopFlag = true ∧
      ServerInv silentPoll AnyIo s := by
  have hrun : ServerRun silentPoll AnyIo
      (zcioHttpServerStop (zcioHttpServerPoll silentPoll (zcioHttpServerStart false false) 0 twoWaiting).1) :=
    .stop (.poll 0 twoWaiting (.start false false) fun _ _ _ _ => trivial)
  exact ⟨_, hrun, by decide +kernel, rfl, serverRun_conns hrun⟩

/-! ### Deadlines

The timeout of poll is the time up to the first deadline of any connection, so that no
deadline is passed while the server sleeps. -/

section Deadlines

variable {s : HttpServer}

theorem minDeadline_le (a b : Option Nat) :
    (∀ d, a = some d → ∃ m ≤ d, minDeadline a b = some m) ∧
      (∀ d, b = some d → ∃ m ≤ d, minDeadline a b = some m) := by
  cases a <;> cases b <;> refine ⟨fun d h => ?_, fun d h => ?_⟩ <;> cases h <;>
    first
    | exact ⟨_, Nat.le_refl _, rfl⟩
    | exact ⟨_, Nat.min_le_left _ _, rfl⟩
    | exact ⟨_, Nat.min_le_right _ _, rfl⟩

theorem foldl_minDeadline (cs : List Conn) (f : Conn → Option Nat) (acc : Option Nat) :
    (∀ d, acc = some d → ∃ m ≤ d, cs.foldl (fun dl c => minDeadline dl (f c)) acc = some m) ∧
      ∀ c ∈ cs, ∀ d, f c = some d →
        ∃ m ≤ d, cs.foldl (fun dl c => minDeadline dl (f c)) acc = some m := by
  induction cs generalizing acc with
  | nil => exact ⟨fun d h => ⟨d, Nat.le_refl d, h⟩, fun _ hc => absurd hc List.not_mem_nil⟩
  | cons c cs ih =>
    obtain ⟨hacc, hlater⟩ := ih (minDeadline acc (f c))
    have hfirst : ∀ d, (∃ m ≤ d, minDeadline acc (f c) = some m) →
        ∃ m ≤ d, cs.foldl (fun dl c => minDeadline dl (f c)) (minDeadline acc (f c)) = some m := by
      rintro d ⟨m, hm, heq⟩
      obtain ⟨m', hm', heq'⟩ := hacc m heq
      exact ⟨m', hm'.trans hm, heq'⟩
    refine ⟨fun d h => hfirst d ((minDeadline_le acc (f c)).1 d h), fun c' hc' d h => ?_⟩
    cases hc' with
    | head => exact hfirst d ((minDeadline_le acc (f c)).2 d h)
    | tail _ hc' => exact hlater c' hc' d h

/-- The earliest deadline is none of a connection's, nor the drain's, later one. -/
theorem earliestDeadline_le (s : HttpServer) :
    (∀ c ∈ s.conns, ∀ d, connDeadlineMs g.toLoopCfg c = some d →
      ∃ m ≤ d, earliestDeadline g s = some m) ∧
    (s.stopping = true → ∃ m ≤ s.drainDeadlineMs, earliestDeadline g s = some m) := by
  rw [earliestDeadline]
  refine ⟨fun c hc d hd => ?_, fun hstop => ?_⟩
  · obtain ⟨m, hm, heq⟩ := (foldl_minDeadline s.conns (connDeadlineMs g.toLoopCfg) none).2 c hc d hd
    split
    · obtain ⟨m', hm', heq'⟩ := (minDeadline_le _ (some s.drainDeadlineMs)).1 m heq
      exact ⟨m', hm'.trans hm, heq'⟩
    · exact ⟨m, hm, heq⟩
  · rw [if_pos hstop]
    exact (minDeadline_le _ _).2 _ rfl

theorem toMin_cand {cur cand : Int} (h : 0 ≤ cand) : 0 ≤ toMin cur cand ∧ toMin cur cand ≤ cand := by
  rw [toMin]
  split_ifs <;> omega

theorem toMin_cur {cur cand : Int} (h : 0 ≤ cur) : 0 ≤ toMin cur cand ∧ toMin cur cand ≤ cur := by
  rw [toMin]
  split_ifs <;> omega

/-- **No wait passes a deadline**: that of a connection or that of the drain. -/
theorem pollTimeout_le (s : HttpServer) (timeoutMs : Int) (io : PollIo) {d m : Nat}
    (hm : earliestDeadline g s = some m) (hd : m ≤ d) :
    0 ≤ pollTimeout g s timeoutMs io ∧ pollTimeout g s timeoutMs io ≤ (d - io.waitMs : Nat) := by
  rw [pollTimeout, hm]
  dsimp only
  generalize hcand : min ((m - io.waitMs : Nat) : Int) (2 ^ 31 - 1) = cand
  obtain ⟨hpos, hle⟩ := @toMin_cand timeoutMs cand (by omega)
  have hwait : toMin timeoutMs cand ≤ (d - io.waitMs : Nat) := by omega
  split
  · obtain ⟨hpos', hle'⟩ := @toMin_cur _ io.h3TimeoutMs hpos
    exact ⟨hpos', hle'.trans hwait⟩
  · exact ⟨hpos, hwait⟩

/-- Connections are accepted behind the wait. -/
structure PollIo.Clocked (io : PollIo) : Prop where
  listen : ∀ now made grown, AcceptRes.accepted now made grown ∈ io.listenAccepts → io.nowMs ≤ now
  redirect : ∀ now made grown, AcceptRes.accepted now made grown ∈ io.redirectAccepts → io.nowMs ≤ now

theorem connDeadlineMs_connSweep (g : LoopCfg) (now : Nat) (c : Conn) {d : Nat}
    (hd : connDeadlineMs g (connSweep g now c) = some d) : now < d := by
  rw [connSweep] at hd
  split at hd
  · rw [connDeadlineMs, if_pos rfl] at hd
    cases hd
  · rename_i hany
    rw [hd] at hany
    simpa using hany

/-- A new connection has all its time. -/
theorem connDeadlineMs_connCreate (g : LoopCfg) (hheader : 0 < g.headerTimeoutMs) (hidle : 0 < g.idleTimeoutMs)
    (now : Nat) (l : Listener) {d : Nat} (hd : connDeadlineMs g (connCreate now l) = some d) : now < d := by
  have hcreated : now < now + g.headerTimeoutMs := Nat.lt_add_of_pos_right hheader
  have hactive : now < now + g.idleTimeoutMs := Nat.lt_add_of_pos_right hidle
  cases l with
  | plain =>
    have hd : some (now + g.headerTimeoutMs) = some d := hd
    cases hd
    exact hcreated
  | tls =>
    have hd : some (now + g.headerTimeoutMs) = some d := hd
    cases hd
    exact hcreated
  | redirect =>
    have hd : some (now + g.idleTimeoutMs) = some d := hd
    cases hd
    exact hactive

theorem drainConn_alive {now : Nat} {c : Conn} (h : (drainConn s now c).dead = false) : drainConn s now c = c := by
  rw [drainConn] at h ⊢
  split at h
  · cases h
  · rename_i hnow
    rw [if_neg hnow]
    split at h
    · cases h
    · rename_i hd
      rw [if_neg hd]

/-- The connections a call leaves were there in front of the drain bookkeeping. -/
theorem mem_finishPoll {s : HttpServer} {io : PollIo} {c : Conn} (hc : c ∈ (finishPoll s io).1.conns) :
    c ∈ s.conns ∧ c.dead = false := by
  rw [finishPoll] at hc
  generalize hb : (if s.stopping then { s with conns := s.conns.map (drainConn s io.nowMs) } else s) = b at hc
  have hc : c ∈ b.conns.filter fun c => !c.dead := by
    revert hc
    split <;> exact id
  obtain ⟨hc, hdead⟩ := List.mem_filter.mp hc
  rw [Bool.not_eq_true'] at hdead
  refine ⟨?_, hdead⟩
  revert hc
  subst hb
  split
  · intro hc
    obtain ⟨c₀, hc₀, rfl⟩ := List.mem_map.mp hc
    rw [drainConn_alive hdead]
    exact hc₀
  · exact id

/-- **No wait passes a deadline**, whosever it is. -/
theorem pollTimeout_deadline {s : HttpServer} (timeoutMs : Int) (io : PollIo) {d : Nat}
    (hdeadline : (∃ c ∈ s.conns, connDeadlineMs g.toLoopCfg c = some d) ∨ (s.stopping = true ∧ d = s.drainDeadlineMs)) :
    0 ≤ pollTimeout g s timeoutMs io ∧ pollTimeout g s timeoutMs io ≤ (d - io.waitMs : Nat) := by
  obtain ⟨hconns, hdrain⟩ := earliestDeadline_le (g := g) s
  rcases hdeadline with ⟨c, hc, hd⟩ | ⟨hstop, rfl⟩
  · obtain ⟨m, hm, heq⟩ := hconns c hc d hd
    exact pollTimeout_le _ timeoutMs io heq hm
  · obtain ⟨m, hm, heq⟩ := hdrain hstop
    exact pollTimeout_le _ timeoutMs io heq hm

/-- **Deadlines are kept.** In every call each wait ends by the earliest deadline there is, and no
connection the call leaves is past its deadline: whatever became of it in the call, the time it
has left is counted from now on. -/
theorem poll_deadlines (hheader : 0 < g.headerTimeoutMs) (hidle : 0 < g.idleTimeoutMs)
    (hs : s.stopped = false) (timeoutMs : Int) (io : PollIo) (hclock : io.Clocked) :
    ((zcioHttpServerPoll g s timeoutMs io).2 ≠ .failed →
      ∀ c ∈ (zcioHttpServerPoll g s timeoutMs io).1.conns, ∀ d,
        connDeadlineMs g.toLoopCfg c = some d → io.nowMs < d) ∧
    ∀ d, (∃ c ∈ (stopIfAsked g s io).conns, connDeadlineMs g.toLoopCfg c = some d) ∨
        ((stopIfAsked g s io).stopping = true ∧ d = (stopIfAsked g s io).drainDeadlineMs) →
      0 ≤ pollTimeout g (stopIfAsked g s io) timeoutMs io ∧
        pollTimeout g (stopIfAsked g s io) timeoutMs io ≤ (d - io.waitMs : Nat) := by
  refine ⟨fun hret c hc d hd => ?_, fun d hdeadline => ?_⟩
  · have hcases := zcioHttpServerPoll_cases (g := g) hs timeoutMs io
    generalize zcioHttpServerPoll g s timeoutMs io = res at hret hc hcases
    cases hcases with
    | noMemory => exact absurd rfl hret
    | failed => exact absurd rfl hret
    | served new cap capConns h3 _ hnew _ _ _ =>
      rcases List.mem_append.mp (mem_finishPoll hc).1 with hc | hc
      · -- the sweep has looked at it
        obtain ⟨i, hi, rfl⟩ := List.mem_mapIdx.mp hc
        exact connDeadlineMs_connSweep g.toLoopCfg io.nowMs _ hd
      · have hnow {l : Listener} {rs : List AcceptRes} (hfresh : Fresh l rs c)
            (hlater : ∀ now made grown, AcceptRes.accepted now made grown ∈ rs → io.nowMs ≤ now) :
            io.nowMs < d := by
          obtain ⟨now, made, grown, hmem, rfl⟩ := hfresh
          exact (hlater now made grown hmem).trans_lt
            (connDeadlineMs_connCreate g.toLoopCfg hheader hidle now l hd)
        rcases hnew c hc with hfresh | hfresh
        · exact hnow hfresh hclock.listen
        · exact hnow hfresh hclock.redirect
  · exact pollTimeout_deadline timeoutMs io hdeadline

/-- A connection that was accepted at time 5 waits for its first octets. -/
theorem poll_deadlines_waiting :
    pollTimeout silentPoll { conns := [connCreate 5 .plain] } (-1) { waitMs := 1000 } ≤ 9005 := by
  have hwait := (poll_deadlines (g := silentPoll) (s := { conns := [connCreate 5 .plain] }) (by decide)
    (by decide) rfl (-1) { waitMs := 1000 } ⟨nofun, nofun⟩).2 10005
    (.inl ⟨connCreate 5 .plain, List.mem_singleton.mpr rfl, rfl⟩)
  exact hwait.2

/-- **The loop wakes in time.** However often `poll` is interrupted: no wait of `zcio_poll_` ends more
than a millisecond behind the earliest deadline, on top of how late the kernel is. -/
theorem poll_wakes {φ : Type} (s : HttpServer) (timeoutMs : Int) (io : PollIo) (fds : φ)
    {calls : List (Lib.Interruptible (Int × φ))} {slack : Nat}
    (hcalls : ∀ c ∈ calls, Lib.Punctual NS_PER_MS slack (fun r => r.1 = 0) c) {ns : Nat} (hclock : zcioNowMsAt ns = io.waitMs)
    {d : Nat} (hdeadline : (∃ c ∈ (stopIfAsked g s io).conns, connDeadlineMs g.toLoopCfg c = some d) ∨
        ((stopIfAsked g s io).stopping = true ∧ d = (stopIfAsked g s io).drainDeadlineMs)) :
    (zcioPoll fds (pollTimeout g (stopIfAsked g s io) timeoutMs io) calls ns).time <
      (max d io.waitMs + 1) * NS_PER_MS + slack := by
  obtain ⟨hpos, hle⟩ := pollTimeout_deadline timeoutMs io hdeadline
  have hstart : ns / NS_PER_MS = io.waitMs := (zcioNowMsAt_eq ns).symm.trans hclock
  rw [zcioPoll, waitDeadline_of_nonneg hpos, hstart]
  refine (Lib.retry_before (show 0 < NS_PER_MS by decide) hcalls (hstart.le.trans (Nat.le_add_right _ _))).trans_le ?_
  refine Nat.add_le_add_right (Nat.mul_le_mul_right _ ?_) _
  omega

/-- The connection of before, and a signal every 4 seconds. -/
theorem poll_wakes_signals :
    (zcioPoll () (pollTimeout silentPoll (stopIfAsked silentPoll { conns := [connCreate 5 .plain] } { waitMs := 1000 }) (-1)
      { waitMs := 1000 }) (List.replicate 5 fun ms => (none, min 4000000000 (ms.getD 0 * NS_PER_MS))) 1000000000).time <
      10006000000 := by
  refine (@poll_wakes silentPoll Unit { conns := [connCreate 5 .plain] } (-1) { waitMs := 1000 } () _ 0 (fun c hc => ?_)
    1000000000 (by decide) 10005 (.inl ⟨connCreate 5 .plain, List.mem_singleton.mpr rfl, rfl⟩)).trans_le (by decide)
  obtain ⟨-, rfl⟩ := List.mem_replicate.mp hc
  exact ⟨fun n => by simp, fun n r hr => by cases hr⟩

end Deadlines

/-! ### What is queued is sent

A connection with output waiting is not closed by the server, apart from failures and the
ends of a drain. -/

/-- A connection that was closed with octets still queued is one whose write failed or whose time
was up. -/
def Conn.Flushed (c : Conn) : Prop :=
  c.dead = true → c.writeFailed = true ∨ c.expired = true ∨ c.outPending = false

section Flushed

variable {g : LoopCfg} {ok : Conn → ConnIo → Prop} {c : Conn}

theorem Conn.flushed_of_alive (h : c.dead = false) : c.Flushed := fun hdead => by
  rw [h] at hdead
  cases hdead

theorem outPending_unknown (h : c.proto = .unknown) : c.outPending = false := by
  rw [Conn.outPending, h]
  rfl

/-- The feed closes a connection that is handed over, which it has flushed, or one it speaks no
protocol with. -/
theorem outPending_connFeed (halive : c.dead = false) (hdead : (connFeed g c).dead = true) :
    (connFeed g c).outPending = false := by
  have hcases := connFeedPre_cases (g := g) halive
  rw [connFeed] at hdead ⊢
  generalize connFeedPre g c = b at hcases hdead ⊢
  cases hcases with
  | undecided hp =>
    rw [connPump, hp] at hdead ⊢
    exact outPending_unknown hp
  | refused hp =>
    have hpump : connPump g { c with dead := true } = { c with dead := true } := by
      rw [connPump]
      dsimp only
      rw [hp]
    rw [hpump]
    exact outPending_unknown hp
  | h1 =>
    have hdead : c.dead = true := hdead
    rw [halive] at hdead
    cases hdead
  | h1Close =>
    have hdead : c.dead = true := hdead
    rw [halive] at hdead
    cases hdead
  | h1Detached =>
    rename_i h _ _
    show decide (0 < ((zh1Feed (g.h1 c) h c.inp).c.out.consume _).avail) = false
    rw [ZhsBuf.avail, ZhsBuf.rd_consume, List.length_drop, ZhsBuf.avail]
    simp
  | h2 =>
    have hdead : c.dead = true := hdead
    rw [halive] at hdead
    cases hdead

theorem dead_connUpdateHeadTiming (c : Conn) (now : Nat) : (connUpdateHeadTiming c now).dead = c.dead := by
  rw [connUpdateHeadTiming]
  split
  · split
    · split <;> rfl
    · rfl
  · rfl

theorem dead_connPump (c : Conn) : (connPump g c).dead = c.dead := by
  rw [connPump]
  split <;> rfl

/-- An iteration leaves nothing queued behind a close, unless a write failed. -/
theorem flushed_connProcess (hinv : ConnInv g c) (halive : c.dead = false) (io : ConnIo) :
    (connProcess g c io).Flushed := by
  by_cases hoff : (connInput g c io).dead = true ∨ (connInput g c io).tlsPending = true
  · -- no protocol is chosen
    have hproto := connInput_unfed hinv halive io hoff
    rw [connProcess_unfed (connBehindFeed_eq_none.mpr hoff) hproto]
    obtain ⟨d, w, heq, -⟩ := connCloseDecision_eq (connInput g c io)
    rw [heq]
    exact fun _ => .inr (.inr (outPending_unknown hproto))
  · rw [not_or, Bool.not_eq_true, Bool.not_eq_true] at hoff
    obtain ⟨halive₁, htls₁⟩ := hoff
    have hfeed := outPending_connFeed (g := g) halive₁
    have hgo : (!(connInput g c io).dead && !(connInput g c io).tlsPending) = true := by
      rw [halive₁, htls₁]
      rfl
    unfold connProcess
    dsimp only
    rw [if_pos hgo]
    have htiming := proto_connUpdateHeadTiming (connFeed g (connInput g c io)) io.now
    have hdead := dead_connUpdateHeadTiming (connFeed g (connInput g c io)) io.now
    generalize connUpdateHeadTiming (connFeed g (connInput g c io)) io.now = b at htiming hdead ⊢
    cases hb : b.dead with
    | true =>
      have hpump : (if (!true && io.pollout) = true then connPump g b else b) = b := if_neg (by simp)
      rw [hpump, hb, if_neg (by simp)]
      obtain ⟨d, w, heq, -⟩ := connCloseDecision_eq b
      rw [heq]
      refine fun _ => .inr (.inr ?_)
      rw [← hfeed (hdead.symm.trans hb)]
      show b.outPending = _
      rw [Conn.outPending, Conn.outPending, htiming]
    | false =>
      -- behind a flush only a failed write has closed it, and the close decision waits for the queue
      generalize hp : (if (!false && io.pollout) = true then connPump g b else b) = p
      have hpalive : p.dead = false := by
        subst hp
        split
        · rw [dead_connPump]
          exact hb
        · exact hb
      rw [hpalive, Bool.not_false, Bool.true_and]
      generalize hf : (if p.outPending = true then connFlush io.now p io.writes else p) = f
      have hfailed : f.dead = true → f.writeFailed = true := by
        subst hf
        split
        · obtain ⟨o, t, a, failed, -, heq⟩ := connFlush_eq io.now p io.writes
          rw [heq]
          intro h
          have h : (p.dead || failed) = true := h
          rw [hpalive, Bool.false_or] at h
          show (p.writeFailed || failed) = true
          rw [h, Bool.or_true]
        · rw [hpalive]
          exact nofun
      obtain ⟨d, w, heq, -, hwhy, -⟩ := connCloseDecision_eq f
      rw [heq]
      intro h
      rcases hwhy h with h | ⟨h, -⟩
      · exact .inl (hfailed h)
      · exact .inr (.inr h)

/-- **What is queued is sent.** A connection that a run has closed was handed all its output to the
transport, unless a write failed or a deadline had passed. -/
theorem LoopRun.flushed (h : LoopRun g ok c) : c.Flushed := by
  induction h with
  | accepted now l => exact Conn.flushed_of_alive (by cases l <;> rfl)
  | process io hrun halive _ _ => exact flushed_connProcess hrun.inv.1 halive io
  | stop _ halive _ => exact Conn.flushed_of_alive ((dead_connBeginStop _).trans halive)
  | sweep now _ ih =>
    rw [connSweep]
    split
    · exact fun _ => .inr (.inl rfl)
    · exact ih
  | @drained c _ hdrained _ =>
    refine fun _ => .inr (.inr ?_)
    cases hp : c.outPending with
    | false => exact hp
    | true =>
      rw [connDrained, if_pos hp] at hdrained
      cases hdrained
  | drainDeadline _ _ => exact fun _ => .inr (.inl rfl)

end Flushed

/-- **No queued octet is dropped by a close.** Whatever a server closes, by itself, on a stop or at
the end of the drain, had nothing queued any more, unless a write failed or a deadline had passed. What
an HTTP/2 stream has not framed yet is not queued. -/
theorem serverRun_flushed {ok : Conn → ConnIo → Prop} {s : HttpServer} (h : ServerRun g ok s) :
    ∀ c ∈ s.closed, c.writeFailed = false → c.expired = false → c.outPending = false := by
  intro c hc hwrite htime
  obtain ⟨hrun, hdead⟩ := (serverRun_inv h).gone c hc
  rcases hrun.flushed hdead with hfail | hlate | hsent
  · rw [hwrite] at hfail
    cases hfail
  · rw [htime] at hlate
    cases hlate
  · exact hsent

/-- The one connection reads the end of the stream. -/
def peerLeaves : PollIo where
  rc := fun _ => 1
  reports := fun fd => if fd = .conn 0 then { pollin := true } else {}
  conns := fun _ => { read := .octets ⟨[], by decide⟩ }

/-- The peer has left, and its connection was closed. -/
theorem serverRun_flushed_peerLeaves :
    ∃ s, ServerRun silentPoll AnyIo s ∧ s.closed.length = 1 ∧
      ∀ c ∈ s.closed, c.writeFailed = false → c.expired = false → c.outPending = false := by
  have hrun : ServerRun silentPoll AnyIo (zcioHttpServerPoll silentPoll
      (zcioHttpServerPoll silentPoll (zcioHttpServerStart false false) 0 twoWaiting).1 0 peerLeaves).1 :=
    .poll 0 peerLeaves (.poll 0 twoWaiting (.start false false) fun _ _ _ _ => trivial)
      fun _ _ _ _ => trivial
  exact ⟨_, hrun, by decide +kernel, serverRun_flushed hrun⟩

/-! ### The stop

Once a stop was asked for, calls of poll end at the drain deadline at the latest. -/

section Stop

variable {s : HttpServer}

theorem finishPoll_frame (s : HttpServer) (io : PollIo) :
    ∃ conns closed stopped, (finishPoll s io).1 = { s with conns, closed, stopped } ∧
      ((finishPoll s io).2 = .served ∧ stopped = s.stopped ∨ (finishPoll s io).2 = .eof) := by
  rw [finishPoll]
  split
  · split
    · exact ⟨_, _, true, rfl, .inr rfl⟩
    · exact ⟨_, _, s.stopped, rfl, .inl ⟨rfl, rfl⟩⟩
  · split
    · exact ⟨_, _, true, rfl, .inr rfl⟩
    · exact ⟨_, _, s.stopped, rfl, .inl ⟨rfl, rfl⟩⟩

/-- At the drain deadline every connection is closed. -/
theorem finishPoll_eof {s : HttpServer} {io : PollIo} (hstop : s.stopping = true)
    (hnow : s.drainDeadlineMs ≤ io.nowMs) (hidle : io.h3Idle = true) : (finishPoll s io).2 = .eof := by
  have hdead : ∀ c, (drainConn s io.nowMs c).dead = true := by
    intro c
    rw [drainConn, if_pos hnow]
  have hnone : ((s.conns.map (drainConn s io.nowMs)).filter fun c => !c.dead) = [] := by
    refine List.filter_eq_nil_iff.mpr fun c hc => ?_
    obtain ⟨c₀, -, rfl⟩ := List.mem_map.mp hc
    rw [hdead c₀]
    decide
  rw [finishPoll, if_pos hstop, serverRemoveDead]
  dsimp only
  rw [hnone, hstop, hidle, Bool.or_true]
  rfl

/-- Neither the poll set nor the wait fails in a call. -/
def PollIo.Works (io : PollIo) : Prop := io.pollsetGrown = true ∧ ∀ wait, 0 ≤ io.rc wait

/-- A call of a server that was told to stop: it fails, or the server has ended, or the drain goes on
towards the same deadline, which the call has not reached. -/
theorem poll_stopping (hs : s.stopped = false) (hstop : s.stopFlag = true) (timeoutMs : Int) (io : PollIo)
    {deadline : Nat} (hdeadline : deadline = if s.stopping then s.drainDeadlineMs else io.stopMs + g.drainTimeoutMs) :
    ((zcioHttpServerPoll g s timeoutMs io).2 = .failed ∧ ¬io.Works) ∨
      (zcioHttpServerPoll g s timeoutMs io).2 = .eof ∨
      ((zcioHttpServerPoll g s timeoutMs io).2 = .served ∧ ¬(deadline ≤ io.nowMs ∧ io.h3Idle = true) ∧
        (zcioHttpServerPoll g s timeoutMs io).1.stopFlag = true ∧
        (zcioHttpServerPoll g s timeoutMs io).1.stopping = true ∧
        (zcioHttpServerPoll g s timeoutMs io).1.drainDeadlineMs = deadline) := by
  -- the stop is noticed in front of the poll, and sets the deadline once
  have hbegun : (stopIfAsked g s io).stopFlag = true ∧ (stopIfAsked g s io).stopping = true ∧
      (stopIfAsked g s io).drainDeadlineMs = deadline := by
    rw [stopIfAsked, hstop, hdeadline]
    cases hstopping : s.stopping with
    | true => exact ⟨hstop, hstopping, rfl⟩
    | false => exact ⟨hstop, rfl, rfl⟩
  have hcases := zcioHttpServerPoll_cases (g := g) hs timeoutMs io
  generalize zcioHttpServerPoll g s timeoutMs io = res at hcases ⊢
  generalize stopIfAsked g s io = b at hbegun hcases
  obtain ⟨hflag, hstopping, hdrain⟩ := hbegun
  cases hcases with
  -- a call that fails does so because a call of the system did
  | noMemory hnot =>
    refine .inl ⟨rfl, fun hworks => ?_⟩
    rw [hworks.1] at hnot
    cases hnot
  | failed cap hneg => exact .inl ⟨rfl, fun hworks => absurd (hworks.2 _) (not_le.mpr hneg)⟩
  -- served: the last connection is gone, or the deadline is not over
  | served new cap capConns h3 _ _ _ _ _ =>
    obtain ⟨conns, closed, stopped, heq, hret⟩ :=
      finishPoll_frame (servedState g b io (io.rc (pollTimeout g b timeoutMs io)) new cap capConns h3) io
    rcases hret with ⟨hserved, -⟩ | heof
    · refine .inr (.inr ⟨hserved, ?_, ?_⟩)
      · rintro ⟨hnow, hidle⟩
        rw [← hdrain] at hnow
        have heof := finishPoll_eof (s := servedState g b io (io.rc (pollTimeout g b timeoutMs io)) new cap capConns h3)
          hstopping hnow hidle
        rw [hserved] at heof
        cases heof
      · rw [heq]
        exact ⟨hflag, hstopping, hdrain⟩
    · exact .inr (.inl heof)

/-- **A stop ends the loop.** Once `zcio_http_server_stop` was called, `zcio_http_server_run` returns
by the first call that reaches the drain deadline with HTTP/3 idle, whatever the peers do; and where
no call fails it returns `ZCIO_OK`. -/
theorem run_returns {s : HttpServer} (hstop : s.stopFlag = true) (ios : Nat → PollIo) (n : Nat)
    (hdeadline : (if s.stopping then s.drainDeadlineMs else (ios 0).stopMs + g.drainTimeoutMs) ≤ (ios n).nowMs)
    (hidle : (ios n).h3Idle = true) :
    ∃ ok, zcioHttpServerRun g (n + 1) s ios = some ok ∧ ((∀ k ≤ n, (ios k).Works) → ok = true) := by
  induction n generalizing s ios with
  | zero =>
    rw [zcioHttpServerRun]
    cases hs : s.stopped with
    | true =>
      rw [zcioHttpServerPoll, hs]
      exact ⟨true, rfl, fun _ => rfl⟩
    | false =>
      have hone := poll_stopping (g := g) hs hstop (-1) (ios 0) rfl
      generalize zcioHttpServerPoll g s (-1) (ios 0) = res at hone ⊢
      obtain ⟨s', ret⟩ := res
      rcases hone with ⟨hfailed, hnot⟩ | heof | ⟨-, hearly, -⟩
      · cases hfailed
        exact ⟨false, rfl, fun hworks => absurd (hworks 0 (Nat.le_refl 0)) hnot⟩
      · cases heof
        exact ⟨true, rfl, fun _ => rfl⟩
      · exact absurd ⟨hdeadline, hidle⟩ hearly
  | succ n ih =>
    rw [zcioHttpServerRun]
    cases hs : s.stopped with
    | true =>
      rw [zcioHttpServerPoll, hs]
      exact ⟨true, rfl, fun _ => rfl⟩
    | false =>
      have hone := poll_stopping (g := g) hs hstop (-1) (ios 0) rfl
      generalize zcioHttpServerPoll g s (-1) (ios 0) = res at hone ⊢
      obtain ⟨s', ret⟩ := res
      rcases hone with ⟨hfailed, hnot⟩ | heof | ⟨hserved, -, hflag, hstopping, hdrain⟩
      · cases hfailed
        exact ⟨false, rfl, fun hworks => absurd (hworks 0 (Nat.zero_le _)) hnot⟩
      · cases heof
        exact ⟨true, rfl, fun _ => rfl⟩
      · -- the calls left, with the same deadline
        cases hserved
        obtain ⟨ok, hrun, hok⟩ := ih hflag (fun k => ios (k + 1))
          (by rw [if_pos hstopping, hdrain]; exact hdeadline) hidle
        exact ⟨ok, hrun, fun hworks => hok fun k hk => hworks (k + 1) (Nat.succ_le_succ hk)⟩

/-- The drain deadline cuts off a connection whose peer says nothing: the first call waits, the
second one is late. -/
theorem run_returns_silentPeer :
    zcioHttpServerRun silentPoll 2 { conns := [connCreate 5 .plain], stopFlag := true }
      (fun n => { stopMs := 100, nowMs := 6000 * n }) = some true := by
  obtain ⟨ok, hrun, hok⟩ := run_returns (g := silentPoll) (s := { conns := [connCreate 5 .plain], stopFlag := true })
    rfl (fun n => { stopMs := 100, nowMs := 6000 * n }) 1 (by decide) rfl
  rw [hrun, hok fun _ _ => ⟨rfl, fun _ => Int.le_refl 0⟩]

end Stop

end Zcio
