import Zcio.Server.Phase
import Zcio.H1.Receiving

/-!
# Zcio.Server.HeadTiming

The clock of the request being received. `head_start_ms` is stamped when `timing_head` goes
up, and that flag is only looked at behind a feed: a feed that ends the request in flight and
begins the next one keeps the old stamp (`headStart_stale`). In all other runs the stamp is
the time the first octet of the request came (`headStart_firstOctet`).
-/

namespace Zcio

/-! ### When the octets came

The history of arrivals is kept beside the run. -/

/-- What the parser has been given: for every octet the time of the first iteration that gave
it, and how many of them the requests in front of the current one took. -/
structure Arrivals where
  seen : List Nat := []
  start : Nat := 0
  deriving Repr, DecidableEq

/-- One iteration on the record. -/
def Arrivals.step (g : LoopCfg) (c : Conn) (io : ConnIo) (a : Arrivals) : Arrivals :=
  let c := connInput g c io
  if c.dead || c.tlsPending then a
  else
    match (connChoose g c).1.proto with
    | .h1 h =>
      { seen := a.seen ++ List.replicate (c.rcvd.length - a.seen.length) io.now
        start := match lastReset (g.h1 c) h c.inp with
          | some rest => c.rcvd.length - rest.length
          | none => a.start }
    | _ => a

variable (g : LoopCfg)

/-- A run of the loop with its record. -/
inductive TimedRun (ok : Conn → ConnIo → Prop) : Conn → Arrivals → Prop
  | accepted (now : Nat) (l : Listener) : TimedRun ok (connCreate now l) {}
  | process {c : Conn} {a : Arrivals} (io : ConnIo) : TimedRun ok c a → c.dead = false → ok c io →
      TimedRun ok (connProcess g c io) (a.step g c io)
  | stop {c : Conn} {a : Arrivals} : TimedRun ok c a → c.dead = false →
      TimedRun ok (connBeginStop c) a
  | sweep {c : Conn} {a : Arrivals} (now : Nat) : TimedRun ok c a →
      TimedRun ok (connSweep g now c) a
  | drained {c : Conn} {a : Arrivals} : TimedRun ok c a → connDrained c = true →
      TimedRun ok { c with dead := true } a
  | drainDeadline {c : Conn} {a : Arrivals} : TimedRun ok c a →
      TimedRun ok { c with dead := true, expired := true } a

variable {g}

theorem TimedRun.loopRun {ok : Conn → ConnIo → Prop} {c : Conn} {a : Arrivals}
    (h : TimedRun g ok c a) : LoopRun g ok c := by
  induction h with
  | accepted now l => exact .accepted now l
  | process io _ halive hok ih => exact .process io ih halive hok
  | stop _ halive ih => exact .stop ih halive
  | sweep now _ ih => exact .sweep now ih
  | drained _ hdrained ih => exact .drained ih hdrained
  | drainDeadline _ ih => exact .drainDeadline ih

/-- Every run has its record. -/
theorem LoopRun.timed {ok : Conn → ConnIo → Prop} {c : Conn} (h : LoopRun g ok c) :
    ∃ a, TimedRun g ok c a := by
  induction h with
  | accepted now l => exact ⟨_, .accepted now l⟩
  | process io _ halive hok ih => exact ⟨_, .process io ih.choose_spec halive hok⟩
  | stop _ halive ih => exact ⟨_, .stop ih.choose_spec halive⟩
  | sweep now _ ih => exact ⟨_, .sweep now ih.choose_spec⟩
  | drained _ hdrained ih => exact ⟨_, .drained ih.choose_spec hdrained⟩
  | drainDeadline _ ih => exact ⟨_, .drainDeadline ih.choose_spec⟩

/-- No feed ends a request that was in flight before the iteration and begins another one. -/
def OneStart (g : LoopCfg) (c : Conn) (io : ConnIo) : Prop :=
  ∀ h, (connInput g c io).proto = .h1 h → zh1Receiving h = true →
    lastReset (g.h1 (connInput g c io)) h (connInput g c io).inp ≠ none →
    zh1Receiving (zh1Feed (g.h1 (connInput g c io)) h (connInput g c io).inp).c = false

/-! ### The invariant

The time of the head is that of its first octet, unless the octet came with the end of the
request before. -/

/-- The stamp of an HTTP/1.1 connection, `new` octets of whose input the parser has not seen. -/
structure Stamped (c : Conn) (a : Arrivals) (h : Zh1Conn) (new : Nat) : Prop where
  seen : a.seen.length + new = c.rcvd.length
  timing : c.timingHead = h.receiving
  between : h.receiving = false → h.state = .reqline ∧ c.inp.length = new ∧
    a.start = a.seen.length
  within : h.receiving = true → a.seen[a.start]? = some c.headStartMs

/-- Nothing was given to a parser yet. -/
structure Unstamped (c : Conn) (a : Arrivals) : Prop where
  record : a = {}
  rcvd : c.rcvd = c.inp
  timing : c.timingHead = false

/-- What holds between iterations. -/
structure TimingInv (c : Conn) (a : Arrivals) : Prop where
  unknown : c.proto = .unknown → Unstamped c a
  h1 : ∀ h, c.proto = .h1 h → Stamped c a h 0

section Timing

variable {c : Conn} {a : Arrivals} {io : ConnIo}

/-- A new parser has all the input before it. -/
theorem Unstamped.stamped (h : Unstamped c a) : Stamped c a zh1New c.rcvd.length := by
  obtain ⟨rfl, hr, ht⟩ := h
  exact ⟨Nat.zero_add _, ht, fun _ => ⟨rfl, by rw [hr], rfl⟩, nofun⟩

/-- **The input phase** leaves what was read unseen. -/
theorem TimingInv.input (hi : TimingInv c a) (hinv : ConnInv g c) :
    ((connInput g c io).proto = .unknown → Unstamped (connInput g c io) a) ∧
      ∀ h, (connInput g c io).proto = .h1 h → ∃ new, Stamped (connInput g c io) a h new := by
  have hcases := connInput_cases (g := g) c io
  generalize connInput g c io = c₁ at hcases ⊢
  cases hcases with
  | quiet =>
    refine ⟨fun hp => ?_, fun h hp => ⟨0, ?_⟩⟩
    · obtain ⟨ha, hr, ht⟩ := hi.unknown hp
      exact ⟨ha, hr, ht⟩
    · obtain ⟨hs, ht, hb, hw⟩ := hi.h1 h hp
      exact ⟨hs, ht, hb, hw⟩
  | @read e b hb htls hin hread hne =>
    refine ⟨fun hp => ?_, fun h hp => ⟨b.length, ?_⟩⟩
    · obtain ⟨ha, hr, ht⟩ := hi.unknown hp
      exact ⟨ha, congrArg (· ++ b) hr, ht⟩
    · obtain ⟨hs, ht, hbet, hw⟩ := hi.h1 h hp
      refine ⟨?_, ht, fun hr => ?_, hw⟩
      · show a.seen.length + b.length = (c.rcvd ++ b).length
        rw [List.length_append]
        omega
      · obtain ⟨hst, hnil, hstart⟩ := hbet hr
        refine ⟨hst, ?_, hstart⟩
        show (c.inp ++ b).length = b.length
        rw [List.length_append]
        omega
  | secured e alpn htls =>
    have hun : ∀ p dead, Unstamped { c with
        peerEof := e, tlsPending := false, activityMs := io.now, proto := p, dead } a := by
      obtain ⟨ha, hr, ht⟩ := hi.unknown (hinv.handshake htls)
      exact fun _ _ => ⟨ha, hr, ht⟩
    unfold connSelectProtoTls connStartH1
    split
    · split
      · exact ⟨fun hp => absurd hp (by simp), fun h hp => absurd hp (by simp)⟩
      · refine ⟨fun _ => hun c.proto true, fun h hp => ?_⟩
        exact absurd (hinv.handshake htls) (by simp [show c.proto = .h1 h from hp])
    · split
      · refine ⟨fun hp => absurd hp (by simp), fun h hp => ?_⟩
        cases hp
        exact ⟨_, (hun (.h1 zh1New) c.dead).stamped⟩
      · refine ⟨fun _ => hun c.proto true, fun h hp => ?_⟩
        exact absurd (hinv.handshake htls) (by simp [show c.proto = .h1 h from hp])

/-- **The feed** on the HTTP/1.1 parser, with the stamp behind it. -/
theorem Stamped.feed {h : Zh1Conn} {new : Nat} (hs : Stamped c a h new) {now : Nat}
    {cfg : H1Cfg} (hone : h.receiving = true → lastReset cfg h c.inp ≠ none →
      (zh1Feed cfg h c.inp).c.receiving = false)
    {b : Conn} {h' : Zh1Conn} (hb : b.proto = .h1 h')
    (hrecv : h'.receiving = (zh1Feed cfg h c.inp).c.receiving)
    (hst : h'.state = (zh1Feed cfg h c.inp).c.state)
    (hinp : b.inp = (zh1Feed cfg h c.inp).inp) (hrcvd : b.rcvd = c.rcvd)
    (hth : b.timingHead = c.timingHead) (hhs : b.headStartMs = c.headStartMs) :
    Stamped (connUpdateHeadTiming b now)
      { seen := a.seen ++ List.replicate (c.rcvd.length - a.seen.length) now
        start := match lastReset cfg h c.inp with
          | some rest => c.rcvd.length - rest.length
          | none => a.start } h' 0 := by
  obtain ⟨hseen, htiming, hbetween, hwithin⟩ := hs
  obtain ⟨hfb, hfw⟩ := zh1Feed_receiving cfg (fun hr => (hbetween hr).1) c.inp
  rw [← hrecv] at hfb hfw hone
  rw [← hst, ← hinp] at hfb
  -- the stamp behind the feed
  have hstamp : connUpdateHeadTiming b now = { b with
      timingHead := h'.receiving
      headStartMs := if h'.receiving && !h.receiving then now else c.headStartMs } := by
    rw [← htiming, ← hth, ← hhs]
    unfold connUpdateHeadTiming zh1Receiving
    rw [hb]
    dsimp only
    cases hr' : h'.receiving with
    | false => simp
    | true =>
      cases hr : b.timingHead with
      | false => simp
      | true =>
        simp only [if_true, Bool.not_true, Bool.and_false, Bool.false_eq_true, if_false]
        rw [← hb, ← hr]
  have hlen : c.rcvd.length - a.seen.length = new := by omega
  rw [hstamp, hlen]
  have hnow : ∀ i, a.seen.length ≤ i → i < c.rcvd.length →
      (a.seen ++ List.replicate new now)[i]? = some now := by
    intro i hle hlt
    rw [List.getElem?_append_right hle, List.getElem?_replicate, if_pos (by omega)]
  refine ⟨?_, rfl, fun hr => ?_, fun hr => ?_⟩
  · show (a.seen ++ List.replicate new now).length + 0 = b.rcvd.length
    rw [List.length_append, List.length_replicate, hrcvd, Nat.add_zero]
    exact hseen
  · obtain ⟨hst', hnil, hreset⟩ := hfb hr
    refine ⟨hst', by rw [hnil]; rfl, ?_⟩
    rw [List.length_append, List.length_replicate, hseen]
    rcases hreset with hsome | ⟨hnone, hr₀, hinp₀⟩
    · rw [hsome]
      rfl
    · obtain ⟨-, hnew, hstart⟩ := hbetween hr₀
      rw [hnone]
      rw [hinp₀] at hnew
      have hnew : 0 = new := hnew
      show a.start = c.rcvd.length
      omega
  · dsimp only
    rw [hr, Bool.true_and]
    cases hr₀ : h.receiving with
    | true =>
      -- the request was in flight before, and still is
      rcases hfw hr with ⟨hnone, -⟩ | ⟨rest, hsome, -, -⟩
      · rw [hnone]
        have hheld := hwithin hr₀
        have hlt := (List.getElem?_eq_some_iff.mp hheld).1
        rw [Bool.not_true, if_neg (by simp), List.getElem?_append_left hlt]
        exact hheld
      · rw [hone hr₀ (by rw [hsome]; simp)] at hr
        cases hr
    | false =>
      obtain ⟨-, hnew, hstart⟩ := hbetween hr₀
      rw [Bool.not_false, if_pos rfl]
      rcases hfw hr with ⟨hnone, hbegun⟩ | ⟨rest, hsome, hne, hend⟩
      · rw [hnone]
        have hpos : c.inp.length ≠ 0 := by
          rcases hbegun with hr₁ | hne
          · rw [hr₀] at hr₁
            cases hr₁
          · exact fun h0 => hne (List.eq_nil_of_length_eq_zero h0)
        exact hnow a.start (by omega) (by omega)
      · rw [hsome]
        have hpos : rest.length ≠ 0 := fun h0 => hne (List.eq_nil_of_length_eq_zero h0)
        have hle := hend.length_le
        exact hnow (c.rcvd.length - rest.length) (by omega) (by omega)

/-- **One iteration.** -/
theorem TimingInv.process (hi : TimingInv c a) (hinv : ConnInv g c) (halive : c.dead = false)
    (hone : OneStart g c io) : TimingInv (connProcess g c io) (a.step g c io) := by
  obtain ⟨hunknown, hh1⟩ := @TimingInv.input g c a io hi hinv
  by_cases hoff : (connInput g c io).dead = true ∨ (connInput g c io).tlsPending = true
  · have hproto := connInput_unfed hinv halive io hoff
    have hstep : a.step g c io = a := by
      unfold Arrivals.step
      exact if_pos (by simpa using hoff)
    obtain ⟨ha, hr, ht⟩ := hunknown hproto
    rw [hstep, connProcess_unfed (connBehindFeed_eq_none.mpr hoff) hproto]
    obtain ⟨d, w, heq, -⟩ := connCloseDecision_eq (connInput g c io)
    rw [heq]
    refine ⟨fun _ => ⟨ha, hr, ht⟩, fun h hp => ?_⟩
    rw [show (connInput g c io).proto = .h1 h from hp] at hproto
    cases hproto
  · rw [not_or, Bool.not_eq_true, Bool.not_eq_true] at hoff
    -- what the feed leaves
    have hfed : TimingInv (connFed g c io) (a.step g c io) := by
      have hstep : a.step g c io = match (connChoose g (connInput g c io)).1.proto with
          | .h1 h =>
            { seen := a.seen ++
                List.replicate ((connInput g c io).rcvd.length - a.seen.length) io.now
              start := match lastReset (g.h1 (connInput g c io)) h (connInput g c io).inp with
                | some rest => (connInput g c io).rcvd.length - rest.length
                | none => a.start }
          | _ => a := by
        unfold Arrivals.step
        exact if_neg (by simp [hoff])
      unfold OneStart at hone
      rw [hstep, connFed]
      have hcases := connFeedPre_cases (g := g) hoff.1
      generalize connFeedPre g (connInput g c io) = b at hcases ⊢
      generalize connInput g c io = c₁ at hcases hunknown hh1 hone ⊢
      have hstarts : ∀ h, StartsH1 g c₁ h → ∃ new, Stamped c₁ a h new := by
        intro h hs
        rcases hs.cases with hp | ⟨hp, rfl⟩
        · exact hh1 h hp
        · exact ⟨_, (hunknown hp).stamped⟩
      have hflight : ∀ h, StartsH1 g c₁ h → h.receiving = true →
          lastReset (g.h1 c₁) h c₁.inp ≠ none →
          (zh1Feed (g.h1 c₁) h c₁.inp).c.receiving = false := by
        intro h hs hr hreset
        rcases hs.cases with hp | ⟨hp, rfl⟩
        · exact hone h hp hr hreset
        · cases hr
      have hproto : ∀ b : Conn, (connUpdateHeadTiming b io.now).proto = b.proto :=
        fun b => proto_connUpdateHeadTiming b io.now
      have hnone : ∀ b : Conn, b.proto = .unknown → Unstamped b a →
          TimingInv (connUpdateHeadTiming b io.now) a := by
        rintro b hp ⟨ha, hr, -⟩
        refine ⟨fun _ => ?_, fun h hp' => ?_⟩
        · unfold connUpdateHeadTiming
          rw [hp]
          exact ⟨ha, hr, rfl⟩
        · rw [hproto, hp] at hp'
          cases hp'
      have hsome : ∀ (b : Conn) (h' : Zh1Conn) (a' : Arrivals), b.proto = .h1 h' →
          Stamped (connUpdateHeadTiming b io.now) a' h' 0 →
          TimingInv (connUpdateHeadTiming b io.now) a' := by
        intro b h' a' hp hs
        refine ⟨fun hp' => ?_, fun h hp' => ?_⟩
        · rw [hproto, hp] at hp'
          cases hp'
        · rw [hproto, hp] at hp'
          cases hp'
          exact hs
      cases hcases with
      | undecided hp hchosen _ =>
        rw [hchosen]
        exact hnone _ hp (hunknown hp)
      | refused hp hchosen =>
        rw [hchosen]
        obtain ⟨ha, hr, ht⟩ := hunknown hp
        exact hnone _ hp ⟨ha, hr, ht⟩
      | @h1 h hs _ =>
        rw [hs.chosen]
        obtain ⟨new, hst⟩ := hstarts h hs
        exact hsome _ _ _ rfl (hst.feed (hflight h hs) rfl rfl rfl rfl rfl rfl rfl)
      | @h1Close h hs _ =>
        rw [hs.chosen]
        obtain ⟨new, hst⟩ := hstarts h hs
        exact hsome _ _ _ rfl (hst.feed (hflight h hs) rfl rfl rfl rfl rfl rfl rfl)
      | @h1Detached h hs _ =>
        rw [hs.chosen]
        obtain ⟨new, hst⟩ := hstarts h hs
        exact hsome _ _ _ rfl (hst.feed (hflight h hs) rfl rfl rfl rfl rfl rfl rfl)
      | h2 =>
        refine ⟨fun hp' => ?_, fun h hp' => ?_⟩
        · rw [hproto] at hp'
          cases hp'
        · rw [hproto] at hp'
          cases hp'
    have hemit := connProcess_emits hoff.1 hoff.2
    obtain ⟨p, w, act, d, wc, wf, heq⟩ := hemit.frame
    have hemits := hemit.proto
    rw [heq] at hemits ⊢
    refine ⟨fun hp => ?_, fun h' hp => ?_⟩
    · have hp : p = .unknown := hp
      subst hp
      cases hp₀ : (connFed g c io).proto with
      | unknown =>
        obtain ⟨ha, hr, ht⟩ := hfed.unknown hp₀
        exact ⟨ha, hr, ht⟩
      | h1 h₀ =>
        rw [hp₀] at hemits
        obtain ⟨out, hp⟩ := hemits.h1
        cases hp
      | h2 h₀ =>
        rw [hp₀] at hemits
        obtain ⟨h', hp, -⟩ := hemits.h2
        cases hp
    · have hp : p = .h1 h' := hp
      subst hp
      cases hp₀ : (connFed g c io).proto with
      | unknown =>
        rw [hp₀] at hemits
        cases hemits.unknown
      | h1 h₀ =>
        rw [hp₀] at hemits
        obtain ⟨out, hp⟩ := hemits.h1
        cases hp
        obtain ⟨hseen, ht, hb, hw⟩ := hfed.h1 h₀ hp₀
        exact ⟨hseen, ht, hb, hw⟩
      | h2 h₀ =>
        rw [hp₀] at hemits
        obtain ⟨h', hp, -⟩ := hemits.h2
        cases hp

theorem TimingInv.stop (hi : TimingInv c a) : TimingInv (connBeginStop c) a := by
  unfold connBeginStop
  split
  · rename_i h hp
    obtain ⟨hseen, ht, hb, hw⟩ := hi.h1 h hp
    refine ⟨fun hp' => absurd hp' (by simp), fun h' hp' => ?_⟩
    cases hp'
    exact ⟨hseen, ht, hb, hw⟩
  · exact ⟨fun hp' => absurd hp' (by simp), fun h' hp' => absurd hp' (by simp)⟩
  · exact hi

/-- Marking a connection dead keeps its record. -/
theorem TimingInv.dead (hi : TimingInv c a) (expired : Bool) :
    TimingInv { c with dead := true, expired } a := by
  refine ⟨fun hp => ?_, fun h hp => ?_⟩
  · obtain ⟨ha, hr, ht⟩ := hi.unknown hp
    exact ⟨ha, hr, ht⟩
  · obtain ⟨hs, ht, hb, hw⟩ := hi.h1 h hp
    exact ⟨hs, ht, hb, hw⟩

theorem TimedRun.inv (hrun : TimedRun g (OneStart g) c a) : TimingInv c a := by
  induction hrun with
  | accepted now l =>
    refine ⟨fun _ => ⟨rfl, ?_, ?_⟩, fun h hp => ?_⟩
    · cases l <;> rfl
    · cases l <;> rfl
    · cases l with
      | redirect =>
        cases hp
        exact ⟨rfl, rfl, fun _ => ⟨rfl, rfl, rfl⟩, nofun⟩
      | plain => cases hp
      | tls => cases hp
  | process io hrun halive hone ih => exact ih.process hrun.loopRun.inv.1 halive hone
  | stop _ _ ih => exact ih.stop
  | @sweep c a now _ ih =>
    unfold connSweep
    split
    · exact ih.dead true
    · exact ih
  | @drained c a _ _ ih => exact ih.dead c.expired
  | drainDeadline _ ih => exact ih.dead true

/-- **The receive deadline belongs to the request in flight.** When no feed ends a request that
was in flight before and begins another, the stamp of a connection that is receiving is the
time the first octet of its request was given to the parser, and the deadline counts from
there. -/
theorem headStart_firstOctet (hrun : TimedRun g (OneStart g) c a) {h : Zh1Conn}
    (hp : c.proto = .h1 h) (hr : zh1Receiving h = true) :
    a.seen[a.start]? = some c.headStartMs ∧
      (c.dead = false → c.outPending = false → connDeadlineMs g c = some (c.headStartMs +
        if zh1MidHeaders h then g.headerTimeoutMs else g.idleTimeoutMs)) := by
  refine ⟨(hrun.inv.h1 h hp).within hr, fun halive hidle => ?_⟩
  have htls : c.tlsPending = false := by
    cases htls : c.tlsPending with
    | false => rfl
    | true =>
      rw [hrun.loopRun.inv.1.handshake htls] at hp
      cases hp
  unfold connDeadlineMs
  rw [halive, htls, hidle, hp]
  simp [hr]

end Timing

/-! ### Back-to-back requests

The condition holds where no feed ends a request; a feed that ends one and begins the next
breaks it. -/

/-- The feed ends no request. -/
def endsNone (g : LoopCfg) (c : Conn) (io : ConnIo) : Bool :=
  match (connInput g c io).proto with
  | .h1 h => (lastReset (g.h1 (connInput g c io)) h (connInput g c io).inp).isNone
  | _ => true

theorem oneStart_of_endsNone {g : LoopCfg} {c : Conn} {io : ConnIo} (h : endsNone g c io = true) :
    OneStart g c io := by
  intro h1 hp _ hreset
  unfold endsNone at h
  rw [hp] at h
  exact absurd (Option.isNone_iff_eq_none.mp h) hreset

/-- The first line of a request comes. -/
def firstLine : ConnIo :=
  { now := 3, pollin := true, read := .octets ⟨str "GET / HTTP/1.1\r\n", by decide⟩ }

/-- More of the stream comes, five milliseconds later. -/
def moreComes (b : Bytes) (hb : b.length ≤ READ_SCRATCH) : ConnIo :=
  { now := 8, pollin := true, read := .octets ⟨b, hb⟩ }

/-- The request comes in two parts. -/
def twoParts (b : Bytes) (hb : b.length ≤ READ_SCRATCH) : Conn :=
  connProcess silentLoop (connProcess silentLoop (connCreate 0 .plain) firstLine) (moreComes b hb)

/-- What is known of them. -/
def twoPartsSeen (b : Bytes) (hb : b.length ≤ READ_SCRATCH) : Arrivals :=
  (Arrivals.step silentLoop (connCreate 0 .plain) firstLine {}).step silentLoop
    (connProcess silentLoop (connCreate 0 .plain) firstLine) (moreComes b hb)

theorem receiving_twoParts {c : Conn} (h : (match c.proto with
    | .h1 h => zh1Receiving h
    | _ => false) = true) : ∃ h1, c.proto = .h1 h1 ∧ zh1Receiving h1 = true := by
  split at h
  · rename_i h1 hp
    exact ⟨h1, hp, h⟩
  · cases h

theorem headStart_firstOctet_header :
    (twoPartsSeen (str "Host: a\r\n") (by decide)).seen[0]? =
      some (twoParts (str "Host: a\r\n") (by decide)).headStartMs ∧
    (twoParts (str "Host: a\r\n") (by decide)).headStartMs = 3 := by
  obtain ⟨h, hp, hr⟩ := receiving_twoParts (c := twoParts (str "Host: a\r\n") (by decide))
    (by decide +kernel)
  refine ⟨?_, by decide +kernel⟩
  have hrun : TimedRun silentLoop (OneStart silentLoop) (twoParts (str "Host: a\r\n") (by decide))
      (twoPartsSeen (str "Host: a\r\n") (by decide)) :=
    .process _ (.process _ (.accepted 0 .plain) rfl (oneStart_of_endsNone (by decide +kernel)))
      (by decide +kernel) (oneStart_of_endsNone (by decide +kernel))
  have hstart : (twoPartsSeen (str "Host: a\r\n") (by decide)).start = 0 := by decide +kernel
  have hstamp := (headStart_firstOctet hrun hp hr).1
  rwa [hstart] at hstamp

/-- The second part ends the request and begins another one, which inherits the stamp. -/
theorem headStart_stale :
    ¬∀ (g : LoopCfg) (c : Conn) (a : Arrivals), TimedRun g AnyIo c a →
      ∀ h, c.proto = .h1 h → zh1Receiving h = true → a.seen[a.start]? = some c.headStartMs := by
  intro hall
  obtain ⟨h, hp, hr⟩ := receiving_twoParts
    (c := twoParts (str "Host: a\r\n\r\nG") (by decide)) (by decide +kernel)
  have hstamp := hall silentLoop _ (twoPartsSeen (str "Host: a\r\n\r\nG") (by decide))
    (.process _ (.process _ (.accepted 0 .plain) rfl trivial) (by decide +kernel) trivial) h hp hr
  revert hstamp
  decide +kernel

end Zcio
