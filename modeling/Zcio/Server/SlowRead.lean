import Zcio.Server.Phase

/-!
# Zcio.Server.SlowRead

The write timeout of a connection whose peer does not read. The deadline counts from
`activity_ms`, which every read moves as well: a peer that keeps sending puts the deadline
off (`slowRead_postponed`). Once no write makes progress any more, the deadline holds exactly
when nothing is read either (`slowRead_deadline`).
-/

namespace Zcio

variable (g : LoopCfg)

/-! ### Runs with a clock

The clock of a run does not go back. -/

/-- A run of the loop whose times never go back; `t` is the time of its last event. -/
inductive ClockRun : Nat → Conn → Prop
  | accepted (now : Nat) (l : Listener) : ClockRun now (connCreate now l)
  | process {t : Nat} {c : Conn} (io : ConnIo) : ClockRun t c → t ≤ io.now → c.dead = false →
      ClockRun io.now (connProcess g c io)
  | stop {t : Nat} {c : Conn} : ClockRun t c → c.dead = false → ClockRun t (connBeginStop c)
  | sweep {t : Nat} {c : Conn} (now : Nat) : ClockRun t c → t ≤ now →
      ClockRun now (connSweep g now c)
  | drained {t : Nat} {c : Conn} : ClockRun t c → connDrained c = true →
      ClockRun t { c with dead := true }
  | drainDeadline {t : Nat} {c : Conn} : ClockRun t c →
      ClockRun t { c with dead := true, expired := true }

/-- Since `t0`, output has been pending and no write has taken an octet. `late` is set once
an iteration behind `t0` has read something. -/
inductive Stalled (t0 : Nat) : Nat → Bool → Conn → Prop
  | since {t : Nat} {c : Conn} : ClockRun g t c → t ≤ t0 → c.dead = false → c.outPending = true →
      Stalled t0 t0 false c
  | process {t : Nat} {late : Bool} {c : Conn} (io : ConnIo) : Stalled t0 t late c → t ≤ io.now →
      c.dead = false → (connProcess g c io).wire = c.wire →
      (connProcess g c io).outPending = true →
      Stalled t0 io.now (late || (readsOctets io && decide (t0 < io.now))) (connProcess g c io)
  | stop {t : Nat} {late : Bool} {c : Conn} : Stalled t0 t late c → c.dead = false →
      Stalled t0 t late (connBeginStop c)
  | sweep {t : Nat} {late : Bool} {c : Conn} (now : Nat) : Stalled t0 t late c → t ≤ now →
      Stalled t0 now late (connSweep g now c)

/-! ### The time of the last activity

Only input and output renew it. -/

variable {g}

theorem ClockRun.loopRun {t : Nat} {c : Conn} (h : ClockRun g t c) : LoopRun g AnyIo c := by
  induction h with
  | accepted now l => exact .accepted now l
  | process io _ _ halive ih => exact .process io ih halive trivial
  | stop _ halive ih => exact .stop ih halive
  | sweep now _ _ ih => exact .sweep now ih
  | drained _ hdrained ih => exact .drained ih hdrained
  | drainDeadline _ ih => exact .drainDeadline ih

section Activity

variable {c : Conn} {io : ConnIo}

theorem activityMs_connSelectProtoTls (c : Conn) (alpn : Option Bytes) :
    (connSelectProtoTls g c alpn).activityMs = c.activityMs := by
  unfold connSelectProtoTls connStartH1
  split
  · split <;> rfl
  · split <;> rfl

theorem activityMs_connUpdateHeadTiming (c : Conn) (now : Nat) :
    (connUpdateHeadTiming c now).activityMs = c.activityMs := by
  unfold connUpdateHeadTiming
  split
  · split
    · split <;> rfl
    · rfl
  · rfl

theorem activityMs_connFed (halive : (connInput g c io).dead = false) :
    (connFed g c io).activityMs = (connInput g c io).activityMs := by
  rw [connFed, activityMs_connUpdateHeadTiming]
  have hcases := connFeedPre_cases (g := g) halive
  generalize connFeedPre g (connInput g c io) = b at hcases ⊢
  cases hcases <;> rfl

/-- Activity is a finished handshake or a read. -/
theorem activityMs_connInput (c : Conn) (io : ConnIo) :
    (connInput g c io).activityMs = c.activityMs ∨ (connInput g c io).activityMs = io.now := by
  have hcases := connInput_cases (g := g) c io
  generalize connInput g c io = c₁ at hcases ⊢
  cases hcases with
  | quiet => exact .inl rfl
  | read => exact .inr rfl
  | secured => exact .inr (activityMs_connSelectProtoTls _ _)

theorem activityMs_connCloseDecision (c : Conn) :
    (connCloseDecision c).activityMs = c.activityMs := by
  obtain ⟨d, w, heq, -⟩ := connCloseDecision_eq c
  rw [heq]

theorem activityMs_connProcess (hinv : ConnInv g c) (halive : c.dead = false) (io : ConnIo) :
    (connProcess g c io).activityMs = c.activityMs ∨
      (connProcess g c io).activityMs = io.now := by
  by_cases hoff : (connInput g c io).dead = true ∨ (connInput g c io).tlsPending = true
  · rw [connProcess_unfed (connBehindFeed_eq_none.mpr hoff) (connInput_unfed hinv halive io hoff),
      activityMs_connCloseDecision]
    exact activityMs_connInput c io
  · rw [not_or, Bool.not_eq_true, Bool.not_eq_true] at hoff
    rcases (connProcess_emits hoff.1 hoff.2).activity with ⟨hsame, -⟩ | ⟨hnow, -⟩
    · rw [hsame, activityMs_connFed hoff.1]
      exact activityMs_connInput c io
    · exact .inr hnow

theorem activityMs_connBeginStop (c : Conn) : (connBeginStop c).activityMs = c.activityMs := by
  unfold connBeginStop
  split <;> rfl

theorem activityMs_connSweep (now : Nat) (c : Conn) :
    (connSweep g now c).activityMs = c.activityMs := by
  unfold connSweep
  split <;> rfl

/-- The last activity is not in the future. -/
theorem ClockRun.activityMs_le {t : Nat} (h : ClockRun g t c) : c.activityMs ≤ t := by
  induction h with
  | accepted now l => cases l <;> exact Nat.le_refl _
  | @process t c io hrun ht halive ih =>
    rcases activityMs_connProcess hrun.loopRun.inv.1 halive io with hsame | hnow
    · rw [hsame]
      exact ih.trans ht
    · rw [hnow]
  | stop _ _ ih => rwa [activityMs_connBeginStop]
  | sweep now _ ht ih =>
    rw [activityMs_connSweep]
    exact ih.trans ht
  | drained _ _ ih => exact ih
  | drainDeadline _ ih => exact ih

/-! ### A stalled connection

A connection whose peer takes nothing is closed at its write deadline, unless something is
read. -/

theorem Stalled.loopRun {t0 t : Nat} {late : Bool} (h : Stalled g t0 t late c) :
    LoopRun g AnyIo c := by
  induction h with
  | since hrun _ _ _ => exact hrun.loopRun
  | process io _ _ halive _ _ ih => exact .process io ih halive trivial
  | stop _ halive ih => exact .stop ih halive
  | sweep now _ _ ih => exact .sweep now ih

/-- What holds of a stalled connection. -/
structure StallInv (t0 t : Nat) (late : Bool) (c : Conn) : Prop where
  pending : c.outPending = true
  since : t0 ≤ t
  activity : c.activityMs ≤ t
  late : c.activityMs ≤ t0 ↔ late = false

/-- With output pending a protocol is chosen, and the handshake is over. -/
theorem established (hinv : ConnInv g c) (h : c.outPending = true) :
    c.proto ≠ .unknown ∧ c.tlsPending = false := by
  have hproto : c.proto ≠ .unknown := by
    intro hp
    unfold Conn.outPending at h
    rw [hp] at h
    cases h
  refine ⟨hproto, ?_⟩
  cases htls : c.tlsPending with
  | false => rfl
  | true => exact absurd (hinv.handshake htls) hproto

/-- Only a handover writes on the way to the output phase. -/
theorem wire_connFed (hlive : (connFed g c io).dead = false)
    (halive : (connInput g c io).dead = false) :
    (connFed g c io).wire = (connInput g c io).wire := by
  have htiming : ∀ b : Conn, (connUpdateHeadTiming b io.now).wire = b.wire ∧
      (connUpdateHeadTiming b io.now).dead = b.dead := by
    intro b
    unfold connUpdateHeadTiming
    split
    · split
      · split <;> exact ⟨rfl, rfl⟩
      · exact ⟨rfl, rfl⟩
    · exact ⟨rfl, rfl⟩
  unfold connFed at hlive ⊢
  rw [(htiming _).2] at hlive
  rw [(htiming _).1]
  have hcases := connFeedPre_cases (g := g) halive
  generalize connFeedPre g (connInput g c io) = b at hcases hlive ⊢
  cases hcases with
  | h1Detached => cases hlive
  | _ => rfl

/-- The input of an established connection: a read, or nothing that counts as activity. -/
theorem connInput_established (htls : c.tlsPending = false) (io : ConnIo) :
    (connInput g c io).tlsPending = false ∧ (connInput g c io).wire = c.wire ∧
      (connInput g c io).activityMs = if readsOctets io then io.now else c.activityMs := by
  unfold connInput readsOctets connRead
  cases io.pollerr <;> cases io.pollin <;> simp only [htls, Bool.false_eq_true, if_false, if_true,
    Bool.false_and, Bool.true_and, true_and]
  all_goals
    cases io.read with
    | octets b =>
      by_cases hb : b.1 = []
      · simp [hb]
      · simp [hb]
    | wouldBlock => simp [htls]
    | failed => simp

/-- **One iteration without progress.** -/
theorem StallInv.process {t0 t : Nat} {late : Bool} (h : StallInv t0 t late c)
    (hinv : ConnInv g c) (ht : t ≤ io.now) (hwire : (connProcess g c io).wire = c.wire)
    (hpending : (connProcess g c io).outPending = true)
    (halive' : (connProcess g c io).dead = false) :
    StallInv t0 io.now (late || (readsOctets io && decide (t0 < io.now)))
      (connProcess g c io) := by
  obtain ⟨htls, hwire₁, hact₁⟩ :=
    connInput_established (g := g) (established hinv h.pending).2 io
  have halive₁ : (connInput g c io).dead = false := by
    cases hd : (connInput g c io).dead with
    | false => rfl
    | true =>
      rw [connProcess_dead hd] at halive'
      cases halive'
  have hemit := connProcess_emits halive₁ htls
  have hlive : (connFed g c io).dead = false := by
    cases hd : (connFed g c io).dead with
    | false => rfl
    | true =>
      rw [hemit.dead hd] at halive'
      cases halive'
  -- nothing was written, so the output phase is no activity
  have hact : (connProcess g c io).activityMs =
      if readsOctets io then io.now else c.activityMs := by
    rcases hemit.activity with ⟨hsame, -⟩ | ⟨-, hgrow⟩
    · rw [hsame, activityMs_connFed halive₁, hact₁]
    · rw [hwire, wire_connFed hlive halive₁, hwire₁] at hgrow
      exact absurd hgrow (Nat.lt_irrefl _)
  have hle := h.activity
  have hsince := h.since
  have hlate := h.late
  refine ⟨hpending, by omega, ?_, ?_⟩
  · rw [hact]
    split <;> omega
  · rw [hact]
    cases readsOctets io with
    | false => simpa using hlate
    | true =>
      rw [if_pos rfl, Bool.true_and, Bool.or_eq_false_iff, decide_eq_false_iff_not]
      refine ⟨fun hnow => ⟨hlate.mp (by omega), by omega⟩, fun hno => by omega⟩

theorem Stalled.stallInv {t0 t : Nat} {late : Bool} (h : Stalled g t0 t late c)
    (halive : c.dead = false) : StallInv t0 t late c := by
  induction h with
  | since hrun ht _ hpending =>
    have hle := hrun.activityMs_le
    exact ⟨hpending, Nat.le_refl _, hle.trans ht, fun _ => rfl, fun _ => hle.trans ht⟩
  | process io hrun ht hlive hwire hpending ih =>
    exact (ih hlive).process hrun.loopRun.inv.1 ht hwire hpending halive
  | stop hrun hlive ih =>
    obtain ⟨hpending, hsince, hact, hlate⟩ := ih hlive
    refine ⟨outPending_connBeginStop hpending, hsince, ?_, ?_⟩ <;>
      rwa [activityMs_connBeginStop]
  | @sweep t late c now hrun ht ih =>
    unfold connSweep at halive ⊢
    split
    · rename_i hlate
      rw [if_pos hlate] at halive
      cases halive
    · rename_i hearly
      rw [if_neg hearly] at halive
      obtain ⟨hpending, hsince, hact, hlate⟩ := ih halive
      exact ⟨hpending, hsince.trans ht, hact.trans ht, hlate⟩

/-- **The write timeout of a stalled connection.** Output has been pending since `t0`, and no
write has taken an octet: the deadline is within the write timeout of `t0` if and only if
nothing was read after `t0`. -/
theorem slowRead_deadline {t0 t : Nat} {late : Bool} (h : Stalled g t0 t late c)
    (halive : c.dead = false) :
    (∃ d, connDeadlineMs g c = some d ∧ d ≤ t0 + g.writeTimeoutMs) ↔ late = false := by
  have hinv := h.stallInv halive
  obtain ⟨hproto, htls⟩ := established h.loopRun.inv.1 hinv.pending
  have hdeadline : connDeadlineMs g c = some (c.activityMs + g.writeTimeoutMs) := by
    unfold connDeadlineMs
    rw [halive, htls, if_neg (by simp), if_neg (by simpa using hproto), if_pos hinv.pending]
  rw [hdeadline, ← hinv.late]
  constructor
  · rintro ⟨d, heq, hle⟩
    cases heq
    omega
  · exact fun hle => ⟨_, rfl, by omega⟩

end Activity

/-! ### A peer that sends and does not read

Each octet that comes in puts the deadline off. -/

/-- A connection whose response nobody takes. -/
def unread : Conn :=
  connProcess silentLoop (connCreate 0 .plain)
    { pollin := true, read := .octets ⟨str "GET / HTTP/1.1\r\nHost: a\r\n\r\n", by decide⟩ }

theorem stalled_unread : Stalled silentLoop 0 0 false unread :=
  .since (.process _ (.accepted 0 .plain) (Nat.le_refl 0) rfl) (Nat.le_refl 0)
    (by decide +kernel) (by decide +kernel)

theorem slowRead_deadline_quiet :
    ∃ d, connDeadlineMs silentLoop (connProcess silentLoop unread { now := 5, pollout := true }) =
      some d ∧ d ≤ 0 + silentLoop.writeTimeoutMs :=
  (slowRead_deadline (.process { now := 5, pollout := true } stalled_unread (Nat.zero_le 5)
    (by decide +kernel) (by decide +kernel) (by decide +kernel)) (by decide +kernel)).mpr rfl

/-- One octet of the next request puts the deadline off. -/
theorem slowRead_postponed :
    ¬∀ (g : LoopCfg) (t0 t : Nat) (late : Bool) (c : Conn), Stalled g t0 t late c →
      c.dead = false → ∃ d, connDeadlineMs g c = some d ∧ d ≤ t0 + g.writeTimeoutMs := by
  intro hall
  obtain ⟨d, hd, hle⟩ := hall silentLoop 0 5 _ _
    (.process { now := 5, pollin := true, read := .octets ⟨[71], by decide⟩ } stalled_unread
      (Nat.zero_le 5) (by decide +kernel) (by decide +kernel) (by decide +kernel))
    (by decide +kernel)
  have hlate : connDeadlineMs silentLoop (connProcess silentLoop unread
      { now := 5, pollin := true, read := .octets ⟨[71], by decide⟩ }) = some 30005 := by
    decide +kernel
  rw [hlate] at hd
  cases hd
  revert hle
  decide

end Zcio
