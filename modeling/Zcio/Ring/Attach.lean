import Zcio.Ring.Fifo

/-!
# Zcio.Ring.Attach

A ring in shared memory: `zcio_ring_attach` by the producer and by the consumer, each at a time of
its own. `ring_init` sets both cursors to 0, in two stores, also when the other side is attached
already and has traffic in the block.
-/

namespace Zcio

/-! ### Attaching

Each side stores zero into both cursors when it attaches, one after the other. -/

inductive RingSide where
  | producer
  | consumer
  deriving Repr, DecidableEq

/-- Where a side stands with `zcio_ring_attach`. -/
inductive AttachPc where
  | away
  /-- `ring_init` is to store `head`. -/
  | storeHead
  /-- It is to store `tail`. -/
  | storeTail
  | attached
  deriving Repr, DecidableEq

/-- A block in shared memory with the handles of the two sides and their calls. -/
structure SharedRing where
  sys : RingSys
  producer : AttachPc := .away
  consumer : AttachPc := .away

namespace SharedRing

/-- The side's attach. -/
def pc (s : SharedRing) : RingSide → AttachPc
  | .producer => s.producer
  | .consumer => s.consumer

def setPc (s : SharedRing) (p : AttachPc) : RingSide → SharedRing
  | .producer => { s with producer := p }
  | .consumer => { s with consumer := p }

end SharedRing

/-- What can happen next: the steps of an attach, calls, and the steps of calls. -/
inductive SharedAct where
  | attach (side : RingSide)
  | storeHead (side : RingSide)
  | storeTail (side : RingSide)
  | write (src : Bytes)
  | read (n : Nat)
  | writer
  | reader
  deriving Repr, DecidableEq

/-- The step, if it can be taken; `nonBlocking` is the mode of the consumer's handle. -/
def sharedAct (g : RingCfg) (nonBlocking : Bool) (s : SharedRing) : SharedAct → Option SharedRing
  | .attach side => if s.pc side = .away then some (s.setPc .storeHead side) else none
  | .storeHead side =>
    if s.pc side = .storeHead then
      some ({ s with sys := { s.sys with ring := { s.sys.ring with head := 0 } } }.setPc .storeTail side)
    else none
  | .storeTail side =>
    if s.pc side = .storeTail then
      some ({ s with sys := { s.sys with ring := { s.sys.ring with tail := 0 } } }.setPc .attached side)
    else none
  | .write src =>
    if s.producer = .attached ∧ s.sys.writer = none then some { s with sys := s.sys.callWrite src } else none
  | .read n =>
    if s.consumer = .attached ∧ s.sys.reader = none then some { s with sys := s.sys.callRead n } else none
  | .writer => some { s with sys := s.sys.stepWriter g }
  | .reader => some { s with sys := s.sys.stepReader { g with nonBlocking } }

/-- The runs whose steps all satisfy `ok`, from a block with anything in it. -/
inductive SharedRun (g : RingCfg) (nonBlocking : Bool) (ok : SharedRing → SharedAct → Prop) : SharedRing → Prop
  | init (ring : Ring) : SharedRun g nonBlocking ok { sys := { ring } }
  | act {s s' : SharedRing} {a : SharedAct} (hrun : SharedRun g nonBlocking ok s) (hok : ok s a)
      (hact : sharedAct g nonBlocking s a = some s') : SharedRun g nonBlocking ok s'

/-- The consumer attaches before the first octet of the producer is in the ring. -/
def AttachesInTime (s : SharedRing) (a : SharedAct) : Prop :=
  a = .storeHead .consumer → s.sys.sent = []

/-! ### The invariant

Storing zero changes nothing for as long as zero is what the cursor holds. -/

/-- The side has not called anything. -/
def RingSys.Idle (s : RingSys) : RingSide → Prop
  | .producer => s.writer = none ∧ s.writes = []
  | .consumer => s.reader = none ∧ s.reads = []

/-- The invariant of a ring in shared memory. -/
inductive SharedRing.Inv (g : RingCfg) (s : SharedRing) : Prop
  /-- No side has a handle; a store of `head` stays. -/
  | fresh (hnone : ∀ side, s.pc side ≠ .attached) (hidle : ∀ side, s.sys.Idle side)
      (hhead : ∀ side, s.pc side = .storeTail → s.sys.ring.head = 0)
  /-- A side without a handle has not called. -/
  | live (hsome : ∃ side, s.pc side = .attached) (hinv : s.sys.Inv g)
      (hidle : ∀ side, s.pc side ≠ .attached → s.sys.Idle side)

/-- The invariant does not depend on the mode. -/
theorem RingSys.Inv.mode {g : RingCfg} {s : RingSys} (h : s.Inv g) (nonBlocking : Bool) :
    s.Inv { g with nonBlocking } := by
  obtain ⟨⟨h₁, h₂, h₃, h₄, h₅, h₆⟩, hw, hr⟩ := h
  refine ⟨⟨h₁, h₂, h₃, h₄, h₅, h₆⟩, fun c hc => ?_, fun c hc => ?_⟩
  · obtain ⟨k₁, k₂⟩ := hw c hc
    exact ⟨k₁, k₂⟩
  · obtain ⟨k₁, k₂, k₃⟩ := hr c hc
    exact ⟨k₁, k₂, k₃⟩

variable {g : RingCfg} {nonBlocking : Bool} {s s' : SharedRing}

theorem SharedRing.pc_setPc (s : SharedRing) (p : AttachPc) (side side' : RingSide) :
    (s.setPc p side).pc side' = if side' = side then p else s.pc side' := by
  cases side with
  | producer =>
    cases side' with
    | producer => rfl
    | consumer => rfl
  | consumer =>
    cases side' with
    | producer => rfl
    | consumer => rfl

@[simp] theorem SharedRing.setPc_sys (s : SharedRing) (p : AttachPc) (side : RingSide) :
    (s.setPc p side).sys = s.sys := by
  cases side with
  | producer => rfl
  | consumer => rfl

theorem RingSys.Idle.sent {s : RingSys} (h : s.Idle .producer) : s.sent = [] := by
  rw [RingSys.sent, h.1, h.2]
  rfl

theorem RingSys.Idle.received {s : RingSys} (h : s.Idle .consumer) : s.received = [] := by
  rw [RingSys.received, h.1, h.2]
  rfl

/-- The steps of one side leave the other alone. -/
theorem stepWriter_idle {s : RingSys} (g : RingCfg) {side : RingSide} (h : s.Idle side) :
    (s.stepWriter g).Idle side := by
  unfold RingSys.stepWriter
  split
  · exact h
  · rename_i c hc
    cases side with
    | producer => exact absurd (hc.symm.trans h.1) (Option.some_ne_none c)
    | consumer =>
      split
      · exact h
      · exact h

theorem stepReader_idle {s : RingSys} (g : RingCfg) {side : RingSide} (h : s.Idle side) :
    (s.stepReader g).Idle side := by
  unfold RingSys.stepReader
  split
  · exact h
  · rename_i c hc
    cases side with
    | producer =>
      split
      · exact h
      · exact h
    | consumer => exact absurd (hc.symm.trans h.1) (Option.some_ne_none c)

/-- A store of a cursor that is 0 does nothing. -/
theorem store_zero {s : SharedRing} (hhead : s.sys.ring.head = 0) :
    { s with sys := { s.sys with ring := { s.sys.ring with head := 0 } } } = s := by
  rw [← hhead]

theorem store_tail_zero {s : SharedRing} (htail : s.sys.ring.tail = 0) :
    { s with sys := { s.sys with ring := { s.sys.ring with tail := 0 } } } = s := by
  rw [← htail]

/-- A side that is not attached goes on with its attach. -/
theorem SharedRing.Inv.setPc (h : s.Inv g) {side : RingSide} {p : AttachPc} (hside : s.pc side ≠ .attached)
    (hp : p ≠ .attached) (htail : p = .storeTail → s.sys.ring.head = 0) : (s.setPc p side).Inv g := by
  cases h with
  | fresh hnone hidle hhead =>
    refine .fresh (fun side' => ?_) (fun side' => ?_) (fun side' hpc => ?_)
    · rw [SharedRing.pc_setPc]
      split
      · exact hp
      · exact hnone side'
    · rw [SharedRing.setPc_sys]
      exact hidle side'
    · rw [SharedRing.setPc_sys]
      rw [SharedRing.pc_setPc] at hpc
      split at hpc
      · exact htail hpc
      · exact hhead side' hpc
  | live hsome hinv hidle =>
    obtain ⟨other, hother⟩ := hsome
    have hne : other ≠ side := fun heq => hside (heq ▸ hother)
    refine .live ⟨other, ?_⟩ ?_ (fun side' hpc => ?_)
    · rw [SharedRing.pc_setPc, if_neg hne]
      exact hother
    · rw [SharedRing.setPc_sys]
      exact hinv
    · rw [SharedRing.setPc_sys]
      rw [SharedRing.pc_setPc] at hpc
      split at hpc
      · rename_i heq
        exact hidle side' (heq ▸ hside)
      · exact hidle side' hpc

theorem SharedRing.pc_sys (s : SharedRing) (sys : RingSys) (side : RingSide) :
    ({ s with sys } : SharedRing).pc side = s.pc side := by
  cases side with
  | producer => rfl
  | consumer => rfl

theorem SharedRing.Inv.storeHead (h : s.Inv g) {side : RingSide} (hside : s.pc side = .storeHead)
    (hok : side = .consumer → s.sys.sent = []) :
    ({ s with sys := { s.sys with ring := { s.sys.ring with head := 0 } } }.setPc .storeTail side).Inv g := by
  have haway : s.pc side ≠ .attached := by
    rw [hside]
    decide
  cases h with
  | fresh hnone hidle hhead =>
    have hfresh : SharedRing.Inv g { s with sys := { s.sys with ring := { s.sys.ring with head := 0 } } } := by
      refine .fresh (fun side' => ?_) (fun side' => ?_) fun _ _ => rfl
      · rw [SharedRing.pc_sys]
        exact hnone side'
      · cases side' with
        | producer => exact hidle .producer
        | consumer => exact hidle .consumer
    refine hfresh.setPc ?_ (by decide) fun _ => rfl
    rwa [SharedRing.pc_sys]
  | live hsome hinv hidle =>
    have hsent : s.sys.sent = [] := by
      cases side with
      | producer => exact (hidle .producer haway).sent
      | consumer => exact hok rfl
    have hhead : s.sys.ring.head = 0 := by
      rw [hinv.holds.head, hsent]
      exact Nat.zero_mod _
    rw [store_zero hhead]
    exact (SharedRing.Inv.live hsome hinv hidle).setPc haway (by decide) fun _ => hhead

/-- The last store of an attach: on a fresh ring it completes the empty one, later it changes
nothing. -/
theorem SharedRing.Inv.storeTail (h : s.Inv g) {side : RingSide} (hside : s.pc side = .storeTail) :
    ({ s with sys := { s.sys with ring := { s.sys.ring with tail := 0 } } }.setPc .attached side).Inv g := by
  have haway : s.pc side ≠ .attached := by
    rw [hside]
    decide
  have hsome (x : SharedRing) : ∃ side', (x.setPc .attached side).pc side' = .attached :=
    ⟨side, by rw [SharedRing.pc_setPc, if_pos rfl]⟩
  -- nobody has attached before: both indices are zero, and the ring is empty
  cases h with
  | fresh hnone hidle hhead =>
    refine .live (hsome _) ?_ (fun side' _ => ?_)
    · rw [SharedRing.setPc_sys]
      refine ⟨?_, fun c hc => ?_, fun c hc => ?_⟩
      · have hring : ({ s.sys.ring with tail := 0 } : Ring) = { data := s.sys.ring.data } := by
          show Ring.mk s.sys.ring.head 0 s.sys.ring.data = Ring.mk 0 0 s.sys.ring.data
          rw [hhead side hside]
        have hsent : RingSys.sent { s.sys with ring := { s.sys.ring with tail := 0 } } = [] :=
          (hidle .producer).sent
        have hreceived : RingSys.received { s.sys with ring := { s.sys.ring with tail := 0 } } = [] :=
          (hidle .consumer).received
        rw [hsent, hreceived, hring]
        exact RingHolds.init g _
      · exact absurd (hc.symm.trans (hidle .producer).1) (Option.some_ne_none c)
      · exact absurd (hc.symm.trans (hidle .consumer).1) (Option.some_ne_none c)
    · rw [SharedRing.setPc_sys]
      cases side' with
      | producer => exact hidle .producer
      | consumer => exact hidle .consumer
  -- the other side is attached, and storing zero changes nothing
  | live _ hinv hidle =>
    -- nothing was read so far, since the reader is not there
    have hreceived : s.sys.received.length = 0 := by
      cases side with
      | producer =>
        have hle := hinv.holds.le
        rw [(hidle .producer haway).sent] at hle
        exact Nat.le_zero.mp hle
      | consumer => rw [(hidle .consumer haway).received, List.length_nil]
    have htail : s.sys.ring.tail = 0 := by
      rw [hinv.holds.tail, hreceived]
      exact Nat.zero_mod _
    rw [store_tail_zero htail]
    refine .live (hsome s) ?_ (fun side' hpc => ?_)
    · rwa [SharedRing.setPc_sys]
    · rw [SharedRing.setPc_sys]
      rw [SharedRing.pc_setPc] at hpc
      split at hpc
      · exact absurd rfl hpc
      · exact hidle side' hpc

/-- A side that is attached makes a call or goes on with one. -/
theorem SharedRing.Inv.call (h : s.Inv g) {sys : RingSys} (side : RingSide) (hside : s.pc side = .attached)
    (hinv : s.sys.Inv g → sys.Inv g) (hidle : ∀ side', side' ≠ side → s.sys.Idle side' → sys.Idle side') :
    ({ s with sys } : SharedRing).Inv g := by
  cases h with
  | fresh hnone => exact absurd hside (hnone side)
  | live hsome hold hkeep =>
    refine .live ⟨side, by rwa [SharedRing.pc_sys]⟩ (hinv hold) fun side' hpc => ?_
    rw [SharedRing.pc_sys] at hpc
    exact hidle side' (fun heq => hpc (heq ▸ hside)) (hkeep side' hpc)

/-- The steps of the calls; without a call there is none. -/
theorem SharedRing.Inv.step (h : s.Inv g) {sys : RingSys} (hinv : s.sys.Inv g → sys.Inv g)
    (hidle : ∀ side, s.sys.Idle side → sys.Idle side)
    (hhead : (∀ side, s.sys.Idle side) → sys.ring.head = s.sys.ring.head) :
    ({ s with sys } : SharedRing).Inv g := by
  cases h with
  | fresh hnone hold hzero =>
    refine .fresh (fun side => ?_) (fun side => hidle side (hold side)) (fun side hpc => ?_)
    · rw [SharedRing.pc_sys]
      exact hnone side
    · rw [SharedRing.pc_sys] at hpc
      exact (hhead hold).trans (hzero side hpc)
  | live hsome hold hkeep =>
    obtain ⟨side, hside⟩ := hsome
    refine .live ⟨side, by rwa [SharedRing.pc_sys]⟩ (hinv hold) fun side' hpc => ?_
    rw [SharedRing.pc_sys] at hpc
    exact hidle side' (hkeep side' hpc)

/-- **Every step keeps the invariant.** -/
theorem SharedRing.Inv.act {a : SharedAct} (h : s.Inv g) (hok : AttachesInTime s a)
    (hact : sharedAct g nonBlocking s a = some s') : s'.Inv g := by
  -- the three steps of an attach
  cases a with
  | attach side =>
    obtain ⟨hside, hs⟩ := Option.ite_none_right_eq_some.mp hact
    cases hs
    exact h.setPc (by rw [hside]; decide) (by decide) fun hp => by cases hp
  | storeHead side =>
    obtain ⟨hside, hs⟩ := Option.ite_none_right_eq_some.mp hact
    cases hs
    exact h.storeHead hside fun hconsumer => hok (hconsumer ▸ rfl)
  | storeTail side =>
    obtain ⟨hside, hs⟩ := Option.ite_none_right_eq_some.mp hact
    cases hs
    exact h.storeTail hside
  -- the start of a call, by a side that is attached
  | write src =>
    obtain ⟨⟨hside, hwriter⟩, hs⟩ := Option.ite_none_right_eq_some.mp hact
    cases hs
    refine h.call .producer hside (fun hinv => hinv.callWrite hwriter src) fun side hne hidle => ?_
    cases side with
    | producer => exact absurd rfl hne
    | consumer => exact hidle
  | read n =>
    obtain ⟨⟨hside, hreader⟩, hs⟩ := Option.ite_none_right_eq_some.mp hact
    cases hs
    refine h.call .consumer hside (fun hinv => hinv.callRead hreader n) fun side hne hidle => ?_
    cases side with
    | producer => exact hidle
    | consumer => exact absurd rfl hne
  -- one step of a call in progress
  | writer =>
    cases hact
    refine h.step (fun hinv => hinv.stepWriter) (fun side => stepWriter_idle g) fun hidle => ?_
    rw [RingSys.stepWriter, (hidle .producer).1]
  | reader =>
    cases hact
    refine h.step (fun hinv => (hinv.mode nonBlocking).stepReader.mode g.nonBlocking)
      (fun side => stepReader_idle _) fun hidle => ?_
    rw [RingSys.stepReader, (hidle .consumer).1]

/-! ### Runs

A ring that both sides attach to in time is a FIFO; one attached to late loses octets. -/

theorem SharedRun.inv (h : SharedRun g nonBlocking AttachesInTime s) : s.Inv g := by
  induction h with
  | init ring =>
    refine .fresh (fun side => ?_) (fun side => ?_) (fun side hpc => ?_)
    · cases side with
      | producer => exact show AttachPc.away ≠ .attached by decide
      | consumer => exact show AttachPc.away ≠ .attached by decide
    · cases side with
      | producer => exact ⟨rfl, rfl⟩
      | consumer => exact ⟨rfl, rfl⟩
    · cases side with
      | producer => cases hpc
      | consumer => cases hpc
  | act _ hok hact ih => exact ih.act hok hact

/-- **A ring in shared memory loses nothing** as long as the consumer attaches in time: whatever the
block held before and in whatever order the steps of the two attaches, of the writes and of the
reads come, what was read is a prefix of what was written. -/
theorem shared_ring_fifo (g : RingCfg) (nonBlocking : Bool) {s : SharedRing}
    (h : SharedRun g nonBlocking AttachesInTime s) : s.sys.received <+: s.sys.sent := by
  cases h.inv with
  | fresh hnone hidle hhead =>
    rw [(hidle .consumer).received]
    exact List.nil_prefix
  | live hsome hinv hidle =>
    rw [hinv.holds.read]
    exact List.take_prefix _ _

/-- The steps of a script, as far as they can be taken. -/
def sharedScript (g : RingCfg) (nonBlocking : Bool) (acts : List SharedAct) (s : SharedRing) : Option SharedRing :=
  acts.foldlM (sharedAct g nonBlocking) s

theorem sharedScript_run {ok : SharedRing → SharedAct → Prop} (hok : ∀ t a, ok t a) (acts : List SharedAct)
    (hrun : SharedRun g nonBlocking ok s) (h : sharedScript g nonBlocking acts s = some s') :
    SharedRun g nonBlocking ok s' := by
  induction acts generalizing s with
  | nil =>
    cases h
    exact hrun
  | cons a acts ih =>
    rw [sharedScript, List.foldlM_cons] at h
    obtain ⟨t, ht, hrest⟩ := Option.bind_eq_some_iff.mp h
    exact ih (.act hrun (hok s a) ht) hrest

/-- The three steps of an attach. -/
def attachActs (side : RingSide) : List SharedAct := [.attach side, .storeHead side, .storeTail side]

/-- The producer attaches and writes an octet, and then the consumer attaches: what it reads is what
the producer writes after that. -/
theorem shared_ring_loses : ¬∀ (g : RingCfg) (nonBlocking : Bool) (s : SharedRing),
    SharedRun g nonBlocking (fun _ _ => True) s → s.sys.received <+: s.sys.sent := by
  intro h
  let g : RingCfg := { capacity := 3, pos := by decide, le_max := by decide }
  let acts : List SharedAct := attachActs .producer ++ .write [1] :: List.replicate 6 .writer ++
    attachActs .consumer ++ .write [2] :: List.replicate 6 .writer ++ .read 1 :: List.replicate 5 .reader
  have hresult : (sharedScript g true acts { sys := { ring := { data := fun _ => 0 } } }).map
      (fun s => (s.sys.received, s.sys.sent)) = some ([2], [1, 2]) := by decide +kernel
  obtain ⟨s, hs, hpair⟩ := Option.map_eq_some_iff.mp hresult
  obtain ⟨hreceived, hsent⟩ := Prod.mk.inj hpair
  have hprefix := h g true s (sharedScript_run (fun _ _ => trivial) acts (.init _) hs)
  rw [hreceived, hsent] at hprefix
  exact absurd hprefix (by decide)

/-- A consumer that attaches first. -/
theorem shared_ring_fifo_sample :
    let g : RingCfg := { capacity := 3, pos := by decide, le_max := by decide }
    ∃ s, sharedScript g true (attachActs .consumer) { sys := { ring := { data := fun _ => 0 } } } = some s ∧
      s.sys.received <+: s.sys.sent := by
  intro g
  have hother {t : SharedRing} {a : SharedAct} (ha : a ≠ .storeHead .consumer) : AttachesInTime t a :=
    fun h => absurd h ha
  let ring : Ring := { data := fun _ => 0 }
  have hrun : SharedRun g true AttachesInTime { sys := { ring }, consumer := .attached } :=
    .act (a := .storeTail .consumer)
      (.act (a := .storeHead .consumer)
        (.act (a := .attach .consumer) (.init ring) (hother (by decide)) rfl) (fun _ => rfl) rfl)
      (hother (by decide)) rfl
  exact ⟨_, rfl, shared_ring_fifo g true hrun⟩

end Zcio
