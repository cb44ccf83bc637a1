import Zcio.Ring.Spsc

/-!
# Zcio.Ring.Fifo

The ring is a FIFO whatever the order of the two sides' steps is.

The octets written are a stream, `sent`; those the consumer took are the first `received` of
them. The cursors are the lengths of the two modulo the capacity, and the slots between them
hold what is left (`RingHolds`). Each side works with a cursor of the other that may be out of
date: the consumer's can only have moved on since, which leaves the producer more room than it
knows of, and the other way around.
-/

namespace Zcio

open Lib.Circular

variable {g : RingCfg} {r : Ring} {sent received : Bytes}

/-! ### Cursors and distances

Both cursors run modulo the capacity. One slot stays free, so that the distance between them is
the number of octets stored and a full ring is not taken for an empty one. -/

theorem mod_capacity_lt (g : RingCfg) (p : Nat) : p % g.capacity < g.capacity :=
  Nat.mod_lt _ g.pos

/-- `zcio_ring_available_read` on the cursors of two positions. -/
theorem ringStored_mod {p q : Nat} (hqp : q ≤ p) (h : p - q < g.capacity) :
    ringStored g (p % g.capacity) (q % g.capacity) = p - q := by
  have hmax := g.le_max
  have hp := mod_capacity_lt g p
  have hq := mod_capacity_lt g q
  unfold ringStored
  rw [sizeAdd_of_lt (by omega), sizeSub_of_le (by omega) (by omega)]
  exact distance hqp h

/-- `zcio_ring_available_write` on the cursors of two positions. -/
theorem ringFree_mod {p q : Nat} (hqp : q ≤ p) (h : p - q < g.capacity) :
    ringFree g (p % g.capacity) (q % g.capacity) = g.capacity - 1 - (p - q) := by
  have hmax := g.le_max
  have hp := mod_capacity_lt g p
  have hq := mod_capacity_lt g q
  unfold ringFree
  rw [sizeAdd_of_lt (by omega), sizeSub_of_le (by omega) (by omega)]
  exact room hqp h

/-- The publication of a cursor moves it on by the chunk. -/
theorem sizeAdd_mod {p k : Nat} (hk : k < g.capacity) :
    sizeAdd (p % g.capacity) k % g.capacity = (p + k) % g.capacity := by
  have hmax := g.le_max
  have hp := mod_capacity_lt g p
  rw [sizeAdd_of_lt (by omega), Nat.mod_add_mod]

theorem ringEnd_eq (g : RingCfg) (cursor chunk : Nat) :
    ringEnd g cursor chunk = min chunk (g.capacity - cursor) := by
  unfold ringEnd
  split <;> omega

/-! ### What the block holds

The slots between the cursors hold the octets that were sent and not yet received, in order.
-/

/-- The block between a stream written and a stream read. -/
structure RingHolds (g : RingCfg) (r : Ring) (sent received : Bytes) : Prop where
  head : r.head = sent.length % g.capacity
  tail : r.tail = received.length % g.capacity
  le : received.length ≤ sent.length
  lt : sent.length - received.length < g.capacity
  read : received = sent.take received.length
  holds : Holds r.data g.capacity received.length (sent.drop received.length)

theorem RingHolds.init (g : RingCfg) (data : Nat → UInt8) : RingHolds g { data } [] [] where
  head := (Nat.zero_mod _).symm
  tail := (Nat.zero_mod _).symm
  le := Nat.le_refl 0
  lt := g.pos
  read := rfl
  holds := Holds.nil data g.capacity 0

theorem RingHolds.stored (h : RingHolds g r sent received) :
    zcioRingAvailableRead g r = sent.length - received.length := by
  unfold zcioRingAvailableRead
  rw [h.head, h.tail, ringStored_mod h.le h.lt]

theorem RingHolds.free (h : RingHolds g r sent received) :
    zcioRingAvailableWrite g r = g.capacity - 1 - (sent.length - received.length) := by
  unfold zcioRingAvailableWrite
  rw [h.head, h.tail, ringFree_mod h.le h.lt]

/-- A copy into free slots. -/
theorem RingHolds.copied {p : Nat} {b : Bytes} (h : RingHolds g r sent received)
    (hp : sent.length ≤ p) (hroom : p + b.length ≤ received.length + g.capacity)
    (hfit : p % g.capacity + b.length ≤ g.capacity) :
    RingHolds g { r with data := store r.data (p % g.capacity) b } sent received := by
  have hle := h.le
  refine { h with holds := h.holds.store_later ?_ hroom hfit }
  rw [List.length_drop]
  omega

/-- The producer publishes octets that are in place. -/
theorem RingHolds.published {b : Bytes} (h : RingHolds g r sent received)
    (hb : Holds r.data g.capacity sent.length b)
    (hroom : sent.length + b.length + 1 ≤ received.length + g.capacity) :
    RingHolds g { r with head := sizeAdd r.head b.length % g.capacity } (sent ++ b) received := by
  have hle := h.le
  refine ⟨?_, h.tail, ?_, ?_, ?_, ?_⟩
  · rw [h.head, sizeAdd_mod (by omega), List.length_append]
  · rw [List.length_append]; omega
  · rw [List.length_append]; omega
  · rw [List.take_append_of_le_length hle]
    exact h.read
  · rw [List.drop_append_of_le_length hle]
    refine h.holds.append ?_
    rwa [List.length_drop, Nat.add_sub_cancel' hle]

/-- The consumer gives slots back. -/
theorem RingHolds.taken {k : Nat} (h : RingHolds g r sent received)
    (hk : received.length + k ≤ sent.length) :
    RingHolds g { r with tail := sizeAdd r.tail k % g.capacity } sent
      (received ++ (sent.drop received.length).take k) := by
  have hlt := h.lt
  have hlen : (received ++ (sent.drop received.length).take k).length = received.length + k := by
    rw [List.length_append, List.length_take, List.length_drop]
    omega
  refine ⟨h.head, ?_, ?_, ?_, ?_, ?_⟩
  · rw [h.tail, sizeAdd_mod (by omega), hlen]
  · rw [hlen]; exact hk
  · rw [hlen]; omega
  · rw [hlen, List.take_add, ← h.read]
  · rw [hlen, ← List.drop_drop]
    exact h.holds.drop k

/-! ### A write on its way

A call of write loads the cursor of the other side, copies, and publishes. In between it may
be overtaken by a read, which only makes more room. -/

/-- What a producer with `p` octets published may rely on at each point of a write, when `q`
octets were taken. -/
structure WriteCall.Ok (g : RingCfg) (data : Nat → UInt8) (p q : Nat) (c : WriteCall) : Prop where
  written : c.written ≤ c.src.length
  pc : match c.pc with
    | .test => True
    | .loaded h => h = p % g.capacity
    | .avail a => p + a + 1 ≤ q + g.capacity
    | .copy h k => h = p % g.capacity ∧ p + k + 1 ≤ q + g.capacity ∧
        k ≤ c.src.length - c.written
    | .wrap h k => h = p % g.capacity ∧ p + k + 1 ≤ q + g.capacity ∧
        k ≤ c.src.length - c.written ∧ g.capacity < h + k ∧
        Holds data g.capacity p ((c.src.drop c.written).take (g.capacity - h))
    | .publish h k => h = p % g.capacity ∧ p + k + 1 ≤ q + g.capacity ∧
        k ≤ c.src.length - c.written ∧ Holds data g.capacity p ((c.src.drop c.written).take k)

/-- The consumer moving on only adds to the room. -/
theorem WriteCall.Ok.mono {data : Nat → UInt8} {p q q' : Nat} {c : WriteCall}
    (h : c.Ok g data p q) (hq : q ≤ q') : c.Ok g data p q' := by
  obtain ⟨hw, hpc⟩ := h
  refine ⟨hw, ?_⟩
  cases hc : c.pc with
  | test => trivial
  | loaded h => simpa only [hc] using hpc
  | avail a =>
    simp only [hc] at hpc ⊢
    omega
  | copy h k =>
    simp only [hc] at hpc ⊢
    exact ⟨hpc.1, by omega, hpc.2.2⟩
  | wrap h k =>
    simp only [hc] at hpc ⊢
    exact ⟨hpc.1, by omega, hpc.2.2⟩
  | publish h k =>
    simp only [hc] at hpc ⊢
    exact ⟨hpc.1, by omega, hpc.2.2⟩

/-- **A step of a write** leaves the published octets alone, or publishes the next ones of the
call; at the end the result is what it published. -/
theorem ringWriteStep_ok {c : WriteCall} (hr : RingHolds g r sent received)
    (hc : c.Ok g r.data sent.length received.length) :
    match ringWriteStep g r c with
    | (r', .inl c') => ∃ b, RingHolds g r' (sent ++ b) received ∧ c'.src = c.src ∧
        c.src.take c'.written = c.src.take c.written ++ b ∧
        c'.Ok g r'.data (sent ++ b).length received.length
    | (r', .inr n) => r' = r ∧ n = c.written := by
  obtain ⟨src, written, spins, pc⟩ := c
  obtain ⟨hw, hpc⟩ := hc
  have hle := hr.le
  have hlt := hr.lt
  have hmod := mod_capacity_lt g sent.length
  -- a step that leaves the ring as it is and goes on at `pc'`
  have stay : ∀ spins' pc', WriteCall.Ok g r.data sent.length received.length
      ⟨src, written, spins', pc'⟩ →
      ∃ b, RingHolds g r (sent ++ b) received ∧ src = src ∧
        src.take written = src.take written ++ b ∧
        WriteCall.Ok g r.data (sent ++ b).length received.length ⟨src, written, spins', pc'⟩ :=
    fun _ _ hok => ⟨[], by rwa [List.append_nil], rfl, by rw [List.append_nil],
      by rwa [List.append_nil]⟩
  cases pc with
  | test =>
    unfold ringWriteStep
    dsimp only
    split_ifs with hlt
    · exact stay _ _ ⟨hw, hr.head⟩
    · exact ⟨rfl, rfl⟩
  | loaded h =>
    unfold ringWriteStep
    refine stay _ _ ⟨hw, ?_⟩
    dsimp only at hpc ⊢
    rw [hpc, hr.tail, ringFree_mod hle hlt]
    omega
  | avail a =>
    unfold ringWriteStep
    dsimp only
    split_ifs
    · exact ⟨rfl, rfl⟩
    · exact stay _ _ ⟨hw, trivial⟩
    · exact stay _ _ ⟨hw, trivial⟩
    · refine stay _ _ ⟨hw, hr.head, ?_, by dsimp only; omega⟩
      dsimp only at hpc ⊢
      omega
  | copy h k =>
    obtain ⟨rfl, hroom, hk⟩ := hpc
    dsimp only at hk
    unfold ringWriteStep
    dsimp only
    have hend := ringEnd_eq g (sent.length % g.capacity) k
    generalize ringEnd g (sent.length % g.capacity) k = e at hend ⊢
    have hlen : ((src.drop written).take e).length = e := by
      rw [List.length_take, List.length_drop]
      omega
    have hnew : Holds (store r.data (sent.length % g.capacity) ((src.drop written).take e))
        g.capacity sent.length ((src.drop written).take e) := Holds.store (by omega)
    refine ⟨[], ?_, rfl, by rw [List.append_nil], hw, ?_⟩
    · rw [List.append_nil]
      exact hr.copied le_rfl (by omega) (by omega)
    · rw [List.append_nil]
      dsimp only
      split_ifs with hmore
      · refine ⟨rfl, hroom, hk, by omega, ?_⟩
        rwa [show g.capacity - sent.length % g.capacity = e by omega]
      · refine ⟨rfl, hroom, hk, ?_⟩
        rwa [show k = e by omega]
  | wrap h k =>
    obtain ⟨rfl, hroom, hk, hwrap, hfirst⟩ := hpc
    dsimp only at hk hfirst
    unfold ringWriteStep
    dsimp only
    have hend : ringEnd g (sent.length % g.capacity) k =
        g.capacity - sent.length % g.capacity := by
      rw [ringEnd_eq]
      omega
    rw [hend]
    -- both copies together are that of `b`
    obtain ⟨b, hb⟩ : ∃ b, b = (src.drop written).take k := ⟨_, rfl⟩
    have hlen : b.length = k := by
      rw [hb, List.length_take, List.length_drop]
      omega
    have hdrop : (src.drop (written + (g.capacity - sent.length % g.capacity))).take
        (k - (g.capacity - sent.length % g.capacity)) =
        b.drop (g.capacity - sent.length % g.capacity) := by
      rw [hb, List.drop_take, List.drop_drop]
    have htake : (src.drop written).take (g.capacity - sent.length % g.capacity) =
        b.take (g.capacity - sent.length % g.capacity) := by
      rw [hb, List.take_take, min_eq_left (by omega)]
    have hround := mod_round (n := g.capacity) (by omega) sent.length
    have hsecond := List.length_drop (l := b) (i := g.capacity - sent.length % g.capacity)
    rw [hdrop]
    rw [htake] at hfirst
    refine ⟨[], ?_, rfl, by rw [List.append_nil], hw, ?_⟩
    · rw [List.append_nil, ← hround]
      exact hr.copied (by omega) (by omega) (by omega)
    · rw [List.append_nil]
      refine ⟨rfl, hroom, hk, ?_⟩
      dsimp only
      rw [← hb]
      exact hfirst.store_front (by omega) (by omega) (by omega)
  | publish h k =>
    obtain ⟨rfl, hroom, hk, hb⟩ := hpc
    dsimp only at hw hk hb
    unfold ringWriteStep
    dsimp only
    have hlen : ((src.drop written).take k).length = k := by
      rw [List.length_take, List.length_drop]; omega
    refine ⟨(src.drop written).take k, ?_, rfl, List.take_add, by dsimp only; omega, trivial⟩
    have hpub := hr.published hb (by rw [hlen]; exact hroom)
    rwa [hlen, hr.head] at hpub

/-! ### A read on its way

A call of read, the same way round. -/

/-- What a consumer that took `q` octets may rely on at each point of a read. -/
structure ReadCall.Ok (g : RingCfg) (sent : Bytes) (q : Nat) (c : ReadCall) : Prop where
  got : c.got ≤ c.n
  dst : c.got ≤ c.dst.length
  pc : match c.pc with
    | .test => True
    | .loaded h => ∃ p, q ≤ p ∧ p ≤ sent.length ∧ h = p % g.capacity
    | .avail a => q + a ≤ sent.length
    | .copy t k => t = q % g.capacity ∧ q + k ≤ sent.length ∧ k ≤ c.n - c.got
    | .wrap t k => t = q % g.capacity ∧ q + k ≤ sent.length ∧ k ≤ c.n - c.got ∧
        g.capacity < t + k ∧ c.dst.drop c.got = (sent.drop q).take (g.capacity - t)
    | .publish t k => t = q % g.capacity ∧ q + k ≤ sent.length ∧ k ≤ c.n - c.got ∧
        c.dst.drop c.got = (sent.drop q).take k

theorem take_drop_append (b : Bytes) {q k : Nat} (h : q + k ≤ sent.length) :
    ((sent ++ b).drop q).take k = (sent.drop q).take k := by
  rw [List.drop_append_of_le_length (by omega), List.take_append_of_le_length]
  rw [List.length_drop]
  omega

/-- What the producer publishes goes behind what the consumer looks at. -/
theorem ReadCall.Ok.mono {q : Nat} {c : ReadCall} (h : c.Ok g sent q) (b : Bytes) :
    c.Ok g (sent ++ b) q := by
  obtain ⟨hg, hd, hpc⟩ := h
  refine ⟨hg, hd, ?_⟩
  have hlen : (sent ++ b).length = sent.length + b.length := List.length_append
  cases hc : c.pc with
  | test => trivial
  | loaded h =>
    simp only [hc] at hpc ⊢
    obtain ⟨p, hqp, hp, rfl⟩ := hpc
    exact ⟨p, hqp, by omega, rfl⟩
  | avail a =>
    simp only [hc] at hpc ⊢
    omega
  | copy t k =>
    simp only [hc] at hpc ⊢
    exact ⟨hpc.1, by omega, hpc.2.2⟩
  | wrap t k =>
    simp only [hc] at hpc ⊢
    obtain ⟨ht, hk, hn, hwrap, hdst⟩ := hpc
    exact ⟨ht, by omega, hn, hwrap, by rw [hdst, take_drop_append b (by omega)]⟩
  | publish t k =>
    simp only [hc] at hpc ⊢
    obtain ⟨ht, hk, hn, hdst⟩ := hpc
    exact ⟨ht, by omega, hn, by rw [hdst, take_drop_append b hk]⟩

/-- **A step of a read** takes nothing, or gives the slots back whose octets it has copied; at
the end it returns what it took. -/
theorem ringReadStep_ok {c : ReadCall} (hr : RingHolds g r sent received)
    (hc : c.Ok g sent received.length) :
    match ringReadStep g r c with
    | (r', .inl c') => ∃ b, RingHolds g r' sent (received ++ b) ∧ r'.data = r.data ∧ c'.n = c.n ∧
        c'.dst.take c'.got = c.dst.take c.got ++ b ∧
        c'.Ok g sent (received ++ b).length
    | (r', .inr b) => r' = r ∧ b = c.dst.take c.got := by
  obtain ⟨n, dst, got, spins, pc⟩ := c
  obtain ⟨hg, hd, hpc⟩ := hc
  dsimp only at hg hd
  have hle := hr.le
  have hlt := hr.lt
  have hmod := mod_capacity_lt g received.length
  have hunread : (sent.drop received.length).length = sent.length - received.length :=
    List.length_drop
  -- a step that leaves the ring as it is
  have stay : ∀ dst' spins' pc', dst'.take got = dst.take got →
      ReadCall.Ok g sent received.length ⟨n, dst', got, spins', pc'⟩ →
      ∃ b, RingHolds g r sent (received ++ b) ∧ r.data = r.data ∧ n = n ∧
        dst'.take got = dst.take got ++ b ∧
        ReadCall.Ok g sent (received ++ b).length ⟨n, dst', got, spins', pc'⟩ :=
    fun _ _ _ heq hok => ⟨[], by rwa [List.append_nil], rfl, rfl, by rwa [List.append_nil],
      by rwa [List.append_nil]⟩
  cases pc with
  | test =>
    unfold ringReadStep
    dsimp only
    split_ifs
    · exact stay _ _ _ rfl ⟨hg, hd, sent.length, hle, le_rfl, hr.head⟩
    · exact ⟨rfl, rfl⟩
  | loaded h =>
    -- the producer may have published more since `head` was loaded
    obtain ⟨p, hqp, hp, rfl⟩ := hpc
    unfold ringReadStep
    refine stay _ _ _ rfl ⟨hg, hd, ?_⟩
    dsimp only
    rw [hr.tail, ringStored_mod hqp (by omega)]
    omega
  | avail a =>
    unfold ringReadStep
    dsimp only at hpc ⊢
    split_ifs
    · exact ⟨rfl, rfl⟩
    · exact stay _ _ _ rfl ⟨hg, hd, trivial⟩
    · exact stay _ _ _ rfl ⟨hg, hd, trivial⟩
    · exact stay _ _ _ rfl ⟨hg, hd, hr.tail, by omega, by dsimp only; omega⟩
  | copy t k =>
    obtain ⟨rfl, hk, hn⟩ := hpc
    unfold ringReadStep
    dsimp only at hn ⊢
    have hend := ringEnd_eq g (received.length % g.capacity) k
    generalize ringEnd g (received.length % g.capacity) k = e at hend ⊢
    rw [hr.holds.load (by omega) (by omega)]
    have hlen : (dst.take got).length = got := List.length_take_of_le hd
    refine stay _ _ _ (List.take_left' hlen) ⟨hg, ?_, ?_⟩
    · dsimp only
      rw [List.length_append]
      omega
    · have hdrop : (dst.take got ++ (sent.drop received.length).take e).drop got =
          (sent.drop received.length).take e := List.drop_left' hlen
      dsimp only
      split_ifs with hmore
      · refine ⟨rfl, hk, hn, by omega, ?_⟩
        rw [hdrop, show g.capacity - received.length % g.capacity = e by omega]
      · refine ⟨rfl, hk, hn, ?_⟩
        rw [hdrop, show k = e by omega]
  | wrap t k =>
    obtain ⟨rfl, hk, hn, hwrap, hfirst⟩ := hpc
    unfold ringReadStep
    dsimp only at hn hfirst ⊢
    have hend : ringEnd g (received.length % g.capacity) k =
        g.capacity - received.length % g.capacity := by
      rw [ringEnd_eq]
      omega
    rw [hend]
    generalize he : g.capacity - received.length % g.capacity = e at hfirst ⊢
    -- the second copy starts at position `received.length + e`
    have hround := mod_round (n := g.capacity) (by omega) received.length
    rw [he] at hround
    have hsecond := (hr.holds.drop e).load (k := k - e) (by rw [List.length_drop]; omega) (by omega)
    rw [hround] at hsecond
    rw [hsecond]
    have hdlen : dst.length = got + e := by
      have := congrArg List.length hfirst
      rw [List.length_drop, List.length_take] at this
      omega
    rw [List.take_of_length_le (l := dst) (by omega)]
    refine stay _ _ _ (List.take_append_of_le_length hd) ⟨hg, ?_, rfl, hk, hn, ?_⟩
    · dsimp only
      rw [List.length_append]
      omega
    · dsimp only
      rw [List.drop_append_of_le_length hd, hfirst, ← List.take_add]
      congr 1
      omega
  | publish t k =>
    obtain ⟨rfl, hk, hn, hdst⟩ := hpc
    unfold ringReadStep
    dsimp only at hn hdst ⊢
    have hlen : ((sent.drop received.length).take k).length = k := by
      rw [List.length_take]
      omega
    have htaken := hr.taken hk
    rw [hr.tail] at htaken
    refine ⟨(sent.drop received.length).take k, htaken, rfl, rfl, ?_, by dsimp only; omega, ?_,
      trivial⟩
    · rw [List.take_add, hdst, List.take_take, min_self]
    · have := congrArg List.length hdst
      rw [hlen, List.length_drop] at this
      dsimp only
      omega

/-! ### Every order of the steps

The invariant under a step of either side, and so under any interleaving of the two. -/

/-- The invariant of a ring with both sides. -/
structure RingSys.Inv (g : RingCfg) (s : RingSys) : Prop where
  holds : RingHolds g s.ring s.sent s.received
  writer : ∀ c, s.writer = some c → c.Ok g s.ring.data s.sent.length s.received.length
  reader : ∀ c, s.reader = some c → c.Ok g s.sent s.received.length

theorem RingSys.Inv.stepWriter {s : RingSys} (h : s.Inv g) : (s.stepWriter g).Inv g := by
  obtain ⟨r, w, rd, ws, rs⟩ := s
  obtain ⟨hr, hw, hrd⟩ := h
  cases w with
  | none => exact ⟨hr, hw, hrd⟩
  | some c =>
    have hstep := ringWriteStep_ok hr (hw c rfl)
    unfold RingSys.stepWriter
    dsimp only
    rcases hres : ringWriteStep g r c with ⟨r', c' | n⟩
    · rw [hres] at hstep
      obtain ⟨b, hr', hsrc, hb, hok⟩ := hstep
      -- what the step publishes follows what the call has published
      have hsent : RingSys.sent ⟨r', some c', rd, ws, rs⟩ =
          RingSys.sent ⟨r, some c, rd, ws, rs⟩ ++ b := by
        simp only [RingSys.sent, Option.map_some, Option.getD_some, hsrc, hb, List.append_assoc]
      refine ⟨?_, ?_, ?_⟩
      · rw [hsent]
        exact hr'
      · intro c'' hc''
        cases hc''
        rw [hsent]
        exact hok
      · intro c'' hc''
        rw [hsent]
        exact (hrd c'' hc'').mono b
    · rw [hres] at hstep
      obtain ⟨rfl, rfl⟩ := hstep
      have hsent : RingSys.sent ⟨r', none, rd, ws ++ [(c.src, c.written)], rs⟩ =
          RingSys.sent ⟨r', some c, rd, ws, rs⟩ := by
        simp [RingSys.sent]
      refine ⟨?_, nofun, ?_⟩
      · rw [hsent]
        exact hr
      · rw [hsent]
        exact hrd

theorem RingSys.Inv.stepReader {s : RingSys} (h : s.Inv g) : (s.stepReader g).Inv g := by
  obtain ⟨r, w, rd, ws, rs⟩ := s
  obtain ⟨hr, hw, hrd⟩ := h
  -- no read in progress
  cases rd with
  | none => exact ⟨hr, hw, hrd⟩
  | some c =>
    have hstep := ringReadStep_ok hr (hrd c rfl)
    unfold RingSys.stepReader
    dsimp only
    -- a step within the call
    rcases hres : ringReadStep g r c with ⟨r', c' | b⟩
    · rw [hres] at hstep
      obtain ⟨b, hr', hdata, -, hb, hok⟩ := hstep
      have hreceived : RingSys.received ⟨r', w, some c', ws, rs⟩ =
          RingSys.received ⟨r, w, some c, ws, rs⟩ ++ b := by
        simp only [RingSys.received, Option.map_some, Option.getD_some, hb, List.append_assoc]
      -- what was received grows by what the step copied
      refine ⟨?_, ?_, ?_⟩
      · rw [hreceived]
        exact hr'
      · intro c'' hc''
        rw [hreceived]
        dsimp only
        rw [hdata]
        exact (hw c'' hc'').mono (by rw [List.length_append]; omega)
      · intro c'' hc''
        cases hc''
        rw [hreceived]
        exact hok
    · -- the call ends, and hands over what it has
      rw [hres] at hstep
      obtain ⟨rfl, rfl⟩ := hstep
      have hreceived : RingSys.received ⟨r', w, none, ws, rs ++ [c.dst.take c.got]⟩ =
          RingSys.received ⟨r', w, some c, ws, rs⟩ := by
        simp [RingSys.received]
      refine ⟨?_, ?_, nofun⟩
      · rw [hreceived]
        exact hr
      · rw [hreceived]
        exact hw

/-- A call that has just been made has neither published nor taken anything. -/
theorem RingSys.Inv.callWrite {s : RingSys} (h : s.Inv g) (hidle : s.writer = none) (src : Bytes) :
    (s.callWrite src).Inv g := by
  have hsent : (s.callWrite src).sent = s.sent := by simp [RingSys.callWrite, RingSys.sent, hidle]
  refine ⟨by rw [hsent]; exact h.holds, ?_, by rw [hsent]; exact h.reader⟩
  intro c hc
  cases hc
  exact ⟨Nat.zero_le _, trivial⟩

theorem RingSys.Inv.callRead {s : RingSys} (h : s.Inv g) (hidle : s.reader = none) (n : Nat) :
    (s.callRead n).Inv g := by
  have hreceived : (s.callRead n).received = s.received := by
    simp [RingSys.callRead, RingSys.received, hidle]
  refine ⟨by rw [hreceived]; exact h.holds, by rw [hreceived]; exact h.writer, ?_⟩
  intro c hc
  cases hc
  exact ⟨Nat.zero_le _, Nat.zero_le _, trivial⟩

/-- **Every run keeps the invariant.** -/
theorem RingRun.inv {s : RingSys} (h : RingRun g s) : s.Inv g := by
  induction h with
  | init data => exact ⟨RingHolds.init g data, nofun, nofun⟩
  | write src _ hidle ih => exact ih.callWrite hidle src
  | read n _ hidle ih => exact ih.callRead hidle n
  | writer _ ih => exact ih.stepWriter
  | reader _ ih => exact ih.stepReader

theorem RingRun.iterateWriter {s : RingSys} (h : RingRun g s) (k : Nat) :
    RingRun g ((RingSys.stepWriter g)^[k] s) := by
  induction k generalizing s with
  | zero => exact h
  | succ k ih => exact ih h.writer

/-! ### The slots written to

No slot that still holds an octet to be read is written to. -/

/-- Slot `i` holds an octet that was published and not taken. -/
def Ring.unread (g : RingCfg) (r : Ring) (i : Nat) : Prop :=
  i < g.capacity ∧ (i + g.capacity - r.tail) % g.capacity < zcioRingAvailableRead g r

/-- The producer's next step writes to slot `i`. -/
def WriteCall.overwrites (g : RingCfg) (c : WriteCall) (i : Nat) : Prop :=
  match c.pc with
  | .copy h chunk => h ≤ i ∧ i < h + ringEnd g h chunk
  | .wrap h chunk => i < chunk - ringEnd g h chunk
  | _ => False

/-- The slot of a position that is not published yet is free. -/
theorem RingHolds.not_unread (h : RingHolds g r sent received) {p : Nat} (hp : sent.length ≤ p)
    (hroom : p < received.length + g.capacity) : ¬ r.unread g (p % g.capacity) := by
  have hle := h.le
  rintro ⟨-, hlt⟩
  rw [h.stored, h.tail, distance (by omega) (by omega)] at hlt
  omega

theorem RingHolds.overwrites (h : RingHolds g r sent received) {c : WriteCall}
    (hc : c.Ok g r.data sent.length received.length) {i : Nat} (hi : c.overwrites g i) :
    i < g.capacity ∧ ¬ r.unread g i := by
  have hle := h.le
  have hmod := mod_capacity_lt g sent.length
  have hpc := hc.pc
  unfold WriteCall.overwrites at hi
  split at hi
  next t k heq =>
    simp only [heq] at hpc
    obtain ⟨rfl, hroom, -⟩ := hpc
    rw [ringEnd_eq] at hi
    have hslot := mod_add (p := sent.length) (i := i - sent.length % g.capacity) (n := g.capacity)
      (by omega)
    rw [Nat.add_sub_cancel' hi.1] at hslot
    refine ⟨by omega, ?_⟩
    rw [← hslot]
    exact h.not_unread (by omega) (by omega)
  next t k heq =>
    simp only [heq] at hpc
    obtain ⟨rfl, hroom, -, hwrap, -⟩ := hpc
    rw [ringEnd_eq] at hi
    have hround := mod_round (n := g.capacity) (by omega) sent.length
    have hslot := mod_add (p := sent.length + (g.capacity - sent.length % g.capacity)) (i := i)
      (n := g.capacity) (by omega)
    rw [hround, Nat.zero_add] at hslot
    refine ⟨by omega, ?_⟩
    rw [← hslot]
    exact h.not_unread (by omega) (by omega)
  next => exact hi.elim

/-! ### One side alone

A call that is not interleaved moves as many octets as there is room for or as are there. -/

/-- One more step to the front of a run of steps. -/
theorem iterate_step {α : Type} {f : α → α} {s t : α} (h : ∃ k, f^[k] (f s) = t) :
    ∃ k, f^[k] s = t := by
  obtain ⟨k, hk⟩ := h
  exact ⟨k + 1, hk⟩

variable (w : Option WriteCall) (rd : Option ReadCall) (ws : List (Bytes × Nat)) (rs : List Bytes)

/-- A write that finds the ring full comes back with what it has written. -/
theorem stepWriter_full (hnb : g.nonBlocking = true) (hfull : zcioRingAvailableWrite g r = 0)
    (src : Bytes) (written spins : Nat) (hlt : written < src.length) :
    ∃ k, (RingSys.stepWriter g)^[k] ⟨r, some ⟨src, written, spins, .test⟩, rd, ws, rs⟩ =
      ⟨r, none, rd, ws ++ [(src, written)], rs⟩ := by
  have hfull' : ringFree g r.head r.tail = 0 := hfull
  -- the spins that are left
  induction hn : 101 - spins generalizing spins with
  | zero =>
    refine iterate_step (iterate_step (iterate_step ⟨0, ?_⟩))
    simp [RingSys.stepWriter, ringWriteStep, hlt, hfull', hnb, show 100 < spins by omega]
  | succ n ih =>
    rcases Nat.eq_zero_or_pos written with rfl | hpos
    · have hspins : ¬ 100 < spins := by omega
      refine iterate_step (iterate_step (iterate_step ?_))
      have := ih (spins + 1) (by omega)
      simpa [RingSys.stepWriter, ringWriteStep, hlt, hfull', hnb, hspins] using this
    · refine iterate_step (iterate_step (iterate_step ⟨0, ?_⟩))
      simp [RingSys.stepWriter, ringWriteStep, hlt, hfull', hnb, hpos]

/-- The chunk of a write that finds room is in the ring at its next test. -/
theorem stepWriter_chunk (src : Bytes) (hpos : 0 < src.length)
    (hroom : zcioRingAvailableWrite g r ≠ 0) :
    ∃ k r', (RingSys.stepWriter g)^[k] ⟨r, some ⟨src, 0, 0, .test⟩, rd, ws, rs⟩ =
      ⟨r', some ⟨src, min (zcioRingAvailableWrite g r) src.length, 0, .test⟩, rd, ws, rs⟩ := by
  have hroom' : ringFree g r.head r.tail ≠ 0 := hroom
  unfold zcioRingAvailableWrite
  generalize hchunk : min (ringFree g r.head r.tail) src.length = chunk
  by_cases hwrap : chunk > ringEnd g r.head chunk
  · refine ⟨6, ?_⟩
    simp [Function.iterate_succ, RingSys.stepWriter, ringWriteStep, hpos, hroom', hchunk, hwrap]
  · refine ⟨5, ?_⟩
    simp [Function.iterate_succ, RingSys.stepWriter, ringWriteStep, hpos, hroom', hchunk, hwrap]

theorem RingSys.Inv.iterateWriter {s : RingSys} (h : s.Inv g) (k : Nat) : ((RingSys.stepWriter g)^[k] s).Inv g := by
  induction k generalizing s with
  | zero => exact h
  | succ k ih => exact ih h.stepWriter

/-- **A write without a consumer** stores what there is room for. -/
theorem callWrite_alone {s : RingSys} (hs : s.Inv g) (hidle : s.writer = none)
    (hnb : g.nonBlocking = true) (src : Bytes) :
    ∃ k ring, (RingSys.stepWriter g)^[k] (s.callWrite src) = { s with
      ring, writes := s.writes ++ [(src, min src.length (zcioRingAvailableWrite g s.ring))] } := by
  have hcall := hs.callWrite hidle src
  obtain ⟨r, w, rd, ws, rs⟩ := s
  cases hidle
  rcases Nat.eq_zero_or_pos src.length with hzero | hpos
  · refine ⟨1, r, ?_⟩
    simp [RingSys.callWrite, RingSys.stepWriter, ringWriteStep, hzero]
  by_cases hfull : zcioRingAvailableWrite g r = 0
  · obtain ⟨k, hk⟩ := stepWriter_full rd ws rs hnb hfull src 0 0 hpos
    refine ⟨k, r, ?_⟩
    rw [hfull, Nat.min_zero]
    exact hk
  obtain ⟨k, r', hk⟩ := stepWriter_chunk rd ws rs src hpos hfull
  have hinv := hcall.iterateWriter k
  unfold RingSys.callWrite at hinv ⊢
  dsimp only at hinv ⊢
  rw [hk] at hinv
  rcases Nat.lt_or_ge (zcioRingAvailableWrite g r) src.length with hlt | hge
  · -- the chunk took all of the room
    rw [min_eq_left hlt.le] at hk hinv
    have hfree : zcioRingAvailableWrite g r' = 0 := by
      have hbefore := hs.holds.free
      have hle := hs.holds.le
      rw [hinv.holds.free]
      simp only [RingSys.sent, RingSys.received, Option.map_some, Option.map_none, Option.getD_some,
        Option.getD_none, List.length_append, List.length_take_of_le hlt.le, List.length_nil] at *
      omega
    obtain ⟨k', hk'⟩ := stepWriter_full rd ws rs hnb hfree src
      (zcioRingAvailableWrite g r) 0 hlt
    refine ⟨k' + k, r', ?_⟩
    rw [Function.iterate_add_apply, hk, hk', min_eq_right hlt.le]
  · rw [min_eq_right hge] at hk
    refine ⟨1 + k, r', ?_⟩
    rw [Function.iterate_add_apply, hk, min_eq_left hge]
    simp [RingSys.stepWriter, ringWriteStep]

/-! The same for a read. -/

/-- A read that finds the ring empty comes back with what it got. -/
theorem stepReader_empty (hnb : g.nonBlocking = true) (hempty : zcioRingAvailableRead g r = 0)
    (n : Nat) (dst : Bytes) (got spins : Nat) (hlt : got < n) :
    ∃ k, (RingSys.stepReader g)^[k] ⟨r, w, some ⟨n, dst, got, spins, .test⟩, ws, rs⟩ =
      ⟨r, w, none, ws, rs ++ [dst.take got]⟩ := by
  have hempty' : ringStored g r.head r.tail = 0 := hempty
  induction hm : 1000001 - spins generalizing spins with
  | zero =>
    refine iterate_step (iterate_step (iterate_step ⟨0, ?_⟩))
    simp [RingSys.stepReader, ringReadStep, hlt, hempty', hnb, show 1000000 < spins by omega]
  | succ m ih =>
    rcases Nat.eq_zero_or_pos got with rfl | hpos
    · have hspins : ¬ 1000000 < spins := by omega
      refine iterate_step (iterate_step (iterate_step ?_))
      have := ih (spins + 1) (by omega)
      simpa [RingSys.stepReader, ringReadStep, hlt, hempty', hnb, hspins] using this
    · refine iterate_step (iterate_step (iterate_step ⟨0, ?_⟩))
      simp [RingSys.stepReader, ringReadStep, hlt, hempty', hnb, hpos]

theorem stepReader_chunk (n : Nat) (hpos : 0 < n) (hsome : zcioRingAvailableRead g r ≠ 0) :
    ∃ k r' dst, (RingSys.stepReader g)^[k] ⟨r, w, some ⟨n, [], 0, 0, .test⟩, ws, rs⟩ =
      ⟨r', w, some ⟨n, dst, min (zcioRingAvailableRead g r) n, 0, .test⟩, ws, rs⟩ := by
  have hsome' : ringStored g r.head r.tail ≠ 0 := hsome
  unfold zcioRingAvailableRead
  generalize hchunk : min (ringStored g r.head r.tail) n = chunk
  by_cases hwrap : chunk > ringEnd g r.tail chunk
  · refine ⟨6, ?_⟩
    simp [Function.iterate_succ, RingSys.stepReader, ringReadStep, hpos, hsome', hchunk, hwrap]
  · refine ⟨5, ?_⟩
    simp [Function.iterate_succ, RingSys.stepReader, ringReadStep, hpos, hsome', hchunk, hwrap]

theorem RingSys.Inv.iterateReader {s : RingSys} (h : s.Inv g) (k : Nat) :
    ((RingSys.stepReader g)^[k] s).Inv g := by
  induction k generalizing s with
  | zero => exact h
  | succ k ih => exact ih h.stepReader

/-- **A read without a producer** returns what is stored, as far as it was asked for. -/
theorem callRead_alone {s : RingSys} (hs : s.Inv g) (hidle : s.reader = none)
    (hnb : g.nonBlocking = true) (n : Nat) :
    ∃ k ring b, (RingSys.stepReader g)^[k] (s.callRead n) =
        { s with ring, reads := s.reads ++ [b] } ∧
      b.length = min n (zcioRingAvailableRead g s.ring) := by
  have hcall := hs.callRead hidle n
  obtain ⟨r, w, rd, ws, rs⟩ := s
  cases hidle
  -- nothing is asked for
  rcases Nat.eq_zero_or_pos n with rfl | hpos
  · refine ⟨1, r, [], ?_, by simp⟩
    simp [RingSys.callRead, RingSys.stepReader, ringReadStep]
  -- nothing is there
  by_cases hempty : zcioRingAvailableRead g r = 0
  · obtain ⟨k, hk⟩ := stepReader_empty w ws rs hnb hempty n [] 0 0 hpos
    exact ⟨k, r, [], hk, by rw [hempty]; simp⟩
  obtain ⟨k, r', dst, hk⟩ := stepReader_chunk w ws rs n hpos hempty
  have hinv := hcall.iterateReader k
  unfold RingSys.callRead at hinv ⊢
  dsimp only at hinv ⊢
  rw [hk] at hinv
  have hdst := (hinv.reader _ rfl).dst
  -- one chunk is copied: all that was asked for, or all that was there
  dsimp only at hdst
  -- the ring is empty behind it, and the next step ends the call
  rcases Nat.lt_or_ge (zcioRingAvailableRead g r) n with hlt | hge
  · rw [min_eq_left hlt.le] at hk hinv hdst
    have hstored : zcioRingAvailableRead g r' = 0 := by
      have hbefore := hs.holds.stored
      have hle := hs.holds.le
      rw [hinv.holds.stored]
      simp only [RingSys.sent, RingSys.received, Option.map_some, Option.map_none, Option.getD_some,
        Option.getD_none, List.length_append, List.length_take_of_le hdst, List.length_nil] at *
      omega
    obtain ⟨k', hk'⟩ := stepReader_empty w ws rs hnb hstored n dst
      (zcioRingAvailableRead g r) 0 hlt
    refine ⟨k' + k, r', _, ?_, List.length_take_of_le hdst |>.trans (min_eq_right hlt.le).symm⟩
    rw [Function.iterate_add_apply, hk, hk']
  · -- the call has what it asked for
    rw [min_eq_right hge] at hk hdst
    refine ⟨1 + k, r', dst.take n, ?_, List.length_take_of_le hdst |>.trans (min_eq_left hge).symm⟩
    rw [Function.iterate_add_apply, hk]
    simp [RingSys.stepReader, ringReadStep]

/-! ### The ring is a FIFO -/

/-- **The ring is a FIFO.** However the steps of the two sides are interleaved, the reads return
the octets written, in order and each once; the cursors stay in the block, and no slot with an
octet that is still to be read is written to. A side that is left alone gets as much done as
there is room or there are octets for. -/
theorem ring_fifo (g : RingCfg) {s : RingSys} (h : RingRun g s) :
    (s.reads.flatten <+: s.received ∧ s.received <+: s.sent) ∧
    (s.ring.head < g.capacity ∧ s.ring.tail < g.capacity) ∧
    (zcioRingAvailableRead g s.ring = s.sent.length - s.received.length ∧
      zcioRingAvailableRead g s.ring + zcioRingAvailableWrite g s.ring = g.capacity - 1) ∧
    (∀ c, s.writer = some c → ∀ i, c.overwrites g i → i < g.capacity ∧ ¬ s.ring.unread g i) ∧
    (g.nonBlocking = true →
      (s.writer = none → ∀ src, ∃ k ring,
        (RingSys.stepWriter g)^[k] (s.callWrite src) = { s with
          ring, writes := s.writes ++ [(src, min src.length (zcioRingAvailableWrite g s.ring))] }) ∧
      (s.reader = none → ∀ n, ∃ k ring b,
        (RingSys.stepReader g)^[k] (s.callRead n) = { s with ring, reads := s.reads ++ [b] } ∧
          b.length = min n (zcioRingAvailableRead g s.ring))) := by
  have hinv := h.inv
  have hlt := hinv.holds.lt
  refine ⟨⟨List.prefix_append .., ?_⟩, ⟨?_, ?_⟩, ⟨hinv.holds.stored, ?_⟩, ?_, fun hnb =>
    ⟨fun hidle => callWrite_alone hinv hidle hnb, fun hidle => callRead_alone hinv hidle hnb⟩⟩
  · rw [hinv.holds.read]
    exact List.take_prefix ..
  · rw [hinv.holds.head]
    exact mod_capacity_lt ..
  · rw [hinv.holds.tail]
    exact mod_capacity_lt ..
  · rw [hinv.holds.stored, hinv.holds.free]
    omega
  · exact fun c hc i hi => hinv.holds.overwrites (hinv.writer c hc) hi

/-- Two octets into a ring of three slots, up to the publication. -/
theorem ring_fifo_three :
    let g : RingCfg := { capacity := 3, pos := by decide, le_max := by decide }
    let s := (RingSys.stepWriter g)^[5] (RingSys.callWrite { ring := { data := fun _ => 0 } } [7, 8])
    zcioRingAvailableRead g s.ring = 2 ∧ s.received <+: s.sent := by
  intro g s
  have hrun : RingRun g s := RingRun.iterateWriter (.write [7, 8] (.init fun _ => 0) rfl) 5
  exact ⟨by decide, (ring_fifo g hrun).1.2⟩

end Zcio
