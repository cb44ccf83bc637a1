import Mathlib.Data.List.Induction
import Mathlib.Data.List.Perm.Subperm
import Zcio.Http.Io

/-!
# Zcio.Tcp.Clients

The clients of a TCP server in `tcp.c`: `zcio_tcp_server_accept` gives each one an id, its index
in the slot array, and `zcio_tcp_server_close_client` puts the id on a stack for a later client.
Each allocation may fail. Connections are of any type `γ`.

The counters are numbers here and `size_t` in the source. None of them passes a small multiple of the
number of calls (`tcpRun_sized`), so that none wraps in a run that can be made.
-/

namespace Zcio

def ZCIO_ERR_NOMEM : Int := -8

/-! ### The server

The table of connections of a TCP server: slots by id, and a stack of ids that were given
back. -/

/-- `conn_slot`. -/
structure ConnSlot (γ : Type) where
  id : Nat
  conn : Option γ
  deriving Repr, DecidableEq

/-- What `zcio_tcp_server` knows about its clients. There are `slots_cap` slots; of `free_ids` the
first is on top. -/
structure TcpServer (γ : Type) where
  tls : Bool
  nextId : Nat := 0
  slots : List (ConnSlot γ) := []
  slotsLen : Nat := 0
  freeIds : List Nat := []
  freeCap : Nat := 0
  deriving Repr, DecidableEq

variable {γ : Type}

/-- The connection in a slot. -/
def TcpServer.conn (s : TcpServer γ) (id : Nat) : Option γ := s.slots[id]?.bind ConnSlot.conn

/-- The number of clients. -/
def TcpServer.live (s : TcpServer γ) : Nat := s.slots.countP fun slot => slot.conn.isSome

/-- `while (ncap <= id) ncap *= 2`. -/
def doubleUntil (id : Nat) : Nat → Nat → Nat
  | 0, ncap => ncap
  | rounds + 1, ncap => if ncap ≤ id then doubleUntil id rounds (ncap * 2) else ncap

/-- The slot array with room for `id`; new slots are empty. -/
def growSlots (slots : List (ConnSlot γ)) (id : Nat) : List (ConnSlot γ) :=
  let cap := slots.length
  if id ≥ cap then
    let ncap := doubleUntil id id (if cap ≠ 0 then cap * 2 else 8)
    slots ++ (List.range' cap (ncap - cap)).map fun i => ⟨i, none⟩
  else slots

/-- `server_store`; `slotsOk` is whether the `realloc` succeeds, and `none` is `ZCIO_ERR_NOMEM`. -/
def serverStore (s : TcpServer γ) (id : Nat) (conn : γ) (slotsOk : Bool) : Option (TcpServer γ) :=
  if id ≥ s.slots.length ∧ !slotsOk then none
  else
    some { s with
      slotsLen := if id ≥ s.slotsLen then id + 1 else s.slotsLen
      slots := (growSlots s.slots id).set id ⟨id, some conn⟩ }

/-- `server_pop_free_id`. -/
def serverPopFreeId (s : TcpServer γ) : Option (Nat × TcpServer γ) :=
  match s.freeIds with
  | [] => none
  | id :: freeIds => some (id, { s with freeIds })

/-- What an accept meets with: the wait, `accept` and the handshake, and its allocations. -/
structure TcpAccept (γ : Type) where
  readable : Bool
  accepted : Bool
  streamOk : Bool
  handshake : Bool
  conn : Option γ
  slotsOk : Bool

/-- The id of a new client. -/
def serverTakeId (s : TcpServer γ) : Nat × TcpServer γ :=
  (serverPopFreeId s).getD (s.nextId, { s with nextId := s.nextId + 1 })

/-- `zcio_tcp_server_accept`: the connection and its id. A wait or an `accept` that brings nothing
leaves no message. -/
def zcioTcpServerAccept (s : TcpServer γ) (io : TcpAccept γ) :
    Except (Option HttpFail) (γ × Nat) × TcpServer γ :=
  if !io.readable || !io.accepted then (.error none, s)
  else if !io.streamOk then (.error (some ⟨ZCIO_ERR_NOMEM, str "accept: out of memory"⟩), s)
  else if s.tls && !io.handshake then
    (.error (some ⟨ZCIO_ERR_TLS, str "accept: TLS handshake failed"⟩), s)
  else
    match io.conn with
    | none => (.error (some ⟨ZCIO_ERR_NOMEM, str "accept: out of memory"⟩), s)
    | some conn =>
      let (id, s) := serverTakeId s
      match serverStore s id conn io.slotsOk with
      | none => (.error (some ⟨ZCIO_ERR_NOMEM, str "accept: out of memory"⟩), s)
      | some s => (.ok (conn, id), s)

/-- The room on the stack of ids, after a `realloc` when it was full. -/
def growFreeCap (s : TcpServer γ) (freeOk : Bool) : Nat :=
  if s.freeIds.length ≥ s.freeCap ∧ freeOk then if s.freeCap ≠ 0 then s.freeCap * 2 else 8 else s.freeCap

/-- The end of `zcio_tcp_server_close_client`: without room the id is dropped. -/
def serverPushFreeId (s : TcpServer γ) (id : Nat) (freeOk : Bool) : TcpServer γ :=
  let freeCap := growFreeCap s freeOk
  if s.freeIds.length < freeCap then { s with freeIds := id :: s.freeIds, freeCap } else { s with freeCap }

/-- `zcio_tcp_server_close_client`; `freeOk` is whether the `realloc` of the stack succeeds. -/
def zcioTcpServerCloseClient (s : TcpServer γ) (id : Nat) (freeOk : Bool) :
    Except HttpFail Unit × TcpServer γ :=
  if id ≥ s.slotsLen ∨ (s.conn id).isNone then
    (httpFail ZCIO_ERR_INVALID_ARG (str "close_client: unknown id " ++ decimal id), s)
  else
    let s := { s with slots := s.slots.modify id fun slot => { slot with conn := none } }
    (.ok (), serverPushFreeId s id freeOk)

/-! ### Calls

What a program may call, and the history it sees: who was accepted under which id. -/

inductive TcpCall (γ : Type) where
  | accept (io : TcpAccept γ)
  | close (id : Nat) (freeOk : Bool)

/-- The server, the ids that were returned, and the most clients there were at a time. -/
structure TcpHistory (γ : Type) where
  server : TcpServer γ
  ids : List Nat := []
  most : Nat := 0

/-- One call. -/
def TcpHistory.step (h : TcpHistory γ) : TcpCall γ → TcpHistory γ
  | .accept io =>
    let (res, server) := zcioTcpServerAccept h.server io
    let ids :=
      match res with
      | .ok (_, id) => h.ids ++ [id]
      | .error _ => h.ids
    { server, ids, most := max h.most server.live }
  | .close id freeOk =>
    let (_, server) := zcioTcpServerCloseClient h.server id freeOk
    { h with server, most := max h.most server.live }

/-- The calls one after the other on a new server. -/
def tcpRun (tls : Bool) (calls : List (TcpCall γ)) : TcpHistory γ :=
  calls.foldl TcpHistory.step { server := { tls } }

/-- No allocation of the call fails. -/
def TcpCall.Allocates : TcpCall γ → Prop
  | .accept io => io.streamOk ∧ io.conn.isSome ∧ io.slotsOk
  | .close _ freeOk => freeOk

/-! ### The slots

An id on the stack has a free slot, and no id from `next_id` on was ever given out. -/

/-- The invariant of the slots and the stack. -/
structure TcpServer.Inv (s : TcpServer γ) : Prop where
  len : s.slotsLen ≤ s.slots.length
  next : s.slotsLen ≤ s.nextId
  empty : ∀ i, s.slotsLen ≤ i → s.conn i = none
  nodup : s.freeIds.Nodup
  free : ∀ id ∈ s.freeIds, id < s.slotsLen ∧ s.conn id = none
  cap : s.freeIds.length ≤ s.freeCap

theorem doubleUntil_spec (id : Nat) : ∀ (rounds ncap : Nat), id < ncap * 2 ^ rounds →
    id < doubleUntil id rounds ncap ∧ ncap ≤ doubleUntil id rounds ncap := by
  intro rounds
  induction rounds with
  | zero =>
    intro ncap h
    rw [Nat.pow_zero, Nat.mul_one] at h
    exact ⟨h, Nat.le_refl ncap⟩
  | succ rounds ih =>
    intro ncap h
    rw [doubleUntil]
    split
    · obtain ⟨hlt, hle⟩ := ih (ncap * 2) (by rwa [Nat.mul_assoc, ← Nat.pow_succ'])
      exact ⟨hlt, by omega⟩
    · exact ⟨by omega, Nat.le_refl ncap⟩

theorem growSlots_spec (slots : List (ConnSlot γ)) (id : Nat) :
    id < (growSlots slots id).length ∧ slots.length ≤ (growSlots slots id).length ∧
      (∀ j : Nat, (growSlots slots id)[j]?.bind ConnSlot.conn = slots[j]?.bind ConnSlot.conn) ∧
      (growSlots slots id).countP (fun slot => slot.conn.isSome) = slots.countP fun slot => slot.conn.isSome := by
  rw [growSlots]
  dsimp only
  split
  · -- the array is doubled until the index fits
    rename_i hgrow
    have hroom : id < (if slots.length ≠ 0 then slots.length * 2 else 8) * 2 ^ id := by
      have hpow : id < 2 ^ id := Nat.lt_two_pow_self
      have hpos : 1 ≤ if slots.length ≠ 0 then slots.length * 2 else 8 := by
        split
        · omega
        · decide
      exact hpow.trans_le (Nat.le_mul_of_pos_left _ hpos)
    obtain ⟨hlt, -⟩ := doubleUntil_spec id id _ hroom
    -- the new slots are free
    have hempty : ∀ slot ∈ (List.range' slots.length
        (doubleUntil id id (if slots.length ≠ 0 then slots.length * 2 else 8) - slots.length)).map
          (fun i => (⟨i, none⟩ : ConnSlot γ)), slot.conn = none := by
      intro slot hslot
      obtain ⟨i, -, rfl⟩ := List.mem_map.mp hslot
      rfl
    refine ⟨?_, ?_, fun j => ?_, ?_⟩
    · rw [List.length_append, List.length_map, List.length_range']
      omega
    · rw [List.length_append]
      omega
    · -- the old slots keep their places, and no client came with the new ones
      rw [List.getElem?_append]
      split
      · rfl
      · rename_i hj
        rw [List.getElem?_eq_none (Nat.not_lt.mp hj)]
        cases hget : ((List.range' slots.length _).map fun i => (⟨i, none⟩ : ConnSlot γ))[j - slots.length]? with
        | none => rfl
        | some slot => exact hempty slot (List.mem_of_getElem? hget)
    · rw [List.countP_append, Nat.add_eq_left, List.countP_eq_zero]
      intro slot hslot
      rw [hempty slot hslot]
      exact Bool.false_ne_true
  · -- it fits already
    rename_i hfits
    exact ⟨Nat.not_le.mp hfits, Nat.le_refl _, fun _ => rfl, rfl⟩

/-- **What `server_store` does**: the connection is in its slot and all others are as they were. -/
theorem serverStore_spec {s s' : TcpServer γ} {id : Nat} {conn : γ} {slotsOk : Bool}
    (h : serverStore s id conn slotsOk = some s') :
    s'.conn id = some conn ∧ (∀ j, j ≠ id → s'.conn j = s.conn j) ∧
      s'.slotsLen = max s.slotsLen (id + 1) ∧
      (s.slotsLen ≤ s.slots.length → s'.slotsLen ≤ s'.slots.length) ∧
      s'.nextId = s.nextId ∧ s'.freeIds = s.freeIds ∧ s'.freeCap = s.freeCap ∧
      (s.conn id = none → s'.live = s.live + 1) := by
  obtain ⟨hid, hle, hconn, hcount⟩ := growSlots_spec s.slots id
  have hlen : (if id ≥ s.slotsLen then id + 1 else s.slotsLen) = max s.slotsLen (id + 1) := by
    split
    · omega
    · omega
  rw [serverStore] at h
  split at h
  · cases h
  cases h
  refine ⟨?_, fun j hj => ?_, hlen, fun hold => ?_, rfl, rfl, rfl, fun hfree => ?_⟩
  · rw [TcpServer.conn, List.getElem?_set_self hid]
    rfl
  · rw [TcpServer.conn, List.getElem?_set_ne (Ne.symm hj)]
    exact hconn j
  · dsimp only
    rw [hlen, List.length_set]
    omega
  · have hslot : (growSlots s.slots id)[id].conn = none := by
      have hget := hconn id
      rw [List.getElem?_eq_getElem hid] at hget
      exact hget.trans hfree
    rw [TcpServer.live, List.countP_set hid, hcount, hslot]
    rfl

/-- Within the array `server_store` needs no memory. -/
theorem serverStore_isSome (s : TcpServer γ) (id : Nat) (conn : γ) {slotsOk : Bool}
    (h : id < s.slots.length ∨ slotsOk = true) : (serverStore s id conn slotsOk).isSome := by
  rw [serverStore, if_neg]
  · rfl
  · rintro ⟨hge, hnot⟩
    obtain hlt | hok := h
    · omega
    · rw [hok] at hnot
      cases hnot

/-- **The id of a new client** has an empty slot and is not on the stack any more. -/
theorem serverTakeId_spec {s : TcpServer γ} (h : s.Inv) :
    s.conn (serverTakeId s).1 = none ∧ (serverTakeId s).2.slots = s.slots ∧ (serverTakeId s).2.tls = s.tls ∧
      (serverTakeId s).2.Inv ∧ (serverTakeId s).1 < (serverTakeId s).2.nextId ∧
      (serverTakeId s).1 ∉ (serverTakeId s).2.freeIds ∧
      (serverTakeId s).2.nextId + s.freeIds.length = s.nextId + 1 + (serverTakeId s).2.freeIds.length ∧
      (s.freeIds ≠ [] → (serverTakeId s).1 < s.slots.length) := by
  obtain ⟨hlen, hnext, hempty, hnodup, hfree, hcap⟩ := h
  cases hids : s.freeIds with
  -- no id was given back: the next new one
  | nil =>
    have htake : serverTakeId s = (s.nextId, { s with nextId := s.nextId + 1 }) := by
      rw [serverTakeId, serverPopFreeId, hids]
      rfl
    rw [htake]
    refine ⟨hempty _ hnext, rfl, rfl, ⟨hlen, Nat.le_succ_of_le hnext, hempty, hnodup, hfree, hcap⟩,
      Nat.lt_succ_self _, ?_, ?_, fun hne => absurd rfl hne⟩
    · rw [hids]
      exact List.not_mem_nil
    · dsimp only
      rw [hids]
  -- the id given back last
  | cons id ids =>
    have htake : serverTakeId s = (id, { s with freeIds := ids }) := by
      rw [serverTakeId, serverPopFreeId, hids]
      rfl
    rw [hids] at hnodup hfree hcap
    obtain ⟨hlt, hnone⟩ := hfree id List.mem_cons_self
    obtain ⟨hnot, hnodup'⟩ := List.nodup_cons.mp hnodup
    rw [htake]
    refine ⟨hnone, rfl, rfl, ⟨hlen, hnext, hempty, hnodup', ?_, ?_⟩, hlt.trans_le hnext, hnot, ?_,
      fun _ => hlt.trans_le hlen⟩
    · exact fun j hj => hfree j (List.mem_cons_of_mem _ hj)
    · exact Nat.le_of_succ_le hcap
    · dsimp only
      rw [List.length_cons]
      omega

/-! ### Accepting

An accepted client gets the id that was given back last, or the next new one. -/

/-- What an accept does: nothing, or it takes an id, which is lost when the slot array cannot grow. -/
theorem zcioTcpServerAccept_cases (s : TcpServer γ) (io : TcpAccept γ) :
    (∃ e, zcioTcpServerAccept s io = (.error e, s)) ∨
      (∃ e conn, io.conn = some conn ∧ serverStore (serverTakeId s).2 (serverTakeId s).1 conn io.slotsOk = none ∧
        zcioTcpServerAccept s io = (.error e, (serverTakeId s).2)) ∨
      ∃ conn s', io.conn = some conn ∧
        serverStore (serverTakeId s).2 (serverTakeId s).1 conn io.slotsOk = some s' ∧
        zcioTcpServerAccept s io = (.ok (conn, (serverTakeId s).1), s') := by
  rw [zcioTcpServerAccept]
  split
  · exact .inl ⟨_, rfl⟩
  split
  · exact .inl ⟨_, rfl⟩
  split
  · exact .inl ⟨_, rfl⟩
  cases hconn : io.conn with
  | none => exact .inl ⟨_, rfl⟩
  | some conn =>
    dsimp only
    cases hstore : serverStore (serverTakeId s).2 (serverTakeId s).1 conn io.slotsOk with
    | none => exact .inr (.inl ⟨_, conn, rfl, hstore, rfl⟩)
    | some s' => exact .inr (.inr ⟨conn, s', rfl, hstore, rfl⟩)

/-- A new client keeps the invariant: its id is not on the stack. -/
theorem TcpServer.Inv.store {s s' : TcpServer γ} (h : s.Inv) {id : Nat} {conn : γ} {slotsOk : Bool}
    (hstore : serverStore s id conn slotsOk = some s') (hid : id < s.nextId) (hnot : id ∉ s.freeIds) :
    s'.Inv := by
  obtain ⟨hself, hother, hlen, hroom, hnext, hids, hcap, -⟩ := serverStore_spec hstore
  refine ⟨hroom h.len, ?_, fun i hi => ?_, by rw [hids]; exact h.nodup, fun j hj => ?_, ?_⟩
  · rw [hlen, hnext]
    have := h.next
    omega
  · rw [hlen] at hi
    rw [hother i (by omega)]
    exact h.empty i (by omega)
  · rw [hids] at hj
    obtain ⟨hlt, hnone⟩ := h.free j hj
    have hne : j ≠ id := fun heq => hnot (heq ▸ hj)
    rw [hother j hne, hlen]
    exact ⟨by omega, hnone⟩
  · rw [hids, hcap]
    exact h.cap

theorem zcioTcpServerAccept_inv {s : TcpServer γ} (h : s.Inv) (io : TcpAccept γ) :
    (zcioTcpServerAccept s io).2.Inv := by
  obtain ⟨-, -, -, hinv, hlt, hnot, -⟩ := serverTakeId_spec h
  obtain ⟨e, heq⟩ | ⟨e, conn, -, -, heq⟩ | ⟨conn, s', -, hstore, heq⟩ := zcioTcpServerAccept_cases s io
  · rw [heq]
    exact h
  · rw [heq]
    exact hinv
  · rw [heq]
    exact hinv.store hstore hlt hnot

/-- **An accept** returns an id whose slot was empty and leaves all other slots alone. -/
theorem zcioTcpServerAccept_slots {s : TcpServer γ} (h : s.Inv) (io : TcpAccept γ) :
    match (zcioTcpServerAccept s io).1 with
    | .ok (conn, id) => s.conn id = none ∧ (zcioTcpServerAccept s io).2.conn id = some conn ∧
        ∀ j, j ≠ id → (zcioTcpServerAccept s io).2.conn j = s.conn j
    | .error _ => ∀ j, (zcioTcpServerAccept s io).2.conn j = s.conn j := by
  obtain ⟨hnone, hslots, -, -, -, -, -⟩ := serverTakeId_spec h
  have hsame (j : Nat) : (serverTakeId s).2.conn j = s.conn j := by
    rw [TcpServer.conn, hslots]
    rfl
  obtain ⟨e, heq⟩ | ⟨e, conn, -, -, heq⟩ | ⟨conn, s', -, hstore, heq⟩ := zcioTcpServerAccept_cases s io
  · rw [heq]
    exact fun j => rfl
  · rw [heq]
    exact hsame
  · rw [heq]
    obtain ⟨hself, hother, -⟩ := serverStore_spec hstore
    exact ⟨hnone, hself, fun j hj => (hother j hj).trans (hsame j)⟩

/-! ### Closing

A client that is closed gives its id back, unless the stack cannot grow. -/

theorem serverPushFreeId_slots (s : TcpServer γ) (id : Nat) (freeOk : Bool) :
    (serverPushFreeId s id freeOk).slots = s.slots ∧ (serverPushFreeId s id freeOk).slotsLen = s.slotsLen ∧
      (serverPushFreeId s id freeOk).nextId = s.nextId := by
  rw [serverPushFreeId]
  split
  · exact ⟨rfl, rfl, rfl⟩
  · exact ⟨rfl, rfl, rfl⟩

/-- The id goes on the stack, or is dropped for want of memory. -/
theorem serverPushFreeId_ids {s : TcpServer γ} (hcap : s.freeIds.length ≤ s.freeCap) (id : Nat) (freeOk : Bool) :
    ((serverPushFreeId s id freeOk).freeIds = id :: s.freeIds ∨
        (serverPushFreeId s id freeOk).freeIds = s.freeIds ∧ freeOk = false) ∧
      (serverPushFreeId s id freeOk).freeIds.length ≤ (serverPushFreeId s id freeOk).freeCap := by
  rw [serverPushFreeId]
  split
  · rename_i hroom
    exact ⟨.inl rfl, hroom⟩
  · rename_i hfull
    have hkeep : ¬(s.freeIds.length ≥ s.freeCap ∧ freeOk = true) := by
      intro hgrow
      rw [growFreeCap, if_pos hgrow] at hfull
      split at hfull
      · omega
      · omega
    rw [growFreeCap, if_neg hkeep] at hfull ⊢
    refine ⟨.inr ⟨rfl, ?_⟩, hcap⟩
    exact Bool.eq_false_iff.mpr fun hok => hkeep ⟨Nat.not_lt.mp hfull, hok⟩

/-- What a close does: nothing to an id that is not live. -/
theorem zcioTcpServerCloseClient_cases {s : TcpServer γ} (h : s.Inv) (id : Nat) (freeOk : Bool) :
    (s.conn id = none ∧ ∃ e, zcioTcpServerCloseClient s id freeOk = (.error e, s)) ∨
      ∃ conn, s.conn id = some conn ∧ id < s.slotsLen ∧
        zcioTcpServerCloseClient s id freeOk =
          (.ok (), serverPushFreeId { s with
            slots := s.slots.modify id fun slot => { slot with conn := none } } id freeOk) := by
  rw [zcioTcpServerCloseClient]
  cases hconn : s.conn id with
  | none =>
    rw [if_pos (.inr rfl)]
    exact .inl ⟨rfl, _, rfl⟩
  | some conn =>
    have hlt : id < s.slotsLen := by
      by_contra hge
      rw [h.empty id (Nat.not_lt.mp hge)] at hconn
      cases hconn
    rw [if_neg]
    · exact .inr ⟨conn, rfl, hlt, rfl⟩
    · rintro (hge | hnone)
      · omega
      · cases hnone

/-- The slot is emptied, and no other one. -/
theorem modify_conn (slots : List (ConnSlot γ)) (id j : Nat) :
    (slots.modify id fun slot => { slot with conn := none })[j]?.bind ConnSlot.conn =
      if j = id then none else slots[j]?.bind ConnSlot.conn := by
  rw [List.getElem?_modify]
  cases slots[j]? with
  | none => exact (ite_self none).symm
  | some slot =>
    show (if id = j then { slot with conn := none } else slot : ConnSlot γ).conn = _
    by_cases hj : id = j
    · rw [if_pos hj, if_pos hj.symm]
    · rw [if_neg hj, if_neg (Ne.symm hj)]
      rfl

theorem countP_modify_conn (slots : List (ConnSlot γ)) (id : Nat) {conn : γ}
    (h : slots[id]?.bind ConnSlot.conn = some conn) :
    (slots.modify id fun slot => { slot with conn := none }).countP (fun slot => slot.conn.isSome) + 1 =
      slots.countP fun slot => slot.conn.isSome := by
  induction slots generalizing id with
  | nil => cases h
  | cons slot slots ih =>
    cases id with
    | zero =>
      have hsome : slot.conn = some conn := h
      rw [List.modify_zero_cons, List.countP_cons, List.countP_cons, hsome]
      rfl
    | succ id =>
      rw [List.modify_succ_cons, List.countP_cons, List.countP_cons, ← ih id h]
      omega

/-- A close in the slots: `serverPushFreeId` leaves them alone. -/
theorem close_conn (s : TcpServer γ) (id : Nat) (freeOk : Bool) (j : Nat) :
    (serverPushFreeId { s with slots := s.slots.modify id fun slot => { slot with conn := none } }
        id freeOk).conn j = if j = id then none else s.conn j := by
  rw [TcpServer.conn, (serverPushFreeId_slots _ id freeOk).1]
  exact modify_conn s.slots id j

theorem zcioTcpServerCloseClient_inv {s : TcpServer γ} (h : s.Inv) (id : Nat) (freeOk : Bool) :
    (zcioTcpServerCloseClient s id freeOk).2.Inv := by
  obtain ⟨-, e, heq⟩ | ⟨conn, hconn, hlt, heq⟩ := zcioTcpServerCloseClient_cases h id freeOk
  · rw [heq]
    exact h
  rw [heq]
  dsimp only
  generalize hs : { s with slots := s.slots.modify id fun slot => { slot with conn := none } } = t
  have hclose := close_conn s id freeOk
  rw [hs] at hclose
  obtain ⟨hslots, hlen, hnext⟩ := serverPushFreeId_slots t id freeOk
  obtain ⟨hids, hcap⟩ := serverPushFreeId_ids (s := t) (by rw [← hs]; exact h.cap) id freeOk
  -- the id was live, and so not on the stack
  have hnot : id ∉ s.freeIds := by
    intro hmem
    rw [(h.free id hmem).2] at hconn
    cases hconn
  have hfree : ∀ j ∈ (serverPushFreeId t id freeOk).freeIds, j = id ∨ j ∈ s.freeIds := by
    intro j hj
    obtain hpush | ⟨hdrop, -⟩ := hids
    · rw [hpush, ← hs] at hj
      exact List.mem_cons.mp hj
    · rw [hdrop, ← hs] at hj
      exact .inr hj
  refine ⟨?_, ?_, fun i hi => ?_, ?_, fun j hj => ?_, hcap⟩
  · rw [hslots, hlen, ← hs, List.length_modify]
    exact h.len
  · rw [hlen, hnext, ← hs]
    exact h.next
  · rw [hclose]
    split
    · rfl
    · rw [hlen, ← hs] at hi
      exact h.empty i hi
  · obtain hpush | ⟨hdrop, -⟩ := hids
    · rw [hpush, ← hs]
      exact List.nodup_cons.mpr ⟨hnot, h.nodup⟩
    · rw [hdrop, ← hs]
      exact h.nodup
  · rw [hclose, hlen, ← hs]
    obtain rfl | hj := hfree j hj
    · exact ⟨hlt, if_pos rfl⟩
    · obtain ⟨hjlt, hnone⟩ := h.free j hj
      refine ⟨hjlt, ?_⟩
      split
      · rfl
      · exact hnone

/-- **A close** succeeds for the ids that are live and empties that slot only. -/
theorem zcioTcpServerCloseClient_slots {s : TcpServer γ} (h : s.Inv) (id : Nat) (freeOk : Bool) :
    ((zcioTcpServerCloseClient s id freeOk).1 = .ok () ↔ s.conn id ≠ none) ∧
      (zcioTcpServerCloseClient s id freeOk).2.conn id = none ∧
      ∀ j, j ≠ id → (zcioTcpServerCloseClient s id freeOk).2.conn j = s.conn j := by
  obtain ⟨hnone, e, heq⟩ | ⟨conn, hconn, -, heq⟩ := zcioTcpServerCloseClient_cases h id freeOk
  · rw [heq]
    refine ⟨iff_of_false (fun hok => ?_) (fun hne => hne hnone), hnone, fun _ _ => rfl⟩
    cases hok
  · rw [heq]
    refine ⟨iff_of_true rfl ?_, ?_, fun j hj => ?_⟩
    · rw [hconn]
      exact Option.some_ne_none conn
    · rw [close_conn, if_pos rfl]
    · rw [close_conn, if_neg hj]

/-! ### Runs

No two clients that are open have the same id, in any sequence of calls with any allocation
refused. -/

theorem TcpHistory.step_inv {h : TcpHistory γ} (hinv : h.server.Inv) (call : TcpCall γ) :
    (h.step call).server.Inv := by
  cases call with
  | accept io => exact zcioTcpServerAccept_inv hinv io
  | close id freeOk => exact zcioTcpServerCloseClient_inv hinv id freeOk

theorem tcpServer_new_inv (tls : Bool) : ({ tls } : TcpServer γ).Inv where
  len := Nat.le_refl 0
  next := Nat.le_refl 0
  empty _ _ := rfl
  nodup := List.nodup_nil
  free _ hid := absurd hid List.not_mem_nil
  cap := Nat.le_refl 0

/-- The ids of a server on which no allocation has failed. -/
structure TcpHistory.Tight (h : TcpHistory γ) : Prop where
  inv : h.server.Inv
  count : h.server.nextId = h.server.live + h.server.freeIds.length
  most : h.server.nextId ≤ h.most
  ids : ∀ id ∈ h.ids, id < h.server.nextId

theorem TcpHistory.Tight.accept {h : TcpHistory γ} (ht : h.Tight) {io : TcpAccept γ} (hio : io.slotsOk = true) :
    (h.step (.accept io)).Tight := by
  obtain ⟨hinv, hcount, hmost, hids⟩ := ht
  have hinv' := zcioTcpServerAccept_inv hinv io
  obtain ⟨hnone, hslots, -, -, hlt, -, htake, -⟩ := serverTakeId_spec hinv
  rw [TcpHistory.step]
  obtain ⟨e, heq⟩ | ⟨e, conn, -, hstore, -⟩ | ⟨conn, s', -, hstore, heq⟩ := zcioTcpServerAccept_cases h.server io
  · rw [heq]
    exact ⟨hinv, hcount, hmost.trans (Nat.le_max_left _ _), hids⟩
  · have hsome := serverStore_isSome (serverTakeId h.server).2 (serverTakeId h.server).1 conn (.inr hio)
    rw [hstore] at hsome
    cases hsome
  obtain ⟨-, -, -, -, hnext, hfree, -, hlive⟩ := serverStore_spec hstore
  have hlive' : s'.live = h.server.live + 1 := by
    rw [hlive, TcpServer.live, TcpServer.live, hslots]
    rw [TcpServer.conn, hslots]
    exact hnone
  rw [heq] at hinv' ⊢
  refine ⟨hinv', ?_, ?_, fun id hid => ?_⟩
  · show s'.nextId = s'.live + s'.freeIds.length
    rw [hnext, hfree, hlive']
    omega
  · -- an id is taken off the stack, or all ids are live
    show s'.nextId ≤ max h.most s'.live
    cases hstack : h.server.freeIds with
    | nil =>
      rw [hstack, List.length_nil] at htake hcount
      have hstack' : (serverTakeId h.server).2.nextId = h.server.nextId + 1 := by
        rw [serverTakeId, serverPopFreeId, hstack]
        rfl
      rw [hnext, hstack', hlive', hcount]
      exact Nat.le_max_right _ _
    | cons id ids =>
      have hsame : (serverTakeId h.server).2.nextId = h.server.nextId := by
        rw [serverTakeId, serverPopFreeId, hstack]
        rfl
      rw [hnext, hsame]
      exact hmost.trans (Nat.le_max_left _ _)
  · show id < s'.nextId
    have hle : h.server.nextId ≤ s'.nextId := by
      rw [hnext, serverTakeId]
      cases hpop : serverPopFreeId h.server with
      | none => exact Nat.le_succ _
      | some popped =>
        rw [serverPopFreeId] at hpop
        split at hpop
        · cases hpop
        · cases hpop
          exact Nat.le_refl _
    obtain hold | hnew := List.mem_append.mp hid
    · exact (hids id hold).trans_le hle
    · rw [List.mem_singleton.mp hnew, hnext]
      exact hlt

theorem TcpHistory.Tight.close {h : TcpHistory γ} (ht : h.Tight) (id : Nat) :
    (h.step (.close id true)).Tight := by
  obtain ⟨hinv, hcount, hmost, hids⟩ := ht
  have hinv' := zcioTcpServerCloseClient_inv hinv id true
  rw [TcpHistory.step]
  obtain ⟨-, e, heq⟩ | ⟨conn, hconn, -, heq⟩ := zcioTcpServerCloseClient_cases hinv id true
  · rw [heq]
    exact ⟨hinv, hcount, hmost.trans (Nat.le_max_left _ _), hids⟩
  have hlive := countP_modify_conn h.server.slots id hconn
  rw [heq] at hinv' ⊢
  generalize hs : { h.server with
    slots := h.server.slots.modify id fun slot => { slot with conn := none } } = t at hinv' ⊢
  obtain ⟨hslots, -, hnext⟩ := serverPushFreeId_slots t id true
  obtain ⟨hpush, -⟩ := serverPushFreeId_ids (s := t) (by rw [← hs]; exact hinv.cap) id true
  have hnext' : t.nextId = h.server.nextId := by rw [← hs]
  refine ⟨hinv', ?_, ?_, fun j hj => ?_⟩
  · show (serverPushFreeId t id true).nextId = _ + (serverPushFreeId t id true).freeIds.length
    obtain hpush | ⟨-, hfalse⟩ := hpush
    · have hfree : t.freeIds = h.server.freeIds := by rw [← hs]
      have hlive' : (serverPushFreeId t id true).live + 1 = h.server.live := by
        rw [TcpServer.live, hslots, ← hs]
        exact hlive
      rw [hnext, hnext', hpush, List.length_cons, hfree]
      show _ = (serverPushFreeId t id true).live + _
      omega
    · cases hfalse
  · show (serverPushFreeId t id true).nextId ≤ _
    rw [hnext, hnext']
    exact hmost.trans (Nat.le_max_left _ _)
  · show j < (serverPushFreeId t id true).nextId
    rw [hnext, hnext']
    exact hids j hj

theorem TcpHistory.Tight.step {h : TcpHistory γ} (ht : h.Tight) {call : TcpCall γ} (hcall : call.Allocates) :
    (h.step call).Tight := by
  cases call with
  | accept io => exact ht.accept hcall.2.2
  | close id freeOk =>
    rw [show freeOk = true from hcall]
    exact ht.close id

theorem tcpRun_inv (tls : Bool) (calls : List (TcpCall γ)) : (tcpRun tls calls).server.Inv := by
  rw [tcpRun]
  induction calls using List.reverseRecOn with
  | nil => exact tcpServer_new_inv tls
  | append_singleton calls call ih =>
    rw [List.foldl_append]
    exact TcpHistory.step_inv ih call

theorem tcpRun_tight (tls : Bool) (calls : List (TcpCall γ)) (h : ∀ call ∈ calls, call.Allocates) :
    (tcpRun tls calls).Tight := by
  rw [tcpRun]
  induction calls using List.reverseRecOn with
  | nil =>
    exact ⟨tcpServer_new_inv tls, rfl, Nat.le_refl 0, fun id hid => absurd hid List.not_mem_nil⟩
  | append_singleton calls call ih =>
    rw [List.foldl_append]
    refine (ih fun c hc => h c (List.mem_append_left _ hc)).step (h call ?_)
    exact List.mem_append_right _ List.mem_cons_self

/-! ### Counters

The counters are natural numbers here. Each is at most a small multiple of the number of calls,
which is why those of the source do not wrap. -/

theorem doubleUntil_le (id : Nat) : ∀ rounds ncap, doubleUntil id rounds ncap ≤ max ncap (2 * id) := by
  intro rounds
  induction rounds with
  | zero => exact fun ncap => Nat.le_max_left _ _
  | succ rounds ih =>
    intro ncap
    rw [doubleUntil]
    split
    · have hrest := ih (ncap * 2)
      omega
    · exact Nat.le_max_left _ _

theorem length_growSlots_le (slots : List (ConnSlot γ)) (id : Nat) :
    (growSlots slots id).length ≤ max slots.length (max 8 (2 * id)) := by
  rw [growSlots]
  dsimp only
  split
  · have hcap := doubleUntil_le id id (if slots.length ≠ 0 then slots.length * 2 else 8)
    have hfirst : (if slots.length ≠ 0 then slots.length * 2 else 8) ≤ max 8 (2 * id) := by
      split
      · omega
      · exact Nat.le_max_left _ _
    rw [List.length_append, List.length_map, List.length_range']
    omega
  · exact Nat.le_max_left _ _

/-- The counters of a server that has accepted `n` times at most. -/
structure TcpServer.Sized (s : TcpServer γ) (n : Nat) : Prop where
  next : s.nextId ≤ n
  slots : s.slots.length ≤ max 8 (2 * n)
  free : s.freeCap ≤ max 8 (2 * n)

theorem TcpServer.Sized.mono {s : TcpServer γ} {n n' : Nat} (h : s.Sized n) (hn : n ≤ n') : s.Sized n' :=
  ⟨h.next.trans hn, h.slots.trans (by omega), h.free.trans (by omega)⟩

theorem serverTakeId_sized {s : TcpServer γ} {n : Nat} (h : s.Sized n) : (serverTakeId s).2.Sized (n + 1) := by
  have hmono := h.mono n.le_succ
  rw [serverTakeId, serverPopFreeId]
  cases s.freeIds with
  | nil => exact ⟨Nat.succ_le_succ h.next, hmono.slots, hmono.free⟩
  | cons id ids => exact ⟨hmono.next, hmono.slots, hmono.free⟩

theorem zcioTcpServerAccept_sized {s : TcpServer γ} {n : Nat} (hinv : s.Inv) (h : s.Sized n) (io : TcpAccept γ) :
    (zcioTcpServerAccept s io).2.Sized (n + 1) := by
  have htake := serverTakeId_sized h
  obtain ⟨-, -, -, -, hid, -⟩ := serverTakeId_spec hinv
  rcases zcioTcpServerAccept_cases s io with ⟨e, heq⟩ | ⟨e, conn, -, -, heq⟩ | ⟨conn, s', -, hstore, heq⟩
  · rw [heq]
    exact h.mono n.le_succ
  · rw [heq]
    exact htake
  · rw [heq]
    obtain ⟨-, -, -, -, hnext, -, hfree, -⟩ := serverStore_spec hstore
    refine ⟨hnext.le.trans htake.next, ?_, hfree.le.trans htake.free⟩
    rw [serverStore] at hstore
    split at hstore
    · cases hstore
    · cases hstore
      have hgrown := length_growSlots_le (serverTakeId s).2.slots (serverTakeId s).1
      have hslots := htake.slots
      have hnext := htake.next
      dsimp only
      rw [List.length_set]
      omega

/-- The ids on the stack are distinct, and there are no more of them than were given out. -/
theorem TcpServer.Inv.free_le {s : TcpServer γ} (h : s.Inv) : s.freeIds.length ≤ s.nextId := by
  have hsub : s.freeIds ⊆ List.range s.nextId := fun id hid =>
    List.mem_range.mpr ((h.free id hid).1.trans_le h.next)
  have hle := (h.nodup.subperm hsub).length_le
  rwa [List.length_range] at hle

theorem zcioTcpServerCloseClient_sized {s : TcpServer γ} {n : Nat} (hinv : s.Inv) (h : s.Sized n) (id : Nat) (freeOk : Bool) :
    (zcioTcpServerCloseClient s id freeOk).2.Sized n := by
  have hids := hinv.free_le
  have hnext := h.next
  have hfree := h.free
  rcases zcioTcpServerCloseClient_cases hinv id freeOk with ⟨-, e, heq⟩ | ⟨conn, -, -, heq⟩
  · rw [heq]
    exact h
  · rw [heq]
    dsimp only
    obtain ⟨hslots, -, hsame⟩ := serverPushFreeId_slots
      { s with slots := s.slots.modify id fun slot => { slot with conn := none } } id freeOk
    refine ⟨hsame.le.trans h.next, ?_, ?_⟩
    · rw [hslots, List.length_modify]
      exact h.slots
    · -- the stack was full if its room was doubled
      have hcap : growFreeCap { s with slots := s.slots.modify id fun slot => { slot with conn := none } } freeOk ≤
          max 8 (2 * n) := by
        rw [growFreeCap]
        dsimp only
        split
        · split
          · omega
          · exact Nat.le_max_left _ _
        · exact hfree
      rw [serverPushFreeId]
      split
      · exact hcap
      · exact hcap

/-- **No counter wraps**: all are below a small multiple of the number of calls. -/
theorem tcpRun_sized (tls : Bool) (calls : List (TcpCall γ)) : (tcpRun tls calls).server.Sized calls.length := by
  induction calls using List.reverseRecOn with
  | nil => exact ⟨Nat.le_refl 0, Nat.zero_le _, Nat.zero_le _⟩
  | append_singleton calls call ih =>
    have hinv := tcpRun_inv tls calls
    rw [tcpRun] at ih hinv
    rw [tcpRun, List.foldl_append, List.length_append]
    cases call with
    | accept io => exact zcioTcpServerAccept_sized hinv ih io
    | close id freeOk => exact (zcioTcpServerCloseClient_sized hinv ih id freeOk).mono (Nat.le_succ _)

/-- **The client ids of a server**, after any calls: the ids on the stack are distinct and have
empty slots; an accept returns an id whose slot was empty; a close succeeds for the live ids; each
changes that slot alone. Unless an allocation has failed, all ids are live or on the stack, and
every id that was returned is below the most clients there have been at a time. -/
theorem tcpServer_client_ids (tls : Bool) (calls : List (TcpCall γ)) :
    let h := tcpRun tls calls
    let s := h.server
    (s.freeIds.Nodup ∧ ∀ id ∈ s.freeIds, id < s.slotsLen ∧ s.conn id = none) ∧
      (∀ io, match (zcioTcpServerAccept s io).1 with
        | .ok (conn, id) => s.conn id = none ∧ (zcioTcpServerAccept s io).2.conn id = some conn ∧
            ∀ j, j ≠ id → (zcioTcpServerAccept s io).2.conn j = s.conn j
        | .error _ => ∀ j, (zcioTcpServerAccept s io).2.conn j = s.conn j) ∧
      (∀ id freeOk,
        ((zcioTcpServerCloseClient s id freeOk).1 = .ok () ↔ s.conn id ≠ none) ∧
          (zcioTcpServerCloseClient s id freeOk).2.conn id = none ∧
          ∀ j, j ≠ id → (zcioTcpServerCloseClient s id freeOk).2.conn j = s.conn j) ∧
      ((∀ call ∈ calls, call.Allocates) →
        s.nextId = s.live + s.freeIds.length ∧ ∀ id ∈ h.ids, id < h.most) := by
  have hinv := tcpRun_inv tls calls
  refine ⟨⟨hinv.nodup, hinv.free⟩, zcioTcpServerAccept_slots hinv, zcioTcpServerCloseClient_slots hinv,
    fun hcalls => ?_⟩
  have ht := tcpRun_tight tls calls hcalls
  exact ⟨ht.count, fun id hid => (ht.ids id hid).trans_le ht.most⟩

/-- Two clients; the first one leaves and its id goes to the third. -/
def recyclingCalls : List (TcpCall Nat) :=
  let io (conn : Nat) : TcpAccept Nat := ⟨true, true, true, true, some conn, true⟩
  [.accept (io 10), .accept (io 11), .close 0 true, .accept (io 12)]

theorem tcpServer_client_ids_sample :
    (tcpRun false recyclingCalls).ids = [0, 1, 0] ∧
      (∀ id ∈ (tcpRun false recyclingCalls).ids, id < (tcpRun false recyclingCalls).most) ∧
      (tcpRun false recyclingCalls).most = 2 := by
  have hcalls : ∀ call ∈ recyclingCalls, call.Allocates := by
    intro call hcall
    simp only [recyclingCalls, List.mem_cons, List.not_mem_nil, or_false] at hcall
    rcases hcall with rfl | rfl | rfl | rfl
    · exact ⟨rfl, rfl, rfl⟩
    · exact ⟨rfl, rfl, rfl⟩
    · exact rfl
    · exact ⟨rfl, rfl, rfl⟩
  refine ⟨rfl, ((tcpServer_client_ids false recyclingCalls).2.2.2 hcalls).2, rfl⟩

end Zcio
