import Zcio.Ws.Delivery

/-!
# Zcio.Ws.RoundTrip

What one side sends is what the other side gets. A frame on the wire is read back whatever its
length and key (`frame_encode`); so the reference makes of the octets of calls that succeeded
the messages and the pongs for them (`Sends.reference`), and `zcio_ws_recv` refines it.
-/

namespace Zcio

open Rfc6455 (Event End Head isControl messages)

/-! ### The header

The length in the shortest of its three forms. -/

theorem beNat_concat (s : Bytes) (b : UInt8) : beNat (s ++ [b]) = beNat s * 2 ^ 8 + b.toNat :=
  List.foldl_append ..

/-- The octets of a number are put together again. -/
theorem beNat_range (n v : Nat) (hv : v < 256 ^ n) :
    beNat ((List.range n).map fun i => UInt8.ofNat (v / 2 ^ ((n - 1 - i) * 8))) = v := by
  induction n generalizing v with
  | zero =>
    rw [Nat.pow_zero] at hv
    exact (Nat.lt_one_iff.mp hv).symm
  | succ n ih =>
    have hdigits : (List.range n).map (fun i => UInt8.ofNat (v / 2 ^ ((n + 1 - 1 - i) * 8))) =
        (List.range n).map fun i => UInt8.ofNat (v / 2 ^ 8 / 2 ^ ((n - 1 - i) * 8)) := by
      refine List.map_congr_left fun i hi => ?_
      have hlt := List.mem_range.mp hi
      rw [Nat.div_div_eq_div_mul, ← Nat.pow_add, show 8 + (n - 1 - i) * 8 = (n + 1 - 1 - i) * 8 by omega]
    have hlow : n + 1 - 1 - n = 0 := by omega
    rw [List.range_succ, List.map_append, hdigits, List.map_singleton, beNat_concat,
      ih (v / 2 ^ 8) (by rw [Nat.pow_succ] at hv; omega), hlow, Nat.zero_mul, Nat.pow_zero, Nat.div_one,
      UInt8.toNat_ofNat']
    omega

theorem beNat_be64 (v : Nat) (hv : v < 2 ^ 64) : beNat (be64 v) = v := by
  have hdigits : be64 v = (List.range 8).map fun i => UInt8.ofNat (v / 2 ^ ((8 - 1 - i) * 8)) := rfl
  rw [hdigits]
  exact beNat_range 8 v hv

theorem beNat_two (v : Nat) (hv : v < 2 ^ 16) :
    beNat [UInt8.ofNat (v / 2 ^ 8), UInt8.ofNat v] = v := by
  have hdigits : [UInt8.ofNat (v / 2 ^ 8), UInt8.ofNat v] =
      (List.range 2).map fun i => UInt8.ofNat (v / 2 ^ ((2 - 1 - i) * 8)) := by
    simp [List.range_succ]
  rw [hdigits]
  exact beNat_range 2 v hv

theorem first_octet (fin : Bool) (op : WsOpcode) :
    ∃ b : UInt8, ((if fin then 0x80 else 0) ||| (op.code &&& 0x0f)) = b ∧
      b.toNat / 16 % 8 = 0 ∧ Rfc6455.opcode (b.toNat % 16) = some op ∧
      decide (128 ≤ b.toNat) = fin := by
  refine ⟨_, rfl, ?_⟩
  cases fin <;> cases op <;> decide

theorem second_octet (masked : Bool) (x : UInt8) (hx : x.toNat < 128) :
    ((if masked then 0x80 else 0) ||| x : UInt8).toNat % 128 = x.toNat ∧
      decide (128 ≤ ((if masked then 0x80 else 0) ||| x : UInt8).toNat) = masked := by
  have hall : ∀ x : UInt8, x.toNat < 128 → ∀ masked : Bool,
      ((if masked then 0x80 else 0) ||| x : UInt8).toNat % 128 = x.toNat ∧
        decide (128 ≤ ((if masked then 0x80 else 0) ||| x : UInt8).toNat) = masked := by
    apply forall_octet
    decide +kernel
  exact hall x hx masked

/-- The key of a frame as it is sent. -/
def WsFrame.keyOctets (f : WsFrame) : Bytes :=
  match f.key with
  | none => []
  | some key => key.1

/-- The length field of a header, in one of its three forms. -/
theorem WsFrame.header_eq (f : WsFrame) (hlen : f.payload.length < 2 ^ 64) :
    ∃ (b : UInt8) (ext : Bytes), f.header =
        ((if f.fin then 0x80 else 0) ||| (f.opcode.code &&& 0x0f)) :: b :: (ext ++ f.keyOctets) ∧
      ext.length = Rfc6455.extended b ∧
      (if ext = [] then b.toNat % 128 else beNat ext) = f.payload.length ∧
      decide (128 ≤ b.toNat) = f.key.isSome := by
  unfold WsFrame.header WsFrame.keyOctets
  dsimp only
  by_cases hshort : f.payload.length < 126
  · have hx : (UInt8.ofNat f.payload.length).toNat = f.payload.length := by
      rw [UInt8.toNat_ofNat']
      omega
    obtain ⟨hval, htop⟩ := second_octet f.key.isSome (UInt8.ofNat f.payload.length) (by omega)
    rw [if_pos hshort]
    refine ⟨_, [], rfl, ?_, ?_, htop⟩
    · rw [Rfc6455.extended, hval, if_neg (by omega), if_neg (by omega)]
      rfl
    · rw [if_pos rfl, hval, hx]
  rw [if_neg hshort]
  by_cases hmid : f.payload.length ≤ 0xffff
  · obtain ⟨hval, htop⟩ := second_octet f.key.isSome 126 (by decide)
    rw [if_pos hmid]
    refine ⟨_, [UInt8.ofNat (f.payload.length / 2 ^ 8), UInt8.ofNat f.payload.length], rfl, ?_, ?_,
      htop⟩
    · rw [Rfc6455.extended, hval]
      rfl
    · rw [if_neg fun hnil => (by cases hnil)]
      exact beNat_two _ (by omega)
  · obtain ⟨hval, htop⟩ := second_octet f.key.isSome 127 (by decide)
    rw [if_neg hmid]
    refine ⟨_, be64 f.payload.length, rfl, ?_, ?_, htop⟩
    · rw [Rfc6455.extended, hval]
      rfl
    · rw [if_neg fun hnil => (by cases hnil)]
      exact beNat_be64 _ hlen

theorem WsFrame.head_header (f : WsFrame) (hlen : f.payload.length < 2 ^ 64) (rest : Bytes) :
    Rfc6455.head (f.header ++ rest) =
      .got ⟨f.fin, f.opcode, f.key.isSome, f.payload.length⟩ (f.keyOctets ++ rest) := by
  obtain ⟨b₁, ext, hheader, hext, hval, hmask⟩ := f.header_eq hlen
  obtain ⟨b₀, hb₀, hrsv, hop, hfin⟩ := first_octet f.fin f.opcode
  rw [hheader, hb₀, List.cons_append, List.cons_append, List.append_assoc]
  have hsplit : Rfc6455.split (Rfc6455.extended b₁) (ext ++ (f.keyOctets ++ rest)) =
      some (ext, f.keyOctets ++ rest) := Rfc6455.split_eq_some.mpr ⟨rfl, hext⟩
  simp only [Rfc6455.head, Rfc6455.payloadLen, hsplit, hrsv, ne_eq, not_true_eq_false, if_false,
    Option.map_some, hop, hfin, hmask, hval]

/-! ### The frame -/

/-- Masking twice gives back the payload. -/
theorem wsMask_unmask (key : MaskKey) (s : Bytes) :
    (wsMask key 0 s).mapIdx (fun i b => b ^^^ key.1.getD (i % 4) 0) = s := by
  unfold wsMask
  rw [List.mapIdx_mapIdx]
  refine List.ext_getElem (by simp) fun i h₁ h₂ => ?_
  simp [UInt8.xor_assoc]

theorem WsFrame.payload_masked (f : WsFrame) (rest : Bytes) :
    (Head.mk f.fin f.opcode f.key.isSome f.payload.length).payload
      (f.keyOctets ++ (f.masked ++ rest)) = some (f.payload, rest) := by
  unfold Head.payload WsFrame.keyOctets
  have hmasked := f.length_masked
  unfold WsFrame.masked at hmasked ⊢
  cases hkey : f.key with
  | none =>
    dsimp only [Option.isSome]
    rw [if_neg Bool.false_ne_true]
    exact Rfc6455.split_eq_some.mpr ⟨rfl, rfl⟩
  | some key =>
    rw [hkey] at hmasked
    dsimp only at hmasked ⊢
    have hkeysplit : Rfc6455.split 4 (key.1 ++ (wsMask key 0 f.payload ++ rest)) =
        some (key.1, wsMask key 0 f.payload ++ rest) := Rfc6455.split_eq_some.mpr ⟨rfl, key.2⟩
    have hsplit : Rfc6455.split f.payload.length (wsMask key 0 f.payload ++ rest) =
        some (wsMask key 0 f.payload, rest) := Rfc6455.split_eq_some.mpr ⟨rfl, hmasked⟩
    rw [if_pos Option.isSome_some, hkeysplit]
    dsimp only
    rw [hsplit, Option.map_some, wsMask_unmask]

/-- **A frame on the wire** is read back. -/
theorem frame_encode (f : WsFrame) {max progress : Nat} (hlen : f.payload.length < 2 ^ 63)
    (hcontrol : isControl f.opcode = true → f.fin = true ∧ f.payload.length ≤ 125)
    (hfits : isControl f.opcode = false → progress + f.payload.length ≤ max) (rest : Bytes) :
    Rfc6455.frame f.key.isSome max progress (f.encode ++ rest) =
      .got ⟨f.fin, f.opcode, f.payload⟩ rest := by
  have hhead := f.head_header (hlen.trans (by decide)) (f.masked ++ rest)
  rw [WsFrame.encode, List.append_assoc, Rfc6455.frame, hhead]
  dsimp only
  rw [if_pos ⟨⟨hlen, rfl, hcontrol⟩, hfits⟩, f.payload_masked]

/-! ### The sender

What a sequence of sends and pings puts on the wire. -/

/-- The data of a call; no object is larger. -/
abbrev WsData := { data : Bytes // data.length < 2 ^ 63 }

/-- The calls that send. -/
inductive WsOut where
  | send (type : WsType) (data : WsData)
  | ping (data : WsData)

/-- A call. -/
def WsOut.run (ws : Ws) : WsOut → Except Fail Unit × Ws
  | .send type data => zcioWsSend ws type.code data.1
  | .ping data => zcioWsPing ws data.1

/-- What the other side does about it. -/
def WsOut.event : WsOut → Event
  | .send type data => .message ⟨type, data.1⟩
  | .ping data => .pong data.1

/-- Calls that all return `ZCIO_OK`. -/
inductive Sends : Ws → List WsOut → Ws → Prop
  | nil (ws : Ws) : Sends ws [] ws
  | cons {ws ws' : Ws} (c : WsOut) {cs : List WsOut} : (c.run ws).1 = .ok () →
      Sends (c.run ws).2 cs ws' → Sends ws (c :: cs) ws'

variable {ws : Ws}

/-- A frame that went out. -/
theorem wsSendFrame_ok {op : WsOpcode} {fin : Bool} {data : Bytes}
    (hok : (wsSendFrame ws op fin data).1 = .ok ()) :
    ∃ key, key.isSome = !ws.isServer ∧ (wsSendFrame ws op fin data).2.isServer = ws.isServer ∧
      (wsSendFrame ws op fin data).2.io.wire =
        ws.io.wire ++ (WsFrame.mk fin op key data).encode := by
  have hstep := wsSendFrame_step ws op fin data
  generalize wsSendFrame ws op fin data = q at hstep hok
  obtain ⟨r, ws'⟩ := q
  cases hstep with
  | noKey keys f hclient hbad => cases hok
  | put key n r keys writes hrole hkeys hwrites hn hres hall =>
    refine ⟨key, hrole, rfl, ?_⟩
    dsimp only
    rw [hres.mp hok, List.take_length]

/-- A call that succeeds writes one frame, which leads to its event. -/
theorem WsOut.run_ok (c : WsOut) (hok : (c.run ws).1 = .ok ()) :
    ∃ f : WsFrame, f.key.isSome = !ws.isServer ∧ (c.run ws).2.isServer = ws.isServer ∧
      (c.run ws).2.io.wire = ws.io.wire ++ f.encode ∧ f.payload.length < 2 ^ 63 ∧
      (isControl f.opcode = true → f.fin = true ∧ f.payload.length ≤ 125) ∧
      (isControl f.opcode = false → ∃ type, c.event = .message ⟨type, f.payload⟩) ∧
      Rfc6455.step none ⟨f.fin, f.opcode, f.payload⟩ = .go none [c.event] := by
  cases c with
  | ping data =>
    simp only [WsOut.run, zcioWsPing] at hok ⊢
    split_ifs at hok ⊢ with hopen hlong
    · cases hok
    · cases hok
    obtain ⟨key, hkey, hserver, hwire⟩ := wsSendFrame_ok hok
    exact ⟨⟨true, .ping, key, data.1⟩, hkey, hserver, hwire, data.2,
      fun _ => ⟨rfl, not_lt.mp hlong⟩, fun hno => (by cases hno), rfl⟩
  | send type data =>
    cases type with
    | text =>
      simp only [WsOut.run, zcioWsSend, if_true] at hok ⊢
      split_ifs at hok ⊢ with hopen hbad
      · cases hok
      · cases hok
      obtain ⟨key, hkey, hserver, hwire⟩ := wsSendFrame_ok hok
      refine ⟨⟨true, .text, key, data.1⟩, hkey, hserver, hwire, data.2, fun hno => (by cases hno),
        fun _ => ⟨.text, rfl⟩, ?_⟩
      have hutf8 : IsUtf8 data.1 := by
        by_contra hno
        refine hbad ⟨fun hnil => hno ?_, utf8_false.mpr hno⟩
        rw [hnil]
        exact ⟨[], rfl⟩
      simp only [Rfc6455.step, Rfc6455.fragment, if_true, hutf8, not_true_eq_false, and_false,
        if_false, WsOut.event]
    | binary =>
      have hne : WsType.binary.code ≠ WsType.text.code := by decide
      simp only [WsOut.run, zcioWsSend, if_neg hne, if_true] at hok ⊢
      split_ifs at hok ⊢ with hopen
      · cases hok
      obtain ⟨key, hkey, hserver, hwire⟩ := wsSendFrame_ok hok
      exact ⟨⟨true, .bin, key, data.1⟩, hkey, hserver, hwire, data.2, fun hno => (by cases hno),
        fun _ => ⟨.binary, rfl⟩, rfl⟩

/-- **Calls that succeed** write what the reference reads as their messages and the pongs to
their pings, and nothing else. -/
theorem Sends.reference {ws' : Ws} {cs : List WsOut} (h : Sends ws cs ws') {max : Nat}
    (hmax : ∀ m ∈ messages (cs.map WsOut.event), m.data.length ≤ max) :
    ∃ s, ws'.io.wire = ws.io.wire ++ s ∧
      Rfc6455.run (!ws.isServer) max none s = (cs.map WsOut.event, .waiting) := by
  induction h with
  | nil ws => exact ⟨[], (List.append_nil _).symm, Rfc6455.run_more rfl⟩
  | @cons ws ws' c cs hok hrest ih =>
    obtain ⟨f, hkey, hserver, hwire, hlen, hcontrol, hdata, hstep⟩ := c.run_ok hok
    have hmem : ∀ m, Event.message m ∈ (c :: cs).map WsOut.event → m.data.length ≤ max :=
      fun m hm => hmax m (Rfc6455.mem_messages.mpr hm)
    obtain ⟨s, hwire', hrun⟩ := ih fun m hm =>
      hmem m (List.mem_cons_of_mem _ (Rfc6455.mem_messages.mp hm))
    rw [hserver] at hrun
    refine ⟨f.encode ++ s, by rw [hwire', hwire, List.append_assoc], ?_⟩
    have hfits : isControl f.opcode = false → 0 + f.payload.length ≤ max := fun hno => by
      obtain ⟨type, hevent⟩ := hdata hno
      rw [Nat.zero_add]
      exact hmem ⟨type, f.payload⟩ (hevent ▸ List.mem_cons_self)
    have hframe := frame_encode f hlen hcontrol hfits s
    rw [hkey] at hframe
    rw [Rfc6455.run_go hframe hstep, hrun]
    rfl

/-! ### Round trip -/

/-- **What is sent is received.** The octets that calls of one session wrote, in any reads of a
session of the other role whose limit is at least the length of every message: what calls with
any timeouts deliver and answer are the first of the messages and pings; when all was read and
a call delivers nothing, they are all; and a caller that waits gets the messages, and blocks. -/
theorem ws_round_trip {sender sender' : Ws} {cs : List WsOut} (hsends : Sends sender cs sender')
    {ws : Ws} (hfresh : ws.Fresh) (hio : ws.io.Healthy) (hrole : ws.isServer = !sender.isServer)
    (hwire : sender'.io.wire = sender.io.wire ++ ws.inbound)
    (hmax : ∀ m ∈ messages (cs.map WsOut.event), m.data.length ≤ ws.maxMsgBytes) (ts : List Int) :
    let rs := (recvCalls ws ts).1
    let ws' := (recvCalls ws ts).2
    let sent := messages (cs.map WsOut.event)
    let pings := Rfc6455.pongs (cs.map WsOut.event)
    delivered rs <+: sent ∧ ws'.pongsSent <+: pings ∧
      (∀ r, rs.getLast? = some r → (∀ m, r ≠ some (.ok m)) → ws'.io.got = ws.inbound →
        delivered rs = sent ∧ ws'.pongsSent = pings) ∧
      (ws.Steady → (∀ t ∈ ts, t < 0) → ts.length = sent.length + 1 →
        rs = sent.map (fun m => some (.ok m)) ++ [none] ∧ ws'.pongsSent = pings) ∧
      ws'.io.wire = (ws'.io.sent.map fun s => s.frame.encode).flatten := by
  intro rs ws' sent pings
  have href : ws.reference ws.inbound = (cs.map WsOut.event, .waiting) := by
    obtain ⟨s, heq, hrun⟩ := hsends.reference hmax
    rw [hwire] at heq
    rw [Ws.reference, hrole, List.append_cancel_left heq]
    exact hrun
  have hlive := hfresh.live hio
  have hrefines := (hlive.recvCalls ts List.suffix_rfl).refines (reads_recvCalls ws ts)
  refine ⟨?_, ?_, fun r hr hno hgot => ?_, fun hsteady hwait hlen => ?_, hrefines.wire⟩
  · have hpre := hrefines.delivered
    rwa [href] at hpre
  · have hpre := hrefines.pongs
    rwa [href] at hpre
  · obtain ⟨hms, hpongs, -⟩ := hrefines.settled r hr hno
    rw [hgot, href] at hms hpongs
    exact ⟨hms, hpongs⟩
  · obtain ⟨ms, r, hrs, hms, hfinal, hpongs, -⟩ := hlive.recvCalls_steady hsteady ts hwait (by
      rw [hlen, href]
      exact (Nat.zero_add _).symm)
    rw [href] at hms hfinal hpongs
    have hms' : sent = ms := hms
    -- a run that waits ends with a call that blocks
    have hnone : r = none := by
      obtain ⟨-, hr⟩ | hend := hfinal
      · exact hr
      · cases hend with
        | lost hmem => cases hmem
    rw [hms', ← hnone]
    exact ⟨hrs, hpongs⟩

/-- A client, and what it sends: a text and a ping. -/
def greeter : Ws := { isServer := false, io := { keys := [some ⟨[1, 2, 3, 4], rfl⟩] } }

def greeterCalls : List WsOut := [.send .text ⟨[0x48, 0x69], by decide⟩, .ping ⟨[0x78], by decide⟩]

/-- The server that reads it, cut inside the key. -/
def greeted : Ws :=
  { isServer := true
    io := { reads := [.octets ⟨[0x81, 0x82, 1, 2], by decide⟩, .timeout,
      .octets ⟨[3, 4, 0x49, 0x6B, 0x89, 0x81, 0, 0, 0, 0, 0x78], by decide⟩] } }

theorem ws_round_trip_greeting :
    (recvCalls greeted [-1, -1]).1 = [some (.ok ⟨.text, [0x48, 0x69]⟩), none] ∧
      (recvCalls greeted [-1, -1]).2.pongsSent = [[0x78]] := by
  have hsends : Sends greeter greeterCalls
      (WsOut.run (WsOut.run greeter (.send .text ⟨[0x48, 0x69], by decide⟩)).2
        (.ping ⟨[0x78], by decide⟩)).2 :=
    .cons _ (by decide) (.cons _ (by decide) (.nil _))
  have hfresh : greeted.Fresh := ⟨⟨rfl, rfl⟩, ⟨rfl, rfl, rfl⟩, ⟨rfl, rfl⟩, rfl⟩
  have hio : greeted.io.Healthy := ⟨fun w hw => (by cases hw), fun hk => (by cases hk)⟩
  have hsteady : greeted.Steady := by
    intro rd hrd
    cases rd with
    | octets b => exact ⟨fun h => (by cases h), fun e h => (by cases h)⟩
    | timeout => exact ⟨fun h => (by cases h), fun e h => (by cases h)⟩
    | eof => simp [greeted] at hrd
    | error e => simp [greeted] at hrd
  obtain ⟨-, -, -, hall, -⟩ := ws_round_trip hsends hfresh hio rfl (by decide)
    (by decide) [-1, -1]
  exact hall hsteady (by decide) rfl

end Zcio
