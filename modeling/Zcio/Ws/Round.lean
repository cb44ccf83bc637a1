import Zcio.Ws.Output
import Zcio.Ws.Reference

/-!
# Zcio.Ws.Round

A round of `ws_pump` reads the frame that the reference reads (`wsPumpRound_cases`): it waits
where the reference waits, fails the session where the reference sees a violation, and
dispatches the same frame with the same payload.
-/

namespace Zcio

open Rfc6455 (Read Head isControl split split_eq_some split_eq_none extended payloadLen)

/-! ### Octets

The fields of the first two octets of a frame. -/

theorem octet_reserved (b : UInt8) : b &&& 0x70 ≠ 0 ↔ b.toNat / 16 % 8 ≠ 0 := by
  revert b
  apply forall_octet
  decide +kernel

theorem octet_len (b : UInt8) : (b &&& 0x7f).toNat = b.toNat % 128 := by
  revert b
  apply forall_octet
  decide +kernel

theorem octet_top (b : UInt8) : decide (b &&& 0x80 ≠ 0) = decide (128 ≤ b.toNat) := by
  revert b
  apply forall_octet
  decide +kernel

theorem octet_opcode (b : UInt8) : WsOpcode.ofCode (b &&& 0x0f) = Rfc6455.opcode (b.toNat % 16) := by
  revert b
  apply forall_octet
  decide +kernel

theorem octet_control (b : UInt8) :
    ∀ op, Rfc6455.opcode (b.toNat % 16) = some op →
      ((b &&& 0x0f) &&& 0x08 ≠ 0 ↔ isControl op = true) := by
  have hall : ∀ b : UInt8, (Rfc6455.opcode (b.toNat % 16)).all fun op =>
      decide ((b &&& 0x0f) &&& 0x08 ≠ 0) == isControl op := by
    apply forall_octet
    decide +kernel
  intro op hop
  have hb := hall b
  rw [hop, Option.all_some, beq_iff_eq] at hb
  rw [← hb, decide_eq_true_iff]

theorem beNat_foldl (s : Bytes) (v : Nat) :
    s.foldl (fun v b => v * 2 ^ 8 + b.toNat) v < (v + 1) * 256 ^ s.length := by
  induction s generalizing v with
  | nil => simp
  | cons b s ih =>
    have hb := b.toNat_lt
    have hle : v * 2 ^ 8 + b.toNat + 1 ≤ (v + 1) * 256 := by omega
    calc (b :: s).foldl (fun v b => v * 2 ^ 8 + b.toNat) v
        < (v * 2 ^ 8 + b.toNat + 1) * 256 ^ s.length := ih _
      _ ≤ (v + 1) * 256 * 256 ^ s.length := Nat.mul_le_mul_right _ hle
      _ = (v + 1) * 256 ^ (s.length + 1) := by rw [Nat.mul_assoc, ← Nat.pow_succ']

theorem beNat_lt (s : Bytes) : beNat s < 256 ^ s.length := by
  have h := beNat_foldl s 0
  rwa [Nat.zero_add, Nat.one_mul] at h

/-! ### The round

The header as the code reads it is the header of the reference. -/

/-- What the reference reads in the state of a session. -/
def Ws.frame (ws : Ws) : Read Rfc6455.Frame :=
  Rfc6455.frame ws.isServer ws.maxMsgBytes ws.frag.length ws.inp

/-- What a round of `ws_pump` does. -/
inductive WsRoundCases (ws : Ws) : Ws ⊕ (PumpRes × Ws) → Prop
  | more : ws.frame = .more → WsRoundCases ws (.inr (.more, ws))
  | violation (code : Nat) (msg : String) : ws.frame = .violation →
      WsRoundCases ws (.inr (wsProtocolFail ws code msg))
  /-- The input is the frame, its payload unmasked, and the rest. -/
  | frame (f : Rfc6455.Frame) (rest inp : Bytes) (total : Nat) : ws.frame = .got f rest →
      inp.drop total = rest → inp.length = ws.inp.length →
      WsRoundCases ws (wsPumpFrame { ws with inp } f.opcode f.fin f.payload total)

variable {ws : Ws}

section Read

variable {server : Bool} {max progress : Nat} {h : Head} {s r : Bytes}

/-- The reference refuses a header. -/
theorem frame_illegal (hhead : Rfc6455.head s = .got h r) (hno : ¬(h.Legal server ∧ h.Fits max progress)) :
    Rfc6455.frame server max progress s = .violation := by
  rw [Rfc6455.frame, hhead]
  exact if_neg hno

/-- The reference waits for the payload. -/
theorem frame_cut (hhead : Rfc6455.head s = .got h r) (hok : h.Legal server ∧ h.Fits max progress)
    (hpayload : h.payload r = none) : Rfc6455.frame server max progress s = .more := by
  rw [Rfc6455.frame, hhead]
  dsimp only
  rw [if_pos hok, hpayload]

/-- The reference has the whole frame. -/
theorem frame_whole (hhead : Rfc6455.head s = .got h r) (hok : h.Legal server ∧ h.Fits max progress)
    {payload rest : Bytes} (hpayload : h.payload r = some (payload, rest)) :
    Rfc6455.frame server max progress s = .got ⟨h.fin, h.opcode, payload⟩ rest := by
  rw [Rfc6455.frame, hhead]
  dsimp only
  rw [if_pos hok, hpayload]

end Read

theorem wsPumpBody_cases {op : WsOpcode} {h : WsHead} {pre r : Bytes}
    (hinp : ws.inp = pre ++ r) (hpre : pre.length = h.base) (hbase : h.base ≤ 10)
    (hhead : Rfc6455.head ws.inp = .got ⟨h.fin, op, h.masked, h.len⟩ r)
    (hlen : h.len < 2 ^ 63) (hrole : h.masked = ws.isServer)
    (hcontrol : h.opcode &&& 0x08 ≠ 0 ↔ isControl op = true) :
    WsRoundCases ws (wsPumpBody ws op h) := by
  unfold wsPumpBody
  simp only [hcontrol]
  by_cases hc : isControl op = true ∧ (h.fin = false ∨ 125 < h.len)
  · rw [if_pos hc]
    refine .violation _ _ (frame_illegal hhead ?_)
    rintro ⟨⟨-, -, hctl⟩, -⟩
    obtain ⟨hfin, hle⟩ := hctl hc.1
    dsimp only at hfin hle
    obtain hno | hlong := hc.2
    · rw [hno] at hfin
      cases hfin
    · omega
  rw [if_neg hc]
  by_cases hm : ¬isControl op = true ∧ (ws.maxMsgBytes < ws.frag.length ∨
      ws.maxMsgBytes - ws.frag.length < h.len)
  · rw [if_pos hm]
    refine .violation _ _ (frame_illegal hhead ?_)
    rintro ⟨-, hfits⟩
    have hle : ws.frag.length + h.len ≤ ws.maxMsgBytes := hfits (Bool.eq_false_iff.mpr hm.1)
    obtain hlt | hlt := hm.2
    · omega
    · omega
  rw [if_neg hm]
  have hlegal : (Head.mk h.fin op h.masked h.len).Legal ws.isServer ∧
      (Head.mk h.fin op h.masked h.len).Fits ws.maxMsgBytes ws.frag.length := by
    refine ⟨⟨hlen, hrole, fun hctl => ?_⟩, fun hdata => ?_⟩
    · rw [not_and, not_or] at hc
      obtain ⟨hfin, hle⟩ := hc hctl
      exact ⟨Bool.eq_true_of_not_eq_false hfin, not_lt.mp hle⟩
    · rw [not_and, not_or] at hm
      obtain ⟨h1, h2⟩ := hm (Bool.eq_false_iff.mp hdata)
      dsimp only
      omega
  have hcut := @frame_cut _ _ _ _ _ _ hhead hlegal
  have hwhole := @frame_whole _ _ _ _ _ _ hhead hlegal
  have havail : ws.inp.length = h.base + r.length := by rw [hinp, List.length_append, hpre]
  have hdrop : ws.inp.drop h.base = r := by rw [hinp, ← hpre, List.drop_left]
  by_cases hmask : h.masked = true
  · -- the key comes first
    simp only [hmask, if_true, Head.payload] at hcut hwhole ⊢
    cases hkey : split 4 r with
    | none =>
      have hlt := split_eq_none.mp hkey
      rw [if_pos (by omega)]
      exact .more (hcut (by rw [hkey]))
    | some k =>
      obtain ⟨key, r'⟩ := k
      obtain ⟨hr, hkeylen⟩ := split_eq_some.mp hkey
      have hrlen : r.length = 4 + r'.length := by rw [hr, List.length_append, hkeylen]
      have hdrop' : ws.inp.drop (h.base + 4) = r' := by
        rw [← List.drop_drop, hdrop, hr, ← hkeylen, List.drop_left]
      have htake : (ws.inp.drop h.base).take 4 = key := by
        rw [hdrop, hr, ← hkeylen, List.take_left]
      rw [hkey] at hcut hwhole
      dsimp only at hcut hwhole
      rw [if_neg (by omega), if_neg (by unfold SIZE_MAX; omega)]
      cases hp : split h.len r' with
      | none =>
        have hlt := split_eq_none.mp hp
        rw [if_pos (by omega)]
        exact .more (hcut (by rw [hp]; rfl))
      | some q =>
        obtain ⟨payload, rest⟩ := q
        obtain ⟨hr', hplen⟩ := split_eq_some.mp hp
        have hrlen' : r'.length = h.len + rest.length := by rw [hr', List.length_append, hplen]
        have hgot := @hwhole (payload.mapIdx fun i b => b ^^^ key.getD (i % 4) 0) rest (by rw [hp]; rfl)
        rw [if_neg (by omega), htake, hdrop', ← List.drop_drop, hdrop', hr', ← hplen, List.take_left,
          List.drop_left]
        refine .frame ⟨h.fin, op, _⟩ rest _ _ hgot ?_ ?_
        · rw [List.append_assoc, ← List.drop_drop, List.drop_left' (by rw [List.length_take]; omega),
            List.drop_left' List.length_mapIdx]
        · simp only [List.length_append, List.length_take, List.length_mapIdx]
          omega
  · simp only [hmask, if_false, Head.payload, Bool.false_eq_true] at hcut hwhole ⊢
    rw [if_neg (by omega), if_neg (by unfold SIZE_MAX; omega)]
    cases hp : split h.len r with
    | none =>
      have hlt := split_eq_none.mp hp
      rw [if_pos (by omega)]
      exact .more (hcut hp)
    | some q =>
      obtain ⟨payload, rest⟩ := q
      obtain ⟨hr', hplen⟩ := split_eq_some.mp hp
      have hrlen' : r.length = h.len + rest.length := by rw [hr', List.length_append, hplen]
      rw [if_neg (by omega), ← List.drop_drop, hdrop, hr', ← hplen, List.take_left, List.drop_left]
      refine .frame ⟨h.fin, op, payload⟩ rest _ _ (hwhole hp) ?_ ?_
      · rw [List.append_assoc, ← List.drop_drop, List.drop_left' (by rw [List.length_take]; omega),
          List.drop_left]
      · simp only [List.length_append, List.length_take]
        omega

/-- The length that `ws_pump` reads is the one of the reference. -/
theorem payloadLen_eq {b : UInt8} {s e r : Bytes} (h : split (extended b) s = some (e, r)) :
    let len := if b.toNat % 128 = 126 then beNat (s.take 2)
      else if b.toNat % 128 = 127 then beNat (s.take 8) else b.toNat % 128
    payloadLen b s = some (len, r) ∧ (b.toNat % 128 ≠ 127 → len < 2 ^ 63) := by
  obtain ⟨rfl, hlen⟩ := split_eq_some.mp h
  have hpl : payloadLen b (e ++ r) =
      some (if e = [] then b.toNat % 128 else beNat e, r) := by
    rw [payloadLen, h]
    rfl
  dsimp only
  rw [hpl]
  unfold extended at hlen
  by_cases h126 : b.toNat % 128 = 126
  · rw [if_pos h126] at hlen ⊢
    have hne : e ≠ [] := List.ne_nil_of_length_pos (by omega)
    have hlt := beNat_lt e
    rw [if_neg hne, List.take_left' hlen]
    rw [hlen] at hlt
    exact ⟨rfl, fun _ => hlt.trans (by decide)⟩
  rw [if_neg h126] at hlen ⊢
  by_cases h127 : b.toNat % 128 = 127
  · rw [if_pos h127] at hlen ⊢
    have hne : e ≠ [] := List.ne_nil_of_length_pos (by omega)
    rw [if_neg hne, List.take_left' hlen]
    exact ⟨rfl, fun hno => absurd h127 hno⟩
  · rw [if_neg h127] at hlen ⊢
    rw [if_pos (List.eq_nil_of_length_eq_zero hlen)]
    exact ⟨rfl, fun _ => by omega⟩

/-- **A round of `ws_pump`.** -/
theorem wsPumpRound_cases (ws : Ws) : WsRoundCases ws (wsPumpRound ws) := by
  match hinp : ws.inp with
  | [] =>
    have hshort : ws.frame = .more := by
      unfold Ws.frame
      rw [hinp]
      rfl
    unfold wsPumpRound
    rw [hinp]
    exact .more hshort
  | [b] =>
    have hshort : ws.frame = .more := by
      unfold Ws.frame
      rw [hinp]
      rfl
    unfold wsPumpRound
    rw [hinp]
    exact .more hshort
  | b₀ :: b₁ :: s =>
    have hlen : ws.inp.length = s.length + 2 := by rw [hinp]; rfl
    unfold wsPumpRound
    dsimp only
    rw [if_neg (by omega)]
    rw [show ws.inp.getD 0 0 = b₀ by rw [hinp]; rfl, show ws.inp.getD 1 0 = b₁ by rw [hinp]; rfl,
      show ws.inp.drop 2 = s by rw [hinp]; rfl]
    simp only [octet_reserved, octet_len, octet_top, octet_opcode]
    have hframe : ws.frame = Rfc6455.frame ws.isServer ws.maxMsgBytes ws.frag.length
      (b₀ :: b₁ :: s) := congrArg _ hinp
    by_cases hrsv : b₀.toNat / 16 % 8 ≠ 0
    · rw [if_pos hrsv]
      refine .violation _ _ ?_
      rw [hframe, Rfc6455.frame, Rfc6455.head, if_pos hrsv]
    rw [if_neg hrsv]
    have hbase : (if b₁.toNat % 128 = 126 then 4 else if b₁.toNat % 128 = 127 then 10 else 2) =
        2 + extended b₁ := by
      unfold extended
      split_ifs <;> rfl
    rw [hbase]
    cases hext : split (extended b₁) s with
    | none =>
      have hlt := split_eq_none.mp hext
      rw [if_pos (by omega)]
      refine .more ?_
      rw [hframe, Rfc6455.frame, Rfc6455.head, if_neg hrsv, payloadLen, hext]
      rfl
    | some p =>
      obtain ⟨e, r⟩ := p
      obtain ⟨hs, helen⟩ := split_eq_some.mp hext
      have hslen : s.length = e.length + r.length := by rw [hs, List.length_append]
      rw [if_neg (by omega)]
      -- the length of the code and that of the reference
      generalize hlen' : (if b₁.toNat % 128 = 126 then beNat (s.take 2)
        else if b₁.toNat % 128 = 127 then beNat (s.take 8) else b₁.toNat % 128) = len
      obtain ⟨hpl, hsmall⟩ := payloadLen_eq hext
      rw [hlen'] at hpl hsmall
      have hbad (hop : Rfc6455.opcode (b₀.toNat % 16) = none) :
          Rfc6455.head (b₀ :: b₁ :: s) = .violation := by
        rw [Rfc6455.head, if_neg hrsv, hpl]
        dsimp only
        rw [hop]
      have hhead {op : WsOpcode} (hop : Rfc6455.opcode (b₀.toNat % 16) = some op) :
          Rfc6455.head (b₀ :: b₁ :: s) =
            .got ⟨decide (128 ≤ b₀.toNat), op, decide (128 ≤ b₁.toNat), len⟩ r := by
        rw [Rfc6455.head, if_neg hrsv, hpl]
        dsimp only
        rw [hop]
      have hillegal (hno : ∀ fin op, ¬(Head.mk fin op (decide (128 ≤ b₁.toNat)) len).Legal
          ws.isServer) : ws.frame = .violation := by
        rw [hframe]
        cases hop : Rfc6455.opcode (b₀.toNat % 16) with
        | none => rw [Rfc6455.frame, hbad hop]
        | some op => exact frame_illegal (hhead hop) fun h => hno _ _ h.1
      by_cases hhigh : b₁.toNat % 128 = 127 ∧ 2 ^ 63 ≤ len
      · rw [if_pos hhigh]
        exact .violation _ _ (hillegal fun _ _ h => absurd h.1 (by dsimp only; omega))
      rw [if_neg hhigh]
      by_cases hserver : ws.isServer = true ∧ decide (128 ≤ b₁.toNat) = false
      · rw [if_pos hserver]
        refine .violation _ _ (hillegal fun _ _ h => ?_)
        have hrole := h.2.1
        rw [hserver.1, hserver.2] at hrole
        cases hrole
      rw [if_neg hserver]
      by_cases hclient : ws.isServer = false ∧ decide (128 ≤ b₁.toNat) = true
      · rw [if_pos hclient]
        refine .violation _ _ (hillegal fun _ _ h => ?_)
        have hrole := h.2.1
        rw [hclient.1, hclient.2] at hrole
        cases hrole
      rw [if_neg hclient]
      cases hop : Rfc6455.opcode (b₀.toNat % 16) with
      | none =>
        refine .violation _ _ ?_
        rw [hframe, Rfc6455.frame, hbad hop]
      | some op =>
        have hrole : decide (128 ≤ b₁.toNat) = ws.isServer := by
          cases hm : decide (128 ≤ b₁.toNat) <;> cases hr : ws.isServer <;> simp_all
        have hpre : ws.inp = (b₀ :: b₁ :: e) ++ r := by
          rw [hinp, hs]
          rfl
        refine wsPumpBody_cases hpre ?_ ?_ ?_ ?_ hrole (octet_control b₀ op hop)
        · simp only [List.length_cons]
          omega
        · dsimp only
          unfold extended
          split_ifs <;> omega
        · rw [hinp, hhead hop]
        · dsimp only
          by_cases h127 : b₁.toNat % 128 = 127
          · omega
          · exact hsmall h127

/-! ### The frame

What the code does with a whole frame is what the reference does, opcode by opcode. -/

/-- The message in progress. -/
def Ws.progress (ws : Ws) : Rfc6455.Progress :=
  if ws.fragActive then some (if ws.curOpcode = .text then .text else .binary, ws.frag) else none

/-- Nothing is left of a message that is not in progress. -/
def Ws.Whole (ws : Ws) : Prop := ws.fragActive = false → ws.frag = []

/-- What `ws_pump` does with a frame. -/
inductive FrameCases (ws : Ws) (f : Rfc6455.Frame) (total : Nat) : Ws ⊕ (PumpRes × Ws) → Prop
  | ping : f.opcode = .ping → (wsSendFrame ws .pong true f.payload).1 = .ok () →
      FrameCases ws f total (.inl ((wsSendFrame ws .pong true f.payload).2.consume total))
  | pingFailed (e : Fail) : f.opcode = .ping → (wsSendFrame ws .pong true f.payload).1 = .error e →
      FrameCases ws f total
        (.inr (.fail (.fail e), (wsSendFrame ws .pong true f.payload).2.consume total))
  | pong : f.opcode = .pong → FrameCases ws f total (.inl (ws.consume total))
  | violation (inp frag : Bytes) (active : Bool) (code : Nat) (msg : String) :
      inp.length ≤ ws.inp.length →
      (ws.Whole → Rfc6455.step ws.progress f = .stop .violation) →
      FrameCases ws f total
        (.inr (wsProtocolFail { ws with inp, frag, fragActive := active } code msg))
  | closed (code : Nat) (echo : Bytes) : Rfc6455.step ws.progress f = .stop .closed →
      FrameCases ws f total (.inr (.closed,
        (wsSendClose { ws with closeCode := code, closeRecv := true } echo).consume total))
  | message (m : WsMsg) (frag : Bytes) :
      (ws.Whole → frag = [] ∧ Rfc6455.step ws.progress f = .go none [.message m]) →
      FrameCases ws f total
        (.inr (.msg m, { ws with inp := ws.inp.drop total, frag, fragActive := false }))
  | fragment (op : WsOpcode) (frag : Bytes) :
      (ws.Whole → Rfc6455.step ws.progress f =
        .go (some (if op = .text then .text else .binary, frag)) []) →
      FrameCases ws f total (.inl
        { ws with inp := ws.inp.drop total, curOpcode := op, frag, fragActive := true })

theorem utf8_false {s : Bytes} : zhsUtf8Valid s = false ↔ ¬IsUtf8 s := by
  rw [← zhsUtf8Valid_iff, Bool.not_eq_true]

theorem wsCloseCodeOk_iff (code : Nat) : wsCloseCodeOk code = true ↔ Rfc6455.CloseCode code := by
  unfold wsCloseCodeOk Rfc6455.CloseCode
  simp only [Bool.or_eq_true, Bool.and_eq_true, decide_eq_true_eq, or_assoc]

theorem wsPumpClose_cases (ws : Ws) (payload : Bytes) (total : Nat) :
    (¬Rfc6455.ClosePayload payload ∧ ∃ code msg,
      wsPumpClose ws payload total = wsProtocolFail (ws.consume total) code msg) ∨
    (Rfc6455.ClosePayload payload ∧ ∃ code echo, wsPumpClose ws payload total = (.closed,
      (wsSendClose { ws with closeCode := code, closeRecv := true } echo).consume total)) := by
  simp only [wsPumpClose]
  have hnil : payload = [] ↔ payload.length = 0 := List.length_eq_zero_iff.symm
  by_cases h1 : payload.length = 1
  · rw [if_pos h1]
    refine .inl ⟨?_, _, _, rfl⟩
    rintro (h | ⟨hlen, -⟩)
    · rw [hnil] at h
      omega
    · omega
  rw [if_neg h1]
  by_cases h2 : 2 ≤ payload.length
  · simp only [h2, if_true, true_and]
    by_cases hcode : wsCloseCodeOk (beNat (payload.take 2)) = false
    · rw [if_pos hcode]
      refine .inl ⟨?_, _, _, rfl⟩
      rintro (h | ⟨-, hok, -⟩)
      · rw [hnil] at h
        omega
      · rw [← wsCloseCodeOk_iff, hcode] at hok
        cases hok
    rw [if_neg hcode]
    have hok := (wsCloseCodeOk_iff _).mp (Bool.eq_true_of_not_eq_false hcode)
    by_cases hreason : 2 < payload.length ∧ zhsUtf8Valid (payload.drop 2) = false
    · rw [if_pos hreason]
      refine .inl ⟨?_, _, _, rfl⟩
      rintro (h | ⟨-, -, hutf8⟩)
      · rw [hnil] at h
        omega
      · exact utf8_false.mp hreason.2 hutf8
    rw [if_neg hreason]
    refine .inr ⟨.inr ⟨h2, hok, ?_⟩, _, _, rfl⟩
    by_contra hbad
    refine hreason ⟨?_, utf8_false.mpr hbad⟩
    -- the empty reason is one
    by_contra hshort
    rw [List.drop_eq_nil_of_le (not_lt.mp hshort)] at hbad
    exact hbad ⟨[], rfl⟩
  · rw [if_neg fun h => h2 h.1, if_neg fun h => h2 (Nat.le_of_lt h.1)]
    exact .inr ⟨.inl (hnil.mpr (by omega)), _, _, rfl⟩

theorem wsPumpData_cases (ws : Ws) {op : WsOpcode} (hop : op = .text ∨ op = .bin) (fin : Bool)
    (payload : Bytes) (total : Nat) :
    FrameCases ws ⟨fin, op, payload⟩ total (wsPumpData ws op fin payload total) := by
  unfold wsPumpData
  cases hact : ws.fragActive with
  -- a new message within a fragmented one
  | true =>
    have hprogress : ∃ p, ws.progress = some p := ⟨_, by unfold Ws.progress; rw [hact]; rfl⟩
    obtain ⟨p, hp⟩ := hprogress
    refine .violation ws.inp ws.frag ws.fragActive _ _ le_rfl fun _ => ?_
    rw [hp]
    obtain rfl | rfl := hop
    · rfl
    · rfl
  -- no message is in progress
  | false =>
    rw [if_neg Bool.false_ne_true]
    have hprogress : ws.progress = none := by unfold Ws.progress; rw [hact]; rfl
    have hstep : Rfc6455.step ws.progress ⟨fin, op, payload⟩ =
        Rfc6455.fragment (if op = .text then .text else .binary) payload fin := by
      rw [hprogress]
      obtain rfl | rfl := hop
      · rfl
      · rfl
    have htype : (if op = .text then WsType.text else .binary) = .text ↔ op = .text := by
      obtain rfl | rfl := hop
      · decide
      · decide
    cases fin with
    -- the only fragment: a text has to be UTF-8
    | true =>
      rw [if_pos rfl]
      by_cases hbad : op = .text ∧ zhsUtf8Valid payload = false
      · rw [if_pos hbad]
        refine .violation (ws.inp.drop total) ws.frag ws.fragActive _ _
          (List.drop_suffix ..).length_le fun _ => ?_
        rw [hstep, Rfc6455.fragment, if_pos rfl, if_pos ⟨htype.mpr hbad.1, utf8_false.mp hbad.2⟩]
      · rw [if_neg hbad]
        have hws : ws.consume total =
            { ws with inp := ws.inp.drop total, fragActive := false } := by
          rw [← hact]
          rfl
        rw [hws]
        refine .message _ ws.frag fun hw => ⟨hw hact, ?_⟩
        rw [hstep, Rfc6455.fragment, if_pos rfl, if_neg]
        rintro ⟨htext, hutf8⟩
        exact hbad ⟨htype.mp htext, utf8_false.mpr hutf8⟩
    -- the first of more fragments
    | false =>
      rw [if_neg Bool.false_ne_true]
      refine .fragment op (ws.frag ++ payload) fun hw => ?_
      rw [hstep, Rfc6455.fragment, if_neg Bool.false_ne_true, hw hact, List.nil_append]

theorem wsPumpCont_cases (ws : Ws) (fin : Bool) (payload : Bytes) (total : Nat) :
    FrameCases ws ⟨fin, .cont, payload⟩ total (wsPumpCont ws fin payload total) := by
  unfold wsPumpCont
  dsimp only
  cases hact : ws.fragActive with
  -- a continuation of nothing
  | false =>
    have hprogress : ws.progress = none := by unfold Ws.progress; rw [hact]; rfl
    refine .violation ws.inp ws.frag ws.fragActive _ _ le_rfl fun _ => ?_
    rw [hprogress]
    rfl
  | true =>
    rw [if_neg (by decide)]
    have hstep : Rfc6455.step ws.progress ⟨fin, .cont, payload⟩ =
        Rfc6455.fragment (if ws.curOpcode = .text then .text else .binary) (ws.frag ++ payload)
          fin := by
      unfold Ws.progress
      rw [hact]
      rfl
    -- the fragment is the last one or not
    cases fin with
    | true =>
      rw [if_pos rfl]
      -- the text as a whole has to be UTF-8, wherever it was cut
      by_cases hbad : ws.curOpcode = .text ∧ zhsUtf8Valid (ws.frag ++ payload) = false
      · rw [if_pos hbad]
        refine .violation (ws.inp.drop total) [] false _ _ (List.drop_suffix ..).length_le
          fun _ => ?_
        rw [hstep, Rfc6455.fragment, if_pos rfl, if_pos ⟨if_pos hbad.1, utf8_false.mp hbad.2⟩]
      · rw [if_neg hbad]
        refine .message _ [] fun _ => ⟨rfl, ?_⟩
        rw [hstep, Rfc6455.fragment, if_pos rfl, if_neg]
        rintro ⟨htext, hutf8⟩
        refine hbad ⟨?_, utf8_false.mpr hutf8⟩
        by_contra hne
        rw [if_neg hne] at htext
        cases htext
    | false =>
      rw [if_neg Bool.false_ne_true]
      have hws : { ws.consume total with frag := ws.frag ++ payload } =
          { ws with
            inp := ws.inp.drop total, curOpcode := ws.curOpcode, frag := ws.frag ++ payload
            fragActive := true } := by
        rw [← hact]
        rfl
      rw [hws]
      refine .fragment ws.curOpcode _ fun _ => ?_
      rw [hstep, Rfc6455.fragment, if_neg Bool.false_ne_true]

/-- **A frame in `ws_pump`** is a step of the reference. -/
theorem wsPumpFrame_cases (ws : Ws) (f : Rfc6455.Frame) (total : Nat) :
    FrameCases ws f total (wsPumpFrame ws f.opcode f.fin f.payload total) := by
  obtain ⟨fin, op, payload⟩ := f
  cases op with
  | ping =>
    simp only [wsPumpFrame]
    split
    · rename_i h
      exact .ping rfl h
    · rename_i e h
      exact .pingFailed e rfl h
  | pong => exact .pong rfl
  | close =>
    simp only [wsPumpFrame]
    obtain ⟨hbad, code, msg, heq⟩ | ⟨hok, code, echo, heq⟩ := wsPumpClose_cases ws payload total
    · rw [heq]
      refine .violation (ws.inp.drop total) ws.frag ws.fragActive _ _ (List.drop_suffix ..).length_le
        fun _ => ?_
      simp only [Rfc6455.step, if_neg hbad]
    · rw [heq]
      refine .closed code echo ?_
      simp only [Rfc6455.step, if_pos hok]
  | text => exact wsPumpData_cases ws (.inl rfl) fin payload total
  | bin => exact wsPumpData_cases ws (.inr rfl) fin payload total
  | cont => exact wsPumpCont_cases ws fin payload total

end Zcio
