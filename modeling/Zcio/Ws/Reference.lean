import Zcio.Ws.Session

/-!
# Zcio.Ws.Reference

A receiver as RFC 6455 describes it, for a whole inbound string: frames are read off the front
(`frame`), and a message is put together from its fragments (`step`) while control frames come
in between. `run` gives what is delivered and answered, and how it ends.

The rules on the header are judged as soon as its length field is there, those on the payload
at the end of the frame.
-/

namespace Zcio.Rfc6455

/-! ### Frames

The frame of RFC 6455 5.2, read off the front of a list of octets. -/

/-- A frame as it is received, its payload unmasked. -/
structure Frame where
  fin : Bool
  opcode : WsOpcode
  payload : Bytes
  deriving Repr, DecidableEq

/-- The fields of the header in front of the masking key. -/
structure Head where
  fin : Bool
  opcode : WsOpcode
  masked : Bool
  len : Nat

/-- What is read off the front of a string. -/
inductive Read (α : Type) where
  | more
  | violation
  | got (a : α) (rest : Bytes)

/-- The first `n` octets, once they are there. -/
def split (n : Nat) (s : Bytes) : Option (Bytes × Bytes) :=
  if s.length < n then none else some (s.take n, s.drop n)

/-- The octets of a length that does not fit in seven bits. -/
def extended (b : UInt8) : Nat :=
  if b.toNat % 128 = 126 then 2 else if b.toNat % 128 = 127 then 8 else 0

/-- The payload length: seven bits, or the octets behind them. -/
def payloadLen (b : UInt8) (s : Bytes) : Option (Nat × Bytes) :=
  (split (extended b) s).map fun (e, s) => (if e = [] then b.toNat % 128 else beNat e, s)

/-- The opcodes of the standard; the others are reserved. -/
def opcode : Nat → Option WsOpcode
  | 0 => some .cont
  | 1 => some .text
  | 2 => some .bin
  | 8 => some .close
  | 9 => some .ping
  | 10 => some .pong
  | _ => none

/-- The header: no reserved bit, and no reserved opcode. -/
def head : Bytes → Read Head
  | b₀ :: b₁ :: s =>
    if b₀.toNat / 16 % 8 ≠ 0 then .violation
    else
      match payloadLen b₁ s with
      | none => .more
      | some (len, s) =>
        match opcode (b₀.toNat % 16) with
        | none => .violation
        | some op =>
          .got { fin := decide (128 ≤ b₀.toNat), opcode := op, masked := decide (128 ≤ b₁.toNat),
                 len } s
  | _ => .more

/-- Close, ping and pong. -/
def isControl : WsOpcode → Bool
  | .close | .ping | .pong => true
  | .cont | .text | .bin => false

/-- What a receiver asks of a header: only a client masks, a length has 63 bits, and a control
frame is short and whole. -/
def Head.Legal (server : Bool) (h : Head) : Prop :=
  h.len < 2 ^ 63 ∧ h.masked = server ∧ (isControl h.opcode = true → h.fin = true ∧ h.len ≤ 125)

instance (server : Bool) (h : Head) : Decidable (h.Legal server) :=
  inferInstanceAs (Decidable (_ ∧ _ ∧ _))

/-- A data frame leaves the message, of which `progress` octets are there, within `max`. -/
def Head.Fits (max progress : Nat) (h : Head) : Prop :=
  isControl h.opcode = false → progress + h.len ≤ max

instance (max progress : Nat) (h : Head) : Decidable (h.Fits max progress) :=
  inferInstanceAs (Decidable (_ → _))

/-- The payload behind a header, and the rest. -/
def Head.payload (h : Head) (s : Bytes) : Option (Bytes × Bytes) :=
  if h.masked then
    match split 4 s with
    | none => none
    | some (key, s) =>
      (split h.len s).map fun (p, s) => (p.mapIdx fun i b => b ^^^ key.getD (i % 4) 0, s)
  else split h.len s

/-- The frame at the front of a string. -/
def frame (server : Bool) (max progress : Nat) (s : Bytes) : Read Frame :=
  match head s with
  | .more => .more
  | .violation => .violation
  | .got h s =>
    if h.Legal server ∧ h.Fits max progress then
      match h.payload s with
      | none => .more
      | some (payload, s) => .got { fin := h.fin, opcode := h.opcode, payload } s
    else .violation

/-! ### Messages

Frames put together to messages, with the violations of RFC 6455 5.4 and 5.5. -/

/-- What a receiver does besides reading. -/
inductive Event where
  | message (m : WsMsg)
  | pong (payload : Bytes)
  deriving Repr, DecidableEq

/-- How it ends: it may wait for more, the peer has closed, or the peer broke a rule. -/
inductive End where
  | waiting
  | closed
  | violation
  deriving Repr, DecidableEq

/-- The message in progress. -/
abbrev Progress := Option (WsType × Bytes)

/-- What a frame leads to. -/
inductive Next where
  | go (a : Progress) (es : List Event)
  | stop (e : End)

/-- More of a message: at its end it is delivered, if it is what it says. -/
def fragment (type : WsType) (data : Bytes) (fin : Bool) : Next :=
  if fin then
    if type = .text ∧ ¬IsUtf8 data then .stop .violation else .go none [.message ⟨type, data⟩]
  else .go (some (type, data)) []

/-- A close code that may be sent. -/
def CloseCode (code : Nat) : Prop :=
  1000 ≤ code ∧ code ≤ 1003 ∨ 1007 ≤ code ∧ code ≤ 1014 ∨ 3000 ≤ code ∧ code ≤ 4999

instance (code : Nat) : Decidable (CloseCode code) := inferInstanceAs (Decidable (_ ∨ _))

/-- The payload of a close frame: empty, or a code and a reason. -/
def ClosePayload (p : Bytes) : Prop :=
  p = [] ∨ 2 ≤ p.length ∧ CloseCode (beNat (p.take 2)) ∧ IsUtf8 (p.drop 2)

instance (p : Bytes) : Decidable (ClosePayload p) := inferInstanceAs (Decidable (_ ∨ _))

/-- A frame, with `a` in progress. -/
def step (a : Progress) (f : Frame) : Next :=
  match f.opcode, a with
  | .ping, a => .go a [.pong f.payload]
  | .pong, a => .go a []
  | .close, _ => .stop (if ClosePayload f.payload then .closed else .violation)
  | .text, none => fragment .text f.payload f.fin
  | .bin, none => fragment .binary f.payload f.fin
  | .cont, some (type, data) => fragment type (data ++ f.payload) f.fin
  | .text, some _ | .bin, some _ | .cont, none => .stop .violation

/-- The octets in progress. -/
def Progress.size : Progress → Nat
  | none => 0
  | some (_, data) => data.length

/-! ### Facts about frames

A frame that was read does not depend on what is behind it, and neither does a violation. -/

theorem split_eq_some {n : Nat} {s a r : Bytes} :
    split n s = some (a, r) ↔ s = a ++ r ∧ a.length = n := by
  unfold split
  constructor
  · intro h
    split_ifs at h with hlt
    cases h
    exact ⟨(List.take_append_drop ..).symm, List.length_take_of_le (by omega)⟩
  · rintro ⟨rfl, rfl⟩
    rw [if_neg (by simp), List.take_left, List.drop_left]

theorem split_eq_none {n : Nat} {s : Bytes} : split n s = none ↔ s.length < n := by
  unfold split
  split_ifs with hlt
  · exact ⟨fun _ => hlt, fun _ => rfl⟩
  · exact ⟨fun h => (by cases h), fun h => absurd h hlt⟩

theorem split_append {n : Nat} {s a r : Bytes} (h : split n s = some (a, r)) (y : Bytes) :
    split n (s ++ y) = some (a, r ++ y) := by
  obtain ⟨rfl, hlen⟩ := split_eq_some.mp h
  exact split_eq_some.mpr ⟨List.append_assoc .., hlen⟩

theorem payloadLen_append {b : UInt8} {s rest : Bytes} {len : Nat}
    (h : payloadLen b s = some (len, rest)) (y : Bytes) :
    payloadLen b (s ++ y) = some (len, rest ++ y) := by
  obtain ⟨⟨e, r⟩, hsplit, heq⟩ := Option.map_eq_some_iff.mp h
  cases heq
  rw [payloadLen, split_append hsplit]
  rfl

theorem Head.payload_append {h : Head} {s p rest : Bytes} (hp : h.payload s = some (p, rest))
    (y : Bytes) : h.payload (s ++ y) = some (p, rest ++ y) := by
  unfold Head.payload at hp ⊢
  split_ifs at hp ⊢ with hm
  · cases hkey : split 4 s with
    | none =>
      rw [hkey] at hp
      cases hp
    | some ks =>
      obtain ⟨key, s'⟩ := ks
      rw [hkey] at hp
      obtain ⟨⟨q, r⟩, hsplit, heq⟩ := Option.map_eq_some_iff.mp hp
      cases heq
      rw [split_append hkey]
      dsimp only
      rw [split_append hsplit]
      rfl
  · exact split_append hp y

theorem head_append {s rest : Bytes} {h : Head} (hs : head s = .got h rest) (y : Bytes) :
    head (s ++ y) = .got h (rest ++ y) := by
  match s with
  | [] => cases hs
  | [_] => cases hs
  | b₀ :: b₁ :: s =>
    simp only [head, List.cons_append] at hs ⊢
    split_ifs at hs ⊢ with hrsv
    cases hlen : payloadLen b₁ s with
    | none =>
      rw [hlen] at hs
      cases hs
    | some p =>
      obtain ⟨len, r⟩ := p
      rw [hlen] at hs
      rw [payloadLen_append hlen]
      dsimp only at hs ⊢
      cases hop : opcode (b₀.toNat % 16) with
      | none =>
        rw [hop] at hs
        cases hs
      | some op =>
        rw [hop] at hs
        cases hs
        rfl

theorem head_violation_append {s : Bytes} (hs : head s = .violation) (y : Bytes) :
    head (s ++ y) = .violation := by
  match s with
  | [] => cases hs
  | [_] => cases hs
  | b₀ :: b₁ :: s =>
    simp only [head, List.cons_append] at hs ⊢
    split_ifs at hs ⊢ with hrsv
    · rfl
    cases hlen : payloadLen b₁ s with
    | none =>
      rw [hlen] at hs
      cases hs
    | some p =>
      obtain ⟨len, r⟩ := p
      rw [hlen] at hs
      rw [payloadLen_append hlen]
      dsimp only at hs ⊢
      cases hop : opcode (b₀.toNat % 16) with
      | none => rfl
      | some op =>
        rw [hop] at hs
        cases hs

variable {server : Bool} {max progress : Nat}

/-- **A frame that is there** stays as more octets come. -/
theorem frame_append {s rest : Bytes} {f : Frame} (h : frame server max progress s = .got f rest)
    (y : Bytes) : frame server max progress (s ++ y) = .got f (rest ++ y) := by
  unfold frame at h ⊢
  cases hs : head s with
  | more => rw [hs] at h; cases h
  | violation => rw [hs] at h; cases h
  | got hd r =>
    rw [hs] at h
    rw [head_append hs]
    dsimp only at h ⊢
    split_ifs at h ⊢ with hlegal
    cases hp : hd.payload r with
    | none => rw [hp] at h; cases h
    | some p =>
      obtain ⟨p, r'⟩ := p
      rw [hp] at h
      rw [hd.payload_append hp]
      cases h
      rfl

/-- So does a violation. -/
theorem frame_violation_append {s : Bytes} (h : frame server max progress s = .violation)
    (y : Bytes) : frame server max progress (s ++ y) = .violation := by
  unfold frame at h ⊢
  cases hs : head s with
  | more => rw [hs] at h; cases h
  | violation => rw [head_violation_append hs]
  | got hd r =>
    rw [hs] at h
    rw [head_append hs]
    dsimp only at h ⊢
    split_ifs at h ⊢ with hlegal
    · cases hp : hd.payload r with
      | none => rw [hp] at h; cases h
      | some p => rw [hp] at h; cases h
    · rfl

/-- A header takes two octets at least and ten at most. -/
theorem head_length {s rest : Bytes} {h : Head} (hs : head s = .got h rest) :
    rest.length + 2 ≤ s.length ∧ s.length ≤ rest.length + 10 := by
  match s with
  | [] => cases hs
  | [_] => cases hs
  | b₀ :: b₁ :: s =>
    simp only [head] at hs
    split_ifs at hs with hrsv
    cases hlen : payloadLen b₁ s with
    | none => rw [hlen] at hs; cases hs
    | some p =>
      obtain ⟨len, r⟩ := p
      rw [hlen] at hs
      dsimp only at hs
      cases hop : opcode (b₀.toNat % 16) with
      | none => rw [hop] at hs; cases hs
      | some op =>
        rw [hop] at hs
        cases hs
        obtain ⟨⟨e, r'⟩, hsplit, heq⟩ := Option.map_eq_some_iff.mp hlen
        cases heq
        obtain ⟨rfl, hext⟩ := split_eq_some.mp hsplit
        have hle : extended b₁ ≤ 8 := by
          unfold extended
          split_ifs <;> omega
        simp only [List.length_cons, List.length_append]
        omega

theorem Head.payload_suffix {h : Head} {s p rest : Bytes} (hp : h.payload s = some (p, rest)) :
    rest <:+ s := by
  unfold Head.payload at hp
  split_ifs at hp with hm
  · cases hkey : split 4 s with
    | none => rw [hkey] at hp; cases hp
    | some ks =>
      obtain ⟨key, s'⟩ := ks
      rw [hkey] at hp
      obtain ⟨⟨q, r⟩, hsplit, heq⟩ := Option.map_eq_some_iff.mp hp
      cases heq
      obtain ⟨rfl, -⟩ := split_eq_some.mp hsplit
      obtain ⟨rfl, -⟩ := split_eq_some.mp hkey
      exact (List.suffix_append ..).trans (List.suffix_append ..)
  · obtain ⟨rfl, -⟩ := split_eq_some.mp hp
    exact List.suffix_append ..

theorem Head.payload_length {h : Head} {s p rest : Bytes} (hp : h.payload s = some (p, rest)) :
    p.length = h.len := by
  unfold Head.payload at hp
  split_ifs at hp with hm
  · cases hkey : split 4 s with
    | none => rw [hkey] at hp; cases hp
    | some ks =>
      obtain ⟨key, s'⟩ := ks
      rw [hkey] at hp
      obtain ⟨⟨q, r⟩, hsplit, heq⟩ := Option.map_eq_some_iff.mp hp
      cases heq
      rw [List.length_mapIdx]
      exact (split_eq_some.mp hsplit).2
  · exact (split_eq_some.mp hp).2

theorem Head.payload_none {h : Head} {s : Bytes} (hp : h.payload s = none) :
    s.length < 4 + h.len := by
  unfold Head.payload at hp
  split_ifs at hp with hm
  · cases hkey : split 4 s with
    | none =>
      have := split_eq_none.mp hkey
      omega
    | some ks =>
      obtain ⟨key, s'⟩ := ks
      rw [hkey] at hp
      obtain ⟨rfl, hlen⟩ := split_eq_some.mp hkey
      have := split_eq_none.mp (Option.map_eq_none_iff.mp hp)
      rw [List.length_append]
      omega
  · have := split_eq_none.mp hp
    omega

theorem head_more_length {s : Bytes} (hs : head s = .more) : s.length < 10 := by
  match s with
  | [] => exact Nat.zero_lt_succ _
  | [_] => exact Nat.succ_lt_succ (Nat.zero_lt_succ _)
  | b₀ :: b₁ :: s =>
    simp only [head] at hs
    split_ifs at hs with hrsv
    cases hlen : payloadLen b₁ s with
    | some p =>
      obtain ⟨len, r⟩ := p
      rw [hlen] at hs
      dsimp only at hs
      cases hop : opcode (b₀.toNat % 16) with
      | none => rw [hop] at hs; cases hs
      | some op => rw [hop] at hs; cases hs
    | none =>
      have hlt := split_eq_none.mp (Option.map_eq_none_iff.mp hlen)
      have hle : extended b₁ ≤ 8 := by
        unfold extended
        split_ifs <;> omega
      simp only [List.length_cons]
      omega

theorem frame_shorter {s rest : Bytes} {f : Frame}
    (h : frame server max progress s = .got f rest) : rest.length < s.length := by
  unfold frame at h
  cases hs : head s with
  | more => rw [hs] at h; cases h
  | violation => rw [hs] at h; cases h
  | got hd r =>
    rw [hs] at h
    dsimp only at h
    split_ifs at h with hlegal
    cases hp : hd.payload r with
    | none => rw [hp] at h; cases h
    | some p =>
      obtain ⟨p, r'⟩ := p
      rw [hp] at h
      cases h
      have := (head_length hs).1
      have := (Head.payload_suffix hp).length_le
      omega

/-- **A receiver that waits** has read less than a longest frame. -/
theorem frame_more_length {s : Bytes} (h : frame server max progress s = .more) :
    s.length < Nat.max max 125 + 14 := by
  have hmax : max ≤ Nat.max max 125 := Nat.le_max_left ..
  have h125 : 125 ≤ Nat.max max 125 := Nat.le_max_right ..
  unfold frame at h
  cases hs : head s with
  | more =>
    have := head_more_length hs
    omega
  | violation => rw [hs] at h; cases h
  | got hd r =>
    rw [hs] at h
    dsimp only at h
    split_ifs at h with hlegal
    cases hp : hd.payload r with
    | some p => rw [hp] at h; cases h
    | none =>
      obtain ⟨⟨-, -, hcontrol⟩, hfits⟩ := hlegal
      have hlen : hd.len ≤ Nat.max max 125 := by
        cases hc : isControl hd.opcode with
        | true => exact (hcontrol hc).2.trans h125
        | false => exact (Nat.le_add_left ..).trans ((hfits hc).trans hmax)
      have := (head_length hs).2
      have := Head.payload_none hp
      omega

/-! ### The receiver

The receiver takes frame after frame until the octets end or a frame stops it. -/

/-- What is delivered and answered of a string, and how it ends. -/
def run (server : Bool) (max : Nat) (a : Progress) (s : Bytes) : List Event × End :=
  match h : frame server max a.size s with
  | .more => ([], .waiting)
  | .violation => ([], .violation)
  | .got f rest =>
    match step a f with
    | .stop e => ([], e)
    | .go a es =>
      have := frame_shorter h
      (es ++ (run server max a rest).1, (run server max a rest).2)
termination_by s.length

variable {a : Progress} {s rest : Bytes} {f : Frame}

theorem run_more (h : frame server max a.size s = .more) : run server max a s = ([], .waiting) := by
  rw [run]
  split
  · rfl
  · rename_i hs; rw [h] at hs; cases hs
  · rename_i hs; rw [h] at hs; cases hs

theorem run_violation (h : frame server max a.size s = .violation) :
    run server max a s = ([], .violation) := by
  rw [run]
  split
  · rename_i hs; rw [h] at hs; cases hs
  · rfl
  · rename_i hs; rw [h] at hs; cases hs

theorem run_stop (h : frame server max a.size s = .got f rest) {e : End} (hstep : step a f = .stop e) :
    run server max a s = ([], e) := by
  rw [run]
  split
  · rename_i hs; rw [h] at hs; cases hs
  · rename_i hs; rw [h] at hs; cases hs
  · rename_i hs
    rw [h] at hs
    cases hs
    rw [hstep]

theorem run_go (h : frame server max a.size s = .got f rest) {a' : Progress} {es : List Event}
    (hstep : step a f = .go a' es) :
    run server max a s = (es ++ (run server max a' rest).1, (run server max a' rest).2) := by
  rw [run]
  split
  · rename_i hs; rw [h] at hs; cases hs
  · rename_i hs; rw [h] at hs; cases hs
  · rename_i hs
    rw [h] at hs
    cases hs
    rw [hstep]

/-- **More octets** lead to more events, and to none once the receiver has stopped. -/
theorem run_append (server : Bool) (max : Nat) (a : Progress) (s y : Bytes) :
    ∃ es, (run server max a (s ++ y)).1 = (run server max a s).1 ++ es ∧
      ((run server max a s).2 ≠ .waiting → es = [] ∧
        (run server max a (s ++ y)).2 = (run server max a s).2) := by
  induction hn : s.length using Nat.strongRecOn generalizing a s with
  | _ n ih =>
    subst hn
    cases hframe : frame server max a.size s with
    | more =>
      rw [run_more hframe]
      exact ⟨_, rfl, fun hno => absurd rfl hno⟩
    | violation =>
      rw [run_violation hframe, run_violation (frame_violation_append hframe y)]
      exact ⟨[], rfl, fun _ => ⟨rfl, rfl⟩⟩
    | got f rest =>
      have hframe' := frame_append hframe y
      cases hstep : step a f with
      | stop e =>
        rw [run_stop hframe hstep, run_stop hframe' hstep]
        exact ⟨[], rfl, fun _ => ⟨rfl, rfl⟩⟩
      | go a' es =>
        obtain ⟨es', heq, hend⟩ := ih _ (frame_shorter hframe) a' rest rfl
        rw [run_go hframe hstep, run_go hframe' hstep]
        refine ⟨es', ?_, hend⟩
        dsimp only
        rw [heq, List.append_assoc]

/-- A data frame keeps the message in progress within the limit. -/
theorem frame_fits (h : frame server max progress s = .got f rest)
    (hdata : isControl f.opcode = false) : progress + f.payload.length ≤ max := by
  unfold frame at h
  cases hs : head s with
  | more => rw [hs] at h; cases h
  | violation => rw [hs] at h; cases h
  | got hd r =>
    rw [hs] at h
    dsimp only at h
    split_ifs at h with hlegal
    cases hp : hd.payload r with
    | none => rw [hp] at h; cases h
    | some p =>
      obtain ⟨p, r'⟩ := p
      rw [hp] at h
      cases h
      rw [show p.length = hd.len from Head.payload_length hp]
      exact hlegal.2 hdata

/-- What a frame delivers or leaves in progress is what was there and its payload. -/
theorem step_size {a' : Progress} {es : List Event} (hstep : step a f = .go a' es)
    (hfits : isControl f.opcode = false → a.size + f.payload.length ≤ max)
    (ha : a.size ≤ max) :
    a'.size ≤ max ∧ ∀ m, Event.message m ∈ es → m.data.length ≤ max := by
  obtain ⟨fin, op, payload⟩ := f
  have hfragment : ∀ type data, data.length ≤ max → fragment type data fin = .go a' es →
      a'.size ≤ max ∧ ∀ m, Event.message m ∈ es → m.data.length ≤ max := by
    intro type data hdata h
    unfold fragment at h
    split_ifs at h with hfin hbad
    · cases h
      refine ⟨Nat.zero_le _, fun m hm => ?_⟩
      cases List.mem_singleton.mp hm
      exact hdata
    · cases h
      exact ⟨hdata, fun m hm => by cases hm⟩
  have hcontrol : ∀ e, (∀ m, e ≠ Event.message m) → ∀ m, Event.message m ∈ [e] →
      m.data.length ≤ max := fun e he m hm => absurd (List.mem_singleton.mp hm).symm (he m)
  cases op with
  | ping =>
    cases hstep
    exact ⟨ha, hcontrol _ fun m h => by cases h⟩
  | pong =>
    cases hstep
    exact ⟨ha, fun m hm => by cases hm⟩
  | close => cases hstep
  | text =>
    cases a with
    | none => exact hfragment _ _ ((Nat.le_add_left ..).trans (hfits rfl)) hstep
    | some p => cases hstep
  | bin =>
    cases a with
    | none => exact hfragment _ _ ((Nat.le_add_left ..).trans (hfits rfl)) hstep
    | some p => cases hstep
  | cont =>
    cases a with
    | none => cases hstep
    | some p =>
      obtain ⟨type, data⟩ := p
      refine hfragment type (data ++ payload) ?_ hstep
      rw [List.length_append]
      exact hfits rfl

/-- **A message** is within the limit. -/
theorem run_size (server : Bool) (max : Nat) (a : Progress) (s : Bytes) (ha : a.size ≤ max) :
    ∀ m, Event.message m ∈ (run server max a s).1 → m.data.length ≤ max := by
  induction hn : s.length using Nat.strongRecOn generalizing a s with
  | _ n ih =>
    subst hn
    intro m hm
    cases hframe : frame server max a.size s with
    | more =>
      rw [run_more hframe] at hm
      cases hm
    | violation =>
      rw [run_violation hframe] at hm
      cases hm
    | got f rest =>
      cases hstep : step a f with
      | stop e =>
        rw [run_stop hframe hstep] at hm
        cases hm
      | go a' es =>
        obtain ⟨ha', hes⟩ := step_size hstep (frame_fits hframe) ha
        rw [run_go hframe hstep] at hm
        obtain hm | hm := List.mem_append.mp hm
        · exact hes m hm
        · exact ih _ (frame_shorter hframe) a' rest ha' rfl m hm

/-- The messages among the events. -/
def messages (es : List Event) : List WsMsg :=
  es.filterMap fun e => match e with
    | .message m => some m
    | .pong _ => none

/-- The pongs among the events. -/
def pongs (es : List Event) : List Bytes :=
  es.filterMap fun e => match e with
    | .message _ => none
    | .pong p => some p

theorem mem_messages {m : WsMsg} {es : List Event} : m ∈ messages es ↔ .message m ∈ es := by
  unfold messages
  rw [List.mem_filterMap]
  constructor
  · rintro ⟨e, he, heq⟩
    cases e with
    | message m' => cases heq; exact he
    | pong p => cases heq
  · exact fun h => ⟨_, h, rfl⟩

theorem messages_append (es es' : List Event) : messages (es ++ es') = messages es ++ messages es' :=
  List.filterMap_append ..

theorem pongs_append (es es' : List Event) : pongs (es ++ es') = pongs es ++ pongs es' :=
  List.filterMap_append ..

end Zcio.Rfc6455
