import Zcio.Serial.Plain

/-!
# Zcio.Serial.Tally

A stream of any behaviour under a count of the octets that it really takes and gives: short reads
and writes, an end of the input and errors may come at any octet. The bulk operations of the
serializer against these counts.
-/

namespace Zcio

open Lib.Bits (octetBits ofBits ofBits_octetBits length_octetBits)

/-! ### The count

A stream with a count of its transfers. -/

/-- A stream, and the octets that it has taken and given. -/
structure Tally (σ : Type) where
  stream : σ
  put : Nat := 0
  got : Nat := 0
  deriving Repr, DecidableEq

variable {σ : Type}

/-- The streams of a host under a count. No entry of a vtable moves more octets than it is asked to. -/
def tallied (e : SerialHost σ) : SerialHost (Tally σ) where
  read t n :=
    match e.read t.stream n with
    | (.ok b, stream) => (.ok (b.take n), { t with stream, got := t.got + (b.take n).length })
    | (.error err, stream) => (.error err, { t with stream })
  write t src :=
    match e.write t.stream src with
    | (.ok r, stream) => (.ok (min r src.length), { t with stream, put := t.put + min r src.length })
    | (.error err, stream) => (.error err, { t with stream })
  eof t := e.eof t.stream
  bigEndian := e.bigEndian

variable (e : SerialHost σ)

theorem tallied_read (t : Tally σ) (n : Nat) :
    (∃ b t', (tallied e).read t n = (.ok b, t') ∧ b.length ≤ n ∧ t'.got = t.got + b.length) ∨
      ∃ err t', (tallied e).read t n = (.error err, t') ∧ t'.got = t.got := by
  simp only [tallied]
  split
  next b stream _ => exact .inl ⟨_, _, rfl, List.length_take_le n b, rfl⟩
  next err stream _ => exact .inr ⟨_, _, rfl, rfl⟩

theorem tallied_write (t : Tally σ) (src : Bytes) :
    (∃ r t', (tallied e).write t src = (.ok r, t') ∧ r ≤ src.length ∧ t'.put = t.put + r) ∨
      ∃ err t', (tallied e).write t src = (.error err, t') ∧ t'.put = t.put := by
  simp only [tallied]
  split
  next r stream _ => exact .inl ⟨_, _, rfl, Nat.min_le_right r src.length, rfl⟩
  next err stream _ => exact .inr ⟨_, _, rfl, rfl⟩

theorem readFrom_tallied (fuel : Nat) (t : Tally σ) (n : Nat) (got : Bytes) :
    (∃ b t', readFrom (tallied e).read fuel t n got = (.ok (got ++ b), t') ∧ b.length ≤ n ∧
        t'.got = t.got + b.length) ∨
      got = [] ∧ ∃ err t', readFrom (tallied e).read fuel t n got = (.error err, t') ∧ t'.got = t.got := by
  induction fuel generalizing t n got with
  | zero => exact .inl ⟨[], t, by rw [List.append_nil]; rfl, Nat.zero_le n, rfl⟩
  | succ fuel ih =>
    rw [readFrom]
    by_cases hn : n = 0
    · rw [if_pos hn]
      exact .inl ⟨[], t, by rw [List.append_nil], Nat.zero_le n, rfl⟩
    rw [if_neg hn]
    obtain ⟨b, t', hread, hle, hgot⟩ | ⟨err, t', hread, hgot⟩ := tallied_read e t n
    · rw [hread]
      cases b with
      | nil => exact .inl ⟨[], t', by rw [List.append_nil], Nat.zero_le n, hgot⟩
      | cons c b =>
        dsimp only
        obtain ⟨b', t'', hrest, hle', hgot'⟩ | ⟨hnil, -⟩ := ih t' (n - (c :: b).length) (got ++ c :: b)
        · refine .inl ⟨(c :: b) ++ b', t'', by rw [hrest, List.append_assoc], ?_, ?_⟩
          · rw [List.length_append]
            omega
          · rw [hgot', hgot, List.length_append, Nat.add_assoc]
        · exact absurd hnil (by simp)
    · rw [hread]
      dsimp only
      by_cases hnil : got = []
      · rw [if_pos hnil]
        exact .inr ⟨hnil, err, t', rfl, hgot⟩
      · rw [if_neg hnil]
        exact .inl ⟨[], t', by rw [List.append_nil], Nat.zero_le n, hgot⟩

/-- **`zcio_read_full`** returns what it got. -/
theorem zcioReadFull_tallied (t : Tally σ) (n : Nat) :
    (∃ b t', zcioReadFull (tallied e).read t n = (.ok b, t') ∧ b.length ≤ n ∧ t'.got = t.got + b.length) ∨
      ∃ err t', zcioReadFull (tallied e).read t n = (.error err, t') ∧ t'.got = t.got := by
  obtain ⟨b, t', hread, hle, hgot⟩ | ⟨-, herr⟩ := readFrom_tallied e n t n []
  · exact .inl ⟨b, t', hread, hle, hgot⟩
  · exact .inr herr

theorem writeFrom_tallied (fuel : Nat) (t : Tally σ) (src : Bytes) (put : Nat) :
    (∃ r t', writeFrom (tallied e).write fuel t src put = (.ok (put + r), t') ∧ r ≤ src.length ∧
        t'.put = t.put + r) ∨
      put = 0 ∧ ∃ err t', writeFrom (tallied e).write fuel t src put = (.error err, t') ∧ t'.put = t.put := by
  induction fuel generalizing t src put with
  | zero => exact .inl ⟨0, t, rfl, Nat.zero_le _, rfl⟩
  | succ fuel ih =>
    rw [writeFrom]
    by_cases hnil : src = []
    · rw [if_pos hnil]
      exact .inl ⟨0, t, rfl, Nat.zero_le _, rfl⟩
    rw [if_neg hnil]
    obtain ⟨r, t', hwrite, hle, hput⟩ | ⟨err, t', hwrite, hput⟩ := tallied_write e t src
    · rw [hwrite]
      cases r with
      | zero => exact .inl ⟨0, t', rfl, Nat.zero_le _, hput⟩
      | succ r =>
        obtain ⟨r', t'', hrest, hle', hput'⟩ | ⟨hzero, -⟩ := ih t' (src.drop (r + 1)) (put + (r + 1))
        · rw [List.length_drop] at hle'
          refine .inl ⟨r + 1 + r', t'', hrest.trans (by rw [Nat.add_assoc]), by omega, ?_⟩
          rw [hput', hput, Nat.add_assoc]
        · omega
    · rw [hwrite]
      dsimp only
      by_cases hzero : put = 0
      · rw [if_pos hzero]
        exact .inr ⟨hzero, err, t', rfl, hput⟩
      · rw [if_neg hzero]
        exact .inl ⟨0, t', rfl, Nat.zero_le _, hput⟩

/-- **`zcio_write_full`** returns what it put. -/
theorem zcioWriteFull_tallied (t : Tally σ) (src : Bytes) :
    (∃ r t', zcioWriteFull (tallied e).write t src = (.ok r, t') ∧ r ≤ src.length ∧ t'.put = t.put + r) ∨
      ∃ err t', zcioWriteFull (tallied e).write t src = (.error err, t') ∧ t'.put = t.put := by
  obtain ⟨r, t', hwrite, hle, hput⟩ | ⟨-, herr⟩ := writeFrom_tallied e src.length t src 0
  · exact .inl ⟨r, t', by rw [zcioWriteFull, hwrite, Nat.zero_add], hle, hput⟩
  · exact .inr herr

/-! ### Octet for octet

A stream that takes or gives one octet a call takes and gives all. -/

/-- The stream gives the next `n` octets one by one. -/
def givesEach : Nat → Tally σ → Prop
  | 0, _ => True
  | n + 1, t =>
    (∃ b, (zcioReadFull (tallied e).read t 1).1 = .ok b ∧ b ≠ []) ∧
      givesEach n (zcioReadFull (tallied e).read t 1).2

/-- The stream takes the octets one by one. -/
def takesEach : Bytes → Tally σ → Prop
  | [], _ => True
  | c :: cs, t =>
    (zcioWriteFull (tallied e).write t [c]).1 = .ok 1 ∧ takesEach cs (zcioWriteFull (tallied e).write t [c]).2

/-- The stream after `n` reads of an octet. -/
def getEach : Nat → Tally σ → Tally σ
  | 0, t => t
  | n + 1, t => getEach n (zcioReadFull (tallied e).read t 1).2

/-- The stream after writes of an octet. -/
def putEach (cs : Bytes) (t : Tally σ) : Tally σ :=
  cs.foldl (fun t c => (zcioWriteFull (tallied e).write t [c]).2) t

/-- One octet was read just if the count says so. -/
theorem got_one (t : Tally σ) :
    t.got ≤ (zcioReadFull (tallied e).read t 1).2.got ∧ (zcioReadFull (tallied e).read t 1).2.got ≤ t.got + 1 ∧
      ((zcioReadFull (tallied e).read t 1).2.got = t.got + 1 ↔
        ∃ b, (zcioReadFull (tallied e).read t 1).1 = .ok b ∧ b ≠ []) := by
  obtain ⟨b, t', hread, hle, hgot⟩ | ⟨err, t', hread, hgot⟩ := zcioReadFull_tallied e t 1
  · rw [hread]
    refine ⟨by rw [hgot]; omega, by rw [hgot]; omega, fun hone => ⟨b, rfl, fun hnil => ?_⟩, ?_⟩
    · rw [hnil, List.length_nil] at hgot
      rw [hgot] at hone
      omega
    · rintro ⟨b', hok, hne⟩
      cases hok
      have hpos := List.length_pos_iff.mpr hne
      rw [hgot]
      omega
  · rw [hread, hgot]
    refine ⟨Nat.le_refl _, Nat.le_succ _, iff_of_false (Nat.ne_of_lt (Nat.lt_succ_self _)) ?_⟩
    rintro ⟨b, hok, -⟩
    cases hok

theorem put_one (t : Tally σ) (c : UInt8) :
    t.put ≤ (zcioWriteFull (tallied e).write t [c]).2.put ∧
      (zcioWriteFull (tallied e).write t [c]).2.put ≤ t.put + 1 ∧
      ((zcioWriteFull (tallied e).write t [c]).2.put = t.put + 1 ↔
        (zcioWriteFull (tallied e).write t [c]).1 = .ok 1) := by
  obtain ⟨r, t', hwrite, hle, hput⟩ | ⟨err, t', hwrite, hput⟩ := zcioWriteFull_tallied e t [c]
  · rw [List.length_singleton] at hle
    rw [hwrite, hput]
    refine ⟨Nat.le_add_right _ _, Nat.add_le_add_left hle _, fun hone => ?_, fun hok => ?_⟩
    · rw [Nat.add_left_cancel hone]
    · cases hok
      rfl
  · rw [hwrite, hput]
    refine ⟨Nat.le_refl _, Nat.le_succ _, iff_of_false (Nat.ne_of_lt (Nat.lt_succ_self _)) ?_⟩
    intro hok
    cases hok

/-- `n` reads of an octet bring `n` octets just if each brings one. -/
theorem getEach_got (n : Nat) (t : Tally σ) :
    t.got ≤ (getEach e n t).got ∧ (getEach e n t).got ≤ t.got + n ∧
      ((getEach e n t).got = t.got + n ↔ givesEach e n t) := by
  induction n generalizing t with
  | zero => exact ⟨Nat.le_refl _, Nat.le_refl _, iff_of_true rfl trivial⟩
  | succ n ih =>
    obtain ⟨hle, hle', hone⟩ := got_one e t
    obtain ⟨hrest, hrest', hall⟩ := ih (zcioReadFull (tallied e).read t 1).2
    rw [getEach, givesEach, ← hone, ← hall]
    refine ⟨hle.trans hrest, by omega, fun heq => ⟨by omega, by omega⟩, fun ⟨heq, heq'⟩ => by omega⟩

theorem putEach_put (cs : Bytes) (t : Tally σ) :
    t.put ≤ (putEach e cs t).put ∧ (putEach e cs t).put ≤ t.put + cs.length ∧
      ((putEach e cs t).put = t.put + cs.length ↔ takesEach e cs t) := by
  induction cs generalizing t with
  | nil => exact ⟨Nat.le_refl _, Nat.le_refl _, iff_of_true rfl trivial⟩
  | cons c cs ih =>
    obtain ⟨hle, hle', hone⟩ := put_one e t c
    obtain ⟨hrest, hrest', hall⟩ := ih (zcioWriteFull (tallied e).write t [c]).2
    rw [takesEach, ← hone, ← hall, List.length_cons]
    rw [putEach, List.foldl_cons, ← putEach]
    refine ⟨hle.trans hrest, by omega, fun heq => ⟨by omega, by omega⟩, fun ⟨heq, heq'⟩ => by omega⟩

/-! ### Bit-packed streams

The count behind whole octets, with bits in progress. -/

variable {e : SerialHost σ} {z : Serial (Tally σ)} {t : Tally σ} {p : List Bool}

/-- The bits that are pending, under no others. -/
structure Serial.Pends (z : Serial σ) (p : List Bool) : Prop where
  lt : p.length < 8
  written : z.bitsWritten = p.length
  cur : z.curWriteByte = UInt8.ofNat (ofBits p)

/-- A serial that packs bits on a stream, with `p` pending. -/
structure Serial.OnStream (z : Serial (Tally σ)) (t : Tally σ) (p : List Bool) : Prop where
  mode : z.mode = .stream t
  packs : z.bitStream = true
  within : z.strayed = false
  pends : z.Pends p

/-- The octets that `src` makes up behind pending bits. -/
def packedOctets : List Bool → Bytes → Bytes
  | _, [] => []
  | p, c :: src =>
    UInt8.ofNat (ofBits ((p ++ octetBits c).take 8)) :: packedOctets ((p ++ octetBits c).drop 8) src

theorem length_packedOctets (p : List Bool) (src : Bytes) : (packedOctets p src).length = src.length := by
  induction src generalizing p with
  | nil => rfl
  | cons c src ih => rw [packedOctets, List.length_cons, List.length_cons, ih]

theorem writeWholeByte_onStream (hmode : z.mode = .stream t) (hpacks : z.bitStream = true)
    (hin : z.strayed = false) (c : UInt8) :
    (writeWholeByte (tallied e) z c).OnStream (zcioWriteFull (tallied e).write t [c]).2 [] := by
  rw [writeWholeByte, rawWrite, hmode]
  exact ⟨rfl, hpacks, hin, ⟨Nat.zero_lt_succ 7, rfl, rfl⟩⟩

/-- Bits that leave the octet incomplete. -/
theorem writeBits_keep (cs : List Bool) (h : z.OnStream t p) (hlt : p.length + cs.length < 8) :
    (cs.foldl (zcioSerialWriteBit (tallied e)) z).OnStream t (p ++ cs) := by
  induction cs generalizing z p with
  | nil => rwa [List.append_nil]
  | cons c cs ih =>
    rw [List.length_cons] at hlt
    rw [List.foldl_cons, List.append_cons]
    refine ih ?_ (by rw [List.length_append, List.length_singleton]; omega)
    obtain ⟨hmode, hpacks, hin, -, hwritten, hcur⟩ := h
    rw [zcioSerialWriteBit, hwritten, hcur, or_shift_octet, if_neg (by simp only; omega)]
    refine ⟨hmode, hpacks, hin, ⟨?_, ?_, rfl⟩⟩
    · rw [List.length_append, List.length_singleton]
      omega
    · rw [List.length_append, List.length_singleton]

/-- The bit that fills the octet. -/
theorem writeBit_fill (c : Bool) (h : z.OnStream t p) (hfull : p.length = 7) :
    (zcioSerialWriteBit (tallied e) z c).OnStream
      (zcioWriteFull (tallied e).write t [UInt8.ofNat (ofBits (p ++ [c]))]).2 [] := by
  obtain ⟨hmode, hpacks, hin, -, hwritten, hcur⟩ := h
  rw [zcioSerialWriteBit, hwritten, hcur, or_shift_octet, if_pos (by simp only; omega)]
  exact writeWholeByte_onStream (z := { z with
    curWriteByte := UInt8.ofNat (ofBits (p ++ [c])), bitsWritten := p.length + 1 }) hmode hpacks hin _

/-- **An octet at any alignment** is one octet for the stream. -/
theorem zcioSerialWriteByte_onStream (c : UInt8) (h : z.OnStream t p) :
    (zcioSerialWriteByte (tallied e) z c).OnStream
      (zcioWriteFull (tallied e).write t [UInt8.ofNat (ofBits ((p ++ octetBits c).take 8))]).2
      ((p ++ octetBits c).drop 8) := by
  have hlt := h.pends.lt
  rw [zcioSerialWriteByte, h.packs, h.pends.written]
  by_cases hp : p = []
  · subst hp
    rw [if_neg (fun hmid => Nat.lt_irrefl 0 hmid.2.1), List.nil_append, List.take_of_length_le (Nat.le_refl 8),
      ofBits_octetBits, List.drop_of_length_le (Nat.le_refl 8), UInt8.ofNat_toNat]
    exact writeWholeByte_onStream h.mode h.packs h.within c
  · have hpos := List.length_pos_iff.mpr hp
    rw [if_pos ⟨rfl, hpos, hlt⟩]
    -- the bits up to the end of the octet, the one that fills it, and the rest
    obtain ⟨front, x, back, hbits, hfront⟩ : ∃ front x back, octetBits c = front ++ x :: back ∧
        front.length = 7 - p.length := by
      have hsplit : 7 - p.length < (octetBits c).length := by
        rw [length_octetBits]
        omega
      refine ⟨(octetBits c).take (7 - p.length), (octetBits c)[7 - p.length],
        (octetBits c).drop (7 - p.length + 1), ?_, List.length_take_of_le (Nat.le_of_lt hsplit)⟩
      rw [← List.drop_eq_getElem_cons hsplit, List.take_append_drop]
    have hback : back.length < 8 := by
      have hlen := congrArg List.length hbits
      rw [length_octetBits, List.length_append, List.length_cons] at hlen
      omega
    have hoctet : (p ++ front ++ [x]).length = 8 := by
      rw [List.length_append, List.length_append, List.length_singleton]
      omega
    have hall : p ++ octetBits c = (p ++ front ++ [x]) ++ back := by
      rw [hbits]
      simp
    rw [hall, List.take_left' hoctet, List.drop_left' hoctet, hbits, List.foldl_append, List.foldl_cons]
    have hkeep := writeBits_keep (e := e) front h (by omega)
    have hfill := writeBit_fill (e := e) x hkeep (by rw [List.length_append]; omega)
    exact writeBits_keep back hfill (by rw [List.length_nil]; omega)

theorem foldl_writeByte_onStream (src : Bytes) (h : z.OnStream t p) :
    ∃ p', (src.foldl (zcioSerialWriteByte (tallied e)) z).OnStream (putEach e (packedOctets p src) t) p' := by
  induction src generalizing z t p with
  | nil => exact ⟨p, h⟩
  | cons c src ih => exact ih (zcioSerialWriteByte_onStream c h)

/-- A serial that unpacks bits from a stream. -/
structure Serial.Draws (z : Serial (Tally σ)) (t : Tally σ) : Prop where
  mode : z.mode = .stream t
  packs : z.bitStream = true
  within : z.strayed = false
  read : z.bitsRead ≤ 8

theorem rawRead_onStream (hmode : z.mode = .stream t) (dst : Bytes) :
    (rawRead (tallied e) z dst).2.2.mode = .stream (zcioReadFull (tallied e).read t dst.length).2 ∧
      (rawRead (tallied e) z dst).2.2.bitStream = z.bitStream ∧
      (rawRead (tallied e) z dst).2.2.strayed = z.strayed := by
  rw [rawRead, hmode]
  dsimp only
  generalize zcioReadFull (tallied e).read t dst.length = res
  obtain ⟨err | b, t'⟩ := res
  · exact ⟨rfl, rfl, rfl⟩
  · dsimp only
    split_ifs <;> exact ⟨rfl, rfl, rfl⟩

theorem readFreshByte_draws (h : z.Draws t) :
    (readFreshByte (tallied e) z).2.Draws (getEach e 1 t) ∧ (readFreshByte (tallied e) z).2.bitsRead = 0 := by
  obtain ⟨hmode, hpacks, hin⟩ := rawRead_onStream (e := e) h.mode [0]
  exact ⟨⟨hmode, hpacks.trans h.packs, hin.trans h.within, Nat.zero_le 8⟩, rfl⟩

theorem zcioSerialReadBit_draws (h : z.Draws t) :
    (zcioSerialReadBit (tallied e) z).2.Draws (getEach e (if z.bitsRead % 8 = 0 then 1 else 0) t) ∧
      (zcioSerialReadBit (tallied e) z).2.bitsRead = z.bitsRead % 8 + 1 := by
  have hle := h.read
  rw [zcioSerialReadBit]
  by_cases hfresh : z.bitsRead = 0 ∨ z.bitsRead = 8
  · obtain ⟨⟨hmode, hpacks, hin, -⟩, hread⟩ := readFreshByte_draws (e := e) h
    have hmod : z.bitsRead % 8 = 0 := by omega
    rw [if_pos hfresh, if_pos hmod, hmod]
    dsimp only
    rw [hread]
    exact ⟨⟨hmode, hpacks, hin, Nat.succ_le_of_lt (Nat.zero_lt_succ 7)⟩, rfl⟩
  · have hmod : z.bitsRead % 8 = z.bitsRead := Nat.mod_eq_of_lt (by omega)
    rw [if_neg hfresh, hmod, if_neg (fun hzero => hfresh (.inl hzero))]
    exact ⟨⟨h.mode, h.packs, h.within, by simp only; omega⟩, rfl⟩

theorem getEach_add (m n : Nat) (t : Tally σ) : getEach e (m + n) t = getEach e n (getEach e m t) := by
  induction m generalizing t with
  | zero => rw [Nat.zero_add]; rfl
  | succ m ih =>
    rw [Nat.succ_add, getEach, getEach]
    exact ih _

/-- Bits one after the other: an octet is read when those of the last one are used up. -/
theorem readBitsLoop_draws (n : Nat) (h : z.Draws t) :
    (readBitsLoop (tallied e) n z).2.Draws
      (getEach e ((z.bitsRead % 8 + n + 7) / 8 - (z.bitsRead % 8 + 7) / 8) t) := by
  induction n generalizing z t with
  | zero =>
    rw [Nat.add_zero, Nat.sub_self]
    exact h
  | succ n ih =>
    obtain ⟨hbit, hread⟩ := zcioSerialReadBit_draws (e := e) h
    have hrest := ih hbit
    rw [hread, ← getEach_add] at hrest
    have hsum : (if z.bitsRead % 8 = 0 then 1 else 0) +
        (((z.bitsRead % 8 + 1) % 8 + n + 7) / 8 - ((z.bitsRead % 8 + 1) % 8 + 7) / 8) =
        (z.bitsRead % 8 + (n + 1) + 7) / 8 - (z.bitsRead % 8 + 7) / 8 := by
      split
      · omega
      · omega
    rwa [hsum] at hrest

/-- **An octet at any alignment** is one octet of the stream. -/
theorem zcioSerialReadByte_draws (h : z.Draws t) :
    (zcioSerialReadByte (tallied e) z).2.Draws (getEach e 1 t) := by
  rw [zcioSerialReadByte]
  split
  · have hbits := readBitsLoop_draws (e := e) 8 h
    have hone : (z.bitsRead % 8 + 8 + 7) / 8 - (z.bitsRead % 8 + 7) / 8 = 1 := by omega
    rwa [hone] at hbits
  · exact (readFreshByte_draws h).1

theorem readBytesLoop_draws (n : Nat) (h : z.Draws t) :
    (readBytesLoop (tallied e) n z).2.Draws (getEach e n t) := by
  induction n generalizing z t with
  | zero => exact h
  | succ n ih => exact ih (zcioSerialReadByte_draws (e := e) h)

theorem readBytesLoop_length (n : Nat) (z : Serial (Tally σ)) :
    (readBytesLoop (tallied e) n z).1.length = n := by
  induction n generalizing z with
  | zero => rfl
  | succ n ih => exact congrArg (· + 1) (ih _)

end Zcio
