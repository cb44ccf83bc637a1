import Zcio.H3.Server
import Zcio.Qpack.Refine
import Zcio.Server.OneResponse

/-!
# Zcio.H3.Response

What a client of the HTTP/3 engine gets. `h3ReadResponse` reads the octets of a stream as a client
does: whole frames, HEADERS in front and DATA behind it, the field section decoded as RFC 9204
specifies and with its static table, not with the table of `qpack.c`.

* **`h3SrvRun_responses`**: in every state of a run, the send side of a stream is empty, or it is a
  prefix of the one response to its request, and all of it unless a write stalls or fails.

The policy half is `zhsDispatch_eq`, one call of `h3_respond` for a request; what a call puts on the
stream is carried by `Zh3Stream.Sent` through the passes, with the pass that it came in.
-/

namespace Zcio

open Qpack (Line)

/-! ### Frames

The frames that the server writes are read back as frames. -/

/-- The two bits in front of an integer. -/
theorem toNat_varintFlag {k x : Nat} (hk : k < 4) (hx : x < 64) :
    (UInt8.ofNat (k * 64) ||| UInt8.ofNat x).toNat = k * 64 + x := by
  have hflag : (UInt8.ofNat (k * 64)).toNat = 2 ^ 6 * k := by
    rw [UInt8.toNat_ofNat']
    omega
  have hlow : (UInt8.ofNat x).toNat = x := by
    rw [UInt8.toNat_ofNat']
    omega
  rw [UInt8.toNat_or, hflag, hlow, ← Nat.two_pow_add_eq_or_of_lt hx]
  omega

/-- An integer whose first octet has the flag `k` and `x` of its bits. -/
theorem h3Varint_cons {k x : Nat} (hk : k < 4) (hx : x < 64) {tail : Bytes} (htail : tail.length + 1 = 2 ^ k)
    (rest : Bytes) :
    h3Varint ((UInt8.ofNat (k * 64) ||| UInt8.ofNat x) :: (tail ++ rest)) =
      some (2 ^ k, tail.foldl (fun v b => v * 256 + b.toNat) x) := by
  have hstep : ∀ v (b : UInt8), v <<< 8 ||| b.toNat = v * 256 + b.toNat := fun v b => by
    rw [← Nat.shiftLeft_add_eq_or_of_lt b.toNat_lt, Nat.shiftLeft_eq]
  have hflag : (k * 64 + x) >>> 6 = k := by
    rw [Nat.shiftRight_eq_div_pow]
    omega
  have hbits : (k * 64 + x) &&& 0x3f = x := by
    rw [show 0x3f = 2 ^ 6 - 1 from rfl, Nat.and_two_pow_sub_one_eq_mod]
    omega
  rw [h3Varint, toNat_varintFlag hk hx, hflag, hbits, Nat.one_shiftLeft, ← htail, Nat.add_sub_cancel,
    if_neg (by rw [List.length_append]; omega), List.take_left]
  simp only [hstep]

/-- **Integers round-trip.** -/
theorem h3Varint_put {v : Nat} (hv : v < 2 ^ 62) (rest : Bytes) :
    h3Varint (h3PutVarint v ++ rest) = some ((h3PutVarint v).length, v) := by
  have hbyte : ∀ n, (UInt8.ofNat (v / 2 ^ n)).toNat = v / 2 ^ n % 256 := fun n => UInt8.toNat_ofNat'
  have hlow : ∀ {n}, v < 2 ^ n * 64 → v >>> n < 64 := fun {n} h => by
    rw [Nat.shiftRight_eq_div_pow]
    exact Nat.div_lt_of_lt_mul h
  rw [h3PutVarint]
  dsimp only
  split
  · have hput := @h3Varint_cons 0 (v >>> 0) (by decide) (hlow (by omega)) [] rfl rest
    rw [show UInt8.ofNat (0 * 64) = 0 from rfl, UInt8.zero_or] at hput
    exact hput
  · split
    · refine (@h3Varint_cons 1 (v >>> 8) (by decide) (hlow (by omega)) _ rfl rest).trans ?_
      simp only [List.foldl_cons, List.foldl_nil, hbyte, Nat.shiftRight_eq_div_pow, List.length_cons,
        List.length_nil]
      rw [Option.some.injEq, Prod.mk.injEq]
      omega
    · split
      · refine (@h3Varint_cons 2 (v >>> 24) (by decide) (hlow (by omega)) _ rfl rest).trans ?_
        simp only [List.foldl_cons, List.foldl_nil, hbyte, Nat.shiftRight_eq_div_pow, List.length_cons,
          List.length_nil]
        rw [Option.some.injEq, Prod.mk.injEq]
        omega
      · refine (@h3Varint_cons 3 (v >>> 56) (by decide) (hlow (by omega)) _ rfl rest).trans ?_
        simp only [List.foldl_cons, List.foldl_nil, hbyte, Nat.shiftRight_eq_div_pow, List.length_cons,
          List.length_nil]
        rw [Option.some.injEq, Prod.mk.injEq]
        omega

/-- **Frames round-trip.** -/
theorem h3Frames_frameBytes {ftype : Nat} {payload : Bytes} (htype : ftype < 2 ^ 62)
    (hlen : payload.length < 2 ^ 62) (rest : Bytes) :
    h3Frames (h3FrameBytes ftype payload ++ rest) =
      ((ftype, payload) :: (h3Frames rest).1, (h3Frames rest).2) := by
  have hhead : h3FrameBytes ftype payload ++ rest =
      (h3PutVarint ftype ++ h3PutVarint payload.length) ++ (payload ++ rest) := by
    simp only [h3FrameBytes, List.append_assoc]
  have hat : h3FrameAt (h3FrameBytes ftype payload ++ rest) =
      some ((h3PutVarint ftype ++ h3PutVarint payload.length).length, ftype, payload.length) := by
    rw [hhead, h3FrameAt, List.append_assoc, h3Varint_put htype]
    dsimp only
    rw [List.drop_left, h3Varint_put hlen, List.length_append]
    rfl
  have hdrop : (h3FrameBytes ftype payload ++ rest).drop (h3PutVarint ftype ++ h3PutVarint payload.length).length =
      payload ++ rest := by
    rw [hhead, List.drop_left]
  rw [h3Frames_some hat, hdrop, if_neg (by rw [List.length_append]; omega), List.take_left, List.drop_left]

/-! ### The field section

The sections of responses use no row of the table that is misprinted. -/

/-- `bs` is one line, whatever follows, and no reference to an entry that the table of the code has wrong. -/
def QpPlain (bs : Bytes) : Prop :=
  ∀ rest, ∃ l, Qpack.line (bs ++ rest) = some (l, rest) ∧ ∀ i, l = .indexed i → i ∉ Qpack.misprinted

/-- A line is an index only behind the bit for it. -/
theorem line_indexed {bs rest : Bytes} {i : Nat} (h : Qpack.line bs = some (.indexed i, rest)) :
    (bs.headD 0).toNat.testBit 7 = true := by
  unfold Qpack.line at h
  dsimp only at h
  split at h
  · assumption
  · split at h
    · split at h
      · obtain ⟨_, _, hline⟩ := Option.bind_eq_some_iff.mp h
        obtain ⟨_, _, hl⟩ := Option.map_eq_some_iff.mp hline
        cases hl
      · cases h
    · split at h
      · obtain ⟨_, _, hline⟩ := Option.bind_eq_some_iff.mp h
        obtain ⟨_, _, hl⟩ := Option.map_eq_some_iff.mp hline
        cases hl
      · cases h

theorem QpEncodes.plain {bs : Bytes} {f : Field} (h : QpEncodes bs f)
    (hbit : ∀ rest, ((bs ++ rest).headD 0).toNat.testBit 7 = false) : QpPlain bs := by
  intro rest
  obtain ⟨l, hl, -⟩ := h rest
  refine ⟨l, hl, ?_⟩
  rintro i rfl
  have hset := line_indexed hl
  rw [hbit rest] at hset
  cases hset

theorem zqpEncode_plain {name value : Bytes} (hname : name.length ≤ ZHP_INT_MAX)
    (hvalue : value.length ≤ ZHP_INT_MAX) : QpPlain (zqpEncode name value) := by
  refine (zqpEncode_encodes hname hvalue).plain fun rest => ?_
  unfold zqpEncode
  split
  · rw [List.append_assoc]
    exact testBit_zhpIntEncode (n := 4) (by decide) rfl (by decide) _
  · rw [List.append_assoc, List.append_assoc]
    exact testBit_zhpIntEncode (n := 3) (by decide) rfl (by decide) _

/-- The entries that are wrong are not for statuses. -/
theorem misprinted_name : ∀ i ∈ Qpack.misprinted, (QPACK_STATIC[i]?.map Field.name) ≠ some (str ":status") := by
  decide

theorem zqpEncodeStatus_plain {status : Nat} (hstatus : status ≤ 599) : QpPlain (zqpEncodeStatus status) := by
  intro rest
  obtain ⟨l, hl, hfield⟩ := zqpEncodeStatus_encodes hstatus rest
  refine ⟨l, hl, ?_⟩
  rintro i rfl hi
  rw [Line.field] at hfield
  exact misprinted_name i hi (by rw [hfield]; rfl)

/-- The lines of a section that is put together from such lines. -/
theorem linesFrom_plain {bss : List Bytes} (h : ∀ bs ∈ bss, QpPlain bs) (n : Nat) :
    ∀ i, Line.indexed i ∈ (Qpack.linesFrom n bss.flatten).1 → i ∉ Qpack.misprinted := by
  induction bss generalizing n with
  | nil =>
    intro i hi
    cases n with
    | zero => cases hi
    | succ n => cases hi
  | cons bs bss ih =>
    intro i hi
    obtain ⟨hbs, hbss⟩ := List.forall_mem_cons.mp h
    obtain ⟨l, hl, hplain⟩ := hbs bss.flatten
    cases n with
    | zero => cases hi
    | succ n =>
      rw [List.flatten_cons, Qpack.linesFrom] at hi
      split at hi
      · cases hi
      · rw [hl] at hi
        dsimp only at hi
        rcases List.mem_cons.mp hi with hi | hi
        · exact hplain i hi.symm
        · exact ih hbss n i hi

/-- **Sections round-trip**: what is behind the prefix of the encoder decodes as specified. -/
theorem decode_encodes {bss : List Bytes} {fs : List Field} (h : List.Forall₂ QpEncodes bss fs)
    (hplain : ∀ bs ∈ bss, QpPlain bs) {m : Nat} (hm : fieldsSize fs ≤ m) :
    Qpack.decode Qpack.STATIC m (zqpPrefixEncode ++ bss.flatten) = ⟨true, fs⟩ := by
  have hstart : Qpack.sectionStart (zqpPrefixEncode ++ bss.flatten) = some bss.flatten :=
    sectionStart_zqpPrefixEncode bss.flatten
  have hlines : ∀ i, Line.indexed i ∈ Qpack.lines (zqpPrefixEncode ++ bss.flatten) → i ∉ Qpack.misprinted := by
    rw [Qpack.lines, hstart]
    exact linesFrom_plain hplain _
  obtain ⟨hfs, hall⟩ := linesFrom_encodes h (Nat.le_refl _) hm
  rw [← decode_static hlines, Qpack.decode, hstart]
  dsimp only
  rw [Qpack.decodeLines]
  rw [hfs, hall]
  rfl

/-- What `h3_encode_field` writes. -/
theorem h3EncodeField_encodes {h : Bytes × Bytes} (hne : h.1 ≠ []) (hname : h.1.length ≤ ZHP_INT_MAX)
    (hvalue : h.2.length ≤ ZHP_INT_MAX) :
    QpEncodes (h3EncodeField h) ⟨lower h.1, h.2⟩ ∧ QpPlain (h3EncodeField h) := by
  have hlen : (lower h.1).length ≤ ZHP_INT_MAX := (length_lower h.1).le.trans hname
  have hemitted : qpackEmittedName (lower h.1) = lower h.1 := by
    rw [qpackEmittedName, lower_lower, ite_self]
  have henc := zqpEncode_encodes hlen hvalue
  rw [hemitted] at henc
  rw [h3EncodeField, if_neg hne]
  exact ⟨henc, zqpEncode_plain hlen hvalue⟩

/-- **The field section of a response.** -/
theorem decode_h3FieldSection {status : Nat} (hstatus : status ≤ 599) {hdrs : List (Bytes × Bytes)}
    (hne : ∀ h ∈ hdrs, h.1 ≠ []) (hlen : HeadersWithin ZHP_INT_MAX hdrs) {m : Nat}
    (hm : fieldsSize (responseFields status hdrs) ≤ m) :
    Qpack.decode Qpack.STATIC m (h3FieldSection status hdrs) = ⟨true, responseFields status hdrs⟩ := by
  have hfield : ∀ h ∈ hdrs, QpEncodes (h3EncodeField h) ⟨lower h.1, h.2⟩ ∧ QpPlain (h3EncodeField h) := fun h hh =>
    h3EncodeField_encodes (hne h hh) (hlen h hh).1 (hlen h hh).2
  have henc : List.Forall₂ QpEncodes (zqpEncodeStatus status :: hdrs.map h3EncodeField) (responseFields status hdrs) := by
    refine .cons (zqpEncodeStatus_encodes hstatus) ?_
    rw [List.forall₂_map_left_iff, List.forall₂_map_right_iff, List.forall₂_same]
    exact fun h hh => (hfield h hh).1
  have hplain : ∀ bs ∈ zqpEncodeStatus status :: hdrs.map h3EncodeField, QpPlain bs := by
    refine List.forall_mem_cons.mpr ⟨zqpEncodeStatus_plain hstatus, fun bs hbs => ?_⟩
    obtain ⟨h, hh, rfl⟩ := List.mem_map.mp hbs
    exact (hfield h hh).2
  rw [h3FieldSection, List.append_assoc]
  exact decode_encodes henc hplain hm

/-! ### Responses

A response is HEADERS and, with a body, DATA. -/

/-- A response as a client reads it off the octets of a stream: its fields and its body. -/
def h3ReadResponse (cap : Nat) (s : Bytes) : Option (List Field × Bytes) :=
  match h3Frames s with
  | ((ftype, fieldSection) :: fs, []) =>
    let r := Qpack.decode Qpack.STATIC cap fieldSection
    if ftype = H3_FRAME_HEADERS ∧ (∀ f ∈ fs, f.1 = H3_FRAME_DATA) ∧ r.ok = true then
      some (r.fields, fs.flatMap (·.2))
    else none
  | _ => none

theorem h3ReadResponse_frames {s fieldSection : Bytes} {fs : List H3Frame} {fields : List Field} {cap : Nat}
    (hs : h3Frames s = ((H3_FRAME_HEADERS, fieldSection) :: fs, []))
    (hdec : Qpack.decode Qpack.STATIC cap fieldSection = ⟨true, fields⟩)
    (hdata : ∀ f ∈ fs, f.1 = H3_FRAME_DATA) : h3ReadResponse cap s = some (fields, fs.flatMap (·.2)) := by
  rw [h3ReadResponse, hs]
  dsimp only
  rw [hdec]
  exact if_pos ⟨rfl, hdata, rfl⟩

/-- **Responses round-trip.** -/
theorem h3ReadResponse_responseBytes {isHead : Bool} {status : Nat} {hdrs : List (Bytes × Bytes)} {body : RespBody}
    {cap : Nat} (hdec : Qpack.decode Qpack.STATIC cap (h3FieldSection status hdrs) = ⟨true, responseFields status hdrs⟩)
    (hsection : (h3FieldSection status hdrs).length < 2 ^ 62) (hbody : ∀ b, body = .data b → b.length < 2 ^ 62) :
    h3ReadResponse cap (h3ResponseBytes isHead status hdrs body) =
      some (responseFields status hdrs, sentBody isHead status body) := by
  have hnil : h3Frames [] = ([], []) := h3Frames_none rfl
  have hhead := @h3Frames_frameBytes H3_FRAME_HEADERS _ (by decide) hsection
  have hbare : h3ReadResponse cap (h3FrameBytes H3_FRAME_HEADERS (h3FieldSection status hdrs) ++ []) =
      some (responseFields status hdrs, []) := by
    refine @h3ReadResponse_frames _ _ [] _ _ ?_ hdec fun f hf => absurd hf List.not_mem_nil
    rw [hhead, hnil]
  unfold h3ResponseBytes
  cases body with
  | null n => exact hbare
  | data b =>
    dsimp only
    rw [sentBody]
    split
    · rename_i hno
      rw [hbare]
      split
      · rfl
      · rename_i hsent
        -- an empty body
        simp only [Bool.or_eq_true, decide_eq_true_eq, beq_iff_eq, List.isEmpty_iff] at hno hsent
        rw [hno.resolve_left (by simpa [or_assoc] using hsent)]
    · rename_i hno
      simp only [Bool.or_eq_true, decide_eq_true_eq, beq_iff_eq, List.isEmpty_iff] at hno
      have hdata : h3Frames (h3FrameBytes H3_FRAME_DATA b) = ([(H3_FRAME_DATA, b)], []) := by
        have hframe := @h3Frames_frameBytes H3_FRAME_DATA b (by decide) (hbody b rfl) []
        rwa [List.append_nil, hnil] at hframe
      rw [if_neg fun h => hno (.inl (by simpa [or_assoc] using h)),
        @h3ReadResponse_frames _ _ [(H3_FRAME_DATA, b)] _ _ (by rw [hhead, hdata]) hdec (by simp)]
      simp

/-- Answers whose lengths fit into a frame. -/
def Server.Framed (srv : Server) : Prop :=
  ∀ (history : List HttpReq) (req : HttpReq),
    let call := srv.answer history req
    (h3FieldSection call.status.toNat (finalHeaders srv true (srv.date history.length) call.headers)).length < 2 ^ 62 ∧
      ∀ b, call.body = .data b → b.length < 2 ^ 62

/-- A client reads the octets as the answer to the request. -/
def H3Replies (srv : Server) (history : List HttpReq) (req : HttpReq) (s : Bytes) : Prop :=
  let call := srv.answer history req
  let fields := responseFields call.status.toNat (finalHeaders srv true (srv.date history.length) call.headers)
  ∀ cap, fieldsSize fields ≤ cap →
    h3ReadResponse cap s = some (fields, sentBody req.isHead call.status.toNat call.body)

/-- **What `h3_respond` writes.** -/
theorem h3ResponseBytes_replies {srv : Server} (hsize : srv.Bounded (2 ^ 24)) (hframed : srv.Framed)
    (history : List HttpReq) (req : HttpReq) :
    let call := srv.answer history req
    H3Replies srv history req (h3ResponseBytes req.isHead call.status.toNat
      (finalHeaders srv true (srv.date history.length) call.headers) call.body) := by
  intro call cap hcap
  have hvalid := srv.answer_valid history req
  simp only [RespondCall.valid, Bool.and_eq_true, decide_eq_true_eq] at hvalid
  obtain ⟨⟨⟨-, hstatus⟩, hheaders⟩, -⟩ := hvalid
  have hstatus : call.status.toNat ≤ 599 := Int.toNat_le.mpr hstatus
  obtain ⟨hsection, hbody⟩ := hframed history req
  have hne : ∀ h ∈ finalHeaders srv true (srv.date history.length) call.headers, h.1 ≠ [] := by
    intro h hh hnil
    have htoken := (finalHeaders_clean hheaders h hh).1
    rw [hnil] at htoken
    cases htoken
  exact h3ReadResponse_responseBytes
    (decode_h3FieldSection hstatus hne (hsize.finalHeaders (by decide) history req true _) hcap) hsection hbody

/-! ### Writing

A write goes on until all octets are taken, or stops at the first stall or failure. -/

/-- Writes that end: none fails, and no more than `ZH3_WRITE_STALL` in a row take nothing. -/
def WritesEnd (writes : List H3Write) : Prop :=
  H3Write.failed ∉ writes ∧ ¬List.replicate (ZH3_WRITE_STALL + 1) H3Write.want <:+: writes

theorem h3StreamWriteAll_nil (writes : List H3Write) (stalls : Nat) : h3StreamWriteAll writes stalls [] = ([], true) := by
  cases writes with
  | nil => rfl
  | cons w writes => cases w <;> rfl

theorem h3StreamWriteAll_prefix (writes : List H3Write) (stalls : Nat) (p : Bytes) :
    (h3StreamWriteAll writes stalls p).1 <+: p := by
  induction writes generalizing stalls p with
  | nil => exact List.prefix_rfl
  | cons w writes ih =>
    by_cases hp : p = []
    · simp [hp, h3StreamWriteAll_nil]
    · cases w with
      | took more =>
        rw [h3StreamWriteAll, if_neg hp]
        have hrest := (List.prefix_append_right_inj (p.take (more + 1))).mpr (ih 0 (p.drop (more + 1)))
        rwa [List.take_append_drop] at hrest
      | want =>
        rw [h3StreamWriteAll, if_neg hp]
        split
        · exact List.nil_prefix
        · exact ih (stalls + 1) p
      | failed =>
        rw [h3StreamWriteAll, if_neg hp]
        exact List.nil_prefix

/-- Writes that end take everything; `stalls` of them have taken nothing so far. -/
theorem h3StreamWriteAll_whole {writes : List H3Write} {stalls : Nat} (hstalls : stalls ≤ ZH3_WRITE_STALL)
    (h : WritesEnd (List.replicate stalls .want ++ writes)) (p : Bytes) :
    h3StreamWriteAll writes stalls p = (p, true) := by
  induction writes generalizing stalls p with
  | nil => rfl
  | cons w writes ih =>
    obtain ⟨hfailed, hwants⟩ := h
    by_cases hp : p = []
    · rw [hp, h3StreamWriteAll_nil]
    · cases w with
      | took more =>
        have hsuffix : writes <:+ List.replicate stalls .want ++ .took more :: writes :=
          (List.suffix_cons _ _).trans (List.suffix_append _ _)
        have hrest : WritesEnd writes :=
          ⟨fun hin => hfailed (hsuffix.mem hin), fun hin => hwants (hin.trans hsuffix.isInfix)⟩
        rw [h3StreamWriteAll, if_neg hp]
        dsimp only
        rw [ih (Nat.zero_le _) hrest, List.take_append_drop]
      | want =>
        have hmove : List.replicate stalls H3Write.want ++ .want :: writes =
            List.replicate (stalls + 1) .want ++ writes := by
          rw [List.replicate_succ', List.append_assoc]
          rfl
        rw [hmove] at hfailed hwants
        have hroom : stalls + 1 ≤ ZH3_WRITE_STALL := by
          -- one more, and the calls have stalled
          refine Nat.lt_of_le_of_ne hstalls fun heq => hwants ?_
          rw [heq]
          exact (List.prefix_append _ _).isInfix
        rw [h3StreamWriteAll, if_neg hp, if_neg (Nat.not_lt.mpr hroom)]
        exact ih hroom ⟨hfailed, hwants⟩ p
      | failed => exact absurd (List.mem_append_right _ List.mem_cons_self) hfailed

/-! ### Streams

A stream holds the octets of one response, all of them or a beginning, or nothing. -/

variable {g : H3Cfg} {st : Zh3Stream}

/-- The one response of a stream, as far as the writes of the pass took it. -/
structure Zh3Stream.Replied (g : H3Cfg) (st : Zh3Stream) (pass : H3Pass) (req : HttpReq) : Prop where
  dispatched : st.dispatched = true
  done : st.done = true
  log : st.log = [req]
  concluded : st.concluded = true
  out : let call := g.srv.answer pass.history req
    st.out = (h3StreamWriteAll pass.writes 0 (h3ResponseBytes req.isHead call.status.toNat
      (finalHeaders g.srv true (g.srv.date pass.history.length) call.headers) call.body)).1

/-- Nothing was sent. -/
def Zh3Stream.Quiet (st : Zh3Stream) : Prop :=
  st.dispatched = false ∧ st.log = [] ∧ st.out = [] ∧ st.concluded = false

/-- **The invariant of the send side.** -/
def Zh3Stream.Sent (g : H3Cfg) (passes : List H3Pass) (st : Zh3Stream) : Prop :=
  st.Quiet ∨ ∃ pass ∈ passes, ∃ req, st.Replied g pass req

theorem Zh3Stream.Quiet.of_frame {st' : Zh3Stream} (h : st.Quiet) (hframe : st'.frame = st.frame) : st'.Quiet := by
  simp only [Zh3Stream.frame, Prod.mk.injEq] at hframe
  obtain ⟨-, -, hdispatched, hlog, hout, hconcluded⟩ := hframe
  rw [Zh3Stream.Quiet, hdispatched, hlog, hout, hconcluded]
  exact h

theorem h3MaybeDispatch_sent (pass : H3Pass) (hinv : StreamInv g.lim st) (h : st.Quiet) :
    (h3MaybeDispatch g pass.history st pass.writes).Sent g [pass] := by
  rw [h3MaybeDispatch]
  split
  · exact .inl h
  · split
    · exact .inl h
    · rename_i hready
      have hseen : st.headersSeen = true := by
        by_contra hno
        exact hready (.inl (by simpa using hno))
      obtain ⟨-, hlog, hout, -⟩ := h
      have hresponded : (h3Request st).responded = false := (hinv.head hseen).unanswered
      have hattached : g.srv.detaches pass.history (h3Request st) = false := by simp [Server.detaches, h3Request]
      dsimp only
      rw [zhsDispatch_eq _ _ _ _ _ hresponded hattached]
      refine .inr ⟨pass, List.mem_singleton_self _, h3Request st, rfl, rfl, ?_, rfl, ?_⟩
      · exact congrArg (· ++ [h3Request st]) hlog
      · exact congrArg (· ++ _) hout

theorem Zh3Stream.Sent.mono {passes passes' : List H3Pass} (h : st.Sent g passes) (hsub : passes ⊆ passes') :
    st.Sent g passes' := by
  refine h.imp_right ?_
  rintro ⟨pass, hpass, hreplied⟩
  exact ⟨pass, hsub hpass, hreplied⟩

/-- **A pass** of a stream. -/
theorem h3PumpStream_sent {passes : List H3Pass} (pass : H3Pass) (hinv : H3Inv g.lim st) (h : st.Sent g passes) :
    (h3PumpStream g st pass).Sent g (passes ++ [pass]) := by
  rw [h3PumpStream]
  split
  · exact h.mono (List.subset_append_left _ _)
  · rename_i hdone
    have hquiet : st.Quiet := by
      refine h.resolve_right ?_
      rintro ⟨_, _, req, hreplied⟩
      exact hdone hreplied.done
    have hread := h3ReadChunks_inv pass.chunks (hinv.stream.resolve_left hdone)
    have hframe := @h3ReadChunks_frame g.lim st pass.chunks
    generalize h3ReadChunks g.lim st pass.chunks = res at hread hframe
    obtain ⟨st₁, e⟩ := res
    have hquiet₁ : st₁.Quiet := hquiet.of_frame hframe
    cases e with
    | some e => exact .inl hquiet₁
    | none =>
      have hfin : ∀ fin : Bool, Zh3Stream.Sent g (passes ++ [pass])
          (if !st₁.isUni then h3MaybeDispatch g pass.history { st₁ with fin } pass.writes
            else if fin then { st₁ with fin, done := true } else { st₁ with fin }) := by
        intro fin
        split
        · have hinv₁ : StreamInv g.lim { st₁ with fin } := ⟨hread.before, hread.head, hread.parsing, hread.body⟩
          exact (h3MaybeDispatch_sent pass hinv₁ hquiet₁).mono (List.subset_append_right _ _)
        · split
          · exact .inl hquiet₁
          · exact .inl hquiet₁
      cases pass.ending with
      | reset => exact .inl hquiet₁
      | wantRead => exact hfin _
      | fin => exact hfin _

/-- A stream over its whole life. -/
theorem h3Run_sent (id : Nat) (isUni : Bool) (passes : List H3Pass) :
    (h3Run g (h3StreamNew id isUni) passes).Sent g passes := by
  induction passes using List.reverseRecOn with
  | nil => exact .inl ⟨rfl, rfl, rfl, rfl⟩
  | append_singleton passes pass ih =>
    have hinv := h3Run_requests g id isUni passes
    rw [h3Run] at ih hinv
    rw [h3Run, List.foldl_append]
    exact h3PumpStream_sent pass hinv ih

/-- What a stream that has replied took: a response, up to where a write stalled or failed. -/
theorem Zh3Stream.Replied.response {pass : H3Pass} {req : HttpReq} (h : st.Replied g pass req)
    (hsize : g.srv.Bounded (2 ^ 24)) (hframed : g.srv.Framed) :
    ∃ response, H3Replies g.srv pass.history req response ∧ st.out <+: response ∧
      (WritesEnd pass.writes → st.out = response) := by
  refine ⟨_, h3ResponseBytes_replies hsize hframed pass.history req, ?_, fun hends => ?_⟩
  · rw [h.out]
    exact h3StreamWriteAll_prefix _ _ _
  · rw [h.out, h3StreamWriteAll_whole (Nat.zero_le _) hends]

/-! ### Runs -/

/-- The writes to a stream of a connection, over a run. -/
def H3SrvWrites (steps : List H3SrvStep) (n id : Nat) (writes : List H3Write) : Prop :=
  ∃ tick, H3SrvStep.process tick ∈ steps ∧ writes = ((tick.visits n).reads id).writes

theorem h3SrvWrites_of_mem {steps : List H3SrvStep} {n id k k' : Nat} {pass : H3Pass}
    (h : pass ∈ ((h3Visits ((steps.drop k).map (H3SrvStep.at n))).drop k').map fun v => v.reads id) :
    H3SrvWrites steps n id pass.writes := by
  obtain ⟨v, hv, rfl⟩ := List.mem_map.mp h
  obtain ⟨step, hstep, hvisit⟩ := List.mem_filterMap.mp (List.mem_of_mem_drop hv)
  obtain ⟨srvStep, hsrv, rfl⟩ := List.mem_map.mp hstep
  cases srvStep with
  | process tick =>
    cases hvisit
    exact ⟨tick, List.mem_of_mem_drop hsrv, rfl⟩
  | graceful => cases hvisit

/-- **One response to one request, as the handler answered it.** In every state of a run of the server, a
stream of the table has sent nothing, or its send side is ended behind a prefix of one response, which a
client reads as the answer to the request of the stream. It is the whole response where no write to the
stream fails and not more than `ZH3_WRITE_STALL` in a row take nothing. -/
theorem h3SrvRun_responses {g : H3SrvCfg} {steps : List H3SrvStep} (hsize : g.srv.Bounded (2 ^ 24))
    (hframed : g.srv.Framed) (hsteps : H3SrvChunked steps) :
    ∀ p ∈ (h3SrvRun g steps).conns, ∀ st ∈ p.2.streams,
      (st.log = [] ∧ st.out = [] ∧ st.concluded = false) ∨
        ∃ history req response, st.log = [req] ∧ st.concluded = true ∧ H3Replies g.srv history req response ∧
          st.out <+: response ∧
          ((∀ writes, H3SrvWrites steps p.1 st.id writes → WritesEnd writes) → st.out = response) := by
  intro p hp st hst
  obtain ⟨-, k, credit, -, -, -, hserved⟩ := h3SrvRun_owned hsteps p hp
  obtain ⟨k', isUni, -, heq⟩ := hserved st hst
  have hsent := @h3Run_sent g.toH3Cfg st.id isUni
    (((h3Visits ((steps.drop k).map (H3SrvStep.at p.1))).drop k').map fun v => v.reads st.id)
  rw [← heq] at hsent
  rcases hsent with ⟨-, hquiet⟩ | ⟨pass, hpass, req, hreplied⟩
  · exact .inl hquiet
  · obtain ⟨response, hreplies, hprefix, hwhole⟩ := hreplied.response hsize hframed
    exact .inr ⟨pass.history, req, response, hreplied.log, hreplied.concluded, hreplies, hprefix,
      fun hends => hwhole (hends _ (h3SrvWrites_of_mem hpass))⟩

/-- A connection whose first stream is a `GET /`. -/
def getH3Steps : List H3SrvStep :=
  [.process { incoming := [true] },
    .process { visits := fun _ =>
      { accepted := [(0, false)], reads := fun _ => { chunks := [h3HalfFrame.take 10], ending := .fin } } }]

theorem getH3Steps_chunked : H3SrvChunked getH3Steps := by
  intro tick htick n id b hb
  simp only [getH3Steps, List.mem_cons, H3SrvStep.process.injEq, List.not_mem_nil, or_false] at htick
  rcases htick with rfl | rfl
  · cases hb
  · rw [List.mem_singleton.mp hb]
    decide

/-- The fallback response to it. -/
theorem h3SrvRun_responses_get : ∃ p ∈ (h3SrvRun smallH3Srv getH3Steps).conns, ∃ st ∈ p.2.streams,
    ∃ history req, st.log = [req] ∧ H3Replies smallH3Srv.srv history req st.out := by
  have hbounded : smallH3Srv.srv.Bounded (2 ^ 24) := fun _ _ _ h => absurd h List.not_mem_nil
  have hframed : smallH3Srv.srv.Framed := by
    intro history req
    have hsection : (h3FieldSection 500 (finalHeaders .silent true (Server.silent.date 0) [])).length < 2 ^ 62 := by
      decide +kernel
    refine ⟨hsection, fun b hb => ?_⟩
    cases hb
    decide +kernel
  have hsome : ∃ p ∈ (h3SrvRun smallH3Srv getH3Steps).conns, ∃ st ∈ p.2.streams, st.log ≠ [] := by
    decide +kernel
  obtain ⟨p, hp, st, hst, hlog⟩ := hsome
  have hwrites : ∀ writes, H3SrvWrites getH3Steps p.1 st.id writes → WritesEnd writes := by
    rintro writes ⟨tick, htick, rfl⟩
    simp only [getH3Steps, List.mem_cons, H3SrvStep.process.injEq, List.not_mem_nil, or_false] at htick
    rcases htick with rfl | rfl
    · exact ⟨List.not_mem_nil, fun h => (List.cons_ne_nil _ _) (List.infix_nil.mp h)⟩
    · exact ⟨List.not_mem_nil, fun h => (List.cons_ne_nil _ _) (List.infix_nil.mp h)⟩
  rcases h3SrvRun_responses hbounded hframed getH3Steps_chunked p hp st hst with
    hquiet | ⟨history, req, response, hreq, -, hreplies, -, hwhole⟩
  · exact absurd hquiet.1 hlog
  · exact ⟨p, hp, st, hst, history, req, hreq, hwhole hwrites ▸ hreplies⟩

end Zcio
