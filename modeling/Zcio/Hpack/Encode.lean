import Zcio.Hpack.Integer

/-!
# Zcio.Hpack.Encode

The response encoder of `hpack.c`: stateless, literals without indexing under a static
name reference where there is one, no Huffman coding.

`zhpDecode_encode` is the round trip: whatever its table holds, the decoder reads an
encoded block back as the fields it was made from, and its table stays.
-/

namespace Zcio

open Hpack (Table within)

/-- `hpack_static_name_index`: the first static index (1-based) of that name, or 0. -/
def hpackStaticNameIndex (name : Bytes) : Nat :=
  match HPACK_STATIC.findIdx? fun f => ciEq f.name name with
  | some i => i + 1
  | none => 0

/-- `hpack_raw_string`. -/
def hpackRawString (s : Bytes) : Bytes := zhpIntEncode 7 0 s.length ++ s

/-- `zhp_encode_`. -/
def zhpEncode (name value : Bytes) : Bytes :=
  let sidx := hpackStaticNameIndex name
  (if sidx > 0 then zhpIntEncode 4 0 sidx else zhpIntEncode 4 0 0 ++ hpackRawString name) ++
    hpackRawString value

/-- `zhp_encode_status_`: `:status` is static index 8. -/
def zhpEncodeStatus (status : Nat) : Bytes := zhpIntEncode 4 0 8 ++ hpackRawString (decimal status)

/-! ### Integers

An integer that was written is read back, with the flag bits of its octet. -/

/-- **Integers round-trip**, and the encoding starts with an octet of the prefix. -/
theorem int_zhpIntEncode {n v : Nat} (hn : n ≤ 7) (hv : v ≤ ZHP_INT_MAX) (rest : Bytes) :
    Hpack.int n (zhpIntEncode n 0 v ++ rest) = some (v, rest) ∧
      ((zhpIntEncode n 0 v ++ rest).headD 0).toNat < 2 ^ n := by
  have hflags : (0 : UInt8).toNat % 2 ^ n = 0 := Nat.zero_mod _
  refine ⟨int_flags (by omega) hflags hv rest, ?_⟩
  rw [headD_zhpIntEncode (by omega) hflags]
  have := Nat.two_pow_pos n
  show 0 + min v (2 ^ n - 1) < 2 ^ n
  omega

/-! ### Strings and fields

The encoder writes raw strings, and names from the static table where it has them. -/

/-- The strings a decoder with cap `m` takes. -/
def Fits (m : Nat) (s : Bytes) : Prop := s.length ≤ ZHP_INT_MAX ∧ s.length ≤ m

theorem string_hpackRawString {m : Nat} {s : Bytes} (h : Fits m s) (rest : Bytes) :
    Hpack.string (some m) (hpackRawString s ++ rest) = some (s, rest) := by
  obtain ⟨hint, hhead⟩ := int_zhpIntEncode (n := 7) (by decide) h.1 (s ++ rest)
  unfold Hpack.string hpackRawString
  rw [List.append_assoc, hint]
  dsimp only
  rw [if_pos (by simp), if_neg (by rw [UInt8.le_iff_toNat_le, Nat.not_le]; exact hhead),
    if_pos (by simpa [within] using h.2)]
  simp

theorem lower_ascii_name (cs : List Char) (v : String)
    (h : (cs.all fun c => !(65 ≤ c.toNat.toUInt8 && c.toNat.toUInt8 ≤ 90)) = true) :
    lower (Field.ascii (String.ofList cs) v).name = (Field.ascii (String.ofList cs) v).name := by
  change lower (str (String.ofList cs)) = str (String.ofList cs)
  rw [str_ofList, lower, List.map_map, List.map_inj_left]
  intro c hc
  have hcase := List.all_eq_true.mp h c hc
  rw [Function.comp_apply, tolower, if_neg]
  intro hup
  simp [hup.1, hup.2] at hcase

theorem lowerTable_nil : ∀ f ∈ ([] : List Field), lower f.name = f.name :=
  fun _ h => absurd h List.not_mem_nil

/-- A table of lower-case names, entry by entry. -/
theorem lowerTable_cons {cs : List Char} {v : String} {t : List Field}
    (h : (cs.all fun c => !(65 ≤ c.toNat.toUInt8 && c.toNat.toUInt8 ≤ 90)) = true)
    (ht : ∀ f ∈ t, lower f.name = f.name) :
    ∀ f ∈ Field.ascii (String.ofList cs) v :: t, lower f.name = f.name :=
  List.forall_mem_cons.mpr ⟨lower_ascii_name cs v h, ht⟩

theorem static_lower : ∀ f ∈ HPACK_STATIC, lower f.name = f.name := by
  rw [HPACK_STATIC]
  repeat refine lowerTable_cons (by decide) ?_
  exact lowerTable_nil

/-- The name an encoded field is read back with: a name of the static table comes out of the
table, in lower case. -/
def emittedName (name : Bytes) : Bytes :=
  if ∃ f ∈ HPACK_STATIC, f.name = lower name then lower name else name

/-- A static index found for a name stands for that name in lower case. -/
theorem find_hpackStaticNameIndex {name : Bytes} (hpos : hpackStaticNameIndex name > 0)
    (t : Table) :
    hpackStaticNameIndex name ≤ ZHP_INT_MAX ∧
      ∃ f ∈ HPACK_STATIC, t.find (hpackStaticNameIndex name) = some f ∧ f.name = lower name := by
  unfold hpackStaticNameIndex at hpos ⊢
  cases hidx : HPACK_STATIC.findIdx? fun f => ciEq f.name name with
  | none =>
    rw [hidx] at hpos
    exact absurd hpos (Nat.lt_irrefl 0)
  | some i =>
    obtain ⟨hi, heq, -⟩ := List.findIdx?_eq_some_iff_getElem.mp hidx
    generalize hf : HPACK_STATIC[i] = f at heq
    have hmax : i < 61 := length_HPACK_STATIC ▸ hi
    have hmem : f ∈ HPACK_STATIC := hf ▸ List.getElem_mem hi
    dsimp only
    refine ⟨by unfold ZHP_INT_MAX; omega, f, hmem, ?_, ?_⟩
    · unfold Table.find
      rw [← ZhpDec.hpack_static, if_neg (by omega), if_pos (by omega), Nat.add_sub_cancel, List.getElem?_eq_getElem hi, hf]
    · have hci : lower f.name = lower name := by simpa [ciEq] using heq
      rwa [static_lower f hmem] at hci

/-- Without an index the name is not in the static table. -/
theorem notMem_of_hpackStaticNameIndex {name : Bytes} (hzero : ¬hpackStaticNameIndex name > 0) :
    ¬∃ f ∈ HPACK_STATIC, f.name = lower name := by
  rintro ⟨f, hmem, hname⟩
  have hnone : (HPACK_STATIC.findIdx? fun f => ciEq f.name name) = none := by
    unfold hpackStaticNameIndex at hzero
    split at hzero
    · exact absurd (Nat.succ_pos _) hzero
    · assumption
  have hne := List.findIdx?_eq_none_iff.mp hnone f hmem
  rw [ciEq, static_lower f hmem, hname, beq_self_eq_true] at hne
  exact Bool.noConfusion hne

/-- A literal without indexing: its first octet has a zero high nibble. -/
theorem rep_of_low {m : Nat} {t : Table} {bs : Bytes} (hlt : (bs.headD 0).toNat < 2 ^ 4) :
    Hpack.rep (some m) t bs =
      (Hpack.literal (some m) t 4 bs).map fun r => (.field r.1 false, r.2) := by
  have hnot : ∀ k : UInt8, 2 ^ 4 ≤ k.toNat → ¬k ≤ bs.headD 0 := by
    intro k hk
    rw [UInt8.le_iff_toNat_le, Nat.not_le]
    exact Nat.lt_of_lt_of_le hlt hk
  unfold Hpack.rep
  dsimp only
  rw [if_neg (hnot 128 (by decide)), if_neg (hnot 64 (by decide)), if_neg (hnot 32 (by decide))]

/-- `bs` is read as the field `f`, whatever the table holds and whatever follows, and leaves the
table alone. -/
def Encodes (m : Nat) (bs : Bytes) (f : Field) : Prop :=
  ∀ (t : Table) (rest : Bytes), Hpack.rep (some m) t (bs ++ rest) = some (.field f false, rest)

/-- **Fields round-trip** as literals that leave the table alone. -/
theorem zhpEncode_encodes {m : Nat} {name value : Bytes} (hname : Fits m name)
    (hvalue : Fits m value) : Encodes m (zhpEncode name value) ⟨emittedName name, value⟩ := by
  intro t rest
  unfold zhpEncode
  dsimp only
  by_cases hidx : hpackStaticNameIndex name > 0
  · obtain ⟨hmax, f, hmem, hfind, hf⟩ := find_hpackStaticNameIndex hidx t
    obtain ⟨hint, hhead⟩ := int_zhpIntEncode (n := 4) (by decide) hmax
      (hpackRawString value ++ rest)
    rw [if_pos hidx, List.append_assoc, rep_of_low hhead]
    unfold Hpack.literal
    rw [hint]
    dsimp only
    rw [if_neg (Nat.ne_of_gt hidx), hfind]
    dsimp only [Option.map_some]
    rw [string_hpackRawString hvalue, emittedName, if_pos ⟨f, hmem, hf⟩, hf]
    rfl
  · obtain ⟨hint, hhead⟩ := int_zhpIntEncode (n := 4) (v := 0) (by decide)
      (Nat.zero_le _) (hpackRawString name ++ (hpackRawString value ++ rest))
    rw [if_neg hidx, List.append_assoc, List.append_assoc, rep_of_low hhead]
    unfold Hpack.literal
    rw [hint]
    dsimp only
    rw [if_pos rfl, string_hpackRawString hname]
    dsimp only
    rw [string_hpackRawString hvalue, emittedName, if_neg (notMem_of_hpackStaticNameIndex hidx)]
    rfl

/-- A status is encoded as the field it stands for. -/
theorem zhpEncodeStatus_eq (status : Nat) :
    zhpEncodeStatus status = zhpEncode (str ":status") (decimal status) := by
  have hidx : hpackStaticNameIndex (str ":status") = 8 := by decide
  unfold zhpEncodeStatus zhpEncode
  rw [hidx]
  rfl

theorem length_emittedName (name : Bytes) : (emittedName name).length = name.length := by
  unfold emittedName
  split
  · exact length_lower name
  · rfl

theorem emittedName_of_lower {name : Bytes} (hlow : lower name = name) : emittedName name = name := by
  unfold emittedName
  rw [hlow, ite_self]

/-! ### Blocks

Field by field the decoder reads what the encoder wrote, and its table does not move. -/

/-- The encoding of a header list. -/
def encodeFields (fs : List Field) : Bytes := (fs.map fun f => zhpEncode f.name f.value).flatten

/-- The decoded size of a header list. -/
def fieldsSize (fs : List Field) : Nat := (fs.map fun f => f.name.length + f.value.length).sum

theorem fieldsSize_cons (f : Field) (fs : List Field) :
    fieldsSize (f :: fs) = f.name.length + f.value.length + fieldsSize fs := rfl

/-- A field of a header list is no larger than the list. -/
theorem le_fieldsSize {f : Field} {fs : List Field} (hf : f ∈ fs) :
    f.name.length + f.value.length ≤ fieldsSize fs :=
  List.single_le_sum (fun _ _ => Nat.zero_le _) _ (List.mem_map_of_mem hf)

/-- **A block of encoded fields** decodes to them. -/
theorem decodeFrom_encodes {m : Nat} {bss : List Bytes} {fs : List Field}
    (h : List.Forall₂ (Encodes m) bss fs) (s : Hpack.St) (hs : s.bs = bss.flatten)
    (hm : s.decoded + fieldsSize fs ≤ m) :
    Hpack.decodeFrom (some m) s = ⟨true, s.fields ++ fs, s.table⟩ := by
  induction h generalizing s with
  | nil =>
    have hround : Hpack.round (some m) s = .inr ⟨true, s.fields, s.table⟩ := by
      unfold Hpack.round
      exact if_pos hs
    unfold Hpack.decodeFrom
    rw [Lib.loop_of_inr hround, List.append_nil]
  | @cons bs f bss fs hf _ ih =>
    rw [fieldsSize_cons] at hm
    have hrep : Hpack.rep (some m) s.table s.bs = some (.field f false, bss.flatten) := by
      rw [hs]
      exact hf _ _
    have hne : s.bs ≠ [] := by
      intro hnil
      have hlt := Hpack.rep_lt hrep
      rw [hnil] at hlt
      exact absurd hlt (Nat.not_lt_zero _)
    have hround : Hpack.round (some m) s = .inl { s with
        bs := bss.flatten, decoded := s.decoded + (f.name.length + f.value.length)
        seenField := true, fields := s.fields ++ [f] } := by
      unfold Hpack.round
      rw [if_neg hne, hrep]
      dsimp only
      rw [if_pos (by simp only [within, Option.all_some, decide_eq_true_eq]; omega)]
      rfl
    unfold Hpack.decodeFrom at ih ⊢
    rw [Lib.loop_of_inl hround, ih _ rfl (by dsimp only; omega)]
    simp only [List.append_assoc, List.singleton_append]

theorem zhpDecode_encodes {d : ZhpDec} (h : d.Inv) {m : Nat} {bss : List Bytes} {fs : List Field}
    (henc : List.Forall₂ (Encodes m) bss fs) (hm : fieldsSize fs ≤ m) :
    (zhpDecode d bss.flatten m collect []).rc = .ok ∧
      (zhpDecode d bss.flatten m collect []).u = fs ∧
      (zhpDecode d bss.flatten m collect []).d.abs = d.abs := by
  have hag := zhpDecode_agrees h bss.flatten m
  have hdec : Hpack.decode (some m) d.abs bss.flatten = ⟨true, [] ++ fs, d.abs⟩ :=
    decodeFrom_encodes henc { bs := bss.flatten, table := d.abs } rfl (by dsimp only; omega)
  rw [hdec] at hag
  refine ⟨?_, hag.fields, hag.table⟩
  rcases hag.rc with hok | hbad
  · exact hok.1
  · exact absurd hbad.2 Bool.true_eq_false.mp

/-- **The round trip** of fields whose names are in lower case. -/
theorem zhpDecode_encode {d : ZhpDec} (h : d.Inv) {m : Nat} {fs : List Field}
    (hlow : ∀ f ∈ fs, lower f.name = f.name)
    (hint : ∀ f ∈ fs, f.name.length ≤ ZHP_INT_MAX ∧ f.value.length ≤ ZHP_INT_MAX)
    (hm : fieldsSize fs ≤ m) :
    (zhpDecode d (encodeFields fs) m collect []).rc = .ok ∧
      (zhpDecode d (encodeFields fs) m collect []).u = fs ∧
      (zhpDecode d (encodeFields fs) m collect []).d.abs = d.abs := by
  refine zhpDecode_encodes h ?_ hm
  rw [List.forall₂_map_left_iff, List.forall₂_same]
  intro f hf
  have hsize := le_fieldsSize hf
  obtain ⟨hname, hvalue⟩ := hint f hf
  have henc := zhpEncode_encodes (m := m) ⟨hname, by omega⟩ ⟨hvalue, by omega⟩
  rwa [emittedName_of_lower (hlow f hf)] at henc

/-! ### Calls of the encoder

The three calls of the encoder, in any order. -/

/-- A call of the encoder; its strings are NUL-terminated. -/
inductive EncodeCall where
  | field (name value : CStr)
  | status (status : Nat)

namespace EncodeCall

/-- What the call appends to the block. -/
def bytes : EncodeCall → Bytes
  | field name value => zhpEncode name.1 value.1
  | status n => zhpEncodeStatus n

/-- The field the call stands for. -/
def emits : EncodeCall → Field
  | field name value => ⟨emittedName name.1, value.1⟩
  | status n => ⟨str ":status", decimal n⟩

/-- The lengths of the call's strings. -/
def Small (c : EncodeCall) : Prop :=
  c.emits.name.length ≤ ZHP_INT_MAX ∧ c.emits.value.length ≤ ZHP_INT_MAX

instance : DecidablePred Small := fun c =>
  inferInstanceAs (Decidable (c.emits.name.length ≤ _ ∧ c.emits.value.length ≤ _))

theorem encodes {m : Nat} {c : EncodeCall} (hsmall : c.Small)
    (hm : c.emits.name.length + c.emits.value.length ≤ m) : Encodes m c.bytes c.emits := by
  obtain ⟨hname, hvalue⟩ := hsmall
  cases c with
  | field name value =>
    rw [emits, length_emittedName] at hname hm
    exact zhpEncode_encodes ⟨hname, Nat.le_of_add_right_le hm⟩ ⟨hvalue, Nat.le_of_add_left_le hm⟩
  | status n =>
    have hstatus : Encodes m (zhpEncode (str ":status") (decimal n))
        ⟨emittedName (str ":status"), decimal n⟩ :=
      zhpEncode_encodes ⟨hname, Nat.le_of_add_right_le hm⟩ ⟨hvalue, Nat.le_of_add_left_le hm⟩
    rw [emittedName_of_lower (by decide), ← zhpEncodeStatus_eq] at hstatus
    exact hstatus

end EncodeCall

/-- **Stateless encoding round-trips.** In every state of the decoder a block made by any calls
of the encoder, their strings within the integer limit and their fields within the cap,
decodes to the fields of these calls in order and leaves the dynamic table as it was. -/
theorem zhpDecode_encodeCalls {d : ZhpDec} (hd : d.Reachable) {calls : List EncodeCall} {m : Nat}
    (hsmall : ∀ c ∈ calls, c.Small) (hm : fieldsSize (calls.map EncodeCall.emits) ≤ m) :
    (zhpDecode d (calls.map EncodeCall.bytes).flatten m collect []).rc = .ok ∧
      (zhpDecode d (calls.map EncodeCall.bytes).flatten m collect []).u =
        calls.map EncodeCall.emits ∧
      (zhpDecode d (calls.map EncodeCall.bytes).flatten m collect []).d.abs = d.abs := by
  refine zhpDecode_encodes hd.inv ?_ hm
  rw [List.forall₂_map_left_iff, List.forall₂_map_right_iff, List.forall₂_same]
  intro c hc
  exact c.encodes (hsmall c hc) ((le_fieldsSize (List.mem_map_of_mem hc)).trans hm)

/-- A status, a name of the static table in capitals and a name that is not in it. -/
def sampleCalls : List EncodeCall :=
  [.status 204, .field ⟨str "Server", by decide⟩ ⟨str "z", by decide +kernel⟩,
    .field ⟨str "X-Id", by decide⟩ ⟨str "7", by decide +kernel⟩]

theorem zhpDecode_encodeCalls_sample :
    (zhpDecode (.new 4096) (sampleCalls.map EncodeCall.bytes).flatten 64 collect []).u =
      [.ascii ":status" "204", .ascii "server" "z", .ascii "X-Id" "7"] := by
  have hsmall : ∀ c ∈ sampleCalls, c.Small := by decide
  refine (zhpDecode_encodeCalls (.new 4096) hsmall (m := 64) (by decide)).2.1.trans ?_
  decide +kernel

end Zcio
