import Zcio.Lib.Loop
import Zcio.HttpUtil.Hdrs

/-!
# Zcio.Hpack.Prim

The HPACK primitives of `hpack.c` that QPACK shares: prefixed integers (RFC 7541 section
5.1), the canonical Huffman code (Appendix B) and the static table (Appendix A).
-/

namespace Zcio

/-! ### Prefixed integers -/

/-- `ZHP_INT_MAX`: the largest integer the decoder accepts. -/
def ZHP_INT_MAX : Nat := 2 ^ 24

/-- The continuation loop of `zhp_int_decode_`, at octet `i` with `shift` bits read. -/
def zhpIntCont (v shift i : Nat) : Bytes → Except Fail (Nat × Nat)
  | [] => zcioFail .protocol "hpack: truncated integer"
  | b :: rest =>
    let v := v + (b.toNat &&& 0x7f) <<< shift
    if v > ZHP_INT_MAX then zcioFail .protocol "hpack: integer exceeds cap"
    else if b &&& 0x80 = 0 then .ok (i + 1, v)
    else if shift + 7 ≥ 28 then zcioFail .protocol "hpack: integer too long"
    else zhpIntCont v (shift + 7) (i + 1) rest

/-- `zhp_int_decode_`: the number of octets consumed and the value. -/
def zhpIntDecode (p : Bytes) (prefixBits : Nat) : Except Fail (Nat × Nat) :=
  match p with
  | [] => zcioFail .protocol "hpack: truncated integer"
  | b :: rest =>
    let prefixMax := 2 ^ prefixBits - 1
    let v := b.toNat &&& prefixMax
    if v < prefixMax then .ok (1, v) else zhpIntCont v 0 1 rest

/-- One round of the loop of `zhp_int_encode_`: seven bits per octet, least significant
first, the high bit set on all but the last. -/
def zhpIntEncodeRound (s : Nat × Bytes) : (Nat × Bytes) ⊕ Bytes :=
  if s.1 ≥ 128 then .inl (s.1 >>> 7, s.2 ++ [UInt8.ofNat (0x80 ||| (s.1 &&& 0x7f))])
  else .inr (s.2 ++ [UInt8.ofNat s.1])

theorem zhpIntEncodeRound_decreases : Lib.Decreases zhpIntEncodeRound Prod.fst := by
  intro s s' h
  unfold zhpIntEncodeRound at h
  split at h
  · cases h
    dsimp only
    rw [Nat.shiftRight_eq_div_pow]
    omega
  · cases h

/-- `zhp_int_encode_`: `v` under a `prefixBits`-wide prefix, `flags` in the high bits. -/
def zhpIntEncode (prefixBits : Nat) (flags : UInt8) (v : Nat) : Bytes :=
  let prefixMax := 2 ^ prefixBits - 1
  if v < prefixMax then [flags ||| UInt8.ofNat v]
  else
    Lib.loop zhpIntEncodeRound _ zhpIntEncodeRound_decreases
      (v - prefixMax, [flags ||| UInt8.ofNat prefixMax])

/-! ### Huffman -/

/-- `HUFF_COUNT`: the number of symbols of each code length. -/
def HUFF_COUNT : List Nat :=
  [0, 0, 0, 0, 0, 10, 26, 32, 6, 0, 5, 3, 2, 6, 2, 3, 0, 0, 0, 3, 8, 13, 26,
    29, 12, 4, 15, 19, 29, 0, 4]

/-- `HUFF_SYMBOL`: every symbol in canonical order; 256 is EOS. -/
def HUFF_SYMBOL : List Nat :=
  [48, 49, 50, 97, 99, 101, 105, 111, 115, 116, 32, 37, 45, 46, 47, 51, 52,
    53, 54, 55, 56, 57, 61, 65, 95, 98, 100, 102, 103, 104, 108, 109, 110,
    112, 114, 117, 58, 66, 67, 68, 69, 70, 71, 72, 73, 74, 75, 76, 77, 78,
    79, 80, 81, 82, 83, 84, 85, 86, 87, 89, 106, 107, 113, 118, 119, 120,
    121, 122, 38, 42, 44, 59, 88, 90, 33, 34, 40, 41, 63, 39, 43, 124, 35,
    62, 0, 36, 64, 91, 93, 126, 94, 125, 60, 96, 123, 92, 195, 208, 128, 130,
    131, 162, 184, 194, 224, 226, 153, 161, 167, 172, 176, 177, 179, 209,
    216, 217, 227, 229, 230, 129, 132, 133, 134, 136, 146, 154, 156, 160,
    163, 164, 169, 170, 173, 178, 181, 185, 186, 187, 189, 190, 196, 198,
    228, 232, 233, 1, 135, 137, 138, 139, 140, 141, 143, 147, 149, 150, 151,
    152, 155, 157, 158, 165, 166, 168, 174, 175, 180, 182, 183, 188, 191,
    197, 231, 239, 9, 142, 144, 145, 148, 159, 171, 206, 215, 225, 236, 237,
    199, 207, 234, 235, 192, 193, 200, 201, 202, 205, 210, 213, 218, 219,
    238, 240, 242, 243, 255, 203, 204, 211, 212, 214, 221, 222, 223, 241,
    244, 245, 246, 247, 248, 250, 251, 252, 253, 254, 2, 3, 4, 5, 6, 7, 8,
    11, 12, 14, 15, 16, 17, 18, 19, 20, 21, 23, 24, 25, 26, 27, 28, 29, 30,
    31, 127, 220, 249, 10, 13, 22, 256]

/-- `huff_bit`: bit `pos` of the input, most significant first. -/
def huffBit (inp : Bytes) (pos : Nat) : Nat :=
  ((inp.getD (pos / 8) 0).toNat >>> (7 - pos % 8)) &&& 1

/-- The outcome of `huff_symbol`. -/
inductive HuffSym where
  /-- A symbol and the bit position behind its code. -/
  | sym (s : Nat) (bitpos : Nat)
  /-- The input ran out inside a code: what is left must be padding. -/
  | out
  /-- No code of any length matched. -/
  | none
  deriving Repr, DecidableEq

/-- The loop of `huff_symbol` over the code lengths still to try. -/
def huffSymbolFrom (inp : Bytes) (totalBits : Nat) :
    List Nat → (code first index bitpos : Nat) → HuffSym
  | [], _, _, _, _ => .none
  | cnt :: counts, code, first, index, bitpos =>
    if bitpos ≥ totalBits then .out
    else
      let code := code <<< 1 ||| huffBit inp bitpos
      if code < first + cnt then
        .sym (HUFF_SYMBOL.getD (index + (code - first)) 0) (bitpos + 1)
      else huffSymbolFrom inp totalBits counts code ((first + cnt) <<< 1) (index + cnt)
        (bitpos + 1)

/-- `huff_symbol`. -/
def huffSymbol (inp : Bytes) (totalBits bitpos : Nat) : HuffSym :=
  huffSymbolFrom inp totalBits (HUFF_COUNT.drop 1) 0 0 0 bitpos

theorem huffSymbolFrom_lt {inp : Bytes} {totalBits : Nat} {counts : List Nat}
    {code first index bitpos s pos' : Nat}
    (h : huffSymbolFrom inp totalBits counts code first index bitpos = .sym s pos') :
    bitpos < pos' ∧ pos' ≤ totalBits := by
  induction counts generalizing code first index bitpos with
  | nil => cases h
  | cons cnt counts ih =>
    rw [huffSymbolFrom] at h
    split at h
    · cases h
    · dsimp only at h
      split at h
      · cases h
        omega
      · have := ih h
        omega

/-- The end of the input inside a code: at most seven bits, all ones. -/
def huffPadding (inp : Bytes) (totalBits start : Nat) : Except Fail Unit :=
  if totalBits - start > 7 then zcioFail .protocol "hpack: huffman padding too long"
  else if (List.range' start (totalBits - start)).all fun bp => huffBit inp bp == 1 then .ok ()
  else zcioFail .protocol "hpack: huffman padding not all ones"

/-- One round of `zhp_huff_decode_`: the next symbol goes to the output. -/
def huffRound (inp : Bytes) (maxOut : Nat) (s : Nat × Bytes) :
    (Nat × Bytes) ⊕ Except Fail Bytes :=
  let totalBits := inp.length * 8
  if s.1 < totalBits then
    match huffSymbol inp totalBits s.1 with
    | .out => .inr ((huffPadding inp totalBits s.1).map fun _ => s.2)
    | .none => .inr (zcioFail .protocol "hpack: invalid huffman code")
    | .sym sym bitpos =>
      if sym = 256 then .inr (zcioFail .protocol "hpack: huffman EOS symbol")
      else if s.2.length ≥ maxOut then
        .inr (zcioFail .protocol "hpack: huffman output exceeds limit")
      else .inl (bitpos, s.2 ++ [UInt8.ofNat sym])
  else .inr (.ok s.2)

theorem huffRound_decreases (inp : Bytes) (maxOut : Nat) :
    Lib.Decreases (huffRound inp maxOut) fun s => inp.length * 8 - s.1 := by
  intro s s' h
  unfold huffRound at h
  dsimp only at h
  split at h
  · split at h
    · cases h
    · cases h
    · rename_i sym bitpos hsym
      split at h
      · cases h
      · split at h
        · cases h
        · cases h
          have := huffSymbolFrom_lt hsym
          dsimp only
          omega
  · cases h

/-- `zhp_huff_decode_`: at most `maxOut` octets of output. -/
def zhpHuffDecode (inp : Bytes) (maxOut : Nat) : Except Fail Bytes :=
  if inp.length > SIZE_MAX / 8 then zcioFail .protocol "hpack: huffman input too large"
  else Lib.loop (huffRound inp maxOut) _ (huffRound_decreases inp maxOut) (0, [])

theorem zhpHuffDecode_protocol {inp : Bytes} {maxOut : Nat} {e : Fail}
    (h : zhpHuffDecode inp maxOut = .error e) : e.code = .protocol := by
  unfold zhpHuffDecode at h
  split at h
  · cases h; rfl
  · revert h
    refine Lib.loop_inv (huffRound_decreases inp maxOut) (I := fun _ => True)
      (Q := fun r => r = .error e → e.code = .protocol) (fun _ _ _ _ => trivial) ?_ trivial
    intro s r _ hb hr
    subst hr
    unfold huffRound at hb
    dsimp only at hb
    split at hb
    · split at hb
      · unfold huffPadding at hb
        split at hb
        · cases hb; rfl
        · split at hb
          · cases hb
          · cases hb; rfl
      · cases hb; rfl
      · split at hb
        · cases hb; rfl
        · split at hb
          · cases hb; rfl
          · cases hb
    · cases hb

/-! ### The static table -/

/-- A header field: also `zhp_ent`, an entry of the dynamic table. -/
structure Field where
  name : Bytes
  value : Bytes
  deriving Repr, DecidableEq

instance : Inhabited Field := ⟨⟨[], []⟩⟩

/-- An entry from its ASCII texts. -/
def Field.ascii (name value : String) : Field := ⟨str name, str value⟩

/-- `HPACK_STATIC`: index 1 on the wire is the first entry. -/
def HPACK_STATIC : List Field :=
  [.ascii ":authority" "", .ascii ":method" "GET", .ascii ":method" "POST",
    .ascii ":path" "/", .ascii ":path" "/index.html", .ascii ":scheme" "http",
    .ascii ":scheme" "https", .ascii ":status" "200", .ascii ":status" "204",
    .ascii ":status" "206", .ascii ":status" "304", .ascii ":status" "400",
    .ascii ":status" "404", .ascii ":status" "500", .ascii "accept-charset" "",
    .ascii "accept-encoding" "gzip, deflate", .ascii "accept-language" "",
    .ascii "accept-ranges" "", .ascii "accept" "",
    .ascii "access-control-allow-origin" "", .ascii "age" "", .ascii "allow" "",
    .ascii "authorization" "", .ascii "cache-control" "",
    .ascii "content-disposition" "", .ascii "content-encoding" "",
    .ascii "content-language" "", .ascii "content-length" "",
    .ascii "content-location" "", .ascii "content-range" "", .ascii "content-type" "",
    .ascii "cookie" "", .ascii "date" "", .ascii "etag" "", .ascii "expect" "",
    .ascii "expires" "", .ascii "from" "", .ascii "host" "", .ascii "if-match" "",
    .ascii "if-modified-since" "", .ascii "if-none-match" "", .ascii "if-range" "",
    .ascii "if-unmodified-since" "", .ascii "last-modified" "", .ascii "link" "",
    .ascii "location" "", .ascii "max-forwards" "", .ascii "proxy-authenticate" "",
    .ascii "proxy-authorization" "", .ascii "range" "", .ascii "referer" "",
    .ascii "refresh" "", .ascii "retry-after" "", .ascii "server" "",
    .ascii "set-cookie" "", .ascii "strict-transport-security" "",
    .ascii "transfer-encoding" "", .ascii "user-agent" "", .ascii "vary" "",
    .ascii "via" "", .ascii "www-authenticate" ""]

theorem length_HPACK_STATIC : HPACK_STATIC.length = 61 := by decide

end Zcio
