import Zcio.Hpack.Encode

/-!
# Zcio.Qpack.Codec

The QPACK codec of `qpack.c`: static table only, so that neither direction keeps state.
Integers and Huffman strings are those of `Zcio.Hpack.Prim`.
-/

namespace Zcio

/-- `QPACK_STATIC`: index 0 on the wire is the first entry. -/
def QPACK_STATIC : List Field :=
  [.ascii ":authority" "", .ascii ":path" "/", .ascii "age" "0", .ascii "content-disposition" "",
    .ascii "content-length" "0", .ascii "cookie" "", .ascii "date" "", .ascii "etag" "",
    .ascii "if-modified-since" "", .ascii "if-none-match" "", .ascii "last-modified" "",
    .ascii "link" "", .ascii "location" "", .ascii "referer" "", .ascii "set-cookie" "",
    .ascii ":method" "CONNECT", .ascii ":method" "DELETE", .ascii ":method" "GET",
    .ascii ":method" "HEAD", .ascii ":method" "OPTIONS", .ascii ":method" "POST",
    .ascii ":method" "PUT", .ascii ":scheme" "http", .ascii ":scheme" "https",
    .ascii ":status" "103", .ascii ":status" "200", .ascii ":status" "304",
    .ascii ":status" "404", .ascii ":status" "503", .ascii "accept" "*/*",
    .ascii "accept" "application/dns-message", .ascii "accept-encoding" "gzip, deflate, br",
    .ascii "accept-ranges" "bytes", .ascii "access-control-allow-headers" "cache-control",
    .ascii "access-control-allow-headers" "content-type",
    .ascii "access-control-allow-origin" "*", .ascii "cache-control" "max-age=0",
    .ascii "cache-control" "max-age=2592000", .ascii "cache-control" "max-age=604800",
    .ascii "cache-control" "no-cache", .ascii "cache-control" "no-store",
    .ascii "cache-control" "public, max-age=31536000", .ascii "content-encoding" "br",
    .ascii "content-encoding" "gzip", .ascii "content-type" "application/dns-message",
    .ascii "content-type" "application/javascript", .ascii "content-type" "application/json",
    .ascii "content-type" "application/x-www-form-urlencoded", .ascii "content-type" "image/gif",
    .ascii "content-type" "image/jpeg", .ascii "content-type" "image/png",
    .ascii "content-type" "text/css", .ascii "content-type" "text/html;charset=utf-8",
    .ascii "content-type" "text/plain", .ascii "content-type" "text/plain;charset=utf-8",
    .ascii "range" "bytes=0-", .ascii "strict-transport-security" "max-age=31536000",
    .ascii "strict-transport-security" "max-age=31536000;includesubdomains",
    .ascii "strict-transport-security" "max-age=31536000;includesubdomains;preload",
    .ascii "vary" "accept-encoding", .ascii "vary" "origin",
    .ascii "x-content-type-options" "nosniff", .ascii "x-xss-protection" "1; mode=block",
    .ascii ":status" "100", .ascii ":status" "204", .ascii ":status" "206",
    .ascii ":status" "302", .ascii ":status" "400", .ascii ":status" "403",
    .ascii ":status" "421", .ascii ":status" "425", .ascii ":status" "500",
    .ascii "accept-language" "", .ascii "access-control-allow-credentials" "FALSE",
    .ascii "access-control-allow-credentials" "TRUE", .ascii "access-control-allow-headers" "*",
    .ascii "access-control-allow-methods" "get",
    .ascii "access-control-allow-methods" "get, post, options",
    .ascii "access-control-allow-methods" "options",
    .ascii "access-control-expose-headers" "content-length",
    .ascii "access-control-request-headers" "content-type",
    .ascii "access-control-request-method" "get", .ascii "access-control-request-method" "post",
    .ascii "alt-svc" "clear", .ascii "authorization" "",
    .ascii "content-security-policy" "script-src 'none';object-src 'none';base-uri 'none'",
    .ascii "early-data" "1", .ascii "expect-ct" "", .ascii "forwarded" "", .ascii "if-range" "",
    .ascii "origin" "", .ascii "purpose" "prefetch", .ascii "server" "",
    .ascii "timing-allow-origin" "*", .ascii "upgrade-insecure-requests" "1",
    .ascii "user-agent" "", .ascii "x-forwarded-for" "", .ascii "x-frame-options" "deny",
    .ascii "x-frame-options" "sameorigin"]

theorem length_QPACK_STATIC : QPACK_STATIC.length = 99 := by decide

/-- `QPACK_STATUS_NAME_IDX`. -/
def QPACK_STATUS_NAME_IDX : Nat := 24

/-! ### Decoding

A section is a prefix of two integers and field lines, all of them without the dynamic
table. -/

/-- `qpack_read_string`: the string at `pos` and the position behind it. The Huffman bit
stands at a different place in each representation, so the caller passes it. -/
def qpackReadString (block : Bytes) (pos : Nat) (huff : Bool) (prefixBits maxOut : Nat) :
    Except Fail (Bytes × Nat) :=
  match zhpIntDecode (block.drop pos) prefixBits with
  | .error e => .error e
  | .ok (c, slen) =>
    let pos := pos + c
    if slen > block.length - pos then zcioFail .protocol "qpack: string exceeds block"
    else
      let s := (block.drop pos).take slen
      let pos := pos + slen
      if huff then
        match zhpHuffDecode s maxOut with
        | .error e => .error e
        | .ok out => .ok (out, pos)
      else if slen > maxOut then zcioFail .protocol "qpack: string exceeds limit"
      else .ok (s, pos)

/-- The literal value at `pos` that ends a field line. -/
def qpackValue (block : Bytes) (pos maxOut : Nat) : Except Fail (Bytes × Nat) :=
  if pos ≥ block.length then zcioFail .protocol "qpack: truncated literal value"
  else qpackReadString block pos (block.getD pos 0 &&& 0x80 != 0) 7 maxOut

/-- The field line at `pos`, and the position behind it: the branches at the top of the
loop of `zqp_decode_`. -/
def qpackLine (block : Bytes) (pos maxOut : Nat) : Except Fail (Field × Nat) :=
  let b := block.getD pos 0
  if b &&& 0x80 ≠ 0 then
    if b &&& 0x40 = 0 then zcioFail .protocol "qpack: dynamic indexed line"
    else
      match zhpIntDecode (block.drop pos) 6 with
      | .error e => .error e
      | .ok (c, idx) =>
        match QPACK_STATIC[idx]? with
        | none => zcioFail .protocol "qpack: static index out of range"
        | some f => .ok (f, pos + c)
  else if b &&& 0x40 ≠ 0 then
    if b &&& 0x10 = 0 then zcioFail .protocol "qpack: dynamic name ref"
    else
      match zhpIntDecode (block.drop pos) 4 with
      | .error e => .error e
      | .ok (c, idx) =>
        match QPACK_STATIC[idx]? with
        | none => zcioFail .protocol "qpack: static name index out of range"
        | some f =>
          match qpackValue block (pos + c) maxOut with
          | .error e => .error e
          | .ok (vl, pos) => .ok (⟨f.name, vl⟩, pos)
  else if b &&& 0x20 ≠ 0 then
    match qpackReadString block pos (b &&& 0x08 != 0) 3 maxOut with
    | .error e => .error e
    | .ok (nm, pos) =>
      match qpackValue block pos maxOut with
      | .error e => .error e
      | .ok (vl, pos) => .ok (⟨nm, vl⟩, pos)
  else if b &&& 0x10 ≠ 0 then zcioFail .protocol "qpack: post-base indexed line"
  else zcioFail .protocol "qpack: post-base name ref"

/-- The encoded field section prefix: the position behind it. -/
def qpackSectionStart (block : Bytes) : Except Fail Nat :=
  match zhpIntDecode block 8 with
  | .error e => .error e
  | .ok (c, ric) =>
    if ric ≠ 0 then zcioFail .protocol "qpack: nonzero required insert count"
    else if c ≥ block.length then zcioFail .protocol "qpack: truncated field section prefix"
    else
      -- the sign bit of the delta base is ignored
      match zhpIntDecode (block.drop c) 7 with
      | .error e => .error e
      | .ok (c', _) => .ok (c + c')

section

variable {σ : Type}

/-- The loop variables of `zqp_decode_`. -/
structure QpDecodeSt (σ : Type) where
  pos : Nat
  decoded : Nat := 0
  u : σ

/-- One round of `zqp_decode_`. -/
def zqpDecodeRound (block : Bytes) (maxDecoded : Nat) (emit : EmitFn σ) (s : QpDecodeSt σ) :
    QpDecodeSt σ ⊕ (DecodeRc × σ) :=
  if s.pos < block.length then
    match qpackLine block s.pos maxDecoded with
    | .error e => .inr (.fail e, s.u)
    | .ok (f, pos) =>
      if f.name.length > maxDecoded - s.decoded ∨
          f.value.length > maxDecoded - s.decoded - f.name.length then
        .inr (.fail ⟨.protocol, "qpack: header list too large"⟩, s.u)
      else
        let er := emit s.u f.name f.value
        if er.2 ≠ 0 then .inr (.stopped er.2, er.1)
        else .inl { pos, decoded := s.decoded + (f.name.length + f.value.length), u := er.1 }
  else .inr (.ok, s.u)

theorem qpackReadString_gt {block : Bytes} {pos n maxOut pos' : Nat} {huff : Bool} {s : Bytes}
    (h : qpackReadString block pos huff n maxOut = .ok (s, pos')) : pos < pos' := by
  unfold qpackReadString at h
  split at h
  · cases h
  · rename_i c slen hint
    have hc := zhpIntDecode_pos hint
    dsimp only at h
    split at h
    · cases h
    · split at h
      · split at h
        · cases h
        · cases h; omega
      · split at h
        · cases h
        · cases h; omega

theorem qpackValue_gt {block : Bytes} {pos maxOut pos' : Nat} {s : Bytes}
    (h : qpackValue block pos maxOut = .ok (s, pos')) : pos < pos' := by
  unfold qpackValue at h
  split at h
  · cases h
  · exact qpackReadString_gt h

theorem qpackLine_gt {block : Bytes} {pos maxOut pos' : Nat} {f : Field}
    (h : qpackLine block pos maxOut = .ok (f, pos')) : pos < pos' := by
  unfold qpackLine at h
  dsimp only at h
  split at h
  · -- an indexed line
    split at h
    · cases h
    · split at h
      · cases h
      · rename_i c idx hint
        have hc := zhpIntDecode_pos hint
        split at h
        · cases h
        · cases h; omega
  · split at h
    · -- a name reference
      split at h
      · cases h
      · split at h
        · cases h
        · rename_i c idx hint
          have hc := zhpIntDecode_pos hint
          split at h
          · cases h
          · split at h
            · cases h
            · rename_i vl pos1 hval
              have := qpackValue_gt hval
              cases h
              omega
    · split at h
      · -- a literal name
        split at h
        · cases h
        · rename_i nm pos1 hname
          have hpos1 := qpackReadString_gt hname
          split at h
          · cases h
          · rename_i vl pos2 hval
            have := qpackValue_gt hval
            cases h
            omega
      · split at h
        · cases h
        · cases h

theorem zqpDecodeRound_decreases (block : Bytes) (maxDecoded : Nat) (emit : EmitFn σ) :
    Lib.Decreases (zqpDecodeRound block maxDecoded emit) fun s => block.length - s.pos := by
  intro s s' h
  unfold zqpDecodeRound at h
  split at h
  · split at h
    · cases h
    · rename_i f pos hline
      have := qpackLine_gt hline
      split at h
      · cases h
      · dsimp only at h
        split at h
        · cases h
        · cases h
          dsimp only
          omega
  · cases h

/-- `zqp_decode_`: decode one complete field section. -/
def zqpDecode (block : Bytes) (maxDecoded : Nat) (emit : EmitFn σ) (u : σ) : DecodeRc × σ :=
  match qpackSectionStart block with
  | .error e => (.fail e, u)
  | .ok pos =>
    Lib.loop (zqpDecodeRound block maxDecoded emit) _
      (zqpDecodeRound_decreases block maxDecoded emit) { pos, u }

/-- **What every emit keeps, the decoder keeps.** -/
theorem zqpDecode_sink {I : σ → Prop} {emit : EmitFn σ}
    (hemit : ∀ u name value, I u → I (emit u name value).1) (block : Bytes) (maxDecoded : Nat)
    {u : σ} (hu : I u) : I (zqpDecode block maxDecoded emit u).2 := by
  unfold zqpDecode
  split
  · exact hu
  · refine Lib.loop_inv (zqpDecodeRound_decreases block maxDecoded emit) (I := fun s => I s.u)
      (Q := fun r => I r.2) ?_ ?_ hu
    · intro s s' hs hb
      unfold zqpDecodeRound at hb
      split at hb
      · split at hb
        · cases hb
        · split at hb
          · cases hb
          · dsimp only at hb
            split at hb
            · cases hb
            · cases hb
              exact hemit _ _ _ hs
      · cases hb
    · intro s r hs hb
      unfold zqpDecodeRound at hb
      split at hb
      · split at hb
        · cases hb
          exact hs
        · split at hb
          · cases hb
            exact hs
          · dsimp only at hb
            split at hb
            · cases hb
              exact hemit _ _ _ hs
            · cases hb
      · cases hb
        exact hs

end

/-! ### Encoding

Names from the static table where it has them, raw strings for the rest. -/

/-- `qpack_static_name_index`: the first static index of that name. -/
def qpackStaticNameIndex (name : Bytes) : Option Nat :=
  QPACK_STATIC.findIdx? fun f => ciEq f.name name

/-- `qpack_raw_string`. -/
def qpackRawString (s : Bytes) : Bytes := zhpIntEncode 7 0x00 s.length ++ s

/-- `zqp_prefix_encode_`. -/
def zqpPrefixEncode : Bytes := [0x00, 0x00]

/-- `zqp_encode_`. -/
def zqpEncode (name value : Bytes) : Bytes :=
  (match qpackStaticNameIndex name with
    | some idx => zhpIntEncode 4 0x50 idx
    | none => zhpIntEncode 3 0x20 name.length ++ name) ++ qpackRawString value

/-- The static entry that holds the whole status field, if there is one. -/
def qpackStatusIndex : Nat → Option Nat
  | 100 => some 63
  | 103 => some 24
  | 200 => some 25
  | 204 => some 64
  | 206 => some 65
  | 302 => some 66
  | 304 => some 26
  | 400 => some 67
  | 403 => some 68
  | 404 => some 27
  | 421 => some 69
  | 425 => some 70
  | 500 => some 71
  | 503 => some 28
  | _ => none

/-- `zqp_encode_status_`. -/
def zqpEncodeStatus (status : Nat) : Bytes :=
  match qpackStatusIndex status with
  | some idx => zhpIntEncode 6 0xC0 idx
  | none => zhpIntEncode 4 0x50 QPACK_STATUS_NAME_IDX ++ qpackRawString (decimal status)

/-- The full status entries of the static table are the ones the encoder points at. -/
theorem qpackStatusIndex_static :
    ∀ p ∈ [100, 103, 200, 204, 206, 302, 304, 400, 403, 404, 421, 425, 500, 503],
      ((qpackStatusIndex p).bind fun i => QPACK_STATIC[i]?) = some ⟨str ":status", decimal p⟩ := by
  decide +kernel

end Zcio
