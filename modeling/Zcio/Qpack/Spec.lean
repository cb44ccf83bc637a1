import Zcio.Hpack.Huffman
import Zcio.Hpack.Spec

/-!
# Zcio.Qpack.Spec

A **static-only RFC 9204 decoder** on lists of octets: the field lines of a section are read
first, then they are looked up in the static table and counted against the cap. Integers are
those of `Zcio.Hpack.Spec`, at most four continuation octets and `2 ^ 24`.
-/

namespace Zcio.Qpack

open Hpack (int)

/-- The static table of RFC 9204 Appendix A. -/
def STATIC : List Field :=
  [.ascii ":authority" "", .ascii ":path" "/", .ascii "age" "0", .ascii "content-disposition" "",
    .ascii "content-length" "0", .ascii "cookie" "", .ascii "date" "", .ascii "etag" "",
    .ascii "if-modified-since" "", .ascii "if-none-match" "", .ascii "last-modified" "",
    .ascii "link" "", .ascii "location" "", .ascii "referer" "", .ascii "set-cookie" "",
    .ascii ":method" "CONNECT", .ascii ":method" "DELETE", .ascii ":method" "GET",
    .ascii ":method" "HEAD", .ascii ":method" "OPTIONS", .ascii ":method" "POST",
    .ascii ":method" "PUT", .ascii ":scheme" "http", .ascii ":scheme" "https",
    .ascii ":status" "103", .ascii ":status" "200", .ascii ":status" "304",
    .ascii ":status" "404", .ascii ":status" "503", .ascii "accept" "*/*",
    .ascii "accept" "application/dns-message", .ascii "accept-encoding" "gzip, deflate, br",
    .ascii "accept-ranges" "bytes", .ascii "access-control-allow-headers" "cache-control",
    .ascii "access-control-allow-headers" "content-type",
    .ascii "access-control-allow-origin" "*", .ascii "cache-control" "max-age=0",
    .ascii "cache-control" "max-age=2592000", .ascii "cache-control" "max-age=604800",
    .ascii "cache-control" "no-cache", .ascii "cache-control" "no-store",
    .ascii "cache-control" "public, max-age=31536000", .ascii "content-encoding" "br",
    .ascii "content-encoding" "gzip", .ascii "content-type" "application/dns-message",
    .ascii "content-type" "application/javascript", .ascii "content-type" "application/json",
    .ascii "content-type" "application/x-www-form-urlencoded", .ascii "content-type" "image/gif",
    .ascii "content-type" "image/jpeg", .ascii "content-type" "image/png",
    .ascii "content-type" "text/css", .ascii "content-type" "text/html; charset=utf-8",
    .ascii "content-type" "text/plain", .ascii "content-type" "text/plain;charset=utf-8",
    .ascii "range" "bytes=0-", .ascii "strict-transport-security" "max-age=31536000",
    .ascii "strict-transport-security" "max-age=31536000; includesubdomains",
    .ascii "strict-transport-security" "max-age=31536000; includesubdomains; preload",
    .ascii "vary" "accept-encoding", .ascii "vary" "origin",
    .ascii "x-content-type-options" "nosniff", .ascii "x-xss-protection" "1; mode=block",
    .ascii ":status" "100", .ascii ":status" "204", .ascii ":status" "206",
    .ascii ":status" "302", .ascii ":status" "400", .ascii ":status" "403",
    .ascii ":status" "421", .ascii ":status" "425", .ascii ":status" "500",
    .ascii "accept-language" "", .ascii "access-control-allow-credentials" "FALSE",
    .ascii "access-control-allow-credentials" "TRUE", .ascii "access-control-allow-headers" "*",
    .ascii "access-control-allow-methods" "get",
    .ascii "access-control-allow-methods" "get, post, options",
    .ascii "access-control-allow-methods" "options",
    .ascii "access-control-expose-headers" "content-length",
    .ascii "access-control-request-headers" "content-type",
    .ascii "access-control-request-method" "get", .ascii "access-control-request-method" "post",
    .ascii "alt-svc" "clear", .ascii "authorization" "",
    .ascii "content-security-policy" "script-src 'none'; object-src 'none'; base-uri 'none'",
    .ascii "early-data" "1", .ascii "expect-ct" "", .ascii "forwarded" "", .ascii "if-range" "",
    .ascii "origin" "", .ascii "purpose" "prefetch", .ascii "server" "",
    .ascii "timing-allow-origin" "*", .ascii "upgrade-insecure-requests" "1",
    .ascii "user-agent" "", .ascii "x-forwarded-for" "", .ascii "x-frame-options" "deny",
    .ascii "x-frame-options" "sameorigin"]

/-! ### Field lines

RFC 9204 4.5.2 to 4.5.6, on a list of octets. -/

/-- A field line without a reference to the dynamic table (section 4.5). -/
inductive Line where
  /-- An indexed field line. -/
  | indexed (i : Nat)
  /-- A literal field line with a name reference. -/
  | named (i : Nat) (value : Bytes)
  /-- A literal field line with a literal name. -/
  | literal (name value : Bytes)
  deriving Repr, DecidableEq

/-- A string whose length has an `n`-bit prefix, and what follows it. -/
def string (n : Nat) (huff : Bool) (bs : Bytes) : Option (Bytes × Bytes) :=
  match int n bs with
  | none => none
  | some (len, rest) =>
    if len ≤ rest.length then
      (if huff then rfcHuffDecode (rest.take len) else some (rest.take len)).map (·, rest.drop len)
    else none

/-- The value at the end of a literal. -/
def value (bs : Bytes) : Option (Bytes × Bytes) := string 7 ((bs.headD 0).toNat.testBit 7) bs

/-- The field line a section goes on with, and what follows it; `none` for a dynamic or post-base
reference and for a line that is not well formed. -/
def line (bs : Bytes) : Option (Line × Bytes) :=
  let bit := (bs.headD 0).toNat.testBit
  if bit 7 then
    if bit 6 then (int 6 bs).map fun r => (.indexed r.1, r.2) else none
  else if bit 6 then
    if bit 4 then (int 4 bs).bind fun i => (value i.2).map fun v => (.named i.1 v.1, v.2) else none
  else if bit 5 then
    (string 3 (bit 3) bs).bind fun n => (value n.2).map fun v => (.literal n.1 v.1, v.2)
  else none

/-- The field lines at the front of a section, and whether they are all of it; every line takes
one of the `n` steps. -/
def linesFrom : Nat → Bytes → List Line × Bool
  | 0, bs => ([], bs.isEmpty)
  | n + 1, bs =>
    if bs.isEmpty then ([], true)
    else
      match line bs with
      | none => ([], false)
      | some (l, rest) => (l :: (linesFrom n rest).1, (linesFrom n rest).2)

/-! ### Sections

The prefix and the lines, and the fields they give with a table. -/

/-- The octets behind the prefix of a section (section 4.5.1): the required insert count is zero
and the base is not negative. -/
def sectionStart (block : Bytes) : Option Bytes :=
  match int 8 block with
  | none => none
  | some (ric, rest) =>
    if ric ≠ 0 ∨ (rest.headD 0).toNat.testBit 7 then none else (int 7 rest).map Prod.snd

/-- The field lines of a section, up to the first that is not well formed. -/
def lines (block : Bytes) : List Line :=
  match sectionStart block with
  | none => []
  | some bs => (linesFrom bs.length bs).1

/-- The field of a line. -/
def Line.field (table : List Field) : Line → Option Field
  | .indexed i => table[i]?
  | .named i value => table[i]?.map fun f => ⟨f.name, value⟩
  | .literal name value => some ⟨name, value⟩

/-- The fields of the lines as long as they are within `room` octets, and whether these are
all. -/
def fields (table : List Field) : Nat → List Line → List Field × Bool
  | _, [] => ([], true)
  | room, l :: ls =>
    match l.field table with
    | none => ([], false)
    | some f =>
      let size := f.name.length + f.value.length
      if size ≤ room then
        (f :: (fields table (room - size) ls).1, (fields table (room - size) ls).2)
      else ([], false)

/-- The outcome of a section: whether it was accepted, and the fields in front of an error. -/
structure Res where
  ok : Bool
  fields : List Field
  deriving Repr, DecidableEq

/-- The lines of a section against a table and a cap. -/
def decodeLines (table : List Field) (cap : Nat) (bs : Bytes) : Res :=
  let ls := linesFrom bs.length bs
  let fs := Qpack.fields table cap ls.1
  ⟨fs.2 && ls.2, fs.1⟩

/-- **The specification decoder**: one field section. -/
def decode (table : List Field) (cap : Nat) (block : Bytes) : Res :=
  match sectionStart block with
  | none => ⟨false, []⟩
  | some bs => decodeLines table cap bs

/-- The fields of a section, whatever their size; `none` if it is not well formed. -/
def sectionFields (table : List Field) (block : Bytes) : Option (List Field) :=
  (sectionStart block).bind fun bs =>
    let ls := linesFrom bs.length bs
    if ls.2 then ls.1.mapM (Line.field table) else none

end Zcio.Qpack
