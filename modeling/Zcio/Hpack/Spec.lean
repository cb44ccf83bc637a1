import Zcio.Lib.Fifo
import Zcio.Hpack.Huffman

/-!
# Zcio.Hpack.Spec

A **list-based RFC 7541 decoder**: what the decoder of `hpack.c` is for. It reads the
block as a list of octets from the front, and its dynamic table is the bounded
newest-first FIFO of `Zcio.Lib.Fifo`.

`cap` bounds the decoded size of a header list; `none` is a decoder without that bound. The static
table and the Huffman code (`rfcHuffDecode`) are those of Appendix A and Appendix B, written down apart
from the ones of the source.
-/

namespace Zcio.Hpack

/-! ### The static table

RFC 7541 Appendix A. -/

/-- The static table of RFC 7541 Appendix A. -/
def STATIC : List Field :=
  [.ascii ":authority" "", .ascii ":method" "GET", .ascii ":method" "POST", .ascii ":path" "/",
    .ascii ":path" "/index.html", .ascii ":scheme" "http", .ascii ":scheme" "https", .ascii ":status" "200",
    .ascii ":status" "204", .ascii ":status" "206", .ascii ":status" "304", .ascii ":status" "400",
    .ascii ":status" "404", .ascii ":status" "500", .ascii "accept-charset" "",
    .ascii "accept-encoding" "gzip, deflate", .ascii "accept-language" "", .ascii "accept-ranges" "",
    .ascii "accept" "", .ascii "access-control-allow-origin" "", .ascii "age" "", .ascii "allow" "",
    .ascii "authorization" "", .ascii "cache-control" "", .ascii "content-disposition" "",
    .ascii "content-encoding" "", .ascii "content-language" "", .ascii "content-length" "",
    .ascii "content-location" "", .ascii "content-range" "", .ascii "content-type" "", .ascii "cookie" "",
    .ascii "date" "", .ascii "etag" "", .ascii "expect" "", .ascii "expires" "", .ascii "from" "",
    .ascii "host" "", .ascii "if-match" "", .ascii "if-modified-since" "", .ascii "if-none-match" "",
    .ascii "if-range" "", .ascii "if-unmodified-since" "", .ascii "last-modified" "", .ascii "link" "",
    .ascii "location" "", .ascii "max-forwards" "", .ascii "proxy-authenticate" "",
    .ascii "proxy-authorization" "", .ascii "range" "", .ascii "referer" "", .ascii "refresh" "",
    .ascii "retry-after" "", .ascii "server" "", .ascii "set-cookie" "",
    .ascii "strict-transport-security" "", .ascii "transfer-encoding" "", .ascii "user-agent" "",
    .ascii "vary" "", .ascii "via" "", .ascii "www-authenticate" ""]

/-! ### The dynamic table

Newest first, with the size of RFC 7541 4.1. -/

/-- The dynamic table: its current maximum size and its entries, newest first. -/
structure Table where
  max : Nat
  entries : List Field := []
  deriving Repr, DecidableEq

namespace Table

/-- Insert a newest entry (RFC 7541 section 4.4). -/
def add (t : Table) (f : Field) : Table :=
  { t with entries := Lib.Fifo.push Field.cost t.max f t.entries }

/-- Change the maximum size (section 4.3). -/
def resize (t : Table) (n : Nat) : Table :=
  { max := n, entries := Lib.Fifo.evict Field.cost n t.entries }

/-- The field an index stands for (section 2.3.3): the static table, then the dynamic one. -/
def find (t : Table) (i : Nat) : Option Field :=
  if i = 0 then none
  else if i ≤ STATIC.length then STATIC[i - 1]?
  else t.entries[i - STATIC.length - 1]?

end Table

/-! ### Integers and strings -/

/-- The value of continuation octets, least significant first (section 5.1). -/
def leb : Bytes → Nat
  | [] => 0
  | b :: bs => b.toNat % 128 + 128 * leb bs

/-- An integer with an `n`-bit prefix, and what follows it: at most four continuation
octets and a value of at most `2 ^ 24`. -/
def int (n : Nat) : Bytes → Option (Nat × Bytes)
  | [] => none
  | b :: bs =>
    let v := b.toNat % 2 ^ n
    if v < 2 ^ n - 1 then some (v, bs)
    else
      let more := bs.takeWhile fun o => decide (128 ≤ o)
      match bs.drop more.length with
      | [] => none
      | last :: rest =>
        let total := v + leb (more ++ [last])
        if more.length + 1 ≤ 4 ∧ total ≤ 2 ^ 24 then some (total, rest) else none

/-- `n` octets are within the bound. -/
def within (cap : Option Nat) (n : Nat) : Bool := cap.all fun c => decide (n ≤ c)

/-- A string literal (section 5.2), and what follows it. -/
def string (cap : Option Nat) (bs : Bytes) : Option (Bytes × Bytes) :=
  match int 7 bs with
  | none => none
  | some (n, rest) =>
    if n ≤ rest.length then
      if 128 ≤ bs.headD 0 then
        ((rfcHuffDecode (rest.take n)).filter fun s => within cap s.length).map (·, rest.drop n)
      else if within cap n then some (rest.take n, rest.drop n)
      else none
    else none

/-! ### Field representations

RFC 7541 6, on a list of octets. -/

/-- A literal field (section 6.2) whose name index has an `n`-bit prefix. -/
def literal (cap : Option Nat) (t : Table) (n : Nat) (bs : Bytes) : Option (Field × Bytes) :=
  match int n bs with
  | none => none
  | some (i, rest) =>
    match if i = 0 then string cap rest else (t.find i).map fun f => (f.name, rest) with
    | none => none
    | some (name, rest) =>
      match string cap rest with
      | none => none
      | some (value, rest) => some (⟨name, value⟩, rest)

/-- The representation a block starts with (section 6), and what follows it. -/
def rep (cap : Option Nat) (t : Table) (bs : Bytes) : Option (HpackRep × Bytes) :=
  let b := bs.headD 0
  if 128 ≤ b then
    match int 7 bs with
    | none => none
    | some (i, rest) => (t.find i).map fun f => (.field f false, rest)
  else if 64 ≤ b then (literal cap t 6 bs).map fun r => (.field r.1 true, r.2)
  else if 32 ≤ b then (int 5 bs).map fun r => (.resize r.1, r.2)
  else (literal cap t 4 bs).map fun r => (.field r.1 false, r.2)

/-! ### Header blocks -/

/-- Where a decoder stands inside a block. -/
structure St where
  bs : Bytes
  decoded : Nat := 0
  seenField : Bool := false
  table : Table
  fields : List Field := []
  deriving Repr, DecidableEq

/-- The outcome of a block: whether it was well-formed, the fields emitted and the table,
both up to the first error. -/
structure Res where
  ok : Bool
  fields : List Field
  table : Table
  deriving Repr, DecidableEq

/-- One representation of a block: a size update only before the first field and to at
most 4096, a field only within the bound. -/
def round (cap : Option Nat) (s : St) : St ⊕ Res :=
  if s.bs = [] then .inr ⟨true, s.fields, s.table⟩
  else
    match rep cap s.table s.bs with
    | none => .inr ⟨false, s.fields, s.table⟩
    | some (.resize n, bs) =>
      if s.seenField ∨ n > 4096 then .inr ⟨false, s.fields, s.table⟩
      else .inl { s with bs, table := s.table.resize n }
    | some (.field f add, bs) =>
      let decoded := s.decoded + (f.name.length + f.value.length)
      if within cap decoded then
        .inl { bs, decoded, seenField := true, fields := s.fields ++ [f]
               table := if add then s.table.add f else s.table }
      else .inr ⟨false, s.fields, s.table⟩

/-! ### Progress

Every reader takes an octet at least. -/

theorem int_lt {n : Nat} {bs : Bytes} {v : Nat} {rest : Bytes} (h : int n bs = some (v, rest)) :
    rest.length < bs.length := by
  unfold int at h
  split at h
  · cases h
  · rename_i b bs
    dsimp only at h
    split at h
    · cases h; simp
    · split at h
      · cases h
      · rename_i last rest' hd
        split at h
        · cases h
          have := congrArg List.length hd
          simp only [List.length_drop, List.length_cons] at this ⊢
          omega
        · cases h

theorem string_lt {cap : Option Nat} {bs s rest : Bytes}
    (h : string cap bs = some (s, rest)) : rest.length < bs.length := by
  unfold string at h
  split at h
  · cases h
  · rename_i n r hint
    have := int_lt hint
    split at h
    · split at h
      · obtain ⟨_, _, h⟩ := Option.map_eq_some_iff.mp h
        cases h
        simp only [List.length_drop]
        omega
      · split at h
        · cases h
          simp only [List.length_drop]
          omega
        · cases h
    · cases h

theorem literal_lt {cap : Option Nat} {t : Table} {n : Nat} {bs : Bytes} {f : Field}
    {rest : Bytes} (h : literal cap t n bs = some (f, rest)) : rest.length < bs.length := by
  unfold literal at h
  split at h
  · cases h
  · rename_i i r hint
    have hr := int_lt hint
    split at h
    · cases h
    · rename_i name r' hname
      have hr' : r'.length ≤ r.length := by
        split at hname
        · exact Nat.le_of_lt (string_lt hname)
        · obtain ⟨_, _, hname⟩ := Option.map_eq_some_iff.mp hname
          cases hname
          exact le_refl _
      split at h
      · cases h
      · rename_i value r'' hval
        have := string_lt hval
        cases h
        omega

theorem rep_lt {cap : Option Nat} {t : Table} {bs : Bytes} {r : HpackRep} {rest : Bytes}
    (h : rep cap t bs = some (r, rest)) : rest.length < bs.length := by
  unfold rep at h
  dsimp only at h
  split at h
  · split at h
    · cases h
    · rename_i i r' hint
      obtain ⟨_, _, h⟩ := Option.map_eq_some_iff.mp h
      cases h
      exact int_lt hint
  · split at h
    · obtain ⟨_, hl, h⟩ := Option.map_eq_some_iff.mp h
      cases h
      exact literal_lt hl
    · split at h
      · obtain ⟨_, hl, h⟩ := Option.map_eq_some_iff.mp h
        cases h
        exact int_lt hl
      · obtain ⟨_, hl, h⟩ := Option.map_eq_some_iff.mp h
        cases h
        exact literal_lt hl

theorem round_decreases (cap : Option Nat) : Lib.Decreases (round cap) fun s => s.bs.length := by
  intro s s' h
  unfold round at h
  split at h
  · cases h
  · split at h
    · cases h
    · rename_i n bs hrep
      split at h
      · cases h
      · cases h
        exact rep_lt hrep
    · rename_i f add bs hrep
      dsimp only at h
      split at h
      · cases h
        exact rep_lt hrep
      · cases h

/-- Decode from the middle of a block. -/
def decodeFrom (cap : Option Nat) (s : St) : Res :=
  Lib.loop (round cap) _ (round_decreases cap) s

/-- **The specification decoder**: one complete header block. -/
def decode (cap : Option Nat) (t : Table) (block : Bytes) : Res :=
  decodeFrom cap { bs := block, table := t }

/-- The whole decoder life: blocks decoded in turn on one table. A failed block leaves
the table as far as it got. -/
def decodeAll (cap : Option Nat) (t : Table) (blocks : List Bytes) : Table :=
  blocks.foldl (fun t b => (decode cap t b).table) t

end Zcio.Hpack
