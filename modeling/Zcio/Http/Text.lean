import Mathlib.Data.List.DropRight
import Zcio.HttpUtil.Target

/-!
# Zcio.Http.Text

How `http.c` and `ws.c` read text: the numbers of the C library (`strtol` and its relatives, in
the C locale), `strstr`, the search for the end of a header block and the lookup of a header.

A text that the source walks with a pointer is the list of octets from that pointer to the end
of the buffer.
-/

namespace Zcio

/-! ### Numbers

The C library's conversions, with the characters they skip and the point where they stop. -/

/-- `isspace`. -/
def isSpace (c : UInt8) : Bool := c == 32 || (9 ≤ c && c ≤ 13)

/-- The value of a digit or letter. -/
def digitVal (c : UInt8) : Option Nat :=
  if 48 ≤ c ∧ c ≤ 57 then some (c.toNat - 48)
  else if 97 ≤ c ∧ c ≤ 122 then some (c.toNat - 97 + 10)
  else if 65 ≤ c ∧ c ≤ 90 then some (c.toNat - 65 + 10)
  else none

/-- A digit of the base. -/
def isDigitOf (base : Nat) (c : UInt8) : Bool := (digitVal c).any fun d => decide (d < base)

/-- The number a string of digits stands for. -/
def digitsVal (base : Nat) (s : Bytes) : Nat :=
  s.foldl (fun v c => v * base + (digitVal c).getD 0) 0

/-- What a conversion reads: the sign, the magnitude and where it stops. -/
structure StrtoNum where
  neg : Bool
  magnitude : Nat
  stop : Nat
  deriving Repr, DecidableEq

/-- The octets of a sign. -/
def signLength : Bytes → Nat
  | 45 :: _ => 1
  | 43 :: _ => 1
  | _ => 0

/-- The octets of the `0x` that base 16 allows in front of a digit. -/
def leadLength (base : Nat) : Bytes → Nat
  | 48 :: x :: d :: _ => if base = 16 ∧ tolower x = 120 ∧ isDigitOf 16 d then 2 else 0
  | _ => 0

/-- The subject sequence of `strtol` and `strtoull`: whitespace, a sign, for base 16 `0x`, and
digits; `none` without digits. -/
def strtoNum (base : Nat) (s : Bytes) : Option StrtoNum :=
  let blank := (s.takeWhile isSpace).length
  let signed := s.drop blank
  let t := signed.drop (signLength signed)
  let lead := leadLength base t
  let digits := (t.drop lead).takeWhile (isDigitOf base)
  if digits = [] then none
  else some ⟨signed.head? = some 45, digitsVal base digits,
    blank + signLength signed + lead + digits.length⟩

/-- `ULLONG_MAX`. -/
def ULLONG_MAX : Nat := 2 ^ 64 - 1

/-- `strtoull(p, &stop, 16)`: the value and how far it read. -/
def strtoull16 (s : Bytes) : Option (Nat × Nat) :=
  (strtoNum 16 s).map fun r =>
    (if r.magnitude > ULLONG_MAX then ULLONG_MAX
      else if r.neg then (2 ^ 64 - r.magnitude) % 2 ^ 64 else r.magnitude, r.stop)

/-- The value of `strtol` and `strtoll`: what does not fit in 64 bits becomes the nearest. -/
def StrtoNum.long (r : StrtoNum) : Int :=
  if r.neg then max (-(r.magnitude : Int)) (-(2 ^ 63)) else min (r.magnitude : Int) (2 ^ 63 - 1)

/-- `atoll`. -/
def atoll (s : Bytes) : Int := ((strtoNum 10 s).map StrtoNum.long).getD 0

/-- `atoi`: the low 32 bits of `strtol`. -/
def atoi (s : Bytes) : Int := (atoll s).bmod (2 ^ 32)

/-! ### Searches -/

/-- `strstr(s, t) != NULL`. -/
def strstr (s t : Bytes) : Bool := s.tails.any t.isPrefixOf

/-- `strstr(s, t) - s`. -/
def strstrAt (s t : Bytes) : Option Nat := s.tails.findIdx? t.isPrefixOf

/-- The index of the first empty line: where `"\r\n\r\n"` begins. -/
def headEnd : Bytes → Option Nat
  | [] => none
  | c :: s => if [CR, LF, CR, LF].isPrefixOf (c :: s) then some 0 else (headEnd s).map (· + 1)

/-- The value of the header `key` on one line, without what there is to trim at its end. -/
def lineValue (trim : UInt8 → Bool) (key line : Bytes) : Option Bytes :=
  match memchr 58 line with
  | none => none
  | some colon =>
    if colon = key.length ∧ lower (line.take colon) = lower key then
      some (((line.drop (colon + 1)).dropWhile fun c => c == SP || c == HTAB).rdropWhile trim)
    else none

/-- `find_header_value` on one line. -/
def headerLineValue (key line : Bytes) : Option Bytes := lineValue (· == CR) key line

/-- `find_header_value`: the first line of the block that has the key decides. The result is a
C string. -/
def findHeaderValue (block key : Bytes) : Option Bytes :=
  ((block.splitOn LF).findSome? (headerLineValue key)).map cstr

end Zcio
