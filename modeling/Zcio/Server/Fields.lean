import Zcio.Hpack.Encode
import Zcio.Server.Request

/-!
# Zcio.Server.Fields

A field section as a request, which HTTP/2 and HTTP/3 have in common: the values of its
pseudo-header fields, and its regular fields in order. Both sinks of the decoders collect them one
field after the other, so what is said here about a section is said about its last field.
-/

namespace Zcio

/-- A pseudo-header field: its name begins with a colon. -/
def Field.isPseudo (f : Field) : Bool := f.name.head? == some 58

/-- The value of the first field of that name. -/
def fieldValue (name : Bytes) (fs : List Field) : Option Bytes :=
  (fs.find? fun f => f.name == name).map (·.value)

/-- The regular fields, in order. -/
def regularFields (fs : List Field) : List (Bytes × Bytes) :=
  (fs.filter fun f => !f.isPseudo).map fun f => (f.name, f.value)

/-- **The request that a field section is.** -/
def sectionRaw (fs : List Field) : RawReq where
  method := (fieldValue (str ":method") fs).getD []
  target := (fieldValue (str ":path") fs).getD []
  authority := fieldValue (str ":authority") fs
  fields := regularFields fs

/-- What a header is accounted with. -/
def fieldCost (f : Bytes × Bytes) : Nat := f.1.length + f.2.length + 32

/-! ### One more field -/

theorem fieldValue_concat (name : Bytes) (fs : List Field) (f : Field) :
    fieldValue name (fs ++ [f]) =
      (fieldValue name fs).or (if f.name = name then some f.value else none) := by
  rw [fieldValue, List.find?_append, Option.map_or, fieldValue, List.find?_singleton]
  by_cases h : f.name = name
  · rw [if_pos h, if_pos (beq_iff_eq.mpr h)]
    rfl
  · rw [if_neg h, if_neg (fun hb => h (beq_iff_eq.mp hb))]
    rfl

theorem fieldValue_eq_none {name : Bytes} {fs : List Field} :
    fieldValue name fs = none ↔ ∀ f ∈ fs, f.name ≠ name := by
  rw [fieldValue, Option.map_eq_none_iff, List.find?_eq_none]
  simp only [beq_iff_eq, ne_eq]

/-- A field of another name is none of these. -/
theorem fieldValue_concat_ne {name : Bytes} {f : Field} (h : f.name ≠ name) (fs : List Field) :
    fieldValue name (fs ++ [f]) = fieldValue name fs := by
  rw [fieldValue_concat, if_neg h, Option.or_none]

/-- The first field of a name. -/
theorem fieldValue_concat_new {fs : List Field} {f : Field} (h : fieldValue f.name fs = none) :
    fieldValue f.name (fs ++ [f]) = some f.value := by
  rw [fieldValue_concat, h, if_pos rfl, Option.none_or]

theorem regularFields_concat (fs : List Field) (f : Field) :
    regularFields (fs ++ [f]) = regularFields fs ++ if f.isPseudo then [] else [(f.name, f.value)] := by
  rw [regularFields, List.filter_append, List.map_append, regularFields]
  congr 1
  cases h : f.isPseudo with
  | true => simp [h]
  | false => simp [h]

theorem any_regular_concat (fs : List Field) (f : Field) :
    (fs ++ [f]).any (fun f => !f.isPseudo) = (fs.any (fun f => !f.isPseudo) || !f.isPseudo) := by
  rw [List.any_append, List.any_cons, List.any_nil, Bool.or_false]

/-- A pseudo-header field has one of the names with a colon. -/
theorem isPseudo_iff {f : Field} : f.isPseudo = true ↔ f.name.head? = some 58 := beq_iff_eq

/-- Whatever the value of a regular field, it is not that of a pseudo-header field. -/
theorem ne_of_regular {f : Field} (h : f.isPseudo = false) {name : Bytes} (hname : name.head? = some 58) :
    f.name ≠ name := by
  rintro rfl
  rw [isPseudo_iff.mpr hname] at h
  cases h

theorem fieldsSize_append (fs fs' : List Field) : fieldsSize (fs ++ fs') = fieldsSize fs + fieldsSize fs' := by
  rw [fieldsSize, List.map_append, List.sum_append]
  rfl

end Zcio
