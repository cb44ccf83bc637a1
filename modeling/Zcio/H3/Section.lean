import Mathlib.Data.List.Forall2
import Zcio.H3.Body
import Zcio.HttpUtil.Segments
import Zcio.Lib.Uri
import Zcio.Qpack.Refine
import Zcio.Server.Fields

/-!
# Zcio.H3.Section

**Which field sections are taken for a request.** `H3Fields` are the rules of RFC 9114, sections 4.2
and 4.3, that `h3_decode_headers` checks, `H3Within` the limits of the server, and `H3Strict` the rules
that it leaves out. The sink takes a field exactly where the rules allow it behind the fields in front
of it (`h3Gather_spec`), and what it has collected by then is what the fields say, so that a section is
taken exactly by the rules (`h3DecodeHeaders_taken`).

The rules are stated twice: over the fields that the code reads, with its static table and whatever the
sign of the base (`H3SectionTaken`), and over those that RFC 9204 specifies (`H3SectionOk`). The four
values in which the tables differ change no verdict but that of a limit (`sameFields_sectionFields`).
-/

namespace Zcio

open Qpack (Line)

/-! ### The rules

What a field section has to keep to, in the terms of RFC 9114 4.2 and 4.3: names and values,
the order of pseudo fields, their multiplicity. `H3Strict` adds the rules on the values that
the code does not check. -/

/-- The pseudo-header fields of a request. -/
def requestPseudoNames : List Bytes := [str ":method", str ":path", str ":scheme", str ":authority"]

/-- A regular field that a request may have: its name is a token in lower case, its value has no
control octets, and it is not connection-specific (section 4.2). -/
structure H3Regular (f : Field) : Prop where
  name : zhsLowerTokenOk f.name = true
  value : zhsValueOk f.value = true
  connection : h3ConnSpecific f.name = false
  te : f.name = str "te" → f.value = str "trailers"

/-- **The fields of a request**, as far as the server checks them: each pseudo-header field is known,
comes once and in front of the regular ones and has a value. -/
structure H3Fields (fs : List Field) : Prop where
  ordered : fs.Pairwise fun f f' => f'.isPseudo = true → f.isPseudo = true
  once : fs.Pairwise fun f f' => f'.isPseudo = true → f.name ≠ f'.name
  known : ∀ f ∈ fs, f.isPseudo = true → f.name ∈ requestPseudoNames ∧ f.value ≠ [] ∧ zhsValueOk f.value = true
  regular : ∀ f ∈ fs, f.isPseudo = false → H3Regular f

/-- The pseudo-header fields that a request has to have. -/
def H3Present (fs : List Field) : Prop :=
  ∀ name ∈ [str ":method", str ":path", str ":scheme"], fieldValue name fs ≠ none

/-- Fields within the caps of the header list. -/
structure H3Capped (lim : ZhsLimits) (fs : List Field) : Prop where
  count : (regularFields fs).length ≤ lim.maxHeaders
  cost : ((regularFields fs).map fieldCost).sum ≤ ZhsHdrs.byteCap lim

/-- **The limits of the server**, and the targets that it serves. -/
structure H3Within (lim : ZhsLimits) (fs : List Field) : Prop extends H3Capped lim fs where
  size : fieldsSize fs ≤ lim.maxHeaderBytes
  target : ∀ t, fieldValue (str ":path") fs = some t → TargetServed t lim

/-- `scheme` of RFC 3986, section 3.1. -/
def isScheme : Bytes → Bool
  | [] => false
  | c :: s => Lib.Uri.isAlpha c && s.all fun c => Lib.Uri.isAlpha c || Lib.Uri.isDigit c || [43, 45, 46].contains c

/-- `absolute-path [ "?" query ]` of RFC 9110, section 4.1; the slash in front is left to `TargetOk`. -/
def isPathAndQuery (t : Bytes) : Bool :=
  let pchar (c : UInt8) := Lib.Uri.isUnreserved c || Lib.Uri.isSubDelim c || [58, 64, 47].contains c
  Lib.Uri.encoded pchar (rawPath t) && ((rawQuery t).all (Lib.Uri.encoded fun c => pchar c || c = 63))

/-- The value of the Host field. -/
def sectionHost (fs : List Field) : Option Bytes := fieldValue (str "host") fs

/-- **The rules of RFC 9114, section 4.3.1, that the server leaves out.** `CONNECT` has neither scheme nor
path and is none of its requests; `*` goes with `OPTIONS`. -/
structure H3Strict (fs : List Field) : Prop where
  method : ∀ m, fieldValue (str ":method") fs = some m → zhsTokenOk m = true ∧ m ≠ str "CONNECT"
  scheme : ∀ s, fieldValue (str ":scheme") fs = some s → isScheme s = true
  target : ∀ t, fieldValue (str ":path") fs = some t →
    t = [42] ∧ fieldValue (str ":method") fs = some (str "OPTIONS") ∨ isPathAndQuery t = true
  agree : ∀ a h, fieldValue (str ":authority") fs = some a → sectionHost fs = some h → h = a
  authority : ∀ s, fieldValue (str ":scheme") fs = some s → lower s ∈ [str "http", str "https"] →
    ∃ a host port, (fieldValue (str ":authority") fs).or (sectionHost fs) = some a ∧
      Lib.Uri.IsHostPort a host port ∧ host ≠ []

/-! ### One more field

The rules for a list with a field at its end, which is how the sink sees them. -/

/-- What a field needs behind these. -/
def H3Next (fs : List Field) (f : Field) : Prop :=
  if f.isPseudo then
    fs.any (fun f => !f.isPseudo) = false ∧ zhsValueOk f.value = true ∧ f.value ≠ [] ∧
      f.name ∈ requestPseudoNames ∧ fieldValue f.name fs = none
  else H3Regular f

theorem h3Fields_concat {fs : List Field} {f : Field} : H3Fields (fs ++ [f]) ↔ H3Fields fs ∧ H3Next fs f := by
  have hall : fs.any (fun f => !f.isPseudo) = false ↔ ∀ g ∈ fs, g.isPseudo = true := by
    simp
  constructor
  · -- each rule on all fields gives the rule on the last one against those before
    intro h
    obtain ⟨hordered, -, hlast⟩ := List.pairwise_append.mp h.ordered
    obtain ⟨honce, -, hnew⟩ := List.pairwise_append.mp h.once
    have hmem : ∀ g ∈ fs, g ∈ fs ++ [f] := fun g hg => List.mem_append_left _ hg
    have hf : f ∈ fs ++ [f] := List.mem_append_right _ (List.mem_singleton_self f)
    refine ⟨⟨hordered, honce, fun g hg => h.known g (hmem g hg), fun g hg => h.regular g (hmem g hg)⟩, ?_⟩
    rw [H3Next]
    split
    · rename_i hpseudo
      obtain ⟨hname, hvalue, hclean⟩ := h.known f hf hpseudo
      exact ⟨hall.mpr fun g hg => hlast g hg f (List.mem_singleton_self f) hpseudo, hclean, hvalue, hname,
        fieldValue_eq_none.mpr fun g hg => hnew g hg f (List.mem_singleton_self f) hpseudo⟩
    · rename_i hregular
      exact h.regular f hf (Bool.not_eq_true _ ▸ hregular)
  · -- and back, by the kind of the last field
    rintro ⟨h, hnext⟩
    rw [H3Next] at hnext
    cases hpseudo : f.isPseudo with
    -- a pseudo field has no regular field and no field of its name before it
    | true =>
      rw [if_pos hpseudo] at hnext
      obtain ⟨hfront, hclean, hvalue, hname, hnew⟩ := hnext
      refine ⟨List.pairwise_append.mpr ⟨h.ordered, List.pairwise_singleton _ f, fun g hg g' _ _ =>
          hall.mp hfront g hg⟩, List.pairwise_append.mpr ⟨h.once, List.pairwise_singleton _ f, fun g hg g' hg' _ => ?_⟩,
        fun g hg => ?_, fun g hg => ?_⟩
      · rw [List.mem_singleton.mp hg']
        exact fieldValue_eq_none.mp hnew g hg
      · rcases List.mem_append.mp hg with hg | hg
        · exact h.known g hg
        · rw [List.mem_singleton.mp hg]
          exact fun _ => ⟨hname, hvalue, hclean⟩
      · rcases List.mem_append.mp hg with hg | hg
        · exact h.regular g hg
        · rw [List.mem_singleton.mp hg, hpseudo]
          exact nofun
    -- a regular field is under no rule about order
    | false =>
      rw [if_neg (by rw [hpseudo]; exact Bool.false_ne_true)] at hnext
      have hno : ∀ g' ∈ [f], g'.isPseudo = true → False := fun g' hg' h => by
        rw [List.mem_singleton.mp hg', hpseudo] at h
        cases h
      refine ⟨List.pairwise_append.mpr ⟨h.ordered, List.pairwise_singleton _ f, fun g _ g' hg' h =>
          (hno g' hg' h).elim⟩, List.pairwise_append.mpr ⟨h.once, List.pairwise_singleton _ f, fun g _ g' hg' h =>
          (hno g' hg' h).elim⟩, fun g hg => ?_, fun g hg => ?_⟩
      · rcases List.mem_append.mp hg with hg | hg
        · exact h.known g hg
        · exact fun h => (hno g hg h).elim
      · rcases List.mem_append.mp hg with hg | hg
        · exact h.regular g hg
        · rw [List.mem_singleton.mp hg]
          exact fun _ => hnext

/-! ### The sink

What `h3_emit` has gathered is what a section with these fields holds, or the section was
refused. -/

theorem h3Emit_zero (lim : ZhsLimits) (x : H3HdrCtx) (name value : Bytes) : (h3Emit lim x name value).2 = 0 := by
  have hpseudo : (h3EmitPseudo x name value).2 = 0 := by
    unfold h3EmitPseudo
    repeat' split
    all_goals rfl
  have hregular : (h3EmitRegular lim x name value).2 = 0 := by
    unfold h3EmitRegular
    dsimp only
    repeat' split
    all_goals rfl
  rw [h3Emit]
  split
  · rfl
  · split
    · exact hpseudo
    · exact hregular

/-- What the sink has collected of the fields. -/
def h3Gather (lim : ZhsLimits) (fs : List Field) : H3HdrCtx :=
  fs.foldl (fun x f => (h3Emit lim x f.name f.value).1) {}

/-- The place of a pseudo-header field, if the sink has one of that name. -/
def H3HdrCtx.slot (x : H3HdrCtx) (name : Bytes) : Option (Option Bytes) :=
  if name = str ":method" then some x.method
  else if name = str ":path" then some x.path
  else if name = str ":scheme" then some x.scheme
  else if name = str ":authority" then some x.authority
  else none

/-- The sink holds the fields, and has found nothing wrong with them. -/
structure H3Gathers (fs : List Field) (x : H3HdrCtx) : Prop where
  bad : x.bad = false
  slot : ∀ name, x.slot name = if name ∈ requestPseudoNames then some (fieldValue name fs) else none
  seen : x.regularSeen = fs.any fun f => !f.isPseudo
  fields : x.fields = regularFields fs
  count : x.headers.n = (regularFields fs).length
  bytes : x.headers.bytes = ((regularFields fs).map fieldCost).sum

/-- A sink with one more pseudo-header field. -/
structure H3HdrCtx.Sets (x x' : H3HdrCtx) (name value : Bytes) : Prop where
  slot : ∀ n, x'.slot n = if n = name then some (some value) else x.slot n
  bad : x'.bad = x.bad
  seen : x'.regularSeen = x.regularSeen
  headers : x'.headers = x.headers
  fields : x'.fields = x.fields

/-- What each of the four branches of `h3EmitPseudo` does with its place, which is taken if it is free. -/
theorem h3TakeSlot_cases {x x' : H3HdrCtx} {name value : Bytes} {slot : Option Bytes}
    (hslot : x.slot name = some slot) (hsets : x.Sets x' name value) :
    (value ≠ [] ∧ x.slot name = some none) ∧
        x.Sets (if slot.isSome = true ∨ value = [] then x.fail else (x', 0)).1 name value ∨
      ¬(value ≠ [] ∧ x.slot name = some none) ∧
        (if slot.isSome = true ∨ value = [] then x.fail else (x', 0)).1.bad = true := by
  by_cases hused : slot.isSome = true ∨ value = []
  · rw [if_pos hused]
    refine .inr ⟨?_, rfl⟩
    rintro ⟨hvalue, hfree⟩
    rw [hslot] at hfree
    cases hfree
    exact hused.elim (fun h => by cases h) hvalue
  · rw [if_neg hused]
    rw [not_or, Bool.not_eq_true, Option.isSome_eq_false_iff, Option.isNone_iff_eq_none] at hused
    exact .inl ⟨⟨hused.2, by rw [hslot, hused.1]⟩, hsets⟩

/-- **A pseudo-header field** is taken if its place is free. -/
theorem h3EmitPseudo_cases (x : H3HdrCtx) (name value : Bytes) :
    (x.regularSeen = false ∧ zhsValueOk value = true ∧ value ≠ [] ∧ x.slot name = some none) ∧
        x.Sets (h3EmitPseudo x name value).1 name value ∨
      ¬(x.regularSeen = false ∧ zhsValueOk value = true ∧ value ≠ [] ∧ x.slot name = some none) ∧
        (h3EmitPseudo x name value).1.bad = true := by
  have hnames : str ":method" ≠ str ":path" ∧ str ":method" ≠ str ":scheme" ∧ str ":method" ≠ str ":authority" ∧
      str ":path" ≠ str ":scheme" ∧ str ":path" ≠ str ":authority" ∧ str ":scheme" ≠ str ":authority" := by decide
  obtain ⟨hmp, hms, hma, hps, hpa, hsa⟩ := hnames
  rw [h3EmitPseudo]
  by_cases hseen : x.regularSeen = true
  · rw [if_pos hseen]
    exact .inr ⟨fun h => (by rw [hseen] at h; cases h.1), rfl⟩
  rw [if_neg hseen]
  by_cases hclean : zhsValueOk value = true
  · have hplace : (x.regularSeen = false ∧ zhsValueOk value = true ∧ value ≠ [] ∧ x.slot name = some none) ↔
        value ≠ [] ∧ x.slot name = some none :=
      ⟨fun h => h.2.2, fun h => ⟨Bool.not_eq_true _ ▸ hseen, hclean, h⟩⟩
    rw [hplace, if_neg (by rw [hclean]; decide)]
    -- the four places, one after the other
    split
    · rename_i hname
      subst hname
      refine h3TakeSlot_cases (if_pos rfl) ⟨fun n => ?_, rfl, rfl, rfl, rfl⟩
      by_cases hn : n = str ":method" <;> simp [H3HdrCtx.slot, hn]
    rename_i hm
    split
    · rename_i hname
      subst hname
      refine h3TakeSlot_cases (by simp [H3HdrCtx.slot, hmp.symm]) ⟨fun n => ?_, rfl, rfl, rfl, rfl⟩
      by_cases hn : n = str ":path" <;> simp [H3HdrCtx.slot, hn, hmp.symm]
    rename_i hp
    split
    · rename_i hname
      subst hname
      refine h3TakeSlot_cases (by simp [H3HdrCtx.slot, hms.symm, hps.symm]) ⟨fun n => ?_, rfl, rfl, rfl, rfl⟩
      by_cases hn : n = str ":scheme" <;> simp [H3HdrCtx.slot, hn, hms.symm, hps.symm]
    rename_i hs
    split
    · rename_i hname
      subst hname
      refine h3TakeSlot_cases (by simp [H3HdrCtx.slot, hma.symm, hpa.symm, hsa.symm]) ⟨fun n => ?_, rfl, rfl, rfl, rfl⟩
      by_cases hn : n = str ":authority" <;> simp [H3HdrCtx.slot, hn, hma.symm, hpa.symm, hsa.symm]
    rename_i ha
    refine .inr ⟨fun h => ?_, rfl⟩
    rw [H3HdrCtx.slot, if_neg hm, if_neg hp, if_neg hs, if_neg ha] at h
    cases h.2
  · rw [if_pos (by rw [Bool.not_eq_true] at hclean; rw [hclean]; rfl)]
    exact .inr ⟨fun h => hclean h.2.1, rfl⟩

/-- **A regular field** is taken if it is one that a request may have and there is room for it. -/
theorem h3EmitRegular_cases (lim : ZhsLimits) (x : H3HdrCtx) (name value : Bytes) :
    (H3Regular ⟨name, value⟩ ∧ ∃ headers, x.headers.add name value lim false = .ok headers ∧
        (h3EmitRegular lim x name value).1 =
          { x with regularSeen := true, headers, fields := x.fields ++ [(name, value)] }) ∨
      ¬(H3Regular ⟨name, value⟩ ∧ ∃ headers, x.headers.add name value lim false = .ok headers) ∧
        (h3EmitRegular lim x name value).1.bad = true := by
  rw [h3EmitRegular]
  by_cases hname : zhsLowerTokenOk name = true
  · by_cases hvalue : zhsValueOk value = true
    · by_cases hconn : h3ConnSpecific name = true
      · rw [if_neg (by rw [hname]; decide), if_neg (by rw [hvalue]; decide), if_pos hconn]
        refine .inr ⟨fun h => ?_, rfl⟩
        have hno : h3ConnSpecific name = false := h.1.connection
        rw [hconn] at hno
        cases hno
      · rw [if_neg (by rw [hname]; decide), if_neg (by rw [hvalue]; decide), if_neg hconn]
        by_cases hte : name = str "te" ∧ value ≠ str "trailers"
        · rw [if_pos hte]
          exact .inr ⟨fun h => hte.2 (h.1.te hte.1), rfl⟩
        · rw [if_neg hte]
          have hregular : H3Regular ⟨name, value⟩ :=
            ⟨hname, hvalue, Bool.not_eq_true _ ▸ hconn, fun h => not_not.mp fun hv => hte ⟨h, hv⟩⟩
          cases hadd : x.headers.add name value lim false with
          | error e =>
            refine .inr ⟨?_, rfl⟩
            rintro ⟨-, headers, h⟩
            cases h
          | ok headers => exact .inl ⟨hregular, headers, rfl, rfl⟩
    · rw [if_neg (by rw [hname]; decide), if_pos (by rw [Bool.not_eq_true] at hvalue; rw [hvalue]; rfl)]
      exact .inr ⟨fun h => hvalue h.1.value, rfl⟩
  · rw [if_pos (by rw [Bool.not_eq_true] at hname; rw [hname]; rfl)]
    exact .inr ⟨fun h => hname h.1.name, rfl⟩

/-- A header fits where the caps hold with it. -/
theorem zhsHdrs_add_iff {h : ZhsHdrs} {name value : Bytes} {lim : ZhsLimits} (hbytes : h.bytes ≤ ZhsHdrs.byteCap lim)
    (hsize : name.length + value.length ≤ lim.maxHeaderBytes) :
    (∃ h', h.add name value lim false = .ok h') ↔
      h.n + 1 ≤ lim.maxHeaders ∧ h.bytes + fieldCost (name, value) ≤ ZhsHdrs.byteCap lim := by
  have hcost : fieldCost (name, value) = name.length + value.length + 32 := rfl
  rw [hcost, ZhsHdrs.add]
  constructor
  · rintro ⟨h', heq⟩
    split at heq
    · cases heq
    · split at heq
      · cases heq
      · exact ⟨by omega, by omega⟩
  · rintro ⟨hcount, hroom⟩
    rw [if_neg (by omega), if_neg (by omega)]
    exact ⟨_, rfl⟩

/-- The caps, one field further. -/
theorem h3Capped_concat {lim : ZhsLimits} {fs : List Field} {f : Field} : H3Capped lim (fs ++ [f]) ↔
    H3Capped lim fs ∧ (f.isPseudo = false → (regularFields fs).length + 1 ≤ lim.maxHeaders ∧
      ((regularFields fs).map fieldCost).sum + fieldCost (f.name, f.value) ≤ ZhsHdrs.byteCap lim) := by
  have hcount : (regularFields (fs ++ [f])).length =
      (regularFields fs).length + if f.isPseudo then 0 else 1 := by
    rw [regularFields_concat, List.length_append]
    split <;> rfl
  have hcost : ((regularFields (fs ++ [f])).map fieldCost).sum =
      ((regularFields fs).map fieldCost).sum + if f.isPseudo then 0 else fieldCost (f.name, f.value) := by
    rw [regularFields_concat, List.map_append, List.sum_append]
    split <;> rfl
  cases hpseudo : f.isPseudo with
  | true =>
    rw [hpseudo, if_pos rfl, Nat.add_zero] at hcount hcost
    exact ⟨fun h => ⟨⟨hcount ▸ h.count, hcost ▸ h.cost⟩, nofun⟩,
      fun h => ⟨hcount.symm ▸ h.1.count, hcost.symm ▸ h.1.cost⟩⟩
  | false =>
    rw [hpseudo, if_neg Bool.false_ne_true] at hcount hcost
    constructor
    · rintro ⟨hn, hb⟩
      rw [hcount] at hn
      rw [hcost] at hb
      exact ⟨⟨(Nat.le_succ _).trans hn, (Nat.le_add_right _ _).trans hb⟩, fun _ => ⟨hn, hb⟩⟩
    · rintro ⟨-, h⟩
      obtain ⟨hn, hb⟩ := h rfl
      exact ⟨hcount.le.trans hn, hcost.le.trans hb⟩

/-- A pseudo-header field that is taken is collected. -/
theorem H3Gathers.pseudo {fs : List Field} {x x' : H3HdrCtx} {f : Field} (h : H3Gathers fs x) (hpseudo : f.isPseudo = true)
    (hname : f.name ∈ requestPseudoNames) (hnew : fieldValue f.name fs = none) (hsets : x.Sets x' f.name f.value) :
    H3Gathers (fs ++ [f]) x' := by
  have hregular : regularFields (fs ++ [f]) = regularFields fs := by
    rw [regularFields_concat, hpseudo, if_pos rfl, List.append_nil]
  refine ⟨hsets.bad.trans h.bad, fun n => ?_, ?_, ?_, ?_, ?_⟩
  · rw [hsets.slot, h.slot]
    by_cases hn : n = f.name
    · subst hn
      rw [if_pos rfl, if_pos hname, fieldValue_concat_new hnew]
    · rw [if_neg hn, fieldValue_concat_ne fun he => hn he.symm]
  · rw [hsets.seen, h.seen, any_regular_concat, hpseudo, Bool.not_true, Bool.or_false]
  · rw [hsets.fields, h.fields, hregular]
  · rw [hsets.headers, h.count, hregular]
  · rw [hsets.headers, h.bytes, hregular]

/-- So is a regular one. -/
theorem H3Gathers.regular {lim : ZhsLimits} {fs : List Field} {x : H3HdrCtx} {f : Field} (h : H3Gathers fs x)
    (hregular : f.isPseudo = false) {headers : ZhsHdrs} (hadd : x.headers.add f.name f.value lim false = .ok headers) :
    H3Gathers (fs ++ [f])
      { x with regularSeen := true, headers, fields := x.fields ++ [(f.name, f.value)] } := by
  obtain ⟨-, hv, hbytes⟩ := ZhsHdrs.add_ok hadd
  have hconcat : regularFields (fs ++ [f]) = regularFields fs ++ [(f.name, f.value)] := by
    rw [regularFields_concat, hregular, if_neg Bool.false_ne_true]
  refine ⟨h.bad, fun n => ?_, ?_, ?_, ?_, ?_⟩
  · refine (h.slot n).trans ?_
    split
    · rename_i hn
      have hhead : ∀ n ∈ requestPseudoNames, n.head? = some 58 := by decide
      rw [fieldValue_concat_ne (ne_of_regular hregular (hhead n hn))]
    · rfl
  · rw [any_regular_concat, hregular, Bool.not_false, Bool.or_true]
  · rw [hconcat, ← h.fields]
  · rw [hconcat, List.length_append, ← h.count, ZhsHdrs.n, hv, List.length_append]
    rfl
  · rw [hconcat, List.map_append, List.sum_append, ← h.bytes, hbytes]
    rfl

/-- **The sink follows the rules**: it has found nothing wrong with the fields exactly where they keep
the rules and the caps, and then holds them. -/
theorem h3Gather_spec (lim : ZhsLimits) (fs : List Field) (hsize : fieldsSize fs ≤ lim.maxHeaderBytes) :
    (H3Fields fs ∧ H3Capped lim fs) ∧ H3Gathers fs (h3Gather lim fs) ∨
      ¬(H3Fields fs ∧ H3Capped lim fs) ∧ (h3Gather lim fs).bad = true := by
  -- the induction is on the last field, as emit is called with the fields in order
  induction fs using List.reverseRecOn with
  | nil =>
    refine .inl ⟨⟨⟨.nil, .nil, nofun, nofun⟩, Nat.zero_le _, Nat.zero_le _⟩, rfl, fun n => ?_, rfl, rfl, rfl, rfl⟩
    by_cases hn : n ∈ requestPseudoNames
    · rw [if_pos hn]
      simp only [requestPseudoNames, List.mem_cons, List.not_mem_nil, or_false] at hn
      obtain rfl | rfl | rfl | rfl := hn <;> rfl
    · rw [if_neg hn]
      simp only [requestPseudoNames, List.mem_cons, List.not_mem_nil, or_false, not_or] at hn
      rw [H3HdrCtx.slot, if_neg hn.1, if_neg hn.2.1, if_neg hn.2.2.1, if_neg hn.2.2.2]
  | append_singleton fs f ih =>
    rw [fieldsSize_append] at hsize
    have hfit : f.name.length + f.value.length ≤ lim.maxHeaderBytes := by
      have hone : fieldsSize [f] = f.name.length + f.value.length := Nat.add_zero _
      omega
    have hgather : h3Gather lim (fs ++ [f]) = (h3Emit lim (h3Gather lim fs) f.name f.value).1 := by
      rw [h3Gather, List.foldl_append]
      rfl
    rw [hgather, h3Fields_concat, h3Capped_concat, h3Emit]
    -- no field was bad so far: the last one decides
    obtain ⟨⟨hfields, hcapped⟩, hgathers⟩ | ⟨hno, hbad⟩ := ih (by omega)
    · rw [if_neg (by rw [hgathers.bad]; exact Bool.false_ne_true)]
      by_cases hpseudo : f.isPseudo = true
      · rw [if_pos (isPseudo_iff.mp hpseudo), H3Next, if_pos hpseudo, hgathers.seen.symm]
        -- a slot is free when its name was not seen
        have hfree : (h3Gather lim fs).slot f.name = some none ↔
            f.name ∈ requestPseudoNames ∧ fieldValue f.name fs = none := by
          rw [hgathers.slot]
          split
          · rename_i hn
            rw [Option.some_inj]
            exact ⟨fun h => ⟨hn, h⟩, fun h => h.2⟩
          · rename_i hn
            exact ⟨nofun, fun h => absurd h.1 hn⟩
        rcases h3EmitPseudo_cases (h3Gather lim fs) f.name f.value with ⟨⟨hs, hc, hv, hslot⟩, hsets⟩ | ⟨hnot, hbad⟩
        · obtain ⟨hname, hnew⟩ := hfree.mp hslot
          refine .inl ⟨⟨⟨hfields, hs, hc, hv, hname, hnew⟩, hcapped, fun h => ?_⟩, hgathers.pseudo hpseudo hname hnew hsets⟩
          rw [hpseudo] at h
          cases h
        · refine .inr ⟨?_, hbad⟩
          rintro ⟨⟨-, hs, hc, hv, hname, hnew⟩, -⟩
          exact hnot ⟨hs, hc, hv, hfree.mpr ⟨hname, hnew⟩⟩
      · -- a regular field also has to find room in the store
        have hregular : f.isPseudo = false := Bool.not_eq_true _ ▸ hpseudo
        have hbytes : (h3Gather lim fs).headers.bytes ≤ ZhsHdrs.byteCap lim := hgathers.bytes.le.trans hcapped.cost
        have hroom := @zhsHdrs_add_iff (h3Gather lim fs).headers f.name f.value lim hbytes hfit
        rw [hgathers.count, hgathers.bytes] at hroom
        rw [if_neg (fun h => hpseudo (isPseudo_iff.mpr h)), H3Next, if_neg hpseudo]
        rcases h3EmitRegular_cases lim (h3Gather lim fs) f.name f.value with ⟨hok, headers, hadd, heq⟩ | ⟨hnot, hbad⟩
        · rw [heq]
          exact .inl ⟨⟨⟨hfields, hok⟩, hcapped, fun _ => hroom.mp ⟨headers, hadd⟩⟩, hgathers.regular hregular hadd⟩
        · refine .inr ⟨?_, hbad⟩
          rintro ⟨⟨-, hok⟩, -, hroom'⟩
          exact hnot ⟨hok, hroom.mpr (hroom' hregular)⟩
    · -- a field was bad before, and stays so
      rw [if_pos hbad]
      exact .inr ⟨fun h => hno ⟨h.1.1, h.2.1⟩, hbad⟩

/-! ### Whole sections

A section that is accepted has the pseudo fields of a request and a target that can be
served. -/

/-- **The fields of a request that the server serves.** -/
structure H3Served (lim : ZhsLimits) (fs : List Field) : Prop extends H3Fields fs, H3Within lim fs where
  present : H3Present fs

section Gathers

variable {fs : List Field} {x : H3HdrCtx}

theorem H3Gathers.method (h : H3Gathers fs x) : x.method = fieldValue (str ":method") fs :=
  Option.some_inj.mp (h.slot (str ":method"))

theorem H3Gathers.path (h : H3Gathers fs x) : x.path = fieldValue (str ":path") fs :=
  Option.some_inj.mp (h.slot (str ":path"))

theorem H3Gathers.scheme (h : H3Gathers fs x) : x.scheme = fieldValue (str ":scheme") fs :=
  Option.some_inj.mp (h.slot (str ":scheme"))

theorem H3Gathers.authority (h : H3Gathers fs x) : x.authority = fieldValue (str ":authority") fs :=
  Option.some_inj.mp (h.slot (str ":authority"))

end Gathers

/-- The value of a pseudo-header field is that of one of the fields. -/
theorem exists_of_fieldValue {name value : Bytes} {fs : List Field} (h : fieldValue name fs = some value) :
    ∃ f ∈ fs, f.name = name ∧ f.value = value := by
  obtain ⟨f, hfind, heq⟩ := Option.map_eq_some_iff.mp h
  have hname : (f.name == name) = true := List.find?_some (p := fun f : Field => f.name == name) hfind
  exact ⟨f, List.mem_of_find?_eq_some hfind, beq_iff_eq.mp hname, heq⟩

/-- The value of a pseudo-header field is clean. -/
theorem H3Fields.clean {fs : List Field} (h : H3Fields fs) {name value : Bytes} (hname : name.head? = some 58)
    (hvalue : fieldValue name fs = some value) : zhsValueOk value = true := by
  obtain ⟨f, hf, rfl, rfl⟩ := exists_of_fieldValue hvalue
  exact (h.known f hf (isPseudo_iff.mpr hname)).2.2

/-- Nothing is made of fields that are malformed. -/
theorem h3Head_bad (lim : ZhsLimits) (req : HttpReq) (ok : Bool) {x : H3HdrCtx} (hbad : x.bad = true) :
    ∃ e, h3Head lim req ok x = .error e := by
  rw [h3Head]
  split
  · rw [if_pos (.inr hbad)]
    exact ⟨_, rfl⟩
  · exact ⟨_, rfl⟩

/-- Nor of a section that does not decode. -/
theorem h3Head_failed (lim : ZhsLimits) (req : HttpReq) (x : H3HdrCtx) : ∃ e, h3Head lim req false x = .error e := by
  rw [h3Head]
  split
  · rw [if_pos (.inl rfl)]
    exact ⟨_, rfl⟩
  · exact ⟨_, rfl⟩

/-- **The head of a request** is made of the fields that are served, and of no others. -/
theorem h3Head_gathers {lim : ZhsLimits} {fs : List Field} {x : H3HdrCtx} (h : H3Gathers fs x) (hfields : H3Fields fs)
    (req : HttpReq) :
    (H3Present fs ∧ ∀ t, fieldValue (str ":path") fs = some t → TargetServed t lim) ∧
        (∃ req', h3Head lim req true x = .ok req' ∧ req'.raw = sectionRaw fs) ∨
      ¬(H3Present fs ∧ ∀ t, fieldValue (str ":path") fs = some t → TargetServed t lim) ∧
        ∃ e, h3Head lim req true x = .error e := by
  have hpresent : H3Present fs ↔ fieldValue (str ":method") fs ≠ none ∧ fieldValue (str ":path") fs ≠ none ∧
      fieldValue (str ":scheme") fs ≠ none := by
    rw [H3Present, List.forall_mem_cons, List.forall_mem_cons, List.forall_mem_singleton]
  have hraw : sectionRaw fs = ⟨x.method.getD [], x.path.getD [], x.authority, x.fields⟩ := by
    rw [sectionRaw, h.method, h.path, h.authority, h.fields]
  have hclean : ∀ t, fieldValue (str ":path") fs = some t → cstr t = t := fun t ht =>
    cstr_of_valueOk (hfields.clean (by decide) ht)
  rw [hpresent, hraw, ← h.method, ← h.path, ← h.scheme, h3Head]
  rw [← h.path] at hclean
  -- the three pseudo fields that have to be there, in the order of the checks
  cases x.method with
  | none => exact .inr ⟨fun h => h.1.1 rfl, _, rfl⟩
  | some method =>
    cases hpath : x.path with
    | none => exact .inr ⟨fun h => h.1.2.1 rfl, _, rfl⟩
    | some target =>
      cases x.scheme with
      | none => exact .inr ⟨fun h => h.1.2.2 rfl, _, rfl⟩
      | some scheme =>
        dsimp only
        rw [if_neg (by rw [h.bad]; decide), hclean target hpath]
        -- the target is decoded last
        have hserved := @zhsDecodeTarget_served target lim
        cases hdec : zhsDecodeTarget target lim with
        | error e =>
          refine .inr ⟨?_, _, rfl⟩
          rintro ⟨-, hall⟩
          obtain ⟨r, hr⟩ := hserved.mpr (hall target rfl)
          rw [hdec] at hr
          cases hr
        | ok r =>
          refine .inl ⟨⟨⟨nofun, nofun, nofun⟩, fun t ht => ?_⟩, _, rfl, rfl⟩
          cases ht
          exact hserved.mp ⟨r, hdec⟩

/-- **A section is decoded exactly where its fields are served**, and then is the request that they say. -/
theorem h3DecodeHeaders_served {lim : ZhsLimits} {st : Zh3Stream} (hreq : st.req.headers = {}) :
    (∃ fs st', Qpack.sectionFields QPACK_STATIC (Qpack.unsigned st.hdr) = some fs ∧ H3Served lim fs ∧
        h3DecodeHeaders lim st = .ok st' ∧ st'.req.raw = sectionRaw fs) ∨
      (∀ fs, Qpack.sectionFields QPACK_STATIC (Qpack.unsigned st.hdr) = some fs → ¬H3Served lim fs) ∧
        ∃ e, h3DecodeHeaders lim st = .error e := by
  have hagrees := zqpDecode_agrees st.hdr lim.maxHeaderBytes
  have hsize := fieldsSize_zqpDecode st.hdr lim.maxHeaderBytes
  have hfold : zqpDecode st.hdr lim.maxHeaderBytes (h3Emit lim) {} =
      ((zqpDecode st.hdr lim.maxHeaderBytes collect []).1,
        h3Gather lim (zqpDecode st.hdr lim.maxHeaderBytes collect []).2) :=
    zqpDecode_foldl (h3Emit_zero lim) st.hdr lim.maxHeaderBytes {}
  have hcomplete := @decode_eq_ok QPACK_STATIC lim.maxHeaderBytes (Qpack.unsigned st.hdr)
  rw [h3DecodeHeaders]
  by_cases hempty : st.hdr.length = 0
  · -- an empty section has no prefix
    rw [if_pos hempty, List.eq_nil_of_length_eq_zero hempty]
    refine .inr ⟨fun fs h => ?_, _, rfl⟩
    cases h
  rw [if_neg hempty, hreq]
  dsimp only
  rw [hfold]
  generalize zqpDecode st.hdr lim.maxHeaderBytes collect [] = r at hagrees hsize
  obtain ⟨rc, fs⟩ := r
  obtain ⟨hrc, hfields⟩ := hagrees
  dsimp only at hrc hfields hsize ⊢
  rcases hrc with ⟨rfl, hok⟩ | ⟨⟨e, rfl, -⟩, hno⟩
  · have hsection : Qpack.sectionFields QPACK_STATIC (Qpack.unsigned st.hdr) = some fs := by
      refine (hcomplete.mp ?_).1
      rw [hfields, ← hok]
    rw [hsection]
    rcases h3Gather_spec lim fs hsize with ⟨⟨hf, hc⟩, hgathers⟩ | ⟨hnot, hbad⟩
    · rcases @h3Head_gathers lim fs _ hgathers hf st.req with ⟨hserved, req, hreq', hraw⟩ | ⟨hnot, e, he⟩
      · exact .inl ⟨fs, _, rfl, ⟨hf, ⟨hc, hsize, hserved.2⟩, hserved.1⟩, by rw [beq_self_eq_true, hreq']; rfl, hraw⟩
      · refine .inr ⟨fun fs' hfs' h => ?_, e, by rw [beq_self_eq_true, he]; rfl⟩
        cases hfs'
        exact hnot ⟨h.present, h.target⟩
    · obtain ⟨e, he⟩ := h3Head_bad lim st.req (DecodeRc.ok == .ok) hbad
      refine .inr ⟨fun fs' hfs' h => ?_, e, by rw [he]; rfl⟩
      cases hfs'
      exact hnot ⟨h.toH3Fields, h.toH3Capped⟩
  · obtain ⟨e', he⟩ := h3Head_failed lim st.req (h3Gather lim fs)
    refine .inr ⟨fun fs' hfs' h => ?_, e', ?_⟩
    · have hyes := hcomplete.mpr ⟨hfs', h.size⟩
      rw [hyes] at hno
      cases hno
    · change Except.map _ (h3Head lim st.req false (h3Gather lim fs)) = _
      rw [he]
      rfl

/-! ### The two tables

The static table of the code is misprinted in four rows. Fields read through either table
obey the same rules, since the rows only differ in spaces within values. -/

/-- A field of the RFC and what the code reads in its place: the value of a regular field may be a
shorter one. -/
def SameField (f f' : Field) : Prop :=
  f' = f ∨ f'.name = f.name ∧ f.isPseudo = false ∧ f.name ≠ str "te" ∧ f'.value.length ≤ f.value.length ∧
    zhsValueOk f.value = true ∧ zhsValueOk f'.value = true

instance (f f' : Field) : Decidable (SameField f f') := inferInstanceAs (Decidable (_ ∨ _))

theorem SameField.name {f f' : Field} (h : SameField f f') : f'.name = f.name :=
  h.elim (congrArg Field.name) And.left

theorem SameField.isPseudo {f f' : Field} (h : SameField f f') : f'.isPseudo = f.isPseudo := by
  rw [Field.isPseudo, h.name]
  rfl

/-- A pseudo-header field is the same. -/
theorem SameField.eq {f f' : Field} (h : SameField f f') (hpseudo : f.isPseudo = true) : f' = f :=
  h.elim id fun h => by
    rw [hpseudo] at h
    cases h.2.1

theorem SameField.value_le {f f' : Field} (h : SameField f f') : f'.value.length ≤ f.value.length :=
  h.elim (fun h => (congrArg (·.value.length) h).le) fun h => h.2.2.2.1

theorem SameField.regular {f f' : Field} (h : SameField f f') : H3Regular f ↔ H3Regular f' := by
  obtain rfl | ⟨hname, -, hte, -, hvalue, hvalue'⟩ := h
  · exact Iff.rfl
  · exact ⟨fun h => ⟨hname ▸ h.name, hvalue', hname ▸ h.connection, fun ht => absurd (hname ▸ ht) hte⟩,
      fun h => ⟨hname ▸ h.name, hvalue, hname ▸ h.connection, fun ht => absurd ht hte⟩⟩

/-- One row that is changed to one that counts as the same. -/
theorem sameField_set {fs fs' : List Field} (h : List.Forall₂ SameField fs fs') {i : Nat} {f g : Field}
    (hg : fs'[i]? = some g) (hsame : SameField f g) : List.Forall₂ SameField (fs.set i f) fs' := by
  induction h generalizing i with
  | nil => exact .nil
  | cons hf hfs ih =>
    cases i with
    | zero =>
      cases hg
      exact .cons hsame hfs
    | succ i => exact .cons hf (ih hg)

theorem sameField_static : List.Forall₂ SameField Qpack.STATIC QPACK_STATIC := by
  have hself : List.Forall₂ SameField QPACK_STATIC QPACK_STATIC := List.forall₂_same.mpr fun _ _ => .inl rfl
  rw [static_set]
  exact sameField_set (sameField_set (sameField_set (sameField_set hself rfl (.inr (by decide))) rfl
    (.inr (by decide))) rfl (.inr (by decide))) rfl (.inr (by decide))

/-- A line has the same field in both tables. -/
theorem sameField_line (l : Line) :
    l.field Qpack.STATIC = none ∧ l.field QPACK_STATIC = none ∨
      ∃ f f', l.field Qpack.STATIC = some f ∧ l.field QPACK_STATIC = some f' ∧ SameField f f' := by
  have hrow : ∀ i : Nat, Qpack.STATIC[i]? = none ∧ QPACK_STATIC[i]? = none ∨
      ∃ f f', Qpack.STATIC[i]? = some f ∧ QPACK_STATIC[i]? = some f' ∧ SameField f f' := by
    intro i
    have hstatic := sameField_static
    generalize Qpack.STATIC = t, QPACK_STATIC = t' at hstatic
    have hlen := hstatic.length_eq
    by_cases hi : i < t.length
    · exact .inr ⟨_, _, List.getElem?_eq_getElem hi, List.getElem?_eq_getElem (hlen ▸ hi), hstatic.get hi (hlen ▸ hi)⟩
    · exact .inl ⟨List.getElem?_eq_none (Nat.not_lt.mp hi), List.getElem?_eq_none (hlen ▸ Nat.not_lt.mp hi)⟩
  cases l with
  | indexed i => exact hrow i
  | named i value =>
    obtain ⟨h, h'⟩ | ⟨f, f', h, h', hsame⟩ := hrow i
    · simp only [Line.field, h, h']
      exact .inl ⟨rfl, rfl⟩
    · simp only [Line.field, h, h']
      exact .inr ⟨_, _, rfl, rfl, .inl (congrArg (Field.mk · value) hsame.name)⟩
  | literal name value => exact .inr ⟨_, _, rfl, rfl, .inl rfl⟩

theorem sameFields_mapM (ls : List Line) :
    ls.mapM (Line.field Qpack.STATIC) = none ∧ ls.mapM (Line.field QPACK_STATIC) = none ∨
      ∃ fs fs', ls.mapM (Line.field Qpack.STATIC) = some fs ∧ ls.mapM (Line.field QPACK_STATIC) = some fs' ∧
        List.Forall₂ SameField fs fs' := by
  induction ls with
  | nil => exact .inr ⟨[], [], rfl, rfl, .nil⟩
  | cons l ls ih =>
    rw [List.mapM_cons, List.mapM_cons]
    obtain ⟨h, h'⟩ | ⟨f, f', h, h', hsame⟩ := sameField_line l
    · exact .inl ⟨by rw [h]; rfl, by rw [h']; rfl⟩
    · obtain ⟨hs, hs'⟩ | ⟨fs, fs', hs, hs', hall⟩ := ih
      · exact .inl ⟨by rw [h, hs]; rfl, by rw [h', hs']; rfl⟩
      · exact .inr ⟨f :: fs, f' :: fs', by rw [h, hs]; rfl, by rw [h', hs']; rfl, .cons hsame hall⟩

/-- **A section has the same fields** with both tables. -/
theorem sameFields_sectionFields (block : Bytes) :
    Qpack.sectionFields Qpack.STATIC block = none ∧ Qpack.sectionFields QPACK_STATIC block = none ∨
      ∃ fs fs', Qpack.sectionFields Qpack.STATIC block = some fs ∧
        Qpack.sectionFields QPACK_STATIC block = some fs' ∧ List.Forall₂ SameField fs fs' := by
  rw [Qpack.sectionFields, Qpack.sectionFields]
  cases Qpack.sectionStart block with
  | none => exact .inl ⟨rfl, rfl⟩
  | some bs =>
    dsimp only [Option.bind_some]
    split
    · exact sameFields_mapM _
    · exact .inl ⟨rfl, rfl⟩

section Same

variable {fs fs' : List Field}

theorem fieldValue_same (h : List.Forall₂ SameField fs fs') {name : Bytes} (hname : name.head? = some 58) :
    fieldValue name fs' = fieldValue name fs := by
  induction h with
  | nil => rfl
  | @cons f f' fs fs' hf _ ih =>
    rw [fieldValue, fieldValue, List.find?_cons, List.find?_cons, hf.name]
    cases hb : f.name == name with
    | true =>
      have hpseudo : f.isPseudo = true := isPseudo_iff.mpr ((beq_iff_eq.mp hb) ▸ hname)
      rw [hf.eq hpseudo]
    | false => exact ih

/-- What holds of one member of a pair where it holds of the other. -/
theorem forall_same {p q : Field → Prop} (hpq : ∀ {f f'}, SameField f f' → (p f ↔ q f'))
    (h : List.Forall₂ SameField fs fs') : (∀ f ∈ fs, p f) ↔ ∀ f ∈ fs', q f := by
  induction h with
  | nil => exact ⟨fun _ => nofun, fun _ => nofun⟩
  | cons hf _ ih => rw [List.forall_mem_cons, List.forall_mem_cons, hpq hf, ih]

theorem pairwise_same {R : Field → Field → Prop}
    (hR : ∀ {f f' g g'}, SameField f f' → SameField g g' → (R f g ↔ R f' g')) (h : List.Forall₂ SameField fs fs') :
    fs.Pairwise R ↔ fs'.Pairwise R := by
  induction h with
  | nil => exact Iff.rfl
  | cons hf hfs ih => rw [List.pairwise_cons, List.pairwise_cons, ih, forall_same (hR hf) hfs]

/-- **The rules** are kept by both or by neither. -/
theorem h3Fields_same (h : List.Forall₂ SameField fs fs') : H3Fields fs ↔ H3Fields fs' := by
  have hordered := pairwise_same (R := fun f f' => f'.isPseudo = true → f.isPseudo = true)
    (fun hf hg => by rw [hf.isPseudo, hg.isPseudo]) h
  have honce := pairwise_same (R := fun f f' => f'.isPseudo = true → f.name ≠ f'.name)
    (fun hf hg => by rw [hf.name, hg.name, hg.isPseudo]) h
  have hknown := forall_same (p := fun f => f.isPseudo = true → f.name ∈ requestPseudoNames ∧ f.value ≠ [] ∧
      zhsValueOk f.value = true) (q := fun f => f.isPseudo = true → f.name ∈ requestPseudoNames ∧ f.value ≠ [] ∧
      zhsValueOk f.value = true) (fun {f f'} hf => by
        rw [hf.isPseudo]
        exact forall_congr' fun hpseudo => by rw [hf.eq hpseudo]) h
  have hregular := forall_same (p := fun f => f.isPseudo = false → H3Regular f)
    (q := fun f => f.isPseudo = false → H3Regular f) (fun hf => by rw [hf.isPseudo, hf.regular]) h
  exact ⟨fun h => ⟨hordered.mp h.ordered, honce.mp h.once, hknown.mp h.known, hregular.mp h.regular⟩,
    fun h => ⟨hordered.mpr h.ordered, honce.mpr h.once, hknown.mpr h.known, hregular.mpr h.regular⟩⟩

theorem h3Present_same (h : List.Forall₂ SameField fs fs') : H3Present fs ↔ H3Present fs' := by
  have hhead : ∀ name ∈ [str ":method", str ":path", str ":scheme"], name.head? = some 58 := by decide
  exact forall₂_congr fun name hname => by rw [fieldValue_same h (hhead name hname)]

/-- What the code reads is within the limits where the RFC's fields are. -/
theorem H3Within.same {lim : ZhsLimits} (hwithin : H3Within lim fs) (h : List.Forall₂ SameField fs fs') :
    H3Within lim fs' := by
  have hsizes : fieldsSize fs' ≤ fieldsSize fs ∧ (regularFields fs').length = (regularFields fs).length ∧
      ((regularFields fs').map fieldCost).sum ≤ ((regularFields fs).map fieldCost).sum := by
    clear hwithin
    induction h with
    | nil => exact ⟨Nat.le_refl _, rfl, Nat.le_refl _⟩
    | @cons f f' fs fs' hf _ ih =>
      obtain ⟨hsize, hcount, hcost⟩ := ih
      have hvalue := hf.value_le
      have hname := congrArg List.length hf.name
      refine ⟨by rw [fieldsSize_cons, fieldsSize_cons]; omega, ?_⟩
      rw [regularFields, regularFields, List.filter_cons, List.filter_cons, hf.isPseudo]
      cases f.isPseudo with
      | true => exact ⟨hcount, hcost⟩
      | false =>
        refine ⟨congrArg (· + 1) hcount, Nat.add_le_add ?_ hcost⟩
        change f'.name.length + f'.value.length + 32 ≤ f.name.length + f.value.length + 32
        omega
  obtain ⟨hsize, hcount, hcost⟩ := hsizes
  refine ⟨⟨hcount.le.trans hwithin.count, hcost.trans hwithin.cost⟩, hsize.trans hwithin.size, fun t ht => ?_⟩
  rw [fieldValue_same h (by decide)] at ht
  exact hwithin.target t ht

end Same

/-! ### Requests

The exact condition under which a section of octets is taken, and what the request then
holds. -/

/-- **A field section that the server takes**: its fields, as the code reads them, keep the rules that
the code checks and are within the limits. -/
def H3SectionTaken (lim : ZhsLimits) (payload : Bytes) : Prop :=
  payload.length ≤ lim.maxHeaderBytes ∧
    ∃ fs, Qpack.sectionFields QPACK_STATIC (Qpack.unsigned payload) = some fs ∧ H3Served lim fs

/-- **A field section that is a request**: its fields, as RFC 9204 has them, keep the rules of RFC 9114
and are within the limits. -/
def H3SectionOk (lim : ZhsLimits) (payload : Bytes) : Prop :=
  payload.length ≤ lim.maxHeaderBytes ∧
    ∃ fs, Qpack.sectionFields Qpack.STATIC payload = some fs ∧ H3Served lim fs ∧ H3Strict fs

/-- What a section has to keep that the code does not look at: the sign bit of its base is clear, and
its fields keep the other rules, and the limits with the values that the RFC gives them. -/
structure H3SectionKept (lim : ZhsLimits) (payload : Bytes) : Prop where
  sign : Qpack.unsigned payload = payload
  rules : ∀ fs, Qpack.sectionFields Qpack.STATIC payload = some fs → H3Strict fs ∧ H3Within lim fs

/-- A section with a sign has no fields. -/
theorem unsigned_of_fields {table : List Field} {block : Bytes} {fs : List Field}
    (h : Qpack.sectionFields table block = some fs) : Qpack.unsigned block = block := by
  rw [Qpack.sectionFields] at h
  obtain ⟨bs, hstart, -⟩ := Option.bind_eq_some_iff.mp h
  cases block with
  | nil => rfl
  | cons a rest =>
    cases rest with
    | nil => rfl
    | cons b rest =>
      by_cases ha : a = 0
      · subst ha
        have hint : Hpack.int 8 (0 :: b :: rest) = some (0, b :: rest) := rfl
        rw [Qpack.sectionStart, hint] at hstart
        dsimp only at hstart
        split at hstart
        · cases hstart
        · rename_i hclear
          rw [not_or, Bool.not_eq_true] at hclear
          have hsign : b &&& 0x7f = b := by
            refine UInt8.toNat_inj.mp ?_
            rw [UInt8.toNat_and]
            refine (Nat.and_two_pow_sub_one_eq_mod b.toNat 7).trans (Nat.mod_eq_of_lt ?_)
            have hlt : b.toNat < 2 ^ 8 := b.toNat_lt
            refine Nat.lt_pow_two_of_testBit _ fun i hi => ?_
            obtain rfl | hi := Nat.eq_or_lt_of_le hi
            · exact hclear.2
            · exact Nat.testBit_lt_two_pow (hlt.trans_le (Nat.pow_le_pow_right (by decide) hi))
          rw [Qpack.unsigned, hsign]
      · rw [sectionStart_ric ha] at hstart
        cases hstart

/-- **A request is a section that the server takes and that keeps the rest.** -/
theorem h3SectionOk_iff {lim : ZhsLimits} {payload : Bytes} :
    H3SectionOk lim payload ↔ H3SectionTaken lim payload ∧ H3SectionKept lim payload := by
  constructor
  · rintro ⟨hlen, fs, hfields, hserved, hstrict⟩
    have hsign := unsigned_of_fields hfields
    refine ⟨⟨hlen, ?_⟩, hsign, fun fs' hfs' => ?_⟩
    · rw [hsign]
      obtain ⟨hnone, -⟩ | ⟨gs, gs', hgs, hgs', hsame⟩ := sameFields_sectionFields payload
      · rw [hfields] at hnone
        cases hnone
      · rw [hfields] at hgs
        cases hgs
        exact ⟨gs', hgs', (h3Fields_same hsame).mp hserved.toH3Fields, hserved.toH3Within.same hsame,
          (h3Present_same hsame).mp hserved.present⟩
    · rw [hfields] at hfs'
      cases hfs'
      exact ⟨hstrict, hserved.toH3Within⟩
  · rintro ⟨⟨hlen, fs', hfields, hserved⟩, hsign, hrules⟩
    rw [hsign] at hfields
    obtain ⟨-, hnone⟩ | ⟨gs, gs', hgs, hgs', hsame⟩ := sameFields_sectionFields payload
    · rw [hfields] at hnone
      cases hnone
    · rw [hfields] at hgs'
      cases hgs'
      obtain ⟨hstrict, hwithin⟩ := hrules gs hgs
      exact ⟨hlen, gs, hgs, ⟨(h3Fields_same hsame).mpr hserved.toH3Fields, hwithin,
        (h3Present_same hsame).mpr hserved.present⟩, hstrict⟩

end Zcio
