import Zcio.H2.HpackSync
import Zcio.Server.Fields

/-!
# Zcio.H2.Heads

The field sections of an HTTP/2 connection, read off its frames. A section is a field block and what
came in front of it, since the table that it is read with is what the blocks before it have left: that
of a decoder of RFC 7541 that read them all in full (`refTable`), which is the peer's. `sectionOn` is
the section that opened a stream, and `handedOf` are the requests dispatched, each with the section that
had opened its stream by then.

Nothing here is taken from a request object. What ties the two together is the sink: a block that is
read to its end has put into it the fields that the reference decoder reads, in order
(`HdrCtx.Collected`), and the head of a request is made of these and of nothing else. The server reads
them with a table of its own, which is the peer's while no insertion was lost to an abort
(`zh2_hpackSync`).
-/

namespace Zcio

/-! ### Sections on the wire

A section is a block together with those before it, for the table that it is decoded with is
theirs. -/

/-- A field section: the block, and the blocks in front of it, newest first. -/
structure WireSection where
  before : List (Bool × Bytes)
  block : Bytes
  deriving DecidableEq

/-- Its fields, by RFC 7541. -/
def WireSection.fields (s : WireSection) : Option (List Field) :=
  let r := Hpack.decode none (refTable s.before) s.block
  if r.ok then some r.fields else none

/-- No insertion was lost in front of it. -/
def WireSection.InStep (lim : ZhsLimits) (s : WireSection) : Prop := AllUnhurt lim s.before

/-- The field sections completed that are no trailers, newest first, each with its stream. -/
def headsOf : List H2Event → List (Nat × WireSection)
  | [] => []
  | .block false _ :: h => ((lastSid h).getD 0, ⟨blocksOf h, wireBlock h⟩) :: headsOf h
  | _ :: h => headsOf h

/-- The field section of stream `id`. -/
def sectionOn (id : Nat) (h : List H2Event) : Option WireSection :=
  ((headsOf h).find? fun p => p.1 == id).map (·.2)

/-- The requests dispatched, newest first, each with the field section of its stream. -/
def handedOf : List H2Event → List (HttpReq × Option WireSection)
  | [] => []
  | .dispatched id req :: h => (req, sectionOn id h) :: handedOf h
  | _ :: h => handedOf h

/-- Both are as they were. -/
structure SameHeads (h h' : List H2Event) : Prop where
  heads : headsOf h' = headsOf h
  handed : handedOf h' = handedOf h

section Histories

variable {h : List H2Event}

@[simp] theorem headsOf_trailer (b : Bytes) : headsOf (.block true b :: h) = headsOf h := rfl

/-! Only a field block and a dispatch change them. -/

variable {h' : List H2Event}

@[simp] theorem sameHeads_self : SameHeads h h := ⟨rfl, rfl⟩

@[simp] theorem sameHeads_recv (f : Frame) : SameHeads h (.recv f :: h') ↔ SameHeads h h' :=
  ⟨fun ⟨hs, hd⟩ => ⟨hs, hd⟩, fun ⟨hs, hd⟩ => ⟨hs, hd⟩⟩

@[simp] theorem sameHeads_sent (f : Frame) : SameHeads h (.sent f :: h') ↔ SameHeads h h' :=
  ⟨fun ⟨hs, hd⟩ => ⟨hs, hd⟩, fun ⟨hs, hd⟩ => ⟨hs, hd⟩⟩

@[simp] theorem sameHeads_error (code : Nat) : SameHeads h (.error code :: h') ↔ SameHeads h h' :=
  ⟨fun ⟨hs, hd⟩ => ⟨hs, hd⟩, fun ⟨hs, hd⟩ => ⟨hs, hd⟩⟩

@[simp] theorem sameHeads_responded (id status : Nat) (isHead : Bool) (hdrs : List (Bytes × Bytes))
    (body : RespBody) : SameHeads h (.responded id isHead status hdrs body :: h') ↔ SameHeads h h' :=
  ⟨fun ⟨hs, hd⟩ => ⟨hs, hd⟩, fun ⟨hs, hd⟩ => ⟨hs, hd⟩⟩

@[simp] theorem sameHeads_ite_sent (p : Prop) [Decidable p] (f : Frame) :
    SameHeads h ((if p then [] else [.sent f]) ++ h') ↔ SameHeads h h' := by
  split
  · rfl
  · exact sameHeads_sent f

theorem sameHeads_foldl_h2Frame (fs : List Frame) (c : Zh2Conn) :
    SameHeads c.hist (fs.foldl h2Frame c).hist := by
  induction fs generalizing c with
  | nil => exact ⟨rfl, rfl⟩
  | cons f fs ih =>
    obtain ⟨hheads, hhanded⟩ := ih (h2Frame c f)
    exact ⟨hheads, hhanded⟩

theorem SameHeads.sectionOn (hs : SameHeads h h') (id : Nat) :
    Zcio.sectionOn id h' = Zcio.sectionOn id h := by
  rw [Zcio.sectionOn, hs.heads, Zcio.sectionOn]

theorem handedOf_dispatches : (handedOf h).map (·.1) = (dispatches h).map (·.2) := by
  induction h with
  | nil => rfl
  | cons e h ih =>
    cases e with
    | dispatched id req => exact congrArg (req :: ·) ih
    | _ => exact ih

/-- The section of a stream whose block is complete. -/
theorem sectionOn_block {id : Nat} (hsid : lastSid h = some id) (b : Bytes) :
    Zcio.sectionOn id (.block false b :: h) = some ⟨blocksOf h, wireBlock h⟩ := by
  rw [Zcio.sectionOn, headsOf, hsid, Option.getD_some, List.find?_cons_of_pos (by simp)]
  rfl

/-- Other streams keep theirs. -/
theorem sectionOn_block_ne {id id' : Nat} (hsid : lastSid h = some id') (hne : id' ≠ id) (b : Bytes) :
    Zcio.sectionOn id (.block false b :: h) = Zcio.sectionOn id h := by
  rw [Zcio.sectionOn, headsOf, hsid, Option.getD_some, List.find?_cons_of_neg (by simpa using hne),
    ← Zcio.sectionOn]

end Histories

/-! ### The sink

The fields that `h2_emit` has taken, collected in order, are those of the section. -/

/-- The sink holds the fields `fs`. -/
structure HdrCtx.Collected (fs : List Field) (x : HdrCtx) : Prop where
  leading : x.trailer = false
  method : x.method = fieldValue (str ":method") fs
  path : x.path = fieldValue (str ":path") fs
  authority : x.authority = fieldValue (str ":authority") fs
  fields : x.fields = regularFields fs

theorem HdrCtx.bad_rejects (x : HdrCtx) : x.bad.2 ≠ 0 := by simp [HdrCtx.bad]

/-- A pseudo-header field that is taken is the first of its name. -/
theorem h2EmitPseudo_collected {fs : List Field} {x : HdrCtx} {f : Field} (h : x.Collected fs)
    (hpseudo : f.isPseudo = true) (hacc : ¬(h2EmitPseudo x f.name f.value).2 ≠ 0) :
    (h2EmitPseudo x f.name f.value).1.Collected (fs ++ [f]) := by
  have hregular : x.fields = regularFields (fs ++ [f]) := by
    rw [regularFields_concat, hpseudo, if_pos rfl, List.append_nil, h.fields]
  have hnew : ∀ {name : Bytes} {slot : Option Bytes}, f.name = name → slot = fieldValue name fs →
      ¬slot.isSome = true → some f.value = fieldValue name (fs ++ [f]) := by
    rintro _ slot rfl hslot hnone
    rw [fieldValue_concat_new (by rw [← hslot]; simpa using hnone)]
  have hold : ∀ {name : Bytes} {slot : Option Bytes}, f.name ≠ name → slot = fieldValue name fs →
      slot = fieldValue name (fs ++ [f]) := fun hne hslot => by
    rw [fieldValue_concat_ne hne, hslot]
  have hother : ∀ {a b : Bytes}, f.name = a → a ≠ b → f.name ≠ b := fun ha hab => ha ▸ hab
  unfold h2EmitPseudo at hacc ⊢
  split at hacc
  · exact absurd x.bad_rejects hacc
  · rename_i hfirst
    rw [if_neg hfirst]
    by_cases hm : f.name = str ":method"
    · rw [if_pos hm] at hacc ⊢
      split at hacc
      · exact absurd x.bad_rejects hacc
      · rename_i hnone
        rw [if_neg hnone]
        exact ⟨h.leading, hnew hm h.method hnone, hold (hother hm (by decide)) h.path,
          hold (hother hm (by decide)) h.authority, hregular⟩
    rw [if_neg hm] at hacc ⊢
    by_cases hs : f.name = str ":scheme"
    · rw [if_pos hs] at hacc ⊢
      split at hacc
      · exact absurd x.bad_rejects hacc
      · rename_i hnone
        rw [if_neg hnone]
        exact ⟨h.leading, hold hm h.method, hold (hother hs (by decide)) h.path,
          hold (hother hs (by decide)) h.authority, hregular⟩
    rw [if_neg hs] at hacc ⊢
    by_cases hp : f.name = str ":path"
    · rw [if_pos hp] at hacc ⊢
      split at hacc
      · exact absurd x.bad_rejects hacc
      · rename_i hnone
        rw [if_neg hnone]
        exact ⟨h.leading, hold hm h.method, hnew hp h.path hnone, hold (hother hp (by decide)) h.authority,
          hregular⟩
    rw [if_neg hp] at hacc ⊢
    by_cases ha : f.name = str ":authority"
    · rw [if_pos ha] at hacc ⊢
      split at hacc
      · exact absurd x.bad_rejects hacc
      · rename_i hnone
        rw [if_neg hnone]
        exact ⟨h.leading, hold hm h.method, hold hp h.path, hnew ha h.authority hnone, hregular⟩
    rw [if_neg ha] at hacc
    exact absurd x.bad_rejects hacc

/-- A regular field that is taken goes to the end of the others. -/
theorem h2EmitRegular_collected {lim : ZhsLimits} {fs : List Field} {x : HdrCtx} {f : Field}
    (h : x.Collected fs) (hregular : f.isPseudo = false)
    (hacc : ¬(h2EmitRegular lim x f.name f.value).2 ≠ 0) :
    (h2EmitRegular lim x f.name f.value).1.Collected (fs ++ [f]) := by
  have hslot : ∀ {name : Bytes}, name.head? = some 58 → fieldValue name (fs ++ [f]) = fieldValue name fs :=
    fun hname => fieldValue_concat_ne (ne_of_regular hregular hname) fs
  unfold h2EmitRegular at hacc ⊢
  dsimp only at hacc ⊢
  split at hacc
  · exact absurd (HdrCtx.bad_rejects _) hacc
  · rename_i h1
    rw [if_neg h1]
    split at hacc
    · exact absurd (HdrCtx.bad_rejects _) hacc
    · rename_i h2
      rw [if_neg h2]
      split at hacc
      · exact absurd (HdrCtx.bad_rejects _) hacc
      · rename_i h3
        rw [if_neg h3, if_neg (by rw [h.leading]; exact Bool.false_ne_true)]
        rw [if_neg (by rw [h.leading]; exact Bool.false_ne_true)] at hacc
        cases hadd : x.headers.add f.name f.value lim false with
        | error e =>
          rw [hadd] at hacc
          exact absurd (HdrCtx.bad_rejects _) hacc
        | ok headers =>
          refine ⟨h.leading, ?_, ?_, ?_, ?_⟩
          · rw [hslot (by decide)]
            exact h.method
          · rw [hslot (by decide)]
            exact h.path
          · rw [hslot (by decide)]
            exact h.authority
          · rw [regularFields_concat, hregular, ← h.fields]
            rfl

theorem h2Emit_collected {lim : ZhsLimits} (fs : List Field) (x : HdrCtx) (f : Field) (h : x.Collected fs)
    (hacc : ¬(h2Emit lim x f.name f.value).2 ≠ 0) :
    (h2Emit lim x f.name f.value).1.Collected (fs ++ [f]) := by
  unfold h2Emit at hacc ⊢
  by_cases hname : f.name.head? = some 58
  · rw [if_pos hname] at hacc ⊢
    exact h2EmitPseudo_collected h (isPseudo_iff.mpr hname) hacc
  · rw [if_neg hname] at hacc ⊢
    exact h2EmitRegular_collected h (Bool.eq_false_iff.mpr fun hp => hname (isPseudo_iff.mp hp)) hacc

/-- The head of a request is made of the fields collected. -/
theorem h2Head_raw {g : H2Cfg} {fs : List Field} {x : HdrCtx} (h : x.Collected fs) {body : Bytes} {req : HttpReq}
    (hhead : h2Head g x body = some req) : req.raw = sectionRaw fs := by
  unfold h2Head at hhead
  split at hhead
  · rename_i method scheme target hmethod hscheme htarget
    split at hhead
    · cases hhead
    · split at hhead
      · cases hhead
      · cases hhead
        rw [sectionRaw, ← h.method, ← h.path, ← h.authority, ← h.fields, hmethod, htarget]
        rfl
  · cases hhead

/-! ### The connection -/

variable {g : H2Cfg} {c : Zh2Conn}

/-- **The head of a request is that of the field block received**, while the table is the peer's. -/
theorem Run.head_raw (h : Run g c) (hw : c.Whole) (he : c.gotError = false) (htrailer : c.hdrTrailer = false)
    (hok : (blockRes g c).rc = .ok) {body : Bytes} {req : HttpReq}
    (hhead : h2Head g (blockRes g c).u body = some req) {s : WireSection}
    (hs : s = ⟨blocksOf c.hist, wireBlock c.hist⟩) (hstep : s.InStep g.lim) :
    s.fields.map sectionRaw = some req.raw := by
  subst hs
  have htable : c.dec.abs = refTable (blocksOf c.hist) := h.sync.table he hstep
  have hgathers := zhpDecode_gathers (R := HdrCtx.Collected) (fun fs x f => h2Emit_collected fs x f)
    h.sync.dec ⟨htrailer, rfl, rfl, rfl, rfl⟩ hok
  obtain ⟨hall, hcollected⟩ := hgathers
  rw [htable] at hall hcollected
  rw [WireSection.fields, ← hw.octets]
  change (if (Hpack.decode none (refTable (blocksOf c.hist)) c.hdrBlock).ok = true then _ else none).map sectionRaw = _
  rw [if_pos hall, Option.map_some, h2Head_raw hcollected hhead]

end Zcio
