import Mathlib.Data.List.Forall2
import Zcio.Archive.Handle

/-!
# Zcio.Archive.RoundTrip

What is written to an archive reads back. `Draft` is the archive as the caller knows it: from the
calls and their results alone. In every run libarchive is handed exactly the entries of the draft
(`archiveRun_drafts`), whatever fails: a header for each of them, and behind a header that was written
the octets. An archive that holds them gives the first entry of a name, in pieces of any size
(`archive_roundTrip`).

`Archive.Drafts` ties the handle to the draft along a run, whatever comes of the calls;
`Archive.AllKept` is what a run without failures adds to it.
-/

namespace Zcio

/-! ### Calls on an archive that is written -/

inductive ArchiveCall where
  | setEntry (name : CArg) (io : ArchiveIo)
  | write (data : Bytes) (io : ArchiveIo)

/-- A call; `ZCIO_OK` is 0. -/
def ArchiveCall.run (a : Archive) : ArchiveCall → Except HttpFail Nat × Archive
  | .setEntry name io =>
    let r := zcioArchiveSetEntry a name io
    (r.1.map fun _ => 0, r.2)
  | .write data io => zcioArchiveWrite a data io

/-- The calls with their results, and the handle behind them. -/
def archiveRun (a : Archive) : List ArchiveCall → List (ArchiveCall × Except HttpFail Nat) × Archive
  | [] => ([], a)
  | call :: calls =>
    let r := call.run a
    let s := archiveRun r.2 calls
    ((call, r.1) :: s.1, s.2)

/-! ### What the caller knows

The entries as the caller has described them, call by call. -/

/-- The entries that are complete, and the one that is being written. -/
structure Draft where
  done : List (Bytes × Bytes) := []
  cur : Option (Bytes × Bytes) := none

/-- An entry begins where the last one ends, and has what the writes behind it were told to have
taken. -/
def Draft.step (d : Draft) : ArchiveCall × Except HttpFail Nat → Draft
  | (.setEntry none _, _) => d
  | (.setEntry (some name) _, .ok _) => { done := d.done ++ d.cur.toList, cur := some (name, []) }
  | (.setEntry (some _) _, .error _) => { done := d.done ++ d.cur.toList }
  | (.write data _, .ok n) => { d with cur := d.cur.map fun e => (e.1, e.2 ++ data.take n) }
  | (.write _ _, .error _) => d

/-- All entries, with the one that `zcio_archive_close` ends. -/
def Draft.entries (d : Draft) : List (Bytes × Bytes) := d.done ++ d.cur.toList

def draftOf (transcript : List (ArchiveCall × Except HttpFail Nat)) : Draft := transcript.foldl Draft.step {}

/-! ### What libarchive is handed

An entry is handed over when the next one is begun or the archive is closed: first its
header, then its data. -/

/-- The header was written and all of the data was taken. -/
def LaOffer.Kept (o : LaOffer) : Prop := o.headerOk = true ∧ o.took = some o.size

instance (o : LaOffer) : Decidable o.Kept := inferInstanceAs (Decidable (_ ∧ _))

/-- The entry was handed over: its name and its size in the header, and behind a header that was
written its octets, if there are any, in one call. -/
structure LaOffer.Gives (o : LaOffer) (e : Bytes × Bytes) : Prop where
  pathname : o.pathname = e.1
  size : o.size = e.2.length
  data : o.data = if o.headerOk && e.2 != [] then some e.2 else none

/-- The entries of the offers, an entry without data being empty. -/
def LaWrite.entries (arc : LaWrite) : List (Bytes × Bytes) := arc.offers.map fun o => (o.pathname, o.data.getD [])

/-- Where all headers were written these are the entries that were handed over. -/
theorem entries_of_gives {arc : LaWrite} {es : List (Bytes × Bytes)} (h : List.Forall₂ LaOffer.Gives arc.offers es)
    (hkept : ∀ o ∈ arc.offers, o.Kept) : arc.entries = es := by
  rw [LaWrite.entries]
  generalize arc.offers = offers at h hkept
  induction h with
  | nil => rfl
  | @cons o e offers es hgives _ ih =>
    have hheader : o.headerOk = true := (hkept o List.mem_cons_self).1
    have hdata : o.data.getD [] = e.2 := by
      rw [hgives.data, hheader, Bool.true_and]
      cases hempty : e.2 with
      | nil => rfl
      | cons c cs => rfl
    rw [List.map_cons, hgives.pathname, hdata, ih fun o' ho' => hkept o' (List.mem_cons_of_mem _ ho')]

/-- The handle of a write has handed over what is complete, and collects what is being written. -/
structure Archive.Drafts (a : Archive) (d : Draft) : Prop where
  mode : a.mode = .write
  done : ∃ arc, a.writeArc = some arc ∧ List.Forall₂ LaOffer.Gives arc.offers d.done
  cur : a.entry.map (fun name => (name, a.wbuf)) = d.cur
  room : a.wbuf.length ≤ a.wcap

theorem le_growWcap (need cap : Nat) : need ≤ growWcap need cap := by
  have hroom : need - 1 < (if cap ≠ 0 then cap else 4096) * 2 ^ need := by
    have hpow : need < 2 ^ need := Nat.lt_two_pow_self
    have hpos : 1 ≤ if cap ≠ 0 then cap else 4096 := by
      split
      · omega
      · decide
    exact (Nat.sub_le need 1).trans_lt (hpow.trans_le (Nat.le_mul_of_pos_left _ hpos))
  have hspec := (doubleUntil_spec (need - 1) need _ hroom).1
  rw [growWcap]
  omega

section Write

variable {a : Archive} {d : Draft}

/-- **What a flush does**: the entry is handed over, and the result says whether it was kept. -/
theorem flushWriteEntry_spec {arc : LaWrite} {name : Bytes} (harc : a.writeArc = some arc) (hentry : a.entry = some name) :
    ∃ arc' o, (flushWriteEntry a).2 = { a with writeArc := some arc', entry := none, wbuf := [], wcap := 0 } ∧
      arc'.offers = arc.offers ++ [o] ∧ o.Gives (name, a.wbuf) ∧
      ((flushWriteEntry a).1 = .ok () ↔ o.Kept) := by
  have hresult : ∀ (headerOk : Bool) (took : Option Nat) (header data : Bytes),
      (if !headerOk then httpFail ZCIO_ERR_ARCHIVE header
        else if took = some a.wbuf.length then .ok ()
        else httpFail ZCIO_ERR_ARCHIVE data) = Except.ok () ↔ headerOk = true ∧ took = some a.wbuf.length := by
    intro headerOk took header data
    cases headerOk with
    | false => simp [httpFail]
    | true =>
      by_cases htook : took = some a.wbuf.length
      · simp [htook]
      · simp [htook, httpFail]
  rw [flushWriteEntry, harc, hentry]
  exact ⟨_, _, rfl, rfl, ⟨rfl, rfl, rfl⟩, hresult _ _ _ _⟩

/-- Where no entry is active there is nothing to flush; else what is complete grows by it. -/
theorem Archive.Drafts.flushed (h : a.Drafts d) :
    ∃ a', (if a.entry.isSome then flushWriteEntry a else (.ok (), a)).2 = a' ∧
      a'.Drafts { done := d.done ++ d.cur.toList } ∧ a'.entry = none := by
  obtain ⟨arc, harc, hdone⟩ := h.done
  cases hentry : a.entry with
  | none =>
    have hcur : d.cur = none := by rw [← h.cur, hentry]; rfl
    refine ⟨a, rfl, ⟨h.mode, ⟨arc, harc, ?_⟩, by rw [hentry]; rfl, h.room⟩, hentry⟩
    rw [hcur]
    exact (List.append_nil d.done).symm ▸ hdone
  | some name =>
    have hcur : d.cur = some (name, a.wbuf) := by rw [← h.cur, hentry]; rfl
    obtain ⟨arc', o, hflush, hoffers, hgives, -⟩ := flushWriteEntry_spec harc hentry
    refine ⟨_, hflush, ⟨h.mode, ⟨arc', rfl, ?_⟩, rfl, Nat.le_refl 0⟩, rfl⟩
    rw [hoffers, hcur]
    exact List.rel_append hdone (.cons hgives .nil)

theorem Archive.Drafts.setEntry (h : a.Drafts d) (name : CArg) (io : ArchiveIo) :
    (zcioArchiveSetEntry a name io).2.Drafts
      (d.step (.setEntry name io, ((zcioArchiveSetEntry a name io).1.map fun _ => 0))) := by
  cases name with
  | none => exact h
  | some name =>
    obtain ⟨a', hflush, hdrafts, hentry⟩ := h.flushed
    rw [zcioArchiveSetEntry, h.mode]
    dsimp only
    rcases hrun : (if a.entry.isSome then flushWriteEntry a else (.ok (), a)) with ⟨res, a''⟩
    rw [hrun] at hflush
    obtain rfl : a'' = a' := hflush
    cases res with
    | error e => exact hdrafts
    | ok _ =>
      cases hio : io.entryOk with
      | false => exact hdrafts
      | true => exact ⟨hdrafts.mode, hdrafts.done, rfl, Nat.le_refl 0⟩

theorem Archive.Drafts.write (h : a.Drafts d) (data : Bytes) (io : ArchiveIo) :
    (zcioArchiveWrite a data io).2.Drafts (d.step (.write data io, (zcioArchiveWrite a data io).1)) := by
  have htaken : ∀ n, data.length ≤ n → a.entry.map (fun name => (name, a.wbuf ++ data)) =
      (d.step (.write data io, .ok n)).cur := by
    intro n hn
    rw [Draft.step, ← h.cur, Option.map_map, List.take_of_length_le hn]
    rfl
  rw [zcioArchiveWrite, if_neg (by rw [h.mode]; exact fun hne => hne rfl)]
  split
  · exact h
  · split
    · rename_i hempty
      have hnil := List.eq_nil_of_length_eq_zero hempty
      refine ⟨h.mode, h.done, ?_, h.room⟩
      rw [← htaken 0 (le_of_eq hempty), hnil, List.append_nil]
    · split
      · split
        · exact ⟨h.mode, h.done, htaken _ (le_refl _), by
            rw [List.length_append]
            exact le_growWcap _ _⟩
        · exact h
      · rename_i hroom
        refine ⟨h.mode, h.done, htaken _ (le_refl _), ?_⟩
        rw [List.length_append]
        exact Nat.not_lt.mp hroom

theorem Archive.Drafts.run (h : a.Drafts d) (calls : List ArchiveCall) :
    (archiveRun a calls).2.Drafts ((archiveRun a calls).1.foldl Draft.step d) := by
  induction calls generalizing a d with
  | nil => exact h
  | cons call calls ih =>
    cases call with
    | setEntry name io => exact ih (h.setEntry name io)
    | write data io => exact ih (h.write data io)

/-- The end of it. -/
theorem Archive.Drafts.close (h : a.Drafts d) :
    ∃ arc, zcioArchiveClose a = some arc ∧ List.Forall₂ LaOffer.Gives arc.offers d.entries := by
  obtain ⟨a', hflush, hdrafts, -⟩ := h.flushed
  obtain ⟨arc, harc, hdone⟩ := hdrafts.done
  obtain ⟨arc₀, harc₀, -⟩ := h.done
  have hsnd : (if a.entry.isSome then (flushWriteEntry a).2 else a) = a' := by
    rw [← hflush]
    split
    · rfl
    · rfl
  refine ⟨arc, ?_, hdone⟩
  rw [zcioArchiveClose, if_pos ⟨h.mode, by rw [harc₀]; rfl⟩, hsnd, harc]

/-! ### What was kept

libarchive may refuse a header or its data, and is then not asked for the rest of that
entry. -/

/-- Everything that was handed over was kept. -/
def Archive.AllKept (a : Archive) : Prop := ∀ arc, a.writeArc = some arc → ∀ o ∈ arc.offers, o.Kept

/-- Behind a flush that succeeds. -/
theorem Archive.AllKept.flushed (h : a.AllKept) (hd : a.Drafts d)
    (hok : (if a.entry.isSome then flushWriteEntry a else (.ok (), a)).1 = .ok ()) :
    (if a.entry.isSome then flushWriteEntry a else (.ok (), a)).2.AllKept := by
  obtain ⟨arc, harc, -⟩ := hd.done
  cases hentry : a.entry with
  | none => exact h
  | some name =>
    rw [hentry] at hok
    obtain ⟨arc', o, hflush, hoffers, -, hkept⟩ := flushWriteEntry_spec harc hentry
    have hflush' : (if (some name).isSome then flushWriteEntry a else (.ok (), a)).2 = _ := hflush
    intro arc'' harc'' o' ho'
    rw [hflush'] at harc''
    cases harc''
    rw [hoffers, List.mem_append, List.mem_singleton] at ho'
    obtain ho' | rfl := ho'
    · exact h arc harc o' ho'
    · exact hkept.mp hok

theorem Archive.AllKept.call (h : a.AllKept) (hd : a.Drafts d) (call : ArchiveCall)
    (hok : (call.run a).1.toBool = true) : (call.run a).2.AllKept := by
  cases call with
  | setEntry name io =>
    cases name with
    | none => exact h
    | some name =>
      have hflush := h.flushed hd
      rw [ArchiveCall.run, zcioArchiveSetEntry, hd.mode] at hok ⊢
      dsimp only at hok ⊢
      rcases hrun : (if a.entry.isSome then flushWriteEntry a else (.ok (), a)) with ⟨res, a'⟩
      rw [hrun] at hok hflush
      cases res with
      | error e => cases hok
      | ok _ =>
        have hkept : a'.AllKept := hflush rfl
        cases hio : io.entryOk with
        | false => exact hkept
        | true => exact hkept
  | write data io =>
    rw [ArchiveCall.run, zcioArchiveWrite]
    split
    · exact h
    split
    · exact h
    split
    · exact h
    split
    · split
      · exact h
      · exact h
    · exact h

theorem Archive.AllKept.run (h : a.AllKept) (hd : a.Drafts d) (calls : List ArchiveCall)
    (hok : ∀ r ∈ (archiveRun a calls).1, r.2.toBool = true) : (archiveRun a calls).2.AllKept := by
  induction calls generalizing a d with
  | nil => exact h
  | cons call calls ih =>
    have hfirst : (call.run a).1.toBool = true := hok (call, (call.run a).1) List.mem_cons_self
    have hrest : ∀ r ∈ (archiveRun (call.run a).2 calls).1, r.2.toBool = true :=
      fun r hr => hok r (List.mem_cons_of_mem _ hr)
    exact ih (h.call hd call hfirst) (hd.run [call]) hrest

/-- The close flushes one entry at most, so all entries in front of it are kept. -/
theorem Archive.AllKept.beforeClose (h : a.AllKept) (hd : a.Drafts d) {arc : LaWrite}
    (hclose : zcioArchiveClose a = some arc) : ∀ o ∈ arc.offers.dropLast, o.Kept := by
  obtain ⟨arc₀, harc₀, -⟩ := hd.done
  rw [zcioArchiveClose, if_pos ⟨hd.mode, by rw [harc₀]; rfl⟩] at hclose
  cases hentry : a.entry with
  | none =>
    rw [hentry] at hclose
    exact fun o ho => h arc hclose o (List.dropLast_subset _ ho)
  | some name =>
    obtain ⟨arc', o, hflush, hoffers, -⟩ := flushWriteEntry_spec harc₀ hentry
    rw [hentry, Option.isSome_some, if_pos rfl, hflush] at hclose
    obtain rfl : arc' = arc := Option.some.inj hclose
    rw [hoffers, List.dropLast_concat]
    exact h arc₀ harc₀

/-- With the last one all are kept. -/
theorem forall_of_dropLast {α : Type} {p : α → Prop} {l : List α} (h : ∀ x ∈ l.dropLast, p x)
    (hlast : ∀ x ∈ l.getLast?, p x) : ∀ x ∈ l, p x := by
  intro x hx
  have hne : l ≠ [] := List.ne_nil_of_mem hx
  rw [← List.dropLast_append_getLast hne, List.mem_append, List.mem_singleton] at hx
  obtain hx | rfl := hx
  · exact h x hx
  · exact hlast _ (List.getLast?_eq_some_getLast hne)

end Write

/-! ### What is read

The entries that a reader finds, piece by piece. -/

/-- Reads into buffers of these sizes. -/
def archiveReads (a : Archive) : List Nat → List (Except HttpFail Bytes) × Archive
  | [] => ([], a)
  | n :: ns =>
    let r := zcioArchiveRead a n
    let s := archiveReads r.2 ns
    (r.1 :: s.1, s.2)

/-- The pieces of these sizes, from the beginning on. -/
def piecesOf : List Nat → Bytes → List Bytes
  | [], _ => []
  | n :: ns, b => b.take n :: piecesOf ns (b.drop n)

/-- An entry of the file: its data comes in pieces. -/
structure HoldsEntry (e : Bytes × Bytes) (f : LaEntry) : Prop where
  pathname : f.pathname = some e.1
  size : f.size = e.2.length
  data : ∃ pieces : List Bytes, f.data = pieces.map .ok ∧ pieces.flatten = e.2 ∧ ∀ p ∈ pieces, p ≠ []

/-- No entry is active: there is nothing to read. -/
def Archive.Inactive (a : Archive) : Prop :=
  ∀ n, (zcioArchiveRead a n).1 = httpFail ZCIO_ERR_ARCHIVE (str "archive: no active entry")

/-- What a reader of an archive makes of a name: an entry of the name that is not too long is read from
its beginning, in pieces of any size. -/
def ReadsBack (a : Archive) (io : LaRead) (name : Bytes) (found : Option Bytes) : Prop :=
  let s := zcioArchiveSetEntry a (some name) { read := io }
  match found with
  | none => s.1 = httpFail ZCIO_ERR_ARCHIVE (str "archive: entry not found: " ++ name) ∧ s.2.Inactive
  | some b =>
    if b.length ≤ ZCIO_ARCHIVE_MAX_ENTRY then
      s.1 = .ok () ∧ zcioArchiveEntryString s.2 true = .ok b ∧
        ∀ ns, (archiveReads s.2 ns).1 = (piecesOf ns b).map .ok
    else
      s.1 = httpFail ZCIO_ERR_ARCHIVE (str "archive: entry '" ++ name ++ str "' size " ++ decimal b.length ++
        str " exceeds " ++ decimal ZCIO_ARCHIVE_MAX_ENTRY ++ str " byte limit") ∧ s.2.Inactive

section Read

variable {a : Archive}

theorem archiveReads_eq {b : Bytes} (hmode : a.mode = .read) (hrbuf : a.rbuf = some b) (ns : List Nat) :
    (archiveReads a ns).1 = (piecesOf ns (b.drop a.rpos)).map .ok := by
  induction ns generalizing a with
  | nil => rfl
  | cons n ns ih =>
    have hall : (b.drop a.rpos).take (b.length - a.rpos) = b.drop a.rpos :=
      List.take_of_length_le (le_of_eq List.length_drop)
    have htake : (b.drop a.rpos).take (min n (b.length - a.rpos)) = (b.drop a.rpos).take n := by
      rw [← List.take_take, hall]
    have hdrop : b.drop (a.rpos + min n (b.length - a.rpos)) = b.drop (a.rpos + n) := by
      obtain hle | hle := le_total n (b.length - a.rpos)
      · rw [min_eq_left hle]
      · rw [min_eq_right hle, List.drop_eq_nil_of_le (by omega), List.drop_eq_nil_of_le (by omega)]
    have hread : zcioArchiveRead a n =
        (.ok ((b.drop a.rpos).take n), { a with rpos := a.rpos + min n (b.length - a.rpos) }) := by
      rw [zcioArchiveRead, if_neg (by rw [hmode]; exact fun hne => hne rfl), hrbuf]
      dsimp only
      rw [htake]
    rw [archiveReads, hread]
    have hrest := @ih { a with rpos := a.rpos + min n (b.length - a.rpos) } hmode hrbuf
    dsimp only at hrest ⊢
    rw [hrest, hdrop, piecesOf, List.map_cons, List.drop_drop]

theorem readEntryData_pieces {want : Nat} {pieces : List Bytes} (hpieces : ∀ p ∈ pieces, p ≠ []) {got : Bytes}
    (hgot : got.length ≤ want) :
    readEntryData want got (pieces.map .ok) = (got ++ pieces.flatten.take (want - got.length), false) := by
  induction pieces generalizing got with
  | nil => rw [List.map_nil, readEntryData, List.flatten_nil, List.take_nil, List.append_nil]
  | cons p pieces ih =>
    by_cases hfull : want ≤ got.length
    · rw [List.map_cons, Nat.sub_eq_zero_of_le hfull, List.take_zero, List.append_nil]
      cases p with
      | nil => exact absurd rfl (hpieces [] List.mem_cons_self)
      | cons c cs => simp only [readEntryData, if_pos hfull]
    · obtain ⟨c, cs, rfl⟩ := List.exists_cons_of_ne_nil (hpieces p List.mem_cons_self)
      have hmore := @ih (fun q hq => hpieces q (List.mem_cons_of_mem _ hq))
        (got ++ (c :: cs).take (want - got.length)) (by rw [List.length_append, List.length_take]; omega)
      simp only [List.map_cons, readEntryData, if_neg hfull]
      rw [hmore, List.flatten_cons, List.take_append, List.append_assoc, List.length_append, List.length_take]
      congr 4
      omega

/-- An entry that is not too long is loaded whole. -/
theorem loadEntry_holds {e : Bytes × Bytes} {f : LaEntry} (h : HoldsEntry e f) (name : Bytes) {io : LaRead}
    (hmalloc : io.mallocOk = true) :
    loadEntry name f io = if e.2.length ≤ ZCIO_ARCHIVE_MAX_ENTRY then .ok e.2
      else httpFail ZCIO_ERR_ARCHIVE (str "archive: entry '" ++ name ++ str "' size " ++ decimal e.2.length ++
        str " exceeds " ++ decimal ZCIO_ARCHIVE_MAX_ENTRY ++ str " byte limit") := by
  obtain ⟨pieces, hdata, hflat, hne⟩ := h.data
  have hread := @readEntryData_pieces e.2.length _ hne [] (Nat.zero_le _)
  rw [List.nil_append, hflat, List.length_nil, Nat.sub_zero, List.take_length] at hread
  have hsize : (if f.size < 0 then 0 else f.size.toNat) = e.2.length := by
    rw [h.size]
    simp
  rw [loadEntry, hsize, hmalloc, hdata, hread]
  dsimp only
  by_cases hlong : e.2.length > ZCIO_ARCHIVE_MAX_ENTRY
  · rw [if_pos hlong, if_neg (Nat.not_le.mpr hlong)]
  · rw [if_neg hlong, if_pos (Nat.not_lt.mp hlong), if_neg (by decide), if_neg (by simp)]

/-- The file has an entry of the name where what it holds has one. -/
theorem find_holds {es : List (Bytes × Bytes)} {file : List LaEntry} (h : List.Forall₂ HoldsEntry es file) (name : Bytes) :
    (es.find? (fun e => e.1 == name) = none ∧ file.find? (fun f => f.pathname == some name) = none) ∨
      ∃ e f, es.find? (fun e => e.1 == name) = some e ∧ file.find? (fun f => f.pathname == some name) = some f ∧
        HoldsEntry e f := by
  induction h with
  | nil => exact .inl ⟨rfl, rfl⟩
  | @cons e f es file hef _ ih =>
    have hsame : (f.pathname == some name) = (e.1 == name) := by
      rw [hef.pathname]
      rfl
    cases hname : e.1 == name with
    | true =>
      simp only [List.find?_cons, hname, hsame]
      exact .inr ⟨e, f, rfl, rfl, hef⟩
    | false =>
      simp only [List.find?_cons, hname, hsame]
      exact ih

theorem names_of_holds {es : List (Bytes × Bytes)} {file : List LaEntry} (h : List.Forall₂ HoldsEntry es file) :
    file.map (fun f => f.pathname.getD []) = es.map (·.1) := by
  induction h with
  | nil => rfl
  | @cons e f es file hef _ ih =>
    have hname : f.pathname.getD [] = e.1 := by rw [hef.pathname, Option.getD_some]
    rw [List.map_cons, List.map_cons, ih, hname]

/-- **A reader finds what the file holds.** -/
theorem readsBack_of_holds {es : List (Bytes × Bytes)} {file : List LaEntry} (h : List.Forall₂ HoldsEntry es file)
    (hmode : a.mode = .read) {io : LaRead} (hcreated : io.created = true) (hmalloc : io.mallocOk = true)
    (hfile : io.file = some file) (name : Bytes) :
    ReadsBack a io name ((es.find? fun e => e.1 == name).map (·.2)) := by
  have hinactive : ({ a with rbuf := none, rpos := 0 } : Archive).Inactive := by
    intro n
    rw [zcioArchiveRead, if_neg (by rw [hmode]; exact fun hne => hne rfl)]
  have hset : zcioArchiveSetEntry a (some name) { read := io } =
      ((findEntry a.path name io).map (fun _ => ()),
        { a with rbuf := (findEntry a.path name io).toOption, rpos := 0 }) := by
    rw [zcioArchiveSetEntry, hmode]
    dsimp only
    cases findEntry a.path name io with
    | error e => rfl
    | ok b => rfl
  obtain ⟨hnone, hfind⟩ | ⟨e, f, hsome, hfind, hef⟩ := find_holds h name
  · have hload : findEntry a.path name io =
        httpFail ZCIO_ERR_ARCHIVE (str "archive: entry not found: " ++ name) := by
      rw [findEntry, hcreated, hfile]
      dsimp only
      rw [if_neg (by decide), hfind]
    rw [hload] at hset
    simp only [hnone, ReadsBack, hset]
    exact ⟨rfl, hinactive⟩
  · have hload : findEntry a.path name io = loadEntry name f io := by
      rw [findEntry, hcreated, hfile]
      dsimp only
      rw [if_neg (by decide), hfind]
    rw [hload, loadEntry_holds hef name hmalloc] at hset
    simp only [hsome, ReadsBack, hset]
    by_cases hlong : e.2.length ≤ ZCIO_ARCHIVE_MAX_ENTRY
    · simp only [Option.map_some, if_pos hlong]
      refine ⟨rfl, ?_, fun ns => ?_⟩
      · rw [zcioArchiveEntryString, if_neg (by rw [hmode]; exact fun hne => hne rfl)]
        rfl
      · exact archiveReads_eq (a := { a with rbuf := some e.2, rpos := 0 }) hmode rfl ns
    · simp only [Option.map_some, if_neg hlong]
      exact ⟨rfl, hinactive⟩

end Read

/-! ### Runs -/

/-- An archive that was opened for writing. -/
theorem zcioArchiveOpen_drafts {path : CArg} {io : ArchiveOpen} {a : Archive}
    (hopen : zcioArchiveOpen path .write io = .ok a) (hnew : ∀ arc, io.writeNew = some arc → arc.offers = []) :
    a.Drafts {} ∧ a.AllKept := by
  unfold zcioArchiveOpen at hopen
  split at hopen
  · cases hopen
  · split at hopen
    · cases hopen
    · dsimp only at hopen
      split at hopen
      · cases hopen
      · rename_i arc harc
        split at hopen
        · cases hopen
          have hoffers := hnew arc harc
          refine ⟨⟨rfl, ⟨arc, rfl, by rw [hoffers]; exact .nil⟩, rfl, Nat.le_refl 0⟩, ?_⟩
          intro arc' harc'
          obtain rfl : arc = arc' := Option.some.inj harc'
          rw [hoffers]
          exact fun o ho => absurd ho List.not_mem_nil
        · cases hopen

/-- **libarchive is handed the entries of the draft.** Whatever calls fail, and whether for the
allocator or for libarchive: what the closed archive was given are the entries that `set_entry` began,
a header for each, and behind a header that was written the octets that the writes were told to have
taken. If no call failed, all but the last one were kept. -/
theorem archiveRun_drafts {path : CArg} {io : ArchiveOpen} {a : Archive}
    (hopen : zcioArchiveOpen path .write io = .ok a) (hnew : ∀ arc, io.writeNew = some arc → arc.offers = [])
    (calls : List ArchiveCall) :
    ∃ arc, zcioArchiveClose (archiveRun a calls).2 = some arc ∧
      List.Forall₂ LaOffer.Gives arc.offers (draftOf (archiveRun a calls).1).entries ∧
      ((∀ r ∈ (archiveRun a calls).1, r.2.toBool = true) → ∀ o ∈ arc.offers.dropLast, o.Kept) := by
  obtain ⟨hdrafts, hkept⟩ := zcioArchiveOpen_drafts hopen hnew
  have hrun := hdrafts.run calls
  obtain ⟨arc, hclose, hgives⟩ := hrun.close
  exact ⟨arc, hclose, hgives, fun hok => (hkept.run hdrafts calls hok).beforeClose hrun hclose⟩

/-- A handle for which libarchive writes these headers. -/
def sampleArchive (headers : List Bool) : Archive := { mode := .write, path := str "f", writeArc := some { headers } }

/-- A write that finds no memory, and an entry whose header may be refused. -/
def failingArchiveCalls : List ArchiveCall :=
  [.setEntry (some (str "a")) {}, .write (str "x") {}, .write (List.replicate 4096 0) { reallocOk := false },
    .write (str "y") {}, .setEntry (some (str "b")) {}, .write (str "z") {}, .setEntry (some (str "c")) {}]

theorem archiveRun_drafts_failing :
    ∃ arc, zcioArchiveClose (archiveRun (sampleArchive [true, false]) failingArchiveCalls).2 = some arc ∧
      List.Forall₂ LaOffer.Gives arc.offers [(str "a", str "xy"), (str "b", str "z")] := by
  obtain ⟨arc, hclose, hgives, -⟩ := @archiveRun_drafts (some (str "f"))
    { writeNew := some { headers := [true, false] } } (sampleArchive [true, false]) rfl (fun arc harc => by rw [← Option.some.inj harc])
    failingArchiveCalls
  have hdraft : (draftOf (archiveRun (sampleArchive [true, false]) failingArchiveCalls).1).entries =
      [(str "a", str "xy"), (str "b", str "z")] := by decide +kernel
  exact ⟨arc, hclose, hdraft ▸ hgives⟩

/-- **What was written reads back.** The calls succeed, the entry that is left to the close is kept, and
the file then holds what libarchive was given. A reader lists the names in the order in which they were
written, and gets the data of the first entry of a name, in pieces of any size. Longer entries than
`ZCIO_ARCHIVE_MAX_ENTRY` can be written, but not read. -/
theorem archive_roundTrip {path : CArg} {io : ArchiveOpen} {a : Archive}
    (hopen : zcioArchiveOpen path .write io = .ok a) (hnew : ∀ arc, io.writeNew = some arc → arc.offers = [])
    (calls : List ArchiveCall) (hok : ∀ r ∈ (archiveRun a calls).1, r.2.toBool = true)
    {arc : LaWrite} (hclose : zcioArchiveClose (archiveRun a calls).2 = some arc)
    (hlast : ∀ o ∈ arc.offers.getLast?, o.Kept)
    {file : List LaEntry} (hfile : (∀ o ∈ arc.offers, o.Kept) → List.Forall₂ HoldsEntry arc.entries file)
    {r : Archive} (hmode : r.mode = .read) {read : LaRead} (hcreated : read.created = true)
    (hmalloc : read.mallocOk = true) (hread : read.file = some file) :
    let entries := (draftOf (archiveRun a calls).1).entries
    zcioArchiveEntries r read = .ok (entries.map (·.1)) ∧
      ∀ name, ReadsBack r read name ((entries.find? fun e => e.1 == name).map (·.2)) := by
  obtain ⟨hdrafts, hkept⟩ := zcioArchiveOpen_drafts hopen hnew
  have hrun := hdrafts.run calls
  obtain ⟨arc', hclose', hgives⟩ := hrun.close
  obtain rfl : arc' = arc := Option.some.inj (hclose'.symm.trans hclose)
  have hall : ∀ o ∈ arc'.offers, o.Kept :=
    forall_of_dropLast ((hkept.run hdrafts calls hok).beforeClose hrun hclose) hlast
  have hholds := hfile hall
  rw [entries_of_gives hgives hall] at hholds
  refine ⟨?_, readsBack_of_holds hholds hmode hcreated hmalloc hread⟩
  rw [zcioArchiveEntries, if_neg (by rw [hmode]; exact fun hne => hne rfl), hcreated, hread]
  dsimp only
  rw [if_neg (by decide), hmalloc, if_neg (fun h => Bool.false_ne_true h.1), names_of_holds hholds]
  rfl

/-- Two entries of one name, and a write that is cut in two. -/
def sampleArchiveCalls : List ArchiveCall :=
  [.setEntry (some (str "a")) {}, .write (str "xy") {}, .write (str "z") {}, .setEntry (some (str "b")) {},
    .setEntry (some (str "a")) {}, .write (str "old") {}]

/-- The archive as libarchive gives it back. -/
def sampleArchiveFile : List LaEntry :=
  [⟨some (str "a"), 3, [.ok (str "x"), .ok (str "yz")]⟩, ⟨some (str "b"), 0, []⟩, ⟨some (str "a"), 3, [.ok (str "old")]⟩]

/-- The archive when it is closed. -/
def sampleArchiveClosed : LaWrite :=
  { offers := [⟨str "a", 3, true, some (str "xyz"), some 3⟩, ⟨str "b", 0, true, none, some 0⟩,
      ⟨str "a", 3, true, some (str "old"), some 3⟩] }

theorem archive_roundTrip_sample :
    let r : Archive := { mode := .read, path := str "f" }
    let read : LaRead := { file := some sampleArchiveFile }
    zcioArchiveEntries r read = .ok [str "a", str "b", str "a"] ∧
      ReadsBack r read (str "a") (some (str "xyz")) ∧ ReadsBack r read (str "c") none := by
  have hentries : (draftOf (archiveRun (sampleArchive []) sampleArchiveCalls).1).entries =
      [(str "a", str "xyz"), (str "b", []), (str "a", str "old")] := by decide
  have hclose : zcioArchiveClose (archiveRun (sampleArchive []) sampleArchiveCalls).2 = some sampleArchiveClosed := by decide
  have hholds : List.Forall₂ HoldsEntry sampleArchiveClosed.entries sampleArchiveFile :=
    .cons ⟨rfl, rfl, [str "x", str "yz"], rfl, by decide, by decide⟩
      (.cons ⟨rfl, rfl, [], rfl, rfl, fun p hp => absurd hp List.not_mem_nil⟩
        (.cons ⟨rfl, rfl, [str "old"], rfl, by decide, by decide⟩ .nil))
  have h := @archive_roundTrip (some (str "f")) {} (sampleArchive []) rfl
    (fun arc harc => by rw [← Option.some.inj harc]) sampleArchiveCalls (by decide) sampleArchiveClosed hclose (by decide)
    sampleArchiveFile (fun _ => hholds) { mode := .read, path := str "f" } rfl { file := some sampleArchiveFile } rfl rfl rfl
  rw [hentries] at h
  exact ⟨h.1, h.2 (str "a"), h.2 (str "c")⟩

end Zcio
