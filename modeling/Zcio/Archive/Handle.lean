import Zcio.Http.Request
import Zcio.Tcp.Clients

/-!
# Zcio.Archive.Handle

`archive.c`: entries of an archive, written and read through libarchive. The handle of a write
collects an entry and hands it over as a whole when the next one begins; that of a read holds the
contents of one entry.

libarchive is a script: what each of its calls returns. `LaWrite.offers` records what was handed over.
-/

namespace Zcio

def ZCIO_ERR_ARCHIVE : Int := -7
def ZCIO_ERR_UNSUPPORTED : Int := -9

/-- `ZCIO_ARCHIVE_MAX_ENTRY`. -/
def ZCIO_ARCHIVE_MAX_ENTRY : Nat := 256 * 1024 * 1024

/-! ### libarchive

What the functions of libarchive take and give, as the calls see it. -/

/-- An entry that was handed to libarchive, and what came of it. -/
structure LaOffer where
  pathname : Bytes
  /-- `archive_entry_set_size`. -/
  size : Nat
  /-- `archive_write_header` returned `ARCHIVE_OK`. -/
  headerOk : Bool
  /-- What `archive_write_data` was called with, if it was called. -/
  data : Option Bytes
  /-- What that call returned, 0 without one; nothing is an error. -/
  took : Option Nat
  deriving Repr, DecidableEq

/-- A `struct archive` that writes. -/
structure LaWrite where
  /-- Whether each further header is written. -/
  headers : List Bool := []
  /-- What each further `archive_write_data` takes, at most. -/
  datas : List (Option Nat) := []
  /-- `archive_error_string`. -/
  err : Bytes := []
  offers : List LaOffer := []
  deriving Repr, DecidableEq

/-- An entry as `archive_read_next_header` and `archive_read_data` give it. -/
structure LaEntry where
  pathname : Option Bytes
  size : Int
  /-- What each further read gives; nothing is the end of the entry. -/
  data : List (Except Unit Bytes)

/-- What a call finds of an archive to read. -/
structure LaRead where
  /-- `archive_read_new` succeeds. -/
  created : Bool := true
  /-- The entries up to the end or to a header that cannot be read; none if the file does not open. -/
  file : Option (List LaEntry)
  mallocOk : Bool := true
  err : Bytes := []

/-! ### The handle -/

/-- `zcio_archive_mode`. -/
inductive ArchiveMode where
  | read
  | write
  deriving Repr, DecidableEq

/-- `zcio_archive`. -/
structure Archive where
  mode : ArchiveMode
  path : Bytes
  writeArc : Option LaWrite := none
  /-- The pathname of the active write entry. -/
  entry : Option Bytes := none
  rbuf : Option Bytes := none
  rpos : Nat := 0
  wbuf : Bytes := []
  wcap : Nat := 0
  deriving Repr, DecidableEq

/-- `flush_write_entry`: the entry is released, whatever comes of it. -/
def flushWriteEntry (a : Archive) : Except HttpFail Unit × Archive :=
  match a.writeArc, a.entry with
  | some arc, some pathname =>
    let headerOk := arc.headers.headD true
    let writes := headerOk && a.wbuf != []
    let took := if writes then (arc.datas.headD (some a.wbuf.length)).map (min a.wbuf.length) else some 0
    let arc' : LaWrite := { arc with
      headers := arc.headers.tail
      datas := if writes then arc.datas.tail else arc.datas
      offers := arc.offers ++
        [{ pathname, size := a.wbuf.length, headerOk, data := if writes then some a.wbuf else none, took }] }
    let rc : Except HttpFail Unit :=
      if !headerOk then httpFail ZCIO_ERR_ARCHIVE (str "archive: write header failed: " ++ arc.err)
      else if took = some a.wbuf.length then .ok ()
      else httpFail ZCIO_ERR_ARCHIVE (str "archive: write data failed: " ++ arc.err)
    (rc, { a with writeArc := some arc', entry := none, wbuf := [], wcap := 0 })
  | _, _ => (.ok (), a)

/-- What `zcio_archive_open` is given by the allocator and by libarchive. -/
structure ArchiveOpen where
  callocOk : Bool := true
  strdupOk : Bool := true
  /-- `archive_write_new`, and whether it opens the file. -/
  writeNew : Option LaWrite := some {}
  openOk : Bool := true

/-- `zcio_archive_open`: an archive to read is opened by each operation. -/
def zcioArchiveOpen (path : CArg) (mode : ArchiveMode) (io : ArchiveOpen) : Except HttpFail Archive :=
  match path with
  | none => httpFail ZCIO_ERR_INVALID_ARG (str "archive: NULL path")
  | some path =>
    if !io.callocOk || !io.strdupOk then httpFail ZCIO_ERR_NOMEM (str "archive: out of memory")
    else
      match mode with
      | .read => .ok { mode, path }
      | .write =>
        match io.writeNew with
        | none => httpFail ZCIO_ERR_ARCHIVE (str "archive: archive_write_new failed")
        | some arc =>
          if io.openOk then .ok { mode, path, writeArc := some arc }
          else httpFail ZCIO_ERR_ARCHIVE (str "archive: open '" ++ path ++ str "' for write failed: " ++ arc.err)

/-- `zcio_archive_close`: what libarchive has when it closes the file. A failure is not reported. -/
def zcioArchiveClose (a : Archive) : Option LaWrite :=
  if a.mode = .write ∧ a.writeArc.isSome then
    (if a.entry.isSome then (flushWriteEntry a).2 else a).writeArc
  else none

/-! ### Entries

An entry is described first and written when the next one is set. -/

/-- The reads of `zcio_archive_set_entry`, with `got` so far: what is behind `want` octets is not asked
for. The flag is a read that failed. -/
def readEntryData (want : Nat) : Bytes → List (Except Unit Bytes) → Bytes × Bool
  | got, [] => (got, false)
  | got, r :: rest =>
    if want ≤ got.length then (got, false)
    else
      match r with
      | .error () => (got, true)
      | .ok [] => (got, false)
      | .ok b => readEntryData want (got ++ b.take (want - got.length)) rest

/-- The contents of the entry that was found. -/
def loadEntry (name : Bytes) (e : LaEntry) (io : LaRead) : Except HttpFail Bytes :=
  let size := if e.size < 0 then 0 else e.size.toNat
  if size > ZCIO_ARCHIVE_MAX_ENTRY then
    httpFail ZCIO_ERR_ARCHIVE (str "archive: entry '" ++ name ++ str "' size " ++ decimal size ++
      str " exceeds " ++ decimal ZCIO_ARCHIVE_MAX_ENTRY ++ str " byte limit")
  else if !io.mallocOk then httpFail ZCIO_ERR_NOMEM (str "archive: out of memory")
  else
    let r := readEntryData size [] e.data
    if r.2 ∨ r.1.length ≠ size then
      httpFail ZCIO_ERR_ARCHIVE (str "archive: entry '" ++ name ++ str "' truncated or unreadable (got " ++
        decimal r.1.length ++ str " of " ++ decimal size ++ str "): " ++ io.err)
    else .ok r.1

/-- The search of `zcio_archive_set_entry`: the first entry with the name. -/
def findEntry (path name : Bytes) (io : LaRead) : Except HttpFail Bytes :=
  if !io.created then httpFail ZCIO_ERR_ARCHIVE (str "archive: archive_read_new failed")
  else
    match io.file with
    | none => httpFail ZCIO_ERR_ARCHIVE (str "archive: open '" ++ path ++ str "' failed: " ++ io.err)
    | some entries =>
      match entries.find? fun e => e.pathname == some name with
      | none => httpFail ZCIO_ERR_ARCHIVE (str "archive: entry not found: " ++ name)
      | some e => loadEntry name e io

/-- What a call is given: by the allocator for a new entry or a longer buffer, and by libarchive. -/
structure ArchiveIo where
  entryOk : Bool := true
  reallocOk : Bool := true
  read : LaRead := { file := none }

/-- `zcio_archive_set_entry`. -/
def zcioArchiveSetEntry (a : Archive) (name : CArg) (io : ArchiveIo) : Except HttpFail Unit × Archive :=
  match name with
  | none => (httpFail ZCIO_ERR_INVALID_ARG (str "archive: NULL arg"), a)
  | some name =>
    match a.mode with
    | .write =>
      match (if a.entry.isSome then flushWriteEntry a else (.ok (), a)) with
      | (.error e, a) => (.error e, a)
      | (.ok (), a) =>
        if io.entryOk then (.ok (), { a with entry := some name, wbuf := [], wcap := 0 })
        else (httpFail ZCIO_ERR_ARCHIVE (str "archive: archive_entry_new failed"), a)
    | .read =>
      let a := { a with rbuf := none, rpos := 0 }
      match findEntry a.path name io.read with
      | .error e => (.error e, a)
      | .ok b => (.ok (), { a with rbuf := some b })

/-- `zcio_archive_entries`: a name that is not there is empty. -/
def zcioArchiveEntries (a : Archive) (io : LaRead) : Except HttpFail (List Bytes) :=
  if a.mode ≠ .read then httpFail ZCIO_ERR_UNSUPPORTED (str "archive: entries() only in read mode")
  else if !io.created then httpFail ZCIO_ERR_ARCHIVE (str "archive: archive_read_new failed")
  else
    match io.file with
    | none => httpFail ZCIO_ERR_ARCHIVE (str "archive: open '" ++ a.path ++ str "' failed: " ++ io.err)
    | some entries =>
      if !io.mallocOk ∧ entries ≠ [] then httpFail ZCIO_ERR_NOMEM (str "archive: out of memory listing entries")
      else .ok (entries.map fun e => e.pathname.getD [])

/-- `zcio_archive_entry_string`, without the NUL behind it. -/
def zcioArchiveEntryString (a : Archive) (mallocOk : Bool) : Except HttpFail Bytes :=
  if a.mode ≠ .read then httpFail ZCIO_ERR_UNSUPPORTED (str "archive: entry_string only in read mode")
  else
    match a.rbuf with
    | none => httpFail ZCIO_ERR_ARCHIVE (str "archive: no active entry")
    | some b => if mallocOk then .ok b else httpFail ZCIO_ERR_NOMEM (str "archive: out of memory")

/-- `zcio_archive_read` into a buffer of `n` octets. -/
def zcioArchiveRead (a : Archive) (n : Nat) : Except HttpFail Bytes × Archive :=
  if a.mode ≠ .read then (httpFail ZCIO_ERR_UNSUPPORTED (str "archive: read only in read mode"), a)
  else
    match a.rbuf with
    | none => (httpFail ZCIO_ERR_ARCHIVE (str "archive: no active entry"), a)
    | some b =>
      let take := min n (b.length - a.rpos)
      (.ok ((b.drop a.rpos).take take), { a with rpos := a.rpos + take })

/-- The capacity that `zcio_archive_write` grows to: `while (ncap < need) ncap *= 2`. -/
def growWcap (need cap : Nat) : Nat := doubleUntil (need - 1) need (if cap ≠ 0 then cap else 4096)

/-- `zcio_archive_write`. -/
def zcioArchiveWrite (a : Archive) (data : Bytes) (io : ArchiveIo) : Except HttpFail Nat × Archive :=
  if a.mode ≠ .write then (httpFail ZCIO_ERR_UNSUPPORTED (str "archive: write only in write mode"), a)
  else if a.entry.isNone then
    (httpFail ZCIO_ERR_ARCHIVE (str "archive: no active entry (call set_entry)"), a)
  else if data.length = 0 then (.ok 0, a)
  else if a.wbuf.length + data.length > a.wcap then
    if io.reallocOk then
      (.ok data.length, { a with
        wbuf := a.wbuf ++ data
        wcap := growWcap (a.wbuf.length + data.length) a.wcap })
    else (httpFail ZCIO_ERR_NOMEM (str "archive: out of memory"), a)
  else (.ok data.length, { a with wbuf := a.wbuf ++ data })

end Zcio
