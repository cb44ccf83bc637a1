import Zcio.H1.Step

/-!
# Zcio.H1.Message

Requests as a client writes them: a request line, header field lines with optional
whitespace, and a body framed by a Content-Length field or in chunks, with any spelling of
the sizes, chunk extensions and a trailer section. `H1Message.bytes` is the message on the
wire, `H1Message.Valid` says when a server with given limits has to accept it, and
`H1Message.request` is the request object it stands for.

The model is of the protocol, not of the code; `Zcio.H1.Framing` connects the two.
-/

namespace Zcio

/-! ### Header fields

A field line with the blanks around its value, which count for the limits and not for the
value. -/

/-- A header field line, optional whitespace around the value included. -/
structure FieldLine where
  name : Bytes
  pre : Bytes := []
  value : Bytes
  post : Bytes := []
  deriving Repr, DecidableEq

namespace FieldLine

/-- The line without its CRLF. -/
def text (f : FieldLine) : Bytes := f.name ++ 58 :: (f.pre ++ f.value ++ f.post)

/-- A token, and a clean value that neither starts nor ends with whitespace. -/
structure Ok (f : FieldLine) : Prop where
  name : zhsTokenOk f.name = true
  value : zhsValueOk f.value = true
  pre : ∀ b ∈ f.pre, isOws b = true
  post : ∀ b ∈ f.post, isOws b = true
  head : ∀ b, f.value.head? = some b → isOws b = false
  last : ∀ b, f.value.getLast? = some b → isOws b = false

/-- What the field counts against the header list's octet cap. -/
def cost (f : FieldLine) : Nat := f.name.length + f.value.length + 32

end FieldLine

/-- The values of the fields called `name`, in order. -/
def fieldValues (fs : List FieldLine) (name : Bytes) : List Bytes :=
  (fs.filter fun f => lower f.name == name).map (·.value)

/-- The header list after storing the fields one by one. -/
def storeAll (lim : ZhsLimits) (h : ZhsHdrs) (fs : List FieldLine) : ZhsHdrs :=
  fs.foldl (fun h f => ((h.add f.name f.value lim true).toOption).getD h) h

/-! ### Bodies

The three framings of RFC 9112 6, with extensions and trailers written out. -/

/-- A chunk: its size in hex digits, the chunk extension and the data. -/
structure H1Chunk where
  size : Bytes
  ext : Bytes := []
  data : Bytes
  deriving Repr, DecidableEq

/-- The number a string of decimal digits stands for. -/
def decVal (s : Bytes) : Nat := s.foldl (fun v p => v * 10 + (p.toNat - 48)) 0

/-- The number a string of hex digits stands for. -/
def hexVal (s : Bytes) : Nat := s.foldl (fun v b => v * 16 + (hexval b).getD 0) 0

/-- A chunk-size line: hex digits for `n`, then nothing or an extension without LF; at most
as long as the limit. -/
structure SizeLineOk (size ext : Bytes) (n : Nat) : Prop where
  ne : size ≠ []
  hex : ∀ b ∈ size, (hexval b).isSome = true
  val : hexVal size = n
  extOk : ext = [] ∨ ext.head? = some 59
  lf : LF ∉ ext
  short : (size ++ ext).length ≤ H1_CHUNK_LINE_MAX

/-- How a message's body is framed. -/
inductive H1Body where
  | none
  | length (body : Bytes)
  /-- The chunks, the size line of the last (empty) chunk and the trailer lines. -/
  | chunked (chunks : List H1Chunk) (lastSize lastExt : Bytes) (trailer : List Bytes)
  deriving Repr, DecidableEq

namespace H1Body

/-- The body the framing carries. -/
def octets : H1Body → Bytes
  | .none => []
  | .length b => b
  | .chunked chunks _ _ _ => (chunks.map (·.data)).flatten

/-- A chunk on the wire. -/
def chunkBytes (c : H1Chunk) : Bytes := c.size ++ c.ext ++ crlf ++ c.data ++ crlf

/-- The framed body on the wire. -/
def bytes : H1Body → Bytes
  | .none => []
  | .length b => b
  | .chunked chunks lastSize lastExt trailer =>
    (chunks.map chunkBytes).flatten ++ (lastSize ++ lastExt ++ crlf) ++
      (fieldLines trailer ++ crlf)

end H1Body

/-! ### Messages

A request and the conditions on it, which are those of the RFC and the limits of the server.
-/

/-- A request as it goes over the wire. -/
structure H1Message where
  method : Bytes
  target : Bytes
  http10 : Bool := false
  fields : List FieldLine
  body : H1Body := .none
  deriving Repr, DecidableEq

namespace H1Message

/-- The request line without its CRLF. -/
def line (m : H1Message) : Bytes :=
  m.method ++ SP :: (m.target ++ SP :: (if m.http10 then str "HTTP/1.0" else str "HTTP/1.1"))

/-- The message on the wire. -/
def bytes (m : H1Message) : Bytes :=
  m.line ++ crlf ++ fieldLines (m.fields.map (·.text)) ++ crlf ++ m.body.bytes

/-- The client asks for the connection to persist. -/
def Persistent (m : H1Message) : Prop :=
  if m.http10 then
    ∃ v, (fieldValues m.fields (str "connection")).head? = some v ∧
      h1TokenInList v (str "keep-alive") = true
  else ∀ v ∈ fieldValues m.fields (str "connection"), h1TokenInList v (str "close") = false

/-- The header fields announce the framing that is used, and nothing else. -/
def Framed (m : H1Message) : Prop :=
  match m.body with
  | .none => fieldValues m.fields (str "content-length") = [] ∧
      fieldValues m.fields (str "transfer-encoding") = []
  | .length b => fieldValues m.fields (str "transfer-encoding") = [] ∧
      ∃ v, fieldValues m.fields (str "content-length") = [v] ∧ v ≠ [] ∧
        (∀ p ∈ v, h1IsDigit p = true) ∧ decVal v = b.length
  | .chunked chunks lastSize lastExt trailer => m.http10 = false ∧
      fieldValues m.fields (str "content-length") = [] ∧
      (∃ v, fieldValues m.fields (str "transfer-encoding") = [v] ∧
        ciEq v (str "chunked") = true) ∧
      (∀ c ∈ chunks, c.data ≠ [] ∧ SizeLineOk c.size c.ext c.data.length) ∧
      SizeLineOk lastSize lastExt 0 ∧ ∀ l ∈ trailer, l ≠ [] ∧ LF ∉ l

/-- The trailer lines of a chunked body. -/
def trailer (m : H1Message) : List Bytes :=
  match m.body with
  | .chunked _ _ _ trailer => trailer
  | _ => []

/-- A well-formed message within the limits, which asks for persistence. The last field
says that the body is an object a C program can hold. -/
structure Valid (lim : ZhsLimits) (m : H1Message) : Prop where
  method : zhsTokenOk m.method = true
  target : SP ∉ m.target ∧ LF ∉ m.target ∧ m.target.length ≤ lim.maxUrlBytes
  decoded : ∃ path query, zhsDecodeTarget m.target lim = .ok (path, query)
  fields : ∀ f ∈ m.fields, f.Ok
  host : (fieldValues m.fields (str "host")).length = 1
  framed : m.Framed
  persistent : m.Persistent
  count : m.fields.length ≤ lim.maxHeaders
  cost : (m.fields.map FieldLine.cost).sum ≤ ZhsHdrs.byteCap lim
  head : (m.line ++ crlf ++ fieldLines (m.fields.map (·.text)) ++ crlf).length ≤ lim.maxHeaderBytes
  trailerLen : (fieldLines m.trailer ++ crlf).length ≤ lim.maxHeaderBytes
  body : m.body.octets.length ≤ lim.maxBodyBytes
  object : m.body.octets.length < 2 ^ 63

variable (lim : ZhsLimits)

/-- Path and query of the target. -/
def pathQuery (m : H1Message) : Bytes × Option Bytes :=
  ((zhsDecodeTarget m.target lim).toOption).getD ([], none)

/-- The host the request is for: the Host field less any userinfo. -/
def authority (m : H1Message) : Option Bytes :=
  (fieldValues m.fields (str "host")).head?.map (afterLast 64)

/-- The request object of a message, body included. -/
def parsed (m : H1Message) : HttpReq where
  version := 1
  isHead := m.method == str "HEAD"
  method := some m.method
  path := some (m.pathQuery lim).1
  query := (m.pathQuery lim).2
  authority := m.authority
  headers := storeAll lim {} m.fields
  body := m.body.octets
  raw := { method := m.method
           target := m.target
           authority := (fieldValues m.fields (str "host")).head?
           fields := m.fields.map fun f => (f.name, f.value) }

/-- The request as the handler gets it. -/
def request (g : H1Cfg) (m : H1Message) : HttpReq :=
  h1Request g { req := m.parsed g.lim, isHttp10 := m.http10 }

end H1Message

end Zcio
