import Zcio.Http.Response
import Zcio.Lib.JsonObject

/-!
# Zcio.Http.HeadersJson

`headers_json` of `http.c` against RFC 8259. `json_append_escaped` escapes quotation marks and
reverse solidi only: the text is an object with the names and values of the header lines just if
none of them has a control character.
-/

namespace Zcio.Http

open Lib.Json (objectText writeObject writeMember escapeQuotes units Printable PrintableMember)

/-! ### Header lines -/

/-- The header lines of a response: what is between its first line and its first empty one. -/
def responseBlock (raw : Bytes) : Option Bytes :=
  (headEnd raw).bind fun sep => (memchr LF (raw.take sep)).map fun slEnd => (raw.take sep).drop (slEnd + 1)

/-- Name and value of a header line; the blanks in front of the value do not count. -/
def headerPair (line : Bytes) : Option (Bytes × Bytes) :=
  let line := if line.getLast? = some CR then line.dropLast else line
  (memchr 58 line).map fun colon =>
    (line.take colon, (line.drop (colon + 1)).dropWhile fun c => c == SP || c == HTAB)

/-- The names and values of the header lines, in order. A line without a colon has none. -/
def headerPairs (block : Bytes) : List (Bytes × Bytes) := (block.splitOn LF).filterMap headerPair

/-! ### The text

The text that is written, member by member, and when a reader of RFC 8259 finds the fields in
it. -/

theorem jsonEscaped_eq (s : Bytes) : jsonEscaped s = escapeQuotes s := rfl

theorem jsonEntry_eq (line : Bytes) :
    jsonEntry line = (headerPair line).map fun p => writeMember (cstr p.1, cstr p.2) := by
  rw [jsonEntry, headerPair, Option.map_map]
  refine congrArg (Option.map · _) (funext fun colon => ?_)
  show str "\"" ++ _ ++ str "\":\"" ++ _ ++ str "\"" = _
  simp only [writeMember, jsonEscaped_eq, Function.comp_apply, List.cons_append, List.append_assoc]
  rfl

/-- `headers_json` is a written object. -/
theorem headersJson_eq (block : Bytes) :
    headersJson block = writeObject ((headerPairs block).map fun p => (cstr p.1, cstr p.2)) := by
  have hentries : (block.splitOn LF).filterMap jsonEntry =
      ((headerPairs block).map fun p => (cstr p.1, cstr p.2)).map writeMember := by
    rw [headerPairs, List.map_map, List.map_filterMap]
    exact congrArg (List.filterMap · _) (funext jsonEntry_eq)
  rw [headersJson, hentries]
  rfl

theorem parseResponse_headersJson {raw block : Bytes} {resp : HttpResponse} {location : Option Bytes}
    (h : parseResponse raw = .ok (resp, location)) (hblock : responseBlock raw = some block) :
    resp.headersJson = headersJson block := by
  rw [parseResponse] at h
  rw [responseBlock] at hblock
  cases hsep : headEnd raw with
  | none =>
    rw [hsep] at h
    cases h
  | some sep =>
    rw [hsep] at h hblock
    dsimp only at h
    rw [Option.bind_some] at hblock
    cases hend : memchr LF (raw.take sep) with
    | none =>
      rw [hend] at hblock
      cases hblock
    | some slEnd =>
      rw [hend] at h hblock
      rw [Option.map_some] at hblock
      cases hblock
      dsimp only at h
      split at h
      · cases h
      · split at h
        · cases h
        · cases h
          rfl

/-- **`headers_json`** of a response that is accepted, for names and values of ASCII octets: the
object of the header lines just if none of them has a control character. -/
theorem headersJson_faithful {raw block : Bytes} {resp : HttpResponse} {location : Option Bytes}
    (h : parseResponse raw = .ok (resp, location)) (hblock : responseBlock raw = some block)
    (hascii : ∀ p ∈ headerPairs block, ∀ c ∈ p.1 ++ p.2, 0x01 ≤ c ∧ c ≤ 0x7F) :
    objectText resp.headersJson = some ((headerPairs block).map fun p => (units p.1, units p.2)) ↔
      ∀ p ∈ headerPairs block, ∀ c ∈ p.1 ++ p.2, 0x20 ≤ c := by
  have hself : (headerPairs block).map (fun p => (cstr p.1, cstr p.2)) = headerPairs block := by
    refine (List.map_congr_left fun p hp => ?_).trans (List.map_id _)
    have hzero : (0 : UInt8) ∉ p.1 ++ p.2 := fun hmem => absurd (hascii p hp 0 hmem).1 (by decide)
    rw [List.mem_append, not_or] at hzero
    rw [cstr_eq_self hzero.1, cstr_eq_self hzero.2]
    rfl
  rw [parseResponse_headersJson h hblock, headersJson_eq, hself, Lib.Json.objectText_writeObject]
  refine forall₂_congr fun p hp => ?_
  rw [PrintableMember, Printable, Printable, ← List.forall_mem_append]
  refine forall₂_congr fun c hc => and_iff_left ?_
  exact UInt8.lt_of_le_of_lt (hascii p hp c hc).2 (by decide)

/-- A response with two headers. -/
theorem headersJson_faithful_sample :
    objectText (str "\x7b\"A\":\"b\",\"C\":\"\"\x7d") =
      some ((headerPairs (str "A: b\r\nC:")).map fun p => (units p.1, units p.2)) := by
  have hparse : ∃ resp, parseResponse (str "HTTP/1.1 200 OK\r\nA: b\r\nC:\r\n\r\n") = .ok (resp, none) ∧
      resp.headersJson = str "\x7b\"A\":\"b\",\"C\":\"\"\x7d" := ⟨_, rfl, rfl⟩
  obtain ⟨resp, hresp, hjson⟩ := hparse
  rw [← hjson]
  exact (headersJson_faithful hresp rfl (by decide +kernel)).mpr (by decide +kernel)

/-- A control character in a value: the text is no object. -/
theorem headersJson_control :
    let raw := str "HTTP/1.1 200 OK\r\nA: \x01\r\n\r\n"
    ∃ resp, parseResponse raw = .ok (resp, none) ∧
      (responseBlock raw).map headerPairs = some [(str "A", [1])] ∧ objectText resp.headersJson = none :=
  ⟨_, rfl, by decide +kernel, by decide +kernel⟩

end Zcio.Http
