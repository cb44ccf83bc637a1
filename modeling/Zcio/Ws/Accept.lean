import Mathlib.Data.List.Count
import Zcio.Bytes

/-!
# Zcio.Ws.Accept

The response half of the WebSocket opening handshake in `ws.c`: SHA-1, base64 and the 101
text `zcio_ws_accept` writes.

What the rest of the development needs of the text is that one octet occurs in it exactly
once (`count_dot_switchingProtocols`), so that it cannot be read at two places of itself.
-/

namespace Zcio

/-! ### SHA-1

The digest as the code computes it, on words of 32 bits. -/

/-- The chaining value. -/
structure Sha1St where
  a : UInt32 := 0x67452301
  b : UInt32 := 0xEFCDAB89
  c : UInt32 := 0x98BADCFE
  d : UInt32 := 0x10325476
  e : UInt32 := 0xC3D2E1F0
  deriving Repr, DecidableEq

/-- Rotation to the left by `n < 32` bits. -/
def rotl32 (v : UInt32) (n : UInt32) : UInt32 := v <<< n ||| v >>> (32 - n)

/-- The first 16 words of the schedule: a block read big-endian. -/
def sha1Words : Bytes → List UInt32
  | p0 :: p1 :: p2 :: p3 :: rest =>
    (p0.toUInt32 <<< 24 ||| p1.toUInt32 <<< 16 ||| p2.toUInt32 <<< 8 ||| p3.toUInt32) ::
      sha1Words rest
  | _ => []

/-- `n` more words behind the schedule `w`. -/
def sha1Extend (w : List UInt32) : Nat → List UInt32
  | 0 => w
  | n + 1 =>
    let i := w.length
    sha1Extend (w ++ [rotl32 (w.getD (i - 3) 0 ^^^ w.getD (i - 8) 0 ^^^ w.getD (i - 14) 0 ^^^
      w.getD (i - 16) 0) 1]) n

/-- Round `i` on the schedule word `w`. -/
def sha1Round (s : Sha1St) (i : Nat) (w : UInt32) : Sha1St :=
  let (f, k) : UInt32 × UInt32 :=
    if i < 20 then ((s.b &&& s.c) ||| (~~~s.b &&& s.d), 0x5A827999)
    else if i < 40 then (s.b ^^^ s.c ^^^ s.d, 0x6ED9EBA1)
    else if i < 60 then ((s.b &&& s.c) ||| (s.b &&& s.d) ||| (s.c &&& s.d), 0x8F1BBCDC)
    else (s.b ^^^ s.c ^^^ s.d, 0xCA62C1D6)
  { a := rotl32 s.a 5 + f + s.e + k + w, b := s.a, c := rotl32 s.b 30, d := s.c, e := s.d }

/-- The rounds from `i` on. -/
def sha1Rounds (s : Sha1St) (i : Nat) : List UInt32 → Sha1St
  | [] => s
  | w :: ws => sha1Rounds (sha1Round s i w) (i + 1) ws

/-- `sha1_block` on a block of 64 octets. -/
def sha1Block (st : Sha1St) (p : Bytes) : Sha1St :=
  let s := sha1Rounds st 0 (sha1Extend (sha1Words p) 64)
  { a := st.a + s.a, b := st.b + s.b, c := st.c + s.c, d := st.d + s.d, e := st.e + s.e }

/-- A number as eight octets, big-endian. -/
def be64 (v : Nat) : Bytes := (List.range 8).map fun i => UInt8.ofNat (v / 2 ^ (56 - i * 8))

/-- A word as four octets, big-endian. -/
def be32 (v : UInt32) : Bytes :=
  [(v >>> 24).toUInt8, (v >>> 16).toUInt8, (v >>> 8).toUInt8, v.toUInt8]

/-- The blocks in front of the last `rem < 64` octets. -/
def sha1Full (st : Sha1St) (msg : Bytes) : Nat → Sha1St
  | 0 => st
  | n + 1 => sha1Full (sha1Block st (msg.take 64)) (msg.drop 64) n

/-- `sha1`: the padding takes a block of its own when the length does not fit. -/
def sha1 (msg : Bytes) : Bytes :=
  let bits := msg.length * 8 % 2 ^ 64
  let full := msg.length / 64
  let st := sha1Full {} msg full
  let block := msg.drop (full * 64) ++ [0x80]
  let rem := block.length
  let st :=
    if rem > 56 then
      sha1Block (sha1Block st (block ++ List.replicate (64 - rem) 0))
        (List.replicate 56 0 ++ be64 bits)
    else sha1Block st (block ++ List.replicate (56 - rem) 0 ++ be64 bits)
  be32 st.a ++ be32 st.b ++ be32 st.c ++ be32 st.d ++ be32 st.e

/-! ### Base64 -/

/-- `B64`. -/
def B64 : Bytes := str "ABCDEFGHIJKLMNOPQRSTUVWXYZabcdefghijklmnopqrstuvwxyz0123456789+/"

/-- The character of six bits. -/
def b64Char (v : Nat) : UInt8 := B64.getD (v % 64) 0

/-- `base64`. -/
def base64 : Bytes → Bytes
  | i0 :: i1 :: i2 :: rest =>
    let v := i0.toNat * 2 ^ 16 + i1.toNat * 2 ^ 8 + i2.toNat
    [b64Char (v / 2 ^ 18), b64Char (v / 2 ^ 12), b64Char (v / 2 ^ 6), b64Char v] ++ base64 rest
  | [i0] =>
    let v := i0.toNat * 2 ^ 16
    [b64Char (v / 2 ^ 18), b64Char (v / 2 ^ 12)] ++ str "=="
  | [i0, i1] =>
    let v := i0.toNat * 2 ^ 16 + i1.toNat * 2 ^ 8
    [b64Char (v / 2 ^ 18), b64Char (v / 2 ^ 12), b64Char (v / 2 ^ 6)] ++ str "="
  | [] => []

/-- The full stop. -/
abbrev DOT : UInt8 := 46

theorem b64Char_ne_dot (v : Nat) : b64Char v ≠ DOT := by
  have hdot : DOT ∉ B64 := by decide
  have hlen : v % 64 < B64.length := lt_of_lt_of_eq (Nat.mod_lt v (by decide)) (by decide)
  have hmem : b64Char v ∈ B64 := by
    rw [b64Char, List.getD_eq_getElem?_getD, List.getElem?_eq_getElem hlen, Option.getD_some]
    exact List.getElem_mem hlen
  exact fun heq => hdot (heq ▸ hmem)

theorem dot_notMem_base64 (s : Bytes) : DOT ∉ base64 s := by
  induction s using base64.induct with
  | case1 i0 i1 i2 rest ih =>
    simp only [base64, List.mem_append, List.mem_cons, List.not_mem_nil, or_false, not_or]
    exact ⟨⟨(b64Char_ne_dot _).symm, (b64Char_ne_dot _).symm, (b64Char_ne_dot _).symm,
      (b64Char_ne_dot _).symm⟩, ih⟩
  | case2 i0 =>
    have hpad : DOT ∉ str "==" := by decide
    simp only [base64, List.mem_append, List.mem_cons, List.not_mem_nil, or_false, not_or]
    exact ⟨⟨(b64Char_ne_dot _).symm, (b64Char_ne_dot _).symm⟩, hpad⟩
  | case3 i0 i1 =>
    have hpad : DOT ∉ str "=" := by decide
    simp only [base64, List.mem_append, List.mem_cons, List.not_mem_nil, or_false, not_or]
    exact ⟨⟨(b64Char_ne_dot _).symm, (b64Char_ne_dot _).symm, (b64Char_ne_dot _).symm⟩, hpad⟩
  | case4 => simp [base64]

/-! ### The 101 response

The answer to a handshake, with the accept value of its key. -/

/-- `WS_GUID`. -/
def WS_GUID : Bytes := str "258EAFA5-E914-47DA-95CA-C5AB0DC85B11"

/-- `ws_compute_accept`. -/
def wsComputeAccept (key : Bytes) : Bytes := base64 (sha1 (key ++ WS_GUID))

/-- The response `zcio_ws_accept` writes for the key of a request. -/
def switchingProtocols (key : Bytes) : Bytes :=
  str "HTTP/1.1 101 Switching Protocols\r\n" ++ str "Upgrade: websocket\r\n" ++
    str "Connection: Upgrade\r\n" ++ str "Sec-WebSocket-Accept: " ++ wsComputeAccept key ++
    str "\r\n\r\n"

/-- The only full stop of the response is the one in `HTTP/1.1`. -/
theorem count_dot_switchingProtocols (key : Bytes) : (switchingProtocols key).count DOT = 1 := by
  have haccept : (wsComputeAccept key).count DOT = 0 :=
    List.count_eq_zero.mpr (dot_notMem_base64 _)
  have hstatus : (str "HTTP/1.1 101 Switching Protocols\r\n").count DOT = 1 := by decide
  have hfields : (str "Upgrade: websocket\r\n").count DOT = 0 ∧
      (str "Connection: Upgrade\r\n").count DOT = 0 ∧
      (str "Sec-WebSocket-Accept: ").count DOT = 0 ∧ (str "\r\n\r\n").count DOT = 0 := by decide
  simp only [switchingProtocols, List.count_append, haccept, hstatus, hfields]

end Zcio
