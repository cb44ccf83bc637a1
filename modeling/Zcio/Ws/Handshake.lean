import Zcio.H1.Answer
import Zcio.H1.Bodiless
import Zcio.Http.Framing
import Zcio.HttpUtil.Segments
import Zcio.Ws.Base64
import Zcio.Ws.Connect

/-!
# Zcio.Ws.Handshake

The opening handshake interoperates. The request of `ws_send_handshake` is a message that the
server reads (`handshakeMessage`), and its fields are what `h1_detect_ws` looks for. The 101 of
`zcio_ws_accept` is a head whose end `ws_read_head` finds behind the last octet of it, and its
fields are what `zcio_ws_connect` checks.
-/

namespace Zcio

/-! ### Field lines

A header of the caller as a field line, with its value trimmed. -/

/-- The field line that carries a text: the blanks around it are not of the value. -/
def FieldLine.ofText (name text : Bytes) : FieldLine where
  name
  pre := SP :: text.takeWhile isOws
  value := (text.dropWhile isOws).rdropWhile isOws
  post := (text.dropWhile isOws).rtakeWhile isOws

namespace FieldLine

theorem ofText_text (name text : Bytes) : (ofText name text).text = name ++ str ": " ++ text := by
  have hvalue : (text.dropWhile isOws).rdropWhile isOws ++ (text.dropWhile isOws).rtakeWhile isOws =
      text.dropWhile isOws := List.rdropWhile_append_rtakeWhile
  have hsep : str ": " = [58, SP] := by decide
  rw [FieldLine.text, ofText, hsep]
  dsimp only
  rw [List.append_assoc, hvalue, List.cons_append, List.takeWhile_append_dropWhile, List.append_assoc]
  rfl

theorem ofText_ok {name text : Bytes} (hname : zhsTokenOk name = true) (htext : zhsValueOk text = true) :
    (ofText name text).Ok where
  name := hname
  value := by
    -- trimming keeps octets of the text, so that the value stays clean
    refine List.all_eq_true.mpr fun c hc => List.all_eq_true.mp htext c ?_
    exact (List.dropWhile_sublist _).subset ((List.rdropWhile_prefix isOws (l := _)).subset hc)
  pre b hb := by
    obtain rfl | hb := List.mem_cons.mp hb
    · rfl
    · exact List.mem_takeWhile_imp hb
  post b hb := List.mem_takeWhile_imp (List.mem_reverse.mp hb)
  -- no blank at either end of what is left
  head b hb := by
    have hrest : (text.dropWhile isOws).head? = some b := by
      obtain ⟨t, ht⟩ := List.rdropWhile_prefix isOws (text.dropWhile isOws)
      rw [← ht, List.head?_append, show ((text.dropWhile isOws).rdropWhile isOws).head? = some b from hb]
      rfl
    have hnot := List.head?_dropWhile_not isOws text
    rwa [hrest] at hnot
  last b hb := by
    have hne : (text.dropWhile isOws).rdropWhile isOws ≠ [] := by
      intro hnil
      rw [ofText, hnil] at hb
      cases hb
    have hlast : ((text.dropWhile isOws).rdropWhile isOws).getLast hne = b := by
      exact Option.some.inj ((List.getLast?_eq_some_getLast hne).symm.trans hb)
    have hnot := List.rdropWhile_last_not isOws (text.dropWhile isOws) hne
    rw [hlast] at hnot
    exact Bool.eq_false_iff.mpr hnot

/-- A text without blanks is the value. -/
theorem ofText_value {name text : Bytes} (h : ∀ c ∈ text, isOws c = false) :
    (ofText name text).value = text := by
  have hfront : text.dropWhile isOws = text := by
    refine List.dropWhile_eq_self_iff.mpr fun hne => ?_
    rw [h _ (List.getElem_mem hne)]
    exact Bool.false_ne_true
  have hback : text.rdropWhile isOws = text := by
    refine List.rdropWhile_eq_self_iff.mpr fun hne => ?_
    rw [h _ (List.getLast_mem hne)]
    exact Bool.false_ne_true
  rw [ofText]
  dsimp only
  rw [hfront, hback]

end FieldLine

/-! ### The request

The handshake as a message of HTTP/1.1. -/

/-- The names of the fields of the handshake, and of those that frame a request. -/
def handshakeNames : List Bytes :=
  [str "host", str "upgrade", str "connection", str "sec-websocket-key", str "sec-websocket-version",
    str "content-length", str "transfer-encoding"]

/-- The field lines of `ws_send_handshake`. -/
def handshakeFields (u : WsUrl) (key : Bytes) (headers : List Http.HttpHeader) : List FieldLine :=
  [.ofText (str "Host") (bracketed u.host ++ portSuffix u.secure u.port),
    .ofText (str "Upgrade") (str "websocket"), .ofText (str "Connection") (str "Upgrade"),
    .ofText (str "Sec-WebSocket-Key") key, .ofText (str "Sec-WebSocket-Version") (str "13")] ++
  (headers.filter (·.key.isSome)).map fun h => .ofText (h.key.getD []) (h.value.getD [])

/-- The request of `ws_send_handshake` as a message. -/
def handshakeMessage (u : WsUrl) (key : Bytes) (headers : List Http.HttpHeader) : H1Message where
  method := str "GET"
  target := u.path
  fields := handshakeFields u key headers

/-- What a handshake needs: a host that is clean, a path that the server can decode, further
headers that are clean and leave the handshake and the framing alone, and all of it within the
limits of the server. -/
structure HandshakeOk (lim : ZhsLimits) (u : WsUrl) (key : Bytes) (headers : List Http.HttpHeader) :
    Prop where
  host : u.host ≠ [] ∧ zhsValueOk u.host = true
  path : SP ∉ u.path ∧ ∃ r, zhsDecodeTarget u.path lim = .ok r
  names : ∀ h ∈ headers, ∀ k, h.key = some k → zhsTokenOk k = true ∧ lower k ∉ handshakeNames
  values : ∀ h ∈ headers, ∀ v, h.value = some v → zhsValueOk v = true
  count : (handshakeFields u key headers).length ≤ lim.maxHeaders
  cost : ((handshakeFields u key headers).map FieldLine.cost).sum ≤ ZhsHdrs.byteCap lim
  size : (wsHandshake u key headers).length ≤ lim.maxHeaderBytes

theorem handshakeMessage_bytes (u : WsUrl) (key : Bytes) (headers : List Http.HttpHeader) :
    (handshakeMessage u key headers).bytes = wsHandshake u key headers := by
  have hextra : fieldLines (((headers.filter (·.key.isSome)).map fun h =>
      FieldLine.ofText (h.key.getD []) (h.value.getD [])).map (·.text)) =
      ((headers.filter (·.key.isSome)).map Http.headerText).flatten := by
    rw [fieldLines, List.map_map, List.map_map]
    congr 2
    funext h
    exact congrArg (· ++ crlf) (FieldLine.ofText_text _ _)
  have hline : (handshakeMessage u key headers).line = str "GET " ++ u.path ++ str " HTTP/1.1" := by
    simp only [H1Message.line, handshakeMessage, Bool.false_eq_true, if_false]
    rw [show str "GET " = str "GET" ++ [SP] by decide, show str " HTTP/1.1" = SP :: str "HTTP/1.1" by decide]
    simp
  have hfront : str " HTTP/1.1\r\nHost: " = str " HTTP/1.1" ++ crlf ++ (str "Host" ++ str ": ") := by decide
  have hmiddle : str "\r\nUpgrade: websocket\r\nConnection: Upgrade\r\nSec-WebSocket-Key: " =
      crlf ++ (str "Upgrade" ++ str ": " ++ str "websocket") ++ crlf ++
        (str "Connection" ++ str ": " ++ str "Upgrade") ++ crlf ++ (str "Sec-WebSocket-Key" ++ str ": ") := by
    decide
  have hback : str "\r\nSec-WebSocket-Version: 13\r\n" =
      crlf ++ (str "Sec-WebSocket-Version" ++ str ": " ++ str "13") ++ crlf := by decide
  rw [H1Message.bytes, hline, wsHandshake, hfront, hmiddle, hback]
  simp only [handshakeMessage, handshakeFields, List.map_append, fieldLines_append, hextra, List.map_cons,
    List.map_nil, fieldLines_cons, FieldLine.ofText_text, H1Body.bytes, List.append_assoc, List.append_nil]
  rfl

/-! ### What the server makes of it

The server finds each field that an upgrade needs, with the value the client gave it. -/

/-- Without a field called `name` there is no value. -/
theorem fieldValues_append (fs fs' : List FieldLine) (name : Bytes) :
    fieldValues (fs ++ fs') name = fieldValues fs name ++ fieldValues fs' name := by
  rw [fieldValues, List.filter_append, List.map_append]
  rfl

variable {lim : ZhsLimits} {u : WsUrl} {key : Bytes} {headers : List Http.HttpHeader}

/-- A key is one word. -/
def KeyText (key : Bytes) : Prop := zhsValueOk key = true ∧ ∀ c ∈ key, isOws c = false

/-- The further headers have none of the names of the handshake. -/
theorem HandshakeOk.fieldValues_eq (h : HandshakeOk lim u key headers) {name : Bytes}
    (hname : name ∈ handshakeNames) :
    fieldValues (handshakeFields u key headers) name = fieldValues ((handshakeFields u key headers).take 5) name := by
  have hextra : fieldValues ((headers.filter (·.key.isSome)).map fun h =>
      FieldLine.ofText (h.key.getD []) (h.value.getD [])) name = [] := by
    rw [fieldValues, List.map_eq_nil_iff, List.filter_eq_nil_iff]
    intro f hf
    obtain ⟨x, hx, rfl⟩ := List.mem_map.mp hf
    obtain ⟨hmem, hsome⟩ := List.mem_filter.mp hx
    obtain ⟨k, hk⟩ := Option.isSome_iff_exists.mp hsome
    have hnot := (h.names x hmem k hk).2
    simp only [FieldLine.ofText, hk, Option.getD_some, beq_iff_eq]
    rintro rfl
    exact hnot hname
  rw [handshakeFields, fieldValues_append, hextra, List.append_nil]
  rfl

/-- **The fields of the handshake**, as a server finds them. -/
theorem HandshakeOk.fields (h : HandshakeOk lim u key headers) (hkey : KeyText key) :
    (fieldValues (handshakeFields u key headers) (str "host")).length = 1 ∧
      fieldValues (handshakeFields u key headers) (str "upgrade") = [str "websocket"] ∧
      fieldValues (handshakeFields u key headers) (str "connection") = [str "Upgrade"] ∧
      fieldValues (handshakeFields u key headers) (str "sec-websocket-key") = [key] ∧
      fieldValues (handshakeFields u key headers) (str "sec-websocket-version") = [str "13"] ∧
      fieldValues (handshakeFields u key headers) (str "content-length") = [] ∧
      fieldValues (handshakeFields u key headers) (str "transfer-encoding") = [] := by
  have hone (name : Bytes) (hname : name ∈ handshakeNames) (text : Bytes)
      (hvalues : fieldValues ((handshakeFields u key headers).take 5) name = [(FieldLine.ofText [] text).value])
      (htext : ∀ c ∈ text, isOws c = false) : fieldValues (handshakeFields u key headers) name = [text] := by
    rw [h.fieldValues_eq hname, hvalues, FieldLine.ofText_value htext]
  refine ⟨?_, hone _ (by decide) _ rfl (List.all_iff_forall_prop.mp (by decide)),
    hone _ (by decide) _ rfl (List.all_iff_forall_prop.mp (by decide)),
    hone _ (by decide) _ rfl hkey.2, hone _ (by decide) _ rfl (List.all_iff_forall_prop.mp (by decide)), ?_, ?_⟩
  · rw [h.fieldValues_eq (by decide)]
    rfl
  · rw [h.fieldValues_eq (by decide)]
    rfl
  · rw [h.fieldValues_eq (by decide)]
    rfl

theorem HandshakeOk.fields_ok (h : HandshakeOk lim u key headers) (hkey : KeyText key) :
    ∀ f ∈ handshakeFields u key headers, f.Ok := by
  have happend {s t : Bytes} (hs : zhsValueOk s = true) (ht : zhsValueOk t = true) :
      zhsValueOk (s ++ t) = true := by
    rw [zhsValueOk, List.all_append]
    exact Bool.and_eq_true_iff.mpr ⟨hs, ht⟩
  have hhost : zhsValueOk (bracketed u.host ++ portSuffix u.secure u.port) = true := by
    refine happend ?_ ?_
    · rw [bracketed]
      split
      · exact happend (happend (by decide) h.host.2) (by decide)
      · exact h.host.2
    · by_cases hport : u.port = if u.secure then 443 else 80
      · rw [portSuffix, if_pos hport]
        rfl
      · rw [portSuffix, if_neg hport]
        exact happend (show zhsValueOk (str ":") = true by decide) (decimal_clean _)
  intro f hf
  obtain hf | hf := List.mem_append.mp hf
  · simp only [List.mem_cons, List.not_mem_nil, or_false] at hf
    obtain rfl | rfl | rfl | rfl | rfl := hf
    · exact FieldLine.ofText_ok (by decide) hhost
    · exact FieldLine.ofText_ok (by decide) (by decide)
    · exact FieldLine.ofText_ok (by decide) (by decide)
    · exact FieldLine.ofText_ok (by decide) hkey.1
    · exact FieldLine.ofText_ok (by decide) (by decide)
  · obtain ⟨x, hx, rfl⟩ := List.mem_map.mp hf
    obtain ⟨hmem, hsome⟩ := List.mem_filter.mp hx
    obtain ⟨k, hk⟩ := Option.isSome_iff_exists.mp hsome
    rw [hk, Option.getD_some]
    refine FieldLine.ofText_ok (h.names x hmem k hk).1 ?_
    cases hv : x.value with
    | none => rfl
    | some v => exact h.values x hmem v hv

/-- **The handshake is a message** that the server accepts. -/
theorem HandshakeOk.valid (h : HandshakeOk lim u key headers) (hkey : KeyText key) :
    (handshakeMessage u key headers).Valid lim := by
  obtain ⟨hhost, -, hconnection, -, -, hlength, hcoding⟩ := h.fields hkey
  obtain ⟨⟨path, query⟩, hdecoded⟩ := h.path.2
  obtain ⟨hurl, hclean⟩ := zhsDecodeTarget_clean hdecoded
  have hbytes : (handshakeMessage u key headers).line ++ crlf ++
      fieldLines ((handshakeFields u key headers).map (·.text)) ++ crlf = wsHandshake u key headers := by
    rw [← handshakeMessage_bytes]
    simp [H1Message.bytes, handshakeMessage, H1Body.bytes]
  have hcrlf : crlf.length ≤ lim.maxHeaderBytes := by
    have hsize := h.size
    rw [← hbytes, List.length_append] at hsize
    omega
  exact
    { method := show zhsTokenOk (str "GET") = true by decide
      target := ⟨h.path.1, notMem_of_valueOk hclean (by decide), hurl⟩
      decoded := ⟨path, query, hdecoded⟩
      fields := h.fields_ok hkey
      host := hhost
      framed := ⟨hlength, hcoding⟩
      persistent := by
        intro v hv
        rw [show (handshakeMessage u key headers).fields = handshakeFields u key headers from rfl,
          hconnection] at hv
        rw [List.mem_singleton.mp hv]
        decide
      count := h.count
      cost := h.cost
      head := by
        rw [show (handshakeMessage u key headers).fields = handshakeFields u key headers from rfl, hbytes]
        exact h.size
      trailerLen := hcrlf
      body := Nat.zero_le _
      object := show 0 < 2 ^ 63 by decide }

/-- The server sees an opening handshake. -/
theorem HandshakeOk.wsUpgrade (g : H1Cfg) (h : HandshakeOk g.lim u key headers) (hkey : KeyText key)
    (hlen : h1B64Declen key = some 16) : ((handshakeMessage u key headers).request g).wsUpgrade = true := by
  obtain ⟨-, hupgrade, hconnection, hkeys, hversion, -⟩ := h.fields hkey
  have hstored := (h.valid hkey).storeAll_v
  have hget (name : Bytes) (hname : lower name = name) :
      (storeAll g.lim {} (handshakeFields u key headers)).get name =
        (fieldValues (handshakeFields u key headers) name).head? := get_stored hstored name hname
  simp only [H1Message.request, h1Request, h1DetectWs, H1Message.parsed, handshakeMessage]
  rw [hget _ (by decide), hget _ (by decide), hget _ (by decide), hget _ (by decide), hupgrade, hconnection,
    hkeys, hversion]
  simp only [List.head?_cons, Option.any_some, hlen]
  decide

/-! ### The answer

The accept value is computed from the key; the answer is a status line and three fields. -/

/-- The 101 that `zcio_ws_accept` builds for a request. -/
def wsAcceptResponse (r : HttpReq) : Option Bytes :=
  if r.wsUpgrade then (r.headers.get (str "sec-websocket-key")).map switchingProtocols else none

theorem HandshakeOk.accepted (g : H1Cfg) (h : HandshakeOk g.lim u key headers) (hkey : KeyText key)
    (hlen : h1B64Declen key = some 16) :
    wsAcceptResponse ((handshakeMessage u key headers).request g) = some (switchingProtocols key) := by
  have hget : (storeAll g.lim {} (handshakeFields u key headers)).get (str "sec-websocket-key") = some key := by
    have hstored : (storeAll g.lim {} (handshakeFields u key headers)).v =
        (handshakeFields u key headers).map FieldLine.stored := (h.valid hkey).storeAll_v
    rw [get_stored hstored (str "sec-websocket-key") (by decide)]
    exact congrArg List.head? (h.fields hkey).2.2.2.1
  rw [wsAcceptResponse, if_pos (h.wsUpgrade g hkey hlen)]
  exact congrArg (Option.map switchingProtocols) hget

/-- The key of the client. -/
theorem keyText_base64 (x : Bytes) : KeyText (base64 x) := by
  obtain ⟨body, pad, htext⟩ := base64_text x
  have hfacts : ∀ c : UInt8, isB64 c = true → isCtl c = false ∧ isOws c = false := by
    intro c hc
    have hrange : 43 ≤ c.toNat ∧ c.toNat ≤ 122 := by
      simp only [isB64, Bool.or_eq_true, Bool.and_eq_true, decide_eq_true_eq, beq_iff_eq,
        UInt8.le_iff_toNat_le, ← UInt8.toNat_inj] at hc
      change (((65 ≤ c.toNat ∧ c.toNat ≤ 90 ∨ 97 ≤ c.toNat ∧ c.toNat ≤ 122) ∨
        48 ≤ c.toNat ∧ c.toNat ≤ 57) ∨ c.toNat = 43) ∨ c.toNat = 47 at hc
      omega
    rw [← Bool.not_eq_true, ← Bool.not_eq_true, isCtl_iff, isOws_iff]
    omega
  have hchar : ∀ c ∈ base64 x, isCtl c = false ∧ isOws c = false := by
    intro c hc
    rw [htext.text] at hc
    obtain hc | hc := List.mem_append.mp hc
    · exact hfacts c (htext.body c hc)
    · rw [List.eq_of_mem_replicate hc]
      decide
  exact ⟨zhsValueOk_iff.mpr fun c hc => (hchar c hc).1, fun c hc => (hchar c hc).2⟩

theorem length_base64 (x : Bytes) : (base64 x).length = (x.length + 2) / 3 * 4 := by
  induction x using base64.induct with
  | case1 i0 i1 i2 rest ih =>
    rw [base64, List.length_append, ih]
    simp only [List.length_cons, List.length_nil]
    omega
  | case2 i0 =>
    rw [base64, List.length_append]
    simp only [List.length_cons, List.length_nil, show (str "==").length = 2 by decide]
  | case3 i0 i1 =>
    rw [base64, List.length_append]
    simp only [List.length_cons, List.length_nil, show (str "=").length = 1 by decide]
  | case4 => rfl

theorem length_sha1 (msg : Bytes) : (sha1 msg).length = 20 := by
  rw [sha1]
  rfl

/-- The lines of the 101. -/
def switchingLines (key : Bytes) : List Bytes :=
  [str "Upgrade: websocket", str "Connection: Upgrade", str "Sec-WebSocket-Accept: " ++ wsComputeAccept key]

theorem switchingProtocols_lines (key : Bytes) :
    switchingProtocols key =
      Http.joinLines (str "HTTP/1.1 101 Switching Protocols") (switchingLines key) ++ (crlf ++ crlf) := by
  have hstatus : str "HTTP/1.1 101 Switching Protocols\r\n" = str "HTTP/1.1 101 Switching Protocols" ++ crlf := by
    decide
  have hupgrade : str "Upgrade: websocket\r\n" = str "Upgrade: websocket" ++ crlf := by decide
  have hconnection : str "Connection: Upgrade\r\n" = str "Connection: Upgrade" ++ crlf := by decide
  have hend : str "\r\n\r\n" = crlf ++ crlf := by decide
  rw [switchingProtocols, hstatus, hupgrade, hconnection, hend]
  simp only [switchingLines, Http.joinLines, List.append_assoc]

/-- Nothing in the lines ends them. -/
theorem switchingLines_clean (key : Bytes) : ∀ l ∈ switchingLines key, l ≠ [] ∧ CR ∉ l ∧ LF ∉ l := by
  have haccept := (keyText_base64 (sha1 (key ++ WS_GUID))).1
  intro l hl
  simp only [switchingLines, List.mem_cons, List.not_mem_nil, or_false] at hl
  obtain rfl | rfl | rfl := hl
  · decide
  · decide
  · refine ⟨fun h => ?_, List.not_mem_append (by decide) (notMem_of_valueOk haccept (by decide)),
      List.not_mem_append (by decide) (notMem_of_valueOk haccept (by decide))⟩
    exact absurd (List.append_eq_nil_iff.mp h).1 (by decide)

/-- The client finds the end of the 101 behind its last octet, whatever follows. -/
theorem headEnd_switchingProtocols (key x : Bytes) :
    headEnd (switchingProtocols key ++ x) = some ((switchingProtocols key).length - 4) := by
  have hend := Http.headEnd_joinLines (l := str "HTTP/1.1 101 Switching Protocols") (by decide)
    (fun l hl => ⟨(switchingLines_clean key l hl).1, (switchingLines_clean key l hl).2.1⟩) x
  rw [switchingProtocols_lines, List.append_assoc, List.append_assoc, ← List.append_assoc crlf, hend]
  simp

/-! ### What the client makes of it

The client reads up to the empty line and checks three fields. -/

/-- A read gets the beginning of the segments that are still to come. -/
theorem httpRead_segments {conn : HttpConn} {n : Nat} {seg : Bytes} {segs : List Bytes}
    {more : List (Except Int Bytes)} (hn : 0 < n) (hreads : conn.reads = (seg :: segs).map .ok ++ more)
    (hne : ∀ x ∈ seg :: segs, x ≠ []) :
    ∃ (b : Bytes) (segs' : List Bytes), b ≠ [] ∧ (∀ x ∈ segs', x ≠ []) ∧ b ++ segs'.flatten = (seg :: segs).flatten ∧
      httpRead conn n = (.ok b, { conn with reads := segs'.map .ok ++ more }) := by
  have hreads' : conn.reads = .ok seg :: (segs.map .ok ++ more) := hreads
  by_cases hlen : seg.length ≤ n
  · exact ⟨seg, segs, hne seg List.mem_cons_self, fun x hx => hne x (List.mem_cons_of_mem _ hx), rfl,
      Http.httpRead_ok hreads' hlen⟩
  · refine ⟨seg.take n, seg.drop n :: segs, ?_, ?_, ?_, ?_⟩
    · exact List.ne_nil_of_length_pos (by rw [List.length_take]; omega)
    · intro x hx
      obtain rfl | hx := List.mem_cons.mp hx
      · exact List.ne_nil_of_length_pos (by rw [List.length_drop]; omega)
      · exact hne x (List.mem_cons_of_mem _ hx)
    · rw [List.flatten_cons, List.flatten_cons, ← List.append_assoc, List.take_append_drop]
    · rw [httpRead, hreads']
      dsimp only
      rw [if_neg hlen]
      rfl

/-- `ws_read_head` stops with the read that completes the head. -/
theorem wsReadHead_ok {resp frames : Bytes} {more : List (Except Int Bytes)}
    (hend : ∀ x, headEnd (resp ++ x) = some (resp.length - 4)) (hcap : resp.length ≤ WS_HANDSHAKE_HEAD_CAP)
    (n : Nat) : ∀ (conn : HttpConn) (acc : Bytes) (segs : List Bytes), segs.flatten.length ≤ n →
      conn.reads = segs.map .ok ++ more → (∀ x ∈ segs, x ≠ []) → acc ++ segs.flatten = resp ++ frames →
      ∃ (x : Bytes) (segs' : List Bytes), Lib.loop wsReadHeadRound _ wsReadHeadRound_decreases (conn, acc) =
          (.ok (resp ++ x, resp.length), { conn with reads := segs'.map .ok ++ more }) ∧
        x ++ segs'.flatten = frames := by
  have hfour : 4 ≤ resp.length := by
    have hsome := (Http.headEnd_some (hend []) []).2
    rw [List.append_nil] at hsome
    omega
  -- an end that is found is the one of the response
  have hfound {acc : Bytes} {segs : List Bytes} {i : Nat} (hacc : headEnd acc = some i)
      (hflat : acc ++ segs.flatten = resp ++ frames) : i + 4 = resp.length ∧ resp.length ≤ acc.length := by
    obtain ⟨hi, hlen⟩ := Http.headEnd_some hacc segs.flatten
    rw [hflat, hend, Option.some.injEq] at hi
    omega
  induction n with
  | zero =>
    intro conn acc segs hlen hreads hne hflat
    have hnil : segs.flatten = [] := List.length_eq_zero_iff.mp (Nat.le_zero.mp hlen)
    rw [hnil, List.append_nil] at hflat
    subst hflat
    rw [Lib.loop_of_inr (r := (.ok (resp ++ frames, resp.length), conn))]
    · exact ⟨frames, segs, by rw [← hreads], by rw [hnil, List.append_nil]⟩
    · rw [wsReadHeadRound, hend]
      dsimp only
      rw [Nat.sub_add_cancel hfour]
  | succ n ih =>
    intro conn acc segs hlen hreads hne hflat
    cases hacc : headEnd acc with
    | some i =>
      obtain ⟨hi, hle⟩ := hfound hacc hflat
      obtain ⟨x, rfl⟩ : resp <+: acc :=
        List.prefix_of_prefix_length_le ⟨frames, hflat.symm⟩ ⟨segs.flatten, rfl⟩ hle
      rw [Lib.loop_of_inr (r := (.ok (resp ++ x, resp.length), conn))]
      · refine ⟨x, segs, by rw [← hreads], ?_⟩
        rw [List.append_assoc] at hflat
        exact List.append_cancel_left hflat
      · rw [wsReadHeadRound, hacc]
        dsimp only
        rw [hi]
    | none =>
      have hshort : acc.length < resp.length := by
        by_contra hle
        obtain ⟨x, rfl⟩ : resp <+: acc :=
          List.prefix_of_prefix_length_le ⟨frames, hflat.symm⟩ ⟨segs.flatten, rfl⟩ (by omega)
        rw [hend] at hacc
        cases hacc
      cases segs with
      | nil =>
        have hsum := congrArg List.length hflat
        rw [List.flatten_nil, List.append_nil, List.length_append] at hsum
        omega
      | cons seg segs =>
        obtain ⟨b, segs', hb, hne', hsplit, hread⟩ := httpRead_segments (n := 2048) (by decide) hreads hne
        have hround : wsReadHeadRound (conn, acc) =
            .inl ({ conn with reads := segs'.map .ok ++ more }, acc ++ b) := by
          obtain ⟨c, t, rfl⟩ := List.exists_cons_of_ne_nil hb
          simp only [wsReadHeadRound, hacc, if_neg (show ¬acc.length > WS_HANDSHAKE_HEAD_CAP by omega), hread]
        have hpos := List.length_pos_of_ne_nil hb
        have hsum := congrArg List.length hsplit
        rw [List.length_append] at hsum
        rw [Lib.loop_of_inl hround]
        exact ih _ _ segs' (by omega) rfl hne' (by rw [List.append_assoc, hsplit, hflat])

theorem wsParseStatus_switchingProtocols (key : Bytes) : wsParseStatus (switchingProtocols key) = .ok 101 := by
  have hstatus : str "HTTP/1.1 101 Switching Protocols\r\n" =
      str "HTTP/1.1 101 Switching Protocols\r" ++ [LF] := by decide
  have hline : (switchingProtocols key).takeWhile (· != LF) = str "HTTP/1.1 101 Switching Protocols\r" := by
    rw [switchingProtocols, hstatus]
    simp only [List.append_assoc]
    rw [List.takeWhile_append_of_pos (List.all_eq_true.mp (by decide)), List.cons_append,
      List.takeWhile_cons_of_neg (by decide), List.append_nil]
  rw [wsParseStatus, hline]
  decide

/-- A line `name: v`, as `ws_find_header` looks at it. -/
theorem lineValue_line {key name v : Bytes} (hname : 58 ∉ name) (hv : ∀ c ∈ v, c ≠ CR ∧ isOws c = false) :
    lineValue (fun c => c == CR || isBlank c) key (name ++ str ": " ++ v ++ [CR]) =
      if lower name = lower key then some v else none := by
  have hsep : name ++ str ": " ++ v ++ [CR] = name ++ 58 :: SP :: (v ++ [CR]) := by
    rw [show str ": " = [58, SP] by decide]
    simp
  have hcolon : memchr 58 (name ++ 58 :: SP :: (v ++ [CR])) = some name.length := memchr_append hname _
  have hfront : (SP :: (v ++ [CR])).dropWhile (fun c => c == SP || c == HTAB) = v ++ [CR] := by
    rw [List.dropWhile_cons_of_pos (by decide), List.dropWhile_eq_self_iff]
    intro hlt
    cases v with
    | nil => exact Bool.false_ne_true
    | cons c v =>
      have hc : isOws c = false := (hv c List.mem_cons_self).2
      exact fun h => Bool.false_ne_true (hc.symm.trans h)
  have hback : (v ++ [CR]).rdropWhile (fun c => c == CR || isBlank c) = v := by
    rw [List.rdropWhile_concat_pos _ _ _ (by decide), List.rdropWhile_eq_self_iff]
    intro hne h
    obtain ⟨hcr, hows⟩ := hv _ (List.getLast_mem hne)
    obtain h | h := Bool.or_eq_true_iff.mp h
    · exact hcr (beq_iff_eq.mp h)
    · exact absurd (hows.symm.trans h) (by decide)
  rw [hsep]
  simp only [lineValue, hcolon, List.take_left]
  rw [List.drop_append, List.drop_eq_nil_of_le (by omega), List.nil_append, Nat.add_sub_cancel_left,
    List.drop_succ_cons, List.drop_zero, hfront, hback]
  by_cases hkey : lower name = lower key
  · rw [if_pos hkey, if_pos ⟨by rw [← length_lower name, hkey, length_lower], hkey⟩]
  · rw [if_neg hkey, if_neg fun h => hkey h.2]

/-- The fields of the 101, as the client finds them. -/
theorem wsFindHeader_switchingProtocols (key name : Bytes) :
    wsFindHeader (switchingProtocols key) name =
      if str "upgrade" = lower name then some (str "websocket")
      else if str "connection" = lower name then some (str "Upgrade")
      else if str "sec-websocket-accept" = lower name then some (wsComputeAccept key)
      else none := by
  -- the accept value is base64: a clean field value without CR, LF or blanks
  obtain ⟨haccept, hows⟩ := keyText_base64 (sha1 (key ++ WS_GUID))
  have hword : ∀ c ∈ wsComputeAccept key, c ≠ CR ∧ isOws c = false := by
    intro c hc
    refine ⟨fun h => ?_, hows c hc⟩
    exact notMem_of_valueOk haccept (show isCtl CR = true by decide) (h ▸ hc)
  have hlf : LF ∉ str "Sec-WebSocket-Accept" ++ str ": " ++ wsComputeAccept key ++ [CR] :=
    List.not_mem_append (List.not_mem_append (by decide) (notMem_of_valueOk haccept (by decide))) (by decide)
  -- the answer as lines, each with its CR in front of the LF
  have hlines : switchingProtocols key = str "HTTP/1.1 101 Switching Protocols\r" ++
      LF :: ((str "Upgrade" ++ str ": " ++ str "websocket" ++ [CR]) ++
      LF :: ((str "Connection" ++ str ": " ++ str "Upgrade" ++ [CR]) ++
      LF :: ((str "Sec-WebSocket-Accept" ++ str ": " ++ wsComputeAccept key ++ [CR]) ++ LF :: ([CR] ++ LF :: [])))) := by
    have hstatus : str "HTTP/1.1 101 Switching Protocols\r\n" =
        str "HTTP/1.1 101 Switching Protocols\r" ++ [LF] := by decide
    have hupgrade : str "Upgrade: websocket\r\n" = str "Upgrade" ++ str ": " ++ str "websocket" ++ [CR, LF] := by
      decide
    have hconnection : str "Connection: Upgrade\r\n" =
        str "Connection" ++ str ": " ++ str "Upgrade" ++ [CR, LF] := by decide
    have hname : str "Sec-WebSocket-Accept: " = str "Sec-WebSocket-Accept" ++ str ": " := by decide
    have hend : str "\r\n\r\n" = [CR, LF, CR, LF] := by decide
    rw [switchingProtocols, hstatus, hupgrade, hconnection, hname, hend]
    simp only [List.append_assoc, List.cons_append, List.nil_append]
  -- the status line has no colon before its first blank
  have hstatusValue : lineValue (fun c => c == CR || isBlank c) name (str "HTTP/1.1 101 Switching Protocols\r") =
      none := by
    rw [lineValue, show memchr 58 (str "HTTP/1.1 101 Switching Protocols\r") = none by decide]
  have hlast : [[CR], []].findSome? (lineValue (fun c => c == CR || isBlank c) name) = none := rfl
  -- cut at the LFs, each line tested on its own
  rw [wsFindHeader, hlines, List.splitOn_append_cons_self_of_not_mem (by decide),
    List.splitOn_append_cons_self_of_not_mem (by decide), List.splitOn_append_cons_self_of_not_mem (by decide),
    List.splitOn_append_cons_self_of_not_mem hlf, List.splitOn_append_cons_self_of_not_mem (by decide),
    List.splitOn_nil, List.findSome?_cons, hstatusValue, List.findSome?_cons,
    lineValue_line (by decide) (List.all_iff_forall_prop.mp (by decide)), List.findSome?_cons,
    lineValue_line (by decide) (List.all_iff_forall_prop.mp (by decide)), List.findSome?_cons,
    lineValue_line (by decide) hword, hlast]
  rw [show lower (str "Upgrade") = str "upgrade" by decide,
    show lower (str "Connection") = str "connection" by decide,
    show lower (str "Sec-WebSocket-Accept") = str "sec-websocket-accept" by decide]
  -- at most one of the three names is the name asked for
  by_cases hupgrade : str "upgrade" = lower name
  · simp only [if_pos hupgrade]
    decide
  · simp only [if_neg hupgrade]
    by_cases hconnection : str "connection" = lower name
    · simp only [if_pos hconnection]
      decide
    · simp only [if_neg hconnection]
      by_cases hname : str "sec-websocket-accept" = lower name
      · simp only [if_pos hname]
        exact congrArg some (cstr_of_valueOk haccept)
      · simp only [if_neg hname]
        rfl

/-- Sending takes nothing from what there is to read. -/
theorem wsSendHandshake_reads (io : HttpIo) (conn : HttpConn) (req : Bytes) :
    (wsSendHandshake io conn req).2.2.reads = conn.reads := by
  rw [wsSendHandshake]
  split
  · rfl
  · exact writeFrom_reads _ conn req 0

/-- A connection that takes what it is given takes the handshake. -/
theorem wsSendHandshake_ok {conn : HttpConn} (hstream : conn.hasStream = true) (hwrites : conn.writes = [])
    (io : HttpIo) (req : Bytes) : (wsSendHandshake io conn req).1 = .ok () := by
  have hwrite (src : Bytes) : httpWrite conn src = (.ok src.length, conn) := by
    rw [httpWrite, hwrites]
  have hfull : (zcioWriteFull httpWrite conn req).1 = .ok req.length := by
    rw [zcioWriteFull]
    cases req with
    | nil => rfl
    | cons c req =>
      rw [List.length_cons, writeFrom, if_neg (List.cons_ne_nil c req), hwrite]
      show (writeFrom httpWrite req.length conn ((c :: req).drop (req.length + 1)) (0 + (req.length + 1))).1 = _
      rw [List.drop_eq_nil_of_le (by rfl), Nat.zero_add]
      cases req with
      | nil => rfl
      | cons c' req => rfl
  rw [wsSendHandshake, if_neg (by rw [hstream]; exact Bool.false_ne_true)]
  simp only [httpSend, hfull, Except.toOption, beq_self_eq_true, if_true]

theorem length_switchingProtocols (key : Bytes) : (switchingProtocols key).length = 129 := by
  simp only [switchingProtocols, wsComputeAccept, List.length_append, length_base64, length_sha1]
  decide

/-- The client has made the nonce and its handshake goes out; the octets to come are the response
and the frames behind it, in some segmentation, and then whatever else there is. -/
structure HandshakeSent (u : WsUrl) (nonce : Bytes) (headers : List Http.HttpHeader) (resp frames : Bytes)
    (segs : List Bytes) (more : List (Except Int Bytes)) (io : HttpIo) (conn : HttpConn) : Prop where
  rand : (httpRand io).1 = some nonce
  sent : (wsSendHandshake (httpRand io).2 conn (wsHandshake u (base64 nonce) headers)).1 = .ok ()
  reads : conn.reads = segs.map .ok ++ more
  nonempty : ∀ x ∈ segs, x ≠ []
  flatten : segs.flatten = resp ++ frames

/-- The client takes the 101 for what it asked for and keeps what is behind it. -/
theorem HandshakeSent.answer {nonce frames : Bytes} {segs : List Bytes} {more : List (Except Int Bytes)}
    {io : HttpIo} {conn : HttpConn}
    (h : HandshakeSent u nonce headers (switchingProtocols (base64 nonce)) frames segs more io conn) :
    ∃ (a : WsAnswer) (unread : List Bytes), (wsAsk u headers io conn).1 = .ok a ∧ a.status = 101 ∧
      wsAccepted a = true ∧ a.rest ++ unread.flatten = frames ∧ a.conn.reads = unread.map .ok ++ more := by
  generalize hresp : switchingProtocols (base64 nonce) = resp at h
  have hlen : resp.length = 129 := hresp ▸ length_switchingProtocols _
  have hend : ∀ x, headEnd (resp ++ x) = some (resp.length - 4) := hresp ▸ headEnd_switchingProtocols _
  -- the request goes out, and the reads are those in front of it
  rcases hsend : wsSendHandshake (httpRand io).2 conn (wsHandshake u (base64 nonce) headers) with ⟨sent, io', conn'⟩
  have hsent : sent = .ok () := by
    have hsent := h.sent
    rwa [hsend] at hsent
  have hreads : conn'.reads = segs.map .ok ++ more := by
    have hsame := wsSendHandshake_reads (httpRand io).2 conn (wsHandshake u (base64 nonce) headers)
    rw [hsend, h.reads] at hsame
    exact hsame
  subst hsent
  -- the head ends where the answer ends; frames behind it stay unread
  obtain ⟨x, unread, hhead, hrest⟩ := wsReadHead_ok hend (by rw [hlen]; decide) segs.flatten.length conn' []
    segs (le_refl _) hreads h.nonempty h.flatten
  have htake : (resp ++ x).take resp.length = resp := List.take_left
  have hdrop : (resp ++ x).drop resp.length = x := List.drop_left
  have hstatus : wsParseStatus resp = .ok 101 := hresp ▸ wsParseStatus_switchingProtocols _
  refine ⟨⟨{ conn' with reads := unread.map .ok ++ more }, base64 nonce, 101, resp, x⟩, unread, ?_, rfl, ?_, hrest,
    rfl⟩
  · -- key, status line and fields are those of the answer
    have hrand : httpRand io = (some nonce, (httpRand io).2) := Prod.ext h.rand rfl
    have hread : wsReadHead conn' = (.ok (resp ++ x, resp.length), { conn' with reads := unread.map .ok ++ more }) :=
      hhead
    rw [wsAsk, hrand]
    dsimp only
    rw [hsend]
    dsimp only
    rw [hread]
    dsimp only
    rw [htake, hdrop, hstatus]
  · -- the three tests of acceptance, on the three fields
    subst hresp
    simp only [wsAccepted, wsFindHeader_switchingProtocols]
    have hupgrade : str "upgrade" = lower (str "upgrade") := by decide
    have hconnection : str "connection" = lower (str "connection") ∧ str "upgrade" ≠ lower (str "connection") := by
      decide
    have haccept : str "sec-websocket-accept" = lower (str "sec-websocket-accept") ∧
        str "upgrade" ≠ lower (str "sec-websocket-accept") ∧
        str "connection" ≠ lower (str "sec-websocket-accept") := by decide
    rw [if_pos hupgrade, if_neg hconnection.2, if_pos hconnection.1, if_neg haccept.2.1, if_neg haccept.2.2,
      if_pos haccept.1, Option.any_some, Option.any_some, beq_self_eq_true, Bool.and_true]
    decide

/-- A round of `zcio_ws_connect` whose answer is accepted ends it. -/
theorem wsConnectLoop_accepted {left : Nat} {prevSecure : Bool} {url : CArg} {io : HttpIo} {a : WsAnswer}
    (hurl : wsUrlParse url = .ok u) (hguard : prevSecure = true → u.secure = true)
    (hdial : (wsDial u headers io).1 = .ok a) (hstatus : a.status = 101) (haccepted : wsAccepted a = true) :
    (wsConnectLoop headers left prevSecure url io).1 =
      .ok { conn := { a.conn with timeoutMs := WS_DEFAULT_TIMEOUT }, input := a.rest } := by
  rcases hd : wsDial u headers io with ⟨res, io'⟩
  have hres : res = .ok a := by rwa [hd] at hdial
  have hkeep : ¬(prevSecure = true ∧ (!u.secure) = true) := by
    rintro ⟨hprev, hnot⟩
    rw [hguard hprev] at hnot
    cases hnot
  subst hres
  rw [wsConnectLoop, hurl]
  dsimp only
  rw [if_neg hkeep, hd]
  dsimp only
  rw [if_pos hstatus, if_pos haccepted]

/-! ### Both ends -/

/-- **The opening handshake interoperates.** The request of `ws_send_handshake`, in any segmentation,
is dispatched as one request with `ws_upgrade` set; the 101 of `zcio_ws_accept` for it, with frames
behind it and in any segmentation, passes the checks of `zcio_ws_connect`, and what the session has
as its input, with what is still to be read, is the frames. -/
theorem handshake_interop (g : H1Cfg) (hr : g.redirect = false) (u : WsUrl) (nonce : Bytes)
    (hnonce : nonce.length = 16) (headers : List Http.HttpHeader)
    (h : HandshakeOk g.lim u (base64 nonce) headers) (segs : List Bytes)
    (hsegs : segs.flatten = wsHandshake u (base64 nonce) headers) :
    ∃ (d : H1Dispatch) (resp : Bytes), (feedSegments g segs).c.log = [d] ∧ d.req.wsUpgrade = true ∧
      wsAcceptResponse d.req = some resp ∧
      ∀ (frames : Bytes) (segs : List Bytes) (more : List (Except Int Bytes)) (io : HttpIo) (conn : HttpConn),
        HandshakeSent u nonce headers resp frames segs more io conn →
        ∃ (a : WsAnswer) (unread : List Bytes), (wsAsk u headers io conn).1 = .ok a ∧ a.status = 101 ∧
          wsAccepted a = true ∧ a.rest ++ unread.flatten = frames ∧ a.conn.reads = unread.map .ok ++ more ∧
          ∀ (left : Nat) (prevSecure : Bool) (url : CArg) (io₀ : HttpIo), wsUrlParse url = .ok u →
            (prevSecure = true → u.secure = true) → (Http.tlsCtxFor u.secure io₀).1 = true →
            httpConnect (Http.tlsCtxFor u.secure io₀).2 ⟨u.host, u.port, u.secure, 0, 0⟩ = (.ok conn, io) →
            (wsConnectLoop headers left prevSecure url io₀).1 =
              .ok { conn := { a.conn with timeoutMs := WS_DEFAULT_TIMEOUT }, input := a.rest } := by
  -- the key is the base64 of 16 octets, as the server asks
  have hkey := keyText_base64 nonce
  have hlen : h1B64Declen (base64 nonce) = some 16 := by
    rw [h1B64Declen_base64 (List.ne_nil_of_length_pos (by omega)), hnonce]
  refine ⟨(handshakeMessage u (base64 nonce) headers).dispatch g, switchingProtocols (base64 nonce), ?_,
    h.wsUpgrade g hkey hlen, h.accepted g hkey hlen, ?_⟩
  · -- the server reads the request, in whatever segments, and accepts it
    refine feedSegments_message g (h.valid hkey) hr rfl ?_
    rw [hsegs, handshakeMessage_bytes]
  · -- and the client reads the answer, up to the first frame
    intro frames segs more io conn hsent
    obtain ⟨a, unread, hask, hstatus, haccepted, hrest, hreads⟩ := hsent.answer
    refine ⟨a, unread, hask, hstatus, haccepted, hrest, hreads, ?_⟩
    intro left prevSecure url io₀ hurl hguard htls hconn
    refine wsConnectLoop_accepted hurl hguard ?_ hstatus haccepted
    have hctx : ¬(!(Http.tlsCtxFor u.secure io₀).1) = true := by
      rw [htls]
      exact Bool.false_ne_true
    rw [wsDial]
    dsimp only
    rw [if_neg hctx, hconn]
    exact hask

/-- A client of `ws://h:81/chat`. -/
def sampleWsUrl : WsUrl := { secure := false, host := str "h", port := 81, path := str "/chat" }

def sampleNonce : Bytes := List.replicate 16 7

theorem handshake_interop_sample : ∃ (d : H1Dispatch) (resp : Bytes),
    (feedSegments H1Cfg.silent [wsHandshake sampleWsUrl (base64 sampleNonce) []]).c.log = [d] ∧
      wsAcceptResponse d.req = some resp ∧
      ∃ (a : WsAnswer) (unread : List Bytes),
        (wsAsk sampleWsUrl [] { rands := [some sampleNonce] }
          { reads := [.ok (resp ++ [138, 0])], number := 0, tls := false }).1 = .ok a ∧
        wsAccepted a = true ∧ a.rest ++ unread.flatten = [138, 0] := by
  obtain ⟨d, resp, hlog, -, hresp, hclient⟩ := handshake_interop H1Cfg.silent rfl sampleWsUrl sampleNonce
    (by decide) []
    { host := by decide
      path := ⟨by decide, (str "/chat", none), by decide⟩
      names := fun _ hmem => absurd hmem List.not_mem_nil
      values := fun _ hmem => absurd hmem List.not_mem_nil
      count := by decide
      cost := by decide
      size := by decide +kernel }
    [wsHandshake sampleWsUrl (base64 sampleNonce) []] (List.append_nil _)
  obtain ⟨a, unread, hask, -, haccepted, hrest, -⟩ := hclient [138, 0] [resp ++ [138, 0]] []
    { rands := [some sampleNonce] } { reads := [.ok (resp ++ [138, 0])], number := 0, tls := false }
    { rand := rfl
      sent := wsSendHandshake_ok rfl rfl _ _
      reads := rfl
      nonempty := by
        intro x hx
        rw [List.mem_singleton.mp hx]
        exact List.append_ne_nil_of_right_ne_nil _ (by decide)
      flatten := List.append_nil _ }
  exact ⟨d, resp, hlog, hresp, a, unread, hask, haccepted, hrest⟩

end Zcio
