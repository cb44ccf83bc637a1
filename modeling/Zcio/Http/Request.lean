import Zcio.Http.Io

/-!
# Zcio.Http.Request

URLs, requests and redirect targets of the HTTP client of `http.c`. What `ws.c` does in the same
way with its own texts (the authority of a URL, the port, the URL of a rooted target) is stated
here once, with the texts as parameters.
-/

namespace Zcio

/-! ### Parts of a URL

Host and port, with brackets around an address of version 6. -/

/-- A C string as an argument; `none` is `NULL`. -/
abbrev CArg := Option Bytes

/-- `host[:port]`, with an IPv6 literal in brackets: the host and the text of the port. -/
def splitHostPort (unterminated malformed : Bytes) : Bytes → Except HttpFail (Bytes × Bytes)
  | 91 :: auth =>
    match memchr 93 auth with
    | none => httpFail ZCIO_ERR_PROTOCOL unterminated
    | some rb =>
      match auth.drop (rb + 1) with
      | [] => .ok (auth.take rb, [])
      | 58 :: port => .ok (auth.take rb, port)
      | _ => httpFail ZCIO_ERR_PROTOCOL malformed
  | auth =>
    match memchr 58 auth with
    | none => .ok (auth, [])
    | some sep => .ok (auth.take sep, auth.drop (sep + 1))

/-- The port of a URL: what `strtol` takes for a number in 1..65535, and the default if there is
no text. -/
def portOf (tooLong invalid : Bytes) (secure : Bool) (text : Bytes) : Except HttpFail Nat :=
  if text = [] then .ok (if secure then 443 else 80)
  else if text.length ≥ 16 then httpFail ZCIO_ERR_PROTOCOL tooLong
  else
    match strtoNum 10 text with
    | none => httpFail ZCIO_ERR_PROTOCOL invalid
    | some r =>
      if r.stop ≠ text.length ∨ r.long < 1 ∨ r.long > 65535 then httpFail ZCIO_ERR_PROTOCOL invalid
      else .ok r.long.toNat

/-- A host as an authority has it. -/
def bracketed (host : Bytes) : Bytes :=
  if 58 ∈ host then str "[" ++ host ++ str "]" else host

/-- The port, where it is not the default of the scheme. -/
def portSuffix (secure : Bool) (port : Nat) : Bytes :=
  if port = (if secure then 443 else 80) then [] else str ":" ++ decimal port

/-- The absolute URL of a rooted target. -/
def absoluteUrl (scheme : Bytes) (secure : Bool) (host : Bytes) (port : Nat) (target : Bytes) : Bytes :=
  scheme ++ str "://" ++ bracketed host ++ portSuffix secure port ++ target

namespace Http

/-! ### URLs -/

/-- `zcio_url`. -/
structure ZcioUrl where
  scheme : Bytes
  secure : Bool
  host : Bytes
  port : Nat
  path : Bytes
  deriving Repr, DecidableEq

/-- An error text about a URL. -/
def urlMsg (text : String) (uri : Bytes) : Bytes := str text ++ str " '" ++ uri ++ str "'"

/-- `url_parse` behind the scheme. -/
def urlParseAuth (uri scheme : Bytes) (secure : Bool) (p : Bytes) : Except HttpFail ZcioUrl :=
  let auth := p.takeWhile (· != 47)
  let path := if auth.length < p.length then p.drop auth.length else str "/"
  -- the user information goes up to the last `@`
  match splitHostPort (urlMsg "http: unterminated IPv6 literal in" uri)
      (urlMsg "http: malformed authority in" uri) (auth.rtakeWhile (· != 64)) with
  | .error e => .error e
  | .ok (host, portText) =>
    let invalid := urlMsg "http: invalid port in" uri
    match portOf invalid invalid secure portText with
    | .error e => .error e
    | .ok port => .ok { scheme, secure, host, port, path }

/-- `url_parse`. -/
def urlParse : CArg → Except HttpFail ZcioUrl
  | none => httpFail ZCIO_ERR_INVALID_ARG (str "http: NULL url")
  | some uri =>
    match memchr 58 uri with
    | none => httpFail ZCIO_ERR_PROTOCOL (urlMsg "http: scheme not found in" uri)
    | some colon =>
      let scheme := lower (uri.take colon)
      if scheme ≠ str "http" ∧ scheme ≠ str "https" then
        httpFail ZCIO_ERR_PROTOCOL (urlMsg "http: unsupported scheme" uri)
      else
        let p := uri.drop (colon + 1)
        urlParseAuth uri scheme (scheme == str "https") (if p.take 2 = str "//" then p.drop 2 else p)

/-! ### Requests -/

/-- `zcio_http_header`. -/
structure HttpHeader where
  key : CArg
  value : CArg
  deriving Repr, DecidableEq

/-- `header_token_ok`, also `ws_hdr_token_ok`. -/
def headerTokenOk (s : CArg) : Bool := s.any fun s => s.all fun c => !(c < 32 || c == 127)

/-- What a caller wants to be sent; `body` points to `bodyLen` octets. -/
structure HttpArgs where
  method : CArg
  headers : List HttpHeader
  body : Option Bytes
  bodyLen : Nat

/-- A header that `build_request` puts into the request: the others have no key or hold control
characters. -/
def headerKept (h : HttpHeader) : Bool :=
  headerTokenOk h.key && (h.value.isNone || headerTokenOk h.value)

/-- A header line. -/
def headerText (h : HttpHeader) : Bytes := h.key.getD [] ++ str ": " ++ h.value.getD [] ++ crlf

/-- `snprintf` into `size` octets: what does not fit in front of the terminator is cut off. -/
def snprintf (size : Nat) (text : Bytes) : Bytes := text.take (size - 1)

/-- `build_request`. The `Content-Length` line goes through a buffer of 32 octets. -/
def buildRequest (a : HttpArgs) (u : ZcioUrl) : Except HttpFail Bytes :=
  if !headerTokenOk a.method then
    httpFail ZCIO_ERR_INVALID_ARG (str "http: illegal characters in method")
  else
    let kept := a.headers.filter headerKept
    let haveConnection := kept.any fun h => h.key.any fun k => ciEq k (str "connection")
    .ok (a.method.getD [] ++ str " " ++ u.path ++ str " HTTP/1.1\r\nHost: " ++ u.host ++ crlf ++
      (kept.map headerText).flatten ++
      (if haveConnection then [] else str "Connection: close\r\n") ++
      snprintf 32 (str "Content-Length: " ++ decimal a.bodyLen ++ crlf ++ crlf) ++
      (if a.bodyLen = 0 then [] else a.body.getD []))

/-! ### Redirects

A Location is an absolute URL or a rooted path; other references are refused. -/

/-- `"http:"` in front, in any case. -/
def saysHttp : Bytes → Bool
  | h :: t :: t' :: p :: 58 :: _ =>
    (h == 104 || h == 72) && tolower t == 116 && tolower t' == 116 && tolower p == 112
  | _ => false

/-- A Location with a scheme: a colon before any slash. -/
def isAbsolute (location : Bytes) : Bool :=
  match memchr 58 location, memchr 47 location with
  | some c, some s => c < s
  | some _, none => true
  | none, _ => false

/-- `resolve_redirect`. -/
def resolveRedirect (prev : ZcioUrl) (location : Bytes) : Except HttpFail Bytes :=
  if location = [] then httpFail ZCIO_ERR_PROTOCOL (str "http: empty Location")
  else if isAbsolute location then
    if prev.secure ∧ saysHttp location then
      httpFail ZCIO_ERR_PROTOCOL (str "http: refusing https->http redirect downgrade")
    else .ok location
  else if location.head? ≠ some 47 then
    httpFail ZCIO_ERR_PROTOCOL (urlMsg "http: unsupported relative redirect" location)
  else .ok (absoluteUrl prev.scheme prev.secure prev.host prev.port location)

/-! ### What the guard knows of the parser

A Location that the guard lets pass behind TLS is one that the parser takes for TLS. -/

theorem urlParse_ok {uri : Bytes} {u : ZcioUrl} (h : urlParse (some uri) = .ok u) :
    ∃ colon, memchr 58 uri = some colon ∧ u.scheme = lower (uri.take colon) ∧
      (u.scheme = str "http" ∨ u.scheme = str "https") ∧ u.secure = (u.scheme == str "https") := by
  rw [urlParse] at h
  dsimp only at h
  split at h
  · cases h
  · rename_i colon hcolon
    split at h
    · cases h
    · rename_i hscheme
      rw [not_and_or, not_not, not_not] at hscheme
      unfold urlParseAuth at h
      dsimp only at h
      split at h
      · cases h
      · split at h
        · cases h
        · cases h
          exact ⟨colon, hcolon, rfl, hscheme, rfl⟩

/-- A URL that is parsed as plain HTTP starts with `http:`. -/
theorem saysHttp_of_plain {uri : Bytes} {u : ZcioUrl} (h : urlParse (some uri) = .ok u)
    (hplain : u.secure = false) : saysHttp uri = true := by
  obtain ⟨colon, hcolon, hlower, hscheme, hsecure⟩ := urlParse_ok h
  have hhttp : lower (uri.take colon) = str "http" := by
    rcases hscheme with hscheme | hscheme
    · rw [← hlower, hscheme]
    · rw [hsecure, hscheme] at hplain
      exact absurd hplain (by decide)
  obtain ⟨a, b, rfl, rfl, -⟩ := memchr_eq_some hcolon
  rw [List.take_left] at hhttp
  have hlen : a.length = 4 := by rw [← length_lower, hhttp]; rfl
  obtain ⟨c, t, t', p, rfl⟩ : ∃ c t t' p, a = [c, t, t', p] := by
    match a, hlen with
    | [c, t, t', p], _ => exact ⟨c, t, t', p, rfl⟩
  have hfirst : ∀ c : UInt8, tolower c = 104 → (c == 104 || c == 72) = true := by
    intro c hc
    obtain rfl | hupper := toNat_of_tolower hc
    · rfl
    · obtain rfl : c = 72 := UInt8.toNat_inj.mp (Nat.add_right_cancel hupper)
      rfl
  have hparts : tolower c = 104 ∧ tolower t = 116 ∧ tolower t' = 116 ∧ tolower p = 112 := by
    have hstr : str "http" = [104, 116, 116, 112] := by decide
    rw [hstr] at hhttp
    simpa [lower] using hhttp
  obtain ⟨h1, h2, h3, h4⟩ := hparts
  show ((c == 104 || c == 72) && tolower t == 116 && tolower t' == 116 && tolower p == 112) = true
  rw [hfirst c h1, h2, h3, h4]
  rfl

/-- The scheme of a rooted target is the one of the request before. -/
theorem urlParse_absoluteUrl {secure : Bool} {host target : Bytes} {port : Nat} {u : ZcioUrl}
    (h : urlParse (some (absoluteUrl (str "https") secure host port target)) = .ok u) :
    u.secure = true := by
  obtain ⟨colon, hcolon, hlower, -, hsecure⟩ := urlParse_ok h
  have hfive : colon = 5 := by
    have : memchr 58 (absoluteUrl (str "https") secure host port target) = some 5 := by
      rw [absoluteUrl, List.append_assoc, List.append_assoc, List.append_assoc]
      exact memchr_append (a := str "https") (by decide) _
    exact (Option.some.inj (hcolon.symm.trans this))
  rw [hsecure, hlower, hfive]
  rfl

/-- **A redirect of a request over TLS never leads to one without.** -/
theorem resolveRedirect_secure {prev u : ZcioUrl} {uri : CArg} {location next : Bytes}
    (hprev : urlParse uri = .ok prev) (hsecure : prev.secure = true)
    (hnext : resolveRedirect prev location = .ok next) (hu : urlParse (some next) = .ok u) :
    u.secure = true := by
  unfold resolveRedirect at hnext
  split at hnext
  · cases hnext
  · split at hnext
    · split at hnext
      · cases hnext
      · rename_i hguard
        cases hnext
        cases hu' : u.secure with
        | true => rfl
        | false => exact absurd ⟨hsecure, saysHttp_of_plain hu hu'⟩ hguard
    · split at hnext
      · cases hnext
      · cases hnext
        cases uri with
        | none => cases hprev
        | some uri =>
          obtain ⟨-, -, -, hscheme, hs⟩ := urlParse_ok hprev
          have hhttps : prev.scheme = str "https" := by
            rw [hsecure] at hs
            exact beq_iff_eq.mp hs.symm
          rw [hhttps] at hu
          exact urlParse_absoluteUrl hu

end Http

end Zcio
