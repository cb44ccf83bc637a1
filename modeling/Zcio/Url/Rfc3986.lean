import Zcio.Server.Logical
import Zcio.Url.Loose
import Zcio.Url.Origin

/-!
# Zcio.Url.Rfc3986

`url_parse` and `ws_url_parse` beside the authority of RFC 3986. They let it go up to the first
`/` only, check no character of the user information and of the host, and read the port with
`strtol`; `url_parse` also takes a URL without `"//"` and one without a host.

Each parser is first described by the loose grammar that it takes (`urlParse_iff`, `wsUrlParse_iff`).
An authority of RFC 3986 is read by that grammar as what it is (`IsAuthority.loose`), and since a text is
read in one way only, what is left to ask of a URL is that its text, where it has the loose form, has the
strict one (`UrlSpelt`).
-/

namespace Zcio

open Http (ZcioUrl urlParse urlParseAuth)
open Lib.Uri (IsHost IsHostPort IsAuthority isRegName isIPLiteral authorityText digitsValue)

/-! ### What the parsers accept

Both parsers as conditions on the text. -/

/-- The schemes of `url_parse`, in lower case, and whether they are secure. -/
def httpSchemes : List (Bytes × Bool) := [(str "http", false), (str "https", true)]

/-- The schemes that only `ws_url_parse` has. -/
def wsOnlySchemes : List (Bytes × Bool) := [(str "ws", false), (str "wss", true)]

/-- The schemes of `ws_url_parse`. -/
def wsSchemes : List (Bytes × Bool) := wsOnlySchemes ++ httpSchemes

/-- The parsers take the text `q` behind the scheme for this host and port. -/
def TakenAs (secure : Bool) (q host : Bytes) (port : Nat) : Prop :=
  ∃ text, LooseHostPort (hostPortText q) host text ∧ LoosePort secure text port

/-- What is left when `"//"` is skipped. -/
def behindSlashes (p : Bytes) : Bytes := if p.take 2 = str "//" then p.drop 2 else p

theorem urlParseAuth_iff {uri scheme p : Bytes} {secure : Bool} {u : ZcioUrl} :
    urlParseAuth uri scheme secure p = .ok u ↔
      u.scheme = scheme ∧ u.secure = secure ∧ TakenAs secure p u.host u.port ∧ u.path = targetText p := by
  have hauth : (p.takeWhile (· != 47)).rtakeWhile (· != 64) = hostPortText p := rfl
  rw [urlParseAuth, hauth]
  constructor
  · intro h
    dsimp only at h
    split at h
    · cases h
    · rename_i host text hsplit
      split at h
      · cases h
      · rename_i port hport
        cases h
        exact ⟨rfl, rfl, ⟨text, splitHostPort_iff.mp hsplit, portOf_iff.mp hport⟩, rfl⟩
  · rintro ⟨hscheme, hsecure, ⟨text, hsplit, hport⟩, hpath⟩
    rw [splitHostPort_iff.mpr hsplit]
    dsimp only
    rw [portOf_iff.mpr hport]
    cases u
    cases hscheme
    cases hsecure
    cases hpath
    rfl

theorem wsUrlParseAuth_iff {url p : Bytes} {secure : Bool} {u : WsUrl} :
    wsUrlParseAuth url secure p = .ok u ↔
      u.secure = secure ∧ u.host ≠ [] ∧ TakenAs secure p u.host u.port ∧ u.path = targetText p := by
  have hauth : (p.takeWhile (· != 47)).rtakeWhile (· != 64) = hostPortText p := rfl
  rw [wsUrlParseAuth, hauth]
  constructor
  · intro h
    split at h
    · cases h
    · rename_i host text hsplit
      split at h
      · cases h
      · rename_i hhost
        split at h
        · cases h
        · rename_i port hport
          cases h
          exact ⟨rfl, hhost, ⟨text, splitHostPort_iff.mp hsplit, portOf_iff.mp hport⟩, rfl⟩
  · rintro ⟨hsecure, hhost, ⟨text, hsplit, hport⟩, hpath⟩
    rw [splitHostPort_iff.mpr hsplit]
    dsimp only
    rw [if_neg hhost, portOf_iff.mpr hport]
    cases u
    cases hsecure
    cases hpath
    rfl

/-! ### Schemes

The scheme ends at the first colon, and the two parsers look for it in different ways. -/

theorem colon_not_mem {scheme : Bytes} {secure : Bool} (h : (lower scheme, secure) ∈ wsSchemes) : 58 ∉ scheme := by
  have hnone : ∀ e ∈ wsSchemes, 58 ∉ e.1 := by decide
  intro hcolon
  exact hnone _ h (List.mem_map.mpr ⟨58, hcolon, rfl⟩)

theorem httpSchemes_subset {e : Bytes × Bool} (h : e ∈ httpSchemes) : e ∈ wsSchemes :=
  List.mem_append_right wsOnlySchemes h

/-- The first colon ends the scheme. -/
theorem append_colon_inj {a b p q : Bytes} (ha : 58 ∉ a) (hb : 58 ∉ b) (h : a ++ 58 :: p = b ++ 58 :: q) :
    a = b ∧ p = q := by
  have hfirst := memchr_append ha p
  rw [h, memchr_append hb q] at hfirst
  obtain ⟨rfl, hpq⟩ := List.append_inj h (Option.some.inj hfirst).symm
  exact ⟨rfl, (List.cons.inj hpq).2⟩

theorem mem_httpSchemes {scheme : Bytes} {secure : Bool} :
    (scheme, secure) ∈ httpSchemes ↔ (scheme = str "http" ∨ scheme = str "https") ∧
      secure = (scheme == str "https") := by
  have hne : (str "http" == str "https") = false := by decide
  rw [httpSchemes, List.mem_cons, List.mem_singleton, Prod.mk.injEq, Prod.mk.injEq]
  constructor
  · rintro (⟨rfl, rfl⟩ | ⟨rfl, rfl⟩)
    · exact ⟨.inl rfl, hne.symm⟩
    · exact ⟨.inr rfl, (beq_self_eq_true _).symm⟩
  · rintro ⟨rfl | rfl, rfl⟩
    · exact .inl ⟨rfl, hne⟩
    · exact .inr ⟨rfl, beq_self_eq_true _⟩

/-- **`url_parse`**: what it accepts and what it returns. -/
theorem urlParse_iff {s : Bytes} {u : ZcioUrl} :
    urlParse (some s) = .ok u ↔ ∃ scheme p, s = scheme ++ 58 :: p ∧ (lower scheme, u.secure) ∈ httpSchemes ∧
      u.scheme = lower scheme ∧ TakenAs u.secure (behindSlashes p) u.host u.port ∧
      u.path = targetText (behindSlashes p) := by
  constructor
  · -- the scheme ends at the first colon
    intro h
    rw [urlParse] at h
    split at h
    · cases h
    · rename_i colon hcolon
      obtain ⟨scheme, p, rfl, rfl, -⟩ := memchr_eq_some hcolon
      have hdrop : (scheme ++ 58 :: p).drop (scheme.length + 1) = p := by
        rw [← List.drop_drop, List.drop_left]
        rfl
      dsimp only at h
      rw [List.take_left, hdrop] at h
      split at h
      · cases h
      · rename_i hscheme
        obtain ⟨hs, hsecure, htaken, hpath⟩ := urlParseAuth_iff.mp h
        rw [not_and_or, not_not, not_not] at hscheme
        rw [← hsecure] at htaken
        exact ⟨scheme, p, rfl, mem_httpSchemes.mpr ⟨hscheme, hsecure⟩, hs, htaken, hpath⟩
  · -- a scheme of the table holds no colon, so that the first one is behind it
    rintro ⟨scheme, p, rfl, hscheme, hs, htaken, hpath⟩
    have hcolon := colon_not_mem (httpSchemes_subset hscheme)
    have hdrop : (scheme ++ 58 :: p).drop (scheme.length + 1) = p := by
      rw [← List.drop_drop, List.drop_left]
      rfl
    obtain ⟨hname, hsecure⟩ := mem_httpSchemes.mp hscheme
    rw [urlParse, memchr_append hcolon]
    dsimp only
    rw [List.take_left, hdrop, if_neg (by rwa [not_and_or, not_not, not_not])]
    rw [hsecure] at htaken
    exact urlParseAuth_iff.mpr ⟨hs, hsecure, htaken, hpath⟩

theorem strstrAt_cons (c : UInt8) (s t : Bytes) :
    strstrAt (c :: s) t = if t.isPrefixOf (c :: s) then some 0 else (strstrAt s t).map (· + 1) := by
  rw [strstrAt, strstrAt]
  exact List.findIdx?_cons

/-- The first `"://"` behind a text without colons. -/
theorem strstrAt_append {a : Bytes} (ha : 58 ∉ a) (q : Bytes) :
    strstrAt (a ++ str "://" ++ q) (str "://") = some a.length := by
  induction a with
  | nil => rfl
  | cons c a ih =>
    have hc : c ≠ 58 := fun heq => ha (heq ▸ List.mem_cons_self)
    have hno : (str "://").isPrefixOf (c :: (a ++ str "://" ++ q)) = false := by
      show (58 == c && _) = false
      rw [beq_eq_false_iff_ne.mpr hc.symm, Bool.false_and]
    have hcons := strstrAt_cons c (a ++ str "://" ++ q) (str "://")
    rw [hno, if_neg Bool.false_ne_true, ih fun h => ha (List.mem_cons_of_mem c h)] at hcons
    exact hcons

theorem strstrAt_eq_some {s t : Bytes} {i : Nat} (h : strstrAt s t = some i) :
    ∃ a q, s = a ++ t ++ q ∧ a.length = i := by
  have hfront : ∀ s : Bytes, t.isPrefixOf s = true → ∃ a q, s = a ++ t ++ q ∧ a.length = 0 := by
    intro s hs
    obtain ⟨q, hq⟩ := List.isPrefixOf_iff_prefix.mp hs
    exact ⟨[], q, hq.symm, rfl⟩
  induction s generalizing i with
  | nil =>
    cases t with
    | nil =>
      cases h
      exact hfront [] rfl
    | cons d t => cases h
  | cons c s ih =>
    rw [strstrAt_cons] at h
    split at h
    · rename_i hs
      cases h
      exact hfront (c :: s) hs
    · obtain ⟨j, hj, rfl⟩ := Option.map_eq_some_iff.mp h
      obtain ⟨a, q, rfl, rfl⟩ := ih hj
      exact ⟨c :: a, q, rfl, rfl⟩

theorem mem_wsSchemes {scheme : Bytes} {secure : Bool} :
    (scheme, secure) ∈ wsSchemes ↔ wsScheme scheme = some secure := by
  have hnodup : ∀ e ∈ wsSchemes, wsScheme e.1 = some e.2 := by decide
  refine ⟨hnodup _, fun h => ?_⟩
  rw [wsScheme] at h
  split at h
  · rename_i hplain
    cases h
    obtain rfl | rfl := hplain
    · decide
    · decide
  · split at h
    · rename_i hsecure
      cases h
      obtain rfl | rfl := hsecure
      · decide
      · decide
    · cases h

/-- **`ws_url_parse`**: what it accepts and what it returns. -/
theorem wsUrlParse_iff {s : Bytes} {u : WsUrl} :
    wsUrlParse (some s) = .ok u ↔ ∃ scheme q, s = scheme ++ str "://" ++ q ∧ (lower scheme, u.secure) ∈ wsSchemes ∧
      u.host ≠ [] ∧ TakenAs u.secure q u.host u.port ∧ u.path = targetText q := by
  have hdrop : ∀ scheme q : Bytes, (scheme ++ str "://" ++ q).drop (scheme.length + 3) = q := by
    intro scheme q
    rw [List.append_assoc, ← List.drop_drop, List.drop_left]
    rfl
  constructor
  · intro h
    rw [wsUrlParse] at h
    split at h
    · cases h
    rename_i sep hsep
    split at h
    · cases h
    split at h
    · cases h
    rename_i secure hscheme
    obtain ⟨hsecure, hhost, htaken, hpath⟩ := wsUrlParseAuth_iff.mp h
    obtain ⟨scheme, q, rfl, rfl⟩ := strstrAt_eq_some hsep
    rw [hdrop] at htaken hpath
    rw [List.append_assoc, List.take_left] at hscheme
    rw [← hsecure] at htaken hscheme
    exact ⟨scheme, q, rfl, mem_wsSchemes.mpr hscheme, hhost, htaken, hpath⟩
  · rintro ⟨scheme, q, rfl, hscheme, hhost, htaken, hpath⟩
    have hshort : ∀ e ∈ wsSchemes, e.1.length < 8 := by decide
    have hlen := hshort _ hscheme
    rw [length_lower] at hlen
    rw [wsUrlParse, strstrAt_append (colon_not_mem hscheme)]
    dsimp only
    rw [if_neg (Nat.not_le.mpr hlen), List.append_assoc, List.take_left, mem_wsSchemes.mp hscheme]
    dsimp only
    rw [← List.append_assoc, hdrop]
    exact wsUrlParseAuth_iff.mpr ⟨rfl, hhost, htaken, hpath⟩

/-! ### Authorities

An authority of the RFC is one of the loose grammar, with the same host and port where they
are spelt alike. -/

theorem regName_delims {host : Bytes} (h : isRegName host = true) : 58 ∉ host ∧ 64 ∉ host ∧ host.head? ≠ some 91 := by
  refine ⟨fun hc => ?_, fun hc => ?_, fun hhead => ?_⟩
  · exact absurd (Lib.Uri.regName_mem h hc) (by decide)
  · exact absurd (Lib.Uri.regName_mem h hc) (by decide)
  · exact absurd (Lib.Uri.regName_mem h (List.mem_of_mem_head? hhead)) (by decide)

theorem ipLiteral_delims {host : Bytes} (h : isIPLiteral host = true) : 93 ∉ host ∧ 64 ∉ host := by
  refine ⟨fun hc => ?_, fun hc => ?_⟩
  · exact absurd (Lib.Uri.ipLiteral_mem h hc) (by decide)
  · exact absurd (Lib.Uri.ipLiteral_mem h hc) (by decide)

theorem at_not_mem_digits {text : Bytes} (h : text.all Lib.Uri.isDigit = true) : 64 ∉ text := fun hc =>
  absurd (List.all_eq_true.mp h 64 hc) (by decide)

/-- `host:port` of RFC 3986 has the loose form, its port has digits only, and there is no `@` in it. -/
theorem IsHostPort.loose {t host text : Bytes} (h : IsHostPort t host text) :
    LooseHostPort t host text ∧ text.all Lib.Uri.isDigit = true ∧ 64 ∉ t := by
  cases h with
  | bare h =>
    cases h with
    | name h =>
      obtain ⟨hcolon, hat, hhead⟩ := regName_delims h
      exact ⟨.bare hcolon hhead, rfl, hat⟩
    | literal h =>
      obtain ⟨hclose, hat⟩ := ipLiteral_delims h
      exact ⟨.literal hclose, rfl, by simpa using hat⟩
  | port h hport =>
    have hdigits := at_not_mem_digits hport
    cases h with
    | name h =>
      obtain ⟨hcolon, hat, hhead⟩ := regName_delims h
      exact ⟨.port hcolon hhead, hport, by simpa using ⟨hat, hdigits⟩⟩
    | literal h =>
      obtain ⟨hclose, hat⟩ := ipLiteral_delims h
      rw [List.cons_append, List.append_assoc]
      exact ⟨.literalPort hclose, hport, by simpa using ⟨hat, hdigits⟩⟩

theorem afterLast_behind {t : Bytes} (ht : 64 ∉ t) (user : Bytes) : afterLast 64 (user ++ 64 :: t) = t := by
  rw [afterLast_append]
  exact afterLast_eq_self.mpr ht

/-- **An authority of RFC 3986** has the loose form behind its last `@`. -/
theorem IsAuthority.loose {a host text : Bytes} (h : IsAuthority a host text) :
    LooseHostPort (afterLast 64 a) host text ∧ text.all Lib.Uri.isDigit = true := by
  cases h with
  | bare h =>
    obtain ⟨hloose, hdigits, hat⟩ := IsHostPort.loose h
    rw [afterLast_eq_self.mpr hat]
    exact ⟨hloose, hdigits⟩
  | user huser h =>
    obtain ⟨hloose, hdigits, hat⟩ := IsHostPort.loose h
    rw [afterLast_behind hat]
    exact ⟨hloose, hdigits⟩

/-! ### The claim and its condition

When a URL is taken apart as by RFC 3986, and what its text has to be for that. -/

/-- The port that a text stands for. -/
def portNumber (secure : Bool) (text : Bytes) : Nat :=
  if text = [] then if secure then 443 else 80 else digitsValue text

/-- `s` is a URL with a scheme of the set and an authority of RFC 3986, which has this host and port;
the target starts with a slash. -/
structure FollowsRfc3986 (schemes : List (Bytes × Bool)) (s : Bytes) (secure : Bool) (host : Bytes) (port : Nat)
    (path : Bytes) : Prop where
  authority : ∃ scheme q text, s = scheme ++ str "://" ++ q ∧ (lower scheme, secure) ∈ schemes ∧
    IsAuthority (authorityText q) host text ∧ portNumber secure text = port
  host : host ≠ []
  port : 1 ≤ port ∧ port ≤ 65535
  path : path.head? = some 47

/-- What `url_parse` and `ws_url_parse` have to agree on. -/
structure UrlParts where
  secure : Bool
  host : Bytes
  port : Nat
  path : Bytes
  deriving DecidableEq

def urlParts (s : Bytes) : Option UrlParts :=
  (urlParse (some s)).toOption.map fun u => ⟨u.secure, u.host, u.port, u.path⟩

def wsUrlParts (s : Bytes) : Option UrlParts :=
  (wsUrlParse (some s)).toOption.map fun u => ⟨u.secure, u.host, u.port, u.path⟩

/-- Both parsers follow RFC 3986 on `s`, and agree if it is an `http` or `https` URL. -/
structure UrlParsing (s : Bytes) : Prop where
  http : ∀ u, urlParse (some s) = .ok u → FollowsRfc3986 httpSchemes s u.secure u.host u.port u.path
  ws : ∀ u, wsUrlParse (some s) = .ok u → FollowsRfc3986 wsSchemes s u.secure u.host u.port u.path
  agree : (∃ scheme q secure, s = scheme ++ str "://" ++ q ∧ (lower scheme, secure) ∈ httpSchemes) →
    urlParts s = wsUrlParts s

/-- The text behind the last `@` of `q` and in front of its first slash has the loose form. -/
def LooseAuthority (secure : Bool) (q : Bytes) : Prop :=
  ∃ host text port, LooseHostPort (hostPortText q) host text ∧ LoosePort secure text port

/-- It has the loose form, with a host. -/
def LooseHosted (secure : Bool) (q : Bytes) : Prop :=
  ∃ host text port, host ≠ [] ∧ LooseHostPort (hostPortText q) host text ∧ LoosePort secure text port

/-- An authority of RFC 3986 with a host. -/
def HostedAuthority (a : Bytes) : Prop := ∃ host text, IsAuthority a host text ∧ host ≠ []

/-- `w` repeats the host of the authority `a`, and its port by number. -/
def Repeats (secure : Bool) (a w : Bytes) : Prop :=
  ∃ host text text', IsAuthority a host text ∧ host ≠ [] ∧ LooseHostPort w host text' ∧
    LoosePort secure text' (portNumber secure text)

/-- The text up to the first slash is an authority of RFC 3986. Where a `?` or `#` ends the authority in
front of that slash, what is behind the last `@` repeats it. -/
def AuthoritySpelt (secure : Bool) (q : Bytes) : Prop :=
  if authorityText q = q.takeWhile (· != 47) then HostedAuthority (authorityText q)
  else Repeats secure (authorityText q) (hostPortText q)

/-- **The condition on the text**: where it has the loose form it is spelt well, and behind `http:` and
`https:` there is `"//"`. -/
structure UrlSpelt (s : Bytes) : Prop where
  http : ∀ scheme p secure, s = scheme ++ 58 :: p → (lower scheme, secure) ∈ httpSchemes →
    LooseAuthority secure (behindSlashes p) → ∃ q, p = str "//" ++ q ∧ AuthoritySpelt secure q
  ws : ∀ scheme q secure, s = scheme ++ str "://" ++ q → (lower scheme, secure) ∈ wsOnlySchemes →
    LooseHosted secure q → AuthoritySpelt secure q

/-- The target starts at the slash, or is one. -/
theorem targetText_rooted (q : Bytes) : (targetText q).head? = some 47 := by
  have hself : ∀ a : Bytes, 47 ∉ a → a.takeWhile (· != 47) = a := by
    intro a ha
    rw [List.takeWhile_eq_self_iff]
    exact fun c hc => bne_iff_ne.mpr fun heq => ha (heq ▸ hc)
  rw [targetText]
  cases hslash : memchr 47 q with
  | none =>
    rw [hself q (memchr_eq_none.mp hslash), if_neg (Nat.lt_irrefl _)]
    rfl
  | some i =>
    obtain ⟨a, b, rfl, -, ha⟩ := memchr_eq_some hslash
    rw [takeWhile_stop (by decide), hself a ha, List.drop_left]
    split
    · rfl
    · rfl

theorem behindSlashes_append (q : Bytes) : behindSlashes (str "//" ++ q) = q := by
  have hlen : (str "//").length = 2 := by decide
  rw [behindSlashes, List.take_left' hlen, if_pos rfl, List.drop_left' hlen]

/-- The number of a port that has digits only. -/
theorem LoosePort.eq_portNumber {secure : Bool} {text : Bytes} {port : Nat} (h : LoosePort secure text port)
    (hdigits : text.all Lib.Uri.isDigit = true) : port = portNumber secure text := by
  rw [portNumber]
  by_cases hnil : text = []
  · rw [hnil] at h ⊢
    exact h.unique .default
  · -- the number is that of the digits, since these have no blanks and no sign
    rw [if_neg hnil]
    exact h.eq_of_digits hnil (List.all_eq_true.mp hdigits)

/-- The authority is spelt well, and is the one that the parsers read. -/
theorem AuthoritySpelt.isAuthority {secure : Bool} {q host : Bytes} {port : Nat} (h : AuthoritySpelt secure q)
    (htaken : TakenAs secure q host port) :
    host ≠ [] ∧ ∃ text, IsAuthority (authorityText q) host text ∧ portNumber secure text = port := by
  obtain ⟨text, hloose, hport⟩ := htaken
  rw [AuthoritySpelt] at h
  split at h
  · rename_i hwhole
    obtain ⟨host', text', hauth, hhost⟩ := h
    obtain ⟨hloose', hdigits⟩ := IsAuthority.loose hauth
    rw [hwhole] at hloose'
    obtain ⟨rfl, rfl⟩ := hloose'.unique hloose
    exact ⟨hhost, text', hauth, (hport.eq_portNumber hdigits).symm⟩
  · obtain ⟨host', text', text'', hauth, hhost, hloose', hport'⟩ := h
    obtain ⟨rfl, rfl⟩ := hloose'.unique hloose
    exact ⟨hhost, text', hauth, hport'.unique hport⟩

theorem followsRfc3986 {schemes : List (Bytes × Bool)} {scheme q host : Bytes} {secure : Bool} {port : Nat}
    (hscheme : (lower scheme, secure) ∈ schemes) (htaken : TakenAs secure q host port) (hspelt : AuthoritySpelt secure q) :
    FollowsRfc3986 schemes (scheme ++ str "://" ++ q) secure host port (targetText q) := by
  obtain ⟨hhost, text, hauth, hport⟩ := hspelt.isAuthority htaken
  obtain ⟨_, -, hloose⟩ := htaken
  exact ⟨⟨scheme, q, text, rfl, hscheme, hauth, hport⟩, hhost,
    portOf_range ((@portOf_iff [] [] _ _ _).mpr hloose), targetText_rooted q⟩

/-- What a parser takes and follows RFC 3986 is spelt well. -/
theorem authoritySpelt {schemes : List (Bytes × Bool)} {scheme q host path : Bytes} {secure : Bool} {port : Nat}
    (hschemes : ∀ e ∈ schemes, e ∈ wsSchemes) (hcolon : 58 ∉ scheme) (htaken : TakenAs secure q host port)
    (h : FollowsRfc3986 schemes (scheme ++ str "://" ++ q) secure host port path) : AuthoritySpelt secure q := by
  obtain ⟨scheme', q', text, hs, hscheme', hauth, hport⟩ := h.authority
  have hcolon' := colon_not_mem (hschemes _ hscheme')
  rw [List.append_assoc, List.append_assoc] at hs
  obtain ⟨-, hq⟩ := append_colon_inj hcolon hcolon' hs
  cases hq
  obtain ⟨text', hloose, hnumber⟩ := htaken
  rw [AuthoritySpelt]
  split
  · exact ⟨host, text, hauth, h.host⟩
  · exact ⟨host, text, text', hauth, h.host, hloose, hport ▸ hnumber⟩

theorem colon_slashes (scheme q : Bytes) : scheme ++ 58 :: (str "//" ++ q) = scheme ++ str "://" ++ q := by
  rw [List.append_assoc]
  rfl

/-- Behind `"://"` the condition is the same for both parsers. -/
theorem UrlSpelt.authority {scheme q host : Bytes} {secure : Bool} {port : Nat}
    (h : UrlSpelt (scheme ++ str "://" ++ q)) (hscheme : (lower scheme, secure) ∈ wsSchemes) (hhost : host ≠ [])
    (htaken : TakenAs secure q host port) : AuthoritySpelt secure q := by
  obtain ⟨text, hloose, hport⟩ := htaken
  obtain hws | hhttp := List.mem_append.mp hscheme
  · exact h.ws scheme q secure rfl hws ⟨host, text, port, hhost, hloose, hport⟩
  · have hskip : LooseAuthority secure q := ⟨host, text, port, hloose, hport⟩
    rw [← behindSlashes_append q] at hskip
    obtain ⟨q', hq, hspelt⟩ := h.http scheme (str "//" ++ q) secure (colon_slashes scheme q).symm hhttp hskip
    rwa [List.append_cancel_left hq]

/-- The parsers differ on `http` and `https` URLs just in the host that may be empty. -/
theorem urlParts_eq_wsUrlParts {scheme q : Bytes} {secure : Bool} (hscheme : (lower scheme, secure) ∈ httpSchemes)
    (hhost : ∀ u, urlParse (some (scheme ++ str "://" ++ q)) = .ok u → u.host ≠ []) :
    urlParts (scheme ++ str "://" ++ q) = wsUrlParts (scheme ++ str "://" ++ q) := by
  rw [urlParts, wsUrlParts]
  cases hu : urlParse (some (scheme ++ str "://" ++ q)) with
  -- what the one takes the other takes with the same parts
  | ok u =>
    obtain ⟨scheme', p, hs, hscheme', -, htaken, hpath⟩ := urlParse_iff.mp hu
    have hcolon' := colon_not_mem (httpSchemes_subset hscheme')
    rw [← colon_slashes] at hs
    obtain ⟨rfl, rfl⟩ := append_colon_inj (colon_not_mem (httpSchemes_subset hscheme)) hcolon' hs
    rw [behindSlashes_append] at htaken hpath
    have hw : wsUrlParse (some (scheme ++ str "://" ++ q)) = .ok ⟨u.secure, u.host, u.port, u.path⟩ :=
      wsUrlParse_iff.mpr ⟨scheme, q, rfl, httpSchemes_subset hscheme', hhost u hu, htaken, hpath⟩
    rw [hw]
    rfl
  -- and what the other takes the first one takes
  | error e =>
    cases hw : wsUrlParse (some (scheme ++ str "://" ++ q)) with
    | error e' => rfl
    | ok w =>
      obtain ⟨scheme', q', hs, hscheme', -, htaken, -⟩ := wsUrlParse_iff.mp hw
      rw [← colon_slashes, ← colon_slashes] at hs
      obtain ⟨rfl, hq⟩ := append_colon_inj (colon_not_mem (httpSchemes_subset hscheme)) (colon_not_mem hscheme') hs
      have hsecure := mem_wsSchemes.mp hscheme'
      rw [mem_wsSchemes.mp (httpSchemes_subset hscheme)] at hsecure
      cases hsecure
      rw [← List.append_cancel_left hq, ← behindSlashes_append q] at htaken
      have hok := urlParse_iff (u := ⟨lower scheme, w.secure, w.host, w.port, _⟩).mpr
        ⟨scheme, str "//" ++ q, (colon_slashes scheme q).symm, hscheme, rfl, htaken, rfl⟩
      rw [hok] at hu
      cases hu

/-- **URL parsing**: exactly on the strings that are spelt well wherever they have the loose form, both
parsers follow RFC 3986, and agree on `http` and `https` URLs. -/
theorem urlParsing_iff (s : Bytes) : UrlParsing s ↔ UrlSpelt s := by
  constructor
  · intro h
    refine ⟨?_, ?_⟩
    · rintro scheme p secure hs hscheme ⟨host, text, port, hloose, hnumber⟩
      have htaken : TakenAs secure (behindSlashes p) host port := ⟨text, hloose, hnumber⟩
      have hcolon := colon_not_mem (httpSchemes_subset hscheme)
      have hfollows := h.http ⟨lower scheme, secure, host, port, targetText (behindSlashes p)⟩
        (urlParse_iff.mpr ⟨scheme, p, hs, hscheme, rfl, htaken, rfl⟩)
      -- the URL has `"://"` behind the scheme
      obtain ⟨scheme', q, -, hs', hscheme', -⟩ := hfollows.authority
      have hcolon' := colon_not_mem (httpSchemes_subset hscheme')
      rw [hs, ← colon_slashes] at hs'
      obtain ⟨rfl, rfl⟩ := append_colon_inj hcolon hcolon' hs'
      refine ⟨q, rfl, ?_⟩
      rw [hs, colon_slashes] at hfollows
      rw [behindSlashes_append] at htaken
      exact authoritySpelt (fun _ => httpSchemes_subset) hcolon htaken hfollows
    · rintro scheme q secure hs hscheme ⟨host, text, port, hhost, hloose, hnumber⟩
      have hmem := List.mem_append_left httpSchemes hscheme
      have htaken : TakenAs secure q host port := ⟨text, hloose, hnumber⟩
      have hfollows := h.ws ⟨secure, host, port, targetText q⟩
        (wsUrlParse_iff.mpr ⟨scheme, q, hs, hmem, hhost, htaken, rfl⟩)
      rw [hs] at hfollows
      exact authoritySpelt (fun _ => id) (colon_not_mem hmem) htaken hfollows
  · intro h
    have hhttp : ∀ u, urlParse (some s) = .ok u → FollowsRfc3986 httpSchemes s u.secure u.host u.port u.path := by
      intro u hu
      obtain ⟨scheme, p, rfl, hscheme, -, htaken, hpath⟩ := urlParse_iff.mp hu
      obtain ⟨text, hloose, hnumber⟩ := htaken
      obtain ⟨q, rfl, hspelt⟩ := h.http scheme p u.secure rfl hscheme ⟨_, text, _, hloose, hnumber⟩
      rw [behindSlashes_append] at hloose hpath
      rw [hpath, colon_slashes]
      exact followsRfc3986 hscheme ⟨text, hloose, hnumber⟩ hspelt
    refine ⟨hhttp, ?_, ?_⟩
    · intro u hu
      obtain ⟨scheme, q, rfl, hscheme, hhost, htaken, hpath⟩ := wsUrlParse_iff.mp hu
      rw [hpath]
      exact followsRfc3986 hscheme htaken (h.authority hscheme hhost htaken)
    · rintro ⟨scheme, q, secure, rfl, hscheme⟩
      exact urlParts_eq_wsUrlParts hscheme fun u hu => (hhttp u hu).host

/-- A question mark ends the authority, and neither parser sees it: they return `b` for the host
`a`. -/
theorem urlParsing_other_host : ¬UrlParsing (str "http://a?@b/") := by
  intro h
  have hu : urlParse (some (str "http://a?@b/")) = .ok ⟨str "http", false, str "b", 80, str "/"⟩ := by rfl
  obtain ⟨scheme, q, text, hs, hscheme, hauth, -⟩ := (h.http _ hu).authority
  have hcolon := colon_not_mem (httpSchemes_subset hscheme)
  have hurl : str "http://a?@b/" = str "http" ++ str "://" ++ str "a?@b/" := by decide
  rw [hurl, ← colon_slashes, ← colon_slashes] at hs
  obtain ⟨-, hq⟩ := append_colon_inj (by decide) hcolon hs
  rw [← List.append_cancel_left hq] at hauth
  have ha : LooseHostPort (afterLast 64 (authorityText (str "a?@b/"))) (str "a") [] := .bare (by decide) (by decide)
  have hhost := ((IsAuthority.loose hauth).1.unique ha).1
  exact absurd hhost (by decide)

end Zcio
