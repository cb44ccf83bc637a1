import Zcio.Url.Authority

/-!
# Zcio.Url.Origin

Redirects to a rooted target. `resolve_redirect` and `ws_resolve` write the URL out of the parts
of the one before, and parsing it gives these parts back. `ws_resolve` first takes any Location
with `"://"` in it for an absolute URL, one in the query of a rooted target too; such a Location
then has no scheme.
-/

namespace Zcio

open Http (ZcioUrl urlParse urlParseAuth resolveRedirect isAbsolute)

/-! ### What is known of a parsed URL

Host and port of a URL that was accepted. -/

/-- The parts of a URL that a parser returned: its authority is split and its port is in range. -/
structure ParsedAuthority (host : Bytes) (port : Nat) : Prop where
  slash : 47 ∉ host
  userinfo : 64 ∉ host
  lo : 1 ≤ port
  hi : port ≤ 65535

theorem parsedAuthority {unterminated malformed tooLong invalid p host text : Bytes} {secure : Bool} {port : Nat}
    (hsplit : splitHostPort unterminated malformed (hostPortText p) = .ok (host, text))
    (hport : portOf tooLong invalid secure text = .ok port) : ParsedAuthority host port := by
  obtain ⟨hlo, hhi⟩ := portOf_range hport
  refine ⟨fun hslash => ?_, fun hat => ?_, hlo, hhi⟩
  · exact (hostPortText_mem (splitHostPort_mem hsplit hslash)).1 rfl
  · exact (hostPortText_mem (splitHostPort_mem hsplit hat)).2.1 rfl

theorem urlParseAuth_ok {uri scheme p : Bytes} {secure : Bool} {u : ZcioUrl}
    (h : urlParseAuth uri scheme secure p = .ok u) : ParsedAuthority u.host u.port := by
  unfold urlParseAuth at h
  dsimp only at h
  split at h
  · cases h
  · rename_i host text hsplit
    split at h
    · cases h
    · rename_i port hport
      cases h
      exact parsedAuthority hsplit hport

theorem urlParse_authority {uri : CArg} {u : ZcioUrl} (h : urlParse uri = .ok u) :
    ParsedAuthority u.host u.port ∧ (u.scheme = str "http" ∧ u.secure = false ∨
      u.scheme = str "https" ∧ u.secure = true) := by
  cases uri with
  | none => cases h
  | some uri =>
    obtain ⟨colon, hcolon, -, hscheme, hsecure⟩ := Http.urlParse_ok h
    constructor
    · rw [urlParse] at h
      dsimp only at h
      rw [hcolon] at h
      dsimp only at h
      split at h
      · cases h
      · exact urlParseAuth_ok h
    · rw [hsecure]
      obtain hscheme | hscheme := hscheme
      · rw [hscheme]
        exact .inl ⟨rfl, rfl⟩
      · rw [hscheme]
        exact .inr ⟨rfl, rfl⟩

theorem wsUrlParse_authority {url : CArg} {u : WsUrl} (h : wsUrlParse url = .ok u) :
    ParsedAuthority u.host u.port ∧ u.host ≠ [] := by
  cases url with
  | none => cases h
  | some url =>
    rw [wsUrlParse] at h
    split at h
    · cases h
    split at h
    · cases h
    split at h
    · cases h
    unfold wsUrlParseAuth at h
    dsimp only at h
    split at h
    · cases h
    · rename_i host text hsplit
      split at h
      · cases h
      · rename_i hhost
        split at h
        · cases h
        · rename_i port hport
          cases h
          exact ⟨parsedAuthority hsplit hport, hhost⟩

/-! ### Written URLs

A URL put together from its parts is parsed into them. -/

variable {host target : Bytes} {port : Nat}

theorem urlParseAuth_written (uri scheme : Bytes) (secure : Bool) (h : ParsedAuthority host port)
    (hopen : 91 ∉ host) (hclose : 93 ∉ host) (rest : Bytes) :
    urlParseAuth uri scheme secure (writtenAuthority secure host port ++ 47 :: rest) =
      .ok { scheme, secure, host, port, path := 47 :: rest } := by
  obtain ⟨hauth, htarget⟩ := hostPortText_written secure port h.slash h.userinfo rest
  rw [hostPortText] at hauth
  rw [targetText] at htarget
  rw [urlParseAuth]
  dsimp only at htarget ⊢
  rw [hauth, htarget, splitHostPort_written _ _ secure port hopen hclose]
  dsimp only
  rw [portOf_portText _ _ secure h.lo h.hi]

theorem wsUrlParseAuth_written (url : Bytes) (secure : Bool) (h : ParsedAuthority host port) (hhost : host ≠ [])
    (hopen : 91 ∉ host) (hclose : 93 ∉ host) (rest : Bytes) :
    wsUrlParseAuth url secure (writtenAuthority secure host port ++ 47 :: rest) =
      .ok { secure, host, port, path := 47 :: rest } := by
  obtain ⟨hauth, htarget⟩ := hostPortText_written secure port h.slash h.userinfo rest
  rw [hostPortText] at hauth
  rw [targetText] at htarget
  rw [wsUrlParseAuth]
  rw [hauth, htarget, splitHostPort_written _ _ secure port hopen hclose]
  dsimp only
  rw [if_neg hhost, portOf_portText _ _ secure h.lo h.hi]

/-- A URL written for `url_parse`. -/
theorem urlParse_written {scheme : Bytes} {secure : Bool}
    (hscheme : scheme = str "http" ∧ secure = false ∨ scheme = str "https" ∧ secure = true)
    (h : ParsedAuthority host port) (hopen : 91 ∉ host) (hclose : 93 ∉ host) (rest : Bytes) :
    urlParse (some (absoluteUrl scheme secure host port (47 :: rest))) =
      .ok { scheme, secure, host, port, path := 47 :: rest } := by
  have hwritten := urlParseAuth_written (absoluteUrl scheme secure host port (47 :: rest)) scheme secure h hopen
    hclose rest
  have hurl : absoluteUrl scheme secure host port (47 :: rest) =
      scheme ++ 58 :: 47 :: 47 :: (writtenAuthority secure host port ++ 47 :: rest) := by
    simp only [absoluteUrl, writtenAuthority, List.append_assoc]
    rfl
  rw [hurl] at hwritten ⊢
  obtain ⟨rfl, rfl⟩ | ⟨rfl, rfl⟩ := hscheme
  · exact hwritten
  · exact hwritten

/-- A URL written for `ws_url_parse`. -/
theorem wsUrlParse_written {secure : Bool} (h : ParsedAuthority host port) (hhost : host ≠ [])
    (hopen : 91 ∉ host) (hclose : 93 ∉ host) (rest : Bytes) :
    wsUrlParse (some (absoluteUrl (if secure then str "wss" else str "ws") secure host port (47 :: rest))) =
      .ok { secure, host, port, path := 47 :: rest } := by
  have hwritten := wsUrlParseAuth_written
    (absoluteUrl (if secure then str "wss" else str "ws") secure host port (47 :: rest)) secure h hhost hopen hclose
    rest
  have hurl : absoluteUrl (if secure then str "wss" else str "ws") secure host port (47 :: rest) =
      (if secure then str "wss" else str "ws") ++
        58 :: 47 :: 47 :: (writtenAuthority secure host port ++ 47 :: rest) := by
    simp only [absoluteUrl, writtenAuthority, List.append_assoc]
    rfl
  rw [hurl] at hwritten ⊢
  cases secure with
  | false => exact hwritten
  | true => exact hwritten

/-! ### Rooted targets

A rooted Location keeps the origin where the URL written for it is read back. -/

/-- `resolve_redirect` and `url_parse` make the Location the path on the origin of `prev`. -/
def RedirectStays (prev : ZcioUrl) (location : Bytes) : Prop :=
  ∃ next u, resolveRedirect prev location = .ok next ∧ urlParse (some next) = .ok u ∧
    u.secure = prev.secure ∧ u.host = prev.host ∧ u.port = prev.port ∧ u.path = location

/-- The same of `ws_resolve` and `ws_url_parse`. -/
def WsRedirectStays (prev : WsUrl) (location : Bytes) : Prop :=
  ∃ next u, wsResolve prev location = .ok next ∧ wsUrlParse (some next) = .ok u ∧
    u.secure = prev.secure ∧ u.host = prev.host ∧ u.port = prev.port ∧ u.path = location

/-- A rooted Location is not absolute for `resolve_redirect`: no colon is before its slash. -/
theorem isAbsolute_rooted (rest : Bytes) : isAbsolute (47 :: rest) = false := by
  have hslash : memchr 47 (47 :: rest) = some 0 := memchr_append List.not_mem_nil rest
  rw [isAbsolute, hslash]
  cases memchr 58 (47 :: rest) with
  | none => rfl
  | some c => exact decide_eq_false (Nat.not_lt_zero c)

theorem redirect_stays {uri : CArg} {prev : ZcioUrl} (h : urlParse uri = .ok prev) (hopen : 91 ∉ prev.host)
    (hclose : 93 ∉ prev.host) (rest : Bytes) : RedirectStays prev (47 :: rest) := by
  obtain ⟨hauth, hscheme⟩ := urlParse_authority h
  have hnext : resolveRedirect prev (47 :: rest) =
      .ok (absoluteUrl prev.scheme prev.secure prev.host prev.port (47 :: rest)) := by
    rw [resolveRedirect, if_neg (List.cons_ne_nil 47 rest), isAbsolute_rooted]
    rfl
  exact ⟨_, _, hnext, urlParse_written hscheme hauth hopen hclose rest, rfl, rfl, rfl, rfl⟩

/-- A rooted Location has no scheme: it starts with a slash. -/
theorem wsUrlParse_rooted (rest : Bytes) : ∃ e, wsUrlParse (some (47 :: rest)) = .error e := by
  rw [wsUrlParse]
  cases hsep : strstrAt (47 :: rest) (str "://") with
  | none => exact ⟨_, rfl⟩
  | some sep =>
    dsimp only
    split
    · exact ⟨_, rfl⟩
    · cases sep with
      | zero =>
        -- `"://"` is not in front
        change List.findIdx? _ ((47 :: rest) :: rest.tails) = _ at hsep
        have hfront : (str "://").isPrefixOf (47 :: rest) = false := rfl
        rw [List.findIdx?_cons, hfront, if_neg Bool.false_ne_true] at hsep
        obtain ⟨i, -, hi⟩ := Option.map_eq_some_iff.mp hsep
        cases hi
      | succ sep =>
        have hscheme : wsScheme (lower ((47 :: rest).take (sep + 1))) = none := by
          rw [List.take_succ_cons]
          have hfirst : lower (47 :: rest.take sep) = 47 :: lower (rest.take sep) := rfl
          rw [hfirst, wsScheme, if_neg, if_neg]
          · rintro (heq | heq)
            · exact absurd (List.cons.inj heq).1 (by decide)
            · exact absurd (List.cons.inj heq).1 (by decide)
          · rintro (heq | heq)
            · exact absurd (List.cons.inj heq).1 (by decide)
            · exact absurd (List.cons.inj heq).1 (by decide)
        rw [hscheme]
        exact ⟨_, rfl⟩

theorem wsRedirect_stays {url : CArg} {prev : WsUrl} (h : wsUrlParse url = .ok prev) (hopen : 91 ∉ prev.host)
    (hclose : 93 ∉ prev.host) (rest : Bytes) :
    WsRedirectStays prev (47 :: rest) ↔ strstr (47 :: rest) (str "://") = false := by
  obtain ⟨hauth, hhost⟩ := wsUrlParse_authority h
  cases hfound : strstr (47 :: rest) (str "://") with
  | true =>
    -- the Location is parsed as it stands
    refine iff_of_false ?_ nofun
    rintro ⟨next, u, hnext, hu, -⟩
    rw [wsResolve, if_neg (List.cons_ne_nil 47 rest), if_pos hfound] at hnext
    cases hnext
    obtain ⟨e, he⟩ := wsUrlParse_rooted rest
    rw [he] at hu
    cases hu
  | false =>
    refine iff_of_true ?_ rfl
    have hnext : wsResolve prev (47 :: rest) = .ok (absoluteUrl (if prev.secure then str "wss" else str "ws")
        prev.secure prev.host prev.port (47 :: rest)) := by
      rw [wsResolve, if_neg (List.cons_ne_nil 47 rest), hfound]
      rfl
    exact ⟨_, _, hnext, wsUrlParse_written hauth hhost hopen hclose rest, rfl, rfl, rfl, rfl⟩

/-- **Rooted redirects**, for any URL that is accepted with a host without brackets and any
Location that starts with a slash: `url_parse` stays on the origin, and `ws_url_parse` just if there
is no `"://"` in the Location. -/
theorem rooted_redirects_stay (uri : CArg) {location : Bytes} (hroot : location.head? = some 47) :
    (∀ prev, urlParse uri = .ok prev → 91 ∉ prev.host → 93 ∉ prev.host → RedirectStays prev location) ∧
      ∀ prev, wsUrlParse uri = .ok prev → 91 ∉ prev.host → 93 ∉ prev.host →
        (WsRedirectStays prev location ↔ strstr location (str "://") = false) := by
  cases location with
  | nil => cases hroot
  | cons c rest =>
    cases hroot
    exact ⟨fun _ h hopen hclose => redirect_stays h hopen hclose rest,
      fun _ h hopen hclose => wsRedirect_stays h hopen hclose rest⟩

/-- A host of IPv6 on a port of its own, and a URL in the query of the target. -/
theorem rooted_redirects_stay_sample :
    ∃ prev, urlParse (some (str "https://u@[::1]:8443/a")) = .ok prev ∧ prev.host = str "::1" ∧
      RedirectStays prev (str "/login?next=http://x") :=
  ⟨_, rfl, rfl, (rooted_redirects_stay (some (str "https://u@[::1]:8443/a")) rfl).1 _ rfl (by decide) (by decide)⟩

/-- `ws_resolve` takes such a target for an absolute URL, which has no scheme then. -/
theorem rooted_redirect_leaves :
    ∃ prev, wsUrlParse (some (str "ws://h/")) = .ok prev ∧
      wsResolve prev (str "/login?next=http://x") = .ok (str "/login?next=http://x") ∧
      ¬WsRedirectStays prev (str "/login?next=http://x") := by
  refine ⟨_, rfl, rfl, ?_⟩
  rintro ⟨next, u, hnext, hu, -⟩
  cases hnext
  cases hu

end Zcio
