import Zcio.H1.Segment
import Zcio.HttpUtil.Segments

/-!
# Zcio.H1.Redirect

The redirect listener: what `h1_redirect` puts into the Location field, and when a client that
follows it asks for the same target again. The path was percent-decoded on the way in and goes
out as it is, so that a decoded `%` or `?` is read in another way, and a decoded space or an
octet above 126 makes the Location no URL.
-/

namespace Zcio

/-! ### Decoding once more

The reference in a Location is decoded by the client that follows it, which is the second
time for the path. -/

/-- The path and the query as `h1_redirect` writes them. -/
def redirectReference (path : Bytes) (query : Option Bytes) : Bytes :=
  path ++ match query with
    | some q => str "?" ++ q
    | none => []

theorem redirectReference_none (path : Bytes) : redirectReference path none = path :=
  List.append_nil path

theorem redirectReference_some (path q : Bytes) :
    redirectReference path (some q) = path ++ 63 :: q := rfl

/-- A reference is cut at the first `?`: behind the path, if that has none. -/
theorem redirectReference_split {path : Bytes} (h : (63 : UInt8) ∉ path) (query : Option Bytes) :
    rawPath (redirectReference path query) = path ∧
      rawQuery (redirectReference path query) = query := by
  have hpos : ∀ c ∈ path, (c != 63) = true := fun c hc => by
    rw [bne_iff_ne]
    rintro rfl
    exact h hc
  cases query with
  | none =>
    rw [redirectReference_none, rawPath, rawQuery, List.takeWhile_eq_self_iff.mpr hpos,
      List.dropWhile_eq_nil_iff.mpr hpos]
    exact ⟨rfl, rfl⟩
  | some q =>
    rw [redirectReference_some, rawPath, rawQuery, List.takeWhile_append_of_pos hpos,
      List.dropWhile_append_of_pos hpos]
    exact ⟨List.append_nil path, rfl⟩

/-- A path with a `?` in it is cut short. -/
theorem length_rawPath_lt {path : Bytes} (h : (63 : UInt8) ∈ path) (query : Option Bytes) :
    (rawPath (redirectReference path query)).length < path.length := by
  unfold redirectReference
  generalize (match query with | some q => str "?" ++ q | none => []) = tail
  induction path with
  | nil => exact absurd h List.not_mem_nil
  | cons c rest ih =>
    rw [List.cons_append, rawPath]
    by_cases hc : c = 63
    · rw [hc, List.takeWhile_cons_of_neg (by decide)]
      exact Nat.succ_pos _
    · have hrest : (63 : UInt8) ∈ rest := (List.mem_cons.mp h).resolve_left fun h => hc h.symm
      rw [List.takeWhile_cons_of_pos (p := (· != 63)) (bne_iff_ne.mpr hc)]
      exact Nat.succ_lt_succ (ih hrest)

/-- The parts of a target are no longer than the target. -/
theorem length_target (raw : Bytes) :
    (rawPath raw).length + (match rawQuery raw with | some q => q.length + 1 | none => 0) =
      raw.length := by
  have hsplit := congrArg List.length (List.takeWhile_append_dropWhile (p := (· != 63)) (l := raw))
  rw [List.length_append] at hsplit
  unfold rawPath rawQuery
  cases hd : raw.dropWhile (· != 63) with
  | nil =>
    rw [hd] at hsplit
    exact hsplit
  | cons c q =>
    rw [hd] at hsplit
    exact hsplit

/-- **A decoded target is read back unchanged** exactly if its path has neither a `%` nor a `?`. -/
theorem redirectReference_decodes {raw path : Bytes} {query : Option Bytes} {lim : ZhsLimits}
    (hstar : raw ≠ [42]) (h : zhsDecodeTarget raw lim = .ok (path, query)) :
    zhsDecodeTarget (redirectReference path query) lim = .ok (path, query) ↔
      (37 : UInt8) ∉ path ∧ (63 : UInt8) ∉ path := by
  obtain ⟨hroot, -, hlen, hfix⟩ := zhsDecodeTarget_normal hstar h
  obtain ⟨-, hmax, ⟨dec, hdec, hdots⟩, hquery, rfl⟩ := (zhsDecodeTarget_eq_ok hstar).mp h
  obtain ⟨hpct, rfl, hclean⟩ := pctDecode_eq_some.mp hdec
  have hhead : (redirectReference path (rawQuery raw)).head? = some slash := by
    unfold redirectReference
    rw [List.head?_append, hroot]
    rfl
  have hstar' : redirectReference path (rawQuery raw) ≠ [42] := fun hs => by
    rw [hs] at hhead
    cases hhead
  constructor
  · intro hagain
    have hshort := (zhsDecodeTarget_normal hstar' hagain).2.2.1
    have hraw := length_pctText (rawPath (redirectReference path (rawQuery raw)))
    have hq : (63 : UInt8) ∉ path := fun hm => by
      have := length_rawPath_lt hm (rawQuery raw)
      omega
    refine ⟨fun hm => ?_, hq⟩
    obtain ⟨-, -, ⟨_, hdec', -⟩, -⟩ := (zhsDecodeTarget_eq_ok hstar').mp hagain
    rw [(redirectReference_split hq _).1] at hdec' hshort
    have := length_pctText_lt (pctDecode_eq_some.mp hdec').1 hm
    omega
  · rintro ⟨hp, hq⟩
    obtain ⟨hpath, hqq⟩ := redirectReference_split hq (rawQuery raw)
    obtain ⟨htext, hok⟩ := pctText_eq_self hp
    refine (zhsDecodeTarget_eq_ok hstar').mpr ⟨hhead, ?_, ⟨path, ?_, hfix⟩, ?_, hqq.symm⟩
    · have htotal := length_target raw
      have hagain := length_target (redirectReference path (rawQuery raw))
      rw [hpath, hqq] at hagain
      have := length_pctText (rawPath raw)
      omega
    · rw [hpath]
      have hok' : PathOk path := zhsDecodeTarget_pathOk h
      rw [← htext] at hok'
      refine pctDecode_eq_some.mpr ⟨hok, htext.symm, ?_⟩
      rcases hok' with hs | ⟨-, hclean⟩
      · rw [htext] at hs
        rw [hs] at hroot
        cases hroot
      · exact hclean
    · rw [hqq]
      exact hquery

/-! ### The redirect

The one response that the redirecting listener sends, and the target that a client reads
from it. -/

variable (g : H1Cfg)

/-- The Location of a redirect. -/
def redirectLocation (host path : Bytes) (query : Option Bytes) : Bytes :=
  str "https://" ++ host ++ redirectReference path query

/-- What stands behind the authority of an `https` URL: from the first `/`, `?` or `#` on. -/
def afterAuthority (url : Bytes) : Bytes :=
  (url.drop (str "https://").length).dropWhile fun c => !([47, 63, 35] : Bytes).contains c

/-- A host with none of these in it is the authority. -/
theorem afterAuthority_location {host path : Bytes} (hhost : ∀ c ∈ host, c ∉ ([47, 63, 35] : Bytes))
    (hroot : path.head? = some slash) (query : Option Bytes) :
    afterAuthority (redirectLocation host path query) = redirectReference path query := by
  obtain ⟨rest, rfl⟩ : ∃ rest, path = slash :: rest := by
    cases path with
    | nil => cases hroot
    | cons c rest =>
      cases hroot
      exact ⟨rest, rfl⟩
  have hplain : ∀ c ∈ host, (!([47, 63, 35] : Bytes).contains c) = true := fun c hc => by
    simpa using hhost c hc
  rw [afterAuthority, redirectLocation, List.append_assoc, List.drop_left,
    List.dropWhile_append_of_pos hplain]
  unfold redirectReference
  rw [List.cons_append, List.dropWhile_cons_of_neg (by decide)]

/-- The response of `h1_redirect`. -/
def redirectBytes (date : HttpDate) (location : Bytes) : Bytes :=
  str "HTTP/1.1 301 Moved Permanently\r\ndate: " ++ date.1 ++
    str "\r\nserver: zcio\r\nlocation: " ++ location ++
    str "\r\ncontent-length: 0\r\nconnection: close\r\n\r\n"

/-- The connection holds the target of its request as `h1_reqline` decoded it. -/
def HoldsTarget (c : Zh1Conn) : Prop :=
  ∃ path query, zhsDecodeTarget c.req.raw.target g.lim = .ok (path, query) ∧
    c.req.path = some path ∧ c.req.query = query

/-- The connection has sent the redirect of its target and nothing else. -/
def SentRedirect (c : Zh1Conn) : Prop :=
  ∃ path query, zhsDecodeTarget c.req.raw.target g.lim = .ok (path, query) ∧
    c.out.rd = redirectBytes (g.srv.date 0) (redirectLocation (h1RedirectHost g c) path query)

/-- **What a redirect listener's connection does**: it reads the head of one request, and answers
it with a redirect or an error. -/
def Redirecting (c : Zh1Conn) : Prop :=
  match c.state with
  | .reqline => c.err = none ∧ c.out.rd = [] ∧ c.log = []
  | .headers => c.err = none ∧ c.out.rd = [] ∧ c.log = [] ∧ HoldsTarget g c
  | .dead => c.err = none → SentRedirect g c
  | _ => False

variable {g}

theorem redirecting_h1Error (c : Zh1Conn) (status : Nat) : Redirecting g (h1Error g c status) :=
  nofun

theorem h1Redirect_sent {c : Zh1Conn} (hout : c.out.rd = []) (hlog : c.log = [])
    (ht : HoldsTarget g c) : Redirecting g (h1Redirect g c) := by
  obtain ⟨path, query, hdec, hpath, hquery⟩ := ht
  unfold h1Redirect
  dsimp only
  split
  · exact redirecting_h1Error c 400
  · refine fun _ => ⟨path, query, hdec, ?_⟩
    show c.out.rd ++ _ =
      redirectBytes (g.srv.date 0) (redirectLocation (h1RedirectHost g c) path query)
    have hstr : str "\r\nserver: zcio\r\nlocation: https://" =
        str "\r\nserver: zcio\r\nlocation: " ++ str "https://" := by decide +kernel
    rw [hout, hlog, hpath, hquery, hstr]
    unfold redirectBytes redirectLocation redirectReference
    cases query with
    | none => simp only [List.append_assoc, List.nil_append, Option.getD_some, List.length_nil]
    | some q => simp only [List.append_assoc, List.nil_append, Option.getD_some, List.length_nil]

/-- `h1_reqline` keeps what it decodes. -/
theorem redirecting_reqline {c : Zh1Conn} (hst : c.state = .reqline) (hc : Redirecting g c)
    (inp : Bytes) :
    Redirecting g (h1Reqline g c inp).c ∧ (h1Reqline g c inp).code ≠ .complete := by
  refine ⟨?_, (h1Reqline_length g c inp).2⟩
  have hclean : c.err = none ∧ c.out.rd = [] ∧ c.log = [] := by
    unfold Redirecting at hc
    rw [hst] at hc
    exact hc
  unfold h1Reqline
  dsimp only
  generalize hrecv : (if inp.length > 0 then { c with receiving := true } else c) = c₁
  have hc₁ : c₁ = { c with receiving := c₁.receiving } := by
    rw [← hrecv]
    split <;> rfl
  obtain ⟨-, -, hb⟩ | ⟨status, hb⟩ | ⟨text, rest, rfl, -, -, hb⟩ :=
    h1Budgeted_cases g c₁ inp id (h1ReqlineText g)
  · rw [hb, hc₁]
    unfold Redirecting
    dsimp only [id_eq]
    rw [hst]
    exact hclean
  · rw [hb]
    exact redirecting_h1Error _ _
  · rw [hb]
    unfold h1ReqlineText
    dsimp only
    split
    · exact redirecting_h1Error _ _
    · split
      · exact redirecting_h1Error _ _
      · split
        · exact redirecting_h1Error _ _
        · split
          · exact redirecting_h1Error _ _
          · split
            · exact redirecting_h1Error _ _
            · split
              · exact redirecting_h1Error _ _
              · rename_i path query htarget
                rw [hc₁]
                exact ⟨hclean.1, hclean.2.1, hclean.2.2, path, query, htarget, rfl, rfl⟩

/-- The end of the head: the redirect goes out, or an error. -/
theorem redirecting_h1HeadDone (hr : g.redirect = true) {c : Zh1Conn} (hout : c.out.rd = [])
    (hlog : c.log = []) (ht : HoldsTarget g c) (inp : Bytes) :
    Redirecting g (h1HeadDone g c inp).c ∧ (h1HeadDone g c inp).code ≠ .complete := by
  refine ⟨?_, (h1HeadDone_inp g c inp).2⟩
  have hauth : (h1Authority c).out.rd = [] ∧ (h1Authority c).log = [] ∧
      HoldsTarget g (h1Authority c) := by
    unfold h1Authority
    split
    · exact ⟨hout, hlog, ht⟩
    · exact ⟨hout, hlog, ht⟩
  unfold h1HeadDone
  dsimp only
  split
  · exact redirecting_h1Error _ _
  · split
    · exact redirecting_h1Error _ _
    · exact h1Redirect_sent hauth.1 hauth.2.1 hauth.2.2

/-- A round of `h1_headers`. -/
theorem redirecting_headers (hr : g.redirect = true) {c : Zh1Conn} (hst : c.state = .headers)
    (hc : Redirecting g c) (inp : Bytes) :
    Redirecting g (headStage g (h1HeaderRound g (c, inp))).c ∧
      (headStage g (h1HeaderRound g (c, inp))).code ≠ .complete := by
  have hclean : c.err = none ∧ c.out.rd = [] ∧ c.log = [] ∧ HoldsTarget g c := by
    unfold Redirecting at hc
    rw [hst] at hc
    exact hc
  obtain ⟨herr, hout, hlog, ht⟩ := hclean
  unfold h1HeaderRound
  obtain ⟨-, -, hb⟩ | ⟨status, hb⟩ | ⟨text, rest, rfl, -, -, hb⟩ :=
    h1Budgeted_cases g c inp (fun st => .inr (.stop st)) (h1HeaderText g)
  · rw [hb]
    exact ⟨hc, nofun⟩
  · rw [hb]
    exact ⟨redirecting_h1Error _ _, nofun⟩
  · rw [hb]
    obtain ⟨-, ht'⟩ | ⟨status, ht'⟩ | ⟨name, v, value, headers, -, -, -, -, -, ht'⟩ :=
      h1HeaderText_cases g { c with headBytes := c.headBytes + (text.length + 2) } text rest
    · rw [ht']
      exact redirecting_h1HeadDone hr
        (c := { c with headBytes := c.headBytes + (text.length + 2) }) hout hlog ht rest
    · rw [ht']
      exact ⟨redirecting_h1Error _ _, nofun⟩
    · rw [ht']
      refine ⟨?_, nofun⟩
      unfold Redirecting
      dsimp only [headStage]
      rw [hst]
      exact ⟨herr, hout, hlog, ht⟩

/-- **One round** on a redirect listener. -/
theorem redirecting_round (hr : g.redirect = true) {c : Zh1Conn} (hc : Redirecting g c)
    (inp : Bytes) :
    Redirecting g (h1Round g c inp).c ∧ (h1Round g c inp).code ≠ .complete := by
  cases hst : c.state with
  | reqline =>
    simp only [h1Round, hst]
    exact redirecting_reqline hst hc inp
  | headers =>
    simp only [h1Round, hst]
    exact redirecting_headers hr hst hc inp
  | dead =>
    simp only [h1Round, hst]
    exact ⟨hc, fun h => by cases h⟩
  | _ =>
    unfold Redirecting at hc
    rw [hst] at hc
    exact hc.elim

/-- A feed. -/
theorem redirecting_feed (hr : g.redirect = true) {s : FeedSt} (hc : Redirecting g s.c) :
    Redirecting g (feedLoop g s).c := by
  refine feedLoop_induct g (P := fun s r => Redirecting g s.c → Redirecting g r.c) ?_ ?_ s hc
  · intro s r h hi
    obtain ⟨hround, hcode⟩ := redirecting_round hr hi s.inp
    unfold feedStep feedNext at h
    split at h
    · cases h
      exact hround
    · cases h
    · cases h
      exact hround
    · rename_i hcomplete
      exact absurd hcomplete hcode
  · intro s s' r h ih hi
    obtain ⟨hround, hcode⟩ := redirecting_round hr hi s.inp
    apply ih
    unfold feedStep feedNext at h
    split at h
    · cases h
    · cases h
      exact hround
    · cases h
    · rename_i hcomplete
      exact absurd hcomplete hcode

/-- A whole run, whatever the reads bring. -/
theorem redirecting_feedSegments (hr : g.redirect = true) (segs : List Bytes) :
    Redirecting g (feedSegments g segs).c := by
  have hall : ∀ (segs : List Bytes) (c : Zh1Conn) (inp : Bytes), Redirecting g c →
      Redirecting g (feedAll g c inp segs).c := by
    intro segs
    induction segs with
    | nil => exact fun c inp hc => hc
    | cons x xs ih =>
      intro c inp hc
      have hfeed : Redirecting g (zh1Feed g c (inp ++ x)).c :=
        redirecting_feed hr (s := ⟨c, inp ++ x, 0⟩) hc
      rw [feedAll]
      split
      · exact hfeed
      · exact ih _ _ hfeed
  exact hall segs zh1New [] ⟨rfl, rfl, rfl⟩

/-- An octet that can stand in a URL: no control, no space, no octet above 126. -/
def IsUrlOctet (b : UInt8) : Prop := 33 ≤ b ∧ b ≤ 126

instance (b : UInt8) : Decidable (IsUrlOctet b) := inferInstanceAs (Decidable (_ ∧ _))

theorem redirectLocation_url (host path : Bytes) (query : Option Bytes) :
    (∀ b ∈ redirectLocation host path query, IsUrlOctet b) ↔
      (∀ b ∈ host, IsUrlOctet b) ∧ (∀ b ∈ path, IsUrlOctet b) ∧
        ∀ b ∈ query.getD [], IsUrlOctet b := by
  have hscheme : ∀ b ∈ str "https://", IsUrlOctet b := by decide +kernel
  have hmark : IsUrlOctet 63 := by decide
  have hreference : (∀ b ∈ redirectReference path query, IsUrlOctet b) ↔
      (∀ b ∈ path, IsUrlOctet b) ∧ ∀ b ∈ query.getD [], IsUrlOctet b := by
    cases query with
    | none =>
      rw [redirectReference_none]
      exact (and_iff_left fun b hb => (List.not_mem_nil hb).elim).symm
    | some q =>
      rw [redirectReference_some, List.forall_mem_append, List.forall_mem_cons]
      exact and_congr_right fun _ => and_iff_right hmark
  unfold redirectLocation
  rw [List.forall_mem_append, List.forall_mem_append, hreference, and_assoc]
  exact and_iff_right hscheme

/-- **The redirect and its target**: a redirect listener that accepts a request answers with a
Location of the decoded path and the raw query, which is what stands behind the authority there unless
the host has a `/`, `?` or `#` in it. It is a URL with the request's path and query if and only if the
decoded path has neither a `%` nor a `?` and host, path and query hold only octets that can stand in a
URL. -/
theorem h1Redirect_target (hr : g.redirect = true) {segs : List Bytes} {c : Zh1Conn}
    (hc : (feedSegments g segs).c = c) (hdead : c.state = .dead) (haccept : c.err = none)
    (horigin : c.req.raw.target.head? = some slash) :
    ∃ path query, zhsDecodeTarget c.req.raw.target g.lim = .ok (path, query) ∧
      c.out.rd = redirectBytes (g.srv.date 0) (redirectLocation (h1RedirectHost g c) path query) ∧
      ((∀ b ∈ h1RedirectHost g c, b ∉ ([47, 63, 35] : Bytes)) →
        afterAuthority (redirectLocation (h1RedirectHost g c) path query) = redirectReference path query) ∧
      ((zhsDecodeTarget (redirectReference path query) g.lim = .ok (path, query) ∧
          ∀ b ∈ redirectLocation (h1RedirectHost g c) path query, IsUrlOctet b) ↔
        ((37 : UInt8) ∉ path ∧ (63 : UInt8) ∉ path) ∧
          (∀ b ∈ h1RedirectHost g c, IsUrlOctet b) ∧ (∀ b ∈ path, IsUrlOctet b) ∧
            ∀ b ∈ query.getD [], IsUrlOctet b) := by
  have hrun : Redirecting g c := hc ▸ redirecting_feedSegments hr segs
  unfold Redirecting at hrun
  rw [hdead] at hrun
  obtain ⟨path, query, hdec, hout⟩ := hrun haccept
  have hstar : c.req.raw.target ≠ [42] := fun h => by
    rw [h] at horigin
    cases horigin
  have hroot := (zhsDecodeTarget_normal hstar hdec).1
  exact ⟨path, query, hdec, hout, fun hhost => afterAuthority_location hhost hroot query,
    and_congr (redirectReference_decodes hstar hdec) (redirectLocation_url _ _ _)⟩

/-- A redirect listener with the default limits that points at the host it was asked for. -/
def redirectListener : H1Cfg := { H1Cfg.silent with redirect := true }

/-- `GET /a%3Fb`: a path with a question mark in it. -/
def questionRequest : Bytes := str "GET /a%3Fb HTTP/1.1\r\nHost: h\r\n\r\n"

theorem h1Redirect_target_sample :
    ∃ path query, zhsDecodeTarget (str "/a%3Fb") redirectListener.lim = .ok (path, query) ∧
      (feedSegments redirectListener [questionRequest]).c.out.rd =
        redirectBytes (redirectListener.srv.date 0) (redirectLocation (str "h") path query) ∧
      ((∀ b ∈ str "h", b ∉ ([47, 63, 35] : Bytes)) →
        afterAuthority (redirectLocation (str "h") path query) = redirectReference path query) ∧
      ((zhsDecodeTarget (redirectReference path query) redirectListener.lim = .ok (path, query) ∧
          ∀ b ∈ redirectLocation (str "h") path query, IsUrlOctet b) ↔
        ((37 : UInt8) ∉ path ∧ (63 : UInt8) ∉ path) ∧
          (∀ b ∈ str "h", IsUrlOctet b) ∧ (∀ b ∈ path, IsUrlOctet b) ∧
            ∀ b ∈ query.getD [], IsUrlOctet b) := by
  have hrun : (feedSegments redirectListener [questionRequest]).c.state = .dead ∧
      (feedSegments redirectListener [questionRequest]).c.err = none ∧
      (feedSegments redirectListener [questionRequest]).c.req.raw.target = str "/a%3Fb" ∧
      h1RedirectHost redirectListener (feedSegments redirectListener [questionRequest]).c =
        str "h" := by decide +kernel
  obtain ⟨hdead, haccept, htarget, hhost⟩ := hrun
  rw [← htarget, ← hhost]
  exact h1Redirect_target rfl rfl hdead haccept (htarget ▸ by decide +kernel)

/-- The request for `/a?b` is sent to the path `/a` with the query `b`. -/
theorem h1Redirect_loses_target :
    (feedSegments redirectListener [questionRequest]).c.out.rd =
        redirectBytes (redirectListener.srv.date 0) (str "https://h/a?b") ∧
      zhsDecodeTarget (str "/a%3Fb") redirectListener.lim = .ok (str "/a?b", none) ∧
      zhsDecodeTarget (str "/a?b") redirectListener.lim = .ok (str "/a", some (str "b")) := by
  decide +kernel

end Zcio
