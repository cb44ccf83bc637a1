import Zcio.Lib.Delimited
import Zcio.H1.Requests

/-!
# Zcio.H1.Persistence

Whether a client wants the connection to stay open. `Rfc9112.persists` is the rule of the
standard, over the Connection fields of a head combined into one list. `h1_headers` looks at the
first of them only, and at `close` in HTTP/1.1 only; `FirstDecides` is when that makes no
difference.
-/

namespace Zcio

namespace Rfc9112

/-- The elements of a comma-separated list: whitespace around them and empty ones do not count. -/
def listElements (v : Bytes) : List Bytes := Lib.elements 44 isOws v

/-- `tok` is an element, in any case. -/
def lists (v tok : Bytes) : Bool := (listElements v).any fun e => ciEq e tok

/-- The values of all fields of a name as one. -/
def combined (vs : List Bytes) : Bytes := [44].intercalate vs

/-- The connection persists: in HTTP/1.1 unless the client says `close`, in HTTP/1.0 if it says
`keep-alive` and not `close`. -/
def persists (http10 : Bool) (vs : List Bytes) : Bool :=
  if lists (combined vs) (str "close") then false
  else if http10 then lists (combined vs) (str "keep-alive")
  else true

theorem lists_combined (vs : List Bytes) (tok : Bytes) :
    lists (combined vs) tok = vs.any fun v => lists v tok := by
  rw [lists, listElements, combined, Lib.elements_intercalate, List.any_flatMap]
  rfl

end Rfc9112

open Rfc9112 (lists listElements persists)

/-! ### `h1_token_in_list`

The loop over a list of tokens, as a test of its elements. -/

/-- The scanner's element is the one in front. -/
theorem any_elements_front {tok : Bytes} (htok : tok ≠ []) (p : Bytes) :
    ((Lib.elements 44 isOws ((p.dropWhile fun c => isOws c || c == 44).takeWhile (· != 44))).any
        fun e => ciEq e tok) =
      ciEq (((p.dropWhile fun c => isOws c || c == 44).takeWhile (· != 44)).rdropWhile isOws) tok := by
  have hno : (44 : UInt8) ∉ (p.dropWhile fun c => isOws c || c == 44).takeWhile (· != 44) :=
    fun hmem => by simpa using List.mem_takeWhile_imp hmem
  rw [Lib.elements_single hno, Lib.trim_takeWhile]
  generalize List.rdropWhile isOws _ = e
  by_cases hnil : e = []
  · rw [if_pos hnil, hnil]
    obtain ⟨b, t, rfl⟩ := List.exists_cons_of_ne_nil htok
    rfl
  · rw [if_neg hnil, List.any_cons, List.any_nil, Bool.or_false]

/-- A round of the scanner looks at the element in front and leaves the others. -/
theorem tokenRound_lists {tok : Bytes} (htok : tok ≠ []) (p : Bytes) :
    match tokenRound tok p with
    | .inl p' => lists p tok = lists p' tok
    | .inr r => lists p tok = r := by
  unfold tokenRound
  by_cases hp : p = []
  · rw [if_pos hp, hp]
    rw [lists, listElements, Lib.elements_nil]
    rfl
  rw [if_neg hp]
  have hlists : lists p tok =
      (ciEq (((p.dropWhile fun c => isOws c || c == 44).takeWhile (· != 44)).rdropWhile isOws) tok ||
        lists ((p.dropWhile fun c => isOws c || c == 44).dropWhile (· != 44)) tok) := by
    rw [← any_elements_front htok, lists, listElements, ← Lib.elements_dropWhile, Lib.elements_cut,
      List.any_append]
    rfl
  dsimp only
  rw [hlists]
  cases ciEq (((p.dropWhile fun c => isOws c || c == 44).takeWhile (· != 44)).rdropWhile isOws) tok with
  | true => rfl
  | false => rfl

/-- **`h1_token_in_list`** looks for the token among the elements of the list. -/
theorem h1TokenInList_eq (list : Bytes) {tok : Bytes} (htok : tok ≠ []) :
    h1TokenInList list tok = lists list tok := by
  refine Lib.loop_induct (tokenRound_decreases tok) (P := fun p r => r = lists p tok) ?_ ?_ list
  · intro p r hb
    have h := tokenRound_lists htok p
    rw [hb] at h
    exact h.symm
  · intro p p' r hb hr
    have h := tokenRound_lists htok p
    rw [hb] at h
    exact hr.trans h.symm

/-! ### The decision

The code asks the first of the Connection fields alone, and by the version for one token or the
other. -/

variable (g : H1Cfg)

/-- The values of the Connection fields of a head. -/
def connectionFields (h : ZhsHdrs) : List Bytes :=
  (h.v.filter fun x => x.name == str "connection").map (·.value)

/-- What `h1_headers` makes of the fields. -/
def firstPersists (http10 : Bool) : List Bytes → Bool
  | [] => !http10
  | v :: _ => if http10 then lists v (str "keep-alive") else !lists v (str "close")

theorem h1KeepAlive_fields (c : Zh1Conn) :
    h1KeepAlive c = firstPersists c.isHttp10 (connectionFields c.req.headers) := by
  have hlower : lower (str "connection") = str "connection" := by decide
  have hget : c.req.headers.get (str "connection") = (connectionFields c.req.headers).head? := by
    simp only [ZhsHdrs.get, connectionFields, hlower, List.head?_map, List.head?_filter]
  unfold h1KeepAlive
  rw [hget]
  cases connectionFields c.req.headers with
  | nil => rfl
  | cons v vs =>
    simp only [List.head?_cons, firstPersists]
    rw [h1TokenInList_eq v (by decide), h1TokenInList_eq v (by decide)]

/-- The fields behind the first say nothing new: in HTTP/1.1 none says `close` when the first does
not; in HTTP/1.0 none says `close` at all when the first says `keep-alive`, and when it does not,
none says `keep-alive` without a `close` somewhere. -/
def FirstDecides (http10 : Bool) : List Bytes → Prop
  | [] => True
  | v :: vs =>
    if http10 = false then lists v (str "close") = false → ∀ u ∈ vs, lists u (str "close") = false
    else if lists v (str "keep-alive") then ∀ u ∈ v :: vs, lists u (str "close") = false
    else (∃ u ∈ vs, lists u (str "keep-alive") = true) → ∃ u ∈ v :: vs, lists u (str "close") = true

instance (http10 : Bool) : (vs : List Bytes) → Decidable (FirstDecides http10 vs)
  | [] => .isTrue trivial
  | v :: vs => inferInstanceAs (Decidable
      (if http10 = false then lists v (str "close") = false → ∀ u ∈ vs, lists u (str "close") = false
      else if lists v (str "keep-alive") then ∀ u ∈ v :: vs, lists u (str "close") = false
      else (∃ u ∈ vs, lists u (str "keep-alive") = true) →
        ∃ u ∈ v :: vs, lists u (str "close") = true))

theorem any_eq_false {vs : List Bytes} {p : Bytes → Bool} :
    vs.any p = false ↔ ∀ v ∈ vs, p v = false := by
  rw [List.any_eq_false]
  simp only [Bool.not_eq_true]

theorem any_eq_true {vs : List Bytes} {p : Bytes → Bool} :
    vs.any p = true ↔ ∃ v ∈ vs, p v = true := List.any_eq_true

/-- The two decisions, of the first field and of the others. -/
theorem decisions_eq (http10 close keep closes keeps : Bool) :
    ((if http10 then keep else !close) =
      if close || closes then false else if http10 then keep || keeps else true) ↔
    if http10 = false then close = false → closes = false
    else if keep then (close || closes) = false
    else keeps = true → (close || closes) = true := by
  revert http10 close keep closes keeps
  decide

/-- The code's decision is that of the standard if and only if the first field decides. -/
theorem firstPersists_iff (http10 : Bool) (vs : List Bytes) :
    firstPersists http10 vs = persists http10 vs ↔ FirstDecides http10 vs := by
  unfold persists
  rw [Rfc9112.lists_combined, Rfc9112.lists_combined]
  cases vs with
  | nil => cases http10 <;> simp [firstPersists, FirstDecides]
  | cons v vs =>
    simp only [FirstDecides, ← any_eq_false, ← any_eq_true]
    exact decisions_eq http10 (lists v (str "close")) (lists v (str "keep-alive"))
      (vs.any fun u => lists u (str "close")) (vs.any fun u => lists u (str "keep-alive"))

/-! ### `h1_headers`

The decision is made at the end of the head, from the fields that were stored. -/

variable {g}

/-- A head that is accepted comes out of the loop over the header lines. -/
theorem h1Headers_done {c : Zh1Conn} {inp : Bytes} (hok : (h1Headers g c inp).code = .next) :
    ∃ c' rest, h1HeaderLoop g c inp = .done c' rest ∧ h1Headers g c inp = h1HeadDone g c' rest := by
  have hshort := h1HeaderLoop_shorter g c inp
  unfold h1Headers at hok ⊢
  cases hloop : h1HeaderLoop g c inp with
  | stop st =>
    rw [hloop] at hok hshort
    exact absurd hok hshort.1
  | done c' rest => exact ⟨c', rest, rfl, rfl⟩

/-- Behind its checks the framing is decided, and then the flag. -/
theorem h1HeadDone_next {c : Zh1Conn} {inp : Bytes} (hok : (h1HeadDone g c inp).code = .next) :
    ∃ c', h1Framing g (h1Authority c) = .ok c' ∧
      (h1HeadDone g c inp).c = { c' with keepAlive := h1KeepAlive c' } := by
  unfold h1HeadDone at hok ⊢
  dsimp only at hok ⊢
  split at hok
  · cases hok
  split at hok
  · cases hok
  split at hok
  · cases hok
  rename_i h1 h2 h3
  rw [if_neg h1, if_neg h2, if_neg h3]
  cases hf : h1Framing g (h1Authority c) with
  | error e =>
    rw [hf] at hok
    cases hok
  | ok c' => exact ⟨c', rfl, rfl⟩

/-! ### The fields received

What was stored under the name is what was received under it, so that the decision is one on
the octets. -/

/-- The Connection fields as they came. -/
def connectionReceived (req : HttpReq) : List Bytes :=
  (req.raw.fields.filter fun f => ciEq f.1 (str "connection")).map (·.2)

theorem HeadRead.connectionFields {lim : ZhsLimits} {req : HttpReq} (h : HeadRead lim req) :
    connectionFields req.headers = connectionReceived req := by
  have hlower : lower (str "connection") = str "connection" := by decide
  unfold Zcio.connectionFields connectionReceived
  rw [h.assembled.headers, storedFields, List.filter_map, List.map_map]
  simp only [ciEq, hlower]
  refine List.map_congr_left fun f hf => ?_
  exact cstr_of_valueOk (h.values f (List.mem_filter.mp hf).1)

/-- The loop over the header lines and the end of the head keep the invariant of the request. -/
theorem h1Headers_stage {c : Zh1Conn} (hst : c.state = .headers) (hs : ReqStage g.lim c)
    {inp rest : Bytes} {c' : Zh1Conn} (hloop : h1HeaderLoop g c inp = .done c' rest) :
    ReqStage g.lim (h1HeadDone g c' rest).c := by
  refine Lib.loop_induct (h1HeaderRound_decreases g) (P := fun s r => s.1.state = .headers →
    ReqStage g.lim s.1 → ∀ c' rest, r = .done c' rest → ReqStage g.lim (h1HeadDone g c' rest).c)
    ?_ ?_ (c, inp) hst hs c' rest hloop
  · rintro ⟨c, inp⟩ r hb hst hs c' rest rfl
    dsimp only at hst
    have hmove := h1Round_move g c inp
    simp only [h1Round, hst, hb, headStage] at hmove
    exact hmove.stage g hs
  · rintro ⟨c, inp⟩ ⟨c₁, inp₁⟩ r hb ih hst hs
    dsimp only at hst
    have hmove := h1Round_move g c inp
    simp only [h1Round, hst, hb, headStage] at hmove
    exact ih ((h1HeaderRound_state g hb).trans hst) (hmove.stage g hs)

/-- **Persistence.** Of every head that `h1_headers` accepts, the flag is what the standard says of
all its Connection fields if and only if the first field decides. The fields are those received, as
long as the connection is one of a run (`h1Run_requests`). `h1_token_in_list` ends on every string,
in a round for each octet at most and one more. -/
theorem h1Headers_keepAlive (c : Zh1Conn) (inp : Bytes) (hok : (h1Headers g c inp).code = .next) :
    let c' := (h1Headers g c inp).c
    let fields := connectionFields c'.req.headers
    (c'.keepAlive = persists c'.isHttp10 fields ↔ FirstDecides c'.isHttp10 fields) ∧
      (c.state = .headers → ReqStage g.lim c → fields = connectionReceived c'.req) ∧
      ∀ list tok, (Lib.iter (tokenRound tok) (list.length + 1) list).isSome := by
  obtain ⟨c₁, rest, hloop, hdone⟩ := h1Headers_done hok
  rw [hdone] at hok ⊢
  obtain ⟨c₂, hframing, hc₂⟩ := h1HeadDone_next hok
  refine ⟨?_, fun hst hs => ?_, fun list tok =>
    Lib.iter_isSome (tokenRound_decreases tok) _ list (Nat.lt_succ_self _)⟩
  · rw [hc₂, ← firstPersists_iff]
    dsimp only
    rw [h1KeepAlive_fields]
  · have hstage := h1Headers_stage hst hs hloop
    rw [hc₂] at hstage ⊢
    obtain ⟨-, ⟨hstate, -⟩ | ⟨hstate, -⟩⟩ := h1Framing_ok g hframing
    · simp only [ReqStage, hstate] at hstage
      exact hstage.1.toHeadRead.connectionFields
    · simp only [ReqStage, hstate] at hstage
      exact hstage.1.toHeadRead.connectionFields

/-- A connection that has read a request line. -/
def behindLine (line : Bytes) : Zh1Conn := (zh1Feed H1Cfg.silent zh1New line).c

/-- One Connection field, with whitespace and an empty element. -/
theorem h1Headers_keepAlive_list :
    (h1Headers H1Cfg.silent (behindLine (str "GET / HTTP/1.1\r\n"))
      (str "Host: h\r\nConnection: x , , Close\r\n\r\n")).c.keepAlive = false := by
  have hok : (h1Headers H1Cfg.silent (behindLine (str "GET / HTTP/1.1\r\n"))
      (str "Host: h\r\nConnection: x , , Close\r\n\r\n")).code = .next := by decide +kernel
  obtain ⟨hiff, -⟩ := h1Headers_keepAlive _ _ hok
  rw [hiff.mpr (by decide +kernel)]
  decide +kernel

/-- `h1_headers` accepts the head and keeps the connection, which the client wants closed. -/
def MissesClose (line head : Bytes) : Prop :=
  let s := h1Headers H1Cfg.silent (behindLine line) head
  s.code = .next ∧ s.c.keepAlive = true ∧
    persists s.c.isHttp10 (connectionFields s.c.req.headers) = false

/-- **A `close` that is not seen**: in the second Connection field of an HTTP/1.1 head, and beside
`keep-alive` in HTTP/1.0. -/
theorem h1Headers_keepAlive_missed :
    MissesClose (str "GET / HTTP/1.1\r\n")
        (str "Host: h\r\nConnection: x\r\nConnection: close\r\n\r\n") ∧
      MissesClose (str "GET / HTTP/1.0\r\n") (str "Connection: keep-alive, close\r\n\r\n") := by
  unfold MissesClose
  decide +kernel

end Zcio
