import Zcio.H1.Requests
import Zcio.H2.Requests
import Zcio.H3.Requests

/-!
# Zcio.Server.Versions

The three protocol versions side by side. `Handed` collects every request that any of them
passes to `zhs_dispatch_`, in any run; the theorems say how far the versions agree on what
a handler may rely on.

* **`handed_wellFormed_iff`**: HTTP/1.1 checks all of it, HTTP/2 leaves field values and
  HTTP/3 leaves the method to the client.

A version shows in two places only. `Handed.assembled` and `Handed.body` split on it and cite the
run lemma of its own module, which says how the request object was put together from the octets
received. `Handed.clean_iff` compares what the version has checked with what a clean request asks
for. From there on the proof is about the object alone: one that was assembled from clean octets is
well-formed (`Assembled.wellFormed`), and a well-formed one gives its octets back.
-/

namespace Zcio

/-- The protocol versions. -/
inductive Version where
  | h1
  | h2
  | h3
  deriving Repr, DecidableEq

/-- **A request that is passed to `zhs_dispatch_`**, with the limits of its server. -/
inductive Handed : ZhsLimits → Version → HttpReq → Prop
  /-- In a run of one HTTP/1.1 connection. -/
  | h1 (g : H1Cfg) (evs : List H1Event) {d : H1Dispatch} :
      d ∈ (H1Run.run g {} evs).c.log → Handed g.lim .h1 d.req
  /-- In a run of one HTTP/2 connection. -/
  | h2 (g : H2Cfg) {c : Zh2Conn} {p : Nat × HttpReq} :
      Reachable g c → p ∈ dispatches c.hist → Handed g.lim .h2 p.2
  /-- In the life of one HTTP/3 stream. -/
  | h3 (g : H3Cfg) (id : Nat) (isUni : Bool) (passes : List H3Pass) {req : HttpReq} :
      req ∈ (h3Run g (h3StreamNew id isUni) passes).log → Handed g.lim .h3 req

/-- The version's rule for the authority. -/
def Version.auth : Version → RawReq → Option Bytes
  | .h1 => h1Auth
  | .h2 => h2Auth
  | .h3 => h3Auth

theorem Version.fromReceived : ∀ v : Version, FromReceived v.auth
  | .h1 => fromReceived_h1Auth
  | .h2 => fromReceived_h2Auth
  | .h3 => fromReceived_h3Auth

section

variable {lim : ZhsLimits} {v : Version} {req : HttpReq}

/-- Every version assembles the request object from the octets received. -/
theorem Handed.assembled (h : Handed lim v req) : Assembled lim v.auth req := by
  cases h with
  | h1 g evs hd => exact ((h1Run_requests g evs).log _ hd).assembled
  | h2 g hc hp => exact (hc.run.requests.head hp).assembled
  | h3 g id isUni passes hreq => exact ((h3Run_requests g id isUni passes).log _ hreq).assembled

theorem Handed.body (h : Handed lim v req) : req.body.length ≤ lim.maxBodyBytes := by
  cases h with
  | h1 g evs hd => exact ((h1Run_requests g evs).log _ hd).body
  | h2 g hc hp => exact hc.run.table.1.bodies _ hp
  | h3 g id isUni passes hreq => exact ((h3Run_requests g id isUni passes).log _ hreq).body

/-! ### Well-formed requests

HTTP/1.1 rejects a bad octet while it parses. The other two versions check the octets where a field
is emitted, and each leaves one of the checks out. -/

/-- The checks of `http_util.c` that the version does not make itself hold of the octets
received. -/
def RawReq.RestOk : Version → RawReq → Prop
  | .h1, _ => True
  | .h2, r => r.Clean
  | .h3, r => zhsTokenOk r.method = true

theorem Handed.clean_iff (h : Handed lim v req) : req.raw.Clean ↔ req.raw.RestOk v := by
  cases h with
  | h1 g evs hd => exact ⟨fun _ => trivial, fun _ => ((h1Run_requests g evs).log _ hd).clean⟩
  | h2 g hc hp => exact Iff.rfl
  | h3 g id isUni passes hreq =>
    have hhead := (h3Run_requests g id isUni passes).log _ hreq
    refine ⟨fun hc => hc.method, fun hm => ⟨hm, hhead.values, fun a ha => ?_⟩⟩
    unfold RawReq.received at ha
    cases hauth : req.raw.authority with
    | some x =>
      rw [hauth] at ha
      cases ha
      exact hhead.authority a hauth
    | none =>
      rw [hauth, Option.none_or] at ha
      obtain ⟨f, hf, rfl⟩ := Option.map_eq_some_iff.mp ha
      exact hhead.values f (List.mem_of_find?_eq_some hf)

/-- A request without an authority received none, or one that is clean. -/
theorem Handed.noAuthority (h : Handed lim v req)
    (hval : ∀ f ∈ req.raw.fields, zhsValueOk f.2 = true) (hnone : req.authority = none) (a : Bytes) (ha : req.raw.received = some a) :
    zhsValueOk a = true := by
  have hauth : v.auth req.raw = none := by rw [← h.assembled.authority, hnone]
  have hnoAuth : req.raw.authority = none := by
    cases v with
    | h1 => exact Option.map_eq_none_iff.mp hauth
    | h2 =>
      cases hx : req.raw.authority with
      | none => rfl
      | some x =>
        simp only [Version.auth, h2Auth, hx] at hauth
        cases hauth
    | h3 => exact Option.map_eq_none_iff.mp hauth
  rw [RawReq.received, hnoAuth, Option.none_or] at ha
  obtain ⟨f, hf, rfl⟩ := Option.map_eq_some_iff.mp ha
  exact hval f (List.mem_of_find?_eq_some hf)

/-- **A request handed over is well-formed if and only if the checks its version leaves out
hold of the octets received**; HTTP/1.1 leaves out none. -/
theorem handed_wellFormed_iff (h : Handed lim v req) :
    WellFormed lim req ↔ req.raw.RestOk v := by
  rw [← h.clean_iff]
  constructor
  · intro hw
    refine hw.clean fun hnone a ha => h.noAuthority (fun f hf => ?_) hnone a ha
    refine hw.values ⟨lower f.1, f.2⟩ ?_
    rw [hw.headers]
    exact List.mem_map.mpr ⟨f, hf, rfl⟩
  · exact fun hc => h.assembled.wellFormed v.fromReceived h.body hc

end

/-- The requests a silent HTTP/2 server passes on behind the frames of a client. -/
def silentRequests (frames : List Frame) : List HttpReq :=
  (dispatches (silentFeed frames).hist).map (·.2)

theorem handed_silentRequests {frames : List Frame} {req : HttpReq}
    (h : req ∈ silentRequests frames) : Handed H2Cfg.silent.lim .h2 req := by
  obtain ⟨p, hp, rfl⟩ := List.mem_map.mp h
  exact .h2 .silent (reachable_silentFeed frames) hp

/-- A literal field line without indexing. -/
def literalLine (name value : String) : Bytes :=
  0 :: UInt8.ofNat name.length :: (str name ++ UInt8.ofNat value.length :: str value)

/-- A GET request on stream 1 with further field lines. -/
def getWith (lines : Bytes) : Frame :=
  { type := ZH2_FT_HEADERS
    flags := ZH2_FL_END_HEADERS + ZH2_FL_END_STREAM
    sid := 1
    payload := [0x82, 0x86, 0x84] ++ lines }

/-- What the parser makes of a GET with one plain field. -/
theorem handed_wellFormed_plain :
    ∃ req ∈ silentRequests [getWith (literalLine "x" "y")], WellFormed H2Cfg.silent.lim req := by
  have hone : ∃ req ∈ silentRequests [getWith (literalLine "x" "y")],
      zhsTokenOk req.raw.method = true ∧ req.raw.received = none ∧
        ∀ f ∈ req.raw.fields, zhsValueOk f.2 = true := by decide +kernel
  obtain ⟨req, hreq, hmethod, hrec, hvals⟩ := hone
  refine ⟨req, hreq, (handed_wellFormed_iff (handed_silentRequests hreq)).mpr ?_⟩
  exact ⟨hmethod, hvals, fun a ha => by rw [hrec] at ha; cases ha⟩

/-- A value with CR and LF in it goes through to the handler. -/
theorem handed_malformed_crlf :
    ∃ req ∈ silentRequests [getWith (literalLine "x" "a\r\nb: c")],
      Handed H2Cfg.silent.lim .h2 req ∧ ¬WellFormed H2Cfg.silent.lim req := by
  have hone : ∃ req ∈ silentRequests [getWith (literalLine "x" "a\r\nb: c")],
      ∃ h ∈ req.headers.v, zhsValueOk h.value = false := by decide +kernel
  obtain ⟨req, hreq, h, hh, hbad⟩ := hone
  refine ⟨req, hreq, handed_silentRequests hreq, fun hw => ?_⟩
  rw [hw.values h hh] at hbad
  cases hbad

end Zcio
