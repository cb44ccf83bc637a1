import Zcio.H2.Body
import Zcio.H3.Body
import Zcio.Server.Versions

/-!
# Zcio.Server.Bodies

A declared content length against the octets of the body. HTTP/1.1 frames the body by its
Content-Length field, so the two agree. HTTP/2 and HTTP/3 frame it by DATA frames
(`Carried`) and take a content-length field as they take any other.
-/

namespace Zcio

/-- **A request that is passed to `zhs_dispatch_`, with what its DATA frames carried.**
HTTP/1.1 has no DATA frames. -/
inductive Carried : ZhsLimits → Version → HttpReq → Bytes → Prop
  | h1 (g : H1Cfg) (evs : List H1Event) {d : H1Dispatch} :
      d ∈ (H1Run.run g {} evs).c.log → Carried g.lim .h1 d.req []
  /-- On the request's stream, up to the dispatch. -/
  | h2 (g : H2Cfg) {c : Zh2Conn} {p : HttpReq × Bytes} :
      Reachable g c → p ∈ carried c.hist → Carried g.lim .h2 p.1 p.2
  /-- On the request stream, up to its end. -/
  | h3 (g : H3Cfg) (id : Nat) (isUni : Bool) (passes : List H3Pass) {req : HttpReq} :
      req ∈ (h3Run g (h3StreamNew id isUni) passes).log →
      Carried g.lim .h3 req (h3DataOf (h3Received g (h3StreamNew id isUni) passes))

/-- The content lengths declared in the fields received, as the C strings they become. -/
def declaredIn (fields : List (Bytes × Bytes)) : List Bytes :=
  (fields.filter fun f => lower f.1 == str "content-length").map fun f => cstr f.2

theorem declared_storedFields (fields : List (Bytes × Bytes)) :
    declared (storedFields fields) = declaredIn fields := by
  unfold declared storedFields declaredIn
  rw [List.filter_map, List.map_map]
  rfl

variable {lim : ZhsLimits} {v : Version} {req : HttpReq}

/-- Every request that is handed over comes with what was carried. -/
theorem handed_iff_carried : Handed lim v req ↔ ∃ data, Carried lim v req data := by
  constructor
  · intro h
    cases h with
    | h1 g evs hd => exact ⟨_, .h1 g evs hd⟩
    | @h2 g c p hc hp =>
      have hmem : p.2 ∈ (carried c.hist).map (·.1) := by
        rw [carried_dispatches]
        exact List.mem_map_of_mem hp
      obtain ⟨q, hq, heq⟩ := List.mem_map.mp hmem
      exact ⟨q.2, heq ▸ .h2 g hc hq⟩
    | h3 g id isUni passes hreq => exact ⟨_, .h3 g id isUni passes hreq⟩
  · rintro ⟨data, h⟩
    cases h with
    | h1 g evs hd => exact .h1 g evs hd
    | @h2 g c p hc hp =>
      have hmem : p.1 ∈ (dispatches c.hist).map (·.2) := by
        rw [← carried_dispatches]
        exact List.mem_map_of_mem hp
      obtain ⟨q, hq, heq⟩ := List.mem_map.mp hmem
      exact heq ▸ .h2 g hc hq
    | h3 g id isUni passes hreq => exact .h3 g id isUni passes hreq

/-- The body is what the DATA frames carried. -/
theorem Carried.body {data : Bytes} (h : Carried lim v req data) (hv : v ≠ .h1) :
    req.body = data := by
  cases h with
  | h1 => exact absurd rfl hv
  | h2 g hc hp => exact hc.run.bodies.log _ hp
  | h3 g id isUni passes hreq => exact h3Run_bodies g id isUni passes _ hreq

/-- **A declared length is that of the body, one plain number, if and only if the request
came over HTTP/1.1 or the client declared what its DATA frames carried.** -/
theorem handed_lengthHonest_iff :
    (Handed lim v req ↔ ∃ data, Carried lim v req data) ∧
      ∀ data, Carried lim v req data →
        (LengthHonest req ↔ v = .h1 ∨ Honest (declaredIn req.raw.fields) data.length) := by
  refine ⟨handed_iff_carried, fun data h => ?_⟩
  have hassembled := (handed_iff_carried.mpr ⟨data, h⟩).assembled
  unfold LengthHonest
  by_cases hv : v = .h1
  · refine ⟨fun _ => .inl hv, fun _ => ?_⟩
    cases h with
    | h1 g evs hd => exact ((h1Run_requests g evs).log _ hd).length
    | h2 => cases hv
    | h3 => cases hv
  · rw [hassembled.headers, declared_storedFields, h.body hv]
    exact ⟨.inr, fun hor => hor.resolve_left hv⟩

/-- A GET that declares the body it does not have. -/
theorem handed_lengthHonest_empty :
    ∃ req ∈ silentRequests [getWith (literalLine "content-length" "0")], LengthHonest req := by
  have hone : ∃ p ∈ carried (silentFeed [getWith (literalLine "content-length" "0")]).hist,
      p.1 ∈ silentRequests [getWith (literalLine "content-length" "0")] ∧
        declaredIn p.1.raw.fields = [str "0"] ∧ p.2 = [] := by decide +kernel
  obtain ⟨p, hp, hmem, hdecl, hdata⟩ := hone
  refine ⟨p.1, hmem, ?_⟩
  have hiff := handed_lengthHonest_iff.2 p.2 (.h2 .silent (reachable_silentFeed _) hp)
  rw [hdecl, hdata] at hiff
  refine hiff.mpr (.inr (.inr ⟨str "0", rfl, ?_⟩))
  decide

/-- Five octets are declared and none follow. -/
theorem handed_lengthDishonest :
    ∃ req ∈ silentRequests [getWith (literalLine "content-length" "5")],
      Handed H2Cfg.silent.lim .h2 req ∧ ¬LengthHonest req := by
  have hone : ∃ req ∈ silentRequests [getWith (literalLine "content-length" "5")],
      declared req.headers.v = [str "5"] ∧ req.body = [] := by decide +kernel
  obtain ⟨req, hreq, hdecl, hbody⟩ := hone
  refine ⟨req, hreq, handed_silentRequests hreq, fun hh => ?_⟩
  unfold LengthHonest at hh
  rw [hdecl, hbody] at hh
  rcases hh with hnil | ⟨x, hx, -, -, hval⟩
  · cases hnil
  · cases hx
    exact absurd hval (by decide)

end Zcio
