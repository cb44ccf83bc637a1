import Zcio.H1.Unread

/-!
# Zcio.H1.Receiving

The flag behind `zh1_receiving_`: set by the first octet of a request, cleared when the
request is over. `lastReset` observes `h1_reset_next` inside a feed; `zh1Feed_receiving` says
what the flag has to do with it.
-/

namespace Zcio

variable (g : H1Cfg)

/-! ### One round

A round begins a request, goes on with one or ends one; the flag follows. -/

theorem receiving_h1Redirect (c : Zh1Conn) : (h1Redirect g c).receiving = c.receiving := by
  unfold h1Redirect
  dsimp only
  split <;> rfl

theorem receiving_h1Framing {c c' : Zh1Conn} (h : h1Framing g c = .ok c') :
    c'.receiving = c.receiving := by
  unfold h1Framing at h
  dsimp only at h
  split at h
  · cases h
  · split at h
    · cases h
    · split at h
      · split at h
        · cases h
        · cases h; rfl
      · split at h
        · split at h
          · cases h
          · cases h; rfl
        · cases h; rfl

theorem receiving_h1Authority (c : Zh1Conn) : (h1Authority c).receiving = c.receiving := by
  unfold h1Authority
  split <;> rfl

/-- A stage that reads a line under the header budget leaves the flag to what it does with
the line. -/
theorem receiving_budgeted {c : Zh1Conn} {inp : Bytes} {act : Zh1Conn → Bytes → Bytes → Stage}
    (hact : ∀ c text rest, (act c text rest).c.receiving = c.receiving) :
    (h1Budgeted g c inp id act).c.receiving = c.receiving := by
  obtain ⟨-, -, hb⟩ | ⟨status, hb⟩ | ⟨text, rest, -, -, -, hb⟩ :=
    h1Budgeted_cases g c inp id act
  · rw [hb]; rfl
  · rw [hb]; rfl
  · rw [hb, hact]

theorem receiving_h1ReqlineText (c : Zh1Conn) (text rest : Bytes) :
    (h1ReqlineText g c text rest).c.receiving = c.receiving := by
  unfold h1ReqlineText
  dsimp only
  split
  · rfl
  · split
    · rfl
    · split
      · rfl
      · split
        · rfl
        · split
          · rfl
          · split <;> rfl

theorem receiving_h1HeadDone (c : Zh1Conn) (inp : Bytes) :
    (h1HeadDone g c inp).c.receiving = c.receiving := by
  unfold h1HeadDone
  dsimp only
  split
  · rfl
  · split
    · rfl
    · split
      · exact (receiving_h1Redirect g _).trans (receiving_h1Authority c)
      · split
        · exact receiving_h1Authority c
        · rename_i hf
          exact (receiving_h1Framing g hf).trans (receiving_h1Authority c)

theorem receiving_chunked (c : Zh1Conn) (inp : Bytes) :
    (chunkStage (h1ChunkRound g (c, inp))).c.receiving = c.receiving := by
  unfold h1ChunkRound
  dsimp only
  split
  · split
    · split <;> rfl
    · rfl
    · rename_i text consumed _
      obtain ⟨_, ht⟩ | ⟨_, _, -, -, -, ⟨-, ht⟩ | ⟨-, -, ht⟩⟩ :=
        h1ChunkSizeText_cases g c text (inp.drop consumed)
      all_goals rw [ht]; rfl
  · split
    · split
      · rfl
      · split <;> rfl
    · rfl
  · split
    · split <;> rfl
    · rfl
  · rw [h1Budgeted_map g chunkStage]
    refine receiving_budgeted g fun c text rest => ?_
    unfold h1TrailerText
    split <;> rfl

/-- **The flag over a round**: only an octet of a request line sets it. -/
theorem receiving_h1Round (c : Zh1Conn) (inp : Bytes) :
    (h1Round g c inp).c.receiving =
      (c.receiving || (c.state == .reqline && !inp.isEmpty)) := by
  cases hst : c.state with
  | reqline =>
    simp only [h1Round, hst, h1Reqline]
    rw [receiving_budgeted g (receiving_h1ReqlineText g)]
    cases inp with
    | nil => simp
    | cons b bs => simp
  | headers =>
    simp only [h1Round, hst, h1HeaderRound]
    rw [h1Budgeted_map g (headStage g)]
    refine (@receiving_budgeted g _ _ (fun c text rest => headStage g (h1HeaderText g c text rest))
      ?_).trans ?_
    · intro c text rest
      obtain ⟨-, ht⟩ | ⟨_, ht⟩ | ⟨_, _, _, _, _, _, _, _, _, ht⟩ := h1HeaderText_cases g c text rest
      · rw [ht]
        exact receiving_h1HeadDone g c rest
      · rw [ht]; rfl
      · rw [ht]; rfl
    · simp
  | bodyCl =>
    simp only [h1Round, hst]
    unfold h1BodyCl
    split
    · simp
    · split <;> simp [h1TakeBody]
  | dead => simp [h1Round, hst]
  | _ =>
    simp only [h1Round, hst]
    rw [receiving_chunked]
    simp

theorem receiving_h1Finish (c : Zh1Conn) : (h1Finish g c).2.receiving = c.receiving := by
  obtain ⟨out, ca, responded, n, -, heq⟩ := h1Finish_eq g c
  rw [heq]

/-! ### The resets of a feed

Behind a request that ends within a feed the octets of the next one begin. -/

/-- A round of `zh1_feed_` that notes what is unread whenever `h1_reset_next` is called. -/
def resetRound (s : FeedSt × Option Bytes) :
    (FeedSt × Option Bytes) ⊕ (FeedRes × Option Bytes) :=
  match feedStep g s.1 with
  | .inr r => .inr (r, s.2)
  | .inl s' =>
    .inl (s', if (h1Round g s.1.c s.1.inp).code = .complete then some s'.inp else s.2)

theorem resetRound_decreases : Lib.Decreases (resetRound g) fun s => roundMeasure s.1 := by
  intro s s' h
  unfold resetRound at h
  split at h
  · cases h
  · rename_i hs
    cases h
    exact feedStep_measure g hs

/-- What is unread at the last `h1_reset_next` of a feed; `none` when it completes no request. -/
def lastReset (c : Zh1Conn) (inp : Bytes) : Option Bytes :=
  (Lib.loop (resetRound g) _ (resetRound_decreases g) ({ c, inp }, none)).2

theorem resetLoop_fst (s : FeedSt) (acc : Option Bytes) :
    (Lib.loop (resetRound g) _ (resetRound_decreases g) (s, acc)).1 = feedLoop g s := by
  refine Lib.loop_induct (resetRound_decreases g) (P := fun s r => r.1 = feedLoop g s.1)
    ?_ ?_ (s, acc)
  · intro s r h
    unfold resetRound at h
    split at h
    · rename_i hs
      cases h
      exact (feedLoop_of_inr g hs).symm
    · cases h
  · intro s s' r h ih
    unfold resetRound at h
    split at h
    · cases h
    · rename_i hs
      cases h
      rw [ih, feedLoop_of_inl g hs]

/-- The flag inside a feed that began with `c` and `inp`. -/
structure ResetInv (c : Zh1Conn) (inp : Bytes) (s : FeedSt × Option Bytes) : Prop where
  unread : s.1.inp <:+ inp
  between : s.1.c.receiving = false → s.1.c.state = .reqline ∧
    (s.2 = some s.1.inp ∨ s.2 = none ∧ c.receiving = false ∧ s.1.inp = inp)
  within : s.1.c.receiving = true →
    (s.2 = none ∧ (c.receiving = true ∨ inp ≠ [])) ∨ ∃ rest, s.2 = some rest ∧ rest ≠ [] ∧ rest <:+ inp

/-- **The flag over a feed.** When it is not set, nothing is unread; when it is, the request
being received was begun before, or in this feed and behind the last reset. -/
structure Received (c : Zh1Conn) (inp : Bytes) (r : FeedRes) (reset : Option Bytes) : Prop where
  between : r.c.receiving = false → r.c.state = .reqline ∧ r.inp = [] ∧
    (reset = some [] ∨ reset = none ∧ c.receiving = false ∧ inp = [])
  within : r.c.receiving = true →
    (reset = none ∧ (c.receiving = true ∨ inp ≠ [])) ∨
      ∃ rest, reset = some rest ∧ rest ≠ [] ∧ rest <:+ inp

/-- A round outside the request line keeps the flag set. -/
theorem ResetInv.held {c : Zh1Conn} {inp : Bytes} {s : FeedSt × Option Bytes}
    (h : ResetInv c inp s) (hne : s.1.c.state ≠ .reqline) : s.1.c.receiving = true := by
  cases hr : s.1.c.receiving with
  | true => rfl
  | false => exact absurd (h.between hr).1 hne

/-- The flag is set behind a round: the request was begun before, or the round has read its
first octet. -/
theorem ResetInv.round {c : Zh1Conn} {inp : Bytes} {s : FeedSt × Option Bytes}
    (h : ResetInv c inp s) (hset : (h1Round g s.1.c s.1.inp).c.receiving = true) :
    (s.2 = none ∧ (c.receiving = true ∨ inp ≠ [])) ∨
      ∃ rest, s.2 = some rest ∧ rest ≠ [] ∧ rest <:+ inp := by
  cases hr : s.1.c.receiving with
  | true => exact h.within hr
  | false =>
    obtain ⟨hst, hacc⟩ := h.between hr
    rw [receiving_h1Round, hr, hst] at hset
    have hne : s.1.inp ≠ [] := by
      intro hnil
      rw [hnil] at hset
      cases hset
    rcases hacc with hsome | ⟨hnone, -, hinp⟩
    · exact .inr ⟨_, hsome, hne, h.unread⟩
    · exact .inl ⟨hnone, .inr (hinp ▸ hne)⟩

/-- The flag is clear behind a round: there was nothing to read. -/
theorem ResetInv.quiet {c : Zh1Conn} {inp : Bytes} {s : FeedSt × Option Bytes}
    (h : ResetInv c inp s) (hclear : (h1Round g s.1.c s.1.inp).c.receiving = false) :
    s.1.c.state = .reqline ∧ s.1.inp = [] ∧
      (s.2 = some [] ∨ s.2 = none ∧ c.receiving = false ∧ inp = []) := by
  rw [receiving_h1Round, Bool.or_eq_false_iff] at hclear
  obtain ⟨hst, hacc⟩ := h.between hclear.1
  have hnil : s.1.inp = [] := by
    have := hclear.2
    rw [hst] at this
    simpa using this
  refine ⟨hst, hnil, ?_⟩
  rcases hacc with hsome | ⟨hnone, hr, hinp⟩
  · exact .inl (hnil ▸ hsome)
  · exact .inr ⟨hnone, hr, hinp ▸ hnil⟩

theorem h1Round_nil {c : Zh1Conn} (hst : c.state = .reqline) : h1Round g c [] = ⟨.more, c, []⟩ := by
  simp only [h1Round, hst, h1Reqline]
  rfl

theorem zh1Feed_receiving {c : Zh1Conn} (hc : c.receiving = false → c.state = .reqline)
    (inp : Bytes) : Received c inp (zh1Feed g c inp) (lastReset g c inp) := by
  have hfst : zh1Feed g c inp =
      (Lib.loop (resetRound g) _ (resetRound_decreases g) ({ c, inp }, none)).1 :=
    (resetLoop_fst g { c, inp } none).symm
  rw [hfst]
  refine Lib.loop_inv (resetRound_decreases g) (I := ResetInv c inp)
    (Q := fun r => Received c inp r.1 r.2) ?_ ?_ (s := ({ c, inp }, none)) ?_
  · rintro ⟨s, acc⟩ s' hi h
    obtain ⟨hend, -⟩ := h1Round_leavesEnd (g := g) s.c s.inp
    have hunread : (h1Round g s.c s.inp).inp <:+ inp := hend.trans hi.unread
    unfold resetRound at h
    split at h
    · cases h
    · rename_i s₁ hs
      cases h
      unfold feedStep feedNext at hs
      split at hs
      · cases hs
      · -- within a request, or at its first octets
        rename_i hcode
        cases hs
        dsimp only at hcode
        rw [if_neg (by rw [hcode]; simp)]
        refine ⟨hunread, fun hr => ?_, fun hr => hi.round g hr⟩
        obtain ⟨hst, hnil, -⟩ := hi.quiet g hr
        dsimp only at hst hnil
        rw [hnil, h1Round_nil g hst] at hcode
        cases hcode
      · cases hs
      · -- a request is over
        rename_i hcode
        dsimp only at hs hcode
        split at hs
        · cases hs
        · split at hs
          · cases hs
          · cases hs
            rw [if_pos hcode]
            exact ⟨hunread, fun _ => ⟨rfl, .inl rfl⟩, nofun⟩
  · rintro ⟨s, acc⟩ r hi h
    unfold resetRound at h
    split at h
    · rename_i r₁ hs
      cases h
      dsimp only at hs
      have hround : ∀ r : FeedRes, r.c.receiving = (h1Round g s.c s.inp).c.receiving →
          (s.inp = [] → s.c.state = .reqline → r.c.state = .reqline ∧ r.inp = []) →
          Received c inp r acc := by
        intro r hr hstay
        refine ⟨fun hclear => ?_, fun hset => hi.round g (hr ▸ hset)⟩
        obtain ⟨hst, hnil, hacc⟩ := hi.quiet g (hr ▸ hclear)
        exact ⟨(hstay hnil hst).1, (hstay hnil hst).2, hacc⟩
      have hempty : s.inp = [] → s.c.state = .reqline →
          h1Round g s.c s.inp = ⟨.more, s.c, []⟩ := by
        intro hnil hst
        rw [hnil, h1Round_nil g hst]
      unfold feedStep feedNext at hs
      split at hs
      · cases hs
        refine hround _ rfl fun hnil hst => ?_
        rw [hempty hnil hst]
        exact ⟨hst, rfl⟩
      · cases hs
      · rename_i hcode
        cases hs
        refine hround _ rfl fun hnil hst => ?_
        rw [hempty hnil hst] at hcode
        cases hcode
      · rename_i hcode
        have hne : s.inp = [] → s.c.state = .reqline → False := by
          intro hnil hst
          rw [hempty hnil hst] at hcode
          cases hcode
        dsimp only at hs
        split at hs
        · cases hs
          exact hround _ (receiving_h1Finish g _) fun hnil hst => (hne hnil hst).elim
        · split at hs
          · cases hs
            exact hround _ (receiving_h1Finish g _) fun hnil hst => (hne hnil hst).elim
          · cases hs
    · cases h
  · exact ⟨List.suffix_rfl, fun hr => ⟨hc hr, .inr ⟨rfl, hr, rfl⟩⟩, fun hr => .inl ⟨rfl, .inl hr⟩⟩

end Zcio
