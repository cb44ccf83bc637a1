import Zcio.H1.Segment
import Zcio.H1.Move

/-!
# Zcio.H1.Unread

What `zh1_feed_` leaves in the input buffer: the end of what was there, and, as long as the
parser waits for more, no more of it than one line or one chunk-size line may take
(`zh1Feed_unread`).
-/

namespace Zcio

variable (g : H1Cfg)

/-- What the parser may leave unread while it waits for more. -/
def h1UnreadMax : Nat := max g.lim.maxHeaderBytes H1_CHUNK_LINE_MAX

/-- The stage left the end of its input, and waits only on a short one. -/
def LeavesEnd (inp : Bytes) (st : Stage) : Prop :=
  st.inp <:+ inp ∧ (st.code = .more → st.inp.length ≤ h1UnreadMax g)

variable {g}

/-- A stage that reads a line under the header budget. -/
theorem leavesEnd_budgeted {c : Zh1Conn} {inp : Bytes} {act : Zh1Conn → Bytes → Bytes → Stage}
    (huni : ∀ c text rest y, act c text y = { act c text rest with inp := y })
    (hcode : ∀ c text rest, (act c text rest).code ≠ .more) :
    LeavesEnd g inp (h1Budgeted g c inp id act) := by
  obtain ⟨-, hlen, hb⟩ | ⟨status, hb⟩ | ⟨text, rest, rfl, -, -, hb⟩ :=
    h1Budgeted_cases g c inp id act
  · rw [hb]
    exact ⟨List.suffix_rfl, fun _ => hlen.trans (Nat.le_max_left _ _)⟩
  · rw [hb]
    exact ⟨List.suffix_rfl, nofun⟩
  · rw [hb]
    have hinp : ∀ c' text, (act c' text rest).inp = rest := fun c' text =>
      congrArg Stage.inp (huni c' text rest rest)
    refine ⟨?_, fun hmore => absurd hmore (hcode _ _ _)⟩
    rw [hinp]
    exact List.suffix_append _ _

theorem leavesEnd_drop {inp : Bytes} {st : Stage} {n : Nat} (h : st.inp = inp.drop n)
    (hmore : st.code = .more → inp.length ≤ n) : LeavesEnd g inp st := by
  refine ⟨h ▸ List.drop_suffix n inp, fun hm => ?_⟩
  have := hmore hm
  rw [h, List.length_drop]
  omega

theorem leavesEnd_chunkSize {c : Zh1Conn} (hst : c.state = .chunkSize) (inp : Bytes) :
    LeavesEnd g inp (chunkStage (h1ChunkRound g (c, inp))) := by
  unfold h1ChunkRound
  simp only [hst]
  split
  · split
    · exact ⟨List.suffix_rfl, nofun⟩
    · rename_i hlen
      exact ⟨List.suffix_rfl, fun _ => (Nat.le_of_not_lt hlen).trans (Nat.le_max_right _ _)⟩
  · exact ⟨List.suffix_rfl, nofun⟩
  · rename_i text consumed _
    have hinp := congrArg Stage.inp
      (h1ChunkSizeText_uniform g c text (inp.drop consumed) (inp.drop consumed))
    refine ⟨?_, fun hmore => absurd hmore (h1ChunkSizeText_code g c text _)⟩
    rw [show (chunkStage (h1ChunkSizeText g c text (inp.drop consumed))).inp =
      inp.drop consumed from hinp]
    exact List.drop_suffix _ _

theorem leavesEnd_chunkCrlf {c : Zh1Conn} (hst : c.state = .chunkCrlf) (inp : Bytes) :
    LeavesEnd g inp (chunkStage (h1ChunkRound g (c, inp))) := by
  unfold h1ChunkRound
  simp only [hst]
  split
  · rename_i p0 p1 rest
    split
    · exact ⟨List.suffix_rfl, nofun⟩
    · exact ⟨⟨[p0, p1], rfl⟩, nofun⟩
  · rename_i hshort
    refine ⟨List.suffix_rfl, fun _ => ?_⟩
    have hlen : inp.length ≤ 1 := by
      match inp, hshort with
      | [], _ => exact Nat.zero_le 1
      | [_], _ => exact Nat.le_refl 1
      | p0 :: p1 :: rest, hshort => exact absurd rfl (hshort p0 p1 rest)
    exact hlen.trans ((show 1 ≤ H1_CHUNK_LINE_MAX by decide).trans (Nat.le_max_right _ _))

/-- **What one round leaves.** -/
theorem h1Round_leavesEnd (c : Zh1Conn) (inp : Bytes) : LeavesEnd g inp (h1Round g c inp) := by
  cases hst : c.state with
  | reqline =>
    simp only [h1Round, hst]
    exact leavesEnd_budgeted (h1ReqlineText_uniform g) (h1ReqlineText_code g)
  | headers =>
    simp only [h1Round, hst, h1HeaderRound]
    rw [h1Budgeted_map g (headStage g)]
    exact leavesEnd_budgeted (h1HeaderText_uniform g) (h1HeaderText_code g)
  | bodyCl =>
    simp only [h1Round, hst]
    by_cases h0 : c.clRemaining = 0
    · rw [h1BodyCl, if_pos h0]
      exact ⟨List.suffix_rfl, fun h => by cases h⟩
    · rw [h1BodyCl_eq h0]
      refine leavesEnd_drop rfl fun hmore => ?_
      by_contra hlt
      rw [if_pos (by omega)] at hmore
      cases hmore
  | chunkSize =>
    simp only [h1Round, hst]
    exact leavesEnd_chunkSize hst inp
  | chunkData =>
    simp only [h1Round, hst]
    by_cases h0 : c.chunkRemaining = 0
    · unfold h1ChunkRound
      simp only [hst]
      rw [if_neg (by omega)]
      exact ⟨List.suffix_rfl, fun h => by cases h⟩
    · rw [h1ChunkData_eq g hst h0]
      split
      · exact leavesEnd_drop rfl fun h => by cases h
      · exact leavesEnd_drop rfl fun _ => by omega
  | chunkCrlf =>
    simp only [h1Round, hst]
    exact leavesEnd_chunkCrlf hst inp
  | trailer =>
    simp only [h1Round, hst, h1ChunkRound]
    rw [h1Budgeted_map g chunkStage]
    exact leavesEnd_budgeted h1TrailerText_uniform h1TrailerText_code
  | dead =>
    simp only [h1Round, hst]
    exact ⟨List.suffix_rfl, fun h => by cases h⟩

/-- The parser has stopped for good: it answers no further request. -/
def Zh1Conn.Stopped (c : Zh1Conn) : Prop := c.state = .dead ∨ c.closeAfter = true

instance (c : Zh1Conn) : Decidable c.Stopped := inferInstanceAs (Decidable (_ ∨ _))

/-- **What a feed leaves**, and that it asks for the close only once it has stopped. -/
theorem feedLoop_unread (s : FeedSt) :
    (feedLoop g s).inp <:+ s.inp ∧
      ((feedLoop g s).rc.stops = false → (feedLoop g s).inp.length ≤ h1UnreadMax g) ∧
      ((feedLoop g s).rc = .close → (feedLoop g s).c.Stopped) := by
  refine feedLoop_induct g (P := fun s r => r.inp <:+ s.inp ∧
    (r.rc.stops = false → r.inp.length ≤ h1UnreadMax g) ∧ (r.rc = .close → r.c.Stopped)) ?_ ?_ s
  · intro s r h
    obtain ⟨hend, hmore⟩ := h1Round_leavesEnd (g := g) s.c s.inp
    have hinp := (feedNext_inr g h 0 []).1
    refine ⟨hinp ▸ hend, fun hstop => ?_, fun hclose => ?_⟩
    · have hcode := (feedNext_more g h hstop).1
      rw [hinp]
      exact hmore hcode
    · have hmove := h1Round_move g s.c s.inp
      unfold feedStep feedNext at h
      split at h
      · -- waiting is not closing
        cases h
        dsimp only at hclose
        split at hclose <;> cases hclose
      · cases h
      · rename_i hcode
        cases h
        rw [hcode] at hmove
        cases hmove with
        | close hdead _ => exact .inl hdead
      · dsimp only at h
        split at h
        · cases h
          cases hclose
        · split at h
          · rename_i hca
            cases h
            exact .inr hca
          · cases h
  · intro s s' r h ⟨hend, hrest⟩
    obtain ⟨q, hq, -⟩ := feedStep_reads g h
    exact ⟨hq ▸ hend.trans (List.suffix_append q s'.inp), hrest⟩

end Zcio
