import Mathlib.Data.List.Induction
import Zcio.H2.StreamTable

/-!
# Zcio.H2.Segment

An HTTP/2 connection does not depend on how its octets were cut into reads. A frame is read
when all of it is there, or refused on octets that are there, so that a stop of the frame
loop is taken up by the next read where it was left (`zh2Frames_append`). What a read
counts for itself are the SETTINGS and PING frames; on a stream with few of them the counts
decide nothing (`zh2Frames_counts`).
-/

namespace Zcio

/-! ### The frames of a stream

The frames of a list of octets, and how many of them ask for an answer. -/

/-- The frames that the octets of a client hold whole, one behind the other. -/
def framesOf (s : Bytes) : List Frame :=
  if s.length < ZH2_FRAME_HDR then []
  else if s.length < ZH2_FRAME_HDR + rd (s.take 3) then []
  else frameOf s :: framesOf (s.drop (ZH2_FRAME_HDR + rd (s.take 3)))
termination_by s.length
decreasing_by
  rw [List.length_drop]
  simp only [ZH2_FRAME_HDR] at *
  omega

/-- A frame of that type without the ACK flag. -/
def Frame.asks (type : UInt8) (f : Frame) : Bool := f.type == type && !hasFlag f.flags ZH2_FL_ACK

/-- The number of such frames. -/
def asksIn (type : UInt8) (s : Bytes) : Nat := (framesOf s).countP (Frame.asks type)

/-- The length of the header and the payload do not depend on what follows the frame. -/
theorem take_append_of_long {s : Bytes} (h : ¬s.length < ZH2_FRAME_HDR) (ext : Bytes) :
    (s ++ ext).take 3 = s.take 3 :=
  List.take_append_of_le_length (by simp only [ZH2_FRAME_HDR] at h; omega)

theorem frameOf_append {s : Bytes} (h : ¬s.length < ZH2_FRAME_HDR + rd (s.take 3)) (ext : Bytes) :
    frameOf (s ++ ext) = frameOf s := by
  have hlong : ¬s.length < ZH2_FRAME_HDR := by omega
  have h9 : 9 ≤ s.length := Nat.not_lt.mp hlong
  unfold frameOf
  rw [take_append_of_long hlong, List.drop_append_of_le_length (by omega),
    List.take_append_of_le_length (by rw [List.length_drop]; omega),
    List.drop_append_of_le_length (by simp only [ZH2_FRAME_HDR]; omega),
    List.take_append_of_le_length (by rw [List.length_drop]; omega)]
  simp only [List.getD_eq_getElem?_getD]
  rw [List.getElem?_append_left (by omega), List.getElem?_append_left (by omega)]

theorem framesOf_cons {s : Bytes} (h : ¬s.length < ZH2_FRAME_HDR + rd (s.take 3)) :
    framesOf s = frameOf s :: framesOf (s.drop (ZH2_FRAME_HDR + rd (s.take 3))) := by
  have hlong : ¬s.length < ZH2_FRAME_HDR := by omega
  rw [framesOf, if_neg hlong, if_neg h]

/-- A frame takes nine octets at least. -/
theorem length_framesOf_le (s : Bytes) : ZH2_FRAME_HDR * (framesOf s).length ≤ s.length := by
  fun_induction framesOf s with
  | case1 => exact Nat.zero_le _
  | case2 => exact Nat.zero_le _
  | case3 s hlong hwhole ih =>
    rw [List.length_drop] at ih
    rw [List.length_cons, Nat.mul_add]
    omega

/-- More octets only add frames. -/
theorem asksIn_append (type : UInt8) (s ext : Bytes) : asksIn type s ≤ asksIn type (s ++ ext) := by
  fun_induction framesOf s with
  | case1 s hlong =>
    rw [asksIn, framesOf, if_pos hlong]
    exact Nat.zero_le _
  | case2 s hlong hwhole =>
    rw [asksIn, framesOf, if_neg hlong, if_pos hwhole]
    exact Nat.zero_le _
  | case3 s hlong hwhole ih =>
    have hwhole' : ¬(s ++ ext).length < ZH2_FRAME_HDR + rd ((s ++ ext).take 3) := by
      rw [take_append_of_long hlong, List.length_append]
      omega
    unfold asksIn at ih ⊢
    rw [framesOf_cons hwhole, framesOf_cons hwhole', frameOf_append hwhole,
      take_append_of_long hlong, List.drop_append_of_le_length (by omega), List.countP_cons,
      List.countP_cons]
    omega

variable {g : H2Cfg}

/-! ### One round

A round of the feed loop on a whole frame does not see what is behind it. -/

/-- The round of the frame loop up to the switch over the frame type: the connection, the
frame and the octets behind it, or the end of the loop. -/
def nextFrame (c : Zh2Conn) (inp : Bytes) : (Zh2Conn × Frame × Bytes) ⊕ (Zh2Conn × Bytes) :=
  if c.gotError then .inr (c, inp)
  else if inp.length < ZH2_FRAME_HDR then .inr (c, inp)
  else if rd (inp.take 3) > ZH2_OUR_MAX_FRAME then
    .inr (connError c ZH2_E_FRAME_SIZE_ERROR, inp)
  else if inp.length < ZH2_FRAME_HDR + rd (inp.take 3) then .inr (c, inp)
  else
    let f := frameOf inp
    let c := c.log (.recv f)
    if c.needSettings ∧ f.type ≠ ZH2_FT_SETTINGS then
      .inr (connError c ZH2_E_PROTOCOL_ERROR, inp)
    else
      let c := { c with needSettings := false }
      if c.hdrActive ∧ (f.type ≠ ZH2_FT_CONTINUATION ∨ f.sid ≠ c.hdrId) then
        .inr (connError c ZH2_E_PROTOCOL_ERROR, inp)
      else if !c.hdrActive ∧ f.type = ZH2_FT_CONTINUATION then
        .inr (connError c ZH2_E_PROTOCOL_ERROR, inp)
      else .inl (c, f, inp.drop (ZH2_FRAME_HDR + rd (inp.take 3)))

theorem zh2FeedRound_eq (s : Feed2St) :
    zh2FeedRound g s = match nextFrame s.c s.inp with
      | .inr r => .inr r
      | .inl (c, f, rest) => .inl { onFrame g { s with c } f with inp := rest } := by
  unfold zh2FeedRound nextFrame
  split
  · rfl
  · split
    · rfl
    · dsimp only
      split
      · rfl
      · split
        · rfl
        · split
          · rfl
          · split
            · rfl
            · split
              · rfl
              · rfl

/-- A frame that is there is read the same with more octets behind it. -/
theorem nextFrame_inl {c c' : Zh2Conn} {f : Frame} {inp rest : Bytes}
    (h : nextFrame c inp = .inl (c', f, rest)) (ext : Bytes) :
    nextFrame c (inp ++ ext) = .inl (c', f, rest ++ ext) ∧
      framesOf inp = f :: framesOf rest := by
  unfold nextFrame at h ⊢
  split at h
  · cases h
  · split at h
    · cases h
    · split at h
      · cases h
      · split at h
        · cases h
        · rename_i herr hlong hmax hwhole
          have hlong' : ¬(inp ++ ext).length < ZH2_FRAME_HDR := by
            rw [List.length_append]; omega
          have hwhole' : ¬(inp ++ ext).length < ZH2_FRAME_HDR + rd (inp.take 3) := by
            rw [List.length_append]; omega
          rw [if_neg herr, if_neg hlong', take_append_of_long hlong, if_neg hmax, if_neg hwhole',
            frameOf_append hwhole, framesOf_cons hwhole]
          dsimp only at h ⊢
          split at h
          · cases h
          · rename_i hset
            rw [if_neg hset]
            split at h
            · cases h
            · rename_i hcont
              rw [if_neg hcont]
              split at h
              · cases h
              · rename_i hstray
                rw [if_neg hstray]
                cases h
                rw [List.drop_append_of_le_length (by omega)]
                exact ⟨rfl, rfl⟩

/-- The loop ends where it waits or is over already, or with an error that more octets do not
avert. -/
theorem nextFrame_inr {c c' : Zh2Conn} {inp rest : Bytes}
    (h : nextFrame c inp = .inr (c', rest)) :
    rest = inp ∧ (c' = c ∨ c'.gotError = true ∧
      ∀ ext, nextFrame c (inp ++ ext) = .inr (c', inp ++ ext)) := by
  unfold nextFrame at h ⊢
  -- the loop stops because of an error before, or waits for the header or the payload
  split at h
  · cases h
    exact ⟨rfl, .inl rfl⟩
  · split at h
    · cases h
      exact ⟨rfl, .inl rfl⟩
    · rename_i herr hlong
      -- with more octets behind them the same header is read
      have hlong' : ∀ ext, ¬(inp ++ ext).length < ZH2_FRAME_HDR := by
        intro ext
        rw [List.length_append]
        omega
      split at h
      · -- a frame that is too long is refused by its header alone
        rename_i hmax
        cases h
        refine ⟨rfl, .inr ⟨by simp, fun ext => ?_⟩⟩
        rw [if_neg herr, if_neg (hlong' ext), take_append_of_long hlong, if_pos hmax]
      · rename_i hmax
        split at h
        · cases h
          exact ⟨rfl, .inl rfl⟩
        · rename_i hwhole
          -- the payload is here as well, so that the checks see the same frame
          have hwhole' : ∀ ext, ¬(inp ++ ext).length < ZH2_FRAME_HDR + rd (inp.take 3) := by
            intro ext
            rw [List.length_append]
            omega
          dsimp only at h ⊢
          split at h
          · -- SETTINGS have to come first
            rename_i hset
            cases h
            refine ⟨rfl, .inr ⟨by simp, fun ext => ?_⟩⟩
            rw [if_neg herr, if_neg (hlong' ext), take_append_of_long hlong, if_neg hmax,
              if_neg (hwhole' ext), frameOf_append hwhole, if_pos hset]
          · rename_i hset
            split at h
            · -- inside a block only its CONTINUATION may come
              rename_i hcont
              cases h
              refine ⟨rfl, .inr ⟨by simp, fun ext => ?_⟩⟩
              rw [if_neg herr, if_neg (hlong' ext), take_append_of_long hlong, if_neg hmax,
                if_neg (hwhole' ext), frameOf_append hwhole, if_neg hset, if_pos hcont]
            · rename_i hcont
              split at h
              · -- a CONTINUATION that belongs to no block
                rename_i hstray
                cases h
                refine ⟨rfl, .inr ⟨by simp, fun ext => ?_⟩⟩
                rw [if_neg herr, if_neg (hlong' ext), take_append_of_long hlong, if_neg hmax,
                  if_neg (hwhole' ext), frameOf_append hwhole, if_neg hset, if_neg hcont,
                  if_pos hstray]
              · cases h

/-! ### The counts of a read

The answers to SETTINGS and PING are counted per read, which is the one place where the cut
of the input could show. -/

/-- What a frame adds to a count. -/
def Frame.toll (type : UInt8) (f : Frame) : Nat := if f.asks type then 1 else 0

theorem h2OnSettings_count {c : Zh2Conn} {f : Frame} {n : Nat} (hty : f.type = ZH2_FT_SETTINGS)
    (hn : n + f.toll ZH2_FT_SETTINGS ≤ ZH2_SETTINGS_PER_FEED) :
    (h2OnSettings c f n).1 = (h2OnSettings c f 0).1 ∧
      (h2OnSettings c f n).2 ≤ n + f.toll ZH2_FT_SETTINGS := by
  unfold h2OnSettings
  split
  · exact ⟨rfl, Nat.le_add_right _ _⟩
  · split
    · exact ⟨rfl, Nat.le_add_right _ _⟩
    · rename_i hack
      have htoll : f.toll ZH2_FT_SETTINGS = 1 := by simp [Frame.toll, Frame.asks, hty, hack]
      rw [htoll] at hn ⊢
      split
      · exact ⟨rfl, Nat.le_add_right _ _⟩
      · rw [if_neg (by omega), if_neg (by decide)]
        split
        · exact ⟨rfl, Nat.le_refl _⟩
        · exact ⟨rfl, Nat.le_refl _⟩

theorem h2OnPing_count {c : Zh2Conn} {f : Frame} {n : Nat} (hty : f.type = ZH2_FT_PING)
    (hn : n + f.toll ZH2_FT_PING ≤ ZH2_PING_PER_FEED) :
    (h2OnPing g c f n).1 = (h2OnPing g c f 0).1 ∧
      (h2OnPing g c f n).2 ≤ n + f.toll ZH2_FT_PING := by
  unfold h2OnPing
  split
  · exact ⟨rfl, Nat.le_add_right _ _⟩
  · split
    · exact ⟨rfl, Nat.le_add_right _ _⟩
    · split
      · exact ⟨rfl, Nat.le_add_right _ _⟩
      · rename_i hack
        have htoll : f.toll ZH2_FT_PING = 1 := by simp [Frame.toll, Frame.asks, hty, hack]
        rw [htoll] at hn ⊢
        have hflood : ¬n + 1 > ZH2_PING_PER_FEED := by omega
        have hnone : ¬0 + 1 > ZH2_PING_PER_FEED := by decide
        by_cases hout : c.out.avail > g.lim.maxOutBytes
        · rw [if_pos (.inr hout), if_pos (.inr hout)]
          exact ⟨rfl, Nat.le_refl _⟩
        · rw [if_neg fun h => h.elim hflood hout, if_neg fun h => h.elim hnone hout]
          exact ⟨rfl, Nat.le_refl _⟩

/-- There is room in the counts for the frames still to come. -/
structure Feed2St.Room (s : Feed2St) : Prop where
  pings : s.pings + asksIn ZH2_FT_PING s.inp ≤ ZH2_PING_PER_FEED
  settings : s.settings + asksIn ZH2_FT_SETTINGS s.inp ≤ ZH2_SETTINGS_PER_FEED

/-- The counts of a read that starts are no larger. -/
theorem Feed2St.Room.start {s : Feed2St} (h : s.Room) : Feed2St.Room { c := s.c, inp := s.inp } :=
  ⟨(Nat.add_le_add_right (Nat.zero_le _) _).trans h.pings,
    (Nat.add_le_add_right (Nat.zero_le _) _).trans h.settings⟩

/-- What a branch of the switch does whatever was counted before, with one counted at most. -/
def Counted (s : Feed2St) (f : Frame) (r r' : Feed2St) : Prop :=
  r.c = r'.c ∧ r.pings ≤ s.pings + f.toll ZH2_FT_PING ∧ r.settings ≤ s.settings + f.toll ZH2_FT_SETTINGS

theorem Counted.ite {s a a' b b' : Feed2St} {f : Frame} {p : Prop} [Decidable p]
    (ha : p → Counted s f a a') (hb : Counted s f b b') :
    Counted s f (if p then a else b) (if p then a' else b') := by
  by_cases h : p
  · rw [if_pos h, if_pos h]
    exact ha h
  · rw [if_neg h, if_neg h]
    exact hb

/-- The switch does the same whatever was counted before, and counts one at most. -/
theorem onFrame_count (s : Feed2St) {f : Frame}
    (hp : s.pings + f.toll ZH2_FT_PING ≤ ZH2_PING_PER_FEED)
    (hq : s.settings + f.toll ZH2_FT_SETTINGS ≤ ZH2_SETTINGS_PER_FEED) :
    (onFrame g s f).c = (onFrame g { c := s.c, inp := [] } f).c ∧
      (onFrame g s f).pings ≤ s.pings + f.toll ZH2_FT_PING ∧
      (onFrame g s f).settings ≤ s.settings + f.toll ZH2_FT_SETTINGS := by
  have hleP := Nat.le_add_right s.pings (f.toll ZH2_FT_PING)
  have hleS := Nat.le_add_right s.settings (f.toll ZH2_FT_SETTINGS)
  have hsame : ∀ c : Zh2Conn, Counted s f { s with c } { c, inp := [] } := fun c => ⟨rfl, hleP, hleS⟩
  have hsettings : f.type = ZH2_FT_SETTINGS → Counted s f
      { s with c := (h2OnSettings s.c f s.settings).1, settings := (h2OnSettings s.c f s.settings).2 }
      { c := (h2OnSettings s.c f 0).1, inp := [], settings := (h2OnSettings s.c f 0).2 } := by
    intro hty
    obtain ⟨hc, hcount⟩ := h2OnSettings_count (c := s.c) hty hq
    exact ⟨hc, hleP, hcount⟩
  have hping : f.type = ZH2_FT_PING → Counted s f
      { s with c := (h2OnPing g s.c f s.pings).1, pings := (h2OnPing g s.c f s.pings).2 }
      { c := (h2OnPing g s.c f 0).1, inp := [], pings := (h2OnPing g s.c f 0).2 } := by
    intro hty
    obtain ⟨hc, hcount⟩ := h2OnPing_count (g := g) (c := s.c) hty hp
    exact ⟨hc, hcount, hleS⟩
  have hall : Counted s f (onFrame g s f) (onFrame g { c := s.c, inp := [] } f) :=
    .ite (fun _ => hsame _) <| .ite (fun _ => hsame _) <| .ite (fun _ => hsame _) <|
    .ite (fun _ => hsame _) <| .ite hsettings <| .ite (fun _ => hsame _) <| .ite hping <|
    .ite (fun _ => hsame _) <| .ite (fun _ => hsame _) <| .ite (fun _ => hsame _) (hsame _)
  exact hall

/-- Octets that are replaced behind a choice. -/
theorem inp_ite {a a' b b' : Feed2St} {y : Bytes} {p : Prop} [Decidable p]
    (ha : { a with inp := y } = { a' with inp := y }) (hb : { b with inp := y } = { b' with inp := y }) :
    { (if p then a else b) with inp := y } = { (if p then a' else b') with inp := y } := by
  by_cases h : p
  · rw [if_pos h, if_pos h]
    exact ha
  · rw [if_neg h, if_neg h]
    exact hb

/-- The switch does not look at the octets behind the frame. -/
theorem onFrame_inp (s : Feed2St) (f : Frame) (x y : Bytes) :
    { onFrame g { s with inp := x } f with inp := y } = { onFrame g s f with inp := y } :=
  inp_ite rfl <| inp_ite rfl <| inp_ite rfl <| inp_ite rfl <| inp_ite rfl <| inp_ite rfl <|
    inp_ite rfl <| inp_ite rfl <| inp_ite rfl <| inp_ite rfl rfl

/-- **A round from a state with room** depends on connection and octets only, and leaves
room. -/
theorem zh2FeedRound_room {s s' : Feed2St} (hs : s.Room) (h : zh2FeedRound g s = .inl s') :
    ∃ c f, nextFrame s.c s.inp = .inl (c, f, s'.inp) ∧
      s'.c = (onFrame g { c, inp := [] } f).c ∧ s'.Room := by
  rw [zh2FeedRound_eq] at h
  split at h
  · cases h
  · rename_i c f rest hnext
    cases h
    have hframes := (nextFrame_inl hnext []).2
    have htoll : ∀ type, asksIn type s.inp = f.toll type + asksIn type rest := by
      intro type
      unfold asksIn Frame.toll
      rw [hframes, List.countP_cons, Nat.add_comm]
    have hp := hs.pings
    have hq := hs.settings
    rw [htoll] at hp hq
    obtain ⟨hc, hpings, hsettings⟩ := onFrame_count (g := g) { s with c } (f := f)
      (by dsimp only; omega) (by dsimp only; omega)
    refine ⟨c, f, hnext, hc, ?_, ?_⟩
    · dsimp only at hpings ⊢
      omega
    · dsimp only at hsettings ⊢
      omega

/-- The frame loop from any counts. -/
def zh2FramesFrom (g : H2Cfg) (s : Feed2St) : Zh2Conn × Bytes :=
  Lib.loop (zh2FeedRound g) _ (zh2FeedRound_decreases g) s

/-- **With room for all frames the counts decide nothing.** -/
theorem zh2Frames_counts {s : Feed2St} (hs : s.Room) :
    zh2FramesFrom g s = zh2Frames g s.c s.inp := by
  refine Lib.loop_induct (zh2FeedRound_decreases g)
    (P := fun s r => s.Room → ∀ t : Feed2St, t.Room → t.c = s.c → t.inp = s.inp →
      r = zh2FramesFrom g t) ?_ ?_ s hs _ hs.start rfl rfl
  · intro s r hround _ t _ hc hinp
    rw [zh2FeedRound_eq] at hround
    refine (Lib.loop_of_inr ?_).symm
    rw [zh2FeedRound_eq, hc, hinp]
    split at hround
    · exact hround
    · cases hround
  · intro s s' r hround ih hs t ht hc hinp
    obtain ⟨c, f, hnext, hc', hs'⟩ := zh2FeedRound_room hs hround
    obtain ⟨t', htround⟩ : ∃ t', zh2FeedRound g t = .inl t' := by
      rw [zh2FeedRound_eq, hc, hinp, hnext]
      exact ⟨_, rfl⟩
    obtain ⟨c₂, f₂, hnext₂, hc₂, ht'⟩ := zh2FeedRound_room ht htround
    rw [hc, hinp, hnext] at hnext₂
    injection hnext₂ with heq
    injection heq with hcc heq
    injection heq with hff hinp'
    subst hcc hff
    rw [ih hs' t' ht' (hc₂.trans hc'.symm) hinp'.symm]
    exact (Lib.loop_of_inl htround).symm

/-- The loop is over on a connection with an error. -/
theorem zh2Frames_error {c : Zh2Conn} (h : c.gotError = true) (inp : Bytes) :
    zh2Frames g c inp = (c, inp) := by
  refine Lib.loop_of_inr ?_
  rw [zh2FeedRound, if_pos h]

/-- **The next read goes on where the loop stopped.** -/
theorem zh2Frames_append {c : Zh2Conn} {inp ext : Bytes}
    (hroom : Feed2St.Room { c, inp := inp ++ ext }) :
    zh2Frames g c (inp ++ ext) =
      zh2Frames g (zh2Frames g c inp).1 ((zh2Frames g c inp).2 ++ ext) := by
  have hloop : ∀ s : Feed2St, Feed2St.Room { s with inp := s.inp ++ ext } →
      zh2FramesFrom g { s with inp := s.inp ++ ext } =
        zh2Frames g (zh2FramesFrom g s).1 ((zh2FramesFrom g s).2 ++ ext) := by
    intro s hs
    refine Lib.loop_induct (zh2FeedRound_decreases g)
      (P := fun s r => Feed2St.Room { s with inp := s.inp ++ ext } →
        zh2FramesFrom g { s with inp := s.inp ++ ext } = zh2Frames g r.1 (r.2 ++ ext)) ?_ ?_ s hs
    · rintro s ⟨c', rest⟩ hround hs
      rw [zh2FeedRound_eq] at hround
      split at hround
      · rename_i r hnext
        cases hround
        obtain ⟨rfl, rfl | ⟨herr, hmore⟩⟩ := nextFrame_inr hnext
        · exact zh2Frames_counts hs
        · -- the error that ended the loop ends it on the longer input too
          rw [zh2Frames_error herr]
          refine Lib.loop_of_inr ?_
          rw [zh2FeedRound_eq, hmore ext]
      · cases hround
    · intro s s' r hround ih hs
      rw [zh2FeedRound_eq] at hround
      split at hround
      · cases hround
      · rename_i c' f rest hnext
        cases hround
        have hround' : zh2FeedRound g { s with inp := s.inp ++ ext } =
            .inl { onFrame g { s with c := c' } f with inp := rest ++ ext } := by
          rw [zh2FeedRound_eq, (nextFrame_inl hnext ext).1]
          exact congrArg Sum.inl (onFrame_inp { s with c := c' } f _ _)
        obtain ⟨-, -, -, -, hs'⟩ := zh2FeedRound_room hs hround'
        rw [← ih hs']
        exact Lib.loop_of_inl hround'
  exact hloop { c, inp } hroom

/-! ### The preface

The preface is compared as far as it is there; a wrong octet is refused when it comes. -/

/-- What the preface makes of more octets: a refusal stays one, and a preface that is not
complete goes on with them. -/
theorem consumePreface_append (c : Zh2Conn) (inp ext : Bytes) :
    consumePreface c (inp ++ ext) =
      match consumePreface c inp with
      | (c', rest, true) => (c', rest ++ ext, true)
      | (c', [], false) => consumePreface c' ext
      | (c', b :: rest, false) => (c', b :: rest ++ ext, false) := by
  induction inp generalizing c with
  | nil =>
    by_cases hgot : c.prefaceGot < ZH2_PREFACE.length
    · rw [List.nil_append, consumePreface, if_pos hgot]
    · rw [List.nil_append, consumePreface, if_neg hgot]
      cases ext with
      | nil => rw [consumePreface, if_neg hgot]; rfl
      | cons b ext => rw [consumePreface, if_neg hgot]; rfl
  | cons b inp ih =>
    rw [List.cons_append, consumePreface, consumePreface]
    by_cases hgot : c.prefaceGot < ZH2_PREFACE.length
    · rw [if_pos hgot, if_pos hgot]
      by_cases hb : b ≠ ZH2_PREFACE.getD c.prefaceGot 0
      · rw [if_pos hb, if_pos hb]
        rfl
      · rw [if_neg hb, if_neg hb]
        exact ih _
    · rw [if_neg hgot, if_neg hgot]
      rfl

/-- What is behind a complete preface. -/
theorem consumePreface_ready {c c' : Zh2Conn} {inp rest : Bytes}
    (h : consumePreface c inp = (c', rest, true)) :
    c'.prefaceDone = true ∧ inp = ZH2_PREFACE.drop c.prefaceGot ++ rest := by
  induction inp generalizing c with
  | nil =>
    rw [consumePreface] at h
    split at h
    · cases h
    · rename_i hgot
      cases h
      exact ⟨rfl, by rw [List.drop_eq_nil_of_le (Nat.not_lt.mp hgot)]; rfl⟩
  | cons b inp ih =>
    rw [consumePreface] at h
    split at h
    · rename_i hgot
      split at h
      · cases h
      · rename_i hb
        obtain ⟨hdone, hinp⟩ := ih h
        refine ⟨hdone, ?_⟩
        have hget : ZH2_PREFACE[c.prefaceGot] = b := by
          rw [ne_eq, not_not, List.getD_eq_getElem _ _ hgot] at hb
          exact hb.symm
        rw [List.drop_eq_getElem_cons hgot, hget, List.cons_append]
        exact congrArg (b :: ·) hinp
    · rename_i hgot
      cases h
      exact ⟨rfl, by rw [List.drop_eq_nil_of_le (Nat.not_lt.mp hgot)]; rfl⟩

/-- A preface was refused at the octet the pending input starts with. -/
structure Refused (c : Zh2Conn) (pending : Bytes) : Prop where
  preface : c.prefaceDone = false
  error : c.gotError = true
  goaway : c.goawaySent = true
  closing : c.closing = true
  got : c.prefaceGot < ZH2_PREFACE.length
  octet : ∃ b rest, pending = b :: rest ∧ b ≠ ZH2_PREFACE.getD c.prefaceGot 0

theorem Refused.append {c : Zh2Conn} {pending : Bytes} (h : Refused c pending) (x : Bytes) :
    Refused c (pending ++ x) := by
  obtain ⟨b, rest, rfl, hb⟩ := h.octet
  exact ⟨h.preface, h.error, h.goaway, h.closing, h.got, b, rest ++ x, rfl, hb⟩

/-- A connection error raises its flags and leaves the rest as it is. -/
theorem connError_flags (c : Zh2Conn) (code : Nat) :
    (connError c code).gotError = true ∧ (connError c code).goawaySent = true ∧
      (connError c code).closing = true ∧ (connError c code).prefaceGot = c.prefaceGot := by
  unfold connError qGoaway
  split
  · rename_i hsent
    exact ⟨rfl, hsent, rfl, rfl⟩
  · exact ⟨rfl, rfl, rfl, rfl⟩

theorem refused_connError {c : Zh2Conn} {code : Nat} {b : UInt8} {rest : Bytes}
    (hdone : c.prefaceDone = false) (hgot : c.prefaceGot < ZH2_PREFACE.length)
    (hb : b ≠ ZH2_PREFACE.getD c.prefaceGot 0) : Refused (connError c code) (b :: rest) := by
  obtain ⟨herr, hsent, hclosing, hpg⟩ := connError_flags c code
  rw [← hpg] at hgot hb
  exact ⟨by simpa using hdone, herr, hsent, hclosing, hgot, b, rest, rfl, hb⟩

/-- A preface that is not complete leaves nothing, or is refused. -/
theorem consumePreface_waits {c c' : Zh2Conn} {inp rest : Bytes} (hdone : c.prefaceDone = false)
    (h : consumePreface c inp = (c', rest, false)) :
    c'.prefaceDone = false ∧ (rest = [] ∨ Refused c' rest) := by
  induction inp generalizing c with
  | nil =>
    rw [consumePreface] at h
    split at h
    · cases h
      exact ⟨hdone, .inl rfl⟩
    · cases h
  | cons b inp ih =>
    rw [consumePreface] at h
    split at h
    · rename_i hgot
      split at h
      · rename_i hb
        cases h
        exact ⟨by simpa using hdone, .inr (refused_connError hdone hgot hb)⟩
      · exact ih (c := { c with prefaceGot := c.prefaceGot + 1 }) hdone h
    · cases h

/-! ### Whole streams

Two cuts of one stream lead to the same connection. -/

/-- Two connections in the same state, which dispatched the same requests. -/
def Zh2Conn.Agree (a b : Zh2Conn) : Prop :=
  { a with hist := [] } = { b with hist := [] } ∧ dispatches a.hist = dispatches b.hist

theorem Zh2Conn.Agree.refl (a : Zh2Conn) : a.Agree a := ⟨rfl, rfl⟩

theorem Zh2Conn.Agree.symm {a b : Zh2Conn} (h : a.Agree b) : b.Agree a := ⟨h.1.symm, h.2.symm⟩

theorem Zh2Conn.Agree.trans {a b c : Zh2Conn} (h : a.Agree b) (h' : b.Agree c) : a.Agree c :=
  ⟨h.1.trans h'.1, h.2.trans h'.2⟩

/-- The reads of a connection, one after another: its state and the input not yet read. -/
def zh2FeedAll (g : H2Cfg) (s : Zh2Conn × Bytes) (reads : List Bytes) : Zh2Conn × Bytes :=
  reads.foldl (fun s x => (zh2Feed g s.1 (s.2 ++ x)).2) s

/-- The number of frames of that type without ACK in a client's stream. -/
def clientAsks (type : UInt8) (s : Bytes) : Nat :=
  if ZH2_PREFACE <+: s then asksIn type (s.drop ZH2_PREFACE.length) else 0

/-- At most 64 SETTINGS frames and 128 PING frames without ACK. -/
def FewAsks (s : Bytes) : Prop :=
  clientAsks ZH2_FT_SETTINGS s ≤ ZH2_SETTINGS_PER_FEED ∧ clientAsks ZH2_FT_PING s ≤ ZH2_PING_PER_FEED

theorem clientAsks_append (type : UInt8) (s ext : Bytes) :
    clientAsks type s ≤ clientAsks type (s ++ ext) := by
  unfold clientAsks
  by_cases hpre : ZH2_PREFACE <+: s
  · rw [if_pos hpre, if_pos (hpre.trans (List.prefix_append s ext)),
      List.drop_append_of_le_length hpre.length_le]
    exact asksIn_append type _ ext
  · rw [if_neg hpre]
    exact Nat.zero_le _

theorem FewAsks.of_append {s ext : Bytes} (h : FewAsks (s ++ ext)) : FewAsks s :=
  ⟨(clientAsks_append _ s ext).trans h.1, (clientAsks_append _ s ext).trans h.2⟩

/-- A short stream has few frames. -/
theorem FewAsks.of_short {s : Bytes} (h : s.length ≤ ZH2_FRAME_HDR * ZH2_SETTINGS_PER_FEED) :
    FewAsks s := by
  have hle : ∀ type, clientAsks type s ≤ ZH2_SETTINGS_PER_FEED := by
    intro type
    unfold clientAsks asksIn
    split
    · have hcount := List.countP_le_length (p := Frame.asks type)
        (l := framesOf (s.drop ZH2_PREFACE.length))
      have hframes := length_framesOf_le (s.drop ZH2_PREFACE.length)
      rw [List.length_drop] at hframes
      simp only [ZH2_FRAME_HDR] at h hframes
      omega
    · exact Nat.zero_le _
  exact ⟨hle _, (hle _).trans (by decide)⟩

/-- Behind the preface there is room in the counts. -/
theorem FewAsks.room {c : Zh2Conn} {inp : Bytes} (h : FewAsks (ZH2_PREFACE ++ inp)) :
    Feed2St.Room { c, inp } := by
  have hasks : ∀ type, clientAsks type (ZH2_PREFACE ++ inp) = asksIn type inp := by
    intro type
    rw [clientAsks, if_pos (List.prefix_append _ _), List.drop_left]
  obtain ⟨hset, hping⟩ := h
  rw [hasks] at hset hping
  exact ⟨by simpa using hping, by simpa using hset⟩

theorem zh2Frames_prefaceDone {c : Zh2Conn} (hc : Reachable g c) (h : c.prefaceDone = true) (inp : Bytes) :
    (zh2Frames g c inp).1.prefaceDone = true := by
  have hsteps : ∀ {a b : Zh2Conn}, Steps g a b → a.prefaceDone = true → b.prefaceDone = true := by
    intro a b hab ha
    induction hab with
    | refl => exact ha
    | tail _ hstep ih => exact hstep.prefaceDone_mono ih
  refine Lib.loop_inv (zh2FeedRound_decreases g) (I := fun s => Reachable g s.c ∧ s.c.prefaceDone = true)
    (Q := fun r => r.1.prefaceDone = true) ?_ ?_ ⟨hc, h⟩
  · rintro s s' ⟨hreach, hs⟩ hround
    have hrun := steps_zh2FeedRound (g := g) s hreach.settled
    rw [hround] at hrun
    exact ⟨hreach.frame hround, hsteps hrun hs⟩
  · rintro s r ⟨hreach, hs⟩ hround
    have hrun := steps_zh2FeedRound (g := g) s hreach.settled
    rw [hround] at hrun
    exact hsteps hrun hs

/-- **One more read** does what it would have done with the reads before it in one: it goes on
from where they ended, unless they ended at a preface that was refused. -/
theorem zh2Feed_append {all x : Bytes} (h : FewAsks (all ++ x)) :
    let w := (zh2Feed g (zh2New g) all).2
    (zh2Feed g (zh2New g) (all ++ x)).2 = (zh2Feed g w.1 (w.2 ++ x)).2 ∨
      Refused w.1 w.2 ∧ (zh2Feed g (zh2New g) (all ++ x)).2 = (w.1, w.2 ++ x) := by
  -- a new connection reads the preface first
  have hnew : ∀ s : Bytes, (zh2Feed g (zh2New g) s).2 =
      match consumePreface (zh2New g) s with
      | (c, inp, true) => zh2Frames g c inp
      | (c, inp, false) => (c, inp) := by
    intro s
    unfold zh2Feed
    rw [if_neg (by exact Bool.false_ne_true)]
    generalize consumePreface (zh2New g) s = r
    obtain ⟨c, inp, ready⟩ := r
    cases ready <;> rfl
  dsimp only
  rw [hnew all, hnew (all ++ x), consumePreface_append]
  cases hpre : consumePreface (zh2New g) all with
  | mk c r =>
    obtain ⟨rest, ready⟩ := r
    cases ready with
    -- the preface is complete, and the rest is frames
    | true =>
      obtain ⟨hdone, hall⟩ := consumePreface_ready hpre
      have hall : all = ZH2_PREFACE ++ rest := hall
      rw [hall, List.append_assoc] at h
      left
      dsimp only
      have hreach : Reachable g c := by
        have hpreface := Reachable.new (g := g).preface all
        rwa [hpre] at hpreface
      rw [zh2Frames_append h.room, zh2Feed, if_pos (zh2Frames_prefaceDone hreach hdone rest)]
      rfl
    -- the preface is not complete, or was refused
    | false =>
      obtain ⟨hdone, hempty | hrefused⟩ := consumePreface_waits rfl hpre
      · -- all octets were taken: the rest goes on where they ended
        subst hempty
        left
        dsimp only
        rw [zh2Feed, if_neg (by rw [hdone]; exact Bool.false_ne_true), List.nil_append]
        generalize consumePreface c x = r
        obtain ⟨c', inp, ready⟩ := r
        cases ready <;> rfl
      · -- the first wrong octet was refused; nothing behind it is read
        obtain ⟨b, rest', rfl, -⟩ := hrefused.octet
        exact .inr ⟨hrefused, rfl⟩

/-- A preface that was refused is refused again, and nothing else happens. -/
theorem zh2Feed_refused {c : Zh2Conn} {pending : Bytes} (h : Refused c pending) (x : Bytes) :
    (zh2Feed g c (pending ++ x)).2 = (connError c ZH2_E_PROTOCOL_ERROR, pending ++ x) ∧
      (connError c ZH2_E_PROTOCOL_ERROR).Agree c ∧
      Refused (connError c ZH2_E_PROTOCOL_ERROR) (pending ++ x) := by
  obtain ⟨hdone, herr, hsent, hclosing, hgot, b, rest, rfl, hb⟩ := h
  refine ⟨?_, ⟨?_, ?_⟩, refused_connError hdone hgot hb⟩
  · rw [zh2Feed, if_neg (by rw [hdone]; exact Bool.false_ne_true), List.cons_append, consumePreface,
      if_pos hgot, if_pos hb]
    rfl
  · unfold connError qGoaway
    rw [if_pos (by exact hsent)]
    change { c with gotError := true, closing := true, hist := [] } = { c with hist := [] }
    rw [herr, hclosing]
  · simp

/-- **Every way of cutting a stream** ends as the whole stream in one read does. -/
theorem zh2FeedAll_agree {reads : List Bytes} (h : FewAsks reads.flatten) :
    (zh2FeedAll g (zh2New g, []) reads).1.Agree (zh2Feed g (zh2New g) reads.flatten).2.1 ∧
      (zh2FeedAll g (zh2New g, []) reads).2 = (zh2Feed g (zh2New g) reads.flatten).2.2 := by
  -- either the very state, or both at the same refused preface
  have hfed : zh2FeedAll g (zh2New g, []) reads = (zh2Feed g (zh2New g) reads.flatten).2 ∨
      Refused (zh2FeedAll g (zh2New g, []) reads).1 (zh2FeedAll g (zh2New g, []) reads).2 ∧
      Refused (zh2Feed g (zh2New g) reads.flatten).2.1 (zh2Feed g (zh2New g) reads.flatten).2.2 ∧
      (zh2FeedAll g (zh2New g, []) reads).1.Agree (zh2Feed g (zh2New g) reads.flatten).2.1 ∧
      (zh2FeedAll g (zh2New g, []) reads).2 = (zh2Feed g (zh2New g) reads.flatten).2.2 := by
    induction reads using List.reverseRecOn with
    | nil => exact .inl rfl
    | append_singleton reads x ih =>
      rw [List.flatten_append, List.flatten_singleton] at h ⊢
      have hlast : zh2FeedAll g (zh2New g, []) (reads ++ [x]) =
          (zh2Feed g (zh2FeedAll g (zh2New g, []) reads).1
            ((zh2FeedAll g (zh2New g, []) reads).2 ++ x)).2 := by
        rw [zh2FeedAll, List.foldl_append]
        rfl
      rw [hlast]
      have happend := zh2Feed_append (g := g) h
      dsimp only at happend
      rcases ih h.of_append with heq | ⟨hr, hw, hagree, hpending⟩
      · rw [heq]
        rcases happend with hsame | ⟨hrefused, hsame⟩
        · exact .inl hsame.symm
        · obtain ⟨hfeed, hag, hagain⟩ := zh2Feed_refused (g := g) hrefused x
          rw [hfeed, hsame]
          exact .inr ⟨hagain, hrefused.append x, hag, rfl⟩
      · -- both refuse again
        obtain ⟨hfeed, hag, hagain⟩ := zh2Feed_refused (g := g) hr x
        obtain ⟨hwfeed, hwag, hwagain⟩ := zh2Feed_refused (g := g) hw x
        rw [hfeed]
        rcases happend with hsame | ⟨-, hsame⟩
        · rw [hsame, hwfeed]
          exact .inr ⟨hagain, hwagain, (hag.trans hagree).trans hwag.symm, congrArg (· ++ x) hpending⟩
        · rw [hsame]
          exact .inr ⟨hagain, hw.append x, hag.trans hagree, congrArg (· ++ x) hpending⟩
  rcases hfed with heq | ⟨-, -, hagree, hpending⟩
  · rw [heq]
    exact ⟨.refl _, rfl⟩
  · exact ⟨hagree, hpending⟩

/-- **Segmentation independence.** A client's stream with at most 64 SETTINGS and 128 PING
frames without ACK, read in any two ways, leads to the same requests in the same order, the
same output, the same connection state and the same unread input. -/
theorem zh2Feed_segmentation (g : H2Cfg) {s : Bytes} (hfew : FewAsks s) {reads reads' : List Bytes}
    (h : reads.flatten = s) (h' : reads'.flatten = s) :
    let r := zh2FeedAll g (zh2New g, []) reads
    let r' := zh2FeedAll g (zh2New g, []) reads'
    dispatches r.1.hist = dispatches r'.1.hist ∧ r.1.out = r'.1.out ∧ r.2 = r'.2 ∧
      { r.1 with hist := [] } = { r'.1 with hist := [] } := by
  subst h
  obtain ⟨hagree, hpending⟩ := zh2FeedAll_agree (g := g) hfew
  obtain ⟨hagree', hpending'⟩ := @zh2FeedAll_agree g reads' (h' ▸ hfew)
  rw [h'] at hagree' hpending'
  obtain ⟨hstate, hdispatches⟩ := hagree.trans hagree'.symm
  exact ⟨hdispatches, congrArg (·.out) hstate, hpending.trans hpending'.symm, hstate⟩

/-- A GET in two reads, cut inside the preface, and octet by octet. -/
theorem zh2Feed_segmentation_get :
    let s := clientOctets [getRequest]
    let r := zh2FeedAll .silent (zh2New .silent, []) [s.take 10, s.drop 10]
    let r' := zh2FeedAll .silent (zh2New .silent, []) (s.map fun b => [b])
    dispatches r.1.hist = dispatches r'.1.hist ∧ r.1.out = r'.1.out ∧ r.2 = r'.2 ∧
      { r.1 with hist := [] } = { r'.1 with hist := [] } := by
  intro s
  exact zh2Feed_segmentation .silent (s := s) (.of_short (by decide +kernel)) (by simp)
    (List.flatMap_singleton' s)

end Zcio
