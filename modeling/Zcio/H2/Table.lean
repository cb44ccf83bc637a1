import Zcio.H2.Conn

/-!
# Zcio.H2.Table

What the primitive operations of `Zcio.H2.Conn` do and what they leave alone, so that
later proofs never unfold them: one **frame lemma** per operation, then the stream table
as a set of streams keyed by id.
-/

namespace Zcio

variable (c : Zh2Conn)

/-! ### Frame lemmas

Which fields of the connection each of the small operations leaves as they are. -/

@[simp] theorem log_frame (e : H2Event) :
    (c.log e).hist = e :: c.hist ∧ (c.log e).toZh2Flow = c.toZh2Flow ∧
    (c.log e).toZh2Table = c.toZh2Table ∧ (c.log e).toZh2Hdr = c.toZh2Hdr ∧
    (c.log e).out = c.out ∧ (c.log e).dec = c.dec ∧ (c.log e).gotError = c.gotError ∧
    (c.log e).closing = c.closing ∧ (c.log e).peerGoaway = c.peerGoaway ∧
    (c.log e).goawaySent = c.goawaySent :=
  ⟨rfl, rfl, rfl, rfl, rfl, rfl, rfl, rfl, rfl, rfl⟩

@[simp] theorem h2Frame_frame (f : Frame) :
    (h2Frame c f).hist = .sent f :: c.hist ∧ (h2Frame c f).toZh2Flow = c.toZh2Flow ∧
    (h2Frame c f).toZh2Table = c.toZh2Table ∧ (h2Frame c f).toZh2Hdr = c.toZh2Hdr ∧
    (h2Frame c f).out = c.out.append f.bytes ∧ (h2Frame c f).dec = c.dec ∧
    (h2Frame c f).gotError = c.gotError ∧ (h2Frame c f).closing = c.closing ∧
    (h2Frame c f).peerGoaway = c.peerGoaway ∧ (h2Frame c f).goawaySent = c.goawaySent :=
  ⟨rfl, rfl, rfl, rfl, rfl, rfl, rfl, rfl, rfl, rfl⟩

/-- The RST_STREAM frame of `q_rst`. -/
def rstFrame (id code : Nat) : Frame :=
  { type := ZH2_FT_RST_STREAM, sid := id, payload := wr32 code }

/-- The WINDOW_UPDATE frame of `q_window_update`. -/
def windowFrame (id incr : Nat) : Frame :=
  { type := ZH2_FT_WINDOW_UPDATE, sid := id, payload := wr32 incr }

/-- The GOAWAY frame of `q_goaway`. -/
def goawayFrame (last code : Nat) : Frame :=
  { type := ZH2_FT_GOAWAY, sid := 0, payload := wr32 last ++ wr32 code }

@[simp] theorem qRst_frame (id code : Nat) :
    (qRst c id code).hist = .sent (rstFrame id code) :: c.hist ∧
    (qRst c id code).toZh2Flow = c.toZh2Flow ∧ (qRst c id code).toZh2Table = c.toZh2Table ∧
    (qRst c id code).toZh2Hdr = c.toZh2Hdr ∧ (qRst c id code).dec = c.dec ∧
    (qRst c id code).gotError = c.gotError ∧ (qRst c id code).closing = c.closing ∧
    (qRst c id code).peerGoaway = c.peerGoaway :=
  ⟨rfl, rfl, rfl, rfl, rfl, rfl, rfl, rfl⟩

@[simp] theorem qWindowUpdate_frame (id incr : Nat) :
    (qWindowUpdate c id incr).hist =
      (if incr = 0 then [] else [.sent (windowFrame id incr)]) ++ c.hist ∧
    (qWindowUpdate c id incr).toZh2Flow = c.toZh2Flow ∧
    (qWindowUpdate c id incr).toZh2Table = c.toZh2Table ∧
    (qWindowUpdate c id incr).toZh2Hdr = c.toZh2Hdr ∧
    (qWindowUpdate c id incr).dec = c.dec ∧
    (qWindowUpdate c id incr).gotError = c.gotError ∧
    (qWindowUpdate c id incr).closing = c.closing ∧
    (qWindowUpdate c id incr).peerGoaway = c.peerGoaway := by
  unfold qWindowUpdate
  split
  · exact ⟨rfl, rfl, rfl, rfl, rfl, rfl, rfl, rfl⟩
  · exact ⟨rfl, rfl, rfl, rfl, rfl, rfl, rfl, rfl⟩

@[simp] theorem qGoaway_frame (code : Nat) :
    (qGoaway c code).hist =
      (if c.goawaySent then [] else [.sent (goawayFrame c.lastClientId code)]) ++ c.hist ∧
    (qGoaway c code).toZh2Flow = c.toZh2Flow ∧ (qGoaway c code).toZh2Table = c.toZh2Table ∧
    (qGoaway c code).toZh2Hdr = c.toZh2Hdr ∧ (qGoaway c code).dec = c.dec ∧
    (qGoaway c code).gotError = c.gotError ∧ (qGoaway c code).closing = c.closing ∧
    (qGoaway c code).peerGoaway = c.peerGoaway := by
  unfold qGoaway
  split
  · exact ⟨rfl, rfl, rfl, rfl, rfl, rfl, rfl, rfl⟩
  · exact ⟨rfl, rfl, rfl, rfl, rfl, rfl, rfl, rfl⟩

@[simp] theorem connError_frame (code : Nat) :
    (connError c code).hist =
      (if c.goawaySent then [] else [.sent (goawayFrame c.lastClientId code)]) ++
        .error code :: c.hist ∧
    (connError c code).gotError = true ∧
    (connError c code).toZh2Flow = c.toZh2Flow ∧
    (connError c code).toZh2Table = c.toZh2Table ∧
    (connError c code).toZh2Hdr = c.toZh2Hdr ∧ (connError c code).dec = c.dec := by
  have h := qGoaway_frame (c.log (.error code)) code
  exact ⟨h.1, rfl, h.2.1, h.2.2.1, h.2.2.2.1, h.2.2.2.2.1⟩

@[simp] theorem updateStream_frame (id : Nat) (f : Zh2Stream → Zh2Stream) :
    (updateStream c id f).hist = c.hist ∧ (updateStream c id f).toZh2Flow = c.toZh2Flow ∧
    (updateStream c id f).toZh2Hdr = c.toZh2Hdr ∧ (updateStream c id f).out = c.out ∧
    (updateStream c id f).dec = c.dec ∧ (updateStream c id f).gotError = c.gotError ∧
    (updateStream c id f).closing = c.closing ∧
    (updateStream c id f).peerGoaway = c.peerGoaway ∧
    (updateStream c id f).lastClientId = c.lastClientId ∧
    (updateStream c id f).openCount = c.openCount ∧
    (updateStream c id f).totalStreams = c.totalStreams ∧
    (updateStream c id f).rapidReset = c.rapidReset :=
  ⟨rfl, rfl, rfl, rfl, rfl, rfl, rfl, rfl, rfl, rfl, rfl, rfl⟩

@[simp] theorem streamClose_frame (i : Nat) :
    (streamClose c i).hist = c.hist ∧ (streamClose c i).toZh2Flow = c.toZh2Flow ∧
    (streamClose c i).toZh2Hdr = c.toZh2Hdr ∧ (streamClose c i).out = c.out ∧
    (streamClose c i).dec = c.dec ∧ (streamClose c i).gotError = c.gotError ∧
    (streamClose c i).closing = c.closing ∧ (streamClose c i).peerGoaway = c.peerGoaway ∧
    (streamClose c i).lastClientId = c.lastClientId ∧
    (streamClose c i).totalStreams = c.totalStreams ∧
    (streamClose c i).rapidReset = c.rapidReset :=
  ⟨rfl, rfl, rfl, rfl, rfl, rfl, rfl, rfl, rfl, rfl, rfl⟩

@[simp] theorem closeById_frame (id : Nat) :
    (closeById c id).hist = c.hist ∧ (closeById c id).toZh2Flow = c.toZh2Flow ∧
    (closeById c id).toZh2Hdr = c.toZh2Hdr ∧ (closeById c id).out = c.out ∧
    (closeById c id).dec = c.dec ∧ (closeById c id).gotError = c.gotError ∧
    (closeById c id).closing = c.closing ∧ (closeById c id).peerGoaway = c.peerGoaway ∧
    (closeById c id).lastClientId = c.lastClientId ∧
    (closeById c id).totalStreams = c.totalStreams ∧
    (closeById c id).rapidReset = c.rapidReset := by
  unfold closeById
  split
  · exact streamClose_frame c _
  · exact ⟨rfl, rfl, rfl, rfl, rfl, rfl, rfl, rfl, rfl, rfl, rfl⟩

/-- `closeById` looks at the table only. -/
theorem closeById_table {a b : Zh2Conn} (h : b.toZh2Table = a.toZh2Table) (id : Nat) :
    (closeById b id).toZh2Table = (closeById a id).toZh2Table := by
  have hfind : findIndex b id = findIndex a id := by unfold findIndex; rw [h]
  unfold closeById
  rw [hfind]
  split
  · simp only [streamClose, h]
  · exact h

theorem closeById_streams {a b : Zh2Conn} (h : b.streams = a.streams) (id : Nat) :
    (closeById b id).streams = (closeById a id).streams := by
  have hfind : findIndex b id = findIndex a id := by unfold findIndex; rw [h]
  unfold closeById
  rw [hfind]
  split
  · simp only [streamClose, h]
  · exact h

@[simp] theorem rstStream_frame (id code : Nat) :
    (rstStream c id code).hist = .sent (rstFrame id code) :: c.hist ∧
    (rstStream c id code).toZh2Table = (closeById c id).toZh2Table ∧
    (rstStream c id code).toZh2Flow = c.toZh2Flow ∧
    (rstStream c id code).toZh2Hdr = c.toZh2Hdr ∧ (rstStream c id code).dec = c.dec ∧
    (rstStream c id code).gotError = c.gotError ∧ (rstStream c id code).closing = c.closing ∧
    (rstStream c id code).peerGoaway = c.peerGoaway := by
  unfold rstStream
  refine ⟨?_, closeById_table (a := c) (b := qRst c id code) rfl id, ?_⟩
  · rw [(closeById_frame _ id).1]
    rfl
  · obtain ⟨-, h1, h2, -, h3, h4, h5, h6, -⟩ := closeById_frame (qRst c id code) id
    exact ⟨h1, h2, h3, h4, h5, h6⟩

@[simp] theorem clearHdr_frame :
    (clearHdr c).hist = c.hist ∧ (clearHdr c).toZh2Flow = c.toZh2Flow ∧
    (clearHdr c).toZh2Table = c.toZh2Table ∧ (clearHdr c).toZh2Hdr = {} ∧
    (clearHdr c).out = c.out ∧ (clearHdr c).dec = c.dec ∧
    (clearHdr c).gotError = c.gotError ∧ (clearHdr c).closing = c.closing ∧
    (clearHdr c).peerGoaway = c.peerGoaway :=
  ⟨rfl, rfl, rfl, rfl, rfl, rfl, rfl, rfl, rfl⟩

@[simp] theorem beginHdr_frame (f : Frame) (st : Option Nat) (refuse : Nat) (trailer : Bool) :
    (beginHdr c f st refuse trailer).hist = c.hist ∧
    (beginHdr c f st refuse trailer).toZh2Flow = c.toZh2Flow ∧
    (beginHdr c f st refuse trailer).toZh2Table = c.toZh2Table ∧
    (beginHdr c f st refuse trailer).out = c.out ∧
    (beginHdr c f st refuse trailer).dec = c.dec ∧
    (beginHdr c f st refuse trailer).gotError = c.gotError ∧
    (beginHdr c f st refuse trailer).closing = c.closing ∧
    (beginHdr c f st refuse trailer).peerGoaway = c.peerGoaway :=
  ⟨rfl, rfl, rfl, rfl, rfl, rfl, rfl, rfl⟩

@[simp] theorem recvConsumeConn_frame (len : Nat) :
    (recvConsumeConn c len).hist =
      (if (topUp c.recvWindow len).2 = 0 then []
        else [.sent (windowFrame 0 (topUp c.recvWindow len).2)]) ++ c.hist ∧
    (recvConsumeConn c len).recvWindow = (topUp c.recvWindow len).1 ∧
    (recvConsumeConn c len).sendWindow = c.sendWindow ∧
    (recvConsumeConn c len).peerInitialWindow = c.peerInitialWindow ∧
    (recvConsumeConn c len).peerMaxFrame = c.peerMaxFrame ∧
    (recvConsumeConn c len).toZh2Table = c.toZh2Table ∧
    (recvConsumeConn c len).toZh2Hdr = c.toZh2Hdr ∧ (recvConsumeConn c len).dec = c.dec ∧
    (recvConsumeConn c len).gotError = c.gotError := by
  obtain ⟨h1, h2, h3, h4, h5, h6, -⟩ := qWindowUpdate_frame c 0 (topUp c.recvWindow len).2
  refine ⟨h1, rfl, ?_, ?_, ?_, h3, h4, h5, h6⟩
  · exact congrArg (·.sendWindow) h2
  · exact congrArg (·.peerInitialWindow) h2
  · exact congrArg (·.peerMaxFrame) h2

theorem recvConsume_none (len : Nat) : recvConsume c none len = recvConsumeConn c len := rfl

theorem recvConsume_some (st : Zh2Stream) (len : Nat) :
    recvConsume c (some st) len = recvConsumeStream (recvConsumeConn c len) st len := rfl

theorem recvConsumeStream_eq (st : Zh2Stream) (len : Nat) :
    recvConsumeStream c st len =
      updateStream (qWindowUpdate c st.id (topUp st.recvWindow len).2) st.id fun s =>
        { s with recvWindow := (topUp st.recvWindow len).1 } := rfl

theorem rd_wr32 {v : Nat} (h : v < 2 ^ 32) : rd (wr32 v) = v := by
  simp only [rd, wr32, List.foldl_cons, List.foldl_nil, UInt8.toNat_ofNat', Nat.zero_mul,
    Nat.zero_add]
  omega

/-! ### Sums over the history

A tally adds up a number for each event. Increments, credits and octets are counted this
way. -/

/-- The sum of a weight over the history. -/
def tally (w : H2Event → Nat) (h : List H2Event) : Nat := (h.map w).sum

@[simp] theorem tally_nil (w : H2Event → Nat) : tally w [] = 0 := rfl

@[simp] theorem tally_cons (w : H2Event → Nat) (e : H2Event) (h : List H2Event) :
    tally w (e :: h) = w e + tally w h := rfl

@[simp] theorem tally_append (w : H2Event → Nat) (h h' : List H2Event) :
    tally w (h ++ h') = tally w h + tally w h' := by
  simp [tally]

theorem tally_eq_zero {w : H2Event → Nat} {h : List H2Event} (hw : ∀ e ∈ h, w e = 0) :
    tally w h = 0 := by
  rw [tally, List.sum_eq_zero]
  intro n hn
  obtain ⟨e, he, rfl⟩ := List.mem_map.mp hn
  exact hw e he

/-- `P` held at every moment of the history. -/
def Always (P : List H2Event → Prop) (h : List H2Event) : Prop := ∀ h', h' <:+ h → P h'

theorem always_cons {P : List H2Event → Prop} {e : H2Event} {h : List H2Event} :
    Always P (e :: h) ↔ P (e :: h) ∧ Always P h := by
  constructor
  · intro ha
    exact ⟨ha _ List.suffix_rfl, fun h' hs => ha h' (hs.trans (List.suffix_cons e h))⟩
  · rintro ⟨hp, ha⟩ h' hs
    rcases List.suffix_cons_iff.mp hs with rfl | hs
    · exact hp
    · exact ha h' hs

/-! ### The table as a set of streams

Ids are distinct, so that a stream is determined by its id and an update changes one stream.
-/

/-- The ids in the table. -/
def Zh2Table.ids (t : Zh2Table) : List Nat := t.streams.map (·.id)

variable {c}

theorem findStream_table {a b : Zh2Conn} (h : b.toZh2Table = a.toZh2Table) (id : Nat) :
    findStream b id = findStream a id := by
  unfold findStream
  rw [h]

@[simp] theorem findStream_log (e : H2Event) (id : Nat) :
    findStream (c.log e) id = findStream c id := rfl

theorem findStream_some {id : Nat} {st : Zh2Stream} (h : findStream c id = some st) :
    st ∈ c.streams ∧ st.id = id :=
  ⟨List.mem_of_find?_eq_some h, by simpa using List.find?_some h⟩

theorem findStream_none {id : Nat} (h : findStream c id = none) :
    ∀ st ∈ c.streams, st.id ≠ id := by
  intro st hst
  simpa using List.find?_eq_none.mp h st hst

/-- With distinct ids a stream is its id. -/
theorem eq_of_mem_of_id {l : List Zh2Stream} (hnd : (l.map (·.id)).Nodup) {s t : Zh2Stream}
    (hs : s ∈ l) (ht : t ∈ l) (h : s.id = t.id) : s = t :=
  List.inj_on_of_nodup_map hnd hs ht h

theorem mem_updateStream {id : Nat} {f : Zh2Stream → Zh2Stream} {st : Zh2Stream} :
    st ∈ (updateStream c id f).streams ↔
      ∃ s ∈ c.streams, (if s.id = id then f s else s) = st := by
  simp [updateStream]

theorem ids_updateStream {id : Nat} {f : Zh2Stream → Zh2Stream} (hf : ∀ s, (f s).id = s.id) :
    (updateStream c id f).ids = c.ids := by
  unfold Zh2Table.ids updateStream
  rw [List.map_map]
  refine List.map_congr_left fun s _ => ?_
  simp only [Function.comp_apply]
  split
  · exact hf s
  · rfl

theorem length_updateStream {id : Nat} {f : Zh2Stream → Zh2Stream} :
    (updateStream c id f).streams.length = c.streams.length := by
  simp [updateStream]

theorem findStream_updateStream {id : Nat} {f : Zh2Stream → Zh2Stream}
    (hf : ∀ s, (f s).id = s.id) :
    findStream (updateStream c id f) id = (findStream c id).map f := by
  unfold findStream updateStream
  dsimp only
  induction c.streams with
  | nil => rfl
  | cons s l ih =>
    rw [List.map_cons]
    by_cases hs : s.id = id
    · rw [List.find?_cons_of_pos (by simp [hs, hf]), List.find?_cons_of_pos (by simp [hs])]
      simp [hs]
    · rw [List.find?_cons_of_neg (by simp [hs]), List.find?_cons_of_neg (by simp [hs])]
      exact ih

theorem updateStream_updateStream {id : Nat} {f f' : Zh2Stream → Zh2Stream}
    (hf : ∀ s, (f s).id = s.id) :
    updateStream (updateStream c id f) id f' = updateStream c id (f' ∘ f) := by
  unfold updateStream
  congr 2
  rw [List.map_map]
  refine List.map_congr_left fun s _ => ?_
  by_cases hs : s.id = id
  · simp [hs, hf]
  · simp [hs]

/-- A slot of the table holds the stream its id finds. -/
theorem findIndex_some {id i : Nat} (h : findIndex c id = some i) :
    ∃ st, c.streams[i]? = some st ∧ st.id = id := by
  obtain ⟨hi, hp, -⟩ := List.findIdx?_eq_some_iff_getElem.mp h
  exact ⟨c.streams[i], List.getElem?_eq_getElem hi, by simpa using hp⟩

theorem findIndex_none {id : Nat} (h : findIndex c id = none) :
    ∀ st ∈ c.streams, st.id ≠ id := by
  intro st hst
  simpa using List.findIdx?_eq_none_iff.mp h st hst

/-- Closing a stream that is found closes the slot that holds it. -/
theorem closeById_of_findStream {id : Nat} {st : Zh2Stream} (h : findStream c id = some st) :
    ∃ i, c.streams[i]? = some st ∧ closeById c id = streamClose c i := by
  unfold closeById
  cases hi : findIndex c id with
  | none => exact absurd (findStream_some h).2 (findIndex_none hi st (findStream_some h).1)
  | some i =>
    refine ⟨i, ?_, rfl⟩
    obtain ⟨hlt, hp, hfirst⟩ := List.findIdx?_eq_some_iff_getElem.mp hi
    obtain ⟨hjp, j, hj, rfl, hjfirst⟩ := List.find?_eq_some_iff_getElem.mp h
    have hij : i = j := by
      rcases Nat.lt_trichotomy i j with hlt | heq | hgt
      · exact absurd hp (by simpa using hjfirst i hlt)
      · exact heq
      · exact absurd hjp (by simpa using hfirst j hgt)
    subst hij
    exact List.getElem?_eq_getElem hlt

/-- `closeById` drops the stream with that id and nothing else. -/
theorem mem_closeById (hnd : c.ids.Nodup) {id : Nat} {st : Zh2Stream} :
    st ∈ (closeById c id).streams ↔ st ∈ c.streams ∧ st.id ≠ id := by
  unfold closeById
  split
  · rename_i i hi
    obtain ⟨s, hs, rfl⟩ := findIndex_some hi
    exact Lib.mem_swapRemove_iff hnd hs
  · rename_i hnone
    exact ⟨fun h => ⟨h, findIndex_none hnone st h⟩, fun h => h.1⟩

theorem nodup_closeById (hnd : c.ids.Nodup) (id : Nat) : (closeById c id).ids.Nodup := by
  unfold closeById
  split
  · rename_i i hi
    obtain ⟨s, hs, rfl⟩ := findIndex_some hi
    exact (Lib.swapRemove_keys hnd hs).1
  · exact hnd

/-- Closing a slot is closing its stream. -/
theorem streamClose_eq_closeById (hnd : c.ids.Nodup) {i : Nat} {st : Zh2Stream}
    (h : c.streams[i]? = some st) : streamClose c i = closeById c st.id := by
  obtain ⟨hi, hst⟩ := List.getElem?_eq_some_iff.mp h
  have hidx : findIndex c st.id = some i := by
    refine List.findIdx?_eq_some_iff_getElem.mpr ⟨hi, by simp [hst], fun j hji => ?_⟩
    have hne := List.pairwise_iff_getElem.mp hnd j i (by simpa [Zh2Table.ids] using by omega)
      (by simpa [Zh2Table.ids] using hi) hji
    simpa [Zh2Table.ids, hst] using hne
  unfold closeById
  rw [hidx]

theorem openCount_closeById {id : Nat} (h : c.openCount = c.streams.length) :
    (closeById c id).openCount = (closeById c id).streams.length := by
  unfold closeById
  split
  · rename_i i hi
    obtain ⟨s, hs, -⟩ := findIndex_some hi
    show c.openCount - 1 = (Lib.swapRemove c.streams i).length
    rw [Lib.length_swapRemove (List.getElem?_eq_some_iff.mp hs).1, h]
  · exact h

end Zcio
