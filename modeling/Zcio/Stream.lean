import Zcio.Bytes

/-!
# Zcio.Stream

The generic part of `stream.c`. A stream is what its vtable does to the state of its context;
a negative result is an `Except.error`. `Sink` and `Source` are streams that lose nothing: they
may take or give any part of what is asked for, at least one octet at a time.
-/

namespace Zcio

variable {σ : Type}

/-- The entries of `zcio_stream_vtable` that move octets. -/
structure StreamVt (σ : Type) where
  read : σ → Nat → Except Int Bytes × σ
  write : σ → Bytes → Except Int Nat × σ
  eof : σ → Bool := fun _ => false

/-- The loop of `zcio_read_full` with `got` octets read and up to `n` to go. -/
def readFrom (read : σ → Nat → Except Int Bytes × σ) : Nat → σ → Nat → Bytes →
    Except Int Bytes × σ
  | 0, s, _, got => (.ok got, s)
  | fuel + 1, s, n, got =>
    if n = 0 then (.ok got, s)
    else
      match read s n with
      | (.error e, s) => (if got = [] then .error e else .ok got, s)
      | (.ok [], s) => (.ok got, s)
      | (.ok b, s) => readFrom read fuel s (n - b.length) (got ++ b)

/-- `zcio_read_full`. Each round reads an octet at least, so that `n` rounds are enough. -/
def zcioReadFull (read : σ → Nat → Except Int Bytes × σ) (s : σ) (n : Nat) : Except Int Bytes × σ :=
  readFrom read n s n []

/-- The loop of `zcio_write_full` with `put` octets written and `src` to go. -/
def writeFrom (write : σ → Bytes → Except Int Nat × σ) : Nat → σ → Bytes → Nat →
    Except Int Nat × σ
  | 0, s, _, put => (.ok put, s)
  | fuel + 1, s, src, put =>
    if src = [] then (.ok put, s)
    else
      match write s src with
      | (.error e, s) => (if put = 0 then .error e else .ok put, s)
      | (.ok 0, s) => (.ok put, s)
      | (.ok r, s) => writeFrom write fuel s (src.drop r) (put + r)

/-- `zcio_write_full`. -/
def zcioWriteFull (write : σ → Bytes → Except Int Nat × σ) (s : σ) (src : Bytes) :
    Except Int Nat × σ :=
  writeFrom write src.length s src 0

/-! ### Streams that lose nothing

A sink that takes all it is given and a source that gives all it has, in pieces. -/

/-- A stream to write to: `written` grows by what a write takes, as long as there is room. -/
structure Sink (vt : StreamVt σ) where
  written : σ → Bytes
  room : σ → Nat → Prop
  write : ∀ {s : σ} {n : Nat} {src : Bytes}, room s n → src ≠ [] → src.length ≤ n →
    ∃ r s', vt.write s src = (.ok (r + 1), s') ∧ r + 1 ≤ src.length ∧
      written s' = written s ++ src.take (r + 1) ∧ room s' (n - (r + 1))

/-- A stream to read from: a read gets the beginning of `rest`. -/
structure Source (vt : StreamVt σ) where
  rest : σ → Bytes
  read : ∀ {s : σ} {n : Nat}, 0 < n →
    ∃ b s', vt.read s n = (.ok b, s') ∧ b.length ≤ n ∧ rest s = b ++ rest s' ∧
      (b = [] → rest s = [])

variable {vt : StreamVt σ}

theorem Sink.writeFrom_ok (S : Sink vt) {fuel n : Nat} {s : σ} {src : Bytes} (put : Nat)
    (hfuel : src.length ≤ fuel) (hroom : S.room s n) (hn : src.length ≤ n) :
    ∃ s', writeFrom vt.write fuel s src put = (.ok (put + src.length), s') ∧
      S.written s' = S.written s ++ src ∧ S.room s' (n - src.length) := by
  induction fuel generalizing n s src put with
  | zero =>
    have hnil : src = [] := List.length_eq_zero_iff.mp (Nat.le_zero.mp hfuel)
    subst hnil
    exact ⟨s, rfl, (List.append_nil _).symm, hroom⟩
  | succ fuel ih =>
    unfold writeFrom
    by_cases hnil : src = []
    · subst hnil
      exact ⟨s, rfl, (List.append_nil _).symm, hroom⟩
    · rw [if_neg hnil]
      obtain ⟨r, s', hw, hr, hwritten, hroom'⟩ := S.write hroom hnil hn
      rw [hw]
      have hlen : (src.drop (r + 1)).length = src.length - (r + 1) := List.length_drop
      obtain ⟨s'', heq, hwritten', hroom''⟩ := @ih _ _ (src.drop (r + 1)) (put + (r + 1)) (by omega) hroom'
        (by omega)
      refine ⟨s'', ?_, ?_, ?_⟩
      · refine heq.trans ?_
        rw [hlen]
        congr 2
        omega
      · rw [hwritten', hwritten, List.append_assoc, List.take_append_drop]
      · rwa [hlen, Nat.sub_sub, Nat.add_sub_cancel' hr] at hroom''

/-- **`zcio_write_full` on a sink** writes everything. -/
theorem Sink.zcioWriteFull_ok (S : Sink vt) {n : Nat} {s : σ} {src : Bytes}
    (hroom : S.room s n) (hn : src.length ≤ n) :
    ∃ s', zcioWriteFull vt.write s src = (.ok src.length, s') ∧
      S.written s' = S.written s ++ src ∧ S.room s' (n - src.length) := by
  have h := S.writeFrom_ok 0 le_rfl hroom hn
  rwa [Nat.zero_add] at h

theorem Source.readFrom_ok (S : Source vt) {fuel n : Nat} {s : σ} (got : Bytes) (hfuel : n ≤ fuel) :
    ∃ s', readFrom vt.read fuel s n got = (.ok (got ++ (S.rest s).take n), s') ∧
      S.rest s' = (S.rest s).drop n := by
  induction fuel generalizing n s got with
  | zero =>
    cases Nat.le_zero.mp hfuel
    exact ⟨s, by rw [List.take_zero, List.append_nil]; rfl, rfl⟩
  | succ fuel ih =>
    unfold readFrom
    by_cases hn : n = 0
    · subst hn
      exact ⟨s, by rw [List.take_zero, List.append_nil]; rfl, rfl⟩
    · rw [if_neg hn]
      obtain ⟨b, s', hr, hle, hrest, hnil⟩ := S.read (s := s) (Nat.pos_of_ne_zero hn)
      rw [hr]
      cases b with
      | nil =>
        -- the stream is at its end
        have hend := hnil rfl
        rw [hend] at hrest ⊢
        exact ⟨s', by simp, by simpa using hrest.symm⟩
      | cons c b =>
        dsimp only
        rw [List.length_cons] at hle ⊢
        obtain ⟨s'', heq, hrest'⟩ := ih (s := s') (n := n - (b.length + 1)) (got ++ (c :: b))
          (by omega)
        refine ⟨s'', ?_, ?_⟩
        · rw [heq, hrest, List.take_append, List.take_of_length_le (l := c :: b) (by simpa using hle),
            List.append_assoc, List.length_cons]
        · rw [hrest', hrest, List.drop_append, List.drop_of_length_le (l := c :: b) (by simpa using hle),
            List.nil_append, List.length_cons]

/-- **`zcio_read_full` on a source** gets what there is, up to `n` octets. -/
theorem Source.zcioReadFull_ok (S : Source vt) (s : σ) (n : Nat) :
    ∃ s', zcioReadFull vt.read s n = (.ok ((S.rest s).take n), s') ∧
      S.rest s' = (S.rest s).drop n :=
  S.readFrom_ok [] le_rfl

/-! ### The memory stream -/

/-- The context of `zcio_memory_stream`. -/
structure MemBuf where
  data : Bytes
  rpos : Nat := 0
  wpos : Nat := 0
  deriving Repr, DecidableEq

/-- `mb_read`. -/
def mbRead (m : MemBuf) (n : Nat) : Except Int Bytes × MemBuf :=
  let k := min n (m.data.length - m.rpos)
  (.ok ((m.data.drop m.rpos).take k), { m with rpos := m.rpos + k })

/-- `mb_write`. -/
def mbWrite (m : MemBuf) (src : Bytes) : Except Int Nat × MemBuf :=
  let k := min src.length (m.data.length - m.wpos)
  (.ok k, { m with
    data := m.data.take m.wpos ++ src.take k ++ m.data.drop (m.wpos + k)
    wpos := m.wpos + k })

/-- `MEM_VT`. -/
def memVt : StreamVt MemBuf where
  read := mbRead
  write := mbWrite

/-- What was written to a memory stream with room for it. -/
def memSink : Sink memVt where
  written m := m.data.take m.wpos
  room m n := m.wpos + n ≤ m.data.length
  write := by
    intro m n src hroom hne hn
    obtain ⟨r, hr⟩ := Nat.exists_eq_succ_of_ne_zero (List.length_pos_iff.mpr hne).ne'
    have hfront : (m.data.take m.wpos ++ src).length = m.wpos + (r + 1) := by
      rw [List.length_append, List.length_take_of_le (by omega), hr]
    refine ⟨r, ⟨m.data.take m.wpos ++ src ++ m.data.drop (m.wpos + (r + 1)), m.rpos,
      m.wpos + (r + 1)⟩, ?_, hr.ge, ?_, ?_⟩
    · simp only [memVt, mbWrite]
      rw [min_eq_left (by omega), List.take_length, hr]
    · rw [List.take_of_length_le (l := src) hr.le]
      exact List.take_left' hfront
    · simp only [List.length_append, List.length_take, List.length_drop]
      omega

/-- What is left of a memory stream to read. -/
def memSource : Source memVt where
  rest m := m.data.drop m.rpos
  read := by
    intro m n hn
    refine ⟨_, _, rfl, ?_, ?_, ?_⟩
    · rw [List.length_take]
      omega
    · dsimp only
      rw [← List.drop_drop, List.take_append_drop]
    · intro hnil
      have := congrArg List.length hnil
      simp only [List.length_take, List.length_drop, List.length_nil] at this
      refine List.drop_eq_nil_of_le ?_
      omega

end Zcio
