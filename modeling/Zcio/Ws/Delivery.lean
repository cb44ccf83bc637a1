import Zcio.Ws.Receive

/-!
# Zcio.Ws.Delivery

What a caller of `zcio_ws_recv` gets over a whole session is what the reference makes of the
inbound octets, however they are cut into reads (`ws_recv_refines`).
-/

namespace Zcio

open Rfc6455 (Event End messages pongs messages_append)

/-- What a call returns; nothing while it blocks. -/
abbrev WsResult := Option (Except WsErr WsMsg)

/-- Calls of `zcio_ws_recv` with these timeouts, up to one that blocks. -/
def recvCalls : Ws → List Int → List WsResult × Ws
  | ws, [] => ([], ws)
  | ws, t :: ts =>
    let r := zcioWsRecv ws t
    if r.1.isNone then ([r.1], r.2)
    else
      let q := recvCalls r.2 ts
      (r.1 :: q.1, q.2)

/-- The messages that were delivered. -/
def delivered (rs : List WsResult) : List WsMsg := rs.filterMap fun r => r.bind Except.toOption

/-- The results with which a session is over. -/
def WsResult.IsEnd (r : WsResult) : Prop :=
  r = some (.error .eof) ∨ ∃ f, r = some (.error (.fail f))

/-- The result with which a session gets over, and how it does: the peer closed it, or broke a
rule, or the transport came to its end. -/
inductive EndsWith (script : List WsRead) : End → WsResult → Prop
  | closed : EndsWith script .closed (some (.error .eof))
  | violation (f : Fail) : f.code = .protocol → EndsWith script .violation (some (.error (.fail f)))
  | lost : .eof ∈ script → EndsWith script .waiting (some (.error .eof))

/-- What calls on a session in use that has delivered `ms` end with: it is still in use, or was
over from some result on. -/
inductive CallsEnd (script : List WsRead) (ms : List WsMsg) : List WsResult → Ws → Prop
  | live (rs : List WsResult) (ws : Ws) (es : List Event) : WsLive ws es →
      messages es = ms ++ delivered rs → (∀ r ∈ rs, ¬r.IsEnd) →
      (∀ r, rs.getLast? = some r → (∀ m, r ≠ some (.ok m)) →
        ws.frame = .more ∧ (r = none → ws.io.reads = [])) → CallsEnd script ms rs ws
  | «over» (rs : List WsResult) (r : WsResult) (n : Nat) (ws : Ws) (es : List Event) (e : End) :
      Over ws es e → messages es = ms ++ delivered rs → (∀ r ∈ rs, ¬r.IsEnd) →
      EndsWith script e r →
      CallsEnd script ms (rs ++ r :: List.replicate n (some (.error .eof))) ws

variable {ws : Ws} {es : List Event} {script : List WsRead} {ms : List WsMsg}

/-! ### The calls

The results of a list of calls of recv, against the events of the reference. -/

theorem delivered_cons (r : WsResult) (rs : List WsResult) :
    delivered (r :: rs) = (r.bind Except.toOption).toList ++ delivered rs := by
  unfold delivered
  cases h : r.bind Except.toOption with
  | none => exact List.filterMap_cons_none h
  | some m => exact List.filterMap_cons_some h

theorem Over.recvCalls {e : End} (h : Over ws es e) (ts : List Int) :
    recvCalls ws ts = (List.replicate ts.length (some (.error .eof)), ws) := by
  induction ts with
  | nil => rfl
  | cons t ts ih =>
    rw [Zcio.recvCalls, h.recv t]
    dsimp only [Option.isNone]
    rw [if_neg Bool.false_ne_true, ih]
    rfl

/-- A result in front of others. -/
theorem CallsEnd.cons {rs : List WsResult} {ms' : List WsMsg} (h : CallsEnd script ms' rs ws)
    {r : WsResult} (hr : ¬r.IsEnd) (hms : ms' = ms ++ (r.bind Except.toOption).toList)
    (hlast : rs = [] → (∀ m, r ≠ some (.ok m)) → ws.frame = .more ∧ (r = none → ws.io.reads = [])) :
    CallsEnd script ms (r :: rs) ws := by
  have hmem {rs : List WsResult} (hall : ∀ r ∈ rs, ¬r.IsEnd) : ∀ x ∈ r :: rs, ¬x.IsEnd :=
    fun x hx => (List.mem_cons.mp hx).elim (fun heq => heq ▸ hr) (hall x)
  cases h with
  | live _ _ es hlive hes hall hends =>
    refine .live _ ws es hlive ?_ (hmem hall) ?_
    · rw [hes, hms, delivered_cons, List.append_assoc]
    · intro x hx hno
      cases rs with
      | nil =>
        cases hx
        exact hlast rfl hno
      | cons y rs =>
        rw [List.getLast?_cons_cons] at hx
        exact hends x hx hno
  | «over» rs x n _ es e hover hes hall hend =>
    refine .over (r :: rs) x n ws es e hover ?_ (hmem hall) hend
    rw [hes, hms, delivered_cons, List.append_assoc]

theorem not_isEnd_timeout : ¬WsResult.IsEnd (some (.error .timeout)) := by
  rintro (h | ⟨f, h⟩)
  · cases h
  · cases h

/-- **Calls of `zcio_ws_recv`** on a session in use. -/
theorem WsLive.recvCalls (h : WsLive ws es) (ts : List Int) (hscript : ws.io.reads <:+ script) :
    CallsEnd script (messages es) (recvCalls ws ts).1 (recvCalls ws ts).2 := by
  have hnil : ∀ ms : List WsMsg, ms = ms ++ delivered [] := fun ms => (List.append_nil ms).symm
  induction ts generalizing ws es with
  | nil =>
    refine .live [] ws es h (hnil _) (fun r hr => ?_) (fun r hr => ?_)
    · cases hr
    · cases hr
  | cons t ts ih =>
    have hrecv := (h.recv t).mono hscript id
    have hreads := (reads_zcioWsRecv ws t).reads.trans hscript
    rw [Zcio.recvCalls]
    dsimp only
    generalize zcioWsRecv ws t = q at hrecv hreads
    obtain ⟨(r : WsResult), ws₁⟩ := q
    dsimp only at hrecv hreads ⊢
    have hgoes (hnot : ¬r.IsEnd) {es₁ : List Event} (hlive : WsLive ws₁ es₁)
        (hes : messages es₁ = messages es ++ (r.bind Except.toOption).toList)
        (hmore : (∀ m, r ≠ some (.ok m)) → ws₁.frame = .more ∧ r ≠ none) :
        CallsEnd script (messages es) (r :: (Zcio.recvCalls ws₁ ts).1)
          (Zcio.recvCalls ws₁ ts).2 := by
      refine (ih hlive hreads).cons hnot hes fun hrs hno => ?_
      -- with no result there was no call
      have hts : ts = [] := by
        cases ts with
        | nil => rfl
        | cons t ts =>
          rw [Zcio.recvCalls] at hrs
          dsimp only at hrs
          split at hrs
          · cases hrs
          · cases hrs
      subst hts
      exact ⟨(hmore hno).1, fun hnone => absurd hnone (hmore hno).2⟩
    have hover {es₁ : List Event} {e : End} (ho : Over ws₁ es₁ e) (hes : messages es₁ = messages es)
        (hend : EndsWith script e r) :
        CallsEnd script (messages es) (r :: (Zcio.recvCalls ws₁ ts).1)
          (Zcio.recvCalls ws₁ ts).2 := by
      rw [ho.recvCalls ts]
      refine .over [] r _ _ es₁ e ho (hes.trans (hnil _)) (fun x hx => ?_) hend
      cases hx
    cases hrecv with
    | message _ es₁ m hlive hes =>
      refine hgoes ?_ hlive hes fun hno => absurd rfl (hno m)
      rintro (hr | ⟨f, hr⟩)
      · cases hr
      · cases hr
    | blocks _ es₁ hlive hes hmore hdone =>
      refine .live [none] ws₁ es₁ hlive (hes.trans (hnil _)) (fun r hr => ?_)
        fun r hr _ => ⟨hmore, fun _ => hdone⟩
      rw [List.mem_singleton.mp hr]
      rintro (hr | ⟨f, hr⟩)
      · cases hr
      · cases hr
    | timeout _ es₁ hlive hes hmore ht =>
      exact hgoes not_isEnd_timeout hlive (hes.trans (List.append_nil _).symm)
        fun _ => ⟨hmore, Option.some_ne_none _⟩
    | error _ es₁ e hlive hes hmore hmem =>
      refine hgoes ?_ hlive (hes.trans (List.append_nil _).symm)
        fun _ => ⟨hmore, Option.some_ne_none _⟩
      rintro (hr | ⟨f, hr⟩)
      · cases hr
      · cases hr
    | lost _ es₁ ho hes hmem => exact hover ho hes (.lost hmem)
    | closed _ es₁ ho hes => exact hover ho hes .closed
    | violation _ es₁ f ho hes hf => exact hover ho hes (.violation f hf)

theorem reads_recvCalls (ws : Ws) (ts : List Int) : ws.Reads (recvCalls ws ts).2 := by
  induction ts generalizing ws with
  | nil => exact .refl ws
  | cons t ts ih =>
    rw [recvCalls]
    dsimp only
    split
    · exact reads_zcioWsRecv ws t
    · exact (reads_zcioWsRecv ws t).trans (ih _)

/-! ### The reference -/

/-- All that the peer sends. -/
def Ws.inbound (ws : Ws) : Bytes := ws.io.got ++ wsOctets ws.io.reads

/-- What the reference makes of `s`. -/
def Ws.reference (ws : Ws) (s : Bytes) : List Event × End :=
  Rfc6455.run ws.isServer ws.maxMsgBytes none s

/-- **The results `rs` of calls on `ws`**, which took it to `ws'`, are those of the reference. -/
structure RecvRefines (ws : Ws) (rs : List WsResult) (ws' : Ws) : Prop where
  /-- At any time the messages and the pongs are the first ones of the reference. -/
  delivered : delivered rs <+: messages (ws.reference ws.inbound).1
  pongs : ws'.pongsSent <+: Rfc6455.pongs (ws.reference ws.inbound).1
  /-- A call that delivers nothing has dealt with all that was read. -/
  settled : ∀ r, rs.getLast? = some r → (∀ m, r ≠ some (.ok m)) →
    Zcio.delivered rs = messages (ws.reference ws'.io.got).1 ∧
      ws'.pongsSent = Rfc6455.pongs (ws.reference ws'.io.got).1 ∧
      ws'.outcome = (ws.reference ws'.io.got).2
  /-- A call that blocks has read all. -/
  blocked : rs.getLast? = some none → ws'.io.got = ws.inbound
  /-- What comes behind a close frame or a violation makes no difference. -/
  ended : ws'.outcome ≠ .waiting →
    Zcio.delivered rs = messages (ws.reference ws.inbound).1 ∧
      ws'.pongsSent = Rfc6455.pongs (ws.reference ws.inbound).1 ∧
      ws'.outcome = (ws.reference ws.inbound).2
  /-- The results tell how the session ended, and nothing is delivered after that. -/
  results : (∀ r ∈ rs, ¬r.IsEnd) ∧ ws'.outcome = .waiting ∨
    ∃ (a : List WsResult) (r : WsResult) (n : Nat),
      rs = a ++ r :: List.replicate n (some (.error .eof)) ∧
      (∀ x ∈ a, ¬x.IsEnd) ∧ EndsWith ws.io.reads ws'.outcome r
  size : ∀ m ∈ Zcio.delivered rs, m.data.length ≤ ws.maxMsgBytes
  /-- The wire holds the frames that were sent. -/
  wire : ws'.io.wire = (ws'.io.sent.map fun s => s.frame.encode).flatten

theorem WsLive.outcome (h : WsLive ws es) : ws.outcome = .waiting := by
  unfold Ws.outcome
  rw [h.opened.2.1, h.opened.2.2]
  rfl

theorem delivered_ended (rs : List WsResult) {e : End} {r : WsResult} (hr : EndsWith script e r)
    (n : Nat) : delivered (rs ++ r :: List.replicate n (some (.error .eof))) = delivered rs := by
  have hnone : ∀ n, delivered (List.replicate n (some (.error .eof))) = [] := by
    intro n
    induction n with
    | zero => rfl
    | succ n ih =>
      rw [List.replicate_succ, delivered_cons, ih]
      rfl
  have happend : delivered (rs ++ r :: List.replicate n (some (.error .eof))) =
      delivered rs ++ delivered (r :: List.replicate n (some (.error .eof))) :=
    List.filterMap_append ..
  rw [happend, delivered_cons, hnone]
  cases hr with
  | closed => exact List.append_nil _
  | violation f hf => exact List.append_nil _
  | lost hmem => exact List.append_nil _

/-- The results of calls refine the reference. -/
theorem CallsEnd.refines {ws' : Ws} {rs : List WsResult} (h : CallsEnd ws.io.reads [] rs ws')
    (hreads : ws.Reads ws') : RecvRefines ws rs ws' := by
  have hgot : ws'.io.got ++ wsOctets ws'.io.reads = ws.inbound := hreads.got
  have href : ∀ s, Rfc6455.run ws'.isServer ws'.maxMsgBytes none s = ws.reference s := fun s => by
    rw [hreads.isServer, hreads.maxMsgBytes, Ws.reference]
  have hsize {rs : List WsResult} (hpre : Zcio.delivered rs <+:
      messages (ws.reference ws.inbound).1) :
      ∀ m ∈ Zcio.delivered rs, m.data.length ≤ ws.maxMsgBytes := fun m hm =>
    Rfc6455.run_size _ _ none _ (Nat.zero_le _) m (Rfc6455.mem_messages.mp (hpre.subset hm))
  cases h with
  | live _ _ es hlive hes hall hlast =>
    rw [List.nil_append] at hes
    have hrun := hlive.run (wsOctets ws'.io.reads)
    rw [hgot, href] at hrun
    have hpre : Zcio.delivered rs <+: messages (ws.reference ws.inbound).1 := by
      rw [hrun, messages_append, hes]
      exact List.prefix_append ..
    refine ⟨hpre, ?_, fun r hr hno => ?_, fun hr => ?_, fun hno => absurd hlive.outcome hno,
      .inl ⟨hall, hlive.outcome⟩, hsize hpre, hlive.wire⟩
    · rw [hrun, Rfc6455.pongs_append, hlive.pongs]
      exact List.prefix_append ..
    · have hwaits := hlive.waits (hlast r hr hno).1
      rw [href] at hwaits
      rw [hwaits, hlive.outcome]
      exact ⟨hes.symm, hlive.pongs, rfl⟩
    · have hdone := (hlast none hr fun m hm => by cases hm).2 rfl
      rw [← hgot, hdone]
      exact (List.append_nil _).symm
  | «over» rs r n _ es e hover hes hall hend =>
    rw [List.nil_append] at hes
    have hrun := hover.run
    rw [href] at hrun
    obtain ⟨es', heq, hstop⟩ := Rfc6455.run_append ws'.isServer ws'.maxMsgBytes none ws'.io.got
      (wsOctets ws'.io.reads)
    rw [hgot, href, href, hrun] at heq hstop
    have hdelivered := delivered_ended rs hend n
    have hpre : Zcio.delivered (rs ++ r :: List.replicate n (some (.error .eof))) <+:
        messages (ws.reference ws.inbound).1 := by
      rw [heq, messages_append, hdelivered, hes]
      exact List.prefix_append ..
    refine ⟨hpre, ?_, fun x hx hno => ?_, fun hx => ?_, fun hno => ?_, ?_, hsize hpre, hover.wire⟩
    · rw [heq, Rfc6455.pongs_append, hover.pongs]
      exact List.prefix_append ..
    · rw [hrun, hdelivered, hover.outcome]
      exact ⟨hes.symm, hover.pongs, rfl⟩
    · -- the last call has returned
      exfalso
      rw [List.getLast?_append] at hx
      cases n with
      | zero =>
        cases hx
        cases hend
      | succ n =>
        rw [List.replicate_succ', ← List.cons_append, List.getLast?_concat] at hx
        cases hx
    · rw [hover.outcome] at hno ⊢
      obtain ⟨rfl, hend'⟩ := hstop hno
      rw [heq, hdelivered, List.append_nil]
      exact ⟨hes.symm, hover.pongs, hend'.symm⟩
    · refine .inr ⟨rs, r, n, rfl, hall, ?_⟩
      rw [hover.outcome]
      exact hend

/-! ### A caller that waits

With calls that wait for ever all messages are delivered. -/

/-- The transport brings octets only, however late. -/
def Ws.Steady (ws : Ws) : Prop := ∀ rd ∈ ws.io.reads, rd ≠ .eof ∧ ∀ e, rd ≠ .error e

/-- The last result of a caller that waits. -/
def FinalResult (e : End) (r : WsResult) : Prop := e = .waiting ∧ r = none ∨ EndsWith [] e r

theorem Ws.Reads.reference {ws' : Ws} (h : ws.Reads ws') :
    ws'.reference ws'.inbound = ws.reference ws.inbound := by
  unfold Ws.reference Ws.inbound
  rw [h.isServer, h.maxMsgBytes, h.got]

theorem WsLive.reference (h : WsLive ws es) :
    ∃ es', (ws.reference ws.inbound).1 = es ++ es' := by
  unfold Ws.reference Ws.inbound
  rw [h.run]
  exact ⟨_, rfl⟩

theorem Over.reference {e : End} (h : Over ws es e) (he : e ≠ .waiting) :
    ws.reference ws.inbound = (es, e) := by
  obtain ⟨es', heq, hstop⟩ := Rfc6455.run_append ws.isServer ws.maxMsgBytes none ws.io.got
    (wsOctets ws.io.reads)
  rw [h.run] at heq hstop
  obtain ⟨rfl, hend⟩ := hstop he
  rw [List.append_nil] at heq
  exact Prod.ext heq hend

/-- **Calls that wait** on a steady transport deliver all messages and then tell the end. -/
theorem WsLive.recvCalls_steady (h : WsLive ws es) (hsteady : ws.Steady) (ts : List Int)
    (hwait : ∀ t ∈ ts, t < 0)
    (hlen : (messages (ws.reference ws.inbound).1).length + 1 = (messages es).length + ts.length) :
    ∃ ms r, (Zcio.recvCalls ws ts).1 = ms.map (fun m => some (.ok m)) ++ [r] ∧
      messages (ws.reference ws.inbound).1 = messages es ++ ms ∧
      FinalResult (ws.reference ws.inbound).2 r ∧
      (Zcio.recvCalls ws ts).2.pongsSent = Rfc6455.pongs (ws.reference ws.inbound).1 ∧
      (Zcio.recvCalls ws ts).2.outcome = (ws.reference ws.inbound).2 := by
  -- one call of recv an entry of the list
  induction ts generalizing ws es with
  -- the messages of the past are no more than the messages of all
  | nil =>
    obtain ⟨es', heq⟩ := h.reference
    rw [heq, messages_append, List.length_append, List.length_nil] at hlen
    omega
  | cons t ts ih =>
    have hrecv := h.recv t
    have hreads := reads_zcioWsRecv ws t
    rw [List.length_cons] at hlen
    rw [Zcio.recvCalls]
    dsimp only
    generalize zcioWsRecv ws t = q at hrecv hreads
    obtain ⟨(r : WsResult), ws₁⟩ := q
    dsimp only at hrecv hreads ⊢
    rw [← hreads.reference] at hlen ⊢
    -- a call behind which the session is over is the last one of the list
    have hover {es₁ : List Event} {e : End} (ho : Over ws₁ es₁ e) (hes : messages es₁ = messages es)
        (he : e ≠ .waiting) (hend : EndsWith [] e r) :
        ∃ ms r', (r :: (Zcio.recvCalls ws₁ ts).1) = ms.map (fun m => some (.ok m)) ++ [r'] ∧
          messages (ws₁.reference ws₁.inbound).1 = messages es ++ ms ∧
          FinalResult (ws₁.reference ws₁.inbound).2 r' ∧
          (Zcio.recvCalls ws₁ ts).2.pongsSent = Rfc6455.pongs (ws₁.reference ws₁.inbound).1 ∧
          (Zcio.recvCalls ws₁ ts).2.outcome = (ws₁.reference ws₁.inbound).2 := by
      have href := ho.reference he
      rw [href] at hlen ⊢
      have hts : ts = [] := by
        rw [hes] at hlen
        exact List.eq_nil_of_length_eq_zero (by omega)
      subst hts
      exact ⟨[], r, rfl, hes.trans (List.append_nil _).symm, .inr hend, ho.pongs, ho.outcome⟩
    -- the ways a call of recv ends
    cases hrecv with
    | message _ es₁ m hlive hes =>
      have hsteady₁ : ws₁.Steady := fun rd hrd => hsteady rd (hreads.reads.subset hrd)
      have hlen₁ : (messages (ws₁.reference ws₁.inbound).1).length + 1 =
          (messages es₁).length + ts.length := by
        rw [hlen, hes, List.length_append, List.length_singleton]
        omega
      obtain ⟨ms, r, hrs, hms, hfinal, hpongs, hend⟩ :=
        ih hlive hsteady₁ (fun t ht => hwait t (List.mem_cons_of_mem _ ht)) hlen₁
      refine ⟨m :: ms, r, ?_, ?_, hfinal, hpongs, hend⟩
      · have hcons := congrArg (List.cons (some (Except.ok m) : WsResult)) hrs
        exact hcons
      · rw [hms, hes, List.append_assoc]
        rfl
    -- all octets are read, and more may come
    | blocks _ es₁ hlive hes hmore hdone =>
      have href : ws₁.reference ws₁.inbound = (es₁, .waiting) := by
        unfold Ws.inbound
        rw [hdone]
        exact (congrArg _ (List.append_nil _)).trans (hlive.waits hmore)
      rw [href]
      exact ⟨[], none, rfl, hes.trans (List.append_nil _).symm, .inl ⟨rfl, rfl⟩, hlive.pongs,
        hlive.outcome⟩
    -- no call sets a timeout, and no read fails
    | timeout _ es₁ hlive hes hmore ht =>
      exact absurd (hwait t List.mem_cons_self) (not_lt.mpr ht)
    | error _ es₁ e hlive hes hmore hmem => exact absurd rfl ((hsteady _ hmem).2 e)
    | lost _ es₁ ho hes hmem => exact absurd rfl (hsteady _ hmem).1
    -- the peer has closed, or has broken the protocol
    | closed _ es₁ ho hes => exact hover ho hes (fun h => by cases h) .closed
    | violation _ es₁ f ho hes hf => exact hover ho hes (fun h => by cases h) (.violation f hf)

/-- **`zcio_ws_recv` refines the reference**: on a session as it is opened, with any inbound
octets in any reads, calls with any timeouts deliver, answer and end as the reference does; a
caller that waits gets all of it; and a pump that asks for more holds less than a longest
frame. -/
theorem ws_recv_refines (ws : Ws) (hfresh : ws.Fresh) (hio : ws.io.Healthy) (ts : List Int) :
    RecvRefines ws (recvCalls ws ts).1 (recvCalls ws ts).2 ∧
    (ws.Steady → (∀ t ∈ ts, t < 0) →
      ts.length = (messages (ws.reference ws.inbound).1).length + 1 →
      ∃ r, (recvCalls ws ts).1 =
          (messages (ws.reference ws.inbound).1).map (fun m => some (.ok m)) ++ [r] ∧
        FinalResult (ws.reference ws.inbound).2 r ∧
        (recvCalls ws ts).2.pongsSent = Rfc6455.pongs (ws.reference ws.inbound).1 ∧
        (recvCalls ws ts).2.outcome = (ws.reference ws.inbound).2) ∧
    ∀ ws₁ : Ws, (wsPump ws₁).1 = .more →
      (wsPump ws₁).2.inp.length < max ws₁.maxMsgBytes 125 + 14 := by
  have hlive := hfresh.live hio
  refine ⟨?_, fun hsteady hwait hlen => ?_, fun ws₁ hmore => ?_⟩
  · exact (hlive.recvCalls ts List.suffix_rfl).refines (reads_recvCalls ws ts)
  · obtain ⟨ms, r, hrs, hms, hfinal, hpongs, hend⟩ :=
      hlive.recvCalls_steady hsteady ts hwait (by rw [hlen]; exact (Nat.zero_add _).symm)
    have hms' : messages (ws.reference ws.inbound).1 = ms := hms
    exact ⟨r, hms' ▸ hrs, hfinal, hpongs, hend⟩
  · have hlt := Rfc6455.frame_more_length (wsPump_more ws₁ hmore)
    rwa [(keeps_wsPump ws₁).maxMsgBytes] at hlt

/-- A client that is sent a text in two fragments, with a ping between them, in three reads. -/
def fragmentedSession : Ws :=
  { isServer := false
    io := { reads := [.octets ⟨[0x01, 1, 0x48, 0x89], by decide⟩, .timeout,
      .octets ⟨[1, 0x78, 0x80], by decide⟩, .octets ⟨[1, 0x69], by decide⟩] } }

theorem ws_recv_refines_fragmented :
    messages (fragmentedSession.reference fragmentedSession.inbound).1 = [⟨.text, [0x48, 0x69]⟩] ∧
      (recvCalls fragmentedSession [-1, -1]).1 = [some (.ok ⟨.text, [0x48, 0x69]⟩), none] ∧
      Rfc6455.pongs (fragmentedSession.reference fragmentedSession.inbound).1 = [[0x78]] := by
  have hfresh : fragmentedSession.Fresh := ⟨⟨rfl, rfl⟩, ⟨rfl, rfl, rfl⟩, ⟨rfl, rfl⟩, rfl⟩
  have hio : fragmentedSession.io.Healthy := ⟨fun w hw => (by cases hw), fun hk => (by cases hk)⟩
  have hsteady : fragmentedSession.Steady := by
    intro rd hrd
    cases rd with
    | octets b => exact ⟨fun h => (by cases h), fun e h => (by cases h)⟩
    | timeout => exact ⟨fun h => (by cases h), fun e h => (by cases h)⟩
    | eof => simp [fragmentedSession] at hrd
    | error e => simp [fragmentedSession] at hrd
  obtain ⟨hrefines, hall, -⟩ := ws_recv_refines fragmentedSession hfresh hio [-1, -1]
  have hrs : (recvCalls fragmentedSession [-1, -1]).1 =
      [some (.ok ⟨.text, [0x48, 0x69]⟩), none] := by decide +kernel
  have hpongs : (recvCalls fragmentedSession [-1, -1]).2.pongsSent = [[0x78]] := by decide +kernel
  rw [hrs] at hrefines hall
  have hgot := hrefines.blocked rfl
  have hms := (hrefines.settled none rfl fun m h => by cases h).1
  rw [hgot] at hms
  obtain ⟨-, -, -, hpongs', -⟩ := hall hsteady (by decide) (by rw [← hms]; rfl)
  exact ⟨hms.symm, hrs, hpongs' ▸ hpongs⟩

end Zcio
