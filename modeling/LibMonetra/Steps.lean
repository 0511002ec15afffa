import LibMonetra.ConnEvent
import LibMonetra.Rep
import LibMonetra.Foundation.Transition

/-!
# The library refines the life of its transactions

Each function of the library changes the transaction store by a sequence of the steps of
`StoreStep`. The facts about the rest of the connection that the callers need are stated beside
each sequence.
-/

namespace LibMonetra

variable {lib : Mstdlib}

/-- A sequence of steps of the library. -/
abbrev InternalSteps (lib : Mstdlib) : TransStore → TransStore → Prop :=
  Relation.ReflTransGen (InternalStep lib)

/-- A sequence of steps of the library and its callers. -/
abbrev StoreSteps (lib : Mstdlib) : TransStore → TransStore → Prop :=
  Relation.ReflTransGen (StoreStep lib)

/-- The steps of the library are steps. -/
theorem InternalSteps.storeSteps {s s' : TransStore} (h : InternalSteps lib s s') :
    StoreSteps lib s s' :=
  h.lift id fun s s' hstep => StoreStep.internal s s' hstep

/-- A sequence of steps of the library keeps the representation invariant. -/
theorem InternalSteps.rep {s s' : TransStore} (h : InternalSteps lib s s') (hrep : Rep s) : Rep s' :=
  Foundation.invariant_of_steps (fun _ _ hstep hs => hstep.rep hs) h hrep

/-- No undelivered event says that a transaction found no connection. -/
def TransStore.quiet (s : TransStore) : Prop := ∀ e ∈ s.events, e.type ≠ .transNoconnect

section Send

/-- The connection after a turn of the loop of `LM_trans_send_messages` that submits `p`. -/
def Conn.submitFirst (lib : Mstdlib) (c : Conn) (p : Ptr) (t : Trans) : Conn := { c with
  toTransStore := c.toTransStore.submit p t (t.timeoutS ≠ 0) (t.timeoutS * 1000 % 2 ^ 64) (t.request lib)
  outbuf := c.outbuf ++ t.request lib }

/-- One turn of the loop of `LM_trans_send_messages` is one submission. -/
theorem sendMessagesLoop_cons {c : Conn} {p : Ptr} {rest : List Ptr} {t : Trans}
    (hready : c.transReady = p :: rest) (ht : c.heap p = some t) (htstatus : t.status = .ready)
    (hstatus : c.status = .connected) :
    sendMessagesLoop lib (p :: rest) c = sendMessagesLoop lib rest (c.submitFirst lib p t) := by
  rw [sendMessagesLoop]
  congr 1
  by_cases hto : t.timeoutS = 0 <;>
    simp [Conn.submitFirst, armTimeoutTimer, transStructure, markPending, ht, hto, TransStore.submit,
      TransStore.move, TransStore.queueTake, TransStore.setTrans, TransStore.log, htstatus, hstatus,
      Trans.submitted, hready, Trans.request]

/-- The turn takes the first `READY` transaction by a step of the library, and what the next turn needs
still holds. -/
theorem sendMessagesLoop_turn (lib : Mstdlib) {c : Conn} {p : Ptr} {rest : List Ptr}
    (hready : c.transReady = p :: rest) (hrep : Rep c.toTransStore)
    (hstatus : c.status = .connected) (hquiet : c.toTransStore.quiet) :
    ∃ t, c.heap p = some t ∧
      sendMessagesLoop lib (p :: rest) c = sendMessagesLoop lib rest (c.submitFirst lib p t) ∧
      InternalStep lib c.toTransStore (c.submitFirst lib p t).toTransStore ∧
      (c.submitFirst lib p t).transReady = rest ∧ (c.submitFirst lib p t).toTransStore.quiet := by
  have hmem : p ∈ c.connQueue .ready := by
    change p ∈ c.transReady
    simp [hready]
  obtain ⟨t, ht, htstatus⟩ := hrep.queued .ready p hmem
  refine ⟨t, ht, sendMessagesLoop_cons hready ht htstatus hstatus,
    .submit _ p t rest _ _ hready ht htstatus hquiet rfl, ?_, fun e he => ?_⟩
  · have hqueue := TransStore.connQueue_submit c.toTransStore p t .ready (t.timeoutS ≠ 0)
      (t.timeoutS * 1000 % 2 ^ 64) (t.request lib)
    simpa [TransStore.connQueue, Conn.submitFirst, htstatus, hready] using hqueue
  · exact hquiet e (by simpa [Conn.submitFirst] using he)

/-- The loop submits every `READY` transaction, and changes the store and `outbuf` only. -/
theorem sendMessagesLoop_spec (lib : Mstdlib) (ready : List Ptr) (c : Conn) (hready : c.transReady = ready)
    (hrep : Rep c.toTransStore)
    (hstatus : c.status = .connected) (hquiet : c.toTransStore.quiet) :
    ∃ s outbuf, sendMessagesLoop lib ready c = { c with toTransStore := s, outbuf := outbuf } ∧
      InternalSteps lib c.toTransStore s ∧ s.events = c.events ∧
      s.transDelayRm = c.transDelayRm ∧ s.pingtxn = c.pingtxn ∧ s.transReady = [] := by
  induction ready generalizing c with
  | nil => exact ⟨c.toTransStore, c.outbuf, rfl, .refl, rfl, rfl, rfl, hready⟩
  | cons p rest ih =>
    obtain ⟨t, ht, hturn, hstep, hrest, hnext⟩ := sendMessagesLoop_turn lib hready hrep hstatus hquiet
    obtain ⟨s, outbuf, hres, hsteps, hevents, hdelay, hping, hempty⟩ :=
      ih (c.submitFirst lib p t) hrest (hstep.rep hrep) hstatus hnext
    refine ⟨s, outbuf, hturn.trans hres, .head hstep hsteps, ?_, ?_, ?_, hempty⟩
    · simpa [Conn.submitFirst] using hevents
    · simpa [Conn.submitFirst] using hdelay
    · simpa [Conn.submitFirst] using hping

/-- `LM_trans_send_messages` up to its request for a connection. -/
theorem transSendMessages_spec (lib : Mstdlib) (c : Conn) (hrep : Rep c.toTransStore)
    (hquiet : c.status = .connected → c.toTransStore.quiet) :
    ∃ s outbuf timer trigger, (transSendMessages lib c).1 =
        { c with toTransStore := s, outbuf := outbuf, timer := timer, writeTrigger := trigger } ∧
      InternalSteps lib c.toTransStore s ∧ s.events = c.events ∧
      s.transDelayRm = c.transDelayRm ∧ s.pingtxn = c.pingtxn ∧
      (c.status = .connected → s.transReady = []) := by
  have hsame : ∀ r : Conn × Bool, r.1 = c → c.status ≠ .connected →
      ∃ s outbuf timer trigger, r.1 =
          { c with toTransStore := s, outbuf := outbuf, timer := timer, writeTrigger := trigger } ∧
        InternalSteps lib c.toTransStore s ∧ s.events = c.events ∧
        s.transDelayRm = c.transDelayRm ∧ s.pingtxn = c.pingtxn ∧
        (c.status = .connected → s.transReady = []) :=
    fun r hr hne => ⟨c.toTransStore, c.outbuf, c.timer, c.writeTrigger, hr, .refl, rfl, rfl, rfl,
      fun h => absurd h hne⟩
  unfold transSendMessages
  split
  · rename_i hdown
    exact hsame _ rfl (by rw [hdown]; exact ConnStatus.noConfusion)
  · split
    · rename_i hne
      exact hsame _ rfl hne
    · rename_i hconnected
      rw [ne_eq, Decidable.not_not] at hconnected
      obtain ⟨s, outbuf, hres, hsteps, hevents, hdelay, hping, hempty⟩ :=
        sendMessagesLoop_spec lib c.transReady c rfl hrep hconnected (hquiet hconnected)
      simp only [hres]
      exact ⟨s, outbuf, _, _, rfl, hsteps, hevents, hdelay, hping, fun _ => hempty⟩

end Send

section Receive

/-- The three outcomes of `LM_conn_parse_msg`. -/
theorem connParseMsg_cases (lib : Mstdlib) (c : Conn) (msg : Bytes) :
    (readMsg lib msg = none ∧ connParseMsg lib c msg = (c, .error, none)) ∨
    (∃ tranId data q, readMsg lib msg = some (tranId, data) ∧
      connParseMsg lib c msg = (c, .wait, q) ∧
      ∀ p t, c.transIdMap tranId = some p → c.heap p = some t → t.status ≠ .pending) ∨
    ∃ tranId data p t, readMsg lib msg = some (tranId, data) ∧ c.transIdMap tranId = some p ∧
      c.heap p = some t ∧ t.status = .pending ∧
      connParseMsg lib c msg =
        ({ c with
          heap := Function.update c.heap p (some (storeResponse lib t data))
          transPending := c.transPending.erase p
          transDone := c.transDone ++ [p]
          trace := c.trace ++ [.answered p .pending msg] }, .success, some p) := by
  unfold connParseMsg
  split
  · rename_i hmsg
    exact Or.inl ⟨hmsg, rfl⟩
  · rename_i tranId data hmsg
    refine Or.inr ?_
    split
    · rename_i hmap
      exact Or.inl ⟨tranId, data, none, hmsg, rfl, fun p t hp => by simp [hmap] at hp⟩
    · rename_i p hmap
      split
      · rename_i hdead
        refine Or.inl ⟨tranId, data, none, hmsg, rfl, fun q u hq hu => ?_⟩
        rw [hmap, Option.some.injEq] at hq
        rw [← hq, hdead] at hu
        cases hu
      · rename_i t ht
        split
        · rename_i hne
          refine Or.inl ⟨tranId, data, some p, hmsg, rfl, fun q u hq hu => ?_⟩
          rw [hmap, Option.some.injEq] at hq
          rw [← hq, ht, Option.some.injEq] at hu
          exact hu ▸ hne
        · rename_i hpending
          rw [ne_eq, Decidable.not_not] at hpending
          exact Or.inr ⟨tranId, data, p, t, hmsg, hmap, ht, hpending, by rw [hpending]⟩

/-- What `LM_conn_parse_trans_buffer` leaves: a store that orphaned frames have not touched, or one
of them completed a transaction. -/
inductive ParseOutcome (lib : Mstdlib) (s : TransStore) : TransStore → ParseError × Option Ptr → Prop
  | skipped (s' : TransStore) (err : ParseError) (q : Option Ptr) :
      InternalSteps lib s s' → err ≠ .success → ParseOutcome lib s s' (err, q)
  | completed (s' : TransStore) (p : Ptr) (t : Trans) (msg data : Bytes) :
      InternalSteps lib s s' → s'.heap p = some t → t.status = .pending →
      readMsg lib msg = some (t.transId, data) →
      ParseOutcome lib s (s'.answer p t (storeResponse lib t data) msg) (.success, some p)

/-- A step before the outcome does not change its kind. -/
theorem ParseOutcome.head {s s' s'' : TransStore} {r : ParseError × Option Ptr}
    (hstep : InternalStep lib s s') (h : ParseOutcome lib s' s'' r) : ParseOutcome lib s s'' r := by
  cases h with
  | skipped _ err q hsteps herr => exact .skipped _ err q (.head hstep hsteps) herr
  | completed s1 p t msg data hsteps ht hst hmsg =>
    exact .completed s1 p t msg data (.head hstep hsteps) ht hst hmsg

/-- `LM_conn_parse_trans_buffer` changes the store and `inbuf` only. -/
theorem connParseTransBufferLoop_spec (lib : Mstdlib) (fuel : ℕ) (c : Conn) (hrep : Rep c.toTransStore) :
    ∃ s inbuf, (connParseTransBufferLoop lib fuel c).1 = { c with toTransStore := s, inbuf := inbuf } ∧
      ParseOutcome lib c.toTransStore s (connParseTransBufferLoop lib fuel c).2 ∧
      s.events = c.events ∧ s.transDelayRm = c.transDelayRm ∧ s.pingtxn = c.pingtxn := by
  have hskip : ∀ err, err ≠ ParseError.success →
      ParseOutcome lib c.toTransStore c.toTransStore (err, none) :=
    fun err herr => .skipped _ err none .refl herr
  induction fuel generalizing c with
  | zero => exact ⟨c.toTransStore, c.inbuf, rfl, hskip .wait (by decide), rfl, rfl, rfl⟩
  | succ fuel ih =>
    rw [connParseTransBufferLoop]
    split
    · exact ⟨c.toTransStore, c.inbuf, rfl, hskip .wait (by decide), rfl, rfl, rfl⟩
    · split
      · exact ⟨c.toTransStore, c.inbuf, rfl, hskip .error (by decide), rfl, rfl, rfl⟩
      · split
        · exact ⟨c.toTransStore, c.inbuf, rfl, hskip .wait (by decide), rfl, rfl, rfl⟩
        · rename_i frame rest htake
          split
          · exact ⟨c.toTransStore, rest, rfl, hskip .error (by decide), rfl, rfl, rfl⟩
          · have hconsume := @InternalStep.consume lib c.toTransStore frame.tail.dropLast
            rcases connParseMsg_cases lib
                { c with inbuf := rest, trace := c.trace ++ [.consumed frame.tail.dropLast] }
                frame.tail.dropLast with
              ⟨-, hres⟩ | ⟨tranId, data, q, -, hres, -⟩ | ⟨tranId, data, p, t, hmsg, hmap, ht, hst, hres⟩
            · refine ⟨c.toTransStore.log (.consumed frame.tail.dropLast), rest, ?_, ?_, rfl, rfl, rfl⟩
              · simp [hres, TransStore.log]
              · simp only [hres]
                exact .skipped _ .error none (.single hconsume) (by decide)
            · simp only [hres, if_true]
              obtain ⟨s, inbuf, heq, hout, hevents, hdelay, hping⟩ :=
                ih { c with inbuf := rest, trace := c.trace ++ [.consumed frame.tail.dropLast] }
                  (hrep.log _) fun err herr => .skipped _ err none .refl herr
              exact ⟨s, inbuf, heq, hout.head hconsume, hevents, hdelay, hping⟩
            · simp only [hres]
              obtain ⟨u, hu, hid⟩ := hrep.mapLive tranId p hmap
              obtain rfl : u = t := Option.some.inj (hu.symm.trans ht)
              refine ⟨c.toTransStore.answer p u (storeResponse lib u data) frame.tail.dropLast, rest, ?_,
                .completed _ p u _ data .refl hu hst (hid ▸ hmsg), ?_, ?_, ?_⟩
              · simp [TransStore.answer, TransStore.move, TransStore.queueTake, TransStore.setTrans,
                  TransStore.log, hst]
              · simp
              · simp
              · simp

/-- The bookkeeping of a completed transaction touches the store only. -/
theorem transCompleted_eq {c : Conn} {p : Ptr} {t : Trans} (ht : c.heap p = some t) :
    transCompleted c p = { c with
      toTransStore := (c.toTransStore.connEventAdd .transDone (some p)).killTimeoutTimer p t } := by
  unfold transCompleted
  simp only [TransStore.connEventAdd, ht]

/-- The loop of the read event changes the store and `inbuf` only, and adds no `NOCONNECT`. -/
theorem readLoop_spec (lib : Mstdlib) (fuel : ℕ) (c : Conn) (hrep : Rep c.toTransStore) :
    ∃ s inbuf, (readLoop lib fuel c).1 = { c with toTransStore := s, inbuf := inbuf } ∧
      InternalSteps lib c.toTransStore s ∧ s.transDelayRm = c.transDelayRm ∧
      s.pingtxn = c.pingtxn ∧ (c.toTransStore.quiet → s.quiet) := by
  induction fuel generalizing c with
  | zero => exact ⟨c.toTransStore, c.inbuf, rfl, .refl, rfl, rfl, id⟩
  | succ fuel ih =>
    obtain ⟨s, inbuf, hparse, hout, hevents, hdelay, hping⟩ :=
      connParseTransBufferLoop_spec lib (c.inbuf.length + 1) c hrep
    have hquiet : c.toTransStore.quiet → s.quiet := fun hq e he => hq e (hevents ▸ he)
    rcases hres : connParseTransBuffer lib c with ⟨c', err, q⟩
    have hloop : connParseTransBufferLoop lib (c.inbuf.length + 1) c = (c', err, q) := hres
    rw [hloop] at hparse hout
    simp only at hparse hout
    rw [readLoop, hres]
    cases hout with
    | skipped _ err q hsteps herr =>
      cases err with
      | success => exact absurd rfl herr
      | wait => exact ⟨s, inbuf, hparse, hsteps, hdelay, hping, hquiet⟩
      | error => exact ⟨s, inbuf, hparse, hsteps, hdelay, hping, hquiet⟩
    | completed s1 p t msg data hsteps ht hst hmsg =>
      have hping1 : s1.pingtxn = c.pingtxn := by rw [← hping, TransStore.pingtxn_answer]
      simp only
      split
      · rename_i hpingreply
        refine ⟨_, inbuf, hparse, hsteps.tail ?_, hdelay, hping, hquiet⟩
        refine .answerPing s1 p t msg data ht hst hmsg ?_
        rw [hping1, ← hping]
        simpa [hparse] using hpingreply
      · rename_i hother
        have hlive : c'.heap p = some (storeResponse lib t data) := by simp [hparse]
        have hstep := @InternalStep.answer lib s1 p t msg data ht hst hmsg (by
          rw [hping1, ← hping]
          simpa [hparse] using hother)
        rw [transCompleted_eq hlive, hparse]
        obtain ⟨s', inbuf', heq, hsteps', hdelay', hping', hquiet'⟩ :=
          ih { c with
            toTransStore := ((s1.answer p t (storeResponse lib t data) msg).connEventAdd .transDone
              (some p)).killTimeoutTimer p (storeResponse lib t data)
            inbuf := inbuf } (hstep.rep (InternalSteps.rep hsteps hrep))
        refine ⟨s', inbuf', heq, (hsteps.tail hstep).trans hsteps', hdelay'.trans ?_,
          hping'.trans ?_, fun hq => hquiet' ?_⟩
        · simpa [TransStore.connEventAdd] using hdelay
        · simpa [TransStore.connEventAdd] using hping
        · intro e he
          simp only [TransStore.events_killTimeoutTimer, TransStore.connEventAdd,
            List.mem_append, List.mem_singleton] at he
          rcases he with he | rfl
          · exact hquiet hq e he
          · exact EventType.noConfusion

end Receive

section Deletion

/-- `LM_trans_delete_unlocked` frees a live transaction. -/
theorem transDeleteUnlocked_eq (lib : Mstdlib) {c : Conn} {p : Ptr} {t : Trans} (ht : c.heap p = some t) :
    ∃ timer, transDeleteUnlocked lib c p =
      { c with toTransStore := c.toTransStore.free p t, timer := timer } := by
  refine ⟨(transDeleteUnlocked lib c p).timer, ?_⟩
  unfold transDeleteUnlocked
  rw [ht]
  simp only [timerReset, TransStore.free, TransStore.heap_queueTake, TransStore.transIdMap_queueTake,
    TransStore.trace_queueTake]

/-- While a handler runs, `LM_trans_delete` only puts the deletion off. -/
theorem transDelete_inUse {c : Conn} {p : Ptr} {t : Trans} (ht : c.heap p = some t)
    (hbusy : c.inUse = true) :
    transDelete lib c p = { c with toTransStore := c.toTransStore.defer p t } := by
  unfold transDelete
  rw [ht]
  simp only [hbusy, if_true, TransStore.defer, TransStore.log]
  simp

/-- `LM_trans_delete` touches the transactions and the idle timer. -/
theorem transDelete_spec (lib : Mstdlib) (c : Conn) (p : Ptr) :
    ∃ s timer, transDelete lib c p = { c with toTransStore := s, timer := timer } ∧
      StoreSteps lib c.toTransStore s ∧ s.events = c.events ∧
      (c.inUse = false → s.transDelayRm = c.transDelayRm) := by
  cases ht : c.heap p with
  | none => exact ⟨c.toTransStore, c.timer, by simp [transDelete, ht], .refl, rfl, fun _ => rfl⟩
  | some t =>
    by_cases hbusy : c.inUse = true
    · refine ⟨_, c.timer, transDelete_inUse ht hbusy, .single (.defer _ p t ht), ?_, ?_⟩
      · simp [TransStore.defer, TransStore.log]
      · simp [hbusy]
    · have hkilled : ((c.toTransStore.killTimeoutTimer p t).log (.deleted p)).heap p =
          some { t with timeoutTimer := false } := by
        change (c.toTransStore.killTimeoutTimer p t).heap p = _
        rw [TransStore.heap_killTimeoutTimer _ _ _ ht, Function.update_self]
      obtain ⟨timer, heq⟩ := transDeleteUnlocked_eq lib
        (c := { c with toTransStore := (c.toTransStore.killTimeoutTimer p t).log (.deleted p) }) hkilled
      refine ⟨_, timer, ?_, .single (.delete _ p t ht), ?_, ?_⟩
      · unfold transDelete
        rw [ht]
        exact (if_neg hbusy).trans heq
      · simp [TransStore.log]
      · simp [TransStore.log]

/-- The loop over the deferred deletions frees what is still live. -/
theorem drainDelayRm_spec (lib : Mstdlib) (delayed : List Ptr) (c : Conn) (hdelay : c.transDelayRm = delayed) :
    ∃ s timer, drainDelayRm lib delayed c = { c with toTransStore := s, timer := timer } ∧
      InternalSteps lib c.toTransStore s ∧ s.events = c.events ∧
      s.transDelayRm = [] := by
  induction delayed generalizing c with
  | nil => exact ⟨c.toTransStore, c.timer, rfl, .refl, rfl, hdelay⟩
  | cons p rest ih =>
    rw [drainDelayRm]
    cases ht : c.heap p with
    | none =>
      have hsame : transDeleteUnlocked lib { c with transDelayRm := rest } p =
          { c with transDelayRm := rest } := by simp [transDeleteUnlocked, ht]
      rw [hsame]
      obtain ⟨s, timer, heq, hsteps, hevents, hempty⟩ := ih { c with transDelayRm := rest } rfl
      exact ⟨s, timer, heq, .head (.drainDead _ p rest hdelay ht) hsteps, hevents, hempty⟩
    | some t =>
      obtain ⟨timer', hfree⟩ := transDeleteUnlocked_eq lib (c := { c with transDelayRm := rest })
        (p := p) ht
      rw [hfree]
      obtain ⟨s, timer, heq, hsteps, hevents, hempty⟩ :=
        ih { c with
          toTransStore := ({ c.toTransStore with transDelayRm := rest } : TransStore).free p t
          timer := timer' } (TransStore.transDelayRm_free _ p t)
      refine ⟨s, timer, heq, .head (.drain _ p t rest hdelay ht) hsteps, hevents.trans ?_, hempty⟩
      exact TransStore.events_free _ p t

/-- `LM_conn_cleanup_ping` puts the deletion of the ping off and keeps the events. -/
theorem connCleanupPing_spec (lib : Mstdlib) (c : Conn) (hrep : Rep c.toTransStore) (hbusy : c.inUse = true) :
    ∃ s, connCleanupPing lib c = { c with toTransStore := s, timer := none } ∧
      InternalSteps lib c.toTransStore s ∧ s.events = c.events := by
  unfold connCleanupPing
  simp only
  split
  · exact ⟨c.toTransStore, rfl, .refl, rfl⟩
  · rename_i p hping
    cases ht : c.heap p with
    | none =>
      -- a ping that is gone is in no queue
      have hout : p ∉ c.transPending := by
        intro hp
        obtain ⟨t, hlive, -⟩ := hrep.queued .pending p hp
        rw [ht] at hlive
        cases hlive
      refine ⟨c.toTransStore, ?_, .refl, rfl⟩
      simp [transDelete, ht, List.erase_of_not_mem hout]
    | some t =>
      refine ⟨(c.toTransStore.defer p t).queueTake .pending p, ?_, .single (.retirePing _ p t ht hping),
        ?_⟩
      · rw [transDelete_inUse (t := t)
          (c := { c with timer := none, transPending := c.transPending.erase p }) ht hbusy]
        simp only [TransStore.defer, TransStore.killTimeoutTimer, TransStore.log, TransStore.queueTake]
        split <;> rfl
      · simp [TransStore.defer, TransStore.log]

end Deletion

section Create

/-- `LM_trans_new` creates a transaction under an unused id. -/
theorem transNew_spec {c c' : Conn} {draws : List RandDraw} {p : Ptr}
    (h : transNew c draws = some (c', p)) :
    ∃ draw : RandDraw, unusedDraw c draws = some draw ∧ p = c.nextPtr ∧
      c' = { c with
        toTransStore := (c.toTransStore.create (Trans.fresh draw.val .user)).log
          (.created c.nextPtr .user) } := by
  unfold transNew transNewInternal at h
  simp only [Option.map_map, Option.map_eq_some_iff, Function.comp_apply] at h
  obtain ⟨draw, hdraw, heq⟩ := h
  obtain ⟨rfl, rfl⟩ := Prod.mk.inj heq
  exact ⟨draw, hdraw, rfl, rfl⟩

/-- The first half of `LM_trans_run` creates a transaction that has parameters. -/
theorem transRunNew_spec {c c' : Conn} {draws : List RandDraw} {params : HashDict} {p : Ptr}
    (h : transRunNew c draws params = some (c', p)) :
    ∃ draw : RandDraw, unusedDraw c draws = some draw ∧ p = c.nextPtr ∧
      c' = { c with
        toTransStore := (c.toTransStore.create
          { Trans.fresh draw.val .user with requestParams := some params }).log
            (.created c.nextPtr .user) } := by
  unfold transRunNew at h
  split at h
  · cases h
  · obtain ⟨⟨c1, q⟩, hnew, heq⟩ := Option.map_eq_some_iff.mp h
    obtain ⟨draw, hdraw, rfl, rfl⟩ := transNew_spec hnew
    refine ⟨draw, hdraw, ?_⟩
    have hlive : ((c.toTransStore.create (Trans.fresh draw.val .user)).log
        (.created c.nextPtr .user)).heap c.nextPtr = some (Trans.fresh draw.val .user) := by
      simp [TransStore.log]
    simp only [hlive, Prod.mk.injEq] at heq
    obtain ⟨rfl, rfl⟩ := heq
    refine ⟨rfl, ?_⟩
    simp [TransStore.create, TransStore.log, TransStore.setTrans, Trans.fresh]

/-- `LM_trans_ping_request` creates a pending transaction and puts its request on the wire. -/
theorem transPingRequest_spec {c c' : Conn} {draws : List RandDraw} {written : ℕ} {p : Ptr}
    (h : transPingRequest lib c draws written = some (c', p)) :
    ∃ draw : RandDraw, unusedDraw c draws = some draw ∧ p = c.nextPtr ∧
      c' = { c with
        toTransStore := ((c.toTransStore.create
          { Trans.fresh draw.val .ping with status := .pending }).log
            (.created c.nextPtr .ping)).log
              (.framed c.nextPtr .ping c.status (requestFrame lib draw.val pingParams))
        outbuf := (c.outbuf ++ requestFrame lib draw.val pingParams).drop written } := by
  unfold transPingRequest transNewInternal at h
  simp only [Option.map_map, Option.map_eq_some_iff, Function.comp_apply] at h
  obtain ⟨draw, hdraw, heq⟩ := h
  obtain ⟨rfl, rfl⟩ := Prod.mk.inj heq
  refine ⟨draw, hdraw, rfl, ?_⟩
  have hkey : ascii "action" ≠ [] := by decide
  simp [transSetParam, markPending, transStructure, hkey, Trans.fresh, TransStore.create,
    TransStore.log, TransStore.setTrans, pingParams, Trans.request]

/-- `LM_trans_set_param` edits a new transaction, or does nothing. -/
theorem transSetParam_spec (lib : Mstdlib) (c : Conn) (p : Ptr) (key : Bytes) (value : Option Bytes) :
    ∃ heap, (transSetParam c p key value).1 = { c with heap := heap } ∧
      StoreSteps lib c.toTransStore { c.toTransStore with heap := heap } := by
  unfold transSetParam
  split
  · exact ⟨c.heap, rfl, .refl⟩
  · rename_i t ht
    split
    · rename_i hnew
      exact ⟨_, rfl, .single (.edit _ p t (some ((t.requestParams.getD .create).insert key value))
        t.timeoutS ht hnew.2)⟩
    · exact ⟨c.heap, rfl, .refl⟩

/-- `LM_trans_set_timeout` edits a new transaction, or does nothing. -/
theorem transSetTimeout_spec (lib : Mstdlib) (c : Conn) (p : Ptr) (timeoutS : ℕ) :
    ∃ heap, (transSetTimeout c p timeoutS).1 = { c with heap := heap } ∧
      StoreSteps lib c.toTransStore { c.toTransStore with heap := heap } := by
  unfold transSetTimeout
  split
  · exact ⟨c.heap, rfl, .refl⟩
  · rename_i t ht
    split
    · rename_i hnew
      exact ⟨_, rfl, .single (.edit _ p t t.requestParams timeoutS ht hnew)⟩
    · exact ⟨c.heap, rfl, .refl⟩

/-- A refused `LM_trans_send` changes nothing. -/
theorem transSend_refused {c : Conn} {p : Ptr} (h : (transSend lib c p).ok = false) :
    (transSend lib c p).conn = c := by
  unfold transSend at h ⊢
  split
  · rfl
  · split
    · rfl
    · rename_i ht hsend
      simp only [ht, if_neg hsend] at h
      cases h

/-- An accepted `LM_trans_send` is one acceptance, and submissions while the connection is up. -/
theorem transSend_accepted {c : Conn} {p : Ptr} (h : (transSend lib c p).ok = true)
    (hrep : Rep c.toTransStore) (hquiet : c.status = .connected → c.toTransStore.quiet) :
    ∃ t s outbuf timer trigger, c.heap p = some t ∧ t.status = .new ∧
      (transSend lib c p).conn =
        { c with toTransStore := s, outbuf := outbuf, timer := timer, writeTrigger := trigger } ∧
      InternalSteps lib ((c.toTransStore.move p t { t with status := .ready }).log (.accepted p)) s ∧
      s.events = c.events ∧ s.transDelayRm = c.transDelayRm ∧
      (c.status = .connected → s.transReady = []) := by
  unfold transSend at h ⊢
  split at h
  · cases h
  · rename_i t ht
    split at h
    · cases h
    · rename_i hsend
      have hnew : t.status = .new := by
        by_contra hne
        exact hsend (Or.inl hne)
      have hstep := @StoreStep.accept lib c.toTransStore p t ht hnew
      have hconn : ({ c with
          heap := Function.update c.heap p (some { t with status := .ready })
          transNew := c.transNew.erase p
          transReady := c.transReady ++ [p]
          trace := c.trace ++ [.accepted p] } : Conn) = { c with
            toTransStore := (c.toTransStore.move p t { t with status := .ready }).log (.accepted p) } := by
        simp [TransStore.move, TransStore.queueTake, TransStore.setTrans, TransStore.log, hnew]
      obtain ⟨s, outbuf, timer, trigger, heq, hsteps, hevents, hdelay, -, hempty⟩ :=
        transSendMessages_spec lib
          { c with
            toTransStore := (c.toTransStore.move p t { t with status := .ready }).log (.accepted p) }
          (hstep.rep hrep) fun hst e he => hquiet hst e (by simpa [TransStore.log] using he)
      refine ⟨t, s, outbuf, timer, trigger, ht, hnew, ?_, hsteps, ?_, ?_, hempty⟩
      · simp only [if_neg hsend, hconn, heq]
      · simpa [TransStore.log] using hevents
      · simpa [TransStore.log] using hdelay

/-- `LM_trans_send` as a sequence of steps. -/
theorem transSend_spec (lib : Mstdlib) (c : Conn) (p : Ptr) (hrep : Rep c.toTransStore)
    (hquiet : c.status = .connected → c.toTransStore.quiet) :
    ∃ s outbuf timer trigger, (transSend lib c p).conn =
        { c with toTransStore := s, outbuf := outbuf, timer := timer, writeTrigger := trigger } ∧
      StoreSteps lib c.toTransStore s ∧ s.events = c.events ∧ s.transDelayRm = c.transDelayRm := by
  cases h : (transSend lib c p).ok with
  | false =>
    exact ⟨c.toTransStore, c.outbuf, c.timer, c.writeTrigger, transSend_refused h, .refl, rfl, rfl⟩
  | true =>
    obtain ⟨t, s, outbuf, timer, trigger, ht, hnew, heq, hsteps, hevents, hdelay, -⟩ :=
      transSend_accepted h hrep hquiet
    exact ⟨s, outbuf, timer, trigger, heq,
      .head (.accept _ p t ht hnew) (InternalSteps.storeSteps hsteps), hevents, hdelay⟩

end Create

section Handler

/-- The `NOCONNECT` events of the transactions that are still `READY`. -/
theorem noconnectEvents_spec (lib : Mstdlib) (ready : List Ptr) (c : Conn)
    (hready : ∀ p ∈ ready, p ∈ c.transReady) :
    ∃ s, noconnectEvents ready c = { c with toTransStore := s } ∧
      InternalSteps lib c.toTransStore s ∧
      s.transPending = c.transPending ∧ s.transDelayRm = c.transDelayRm ∧ s.pingtxn = c.pingtxn := by
  induction ready generalizing c with
  | nil => exact ⟨c.toTransStore, rfl, .refl, rfl, rfl, rfl⟩
  | cons p rest ih =>
    obtain ⟨s, heq, hsteps, hpending, hdelay, hping⟩ :=
      ih { c with toTransStore := c.toTransStore.connEventAdd .transNoconnect (some p) }
        fun q hq => hready q (List.mem_cons_of_mem p hq)
    exact ⟨s, heq, .head (.noconnect _ p (hready p List.mem_cons_self)) hsteps, hpending, hdelay, hping⟩

/-- The made-up response of a failed transaction is a denial. -/
theorem denyResponse_code (error : Bytes) :
    (denyResponse error).getDirect (ascii "code") = some (ascii "DENY") := by
  have hother : (Dict.create.insert (ascii "code") (some (ascii "DENY"))).sameKey (ascii "verbiage")
      (ascii "code") = false := by decide
  have hcode : Dict.create.sameKey (ascii "code") (ascii "code") = true := HashDict.sameKey_self _ _
  rw [denyResponse, Dict.getDirect_insert, hother, Dict.getDirect_insert, hcode]
  rfl

/-- The loop over the pending transactions fails each of them. -/
theorem failPendingLoop_spec (lib : Mstdlib) (pending : List Ptr) (c : Conn)
    (hpending : c.transPending = pending)
    (hrep : Rep c.toTransStore) :
    ∃ s, failPendingLoop pending c = { c with toTransStore := s } ∧
      InternalSteps lib c.toTransStore s ∧
      s.transPending = [] ∧ s.transDelayRm = c.transDelayRm ∧ s.pingtxn = c.pingtxn := by
  induction pending generalizing c with
  | nil => exact ⟨c.toTransStore, rfl, .refl, hpending, rfl, rfl⟩
  | cons p rest ih =>
    have hmem : p ∈ c.connQueue .pending := by
      change p ∈ c.transPending
      simp [hpending]
    obtain ⟨t, ht, hstatus⟩ := hrep.queued .pending p hmem
    have hstep := @InternalStep.fail lib c.toTransStore p t rest (denyResponse c.error) hpending ht
      hstatus (denyResponse_code c.error)
    have hone : failPending { c with transPending := rest } p = { c with
        toTransStore := ((c.toTransStore.move p t (t.failed (denyResponse c.error))).killTimeoutTimer p
          (t.failed (denyResponse c.error))).connEventAdd .transError (some p) } := by
      unfold failPending
      simp only [ht]
      simp only [TransStore.move, TransStore.queueTake, TransStore.setTrans, hstatus, Trans.failed,
        hpending, List.erase_cons_head]
    have hrest : (((c.toTransStore.move p t (t.failed (denyResponse c.error))).killTimeoutTimer p
        (t.failed (denyResponse c.error))).connEventAdd .transError (some p)).transPending = rest := by
      have hqueue := TransStore.connQueue_move c.toTransStore p t (t.failed (denyResponse c.error))
        .pending
      rw [← TransStore.connQueue_killTimeoutTimer _ p (t.failed (denyResponse c.error))] at hqueue
      simpa [TransStore.connQueue, hstatus, hpending, Trans.failed, TransStore.connEventAdd] using hqueue
    rw [failPendingLoop, hone]
    obtain ⟨s, heq, hsteps, hempty, hdelay, hping⟩ := ih
      { c with
        toTransStore := ((c.toTransStore.move p t (t.failed (denyResponse c.error))).killTimeoutTimer p
          (t.failed (denyResponse c.error))).connEventAdd .transError (some p) } hrest (hstep.rep hrep)
    refine ⟨s, heq, .head hstep hsteps, hempty, hdelay.trans ?_, hping.trans ?_⟩ <;>
      simp [TransStore.connEventAdd]

/-- `LM_conn_event_handle_conn_error` leaves a connection that is down, with nothing pending. -/
theorem connEventHandleConnError_spec (lib : Mstdlib) (c : Conn) (failure : IoFailure)
    (hrep : Rep c.toTransStore) :
    ∃ s, connEventHandleConnError c failure =
        { c with
          toTransStore := s
          io := none
          writeTrigger := none
          status := .disconnected
          outbuf := []
          inbuf := []
          timer := none } ∧
      InternalSteps lib c.toTransStore s ∧ s.transPending = [] ∧
      s.transDelayRm = c.transDelayRm ∧ s.pingtxn = c.pingtxn := by
  let down : Conn :=
    { c with
      io := none
      writeTrigger := none
      status := .disconnected
      outbuf := []
      inbuf := []
      timer := none }
  obtain ⟨s1, heq1, hsteps1, hpending1, hdelay1, hping1⟩ := noconnectEvents_spec lib
    (if c.status = .idleTimeout then [] else c.transReady) down (by
      intro p hp
      split at hp
      · cases hp
      · exact hp)
  have hrep1 : Rep s1 := InternalSteps.rep hsteps1 hrep
  obtain ⟨s2, heq2, hsteps2, hempty, hdelay2, hping2⟩ :=
    failPendingLoop_spec lib s1.transPending { down with toTransStore := s1 } rfl hrep1
  refine ⟨s2.connEventAdd (if failure = .disconnected ∨ c.status = .disconnecting ∨
      c.status = .idleTimeout then .connDisconnect else .connError) none, ?_,
    (hsteps1.trans hsteps2).tail (.connEvent _ _ ?_), hempty, hdelay2.trans hdelay1,
    hping2.trans hping1⟩
  · unfold connEventHandleConnError
    simp only
    rw [heq1]
    simp only
    rw [heq2]
  · split
    · exact Or.inr (Or.inl rfl)
    · exact Or.inr (Or.inr rfl)

/-- `LM_conn_event_set_connected` after the ping is cleaned up leaves nothing `READY`. -/
theorem connEventSetConnected_spec (lib : Mstdlib) (c : Conn) (hrep : Rep c.toTransStore)
    (hquiet : c.toTransStore.quiet) :
    ∃ s outbuf timer trigger, connEventSetConnected lib c =
        { c with
          toTransStore := s
          status := .connected
          outbuf := outbuf
          timer := timer
          writeTrigger := trigger } ∧
      InternalSteps lib c.toTransStore s ∧ s.quiet ∧ s.transDelayRm = c.transDelayRm ∧
      s.pingtxn = c.pingtxn ∧ s.transReady = [] := by
  have hadded : (c.toTransStore.connEventAdd .connConnected none).quiet := by
    intro e he
    simp only [TransStore.connEventAdd, List.mem_append, List.mem_singleton] at he
    rcases he with he | rfl
    · exact hquiet e he
    · exact EventType.noConfusion
  obtain ⟨s, outbuf, timer, trigger, heq, hsteps, hevents, hdelay, hping, hempty⟩ :=
    transSendMessages_spec lib
      { c with
        toTransStore := c.toTransStore.connEventAdd .connConnected none
        status := .connected } (hrep.connEventAdd _ _) fun _ => hadded
  refine ⟨s, outbuf, if c.idleTimeout ≠ 0 then some ⟨0, false⟩ else timer, trigger, ?_,
    .head (.connEvent _ _ (Or.inl rfl)) hsteps, fun e he => hadded e (hevents ▸ he), hdelay, hping,
    hempty rfl⟩
  unfold connEventSetConnected
  simp only
  rw [heq]

end Handler

end LibMonetra
