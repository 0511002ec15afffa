import LibMonetra.Inbound
import LibMonetra.Reading

/-!
# One action and the transactions

Every action is a piece of the library that frees nothing, or one of the few others: an event is
handed to the callback, the callback returns, a transaction is deleted outside a handler, the
deferred deletions are drained, and the connection ends.
-/

namespace LibMonetra

open Foundation

variable {lib : Mstdlib}

/-- Whether an action frees the connection with all its transactions. -/
def Action.destroys (c : Conn) : Action → Bool
  | .connDestroy => !c.inUse
  | .finish => c.destroy
  | _ => false

/-- Whether an action may free transactions that nobody deletes at that moment. -/
def Action.clears (c : Conn) : Action → Bool
  | .drain => true
  | a => a.destroys c

/-- An action that frees nothing. It puts off at most one deletion, the one its caller asks for or that
of the ping. -/
structure Served (s s' : Sys) (a : Action) (new : List Obs) : Prop where
  handled : Handled s.conn.toTransStore s'.conn.toTransStore new
  deletes : deletedOf new = [] ∨ ∃ p, deletedOf new = [p] ∧ (a = .transDelete p ∨
    (s.conn.pingtxn = some p ∧ s.pc = .idle ∧ ∃ pingEnd, s'.pc = .cleaning pingEnd))

/-- What one action does to the transactions. -/
inductive Turn (lib : Mstdlib) (s s' : Sys) (a : Action) : Prop
  | served (new : List Obs) : a.clears s.conn = false → Served s s' a new → Turn lib s s' a
  | delivered (e : Event) (rest : List Event) :
      a = .deliver → s.pc = .delivering → s.conn.events = e :: rest →
      s'.conn.toTransStore = { s.conn.toTransStore.log (.callback e) with events := rest } →
      Turn lib s s' a
  | returned : a = .callbackReturn → s.pc = .callback →
      s'.conn.toTransStore =
        { s.conn.toTransStore with events := if s.conn.destroy then [] else s.conn.events } →
      Turn lib s s' a
  | deleted (p : Ptr) (t : Trans) : a = .transDelete p → s.conn.inUse = false →
      s.conn.heap p = some t →
      s'.conn.toTransStore =
        ((s.conn.toTransStore.killTimeoutTimer p t).log (.deleted p)).free p t →
      Turn lib s s' a
  | drained : a = .drain → s.pc = .delivering → s.conn.events = [] →
      s'.conn.toTransStore = (drainDelayRm lib s.conn.transDelayRm s.conn).toTransStore →
      Turn lib s s' a
  | destroyed : a.destroys s.conn = true → s.conn.inUse = false → s'.conn.freed = true →
      s'.conn.toTransStore = s.conn.toTransStore.freeAll → Turn lib s s' a

/-- A locked piece of the handler, which puts off no deletion but that of the ping. -/
structure PieceDone (c : Conn) (r : Conn × Pc) (new : List Obs) : Prop where
  handled : Handled c.toTransStore r.1.toTransStore new
  deletes : deletedOf new = [] ∨
    ∃ p pingEnd, deletedOf new = [p] ∧ c.pingtxn = some p ∧ r.2 = .cleaning pingEnd

section Pieces

variable (lib) (c : Conn)

/-- The clean-up of the ping. -/
theorem connCleanupPing_done (hbusy : c.inUse = true) (pingEnd : PingEnd) :
    ∃ new, PieceDone c (connCleanupPing lib c, .cleaning pingEnd) new := by
  obtain ⟨-, new, hnew, hdeleted⟩ := connCleanupPing_handled c lib hbusy
  rcases hdeleted with rfl | ⟨p, hp, rfl⟩
  · exact ⟨[], hnew, Or.inl rfl⟩
  · exact ⟨_, hnew, Or.inr ⟨p, pingEnd, rfl, hp, rfl⟩⟩

/-- The read event frees nothing. -/
theorem readFrames_done (hrep : Rep c.toTransStore) (hbusy : c.inUse = true) :
    ∃ new, PieceDone c (readFrames lib c) new := by
  obtain ⟨s, inbuf, heq, hsteps, -⟩ := readLoop_spec lib (c.inbuf.length + 1) c hrep
  obtain ⟨new, hreads, -⟩ := readLoop_reads lib c (c.inbuf.length + 1)
  have hrep' : Rep (readLoop lib (c.inbuf.length + 1) c).1.toTransStore := by
    rw [heq]
    exact InternalSteps.rep hsteps hrep
  have hbusy' : (readLoop lib (c.inbuf.length + 1) c).1.inUse = true := by
    rw [heq]
    exact hbusy
  have hping := hreads.pingtxn
  unfold readFrames
  rcases hres : readLoop lib (c.inbuf.length + 1) c with ⟨c', stop⟩
  rw [hres] at hrep' hbusy' hreads hping
  cases stop with
  | ping =>
    obtain ⟨-, deleted, hclean, hdeleted⟩ := connCleanupPing_handled c' lib hbusy'
    refine ⟨_, hreads.handled.trans hclean, ?_⟩
    rw [deletedOf_append, hreads.deletedOf, List.nil_append]
    rcases hdeleted with rfl | ⟨p, hp, rfl⟩
    · exact Or.inl rfl
    · exact Or.inr ⟨p, .reply, rfl, hping ▸ hp, rfl⟩
  | wait => exact ⟨new, hreads.handled, Or.inl hreads.deletedOf⟩
  | error =>
    refine ⟨_, hreads.handled.trans (connEventHandleConnError_handled (setError
      (timerReset lib c' (c'.transPending = []))
        (ascii "Invalid response format received. Disconnect.")) .error fun _ => hrep'.live_of_waits),
      Or.inl ?_⟩
    rw [deletedOf_append, hreads.deletedOf, deletedOf_teardownRecord, List.append_nil]

/-- The first piece of the handler frees nothing. -/
theorem handlerEnter_done (event : IoEvent) (r : Conn × Pc) (hrep : Rep c.toTransStore)
    (h : handlerEnter lib c event = some r) : ∃ new, PieceDone c r new := by
  have hstill : ∀ r : Conn × Pc, r.1.toTransStore = c.toTransStore → ∃ new, PieceDone c r new :=
    fun r hr => ⟨[], hr ▸ .refl _, Or.inl rfl⟩
  cases event with
  | connected draws written =>
    simp only [handlerEnter] at h
    split at h
    · obtain rfl := Option.some.inj h
      let up : Conn := { c with inUse := true, io := c.io.map fun io => { io with up := true } }
      obtain ⟨new, hnew⟩ := connCleanupPing_done lib up rfl .disabled
      exact ⟨new, hnew.handled, hnew.deletes⟩
    · obtain ⟨⟨c', p⟩, hping, rfl⟩ := Option.map_eq_some_iff.mp h
      obtain ⟨draw, -, rfl, rfl⟩ := transPingRequest_spec hping
      obtain ⟨htrace, hevents, hdelay, hnext, hlive, hnamed, hdeleted, hkept⟩ :=
        (Handled.create c.toTransStore { Trans.fresh draw.val .ping with status := .pending }).trans
          ((Handled.log _ (.created c.nextPtr .ping) ⟨rfl, rfl, rfl⟩).trans (Handled.log _
            (.framed c.nextPtr .ping c.status (requestFrame lib draw.val pingParams)) ⟨rfl, rfl, rfl⟩))
      exact ⟨_, ⟨htrace, hevents, hdelay, hnext, hlive, hnamed, hdeleted, hkept⟩, Or.inl rfl⟩
  | failed failure text =>
    obtain rfl := Option.some.inj h
    let failed : Conn := setError { c with inUse := true }
      (if c.status = .idleTimeout then ascii "Idle connection timeout" else text)
    exact ⟨_, connEventHandleConnError_handled failed failure fun _ => hrep.live_of_waits,
      Or.inl (deletedOf_teardownRecord failed failure)⟩
  | read chunk =>
    obtain rfl := Option.some.inj h
    obtain ⟨new, hnew⟩ := readFrames_done lib
      { c with inUse := true, inbuf := c.inbuf ++ chunk } hrep rfl
    exact ⟨new, hnew.handled, hnew.deletes⟩
  | readFailed | write written =>
    obtain rfl := Option.some.inj h
    exact hstill _ rfl
  | timer =>
    simp only [handlerEnter] at h
    split at h
    · obtain rfl := Option.some.inj h
      obtain ⟨new, hnew⟩ := connCleanupPing_done lib { c with inUse := true } rfl .timeout
      exact ⟨new, hnew.handled, hnew.deletes⟩
    · split at h
      · obtain rfl := Option.some.inj h
        obtain ⟨io, status, heq, -⟩ := connDisconnectConnlocked_eq { c with inUse := true }
        exact hstill _ (by simp only [heq])
      · obtain rfl := Option.some.inj h
        exact hstill _ rfl
  | transTimer p =>
    simp only [handlerEnter] at h
    split at h
    · obtain rfl := Option.some.inj h
      exact hstill _ rfl
    · rename_i t ht
      obtain rfl := Option.some.inj h
      have hadd := Handled.connEventAdd c.toTransStore .transTimeout (some p) fun q hq => by
        obtain rfl := Option.some.inj hq
        simp [show c.heap p = some t from ht]
      have hkill : Handled (c.toTransStore.connEventAdd .transTimeout (some p))
          { c.toTransStore.connEventAdd .transTimeout (some p) with
            heap := Function.update c.heap p (some { t with timeoutTimer := false })
            transTimers := c.transTimers.filter fun timer => timer.1 ≠ p } [] :=
        Handled.still (List.append_nil _).symm ⟨rfl, rfl, by simp⟩ rfl rfl rfl (Handled.live_update ht)
      exact ⟨_, hadd.trans hkill, Or.inl rfl⟩

/-- The piece of the handler after `LM_conn_cleanup_ping` frees and deletes nothing. -/
theorem handlerResume_done (pingEnd : PingEnd) (hrep : Rep c.toTransStore) (hbusy : c.inUse = true)
    (hquiet : pingEnd ≠ .timeout → c.toTransStore.quiet) :
    ∃ new, Handled c.toTransStore (handlerResume lib c pingEnd).1.toTransStore new ∧
      deletedOf new = [] := by
  let forgotten : Conn := { c with pingtxn := none }
  have hforget : Handled c.toTransStore forgotten.toTransStore [] :=
    Handled.still (List.append_nil _).symm ⟨rfl, rfl, by simp⟩ rfl rfl rfl fun _ => Iff.rfl
  have hrep' : Rep forgotten.toTransStore := (@InternalStep.forgetPing lib c.toTransStore).rep hrep
  cases pingEnd with
  | disabled =>
    obtain ⟨sent, hup, hsends⟩ :=
      connEventSetConnected_handled forgotten lib hrep' (hquiet (by decide))
    exact ⟨_, hforget.trans hup, by simpa [deletedOf] using deletedOf_sends hsends⟩
  | reply =>
    have hq := hquiet (by decide)
    obtain ⟨sent, hup, hsends⟩ := connEventSetConnected_handled forgotten lib hrep' hq
    obtain ⟨s, outbuf, timer, trigger, heq, hsteps, -, -, hping, -⟩ :=
      connEventSetConnected_spec lib forgotten hrep' hq
    have hnone : (connEventSetConnected lib forgotten).pingtxn = none := by
      rw [heq]
      exact hping
    obtain ⟨new, hread⟩ := readFrames_done lib (connEventSetConnected lib forgotten)
      (by rw [heq]; exact InternalSteps.rep hsteps hrep') (by rw [heq]; exact hbusy)
    refine ⟨_, hforget.trans (hup.trans hread.handled), ?_⟩
    -- no ping is left that the frames behind the reply could end
    have hdeleted : deletedOf new = [] := by
      refine hread.deletes.resolve_right fun h => ?_
      obtain ⟨p, -, -, hp, -⟩ := h
      rw [hnone] at hp
      cases hp
    simp only [List.nil_append, deletedOf_append, hdeleted, List.append_nil]
    simpa [deletedOf] using deletedOf_sends hsends
  | timeout =>
    let failed : Conn := setError forgotten (ascii "Failed to receive reply to PING request")
    exact ⟨_, hforget.trans (connEventHandleConnError_handled failed .error fun _ => hrep'.live_of_waits),
      deletedOf_teardownRecord failed .error⟩

/-- `LM_trans_set_param` and `LM_trans_set_timeout` only change fields. -/
theorem handled_edit {s : TransStore} {heap : Ptr → Option Trans}
    (h : ∀ p, (heap p).isSome ↔ (s.heap p).isSome) : Handled s { s with heap := heap } [] :=
  Handled.still (List.append_nil _).symm ⟨rfl, rfl, by simp⟩ rfl rfl rfl h

theorem transSetParam_handled (p : Ptr) (key : Bytes) (value : Option Bytes) :
    Handled c.toTransStore (transSetParam c p key value).1.toTransStore [] := by
  unfold transSetParam
  split
  · exact .refl _
  · rename_i t ht
    split
    · exact handled_edit (Handled.live_update ht)
    · exact .refl _

theorem transSetTimeout_handled (p : Ptr) (timeoutS : ℕ) :
    Handled c.toTransStore (transSetTimeout c p timeoutS).1.toTransStore [] := by
  unfold transSetTimeout
  split
  · exact .refl _
  · rename_i t ht
    split
    · exact handled_edit (Handled.live_update ht)
    · exact .refl _

/-- `LM_trans_send` deletes nothing. -/
theorem transSend_done (p : Ptr) (hrep : Rep c.toTransStore)
    (hquiet : c.status = .connected → c.toTransStore.quiet) :
    ∃ new, Handled c.toTransStore (transSend lib c p).conn.toTransStore new ∧ deletedOf new = [] := by
  obtain ⟨-, new, hnew, hkind⟩ := transSend_handled lib c p hrep hquiet
  refine ⟨new, hnew, deletedOf_eq_nil fun q hq => ?_⟩
  rcases hkind _ hq with hsent | hsent
  · cases hsent
  · cases hsent

end Pieces

/-- `LM_trans_delete` outside a handler frees the transaction at once. -/
theorem transDelete_idle {c : Conn} {p : Ptr} {t : Trans} (ht : c.heap p = some t)
    (hidle : c.inUse = false) : (transDelete lib c p).toTransStore =
      ((c.toTransStore.killTimeoutTimer p t).log (.deleted p)).free p t := by
  have hkilled : ((c.toTransStore.killTimeoutTimer p t).log (.deleted p)).heap p =
      some { t with timeoutTimer := false } := by
    change (c.toTransStore.killTimeoutTimer p t).heap p = _
    rw [TransStore.heap_killTimeoutTimer _ _ _ ht, Function.update_self]
  obtain ⟨timer, heq⟩ := @transDeleteUnlocked_eq lib
    { c with toTransStore := (c.toTransStore.killTimeoutTimer p t).log (.deleted p) } p _ hkilled
  rw [transDelete, ht]
  dsimp only
  rw [if_neg (by simp [hidle]), heq]
  rfl

section Drain

variable (lib)

/-- `LM_trans_delete_unlocked` frees one transaction, and touches no timer and no pointer to it. -/
theorem transDeleteUnlocked_heap (c : Conn) (p : Ptr) :
    (transDeleteUnlocked lib c p).heap = Function.update c.heap p none ∧
      (transDeleteUnlocked lib c p).transTimers = c.transTimers ∧
      (transDeleteUnlocked lib c p).nextPtr = c.nextPtr ∧
      (transDeleteUnlocked lib c p).pingtxn = c.pingtxn := by
  cases ht : c.heap p with
  | none =>
    have hsame : transDeleteUnlocked lib c p = c := by simp [transDeleteUnlocked, ht]
    rw [hsame]
    exact ⟨by rw [← ht, Function.update_eq_self], rfl, rfl, rfl⟩
  | some t =>
    obtain ⟨timer, heq⟩ := transDeleteUnlocked_eq lib ht
    rw [heq]
    exact ⟨rfl, TransStore.transTimers_free _ p t, TransStore.nextPtr_free _ p t,
      TransStore.pingtxn_free _ p t⟩

/-- The drain frees exactly the transactions on the list. -/
theorem drainDelayRm_heap (delayed : List Ptr) (c : Conn) (q : Ptr) :
    (drainDelayRm lib delayed c).heap q = if q ∈ delayed then none else c.heap q := by
  induction delayed generalizing c with
  | nil => simp [drainDelayRm]
  | cons p rest ih =>
    rw [drainDelayRm, ih, (transDeleteUnlocked_heap lib _ p).1, Function.update_apply]
    by_cases hq : q = p <;> simp [hq]

/-- The drain removes no timeout timer, hands out no pointer and leaves the one to the ping alone. -/
theorem drainDelayRm_kept (delayed : List Ptr) (c : Conn) :
    (drainDelayRm lib delayed c).transTimers = c.transTimers ∧
      (drainDelayRm lib delayed c).nextPtr = c.nextPtr ∧
      (drainDelayRm lib delayed c).pingtxn = c.pingtxn := by
  induction delayed generalizing c with
  | nil => exact ⟨rfl, rfl, rfl⟩
  | cons p rest ih =>
    obtain ⟨-, htimers, hnext, hping⟩ := transDeleteUnlocked_heap lib { c with transDelayRm := rest } p
    obtain ⟨htimers', hnext', hping'⟩ := ih (transDeleteUnlocked lib { c with transDelayRm := rest } p)
    exact ⟨htimers'.trans htimers, hnext'.trans hnext, hping'.trans hping⟩

end Drain

/-- A transaction that a caller creates. -/
theorem created_handled (c : Conn) (t : Trans) : Handled c.toTransStore
    ((c.toTransStore.create t).log (.created c.nextPtr .user)) [.created c.nextPtr .user] :=
  (Handled.create c.toTransStore t).trans (Handled.log _ (.created c.nextPtr .user) ⟨rfl, rfl, rfl⟩)

/-- `LM_trans_delete` is put off, frees the transaction, or does nothing with a pointer that is none. -/
theorem transDelete_turn {s : Sys} (p : Ptr) :
    Turn lib s { s with conn := transDelete lib s.conn p } (.transDelete p) := by
  cases ht : s.conn.heap p with
  | none =>
    have hsame : transDelete lib s.conn p = s.conn := by simp [transDelete, ht]
    exact .served [] rfl ⟨by rw [hsame]; exact .refl _, Or.inl rfl⟩
  | some t =>
    cases hidle : s.conn.inUse with
    | true =>
      refine .served [.deleted p] rfl ⟨?_, Or.inr ⟨p, rfl, Or.inl rfl⟩⟩
      simp only [transDelete_inUse ht hidle]
      exact Handled.defer ht
    | false => exact .deleted p t rfl hidle ht (transDelete_idle ht hidle)

/-- The handler returns, and frees a connection that has been destroyed. -/
theorem finish_turn {s : Sys} (hrunning : Running lib s)
    (hpc : s.pc = .reconnecting false ∨ s.pc = .finishing) :
    Turn lib s { s with conn := if s.conn.destroy then connDestroy s.conn else s.conn, pc := .idle }
      .finish := by
  obtain ⟨hidle, -, -⟩ := hrunning.link.rest (by rcases hpc with hpc | hpc <;> rw [hpc] <;> rfl)
  cases hd : s.conn.destroy with
  | true => exact .destroyed hd hidle (by simp [connDestroy, hidle]) (connDestroy_idle hidle).1
  | false => exact .served [] (by simp [Action.clears, Action.destroys, hd]) ⟨.refl _, Or.inl rfl⟩

/-- Every action is one of these turns. -/
theorem sysStep_turn {s s' : Sys} {a : Action} (h : sysStep lib s a = some s')
    (hrunning : Running lib s) : Turn lib s s' a := by
  have hsame : a.clears s.conn = false → s'.conn.toTransStore = s.conn.toTransStore → Turn lib s s' a :=
    fun hclears hstore => .served [] hclears ⟨hstore ▸ .refl _, Or.inl rfl⟩
  have hconnect : ∀ callers net who,
      (enterConnect lib { s with callers := callers } net who).1.conn.toTransStore =
      s.conn.toTransStore := by
    intro callers net who
    obtain ⟨io, tlsctx, error, status, connecting, heq, -⟩ :=
      enterConnect_spec lib { s with callers := callers } net who
    rw [heq]
  cases sysStep_effect h with
  | transNew draws c p hnew =>
    obtain ⟨draw, -, -, rfl⟩ := transNew_spec hnew
    exact .served _ rfl ⟨created_handled s.conn _, Or.inl rfl⟩
  | transRunNew draws params c p hnew =>
    obtain ⟨draw, -, -, rfl⟩ := transRunNew_spec hnew
    exact .served _ rfl ⟨created_handled s.conn _, Or.inl rfl⟩
  | transSetParam p key value => exact .served _ rfl ⟨transSetParam_handled s.conn p key value, Or.inl rfl⟩
  | transSetTimeout p timeoutS => exact .served _ rfl ⟨transSetTimeout_handled s.conn p timeoutS, Or.inl rfl⟩
  | transSend p =>
    obtain ⟨new, hnew, hnone⟩ := transSend_done lib s.conn p hrunning.rep hrunning.link.connected
    exact .served new rfl ⟨hnew, Or.inl hnone⟩
  | transDelete p => exact transDelete_turn p
  | connConnect net => exact hsame rfl (hconnect s.callers net .caller)
  | implicitConnect net hcallers => exact hsame rfl (hconnect (s.callers - 1) net .caller)
  | reconnect net hpc => exact hsame rfl (hconnect s.callers net .handler)
  | connectFinish eventAdd who hwho =>
    obtain ⟨io, status, error, heq, -⟩ := connConnectFinish_spec s.conn eventAdd
    exact hsame rfl (by simp only [heq])
  | connDisconnect =>
    obtain ⟨io, status, heq, -⟩ := connDisconnectConnlocked_eq s.conn
    exact hsame rfl (by simp only [heq])
  | connDestroy =>
    cases hbusy : s.conn.inUse with
    | true => exact hsame (by simp [Action.clears, Action.destroys, hbusy]) (by simp [connDestroy, hbusy])
    | false =>
      exact .destroyed (by simp [Action.destroys, hbusy]) hbusy (by simp [connDestroy, hbusy])
        (connDestroy_idle hbusy).1
  | configures _ c hsets hc =>
    obtain ⟨_, _, _, _, _, _, _, _, rfl, -⟩ := hc
    exact hsame (by cases a <;> first | rfl | cases hsets) rfl
  | event event r hidle _ hr =>
    obtain ⟨new, hnew, hdeletes⟩ := handlerEnter_done lib s.conn event r hrunning.rep hr
    refine .served new rfl ⟨hnew, hdeletes.imp_right ?_⟩
    rintro ⟨p, pingEnd, hdeleted, hp, hpc⟩
    exact ⟨p, hdeleted, Or.inr ⟨hp, hidle, pingEnd, hpc⟩⟩
  | resume pingEnd hpc =>
    obtain ⟨new, hnew, hnone⟩ := handlerResume_done lib s.conn pingEnd hrunning.rep
      (hrunning.link.busy (by rw [hpc]; rfl)) fun hne => hrunning.link.cleaning (by
        cases pingEnd with
        | disabled => exact Or.inr hpc
        | reply => exact Or.inl hpc
        | timeout => exact absurd rfl hne)
    exact .served new rfl ⟨hnew, Or.inl hnone⟩
  | deliver e rest hpc hevents => exact .delivered e rest rfl hpc hevents rfl
  | callbackReturn hpc => exact .returned rfl hpc rfl
  | drain hpc hevents => exact .drained rfl hpc hevents rfl
  | finish hpc => exact finish_turn hrunning hpc

end LibMonetra
