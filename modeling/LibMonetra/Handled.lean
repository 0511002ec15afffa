import LibMonetra.Link

/-!
# What a piece of the library leaves alone

Outside three places, deletions outside a handler, the drain at its end and the end of the
connection, no piece of the library frees a transaction, takes an event off the list of the running
handler or forgets a deferred deletion. What a piece adds to both lists is what it records.
-/

namespace LibMonetra

variable {lib : Mstdlib}

/-- The events that a record queues, in order. -/
def eventsOf (trace : List Obs) : List Event :=
  trace.filterMap fun o => match o with
    | .queued e => some e
    | _ => none

/-- The transactions that a record deletes, in order. -/
def deletedOf (trace : List Obs) : List Ptr :=
  trace.filterMap fun o => match o with
    | .deleted p => some p
    | _ => none

@[simp] theorem eventsOf_append (trace later : List Obs) :
    eventsOf (trace ++ later) = eventsOf trace ++ eventsOf later := List.filterMap_append

@[simp] theorem deletedOf_append (trace later : List Obs) :
    deletedOf (trace ++ later) = deletedOf trace ++ deletedOf later := List.filterMap_append

/-- An event is queued by a record exactly when the record says so. -/
theorem mem_eventsOf {trace : List Obs} {e : Event} : e ∈ eventsOf trace ↔ .queued e ∈ trace := by
  constructor
  · intro h
    obtain ⟨o, ho, he⟩ := List.mem_filterMap.mp h
    cases o <;> simp_all
  · exact fun h => List.mem_filterMap.mpr ⟨_, h, rfl⟩

/-- A transaction is deleted by a record exactly when the record says so. -/
theorem mem_deletedOf {trace : List Obs} {p : Ptr} : p ∈ deletedOf trace ↔ .deleted p ∈ trace := by
  constructor
  · intro h
    obtain ⟨o, ho, hp⟩ := List.mem_filterMap.mp h
    cases o <;> simp_all
  · exact fun h => List.mem_filterMap.mpr ⟨_, h, rfl⟩

/-- A record deletes nothing when it does not say so. -/
theorem deletedOf_eq_nil {trace : List Obs} (h : ∀ p, .deleted p ∉ trace) : deletedOf trace = [] :=
  List.eq_nil_iff_forall_not_mem.mpr fun p hp => h p (mem_deletedOf.mp hp)

/-- Whether a record says that something was freed. -/
def Obs.frees : Obs → Bool
  | .freed _ | .connFreed => true
  | _ => false

/-- A piece of the library that frees nothing: what it adds to the list of events and to the deferred
deletions is what it records, and both name live transactions. -/
structure Handled (s s' : TransStore) (new : List Obs) : Prop where
  trace : s'.trace = s.trace ++ new
  events : s'.events = s.events ++ eventsOf new
  delayed : s'.transDelayRm = s.transDelayRm ++ deletedOf new
  next : s.nextPtr ≤ s'.nextPtr
  live : ∀ p, (s'.heap p).isSome ↔ (s.heap p).isSome ∨ (s.nextPtr ≤ p ∧ p < s'.nextPtr)
  named : ∀ type p, ⟨type, some p⟩ ∈ eventsOf new → (s'.heap p).isSome
  deleted : ∀ p ∈ deletedOf new, (s'.heap p).isSome
  kept : ∀ o ∈ new, o.frees = false

/-- Two stretches of new pointers are one. -/
theorem between_trans {P : Prop} {a b c p : ℕ} (hab : a ≤ b) (hbc : b ≤ c) :
    (P ∨ (a ≤ p ∧ p < b)) ∨ (b ≤ p ∧ p < c) ↔ P ∨ (a ≤ p ∧ p < c) := by
  rw [or_assoc]
  exact or_congr_right (by omega)

namespace Handled

variable {s s' s'' : TransStore} {new new' : List Obs} {p : Ptr} {t t' : Trans}

/-- A piece that creates no transaction and neither queues nor deletes. -/
theorem still (htrace : s'.trace = s.trace ++ new)
    (hnew : eventsOf new = [] ∧ deletedOf new = [] ∧ ∀ o ∈ new, o.frees = false)
    (hevents : s'.events = s.events) (hdelay : s'.transDelayRm = s.transDelayRm)
    (hnext : s'.nextPtr = s.nextPtr) (hlive : ∀ p, (s'.heap p).isSome ↔ (s.heap p).isSome) :
    Handled s s' new where
  trace := htrace
  events := by rw [hevents, hnew.1, List.append_nil]
  delayed := by rw [hdelay, hnew.2.1, List.append_nil]
  next := hnext.ge
  live p := by
    rw [hlive, hnext]
    exact ⟨Or.inl, fun h => h.resolve_right fun hp => absurd hp.1 (Nat.not_le.mpr hp.2)⟩
  named type p hmem := by simp [hnew.1] at hmem
  deleted p hmem := by simp [hnew.2.1] at hmem
  kept := hnew.2.2

/-- Doing nothing. -/
theorem refl (s : TransStore) : Handled s s [] :=
  still (List.append_nil _).symm ⟨rfl, rfl, by simp⟩ rfl rfl rfl fun _ => Iff.rfl

/-- Two pieces are one. -/
theorem trans (h : Handled s s' new) (h' : Handled s' s'' new') : Handled s s'' (new ++ new') where
  trace := by rw [h'.trace, h.trace, List.append_assoc]
  events := by rw [h'.events, h.events, eventsOf_append, List.append_assoc]
  delayed := by rw [h'.delayed, h.delayed, deletedOf_append, List.append_assoc]
  next := h.next.trans h'.next
  live p := by
    rw [h'.live, h.live]
    exact between_trans h.next h'.next
  named type p hmem := by
    rw [eventsOf_append, List.mem_append] at hmem
    rcases hmem with hold | hlater
    · exact (h'.live p).mpr (Or.inl (h.named type p hold))
    · exact h'.named type p hlater
  deleted p hmem := by
    rw [deletedOf_append, List.mem_append] at hmem
    rcases hmem with hold | hlater
    · exact (h'.live p).mpr (Or.inl (h.deleted p hold))
    · exact h'.deleted p hlater
  kept := List.forall_mem_append.mpr ⟨h.kept, h'.kept⟩

/-- New fields for a live transaction leave the others alone. -/
theorem live_update (ht : s.heap p = some t) (q : Ptr) :
    (Function.update s.heap p (some t') q).isSome ↔ (s.heap q).isSome := by
  rw [Function.update_apply]
  split
  · rename_i hq
    simp [hq, ht]
  · rfl

/-- An event about a live transaction, or about the connection. -/
theorem connEventAdd (s : TransStore) (type : EventType) (q : Option Ptr)
    (hq : ∀ p, q = some p → (s.heap p).isSome) :
    Handled s (s.connEventAdd type q) [.queued ⟨type, q⟩] where
  trace := rfl
  events := rfl
  delayed := (List.append_nil _).symm
  next := le_rfl
  live p := ⟨Or.inl, fun h => h.resolve_right fun hp => absurd hp.1 (Nat.not_le.mpr hp.2)⟩
  named type' p hmem := by
    obtain ⟨-, rfl⟩ := Event.mk.inj (List.mem_singleton.mp hmem)
    exact hq p rfl
  deleted p hmem := by cases hmem
  kept o ho := by
    obtain rfl := List.mem_singleton.mp ho
    rfl

/-- The end of a timeout timer. -/
theorem killTimeoutTimer (ht : s.heap p = some t) : Handled s (s.killTimeoutTimer p t) [] :=
  still (by simp) ⟨rfl, rfl, by simp [Obs.frees]⟩ (by simp) (by simp) (by simp) fun q => by
    rw [TransStore.heap_killTimeoutTimer s p t ht]
    exact live_update ht q

/-- New fields and a new queue for a live transaction. -/
theorem move (ht : s.heap p = some t) : Handled s (s.move p t t') [] :=
  still (by simp) ⟨rfl, rfl, by simp [Obs.frees]⟩ (by simp) (by simp) (by simp) fun q => by
    rw [TransStore.heap_move]
    exact live_update ht q

/-- A record that says nothing about events or deletions. -/
theorem log (s : TransStore) (o : Obs)
    (ho : eventsOf [o] = [] ∧ deletedOf [o] = [] ∧ o.frees = false) : Handled s (s.log o) [o] :=
  still rfl ⟨ho.1, ho.2.1, by simpa using ho.2.2⟩ rfl rfl rfl fun _ => Iff.rfl

/-- A submission. -/
theorem submit (ht : s.heap p = some t) (armed : Bool) (interval : ℕ) (frame : Bytes) :
    Handled s (s.submit p t armed interval frame) [.framed p t.owner .connected frame] :=
  still (by simp) ⟨rfl, rfl, by simp [Obs.frees]⟩ (by simp) (by simp) (by simp) fun q => by
    rw [TransStore.heap_submit]
    exact live_update ht q

/-- A new transaction under a pointer of its own. -/
theorem create (s : TransStore) (t : Trans) : Handled s (s.create t) [] where
  trace := by simp
  events := by simp [eventsOf]
  delayed := by simp [deletedOf]
  next := by simp
  live p := by
    rw [TransStore.heap_create, Function.update_apply, TransStore.nextPtr_create]
    split
    · rename_i hp
      simp [hp]
    · rename_i hp
      refine ⟨Or.inl, fun h => h.resolve_right fun hnew => hp ?_⟩
      exact Nat.le_antisymm (Nat.lt_succ_iff.mp hnew.2) hnew.1
  named type p hmem := by cases hmem
  deleted p hmem := by cases hmem
  kept o ho := by cases ho

/-- A deferred deletion. -/
theorem defer (ht : s.heap p = some t) : Handled s (s.defer p t) [.deleted p] where
  trace := by simp [TransStore.defer, TransStore.log]
  events := by simp [TransStore.defer, TransStore.log, eventsOf]
  delayed := by simp [TransStore.defer, TransStore.log, deletedOf]
  next := by simp [TransStore.defer, TransStore.log]
  live q := by
    have hkill := (killTimeoutTimer ht).live q
    simpa [TransStore.defer, TransStore.log] using hkill
  named type q hmem := by cases hmem
  deleted q hmem := by
    obtain rfl := List.mem_singleton.mp hmem
    have hkill := (killTimeoutTimer ht).live q
    simpa [TransStore.defer, TransStore.log, ht] using hkill
  kept := by simp [Obs.frees]

/-- Whatever a piece does to the queues is not part of this. -/
theorem queueTake (h : Handled s s' new) (status : TransStatus) (p : Ptr) :
    Handled s (s'.queueTake status p) new :=
  ⟨by simp [h.trace], by simp [h.events], by simp [h.delayed], by simp [h.next],
    fun q => by simp [h.live], fun type q hmem => by simpa using h.named type q hmem,
    fun q hmem => by simpa using h.deleted q hmem, h.kept⟩

end Handled

/-- Whether a record puts a request on the wire of a connection that is up. -/
def Obs.sends : Obs → Bool
  | .framed _ _ .connected _ => true
  | _ => false

/-- The record of an event. -/
def queuedAs (type : EventType) (p : Ptr) : Obs := .queued ⟨type, some p⟩

/-- Requests delete nothing. -/
theorem deletedOf_sends {new : List Obs} (h : ∀ o ∈ new, o.sends = true) : deletedOf new = [] :=
  deletedOf_eq_nil fun _ hp => Bool.noConfusion (h _ hp)

section Send

variable (lib) (c : Conn)

/-- The loop of `LM_trans_send_messages`. -/
theorem sendMessagesLoop_handled (ready : List Ptr) (hready : c.transReady = ready)
    (hrep : Rep c.toTransStore) (hstatus : c.status = .connected) (hquiet : c.toTransStore.quiet) :
    ∃ new, Handled c.toTransStore (sendMessagesLoop lib ready c).toTransStore new ∧
      ∀ o ∈ new, o.sends = true := by
  induction ready generalizing c with
  | nil => exact ⟨[], .refl _, by simp⟩
  | cons p rest ih =>
    obtain ⟨t, ht, hturn, hstep, hrest, hnext⟩ := sendMessagesLoop_turn lib hready hrep hstatus hquiet
    obtain ⟨new, hnew, hsends⟩ := ih (c.submitFirst lib p t) hrest (hstep.rep hrep) hstatus hnext
    rw [hturn]
    refine ⟨_, (Handled.submit ht _ _ _).trans hnew, fun o ho => ?_⟩
    rcases List.mem_append.mp ho with ho | ho
    · obtain rfl := List.mem_singleton.mp ho
      rfl
    · exact hsends o ho

/-- `LM_trans_send_messages`. -/
theorem transSendMessages_handled (hrep : Rep c.toTransStore)
    (hquiet : c.status = .connected → c.toTransStore.quiet) :
    (transSendMessages lib c).1.pingtxn = c.pingtxn ∧
      ∃ new, Handled c.toTransStore (transSendMessages lib c).1.toTransStore new ∧
        ∀ o ∈ new, o.sends = true := by
  obtain ⟨s, outbuf, timer, trigger, heq, -, -, -, hping, -⟩ := transSendMessages_spec lib c hrep hquiet
  refine ⟨by rw [heq]; exact hping, ?_⟩
  unfold transSendMessages
  split
  · exact ⟨[], .refl _, by simp⟩
  · split
    · exact ⟨[], .refl _, by simp⟩
    · rename_i hne
      rw [ne_eq, Decidable.not_not] at hne
      exact sendMessagesLoop_handled lib c c.transReady rfl hrep hne (hquiet hne)

/-- `LM_trans_send`. -/
theorem transSend_handled (p : Ptr) (hrep : Rep c.toTransStore)
    (hquiet : c.status = .connected → c.toTransStore.quiet) :
    (transSend lib c p).conn.pingtxn = c.pingtxn ∧
      ∃ new, Handled c.toTransStore (transSend lib c p).conn.toTransStore new ∧
        ∀ o ∈ new, o = .accepted p ∨ o.sends = true := by
  unfold transSend
  split
  · exact ⟨rfl, [], .refl _, by simp⟩
  · rename_i t ht
    split
    · exact ⟨rfl, [], .refl _, by simp⟩
    · rename_i hsend
      have hst : t.status = .new := by
        by_contra hne
        exact hsend (Or.inl hne)
      have hmoved : ({ c with
          heap := Function.update c.heap p (some { t with status := .ready })
          transNew := c.transNew.erase p
          transReady := c.transReady ++ [p]
          trace := c.trace ++ [.accepted p] } : Conn).toTransStore =
            (c.toTransStore.move p t { t with status := .ready }).log (.accepted p) := by
        simp [TransStore.move, TransStore.queueTake, TransStore.setTrans, TransStore.log, hst]
      have haccept := (@Handled.move _ p t { t with status := .ready } ht).trans
        (Handled.log (c.toTransStore.move p t { t with status := .ready }) (.accepted p) ⟨rfl, rfl, rfl⟩)
      rw [← hmoved] at haccept
      have hrep' := (@StoreStep.accept lib c.toTransStore p t ht hst).rep hrep
      rw [← hmoved] at hrep'
      obtain ⟨hping, new, hnew, hsends⟩ := transSendMessages_handled lib _ hrep' hquiet
      refine ⟨hping, _, haccept.trans hnew, fun o ho => ?_⟩
      rcases List.mem_append.mp ho with ho | ho
      · exact Or.inl (by simpa using ho)
      · exact Or.inr (hsends o ho)

end Send

section Events

variable (c : Conn)

/-- The `NOCONNECT` events leave everything but the list of events alone. -/
theorem noconnectEvents_eq (ready : List Ptr) :
    noconnectEvents ready c = { c with
      events := c.events ++ ready.map fun p => ⟨.transNoconnect, some p⟩
      trace := c.trace ++ ready.map (queuedAs .transNoconnect) } := by
  induction ready generalizing c with
  | nil => simp [noconnectEvents]
  | cons p rest ih => simp [noconnectEvents, ih, TransStore.connEventAdd, queuedAs]

/-- The `NOCONNECT` events of live transactions. -/
theorem noconnectEvents_handled (ready : List Ptr) (hlive : ∀ p ∈ ready, (c.heap p).isSome) :
    Handled c.toTransStore (noconnectEvents ready c).toTransStore
      (ready.map (queuedAs .transNoconnect)) := by
  induction ready generalizing c with
  | nil => exact .refl _
  | cons p rest ih =>
    have hadd := Handled.connEventAdd c.toTransStore .transNoconnect (some p) fun q hq => by
      obtain rfl := Option.some.inj hq
      exact hlive p List.mem_cons_self
    exact hadd.trans (ih { c with toTransStore := c.toTransStore.connEventAdd .transNoconnect (some p) }
      fun q hq => hlive q (List.mem_cons_of_mem p hq))

/-- The failure of one pending transaction. -/
theorem failPending_handled {p : Ptr} {t : Trans} (ht : c.heap p = some t) :
    Handled c.toTransStore (failPending c p).toTransStore [queuedAs .transError p] := by
  have hdone : Handled c.toTransStore { c.toTransStore with
      transDone := c.transDone ++ [p]
      heap := Function.update c.heap p (some { t with
        status := .done
        responseType := .kv
        responseParams := some (denyResponse c.error) }) } [] :=
    Handled.still (List.append_nil _).symm ⟨rfl, rfl, by simp⟩ rfl rfl rfl (Handled.live_update ht)
  unfold failPending
  rw [ht]
  have hkilled := hdone.trans (Handled.killTimeoutTimer (Function.update_self ..))
  refine hkilled.trans (Handled.connEventAdd _ .transError (some p) fun q hq => ?_)
  obtain rfl := Option.some.inj hq
  exact (hkilled.live p).mpr (Or.inl (by simp [ht]))

/-- The failure of all pending transactions. -/
theorem failPendingLoop_handled (pending : List Ptr) (hlive : ∀ p ∈ pending, (c.heap p).isSome) :
    Handled c.toTransStore (failPendingLoop pending c).toTransStore
      (pending.map (queuedAs .transError)) := by
  induction pending generalizing c with
  | nil => exact .refl _
  | cons p rest ih =>
    obtain ⟨t, ht⟩ := Option.isSome_iff_exists.mp (hlive p List.mem_cons_self)
    have hone := failPending_handled { c with transPending := rest } ht
    have hthis : Handled c.toTransStore (failPending { c with transPending := rest } p).toTransStore
        [queuedAs .transError p] :=
      ⟨hone.trace, hone.events, hone.delayed, hone.next, hone.live, hone.named, hone.deleted,
        hone.kept⟩
    exact hthis.trans (ih _ fun q hq =>
      (hone.live q).mpr (Or.inl (hlive q (List.mem_cons_of_mem p hq))))

/-- The event that ends a connection: a disconnect when the server closed it in order or the library
had asked for it. -/
def terminalType (status : ConnStatus) (failure : IoFailure) : EventType :=
  if failure = .disconnected ∨ status = .disconnecting ∨ status = .idleTimeout then .connDisconnect
  else .connError

/-- What the end of a connection records: a `NOCONNECT` for every transaction that is still `READY`,
an error for every pending one, and the end of the connection. -/
def teardownRecord (c : Conn) (failure : IoFailure) : List Obs :=
  (if c.status = .idleTimeout then [] else c.transReady).map (queuedAs .transNoconnect) ++
    c.transPending.map (queuedAs .transError) ++ [.queued ⟨terminalType c.status failure, none⟩]

/-- The end of a connection deletes nothing. -/
theorem deletedOf_teardownRecord (failure : IoFailure) :
    deletedOf (teardownRecord c failure) = [] :=
  deletedOf_eq_nil fun p hp => by simp [teardownRecord, queuedAs] at hp

/-- The transactions that wait for the connection or for an answer are live. -/
theorem Rep.live_of_waits {s : TransStore} (h : Rep s) {p : Ptr}
    (hp : p ∈ s.transReady ∨ p ∈ s.transPending) : (s.heap p).isSome := by
  rcases hp with hp | hp
  · obtain ⟨t, ht, -⟩ := h.queued .ready p hp
    simp [ht]
  · obtain ⟨t, ht, -⟩ := h.queued .pending p hp
    simp [ht]

/-- `LM_conn_event_handle_conn_error`. -/
theorem connEventHandleConnError_handled (failure : IoFailure)
    (hlive : ∀ p, p ∈ c.transReady ∨ p ∈ c.transPending → (c.heap p).isSome) :
    Handled c.toTransStore (connEventHandleConnError c failure).toTransStore
      (teardownRecord c failure) := by
  let down : Conn := { c with
    io := none
    writeTrigger := none
    status := .disconnected
    outbuf := []
    inbuf := []
    timer := none }
  let ready := if c.status = .idleTimeout then [] else c.transReady
  have hready : ∀ p ∈ ready, (down.heap p).isSome := by
    intro p hp
    by_cases hidle : c.status = .idleTimeout
    · simp [ready, hidle] at hp
    · simp only [ready, if_neg hidle] at hp
      exact hlive p (Or.inl hp)
  have hpending : (noconnectEvents ready down).transPending = c.transPending := by
    rw [noconnectEvents_eq]
  have hfirst := noconnectEvents_handled down ready hready
  have hsecond := failPendingLoop_handled (noconnectEvents ready down)
    (noconnectEvents ready down).transPending fun p hp =>
      (hfirst.live p).mpr (Or.inl (hlive p (Or.inr (by rwa [hpending] at hp))))
  have hlast := (hfirst.trans hsecond).trans (Handled.connEventAdd _
    (terminalType c.status failure) none fun q hq => by cases hq)
  rw [teardownRecord, ← hpending]
  exact hlast

/-- `LM_conn_cleanup_ping` inside a handler puts off the deletion of the ping, and leaves the pointer to
it to its caller. -/
theorem connCleanupPing_handled (lib : Mstdlib) (hbusy : c.inUse = true) :
    (connCleanupPing lib c).pingtxn = c.pingtxn ∧
      ∃ new, Handled c.toTransStore (connCleanupPing lib c).toTransStore new ∧
        (new = [] ∨ ∃ p, c.pingtxn = some p ∧ new = [.deleted p]) := by
  unfold connCleanupPing
  simp only
  split
  · exact ⟨rfl, [], .refl _, Or.inl rfl⟩
  · rename_i p hping
    have htaken := (Handled.refl c.toTransStore).queueTake .pending p
    cases ht : c.heap p with
    | none =>
      simp only [transDelete, ht]
      exact ⟨trivial, [], htaken, Or.inl rfl⟩
    | some t =>
      rw [@transDelete_inUse lib { c with timer := none, transPending := c.transPending.erase p } p t
        ht hbusy]
      refine ⟨?_, _, htaken.trans (Handled.defer ht), Or.inr ⟨p, hping, rfl⟩⟩
      simp [TransStore.defer, TransStore.log, hping]

/-- `LM_conn_event_set_connected` after the ping is cleaned up. -/
theorem connEventSetConnected_handled (lib : Mstdlib) (hrep : Rep c.toTransStore)
    (hquiet : c.toTransStore.quiet) :
    ∃ sent, Handled c.toTransStore (connEventSetConnected lib c).toTransStore
      (.queued ⟨.connConnected, none⟩ :: sent) ∧ ∀ o ∈ sent, o.sends = true := by
  have hadd := Handled.connEventAdd c.toTransStore .connConnected none fun q hq => by cases hq
  have hadded : (c.toTransStore.connEventAdd .connConnected none).quiet := by
    intro e he
    simp only [TransStore.connEventAdd, List.mem_append, List.mem_singleton] at he
    rcases he with he | rfl
    · exact hquiet e he
    · exact EventType.noConfusion
  obtain ⟨-, sent, hsent, hsends⟩ := transSendMessages_handled lib { c with
    toTransStore := c.toTransStore.connEventAdd .connConnected none
    status := .connected } (hrep.connEventAdd _ _) fun _ => hadded
  exact ⟨sent, hadd.trans hsent, hsends⟩

end Events

end LibMonetra
