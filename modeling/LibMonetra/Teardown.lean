import LibMonetra.LifeInvariant
import LibMonetra.Stage
import LibMonetra.Walk
import Mathlib.Data.List.Count

/-!
# The end of a connection

The three ways into `LM_conn_event_handle_conn_error`, in one form: with what status and which requests
it is entered, what the handler has queued before, and what it queues itself. A connection without I/O
object then stays silent until somebody connects again.
-/

namespace LibMonetra

open Foundation

variable {lib : Mstdlib}

/-- Whether an action is a locked piece of the handler that may give up its connection. -/
def Action.handles : Action → Bool
  | .event _ | .resume => true
  | _ => false

/-- The status with which a handler gives up its connection. The answer of the ping establishes it
before anything else is read. -/
def teardownStatus (s : Sys) : ConnStatus :=
  if s.pc = .cleaning .reply then .connected else s.conn.status

/-- The requests that wait when a handler gives up its connection. The answer of the ping has sent all
of them. -/
def teardownReady (s : Sys) : List Ptr :=
  if s.pc = .cleaning .reply then [] else s.conn.transReady

/-- The transactions that are pending when a handler gives up its connection, unless it reads their
answers first. -/
def teardownPending (s : Sys) : List Ptr :=
  if s.pc = .cleaning .reply then s.conn.transPending ++ s.conn.transReady else s.conn.transPending

/-- Whether a record belongs to an action, where it tells which one that is. -/
def Obs.belongs (a : Action) : Obs → Prop
  | .callback _ => a = .deliver
  | .created _ .ping => ∃ draws written, a = .event (.connected draws written)
  | .answered _ _ _ => a = .resume ∨ ∃ chunk, a = .event (.read chunk)
  | _ => True

/-- An action gives up the connection: `LM_conn_event_handle_conn_error` is entered on `c`, after the
handler has recorded `before`. -/
structure GivenUp (s s' : Sys) (a : Action) (c : Conn) (failure : IoFailure) (before : List Obs) :
    Prop where
  pc : s'.pc = .delivering
  alive : s.conn.status ≠ .disconnected
  read : Handled s.conn.toTransStore c.toTransStore before
  torn : Handled c.toTransStore s'.conn.toTransStore (teardownRecord c failure)
  deletes : deletedOf before = []
  belongs : ∀ o ∈ before, o.belongs a
  events : ∃ done, eventsOf before =
    (if s.pc = .cleaning .reply then [⟨.connConnected, none⟩] else []) ++ done ∧
      ∀ e ∈ done, e.type = .transDone
  unread : s.pc = .idle ∨ s.pc = .cleaning .reply ∨ before = []
  reads : s.pc ≠ .cleaning .reply → ∀ o ∈ before, ReadsFrom s.conn.toTransStore o
  pending : c.transPending ⊆ teardownPending s
  answered : ∀ p ∈ teardownPending s, p ∈ c.transPending ∨ ∃ msg, .answered p .pending msg ∈ before
  status : c.status = teardownStatus s
  ready : c.transReady = teardownReady s
  left : s'.conn.transReady = c.transReady
  emptied : s'.conn.transPending = []
  down : s'.conn.status = .disconnected
  peer : failure = .disconnected ↔ ∃ text, a = .event (.failed .disconnected text)
  cause : (∃ failure text, a = .event (.failed failure text)) ∨ a = .resume ∨ ∃ chunk, a = .event (.read chunk)

section Pieces

variable (c : Conn) (failure : IoFailure)

/-- The events that reading queues. -/
theorem eventsOf_reads {s : TransStore} {new : List Obs} (h : ∀ o ∈ new, ReadsFrom s o) :
    ∀ e ∈ eventsOf new, e.type = .transDone := by
  intro e he
  rcases h _ (mem_eventsOf.mp he) with ⟨_, ho⟩ | ⟨_, _, _, ho⟩ | ⟨_, _, _, ho⟩
  · cases ho
  · cases ho
  · rw [Obs.queued.inj ho]

/-- The events of a record that queues one for each of some transactions. -/
theorem eventsOf_queuedAs (type : EventType) (queue : List Ptr) :
    eventsOf (queue.map (queuedAs type)) = queue.map fun p => ⟨type, some p⟩ := by
  induction queue with
  | nil => rfl
  | cons p rest ih => exact congrArg (List.cons _) ih

/-- The events of the end of a connection. -/
theorem eventsOf_teardownRecord :
    eventsOf (teardownRecord c failure) =
      ((if c.status = .idleTimeout then [] else c.transReady).map fun p => ⟨.transNoconnect, some p⟩) ++
        (c.transPending.map fun p => ⟨.transError, some p⟩) ++
          [⟨terminalType c.status failure, none⟩] := by
  rw [teardownRecord, eventsOf_append, eventsOf_append, eventsOf_queuedAs, eventsOf_queuedAs]
  rfl

/-- A connection ends in one of two ways. -/
theorem terminalType_cases (status : ConnStatus) (failure : IoFailure) :
    terminalType status failure = .connDisconnect ∨ terminalType status failure = .connError := by
  unfold terminalType
  split
  · exact Or.inl rfl
  · exact Or.inr rfl

/-- How often one transaction is among events that are about one transaction each. -/
theorem count_queuedAs (type type' : EventType) (queue : List Ptr) (p : Ptr) :
    (queue.map fun q => (⟨type, some q⟩ : Event)).count ⟨type', some p⟩ =
      if type = type' then queue.count p else 0 := by
  by_cases htype : type = type'
  · subst htype
    have hinj : Function.Injective fun q => (⟨type, some q⟩ : Event) :=
      fun q r hqr => Option.some.inj (Event.mk.inj hqr).2
    rw [if_pos rfl]
    exact List.count_map_of_injective _ _ hinj p
  · rw [if_neg htype]
    refine List.count_eq_zero_of_not_mem fun hmem => ?_
    obtain ⟨q, -, hq⟩ := List.mem_map.mp hmem
    exact htype (Event.mk.inj hq).1

/-- How often the end of a connection reports one transaction. -/
theorem count_teardownRecord (p : Ptr) :
    (eventsOf (teardownRecord c failure)).count ⟨.transNoconnect, some p⟩ =
        (if c.status = .idleTimeout then 0 else c.transReady.count p) ∧
      (eventsOf (teardownRecord c failure)).count ⟨.transError, some p⟩ = c.transPending.count p := by
  rw [eventsOf_teardownRecord]
  simp only [List.count_append, count_queuedAs, List.count_singleton]
  constructor
  · by_cases hidle : c.status = .idleTimeout <;> simp [hidle]
  · simp

/-- What is read belongs to a piece of the handler that reads. -/
theorem belongs_of_reads {a : Action} {s : TransStore} {new : List Obs} (h : ∀ o ∈ new, ReadsFrom s o)
    (ha : a = .resume ∨ ∃ chunk, a = .event (.read chunk)) : ∀ o ∈ new, o.belongs a := by
  intro o ho
  rcases h o ho with ⟨_, rfl⟩ | ⟨_, _, _, rfl⟩ | ⟨_, _, _, rfl⟩
  · trivial
  · exact ha
  · trivial

/-- Requests tell of no action. -/
theorem belongs_of_sends {new : List Obs} (h : ∀ o ∈ new, o.sends = true) (a : Action) :
    ∀ o ∈ new, o.belongs a := by
  intro o ho
  have hsends := h o ho
  cases o <;> trivial

/-- Reports tell of no action. -/
theorem belongs_of_isReport {new : List Obs} (h : ∀ o ∈ new, o.isReport = true) (a : Action) :
    ∀ o ∈ new, o.belongs a := by
  intro o ho
  have hreport := h o ho
  cases o <;> trivial

/-- A record that is made without the network tells at most of a callback. -/
theorem belongs_of_isLocal {a : Action} {o : Obs} (h : o.isLocal = true)
    (hcalls : ∀ e, o = .callback e → a = .deliver) : o.belongs a := by
  cases o with
  | callback e => exact hcalls e rfl
  | created p owner =>
    cases owner with
    | user => trivial
    | ping => cases h
  | answered _ _ _ => cases h
  | _ => trivial

/-- Requests queue no event. -/
theorem eventsOf_sends {new : List Obs} (h : ∀ o ∈ new, o.sends = true) : eventsOf new = [] :=
  List.eq_nil_iff_forall_not_mem.mpr fun _ he => Bool.noConfusion (h _ (mem_eventsOf.mp he))

/-- A piece that keeps the store but for its ping. -/
theorem Handled.of_pingtxn {s s' : TransStore} {new : List Obs} {ping : Option Ptr}
    (h : Handled { s with pingtxn := ping } s' new) : Handled s s' new :=
  ⟨h.trace, h.events, h.delayed, h.next, h.live, h.named, h.deleted, h.kept⟩

end Pieces

section Step

variable {s s' : Sys} {a : Action}

/-- A connection that has read before it is given up. -/
theorem GivenUp.of_reads {c c' : Conn} {old new : List Obs} (hrep : Rep s.conn.toTransStore)
    (halive : s.conn.status ≠ .disconnected)
    (hreads : Reads c c' new) (hold : Handled s.conn.toTransStore c.toTransStore old)
    (hstatus : c.status = teardownStatus s) (hready : c.transReady = teardownReady s)
    (hevents : eventsOf old = if s.pc = .cleaning .reply then [⟨.connConnected, none⟩] else [])
    (hdeletes : deletedOf old = []) (hbelongs : ∀ o ∈ old, o.belongs a)
    (hpending : c.transPending = teardownPending s) (hplace : s.pc = .idle ∨ s.pc = .cleaning .reply)
    (hfrom : s.pc ≠ .cleaning .reply → old = [] ∧ ∀ o ∈ new, ReadsFrom s.conn.toTransStore o)
    (hlive : ∀ p ∈ c.transPending, (c.heap p).isSome)
    (ha : a = .resume ∨ ∃ chunk, a = .event (.read chunk)) {error : Bytes} :
    GivenUp s { s with
        conn := connEventHandleConnError
          (setError (timerReset lib c' (c'.transPending = [])) error) .error
        pc := .delivering } a (setError (timerReset lib c' (c'.transPending = [])) error) .error
      (old ++ new) := by
  have hall := hold.trans hreads.handled
  obtain ⟨hsame, hsameReady, -⟩ := hreads.kept
  refine ⟨rfl, halive, hall, connEventHandleConnError_handled _ .error ?_, by simp [hdeletes, hreads.deletedOf],
    List.forall_mem_append.mpr ⟨hbelongs, belongs_of_reads hreads.records ha⟩,
    ⟨eventsOf new, by rw [eventsOf_append, hevents], eventsOf_reads hreads.records⟩,
    hplace.imp_right Or.inl, fun hne => ?_, hpending ▸ hreads.pending.subset, fun p hp => ?_,
    hsame.trans hstatus, hsameReady.trans hready, connEventHandleConnError_transReady _ _,
    connEventHandleConnError_transPending _ _, connEventHandleConnError_status _ _, ?_, Or.inr ha⟩
  · rintro p (hp | hp)
    · refine (hall.live p).mpr (Or.inl (hrep.live_of_waits (Or.inl ?_)))
      have hmem : p ∈ teardownReady s := hready ▸ hsameReady ▸ hp
      unfold teardownReady at hmem
      split at hmem
      · cases hmem
      · exact hmem
    · exact (hreads.handled.live p).mpr (Or.inl (hlive p (hreads.pending.subset hp)))
  · obtain ⟨rfl, hnew⟩ := hfrom hne
    exact hnew
  · exact (hreads.left p (hpending ▸ hp)).imp_right (Exists.imp fun _ => List.mem_append_right _)
  · refine iff_of_false IoFailure.noConfusion fun hpeer => ?_
    obtain ⟨text, hfailed⟩ := hpeer
    rcases ha with ha | ⟨chunk, ha⟩ <;> cases ha.symm.trans hfailed

/-- A connection that has not read is given up. -/
theorem GivenUp.of_unread (hrep : Rep s.conn.toTransStore) (halive : s.conn.status ≠ .disconnected)
    (hpc : s.pc ≠ .cleaning .reply) {c conn : Conn} {failure : IoFailure}
    (hstore : c.toTransStore = { s.conn.toTransStore with pingtxn := c.pingtxn })
    (hstatus : c.status = s.conn.status)
    (hconn : conn.toTransStore = (connEventHandleConnError c failure).toTransStore)
    (hdown : conn.status = .disconnected)
    (hpeer : failure = .disconnected ↔ ∃ text, a = .event (.failed .disconnected text))
    (hcause : (∃ failure text, a = .event (.failed failure text)) ∨ a = .resume) :
    GivenUp s { s with conn := conn, pc := .delivering } a c failure [] := by
  have hsame : Handled s.conn.toTransStore c.toTransStore [] := by
    rw [hstore]
    exact .of_pingtxn (.refl _)
  have hpending : c.transPending = teardownPending s := by
    rw [teardownPending, if_neg hpc, hstore]
  refine ⟨rfl, halive, hsame, ?_, rfl, by simp, ⟨[], by rw [if_neg hpc]; rfl, by simp⟩,
    Or.inr (Or.inr rfl), fun _ => by simp, hpending ▸ List.Subset.refl _,
    fun p hp => Or.inl (hpending ▸ hp), ?_, ?_, ?_, ?_, hdown, hpeer, hcause.imp_right Or.inl⟩
  · refine hconn ▸ connEventHandleConnError_handled c failure fun p hp => ?_
    rw [hstore] at hp ⊢
    exact hrep.live_of_waits hp
  · rw [teardownStatus, if_neg hpc, hstatus]
  · rw [teardownReady, if_neg hpc, hstore]
  · exact (congrArg TransStore.transReady hconn).trans (connEventHandleConnError_transReady c failure)
  · exact (congrArg TransStore.transPending hconn).trans (connEventHandleConnError_transPending c failure)

/-- A read event that leaves no I/O object has read no frame. -/
theorem ReadEnd.error_of_lost {c : Conn} {new : List Obs} {r : Conn × Pc} (hend : ReadEnd lib c new r)
    (hbusy : c.inUse = true) (hio : c.io ≠ none) (hio' : r.1.io = none) : ∃ c' error, Reads c c' new ∧
      r = (connEventHandleConnError (setError (timerReset lib c' (c'.transPending = [])) error) .error,
        .delivering) := by
  cases hend with
  | ping c' p t hreads hp hwait hbrought ht hst =>
    obtain ⟨st, heq, -, -, -⟩ := connCleanupPing_shape lib c' (hreads.inUse.trans hbusy)
    rw [heq] at hio'
    exact absurd (hreads.kept.2.2.symm.trans hio') hio
  | wait c' hreads => exact absurd (hreads.kept.2.2.symm.trans hio') hio
  | error c' hreads => exact ⟨c', _, hreads, rfl⟩

/-- A read event gives up the connection. -/
theorem ReadEnd.givenUp {chunk : Bytes} {new : List Obs} {r : Conn × Pc}
    (hend : ReadEnd lib { s.conn with inUse := true, inbuf := s.conn.inbuf ++ chunk } new r)
    (hrep : Rep s.conn.toTransStore) (halive : s.conn.status ≠ .disconnected) (hpc : s.pc = .idle)
    (hio : s.conn.io ≠ none) (hio' : r.1.io = none) : ∃ c failure before,
      GivenUp s { s with conn := r.1, pc := r.2 } (.event (.read chunk)) c failure before := by
  obtain ⟨c', error, hreads, rfl⟩ := hend.error_of_lost rfl hio hio'
  have hne : s.pc ≠ .cleaning .reply := by simp [hpc]
  refine ⟨_, .error, [] ++ new, GivenUp.of_reads hrep halive hreads (.refl _) ?_ ?_ ?_ rfl (by simp) ?_
    (Or.inl hpc) (fun _ => ⟨rfl, hreads.records⟩) (fun p hp => hrep.live_of_waits (Or.inr hp))
    (Or.inr ⟨chunk, rfl⟩)⟩
  · rw [teardownStatus, if_neg hne]
  · rw [teardownReady, if_neg hne]
  · rw [if_neg hne]
    rfl
  · rw [teardownPending, if_neg hne]

/-- What has been received behind the reply to the ping gives up the connection. -/
theorem ReadEnd.givenUp_of_reply {new : List Obs} {r : Conn × Pc}
    (hend : ReadEnd lib (connEventSetConnected lib { s.conn with pingtxn := none }) new r)
    (hrunning : Running lib s) (halive : s.conn.status ≠ .disconnected) (hpc : s.pc = .cleaning .reply)
    (hio : s.conn.io ≠ none) (hio' : r.1.io = none) : ∃ c failure before,
      GivenUp s { s with conn := r.1, pc := r.2 } .resume c failure before := by
  have hrep : Rep { s.conn.toTransStore with pingtxn := none } :=
    (@InternalStep.forgetPing lib s.conn.toTransStore).rep hrunning.rep
  have hquiet := hrunning.link.cleaning (Or.inl hpc)
  obtain ⟨sent, hhandled, hsends⟩ :=
    connEventSetConnected_handled { s.conn with pingtxn := none } lib hrep hquiet
  obtain ⟨hready, hpending, hrep'⟩ :
      (connEventSetConnected lib { s.conn with pingtxn := none }).transReady = [] ∧
      (connEventSetConnected lib { s.conn with pingtxn := none }).transPending = teardownPending s ∧
      Rep (connEventSetConnected lib { s.conn with pingtxn := none }).toTransStore := by
    obtain ⟨_, _, _, _, _, hshape, -, -⟩ := connEventSetConnected_shape lib { s.conn with pingtxn := none }
    obtain ⟨st, _, _, _, heq, hsteps, -, -, -, -⟩ := connEventSetConnected_spec lib
      { s.conn with pingtxn := none } hrep hquiet
    refine ⟨by rw [hshape], by rw [hshape, teardownPending, if_pos hpc], ?_⟩
    rw [heq]
    exact InternalSteps.rep hsteps hrep
  have hbusy := connEventSetConnected_inUse lib { s.conn with pingtxn := none }
  obtain ⟨c', error, hreads, rfl⟩ := hend.error_of_lost
    (hbusy.trans (hrunning.link.busy (by rw [hpc]; rfl)))
    ((connEventSetConnected_io lib { s.conn with pingtxn := none }).trans_ne hio) hio'
  refine ⟨_, .error, _, GivenUp.of_reads hrunning.rep halive hreads hhandled.of_pingtxn ?_ ?_ ?_ ?_ ?_
    hpending (Or.inr hpc) (fun hne => absurd hpc hne) (fun p hp => hrep'.live_of_waits (Or.inr hp))
    (Or.inl rfl)⟩
  · rw [teardownStatus, if_pos hpc, connEventSetConnected_status]
  · rw [teardownReady, if_pos hpc, hready]
  · rw [if_pos hpc]
    exact congrArg (List.cons _) (eventsOf_sends hsends)
  · exact (deletedOf_sends hsends : deletedOf sent = [])
  · exact List.forall_mem_cons.mpr ⟨trivial, belongs_of_sends hsends _⟩

/-- Every action of the handler that ends with no I/O object gives up its connection. -/
theorem sysStep_givenUp (hstep : sysStep lib s a = some s') (hrunning : Running lib s) (hstage : Stage s)
    (ha : a.handles = true) (hio : s.conn.io ≠ none) (hio' : s'.conn.io = none) :
    ∃ c failure before, GivenUp s s' a c failure before := by
  have hkeep : s'.conn.io = s.conn.io → False := fun h => hio (h.symm.trans hio')
  have hmap : ∀ f : Io → Io, s.conn.io.map f ≠ none := fun f hnone => hio (Option.map_eq_none_iff.mp hnone)
  cases sysStep_move hstep hrunning with
  | aside _ new _ haside => exact (hkeep haside.io).elim
  | accepted p t hne ht hst heq => cases ha
  | sent p t hconnected ht hst heq => cases ha
  | refused _ tlsctx error callers pc hconnects hpc heq =>
    subst heq
    exact (hkeep rfl).elim
  | opened _ who io tlsctx error callers pc _ hnone hreg hdead hpc heq => exact absurd hnone hio
  | dialed _ io tlsctx error callers pc _ hnone hreg hdead hpc heq => exact absurd hnone hio
  | registered who hwho heq => cases ha
  | dropped who error hwho heq => cases ha
  | disconnecting io hconnected hio heq => cases ha
  | idled hpc hconnected hpending heq =>
    subst heq
    exact absurd hio' (hmap _)
  | pinged draws written draw hpc hany hping hdraw heq =>
    subst heq
    exact absurd hio' (hmap _)
  | unpinged draws written hpc hany hping heq =>
    subst heq
    obtain ⟨st, heq, -, -, -⟩ := connCleanupPing_shape lib { s.conn with
      inUse := true
      io := s.conn.io.map fun io => { io with up := true } } rfl
    rw [heq] at hio'
    exact absurd hio' (hmap _)
  | failed failure text error hpc hreg heq =>
    subst heq
    refine ⟨{ s.conn with inUse := true, error := error }, failure, [], .of_unread hrunning.rep
      (hstage.alive_of_registered hreg) (by simp [hpc]) rfl rfl rfl
      (connEventHandleConnError_status _ failure) ?_ (Or.inl ⟨failure, text, rfl⟩)⟩
    cases failure <;> simp
  | read chunk new r hpc hup hend heq =>
    subst heq
    exact hend.givenUp hrunning.rep (hstage.alive_of_registered (hstage.registered_of_up hup)) hpc hio hio'
  | wrote written hpc hup heq =>
    subst heq
    exact absurd hio' hio
  | expired hpc htimer hst heq =>
    subst heq
    obtain ⟨st, heq, -, -, -⟩ := connCleanupPing_shape lib { s.conn with inUse := true } rfl
    rw [heq] at hio'
    exact absurd hio' hio
  | unguarded hpc heq =>
    subst heq
    exact absurd ((connEventSetConnected_io lib _).symm.trans hio') hio
  | proved new r hpc hend heq =>
    subst heq
    have hup := (hstage.cleaning .reply hpc).1
    exact hend.givenUp_of_reply hrunning (hstage.alive_of_registered (hstage.registered_of_up hup)) hpc hio hio'
  | unproved error hpc heq =>
    subst heq
    have hup := (hstage.cleaning .timeout hpc).1
    refine ⟨{ s.conn with pingtxn := none, error := error }, .error, [], .of_unread hrunning.rep
      (hstage.alive_of_registered (hstage.registered_of_up hup)) (by simp [hpc]) rfl rfl rfl
      (connEventHandleConnError_status _ .error) ?_ (Or.inr rfl)⟩
    simp
  | destroyed a pc hdestroys hidle hpc heq =>
    subst heq
    cases a <;> simp_all [Action.handles, Action.destroys]

end Step

section Dormant

variable {s s' : Sys} {a : Action}

/-- Between two handler runs, a timeout that can fire belongs to a pending transaction of a caller. -/
theorem Running.pending_of_timer (hrunning : Running lib s) (hidle : s.pc = .idle) {p : Ptr}
    (henabled : eventEnabled s.conn (.transTimer p) = true) :
    p ∈ s.conn.transPending ∧ ∃ t, s.conn.heap p = some t ∧ t.owner = .user := by
  obtain ⟨hlive, harmed⟩ := Bool.and_eq_true_iff.mp henabled
  obtain ⟨t, ht⟩ := Option.isSome_iff_exists.mp hlive
  obtain ⟨hst, huser⟩ := (hrunning.life p).timed.armed t ht harmed
  have hdelay := (hrunning.link.rest (by rw [hidle]; rfl)).2.2
  have hplaced := (hrunning.rep.placed p t ht).resolve_right (by simp [hdelay])
  rw [hst] at hplaced
  exact ⟨hplaced, t, ht, huser⟩

/-- Between two handler runs, a connection without I/O object has no event to deliver. -/
theorem not_eventEnabled_of_down (hrunning : Running lib s) (hstage : Stage s) (hidle : s.pc = .idle)
    (hnone : s.conn.io = none) (event : IoEvent) : eventEnabled s.conn event = false := by
  obtain ⟨-, -, hblank, -⟩ := hstage.of_none hnone
  cases event with
  | timer => simp [eventEnabled, hblank.timer]
  | transTimer p =>
    -- an armed timer belongs to a pending transaction, and nothing is pending
    by_contra henabled
    obtain ⟨hmem, -⟩ := hrunning.pending_of_timer hidle (by simpa using henabled)
    rw [hblank.pending] at hmem
    cases hmem
  | _ => simp [eventEnabled, hnone]

/-- Whether an action is a call that asks for a connection. -/
def Action.asks : Action → Bool
  | .transSend _ | .connConnect _ | .implicitConnect _ => true
  | _ => false

/-- The connection is down, and its handler has nothing more to do for it. -/
structure Dormant (s : Sys) : Prop where
  io : s.conn.io = none
  status : s.conn.status = .disconnected
  pc : s.pc = .idle ∨ s.pc = .reconnecting false ∨ s.pc = .finishing

/-- A connection that is down stays so until somebody asks for a connection, and nothing is delivered. -/
theorem Dormant.step (h : Dormant s) (hrunning : Running lib s) (hstage : Stage s)
    (hstep : sysStep lib s a = some s') (hasks : a.asks = false) :
    Dormant s' ∧ a ≠ .deliver ∧ ∀ event, a ≠ .event event := by
  have hnobody := (hstage.of_none h.io).2.1
  have hrest : s.pc.busy = false ∧ s.pc ≠ .reconnecting true := by
    rcases h.pc with hpc | hpc | hpc <;> rw [hpc] <;> exact ⟨rfl, by simp⟩
  have hdown : a.connects = false → s'.conn.io = none ∧ s'.conn.status = .disconnected := by
    intro hconnects
    cases sysStep_move hstep hrunning with
    | aside _ new _ haside => exact ⟨haside.io.trans h.io, haside.status.trans h.status⟩
    | refused _ _ _ _ _ hc _ _ => simp [hc] at hconnects
    | opened _ _ _ _ _ _ _ hc _ _ _ _ _ => simp [hc] at hconnects
    | dialed _ _ _ _ _ _ hc _ _ _ _ _ => simp [hc] at hconnects
    | accepted p t hne ht hst heq => cases hasks
    | sent p t hconnected ht hst heq => cases hasks
    | registered who hwho heq => simp [hnobody] at hwho
    | dropped who error hwho heq => simp [hnobody] at hwho
    | disconnecting io hconnected hio heq => simp [h.io] at hio
    | idled hpc hconnected hpending heq => simp [h.status] at hconnected
    | pinged draws written draw hpc hio hping hdraw heq => simp [h.io] at hio
    | unpinged draws written hpc hio hping heq => simp [h.io] at hio
    | failed failure text error hpc hreg heq => simp [h.io] at hreg
    | read chunk new r hpc hup hend heq => simp [h.io] at hup
    | wrote written hpc hup heq => simp [h.io] at hup
    | expired hpc htimer hst heq => simp [h.status] at hst
    | unguarded hpc heq => simp [hpc, Pc.busy] at hrest
    | proved new r hpc hend heq => simp [hpc, Pc.busy] at hrest
    | unproved error hpc heq => simp [hpc, Pc.busy] at hrest
    | destroyed _ pc hdestroys hidle hpc heq => simp [heq, connDestroy, hidle, h.status]
  cases sysStep_walk hstep with
  | stays _ hcalls hpc =>
    have hconnects : a.connects = false := by
      cases a <;> simp_all [Action.asks, Action.connects, Action.calls]
    refine ⟨⟨(hdown hconnects).1, (hdown hconnects).2, hpc ▸ h.pc⟩, ?_, ?_⟩
    · rintro rfl
      cases hcalls
    · rintro event rfl
      cases hcalls
  | connected who eventAdd hwho hpc => simp [hnobody] at hwho
  | enters event r hpc henabled hr heq hpc' =>
    rw [not_eventEnabled_of_down hrunning hstage hpc h.io] at henabled
    cases henabled
  | resumes pingEnd hpc heq hpc' => simp [hpc, Pc.busy] at hrest
  | delivers e rest hpc hevents heq => simp [hpc, Pc.busy] at hrest
  | returns hpc heq => simp [hpc, Pc.busy] at hrest
  | drains hpc hevents heq => simp [hpc, Pc.busy] at hrest
  | reconnects net hpc hpc' => exact absurd hpc hrest.2
  | finishes hpc heq => exact ⟨⟨(hdown rfl).1, (hdown rfl).2, Or.inl (by rw [heq])⟩, by simp, by simp⟩

/-- No event arrives on a connection that is down until somebody asks for a connection. -/
theorem Dormant.run (actions : List Action) (h : Dormant s) (hs : (monetra lib).Reachable s)
    (hrun : (monetra lib).run s actions = some s') (hasks : ∀ a ∈ actions, a.asks = false) :
    Dormant s' ∧ .deliver ∉ actions := by
  induction actions generalizing s with
  | nil =>
    obtain rfl := Option.some.inj hrun
    exact ⟨h, by simp⟩
  | cons a rest ih =>
    obtain ⟨mid, hmid, hrest⟩ := Option.bind_eq_some_iff.mp hrun
    obtain ⟨hdormant, hdeliver, -⟩ := h.step (running_of_reachable hs)
      (stage_of_reachable hs (sysStep_live lib hmid)) hmid (hasks a List.mem_cons_self)
    obtain ⟨hend, hnone⟩ := ih hdormant (hs.step hmid) hrest fun b hb =>
      hasks b (List.mem_cons_of_mem a hb)
    exact ⟨hend, fun hmem => (List.mem_cons.mp hmem).elim (fun heq => hdeliver heq.symm) hnone⟩

end Dormant

end LibMonetra
