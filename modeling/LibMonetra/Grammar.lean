import LibMonetra.Notification
import LibMonetra.Reconnect
import LibMonetra.Report

/-!
# The order of the events of a connection

The events that are queued for one I/O object: none before it is established, then that it is, then
what becomes of the requests, and at last its end. After that nothing is queued until another I/O
object is registered.
-/

namespace LibMonetra

open Foundation

variable (lib : Mstdlib)

/-- The events that an action queues. -/
def newEvents (s s' : Sys) : List Event := eventsOf (s'.conn.trace.drop s.conn.trace.length)

/-- The library with a monitor that keeps the events queued since an I/O object was last registered. -/
def taped : System (Sys × Option (List Event)) Action :=
  (monetra lib).monitor none fun s _ s' tape =>
    if s.registered = false ∧ s'.registered = true then some [] else tape.map (· ++ newEvents s s')

/-- What becomes of the requests of an established connection. -/
def Event.midway (e : Event) : Bool := e.type == .transDone || e.type == .transTimeout

/-- Whether an event is the end of a connection. -/
def Event.terminal (e : Event) : Bool := e.type == .connDisconnect || e.type == .connError

/-- All the events of a connection that has ended. One that was not established has failed no
transaction but its ping. -/
inductive Ended (trace : List Obs) : List Event → Prop
  | refused (waits errors : List Ptr) (last : Event) : last.terminal = true →
      (∀ p ∈ errors, .created p .ping ∈ trace) →
      Ended trace (waits.map (fun p => ⟨.transNoconnect, some p⟩) ++
        errors.map (fun p => ⟨.transError, some p⟩) ++ [last])
  | lost (mid : List Event) (waits errors : List Ptr) (last : Event) : last.terminal = true →
      (∀ e ∈ mid, e.midway = true) →
      Ended trace (⟨.connConnected, none⟩ :: mid ++ waits.map (fun p => ⟨.transNoconnect, some p⟩) ++
        errors.map (fun p => ⟨.transError, some p⟩) ++ [last])

/-- The events queued since an I/O object was last registered, by the stage of the connection. -/
inductive Course (s : Sys) : Option (List Event) → Prop
  | unused : s.registered = false → eventsOf s.conn.trace = [] → Course s none
  | dialing : s.registered = true → s.conn.status = .connecting → Course s (some [])
  | established (mid : List Event) : s.registered = true → s.conn.status ≠ .connecting →
      (∀ e ∈ mid, e.midway = true) → Course s (some (⟨.connConnected, none⟩ :: mid))
  | ended (events : List Event) : s.registered = false → Ended s.conn.trace events →
      Course s (some events)

/-- The events that were delivered. -/
def callbacksOf (trace : List Obs) : List Event :=
  trace.filterMap fun o => match o with
    | .callback e => some e
    | _ => none

/-- What the events of a connection that has not been destroyed say in every reached state: they follow
the course of the I/O object, and are delivered in this order. -/
structure Grammar (w : Sys × Option (List Event)) : Prop where
  course : Course w.1 w.2
  delivered : w.1.conn.destroy = false →
    callbacksOf w.1.conn.trace ++ w.1.conn.events = eventsOf w.1.conn.trace

/-- What a handler queues at the end of its connection: the end is last, and before it comes one error
for every pending transaction of a caller that has not been answered. -/
structure LastBatch (s : Sys) (a : Action) (s' : Sys) : Prop where
  batch : ∃ rest last, newEvents s s' = rest ++ [last] ∧ (∀ e ∈ rest, e.terminal = false) ∧
    last.trans = none ∧ last.terminal = true ∧ (last.type = .connDisconnect ↔
      (∃ text, a = .event (.failed .disconnected text)) ∨ s.conn.status = .disconnecting ∨
        s.conn.status = .idleTimeout)
  waiting : s'.conn.events = s.conn.events ++ newEvents s s'
  errors : ∀ p, .created p .user ∈ s.conn.trace → (newEvents s s').count ⟨.transError, some p⟩ =
    if p ∈ teardownPending s ∧ ⟨.transDone, some p⟩ ∉ newEvents s s' then 1 else 0

@[simp] theorem callbacksOf_append (trace later : List Obs) :
    callbacksOf (trace ++ later) = callbacksOf trace ++ callbacksOf later := List.filterMap_append

section Course

variable {lib : Mstdlib} {s s' : Sys} {a : Action}

/-- The events that an action queues are those of what it records. -/
theorem newEvents_eq {new : List Obs} (h : s'.conn.trace = s.conn.trace ++ new) :
    newEvents s s' = eventsOf new := by
  rw [newEvents, h, List.drop_left]

/-- A longer record says no less. -/
theorem Ended.mono {trace later : List Obs} {events : List Event} (h : Ended trace events) :
    Ended (trace ++ later) events := by
  cases h with
  | refused waits errors last hlast herrors =>
    exact .refused waits errors last hlast fun p hp => List.mem_append_left _ (herrors p hp)
  | lost mid waits errors last hlast hmid => exact .lost mid waits errors last hlast hmid

/-- A timeout and an answer are what becomes of a request. -/
theorem Event.midway_of_type {e : Event} (h : e.type = .transDone ∨ e.type = .transTimeout) :
    e.midway = true := by
  rcases h with h | h <;> simp [Event.midway, h]

/-- The end of a connection is the end. -/
theorem terminal_terminalType (status : ConnStatus) (failure : IoFailure) :
    Event.terminal ⟨terminalType status failure, none⟩ = true := by
  rcases terminalType_cases status failure with h | h <;> simp [Event.terminal, h]

/-- What is queued for an I/O object that stays registered. -/
theorem Course.later (h : Course s (some tape)) {later : List Event} (hregistered : s.registered = true)
    (hregistered' : s'.registered = true)
    (hdialing : s.conn.status = .connecting → (s'.conn.status = .connecting ∧ later = []) ∨
      (s'.conn.status ≠ .connecting ∧
        ∃ mid, later = ⟨.connConnected, none⟩ :: mid ∧ ∀ e ∈ mid, e.midway = true))
    (hestablished : s.conn.status ≠ .connecting → s'.conn.status ≠ .connecting ∧ ∀ e ∈ later, e.midway = true) :
    Course s' (some (tape ++ later)) := by
  cases h with
  | dialing _ hst =>
    rcases hdialing hst with ⟨hst', rfl⟩ | ⟨hst', mid, rfl, hmid⟩
    · exact .dialing hregistered' hst'
    · exact .established mid hregistered' hst' hmid
  | established mid _ hst hmid =>
    obtain ⟨hst', hlater⟩ := hestablished hst
    exact .established (mid ++ later) hregistered' hst' (List.forall_mem_append.mpr ⟨hmid, hlater⟩)
  | ended events hdown hended =>
    rw [hregistered] at hdown
    cases hdown

/-- A connection that is given up has ended. -/
theorem Course.tornDown (h : Course s (some tape)) (hrunning : Running lib s) (hstage : Stage s)
    (hregistered : s.registered = true) (hdown : s'.registered = false) {c : Conn} {failure : IoFailure}
    {before : List Obs} (hgiven : GivenUp s s' a c failure before) :
    Course s' (some (tape ++ eventsOf (before ++ teardownRecord c failure))) := by
  have hended : ∀ mid, (∀ e ∈ mid, e.midway = true) →
      Course s' (some ((⟨.connConnected, none⟩ :: mid) ++ eventsOf (teardownRecord c failure))) := by
    intro mid hmid
    refine .ended _ hdown ?_
    rw [eventsOf_teardownRecord, ← List.append_assoc, ← List.append_assoc]
    exact .lost mid _ _ _ (terminal_terminalType _ _) hmid
  obtain ⟨done, hevents, hdone⟩ := hgiven.events
  have hmidway : ∀ e ∈ done, e.midway = true := fun e he => Event.midway_of_type (Or.inl (hdone e he))
  rw [eventsOf_append, ← List.append_assoc]
  cases h with
  | dialing _ hst =>
    by_cases hreply : s.pc = .cleaning .reply
    · rw [hevents, if_pos hreply]
      exact hended done hmidway
    · have hquiet : eventsOf before = [] := by
        rcases hgiven.unread with hidle | hpc | hnone
        · exact hstage.eventsOf_reads hrunning hst hidle fun o ho => Or.inl (hgiven.reads hreply o ho)
        · exact absurd hpc hreply
        · rw [hnone]
          rfl
      rw [hquiet, List.append_nil, List.nil_append]
      refine .ended _ hdown ?_
      rw [eventsOf_teardownRecord]
      refine .refused _ _ _ (terminal_terminalType _ _) fun p hp => ?_
      have hmem := hgiven.pending hp
      rw [teardownPending, if_neg hreply] at hmem
      rw [hgiven.torn.trace, hgiven.read.trace, List.append_assoc]
      exact List.mem_append_left _ (hstage.ping_of_pending hrunning hst hmem).2
  | established mid _ hst hmid =>
    have hreply : s.pc ≠ .cleaning .reply := fun hpc => hst (hstage.cleaning .reply hpc).2
    rw [hevents, if_neg hreply, List.nil_append, List.cons_append]
    exact hended (mid ++ done) (List.forall_mem_append.mpr ⟨hmid, hmidway⟩)
  | ended events hlost hended =>
    rw [hregistered] at hlost
    cases hlost

/-- A connection that is not given up knows its I/O object. -/
theorem Stage.registered_of_alive (hstage : Stage s) (halive : s.conn.status ≠ .disconnected) :
    s.registered = true := by
  by_contra hregistered
  exact halive (hstage.down.mpr (by simpa [Sys.registered] using hregistered))

/-- An action on a registered I/O object follows its course. -/
theorem Course.step_up (h : Course s (some tape)) (hrunning : Running lib s) (hstage : Stage s)
    (hstep : sysStep lib s a = some s') (hlive : s'.conn.freed = false) (hregistered : s.registered = true) :
    Course s' (some (tape ++ newEvents s s')) := by
  obtain ⟨new, htrace, -, hreport⟩ := sysStep_report hstep hrunning hstage
  rw [newEvents_eq htrace]
  cases hreport with
  | calm hevents hsame hstatus =>
    refine h.later hregistered (hsame.trans hregistered) (fun hst => Or.inl ⟨?_, ?_⟩) fun hst => ⟨?_, ?_⟩
    · rcases hstatus with hstatus | ⟨hconnected, -⟩
      · exact hstatus.trans hst
      · rw [hst] at hconnected
        cases hconnected
    · refine List.eq_nil_iff_forall_not_mem.mpr fun e he => ?_
      exact (hstage.established_of_timesOut hrunning hstep (hevents e he).2).2 hst
    · rcases hstatus with hstatus | ⟨-, hstatus | hstatus⟩
      · rwa [hstatus]
      · simp [hstatus]
      · simp [hstatus]
    · exact fun e he => Event.midway_of_type (Or.inr (hevents e he).1)
  | dialed hnone hdown _ _ =>
    rw [hregistered] at hdown
    cases hdown
  | answered chunk ha hidle hup hsame hstatus hreads =>
    refine h.later hregistered (hsame.trans hregistered) (fun hst => Or.inl ⟨hstatus.trans hst, ?_⟩)
      fun hst => ⟨hstatus ▸ hst, fun e he => Event.midway_of_type (Or.inl ?_)⟩
    · exact hstage.eventsOf_reads hrunning hst hidle hreads
    · rcases hreads _ (mem_eventsOf.mp he) with (⟨_, ho⟩ | ⟨_, _, _, ho⟩ | ⟨_, _, _, ho⟩) | ⟨_, ho⟩
      · cases ho
      · cases ho
      · rw [Obs.queued.inj ho]
      · cases ho
  | established pingEnd done ha hpc _ hsame hconnected hevents hdone =>
    have hst := (hstage.cleaning pingEnd hpc).2
    refine h.later hregistered (hsame.trans hregistered)
      (fun _ => Or.inr ⟨by simp [hconnected], done, hevents, fun e he => ?_⟩) fun hne => absurd hst hne
    exact Event.midway_of_type (Or.inl (hdone e he))
  | tornDown c failure before hgiven hdown heq =>
    rw [heq]
    exact h.tornDown hrunning hstage hregistered hdown hgiven
  | destroyed hfreed _ =>
    rw [hlive] at hfreed
    cases hfreed

/-- While no I/O object is registered nothing is queued, until one is. -/
theorem Course.step_down {tape : Option (List Event)} (h : Course s tape) (hrunning : Running lib s)
    (hstage : Stage s) (hstep : sysStep lib s a = some s') (hlive : s'.conn.freed = false)
    (hdown : s.registered = false) :
    newEvents s s' = [] ∧ if s'.registered = true then Course s' (some []) else Course s' tape := by
  obtain ⟨new, htrace, -, hreport⟩ := sysStep_report hstep hrunning hstage
  rw [newEvents_eq htrace]
  cases hreport with
  | calm hevents hsame _ =>
    have hnone : eventsOf new = [] := by
      refine List.eq_nil_iff_forall_not_mem.mpr fun e he => ?_
      have hregistered := (hstage.established_of_timesOut hrunning hstep (hevents e he).2).1
      rw [hdown] at hregistered
      cases hregistered
    refine ⟨hnone, ?_⟩
    rw [if_neg (by simp [hsame, hdown])]
    cases h with
    | unused _ hquiet => exact .unused (hsame.trans hdown) (by rw [htrace, eventsOf_append, hquiet, hnone]; rfl)
    | ended events _ hended => exact .ended events (hsame.trans hdown) (htrace ▸ hended.mono)
    | dialing hregistered _ =>
      rw [hdown] at hregistered
      cases hregistered
    | established mid hregistered _ _ =>
      rw [hdown] at hregistered
      cases hregistered
  | dialed hnone _ hregistered hst =>
    refine ⟨by rw [hnone]; rfl, ?_⟩
    rw [if_pos hregistered]
    exact .dialing hregistered hst
  | answered chunk ha hidle hup hsame hstatus hreads =>
    have hregistered := hstage.registered_of_up hup
    rw [show s.conn.io.any Io.registered = false from hdown] at hregistered
    cases hregistered
  | established pingEnd done ha hpc _ hsame hconnected hevents hdone =>
    have hregistered := hstage.registered_of_up (hstage.cleaning pingEnd hpc).1
    rw [show s.conn.io.any Io.registered = false from hdown] at hregistered
    cases hregistered
  | tornDown c failure before hgiven _ _ =>
    have hregistered := hstage.registered_of_alive hgiven.alive
    rw [hdown] at hregistered
    cases hregistered
  | destroyed hfreed _ =>
    rw [hlive] at hfreed
    cases hfreed

/-- Every action follows the course of the I/O object. -/
theorem Course.step {tape : Option (List Event)} (h : Course s tape) (hrunning : Running lib s)
    (hstage : Stage s) (hstep : sysStep lib s a = some s') (hlive : s'.conn.freed = false) :
    Course s' (if s.registered = false ∧ s'.registered = true then some [] else
      tape.map (· ++ newEvents s s')) := by
  cases hregistered : s.registered with
  | false =>
    obtain ⟨hnone, hcourse⟩ := h.step_down hrunning hstage hstep hlive hregistered
    split at hcourse
    · rwa [if_pos ⟨rfl, ‹_›⟩]
    · rw [if_neg fun h => ‹¬_› h.2, hnone]
      simpa using hcourse
  | true =>
    rw [if_neg (by simp)]
    cases tape with
    | some events => exact h.step_up hrunning hstage hstep hlive hregistered
    | none =>
      cases h with
      | unused hdown _ =>
        rw [hregistered] at hdown
        cases hdown

/-- A record without calls delivers nothing. -/
theorem callbacksOf_eq_nil {new : List Obs} (h : ∀ e, .callback e ∉ new) : callbacksOf new = [] := by
  refine List.eq_nil_iff_forall_not_mem.mpr fun e he => ?_
  obtain ⟨o, ho, heq⟩ := List.mem_filterMap.mp he
  cases o with
  | callback e' => exact h e' ho
  | _ => cases heq

/-- The drain delivers nothing. -/
theorem sysStep_drain_delivers (h : sysStep lib s .drain = some s') :
    s'.conn.events = s.conn.events ∧ callbacksOf s'.conn.trace = callbacksOf s.conn.trace := by
  cases sysStep_walk h with
  | stays _ hcalls _ => cases hcalls
  | drains hpc hevents heq =>
    obtain ⟨st, timer, hdrained, -, hsame, -⟩ := drainDelayRm_spec lib s.conn.transDelayRm s.conn rfl
    obtain ⟨-, new, htrace, -, hnone⟩ := drainDelayRm_queues lib s.conn.transDelayRm s.conn
    simp only [handlerDrain, hdrained] at heq htrace
    subst heq
    refine ⟨hsame, ?_⟩
    rw [htrace, callbacksOf_append, callbacksOf_eq_nil fun e => (hnone e).2, List.append_nil]

/-- An action that leaves the connection alive does not destroy it. -/
theorem not_destroys_of_live (hrunning : Running lib s) (h : sysStep lib s a = some s')
    (hlive : s'.conn.freed = false) : a.destroys s.conn = false := by
  cases sysStep_turn h hrunning with
  | served new hclears _ => cases a <;> first | rfl | exact hclears
  | destroyed _ _ hfreed _ =>
    rw [hlive] at hfreed
    cases hfreed
  | delivered e rest ha _ _ _ => rw [ha]; rfl
  | returned ha _ _ => rw [ha]; rfl
  | deleted p t ha _ _ _ => rw [ha]; rfl
  | drained ha _ _ _ => rw [ha]; rfl

/-- Every action delivers the next event or none, until the connection is destroyed. -/
theorem sysStep_delivered (hrunning : Running lib s) (hstage : Stage s) (h : sysStep lib s a = some s')
    (hlive : s'.conn.freed = false) (hkept : s.conn.destroy = false)
    (hdelivered : callbacksOf s.conn.trace ++ s.conn.events = eventsOf s.conn.trace) :
    callbacksOf s'.conn.trace ++ s'.conn.events = eventsOf s'.conn.trace := by
  obtain ⟨new, htrace, hbelongs, -⟩ := sysStep_report h hrunning hstage
  cases sysStep_turn h hrunning with
  | served new' hclears hserved =>
    obtain rfl : new' = new := List.append_cancel_left (hserved.handled.trace.symm.trans htrace)
    have hquiet : callbacksOf new' = [] := by
      refine callbacksOf_eq_nil fun e he => ?_
      obtain rfl : a = .deliver := hbelongs _ he
      cases sysStep_walk h with
      | stays _ hcalls _ => cases hcalls
      | delivers e' rest hpc hevents heq =>
        have hgrows := congrArg List.length hserved.handled.events
        rw [heq, hevents, List.length_append, List.length_cons] at hgrows
        dsimp only at hgrows
        omega
    rw [htrace, hserved.handled.events, callbacksOf_append, eventsOf_append, hquiet, List.append_nil,
      ← List.append_assoc, hdelivered]
  | delivered e rest ha hpc hevents hstore =>
    rw [hevents] at hdelivered
    simp only [hstore, TransStore.log, callbacksOf_append, eventsOf_append, ← hdelivered]
    simp [callbacksOf, eventsOf]
  | returned ha hpc hstore =>
    simpa [hstore, hkept] using hdelivered
  | deleted p t ha hidle ht hstore =>
    simp only [hstore, TransStore.log, TransStore.trace_free, TransStore.events_free]
    simpa [callbacksOf, eventsOf] using hdelivered
  | drained ha hpc hevents hstore =>
    subst ha
    obtain ⟨-, -, -, later, hlater, hnone⟩ := sysStep_drain h
    obtain ⟨hsame, hquiet⟩ := sysStep_drain_delivers h
    rw [hsame, hquiet, hlater, eventsOf_append, hnone, List.append_nil, hdelivered]
  | destroyed hdestroys hidle hfreed hstore =>
    rw [hlive] at hfreed
    cases hfreed

end Course

section Batch

variable {lib : Mstdlib} {s s' : Sys} {a : Action}

/-- The events of one transaction in a record. -/
theorem count_eventsOf (trace : List Obs) (p : Ptr) (type : EventType) :
    (eventsOf trace).count ⟨type, some p⟩ = (queuedFor p trace).count type := by
  induction trace with
  | nil => rfl
  | cons o rest ih =>
    have hsplit : queuedFor p (o :: rest) = queuedFor p [o] ++ queuedFor p rest :=
      queuedFor_append p [o] rest
    rw [show eventsOf (o :: rest) = eventsOf [o] ++ eventsOf rest from eventsOf_append [o] rest, hsplit,
      List.count_append, List.count_append, ih]
    congr 1
    cases o with
    | queued e =>
      obtain ⟨type', trans⟩ := e
      by_cases htrans : trans = some p
      · subst htrans
        by_cases htype : type' = type <;>
          simp [eventsOf, queuedFor, historyOf, queuedTypes, Obs.about, Obs.queuedType, htype]
      · simp [eventsOf, queuedFor, historyOf, queuedTypes, Obs.about, htrans]
    | _ =>
      simp only [eventsOf, queuedFor, queuedTypes, historyOf, List.filter_cons, List.filter_nil]
      split <;> rfl

/-- A transaction ends at most once. -/
theorem WellOrdered.count_le {events ends : List EventType} {waits timeouts : ℕ}
    (h : WellOrdered events waits timeouts ends) : events.count .transDone + events.count .transError ≤ 1 := by
  rw [h.events]
  simp only [List.count_append, List.count_replicate]
  rcases h.ends with rfl | rfl | rfl <;> simp

/-- A transaction that may be pending when a connection is given up waits for its answer, or to be
sent. -/
theorem Running.waits_of_teardownPending (h : Running lib s) {p : Ptr} (hp : p ∈ teardownPending s) :
    ∃ t, s.conn.heap p = some t ∧ (t.status = .ready ∨ t.status = .pending) := by
  have hpending : p ∈ s.conn.transPending → ∃ t, s.conn.heap p = some t ∧
      (t.status = .ready ∨ t.status = .pending) := by
    intro hp
    obtain ⟨t, ht, hst⟩ := h.rep.queued .pending p hp
    exact ⟨t, ht, Or.inr hst⟩
  unfold teardownPending at hp
  split at hp
  · rcases List.mem_append.mp hp with hp | hp
    · exact hpending hp
    · obtain ⟨t, ht, hst⟩ := h.rep.queued .ready p hp
      exact ⟨t, ht, Or.inl hst⟩
  · exact hpending hp

section GivenUp

variable {c : Conn} {failure : IoFailure} {before : List Obs}

/-- Before the end of a connection, a handler reports that it is established, and answers. -/
theorem GivenUp.types (h : GivenUp s s' a c failure before) {e : Event} (he : e ∈ eventsOf before) :
    e = ⟨.connConnected, none⟩ ∨ e.type = .transDone := by
  obtain ⟨done, hevents, hdone⟩ := h.events
  rw [hevents, List.mem_append] at he
  rcases he with he | he
  · split at he
    · exact Or.inl (List.mem_singleton.mp he)
    · cases he
  · exact Or.inr (hdone e he)

/-- When a connection ends in order. -/
theorem terminalType_eq (status : ConnStatus) (failure : IoFailure) :
    terminalType status failure = .connDisconnect ↔
      failure = .disconnected ∨ status = .disconnecting ∨ status = .idleTimeout := by
  unfold terminalType
  split
  · simp [‹failure = _ ∨ _›]
  · simp [‹¬_›]

/-- The end is the last event of its handler. -/
theorem GivenUp.batch (h : GivenUp s s' a c failure before) (hstage : Stage s) :
    ∃ rest last, eventsOf (before ++ teardownRecord c failure) = rest ++ [last] ∧
      (∀ e ∈ rest, e.terminal = false) ∧ last.trans = none ∧ last.terminal = true ∧
        (last.type = .connDisconnect ↔ (∃ text, a = .event (.failed .disconnected text)) ∨
          s.conn.status = .disconnecting ∨ s.conn.status = .idleTimeout) := by
  refine ⟨eventsOf before ++
    (((if c.status = .idleTimeout then [] else c.transReady).map fun p => ⟨.transNoconnect, some p⟩) ++
      c.transPending.map fun p => ⟨.transError, some p⟩),
    ⟨terminalType c.status failure, none⟩, ?_, ?_, rfl, terminal_terminalType _ _, ?_⟩
  · rw [eventsOf_append, eventsOf_teardownRecord, ← List.append_assoc]
  · refine List.forall_mem_append.mpr ⟨fun e he => ?_,
      List.forall_mem_append.mpr ⟨fun e he => ?_, fun e he => ?_⟩⟩
    · rcases h.types he with rfl | hdone
      · rfl
      · simp [Event.terminal, hdone]
    · obtain ⟨p, -, rfl⟩ := List.mem_map.mp he
      rfl
    · obtain ⟨p, -, rfl⟩ := List.mem_map.mp he
      rfl
  · rw [← h.peer, h.status, terminalType_eq]
    unfold teardownStatus
    by_cases hreply : s.pc = .cleaning .reply
    · simp [hreply, (hstage.cleaning .reply hreply).2]
    · simp [hreply]

/-- Every transaction that is still pending at the end of a connection fails once, and no other
transaction of a caller. -/
theorem GivenUp.errors (h : GivenUp s s' a c failure before) (hrunning : Running lib s)
    (hrunning' : Running lib s') {p : Ptr} (huser : .created p .user ∈ s.conn.trace) :
    (eventsOf (before ++ teardownRecord c failure)).count ⟨.transError, some p⟩ =
      if p ∈ teardownPending s ∧ ⟨.transDone, some p⟩ ∉ eventsOf (before ++ teardownRecord c failure)
      then 1 else 0 := by
  have htrace : s'.conn.trace = s.conn.trace ++ (before ++ teardownRecord c failure) := by
    rw [h.torn.trace, h.read.trace, List.append_assoc]
  have hcount : (eventsOf (before ++ teardownRecord c failure)).count ⟨.transError, some p⟩ =
      c.transPending.count p := by
    have hnone : (eventsOf before).count ⟨.transError, some p⟩ = 0 := by
      refine List.count_eq_zero_of_not_mem fun hmem => ?_
      rcases h.types hmem with heq | heq <;> cases heq
    rw [eventsOf_append, List.count_append, hnone, (count_teardownRecord c failure p).2, Nat.zero_add]
  have honce : (eventsOf (before ++ teardownRecord c failure)).count ⟨.transDone, some p⟩ +
      (eventsOf (before ++ teardownRecord c failure)).count ⟨.transError, some p⟩ ≤ 1 := by
    obtain ⟨waits, timeouts, ends, hordered⟩ := hrunning'.wellOrdered p
    have hle := hordered.count_le
    rw [htrace, queuedFor_append, List.count_append, List.count_append] at hle
    rw [count_eventsOf, count_eventsOf]
    omega
  by_cases hp : p ∈ c.transPending
  · have hpos : 0 < c.transPending.count p := List.count_pos_iff.mpr hp
    have hdone : ⟨.transDone, some p⟩ ∉ eventsOf (before ++ teardownRecord c failure) := by
      intro hmem
      have := List.count_pos_iff.mpr hmem
      omega
    rw [if_pos ⟨h.pending hp, hdone⟩]
    omega
  · rw [hcount, List.count_eq_zero_of_not_mem hp, if_neg]
    rintro ⟨hmem, hdone⟩
    obtain ⟨t, ht, hst⟩ := hrunning.waits_of_teardownPending hmem
    obtain ⟨msg, hanswered⟩ := (h.answered p hmem).resolve_left hp
    have hlive := (h.torn.live p).mpr (Or.inl ((h.read.live p).mpr (Or.inl (by simp [ht]))))
    obtain ⟨t', ht'⟩ := Option.isSome_iff_exists.mp hlive
    have hanswered' : .answered p .pending msg ∈ s'.conn.trace := by
      rw [htrace]
      exact List.mem_append_right _ (List.mem_append_left _ hanswered)
    have howner := hrunning'.owner_eq ht' (htrace ▸ List.mem_append_left _ huser)
    have hended := hrunning'.ended_done ht' (hrunning'.done_of_answered ht' hanswered') howner
    have hnew : ended (queuedFor p s'.conn.trace) =
        ended (queuedFor p (before ++ teardownRecord c failure)) := by
      rw [htrace, queuedFor_append, ended, List.filter_append]
      exact congrArg (· ++ _) (hrunning.ended_waiting ht hst)
    rw [hnew] at hended
    have hmem' : ∀ type, ended (queuedFor p (before ++ teardownRecord c failure)) = [type] →
        ⟨type, some p⟩ ∈ eventsOf (before ++ teardownRecord c failure) := by
      intro type heq
      have hin : type ∈ queuedFor p (before ++ teardownRecord c failure) :=
        List.mem_of_mem_filter (heq ▸ List.mem_singleton_self type :
          type ∈ ended (queuedFor p (before ++ teardownRecord c failure)))
      rw [← List.count_pos_iff, count_eventsOf, List.count_pos_iff]
      exact hin
    rcases hended with hended | hended
    · exact hdone (hmem' _ hended)
    · have hpos := List.count_pos_iff.mpr (hmem' _ hended)
      rw [hcount, List.count_eq_zero_of_not_mem hp] at hpos
      omega

end GivenUp

end Batch

section Runs

variable {lib : Mstdlib}

/-- A handler that gives up an I/O object closes its connection in order. -/
theorem LastBatch.of_step {s s' : Sys} {a : Action} (hrunning : Running lib s) (hstage : Stage s)
    (h : sysStep lib s a = some s') (hregistered : s.registered = true) (hdown : s'.registered = false)
    (hlive : s'.conn.freed = false) : LastBatch s a s' := by
  obtain ⟨new, htrace, -, hreport⟩ := sysStep_report h hrunning hstage
  have hkept : s'.registered ≠ s.registered := by
    rw [hregistered, hdown]
    exact Bool.false_ne_true
  cases hreport with
  | tornDown c failure before hgiven _ heq =>
    subst heq
    have hnew := newEvents_eq htrace
    refine ⟨?_, ?_, fun p huser => ?_⟩
    · rw [hnew]
      exact hgiven.batch hstage
    · rw [hnew, hgiven.torn.events, hgiven.read.events, eventsOf_append, List.append_assoc]
    · rw [hnew]
      exact hgiven.errors hrunning (hrunning.step h) huser
  | calm _ hsame _ => exact absurd hsame hkept
  | dialed _ hnone _ _ =>
    rw [hregistered] at hnone
    cases hnone
  | answered _ _ _ _ hsame _ _ => exact absurd hsame hkept
  | established _ _ _ _ _ hsame _ _ _ => exact absurd hsame hkept
  | destroyed hfreed _ =>
    rw [hlive] at hfreed
    cases hfreed

/-- The grammar holds in every reached state. -/
theorem grammar_of_reachable {w : Sys × Option (List Event)} (h : (taped lib).Reachable w)
    (hlive : w.1.conn.freed = false) : Grammar w := by
  refine System.Reachable.invariant (taped lib) (P := fun w => w.1.conn.freed = false → Grammar w)
    ?_ ?_ h hlive
  · rintro ⟨s, tape⟩ ⟨⟨host, port, -, -, rfl⟩, rfl⟩ -
    exact ⟨.unused rfl rfl, fun _ => rfl⟩
  · intro w a w' hw hgrammar hstep hlive'
    obtain ⟨hnext, htape⟩ := (monetra lib).monitor_step hstep
    have hbefore := sysStep_live lib hnext
    have hreached : (monetra lib).Reachable w.1 := System.Reachable.of_monitor _ hw
    have hrunning := running_of_reachable hreached
    have hstage := stage_of_reachable hreached hbefore
    obtain ⟨hcourse, hdelivered⟩ := hgrammar hbefore
    refine ⟨?_, fun hkept => ?_⟩
    · rw [htape]
      exact hcourse.step hrunning hstage hnext hlive'
    · have hdestroy : w.1.conn.destroy = false := by
        by_contra hdestroy
        have htaken := (sysStep_kept hnext hrunning
          (not_destroys_of_live hrunning hnext hlive')).2 (by simpa using hdestroy)
        rw [hkept] at htaken
        cases htaken
      exact sysStep_delivered hrunning hstage hnext hlive' hdestroy (hdelivered hdestroy)

/-- The events of a connection keep to the grammar, and each of its I/O objects that is torn down ends
with one last batch. -/
theorem connection_grammar (lib : Mstdlib) {w : Sys × Option (List Event)} (h : (taped lib).Reachable w)
    (hlive : w.1.conn.freed = false) :
    Grammar w ∧ ∀ a w', (taped lib).step w a = some w' → w'.1.conn.freed = false →
      w.1.registered = true → w'.1.registered = false → LastBatch w.1 a w'.1 := by
  refine ⟨grammar_of_reachable h hlive, fun a w' hstep hlive' hregistered hdown => ?_⟩
  have hreached : (monetra lib).Reachable w.1 := System.Reachable.of_monitor _ h
  exact .of_step (running_of_reachable hreached) (stage_of_reachable hreached hlive)
    ((monetra lib).monitor_step hstep).1 hregistered hdown hlive'

/-- The library with a sale on the wire, and what its connection has reported. -/
def saleTaped : Sys × Option (List Event) := ((taped reference).run (started, none) sendSale).get (by decide)

/-- This state is reachable. -/
theorem saleTaped_reachable : (taped reference).Reachable saleTaped :=
  System.reachable_get (taped reference) ⟨started_init reference, rfl⟩ sendSale _

/-- The server closes the connection before it has answered the sale. -/
def saleLost : Sys × Option (List Event) :=
  ((taped reference).step saleTaped (.event (.failed .disconnected []))).get (by decide)

/-- The sale fails, then the connection ends. -/
theorem connection_grammar_sale :
    saleTaped.2 = some [⟨.connConnected, none⟩] ∧
      newEvents saleTaped.1 saleLost.1 = [⟨.transError, some 0⟩, ⟨.connDisconnect, none⟩] ∧
      Grammar saleTaped ∧ LastBatch saleTaped.1 (.event (.failed .disconnected [])) saleLost.1 := by
  obtain ⟨hgrammar, hbatch⟩ := connection_grammar reference saleTaped_reachable (by decide)
  exact ⟨by decide, by decide, hgrammar,
    hbatch _ _ (Option.some_get _).symm (by decide) (by decide) (by decide)⟩

end Runs

end LibMonetra
