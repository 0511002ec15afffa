import LibMonetra.Reference
import LibMonetra.Teardown

/-!
# When the handler reconnects

A request that is accepted while its connection is going down waits for the next one, and the handler
that sees the end of the connection starts it. The handler decides from the queue alone, so it also
reconnects after an attempt that failed while a request was waiting.
-/

namespace LibMonetra

open Foundation

variable (lib : Mstdlib)

/-- Whether an action is a successful `LM_trans_send` while the connection is being torn down. -/
def sendsLate (s : Sys) : Action → Option Ptr
  | .transSend p =>
    if (transSend lib s.conn p).ok = true ∧
      (s.conn.status = .disconnecting ∨ s.conn.status = .idleTimeout) then some p else none
  | _ => none

/-- The library with a monitor that knows the requests sent while the latest I/O object was being torn
down. -/
def lateSends : System (Sys × List Ptr) Action :=
  (monetra lib).monitor [] fun s a s' late =>
    if s.conn.io.isNone ∧ s'.conn.io.isSome then [] else late ++ (sendsLate lib s a).toList

/-- What is known about the requests that wait: those of a connection that is going down were sent late,
and a connection that is not knows no late ones. -/
structure Lateness (w : Sys × List Ptr) : Prop where
  late : w.1.conn.status = .disconnecting ∨ w.1.conn.status = .idleTimeout →
    ∀ p ∈ w.1.conn.transReady, p ∈ w.2
  early : w.1.conn.io ≠ none → w.1.conn.status ≠ .disconnecting → w.1.conn.status ≠ .idleTimeout →
    w.2 = []

section Late

variable {lib : Mstdlib} {s s' : Sys} {a : Action}

/-- `LM_trans_send` changes nothing when it fails. -/
theorem transSend_of_not_ok {c : Conn} {p : Ptr} (h : (transSend lib c p).ok = false) :
    (transSend lib c p).conn = c := by
  unfold transSend at h ⊢
  split
  · rfl
  · rename_i t ht
    simp only [ht] at h
    by_cases hrefused : t.status ≠ .new ∨ t.numParams = 0
    · rw [if_pos hrefused]
    · rw [if_neg hrefused] at h
      cases h

/-- A request that is accepted while the connection is going down is known to be late. -/
theorem sendsLate_of_accepted {p : Ptr} (hstep : sysStep lib s (.transSend p) = some s')
    (haccepted : s'.conn.trace ≠ s.conn.trace)
    (hdown : s.conn.status = .disconnecting ∨ s.conn.status = .idleTimeout) :
    sendsLate lib s (.transSend p) = some p := by
  have hfree := sysStep_live lib hstep
  unfold sysStep at hstep
  rw [if_neg (by simp [hfree])] at hstep
  obtain rfl := Option.some.inj hstep
  refine if_pos ⟨?_, hdown⟩
  by_contra hfailed
  exact haccepted (congrArg (fun c : Conn => c.trace) (transSend_of_not_ok (by simpa using hfailed)))

/-- Nothing is sent late on a connection that is not going down. -/
theorem sendsLate_eq_none (hdisc : s.conn.status ≠ .disconnecting) (hidle : s.conn.status ≠ .idleTimeout) :
    sendsLate lib s a = none := by
  cases a with
  | transSend p => simp [sendsLate, hdisc, hidle]
  | _ => rfl

/-- An I/O object whose connection is not going down knows no late requests, and keeps knowing none. -/
theorem Lateness.kept {w w' : Sys × List Ptr} (h : Lateness w)
    (hwatch : w'.2 =
      if w.1.conn.io.isNone ∧ w'.1.conn.io.isSome then [] else w.2 ++ (sendsLate lib w.1 a).toList)
    (hstatus : w'.1.conn.status = w.1.conn.status) (hio : w'.1.conn.io = none ↔ w.1.conn.io = none)
    (hready : ∀ p ∈ w'.1.conn.transReady, p ∈ w.1.conn.transReady ∨
      (w.1.conn.status = .disconnecting ∨ w.1.conn.status = .idleTimeout → sendsLate lib w.1 a = some p)) :
    Lateness w' := by
  have hsame : w'.2 = w.2 ++ (sendsLate lib w.1 a).toList := by
    rw [hwatch, if_neg]
    rintro ⟨hnone, hsome⟩
    rw [Option.isNone_iff_eq_none] at hnone
    simp [hio.mpr hnone] at hsome
  refine ⟨fun hdown p hp => ?_, fun hsome hdisc hidle => ?_⟩
  · rw [hsame, List.mem_append]
    exact (hready p hp).imp (h.late (hstatus ▸ hdown) p) fun hlate => by simp [hlate (hstatus ▸ hdown)]
  · rw [hstatus] at hdisc hidle
    rw [hsame, h.early (fun hnone => hsome (hio.mpr hnone)) hdisc hidle, sendsLate_eq_none hdisc hidle]
    rfl

/-- A connection that nobody takes down, and that knew no late requests. -/
theorem Lateness.of_nil {w' : Sys × List Ptr} (hlate : w'.2 = [])
    (hready : w'.1.conn.status = .disconnecting ∨ w'.1.conn.status = .idleTimeout →
      w'.1.conn.transReady = []) : Lateness w' :=
  ⟨fun hdown p hp => by simp [hready hdown] at hp, fun _ _ _ => hlate⟩

/-- A connection that has just been given up. -/
theorem Lateness.of_down {w' : Sys × List Ptr} (hio : w'.1.conn.io = none)
    (hstatus : w'.1.conn.status = .disconnected) : Lateness w' :=
  ⟨fun hdown => by simp [hstatus] at hdown, fun hsome => absurd hio hsome⟩

/-- Every action keeps the knowledge about late requests. -/
theorem Lateness.step {w w' : Sys × List Ptr} (h : Lateness w) (hrunning : Running lib w.1)
    (hstage : Stage w.1) (hstep : (lateSends lib).step w a = some w') : Lateness w' := by
  obtain ⟨hnext, hwatch⟩ := (monetra lib).monitor_step hstep
  obtain ⟨s, late⟩ := w
  obtain ⟨s', late'⟩ := w'
  simp only at hnext hwatch hrunning hstage
  have hsome : s.conn.io.any Io.up = true → s.conn.io ≠ none := by
    intro hup hnone
    simp [hnone] at hup
  have hquiet : s.conn.io ≠ none → s.conn.status ≠ .disconnecting → s.conn.status ≠ .idleTimeout →
      late' = [] := by
    intro hio hdisc hidle
    have hnone : late = [] := h.early hio hdisc hidle
    rw [hwatch, if_neg (by simp [hio]), hnone, sendsLate_eq_none hdisc hidle]
    rfl
  cases sysStep_move hnext hrunning with
  | aside _ new _ haside =>
    exact h.kept hwatch haside.status (by simp only [haside.io]) fun p hp => Or.inl (haside.ready.subset hp)
  | accepted p t hne ht hst heq =>
    refine h.kept hwatch (by rw [heq]) (by rw [heq]) fun q hq => ?_
    have hmem : q ∈ (s.conn.toTransStore.move p t { t with status := .ready }).connQueue .ready := by
      rw [heq] at hq
      exact hq
    rw [TransStore.connQueue_move, hst, if_neg TransStatus.noConfusion, if_pos rfl, List.mem_append,
      List.mem_singleton] at hmem
    refine hmem.imp id fun hp hdown => ?_
    subst hp
    refine sendsLate_of_accepted hnext ?_ hdown
    rw [heq]
    simp [TransStore.log]
  | sent p t hconnected ht hst heq =>
    obtain ⟨hup, -⟩ := hstage.proved (by simp [hconnected]) (by simp [hconnected])
    obtain ⟨_, _, _, _, _, hsend, -, -⟩ := transSendMessages_shape lib { s.conn with
      toTransStore :=
        (s.conn.toTransStore.move p t { t with status := .ready }).log (.accepted p) } hconnected
    refine .of_nil (hquiet (hsome hup) (by simp [hconnected]) (by simp [hconnected])) fun _ => ?_
    rw [heq, hsend]
  | refused _ tlsctx error callers pc hconnects hpc heq =>
    exact h.kept hwatch (by rw [heq]) (by rw [heq]) fun p hp => Or.inl (by rw [heq] at hp; exact hp)
  | opened _ who io tlsctx error callers pc _ hnone hreg hdead hpc heq =>
    refine .of_nil (hwatch.trans (if_pos (by simp [hnone, heq]))) fun hdown => ?_
    simp [heq, (hstage.of_none hnone).1] at hdown
  | dialed _ io tlsctx error callers pc _ hnone hreg hdead hpc heq =>
    refine .of_nil (hwatch.trans (if_pos (by simp [hnone, heq]))) fun hdown => ?_
    simp [heq] at hdown
  | registered who hwho heq =>
    obtain ⟨io, hio, hreg, -⟩ := hstage.of_connecting (by simp [hwho])
    have hdown : s.conn.status = .disconnected := hstage.down.mpr (by simp [hio, hreg])
    refine .of_nil (hquiet (by simp [hio]) (by simp [hdown]) (by simp [hdown])) fun hgoing => ?_
    simp [heq] at hgoing
  | dropped who error hwho heq =>
    obtain ⟨io, hio, hreg, -⟩ := hstage.of_connecting (by simp [hwho])
    exact .of_down (by rw [heq]) (by rw [heq]; exact hstage.down.mpr (by simp [hio, hreg]))
  | disconnecting io hconnected hio heq =>
    refine .of_nil (hquiet (by simp [hio]) (by simp [hconnected]) (by simp [hconnected])) fun _ => ?_
    rw [heq]
    exact hstage.allSent hconnected
  | idled hpc hconnected hpending heq =>
    obtain ⟨hup, -⟩ := hstage.proved (by simp [hconnected]) (by simp [hconnected])
    refine .of_nil (hquiet (hsome hup) (by simp [hconnected]) (by simp [hconnected])) fun _ => ?_
    rw [heq]
    exact hstage.allSent hconnected
  | pinged draws written draw hpc hio hping hdraw heq =>
    obtain ⟨io, hsome, -, -, hst, -⟩ := hstage.of_dialing hio
    refine .of_nil (hquiet (by simp [hsome]) (by simp [hst]) (by simp [hst])) fun hdown => ?_
    simp [heq, hst] at hdown
  | unpinged draws written hpc hio hping heq =>
    obtain ⟨io, hsome, -, -, hst, -⟩ := hstage.of_dialing hio
    obtain ⟨st, hclean, -, -, -⟩ := connCleanupPing_shape lib { s.conn with
      inUse := true
      io := s.conn.io.map fun io => { io with up := true } } rfl
    refine .of_nil (hquiet (by simp [hsome]) (by simp [hst]) (by simp [hst])) fun hdown => ?_
    rw [heq, hclean] at hdown
    simp [hst] at hdown
  | failed failure text error hpc hreg heq =>
    exact .of_down (by simp [heq]) (by simp [heq])
  | read chunk new r hpc hup hend heq =>
    rcases hend.kept rfl with ⟨hstatus, hready, hio⟩ | ⟨hnone, hdown⟩
    · exact h.kept hwatch (by rw [heq]; exact hstatus) (by rw [heq]; exact Iff.of_eq (congrArg (· = none) hio))
        fun p hp => Or.inl (by rw [heq] at hp; exact hready ▸ hp)
    · exact .of_down (by rw [heq]; exact hnone) (by rw [heq]; exact hdown)
  | wrote written hpc hup heq =>
    exact h.kept hwatch (by rw [heq]) (by rw [heq]) fun p hp => Or.inl (by rw [heq] at hp; exact hp)
  | expired hpc htimer hst heq =>
    obtain ⟨st, hclean, -, hready, -⟩ := connCleanupPing_shape lib { s.conn with inUse := true } rfl
    exact h.kept hwatch (by rw [heq, hclean]) (by rw [heq, hclean])
      fun p hp => Or.inl (by rw [heq, hclean] at hp; exact hready ▸ hp)
  | unguarded hpc heq =>
    obtain ⟨hup, hst⟩ := hstage.cleaning .disabled hpc
    refine .of_nil (hquiet (hsome hup) (by simp [hst]) (by simp [hst])) fun hdown => ?_
    simp [heq] at hdown
  | proved new r hpc hend heq =>
    obtain ⟨hup, hst⟩ := hstage.cleaning .reply hpc
    have hbusy := connEventSetConnected_inUse lib { s.conn with pingtxn := none }
    rcases hend.kept (hbusy.trans (hrunning.link.busy (by rw [hpc]; rfl))) with ⟨hsame, -, -⟩ | ⟨hnone, hdown⟩
    · refine .of_nil (hquiet (hsome hup) (by simp [hst]) (by simp [hst])) fun hdown => ?_
      simp [heq, hsame] at hdown
    · exact .of_down (by rw [heq]; exact hnone) (by rw [heq]; exact hdown)
  | unproved error hpc heq =>
    exact .of_down (by simp [heq]) (by simp [heq])
  | destroyed a pc hdestroys hidle hpc heq =>
    refine ⟨fun _ p hp => ?_, fun hsome => ?_⟩
    · simp [heq, connDestroy, hidle] at hp
    · simp [heq, connDestroy, hidle] at hsome

/-- What the monitor knows in a reached state. -/
theorem lateness_of_reachable {w : Sys × List Ptr} (h : (lateSends lib).Reachable w) : Lateness w := by
  refine System.Reachable.invariant (lateSends lib) (P := Lateness) ?_ ?_ h
  · rintro ⟨s, late⟩ ⟨⟨host, port, -, -, rfl⟩, rfl⟩
    exact .of_nil rfl fun _ => rfl
  · intro w a w' hw hlate hstep
    have hreached : (monetra lib).Reachable w.1 := System.Reachable.of_monitor _ hw
    exact hlate.step (running_of_reachable hreached)
      (stage_of_reachable hreached (sysStep_live lib ((monetra lib).monitor_step hstep).1)) hstep

end Late

section Drain

variable {lib : Mstdlib} {s s' : Sys}

/-- Whether an action calls the event callback, or is its return. -/
def Action.delivers : Action → Bool
  | .deliver | .callbackReturn => true
  | _ => false

/-- What a handler changes while it delivers its events and its callbacks call nothing. -/
structure Delivered (s s' : Sys) : Prop where
  ready : s'.conn.transReady = s.conn.transReady
  delayed : s'.conn.transDelayRm = s.conn.transDelayRm
  status : s'.conn.status = s.conn.status
  io : s'.conn.io = s.conn.io
  trace : ∃ new, s'.conn.trace = s.conn.trace ++ new ∧ eventsOf new = []

/-- One callback. -/
theorem Delivered.step {a : Action} (h : sysStep lib s a = some s') (ha : a.delivers = true) :
    Delivered s s' := by
  cases sysStep_walk h with
  | delivers e rest hpc hevents heq =>
    subst heq
    exact ⟨rfl, rfl, rfl, rfl, _, rfl, rfl⟩
  | returns hpc heq =>
    subst heq
    exact ⟨rfl, rfl, rfl, rfl, [], (List.append_nil _).symm, rfl⟩
  | stays _ hcalls _ => cases a <;> simp_all [Action.delivers, Action.calls]
  | _ => cases ha

/-- All callbacks of a handler. -/
theorem Delivered.run (actions : List Action) (hrun : (monetra lib).run s actions = some s')
    (hdelivers : ∀ a ∈ actions, a.delivers = true) : Delivered s s' := by
  induction actions generalizing s with
  | nil =>
    obtain rfl := Option.some.inj hrun
    exact ⟨rfl, rfl, rfl, rfl, [], (List.append_nil _).symm, rfl⟩
  | cons a rest ih =>
    obtain ⟨mid, hmid, hrest⟩ := Option.bind_eq_some_iff.mp hrun
    obtain ⟨hready, hdelayed, hstatus, hio, new, htrace, hnone⟩ :=
      Delivered.step hmid (hdelivers a List.mem_cons_self)
    obtain ⟨hready', hdelayed', hstatus', hio', new', htrace', hnone'⟩ :=
      ih hrest fun b hb => hdelivers b (List.mem_cons_of_mem a hb)
    exact ⟨hready'.trans hready, hdelayed'.trans hdelayed, hstatus'.trans hstatus, hio'.trans hio,
      new ++ new', by rw [htrace', htrace, List.append_assoc], by rw [eventsOf_append, hnone, hnone']; rfl⟩

/-- The drain leaves the connection alone, queues nothing, and looks for requests that wait. -/
theorem sysStep_drain (h : sysStep lib s .drain = some s') :
    s'.conn.status = s.conn.status ∧ s'.conn.io = s.conn.io ∧
      s'.pc = .reconnecting (decide (s'.conn.status = .disconnected ∧ s'.conn.transReady ≠ [])) ∧
      ∃ new, s'.conn.trace = s.conn.trace ++ new ∧ eventsOf new = [] := by
  cases sysStep_walk h with
  | stays _ hcalls _ => cases hcalls
  | drains hpc hevents heq =>
    obtain ⟨st, timer, hdrained, -, -, -⟩ := drainDelayRm_spec lib s.conn.transDelayRm s.conn rfl
    obtain ⟨-, new, htrace, -, hnone⟩ := drainDelayRm_queues lib s.conn.transDelayRm s.conn
    simp only [handlerDrain, hdrained] at heq htrace
    subst heq
    exact ⟨rfl, rfl, rfl, new, htrace,
      List.eq_nil_iff_forall_not_mem.mpr fun e he => (hnone e).1 (mem_eventsOf.mp he)⟩

/-- The drain takes exactly the requests off their queue that have been deleted. -/
theorem mem_ready_drain (h : sysStep lib s .drain = some s') (hrunning : Running lib s) (p : Ptr) :
    p ∈ s'.conn.transReady ↔ p ∈ s.conn.transReady ∧ p ∉ s.conn.transDelayRm := by
  have hrunning' := hrunning.step h
  cases sysStep_walk h with
  | stays _ hcalls _ => cases hcalls
  | drains hpc hevents heq =>
    have hheap : s'.conn.heap p = if p ∈ s.conn.transDelayRm then none else s.conn.heap p := by
      rw [heq]
      exact drainDelayRm_heap lib s.conn.transDelayRm s.conn p
    constructor
    · intro hp
      obtain ⟨t, ht, -⟩ := hrunning'.rep.queued .ready p hp
      rw [hheap] at ht
      split at ht
      · cases ht
      · refine ⟨?_, ‹_›⟩
        rw [heq] at hp
        exact ((drainDelayRm_queues lib s.conn.transDelayRm s.conn).1 .ready).subset hp
    · rintro ⟨hp, hkept⟩
      obtain ⟨t, ht, hst⟩ := hrunning.rep.queued .ready p hp
      rw [if_neg hkept, ht] at hheap
      have hnone := (hrunning'.link.rest (by rw [heq]; rfl)).2.2
      have hplaced := (hrunning'.rep.placed p t hheap).resolve_right (by simp [hnone])
      rw [hst] at hplaced
      exact hplaced

end Drain

section Reconnect

variable {lib : Mstdlib} {s s' : Sys}

/-- What is known of the requests that waited when a handler gave up its connection, once it has
drained: those that were not deleted still wait, and each was reported once, unless the connection had
been idle. -/
structure Reported (s s' : Sys) (new : List Obs) : Prop where
  waiting : ∀ p, p ∈ s'.conn.transReady ↔ p ∈ teardownReady s ∧ p ∉ s.conn.transDelayRm
  noconnect : ∀ p ∈ teardownReady s, (eventsOf new).count ⟨.transNoconnect, some p⟩ =
    if teardownStatus s = .idleTimeout then 0 else 1

/-- Whether the handler goes on as it should: to a new connection exactly when a request was sent late,
and after an attempt that failed to none, with silence until somebody asks for one. -/
structure Reconnects (lib : Mstdlib) (s s' : Sys) (late : List Ptr) : Prop where
  late : s'.pc = .reconnecting true ↔ ∃ p ∈ s'.conn.transReady, p ∈ late
  attempt : teardownStatus s = .connecting → s'.pc = .reconnecting false ∧
    s'.conn.status = .disconnected ∧ ∀ actions s'', (monetra lib).run s' actions = some s'' →
      (∀ a ∈ actions, a.asks = false) → .deliver ∉ actions ∧ s''.conn.status = .disconnected

/-- What is queued before the end of a connection reports no request. -/
theorem GivenUp.count_before {a : Action} {c : Conn} {failure : IoFailure} {before : List Obs}
    (h : GivenUp s s' a c failure before) (p : Ptr) :
    (eventsOf before).count ⟨.transNoconnect, some p⟩ = 0 := by
  refine List.count_eq_zero_of_not_mem fun hmem => ?_
  obtain ⟨done, heq, hdone⟩ := h.events
  rw [heq, List.mem_append] at hmem
  rcases hmem with hmem | hmem
  · split at hmem
    · cases List.mem_singleton.mp hmem
    · cases hmem
  · cases hdone _ hmem

/-- A handler that gives up its connection, whose callbacks call nothing, reports the requests that
wait. It goes on as it should exactly if no request that has not been deleted was waiting for an attempt
that failed. -/
theorem teardown_reconnects (lib : Mstdlib) {w : Sys × List Ptr} {a : Action} {torn delivered s' : Sys}
    {deliveries : List Action} (hw : (lateSends lib).Reachable w) (ha : a.handles = true)
    (hstep : sysStep lib w.1 a = some torn) (hio : w.1.conn.io ≠ none) (htorn : torn.conn.io = none)
    (hrun : (monetra lib).run torn deliveries = some delivered)
    (hdelivers : ∀ b ∈ deliveries, b.delivers = true) (hdrain : sysStep lib delivered .drain = some s') :
    ∃ new, s'.conn.trace = w.1.conn.trace ++ new ∧ Reported w.1 s' new ∧
      (Reconnects lib w.1 s' w.2 ↔
        (teardownStatus w.1 = .connecting → ∀ p ∈ w.1.conn.transReady, p ∈ w.1.conn.transDelayRm)) := by
  have hreached : (monetra lib).Reachable w.1 := System.Reachable.of_monitor _ hw
  have hstage := stage_of_reachable hreached (sysStep_live lib hstep)
  have hrunning := running_of_reachable hreached
  have hlate := lateness_of_reachable hw
  obtain ⟨c, failure, before, hgiven⟩ := sysStep_givenUp hstep hrunning hstage ha hio htorn
  obtain ⟨hready, hdelayed, hstatus, hsame, later, hlater, hquiet⟩ := Delivered.run deliveries hrun hdelivers
  have hreached' : (monetra lib).Reachable delivered := (hreached.step hstep).run _ deliveries hrun
  have hrunning' := running_of_reachable hreached'
  obtain ⟨hstatus', hsame', hpc, drained, hdrained, hnone⟩ := sysStep_drain hdrain
  have hwaiting : ∀ p, p ∈ s'.conn.transReady ↔
      p ∈ teardownReady w.1 ∧ p ∉ w.1.conn.transDelayRm := by
    have hkept : torn.conn.transDelayRm = w.1.conn.transDelayRm := by
      rw [hgiven.torn.delayed, hgiven.read.delayed, hgiven.deletes, deletedOf_teardownRecord,
        List.append_nil, List.append_nil]
    intro p
    rw [mem_ready_drain hdrain (running_of_reachable hreached'), hready, hdelayed, hgiven.left,
      hgiven.ready, hkept]
  have hdown : s'.conn.status = .disconnected := hstatus'.trans (hstatus.trans hgiven.down)
  have hreconnects : s'.pc = .reconnecting true ↔ s'.conn.transReady ≠ [] := by
    rw [hpc]
    simp [hdown]
  refine ⟨before ++ teardownRecord c failure ++ later ++ drained, ?_, ⟨hwaiting, fun p hp => ?_⟩,
    fun h hattempt p hp => ?_, fun hcond => ⟨?_, fun hattempt => ?_⟩⟩
  · rw [hdrained, hlater, hgiven.torn.trace, hgiven.read.trace]
    simp only [List.append_assoc]
  · have hnodup : (teardownReady w.1).Nodup := by
      unfold teardownReady
      split
      · exact List.nodup_nil
      · exact hrunning.rep.nodup .ready
    rw [eventsOf_append, eventsOf_append, eventsOf_append, hquiet, hnone, List.append_nil, List.append_nil,
      List.count_append, hgiven.count_before, (count_teardownRecord c failure p).1, hgiven.status, hgiven.ready,
      hnodup.count, if_pos hp, Nat.zero_add]
  · -- the attempt failed and the handler does not reconnect, so nothing waits any more
    obtain ⟨hstops, -, -⟩ := h.attempt hattempt
    have hempty : s'.conn.transReady = [] := by
      by_contra hne
      rw [hreconnects.mpr hne] at hstops
      cases hstops
    by_contra hkept
    have hreply : w.1.pc ≠ .cleaning .reply := by
      intro hreply
      simp [teardownStatus, hreply] at hattempt
    have hmem := (hwaiting p).mpr ⟨by rwa [teardownReady, if_neg hreply], hkept⟩
    rw [hempty] at hmem
    cases hmem
  · rw [hreconnects]
    refine ⟨fun hne => ?_, fun hlate => hlate.elim fun _ hp => List.ne_nil_of_mem hp.1⟩
    obtain ⟨p, hp⟩ := List.exists_mem_of_ne_nil _ hne
    refine ⟨p, hp, ?_⟩
    obtain ⟨hmem, hkept⟩ := (hwaiting p).mp hp
    unfold teardownReady at hmem
    unfold teardownStatus at hcond
    split at hmem
    · cases hmem
    · rename_i hreply
      rw [if_neg hreply] at hcond
      cases hst : w.1.conn.status with
      | connecting => exact absurd (hcond hst p hmem) hkept
      | connected =>
        rw [hstage.allSent hst] at hmem
        cases hmem
      | disconnecting => exact hlate.late (Or.inl hst) p hmem
      | idleTimeout => exact hlate.late (Or.inr hst) p hmem
      | disconnected => exact absurd hst hgiven.alive
  · have hempty : s'.conn.transReady = [] := by
      refine List.eq_nil_iff_forall_not_mem.mpr fun p hp => ?_
      obtain ⟨hmem, hkept⟩ := (hwaiting p).mp hp
      unfold teardownReady at hmem
      split at hmem
      · cases hmem
      · exact hkept (hcond hattempt p hmem)
    have hstops : s'.pc = .reconnecting false := by
      rw [hpc]
      simp [hempty]
    refine ⟨hstops, hdown, fun actions s'' hafter hasks => ?_⟩
    have hreached'' : (monetra lib).Reachable s' :=
      System.Reachable.step (a := .drain) hreached' hdrain
    obtain ⟨hdormant, hdeliver⟩ := Dormant.run actions
      ⟨hsame'.trans (hsame.trans htorn), hdown, Or.inr (Or.inl hstops)⟩ hreached'' hafter hasks
    exact ⟨hdeliver, hdormant.status⟩

end Reconnect

section Runs

/-- A connection that needs no ping has been idle for too long; a sale is sent while it goes down. -/
def sendLate : List Action :=
  [.connDisablePing, .connSetIdleTimeout 30, .connConnect openNet, .event (.connected [] 0), .resume,
    .deliver, .callbackReturn, .drain, .finish, .event .timer, .drain, .finish, .transNew [saleDraw],
    .transSetParam 0 (ascii "action") (some (ascii "sale")), .transSend 0]

/-- The library with the sale waiting for the next connection. -/
def saleLate : Sys × List Ptr := ((lateSends reference).run (started, []) sendLate).get (by decide)

/-- This state is reachable. -/
theorem saleLate_reachable : (lateSends reference).Reachable saleLate :=
  System.reachable_get (lateSends reference) ⟨started_init reference, rfl⟩ sendLate _

/-- The server closes the idle connection. -/
def saleLateTorn : Sys :=
  (sysStep reference saleLate.1 (.event (.failed .disconnected []))).get (by decide)

/-- The handler has delivered its events. -/
def saleLateDelivered : Sys :=
  ((monetra reference).run saleLateTorn [.deliver, .callbackReturn]).get (by decide)

/-- The handler has drained. -/
def saleLateDrained : Sys := (sysStep reference saleLateDelivered .drain).get (by decide)

/-- The handler reconnects for the late sale, and reports nothing. -/
theorem teardown_reconnects_sale :
    saleLateDrained.pc = .reconnecting true ∧
    ∃ new, saleLateDrained.conn.trace = saleLate.1.conn.trace ++ new ∧
      Reported saleLate.1 saleLateDrained new ∧
      (Reconnects reference saleLate.1 saleLateDrained saleLate.2 ↔
        (teardownStatus saleLate.1 = .connecting →
          ∀ p ∈ saleLate.1.conn.transReady, p ∈ saleLate.1.conn.transDelayRm)) :=
  ⟨by decide, @teardown_reconnects reference saleLate (.event (.failed .disconnected [])) saleLateTorn
    saleLateDelivered saleLateDrained [.deliver, .callbackReturn] saleLate_reachable rfl
    (Option.some_get _).symm (by decide) (by decide) (Option.some_get _).symm (by decide)
    (Option.some_get _).symm⟩

/-- A sale waits for its first connection. -/
def saleDialed : Sys × List Ptr :=
  ((lateSends reference).run (started, []) [.transNew [saleDraw],
    .transSetParam 0 (ascii "action") (some (ascii "sale")), .transSend 0, .implicitConnect openNet]).get
      (by decide)

/-- This state is reachable. -/
theorem saleDialed_reachable : (lateSends reference).Reachable saleDialed :=
  System.reachable_get (lateSends reference) ⟨started_init reference, rfl⟩ _ _

/-- The attempt fails. -/
def saleRefused : Sys := (sysStep reference saleDialed.1 (.event (.failed .error []))).get (by decide)

/-- The callback has been told so for the sale and for the connection. -/
def saleRefusedDelivered : Sys :=
  ((monetra reference).run saleRefused [.deliver, .callbackReturn, .deliver, .callbackReturn]).get
    (by decide)

/-- The handler has drained. -/
def saleRefusedDrained : Sys := (sysStep reference saleRefusedDelivered .drain).get (by decide)

/-- The handler reconnects all the same. -/
theorem teardown_not_reconnects :
    ¬∀ (w : Sys × List Ptr) (a : Action) (torn delivered s' : Sys) (deliveries : List Action),
      (lateSends reference).Reachable w → a.handles = true → sysStep reference w.1 a = some torn →
      w.1.conn.io ≠ none → torn.conn.io = none →
      (monetra reference).run torn deliveries = some delivered → (∀ b ∈ deliveries, b.delivers = true) →
      sysStep reference delivered .drain = some s' → Reconnects reference w.1 s' w.2 := by
  intro h
  have hreconnects := h saleDialed (.event (.failed .error [])) saleRefused saleRefusedDelivered
    saleRefusedDrained [.deliver, .callbackReturn, .deliver, .callbackReturn] saleDialed_reachable rfl
    (Option.some_get _).symm (by decide) (by decide) (Option.some_get _).symm (by decide)
    (Option.some_get _).symm
  obtain ⟨p, -, hp⟩ := hreconnects.late.mp (by decide)
  rw [show saleDialed.2 = [] by decide] at hp
  cases hp

end Runs

end LibMonetra
