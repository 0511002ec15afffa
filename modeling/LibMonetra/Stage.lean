import LibMonetra.Move

/-!
# The stages of a connection

A connection is down, its I/O object is created, registered, up, proved by a ping, and closing. What
each stage says about the status, the buffers, the timer, the ping and the pending transactions is an
invariant of every run.
-/

namespace LibMonetra

open Foundation

variable {lib : Mstdlib}

section Shapes

variable (lib) (c : Conn)

/-- The failure of a pending transaction touches the transaction, its queue, its timer and the events. -/
theorem failPending_shape (p : Ptr) : ∃ heap done timers events trace, failPending c p = { c with
    heap := heap
    transDone := done
    transTimers := timers
    events := events
    trace := trace } := by
  unfold failPending
  split
  · exact ⟨_, _, _, _, _, rfl⟩
  · rename_i t ht
    unfold TransStore.killTimeoutTimer
    simp only
    split
    · exact ⟨_, _, _, _, _, rfl⟩
    · exact ⟨_, _, _, _, _, rfl⟩

/-- The loop over the pending transactions leaves none of them. -/
theorem failPendingLoop_shape (pending : List Ptr) (hpending : c.transPending = pending) :
    ∃ heap done timers events trace, failPendingLoop pending c = { c with
      heap := heap
      transPending := []
      transDone := done
      transTimers := timers
      events := events
      trace := trace } := by
  induction pending generalizing c with
  | nil =>
    rw [failPendingLoop, ← hpending]
    exact ⟨_, _, _, _, _, rfl⟩
  | cons p rest ih =>
    obtain ⟨heap, done, timers, events, trace, heq⟩ := failPending_shape { c with transPending := rest } p
    rw [failPendingLoop, heq]
    exact ih { c with
      heap := heap
      transPending := rest
      transDone := done
      transTimers := timers
      events := events
      trace := trace } rfl

/-- A connection that is given up has no I/O object, no buffers, no timer and no pending transaction. -/
theorem connEventHandleConnError_shape (failure : IoFailure) :
    ∃ heap done timers events trace, connEventHandleConnError c failure = { c with
      heap := heap
      transPending := []
      transDone := done
      transTimers := timers
      events := events
      trace := trace
      io := none
      writeTrigger := none
      status := .disconnected
      outbuf := []
      inbuf := []
      timer := none } := by
  let down : Conn := { c with
    io := none
    writeTrigger := none
    status := .disconnected
    outbuf := []
    inbuf := []
    timer := none }
  let ready := if c.status = .idleTimeout then [] else c.transReady
  obtain ⟨heap, done, timers, events, trace, heq⟩ :=
    failPendingLoop_shape (noconnectEvents ready down) c.transPending (by rw [noconnectEvents_eq])
  have hpending : (noconnectEvents ready down).transPending = c.transPending := by
    rw [noconnectEvents_eq]
  unfold connEventHandleConnError
  simp only
  rw [show (noconnectEvents _ _).transPending = c.transPending from hpending, heq, noconnectEvents_eq]
  exact ⟨_, _, _, _, _, rfl⟩

section Left

/-! What is left of a connection that is given up, field by field. -/

variable (failure : IoFailure)

@[simp] theorem connEventHandleConnError_io : (connEventHandleConnError c failure).io = none := by
  obtain ⟨_, _, _, _, _, heq⟩ := connEventHandleConnError_shape c failure
  rw [heq]

@[simp] theorem connEventHandleConnError_status :
    (connEventHandleConnError c failure).status = .disconnected := by
  obtain ⟨_, _, _, _, _, heq⟩ := connEventHandleConnError_shape c failure
  rw [heq]

@[simp] theorem connEventHandleConnError_outbuf : (connEventHandleConnError c failure).outbuf = [] := by
  obtain ⟨_, _, _, _, _, heq⟩ := connEventHandleConnError_shape c failure
  rw [heq]

@[simp] theorem connEventHandleConnError_inbuf : (connEventHandleConnError c failure).inbuf = [] := by
  obtain ⟨_, _, _, _, _, heq⟩ := connEventHandleConnError_shape c failure
  rw [heq]

@[simp] theorem connEventHandleConnError_transPending :
    (connEventHandleConnError c failure).transPending = [] := by
  obtain ⟨_, _, _, _, _, heq⟩ := connEventHandleConnError_shape c failure
  rw [heq]

@[simp] theorem connEventHandleConnError_transReady :
    (connEventHandleConnError c failure).transReady = c.transReady := by
  obtain ⟨_, _, _, _, _, heq⟩ := connEventHandleConnError_shape c failure
  rw [heq]

@[simp] theorem connEventHandleConnError_transDelayRm :
    (connEventHandleConnError c failure).transDelayRm = c.transDelayRm := by
  obtain ⟨_, _, _, _, _, heq⟩ := connEventHandleConnError_shape c failure
  rw [heq]

@[simp] theorem connEventHandleConnError_pingtxn :
    (connEventHandleConnError c failure).pingtxn = c.pingtxn := by
  obtain ⟨_, _, _, _, _, heq⟩ := connEventHandleConnError_shape c failure
  rw [heq]

@[simp] theorem connEventHandleConnError_destroy :
    (connEventHandleConnError c failure).destroy = c.destroy := by
  obtain ⟨_, _, _, _, _, heq⟩ := connEventHandleConnError_shape c failure
  rw [heq]

@[simp] theorem connEventHandleConnError_freed : (connEventHandleConnError c failure).freed = c.freed := by
  obtain ⟨_, _, _, _, _, heq⟩ := connEventHandleConnError_shape c failure
  rw [heq]

end Left

/-- The clean-up of the ping touches the transactions and the timer; the ping leaves its queue. -/
theorem connCleanupPing_shape (hbusy : c.inUse = true) :
    ∃ st, connCleanupPing lib c = { c with toTransStore := st, timer := none } ∧
      st.pingtxn = c.pingtxn ∧ st.transReady = c.transReady ∧
      st.transPending = c.pingtxn.elim c.transPending fun p => c.transPending.erase p := by
  unfold connCleanupPing
  simp only
  split
  · rename_i hnone
    exact ⟨c.toTransStore, rfl, rfl, rfl, by simp [hnone]⟩
  · rename_i p hping
    cases ht : c.heap p with
    | none =>
      refine ⟨{ c.toTransStore with transPending := c.transPending.erase p }, ?_, rfl, rfl, by simp [hping]⟩
      simp [transDelete, ht]
    | some t =>
      rw [@transDelete_inUse lib { c with timer := none, transPending := c.transPending.erase p } p t
        ht hbusy]
      have hqueue := fun status => TransStore.connQueue_defer
        { c.toTransStore with transPending := c.transPending.erase p } p t status
      refine ⟨_, rfl, ?_, hqueue .ready, ?_⟩
      · simp [TransStore.defer, TransStore.log, hping]
      · exact (hqueue .pending).trans (by simp [hping, TransStore.connQueue])

/-- The status assignment of a submission touches the transaction only. -/
theorem markPending_shape (p : Ptr) : ∃ heap, markPending c p = { c with heap := heap } := by
  unfold markPending
  split <;> exact ⟨_, rfl⟩

/-- `LM_trans_structure` touches the transaction and appends to `outbuf`. -/
theorem transStructure_shape (p : Ptr) : ∃ heap new more, transStructure lib c p = { c with
    heap := heap
    trace := c.trace ++ new
    outbuf := c.outbuf ++ more } ∧ (c.status = .connected → ∀ o ∈ new, o.sends = true) := by
  unfold transStructure
  split
  · exact ⟨c.heap, [], [], by simp, by simp⟩
  · exact ⟨_, _, _, rfl, by simp +contextual [Obs.sends]⟩

/-- The timeout of a transaction touches the transaction and its timer. -/
theorem armTimeoutTimer_shape (p : Ptr) :
    ∃ heap timers, armTimeoutTimer c p = { c with heap := heap, transTimers := timers } := by
  unfold armTimeoutTimer
  split
  · exact ⟨_, _, rfl⟩
  · split <;> exact ⟨_, _, rfl⟩

/-- The loop of `LM_trans_send_messages` moves all `READY` transactions to the pending ones, and appends
to `outbuf`. -/
theorem sendMessagesLoop_shape (ready : List Ptr) (hready : c.transReady = ready) :
    ∃ heap timers new more, sendMessagesLoop lib ready c = { c with
      heap := heap
      transReady := []
      transPending := c.transPending ++ ready
      transTimers := timers
      trace := c.trace ++ new
      outbuf := c.outbuf ++ more } ∧ (ready = [] → more = []) ∧
        (c.status = .connected → ∀ o ∈ new, o.sends = true) := by
  induction ready generalizing c with
  | nil =>
    rw [sendMessagesLoop]
    refine ⟨c.heap, c.transTimers, [], [], ?_, fun _ => rfl, by simp⟩
    simp only [List.append_nil]
    rw [← hready]
  | cons p rest ih =>
    obtain ⟨heap, timers, new, more, heq, hsends⟩ : ∃ heap timers new more,
        armTimeoutTimer (transStructure lib (markPending { c with transReady := rest } p) p) p = { c with
          heap := heap
          transReady := rest
          transTimers := timers
          trace := c.trace ++ new
          outbuf := c.outbuf ++ more } ∧ (c.status = .connected → ∀ o ∈ new, o.sends = true) := by
      obtain ⟨heap₁, hmark⟩ := markPending_shape { c with transReady := rest } p
      obtain ⟨heap₂, new, more, hstructure, hsends⟩ :=
        transStructure_shape lib { c with transReady := rest, heap := heap₁ } p
      obtain ⟨heap₃, timers, harm⟩ := armTimeoutTimer_shape { c with
        transReady := rest
        heap := heap₂
        trace := c.trace ++ new
        outbuf := c.outbuf ++ more } p
      rw [hmark, hstructure, harm]
      exact ⟨heap₃, timers, new, more, rfl, hsends⟩
    rw [sendMessagesLoop, heq]
    obtain ⟨heap', timers', new', more', heq', -, hsends'⟩ := ih { c with
      heap := heap
      transReady := rest
      transPending := c.transPending ++ [p]
      transTimers := timers
      trace := c.trace ++ new
      outbuf := c.outbuf ++ more } rfl
    refine ⟨heap', timers', new ++ new', more ++ more', ?_, by simp, fun hup => ?_⟩
    · simp only [heq', List.append_assoc, List.cons_append, List.nil_append]
    · exact List.forall_mem_append.mpr ⟨hsends hup, hsends' hup⟩

/-- `LM_trans_send_messages` on a connection that is up. The write trigger, if there is one, is signalled
when `outbuf` was empty and no longer is. -/
theorem transSendMessages_shape (hup : c.status = .connected) :
    ∃ heap timers new more timer, (transSendMessages lib c).1 = { c with
      heap := heap
      transReady := []
      transPending := c.transPending ++ c.transReady
      transTimers := timers
      trace := c.trace ++ new
      outbuf := c.outbuf ++ more
      timer := timer
      writeTrigger :=
        if c.outbuf = [] ∧ more ≠ [] then c.writeTrigger.map fun _ => true else c.writeTrigger } ∧
      (c.transReady = [] → more = []) ∧ ∀ o ∈ new, o.sends = true := by
  obtain ⟨heap, timers, new, more, heq, hmore, hsends⟩ := sendMessagesLoop_shape lib c c.transReady rfl
  unfold transSendMessages
  rw [if_neg (by simp [hup]), if_neg (by simp [hup])]
  have hedge : c.outbuf = [] ∧ c.outbuf ++ more ≠ [] ↔ c.outbuf = [] ∧ more ≠ [] :=
    and_congr_right fun hempty => by rw [hempty, List.nil_append]
  simp only [heq, timerStop, triggerSignal, hedge]
  exact ⟨heap, timers, new, more, _, rfl, hmore, hsends hup⟩

/-- `LM_conn_event_set_connected` after the ping is cleaned up. -/
theorem connEventSetConnected_shape :
    ∃ heap timers new more timer, connEventSetConnected lib c = { c with
      heap := heap
      status := .connected
      transReady := []
      transPending := c.transPending ++ c.transReady
      transTimers := timers
      events := c.events ++ [⟨.connConnected, none⟩]
      trace := c.trace ++ .queued ⟨.connConnected, none⟩ :: new
      outbuf := c.outbuf ++ more
      timer := timer
      writeTrigger :=
        if c.outbuf = [] ∧ more ≠ [] then c.writeTrigger.map fun _ => true else c.writeTrigger } ∧
      (c.transReady = [] → more = []) ∧ ∀ o ∈ new, o.sends = true := by
  obtain ⟨heap, timers, new, more, timer, heq, hmore, hsends⟩ := transSendMessages_shape lib { c with
    toTransStore := c.toTransStore.connEventAdd .connConnected none
    status := .connected } rfl
  unfold connEventSetConnected
  simp only
  rw [heq]
  simp only [TransStore.connEventAdd, List.append_assoc, List.cons_append, List.nil_append]
  exact ⟨heap, timers, new, more, _, rfl, hmore, hsends⟩

section Established

/-! An established connection is `CONNECTED`, in the hands of the same handler. -/

@[simp] theorem connEventSetConnected_status : (connEventSetConnected lib c).status = .connected := by
  obtain ⟨_, _, _, _, _, heq, -, -⟩ := connEventSetConnected_shape lib c
  rw [heq]

@[simp] theorem connEventSetConnected_inUse : (connEventSetConnected lib c).inUse = c.inUse := by
  obtain ⟨_, _, _, _, _, heq, -, -⟩ := connEventSetConnected_shape lib c
  rw [heq]

@[simp] theorem connEventSetConnected_io : (connEventSetConnected lib c).io = c.io := by
  obtain ⟨_, _, _, _, _, heq, -, -⟩ := connEventSetConnected_shape lib c
  rw [heq]

@[simp] theorem connEventSetConnected_pingtxn : (connEventSetConnected lib c).pingtxn = c.pingtxn := by
  obtain ⟨_, _, _, _, _, heq, -, -⟩ := connEventSetConnected_shape lib c
  rw [heq]

end Established

/-- Whether a record is the event of a handler or the deletion of a ping. -/
def Obs.isReport : Obs → Bool
  | .queued _ | .deleted _ => true
  | _ => false

/-- The end of a connection only reports. -/
theorem isReport_of_mem_teardownRecord {failure : IoFailure} {o : Obs}
    (ho : o ∈ teardownRecord c failure) : o.isReport = true := by
  simp only [teardownRecord, queuedAs, List.mem_append, List.mem_map, List.mem_singleton] at ho
  rcases ho with (⟨p, -, rfl⟩ | ⟨p, -, rfl⟩) | rfl <;> rfl

/-- The clean-up of the ping deletes it at most. -/
theorem connCleanupPing_reports (hbusy : c.inUse = true) :
    ∃ new, Handled c.toTransStore (connCleanupPing lib c).toTransStore new ∧
      ∀ o ∈ new, o.isReport = true := by
  obtain ⟨-, new, hnew, hdeleted⟩ := connCleanupPing_handled c lib hbusy
  refine ⟨new, hnew, fun o ho => ?_⟩
  rcases hdeleted with rfl | ⟨p, -, rfl⟩
  · cases ho
  · obtain rfl := List.mem_singleton.mp ho
    rfl

end Shapes

section Reads

variable {c : Conn}

/-- What reading from the connection leaves alone. -/
theorem Reads.kept {c' : Conn} {new : List Obs} (h : Reads c c' new) :
    c'.status = c.status ∧ c'.transReady = c.transReady ∧ c'.io = c.io := by
  obtain ⟨_, _, _, _, _, _, _, rfl⟩ := h.shape
  exact ⟨rfl, rfl, rfl⟩

/-- Reading goes on inside the same handler. -/
theorem Reads.inUse {c' : Conn} {new : List Obs} (h : Reads c c' new) : c'.inUse = c.inUse := by
  obtain ⟨_, _, _, _, _, _, _, rfl⟩ := h.shape
  rfl

/-- A read event changes the transactions and what has been read, or gives the connection up. -/
theorem ReadEnd.shape {new : List Obs} {r : Conn × Pc} (h : ReadEnd lib c new r) (hbusy : c.inUse = true) :
    (∃ st inbuf timer, r.1 = { c with toTransStore := st, inbuf := inbuf, timer := timer } ∧
      st.transReady = c.transReady) ∨
    (r.2 = .delivering ∧ ∃ st error, r.1 = { c with
      toTransStore := st
      error := error
      io := none
      writeTrigger := none
      status := .disconnected
      outbuf := []
      inbuf := []
      timer := none }) := by
  cases h with
  | ping c' p t hreads hp hwait hbrought ht hst =>
    obtain ⟨st, heq, -, hready, -⟩ := connCleanupPing_shape lib c' (hreads.inUse.trans hbusy)
    have hsame := hready.trans hreads.kept.2.1
    rw [heq]
    obtain ⟨_, _, _, _, _, _, inbuf, rfl⟩ := hreads.shape
    exact Or.inl ⟨st, inbuf, none, rfl, hsame⟩
  | wait c' hreads =>
    obtain ⟨_, _, _, _, _, _, _, rfl⟩ := hreads.shape
    exact Or.inl ⟨_, _, _, rfl, rfl⟩
  | error c' hreads =>
    obtain ⟨_, _, _, _, _, heq⟩ := connEventHandleConnError_shape (setError
      (timerReset lib c' (c'.transPending = []))
        (ascii "Invalid response format received. Disconnect.")) .error
    rw [heq]
    obtain ⟨_, _, _, _, _, _, _, rfl⟩ := hreads.shape
    exact Or.inr ⟨rfl, _, _, rfl⟩

/-- A read event leaves the connection as it is, or gives it up. -/
theorem ReadEnd.kept {new : List Obs} {r : Conn × Pc} (h : ReadEnd lib c new r) (hbusy : c.inUse = true) :
    (r.1.status = c.status ∧ r.1.transReady = c.transReady ∧ r.1.io = c.io) ∨
      (r.1.io = none ∧ r.1.status = .disconnected) := by
  rcases h.shape hbusy with ⟨st, inbuf, timer, heq, hready⟩ | ⟨-, st, error, heq⟩
  · rw [heq]
    exact Or.inl ⟨rfl, hready, rfl⟩
  · rw [heq]
    exact Or.inr ⟨rfl, rfl⟩

/-- The clean-up of the ping keeps the status. -/
theorem connCleanupPing_status (lib : Mstdlib) (hbusy : c.inUse = true) :
    (connCleanupPing lib c).status = c.status := by
  obtain ⟨st, heq, -⟩ := connCleanupPing_shape lib c hbusy
  rw [heq]

end Reads

/-- What a read event records beside what it reads. -/
theorem ReadEnd.reports {c : Conn} {new : List Obs} {r : Conn × Pc} (h : ReadEnd lib c new r)
    (hrep : Rep c.toTransStore) (hbusy : c.inUse = true) :
    (∀ o ∈ new, ReadsFrom c.toTransStore o) ∧
      ∃ reports, Handled c.toTransStore r.1.toTransStore (new ++ reports) ∧
        ∀ o ∈ reports, o.isReport = true := by
  cases h with
  | ping c' p t hreads hp hwait hbrought ht hst =>
    have hbusy' : c'.inUse = true := by
      obtain ⟨_, _, _, _, _, _, _, rfl⟩ := hreads.shape
      exact hbusy
    obtain ⟨reports, hclean, hreports⟩ := connCleanupPing_reports lib c' hbusy'
    exact ⟨hreads.records, reports, hreads.handled.trans hclean, hreports⟩
  | wait c' hreads =>
    exact ⟨hreads.records, [], hreads.handled.trans (.refl _), by simp⟩
  | error c' hreads =>
    have hlive : ∀ p, p ∈ c'.transReady ∨ p ∈ c'.transPending → (c'.heap p).isSome := by
      intro p hp
      have hready : c'.transReady = c.transReady := by
        obtain ⟨_, _, _, _, _, _, _, rfl⟩ := hreads.shape
        rfl
      refine (hreads.handled.live p).mpr (Or.inl (hrep.live_of_waits ?_))
      exact hp.imp (fun h => hready ▸ h) fun h => hreads.pending.subset h
    exact ⟨hreads.records, _, hreads.handled.trans (connEventHandleConnError_handled (setError
      (timerReset lib c' (c'.transPending = []))
        (ascii "Invalid response format received. Disconnect.")) .error hlive),
      fun _ => isReport_of_mem_teardownRecord _⟩

/-- A connection without I/O object, or whose I/O object is not up, has nothing to read, to write or to
wait for. -/
structure Blank (c : Conn) : Prop where
  outbuf : c.outbuf = []
  inbuf : c.inbuf = []
  timer : c.timer = none
  trigger : c.writeTrigger = none
  pending : c.transPending = []

/-- The stages of a connection. -/
structure Stage (s : Sys) : Prop where
  upRegistered : ∀ io, s.conn.io = some io → io.up = true → io.registered = true
  down : s.conn.status = .disconnected ↔ s.conn.io.any Io.registered = false
  opening : s.connecting = none ↔ s.conn.io.all Io.registered = true
  dialing : s.conn.io.any Io.registered = true → s.conn.io.any Io.up = false →
    s.conn.status = .connecting
  blank : s.conn.io.any Io.up = false → Blank s.conn
  cleaning : ∀ pingEnd, s.pc = .cleaning pingEnd →
    s.conn.io.any Io.up = true ∧ s.conn.status = .connecting
  proving : s.conn.status = .connecting → ∀ p ∈ s.conn.transPending, s.conn.pingtxn = some p
  proved : s.conn.status ≠ .disconnected → s.conn.status ≠ .connecting →
    s.conn.io.any Io.up = true ∧ s.conn.pingtxn = none
  allSent : s.conn.status = .connected → s.conn.transReady = []

section Stage

variable {s s' : Sys}

/-- An I/O object that is up is registered. -/
theorem Stage.registered_of_up (h : Stage s) (hup : s.conn.io.any Io.up = true) :
    s.conn.io.any Io.registered = true := by
  obtain ⟨io, hio, hup⟩ := (Option.any_eq_true _ _).mp hup
  exact (Option.any_eq_true _ _).mpr ⟨io, hio, h.upRegistered io hio hup⟩

/-- A connection whose I/O object is registered is not down. -/
theorem Stage.alive_of_registered (h : Stage s) (hreg : s.conn.io.any Io.registered = true) :
    s.conn.status ≠ .disconnected := by
  intro hdown
  cases hreg.symm.trans (h.down.mp hdown)

/-- A connection whose I/O object is up is being proved while it has a ping. -/
theorem Stage.connecting_of_ping (h : Stage s) (hup : s.conn.io.any Io.up = true)
    (hping : s.conn.pingtxn ≠ none) : s.conn.status = .connecting := by
  by_contra hne
  exact hping (h.proved (h.alive_of_registered (h.registered_of_up hup)) hne).2

/-- A connection that is given up. -/
theorem Stage.lost (hio : s.conn.io = none) (hstatus : s.conn.status = .disconnected)
    (hblank : Blank s.conn) (hconnecting : s.connecting = none)
    (hpc : ∀ pingEnd, s.pc ≠ .cleaning pingEnd) : Stage s where
  upRegistered io h := by simp [hio] at h
  down := by simp [hio, hstatus]
  opening := by simp [hio, hconnecting]
  dialing h := by simp [hio] at h
  blank _ := hblank
  cleaning pingEnd h := absurd h (hpc pingEnd)
  proving _ p hp := by simp [hblank.pending] at hp
  proved h := absurd hstatus h
  allSent h := by simp [hstatus] at h

/-- A connection whose I/O object is not up. -/
theorem Stage.unopened (io : Io) (hio : s.conn.io = some io) (hup : io.up = false)
    (hstatus : s.conn.status = if io.registered then .connecting else .disconnected)
    (hconnecting : s.connecting = none ↔ io.registered = true) (hblank : Blank s.conn)
    (hpc : ∀ pingEnd, s.pc ≠ .cleaning pingEnd) : Stage s where
  upRegistered io' hio' hup' := by
    obtain rfl := Option.some.inj (hio.symm.trans hio')
    cases hup.symm.trans hup'
  down := by
    rw [hstatus]
    cases hreg : io.registered <;> simp [hio, hreg]
  opening := by simpa [hio] using hconnecting
  dialing hreg _ := by
    rw [hstatus, if_pos (by simpa [hio] using hreg)]
  blank _ := hblank
  cleaning pingEnd hc := absurd hc (hpc pingEnd)
  proving _ p hp := by simp [hblank.pending] at hp
  proved hdown hne := by cases hreg : io.registered <;> simp_all
  allSent hst := by cases hreg : io.registered <;> simp_all

/-- The stages of an initial connection. -/
theorem Stage.init (h : (monetra lib).init s) : Stage s := by
  obtain ⟨host, port, -, -, rfl⟩ := h
  exact .lost rfl rfl ⟨rfl, rfl, rfl, rfl, rfl⟩ rfl fun _ => Pc.noConfusion

/-- An action that leaves the connection alone leaves its stage alone. -/
theorem Stage.aside (h : Stage s) {new : List Obs} (haside : Aside s s' new) : Stage s' where
  upRegistered io hio := h.upRegistered io (haside.io ▸ hio)
  down := by rw [haside.status, haside.io]; exact h.down
  opening := by rw [haside.connecting, haside.io]; exact h.opening
  dialing := by rw [haside.status, haside.io]; exact h.dialing
  blank hup := by
    rw [haside.io] at hup
    have hold := h.blank hup
    have hstatus : s.conn.status ≠ .connected := by
      intro hconnected
      have hopen := (h.proved (by simp [hconnected]) (by simp [hconnected])).1
      rw [hup] at hopen
      cases hopen
    exact ⟨haside.outbuf.trans hold.outbuf, haside.inbuf.trans hold.inbuf, haside.timer hstatus hold.timer,
      haside.trigger.trans hold.trigger, List.sublist_nil.mp (hold.pending ▸ haside.pending)⟩
  cleaning pingEnd hpc := by
    rw [haside.status, haside.io]
    exact h.cleaning pingEnd ((haside.cleaning pingEnd).mp hpc)
  proving hst p hp := by
    rw [haside.pingtxn]
    exact h.proving (haside.status ▸ hst) p (haside.pending.subset hp)
  proved := by rw [haside.status, haside.io, haside.pingtxn]; exact h.proved
  allSent hst := by
    have hold := h.allSent (haside.status ▸ hst)
    exact List.sublist_nil.mp (hold ▸ haside.ready)

/-- Nobody is in the creation callback of an I/O object that is registered, or of none. -/
theorem Stage.connecting_eq_none (h : Stage s)
    (hio : s.conn.io = none ∨ s.conn.io.any Io.registered = true) : s.connecting = none := by
  refine h.opening.mpr ?_
  rcases hio with hnone | hreg
  · simp [hnone]
  · obtain ⟨io, hio, hreg⟩ := (Option.any_eq_true _ _).mp hreg
    simp [hio, hreg]

/-- A connection without I/O object is down. -/
theorem Stage.of_none (h : Stage s) (hnone : s.conn.io = none) :
    s.conn.status = .disconnected ∧ s.connecting = none ∧ Blank s.conn ∧
      ∀ pingEnd, s.pc ≠ .cleaning pingEnd := by
  refine ⟨h.down.mpr (by simp [hnone]), h.connecting_eq_none (Or.inl hnone), h.blank (by simp [hnone]),
    fun pingEnd hpc => ?_⟩
  have hup := (h.cleaning pingEnd hpc).1
  simp [hnone] at hup

/-- While somebody is in the creation callback, the I/O object is not registered. -/
theorem Stage.of_connecting (h : Stage s) (hconnecting : s.connecting ≠ none) :
    ∃ io, s.conn.io = some io ∧ io.registered = false ∧ io.up = false := by
  cases hio : s.conn.io with
  | none => exact absurd (h.connecting_eq_none (Or.inl hio)) hconnecting
  | some io =>
    have hreg : io.registered = false := by
      by_contra hreg
      exact hconnecting (h.connecting_eq_none (Or.inr (by simpa [hio] using hreg)))
    refine ⟨io, rfl, hreg, ?_⟩
    by_contra hup
    rw [h.upRegistered io hio (by simpa using hup)] at hreg
    cases hreg

/-- What the stage of a connection says when its I/O object is registered and not up. -/
theorem Stage.of_dialing (h : Stage s)
    (hio : s.conn.io.any (fun io => io.registered && !io.up) = true) :
    ∃ io, s.conn.io = some io ∧ io.registered = true ∧ s.connecting = none ∧
      s.conn.status = .connecting ∧ Blank s.conn := by
  obtain ⟨io, hsome, hdialing⟩ := (Option.any_eq_true _ _).mp hio
  obtain ⟨hreg, hup⟩ := Bool.and_eq_true_iff.mp hdialing
  have hany : s.conn.io.any Io.registered = true := by simp [hsome, hreg]
  have hdown : s.conn.io.any Io.up = false := by simpa [hsome] using hup
  exact ⟨io, hsome, hreg, h.connecting_eq_none (Or.inr hany), h.dialing hany hdown, h.blank hdown⟩

/-- A connection whose I/O object is up. -/
theorem Stage.open (io : Io) (hio : s.conn.io = some io) (hup : io.up = true) (hreg : io.registered = true)
    (hconnecting : s.connecting = none) (hstatus : s.conn.status ≠ .disconnected)
    (hpc : ∀ pingEnd, s.pc = .cleaning pingEnd → s.conn.status = .connecting)
    (hproving : s.conn.status = .connecting → ∀ p ∈ s.conn.transPending, s.conn.pingtxn = some p)
    (hproved : s.conn.status ≠ .connecting → s.conn.pingtxn = none)
    (hsent : s.conn.status = .connected → s.conn.transReady = []) : Stage s where
  upRegistered io' hio' _ := by
    rw [hio, Option.some.injEq] at hio'
    exact hio' ▸ hreg
  down := by simp [hio, hreg, hstatus]
  opening := by simp [hio, hreg, hconnecting]
  dialing _ hdown := by simp [hio, hup] at hdown
  blank hdown := by simp [hio, hup] at hdown
  cleaning pingEnd h := ⟨by simp [hio, hup], hpc pingEnd h⟩
  proving := hproving
  proved _ hne := ⟨by simp [hio, hup], hproved hne⟩
  allSent := hsent

/-- What the stage of a connection says when its I/O object is up. -/
theorem Stage.of_up (h : Stage s) (hup : s.conn.io.any Io.up = true) :
    ∃ io, s.conn.io = some io ∧ io.up = true ∧ io.registered = true ∧ s.connecting = none ∧
      s.conn.status ≠ .disconnected := by
  obtain ⟨io, hio, hioUp⟩ := (Option.any_eq_true _ _).mp hup
  have hreg := h.registered_of_up hup
  exact ⟨io, hio, hioUp, h.upRegistered io hio hioUp, h.connecting_eq_none (Or.inr hreg),
    h.alive_of_registered hreg⟩

/-- A change to a connection that is up and keeps its status, its I/O object and its ping. -/
theorem Stage.stays (h : Stage s) (hup : s.conn.io.any Io.up = true) {c : Conn} {pc : Pc}
    (hio : c.io = s.conn.io) (hstatus : c.status = s.conn.status) (hping : c.pingtxn = s.conn.pingtxn)
    (hpc : ∀ pingEnd, pc = .cleaning pingEnd → s.conn.status = .connecting)
    (hpending : s.conn.status = .connecting → c.transPending ⊆ s.conn.transPending)
    (hready : s.conn.status = .connected → c.transReady = []) :
    Stage { s with conn := c, pc := pc } := by
  obtain ⟨io, hsome, hioUp, hioReg, hconnecting, hdown⟩ := h.of_up hup
  refine .open io (hio.trans hsome) hioUp hioReg hconnecting (hstatus ▸ hdown)
    (fun pingEnd hc => hstatus.trans (hpc pingEnd hc)) (fun hst p hp => ?_) (fun hne => ?_)
    fun hst => hready (hstatus ▸ hst)
  · have hold : s.conn.status = .connecting := hstatus.symm.trans hst
    exact hping.trans (h.proving hold p (hpending hold hp))
  · exact hping.trans (h.proved hdown fun hc => hne (hstatus.trans hc)).2

/-- The end of a connection. -/
theorem Stage.tornDown (h : Stage s) (hreg : s.conn.io.any Io.registered = true) (c : Conn)
    (failure : IoFailure) :
    Stage { s with conn := connEventHandleConnError c failure, pc := .delivering } := by
  obtain ⟨heap, done, timers, events, trace, heq⟩ := connEventHandleConnError_shape c failure
  rw [heq]
  exact .lost rfl rfl ⟨rfl, rfl, rfl, rfl, rfl⟩ (h.connecting_eq_none (Or.inr hreg))
    fun _ => Pc.noConfusion

/-- How a read event ends, on a connection that is up. -/
theorem Stage.readEnd (h : Stage s) (hup : s.conn.io.any Io.up = true) {new : List Obs}
    (c : Conn) {r : Conn × Pc} (hio : c.io = s.conn.io) (hstatus : c.status = s.conn.status)
    (hping : c.pingtxn = s.conn.pingtxn) (hpending : c.transPending = s.conn.transPending)
    (hready : c.transReady = s.conn.transReady) (hbusy : c.inUse = true) (hend : ReadEnd lib c new r) :
    Stage { s with conn := r.1, pc := r.2 } := by
  cases hend with
  | ping c' p t hreads hp hwait hbrought ht hst =>
    have hconnecting := h.connecting_of_ping hup (by rw [← hping, hp]; exact Option.some_ne_none p)
    have hsub := hreads.pending
    obtain ⟨heap, pending, done, timers, events, trace, inbuf, rfl⟩ := hreads.shape
    obtain ⟨st, heq, hsame, -, hleft⟩ := connCleanupPing_shape lib { c with
      heap := heap
      transPending := pending
      transDone := done
      transTimers := timers
      events := events
      trace := trace
      inbuf := inbuf } hbusy
    simp only [heq]
    refine h.stays hup hio hstatus (hsame.trans hping) (fun _ _ => hconnecting) (fun _ => ?_)
      fun hconnected => by simp [hconnecting] at hconnected
    rw [show c.pingtxn = some p from hp] at hleft
    simp only [Option.elim_some] at hleft
    change st.transPending ⊆ _
    rw [hleft, ← hpending]
    exact List.Subset.trans List.erase_subset hsub.subset
  | wait c' hreads =>
    have hsub := hreads.pending
    obtain ⟨heap, pending, done, timers, events, trace, inbuf, rfl⟩ := hreads.shape
    exact h.stays hup hio hstatus hping (fun _ hc => Pc.noConfusion hc) (fun _ => hpending ▸ hsub.subset)
      fun hconnected => hready.trans (h.allSent hconnected)
  | error c' hreads => exact h.tornDown (h.registered_of_up hup) _ _

/-- An established connection. -/
theorem Stage.established (lib : Mstdlib) (h : Stage s) {pingEnd : PingEnd} (hpc : s.pc = .cleaning pingEnd) :
    Stage { s with
      conn := connEventSetConnected lib { s.conn with pingtxn := none }
      pc := .delivering } := by
  obtain ⟨io, hio, hioUp, hioReg, hconnecting, -⟩ := h.of_up (h.cleaning pingEnd hpc).1
  obtain ⟨heap, timers, new, more, timer, heq, -, -⟩ :=
    connEventSetConnected_shape lib { s.conn with pingtxn := none }
  rw [heq]
  exact .open io hio hioUp hioReg hconnecting ConnStatus.noConfusion (fun _ hc => Pc.noConfusion hc)
    (fun hc => ConnStatus.noConfusion hc) (fun _ => rfl) fun _ => rfl

/-- An accepted transaction waits for the connection to come up. -/
theorem Stage.accepted (h : Stage s) {p : Ptr} {t : Trans} (hup : s.conn.status ≠ .connected)
    (hst : t.status = .new) (callers : ℕ) : Stage { s with
      conn := { s.conn with
        toTransStore := (s.conn.toTransStore.move p t { t with status := .ready }).log (.accepted p) }
      callers := callers } := by
  have hpending : ((s.conn.toTransStore.move p t { t with status := .ready }).log
      (.accepted p)).transPending = s.conn.transPending := by
    have hqueue := TransStore.connQueue_move s.conn.toTransStore p t { t with status := .ready } .pending
    simpa [TransStore.connQueue, hst, TransStore.log] using hqueue
  have hping : ((s.conn.toTransStore.move p t { t with status := .ready }).log
      (.accepted p)).pingtxn = s.conn.pingtxn := by simp [TransStore.log]
  refine ⟨h.upRegistered, h.down, h.opening, h.dialing, fun hdown => ?_, h.cleaning, fun hc q hq => ?_,
    fun hd hc => ⟨(h.proved hd hc).1, hping.trans (h.proved hd hc).2⟩, fun hc => absurd hc hup⟩
  · obtain ⟨houtbuf, hinbuf, htimer, htrigger, hnone⟩ := h.blank hdown
    exact ⟨houtbuf, hinbuf, htimer, htrigger, hpending.trans hnone⟩
  · exact hping.trans (h.proving hc q (hpending ▸ hq))

/-- A transaction goes out on an established connection. -/
theorem Stage.sent (lib : Mstdlib) (h : Stage s) {p : Ptr} {t : Trans} (hup : s.conn.status = .connected) :
    Stage { s with conn := (transSendMessages lib { s.conn with
      toTransStore := (s.conn.toTransStore.move p t { t with status := .ready }).log (.accepted p) }).1 } := by
  obtain ⟨hioUp, -⟩ := h.proved (by simp [hup]) (by simp [hup])
  obtain ⟨heap, timers, new, more, timer, heq, -, -⟩ := transSendMessages_shape lib { s.conn with
    toTransStore := (s.conn.toTransStore.move p t { t with status := .ready }).log (.accepted p) } hup
  rw [heq]
  refine h.stays hioUp rfl rfl ?_ (fun pingEnd hc => (h.cleaning pingEnd hc).2)
    (fun hc => by simp [hup] at hc) fun _ => rfl
  change (s.conn.toTransStore.move p t _).pingtxn = _
  simp

/-- An attempt that fails at once, or finds an I/O object. -/
theorem Stage.refused (h : Stage s) {pc next : Pc} (tlsctx : Option ℕ) (error : Bytes) (callers : ℕ)
    (hpc : pc = s.pc ∨ s.pc = .reconnecting true ∧ pc = next) (hnext : ∀ pingEnd, next ≠ .cleaning pingEnd) :
    Stage { s with
      conn := { s.conn with tlsctx := tlsctx, error := error }
      callers := callers
      pc := pc } := by
  refine ⟨h.upRegistered, h.down, h.opening, h.dialing, fun hdown => ?_, fun pingEnd hc => ?_, h.proving,
    h.proved, h.allSent⟩
  · obtain ⟨houtbuf, hinbuf, htimer, htrigger, hnone⟩ := h.blank hdown
    exact ⟨houtbuf, hinbuf, htimer, htrigger, hnone⟩
  · exact h.cleaning pingEnd ((Pc.cleaning_iff_of_attempt hpc (hnext pingEnd)).mp hc)

/-- An attempt has made an I/O object where there was none. -/
theorem Stage.attempted (h : Stage s) {io : Io} (hnone : s.conn.io = none) (hup : io.up = false)
    {status : ConnStatus} (hstatus : status = if io.registered then .connecting else .disconnected)
    {connecting : Option Connector} (hconnecting : connecting = none ↔ io.registered = true) {pc next : Pc}
    (tlsctx : Option ℕ) (error : Bytes) (callers : ℕ)
    (hpc : pc = s.pc ∨ s.pc = .reconnecting true ∧ pc = next) (hnext : ∀ pingEnd, next ≠ .cleaning pingEnd) :
    Stage { s with
      conn := { s.conn with io := some io, status := status, tlsctx := tlsctx, error := error }
      connecting := connecting
      callers := callers
      pc := pc } := by
  obtain ⟨-, -, ⟨houtbuf, hinbuf, htimer, htrigger, hpending⟩, hnot⟩ := h.of_none hnone
  exact .unopened io rfl hup hstatus hconnecting ⟨houtbuf, hinbuf, htimer, htrigger, hpending⟩
    fun pingEnd hc => hnot pingEnd ((Pc.cleaning_iff_of_attempt hpc (hnext pingEnd)).mp hc)

/-- In the creation callback nothing is known of the connection, and no ping is cleaned up. -/
theorem Stage.blank_of_connecting (h : Stage s) {who : Connector} (hwho : s.connecting = some who) :
    s.conn.status = .disconnected ∧ Blank s.conn ∧ ∀ pingEnd, s.pc ≠ .cleaning pingEnd := by
  obtain ⟨io, hio, hreg, hup⟩ := h.of_connecting (by simp [hwho])
  refine ⟨h.down.mpr (by simp [hio, hreg]), h.blank (by simp [hio, hup]), fun pingEnd hc => ?_⟩
  have hold := (h.cleaning pingEnd hc).1
  simp [hio, hup] at hold

/-- The I/O object is registered after its creation callback. -/
theorem Stage.registered (h : Stage s) {who : Connector} (hwho : s.connecting = some who) : Stage { s with
    conn := { s.conn with
      io := s.conn.io.map fun io => { io with registered := true }
      status := .connecting }
    connecting := none
    pc := if who = .handler then .finishing else s.pc } := by
  obtain ⟨io, hio, -, hup⟩ := h.of_connecting (by simp [hwho])
  obtain ⟨-, ⟨houtbuf, hinbuf, htimer, htrigger, hpending⟩, hnot⟩ := h.blank_of_connecting hwho
  exact .unopened { io with registered := true } (by simp [hio]) hup rfl (by simp)
    ⟨houtbuf, hinbuf, htimer, htrigger, hpending⟩ fun pingEnd hc => hnot pingEnd (Pc.cleaning_of_finish hc)

/-- The I/O object cannot be registered after its creation callback. -/
theorem Stage.dropped (h : Stage s) {who : Connector} (error : Bytes) (hwho : s.connecting = some who) :
    Stage { s with
      conn := { s.conn with io := none, error := error }
      connecting := none
      pc := if who = .handler then .finishing else s.pc } := by
  obtain ⟨hdown, ⟨houtbuf, hinbuf, htimer, htrigger, hpending⟩, hnot⟩ := h.blank_of_connecting hwho
  exact .lost rfl hdown ⟨houtbuf, hinbuf, htimer, htrigger, hpending⟩ rfl
    fun pingEnd hc => hnot pingEnd (Pc.cleaning_of_finish hc)

/-- An established connection is being closed. -/
theorem Stage.closing (h : Stage s) (hup : s.conn.status = .connected) {io : Io} (hio : s.conn.io = some io)
    {status : ConnStatus} (hstatus : status = .disconnecting ∨ status = .idleTimeout) (inUse : Bool)
    (timer : Option Timer) {pc : Pc} (hpc : pc = s.pc ∨ pc = .delivering) : Stage { s with
      conn := { s.conn with
        inUse := inUse
        io := some { io with closing := true }
        status := status
        timer := timer }
      pc := pc } := by
  obtain ⟨hioUp, hping⟩ := h.proved (by simp [hup]) (by simp [hup])
  obtain ⟨io', hsome, hup', hreg, hconnecting, -⟩ := h.of_up hioUp
  obtain rfl : io = io' := Option.some.inj (hio.symm.trans hsome)
  refine .open { io with closing := true } rfl hup' hreg hconnecting ?_ (fun pingEnd hc => ?_) ?_
    (fun _ => hping) ?_
  · rcases hstatus with rfl | rfl <;> exact ConnStatus.noConfusion
  · rcases hpc with rfl | rfl
    · cases hup.symm.trans (h.cleaning pingEnd hc).2
    · cases hc
  · rcases hstatus with rfl | rfl <;> exact fun hc => ConnStatus.noConfusion hc
  · rcases hstatus with rfl | rfl <;> exact fun hc => ConnStatus.noConfusion hc

/-- The I/O object is up, and the ping is on its way. -/
theorem Stage.pinged (h : Stage s) (hio : s.conn.io.any (fun io => io.registered && !io.up) = true) {c : Conn}
    {pc : Pc} (hopened : c.io = s.conn.io.map fun io => { io with up := true })
    (hstatus : c.status = s.conn.status)
    (hproving : s.conn.transPending = [] → ∀ p ∈ c.transPending, c.pingtxn = some p) :
    Stage { s with conn := c, pc := pc } := by
  obtain ⟨io, hsome, hreg, hconnecting, hst, hblank⟩ := h.of_dialing hio
  have hst' := hstatus.trans hst
  exact .open { io with up := true } (by simp [hopened, hsome]) rfl hreg hconnecting (by simp [hst'])
    (fun _ _ => hst') (fun _ => hproving hblank.pending) (fun hne => absurd hst' hne)
    fun hc => by simp [hst'] at hc

/-- The clean-up of a ping that has not been answered. -/
theorem Stage.expired (lib : Mstdlib) (h : Stage s) (htimer : s.conn.timer ≠ none)
    (hst : s.conn.status = .connecting) : Stage { s with
      conn := connCleanupPing lib { s.conn with inUse := true }
      pc := .cleaning .timeout } := by
  have hup : s.conn.io.any Io.up = true := by
    by_contra hdown
    exact htimer (h.blank (by simpa using hdown)).timer
  obtain ⟨st, heq, hping, -, hleft⟩ := connCleanupPing_shape lib { s.conn with inUse := true } rfl
  rw [heq]
  refine h.stays hup rfl rfl hping (fun _ _ => hst) (fun _ => ?_) fun hc => by simp [hst] at hc
  change st.transPending ⊆ s.conn.transPending
  rw [hleft]
  cases s.conn.pingtxn with
  | none => exact List.Subset.refl _
  | some p => exact List.erase_subset

/-- The connection is given up without an answer to its ping. -/
theorem Stage.unproved (h : Stage s) (error : Bytes) (hpc : s.pc = .cleaning .timeout) : Stage { s with
    conn := { connEventHandleConnError { s.conn with pingtxn := none, error := error } .error with
      timer := none }
    pc := .delivering } := by
  obtain ⟨hup, -⟩ := h.cleaning .timeout hpc
  have hlost := h.tornDown (h.registered_of_up hup) { s.conn with pingtxn := none, error := error } .error
  obtain ⟨heap, done, timers, events, trace, heq⟩ :=
    connEventHandleConnError_shape { s.conn with pingtxn := none, error := error } .error
  rw [heq] at hlost ⊢
  exact hlost

/-- Every action keeps what the stages say of a connection that has not been freed. -/
theorem Stage.move (h : Stage s) (hlink : Link s) {a : Action} (hmove : Move lib s s' a)
    (hfreed : s'.conn.freed = false) : Stage s' := by
  cases hmove with
  | aside _ new _ haside => exact h.aside haside
  | accepted p t hup _ hst heq => exact heq ▸ h.accepted hup hst _
  | sent p t hup _ _ heq => exact heq ▸ h.sent lib hup
  | refused _ tlsctx error callers pc _ hpc heq =>
    exact heq ▸ h.refused tlsctx error callers hpc fun _ => Pc.noConfusion
  | opened _ who io tlsctx error callers pc _ hnone hreg hup hpc heq =>
    have hdown := (h.of_none hnone).1
    exact heq ▸ h.attempted hnone hup (by rw [hdown, hreg]; rfl) (by simp [hreg]) tlsctx error callers hpc
      fun _ => Pc.noConfusion
  | dialed _ io tlsctx error callers pc _ hnone hreg hup hpc heq =>
    have hwho := (h.of_none hnone).2.1
    exact heq ▸ h.attempted hnone hup (by rw [hreg]; rfl) (by simp [hreg, hwho]) tlsctx error callers hpc
      fun _ => Pc.noConfusion
  | registered who hwho heq => exact heq ▸ h.registered hwho
  | dropped who error hwho heq => exact heq ▸ h.dropped error hwho
  | disconnecting io hup hio heq =>
    exact heq ▸ h.closing hup hio (Or.inl rfl) s.conn.inUse s.conn.timer (Or.inl rfl)
  | idled hpc hup _ heq =>
    obtain ⟨io, hio, -⟩ := h.of_up (h.proved (by simp [hup]) (by simp [hup])).1
    rw [hio, Option.map_some] at heq
    exact heq ▸ h.closing hup hio (Or.inr rfl) true none (Or.inr rfl)
  | pinged draws written draw hpc hio _ _ heq =>
    subst heq
    refine h.pinged hio rfl rfl fun hnone p hp => ?_
    change p ∈ s.conn.transPending ++ [s.conn.nextPtr] at hp
    rw [hnone, List.nil_append, List.mem_singleton] at hp
    rw [hp]
  | unpinged draws written hpc hio _ heq =>
    subst heq
    obtain ⟨st, heq, -, -, hleft⟩ := connCleanupPing_shape lib { s.conn with
      inUse := true
      io := s.conn.io.map fun io => { io with up := true } } rfl
    rw [heq]
    refine h.pinged hio rfl rfl fun hnone p hp => ?_
    change p ∈ st.transPending at hp
    rw [hleft, hnone] at hp
    cases hping : s.conn.pingtxn <;> simp [hping] at hp
  | failed failure text error hpc hreg heq => exact heq ▸ h.tornDown hreg _ _
  | read chunk new r hpc hup hend heq =>
    exact heq ▸ h.readEnd hup { s.conn with inUse := true, inbuf := s.conn.inbuf ++ chunk } rfl rfl rfl rfl rfl
      rfl hend
  | wrote written hpc hup heq =>
    exact heq ▸ h.stays hup rfl rfl rfl (fun _ hc => Pc.noConfusion hc) (fun _ => List.Subset.refl _) h.allSent
  | expired hpc htimer hst heq => exact heq ▸ h.expired lib htimer hst
  | unguarded hpc heq =>
    subst heq
    have hopen := h.established lib hpc
    obtain ⟨hioUp, -⟩ := hopen.proved (by simp) (by simp)
    exact hopen.stays hioUp rfl rfl rfl (fun _ hc => Pc.noConfusion hc) (fun _ => List.Subset.refl _)
      hopen.allSent
  | proved new r hpc hend heq =>
    subst heq
    have hopen := h.established lib hpc
    have hbusy := connEventSetConnected_inUse lib { s.conn with pingtxn := none }
    obtain ⟨hioUp, -⟩ := hopen.proved (by simp) (by simp)
    exact hopen.readEnd hioUp _ rfl rfl rfl rfl rfl (hbusy.trans (hlink.busy (by rw [hpc]; rfl))) hend
  | unproved error hpc heq => exact heq ▸ h.unproved error hpc
  | destroyed a pc hdestroys hidle hpc heq =>
    subst heq
    simp [connDestroy, hidle] at hfreed

/-- The stages of a connection in every reached state, until it is freed. -/
theorem stage_of_reachable {s : Sys} (h : (monetra lib).Reachable s) (hfreed : s.conn.freed = false) :
    Stage s := by
  refine System.Reachable.invariant (monetra lib) (P := fun s => s.conn.freed = false → Stage s)
    (fun _ hinit _ => Stage.init hinit) (fun s0 a s1 hs0 hstage hstep hlive => ?_) h hfreed
  have hrunning := running_of_reachable hs0
  exact (hstage (sysStep_live lib hstep)).move hrunning.link (sysStep_move hstep hrunning) hlive

end Stage

end LibMonetra
