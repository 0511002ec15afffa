import LibMonetra.ConnEvent

/-!
# What the pieces of the handler do not look at

The record of a run, the events that wait for delivery and the bytes that have not been read are only
ever added to by the pieces of the library that deal with transactions. Such a piece does the same
behind a longer record.
-/

namespace LibMonetra

/-- A connection behind a longer record, with more events to deliver and other bytes to read. -/
def Conn.behind (c : Conn) (trace : List Obs) (events : List Event) (inbuf : Bytes) : Conn :=
  { c with trace := trace ++ c.trace, events := events ++ c.events, inbuf := inbuf }

/-- A piece of the library that does not look at what was recorded, what waits for delivery and what has
not been read. -/
def Unaware (f : Conn → Conn) : Prop :=
  ∀ c trace events inbuf, f (c.behind trace events inbuf) = (f c).behind trace events inbuf

/-- Two unaware pieces are one. -/
theorem Unaware.comp {f g : Conn → Conn} (hf : Unaware f) (hg : Unaware g) :
    Unaware fun c => g (f c) := by
  intro c trace events inbuf
  dsimp only
  rw [hf, hg]

section Pieces

variable (lib : Mstdlib)

/-- An event is queued. -/
theorem unaware_connEventAdd (type : EventType) (q : Option Ptr) :
    Unaware fun c => { c with toTransStore := c.toTransStore.connEventAdd type q } := by
  intro c trace events inbuf
  simp [Conn.behind, TransStore.connEventAdd]

/-- `markPending`. -/
theorem unaware_markPending (p : Ptr) : Unaware fun c => markPending c p := by
  intro c trace events inbuf
  cases ht : c.heap p <;> simp [Conn.behind, markPending, ht]

/-- `LM_trans_structure`. -/
theorem unaware_transStructure (p : Ptr) : Unaware fun c => transStructure lib c p := by
  intro c trace events inbuf
  cases ht : c.heap p <;> simp [Conn.behind, transStructure, ht]

/-- The timeout timer of a request. -/
theorem unaware_armTimeoutTimer (p : Ptr) : Unaware fun c => armTimeoutTimer c p := by
  intro c trace events inbuf
  cases ht : c.heap p with
  | none => simp [Conn.behind, armTimeoutTimer, ht]
  | some t => by_cases hto : t.timeoutS = 0 <;> simp [Conn.behind, armTimeoutTimer, ht, hto]

/-- The loop of `LM_trans_send_messages`. -/
theorem unaware_sendMessagesLoop (ready : List Ptr) : Unaware fun c => sendMessagesLoop lib ready c := by
  induction ready with
  | nil => exact fun _ _ _ _ => rfl
  | cons p rest ih =>
    have htake : Unaware fun c => { c with transReady := rest } := fun _ _ _ _ => rfl
    have hput : Unaware fun c => { c with transPending := c.transPending ++ [p] } := fun _ _ _ _ => rfl
    exact ((((htake.comp (unaware_markPending p)).comp (unaware_transStructure lib p)).comp
      (unaware_armTimeoutTimer p)).comp hput).comp ih

/-- `LM_trans_send_messages`. -/
theorem unaware_transSendMessages : Unaware fun c => (transSendMessages lib c).1 := by
  intro c trace events inbuf
  have hloop : sendMessagesLoop lib c.transReady (c.behind trace events inbuf) =
      (sendMessagesLoop lib c.transReady c).behind trace events inbuf :=
    unaware_sendMessagesLoop lib c.transReady c trace events inbuf
  by_cases hdown : c.status = .disconnected
  · simp [transSendMessages, Conn.behind, hdown]
  · by_cases hup : c.status = .connected
    · have hup' : (c.behind trace events inbuf).status = .connected := hup
      have hready : (c.behind trace events inbuf).transReady = c.transReady := rfl
      simp only [transSendMessages, hup, hup', hready, hloop, reduceCtorEq, ne_eq, not_true_eq_false,
        if_false]
      rfl
    · simp [transSendMessages, Conn.behind, hdown, hup]

/-- `LM_conn_event_set_connected` after the ping is cleaned up. -/
theorem unaware_connEventSetConnected : Unaware fun c => connEventSetConnected lib c := by
  have hup : Unaware fun c => { c with status := .connected } := fun _ _ _ _ => rfl
  have htimer : Unaware fun c =>
      { c with timer := if c.idleTimeout ≠ 0 then some ⟨0, false⟩ else c.timer } := fun _ _ _ _ => rfl
  exact ((hup.comp (unaware_connEventAdd .connConnected none)).comp (unaware_transSendMessages lib)).comp
    htimer

/-- `M_event_timer_remove` for the timeout of a transaction. -/
theorem unaware_killTimeoutTimer (p : Ptr) (t : Trans) :
    Unaware fun c => { c with toTransStore := c.toTransStore.killTimeoutTimer p t } := by
  intro c trace events inbuf
  cases harmed : t.timeoutTimer <;> simp [Conn.behind, TransStore.killTimeoutTimer, harmed]

/-- `LM_trans_delete_unlocked`. -/
theorem unaware_transDeleteUnlocked (p : Ptr) : Unaware fun c => transDeleteUnlocked lib c p := by
  intro c trace events inbuf
  cases ht : c.heap p with
  | none => simp [Conn.behind, transDeleteUnlocked, ht]
  | some t =>
    cases hst : t.status <;>
      simp [Conn.behind, transDeleteUnlocked, ht, TransStore.queueTake, timerReset, hst]

/-- `LM_trans_delete`. -/
theorem unaware_transDelete (p : Ptr) : Unaware fun c => transDelete lib c p := by
  intro c trace events inbuf
  cases ht : c.heap p with
  | none => simp [Conn.behind, transDelete, ht]
  | some t =>
    have hlog : Unaware fun c => { c with toTransStore := c.toTransStore.log (.deleted p) } := by
      intro c trace events inbuf
      simp [Conn.behind, TransStore.log]
    have hgone := (unaware_killTimeoutTimer p t).comp hlog
    have hbusy : Unaware fun c => if c.inUse then { c with transDelayRm := c.transDelayRm ++ [p] }
        else transDeleteUnlocked lib c p := by
      intro c trace events inbuf
      have hfree := unaware_transDeleteUnlocked lib p c trace events inbuf
      change (if c.inUse then _ else _) = _
      by_cases huse : c.inUse = true
      · simp [huse, Conn.behind]
      · simp only [huse, Bool.false_eq_true, if_false]
        exact hfree
    have hall := hgone.comp hbusy c trace events inbuf
    have hlive : (c.behind trace events inbuf).heap p = some t := ht
    simp only [transDelete, ht, hlive]
    exact hall

/-- `LM_conn_cleanup_ping`. -/
theorem unaware_connCleanupPing : Unaware fun c => connCleanupPing lib c := by
  intro c trace events inbuf
  cases hping : c.pingtxn with
  | none => simp [Conn.behind, connCleanupPing, hping]
  | some p =>
    have hdelete := unaware_transDelete lib p
      { c with timer := none, transPending := c.transPending.erase p } trace events inbuf
    simpa [connCleanupPing, Conn.behind, hping] using hdelete

/-- The bookkeeping of a completed transaction. -/
theorem unaware_transCompleted (p : Ptr) : Unaware fun c => transCompleted c p := by
  intro c trace events inbuf
  have hadd := unaware_connEventAdd .transDone (some p) c trace events inbuf
  cases ht : c.heap p with
  | none =>
    simp [Conn.behind, transCompleted, TransStore.connEventAdd, ht]
  | some t =>
    cases harmed : t.timeoutTimer <;>
      simp [Conn.behind, transCompleted, TransStore.connEventAdd, TransStore.killTimeoutTimer, ht, harmed]

/-- The `NOCONNECT` events. -/
theorem unaware_noconnectEvents (ready : List Ptr) : Unaware fun c => noconnectEvents ready c := by
  induction ready with
  | nil => exact fun _ _ _ _ => rfl
  | cons p rest ih => exact (unaware_connEventAdd .transNoconnect (some p)).comp ih

/-- The failure of a pending transaction. -/
theorem unaware_failPending (p : Ptr) : Unaware fun c => failPending c p := by
  intro c trace events inbuf
  cases ht : c.heap p with
  | none => simp [Conn.behind, failPending, ht]
  | some t =>
    cases harmed : t.timeoutTimer <;>
      simp [Conn.behind, failPending, TransStore.connEventAdd, TransStore.killTimeoutTimer, ht, harmed]

/-- The loop over the pending transactions. -/
theorem unaware_failPendingLoop (pending : List Ptr) : Unaware fun c => failPendingLoop pending c := by
  induction pending with
  | nil => exact fun _ _ _ _ => rfl
  | cons p rest ih =>
    have htake : Unaware fun c => { c with transPending := rest } := fun _ _ _ _ => rfl
    exact (htake.comp (unaware_failPending p)).comp ih

end Pieces

end LibMonetra
