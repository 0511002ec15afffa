import LibMonetra.Store

/-!
# What the store operations change

Field by field, what moving, creating, freeing and the smaller updates do to a transaction store.
Later proofs rewrite with these facts and never unfold an operation.
-/

namespace LibMonetra

namespace TransStore

variable (s : TransStore) (p : Ptr) (t t' : Trans) (o : Obs) (status status' : TransStatus)

@[simp] theorem heap_queueTake : (s.queueTake status p).heap = s.heap := by cases status <;> rfl

@[simp] theorem nextPtr_queueTake : (s.queueTake status p).nextPtr = s.nextPtr := by
  cases status <;> rfl

@[simp] theorem transIdMap_queueTake : (s.queueTake status p).transIdMap = s.transIdMap := by
  cases status <;> rfl

@[simp] theorem transDelayRm_queueTake : (s.queueTake status p).transDelayRm = s.transDelayRm := by
  cases status <;> rfl

@[simp] theorem pingtxn_queueTake : (s.queueTake status p).pingtxn = s.pingtxn := by
  cases status <;> rfl

@[simp] theorem transTimers_queueTake : (s.queueTake status p).transTimers = s.transTimers := by
  cases status <;> rfl

@[simp] theorem events_queueTake : (s.queueTake status p).events = s.events := by
  cases status <;> rfl

@[simp] theorem trace_queueTake : (s.queueTake status p).trace = s.trace := by
  cases status <;> rfl

/-- Taking a transaction out of one queue leaves the others alone. -/
@[simp] theorem connQueue_queueTake :
    (s.queueTake status p).connQueue status' =
      if status' = status then (s.connQueue status).erase p else s.connQueue status' := by
  cases status <;> cases status' <;> rfl

@[simp] theorem connQueue_log : (s.log o).connQueue status = s.connQueue status := by
  cases status <;> rfl

@[simp] theorem connQueue_connEventAdd (type : EventType) (q : Option Ptr) :
    (s.connEventAdd type q).connQueue status = s.connQueue status := by cases status <;> rfl

@[simp] theorem connQueue_setTrans : (s.setTrans p t).connQueue status = s.connQueue status := by
  cases status <;> rfl

@[simp] theorem connQueue_killTimeoutTimer :
    (s.killTimeoutTimer p t).connQueue status = s.connQueue status := by
  unfold killTimeoutTimer
  cases status <;> split <;> rfl

/-- Removing the timeout timer only clears the timer field of its transaction. -/
theorem heap_killTimeoutTimer (h : s.heap p = some t) :
    (s.killTimeoutTimer p t).heap = Function.update s.heap p (some { t with timeoutTimer := false }) := by
  unfold killTimeoutTimer
  split
  · rfl
  · rename_i htimer
    have ht : ({ t with timeoutTimer := false } : Trans) = t := by
      cases t
      simp_all
    rw [ht, ← h, Function.update_eq_self]

@[simp] theorem nextPtr_killTimeoutTimer : (s.killTimeoutTimer p t).nextPtr = s.nextPtr := by
  unfold killTimeoutTimer
  split <;> rfl

@[simp] theorem transIdMap_killTimeoutTimer :
    (s.killTimeoutTimer p t).transIdMap = s.transIdMap := by
  unfold killTimeoutTimer
  split <;> rfl

@[simp] theorem transDelayRm_killTimeoutTimer :
    (s.killTimeoutTimer p t).transDelayRm = s.transDelayRm := by
  unfold killTimeoutTimer
  split <;> rfl

@[simp] theorem pingtxn_killTimeoutTimer : (s.killTimeoutTimer p t).pingtxn = s.pingtxn := by
  unfold killTimeoutTimer
  split <;> rfl

@[simp] theorem events_killTimeoutTimer : (s.killTimeoutTimer p t).events = s.events := by
  unfold killTimeoutTimer
  split <;> rfl

@[simp] theorem trace_killTimeoutTimer : (s.killTimeoutTimer p t).trace = s.trace := by
  unfold killTimeoutTimer
  split <;> rfl

/-- After a removal no timer of the transaction is left, if its pointer was set whenever a timer
was. -/
theorem transTimers_killTimeoutTimer :
    (s.killTimeoutTimer p t).transTimers =
      if t.timeoutTimer then s.transTimers.filter fun timer => timer.1 ≠ p else s.transTimers := by
  unfold killTimeoutTimer
  split <;> rfl

@[simp] theorem connQueue_defer : (s.defer p t).connQueue status = s.connQueue status := by
  rw [← connQueue_killTimeoutTimer s p t status]
  cases status <;> rfl

@[simp] theorem heap_move : (s.move p t t').heap = Function.update s.heap p (some t') := by
  unfold move setTrans
  cases t'.status <;> simp

@[simp] theorem nextPtr_move : (s.move p t t').nextPtr = s.nextPtr := by
  unfold move setTrans
  cases t'.status <;> simp

@[simp] theorem transIdMap_move : (s.move p t t').transIdMap = s.transIdMap := by
  unfold move setTrans
  cases t'.status <;> simp

@[simp] theorem transDelayRm_move : (s.move p t t').transDelayRm = s.transDelayRm := by
  unfold move setTrans
  cases t'.status <;> simp

@[simp] theorem pingtxn_move : (s.move p t t').pingtxn = s.pingtxn := by
  unfold move setTrans
  cases t'.status <;> simp

@[simp] theorem transTimers_move : (s.move p t t').transTimers = s.transTimers := by
  unfold move setTrans
  cases t'.status <;> simp

@[simp] theorem events_move : (s.move p t t').events = s.events := by
  unfold move setTrans
  cases t'.status <;> simp

@[simp] theorem trace_move : (s.move p t t').trace = s.trace := by
  unfold move setTrans
  cases t'.status <;> simp

/-- A move takes the transaction from the queue of its old status to the end of the new one. -/
@[simp] theorem connQueue_move :
    (s.move p t t').connQueue status =
      (if status = t.status then (s.connQueue status).erase p else s.connQueue status) ++
        if status = t'.status then [p] else [] := by
  cases hold : t.status <;> cases hnew : t'.status <;> cases status <;>
    simp [move, setTrans, queueTake, connQueue, hold, hnew]

section Answer

variable (msg : Bytes)

@[simp] theorem heap_answer :
    (s.answer p t t' msg).heap = Function.update s.heap p (some t') := heap_move s p t t'

@[simp] theorem nextPtr_answer : (s.answer p t t' msg).nextPtr = s.nextPtr := nextPtr_move s p t t'

@[simp] theorem transIdMap_answer : (s.answer p t t' msg).transIdMap = s.transIdMap :=
  transIdMap_move s p t t'

@[simp] theorem transDelayRm_answer : (s.answer p t t' msg).transDelayRm = s.transDelayRm :=
  transDelayRm_move s p t t'

@[simp] theorem pingtxn_answer : (s.answer p t t' msg).pingtxn = s.pingtxn := pingtxn_move s p t t'

@[simp] theorem transTimers_answer : (s.answer p t t' msg).transTimers = s.transTimers :=
  transTimers_move s p t t'

@[simp] theorem events_answer : (s.answer p t t' msg).events = s.events := events_move s p t t'

@[simp] theorem trace_answer :
    (s.answer p t t' msg).trace = s.trace ++ [.consumed msg, .answered p .pending msg] := by
  simp [answer, log]

/-- An answer moves the transaction. -/
@[simp] theorem connQueue_answer :
    (s.answer p t t' msg).connQueue status =
      (if status = t.status then (s.connQueue status).erase p else s.connQueue status) ++
        if status = t'.status then [p] else [] := by
  have hmove := connQueue_move s p t t' status
  cases status <;> exact hmove

end Answer

section Submit

variable (armed : Bool) (interval : ℕ) (frame : Bytes)

@[simp] theorem heap_submit : (s.submit p t armed interval frame).heap =
    Function.update s.heap p (some (t.submitted armed)) := heap_move s p t _

@[simp] theorem nextPtr_submit : (s.submit p t armed interval frame).nextPtr = s.nextPtr :=
  nextPtr_move s p t _

@[simp] theorem transIdMap_submit :
    (s.submit p t armed interval frame).transIdMap = s.transIdMap := transIdMap_move s p t _

@[simp] theorem transDelayRm_submit :
    (s.submit p t armed interval frame).transDelayRm = s.transDelayRm := transDelayRm_move s p t _

@[simp] theorem pingtxn_submit : (s.submit p t armed interval frame).pingtxn = s.pingtxn :=
  pingtxn_move s p t _

@[simp] theorem transTimers_submit : (s.submit p t armed interval frame).transTimers =
    if armed then s.transTimers ++ [(p, interval)] else s.transTimers := rfl

@[simp] theorem events_submit : (s.submit p t armed interval frame).events = s.events :=
  events_move s p t _

@[simp] theorem trace_submit : (s.submit p t armed interval frame).trace =
    s.trace ++ [.framed p t.owner .connected frame] := by
  simp [submit, log]

/-- A submitted transaction is at the end of the queue of pending ones. -/
@[simp] theorem connQueue_submit :
    (s.submit p t armed interval frame).connQueue status =
      (if status = t.status then (s.connQueue status).erase p else s.connQueue status) ++
        if status = .pending then [p] else [] := by
  have hmove := connQueue_move s p t (t.submitted armed) status
  cases status <;> exact hmove

end Submit

@[simp] theorem heap_create : (s.create t).heap = Function.update s.heap s.nextPtr (some t) := by
  unfold create setTrans
  cases t.status <;> rfl

@[simp] theorem nextPtr_create : (s.create t).nextPtr = s.nextPtr + 1 := by
  unfold create setTrans
  cases t.status <;> rfl

@[simp] theorem transIdMap_create :
    (s.create t).transIdMap = Function.update s.transIdMap t.transId (some s.nextPtr) := by
  unfold create setTrans
  cases t.status <;> rfl

@[simp] theorem transDelayRm_create : (s.create t).transDelayRm = s.transDelayRm := by
  unfold create setTrans
  cases t.status <;> rfl

@[simp] theorem pingtxn_create : (s.create t).pingtxn = s.pingtxn := by
  unfold create setTrans
  cases t.status <;> rfl

@[simp] theorem transTimers_create : (s.create t).transTimers = s.transTimers := by
  unfold create setTrans
  cases t.status <;> rfl

@[simp] theorem events_create : (s.create t).events = s.events := by
  unfold create setTrans
  cases t.status <;> rfl

@[simp] theorem trace_create : (s.create t).trace = s.trace := by
  unfold create setTrans
  cases t.status <;> rfl

/-- A new transaction is at the end of the queue of its status. -/
@[simp] theorem connQueue_create :
    (s.create t).connQueue status =
      s.connQueue status ++ if status = t.status then [s.nextPtr] else [] := by
  cases hnew : t.status <;> cases status <;> simp [create, setTrans, connQueue, hnew]

@[simp] theorem heap_free : (s.free p t).heap = Function.update s.heap p none := rfl

@[simp] theorem transIdMap_free :
    (s.free p t).transIdMap = Function.update s.transIdMap t.transId none := rfl

@[simp] theorem nextPtr_free : (s.free p t).nextPtr = s.nextPtr := by
  unfold free
  simp

@[simp] theorem transDelayRm_free : (s.free p t).transDelayRm = s.transDelayRm := by
  unfold free
  simp

@[simp] theorem pingtxn_free : (s.free p t).pingtxn = s.pingtxn := by
  unfold free
  simp

@[simp] theorem transTimers_free : (s.free p t).transTimers = s.transTimers := by
  unfold free
  simp

@[simp] theorem events_free : (s.free p t).events = s.events := by
  unfold free
  simp

@[simp] theorem trace_free : (s.free p t).trace = s.trace ++ [.freed p] := rfl

/-- Freeing a transaction takes it out of the queue of its status only. -/
@[simp] theorem connQueue_free :
    (s.free p t).connQueue status =
      if status = t.status then (s.connQueue status).erase p else s.connQueue status := by
  cases hstatus : t.status <;> cases status <;> simp [free, queueTake, connQueue, hstatus]

end TransStore

end LibMonetra
