import LibMonetra.Parse
import LibMonetra.TransStructure

/-!
# What can happen to a transaction

The purpose of the connection, as a relation on its transactions alone: a transaction is created,
edited while it is new, accepted for sending, submitted to the wire while the connection is up,
answered or failed, and deleted, now or at the end of the running handler. Everything else the
library does leaves the transactions alone. Each step states the guard under which it happens.
-/

namespace LibMonetra

variable (lib : Mstdlib)

/-- A transaction as its request leaves it on the wire. -/
def Trans.submitted (t : Trans) (armed : Bool) : Trans :=
  { t with status := .pending, requestParams := none, timeoutTimer := armed || t.timeoutTimer }

/-- A transaction that its connection failed. -/
def Trans.failed (t : Trans) (response : Dict) : Trans :=
  { t with status := .done, responseType := .kv, responseParams := some response }

namespace TransStore

/-- Give a transaction new fields and move it to the end of the queue of its new status. -/
def move (s : TransStore) (p : Ptr) (t t' : Trans) : TransStore :=
  let s := (s.queueTake t.status p).setTrans p t'
  match t'.status with
  | .new => { s with transNew := s.transNew ++ [p] }
  | .ready => { s with transReady := s.transReady ++ [p] }
  | .pending => { s with transPending := s.transPending ++ [p] }
  | .done => { s with transDone := s.transDone ++ [p] }

/-- Add a new transaction to the queue of its status and to the id map. -/
def create (s : TransStore) (t : Trans) : TransStore :=
  let p := s.nextPtr
  let s := { (s.setTrans p t) with
    nextPtr := p + 1
    transIdMap := Function.update s.transIdMap t.transId (some p) }
  match t.status with
  | .new => { s with transNew := s.transNew ++ [p] }
  | .ready => { s with transReady := s.transReady ++ [p] }
  | .pending => { s with transPending := s.transPending ++ [p] }
  | .done => { s with transDone := s.transDone ++ [p] }

/-- Free a transaction: it leaves its queue, the id map and the heap. -/
def free (s : TransStore) (p : Ptr) (t : Trans) : TransStore :=
  { (s.queueTake t.status p) with
    transIdMap := Function.update s.transIdMap t.transId none
    heap := Function.update s.heap p none
    trace := s.trace ++ [.freed p] }

/-- Put a request on the wire, and arm its timeout timer if it has one. -/
def submit (s : TransStore) (p : Ptr) (t : Trans) (armed : Bool) (interval : ℕ) (frame : Bytes) :
    TransStore :=
  { ((s.move p t (t.submitted armed)).log (.framed p t.owner .connected frame)) with
    transTimers := if armed then s.transTimers ++ [(p, interval)] else s.transTimers }

/-- Take a response off the connection and store it in its transaction. -/
def answer (s : TransStore) (p : Ptr) (t t' : Trans) (msg : Bytes) : TransStore :=
  ((s.move p t t').log (.consumed msg)).log (.answered p .pending msg)

/-- Put the clean-up of a deleted transaction off to the end of the running handler. -/
def defer (s : TransStore) (p : Ptr) (t : Trans) : TransStore :=
  { ((s.killTimeoutTimer p t).log (.deleted p)) with transDelayRm := s.transDelayRm ++ [p] }

/-- Forget every transaction at once. -/
def freeAll (s : TransStore) : TransStore :=
  { s with
    heap := fun _ => none
    transNew := []
    transReady := []
    transPending := []
    transDone := []
    transIdMap := fun _ => none
    transDelayRm := []
    trace := s.trace ++ [.connFreed] }

end TransStore

/-- One step that the library takes by itself, inside a handler or at the end of a call. -/
inductive InternalStep : TransStore → TransStore → Prop
  | createPing (s : TransStore) (id : ℕ) (status : ConnStatus) :
      s.transIdMap id = none → 1 ≤ id → id < 2 ^ 32 - 1 →
      InternalStep s { (((s.create { Trans.fresh id .ping with status := .pending }).log
        (.created s.nextPtr .ping)).log (.framed s.nextPtr .ping status (requestFrame lib id pingParams))) with
          pingtxn := some s.nextPtr }
  | submit (s : TransStore) (p : Ptr) (t : Trans) (rest : List Ptr) (armed : Bool) (interval : ℕ) :
      s.transReady = p :: rest → s.heap p = some t → t.status = .ready →
      (∀ e ∈ s.events, e.type ≠ .transNoconnect) → interval = t.timeoutS * 1000 % 2 ^ 64 →
      InternalStep s (s.submit p t armed interval (t.request lib))
  | noconnect (s : TransStore) (p : Ptr) :
      p ∈ s.transReady → InternalStep s (s.connEventAdd .transNoconnect (some p))
  | timeout (s : TransStore) (p : Ptr) (t : Trans) (interval : ℕ) :
      s.heap p = some t → (p, interval) ∈ s.transTimers →
      InternalStep s { ((s.connEventAdd .transTimeout (some p)).setTrans p
        { t with timeoutTimer := false }) with
          transTimers := s.transTimers.filter fun timer => timer.1 ≠ p }
  | answer (s : TransStore) (p : Ptr) (t : Trans) (msg data : Bytes) :
      s.heap p = some t → t.status = .pending → readMsg lib msg = some (t.transId, data) →
      s.pingtxn ≠ some p →
      InternalStep s (((s.answer p t (storeResponse lib t data) msg).connEventAdd .transDone
        (some p)).killTimeoutTimer p (storeResponse lib t data))
  | answerPing (s : TransStore) (p : Ptr) (t : Trans) (msg data : Bytes) :
      s.heap p = some t → t.status = .pending → readMsg lib msg = some (t.transId, data) →
      s.pingtxn = some p →
      InternalStep s (s.answer p t (storeResponse lib t data) msg)
  | fail (s : TransStore) (p : Ptr) (t : Trans) (rest : List Ptr) (response : Dict) :
      s.transPending = p :: rest → s.heap p = some t → t.status = .pending →
      response.getDirect (ascii "code") = some (ascii "DENY") →
      InternalStep s (((s.move p t (t.failed response)).killTimeoutTimer p
        (t.failed response)).connEventAdd .transError (some p))
  | retirePing (s : TransStore) (p : Ptr) (t : Trans) :
      s.heap p = some t → s.pingtxn = some p →
      InternalStep s ((s.defer p t).queueTake .pending p)
  | drain (s : TransStore) (p : Ptr) (t : Trans) (rest : List Ptr) :
      s.transDelayRm = p :: rest → s.heap p = some t →
      InternalStep s (({ s with transDelayRm := rest } : TransStore).free p t)
  | drainDead (s : TransStore) (p : Ptr) (rest : List Ptr) :
      s.transDelayRm = p :: rest → s.heap p = none →
      InternalStep s { s with transDelayRm := rest }
  | connEvent (s : TransStore) (type : EventType) :
      type = .connConnected ∨ type = .connDisconnect ∨ type = .connError →
      InternalStep s (s.connEventAdd type none)
  | deliver (s : TransStore) (e : Event) (rest : List Event) :
      s.events = e :: rest →
      InternalStep s { (s.log (.callback e)) with events := rest }
  | dropEvents (s : TransStore) : InternalStep s { s with events := [] }
  | forgetPing (s : TransStore) : InternalStep s { s with pingtxn := none }
  | consume (s : TransStore) (msg : Bytes) : InternalStep s (s.log (.consumed msg))

/-- One step in the life of the transactions of a connection: a step of the library or one that a
caller of the API asks for. -/
inductive StoreStep : TransStore → TransStore → Prop
  | create (s : TransStore) (id : ℕ) (params : Option HashDict) :
      s.transIdMap id = none → 1 ≤ id → id < 2 ^ 32 - 1 →
      StoreStep s ((s.create { Trans.fresh id .user with requestParams := params }).log
        (.created s.nextPtr .user))
  | edit (s : TransStore) (p : Ptr) (t : Trans) (params : Option HashDict) (timeoutS : ℕ) :
      s.heap p = some t → t.status = .new →
      StoreStep s (s.setTrans p { t with requestParams := params, timeoutS := timeoutS })
  | accept (s : TransStore) (p : Ptr) (t : Trans) :
      s.heap p = some t → t.status = .new →
      StoreStep s ((s.move p t { t with status := .ready }).log (.accepted p))
  | defer (s : TransStore) (p : Ptr) (t : Trans) : s.heap p = some t → StoreStep s (s.defer p t)
  | delete (s : TransStore) (p : Ptr) (t : Trans) :
      s.heap p = some t →
      StoreStep s (((s.killTimeoutTimer p t).log (.deleted p)).free p t)
  | destroy (s : TransStore) : StoreStep s s.freeAll
  | internal (s s' : TransStore) : InternalStep lib s s' → StoreStep s s'

end LibMonetra
