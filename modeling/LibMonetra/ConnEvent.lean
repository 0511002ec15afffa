import LibMonetra.ConnApi
import LibMonetra.Parse

/-!
# The event handler

The functions of `monetra_conn_event.c`. One run of `LM_conntrans_event_handler` is cut where it
releases the connection lock: inside `LM_conn_cleanup_ping`, around every callback, and around
the reconnection at its end. Each piece between two such points is one function.
-/

namespace LibMonetra

variable (lib : Mstdlib)

/-- The two ways in which the I/O layer reports the end of a connection. -/
inductive IoFailure
  | disconnected
  | error
  deriving DecidableEq, Repr

/-- What the event loop may deliver to a handler, with the data the handler then reads. -/
inductive IoEvent
  /-- The connection is up. The draws and the byte count serve the ping request. -/
  | connected (draws : List RandDraw) (written : ℕ)
  /-- The connection is gone, with the error text of the I/O object. -/
  | failed (failure : IoFailure) (text : Bytes)
  /-- Bytes have arrived and are read into the parser. -/
  | read (chunk : Bytes)
  /-- A read event whose read does not succeed. -/
  | readFailed
  /-- The I/O object takes more bytes, or the write trigger fired. -/
  | write (written : ℕ)
  /-- The timer of the connection fired. -/
  | timer
  /-- The timeout timer of a transaction fired. -/
  | transTimer (p : Ptr)

/-- `NOCONNECT` events for every transaction that is still `READY`. -/
def noconnectEvents : List Ptr → Conn → Conn
  | [], c => c
  | p :: rest, c =>
    noconnectEvents rest { c with toTransStore := c.toTransStore.connEventAdd .transNoconnect (some p) }

/-- The made-up response of a transaction whose connection failed. -/
def denyResponse (error : Bytes) : Dict :=
  (Dict.create.insert (ascii "code") (some (ascii "DENY"))).insert
    (ascii "verbiage") (some error)

/-- Complete one pending transaction with an error. -/
def failPending (c : Conn) (p : Ptr) : Conn :=
  match c.heap p with
  | none => c
  | some t =>
    let t := { t with
      status := .done
      responseType := .kv
      responseParams := some (denyResponse c.error) }
    let c := { c with
      transDone := c.transDone ++ [p]
      heap := Function.update c.heap p (some t) }
    let c := { c with toTransStore := c.toTransStore.killTimeoutTimer p t }
    { c with toTransStore := c.toTransStore.connEventAdd .transError (some p) }

/-- The loop over the pending transactions. -/
def failPendingLoop : List Ptr → Conn → Conn
  | [], c => c
  | p :: rest, c => failPendingLoop rest (failPending { c with transPending := rest } p)

/-- `LM_conn_event_handle_conn_error`. -/
def connEventHandleConnError (c : Conn) (failure : IoFailure) : Conn :=
  let disconnectWasIdle := c.status = .idleTimeout
  let asked := c.status = .disconnecting ∨ c.status = .idleTimeout
  let c := { c with
    io := none
    writeTrigger := none
    status := .disconnected
    outbuf := []
    inbuf := []
    timer := none }
  let c := noconnectEvents (if disconnectWasIdle then [] else c.transReady) c
  let c := failPendingLoop c.transPending c
  let type := if failure = .disconnected ∨ asked then .connDisconnect else .connError
  { c with toTransStore := c.toTransStore.connEventAdd type none }

/-- `LM_conn_cleanup_ping` up to its return into the lock: the ping leaves the queue and is
deleted, which inside a handler means that its clean-up is put off. -/
def connCleanupPing (c : Conn) : Conn :=
  let c := { c with timer := none }
  match c.pingtxn with
  | none => c
  | some p => transDelete lib { c with transPending := c.transPending.erase p } p

/-- `LM_conn_event_set_connected` after the ping is cleaned up. -/
def connEventSetConnected (c : Conn) : Conn :=
  let c := { c with status := .connected }
  let c := { c with toTransStore := c.toTransStore.connEventAdd .connConnected none }
  let c := (transSendMessages lib c).1
  { c with timer := if c.idleTimeout ≠ 0 then some ⟨0, false⟩ else c.timer }

/-- How the ping exchange ends when `LM_conn_cleanup_ping` is entered. -/
inductive PingEnd
  | disabled
  | reply
  | timeout
  deriving DecidableEq, Repr

/-- Why the loop over the received frames stopped. -/
inductive ReadStop
  | ping
  | wait
  | error
  deriving DecidableEq, Repr

/-- The events of one completed transaction. -/
def transCompleted (c : Conn) (p : Ptr) : Conn :=
  let c := { c with toTransStore := c.toTransStore.connEventAdd .transDone (some p) }
  match c.heap p with
  | none => c
  | some t => { c with toTransStore := c.toTransStore.killTimeoutTimer p t }

/-- The loop of the read event, up to a ping reply. -/
def readLoop : ℕ → Conn → Conn × ReadStop
  | 0, c => (c, .wait)
  | fuel + 1, c =>
    match connParseTransBuffer lib c with
    | (c, .success, some p) =>
      if c.pingtxn = some p then (c, .ping) else readLoop fuel (transCompleted c p)
    | (c, .error, _) => (c, .error)
    | (c, _, _) => (c, .wait)

/-- Where a handler run stands between two pieces. -/
inductive Pc
  | idle
  | cleaning (pingEnd : PingEnd)
  | delivering
  | callback
  | reconnecting (request : Bool)
  | awaiting
  | finishing
  deriving DecidableEq, Repr

/-- The read event from some point of its loop on. -/
def readFrames (c : Conn) : Conn × Pc :=
  match readLoop lib (c.inbuf.length + 1) c with
  | (c, .ping) => (connCleanupPing lib c, .cleaning .reply)
  | (c, stop) =>
    let c := timerReset lib c (c.transPending = [])
    if stop = .error then
      (connEventHandleConnError
        (setError c (ascii "Invalid response format received. Disconnect.")) .error, .delivering)
    else (c, .delivering)

/-- Whether the event loop can deliver an event: an I/O object delivers nothing before it is
registered, reads and writes only once it is up, and timers fire until they are removed. That the timer of a
transaction fires after its end is no event of the connection, but a use of freed memory: `Tick.strayTimer`. -/
def eventEnabled (c : Conn) : IoEvent → Bool
  | .connected _ _ => c.io.any fun io => io.registered && !io.up
  | .failed _ _ => c.io.any fun io => io.registered
  | .read _ | .readFailed => c.io.any fun io => io.up
  | .write _ => c.io.any fun io => io.up
  | .timer => c.timer.isSome
  | .transTimer p => (c.heap p).isSome && c.transTimers.any fun timer => timer.1 == p

/-- The first locked piece of `LM_conntrans_event_handler`. -/
def handlerEnter (c : Conn) (event : IoEvent) : Option (Conn × Pc) :=
  let c : Conn := { c with inUse := true }
  match event with
  | .connected draws written =>
    let c : Conn := { c with io := c.io.map fun io => { io with up := true } }
    if c.disablePing then some (connCleanupPing lib c, .cleaning .disabled)
    else
      (transPingRequest lib { c with timer := some ⟨5 * 1000, true⟩ } draws written).map fun r =>
        ({ r.1 with pingtxn := some r.2, writeTrigger := some false }, .delivering)
  | .failed failure text =>
    let text := if c.status = .idleTimeout then ascii "Idle connection timeout" else text
    some (connEventHandleConnError (setError c text) failure, .delivering)
  | .read chunk => some (readFrames lib { c with inbuf := c.inbuf ++ chunk })
  | .readFailed => some (c, .delivering)
  | .write written =>
    some ({ c with outbuf := c.outbuf.drop written }, .delivering)
  | .transTimer p =>
    match c.heap p with
    | none => some (c, .delivering)
    | some t =>
      let c := { c with toTransStore := c.toTransStore.connEventAdd .transTimeout (some p) }
      some ({ c with
        heap := Function.update c.heap p (some { t with timeoutTimer := false })
        transTimers := c.transTimers.filter fun timer => timer.1 ≠ p }, .delivering)
  | .timer =>
    if c.status = .connecting then some (connCleanupPing lib c, .cleaning .timeout)
    else if c.status = .connected ∧ c.transPending = [] then
      let c := (connDisconnectConnlocked c).1
      some ({ c with status := .idleTimeout, timer := none }, .delivering)
    else some ({ c with timer := none }, .delivering)

/-- The locked piece after `LM_conn_cleanup_ping` has released the lock. -/
def handlerResume (c : Conn) : PingEnd → Conn × Pc
  | .disabled =>
    let c := connEventSetConnected lib { c with pingtxn := none }
    ({ c with writeTrigger := some false }, .delivering)
  | .reply => readFrames lib (connEventSetConnected lib { c with pingtxn := none })
  | .timeout =>
    let c := setError { c with pingtxn := none }
      (ascii "Failed to receive reply to PING request")
    ({ connEventHandleConnError c .error with timer := none }, .delivering)

/-- The loop over the deletions that were put off. -/
def drainDelayRm : List Ptr → Conn → Conn
  | [], c => c
  | p :: rest, c => drainDelayRm rest (transDeleteUnlocked lib { c with transDelayRm := rest } p)

/-- The locked piece after the callbacks: drain the deletions, and decide on a reconnection. -/
def handlerDrain (c : Conn) : Conn × Pc :=
  let c := drainDelayRm lib c.transDelayRm c
  let c := { c with inUse := false }
  (c, .reconnecting (c.status = .disconnected ∧ c.transReady ≠ []))

end LibMonetra
