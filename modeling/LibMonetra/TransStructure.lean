import LibMonetra.State

/-!
# Putting requests on the wire

The functions of `monetra_trans_structure.c`. `LM_trans_send_messages` moves every `READY`
transaction to `PENDING`, first in first out, while the connection is up; when the connection is
down it asks its caller to release the lock and enter `LM_conn_connect`.
-/

namespace LibMonetra

variable (lib : Mstdlib)

/-- The data of a request: a dictionary that only asks for a ping has a message of its own. -/
def requestPayload (params : HashDict) : Bytes :=
  if params.numKeys = 1 ∧ ∃ action, params.getDirect (ascii "action") = some action ∧
      strCaseeq action (ascii "ping") = true then
    ascii "PING"
  else lib.hashDictSerialize params

/-- The bytes between `STX` and `ETX` of a request. -/
def requestBody (transId : ℕ) (params : HashDict) : Bytes :=
  decimal transId ++ fs :: requestPayload lib params

/-- A whole request frame. -/
def requestFrame (transId : ℕ) (params : HashDict) : Bytes :=
  stx :: requestBody lib transId params ++ [etx]

/-- The request frame of a transaction; it has no parameters while its dictionary is `NULL`. -/
def Trans.request (t : Trans) : Bytes := requestFrame lib t.transId (t.requestParams.getD .create)

/-- The parameters of a ping. -/
def pingParams : HashDict := HashDict.create.insert (ascii "action") (some (ascii "ping"))

/-- `LM_trans_structure`: append the request to `outbuf` and destroy its parameters. -/
def transStructure (c : Conn) (p : Ptr) : Conn :=
  match c.heap p with
  | none => c
  | some t =>
    { c with
      outbuf := c.outbuf ++ t.request lib
      heap := Function.update c.heap p (some { t with requestParams := none })
      trace := c.trace ++ [.framed p t.owner c.status (t.request lib)] }

/-- `M_event_timer_oneshot` for the timeout of a transaction. -/
def armTimeoutTimer (c : Conn) (p : Ptr) : Conn :=
  match c.heap p with
  | none => c
  | some t =>
    if t.timeoutS ≠ 0 then
      { c with
        heap := Function.update c.heap p (some { t with timeoutTimer := true })
        transTimers := c.transTimers ++ [(p, t.timeoutS * 1000 % 2 ^ 64)] }
    else c

/-- The status assignment at the head of the loop body. -/
def markPending (c : Conn) (p : Ptr) : Conn :=
  match c.heap p with
  | none => c
  | some t => { c with heap := Function.update c.heap p (some { t with status := .pending }) }

/-- The loop of `LM_trans_send_messages`, over the transactions that were `READY`. -/
def sendMessagesLoop : List Ptr → Conn → Conn
  | [], c => c
  | p :: rest, c =>
    let c := markPending { c with transReady := rest } p
    let c := armTimeoutTimer (transStructure lib c p) p
    sendMessagesLoop rest { c with transPending := c.transPending ++ [p] }

/-- `M_event_timer_stop` of the connection's timer, if there is one and the condition holds. -/
def timerStop (c : Conn) (condition : Prop) [Decidable condition] : Conn :=
  { c with timer :=
      if condition then c.timer.map fun timer => { timer with running := false } else c.timer }

/-- `M_event_timer_reset` of the connection's timer, if there is one and the condition holds. -/
def timerReset (c : Conn) (condition : Prop) [Decidable condition] : Conn :=
  { c with timer :=
      if condition then c.timer.map fun _ => ⟨c.idleTimeout * 1000 % 2 ^ lib.sizeBits, true⟩
      else c.timer }

/-- `M_event_trigger_signal` of the write trigger, if there is one and the condition holds. -/
def triggerSignal (c : Conn) (condition : Prop) [Decidable condition] : Conn :=
  { c with writeTrigger :=
      if condition then c.writeTrigger.map fun _ => true else c.writeTrigger }

/-- `LM_trans_send_messages`. The second result tells the caller to release the lock and enter
`LM_conn_connect`. -/
def transSendMessages (c : Conn) : Conn × Bool :=
  if c.status = .disconnected then (c, true)
  else if c.status ≠ .connected then (c, false)
  else
    let sent := sendMessagesLoop lib c.transReady c
    let stopped := timerStop sent (sent.transPending ≠ [])
    -- only the change from empty to non-empty asks for a write event
    (triggerSignal stopped (c.outbuf = [] ∧ sent.outbuf ≠ []), false)

end LibMonetra
