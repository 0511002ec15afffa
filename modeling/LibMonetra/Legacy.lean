import LibMonetra.Link

/-!
# The legacy API

The calls of `monetra_legacy.c`, for one thread. A connection of this API is driven by the event
loops that run inside its calls; a schedule lists what the handlers do in one such loop. The
callback of the library only ends the loop, so a schedule holds actions of the event loop alone,
and a loop ends when no handler runs. A call that does not return has no result.
-/

namespace LibMonetra

open Foundation

variable (lib : Mstdlib)

/-- `struct _M_CONN`, without the fields that only reach the TLS context. -/
structure MConn where
  sys : Sys
  blocking : Bool
  isMonitorPreviouslySuccessful : Bool

/-- `M_InitConn`. -/
def mInitConn : MConn := ⟨⟨connInit (ascii "localhost") 8665, .idle, 0, none⟩, false, false⟩

/-- `LM_conn_get_trans_by_internal_id`. -/
def connGetTransByInternalId (c : Conn) (id : ℕ) : Option Ptr := c.transIdMap id

/-- `LM_trans_response_param`. -/
def transResponseParam (t : Trans) (key : Bytes) : Option Bytes :=
  if key = [] then none
  else if t.status = .done ∧ t.responseType = .kv then t.responseParams.bind fun params => params.getDirect key
  else none

/-- `LM_conn_connect` on the one thread of a connection, the I/O creation callback included. -/
def connConnect (s : Sys) (net : NetOutcome) : Sys × Bool :=
  match connConnectBegin lib s.conn net with
  | (c, .failed) => ({ s with conn := c }, false)
  | (c, .inCallback) =>
    let r := connConnectFinish c net.eventAdd
    ({ s with conn := r.1, connecting := none }, r.2)
  | (c, .register) =>
    let r := connConnectFinish c net.eventAdd
    ({ s with conn := r.1 }, r.2)

/-- `LM_trans_send` on the one thread of a connection, with the implicit connection. -/
def connTransSend (s : Sys) (p : Ptr) (net : NetOutcome) : Sys × Bool :=
  let r := transSend lib s.conn p
  let s := { s with conn := r.conn }
  (if r.connect then (connConnect lib s net).1 else s, r.ok)

/-- `M_event_loop`: the handlers of a schedule, up to a point where none runs. -/
def eventLoop (s : Sys) (schedule : List Action) : Option Sys :=
  if schedule.all Action.ofLoop then
    ((monetra lib).run s schedule).filter fun s' => s'.pc = .idle
  else none

/-- Whether a connection is up or on its way up. -/
def connAlive (c : Conn) : Bool := c.status == .connected || c.status == .connecting

/-- `M_SetBlocking`. -/
def mSetBlocking (m : MConn) (tf : Bool) : MConn := { m with blocking := tf }

/-- The common body of `M_SetIP` and `M_SetSSL`. -/
def mSetServer (mode : Mode) (m : MConn) (host : Bytes) (port : ℕ) : MConn × Bool :=
  if host = [] ∨ port = 0 then (m, false)
  else
    let server := connChangeServer m.sys.conn host port
    if server.2 then
      let changed := connChangeMode server.1 mode
      ({ m with sys := { m.sys with conn := changed.1 } }, changed.2)
    else ({ m with sys := { m.sys with conn := server.1 } }, false)

/-- `M_SetIP`. -/
def mSetIP : MConn → Bytes → ℕ → MConn × Bool := mSetServer .ip

/-- `M_SetSSL`. -/
def mSetSSL : MConn → Bytes → ℕ → MConn × Bool := mSetServer .tls

/-- `M_VerifyConnection`, which can only switch the ping off. -/
def mVerifyConnection (m : MConn) (tf : Bool) : MConn :=
  if tf then m else { m with sys := { m.sys with conn := connDisablePing m.sys.conn } }

/-- `M_MaxConnTimeout`, with its conversion from `int` to `size_t`. -/
def mMaxConnTimeout (m : MConn) (maxtime : ℤ) : MConn :=
  { m with sys := { m.sys with
      conn := (connSetConnTimeout m.sys.conn (maxtime % 2 ^ lib.sizeBits).toNat).1 } }

/-- `M_Connect`. -/
def mConnect (m : MConn) (net : NetOutcome) (schedule : List Action) : Option (MConn × Bool) :=
  let r := connConnect lib m.sys net
  if r.2 then
    (eventLoop lib r.1 schedule).map fun s => ({ m with sys := s }, s.conn.status == .connected)
  else some ({ m with sys := r.1 }, false)

/-- The loop of `M_Disconnect`. -/
def disconnectLoop : List (List Action) → Sys → Option Sys
  | [], s => if s.conn.status = .disconnecting then none else some s
  | schedule :: rest, s =>
    if s.conn.status = .disconnecting then (eventLoop lib s schedule).bind (disconnectLoop rest)
    else some s

/-- `M_Disconnect`. -/
def mDisconnect (m : MConn) (schedules : List (List Action)) : Option MConn :=
  if m.sys.conn.status = .connected then
    (disconnectLoop lib schedules
      { m.sys with conn := (connDisconnectConnlocked m.sys.conn).1 }).map fun s => { m with sys := s }
  else some m

/-- `M_Monitor_ex`, when no other thread runs the event loop. -/
def mMonitorEx (m : MConn) (schedule : List Action) : Option (MConn × Bool) :=
  if m.sys.conn.transPending = [] ∧ m.sys.conn.transReady = [] ∧
      m.isMonitorPreviouslySuccessful = false then
    some (m, true)
  else if connAlive m.sys.conn then
    (eventLoop lib m.sys schedule).map fun s =>
      if connAlive s.conn then ({ m with sys := s, isMonitorPreviouslySuccessful := true }, true)
      else ({ m with sys := s }, false)
  else some (m, false)

/-- `M_TransNew`, with the identifier it returns. -/
def mTransNew (m : MConn) (draws : List RandDraw) : Option (MConn × ℕ) :=
  (transNew m.sys.conn draws).bind fun (c, p) =>
    (c.heap p).map fun t => ({ m with sys := { m.sys with conn := c } }, t.transId)

/-- `M_TransKeyVal`; `M_TransBinaryKeyVal` stores an encoded value the same way. -/
def mTransKeyVal (m : MConn) (identifier : ℕ) (key : Bytes) (value : Option Bytes) : MConn × Bool :=
  match connGetTransByInternalId m.sys.conn identifier with
  | none => (m, false)
  | some p =>
    let r := transSetParam m.sys.conn p key value
    ({ m with sys := { m.sys with conn := r.1 } }, r.2)

/-- `M_DeleteTrans`. -/
def mDeleteTrans (m : MConn) (identifier : ℕ) : MConn :=
  match connGetTransByInternalId m.sys.conn identifier with
  | none => m
  | some p => { m with sys := { m.sys with conn := transDelete lib m.sys.conn p } }

/-- What the network does during one `M_TransSend`: in the event loop that polls the connection,
in `M_Connect`, in an implicit connection, and in each turn of the wait for the response. -/
structure SendNetwork where
  poll : List Action
  connect : NetOutcome
  connecting : List Action
  implicit : NetOutcome
  waits : List (List Action)

/-- `LM_trans_status`, of a live transaction. -/
def MConn.transStatus (m : MConn) (p : Ptr) : Option TransStatus :=
  (m.sys.conn.heap p).map Trans.status

/-- The loop of `M_TransSend` in blocking mode. -/
def transSendWait (p : Ptr) : List (List Action) → MConn → Option (MConn × Bool)
  | [], m => if m.transStatus p = some .done then some (m, true) else none
  | schedule :: rest, m =>
    if m.transStatus p = some .done then some (m, true)
    else
      (mMonitorEx lib m schedule).bind fun (m, ok) =>
        if ok = false ∧ m.transStatus p ≠ some .done then some (m, false) else transSendWait p rest m

/-- `M_TransSend` from `LM_trans_send` on. -/
def transSendConnected (m : MConn) (p : Ptr) (net : SendNetwork) : Option (MConn × Bool) :=
  let r := connTransSend lib m.sys p net.implicit
  if r.2 then
    if m.blocking then transSendWait lib p net.waits { m with sys := r.1 }
    else some ({ m with sys := r.1 }, true)
  else some ({ m with sys := r.1 }, false)

/-- `M_TransSend`. -/
def mTransSend (m : MConn) (identifier : ℕ) (net : SendNetwork) : Option (MConn × Bool) :=
  match connGetTransByInternalId m.sys.conn identifier with
  | none => some (m, false)
  | some p =>
    (eventLoop lib m.sys net.poll).bind fun s =>
      if s.conn.status = .connected then transSendConnected lib { m with sys := s } p net
      else
        (mConnect lib { m with sys := s } net.connect net.connecting).bind fun (m, ok) =>
          if ok then transSendConnected lib m p net else some (m, false)

/-- What a caller of the legacy API may do, with what the network does meanwhile. -/
inductive LegacyCall
  | setBlocking (tf : Bool)
  | setIP (host : Bytes) (port : ℕ)
  | setSSL (host : Bytes) (port : ℕ)
  | verifyConnection (tf : Bool)
  | maxConnTimeout (maxtime : ℤ)
  | connect (net : NetOutcome) (schedule : List Action)
  | disconnect (schedules : List (List Action))
  | destroyConn (schedules : List (List Action))
  | monitorEx (schedule : List Action)
  | transNew (draws : List RandDraw)
  | transKeyVal (identifier : ℕ) (key : Bytes) (value : Option Bytes)
  | transSend (identifier : ℕ) (net : SendNetwork)
  | deleteTrans (identifier : ℕ)

/-- One call on a live connection; `M_DestroyConn` leaves none. -/
def legacyCall (m : MConn) : LegacyCall → Option (Option MConn)
  | .setBlocking tf => some (some (mSetBlocking m tf))
  | .setIP host port => some (some (mSetIP m host port).1)
  | .setSSL host port => some (some (mSetSSL m host port).1)
  | .verifyConnection tf => some (some (mVerifyConnection m tf))
  | .maxConnTimeout maxtime => some (some (mMaxConnTimeout lib m maxtime))
  | .connect net schedule => (mConnect lib m net schedule).map fun r => some r.1
  | .disconnect schedules => (mDisconnect lib m schedules).map some
  | .destroyConn schedules => (mDisconnect lib m schedules).map fun _ => none
  | .monitorEx schedule => (mMonitorEx lib m schedule).map fun r => some r.1
  | .transNew draws => (mTransNew m draws).map fun r => some r.1
  | .transKeyVal identifier key value => some (some (mTransKeyVal m identifier key value).1)
  | .transSend identifier net => (mTransSend lib m identifier net).map fun r => some r.1
  | .deleteTrans identifier => some (some (mDeleteTrans lib m identifier))

/-- The legacy API on one handle. Every call on a handle without a connection returns at once. -/
def legacy : System (Option MConn) LegacyCall where
  init h := h = some mInitConn
  step h call := match h with
    | none => some none
    | some m => legacyCall lib m call

/-- The result of `M_CheckStatus`. -/
inductive CheckStatus
  | unused
  | new
  | pending
  | done
  deriving DecidableEq, Repr

/-- The result of `M_ReturnStatus`. -/
inductive ReturnStatus
  | error
  | fail
  | success
  deriving DecidableEq, Repr

/-- The transaction that an identifier names on a handle. -/
def legacyTrans (h : Option MConn) (identifier : ℕ) : Option Trans :=
  h.bind fun m => (connGetTransByInternalId m.sys.conn identifier).bind fun p => m.sys.conn.heap p

/-- `M_CheckStatus`. -/
def mCheckStatus (h : Option MConn) (identifier : ℕ) : CheckStatus :=
  match legacyTrans h identifier with
  | none => .unused
  | some t =>
    match t.status with
    | .new => .new
    | .ready | .pending => .pending
    | .done => .done

/-- `M_IsCommaDelimited`, which treats every response that is not key/value as delimited. -/
def mIsCommaDelimited (h : Option MConn) (identifier : ℕ) : Bool :=
  match legacyTrans h identifier with
  | none => false
  | some t => t.responseType ≠ .kv

/-- `M_ResponseParam`. -/
def mResponseParam (h : Option MConn) (identifier : ℕ) (key : Bytes) : Option Bytes :=
  if key = [] then none
  else (legacyTrans h identifier).bind fun t => transResponseParam t key

/-- `M_ReturnStatus`. -/
def mReturnStatus (h : Option MConn) (identifier : ℕ) : ReturnStatus :=
  if mCheckStatus h identifier ≠ .done then .error
  else if mIsCommaDelimited h identifier then .success
  else
    match mResponseParam h identifier (ascii "code") with
    | none => .fail
    | some code =>
      if strCaseeq code (ascii "SUCCESS") || strCaseeq code (ascii "AUTH") then .success else .fail

end LibMonetra
