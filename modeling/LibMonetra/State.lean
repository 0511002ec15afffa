import LibMonetra.Dict
import Mathlib.Logic.Function.Basic

/-!
# The connection and its transactions

The data of `LM_conn_t` and `LM_trans_t`. A transaction pointer is an address handed out once,
so an address that is no longer in the heap is a dangling pointer; dereferencing one is
undefined in C and a no-operation here. The part of the connection that holds transactions is a
structure of its own, because most of the library's guarantees are about it alone.

Fields marked as records are not in the C structures: they record what the library did, so that
a property of a whole run is a property of the state it ends in.
-/

namespace LibMonetra

/-- A `LM_trans_t *`. -/
abbrev Ptr := ℕ

/-- `LM_trans_status_t`; `LM_TRANS_STATUS_ALL` only selects queues in a query. -/
inductive TransStatus
  | new
  | ready
  | pending
  | done
  deriving DecidableEq, Repr

/-- The position of a status in the life cycle. -/
def TransStatus.rank : TransStatus → ℕ
  | .new => 0
  | .ready => 1
  | .pending => 2
  | .done => 3

/-- `LM_trans_response_type_t`. -/
inductive ResponseType
  | unknown
  | kv
  | csv
  | bulk
  deriving DecidableEq, Repr

/-- `LM_conn_status_t`. -/
inductive ConnStatus
  | connecting
  | connected
  | disconnecting
  | idleTimeout
  | disconnected
  deriving DecidableEq, Repr

/-- `LM_event_type_t`. -/
inductive EventType
  | connConnected
  | connDisconnect
  | connError
  | transDone
  | transError
  | transNoconnect
  | transTimeout
  deriving DecidableEq, Repr

/-- `LM_mode_t`. -/
inductive Mode
  | tls
  | ip
  deriving DecidableEq, Repr

/-- `LM_conn_events_entry_t`; the transaction is `NULL` for a connection event. -/
structure Event where
  type : EventType
  trans : Option Ptr
  deriving DecidableEq, Repr

/-- Record: who created a transaction, a caller of the API or `LM_trans_ping_request`. -/
inductive Owner
  | user
  | ping
  deriving DecidableEq, Repr

/-- `LM_trans_t`. The last field is a record. -/
structure Trans where
  transId : ℕ
  status : TransStatus
  requestParams : Option HashDict
  responseType : ResponseType
  responseParams : Option Dict
  responseRaw : Option Bytes
  timeoutS : ℕ
  timeoutTimer : Bool
  owner : Owner
  deriving DecidableEq, Repr

/-- A transaction as `LM_trans_new_internal` leaves it. -/
def Trans.fresh (transId : ℕ) (owner : Owner) : Trans :=
  ⟨transId, .new, none, .unknown, none, none, 0, false, owner⟩

/-- `M_hash_dict_num_keys(trans->request_params)`, which is zero for `NULL`. -/
def Trans.numParams (trans : Trans) : ℕ := (trans.requestParams.map HashDict.numKeys).getD 0

/-- Record: what the library did, as far as a caller or the peer can tell. -/
inductive Obs
  /-- A transaction object was created. -/
  | created (p : Ptr) (owner : Owner)
  /-- `LM_trans_send` accepted the transaction: it is `READY` and the call returns true. -/
  | accepted (p : Ptr)
  /-- `LM_trans_structure` appended a request frame to `outbuf` under a connection status. -/
  | framed (p : Ptr) (owner : Owner) (status : ConnStatus) (frame : Bytes)
  /-- A complete frame, without its delimiters, was taken off `inbuf`. -/
  | consumed (msg : Bytes)
  /-- A response message completed a transaction that had a status. -/
  | answered (p : Ptr) (status : TransStatus) (msg : Bytes)
  /-- An event was put on the list of the running handler. -/
  | queued (event : Event)
  /-- The event callback was called. -/
  | callback (event : Event)
  /-- `LM_trans_delete` was called on a live transaction. -/
  | deleted (p : Ptr)
  /-- A transaction object was freed. -/
  | freed (p : Ptr)
  /-- The connection object and all its transactions were freed. -/
  | connFreed
  deriving DecidableEq, Repr

/-- The part of `LM_conn_t` that holds transactions. `heap`, `nextPtr` and `trace` are records;
`transTimers` are the timeout timers the event loop knows, `events` is the list that the running
handler has not delivered yet. -/
structure TransStore where
  heap : Ptr → Option Trans
  nextPtr : Ptr
  transNew : List Ptr
  transReady : List Ptr
  transPending : List Ptr
  transDone : List Ptr
  transIdMap : ℕ → Option Ptr
  transDelayRm : List Ptr
  pingtxn : Option Ptr
  transTimers : List (Ptr × ℕ)
  events : List Event
  trace : List Obs

/-- A timer of the event loop: its interval in milliseconds, and whether it runs. -/
structure Timer where
  interval : ℕ
  running : Bool
  deriving DecidableEq, Repr

/-- The I/O object: what it was created with, and how far the event loop has brought it. -/
structure Io where
  host : Bytes
  port : ℕ
  mode : Mode
  connectTimeoutMs : ℕ
  registered : Bool
  up : Bool
  closing : Bool
  deriving DecidableEq, Repr

/-- `LM_conn_t`. `tlsctx` is the negotiation timeout of the TLS context, `writeTrigger` whether
an existing trigger is signalled, and `freed` records that the object itself is gone. -/
structure Conn extends TransStore where
  status : ConnStatus
  io : Option Io
  tlsctx : Option ℕ
  inUse : Bool
  destroy : Bool
  outbuf : Bytes
  inbuf : Bytes
  timer : Option Timer
  writeTrigger : Option Bool
  error : Bytes
  host : Bytes
  port : ℕ
  mode : Mode
  disablePing : Bool
  connTimeout : ℕ
  idleTimeout : ℕ
  iocreateCb : Bool
  freed : Bool

/-- The functions of the C support library that are not under the source tree, and the width
of `size_t`. -/
structure Mstdlib where
  /-- The width of `size_t` in bits. -/
  sizeBits : ℕ
  /-- `M_parser_read_uint(parser, M_PARSER_INTEGER_ASCII, 0, 10, &n)`. -/
  parserReadUint : Bytes → Option (ℕ × Bytes)
  /-- `M_hash_dict_serialize_buf` with LF, `=`, `"`, `"` and the flag that quotes every string
  which is not purely alphanumeric or space. -/
  hashDictSerialize : HashDict → Bytes
  /-- `M_str_explode_quoted(delim, str, quote, escape, max_sections)`. -/
  strExplodeQuoted : UInt8 → Bytes → UInt8 → UInt8 → ℕ → Option (List Bytes)

/-- An empty transaction store. -/
def TransStore.empty : TransStore where
  heap := fun _ => none
  nextPtr := 0
  transNew := []
  transReady := []
  transPending := []
  transDone := []
  transIdMap := fun _ => none
  transDelayRm := []
  pingtxn := none
  transTimers := []
  events := []
  trace := []

/-- `LM_conn_init` with an accepted host and port. -/
def connInit (host : Bytes) (port : ℕ) : Conn where
  toTransStore := .empty
  status := .disconnected
  io := none
  tlsctx := none
  inUse := false
  destroy := false
  outbuf := []
  inbuf := []
  timer := none
  writeTrigger := none
  error := []
  host := host
  port := port
  mode := .tls
  disablePing := false
  connTimeout := 10
  idleTimeout := 0
  iocreateCb := false
  freed := false

namespace TransStore

/-- `LM_trans_get_conn_queue`: the queue that belongs to a status. -/
def connQueue (s : TransStore) : TransStatus → List Ptr
  | .new => s.transNew
  | .ready => s.transReady
  | .pending => s.transPending
  | .done => s.transDone

/-- `M_queue_take` on the queue of a status. -/
def queueTake (s : TransStore) (status : TransStatus) (p : Ptr) : TransStore :=
  match status with
  | .new => { s with transNew := s.transNew.erase p }
  | .ready => { s with transReady := s.transReady.erase p }
  | .pending => { s with transPending := s.transPending.erase p }
  | .done => { s with transDone := s.transDone.erase p }

/-- Store the fields of a live transaction. -/
def setTrans (s : TransStore) (p : Ptr) (t : Trans) : TransStore :=
  { s with heap := Function.update s.heap p (some t) }

/-- Append to the record of the run. -/
def log (s : TransStore) (o : Obs) : TransStore := { s with trace := s.trace ++ [o] }

/-- `LM_conn_event_add`. -/
def connEventAdd (s : TransStore) (type : EventType) (trans : Option Ptr) : TransStore :=
  { s with
    events := s.events ++ [⟨type, trans⟩]
    trace := s.trace ++ [.queued ⟨type, trans⟩] }

/-- Remove the timeout timer of a transaction, when its pointer is set. -/
def killTimeoutTimer (s : TransStore) (p : Ptr) (t : Trans) : TransStore :=
  if t.timeoutTimer then
    { s with
      heap := Function.update s.heap p (some { t with timeoutTimer := false })
      transTimers := s.transTimers.filter fun timer => timer.1 ≠ p }
  else s

end TransStore

end LibMonetra
