import LibMonetra.Trans

/-!
# Connections

The functions of `monetra_conn.c` that change a connection. `LM_conn_connect` releases the lock
while the I/O creation callback runs, so it is cut there into two halves. What the network and
the event subsystem answer is a parameter.
-/

namespace LibMonetra

variable (lib : Mstdlib)

/-- The answers of the I/O layer to one connection attempt: the error text of a step that
failed, and whether the event subsystem takes the I/O object. -/
structure NetOutcome where
  netCreate : Option Bytes
  tlsAdd : Option Bytes
  eventAdd : Bool
  deriving DecidableEq, Repr

/-- `M_snprintf` into `conn->error`, which holds 255 bytes and a terminator. -/
def setError (c : Conn) (text : Bytes) : Conn := { c with error := text.take 255 }

/-- The second half of `LM_conn_connect`: register the I/O object with the event loop. -/
def connConnectFinish (c : Conn) (eventAdd : Bool) : Conn × Bool :=
  if eventAdd then
    ({ c with
      io := c.io.map fun io => { io with registered := true }
      status := .connecting }, true)
  else (setError { c with io := none } (ascii "Failed to register connection with event subsystem"), false)

/-- What the first half of `LM_conn_connect` leads to. -/
inductive ConnectProgress
  | failed
  | inCallback
  | register
  deriving DecidableEq, Repr

/-- The first half of `LM_conn_connect`, up to the I/O creation callback. -/
def connConnectBegin (c : Conn) (net : NetOutcome) : Conn × ConnectProgress :=
  let c := { c with error := [] }
  if c.io.isSome then (setError c (ascii "Already connected"), .failed)
  else
    let timeoutMs := c.connTimeout * 1000 % 2 ^ lib.sizeBits
    let c := { c with tlsctx := some (c.tlsctx.getD timeoutMs) }
    match net.netCreate with
    | some text => (setError c text, .failed)
    | none =>
      let io : Io := ⟨c.host, c.port, c.mode, timeoutMs, false, false, false⟩
      match c.mode, net.tlsAdd with
      | .tls, some text => (setError c text, .failed)
      | _, _ => ({ c with io := some io }, if c.iocreateCb then .inCallback else .register)

/-- `LM_conn_disconnect_connlocked`. -/
def connDisconnectConnlocked (c : Conn) : Conn × Bool :=
  match c.io with
  | none => (c, false)
  | some io =>
    if c.status = .connected then
      ({ c with io := some { io with closing := true }, status := .disconnecting }, true)
    else (c, false)

/-- `LM_conn_destroy`. The timeout timers of the transactions are not removed. -/
def connDestroy (c : Conn) : Conn :=
  if c.inUse then { c with destroy := true }
  else
    { c with
      heap := fun _ => none
      transNew := []
      transReady := []
      transPending := []
      transDone := []
      transIdMap := fun _ => none
      transDelayRm := []
      trace := c.trace ++ [.connFreed]
      timer := none
      writeTrigger := none
      io := none
      tlsctx := none
      outbuf := []
      inbuf := []
      freed := true }

/-- The guard of the settings that must not change under a connection. -/
def settingsLocked (c : Conn) : Bool := c.status == .connecting || c.status == .connected

/-- `LM_conn_change_server`. -/
def connChangeServer (c : Conn) (host : Bytes) (port : ℕ) : Conn × Bool :=
  if host = [] ∨ port = 0 ∨ settingsLocked c then (c, false)
  else ({ c with host := host, port := port }, true)

/-- `LM_conn_change_mode`. -/
def connChangeMode (c : Conn) (mode : Mode) : Conn × Bool :=
  if settingsLocked c then (c, false) else ({ c with mode := mode }, true)

/-- `LM_conn_set_conn_timeout`. -/
def connSetConnTimeout (c : Conn) (toSecs : ℕ) : Conn × Bool :=
  if toSecs = 0 ∨ settingsLocked c then (c, false) else ({ c with connTimeout := toSecs }, true)

/-- `LM_conn_set_iocreate_callback`, of which only its presence matters here. -/
def connSetIocreateCallback (c : Conn) (present : Bool) : Conn × Bool :=
  if settingsLocked c then (c, false) else ({ c with iocreateCb := present }, true)

/-- `LM_conn_disable_ping`. -/
def connDisablePing (c : Conn) : Conn := { c with disablePing := true }

/-- `LM_conn_set_idle_timeout`. -/
def connSetIdleTimeout (c : Conn) (toSecs : ℕ) : Conn :=
  let c := { c with idleTimeout := toSecs }
  if c.status ≠ .connected then c
  else if toSecs = 0 then { c with timer := none }
  else
    let c := { c with timer := some (c.timer.getD ⟨0, false⟩) }
    timerReset lib c (c.transPending = [])

end LibMonetra
