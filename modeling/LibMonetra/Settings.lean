import LibMonetra.Stage

/-!
# The settings of a connection

Host, port, mode, timeouts and the other settings are the caller's. The handler, the transactions and the
attempts to connect leave them as they are; only the setters change them.
-/

namespace LibMonetra

variable {lib : Mstdlib}

/-- What a caller sets on a connection. -/
structure Settings where
  host : Bytes
  port : ℕ
  mode : Mode
  disablePing : Bool
  connTimeout : ℕ
  idleTimeout : ℕ
  iocreateCb : Bool
  deriving DecidableEq

/-- The settings of a connection. -/
def Conn.settings (c : Conn) : Settings :=
  ⟨c.host, c.port, c.mode, c.disablePing, c.connTimeout, c.idleTimeout, c.iocreateCb⟩

/-- The settings after an action: only a setter changes them. -/
def settingsAfter (lib : Mstdlib) (c : Conn) : Action → Settings
  | .connChangeServer host port => (connChangeServer c host port).1.settings
  | .connChangeMode mode => (connChangeMode c mode).1.settings
  | .connSetConnTimeout toSecs => (connSetConnTimeout c toSecs).1.settings
  | .connSetIdleTimeout toSecs => (connSetIdleTimeout lib c toSecs).settings
  | .connSetIocreateCallback present => (connSetIocreateCallback c present).1.settings
  | .connDisablePing => (connDisablePing c).settings
  | _ => c.settings

section Frame

variable (lib) (c : Conn)

/-- The end of a connection keeps the settings. -/
theorem connEventHandleConnError_settings (failure : IoFailure) :
    (connEventHandleConnError c failure).settings = c.settings := by
  obtain ⟨heap, done, timers, events, trace, heq⟩ := connEventHandleConnError_shape c failure
  rw [heq]
  rfl

/-- The deletion of a transaction keeps the settings. -/
theorem transDelete_settings (p : Ptr) : (transDelete lib c p).settings = c.settings := by
  obtain ⟨st, timer, heq, -, -, -⟩ := transDelete_spec lib c p
  rw [heq]
  rfl

/-- The clean-up of the ping keeps the settings. -/
theorem connCleanupPing_settings : (connCleanupPing lib c).settings = c.settings := by
  unfold connCleanupPing
  dsimp only
  split
  · rfl
  · exact transDelete_settings lib _ _

/-- An established connection keeps the settings. -/
theorem connEventSetConnected_settings : (connEventSetConnected lib c).settings = c.settings := by
  obtain ⟨heap, timers, new, more, timer, heq, -, -⟩ := connEventSetConnected_shape lib c
  rw [heq]
  rfl

/-- The drain keeps the settings. -/
theorem drainDelayRm_settings (delayed : List Ptr) (hdelay : c.transDelayRm = delayed) :
    (drainDelayRm lib delayed c).settings = c.settings := by
  obtain ⟨st, timer, heq, -, -, -⟩ := drainDelayRm_spec lib delayed c hdelay
  rw [heq]
  rfl

/-- `LM_conn_set_idle_timeout` changes the idle timeout and its timer. -/
theorem connSetIdleTimeout_shape (toSecs : ℕ) :
    ∃ timer, connSetIdleTimeout lib c toSecs = { c with idleTimeout := toSecs, timer := timer } := by
  unfold connSetIdleTimeout
  simp only
  split
  · exact ⟨c.timer, rfl⟩
  · split
    · exact ⟨none, rfl⟩
    · exact ⟨_, rfl⟩

/-- A destroyed connection keeps the settings. -/
theorem connDestroy_settings : (connDestroy c).settings = c.settings := by
  unfold connDestroy
  split <;> rfl

/-- A disconnect keeps the settings. -/
theorem connDisconnectConnlocked_settings : (connDisconnectConnlocked c).1.settings = c.settings := by
  unfold connDisconnectConnlocked
  split
  · rfl
  · split <;> rfl

/-- The first half of an attempt to connect keeps the settings. -/
theorem enterConnect_settings (s : Sys) (net : NetOutcome) (who : Connector) :
    (enterConnect lib s net who).1.conn.settings = s.conn.settings := by
  rcases enterConnect_cases lib s net who with ⟨tlsctx, error, heq⟩ | ⟨-, io, tlsctx, error, -, -, heq⟩ |
    ⟨-, io, tlsctx, error, -, -, heq⟩
  all_goals
    rw [heq]
    rfl

variable {c} {new : List Obs} {r : Conn × Pc}

/-- A read event keeps the settings. -/
theorem ReadEnd.settings (h : ReadEnd lib c new r) : r.1.settings = c.settings := by
  cases h with
  | ping c' p t hreads hp hwait hbrought ht hst =>
    obtain ⟨_, _, _, _, _, _, _, rfl⟩ := hreads.shape
    exact connCleanupPing_settings lib _
  | wait c' hreads =>
    obtain ⟨_, _, _, _, _, _, _, rfl⟩ := hreads.shape
    rfl
  | error c' hreads =>
    obtain ⟨_, _, _, _, _, _, _, rfl⟩ := hreads.shape
    exact connEventHandleConnError_settings _ .error

end Frame

section Step

variable {s s' : Sys} {a : Action}

/-- A handler keeps the settings. -/
theorem handlerEnter_settings {c : Conn} {e : IoEvent} {r : Conn × Pc} (h : handlerEnter lib c e = some r) :
    r.1.settings = c.settings := by
  cases e with
  | connected draws written =>
    simp only [handlerEnter] at h
    split at h
    · obtain rfl := Option.some.inj h
      exact connCleanupPing_settings lib _
    · obtain ⟨⟨c', p⟩, hnew, rfl⟩ := Option.map_eq_some_iff.mp h
      obtain ⟨draw, -, -, rfl⟩ := transPingRequest_spec hnew
      rfl
  | failed failure text =>
    obtain rfl := Option.some.inj h
    exact connEventHandleConnError_settings _ failure
  | read chunk =>
    obtain rfl := Option.some.inj h
    obtain ⟨new, hend⟩ := readFrames_end lib { c with inUse := true, inbuf := c.inbuf ++ chunk }
    exact hend.settings lib
  | readFailed =>
    obtain rfl := Option.some.inj h
    rfl
  | write written =>
    obtain rfl := Option.some.inj h
    rfl
  | timer =>
    simp only [handlerEnter] at h
    split at h
    · obtain rfl := Option.some.inj h
      exact connCleanupPing_settings lib _
    · split at h
      · obtain rfl := Option.some.inj h
        exact connDisconnectConnlocked_settings _
      · obtain rfl := Option.some.inj h
        rfl
  | transTimer p =>
    simp only [handlerEnter] at h
    split at h
    · obtain rfl := Option.some.inj h
      rfl
    · obtain rfl := Option.some.inj h
      rfl

/-- The piece of a handler after the clean-up of the ping keeps the settings. -/
theorem handlerResume_settings (lib : Mstdlib) (c : Conn) (pingEnd : PingEnd) :
    (handlerResume lib c pingEnd).1.settings = c.settings := by
  have hopen := connEventSetConnected_settings lib { c with pingtxn := none }
  cases pingEnd with
  | disabled => exact hopen
  | reply =>
    obtain ⟨new, hend⟩ := readFrames_end lib (connEventSetConnected lib { c with pingtxn := none })
    exact (hend.settings lib).trans hopen
  | timeout => exact connEventHandleConnError_settings _ .error

/-- A setter changes the settings that it sets. -/
theorem configures_settings (h : sysStep lib s a = some s') (hsets : a.configures = true) :
    s'.conn.settings = settingsAfter lib s.conn a := by
  have hfree := sysStep_live lib h
  unfold sysStep at h
  rw [if_neg (by simp [hfree])] at h
  cases a with
  | connChangeServer | connChangeMode | connSetConnTimeout | connSetIdleTimeout | connSetIocreateCallback
  | connDisablePing =>
    obtain rfl := Option.some.inj h
    rfl
  | _ => cases hsets

/-- Only a setter changes the settings. -/
theorem sysStep_settings (h : sysStep lib s a = some s') (hrunning : Running lib s) :
    s'.conn.settings = settingsAfter lib s.conn a := by
  cases sysStep_effect h with
  | transNew draws c p hnew =>
    obtain ⟨draw, -, -, rfl⟩ := transNew_spec hnew
    rfl
  | transRunNew draws params c p hnew =>
    obtain ⟨draw, -, -, rfl⟩ := transRunNew_spec hnew
    rfl
  | transSetParam p key value =>
    obtain ⟨heap, heq, -⟩ := transSetParam_spec lib s.conn p key value
    simp only [heq]
    rfl
  | transSetTimeout p timeoutS =>
    obtain ⟨heap, heq, -⟩ := transSetTimeout_spec lib s.conn p timeoutS
    simp only [heq]
    rfl
  | transSend p =>
    obtain ⟨st, outbuf, timer, trigger, heq, -, -, -⟩ :=
      transSend_spec lib s.conn p hrunning.rep hrunning.link.connected
    simp only [heq]
    rfl
  | transDelete p => exact transDelete_settings lib s.conn p
  | connConnect net => exact enterConnect_settings lib s net .caller
  | connDisconnect => exact connDisconnectConnlocked_settings s.conn
  | connDestroy => exact connDestroy_settings s.conn
  | configures a c hsets _ => exact configures_settings h hsets
  | implicitConnect net _ => exact enterConnect_settings lib { s with callers := s.callers - 1 } net .caller
  | connectFinish eventAdd who _ => cases eventAdd <;> rfl
  | event e r _ _ hr => exact handlerEnter_settings hr
  | resume pingEnd _ => exact handlerResume_settings lib s.conn pingEnd
  | deliver | callbackReturn => rfl
  | drain => exact drainDelayRm_settings lib s.conn _ rfl
  | reconnect net _ => exact enterConnect_settings lib s net .handler
  | finish _ =>
    dsimp only
    split
    · exact connDestroy_settings s.conn
    · rfl

end Step

end LibMonetra
