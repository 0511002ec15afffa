import LibMonetra.ConnEvent
import LibMonetra.Foundation.Transition

/-!
# Runs of the library

One action is one piece of code that runs under the connection lock: a call of the API by any
thread or from inside a callback, or the next piece of the running handler. Since an API call may
come at every point where the lock is free, the runs of this system cover every interleaving of
callers, callbacks and the event thread. Handlers run one at a time.

A caller that releases the lock on its way into `LM_conn_connect` is counted in `callers`; while
the I/O creation callback runs, `connecting` says whose call it belongs to.
-/

namespace LibMonetra

open Foundation

/-- Who is inside the I/O creation callback of `LM_conn_connect`. -/
inductive Connector
  | caller
  | handler
  deriving DecidableEq, Repr

/-- A connection together with the threads that are inside the library. -/
structure Sys where
  conn : Conn
  pc : Pc
  callers : ℕ
  connecting : Option Connector

/-- What can happen next. -/
inductive Action
  | transNew (draws : List RandDraw)
  | transRunNew (draws : List RandDraw) (params : HashDict)
  | transSetParam (p : Ptr) (key : Bytes) (value : Option Bytes)
  | transSetTimeout (p : Ptr) (timeoutS : ℕ)
  | transSend (p : Ptr)
  | transDelete (p : Ptr)
  | connConnect (net : NetOutcome)
  | connDisconnect
  | connDestroy
  | connChangeServer (host : Bytes) (port : ℕ)
  | connChangeMode (mode : Mode)
  | connSetConnTimeout (toSecs : ℕ)
  | connSetIdleTimeout (toSecs : ℕ)
  | connSetIocreateCallback (present : Bool)
  | connDisablePing
  /-- A caller that came from `LM_trans_send_messages` enters `LM_conn_connect`. -/
  | implicitConnect (net : NetOutcome)
  /-- The I/O creation callback has returned. -/
  | connectFinish (eventAdd : Bool)
  /-- The event loop enters the handler. -/
  | event (event : IoEvent)
  /-- The handler returns from `LM_conn_cleanup_ping`. -/
  | resume
  /-- The handler calls the event callback for the next event. -/
  | deliver
  /-- The event callback returns. -/
  | callbackReturn
  /-- The handler takes the lock again after the last callback. -/
  | drain
  /-- The handler reconnects. -/
  | reconnect (net : NetOutcome)
  /-- The handler looks for a deferred destroy and returns. -/
  | finish

variable (lib : Mstdlib)

/-- `LM_conn_connect` as far as it runs under the lock, for a caller or for the handler. -/
def enterConnect (s : Sys) (net : NetOutcome) (who : Connector) : Sys × Bool :=
  match connConnectBegin lib s.conn net with
  | (c, .failed) => ({ s with conn := c }, false)
  | (c, .inCallback) => ({ s with conn := c, connecting := some who }, true)
  | (c, .register) => ({ s with conn := (connConnectFinish c net.eventAdd).1 }, false)

/-- One action, if it is enabled. Nobody takes one on a connection that has been freed; what its timers still do
is a step of `process`. -/
def sysStep (s : Sys) (action : Action) : Option Sys :=
  if s.conn.freed then none
  else
    match action with
    | .transNew draws => (transNew s.conn draws).map fun r => { s with conn := r.1 }
    | .transRunNew draws params => (transRunNew s.conn draws params).map fun r => { s with conn := r.1 }
    | .transSetParam p key value => some { s with conn := (transSetParam s.conn p key value).1 }
    | .transSetTimeout p timeoutS => some { s with conn := (transSetTimeout s.conn p timeoutS).1 }
    | .transSend p =>
      let r := transSend lib s.conn p
      some { s with conn := r.conn, callers := if r.connect then s.callers + 1 else s.callers }
    | .transDelete p => some { s with conn := transDelete lib s.conn p }
    | .connConnect net => some (enterConnect lib s net .caller).1
    | .connDisconnect => some { s with conn := (connDisconnectConnlocked s.conn).1 }
    | .connDestroy => some { s with conn := connDestroy s.conn }
    | .connChangeServer host port => some { s with conn := (connChangeServer s.conn host port).1 }
    | .connChangeMode mode => some { s with conn := (connChangeMode s.conn mode).1 }
    | .connSetConnTimeout toSecs => some { s with conn := (connSetConnTimeout s.conn toSecs).1 }
    | .connSetIdleTimeout toSecs => some { s with conn := connSetIdleTimeout lib s.conn toSecs }
    | .connSetIocreateCallback present =>
      some { s with conn := (connSetIocreateCallback s.conn present).1 }
    | .connDisablePing => some { s with conn := connDisablePing s.conn }
    | .implicitConnect net =>
      if s.callers = 0 then none
      else some (enterConnect lib { s with callers := s.callers - 1 } net .caller).1
    | .connectFinish eventAdd =>
      match s.connecting with
      | none => none
      | some who =>
        some { s with
          conn := (connConnectFinish s.conn eventAdd).1
          connecting := none
          pc := if who = .handler then .finishing else s.pc }
    | .event event =>
      if s.pc = .idle ∧ eventEnabled s.conn event then
        (handlerEnter lib s.conn event).map fun r => { s with conn := r.1, pc := r.2 }
      else none
    | .resume =>
      match s.pc with
      | .cleaning pingEnd =>
        let r := handlerResume lib s.conn pingEnd
        some { s with conn := r.1, pc := r.2 }
      | _ => none
    | .deliver =>
      match s.pc, s.conn.events with
      | .delivering, e :: rest =>
        some { s with
          conn := { s.conn with events := rest, trace := s.conn.trace ++ [.callback e] }
          pc := .callback }
      | _, _ => none
    | .callbackReturn =>
      if s.pc = .callback then
        -- a destroyed connection gets no further events
        some { s with
          conn := { s.conn with events := if s.conn.destroy then [] else s.conn.events }
          pc := .delivering }
      else none
    | .drain =>
      if s.pc = .delivering ∧ s.conn.events = [] then
        let r := handlerDrain lib s.conn
        some { s with conn := r.1, pc := r.2 }
      else none
    | .reconnect net =>
      if s.pc = .reconnecting true then
        let r := enterConnect lib s net .handler
        some { r.1 with pc := if r.2 then .awaiting else .finishing }
      else none
    | .finish =>
      if s.pc = .reconnecting false ∨ s.pc = .finishing then
        some { s with
          conn := if s.conn.destroy then connDestroy s.conn else s.conn
          pc := .idle }
      else none

/-- Only a connection that has not been freed does anything. -/
theorem sysStep_live {s s' : Sys} {a : Action} (h : sysStep lib s a = some s') :
    s.conn.freed = false := by
  by_contra hfreed
  rw [Bool.not_eq_false] at hfreed
  simp [sysStep, hfreed] at h

/-- What the setters change of a connection: its settings, and its timer if it is up. -/
def Conn.Reconfigured (c c' : Conn) : Prop :=
  ∃ host port mode connTimeout idleTimeout iocreateCb disablePing timer, c' = { c with
    host := host
    port := port
    mode := mode
    connTimeout := connTimeout
    idleTimeout := idleTimeout
    iocreateCb := iocreateCb
    disablePing := disablePing
    timer := timer } ∧ (c.status ≠ .connected → timer = c.timer)

/-- A setter may refuse. -/
theorem Conn.Reconfigured.refl (c : Conn) : c.Reconfigured c :=
  ⟨_, _, _, _, _, _, _, _, rfl, fun _ => rfl⟩

/-- `LM_conn_set_idle_timeout` starts or stops the timer of a connection that is up. -/
theorem connSetIdleTimeout_reconfigured (c : Conn) (toSecs : ℕ) :
    c.Reconfigured (connSetIdleTimeout lib c toSecs) := by
  unfold connSetIdleTimeout
  simp only
  split
  · exact ⟨_, _, _, _, _, _, _, _, rfl, fun _ => rfl⟩
  · rename_i hup
    split
    · exact ⟨_, _, _, _, _, _, _, _, rfl, fun hne => absurd hne hup⟩
    · exact ⟨_, _, _, _, _, _, _, _, rfl, fun hne => absurd hne hup⟩

/-- Whether an action is a setter of the connection. -/
def Action.configures : Action → Bool
  | .connChangeServer _ _ | .connChangeMode _ | .connSetConnTimeout _ | .connSetIdleTimeout _
  | .connSetIocreateCallback _ | .connDisablePing => true
  | _ => false

/-- A setter only reconfigures the connection. -/
theorem sysStep_configures {s s' : Sys} {a : Action} (h : sysStep lib s a = some s')
    (hsets : a.configures = true) : ∃ c, s' = { s with conn := c } ∧ s.conn.Reconfigured c := by
  have hfree := sysStep_live lib h
  unfold sysStep at h
  rw [if_neg (by simp [hfree])] at h
  cases a with
  | connChangeServer host port =>
    refine ⟨_, (Option.some.inj h).symm, ?_⟩
    unfold connChangeServer
    split
    · exact .refl _
    · exact ⟨_, _, _, _, _, _, _, _, rfl, fun _ => rfl⟩
  | connChangeMode mode =>
    refine ⟨_, (Option.some.inj h).symm, ?_⟩
    unfold connChangeMode
    split
    · exact .refl _
    · exact ⟨_, _, _, _, _, _, _, _, rfl, fun _ => rfl⟩
  | connSetConnTimeout toSecs =>
    refine ⟨_, (Option.some.inj h).symm, ?_⟩
    unfold connSetConnTimeout
    split
    · exact .refl _
    · exact ⟨_, _, _, _, _, _, _, _, rfl, fun _ => rfl⟩
  | connSetIdleTimeout toSecs =>
    exact ⟨_, (Option.some.inj h).symm, connSetIdleTimeout_reconfigured lib s.conn toSecs⟩
  | connSetIocreateCallback present =>
    refine ⟨_, (Option.some.inj h).symm, ?_⟩
    unfold connSetIocreateCallback
    split
    · exact .refl _
    · exact ⟨_, _, _, _, _, _, _, _, rfl, fun _ => rfl⟩
  | connDisablePing =>
    exact ⟨_, (Option.some.inj h).symm, _, _, _, _, _, _, _, _, rfl, fun _ => rfl⟩
  | _ => cases hsets

/-- What each action finds, and what it leaves. -/
inductive Effect (lib : Mstdlib) (s : Sys) : Action → Sys → Prop
  | transNew (draws : List RandDraw) (c : Conn) (p : Ptr) : LibMonetra.transNew s.conn draws = some (c, p) →
      Effect lib s (.transNew draws) { s with conn := c }
  | transRunNew (draws : List RandDraw) (params : HashDict) (c : Conn) (p : Ptr) :
      LibMonetra.transRunNew s.conn draws params = some (c, p) →
      Effect lib s (.transRunNew draws params) { s with conn := c }
  | transSetParam (p : Ptr) (key : Bytes) (value : Option Bytes) :
      Effect lib s (.transSetParam p key value)
        { s with conn := (LibMonetra.transSetParam s.conn p key value).1 }
  | transSetTimeout (p : Ptr) (timeoutS : ℕ) :
      Effect lib s (.transSetTimeout p timeoutS)
        { s with conn := (LibMonetra.transSetTimeout s.conn p timeoutS).1 }
  | transSend (p : Ptr) :
      Effect lib s (.transSend p) { s with
        conn := (LibMonetra.transSend lib s.conn p).conn
        callers := if (LibMonetra.transSend lib s.conn p).connect then s.callers + 1 else s.callers }
  | transDelete (p : Ptr) :
      Effect lib s (.transDelete p) { s with conn := LibMonetra.transDelete lib s.conn p }
  | connConnect (net : NetOutcome) : Effect lib s (.connConnect net) (enterConnect lib s net .caller).1
  | connDisconnect : Effect lib s .connDisconnect { s with conn := (connDisconnectConnlocked s.conn).1 }
  | connDestroy : Effect lib s .connDestroy { s with conn := LibMonetra.connDestroy s.conn }
  | configures (a : Action) (c : Conn) : a.configures = true → s.conn.Reconfigured c →
      Effect lib s a { s with conn := c }
  | implicitConnect (net : NetOutcome) : s.callers ≠ 0 →
      Effect lib s (.implicitConnect net) (enterConnect lib { s with callers := s.callers - 1 } net .caller).1
  | connectFinish (eventAdd : Bool) (who : Connector) : s.connecting = some who →
      Effect lib s (.connectFinish eventAdd) { s with
        conn := (connConnectFinish s.conn eventAdd).1
        connecting := none
        pc := if who = .handler then .finishing else s.pc }
  | event (event : IoEvent) (r : Conn × Pc) : s.pc = .idle → eventEnabled s.conn event = true →
      handlerEnter lib s.conn event = some r → Effect lib s (.event event) { s with conn := r.1, pc := r.2 }
  | resume (pingEnd : PingEnd) : s.pc = .cleaning pingEnd →
      Effect lib s .resume { s with
        conn := (handlerResume lib s.conn pingEnd).1
        pc := (handlerResume lib s.conn pingEnd).2 }
  | deliver (e : Event) (rest : List Event) : s.pc = .delivering → s.conn.events = e :: rest →
      Effect lib s .deliver { s with
        conn := { s.conn with events := rest, trace := s.conn.trace ++ [.callback e] }
        pc := .callback }
  | callbackReturn : s.pc = .callback →
      Effect lib s .callbackReturn { s with
        conn := { s.conn with events := if s.conn.destroy then [] else s.conn.events }
        pc := .delivering }
  | drain : s.pc = .delivering → s.conn.events = [] →
      Effect lib s .drain { s with conn := (handlerDrain lib s.conn).1, pc := (handlerDrain lib s.conn).2 }
  | reconnect (net : NetOutcome) : s.pc = .reconnecting true →
      Effect lib s (.reconnect net) { (enterConnect lib s net .handler).1 with
        pc := if (enterConnect lib s net .handler).2 then .awaiting else .finishing }
  | finish : s.pc = .reconnecting false ∨ s.pc = .finishing →
      Effect lib s .finish { s with
        conn := if s.conn.destroy then LibMonetra.connDestroy s.conn else s.conn
        pc := .idle }

variable {lib} in
/-- An action that is enabled is taken. -/
theorem sysStep_effect {s s' : Sys} {a : Action} (h : sysStep lib s a = some s') : Effect lib s a s' := by
  have hfree := sysStep_live lib h
  have hconfigured := sysStep_configures lib h
  unfold sysStep at h
  rw [if_neg (by simp [hfree])] at h
  cases a with
  | transNew draws =>
    obtain ⟨⟨c, p⟩, hnew, rfl⟩ := Option.map_eq_some_iff.mp h
    exact .transNew draws c p hnew
  | transRunNew draws params =>
    obtain ⟨⟨c, p⟩, hnew, rfl⟩ := Option.map_eq_some_iff.mp h
    exact .transRunNew draws params c p hnew
  | transSetParam p key value =>
    obtain rfl := Option.some.inj h
    exact .transSetParam p key value
  | transSetTimeout p timeoutS =>
    obtain rfl := Option.some.inj h
    exact .transSetTimeout p timeoutS
  | transSend p =>
    obtain rfl := Option.some.inj h
    exact .transSend p
  | transDelete p =>
    obtain rfl := Option.some.inj h
    exact .transDelete p
  | connConnect net =>
    obtain rfl := Option.some.inj h
    exact .connConnect net
  | connDisconnect =>
    obtain rfl := Option.some.inj h
    exact .connDisconnect
  | connDestroy =>
    obtain rfl := Option.some.inj h
    exact .connDestroy
  | connChangeServer | connChangeMode | connSetConnTimeout | connSetIdleTimeout | connSetIocreateCallback
  | connDisablePing =>
    obtain ⟨c, rfl, hc⟩ := hconfigured rfl
    exact .configures _ c rfl hc
  | implicitConnect net =>
    simp only at h
    split at h
    · cases h
    · rename_i hcallers
      obtain rfl := Option.some.inj h
      exact .implicitConnect net hcallers
  | connectFinish eventAdd =>
    simp only at h
    split at h
    · cases h
    · rename_i who hwho
      obtain rfl := Option.some.inj h
      exact .connectFinish eventAdd who hwho
  | event event =>
    simp only at h
    split at h
    · rename_i hidle
      obtain ⟨r, hr, rfl⟩ := Option.map_eq_some_iff.mp h
      exact .event event r hidle.1 hidle.2 hr
    · cases h
  | resume =>
    simp only at h
    split at h
    · rename_i pingEnd hpc
      obtain rfl := Option.some.inj h
      exact .resume pingEnd hpc
    · cases h
  | deliver =>
    simp only at h
    split at h
    · rename_i e rest hpc hevents
      obtain rfl := Option.some.inj h
      exact .deliver e rest hpc hevents
    · cases h
  | callbackReturn =>
    simp only at h
    split at h
    · rename_i hpc
      obtain rfl := Option.some.inj h
      exact .callbackReturn hpc
    · cases h
  | drain =>
    simp only at h
    split at h
    · rename_i hpc
      obtain rfl := Option.some.inj h
      exact .drain hpc.1 hpc.2
    · cases h
  | reconnect net =>
    simp only at h
    split at h
    · rename_i hpc
      obtain rfl := Option.some.inj h
      exact .reconnect net hpc
    · cases h
  | finish =>
    simp only at h
    split at h
    · rename_i hpc
      obtain rfl := Option.some.inj h
      exact .finish hpc
    · cases h

/-- The library started on an accepted host and port. -/
def monetra : System Sys Action where
  init s := ∃ host port, host ≠ [] ∧ port ≠ 0 ∧ s = ⟨connInit host port, .idle, 0, none⟩
  step := sysStep lib

end LibMonetra
