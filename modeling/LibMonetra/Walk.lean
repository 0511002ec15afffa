import LibMonetra.System

/-!
# The course of a handler

Where each action takes the running handler. It enters on an event, leaves the lock while a ping is
cleaned up and around every callback, drains the deferred deletions, and reconnects if a request waits
on a connection that is down.
-/

namespace LibMonetra

variable {lib : Mstdlib}

/-- Whether an action belongs to a call of the API that does not register an I/O object. -/
def Action.calls : Action → Bool
  | .event _ | .resume | .deliver | .callbackReturn | .drain | .reconnect _ | .finish
  | .connectFinish _ => false
  | _ => true

/-- Where an action takes the handler. -/
inductive Walk (lib : Mstdlib) (s s' : Sys) : Action → Prop
  | stays (a : Action) : a.calls = true → s'.pc = s.pc → Walk lib s s' a
  | connected (who : Connector) (eventAdd : Bool) : s.connecting = some who →
      s'.pc = (if who = .handler then .finishing else s.pc) → Walk lib s s' (.connectFinish eventAdd)
  | enters (event : IoEvent) (r : Conn × Pc) : s.pc = .idle → eventEnabled s.conn event = true →
      handlerEnter lib s.conn event = some r → s' = { s with conn := r.1, pc := r.2 } →
      (s'.pc = .delivering ∨ ∃ pingEnd, s'.pc = .cleaning pingEnd) → Walk lib s s' (.event event)
  | resumes (pingEnd : PingEnd) : s.pc = .cleaning pingEnd →
      s' = { s with
        conn := (handlerResume lib s.conn pingEnd).1
        pc := (handlerResume lib s.conn pingEnd).2 } →
      (s'.pc = .delivering ∨ ∃ pingEnd, s'.pc = .cleaning pingEnd) → Walk lib s s' .resume
  | delivers (e : Event) (rest : List Event) : s.pc = .delivering → s.conn.events = e :: rest →
      s' = { s with
        conn := { s.conn with events := rest, trace := s.conn.trace ++ [.callback e] }
        pc := .callback } → Walk lib s s' .deliver
  | returns : s.pc = .callback →
      s' = { s with
        conn := { s.conn with events := if s.conn.destroy then [] else s.conn.events }
        pc := .delivering } → Walk lib s s' .callbackReturn
  | drains : s.pc = .delivering → s.conn.events = [] →
      s' = { s with conn := (handlerDrain lib s.conn).1, pc := (handlerDrain lib s.conn).2 } →
      Walk lib s s' .drain
  | reconnects (net : NetOutcome) : s.pc = .reconnecting true →
      s'.pc = .awaiting ∨ s'.pc = .finishing → Walk lib s s' (.reconnect net)
  | finishes : s.pc = .reconnecting false ∨ s.pc = .finishing →
      s' = { s with
        conn := if s.conn.destroy then connDestroy s.conn else s.conn
        pc := .idle } → Walk lib s s' .finish

/-- The read event goes on to deliver, or stops at the ping. -/
theorem readFrames_pc (lib : Mstdlib) (c : Conn) :
    (readFrames lib c).2 = .delivering ∨ ∃ pingEnd, (readFrames lib c).2 = .cleaning pingEnd := by
  unfold readFrames
  split
  · exact Or.inr ⟨_, rfl⟩
  · dsimp only
    split <;> exact Or.inl rfl

/-- A handler that has entered delivers its events, or cleans up the ping. -/
theorem handlerEnter_pc {c : Conn} {event : IoEvent} {r : Conn × Pc}
    (h : handlerEnter lib c event = some r) : r.2 = .delivering ∨ ∃ pingEnd, r.2 = .cleaning pingEnd := by
  cases event with
  | connected draws written =>
    simp only [handlerEnter] at h
    split at h
    · obtain rfl := Option.some.inj h
      exact Or.inr ⟨_, rfl⟩
    · obtain ⟨_, -, rfl⟩ := Option.map_eq_some_iff.mp h
      exact Or.inl rfl
  | read chunk =>
    obtain rfl := Option.some.inj h
    exact readFrames_pc lib _
  | transTimer p =>
    simp only [handlerEnter] at h
    split at h <;> (obtain rfl := Option.some.inj h; exact Or.inl rfl)
  | timer =>
    simp only [handlerEnter] at h
    split at h
    · obtain rfl := Option.some.inj h
      exact Or.inr ⟨_, rfl⟩
    · split at h <;> (obtain rfl := Option.some.inj h; exact Or.inl rfl)
  | failed failure text =>
    obtain rfl := Option.some.inj h
    exact Or.inl rfl
  | readFailed =>
    obtain rfl := Option.some.inj h
    exact Or.inl rfl
  | write written =>
    obtain rfl := Option.some.inj h
    exact Or.inl rfl

/-- A handler that resumes does so too. -/
theorem handlerResume_pc (lib : Mstdlib) (c : Conn) (pingEnd : PingEnd) :
    (handlerResume lib c pingEnd).2 = .delivering ∨
      ∃ pingEnd', (handlerResume lib c pingEnd).2 = .cleaning pingEnd' := by
  cases pingEnd with
  | disabled => exact Or.inl rfl
  | reply => exact readFrames_pc lib _
  | timeout => exact Or.inl rfl

/-- `LM_conn_connect` leaves the handler where it is. -/
@[simp] theorem enterConnect_pc (lib : Mstdlib) (s : Sys) (net : NetOutcome) (who : Connector) :
    (enterConnect lib s net who).1.pc = s.pc := by
  unfold enterConnect
  split <;> rfl

/-- A setter is a call. -/
theorem Action.calls_of_configures {a : Action} (h : a.configures = true) : a.calls = true := by
  cases a <;> first | rfl | cases h

/-- Every action takes the handler one of these ways. -/
theorem sysStep_walk {s s' : Sys} {a : Action} (h : sysStep lib s a = some s') : Walk lib s s' a := by
  cases sysStep_effect h with
  | connConnect net => exact .stays _ rfl (enterConnect_pc lib s net .caller)
  | implicitConnect net _ => exact .stays _ rfl (enterConnect_pc lib _ net .caller)
  | connectFinish eventAdd who hwho => exact .connected who eventAdd hwho rfl
  | event event r hpc henabled hr => exact .enters event r hpc henabled hr rfl (handlerEnter_pc hr)
  | resume pingEnd hpc => exact .resumes pingEnd hpc rfl (handlerResume_pc lib s.conn pingEnd)
  | deliver e rest hpc hevents => exact .delivers e rest hpc hevents rfl
  | callbackReturn hpc => exact .returns hpc rfl
  | drain hpc hevents => exact .drains hpc hevents rfl
  | reconnect net hpc =>
    refine .reconnects net hpc ?_
    dsimp only
    split
    · exact Or.inl rfl
    · exact Or.inr rfl
  | finish hpc => exact .finishes hpc rfl
  | configures a c hsets _ => exact .stays _ (Action.calls_of_configures hsets) rfl
  | transNew | transRunNew | transSetParam | transSetTimeout | transSend | transDelete | connDisconnect
  | connDestroy => exact .stays _ rfl rfl

end LibMonetra
