import LibMonetra.Turn

/-!
# One action and the connection

What each action does to the I/O object, the status and the buffers of a connection. Most actions
leave them alone; the others are the attempts to connect, the sends, and the locked pieces of the
event handler, and each of them has a case of its own.
-/

namespace LibMonetra

variable {lib : Mstdlib}

/-- Whether a record is made without the network: a transaction is created or ends, an event is
delivered, or a timeout is reported. -/
def Obs.isLocal : Obs → Bool
  | .created _ .user | .deleted _ | .freed _ | .callback _ | .queued ⟨.transTimeout, _⟩ => true
  | _ => false

/-- Whether an action enters `LM_conn_connect`. -/
def Action.connects : Action → Bool
  | .connConnect _ | .implicitConnect _ | .reconnect _ => true
  | _ => false

/-- A setter does not. -/
theorem Action.connects_of_configures {a : Action} (h : a.configures = true) : a.connects = false := by
  cases a <;> first | rfl | cases h

/-- Whether an action is the timeout of a transaction. -/
def Action.timesOut : Action → Bool
  | .event (.transTimer _) => true
  | _ => false

/-- An action that leaves the I/O object, the status, the buffers and the ping alone. It may take
transactions off their queues, but puts none on them. -/
structure Aside (s s' : Sys) (new : List Obs) : Prop where
  status : s'.conn.status = s.conn.status
  io : s'.conn.io = s.conn.io
  outbuf : s'.conn.outbuf = s.conn.outbuf
  inbuf : s'.conn.inbuf = s.conn.inbuf
  trigger : s'.conn.writeTrigger = s.conn.writeTrigger
  pingtxn : s'.conn.pingtxn = s.conn.pingtxn
  freed : s'.conn.freed = s.conn.freed
  connecting : s'.connecting = s.connecting
  callers : s'.callers = s.callers
  trace : s'.conn.trace = s.conn.trace ++ new
  records : ∀ o ∈ new, o.isLocal = true
  pending : s'.conn.transPending.Sublist s.conn.transPending
  ready : s'.conn.transReady.Sublist s.conn.transReady
  timer : s.conn.status ≠ .connected → s.conn.timer = none → s'.conn.timer = none
  destroy : s.conn.destroy = true → s'.conn.destroy = true
  cleaning : ∀ pingEnd, s'.pc = .cleaning pingEnd ↔ s.pc = .cleaning pingEnd

/-- An attempt to connect goes on with a clean-up if and only if one was going on. -/
theorem Pc.cleaning_iff_of_attempt {pc pc' next : Pc} {pingEnd : PingEnd}
    (hpc : pc' = pc ∨ (pc = .reconnecting true ∧ pc' = next)) (hnext : next ≠ .cleaning pingEnd) :
    pc' = .cleaning pingEnd ↔ pc = .cleaning pingEnd := by
  rcases hpc with rfl | ⟨rfl, rfl⟩
  · exact Iff.rfl
  · exact iff_of_false hnext Pc.noConfusion

/-- The end of an attempt whose creation callback has returned does so only then. -/
theorem Pc.cleaning_of_finish {who : Connector} {pc : Pc} {pingEnd : PingEnd}
    (hc : (if who = .handler then .finishing else pc) = .cleaning pingEnd) : pc = .cleaning pingEnd := by
  split at hc
  · cases hc
  · exact hc

/-- What one action does to the connection. -/
inductive Move (lib : Mstdlib) (s s' : Sys) : Action → Prop
  | aside (a : Action) (new : List Obs) :
      (∀ e, (.queued e ∈ new → a.timesOut = true) ∧ (.callback e ∈ new → a = .deliver)) →
      Aside s s' new → Move lib s s' a
  /-- A transaction is accepted while the connection is not up. -/
  | accepted (p : Ptr) (t : Trans) : s.conn.status ≠ .connected → s.conn.heap p = some t →
      t.status = .new →
      s' = { s with
        conn := { s.conn with
          toTransStore := (s.conn.toTransStore.move p t { t with status := .ready }).log (.accepted p) }
        callers := if s.conn.status = .disconnected then s.callers + 1 else s.callers } →
      Move lib s s' (.transSend p)
  /-- A transaction is accepted and goes out at once. -/
  | sent (p : Ptr) (t : Trans) : s.conn.status = .connected → s.conn.heap p = some t →
      t.status = .new →
      s' = { s with conn := (transSendMessages lib { s.conn with
        toTransStore :=
          (s.conn.toTransStore.move p t { t with status := .ready }).log (.accepted p) }).1 } →
      Move lib s s' (.transSend p)
  /-- An attempt to connect fails at once, or finds an I/O object. -/
  | refused (a : Action) (tlsctx : Option ℕ) (error : Bytes) (callers : ℕ) (pc : Pc) :
      a.connects = true → (pc = s.pc ∨ (s.pc = .reconnecting true ∧ pc = .finishing)) →
      s' = { s with
        conn := { s.conn with tlsctx := tlsctx, error := error }
        callers := callers
        pc := pc } → Move lib s s' a
  /-- An attempt to connect has created its I/O object and calls the creation callback. -/
  | opened (a : Action) (who : Connector) (io : Io) (tlsctx : Option ℕ) (error : Bytes) (callers : ℕ)
      (pc : Pc) : a.connects = true → s.conn.io = none → io.registered = false → io.up = false →
      (pc = s.pc ∨ (s.pc = .reconnecting true ∧ pc = .awaiting)) →
      s' = { s with
        conn := { s.conn with io := some io, tlsctx := tlsctx, error := error }
        connecting := some who
        callers := callers
        pc := pc } → Move lib s s' a
  /-- An attempt to connect has registered its I/O object. -/
  | dialed (a : Action) (io : Io) (tlsctx : Option ℕ) (error : Bytes) (callers : ℕ) (pc : Pc) :
      a.connects = true → s.conn.io = none → io.registered = true → io.up = false →
      (pc = s.pc ∨ (s.pc = .reconnecting true ∧ pc = .finishing)) →
      s' = { s with
        conn := { s.conn with io := some io, status := .connecting, tlsctx := tlsctx, error := error }
        callers := callers
        pc := pc } → Move lib s s' a
  /-- The I/O object is registered after its creation callback. -/
  | registered (who : Connector) : s.connecting = some who →
      s' = { s with
        conn := { s.conn with
          io := s.conn.io.map fun io => { io with registered := true }
          status := .connecting }
        connecting := none
        pc := if who = .handler then .finishing else s.pc } → Move lib s s' (.connectFinish true)
  /-- The I/O object cannot be registered after its creation callback. -/
  | dropped (who : Connector) (error : Bytes) : s.connecting = some who →
      s' = { s with
        conn := { s.conn with io := none, error := error }
        connecting := none
        pc := if who = .handler then .finishing else s.pc } → Move lib s s' (.connectFinish false)
  /-- The caller asks for a disconnect. -/
  | disconnecting (io : Io) : s.conn.status = .connected → s.conn.io = some io →
      s' = { s with conn := { s.conn with
        io := some { io with closing := true }
        status := .disconnecting } } → Move lib s s' .connDisconnect
  /-- The connection has been idle for too long. -/
  | idled : s.pc = .idle → s.conn.status = .connected → s.conn.transPending = [] →
      s' = { s with
        conn := { s.conn with
          inUse := true
          io := s.conn.io.map fun io => { io with closing := true }
          status := .idleTimeout
          timer := none }
        pc := .delivering } → Move lib s s' (.event .timer)
  /-- The connection is up and is pinged. -/
  | pinged (draws : List RandDraw) (written : ℕ) (draw : RandDraw) : s.pc = .idle →
      s.conn.io.any (fun io => io.registered && !io.up) = true → s.conn.disablePing = false →
      unusedDraw s.conn draws = some draw →
      s' = { s with
        conn := { s.conn with
          toTransStore := { ((s.conn.toTransStore.create
            { Trans.fresh draw.val .ping with status := .pending }).log
              (.created s.conn.nextPtr .ping)).log (.framed s.conn.nextPtr .ping s.conn.status
                (requestFrame lib draw.val pingParams)) with pingtxn := some s.conn.nextPtr }
          inUse := true
          io := s.conn.io.map fun io => { io with up := true }
          timer := some ⟨5 * 1000, true⟩
          outbuf := (s.conn.outbuf ++ requestFrame lib draw.val pingParams).drop written
          writeTrigger := some false }
        pc := .delivering } → Move lib s s' (.event (.connected draws written))
  /-- The connection is up and needs no ping. -/
  | unpinged (draws : List RandDraw) (written : ℕ) : s.pc = .idle →
      s.conn.io.any (fun io => io.registered && !io.up) = true → s.conn.disablePing = true →
      s' = { s with
        conn := connCleanupPing lib { s.conn with
          inUse := true
          io := s.conn.io.map fun io => { io with up := true } }
        pc := .cleaning .disabled } → Move lib s s' (.event (.connected draws written))
  /-- The I/O layer reports the end of the connection. -/
  | failed (failure : IoFailure) (text error : Bytes) : s.pc = .idle →
      s.conn.io.any Io.registered = true →
      s' = { s with
        conn := connEventHandleConnError { s.conn with inUse := true, error := error } failure
        pc := .delivering } → Move lib s s' (.event (.failed failure text))
  /-- Bytes arrive. -/
  | read (chunk : Bytes) (new : List Obs) (r : Conn × Pc) : s.pc = .idle →
      s.conn.io.any Io.up = true →
      ReadEnd lib { s.conn with inUse := true, inbuf := s.conn.inbuf ++ chunk } new r →
      s' = { s with conn := r.1, pc := r.2 } → Move lib s s' (.event (.read chunk))
  /-- Bytes are written. -/
  | wrote (written : ℕ) : s.pc = .idle → s.conn.io.any Io.up = true →
      s' = { s with
        conn := { s.conn with inUse := true, outbuf := s.conn.outbuf.drop written }
        pc := .delivering } → Move lib s s' (.event (.write written))
  /-- The ping has not been answered in time. -/
  | expired : s.pc = .idle → s.conn.timer ≠ none → s.conn.status = .connecting →
      s' = { s with
        conn := connCleanupPing lib { s.conn with inUse := true }
        pc := .cleaning .timeout } → Move lib s s' (.event .timer)
  /-- The connection needs no ping, and is established. -/
  | unguarded : s.pc = .cleaning .disabled →
      s' = { s with
        conn := { connEventSetConnected lib { s.conn with pingtxn := none } with writeTrigger := some false }
        pc := .delivering } → Move lib s s' .resume
  /-- The ping has been answered, and the connection is established. -/
  | proved (new : List Obs) (r : Conn × Pc) : s.pc = .cleaning .reply →
      ReadEnd lib (connEventSetConnected lib { s.conn with pingtxn := none }) new r →
      s' = { s with conn := r.1, pc := r.2 } → Move lib s s' .resume
  /-- The connection is given up without an answer to its ping. -/
  | unproved (error : Bytes) : s.pc = .cleaning .timeout →
      s' = { s with
        conn := { connEventHandleConnError { s.conn with pingtxn := none, error := error } .error with
          timer := none }
        pc := .delivering } → Move lib s s' .resume
  /-- The connection is freed. -/
  | destroyed (a : Action) (pc : Pc) : a.destroys s.conn = true → s.conn.inUse = false →
      (pc = s.pc ∨ pc = .idle) → s' = { s with conn := connDestroy s.conn, pc := pc } → Move lib s s' a

section Queues

variable {s : TransStore} {p : Ptr} {t : Trans}

/-- The end of a transaction takes it off its queue. -/
theorem connQueue_free_sublist (status : TransStatus) :
    ((s.free p t).connQueue status).Sublist (s.connQueue status) := by
  rw [TransStore.connQueue_free]
  split
  · exact List.erase_sublist
  · exact .refl _

/-- `LM_trans_delete` takes the transaction off its queue, or leaves it there until the drain. -/
theorem connQueue_transDelete_sublist (lib : Mstdlib) (c : Conn) (p : Ptr) (status : TransStatus) :
    ((transDelete lib c p).connQueue status).Sublist (c.connQueue status) := by
  cases ht : c.heap p with
  | none =>
    rw [show transDelete lib c p = c by simp [transDelete, ht]]
  | some t =>
    by_cases hbusy : c.inUse = true
    · rw [transDelete_inUse ht hbusy, TransStore.connQueue_defer]
    · rw [transDelete_idle ht (by simpa using hbusy)]
      refine (connQueue_free_sublist status).trans ?_
      rw [TransStore.connQueue_log, TransStore.connQueue_killTimeoutTimer]

/-- `LM_trans_delete_unlocked` starts no timer. -/
theorem transDeleteUnlocked_timer (lib : Mstdlib) {c : Conn} (p : Ptr) (h : c.timer = none) :
    (transDeleteUnlocked lib c p).timer = none := by
  unfold transDeleteUnlocked
  split
  · exact h
  · simp [timerReset, h]

/-- What `LM_trans_delete` records, and that it leaves the ping alone and starts no timer. -/
theorem transDelete_records (lib : Mstdlib) (c : Conn) (p : Ptr) :
    ∃ new, (transDelete lib c p).trace = c.trace ++ new ∧ (∀ o ∈ new, o.isLocal = true) ∧
      (∀ e, .queued e ∉ new ∧ .callback e ∉ new) ∧ (transDelete lib c p).pingtxn = c.pingtxn ∧
      (c.timer = none → (transDelete lib c p).timer = none) := by
  cases ht : c.heap p with
  | none =>
    rw [show transDelete lib c p = c by simp [transDelete, ht]]
    exact ⟨[], (List.append_nil _).symm, by simp, by simp, rfl, id⟩
  | some t =>
    by_cases hbusy : c.inUse = true
    · rw [transDelete_inUse ht hbusy]
      exact ⟨[.deleted p], by simp [TransStore.defer, TransStore.log], by simp [Obs.isLocal], by simp,
        by simp [TransStore.defer, TransStore.log], id⟩
    · have hstore := @transDelete_idle lib c p t ht (by simpa using hbusy)
      refine ⟨[.deleted p, .freed p], ?_, by simp [Obs.isLocal], by simp, ?_, fun hnone => ?_⟩
      · rw [hstore]
        simp [TransStore.log]
      · rw [hstore]
        simp [TransStore.log]
      · rw [transDelete, ht]
        dsimp only
        rw [if_neg hbusy]
        exact transDeleteUnlocked_timer lib p hnone

/-- The drain takes the transactions on its list off their queues, and records their ends. -/
theorem drainDelayRm_queues (lib : Mstdlib) (delayed : List Ptr) (c : Conn) :
    (∀ status, ((drainDelayRm lib delayed c).connQueue status).Sublist (c.connQueue status)) ∧
      ∃ new, (drainDelayRm lib delayed c).trace = c.trace ++ new ∧ (∀ o ∈ new, o.isLocal = true) ∧
        ∀ e, .queued e ∉ new ∧ .callback e ∉ new := by
  induction delayed generalizing c with
  | nil => exact ⟨fun _ => .refl _, [], by simp [drainDelayRm], by simp, by simp⟩
  | cons p rest ih =>
    rw [drainDelayRm]
    cases ht : c.heap p with
    | none =>
      rw [show transDeleteUnlocked lib { c with transDelayRm := rest } p = { c with transDelayRm := rest } by
        simp [transDeleteUnlocked, ht]]
      obtain ⟨hqueues, hrecord⟩ := ih { c with transDelayRm := rest }
      exact ⟨fun status => (hqueues status).trans (by cases status <;> exact .refl _), hrecord⟩
    | some t =>
      obtain ⟨timer, heq⟩ := @transDeleteUnlocked_eq lib { c with transDelayRm := rest } p t ht
      rw [heq]
      obtain ⟨hqueues, new, htrace, hnew, hnone⟩ := ih { c with
        toTransStore := ({ c.toTransStore with transDelayRm := rest } : TransStore).free p t
        timer := timer }
      refine ⟨fun status => (hqueues status).trans ((connQueue_free_sublist status).trans ?_),
        .freed p :: new, ?_, ?_, ?_⟩
      · cases status <;> exact .refl _
      · rw [htrace]
        simp
      · simpa [Obs.isLocal] using hnew
      · simpa using hnone

/-- The drain starts no timer. -/
theorem drainDelayRm_timer (lib : Mstdlib) (delayed : List Ptr) (c : Conn) (h : c.timer = none) :
    (drainDelayRm lib delayed c).timer = none := by
  induction delayed generalizing c with
  | nil => exact h
  | cons p rest ih =>
    exact ih _ (@transDeleteUnlocked_timer lib { c with transDelayRm := rest } p h)

end Queues

/-- The first half of `LM_conn_connect` fails, or makes an I/O object where there was none. -/
theorem connConnectBegin_cases (lib : Mstdlib) (c : Conn) (net : NetOutcome) :
    (∃ tlsctx error, connConnectBegin lib c net =
      ({ c with tlsctx := tlsctx, error := error }, .failed)) ∨
    (c.io = none ∧ ∃ io tlsctx, io.registered = false ∧ io.up = false ∧ connConnectBegin lib c net =
      ({ c with io := some io, tlsctx := tlsctx, error := [] },
        if c.iocreateCb then .inCallback else .register)) := by
  unfold connConnectBegin
  simp only
  split
  · exact Or.inl ⟨c.tlsctx, _, rfl⟩
  · rename_i hsome
    have hnone : c.io = none := by simpa using hsome
    split
    · exact Or.inl ⟨_, _, rfl⟩
    · split
      · exact Or.inl ⟨_, _, rfl⟩
      · exact Or.inr ⟨hnone, _, _, rfl, rfl, rfl⟩

/-- The three outcomes of `LM_conn_connect` up to its creation callback, or to its end. -/
theorem enterConnect_cases (lib : Mstdlib) (s : Sys) (net : NetOutcome) (who : Connector) :
    (∃ tlsctx error, enterConnect lib s net who =
      ({ s with conn := { s.conn with tlsctx := tlsctx, error := error } }, false)) ∨
    (s.conn.io = none ∧ ∃ io tlsctx error, io.registered = false ∧ io.up = false ∧
      enterConnect lib s net who =
        ({ s with
          conn := { s.conn with io := some io, tlsctx := tlsctx, error := error }
          connecting := some who }, true)) ∨
    (s.conn.io = none ∧ ∃ io tlsctx error, io.registered = true ∧ io.up = false ∧
      enterConnect lib s net who =
        ({ s with conn := { s.conn with
          io := some io
          status := .connecting
          tlsctx := tlsctx
          error := error } }, false)) := by
  unfold enterConnect
  rcases connConnectBegin_cases lib s.conn net with ⟨tlsctx, error, heq⟩ |
    ⟨hnone, io, tlsctx, hunregistered, hdown, heq⟩
  · rw [heq]
    exact Or.inl ⟨tlsctx, error, rfl⟩
  · rw [heq]
    by_cases hcallback : s.conn.iocreateCb = true
    · rw [if_pos hcallback]
      exact Or.inr (Or.inl ⟨hnone, io, tlsctx, [], hunregistered, hdown, rfl⟩)
    · rw [if_neg hcallback]
      by_cases hadd : net.eventAdd = true
      · refine Or.inr (Or.inr ⟨hnone, { io with registered := true }, tlsctx, [], rfl, hdown, ?_⟩)
        simp only [connConnectFinish, if_pos hadd, Option.map_some]
      · refine Or.inl ⟨tlsctx, (ascii "Failed to register connection with event subsystem").take 255, ?_⟩
        simp only [connConnectFinish, if_neg hadd, setError, hnone]

section Asides

variable {s : Sys}

/-- A change of the transactions, of the timer and of where the handler stands. -/
theorem Aside.store {new : List Obs} (st : TransStore) (timer : Option Timer) (inUse : Bool) (pc : Pc)
    (hping : st.pingtxn = s.conn.pingtxn) (htrace : st.trace = s.conn.trace ++ new)
    (hnew : ∀ o ∈ new, o.isLocal = true) (hpending : st.transPending.Sublist s.conn.transPending)
    (hready : st.transReady.Sublist s.conn.transReady) (htimer : s.conn.timer = none → timer = none)
    (hpc : ∀ pingEnd, pc = .cleaning pingEnd ↔ s.pc = .cleaning pingEnd) :
    Aside s { s with
      conn := { s.conn with toTransStore := st, timer := timer, inUse := inUse }
      pc := pc } new :=
  ⟨rfl, rfl, rfl, rfl, rfl, hping, rfl, rfl, rfl, htrace, hnew, hpending, hready,
    fun _ => htimer, id, hpc⟩

/-- Nothing changes but where the handler stands. -/
theorem Aside.refl (s : Sys) : Aside s s [] :=
  Aside.store s.conn.toTransStore s.conn.timer s.conn.inUse s.pc rfl (List.append_nil _).symm (by simp)
    (.refl _) (.refl _) id fun _ => Iff.rfl

/-- Only transactions change. -/
theorem Aside.edited (heap : Ptr → Option Trans) : Aside s { s with conn := { s.conn with heap := heap } } [] :=
  Aside.store { s.conn.toTransStore with heap := heap } s.conn.timer s.conn.inUse s.pc rfl
    (List.append_nil _).symm (by simp) (.refl _) (.refl _) id fun _ => Iff.rfl

/-- A setter leaves everything else alone. -/
theorem Aside.reconfigured {c : Conn} (h : s.conn.Reconfigured c) : Aside s { s with conn := c } [] := by
  obtain ⟨_, _, _, _, _, _, _, _, rfl, htimer⟩ := h
  exact ⟨rfl, rfl, rfl, rfl, rfl, rfl, rfl, rfl, rfl, (List.append_nil _).symm, by simp, .refl _, .refl _,
    fun hst hnone => (htimer hst).trans hnone, id, fun _ => Iff.rfl⟩

/-- The end of the connection is put off to the end of its handler. -/
theorem Aside.asked (s : Sys) : Aside s { s with conn := { s.conn with destroy := true } } [] :=
  ⟨rfl, rfl, rfl, rfl, rfl, rfl, rfl, rfl, rfl, (List.append_nil _).symm, by simp, .refl _, .refl _,
    fun _ => id, fun _ => rfl, fun _ => Iff.rfl⟩

end Asides

/-- The I/O object is set closing, if there is one. -/
theorem connDisconnectConnlocked_idle {c : Conn} (hstatus : c.status = .connected) :
    { (connDisconnectConnlocked c).1 with status := .idleTimeout, timer := none } = { c with
      io := c.io.map fun io => { io with closing := true }
      status := .idleTimeout
      timer := none } := by
  unfold connDisconnectConnlocked
  cases hio : c.io with
  | none => simp [hio]
  | some io => simp [hstatus]

section Moves

variable {s : Sys} {a : Action}

/-- An action that finds nothing to do is aside. -/
theorem Move.refl : Move lib s s a := .aside a [] (by simp) (Aside.refl s)

/-- A caller enters `LM_conn_connect`. -/
theorem enterConnect_move (hconnects : a.connects = true) (callers : ℕ) (net : NetOutcome) :
    Move lib s (enterConnect lib { s with callers := callers } net .caller).1 a := by
  rcases enterConnect_cases lib { s with callers := callers } net .caller with ⟨tlsctx, error, heq⟩ |
    ⟨hnone, io, tlsctx, error, hreg, hup, heq⟩ | ⟨hnone, io, tlsctx, error, hreg, hup, heq⟩
  · exact .refused _ tlsctx error callers s.pc hconnects (Or.inl rfl) (by rw [heq])
  · exact .opened _ .caller io tlsctx error callers s.pc hconnects hnone hreg hup (Or.inl rfl) (by rw [heq])
  · exact .dialed _ io tlsctx error callers s.pc hconnects hnone hreg hup (Or.inl rfl) (by rw [heq])

/-- `LM_trans_send`. -/
theorem transSend_move (p : Ptr) : Move lib s { s with
    conn := (transSend lib s.conn p).conn
    callers := if (transSend lib s.conn p).connect then s.callers + 1 else s.callers } (.transSend p) := by
  cases ht : s.conn.heap p with
  | none =>
    simp only [transSend, ht]
    exact .refl
  | some t =>
    by_cases hsend : t.status ≠ .new ∨ t.numParams = 0
    · simp only [transSend, ht, if_pos hsend]
      exact .refl
    · have hnew : t.status = .new := by
        by_contra hne
        exact hsend (Or.inl hne)
      have haccept : ({ s.conn with
          heap := Function.update s.conn.heap p (some { t with status := .ready })
          transNew := s.conn.transNew.erase p
          transReady := s.conn.transReady ++ [p]
          trace := s.conn.trace ++ [.accepted p] } : Conn) = { s.conn with
            toTransStore :=
              (s.conn.toTransStore.move p t { t with status := .ready }).log (.accepted p) } := by
        simp [TransStore.move, TransStore.queueTake, TransStore.setTrans, TransStore.log, hnew]
      simp only [transSend, ht, if_neg hsend, haccept]
      by_cases hup : s.conn.status = .connected
      · refine .sent p t hup ht hnew ?_
        simp [transSendMessages, hup]
      · refine .accepted p t hup ht hnew ?_
        by_cases hdown : s.conn.status = .disconnected
        · simp [transSendMessages, hdown]
        · simp [transSendMessages, hdown, hup]

/-- The first locked piece of the handler. -/
theorem handlerEnter_move {event : IoEvent} {r : Conn × Pc} (hpc : s.pc = .idle)
    (henabled : eventEnabled s.conn event = true) (hr : handlerEnter lib s.conn event = some r) :
    Move lib s { s with conn := r.1, pc := r.2 } (.event event) := by
  have hgoes : ∀ (st : TransStore) (timer : Option Timer) (new : List Obs),
      st.pingtxn = s.conn.pingtxn → st.trace = s.conn.trace ++ new →
      (∀ o ∈ new, o.isLocal = true) →
      (∀ e, (.queued e ∈ new → (Action.event event).timesOut = true) ∧
        (.callback e ∈ new → Action.event event = .deliver)) →
      st.transPending = s.conn.transPending → st.transReady = s.conn.transReady →
      (s.conn.timer = none → timer = none) → Move lib s { s with
        conn := { s.conn with toTransStore := st, timer := timer, inUse := true }
        pc := .delivering } (.event event) :=
    fun st timer new hping htrace hnew htimes hpending hready htimer => .aside _ new htimes (Aside.store st
      timer true .delivering hping htrace hnew (hpending ▸ .refl _) (hready ▸ .refl _) htimer
        fun _ => by simp [hpc])
  cases event with
  | connected draws written =>
    simp only [handlerEnter] at hr
    split at hr
    · rename_i hdisabled
      obtain rfl := Option.some.inj hr
      exact .unpinged draws written hpc henabled hdisabled rfl
    · rename_i hping
      obtain ⟨⟨c, p⟩, hnew, rfl⟩ := Option.map_eq_some_iff.mp hr
      obtain ⟨draw, hdraw, rfl, rfl⟩ := transPingRequest_spec hnew
      exact .pinged draws written draw hpc henabled (by simpa using hping) hdraw rfl
  | failed failure text =>
    obtain rfl := Option.some.inj hr
    exact .failed failure text _ hpc henabled rfl
  | read chunk =>
    obtain rfl := Option.some.inj hr
    obtain ⟨new, hend⟩ := readFrames_end lib { s.conn with inUse := true, inbuf := s.conn.inbuf ++ chunk }
    exact .read chunk new _ hpc henabled hend rfl
  | readFailed =>
    obtain rfl := Option.some.inj hr
    exact hgoes s.conn.toTransStore s.conn.timer [] rfl (List.append_nil _).symm (by simp) (by simp) rfl
      rfl id
  | write written =>
    obtain rfl := Option.some.inj hr
    exact .wrote written hpc henabled rfl
  | timer =>
    simp only [handlerEnter] at hr
    split at hr
    · rename_i hconnecting
      obtain rfl := Option.some.inj hr
      exact .expired hpc (Option.isSome_iff_ne_none.mp henabled) hconnecting rfl
    · split at hr
      · rename_i hup
        obtain rfl := Option.some.inj hr
        refine .idled hpc hup.1 hup.2 ?_
        simp only [@connDisconnectConnlocked_idle { s.conn with inUse := true } hup.1]
      · obtain rfl := Option.some.inj hr
        exact hgoes s.conn.toTransStore none [] rfl (List.append_nil _).symm (by simp) (by simp)
          rfl rfl fun _ => rfl
  | transTimer p =>
    simp only [handlerEnter] at hr
    split at hr
    · obtain rfl := Option.some.inj hr
      exact hgoes s.conn.toTransStore s.conn.timer [] rfl (List.append_nil _).symm (by simp) (by simp) rfl
        rfl id
    · rename_i t ht
      obtain rfl := Option.some.inj hr
      exact hgoes { s.conn.toTransStore.connEventAdd .transTimeout (some p) with
        heap := Function.update s.conn.heap p (some { t with timeoutTimer := false })
        transTimers := s.conn.transTimers.filter fun timer => timer.1 ≠ p } s.conn.timer
        [.queued ⟨.transTimeout, some p⟩] rfl rfl (by simp [Obs.isLocal])
        (fun _ => ⟨fun _ => rfl, by simp⟩) rfl rfl id

/-- A caller creates a transaction. -/
theorem created_move (val : ℕ) (params : Option HashDict) : Move lib s { s with conn := { s.conn with
    toTransStore := (s.conn.toTransStore.create { Trans.fresh val .user with requestParams := params }).log
      (.created s.conn.nextPtr .user) } } a :=
  .aside _ [.created s.conn.nextPtr .user] (by simp) (Aside.store _ s.conn.timer s.conn.inUse s.pc
    (by simp [TransStore.log]) (by simp [TransStore.log]) (by simp [Obs.isLocal]) (.refl _) (.refl _) id
    fun _ => Iff.rfl)

/-- `LM_trans_delete`. -/
theorem transDelete_move (p : Ptr) :
    Move lib s { s with conn := transDelete lib s.conn p } (.transDelete p) := by
  obtain ⟨st, timer, heq, -, -, -⟩ := transDelete_spec lib s.conn p
  have hqueues := connQueue_transDelete_sublist lib s.conn p
  have hrecord := transDelete_records lib s.conn p
  rw [heq] at hqueues hrecord ⊢
  obtain ⟨new, htrace, hnew, hnone, hping, htimer⟩ := hrecord
  exact .aside _ new (fun e => ⟨fun he => absurd he (hnone e).1, fun he => absurd he (hnone e).2⟩)
    (Aside.store st timer s.conn.inUse s.pc hping htrace hnew (hqueues .pending) (hqueues .ready) htimer
      fun _ => Iff.rfl)

/-- `LM_conn_disconnect`. -/
theorem connDisconnect_move :
    Move lib s { s with conn := (connDisconnectConnlocked s.conn).1 } .connDisconnect := by
  unfold connDisconnectConnlocked
  split
  · exact .refl
  · rename_i io hio
    split
    · exact .disconnecting io ‹_› hio rfl
    · exact .refl

/-- `LM_conn_destroy`. -/
theorem connDestroy_move : Move lib s { s with conn := connDestroy s.conn } .connDestroy := by
  by_cases hbusy : s.conn.inUse = true
  · simp only [connDestroy, if_pos hbusy]
    exact .aside _ [] (by simp) (Aside.asked s)
  · rw [Bool.not_eq_true] at hbusy
    exact .destroyed _ s.pc (by simp [Action.destroys, hbusy]) hbusy (Or.inl rfl) rfl

/-- The handler goes on after `LM_conn_cleanup_ping`. -/
theorem handlerResume_move {pingEnd : PingEnd} (hpc : s.pc = .cleaning pingEnd) :
    Move lib s { s with
      conn := (handlerResume lib s.conn pingEnd).1
      pc := (handlerResume lib s.conn pingEnd).2 } .resume := by
  cases pingEnd with
  | disabled => exact .unguarded hpc rfl
  | reply =>
    obtain ⟨new, hend⟩ := readFrames_end lib (connEventSetConnected lib { s.conn with pingtxn := none })
    exact .proved new _ hpc hend rfl
  | timeout => exact .unproved _ hpc rfl

/-- The drain. -/
theorem handlerDrain_move (hpc : s.pc = .delivering) :
    Move lib s { s with conn := (handlerDrain lib s.conn).1, pc := (handlerDrain lib s.conn).2 } .drain := by
  obtain ⟨st, timer, heq, -, -, -⟩ := drainDelayRm_spec lib s.conn.transDelayRm s.conn rfl
  obtain ⟨hqueues, new, htrace, hnew, hnone⟩ := drainDelayRm_queues lib s.conn.transDelayRm s.conn
  have hping := (drainDelayRm_kept lib s.conn.transDelayRm s.conn).2.2
  have htimer := drainDelayRm_timer lib s.conn.transDelayRm s.conn
  simp only [handlerDrain]
  rw [heq] at hqueues htrace hping htimer ⊢
  exact .aside _ new (fun e => ⟨fun he => absurd he (hnone e).1, fun he => absurd he (hnone e).2⟩)
    (Aside.store st timer false _ hping htrace hnew (hqueues .pending) (hqueues .ready) htimer
      fun _ => by simp [hpc])

/-- The handler reconnects. -/
theorem reconnect_move (net : NetOutcome) (hpc : s.pc = .reconnecting true) :
    Move lib s { (enterConnect lib s net .handler).1 with
      pc := if (enterConnect lib s net .handler).2 then .awaiting else .finishing } (.reconnect net) := by
  rcases enterConnect_cases lib s net .handler with ⟨tlsctx, error, heq⟩ |
    ⟨hnone, io, tlsctx, error, hreg, hup, heq⟩ | ⟨hnone, io, tlsctx, error, hreg, hup, heq⟩
  · exact .refused _ tlsctx error s.callers .finishing rfl (Or.inr ⟨hpc, rfl⟩) (by rw [heq]; rfl)
  · exact .opened _ .handler io tlsctx error s.callers .awaiting rfl hnone hreg hup (Or.inr ⟨hpc, rfl⟩)
      (by rw [heq]; rfl)
  · exact .dialed _ io tlsctx error s.callers .finishing rfl hnone hreg hup (Or.inr ⟨hpc, rfl⟩)
      (by rw [heq]; rfl)

/-- The handler returns. -/
theorem finish_move (hlink : Link s) (hpc : s.pc = .reconnecting false ∨ s.pc = .finishing) :
    Move lib s { s with conn := if s.conn.destroy then connDestroy s.conn else s.conn, pc := .idle }
      .finish := by
  obtain ⟨hidle, -, -⟩ := hlink.rest (by rcases hpc with hpc | hpc <;> rw [hpc] <;> rfl)
  by_cases hd : s.conn.destroy = true
  · exact .destroyed _ .idle hd hidle (Or.inr rfl) (by simp only [if_pos hd])
  · simp only [if_neg hd]
    exact .aside _ [] (by simp) (Aside.store s.conn.toTransStore s.conn.timer s.conn.inUse .idle rfl
      (List.append_nil _).symm (by simp) (.refl _) (.refl _) id
      fun _ => by rcases hpc with hpc | hpc <;> simp [hpc])

end Moves

/-- Every action is one of these moves. -/
theorem sysStep_move {s s' : Sys} {a : Action} (h : sysStep lib s a = some s')
    (hrunning : Running lib s) : Move lib s s' a := by
  cases sysStep_effect h with
  | transNew draws c p hnew =>
    obtain ⟨draw, -, -, rfl⟩ := transNew_spec hnew
    exact created_move draw.val none
  | transRunNew draws params c p hnew =>
    obtain ⟨draw, -, -, rfl⟩ := transRunNew_spec hnew
    exact created_move draw.val _
  | transSetParam p key value =>
    obtain ⟨heap, heq, -⟩ := transSetParam_spec lib s.conn p key value
    simp only [heq]
    exact .aside _ [] (by simp) (Aside.edited heap)
  | transSetTimeout p timeoutS =>
    obtain ⟨heap, heq, -⟩ := transSetTimeout_spec lib s.conn p timeoutS
    simp only [heq]
    exact .aside _ [] (by simp) (Aside.edited heap)
  | transSend p => exact transSend_move p
  | transDelete p => exact transDelete_move p
  | connConnect net => exact enterConnect_move rfl s.callers net
  | connDisconnect => exact connDisconnect_move
  | connDestroy => exact connDestroy_move
  | configures a c _ hc => exact .aside _ [] (by simp) (Aside.reconfigured hc)
  | implicitConnect net _ => exact enterConnect_move rfl (s.callers - 1) net
  | connectFinish eventAdd who hwho =>
    cases eventAdd with
    | true => exact .registered who hwho (by simp [connConnectFinish])
    | false => exact .dropped who _ hwho rfl
  | event event r hpc henabled hr => exact handlerEnter_move hpc henabled hr
  | resume pingEnd hpc => exact handlerResume_move hpc
  | deliver e rest hpc _ =>
    exact .aside _ [.callback e] (by simp) (Aside.store
      { s.conn.toTransStore with events := rest, trace := s.conn.trace ++ [.callback e] } s.conn.timer
      s.conn.inUse .callback rfl rfl (by simp [Obs.isLocal]) (.refl _) (.refl _) id fun _ => by simp [hpc])
  | callbackReturn hpc =>
    exact .aside _ [] (by simp) (Aside.store
      { s.conn.toTransStore with events := if s.conn.destroy then [] else s.conn.events } s.conn.timer
      s.conn.inUse .delivering rfl (List.append_nil _).symm (by simp) (.refl _) (.refl _) id
      fun _ => by simp [hpc])
  | drain hpc _ => exact handlerDrain_move hpc
  | reconnect net hpc => exact reconnect_move net hpc
  | finish hpc => exact finish_move hrunning.link hpc

end LibMonetra
