import LibMonetra.Grammar

/-!
# `monetra_connload`

The load script keeps a number of connections busy: it opens the next one when one has come up, sends a
transaction when the last one is done, now or after a delay, and replaces a connection that has ended.
Its callback counts the connections, and the timer of a delayed transaction holds the pointer to its
connection from one turn of the event loop to another.
-/

namespace LibMonetra

open Foundation

/-- A `LM_conn_t *` of the script. -/
abbrev ConnPtr := ℕ

/-- The configuration, and the width of `size_t`. -/
structure LoadConfig where
  sizeBits : ℕ
  hostname : Bytes
  port : ℕ
  username : Bytes
  password : Bytes
  numConns : ℕ
  transPerConn : ℕ
  delayPerTransMs : ℕ
  wide : 16 ≤ sizeBits
  fits : numConns < 2 ^ sizeBits

/-- What the script asks of the library. -/
inductive LoadCall
  | connect (conn : ConnPtr)
  /-- `LM_trans_new`, `LM_trans_set_param` for every pair, and `LM_trans_send`. -/
  | send (conn : ConnPtr) (params : List (Bytes × Bytes))
  | deleteTrans (conn : ConnPtr)
  | disconnect (conn : ConnPtr)
  | destroy (conn : ConnPtr)
  deriving DecidableEq

/-- The tracked state of the script, with the timers that the event loop knows. The fields after them are
records: the calls, the connections reported connected and not yet disconnected, and for every entry of
`trans_delay_cb` whether `destroy_connection` had been called on its connection. -/
structure ConnLoad where
  numConnections : ℕ
  numTransactions : ℕ
  conns : List ConnPtr
  numTxns : ConnPtr → ℕ
  txnEnqueued : ℕ
  nextConn : ConnPtr
  exited : Bool
  delayed : List ConnPtr
  calls : List LoadCall
  reported : List ConnPtr
  entered : List (ConnPtr × Bool)

/-- What can happen next: the library reports an event of a connection, or the timer of a delayed
transaction fires. -/
inductive LoadEvent
  | report (conn : ConnPtr) (type : EventType)
  | delay (conn : ConnPtr)
  deriving DecidableEq

section Callback

variable (config : LoadConfig)

/-- The parameters of a transaction. -/
def tranParams (ptrannum : ℕ) : List (Bytes × Bytes) :=
  [(ascii "username", config.username), (ascii "password", config.password),
    (ascii "action", ascii "sale"), (ascii "account", ascii "4012888888881881"),
    (ascii "expdate", ascii "0549"), (ascii "amount", ascii "1.00"), (ascii "zip", ascii "32606"),
    (ascii "comments", ascii "conn load script"), (ascii "ptrannum", decimal ptrannum)]

/-- `enqueue_tran`. -/
def enqueueTran (s : ConnLoad) (conn : ConnPtr) : ConnLoad :=
  let txnEnqueued := (s.txnEnqueued + 1) % 2 ^ config.sizeBits
  { s with
    numTxns := Function.update s.numTxns conn ((s.numTxns conn + 1) % 2 ^ config.sizeBits)
    txnEnqueued := txnEnqueued
    calls := s.calls ++ [.send conn (tranParams config txnEnqueued)] }

/-- `destroy_connection`. -/
def destroyConnection (s : ConnLoad) (conn : ConnPtr) : ConnLoad :=
  { s with conns := s.conns.erase conn, calls := s.calls ++ [.destroy conn] }

/-- `create_connection`: `LM_conn_init` takes neither an empty host nor the port 0. -/
def createConnection (s : ConnLoad) : ConnLoad :=
  if config.hostname = [] ∨ config.port = 0 then { s with exited := true }
  else
    { s with
      conns := s.conns ++ [s.nextConn]
      numTxns := Function.update s.numTxns s.nextConn 0
      nextConn := s.nextConn + 1
      calls := s.calls ++ [.connect s.nextConn] }

/-- `monetra_callback`. -/
def monetraCallback (s : ConnLoad) (conn : ConnPtr) : EventType → ConnLoad
  | .connConnected =>
    let s := enqueueTran config { s with
      numConnections := (s.numConnections + 1) % 2 ^ config.sizeBits } conn
    if s.conns.length < config.numConns then createConnection config s else s
  | .connDisconnect =>
    createConnection config (destroyConnection { s with
      numConnections := (s.numConnections + 2 ^ config.sizeBits - 1) % 2 ^ config.sizeBits } conn)
  | .connError => { s with exited := true }
  | .transDone =>
    let s := { s with
      numTransactions := (s.numTransactions + 1) % 2 ^ config.sizeBits
      calls := s.calls ++ [.deleteTrans conn] }
    if s.numTxns conn = config.transPerConn then { s with calls := s.calls ++ [.disconnect conn] }
    else if config.delayPerTransMs ≠ 0 then { s with delayed := s.delayed ++ [conn] }
    else enqueueTran config s conn
  | .transError | .transNoconnect | .transTimeout => s

/-- `trans_delay_cb`. With a connection that is gone it does nothing that could be told. -/
def transDelayCb (s : ConnLoad) (conn : ConnPtr) : ConnLoad :=
  let s := { s with entered := s.entered ++ [(conn, decide (conn ∉ s.conns))] }
  if conn ∈ s.conns then enqueueTran config s conn else s

end Callback

/-- The events that the library may report: a connection that has been destroyed has none, one that has
been reported connected is not reported so again, and nothing is done before. -/
def ConnLoad.mayReport (s : ConnLoad) (conn : ConnPtr) (type : EventType) : Bool :=
  conn ∈ s.conns && match type with
    | .connConnected => conn ∉ s.reported
    | .transDone => conn ∈ s.reported
    | _ => true

/-- A reported event is recorded. -/
def ConnLoad.recorded (s : ConnLoad) (conn : ConnPtr) : EventType → ConnLoad
  | .connConnected => { s with reported := s.reported ++ [conn] }
  | .connDisconnect => { s with reported := s.reported.erase conn }
  | _ => s

/-- The event is handled, unless the script has ended. -/
def connLoadStep (config : LoadConfig) (s : ConnLoad) : LoadEvent → Option ConnLoad
  | .report conn type =>
    if s.exited = false ∧ s.mayReport conn type then
      some (monetraCallback config (s.recorded conn type) conn type)
    else none
  | .delay conn =>
    if s.exited = false ∧ conn ∈ s.delayed then
      some (transDelayCb config { s with delayed := s.delayed.erase conn } conn)
    else none

/-- The script before its first connection. -/
def ConnLoad.empty : ConnLoad where
  numConnections := 0
  numTransactions := 0
  conns := []
  numTxns := fun _ => 0
  txnEnqueued := 0
  nextConn := 0
  exited := false
  delayed := []
  calls := []
  reported := []
  entered := []

/-- A run of `monetra_connload`. -/
def connLoad (config : LoadConfig) : System ConnLoad LoadEvent where
  init s := s = createConnection config .empty
  step := connLoadStep config

/-- No connection is used after its end, and the count of the connections is right. -/
structure NeverDead (config : LoadConfig) (s : ConnLoad) : Prop where
  /-- `trans_delay_cb` has only been entered with a connection that had not been destroyed. -/
  alive : ∀ entry ∈ s.entered, entry.2 = false
  counted : s.numConnections = s.reported.length
  distinct : s.reported.Nodup

/-- Whether the end of a connection is orderly: it has been reported connected, and no delayed transaction
waits on it. -/
def LoadEvent.orderly (s : ConnLoad) : LoadEvent → Bool
  | .report conn .connDisconnect => conn ∈ s.reported ∧ conn ∉ s.delayed
  | _ => true

/-- What holds between two events of a run in which every connection ends orderly. -/
structure Tracking (config : LoadConfig) (s : ConnLoad) : Prop extends NeverDead config s where
  opened : ∀ conn ∈ s.reported, conn ∈ s.conns
  unique : s.conns.Nodup
  fresh : ∀ conn ∈ s.conns, conn < s.nextConn
  waiting : ∀ conn ∈ s.delayed, conn ∈ s.conns
  bounded : s.conns.length ≤ max 1 config.numConns

section Runs

variable {config : LoadConfig} {s s' : ConnLoad} {conn : ConnPtr}

/-- The connections that have come up are fewer than `size_t` can count. -/
theorem reported_length_lt {reported conns : List ConnPtr} (hdistinct : reported.Nodup)
    (hopened : ∀ conn ∈ reported, conn ∈ conns) (hbounded : conns.length ≤ max 1 config.numConns) :
    reported.length < 2 ^ config.sizeBits := by
  have hsub : reported.length ≤ conns.length := (List.subperm_of_subset hdistinct hopened).length_le
  have hwide : 2 ^ 16 ≤ 2 ^ config.sizeBits := Nat.pow_le_pow_right (by omega) config.wide
  have hfits := config.fits
  omega

/-- Sending a transaction opens and ends no connection. -/
theorem Tracking.enqueueTran (h : Tracking config s) (conn : ConnPtr) :
    Tracking config (enqueueTran config s conn) :=
  ⟨⟨h.alive, h.counted, h.distinct⟩, h.opened, h.unique, h.fresh, h.waiting, h.bounded⟩

/-- A connection is opened while there is room for one. -/
theorem Tracking.createConnection (h : Tracking config s)
    (hroom : s.conns.length + 1 ≤ max 1 config.numConns) :
    Tracking config (createConnection config s) := by
  unfold LibMonetra.createConnection
  split
  · exact ⟨⟨h.alive, h.counted, h.distinct⟩, h.opened, h.unique, h.fresh, h.waiting, h.bounded⟩
  · refine ⟨⟨h.alive, h.counted, h.distinct⟩, fun conn hconn => List.mem_append_left _ (h.opened conn hconn),
      ?_, ?_, fun conn hconn => List.mem_append_left _ (h.waiting conn hconn), ?_⟩
    · refine List.nodup_append.mpr ⟨h.unique, List.nodup_singleton _, fun p hp q hq heq => ?_⟩
      rw [List.mem_singleton.mp hq] at heq
      exact Nat.lt_irrefl _ (heq ▸ h.fresh p hp)
    · intro conn hconn
      rcases List.mem_append.mp hconn with hconn | hconn
      · exact Nat.lt_succ_of_lt (h.fresh conn hconn)
      · rw [List.mem_singleton.mp hconn]
        exact Nat.lt_succ_self _
    · simpa using hroom

/-- The next connection is opened if there is room for one. -/
theorem Tracking.opening (h : Tracking config s) :
    Tracking config
      (if s.conns.length < config.numConns then LibMonetra.createConnection config s else s) := by
  split
  · rename_i hroom
    exact h.createConnection (Nat.le_trans hroom (Nat.le_max_right _ _))
  · exact h

/-- A connection has come up. -/
theorem Tracking.connected (h : Tracking config s) (hopen : conn ∈ s.conns) (hnew : conn ∉ s.reported) :
    Tracking config { s with
      numConnections := (s.numConnections + 1) % 2 ^ config.sizeBits
      reported := s.reported ++ [conn] } := by
  have hdistinct : (s.reported ++ [conn]).Nodup := by
    refine List.nodup_append.mpr ⟨h.distinct, List.nodup_singleton _, fun p hp q hq heq => ?_⟩
    rw [List.mem_singleton.mp hq] at heq
    exact hnew (heq ▸ hp)
  have hopened : ∀ c ∈ s.reported ++ [conn], c ∈ s.conns := by
    intro c hc
    rcases List.mem_append.mp hc with hc | hc
    · exact h.opened c hc
    · exact List.mem_singleton.mp hc ▸ hopen
  have hlt := reported_length_lt hdistinct hopened h.bounded
  refine ⟨⟨h.alive, ?_, hdistinct⟩, hopened, h.unique, h.fresh, h.waiting, h.bounded⟩
  rw [List.length_append, List.length_singleton] at hlt ⊢
  dsimp only
  rw [h.counted, Nat.mod_eq_of_lt hlt]

/-- A connection has ended on which no delayed transaction waits. -/
theorem Tracking.disconnected (h : Tracking config s) (hup : conn ∈ s.reported) (hidle : conn ∉ s.delayed) :
    Tracking config (destroyConnection { s with
      numConnections := (s.numConnections + 2 ^ config.sizeBits - 1) % 2 ^ config.sizeBits
      reported := s.reported.erase conn } conn) ∧
    (s.conns.erase conn).length + 1 ≤ max 1 config.numConns := by
  have hlt := reported_length_lt h.distinct h.opened h.bounded
  have hpos := List.length_pos_of_mem hup
  have hlength := List.length_erase_of_mem (h.opened conn hup)
  have hpos' := List.length_pos_of_mem (h.opened conn hup)
  have hbounded := h.bounded
  refine ⟨⟨⟨h.alive, ?_, h.distinct.erase conn⟩, ?_, h.unique.erase conn, ?_, ?_, ?_⟩, by omega⟩
  · have hwrap : s.reported.length + 2 ^ config.sizeBits - 1 =
        s.reported.length - 1 + 2 ^ config.sizeBits := by omega
    simp only [destroyConnection, h.counted, List.length_erase_of_mem hup]
    rw [hwrap, Nat.add_mod_right]
    exact Nat.mod_eq_of_lt (by omega)
  · intro c hc
    obtain ⟨hne, hc⟩ := h.distinct.mem_erase_iff.mp hc
    exact (List.mem_erase_of_ne hne).mpr (h.opened c hc)
  · exact fun c hc => h.fresh c (List.mem_of_mem_erase hc)
  · intro c hc
    have hne : c ≠ conn := fun heq => hidle (heq ▸ hc)
    exact (List.mem_erase_of_ne hne).mpr (h.waiting c hc)
  · exact (by omega : (s.conns.erase conn).length ≤ max 1 config.numConns)

/-- The timer of a delayed transaction fires. -/
theorem Tracking.delay (h : Tracking config s) (hconn : conn ∈ s.delayed) :
    Tracking config (transDelayCb config { s with delayed := s.delayed.erase conn } conn) := by
  have hopen := h.waiting conn hconn
  have hentered : Tracking config { s with
      delayed := s.delayed.erase conn
      entered := s.entered ++ [(conn, decide (conn ∉ s.conns))] } := by
    refine ⟨⟨?_, h.counted, h.distinct⟩, h.opened, h.unique, h.fresh,
      fun c hc => h.waiting c (List.mem_of_mem_erase hc), h.bounded⟩
    intro entry hentry
    rcases List.mem_append.mp hentry with hentry | hentry
    · exact h.alive entry hentry
    · rw [List.mem_singleton.mp hentry]
      simpa using hopen
  unfold transDelayCb
  dsimp only
  rw [if_pos hopen]
  exact hentered.enqueueTran conn

/-- An orderly step keeps the script's books right. -/
theorem Tracking.step (h : Tracking config s) {event : LoadEvent}
    (hstep : ((connLoad config).restrict fun s e => e.orderly s).step s event = some s') :
    Tracking config s' := by
  obtain ⟨horderly, hstep⟩ := (connLoad config).restrict_step hstep
  cases event with
  | delay conn =>
    simp only [connLoad, connLoadStep] at hstep
    split at hstep
    · rename_i henabled
      obtain rfl := Option.some.inj hstep
      exact h.delay henabled.2
    · cases hstep
  | report conn type =>
    simp only [connLoad, connLoadStep] at hstep
    split at hstep
    · rename_i henabled
      have hmay := henabled.2
      simp only [ConnLoad.mayReport, Bool.and_eq_true, decide_eq_true_eq] at hmay
      obtain ⟨hopen, hmay⟩ := hmay
      obtain rfl := Option.some.inj hstep
      cases type with
      | connConnected =>
        exact ((h.connected hopen (by simpa using hmay)).enqueueTran conn).opening
      | connDisconnect =>
        simp only [LoadEvent.orderly, decide_eq_true_eq] at horderly
        obtain ⟨hended, hroom⟩ := h.disconnected horderly.1 horderly.2
        exact hended.createConnection hroom
      | connError =>
        exact ⟨⟨h.alive, h.counted, h.distinct⟩, h.opened, h.unique, h.fresh, h.waiting, h.bounded⟩
      | transDone =>
        have hdone : Tracking config { s with
            numTransactions := (s.numTransactions + 1) % 2 ^ config.sizeBits
            calls := s.calls ++ [.deleteTrans conn] } :=
          ⟨⟨h.alive, h.counted, h.distinct⟩, h.opened, h.unique, h.fresh, h.waiting, h.bounded⟩
        simp only [monetraCallback]
        split
        · exact ⟨⟨h.alive, h.counted, h.distinct⟩, h.opened, h.unique, h.fresh, h.waiting, h.bounded⟩
        · split
          · refine ⟨⟨h.alive, h.counted, h.distinct⟩, h.opened, h.unique, h.fresh, fun c hc => ?_, h.bounded⟩
            rcases List.mem_append.mp hc with hc | hc
            · exact h.waiting c hc
            · exact List.mem_singleton.mp hc ▸ hopen
          · exact hdone.enqueueTran conn
      | transError => exact h
      | transNoconnect => exact h
      | transTimeout => exact h
    · cases hstep

/-- The first connection is opened with the books in order. -/
theorem Tracking.init : Tracking config (LibMonetra.createConnection config .empty) := by
  refine Tracking.createConnection ⟨⟨?_, rfl, List.nodup_nil⟩, ?_, List.nodup_nil, ?_, ?_, ?_⟩
    (Nat.le_max_left _ _)
  all_goals simp [ConnLoad.empty]

end Runs

/-- **Correctness of the load script.** In every run in which the library reports the end of a connection
only after it has reported it connected, and while no delayed transaction waits on it, no connection is
used after its end, the count of the connections is the number of those that are up, and it is not
decremented at zero. -/
theorem connLoad_neverDead (config : LoadConfig) (s : ConnLoad)
    (h : ((connLoad config).restrict fun s e => e.orderly s).Reachable s) :
    NeverDead config s ∧ ∀ conn s', ((connLoad config).restrict fun s e => e.orderly s).step s
      (.report conn .connDisconnect) = some s' → 0 < s.numConnections := by
  have htracking : Tracking config s :=
    h.invariant _ (fun _ hinit => hinit ▸ Tracking.init) fun _ _ _ _ hkept hstep => hkept.step hstep
  refine ⟨htracking.toNeverDead, fun conn s' hstep => ?_⟩
  have horderly := ((connLoad config).restrict_step hstep).1
  simp only [LoadEvent.orderly, decide_eq_true_eq] at horderly
  rw [htracking.counted]
  exact List.length_pos_of_mem horderly.1

/-- One connection, with a second between its transactions. -/
def slowLoad : LoadConfig where
  sizeBits := 64
  hostname := ascii "localhost"
  port := 8665
  username := ascii "loopback"
  password := ascii "test123"
  numConns := 1
  transPerConn := 10
  delayPerTransMs := 1000
  wide := by decide
  fits := by decide

/-- The script with its first connection open. -/
def loadStarted : ConnLoad := createConnection slowLoad .empty

/-- A connection comes up, does a transaction, sends the next one behind the delay, and ends after it. -/
def orderlyLoad : List LoadEvent :=
  [.report 0 .connConnected, .report 0 .transDone, .delay 0, .report 0 .connDisconnect]

/-- The script behind the end of its first connection. -/
def loadReplaced : ConnLoad :=
  (((connLoad slowLoad).restrict fun s e => e.orderly s).run loadStarted orderlyLoad).get (by decide)

/-- Its books are in order. -/
theorem connLoad_neverDead_slowLoad :
    loadReplaced.entered = [(0, false)] ∧ loadReplaced.numConnections = 0 ∧ NeverDead slowLoad loadReplaced :=
  ⟨by decide, by decide, (connLoad_neverDead slowLoad loadReplaced
    (System.reachable_get _ rfl orderlyLoad _)).1⟩

/-- The server closes the connection before it has answered the ping. -/
def closedEarly : ConnLoad :=
  ((connLoad slowLoad).run loadStarted [.report 0 .connDisconnect]).get (by decide)

/-- The server closes the connection while the timer of its next transaction runs. -/
def closedWaiting : ConnLoad :=
  ((connLoad slowLoad).run loadStarted [.report 0 .connConnected, .report 0 .transDone,
    .report 0 .connDisconnect, .delay 0]).get (by decide)

/-- In the first run the count of the connections is below zero, in the second one the timer has the
connection that was destroyed. -/
theorem connLoad_dead :
    ((connLoad slowLoad).Reachable closedEarly ∧ closedEarly.reported = [] ∧
      closedEarly.numConnections = 2 ^ 64 - 1) ∧
    ((connLoad slowLoad).Reachable closedWaiting ∧ LoadCall.destroy 0 ∈ closedWaiting.calls ∧
      closedWaiting.entered = [(0, true)]) ∧
    ¬ ∀ s, (connLoad slowLoad).Reachable s → NeverDead slowLoad s := by
  have hearly : (connLoad slowLoad).Reachable closedEarly := System.reachable_get _ rfl _ _
  refine ⟨⟨hearly, by decide, by decide⟩, ⟨System.reachable_get _ rfl _ _, by decide, by decide⟩,
    fun hall => ?_⟩
  have hcounted := (hall closedEarly hearly).counted
  exact absurd hcounted (by decide)

/-- The server takes the connection, and closes it before it answers the ping. -/
def closeUnanswered : List Action :=
  [.connConnect openNet, .event (.connected [pingDraw] 100), .drain, .finish,
    .event (.failed .disconnected []), .deliver, .callbackReturn, .deliver, .callbackReturn]

/-- The library reports the error of the ping and the end of a connection that it has not reported
connected. -/
theorem connDisconnect_unannounced :
    ∃ s, (monetra reference).Reachable s ∧
      callbacksOf s.conn.trace = [⟨.transError, some 0⟩, ⟨.connDisconnect, none⟩] :=
  ⟨((monetra reference).run started closeUnanswered).get (by decide),
    System.reachable_get _ (started_init reference) closeUnanswered _, by decide⟩

end LibMonetra
