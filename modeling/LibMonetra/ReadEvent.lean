import LibMonetra.Stage
import LibMonetra.Unaware

/-!
# A read event as a consumer of frames

The loop of the read event, with the parser's own loop in it and the ping that interrupts it, takes one
message after the other off the bytes that have arrived. What the handler does once the loop has ended
is fixed when no callback calls the library.
-/

namespace LibMonetra

open Foundation

variable (lib : Mstdlib)

/-- What the read event does once the ping has been answered. -/
def pingAnswered (c : Conn) : Conn :=
  connEventSetConnected lib { connCleanupPing lib c with pingtxn := none }

/-- What the read event does with one message. The second result tells whether it goes on. -/
def takeMsg (c : Conn) (msg : Bytes) : Conn × Bool :=
  match connParseMsg lib { c with trace := c.trace ++ [.consumed msg] } msg with
  | (c, .success, some p) =>
    if c.pingtxn = some p then (pingAnswered lib c, true) else (transCompleted c p, true)
  | (c, .error, _) => (c, false)
  | (c, _, _) => (c, true)

/-- What the read event leaves after its last message. -/
def readEnded (d : Drive Conn UInt8) : Conn :=
  let c := timerReset lib { d.state with inbuf := d.unread } (d.state.transPending = [])
  if d.stopped then
    connEventHandleConnError (setError c (ascii "Invalid response format received. Disconnect.")) .error
  else c

/-- The next action of a handler whose callbacks do not call the library. -/
def Sys.handlerAction (net : NetOutcome) (s : Sys) : Action :=
  match s.pc with
  | .cleaning _ => .resume
  | .delivering => if s.conn.events = [] then .drain else .deliver
  | .callback => .callbackReturn
  | .reconnecting true => .reconnect net
  | .awaiting => .connectFinish net.eventAdd
  | .idle | .reconnecting false | .finishing => .finish

/-- A handler runs to its end, and nothing happens in between. -/
inductive Settles (net : NetOutcome) : Sys → Sys → Prop
  | idle (s : Sys) : s.pc = .idle → Settles net s s
  | step (s s' s'' : Sys) : s.pc ≠ .idle → sysStep lib s (s.handlerAction net) = some s' →
      Settles net s' s'' → Settles net s s''

section Fuel

variable {lib} {c : Conn} {msg rest : Bytes}

/-- `LM_conn_parse_msg` touches the transactions only. -/
theorem connParseMsg_shape (lib : Mstdlib) (c : Conn) (msg : Bytes) :
    ∃ st, (connParseMsg lib c msg).1 = { c with toTransStore := st } := by
  rcases connParseMsg_cases lib c msg with
    ⟨-, hres⟩ | ⟨_, _, _, -, hres, -⟩ | ⟨_, _, _, _, -, -, -, -, hres⟩ <;>
    rw [hres] <;> exact ⟨_, rfl⟩

/-- It leaves `inbuf` alone. -/
theorem connParseMsg_inbuf (lib : Mstdlib) (c : Conn) (msg : Bytes) :
    (connParseMsg lib c msg).1.inbuf = c.inbuf := by
  obtain ⟨st, heq⟩ := connParseMsg_shape lib c msg
  rw [heq]

/-- The parser does not depend on its bound. -/
theorem connParseTransBufferLoop_fuel (fuel fuel' : ℕ) (c : Conn) (h : c.inbuf.length < fuel)
    (h' : c.inbuf.length < fuel') :
    connParseTransBufferLoop lib fuel c = connParseTransBufferLoop lib fuel' c := by
  induction fuel generalizing fuel' c with
  | zero => exact absurd h (Nat.not_lt_zero _)
  | succ fuel ih =>
    cases fuel' with
    | zero => exact absurd h' (Nat.not_lt_zero _)
    | succ fuel' =>
      cases hscan : frameScan c.inbuf with
      | wait =>
        rw [connParseTransBufferLoop_wait lib _ hscan, connParseTransBufferLoop_wait lib _ hscan]
      | bad =>
        unfold frameScan at hscan
        rw [connParseTransBufferLoop, connParseTransBufferLoop]
        split
        · rfl
        · split
          · rfl
          · cases htake : takeThrough etx c.inbuf with
            | none => rfl
            | some cut =>
              simp_all
      | frame msg rest =>
        have hshort : rest.length < c.inbuf.length := frameScanner.frame_shorter c.inbuf msg rest hscan
        have hkept := connParseMsg_inbuf lib { c with inbuf := rest, trace := c.trace ++ [.consumed msg] } msg
        rw [connParseTransBufferLoop_frame lib fuel hscan, connParseTransBufferLoop_frame lib fuel' hscan]
        dsimp only at hkept ⊢
        rw [← hkept] at hshort
        split
        · exact ih fuel' _ (by omega) (by omega)
        · rfl

/-- The loop of the read event waits for more bytes when the framing does. -/
theorem readLoop_wait (fuel : ℕ) (hscan : frameScan c.inbuf = .wait) :
    readLoop lib (fuel + 1) c = (c, .wait) := by
  rw [readLoop, connParseTransBuffer, connParseTransBufferLoop_wait lib _ hscan]

/-- The loop gives up when the framing does. -/
theorem readLoop_bad (fuel : ℕ) (hscan : frameScan c.inbuf = .bad) :
    ∃ inbuf, readLoop lib (fuel + 1) c = ({ c with inbuf := inbuf }, .error) := by
  obtain ⟨inbuf, hbad⟩ := connParseTransBufferLoop_bad lib c.inbuf.length hscan
  exact ⟨inbuf, by rw [readLoop, connParseTransBuffer, hbad]⟩

/-- The loop takes one message, and goes on behind an orphan or a completed transaction. -/
theorem readLoop_frame (fuel : ℕ) (hscan : frameScan c.inbuf = .frame msg rest) :
    readLoop lib (fuel + 1) c =
      match connParseMsg lib { c with inbuf := rest, trace := c.trace ++ [.consumed msg] } msg with
      | (c, .success, some p) =>
        if c.pingtxn = some p then (c, .ping) else readLoop lib fuel (transCompleted c p)
      | (c, .error, _) => (c, .error)
      | (c, _, _) => readLoop lib (fuel + 1) c := by
  have hkept := connParseMsg_inbuf lib { c with inbuf := rest, trace := c.trace ++ [.consumed msg] } msg
  rw [readLoop, connParseTransBuffer, connParseTransBufferLoop_frame lib _ hscan]
  have hshort : rest.length < c.inbuf.length := frameScanner.frame_shorter c.inbuf msg rest hscan
  rcases connParseMsg_cases lib { c with inbuf := rest, trace := c.trace ++ [.consumed msg] } msg with
    ⟨-, hres⟩ | ⟨_, _, q, -, hres, -⟩ | ⟨_, _, p, _, -, -, -, -, hres⟩
  · simp only [hres, reduceCtorEq, if_false]
  · simp only [hres, if_true]
    rw [readLoop, connParseTransBuffer, connParseTransBufferLoop_fuel c.inbuf.length (rest.length + 1) _ hshort
      (Nat.lt_succ_self _)]
  · simp only [hres, reduceCtorEq, if_false]

/-- The bookkeeping of a completed transaction leaves `inbuf` alone. -/
theorem transCompleted_inbuf (c : Conn) (p : Ptr) : (transCompleted c p).inbuf = c.inbuf := by
  unfold transCompleted
  dsimp only
  split <;> rfl

/-- The loop does not depend on its bound. -/
theorem readLoop_fuel (fuel fuel' : ℕ) (c : Conn) (h : c.inbuf.length < fuel)
    (h' : c.inbuf.length < fuel') : readLoop lib fuel c = readLoop lib fuel' c := by
  induction hsize : c.inbuf.length using Nat.strong_induction_on generalizing fuel fuel' c with
  | _ size ih =>
    obtain ⟨fuel, rfl⟩ := Nat.exists_eq_succ_of_ne_zero (Nat.ne_zero_of_lt h)
    obtain ⟨fuel', rfl⟩ := Nat.exists_eq_succ_of_ne_zero (Nat.ne_zero_of_lt h')
    cases hscan : frameScan c.inbuf with
    | wait => rw [readLoop_wait fuel hscan, readLoop_wait fuel' hscan]
    | bad =>
      obtain ⟨inbuf, hbad⟩ := connParseTransBufferLoop_bad lib c.inbuf.length hscan
      rw [readLoop, readLoop, connParseTransBuffer, hbad]
    | frame msg rest =>
      have hshort : rest.length < c.inbuf.length := frameScanner.frame_shorter c.inbuf msg rest hscan
      have hkept := connParseMsg_inbuf lib { c with inbuf := rest, trace := c.trace ++ [.consumed msg] } msg
      rw [readLoop_frame fuel hscan, readLoop_frame fuel' hscan]
      rcases hres : connParseMsg lib { c with inbuf := rest, trace := c.trace ++ [.consumed msg] } msg with
        ⟨c', err, q⟩
      rw [hres] at hkept
      dsimp only at hkept
      rw [← hkept] at hshort
      cases err with
      | error => rfl
      | wait => exact ih _ (hsize ▸ hshort) _ _ c' (by omega) (by omega) rfl
      | success =>
        cases q with
        | none => exact ih _ (hsize ▸ hshort) _ _ c' (by omega) (by omega) rfl
        | some p =>
          rw [← transCompleted_inbuf c' p] at hshort
          dsimp only
          split
          · rfl
          · exact ih _ (hsize ▸ hshort) _ _ _ (by omega) (by omega) rfl

end Fuel

section Unaware

variable (c : Conn) (msg : Bytes) (trace : List Obs) (events : List Event) (inbuf : Bytes)

/-- `LM_conn_parse_msg` does not look at the record. -/
theorem connParseMsg_behind : connParseMsg lib (c.behind trace events inbuf) msg =
    ((connParseMsg lib c msg).1.behind trace events inbuf, (connParseMsg lib c msg).2) := by
  unfold connParseMsg Conn.behind
  cases readMsg lib msg with
  | none => rfl
  | some read =>
    obtain ⟨tranId, data⟩ := read
    cases hmap : c.transIdMap tranId with
    | none => simp [hmap]
    | some p =>
      cases ht : c.heap p with
      | none => simp [hmap, ht]
      | some t => by_cases hst : t.status = .pending <;> simp [hmap, ht, hst]

/-- What the read event does once the ping has been answered does not depend on the record either. -/
theorem unaware_pingAnswered : Unaware fun c => pingAnswered lib c := by
  have hforget : Unaware fun c => { c with pingtxn := none } := fun _ _ _ _ => rfl
  exact ((unaware_connCleanupPing lib).comp hforget).comp (unaware_connEventSetConnected lib)

/-- What the read event does with a message does not depend on the record, on what waits for delivery or
on what follows the message. -/
theorem takeMsg_behind : takeMsg lib (c.behind trace events inbuf) msg =
    ((takeMsg lib c msg).1.behind trace events inbuf, (takeMsg lib c msg).2) := by
  have hconsumed : { c.behind trace events inbuf with
      trace := (c.behind trace events inbuf).trace ++ [.consumed msg] } =
        ({ c with trace := c.trace ++ [.consumed msg] } : Conn).behind trace events inbuf := by
    simp [Conn.behind]
  unfold takeMsg
  rw [hconsumed, connParseMsg_behind]
  rcases connParseMsg lib { c with trace := c.trace ++ [.consumed msg] } msg with ⟨c', err, q⟩
  cases err with
  | error => rfl
  | wait => rfl
  | success =>
    cases q with
    | none => rfl
    | some p =>
      have hsame : (c'.behind trace events inbuf).pingtxn = c'.pingtxn := rfl
      dsimp only
      rw [hsame]
      split
      · exact congrArg (·, true) (unaware_pingAnswered lib c' trace events inbuf)
      · exact congrArg (·, true) (unaware_transCompleted p c' trace events inbuf)

end Unaware

section Frames

variable {lib} {msg rest values : Bytes}

/-- The read event waits for more bytes when the framing does. -/
theorem readFrames_wait (c : Conn) (hscan : frameScan values = .wait) :
    readFrames lib { c with inbuf := values } = (readEnded lib ⟨c, values, false⟩, .delivering) := by
  have hloop : readLoop lib (values.length + 1) { c with inbuf := values } =
      ({ c with inbuf := values }, .wait) := readLoop_wait _ hscan
  rw [readFrames, hloop]
  rfl

/-- The read event gives up the connection when the framing does. -/
theorem readFrames_bad (c : Conn) (hscan : frameScan values = .bad) :
    readFrames lib { c with inbuf := values } = (readEnded lib ⟨c, values, true⟩, .delivering) := by
  obtain ⟨inbuf, hbad⟩ := @readLoop_bad lib { c with inbuf := values } values.length hscan
  have hloop : readLoop lib (values.length + 1) { c with inbuf := values } =
      ({ c with inbuf := inbuf }, .error) := hbad
  rw [readFrames, hloop]
  rfl

/-- The read event takes one message, and goes on behind it unless it was the answer to the ping or no
response at all. -/
theorem readFrames_frame (c : Conn) (hscan : frameScan values = .frame msg rest) :
    readFrames lib { c with inbuf := values } =
      match connParseMsg lib { c with trace := c.trace ++ [.consumed msg] } msg with
      | (c, .success, some p) =>
        if c.pingtxn = some p then (connCleanupPing lib (c.behind [] [] rest), .cleaning .reply)
        else readFrames lib (transCompleted (c.behind [] [] rest) p)
      | (c, .error, _) => (readEnded lib ⟨c, rest, true⟩, .delivering)
      | (c, _, _) => readFrames lib (c.behind [] [] rest) := by
  have hframe := @readLoop_frame lib { c with inbuf := values } msg rest values.length hscan
  have hparse : connParseMsg lib { c with inbuf := rest, trace := c.trace ++ [.consumed msg] } msg =
      ((connParseMsg lib { c with trace := c.trace ++ [.consumed msg] } msg).1.behind [] [] rest,
        (connParseMsg lib { c with trace := c.trace ++ [.consumed msg] } msg).2) :=
    connParseMsg_behind lib { c with trace := c.trace ++ [.consumed msg] } msg [] [] rest
  have hloop : readLoop lib (values.length + 1) { c with inbuf := values } = _ := hframe
  have hshort : rest.length < values.length := frameScanner.frame_shorter values msg rest hscan
  rw [hparse] at hloop
  rw [readFrames, hloop]
  rcases connParseMsg lib { c with trace := c.trace ++ [.consumed msg] } msg with ⟨c', err, q⟩
  have hagain : ∀ (c : Conn) (fuel : ℕ), c.inbuf = rest → values.length ≤ fuel →
      readLoop lib fuel c = readLoop lib (c.inbuf.length + 1) c :=
    fun c fuel hinbuf hfuel => readLoop_fuel fuel _ c (by rw [hinbuf]; omega) (Nat.lt_succ_self _)
  cases err with
  | error => rfl
  | wait =>
    dsimp only
    rw [hagain (c'.behind [] [] rest) (values.length + 1) rfl (Nat.le_succ _)]
    rfl
  | success =>
    cases q with
    | none =>
      dsimp only
      rw [hagain (c'.behind [] [] rest) (values.length + 1) rfl (Nat.le_succ _)]
      rfl
    | some p =>
      have hping : (c'.behind [] [] rest).pingtxn = c'.pingtxn := rfl
      dsimp only
      rw [hping]
      by_cases hreply : c'.pingtxn = some p
      · rw [if_pos hreply, if_pos hreply]
      · rw [if_neg hreply, if_neg hreply]
        rw [hagain (transCompleted (c'.behind [] [] rest) p) values.length (transCompleted_inbuf _ p) le_rfl]
        rfl

end Frames

section Settles

variable {lib} {net : NetOutcome} {s s' s'' : Sys}

/-- A handler settles in one state only. -/
theorem Settles.unique (h : Settles lib net s s') (h' : Settles lib net s s'') : s' = s'' := by
  induction h with
  | idle s hidle =>
    cases h' with
    | idle _ _ => rfl
    | step _ _ _ hbusy _ _ => exact absurd hidle hbusy
  | step s mid s' hbusy hstep _ ih =>
    cases h' with
    | idle _ hidle => exact absurd hidle hbusy
    | step _ mid' _ _ hstep' hrest =>
      obtain rfl := Option.some.inj (hstep.symm.trans hstep')
      exact ih hrest

/-- A handler settles by a run of the library. -/
theorem Settles.run (h : Settles lib net s s') : ∃ actions, (monetra lib).run s actions = some s' := by
  induction h with
  | idle s _ => exact ⟨[], rfl⟩
  | step s mid s' _ hstep _ ih =>
    obtain ⟨actions, hrun⟩ := ih
    refine ⟨s.handlerAction net :: actions, ?_⟩
    rw [System.run, Option.bind_eq_some_iff]
    exact ⟨mid, hstep, hrun⟩

/-- The answer to the ping brings the connection up. -/
theorem pingAnswered_shape (c : Conn) (hbusy : c.inUse = true) :
    ∃ st outbuf timer trigger, pingAnswered lib c = { c with
      toTransStore := st
      status := .connected
      outbuf := outbuf
      timer := timer
      writeTrigger := trigger } := by
  obtain ⟨st, hclean, -⟩ := connCleanupPing_shape lib c hbusy
  obtain ⟨_, _, _, _, _, hup, -⟩ :=
    connEventSetConnected_shape lib { connCleanupPing lib c with pingtxn := none }
  rw [pingAnswered, hup, hclean]
  exact ⟨_, _, _, _, rfl⟩

/-- A message changes the transactions and what goes out, and may bring the connection up. -/
theorem takeMsg_shape (c : Conn) (hbusy : c.inUse = true) (msg : Bytes) :
    ∃ st status outbuf timer trigger, (takeMsg lib c msg).1 = { c with
      toTransStore := st
      status := status
      outbuf := outbuf
      timer := timer
      writeTrigger := trigger } ∧ (status = c.status ∨ status = .connected) := by
  obtain ⟨st, hparse⟩ := connParseMsg_shape lib { c with trace := c.trace ++ [.consumed msg] } msg
  rcases hres : connParseMsg lib { c with trace := c.trace ++ [.consumed msg] } msg with ⟨c', err, q⟩
  rw [hres] at hparse
  dsimp only at hparse
  subst hparse
  unfold takeMsg
  rw [hres]
  cases err with
  | error => exact ⟨_, _, _, _, _, rfl, Or.inl rfl⟩
  | wait => exact ⟨_, _, _, _, _, rfl, Or.inl rfl⟩
  | success =>
    cases q with
    | none => exact ⟨_, _, _, _, _, rfl, Or.inl rfl⟩
    | some p =>
      dsimp only
      split
      · obtain ⟨st', outbuf, timer, trigger, heq⟩ := @pingAnswered_shape lib { c with toTransStore := st } hbusy
        rw [heq]
        exact ⟨_, _, _, _, _, rfl, Or.inr rfl⟩
      · unfold transCompleted
        dsimp only
        split <;> exact ⟨_, _, _, _, _, rfl, Or.inl rfl⟩

/-- The handler leaves the lock to clean up the ping, and reads on when it is back. -/
theorem settles_ping (c : Conn) (callers : ℕ) (connecting : Option Connector) (hlive : c.freed = false)
    (hbusy : c.inUse = true)
    (h : Settles lib net ⟨(readFrames lib (pingAnswered lib c)).1, (readFrames lib (pingAnswered lib c)).2,
      callers, connecting⟩ s') :
    Settles lib net ⟨connCleanupPing lib c, .cleaning .reply, callers, connecting⟩ s' := by
  obtain ⟨_, hclean, -⟩ := connCleanupPing_shape lib c hbusy
  have hfree : ¬(connCleanupPing lib c).freed = true := by
    rw [hclean, Bool.not_eq_true]
    exact hlive
  have hstep : sysStep lib ⟨connCleanupPing lib c, .cleaning .reply, callers, connecting⟩ .resume =
      some ⟨(readFrames lib (pingAnswered lib c)).1, (readFrames lib (pingAnswered lib c)).2, callers,
        connecting⟩ := by
    rw [sysStep, if_neg hfree]
    rfl
  exact .step _ _ _ (by simp) hstep h

/-- The read event takes the messages off `inbuf` one after the other, and resumes behind the ping. -/
theorem settles_readFrames (c : Conn) (values : Bytes) (callers : ℕ) (connecting : Option Connector)
    (hlive : c.freed = false) (hbusy : c.inUse = true)
    (h : Settles lib net ⟨readEnded lib (drive frameScanner (takeMsg lib) c values), .delivering, callers,
      connecting⟩ s') :
    Settles lib net ⟨(readFrames lib { c with inbuf := values }).1,
      (readFrames lib { c with inbuf := values }).2, callers, connecting⟩ s' := by
  fun_induction drive frameScanner (takeMsg lib) c values with
  | case1 c values hscan =>
    rw [readFrames_wait c hscan]
    exact h
  | case2 c values hscan =>
    rw [readFrames_bad c hscan]
    exact h
  | case3 c values msg rest hscan hok ih =>
    obtain ⟨st, status, outbuf, timer, trigger, hshape, -⟩ := @takeMsg_shape lib c hbusy msg
    have hrest := ih (by rw [hshape]; exact hlive) (by rw [hshape]; exact hbusy) h
    rw [readFrames_frame c hscan]
    obtain ⟨st', hparse⟩ := connParseMsg_shape lib { c with trace := c.trace ++ [.consumed msg] } msg
    rcases hres : connParseMsg lib { c with trace := c.trace ++ [.consumed msg] } msg with ⟨c', err, q⟩
    rw [hres] at hparse
    unfold takeMsg at hok hrest
    rw [hres] at hok hrest
    cases err with
    | error => cases hok
    | wait => exact hrest
    | success =>
      cases q with
      | none => exact hrest
      | some p =>
        dsimp only at hrest ⊢
        by_cases hreply : c'.pingtxn = some p
        · rw [if_pos hreply] at hrest ⊢
          dsimp only at hparse
          subst hparse
          refine settles_ping _ callers connecting hlive hbusy ?_
          have hsame : pingAnswered lib (({ c with toTransStore := st' } : Conn).behind [] [] rest) =
              (pingAnswered lib { c with toTransStore := st' }).behind [] [] rest :=
            unaware_pingAnswered lib { c with toTransStore := st' } [] [] rest
          rw [hsame]
          exact hrest
        · rw [if_neg hreply] at hrest ⊢
          have hsame : transCompleted (c'.behind [] [] rest) p = (transCompleted c' p).behind [] [] rest :=
            unaware_transCompleted p c' [] [] rest
          rw [hsame]
          exact hrest
  | case4 c values msg rest hscan hok =>
    rw [readFrames_frame c hscan]
    rcases hres : connParseMsg lib { c with trace := c.trace ++ [.consumed msg] } msg with ⟨c', err, q⟩
    unfold takeMsg at hok h
    rw [hres] at hok h
    cases err with
    | error => exact h
    | wait => exact absurd rfl hok
    | success =>
      cases q with
      | none => exact absurd rfl hok
      | some p =>
        dsimp only at hok
        split at hok <;> exact absurd rfl hok

/-- What `LM_conn_connect` leaves when the handler reconnects. -/
def reconnected (lib : Mstdlib) (net : NetOutcome) (c : Conn) : Conn :=
  match connConnectBegin lib c net with
  | (c, .failed) => c
  | (c, _) => (connConnectFinish c net.eventAdd).1

/-- A connection after its events have been delivered. -/
def Conn.delivered (c : Conn) : Conn :=
  { c with events := [], trace := c.trace ++ c.events.map .callback }

/-- What a handler leaves, from the delivery of its events on. -/
def handlerLeft (lib : Mstdlib) (net : NetOutcome) (c : Conn) : Conn :=
  let r := handlerDrain lib c.delivered
  if r.2 = .reconnecting true then reconnected lib net r.1 else r.1

/-- A reconnection leaves the connection object alive. -/
theorem reconnected_kept (lib : Mstdlib) (net : NetOutcome) (c : Conn) :
    (reconnected lib net c).freed = c.freed ∧ (reconnected lib net c).destroy = c.destroy := by
  obtain ⟨io, tlsctx, error, hbegin⟩ := connConnectBegin_spec lib c net
  obtain ⟨io', status, error', hfinish, -⟩ := connConnectFinish_spec (connConnectBegin lib c net).1 net.eventAdd
  rcases hres : connConnectBegin lib c net with ⟨begun, progress⟩
  rw [hres] at hbegin hfinish
  have hfreed : begun.freed = c.freed := by simpa using congrArg Conn.freed hbegin
  have hdestroy : begun.destroy = c.destroy := by simpa using congrArg Conn.destroy hbegin
  unfold reconnected
  rw [hres]
  cases progress with
  | failed => exact ⟨hfreed, hdestroy⟩
  | inCallback | register =>
    dsimp only at hfinish ⊢
    rw [hfinish]
    exact ⟨hfreed, hdestroy⟩

/-- A handler that has nothing left to do returns. -/
theorem settles_finish (c : Conn) (pc : Pc) (callers : ℕ) (connecting : Option Connector)
    (hpc : pc = .reconnecting false ∨ pc = .finishing) (hlive : c.freed = false)
    (hkept : c.destroy = false) :
    Settles lib net ⟨c, pc, callers, connecting⟩ ⟨c, .idle, callers, connecting⟩ := by
  have hstep : sysStep lib ⟨c, pc, callers, connecting⟩ .finish =
      some ⟨c, .idle, callers, connecting⟩ := by
    rw [sysStep]
    simp only [hlive, hkept, hpc, if_true, Bool.false_eq_true, if_false]
  have hbusy : pc ≠ .idle := by
    rcases hpc with rfl | rfl <;> exact Pc.noConfusion
  have haction : Sys.handlerAction net ⟨c, pc, callers, connecting⟩ = .finish := by
    rcases hpc with rfl | rfl <;> rfl
  exact .step _ _ _ hbusy (haction ▸ hstep) (.idle _ rfl)

/-- A handler that has drained reconnects, or does not, and returns. -/
theorem settles_drained (c : Conn) (request : Bool) (callers : ℕ) (connecting : Option Connector)
    (hlive : c.freed = false) (hkept : c.destroy = false) :
    ∃ connecting', Settles lib net ⟨c, .reconnecting request, callers, connecting⟩
      ⟨if request then reconnected lib net c else c, .idle, callers, connecting'⟩ := by
  cases request with
  | false => exact ⟨connecting, settles_finish c _ callers connecting (Or.inl rfl) hlive hkept⟩
  | true =>
    obtain ⟨hlive', hkept'⟩ := reconnected_kept lib net c
    have hstep : sysStep lib ⟨c, .reconnecting true, callers, connecting⟩ (.reconnect net) =
        some { (enterConnect lib ⟨c, .reconnecting true, callers, connecting⟩ net .handler).1 with
          pc := if (enterConnect lib ⟨c, .reconnecting true, callers, connecting⟩ net .handler).2
            then .awaiting else .finishing } := by
      rw [sysStep]
      simp only [hlive, Bool.false_eq_true, if_false, if_true]
    rcases hres : connConnectBegin lib c net with ⟨begun, progress⟩
    unfold reconnected at hlive' hkept' ⊢
    rw [hres] at hlive' hkept' ⊢
    unfold enterConnect at hstep
    rw [hres] at hstep
    cases progress with
    | failed =>
      exact ⟨connecting, .step _ _ _ Pc.noConfusion hstep
        (settles_finish begun .finishing callers connecting (Or.inr rfl) (hlive'.trans hlive)
          (hkept'.trans hkept))⟩
    | register =>
      exact ⟨connecting, .step _ _ _ Pc.noConfusion hstep
        (settles_finish _ .finishing callers connecting (Or.inr rfl) (hlive'.trans hlive)
          (hkept'.trans hkept))⟩
    | inCallback =>
      obtain ⟨io, status, error, hfinish, -⟩ := connConnectFinish_spec begun net.eventAdd
      have hopen : begun.freed = false := by
        rw [← hlive, ← hlive']
        exact (congrArg Conn.freed hfinish).symm
      have hregister : sysStep lib ⟨begun, .awaiting, callers, some .handler⟩
          (.connectFinish net.eventAdd) =
          some ⟨(connConnectFinish begun net.eventAdd).1, .finishing, callers, none⟩ := by
        rw [sysStep]
        simp only [hopen, Bool.false_eq_true, if_false, if_true]
      exact ⟨none, .step _ _ _ Pc.noConfusion hstep (.step _ _ _ Pc.noConfusion hregister
        (settles_finish _ .finishing callers none (Or.inr rfl) (hlive'.trans hlive)
          (hkept'.trans hkept)))⟩

/-- A handler delivers its events, drains the deferred deletions, reconnects if a request waits on a
connection that is down, and returns. -/
theorem settles_delivering (c : Conn) (callers : ℕ) (connecting : Option Connector)
    (hlive : c.freed = false) (hkept : c.destroy = false) :
    ∃ connecting', Settles lib net ⟨c, .delivering, callers, connecting⟩
      ⟨handlerLeft lib net c, .idle, callers, connecting'⟩ := by
  induction hevents : c.events generalizing c with
  | nil =>
    have hstep : sysStep lib ⟨c, .delivering, callers, connecting⟩ .drain =
        some ⟨(handlerDrain lib c).1, (handlerDrain lib c).2, callers, connecting⟩ := by
      rw [sysStep]
      simp only [hlive, hevents, Bool.false_eq_true, if_false, true_and, if_true]
    have hdelivered : c.delivered = c := by
      obtain ⟨⟨⟩⟩ := c
      obtain rfl : _ = [] := hevents
      simp [Conn.delivered]
    obtain ⟨st, timer, heq, -⟩ := drainDelayRm_spec lib c.transDelayRm c rfl
    have hleft : handlerLeft lib net c =
        if (decide ((handlerDrain lib c).1.status = .disconnected ∧ (handlerDrain lib c).1.transReady ≠ []))
          then reconnected lib net (handlerDrain lib c).1 else (handlerDrain lib c).1 := by
      rw [handlerLeft, hdelivered]
      simp only [handlerDrain, Pc.reconnecting.injEq]
      rfl
    obtain ⟨connecting', hrest⟩ := @settles_drained lib net (handlerDrain lib c).1
      ((handlerDrain lib c).1.status = .disconnected ∧ (handlerDrain lib c).1.transReady ≠ [])
      callers connecting (by simp [handlerDrain, heq, hlive]) (by simp [handlerDrain, heq, hkept])
    have haction : Sys.handlerAction net ⟨c, .delivering, callers, connecting⟩ = .drain := by
      simp [Sys.handlerAction, hevents]
    rw [hleft]
    exact ⟨connecting', .step _ _ _ Pc.noConfusion (haction ▸ hstep) hrest⟩
  | cons e rest ih =>
    have hstep : sysStep lib ⟨c, .delivering, callers, connecting⟩ .deliver =
        some ⟨{ c with events := rest, trace := c.trace ++ [.callback e] }, .callback, callers,
          connecting⟩ := by
      rw [sysStep]
      simp only [hlive, hevents, Bool.false_eq_true, if_false]
    have hback : sysStep lib ⟨{ c with events := rest, trace := c.trace ++ [.callback e] }, .callback,
        callers, connecting⟩ .callbackReturn =
        some ⟨{ c with events := rest, trace := c.trace ++ [.callback e] }, .delivering, callers,
          connecting⟩ := by
      rw [sysStep]
      simp only [hlive, hkept, Bool.false_eq_true, if_false, if_true]
    have hdelivered : c.delivered =
        ({ c with events := rest, trace := c.trace ++ [.callback e] } : Conn).delivered := by
      simp [Conn.delivered, hevents]
    have haction : Sys.handlerAction net ⟨c, .delivering, callers, connecting⟩ = .deliver := by
      simp [Sys.handlerAction, hevents]
    obtain ⟨connecting', hrest⟩ := ih { c with events := rest, trace := c.trace ++ [.callback e] }
      hlive hkept rfl
    rw [handlerLeft, hdelivered]
    exact ⟨connecting', .step _ _ _ Pc.noConfusion (haction ▸ hstep)
      (.step _ _ _ Pc.noConfusion hback hrest)⟩

end Settles

end LibMonetra
