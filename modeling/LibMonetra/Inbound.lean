import LibMonetra.Link
import LibMonetra.Wire

/-!
# What comes off the connection

Which functions of the library take messages off `inbuf`, and that they take whole frames off its
front. All others leave both `inbuf` and the record of what came in alone.
-/

namespace LibMonetra

open Foundation

variable {lib : Mstdlib}

/-- Whether a record is about a new transaction or a message that came in. -/
def Obs.inbound : Obs → Bool
  | .created _ _ | .consumed _ => true
  | _ => false

/-- The part of a record about new transactions and messages. -/
def inboundOf (trace : List Obs) : List Obs := trace.filter Obs.inbound

/-- The messages that were taken off the connection, in order. -/
def consumedOf (trace : List Obs) : List Bytes :=
  trace.filterMap fun o => match o with
    | .consumed msg => some msg
    | _ => none

@[simp] theorem inboundOf_append (trace later : List Obs) :
    inboundOf (trace ++ later) = inboundOf trace ++ inboundOf later := List.filter_append ..

/-- The messages are among what came in. -/
theorem consumedOf_inboundOf (trace : List Obs) : consumedOf (inboundOf trace) = consumedOf trace := by
  rw [consumedOf, inboundOf, List.filterMap_filter]
  congr 1
  funext o
  cases o <;> rfl

/-- A piece of the library that leaves the connection and what it has received alone. -/
structure Silent (c c' : Conn) : Prop where
  inbound : inboundOf c'.trace = inboundOf c.trace
  inbuf : c'.inbuf = c.inbuf
  io : c'.io = c.io
  status : c'.status = .connecting → c.status = .connecting

/-- A piece of the library that gave up the connection, and what it had received with it. -/
structure Lost (c : Conn) : Prop where
  inbuf : c.inbuf = []
  io : c.io = none
  status : c.status ≠ .connecting

/-- Doing nothing is silent. -/
theorem Silent.refl (c : Conn) : Silent c c := ⟨rfl, rfl, rfl, id⟩

/-- Two silent pieces are one. -/
theorem Silent.trans {c c' c'' : Conn} (h : Silent c c') (h' : Silent c' c'') : Silent c c'' :=
  ⟨h'.inbound.trans h.inbound, h'.inbuf.trans h.inbuf, h'.io.trans h.io, h.status ∘ h'.status⟩

/-- An I/O object that is the same as far as its progress goes, or that has just come up. -/
structure IoKept (io io' : Option Io) : Prop where
  registered : io'.map Io.registered = io.map Io.registered
  up : io.any Io.up = true → io'.any Io.up = true
  cameUp : io'.any Io.up = true → io.any Io.up = true ∨ io.any Io.registered = true

/-- An I/O object is as it is. -/
theorem IoKept.refl (io : Option Io) : IoKept io io := ⟨rfl, id, Or.inl⟩

/-- An I/O object that can come up may do so. -/
theorem ioKept_up {io : Option Io} (h : (io.any fun io => io.registered && !io.up) = true) :
    IoKept io (io.map fun io => { io with up := true }) := by
  cases io with
  | none => cases h
  | some io =>
    simp only [Option.any_some, Bool.and_eq_true] at h
    exact ⟨rfl, fun _ => rfl, fun _ => Or.inr h.1⟩

section Silent

variable (lib) (c : Conn) (p : Ptr)

theorem silent_connEventAdd (type : EventType) (q : Option Ptr) :
    Silent c { c with toTransStore := c.toTransStore.connEventAdd type q } :=
  ⟨by simp [TransStore.connEventAdd, inboundOf, Obs.inbound], rfl, rfl, id⟩

theorem silent_transStructure : Silent c (transStructure lib c p) := by
  unfold transStructure
  split
  · exact .refl c
  · exact ⟨by simp [inboundOf, Obs.inbound], rfl, rfl, id⟩

theorem silent_armTimeoutTimer : Silent c (armTimeoutTimer c p) := by
  unfold armTimeoutTimer
  split
  · exact .refl c
  · split <;> exact ⟨rfl, rfl, rfl, id⟩

theorem silent_markPending : Silent c (markPending c p) := by
  unfold markPending
  split <;> exact ⟨rfl, rfl, rfl, id⟩

theorem silent_sendMessagesLoop (ready : List Ptr) : Silent c (sendMessagesLoop lib ready c) := by
  induction ready generalizing c with
  | nil => exact .refl c
  | cons p rest ih =>
    have hmark := silent_markPending { c with transReady := rest } p
    have hframe := silent_transStructure lib (markPending { c with transReady := rest } p) p
    have harm := silent_armTimeoutTimer
      (transStructure lib (markPending { c with transReady := rest } p) p) p
    obtain ⟨hin, hbuf, hio, hstatus⟩ := (hmark.trans hframe).trans harm
    have hmoved : Silent c { armTimeoutTimer (transStructure lib
        (markPending { c with transReady := rest } p) p) p with
          transPending := (armTimeoutTimer (transStructure lib
            (markPending { c with transReady := rest } p) p) p).transPending ++ [p] } :=
      ⟨hin, hbuf, hio, hstatus⟩
    exact hmoved.trans (ih _)

theorem silent_transSendMessages : Silent c (transSendMessages lib c).1 := by
  unfold transSendMessages
  split
  · exact .refl c
  · split
    · exact .refl c
    · obtain ⟨hin, hbuf, hio, hstatus⟩ := silent_sendMessagesLoop lib c c.transReady
      exact ⟨hin, hbuf, hio, hstatus⟩

theorem silent_transSend : Silent c (transSend lib c p).conn := by
  unfold transSend
  split
  · exact .refl c
  · rename_i t ht
    split
    · exact .refl c
    · have haccept : Silent c { c with
          heap := Function.update c.heap p (some { t with status := .ready })
          transNew := c.transNew.erase p
          transReady := c.transReady ++ [p]
          trace := c.trace ++ [.accepted p] } :=
        ⟨by simp [inboundOf, Obs.inbound], rfl, rfl, id⟩
      exact haccept.trans (silent_transSendMessages lib _)

theorem silent_transDeleteUnlocked : Silent c (transDeleteUnlocked lib c p) := by
  unfold transDeleteUnlocked
  split
  · exact .refl c
  · exact ⟨by simp [inboundOf, Obs.inbound, timerReset], rfl, rfl, id⟩

theorem silent_transDelete : Silent c (transDelete lib c p) := by
  unfold transDelete
  split
  · exact .refl c
  · rename_i t ht
    have hlog : Silent c
        { c with toTransStore := (c.toTransStore.killTimeoutTimer p t).log (.deleted p) } :=
      ⟨by simp [inboundOf, Obs.inbound, TransStore.log], rfl, rfl, id⟩
    simp only
    split
    · exact ⟨hlog.inbound, rfl, rfl, id⟩
    · exact hlog.trans (silent_transDeleteUnlocked lib _ p)

theorem silent_drainDelayRm (delayed : List Ptr) : Silent c (drainDelayRm lib delayed c) := by
  induction delayed generalizing c with
  | nil => exact .refl c
  | cons p rest ih =>
    obtain ⟨hin, hbuf, hio, hstatus⟩ := silent_transDeleteUnlocked lib { c with transDelayRm := rest } p
    exact Silent.trans ⟨hin, hbuf, hio, hstatus⟩ (ih _)

theorem silent_connCleanupPing : Silent c (connCleanupPing lib c) := by
  unfold connCleanupPing
  simp only
  split
  · exact ⟨rfl, rfl, rfl, id⟩
  · rename_i p hp
    obtain ⟨hin, hbuf, hio, hstatus⟩ := silent_transDelete lib
      { c with timer := none, transPending := c.transPending.erase p } p
    exact ⟨hin, hbuf, hio, hstatus⟩

theorem silent_noconnectEvents (ready : List Ptr) : Silent c (noconnectEvents ready c) := by
  induction ready generalizing c with
  | nil => exact .refl c
  | cons p rest ih => exact (silent_connEventAdd c .transNoconnect (some p)).trans (ih _)

theorem silent_failPending : Silent c (failPending c p) := by
  unfold failPending
  split
  · exact .refl c
  · exact ⟨by simp [inboundOf, Obs.inbound, TransStore.connEventAdd], rfl, rfl, id⟩

theorem silent_failPendingLoop (pending : List Ptr) : Silent c (failPendingLoop pending c) := by
  induction pending generalizing c with
  | nil => exact .refl c
  | cons p rest ih =>
    obtain ⟨hin, hbuf, hio, hstatus⟩ := silent_failPending { c with transPending := rest } p
    exact Silent.trans ⟨hin, hbuf, hio, hstatus⟩ (ih _)

theorem silent_connEventSetConnected : Silent c (connEventSetConnected lib c) := by
  have hevent := silent_connEventAdd { c with status := .connected } .connConnected none
  obtain ⟨hin, hbuf, hio, hstatus⟩ := hevent.trans (silent_transSendMessages lib _)
  exact ⟨hin, hbuf, hio, fun hst => ConnStatus.noConfusion (hstatus hst)⟩

theorem silent_transCompleted : Silent c (transCompleted c p) := by
  unfold transCompleted
  simp only
  split <;> exact ⟨by simp [inboundOf, Obs.inbound, TransStore.connEventAdd], rfl, rfl, id⟩

/-- `LM_conn_disconnect_connlocked` only marks the I/O object. -/
theorem connDisconnectConnlocked_eq : ∃ io status,
    (connDisconnectConnlocked c).1 = { c with io := io, status := status } ∧ IoKept c.io io ∧
      (status = .connecting → c.status = .connecting) := by
  unfold connDisconnectConnlocked
  split
  · exact ⟨c.io, c.status, rfl, .refl _, id⟩
  · rename_i io hio
    split
    · exact ⟨_, _, rfl, ⟨by simp [hio], by simp [hio], fun hup => Or.inl (by simpa [hio] using hup)⟩,
        fun hst => ConnStatus.noConfusion hst⟩
    · exact ⟨c.io, c.status, rfl, .refl _, id⟩

/-- A failed connection is given up together with what it had received. -/
theorem connEventHandleConnError_lost (failure : IoFailure) :
    inboundOf (connEventHandleConnError c failure).trace = inboundOf c.trace ∧
      Lost (connEventHandleConnError c failure) := by
  have hloops := fun (d : Conn) ready type =>
    ((silent_noconnectEvents d ready).trans (silent_failPendingLoop _
      (noconnectEvents ready d).transPending)).trans (silent_connEventAdd _ type none)
  obtain ⟨hin, hbuf, hio, hstatus⟩ := hloops { c with
    io := none
    writeTrigger := none
    status := .disconnected
    outbuf := []
    inbuf := []
    timer := none } (if c.status = .idleTimeout then [] else c.transReady)
      (if failure = .disconnected ∨ c.status = .disconnecting ∨ c.status = .idleTimeout then
        .connDisconnect else .connError)
  exact ⟨hin, hbuf, hio, fun hst => ConnStatus.noConfusion (hstatus hst)⟩

end Silent

/-- A piece of the library that took some messages off the front of `inbuf`, whole frames at a time. -/
structure Took (c c' : Conn) (msgs : List Bytes) : Prop where
  inbound : inboundOf c'.trace = inboundOf c.trace ++ msgs.map .consumed
  plain : ∀ msg ∈ msgs, etx ∉ msg
  bytes : c.inbuf = msgs.flatMap frameOf ++ c'.inbuf
  io : c'.io = c.io
  status : c'.status = .connecting → c.status = .connecting

/-- A locked piece of the handler that did the same, and may have given up the connection. -/
structure Received (c : Conn) (r : Conn × Pc) (msgs : List Bytes) : Prop where
  inbound : inboundOf r.1.trace = inboundOf c.trace ++ msgs.map .consumed
  plain : ∀ msg ∈ msgs, etx ∉ msg
  bytes : ∃ rest, c.inbuf = msgs.flatMap frameOf ++ rest ∧
    ((r.1.inbuf = rest ∧ r.1.io = c.io ∧ (r.1.status = .connecting → c.status = .connecting)) ∨
      (Lost r.1 ∧ r.2 = .delivering))

section Taking

variable {c c' c'' : Conn} {msgs msgs' : List Bytes}

/-- A silent piece took nothing. -/
theorem Silent.took (h : Silent c c') : Took c c' [] :=
  ⟨by simp [h.inbound], by simp, by simp [h.inbuf], h.io, h.status⟩

/-- Two pieces took the messages of both. -/
theorem Took.trans (h : Took c c' msgs) (h' : Took c' c'' msgs') : Took c c'' (msgs ++ msgs') where
  inbound := by rw [h'.inbound, h.inbound, List.map_append, List.append_assoc]
  plain := by
    intro msg hmsg
    exact (List.mem_append.mp hmsg).elim (h.plain msg) (h'.plain msg)
  bytes := by rw [List.flatMap_append, List.append_assoc, ← h'.bytes, ← h.bytes]
  io := h'.io.trans h.io
  status := h.status ∘ h'.status

/-- A piece that kept the connection. -/
theorem Took.received (h : Took c c' msgs) (pc : Pc) : Received c (c', pc) msgs :=
  ⟨h.inbound, h.plain, c'.inbuf, h.bytes, Or.inl ⟨rfl, h.io, h.status⟩⟩

/-- A piece that gave up the connection. -/
theorem Took.lost (h : Took c c' msgs) (hin : inboundOf c''.trace = inboundOf c'.trace)
    (hlost : Lost c'') : Received c (c'', .delivering) msgs :=
  ⟨hin.trans h.inbound, h.plain, c'.inbuf, h.bytes, Or.inr ⟨hlost, rfl⟩⟩

/-- A piece that starts where another has stopped. -/
theorem Took.trans_received {r : Conn × Pc} (h : Took c c' msgs) (h' : Received c' r msgs') :
    Received c r (msgs ++ msgs') := by
  obtain ⟨rest, hrest, hend⟩ := h'.bytes
  refine ⟨?_, ?_, rest, ?_, hend.imp_left ?_⟩
  · rw [h'.inbound, h.inbound, List.map_append, List.append_assoc]
  · intro msg hmsg
    exact (List.mem_append.mp hmsg).elim (h.plain msg) (h'.plain msg)
  · rw [List.flatMap_append, List.append_assoc, ← hrest, ← h.bytes]
  · rintro ⟨hbuf, hio, hstatus⟩
    exact ⟨hbuf, hio.trans h.io, h.status ∘ hstatus⟩

end Taking

section Reading

variable (lib)

/-- `LM_conn_parse_msg` takes nothing off the connection. -/
theorem connParseMsg_took (c : Conn) (msg : Bytes) : Took c (connParseMsg lib c msg).1 [] := by
  rcases connParseMsg_cases lib c msg with ⟨-, hres⟩ | ⟨tranId, data, q, -, hres, -⟩ |
      ⟨tranId, data, p, t, -, -, -, -, hres⟩
  · rw [hres]
    exact Silent.took ⟨rfl, rfl, rfl, id⟩
  · rw [hres]
    exact Silent.took ⟨rfl, rfl, rfl, id⟩
  · rw [hres]
    exact Silent.took ⟨by simp [inboundOf, Obs.inbound], rfl, rfl, id⟩

/-- `LM_conn_parse_trans_buffer` takes whole frames. When it fails, what it leaves in `inbuf` does
not matter. -/
theorem connParseTransBufferLoop_took (fuel : ℕ) (c : Conn) :
    ∃ msgs rest, Took c { (connParseTransBufferLoop lib fuel c).1 with inbuf := rest } msgs ∧
      ((connParseTransBufferLoop lib fuel c).2.1 ≠ .error →
        (connParseTransBufferLoop lib fuel c).1.inbuf = rest) := by
  induction fuel generalizing c with
  | zero => exact ⟨[], c.inbuf, Silent.took ⟨rfl, rfl, rfl, id⟩, fun _ => rfl⟩
  | succ fuel ih =>
    cases hscan : frameScan c.inbuf with
    | wait =>
      rw [connParseTransBufferLoop_wait lib (fuel + 1) hscan]
      exact ⟨[], c.inbuf, Silent.took ⟨rfl, rfl, rfl, id⟩, fun _ => rfl⟩
    | bad =>
      obtain ⟨inbuf, heq⟩ := connParseTransBufferLoop_bad lib fuel hscan
      rw [heq]
      exact ⟨[], c.inbuf, Silent.took ⟨rfl, rfl, rfl, id⟩, fun hne => absurd rfl hne⟩
    | frame msg rest =>
      obtain ⟨hmsg, -, hbuf⟩ := (frameScan_eq_frame_iff ..).mp hscan
      have hfirst : Took c { c with inbuf := rest, trace := c.trace ++ [.consumed msg] } [msg] :=
        ⟨by simp [inboundOf, Obs.inbound], by simpa using hmsg, by simpa using hbuf, rfl, id⟩
      have hparsed := hfirst.trans (connParseMsg_took lib _ msg)
      rw [connParseTransBufferLoop_frame lib fuel hscan]
      simp only
      split
      · obtain ⟨msgs, rest', htook, hrest⟩ := ih (connParseMsg lib
          { c with inbuf := rest, trace := c.trace ++ [.consumed msg] } msg).1
        exact ⟨_, rest', hparsed.trans htook, hrest⟩
      · exact ⟨_, _, hparsed, fun _ => rfl⟩

/-- The loop of the read event takes whole frames. -/
theorem readLoop_took (fuel : ℕ) (c : Conn) :
    ∃ msgs rest, Took c { (readLoop lib fuel c).1 with inbuf := rest } msgs ∧
      ((readLoop lib fuel c).2 ≠ .error → (readLoop lib fuel c).1.inbuf = rest) := by
  induction fuel generalizing c with
  | zero => exact ⟨[], c.inbuf, Silent.took ⟨rfl, rfl, rfl, id⟩, fun _ => rfl⟩
  | succ fuel ih =>
    obtain ⟨msgs, rest, htook, hrest⟩ := connParseTransBufferLoop_took lib (c.inbuf.length + 1) c
    rcases hres : connParseTransBuffer lib c with ⟨c', err, q⟩
    have hloop : connParseTransBufferLoop lib (c.inbuf.length + 1) c = (c', err, q) := hres
    rw [hloop] at htook hrest
    simp only at htook hrest
    rw [readLoop, hres]
    cases err with
    | error => exact ⟨msgs, rest, htook, fun hne => absurd rfl hne⟩
    | wait => exact ⟨msgs, rest, htook, fun _ => hrest (by decide)⟩
    | success =>
      have hsame : ({ c' with inbuf := rest } : Conn) = c' := by rw [← hrest (by decide)]
      rw [hsame] at htook
      cases q with
      | none => exact ⟨msgs, c'.inbuf, htook, fun _ => rfl⟩
      | some p =>
        simp only
        split
        · exact ⟨msgs, c'.inbuf, htook, fun _ => rfl⟩
        · have hdone := (silent_transCompleted c' p).took
          obtain ⟨msgs', rest', htook', hrest'⟩ := ih (transCompleted c' p)
          exact ⟨_, rest', (htook.trans hdone).trans htook', hrest'⟩

/-- The read event from some point of its loop on takes whole frames. -/
theorem readFrames_received (c : Conn) : ∃ msgs, Received c (readFrames lib c) msgs := by
  obtain ⟨msgs, rest, htook, hrest⟩ := readLoop_took lib (c.inbuf.length + 1) c
  unfold readFrames
  rcases hres : readLoop lib (c.inbuf.length + 1) c with ⟨c', stop⟩
  rw [hres] at htook hrest
  simp only at htook hrest
  have hsame : stop ≠ .error → Took c c' msgs := fun hne => by
    rw [← hrest hne] at htook
    exact htook
  cases stop with
  | ping =>
    have htaken := (hsame (by decide)).trans (silent_connCleanupPing lib c').took
    exact ⟨_, htaken.received _⟩
  | wait =>
    have htaken := hsame (by decide)
    have hstopped : Silent c' (timerReset lib c' (c'.transPending = [])) := ⟨rfl, rfl, rfl, id⟩
    exact ⟨_, (htaken.trans hstopped.took).received _⟩
  | error =>
    obtain ⟨hin, hlost⟩ := connEventHandleConnError_lost
      (setError (timerReset lib c' (c'.transPending = []))
        (ascii "Invalid response format received. Disconnect.")) .error
    simp only [if_true]
    exact ⟨msgs, htook.lost hin hlost⟩

end Reading

/-- The bytes that an event brings. -/
def IoEvent.chunk : IoEvent → Bytes
  | .read chunk => chunk
  | _ => []

/-- An I/O object that is past the callback of its creation. -/
def Io.started (io : Io) : Bool := io.registered || io.up

section Handler

variable (lib) (c : Conn)

/-- What the first piece of the handler does with the connection: it takes whole frames, gives up
only a connection that has been started, and waits for its ping to be cleaned up only on one. -/
structure Entered (c : Conn) (chunk : Bytes) (r : Conn × Pc) : Prop where
  received : ∃ io msgs, IoKept c.io io ∧
    Received { c with io := io, inbuf := c.inbuf ++ chunk } r msgs
  lost : r.1.io = none → c.io = none ∨ c.io.any Io.started = true
  cleaning : ∀ pingEnd, r.2 = .cleaning pingEnd → c.status = .connecting ∨ c.io.any Io.started = true

/-- A first piece that receives nothing and keeps the connection. -/
theorem Entered.of_silent {c c' : Conn} {io : Option Io} {pc : Pc} (hio : IoKept c.io io)
    (hsilent : Silent { c with io := io } c')
    (hpc : pc = .delivering ∨ c.status = .connecting ∨ c.io.any Io.started = true) :
    Entered c [] (c', pc) where
  received := by
    obtain ⟨hin, hbuf, hsame, hstatus⟩ := hsilent
    have htook : Took { c with io := io, inbuf := c.inbuf ++ [] } c' [] :=
      Silent.took ⟨hin, hbuf.trans (List.append_nil _).symm, hsame, hstatus⟩
    exact ⟨io, [], hio, htook.received pc⟩
  lost hnone := by
    refine Or.inl ?_
    have hmap := hio.registered
    rw [show io = none from hsilent.io.symm.trans hnone] at hmap
    simpa using hmap.symm
  cleaning pingEnd hcleaning := by
    refine hpc.resolve_left fun hdelivering => ?_
    rw [show pc = .cleaning pingEnd from hcleaning] at hdelivering
    cases hdelivering

/-- An I/O object that can deliver bytes has been started. -/
theorem started_of_up {io : Option Io} (h : io.any Io.up = true) : io.any Io.started = true := by
  cases io with
  | none => cases h
  | some io => simp_all [Io.started]

/-- A registered I/O object has been started. -/
theorem started_of_registered {io : Option Io} (h : io.any Io.registered = true) :
    io.any Io.started = true := by
  cases io with
  | none => cases h
  | some io => simp_all [Io.started]

/-- The first piece of the handler takes whole frames, unless it creates a ping. -/
theorem handlerEnter_entered (event : IoEvent) (r : Conn × Pc)
    (henabled : eventEnabled c event = true) (h : handlerEnter lib c event = some r)
    (hping : ∀ draws written, event = .connected draws written → c.disablePing = true) :
    Entered c event.chunk r := by
  have hcalm : ∀ c' : Conn, Silent c c' → Entered c [] (c', .delivering) :=
    fun c' hsilent => Entered.of_silent (.refl c.io) hsilent (Or.inl rfl)
  have hbusy : Silent c { c with inUse := true } := ⟨rfl, rfl, rfl, id⟩
  cases event with
  | connected draws written =>
    simp only [handlerEnter] at h
    rw [if_pos (hping draws written rfl), Option.some.injEq] at h
    subst h
    have hup : Silent { c with io := c.io.map fun io => { io with up := true } }
        { c with inUse := true, io := c.io.map fun io => { io with up := true } } :=
      ⟨rfl, rfl, rfl, id⟩
    refine Entered.of_silent (ioKept_up henabled) (hup.trans (silent_connCleanupPing lib _))
      (Or.inr (Or.inr (started_of_registered ?_)))
    simp only [eventEnabled, Option.any_eq_true, Bool.and_eq_true] at henabled ⊢
    obtain ⟨io, hio, hregistered, -⟩ := henabled
    exact ⟨io, hio, hregistered⟩
  | failed failure text =>
    simp only [handlerEnter, Option.some.injEq] at h
    subst h
    obtain ⟨hin, hlost⟩ := connEventHandleConnError_lost (setError { c with inUse := true }
      (if c.status = .idleTimeout then ascii "Idle connection timeout" else text)) failure
    have hentered : Took { c with inbuf := c.inbuf ++ [] } { c with inUse := true } [] :=
      Silent.took ⟨rfl, (List.append_nil _).symm, rfl, id⟩
    exact ⟨⟨c.io, [], .refl _, hentered.lost hin hlost⟩,
      fun _ => Or.inr (started_of_registered henabled), fun _ hpc => by cases hpc⟩
  | read chunk =>
    simp only [handlerEnter, Option.some.injEq] at h
    subst h
    obtain ⟨msgs, hin, hplain, hbytes⟩ := readFrames_received lib
      { c with inUse := true, inbuf := c.inbuf ++ chunk }
    have hstarted := started_of_up henabled
    exact ⟨⟨c.io, msgs, .refl _, hin, hplain, hbytes⟩, fun _ => Or.inr hstarted,
      fun _ _ => Or.inr hstarted⟩
  | readFailed =>
    simp only [handlerEnter, Option.some.injEq] at h
    subst h
    exact hcalm _ hbusy
  | write written =>
    simp only [handlerEnter, Option.some.injEq] at h
    subst h
    exact hcalm _ ⟨rfl, rfl, rfl, id⟩
  | timer =>
    simp only [handlerEnter] at h
    split at h
    · rename_i hconnecting
      simp only [Option.some.injEq] at h
      subst h
      exact Entered.of_silent (.refl c.io) (hbusy.trans (silent_connCleanupPing lib _))
        (Or.inr (Or.inl hconnecting))
    · split at h
      · simp only [Option.some.injEq] at h
        subst h
        obtain ⟨io, status, hclosing, hkept, -⟩ := connDisconnectConnlocked_eq { c with inUse := true }
        rw [hclosing]
        exact Entered.of_silent hkept ⟨rfl, rfl, rfl, fun hst => ConnStatus.noConfusion hst⟩ (Or.inl rfl)
      · simp only [Option.some.injEq] at h
        subst h
        exact hcalm _ ⟨rfl, rfl, rfl, id⟩
  | transTimer p =>
    simp only [handlerEnter] at h
    split at h
    · simp only [Option.some.injEq] at h
      subst h
      exact hcalm _ hbusy
    · simp only [Option.some.injEq] at h
      subst h
      exact hcalm _ ⟨by simp [TransStore.connEventAdd, inboundOf, Obs.inbound], rfl, rfl, id⟩

/-- The piece of the handler after `LM_conn_cleanup_ping` takes whole frames. -/
theorem handlerResume_received (pingEnd : PingEnd) :
    ∃ msgs, Received c (handlerResume lib c pingEnd) msgs := by
  have hforget : Silent c { c with pingtxn := none } := ⟨rfl, rfl, rfl, id⟩
  have hup := hforget.trans (silent_connEventSetConnected lib { c with pingtxn := none })
  cases pingEnd with
  | disabled =>
    have hdone : Silent (connEventSetConnected lib { c with pingtxn := none })
        { connEventSetConnected lib { c with pingtxn := none } with writeTrigger := some false } :=
      ⟨rfl, rfl, rfl, id⟩
    exact ⟨[], (hup.trans hdone).took.received _⟩
  | reply =>
    obtain ⟨msgs, hreceived⟩ := readFrames_received lib
      (connEventSetConnected lib { c with pingtxn := none })
    exact ⟨_, hup.took.trans_received hreceived⟩
  | timeout =>
    obtain ⟨hin, hbuf, hio, hstatus⟩ := connEventHandleConnError_lost
      (setError { c with pingtxn := none } (ascii "Failed to receive reply to PING request")) .error
    exact ⟨[], hforget.took.lost hin ⟨hbuf, hio, hstatus⟩⟩

end Handler

end LibMonetra
