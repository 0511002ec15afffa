import LibMonetra.ReadEvent

/-!
# A connection swept clean

Between two read events the handler delivers its events, frees the ping that has been answered and
resets the timer. What a message does to a connection depends neither on the record nor on the timer, and
an answered ping that waits to be freed is in nobody's way.
-/

namespace LibMonetra

open Foundation

variable (lib : Mstdlib)

/-- A connection without its record, its events, its timer and the bytes it has not read. -/
def Conn.bare (c : Conn) : Conn := { c with events := [], trace := [], timer := none, inbuf := [] }

/-- Two connections that differ in what has become of their events, in the timer and in the bytes that
they have not read. -/
structure Alike (c d : Conn) : Prop where
  bare : c.bare = d.bare
  events : eventsOf c.trace = eventsOf d.trace

/-- Connections that are alike, the other way round. -/
theorem Alike.symm {c d : Conn} (h : Alike c d) : Alike d c := ⟨h.bare.symm, h.events.symm⟩

/-- What is alike to the same is alike. -/
theorem Alike.trans {c d e : Conn} (h : Alike c d) (h' : Alike d e) : Alike c e :=
  ⟨h.bare.trans h'.bare, h.events.trans h'.events⟩

section Alike

variable {c d : Conn}

/-- The transactions of connections that are alike. -/
theorem Alike.heap (h : Alike c d) : c.heap = d.heap := congrArg (fun c => c.heap) h.bare

/-- The status of connections that are alike. -/
theorem Alike.status (h : Alike c d) : c.status = d.status := congrArg (fun c => c.status) h.bare

/-- The I/O object of connections that are alike. -/
theorem Alike.io (h : Alike c d) : c.io = d.io := congrArg (fun c => c.io) h.bare

/-- The requests that wait on connections that are alike. -/
theorem Alike.transReady (h : Alike c d) : c.transReady = d.transReady :=
  congrArg (fun c => c.transReady) h.bare

end Alike

section Message

variable (msg : Bytes)

/-- `LM_conn_parse_msg` does not look at the timer. -/
theorem connParseMsg_timer (c : Conn) (timer : Option Timer) :
    connParseMsg lib { c with timer := timer } msg =
      ({ (connParseMsg lib c msg).1 with timer := timer }, (connParseMsg lib c msg).2) := by
  unfold connParseMsg
  cases readMsg lib msg with
  | none => rfl
  | some read =>
    obtain ⟨tranId, data⟩ := read
    cases hmap : c.transIdMap tranId with
    | none => simp [hmap]
    | some p =>
      cases ht : c.heap p with
      | none => simp [hmap, ht]
      | some t => by_cases hst : t.status = .pending <;> simp [hmap, ht, hst]

/-- The timer goes with the ping. -/
theorem pingAnswered_timer (c : Conn) (timer : Option Timer) :
    pingAnswered lib { c with timer := timer } = pingAnswered lib c := by
  have hclean : connCleanupPing lib { c with timer := timer } = connCleanupPing lib c := rfl
  rw [pingAnswered, hclean, pingAnswered]

/-- What the read event does with a message depends on the timer as far as the timer goes. -/
theorem takeMsg_timer (c : Conn) (timer : Option Timer) : ∃ timer',
    takeMsg lib { c with timer := timer } msg =
      ({ (takeMsg lib c msg).1 with timer := timer' }, (takeMsg lib c msg).2) := by
  have hparse := connParseMsg_timer lib msg { c with trace := c.trace ++ [.consumed msg] } timer
  unfold takeMsg
  dsimp only at hparse ⊢
  rw [hparse]
  rcases connParseMsg lib { c with trace := c.trace ++ [.consumed msg] } msg with ⟨c', err, q⟩
  cases err with
  | error => exact ⟨timer, rfl⟩
  | wait => exact ⟨timer, rfl⟩
  | success =>
    cases q with
    | none => exact ⟨timer, rfl⟩
    | some p =>
      dsimp only
      split
      · rw [pingAnswered_timer]
        exact ⟨(pingAnswered lib c').timer, rfl⟩
      · refine ⟨timer, congrArg (·, true) ?_⟩
        cases ht : c'.heap p with
        | none => simp [transCompleted, TransStore.connEventAdd, ht]
        | some t =>
          rw [transCompleted_eq ht, @transCompleted_eq { c' with timer := timer } p t ht]

/-- What the read event does with a message, it does to the bare connection. -/
theorem takeMsg_bare (c : Conn) : (takeMsg lib c msg).1.bare = (takeMsg lib c.bare msg).1.bare ∧
    (takeMsg lib c msg).2 = (takeMsg lib c.bare msg).2 ∧
    (takeMsg lib c msg).1.trace = c.trace ++ (takeMsg lib c.bare msg).1.trace := by
  have hbehind : c = ({ c.bare with timer := c.timer } : Conn).behind c.trace c.events c.inbuf := by
    simp [Conn.behind, Conn.bare]
  obtain ⟨timer, htimer⟩ := takeMsg_timer lib msg c.bare c.timer
  have htake := takeMsg_behind lib { c.bare with timer := c.timer } msg c.trace c.events c.inbuf
  rw [← hbehind, htimer] at htake
  rw [htake]
  exact ⟨rfl, rfl, rfl⟩

/-- A message does the same to connections that are alike. -/
theorem Alike.takeMsg {c d : Conn} (h : Alike c d) :
    Alike (takeMsg lib c msg).1 (takeMsg lib d msg).1 ∧ (takeMsg lib c msg).2 = (takeMsg lib d msg).2 := by
  obtain ⟨hbare, hgoes, htrace⟩ := takeMsg_bare lib msg c
  obtain ⟨hbare', hgoes', htrace'⟩ := takeMsg_bare lib msg d
  refine ⟨⟨?_, ?_⟩, ?_⟩
  · rw [hbare, hbare', h.bare]
  · rw [htrace, htrace', eventsOf_append, eventsOf_append, h.events, h.bare]
  · rw [hgoes, hgoes', h.bare]

end Message

section Answers

variable {lib} {c : Conn} {msg data : Bytes} {tranId : ℕ} {p : Ptr} {t : Trans}

/-- A connection with a message taken off. -/
def Conn.heard (c : Conn) (msg : Bytes) : Conn := { c with trace := c.trace ++ [.consumed msg] }

/-- A connection with the answer of a transaction. -/
def Conn.answered (c : Conn) (p : Ptr) (t : Trans) (msg : Bytes) : Conn := { c with
  heap := Function.update c.heap p (some t)
  transPending := c.transPending.erase p
  transDone := c.transDone ++ [p]
  trace := c.trace ++ [.answered p .pending msg] }

/-- A message that cannot be read ends the connection. -/
theorem takeMsg_bad (hmsg : readMsg lib msg = none) : takeMsg lib c msg = (c.heard msg, false) := by
  unfold takeMsg connParseMsg
  rw [hmsg]
  rfl

/-- A message for no transaction that waits is skipped. -/
theorem takeMsg_orphan (hmsg : readMsg lib msg = some (tranId, data))
    (hnone : ∀ p t, c.transIdMap tranId = some p → c.heap p = some t → t.status ≠ .pending) :
    takeMsg lib c msg = (c.heard msg, true) := by
  unfold takeMsg connParseMsg
  rw [hmsg]
  cases hmap : c.transIdMap tranId with
  | none => simp [hmap, Conn.heard]
  | some p =>
    cases ht : c.heap p with
    | none => simp [hmap, ht, Conn.heard]
    | some t =>
      have hst := hnone p t hmap ht
      simp [hmap, ht, hst, Conn.heard]

/-- A message for a transaction that waits answers it. -/
theorem takeMsg_answer (hmsg : readMsg lib msg = some (tranId, data)) (hmap : c.transIdMap tranId = some p)
    (ht : c.heap p = some t) (hst : t.status = .pending) (hother : c.pingtxn ≠ some p) :
    takeMsg lib c msg =
      (transCompleted ((c.heard msg).answered p (storeResponse lib t data) msg) p, true) := by
  unfold takeMsg connParseMsg
  rw [hmsg]
  simp [hmap, ht, hst, hother, Conn.heard, Conn.answered]

/-- The answer to the ping brings the connection up. -/
theorem takeMsg_ping (hmsg : readMsg lib msg = some (tranId, data)) (hmap : c.transIdMap tranId = some p)
    (ht : c.heap p = some t) (hst : t.status = .pending) (hping : c.pingtxn = some p) :
    takeMsg lib c msg =
      (pingAnswered lib ((c.heard msg).answered p (storeResponse lib t data) msg), true) := by
  unfold takeMsg connParseMsg
  rw [hmsg]
  simp [hmap, ht, hst, hping, Conn.heard, Conn.answered]

end Answers

/-- A connection without a transaction that is done. -/
def Conn.sweep (c : Conn) (q : Ptr) (id : ℕ) : Conn := { c with
  heap := Function.update c.heap q none
  transDone := c.transDone.erase q
  transIdMap := Function.update c.transIdMap id none
  transDelayRm := [] }

/-- A transaction that is done and waits to be freed, and is the only one: the ping, after its answer. -/
structure Retired (c : Conn) (q : Ptr) (id : ℕ) : Prop where
  done : ∃ t, c.heap q = some t ∧ t.status = .done ∧ t.transId = id
  mapped : c.transIdMap id = some q
  away : q ∉ c.transPending
  delayed : c.transDelayRm = [q]
  answered : c.pingtxn = none

/-- A piece of the library that does not look at a transaction that is done and waits to be freed. -/
def Spares (q : Ptr) (id : ℕ) (f : Conn → Conn) : Prop :=
  ∀ c, Retired c q id → Retired (f c) q id ∧ (f c).sweep q id = f (c.sweep q id)

section Spares

variable {c : Conn} {p q : Ptr} {id : ℕ}

/-- Two such pieces are one. -/
theorem Spares.comp {f g : Conn → Conn} (hf : Spares q id f) (hg : Spares q id g) :
    Spares q id fun c => g (f c) := by
  intro c h
  obtain ⟨hfirst, hsame⟩ := hf c h
  obtain ⟨hsecond, hsame'⟩ := hg (f c) hfirst
  refine ⟨hsecond, ?_⟩
  dsimp only
  rw [hsame', hsame]

/-- A transaction that leaves the done ones does not move the one that joins them. -/
theorem erase_concat (done : List Ptr) (hne : p ≠ q) : (done ++ [p]).erase q = done.erase q ++ [p] := by
  rw [List.erase_append]
  split
  · rfl
  · rename_i hout
    rw [List.erase_of_not_mem hout, List.erase_of_not_mem]
    simpa using hne.symm

/-- An event is queued. -/
theorem spares_connEventAdd (type : EventType) (r : Option Ptr) :
    Spares q id fun c => { c with toTransStore := c.toTransStore.connEventAdd type r } :=
  fun _ h => ⟨⟨h.done, h.mapped, h.away, h.delayed, h.answered⟩, rfl⟩

/-- Another transaction is written. -/
theorem spares_update (hne : p ≠ q) (t : Trans) :
    Spares q id fun c => { c with heap := Function.update c.heap p (some t) } := by
  intro c h
  obtain ⟨u, hu, hdone⟩ := h.done
  refine ⟨⟨⟨u, (Function.update_of_ne hne.symm ..).trans hu, hdone⟩, h.mapped, h.away, h.delayed,
    h.answered⟩, ?_⟩
  simp only [Conn.sweep, Function.update_comm hne.symm]

/-- Another transaction is done. -/
theorem spares_transDone (hne : p ≠ q) : Spares q id fun c => { c with transDone := c.transDone ++ [p] } := by
  intro c h
  refine ⟨⟨h.done, h.mapped, h.away, h.delayed, h.answered⟩, ?_⟩
  simp only [Conn.sweep, erase_concat _ hne]

/-- The timeout timer of another transaction goes. -/
theorem spares_killTimeoutTimer (hne : p ≠ q) (t : Trans) :
    Spares q id fun c => { c with toTransStore := c.toTransStore.killTimeoutTimer p t } := by
  cases harmed : t.timeoutTimer with
  | false =>
    simp only [TransStore.killTimeoutTimer, harmed, Bool.false_eq_true, if_false]
    exact fun c h => ⟨h, rfl⟩
  | true =>
    have htimers : Spares q id fun c =>
        { c with transTimers := c.transTimers.filter fun timer => timer.1 ≠ p } :=
      fun _ h => ⟨⟨h.done, h.mapped, h.away, h.delayed, h.answered⟩, rfl⟩
    simp only [TransStore.killTimeoutTimer, harmed, if_true]
    exact (spares_update hne { t with timeoutTimer := false }).comp htimers

/-- Another transaction is answered. -/
theorem spares_answered (hne : p ≠ q) (t : Trans) (msg : Bytes) :
    Spares q id fun c => c.answered p t msg := by
  have hpending : Spares q id fun c => { c with transPending := c.transPending.erase p } :=
    fun _ h => ⟨⟨h.done, h.mapped, fun hq => h.away (List.mem_of_mem_erase hq), h.delayed, h.answered⟩, rfl⟩
  have hrecord : Spares q id fun c => { c with trace := c.trace ++ [.answered p .pending msg] } :=
    fun _ h => ⟨⟨h.done, h.mapped, h.away, h.delayed, h.answered⟩, rfl⟩
  exact (((spares_update hne t).comp hpending).comp (spares_transDone hne)).comp hrecord

/-- The bookkeeping of another transaction. -/
theorem spares_transCompleted (hne : p ≠ q) : Spares q id fun c => transCompleted c p := by
  intro c h
  have hlive : (c.sweep q id).heap p = c.heap p := Function.update_of_ne hne ..
  cases ht : c.heap p with
  | none =>
    have hsame : ∀ c : Conn, c.heap p = none →
        transCompleted c p = { c with toTransStore := c.toTransStore.connEventAdd .transDone (some p) } := by
      intro c ht
      simp [transCompleted, TransStore.connEventAdd, ht]
    dsimp only
    rw [hsame c ht, hsame (c.sweep q id) (hlive.trans ht)]
    exact spares_connEventAdd .transDone (some p) c h
  | some t =>
    dsimp only
    rw [transCompleted_eq ht, transCompleted_eq (hlive.trans ht)]
    exact ((spares_connEventAdd .transDone (some p)).comp (spares_killTimeoutTimer hne t)) c h

/-- A transaction that waits for its answer is not the one that is done. -/
theorem Retired.ne (h : Retired c q id) {t : Trans} (ht : c.heap p = some t) (hst : t.status = .pending) :
    p ≠ q := by
  rintro rfl
  obtain ⟨u, hu, hdone, -⟩ := h.done
  obtain rfl := Option.some.inj (ht.symm.trans hu)
  rw [hst] at hdone
  cases hdone

/-- A message does to the swept connection what it does to the connection. -/
theorem Retired.takeMsg (h : Retired c q id) (msg : Bytes) :
    Retired (takeMsg lib c msg).1 q id ∧
      takeMsg lib (c.sweep q id) msg = ((takeMsg lib c msg).1.sweep q id, (takeMsg lib c msg).2) := by
  have hheard : Retired (c.heard msg) q id := ⟨h.done, h.mapped, h.away, h.delayed, h.answered⟩
  cases hmsg : readMsg lib msg with
  | none =>
    rw [takeMsg_bad hmsg, takeMsg_bad hmsg]
    exact ⟨hheard, rfl⟩
  | some read =>
    obtain ⟨tranId, data⟩ := read
    by_cases hwaits : ∃ p t, c.transIdMap tranId = some p ∧ c.heap p = some t ∧ t.status = .pending
    · obtain ⟨p, t, hmap, ht, hst⟩ := hwaits
      have hne := h.ne ht hst
      have hid : tranId ≠ id := by
        rintro rfl
        exact hne (Option.some.inj (hmap.symm.trans h.mapped))
      have hmap' : (c.sweep q id).transIdMap tranId = some p := (Function.update_of_ne hid ..).trans hmap
      have ht' : (c.sweep q id).heap p = some t := (Function.update_of_ne hne ..).trans ht
      have hother : c.pingtxn ≠ some p := by simp [h.answered]
      obtain ⟨hkept, hsame⟩ := ((spares_answered hne (storeResponse lib t data) msg).comp
        (spares_transCompleted hne)) (c.heard msg) hheard
      rw [takeMsg_answer hmsg hmap ht hst hother, takeMsg_answer hmsg hmap' ht' hst hother]
      exact ⟨hkept, congrArg (·, true) hsame.symm⟩
    · have hnone : ∀ p t, c.transIdMap tranId = some p → c.heap p = some t → t.status ≠ .pending :=
        fun p t hmap ht hst => hwaits ⟨p, t, hmap, ht, hst⟩
      have hnone' : ∀ p t, (c.sweep q id).transIdMap tranId = some p → (c.sweep q id).heap p = some t →
          t.status ≠ .pending := by
        intro p t hmap ht
        simp only [Conn.sweep, Function.update_apply] at hmap ht
        split at hmap
        · cases hmap
        · split at ht
          · cases ht
          · exact hnone p t hmap ht
      rw [takeMsg_orphan hmsg hnone, takeMsg_orphan hmsg hnone']
      exact ⟨hheard, rfl⟩

end Spares

section Ping

variable {c : Conn} {p q : Ptr} {t : Trans} {tranId : ℕ} {msg data : Bytes}

/-- The loop of `LM_trans_send_messages` touches the transactions that are `READY` only. -/
theorem sendMessagesLoop_heap (ready : List Ptr) (c : Conn) (hout : q ∉ ready) :
    (sendMessagesLoop lib ready c).heap q = c.heap q := by
  induction ready generalizing c with
  | nil => rfl
  | cons p rest ih =>
    rw [List.mem_cons, not_or] at hout
    rw [sendMessagesLoop, ih _ hout.2]
    have hmark : ∀ c : Conn, (markPending c p).heap q = c.heap q := by
      intro c
      unfold markPending
      split
      · rfl
      · exact Function.update_of_ne hout.1 ..
    have hstructure : ∀ c : Conn, (transStructure lib c p).heap q = c.heap q := by
      intro c
      unfold transStructure
      split
      · rfl
      · exact Function.update_of_ne hout.1 ..
    have harm : ∀ c : Conn, (armTimeoutTimer c p).heap q = c.heap q := by
      intro c
      unfold armTimeoutTimer
      split
      · rfl
      · split
        · exact Function.update_of_ne hout.1 ..
        · rfl
    exact (harm _).trans ((hstructure _).trans (hmark _))

/-- So does the establishment of a connection. -/
theorem connEventSetConnected_heap (c : Conn) (hout : q ∉ c.transReady) :
    (connEventSetConnected lib c).heap q = c.heap q := by
  have hloop := sendMessagesLoop_heap lib c.transReady { c with
    toTransStore := c.toTransStore.connEventAdd .connConnected none
    status := .connected } hout
  simpa [connEventSetConnected, transSendMessages, timerStop, triggerSignal, TransStore.connEventAdd]
    using hloop

/-- `LM_conn_cleanup_ping` puts off the deletion of the ping. -/
theorem connCleanupPing_defers (hbusy : c.inUse = true) (hping : c.pingtxn = some p)
    (ht : c.heap p = some t) : ∃ timers, connCleanupPing lib c = { c with
      heap := Function.update c.heap p (some { t with timeoutTimer := false })
      transTimers := timers
      transPending := c.transPending.erase p
      transDelayRm := c.transDelayRm ++ [p]
      trace := c.trace ++ [.deleted p]
      timer := none } := by
  obtain ⟨heap, timers, hkill⟩ :=
    killTimeoutTimer_shape { c.toTransStore with transPending := c.transPending.erase p } p t
  have hheap := TransStore.heap_killTimeoutTimer
    { c.toTransStore with transPending := c.transPending.erase p } p t ht
  rw [hkill] at hheap
  dsimp only at hheap
  unfold connCleanupPing
  simp only
  split
  · rename_i hnone
    rw [hping] at hnone
    cases hnone
  · rename_i q hq
    obtain rfl := Option.some.inj (hping.symm.trans hq)
    rw [@transDelete_inUse lib { c with timer := none, transPending := c.transPending.erase p } p t ht hbusy,
      TransStore.defer, hkill, hheap]
    exact ⟨timers, rfl⟩

/-- The ping that has been answered waits to be freed, and nothing else does. -/
theorem retired_pingAnswered (hrep : Rep c.toTransStore) (hbusy : c.inUse = true)
    (hnone : c.transDelayRm = []) (hmap : c.transIdMap tranId = some p) (ht : c.heap p = some t)
    (hst : t.status = .pending) (hping : c.pingtxn = some p) :
    Retired (pingAnswered lib ((c.heard msg).answered p (storeResponse lib t data) msg)) p tranId := by
  have hid : t.transId = tranId := by
    obtain ⟨u, hu, hid⟩ := hrep.mapLive tranId p hmap
    exact Option.some.inj (hu.symm.trans ht) ▸ hid
  have hready : p ∉ c.transReady := by
    intro hmem
    have hstatus := @Rep.status_of_mem c.toTransStore hrep .ready p t hmem ht
    rw [hst] at hstatus
    cases hstatus
  have hpending : p ∉ (c.transPending.erase p).erase p :=
    fun hmem => List.Nodup.not_mem_erase (hrep.nodup .pending) (List.mem_of_mem_erase hmem)
  obtain ⟨timers, hclean⟩ := @connCleanupPing_defers lib
    ((c.heard msg).answered p (storeResponse lib t data) msg) p (storeResponse lib t data) hbusy hping
    (Function.update_self ..)
  obtain ⟨established, hestablished⟩ : ∃ c', c' = { connCleanupPing lib
    ((c.heard msg).answered p (storeResponse lib t data) msg) with pingtxn := none } := ⟨_, rfl⟩
  obtain ⟨heap, timers', new, more, timer, hup, -, -⟩ := connEventSetConnected_shape lib established
  have hkept := @connEventSetConnected_heap lib p established (by rw [hestablished, hclean]; exact hready)
  rw [pingAnswered, ← hestablished]
  refine ⟨⟨{ storeResponse lib t data with timeoutTimer := false }, ?_, ?_, ?_⟩, ?_, ?_, ?_, ?_⟩
  · rw [hkept, hestablished, hclean]
    exact Function.update_self ..
  · exact storeResponse_status lib t data
  · exact (storeResponse_transId lib t data).trans hid
  all_goals rw [hup, hestablished, hclean]
  · exact hmap
  · simp only [Conn.answered, Conn.heard, List.mem_append, not_or]
    exact ⟨hpending, hready⟩
  · simp only [Conn.answered, Conn.heard, hnone, List.nil_append]

end Ping

/-- A connection inside a handler that has put off no deletion but that of the ping, after its answer. -/
inductive Tidy (c : Conn) : Prop
  | clean : Rep c.toTransStore → c.inUse = true → c.transDelayRm = [] → Tidy c
  | retired (q : Ptr) (id : ℕ) : Retired c q id → Tidy c

/-- A connection after the deletion that was put off. -/
def Conn.cleared (c : Conn) : Conn :=
  match c.transDelayRm with
  | [] => c
  | q :: _ => c.sweep q ((c.heap q).elim 0 Trans.transId)

section Cleared

variable {c d : Conn} {q : Ptr} {id : ℕ}

/-- Nothing was put off. -/
theorem Conn.cleared_of_nil (h : c.transDelayRm = []) : c.cleared = c := by
  simp only [Conn.cleared, h]

/-- The ping is gone. -/
theorem Retired.cleared (h : Retired c q id) : c.cleared = c.sweep q id := by
  obtain ⟨t, ht, -, hid⟩ := h.done
  simp only [Conn.cleared, h.delayed, ht, Option.elim_some, hid]

/-- The deletion that was put off does not look at what distinguishes connections that are alike. -/
theorem Alike.cleared (h : Alike c d) : Alike c.cleared d.cleared := by
  have hdelay : c.transDelayRm = d.transDelayRm := congrArg (fun c => c.transDelayRm) h.bare
  unfold Conn.cleared
  rw [← hdelay, ← h.heap]
  split
  · exact h
  · rename_i q rest hput
    refine ⟨?_, h.events⟩
    exact congrArg (fun b => b.sweep q ((c.heap q).elim 0 Trans.transId)) h.bare

/-- A message leaves a tidy connection tidy. -/
theorem Tidy.takeMsg (h : Tidy c) (msg : Bytes) : Tidy (takeMsg lib c msg).1 := by
  cases h with
  | retired q id h => exact .retired q id (h.takeMsg lib msg).1
  | clean hrep hbusy hnone =>
    have hheard : Rep (c.heard msg).toTransStore := hrep.log _
    cases hmsg : readMsg lib msg with
    | none =>
      rw [takeMsg_bad hmsg]
      exact .clean hheard hbusy hnone
    | some read =>
      obtain ⟨tranId, data⟩ := read
      by_cases hwaits : ∃ p t, c.transIdMap tranId = some p ∧ c.heap p = some t ∧ t.status = .pending
      · obtain ⟨p, t, hmap, ht, hst⟩ := hwaits
        by_cases hping : c.pingtxn = some p
        · rw [takeMsg_ping hmsg hmap ht hst hping]
          exact .retired p tranId (retired_pingAnswered lib hrep hbusy hnone hmap ht hst hping)
        · obtain ⟨u, hu, hid⟩ := hrep.mapLive tranId p hmap
          obtain rfl := Option.some.inj (hu.symm.trans ht)
          have hstep := @InternalStep.answer lib c.toTransStore p u msg data ht hst (hid ▸ hmsg) hping
          have hstore : ((c.heard msg).answered p (storeResponse lib u data) msg).toTransStore =
              c.toTransStore.answer p u (storeResponse lib u data) msg := by
            simp [Conn.heard, Conn.answered, TransStore.answer, TransStore.move, TransStore.queueTake,
              TransStore.setTrans, TransStore.log, hst]
          rw [takeMsg_answer hmsg hmap ht hst hping,
            @transCompleted_eq ((c.heard msg).answered p (storeResponse lib u data) msg) p
              (storeResponse lib u data) (Function.update_self ..)]
          refine .clean ?_ hbusy ?_
          · rw [hstore]
            exact hstep.rep hrep
          · rw [hstore]
            simpa [TransStore.connEventAdd] using hnone
      · have hnone : ∀ p t, c.transIdMap tranId = some p → c.heap p = some t → t.status ≠ .pending :=
          fun p t hmap ht hst => hwaits ⟨p, t, hmap, ht, hst⟩
        rw [takeMsg_orphan hmsg hnone]
        exact .clean hheard hbusy ‹_›

/-- A message does to the connection after the deletion what it does to the connection. -/
theorem Tidy.takeMsg_cleared (h : Tidy c) (msg : Bytes) :
    (LibMonetra.takeMsg lib c msg).1.cleared = (LibMonetra.takeMsg lib c.cleared msg).1.cleared ∧
      (LibMonetra.takeMsg lib c msg).2 = (LibMonetra.takeMsg lib c.cleared msg).2 := by
  cases h with
  | clean _ _ hnone =>
    rw [Conn.cleared_of_nil hnone]
    exact ⟨rfl, rfl⟩
  | retired q id h =>
    obtain ⟨hkept, hsame⟩ := h.takeMsg lib msg
    rw [h.cleared, hsame, hkept.cleared]
    exact ⟨(Conn.cleared_of_nil rfl).symm, rfl⟩

/-- Two tidy connections that are alike after the deletions that were put off. -/
structure Related (c d : Conn) : Prop where
  tidy : Tidy c
  tidy' : Tidy d
  alike : Alike c.cleared d.cleared

/-- A message does the same to related connections. -/
theorem Related.takeMsg (h : Related c d) (msg : Bytes) :
    Related (takeMsg lib c msg).1 (takeMsg lib d msg).1 ∧ (takeMsg lib c msg).2 = (takeMsg lib d msg).2 := by
  obtain ⟨hclear, hgoes⟩ := h.tidy.takeMsg_cleared lib msg
  obtain ⟨hclear', hgoes'⟩ := h.tidy'.takeMsg_cleared lib msg
  obtain ⟨halike, hboth⟩ := h.alike.takeMsg lib msg
  refine ⟨⟨h.tidy.takeMsg lib msg, h.tidy'.takeMsg lib msg, ?_⟩, ?_⟩
  · rw [hclear, hclear']
    exact halike.cleared
  · rw [hgoes, hgoes', hboth]

end Cleared

section Teardown

variable {c d : Conn} {q : Ptr} {id : ℕ}

/-- The failure of another transaction. -/
theorem spares_failPending {p : Ptr} (hne : p ≠ q) : Spares q id fun c => failPending c p := by
  intro c h
  have hlive : (c.sweep q id).heap p = c.heap p := Function.update_of_ne hne ..
  cases ht : c.heap p with
  | none =>
    simp only [failPending, ht, hlive]
    exact ⟨h, trivial⟩
  | some t =>
    simp only [failPending, ht, hlive]
    exact ((((spares_transDone hne).comp (spares_update hne _)).comp (spares_killTimeoutTimer hne _)).comp
      (spares_connEventAdd .transError (some p))) c h

/-- The loop over other transactions. -/
theorem spares_failPendingLoop {pending : List Ptr} (hout : q ∉ pending) :
    Spares q id fun c => failPendingLoop pending c := by
  induction pending with
  | nil => exact fun c h => ⟨h, rfl⟩
  | cons p rest ih =>
    rw [List.mem_cons, not_or] at hout
    have htake : Spares q id fun c => { c with transPending := rest } :=
      fun _ h => ⟨⟨h.done, h.mapped, hout.2, h.delayed, h.answered⟩, rfl⟩
    exact (htake.comp (spares_failPending (Ne.symm hout.1))).comp (ih hout.2)

/-- The `NOCONNECT` events. -/
theorem spares_noconnectEvents (ready : List Ptr) : Spares q id fun c => noconnectEvents ready c := by
  induction ready with
  | nil => exact fun c h => ⟨h, rfl⟩
  | cons p rest ih => exact (spares_connEventAdd .transNoconnect (some p)).comp ih

/-- A connection whose I/O object is gone. -/
def Conn.down (c : Conn) : Conn := { c with
  io := none
  writeTrigger := none
  status := .disconnected
  outbuf := []
  inbuf := []
  timer := none }

/-- What the end of a connection does once the I/O object is gone. -/
def reportEnd (ready pending : List Ptr) (type : EventType) (c : Conn) : Conn :=
  { failPendingLoop pending (noconnectEvents ready c) with
    toTransStore := (failPendingLoop pending (noconnectEvents ready c)).toTransStore.connEventAdd type none }

/-- The end of a connection in two parts. -/
theorem connEventHandleConnError_eq (c : Conn) (failure : IoFailure) :
    connEventHandleConnError c failure =
      reportEnd (if c.status = .idleTimeout then [] else c.transReady) c.transPending
        (terminalType c.status failure) c.down := by
  have hpending : (noconnectEvents (if c.status = .idleTimeout then [] else c.transReady) c.down).transPending =
      c.transPending := by
    rw [noconnectEvents_eq]
    rfl
  rw [reportEnd, ← hpending]
  rfl

/-- The second part does not look at the record. -/
theorem unaware_reportEnd (ready pending : List Ptr) (type : EventType) :
    Unaware fun c => reportEnd ready pending type c :=
  ((unaware_noconnectEvents ready).comp (unaware_failPendingLoop pending)).comp
    (unaware_connEventAdd type none)

/-- It does not look at the ping that has been answered. -/
theorem spares_reportEnd (ready : List Ptr) {pending : List Ptr} (type : EventType) (hout : q ∉ pending) :
    Spares q id fun c => reportEnd ready pending type c :=
  ((spares_noconnectEvents ready).comp (spares_failPendingLoop hout)).comp (spares_connEventAdd type none)

/-- The end of a connection spares the ping that has been answered. -/
theorem spares_connEventHandleConnError (failure : IoFailure) :
    Spares q id fun c => connEventHandleConnError c failure := by
  intro c h
  have hdown : Retired c.down q id := ⟨h.done, h.mapped, h.away, h.delayed, h.answered⟩
  dsimp only
  rw [connEventHandleConnError_eq, connEventHandleConnError_eq]
  exact spares_reportEnd _ _ h.away c.down hdown

/-- Connections that are alike and have the same timer are so behind a piece that does not look at the
record. -/
theorem Alike.unaware (h : Alike c d) (htimer : c.timer = d.timer) {f : Conn → Conn} (hf : Unaware f) :
    Alike (f c) (f d) := by
  have hbehind : ∀ c : Conn,
      c = ({ c.bare with timer := c.timer } : Conn).behind c.trace c.events c.inbuf := by
    intro c
    simp [Conn.behind, Conn.bare]
  rw [hbehind c, hbehind d, hf, hf, ← htimer, ← h.bare]
  refine ⟨rfl, ?_⟩
  change eventsOf (c.trace ++ _) = eventsOf (d.trace ++ _)
  rw [eventsOf_append, eventsOf_append, h.events]

/-- The end of a connection leaves alike what is alike. -/
theorem Alike.connEventHandleConnError (h : Alike c d) (failure : IoFailure) :
    Alike (connEventHandleConnError c failure) (connEventHandleConnError d failure) := by
  have hdown : Alike c.down d.down := ⟨congrArg Conn.down h.bare, h.events⟩
  have hpending : c.transPending = d.transPending := congrArg (fun c => c.transPending) h.bare
  rw [connEventHandleConnError_eq, connEventHandleConnError_eq, h.status, h.transReady, hpending]
  exact hdown.unaware rfl (unaware_reportEnd _ _ _)

end Teardown

section Left

variable {c d : Conn} {q : Ptr} {id : ℕ} {net : NetOutcome}

/-- A reconnection does not look at the record, at the timer or at the bytes that have not been read. -/
theorem reconnected_bare (net : NetOutcome) (c : Conn) :
    (reconnected lib net c).bare = (reconnected lib net c.bare).bare ∧
      (reconnected lib net c).trace = c.trace ∧ (reconnected lib net c).inbuf = c.inbuf := by
  rcases hio : c.io with _ | io
  · rcases hcreate : net.netCreate with _ | text
    · rcases hmode : c.mode with _ | _ <;> rcases htls : net.tlsAdd with _ | text <;>
        cases hcb : c.iocreateCb <;> cases hadd : net.eventAdd <;>
          simp [reconnected, connConnectBegin, connConnectFinish, setError, Conn.bare, hio, hcreate, hmode,
            htls, hcb, hadd]
    · simp [reconnected, connConnectBegin, setError, Conn.bare, hio, hcreate]
  · simp [reconnected, connConnectBegin, setError, Conn.bare, hio]

/-- What a handler leaves, once its events are delivered and its deletions are drained. -/
def settled (net : NetOutcome) (c : Conn) : Conn :=
  if c.status = .disconnected ∧ c.transReady ≠ [] then reconnected lib net { c with inUse := false }
  else { c with inUse := false }

/-- Connections that are alike reconnect alike. -/
theorem Alike.reconnected (h : Alike c d) : Alike (reconnected lib net c) (reconnected lib net d) := by
  obtain ⟨hbare, htrace, -⟩ := reconnected_bare lib net c
  obtain ⟨hbare', htrace', -⟩ := reconnected_bare lib net d
  refine ⟨?_, ?_⟩
  · rw [hbare, hbare', h.bare]
  · rw [htrace, htrace', h.events]

/-- They are left alike. -/
theorem Alike.settled (h : Alike c d) : Alike (settled lib net c) (settled lib net d) := by
  have hfree : Alike { c with inUse := false } { d with inUse := false } :=
    ⟨congrArg (fun c : Conn => { c with inUse := false }) h.bare, h.events⟩
  have hdown : (c.status = .disconnected ∧ c.transReady ≠ []) =
      (d.status = .disconnected ∧ d.transReady ≠ []) := by rw [h.status, h.transReady]
  unfold LibMonetra.settled
  simp only [hdown]
  split
  · exact hfree.reconnected lib
  · exact hfree

/-- The bytes that have not been read stay. -/
theorem settled_inbuf (c : Conn) : (settled lib net c).inbuf = c.inbuf := by
  unfold settled
  split
  · exact (reconnected_bare lib net { c with inUse := false }).2.2
  · rfl

/-- The events that have been delivered are in the record already. -/
theorem delivered_alike (c : Conn) : Alike c.delivered c := by
  refine ⟨rfl, ?_⟩
  have hnone : eventsOf (c.events.map Obs.callback) = [] :=
    List.eq_nil_iff_forall_not_mem.mpr fun e he => by
      obtain ⟨_, -, hcallback⟩ := List.mem_map.mp (mem_eventsOf.mp he)
      cases hcallback
  change eventsOf (c.trace ++ c.events.map Obs.callback) = eventsOf c.trace
  rw [eventsOf_append, hnone, List.append_nil]

/-- The deletion that was put off is carried out. -/
theorem drained_alike (h : c.transDelayRm = [] ∨ ∃ q id, Retired c q id) :
    Alike (drainDelayRm lib c.transDelayRm c) c.cleared ∧
      (drainDelayRm lib c.transDelayRm c).inbuf = c.inbuf := by
  rcases h with hnone | ⟨q, id, h⟩
  · rw [hnone, Conn.cleared_of_nil hnone]
    exact ⟨⟨rfl, rfl⟩, rfl⟩
  · obtain ⟨t, ht, hst, rfl⟩ := h.done
    obtain ⟨timer, hfree⟩ := @transDeleteUnlocked_eq lib { c with transDelayRm := [] } q t ht
    rw [h.delayed, h.cleared, drainDelayRm, drainDelayRm, hfree]
    refine ⟨⟨?_, ?_⟩, rfl⟩
    · simp only [TransStore.free, TransStore.queueTake, hst]
      rfl
    · simp only [TransStore.free, TransStore.queueTake, hst, eventsOf_append]
      exact List.append_nil _

/-- What a handler leaves is what it had, after the deletion that was put off. -/
theorem handlerLeft_alike (h : c.transDelayRm = [] ∨ ∃ q id, Retired c q id) :
    Alike (handlerLeft lib net c) (settled lib net c.cleared) ∧
      (handlerLeft lib net c).inbuf = c.inbuf := by
  have hdelivered : c.delivered.transDelayRm = [] ∨ ∃ q id, Retired c.delivered q id :=
    h.imp_right fun ⟨q, id, h⟩ => ⟨q, id, h.done, h.mapped, h.away, h.delayed, h.answered⟩
  obtain ⟨halike, hinbuf⟩ := drained_alike lib hdelivered
  have hleft : handlerLeft lib net c =
      settled lib net (drainDelayRm lib c.delivered.transDelayRm c.delivered) := by
    simp only [handlerLeft, handlerDrain, settled, Pc.reconnecting.injEq, decide_eq_true_eq]
  rw [hleft, settled_inbuf, hinbuf]
  exact ⟨(halike.trans (delivered_alike c).cleared).settled lib, rfl⟩

/-- The end of a read event does not look at the ping that has been answered. -/
theorem spares_readEnded (unread : Bytes) (stopped : Bool) :
    Spares q id fun c => readEnded lib ⟨c, unread, stopped⟩ := by
  have hreset : Spares q id fun c => timerReset lib { c with inbuf := unread } (c.transPending = []) :=
    fun _ h => ⟨⟨h.done, h.mapped, h.away, h.delayed, h.answered⟩, rfl⟩
  cases stopped with
  | false => exact hreset
  | true =>
    have herror : Spares q id fun c =>
        setError c (ascii "Invalid response format received. Disconnect.") :=
      fun _ h => ⟨⟨h.done, h.mapped, h.away, h.delayed, h.answered⟩, rfl⟩
    exact (hreset.comp herror).comp (spares_connEventHandleConnError .error)

/-- It leaves alike what is alike. -/
theorem Alike.readEnded (h : Alike c d) (unread unread' : Bytes) (stopped : Bool) :
    Alike (readEnded lib ⟨c, unread, stopped⟩) (readEnded lib ⟨d, unread', stopped⟩) := by
  have hreset : Alike (timerReset lib { c with inbuf := unread } (c.transPending = []))
      (timerReset lib { d with inbuf := unread' } (d.transPending = [])) := ⟨h.bare, h.events⟩
  cases stopped with
  | false => exact hreset
  | true =>
    have herror : Alike
        (setError (timerReset lib { c with inbuf := unread } (c.transPending = []))
          (ascii "Invalid response format received. Disconnect."))
        (setError (timerReset lib { d with inbuf := unread' } (d.transPending = []))
          (ascii "Invalid response format received. Disconnect.")) :=
      ⟨congrArg (fun c => setError c (ascii "Invalid response format received. Disconnect.")) h.bare,
        h.events⟩
    exact herror.connEventHandleConnError .error

/-- It puts off no deletion. -/
theorem readEnded_transDelayRm (c : Conn) (unread : Bytes) (stopped : Bool) :
    (readEnded lib ⟨c, unread, stopped⟩).transDelayRm = c.transDelayRm := by
  cases stopped with
  | false => rfl
  | true => exact connEventHandleConnError_transDelayRm _ _

/-- What it leaves unread, unless it gives up the connection. -/
theorem readEnded_inbuf (c : Conn) (unread : Bytes) (stopped : Bool) :
    (readEnded lib ⟨c, unread, stopped⟩).inbuf = if stopped then [] else unread := by
  cases stopped with
  | false => rfl
  | true => exact connEventHandleConnError_inbuf _ _

/-- A tidy connection ends the read event as it does after the deletion that was put off. -/
theorem Tidy.readEnded_cleared (h : Tidy c) (unread : Bytes) (stopped : Bool) :
    (readEnded lib ⟨c, unread, stopped⟩).cleared = readEnded lib ⟨c.cleared, unread, stopped⟩ ∧
      ((readEnded lib ⟨c, unread, stopped⟩).transDelayRm = [] ∨
        ∃ q id, Retired (readEnded lib ⟨c, unread, stopped⟩) q id) := by
  cases h with
  | clean _ _ hnone =>
    have hleft := (readEnded_transDelayRm lib c unread stopped).trans hnone
    rw [Conn.cleared_of_nil hnone, Conn.cleared_of_nil hleft]
    exact ⟨rfl, Or.inl hleft⟩
  | retired q id h =>
    obtain ⟨hkept, hsame⟩ := spares_readEnded lib unread stopped c h
    rw [h.cleared, hkept.cleared]
    exact ⟨hsame, Or.inr ⟨q, id, hkept⟩⟩

/-- A handler leaves related connections alike. -/
theorem Related.handlerLeft (h : Related c d) (unread unread' : Bytes) (stopped : Bool) :
    Alike (handlerLeft lib net (readEnded lib ⟨c, unread, stopped⟩))
      (handlerLeft lib net (readEnded lib ⟨d, unread', stopped⟩)) := by
  obtain ⟨hclear, hdelay⟩ := h.tidy.readEnded_cleared lib unread stopped
  obtain ⟨hclear', hdelay'⟩ := h.tidy'.readEnded_cleared lib unread' stopped
  obtain ⟨halike, -⟩ := @handlerLeft_alike lib _ net hdelay
  obtain ⟨halike', -⟩ := @handlerLeft_alike lib _ net hdelay'
  rw [hclear] at halike
  rw [hclear'] at halike'
  exact (halike.trans ((h.alike.readEnded lib unread unread' stopped).settled lib)).trans halike'.symm

end Left

end LibMonetra
