import LibMonetra.Handled
import LibMonetra.Wire

/-!
# The locked pieces of the event handler

What the loop over the received frames does to a connection, and how each locked piece of the event
handler ends: the connection is up, waits for its ping to be cleaned up, or is given up.
-/

namespace LibMonetra

open Foundation

variable {lib : Mstdlib}

/-- A transaction waits for its answer. -/
def TransStore.waits (s : TransStore) (p : Ptr) : Prop :=
  ∃ t, s.heap p = some t ∧ t.status = .pending

/-- Whether a record belongs to reading from the connection: a message, the answer of a transaction
that waits for it, or the end of one that is not the ping. -/
def ReadsFrom (s : TransStore) (o : Obs) : Prop :=
  (∃ msg, o = .consumed msg) ∨ (∃ p msg, s.waits p ∧ o = .answered p .pending msg) ∨
    ∃ p, s.waits p ∧ s.pingtxn ≠ some p ∧ o = queuedAs .transDone p

/-- A transaction was answered by a message that carries an id of its own. -/
def BroughtBy (lib : Mstdlib) (s : TransStore) (p : Ptr) (new : List Obs) : Prop :=
  ∃ msg tranId data, .answered p .pending msg ∈ new ∧ readMsg lib msg = some (tranId, data) ∧
    s.transIdMap tranId = some p

/-- A longer record says no less. -/
theorem BroughtBy.mono {s : TransStore} {p : Ptr} {new new' : List Obs} (h : BroughtBy lib s p new)
    (hsub : ∀ o ∈ new, o ∈ new') : BroughtBy lib s p new' := by
  obtain ⟨msg, tranId, data, hmem, hmsg, hmap⟩ := h
  exact ⟨msg, tranId, data, hsub _ hmem, hmsg, hmap⟩

section Read

/-- A piece of the library that reads from the connection: it touches the transactions that wait for
an answer, the list of events and `inbuf`. -/
structure Reads (c c' : Conn) (new : List Obs) : Prop where
  shape : ∃ heap pending done timers events trace inbuf, c' = { c with
    heap := heap
    transPending := pending
    transDone := done
    transTimers := timers
    events := events
    trace := trace
    inbuf := inbuf }
  handled : Handled c.toTransStore c'.toTransStore new
  records : ∀ o ∈ new, ReadsFrom c.toTransStore o
  pending : c'.transPending.Sublist c.transPending
  left : ∀ p ∈ c.transPending, p ∈ c'.transPending ∨ ∃ msg, .answered p .pending msg ∈ new
  waits : ∀ p, c'.toTransStore.waits p → c.toTransStore.waits p

variable {c c' c'' : Conn} {new new' : List Obs}

/-- Nothing is read. -/
theorem Reads.skip (c : Conn) (inbuf : Bytes) : Reads c { c with inbuf := inbuf } [] :=
  ⟨⟨_, _, _, _, _, _, _, rfl⟩, .refl _, by simp, .refl _, fun _ => Or.inl, fun _ => id⟩

/-- Reading leaves the ping alone. -/
theorem Reads.pingtxn (h : Reads c c' new) : c'.pingtxn = c.pingtxn := by
  obtain ⟨_, _, _, _, _, _, _, heq⟩ := h.shape
  rw [heq]

/-- Reading leaves the id map alone. -/
theorem Reads.transIdMap (h : Reads c c' new) : c'.transIdMap = c.transIdMap := by
  obtain ⟨_, _, _, _, _, _, _, heq⟩ := h.shape
  rw [heq]

/-- What is read later also belongs to the transactions that waited before. -/
theorem ReadsFrom.before {s s' : TransStore} (hping : s'.pingtxn = s.pingtxn)
    (hwaits : ∀ p, s'.waits p → s.waits p) {o : Obs} (h : ReadsFrom s' o) : ReadsFrom s o := by
  rcases h with hmsg | ⟨p, msg, hp, rfl⟩ | ⟨p, hp, hother, rfl⟩
  · exact Or.inl hmsg
  · exact Or.inr (Or.inl ⟨p, msg, hwaits p hp, rfl⟩)
  · exact Or.inr (Or.inr ⟨p, hwaits p hp, hping ▸ hother, rfl⟩)

/-- Reading deletes nothing. -/
theorem Reads.deletedOf (h : Reads c c' new) : deletedOf new = [] := by
  refine deletedOf_eq_nil fun p hp => ?_
  rcases h.records _ hp with ⟨msg, hmsg⟩ | ⟨q, msg, -, hanswer⟩ | ⟨q, -, -, hdone⟩
  · cases hmsg
  · cases hanswer
  · cases hdone

/-- Two pieces that read are one. -/
theorem Reads.trans (h : Reads c c' new) (h' : Reads c' c'' new') : Reads c c'' (new ++ new') where
  shape := by
    obtain ⟨_, _, _, _, _, _, _, heq⟩ := h.shape
    obtain ⟨_, _, _, _, _, _, _, heq'⟩ := h'.shape
    rw [heq', heq]
    exact ⟨_, _, _, _, _, _, _, rfl⟩
  handled := h.handled.trans h'.handled
  records := List.forall_mem_append.mpr
    ⟨h.records, fun o ho => (h'.records o ho).before h.pingtxn h.waits⟩
  pending := h'.pending.trans h.pending
  left p hp := by
    rcases h.left p hp with hkept | ⟨msg, hmem⟩
    · exact (h'.left p hkept).imp_right (Exists.imp fun _ => List.mem_append_right _)
    · exact Or.inr ⟨msg, List.mem_append_left _ hmem⟩
  waits p hp := h.waits p (h'.waits p hp)

/-- A frame is taken off `inbuf`. -/
theorem Reads.consume (c : Conn) (msg rest : Bytes) :
    Reads c { c with inbuf := rest, trace := c.trace ++ [.consumed msg] } [.consumed msg] :=
  ⟨⟨_, _, _, _, _, _, _, rfl⟩, Handled.log c.toTransStore (.consumed msg) ⟨rfl, rfl, rfl⟩,
    by simp [ReadsFrom], .refl _, fun _ => Or.inl, fun _ => id⟩

/-- A transaction that waits is answered. -/
theorem Reads.answer (lib : Mstdlib) (c : Conn) {p : Ptr} {t : Trans} (msg data : Bytes)
    (ht : c.heap p = some t) (hst : t.status = .pending) :
    Reads c { c with
      heap := Function.update c.heap p (some (storeResponse lib t data))
      transPending := c.transPending.erase p
      transDone := c.transDone ++ [p]
      trace := c.trace ++ [.answered p .pending msg] } [.answered p .pending msg] where
  shape := ⟨_, _, _, _, _, _, _, rfl⟩
  handled := Handled.still rfl ⟨rfl, rfl, by simp [Obs.frees]⟩ rfl rfl rfl (Handled.live_update ht)
  records o ho := by
    obtain rfl := List.mem_singleton.mp ho
    exact Or.inr (Or.inl ⟨p, msg, ⟨t, ht, hst⟩, rfl⟩)
  pending := List.erase_sublist
  left q hq := by
    by_cases hqp : q = p
    · exact Or.inr ⟨msg, by simp [hqp]⟩
    · exact Or.inl ((List.mem_erase_of_ne hqp).mpr hq)
  waits q hq := by
    obtain ⟨u, hu, hwait⟩ := hq
    simp only [Function.update_apply] at hu
    split at hu
    · obtain rfl := Option.some.inj hu
      simp at hwait
    · exact ⟨u, hu, hwait⟩

/-- The end of a timeout timer touches the transaction and its timer. -/
theorem killTimeoutTimer_shape (s : TransStore) (p : Ptr) (t : Trans) :
    ∃ heap timers, s.killTimeoutTimer p t = { s with heap := heap, transTimers := timers } := by
  unfold TransStore.killTimeoutTimer
  split
  · exact ⟨_, _, rfl⟩
  · exact ⟨s.heap, s.transTimers, rfl⟩

/-- A transaction that has been answered, and is not the ping, is reported. -/
theorem Reads.complete (h : Reads c c' new) {p : Ptr} (hwait : c.toTransStore.waits p)
    (hother : c.pingtxn ≠ some p) (hlive : c'.heap p ≠ none) :
    Reads c (transCompleted c' p) (new ++ [queuedAs .transDone p]) := by
  obtain ⟨t, ht⟩ := Option.ne_none_iff_exists'.mp hlive
  rw [transCompleted_eq ht]
  have hadd := Handled.connEventAdd c'.toTransStore .transDone (some p) fun q hq => by
    obtain rfl := Option.some.inj hq
    simp [ht]
  have hkill := Handled.killTimeoutTimer (s := c'.toTransStore.connEventAdd .transDone (some p)) ht
  have hqueue := TransStore.connQueue_killTimeoutTimer
    (c'.toTransStore.connEventAdd .transDone (some p)) p t .pending
  change (TransStore.killTimeoutTimer _ p t).transPending = _ at hqueue
  refine ⟨?_, h.handled.trans (hadd.trans hkill), ?_, ?_, fun q hq => ?_, fun q hq => h.waits q ?_⟩
  · obtain ⟨_, _, _, _, _, _, _, heq⟩ := h.shape
    obtain ⟨_, _, hshape⟩ := killTimeoutTimer_shape (c'.toTransStore.connEventAdd .transDone (some p)) p t
    rw [hshape, heq]
    exact ⟨_, _, _, _, _, _, _, rfl⟩
  · refine List.forall_mem_append.mpr ⟨h.records, fun o ho => ?_⟩
    exact Or.inr (Or.inr ⟨p, hwait, hother, List.mem_singleton.mp ho⟩)
  · rw [hqueue]
    exact h.pending
  · rw [hqueue]
    exact (h.left q hq).imp_right (Exists.imp fun _ => List.mem_append_left _)
  · obtain ⟨u, hu, hst⟩ := hq
    change (TransStore.killTimeoutTimer _ p t).heap q = _ at hu
    rw [TransStore.heap_killTimeoutTimer (c'.toTransStore.connEventAdd .transDone (some p)) p t ht,
      Function.update_apply] at hu
    split at hu
    · rename_i hqp
      obtain rfl := Option.some.inj hu
      exact ⟨t, hqp ▸ ht, hst⟩
    · exact ⟨u, hu, hst⟩

variable (lib) (c : Conn)

/-- `LM_conn_parse_trans_buffer`. -/
theorem connParseTransBufferLoop_reads (fuel : ℕ) :
    ∃ new, Reads c (connParseTransBufferLoop lib fuel c).1 new ∧
      ∀ p, (connParseTransBufferLoop lib fuel c).2 = (.success, some p) →
        c.toTransStore.waits p ∧ BroughtBy lib c.toTransStore p new ∧
          ∃ t, (connParseTransBufferLoop lib fuel c).1.heap p = some t ∧ t.status = .done := by
  induction fuel generalizing c with
  | zero => exact ⟨[], Reads.skip c c.inbuf, fun p hp => by cases hp⟩
  | succ fuel ih =>
    cases hscan : frameScan c.inbuf with
    | wait =>
      rw [connParseTransBufferLoop_wait lib (fuel + 1) hscan]
      exact ⟨[], Reads.skip c c.inbuf, fun p hp => by cases hp⟩
    | bad =>
      obtain ⟨inbuf, heq⟩ := connParseTransBufferLoop_bad lib fuel hscan
      rw [heq]
      exact ⟨[], Reads.skip c inbuf, fun p hp => by cases hp⟩
    | frame msg rest =>
      have hconsume := Reads.consume c msg rest
      rw [connParseTransBufferLoop_frame lib fuel hscan]
      rcases connParseMsg_cases lib { c with inbuf := rest, trace := c.trace ++ [.consumed msg] } msg with
        ⟨-, hres⟩ | ⟨tranId, data, q, -, hres, -⟩ | ⟨tranId, data, p, t, hmsg, hmap, ht, hst, hres⟩
      · simp only [hres]
        exact ⟨_, hconsume, fun p hp => by cases hp⟩
      · simp only [hres, if_true]
        obtain ⟨new, hnew, hdone⟩ := ih { c with inbuf := rest, trace := c.trace ++ [.consumed msg] }
        refine ⟨_, hconsume.trans hnew, fun p hp => ?_⟩
        obtain ⟨hwait, hbrought, hlive⟩ := hdone p hp
        exact ⟨hwait, hbrought.mono fun _ ho => List.mem_append_right _ ho, hlive⟩
      · simp only [hres]
        refine ⟨_, hconsume.trans (Reads.answer lib _ msg data ht hst), fun q hq => ?_⟩
        obtain ⟨-, hq⟩ := Prod.mk.inj hq
        obtain rfl := Option.some.inj hq
        exact ⟨⟨t, ht, hst⟩, ⟨msg, tranId, data, by simp, hmsg, hmap⟩, _, Function.update_self ..,
          storeResponse_status lib t data⟩

/-- The loop of the read event. It stops at a ping only when the ping has got the answer that it
waited for. -/
theorem readLoop_reads (fuel : ℕ) :
    ∃ new, Reads c (readLoop lib fuel c).1 new ∧
      ((readLoop lib fuel c).2 = .ping → ∃ p, c.pingtxn = some p ∧ c.toTransStore.waits p ∧
        BroughtBy lib c.toTransStore p new ∧
        ∃ t, (readLoop lib fuel c).1.heap p = some t ∧ t.status = .done) := by
  induction fuel generalizing c with
  | zero => exact ⟨[], Reads.skip c c.inbuf, fun hstop => by cases hstop⟩
  | succ fuel ih =>
    obtain ⟨new, hreads, hdone⟩ := connParseTransBufferLoop_reads lib c (c.inbuf.length + 1)
    rcases hres : connParseTransBuffer lib c with ⟨c', err, q⟩
    have hloop : connParseTransBufferLoop lib (c.inbuf.length + 1) c = (c', err, q) := hres
    rw [hloop] at hreads hdone
    simp only at hreads hdone
    rw [readLoop, hres]
    cases err with
    | error => exact ⟨new, hreads, fun hstop => by cases hstop⟩
    | wait => exact ⟨new, hreads, fun hstop => by cases hstop⟩
    | success =>
      cases q with
      | none => exact ⟨new, hreads, fun hstop => by cases hstop⟩
      | some p =>
        obtain ⟨hwait, hanswer, t, ht, hst⟩ := hdone p rfl
        simp only
        split
        · rename_i hping
          exact ⟨new, hreads, fun _ => ⟨p, hreads.pingtxn ▸ hping, hwait, hanswer, t, ht, hst⟩⟩
        · rename_i hother
          rw [hreads.pingtxn] at hother
          have hcomplete := hreads.complete hwait hother (by simp [ht])
          obtain ⟨new', hreads', hstop⟩ := ih (transCompleted c' p)
          refine ⟨_, hcomplete.trans hreads', fun hping => ?_⟩
          obtain ⟨q, hq, hwaits, ⟨msg, tranId, data, hmem, hmsg, hmap⟩, hdone⟩ := hstop hping
          exact ⟨q, hcomplete.pingtxn ▸ hq, hcomplete.waits q hwaits,
            ⟨msg, tranId, data, List.mem_append_right _ hmem, hmsg, hcomplete.transIdMap ▸ hmap⟩, hdone⟩

/-- How the read event ends from some point of its loop on: it has taken the answer of the ping, it
waits for more bytes, or it has given up the connection over a malformed message. -/
inductive ReadEnd (lib : Mstdlib) (c : Conn) (new : List Obs) : Conn × Pc → Prop
  | ping (c' : Conn) (p : Ptr) (t : Trans) : Reads c c' new → c.pingtxn = some p →
      c.toTransStore.waits p → BroughtBy lib c.toTransStore p new → c'.heap p = some t →
      t.status = .done → ReadEnd lib c new (connCleanupPing lib c', .cleaning .reply)
  | wait (c' : Conn) : Reads c c' new →
      ReadEnd lib c new (timerReset lib c' (c'.transPending = []), .delivering)
  | error (c' : Conn) : Reads c c' new → ReadEnd lib c new (connEventHandleConnError
      (setError (timerReset lib c' (c'.transPending = []))
        (ascii "Invalid response format received. Disconnect.")) .error, .delivering)

/-- The read event ends in one of these ways. -/
theorem readFrames_end : ∃ new, ReadEnd lib c new (readFrames lib c) := by
  obtain ⟨new, hreads, hping⟩ := readLoop_reads lib c (c.inbuf.length + 1)
  unfold readFrames
  rcases hres : readLoop lib (c.inbuf.length + 1) c with ⟨c', stop⟩
  rw [hres] at hreads hping
  cases stop with
  | ping =>
    obtain ⟨p, hp, hwait, hbrought, t, ht, hst⟩ := hping rfl
    exact ⟨new, .ping c' p t hreads hp hwait hbrought ht hst⟩
  | wait => exact ⟨new, .wait c' hreads⟩
  | error => exact ⟨new, .error c' hreads⟩

end Read

end LibMonetra
