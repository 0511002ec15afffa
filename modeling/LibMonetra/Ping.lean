import LibMonetra.Attempt
import LibMonetra.Deletion
import LibMonetra.Report

/-!
# The ping

A connection is proved by a transaction of the library itself. It is taken off its queue and deleted when
it has been answered, and when it is not answered in time. `LM_conn_event_handle_conn_error` knows nothing
of it: a connection that fails while its ping waits hands the ping to the event callback, and forgets
neither the transaction nor the pointer to it.
-/

namespace LibMonetra

open Foundation

variable (lib : Mstdlib)

/-- Whether the bytes that have arrived are malformed before they answer the ping. -/
def spoiledLoop (answers : ℕ → Bool) : ℕ → Bytes → Bool
  | 0, _ => false
  | fuel + 1, inbuf =>
    match frameScan inbuf with
    | .wait => false
    | .bad => true
    | .frame msg rest =>
      match readMsg lib msg with
      | none => true
      | some (tranId, _) => !answers tranId && spoiledLoop answers fuel rest

/-- Whether a chunk of bytes spoils the answer of the ping. -/
def spoils (c : Conn) (chunk : Bytes) : Bool :=
  spoiledLoop lib (fun tranId => decide (c.transIdMap tranId = c.pingtxn))
    ((c.inbuf ++ chunk).length + 1) (c.inbuf ++ chunk)

/-- What the ping must be spared: the end of its connection and malformed bytes while it waits, and a
caller that deletes a transaction of the library. -/
def Action.sparesPing (s : Sys) : Action → Bool
  | .event (.failed _ _) => s.conn.pingtxn.isNone
  | .event (.read chunk) => s.conn.pingtxn.isNone || !spoils lib s.conn chunk
  | .transDelete p => (s.conn.heap p).all fun t => decide (t.owner = .user)
  | _ => true

/-- The runs that spare the ping. -/
def pingSpared : System (Sys × ℕ) Action := (attempted lib).restrict fun w a => a.sparesPing lib w.1

/-- The ping does not leak: no event is about one; the pointer of a connection is to a live ping of its
own that waits for its answer; and a handler leaves nothing of a ping that has ended. -/
structure PingKept (w : Sys × ℕ) : Prop where
  silent : ∀ p type, .created p .ping ∈ w.1.conn.trace → .callback ⟨type, some p⟩ ∉ w.1.conn.trace
  current : w.1.conn.freed = false → ∀ p, w.1.conn.pingtxn = some p → w.1.conn.heap p ≠ none ∧
    .created p .ping ∈ w.1.conn.trace.drop w.2 ∧ w.1.conn.io.any Io.up = true ∧
      w.1.conn.status = .connecting
  gone : w.1.pc = .idle → ∀ p, .created p .ping ∈ w.1.conn.trace → w.1.conn.pingtxn ≠ some p →
    (∀ status, p ∉ w.1.conn.connQueue status) ∧ ∀ tranId, w.1.conn.transIdMap tranId ≠ some p

section Reply

variable {lib : Mstdlib} {q : Ptr}

/-- A connection that waits for the answer of its ping, and for no other. -/
structure Probing (q : Ptr) (c : Conn) : Prop where
  ping : c.pingtxn = some q
  mapped : ∀ tranId, c.transIdMap tranId = some q → c.toTransStore.waits q
  alone : ∀ p, c.toTransStore.waits p → p = q

/-- Bytes that do not spoil the answer of the ping leave the transactions alone, or bring it. -/
theorem connParseTransBufferLoop_unspoiled (fuel : ℕ) {c : Conn} (h : Probing q c)
    (hsound : spoiledLoop lib (fun tranId => decide (c.transIdMap tranId = c.pingtxn)) fuel c.inbuf = false) :
    (∃ (inbuf : Bytes) (msgs : List Bytes), connParseTransBufferLoop lib fuel c =
      ({ c with inbuf := inbuf, trace := c.trace ++ msgs.map .consumed }, .wait, none)) ∨
    ∃ c', connParseTransBufferLoop lib fuel c = (c', .success, some q) := by
  induction fuel generalizing c with
  | zero => exact Or.inl ⟨c.inbuf, [], by simp [connParseTransBufferLoop]⟩
  | succ fuel ih =>
    cases hscan : frameScan c.inbuf with
    | wait =>
      refine Or.inl ⟨c.inbuf, [], ?_⟩
      rw [connParseTransBufferLoop_wait lib (fuel + 1) hscan]
      simp
    | bad => simp [spoiledLoop, hscan] at hsound
    | frame msg rest =>
      rw [connParseTransBufferLoop_frame lib fuel hscan]
      simp only [spoiledLoop, hscan] at hsound
      rcases connParseMsg_cases lib { c with inbuf := rest, trace := c.trace ++ [.consumed msg] } msg with
        ⟨hmsg, -⟩ | ⟨tranId, data, r, hmsg, hparse, horphan⟩ | ⟨tranId, data, p, t, hmsg, -, ht, hst, hparse⟩
      · simp [hmsg] at hsound
      · simp only [hmsg, Bool.and_eq_false_iff, Bool.not_eq_false', decide_eq_true_eq] at hsound
        have hother : c.transIdMap tranId ≠ c.pingtxn := by
          intro hmap
          obtain ⟨t, ht, hst⟩ := h.mapped tranId (hmap.trans h.ping)
          exact horphan q t (hmap.trans h.ping) ht hst
        rw [hparse]
        rcases ih (c := { c with inbuf := rest, trace := c.trace ++ [.consumed msg] })
          ⟨h.ping, h.mapped, h.alone⟩ (hsound.resolve_left hother) with ⟨inbuf, msgs, heq⟩ | ⟨c', heq⟩
        · refine Or.inl ⟨inbuf, msg :: msgs, ?_⟩
          simp only [if_true, heq]
          simp
        · exact Or.inr ⟨c', by simp only [if_true, heq]⟩
      · obtain rfl := h.alone p ⟨t, ht, hst⟩
        rw [hparse]
        exact Or.inr ⟨_, if_neg ParseError.noConfusion⟩

/-- The read event ends with the answer of the ping, or leaves the transactions alone. -/
theorem readFrames_unspoiled {c : Conn} (h : Probing q c)
    (hsound : spoiledLoop lib (fun tranId => decide (c.transIdMap tranId = c.pingtxn))
      (c.inbuf.length + 1) c.inbuf = false) :
    (∃ (inbuf : Bytes) (msgs : List Bytes) (timer : Option Timer), readFrames lib c =
      ({ c with inbuf := inbuf, trace := c.trace ++ msgs.map .consumed, timer := timer }, .delivering)) ∨
    (readFrames lib c).2 = .cleaning .reply := by
  unfold readFrames
  rw [readLoop, connParseTransBuffer]
  rcases connParseTransBufferLoop_unspoiled (c.inbuf.length + 1) h hsound with ⟨inbuf, msgs, heq⟩ | ⟨c', heq⟩
  · rw [heq]
    exact Or.inl ⟨inbuf, msgs, _, rfl⟩
  · obtain ⟨new, hreads, -⟩ := connParseTransBufferLoop_reads lib c (c.inbuf.length + 1)
    have hping : c'.pingtxn = some q := by
      rw [heq] at hreads
      exact hreads.pingtxn.trans h.ping
    rw [heq]
    simp only [if_pos hping]
    exact Or.inr trivial

end Reply

section Carried

variable {lib : Mstdlib} {s s' : Sys} {a : Action} {p : Ptr}

/-- The events queued for a transaction, by their types. -/
theorem mem_queuedTypes {type : EventType} {trace : List Obs} :
    type ∈ queuedTypes (historyOf p trace) ↔ .queued ⟨type, some p⟩ ∈ trace := by
  constructor
  · intro h
    obtain ⟨o, ho, htype⟩ := List.mem_filterMap.mp h
    obtain ⟨hmem, habout⟩ := List.mem_filter.mp ho
    cases o with
    | queued e =>
      obtain ⟨etype, trans⟩ := e
      obtain rfl := Option.some.inj htype
      rw [Obs.about, beq_iff_eq] at habout
      exact habout ▸ hmem
    | _ => cases htype
  · intro h
    exact List.mem_filterMap.mpr ⟨_, (mem_historyOf (by simp [Obs.about])).mpr h, rfl⟩

/-- What has been created has been born. -/
theorem Running.born (h : Running lib s) {owner : Owner} (hcreated : .created p owner ∈ s.conn.trace) :
    p < s.conn.nextPtr := by
  by_contra hunborn
  have hfreed := (h.owned p).unborn hunborn _ ((mem_historyOf (by simp [Obs.about])).mpr hcreated)
  cases hfreed

/-- What was created before an action and lives after it, lived before it. -/
theorem Running.lived (h : Running lib s) (hstep : sysStep lib s a = some s') {owner : Owner}
    (hcreated : .created p owner ∈ s.conn.trace) (hlive : s'.conn.heap p ≠ none) :
    ∃ t, s.conn.heap p = some t ∧ t.owner = owner := by
  cases ht : s.conn.heap p with
  | some t => exact ⟨t, rfl, h.owner_eq ht hcreated⟩
  | none =>
    have hsteps := StoreSteps.life (sysStep_refines hstep h.link h.rep).2 h.rep p
    exact absurd (LifeSteps.gone hsteps (h.born hcreated) ht).1 hlive

/-- Nothing is queued for a transaction that is gone or done. -/
theorem Running.queued_before (h : Running lib s) (hstep : sysStep lib s a = some s') {owner : Owner}
    (hcreated : .created p owner ∈ s.conn.trace)
    (hdone : ∀ t, s.conn.heap p = some t → t.status = .done) {type : EventType}
    (hqueued : .queued ⟨type, some p⟩ ∈ s'.conn.trace) : .queued ⟨type, some p⟩ ∈ s.conn.trace := by
  have hsteps := StoreSteps.life (sysStep_refines hstep h.link h.rep).2 h.rep p
  have hsame : queuedTypes (historyOf p s'.conn.trace) = queuedTypes (historyOf p s.conn.trace) :=
    LifeSteps.quiet hsteps (h.life p).timed (h.born hcreated) hdone
  rw [← mem_queuedTypes] at hqueued ⊢
  rwa [← hsame]

/-- A deletion that was put off stays put off while the transaction lives. -/
theorem sysStep_delayed (hstep : sysStep lib s a = some s') (hrunning : Running lib s)
    (hlive : s'.conn.heap p ≠ none) (hp : p ∈ s.conn.transDelayRm) : p ∈ s'.conn.transDelayRm := by
  cases sysStep_turn hstep hrunning with
  | served new hclears hserved =>
    rw [hserved.handled.delayed]
    exact List.mem_append_left _ hp
  | delivered e rest ha hpc hevents hstore =>
    rw [hstore]
    exact hp
  | returned ha hpc hstore =>
    rw [hstore]
    exact hp
  | deleted q t ha hidle ht hstore =>
    rw [(hrunning.rest hidle).2.2] at hp
    cases hp
  | drained ha hpc hevents hstore =>
    rw [hstore, drainDelayRm_heap, if_pos hp] at hlive
    exact absurd rfl hlive
  | destroyed hdestroys hidle hfreed hstore =>
    rw [hstore] at hlive
    exact absurd rfl hlive

/-- A ping that is not about to be drained lives on, and only the clean-up of the ping puts off its
deletion. -/
theorem sysStep_spares (hstep : sysStep lib s a = some s') (hrunning : Running lib s)
    (hspared : a.sparesPing lib s = true) (hfreed : s'.conn.freed = false) {t : Trans}
    (ht : s.conn.heap p = some t) (hping : t.owner = .ping)
    (hkept : p ∉ s.conn.transDelayRm ∨ ∃ pingEnd, s.pc = .cleaning pingEnd) :
    s'.conn.heap p ≠ none ∧ (p ∉ s.conn.transDelayRm → (∀ pingEnd, s'.pc ≠ .cleaning pingEnd) →
      p ∉ s'.conn.transDelayRm) := by
  have hother : ∀ q, a = .transDelete q → q ≠ p := by
    rintro q rfl rfl
    simp [Action.sparesPing, ht, hping] at hspared
  cases sysStep_turn hstep hrunning with
  | served new hclears hserved =>
    refine ⟨Option.isSome_iff_ne_none.mp ((hserved.handled.live p).mpr (Or.inl (by simp [ht]))), ?_⟩
    intro hout hpc
    rw [hserved.handled.delayed, List.mem_append, not_or]
    refine ⟨hout, fun hdeleted => ?_⟩
    rcases hserved.deletes with hnone | ⟨q, hone, hdelete | ⟨-, -, pingEnd, hcleaning⟩⟩
    · rw [hnone] at hdeleted
      cases hdeleted
    · rw [hone] at hdeleted
      exact hother q hdelete (List.mem_singleton.mp hdeleted).symm
    · exact hpc pingEnd hcleaning
  | delivered e rest ha hpc hevents hstore =>
    rw [hstore]
    exact ⟨by simp [TransStore.log, ht], fun hout _ => hout⟩
  | returned ha hpc hstore =>
    rw [hstore]
    exact ⟨by simp [ht], fun hout _ => hout⟩
  | deleted q u ha hidle hu hstore =>
    have hne := hother q ha
    have hkill := TransStore.heap_killTimeoutTimer s.conn.toTransStore q u hu
    refine ⟨?_, fun hout _ => ?_⟩
    · rw [hstore, TransStore.heap_free, Function.update_of_ne hne.symm]
      change (s.conn.toTransStore.killTimeoutTimer q u).heap p ≠ none
      rw [hkill, Function.update_of_ne hne.symm, ht]
      exact Option.some_ne_none t
    · rw [hstore]
      simpa [TransStore.log] using hout
  | drained ha hpc hevents hstore =>
    have hout : p ∉ s.conn.transDelayRm := by
      refine hkept.resolve_right fun hcleaning => ?_
      obtain ⟨pingEnd, hcleaning⟩ := hcleaning
      rw [hpc] at hcleaning
      cases hcleaning
    obtain ⟨st, timer, heq, -, -, hempty⟩ := drainDelayRm_spec lib s.conn.transDelayRm s.conn rfl
    refine ⟨?_, fun _ _ => ?_⟩
    · rw [hstore, drainDelayRm_heap, if_neg hout, ht]
      exact Option.some_ne_none t
    · rw [hstore, heq]
      simp [hempty]
  | destroyed hdestroys hidle hgone hstore =>
    rw [hgone] at hfreed
    cases hfreed

end Carried

section Held

/-- Nobody has been told of a ping. -/
def Untold (trace : List Obs) : Prop :=
  ∀ p type, .created p .ping ∈ trace → .queued ⟨type, some p⟩ ∉ trace

/-- How a connection holds its ping. Every other ping waits to be drained; the one of the connection is
pending until a handler cleans it up, and waits to be drained from then on. -/
structure PingHeld (s : Sys) (mark : ℕ) : Prop where
  live : ∀ p t, s.conn.heap p = some t → t.owner = .ping →
    s.conn.pingtxn = some p ∨ p ∈ s.conn.transDelayRm
  current : ∀ p, s.conn.pingtxn = some p → s.conn.heap p ≠ none ∧
    .created p .ping ∈ s.conn.trace.drop mark ∧ s.conn.io.any Io.up = true
  awaited : (∀ pingEnd, s.pc ≠ .cleaning pingEnd) → ∀ p, s.conn.pingtxn = some p →
    p ∈ s.conn.transPending ∧ p ∉ s.conn.transDelayRm
  retired : ∀ pingEnd, s.pc = .cleaning pingEnd → ∀ p t, s.conn.heap p = some t → t.owner = .ping →
    p ∈ s.conn.transDelayRm ∧ p ∉ s.conn.transPending ∧ (pingEnd ≠ .timeout → t.status = .done)

variable {lib : Mstdlib} {s s' : Sys} {a : Action} {p : Ptr} {mark : ℕ}

/-- Between two handlers the only live ping is the one of the connection. -/
theorem PingHeld.of_idle (h : PingHeld s mark) (hrunning : Running lib s) (hidle : s.pc = .idle) {t : Trans}
    (ht : s.conn.heap p = some t) (hping : t.owner = .ping) : s.conn.pingtxn = some p := by
  refine (h.live p t ht hping).resolve_right fun hdelay => ?_
  rw [(hrunning.link.rest (by rw [hidle]; rfl)).2.2] at hdelay
  cases hdelay

/-- The read event is the loop over the received frames. -/
theorem sysStep_read {chunk : Bytes} (h : sysStep lib s (.event (.read chunk)) = some s') :
    s.pc = .idle ∧ s.conn.io.any Io.up = true ∧
      s' = { s with
        conn := (readFrames lib { s.conn with inUse := true, inbuf := s.conn.inbuf ++ chunk }).1
        pc := (readFrames lib { s.conn with inUse := true, inbuf := s.conn.inbuf ++ chunk }).2 } := by
  cases sysStep_walk h with
  | enters event r hidle henabled hr heq hpc =>
    obtain rfl := Option.some.inj hr
    exact ⟨hidle, henabled, heq⟩
  | stays _ hcalls _ => cases hcalls

/-- While the ping waits, bytes that do not spoil its answer leave the transactions alone, or bring it. -/
theorem PingHeld.read (h : PingHeld s mark) (hrunning : Running lib s) (hstage : Stage s) {chunk : Bytes}
    (hstep : sysStep lib s (.event (.read chunk)) = some s') (hping : s.conn.pingtxn = some p)
    (hspared : (Action.event (.read chunk)).sparesPing lib s = true) :
    (∃ (inbuf : Bytes) (msgs : List Bytes) (timer : Option Timer), s' = { s with
      conn := { s.conn with
        inUse := true
        inbuf := inbuf
        trace := s.conn.trace ++ msgs.map .consumed
        timer := timer }
      pc := .delivering }) ∨ s'.pc = .cleaning .reply := by
  obtain ⟨hidle, hup, heq⟩ := sysStep_read hstep
  have hsound : spoils lib s.conn chunk = false := by
    simpa [Action.sparesPing, hping] using hspared
  have hpending : p ∈ s.conn.transPending :=
    (h.awaited (by simp [hidle]) p hping).1
  have hprobing : Probing p { s.conn with inUse := true, inbuf := s.conn.inbuf ++ chunk } := by
    refine ⟨hping, fun tranId _ => hrunning.rep.queued .pending p hpending, fun q hq => ?_⟩
    have hproving := hstage.proving (hstage.connecting_of_ping hup (by simp [hping])) q
      (hrunning.pending_of_waits hidle hq)
    rw [hping] at hproving
    exact (Option.some.inj hproving).symm
  rcases readFrames_unspoiled hprobing hsound with ⟨inbuf, msgs, timer, hleft⟩ | hreply
  · rw [hleft] at heq
    exact Or.inl ⟨inbuf, msgs, timer, heq⟩
  · rw [heq]
    exact Or.inr hreply

/-- A ping is created when a connection comes up. -/
theorem Running.created_ping (h : Running lib s) (hstage : Stage s) (hstep : sysStep lib s a = some s')
    (hcreated : .created p .ping ∈ s'.conn.trace) : .created p .ping ∈ s.conn.trace ∨
      (p = s.conn.nextPtr ∧ s'.conn.pingtxn = some p ∧ ∃ status frame, s'.conn.trace =
        s.conn.trace ++ [.created p .ping, .framed p .ping status frame]) := by
  obtain ⟨new, htrace, hbelongs, -⟩ := sysStep_report hstep h hstage
  rw [htrace] at hcreated
  refine (List.mem_append.mp hcreated).imp id fun hnew => ?_
  obtain ⟨draws, written, rfl⟩ := hbelongs _ hnew
  cases sysStep_move hstep h with
  | aside _ later hrecords haside =>
    have hsame : later = new := List.append_cancel_left (haside.trace.symm.trans htrace)
    exact Bool.noConfusion (haside.records _ (hsame ▸ hnew))
  | pinged _ _ draw hidle hio hping hdraw heq =>
    have hsame : new = [.created s.conn.nextPtr .ping, .framed s.conn.nextPtr .ping s.conn.status
        (requestFrame lib draw.val pingParams)] := by
      refine List.append_cancel_left (htrace.symm.trans ?_)
      rw [heq]
      simp [TransStore.log]
    rw [hsame] at hnew htrace
    obtain rfl : p = s.conn.nextPtr := by simpa using hnew
    exact ⟨rfl, by rw [heq], _, _, htrace⟩
  | unpinged _ _ hidle hio hping heq =>
    obtain ⟨⟨later, hlater, hdeleted⟩, -, -⟩ := connCleanupPing_deletes lib { s.conn with
      inUse := true
      io := s.conn.io.map fun io => { io with up := true } } rfl
    have hsame : new = later := by
      refine List.append_cancel_left (htrace.symm.trans ?_)
      rw [heq]
      exact hlater
    rw [hsame] at hnew
    rcases hdeleted with rfl | ⟨q, rfl⟩
    · cases hnew
    · simp at hnew
  | refused _ _ _ _ _ hconnects _ _ => cases hconnects
  | opened _ _ _ _ _ _ _ hconnects _ _ _ _ _ => cases hconnects
  | dialed _ _ _ _ _ _ hconnects _ _ _ _ _ => cases hconnects
  | destroyed _ _ hdestroys _ _ _ => cases hdestroys

/-- A step that spares the ping tells nobody of it. -/
theorem Untold.step (huntold : Untold s.conn.trace) (h : PingHeld s mark) (hrunning : Running lib s)
    (hstage : Stage s) (hstep : sysStep lib s a = some s') (hspared : a.sparesPing lib s = true) :
    Untold s'.conn.trace := by
  intro p type hcreated hqueued
  have htype := ((hrunning.step hstep).owned p).pingTold ((mem_historyOf (by simp [Obs.about])).mpr hcreated)
    type ((mem_historyOf (by simp [Obs.about])).mpr hqueued)
  rcases hrunning.created_ping hstage hstep hcreated with hold | ⟨rfl, -, status, frame, htrace⟩
  swap
  · -- a new ping has no history
    rw [htrace] at hqueued
    have hpast : .queued ⟨type, some s.conn.nextPtr⟩ ∈ s.conn.trace := by simpa using hqueued
    have hfreed := (hrunning.owned s.conn.nextPtr).unborn (Nat.lt_irrefl _) _
      ((mem_historyOf (by simp [Obs.about])).mpr hpast)
    cases hfreed
  by_cases hdone : ∀ t, s.conn.heap p = some t → t.status = .done
  · exact huntold p type hold (hrunning.queued_before hstep hold hdone hqueued)
  push Not at hdone
  obtain ⟨t, ht, hst⟩ := hdone
  have hping : t.owner = .ping := hrunning.owner_eq ht hold
  obtain ⟨new, htrace, -, hreport⟩ := sysStep_report hstep hrunning hstage
  have hnew : .queued ⟨type, some p⟩ ∈ new := by
    rw [htrace] at hqueued
    exact (List.mem_append.mp hqueued).resolve_left (huntold p type hold)
  cases hreport with
  | calm hevents hregistered hstatus =>
    obtain ⟨htimeout, -⟩ := hevents _ (mem_eventsOf.mpr hnew)
    simp only at htimeout
    rw [htimeout] at htype
    rcases htype with htype | htype <;> cases htype
  | dialed hnone hregistered hregistered' hstatus =>
    rw [hnone] at hnew
    cases hnew
  | answered chunk ha hidle hup hregistered hstatus hreads =>
    have hcurrent := h.of_idle hrunning hidle ht hping
    rcases hreads _ hnew with (⟨_, ho⟩ | ⟨_, _, _, ho⟩ | ⟨q, -, hother, ho⟩) | ⟨_, ho⟩
    · cases ho
    · cases ho
    · obtain ⟨-, rfl⟩ : type = .transDone ∧ p = q := by simpa [queuedAs] using ho
      exact hother hcurrent
    · cases ho
  | established pingEnd done ha hpc hne hregistered hstatus hevents hdone =>
    exact hst ((h.retired pingEnd hpc p t ht hping).2.2 hne)
  | tornDown c failure before hgiven hregistered heq =>
    rcases hgiven.cause with ⟨failure', text, rfl⟩ | rfl | ⟨chunk, rfl⟩
    · cases sysStep_walk hstep with
      | enters event r hidle henabled hr heq hpc =>
        rw [Action.sparesPing, h.of_idle hrunning hidle ht hping] at hspared
        cases hspared
      | stays _ hcalls _ => cases hcalls
    · cases sysStep_walk hstep with
      | resumes pingEnd hpc heq' hpc' =>
        obtain ⟨-, hout, hdone⟩ := h.retired pingEnd hpc p t ht hping
        obtain rfl : pingEnd = .timeout := by
          by_contra hne
          exact hst (hdone hne)
        have hnone : before = [] := by
          rcases hgiven.unread with hidle | hreply | hnone
          · rw [hpc] at hidle
            cases hidle
          · rw [hpc] at hreply
            cases hreply
          · exact hnone
        rw [heq, hnone, List.nil_append, teardownRecord, List.mem_append, List.mem_append] at hnew
        rcases hnew with (hnew | hnew) | hnew
        · obtain ⟨q, -, hq⟩ := List.mem_map.mp hnew
          obtain ⟨rfl, -⟩ : .transNoconnect = type ∧ q = p := by simpa [queuedAs] using hq
          rcases htype with htype | htype <;> cases htype
        · obtain ⟨q, hq, hqueued⟩ := List.mem_map.mp hnew
          obtain ⟨-, rfl⟩ : .transError = type ∧ q = p := by simpa [queuedAs] using hqueued
          have hmem := hgiven.pending hq
          rw [teardownPending, if_neg (by simp [hpc])] at hmem
          exact hout hmem
        · simp at hnew
      | stays _ hcalls _ => cases hcalls
    · have hidle := (sysStep_read hstep).1
      have hcurrent := h.of_idle hrunning hidle ht hping
      have hup := (h.current p hcurrent).2.2
      rcases h.read hrunning hstage hstep hcurrent hspared with ⟨_, _, _, hleft⟩ | hreply
      · have hdown := hgiven.down
        rw [hleft] at hdown
        have hconnecting := hstage.connecting_of_ping hup (by simp [hcurrent])
        simp only at hdown
        rw [hconnecting] at hdown
        cases hdown
      · rw [hgiven.pc] at hreply
        cases hreply
  | destroyed hfreed heq =>
    rw [heq] at hnew
    simp at hnew

/-- What an action does to the ping: it leaves it alone, creates one, cleans it up or forgets it. -/
inductive PingMove (s s' : Sys) : Prop
  | kept : s'.conn.pingtxn = s.conn.pingtxn →
      (∀ pingEnd, s'.pc = .cleaning pingEnd ↔ s.pc = .cleaning pingEnd) →
      (∀ p, s.conn.pingtxn = some p → s'.conn.io.any Io.up = true ∧
        ∀ status msg, .answered p status msg ∈ s'.conn.trace → .answered p status msg ∈ s.conn.trace) →
      (∀ pingEnd, s.pc = .cleaning pingEnd → s'.conn.transPending.Sublist s.conn.transPending) →
      PingMove s s'
  | begun : s.pc = .idle → s.conn.io.any Io.up = false → s'.pc = .delivering →
      s'.conn.io.any Io.up = true → s'.conn.pingtxn = some s.conn.nextPtr →
      s.conn.nextPtr ∈ s'.conn.transPending → s'.conn.transDelayRm = s.conn.transDelayRm →
      .created s.conn.nextPtr .ping ∈ s'.conn.trace.drop s.conn.trace.length → PingMove s s'
  | retired (pingEnd : PingEnd) : s.pc = .idle → s'.pc = .cleaning pingEnd →
      s'.conn.pingtxn = s.conn.pingtxn →
      (∀ p, s.conn.pingtxn = some p → s'.conn.io.any Io.up = true ∧ p ∈ s'.conn.transDelayRm ∧
        p ∉ s'.conn.transPending ∧ ∃ t, s'.conn.heap p = some t ∧ (pingEnd ≠ .timeout → t.status = .done)) →
      PingMove s s'
  | forgotten (pingEnd : PingEnd) : s.pc = .cleaning pingEnd → s'.pc = .delivering →
      s'.conn.pingtxn = none → PingMove s s'

/-- The clean-up of the ping takes it off its queue and puts off its end. -/
theorem connCleanupPing_retires {c : Conn} {t : Trans} (hping : c.pingtxn = some p) (ht : c.heap p = some t)
    (hnodup : c.transPending.Nodup) (hbusy : c.inUse = true) :
    (connCleanupPing lib c).io = c.io ∧ (connCleanupPing lib c).pingtxn = c.pingtxn ∧
      p ∈ (connCleanupPing lib c).transDelayRm ∧ p ∉ (connCleanupPing lib c).transPending ∧
      ∃ t', (connCleanupPing lib c).heap p = some t' ∧ t'.status = t.status := by
  have heq : connCleanupPing lib c = { c with
      toTransStore := ({ c.toTransStore with transPending := c.transPending.erase p } : TransStore).defer p t
      timer := none } := by
    unfold connCleanupPing
    simp only
    split
    · rename_i hnone
      rw [hping] at hnone
      cases hnone
    · rename_i q hq
      obtain rfl : p = q := Option.some.inj (hping.symm.trans hq)
      exact @transDelete_inUse lib { c with timer := none, transPending := c.transPending.erase p } p t ht
        hbusy
  have hqueue := TransStore.connQueue_defer
    { c.toTransStore with transPending := c.transPending.erase p } p t .pending
  rw [heq]
  refine ⟨rfl, ?_, ?_, ?_, ?_⟩
  · simp [TransStore.defer, TransStore.log]
  · simp [TransStore.defer, TransStore.log]
  · intro hmem
    change p ∈ TransStore.connQueue _ .pending at hmem
    rw [hqueue] at hmem
    exact (hnodup.mem_erase_iff.mp hmem).1 rfl
  · have hkill := TransStore.heap_killTimeoutTimer
      { c.toTransStore with transPending := c.transPending.erase p } p t ht
    refine ⟨{ t with timeoutTimer := false }, ?_, rfl⟩
    change (TransStore.killTimeoutTimer _ p t).heap p = _
    rw [hkill, Function.update_self]

/-- An I/O object that is coming up is not up yet. -/
theorem up_eq_false_of_dialing {io : Option Io} (h : io.any (fun io => io.registered && !io.up) = true) :
    io.any Io.up = false := by
  cases io with
  | none => rfl
  | some io =>
    obtain ⟨-, hup⟩ := Bool.and_eq_true_iff.mp h
    simpa using hup

/-- Without an I/O object that is up there is no ping. -/
theorem PingHeld.none_of_down (h : PingHeld s mark) (hdown : s.conn.io.any Io.up = false) :
    s.conn.pingtxn = none := by
  cases hping : s.conn.pingtxn with
  | none => rfl
  | some p =>
    rw [(h.current p hping).2.2] at hdown
    cases hdown

/-- Where there is no ping, nothing happens to it. -/
theorem PingMove.absent (hsame : s'.conn.pingtxn = s.conn.pingtxn) (hnone : s.conn.pingtxn = none)
    (hpc : ∀ pingEnd, s'.pc = .cleaning pingEnd ↔ s.pc = .cleaning pingEnd)
    (hout : ∀ pingEnd, s.pc ≠ .cleaning pingEnd) : PingMove s s' :=
  .kept hsame hpc (fun p hp => by simp [hnone] at hp) fun pingEnd hcleaning => absurd hcleaning (hout pingEnd)

/-- An established connection has no ping. -/
theorem Stage.pingless (h : Stage s) (hup : s.conn.status = .connected) :
    s.conn.pingtxn = none ∧ ∀ pingEnd, s.pc ≠ .cleaning pingEnd := by
  refine ⟨(h.proved (by simp [hup]) (by simp [hup])).2, fun pingEnd hpc => ?_⟩
  cases hup.symm.trans (h.cleaning pingEnd hpc).2

/-- An attempt that makes an I/O object finds no ping. -/
theorem PingHeld.attempted (h : PingHeld s mark) (hstage : Stage s) (hnone : s.conn.io = none) {c : Conn}
    {connecting : Option Connector} {callers : ℕ} {pc next : Pc} (hsame : c.pingtxn = s.conn.pingtxn)
    (hpc : pc = s.pc ∨ s.pc = .reconnecting true ∧ pc = next) (hnext : ∀ pingEnd, next ≠ .cleaning pingEnd) :
    PingMove s ⟨c, pc, callers, connecting⟩ :=
  .absent hsame (h.none_of_down (by simp [hnone]))
    (fun pingEnd => Pc.cleaning_iff_of_attempt hpc (hnext pingEnd))
    (hstage.of_none hnone).2.2.2

/-- Neither does an attempt whose creation callback has returned. -/
theorem PingHeld.answeredCallback (h : PingHeld s mark) (hstage : Stage s) {who : Connector}
    (hwho : s.connecting = some who) {c : Conn} (hsame : c.pingtxn = s.conn.pingtxn) :
    PingMove s ⟨c, if who = .handler then .finishing else s.pc, s.callers, none⟩ := by
  obtain ⟨io, hio, -, hup⟩ := hstage.of_connecting (by simp [hwho])
  obtain ⟨-, -, hout⟩ := hstage.blank_of_connecting hwho
  exact .absent hsame (h.none_of_down (by simp [hio, hup]))
    (fun pingEnd => ⟨Pc.cleaning_of_finish, fun hpc => absurd hpc (hout pingEnd)⟩) hout

/-- An accepted transaction is not the ping. -/
theorem PingHeld.accepted (h : PingHeld s mark) {t : Trans} (hst : t.status = .new) (callers : ℕ) :
    PingMove s { s with
      conn := { s.conn with
        toTransStore := (s.conn.toTransStore.move p t { t with status := .ready }).log (.accepted p) }
      callers := callers } := by
  refine .kept (by simp [TransStore.log]) (fun _ => Iff.rfl) (fun q hq => ⟨(h.current q hq).2.2, ?_⟩)
    fun _ _ => ?_
  · intro status msg hmem
    simpa [TransStore.log] using hmem
  · have hqueue := TransStore.connQueue_move s.conn.toTransStore p t { t with status := .ready } .pending
    rw [hst, if_neg TransStatus.noConfusion, if_neg TransStatus.noConfusion, List.append_nil] at hqueue
    change (TransStore.connQueue _ .pending).Sublist (s.conn.connQueue .pending)
    rw [TransStore.connQueue_log, hqueue]

/-- The time of the ping is over. -/
theorem PingHeld.expired (h : PingHeld s mark) (hrunning : Running lib s) (hidle : s.pc = .idle) :
    PingMove s { s with
      conn := connCleanupPing lib { s.conn with inUse := true }
      pc := .cleaning .timeout } := by
  refine .retired .timeout hidle rfl (connCleanupPing_handled _ lib rfl).1 fun p hp => ?_
  obtain ⟨hlive, -, hup⟩ := h.current p hp
  obtain ⟨t, ht⟩ := Option.ne_none_iff_exists'.mp hlive
  obtain ⟨hio, -, hdelay, hout, t', ht', -⟩ := @connCleanupPing_retires lib p
    { s.conn with inUse := true } t hp ht (hrunning.rep.nodup .pending) rfl
  exact ⟨by rw [hio]; exact hup, hdelay, hout, t', ht', fun hne => absurd rfl hne⟩

/-- A connection without a ping reads. -/
theorem ReadEnd.pingMove {c : Conn} {new : List Obs} {r : Conn × Pc} (hend : ReadEnd lib c new r)
    (hsame : c.pingtxn = s.conn.pingtxn) (hnone : s.conn.pingtxn = none) (hidle : s.pc = .idle) :
    PingMove s { s with conn := r.1, pc := r.2 } := by
  have hpc : ∀ pingEnd, Pc.delivering = .cleaning pingEnd ↔ s.pc = .cleaning pingEnd := fun _ => by simp [hidle]
  cases hend with
  | ping c' p t hreads hp hwait hbrought ht hst => cases (hsame.trans hnone).symm.trans hp
  | wait c' hreads => exact .absent (hreads.pingtxn.trans hsame) hnone hpc (by simp [hidle])
  | error c' hreads =>
    exact .absent ((connEventHandleConnError_pingtxn _ _).trans (hreads.pingtxn.trans hsame)) hnone hpc
      (by simp [hidle])

/-- A connection with a ping reads on, or reads the reply. -/
theorem PingHeld.readMove (h : PingHeld s mark) (hrunning : Running lib s) (hstage : Stage s) {chunk : Bytes}
    {new : List Obs} {r : Conn × Pc}
    (hstep : sysStep lib s (.event (.read chunk)) = some { s with conn := r.1, pc := r.2 })
    (hping : s.conn.pingtxn = some p) (hspared : Action.sparesPing lib s (.event (.read chunk)) = true)
    (hidle : s.pc = .idle) (hup : s.conn.io.any Io.up = true)
    (hend : ReadEnd lib { s.conn with inUse := true, inbuf := s.conn.inbuf ++ chunk } new r) :
    PingMove s { s with conn := r.1, pc := r.2 } := by
  rcases h.read hrunning hstage hstep hping hspared with ⟨inbuf, msgs, timer, hleft⟩ | hreply
  · rw [hleft]
    refine .kept rfl (fun _ => by simp [hidle]) (fun _ _ => ⟨hup, fun status msg hmem => ?_⟩) fun _ _ => .refl _
    simpa using hmem
  · cases hend with
    | ping c' q t hreads hq hwait hbrought ht hst =>
      obtain ⟨hio, hsame, hdelay, hout, t', ht', hst'⟩ := connCleanupPing_retires
        (hreads.pingtxn.trans hq) ht (hreads.pending.nodup (hrunning.rep.nodup .pending)) hreads.inUse
      refine .retired .reply hidle rfl (hsame.trans hreads.pingtxn) fun p' hp' => ?_
      obtain rfl : q = p' := Option.some.inj (hq.symm.trans hp')
      refine ⟨?_, hdelay, hout, t', ht', fun _ => hst'.trans hst⟩
      simp only [hio, hreads.kept.2.2]
      exact hup
    | wait c' hreads => cases hreply
    | error c' hreads => cases hreply

/-- The reply to the ping has been cleaned up, and the connection reads on without a ping. -/
theorem ReadEnd.forgets {new : List Obs} {r : Conn × Pc}
    (hend : ReadEnd lib (connEventSetConnected lib { s.conn with pingtxn := none }) new r)
    (hpc : s.pc = .cleaning .reply) : PingMove s { s with conn := r.1, pc := r.2 } := by
  have hnone := connEventSetConnected_pingtxn lib { s.conn with pingtxn := none }
  cases hend with
  | ping c' p t hreads hp hwait hbrought ht hst => cases hnone.symm.trans hp
  | wait c' hreads => exact .forgotten .reply hpc rfl (hreads.pingtxn.trans hnone)
  | error c' hreads =>
    exact .forgotten .reply hpc rfl ((connEventHandleConnError_pingtxn _ _).trans (hreads.pingtxn.trans hnone))

/-- Every action that spares the ping does one of these things. -/
theorem sysStep_pingMove (hstep : sysStep lib s a = some s') (h : PingHeld s mark)
    (hrunning : Running lib s) (hstage : Stage s) (hspared : a.sparesPing lib s = true)
    (hfreed : s'.conn.freed = false) : PingMove s s' := by
  cases sysStep_move hstep hrunning with
  | aside _ new hqueued haside =>
    refine .kept haside.pingtxn haside.cleaning (fun p hp => ⟨haside.io ▸ (h.current p hp).2.2, ?_⟩)
      fun _ _ => haside.pending
    intro status msg hmem
    rw [haside.trace] at hmem
    exact (List.mem_append.mp hmem).resolve_right fun hnew => Bool.noConfusion (haside.records _ hnew)
  | accepted p t _ _ hst heq => exact heq ▸ h.accepted hst _
  | sent p t hup ht hst heq =>
    subst heq
    obtain ⟨hnone, hout⟩ := hstage.pingless hup
    obtain ⟨_, _, _, _, _, heq, -, -⟩ := transSendMessages_shape lib { s.conn with
      toTransStore :=
        (s.conn.toTransStore.move p t { t with status := .ready }).log (.accepted p) } hup
    refine .absent ?_ hnone (fun _ => Iff.rfl) hout
    simp only [heq]
    simp [TransStore.log]
  | refused _ tlsctx error callers pc _ hpc heq =>
    subst heq
    exact .kept rfl (fun pingEnd => Pc.cleaning_iff_of_attempt hpc Pc.noConfusion)
      (fun p hp => ⟨(h.current p hp).2.2, fun _ _ => id⟩) fun _ _ => .refl _
  | opened _ who io tlsctx error callers pc _ hnone _ _ hpc heq =>
    exact heq ▸ h.attempted hstage hnone rfl hpc fun _ => Pc.noConfusion
  | dialed _ io tlsctx error callers pc _ hnone _ _ hpc heq =>
    exact heq ▸ h.attempted hstage hnone rfl hpc fun _ => Pc.noConfusion
  | registered who hwho heq => exact heq ▸ h.answeredCallback hstage hwho rfl
  | dropped who error hwho heq => exact heq ▸ h.answeredCallback hstage hwho rfl
  | disconnecting io hup _ heq =>
    obtain ⟨hnone, hout⟩ := hstage.pingless hup
    exact heq ▸ .absent rfl hnone (fun _ => Iff.rfl) hout
  | idled hidle hup _ heq =>
    subst heq
    exact .absent rfl (hstage.pingless hup).1 (fun _ => by simp [hidle]) (by simp [hidle])
  | pinged draws written draw hidle hio _ _ heq =>
    subst heq
    obtain ⟨io, hsome, -, -, -, hblank⟩ := hstage.of_dialing hio
    refine .begun hidle (up_eq_false_of_dialing hio) rfl (by simp [hsome]) rfl ?_ ?_ ?_
    · change s.conn.nextPtr ∈ (s.conn.toTransStore.create _).transPending
      simp [TransStore.create]
    · simp [TransStore.log]
    · simp [TransStore.log]
  | unpinged draws written hidle hio _ heq =>
    subst heq
    refine .retired .disabled hidle rfl (connCleanupPing_handled _ lib rfl).1 fun p hp => ?_
    rw [h.none_of_down (up_eq_false_of_dialing hio)] at hp
    cases hp
  | failed failure text error hidle _ heq =>
    subst heq
    have hnone : s.conn.pingtxn = none := Option.isNone_iff_eq_none.mp hspared
    exact .absent (connEventHandleConnError_pingtxn _ _) hnone (fun _ => by simp [hidle]) (by simp [hidle])
  | read chunk new r hidle hup hend heq =>
    subst heq
    cases hping : s.conn.pingtxn with
    | none => exact hend.pingMove rfl hping hidle
    | some p => exact h.readMove hrunning hstage hstep hping hspared hidle hup hend
  | wrote written hidle hup heq =>
    subst heq
    exact .kept rfl (fun _ => by simp [hidle]) (fun p hp => ⟨hup, fun _ _ => id⟩) fun _ _ => .refl _
  | expired hidle _ _ heq => exact heq ▸ h.expired hrunning hidle
  | unguarded hpc heq =>
    subst heq
    exact .forgotten .disabled hpc rfl (connEventSetConnected_pingtxn lib _)
  | proved new r hpc hend heq => exact heq ▸ hend.forgets hpc
  | unproved error hpc heq =>
    subst heq
    exact .forgotten .timeout hpc rfl (connEventHandleConnError_pingtxn _ _)
  | destroyed _ pc hdestroys hidle hpc heq =>
    subst heq
    simp [connDestroy, hidle] at hfreed

/-- A live ping was there before, unless it is the new one of the connection. -/
theorem Running.lived_ping (hrunning : Running lib s) (hstage : Stage s) (hstep : sysStep lib s a = some s')
    {t' : Trans} (ht' : s'.conn.heap p = some t') (hping : t'.owner = .ping) :
    (∃ t, s.conn.heap p = some t ∧ t.owner = .ping) ∨ (p = s.conn.nextPtr ∧ s'.conn.pingtxn = some p) := by
  have hcreated := (hrunning.step hstep).created ht'
  rw [hping] at hcreated
  rcases hrunning.created_ping hstage hstep hcreated with hpast | ⟨hp, hnew, -⟩
  · exact Or.inl (hrunning.lived hstep hpast (by simp [ht']))
  · exact Or.inr ⟨hp, hnew⟩

/-- A ping that is still awaited is still pending. -/
theorem PingHeld.pending (h : PingHeld s mark) (hrunning : Running lib s) (hstep : sysStep lib s a = some s')
    (hspared : a.sparesPing lib s = true) (hfreed : s'.conn.freed = false) (huntold : Untold s'.conn.trace)
    (hping : s.conn.pingtxn = some p) (hpc : ∀ pingEnd, s.pc ≠ .cleaning pingEnd)
    (hpc' : ∀ pingEnd, s'.pc ≠ .cleaning pingEnd) (hunanswered : ∀ status msg,
      .answered p status msg ∈ s'.conn.trace → .answered p status msg ∈ s.conn.trace) :
    p ∈ s'.conn.transPending ∧ p ∉ s'.conn.transDelayRm := by
  have hrunning' := hrunning.step hstep
  obtain ⟨hpending, hout⟩ := h.awaited hpc p hping
  obtain ⟨t, ht, hst⟩ := hrunning.rep.queued .pending p hpending
  have howner : t.owner = .ping := (hrunning.life p).timed.ping t ht hping
  obtain ⟨hlive, hkept⟩ := sysStep_spares hstep hrunning hspared hfreed ht howner (Or.inl hout)
  obtain ⟨t', ht'⟩ := Option.ne_none_iff_exists'.mp hlive
  have hsteps := StoreSteps.life (sysStep_refines hstep hrunning.link hrunning.rep).2 hrunning.rep p
  obtain ⟨howner', -, -⟩ := LifeSteps.moved hsteps (hrunning.life p).timed ht ht'
  have hst' : t'.status = .pending := by
    refine ((hrunning'.life p).timed.pingStatus t' ht' (howner'.trans howner)).resolve_right fun hdone => ?_
    rcases (hrunning'.completed p) t' ht' hdone with ⟨msg, hanswered⟩ | hqueued
    · have hpast := hunanswered _ _ ((mem_historyOf (by simp [Obs.about])).mp hanswered)
      rw [hrunning.done_of_answered ht hpast] at hst
      cases hst
    · refine huntold p _ ?_ ((mem_historyOf (by simp [Obs.about])).mp hqueued)
      exact howner'.trans howner ▸ hrunning'.created ht'
  refine ⟨?_, hkept hout hpc'⟩
  have hplaced := (hrunning'.rep.placed p t' ht').resolve_right (hkept hout hpc')
  rw [hst'] at hplaced
  exact hplaced

/-- A step that spares the ping keeps it held. -/
theorem PingHeld.step (h : PingHeld s mark) (hrunning : Running lib s) (hstage : Stage s)
    (hstep : sysStep lib s a = some s') (hspared : a.sparesPing lib s = true)
    (hfreed : s'.conn.freed = false) (huntold : Untold s'.conn.trace) (hbound : mark ≤ s.conn.trace.length) :
    PingHeld s' (if a.attempts s then s.conn.trace.length else mark) := by
  have hrunning' := hrunning.step hstep
  obtain ⟨new, htrace, -, -⟩ := sysStep_report hstep hrunning hstage
  have hrecent : ∀ p, s.conn.pingtxn = some p →
      .created p .ping ∈ s'.conn.trace.drop (if a.attempts s then s.conn.trace.length else mark) := by
    intro p hp
    obtain ⟨-, hcreated, hup⟩ := h.current p hp
    have hstays : a.attempts s = false := by
      unfold Action.attempts
      cases hio : s.conn.io with
      | none => simp [hio] at hup
      | some io => simp
    rw [hstays, if_neg Bool.false_ne_true, htrace, List.drop_append_of_le_length hbound]
    exact List.mem_append_left _ hcreated
  have hpast : (∀ p, s'.conn.pingtxn = some p → s.conn.pingtxn = some p) → ∀ p t',
      s'.conn.heap p = some t' → t'.owner = .ping → ∃ t, s.conn.heap p = some t ∧ t.owner = .ping := by
    intro hsame p t' ht' hping
    refine (hrunning.lived_ping hstage hstep ht' hping).resolve_right fun hnew => ?_
    obtain ⟨rfl, hnew⟩ := hnew
    obtain ⟨t, ht⟩ := Option.ne_none_iff_exists'.mp (h.current _ (hsame _ hnew)).1
    exact absurd (hrunning.rep.fresh _ t ht) (Nat.lt_irrefl _)
  cases sysStep_pingMove hstep h hrunning hstage hspared hfreed with
  | kept hsame hpc hcurrent hpending =>
    have hlived := hpast fun p hp => hsame ▸ hp
    refine ⟨fun p t' ht' hping => ?_, fun p hp => ?_, fun hout p hp => ?_,
      fun pingEnd hcleaning p t' ht' hping => ?_⟩
    · obtain ⟨t, ht, howner⟩ := hlived p t' ht' hping
      rw [hsame]
      exact (h.live p t ht howner).imp id (sysStep_delayed hstep hrunning (by simp [ht']))
    · rw [hsame] at hp
      obtain ⟨t, ht⟩ := Option.ne_none_iff_exists'.mp (h.current p hp).1
      refine ⟨(sysStep_spares hstep hrunning hspared hfreed ht ((hrunning.life p).timed.ping t ht hp) ?_).1,
        hrecent p hp, (hcurrent p hp).1⟩
      by_cases hclean : ∃ pingEnd, s.pc = .cleaning pingEnd
      · exact Or.inr hclean
      · exact Or.inl (h.awaited (fun pingEnd heq => hclean ⟨pingEnd, heq⟩) p hp).2
    · rw [hsame] at hp
      exact h.pending hrunning hstep hspared hfreed huntold hp
        (fun pingEnd hbefore => hout pingEnd ((hpc pingEnd).mpr hbefore)) hout (hcurrent p hp).2
    · have hbefore := (hpc pingEnd).mp hcleaning
      obtain ⟨t, ht, howner⟩ := hlived p t' ht' hping
      obtain ⟨hdelay, hout, hdone⟩ := h.retired pingEnd hbefore p t ht howner
      refine ⟨sysStep_delayed hstep hrunning (by simp [ht']) hdelay,
        fun hmem => hout ((hpending pingEnd hbefore).subset hmem), fun hne => ?_⟩
      have hsteps := StoreSteps.life (sysStep_refines hstep hrunning.link hrunning.rep).2 hrunning.rep p
      obtain ⟨-, -, hrank⟩ := LifeSteps.moved hsteps (hrunning.life p).timed ht ht'
      rw [hdone hne] at hrank
      cases hst : t'.status <;> simp_all [TransStatus.rank]
  | begun hidle hdown hpc hup hping hpending hdelay hcreated =>
    have hempty : s.conn.transDelayRm = [] := (hrunning.link.rest (by rw [hidle]; rfl)).2.2
    refine ⟨fun p t' ht' hown => ?_, fun p hp => ?_, fun _ p hp => ?_, fun pingEnd hcleaning => ?_⟩
    · rcases hrunning.lived_ping hstage hstep ht' hown with ⟨t, ht, howner⟩ | ⟨-, hnew⟩
      · have hcurrent := h.of_idle hrunning hidle ht howner
        rw [h.none_of_down hdown] at hcurrent
        cases hcurrent
      · exact Or.inl hnew
    · obtain rfl : s.conn.nextPtr = p := Option.some.inj (hping.symm.trans hp)
      obtain ⟨t', ht', -⟩ := hrunning'.rep.queued .pending _ hpending
      refine ⟨by simp [ht'], ?_, hup⟩
      refine (List.drop_subset_drop_left _ ?_) hcreated
      split
      · exact le_refl _
      · exact hbound
    · obtain rfl : s.conn.nextPtr = p := Option.some.inj (hping.symm.trans hp)
      exact ⟨hpending, by simp [hdelay, hempty]⟩
    · rw [hpc] at hcleaning
      cases hcleaning
  | retired pingEnd hidle hpc hsame hall =>
    have hlived := hpast fun p hp => hsame ▸ hp
    have howned : ∀ p t', s'.conn.heap p = some t' → t'.owner = .ping → s.conn.pingtxn = some p := by
      intro p t' ht' hping
      obtain ⟨t, ht, howner⟩ := hlived p t' ht' hping
      exact h.of_idle hrunning hidle ht howner
    refine ⟨fun p t' ht' hping => Or.inl (hsame ▸ howned p t' ht' hping), fun p hp => ?_, fun hout => ?_,
      fun other hcleaning p t' ht' hping => ?_⟩
    · rw [hsame] at hp
      obtain ⟨hup, -, -, t', ht', -⟩ := hall p hp
      exact ⟨by simp [ht'], hrecent p hp, hup⟩
    · exact absurd hpc (hout pingEnd)
    · obtain ⟨-, hdelay, hout, u, hu, hdone⟩ := hall p (howned p t' ht' hping)
      obtain rfl : pingEnd = other := Pc.cleaning.inj (hpc.symm.trans hcleaning)
      obtain rfl : t' = u := Option.some.inj (ht'.symm.trans hu)
      exact ⟨hdelay, hout, hdone⟩
  | forgotten pingEnd hpc hpc' hnone =>
    have hlived := hpast fun p hp => by simp [hnone] at hp
    refine ⟨fun p t' ht' hping => ?_, fun p hp => by simp [hnone] at hp, fun _ p hp => by simp [hnone] at hp,
      fun other hcleaning => ?_⟩
    · obtain ⟨t, ht, howner⟩ := hlived p t' ht' hping
      exact Or.inr (sysStep_delayed hstep hrunning (by simp [ht']) (h.retired pingEnd hpc p t ht howner).1)
    · rw [hpc'] at hcleaning
      cases hcleaning

end Held

section Runs

variable {lib : Mstdlib} {s s' : Sys} {a : Action}

/-- What is delivered, or waits to be, has been queued. -/
def Announced (s : Sys) : Prop :=
  ∀ e, e ∈ s.conn.events ∨ .callback e ∈ s.conn.trace → .queued e ∈ s.conn.trace

/-- Every action delivers what has been queued. -/
theorem Announced.step (h : Announced s) (hrunning : Running lib s) (hstage : Stage s)
    (hstep : sysStep lib s a = some s') : Announced s' := by
  obtain ⟨new, htrace, hbelongs, -⟩ := sysStep_report hstep hrunning hstage
  have hmono : ∀ e, .queued e ∈ s.conn.trace → .queued e ∈ s'.conn.trace := by
    intro e he
    rw [htrace]
    exact List.mem_append_left _ he
  have hevents : ∀ e ∈ s'.conn.events, e ∈ s.conn.events ∨ .queued e ∈ s'.conn.trace := by
    intro e he
    cases sysStep_turn hstep hrunning with
    | served later hclears hserved =>
      rw [hserved.handled.events] at he
      refine (List.mem_append.mp he).imp id fun hmem => ?_
      rw [hserved.handled.trace]
      exact List.mem_append_right _ (mem_eventsOf.mp hmem)
    | delivered e' rest ha hpc hevents hstore =>
      rw [hstore] at he
      exact Or.inl (hevents ▸ List.mem_cons_of_mem e' he)
    | returned ha hpc hstore =>
      rw [hstore] at he
      simp only at he
      split at he
      · cases he
      · exact Or.inl he
    | deleted p t ha hidle ht hstore =>
      rw [hstore] at he
      exact Or.inl (by simpa [TransStore.log] using he)
    | drained ha hpc hnone hstore =>
      obtain ⟨st, timer, heq, -, hsame, -⟩ := drainDelayRm_spec lib s.conn.transDelayRm s.conn rfl
      rw [hstore, heq] at he
      exact Or.inl (hsame ▸ he)
    | destroyed hdestroys hidle hfreed hstore =>
      rw [hstore] at he
      exact Or.inl he
  rintro e (he | he)
  · exact (hevents e he).elim (fun hmem => hmono e (h e (Or.inl hmem))) id
  · rw [htrace] at he
    rcases List.mem_append.mp he with hmem | hmem
    · exact hmono e (h e (Or.inr hmem))
    · obtain rfl := hbelongs _ hmem
      cases sysStep_walk hstep with
      | delivers e' rest hpc hlist heq =>
        have hsame : new = [.callback e'] := by
          refine List.append_cancel_left (htrace.symm.trans ?_)
          rw [heq]
        rw [hsame, List.mem_singleton, Obs.callback.injEq] at hmem
        exact hmono e (h e (Or.inl (hlist ▸ hmem ▸ List.mem_cons_self)))
      | stays _ hcalls _ => cases hcalls

/-- What a run that spares the ping keeps. -/
structure PingWatched (w : Sys × ℕ) : Prop where
  bound : w.2 ≤ w.1.conn.trace.length
  announced : Announced w.1
  untold : Untold w.1.conn.trace
  held : w.1.conn.freed = false → PingHeld w.1 w.2
  freed : w.1.conn.freed = true → ∀ p, w.1.conn.heap p = none

/-- A freed connection has no transactions. -/
theorem sysStep_freed (hstep : sysStep lib s a = some s') (hrunning : Running lib s)
    (hfreed : s'.conn.freed = true) (p : Ptr) : s'.conn.heap p = none := by
  have hdestroys : a.destroys s.conn = true := by
    by_contra hkept
    rw [(sysStep_kept hstep hrunning (by simpa using hkept)).1] at hfreed
    cases hfreed
  cases sysStep_turn hstep hrunning with
  | served new hclears hserved =>
    cases a with
    | connDestroy => exact Bool.noConfusion (hdestroys.symm.trans hclears)
    | finish => exact Bool.noConfusion (hdestroys.symm.trans hclears)
    | _ => cases hdestroys
  | delivered e rest ha hpc hevents hstore => subst ha; cases hdestroys
  | returned ha hpc hstore => subst ha; cases hdestroys
  | deleted q t ha hidle ht hstore => subst ha; cases hdestroys
  | drained ha hpc hevents hstore => subst ha; cases hdestroys
  | destroyed hdestroys hidle hgone hstore =>
    rw [hstore]
    rfl

/-- Every state of a run that spares the ping is watched. -/
theorem pingWatched_of_reachable {w : Sys × ℕ} (h : (pingSpared lib).Reachable w) : PingWatched w := by
  refine System.Reachable.invariant (pingSpared lib) (P := PingWatched) ?_ ?_ h
  · rintro ⟨s, mark⟩ ⟨⟨host, port, -, -, rfl⟩, rfl⟩
    refine ⟨Nat.zero_le _, fun e he => ?_, fun p type hp => ?_, fun _ => ⟨fun p t ht => ?_, fun p hp => ?_,
      fun _ p hp => ?_, fun pingEnd hpc => ?_⟩, fun _ p => rfl⟩
    · rcases he with he | he <;> cases he
    · cases hp
    · cases ht
    · cases hp
    · cases hp
    · cases hpc
  · rintro ⟨s, mark⟩ a ⟨s', mark'⟩ hw hwatched hstep
    obtain ⟨hspared, hstep⟩ := (attempted lib).restrict_step hstep
    obtain ⟨hnext, hmark⟩ := (monetra lib).monitor_step hstep
    have hreached : (monetra lib).Reachable s := System.Reachable.of_monitor _ (hw.of_restrict (attempted lib))
    have hrunning := running_of_reachable hreached
    have hlive := sysStep_live lib hnext
    have hstage := stage_of_reachable hreached hlive
    have hheld := hwatched.held hlive
    have huntold := hwatched.untold.step hheld hrunning hstage hnext hspared
    simp only at hmark
    subst hmark
    refine ⟨?_, hwatched.announced.step hrunning hstage hnext, huntold, fun hfreed =>
      hheld.step hrunning hstage hnext hspared hfreed huntold hwatched.bound, sysStep_freed hnext hrunning⟩
    obtain ⟨new, htrace, -, -⟩ := sysStep_report hnext hrunning hstage
    have hlength : s.conn.trace.length ≤ s'.conn.trace.length := by
      rw [show s'.conn.trace = s.conn.trace ++ new from htrace, List.length_append]
      exact Nat.le_add_right _ _
    split
    · exact hlength
    · exact hwatched.bound.trans hlength

/-- In every run that spares the ping, it does not leak. -/
theorem pingSpared_kept {w : Sys × ℕ} (h : (pingSpared lib).Reachable w) : PingKept w := by
  have hwatched := pingWatched_of_reachable h
  have hreached : (monetra lib).Reachable w.1 :=
    System.Reachable.of_monitor _ (h.of_restrict (attempted lib))
  have hrunning := running_of_reachable hreached
  refine ⟨fun p type hcreated hcallback => ?_, fun hfreed p hp => ?_, fun hidle p hcreated hp => ?_⟩
  · exact hwatched.untold p type hcreated (hwatched.announced _ (Or.inr hcallback))
  · obtain ⟨hlive, hrecent, hup⟩ := (hwatched.held hfreed).current p hp
    exact ⟨hlive, hrecent, hup, (stage_of_reachable hreached hfreed).connecting_of_ping hup (by simp [hp])⟩
  · have hdead : w.1.conn.heap p = none := by
      cases hfreed : w.1.conn.freed with
      | true => exact hwatched.freed hfreed p
      | false =>
        cases ht : w.1.conn.heap p with
        | none => rfl
        | some t =>
          exact absurd ((hwatched.held hfreed).of_idle hrunning hidle ht (hrunning.owner_eq ht hcreated)) hp
    refine ⟨fun status hmem => ?_, fun tranId hmap => ?_⟩
    · obtain ⟨t, ht, -⟩ := hrunning.rep.queued status p hmem
      rw [hdead] at ht
      cases ht
    · obtain ⟨t, ht, -⟩ := hrunning.rep.mapLive tranId p hmap
      rw [hdead] at ht
      cases ht

/-- A sale is sent over a connection that has answered its ping. -/
def saleSpared : Sys × ℕ := ((pingSpared reference).run (started, 0) sendSale).get (by decide)

/-- This state is reachable. -/
theorem saleSpared_reachable : (pingSpared reference).Reachable saleSpared :=
  System.reachable_get (pingSpared reference) (attempted_init reference) _ _

/-- The ping has been created and is gone. -/
theorem pingSpared_kept_sale : .created 1 .ping ∈ saleSpared.1.conn.trace ∧
    saleSpared.1.conn.heap 1 = none ∧ PingKept saleSpared :=
  ⟨by decide, by decide, pingSpared_kept saleSpared_reachable⟩

/-- The peer closes the connection before it has answered the ping. -/
def pingReported : Sys × ℕ :=
  ((attempted reference).run (started, 0) [.connConnect openNet, .event (.connected [pingDraw] 100), .drain,
    .finish, .event (.failed .disconnected []), .deliver]).get (by decide)

/-- This state is reachable. -/
theorem pingReported_reachable : (attempted reference).Reachable pingReported :=
  System.reachable_get (attempted reference) (attempted_init reference) _ _

/-- The event callback is called for the ping. -/
theorem attempted_not_pingKept : ¬∀ w, (attempted reference).Reachable w → PingKept w := by
  intro h
  exact (h pingReported pingReported_reachable).silent 0 .transError (by decide) (by decide)

end Runs

end LibMonetra
