import LibMonetra.Ownership
import LibMonetra.Teardown

/-!
# What a handler reports

The events that one action puts on the list of its handler, and how it changes the stage of the
connection. Most actions report nothing. A handler reports a timeout, the transactions that it has read
the answers of, that the connection is established, and its end.
-/

namespace LibMonetra

open Foundation

variable {lib : Mstdlib}

/-- The event loop knows the I/O object. -/
def Sys.registered (s : Sys) : Bool := s.conn.io.any Io.registered

/-- What an action records, by the events it queues. -/
inductive Report (s s' : Sys) (a : Action) (new : List Obs) : Prop
  /-- At most a timeout; the connection stays, or is going down. -/
  | calm : (∀ e ∈ eventsOf new, e.type = .transTimeout ∧ a.timesOut = true) →
      s'.registered = s.registered →
      s'.conn.status = s.conn.status ∨ (s.conn.status = .connected ∧
        (s'.conn.status = .disconnecting ∨ s'.conn.status = .idleTimeout)) → Report s s' a new
  /-- An I/O object is registered. -/
  | dialed : new = [] → s.registered = false → s'.registered = true → s'.conn.status = .connecting →
      Report s s' a new
  /-- Transactions have been answered. -/
  | answered (chunk : Bytes) : a = .event (.read chunk) → s.pc = .idle →
      s.conn.io.any Io.up = true → s'.registered = s.registered → s'.conn.status = s.conn.status →
      (∀ o ∈ new, ReadsFrom s.conn.toTransStore o ∨ ∃ p, o = .deleted p) → Report s s' a new
  /-- The connection is established, and transactions have been answered. -/
  | established (pingEnd : PingEnd) (done : List Event) : a = .resume → s.pc = .cleaning pingEnd →
      pingEnd ≠ .timeout → s'.registered = s.registered → s'.conn.status = .connected →
      eventsOf new = ⟨.connConnected, none⟩ :: done → (∀ e ∈ done, e.type = .transDone) →
      Report s s' a new
  /-- The connection is given up. -/
  | tornDown (c : Conn) (failure : IoFailure) (before : List Obs) : GivenUp s s' a c failure before →
      s'.registered = false → new = before ++ teardownRecord c failure → Report s s' a new
  /-- The connection is freed. -/
  | destroyed : s'.conn.freed = true → new = [.connFreed] → Report s s' a new

section Step

variable {s s' : Sys} {a : Action}

/-- What a record of requests queues. -/
theorem Report.of_quiet {new : List Obs} (hnew : eventsOf new = []) (hregistered : s'.registered = s.registered)
    (hstatus : s'.conn.status = s.conn.status ∨ (s.conn.status = .connected ∧
      (s'.conn.status = .disconnecting ∨ s'.conn.status = .idleTimeout))) : Report s s' a new :=
  .calm (by simp [hnew]) hregistered hstatus

/-- Reports of deletions queue no event. -/
theorem eventsOf_deleted {new : List Obs} (h : new = [] ∨ ∃ p, new = [.deleted p]) : eventsOf new = [] := by
  rcases h with rfl | ⟨p, rfl⟩ <;> rfl

/-- Deletions tell of no action. -/
theorem belongs_of_deleted {new : List Obs} (h : new = [] ∨ ∃ p, new = [.deleted p]) (a : Action) :
    ∀ o ∈ new, o.belongs a := by
  rcases h with rfl | ⟨p, rfl⟩
  · simp
  · exact List.forall_mem_singleton.mpr trivial

/-- The clean-up of the ping records its deletion at most, and leaves the status and the I/O object. -/
theorem connCleanupPing_deletes (lib : Mstdlib) (c : Conn) (hbusy : c.inUse = true) :
    (∃ new, (connCleanupPing lib c).trace = c.trace ++ new ∧ (new = [] ∨ ∃ p, new = [.deleted p])) ∧
      (connCleanupPing lib c).status = c.status ∧ (connCleanupPing lib c).io = c.io := by
  obtain ⟨-, new, hnew, hdeleted⟩ := connCleanupPing_handled c lib hbusy
  obtain ⟨st, heq, -, -, -⟩ := connCleanupPing_shape lib c hbusy
  refine ⟨⟨new, hnew.trace, ?_⟩, by rw [heq], by rw [heq]⟩
  rcases hdeleted with hnone | ⟨p, -, hone⟩
  · exact Or.inl hnone
  · exact Or.inr ⟨p, hone⟩

/-- A read event has answered transactions, or gives up the connection. -/
theorem ReadEnd.answers {chunk : Bytes} {new : List Obs} {r : Conn × Pc}
    (hend : ReadEnd lib { s.conn with inUse := true, inbuf := s.conn.inbuf ++ chunk } new r)
    (hpc : s.pc = .idle) (hup : s.conn.io.any Io.up = true) : r.1.io = none ∨
      ∃ reports, r.1.trace = s.conn.trace ++ reports ∧ (∀ o ∈ reports, o.belongs (.event (.read chunk))) ∧
        Report s { s with conn := r.1, pc := r.2 } (.event (.read chunk)) reports := by
  cases hend with
  | ping c' p t hreads hp hwait hbrought ht hst =>
    obtain ⟨-, deleted, hclean, hdeleted⟩ := connCleanupPing_handled c' lib hreads.inUse
    obtain ⟨-, hstatus, hsame⟩ := connCleanupPing_deletes lib c' hreads.inUse
    have hnone : ∀ o ∈ deleted, o.belongs (.event (.read chunk)) := by
      rcases hdeleted with rfl | ⟨q, -, rfl⟩
      · simp
      · exact List.forall_mem_singleton.mpr trivial
    refine Or.inr ⟨new ++ deleted, (hreads.handled.trans hclean).trace, List.forall_mem_append.mpr
      ⟨belongs_of_reads hreads.records (Or.inr ⟨chunk, rfl⟩), hnone⟩,
      .answered chunk rfl hpc hup ?_ (hstatus.trans hreads.kept.1) ?_⟩
    · simp only [Sys.registered, hsame, hreads.kept.2.2]
    · refine List.forall_mem_append.mpr ⟨fun o ho => Or.inl (hreads.records o ho), fun o ho => ?_⟩
      rcases hdeleted with rfl | ⟨q, -, rfl⟩
      · cases ho
      · exact Or.inr ⟨q, List.mem_singleton.mp ho⟩
  | wait c' hreads =>
    exact Or.inr ⟨new, hreads.handled.trace, belongs_of_reads hreads.records (Or.inr ⟨chunk, rfl⟩),
      .answered chunk rfl hpc hup (congrArg (Option.any Io.registered) hreads.kept.2.2) hreads.kept.1
        fun o ho => Or.inl (hreads.records o ho)⟩
  | error c' hreads => exact Or.inl (connEventHandleConnError_io _ _)

/-- The answer of the ping establishes the connection, unless what was received with it gives it up. -/
theorem ReadEnd.establishes {new : List Obs} {r : Conn × Pc}
    (hend : ReadEnd lib (connEventSetConnected lib { s.conn with pingtxn := none }) new r)
    (hpc : s.pc = .cleaning .reply) : r.1.io = none ∨
      ∃ reports, r.1.trace = s.conn.trace ++ reports ∧ (∀ o ∈ reports, o.belongs .resume) ∧
        Report s { s with conn := r.1, pc := r.2 } .resume reports := by
  obtain ⟨_, _, sent, _, _, hestablished, -, hsends⟩ :=
    connEventSetConnected_shape lib { s.conn with pingtxn := none }
  cases hend with
  | ping c' p t hreads hp hwait hbrought ht hst =>
    rw [connEventSetConnected_pingtxn] at hp
    cases hp
  | wait c' hreads =>
    obtain ⟨hstatus, -, hsame⟩ := hreads.kept
    refine Or.inr ⟨.queued ⟨.connConnected, none⟩ :: sent ++ new, ?_, List.forall_mem_append.mpr
      ⟨List.forall_mem_cons.mpr ⟨trivial, belongs_of_sends hsends _⟩,
        belongs_of_reads hreads.records (Or.inl rfl)⟩,
      .established .reply (eventsOf new) rfl hpc PingEnd.noConfusion ?_
        (hstatus.trans (connEventSetConnected_status lib _)) ?_ (eventsOf_reads hreads.records)⟩
    · refine hreads.handled.trace.trans ?_
      rw [hestablished]
      simp
    · exact congrArg (Option.any Io.registered) (hsame.trans (connEventSetConnected_io lib _))
    · rw [eventsOf_append]
      exact congrArg (fun events => _ :: events ++ _) (eventsOf_sends hsends)
  | error c' hreads => exact Or.inl (connEventHandleConnError_io _ _)

/-- The clean-up of the ping reports nothing. -/
theorem connCleanupPing_report {c : Conn} (hbusy : c.inUse = true) (htrace : c.trace = s.conn.trace)
    (hstatus : c.status = s.conn.status) (hregistered : c.io.any Io.registered = s.registered) (pc : Pc) :
    ∃ new, (connCleanupPing lib c).trace = s.conn.trace ++ new ∧ (∀ o ∈ new, o.belongs a) ∧
      Report s { s with conn := connCleanupPing lib c, pc := pc } a new := by
  obtain ⟨⟨new, hnew, hdeleted⟩, hkept, hsame⟩ := connCleanupPing_deletes lib c hbusy
  refine ⟨new, htrace ▸ hnew, belongs_of_deleted hdeleted _,
    .of_quiet (eventsOf_deleted hdeleted) ?_ (Or.inl (hkept.trans hstatus))⟩
  simp only [Sys.registered, hsame]
  exact hregistered

/-- A transaction that goes out is no report. -/
theorem sent_report {p : Ptr} {t : Trans} (hconnected : s.conn.status = .connected) {c : Conn}
    (heq : c = (transSendMessages lib { s.conn with
      toTransStore := (s.conn.toTransStore.move p t { t with status := .ready }).log (.accepted p) }).1) :
    ∃ new, c.trace = s.conn.trace ++ new ∧ (∀ o ∈ new, o.belongs (.transSend p)) ∧
      Report s { s with conn := c } (.transSend p) new := by
  obtain ⟨_, _, new, _, _, hsend, -, hsends⟩ := transSendMessages_shape lib { s.conn with
    toTransStore := (s.conn.toTransStore.move p t { t with status := .ready }).log (.accepted p) } hconnected
  rw [hsend] at heq
  refine ⟨.accepted p :: new, ?_, List.forall_mem_cons.mpr ⟨trivial, belongs_of_sends hsends _⟩,
    .of_quiet ?_ ?_ (Or.inl ?_)⟩
  · simp [heq, TransStore.log]
  · exact (eventsOf_sends hsends : eventsOf new = [])
  · simp [Sys.registered, heq]
  · simp [heq]

/-- Without a ping the connection is established at once. -/
theorem unguarded_report (lib : Mstdlib) (hpc : s.pc = .cleaning .disabled) : ∃ new,
    (connEventSetConnected lib { s.conn with pingtxn := none }).trace = s.conn.trace ++ new ∧
      (∀ o ∈ new, o.belongs .resume) ∧ Report s { s with
        conn := { connEventSetConnected lib { s.conn with pingtxn := none } with writeTrigger := some false }
        pc := .delivering } .resume new := by
  obtain ⟨_, _, new, _, _, hestablished, -, hsends⟩ :=
    connEventSetConnected_shape lib { s.conn with pingtxn := none }
  refine ⟨.queued ⟨.connConnected, none⟩ :: new, by simp [hestablished],
    List.forall_mem_cons.mpr ⟨trivial, belongs_of_sends hsends _⟩,
    .established .disabled [] rfl hpc PingEnd.noConfusion ?_ ?_ ?_ (by simp)⟩
  · simp [Sys.registered, hestablished]
  · simp [hestablished]
  · exact congrArg (List.cons _) (eventsOf_sends hsends)

/-- An action that gives up the I/O object reports the end of the connection. -/
theorem sysStep_tornDown (h : sysStep lib s a = some s') (hrunning : Running lib s) (hstage : Stage s)
    (ha : a.handles = true) (hregistered : s.registered = true) (hnone : s'.conn.io = none) :
    ∃ new, s'.conn.trace = s.conn.trace ++ new ∧ (∀ o ∈ new, o.belongs a) ∧ Report s s' a new := by
  have hio : s.conn.io ≠ none := by
    intro hio
    simp [Sys.registered, hio] at hregistered
  obtain ⟨c, failure, before, hgiven⟩ := sysStep_givenUp h hrunning hstage ha hio hnone
  refine ⟨_, ?_, List.forall_mem_append.mpr ⟨hgiven.belongs, ?_⟩,
    .tornDown c failure before hgiven (by simp [Sys.registered, hnone]) rfl⟩
  · rw [hgiven.torn.trace, hgiven.read.trace, List.append_assoc]
  · exact belongs_of_isReport (fun _ => isReport_of_mem_teardownRecord c) a

/-- Every action reports one of these things. -/
theorem sysStep_report (h : sysStep lib s a = some s') (hrunning : Running lib s) (hstage : Stage s) :
    ∃ new, s'.conn.trace = s.conn.trace ++ new ∧ (∀ o ∈ new, o.belongs a) ∧
      Report s s' a new := by
  have hsilent : s'.conn.trace = s.conn.trace → s'.registered = s.registered →
      (s'.conn.status = s.conn.status ∨ (s.conn.status = .connected ∧
        (s'.conn.status = .disconnecting ∨ s'.conn.status = .idleTimeout))) →
      ∃ new, s'.conn.trace = s.conn.trace ++ new ∧ (∀ o ∈ new, o.belongs a) ∧
        Report s s' a new :=
    fun htrace hregistered hstatus => ⟨[], by rw [htrace, List.append_nil], by simp,
      .of_quiet rfl hregistered hstatus⟩
  have hgone := sysStep_tornDown h hrunning hstage
  cases sysStep_move h hrunning with
  | aside _ new hrecords haside =>
    refine ⟨new, haside.trace, fun o ho => belongs_of_isLocal (haside.records o ho) ?_,
      .calm (fun e he => ?_) ?_ (Or.inl haside.status)⟩
    · rintro e rfl
      exact (hrecords e).2 ho
    · have hmem := mem_eventsOf.mp he
      have hlocal := haside.records _ hmem
      refine ⟨?_, (hrecords e).1 hmem⟩
      obtain ⟨type, trans⟩ := e
      cases type <;> first | rfl | cases hlocal
    · simp only [Sys.registered, haside.io]
  | accepted p t hne ht hst heq =>
    subst heq
    exact ⟨[.accepted p], by simp [TransStore.log], by simp [Obs.belongs], .of_quiet rfl rfl (Or.inl rfl)⟩
  | sent p t hconnected _ _ heq => exact heq ▸ sent_report hconnected rfl
  | refused _ tlsctx error callers pc _ hpc heq =>
    subst heq
    exact hsilent rfl rfl (Or.inl rfl)
  | opened _ who io tlsctx error callers pc _ hnone hreg hdead hpc heq =>
    subst heq
    exact hsilent rfl (by simp [Sys.registered, hnone, hreg]) (Or.inl rfl)
  | dialed _ io tlsctx error callers pc _ hnone hreg hdead hpc heq =>
    subst heq
    exact ⟨[], by simp, by simp, .dialed rfl (by simp [Sys.registered, hnone]) (by simp [Sys.registered, hreg])
      rfl⟩
  | registered who hwho heq =>
    obtain ⟨io, hio, hreg, -⟩ := hstage.of_connecting (by simp [hwho])
    subst heq
    exact ⟨[], by simp, by simp, .dialed rfl (by simp [Sys.registered, hio, hreg])
      (by simp [Sys.registered, hio])
      rfl⟩
  | dropped who error hwho heq =>
    obtain ⟨io, hio, hreg, -⟩ := hstage.of_connecting (by simp [hwho])
    subst heq
    exact hsilent rfl (by simp [Sys.registered, hio, hreg]) (Or.inl rfl)
  | disconnecting io hconnected hio heq =>
    subst heq
    exact hsilent rfl (by simp [Sys.registered, hio]) (Or.inr ⟨hconnected, Or.inl rfl⟩)
  | idled hpc hconnected hpending heq =>
    subst heq
    refine hsilent rfl ?_ (Or.inr ⟨hconnected, Or.inr rfl⟩)
    simp only [Sys.registered]
    cases s.conn.io <;> rfl
  | pinged draws written draw hpc hio hping hdraw heq =>
    subst heq
    refine ⟨[.created s.conn.nextPtr .ping, .framed s.conn.nextPtr .ping s.conn.status
      (requestFrame lib draw.val pingParams)], by simp [TransStore.log], ?_, .of_quiet rfl ?_ (Or.inl rfl)⟩
    · exact List.forall_mem_cons.mpr ⟨⟨draws, written, rfl⟩, List.forall_mem_singleton.mpr trivial⟩
    simp only [Sys.registered]
    cases s.conn.io <;> rfl
  | unpinged draws written hpc hio hping heq =>
    subst heq
    refine connCleanupPing_report (c := { s.conn with
      inUse := true
      io := s.conn.io.map fun io => { io with up := true } }) rfl rfl rfl ?_ _
    simp only [Sys.registered]
    cases s.conn.io <;> rfl
  | failed failure text error hpc hreg heq =>
    refine hgone rfl hreg ?_
    rw [heq]
    exact connEventHandleConnError_io _ _
  | read chunk new r hpc hup hend heq =>
    rcases hend.answers hpc hup with hnone | hreport
    · refine hgone rfl (hstage.registered_of_up hup) ?_
      rw [heq]
      exact hnone
    · rw [heq]
      exact hreport
  | wrote written hpc hup heq =>
    subst heq
    exact hsilent rfl rfl (Or.inl rfl)
  | expired hpc htimer hst heq =>
    subst heq
    exact connCleanupPing_report (c := { s.conn with inUse := true }) rfl rfl rfl rfl _
  | unguarded hpc heq => exact heq ▸ unguarded_report lib hpc
  | proved new r hpc hend heq =>
    rcases hend.establishes hpc with hnone | hreport
    · refine hgone rfl (hstage.registered_of_up (hstage.cleaning .reply hpc).1) ?_
      rw [heq]
      exact hnone
    · rw [heq]
      exact hreport
  | unproved error hpc heq =>
    refine hgone rfl (hstage.registered_of_up (hstage.cleaning .timeout hpc).1) ?_
    rw [heq]
    exact connEventHandleConnError_io { s.conn with pingtxn := none, error := error } .error
  | destroyed _ pc hdestroys hidle hpc heq =>
    subst heq
    exact ⟨[.connFreed], by simp [connDestroy, hidle], by simp [Obs.belongs],
      .destroyed (by simp [connDestroy, hidle]) rfl⟩

/-- A call of the API or of `LM_conn_connect` that does not free the connection queues no event, and does
not take back a request to destroy it. -/
theorem sysStep_calls (h : sysStep lib s a = some s') (hrunning : Running lib s)
    (hcalls : a.calls = true ∨ a.connects = true ∨ ∃ eventAdd, a = .connectFinish eventAdd)
    (hkept : a.destroys s.conn = false) :
    (s.conn.destroy = true → s'.conn.destroy = true) ∧ s'.conn.freed = s.conn.freed ∧
      s'.conn.events = s.conn.events := by
  cases sysStep_move h hrunning with
  | aside _ new hqueued haside =>
    refine ⟨haside.destroy, haside.freed, ?_⟩
    cases sysStep_turn h hrunning with
    | served new' hclears hserved =>
      have hsame : new' = new :=
        List.append_cancel_left (hserved.handled.trace.symm.trans haside.trace)
      have hnone : eventsOf new = [] := List.eq_nil_iff_forall_not_mem.mpr fun e he => by
        have htimes := (hqueued e).1 (mem_eventsOf.mp he)
        cases a <;> simp_all [Action.timesOut, Action.calls, Action.connects]
      rw [hserved.handled.events, hsame, hnone, List.append_nil]
    | deleted p t ha hidle ht hstore => simp [hstore, TransStore.log]
    | delivered e rest ha hpc hevents hstore => simp [ha, Action.calls, Action.connects] at hcalls
    | returned ha hpc hstore => simp [ha, Action.calls, Action.connects] at hcalls
    | drained ha hpc hevents hstore => simp [ha, Action.calls, Action.connects] at hcalls
    | destroyed hdestroys hidle hfreed hstore => simp [hkept] at hdestroys
  | accepted p t hne ht hst heq =>
    subst heq
    exact ⟨id, rfl, by simp [TransStore.log]⟩
  | sent p t hconnected ht hst heq =>
    subst heq
    obtain ⟨_, _, _, _, _, heq, -, -⟩ := transSendMessages_shape lib { s.conn with
      toTransStore :=
        (s.conn.toTransStore.move p t { t with status := .ready }).log (.accepted p) } hconnected
    rw [heq]
    exact ⟨id, rfl, by simp [TransStore.log]⟩
  | refused _ tlsctx error callers pc hconnects hpc heq =>
    subst heq
    exact ⟨id, rfl, rfl⟩
  | opened _ who io tlsctx error callers pc _ hnone hreg hdead hpc heq =>
    subst heq
    exact ⟨id, rfl, rfl⟩
  | dialed _ io tlsctx error callers pc _ hnone hreg hdead hpc heq =>
    subst heq
    exact ⟨id, rfl, rfl⟩
  | registered who hwho heq =>
    subst heq
    exact ⟨id, rfl, rfl⟩
  | dropped who error hwho heq =>
    subst heq
    exact ⟨id, rfl, rfl⟩
  | disconnecting io hconnected hio heq =>
    subst heq
    exact ⟨id, rfl, rfl⟩
  | destroyed _ pc hdestroys hidle hpc heq => simp [hkept] at hdestroys
  | _ => simp [Action.calls, Action.connects] at hcalls

/-- Only `LM_conn_destroy` outside a handler frees the connection, and nothing takes back a request to
destroy it. -/
theorem sysStep_kept (h : sysStep lib s a = some s') (hrunning : Running lib s)
    (hkept : a.destroys s.conn = false) :
    s'.conn.freed = false ∧ (s.conn.destroy = true → s'.conn.destroy = true) := by
  have hlive := sysStep_live lib h
  have hcall : (a.calls = true ∨ a.connects = true ∨ ∃ eventAdd, a = .connectFinish eventAdd) →
      s'.conn.freed = false ∧ (s.conn.destroy = true → s'.conn.destroy = true) := by
    intro hcalls
    obtain ⟨hdestroy, hfreed, -⟩ := sysStep_calls h hrunning hcalls hkept
    exact ⟨hfreed.trans hlive, hdestroy⟩
  cases sysStep_walk h with
  | stays _ hcalls _ => exact hcall (Or.inl hcalls)
  | connected who eventAdd _ _ => exact hcall (Or.inr (Or.inr ⟨_, rfl⟩))
  | enters event r hpc henabled hr heq _ =>
    have hquiet : s.conn.toTransStore.quiet := fun e he => by
      rw [(hrunning.link.rest (by rw [hpc]; rfl)).2.1] at he
      cases he
    obtain ⟨hpiece, -⟩ := handlerEnter_piece lib s.conn event r hrunning.rep hquiet henabled hr
    rw [heq]
    exact ⟨hpiece.freed.trans hlive, hpiece.destroy.trans⟩
  | resumes pingEnd hpc heq _ =>
    obtain ⟨hpiece, -⟩ := handlerResume_piece lib s.conn pingEnd hrunning.rep
      (hrunning.link.busy (by rw [hpc]; rfl)) fun hne => hrunning.link.cleaning (by
        cases pingEnd with
        | disabled => exact Or.inr hpc
        | reply => exact Or.inl hpc
        | timeout => exact absurd rfl hne)
    rw [heq]
    exact ⟨hpiece.freed.trans hlive, hpiece.destroy.trans⟩
  | delivers e rest _ _ heq =>
    rw [heq]
    exact ⟨hlive, id⟩
  | returns _ heq =>
    rw [heq]
    exact ⟨hlive, id⟩
  | drains _ _ heq =>
    obtain ⟨st, timer, hdrained, -, -, -⟩ := drainDelayRm_spec lib s.conn.transDelayRm s.conn rfl
    simp only [handlerDrain, hdrained] at heq
    rw [heq]
    exact ⟨hlive, id⟩
  | reconnects net _ _ => exact hcall (Or.inr (Or.inl rfl))
  | finishes _ heq =>
    rw [heq, if_neg (by simpa [Action.destroys] using hkept)]
    exact ⟨hlive, id⟩

/-- Between two handler runs, a transaction that waits for its answer is pending. -/
theorem Running.pending_of_waits (hrunning : Running lib s) (hidle : s.pc = .idle) {p : Ptr}
    (hp : s.conn.toTransStore.waits p) : p ∈ s.conn.transPending := by
  obtain ⟨t, ht, hst⟩ := hp
  have hdelay := (hrunning.link.rest (by rw [hidle]; rfl)).2.2
  have hplaced := (hrunning.rep.placed p t ht).resolve_right (by simp [hdelay])
  rw [hst] at hplaced
  exact hplaced

/-- While a connection is being proved, what is pending is its ping. -/
theorem Stage.ping_of_pending (hstage : Stage s) (hrunning : Running lib s)
    (hst : s.conn.status = .connecting) {p : Ptr} (hp : p ∈ s.conn.transPending) :
    s.conn.pingtxn = some p ∧ .created p .ping ∈ s.conn.trace := by
  have hping := hstage.proving hst p hp
  obtain ⟨t, ht, -⟩ := hrunning.rep.queued .pending p hp
  refine ⟨hping, ?_⟩
  rw [← (hrunning.life p).timed.ping t ht hping]
  exact hrunning.created ht

/-- While a connection is being proved, reading completes no transaction of a caller. -/
theorem Stage.eventsOf_reads (hstage : Stage s) (hrunning : Running lib s)
    (hst : s.conn.status = .connecting) (hidle : s.pc = .idle) {new : List Obs}
    (hreads : ∀ o ∈ new, ReadsFrom s.conn.toTransStore o ∨ ∃ p, o = .deleted p) : eventsOf new = [] := by
  refine List.eq_nil_iff_forall_not_mem.mpr fun e he => ?_
  rcases hreads _ (mem_eventsOf.mp he) with (⟨_, ho⟩ | ⟨_, _, _, ho⟩ | ⟨p, hwait, hother, ho⟩) | ⟨_, ho⟩
  · cases ho
  · cases ho
  · exact hother (hstage.ping_of_pending hrunning hst (hrunning.pending_of_waits hidle hwait)).1
  · cases ho

/-- A timeout fires on an established connection. -/
theorem Stage.established_of_timesOut (hstage : Stage s) (hrunning : Running lib s)
    (h : sysStep lib s a = some s') (ha : a.timesOut = true) :
    s.registered = true ∧ s.conn.status ≠ .connecting := by
  cases sysStep_walk h with
  | enters event r hidle henabled hr heq _ =>
    cases event with
    | transTimer p =>
      obtain ⟨hmem, t, ht, huser⟩ := hrunning.pending_of_timer hidle henabled
      refine ⟨?_, fun hst => ?_⟩
      · by_contra hregistered
        have hdown : s.conn.io.any Io.up = false := by
          by_contra hup
          exact hregistered (hstage.registered_of_up (by simpa using hup))
        rw [(hstage.blank hdown).pending] at hmem
        cases hmem
      · obtain ⟨-, hcreated⟩ := hstage.ping_of_pending hrunning hst hmem
        have howner := hrunning.owner_eq ht hcreated
        rw [huser] at howner
        cases howner
    | _ => cases ha
  | stays _ hcalls _ => cases a <;> simp_all [Action.timesOut, Action.calls]
  | _ => cases ha

end Step

end LibMonetra
