import LibMonetra.LegacyRun
import LibMonetra.Submission

/-!
# Sending again

What `M_TransSend` has done to a new transaction when it returns: nothing that reached the wire
when it refuses, and a submitted request when it accepts, which in blocking mode has also ended.
-/

namespace LibMonetra

open Foundation

variable {lib : Mstdlib}

section Stays

variable {s s' : TransStore} {p : Ptr} {t : Trans}

/-- A pending transaction that nobody deletes is in the queue of the pending ones. -/
theorem Rep.mem_pending (h : Rep s) (ht : s.heap p = some t) (hst : t.status = .pending)
    (hdelay : p ∉ s.transDelayRm) : p ∈ s.transPending := by
  have hplaced := (h.placed p t ht).resolve_right hdelay
  rw [hst] at hplaced
  exact hplaced

/-- The steps of the library neither remove a caller's transaction that nobody deletes nor touch
one that is new. -/
theorem InternalStep.stays (hstep : InternalStep lib s s') (hok : s.Ok lib) (ht : s.heap p = some t)
    (huser : t.owner = .user) (hdelay : p ∉ s.transDelayRm) :
    (∃ t', s'.heap p = some t' ∧ (t.status = .new → t' = t)) ∧ p ∉ s'.transDelayRm := by
  have hother : ∀ q u, s.heap q = some u → u.status ≠ .new ∨ q ≠ p → ∀ u' : Trans,
      ∃ t', Function.update s.heap q (some u') p = some t' ∧ (t.status = .new → t' = t) := by
    intro q u hu hne u'
    by_cases hq : p = q
    · subst hq
      obtain rfl := Option.some.inj (ht.symm.trans hu)
      exact ⟨u', Function.update_self .., fun hnew => absurd hnew (hne.resolve_right (fun h => h rfl))⟩
    · exact ⟨t, by rw [Function.update_of_ne hq, ht], fun _ => rfl⟩
  cases hstep with
  | createPing id status hfree hlow hhigh =>
    have hne : p ≠ s.nextPtr := (hok.rep.fresh p t ht).ne
    exact ⟨⟨t, by simp [TransStore.log, hne, ht], fun _ => rfl⟩, by simpa [TransStore.log] using hdelay⟩
  | submit q u rest armed interval hready hu hst hevents =>
    refine ⟨?_, by simpa using hdelay⟩
    rw [TransStore.heap_submit]
    exact hother q u hu (Or.inl (by simp [hst])) _
  | noconnect q hq => exact ⟨⟨t, ht, fun _ => rfl⟩, hdelay⟩
  | timeout q u interval hu htimer =>
    have harmed : (s.life q).armed = true := List.any_eq_true.mpr ⟨_, htimer, by simp⟩
    have hst := ((hok.life q).timed.armed u hu harmed).1
    exact ⟨hother q u hu (Or.inl (by simp [hst])) _, hdelay⟩
  | answer q u msg data hu hst hmsg hping =>
    refine ⟨?_, by simpa [TransStore.connEventAdd] using hdelay⟩
    have hlive : ((s.answer q u (storeResponse lib u data) msg).connEventAdd .transDone
        (some q)).heap q = some (storeResponse lib u data) := by
      simp [TransStore.connEventAdd]
    rw [TransStore.heap_killTimeoutTimer _ _ _ hlive]
    simp only [TransStore.connEventAdd, TransStore.heap_answer, Function.update_idem]
    exact hother q u hu (Or.inl (by simp [hst])) _
  | answerPing q u msg data hu hst hmsg hping =>
    refine ⟨?_, by simpa using hdelay⟩
    rw [TransStore.heap_answer]
    exact hother q u hu (Or.inl (by simp [hst])) _
  | fail q u rest response hpending hu hst hcode =>
    refine ⟨?_, by simpa [TransStore.connEventAdd] using hdelay⟩
    have hlive : (s.move q u (u.failed response)).heap q = some (u.failed response) := by simp
    change ∃ t', ((s.move q u (u.failed response)).killTimeoutTimer q (u.failed response)).heap p = some t' ∧ _
    rw [TransStore.heap_killTimeoutTimer _ _ _ hlive]
    simp only [TransStore.heap_move, Function.update_idem]
    exact hother q u hu (Or.inl (by simp [hst])) _
  | retirePing q u hu hping =>
    have hne : q ≠ p := by
      rintro rfl
      obtain rfl := Option.some.inj (ht.symm.trans hu)
      exact absurd ((hok.life q).timed.ping t ht hping) (by simp [huser])
    refine ⟨?_, by simpa [TransStore.defer, TransStore.log, Ne.symm hne] using hdelay⟩
    rw [TransStore.heap_queueTake]
    change ∃ t', (s.killTimeoutTimer q u).heap p = some t' ∧ _
    rw [TransStore.heap_killTimeoutTimer _ _ _ hu]
    exact hother q u hu (Or.inr hne) _
  | drain q u rest hrest hu =>
    rw [hrest, List.mem_cons, not_or] at hdelay
    exact ⟨⟨t, by simp [hdelay.1, ht], fun _ => rfl⟩, by simpa using hdelay.2⟩
  | drainDead q rest hrest hdead =>
    rw [hrest, List.mem_cons, not_or] at hdelay
    exact ⟨⟨t, ht, fun _ => rfl⟩, hdelay.2⟩
  | connEvent type htype => exact ⟨⟨t, ht, fun _ => rfl⟩, hdelay⟩
  | deliver e rest hevents => exact ⟨⟨t, ht, fun _ => rfl⟩, hdelay⟩
  | dropEvents => exact ⟨⟨t, ht, fun _ => rfl⟩, hdelay⟩
  | forgetPing => exact ⟨⟨t, ht, fun _ => rfl⟩, hdelay⟩
  | consume msg => exact ⟨⟨t, ht, fun _ => rfl⟩, hdelay⟩

/-- A sequence of steps of the library only moves a caller's transaction forward, and leaves one
that is new alone. -/
theorem InternalSteps.stays (h : InternalSteps lib s s') (hok : s.Ok lib) (ht : s.heap p = some t)
    (huser : t.owner = .user) (hdelay : p ∉ s.transDelayRm) :
    (∃ t', s'.heap p = some t' ∧ t'.owner = .user ∧ t.status.rank ≤ t'.status.rank ∧
      (t.status = .new → t' = t)) ∧ p ∉ s'.transDelayRm := by
  have hall : s'.Ok lib ∧ (∃ t', s'.heap p = some t' ∧ t'.owner = .user ∧
      t.status.rank ≤ t'.status.rank ∧ (t.status = .new → t' = t)) ∧ p ∉ s'.transDelayRm := by
    refine invariant_of_steps (P := fun s => s.Ok lib ∧ (∃ t', s.heap p = some t' ∧
      t'.owner = .user ∧ t.status.rank ≤ t'.status.rank ∧ (t.status = .new → t' = t)) ∧
      p ∉ s.transDelayRm) ?_ h ⟨hok, ⟨t, ht, huser, le_rfl, fun _ => rfl⟩, hdelay⟩
    rintro mid last hstep ⟨hmid, ⟨u, hu, howner, hrank, hsame⟩, hout⟩
    obtain ⟨⟨v, hv, hkeep⟩, hout'⟩ := hstep.stays hmid hu howner hout
    have hmoved : v.owner = u.owner ∧ u.status.rank ≤ v.status.rank := by
      rcases hstep.seen hmid.rep p with hlife | hlife
      · obtain rfl : v = u := Option.some.inj ((hv.symm.trans (congrArg Life.trans hlife)).trans hu)
        exact ⟨rfl, le_rfl⟩
      · obtain ⟨howner', -, hrank'⟩ := hlife.moved (hmid.life p).timed hu hv
        exact ⟨howner', hrank'⟩
    refine ⟨(StoreStep.internal _ _ hstep).ok hmid, ⟨v, hv, hmoved.1.trans howner,
      hrank.trans hmoved.2, fun hnew => ?_⟩, hout'⟩
    obtain rfl := hsame hnew
    exact hkeep hnew
  exact hall.2

end Stays

section Wire

variable {s : Sys} {p : Ptr} {t : Trans}

/-- In a reached state the request of a new transaction has not gone out. -/
theorem Running.not_framed (h : Running lib s) (ht : s.conn.heap p = some t) (hnew : t.status = .new) :
    p ∉ framedOf s.conn.trace := by
  intro hmem
  obtain ⟨status, frame, hframe⟩ := mem_historyOf_of_mem_framedOf hmem
  exact (h.life p).sent.waiting t ht (Or.inl hnew) .user status frame hframe

/-- In a reached state the request of a caller's pending or completed transaction has gone out. -/
theorem Running.framed (h : Running lib s) (ht : s.conn.heap p = some t) (huser : t.owner = .user)
    (hst : t.status = .pending ∨ t.status = .done) : p ∈ framedOf s.conn.trace := by
  obtain ⟨status, params, hmem⟩ := (h.life p).sent.sent t ht hst
  rw [huser] at hmem
  exact List.mem_filterMap.mpr ⟨_, List.mem_of_mem_filter hmem, rfl⟩

end Wire

/-- A new transaction that nobody deletes. -/
structure Unsent (lib : Mstdlib) (p : Ptr) (t : Trans) (s : Sys) : Prop extends Serving lib s where
  live : s.conn.heap p = some t
  new : t.status = .new
  undeleted : p ∉ s.conn.transDelayRm

/-- A caller's transaction whose request has gone out: it is done, or pending on a connection that
is up. -/
structure Submitted (lib : Mstdlib) (p : Ptr) (s : Sys) : Prop extends Serving lib s where
  live : ∃ t, s.conn.heap p = some t ∧ t.owner = .user ∧ (t.status = .done ∨
    (t.status = .pending ∧ s.conn.status = .connected ∧ s.pc ≠ .reconnecting true))
  undeleted : p ∉ s.conn.transDelayRm

section Loop

variable {s s' : Sys} {p : Ptr} {t : Trans} {a : Action}

/-- A handler leaves a new transaction alone. -/
theorem Unsent.loop (h : Unsent lib p t s) (hloop : a.ofLoop = true)
    (hstep : sysStep lib s a = some s') : Unsent lib p t s' := by
  have hrunning := running_of_reachable h.reachable
  have hsteps := ((sysStep_loop hloop hstep hrunning.link hrunning.rep).alive h.kept).1
  have huser := (hrunning.life p).timed.user_of_status h.live (by simp [h.new])
  obtain ⟨⟨t', hlive, -, -, hsame⟩, hkept⟩ := InternalSteps.stays hsteps hrunning.ok h.live huser h.undeleted
  exact ⟨h.toServing.loop hloop hstep, hsame h.new ▸ hlive, h.new, hkept⟩

/-- A handler completes a submitted transaction before it gives the connection up. -/
theorem Submitted.loop (h : Submitted lib p s) (hloop : a.ofLoop = true)
    (hstep : sysStep lib s a = some s') : Submitted lib p s' := by
  have hrunning := running_of_reachable h.reachable
  have heffect := sysStep_loop hloop hstep hrunning.link hrunning.rep
  have hsteps := (heffect.alive h.kept).1
  have hserving := h.toServing.loop hloop hstep
  obtain ⟨t, ht, huser, hstate⟩ := h.live
  obtain ⟨⟨t', ht', huser', hrank, -⟩, hkept⟩ :=
    InternalSteps.stays hsteps hrunning.ok ht huser h.undeleted
  refine ⟨hserving, ⟨t', ht', huser', ?_⟩, hkept⟩
  cases hst' : t'.status with
  | new =>
    rw [hst'] at hrank
    rcases hstate with hst | ⟨hst, -⟩ <;> rw [hst] at hrank <;> exact absurd hrank (by decide)
  | ready =>
    rw [hst'] at hrank
    rcases hstate with hst | ⟨hst, -⟩ <;> rw [hst] at hrank <;> exact absurd hrank (by decide)
  | done => exact Or.inl rfl
  | pending =>
    rw [hst'] at hrank
    rcases hstate with hst | ⟨hst, hup, hpc⟩
    · rw [hst] at hrank
      exact absurd hrank (by decide)
    · -- a pending transaction is in its queue, so the connection has not been given up
      have hbefore : p ∈ s.conn.transPending :=
        hrunning.rep.mem_pending ht hst h.undeleted
      have hafter : p ∈ s'.conn.transPending :=
        (running_of_reachable hserving.reachable).rep.mem_pending ht' hst' hkept
      have hup' : s'.conn.status = .connected := by
        rcases heffect.status with hsame | hup' | ⟨-, hempty⟩ | ⟨-, hempty, -⟩ | hre
        · exact hsame.trans hup
        · exact hup'
        · exact absurd hafter (by simp [hempty])
        · exact absurd hbefore (by simp [hempty])
        · exact absurd hre hpc
      refine Or.inr ⟨rfl, hup', fun hre => ?_⟩
      rw [heffect.reconnecting hre] at hup'
      cases hup'

/-- An event loop leaves a new transaction alone. -/
theorem Unsent.eventLoop (h : Unsent lib p t s) {schedule : List Action}
    (hloop : eventLoop lib s schedule = some s') : Unsent lib p t s' ∧ s'.pc = .idle :=
  eventLoop_invariant (fun _ _ _ hs ha hstep => hs.loop ha hstep) h hloop

/-- An event loop completes a submitted transaction before it gives the connection up. -/
theorem Submitted.eventLoop (h : Submitted lib p s) {schedule : List Action}
    (hloop : eventLoop lib s schedule = some s') : Submitted lib p s' ∧ s'.pc = .idle :=
  eventLoop_invariant (fun _ _ _ hs ha hstep => hs.loop ha hstep) h hloop

end Loop

section Send

variable {m m' : MConn} {p : Ptr} {t : Trans} {ok : Bool}

/-- A submitted transaction on a connection that is down is done. -/
theorem Submitted.done_of_down (h : Submitted lib p m.sys) (hdown : m.sys.conn.status ≠ .connected) :
    m.transStatus p = some .done := by
  obtain ⟨t, ht, -, hst | ⟨-, hup, -⟩⟩ := h.live
  · simp [MConn.transStatus, ht, hst]
  · exact absurd hup hdown

/-- `M_Monitor_ex` keeps a submitted transaction, and says no only when it is done. -/
theorem Submitted.of_mMonitorEx (h : Submitted lib p m.sys) {schedule : List Action}
    (hcall : mMonitorEx lib m schedule = some (m', ok)) :
    Submitted lib p m'.sys ∧ (ok = false → m'.transStatus p = some .done) := by
  have hdown : ∀ {c : Conn}, ¬connAlive c = true → c.status ≠ .connected := by
    rintro c hdead hup
    exact hdead (by simp [connAlive, hup])
  unfold mMonitorEx at hcall
  split at hcall
  · cases hcall
    exact ⟨h, fun hno => by cases hno⟩
  · split at hcall
    · obtain ⟨s, hloop, heq⟩ := Option.map_eq_some_iff.mp hcall
      obtain ⟨hsubmitted, -⟩ := h.eventLoop hloop
      split at heq
      · cases heq
        exact ⟨hsubmitted, fun hno => by cases hno⟩
      · rename_i hdead
        cases heq
        exact ⟨hsubmitted, fun _ => Submitted.done_of_down (m := { m with sys := s }) hsubmitted (hdown hdead)⟩
    · rename_i hdead
      cases hcall
      exact ⟨h, fun _ => h.done_of_down (hdown hdead)⟩

/-- The wait of `M_TransSend` ends with a completed transaction and a yes. -/
theorem Submitted.of_transSendWait (h : Submitted lib p m.sys) {waits : List (List Action)}
    (hcall : transSendWait lib p waits m = some (m', ok)) :
    ok = true ∧ Submitted lib p m'.sys ∧ m'.transStatus p = some .done := by
  induction waits generalizing m with
  | nil =>
    unfold transSendWait at hcall
    split at hcall
    · rename_i hdone
      cases hcall
      exact ⟨rfl, h, hdone⟩
    · cases hcall
  | cons schedule rest ih =>
    unfold transSendWait at hcall
    split at hcall
    · rename_i hdone
      cases hcall
      exact ⟨rfl, h, hdone⟩
    · obtain ⟨⟨mid, up⟩, hmid, hrest⟩ := Option.bind_eq_some_iff.mp hcall
      obtain ⟨hsubmitted, hdone⟩ := h.of_mMonitorEx hmid
      simp only at hrest
      split at hrest
      · rename_i hgiveUp
        exact absurd (hdone hgiveUp.1) hgiveUp.2
      · exact ih hsubmitted hrest

/-- An event loop leaves the connection of a legacy handle at rest. -/
theorem Unsent.rested (h : Unsent lib p t m.sys) (hidle : m.sys.pc = .idle) : Rested lib m.sys :=
  ⟨h.toServing, hidle⟩

/-- `M_Connect` leaves a new transaction alone. -/
theorem Unsent.of_mConnect (h : Unsent lib p t m.sys) (hidle : m.sys.pc = .idle) {net : NetOutcome}
    {schedule : List Action} (hcall : mConnect lib m net schedule = some (m', ok)) :
    Unsent lib p t m'.sys ∧ m'.sys.pc = .idle ∧ m'.blocking = m.blocking ∧
      (ok = true → m'.sys.conn.status = .connected) := by
  have hrested := (h.rested hidle).of_connConnect net
  obtain ⟨io, tlsctx, error, status, connecting, heq⟩ := connConnect_eq lib m.sys net
  have hunsent : Unsent lib p t (connConnect lib m.sys net).1 := by
    rw [heq] at hrested ⊢
    exact ⟨hrested.toServing, h.live, h.new, h.undeleted⟩
  unfold mConnect at hcall
  simp only at hcall
  split at hcall
  · obtain ⟨s, hloop, heq⟩ := Option.map_eq_some_iff.mp hcall
    cases heq
    obtain ⟨hunsent', hidle'⟩ := hunsent.eventLoop hloop
    exact ⟨hunsent', hidle', rfl, fun hok => by simpa using hok⟩
  · cases hcall
    exact ⟨hunsent, hrested.idle, rfl, fun hok => by cases hok⟩

/-- A refused `LM_trans_send` leaves a new transaction alone, an accepted one submits it. -/
theorem Unsent.of_connTransSend (h : Unsent lib p t m.sys) (hidle : m.sys.pc = .idle)
    (hup : m.sys.conn.status = .connected) (net : NetOutcome) :
    ((connTransSend lib m.sys p net).2 = false → Unsent lib p t (connTransSend lib m.sys p net).1) ∧
      ((connTransSend lib m.sys p net).2 = true →
        Submitted lib p (connTransSend lib m.sys p net).1) := by
  have hrunning := running_of_reachable h.reachable
  have hrested := (h.rested hidle).of_connTransSend p net
  have hconnect : (transSend lib m.sys.conn p).connect = false := by
    unfold transSend
    split
    · rfl
    · split
      · rfl
      · simp [transSendMessages, hup]
  have heq : connTransSend lib m.sys p net =
      ({ m.sys with conn := (transSend lib m.sys.conn p).conn }, (transSend lib m.sys.conn p).ok) := by
    simp [connTransSend, hconnect]
  rw [heq] at hrested ⊢
  refine ⟨fun hno => ?_, fun hyes => ?_⟩
  · simp only [transSend_refused hno]
    exact ⟨h.toServing, h.live, h.new, h.undeleted⟩
  · obtain ⟨u, s, outbuf, timer, trigger, hu, hnew, hconn, hsteps, -, hdelay, hempty⟩ :=
      transSend_accepted hyes hrunning.rep hrunning.link.connected
    have haccept := @StoreStep.accept lib m.sys.conn.toTransStore p u hu hnew
    have huser := (hrunning.life p).timed.user_of_status hu (by simp [hnew])
    have hready : ((m.sys.conn.toTransStore.move p u { u with status := .ready }).log
        (.accepted p)).heap p = some { u with status := .ready } := by simp [TransStore.log]
    obtain ⟨⟨t', ht', huser', hrank, -⟩, hkept⟩ := InternalSteps.stays hsteps
      (haccept.ok hrunning.ok) hready huser (by simpa [TransStore.log] using h.undeleted)
    change TransStatus.ready.rank ≤ t'.status.rank at hrank
    have hrep : Rep s := InternalSteps.rep hsteps (haccept.rep hrunning.rep)
    have hwait := hempty hup
    simp only [hconn] at hrested ⊢
    refine ⟨hrested.toServing, ⟨t', ht', huser', ?_⟩, hkept⟩
    cases hst' : t'.status with
    | new =>
      rw [hst'] at hrank
      exact absurd hrank (by decide)
    | ready =>
      have hplaced := (hrep.placed p t' ht').resolve_right hkept
      rw [hst'] at hplaced
      change p ∈ s.transReady at hplaced
      exact absurd hplaced (by simp [hwait])
    | pending => exact Or.inr ⟨rfl, hup, by rw [hidle]; exact Pc.noConfusion⟩
    | done => exact Or.inl rfl

/-- What `M_TransSend` has done to a new transaction when it returns. -/
def SendResultOf (p : Ptr) (t : Trans) (m m' : MConn) (ok : Bool) : Prop :=
  (ok = false → m'.sys.conn.heap p = some t ∧ p ∉ framedOf m'.sys.conn.trace) ∧
    (ok = true → p ∈ framedOf m'.sys.conn.trace ∧ ∃ t', m'.sys.conn.heap p = some t' ∧
      (t'.status = .pending ∨ t'.status = .done) ∧ (m.blocking = true → t'.status = .done))

/-- A new transaction that `M_TransSend` leaves alone is as it was. -/
theorem Unsent.result (h : Unsent lib p t m'.sys) (m : MConn) : SendResultOf p t m m' false :=
  ⟨fun _ => ⟨h.live, (running_of_reachable h.reachable).not_framed h.live h.new⟩,
    fun hno => by cases hno⟩

/-- A submitted transaction is on the wire. -/
theorem Submitted.result (h : Submitted lib p m'.sys) (t : Trans)
    (hdone : m.blocking = true → m'.transStatus p = some .done) : SendResultOf p t m m' true := by
  obtain ⟨t', ht', huser, hstate⟩ := h.live
  have hst : t'.status = .pending ∨ t'.status = .done := hstate.symm.imp (fun hp => hp.1) id
  refine ⟨fun hno => (by cases hno), fun _ =>
    ⟨(running_of_reachable h.reachable).framed ht' huser hst, t', ht', hst, fun hblocking => ?_⟩⟩
  have hend := hdone hblocking
  simpa [MConn.transStatus, ht'] using hend

/-- `M_TransSend` from `LM_trans_send` on. -/
theorem Unsent.of_transSendConnected (h : Unsent lib p t m.sys) (hidle : m.sys.pc = .idle)
    (hup : m.sys.conn.status = .connected) {net : SendNetwork}
    (hcall : transSendConnected lib m p net = some (m', ok)) : SendResultOf p t m m' ok := by
  obtain ⟨hrefused, haccepted⟩ := h.of_connTransSend hidle hup net.implicit
  unfold transSendConnected at hcall
  simp only at hcall
  split at hcall
  · rename_i hyes
    split at hcall
    · obtain ⟨rfl, hsubmitted, hdone⟩ := Submitted.of_transSendWait
        (m := { m with sys := (connTransSend lib m.sys p net.implicit).1 }) (haccepted hyes) hcall
      exact hsubmitted.result t fun _ => hdone
    · rename_i hblocking
      cases hcall
      exact (haccepted hyes).result t fun hb => absurd hb hblocking
  · rename_i hno
    cases hcall
    exact (hrefused (by simpa using hno)).result m

/-- For every new transaction of a legacy connection and every order of network events, a refusal
of `M_TransSend` leaves the transaction new and off the wire, and its acceptance means that the
request went out and, in blocking mode, that the transaction is done. -/
theorem mTransSend_result (lib : Mstdlib) (m m' : MConn) (identifier : ℕ) (p : Ptr) (t : Trans)
    (net : SendNetwork) (ok : Bool) (hs : (legacy lib).Reachable (some m))
    (hp : connGetTransByInternalId m.sys.conn identifier = some p) (ht : m.sys.conn.heap p = some t)
    (hnew : t.status = .new) (hcall : mTransSend lib m identifier net = some (m', ok)) :
    SendResultOf p t m m' ok := by
  have hrested := legacy_rested hs rfl
  have hempty := ((running_of_reachable hrested.reachable).link.rest (by rw [hrested.idle]; rfl)).2.2
  have hunsent : Unsent lib p t m.sys := ⟨hrested.toServing, ht, hnew, by simp [hempty]⟩
  unfold mTransSend at hcall
  rw [hp] at hcall
  obtain ⟨s, hloop, hrest⟩ := Option.bind_eq_some_iff.mp hcall
  obtain ⟨hpolled, hidle⟩ := hunsent.eventLoop hloop
  simp only at hrest
  split at hrest
  · rename_i hup
    exact Unsent.of_transSendConnected (m := { m with sys := s }) hpolled hidle hup hrest
  · obtain ⟨⟨mid, up⟩, hconnect, hsend⟩ := Option.bind_eq_some_iff.mp hrest
    obtain ⟨hunsent', hidle', hblocking, hup⟩ :=
      Unsent.of_mConnect (m := { m with sys := s }) hpolled hidle hconnect
    simp only at hsend
    split at hsend
    · rename_i hyes
      obtain ⟨hno, hyes'⟩ := hunsent'.of_transSendConnected hidle' (hup hyes) hsend
      refine ⟨hno, fun hok => ?_⟩
      obtain ⟨hframed, t', ht', hst, hdone⟩ := hyes' hok
      exact ⟨hframed, t', ht', hst, fun hb => hdone (hblocking.trans hb)⟩
    · cases hsend
      exact hunsent'.result m

end Send

section Sale

/-- A blocking connection with a sale that is ready to be sent as transaction 7. -/
def draftedSale : MConn :=
  (((legacy reference).run (some mInitConn) [.setBlocking true, .transNew [saleDraw],
    .transKeyVal 7 (ascii "action") (some (ascii "sale"))]).bind id).get (by decide)

/-- The server takes the connection, answers the ping and approves the sale. -/
def saleNetwork : SendNetwork where
  poll := []
  connect := openNet
  connecting := [.event (.connected [pingDraw] 100), .drain, .finish,
    .event (.read (responseFrame 9 (ascii "PONG"))), .resume, .deliver, .callbackReturn, .drain, .finish]
  implicit := openNet
  waits := [answerSale]

/-- The sale after `M_TransSend`. -/
def sentSale : MConn × Bool := (mTransSend reference draftedSale 7 saleNetwork).get (by decide)

/-- The draft is a state of a legacy connection. -/
theorem draftedSale_reachable : (legacy reference).Reachable (some draftedSale) := by
  have hrun := System.reachable_get (legacy reference) (s := some mInitConn) rfl
    [.setBlocking true, .transNew [saleDraw],
      .transKeyVal 7 (ascii "action") (some (ascii "sale"))] (by decide)
  have heq : ((legacy reference).run (some mInitConn) [.setBlocking true, .transNew [saleDraw],
      .transKeyVal 7 (ascii "action") (some (ascii "sale"))]).get (by decide) = some draftedSale :=
    (Option.some_get _).symm
  exact heq ▸ hrun

/-- The call returns. -/
theorem sentSale_returned : mTransSend reference draftedSale 7 saleNetwork = some (sentSale.1, true) :=
  have hcall : mTransSend reference draftedSale 7 saleNetwork = some sentSale :=
    (Option.some_get _).symm
  hcall.trans (congrArg some (Prod.ext rfl (by decide)))

/-- Sending the sale in blocking mode returns with its answer. -/
theorem mTransSend_result_sale :
    SendResultOf 0 ((draftedSale.sys.conn.heap 0).get (by decide)) draftedSale sentSale.1 true :=
  mTransSend_result reference draftedSale sentSale.1 7 0 _ saleNetwork true draftedSale_reachable
    (by decide) (Option.some_get _).symm (by decide) sentSale_returned

end Sale

end LibMonetra
