import LibMonetra.Notification
import LibMonetra.Stage

/-!
# Nothing is sent before the ping is answered

While a connection is up and its ping is out, `outbuf` holds nothing but the ping, no transaction of a
caller goes out, and the connection is not `CONNECTED`. Only a message that carries the id of the ping
ends this.
-/

namespace LibMonetra

open Foundation

variable {lib : Mstdlib}

/-- Whether an action is the event of an I/O object that has come up. -/
def Action.comesUp : Action → Bool
  | .event (.connected _ _) => true
  | _ => false

/-- A response message with the id of the ping has completed it. -/
def PingAnswered (lib : Mstdlib) (p : Ptr) (tranId : ℕ) (new : List Obs) : Prop :=
  ∃ msg data, .answered p .pending msg ∈ new ∧ readMsg lib msg = some (tranId, data)

/-- Nothing of a caller has gone out: the connection is not `CONNECTED`, what is left in `outbuf` is the
end of the ping, and no request of a caller was put there. -/
structure Withheld (lib : Mstdlib) (tranId : ℕ) (c : Conn) (new : List Obs) : Prop where
  status : c.status ≠ .connected
  outbuf : c.outbuf <:+ requestFrame lib tranId pingParams
  unsent : ∀ p status frame, .framed p .user status frame ∉ new

/-- The invariant behind it: the handler does not go on to establish the connection, and the ping is
the one that was created with the connection. -/
structure Guarded (lib : Mstdlib) (p : Ptr) (tranId : ℕ) (s : Sys) (new : List Obs) : Prop where
  withheld : Withheld lib tranId s.conn new
  ping : s.conn.pingtxn = none ∨ s.conn.pingtxn = some p
  pc : s.pc ≠ .cleaning .reply ∧ s.pc ≠ .cleaning .disabled

section Step

variable {s s' : Sys} {a : Action} {p : Ptr} {tranId : ℕ} {old : List Obs}

/-- Reports put no request into `outbuf`. -/
theorem not_framed_of_isReport {new : List Obs} (h : ∀ o ∈ new, o.isReport = true) (p : Ptr)
    (status : ConnStatus) (frame : Bytes) : .framed p .user status frame ∉ new :=
  fun hmem => Bool.noConfusion (h _ hmem)

/-- What leaves the connection alone or takes it down withholds the rest. -/
theorem Withheld.later (h : Withheld lib tranId s.conn old) {c : Conn} {new : List Obs}
    (hstatus : c.status ≠ .connected) (houtbuf : c.outbuf <:+ s.conn.outbuf)
    (hnew : ∀ p status frame, .framed p .user status frame ∉ new) :
    Withheld lib tranId c (old ++ new) :=
  ⟨hstatus, houtbuf.trans h.outbuf, fun q status frame hmem =>
    (List.mem_append.mp hmem).elim (h.unsent q status frame) (hnew q status frame)⟩

/-- An action that records nothing, leaves the connection down and cleans up nothing new. -/
theorem Guarded.calm (h : Guarded lib p tranId s old) (htrace : s'.conn.trace = s.conn.trace)
    (hstatus : s'.conn.status ≠ .connected) (houtbuf : s'.conn.outbuf <:+ s.conn.outbuf)
    (hping : s'.conn.pingtxn = s.conn.pingtxn)
    (hpc : ∀ pingEnd, s'.pc = .cleaning pingEnd → s.pc = .cleaning pingEnd) :
    ∃ new, s'.conn.trace = s.conn.trace ++ new ∧
      (PingAnswered lib p tranId new ∨ Guarded lib p tranId s' (old ++ new)) := by
  refine ⟨[], by rw [htrace, List.append_nil], Or.inr ⟨?_, hping ▸ h.ping, ?_, ?_⟩⟩
  · exact h.withheld.later hstatus houtbuf (by simp)
  · exact fun hc => h.pc.1 (hpc _ hc)
  · exact fun hc => h.pc.2 (hpc _ hc)

/-- The end of the connection. -/
theorem Guarded.tornDown (h : Guarded lib p tranId s old) (c : Conn) (failure : IoFailure)
    (hrep : Rep c.toTransStore) (htrace : c.trace = s.conn.trace)
    (hping : c.pingtxn = none ∨ c.pingtxn = some p) :
    ∃ new, (connEventHandleConnError c failure).trace = s.conn.trace ++ new ∧
      Guarded lib p tranId { s with conn := connEventHandleConnError c failure, pc := .delivering }
        (old ++ new) := by
  have hhandled := connEventHandleConnError_handled c failure fun _ => hrep.live_of_waits
  refine ⟨teardownRecord c failure, htrace ▸ hhandled.trace, h.withheld.later ?_ ?_ ?_, ?_,
    Pc.noConfusion, Pc.noConfusion⟩
  · simp
  · simp
  · exact not_framed_of_isReport fun _ => isReport_of_mem_teardownRecord c
  · rwa [connEventHandleConnError_pingtxn]

/-- A read event keeps the guard, unless one of its messages answers the ping. -/
theorem Guarded.read (h : Guarded lib p tranId s old) (hrunning : Running lib s)
    (hid : ∀ t, s.conn.heap p = some t → t.transId = tranId) {chunk : Bytes} {new : List Obs}
    {r : Conn × Pc}
    (hend : ReadEnd lib { s.conn with inUse := true, inbuf := s.conn.inbuf ++ chunk } new r) :
    ∃ new, r.1.trace = s.conn.trace ++ new ∧
      (PingAnswered lib p tranId new ∨
        Guarded lib p tranId { s with conn := r.1, pc := r.2 } (old ++ new)) := by
  obtain ⟨hreads, reports, hhandled, hreports⟩ := hend.reports hrunning.rep rfl
  have hunsent : ∀ q status frame, Obs.framed q .user status frame ∉ new ++ reports := by
    intro q status frame hmem
    rcases List.mem_append.mp hmem with hmem | hmem
    · rcases hreads _ hmem with ⟨_, ho⟩ | ⟨_, _, _, ho⟩ | ⟨_, _, _, ho⟩ <;> cases ho
    · exact not_framed_of_isReport hreports q status frame hmem
  refine ⟨new ++ reports, hhandled.trace, ?_⟩
  cases hend with
  | ping c' q t hreads hq hwait hbrought ht hst =>
    obtain ⟨msg, id, data, hmem, hmsg, hmap⟩ := hbrought
    obtain rfl : q = p := by
      rcases h.ping with hnone | hsome
      · exact absurd (hq.symm.trans hnone) (Option.some_ne_none q)
      · exact Option.some.inj (hq.symm.trans hsome)
    obtain ⟨u, hu, hid'⟩ := hrunning.rep.mapLive id q hmap
    exact Or.inl ⟨msg, data, List.mem_append_left _ hmem, by rw [← hid u hu, hid']; exact hmsg⟩
  | wait c' hreads =>
    obtain ⟨_, _, _, _, _, _, _, rfl⟩ := hreads.shape
    exact Or.inr ⟨h.withheld.later h.withheld.status (List.suffix_refl _) hunsent, h.ping,
      Pc.noConfusion, Pc.noConfusion⟩
  | error c' hreads =>
    have hkept : c'.pingtxn = s.conn.pingtxn := hreads.pingtxn
    refine Or.inr ⟨h.withheld.later ?_ ?_ hunsent, ?_, Pc.noConfusion, Pc.noConfusion⟩
    · simp
    · simp
    · rw [connEventHandleConnError_pingtxn]
      exact hkept ▸ h.ping

/-- Every action but a new connection keeps the guard, or is the answer of the ping. -/
theorem Guarded.move (h : Guarded lib p tranId s old) (hmove : Move lib s s' a)
    (hrunning : Running lib s) (hid : ∀ t, s.conn.heap p = some t → t.transId = tranId)
    (hup : a.comesUp = false) :
    ∃ new, s'.conn.trace = s.conn.trace ++ new ∧
      (PingAnswered lib p tranId new ∨ Guarded lib p tranId s' (old ++ new)) := by
  have hwithheld := h.withheld
  have hping := h.ping
  obtain ⟨hreply, hdisabled⟩ := h.pc
  cases hmove with
  | aside _ new _ haside =>
    have hlocal : ∀ q status frame, Obs.framed q .user status frame ∉ new :=
      fun q status frame hmem => Bool.noConfusion (haside.records _ hmem)
    refine ⟨new, haside.trace, Or.inr ⟨hwithheld.later (haside.status ▸ hwithheld.status)
      (haside.outbuf ▸ List.suffix_refl _) hlocal, haside.pingtxn ▸ hping,
      fun hc => hreply ((haside.cleaning _).mp hc), fun hc => hdisabled ((haside.cleaning _).mp hc)⟩⟩
  | accepted q t hne ht hst heq =>
    subst heq
    refine ⟨[.accepted q], ?_, Or.inr ⟨hwithheld.later hne (List.suffix_refl _) (by simp), ?_, hreply,
      hdisabled⟩⟩
    · simp [TransStore.log]
    · simpa [TransStore.log] using hping
  | sent q t hconnected ht hst heq => exact absurd hconnected hwithheld.status
  | refused _ tlsctx error callers pc _ hpc heq =>
    subst heq
    exact h.calm rfl hwithheld.status (List.suffix_refl _) rfl fun _ =>
      (Pc.cleaning_iff_of_attempt hpc Pc.noConfusion).mp
  | opened _ who io tlsctx error callers pc _ hnone hreg hdead hpc heq =>
    subst heq
    exact h.calm rfl hwithheld.status (List.suffix_refl _) rfl fun _ =>
      (Pc.cleaning_iff_of_attempt hpc Pc.noConfusion).mp
  | dialed _ io tlsctx error callers pc _ hnone hreg hdead hpc heq =>
    subst heq
    exact h.calm rfl ConnStatus.noConfusion (List.suffix_refl _) rfl fun _ =>
      (Pc.cleaning_iff_of_attempt hpc Pc.noConfusion).mp
  | registered who hwho heq =>
    subst heq
    exact h.calm rfl ConnStatus.noConfusion (List.suffix_refl _) rfl fun _ => Pc.cleaning_of_finish
  | dropped who error hwho heq =>
    subst heq
    exact h.calm rfl hwithheld.status (List.suffix_refl _) rfl fun _ => Pc.cleaning_of_finish
  | disconnecting io hconnected hio heq => exact absurd hconnected hwithheld.status
  | idled hpc hconnected hpending heq => exact absurd hconnected hwithheld.status
  | pinged draws written draw hpc hio hping hdraw heq => cases hup
  | unpinged draws written hpc hio hping heq => cases hup
  | failed failure text error hpc hreg heq =>
    subst heq
    obtain ⟨new, htrace, hguarded⟩ :=
      h.tornDown { s.conn with inUse := true, error := error } failure hrunning.rep rfl hping
    exact ⟨new, htrace, Or.inr hguarded⟩
  | read chunk new r hpc hio hend heq =>
    subst heq
    exact h.read hrunning hid hend
  | wrote written hpc hio heq =>
    subst heq
    exact h.calm rfl hwithheld.status (List.drop_suffix _ _) rfl fun _ hc => Pc.noConfusion hc
  | expired hpc htimer hst heq =>
    subst heq
    obtain ⟨new, hhandled, hnew⟩ := connCleanupPing_reports lib { s.conn with inUse := true } rfl
    obtain ⟨st, heq, hsame, -, -⟩ := connCleanupPing_shape lib { s.conn with inUse := true } rfl
    have houtbuf : (connCleanupPing lib { s.conn with inUse := true }).outbuf = s.conn.outbuf := by
      rw [heq]
    refine ⟨new, hhandled.trace, Or.inr ⟨hwithheld.later ?_ (houtbuf ▸ List.suffix_refl _)
      (not_framed_of_isReport hnew), ?_, by simp, by simp⟩⟩
    · rw [heq]
      exact hwithheld.status
    · rw [heq]
      exact hsame ▸ hping
  | unguarded hpc heq => exact absurd hpc hdisabled
  | proved new r hpc hend heq => exact absurd hpc hreply
  | unproved error hpc heq =>
    subst heq
    have hrep : Rep { s.conn.toTransStore with pingtxn := none } :=
      (@InternalStep.forgetPing lib s.conn.toTransStore).rep hrunning.rep
    obtain ⟨new, htrace, hguarded⟩ :=
      h.tornDown { s.conn with pingtxn := none, error := error } .error hrep rfl (Or.inl rfl)
    exact ⟨new, htrace, Or.inr ⟨⟨hguarded.withheld.status, hguarded.withheld.outbuf,
      hguarded.withheld.unsent⟩, hguarded.ping, hguarded.pc⟩⟩
  | destroyed a pc hdestroys hidle hpc heq =>
    subst heq
    have hfreed : connDestroy s.conn = { connDestroy s.conn with
        status := s.conn.status
        outbuf := []
        pingtxn := s.conn.pingtxn
        trace := s.conn.trace ++ [.connFreed] } := by
      simp [connDestroy, hidle]
    rw [hfreed]
    refine ⟨[.connFreed], rfl, Or.inr ⟨hwithheld.later hwithheld.status List.nil_suffix (by simp), hping,
      fun hc => ?_, fun hc => ?_⟩⟩
    · rcases hpc with rfl | rfl
      · exact hreply hc
      · exact Pc.noConfusion hc
    · rcases hpc with rfl | rfl
      · exact hdisabled hc
      · exact Pc.noConfusion hc

end Step

section Runs

variable {s s' : Sys} {p : Ptr} {tranId : ℕ}

/-- A transaction keeps its id until it is gone for good. -/
theorem Running.identified (h : Running lib s) {a : Action} (hstep : sysStep lib s a = some s')
    (hborn : p < s.conn.nextPtr) (hid : ∀ t, s.conn.heap p = some t → t.transId = tranId) :
    p < s'.conn.nextPtr ∧ ∀ t, s'.conn.heap p = some t → t.transId = tranId := by
  have hlife := StoreSteps.life (sysStep_refines hstep h.link h.rep).2 h.rep p
  refine ⟨LifeSteps.born hlife hborn, fun t' ht' => ?_⟩
  cases ht : s.conn.heap p with
  | none =>
    have hgone := (LifeSteps.gone hlife hborn ht).1
    rw [show s'.conn.heap p = none from hgone] at ht'
    cases ht'
  | some t => exact (LifeSteps.moved hlife (h.life p).timed ht ht').2.1.trans (hid t ht)

/-- Every run without a new connection keeps the guard, or contains the answer of the ping. -/
theorem Guarded.run (actions : List Action) {old : List Obs} (h : Guarded lib p tranId s old)
    (hrunning : Running lib s) (hborn : p < s.conn.nextPtr)
    (hid : ∀ t, s.conn.heap p = some t → t.transId = tranId)
    (hno : ∀ a ∈ actions, a.comesUp = false) (hrun : (monetra lib).run s actions = some s') :
    ∃ new, s'.conn.trace = s.conn.trace ++ new ∧
      (PingAnswered lib p tranId new ∨ Guarded lib p tranId s' (old ++ new)) := by
  induction actions generalizing s old with
  | nil =>
    obtain rfl := Option.some.inj hrun
    exact ⟨[], by simp, Or.inr (by simpa using h)⟩
  | cons a rest ih =>
    obtain ⟨mid, hmid, hrest⟩ := Option.bind_eq_some_iff.mp hrun
    obtain ⟨new, htrace, hguard⟩ := h.move (sysStep_move hmid hrunning) hrunning hid
      (hno a List.mem_cons_self)
    obtain ⟨hborn', hid'⟩ := hrunning.identified hmid hborn hid
    have hno' : ∀ b ∈ rest, b.comesUp = false := fun b hb => hno b (List.mem_cons_of_mem a hb)
    rcases hguard with ⟨msg, data, hmem, hmsg⟩ | hguarded
    · obtain ⟨later, hlater⟩ := StoreSteps.trace_append ((hrunning.step hmid).run rest hrest).2
      exact ⟨new ++ later, by rw [hlater, htrace, List.append_assoc],
        Or.inl ⟨msg, data, List.mem_append_left _ hmem, hmsg⟩⟩
    · obtain ⟨later, hlater, hend⟩ := ih hguarded (hrunning.step hmid) hborn' hid' hno' hrest
      refine ⟨new ++ later, by rw [hlater, htrace, List.append_assoc], ?_⟩
      rcases hend with ⟨msg, data, hmem, hmsg⟩ | hguarded'
      · exact Or.inl ⟨msg, data, List.mem_append_right _ hmem, hmsg⟩
      · exact Or.inr (by rwa [List.append_assoc] at hguarded')

/-- The first piece of a handler that is told that the connection is up: the ping is created, and goes
into `outbuf` alone. -/
theorem guarded_of_comesUp {draws : List RandDraw} {written : ℕ} (hstage : Stage s)
    (hping : s.conn.disablePing = false)
    (hup : sysStep lib s (.event (.connected draws written)) = some s') :
    ∃ ping new, s'.conn.heap s.conn.nextPtr = some ping ∧ ping.owner = .ping ∧
      s.conn.nextPtr < s'.conn.nextPtr ∧ s'.conn.pingtxn = some s.conn.nextPtr ∧
      s'.conn.trace = s.conn.trace ++ new ∧ Guarded lib s.conn.nextPtr ping.transId s' new := by
  have hfree := sysStep_live lib hup
  unfold sysStep at hup
  rw [if_neg (by simp [hfree])] at hup
  simp only at hup
  split at hup
  · rename_i hidle
    obtain ⟨r, hr, rfl⟩ := Option.map_eq_some_iff.mp hup
    simp only [handlerEnter] at hr
    rw [if_neg (by simp [hping])] at hr
    obtain ⟨⟨c, p⟩, hnew, rfl⟩ := Option.map_eq_some_iff.mp hr
    obtain ⟨draw, -, rfl, rfl⟩ := transPingRequest_spec hnew
    obtain ⟨-, -, -, -, hst, hblank⟩ := hstage.of_dialing hidle.2
    refine ⟨{ Trans.fresh draw.val .ping with status := .pending },
      [.created s.conn.nextPtr .ping, .framed s.conn.nextPtr .ping s.conn.status
        (requestFrame lib draw.val pingParams)], ?_, rfl, ?_, rfl, ?_, ⟨?_, ?_, ?_⟩, Or.inr rfl,
          Pc.noConfusion, Pc.noConfusion⟩
    · simp [TransStore.log]
    · simp [TransStore.log]
    · simp [TransStore.log]
    · simp [hst]
    · change (s.conn.outbuf ++ requestFrame lib draw.val pingParams).drop written <:+ _
      rw [hblank.outbuf, List.nil_append]
      exact List.drop_suffix _ _
    · simp
  · cases hup

/-- A transaction that is `READY`, and whose request does not go out, stays `READY`. -/
theorem Running.stays_ready (h : Running lib s) (h' : Running lib s')
    (hsteps : StoreSteps lib s.conn.toTransStore s'.conn.toTransStore) {old new : List Obs}
    (htrace : s'.conn.trace = old ++ new) (hold : old <+: s.conn.trace)
    (hunsent : ∀ q status frame, .framed q .user status frame ∉ new) {q : Ptr} {t t' : Trans}
    (ht : s.conn.heap q = some t) (hready : t.status = .ready) (ht' : s'.conn.heap q = some t') :
    t'.status = .ready := by
  obtain ⟨howner, -, hrank⟩ :=
    LifeSteps.moved (StoreSteps.life hsteps h.rep q) (h.life q).timed ht ht'
  have huser : t.owner = .user := (h.life q).timed.user_of_status ht (by simp [hready])
  by_contra hne
  have hpast : t'.status = .pending ∨ t'.status = .done := by
    cases hst : t'.status <;> simp_all [TransStatus.rank]
  obtain ⟨status, params, hmem⟩ := (h'.life q).sent.sent t' ht' hpast
  have hframed : .framed q .user status (requestFrame lib t'.transId params) ∈ old ++ new := by
    rw [← htrace, ← huser, ← howner]
    exact List.mem_of_mem_filter hmem
  refine (List.mem_append.mp hframed).elim (fun hmem => ?_) (hunsent q _ _)
  refine (h.life q).sent.waiting t ht (Or.inr hready) .user _ _ (List.mem_filter.mpr
    ⟨hold.subset hmem, ?_⟩)
  simp [Obs.about]

/-- In every run from the event that brings a connection up, with the ping enabled, either a response
message with the id of the ping has completed it, or nothing of a caller has gone out, and every
transaction that was `READY` at some point still is, until it is deleted. -/
theorem run_withheld (lib : Mstdlib) {s s₁ mid s₂ : Sys} {draws : List RandDraw} {written : ℕ}
    {first second : List Action} (hs : (monetra lib).Reachable s) (hping : s.conn.disablePing = false)
    (hup : sysStep lib s (.event (.connected draws written)) = some s₁)
    (hfirst : (monetra lib).run s₁ first = some mid) (hsecond : (monetra lib).run mid second = some s₂)
    (hno : ∀ a ∈ first ++ second, a.comesUp = false) :
    ∃ ping new, s₁.conn.heap s.conn.nextPtr = some ping ∧ ping.owner = .ping ∧
      s₁.conn.pingtxn = some s.conn.nextPtr ∧ s₂.conn.trace = s.conn.trace ++ new ∧
      (PingAnswered lib s.conn.nextPtr ping.transId new ∨
        (Withheld lib ping.transId s₂.conn new ∧ ∀ q t t', mid.conn.heap q = some t →
          t.status = .ready → s₂.conn.heap q = some t' → t'.status = .ready)) := by
  have hrunning := running_of_reachable hs
  have hrunning₁ := hrunning.step hup
  obtain ⟨ping, new, hlive, howner, hborn, hpingtxn, htrace, hguard⟩ :=
    guarded_of_comesUp (stage_of_reachable hs (sysStep_live lib hup)) hping hup
  refine ⟨ping, ?_⟩
  have hrun : (monetra lib).run s₁ (first ++ second) = some s₂ := by
    rw [System.run_append, hfirst]
    exact hsecond
  obtain ⟨later, hlater, hend⟩ := hguard.run (first ++ second) hrunning₁ hborn
    (fun t ht => congrArg Trans.transId (Option.some.inj (ht.symm.trans hlive))) hno hrun
  have hwhole : s₂.conn.trace = s.conn.trace ++ (new ++ later) := by
    rw [hlater, htrace, List.append_assoc]
  refine ⟨new ++ later, hlive, howner, hpingtxn, hwhole, ?_⟩
  rcases hend with ⟨msg, data, hmem, hmsg⟩ | hguarded
  · exact Or.inl ⟨msg, data, List.mem_append_right _ hmem, hmsg⟩
  · obtain ⟨hrunningMid, hstepsMid⟩ := hrunning₁.run first hfirst
    obtain ⟨hrunning₂, hsteps⟩ := hrunningMid.run second hsecond
    obtain ⟨between, hbetween⟩ := StoreSteps.trace_append hstepsMid
    have hold : s.conn.trace <+: mid.conn.trace := by
      rw [hbetween, htrace, List.append_assoc]
      exact List.prefix_append _ _
    exact Or.inr ⟨hguarded.withheld, fun q t t' ht hready ht' =>
      hrunningMid.stays_ready hrunning₂ hsteps hwhole hold hguarded.withheld.unsent ht hready ht'⟩

end Runs

section Runs

/-- A sale waits for its connection. -/
def queueSale : List Action :=
  [.transNew [saleDraw], .transSetParam 0 (ascii "action") (some (ascii "sale")), .transSend 0,
    .implicitConnect openNet]

/-- The library with the sale waiting. -/
def saleQueued : Sys := ((monetra reference).run started queueSale).get (by decide)

/-- This state is reachable. -/
theorem saleQueued_reachable : (monetra reference).Reachable saleQueued :=
  System.reachable_get _ (started_init reference) queueSale _

/-- The I/O object comes up, and the ping goes out. -/
def salePinged : Sys :=
  (sysStep reference saleQueued (.event (.connected [pingDraw] 100))).get (by decide)

/-- The handler returns, a read event brings nothing, and the caller asks for a disconnect in vain. -/
def waitForPing : List Action :=
  [.drain, .finish, .event (.read []), .drain, .finish, .connDisconnect]

/-- The library waiting for the answer of the ping. -/
def saleWithheld : Sys := ((monetra reference).run salePinged waitForPing).get (by decide)

/-- The sale waits for the answer of the ping. -/
theorem run_withheld_sale :
    (saleWithheld.conn.heap 0).map Trans.status = some .ready ∧
    ∃ ping new, salePinged.conn.heap 1 = some ping ∧ ping.owner = .ping ∧
      salePinged.conn.pingtxn = some 1 ∧ saleWithheld.conn.trace = saleQueued.conn.trace ++ new ∧
      (PingAnswered reference 1 ping.transId new ∨
        (Withheld reference ping.transId saleWithheld.conn new ∧ ∀ q t t',
          salePinged.conn.heap q = some t → t.status = .ready →
          saleWithheld.conn.heap q = some t' → t'.status = .ready)) :=
  ⟨by decide, @run_withheld reference saleQueued salePinged salePinged saleWithheld [pingDraw] 100 []
    waitForPing saleQueued_reachable (by decide) (Option.some_get _).symm rfl (Option.some_get _).symm
    (by decide)⟩

end Runs

end LibMonetra
