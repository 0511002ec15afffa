import LibMonetra.Wakeup

/-!
# The idle timer

A connection that is up and has an idle timeout has a timer, which runs while nothing is on the wire. The
same timer limits the ping before the connection is up. While the connection is up, the timer is a machine
of its own: it is stopped when a request goes out, started when the last answer has been read or the last
transaction deleted, and set anew with a new timeout.
-/

namespace LibMonetra

open Foundation

/-- The idle timeout in seconds, the timer, and what is on the wire. -/
structure Meter where
  seconds : ℕ
  timer : Option Timer
  pending : List Ptr

namespace Meter

variable (lib : Mstdlib) (m : Meter)

/-- `idle_timeout * 1000`. -/
def interval : ℕ := m.seconds * 1000 % 2 ^ lib.sizeBits

/-- Transactions leave the wire. The timer starts when they are the last. -/
def leave (pending : List Ptr) : Meter :=
  { m with
    timer := if pending = [] then m.timer.map fun _ => ⟨m.interval lib, true⟩ else m.timer
    pending := pending }

/-- Transactions go out. The timer stops when something is on the wire. -/
def send (ready : List Ptr) : Meter :=
  { m with
    timer :=
      if m.pending ++ ready ≠ [] then m.timer.map fun timer => { timer with running := false } else m.timer
    pending := m.pending ++ ready }

/-- A new idle timeout. -/
def set (seconds : ℕ) : Meter :=
  { m with
    seconds := seconds
    timer :=
      if seconds = 0 then none
      else if m.pending = [] then some ⟨seconds * 1000 % 2 ^ lib.sizeBits, true⟩
      else some (m.timer.getD ⟨0, false⟩) }

/-- There is no timer without an idle timeout, and else it runs exactly while nothing is on the wire. -/
structure Right : Prop where
  off : m.seconds = 0 → m.timer = none
  on : m.seconds ≠ 0 → ∃ t, m.timer = some t ∧ (t.running = true ↔ m.pending = [])

/-- The same timer where it may not have been started yet: it does not run while something is on the wire. -/
structure Restrained : Prop where
  off : m.seconds = 0 → m.timer = none
  on : m.seconds ≠ 0 → ∃ t, m.timer = some t ∧ (t.running = true → m.pending = [])

/-- A timer that runs was started with the idle timeout, while nothing was on the wire. -/
def Started : Prop :=
  ∀ t, m.timer = some t → t.running = true → m.pending = [] ∧ t.interval = m.interval lib

variable {lib m}

/-- A timer that runs exactly while nothing is on the wire does not run while something is. -/
theorem Right.restrained (h : m.Right) : m.Restrained := by
  refine ⟨h.off, fun hon => ?_⟩
  obtain ⟨t, htimer, hrunning⟩ := h.on hon
  exact ⟨t, htimer, hrunning.mp⟩

/-- The timer is right after transactions have left the wire. -/
theorem Restrained.leave (h : m.Restrained) {pending : List Ptr} (hsub : pending.Sublist m.pending) :
    (m.leave lib pending).Right := by
  refine ⟨fun hoff => ?_, fun hon => ?_⟩
  · simp [Meter.leave, h.off hoff]
  · obtain ⟨t, hsome, hrunning⟩ := h.on hon
    by_cases hempty : pending = []
    · exact ⟨⟨m.interval lib, true⟩, by simp [Meter.leave, hempty, hsome], by simp [Meter.leave, hempty]⟩
    · refine ⟨t, by simp [Meter.leave, hempty, hsome], iff_of_false (fun hr => ?_) hempty⟩
      exact hempty (List.sublist_nil.mp (hrunning hr ▸ hsub))

/-- The timer is right after transactions have gone out. -/
theorem Right.send (h : m.Right) (ready : List Ptr) : (m.send ready).Right := by
  refine ⟨fun hoff => ?_, fun hon => ?_⟩
  · simp [Meter.send, h.off hoff]
  · obtain ⟨t, hsome, hrunning⟩ := h.on hon
    by_cases hempty : m.pending ++ ready = []
    · have hnone := List.append_eq_nil_iff.mp hempty
      exact ⟨t, by simp [Meter.send, hempty, hsome], by simp [Meter.send, hrunning, hnone]⟩
    · exact ⟨⟨t.interval, false⟩, by simp [Meter.send, hempty, hsome], by simpa [Meter.send] using hempty⟩

/-- The timer is right after a new timeout. -/
theorem Right.set (h : m.Right) (seconds : ℕ) : (m.set lib seconds).Right := by
  refine ⟨fun hoff => ?_, fun hon => ?_⟩
  · exact if_pos hoff
  · change seconds ≠ 0 at hon
    by_cases hempty : m.pending = []
    · exact ⟨⟨seconds * 1000 % 2 ^ lib.sizeBits, true⟩, by simp only [Meter.set, if_neg hon, if_pos hempty],
        iff_of_true rfl hempty⟩
    · refine ⟨m.timer.getD ⟨0, false⟩, by simp only [Meter.set, if_neg hon, if_neg hempty],
        iff_of_false (fun hrunning => ?_) hempty⟩
      cases htimer : m.timer with
      | none => simp [htimer] at hrunning
      | some t =>
        obtain ⟨t', hsome, hiff⟩ := h.on fun hzero => by simp [h.off hzero] at htimer
        obtain rfl := Option.some.inj (htimer.symm.trans hsome)
        exact hempty (hiff.mp (by simpa [htimer] using hrunning))

/-- A timer that runs after transactions have left the wire was started with the idle timeout. -/
theorem Started.leave (h : m.Started lib) {pending : List Ptr} (hsub : pending.Sublist m.pending) :
    (m.leave lib pending).Started lib := by
  intro t htimer hrunning
  by_cases hempty : pending = []
  · simp only [Meter.leave, if_pos hempty, Option.map_eq_some_iff] at htimer
    obtain ⟨old, hold, rfl⟩ := htimer
    exact ⟨hempty, rfl⟩
  · obtain ⟨hnone, hinterval⟩ := h t (by simpa [Meter.leave, hempty] using htimer) hrunning
    exact absurd (List.sublist_nil.mp (hnone ▸ hsub)) hempty

/-- A timer that runs after transactions have gone out was started with the idle timeout. -/
theorem Started.send (h : m.Started lib) (ready : List Ptr) : (m.send ready).Started lib := by
  intro t htimer hrunning
  by_cases hempty : m.pending ++ ready = []
  · exact ⟨hempty, (h t (by simpa [Meter.send, hempty] using htimer) hrunning).2⟩
  · simp only [Meter.send, if_pos hempty, Option.map_eq_some_iff] at htimer
    obtain ⟨old, hold, rfl⟩ := htimer
    cases hrunning

/-- A timer that runs after a new timeout was started with it. -/
theorem Started.set (h : m.Started lib) (seconds : ℕ) : (m.set lib seconds).Started lib := by
  intro t htimer hrunning
  by_cases hoff : seconds = 0
  · simp [Meter.set, hoff] at htimer
  · by_cases hempty : m.pending = []
    · simp only [Meter.set, if_neg hoff, if_pos hempty, Option.some.injEq] at htimer
      exact ⟨hempty, htimer ▸ rfl⟩
    · simp only [Meter.set, if_neg hoff, if_neg hempty, Option.some.injEq] at htimer
      cases hold : m.timer with
      | none => simp [← htimer, hold] at hrunning
      | some old =>
        rw [hold, Option.getD_some] at htimer
        exact absurd (h t (htimer ▸ hold) hrunning).1 hempty

end Meter

/-- What happens to the timer of a connection that is up. -/
inductive MeterStep (lib : Mstdlib) (m : Meter) : Meter → Prop
  | leave (pending : List Ptr) : pending.Sublist m.pending → MeterStep lib m (m.leave lib pending)
  | send (ready : List Ptr) : MeterStep lib m (m.send ready)
  | set (seconds : ℕ) : MeterStep lib m (m.set lib seconds)

/-- A sequence of these steps. -/
abbrev MeterSteps (lib : Mstdlib) : Meter → Meter → Prop := Relation.ReflTransGen (MeterStep lib)

section Steps

variable {lib : Mstdlib} {m m' : Meter}

/-- These steps keep the timer right. -/
theorem MeterSteps.right (h : MeterSteps lib m m') (hm : m.Right) : m'.Right := by
  refine invariant_of_steps (P := Meter.Right) (fun m m' hstep hm => ?_) h hm
  cases hstep with
  | leave pending hsub => exact hm.restrained.leave hsub
  | send ready => exact hm.send ready
  | set seconds => exact hm.set seconds

/-- These steps start the timer with the idle timeout. -/
theorem MeterSteps.started (h : MeterSteps lib m m') (hm : m.Started lib) : m'.Started lib := by
  refine invariant_of_steps (P := Meter.Started lib) (fun m m' hstep hm => ?_) h hm
  cases hstep with
  | leave pending hsub => exact hm.leave hsub
  | send ready => exact hm.send ready
  | set seconds => exact hm.set seconds

end Steps

/-- The timer of a connection. -/
def Conn.meter (c : Conn) : Meter := ⟨c.idleTimeout, c.timer, c.transPending⟩

section Pieces

variable (lib : Mstdlib) {c : Conn}

/-- The deletion of a transaction outside a handler, or at its end. -/
theorem transDeleteUnlocked_meter (hup : c.status = .connected) (p : Ptr) :
    MeterSteps lib c.meter (transDeleteUnlocked lib c p).meter := by
  unfold transDeleteUnlocked
  cases ht : c.heap p with
  | none => exact .refl
  | some t =>
    have hsub : (c.toTransStore.queueTake t.status p).transPending.Sublist c.transPending := by
      change ((c.toTransStore.queueTake t.status p).connQueue .pending).Sublist (c.connQueue .pending)
      rw [TransStore.connQueue_queueTake]
      split
      · rename_i hst
        rw [← hst]
        exact List.erase_sublist
      · exact .refl _
    have hstep := @MeterStep.leave lib c.meter _ hsub
    refine .single ?_
    simpa [timerReset, hup, Conn.meter, Meter.leave, Meter.interval] using hstep

/-- A connection stays up when a transaction is deleted. -/
theorem transDeleteUnlocked_status (hup : c.status = .connected) (p : Ptr) :
    (transDeleteUnlocked lib c p).status = .connected := by
  unfold transDeleteUnlocked
  cases c.heap p with
  | none => exact hup
  | some t => exact hup

/-- The drain. -/
theorem drainDelayRm_meter (hup : c.status = .connected) (delayed : List Ptr) :
    MeterSteps lib c.meter (drainDelayRm lib delayed c).meter := by
  induction delayed generalizing c with
  | nil => exact .refl
  | cons p rest ih =>
    have hfirst := transDeleteUnlocked_meter lib (c := { c with transDelayRm := rest }) hup p
    exact hfirst.trans (ih (transDeleteUnlocked_status lib (c := { c with transDelayRm := rest }) hup p))

/-- A deletion that a caller asks for. -/
theorem transDelete_meter (hup : c.status = .connected) (p : Ptr) :
    MeterSteps lib c.meter (transDelete lib c p).meter := by
  cases ht : c.heap p with
  | none =>
    rw [show transDelete lib c p = c by simp [transDelete, ht]]
  | some t =>
    by_cases hbusy : c.inUse = true
    · have hqueue : (c.toTransStore.defer p t).transPending = c.transPending :=
        TransStore.connQueue_defer c.toTransStore p t .pending
      rw [transDelete_inUse ht hbusy]
      simp only [Conn.meter, hqueue]
      exact .refl
    · have hqueue : (c.toTransStore.killTimeoutTimer p t).transPending = c.transPending :=
        TransStore.connQueue_killTimeoutTimer c.toTransStore p t .pending
      have hnext := transDeleteUnlocked_meter lib (c := { c with
        toTransStore := (c.toTransStore.killTimeoutTimer p t).log (.deleted p) }) hup p
      simp only [transDelete, ht, if_neg hbusy]
      simpa only [Conn.meter, TransStore.log, hqueue] using hnext

/-- A new idle timeout. -/
theorem connSetIdleTimeout_meter (hup : c.status = .connected) (toSecs : ℕ) :
    (connSetIdleTimeout lib c toSecs).meter = c.meter.set lib toSecs := by
  unfold connSetIdleTimeout
  simp only [hup, ne_eq, not_true_eq_false, if_false]
  split
  · rename_i hoff
    simp [Conn.meter, Meter.set, hoff]
  · rename_i hon
    by_cases hempty : c.transPending = []
    · simp [Conn.meter, Meter.set, timerReset, hon, hempty]
    · simp [Conn.meter, Meter.set, timerReset, hon, hempty]

/-- `LM_trans_send_messages` stops the timer when something is on the wire. -/
theorem transSendMessages_meter (hup : c.status = .connected) :
    (transSendMessages lib c).1.meter = c.meter.send c.transReady := by
  obtain ⟨heap, timers, new, more, heq, -, -⟩ := sendMessagesLoop_shape lib c c.transReady rfl
  rw [transSendMessages_connected lib c hup]
  simp only [heq, triggerSignal, timerStop, Conn.meter, Meter.send]
  congr

/-- A connection that is established has a new timer, which does not run. -/
theorem connEventSetConnected_meter (hnone : c.timer = none) :
    (connEventSetConnected lib c).meter = ⟨c.idleTimeout, if c.idleTimeout ≠ 0 then some ⟨0, false⟩ else none,
      c.transPending ++ c.transReady⟩ := by
  let up : Conn := { c with
    toTransStore := c.toTransStore.connEventAdd .connConnected none
    status := .connected }
  have hsent : (transSendMessages lib up).1.meter = up.meter.send up.transReady :=
    transSendMessages_meter lib rfl
  have htimer : (transSendMessages lib up).1.timer = none :=
    (congrArg Meter.timer hsent).trans (by simp [Meter.send, Conn.meter, up, hnone])
  have hidle : (transSendMessages lib up).1.idleTimeout = c.idleTimeout := congrArg Meter.seconds hsent
  have hpending : (transSendMessages lib up).1.transPending = c.transPending ++ c.transReady :=
    congrArg Meter.pending hsent
  change Meter.mk (transSendMessages lib up).1.idleTimeout
    (if (transSendMessages lib up).1.idleTimeout ≠ 0 then some ⟨0, false⟩
      else (transSendMessages lib up).1.timer)
    (transSendMessages lib up).1.transPending = _
  rw [hidle, htimer, hpending]

/-- The end of a read event starts the timer of a connection that is still up. -/
theorem ReadEnd.meter {new : List Obs} {r : Conn × Pc} (h : ReadEnd lib c new r) (hping : c.pingtxn = none)
    (hup : r.1.status = .connected) :
    ∃ pending, pending.Sublist c.meter.pending ∧ r.1.meter = c.meter.leave lib pending := by
  cases h with
  | ping c' p t hreads hp hwait hbrought ht hst =>
    rw [hping] at hp
    cases hp
  | wait c' hreads =>
    have hsub := hreads.pending
    obtain ⟨_, _, _, _, _, _, _, rfl⟩ := hreads.shape
    exact ⟨_, hsub, rfl⟩
  | error c' hreads =>
    exact absurd ((connEventHandleConnError_status _ .error).symm.trans hup) ConnStatus.noConfusion

end Pieces

section Actions

variable {lib : Mstdlib} {s s' : Sys} {a : Action}

/-- Whether an action creates an idle timer that it should start, or removes one that is stopped because
transactions are pending. -/
def Action.losesTimer (s : Sys) : Action → Bool
  | .resume => s.pc = .cleaning .disabled && s.conn.idleTimeout ≠ 0 && s.conn.transReady.isEmpty
  | .event .timer => s.conn.status = .connected && !s.conn.transPending.isEmpty
  | _ => false

/-- What an event does to the timer of a connection that is up and stays up. The event of the timer itself
removes it when transactions are pending. -/
theorem handlerEnter_meter {c : Conn} {e : IoEvent} {r : Conn × Pc} (hup : c.status = .connected)
    (hdialing : c.io.any (fun io => io.registered && !io.up) = true → c.status = .connecting)
    (hping : c.pingtxn = none) (henabled : eventEnabled c e = true) (hr : handlerEnter lib c e = some r)
    (hup' : r.1.status = .connected) :
    MeterSteps lib c.meter r.1.meter ∨ (e = .timer ∧ c.transPending ≠ [] ∧ r.1.timer = none) := by
  cases e with
  | connected draws written => exact absurd (hdialing henabled) (by simp [hup])
  | failed failure text =>
    obtain rfl := Option.some.inj hr
    exact absurd ((connEventHandleConnError_status _ failure).symm.trans hup') ConnStatus.noConfusion
  | read chunk =>
    obtain rfl := Option.some.inj hr
    obtain ⟨new, hend⟩ := readFrames_end lib { c with inUse := true, inbuf := c.inbuf ++ chunk }
    obtain ⟨pending, hsub, heq⟩ := hend.meter lib hping hup'
    rw [heq]
    exact Or.inl (.single (.leave pending hsub))
  | readFailed =>
    obtain rfl := Option.some.inj hr
    exact Or.inl .refl
  | write written =>
    obtain rfl := Option.some.inj hr
    exact Or.inl .refl
  | timer =>
    simp only [handlerEnter, hup, reduceCtorEq, if_false, true_and] at hr
    by_cases hempty : c.transPending = []
    · rw [if_pos hempty] at hr
      obtain rfl := Option.some.inj hr
      cases hup'
    · rw [if_neg hempty] at hr
      obtain rfl := Option.some.inj hr
      exact Or.inr ⟨rfl, hempty, rfl⟩
  | transTimer p =>
    simp only [handlerEnter] at hr
    split at hr
    · obtain rfl := Option.some.inj hr
      exact Or.inl .refl
    · obtain rfl := Option.some.inj hr
      exact Or.inl .refl

/-- `LM_trans_send` on a connection that is up. -/
theorem transSend_meter (hup : s.conn.status = .connected) (p : Ptr) :
    MeterSteps lib s.conn.meter (transSend lib s.conn p).conn.meter := by
  cases ht : s.conn.heap p with
  | none =>
    simp only [transSend, ht]
    exact .refl
  | some t =>
    by_cases hrefused : t.status ≠ .new ∨ t.numParams = 0
    · simp only [transSend, ht, if_pos hrefused]
      exact .refl
    · simp only [transSend, ht, if_neg hrefused]
      rw [transSendMessages_meter lib (c := { s.conn with
        heap := Function.update s.conn.heap p (some { t with status := .ready })
        transNew := s.conn.transNew.erase p
        transReady := s.conn.transReady ++ [p]
        trace := s.conn.trace ++ [.accepted p] }) hup]
      exact .single (.send _)

/-- An attempt to connect leaves the timer alone. -/
theorem enterConnect_meter (mid : Sys) (net : NetOutcome) (who : Connector) :
    (enterConnect lib mid net who).1.conn.meter = mid.conn.meter := by
  rcases enterConnect_cases lib mid net who with ⟨tlsctx, error, heq⟩ | ⟨-, io, tlsctx, error, -, -, heq⟩ |
    ⟨-, io, tlsctx, error, -, -, heq⟩
  all_goals
    rw [heq]
    rfl

/-- So does a disconnect. -/
theorem connDisconnectConnlocked_meter (c : Conn) : (connDisconnectConnlocked c).1.meter = c.meter := by
  unfold connDisconnectConnlocked
  split
  · rfl
  · split <;> rfl

/-- So does the destruction of a connection that is in use. -/
theorem connDestroy_meter {c : Conn} (hlive : (connDestroy c).freed = false) :
    (connDestroy c).meter = c.meter := by
  by_cases hbusy : c.inUse = true
  · simp only [connDestroy, if_pos hbusy]
    rfl
  · simp [connDestroy, hbusy] at hlive

/-- A setter leaves the timer alone, apart from that of the idle timeout. -/
theorem configures_meter (hup : s.conn.status = .connected) (hstep : sysStep lib s a = some s')
    (hsets : a.configures = true) : MeterSteps lib s.conn.meter s'.conn.meter := by
  have hfree := sysStep_live lib hstep
  have hsame : s'.conn.meter = s.conn.meter → MeterSteps lib s.conn.meter s'.conn.meter := fun hc => hc ▸ .refl
  unfold sysStep at hstep
  rw [if_neg (by simp [hfree])] at hstep
  cases a with
  | connSetIdleTimeout toSecs =>
    obtain rfl := Option.some.inj hstep
    rw [connSetIdleTimeout_meter lib hup]
    exact .single (.set toSecs)
  | connDisablePing =>
    obtain rfl := Option.some.inj hstep
    exact hsame rfl
  | connChangeServer | connChangeMode | connSetConnTimeout | connSetIocreateCallback =>
    obtain rfl := Option.some.inj hstep
    refine hsame ?_
    simp only [connChangeServer, connChangeMode, connSetConnTimeout, connSetIocreateCallback]
    split <;> rfl
  | _ => cases hsets

/-- What an action does to the timer of a connection that is up and stays up. -/
theorem sysStep_meter (hup : s.conn.status = .connected) (hstage : Stage s)
    (hstep : sysStep lib s a = some s') (hlive : s'.conn.freed = false) (hup' : s'.conn.status = .connected) :
    MeterSteps lib s.conn.meter s'.conn.meter ∨ (a.losesTimer s = true ∧ s'.conn.timer = none) := by
  have hping : s.conn.pingtxn = none := (hstage.proved (by simp [hup]) (by simp [hup])).2
  have hsame : ∀ c : Conn, c.meter = s.conn.meter →
      MeterSteps lib s.conn.meter c.meter ∨ (a.losesTimer s = true ∧ c.timer = none) :=
    fun c hc => Or.inl (hc ▸ .refl)
  cases sysStep_effect hstep with
  | transNew draws c p hnew =>
    obtain ⟨draw, -, -, rfl⟩ := transNew_spec hnew
    exact hsame _ rfl
  | transRunNew draws params c p hnew =>
    obtain ⟨draw, -, -, rfl⟩ := transRunNew_spec hnew
    exact hsame _ rfl
  | transSetParam p key value =>
    obtain ⟨heap, heq, -⟩ := transSetParam_spec lib s.conn p key value
    rw [heq]
    exact hsame _ rfl
  | transSetTimeout p timeoutS =>
    obtain ⟨heap, heq, -⟩ := transSetTimeout_spec lib s.conn p timeoutS
    rw [heq]
    exact hsame _ rfl
  | transSend p => exact Or.inl (transSend_meter hup p)
  | transDelete p => exact Or.inl (transDelete_meter lib hup p)
  | connConnect net => exact hsame _ (enterConnect_meter s net .caller)
  | connDisconnect => exact hsame _ (connDisconnectConnlocked_meter s.conn)
  | connDestroy => exact hsame _ (connDestroy_meter hlive)
  | configures a c hsets _ => exact Or.inl (configures_meter hup hstep hsets)
  | implicitConnect net _ => exact hsame _ (enterConnect_meter _ net .caller)
  | connectFinish eventAdd who _ => cases eventAdd <;> exact hsame _ rfl
  | event e r _ henabled hr =>
    refine (handlerEnter_meter hup (fun hdialing => (hstage.of_dialing hdialing).choose_spec.2.2.2.1) hping
      henabled hr hup').imp_right ?_
    rintro ⟨rfl, hpending, hnone⟩
    exact ⟨by simp [Action.losesTimer, hup, hpending], hnone⟩
  | resume pingEnd hpc => cases hup.symm.trans (hstage.cleaning pingEnd hpc).2
  | deliver | callbackReturn => exact hsame _ rfl
  | drain => exact Or.inl (drainDelayRm_meter lib hup s.conn.transDelayRm)
  | reconnect net _ => exact hsame _ (enterConnect_meter s net .handler)
  | finish _ =>
    cases hdestroy : s.conn.destroy with
    | false => exact hsame _ rfl
    | true =>
      rw [hdestroy] at hlive
      exact hsame _ (connDestroy_meter hlive)

/-- A connection comes up when the clean-up of its ping has returned. -/
theorem Move.established (hmove : Move lib s s' a) (hup' : s'.conn.status = .connected)
    (hdown : s.conn.status ≠ .connected) :
    (a = .resume ∧ s.pc = .cleaning .disabled ∧
      s'.conn = { connEventSetConnected lib { s.conn with pingtxn := none } with writeTrigger := some false }) ∨
    (∃ new r, ReadEnd lib (connEventSetConnected lib { s.conn with pingtxn := none }) new r ∧ s'.conn = r.1 ∧
      s.pc = .cleaning .reply) := by
  cases hmove with
  | unguarded hpc heq =>
    subst heq
    exact Or.inl ⟨rfl, hpc, rfl⟩
  | proved new r hpc hend heq =>
    subst heq
    exact Or.inr ⟨new, r, hend, rfl, hpc⟩
  | aside _ new _ haside => exact absurd (haside.status.symm.trans hup') hdown
  | sent p t hup ht hst heq => exact absurd hup hdown
  | destroyed a pc hdestroys hidle hpc heq =>
    subst heq
    simp only [connDestroy, hidle, Bool.false_eq_true, if_false] at hup'
    exact absurd hup' hdown
  | read chunk new r hpc hup hend heq =>
    subst heq
    rcases hend.kept rfl with ⟨hsame, -⟩ | ⟨-, hlost⟩
    · exact absurd (hsame.symm.trans hup') hdown
    · exact absurd (hlost.symm.trans hup') ConnStatus.noConfusion
  | accepted _ _ _ _ _ heq | refused _ _ _ _ _ _ _ heq | opened _ _ _ _ _ _ _ _ _ _ _ _ heq
  | dropped _ _ _ heq | pinged _ _ _ _ _ _ _ heq | wrote _ _ _ heq =>
    subst heq
    exact absurd hup' hdown
  | dialed _ _ _ _ _ _ _ _ _ _ _ heq | registered _ _ heq | disconnecting _ _ _ heq | idled _ _ _ heq =>
    subst heq
    cases hup'
  | unpinged _ _ _ _ _ heq | expired _ _ _ heq =>
    subst heq
    exact absurd ((connCleanupPing_status lib rfl).symm.trans hup') hdown
  | failed failure _ _ _ _ heq =>
    subst heq
    exact absurd ((connEventHandleConnError_status _ failure).symm.trans hup') ConnStatus.noConfusion
  | unproved _ _ heq =>
    subst heq
    exact absurd ((connEventHandleConnError_status _ .error).symm.trans hup') ConnStatus.noConfusion

/-- Only its timer makes a connection idle. -/
theorem Move.idles (hmove : Move lib s s' a) (hrunning : Running lib s)
    (hidle : s'.conn.status = .idleTimeout) (hawake : s.conn.status ≠ .idleTimeout) :
    a = .event .timer ∧ s.conn.status = .connected := by
  cases hmove with
  | idled _ hup _ _ => exact ⟨rfl, hup⟩
  | aside _ new _ haside => exact absurd (haside.status.symm.trans hidle) hawake
  | sent p t hup ht hst heq =>
    obtain ⟨_, _, _, _, _, hshape, -, -⟩ := transSendMessages_shape lib { s.conn with
      toTransStore := (s.conn.toTransStore.move p t { t with status := .ready }).log (.accepted p) } hup
    rw [hshape] at heq
    subst heq
    exact absurd hidle hawake
  | destroyed a pc hdestroys hbusy hpc heq =>
    subst heq
    simp only [connDestroy, hbusy, Bool.false_eq_true, if_false] at hidle
    exact absurd hidle hawake
  | read chunk new r hpc hup hend heq =>
    subst heq
    rcases hend.kept rfl with ⟨hsame, -⟩ | ⟨-, hlost⟩
    · exact absurd (hsame.symm.trans hidle) hawake
    · exact absurd (hlost.symm.trans hidle) ConnStatus.noConfusion
  | unguarded hpc heq =>
    subst heq
    exact absurd ((connEventSetConnected_status lib _).symm.trans hidle) ConnStatus.noConfusion
  | accepted _ _ _ _ _ heq | refused _ _ _ _ _ _ _ heq | opened _ _ _ _ _ _ _ _ _ _ _ _ heq
  | dropped _ _ _ heq | pinged _ _ _ _ _ _ _ heq | wrote _ _ _ heq =>
    subst heq
    exact absurd hidle hawake
  | dialed _ _ _ _ _ _ _ _ _ _ _ heq | registered _ _ heq | disconnecting _ _ _ heq =>
    subst heq
    cases hidle
  | unpinged _ _ _ _ _ heq | expired _ _ _ heq =>
    subst heq
    exact absurd ((connCleanupPing_status lib rfl).symm.trans hidle) hawake
  | proved new r hpc hend heq =>
    subst heq
    have hbusy : s.conn.inUse = true := hrunning.link.busy (by rw [hpc]; rfl)
    rcases hend.kept (by simpa using hbusy) with ⟨hsame, -⟩ | ⟨-, hlost⟩
    · exact absurd ((connEventSetConnected_status lib _).symm.trans (hsame.symm.trans hidle))
        ConnStatus.noConfusion
    · exact absurd (hlost.symm.trans hidle) ConnStatus.noConfusion
  | failed failure _ _ _ _ heq =>
    subst heq
    exact absurd ((connEventHandleConnError_status _ failure).symm.trans hidle) ConnStatus.noConfusion
  | unproved _ _ heq =>
    subst heq
    exact absurd ((connEventHandleConnError_status _ .error).symm.trans hidle) ConnStatus.noConfusion

/-- A connection whose ping is being cleaned up has no timer. -/
def Unlimited (s : Sys) : Prop := ∀ pingEnd, s.pc = .cleaning pingEnd → s.conn.timer = none

/-- Every action keeps a connection whose ping is being cleaned up without a timer. -/
theorem Unlimited.move (h : Unlimited s) (hstage : Stage s) (hmove : Move lib s s' a) : Unlimited s' := by
  intro pingEnd hpc'
  have hkept : s.pc = .cleaning pingEnd → s.conn.status ≠ .connected ∧ s.conn.timer = none := fun hpc =>
    ⟨by simp [(hstage.cleaning pingEnd hpc).2], h pingEnd hpc⟩
  cases hmove with
  | aside _ new _ haside =>
    obtain ⟨hdown, hnone⟩ := hkept ((haside.cleaning pingEnd).mp hpc')
    exact haside.timer hdown hnone
  | sent p t hup ht hst heq =>
    subst heq
    exact absurd hup (hkept hpc').1
  | accepted _ _ _ _ _ heq =>
    subst heq
    exact (hkept hpc').2
  | refused _ _ _ _ pc _ hpc heq =>
    subst heq
    exact (hkept ((Pc.cleaning_iff_of_attempt hpc Pc.noConfusion).mp hpc')).2
  | opened _ _ _ _ _ _ pc _ _ _ _ hpc heq =>
    subst heq
    exact (hkept ((Pc.cleaning_iff_of_attempt hpc Pc.noConfusion).mp hpc')).2
  | dialed _ _ _ _ _ pc _ _ _ _ hpc heq =>
    subst heq
    exact (hkept ((Pc.cleaning_iff_of_attempt hpc Pc.noConfusion).mp hpc')).2
  | registered who hwho heq =>
    subst heq
    exact (hkept (Pc.cleaning_of_finish hpc')).2
  | dropped who error hwho heq =>
    subst heq
    exact (hkept (Pc.cleaning_of_finish hpc')).2
  | disconnecting io hup hio heq =>
    subst heq
    exact (hkept hpc').2
  | read chunk new r hpc hup hend heq =>
    subst heq
    cases hend with
    | ping c' p t hreads hp hwait hbrought ht hst =>
      obtain ⟨st, heq, -⟩ := connCleanupPing_shape lib c' hreads.inUse
      simp only [heq]
    | wait c' hreads => cases hpc'
    | error c' hreads => cases hpc'
  | unpinged _ _ hpc hio hping heq =>
    subst heq
    obtain ⟨st, heq, -⟩ := connCleanupPing_shape lib { s.conn with
      inUse := true
      io := s.conn.io.map fun io => { io with up := true } } rfl
    simp only [heq]
  | expired hpc htimer hst heq =>
    subst heq
    obtain ⟨st, heq, -⟩ := connCleanupPing_shape lib { s.conn with inUse := true } rfl
    simp only [heq]
  | proved new r hpc hend heq =>
    subst heq
    cases hend with
    | ping c' p t hreads hp hwait hbrought ht hst =>
      rw [connEventSetConnected_pingtxn] at hp
      cases hp
    | wait c' hreads => cases hpc'
    | error c' hreads => cases hpc'
  | destroyed a pc hdestroys hidle hpc heq =>
    subst heq
    simp [connDestroy, hidle]
  | idled _ _ _ heq | pinged _ _ _ _ _ _ _ heq | failed _ _ _ _ _ heq | wrote _ _ _ heq | unguarded _ heq
  | unproved _ _ heq =>
    subst heq
    cases hpc'

/-- The timer of a connection that is up is right, and there is none while the ping is cleaned up. -/
structure Timekeeping (s : Sys) : Prop where
  up : s.conn.freed = false → s.conn.status = .connected → s.conn.meter.Right
  cleaning : Unlimited s

/-- Every action keeps the timer, unless it loses it. -/
theorem Timekeeping.step (h : Timekeeping s) (hstage : Stage s) (hrunning : Running lib s)
    (hstep : sysStep lib s a = some s') (hok : a.losesTimer s = false) : Timekeeping s' := by
  have hmove := sysStep_move hstep hrunning
  refine ⟨fun hlive hup' => ?_, h.cleaning.move hstage hmove⟩
  by_cases hup : s.conn.status = .connected
  · rcases sysStep_meter hup hstage hstep hlive hup' with hsteps | ⟨hloses, -⟩
    · exact hsteps.right (h.up (sysStep_live lib hstep) hup)
    · rw [hok] at hloses
      cases hloses
  · rcases hmove.established hup' hup with ⟨rfl, hpc, heq⟩ | ⟨new, r, hend, heq, hpc⟩
    · have hnone : s.conn.timer = none := h.cleaning .disabled hpc
      have hmeter := connEventSetConnected_meter lib (c := { s.conn with pingtxn := none }) hnone
      have hneeded : s.conn.idleTimeout ≠ 0 → s.conn.transReady ≠ [] := by
        intro hon hready
        simp [Action.losesTimer, hpc, hon, hready] at hok
      rw [heq]
      change (connEventSetConnected lib { s.conn with pingtxn := none }).meter.Right
      rw [hmeter]
      refine ⟨fun hoff => if_neg (not_not_intro hoff), fun hon => ⟨⟨0, false⟩, if_pos hon, ?_⟩⟩
      exact iff_of_false Bool.noConfusion fun hempty => hneeded hon (List.append_eq_nil_iff.mp hempty).2
    · have hnone : s.conn.timer = none := h.cleaning .reply hpc
      have hmeter := connEventSetConnected_meter lib (c := { s.conn with pingtxn := none }) hnone
      have hping : (connEventSetConnected lib { s.conn with pingtxn := none }).pingtxn = none := by
        obtain ⟨_, _, _, _, _, hshape, -, -⟩ := connEventSetConnected_shape lib { s.conn with pingtxn := none }
        rw [hshape]
      obtain ⟨pending, hsub, hleft⟩ := hend.meter lib hping (heq ▸ hup')
      rw [heq, hleft]
      rw [hmeter] at hsub ⊢
      refine Meter.Restrained.leave ⟨fun hoff => ?_, fun hon => ?_⟩ hsub
      · exact if_neg (not_not_intro hoff)
      · exact ⟨⟨0, false⟩, if_pos hon, Bool.noConfusion⟩

/-- Between handler runs and API calls, a connection that is up has the timer that it needs. -/
def IdleTimerKept (s : Sys) : Prop :=
  s.conn.freed = false → s.pc = .idle → s.conn.status = .connected → s.conn.meter.Right

/-- The runs in which no action loses the timer. -/
def timekeeping (lib : Mstdlib) : System Sys Action := (monetra lib).restrict fun s a => !a.losesTimer s

/-- In every run in which no action loses the timer, a connection that is up has the timer that it needs. -/
theorem timekeeping_idleTimerKept (lib : Mstdlib) (h : (timekeeping lib).Reachable s) : IdleTimerKept s := by
  have hkept : Timekeeping s := by
    refine System.Reachable.invariant (timekeeping lib) ?_ ?_ h
    · rintro s ⟨host, port, -, -, rfl⟩
      exact ⟨fun _ hup => (by cases hup), fun _ hpc => (by cases hpc)⟩
    · intro s a s' hs hkept hstep
      obtain ⟨hok, hstep⟩ := (monetra lib).restrict_step hstep
      have hreached := hs.of_restrict (monetra lib)
      exact hkept.step (stage_of_reachable hreached (sysStep_live lib hstep)) (running_of_reachable hreached)
        hstep (by simpa using hok)
  exact fun hlive _ hup => hkept.up hlive hup

end Actions

section Runs

/-- A connection with an idle timeout that has a sale on the wire. -/
def saleTimed : Sys :=
  ((timekeeping reference).run started (.connSetIdleTimeout 30 :: sendSale)).get (by decide)

/-- This state is reachable. -/
theorem saleTimed_reachable : (timekeeping reference).Reachable saleTimed :=
  System.reachable_get (timekeeping reference) (started_init reference) _ _

/-- Its timer is stopped. -/
theorem timekeeping_idleTimerKept_sale :
    saleTimed.conn.timer.any (fun t => !t.running) = true ∧ IdleTimerKept saleTimed :=
  ⟨by decide, timekeeping_idleTimerKept reference saleTimed_reachable⟩

/-- A connection that needs no ping comes up with nothing to send. -/
def connectUnpinged : List Action :=
  [.connDisablePing, .connSetIdleTimeout 30, .connConnect openNet, .event (.connected [] 0), .resume, .deliver,
    .callbackReturn, .drain, .finish]

/-- The connection, whose timer has never been started. -/
def neverStarted : Sys := ((monetra reference).run started connectUnpinged).get (by decide)

/-- The idle timer fires while a sale goes out. -/
def sendBeforeTimer : List Action :=
  [.connSetIdleTimeout 30, .connConnect openNet, .event (.connected [pingDraw] 100), .drain, .finish,
    .event (.read (responseFrame 9 (ascii "PONG"))), .resume, .deliver, .callbackReturn, .drain, .finish,
    .transNew [saleDraw], .transSetParam 1 (ascii "action") (some (ascii "sale")), .transSend 1,
    .event .timer, .drain, .finish]

/-- The connection with the sale on the wire, which has no timer any more. -/
def timerRemoved : Sys := ((monetra reference).run started sendBeforeTimer).get (by decide)

/-- One connection never idles out because its timer is not started, the other because it has none. -/
theorem monetra_not_idleTimerKept :
    ((monetra reference).Reachable neverStarted ∧ ¬IdleTimerKept neverStarted) ∧
      (monetra reference).Reachable timerRemoved ∧ ¬IdleTimerKept timerRemoved := by
  refine ⟨⟨System.reachable_get (monetra reference) (started_init reference) connectUnpinged (by decide),
    fun h => ?_⟩, System.reachable_get (monetra reference) (started_init reference) sendBeforeTimer (by decide),
    fun h => ?_⟩
  · obtain ⟨t, htimer, hrunning⟩ := (h (by decide) (by decide) (by decide)).on (by decide)
    obtain rfl : t = ⟨0, false⟩ := (Option.some.inj htimer).symm
    exact absurd (hrunning.mpr (by decide)) (by decide)
  · obtain ⟨t, htimer, -⟩ := (h (by decide) (by decide) (by decide)).on (by decide)
    cases htimer

end Runs

end LibMonetra
