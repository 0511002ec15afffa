import LibMonetra.Endpoint
import LibMonetra.IdleTimer
import LibMonetra.Legacy
import LibMonetra.LifeInvariant
import Mathlib.Algebra.Order.Ring.Int

/-!
# Seconds and milliseconds

Callers give timeouts in seconds, and the I/O layer and the timers take milliseconds. The library multiplies
where it hands an interval over: when a connection is created, when its timer is started, and when a request
goes out. The product wraps at the width of its type, and so does the conversion of `M_MaxConnTimeout`.
-/

namespace LibMonetra

open Foundation

/-- The three timeouts that callers can set. -/
inductive TimeoutKind
  | conn
  | idle
  | trans
  deriving DecidableEq, Repr

/-- The width of the type in which the milliseconds of a timeout are computed. -/
def TimeoutKind.bits (lib : Mstdlib) : TimeoutKind → ℕ
  | .conn => lib.sizeBits
  | .idle => lib.sizeBits
  | .trans => 64

/-- A setter accepts a number of seconds, and keeps another number or the same. -/
inductive Accepted (lib : Mstdlib) : TimeoutKind → ℤ → ℕ → Prop
  | connSetConnTimeout (c c' : Conn) (toSecs : ℕ) : connSetConnTimeout c toSecs = (c', true) →
      Accepted lib .conn toSecs c'.connTimeout
  | mMaxConnTimeout (m : MConn) (maxtime : ℤ) : settingsLocked m.sys.conn = false →
      (maxtime % 2 ^ lib.sizeBits).toNat ≠ 0 →
      Accepted lib .conn maxtime (mMaxConnTimeout lib m maxtime).sys.conn.connTimeout
  | connSetIdleTimeout (c : Conn) (toSecs : ℕ) :
      Accepted lib .idle toSecs (connSetIdleTimeout lib c toSecs).idleTimeout
  | transSetTimeout (c c' : Conn) (p : Ptr) (t : Trans) (timeoutS : ℕ) :
      transSetTimeout c p timeoutS = (c', true) → c'.heap p = some t → Accepted lib .trans timeoutS t.timeoutS

/-- The answers of the network to an action that enters `LM_conn_connect`. -/
def Action.net : Action → Option NetOutcome
  | .connConnect net | .implicitConnect net | .reconnect net => some net
  | _ => none

/-- The connection on which an action goes through the frames that have been read. -/
def Action.readsFrom (lib : Mstdlib) (s : Sys) : Action → Option Conn
  | .event (.read chunk) => some { s.conn with inUse := true, inbuf := s.conn.inbuf ++ chunk }
  | .resume =>
    if s.pc = .cleaning .reply then some (connEventSetConnected lib { s.conn with pingtxn := none }) else none
  | _ => none

/-- A step hands over an interval in milliseconds that it has computed from a number of seconds. -/
inductive Handed (lib : Mstdlib) (s : Sys) (a : Action) (s' : Sys) : TimeoutKind → ℕ → ℕ → Prop
  /-- The connect timeout of a new I/O object. -/
  | connect (net : NetOutcome) (io : Io) : a.net = some net → s.conn.io = none →
      (connConnectBegin lib s.conn net).1.io = some io →
      Handed lib s a s' .conn s.conn.connTimeout io.connectTimeoutMs
  /-- The negotiation timeout of a new TLS context. -/
  | negotiation (net : NetOutcome) (ms : ℕ) : a.net = some net → s.conn.tlsctx = none →
      (connConnectBegin lib s.conn net).1.tlsctx = some ms →
      Handed lib s a s' .conn s.conn.connTimeout ms
  /-- The timer of a connection that is up: it was started by this step, or runs on. -/
  | idle (t : Timer) : s'.conn.freed = false → s'.conn.status = .connected → s'.conn.timer = some t →
      t.running = true → Handed lib s a s' .idle s'.conn.idleTimeout t.interval
  /-- The timer that the end of a read event starts, under any status. -/
  | read (c c' : Conn) (stop : ReadStop) (t : Timer) : a.readsFrom lib s = some c →
      readLoop lib (c.inbuf.length + 1) c = (c', stop) → c'.transPending = [] →
      (timerReset lib c' (c'.transPending = [])).timer = some t →
      Handed lib s a s' .idle s.conn.idleTimeout t.interval
  /-- The timers of the transactions: one was armed by this step, or runs on. -/
  | trans (p : Ptr) (t : Trans) (ms : ℕ) : (p, ms) ∈ s'.conn.transTimers → s'.conn.heap p = some t →
      Handed lib s a s' .trans t.timeoutS ms

variable {lib : Mstdlib}

section Accepted

variable {kind : TimeoutKind} {value : ℤ} {seconds : ℕ}

/-- A setter keeps what it accepts, except for the conversion from `int`. -/
theorem Accepted.cases (h : Accepted lib kind value seconds) :
    value = seconds ∨ kind.bits lib = lib.sizeBits ∧ seconds = (value % 2 ^ lib.sizeBits).toNat := by
  cases h with
  | connSetConnTimeout c c' toSecs hset =>
    unfold LibMonetra.connSetConnTimeout at hset
    split at hset
    · cases hset
    · cases hset
      exact Or.inl rfl
  | mMaxConnTimeout m maxtime hopen hpositive =>
    refine Or.inr ⟨rfl, ?_⟩
    simp [LibMonetra.mMaxConnTimeout, LibMonetra.connSetConnTimeout, hopen, hpositive]
  | connSetIdleTimeout c toSecs =>
    obtain ⟨timer, heq⟩ := connSetIdleTimeout_shape lib c toSecs
    rw [heq]
    exact Or.inl rfl
  | transSetTimeout c c' p t timeoutS hset ht =>
    unfold LibMonetra.transSetTimeout at hset
    cases hold : c.heap p with
    | none => simp [hold] at hset
    | some old =>
      simp only [hold] at hset
      split at hset
      · cases hset
        obtain rfl := Option.some.inj ((Function.update_self p _ c.heap).symm.trans ht)
        exact Or.inl rfl
      · cases hset

/-- A product that wraps at a width is the number of milliseconds exactly when that is not negative and
fits into the width. -/
theorem Accepted.exact_iff (h : Accepted lib kind value seconds) :
    ((seconds * 1000 % 2 ^ kind.bits lib : ℕ) : ℤ) = 1000 * value ↔
      0 ≤ value ∧ 1000 * value < 2 ^ kind.bits lib := by
  have hwidth : (0 : ℤ) < 2 ^ kind.bits lib := pow_pos (by decide) _
  have hmod : ((seconds * 1000 % 2 ^ kind.bits lib : ℕ) : ℤ) = 1000 * value % 2 ^ kind.bits lib := by
    push_cast
    rcases h.cases with rfl | ⟨hbits, rfl⟩
    · rw [mul_comm]
    · rw [← hbits, Int.toNat_of_nonneg (Int.emod_nonneg _ hwidth.ne'), Int.mul_emod, Int.emod_emod,
        ← Int.mul_emod, mul_comm]
  rw [hmod]
  constructor
  · intro hexact
    have hlow := Int.emod_nonneg (1000 * value) hwidth.ne'
    have hhigh := Int.emod_lt_of_pos (1000 * value) hwidth
    omega
  · rintro ⟨hlow, hhigh⟩
    exact Int.emod_eq_of_lt (by omega) hhigh

end Accepted

section Clocks

variable {s s' : TransStore} {p : Ptr} {t : Trans}

/-- The timers of the transactions that live run for their timeouts. -/
def TransStore.Clocked (s : TransStore) : Prop :=
  ∀ p ms, (p, ms) ∈ s.transTimers → ∀ t, s.heap p = some t → ms = t.timeoutS * 1000 % 2 ^ 64

/-- No timer is armed, and no transaction that has one gets another timeout. -/
theorem TransStore.Clocked.keep (h : s.Clocked) (htimers : ∀ timer ∈ s'.transTimers, timer ∈ s.transTimers)
    (hheap : ∀ p ms t', (p, ms) ∈ s.transTimers → s'.heap p = some t' →
      ∃ t, s.heap p = some t ∧ t.timeoutS = t'.timeoutS) : s'.Clocked := by
  intro p ms htimer t' ht'
  obtain ⟨t, ht, hsame⟩ := hheap p ms t' (htimers _ htimer) ht'
  rw [← hsame]
  exact h p ms (htimers _ htimer) t ht

/-- One transaction changes, but not its timeout. -/
theorem timeoutS_update (ht : s.heap p = some t) {u : Trans} (hsame : u.timeoutS = t.timeoutS) {q : Ptr}
    {t' : Trans} (ht' : Function.update s.heap p (some u) q = some t') :
    ∃ t, s.heap q = some t ∧ t.timeoutS = t'.timeoutS := by
  by_cases hq : q = p
  · subst hq
    rw [Function.update_self, Option.some.injEq] at ht'
    exact ⟨t, ht, by rw [← ht', hsame]⟩
  · rw [Function.update_of_ne hq] at ht'
    exact ⟨t', ht', rfl⟩

/-- One transaction goes. -/
theorem timeoutS_remove {q : Ptr} {t' : Trans} (ht' : Function.update s.heap p none q = some t') :
    ∃ t, s.heap q = some t ∧ t.timeoutS = t'.timeoutS := by
  by_cases hq : q = p
  · subst hq
    simp at ht'
  · rw [Function.update_of_ne hq] at ht'
    exact ⟨t', ht', rfl⟩

/-- The timers that are left when the timer of one transaction is removed. -/
theorem mem_killTimeoutTimer {timer : Ptr × ℕ} (h : timer ∈ (s.killTimeoutTimer p t).transTimers) :
    timer ∈ s.transTimers := by
  unfold TransStore.killTimeoutTimer at h
  split at h
  · exact List.mem_of_mem_filter h
  · exact h

/-- A transaction that has a timer has been created. -/
theorem TransStore.Ok.ne_nextPtr {lib : Mstdlib} (hs : s.Ok lib) {ms : ℕ} (htimer : (p, ms) ∈ s.transTimers) :
    p ≠ s.nextPtr := by
  rintro rfl
  have harmed : (s.life s.nextPtr).armed = true := List.any_eq_true.mpr ⟨_, htimer, by simp⟩
  rw [((hs.life s.nextPtr).timed.unborn (lt_irrefl s.nextPtr)).2.2] at harmed
  cases harmed

/-- One step of the library starts a timer for the timeout of its transaction at most. -/
theorem InternalStep.clocked {lib : Mstdlib} (hstep : InternalStep lib s s') (hs : s.Ok lib) (h : s.Clocked) :
    s'.Clocked := by
  have hupdate : ∀ {p t} {u : Trans}, s.heap p = some t → u.timeoutS = t.timeoutS → ∀ {next : TransStore},
      (∀ timer ∈ next.transTimers, timer ∈ s.transTimers) → next.heap = Function.update s.heap p (some u) →
      next.Clocked := by
    intro p t u ht hsame next htimers hheap
    refine h.keep htimers fun q ms t' _ ht' => ?_
    exact timeoutS_update ht hsame (hheap ▸ ht')
  cases hstep with
  | createPing id status hfree hlow hhigh =>
    refine h.keep (fun timer htimer => by simpa [TransStore.log] using htimer) fun q ms t' htimer ht' => ?_
    have hq := hs.ne_nextPtr htimer
    exact ⟨t', by simpa [TransStore.log, hq] using ht', rfl⟩
  | submit p t rest armed interval hready ht hst hevents hinterval =>
    intro q ms htimer t' ht'
    rw [TransStore.heap_submit] at ht'
    obtain ⟨u, hu, hsame⟩ := timeoutS_update ht (u := t.submitted armed) rfl ht'
    rw [TransStore.transTimers_submit] at htimer
    cases armed with
    | false =>
      rw [← hsame]
      exact h q ms htimer u hu
    | true =>
      rcases List.mem_append.mp htimer with hold | hnew
      · rw [← hsame]
        exact h q ms hold u hu
      · obtain ⟨rfl, rfl⟩ := Prod.mk.inj (List.mem_singleton.mp hnew)
        obtain rfl := Option.some.inj (hu.symm.trans ht)
        rw [hinterval, hsame]
  | noconnect p hp => exact h
  | timeout p t interval ht htimer =>
    exact hupdate ht (u := { t with timeoutTimer := false }) rfl (fun _ => List.mem_of_mem_filter) rfl
  | answer p t msg data ht hst hmsg hping =>
    have hlive : ((s.answer p t (storeResponse lib t data) msg).connEventAdd .transDone (some p)).heap p =
        some (storeResponse lib t data) := by simp [TransStore.connEventAdd]
    refine hupdate ht (u := (storeResponse lib t data).unarmed) (by simp [Trans.unarmed]) ?_ ?_
    · intro timer htimer
      simpa [TransStore.connEventAdd] using mem_killTimeoutTimer htimer
    · rw [TransStore.heap_killTimeoutTimer _ _ _ hlive]
      simp [TransStore.connEventAdd, Function.update_idem, Trans.unarmed]
  | answerPing p t msg data ht hst hmsg hping =>
    exact hupdate ht (u := storeResponse lib t data) (by simp)
      (fun timer htimer => by simpa using htimer) (by simp)
  | fail p t rest response hpending ht hst hcode =>
    have hlive : (s.move p t (t.failed response)).heap p = some (t.failed response) := by simp
    refine hupdate ht (u := (t.failed response).unarmed) rfl ?_ ?_
    · intro timer htimer
      simpa using mem_killTimeoutTimer htimer
    · change ((s.move p t (t.failed response)).killTimeoutTimer p (t.failed response)).heap = _
      rw [TransStore.heap_killTimeoutTimer _ _ _ hlive]
      simp [Function.update_idem, Trans.unarmed]
  | retirePing p t ht hping =>
    refine hupdate ht (u := t.unarmed) rfl ?_ ?_
    · intro timer htimer
      rw [TransStore.transTimers_queueTake] at htimer
      exact mem_killTimeoutTimer htimer
    · rw [TransStore.heap_queueTake]
      exact TransStore.heap_killTimeoutTimer _ _ _ ht
  | drain p t rest hdelay ht =>
    exact h.keep (fun timer htimer => by simpa using htimer) fun q ms t' _ ht' => timeoutS_remove ht'
  | drainDead p rest hdelay hfreed => exact h
  | connEvent type htype => exact h
  | deliver e rest hevents => exact h
  | dropEvents => exact h
  | forgetPing => exact h
  | consume msg => exact h

/-- One step starts a timer for the timeout of its transaction at most. -/
theorem StoreStep.clocked {lib : Mstdlib} (hstep : StoreStep lib s s') (hs : s.Ok lib) (h : s.Clocked) :
    s'.Clocked := by
  cases hstep with
  | create id params hfree hlow hhigh =>
    refine h.keep (fun timer htimer => by simpa [TransStore.log] using htimer) fun q ms t' htimer ht' => ?_
    have hq := hs.ne_nextPtr htimer
    exact ⟨t', by simpa [TransStore.log, hq] using ht', rfl⟩
  | edit p t params timeoutS ht hst =>
    refine h.keep (fun timer htimer => htimer) fun q ms t' htimer ht' => ?_
    have hq : q ≠ p := by
      rintro rfl
      have harmed : (s.life q).armed = true := List.any_eq_true.mpr ⟨_, htimer, by simp⟩
      rw [(hs.life q).timed.unarmed_of_status ht (by simp [hst])] at harmed
      cases harmed
    exact ⟨t', by simpa [TransStore.setTrans, hq] using ht', rfl⟩
  | accept p t ht hst =>
    refine h.keep (fun timer htimer => by simpa [TransStore.log] using htimer) fun q ms t' _ ht' => ?_
    exact timeoutS_update ht (u := { t with status := .ready }) rfl (by simpa [TransStore.log] using ht')
  | defer p t ht =>
    refine h.keep (fun timer => mem_killTimeoutTimer) fun q ms t' _ ht' => ?_
    have hheap : (s.defer p t).heap = Function.update s.heap p (some t.unarmed) :=
      TransStore.heap_killTimeoutTimer _ _ _ ht
    exact timeoutS_update ht (u := t.unarmed) rfl (hheap ▸ ht')
  | delete p t ht =>
    refine h.keep (fun timer htimer =>
      mem_killTimeoutTimer (p := p) (t := t) (by simpa [TransStore.log] using htimer))
      fun q ms t' _ ht' => ?_
    obtain ⟨u, hu, hsame⟩ := timeoutS_remove ht'
    obtain ⟨v, hv, hkept⟩ := timeoutS_update ht (u := t.unarmed) rfl
      (show Function.update s.heap p (some t.unarmed) q = some u by
        rw [← hu, TransStore.log, TransStore.heap_killTimeoutTimer _ _ _ ht]; rfl)
    exact ⟨v, hv, hkept.trans hsame⟩
  | destroy => exact h.keep (fun timer htimer => htimer) fun q ms t' _ ht' => by cases ht'
  | internal _ hinternal => exact hinternal.clocked hs h

/-- The timers of a reached state run for the timeouts of their transactions. -/
theorem Running.clocked {lib : Mstdlib} {s : Sys} (h : Running lib s) : s.conn.toTransStore.Clocked := by
  have hboth : s.conn.toTransStore.Ok lib ∧ s.conn.toTransStore.Clocked := by
    refine invariant_of_steps (P := fun s => s.Ok lib ∧ s.Clocked) ?_ h.steps
      ⟨⟨Rep.empty, life_empty_ok⟩, fun _ _ htimer => (by cases htimer)⟩
    rintro mid last hstep ⟨hok, hclocked⟩
    exact ⟨hstep.ok hok, hstep.clocked hok hclocked⟩
  exact hboth.2

end Clocks

section Steps

variable {s s' : Sys} {a : Action}

/-- The timer of a connection that is up was started with the idle timeout, and there is none while the ping
is cleaned up. -/
structure Metered (lib : Mstdlib) (s : Sys) : Prop where
  up : s.conn.freed = false → s.conn.status = .connected → s.conn.meter.Started lib
  cleaning : Unlimited s

/-- Every action starts the timer with the idle timeout. -/
theorem Metered.step (h : Metered lib s) (hstage : Stage s) (hrunning : Running lib s)
    (hstep : sysStep lib s a = some s') : Metered lib s' := by
  have hmove := sysStep_move hstep hrunning
  refine ⟨fun hlive hup' => ?_, h.cleaning.move hstage hmove⟩
  have hstopped : ∀ pingEnd, s.pc = .cleaning pingEnd →
      (connEventSetConnected lib { s.conn with pingtxn := none }).meter.Started lib := by
    intro pingEnd hpc t htimer hruns
    rw [connEventSetConnected_meter lib (c := { s.conn with pingtxn := none })
      (h.cleaning pingEnd hpc)] at htimer
    simp only [Option.ite_none_right_eq_some, Option.some.injEq] at htimer
    rw [← htimer.2] at hruns
    cases hruns
  by_cases hup : s.conn.status = .connected
  · rcases sysStep_meter hup hstage hstep hlive hup' with hsteps | ⟨-, hnone⟩
    · exact hsteps.started (h.up (sysStep_live lib hstep) hup)
    · intro t htimer
      cases hnone.symm.trans htimer
  · rcases hmove.established hup' hup with ⟨rfl, hpc, heq⟩ | ⟨new, r, hend, heq, hpc⟩
    · rw [heq]
      exact hstopped .disabled hpc
    · have hping : (connEventSetConnected lib { s.conn with pingtxn := none }).pingtxn = none := by
        obtain ⟨_, _, _, _, _, hshape, -, -⟩ := connEventSetConnected_shape lib { s.conn with pingtxn := none }
        rw [hshape]
      obtain ⟨pending, hsub, hleft⟩ := hend.meter lib hping (heq ▸ hup')
      rw [heq, hleft]
      exact (hstopped .reply hpc).leave hsub

/-- In every reachable state the timer of a connection that is up was started with the idle timeout. -/
theorem metered_of_reachable (h : (monetra lib).Reachable s) : Metered lib s := by
  refine System.Reachable.invariant (monetra lib) ?_ ?_ h
  · rintro s ⟨host, port, -, -, rfl⟩
    exact ⟨fun _ hup => (by cases hup), fun _ hpc => (by cases hpc)⟩
  · intro s a s' hs hmetered hstep
    exact hmetered.step (stage_of_reachable hs (sysStep_live lib hstep)) (running_of_reachable hs) hstep

/-- A new I/O object and a new TLS context get the connect timeout. -/
theorem connConnectBegin_timeouts (lib : Mstdlib) (c : Conn) (net : NetOutcome) :
    (∀ io, c.io = none → (connConnectBegin lib c net).1.io = some io →
      io.connectTimeoutMs = c.connTimeout * 1000 % 2 ^ lib.sizeBits) ∧
    ∀ ms, c.tlsctx = none → (connConnectBegin lib c net).1.tlsctx = some ms →
      ms = c.connTimeout * 1000 % 2 ^ lib.sizeBits := by
  refine ⟨fun io hnone hio => ?_, fun ms hnone hms => ?_⟩
  · rcases connConnectBegin_ioFrom lib c net io hio with ⟨old, hold, -⟩ | ⟨-, htarget⟩
    · rw [hnone] at hold
      cases hold
    · exact congrArg Target.connectTimeoutMs htarget
  · unfold connConnectBegin at hms
    simp only [hnone, Option.getD_none] at hms
    split at hms
    · simp [setError] at hms
    · split at hms
      · exact (Option.some.inj hms).symm
      · split at hms
        · exact (Option.some.inj hms).symm
        · exact (Option.some.inj hms).symm

/-- The connection on which an action goes through the frames has the idle timeout of the state. -/
theorem readsFrom_idleTimeout {c : Conn} (h : a.readsFrom lib s = some c) :
    c.idleTimeout = s.conn.idleTimeout := by
  cases a with
  | event e =>
    cases e with
    | read chunk =>
      obtain rfl := Option.some.inj h
      rfl
    | _ => cases h
  | resume =>
    simp only [Action.readsFrom] at h
    split at h
    · obtain rfl := Option.some.inj h
      exact congrArg Settings.idleTimeout (connEventSetConnected_settings lib { s.conn with pingtxn := none })
    · cases h
  | _ => cases h

/-- What a step hands over is the product, at the width of its type. -/
theorem handed_eq {kind : TimeoutKind} {seconds ms : ℕ} (h : (monetra lib).Reachable s)
    (hstep : sysStep lib s a = some s') (hhanded : Handed lib s a s' kind seconds ms) :
    ms = seconds * 1000 % 2 ^ kind.bits lib := by
  have hreached' := h.step hstep
  cases hhanded with
  | connect net io hnet hnone hio => exact (connConnectBegin_timeouts lib s.conn net).1 io hnone hio
  | negotiation net ms hnet hnone hms => exact (connConnectBegin_timeouts lib s.conn net).2 ms hnone hms
  | idle t hlive hup htimer hruns => exact ((metered_of_reachable hreached').up hlive hup t htimer hruns).2
  | read c c' stop t hreads hloop hempty htimer =>
    obtain ⟨new, hread, -⟩ := readLoop_reads lib c (c.inbuf.length + 1)
    rw [hloop] at hread
    have hidle : c'.idleTimeout = s.conn.idleTimeout := by
      rw [← readsFrom_idleTimeout hreads]
      obtain ⟨_, _, _, _, _, _, _, rfl⟩ := hread.shape
      rfl
    simp only [timerReset, if_pos hempty, Option.map_eq_some_iff] at htimer
    obtain ⟨old, -, rfl⟩ := htimer
    rw [← hidle]
    rfl
  | trans p t ms hmem ht => exact (running_of_reachable hreached').clocked p ms hmem t ht

/-- What any step of any run hands over is the accepted number of seconds in milliseconds exactly when that
number is not negative and its milliseconds fit into the type. -/
theorem handed_exact_iff {kind : TimeoutKind} {value : ℤ} {seconds ms : ℕ} (h : (monetra lib).Reachable s)
    (hstep : sysStep lib s a = some s') (hhanded : Handed lib s a s' kind seconds ms)
    (haccepted : Accepted lib kind value seconds) :
    (ms : ℤ) = 1000 * value ↔ 0 ≤ value ∧ 1000 * value < 2 ^ kind.bits lib := by
  rw [handed_eq h hstep hhanded]
  exact haccepted.exact_iff

end Steps

section Runs

/-- Every step of every run hands over the accepted number of seconds in milliseconds. -/
def IntervalsExact (lib : Mstdlib) : Prop :=
  ∀ s s' a kind value seconds ms, (monetra lib).Reachable s → sysStep lib s a = some s' →
    Handed lib s a s' kind seconds ms → Accepted lib kind value seconds → (ms : ℤ) = 1000 * value

/-- A connection with a connect timeout of a number of seconds. -/
def timed (toSecs : ℕ) : Sys := { started with conn := { started.conn with connTimeout := toSecs } }

/-- The setter accepts every positive number of seconds. -/
theorem timed_accepted (lib : Mstdlib) {toSecs : ℕ} (hpositive : toSecs ≠ 0) :
    (monetra lib).Reachable (timed toSecs) ∧ Accepted lib .conn toSecs toSecs := by
  have hset : connSetConnTimeout started.conn toSecs = ((timed toSecs).conn, true) := by
    simp [connSetConnTimeout, hpositive, settingsLocked, started, connInit, timed]
  refine ⟨(System.Reachable.init (started_init lib)).step (a := .connSetConnTimeout toSecs) ?_,
    .connSetConnTimeout started.conn (timed toSecs).conn toSecs hset⟩
  change some { started with conn := (connSetConnTimeout started.conn toSecs).1 } = _
  rw [hset]
  rfl

/-- The next attempt to connect hands the product over to the I/O layer. -/
theorem timed_handed (lib : Mstdlib) (toSecs : ℕ) :
    ∃ s', sysStep lib (timed toSecs) (.connConnect openNet) = some s' ∧
      Handed lib (timed toSecs) (.connConnect openNet) s' .conn toSecs (toSecs * 1000 % 2 ^ lib.sizeBits) :=
  ⟨_, rfl, .connect openNet
    ⟨ascii "localhost", 8665, .tls, toSecs * 1000 % 2 ^ lib.sizeBits, false, false, false⟩
    rfl rfl rfl⟩

/-- A timeout of half a minute is handed over as 30000 milliseconds. -/
theorem handed_exact_iff_halfMinute :
    ((30 * 1000 % 2 ^ 64 : ℕ) : ℤ) = 1000 * (30 : ℕ) ↔ (0 : ℤ) ≤ (30 : ℕ) ∧ (1000 : ℤ) * (30 : ℕ) < 2 ^ 64 :=
  handed_exact_iff (timed_accepted reference (by decide)).1
    (timed_handed reference 30).choose_spec.1 (timed_handed reference 30).choose_spec.2
    (timed_accepted reference (by decide)).2

/-- The library where `size_t` has 32 bits. -/
def narrow : Mstdlib := { reference with sizeBits := 32 }

/-- A connect timeout of 50 days is handed over as 704 milliseconds where `size_t` has 32 bits, and one of
585 million years as 384 milliseconds where it has 64. -/
theorem intervals_not_exact : ¬IntervalsExact narrow ∧ ¬IntervalsExact reference := by
  constructor
  · intro h
    obtain ⟨hreached, haccepted⟩ := @timed_accepted narrow 4294968 (by decide)
    obtain ⟨s', hstep, hhanded⟩ := timed_handed narrow 4294968
    exact absurd (h _ s' _ _ _ _ _ hreached hstep hhanded haccepted) (by decide)
  · intro h
    obtain ⟨hreached, haccepted⟩ := @timed_accepted reference 18446744073709552 (by decide)
    obtain ⟨s', hstep, hhanded⟩ := timed_handed reference 18446744073709552
    exact absurd (h _ s' _ _ _ _ _ hreached hstep hhanded haccepted) (by decide)

end Runs

end LibMonetra
