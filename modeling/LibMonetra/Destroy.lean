import LibMonetra.Attempt
import LibMonetra.Deletion
import LibMonetra.Reconnect
import LibMonetra.Report

/-!
# Destroying a connection inside a callback

A connection that is destroyed while its handler delivers events is freed at the end of the handler.
Nothing is delivered any more. The handler does not look at the request to destroy the connection when
it decides whether to reconnect, and neither does `LM_conn_connect`; the timeout timers of its
transactions are not removed, so that one which is armed calls the event callback after the end; and a caller
that has entered `LM_conn_connect` is not waited for.
-/

namespace LibMonetra

open Foundation

variable (lib : Mstdlib)

/-- Whether an action calls the event callback, or starts an attempt to connect, which is the only way
to the I/O creation callback. -/
def Action.invokes (s : Sys) : Action → Bool
  | .deliver => true
  | a => a.attempts s

/-- The same of a step of a process. A timer that was left behind has the event callback called. -/
def Tick.invokes (s : Sys) : Tick → Bool
  | .library a => a.invokes s
  | .strayTimer _ => true

/-- The runs in which nothing is called and no attempt starts. -/
def silenced : System Process Tick := (process lib).restrict fun w tick => !tick.invokes w.sys

/-- What a destroyed connection must be spared: an attempt to connect by a caller, a drain that finds the
connection down with a request waiting, a second call of `LM_conn_destroy` after the last callback, and the end
of the handler while a caller is in `LM_conn_connect` or on the way there. -/
def Action.spares (s : Sys) : Action → Bool
  | .connConnect _ | .implicitConnect _ => s.conn.io.isSome
  | .finish => decide (s.callers = 0 ∧ s.connecting ≠ some .caller)
  | .drain => decide (s.conn.status = .disconnected → ∀ p ∈ s.conn.transReady, p ∈ s.conn.transDelayRm)
  | .connDestroy => s.conn.inUse
  | _ => true

/-- The same of a step of a process. -/
def Tick.spares (s : Sys) : Tick → Bool
  | .library a => a.spares s
  | .strayTimer _ => true

/-- The careful runs that spare the connection. -/
def spared : System Process Tick := (careful lib).restrict fun w tick => tick.spares w.sys

/-- The connection is freed when its handler has returned, once and with all its transactions, each of
which is freed once at most on its own; and no caller goes on in `LM_conn_connect` with what has been freed. -/
structure FreedOnce (s : Sys) : Prop where
  returned : s.pc = .idle → s.conn.freed = true
  alone : s.conn.freed = true → s.callers = 0 ∧ s.connecting ≠ some .caller
  gone : s.conn.freed = true → ∀ p, s.conn.heap p = none
  count : s.conn.trace.count .connFreed = if s.conn.freed then 1 else 0
  live : ∀ p, s.conn.heap p ≠ none → s.conn.trace.count (.freed p) = 0
  each : ∀ p, s.conn.trace.count (.freed p) ≤ 1

section Freed

variable {lib : Mstdlib} {s s' : Sys} {a : Action}

/-- What is known about the end of the connection in every run that deletes nothing a second time. -/
structure Account (s : Sys) : Prop where
  gone : s.conn.freed = true → ∀ p, s.conn.heap p = none
  count : s.conn.trace.count .connFreed = if s.conn.freed then 1 else 0
  each : ∀ p, s.conn.trace.count (.freed p) ≤ 1

/-- A record that frees nothing does not free the connection. -/
theorem count_connFreed_of_kept {new : List Obs} (h : ∀ o ∈ new, o.frees = false) :
    new.count .connFreed = 0 :=
  List.count_eq_zero.mpr fun hmem => Bool.noConfusion (h _ hmem)

/-- A connection that has not been freed, after an action that frees each of some live transactions
once. -/
theorem Account.kept (h : Account s) (hledger : Ledger s) (hlive : s.conn.freed = false)
    (hlive' : s'.conn.freed = false) (new : List Obs) (htrace : s'.conn.trace = s.conn.trace ++ new)
    (hconn : new.count .connFreed = 0) (hnew : ∀ p, new.count (.freed p) ≤ 1)
    (hfreed : ∀ p, .freed p ∈ new → s.conn.heap p ≠ none) : Account s' where
  gone hgone := by simp [hlive'] at hgone
  count := by
    rw [htrace, List.count_append, h.count, hconn, hlive, hlive']
    rfl
  each p := by
    rw [htrace, List.count_append]
    by_cases hp : .freed p ∈ new
    · rw [hledger.live p (hfreed p hp), Nat.zero_add]
      exact hnew p
    · rw [List.count_eq_zero_of_not_mem hp]
      exact h.each p

/-- Every action keeps the account. -/
theorem Account.step (h : Account s) (hledger : Ledger s) (hrunning : Running lib s)
    (hstep : sysStep lib s a = some s') : Account s' := by
  have hlive := sysStep_live lib hstep
  have hlive' := fun hkept => (sysStep_kept hstep hrunning hkept).1
  cases sysStep_turn hstep hrunning with
  | served new hclears hserved =>
    refine h.kept hledger hlive (hlive' ?_) new hserved.handled.trace
      (count_connFreed_of_kept hserved.handled.kept)
      (fun p => (count_freed_of_kept hserved.handled.kept p).le.trans (Nat.zero_le 1)) fun p hp => ?_
    · cases a <;> first | rfl | exact hclears
    · exact Bool.noConfusion (hserved.handled.kept _ hp)
  | delivered e rest ha hpc hevents hstore =>
    exact h.kept hledger hlive (hlive' (by rw [ha]; rfl)) [.callback e] (by rw [hstore]; rfl)
      rfl (fun p => by simp) (by simp)
  | returned ha hpc hstore =>
    exact h.kept hledger hlive (hlive' (by rw [ha]; rfl)) [] (by simp [hstore])
      rfl (fun p => by simp) (by simp)
  | deleted p t ha hidle ht hstore =>
    refine h.kept hledger hlive (hlive' (by rw [ha]; rfl)) [.deleted p, .freed p] ?_ rfl
      (fun q => ?_) fun q hq => ?_
    · rw [hstore]
      simp [TransStore.log]
    · by_cases hq : p = q <;> simp [hq]
    · obtain rfl : q = p := by simpa using hq
      simp [ht]
  | drained ha hpc hevents hstore =>
    obtain ⟨-, htrace⟩ := drainDelayRm_done lib s.conn.transDelayRm rfl hrunning.rep hledger.nodup
      hledger.delayed s.conn.transDelayRm fun _ => id
    have hinj : Function.Injective Obs.freed := fun _ _ h => Obs.freed.inj h
    rw [← hstore] at htrace
    refine h.kept hledger hlive (hlive' (by rw [ha]; rfl)) _ htrace ?_ (fun p => ?_) fun p hp => ?_
    · exact List.count_eq_zero_of_not_mem (by simp)
    · rw [List.count_map_of_injective _ Obs.freed hinj p, hledger.nodup.count]
      split <;> decide
    · obtain ⟨q, hq, heq⟩ := List.mem_map.mp hp
      obtain rfl := Obs.freed.inj heq
      exact hledger.delayed q hq
  | destroyed hdestroys hidle hfreed hstore =>
    refine ⟨fun _ p => by rw [hstore]; rfl, ?_, fun p => ?_⟩
    · rw [hstore, hfreed]
      simp [TransStore.freeAll, h.count, hlive]
    · rw [hstore]
      simpa [TransStore.freeAll] using h.each p

/-- The account of every state that such a run reaches. -/
theorem account_of_reachable {s : Sys} (hs : (deletedOnce lib).Reachable s) : Account s := by
  refine System.Reachable.invariant (deletedOnce lib) ?_ ?_ hs
  · rintro s0 ⟨host, port, -, -, rfl⟩
    exact ⟨fun hgone => Bool.noConfusion hgone, rfl, fun p => Nat.zero_le 1⟩
  · intro s0 a s1 hs0 hs0' hstep
    obtain ⟨-, hstep⟩ := (monetra lib).restrict_step hstep
    exact hs0'.step (ledger_of_reachable hs0) (running_of_reachable (hs0.of_restrict (monetra lib))) hstep

end Freed

section Doomed

variable {lib : Mstdlib} {s s' : Sys} {a : Action}

/-- A connection whose callback has asked for its end: its handler delivers no further event and does not
reconnect, or has freed it. -/
structure Doomed (s : Sys) : Prop where
  destroy : s.conn.freed = false → s.conn.destroy = true
  alone : s.conn.freed = true → s.callers = 0 ∧ s.connecting ≠ some .caller
  ends : (s.conn.freed = true ∧ s.pc = .idle) ∨ s.pc = .callback ∨
    (s.pc = .delivering ∧ s.conn.events = []) ∨ s.pc = .reconnecting false

/-- An action that spares the connection calls nothing, starts no attempt, and brings the connection
closer to its end. -/
theorem Doomed.step (h : Doomed s) (hrunning : Running lib s) (hstep : sysStep lib s a = some s')
    (hspares : a.spares s = true) : a.invokes s = false ∧ Doomed s' := by
  have hlive := sysStep_live lib hstep
  have hdestroy := h.destroy hlive
  have hends : s.pc = .callback ∨ (s.pc = .delivering ∧ s.conn.events = []) ∨
      s.pc = .reconnecting false := h.ends.resolve_left fun hgone => by simp [hlive] at hgone
  cases sysStep_walk hstep with
  | stays _ hcalls hpc =>
    have hkept : a.destroys s.conn = false := by
      cases a <;> simp_all [Action.destroys, Action.calls, Action.spares]
    obtain ⟨hdestroy', hfreed, hevents⟩ := sysStep_calls hstep hrunning (Or.inl hcalls) hkept
    refine ⟨?_, fun _ => hdestroy' hdestroy, fun hgone => ?_, Or.inr ?_⟩
    · cases a <;> simp_all [Action.invokes, Action.attempts, Action.connects, Action.calls, Action.spares]
    · cases hlive.symm.trans (hfreed.symm.trans hgone)
    · rwa [hpc, hevents]
  | connected who eventAdd hwho hpc =>
    have hcaller : who ≠ .handler := by
      rintro rfl
      have hawaiting := hrunning.link.connecting hwho
      simp [hawaiting] at hends
    obtain ⟨hdestroy', hfreed, hevents⟩ :=
      sysStep_calls hstep hrunning (Or.inr (Or.inr ⟨_, rfl⟩)) rfl
    refine ⟨rfl, fun _ => hdestroy' hdestroy, fun hgone => ?_, Or.inr ?_⟩
    · cases hlive.symm.trans (hfreed.symm.trans hgone)
    · rw [if_neg hcaller] at hpc
      rwa [hpc, hevents]
  | returns hpc heq =>
    subst heq
    refine ⟨rfl, fun _ => hdestroy, fun hgone => ?_, Or.inr (Or.inr (Or.inl ⟨rfl, if_pos hdestroy⟩))⟩
    cases hlive.symm.trans hgone
  | drains hpc hevents heq =>
    obtain ⟨hstatus, -, hdecides, -⟩ := sysStep_drain hstep
    have hstops : s'.pc = .reconnecting false := by
      rw [hdecides, decide_eq_false]
      rintro ⟨hdown, hne⟩
      obtain ⟨p, hp⟩ := List.exists_mem_of_ne_nil _ hne
      obtain ⟨hready, hkept⟩ := (mem_ready_drain hstep hrunning p).mp hp
      rw [hstatus] at hdown
      exact hkept ((of_decide_eq_true hspares) hdown p hready)
    obtain ⟨st, timer, hdrained, -, -, -⟩ := drainDelayRm_spec lib s.conn.transDelayRm s.conn rfl
    simp only [handlerDrain, hdrained] at heq
    refine ⟨rfl, fun _ => ?_, fun hgone => ?_, Or.inr (Or.inr (Or.inr hstops))⟩
    · rw [heq]
      exact hdestroy
    · rw [heq] at hgone
      cases hlive.symm.trans hgone
  | finishes hpc heq =>
    have hfreed : s'.conn.freed = true := by
      cases sysStep_turn hstep hrunning with
      | served new hclears hserved => simp [Action.clears, Action.destroys, hdestroy] at hclears
      | destroyed hdestroys hidle hfreed hstore => exact hfreed
      | delivered e rest ha hpc hevents hstore => cases ha
      | returned ha hpc hstore => cases ha
      | deleted p t ha hidle ht hstore => cases ha
      | drained ha hpc hevents hstore => cases ha
    refine ⟨rfl, fun hkept => by simp [hfreed] at hkept, fun _ => ?_, Or.inl ⟨hfreed, ?_⟩⟩
    · rw [heq]
      exact of_decide_eq_true hspares
    · rw [heq]
  | enters event r hpc henabled hr heq _ => simp [hpc] at hends
  | resumes pingEnd hpc heq _ => simp [hpc] at hends
  | delivers e rest hpc hevents heq => simp [hpc, hevents] at hends
  | reconnects net hpc hpc' => simp [hpc] at hends

end Doomed

section Destroy

variable {lib : Mstdlib}

/-- The callback of a handler that destroys its connection dooms it. -/
theorem doomed_of_destroy {s s' : Sys} (hrunning : Running lib s) (hpc : s.pc = .callback)
    (hdestroy : sysStep lib s .connDestroy = some s') : Doomed s' := by
  have hbusy := hrunning.link.busy (by rw [hpc]; rfl)
  cases sysStep_effect hdestroy with
  | connDestroy =>
    refine ⟨fun _ => ?_, fun hgone => ?_, Or.inr (Or.inl hpc)⟩
    · simp [connDestroy, hbusy]
    · cases (sysStep_live lib hdestroy).symm.trans (by simpa [connDestroy, hbusy] using hgone)
  | configures _ c hsets _ => cases hsets

/-- In every run that is careful, a connection that is destroyed in a callback and then spared calls nothing
and starts no attempt, uses no freed memory, and is freed once with all its transactions before its handler
returns, while no caller is left inside. -/
theorem destroy_final (lib : Mstdlib) {w w₁ w₂ : Process} {ticks : List Tick}
    (hw : (careful lib).Reachable w) (hpc : w.sys.pc = .callback)
    (hdestroy : (process lib).step w (.library .connDestroy) = some w₁)
    (hrun : (spared lib).run w₁ ticks = some w₂) :
    (silenced lib).run w₁ ticks = some w₂ ∧ w₂.faults = [] ∧ FreedOnce w₂.sys := by
  have hbusy := (running_of_reachable (process_reachable (hw.of_restrict (process lib)))).link.busy
    (by rw [hpc]; rfl)
  have hw₁ : (careful lib).Reachable w₁ := by
    refine hw.step (a := .library .connDestroy) ?_
    have hcareful : Action.endangers w.sys.conn .connDestroy = false := by
      simp [Action.endangers, Action.deletesAgain, Action.cleansGone, Action.orphansTimer, Action.destroys,
        hbusy]
    change (if !Action.endangers w.sys.conn .connDestroy then (process lib).step w (.library .connDestroy)
      else none) = some w₁
    rw [hcareful]
    exact hdestroy
  have hdoomed : Doomed w₁.sys := by
    obtain ⟨-, ⟨a, ha, hnext, -⟩ | ⟨p, ha, -⟩⟩ := processStep_cases hdestroy
    · obtain rfl := Tick.library.inj ha
      exact doomed_of_destroy
        (running_of_reachable (process_reachable (hw.of_restrict (process lib)))) hpc hnext
    · cases ha
  have hspared : ∀ w tick w', (careful lib).Reachable w ∧ Doomed w.sys → (spared lib).step w tick = some w' →
      (silenced lib).step w tick = some w' ∧ (careful lib).Reachable w' ∧ Doomed w'.sys := by
    rintro w tick w' ⟨hw, hdoomed⟩ hstep
    obtain ⟨hspares, hcareful⟩ := (careful lib).restrict_step hstep
    obtain ⟨-, hnext⟩ := (process lib).restrict_step hcareful
    obtain ⟨-, -, hkept⟩ := careful_reachable hw
    obtain ⟨-, ⟨a, rfl, hact, -⟩ | ⟨p, -, hstray, -⟩⟩ := processStep_cases hnext
    · obtain ⟨hinvokes, hdoomed'⟩ :=
        hdoomed.step (running_of_reachable (hkept.of_restrict (monetra lib))) hact hspares
      refine ⟨?_, hw.step hcareful, hdoomed'⟩
      change (if !a.invokes w.sys then (process lib).step w (.library a) else none) = some w'
      rw [hinvokes]
      exact hnext
    · exact absurd hstray (by simp [(timersLive_of_reachable hkept).not_stray p])
  obtain ⟨hsilent, hw₂, hdoomed₂⟩ :=
    (spared lib).run_of_simulated hspared ⟨hw₁, hdoomed⟩ ticks hrun
  obtain ⟨hclean, honce, -⟩ := careful_reachable hw₂
  have haccount := account_of_reachable honce
  refine ⟨hsilent, hclean, fun hidle => ?_, hdoomed₂.alone, haccount.gone, haccount.count,
    (ledger_of_reachable honce).live, haccount.each⟩
  rcases hdoomed₂.ends with ⟨hfreed, -⟩ | hpc | ⟨hpc, -⟩ | hpc
  · exact hfreed
  all_goals cases hidle.symm.trans hpc

end Destroy

section Runs

/-- An attempt fails on which a sale waits; the callback deletes the sale, and is told that the
connection is gone. -/
def refuseDeleted : List Action :=
  [.transNew [saleDraw], .transSetParam 0 (ascii "action") (some (ascii "sale")), .transSend 0,
    .implicitConnect openNet, .event (.failed .error []), .deliver, .transDelete 0, .callbackReturn,
    .deliver]

/-- The process in this last callback. -/
def refusedDeleted : Process :=
  ((careful reference).run startedProcess (refuseDeleted.map .library)).get (by decide)

/-- This state is reachable. -/
theorem refusedDeleted_reachable : (careful reference).Reachable refusedDeleted :=
  System.reachable_get (careful reference) (startedProcess_init reference) _ _

/-- The callback destroys the connection. -/
def refusedDestroyed : Process :=
  ((process reference).step refusedDeleted (.library .connDestroy)).get (by decide)

/-- It does so again, and the handler returns. -/
def destroyedTwice : List Tick :=
  [.library .connDestroy, .library .callbackReturn, .library .drain, .library .finish]

/-- The process after the handler. -/
def refusedGone : Process := ((spared reference).run refusedDestroyed destroyedTwice).get (by decide)

/-- The connection has been freed once, and the sale before it. -/
theorem destroy_final_refused :
    (refusedGone.sys.pc = .idle ∧ refusedGone.sys.conn.trace.count (.freed 0) = 1) ∧
      (silenced reference).run refusedDestroyed destroyedTwice = some refusedGone ∧
      refusedGone.faults = [] ∧ FreedOnce refusedGone.sys :=
  ⟨by decide, destroy_final reference refusedDeleted_reachable (by decide) (Option.some_get _).symm
    (Option.some_get _).symm⟩

/-- A sale waits on an attempt that fails, and the callback is told that the connection is gone. -/
def refuseWaiting : List Action :=
  [.transNew [saleDraw], .transSetParam 0 (ascii "action") (some (ascii "sale")), .transSend 0,
    .implicitConnect openNet, .event (.failed .error []), .deliver, .callbackReturn, .deliver]

/-- The process in this last callback. -/
def refusedWaiting : Process :=
  ((process reference).run startedProcess (refuseWaiting.map .library)).get (by decide)

/-- This state is reachable. -/
theorem refusedWaiting_reachable : (process reference).Reachable refusedWaiting :=
  System.reachable_get (process reference) (startedProcess_init reference) _ _

/-- The callback destroys the connection. -/
def waitingDestroyed : Process :=
  ((process reference).step refusedWaiting (.library .connDestroy)).get (by decide)

/-- The callback returns, and the handler goes on to its end. -/
def destroyedWaiting : List Tick :=
  [.library .callbackReturn, .library .drain, .library (.reconnect openNet), .library .finish]

/-- The process after the handler. -/
def waitingGone : Process := ((process reference).run waitingDestroyed destroyedWaiting).get (by decide)

/-- The handler has reconnected for the sale before it freed the connection. -/
theorem destroy_not_final :
    ¬∀ (w w₁ w₂ : Process) (ticks : List Tick), (process reference).Reachable w → w.sys.pc = .callback →
      (process reference).step w (.library .connDestroy) = some w₁ →
      (process reference).run w₁ ticks = some w₂ →
      (silenced reference).run w₁ ticks = some w₂ ∧ w₂.faults = [] ∧ FreedOnce w₂.sys := by
  intro h
  obtain ⟨hsilent, -⟩ := h refusedWaiting waitingDestroyed waitingGone destroyedWaiting
    refusedWaiting_reachable (by decide) (Option.some_get _).symm (Option.some_get _).symm
  have hcalled : ((silenced reference).run waitingDestroyed destroyedWaiting).isSome = false := by decide
  rw [hsilent] at hcalled
  cases hcalled

/-- A sale with a timeout is on the wire when the callback destroys the connection, which is freed at the end
of the handler; the timer of the sale then goes off. -/
def destroyTimed : List Tick :=
  [.library .connDisablePing, .library (.transNew [saleDraw]), .library (.transSetTimeout 0 30),
    .library (.transSetParam 0 (ascii "action") (some (ascii "sale"))), .library (.transSend 0),
    .library (.implicitConnect openNet), .library (.event (.connected [] 100)), .library .resume,
    .library .deliver, .library .connDestroy, .library .callbackReturn, .library .drain, .library .finish,
    .strayTimer 0]

example : ((process reference).run startedProcess destroyTimed).map (fun w => (w.sys.conn.freed, w.faults)) =
    some (true, [.timedOut 0]) := by
  decide

end Runs

end LibMonetra
