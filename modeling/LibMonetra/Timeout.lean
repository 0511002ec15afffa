import LibMonetra.LifeInvariant
import LibMonetra.Reference
import LibMonetra.Turn

/-!
# Timeout timers

The timeout timer of a transaction runs only while the transaction is pending. It is removed with
every end of a transaction but two: the end of the whole connection, and a drain that frees a
transaction whose timer was armed after its deletion had been put off.
-/

namespace LibMonetra

open Foundation

variable {lib : Mstdlib}

/-- Every armed timeout timer belongs to a live transaction that is pending. -/
def TimersLive (s : Sys) : Prop :=
  ∀ p interval, (p, interval) ∈ s.conn.transTimers →
    ∃ t, s.conn.heap p = some t ∧ t.status = .pending

/-- Whether an action frees a transaction whose timeout timer is armed without removing the timer: it
ends the connection, or drains the deletion of a transaction whose timer was armed after it. -/
def Action.orphansTimer (c : Conn) : Action → Bool
  | .drain => c.transTimers.any fun timer => c.transDelayRm.contains timer.1
  | a => a.destroys c && !c.transTimers.isEmpty

/-- The runs without such actions. -/
def timersKept (lib : Mstdlib) : System Sys Action :=
  (monetra lib).restrict fun s a => !a.orphansTimer s.conn

section Step

variable {q : Ptr} {l l' : Life}

/-- Steps that leave nothing dead that was not dead before leave no timer behind. -/
theorem LifeSteps.armed_live (h : LifeSteps lib q l l') (htimed : l.Timed)
    (hok : l.armed = true → l.trans ≠ none) (hkept : l'.born → l'.trans = none → l.born ∧ l.trans = none) :
    l'.armed = true → l'.trans ≠ none := by
  intro harmed hgone
  have htimed' := LifeSteps.timed h htimed
  by_cases hborn : l'.born
  · obtain ⟨hb, hg⟩ := hkept hborn hgone
    rw [(LifeSteps.gone h hb hg).2] at harmed
    exact hok harmed hg
  · rw [(htimed'.unborn hborn).2.2] at harmed
    cases harmed

end Step

section Runs

variable {s s' : Sys} {a : Action}

/-- A timer of a live transaction is a timer of a pending one. -/
theorem Running.timersLive_iff (h : Running lib s) :
    TimersLive s ↔ ∀ p, (s.conn.toTransStore.life p).armed = true → s.conn.heap p ≠ none := by
  constructor
  · intro hlive p harmed
    obtain ⟨⟨q, interval⟩, htimer, hq⟩ := List.any_eq_true.mp harmed
    obtain rfl : q = p := by simpa using hq
    obtain ⟨t, ht, -⟩ := hlive q interval htimer
    simp [ht]
  · intro hlive p interval htimer
    have harmed : (s.conn.toTransStore.life p).armed = true :=
      List.any_eq_true.mpr ⟨_, htimer, by simp⟩
    obtain ⟨t, ht⟩ := Option.ne_none_iff_exists'.mp (hlive p harmed)
    exact ⟨t, ht, ((h.life p).timed.armed t ht harmed).1⟩

/-- An action that clears nothing orphans no timer. -/
theorem Action.orphansTimer_of_clears {c : Conn} {a : Action} (h : a.clears c = false) :
    a.orphansTimer c = false := by
  cases a <;> simp_all [Action.clears, Action.orphansTimer]

/-- A transaction that is dead after an action which frees nothing was dead before. -/
theorem Handled.gone {s s' : TransStore} {new : List Obs} (h : Handled s s' new) {p : Ptr}
    (hborn : p < s'.nextPtr) (hgone : s'.heap p = none) : p < s.nextPtr ∧ s.heap p = none := by
  have hdead : ¬((s.heap p).isSome ∨ (s.nextPtr ≤ p ∧ p < s'.nextPtr)) := by
    rw [← h.live, hgone]
    simp
  rw [not_or, not_and] at hdead
  refine ⟨?_, by simpa using hdead.1⟩
  by_contra hnew
  exact hdead.2 (Nat.le_of_not_lt hnew) hborn

/-- An action keeps the timers with their transactions exactly when it does not free a transaction
whose timer is armed. -/
theorem sysStep_timersLive (h : sysStep lib s a = some s') (hrunning : Running lib s)
    (hlive : TimersLive s) : TimersLive s' ↔ a.orphansTimer s.conn = false := by
  have hrunning' := hrunning.step h
  have hsteps := (sysStep_refines h hrunning.link hrunning.rep).2
  rw [hrunning.timersLive_iff] at hlive
  rw [hrunning'.timersLive_iff]
  cases sysStep_turn h hrunning with
  | served new hclears hserved =>
    refine iff_of_true (fun p => ?_) (Action.orphansTimer_of_clears hclears)
    exact LifeSteps.armed_live (StoreSteps.life hsteps hrunning.rep p) (hrunning.life p).timed (hlive p)
      fun hborn hgone => hserved.handled.gone hborn hgone
  | delivered e rest ha hpc hevents hstore =>
    subst ha
    rw [hstore]
    exact iff_of_true hlive rfl
  | returned ha hpc hstore =>
    subst ha
    rw [hstore]
    exact iff_of_true hlive rfl
  | deleted p t ha hidle ht hstore =>
    subst ha
    rw [hstore]
    refine iff_of_true (fun q harmed => ?_) rfl
    have hkilled : ((s.conn.toTransStore.killTimeoutTimer p t).life q).armed = true := by
      simpa [TransStore.life, TransStore.log] using harmed
    by_cases hq : q = p
    · subst hq
      have hoff := ((hrunning.life q).timed.killed ht)
      rw [life_killTimeoutTimer ht] at hkilled
      exact absurd hkilled (by simp only [hoff, Bool.false_eq_true, not_false_eq_true])
    · have hsame := life_killTimeoutTimer_of_ne ht hq
      rw [hsame] at hkilled
      have hheap : (s.conn.toTransStore.killTimeoutTimer p t).heap q = s.conn.heap q :=
        congrArg Life.trans hsame
      rw [TransStore.heap_free, Function.update_of_ne hq]
      exact hheap ▸ hlive q hkilled
  | drained ha hpc hevents hstore =>
    subst ha
    have harmed : ∀ q, (s'.conn.toTransStore.life q).armed = (s.conn.toTransStore.life q).armed := by
      intro q
      rw [hstore]
      simp [TransStore.life, (drainDelayRm_kept lib s.conn.transDelayRm s.conn).1]
    have hheap : ∀ q, s'.conn.heap q = if q ∈ s.conn.transDelayRm then none else s.conn.heap q := by
      intro q
      rw [hstore]
      exact drainDelayRm_heap lib s.conn.transDelayRm s.conn q
    have horphans : Action.drain.orphansTimer s.conn = false ↔
        ∀ q, (s.conn.toTransStore.life q).armed = true → q ∉ s.conn.transDelayRm := by
      simp only [Action.orphansTimer, TransStore.life, List.any_eq_false, List.any_eq_true,
        List.contains_eq_mem, decide_eq_true_eq, beq_iff_eq]
      refine ⟨fun h q harmed => ?_, fun h timer htimer => h timer.1 ⟨timer, htimer, rfl⟩⟩
      obtain ⟨timer, htimer, hq⟩ := harmed
      exact hq ▸ h timer htimer
    rw [horphans]
    refine forall_congr' fun q => ?_
    rw [harmed, hheap]
    refine forall_congr' fun hq => ?_
    have hold := hlive q hq
    by_cases hdelay : q ∈ s.conn.transDelayRm <;> simp [hdelay, hold]
  | destroyed hdestroys hidle hfreed hstore =>
    have horphans : a.orphansTimer s.conn = false ↔ s.conn.transTimers = [] := by
      cases a <;> simp_all [Action.destroys, Action.orphansTimer]
    rw [hstore, horphans]
    refine ⟨fun h => List.eq_nil_iff_forall_not_mem.mpr fun timer htimer => ?_, fun hnone p harmed => ?_⟩
    · exact h timer.1 (List.any_eq_true.mpr ⟨timer, htimer, by simp⟩) rfl
    · simp [TransStore.life, TransStore.freeAll, hnone] at harmed

/-- In every run whose actions orphan no timer, every armed timer belongs to a live transaction that is
pending. -/
theorem timersLive_of_reachable {s : Sys} (hs : (timersKept lib).Reachable s) : TimersLive s := by
  refine System.Reachable.invariant (timersKept lib) ?_ ?_ hs
  · rintro s0 ⟨host, port, -, -, rfl⟩ p interval htimer
    cases htimer
  · intro s0 a s1 hs0 hlive hstep
    obtain ⟨hok, hstep⟩ := (monetra lib).restrict_step hstep
    have hrunning := running_of_reachable (hs0.of_restrict (monetra lib))
    exact (sysStep_timersLive hstep hrunning hlive).mpr (by simpa using hok)

/-- In every run whose actions orphan no timer, every armed timer belongs to a live transaction that
is pending, and the next action keeps it so exactly when it orphans none either. -/
theorem timersKept_timersLive (lib : Mstdlib) (s : Sys) (hs : (timersKept lib).Reachable s) :
    TimersLive s ∧ ∀ a s', sysStep lib s a = some s' →
      (TimersLive s' ↔ a.orphansTimer s.conn = false) := by
  have hlive := timersLive_of_reachable hs
  exact ⟨hlive, fun a s' hstep =>
    sysStep_timersLive hstep (running_of_reachable (hs.of_restrict (monetra lib))) hlive⟩

end Runs

section Runs

/-- A sale with a timeout of half a minute is sent over a connection that needs no ping. -/
def sendTimedSale : List Action :=
  [.connDisablePing, .transNew [saleDraw], .transSetTimeout 0 30,
    .transSetParam 0 (ascii "action") (some (ascii "sale")), .transSend 0, .implicitConnect openNet,
    .event (.connected [] 0), .resume, .deliver, .callbackReturn, .drain, .finish]

/-- The library with the sale on the wire and its timer armed. -/
def timedSaleSent : Sys := ((timersKept reference).run started sendTimedSale).get (by decide)

/-- This state is reachable. -/
theorem timedSaleSent_reachable : (timersKept reference).Reachable timedSaleSent :=
  System.reachable_get (timersKept reference) (started_init reference) sendTimedSale _

/-- The timer of the sale belongs to it. -/
theorem timersKept_timersLive_sale :
    timedSaleSent.conn.transTimers = [(0, 30000)] ∧ TimersLive timedSaleSent ∧
      ∀ a s', sysStep reference timedSaleSent a = some s' →
        (TimersLive s' ↔ a.orphansTimer timedSaleSent.conn = false) :=
  ⟨by decide, timersKept_timersLive reference timedSaleSent timedSaleSent_reachable⟩

/-- The connection is destroyed while the sale is pending: its timer stays armed. -/
def destroyTimedSale : List Action := sendTimedSale ++ [.connDestroy]

/-- The library after that. -/
def timedSaleDestroyed : Sys := ((monetra reference).run started destroyTimedSale).get (by decide)

/-- This state is reachable. -/
theorem timedSaleDestroyed_reachable : (monetra reference).Reachable timedSaleDestroyed :=
  System.reachable_get _ (started_init reference) destroyTimedSale _

/-- A timer can outlive its transaction. -/
theorem monetra_not_timersLive : ¬∀ s, (monetra reference).Reachable s → TimersLive s := by
  intro h
  obtain ⟨t, ht, -⟩ := h timedSaleDestroyed timedSaleDestroyed_reachable 0 30000 (by decide)
  rw [show timedSaleDestroyed.conn.heap 0 = none by decide] at ht
  cases ht

end Runs

end LibMonetra
