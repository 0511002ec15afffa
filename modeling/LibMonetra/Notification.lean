import LibMonetra.LifeInvariant
import LibMonetra.Reference

/-!
# What a caller is told

The status of a transaction only moves forward, and its caller is told of its end exactly once,
after everything else there is to tell.
-/

namespace LibMonetra

open Foundation

variable {lib : Mstdlib}

/-- The events queued for one transaction. -/
def queuedFor (p : Ptr) (trace : List Obs) : List EventType := queuedTypes (historyOf p trace)

/-- The events that end a transaction. -/
def ended (events : List EventType) : List EventType :=
  events.filter fun type => type = .transDone ∨ type = .transError

@[simp] theorem queuedFor_append (p : Ptr) (trace later : List Obs) :
    queuedFor p (trace ++ later) = queuedFor p trace ++ queuedFor p later := by
  simp [queuedFor]

/-- Only the end of an ordered list of events ends the transaction. -/
theorem WellOrdered.ended_eq {events ends : List EventType} {waits timeouts : ℕ}
    (h : WellOrdered events waits timeouts ends) : ended events = ends := by
  have hwaits : (List.replicate waits EventType.transNoconnect).filter
      (fun type => type = .transDone ∨ type = .transError) = [] := by simp
  have htimeouts : (List.replicate timeouts EventType.transTimeout).filter
      (fun type => type = .transDone ∨ type = .transError) = [] := by simp
  have hends : ends.filter (fun type => type = .transDone ∨ type = .transError) = ends := by
    rcases h.ends with rfl | rfl | rfl <;> rfl
  rw [h.events, ended, List.filter_append, List.filter_append, hwaits, htimeouts, hends]
  rfl

/-- One step adds to the record of the run. -/
theorem InternalStep.trace_append {s s' : TransStore} (hstep : InternalStep lib s s') :
    ∃ new, s'.trace = s.trace ++ new := by
  cases hstep <;> simp [TransStore.log, TransStore.connEventAdd, TransStore.setTrans, TransStore.defer]

/-- One step adds to the record of the run. -/
theorem StoreStep.trace_append {s s' : TransStore} (hstep : StoreStep lib s s') :
    ∃ new, s'.trace = s.trace ++ new := by
  cases hstep with
  | internal s' hinternal => exact hinternal.trace_append
  | _ => simp [TransStore.log, TransStore.setTrans, TransStore.defer, TransStore.freeAll]

/-- A sequence of steps adds to the record of the run. -/
theorem StoreSteps.trace_append {s s' : TransStore} (h : StoreSteps lib s s') :
    ∃ new, s'.trace = s.trace ++ new := by
  induction h with
  | refl => exact ⟨[], (List.append_nil _).symm⟩
  | tail _ hlast ih =>
    obtain ⟨new, heq⟩ := ih
    obtain ⟨new', heq'⟩ := hlast.trace_append
    exact ⟨new ++ new', by rw [heq', heq, List.append_assoc]⟩

/-- A run from a reached state is a sequence of steps on the transactions. -/
theorem Running.run {s s' : Sys} (h : Running lib s) (actions : List Action)
    (hrun : (monetra lib).run s actions = some s') :
    Running lib s' ∧ StoreSteps lib s.conn.toTransStore s'.conn.toTransStore := by
  induction actions generalizing s with
  | nil =>
    obtain rfl := Option.some.inj hrun
    exact ⟨h, .refl⟩
  | cons a rest ih =>
    obtain ⟨mid, hmid, hrest⟩ := Option.bind_eq_some_iff.mp hrun
    obtain ⟨hend, hsteps⟩ := ih (h.step hmid) hrest
    exact ⟨hend, (sysStep_refines hmid h.link h.rep).2.trans hsteps⟩

/-- In a reached state the events queued for a transaction are in order. -/
theorem Running.wellOrdered {s : Sys} (h : Running lib s) (p : Ptr) :
    ∃ waits timeouts ends, WellOrdered (queuedFor p s.conn.trace) waits timeouts ends := by
  obtain ⟨waits, timeouts, ends, htold⟩ := (h.life p).told
  exact ⟨waits, timeouts, ends, htold.order⟩

/-- In a reached state a pending transaction, or one that waits to be sent, has not been told of its end. -/
theorem Running.ended_waiting {s : Sys} (h : Running lib s) {p : Ptr} {t : Trans} (ht : s.conn.heap p = some t)
    (hst : t.status = .ready ∨ t.status = .pending) : ended (queuedFor p s.conn.trace) = [] := by
  obtain ⟨waits, timeouts, ends, htold⟩ := (h.life p).told
  rw [show ended (queuedFor p s.conn.trace) = ends from htold.order.ended_eq]
  rcases hst with hst | hst
  · exact (htold.ready t ht hst).2
  · exact (htold.pending t ht hst).1

/-- In a reached state a completed transaction of a caller has been told of its end once. -/
theorem Running.ended_done {s : Sys} (h : Running lib s) {p : Ptr} {t : Trans}
    (ht : s.conn.heap p = some t) (hst : t.status = .done) (huser : t.owner = .user) :
    ended (queuedFor p s.conn.trace) = [.transDone] ∨
      ended (queuedFor p s.conn.trace) = [.transError] := by
  obtain ⟨waits, timeouts, ends, htold⟩ := (h.life p).told
  rw [show ended (queuedFor p s.conn.trace) = ends from htold.order.ended_eq]
  exact htold.order.ends.resolve_left (htold.done t ht hst huser)

/-- What a caller may rely on from one state of a run to a later one: the events of every
transaction are in order; the status of a caller's transaction moves forward until it is deleted or
goes with its connection; and it leaves `PENDING` for `DONE` by one event that says so. -/
def LifeCycle (s s' : Sys) : Prop :=
  ∃ new, s'.conn.trace = s.conn.trace ++ new ∧
    (∀ p, ∃ waits timeouts ends, WellOrdered (queuedFor p s'.conn.trace) waits timeouts ends) ∧
    ∀ p t, s.conn.heap p = some t → t.owner = .user →
      (s'.conn.heap p = none ∧ (.deleted p ∈ s'.conn.trace ∨ .connFreed ∈ s'.conn.trace)) ∨
      ∃ t', s'.conn.heap p = some t' ∧ t.status.rank ≤ t'.status.rank ∧
        (t.status = .pending →
          (t'.status = .pending ∧ ended (queuedFor p new) = []) ∨
          (t'.status = .done ∧ (ended (queuedFor p new) = [.transDone] ∨
            ended (queuedFor p new) = [.transError])))

/-- Every run keeps to the life cycle of the transactions. -/
theorem run_lifeCycle (lib : Mstdlib) (s s' : Sys) (actions : List Action)
    (hs : (monetra lib).Reachable s) (hrun : (monetra lib).run s actions = some s') :
    LifeCycle s s' := by
  have hrunning := running_of_reachable hs
  obtain ⟨hrunning', hsteps⟩ := hrunning.run actions hrun
  obtain ⟨new, hnew⟩ := StoreSteps.trace_append hsteps
  refine ⟨new, hnew, hrunning'.wellOrdered, fun p t ht huser => ?_⟩
  have hlife := StoreSteps.life hsteps hrunning.rep p
  cases ht' : s'.conn.heap p with
  | none =>
    have hborn := LifeSteps.born hlife ((hrunning.life p).timed.born_of_live ht)
    refine Or.inl ⟨rfl, ((hrunning'.life p).removed.gone hborn ht').imp ?_ ?_⟩ <;>
      exact fun hmem => List.mem_of_mem_filter hmem
  | some t' =>
    obtain ⟨howner, -, hrank⟩ := LifeSteps.moved hlife (hrunning.life p).timed ht ht'
    refine Or.inr ⟨t', rfl, hrank, fun hpending => ?_⟩
    have hbefore := hrunning.ended_waiting ht (Or.inr hpending)
    have hsplit : ended (queuedFor p s'.conn.trace) = ended (queuedFor p new) := by
      rw [hnew, queuedFor_append, ended, List.filter_append]
      change ended (queuedFor p s.conn.trace) ++ _ = _
      rw [hbefore]
      rfl
    rw [hpending] at hrank
    cases hst' : t'.status with
    | new => exact absurd (hst' ▸ hrank) (by decide)
    | ready => exact absurd (hst' ▸ hrank) (by decide)
    | pending => exact Or.inl ⟨rfl, hsplit ▸ hrunning'.ended_waiting ht' (Or.inr hst')⟩
    | done => exact Or.inr ⟨rfl, hsplit ▸ hrunning'.ended_done ht' hst' (howner.trans huser)⟩

/-- The approval of a sale is such a run. -/
theorem run_lifeCycle_sale :
    (saleSent.conn.heap 0).map Trans.status = some .pending ∧
      (saleAnswered.conn.heap 0).map Trans.status = some .done ∧ LifeCycle saleSent saleAnswered :=
  ⟨by decide, by decide,
    run_lifeCycle reference saleSent saleAnswered answerSale saleSent_reachable saleAnswered_run⟩

end LibMonetra
