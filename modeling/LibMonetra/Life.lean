import LibMonetra.Steps

/-!
# The life of one transaction

A connection seen from one of its transactions: its fields, its timer, and what was recorded about
it. Every step on a store is one step of this view, or leaves it alone, so that a property of one
transaction over a whole run is an invariant of its own small transition system.
-/

namespace LibMonetra

variable {lib : Mstdlib}

/-- Whether a record is about a transaction. -/
def Obs.about (q : Ptr) : Obs → Bool
  | .created p _ | .accepted p | .framed p _ _ _ | .answered p _ _ | .deleted p | .freed p => p == q
  | .queued e => e.trans == some q
  | .consumed _ | .callback _ => false
  | .connFreed => true

/-- The type of a queued event. -/
def Obs.queuedType : Obs → Option EventType
  | .queued e => some e.type
  | _ => none

/-- The part of a record that is about a transaction. -/
def historyOf (q : Ptr) (trace : List Obs) : List Obs := trace.filter (Obs.about q)

/-- The events of a record, in the order in which they were queued. -/
def queuedTypes (history : List Obs) : List EventType := history.filterMap Obs.queuedType

@[simp] theorem historyOf_append (q : Ptr) (trace later : List Obs) :
    historyOf q (trace ++ later) = historyOf q trace ++ historyOf q later :=
  List.filter_append ..

@[simp] theorem queuedTypes_append (history later : List Obs) :
    queuedTypes (history ++ later) = queuedTypes history ++ queuedTypes later :=
  List.filterMap_append

/-- A connection as one of its transactions sees it. -/
structure Life where
  born : Prop
  trans : Option Trans
  ping : Prop
  armed : Bool
  delayed : Prop
  history : List Obs

/-- The view of one transaction. -/
def TransStore.life (s : TransStore) (q : Ptr) : Life where
  born := q < s.nextPtr
  trans := s.heap q
  ping := s.pingtxn = some q
  armed := s.transTimers.any fun timer => timer.1 == q
  delayed := q ∈ s.transDelayRm
  history := historyOf q s.trace

/-- A transaction whose timeout timer is gone. -/
def Trans.unarmed (t : Trans) : Trans := { t with timeoutTimer := false }

/-- One step in the life of a transaction. -/
inductive LifeStep (lib : Mstdlib) (q : Ptr) : Life → Life → Prop
  | create (l : Life) (id : ℕ) (params : Option HashDict) : ¬l.born →
      LifeStep lib q l { l with
        born := True
        trans := some { Trans.fresh id .user with requestParams := params }
        history := l.history ++ [.created q .user] }
  | createPing (l : Life) (id : ℕ) (status : ConnStatus) : ¬l.born →
      LifeStep lib q l { l with
        born := True
        trans := some { Trans.fresh id .ping with status := .pending }
        ping := True
        history := l.history ++ [.created q .ping, .framed q .ping status (requestFrame lib id pingParams)] }
  | edit (l : Life) (t : Trans) (params : Option HashDict) (timeoutS : ℕ) :
      l.trans = some t → t.status = .new →
      LifeStep lib q l { l with
        trans := some { t with requestParams := params, timeoutS := timeoutS } }
  | accept (l : Life) (t : Trans) : l.trans = some t → t.status = .new →
      LifeStep lib q l { l with
        trans := some { t with status := .ready }
        history := l.history ++ [.accepted q] }
  | submit (l : Life) (t : Trans) (armed : Bool) : l.trans = some t → t.status = .ready →
      LifeStep lib q l { l with
        trans := some (t.submitted armed)
        armed := l.armed || armed
        history := l.history ++ [.framed q t.owner .connected (t.request lib)] }
  | noconnect (l : Life) (t : Trans) : l.trans = some t → t.status = .ready →
      LifeStep lib q l { l with history := l.history ++ [.queued ⟨.transNoconnect, some q⟩] }
  | timeout (l : Life) (t : Trans) : l.trans = some t → l.armed = true →
      LifeStep lib q l { l with
        trans := some t.unarmed
        armed := false
        history := l.history ++ [.queued ⟨.transTimeout, some q⟩] }
  | answer (l : Life) (t : Trans) (msg data : Bytes) : l.trans = some t → t.status = .pending →
      readMsg lib msg = some (t.transId, data) → ¬l.ping →
      LifeStep lib q l { l with
        trans := some (storeResponse lib t data).unarmed
        armed := l.armed && !t.timeoutTimer
        history := l.history ++ [.answered q .pending msg, .queued ⟨.transDone, some q⟩] }
  | answerPing (l : Life) (t : Trans) (msg data : Bytes) : l.trans = some t → t.status = .pending →
      readMsg lib msg = some (t.transId, data) → l.ping →
      LifeStep lib q l { l with
        trans := some (storeResponse lib t data)
        history := l.history ++ [.answered q .pending msg] }
  | fail (l : Life) (t : Trans) (response : Dict) : l.trans = some t → t.status = .pending →
      response.getDirect (ascii "code") = some (ascii "DENY") →
      LifeStep lib q l { l with
        trans := some (t.failed response).unarmed
        armed := l.armed && !t.timeoutTimer
        history := l.history ++ [.queued ⟨.transError, some q⟩] }
  | defer (l : Life) (t : Trans) : l.trans = some t →
      LifeStep lib q l { l with
        trans := some t.unarmed
        armed := l.armed && !t.timeoutTimer
        delayed := True
        history := l.history ++ [.deleted q] }
  | delete (l : Life) (t : Trans) : l.trans = some t →
      LifeStep lib q l { l with
        trans := none
        armed := l.armed && !t.timeoutTimer
        history := l.history ++ [.deleted q, .freed q] }
  | drain (l : Life) (t : Trans) (delayed : Prop) : l.trans = some t → l.delayed →
      LifeStep lib q l { l with
        trans := none
        delayed := delayed
        history := l.history ++ [.freed q] }
  | drainDead (l : Life) (delayed : Prop) : l.trans = none → l.delayed →
      LifeStep lib q l { l with delayed := delayed }
  | forgetPing (l : Life) : LifeStep lib q l { l with ping := False }
  | destroy (l : Life) :
      LifeStep lib q l
        { l with trans := none, delayed := False, history := l.history ++ [.connFreed] }

/-- A sequence of steps in the life of a transaction. -/
abbrev LifeSteps (lib : Mstdlib) (q : Ptr) : Life → Life → Prop :=
  Relation.ReflTransGen (LifeStep lib q)

/-- A step on a store as one transaction sees it. -/
def Seen (lib : Mstdlib) (s s' : TransStore) (q : Ptr) : Prop :=
  s'.life q = s.life q ∨ LifeStep lib q (s.life q) (s'.life q)

section Projection

variable {s s' : TransStore} {p q : Ptr} {t : Trans}

/-- The timers of the other transactions stay when one timer is removed. -/
theorem any_filter_timers (timers : List (Ptr × ℕ)) (hq : q ≠ p) :
    ((timers.filter fun timer => timer.1 ≠ p).any fun timer => timer.1 == q) =
      timers.any fun timer => timer.1 == q := by
  rw [List.any_filter]
  congr 1
  funext timer
  by_cases htimer : timer.1 = q
  · simp [htimer, hq]
  · simp [htimer]

/-- No timer of a transaction is left when its timers are removed. -/
theorem any_filter_timers_self (timers : List (Ptr × ℕ)) :
    ((timers.filter fun timer => timer.1 ≠ p).any fun timer => timer.1 == p) = false := by
  simp

/-- The view of another transaction is unchanged when a timer goes. -/
theorem life_killTimeoutTimer_of_ne (ht : s.heap p = some t) (hq : q ≠ p) :
    (s.killTimeoutTimer p t).life q = s.life q := by
  unfold TransStore.life
  rw [TransStore.heap_killTimeoutTimer s p t ht, TransStore.transTimers_killTimeoutTimer]
  split
  · rw [any_filter_timers _ hq]
    simp [hq]
  · simp [hq]

/-- A transaction whose timer goes sees only that. -/
theorem life_killTimeoutTimer (ht : s.heap p = some t) :
    (s.killTimeoutTimer p t).life p =
      { s.life p with trans := some t.unarmed, armed := (s.life p).armed && !t.timeoutTimer } := by
  unfold TransStore.life
  rw [TransStore.heap_killTimeoutTimer s p t ht, TransStore.transTimers_killTimeoutTimer]
  cases htimer : t.timeoutTimer with
  | true =>
    rw [if_pos rfl, any_filter_timers_self]
    simp [Trans.unarmed]
  | false => simp [Trans.unarmed]

/-- Which queue a transaction is in is not part of the view. -/
theorem life_queueTake (s : TransStore) (status : TransStatus) (p q : Ptr) :
    (s.queueTake status p).life q = s.life q := by
  simp [TransStore.life]

/-- A deferred deletion as one transaction sees it. -/
theorem seen_defer (lib : Mstdlib) (ht : s.heap p = some t) (q : Ptr) : Seen lib s (s.defer p t) q := by
  by_cases hq : q = p
  · subst hq
    refine Or.inr ?_
    convert @LifeStep.defer lib q (s.life q) t ht using 1
    have hview := life_killTimeoutTimer ht
    simpa [TransStore.life, TransStore.defer, TransStore.log, historyOf, Obs.about] using hview
  · refine Or.inl ?_
    have hpq : ¬p = q := fun h => hq h.symm
    have hview := life_killTimeoutTimer_of_ne ht hq
    simpa [TransStore.life, TransStore.defer, TransStore.log, historyOf, Obs.about, hq, hpq] using hview

/-- A step of the library as one transaction sees it. -/
theorem InternalStep.seen (hstep : InternalStep lib s s') (hrep : Rep s) (q : Ptr) :
    Seen lib s s' q := by
  cases hstep with
  | createPing id status hfree hlow hhigh =>
    by_cases hq : q = s.nextPtr
    · subst hq
      refine Or.inr ?_
      convert @LifeStep.createPing lib s.nextPtr (s.life s.nextPtr) id status
        (Nat.lt_irrefl s.nextPtr) using 1
      simp [TransStore.life, TransStore.log, historyOf, Obs.about]
    · have hlt : q < s.nextPtr + 1 ↔ q < s.nextPtr := Nat.lt_succ_iff_lt_or_eq.trans (or_iff_left hq)
      have hpq : ¬s.nextPtr = q := fun h => hq h.symm
      refine Or.inr ?_
      convert @LifeStep.forgetPing lib q (s.life q) using 1
      simp [TransStore.life, TransStore.log, historyOf, Obs.about, hq, hpq, hlt]
  | submit p t rest armed interval hready ht hst hevents =>
    by_cases hq : q = p
    · subst hq
      refine Or.inr ?_
      convert @LifeStep.submit lib q (s.life q) t armed ht hst using 1
      cases armed <;> simp [TransStore.life, historyOf, Obs.about]
    · refine Or.inl ?_
      have hpq : ¬p = q := fun h => hq h.symm
      cases armed <;> simp [TransStore.life, historyOf, Obs.about, hq, hpq]
  | noconnect p hp =>
    by_cases hq : q = p
    · subst hq
      obtain ⟨t, ht, hst⟩ := hrep.queued .ready q hp
      refine Or.inr ?_
      convert @LifeStep.noconnect lib q (s.life q) t ht hst using 1
      simp [TransStore.life, TransStore.connEventAdd, historyOf, Obs.about]
    · refine Or.inl ?_
      have hpq : ¬p = q := fun h => hq h.symm
      simp [TransStore.life, TransStore.connEventAdd, historyOf, Obs.about, hpq]
  | timeout p t interval ht htimer =>
    by_cases hq : q = p
    · subst hq
      have harmed : (s.life q).armed = true := List.any_eq_true.mpr ⟨_, htimer, by simp⟩
      refine Or.inr ?_
      convert @LifeStep.timeout lib q (s.life q) t ht harmed using 1
      simp [TransStore.life, TransStore.connEventAdd, TransStore.setTrans, historyOf, Obs.about,
        Trans.unarmed]
    · refine Or.inl ?_
      have hpq : ¬p = q := fun h => hq h.symm
      unfold TransStore.life
      rw [any_filter_timers _ hq]
      simp [TransStore.connEventAdd, TransStore.setTrans, historyOf, Obs.about, hq, hpq]
  | answer p t msg data ht hst hmsg hping =>
    have hlive : ((s.answer p t (storeResponse lib t data) msg).connEventAdd .transDone
        (some p)).heap p = some (storeResponse lib t data) := by
      simp [TransStore.connEventAdd]
    by_cases hq : q = p
    · subst hq
      refine Or.inr ?_
      rw [life_killTimeoutTimer hlive]
      convert @LifeStep.answer lib q (s.life q) t msg data ht hst hmsg
        (by simpa [TransStore.life] using hping) using 1
      simp [TransStore.life, TransStore.connEventAdd, historyOf, Obs.about]
    · refine Or.inl ?_
      have hpq : ¬p = q := fun h => hq h.symm
      rw [life_killTimeoutTimer_of_ne hlive hq]
      simp [TransStore.life, TransStore.connEventAdd, historyOf, Obs.about, hq, hpq]
  | answerPing p t msg data ht hst hmsg hping =>
    by_cases hq : q = p
    · subst hq
      refine Or.inr ?_
      convert @LifeStep.answerPing lib q (s.life q) t msg data ht hst hmsg
        (by simpa [TransStore.life] using hping) using 1
      simp [TransStore.life, historyOf, Obs.about]
    · refine Or.inl ?_
      have hpq : ¬p = q := fun h => hq h.symm
      simp [TransStore.life, historyOf, Obs.about, hq, hpq]
  | fail p t rest response hpending ht hst hcode =>
    have hlive : (s.move p t (t.failed response)).heap p = some (t.failed response) := by simp
    by_cases hq : q = p
    · subst hq
      refine Or.inr ?_
      convert @LifeStep.fail lib q (s.life q) t response ht hst hcode using 1
      have hview := life_killTimeoutTimer hlive
      simpa [TransStore.life, TransStore.connEventAdd, historyOf, Obs.about, Trans.failed] using hview
    · refine Or.inl ?_
      have hpq : ¬p = q := fun h => hq h.symm
      have hview := life_killTimeoutTimer_of_ne hlive hq
      simpa [TransStore.life, TransStore.connEventAdd, historyOf, Obs.about, hpq, hq] using hview
  | retirePing p t ht hping =>
    rcases seen_defer lib ht q with hview | hview
    · exact Or.inl ((life_queueTake _ .pending p q).trans hview)
    · exact Or.inr (life_queueTake (s.defer p t) .pending p q ▸ hview)
  | drain p t rest hdelay ht =>
    by_cases hq : q = p
    · subst hq
      refine Or.inr ?_
      convert @LifeStep.drain lib q (s.life q) t (q ∈ rest) ht
        (by simp [TransStore.life, hdelay]) using 1
      simp [TransStore.life, historyOf, Obs.about]
    · refine Or.inl ?_
      have hpq : ¬p = q := fun h => hq h.symm
      simp [TransStore.life, historyOf, Obs.about, hq, hpq, hdelay]
  | drainDead p rest hdelay hdead =>
    by_cases hq : q = p
    · subst hq
      refine Or.inr ?_
      convert @LifeStep.drainDead lib q (s.life q) (q ∈ rest) hdead
        (by simp [TransStore.life, hdelay]) using 1
      simp [TransStore.life, hdelay]
    · exact Or.inl (by simp [TransStore.life, hq, hdelay])
  | connEvent type htype =>
    exact Or.inl (by simp [TransStore.life, TransStore.connEventAdd, historyOf, Obs.about])
  | deliver e rest hevents => exact Or.inl (by simp [TransStore.life, TransStore.log, historyOf, Obs.about])
  | dropEvents => exact Or.inl rfl
  | forgetPing =>
    refine Or.inr ?_
    convert @LifeStep.forgetPing lib q (s.life q) using 1
    simp [TransStore.life]
  | consume msg => exact Or.inl (by simp [TransStore.life, TransStore.log, historyOf, Obs.about])

/-- Any step as one transaction sees it. -/
theorem StoreStep.seen (hstep : StoreStep lib s s') (hrep : Rep s) (q : Ptr) : Seen lib s s' q := by
  cases hstep with
  | create id params hfree hlow hhigh =>
    by_cases hq : q = s.nextPtr
    · subst hq
      refine Or.inr ?_
      convert @LifeStep.create lib s.nextPtr (s.life s.nextPtr) id params
        (Nat.lt_irrefl s.nextPtr) using 1
      simp [TransStore.life, TransStore.log, historyOf, Obs.about]
    · have hlt : q < s.nextPtr + 1 ↔ q < s.nextPtr := Nat.lt_succ_iff_lt_or_eq.trans (or_iff_left hq)
      have hpq : ¬s.nextPtr = q := fun h => hq h.symm
      exact Or.inl (by simp [TransStore.life, TransStore.log, historyOf, Obs.about, hq, hpq, hlt])
  | edit p t params timeoutS ht hst =>
    by_cases hq : q = p
    · subst hq
      refine Or.inr ?_
      convert @LifeStep.edit lib q (s.life q) t params timeoutS ht hst using 1
      simp [TransStore.life, TransStore.setTrans]
    · exact Or.inl (by simp [TransStore.life, TransStore.setTrans, hq])
  | accept p t ht hst =>
    by_cases hq : q = p
    · subst hq
      refine Or.inr ?_
      convert @LifeStep.accept lib q (s.life q) t ht hst using 1
      simp [TransStore.life, TransStore.log, historyOf, Obs.about]
    · refine Or.inl ?_
      have hpq : ¬p = q := fun h => hq h.symm
      simp [TransStore.life, TransStore.log, historyOf, Obs.about, hq, hpq]
  | defer p t ht => exact seen_defer lib ht q
  | delete p t ht =>
    by_cases hq : q = p
    · subst hq
      refine Or.inr ?_
      convert @LifeStep.delete lib q (s.life q) t ht using 1
      have harmed := congrArg Life.armed (life_killTimeoutTimer ht)
      simpa [TransStore.life, TransStore.log, historyOf, Obs.about] using harmed
    · refine Or.inl ?_
      have hpq : ¬p = q := fun h => hq h.symm
      have hview := life_killTimeoutTimer_of_ne ht hq
      simpa [TransStore.life, TransStore.log, historyOf, Obs.about, hq, hpq] using hview
  | destroy =>
    refine Or.inr ?_
    convert @LifeStep.destroy lib q (s.life q) using 1
    simp [TransStore.life, TransStore.freeAll, historyOf, Obs.about]
  | internal s' hinternal => exact hinternal.seen hrep q

end Projection

end LibMonetra
