import LibMonetra.Life
import LibMonetra.Link

/-!
# Invariants in the life of a transaction

What every run keeps for each transaction: how its timer and its status fit together, which
events have been queued for it, when its request went out, and where its response came from.
-/

namespace LibMonetra

variable {lib : Mstdlib} {q : Ptr} {l l' : Life}

/-- A timer belongs to a pending transaction of a caller, and only the ping is a ping. -/
structure Life.Timed (l : Life) : Prop where
  unborn : ¬l.born → l.trans = none ∧ ¬l.ping ∧ l.armed = false
  timer : ∀ t, l.trans = some t → t.timeoutTimer = l.armed
  armed : ∀ t, l.trans = some t → l.armed = true → t.status = .pending ∧ t.owner = .user
  ping : ∀ t, l.trans = some t → l.ping → t.owner = .ping
  pingStatus : ∀ t, l.trans = some t → t.owner = .ping → t.status = .pending ∨ t.status = .done

/-- A transaction that is not pending or done belongs to a caller. -/
theorem Life.Timed.user_of_status (h : l.Timed) {t : Trans} (ht : l.trans = some t)
    (hst : t.status ≠ .pending ∧ t.status ≠ .done) : t.owner = .user := by
  cases howner : t.owner with
  | user => rfl
  | ping => exact absurd (h.pingStatus t ht howner) (by simp [hst.1, hst.2])

/-- A live transaction has been created. -/
theorem Life.Timed.born_of_live (h : l.Timed) {t : Trans} (ht : l.trans = some t) : l.born := by
  by_contra hb
  rw [(h.unborn hb).1] at ht
  cases ht

/-- A transaction that is not pending has no timer. -/
theorem Life.Timed.unarmed_of_status (h : l.Timed) {t : Trans} (ht : l.trans = some t)
    (hst : t.status ≠ .pending) : l.armed = false := by
  cases harmed : l.armed with
  | false => rfl
  | true => exact absurd (h.armed t ht harmed).1 hst

/-- The end of a timeout timer leaves no timer. -/
theorem Life.Timed.killed (h : l.Timed) {t : Trans} (ht : l.trans = some t) :
    (l.armed && !t.timeoutTimer) = false := by
  rw [h.timer t ht]
  exact Bool.and_not_self l.armed

/-- A live transaction whose timer fits its status. -/
theorem Life.Timed.of_live {t : Trans} (hborn : l.born) (ht : l.trans = some t)
    (htimer : t.timeoutTimer = l.armed) (harmed : l.armed = true → t.status = .pending ∧ t.owner = .user)
    (hping : l.ping → t.owner = .ping)
    (hstatus : t.owner = .ping → t.status = .pending ∨ t.status = .done) : l.Timed := by
  refine ⟨fun hb => absurd hborn hb, ?_, ?_, ?_, ?_⟩
  all_goals
    intro u hu
    obtain rfl := Option.some.inj (ht.symm.trans hu)
    assumption

/-- A transaction that is not there. -/
theorem Life.Timed.of_gone (hgone : l.trans = none) (hunborn : ¬l.born → ¬l.ping ∧ l.armed = false) :
    l.Timed := by
  refine ⟨fun hb => ⟨hgone, hunborn hb⟩, ?_, ?_, ?_, ?_⟩
  all_goals
    intro t ht
    cases hgone.symm.trans ht

/-- One step keeps timer and status together. -/
theorem LifeStep.timed (hstep : LifeStep lib q l l') (h : l.Timed) : l'.Timed := by
  have hborn := fun t (ht : l.trans = some t) => h.born_of_live ht
  cases hstep with
  | create id params hb =>
    obtain ⟨-, hping, hnone⟩ := h.unborn hb
    exact .of_live trivial rfl hnone.symm (fun ha => Bool.noConfusion (hnone.symm.trans ha))
      (fun hp => absurd hp hping) fun howner => by cases howner
  | createPing id status hb =>
    obtain ⟨-, -, hnone⟩ := h.unborn hb
    exact .of_live trivial rfl hnone.symm (fun ha => Bool.noConfusion (hnone.symm.trans ha))
      (fun _ => rfl) fun _ => Or.inl rfl
  | edit t params timeoutS ht hst =>
    exact .of_live (hborn t ht) rfl (h.timer t ht) (h.armed t ht) (h.ping t ht) (h.pingStatus t ht)
  | accept t ht hst =>
    have hnone := h.unarmed_of_status ht (by simp [hst])
    have huser := h.user_of_status ht (by simp [hst])
    exact .of_live (hborn t ht) rfl (h.timer t ht) (fun ha => Bool.noConfusion (hnone.symm.trans ha))
      (h.ping t ht) fun howner => Owner.noConfusion (huser.symm.trans howner)
  | submit t armed ht hst =>
    have htimer : (t.submitted armed).timeoutTimer = (l.armed || armed) := by
      rw [Bool.or_comm, ← h.timer t ht]
      rfl
    have huser := h.user_of_status ht (by simp [hst])
    exact .of_live (hborn t ht) rfl htimer (fun _ => ⟨rfl, huser⟩) (h.ping t ht) fun _ => Or.inl rfl
  | noconnect t ht hst =>
    exact .of_live (hborn t ht) ht (h.timer t ht) (h.armed t ht) (h.ping t ht) (h.pingStatus t ht)
  | timeout t ht ha =>
    exact .of_live (hborn t ht) rfl rfl (fun ha => Bool.noConfusion ha) (h.ping t ht) (h.pingStatus t ht)
  | answer t msg data ht hst hmsg hp =>
    have hnone := h.killed ht
    exact .of_live (hborn t ht) rfl hnone.symm (fun ha => Bool.noConfusion (hnone.symm.trans ha))
      (fun hping => absurd hping hp) fun _ => Or.inr (storeResponse_status lib t data)
  | answerPing t msg data ht hst hmsg hp =>
    have howner := h.ping t ht hp
    exact .of_live (hborn t ht) rfl ((storeResponse_timeoutTimer lib t data).trans (h.timer t ht))
      (fun ha => Owner.noConfusion ((h.armed t ht ha).2.symm.trans howner))
      (fun _ => (storeResponse_owner lib t data).trans howner)
      fun _ => Or.inr (storeResponse_status lib t data)
  | fail t response ht hst hcode =>
    have hnone := h.killed ht
    exact .of_live (hborn t ht) rfl hnone.symm (fun ha => Bool.noConfusion (hnone.symm.trans ha))
      (h.ping t ht) fun _ => Or.inr rfl
  | defer t ht =>
    have hnone := h.killed ht
    exact .of_live (hborn t ht) rfl hnone.symm (fun ha => Bool.noConfusion (hnone.symm.trans ha))
      (h.ping t ht) (h.pingStatus t ht)
  | delete t ht => exact .of_gone rfl fun hb => absurd (hborn t ht) hb
  | drain t delayed ht hd => exact .of_gone rfl fun hb => absurd (hborn t ht) hb
  | drainDead delayed ht hd => exact .of_gone ht fun hb => (h.unborn hb).2
  | forgetPing =>
    exact ⟨fun hb => ⟨(h.unborn hb).1, id, (h.unborn hb).2.2⟩, h.timer, h.armed,
      fun _ _ hping => hping.elim, h.pingStatus⟩
  | destroy => exact .of_gone rfl fun hb => (h.unborn hb).2

/-- The order in which the events of one transaction are queued: the times it found no
connection, at most one timeout, at most one end. -/
structure WellOrdered (events : List EventType) (waits timeouts : ℕ) (ends : List EventType) :
    Prop where
  events : events = List.replicate waits .transNoconnect ++
    (List.replicate timeouts .transTimeout ++ ends)
  timeouts : timeouts ≤ 1
  ends : ends = [] ∨ ends = [.transDone] ∨ ends = [.transError]

/-- The events queued for a transaction fit its status. -/
structure Life.Told (l : Life) (waits timeouts : ℕ) (ends : List EventType) : Prop where
  order : WellOrdered (queuedTypes l.history) waits timeouts ends
  unborn : ¬l.born → waits = 0 ∧ timeouts = 0 ∧ ends = []
  new : ∀ t, l.trans = some t → t.status = .new → waits = 0 ∧ timeouts = 0 ∧ ends = []
  ready : ∀ t, l.trans = some t → t.status = .ready → timeouts = 0 ∧ ends = []
  pending : ∀ t, l.trans = some t → t.status = .pending → ends = [] ∧ (l.armed = true → timeouts = 0)
  done : ∀ t, l.trans = some t → t.status = .done → t.owner = .user → ends ≠ []

/-- A step that queues no event keeps the order. -/
theorem WellOrdered.append_nil {history later : List Obs} {waits timeouts : ℕ}
    {ends : List EventType} (h : WellOrdered (queuedTypes history) waits timeouts ends)
    (hlater : queuedTypes later = []) :
    WellOrdered (queuedTypes (history ++ later)) waits timeouts ends := by
  rw [queuedTypes_append, hlater, List.append_nil]
  exact h

/-- What has been queued for a transaction, by its status. -/
inductive Trans.Told (t : Trans) (armed : Bool) (waits timeouts : ℕ) (ends : List EventType) : Prop
  | new : t.status = .new → waits = 0 → timeouts = 0 → ends = [] → Told t armed waits timeouts ends
  | ready : t.status = .ready → timeouts = 0 → ends = [] → Told t armed waits timeouts ends
  | pending : t.status = .pending → ends = [] → (armed = true → timeouts = 0) →
      Told t armed waits timeouts ends
  | done : t.status = .done → (t.owner = .user → ends ≠ []) → Told t armed waits timeouts ends

/-- A live transaction whose events fit its status. -/
theorem Life.Told.of_live {t : Trans} {waits timeouts : ℕ} {ends : List EventType} (hborn : l.born)
    (ht : l.trans = some t) (horder : WellOrdered (queuedTypes l.history) waits timeouts ends)
    (htold : t.Told l.armed waits timeouts ends) : l.Told waits timeouts ends := by
  refine ⟨horder, fun hb => absurd hborn hb, ?_, ?_, ?_, ?_⟩
  all_goals
    intro u hu hst
    obtain rfl := Option.some.inj (ht.symm.trans hu)
    cases htold <;> simp_all

/-- A transaction that is not there. -/
theorem Life.Told.of_gone {waits timeouts : ℕ} {ends : List EventType} (hgone : l.trans = none)
    (horder : WellOrdered (queuedTypes l.history) waits timeouts ends)
    (hunborn : ¬l.born → waits = 0 ∧ timeouts = 0 ∧ ends = []) : l.Told waits timeouts ends := by
  refine ⟨horder, hunborn, ?_, ?_, ?_, ?_⟩
  all_goals
    intro t ht
    cases hgone.symm.trans ht

/-- The events of a live transaction fit its status. -/
theorem Life.Told.live {t : Trans} {waits timeouts : ℕ} {ends : List EventType}
    (h : l.Told waits timeouts ends) (ht : l.trans = some t) : t.Told l.armed waits timeouts ends := by
  cases hst : t.status with
  | new => exact .new hst (h.new t ht hst).1 (h.new t ht hst).2.1 (h.new t ht hst).2.2
  | ready => exact .ready hst (h.ready t ht hst).1 (h.ready t ht hst).2
  | pending => exact .pending hst (h.pending t ht hst).1 (h.pending t ht hst).2
  | done => exact .done hst (h.done t ht hst)

/-- The events fit the status, whatever becomes of the parameters, and without a timer too. -/
theorem Trans.Told.same {t t' : Trans} {armed armed' : Bool} {waits timeouts : ℕ} {ends : List EventType}
    (h : t.Told armed waits timeouts ends) (hst : t'.status = t.status) (howner : t'.owner = t.owner)
    (harmed : armed' = true → armed = true) : t'.Told armed' waits timeouts ends := by
  cases h with
  | new hnew hwaits htimeouts hends => exact .new (hst.trans hnew) hwaits htimeouts hends
  | ready hready htimeouts hends => exact .ready (hst.trans hready) htimeouts hends
  | pending hpending hends htimeouts =>
    exact .pending (hst.trans hpending) hends fun ha => htimeouts (harmed ha)
  | done hdone hends => exact .done (hst.trans hdone) fun huser => hends (howner.symm.trans huser)

/-- One step keeps the queued events and the status together. -/
theorem LifeStep.told {waits timeouts : ℕ} {ends : List EventType} (hstep : LifeStep lib q l l')
    (htimed : l.Timed) (h : l.Told waits timeouts ends) :
    ∃ waits' timeouts' ends', l'.Told waits' timeouts' ends' := by
  have hborn := fun t (ht : l.trans = some t) => htimed.born_of_live ht
  have horder := h.order
  cases hstep with
  | create id params hb =>
    obtain ⟨rfl, rfl, rfl⟩ := h.unborn hb
    exact ⟨0, 0, [], .of_live trivial rfl (horder.append_nil rfl) (.new rfl rfl rfl rfl)⟩
  | createPing id status hb =>
    obtain ⟨rfl, rfl, rfl⟩ := h.unborn hb
    exact ⟨0, 0, [], .of_live trivial rfl (horder.append_nil rfl) (.pending rfl rfl fun _ => rfl)⟩
  | edit t params timeoutS ht hst =>
    exact ⟨waits, timeouts, ends, .of_live (hborn t ht) rfl horder ((h.live ht).same rfl rfl id)⟩
  | accept t ht hst =>
    obtain ⟨-, rfl, rfl⟩ := h.new t ht hst
    exact ⟨waits, 0, [], .of_live (hborn t ht) rfl (horder.append_nil rfl) (.ready rfl rfl rfl)⟩
  | submit t armed ht hst =>
    obtain ⟨rfl, rfl⟩ := h.ready t ht hst
    exact ⟨waits, 0, [], .of_live (hborn t ht) rfl (horder.append_nil rfl)
      (.pending rfl rfl fun _ => rfl)⟩
  | noconnect t ht hst =>
    obtain ⟨rfl, rfl⟩ := h.ready t ht hst
    refine ⟨waits + 1, 0, [], .of_live (hborn t ht) ht ⟨?_, by decide, Or.inl rfl⟩ (.ready hst rfl rfl)⟩
    rw [queuedTypes_append, horder.events, List.replicate_succ']
    simp [queuedTypes, Obs.queuedType]
  | timeout t ht ha =>
    obtain ⟨hst, howner⟩ := htimed.armed t ht ha
    obtain ⟨rfl, hzero⟩ := h.pending t ht hst
    obtain rfl := hzero ha
    refine ⟨waits, 1, [], .of_live (hborn t ht) rfl ⟨?_, le_rfl, Or.inl rfl⟩
      (.pending hst rfl fun harmed => Bool.noConfusion harmed)⟩
    rw [queuedTypes_append, horder.events]
    simp [queuedTypes, Obs.queuedType]
  | answer t msg data ht hst hmsg hp =>
    obtain ⟨rfl, -⟩ := h.pending t ht hst
    refine ⟨waits, timeouts, [.transDone], .of_live (hborn t ht) rfl
      ⟨?_, horder.timeouts, Or.inr (Or.inl rfl)⟩ (.done (storeResponse_status lib t data) fun _ => by simp)⟩
    rw [queuedTypes_append, horder.events]
    simp [queuedTypes, Obs.queuedType, List.filterMap_cons]
  | answerPing t msg data ht hst hmsg hp =>
    have howner := (storeResponse_owner lib t data).trans (htimed.ping t ht hp)
    exact ⟨waits, timeouts, ends, .of_live (hborn t ht) rfl (horder.append_nil rfl)
      (.done (storeResponse_status lib t data) fun huser => Owner.noConfusion (howner.symm.trans huser))⟩
  | fail t response ht hst hcode =>
    obtain ⟨rfl, -⟩ := h.pending t ht hst
    refine ⟨waits, timeouts, [.transError], .of_live (hborn t ht) rfl
      ⟨?_, horder.timeouts, Or.inr (Or.inr rfl)⟩ (.done rfl fun _ => by simp)⟩
    rw [queuedTypes_append, horder.events]
    simp [queuedTypes, Obs.queuedType]
  | defer t ht =>
    exact ⟨waits, timeouts, ends, .of_live (hborn t ht) rfl (horder.append_nil rfl)
      ((h.live ht).same rfl rfl fun ha => (Bool.and_eq_true_iff.mp ha).1)⟩
  | delete t ht =>
    exact ⟨waits, timeouts, ends, .of_gone rfl (horder.append_nil rfl) fun hb => absurd (hborn t ht) hb⟩
  | drain t delayed ht hd =>
    exact ⟨waits, timeouts, ends, .of_gone rfl (horder.append_nil rfl) fun hb => absurd (hborn t ht) hb⟩
  | drainDead delayed ht hd => exact ⟨waits, timeouts, ends, .of_gone ht horder h.unborn⟩
  | forgetPing =>
    exact ⟨waits, timeouts, ends, horder, h.unborn, h.new, h.ready, h.pending, h.done⟩
  | destroy => exact ⟨waits, timeouts, ends, .of_gone rfl (horder.append_nil rfl) h.unborn⟩

/-- When the request of a transaction has gone out, judged by its status. -/
structure Life.Sent (lib : Mstdlib) (q : Ptr) (l : Life) : Prop where
  unborn : ¬l.born → .accepted q ∉ l.history ∧ ∀ owner status frame,
    .framed q owner status frame ∉ l.history
  new : ∀ t, l.trans = some t → t.status = .new → .accepted q ∉ l.history
  waiting : ∀ t, l.trans = some t → t.status = .new ∨ t.status = .ready → ∀ owner status frame,
    .framed q owner status frame ∉ l.history
  sent : ∀ t, l.trans = some t → t.status = .pending ∨ t.status = .done →
    ∃ status params, .framed q t.owner status (requestFrame lib t.transId params) ∈ l.history

/-- What has been recorded about the request of a transaction, by its status. -/
inductive Trans.SentAt (lib : Mstdlib) (q : Ptr) (t : Trans) (history : List Obs) : Prop
  | new : t.status = .new → .accepted q ∉ history →
      (∀ owner status frame, .framed q owner status frame ∉ history) → SentAt lib q t history
  | ready : t.status = .ready → (∀ owner status frame, .framed q owner status frame ∉ history) →
      SentAt lib q t history
  | out (status : ConnStatus) (params : HashDict) : t.status = .pending ∨ t.status = .done →
      .framed q t.owner status (requestFrame lib t.transId params) ∈ history → SentAt lib q t history

/-- A live transaction whose request fits its status. -/
theorem Life.Sent.of_live {t : Trans} (hborn : l.born) (ht : l.trans = some t)
    (hsent : t.SentAt lib q l.history) : l.Sent lib q := by
  have hsame : ∀ u, l.trans = some u → u = t := fun u hu => Option.some.inj (hu.symm.trans ht)
  refine ⟨fun hb => absurd hborn hb, fun u hu hst => ?_, fun u hu hst => ?_, fun u hu hst => ?_⟩ <;>
    obtain rfl := hsame u hu
  · cases hsent with
    | new _ hold _ => exact hold
    | ready hready _ => simp [hready] at hst
    | out _ _ hgone _ => simp [hst] at hgone
  · cases hsent with
    | new _ _ hwait => exact hwait
    | ready _ hwait => exact hwait
    | out _ _ hgone _ => rcases hgone with hgone | hgone <;> simp [hgone] at hst
  · cases hsent with
    | new hnew _ _ => simp [hnew] at hst
    | ready hready _ => simp [hready] at hst
    | out status params _ hmem => exact ⟨status, params, hmem⟩

/-- A transaction that is not there. -/
theorem Life.Sent.of_gone (hgone : l.trans = none)
    (hunborn : ¬l.born → .accepted q ∉ l.history ∧ ∀ owner status frame,
      .framed q owner status frame ∉ l.history) : l.Sent lib q := by
  refine ⟨hunborn, ?_, ?_, ?_⟩
  all_goals
    intro t ht
    cases hgone.symm.trans ht

/-- The request of a live transaction fits its status. -/
theorem Life.Sent.live {t : Trans} (h : l.Sent lib q) (ht : l.trans = some t) : t.SentAt lib q l.history := by
  have hout : t.status = .pending ∨ t.status = .done → t.SentAt lib q l.history := by
    intro hst
    obtain ⟨status, params, hmem⟩ := h.sent t ht hst
    exact .out status params hst hmem
  cases hst : t.status with
  | new => exact .new hst (h.new t ht hst) (h.waiting t ht (Or.inl hst))
  | ready => exact .ready hst (h.waiting t ht (Or.inr hst))
  | pending => exact hout (Or.inl hst)
  | done => exact hout (Or.inr hst)

/-- What is recorded besides requests leaves them what they are, whatever becomes of the other fields. -/
theorem Trans.SentAt.same {t t' : Trans} {history : List Obs} (h : t.SentAt lib q history)
    (later : List Obs) (haccepted : .accepted q ∉ later)
    (hframed : ∀ owner status frame, .framed q owner status frame ∉ later) (hst : t'.status = t.status)
    (howner : t'.owner = t.owner) (hid : t'.transId = t.transId) : t'.SentAt lib q (history ++ later) := by
  have hnone : (∀ owner status frame, .framed q owner status frame ∉ history) →
      ∀ owner status frame, .framed q owner status frame ∉ history ++ later := by
    intro hold owner status frame hmem
    exact (List.mem_append.mp hmem).elim (hold owner status frame) (hframed owner status frame)
  cases h with
  | new hnew hold hwait =>
    refine .new (hst.trans hnew) (fun hmem => ?_) (hnone hwait)
    exact (List.mem_append.mp hmem).elim hold haccepted
  | ready hready hwait => exact .ready (hst.trans hready) (hnone hwait)
  | out status params hgone hmem =>
    exact .out status params (hst ▸ hgone) (List.mem_append_left _ (howner ▸ hid ▸ hmem))

/-- A pending transaction that is completed has been sent. -/
theorem Life.Sent.completed {t : Trans} (h : l.Sent lib q) (ht : l.trans = some t)
    (hpending : t.status = .pending) (t' : Trans) (hdone : t'.status = .done) (howner : t'.owner = t.owner)
    (hid : t'.transId = t.transId) (later : List Obs) : t'.SentAt lib q (l.history ++ later) := by
  obtain ⟨status, params, hmem⟩ := h.sent t ht (Or.inl hpending)
  exact .out status params (Or.inr hdone) (List.mem_append_left _ (howner ▸ hid ▸ hmem))

/-- One step keeps the request and the status together. -/
theorem LifeStep.sent (hstep : LifeStep lib q l l') (htimed : l.Timed) (h : l.Sent lib q) :
    l'.Sent lib q := by
  have hborn := fun t (ht : l.trans = some t) => htimed.born_of_live ht
  cases hstep with
  | create id params hb =>
    obtain ⟨haccepted, hframed⟩ := h.unborn hb
    exact .of_live trivial rfl (.new rfl (by simpa using haccepted) (by simpa using hframed))
  | createPing id status hb =>
    exact .of_live trivial rfl (.out status pingParams (Or.inl rfl)
      (List.mem_append_right _ (List.mem_cons_of_mem _ (List.mem_singleton_self _))))
  | edit t params timeoutS ht hst =>
    refine .of_live (hborn t ht) rfl ?_
    rw [← List.append_nil l.history]
    exact (h.live ht).same [] List.not_mem_nil (fun _ _ _ => List.not_mem_nil) rfl rfl rfl
  | accept t ht hst =>
    have hwait := h.waiting t ht (Or.inl hst)
    exact .of_live (hborn t ht) rfl (.ready rfl (by simpa using hwait))
  | submit t armed ht hst =>
    exact .of_live (hborn t ht) rfl (.out .connected (t.requestParams.getD .create) (Or.inl rfl)
      (List.mem_append_right _ (List.mem_singleton_self _)))
  | noconnect t ht hst =>
    exact .of_live (hborn t ht) ht ((h.live ht).same _ (by simp) (by simp) rfl rfl rfl)
  | timeout t ht ha =>
    exact .of_live (hborn t ht) rfl ((h.live ht).same _ (by simp) (by simp) rfl rfl rfl)
  | answer t msg data ht hst hmsg hp =>
    refine .of_live (hborn t ht) rfl (h.completed ht hst (storeResponse lib t data).unarmed ?_ ?_ ?_ _)
    · exact storeResponse_status lib t data
    · exact storeResponse_owner lib t data
    · exact storeResponse_transId lib t data
  | answerPing t msg data ht hst hmsg hp =>
    refine .of_live (hborn t ht) rfl (h.completed ht hst (storeResponse lib t data) ?_ ?_ ?_ _)
    · exact storeResponse_status lib t data
    · exact storeResponse_owner lib t data
    · exact storeResponse_transId lib t data
  | fail t response ht hst hcode =>
    exact .of_live (hborn t ht) rfl (h.completed ht hst (t.failed response).unarmed rfl rfl rfl _)
  | defer t ht =>
    exact .of_live (hborn t ht) rfl ((h.live ht).same _ (by simp) (by simp) rfl rfl rfl)
  | delete t ht => exact .of_gone rfl fun hb => absurd (hborn t ht) hb
  | drain t delayed ht hd => exact .of_gone rfl fun hb => absurd (hborn t ht) hb
  | drainDead delayed ht hd => exact .of_gone ht h.unborn
  | forgetPing => exact ⟨h.unborn, h.new, h.waiting, h.sent⟩
  | destroy => exact .of_gone rfl fun hb => by simpa using h.unborn hb

/-- The response fields hold the data of a message. -/
def Trans.carries (lib : Mstdlib) (t : Trans) (data : Bytes) : Prop :=
  t.responseType = connDetermineResponseType data ∧
    (t.responseType = .kv →
      t.responseParams = hashDictDeserialize lib data true equals lf dquote dquote) ∧
    (t.responseType ≠ .kv → t.responseRaw = some data)

/-- The response fields hold the denial that a lost connection makes up. -/
def Trans.denied (t : Trans) : Prop :=
  t.responseType = .kv ∧ ∃ response, t.responseParams = some response ∧
    response.getDirect (ascii "code") = some (ascii "DENY")

/-- A stored response carries its data. -/
theorem storeResponse_carries (t : Trans) (data : Bytes) :
    (storeResponse lib t data).carries lib data := by
  unfold storeResponse
  simp only
  split
  · rename_i hkv
    exact ⟨rfl, fun _ => rfl, fun hne => absurd hkv hne⟩
  · rename_i hne
    exact ⟨rfl, fun hkv => absurd hkv hne, fun _ => rfl⟩

/-- A completed transaction holds the data of a message that was read while it was pending, or the
made-up denial. -/
def Life.Answered (lib : Mstdlib) (q : Ptr) (l : Life) : Prop :=
  ∀ t, l.trans = some t → t.status = .done →
    (∃ msg data, .answered q .pending msg ∈ l.history ∧ readMsg lib msg = some (t.transId, data) ∧
      t.carries lib data) ∨ t.denied

/-- One step keeps track of where a response came from. -/
theorem LifeStep.answered (hstep : LifeStep lib q l l') (h : l.Answered lib q) :
    l'.Answered lib q := by
  have hkeep : ∀ (later : List Obs) (t t' : Trans), l.trans = some t → t'.status = t.status →
      t'.transId = t.transId → t'.responseType = t.responseType → t'.responseParams = t.responseParams →
      t'.responseRaw = t.responseRaw → t'.status = .done →
      (∃ msg data, .answered q .pending msg ∈ l.history ++ later ∧
        readMsg lib msg = some (t'.transId, data) ∧ t'.carries lib data) ∨ t'.denied := by
    intro later t t' ht hst hid htype hparams hraw hdone
    refine (h t ht (hst ▸ hdone)).imp ?_ ?_
    · rintro ⟨msg, data, hmem, hmsg, hcarries⟩
      refine ⟨msg, data, List.mem_append_left _ hmem, hid ▸ hmsg, ?_⟩
      simpa only [Trans.carries, htype, hparams, hraw] using hcarries
    · intro hdenied
      simpa only [Trans.denied, htype, hparams] using hdenied
  intro u hu hdone
  -- a transaction that the step leaves short of its completion says nothing about a response
  have hshort : ∀ t : Trans, some t = some u → t.status ≠ .done → False := by
    intro t ht hst
    obtain rfl := Option.some.inj ht
    exact hst hdone
  cases hstep with
  | create id params hb => exact (hshort _ hu TransStatus.noConfusion).elim
  | createPing id status hb => exact (hshort _ hu TransStatus.noConfusion).elim
  | edit t params timeoutS ht hst => exact (hshort _ hu (by simp [hst])).elim
  | accept t ht hst => exact (hshort _ hu TransStatus.noConfusion).elim
  | submit t armed ht hst => exact (hshort _ hu TransStatus.noConfusion).elim
  | noconnect t ht hst => exact hkeep _ u u hu rfl rfl rfl rfl rfl hdone
  | timeout t ht ha =>
    obtain rfl := Option.some.inj hu
    exact hkeep _ t t.unarmed ht rfl rfl rfl rfl rfl hdone
  | answer t msg data ht hst hmsg hp =>
    obtain rfl := Option.some.inj hu
    refine Or.inl ⟨msg, data, List.mem_append_right _ List.mem_cons_self, ?_,
      storeResponse_carries t data⟩
    change readMsg lib msg = some ((storeResponse lib t data).transId, data)
    rw [storeResponse_transId]
    exact hmsg
  | answerPing t msg data ht hst hmsg hp =>
    obtain rfl := Option.some.inj hu
    refine Or.inl ⟨msg, data, List.mem_append_right _ List.mem_cons_self, ?_,
      storeResponse_carries t data⟩
    rw [storeResponse_transId]
    exact hmsg
  | fail t response ht hst hcode =>
    obtain rfl := Option.some.inj hu
    exact Or.inr ⟨rfl, response, rfl, hcode⟩
  | defer t ht =>
    obtain rfl := Option.some.inj hu
    exact hkeep _ t t.unarmed ht rfl rfl rfl rfl rfl hdone
  | delete t ht => cases hu
  | drain t delayed ht hd => cases hu
  | drainDead delayed ht hd => exact h u hu hdone
  | forgetPing => exact h u hu hdone
  | destroy => cases hu

/-- A transaction that is gone was deleted, or went with its connection. -/
structure Life.Removed (q : Ptr) (l : Life) : Prop where
  gone : l.born → l.trans = none → .deleted q ∈ l.history ∨ .connFreed ∈ l.history
  delayed : l.delayed → .deleted q ∈ l.history

/-- A live transaction whose deferred deletion has been asked for. -/
theorem Life.Removed.of_live {t : Trans} (ht : l.trans = some t)
    (hdelayed : l.delayed → .deleted q ∈ l.history) :
    l.Removed q :=
  ⟨fun _ hgone => (by cases hgone.symm.trans ht), hdelayed⟩

/-- One step keeps the reason for a removal. -/
theorem LifeStep.removed (hstep : LifeStep lib q l l') (h : l.Removed q) : l'.Removed q := by
  have hlater : ∀ later, l.delayed → .deleted q ∈ l.history ++ later :=
    fun later hd => List.mem_append_left _ (h.delayed hd)
  cases hstep with
  | create id params hb => exact .of_live rfl (hlater _)
  | createPing id status hb => exact .of_live rfl (hlater _)
  | edit t params timeoutS ht hst => exact .of_live rfl h.delayed
  | accept t ht hst => exact .of_live rfl (hlater _)
  | submit t armed ht hst => exact .of_live rfl (hlater _)
  | noconnect t ht hst => exact .of_live ht (hlater _)
  | timeout t ht ha => exact .of_live rfl (hlater _)
  | answer t msg data ht hst hmsg hp => exact .of_live rfl (hlater _)
  | answerPing t msg data ht hst hmsg hp => exact .of_live rfl (hlater _)
  | fail t response ht hst hcode => exact .of_live rfl (hlater _)
  | defer t ht => exact .of_live rfl fun _ => List.mem_append_right _ (List.mem_singleton_self _)
  | delete t ht =>
    have hdeleted : .deleted q ∈ l.history ++ [.deleted q, .freed q] :=
      List.mem_append_right _ List.mem_cons_self
    exact ⟨fun _ _ => Or.inl hdeleted, fun _ => hdeleted⟩
  | drain t delayed ht hd => exact ⟨fun _ _ => Or.inl (hlater _ hd), fun _ => hlater _ hd⟩
  | drainDead delayed ht hd => exact ⟨fun _ _ => Or.inl (h.delayed hd), fun _ => h.delayed hd⟩
  | forgetPing => exact ⟨h.gone, h.delayed⟩
  | destroy =>
    exact ⟨fun _ _ => Or.inr (List.mem_append_right _ (List.mem_singleton_self _)), fun hd => hd.elim⟩

/-- What has been created stays created. -/
theorem LifeStep.born (hstep : LifeStep lib q l l') (hborn : l.born) : l'.born := by
  cases hstep <;> first | exact hborn | exact trivial

/-- What is gone stays gone, with the timer that it has left behind. -/
theorem LifeStep.gone (hstep : LifeStep lib q l l') (hborn : l.born) (hgone : l.trans = none) :
    l'.trans = none ∧ l'.armed = l.armed := by
  have hnone : ∀ t, l.trans = some t → False := fun t ht => by cases hgone.symm.trans ht
  cases hstep with
  | create id params hb => exact absurd hborn hb
  | createPing id status hb => exact absurd hborn hb
  | edit t params timeoutS ht hst => exact (hnone t ht).elim
  | accept t ht hst => exact (hnone t ht).elim
  | submit t armed ht hst => exact (hnone t ht).elim
  | noconnect t ht hst => exact (hnone t ht).elim
  | timeout t ht ha => exact (hnone t ht).elim
  | answer t msg data ht hst hmsg hp => exact (hnone t ht).elim
  | answerPing t msg data ht hst hmsg hp => exact (hnone t ht).elim
  | fail t response ht hst hcode => exact (hnone t ht).elim
  | defer t ht => exact (hnone t ht).elim
  | delete t ht => exact (hnone t ht).elim
  | drain t delayed ht hd => exact (hnone t ht).elim
  | drainDead delayed ht hd => exact ⟨hgone, rfl⟩
  | forgetPing => exact ⟨hgone, rfl⟩
  | destroy => exact ⟨rfl, rfl⟩

/-- One step keeps the owner and the id, and moves the status forward. -/
theorem LifeStep.moved (hstep : LifeStep lib q l l') (htimed : l.Timed) {t t' : Trans}
    (ht : l.trans = some t) (ht' : l'.trans = some t') :
    t'.owner = t.owner ∧ t'.transId = t.transId ∧ t.status.rank ≤ t'.status.rank := by
  have hborn := htimed.born_of_live ht
  have hsame : ∀ u, l.trans = some u → t = u := fun u hu => Option.some.inj (ht.symm.trans hu)
  have hrank : ∀ status : TransStatus, status.rank ≤ TransStatus.done.rank := by
    intro status
    cases status <;> decide
  cases hstep with
  | create id params hb => exact absurd hborn hb
  | createPing id status hb => exact absurd hborn hb
  | edit u params timeoutS hu hst =>
    obtain rfl := hsame u hu
    obtain rfl := Option.some.inj ht'
    exact ⟨rfl, rfl, le_rfl⟩
  | accept u hu hst =>
    obtain rfl := hsame u hu
    obtain rfl := Option.some.inj ht'
    exact ⟨rfl, rfl, by rw [hst]; exact (by decide : TransStatus.new.rank ≤ TransStatus.ready.rank)⟩
  | submit u armed hu hst =>
    obtain rfl := hsame u hu
    obtain rfl := Option.some.inj ht'
    exact ⟨rfl, rfl, by rw [hst]; exact (by decide : TransStatus.ready.rank ≤ TransStatus.pending.rank)⟩
  | noconnect u hu hst =>
    obtain rfl := hsame t' ht'
    exact ⟨rfl, rfl, le_rfl⟩
  | timeout u hu ha =>
    obtain rfl := hsame u hu
    obtain rfl := Option.some.inj ht'
    exact ⟨rfl, rfl, le_rfl⟩
  | answer u msg data hu hst hmsg hp =>
    obtain rfl := hsame u hu
    obtain rfl := Option.some.inj ht'
    refine ⟨storeResponse_owner lib t data, storeResponse_transId lib t data, ?_⟩
    exact (hrank t.status).trans (congrArg TransStatus.rank (storeResponse_status lib t data)).ge
  | answerPing u msg data hu hst hmsg hp =>
    obtain rfl := hsame u hu
    obtain rfl := Option.some.inj ht'
    refine ⟨storeResponse_owner lib t data, storeResponse_transId lib t data, ?_⟩
    exact (hrank t.status).trans (congrArg TransStatus.rank (storeResponse_status lib t data)).ge
  | fail u response hu hst hcode =>
    obtain rfl := hsame u hu
    obtain rfl := Option.some.inj ht'
    exact ⟨rfl, rfl, hrank t.status⟩
  | defer u hu =>
    obtain rfl := hsame u hu
    obtain rfl := Option.some.inj ht'
    exact ⟨rfl, rfl, le_rfl⟩
  | delete u hu => cases ht'
  | drain u delayed hu hd => cases ht'
  | drainDead delayed hu hd =>
    obtain rfl := hsame t' ht'
    exact ⟨rfl, rfl, le_rfl⟩
  | forgetPing =>
    obtain rfl := hsame t' ht'
    exact ⟨rfl, rfl, le_rfl⟩
  | destroy => cases ht'

section Runs

open Foundation

variable {s s' : TransStore}

/-- A sequence of steps on a store as one transaction sees it. -/
theorem StoreSteps.life (h : StoreSteps lib s s') (hrep : Rep s) (q : Ptr) :
    LifeSteps lib q (s.life q) (s'.life q) := by
  induction h with
  | refl => exact .refl
  | @tail mid last hfirst hlast ih =>
    rcases hlast.seen (StoreSteps.rep hfirst hrep) q with hsame | hmoved
    · rw [hsame]
      exact ih
    · exact ih.tail hmoved

/-- A sequence of steps keeps timer and status together. -/
theorem LifeSteps.timed (h : LifeSteps lib q l l') (htimed : l.Timed) : l'.Timed :=
  invariant_of_steps (fun _ _ hstep hl => hstep.timed hl) h htimed

/-- What has been created stays created. -/
theorem LifeSteps.born (h : LifeSteps lib q l l') (hborn : l.born) : l'.born :=
  invariant_of_steps (fun _ _ hstep hl => hstep.born hl) h hborn

/-- What is gone stays gone, with the timer that it has left behind. -/
theorem LifeSteps.gone (h : LifeSteps lib q l l') (hborn : l.born) (hgone : l.trans = none) :
    l'.trans = none ∧ l'.armed = l.armed := by
  have hall : l'.born ∧ l'.trans = none ∧ l'.armed = l.armed := by
    refine invariant_of_steps (P := fun k => k.born ∧ k.trans = none ∧ k.armed = l.armed) ?_ h
      ⟨hborn, hgone, rfl⟩
    rintro mid last hstep ⟨hb, hg, ha⟩
    obtain ⟨hgone', harmed⟩ := hstep.gone hb hg
    exact ⟨hstep.born hb, hgone', harmed.trans ha⟩
  exact hall.2

/-- A sequence of steps keeps the owner and the id, and moves the status forward. -/
theorem LifeSteps.moved (h : LifeSteps lib q l l') (htimed : l.Timed) {t t' : Trans}
    (ht : l.trans = some t) (ht' : l'.trans = some t') :
    t'.owner = t.owner ∧ t'.transId = t.transId ∧ t.status.rank ≤ t'.status.rank := by
  have hall : l'.born ∧ l'.Timed ∧ ∀ u, l'.trans = some u →
      u.owner = t.owner ∧ u.transId = t.transId ∧ t.status.rank ≤ u.status.rank := by
    refine invariant_of_steps (P := fun k => k.born ∧ k.Timed ∧ ∀ u, k.trans = some u →
      u.owner = t.owner ∧ u.transId = t.transId ∧ t.status.rank ≤ u.status.rank) ?_ h ?_
    · rintro mid last hstep ⟨hborn, hmid, hmoved⟩
      refine ⟨hstep.born hborn, hstep.timed hmid, fun u hu => ?_⟩
      cases hlive : mid.trans with
      | none =>
        rw [(hstep.gone hborn hlive).1] at hu
        cases hu
      | some v =>
        obtain ⟨howner, hid, hrank⟩ := hmoved v hlive
        obtain ⟨howner', hid', hrank'⟩ := hstep.moved hmid hlive hu
        exact ⟨howner'.trans howner, hid'.trans hid, hrank.trans hrank'⟩
    · refine ⟨htimed.born_of_live ht, htimed, fun u hu => ?_⟩
      obtain rfl := Option.some.inj (ht.symm.trans hu)
      exact ⟨rfl, rfl, le_rfl⟩
  exact hall.2.2 t' ht'

/-- Nothing has happened to a transaction of a new connection. -/
theorem life_empty (q : Ptr) : TransStore.empty.life q = ⟨False, none, False, false, False, []⟩ := by
  simp [TransStore.life, TransStore.empty, historyOf]

/-- What a run keeps for one transaction. -/
structure Life.Ok (lib : Mstdlib) (q : Ptr) (l : Life) : Prop where
  timed : l.Timed
  told : ∃ waits timeouts ends, l.Told waits timeouts ends
  sent : l.Sent lib q
  answered : l.Answered lib q
  removed : l.Removed q

/-- One step keeps all of it. -/
theorem LifeStep.ok (hstep : LifeStep lib q l l') (h : l.Ok lib q) : l'.Ok lib q := by
  obtain ⟨waits, timeouts, ends, htold⟩ := h.told
  exact ⟨hstep.timed h.timed, hstep.told h.timed htold, hstep.sent h.timed h.sent,
    hstep.answered h.answered, hstep.removed h.removed⟩

/-- Nothing is out of order in a new connection. -/
theorem life_empty_ok (q : Ptr) : (TransStore.empty.life q).Ok lib q := by
  rw [life_empty]
  have hnone : ∀ t : Trans, (none : Option Trans) ≠ some t := fun t ht => by cases ht
  exact ⟨⟨fun _ => ⟨rfl, id, rfl⟩, fun t ht => absurd ht (hnone t), fun t ht => absurd ht (hnone t),
      fun t ht => absurd ht (hnone t), fun t ht => absurd ht (hnone t)⟩,
    ⟨0, 0, [], ⟨rfl, by decide, Or.inl rfl⟩, fun _ => ⟨rfl, rfl, rfl⟩, fun t ht => absurd ht (hnone t),
      fun t ht => absurd ht (hnone t), fun t ht => absurd ht (hnone t), fun t ht => absurd ht (hnone t)⟩,
    ⟨fun _ => ⟨by simp, by simp⟩, fun t ht => absurd ht (hnone t), fun t ht => absurd ht (hnone t),
      fun t ht => absurd ht (hnone t)⟩,
    fun t ht => absurd ht (hnone t), ⟨fun h => h.elim, fun h => h.elim⟩⟩

/-- A store that is well formed and whose transactions are all in order. -/
structure TransStore.Ok (lib : Mstdlib) (s : TransStore) : Prop where
  rep : Rep s
  life : ∀ q, (s.life q).Ok lib q

/-- Every step keeps a store in order. -/
theorem StoreStep.ok (hstep : StoreStep lib s s') (h : s.Ok lib) : s'.Ok lib := by
  refine ⟨hstep.rep h.rep, fun q => ?_⟩
  rcases hstep.seen h.rep q with hsame | hmoved
  · rw [hsame]
    exact h.life q
  · exact hmoved.ok (h.life q)

/-- The store of a reached state is in order. -/
theorem Running.ok {s : Sys} (h : Running lib s) : s.conn.toTransStore.Ok lib :=
  invariant_of_steps (fun _ _ hstep hs => hstep.ok hs) h.steps ⟨Rep.empty, life_empty_ok⟩

/-- In a reached state every transaction is in order. -/
theorem Running.life {s : Sys} (h : Running lib s) (q : Ptr) :
    (s.conn.toTransStore.life q).Ok lib q := h.ok.life q

end Runs

end LibMonetra
