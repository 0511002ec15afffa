import LibMonetra.StoreFields
import Mathlib.Data.List.Nodup

/-!
# The representation invariant of the transaction store

Every live transaction is in the queue of its status, or waits for its deferred clean-up; the
queues hold live transactions of their status, each once; the id map is the inverse of the id
field; and no request survives its submission. Each kind of update has one preservation lemma.
-/

namespace LibMonetra

/-- The representation invariant. -/
structure Rep (s : TransStore) : Prop where
  fresh : ∀ p t, s.heap p = some t → p < s.nextPtr
  queued : ∀ status p, p ∈ s.connQueue status → ∃ t, s.heap p = some t ∧ t.status = status
  nodup : ∀ status, (s.connQueue status).Nodup
  placed : ∀ p t, s.heap p = some t → p ∈ s.connQueue t.status ∨ p ∈ s.transDelayRm
  mapped : ∀ p t, s.heap p = some t → s.transIdMap t.transId = some p
  mapLive : ∀ id p, s.transIdMap id = some p → ∃ t, s.heap p = some t ∧ t.transId = id
  idRange : ∀ p t, s.heap p = some t → 1 ≤ t.transId ∧ t.transId < 2 ^ 32 - 1
  params : ∀ p t, s.heap p = some t → t.status = .pending ∨ t.status = .done →
    t.requestParams = none

namespace Rep

variable {s s' : TransStore}

/-- A queue member is live and has the status of the queue. -/
theorem status_of_mem (h : Rep s) {status : TransStatus} {p : Ptr} {t : Trans}
    (hp : p ∈ s.connQueue status) (ht : s.heap p = some t) : t.status = status := by
  obtain ⟨u, hu, hstatus⟩ := h.queued status p hp
  rw [ht, Option.some.injEq] at hu
  exact hu ▸ hstatus

/-- Two live transactions with one id are the same transaction. -/
theorem id_inj (h : Rep s) {p q : Ptr} {t u : Trans} (hp : s.heap p = some t)
    (hq : s.heap q = some u) (hid : t.transId = u.transId) : p = q := by
  have hmap := h.mapped p t hp
  rw [hid, h.mapped q u hq, Option.some.injEq] at hmap
  exact hmap.symm

/-- Updates outside the heap, the queues and the id map that keep the deferred deletions of live
transactions. -/
theorem congr (h : Rep s) (hheap : s'.heap = s.heap) (hnext : s'.nextPtr = s.nextPtr)
    (hqueue : ∀ status, s'.connQueue status = s.connQueue status)
    (hmap : s'.transIdMap = s.transIdMap)
    (hdelay : ∀ p t, s.heap p = some t → p ∈ s.transDelayRm → p ∈ s'.transDelayRm) : Rep s' where
  fresh := by rw [hheap, hnext]; exact h.fresh
  queued := by intro status p; rw [hqueue, hheap]; exact h.queued status p
  nodup := by intro status; rw [hqueue]; exact h.nodup status
  placed := by
    intro p t ht
    rw [hheap] at ht
    rw [hqueue]
    exact (h.placed p t ht).imp_right (hdelay p t ht)
  mapped := by rw [hheap, hmap]; exact h.mapped
  mapLive := by rw [hheap, hmap]; exact h.mapLive
  idRange := by rw [hheap]; exact h.idRange
  params := by rw [hheap]; exact h.params

/-- A change of the fields of one transaction that keeps its id and its status. -/
theorem edit (h : Rep s) {p : Ptr} {t w : Trans} (ht : s.heap p = some t)
    (hid : w.transId = t.transId) (hstatus : w.status = t.status)
    (hparams : w.status = .pending ∨ w.status = .done → w.requestParams = none)
    (hheap : s'.heap = Function.update s.heap p (some w)) (hnext : s'.nextPtr = s.nextPtr)
    (hqueue : ∀ status, s'.connQueue status = s.connQueue status)
    (hmap : s'.transIdMap = s.transIdMap)
    (hdelay : ∀ q ∈ s.transDelayRm, q ∈ s'.transDelayRm) : Rep s' := by
  have hlive : ∀ q u, s'.heap q = some u → ∃ v, s.heap q = some v ∧ u.transId = v.transId ∧
      u.status = v.status ∧ (u.status = .pending ∨ u.status = .done → u.requestParams = none) := by
    intro q u hu
    rw [hheap, Function.update_apply] at hu
    split at hu
    · rename_i hq
      subst hq
      simp only [Option.some.injEq] at hu
      subst hu
      exact ⟨t, ht, hid, hstatus, hparams⟩
    · exact ⟨u, hu, rfl, rfl, h.params q u hu⟩
  have hback : ∀ q v, s.heap q = some v → ∃ u, s'.heap q = some u ∧ u.transId = v.transId ∧
      u.status = v.status := by
    intro q v hv
    rw [hheap, Function.update_apply]
    split
    · rename_i hq
      subst hq
      rw [ht, Option.some.injEq] at hv
      subst hv
      exact ⟨w, rfl, hid, hstatus⟩
    · exact ⟨v, hv, rfl, rfl⟩
  refine ⟨?_, ?_, ?_, ?_, ?_, ?_, ?_, ?_⟩
  · intro q u hu
    obtain ⟨v, hv, -⟩ := hlive q u hu
    rw [hnext]
    exact h.fresh q v hv
  · intro status q hq
    rw [hqueue] at hq
    obtain ⟨v, hv, hvs⟩ := h.queued status q hq
    obtain ⟨u, hu, -, hus⟩ := hback q v hv
    exact ⟨u, hu, hus.trans hvs⟩
  · intro status
    rw [hqueue]
    exact h.nodup status
  · intro q u hu
    obtain ⟨v, hv, -, hvs, -⟩ := hlive q u hu
    rw [hqueue, hvs]
    exact (h.placed q v hv).imp_right (hdelay q)
  · intro q u hu
    obtain ⟨v, hv, hvid, -⟩ := hlive q u hu
    rw [hmap, hvid]
    exact h.mapped q v hv
  · intro id q hq
    rw [hmap] at hq
    obtain ⟨v, hv, hvid⟩ := h.mapLive id q hq
    obtain ⟨u, hu, huid, -⟩ := hback q v hv
    exact ⟨u, hu, huid.trans hvid⟩
  · intro q u hu
    obtain ⟨v, hv, hvid, -⟩ := hlive q u hu
    rw [hvid]
    exact h.idRange q v hv
  · intro q u hu
    obtain ⟨-, -, -, -, hp⟩ := hlive q u hu
    exact hp

/-- A move between two different queues. -/
theorem move (h : Rep s) {p : Ptr} {t w : Trans} (ht : s.heap p = some t)
    (hid : w.transId = t.transId) (hne : w.status ≠ t.status)
    (hparams : w.status = .pending ∨ w.status = .done → w.requestParams = none) :
    Rep (s.move p t w) where
  fresh q u hu := by
    simp only [TransStore.heap_move, Function.update_apply, TransStore.nextPtr_move] at hu ⊢
    split at hu
    · rename_i hq
      exact hq ▸ h.fresh p t ht
    · exact h.fresh q u hu
  queued status q hq := by
    simp only [TransStore.connQueue_move, TransStore.heap_move, Function.update_apply,
      List.mem_append] at hq ⊢
    by_cases hqp : q = p
    · subst hqp
      refine ⟨w, if_pos rfl, ?_⟩
      -- the old queue has lost the transaction, so it is in the new one
      rcases hq with hq | hq
      · split at hq
        · exact absurd hq (h.nodup status).not_mem_erase
        · rename_i hst
          exact absurd (h.status_of_mem hq ht).symm hst
      · split at hq
        · rename_i hst
          exact hst.symm
        · simp at hq
    · rw [if_neg hqp]
      apply h.queued status q
      rcases hq with hq | hq
      · split at hq
        · exact List.mem_of_mem_erase hq
        · exact hq
      · split at hq
        · exact absurd (List.mem_singleton.mp hq) hqp
        · simp at hq
  nodup status := by
    simp only [TransStore.connQueue_move]
    by_cases hnew : status = w.status
    · have hold : status ≠ t.status := hnew ▸ hne
      rw [if_neg hold, if_pos hnew]
      refine List.Nodup.append (h.nodup status) (List.nodup_singleton p) ?_
      intro q hq hqp
      rw [List.mem_singleton.mp hqp] at hq
      exact hold (h.status_of_mem hq ht).symm
    · rw [if_neg hnew, List.append_nil]
      split
      · exact (h.nodup status).erase p
      · exact h.nodup status
  placed q u hu := by
    simp only [TransStore.heap_move, Function.update_apply, TransStore.connQueue_move,
      TransStore.transDelayRm_move, List.mem_append] at hu ⊢
    split at hu
    · rename_i hq
      simp only [Option.some.injEq] at hu
      subst hq hu
      exact Or.inl (Or.inr (by simp))
    · rename_i hq
      refine (h.placed q u hu).imp_left fun hmem => Or.inl ?_
      split
      · exact (List.mem_erase_of_ne hq).mpr hmem
      · exact hmem
  mapped q u hu := by
    simp only [TransStore.heap_move, Function.update_apply, TransStore.transIdMap_move] at hu ⊢
    split at hu
    · rename_i hq
      simp only [Option.some.injEq] at hu
      subst hq hu
      rw [hid]
      exact h.mapped q t ht
    · exact h.mapped q u hu
  mapLive id q hq := by
    simp only [TransStore.transIdMap_move, TransStore.heap_move, Function.update_apply] at hq ⊢
    obtain ⟨v, hv, hvid⟩ := h.mapLive id q hq
    by_cases hqp : q = p
    · subst hqp
      rw [ht, Option.some.injEq] at hv
      exact ⟨w, if_pos rfl, hid.trans (hv ▸ hvid)⟩
    · exact ⟨v, by rw [if_neg hqp]; exact hv, hvid⟩
  idRange q u hu := by
    simp only [TransStore.heap_move, Function.update_apply] at hu
    split at hu
    · simp only [Option.some.injEq] at hu
      rw [← hu, hid]
      exact h.idRange p t ht
    · exact h.idRange q u hu
  params q u hu := by
    simp only [TransStore.heap_move, Function.update_apply] at hu
    split at hu
    · simp only [Option.some.injEq] at hu
      exact hu ▸ hparams
    · exact h.params q u hu

/-- A new transaction under an unused id. -/
theorem create (h : Rep s) {t : Trans} (hid : s.transIdMap t.transId = none)
    (hrange : 1 ≤ t.transId ∧ t.transId < 2 ^ 32 - 1)
    (hparams : t.status = .pending ∨ t.status = .done → t.requestParams = none) :
    Rep (s.create t) := by
  have hlt : ∀ q u, s.heap q = some u → q ≠ s.nextPtr :=
    fun q u hu => Nat.ne_of_lt (h.fresh q u hu)
  have hmem : ∀ status q, q ∈ s.connQueue status → q ≠ s.nextPtr := by
    intro status q hq
    obtain ⟨u, hu, -⟩ := h.queued status q hq
    exact hlt q u hu
  refine ⟨?_, ?_, ?_, ?_, ?_, ?_, ?_, ?_⟩
  · intro q u hu
    simp only [TransStore.heap_create, TransStore.nextPtr_create, Function.update_apply] at hu ⊢
    split at hu
    · rename_i hq
      exact hq ▸ Nat.lt_succ_self _
    · exact Nat.lt_succ_of_lt (h.fresh q u hu)
  · intro status q hq
    simp only [TransStore.connQueue_create, List.mem_append, TransStore.heap_create,
      Function.update_apply] at hq ⊢
    rcases hq with hq | hq
    · rw [if_neg (hmem status q hq)]
      exact h.queued status q hq
    · split at hq
      · rename_i hst
        exact ⟨t, if_pos (List.mem_singleton.mp hq), hst.symm⟩
      · simp at hq
  · intro status
    simp only [TransStore.connQueue_create]
    refine List.Nodup.append (h.nodup status) (by split <;> simp) ?_
    intro q hq hqnew
    split at hqnew
    · exact hmem status q hq (List.mem_singleton.mp hqnew)
    · simp at hqnew
  · intro q u hu
    simp only [TransStore.heap_create, Function.update_apply, TransStore.connQueue_create,
      TransStore.transDelayRm_create, List.mem_append] at hu ⊢
    split at hu
    · rename_i hq
      simp only [Option.some.injEq] at hu
      subst hu
      exact Or.inl (Or.inr (by simp [hq]))
    · exact (h.placed q u hu).imp_left Or.inl
  · intro q u hu
    simp only [TransStore.heap_create, TransStore.transIdMap_create, Function.update_apply] at hu ⊢
    split at hu
    · rename_i hq
      simp only [Option.some.injEq] at hu
      subst hu
      rw [if_pos rfl, hq]
    · have hu' := h.mapped q u hu
      rw [if_neg fun hsame => by rw [hsame, hid] at hu'; cases hu']
      exact hu'
  · intro id q hq
    simp only [TransStore.transIdMap_create, TransStore.heap_create, Function.update_apply] at hq ⊢
    split at hq
    · rename_i hsame
      simp only [Option.some.injEq] at hq
      exact ⟨t, if_pos hq.symm, hsame.symm⟩
    · obtain ⟨u, hu, huid⟩ := h.mapLive id q hq
      exact ⟨u, by rw [if_neg (hlt q u hu)]; exact hu, huid⟩
  · intro q u hu
    simp only [TransStore.heap_create, Function.update_apply] at hu
    split at hu
    · simp only [Option.some.injEq] at hu
      exact hu ▸ hrange
    · exact h.idRange q u hu
  · intro q u hu
    simp only [TransStore.heap_create, Function.update_apply] at hu
    split at hu
    · simp only [Option.some.injEq] at hu
      exact hu ▸ hparams
    · exact h.params q u hu

/-- The end of a transaction; its own deferred deletion may go with it. -/
theorem free (h : Rep s) {p : Ptr} {t : Trans} (ht : s.heap p = some t)
    (hheap : s'.heap = Function.update s.heap p none) (hnext : s'.nextPtr = s.nextPtr)
    (hqueue : ∀ status, s'.connQueue status =
      if status = t.status then (s.connQueue status).erase p else s.connQueue status)
    (hmap : s'.transIdMap = Function.update s.transIdMap t.transId none)
    (hdelay : ∀ q ∈ s.transDelayRm, q ≠ p → q ∈ s'.transDelayRm) : Rep s' := by
  have hlive : ∀ q u, s'.heap q = some u → q ≠ p ∧ s.heap q = some u := by
    intro q u hu
    rw [hheap, Function.update_apply] at hu
    split at hu
    · cases hu
    · exact ⟨‹_›, hu⟩
  have hback : ∀ q u, q ≠ p → s.heap q = some u → s'.heap q = some u := by
    intro q u hq hu
    rw [hheap, Function.update_of_ne hq]
    exact hu
  have hmem : ∀ status q, q ∈ s'.connQueue status ↔ q ≠ p ∧ q ∈ s.connQueue status := by
    intro status q
    rw [hqueue]
    split
    · exact (h.nodup status).mem_erase_iff
    · rename_i hst
      refine ⟨fun hq => ⟨?_, hq⟩, fun hq => hq.2⟩
      rintro rfl
      exact hst (h.status_of_mem hq ht).symm
  refine ⟨?_, ?_, ?_, ?_, ?_, ?_, ?_, ?_⟩
  · intro q u hu
    rw [hnext]
    exact h.fresh q u (hlive q u hu).2
  · intro status q hq
    obtain ⟨hne, hq⟩ := (hmem status q).mp hq
    obtain ⟨u, hu, hus⟩ := h.queued status q hq
    exact ⟨u, hback q u hne hu, hus⟩
  · intro status
    rw [hqueue]
    split
    · exact (h.nodup status).erase p
    · exact h.nodup status
  · intro q u hu
    obtain ⟨hne, hu⟩ := hlive q u hu
    exact (h.placed q u hu).imp (fun hq => (hmem _ q).mpr ⟨hne, hq⟩) fun hq => hdelay q hq hne
  · intro q u hu
    obtain ⟨hne, hu⟩ := hlive q u hu
    rw [hmap, Function.update_of_ne fun hid => hne (h.id_inj hu ht hid)]
    exact h.mapped q u hu
  · intro id q hq
    rw [hmap, Function.update_apply] at hq
    split at hq
    · cases hq
    · rename_i hid
      obtain ⟨u, hu, huid⟩ := h.mapLive id q hq
      refine ⟨u, hback q u ?_ hu, huid⟩
      rintro rfl
      rw [ht, Option.some.injEq] at hu
      exact hid (hu ▸ huid).symm
  · intro q u hu
    exact h.idRange q u (hlive q u hu).2
  · intro q u hu
    exact h.params q u (hlive q u hu).2

/-- A new entry in the record of the run. -/
theorem log (h : Rep s) (o : Obs) : Rep (s.log o) :=
  h.congr rfl rfl (TransStore.connQueue_log s o) rfl fun _ _ _ hq => hq

/-- A new event of the running handler. -/
theorem connEventAdd (h : Rep s) (type : EventType) (p : Option Ptr) : Rep (s.connEventAdd type p) :=
  h.congr rfl rfl (fun status => TransStore.connQueue_connEventAdd s status type p) rfl
    fun _ _ _ hq => hq

/-- The end of a timeout timer. -/
theorem killTimeoutTimer (h : Rep s) {p : Ptr} {t : Trans} (ht : s.heap p = some t) :
    Rep (s.killTimeoutTimer p t) := by
  refine h.edit ht (w := { t with timeoutTimer := false }) rfl rfl (h.params p t ht)
    (TransStore.heap_killTimeoutTimer s p t ht) (TransStore.nextPtr_killTimeoutTimer s p t)
    (TransStore.connQueue_killTimeoutTimer s p t) (TransStore.transIdMap_killTimeoutTimer s p t) ?_
  intro q hq
  rw [TransStore.transDelayRm_killTimeoutTimer]
  exact hq

/-- The deferred deletion of a transaction, whose timeout timer goes at once. -/
theorem defer (h : Rep s) {p : Ptr} {t : Trans} (ht : s.heap p = some t) : Rep (s.defer p t) :=
  ((h.killTimeoutTimer ht).log (.deleted p)).congr rfl rfl (fun status => by cases status <;> rfl) rfl
    fun q _ _ hq => List.mem_append_left _ (by simpa [TransStore.log] using hq)

/-- A transaction whose deletion is put off may leave the queue of pending transactions early. -/
theorem takePending (h : Rep s) {p : Ptr} (hp : p ∈ s.transDelayRm) :
    Rep (s.queueTake .pending p) := by
  have hqueue : ∀ status q, q ∈ (s.queueTake .pending p).connQueue status → q ∈ s.connQueue status := by
    intro status q hq
    rw [TransStore.connQueue_queueTake] at hq
    split at hq
    · rename_i hst
      exact hst ▸ List.mem_of_mem_erase hq
    · exact hq
  refine ⟨h.fresh, fun status q hq => h.queued status q (hqueue status q hq), ?_, ?_, h.mapped,
    h.mapLive, h.idRange, h.params⟩
  · intro status
    rw [TransStore.connQueue_queueTake]
    split
    · exact (h.nodup .pending).erase p
    · exact h.nodup status
  · intro q u hu
    by_cases hqp : q = p
    · exact Or.inr (hqp ▸ hp)
    · refine (h.placed q u hu).imp_left fun hq => ?_
      rw [TransStore.connQueue_queueTake]
      split
      · rename_i hst
        exact (List.mem_erase_of_ne hqp).mpr (hst ▸ hq)
      · exact hq

/-- Nothing is left after the connection is freed. -/
theorem freeAll (s : TransStore) : Rep s.freeAll where
  fresh p t ht := by cases ht
  queued status p hp := by cases status <;> cases hp
  nodup status := by cases status <;> exact List.nodup_nil
  placed p t ht := by cases ht
  mapped p t ht := by cases ht
  mapLive id p hp := by cases hp
  idRange p t ht := by cases ht
  params p t ht := by cases ht

/-- A new connection has no transactions. -/
theorem empty : Rep .empty where
  fresh p t ht := by cases ht
  queued status p hp := by cases status <;> cases hp
  nodup status := by cases status <;> exact List.nodup_nil
  placed p t ht := by cases ht
  mapped p t ht := by cases ht
  mapLive id p hp := by cases hp
  idRange p t ht := by cases ht
  params p t ht := by cases ht

end Rep

/-- Every step of the library keeps the representation invariant. -/
theorem InternalStep.rep {lib : Mstdlib} {s s' : TransStore} (hstep : InternalStep lib s s')
    (h : Rep s) : Rep s' := by
  cases hstep with
  | createPing id status hid hlow hhigh =>
    refine Rep.congr (s := s.create { Trans.fresh id .ping with status := .pending })
      (h.create hid ⟨hlow, hhigh⟩ fun _ => rfl) rfl rfl (fun status => ?_) rfl fun _ _ _ hq => hq
    cases status <;> rfl
  | submit p t rest armed interval hready ht hst hevents =>
    refine Rep.congr (s := s.move p t (t.submitted armed)) ?_ rfl rfl ?_ rfl fun _ _ _ hq => hq
    · refine h.move ht rfl ?_ fun _ => rfl
      rw [hst]
      exact TransStatus.noConfusion
    · intro status
      cases status <;> rfl
  | noconnect p hp => exact h.connEventAdd _ _
  | timeout p t interval ht htimer =>
    exact h.edit ht (w := { t with timeoutTimer := false }) rfl rfl (h.params p t ht) rfl rfl
      (fun status => by cases status <;> rfl) rfl fun _ hq => hq
  | answer p t msg data ht hst hmsg hping =>
    have hmove : Rep (s.move p t (storeResponse lib t data)) := by
      refine h.move ht (storeResponse_transId lib t data) ?_ fun _ => ?_
      · rw [storeResponse_status, hst]
        decide
      · rw [storeResponse_requestParams]
        exact h.params p t ht (Or.inl hst)
    refine (((hmove.log _).log _).connEventAdd _ _).killTimeoutTimer ?_
    change (s.move p t (storeResponse lib t data)).heap p = _
    rw [TransStore.heap_move, Function.update_self]
  | answerPing p t msg data ht hst hmsg hping =>
    refine ((h.move ht (storeResponse_transId lib t data) ?_ fun _ => ?_).log _).log _
    · rw [storeResponse_status, hst]
      decide
    · rw [storeResponse_requestParams]
      exact h.params p t ht (Or.inl hst)
  | fail p t rest response hpending ht hst hcode =>
    have hmove : Rep (s.move p t (t.failed response)) := by
      refine h.move ht rfl ?_ fun _ => h.params p t ht (Or.inl hst)
      rw [hst]
      exact TransStatus.noConfusion
    refine (hmove.killTimeoutTimer ?_).connEventAdd _ _
    rw [TransStore.heap_move, Function.update_self]
  | retirePing p t ht hping =>
    exact (h.defer ht).takePending (List.mem_append_right _ (List.mem_singleton_self p))
  | drain p t rest hdelay ht =>
    refine h.free ht rfl ?_ (fun status => ?_) rfl fun q hq hne => ?_
    · simp
    · rw [TransStore.connQueue_free]
      cases status <;> rfl
    · rw [TransStore.transDelayRm_free]
      rw [hdelay, List.mem_cons] at hq
      exact hq.resolve_left hne
  | drainDead p rest hdelay hdead =>
    refine h.congr rfl rfl (fun status => by cases status <;> rfl) rfl fun q u hu hq => ?_
    rw [hdelay, List.mem_cons] at hq
    refine hq.resolve_left ?_
    rintro rfl
    rw [hdead] at hu
    cases hu
  | connEvent type htype => exact h.connEventAdd _ _
  | deliver e rest hevents =>
    exact h.congr rfl rfl (fun status => by cases status <;> rfl) rfl fun _ _ _ hq => hq
  | dropEvents =>
    exact h.congr rfl rfl (fun status => by cases status <;> rfl) rfl fun _ _ _ hq => hq
  | forgetPing =>
    exact h.congr rfl rfl (fun status => by cases status <;> rfl) rfl fun _ _ _ hq => hq
  | consume msg => exact h.log _

/-- Every step keeps the representation invariant. -/
theorem StoreStep.rep {lib : Mstdlib} {s s' : TransStore} (hstep : StoreStep lib s s') (h : Rep s) :
    Rep s' := by
  cases hstep with
  | create id params hid hlow hhigh =>
    refine (h.create hid ⟨hlow, hhigh⟩ ?_).log _
    rintro (hst | hst) <;> cases hst
  | edit p t params timeoutS ht hst =>
    refine h.edit ht (w := { t with requestParams := params, timeoutS := timeoutS }) rfl rfl ?_ rfl
      rfl (TransStore.connQueue_setTrans s p _) rfl fun _ hq => hq
    rintro (hst' | hst') <;> rw [hst] at hst' <;> cases hst'
  | accept p t ht hst =>
    refine (h.move ht (w := { t with status := .ready }) rfl ?_ ?_).log _
    · rw [hst]
      exact TransStatus.noConfusion
    · rintro (hst' | hst') <;> cases hst'
  | defer p t ht => exact h.defer ht
  | delete p t ht =>
    refine h.free ht ?_ ?_ (fun status => ?_) ?_ fun q hq _ => ?_
    · change Function.update (s.killTimeoutTimer p t).heap p none = _
      rw [TransStore.heap_killTimeoutTimer s p t ht, Function.update_idem]
    · simp [TransStore.log]
    · simp
    · simp [TransStore.log]
    · simpa [TransStore.log] using hq
  | destroy => exact Rep.freeAll s

  | internal s' hinternal => exact hinternal.rep h

end LibMonetra
