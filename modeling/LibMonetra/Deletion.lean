import LibMonetra.Fault
import LibMonetra.Timeout
import Mathlib.Data.List.Count

/-!
# Deferred deletion

A transaction that a callback deletes lives until the running handler drains its deferred deletions,
so that an event which is still to be delivered names a live transaction; the drain then frees it
once. This fails only for a transaction that is deleted a second time before the drain, for a ping that a
caller has deleted and that the connection then cleans up, and for a transaction that is freed while its
timeout timer is armed.
-/

namespace LibMonetra

open Foundation

variable {lib : Mstdlib}

/-- What a piece of the library that frees some transactions leaves alone: all the others. -/
structure Untouched (gone : List Ptr) (s s' : TransStore) : Prop where
  heap : ∀ q, q ∉ gone → s'.heap q = s.heap q
  queues : ∀ status, (s'.connQueue status).filter (· ∉ gone) = (s.connQueue status).filter (· ∉ gone)
  map : ∀ id q, q ∉ gone → (s'.transIdMap id = some q ↔ s.transIdMap id = some q)

section Untouched

variable {gone : List Ptr} {s s' s'' : TransStore} {p : Ptr} {t : Trans}

/-- Nothing is touched. -/
theorem Untouched.refl (gone : List Ptr) (s : TransStore) : Untouched gone s s :=
  ⟨fun _ _ => rfl, fun _ => rfl, fun _ _ _ => Iff.rfl⟩

/-- Two pieces that leave the others alone are one. -/
theorem Untouched.trans (h : Untouched gone s s') (h' : Untouched gone s' s'') : Untouched gone s s'' :=
  ⟨fun q hq => (h'.heap q hq).trans (h.heap q hq), fun status => (h'.queues status).trans (h.queues status),
    fun id q hq => (h'.map id q hq).trans (h.map id q hq)⟩

/-- An element that is filtered out may be erased before. -/
theorem filter_erase_of_mem (queue : List Ptr) (hp : p ∈ gone) :
    (queue.erase p).filter (· ∉ gone) = queue.filter (· ∉ gone) := by
  induction queue with
  | nil => rfl
  | cons q rest ih =>
    by_cases hq : q = p
    · simp [hq, hp]
    · rw [List.erase_cons_tail (by simpa using hq), List.filter_cons, List.filter_cons, ih]

/-- The end of one transaction leaves the others alone. -/
theorem untouched_free (hmap : s.transIdMap t.transId = some p) (hp : p ∈ gone) :
    Untouched gone s (s.free p t) where
  heap q hq := by
    rw [TransStore.heap_free, Function.update_of_ne]
    rintro rfl
    exact hq hp
  queues status := by
    rw [TransStore.connQueue_free]
    split
    · exact filter_erase_of_mem _ hp
    · rfl
  map id q hq := by
    rw [TransStore.transIdMap_free, Function.update_apply]
    split
    · rename_i hid
      rw [hid, hmap, Option.some.injEq]
      refine ⟨fun h => absurd h (by simp), fun h => ?_⟩
      exact absurd (h ▸ hp) hq
    · exact Iff.rfl

/-- The end of a timeout timer leaves the other transactions alone. -/
theorem untouched_killTimeoutTimer (ht : s.heap p = some t) : Untouched [p] s (s.killTimeoutTimer p t) where
  heap q hq := by
    rw [TransStore.heap_killTimeoutTimer s p t ht, Function.update_of_ne (by simpa using hq)]
  queues status := by simp
  map id q _ := by simp

/-- `LM_trans_delete` leaves the other transactions alone. -/
theorem untouched_transDelete {c : Conn} (hrep : Rep c.toTransStore) (p : Ptr) :
    Untouched [p] c.toTransStore (transDelete lib c p).toTransStore := by
  cases ht : c.heap p with
  | none =>
    rw [show transDelete lib c p = c by simp [transDelete, ht]]
    exact .refl _ _
  | some t =>
    have hkill := untouched_killTimeoutTimer ht
    by_cases hbusy : c.inUse = true
    · rw [transDelete_inUse ht hbusy]
      exact ⟨hkill.heap, hkill.queues, hkill.map⟩
    · rw [transDelete_idle ht (by simpa using hbusy)]
      have hfree := @untouched_free [p] ((c.toTransStore.killTimeoutTimer p t).log (.deleted p)) p t
        (by simpa [TransStore.log] using hrep.mapped p t ht) List.mem_cons_self
      have hlogged : Untouched [p] c.toTransStore
          ((c.toTransStore.killTimeoutTimer p t).log (.deleted p)) :=
        ⟨hkill.heap, hkill.queues, hkill.map⟩
      exact hlogged.trans hfree

end Untouched

section Drain

variable {c : Conn}

/-- The drain leaves everything but its list alone, records the end of every transaction on it, and
empties it. -/
theorem drainDelayRm_done (lib : Mstdlib) (delayed : List Ptr) (hdelay : c.transDelayRm = delayed)
    (hrep : Rep c.toTransStore) (hnodup : delayed.Nodup) (hlive : ∀ p ∈ delayed, c.heap p ≠ none)
    (gone : List Ptr) (hgone : ∀ p ∈ delayed, p ∈ gone) :
    Untouched gone c.toTransStore (drainDelayRm lib delayed c).toTransStore ∧
      (drainDelayRm lib delayed c).trace = c.trace ++ delayed.map .freed := by
  induction delayed generalizing c with
  | nil => exact ⟨.refl _ _, (List.append_nil _).symm⟩
  | cons p rest ih =>
    obtain ⟨hout, hrest⟩ := List.nodup_cons.mp hnodup
    obtain ⟨t, ht⟩ := Option.ne_none_iff_exists'.mp (hlive p List.mem_cons_self)
    have hstep := @InternalStep.drain lib c.toTransStore p t rest hdelay ht
    obtain ⟨timer, heq⟩ := @transDeleteUnlocked_eq lib { c with transDelayRm := rest } p t ht
    rw [drainDelayRm, heq]
    have hothers : ∀ q ∈ rest, Function.update c.heap p none q ≠ none := by
      intro q hq
      rw [Function.update_of_ne (show q ≠ p from fun h => hout (h ▸ hq))]
      exact hlive q (List.mem_cons_of_mem p hq)
    have hfree := @untouched_free gone { c.toTransStore with transDelayRm := rest } p t
      (hrep.mapped p t ht) (hgone p List.mem_cons_self)
    obtain ⟨huntouched, htrace⟩ := ih
      (c := { c with
        toTransStore := ({ c.toTransStore with transDelayRm := rest } : TransStore).free p t
        timer := timer }) (TransStore.transDelayRm_free _ p t) (hstep.rep hrep) hrest hothers
      fun q hq => hgone q (List.mem_cons_of_mem p hq)
    refine ⟨Untouched.trans ⟨hfree.heap, hfree.queues, hfree.map⟩ huntouched, ?_⟩
    rw [htrace]
    simp

end Drain

/-- Whether an action deletes a transaction whose deletion has already been put off. -/
def Action.deletesAgain (c : Conn) : Action → Bool
  | .transDelete p => c.transDelayRm.contains p
  | _ => false

/-- The runs without such actions. -/
def deletedOnce (lib : Mstdlib) : System Sys Action :=
  (monetra lib).restrict fun s a => !a.deletesAgain s.conn

/-- Whether an action is one of those that lead to a use of freed memory: a second deletion before the drain,
a clean-up of a ping that is gone, or the end of a transaction whose timeout timer is armed. -/
def Action.endangers (c : Conn) (a : Action) : Bool :=
  a.deletesAgain c || a.cleansGone c || a.orphansTimer c

/-- The same of a step of a process. A timer that was left behind fires when it does. -/
def Tick.endangers (c : Conn) : Tick → Bool
  | .library a => a.endangers c
  | .strayTimer _ => false

/-- The runs without such actions. -/
def careful (lib : Mstdlib) : System Process Tick :=
  (process lib).restrict fun w tick => !tick.endangers w.sys.conn

/-- What holds of the deletions in every reached state: an event that is still to be delivered names a
live transaction, and so does every deletion that is put off when the drain comes to it; and when no
handler runs, every deleted transaction is out of the queues and of the id map and has been freed exactly
once. -/
structure DeletedOnce (lib : Mstdlib) (s : Sys) : Prop where
  events : ∀ type p, ⟨type, some p⟩ ∈ s.conn.events → s.conn.heap p ≠ none
  drain : ∀ pre p post, s.conn.transDelayRm = pre ++ p :: post →
    (drainDelayRm lib pre s.conn).heap p ≠ none
  idle : s.conn.inUse = false → s.conn.transDelayRm = []
  gone : s.conn.inUse = false → ∀ p, .deleted p ∈ s.conn.trace →
    s.conn.heap p = none ∧ (∀ status, p ∉ s.conn.connQueue status) ∧
      (∀ id, s.conn.transIdMap id ≠ some p) ∧ s.conn.trace.count (.freed p) = 1

/-- The invariant behind it: a ledger of the transactions that are to be freed and that have been. -/
structure Ledger (s : Sys) : Prop where
  events : ∀ type p, ⟨type, some p⟩ ∈ s.conn.events → s.conn.heap p ≠ none
  delayed : ∀ p ∈ s.conn.transDelayRm, s.conn.heap p ≠ none
  nodup : s.conn.transDelayRm.Nodup
  live : ∀ p, s.conn.heap p ≠ none → s.conn.trace.count (.freed p) = 0
  unborn : ∀ p, s.conn.nextPtr ≤ p → s.conn.trace.count (.freed p) = 0
  deleted : ∀ p, .deleted p ∈ s.conn.trace →
    p ∈ s.conn.transDelayRm ∨ s.conn.trace.count (.freed p) = 1

section Runs

variable {s s' : Sys} {a : Action}

/-- A record that frees nothing frees no transaction. -/
theorem count_freed_of_kept {new : List Obs} (h : ∀ o ∈ new, o.frees = false) (p : Ptr) :
    new.count (.freed p) = 0 :=
  List.count_eq_zero.mpr fun hmem => Bool.noConfusion (h _ hmem)

/-- Outside a handler nothing waits to be delivered or drained. -/
theorem Running.rest (h : Running lib s) (hidle : s.conn.inUse = false) :
    s.pc.busy = false ∧ s.conn.events = [] ∧ s.conn.transDelayRm = [] := by
  have hpc : s.pc.busy = false := by
    by_contra hbusy
    rw [Bool.not_eq_false] at hbusy
    rw [h.link.busy hbusy] at hidle
    cases hidle
  obtain ⟨-, hevents, hdelay⟩ := h.link.rest hpc
  exact ⟨hpc, hevents, hdelay⟩

/-- An action that frees nothing keeps the ledger. -/
theorem Ledger.served (h : Ledger s) (hrunning : Running lib s) {new : List Obs}
    (hserved : Served s s' a new) (honce : a.deletesAgain s.conn = false) : Ledger s' := by
  obtain ⟨hnew, hdeletes⟩ := hserved
  have hlive : ∀ p, s.conn.heap p ≠ none → s'.conn.heap p ≠ none := by
    intro p hp
    rw [← Option.isSome_iff_ne_none] at hp ⊢
    exact (hnew.live p).mpr (Or.inl hp)
  have hcount : ∀ p, s'.conn.trace.count (.freed p) = s.conn.trace.count (.freed p) := by
    intro p
    rw [hnew.trace, List.count_append, count_freed_of_kept hnew.kept, Nat.add_zero]
  refine ⟨fun type p hp => ?_, fun p hp => ?_, ?_, fun p hp => ?_, fun p hp => ?_, fun p hp => ?_⟩
  · rw [hnew.events, List.mem_append] at hp
    rcases hp with hold | hlater
    · exact hlive p (h.events type p hold)
    · exact Option.isSome_iff_ne_none.mp (hnew.named type p hlater)
  · rw [hnew.delayed, List.mem_append] at hp
    rcases hp with hold | hlater
    · exact hlive p (h.delayed p hold)
    · exact Option.isSome_iff_ne_none.mp (hnew.deleted p hlater)
  · rw [hnew.delayed]
    rcases hdeletes with hnone | ⟨p, hone, hp⟩
    · rw [hnone, List.append_nil]
      exact h.nodup
    · rw [hone]
      refine List.Nodup.append h.nodup (List.nodup_singleton p) ?_
      rw [List.disjoint_singleton]
      rcases hp with rfl | ⟨-, hidle, -⟩
      · simpa [Action.deletesAgain] using honce
      · rw [(hrunning.link.rest (by rw [hidle]; rfl)).2.2]
        simp
  · rw [hcount]
    rw [← Option.isSome_iff_ne_none, hnew.live] at hp
    rcases hp with hold | hfresh
    · exact h.live p (Option.isSome_iff_ne_none.mp hold)
    · exact h.unborn p hfresh.1
  · rw [hcount]
    exact h.unborn p (hnew.next.trans hp)
  · rw [hnew.trace, List.mem_append] at hp
    rw [hcount, hnew.delayed, List.mem_append]
    rcases hp with hold | hlater
    · exact (h.deleted p hold).imp_left Or.inl
    · exact Or.inl (Or.inr (mem_deletedOf.mpr hlater))

/-- An action that frees some live transactions, all those whose deletion was put off among them, and
leaves nothing to deliver or to drain. -/
theorem Ledger.cleared (h : Ledger s) (hrunning : Running lib s) (gone : List Ptr)
    (hevents : s'.conn.events = []) (hdelay : s'.conn.transDelayRm = [])
    (hnext : s'.conn.nextPtr = s.conn.nextPtr)
    (hheap : ∀ q, s'.conn.heap q ≠ none → s.conn.heap q ≠ none ∧ q ∉ gone)
    (hcount : ∀ q, s'.conn.trace.count (.freed q) =
      s.conn.trace.count (.freed q) + if q ∈ gone then 1 else 0)
    (hdeleted : ∀ q, .deleted q ∈ s'.conn.trace → .deleted q ∈ s.conn.trace ∨ q ∈ gone)
    (hgone : ∀ q ∈ gone, s.conn.heap q ≠ none) (hall : ∀ q ∈ s.conn.transDelayRm, q ∈ gone) :
    Ledger s' where
  events type p hp := by simp [hevents] at hp
  delayed p hp := by simp [hdelay] at hp
  nodup := by simp [hdelay]
  live p hp := by
    obtain ⟨hlive, hout⟩ := hheap p hp
    rw [hcount, h.live p hlive, if_neg hout]
  unborn p hp := by
    rw [hnext] at hp
    have hout : p ∉ gone := by
      intro hmem
      obtain ⟨t, ht⟩ := Option.ne_none_iff_exists'.mp (hgone p hmem)
      exact absurd (hrunning.rep.fresh p t ht) (Nat.not_lt.mpr hp)
    rw [hcount, h.unborn p hp, if_neg hout]
  deleted p hp := by
    refine Or.inr ?_
    rw [hcount]
    by_cases hmem : p ∈ gone
    · rw [h.live p (hgone p hmem), if_pos hmem]
    · have hold := (hdeleted p hp).resolve_right hmem
      rw [(h.deleted p hold).resolve_left fun hd => hmem (hall p hd), if_neg hmem]

/-- The delivery of an event keeps the ledger. -/
theorem Ledger.delivered (h : Ledger s) (events : List Event) (new : List Obs)
    (hevents : ∀ e ∈ events, e ∈ s.conn.events) (hnew : ∀ o ∈ new, ∃ e, o = .callback e)
    (hstore : s'.conn.toTransStore =
      { s.conn.toTransStore with events := events, trace := s.conn.trace ++ new }) : Ledger s' := by
  have hcount : ∀ p, (s.conn.trace ++ new).count (.freed p) = s.conn.trace.count (.freed p) := by
    intro p
    have hnone := count_freed_of_kept (fun o ho => by obtain ⟨e, rfl⟩ := hnew o ho; rfl) p
    rw [List.count_append, hnone, Nat.add_zero]
  constructor
  · intro type p hp
    rw [hstore] at hp ⊢
    exact h.events type p (hevents _ hp)
  · rw [hstore]
    exact h.delayed
  · rw [hstore]
    exact h.nodup
  · intro p hp
    rw [hstore] at hp ⊢
    exact (hcount p).trans (h.live p hp)
  · intro p hp
    rw [hstore] at hp ⊢
    exact (hcount p).trans (h.unborn p hp)
  · intro p hp
    rw [hstore] at hp ⊢
    rw [List.mem_append] at hp
    rcases hp with hold | hlater
    · exact (h.deleted p hold).imp_right (hcount p).trans
    · obtain ⟨e, he⟩ := hnew _ hlater
      cases he

/-- Every action that deletes nothing a second time keeps the ledger. -/
theorem Ledger.step (h : Ledger s) (hrunning : Running lib s) (hstep : sysStep lib s a = some s')
    (honce : a.deletesAgain s.conn = false) : Ledger s' := by
  cases sysStep_turn hstep hrunning with
  | served new hclears hserved => exact h.served hrunning hserved honce
  | delivered e rest ha hpc hevents hstore =>
    exact h.delivered rest [.callback e]
      (fun e' he' => hevents ▸ List.mem_cons_of_mem e he') (by simp) hstore
  | returned ha hpc hstore =>
    refine h.delivered (if s.conn.destroy then [] else s.conn.events) []
      (fun e he => ?_) (by simp) (by simpa using hstore)
    split at he
    · cases he
    · exact he
  | deleted p t ha hidle ht hstore =>
    subst ha
    obtain ⟨-, hevents, hdelay⟩ := hrunning.rest hidle
    have hheap : s'.conn.heap = Function.update s.conn.heap p none := by
      rw [hstore, TransStore.heap_free]
      change Function.update (s.conn.toTransStore.killTimeoutTimer p t).heap p none = _
      rw [TransStore.heap_killTimeoutTimer _ p t ht, Function.update_idem]
    have htrace : s'.conn.trace = s.conn.trace ++ [.deleted p, .freed p] := by
      rw [hstore]
      simp [TransStore.log]
    refine h.cleared hrunning [p] ?_ ?_ ?_ (fun q hq => ?_) (fun q => ?_) (fun q hq => ?_)
      (fun q hq => ?_) fun q hq => ?_
    · rw [hstore]
      simp [TransStore.log, hevents]
    · rw [hstore]
      simp [TransStore.log, hdelay]
    · rw [hstore]
      simp [TransStore.log]
    · rw [hheap, Function.update_apply] at hq
      split at hq
      · exact absurd rfl hq
      · exact ⟨hq, by simpa using ‹¬q = p›⟩
    · rw [htrace, List.count_append]
      by_cases hq : q = p
      · subst hq
        simp
      · simp [hq, Ne.symm hq]
    · simpa [htrace] using hq
    · obtain rfl := List.mem_singleton.mp hq
      simp [ht]
    · simp [hdelay] at hq
  | drained ha hpc hevents hstore =>
    obtain ⟨-, htrace⟩ := drainDelayRm_done lib s.conn.transDelayRm rfl hrunning.rep h.nodup h.delayed
      s.conn.transDelayRm fun _ => id
    obtain ⟨d, timer, heq, -, hsame, hempty⟩ :=
      drainDelayRm_spec lib s.conn.transDelayRm s.conn rfl
    have hheap : ∀ q, s'.conn.heap q = if q ∈ s.conn.transDelayRm then none else s.conn.heap q := by
      intro q
      rw [hstore]
      exact drainDelayRm_heap lib s.conn.transDelayRm s.conn q
    rw [← hstore] at htrace
    refine h.cleared hrunning s.conn.transDelayRm ?_ ?_ ?_ (fun q hq => ?_) (fun q => ?_)
      (fun q hq => ?_) h.delayed fun _ => id
    · rw [hstore, heq]
      exact hsame.trans hevents
    · rw [hstore, heq]
      exact hempty
    · rw [hstore, (drainDelayRm_kept lib _ _).2.1]
    · rw [hheap] at hq
      split at hq
      · exact absurd rfl hq
      · exact ⟨hq, ‹_›⟩
    · rw [htrace, List.count_append]
      have hinj : Function.Injective Obs.freed := fun _ _ h => Obs.freed.inj h
      rw [List.count_map_of_injective _ Obs.freed hinj q, h.nodup.count]
    · rw [htrace, List.mem_append] at hq
      exact Or.inl (hq.resolve_right (by simp))
  | destroyed hdestroys hidle hfreed hstore =>
    obtain ⟨-, hevents, hdelay⟩ := hrunning.rest hidle
    refine h.cleared hrunning [] ?_ ?_ ?_ (fun q hq => ?_) (fun q => ?_) (fun q hq => ?_)
      (by simp) (by simp [hdelay])
    · rw [hstore]
      exact hevents
    · rw [hstore]
      rfl
    · rw [hstore]
      rfl
    · rw [hstore] at hq
      exact absurd rfl hq
    · rw [hstore]
      simp [TransStore.freeAll]
    · rw [hstore] at hq
      simpa [TransStore.freeAll] using hq

/-- The ledger says what holds of the deletions. -/
theorem Ledger.deletedOnce (h : Ledger s) (hrunning : Running lib s) : DeletedOnce lib s where
  events := h.events
  drain pre p post hsplit := by
    have hnodup := hsplit ▸ h.nodup
    have hout : p ∉ pre := fun hmem =>
      (List.nodup_append.mp hnodup).2.2 p hmem p List.mem_cons_self rfl
    rw [drainDelayRm_heap, if_neg hout]
    exact h.delayed p (by simp [hsplit])
  idle hidle := (hrunning.rest hidle).2.2
  gone hidle p hp := by
    have hdelay := (hrunning.rest hidle).2.2
    have hcount := (h.deleted p hp).resolve_left (by simp [hdelay])
    have hdead : s.conn.heap p = none := by
      by_contra hlive
      rw [h.live p hlive] at hcount
      cases hcount
    refine ⟨hdead, fun status hmem => ?_, fun id hid => ?_, hcount⟩
    · obtain ⟨t, ht, -⟩ := hrunning.rep.queued status p hmem
      rw [hdead] at ht
      cases ht
    · obtain ⟨t, ht, -⟩ := hrunning.rep.mapLive id p hid
      rw [hdead] at ht
      cases ht

/-- The ledger of every state that such a run reaches. -/
theorem ledger_of_reachable {s : Sys} (hs : (deletedOnce lib).Reachable s) : Ledger s := by
  refine System.Reachable.invariant (deletedOnce lib) ?_ ?_ hs
  · rintro s0 ⟨host, port, -, -, rfl⟩
    refine ⟨fun _ p hp => ?_, fun p hp => ?_, List.nodup_nil, fun p _ => rfl, fun p _ => rfl,
      fun p hp => ?_⟩ <;> cases hp
  · intro s0 a s1 hs0 hs0' hstep
    obtain ⟨hok, hstep⟩ := (monetra lib).restrict_step hstep
    exact hs0'.step (running_of_reachable (hs0.of_restrict (monetra lib))) hstep (by simpa using hok)

/-- A drain that comes to live transactions, each of them once, uses no freed memory. -/
theorem drainFaults_eq_nil (delayed : List Ptr) {c : Conn} (hnodup : delayed.Nodup)
    (hlive : ∀ p ∈ delayed, c.heap p ≠ none) : drainFaults lib delayed c = [] := by
  induction delayed generalizing c with
  | nil => rfl
  | cons p rest ih =>
    obtain ⟨hout, hrest⟩ := List.nodup_cons.mp hnodup
    have hthere : (c.heap p).isNone = false := by
      simpa [← Option.not_isSome] using Option.isSome_iff_ne_none.mpr (hlive p List.mem_cons_self)
    rw [drainFaults, hthere, if_neg Bool.false_ne_true, List.nil_append]
    refine ih hrest fun q hq => ?_
    rw [(transDeleteUnlocked_heap lib _ p).1, Function.update_of_ne (fun h : q = p => hout (h ▸ hq))]
    exact hlive q (List.mem_cons_of_mem p hq)

/-- An action that endangers nothing uses no freed memory. -/
theorem Ledger.faults_eq_nil (h : Ledger s) (hcareful : a.endangers s.conn = false) :
    a.faults lib s.conn = [] := by
  obtain ⟨⟨-, hclean⟩, -⟩ := by simpa only [Action.endangers, Bool.or_eq_false_iff] using hcareful
  unfold Action.faults
  split
  · exact drainFaults_eq_nil s.conn.transDelayRm h.nodup h.delayed
  · rw [hclean, if_neg Bool.false_ne_true]

/-- A timer whose transaction is live is not left behind. -/
theorem TimersLive.not_stray (h : TimersLive s) (p : Ptr) : timerStray s.conn p = false := by
  by_contra hstray
  rw [Bool.not_eq_false, timerStray, Bool.and_eq_true] at hstray
  obtain ⟨hgone, harmed⟩ := hstray
  obtain ⟨⟨q, interval⟩, htimer, hq⟩ := List.any_eq_true.mp harmed
  obtain rfl : q = p := by simpa using hq
  obtain ⟨t, ht, -⟩ := h q interval htimer
  simp [ht] at hgone

/-- A process that is careful uses no freed memory; and its library takes none of the actions that lead to
it. -/
theorem careful_reachable {w : Process} (hw : (careful lib).Reachable w) :
    w.faults = [] ∧ (deletedOnce lib).Reachable w.sys ∧ (timersKept lib).Reachable w.sys := by
  induction hw with
  | init hinit => exact ⟨hinit.2, .init hinit.1, .init hinit.1⟩
  | @step w w' tick _ hstep ih =>
    obtain ⟨-, honce, hkept⟩ := ih
    obtain ⟨hok, hstep⟩ := (process lib).restrict_step hstep
    obtain ⟨-, ⟨a, rfl, hnext, hfaults⟩ | ⟨p, -, hstray, -⟩⟩ := processStep_cases hstep
    · have hcareful : a.endangers w.sys.conn = false := by simpa [Tick.endangers] using hok
      obtain ⟨⟨hfirst, -⟩, htimer⟩ := by simpa only [Action.endangers, Bool.or_eq_false_iff] using hcareful
      refine ⟨hfaults.trans ((ledger_of_reachable honce).faults_eq_nil hcareful), honce.step (a := a) ?_,
        hkept.step (a := a) ?_⟩
      · change (if !a.deletesAgain w.sys.conn then sysStep lib w.sys a else none) = some w'.sys
        rw [hfirst]
        exact hnext
      · change (if !a.orphansTimer w.sys.conn then sysStep lib w.sys a else none) = some w'.sys
        rw [htimer]
        exact hnext
    · exact absurd hstray (by simp [(timersLive_of_reachable hkept).not_stray p])

/-- In every run that takes no action which leads there, no freed memory is used and no timer fires for a
transaction that is gone; deletion is safe and complete; and neither a call of `LM_trans_delete` nor the drain
affects any other transaction. -/
theorem deletedOnce_safe (lib : Mstdlib) (w : Process) (hw : (careful lib).Reachable w) :
    w.faults = [] ∧ (∀ p, (process lib).step w (.strayTimer p) = none) ∧ DeletedOnce lib w.sys ∧
      (∀ s', sysStep lib w.sys .drain = some s' →
        Untouched w.sys.conn.transDelayRm w.sys.conn.toTransStore s'.conn.toTransStore) ∧
      ∀ p s', sysStep lib w.sys (.transDelete p) = some s' →
        Untouched [p] w.sys.conn.toTransStore s'.conn.toTransStore := by
  obtain ⟨hclean, honce, hkept⟩ := careful_reachable hw
  have hrunning := running_of_reachable (honce.of_restrict (monetra lib))
  have hledger := ledger_of_reachable honce
  refine ⟨hclean, fun p => ?_, hledger.deletedOnce hrunning, fun s' hstep => ?_, fun p s' hstep => ?_⟩
  · change processStep lib w (.strayTimer p) = none
    simp [processStep, (timersLive_of_reachable hkept).not_stray p]
  · cases sysStep_turn hstep hrunning with
    | drained ha hpc hevents hstore =>
      rw [hstore]
      exact (drainDelayRm_done lib w.sys.conn.transDelayRm rfl hrunning.rep hledger.nodup hledger.delayed
        w.sys.conn.transDelayRm fun _ => id).1
    | served new hclears hserved => cases hclears
    | destroyed hdestroys hidle hfreed hstore => cases hdestroys
    | delivered e rest ha hpc hevents hstore => cases ha
    | returned ha hpc hstore => cases ha
    | deleted p t ha hidle ht hstore => cases ha
  · unfold sysStep at hstep
    split at hstep
    · cases hstep
    · obtain rfl := Option.some.inj hstep
      exact untouched_transDelete hrunning.rep p

end Runs

section Runs

/-- A new connection, and no freed memory used. -/
def startedProcess : Process := ⟨started, []⟩

/-- It is an initial state. -/
theorem startedProcess_init (lib : Mstdlib) : (process lib).init startedProcess :=
  ⟨started_init lib, rfl⟩

/-- The peer closes the connection before it has answered the ping, and the callback deletes the ping, as it
does with every transaction that has failed. -/
def deletePing : List Action :=
  [.connConnect openNet, .event (.connected [pingDraw] 100), .drain, .finish,
    .event (.failed .disconnected []), .deliver, .transDelete 0, .callbackReturn, .deliver, .callbackReturn,
    .drain, .finish]

/-- A sale goes out over the next connection and runs into its timeout, and its callback deletes it; the event
stays valid until the handler drains. -/
def deleteTimedOut : List Action :=
  [.transNew [saleDraw], .transSetTimeout 1 30, .transSetParam 1 (ascii "action") (some (ascii "sale")),
    .transSend 1, .implicitConnect openNet, .event (.connected [pingDraw] 100), .drain, .finish,
    .event (.read (responseFrame 9 (ascii "PONG"))), .resume, .deliver, .callbackReturn, .drain, .finish,
    .event (.transTimer 1), .deliver, .transDelete 1]

/-- The process in the callback that has deleted the sale. -/
def timedOutDeleted : Process :=
  ((careful reference).run startedProcess ((deletePing ++ deleteTimedOut).map .library)).get (by decide)

/-- This state is reachable. -/
theorem timedOutDeleted_reachable : (careful reference).Reachable timedOutDeleted :=
  System.reachable_get (careful reference) (startedProcess_init reference) _ _

/-- Both deletions are safe. -/
theorem deletedOnce_safe_sale :
    (timedOutDeleted.sys.conn.trace.count (.freed 0) = 1 ∧ timedOutDeleted.sys.conn.transDelayRm = [1]) ∧
      timedOutDeleted.faults = [] ∧
      (∀ p, (process reference).step timedOutDeleted (.strayTimer p) = none) ∧
      DeletedOnce reference timedOutDeleted.sys ∧
      (∀ s', sysStep reference timedOutDeleted.sys .drain = some s' →
        Untouched timedOutDeleted.sys.conn.transDelayRm timedOutDeleted.sys.conn.toTransStore
          s'.conn.toTransStore) ∧
      ∀ p s', sysStep reference timedOutDeleted.sys (.transDelete p) = some s' →
        Untouched [p] timedOutDeleted.sys.conn.toTransStore s'.conn.toTransStore :=
  ⟨by decide, deletedOnce_safe reference timedOutDeleted timedOutDeleted_reachable⟩

/-- The connection fails while two sales are pending. The callback of the first error deletes both, and
the callback of the second error, whose pointer is still valid, deletes the second sale again. -/
def deleteTwice : List Action :=
  sendSale ++ [.transNew [pingDraw], .transSetParam 2 (ascii "action") (some (ascii "sale")),
    .transSend 2, .event (.failed .error []), .deliver, .transDelete 0, .transDelete 2,
    .callbackReturn, .deliver, .transDelete 2, .callbackReturn, .deliver, .callbackReturn, .drain]

/-- The process after the drain. -/
def saleDeletedTwice : Process :=
  ((process reference).run startedProcess (deleteTwice.map .library)).get (by decide)

/-- This state is reachable. -/
theorem saleDeletedTwice_reachable : (process reference).Reachable saleDeletedTwice :=
  System.reachable_get _ (startedProcess_init reference) _ _

/-- The drain has come to a transaction that it had already freed. -/
theorem monetra_not_deletedOnce :
    ¬∀ w, (process reference).Reachable w → w.faults = [] ∧ DeletedOnce reference w.sys := by
  intro h
  have hclean := (h saleDeletedTwice saleDeletedTwice_reachable).1
  rw [show saleDeletedTwice.faults = [.drained 2] by decide] at hclean
  cases hclean

end Runs

end LibMonetra
