import LibMonetra.Link
import LibMonetra.Reference

/-!
# The representation of a connection at rest

While no handler runs, no deletion is put off, and the representation invariant becomes exact:
each transaction is in one queue, once, and the id map knows exactly the live transactions.
-/

namespace LibMonetra

variable {lib : Mstdlib}

/-- The exact representation of the transactions of a connection. -/
structure Represented (s : TransStore) : Prop where
  queues : ∀ p t, s.heap p = some t → ∀ status,
    (s.connQueue status).count p = if status = t.status then 1 else 0
  members : ∀ status p, p ∈ s.connQueue status → ∃ t, s.heap p = some t
  idMap : ∀ id p, s.transIdMap id = some p ↔ ∃ t, s.heap p = some t ∧ t.transId = id
  ids : ∀ p q t u, s.heap p = some t → s.heap q = some u → t.transId = u.transId → p = q
  idRange : ∀ p t, s.heap p = some t → 1 ≤ t.transId ∧ t.transId ≤ 2 ^ 32 - 2
  params : ∀ p t, s.heap p = some t → t.status = .pending ∨ t.status = .done →
    t.requestParams = none

/-- Without deferred deletions the representation invariant is exact. -/
theorem Rep.represented {s : TransStore} (h : Rep s) (hdelay : s.transDelayRm = []) :
    Represented s where
  queues p t ht status := by
    have hmem : p ∈ s.connQueue status ↔ status = t.status := by
      constructor
      · exact fun hp => (h.status_of_mem hp ht).symm
      · rintro rfl
        refine (h.placed p t ht).resolve_right ?_
        rw [hdelay]
        exact List.not_mem_nil
    split
    · rename_i hst
      exact List.count_eq_one_of_mem (h.nodup status) (hmem.mpr hst)
    · rename_i hst
      exact List.count_eq_zero.mpr fun hp => hst (hmem.mp hp)
  members status p hp := by
    obtain ⟨t, ht, -⟩ := h.queued status p hp
    exact ⟨t, ht⟩
  idMap id p := by
    constructor
    · exact h.mapLive id p
    · rintro ⟨t, ht, rfl⟩
      exact h.mapped p t ht
  ids p q t u ht hu hid := h.id_inj ht hu hid
  idRange p t ht := by
    obtain ⟨hlow, hhigh⟩ := h.idRange p t ht
    exact ⟨hlow, Nat.le_pred_of_lt hhigh⟩
  params := h.params

/-- In every reachable state in which no handler runs, the representation is exact. -/
theorem idle_represented (lib : Mstdlib) (s : Sys) (hs : (monetra lib).Reachable s)
    (hidle : s.pc = .idle) : Represented s.conn.toTransStore := by
  have hrunning := running_of_reachable hs
  exact hrunning.rep.represented (hrunning.link.rest (by rw [hidle]; rfl)).2.2

/-- A connection with a sale on the wire is such a state. -/
theorem idle_represented_saleSent :
    saleSent.conn.transPending = [0] ∧ Represented saleSent.conn.toTransStore :=
  ⟨by decide, idle_represented reference saleSent saleSent_reachable (by decide)⟩

end LibMonetra
