import LibMonetra.Approval
import LibMonetra.Ownership
import Mathlib.Data.Finset.Card
import Mathlib.Data.Finset.Range

/-!
# What the legacy API lists

`M_CompleteAuthorizations` copies the queue of completed transactions into an array, and
`M_ResponseKeys` the keys of a response. Languages without arrays read a slot through an accessor with
bounds of its own. The queue is in the order in which the transactions were completed: it is what is left
of them in the order of the record.
-/

namespace LibMonetra

open Foundation

variable {lib : Mstdlib} {s s' : TransStore} {p : Ptr} {t : Trans}

/-- The transaction that a record completes. -/
def Obs.completes : Obs → Option Ptr
  | .answered p _ _ => some p
  | .queued e => if e.type = .transError then e.trans else none
  | _ => none

/-- The transactions that were completed, in order. -/
def completed (trace : List Obs) : List Ptr := trace.filterMap Obs.completes

@[simp] theorem completed_append (trace later : List Obs) :
    completed (trace ++ later) = completed trace ++ completed later := List.filterMap_append

/-- An answer or a report of an error completes a transaction. -/
theorem mem_completed : p ∈ completed s.trace ↔
    (∃ status msg, .answered p status msg ∈ s.trace) ∨ .queued ⟨.transError, some p⟩ ∈ s.trace := by
  constructor
  · intro h
    obtain ⟨o, ho, hcompletes⟩ := List.mem_filterMap.mp h
    unfold Obs.completes at hcompletes
    split at hcompletes
    · obtain rfl := Option.some.inj hcompletes
      exact Or.inl ⟨_, _, ho⟩
    · rename_i e
      obtain ⟨htype, htrans⟩ := Option.ite_none_right_eq_some.mp hcompletes
      rcases e with ⟨type, trans⟩
      obtain rfl : type = .transError := htype
      obtain rfl : trans = some p := htrans
      exact Or.inr ho
    · cases hcompletes
  · rintro (⟨status, msg, ho⟩ | ho)
    · exact List.mem_filterMap.mpr ⟨_, ho, rfl⟩
    · exact List.mem_filterMap.mpr ⟨_, ho, rfl⟩

/-- The queue of the completed transactions is what is left of them, in the order of their completion. -/
def TransStore.Listed (s : TransStore) : Prop :=
  s.transDone = (completed s.trace).filter fun p => p ∈ s.transDone

/-- A step that completes nothing and keeps the queue. -/
theorem TransStore.Listed.congr (h : s.Listed) (hdone : s'.connQueue .done = s.connQueue .done)
    (htrace : completed s'.trace = completed s.trace) : s'.Listed := by
  change s'.connQueue .done = (completed s'.trace).filter fun p => p ∈ s'.connQueue .done
  rw [hdone, htrace]
  exact h

/-- A transaction is completed. -/
theorem TransStore.Listed.complete (h : s.Listed) (hnew : p ∉ completed s.trace)
    (hdone : s'.connQueue .done = s.connQueue .done ++ [p])
    (htrace : completed s'.trace = completed s.trace ++ [p]) : s'.Listed := by
  have hkeep : (completed s.trace).filter (fun q => q ∈ s.connQueue .done ++ [p]) =
      (completed s.trace).filter fun q => q ∈ s.connQueue .done := by
    refine List.filter_congr fun q hq => ?_
    have hne : q ≠ p := by
      rintro rfl
      exact hnew hq
    simp [hne]
  have hold : (completed s.trace).filter (fun q => q ∈ s.connQueue .done) = s.connQueue .done := h.symm
  change s'.connQueue .done = (completed s'.trace).filter fun q => q ∈ s'.connQueue .done
  rw [hdone, htrace, List.filter_append, hkeep, hold]
  simp

/-- A completed transaction leaves the queue. -/
theorem TransStore.Listed.leave (h : s.Listed) (hnodup : (s.connQueue .done).Nodup)
    (hdone : s'.connQueue .done = (s.connQueue .done).erase p)
    (htrace : completed s'.trace = completed s.trace) : s'.Listed := by
  have hold : s.connQueue .done = (completed s.trace).filter fun q => q ∈ s.connQueue .done := h
  change s'.connQueue .done = (completed s'.trace).filter fun q => q ∈ s'.connQueue .done
  calc s'.connQueue .done = (s.connQueue .done).filter (fun q => q ≠ p) := by
        rw [hdone, hnodup.erase_eq_filter]
        exact List.filter_congr fun q _ => by by_cases hq : q = p <;> simp [hq]
    _ = ((completed s.trace).filter fun q => q ∈ s.connQueue .done).filter (fun q => q ≠ p) := by
        rw [← hold]
    _ = (completed s'.trace).filter fun q => q ∈ s'.connQueue .done := by
        rw [List.filter_filter, htrace, hdone]
        refine List.filter_congr fun q _ => ?_
        simp [hnodup.mem_erase_iff]

/-- A transaction is freed: it leaves the queue if it was done. -/
theorem TransStore.Listed.free (h : s.Listed) (hnodup : (s.connQueue .done).Nodup)
    (hdone : s'.connQueue .done = (s.free p t).connQueue .done)
    (htrace : completed s'.trace = completed s.trace) : s'.Listed := by
  rw [TransStore.connQueue_free] at hdone
  split at hdone
  · exact h.leave hnodup hdone htrace
  · exact h.congr hdone htrace

/-- The life of a transaction, and who it belongs to, as far as its completion needs them. -/
structure TransStore.Settled (lib : Mstdlib) (s : TransStore) : Prop extends s.Ok lib where
  owned : ∀ q, (s.life q).Owned q
  refused : ∀ q, (s.life q).Refused q

/-- A live transaction that was completed is done. -/
theorem TransStore.Settled.done (h : s.Settled lib) (ht : s.heap p = some t)
    (hcompleted : p ∈ completed s.trace) : t.status = .done := by
  rcases mem_completed.mp hcompleted with ⟨status, msg, ho⟩ | ho
  · by_contra hst
    exact (h.owned p).unanswered t ht hst status msg (List.mem_filter.mpr ⟨ho, by simp [Obs.about]⟩)
  · exact (h.refused p t ht (List.mem_filter.mpr ⟨ho, by simp [Obs.about]⟩)).1

/-- Every step keeps what is known of the completions. -/
theorem StoreStep.settled (hstep : StoreStep lib s s') (h : s.Settled lib) : s'.Settled lib := by
  refine ⟨hstep.ok h.toOk, fun q => ?_, fun q => ?_⟩
  · rcases hstep.seen h.rep q with hsame | hmoved
    · rw [hsame]
      exact h.owned q
    · exact hmoved.owned (h.life q).timed (h.owned q)
  · rcases hstep.seen h.rep q with hsame | hmoved
    · rw [hsame]
      exact h.refused q
    · obtain ⟨waits, timeouts, ends, htold⟩ := (h.life q).told
      exact hmoved.refused htold (h.refused q)

/-- One step of the library keeps the queue in order. -/
theorem InternalStep.listed (hstep : InternalStep lib s s') (hs : s.Settled lib) (h : s.Listed) :
    s'.Listed := by
  have hnew : ∀ {p t}, s.heap p = some t → t.status = .pending → p ∉ completed s.trace := by
    intro p t ht hst hcompleted
    rw [hs.done ht hcompleted] at hst
    cases hst
  cases hstep with
  | createPing id status hfree hlow hhigh =>
    exact h.congr ((TransStore.connQueue_create s _ .done).trans (by simp))
      (by simp [TransStore.log, completed, Obs.completes])
  | submit p t rest armed interval hready ht hst hnone =>
    exact h.congr (by simp [hst]) (by simp [completed, Obs.completes])
  | noconnect p hp => exact h.congr rfl (by simp [TransStore.connEventAdd, completed, Obs.completes])
  | timeout p t interval ht htimer =>
    exact h.congr rfl (by simp [TransStore.connEventAdd, TransStore.setTrans, completed, Obs.completes])
  | answer p t msg data ht hst hmsg hping =>
    refine h.complete (hnew ht hst) ?_ ?_
    · simp [hst, storeResponse_status]
    · simp only [TransStore.trace_killTimeoutTimer, TransStore.connEventAdd, TransStore.trace_answer,
        completed_append, List.append_assoc]
      rfl
  | answerPing p t msg data ht hst hmsg hping =>
    refine h.complete (hnew ht hst) ?_ ?_
    · simp [hst, storeResponse_status]
    · rw [TransStore.trace_answer, completed_append]
      rfl
  | fail p t rest response hpending ht hst hcode =>
    refine h.complete (hnew ht hst) ?_ (by simp [TransStore.connEventAdd, completed, Obs.completes])
    rw [TransStore.connQueue_connEventAdd, TransStore.connQueue_killTimeoutTimer,
      TransStore.connQueue_move]
    simp [hst, Trans.failed]
  | retirePing p t ht hping =>
    exact h.congr (by simp) (by simp [TransStore.defer, TransStore.log, completed, Obs.completes])
  | drain p t rest hdelay ht =>
    refine h.free (hs.rep.nodup .done) (p := p) (t := t) ?_ (by simp [completed, Obs.completes])
    rw [TransStore.connQueue_free, TransStore.connQueue_free]
    rfl
  | drainDead p rest hdelay hfreed => exact h.congr rfl rfl
  | connEvent type htype =>
    refine h.congr rfl ?_
    rcases htype with rfl | rfl | rfl <;> simp [TransStore.connEventAdd, completed, Obs.completes]
  | deliver e rest hevents => exact h.congr rfl (by simp [TransStore.log, completed, Obs.completes])
  | dropEvents => exact h.congr rfl rfl
  | forgetPing => exact h.congr rfl rfl
  | consume msg => exact h.congr rfl (by simp [TransStore.log, completed, Obs.completes])

/-- One step keeps the queue in order. -/
theorem StoreStep.listed (hstep : StoreStep lib s s') (hs : s.Settled lib) (h : s.Listed) :
    s'.Listed := by
  cases hstep with
  | create id params hfree hlow hhigh =>
    exact h.congr ((TransStore.connQueue_create s _ .done).trans (by simp [Trans.fresh]))
      (by simp [TransStore.log, completed, Obs.completes])
  | edit p t params timeoutS ht hst => exact h.congr rfl rfl
  | accept p t ht hst =>
    exact h.congr ((TransStore.connQueue_move s p t _ .done).trans (by simp [hst]))
      (by simp [TransStore.log, completed, Obs.completes])
  | defer p t ht =>
    exact h.congr (by simp) (by simp [TransStore.defer, TransStore.log, completed, Obs.completes])
  | delete p t ht =>
    refine h.free (hs.rep.nodup .done) (p := p) (t := t) ?_
      (by simp [TransStore.log, completed, Obs.completes])
    simp
  | destroy => simp [TransStore.Listed, TransStore.freeAll]
  | internal _ hinternal => exact hinternal.listed hs h

/-- The queue of a reached state is in the order of the completions. -/
theorem Running.listed {s : Sys} (h : Running lib s) :
    s.conn.toTransStore.Settled lib ∧ s.conn.toTransStore.Listed := by
  refine invariant_of_steps (P := fun s => s.Settled lib ∧ s.Listed) ?_ h.steps ⟨?_, rfl⟩
  · rintro mid last hstep ⟨hsettled, hlisted⟩
    exact ⟨hstep.settled hsettled, hstep.listed hsettled hlisted⟩
  · refine ⟨⟨Rep.empty, life_empty_ok⟩, fun q => ?_, fun q => ?_⟩
    · rw [life_empty]
      exact ⟨by simp, by simp, by simp, by simp, by simp⟩
    · rw [life_empty]
      rintro t ⟨⟩

section Completions

/-- `LM_conn_trans_list`, for one status. -/
def connTransList (c : Conn) (status : TransStatus) : List Ptr := c.connQueue status

/-- `LM_trans_internal_id`. -/
def transInternalId (c : Conn) (p : Ptr) : ℕ := ((c.heap p).map Trans.transId).getD 0

/-- A count as an `int` of 32 bits. -/
def toInt32 (n : ℕ) : ℤ := Int.bmod n 4294967296

/-- A count fits into an `int` below 2 to the power of 31. -/
theorem toInt32_eq_iff (n : ℕ) : toInt32 n = n ↔ n < 2 ^ 31 := by
  unfold toInt32
  rw [Int.bmod_def]
  split <;> omega

/-- What an accessor of an array does: it returns nothing, or it reads a slot or past the array. -/
inductive SlotRead (α : Type)
  | rejected
  | element (a : α)
  | outside
  deriving DecidableEq, Repr

/-- The element at an index that an accessor has let through. -/
def readSlot {α : Type} (xs : List α) (idx : ℤ) : SlotRead α :=
  if idx < 0 then .outside
  else
    match xs[idx.toNat]? with
    | some a => .element a
    | none => .outside

/-- An index within the array reads its element. -/
theorem readSlot_of_lt {α : Type} {xs : List α} {i : ℕ} (hi : i < xs.length) :
    readSlot xs i = .element xs[i] := by
  simp [readSlot, hi]

/-- An index at the end reads past the array. -/
theorem readSlot_length {α : Type} (xs : List α) : readSlot xs xs.length = .outside := by
  simp [readSlot]

/-- `M_CompleteAuthorizations` with a place for the listing: the count and the array. -/
def mCompleteAuthorizations (m : MConn) : ℕ × List ℕ :=
  let list := connTransList m.sys.conn .done
  (list.length, list.map (transInternalId m.sys.conn))

/-- `M_CompleteAuthorizations_index`. -/
def mCompleteAuthorizationsIndex (listings : Option (List ℕ)) (numListings idx : ℤ) : SlotRead ℕ :=
  match listings with
  | none => .rejected
  | some xs =>
    if numListings ≤ 0 ∨ idx ≤ 0 ∨ numListings ≤ idx then .rejected else readSlot xs idx

/-- The ids of the transactions that are done, in the order in which they were completed. -/
def completedIds (c : Conn) : List ℕ :=
  ((completed c.trace).filter fun p => (c.heap p).isSome).map (transInternalId c)

/-- The listing has every transaction that is done once, in order, and an index reads its slot. -/
structure CompletionsListed (m : MConn) (idx : ℤ) : Prop where
  count : (mCompleteAuthorizations m).1 = (completedIds m.sys.conn).length
  listing : (mCompleteAuthorizations m).2 = completedIds m.sys.conn
  each : ∀ identifier, identifier ∈ completedIds m.sys.conn ↔ mCheckStatus (some m) identifier = .done
  once : (completedIds m.sys.conn).Nodup
  inside : ∀ i (hi : i < (completedIds m.sys.conn).length), idx = i →
    mCompleteAuthorizationsIndex (some (mCompleteAuthorizations m).2)
      (toInt32 (mCompleteAuthorizations m).1) idx = .element (completedIds m.sys.conn)[i]
  outside : idx < 0 ∨ (completedIds m.sys.conn).length ≤ idx →
    mCompleteAuthorizationsIndex (some (mCompleteAuthorizations m).2)
      (toInt32 (mCompleteAuthorizations m).1) idx = .rejected

variable {c : Conn}

/-- At rest the queue has every transaction that was completed and has not been deleted. -/
theorem transDone_eq (hsettled : c.toTransStore.Settled lib) (hlisted : c.toTransStore.Listed)
    (hdelay : c.transDelayRm = []) :
    c.transDone = (completed c.trace).filter fun p => (c.heap p).isSome := by
  have hqueue : c.transDone = (completed c.trace).filter fun p => p ∈ c.transDone := hlisted
  refine hqueue.trans (List.filter_congr fun p hp => ?_)
  rw [Bool.eq_iff_iff, decide_eq_true_iff, Option.isSome_iff_exists]
  constructor
  · intro hmem
    obtain ⟨t, ht, -⟩ := hsettled.rep.queued .done p hmem
    exact ⟨t, ht⟩
  · rintro ⟨t, ht⟩
    have hplaced := hsettled.rep.placed p t ht
    rw [hsettled.done ht hp, hdelay] at hplaced
    exact hplaced.resolve_right List.not_mem_nil

/-- The ids of a queue are all different. -/
theorem nodup_map_transInternalId (hrep : Rep c.toTransStore) (status : TransStatus) :
    ((connTransList c status).map (transInternalId c)).Nodup := by
  refine (hrep.nodup status).map_on ?_
  intro p hp q hq hid
  obtain ⟨t, ht, -⟩ := hrep.queued status p hp
  obtain ⟨u, hu, -⟩ := hrep.queued status q hq
  exact hrep.id_inj ht hu (by simpa [transInternalId, ht, hu] using hid)

/-- `M_CheckStatus` finds exactly the transactions that are listed. -/
theorem mem_map_transInternalId_iff {m : MConn} (hrep : Rep m.sys.conn.toTransStore)
    (hdelay : m.sys.conn.transDelayRm = []) (identifier : ℕ) :
    identifier ∈ (connTransList m.sys.conn .done).map (transInternalId m.sys.conn) ↔
      mCheckStatus (some m) identifier = .done := by
  constructor
  · intro hmem
    obtain ⟨p, hp, rfl⟩ := List.mem_map.mp hmem
    obtain ⟨t, ht, hst⟩ := hrep.queued .done p hp
    have hid : transInternalId m.sys.conn p = t.transId := by simp [transInternalId, ht]
    have htrans : legacyTrans (some m) t.transId = some t := by
      simp [legacyTrans, connGetTransByInternalId, hrep.mapped p t ht, ht]
    simp [mCheckStatus, hid, htrans, hst]
  · intro hdone
    obtain ⟨t, ht, hst⟩ := mCheckStatus_eq_done hdone
    have hlookup : (m.sys.conn.transIdMap identifier).bind m.sys.conn.heap = some t := ht
    obtain ⟨p, hp, hlive⟩ := Option.bind_eq_some_iff.mp hlookup
    obtain ⟨u, hu, hid⟩ := hrep.mapLive identifier p hp
    obtain rfl := Option.some.inj (hu.symm.trans hlive)
    have hplaced := hrep.placed p u hu
    rw [hst, hdelay] at hplaced
    exact List.mem_map.mpr ⟨p, hplaced.resolve_right List.not_mem_nil, by simp [transInternalId, hu, hid]⟩

/-- There are not enough ids for more than 2 to the power of 32 transactions in a queue. -/
theorem length_connTransList_lt (hrep : Rep c.toTransStore) (status : TransStatus) :
    (connTransList c status).length < 2 ^ 32 := by
  have hnodup := nodup_map_transInternalId hrep status
  have hsub : ((connTransList c status).map (transInternalId c)).toFinset ⊆ Finset.range (2 ^ 32 - 1) := by
    intro id hid
    obtain ⟨p, hp, rfl⟩ := List.mem_map.mp (List.mem_toFinset.mp hid)
    obtain ⟨t, ht, -⟩ := hrep.queued status p hp
    have hrange := hrep.idRange p t ht
    rw [Finset.mem_range]
    simpa [transInternalId, ht] using hrange.2
  have hcard := Finset.card_le_card hsub
  rw [List.toFinset_card_of_nodup hnodup, List.length_map, Finset.card_range] at hcard
  omega

/-- A larger count is no longer positive as an `int`. -/
theorem toInt32_nonpos {n : ℕ} (hlarge : 2 ^ 31 ≤ n) (hsmall : n < 2 ^ 32) : toInt32 n ≤ 0 := by
  unfold toInt32
  rw [Int.bmod_def]
  split <;> omega

/-- The accessor reads every slot of an array but the first, while the count is an `int`. -/
theorem mCompleteAuthorizationsIndex_eq (xs : List ℕ) (hlength : xs.length < 2 ^ 32) (idx : ℤ) :
    mCompleteAuthorizationsIndex (some xs) (toInt32 xs.length) idx =
      if 0 < idx ∧ idx < xs.length ∧ xs.length < 2 ^ 31 then readSlot xs idx else .rejected := by
  rw [mCompleteAuthorizationsIndex]
  by_cases hsmall : xs.length < 2 ^ 31
  · rw [(toInt32_eq_iff xs.length).mpr hsmall]
    by_cases h : 0 < idx ∧ idx < xs.length
    · rw [if_neg (by omega), if_pos ⟨h.1, h.2, hsmall⟩]
    · rw [if_pos (by omega), if_neg (fun hall => h ⟨hall.1, hall.2.1⟩)]
  · rw [if_pos (Or.inl (toInt32_nonpos (not_lt.mp hsmall) hlength)), if_neg fun hall => hsmall hall.2.2]

/-- The listing is right, and so is its accessor except for the first slot, which it never reads, and
for a count that is no `int`. -/
theorem completionsListed_iff {m : MConn} (h : (legacy lib).Reachable (some m)) (idx : ℤ) :
    CompletionsListed m idx ↔ (0 ≤ idx → idx < m.sys.conn.transDone.length →
      idx ≠ 0 ∧ m.sys.conn.transDone.length < 2 ^ 31) := by
  have hrested := legacy_rested h rfl
  have hrunning := running_of_reachable hrested.reachable
  obtain ⟨hsettled, hlisted⟩ := hrunning.listed
  have hdelay := (hrunning.link.rest (by rw [hrested.idle]; rfl)).2.2
  have hids : completedIds m.sys.conn = m.sys.conn.transDone.map (transInternalId m.sys.conn) := by
    rw [transDone_eq hsettled hlisted hdelay]
    rfl
  have hlength : (m.sys.conn.transDone.map (transInternalId m.sys.conn)).length =
      m.sys.conn.transDone.length := List.length_map ..
  have hindex := mCompleteAuthorizationsIndex_eq (m.sys.conn.transDone.map (transInternalId m.sys.conn))
    (hlength ▸ length_connTransList_lt hsettled.rep .done) idx
  have hcall : mCompleteAuthorizations m =
      (m.sys.conn.transDone.length, m.sys.conn.transDone.map (transInternalId m.sys.conn)) := rfl
  constructor
  · intro hall hlow hhigh
    obtain ⟨i, rfl⟩ := Int.eq_ofNat_of_zero_le hlow
    have hi : i < (completedIds m.sys.conn).length := by
      rw [hids, hlength]
      omega
    have hread := hall.inside i hi rfl
    rw [hcall, ← hlength, hindex] at hread
    by_contra hwrong
    rw [if_neg] at hread
    · cases hread
    · rw [hlength]
      omega
  · intro hcond
    refine ⟨?_, ?_, ?_, ?_, ?_, ?_⟩
    · rw [hids, hlength, hcall]
    · rw [hids, hcall]
    · rw [hids]
      exact mem_map_transInternalId_iff hsettled.rep hdelay
    · rw [hids]
      exact nodup_map_transInternalId hsettled.rep .done
    · intro i hi hidx
      simp only [hids, hlength] at hi
      obtain ⟨hne, hsmall⟩ := hcond (by omega) (by omega)
      subst hidx
      simp only [hids, hcall]
      rw [← hlength, hindex, if_pos (by rw [hlength]; omega), readSlot_of_lt (by rw [hlength]; exact hi)]
    · intro hout
      rw [hids, hlength] at hout
      rw [hcall]
      simp only
      rw [← hlength, hindex, if_neg (by rw [hlength]; omega)]

/-- A legacy caller sends a sale and waits for its response. -/
def legacySale : List LegacyCall :=
  [.setBlocking true, .transNew [saleDraw], .transKeyVal 7 (ascii "action") (some (ascii "sale")),
    .transSend 7 ⟨[], openNet, [.event (.connected [pingDraw] 100), .drain, .finish,
      .event (.read (responseFrame 9 (ascii "PONG"))), .resume, .deliver, .callbackReturn, .drain, .finish],
      openNet, [answerSale]⟩]

/-- The handle with the approved sale. -/
def legacyAnswered : MConn :=
  (((legacy reference).run (some mInitConn) legacySale).get (by decide)).get (by decide)

/-- This state is reachable. -/
theorem legacyAnswered_reachable : (legacy reference).Reachable (some legacyAnswered) := by
  have h := System.reachable_get (legacy reference) (rfl : (legacy reference).init (some mInitConn)) legacySale
    (by decide)
  rwa [legacyAnswered, Option.some_get]

/-- The caller sends a second sale. -/
def legacySecondSale : List LegacyCall :=
  [.transNew [pingDraw], .transKeyVal 9 (ascii "action") (some (ascii "sale")),
    .transSend 9 ⟨[], openNet, [], openNet, [[.event (.read (responseFrame 9 (ascii "code=AUTH"))), .deliver,
      .callbackReturn, .drain, .finish]]⟩]

/-- The handle with both sales approved. -/
def legacyAnsweredTwice : MConn :=
  (((legacy reference).run (some mInitConn) (legacySale ++ legacySecondSale)).get (by decide)).get (by decide)

/-- This state is reachable. -/
theorem legacyAnsweredTwice_reachable : (legacy reference).Reachable (some legacyAnsweredTwice) := by
  have h := System.reachable_get (legacy reference) (rfl : (legacy reference).init (some mInitConn))
    (legacySale ++ legacySecondSale) (by decide)
  rwa [legacyAnsweredTwice, Option.some_get]

/-- The listing of both sales, read at the index of the second. -/
theorem completionsListed_iff_sale :
    mCompleteAuthorizations legacyAnsweredTwice = (2, [7, 9]) ∧
      mCompleteAuthorizationsIndex (some [7, 9]) 2 1 = .element 9 ∧ CompletionsListed legacyAnsweredTwice 1 :=
  ⟨by decide, by decide, (completionsListed_iff legacyAnsweredTwice_reachable 1).mpr fun _ _ =>
    ⟨by decide, by decide⟩⟩

/-- The one transaction that is listed cannot be read. -/
theorem legacy_not_completionsListed :
    ¬∀ m idx, (legacy reference).Reachable (some m) → CompletionsListed m idx := by
  intro h
  have hread := (h legacyAnswered 0 legacyAnswered_reachable).inside 0 (by decide) rfl
  exact absurd hread (by decide)

end Completions

section Keys

/-- `LM_trans_response_keys`. -/
def transResponseKeys (t : Trans) : Option (List Bytes) :=
  if t.status = .done ∧ t.responseType = .kv then some ((t.responseParams.map Dict.keys).getD [])
  else none

/-- `M_ResponseKeys`: the array and `num_keys`. -/
def mResponseKeys (m : MConn) (identifier : ℕ) : Option (List Bytes) × ℤ :=
  match (legacyTrans (some m) identifier).bind transResponseKeys with
  | none => (none, 0)
  | some keys => if keys = [] then (none, 0) else (some keys, toInt32 keys.length)

/-- `M_ResponseKeys_index`. -/
def mResponseKeysIndex (keys : Option (List Bytes)) (numKeys idx : ℤ) : SlotRead Bytes :=
  match keys with
  | none => .rejected
  | some xs =>
    if numKeys ≤ 0 ∨ idx < 0 ∨ numKeys < idx then .rejected else readSlot xs idx

/-- Every key of a response is enumerated once and leads to its value, and an index reads its slot. -/
structure KeysListed (m : MConn) (identifier : ℕ) (response : Dict) (idx : ℤ) : Prop where
  count : (mResponseKeys m identifier).2 = response.numKeys
  once : response.keys.Nodup
  valued : ∀ key value, (key, value) ∈ response.entries → mResponseParam (some m) identifier key = value
  inside : ∀ i (hi : i < response.keys.length), idx = i →
    mResponseKeysIndex (mResponseKeys m identifier).1 (mResponseKeys m identifier).2 idx =
      .element response.keys[i]
  outside : idx < 0 ∨ response.numKeys ≤ idx →
    mResponseKeysIndex (mResponseKeys m identifier).1 (mResponseKeys m identifier).2 idx = .rejected

variable {m : MConn} {identifier : ℕ} {t : Trans}

/-- The dictionary of a response; one that did not read has no keys. -/
def Trans.response (t : Trans) : Dict := t.responseParams.getD .create

/-- `M_ResponseKeys` on a key/value response. -/
theorem mResponseKeys_eq (ht : legacyTrans (some m) identifier = some t) (hst : t.status = .done)
    (hkv : t.responseType = .kv) : mResponseKeys m identifier =
      if t.response.keys = [] then (none, 0) else (some t.response.keys, toInt32 t.response.numKeys) := by
  have hkeys : (t.responseParams.map Dict.keys).getD [] = t.response.keys := by
    unfold Trans.response
    cases t.responseParams <;> rfl
  have hnum : t.response.keys.length = t.response.numKeys := t.response.length_keys
  simp [mResponseKeys, ht, transResponseKeys, hst, hkv, hkeys, hnum]

/-- `M_ResponseParam` on a key/value response. -/
theorem mResponseParam_eq (ht : legacyTrans (some m) identifier = some t) (hst : t.status = .done)
    (hkv : t.responseType = .kv) (key : Bytes) : mResponseParam (some m) identifier key =
      if key = [] then none else t.response.getDirect key := by
  have hvalue : (t.responseParams.bind fun params => params.getDirect key) = t.response.getDirect key := by
    unfold Trans.response
    cases t.responseParams <;> rfl
  unfold mResponseParam transResponseParam
  split
  · rfl
  · simp only [ht, hst, hkv, and_self, if_true, Option.bind_some, hvalue]

/-- The accessor reads up to one slot past the array. -/
theorem mResponseKeysIndex_eq (xs : List Bytes) (hsmall : xs.length < 2 ^ 31) (idx : ℤ) :
    mResponseKeysIndex (some xs) (toInt32 xs.length) idx =
      if 0 < xs.length ∧ 0 ≤ idx ∧ idx ≤ xs.length then readSlot xs idx else .rejected := by
  rw [(toInt32_eq_iff xs.length).mpr hsmall, mResponseKeysIndex]
  by_cases h : 0 < xs.length ∧ 0 ≤ idx ∧ idx ≤ xs.length
  · rw [if_pos h, if_neg (by omega)]
  · rw [if_neg h, if_pos (by omega)]

/-- The value of the empty key is there for nobody to ask for. -/
theorem Dict.valued_iff (dict : Dict) :
    (∀ key value, (key, value) ∈ dict.entries →
      (if key = [] then none else dict.getDirect key) = value) ↔ dict.getDirect [] = none := by
  constructor
  · intro h
    cases hempty : dict.getDirect [] with
    | none => rfl
    | some value =>
      rw [Dict.getDirect_eq] at hempty
      obtain ⟨entry, hfind, hvalue⟩ := Option.bind_eq_some_iff.mp hempty
      have hkey : entry.1 = [] := by
        have hsame := List.find?_some hfind
        rw [HashDict.sameKey_iff] at hsame
        split at hsame
        · exact List.map_eq_nil_iff.mp hsame
        · exact hsame
      have hnone := h entry.1 entry.2 (List.mem_of_find?_eq_some hfind)
      rw [if_pos hkey, hvalue] at hnone
      cases hnone
  · intro hempty key value hmem
    have hvalue := dict.getDirect_of_mem hmem
    split
    · rename_i hkey
      rw [hkey, hempty] at hvalue
      exact hvalue
    · exact hvalue

/-- The keys of a response are listed, except that the accessor reads past the array at its end, that a
count may be no `int`, and that no caller can ask for the value of an empty key. -/
theorem keysListed_iff (ht : legacyTrans (some m) identifier = some t) (hst : t.status = .done)
    (hkv : t.responseType = .kv) (idx : ℤ) : KeysListed m identifier t.response idx ↔
      (idx = t.response.numKeys → t.response.numKeys = 0) ∧ t.response.numKeys < 2 ^ 31 ∧
        t.response.getDirect [] = none := by
  have hcall := mResponseKeys_eq ht hst hkv
  have hvalued : (∀ key value, (key, value) ∈ t.response.entries →
      mResponseParam (some m) identifier key = value) ↔ t.response.getDirect [] = none := by
    simp only [mResponseParam_eq ht hst hkv]
    exact t.response.valued_iff
  have hlength : t.response.keys.length = t.response.numKeys := t.response.length_keys
  by_cases hempty : t.response.keys = []
  · have hnone : t.response.numKeys = 0 := by rw [← hlength, hempty]; rfl
    rw [if_pos hempty] at hcall
    constructor
    · intro h
      exact ⟨fun _ => hnone, by omega, hvalued.mp h.valued⟩
    · rintro ⟨-, -, hvalue⟩
      refine ⟨by rw [hcall, hnone]; rfl, t.response.keys_nodup, hvalued.mpr hvalue, fun i hi => ?_,
        fun _ => by rw [hcall]; rfl⟩
      rw [hlength, hnone] at hi
      omega
  · have hpos : 0 < t.response.keys.length := List.length_pos_iff.mpr hempty
    rw [if_neg hempty, ← hlength] at hcall
    constructor
    · intro h
      have hcount := h.count
      rw [hcall, ← hlength] at hcount
      simp only at hcount
      rw [toInt32_eq_iff] at hcount
      rw [← hlength]
      refine ⟨fun hidx => ?_, hcount, hvalued.mp h.valued⟩
      have hread := h.outside (Or.inr (by rw [hidx, hlength]))
      rw [hcall, hidx] at hread
      simp only at hread
      rw [mResponseKeysIndex_eq _ hcount, if_pos ⟨hpos, by omega, le_refl _⟩, readSlot_length] at hread
      cases hread
    · rintro ⟨hidx, hsmall, hvalue⟩
      rw [← hlength] at hsmall hidx
      have hindex := mResponseKeysIndex_eq t.response.keys hsmall idx
      refine ⟨?_, t.response.keys_nodup, hvalued.mpr hvalue, fun i hi hi' => ?_, fun hout => ?_⟩
      · rw [hcall, ← hlength]
        simp only
        rw [toInt32_eq_iff]
        exact hsmall
      · rw [hcall]
        simp only
        rw [hindex, if_pos ⟨hpos, by omega, by omega⟩, hi', readSlot_of_lt hi]
      · rw [hcall]
        simp only
        rw [hindex, if_neg]
        rw [← hlength] at hout
        omega

/-- The response to the sale has one key, which the index 0 reads. -/
theorem keysListed_iff_sale : ∃ t, legacyTrans (some legacyAnswered) 7 = some t ∧
    t.response.keys = [ascii "code"] ∧ KeysListed legacyAnswered 7 t.response 0 :=
  ⟨(legacyTrans (some legacyAnswered) 7).get (by decide), (Option.some_get _).symm, by decide,
    (keysListed_iff (Option.some_get _).symm (by decide) (by decide) 0).mpr (by decide)⟩

/-- The index 1 reads past the array of the one key. -/
theorem legacy_not_keysListed :
    ¬∀ m identifier t idx, (legacy reference).Reachable (some m) →
      legacyTrans (some m) identifier = some t → t.status = .done → t.responseType = .kv →
      KeysListed m identifier t.response idx := by
  intro h
  have hread := (h legacyAnswered 7 ((legacyTrans (some legacyAnswered) 7).get (by decide)) 1
    legacyAnswered_reachable (Option.some_get _).symm (by decide) (by decide)).outside (by decide)
  exact absurd hread (by decide)

end Keys

end LibMonetra
