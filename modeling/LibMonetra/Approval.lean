import LibMonetra.LegacyRun
import LibMonetra.Notification
import LibMonetra.Traffic

/-!
# No approval without an answer

The legacy API reports a success only for a transaction whose response the server sent: the denial
that a lost connection makes up is never taken for an approval.
-/

namespace LibMonetra

open Foundation

variable {lib : Mstdlib}

section Refusal

variable {q : Ptr} {l l' : Life}

/-- A transaction that was told of an error holds the made-up denial. -/
def Life.Refused (q : Ptr) (l : Life) : Prop :=
  ∀ t, l.trans = some t → .queued ⟨.transError, some q⟩ ∈ l.history → t.status = .done ∧ t.denied

/-- No error has been queued for a transaction that has not ended. -/
theorem WellOrdered.not_refused {history : List Obs} {waits timeouts : ℕ}
    (h : WellOrdered (queuedTypes history) waits timeouts []) :
    .queued ⟨.transError, some q⟩ ∉ history := by
  intro hmem
  have htype : .transError ∈ queuedTypes history := List.mem_filterMap.mpr ⟨_, hmem, rfl⟩
  rw [h.events] at htype
  simp at htype

/-- One step keeps errors and denials together. -/
theorem LifeStep.refused {waits timeouts : ℕ} {ends : List EventType} (hstep : LifeStep lib q l l')
    (htold : l.Told waits timeouts ends) (h : l.Refused q) : l'.Refused q := by
  have hopen : ends = [] → .queued ⟨.transError, some q⟩ ∉ l.history := by
    rintro rfl
    exact htold.order.not_refused
  intro u hu herror
  cases hstep with
  | create id params hb => exact absurd herror (by simp [hopen (htold.unborn hb).2.2])
  | createPing id status hb => exact absurd herror (by simp [hopen (htold.unborn hb).2.2])
  | edit t params timeoutS ht hst => exact absurd herror (hopen (htold.new t ht hst).2.2)
  | accept t ht hst => exact absurd herror (by simp [hopen (htold.new t ht hst).2.2])
  | submit t armed ht hst => exact absurd herror (by simp [hopen (htold.ready t ht hst).2])
  | noconnect t ht hst => exact absurd herror (by simp [hopen (htold.ready t ht hst).2])
  | timeout t ht ha =>
    obtain rfl := Option.some.inj hu
    exact h t ht (by simpa using herror)
  | answer t msg data ht hst hmsg hp =>
    exact absurd herror (by simp [hopen (htold.pending t ht hst).1])
  | answerPing t msg data ht hst hmsg hp =>
    exact absurd herror (by simp [hopen (htold.pending t ht hst).1])
  | fail t response ht hst hcode =>
    obtain rfl := Option.some.inj hu
    exact ⟨rfl, rfl, response, rfl, hcode⟩
  | defer t ht =>
    obtain rfl := Option.some.inj hu
    exact h t ht (by simpa using herror)
  | delete t ht => cases hu
  | drain t delayed ht hd => cases hu
  | drainDead delayed ht hd => exact h u hu herror
  | forgetPing => exact h u hu herror
  | destroy => cases hu

/-- In a reached state a transaction that was told of an error holds the made-up denial. -/
theorem Running.refused {s : Sys} (h : Running lib s) (p : Ptr) :
    (s.conn.toTransStore.life p).Refused p := by
  have hall : s.conn.toTransStore.Ok lib ∧ (s.conn.toTransStore.life p).Refused p := by
    refine invariant_of_steps (P := fun s => s.Ok lib ∧ (s.life p).Refused p) ?_ h.steps
      ⟨⟨Rep.empty, life_empty_ok⟩, ?_⟩
    · rintro mid last hstep ⟨hok, hmid⟩
      refine ⟨hstep.ok hok, ?_⟩
      rcases hstep.seen hok.rep p with hsame | hmoved
      · rw [hsame]
        exact hmid
      · obtain ⟨waits, timeouts, ends, htold⟩ := (hok.life p).told
        exact hmoved.refused htold hmid
    · rw [life_empty]
      rintro t ⟨⟩
  exact hall.2

end Refusal

/-- In a reached state every answer was brought by a frame. -/
theorem Running.answersParsed {s : Sys} (h : Running lib s) : AnswersParsed s.conn.trace := by
  obtain ⟨new, hrecorded⟩ := StoreSteps.recorded h.steps Rep.empty
  rw [hrecorded.trace]
  exact hrecorded.parsed

/-- The server has answered a transaction: it is done, and a complete response frame with its id
was taken off a connection while it was pending. It was never told of an error. -/
def AnsweredByServer (lib : Mstdlib) (c : Conn) (identifier : ℕ) : Prop :=
  ∃ p t, connGetTransByInternalId c identifier = some p ∧ c.heap p = some t ∧ t.status = .done ∧
    t.transId = identifier ∧ .queued ⟨.transError, some p⟩ ∉ c.trace ∧
    ∃ msg data pre post, readMsg lib msg = some (identifier, data) ∧ t.carries lib data ∧
      c.trace = pre ++ .consumed msg :: .answered p .pending msg :: post

/-- `M_CheckStatus` says so exactly when the transaction is done. -/
theorem mCheckStatus_eq_done {h : Option MConn} {identifier : ℕ}
    (hdone : mCheckStatus h identifier = .done) :
    ∃ t, legacyTrans h identifier = some t ∧ t.status = .done := by
  unfold mCheckStatus at hdone
  split at hdone
  · cases hdone
  · rename_i t ht
    refine ⟨t, ht, ?_⟩
    cases hst : t.status <;> simp_all

/-- Only a transaction that is done can have succeeded. -/
theorem mCheckStatus_of_success {h : Option MConn} {identifier : ℕ}
    (hsuccess : mReturnStatus h identifier = .success) : mCheckStatus h identifier = .done := by
  by_contra hne
  rw [mReturnStatus, if_pos hne] at hsuccess
  cases hsuccess

/-- `M_ReturnStatus` takes no denial for a success. -/
theorem not_denied_of_success {h : Option MConn} {identifier : ℕ} {t : Trans}
    (ht : legacyTrans h identifier = some t) (hst : t.status = .done)
    (hsuccess : mReturnStatus h identifier = .success) : ¬t.denied := by
  rintro ⟨hkv, response, hparams, hcode⟩
  have hparam : mResponseParam h identifier (ascii "code") = some (ascii "DENY") := by
    have hkey : ascii "code" ≠ [] := by decide
    simp [mResponseParam, transResponseParam, ht, hst, hkv, hparams, hcode, hkey]
  have hdelim : mIsCommaDelimited h identifier = false := by simp [mIsCommaDelimited, ht, hkv]
  have hdeny : (strCaseeq (ascii "DENY") (ascii "SUCCESS") ||
      strCaseeq (ascii "DENY") (ascii "AUTH")) = false := by decide
  rw [mReturnStatus, mCheckStatus_of_success hsuccess, hdelim, hparam] at hsuccess
  simp [hdeny] at hsuccess

/-- In every state that calls and events can lead a connection to, a success is an answer of the
server. The states of a legacy connection are among them by `legacy_rested`. -/
theorem answeredByServer_of_success (lib : Mstdlib) (m : MConn) (identifier : ℕ)
    (hs : (monetra lib).Reachable m.sys)
    (hsuccess : mReturnStatus (some m) identifier = .success) :
    AnsweredByServer lib m.sys.conn identifier := by
  have hrunning := running_of_reachable hs
  obtain ⟨t, ht, hst⟩ := mCheckStatus_eq_done (mCheckStatus_of_success hsuccess)
  have hdenied := not_denied_of_success ht hst hsuccess
  have hlookup : (connGetTransByInternalId m.sys.conn identifier).bind m.sys.conn.heap = some t := ht
  obtain ⟨p, hp, hlive⟩ := Option.bind_eq_some_iff.mp hlookup
  obtain ⟨u, hu, hid⟩ := hrunning.rep.mapLive identifier p hp
  obtain rfl := Option.some.inj (hu.symm.trans hlive)
  rcases (hrunning.life p).answered u hu hst with ⟨msg, data, hmem, hmsg, hcarries⟩ | hdeny
  · obtain ⟨pre, post, htrace⟩ := List.append_of_mem (List.mem_of_mem_filter hmem)
    obtain ⟨before, rfl⟩ := hrunning.answersParsed pre p .pending msg post htrace
    rw [List.append_assoc] at htrace
    refine ⟨p, u, hp, hu, hst, hid, fun herror => hdenied ?_, msg, data, before, post, hid ▸ hmsg,
      hcarries, htrace⟩
    exact (hrunning.refused p u hu (List.mem_filter.mpr ⟨herror, by simp [Obs.about]⟩)).2
  · exact absurd hdeny hdenied

/-- The approved sale is reported as a success. -/
theorem answeredByServer_of_success_sale :
    mReturnStatus (some ⟨saleAnswered, true, false⟩) 7 = .success ∧
      AnsweredByServer reference saleAnswered.conn 7 :=
  have hsuccess : mReturnStatus (some ⟨saleAnswered, true, false⟩) 7 = .success := by decide
  ⟨hsuccess, answeredByServer_of_success reference ⟨saleAnswered, true, false⟩ 7
    (saleSent_reachable.run _ answerSale saleAnswered_run) hsuccess⟩

end LibMonetra
