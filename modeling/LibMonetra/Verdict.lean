import LibMonetra.Listing

/-!
# The two verdicts of the legacy API

`M_ReturnStatus` asks first whether a transaction is done; `M_ReturnCode` does not, and takes every
response that is not key/value for a success, also one whose type is unknown because it has not arrived.
The one compares the code of the response ignoring case, the other does not.
-/

namespace LibMonetra

open Foundation

variable {lib : Mstdlib}

/-- The result of `M_ReturnCode`. -/
inductive ReturnCode
  | success
  | auth
  | deny
  | dupl
  | call
  | pkup
  | retry
  | setup
  | fail
  | timeout
  | error
  deriving DecidableEq, Repr

/-- `M_ReturnCode`. -/
def mReturnCode (h : Option MConn) (identifier : ℕ) : ReturnCode :=
  if mIsCommaDelimited h identifier then .success
  else
    match mResponseParam h identifier (ascii "code") with
    | none => .error
    | some v =>
      if v = ascii "AUTH" then .auth
      else if v = ascii "DENY" then .deny
      else if v = ascii "DUPL" then .dupl
      else if v = ascii "CALL" then .call
      else if v = ascii "PKUP" then .pkup
      else if v = ascii "RETRY" then .retry
      else if v = ascii "SETUP" then .setup
      else if v = ascii "SUCCESS" then .success
      else if v = ascii "FAIL" then .fail
      else if v = ascii "TIMEOUT" then .timeout
      else .deny

/-- A code that reports an approval. -/
def ReturnCode.Approves (code : ReturnCode) : Prop := code = .auth ∨ code = .success

/-- The two functions agree on an identifier. -/
def VerdictsAgree (h : Option MConn) (identifier : ℕ) : Prop :=
  (mReturnCode h identifier).Approves ↔ mReturnStatus h identifier = .success

/-- The type of a response is unknown until the transaction is done. -/
def Life.Untyped (l : Life) : Prop :=
  ∀ t, l.trans = some t → t.status ≠ .done → t.responseType = .unknown

/-- One step sets the type of a response with the status. -/
theorem LifeStep.untyped {q : Ptr} {l l' : Life} (hstep : LifeStep lib q l l') (h : l.Untyped) :
    l'.Untyped := by
  intro u hu hst
  cases hstep with
  | create id params hb =>
    cases hu
    rfl
  | createPing id status hb =>
    cases hu
    rfl
  | edit t params timeoutS ht hnew =>
    cases hu
    exact h t ht hst
  | accept t ht hnew =>
    cases hu
    exact h t ht (by simp [hnew])
  | submit t armed ht hready =>
    cases hu
    exact h t ht (by simp [hready])
  | noconnect t ht hready => exact h u hu hst
  | timeout t ht harmed =>
    cases hu
    exact h t ht hst
  | answer t msg data ht hpending hmsg hp =>
    cases hu
    exact absurd (storeResponse_status lib t data) hst
  | answerPing t msg data ht hpending hmsg hp =>
    cases hu
    exact absurd (storeResponse_status lib t data) hst
  | fail t response ht hpending hcode =>
    cases hu
    exact absurd rfl hst
  | defer t ht =>
    cases hu
    exact h t ht hst
  | delete t ht => cases hu
  | drain t delayed ht hd => cases hu
  | drainDead delayed ht hd => exact h u hu hst
  | forgetPing => exact h u hu hst
  | destroy => cases hu

/-- In a reached state only a transaction that is done has a response type. -/
theorem Running.untyped {s : Sys} (h : Running lib s) (p : Ptr) :
    (s.conn.toTransStore.life p).Untyped := by
  have hall : Rep s.conn.toTransStore ∧ (s.conn.toTransStore.life p).Untyped := by
    refine invariant_of_steps (P := fun s => Rep s ∧ (s.life p).Untyped) ?_ h.steps ⟨Rep.empty, ?_⟩
    · rintro mid last hstep ⟨hrep, huntyped⟩
      refine ⟨hstep.rep hrep, ?_⟩
      rcases hstep.seen hrep p with hsame | hmoved
      · rw [hsame]
        exact huntyped
      · exact hmoved.untyped huntyped
    · rw [life_empty]
      rintro t ⟨⟩
  exact hall.2

/-- A code that `M_ReturnCode` takes for the one that it agrees with ignoring case. -/
def SpelledExactly (code : Bytes) : Prop :=
  (strCaseeq code (ascii "AUTH") = true → code = ascii "AUTH") ∧
    (strCaseeq code (ascii "SUCCESS") = true → code = ascii "SUCCESS")

/-- A choice between two codes that report no approval reports none. -/
theorem ReturnCode.not_approves_ite {c : Prop} [Decidable c] {code other : ReturnCode}
    (hcode : ¬code.Approves) (hother : ¬other.Approves) : ¬(if c then code else other).Approves := by
  split
  · exact hcode
  · exact hother

section Response

variable {h : Option MConn} {identifier : ℕ} {t : Trans}

/-- `M_ReturnCode` approves of two codes. -/
theorem mReturnCode_approves_iff {code : Bytes} (hkv : mIsCommaDelimited h identifier = false)
    (hcode : mResponseParam h identifier (ascii "code") = some code) :
    (mReturnCode h identifier).Approves ↔ code = ascii "AUTH" ∨ code = ascii "SUCCESS" := by
  rw [mReturnCode, hkv, hcode, if_neg Bool.false_ne_true]
  by_cases hauth : code = ascii "AUTH"
  · simp [hauth, ReturnCode.Approves]
  · by_cases hsuccess : code = ascii "SUCCESS"
    · subst hsuccess
      exact iff_of_true (Or.inr (by decide)) (Or.inr rfl)
    · refine iff_of_false ?_ (not_or.mpr ⟨hauth, hsuccess⟩)
      simp only [if_neg hauth, if_neg hsuccess]
      iterate 8 refine ReturnCode.not_approves_ite (by simp [ReturnCode.Approves]) ?_
      simp [ReturnCode.Approves]

/-- `M_ReturnStatus` approves of the same codes, ignoring case. -/
theorem mReturnStatus_success_iff {code : Bytes} (hdone : mCheckStatus h identifier = .done)
    (hkv : mIsCommaDelimited h identifier = false)
    (hcode : mResponseParam h identifier (ascii "code") = some code) :
    mReturnStatus h identifier = .success ↔
      strCaseeq code (ascii "AUTH") = true ∨ strCaseeq code (ascii "SUCCESS") = true := by
  rw [mReturnStatus, if_neg (not_not.mpr hdone), hkv, hcode, if_neg Bool.false_ne_true]
  simp only
  rw [← Bool.or_eq_true, Bool.or_comm]
  split <;> simp_all

/-- The verdicts agree on a transaction that is done unless its code is spelled in another case. -/
theorem verdictsAgree_of_done (ht : legacyTrans h identifier = some t) (hst : t.status = .done) :
    VerdictsAgree h identifier ↔
      ∀ code, mResponseParam h identifier (ascii "code") = some code → SpelledExactly code := by
  have hdone : mCheckStatus h identifier = .done := by simp [mCheckStatus, ht, hst]
  have hparam : t.responseType ≠ .kv → mResponseParam h identifier (ascii "code") = none := by
    intro hkv
    have hkey : ascii "code" ≠ [] := by decide
    simp [mResponseParam, transResponseParam, ht, hkv, hkey]
  by_cases hkv : t.responseType = .kv
  · have hdelim : mIsCommaDelimited h identifier = false := by simp [mIsCommaDelimited, ht, hkv]
    cases hcode : mResponseParam h identifier (ascii "code") with
    | none =>
      refine iff_of_true (iff_of_false ?_ ?_) (fun code hsome => ?_)
      · simp [mReturnCode, hdelim, hcode, ReturnCode.Approves]
      · simp [mReturnStatus, hdone, hdelim, hcode]
      · cases hsome
    | some code =>
      have hexact : ∀ {name : Bytes}, code = name → strCaseeq code name = true := by
        rintro name rfl
        simp [strCaseeq]
      rw [VerdictsAgree, mReturnCode_approves_iff hdelim hcode, mReturnStatus_success_iff hdone hdelim hcode]
      constructor
      · rintro hagree _ ⟨⟩
        have hdiffer : strCaseeq (ascii "SUCCESS") (ascii "AUTH") = false ∧
            strCaseeq (ascii "AUTH") (ascii "SUCCESS") = false := by decide
        constructor
        · intro hauth
          refine (hagree.mpr (Or.inl hauth)).resolve_right ?_
          rintro rfl
          rw [hdiffer.1] at hauth
          cases hauth
        · intro hsuccess
          refine (hagree.mpr (Or.inr hsuccess)).resolve_left ?_
          rintro rfl
          rw [hdiffer.2] at hsuccess
          cases hsuccess
      · intro hspelled
        obtain ⟨hauth, hsuccess⟩ := hspelled code rfl
        exact or_congr ⟨hexact, hauth⟩ ⟨hexact, hsuccess⟩
  · have hdelim : mIsCommaDelimited h identifier = true := by simp [mIsCommaDelimited, ht, hkv]
    refine iff_of_true (iff_of_true ?_ ?_) (fun code hcode => ?_)
    · simp [mReturnCode, hdelim, ReturnCode.Approves]
    · simp [mReturnStatus, hdone, hdelim]
    · rw [hparam hkv] at hcode
      cases hcode

end Response

/-- The verdicts agree exactly on an identifier that is not in use, and on a transaction that is done
and whose code is spelled in upper case when it reports an approval. -/
theorem verdictsAgree_iff {h : Option MConn} (hs : (legacy lib).Reachable h) (identifier : ℕ) :
    VerdictsAgree h identifier ↔ mCheckStatus h identifier = .unused ∨
      (mCheckStatus h identifier = .done ∧
        ∀ code, mResponseParam h identifier (ascii "code") = some code → SpelledExactly code) := by
  cases ht : legacyTrans h identifier with
  | none =>
    have hunused : mCheckStatus h identifier = .unused := by simp [mCheckStatus, ht]
    have hkey : ascii "code" ≠ [] := by decide
    refine iff_of_true (iff_of_false ?_ ?_) (Or.inl hunused)
    · simp [mReturnCode, mIsCommaDelimited, mResponseParam, ht, hkey, ReturnCode.Approves]
    · simp [mReturnStatus, hunused]
  | some t =>
    by_cases hst : t.status = .done
    · have hdone : mCheckStatus h identifier = .done := by simp [mCheckStatus, ht, hst]
      simp [verdictsAgree_of_done ht hst, hdone]
    · have huntyped : t.responseType = .unknown := by
        obtain ⟨m, rfl, hlookup⟩ := Option.bind_eq_some_iff.mp ht
        obtain ⟨p, -, hlive⟩ := Option.bind_eq_some_iff.mp hlookup
        exact (running_of_reachable (legacy_rested hs rfl).reachable).untyped p t hlive hst
      have hwaiting : mCheckStatus h identifier ≠ .unused ∧ mCheckStatus h identifier ≠ .done := by
        unfold mCheckStatus
        rw [ht]
        simp only
        cases hstatus : t.status with
        | done => exact absurd hstatus hst
        | new => simp
        | ready => simp
        | pending => simp
      refine iff_of_false ?_ ?_
      · intro hagree
        have happroved : (mReturnCode h identifier).Approves := by
          simp [mReturnCode, mIsCommaDelimited, ht, huntyped, ReturnCode.Approves]
        exact hwaiting.2 (mCheckStatus_of_success (hagree.mp happroved))
      · rintro (hunused | ⟨hdone, -⟩)
        · exact hwaiting.1 hunused
        · exact hwaiting.2 hdone

/-- A caller creates a transaction. -/
def legacyNew : MConn :=
  (((legacy reference).run (some mInitConn) [.transNew [saleDraw]]).get (by decide)).get (by decide)

/-- This state is reachable. -/
theorem legacyNew_reachable : (legacy reference).Reachable (some legacyNew) := by
  have h := System.reachable_get (legacy reference) (rfl : (legacy reference).init (some mInitConn))
    [.transNew [saleDraw]] (by decide)
  rwa [legacyNew, Option.some_get]

/-- The verdicts on the approved sale agree. -/
theorem verdictsAgree_iff_sale :
    mReturnCode (some legacyAnswered) 7 = .auth ∧ mReturnStatus (some legacyAnswered) 7 = .success ∧
      VerdictsAgree (some legacyAnswered) 7 := by
  refine ⟨by decide, by decide, (verdictsAgree_iff legacyAnswered_reachable 7).mpr (Or.inr ⟨by decide, ?_⟩)⟩
  intro code hcode
  obtain rfl : ascii "AUTH" = code := by
    have hauth : mResponseParam (some legacyAnswered) 7 (ascii "code") = some (ascii "AUTH") := by decide
    exact Option.some.inj (hauth.symm.trans hcode)
  exact ⟨fun _ => rfl, by decide⟩

/-- A transaction that has not been sent is an approved one to `M_ReturnCode`. -/
theorem legacy_not_verdictsAgree :
    ¬∀ h identifier, (legacy reference).Reachable h → VerdictsAgree h identifier := by
  intro h
  have hagree := h (some legacyNew) 7 legacyNew_reachable
  have hsuccess : mReturnCode (some legacyNew) 7 = .success := by decide
  exact absurd (hagree.mp (Or.inr hsuccess)) (by decide)

end LibMonetra
