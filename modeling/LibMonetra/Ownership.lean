import LibMonetra.LifeInvariant

/-!
# Who a transaction belongs to

A transaction is created once, by a caller or for a ping, and belongs to its creator as long as it
lives. It is answered once, and the library tells nobody that a ping has found no connection or has run
into a timeout.
-/

namespace LibMonetra

open Foundation

variable {lib : Mstdlib} {q : Ptr} {l l' : Life}

/-- Who created a transaction, and what has been recorded about it so far. -/
structure Life.Owned (q : Ptr) (l : Life) : Prop where
  created : ∀ t, l.trans = some t → .created q t.owner ∈ l.history
  unborn : ¬l.born → ∀ o ∈ l.history, o = .connFreed
  unique : ∀ owner owner', .created q owner ∈ l.history → .created q owner' ∈ l.history → owner = owner'
  unanswered : ∀ t, l.trans = some t → t.status ≠ .done → ∀ status msg,
    .answered q status msg ∉ l.history
  pingTold : .created q .ping ∈ l.history → ∀ type, .queued ⟨type, some q⟩ ∈ l.history →
    type = .transDone ∨ type = .transError

/-- A live transaction belongs to its creator. -/
theorem Life.Owned.owner_eq (h : l.Owned q) {t : Trans} (ht : l.trans = some t) {owner : Owner}
    (hcreated : .created q owner ∈ l.history) : t.owner = owner :=
  h.unique _ _ (h.created t ht) hcreated

/-- A step that keeps the owner, does not create, and answers only what it completes. -/
theorem Life.Owned.later (h : l.Owned q) {later : List Obs} {trans : Option Trans} {ping delayed : Prop}
    {armed : Bool} (hborn : l.born)
    (htrans : ∀ t', trans = some t' → ∃ t, l.trans = some t ∧ t'.owner = t.owner ∧
      (t.status = .done → t'.status = .done) ∧
      (t'.status ≠ .done → ∀ status msg, .answered q status msg ∉ later))
    (hcreated : ∀ owner, .created q owner ∉ later)
    (hqueued : ∀ type, .queued ⟨type, some q⟩ ∈ later → type = .transDone ∨ type = .transError ∨
      ∃ t, l.trans = some t ∧ t.owner = .user) :
    Life.Owned q ⟨l.born, trans, ping, armed, delayed, l.history ++ later⟩ where
  created t' ht' := by
    obtain ⟨t, ht, howner, -⟩ := htrans t' ht'
    exact howner ▸ List.mem_append_left _ (h.created t ht)
  unborn hunborn := absurd hborn hunborn
  unique owner owner' hmem hmem' :=
    h.unique owner owner' ((List.mem_append.mp hmem).resolve_right (hcreated owner))
      ((List.mem_append.mp hmem').resolve_right (hcreated owner'))
  unanswered t' ht' hne status msg hmem := by
    obtain ⟨t, ht, -, hdone, hnew⟩ := htrans t' ht'
    rcases List.mem_append.mp hmem with hmem | hmem
    · exact h.unanswered t ht (fun hst => hne (hdone hst)) status msg hmem
    · exact hnew hne status msg hmem
  pingTold hping type hmem := by
    have hold := (List.mem_append.mp hping).resolve_right (hcreated .ping)
    rcases List.mem_append.mp hmem with hmem | hmem
    · exact h.pingTold hold type hmem
    · rcases hqueued type hmem with hdone | herror | ⟨t, ht, huser⟩
      · exact Or.inl hdone
      · exact Or.inr herror
      · rw [h.owner_eq ht hold] at huser
        cases huser

/-- A new transaction. -/
theorem Life.Owned.new (h : l.Owned q) (hborn : ¬l.born) {t : Trans} {later : List Obs}
    {ping delayed : Prop} {armed : Bool}
    (hlater : ∀ o ∈ later, o = .created q t.owner ∨ ∃ owner status frame, o = .framed q owner status frame)
    (hmem : .created q t.owner ∈ later) :
    Life.Owned q ⟨True, some t, ping, armed, delayed, l.history ++ later⟩ := by
  have hold : ∀ o ∈ l.history ++ later, o = .connFreed ∨ o = .created q t.owner ∨
      ∃ owner status frame, o = .framed q owner status frame :=
    List.forall_mem_append.mpr ⟨fun o ho => Or.inl (h.unborn hborn o ho), fun o ho => Or.inr (hlater o ho)⟩
  have howner : ∀ owner, .created q owner ∈ l.history ++ later → owner = t.owner := by
    intro owner hcreated
    simpa using hold _ hcreated
  refine ⟨fun t' ht' => ?_, fun hunborn => absurd trivial hunborn, fun owner owner' hc hc' => ?_,
    fun t' _ _ status msg hc => ?_, fun _ type hc => ?_⟩
  · obtain rfl := Option.some.inj ht'
    exact List.mem_append_right _ hmem
  · rw [howner owner hc, howner owner' hc']
  · simpa using hold _ hc
  · simpa using hold _ hc

/-- One step keeps the owner. -/
theorem LifeStep.owned (hstep : LifeStep lib q l l') (htimed : l.Timed) (h : l.Owned q) :
    l'.Owned q := by
  have hborn := fun t (ht : l.trans = some t) => htimed.born_of_live ht
  have hone : ∀ (later : List Obs) (t t' : Trans), l.trans = some t → t'.owner = t.owner →
      (t.status = .done → t'.status = .done) →
      (t'.status ≠ .done → ∀ status msg, .answered q status msg ∉ later) →
      ∀ u, some t' = some u → ∃ t, l.trans = some t ∧ u.owner = t.owner ∧
        (t.status = .done → u.status = .done) ∧
        (u.status ≠ .done → ∀ status msg, .answered q status msg ∉ later) := by
    intro later t t' ht howner hdone hnew u hu
    obtain rfl := Option.some.inj hu
    exact ⟨t, ht, howner, hdone, hnew⟩
  cases hstep with
  | create id params hb => exact h.new hb (by simp [Trans.fresh]) (by simp [Trans.fresh])
  | createPing id status hb => exact h.new hb (by simp [Trans.fresh]) (by simp [Trans.fresh])
  | edit t params timeoutS ht hst =>
    have hnone : ∀ owner, Obs.created q owner ∉ [] := by simp
    rw [← List.append_nil l.history]
    exact h.later (hborn t ht) (hone [] t _ ht rfl id (by simp)) hnone (by simp)
  | accept t ht hst =>
    exact h.later (hborn t ht) (hone _ t _ ht rfl (by simp [hst]) (by simp)) (by simp) (by simp)
  | submit t armed ht hst =>
    exact h.later (hborn t ht) (hone _ t _ ht rfl (by simp [hst]) (by simp)) (by simp) (by simp)
  | noconnect t ht hst =>
    have huser := htimed.user_of_status ht (by simp [hst])
    exact h.later (hborn t ht) (fun t' ht' => ⟨t', ht', rfl, id, by simp⟩) (by simp)
      fun type _ => Or.inr (Or.inr ⟨t, ht, huser⟩)
  | timeout t ht ha =>
    obtain ⟨-, huser⟩ := htimed.armed t ht ha
    exact h.later (hborn t ht) (hone _ t _ ht rfl id (by simp)) (by simp)
      fun type _ => Or.inr (Or.inr ⟨t, ht, huser⟩)
  | answer t msg data ht hst hmsg hp =>
    have hdone : (storeResponse lib t data).unarmed.status = .done := storeResponse_status lib t data
    have howner : (storeResponse lib t data).unarmed.owner = t.owner := storeResponse_owner lib t data
    exact h.later (hborn t ht) (hone _ t _ ht howner (fun _ => hdone) fun hne => absurd hdone hne)
      (by simp) (by simp)
  | answerPing t msg data ht hst hmsg hp =>
    have hdone := storeResponse_status lib t data
    exact h.later (hborn t ht)
      (hone _ t _ ht (storeResponse_owner lib t data) (fun _ => hdone) fun hne => absurd hdone hne)
      (by simp) (by simp)
  | fail t response ht hst hcode =>
    exact h.later (hborn t ht) (hone _ t _ ht rfl (fun _ => rfl) (by simp)) (by simp) (by simp)
  | defer t ht =>
    exact h.later (hborn t ht) (hone _ t _ ht rfl id (by simp)) (by simp) (by simp)
  | delete t ht => exact h.later (hborn t ht) (fun t' ht' => by cases ht') (by simp) (by simp)
  | drain t delayed ht hd => exact h.later (hborn t ht) (fun t' ht' => by cases ht') (by simp) (by simp)
  | drainDead delayed ht hd => exact ⟨h.created, h.unborn, h.unique, h.unanswered, h.pingTold⟩
  | forgetPing => exact ⟨h.created, h.unborn, h.unique, h.unanswered, h.pingTold⟩
  | destroy =>
    refine ⟨fun t ht => ?_, fun hb => ?_, fun owner owner' hc hc' => ?_, fun t ht => ?_,
      fun hc type hmem => ?_⟩
    · cases ht
    · exact List.forall_mem_append.mpr ⟨h.unborn hb, by simp⟩
    · exact h.unique owner owner' (by simpa using hc) (by simpa using hc')
    · cases ht
    · exact h.pingTold (by simpa using hc) type (by simpa using hmem)

/-- A completed transaction has been answered, or its failure has been reported. -/
def Life.Completed (q : Ptr) (l : Life) : Prop :=
  ∀ t, l.trans = some t → t.status = .done →
    (∃ msg, .answered q .pending msg ∈ l.history) ∨ .queued ⟨.transError, some q⟩ ∈ l.history

/-- One step keeps the reason for the completion. -/
theorem LifeStep.completed (hstep : LifeStep lib q l l') (h : l.Completed q) : l'.Completed q := by
  have hkeep : ∀ (later : List Obs) (t t' : Trans), l.trans = some t → t'.status = t.status →
      t'.status = .done → (∃ msg, .answered q .pending msg ∈ l.history ++ later) ∨
        .queued ⟨.transError, some q⟩ ∈ l.history ++ later := by
    intro later t t' ht hst hdone
    exact (h t ht (hst ▸ hdone)).imp (Exists.imp fun _ => List.mem_append_left _) (List.mem_append_left _)
  intro u hu hdone
  have hshort : ∀ t : Trans, some t = some u → t.status ≠ .done → False := by
    intro t ht hst
    obtain rfl := Option.some.inj ht
    exact hst hdone
  cases hstep with
  | create id params hb => exact (hshort _ hu TransStatus.noConfusion).elim
  | createPing id status hb => exact (hshort _ hu TransStatus.noConfusion).elim
  | edit t params timeoutS ht hst => exact (hshort _ hu (by simp [hst])).elim
  | accept t ht hst => exact (hshort _ hu TransStatus.noConfusion).elim
  | submit t armed ht hst => exact (hshort _ hu TransStatus.noConfusion).elim
  | noconnect t ht hst => exact hkeep _ u u hu rfl hdone
  | timeout t ht ha =>
    obtain rfl := Option.some.inj hu
    exact hkeep _ t t.unarmed ht rfl hdone
  | answer t msg data ht hst hmsg hp => exact Or.inl ⟨msg, by simp⟩
  | answerPing t msg data ht hst hmsg hp => exact Or.inl ⟨msg, by simp⟩
  | fail t response ht hst hcode => exact Or.inr (by simp)
  | defer t ht =>
    obtain rfl := Option.some.inj hu
    exact hkeep _ t t.unarmed ht rfl hdone
  | delete t ht => cases hu
  | drain t delayed ht hd => cases hu
  | drainDead delayed ht hd => exact h u hu hdone
  | forgetPing => exact h u hu hdone
  | destroy => cases hu

/-- Nobody is told anything more about a transaction that has been completed, or is gone. -/
theorem LifeStep.quiet (hstep : LifeStep lib q l l') (htimed : l.Timed) (hborn : l.born)
    (hdone : ∀ t, l.trans = some t → t.status = .done) :
    (∀ t, l'.trans = some t → t.status = .done) ∧ queuedTypes l'.history = queuedTypes l.history := by
  have hnone : ∀ t (P : Prop), l.trans = some t → t.status ≠ .done → P :=
    fun t P ht hst => absurd (hdone t ht) hst
  have hquiet : ∀ later : List Obs, queuedTypes later = [] →
      queuedTypes (l.history ++ later) = queuedTypes l.history := by
    intro later hlater
    rw [queuedTypes_append, hlater, List.append_nil]
  cases hstep with
  | create id params hb => exact absurd hborn hb
  | createPing id status hb => exact absurd hborn hb
  | edit t params timeoutS ht hst => exact hnone t _ ht (by simp [hst])
  | accept t ht hst => exact hnone t _ ht (by simp [hst])
  | submit t armed ht hst => exact hnone t _ ht (by simp [hst])
  | noconnect t ht hst => exact hnone t _ ht (by simp [hst])
  | timeout t ht ha => exact hnone t _ ht (by simp [(htimed.armed t ht ha).1])
  | answer t msg data ht hst hmsg hp => exact hnone t _ ht (by simp [hst])
  | answerPing t msg data ht hst hmsg hp => exact hnone t _ ht (by simp [hst])
  | fail t response ht hst hcode => exact hnone t _ ht (by simp [hst])
  | defer t ht =>
    refine ⟨fun u hu => ?_, hquiet _ rfl⟩
    obtain rfl := Option.some.inj hu
    exact hdone t ht
  | delete t ht => exact ⟨fun u hu => (by cases hu), hquiet _ rfl⟩
  | drain t delayed ht hd => exact ⟨fun u hu => (by cases hu), hquiet _ rfl⟩
  | drainDead delayed ht hd => exact ⟨hdone, rfl⟩
  | forgetPing => exact ⟨hdone, rfl⟩
  | destroy => exact ⟨fun u hu => (by cases hu), hquiet _ rfl⟩

/-- Nobody is told anything more in a sequence of steps either. -/
theorem LifeSteps.quiet (h : LifeSteps lib q l l') (htimed : l.Timed) (hborn : l.born)
    (hdone : ∀ t, l.trans = some t → t.status = .done) : queuedTypes l'.history = queuedTypes l.history := by
  have hall : l'.Timed ∧ l'.born ∧ (∀ t, l'.trans = some t → t.status = .done) ∧
      queuedTypes l'.history = queuedTypes l.history := by
    refine invariant_of_steps (P := fun k => k.Timed ∧ k.born ∧
      (∀ t, k.trans = some t → t.status = .done) ∧ queuedTypes k.history = queuedTypes l.history) ?_ h
        ⟨htimed, hborn, hdone, rfl⟩
    rintro mid last hstep ⟨hmid, hborn, hdone, hsame⟩
    obtain ⟨hdone', hsame'⟩ := hstep.quiet hmid hborn hdone
    exact ⟨hstep.timed hmid, hstep.born hborn, hdone', hsame'.trans hsame⟩
  exact hall.2.2.2

section Runs

variable {s s' : TransStore}

/-- In a reached state every transaction belongs to its creator. -/
theorem Running.owned {s : Sys} (h : Running lib s) (p : Ptr) :
    (s.conn.toTransStore.life p).Owned p := by
  have hall : s.conn.toTransStore.Ok lib ∧ ∀ q, (s.conn.toTransStore.life q).Owned q := by
    refine invariant_of_steps (P := fun s => s.Ok lib ∧ ∀ q, (s.life q).Owned q) ?_ h.steps
      ⟨⟨Rep.empty, life_empty_ok⟩, fun q => ?_⟩
    · rintro mid last hstep ⟨hok, howned⟩
      refine ⟨hstep.ok hok, fun q => ?_⟩
      rcases hstep.seen hok.rep q with hsame | hmoved
      · rw [hsame]
        exact howned q
      · exact hmoved.owned (hok.life q).timed (howned q)
    · rw [life_empty]
      exact ⟨by simp, by simp, by simp, by simp, by simp⟩
  exact hall.2 p

/-- In a reached state every completed transaction has been answered or reported. -/
theorem Running.completed {s : Sys} (h : Running lib s) (p : Ptr) :
    (s.conn.toTransStore.life p).Completed p := by
  have hall : Rep s.conn.toTransStore ∧ ∀ q, (s.conn.toTransStore.life q).Completed q := by
    refine invariant_of_steps (P := fun s => Rep s ∧ ∀ q, (s.life q).Completed q) ?_ h.steps
      ⟨Rep.empty, fun q => ?_⟩
    · rintro mid last hstep ⟨hrep, hcompleted⟩
      refine ⟨hstep.rep hrep, fun q => ?_⟩
      rcases hstep.seen hrep q with hsame | hmoved
      · rw [hsame]
        exact hcompleted q
      · exact hmoved.completed (hcompleted q)
    · rw [life_empty]
      exact fun t ht => by cases ht
  exact hall.2 p

/-- A record about a transaction is part of its history. -/
theorem mem_historyOf {p : Ptr} {trace : List Obs} {o : Obs} (ho : o.about p = true) :
    o ∈ historyOf p trace ↔ o ∈ trace := by
  rw [historyOf, List.mem_filter, and_iff_left ho]

/-- A live transaction belongs to its creator. -/
theorem Running.owner_eq {s : Sys} (h : Running lib s) {p : Ptr} {t : Trans} {owner : Owner}
    (ht : s.conn.heap p = some t) (hcreated : .created p owner ∈ s.conn.trace) : t.owner = owner :=
  (h.owned p).owner_eq ht ((mem_historyOf (by simp [Obs.about])).mpr hcreated)

/-- A live transaction has been created by its owner. -/
theorem Running.created {s : Sys} (h : Running lib s) {p : Ptr} {t : Trans} (ht : s.conn.heap p = some t) :
    .created p t.owner ∈ s.conn.trace :=
  (mem_historyOf (by simp [Obs.about])).mp ((h.owned p).created t ht)

/-- A transaction that has been answered is `DONE`. -/
theorem Running.done_of_answered {s : Sys} (h : Running lib s) {p : Ptr} {t : Trans} {status : TransStatus}
    {msg : Bytes} (ht : s.conn.heap p = some t) (hp : .answered p status msg ∈ s.conn.trace) :
    t.status = .done := by
  by_contra hne
  exact (h.owned p).unanswered t ht hne status msg ((mem_historyOf (by simp [Obs.about])).mpr hp)

end Runs

end LibMonetra
