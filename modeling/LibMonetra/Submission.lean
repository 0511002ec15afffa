import LibMonetra.Notification

/-!
# Requests on the wire

The request of a transaction goes out at most once, after `LM_trans_send` accepted it and in the
order of the acceptances, while the connection is up; and a caller who hears that there was no
connection can be sure that the request has not gone out.
-/

namespace LibMonetra

open Foundation

variable {lib : Mstdlib} {s s' : TransStore}

/-- The transactions that `LM_trans_send` accepted, in order. -/
def acceptedOf (trace : List Obs) : List Ptr :=
  trace.filterMap fun o => match o with
    | .accepted p => some p
    | _ => none

/-- The callers' transactions whose request frame was appended to `outbuf`, in order. -/
def framedOf (trace : List Obs) : List Ptr :=
  trace.filterMap fun o => match o with
    | .framed p .user _ _ => some p
    | _ => none

@[simp] theorem acceptedOf_append (trace later : List Obs) :
    acceptedOf (trace ++ later) = acceptedOf trace ++ acceptedOf later := List.filterMap_append

@[simp] theorem framedOf_append (trace later : List Obs) :
    framedOf (trace ++ later) = framedOf trace ++ framedOf later := List.filterMap_append

/-- An accepted transaction has its acceptance in its history. -/
theorem mem_historyOf_of_mem_acceptedOf {p : Ptr} {trace : List Obs} (h : p ∈ acceptedOf trace) :
    .accepted p ∈ historyOf p trace := by
  obtain ⟨o, ho, hp⟩ := List.mem_filterMap.mp h
  refine List.mem_filter.mpr ?_
  cases o <;> simp_all [Obs.about]

/-- A framed transaction has its frame in its history. -/
theorem mem_historyOf_of_mem_framedOf {p : Ptr} {trace : List Obs} (h : p ∈ framedOf trace) :
    ∃ status frame, .framed p .user status frame ∈ historyOf p trace := by
  obtain ⟨o, ho, hp⟩ := List.mem_filterMap.mp h
  cases o with
  | framed q owner status frame =>
    cases owner with
    | user =>
      obtain rfl := Option.some.inj hp
      exact ⟨status, frame, List.mem_filter.mpr ⟨ho, by simp [Obs.about]⟩⟩
    | ping => cases hp
  | _ => cases hp

/-- What a run keeps about the requests. -/
structure Submission (s : TransStore) : Prop where
  accepted : (acceptedOf s.trace).Nodup
  order : (framedOf s.trace ++ s.transReady).Sublist (acceptedOf s.trace)
  prefixes : ∀ pre post, s.trace = pre ++ post → (framedOf pre).Sublist (acceptedOf pre)
  connected : ∀ p status frame, .framed p .user status frame ∈ s.trace → status = .connected
  undelivered : ∀ p, ⟨.transNoconnect, some p⟩ ∈ s.events → p ∉ framedOf s.trace
  reported : ∀ pre p post, s.trace = pre ++ .callback ⟨.transNoconnect, some p⟩ :: post →
    p ∉ framedOf pre

/-- Whether a record says nothing about the order of requests. -/
def Obs.plain : Obs → Bool
  | .accepted _ | .framed _ .user _ _ => false
  | _ => true

/-- Plain records accept nothing. -/
theorem acceptedOf_plain {later : List Obs} (h : ∀ o ∈ later, o.plain = true) :
    acceptedOf later = [] := by
  refine List.filterMap_eq_nil_iff.mpr fun o ho => ?_
  have hplain := h o ho
  cases o <;> simp_all [Obs.plain]

/-- Plain records submit nothing. -/
theorem framedOf_plain {later : List Obs} (h : ∀ o ∈ later, o.plain = true) :
    framedOf later = [] := by
  refine List.filterMap_eq_nil_iff.mpr fun o ho => ?_
  have hplain := h o ho
  cases o with
  | framed p owner status frame => cases owner <;> simp_all [Obs.plain]
  | _ => rfl

/-- Steps that neither accept nor submit keep the order of requests. What they report or are about
to report must not have gone out. -/
theorem Submission.plain (h : Submission s) (new : List Obs) (htrace : s'.trace = s.trace ++ new)
    (hnew : ∀ o ∈ new, o.plain = true)
    (hready : (s'.connQueue .ready).Sublist (s.connQueue .ready))
    (hevents : ∀ p, ⟨.transNoconnect, some p⟩ ∈ s'.events → p ∉ framedOf s.trace)
    (hreports : ∀ p, .callback ⟨.transNoconnect, some p⟩ ∈ new → p ∉ framedOf s.trace) :
    Submission s' := by
  have haccepted : acceptedOf s'.trace = acceptedOf s.trace := by
    rw [htrace, acceptedOf_append, acceptedOf_plain hnew, List.append_nil]
  have hframed : framedOf s'.trace = framedOf s.trace := by
    rw [htrace, framedOf_append, framedOf_plain hnew, List.append_nil]
  refine ⟨?_, ?_, fun pre post hsplit => ?_, fun p status frame hmem => ?_, fun p hp => ?_,
    fun pre p post hsplit => ?_⟩
  · rw [haccepted]
    exact h.accepted
  · rw [haccepted, hframed]
    exact (List.Sublist.append_left hready _).trans h.order
  · rw [htrace, List.append_eq_append_iff] at hsplit
    rcases hsplit with ⟨middle, rfl, rfl⟩ | ⟨middle, hold, -⟩
    · have hmiddle : ∀ o ∈ middle, o.plain = true := fun o ho => hnew o (List.mem_append_left _ ho)
      rw [acceptedOf_append, framedOf_append, acceptedOf_plain hmiddle, framedOf_plain hmiddle,
        List.append_nil, List.append_nil]
      exact h.prefixes s.trace [] (List.append_nil _).symm
    · exact h.prefixes pre middle hold
  · rw [htrace, List.mem_append] at hmem
    rcases hmem with hold | hmem
    · exact h.connected p status frame hold
    · exact absurd (hnew _ hmem) (by simp [Obs.plain])
  · rw [hframed]
    exact hevents p hp
  · rw [htrace, List.append_eq_append_iff] at hsplit
    rcases hsplit with ⟨middle, rfl, rfl⟩ | ⟨middle, hold, hrest⟩
    · have hmiddle : ∀ o ∈ middle, o.plain = true := fun o ho => hnew o (List.mem_append_left _ ho)
      rw [framedOf_append, framedOf_plain hmiddle, List.append_nil]
      exact hreports p (List.mem_append_right middle List.mem_cons_self)
    · cases middle with
      | nil =>
        rw [List.nil_append] at hrest
        rw [List.append_nil] at hold
        exact hold ▸ hreports p (hrest ▸ List.mem_cons_self)
      | cons o middle =>
        obtain ⟨rfl, -⟩ := List.cons.inj hrest
        exact h.reported pre p middle hold

/-- An acceptance puts the transaction at the end of the order. -/
theorem Submission.accept (h : Submission s) {p : Ptr} {t : Trans} (hnew : p ∉ acceptedOf s.trace)
    (hst : t.status = .new) :
    Submission ((s.move p t { t with status := .ready }).log (.accepted p)) := by
  have htrace : ((s.move p t { t with status := .ready }).log (.accepted p)).trace =
      s.trace ++ [.accepted p] := by simp [TransStore.log]
  have hready : ((s.move p t { t with status := .ready }).log (.accepted p)).transReady =
      s.transReady ++ [p] := by
    have hqueue := TransStore.connQueue_move s p t { t with status := .ready } .ready
    change (s.move p t { t with status := .ready }).transReady = _
    simpa [TransStore.connQueue, hst] using hqueue
  have hevents : ((s.move p t { t with status := .ready }).log (.accepted p)).events = s.events := by
    simp [TransStore.log]
  have haccepted : acceptedOf [.accepted p] = [p] := rfl
  have hframed : framedOf [.accepted p] = [] := rfl
  refine ⟨?_, ?_, fun pre post hsplit => ?_, fun q status frame hmem => ?_, fun q hq => ?_,
    fun pre q post hsplit => ?_⟩
  · rw [htrace, acceptedOf_append, haccepted]
    refine List.nodup_append.mpr ⟨h.accepted, List.nodup_singleton p, ?_⟩
    rintro q hq r hr rfl
    rw [List.mem_singleton] at hr
    exact hnew (hr ▸ hq)
  · rw [htrace, hready, acceptedOf_append, framedOf_append, haccepted, hframed, List.append_nil,
      ← List.append_assoc]
    exact List.Sublist.append_right h.order [p]
  · rw [htrace, List.append_eq_append_iff] at hsplit
    rcases hsplit with ⟨middle, rfl, hrest⟩ | ⟨middle, hold, -⟩
    · rw [acceptedOf_append, framedOf_append]
      have hnone : framedOf middle = [] := by
        have hboth : framedOf (middle ++ post) = [] := by rw [← hrest, hframed]
        rw [framedOf_append, List.append_eq_nil_iff] at hboth
        exact hboth.1
      rw [hnone, List.append_nil]
      exact (h.prefixes s.trace [] (List.append_nil _).symm).trans (List.sublist_append_left _ _)
    · exact h.prefixes pre middle hold
  · rw [htrace, List.mem_append] at hmem
    exact h.connected q status frame (hmem.resolve_right (by simp))
  · rw [htrace, framedOf_append, hframed, List.append_nil]
    exact h.undelivered q (hevents ▸ hq)
  · rw [htrace, List.append_eq_append_iff] at hsplit
    rcases hsplit with ⟨middle, -, hrest⟩ | ⟨middle, hold, hrest⟩
    · cases middle <;> simp at hrest
    · cases middle with
      | nil => simp at hrest
      | cons o middle =>
        obtain ⟨rfl, -⟩ := List.cons.inj hrest
        exact h.reported pre q middle hold

/-- A submission takes the first waiting transaction. -/
theorem Submission.submit (h : Submission s) {p : Ptr} {t : Trans} {rest : List Ptr} {armed : Bool}
    {interval : ℕ} {frame : Bytes} (hready : s.transReady = p :: rest) (hst : t.status = .ready)
    (huser : t.owner = .user) (hquiet : s.quiet) : Submission (s.submit p t armed interval frame) := by
  have htrace := TransStore.trace_submit s p t armed interval frame
  rw [huser] at htrace
  have hready' : (s.submit p t armed interval frame).transReady = rest := by
    have hqueue := TransStore.connQueue_submit s p t .ready armed interval frame
    simpa [TransStore.connQueue, hst, hready] using hqueue
  have haccepted : acceptedOf [.framed p .user .connected frame] = [] := rfl
  have hframed : framedOf [.framed p .user .connected frame] = [p] := rfl
  have horder : (framedOf s.trace ++ [p] ++ rest).Sublist (acceptedOf s.trace) := by
    rw [List.append_assoc, List.singleton_append, ← hready]
    exact h.order
  refine ⟨?_, ?_, fun pre post hsplit => ?_, fun q status frame' hmem => ?_, fun q hq => ?_,
    fun pre q post hsplit => ?_⟩
  · rw [htrace, acceptedOf_append, haccepted, List.append_nil]
    exact h.accepted
  · rw [htrace, hready', acceptedOf_append, framedOf_append, haccepted, hframed, List.append_nil]
    exact horder
  · rw [htrace, List.append_eq_append_iff] at hsplit
    rcases hsplit with ⟨middle, rfl, hrest⟩ | ⟨middle, hold, -⟩
    · have hsub : (framedOf (s.trace ++ middle)).Sublist (framedOf s.trace ++ [p]) := by
        rw [framedOf_append, ← hframed, hrest, framedOf_append]
        exact List.Sublist.append_left (List.sublist_append_left _ _) _
      refine (hsub.trans ((List.sublist_append_left _ _).trans horder)).trans ?_
      rw [acceptedOf_append]
      exact List.sublist_append_left _ _
    · exact h.prefixes pre middle hold
  · rw [htrace, List.mem_append, List.mem_singleton] at hmem
    rcases hmem with hold | hnew
    · exact h.connected q status frame' hold
    · cases hnew
      rfl
  · exact absurd rfl (hquiet _ (by simpa using hq))
  · rw [htrace, List.append_eq_append_iff] at hsplit
    rcases hsplit with ⟨middle, -, hrest⟩ | ⟨middle, hold, hrest⟩
    · cases middle <;> simp at hrest
    · cases middle with
      | nil => simp at hrest
      | cons o middle =>
        obtain ⟨rfl, -⟩ := List.cons.inj hrest
        exact h.reported pre q middle hold

section Steps

/-- An undelivered event of a connection that gained none was there before. -/
theorem Submission.still_undelivered (h : Submission s) {type : EventType} {q : Option Ptr}
    (htype : type ≠ .transNoconnect) :
    ∀ p, ⟨.transNoconnect, some p⟩ ∈ s.events ++ [⟨type, q⟩] → p ∉ framedOf s.trace := by
  intro p hp
  rw [List.mem_append, List.mem_singleton] at hp
  rcases hp with hold | hnew
  · exact h.undelivered p hold
  · exact absurd (congrArg Event.type hnew).symm htype

/-- One step of the library keeps the order of requests. -/
theorem InternalStep.submission (hstep : InternalStep lib s s') (hok : s.Ok lib)
    (h : Submission s) : Submission s' := by
  have hsame := h.undelivered
  have hnone : ∀ p, Obs.callback ⟨.transNoconnect, some p⟩ ∈ ([] : List Obs) → p ∉ framedOf s.trace :=
    fun p hp => absurd hp List.not_mem_nil
  cases hstep with
  | createPing id status hfree hlow hhigh =>
    refine h.plain [.created s.nextPtr .ping, .framed s.nextPtr .ping status (requestFrame lib id pingParams)]
      (by simp [TransStore.log]) (by simp [Obs.plain]) ?_ (by simpa [TransStore.log] using hsame) (by simp)
    change ((s.create _).connQueue .ready).Sublist _
    simp [Trans.fresh]
  | submit p t rest armed interval hready ht hst hevents =>
    exact h.submit hready hst ((hok.life p).timed.user_of_status ht (by simp [hst])) hevents
  | noconnect p hp =>
    obtain ⟨t, ht, hst⟩ := hok.rep.queued .ready p hp
    refine h.plain [.queued ⟨.transNoconnect, some p⟩] rfl (by simp [Obs.plain]) (by simp) ?_ (by simp)
    intro q hq
    simp only [TransStore.connEventAdd, List.mem_append, List.mem_singleton] at hq
    rcases hq with hold | hnew
    · exact hsame q hold
    · obtain rfl : q = p := by simpa using hnew
      intro hmem
      obtain ⟨status, frame, hframe⟩ := mem_historyOf_of_mem_framedOf hmem
      exact (hok.life q).sent.waiting t ht (Or.inr hst) .user status frame hframe
  | timeout p t interval ht htimer =>
    exact h.plain [.queued ⟨.transTimeout, some p⟩] rfl (by simp [Obs.plain]) (List.Sublist.refl _)
      (h.still_undelivered (by decide)) (by simp)
  | answer p t msg data ht hst hmsg hping =>
    refine h.plain [.consumed msg, .answered p .pending msg, .queued ⟨.transDone, some p⟩]
      (by simp [TransStore.connEventAdd]) (by simp [Obs.plain]) ?_ ?_ (by simp)
    · rw [TransStore.connQueue_killTimeoutTimer, TransStore.connQueue_connEventAdd]
      change ((s.move p t _).connQueue .ready).Sublist _
      simp [hst]
    · simpa [TransStore.connEventAdd] using h.still_undelivered (q := some p)
        (show EventType.transDone ≠ .transNoconnect by decide)
  | answerPing p t msg data ht hst hmsg hping =>
    refine h.plain [.consumed msg, .answered p .pending msg] (by simp) (by simp [Obs.plain]) ?_
      (by simpa using hsame) (by simp)
    change ((s.move p t _).connQueue .ready).Sublist _
    simp [hst]
  | fail p t rest response hpending ht hst hcode =>
    refine h.plain [.queued ⟨.transError, some p⟩] (by simp [TransStore.connEventAdd])
      (by simp [Obs.plain]) ?_ ?_ (by simp)
    · simp [Trans.failed, hst]
    · simpa [TransStore.connEventAdd] using h.still_undelivered (q := some p)
        (show EventType.transError ≠ .transNoconnect by decide)
  | retirePing p t ht hping =>
    refine h.plain [.deleted p] (by simp [TransStore.defer, TransStore.log]) (by simp [Obs.plain])
      (by simp) ?_ (by simp)
    simpa [TransStore.defer, TransStore.log] using hsame
  | drain p t rest hdelay ht =>
    refine h.plain [.freed p] rfl (by simp [Obs.plain]) ?_ ?_ (by simp)
    · rw [TransStore.connQueue_free]
      split
      · exact List.erase_sublist
      · exact List.Sublist.refl _
    · rw [TransStore.events_free]
      exact hsame
  | drainDead p rest hdelay hdead =>
    exact h.plain [] (List.append_nil _).symm (by simp) (List.Sublist.refl _) hsame hnone
  | connEvent type htype =>
    refine h.plain [.queued ⟨type, none⟩] rfl (by simp [Obs.plain]) (by simp)
      (h.still_undelivered ?_) (by simp)
    rcases htype with rfl | rfl | rfl <;> decide
  | deliver e rest hevents =>
    refine h.plain [.callback e] rfl (by simp [Obs.plain]) (List.Sublist.refl _)
      (fun p hp => hsame p (hevents ▸ List.mem_cons_of_mem e hp)) fun p hp => ?_
    obtain rfl := Obs.callback.inj (List.mem_singleton.mp hp)
    exact hsame p (hevents ▸ List.mem_cons_self)
  | dropEvents =>
    exact h.plain [] (List.append_nil _).symm (by simp) (List.Sublist.refl _)
      (fun p hp => absurd hp List.not_mem_nil) hnone
  | forgetPing =>
    exact h.plain [] (List.append_nil _).symm (by simp) (List.Sublist.refl _) hsame hnone
  | consume msg =>
    exact h.plain [.consumed msg] rfl (by simp [Obs.plain]) (List.Sublist.refl _) hsame (by simp)

/-- One step keeps the order of requests. -/
theorem StoreStep.submission (hstep : StoreStep lib s s') (hok : s.Ok lib) (h : Submission s) :
    Submission s' := by
  have hsame := h.undelivered
  have hnone : ∀ p, Obs.callback ⟨.transNoconnect, some p⟩ ∈ ([] : List Obs) → p ∉ framedOf s.trace :=
    fun p hp => absurd hp List.not_mem_nil
  cases hstep with
  | create id params hfree hlow hhigh =>
    refine h.plain [.created s.nextPtr .user] (by simp [TransStore.log]) (by simp [Obs.plain]) ?_
      (by simpa [TransStore.log] using hsame) (by simp)
    simp [Trans.fresh]
  | edit p t params timeoutS ht hst =>
    exact h.plain [] (List.append_nil _).symm (by simp) (by simp) hsame hnone
  | accept p t ht hst =>
    exact h.accept (fun hmem => (hok.life p).sent.new t ht hst (mem_historyOf_of_mem_acceptedOf hmem)) hst
  | defer p t ht =>
    refine h.plain [.deleted p] (by simp [TransStore.defer, TransStore.log]) (by simp [Obs.plain])
      (by simp) ?_ (by simp)
    simpa [TransStore.defer, TransStore.log] using hsame
  | delete p t ht =>
    refine h.plain [.deleted p, .freed p] (by simp [TransStore.log]) (by simp [Obs.plain]) ?_ ?_ (by simp)
    · rw [TransStore.connQueue_free]
      split <;> simp [List.erase_sublist]
    · simpa [TransStore.log] using hsame
  | destroy =>
    exact h.plain [.connFreed] rfl (by simp [Obs.plain]) (List.nil_sublist _) hsame (by simp)
  | internal s' hinternal => exact hinternal.submission hok h

/-- Nothing has been requested over a new connection. -/
theorem Submission.empty : Submission .empty where
  accepted := List.nodup_nil
  order := List.Sublist.refl _
  prefixes pre post hsplit := by
    obtain ⟨rfl, -⟩ := List.append_eq_nil_iff.mp hsplit.symm
    exact List.Sublist.refl _
  connected p status frame hmem := absurd hmem List.not_mem_nil
  undelivered p hp := absurd hp List.not_mem_nil
  reported pre p post hsplit := by simp [TransStore.empty] at hsplit

end Steps

/-- Whatever has happened to a connection, requests went out at most once, in the order of their
acceptances, over a connection that was up, and never before a report that there was none. -/
structure InOrder (trace : List Obs) : Prop where
  once : (framedOf trace).Nodup
  accepted : (acceptedOf trace).Nodup
  ordered : ∀ pre post, trace = pre ++ post → (framedOf pre).Sublist (acceptedOf pre)
  connected : ∀ p status frame, .framed p .user status frame ∈ trace → status = .connected
  reported : ∀ pre p post, trace = pre ++ .callback ⟨.transNoconnect, some p⟩ :: post →
    p ∉ framedOf pre

/-- Every reachable state has submitted its requests in order. -/
theorem reachable_inOrder (lib : Mstdlib) (s : Sys) (hs : (monetra lib).Reachable s) :
    InOrder s.conn.trace := by
  have hsteps := (running_of_reachable hs).steps
  have hall : s.conn.toTransStore.Ok lib ∧ Submission s.conn.toTransStore := by
    refine invariant_of_steps (P := fun s => s.Ok lib ∧ Submission s) ?_ hsteps
      ⟨⟨Rep.empty, life_empty_ok⟩, Submission.empty⟩
    rintro mid last hstep ⟨hok, hmid⟩
    exact ⟨hstep.ok hok, hstep.submission hok hmid⟩
  obtain ⟨-, hsub⟩ := hall
  have hlast := hsub.prefixes s.conn.trace [] (List.append_nil _).symm
  exact ⟨hlast.nodup hsub.accepted, hsub.accepted, hsub.prefixes, hsub.connected, hsub.reported⟩

/-- A connection with a sale on the wire is such a state. -/
theorem reachable_inOrder_saleSent :
    framedOf saleSent.conn.trace = [0] ∧ InOrder saleSent.conn.trace :=
  ⟨by decide, reachable_inOrder reference saleSent saleSent_reachable⟩

end LibMonetra
