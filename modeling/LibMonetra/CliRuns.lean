import LibMonetra.CliConduct
import LibMonetra.Returning
import LibMonetra.Reference

/-!
# Sessions of `monetra_cli`

Each step of a session keeps to what `CliConduct` says, whatever the network does. It follows that the
program asks nothing of the library that it must not ask, that its event loop does not end before the
connection is freed, and that the sessions over a connection that does not fail are runs of the program alone.
-/

namespace LibMonetra

open Foundation

variable {lib : Mstdlib}

/-- What the library returns to a call of the program: a pair that has no key is refused, and so is the
disconnect when the end of the connection already waits to be delivered; everything else is granted. -/
def CliCall.answer (s : Sys) : CliCall → List Bool
  | .send _ kvs => true :: kvs.entries.map (fun entry => decide (entry.1 ≠ [])) ++ [true]
  | .delete _ | .destroy => [true]
  | .disconnect => [s.conn.events.all fun e => !e.terminal]
  | .eventDone => []

/-- What the library asks of its callers, and what the program relies on. -/
structure Conforms (lib : Mstdlib) (s : CliSession) : Prop where
  /-- The library is called from within the callback, and never with a connection that is gone. -/
  inside : s.todo ≠ [] → s.sys.pc = .callback ∧ s.sys.conn.freed = false
  /-- What is deleted is there, and has not been deleted before. -/
  deletes : ∀ p rest, s.todo = .delete p :: rest → s.sys.conn.heap p ≠ none ∧ p ∉ deletedOf s.sys.conn.trace
  /-- What is sent is the transaction that `LM_trans_new` returns. -/
  sends : ∀ p kvs rest, s.todo = .send p kvs :: rest → p = s.sys.conn.nextPtr
  /-- Every call returns, with this answer, if the random numbers contain an id that is free. -/
  accepted : ∀ call rest draws, s.todo = call :: rest → s.sys.entering = false →
    (∀ p kvs, call = .send p kvs → (unusedDraw s.sys.conn draws).isSome) →
      (∃ s', cliSessionStep lib s (.call draws) = some s') ∧
        returned lib s.sys (call.actions draws) = call.answer s.sys
  /-- Neither `LM_conn_connect` nor the handler stops on its way. -/
  goesOn : s.sys.conn.freed = false → s.sys.entering = true ∨ s.todo = [] ∧ s.sys.pc ≠ .idle →
    ∃ a s', cliSessionStep lib s (.library a) = some s'
  /-- The callback hears of the end of a transaction once. -/
  heard : ∀ p, (callbacksOf s.sys.conn.trace).countP (fun e => e.deletes = some p) ≤ 1
  /-- No request fails for a connection that could not be established. -/
  expected : ∀ p, ⟨.transNoconnect, some p⟩ ∉ callbacksOf s.sys.conn.trace
  /-- The end of the connection is the last that the callback hears. -/
  last : ∀ e ∈ (callbacksOf s.sys.conn.trace).dropLast, e.terminal = false
  destroys : s.run.calls.count .destroy = (callbacksOf s.sys.conn.trace).countP Event.terminal
  dones : s.run.calls.count .eventDone = s.run.calls.count .destroy
  /-- The event loop ends with the connection: neither before it is freed nor without it. -/
  freed : s.sys.conn.freed = true ↔ .eventDone ∈ s.run.calls ∧ s.todo = [] ∧ s.sys.pc = .idle

section Call

variable {list : KvsList lib.sizeBits} {sendSerial : Bool} {s : CliSession} {call : CliCall}
  {todo : List CliCall} {sys : Sys}

/-- What stays of a session when the callback is not called. -/
theorem Conduct.keep (h : Conduct list sendSerial s) (hreached : (deletedOnce lib).Reachable sys)
    (hpingless : sys.conn.freed = false → Pingless sys) (huntimed : Untimed sys)
    (hplan : ∃ deletion kvs closing, Plan ⟨sys, s.run, todo⟩ deletion kvs closing)
    (hcalls : callbacksOf sys.conn.trace = callbacksOf s.sys.conn.trace)
    (hevents : eventsOf s.sys.conn.trace <+: eventsOf sys.conn.trace)
    (hdelivered : sys.conn.freed = false → sys.conn.destroy = false →
      callbacksOf sys.conn.trace ++ sys.conn.events = eventsOf sys.conn.trace)
    (hexpected : ∀ p, ⟨.transNoconnect, some p⟩ ∉ eventsOf sys.conn.trace)
    (honce : (eventsOf sys.conn.trace).count ⟨.connConnected, none⟩ ≤ 1)
    (hdeleted : ∀ p ∈ deletedOf sys.conn.trace,
      p ∈ deletedOf s.sys.conn.trace ∨ ∃ e ∈ callbacksOf s.sys.conn.trace, e.deletes = some p)
    (hphase : Phase ⟨sys, s.run, todo⟩) : Conduct list sendSerial ⟨sys, s.run, todo⟩ := by
  have hseen : CliSession.seen ⟨sys, s.run, todo⟩ = s.seen := by simp [CliSession.seen, hcalls]
  refine ⟨hreached, hpingless, huntimed, hplan, ?_, hdelivered, hexpected, honce, fun p hp => ?_, h.handles,
    h.inOrder, fun hfair => ?_, ?_, ?_, h.dones, hphase⟩
  · change callbacksOf sys.conn.trace <+: _
    rw [hcalls]
    exact h.told.trans hevents
  · change ∃ e ∈ callbacksOf sys.conn.trace, _
    rw [hcalls]
    exact (hdeleted p hp).elim (h.deleted p) id
  · rw [hseen]
    refine h.seen fun e he => hfair e ?_
    change e ∈ callbacksOf sys.conn.trace
    rwa [hcalls]
  · change ∀ e ∈ (callbacksOf sys.conn.trace).dropLast, _
    rw [hcalls]
    exact h.last
  · change _ = (callbacksOf sys.conn.trace).countP _
    rw [hcalls]
    exact h.destroys

/-- The next call of a callback, and what is left behind it. -/
theorem Plan.head {deletion : Option Ptr} {kvs : List HashDict} {closing : List CliCall}
    (h : Plan s deletion kvs closing) (htodo : s.todo = call :: todo) :
    (∃ p, deletion = some p ∧ call = .delete p ∧ todo = sendsFrom s.sys.conn.nextPtr kvs ++ closing) ∨
      (∃ next rest, deletion = none ∧ kvs = next :: rest ∧ call = .send s.sys.conn.nextPtr next ∧
        todo = sendsFrom (s.sys.conn.nextPtr + 1) rest ++ closing) ∨
      (deletion = none ∧ kvs = [] ∧ (call = .disconnect ∧ todo = [] ∨ call = .destroy ∧ todo = [.eventDone] ∨
        call = .eventDone ∧ todo = [])) := by
  have hshape := h.todo.symm.trans htodo
  cases deletion with
  | some p =>
    obtain ⟨rfl, rfl⟩ := List.cons.inj hshape
    exact Or.inl ⟨p, rfl, rfl, rfl⟩
  | none =>
    cases kvs with
    | cons next rest =>
      obtain ⟨rfl, rfl⟩ := List.cons.inj hshape
      exact Or.inr (Or.inl ⟨next, rest, rfl, rfl, rfl, rfl⟩)
    | nil =>
      have hshape : closing = call :: todo := hshape
      refine Or.inr (Or.inr ⟨rfl, rfl, ?_⟩)
      rcases h.closing with hclosing | hclosing | hclosing | hclosing <;>
        have heq := hshape.symm.trans hclosing
      · cases heq
      · exact Or.inl ⟨(List.cons.inj heq).1, (List.cons.inj heq).2⟩
      · exact Or.inr (Or.inl ⟨(List.cons.inj heq).1, (List.cons.inj heq).2⟩)
      · exact Or.inr (Or.inr ⟨(List.cons.inj heq).1, (List.cons.inj heq).2⟩)

/-- The transaction that is deleted is that of the event. -/
theorem Plan.deletion_of_todo {deletion : Option Ptr} {kvs : List HashDict} {closing : List CliCall} {p : Ptr}
    (h : Plan s deletion kvs closing) (htodo : s.todo = .delete p :: todo) : deletion = some p := by
  rcases h.head htodo with ⟨_, hsome, ⟨⟩, -⟩ | ⟨_, _, -, -, ⟨⟩, -⟩ | ⟨-, -, ⟨⟨⟩, -⟩ | ⟨⟨⟩, -⟩ | ⟨⟨⟩, -⟩⟩
  exact hsome

/-- The transaction that is sent is the next one. -/
theorem Plan.send_of_todo {deletion : Option Ptr} {kvs : List HashDict} {closing : List CliCall} {p : Ptr}
    {next : HashDict} (h : Plan s deletion kvs closing) (htodo : s.todo = .send p next :: todo) :
    p = s.sys.conn.nextPtr := by
  rcases h.head htodo with ⟨_, -, ⟨⟩, -⟩ | ⟨_, _, -, -, ⟨⟩, -⟩ | ⟨-, -, ⟨⟨⟩, -⟩ | ⟨⟨⟩, -⟩ | ⟨⟨⟩, -⟩⟩
  rfl

/-- Nothing is left behind the disconnect. -/
theorem Plan.disconnect_of_todo {deletion : Option Ptr} {kvs : List HashDict} {closing : List CliCall}
    (h : Plan s deletion kvs closing) (htodo : s.todo = .disconnect :: todo) : todo = [] := by
  rcases h.head htodo with ⟨_, -, ⟨⟩, -⟩ | ⟨_, _, -, -, ⟨⟩, -⟩ | ⟨-, -, ⟨-, heq⟩ | ⟨⟨⟩, -⟩ | ⟨⟨⟩, -⟩⟩
  exact heq

/-- The event loop is left behind the destruction of the connection. -/
theorem Plan.destroy_of_todo {deletion : Option Ptr} {kvs : List HashDict} {closing : List CliCall}
    (h : Plan s deletion kvs closing) (htodo : s.todo = .destroy :: todo) : todo = [.eventDone] := by
  rcases h.head htodo with ⟨_, -, ⟨⟩, -⟩ | ⟨_, _, -, -, ⟨⟩, -⟩ | ⟨-, -, ⟨⟨⟩, -⟩ | ⟨-, heq⟩ | ⟨⟨⟩, -⟩⟩
  exact heq

/-- What is left of a callback behind its next call. -/
theorem Plan.after_call {deletion : Option Ptr} {kvs : List HashDict} {closing : List CliCall}
    (h : Plan s deletion kvs closing) (htodo : s.todo = call :: todo)
    (hnext : sys.conn.nextPtr = s.sys.conn.nextPtr + call.created) (hpc : sys.pc = .callback)
    (hlive : sys.conn.freed = false) : ∃ kvs' closing', Plan ⟨sys, s.run, todo⟩ none kvs' closing' := by
  have hmade : ∃ made, s.run.calls = made ++ todo := by
    obtain ⟨made, hmade⟩ := h.calls
    exact ⟨made ++ [call], by rw [hmade, htodo]; simp⟩
  have hinside : todo ≠ [] → sys.pc = .callback ∧ sys.conn.freed = false := fun _ => ⟨hpc, hlive⟩
  rcases h.head htodo with ⟨p, rfl, rfl, rfl⟩ | ⟨next, rest, rfl, rfl, rfl, rfl⟩ | ⟨rfl, rfl, hclosing⟩
  · refine ⟨kvs, closing, ?_, ?_, hmade, hinside, h.closing, nofun⟩
    · rw [hnext]
      rfl
    · exact h.next.trans (by rw [hnext]; rfl)
  · refine ⟨rest, closing, ?_, ?_, hmade, hinside, h.closing, nofun⟩
    · rw [hnext]
      rfl
    · refine h.next.trans ?_
      rw [hnext, List.length_cons, CliCall.created, Nat.add_assoc, Nat.add_comm 1]
  · have hsame : s.run.nextTrans = sys.conn.nextPtr := by
      rw [hnext, show call.created = 0 by rcases hclosing with ⟨rfl, -⟩ | ⟨rfl, -⟩ | ⟨rfl, -⟩ <;> rfl]
      exact h.next
    refine ⟨[], todo, rfl, hsame, hmade, hinside, ?_, nofun⟩
    rcases hclosing with ⟨-, hrest⟩ | ⟨-, hrest⟩ | ⟨-, hrest⟩
    · exact Or.inl hrest
    · exact Or.inr (Or.inr (Or.inr hrest))
    · exact Or.inl hrest

/-- A call changes nothing of what has been reported. -/
theorem Called.course {s s' : Sys} {created : ℕ} {sends hangsUp : Bool} {deleted : List Ptr}
    (h : Called s s' created sends hangsUp deleted) (hregistered : s.registered = true)
    (hcourse : Course s (some (eventsOf s.conn.trace))) : Course s' (some (eventsOf s'.conn.trace)) := by
  obtain ⟨new, htrace, hnone, -, -⟩ := h.trace
  rw [htrace, eventsOf_append, hnone, List.append_nil]
  have hregistered' : s'.registered = true := h.registered.trans hregistered
  generalize eventsOf s.conn.trace = tape at hcourse
  cases hcourse with
  | dialing _ hstatus =>
    refine .dialing hregistered' ?_
    rcases h.status with hsame | ⟨-, hup, -⟩
    · exact hsame.trans hstatus
    · cases hstatus.symm.trans hup
  | established mid _ hstatus hmid =>
    refine .established mid hregistered' ?_ hmid
    rcases h.status with hsame | ⟨-, -, hdisc⟩
    · rwa [hsame]
    · simp [hdisc]
  | ended _ hdown => cases hregistered.symm.trans hdown

/-- The program disconnects behind the last response. -/
theorem Sent.all_answered {kvs : List HashDict} {s : CliSys} (h : Sent kvs sendSerial s)
    (hdisc : .disconnect ∈ s.run.calls) : s.answered.length = kvs.length := by
  have hcount := List.count_pos_iff.mpr hdisc
  rw [h.disconnects] at hcount
  by_contra hleft
  rw [if_neg hleft] at hcount
  cases hcount

/-- Behind its first call the program finds the connection established, until its end is reported or the program
has disconnected. -/
theorem Conduct.connected (h : Conduct list sendSerial s) (hup : Up s) (hlive : s.sys.conn.freed = false)
    (hpc : s.sys.pc ≠ .idle) (hcalls : s.run.calls ≠ []) (hkept : s.sys.conn.status ≠ .disconnecting) :
    s.sys.conn.status = .connected := by
  have hstage := stage_of_reachable (h.reached.of_restrict (monetra lib)) hlive
  obtain ⟨hregistered, hcourse⟩ := hup.course.resolve_right fun hidle => hpc hidle.2.2
  cases hstatus : s.sys.conn.status with
  | connected => rfl
  | idleTimeout => exact absurd hstatus h.untimed.awake
  | disconnected => cases hregistered.symm.trans (hstage.down.mp hstatus)
  | disconnecting => exact absurd hstatus hkept
  | connecting =>
    -- nothing has been reported, so that nothing can have been called
    have hnone : eventsOf s.sys.conn.trace = [] := by
      generalize eventsOf s.sys.conn.trace = tape at hcourse
      cases hcourse with
      | dialing => rfl
      | established _ _ hne => exact absurd hstatus hne
      | ended _ hdown => cases hregistered.symm.trans hdown
    have hquiet : callbacksOf s.sys.conn.trace = [] := List.prefix_nil.mp (hnone ▸ h.told)
    have hsent := sent_of_reachable (h.seen fun e he => Or.inl (hup.fair e (h.told.subset he)))
    exact absurd (hsent.before (by simp [CliSession.seen, hquiet])).1 hcalls

/-- As long as the connection has not reported its end, a request is sent while the connection is
established. -/
theorem Conduct.status_of_send (h : Conduct list sendSerial s) (hup : Up s) (hlive : s.sys.conn.freed = false)
    (hpc : s.sys.pc ≠ .idle) {kvs : HashDict} (hsend : .send s.sys.conn.nextPtr kvs ∈ s.run.calls) :
    s.sys.conn.status = .connected := by
  refine h.connected hup hlive hpc (List.ne_nil_of_mem hsend) fun hdisc => ?_
  -- the program disconnects when nothing is left to be sent
  have hsent := sent_of_reachable (h.seen fun e he => Or.inl (hup.fair e (h.told.subset he)))
  have hnone := (hsent.answered_length.mp (hsent.all_answered (hup.asked hdisc).1)).2
  have hwaits : s.sys.conn.nextPtr ∈ s.seen.unanswered := by
    refine List.mem_filter.mpr ⟨?_, ?_⟩
    · change s.sys.conn.nextPtr ∈ (sentOf s.run.calls).map Prod.fst
      rw [h.sentOf_eq]
      exact (sendsOf_map_fst _ _).mpr ⟨kvs, hsend⟩
    · have hnew : s.sys.conn.nextPtr ∉ respondedOf (callbacksOf s.sys.conn.trace) := by
        intro hmem
        have hmem := h.told.subset (mem_respondedOf.mp hmem)
        exact absurd (h.running.named hmem rfl).1 (Nat.lt_irrefl _)
      exact decide_eq_true hnew
  rw [hnone] at hwaits
  cases hwaits

/-- A call of the callback, before the end of the connection. -/
theorem Conduct.up_call (h : Conduct list sendSerial s) (hup : Up s) (hlive : s.sys.conn.freed = false)
    (hpc : s.sys.pc = .callback) (hcall : call ∈ s.run.calls) (htodo : s.todo = call :: todo)
    (hsend : ∀ p kvs, call = .send p kvs → p = s.sys.conn.nextPtr) (hlast : call = .disconnect → todo = [])
    (hstage' : Stage sys)
    (hcalled : Called s.sys sys call.created call.sends (call == .disconnect) call.deleted) :
    Up ⟨sys, s.run, todo⟩ := by
  have hstage := stage_of_reachable (h.reached.of_restrict (monetra lib)) hlive
  obtain ⟨hregistered, hcourse⟩ := hup.course.resolve_right fun hidle => by cases hpc.symm.trans hidle.2.2
  have hdown : s.sys.conn.status ≠ .disconnected := by
    intro hdown
    cases hregistered.symm.trans (hstage.down.mp hdown)
  refine ⟨hcalled.destroy.trans hup.kept, (hcalled.callers hdown).trans hup.callers,
    ⟨hcalled.pc.trans_ne hup.handler.1, hcalled.pc.trans_ne hup.handler.2⟩,
    Or.inl ⟨hcalled.registered.trans hregistered, hcalled.course hregistered hcourse⟩, ?_, fun hdisc => ?_⟩
  · cases hsends : call.sends with
    | false => exact List.sublist_nil.mp (hup.ready ▸ hcalled.ready hsends)
    | true =>
      cases call with
      | send p kvs =>
        obtain rfl := hsend p kvs rfl
        have hconnected := h.status_of_send hup hlive (by rw [hpc]; exact nofun) hcall
        refine hstage'.allSent ?_
        rcases hcalled.status with hsame | ⟨hhangs, -, -⟩
        · exact hsame.trans hconnected
        · cases hhangs
      | delete | disconnect | destroy | eventDone => cases hsends
  · change sys.conn.status = .disconnecting at hdisc
    rcases hcalled.status with hsame | ⟨hhangs, -, -⟩
    · obtain ⟨hasked, hnone⟩ := hup.asked (hsame.symm.trans hdisc)
      exact ⟨hasked, fun hmem => hnone (htodo ▸ List.mem_cons_of_mem call hmem)⟩
    · obtain rfl : call = .disconnect := by simpa using hhangs
      exact ⟨hcall, by simp [hlast rfl]⟩

/-- `LM_conn_destroy` in a callback only marks the connection. -/
theorem connDestroy_of_busy {s s' : Sys} (hbusy : s.conn.inUse = true)
    (hstep : sysStep lib s .connDestroy = some s') :
    s' = { s with conn := { s.conn with destroy := true } } := by
  have hlive := sysStep_live lib hstep
  unfold sysStep at hstep
  rw [if_neg (by simp [hlive])] at hstep
  obtain rfl := Option.some.inj hstep
  simp [connDestroy, hbusy]

/-- The callback makes its next call. -/
theorem Conduct.called (h : Conduct list sendSerial s) {draws : List RandDraw} (htodo : s.todo = call :: todo)
    (hrun : (monetra lib).run s.sys (call.actions draws) = some sys) :
    Conduct list sendSerial ⟨sys, s.run, todo⟩ := by
  obtain ⟨deletion, kvs, closing, hplan⟩ := h.plan
  obtain ⟨hpc, hlive⟩ := hplan.inside (by simp [htodo])
  have hbusy := h.running.link.busy (by rw [hpc]; rfl)
  have hcall : call ∈ s.run.calls := by
    obtain ⟨made, hmade⟩ := hplan.calls
    rw [hmade, htodo]
    simp
  have hreach := h.reached.of_restrict (monetra lib)
  have hnext : sys.conn.nextPtr = s.sys.conn.nextPtr + call.created ∧ sys.pc = .callback ∧
      sys.conn.freed = false := by
    by_cases hdestroy : call = .destroy
    · subst hdestroy
      rw [connDestroy_of_busy hbusy (sysStep_of_run hrun)]
      exact ⟨rfl, hpc, hlive⟩
    · have hcalled := called_call hbusy hdestroy hrun
      exact ⟨hcalled.next, hcalled.pc.trans hpc, hcalled.freed.trans hlive⟩
  have hplan' := hplan.after_call htodo hnext.1 hnext.2.1 hnext.2.2
  have hfresh : ∀ p, call = .delete p → p ∉ s.sys.conn.transDelayRm := by
    rintro p rfl hdelayed
    have hdeleted := List.mem_of_mem_filter ((h.running.life p).removed.delayed hdelayed)
    exact (hplan.fresh p (hplan.deletion_of_todo htodo)).2.1 (mem_deletedOf.mpr hdeleted)
  have hreached := call_deletedOnce h.reached hfresh hrun
  have hstage' := stage_of_reachable (hreached.of_restrict (monetra lib)) hnext.2.2
  have hpingless := (h.pingless hlive).run (call.actions draws) hreach hrun hnext.2.2
  have huntimed := h.untimed.run (call.actions draws) hreach call.actions_untimed hrun
  by_cases hdestroy : call = .destroy
  · subst hdestroy
    obtain rfl := hplan.destroy_of_todo htodo
    have heq := connDestroy_of_busy hbusy (sysStep_of_run hrun)
    subst heq
    refine h.keep hreached (fun _ => hpingless) huntimed ⟨none, hplan'⟩ rfl (List.prefix_refl _)
      (fun _ => nofun)
      h.expected h.once (fun p hp => Or.inl hp) ?_
    cases h.phase with
    | up _ hup => exact absurd hcall (h.alive_of_up hup)
    | down _ hdown => exact absurd hcall hdown.alive
    | ending _ hending => exact .ending hlive ⟨hcall, Or.inr (Or.inl rfl), fun _ => rfl, Or.inl hpc⟩
    | gone hfreed => cases hlive.symm.trans hfreed
  · have hcalled := called_call hbusy hdestroy hrun
    obtain ⟨new, htrace, hnone, hquiet, hdeleted⟩ := hcalled.trace
    have hevents : eventsOf sys.conn.trace = eventsOf s.sys.conn.trace := by
      rw [htrace, eventsOf_append, hnone, List.append_nil]
    have hcalls : callbacksOf sys.conn.trace = callbacksOf s.sys.conn.trace := by
      rw [htrace, callbacksOf_append, hquiet, List.append_nil]
    refine h.keep hreached (fun _ => hpingless) huntimed ⟨none, hplan'⟩ hcalls (by simp [hevents])
      (fun _ hkept => ?_)
      (by rw [hevents]; exact h.expected) (by rw [hevents]; exact h.once) (fun p hp => ?_) ?_
    · rw [hevents, hcalls, hcalled.events]
      exact h.delivered hlive (hcalled.destroy.symm.trans hkept)
    · rw [htrace, deletedOf_append] at hp
      refine (List.mem_append.mp hp).imp id fun hp => ?_
      have hp := hdeleted hp
      cases call with
      | delete q =>
        obtain rfl := List.mem_singleton.mp hp
        exact (hplan.fresh p (hplan.deletion_of_todo htodo)).2.2
      | send | disconnect | destroy | eventDone => cases hp
    · cases h.phase with
      | up _ hup =>
        have hsend : ∀ p kvs, call = .send p kvs → p = s.sys.conn.nextPtr := by
          rintro p kvs rfl
          exact hplan.send_of_todo htodo
        exact .up hnext.2.2 (h.up_call hup hlive hpc hcall htodo hsend
          (fun hdisc => hplan.disconnect_of_todo (hdisc ▸ htodo)) hstage' hcalled)
      | down _ hdown =>
        refine .down hnext.2.2 ⟨hcalled.destroy.trans hdown.kept, Or.inr hnext.2.1, ?_, ?_, hdown.alive⟩
        · change ∃ e ∈ sys.conn.events, _
          rw [hcalled.events]
          exact hdown.waiting
        · rcases hcalled.status with hsame | ⟨-, hup, -⟩
          · exact hsame.trans_ne hdown.fallen
          · exact absurd hup hdown.fallen
      | ending _ hending =>
        refine .ending hnext.2.2 ⟨hending.called, Or.inr (Or.inr ?_), fun _ => hcalled.destroy.trans ?_,
          Or.inl hnext.2.1⟩ <;> rcases hending.todo with hall | hall | hall <;> rw [htodo] at hall
        · exact absurd (List.cons.inj hall).1 hdestroy
        · exact (List.cons.inj hall).2
        · cases hall
        · exact absurd (List.cons.inj hall).1 hdestroy
        · refine hending.destroy ?_
          rw [htodo, hall]
          simp
        · cases hall
      | gone hfreed => cases hlive.symm.trans hfreed

end Call

section Library

variable {list : KvsList lib.sizeBits} {sendSerial : Bool} {s : CliSession} {a : Action} {sys : Sys}

/-- A caller or the handler goes on in `LM_conn_connect`. -/
theorem sysStep_inConnect {s s' : Sys} (ha : a.inConnect = true) (hstep : sysStep lib s a = some s') :
    ∃ io tlsctx error status connecting callers pc, s' = { s with
        conn := { s.conn with io := io, tlsctx := tlsctx, error := error, status := status }
        connecting := connecting
        callers := callers
        pc := pc } ∧
      (pc = s.pc ∨ s.connecting = some .handler ∧ pc = .finishing) ∧
      (status = s.conn.status ∨ status = .connecting) ∧
      (s.callers = 0 → callers = 0 ∧ s.connecting ≠ none) := by
  cases sysStep_effect hstep with
  | implicitConnect net hwaits =>
    obtain ⟨io, tlsctx, error, status, connecting, heq, hstatus, -⟩ :=
      enterConnect_spec lib { s with callers := s.callers - 1 } net .caller
    exact ⟨io, tlsctx, error, status, connecting, s.callers - 1, s.pc, heq, Or.inl rfl, hstatus,
      fun hnone => absurd hnone hwaits⟩
  | connectFinish eventAdd who hwho =>
    obtain ⟨io, status, error, heq, hstatus⟩ := connConnectFinish_spec s.conn eventAdd
    refine ⟨io, s.conn.tlsctx, error, status, none, s.callers, _, by rw [heq], ?_, hstatus,
      fun hnone => ⟨hnone, by simp [hwho]⟩⟩
    cases who with
    | caller => exact Or.inl rfl
    | handler => exact Or.inr ⟨hwho, rfl⟩
  | configures a c hsets _ => cases ha.symm.trans (Action.inConnect_of_configures hsets)
  | _ => cases ha

/-- Somebody goes on in `LM_conn_connect`. -/
theorem Conduct.enters (h : Conduct list sendSerial s) (ha : a.inConnect = true)
    (hstep : sysStep lib s.sys a = some sys) : Conduct list sendSerial ⟨sys, s.run, s.todo⟩ := by
  have hlive := sysStep_live lib hstep
  have hreach := h.reached.of_restrict (monetra lib)
  have hstage := stage_of_reachable hreach hlive
  have hdelete : ∀ p, a ≠ .transDelete p := by
    rintro p rfl
    cases ha
  have hset : ∀ toSecs, a ≠ .connSetIdleTimeout toSecs := by
    rintro toSecs rfl
    cases ha
  have hreached := deletedOnce_step h.reached hdelete hstep
  have huntimed := h.untimed.step h.running hstage hstep hset
  obtain ⟨io, tlsctx, error, status, connecting, callers, pc, heq, hpc, hstatus, hfinish⟩ :=
    sysStep_inConnect ha hstep
  have hlive' : sys.conn.freed = false := by rw [heq]; exact hlive
  have hpingless := (h.pingless hlive).step h.running hstage hstep hlive'
  have hstay : s.sys.pc ≠ .awaiting → pc = s.sys.pc := by
    intro hne
    rcases hpc with hpc | ⟨hwho, -⟩
    · exact hpc
    · exact absurd (h.running.link.connecting hwho) hne
  have hphase : Phase ⟨sys, s.run, s.todo⟩ := by
    cases h.phase with
    | up _ hup =>
      obtain ⟨hcallers, hopening⟩ := hfinish hup.callers
      have hdown : s.sys.registered = false := by
        obtain ⟨io', hio, hregistered, -⟩ := hstage.of_connecting hopening
        simp [Sys.registered, hio, hregistered]
      obtain ⟨hquiet, hidle⟩ : eventsOf s.sys.conn.trace = [] ∧ s.sys.pc = .idle := by
        rcases hup.course with ⟨hregistered, -⟩ | ⟨-, hquiet, hidle⟩
        · cases hdown.symm.trans hregistered
        · exact ⟨hquiet, hidle⟩
      have hbelow := hstage.down.mpr hdown
      have hcourse := (Course.unused hdown hquiet).step h.running hstage hstep hlive'
      have hpc' : sys.pc = .idle := by
        rw [heq]
        exact (hstay (by simp [hidle])).trans hidle
      have hquiet' : eventsOf sys.conn.trace = [] := by rw [heq]; exact hquiet
      refine .up hlive' ⟨by rw [heq]; exact hup.kept, by rw [heq]; exact hcallers,
        by rw [hpc']; simp, ?_, ?_, fun hdisc => ?_⟩
      · cases hregistered : sys.registered with
        | true =>
          rw [if_pos ⟨hdown, hregistered⟩] at hcourse
          exact Or.inl ⟨rfl, by rw [hquiet']; exact hcourse⟩
        | false => exact Or.inr ⟨rfl, hquiet', hpc'⟩
      · rw [heq]
        exact hup.ready
      · rw [heq] at hdisc
        rcases hstatus with hstatus | hstatus
        · cases (hbelow.symm.trans hstatus.symm).trans hdisc
        · cases hstatus.symm.trans hdisc
    | down _ hdown =>
      have hpc' : pc = s.sys.pc := hstay (by rcases hdown.busy with hpc | hpc <;> simp [hpc])
      subst heq
      refine .down hlive' ⟨hdown.kept, hpc' ▸ hdown.busy, hdown.waiting, ?_, hdown.alive⟩
      rcases hstatus with hstatus | hstatus
      · exact hstatus.trans_ne hdown.fallen
      · exact hstatus.trans_ne (by simp)
    | ending _ hending =>
      subst heq
      refine .ending hlive' ⟨hending.called, hending.todo, hending.destroy, ?_⟩
      rcases hpc with hpc | ⟨hwho, hpc⟩
      · exact hpc ▸ hending.place
      · have hawaiting := h.running.link.connecting hwho
        rcases hending.place with hplace | ⟨hnone, -⟩
        · cases hawaiting.symm.trans hplace
        · exact Or.inr ⟨hnone, Or.inr (Or.inr (Or.inr hpc))⟩
    | gone hfreed => cases hlive.symm.trans hfreed
  have hplan : ∃ deletion kvs closing, Plan ⟨sys, s.run, s.todo⟩ deletion kvs closing := by
    obtain ⟨deletion, kvs, closing, hplan⟩ := h.plan
    have hinside : s.todo ≠ [] → pc = .callback := by
      intro hmore
      have hcallback := (hplan.inside hmore).1
      exact (hstay (by simp [hcallback])).trans hcallback
    subst heq
    exact ⟨deletion, kvs, closing, hplan.todo, hplan.next, hplan.calls, fun hmore => ⟨hinside hmore, hlive⟩,
      hplan.closing, hplan.fresh⟩
  subst heq
  exact h.keep hreached (fun _ => hpingless) huntimed hplan rfl (List.prefix_refl _)
    (fun _ => h.delivered hlive)
    h.expected h.once (fun p hp => Or.inl hp) hphase

/-- What is neither a call nor inside `LM_conn_connect` belongs to the event loop. -/
theorem Action.ofLoop_iff : a.ofLoop = true ↔ a.calls = false ∧ a.inConnect = false := by
  cases a <;> simp [Action.ofLoop, Action.calls, Action.inConnect]

/-- Nothing happens on a connection that could not be opened. -/
theorem Conduct.registered_of_goes (h : Conduct list sendSerial s) (hup : Up s) (hback : s.sys.entering = false)
    (hloop : a.ofLoop = true) (hstep : sysStep lib s.sys a = some sys) :
    s.sys.registered = true ∧ Course s.sys (some (eventsOf s.sys.conn.trace)) := by
  have hstage := stage_of_reachable (h.reached.of_restrict (monetra lib)) (sysStep_live lib hstep)
  refine hup.course.resolve_right ?_
  rintro ⟨hdown, -, hidle⟩
  have hnobody : s.sys.connecting = none := by
    simp only [Sys.entering, decide_eq_false_iff_not, not_or] at hback
    rcases hwho : s.sys.connecting with _ | ⟨_ | _⟩
    · rfl
    · exact absurd hwho hback.2
    · cases (h.running.link.connecting hwho).symm.trans hidle
  have hnone : s.sys.conn.io = none := by
    cases hio : s.sys.conn.io with
    | none => rfl
    | some io =>
      have hall := hstage.opening.mp hnobody
      simp only [Sys.registered, hio, Option.any_some, Option.all_some] at hdown hall
      cases hdown.symm.trans hall
  cases sysStep_walk hstep with
  | stays _ hcalls _ => cases hcalls.symm.trans (Action.ofLoop_iff.mp hloop).1
  | connected who _ _ _ => cases hloop
  | enters event _ _ henabled _ _ _ =>
    cases (not_eventEnabled_of_down h.running hstage hidle hnone event).symm.trans henabled
  | resumes _ hpc _ _ => cases hpc.symm.trans hidle
  | delivers _ _ hpc _ _ => cases hpc.symm.trans hidle
  | returns hpc _ => cases hpc.symm.trans hidle
  | drains hpc _ _ => cases hpc.symm.trans hidle
  | reconnects _ hpc _ => cases hpc.symm.trans hidle
  | finishes hpc _ => rcases hpc with hpc | hpc <;> cases hpc.symm.trans hidle

/-- The connection is not freed before its end. -/
theorem Up.destroys (hup : Up s) (ha : a ≠ .connDestroy) : a.destroys s.sys.conn = false := by
  cases a with
  | finish => exact hup.kept
  | connDestroy => exact absurd rfl ha
  | _ => rfl

/-- What the event loop keeps before the end of the connection. -/
theorem Up.stays (hup : Up s) (hrunning : Running lib s.sys) (hstage' : Stage sys)
    (hregistered' : sys.registered = true) (hloop : a.ofLoop = true) (hstep : sysStep lib s.sys a = some sys) :
    sys.callers = 0 ∧ sys.pc ≠ .reconnecting true ∧ sys.pc ≠ .awaiting := by
  have hup' : sys.conn.status ≠ .disconnected := by
    intro hdown
    cases hregistered'.symm.trans (hstage'.down.mp hdown)
  have heffect := sysStep_loop hloop hstep hrunning.link hrunning.rep
  have hcallers : sys.callers = s.sys.callers ∧ sys.pc ≠ .awaiting := by
    cases sysStep_walk hstep with
    | stays _ hcalls _ => cases hcalls.symm.trans (Action.ofLoop_iff.mp hloop).1
    | connected who _ _ _ => cases hloop
    | enters event r _ _ _ heq hpc =>
      refine ⟨by rw [heq], ?_⟩
      rcases hpc with hpc | ⟨_, hpc⟩ <;> rw [hpc] <;> exact nofun
    | resumes pingEnd _ heq hpc =>
      refine ⟨by rw [heq], ?_⟩
      rcases hpc with hpc | ⟨_, hpc⟩ <;> rw [hpc] <;> exact nofun
    | delivers _ _ _ _ heq | returns _ heq | drains _ _ heq | finishes _ heq =>
      rw [heq]
      exact ⟨rfl, nofun⟩
    | reconnects _ hpc _ => exact absurd hpc hup.handler.1
  exact ⟨hcallers.1.trans hup.callers, fun hpc => hup' (heffect.reconnecting hpc), hcallers.2⟩

/-- The event loop goes on before the end of the connection. -/
theorem Conduct.up_goes (h : Conduct list sendSerial s) (hup : Up s) (hback : s.sys.entering = false)
    (hloop : a.ofLoop = true) (hdeliver : a ≠ .deliver) (hstep : sysStep lib s.sys a = some sys)
    (hlive' : sys.conn.freed = false)
    (hdelivered : callbacksOf sys.conn.trace ++ sys.conn.events = eventsOf sys.conn.trace) :
    (∀ p, ⟨.transNoconnect, some p⟩ ∉ eventsOf sys.conn.trace) ∧
      (eventsOf sys.conn.trace).count ⟨.connConnected, none⟩ ≤ 1 ∧ Phase ⟨sys, s.run, []⟩ := by
  have hreach := h.reached.of_restrict (monetra lib)
  have hstage := stage_of_reachable hreach (sysStep_live lib hstep)
  have hstage' := stage_of_reachable (hreach.step (a := a) hstep) hlive'
  obtain ⟨hregistered, hcourse⟩ := h.registered_of_goes hup hback hloop hstep
  have hcourse' := hcourse.next hregistered hreach hstep hlive'
  have heffect := sysStep_loop hloop hstep h.running.link h.running.rep
  have hkept' : sys.conn.destroy = false := (heffect.alive hup.kept).2.1
  obtain ⟨new, htrace, -, hreport⟩ := sysStep_report hstep h.running hstage
  have hset : ∀ toSecs, a ≠ .connSetIdleTimeout toSecs := by
    rintro toSecs rfl
    cases hloop
  have hsend : ∀ p, a ≠ .transSend p := by
    rintro p rfl
    cases hloop
  have huntimed' := h.untimed.step h.running hstage hstep hset
  have hready : sys.conn.transReady = [] :=
    List.sublist_nil.mp (hup.ready ▸ sysStep_ready h.running hstep hsend)
  have hstays : sys.registered = s.sys.registered →
      (sys.conn.status = .disconnecting → s.sys.conn.status = .disconnecting) →
      (∀ p, ⟨.transNoconnect, some p⟩ ∉ eventsOf sys.conn.trace) ∧
        (eventsOf sys.conn.trace).count ⟨.connConnected, none⟩ ≤ 1 ∧ Phase ⟨sys, s.run, []⟩ := by
    intro hsame hdisc
    have hregistered' := hsame.trans hregistered
    refine ⟨fun p hp => Bool.noConfusion (hcourse'.fair hregistered' _ hp), hcourse'.once, .up hlive' ?_⟩
    obtain ⟨hcallers, hhandler⟩ := hup.stays h.running hstage' hregistered' hloop hstep
    exact ⟨hkept', hcallers, hhandler, Or.inl ⟨hregistered', hcourse'⟩, hready,
      fun hnow => ⟨(hup.asked (hdisc hnow)).1, List.not_mem_nil⟩⟩
  cases hreport with
  | calm _ hsame hstatus =>
    rcases hstatus with hstatus | ⟨hup', hstatus⟩
    · exact hstays hsame hstatus.symm.trans
    · -- only a call asks for the disconnect
      have hdisc := hstatus.resolve_right huntimed'.awake
      rcases heffect.status with heq | heq | ⟨heq, -⟩ | ⟨-, -, heq⟩ | hpc
      · cases (hdisc.symm.trans heq).trans hup'
      · cases hdisc.symm.trans heq
      · cases hdisc.symm.trans heq
      · cases hdisc.symm.trans heq
      · exact absurd hpc hup.handler.1
  | dialed _ hdown _ _ => cases hregistered.symm.trans hdown
  | answered _ _ _ _ hsame hstatus _ => exact hstays hsame hstatus.symm.trans
  | established _ _ _ _ _ hsame hconnected _ _ =>
    exact hstays hsame fun hdisc => by cases hconnected.symm.trans hdisc
  | tornDown c failure before hgiven _ hnew =>
    -- nothing waits to be sent
    have hwaits : (if c.status = .idleTimeout then [] else c.transReady) = [] := by
      rw [hgiven.ready, teardownReady, hup.ready, ite_self, ite_self]
    obtain ⟨rest, last, hbatch, -, -, hterminal, -⟩ := hgiven.batch hstage
    refine ⟨fun p hp => ?_, hcourse'.once, .down hlive' ⟨hkept', Or.inl hgiven.pc, ⟨last, ?_, hterminal⟩,
      hgiven.down.trans_ne (by simp), h.alive_of_up hup⟩⟩
    · rw [htrace, hnew, eventsOf_append, eventsOf_append] at hp
      rcases List.mem_append.mp hp with hp | hp
      · exact h.expected p hp
      · rcases List.mem_append.mp hp with hp | hp
        · rcases hgiven.types hp with heq | heq <;> cases heq
        · rw [teardownRecord, hwaits] at hp
          simp [eventsOf, queuedAs] at hp
    · have hlast : last ∈ callbacksOf sys.conn.trace ++ sys.conn.events := by
        rw [hdelivered, htrace, hnew, eventsOf_append, hbatch]
        simp
      refine (List.mem_append.mp hlast).resolve_left fun hlast => ?_
      rw [sysStep_calls_none h.running hstage hdeliver hstep] at hlast
      cases hterminal.symm.trans (Event.terminal_of_fair (hup.fair _ (h.told.subset hlast)))
  | destroyed hfreed _ => cases hlive'.symm.trans hfreed

/-- The handler returns behind the end of the connection. -/
theorem Ending.step (hending : Ending s) (hrunning : Running lib s.sys) (htodo : s.todo = [])
    (hloop : a.ofLoop = true) (hdeliver : a ≠ .deliver) (hstep : sysStep lib s.sys a = some sys) :
    a.handles = false ∧ Phase ⟨sys, s.run, []⟩ := by
  have hdestroy : s.sys.conn.destroy = true := hending.destroy (by simp [htodo])
  have hgoes : a.handles = false → a.destroys s.sys.conn = false →
      ((sys.pc = .delivering ∧ sys.conn.events = []) ∨ (∃ request, sys.pc = .reconnecting request) ∨
        sys.pc = .awaiting ∨ sys.pc = .finishing) → a.handles = false ∧ Phase ⟨sys, s.run, []⟩ := by
    intro hhandles hkept hplace
    obtain ⟨hlive', hdestroy'⟩ := sysStep_kept hstep hrunning hkept
    exact ⟨hhandles, .ending hlive' ⟨hending.called, Or.inr (Or.inr rfl), fun _ => hdestroy' hdestroy,
      Or.inr ⟨rfl, hplace⟩⟩⟩
  have hplace : s.sys.pc ≠ .idle ∧ ∀ pingEnd, s.sys.pc ≠ .cleaning pingEnd := by
    rcases hending.place with hpc | ⟨-, ⟨hpc, -⟩ | ⟨_, hpc⟩ | hpc | hpc⟩ <;> rw [hpc] <;> exact ⟨nofun, nofun⟩
  cases sysStep_walk hstep with
  | stays _ hcalls _ => cases hcalls.symm.trans (Action.ofLoop_iff.mp hloop).1
  | connected who _ _ _ => cases hloop
  | enters event _ hpc _ _ _ _ => exact absurd hpc hplace.1
  | resumes pingEnd hpc _ _ => exact absurd hpc (hplace.2 pingEnd)
  | delivers _ _ _ _ _ => exact absurd rfl hdeliver
  | returns hpc heq =>
    refine hgoes rfl rfl (Or.inl ?_)
    rw [heq]
    exact ⟨rfl, if_pos hdestroy⟩
  | drains hpc hnone heq =>
    refine hgoes rfl rfl (Or.inr (Or.inl ?_))
    rw [heq]
    exact ⟨_, rfl⟩
  | reconnects net hpc hpc' => exact hgoes rfl rfl (Or.inr (Or.inr hpc'))
  | finishes hpc heq =>
    have hidle : s.sys.conn.inUse = false :=
      (hrunning.link.rest (by rcases hpc with hpc | hpc <;> rw [hpc] <;> rfl)).1
    refine ⟨rfl, .gone ?_ ?_ rfl hending.called⟩ <;> rw [heq]
    rw [if_pos hdestroy]
    simp [connDestroy, hidle]

/-- The event loop goes on, apart from the callbacks. -/
theorem Conduct.goes (h : Conduct list sendSerial s) (hback : s.sys.entering = false) (htodo : s.todo = [])
    (hloop : a.ofLoop = true) (hdeliver : a ≠ .deliver) (hstep : sysStep lib s.sys a = some sys) :
    Conduct list sendSerial ⟨sys, s.run, []⟩ := by
  have hlive := sysStep_live lib hstep
  have hreach := h.reached.of_restrict (monetra lib)
  have hstage := stage_of_reachable hreach hlive
  obtain ⟨hcalls, -⟩ := Action.ofLoop_iff.mp hloop
  have hdelete : ∀ p, a ≠ .transDelete p := by
    rintro p rfl
    cases hloop
  have hset : ∀ toSecs, a ≠ .connSetIdleTimeout toSecs := by
    rintro toSecs rfl
    cases hloop
  have hpingless := h.pingless hlive
  have hplan : Plan ⟨sys, s.run, []⟩ none [] [] := by
    refine ⟨rfl, ?_, ⟨s.run.calls, (List.append_nil _).symm⟩, nofun, Or.inl rfl, nofun⟩
    exact (h.next_of_returned htodo).trans (sysStep_creates_none hpingless (Or.inl hcalls) hstep).symm
  have hquiet := sysStep_calls_none h.running hstage hdeliver hstep
  have hevents : a.handles = false → eventsOf sys.conn.trace = eventsOf s.sys.conn.trace :=
    fun hhandles => sysStep_reports_none h.running hstage hhandles hstep
  have hdelivered : sys.conn.freed = false → sys.conn.destroy = false →
      callbacksOf sys.conn.trace ++ sys.conn.events = eventsOf sys.conn.trace := by
    intro hlive' hkept'
    have hkept : s.sys.conn.destroy = false := by
      by_contra hdestroy
      have hdestroy' := (sysStep_kept hstep h.running (not_destroys_of_live h.running hstep hlive')).2
      cases hkept'.symm.trans (hdestroy' (by simpa using hdestroy))
    exact sysStep_delivered h.running hstage hstep hlive' hkept (h.delivered hlive hkept)
  have hphase : (∀ p, ⟨.transNoconnect, some p⟩ ∉ eventsOf sys.conn.trace) ∧
      (eventsOf sys.conn.trace).count ⟨.connConnected, none⟩ ≤ 1 ∧ Phase ⟨sys, s.run, []⟩ := by
    cases h.phase with
    | up _ hup =>
      have hkept := hup.destroys (a := a) (by rintro rfl; cases hloop)
      have hlive' := (sysStep_kept hstep h.running hkept).1
      have hkept' := ((sysStep_loop hloop hstep h.running.link h.running.rep).alive hup.kept).2.1
      exact h.up_goes hup hback hloop hdeliver hstep hlive' (hdelivered hlive' hkept')
    | down _ hdown =>
      -- the handler has callbacks left, so that this one returns
      cases sysStep_walk hstep with
      | stays _ hcalls' _ => cases hcalls.symm.trans hcalls'
      | connected who _ _ _ => cases hloop
      | delivers _ _ _ _ _ => exact absurd rfl hdeliver
      | returns hpc heq =>
        rw [hevents rfl]
        refine ⟨h.expected, h.once, .down (by rw [heq]; exact hlive) ⟨by rw [heq]; exact hdown.kept,
          Or.inl (by rw [heq]), ?_, by rw [heq]; exact hdown.fallen, hdown.alive⟩⟩
        rw [heq]
        change ∃ e ∈ (if s.sys.conn.destroy = true then [] else s.sys.conn.events), _
        rw [hdown.kept]
        exact hdown.waiting
      | drains _ hnone _ =>
        obtain ⟨e, he, -⟩ := hdown.waiting
        rw [hnone] at he
        cases he
      | enters _ _ hpc _ _ _ _ | resumes _ hpc _ _ | reconnects _ hpc _ =>
        rcases hdown.busy with hbusy | hbusy <;> cases hpc.symm.trans hbusy
      | finishes hpc _ =>
        rcases hdown.busy with hbusy | hbusy <;> rcases hpc with hpc | hpc <;> cases hpc.symm.trans hbusy
    | ending _ hending =>
      obtain ⟨hhandles, hphase⟩ := hending.step h.running htodo hloop hdeliver hstep
      rw [hevents hhandles]
      exact ⟨h.expected, h.once, hphase⟩
    | gone hfreed => cases hlive.symm.trans hfreed
  obtain ⟨new, htrace, -⟩ := sysStep_report hstep h.running hstage
  refine h.keep (deletedOnce_step h.reached hdelete hstep) (hpingless.step h.running hstage hstep)
    (h.untimed.step h.running hstage hstep hset) ⟨none, [], [], hplan⟩ hquiet
    ⟨eventsOf new, by rw [htrace, eventsOf_append]⟩ hdelivered hphase.1 hphase.2.1
    (fun p hp => Or.inl ?_) hphase.2.2
  rwa [sysStep_deletes_none hpingless h.reached (Or.inl hcalls) hstep] at hp

end Library

section Sessions

variable {list : KvsList lib.sizeBits} {sendSerial : Bool} {s s' : CliSession}

/-- What `main` has set up when it enters `LM_conn_connect`. -/
theorem cliMain_connects {sys sys' : Sys} {enableTrace : Bool} {net : NetOutcome}
    (hinit : (monetra lib).init sys) (hrun : (monetra lib).run sys (cliMain enableTrace net) = some sys') :
    ∃ host port iocreateCb, (deletedOnce lib).Reachable
        ⟨{ connInit host port with disablePing := true, iocreateCb := iocreateCb }, .idle, 0, none⟩ ∧
      sysStep lib ⟨{ connInit host port with disablePing := true, iocreateCb := iocreateCb }, .idle, 0, none⟩
        (.connConnect net) = some sys' := by
  obtain ⟨host, port, hhost, hport, rfl⟩ := hinit
  obtain ⟨mid, hmid, hrest⟩ := Option.bind_eq_some_iff.mp hrun
  obtain rfl := Option.some.inj hmid
  have hreached : (deletedOnce lib).Reachable
      ⟨{ connInit host port with disablePing := true }, .idle, 0, none⟩ :=
    deletedOnce_step (a := .connDisablePing) (.init ⟨host, port, hhost, hport, rfl⟩) nofun rfl
  cases enableTrace with
  | false => exact ⟨host, port, false, hreached, sysStep_of_run hrest⟩
  | true =>
    obtain ⟨mid, hmid, hrest⟩ := Option.bind_eq_some_iff.mp hrest
    obtain rfl := Option.some.inj hmid
    exact ⟨host, port, true, deletedOnce_step (a := .connSetIocreateCallback true) hreached nofun rfl,
      sysStep_of_run hrest⟩

/-- Nothing has happened yet. -/
theorem cliMain_fresh {sys sys' : Sys} {enableTrace : Bool} {net : NetOutcome} (hinit : (monetra lib).init sys)
    (hrun : (monetra lib).run sys (cliMain enableTrace net) = some sys') :
    sys'.conn.trace = [] ∧ sys'.conn.nextPtr = 0 := by
  obtain ⟨host, port, iocreateCb, -, hstep⟩ := cliMain_connects hinit hrun
  obtain ⟨io, tlsctx, error, status, connecting, heq, -⟩ := enterConnect_spec lib
    ⟨{ connInit host port with disablePing := true, iocreateCb := iocreateCb }, .idle, 0, none⟩ net .caller
  rw [← heq.symm.trans (Option.some.inj hstep)]
  exact ⟨rfl, rfl⟩

/-- A session before its first event. -/
theorem Conduct.init (h : (cliSession lib list sendSerial).init s) : Conduct list sendSerial s := by
  obtain ⟨sys, enableTrace, net, hinit, hrun, hstart, htodo⟩ := h
  obtain ⟨host, port, iocreateCb, hready, hstep⟩ := cliMain_connects hinit hrun
  have hreached := deletedOnce_step (a := .connConnect net) hready nofun hstep
  have hreach := hready.of_restrict (monetra lib)
  have hstage := stage_of_reachable hreach rfl
  have hpingless : Pingless
      ⟨{ connInit host port with disablePing := true, iocreateCb := iocreateCb }, .idle, 0, none⟩ :=
    ⟨rfl, rfl, fun p hp => by cases hp⟩
  obtain ⟨io, tlsctx, error, status, connecting, heq, hstatus, -⟩ := enterConnect_spec lib
    ⟨{ connInit host port with disablePing := true, iocreateCb := iocreateCb }, .idle, 0, none⟩ net .caller
  have hsys := heq.symm.trans (Option.some.inj hstep)
  obtain ⟨sys, run, todo⟩ := s
  change todo = [] at htodo
  change run = _ at hstart
  subst htodo hstart
  dsimp only at hsys hreached hstep
  have hlive' : sys.conn.freed = false := by rw [← hsys]; rfl
  have hpingless' := hpingless.step (running_of_reachable hreach) hstage hstep hlive'
  have huntimed : Untimed
      ⟨{ connInit host port with disablePing := true, iocreateCb := iocreateCb }, .idle, 0, none⟩ :=
    ⟨rfl, ⟨fun _ hup => (by cases hup), fun _ hpc => (by cases hpc)⟩, ConnStatus.noConfusion⟩
  have huntimed' := huntimed.step (running_of_reachable hreach) hstage hstep nofun
  have hcourse := (Course.unused rfl rfl).step (running_of_reachable hreach) hstage hstep hlive'
  subst hsys
  refine ⟨hreached, fun _ => hpingless', huntimed',
    ⟨none, [], [], rfl, rfl, ⟨[], rfl⟩, nofun, Or.inl rfl, nofun⟩,
    List.prefix_refl _, fun _ _ => rfl, fun _ => List.not_mem_nil, Nat.zero_le 1, fun p hp => (by cases hp),
    rfl, rfl, fun _ => .init ⟨0, rfl⟩, fun e he => (by cases he), rfl, rfl,
    .up rfl ⟨rfl, rfl, ⟨nofun, nofun⟩, ?_, rfl, fun hdisc => ?_⟩⟩
  · cases hregistered : Sys.registered _ with
    | true =>
      rw [if_pos ⟨rfl, hregistered⟩] at hcourse
      exact Or.inl ⟨rfl, hcourse⟩
    | false => exact Or.inr ⟨rfl, rfl, rfl⟩
  · rcases hstatus with hstatus | hstatus <;> cases hstatus.symm.trans hdisc

/-- Every step keeps to that. -/
theorem Conduct.step (h : Conduct list sendSerial s) {input : CliInput}
    (hstep : cliSessionStep lib s input = some s') : Conduct list sendSerial s' := by
  cases cliSessionStep_cases hstep with
  | call call rest draws sys htodo _ hrun heq => exact heq ▸ h.called htodo hrun
  | enters a sys ha hsys heq => exact heq ▸ h.enters ha hsys
  | delivers e later sys hevents htodo hsys heq => exact heq ▸ h.deliver hevents htodo hsys
  | goes a sys hcalls ha hdeliver hback htodo hsys heq =>
    rw [heq, htodo]
    exact h.goes hback htodo (Action.ofLoop_iff.mpr ⟨hcalls, ha⟩) hdeliver hsys

/-- Every session keeps to that. -/
theorem conduct_of_reachable (h : (cliSession lib list sendSerial).Reachable s) : Conduct list sendSerial s :=
  System.Reachable.invariant (cliSession lib list sendSerial) (fun _ => Conduct.init)
    (fun _ _ _ _ hs hstep => hs.step hstep) h

end Sessions

section Conformity

variable {list : KvsList lib.sizeBits} {sendSerial : Bool} {s : CliSession}

/-- What the library returns to some calls and to those behind them. -/
theorem returned_append {s s' : Sys} (first second : List Action) (hrun : (monetra lib).run s first = some s') :
    returned lib s (first ++ second) = returned lib s first ++ returned lib s' second := by
  induction first generalizing s with
  | nil =>
    obtain rfl := Option.some.inj hrun
    rfl
  | cons a rest ih =>
    obtain ⟨mid, hmid, hrest⟩ := Option.bind_eq_some_iff.mp hrun
    have hmid : sysStep lib s a = some mid := hmid
    simp only [List.cons_append, returned, hmid, ih hrest]

/-- The parameters of a new transaction are set, apart from those without a key. -/
theorem returned_transSetParams {s : Sys} {p : Ptr} {t : Trans} (hlive : s.conn.freed = false)
    (ht : s.conn.heap p = some t) (hnew : t.status = .new) (members : List (Bytes × Option Bytes)) :
    returned lib s (members.map fun entry => .transSetParam p entry.1 entry.2) =
      members.map fun entry => decide (entry.1 ≠ []) := by
  induction members generalizing s t with
  | nil => rfl
  | cons member rest ih =>
    have hstep : sysStep lib s (.transSetParam p member.1 member.2) =
        some { s with conn := (transSetParam s.conn p member.1 member.2).1 } := by
      unfold sysStep
      rw [if_neg (by simp [hlive])]
    have hlive' := (called_transSetParam hstep).freed.trans hlive
    simp only [List.map_cons, returned, hstep]
    by_cases hkey : member.1 ≠ []
    · rw [ih hlive' (t := { t with
        requestParams := some ((t.requestParams.getD .create).insert member.1 member.2) }) ?_ hnew]
      · simp [Action.returns, transSetParam, ht, hnew, hkey]
      · simp [transSetParam, ht, hnew, hkey]
    · rw [ih hlive' (t := t) ?_ hnew]
      · simp [Action.returns, transSetParam, ht, hkey]
      · simp [transSetParam, ht, hkey]

/-- The request of a dictionary is sent. -/
theorem granted_send {s : Sys} {draws : List RandDraw} {draw : RandDraw} {kvs : HashDict}
    (hlive : s.conn.freed = false) (hdraw : unusedDraw s.conn draws = some draw) (hprepared : Prepared kvs) :
    (∃ s', (monetra lib).run s ((CliCall.send s.conn.nextPtr kvs).actions draws) = some s') ∧
      returned lib s ((CliCall.send s.conn.nextPtr kvs).actions draws) =
        (CliCall.send s.conn.nextPtr kvs).answer s := by
  obtain ⟨c, hnew, ht, -⟩ := transNew_eq s.conn hdraw
  have hcreated : sysStep lib s (.transNew draws) = some { s with conn := c } := by
    unfold sysStep
    rw [if_neg (by simp [hlive])]
    simp only [hnew, Option.map_some]
  have hlive' : c.freed = false := (called_transNew hcreated).freed.trans hlive
  have hbuilt := @run_transSetParams lib { s with conn := c } hlive' s.conn.nextPtr kvs.entries
  obtain ⟨params, hset, hall⟩ := transSetParams_eq ht rfl kvs.entries
  have hrequest : params = some (requestOf kvs) := by
    cases params with
    | none => exact absurd (congrArg HashDict.numKeys hall.symm) hprepared.numKeys_ne_zero
    | some dict => exact congrArg some hall
  have hthere : (transSetParams c s.conn.nextPtr kvs.entries).heap s.conn.nextPtr =
      some { Trans.fresh draw.val .user with requestParams := some (requestOf kvs) } := by
    rw [hset, hrequest]
    exact Conn.setRequest_self ht _
  have hopen : (transSetParams c s.conn.nextPtr kvs.entries).freed = false := by
    rw [hset]
    exact hlive'
  obtain ⟨sent, hsent⟩ : ∃ sent, sysStep lib { s with conn := transSetParams c s.conn.nextPtr kvs.entries }
      (.transSend s.conn.nextPtr) = some sent := by
    unfold sysStep
    rw [if_neg (by simp [hopen])]
    exact ⟨_, rfl⟩
  have hok : (transSend lib (transSetParams c s.conn.nextPtr kvs.entries) s.conn.nextPtr).ok = true := by
    have haccepts : ¬(Trans.status { Trans.fresh draw.val .user with
        requestParams := some (requestOf kvs) } ≠ .new ∨ (requestOf kvs).numKeys = 0) := by
      simp [Trans.fresh, hprepared.numKeys_ne_zero]
    rw [transSend, hthere]
    exact congrArg SendResult.ok (if_neg haccepts)
  constructor
  · refine ⟨sent, Option.bind_eq_some_iff.mpr ⟨_, hcreated, ?_⟩⟩
    change (monetra lib).run { s with conn := c }
      (kvs.entries.map (fun entry => .transSetParam s.conn.nextPtr entry.1 entry.2) ++
        [.transSend s.conn.nextPtr]) = some sent
    rw [System.run_append, hbuilt, Option.bind_some]
    exact Option.bind_eq_some_iff.mpr ⟨sent, hsent, rfl⟩
  · rw [CliCall.actions, List.cons_append, returned, hcreated]
    dsimp only
    rw [returned_append _ _ hbuilt, returned_transSetParams hlive' ht rfl]
    simp [returned, Action.returns, hok, hsent, CliCall.answer]

/-- The disconnect is granted until the end of the connection waits to be delivered. -/
theorem Conduct.granted_disconnect (h : Conduct list sendSerial s) {rest : List CliCall}
    (htodo : s.todo = .disconnect :: rest) : (connDisconnectConnlocked s.sys.conn).2 =
      s.sys.conn.events.all fun e => !e.terminal := by
  obtain ⟨deletion, kvs, closing, hplan⟩ := h.plan
  obtain ⟨hpc, hlive⟩ := hplan.inside (by simp [htodo])
  cases h.phase with
  | up _ hup =>
    have hcalls : s.run.calls ≠ [] := by
      obtain ⟨made, hmade⟩ := hplan.calls
      simp [hmade, htodo]
    have hconnected := h.connected hup hlive (by rw [hpc]; exact nofun) hcalls fun hdisc =>
      (hup.asked hdisc).2 (htodo ▸ List.mem_cons_self)
    have hnone : ∀ e ∈ s.sys.conn.events, e.terminal = false := by
      intro e he
      refine Event.terminal_of_fair (hup.fair e ?_)
      rw [← h.delivered hlive hup.kept]
      exact List.mem_append_right _ he
    obtain ⟨hregistered, -⟩ := hup.course.resolve_right fun hidle => by cases hpc.symm.trans hidle.2.2
    obtain ⟨io, hio⟩ : ∃ io, s.sys.conn.io = some io := by
      cases hio : s.sys.conn.io with
      | none => simp [Sys.registered, hio] at hregistered
      | some io => exact ⟨io, rfl⟩
    rw [List.all_eq_true.mpr fun e he => by simp [hnone e he]]
    simp [connDisconnectConnlocked, hio, hconnected]
  | down _ hdown =>
    obtain ⟨e, he, hterminal⟩ := hdown.waiting
    have hrefused : (connDisconnectConnlocked s.sys.conn).2 = false := by
      unfold connDisconnectConnlocked
      split
      · rfl
      · rw [if_neg hdown.fallen]
    rw [hrefused, eq_comm, List.all_eq_false]
    exact ⟨e, he, by simp [hterminal]⟩
  | ending _ hending => rcases hending.todo with hall | hall | hall <;> cases htodo.symm.trans hall
  | gone hfreed => cases hlive.symm.trans hfreed

/-- Every call of the program is granted. -/
theorem Conduct.granted (h : Conduct list sendSerial s) {call : CliCall} {rest : List CliCall}
    {draws : List RandDraw} (htodo : s.todo = call :: rest)
    (hdraws : ∀ p kvs, call = .send p kvs → (unusedDraw s.sys.conn draws).isSome) :
    (∃ sys, (monetra lib).run s.sys (call.actions draws) = some sys) ∧
      returned lib s.sys (call.actions draws) = call.answer s.sys := by
  obtain ⟨deletion, kvs, closing, hplan⟩ := h.plan
  obtain ⟨-, hlive⟩ := hplan.inside (by simp [htodo])
  have hone : ∀ a sys, sysStep lib s.sys a = some sys → a.returns lib s.sys.conn = true →
      (∃ sys, (monetra lib).run s.sys [a] = some sys) ∧ returned lib s.sys [a] = [true] := by
    intro a sys hstep hok
    exact ⟨⟨sys, Option.bind_eq_some_iff.mpr ⟨sys, hstep, rfl⟩⟩, by simp [returned, hok, hstep]⟩
  cases call with
  | send p kvs =>
    obtain rfl := hplan.send_of_todo htodo
    obtain ⟨draw, hdraw⟩ := Option.isSome_iff_exists.mp (hdraws _ _ rfl)
    have hsend : .send s.sys.conn.nextPtr kvs ∈ s.run.calls := by
      obtain ⟨made, hmade⟩ := hplan.calls
      simp [hmade, htodo]
    exact granted_send hlive hdraw (h.prepared hsend)
  | delete p =>
    refine hone (.transDelete p) { s.sys with conn := transDelete lib s.sys.conn p } ?_ rfl
    unfold sysStep
    rw [if_neg (by simp [hlive])]
  | disconnect =>
    have hstep : sysStep lib s.sys .connDisconnect =
        some { s.sys with conn := (connDisconnectConnlocked s.sys.conn).1 } := by
      unfold sysStep
      rw [if_neg (by simp [hlive])]
    refine ⟨⟨_, Option.bind_eq_some_iff.mpr ⟨_, hstep, rfl⟩⟩, ?_⟩
    simp [CliCall.actions, returned, Action.returns, hstep, CliCall.answer, h.granted_disconnect htodo]
  | destroy =>
    refine hone .connDestroy { s.sys with conn := connDestroy s.sys.conn } ?_ rfl
    unfold sysStep
    rw [if_neg (by simp [hlive])]
  | eventDone => exact ⟨⟨s.sys, rfl⟩, rfl⟩

/-- Neither `LM_conn_connect` nor the handler stops on its way. -/
theorem Conduct.goesOn (h : Conduct list sendSerial s) (hlive : s.sys.conn.freed = false)
    (hmore : s.sys.entering = true ∨ s.todo = [] ∧ s.sys.pc ≠ .idle) :
    ∃ a s', cliSessionStep lib s (.library a) = some s' := by
  have hgo : ∀ a sys, sysStep lib s.sys a = some sys →
      (a.inConnect = true ∨ a.calls = false ∧ s.sys.entering = false ∧ s.todo = []) →
        ∃ a s', cliSessionStep lib s (.library a) = some s' := by
    intro a sys hstep ha
    refine ⟨a, ?_⟩
    simp only [cliSessionStep, hstep]
    by_cases hconnect : a.inConnect = true
    · exact ⟨_, if_pos hconnect⟩
    · obtain ⟨hcalls, hback, htodo⟩ := ha.resolve_left hconnect
      simp only [hconnect, hcalls, hback, htodo]
      exact ⟨_, rfl⟩
  by_cases hentering : s.sys.entering = true
  · -- one of the two places in `LM_conn_connect`
    have hwhere : s.sys.callers ≠ 0 ∨ s.sys.connecting = some .caller := by simpa [Sys.entering] using hentering
    rcases hwhere with hcallers | hwho
    · refine hgo (.implicitConnect ⟨none, none, true⟩)
        (enterConnect lib { s.sys with callers := s.sys.callers - 1 } ⟨none, none, true⟩ .caller).1 ?_
        (Or.inl rfl)
      unfold sysStep
      rw [if_neg (by simp [hlive])]
      exact if_neg hcallers
    · refine hgo (.connectFinish true) { s.sys with
        conn := (connConnectFinish s.sys.conn true).1
        connecting := none } ?_ (Or.inl rfl)
      unfold sysStep
      rw [if_neg (by simp [hlive])]
      simp [hwho]
  · obtain ⟨htodo, hpc⟩ := hmore.resolve_left hentering
    obtain ⟨sys, hstep⟩ :=
      handlerAction_isSome (h.reached.of_restrict (monetra lib)) hlive hpc ⟨none, none, true⟩
    refine hgo _ sys hstep ?_
    cases hconnect : (s.sys.handlerAction ⟨none, none, true⟩).inConnect with
    | true => exact Or.inl rfl
    | false =>
      refine Or.inr ⟨?_, by simpa using hentering, htodo⟩
      unfold Sys.handlerAction
      split <;> first | rfl | (split <;> rfl)

/-- The events that end a transaction for the callback. -/
theorem countP_deletes (events : List Event) (p : Ptr) :
    events.countP (fun e => e.deletes = some p) = events.count ⟨.transDone, some p⟩ +
      events.count ⟨.transError, some p⟩ + events.count ⟨.transNoconnect, some p⟩ := by
  induction events with
  | nil => rfl
  | cons e rest ih =>
    rw [List.countP_cons, List.count_cons, List.count_cons, List.count_cons, ih]
    have hone : (if decide (e.deletes = some p) = true then 1 else 0) =
        (if (e == ⟨.transDone, some p⟩) = true then 1 else 0) +
          (if (e == ⟨.transError, some p⟩) = true then 1 else 0) +
            (if (e == ⟨.transNoconnect, some p⟩) = true then 1 else 0) := by
      obtain ⟨type, trans⟩ := e
      by_cases htrans : trans = some p <;> cases type <;> simp [Event.deletes, htrans]
    omega

/-- The end of a transaction is heard once. -/
theorem Conduct.heard (h : Conduct list sendSerial s) (p : Ptr) :
    (callbacksOf s.sys.conn.trace).countP (fun e => e.deletes = some p) ≤ 1 := by
  obtain ⟨waits, timeouts, ends, hordered⟩ := h.running.wellOrdered p
  have honce := hordered.count_le
  rw [← count_eventsOf, ← count_eventsOf] at honce
  have hnone := List.count_eq_zero.mpr (h.expected p)
  have hless := h.told.sublist.countP_le (p := fun e => decide (e.deletes = some p))
  rw [countP_deletes (eventsOf _), hnone] at hless
  omega

/-- The event loop ends with the connection. -/
theorem Conduct.freed_iff (h : Conduct list sendSerial s) :
    s.sys.conn.freed = true ↔ .eventDone ∈ s.run.calls ∧ s.todo = [] ∧ s.sys.pc = .idle := by
  have hboth : .eventDone ∈ s.run.calls ↔ .destroy ∈ s.run.calls := by
    rw [← List.count_pos_iff, h.dones, List.count_pos_iff]
  rw [hboth]
  cases h.phase with
  | up hlive hup => simp [hlive, h.alive_of_up hup]
  | down hlive hdown => simp [hlive, hdown.alive]
  | ending hlive hending =>
    refine ⟨fun hfreed => (by cases hlive.symm.trans hfreed), fun ⟨_, _, hidle⟩ => ?_⟩
    rcases hending.place with hpc | ⟨-, ⟨hpc, -⟩ | ⟨_, hpc⟩ | hpc | hpc⟩ <;> cases hpc.symm.trans hidle
  | gone hfreed hidle htodo hcalled => simp [hfreed, hidle, htodo, hcalled]

/-- `monetra_cli` keeps to what the library asks of its callers, whatever its connection does. The event loop
does not end before the connection is freed, and the connection is not freed before the event loop ends. -/
theorem monetraCli_conforms (h : (cliSession lib list sendSerial).Reachable s) : Conforms lib s := by
  have hconduct := conduct_of_reachable h
  obtain ⟨deletion, kvs, closing, hplan⟩ := hconduct.plan
  refine ⟨hplan.inside, fun p rest htodo => ?_, fun p kvs rest htodo => ?_,
    fun call rest draws htodo hback hdraws => ?_, hconduct.goesOn, hconduct.heard,
    fun p hp => hconduct.expected p (hconduct.told.subset hp), hconduct.last,
    hconduct.destroys, hconduct.dones, hconduct.freed_iff⟩
  · obtain ⟨hthere, hfresh, -⟩ := hplan.fresh p (hplan.deletion_of_todo htodo)
    exact ⟨hthere, hfresh⟩
  · exact hplan.send_of_todo htodo
  · obtain ⟨⟨sys, hrun⟩, hreturned⟩ := hconduct.granted htodo hdraws
    exact ⟨⟨⟨sys, s.run, rest⟩, by simp [cliSessionStep, htodo, hback, hrun]⟩, hreturned⟩

/-- As long as its connection does not fail, `monetra_cli` over the library does what it does over the events
that it was written for: it is told only of the connection, and of responses to what it has sent. -/
theorem monetraCli_refines (h : (cliSession lib list sendSerial).Reachable s) (hfair : s.Faultless) :
    (monetraCli list sendSerial).Reachable s.seen :=
  (conduct_of_reachable h).seen hfair

end Conformity

/-- A session over both sales, on a network that takes every connection. -/
def twoSalesStarted : CliSession :=
  ⟨((monetra reference).run started (cliMain false openNet)).get (by decide),
    ⟨⟨twoSales.kvs, true, 0⟩, 0, []⟩, []⟩

/-- It is an initial state. -/
theorem twoSalesStarted_init : (cliSession reference twoSales true).init twoSalesStarted :=
  ⟨started, false, openNet, started_init reference,
    (Option.some_get
      (show ((monetra reference).run started (cliMain false openNet)).isSome = true by decide)).symm,
    rfl, rfl⟩

/-- The connection comes up, and the first sale is sent. -/
def sendFirstSale : List CliInput :=
  [.library (.event (.connected [] 0)), .library .resume, .library .deliver, .call [saleDraw],
    .library .callbackReturn, .library .drain, .library .finish]

/-- The connection is lost, and the program ends. -/
def loseConnection : List CliInput :=
  [.library (.event (.failed .error [])), .library .deliver, .call [], .library .callbackReturn,
    .library .deliver, .call [], .call [], .library .callbackReturn, .library .drain, .library .finish]

/-- The session whose connection is lost. -/
def twoSalesLost : CliSession :=
  ((cliSession reference twoSales true).run twoSalesStarted (sendFirstSale ++ loseConnection)).get (by decide)

/-- The first sale is deleted, the second one is not sent, and the event loop ends with the connection. -/
theorem monetraCli_conforms_twoSales :
    twoSalesLost.run.calls = [.send 0 (twoSales.kvs.head (by decide)), .delete 0, .destroy, .eventDone] ∧
      twoSalesLost.sys.conn.freed = true ∧ Conforms reference twoSalesLost :=
  ⟨by decide, by decide, monetraCli_conforms
    (System.reachable_get (cliSession reference twoSales true) twoSalesStarted_init _ _)⟩

/-- The server approves both sales, and the connection closes. -/
def serveTwoSales : List CliInput :=
  [.library (.event (.read (responseFrame 7 (ascii "code=AUTH")))), .library .deliver, .call [],
    .call [⟨8, by decide⟩], .library .callbackReturn, .library .drain, .library .finish,
    .library (.event (.read (responseFrame 8 (ascii "code=AUTH")))), .library .deliver, .call [], .call [],
    .library .callbackReturn, .library .drain, .library .finish,
    .library (.event (.failed .disconnected [])), .library .deliver, .call [], .call [],
    .library .callbackReturn, .library .drain, .library .finish]

/-- The session in which both sales are approved. -/
def twoSalesServed : CliSession :=
  ((cliSession reference twoSales true).run twoSalesStarted (sendFirstSale ++ serveTwoSales)).get (by decide)

/-- The program has heard of both responses and of the end of the connection, as if alone. -/
theorem monetraCli_refines_twoSales :
    callbacksOf twoSalesServed.sys.conn.trace =
        [⟨.connConnected, none⟩, ⟨.transDone, some 0⟩, ⟨.transDone, some 1⟩, ⟨.connDisconnect, none⟩] ∧
      twoSalesServed.seen.answered = [0, 1] ∧ (monetraCli twoSales true).Reachable twoSalesServed.seen :=
  ⟨by decide, by decide, monetraCli_refines
    (System.reachable_get (cliSession reference twoSales true) twoSalesStarted_init _ _) (by decide)⟩

end LibMonetra
