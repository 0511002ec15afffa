import LibMonetra.CliRuns
import LibMonetra.Guard

/-!
# What `monetra_cli` puts on the wire

The requests of a session are those of its list of dictionaries, in the order of the list: none of them is
framed twice, and none is left out as long as the connection is up.
-/

namespace LibMonetra

open Foundation

variable {lib : Mstdlib}

/-- The requests that have been framed, with the transaction and the owner of each. -/
def framedRequests (trace : List Obs) : List (Ptr × Owner × Bytes) :=
  trace.filterMap fun o => match o with
    | .framed p owner _ frame => some (p, owner, frame)
    | _ => none

/-- The requests of the first dictionaries of a list: one for each id, of one transaction after the other. -/
def requestsFor (lib : Mstdlib) (ids : List ℕ) (kvs : List HashDict) : List (Ptr × Owner × Bytes) :=
  (ids.zip kvs).mapIdx fun p entry => (p, .user, requestFrame lib entry.1 (requestOf entry.2))

/-- Two stretches of a record. -/
@[simp] theorem framedRequests_append (trace later : List Obs) :
    framedRequests (trace ++ later) = framedRequests trace ++ framedRequests later := List.filterMap_append

/-- A record without requests. -/
theorem framedRequests_eq_nil {new : List Obs} (h : ∀ o ∈ new, o.structures = false) :
    framedRequests new = [] := by
  refine List.filterMap_eq_nil_iff.mpr fun o ho => ?_
  cases o with
  | framed => cases h _ ho
  | _ => rfl

section Library

variable {s s' : Sys} {a : Action} {p : Ptr} {t : Trans} {kvs : HashDict}

/-- Nothing is framed by what reports, and by what answers. -/
theorem framedRequests_handled {c c' : Conn} {new : List Obs} (htrace : c'.trace = c.trace ++ new)
    (hnew : ∀ o ∈ new, o.structures = false) : framedRequests c'.trace = framedRequests c.trace := by
  rw [htrace, framedRequests_append, framedRequests_eq_nil hnew, List.append_nil]

/-- The end of a connection frames nothing. -/
theorem connEventHandleConnError_frames {c : Conn} (hrep : Rep c.toTransStore) (failure : IoFailure) :
    framedRequests (connEventHandleConnError c failure).trace = framedRequests c.trace :=
  framedRequests_handled (connEventHandleConnError_handled c failure fun _ => hrep.live_of_waits).trace
    fun _ ho => Obs.structures_of_isReport (isReport_of_mem_teardownRecord c ho)

/-- The read event frames nothing. -/
theorem ReadEnd.frames {c : Conn} {new : List Obs} {r : Conn × Pc} (h : ReadEnd lib c new r)
    (hrep : Rep c.toTransStore) (hbusy : c.inUse = true) :
    framedRequests r.1.trace = framedRequests c.trace := by
  obtain ⟨hreads, reports, hhandled, hreports⟩ := h.reports hrep hbusy
  refine framedRequests_handled hhandled.trace fun o ho => ?_
  rcases List.mem_append.mp ho with ho | ho
  · exact (hreads o ho).structures
  · exact Obs.structures_of_isReport (hreports o ho)

/-- A connection that comes up frames nothing, if nothing waits to be sent. -/
theorem connEventSetConnected_frames {c : Conn} (hnone : c.transReady = []) :
    framedRequests (connEventSetConnected lib c).trace = framedRequests c.trace := by
  refine @framedRequests_handled _ _ [.queued ⟨.connConnected, none⟩] ?_ (by simp [Obs.structures])
  simp [connEventSetConnected, transSendMessages, hnone, sendMessagesLoop, timerStop, triggerSignal,
    TransStore.connEventAdd]

/-- Only `LM_trans_send` frames a request, if nothing waits for the connection. -/
theorem sysStep_frames (h : Pingless s) (hrunning : Running lib s) (ha : ∀ p, a ≠ .transSend p)
    (hready : a = .resume → s.conn.transReady = []) (hstep : sysStep lib s a = some s') :
    framedRequests s'.conn.trace = framedRequests s.conn.trace := by
  have hrep := hrunning.rep
  have hforget := (@InternalStep.forgetPing lib s.conn.toTransStore).rep hrep
  cases sysStep_move hstep hrunning with
  | aside _ new _ haside =>
    exact framedRequests_handled haside.trace fun o ho => Obs.structures_of_isLocal (haside.records o ho)
  | accepted p | sent p => exact absurd rfl (ha p)
  | pinged _ _ _ _ _ hdisabled _ _ => cases hdisabled.symm.trans h.disabled
  | unpinged _ _ _ _ _ heq => simp [heq, connCleanupPing, h.none]
  | failed _ _ _ _ _ heq =>
    rw [heq]
    exact @connEventHandleConnError_frames { s.conn with inUse := true, error := _ } hrep _
  | read _ _ _ _ _ hend heq =>
    rw [heq]
    exact hend.frames hrep rfl
  | expired _ _ _ heq => simp [heq, connCleanupPing, h.none]
  | unguarded _ heq =>
    rw [heq]
    exact connEventSetConnected_frames (hready rfl)
  | proved _ _ hpc hend heq =>
    have hbusy : s.conn.inUse = true := hrunning.link.busy (by rw [hpc]; rfl)
    obtain ⟨_, _, _, _, hset, hsteps, -⟩ :=
      connEventSetConnected_spec lib { s.conn with pingtxn := none } hforget
        (hrunning.link.cleaning (Or.inl hpc))
    rw [heq]
    refine (hend.frames ?_ (by simpa using hbusy)).trans (connEventSetConnected_frames (hready rfl))
    rw [hset]
    exact InternalSteps.rep hsteps hforget
  | unproved _ _ heq =>
    rw [heq]
    exact @connEventHandleConnError_frames { s.conn with pingtxn := none, error := _ } hforget _
  | destroyed _ _ _ hidle _ heq => simp [heq, connDestroy, hidle, framedRequests]
  | refused _ _ _ _ _ _ _ heq => simp [heq]
  | opened _ _ _ _ _ _ _ _ _ _ _ _ heq => simp [heq]
  | dialed _ _ _ _ _ _ _ _ _ _ _ heq => simp [heq]
  | registered _ _ heq => simp [heq]
  | dropped _ _ _ heq => simp [heq]
  | disconnecting _ _ _ heq => simp [heq]
  | idled _ _ _ heq => simp [heq]
  | wrote _ _ _ heq => simp [heq]

/-- One turn of the loop frames the request of its transaction. -/
theorem sendMessagesLoop_frames {c : Conn} (ht : c.heap p = some t) :
    (∃ t', (sendMessagesLoop lib [p] c).heap p = some t' ∧ t'.transId = t.transId) ∧
      (sendMessagesLoop lib [p] c).trace = c.trace ++ [.framed p t.owner c.status (t.request lib)] := by
  simp only [sendMessagesLoop, markPending, ht, transStructure, Function.update_self, armTimeoutTimer]
  split <;> exact ⟨⟨_, Function.update_self .., rfl⟩, rfl⟩

/-- A single request that waits is framed when the connection is up. -/
theorem transSendMessages_frames {c : Conn} (ht : c.heap p = some t)
    (hready : c.status = .connected → c.transReady = [p]) :
    (∃ t', (transSendMessages lib c).1.heap p = some t' ∧ t'.transId = t.transId) ∧
      framedRequests (transSendMessages lib c).1.trace = framedRequests c.trace ++
        if c.status = .connected then [(p, t.owner, t.request lib)] else [] := by
  by_cases hup : c.status = .connected
  · obtain ⟨htrans, htrace⟩ := @sendMessagesLoop_frames lib p t c ht
    have hheap : (transSendMessages lib c).1.heap = (sendMessagesLoop lib [p] c).heap ∧
        (transSendMessages lib c).1.trace = (sendMessagesLoop lib [p] c).trace := by
      rw [transSendMessages, if_neg (by simp [hup]), if_neg (by simp [hup]), hready hup]
      exact ⟨rfl, rfl⟩
    rw [hheap.1, hheap.2, htrace, if_pos hup]
    exact ⟨htrans, framedRequests_append ..⟩
  · have hstays : (transSendMessages lib c).1 = c := by
      unfold transSendMessages
      split <;> rfl
    rw [hstays, if_neg hup, List.append_nil]
    exact ⟨⟨t, ht, rfl⟩, rfl⟩

/-- What is sent while the connection is up is framed at once, if nothing waits before it. -/
theorem transSend_frames {c : Conn} (ht : c.heap p = some t) (hnew : t.status = .new)
    (hparams : t.numParams ≠ 0) (hready : c.status = .connected → c.transReady = []) :
    (∃ t', (transSend lib c p).conn.heap p = some t' ∧ t'.transId = t.transId) ∧
      framedRequests (transSend lib c p).conn.trace = framedRequests c.trace ++
        if c.status = .connected then [(p, t.owner, t.request lib)] else [] := by
  have haccepts : ¬(t.status ≠ .new ∨ t.numParams = 0) := by simp [hnew, hparams]
  obtain ⟨htrans, hframed⟩ := @transSendMessages_frames lib p { t with status := .ready } { c with
      heap := Function.update c.heap p (some { t with status := .ready })
      transNew := c.transNew.erase p
      transReady := c.transReady ++ [p]
      trace := c.trace ++ [.accepted p] } (Function.update_self ..)
      fun hup => by rw [hready hup, List.nil_append]
  rw [framedRequests_append, show framedRequests [.accepted p] = [] from rfl, List.append_nil] at hframed
  simp only [transSend, ht, if_neg haccepts]
  exact ⟨htrans, hframed⟩

/-- What a call of the callback frames. -/
theorem call_send_frames {draws : List RandDraw} (hready : s.conn.status = .connected → s.conn.transReady = [])
    (hparams : (requestOf kvs).numKeys ≠ 0)
    (hrun : (monetra lib).run s ((CliCall.send s.conn.nextPtr kvs).actions draws) = some s') :
    ∃ t, s'.conn.heap s.conn.nextPtr = some t ∧ framedRequests s'.conn.trace = framedRequests s.conn.trace ++
      if s.conn.status = .connected then
        [(s.conn.nextPtr, .user, requestFrame lib t.transId (requestOf kvs))] else [] := by
  rw [CliCall.actions, List.cons_append] at hrun
  obtain ⟨created, hcreated, hrest⟩ := Option.bind_eq_some_iff.mp hrun
  rw [System.run_append] at hrest
  obtain ⟨built, hbuilt, hsent⟩ := Option.bind_eq_some_iff.mp hrest
  have hcreated : sysStep lib s (.transNew draws) = some created := hcreated
  have hsent := sysStep_of_run hsent
  have hlive := sysStep_live lib hcreated
  have hlive' := (called_transNew hcreated).freed.trans hlive
  obtain rfl := Option.some.inj (hbuilt.symm.trans (run_transSetParams hlive' s.conn.nextPtr kvs.entries))
  unfold sysStep at hcreated
  rw [if_neg (by simp [hlive])] at hcreated
  obtain ⟨⟨c, p⟩, hnew, rfl⟩ := Option.map_eq_some_iff.mp hcreated
  obtain ⟨draw, -, -, heq⟩ := transNew_spec hnew
  have ht : c.heap s.conn.nextPtr = some (Trans.fresh draw.val .user) := by
    rw [heq]
    exact Function.update_self ..
  obtain ⟨params, hset, hall⟩ := transSetParams_eq ht rfl kvs.entries
  have hsome : params = some (requestOf kvs) := by
    cases params with
    | none => exact absurd (congrArg HashDict.numKeys hall.symm) hparams
    | some dict => exact congrArg some hall
  have hopen := sysStep_live lib hsent
  unfold sysStep at hsent
  rw [if_neg (by simpa using hopen)] at hsent
  obtain rfl := Option.some.inj hsent
  simp only [hset]
  obtain ⟨⟨t, ht', hid⟩, hframed⟩ := @transSend_frames lib s.conn.nextPtr
    { Trans.fresh draw.val .user with requestParams := params } (c.setRequest s.conn.nextPtr params)
    (Conn.setRequest_self ht params) rfl (by rw [hsome]; exact hparams) fun hup => by
      have hup : s.conn.status = .connected := by
        rw [heq] at hup
        exact hup
      rw [heq]
      exact hready hup
  refine ⟨t, ht', hframed.trans ?_⟩
  have hsame : framedRequests c.trace = framedRequests s.conn.trace ∧ c.status = s.conn.status := by
    rw [heq]
    exact ⟨@framedRequests_handled _ _ [.created s.conn.nextPtr .user] rfl (by simp [Obs.structures]), rfl⟩
  rw [show framedRequests (c.setRequest s.conn.nextPtr params).trace = _ from hsame.1,
    show (c.setRequest s.conn.nextPtr params).status = _ from hsame.2, hid]
  congr 2
  rw [Trans.request, hsome]
  rfl

end Library

section Wire

variable {list : KvsList lib.sizeBits} {sendSerial : Bool} {s s' : CliSession} {ids : List ℕ} {p : Ptr} {id : ℕ}

/-- The request of the next dictionary. -/
theorem requestsFor_concat {kvs : List HashDict} {next : HashDict} (hnext : kvs[ids.length]? = some next)
    (id : ℕ) :
    requestsFor lib (ids ++ [id]) kvs =
      requestsFor lib ids kvs ++ [(ids.length, .user, requestFrame lib id (requestOf next))] := by
  obtain ⟨before, after, rfl, hlength⟩ : ∃ before after, kvs = before ++ next :: after ∧
      ids.length = before.length := by
    obtain ⟨hless, rfl⟩ := List.getElem?_eq_some_iff.mp hnext
    refine ⟨kvs.take ids.length, kvs.drop (ids.length + 1), ?_, ?_⟩
    · rw [← List.drop_eq_getElem_cons hless, List.take_append_drop]
    · rw [List.length_take, Nat.min_eq_left hless.le]
  have hzip : ids.zip (before ++ next :: after) = ids.zip before := by
    simpa using @List.zip_append _ _ ids [] before (next :: after) hlength
  have hzip' : (ids ++ [id]).zip (before ++ next :: after) = ids.zip before ++ [(id, next)] := by
    simpa using @List.zip_append _ _ ids [id] before (next :: after) hlength
  rw [requestsFor, requestsFor, hzip, hzip', List.mapIdx_concat, List.length_zip, ← hlength, Nat.min_self]

/-- What has been framed of a session: the requests of the first dictionaries of its list. -/
structure Wired (list : KvsList lib.sizeBits) (s : CliSession) (ids : List ℕ) : Prop where
  framed : framedRequests s.sys.conn.trace = requestsFor lib ids list.kvs
  born : ids.length ≤ s.sys.conn.nextPtr
  named : ∀ p id, ids[p]? = some id → ∀ t, s.sys.conn.heap p = some t → t.transId = id
  answered : ∀ p, ⟨.transDone, some p⟩ ∈ eventsOf s.sys.conn.trace → p < ids.length
  /-- Nothing waits as long as the connection has not ended. -/
  whole : (∀ e ∈ eventsOf s.sys.conn.trace, e.terminal = false) → ids.length = s.sys.conn.nextPtr

/-- The requests are those of the transactions before the next one. -/
theorem lt_of_mem_requestsFor {kvs : List HashDict} {request : Owner × Bytes}
    (h : (p, request) ∈ requestsFor lib ids kvs) : p < ids.length := by
  obtain ⟨i, hi, heq⟩ := List.mem_mapIdx.mp h
  obtain rfl := congrArg Prod.fst heq
  exact (List.length_zip ▸ hi).trans_le (Nat.min_le_left _ _)

/-- A response has been reported for a request that has been framed. -/
theorem framed_of_done {s : Sys} {t : Trans} (h : Running lib s)
    (hdone : ⟨.transDone, some p⟩ ∈ eventsOf s.conn.trace) (ht : s.conn.heap p = some t) :
    ∃ request, (p, request) ∈ framedRequests s.conn.trace := by
  have hmem : .transDone ∈ queuedFor p s.conn.trace := by
    rw [← List.count_pos_iff, ← count_eventsOf, List.count_pos_iff]
    exact hdone
  obtain ⟨waits, timeouts, ends, htold⟩ := (h.life p).told
  have hends : ends ≠ [] := by
    rintro rfl
    have hevents : queuedFor p s.conn.trace = _ := htold.order.events
    rw [hevents] at hmem
    simp at hmem
  have hstatus : t.status = .done := by
    cases hstatus : t.status with
    | new => exact absurd (htold.new t ht hstatus).2.2 hends
    | ready => exact absurd (htold.ready t ht hstatus).2 hends
    | pending => exact absurd (htold.pending t ht hstatus).1 hends
    | done => rfl
  obtain ⟨status, params, hframed⟩ := (h.life p).sent.sent t ht (Or.inr hstatus)
  exact ⟨_, List.mem_filterMap.mpr ⟨_, List.mem_of_mem_filter hframed, rfl⟩⟩

/-- A transaction keeps its id over a run. -/
theorem identified_run {s s' : Sys} (actions : List Action) (hs : (monetra lib).Reachable s)
    (hrun : (monetra lib).run s actions = some s') (hborn : p < s.conn.nextPtr)
    (hid : ∀ t, s.conn.heap p = some t → t.transId = id) : ∀ t, s'.conn.heap p = some t → t.transId = id := by
  induction actions generalizing s with
  | nil => exact Option.some.inj hrun ▸ hid
  | cons a rest ih =>
    obtain ⟨mid, hmid, hrest⟩ := Option.bind_eq_some_iff.mp hrun
    obtain ⟨hborn', hid'⟩ := (running_of_reachable hs).identified hmid hborn hid
    exact ih (hs.step hmid) hrest hborn' hid'

/-- The dictionary that is sent as a transaction is that of its place in the list. -/
theorem Conduct.dict_of_send (h : Conduct list sendSerial s) {kvs : HashDict}
    (hsend : .send p kvs ∈ s.run.calls) : list.kvs[p]? = some kvs := by
  have hmem : (p, kvs) ∈ sendsOf s.run.calls := List.mem_filterMap.mpr ⟨_, hsend, rfl⟩
  obtain ⟨i, hi, heq⟩ := List.mem_iff_getElem.mp hmem
  have hget : (sendsOf s.run.calls)[i]? = some (p, kvs) := List.getElem?_eq_some_iff.mpr ⟨hi, heq⟩
  have hplace : i = p := by
    have hfst := congrArg (fun handles => handles[i]?) h.handles
    simp only [List.getElem?_map, hget, Option.map_some] at hfst
    obtain ⟨_, hrange⟩ := List.getElem?_eq_some_iff.mp hfst.symm
    rwa [List.getElem_range] at hrange
  rw [← h.inOrder, List.getElem?_append_left (by simpa [← hplace] using hi), List.getElem?_map, ← hplace, hget]
  rfl

/-- A connection that has not reported its end is up. -/
theorem Conduct.up_of_unended (h : Conduct list sendSerial s) (hlive : s.sys.conn.freed = false)
    (hunended : ∀ e ∈ eventsOf s.sys.conn.trace, e.terminal = false) : Up s := by
  cases h.phase with
  | up _ hup => exact hup
  | down _ hdown =>
    obtain ⟨e, he, hterminal⟩ := hdown.waiting
    have hmem : e ∈ eventsOf s.sys.conn.trace := by
      rw [← h.delivered hlive hdown.kept]
      exact List.mem_append_right _ he
    cases hterminal.symm.trans (hunended e hmem)
  | ending _ hending =>
    have hpos := List.count_pos_iff.mpr hending.called
    rw [h.destroys, List.countP_pos_iff] at hpos
    obtain ⟨e, he, hterminal⟩ := hpos
    cases hterminal.symm.trans (hunended e (h.told.subset he))
  | gone hfreed => cases hlive.symm.trans hfreed

/-- What is reported names transactions that are there. -/
theorem sysStep_reports_live {s s' : Sys} {a : Action} (hrunning : Running lib s) (hstage : Stage s)
    (hstep : sysStep lib s a = some s') {type : EventType} (he : ⟨type, some p⟩ ∈ eventsOf s'.conn.trace) :
    ⟨type, some p⟩ ∈ eventsOf s.conn.trace ∨ s'.conn.heap p ≠ none := by
  cases hhandles : a.handles with
  | false =>
    rw [sysStep_reports_none hrunning hstage hhandles hstep] at he
    exact Or.inl he
  | true =>
    cases sysStep_turn hstep hrunning with
    | served new _ hserved =>
      rw [hserved.handled.trace, eventsOf_append] at he
      exact (List.mem_append.mp he).imp id fun he =>
        Option.isSome_iff_ne_none.mp (hserved.handled.named type p he)
    | destroyed hdestroys _ _ _ => cases a <;> simp [Action.handles, Action.destroys] at hhandles hdestroys
    | delivered _ _ ha _ _ _ | returned ha _ _ | deleted _ _ ha _ _ _ | drained ha _ _ _ =>
      rw [ha] at hhandles
      cases hhandles

/-- The event loop frames nothing. -/
theorem Wired.library (h : Wired list s ids) (hconduct : Conduct list sendSerial s) {a : Action} {sys : Sys}
    (ha : a.calls = false ∨ a.inConnect = true) (hstep : sysStep lib s.sys a = some sys) {run : CliRun}
    {todo : List CliCall} : Wired list ⟨sys, run, todo⟩ ids := by
  have hlive := sysStep_live lib hstep
  have hstage := stage_of_reachable (hconduct.reached.of_restrict (monetra lib)) hlive
  have hpingless := hconduct.pingless hlive
  have hsend : ∀ q, a ≠ .transSend q := by
    rintro q rfl
    simp [Action.calls, Action.inConnect] at ha
  have hready : a = .resume → s.sys.conn.transReady = [] := by
    rintro rfl
    obtain ⟨pingEnd, hpc⟩ : ∃ pingEnd, s.sys.pc = .cleaning pingEnd := by
      cases sysStep_walk hstep with
      | stays _ hcalls _ => cases hcalls
      | resumes pingEnd hpc _ _ => exact ⟨pingEnd, hpc⟩
    cases hconduct.phase with
    | up _ hup => exact hup.ready
    | down _ hdown => rcases hdown.busy with hbusy | hbusy <;> cases hpc.symm.trans hbusy
    | ending _ hending =>
      rcases hending.place with hplace | ⟨-, ⟨hplace, -⟩ | ⟨_, hplace⟩ | hplace | hplace⟩ <;>
        cases hpc.symm.trans hplace
    | gone hfreed => cases hlive.symm.trans hfreed
  have hframed := sysStep_frames hpingless hconduct.running hsend hready hstep
  have hnext := sysStep_creates_none hpingless ha hstep
  obtain ⟨new, htrace, -⟩ := sysStep_report hstep hconduct.running hstage
  refine ⟨hframed.trans h.framed, h.born.trans_eq hnext.symm, fun p id hid => ?_, fun p hdone => ?_,
    fun hunended => (h.whole fun e he => hunended e ?_).trans hnext.symm⟩
  · have hborn := (List.getElem?_eq_some_iff.mp hid).1.trans_le h.born
    exact (hconduct.running.identified hstep hborn (h.named p id hid)).2
  · rcases sysStep_reports_live hconduct.running hstage hstep hdone with hbefore | hthere
    · exact h.answered p hbefore
    · obtain ⟨t, ht⟩ := Option.ne_none_iff_exists'.mp hthere
      obtain ⟨request, hmem⟩ := framed_of_done (hconduct.running.step hstep) hdone ht
      rw [hframed, h.framed] at hmem
      exact lt_of_mem_requestsFor hmem
  · change e ∈ eventsOf sys.conn.trace
    rw [htrace, eventsOf_append]
    exact List.mem_append_left _ he

/-- A call that sends nothing frames nothing. -/
theorem call_frames_none {call : CliCall} {draws : List RandDraw} {s s' : Sys} (hpingless : Pingless s)
    (hrunning : Running lib s) (hbusy : s.conn.inUse = true) (hsend : ∀ p kvs, call ≠ .send p kvs)
    (hrun : (monetra lib).run s (call.actions draws) = some s') :
    framedRequests s'.conn.trace = framedRequests s.conn.trace ∧ s'.conn.nextPtr = s.conn.nextPtr ∧
      eventsOf s'.conn.trace = eventsOf s.conn.trace := by
  by_cases hdestroy : call = .destroy
  · subst hdestroy
    rw [connDestroy_of_busy hbusy (sysStep_of_run hrun)]
    exact ⟨rfl, rfl, rfl⟩
  · have hcalled := called_call hbusy hdestroy hrun
    obtain ⟨new, htrace, hnone, -, -⟩ := hcalled.trace
    refine ⟨?_, ?_, by rw [htrace, eventsOf_append, hnone, List.append_nil]⟩
    · cases call with
      | send p kvs => exact absurd rfl (hsend p kvs)
      | delete p =>
        exact sysStep_frames (a := .transDelete p) hpingless hrunning nofun nofun (sysStep_of_run hrun)
      | disconnect =>
        exact sysStep_frames (a := .connDisconnect) hpingless hrunning nofun nofun (sysStep_of_run hrun)
      | destroy => exact absurd rfl hdestroy
      | eventDone =>
        obtain rfl := Option.some.inj hrun
        rfl
    · rw [hcalled.next]
      cases call with
      | send p kvs => exact absurd rfl (hsend p kvs)
      | delete | disconnect | destroy | eventDone => rfl

/-- A request is framed when it is sent, or stays unsent. -/
theorem Wired.sends (h : Wired list s ids) (hconduct : Conduct list sendSerial s) {kvs : HashDict}
    {draws : List RandDraw} {todo : List CliCall} {sys : Sys}
    (htodo : s.todo = .send s.sys.conn.nextPtr kvs :: todo)
    (hrun : (monetra lib).run s.sys ((CliCall.send s.sys.conn.nextPtr kvs).actions draws) = some sys) :
    ∃ ids', Wired list ⟨sys, s.run, todo⟩ ids' := by
  obtain ⟨deletion, left, closing, hplan⟩ := hconduct.plan
  obtain ⟨hpc, hlive⟩ := hplan.inside (by simp [htodo])
  have hbusy := hconduct.running.link.busy (by rw [hpc]; rfl)
  have hsend : .send s.sys.conn.nextPtr kvs ∈ s.run.calls := by
    obtain ⟨made, hmade⟩ := hplan.calls
    rw [hmade, htodo]
    simp
  have hreach := hconduct.reached.of_restrict (monetra lib)
  have hstage := stage_of_reachable hreach hlive
  have hkept : CliCall.send s.sys.conn.nextPtr kvs ≠ .destroy := nofun
  have hcalled := called_call hbusy hkept hrun
  have hnext : sys.conn.nextPtr = s.sys.conn.nextPtr + 1 := hcalled.next
  obtain ⟨new, htrace, hnone, -, -⟩ := hcalled.trace
  have hevents : eventsOf sys.conn.trace = eventsOf s.sys.conn.trace := by
    rw [htrace, eventsOf_append, hnone, List.append_nil]
  obtain ⟨t, ht, hframed⟩ := call_send_frames hstage.allSent (hconduct.prepared hsend).numKeys_ne_zero hrun
  have hnamed : ∀ p id, ids[p]? = some id → ∀ t, sys.conn.heap p = some t → t.transId = id := by
    intro p id hid
    have hborn := (List.getElem?_eq_some_iff.mp hid).1.trans_le h.born
    exact identified_run _ hreach hrun hborn (h.named p id hid)
  by_cases hup : s.sys.conn.status = .connected
  · -- the connection is up, so that every request before this one has been framed
    have hwhole : ids.length = s.sys.conn.nextPtr := by
      refine h.whole ?_
      cases hconduct.phase with
      | up _ hup => exact fun e he => Event.terminal_of_fair (hup.fair e he)
      | down _ hdown => exact absurd hup hdown.fallen
      | ending _ hending => rcases hending.todo with hall | hall | hall <;> cases htodo.symm.trans hall
      | gone hfreed => cases hlive.symm.trans hfreed
    have hdict : list.kvs[ids.length]? = some kvs := hwhole ▸ hconduct.dict_of_send hsend
    refine ⟨ids ++ [t.transId], ?_, ?_, fun p id hid => ?_, fun p hdone => ?_, fun _ => ?_⟩
    · rw [requestsFor_concat hdict, ← h.framed, hwhole]
      exact hframed.trans (by rw [if_pos hup])
    · exact (by simp [hwhole, hnext] : (ids ++ [t.transId]).length ≤ sys.conn.nextPtr)
    · rcases Nat.lt_or_ge p ids.length with hless | hmore
      · rw [List.getElem?_append_left hless] at hid
        exact hnamed p id hid
      · obtain ⟨hless, -⟩ := List.getElem?_eq_some_iff.mp hid
        have hplace : p = ids.length := by
          rw [List.length_append, List.length_singleton] at hless
          exact Nat.le_antisymm (Nat.le_of_lt_succ hless) hmore
        subst hplace
        rw [List.getElem?_concat_length] at hid
        intro t' ht'
        obtain rfl : t = t' := Option.some.inj (ht.symm.trans (hwhole ▸ ht'))
        exact Option.some.inj hid
    · have hbefore : ⟨.transDone, some p⟩ ∈ eventsOf s.sys.conn.trace := hevents ▸ hdone
      rw [List.length_append]
      exact (h.answered p hbefore).trans_le (Nat.le_add_right _ _)
    · exact (by simp [hwhole, hnext] : (ids ++ [t.transId]).length = sys.conn.nextPtr)
  · refine ⟨ids, ?_, ?_, hnamed, fun p hdone => h.answered p (hevents ▸ hdone), fun hunended => ?_⟩
    · exact (hframed.trans (by rw [if_neg hup, List.append_nil])).trans h.framed
    · exact h.born.trans (hnext ▸ Nat.le_succ _)
    · -- only what is sent behind the end of the connection is not framed at once
      have hunended : ∀ e ∈ eventsOf s.sys.conn.trace, e.terminal = false := hevents ▸ hunended
      exact absurd (hconduct.status_of_send (hconduct.up_of_unended hlive hunended) hlive
        (by rw [hpc]; exact nofun) hsend) hup

/-- Every step keeps to the list. -/
theorem Wired.step (h : Wired list s ids) (hconduct : Conduct list sendSerial s) {input : CliInput}
    (hstep : cliSessionStep lib s input = some s') : ∃ ids', Wired list s' ids' := by
  cases cliSessionStep_cases hstep with
  | enters a sys ha hsys heq => exact ⟨ids, heq ▸ h.library hconduct (Or.inr ha) hsys⟩
  | delivers e later sys _ _ hsys heq => exact ⟨ids, heq ▸ h.library hconduct (Or.inl rfl) hsys⟩
  | goes a sys hcalls _ _ _ _ hsys heq => exact ⟨ids, heq ▸ h.library hconduct (Or.inl hcalls) hsys⟩
  | call call todo draws sys htodo _ hrun heq =>
    subst heq
    obtain ⟨deletion, kvs, closing, hplan⟩ := hconduct.plan
    obtain ⟨hpc, hlive⟩ := hplan.inside (by simp [htodo])
    have hbusy := hconduct.running.link.busy (by rw [hpc]; rfl)
    by_cases hsend : ∃ p kvs, call = .send p kvs
    · obtain ⟨p, kvs, rfl⟩ := hsend
      obtain rfl := hplan.send_of_todo htodo
      exact h.sends hconduct htodo hrun
    · obtain ⟨hframed, hnext, hevents⟩ := call_frames_none (hconduct.pingless hlive) hconduct.running
        hbusy (fun p kvs heq => hsend ⟨p, kvs, heq⟩) hrun
      refine ⟨ids, hframed.trans h.framed, h.born.trans_eq hnext.symm, fun p id hid => ?_,
        fun p hdone => h.answered p (hevents ▸ hdone), fun hunended => ?_⟩
      · have hborn := (List.getElem?_eq_some_iff.mp hid).1.trans_le h.born
        exact identified_run _ (hconduct.reached.of_restrict (monetra lib)) hrun hborn (h.named p id hid)
      · exact (h.whole (hevents ▸ hunended)).trans hnext.symm

/-- What has been framed of a session are the requests of the first dictionaries of its list. -/
theorem wired_of_reachable (h : (cliSession lib list sendSerial).Reachable s) : ∃ ids, Wired list s ids := by
  refine System.Reachable.invariant (P := fun s => ∃ ids, Wired list s ids) (cliSession lib list sendSerial)
    ?_ ?_ h
  · rintro s ⟨sys, enableTrace, net, hinit, hrun, -, -⟩
    obtain ⟨htrace, hnext⟩ := cliMain_fresh hinit hrun
    refine ⟨[], ?_, Nat.zero_le _, nofun, fun p hdone => ?_, fun _ => hnext.symm⟩
    · rw [htrace]
      rfl
    · rw [htrace] at hdone
      cases hdone
  · rintro s input s' hs ⟨ids, hids⟩ hstep
    exact hids.step (conduct_of_reachable hs) hstep

/-- When the connection has not failed and the program disconnects, its whole list has been framed. -/
theorem Wired.length_eq (hwired : Wired list s ids) (h : (cliSession lib list sendSerial).Reachable s)
    (hfair : s.Faultless) (hdisc : .disconnect ∈ s.run.calls) : ids.length = list.kvs.length := by
  have hconduct := conduct_of_reachable h
  have hsends := congrArg List.length hconduct.handles
  have hlist := congrArg List.length hconduct.inOrder
  rw [List.length_map, List.length_range] at hsends
  rw [List.length_append, List.length_map, hsends] at hlist
  refine Nat.le_antisymm ?_ ?_
  · -- no more has been framed than has been sent
    exact (hwired.born.trans hconduct.next_le).trans (hlist ▸ Nat.le_add_right _ _)
  · -- the last dictionary has been sent, and its response has been reported
    have hsent := sent_of_reachable (hconduct.seen hfair)
    obtain ⟨hleft, hnone⟩ := hsent.answered_length.mp (hsent.all_answered hdisc)
    have hpos := List.length_pos_iff.mpr list.nonempty
    have hall : s.run.nextTrans = list.kvs.length := by
      rw [← hlist, show s.run.trans.kvs = [] from hleft]
      rfl
    have hlast : list.kvs.length - 1 ∈ (sentOf s.run.calls).map Prod.fst := by
      rw [hconduct.sentOf_eq, hconduct.handles, List.mem_range, hall]
      exact Nat.sub_lt hpos Nat.one_pos
    have hanswered : list.kvs.length - 1 ∈ s.seen.answered := by
      by_contra hwaits
      have hmem : list.kvs.length - 1 ∈ s.seen.unanswered := List.mem_filter.mpr ⟨hlast, decide_eq_true hwaits⟩
      rw [hnone] at hmem
      cases hmem
    have hless := hwired.answered _ (hconduct.told.subset (mem_respondedOf.mp hanswered))
    exact Nat.le_of_pred_lt hless

/-- Whatever its connection does, `monetra_cli` puts on the wire the dictionaries of its list, each of them once
and in the order of the list, and every response is one to a request that has been framed. If the connection
does not fail, all of the list has been framed when the program disconnects. -/
theorem monetraCli_frames (h : (cliSession lib list sendSerial).Reachable s) :
    ∃ ids, Wired list s ids ∧ (s.Faultless → .disconnect ∈ s.run.calls → ids.length = list.kvs.length) := by
  obtain ⟨ids, hwired⟩ := wired_of_reachable h
  exact ⟨ids, hwired, hwired.length_eq h⟩

/-- What has been framed of both sales. -/
theorem monetraCli_frames_twoSales :
    framedRequests twoSalesServed.sys.conn.trace = requestsFor reference [7, 8] twoSales.kvs ∧
      ∃ ids, @Wired reference twoSales twoSalesServed ids ∧
        (twoSalesServed.Faultless → .disconnect ∈ twoSalesServed.run.calls → ids.length = 2) :=
  ⟨by decide, monetraCli_frames
    (System.reachable_get (cliSession reference twoSales true) twoSalesStarted_init _ _)⟩

end Wire

end LibMonetra
