import LibMonetra.CliSession

/-!
# How `monetra_cli` conducts itself

Whatever its connection does, `monetra_cli` keeps to what the library asks of its callers, and its event loop
ends when the connection has been freed. As long as the connection does not fail, the library gives it the
events that it was written for.
-/

namespace LibMonetra

open Foundation

variable {lib : Mstdlib}

/-- An event of a connection that has not failed. -/
def Event.fair (e : Event) : Bool := e.type == .connConnected || e.midway

/-- The transactions that the program has asked to send, with their dictionaries. -/
def sendsOf (calls : List CliCall) : List (Ptr × HashDict) :=
  calls.filterMap fun call => match call with
    | .send p kvs => some (p, kvs)
    | _ => none

/-- The calls that are left of a callback: the deletion, the dictionaries, and what it closes with. -/
structure Plan (s : CliSession) (deletion : Option Ptr) (kvs : List HashDict) (closing : List CliCall) :
    Prop where
  todo : s.todo = deletion.toList.map .delete ++ sendsFrom s.sys.conn.nextPtr kvs ++ closing
  next : s.run.nextTrans = s.sys.conn.nextPtr + kvs.length
  calls : ∃ made, s.run.calls = made ++ s.todo
  inside : s.todo ≠ [] → s.sys.pc = .callback ∧ s.sys.conn.freed = false
  closing : closing = [] ∨ closing = [.disconnect] ∨ closing = [.destroy, .eventDone] ∨ closing = [.eventDone]
  fresh : ∀ p, deletion = some p → s.sys.conn.heap p ≠ none ∧ p ∉ deletedOf s.sys.conn.trace ∧
    ∃ e ∈ callbacksOf s.sys.conn.trace, e.deletes = some p

/-- The connection has not reported its end: nothing waits to be sent, and nobody is inside
`LM_conn_connect` behind a request. -/
structure Up (s : CliSession) : Prop where
  kept : s.sys.conn.destroy = false
  callers : s.sys.callers = 0
  handler : s.sys.pc ≠ .reconnecting true ∧ s.sys.pc ≠ .awaiting
  course : (s.sys.registered = true ∧ Course s.sys (some (eventsOf s.sys.conn.trace))) ∨
    (s.sys.registered = false ∧ eventsOf s.sys.conn.trace = [] ∧ s.sys.pc = .idle)
  ready : s.sys.conn.transReady = []
  asked : s.sys.conn.status = .disconnecting → .disconnect ∈ s.run.calls ∧ .disconnect ∉ s.todo

/-- The end of the connection waits to be delivered. -/
structure Down (s : CliSession) : Prop where
  kept : s.sys.conn.destroy = false
  busy : s.sys.pc = .delivering ∨ s.sys.pc = .callback
  waiting : ∃ e ∈ s.sys.conn.events, e.terminal = true
  fallen : s.sys.conn.status ≠ .connected
  alive : .destroy ∉ s.run.calls

/-- The callback has been called with the end of the connection: the connection is destroyed, and freed when
the handler returns. -/
structure Ending (s : CliSession) : Prop where
  called : .destroy ∈ s.run.calls
  todo : s.todo = [.destroy, .eventDone] ∨ s.todo = [.eventDone] ∨ s.todo = []
  destroy : .destroy ∉ s.todo → s.sys.conn.destroy = true
  place : s.sys.pc = .callback ∨ s.todo = [] ∧ ((s.sys.pc = .delivering ∧ s.sys.conn.events = []) ∨
    (∃ request, s.sys.pc = .reconnecting request) ∨ s.sys.pc = .awaiting ∨ s.sys.pc = .finishing)

/-- How far a session has come. -/
inductive Phase (s : CliSession) : Prop
  | up : s.sys.conn.freed = false → Up s → Phase s
  | down : s.sys.conn.freed = false → Down s → Phase s
  | ending : s.sys.conn.freed = false → Ending s → Phase s
  | gone : s.sys.conn.freed = true → s.sys.pc = .idle → s.todo = [] → .destroy ∈ s.run.calls → Phase s

/-- The connection has not failed so far: it has ended only if the program has asked for it. -/
def CliSession.Faultless (s : CliSession) : Prop :=
  ∀ e ∈ callbacksOf s.sys.conn.trace, e.fair = true ∨ e.type = .connDisconnect ∧ .disconnect ∈ s.run.calls

instance (s : CliSession) : Decidable s.Faultless :=
  inferInstanceAs (Decidable (∀ e ∈ callbacksOf s.sys.conn.trace,
    e.fair = true ∨ e.type = .connDisconnect ∧ .disconnect ∈ s.run.calls))

/-- What holds of every session. -/
structure Conduct (list : KvsList lib.sizeBits) (sendSerial : Bool) (s : CliSession) : Prop where
  reached : (deletedOnce lib).Reachable s.sys
  pingless : s.sys.conn.freed = false → Pingless s.sys
  untimed : Untimed s.sys
  plan : ∃ deletion kvs closing, Plan s deletion kvs closing
  /-- Nothing is delivered that was not reported, and nothing is lost until the end. -/
  told : callbacksOf s.sys.conn.trace <+: eventsOf s.sys.conn.trace
  delivered : s.sys.conn.freed = false → s.sys.conn.destroy = false →
    callbacksOf s.sys.conn.trace ++ s.sys.conn.events = eventsOf s.sys.conn.trace
  expected : ∀ p, ⟨.transNoconnect, some p⟩ ∉ eventsOf s.sys.conn.trace
  once : (eventsOf s.sys.conn.trace).count ⟨.connConnected, none⟩ ≤ 1
  deleted : ∀ p ∈ deletedOf s.sys.conn.trace, ∃ e ∈ callbacksOf s.sys.conn.trace, e.deletes = some p
  handles : (sendsOf s.run.calls).map Prod.fst = List.range s.run.nextTrans
  inOrder : (sendsOf s.run.calls).map Prod.snd ++ s.run.trans.kvs = list.kvs
  seen : s.Faultless → (monetraCli list sendSerial).Reachable s.seen
  last : ∀ e ∈ (callbacksOf s.sys.conn.trace).dropLast, e.terminal = false
  destroys : s.run.calls.count .destroy = (callbacksOf s.sys.conn.trace).countP Event.terminal
  dones : s.run.calls.count .eventDone = s.run.calls.count .destroy
  phase : Phase s

section Events

variable {s s' : Sys} {a : Action} {e : Event} {p : Ptr}

/-- An event that names a transaction names one that was created, and is about its course. -/
theorem Running.named (h : Running lib s) (he : e ∈ eventsOf s.conn.trace) (hp : e.trans = some p) :
    p < s.conn.nextPtr ∧ (e.type = .transNoconnect ∨ e.type = .transTimeout ∨ e.type = .transDone ∨
      e.type = .transError) := by
  obtain ⟨type, trans⟩ := e
  obtain rfl : trans = some p := hp
  have hmem : type ∈ queuedFor p s.conn.trace := by
    rw [← List.count_pos_iff, ← count_eventsOf, List.count_pos_iff]
    exact he
  obtain ⟨waits, timeouts, ends, htold⟩ := (h.life p).told
  refine ⟨?_, ?_⟩
  · by_contra hunborn
    obtain ⟨rfl, rfl, rfl⟩ := htold.unborn hunborn
    have hnone : queuedFor p s.conn.trace = [] := htold.order.events
    rw [hnone] at hmem
    cases hmem
  · have hevents : queuedFor p s.conn.trace = _ := htold.order.events
    rw [hevents, List.mem_append, List.mem_append, List.mem_replicate, List.mem_replicate] at hmem
    rcases hmem with ⟨-, rfl⟩ | ⟨-, rfl⟩ | hmem
    · exact Or.inl rfl
    · exact Or.inr (Or.inl rfl)
    · rcases htold.order.ends with hends | hends | hends <;> rw [hends] at hmem
      · cases hmem
      · exact Or.inr (Or.inr (Or.inl (List.mem_singleton.mp hmem)))
      · exact Or.inr (Or.inr (Or.inr (List.mem_singleton.mp hmem)))

/-- What the callback deletes. -/
theorem Event.deletes_eq_some_iff : e.deletes = some p ↔ e = ⟨.transDone, some p⟩ ∨ e = ⟨.transError, some p⟩ ∨
    e = ⟨.transNoconnect, some p⟩ := by
  obtain ⟨type, trans⟩ := e
  cases type <;> simp [Event.deletes]

/-- The end of a transaction is reported once. -/
theorem Running.deletes_once (h : Running lib s) {told later : List Event}
    (hevents : told ++ e :: later = eventsOf s.conn.trace)
    (hexpected : ⟨.transNoconnect, some p⟩ ∉ eventsOf s.conn.trace) (he : e.deletes = some p) :
    ∀ e' ∈ told, e'.deletes ≠ some p := by
  intro e' he' hdeletes
  obtain ⟨waits, timeouts, ends, hordered⟩ := h.wellOrdered p
  have honce := hordered.count_le
  rw [← count_eventsOf, ← count_eventsOf, ← hevents] at honce
  have hcount : ∀ (events : List Event) {e : Event}, e ∈ events → e.deletes = some p →
      e ∈ eventsOf s.conn.trace →
      0 < events.count ⟨.transDone, some p⟩ + events.count ⟨.transError, some p⟩ := by
    intro events e hmem hdeletes htold
    rcases Event.deletes_eq_some_iff.mp hdeletes with rfl | rfl | rfl
    · have hpos := List.count_pos_iff.mpr hmem
      omega
    · have hpos := List.count_pos_iff.mpr hmem
      omega
    · exact absurd htold hexpected
  have hbefore := hcount told he' hdeletes (hevents ▸ List.mem_append_left _ he')
  have hafter := hcount (e :: later) List.mem_cons_self he
    (hevents ▸ List.mem_append_right _ List.mem_cons_self)
  rw [List.count_append, List.count_append] at honce
  omega

/-- The connection has not ended. -/
theorem Event.terminal_of_fair (h : e.fair = true) : e.terminal = false := by
  obtain ⟨type, trans⟩ := e
  cases type <;> first | rfl | cases h

/-- A connection that is registered has not failed. -/
theorem Course.fair {tape : List Event} (h : Course s (some tape)) (hregistered : s.registered = true) :
    ∀ e ∈ tape, e.fair = true := by
  cases h with
  | dialing => exact fun e he => by cases he
  | established mid _ _ hmid =>
    intro e he
    rcases List.mem_cons.mp he with rfl | he
    · rfl
    · exact Bool.or_eq_true_iff.mpr (Or.inr (hmid e he))
  | ended _ hdown => cases hregistered.symm.trans hdown

/-- A connection is established once. -/
theorem Course.once {tape : List Event} (h : Course s (some tape)) : tape.count ⟨.connConnected, none⟩ ≤ 1 := by
  have hmid : ∀ mid : List Event, (∀ e ∈ mid, e.midway = true) → mid.count ⟨.connConnected, none⟩ = 0 :=
    fun mid hmid => List.count_eq_zero.mpr fun hmem => Bool.noConfusion (hmid _ hmem)
  have hend : ∀ (waits errors : List Ptr) (last : Event), last.terminal = true →
      (waits.map (fun p => (⟨.transNoconnect, some p⟩ : Event)) ++
        errors.map (fun p => (⟨.transError, some p⟩ : Event)) ++ [last]).count ⟨.connConnected, none⟩ = 0 := by
    refine fun waits errors last hlast => List.count_eq_zero.mpr fun hmem => ?_
    simp only [List.mem_append, List.mem_map, List.mem_singleton] at hmem
    rcases hmem with (⟨p, -, heq⟩ | ⟨p, -, heq⟩) | rfl
    · cases heq
    · cases heq
    · cases hlast
  cases h with
  | dialing => simp
  | established mid _ _ hall => rw [List.count_cons_self, hmid mid hall]
  | ended _ _ hended =>
    cases hended with
    | refused waits errors last hlast => rw [hend waits errors last hlast]; exact Nat.zero_le 1
    | lost mid waits errors last hlast hall =>
      rw [List.append_assoc, List.append_assoc, List.cons_append, List.count_cons_self, List.count_append,
        hmid mid hall, ← List.append_assoc, hend waits errors last hlast]

/-- What has been reported on a connection, as far as it has come. -/
theorem Course.next (h : Course s (some (eventsOf s.conn.trace))) (hregistered : s.registered = true)
    (hs : (monetra lib).Reachable s) (hstep : sysStep lib s a = some s') (hlive : s'.conn.freed = false) :
    Course s' (some (eventsOf s'.conn.trace)) := by
  have hrunning := running_of_reachable hs
  have hstage := stage_of_reachable hs (sysStep_live lib hstep)
  obtain ⟨new, htrace, -⟩ := sysStep_report hstep hrunning hstage
  have hcourse := h.step hrunning hstage hstep hlive
  rwa [if_neg (by simp [hregistered]), Option.map_some, newEvents_eq htrace, ← eventsOf_append,
    ← htrace] at hcourse

/-- Nothing becomes ready to be sent but by `LM_trans_send`. -/
theorem sysStep_ready (hrunning : Running lib s) (hstep : sysStep lib s a = some s')
    (ha : ∀ p, a ≠ .transSend p) : s'.conn.transReady.Sublist s.conn.transReady := by
  have hreads : ∀ {c : Conn} {new : List Obs} {r : Conn × Pc}, ReadEnd lib c new r → c.inUse = true →
      r.1.transReady = c.transReady := by
    intro c new r hend hbusy
    cases hend with
    | ping c' p t hread _ _ _ _ _ =>
      obtain ⟨st, heq, -, hready, -⟩ := connCleanupPing_shape lib c' (hread.inUse.trans hbusy)
      rw [heq]
      exact hready.trans hread.kept.2.1
    | wait c' hread => exact hread.kept.2.1
    | error c' hread => exact (connEventHandleConnError_transReady _ _).trans hread.kept.2.1
  cases sysStep_move hstep hrunning with
  | aside _ new _ haside => exact haside.ready
  | accepted p | sent p => exact absurd rfl (ha p)
  | pinged _ _ _ _ _ _ _ heq =>
    rw [heq]
    exact .refl _
  | unpinged _ _ _ _ _ heq =>
    obtain ⟨st, hshape, -, hready, -⟩ := connCleanupPing_shape lib { s.conn with
      inUse := true
      io := s.conn.io.map fun io => { io with up := true } } rfl
    rw [heq, hshape]
    exact hready ▸ .refl _
  | failed _ _ _ _ _ heq => simp [heq]
  | read chunk _ _ _ _ hend heq =>
    rw [heq]
    exact hreads hend rfl ▸ .refl _
  | expired _ _ _ heq =>
    obtain ⟨st, hshape, -, hready, -⟩ := connCleanupPing_shape lib { s.conn with inUse := true } rfl
    rw [heq, hshape]
    exact hready ▸ .refl _
  | unguarded hpc heq =>
    obtain ⟨_, _, _, _, _, hshape, -, -⟩ := connEventSetConnected_shape lib { s.conn with pingtxn := none }
    rw [hshape] at heq
    simp [heq]
  | proved _ _ hpc hend heq =>
    have hbusy := hrunning.link.busy (by rw [hpc]; rfl)
    have hnone := hreads hend (by simpa using hbusy)
    obtain ⟨_, _, _, _, _, hshape, -, -⟩ := connEventSetConnected_shape lib { s.conn with pingtxn := none }
    rw [hshape] at hnone
    rw [heq]
    exact hnone ▸ List.nil_sublist _
  | unproved _ _ heq => simp [heq]
  | destroyed _ _ _ hidle _ heq => simp [heq, connDestroy, hidle]
  | refused _ _ _ _ _ _ _ heq => simp [heq]
  | opened _ _ _ _ _ _ _ _ _ _ _ _ heq => simp [heq]
  | dialed _ _ _ _ _ _ _ _ _ _ _ heq => simp [heq]
  | registered _ _ heq => simp [heq]
  | dropped _ _ _ heq => simp [heq]
  | disconnecting _ _ _ heq => simp [heq]
  | idled _ _ _ heq => simp [heq]
  | wrote _ _ _ heq => simp [heq]

end Events

section Steps

variable {s s' : CliSession} {input : CliInput}

/-- The ways in which a session goes on. -/
inductive SessionStep (lib : Mstdlib) (s s' : CliSession) : CliInput → Prop
  | call (call : CliCall) (rest : List CliCall) (draws : List RandDraw) (sys : Sys) : s.todo = call :: rest →
      s.sys.entering = false → (monetra lib).run s.sys (call.actions draws) = some sys →
      s' = { s with sys := sys, todo := rest } → SessionStep lib s s' (.call draws)
  | enters (a : Action) (sys : Sys) : a.inConnect = true → sysStep lib s.sys a = some sys →
      s' = { s with sys := sys } → SessionStep lib s s' (.library a)
  | delivers (e : Event) (later : List Event) (sys : Sys) : s.sys.conn.events = e :: later → s.todo = [] →
      sysStep lib s.sys .deliver = some sys → s' = s.notify lib sys e → SessionStep lib s s' (.library .deliver)
  | goes (a : Action) (sys : Sys) : a.calls = false → a.inConnect = false → a ≠ .deliver →
      s.sys.entering = false → s.todo = [] → sysStep lib s.sys a = some sys → s' = { s with sys := sys } →
      SessionStep lib s s' (.library a)

/-- Every step is one of them. -/
theorem cliSessionStep_cases (h : cliSessionStep lib s input = some s') : SessionStep lib s s' input := by
  cases input with
  | call draws =>
    unfold cliSessionStep at h
    simp only at h
    split at h
    · cases h
    · rename_i call rest htodo
      split at h
      · cases h
      · rename_i hback
        obtain ⟨sys, hsys, rfl⟩ := Option.map_eq_some_iff.mp h
        exact .call call rest draws sys htodo (by simpa using hback) hsys rfl
  | library a =>
    unfold cliSessionStep at h
    simp only at h
    split at h
    · rename_i henters
      obtain ⟨sys, hsys, rfl⟩ := Option.map_eq_some_iff.mp h
      exact .enters a sys henters hsys rfl
    · rename_i henters
      split at h
      · cases h
      · rename_i hback
        simp only [not_or, Bool.not_eq_true, not_not] at hback
        obtain ⟨hcalls, hback, htodo⟩ := hback
        obtain ⟨sys, hsys, rfl⟩ := Option.map_eq_some_iff.mp h
        by_cases ha : a = .deliver
        · subst ha
          cases sysStep_walk hsys with
          | stays _ hcalls' => cases hcalls'
          | delivers e later _ hevents _ => exact .delivers e later sys hevents htodo hsys (by simp [hevents])
        · refine .goes a sys hcalls (by simpa using henters) ha hback htodo hsys ?_
          split
          · exact absurd rfl ha
          · rfl

/-- A connection that has not reported its end has not failed. -/
theorem Up.fair (h : Up s) : ∀ e ∈ eventsOf s.sys.conn.trace, e.fair = true := by
  rcases h.course with ⟨hregistered, hcourse⟩ | ⟨-, hnone, -⟩
  · exact hcourse.fair hregistered
  · rw [hnone]
    exact fun e he => by cases he

/-- Two series of calls. -/
@[simp] theorem sendsOf_append (calls later : List CliCall) :
    sendsOf (calls ++ later) = sendsOf calls ++ sendsOf later :=
  List.filterMap_append

/-- The dictionaries of a series of sends, with their handles. -/
theorem sendsOf_sendsFrom (p : Ptr) (kvs : List HashDict) :
    (sendsOf (sendsFrom p kvs)).map Prod.fst = List.range' p kvs.length ∧
      (sendsOf (sendsFrom p kvs)).map Prod.snd = kvs := by
  induction kvs generalizing p with
  | nil => exact ⟨rfl, rfl⟩
  | cons next rest ih =>
    obtain ⟨hfst, hsnd⟩ := ih (p + 1)
    refine ⟨?_, congrArg (next :: ·) hsnd⟩
    rw [List.length_cons, List.range'_succ]
    exact congrArg (p :: ·) hfst

/-- Only the sends are counted. -/
theorem sendsOf_eq_nil {calls : List CliCall} (h : ∀ p kvs, .send p kvs ∉ calls) : sendsOf calls = [] := by
  refine List.filterMap_eq_nil_iff.mpr fun call hcall => ?_
  cases call with
  | send p kvs => exact absurd hcall (h p kvs)
  | _ => rfl

/-- What the callback asks for in answer to an event. -/
theorem Reacts.sends {r r' : CliRun} {e : Event} {kvs : List HashDict} {closing : List CliCall}
    (h : Reacts r r' e kvs closing) :
    sendsOf r'.calls = sendsOf r.calls ++ sendsOf (sendsFrom r.nextTrans kvs) := by
  have hdeletion : sendsOf (e.deletes.toList.map .delete) = [] := sendsOf_eq_nil fun p kvs hp => by simp at hp
  have hclosing : sendsOf closing = [] := by
    rw [h.closing]
    split
    · rfl
    · split <;> rfl
  rw [h.calls, sendsOf_append, sendsOf_append, sendsOf_append, hdeletion, hclosing, List.nil_append,
    List.append_nil]

/-- The handles are those of the sends. -/
theorem sendsOf_map_fst (calls : List CliCall) (p : Ptr) :
    p ∈ (sendsOf calls).map Prod.fst ↔ ∃ kvs, .send p kvs ∈ calls := by
  simp only [sendsOf, List.mem_map, List.mem_filterMap, Prod.exists, exists_and_right, exists_eq_right]
  constructor
  · rintro ⟨kvs, call, hcall, heq⟩
    cases call <;> simp at heq
    obtain ⟨rfl, rfl⟩ := heq
    exact ⟨_, hcall⟩
  · rintro ⟨kvs, hcall⟩
    exact ⟨kvs, _, hcall, rfl⟩

end Steps

section Seen

variable {list : KvsList lib.sizeBits} {sendSerial : Bool} {s : CliSession} {e : Event} {later : List Event}
  {p : Ptr}

/-- What every run over a connection that does not fail keeps. -/
theorem sent_of_reachable {s : CliSys} (h : (monetraCli list sendSerial).Reachable s) :
    Sent list.kvs sendSerial s := by
  refine System.Reachable.invariant (monetraCli list sendSerial) ?_
    (fun s e s' _ hs hstep => hs.step list.prepared list.nonempty list.fits hstep) h
  rintro s ⟨nextTrans, rfl⟩
  have hpos := List.length_pos_iff.mpr list.nonempty
  exact ⟨⟨rfl, rfl, List.nodup_nil, by simp [sentOf], by simp, rfl, rfl⟩, fun _ => ⟨rfl, rfl⟩,
    Bool.noConfusion, Bool.noConfusion, by simp [hpos.ne]⟩

/-- Every dictionary that is sent is one of the list. -/
theorem Conduct.prepared (h : Conduct list sendSerial s) {kvs : HashDict} (hsend : .send p kvs ∈ s.run.calls) :
    Prepared kvs := by
  refine list.prepared kvs ?_
  have hmem : kvs ∈ (sendsOf s.run.calls).map Prod.snd :=
    List.mem_map.mpr ⟨(p, kvs), List.mem_filterMap.mpr ⟨_, hsend, rfl⟩, rfl⟩
  rw [← h.inOrder]
  exact List.mem_append_left _ hmem

/-- The library accepts all of them. -/
theorem Conduct.sentOf_eq (h : Conduct list sendSerial s) : sentOf s.run.calls = sendsOf s.run.calls := by
  refine List.filterMap_congr fun call hcall => ?_
  cases call with
  | send p kvs => exact if_pos (h.prepared hcall).numKeys_ne_zero
  | _ => rfl

/-- The handles that the program has not been given yet. -/
theorem Conduct.next_le (h : Conduct list sendSerial s) : s.sys.conn.nextPtr ≤ s.run.nextTrans := by
  obtain ⟨deletion, kvs, closing, hplan⟩ := h.plan
  rw [hplan.next]
  exact Nat.le_add_right _ _

/-- A transaction that exists is one that the program has sent. -/
theorem Conduct.mem_sentOf (h : Conduct list sendSerial s) (hp : p < s.sys.conn.nextPtr) :
    p ∈ (sentOf s.run.calls).map Prod.fst := by
  rw [h.sentOf_eq, h.handles, List.mem_range]
  exact hp.trans_le h.next_le

/-- A session whose connection has not reported its end. -/
theorem Conduct.running (h : Conduct list sendSerial s) : Running lib s.sys :=
  running_of_reachable (h.reached.of_restrict (monetra lib))

/-- A response has been handled when its event has been delivered. -/
theorem mem_respondedOf {callbacks : List Event} :
    p ∈ respondedOf callbacks ↔ ⟨.transDone, some p⟩ ∈ callbacks := by
  simp only [respondedOf, List.mem_filterMap, Option.ite_none_right_eq_some]
  constructor
  · rintro ⟨⟨type, trans⟩, hmem, rfl, rfl⟩
    exact hmem
  · exact fun hmem => ⟨_, hmem, rfl, rfl⟩

/-- A response that the library reports belongs to a transaction that waits for it. -/
theorem Conduct.unanswered (h : Conduct list sendSerial s)
    (hevents : callbacksOf s.sys.conn.trace ++ ⟨.transDone, some p⟩ :: later = eventsOf s.sys.conn.trace) :
    p ∈ s.seen.unanswered := by
  have hmem : (⟨.transDone, some p⟩ : Event) ∈ eventsOf s.sys.conn.trace := by simp [← hevents]
  obtain ⟨hborn, -⟩ := h.running.named hmem rfl
  refine List.mem_filter.mpr ⟨h.mem_sentOf hborn, ?_⟩
  have honce := h.running.deletes_once hevents (h.expected p) rfl
  simpa [CliSession.seen, mem_respondedOf] using fun hmem => honce _ hmem rfl

/-- The next event of a connection that does not fail is one that the program was written for. -/
theorem Conduct.seen_notify (h : Conduct list sendSerial s) {sys : Sys}
    (hevents : callbacksOf s.sys.conn.trace ++ e :: later = eventsOf s.sys.conn.trace)
    (htrace : callbacksOf sys.conn.trace = callbacksOf s.sys.conn.trace ++ [e])
    (halive : .destroy ∉ s.run.calls)
    (hseen : (monetraCli list sendSerial).Reachable s.seen)
    (hfair : e.fair = true ∨ e.type = .connDisconnect ∧ .disconnect ∈ s.run.calls) :
    (monetraCli list sendSerial).Reachable (s.notify lib sys e).seen := by
  have hmem : e ∈ eventsOf s.sys.conn.trace := by simp [← hevents]
  have hnone : e.type = .connConnected ∨ e.type = .connDisconnect → e.trans = none := by
    intro htype
    cases htrans : e.trans with
    | none => rfl
    | some p =>
      obtain ⟨-, htypes⟩ := h.running.named hmem htrans
      rcases htype with htype | htype <;> simp [htype] at htypes
  have hstep : ∀ s', cliStep lib.sizeBits s.seen e = some s' → s' = (s.notify lib sys e).seen →
      (monetraCli list sendSerial).Reachable (s.notify lib sys e).seen :=
    fun s' hs' heq => heq ▸ hseen.step hs'
  obtain ⟨type, trans⟩ := e
  cases type with
  | connConnected =>
    obtain rfl : trans = none := hnone (Or.inl rfl)
    have hnew : (⟨.connConnected, none⟩ : Event) ∉ callbacksOf s.sys.conn.trace := by
      have honce := h.once
      rw [← hevents, List.count_append, List.count_cons_self] at honce
      exact List.count_eq_zero.mp (by omega)
    refine hstep _ (if_pos (by simp [CliSys.mayReport, CliSession.seen, hnew])) ?_
    simp [CliSession.seen, CliSession.notify, htrace, respondedOf]
  | transDone =>
    cases trans with
    | none =>
      have hsame : (s.notify lib sys ⟨.transDone, none⟩).seen = s.seen := by
        simp [CliSession.seen, CliSession.notify, htrace, respondedOf, transCallback]
      exact hsame ▸ hseen
    | some p =>
      have hwaits := h.unanswered hevents
      refine hstep _ (if_pos (by simpa [CliSys.mayReport] using hwaits)) ?_
      simp [CliSession.seen, CliSession.notify, htrace, respondedOf]
  | transTimeout =>
    have hsame : (s.notify lib sys ⟨.transTimeout, trans⟩).seen = s.seen := by
      simp [CliSession.seen, CliSession.notify, htrace, respondedOf, transCallback]
    exact hsame ▸ hseen
  | connDisconnect =>
    obtain rfl : trans = none := hnone (Or.inr rfl)
    have hasked : .disconnect ∈ s.run.calls := by
      rcases hfair with hfair | ⟨-, hasked⟩
      · cases hfair
      · exact hasked
    refine hstep _ (if_pos (by simp [CliSys.mayReport, CliSession.seen, hasked, halive])) ?_
    simp [CliSession.seen, CliSession.notify, htrace, respondedOf]
  | connError | transError | transNoconnect =>
    rcases hfair with hfair | ⟨hfair, -⟩ <;> cases hfair

end Seen

section Deliver

variable {list : KvsList lib.sizeBits} {sendSerial : Bool} {s : CliSession} {e : Event} {later : List Event}
  {sys : Sys}

/-- Nothing has been destroyed before the end of the connection is delivered. -/
theorem Conduct.alive_of_up (h : Conduct list sendSerial s) (hup : Up s) : .destroy ∉ s.run.calls := by
  rw [← List.count_eq_zero, h.destroys, List.countP_eq_zero]
  intro e he
  simpa using Event.terminal_of_fair (hup.fair e (h.told.subset he))

/-- What waits to be delivered. -/
theorem Conduct.waiting (h : Conduct list sendSerial s) (hevents : s.sys.conn.events = e :: later)
    (hpc : s.sys.pc = .delivering) (hlive : s.sys.conn.freed = false) :
    (Up s ∨ Down s) ∧ s.sys.conn.destroy = false ∧ .destroy ∉ s.run.calls ∧
      callbacksOf s.sys.conn.trace ++ e :: later = eventsOf s.sys.conn.trace := by
  have hall := h.delivered hlive
  rw [hevents] at hall
  cases h.phase with
  | up _ hup => exact ⟨Or.inl hup, hup.kept, h.alive_of_up hup, hall hup.kept⟩
  | down _ hdown => exact ⟨Or.inr hdown, hdown.kept, hdown.alive, hall hdown.kept⟩
  | ending _ hending =>
    rcases hending.place with hplace | ⟨-, ⟨-, hnone⟩ | ⟨_, hplace⟩ | hplace | hplace⟩
    · cases hpc.symm.trans hplace
    · cases hevents.symm.trans hnone
    · cases hpc.symm.trans hplace
    · cases hpc.symm.trans hplace
    · cases hpc.symm.trans hplace
  | gone hfreed => cases hlive.symm.trans hfreed

/-- The connection is destroyed for its end, and only for that. -/
theorem Reacts.count {r r' : CliRun} {kvs : List HashDict} {closing : List CliCall}
    (h : Reacts r r' e kvs closing) {call : CliCall} (hcall : call = .destroy ∨ call = .eventDone) :
    r'.calls.count call = r.calls.count call + if e.terminal then 1 else 0 := by
  have hsends : ∀ (kvs : List HashDict) (p : Ptr), call ∉ sendsFrom p kvs := by
    intro kvs
    induction kvs with
    | nil => exact fun p => List.not_mem_nil
    | cons next rest ih =>
      intro p hmem
      rcases List.mem_cons.mp hmem with rfl | hmem
      · rcases hcall with hcall | hcall <;> cases hcall
      · exact ih (p + 1) hmem
  have hdeletion : call ∉ e.deletes.toList.map CliCall.delete := by
    intro hmem
    obtain ⟨p, -, rfl⟩ := List.mem_map.mp hmem
    rcases hcall with hcall | hcall <;> cases hcall
  have hclosing : closing.count call = if e.terminal then 1 else 0 := by
    rw [h.closing]
    split
    · rcases hcall with rfl | rfl <;> rfl
    · split <;> rcases hcall with rfl | rfl <;> rfl
  rw [h.calls, List.count_append, List.count_append, List.count_append, List.count_eq_zero.mpr (hsends _ _),
    List.count_eq_zero.mpr hdeletion, hclosing, Nat.zero_add]

/-- The calls that an event leads to. -/
theorem CliSession.notify_todo {kvs : List HashDict} {closing : List CliCall}
    (hreacts : Reacts s.run (s.notify lib sys e).run e kvs closing) : (s.notify lib sys e).todo =
      e.deletes.toList.map .delete ++ sendsFrom s.run.nextTrans kvs ++ closing := by
  have hcalls := hreacts.calls
  rw [CliSession.notify] at hcalls ⊢
  simp only at hcalls ⊢
  rw [hcalls, List.drop_left]

/-- When the callback has returned, the program knows every handle that has been given out. -/
theorem Conduct.next_of_returned (h : Conduct list sendSerial s) (htodo : s.todo = []) :
    s.run.nextTrans = s.sys.conn.nextPtr := by
  obtain ⟨deletion, kvs, closing, hplan⟩ := h.plan
  have hempty := hplan.todo
  rw [htodo, eq_comm, List.append_eq_nil_iff, List.append_eq_nil_iff] at hempty
  have hkvs : kvs = [] := by
    cases kvs with
    | nil => rfl
    | cons _ _ => cases hempty.1.2
  rw [hplan.next, hkvs, List.length_nil, Nat.add_zero]

/-- The state in which the callback is called with an event. -/
def Sys.delivered (s : Sys) (e : Event) (later : List Event) : Sys :=
  { s with conn := { s.conn with events := later, trace := s.conn.trace ++ [.callback e] }, pc := .callback }

@[simp] theorem Sys.delivered_callbacks (s : Sys) (e : Event) (later : List Event) :
    callbacksOf (s.delivered e later).conn.trace = callbacksOf s.conn.trace ++ [e] := by
  simp [Sys.delivered, callbacksOf]

@[simp] theorem Sys.delivered_queued (s : Sys) (e : Event) (later : List Event) :
    eventsOf (s.delivered e later).conn.trace = eventsOf s.conn.trace := by
  simp [Sys.delivered, eventsOf]

@[simp] theorem Sys.delivered_deleted (s : Sys) (e : Event) (later : List Event) :
    deletedOf (s.delivered e later).conn.trace = deletedOf s.conn.trace := by
  simp [Sys.delivered, deletedOf]

/-- The delivery of an event. -/
theorem sysStep_deliver (hevents : s.sys.conn.events = e :: later)
    (hstep : sysStep lib s.sys .deliver = some sys) :
    s.sys.pc = .delivering ∧ sys = s.sys.delivered e later := by
  cases sysStep_effect hstep with
  | deliver e' later' hpc hevents' =>
    obtain ⟨rfl, rfl⟩ := List.cons.inj (hevents.symm.trans hevents')
    exact ⟨hpc, rfl⟩
  | configures _ c hsets _ => cases hsets

/-- Nothing that has been delivered so far is the end of the connection. -/
theorem Conduct.told_unended (h : Conduct list sendSerial s) (halive : .destroy ∉ s.run.calls) :
    ∀ e ∈ callbacksOf s.sys.conn.trace, e.terminal = false := by
  have hnone : (callbacksOf s.sys.conn.trace).countP Event.terminal = 0 := by
    rw [← h.destroys, List.count_eq_zero.mpr halive]
  exact fun e he => by simpa using List.countP_eq_zero.mp hnone e he

section Notify

variable {kvs : List HashDict} {closing : List CliCall}
  (hreacts : Reacts s.run (s.notify lib (s.sys.delivered e later) e).run e kvs closing)

include hreacts

/-- The plan of a callback that has just been called. -/
theorem Conduct.plan_notify (h : Conduct list sendSerial s) (hevents : s.sys.conn.events = e :: later)
    (htodo : s.todo = []) (hlive : s.sys.conn.freed = false)
    (hall : callbacksOf s.sys.conn.trace ++ e :: later = eventsOf s.sys.conn.trace) :
    Plan (s.notify lib (s.sys.delivered e later) e) e.deletes kvs closing := by
  have hcalls := CliSession.notify_todo hreacts
  have hnext := h.next_of_returned htodo
  refine ⟨?_, ?_, ⟨s.run.calls, ?_⟩, fun _ => ⟨rfl, hlive⟩, ?_, fun p hp => ⟨?_, ?_, e, ?_, hp⟩⟩
  · rw [hcalls, hnext]
    rfl
  · rw [hreacts.next, hnext]
    rfl
  · rw [hcalls, hreacts.calls]
  · rw [hreacts.closing]
    split
    · exact Or.inr (Or.inr (Or.inl rfl))
    · split
      · exact Or.inr (Or.inl rfl)
      · exact Or.inl rfl
  · have htrans : e.trans = some p := by
      rcases Event.deletes_eq_some_iff.mp hp with rfl | rfl | rfl <;> rfl
    exact (ledger_of_reachable h.reached).events e.type p (by rw [hevents, ← htrans]; exact List.mem_cons_self)
  · change p ∉ deletedOf (s.sys.delivered e later).conn.trace
    rw [Sys.delivered_deleted]
    intro hdeleted
    obtain ⟨e', he', hdeletes⟩ := h.deleted p hdeleted
    exact h.running.deletes_once hall (h.expected p) hp e' he' hdeletes
  · change e ∈ callbacksOf (s.sys.delivered e later).conn.trace
    simp

/-- A session in which the connection has not failed goes on as the program alone does. -/
theorem Conduct.faultless_notify (h : Conduct list sendSerial s) (halive : .destroy ∉ s.run.calls)
    (hall : callbacksOf s.sys.conn.trace ++ e :: later = eventsOf s.sys.conn.trace)
    (hfair : (s.notify lib (s.sys.delivered e later) e).Faultless) :
    (monetraCli list sendSerial).Reachable (s.notify lib (s.sys.delivered e later) e).seen := by
  change ∀ e' ∈ callbacksOf (s.sys.delivered e later).conn.trace, e'.fair = true ∨ _ at hfair
  rw [Sys.delivered_callbacks] at hfair
  refine h.seen_notify hall (Sys.delivered_callbacks ..) halive (h.seen fun e' he' => ?_) ?_
  · refine (hfair e' (List.mem_append_left _ he')).imp id fun hdisc => ?_
    have hterminal : e'.terminal = true := by simp [Event.terminal, hdisc.1]
    cases hterminal.symm.trans (h.told_unended halive e' he')
  · refine (hfair e (List.mem_append_right _ List.mem_cons_self)).imp id fun hends => ⟨hends.1, ?_⟩
    have hterminal : e.terminal = true := by simp [Event.terminal, hends.1]
    have hdisc := hends.2
    rw [hreacts.calls, hreacts.ends hterminal, hreacts.closing, if_pos hterminal] at hdisc
    simpa [sendsFrom] using hdisc

/-- The callback is called with the end of the connection. -/
theorem ending_notify (hterminal : e.terminal = true) :
    Ending (s.notify lib (s.sys.delivered e later) e) := by
  have hdeletes : e.deletes = none := by
    cases hdeletes : e.deletes with
    | none => rfl
    | some p => rcases Event.deletes_eq_some_iff.mp hdeletes with rfl | rfl | rfl <;> cases hterminal
  have hclosing : closing = [.destroy, .eventDone] := by rw [hreacts.closing, if_pos hterminal]
  have htodo : (s.notify lib (s.sys.delivered e later) e).todo = [.destroy, .eventDone] := by
    rw [CliSession.notify_todo hreacts, hdeletes, hreacts.ends hterminal, hclosing]
    rfl
  refine ⟨?_, Or.inl htodo, fun hnot => ?_, Or.inl rfl⟩
  · rw [hreacts.calls, hclosing]
    simp
  · rw [htodo] at hnot
    simp at hnot

/-- The callback is called while the connection has not reported its end. The program disconnects once, so that
it does not do so again. -/
theorem Conduct.up_notify (h : Conduct list sendSerial s) (hup : Up s) (hpc : s.sys.pc = .delivering)
    (hall : callbacksOf s.sys.conn.trace ++ e :: later = eventsOf s.sys.conn.trace)
    (hstep : sysStep lib s.sys .deliver = some (s.sys.delivered e later)) :
    Up (s.notify lib (s.sys.delivered e later) e) := by
  have hlive : s.sys.conn.freed = false := sysStep_live lib hstep
  refine ⟨hup.kept, hup.callers, ⟨nofun, nofun⟩, ?_, hup.ready, fun hdisc => ?_⟩
  · rcases hup.course with ⟨hregistered, hcourse⟩ | ⟨-, -, hidle⟩
    · exact Or.inl ⟨hregistered, hcourse.next hregistered (h.reached.of_restrict (monetra lib)) hstep hlive⟩
    · cases hpc.symm.trans hidle
  · have hasked := List.count_pos_iff.mpr (hup.asked hdisc).1
    have hsent := sent_of_reachable (h.faultless_notify hreacts (h.alive_of_up hup) hall fun e' he' => by
      change e' ∈ callbacksOf (s.sys.delivered e later).conn.trace at he'
      rw [Sys.delivered_callbacks, List.mem_append, List.mem_singleton] at he'
      refine Or.inl (hup.fair e' ?_)
      rw [← hall]
      simpa using he'.imp id Or.inl)
    have honce := hsent.disconnects
    change (s.notify lib (s.sys.delivered e later) e).run.calls.count .disconnect = _ at honce
    have hcalls : (s.notify lib (s.sys.delivered e later) e).run.calls =
        s.run.calls ++ (s.notify lib (s.sys.delivered e later) e).todo := by
      rw [CliSession.notify_todo hreacts, hreacts.calls]
    rw [hcalls, List.count_append] at honce
    refine ⟨by rw [hcalls]; exact List.mem_append_left _ (hup.asked hdisc).1, List.count_eq_zero.mp ?_⟩
    split at honce <;> omega

/-- The callback is called while the end of the connection still waits. -/
theorem Down.notify (hdown : Down s) (hevents : s.sys.conn.events = e :: later)
    (hterminal : e.terminal = false) :
    Down (s.notify lib (s.sys.delivered e later) e) := by
  refine ⟨hdown.kept, Or.inr rfl, ?_, hdown.fallen, ?_⟩
  · obtain ⟨e', he', hterminal'⟩ := hdown.waiting
    rw [hevents] at he'
    rcases List.mem_cons.mp he' with rfl | he'
    · cases hterminal.symm.trans hterminal'
    · exact ⟨e', he', hterminal'⟩
  · rw [← List.count_eq_zero, hreacts.count (Or.inl rfl), hterminal, List.count_eq_zero.mpr hdown.alive]
    rfl

end Notify

/-- The callback is called with the next event. -/
theorem Conduct.deliver (h : Conduct list sendSerial s) (hevents : s.sys.conn.events = e :: later)
    (htodo : s.todo = []) (hstep : sysStep lib s.sys .deliver = some sys) :
    Conduct list sendSerial (s.notify lib sys e) := by
  have hlive := sysStep_live lib hstep
  have hstage := stage_of_reachable (h.reached.of_restrict (monetra lib)) hlive
  obtain ⟨hpc, rfl⟩ := sysStep_deliver hevents hstep
  obtain ⟨hwhere, hkept, halive, hall⟩ := h.waiting hevents hpc hlive
  obtain ⟨kvs, closing, hreacts⟩ := transCallback_reacts lib.sizeBits s.run e
  have hreacts : Reacts s.run (s.notify lib (s.sys.delivered e later) e).run e kvs closing := hreacts
  have hcallbacks : callbacksOf (s.notify lib (s.sys.delivered e later) e).sys.conn.trace =
      callbacksOf s.sys.conn.trace ++ [e] := Sys.delivered_callbacks ..
  have hqueued : eventsOf (s.notify lib (s.sys.delivered e later) e).sys.conn.trace =
      eventsOf s.sys.conn.trace := Sys.delivered_queued ..
  refine ⟨?_, fun _ => ?_, ?_, ⟨e.deletes, kvs, closing, h.plan_notify hreacts hevents htodo hlive hall⟩, ?_,
    fun _ _ => ?_, ?_, ?_, fun p hp => ?_, ?_, ?_, h.faultless_notify hreacts halive hall, ?_, ?_, ?_, ?_⟩
  · exact h.reached.step (a := .deliver) hstep
  · exact (h.pingless hlive).step h.running hstage hstep hlive
  · exact h.untimed.step h.running hstage hstep nofun
  · rw [hcallbacks, hqueued, ← hall]
    exact ⟨later, by simp⟩
  · rw [hcallbacks, hqueued, ← hall]
    simp [CliSession.notify, Sys.delivered]
  · rw [hqueued]
    exact h.expected
  · rw [hqueued]
    exact h.once
  · obtain ⟨e', he', hdeletes⟩ := h.deleted p (Sys.delivered_deleted .. ▸ hp)
    exact ⟨e', hcallbacks ▸ List.mem_append_left _ he', hdeletes⟩
  · rw [hreacts.sends, List.map_append, h.handles, (sendsOf_sendsFrom _ kvs).1, hreacts.next, List.range_add,
      List.range'_eq_map_range]
  · rw [hreacts.sends, List.map_append, (sendsOf_sendsFrom _ kvs).2, List.append_assoc, ← hreacts.left,
      h.inOrder]
  · rw [hcallbacks, List.dropLast_concat]
    exact h.told_unended halive
  · rw [hreacts.count (Or.inl rfl), h.destroys, hcallbacks, List.countP_append, List.countP_singleton]
  · rw [hreacts.count (Or.inl rfl), hreacts.count (Or.inr rfl), h.dones]
  · cases hterminal : e.terminal with
    | true => exact .ending hlive (ending_notify hreacts hterminal)
    | false =>
      rcases hwhere with hup | hdown
      · exact .up hlive (h.up_notify hreacts hup hpc hall hstep)
      · exact .down hlive (hdown.notify hreacts hevents hterminal)

end Deliver

end LibMonetra
