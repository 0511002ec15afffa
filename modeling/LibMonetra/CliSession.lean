import LibMonetra.Cli
import LibMonetra.Grammar
import LibMonetra.IdleTimer
import LibMonetra.Outbound
import LibMonetra.Settings

/-!
# `monetra_cli` over the library

The program and the library together. `monetra_cli` has one thread: it runs the event loop, and makes the
calls of its callback one after the other before the callback returns. What the connection does is left
open, so that the runs are those over every network, failing ones included.
-/

namespace LibMonetra

open Foundation

variable (lib : Mstdlib)

/-- What a call asks of the library, in order. The draws serve `LM_trans_new`. -/
def CliCall.actions (draws : List RandDraw) : CliCall → List Action
  | .send p kvs =>
    .transNew draws :: kvs.entries.map (fun entry => .transSetParam p entry.1 entry.2) ++ [.transSend p]
  | .delete p => [.transDelete p]
  | .disconnect => [.connDisconnect]
  | .destroy => [.connDestroy]
  | .eventDone => []

/-- What the library returns to a call, `M_TRUE` standing also for the calls that it cannot refuse. -/
def Action.returns (c : Conn) : Action → Bool
  | .transSetParam p key value => (LibMonetra.transSetParam c p key value).2
  | .transSend p => (LibMonetra.transSend lib c p).ok
  | .connDisconnect => (connDisconnectConnlocked c).2
  | _ => true

/-- What it returns to some calls, one after the other. -/
def returned : Sys → List Action → List Bool
  | _, [] => []
  | s, a :: rest =>
    a.returns lib s.conn :: match sysStep lib s a with
      | some s' => returned s' rest
      | none => []

/-- The library, the data of the program, and the calls that the running callback has still to make. -/
structure CliSession where
  sys : Sys
  run : CliRun
  todo : List CliCall

/-- What may happen next. -/
inductive CliInput
  /-- The callback makes its next call. -/
  | call (draws : List RandDraw)
  /-- The library takes an action that is not a call. -/
  | library (a : Action)

/-- Whether the thread is inside `LM_conn_connect`, which it has entered in a call. -/
def Sys.entering (s : Sys) : Bool := decide (s.callers ≠ 0 ∨ s.connecting = some .caller)

/-- The actions of a call that has entered `LM_conn_connect`. -/
def Action.inConnect : Action → Bool
  | .implicitConnect _ | .connectFinish _ => true
  | _ => false

/-- A setter is none of them. -/
theorem Action.inConnect_of_configures {a : Action} (h : a.configures = true) : a.inConnect = false := by
  cases a <;> first | rfl | cases h

/-- The part of `main` before the event loop, up to the I/O creation callback. -/
def cliMain (enableTrace : Bool) (net : NetOutcome) : List Action :=
  .connDisablePing :: (if enableTrace then [.connSetIocreateCallback true] else []) ++ [.connConnect net]

/-- The callback has been called with an event. -/
def CliSession.notify (s : CliSession) (sys : Sys) (e : Event) : CliSession :=
  let run := transCallback lib.sizeBits s.run e
  ⟨sys, run, run.calls.drop s.run.calls.length⟩

/-- One step. The event loop goes on only when the thread has come back to it. -/
def cliSessionStep (s : CliSession) : CliInput → Option CliSession
  | .call draws =>
    match s.todo with
    | [] => none
    | call :: rest =>
      if s.sys.entering then none
      else ((monetra lib).run s.sys (call.actions draws)).map fun sys => { s with sys := sys, todo := rest }
  | .library a =>
    if a.inConnect then (sysStep lib s.sys a).map fun sys => { s with sys := sys }
    else if a.calls ∨ s.sys.entering ∨ s.todo ≠ [] then none
    else (sysStep lib s.sys a).map fun sys =>
      match a, s.sys.conn.events with
      | .deliver, e :: _ => s.notify lib sys e
      | _, _ => { s with sys := sys }

/-- The runs of `monetra_cli` over a list of dictionaries. -/
def cliSession (list : KvsList lib.sizeBits) (sendSerial : Bool) : System CliSession CliInput where
  init s := ∃ sys enableTrace net, (monetra lib).init sys ∧
    (monetra lib).run sys (cliMain enableTrace net) = some s.sys ∧
    s.run = ⟨⟨list.kvs, sendSerial, 0⟩, 0, []⟩ ∧ s.todo = []
  step := cliSessionStep lib

/-- The transactions of the responses that the callback has been called with. -/
def respondedOf (callbacks : List Event) : List Ptr :=
  callbacks.filterMap fun e => if e.type = .transDone then e.trans else none

/-- What the program has seen of its connection. -/
def CliSession.seen (s : CliSession) : CliSys where
  run := s.run
  connected := decide (⟨.connConnected, none⟩ ∈ callbacksOf s.sys.conn.trace)
  answered := respondedOf (callbacksOf s.sys.conn.trace)

section Reactions

variable (sizeBits : ℕ)

/-- The transaction that the callback deletes. -/
def Event.deletes (e : Event) : Option Ptr :=
  match e.type with
  | .transDone | .transError | .transNoconnect => e.trans
  | _ => none

/-- The calls that send a series of dictionaries. -/
def sendsFrom : Ptr → List HashDict → List CliCall
  | _, [] => []
  | p, kvs :: rest => .send p kvs :: sendsFrom (p + 1) rest

/-- What the callback does with an event: it deletes the transaction of the event, sends some dictionaries,
and disconnects, or destroys the connection. -/
structure Reacts (r r' : CliRun) (e : Event) (kvs : List HashDict) (closing : List CliCall) : Prop where
  calls : r'.calls = r.calls ++ (e.deletes.toList.map .delete ++ sendsFrom r.nextTrans kvs ++ closing)
  left : r.trans.kvs = kvs ++ r'.trans.kvs
  next : r'.nextTrans = r.nextTrans + kvs.length
  closing : closing = if e.terminal then [.destroy, .eventDone] else
    if .disconnect ∈ closing then [.disconnect] else []
  ends : e.terminal = true → kvs = []

/-- `queue_lm_trans` sends the next dictionary, if there is one. -/
theorem queueLmTrans_eq (r : CliRun) : ∃ kvs, kvs.length ≤ 1 ∧
    (queueLmTrans sizeBits r).1.calls = r.calls ++ sendsFrom r.nextTrans kvs ∧
    r.trans.kvs = kvs ++ (queueLmTrans sizeBits r).1.trans.kvs ∧
    (queueLmTrans sizeBits r).1.nextTrans = r.nextTrans + kvs.length := by
  unfold queueLmTrans
  cases hkvs : r.trans.kvs with
  | nil => exact ⟨[], by simp, by simp [sendsFrom], by simp [hkvs], rfl⟩
  | cons next rest => exact ⟨[next], by simp, rfl, rfl, rfl⟩

/-- Dictionaries are sent one series after the other. -/
theorem sendsFrom_append (p : Ptr) (kvs kvs' : List HashDict) :
    sendsFrom p (kvs ++ kvs') = sendsFrom p kvs ++ sendsFrom (p + kvs.length) kvs' := by
  induction kvs generalizing p with
  | nil => rfl
  | cons next rest ih =>
    rw [List.cons_append, sendsFrom, ih, sendsFrom, List.cons_append, List.length_cons, Nat.add_assoc,
      Nat.add_comm 1]

/-- The loop of the event that the connection is up sends the next dictionaries. -/
theorem queueLoop_eq (fuel : ℕ) (r : CliRun) : ∃ kvs,
    (queueLoop sizeBits fuel r).calls = r.calls ++ sendsFrom r.nextTrans kvs ∧
    r.trans.kvs = kvs ++ (queueLoop sizeBits fuel r).trans.kvs ∧
    (queueLoop sizeBits fuel r).nextTrans = r.nextTrans + kvs.length := by
  induction fuel generalizing r with
  | zero => exact ⟨[], by simp [queueLoop, sendsFrom], by simp [queueLoop], rfl⟩
  | succ fuel ih =>
    obtain ⟨kvs, -, hcalls, hleft, hnext⟩ := queueLmTrans_eq sizeBits r
    unfold queueLoop
    dsimp only
    split
    · obtain ⟨kvs', hcalls', hleft', hnext'⟩ := ih (queueLmTrans sizeBits r).1
      refine ⟨kvs ++ kvs', ?_, ?_, ?_⟩
      · rw [hcalls', hcalls, hnext, sendsFrom_append, List.append_assoc]
      · rw [hleft, hleft', List.append_assoc]
      · rw [hnext', hnext, List.length_append, Nat.add_assoc]
    · exact ⟨kvs, hcalls, hleft, hnext⟩

/-- What the callback does with any event. -/
theorem transCallback_reacts (r : CliRun) (e : Event) :
    ∃ kvs closing, Reacts r (transCallback sizeBits r e) e kvs closing := by
  obtain ⟨type, trans⟩ := e
  cases type with
  | connConnected =>
    obtain ⟨kvs, hcalls, hleft, hnext⟩ := queueLoop_eq sizeBits (r.trans.kvs.length + 1) r
    exact ⟨kvs, [], by simpa [transCallback, Event.deletes] using hcalls, hleft, hnext, rfl, Bool.noConfusion⟩
  | connDisconnect | connError =>
    exact ⟨[], [.destroy, .eventDone], by simp [transCallback, Event.deletes, sendsFrom], rfl, rfl, rfl,
      fun _ => rfl⟩
  | transDone =>
    cases trans with
    | none => exact ⟨[], [], by simp [transCallback, Event.deletes, sendsFrom], rfl, rfl, rfl, Bool.noConfusion⟩
    | some p =>
      obtain ⟨kvs, -, hcalls, hleft, hnext⟩ := queueLmTrans_eq sizeBits { r with
        trans := { r.trans with outstandingCnt := (r.trans.outstandingCnt + 2 ^ sizeBits - 1) % 2 ^ sizeBits }
        calls := r.calls ++ [.delete p] }
      unfold transCallback
      dsimp only at hcalls hleft hnext ⊢
      split
      · exact ⟨kvs, [.disconnect], by simp [Event.deletes, hcalls], hleft, hnext, by simp [Event.terminal],
          Bool.noConfusion⟩
      · exact ⟨kvs, [], by simp [Event.deletes, hcalls], hleft, hnext, rfl, Bool.noConfusion⟩
  | transError | transNoconnect =>
    cases trans with
    | none => exact ⟨[], [], by simp [transCallback, Event.deletes, sendsFrom], rfl, rfl, rfl, Bool.noConfusion⟩
    | some p =>
      exact ⟨[], [], by simp [transCallback, Event.deletes, sendsFrom], rfl, rfl, rfl, Bool.noConfusion⟩
  | transTimeout =>
    exact ⟨[], [], by simp [transCallback, Event.deletes, sendsFrom], rfl, rfl, rfl, Bool.noConfusion⟩

end Reactions

section Calls

variable {lib} {s s' : Sys} {a : Action}

/-- A connection that has never been pinged, and will not be. -/
structure Pingless (s : Sys) : Prop where
  disabled : s.conn.disablePing = true
  none : s.conn.pingtxn = none
  never : ∀ p, .created p .ping ∉ s.conn.trace

/-- The read event keeps to that. -/
theorem ReadEnd.pingless {c : Conn} {new : List Obs} {r : Conn × Pc} (h : ReadEnd lib c new r)
    (hping : c.pingtxn = none) : r.1.pingtxn = none := by
  cases h with
  | ping c' p t hreads hp _ _ _ _ => cases hping.symm.trans hp
  | wait c' hreads => exact hreads.pingtxn.trans hping
  | error c' hreads =>
    rw [connEventHandleConnError_pingtxn]
    exact hreads.pingtxn.trans hping

/-- Nobody turns the ping on again. -/
theorem settingsAfter_disablePing {c : Conn} (h : c.disablePing = true) (a : Action) :
    (settingsAfter lib c a).disablePing = true := by
  cases a with
  | connChangeServer host port =>
    simp only [settingsAfter, connChangeServer]
    split <;> exact h
  | connChangeMode mode =>
    simp only [settingsAfter, connChangeMode]
    split <;> exact h
  | connSetConnTimeout toSecs =>
    simp only [settingsAfter, connSetConnTimeout]
    split <;> exact h
  | connSetIocreateCallback present =>
    simp only [settingsAfter, connSetIocreateCallback]
    split <;> exact h
  | connSetIdleTimeout toSecs =>
    obtain ⟨timer, heq⟩ := connSetIdleTimeout_shape lib c toSecs
    simp only [settingsAfter, heq]
    exact h
  | connDisablePing => rfl
  | _ => exact h

/-- Every action keeps to that, too. -/
theorem Pingless.step (h : Pingless s) (hrunning : Running lib s) (hstage : Stage s)
    (hstep : sysStep lib s a = some s') (hlive : s'.conn.freed = false) : Pingless s' := by
  have hquiet : ∀ (draws : List RandDraw) (written : ℕ), a = .event (.connected draws written) →
      ∀ new, s'.conn.trace = s.conn.trace ++ new → ∀ p, .created p .ping ∉ new := by
    rintro draws written rfl new htrace p hp
    cases sysStep_move hstep hrunning with
    | aside _ new' hkinds haside =>
      obtain rfl := List.append_cancel_left (haside.trace.symm.trans htrace)
      exact Bool.noConfusion (haside.records _ hp)
    | pinged draws' written' draw _ _ hdisabled _ _ => simp [h.disabled] at hdisabled
    | unpinged draws' written' _ _ _ heq =>
      subst heq
      simp only [connCleanupPing, h.none] at htrace
      rw [List.self_eq_append_right] at htrace
      rw [htrace] at hp
      cases hp
    | refused _ _ _ _ _ hconnects _ _ => cases hconnects
    | opened _ _ _ _ _ _ _ hconnects _ _ _ _ _ => cases hconnects
    | dialed _ _ _ _ _ _ hconnects _ _ _ _ _ => cases hconnects
    | destroyed _ _ hdestroys _ _ _ => cases hdestroys
  refine ⟨?_, ?_, fun p hp => ?_⟩
  · have hsettings := congrArg Settings.disablePing (sysStep_settings hstep hrunning)
    exact hsettings.trans (settingsAfter_disablePing h.disabled a)
  · cases sysStep_move hstep hrunning with
    | aside _ new hkinds haside => exact haside.pingtxn.trans h.none
    | accepted p t _ _ _ heq => simp [heq, TransStore.log, h.none]
    | sent p t hup _ _ heq =>
      obtain ⟨_, _, _, _, _, hshape, -, -⟩ := transSendMessages_shape lib { s.conn with
        toTransStore := (s.conn.toTransStore.move p t { t with status := .ready }).log (.accepted p) } hup
      rw [hshape] at heq
      simp [heq, TransStore.log, h.none]
    | refused _ _ _ _ _ _ _ heq => simpa [heq] using h.none
    | opened _ _ _ _ _ _ _ _ _ _ _ _ heq => simpa [heq] using h.none
    | dialed _ _ _ _ _ _ _ _ _ _ _ heq => simpa [heq] using h.none
    | registered _ _ heq => simpa [heq] using h.none
    | dropped _ _ _ heq => simpa [heq] using h.none
    | disconnecting _ _ _ heq => simpa [heq] using h.none
    | idled _ _ _ heq => simpa [heq] using h.none
    | pinged _ _ _ _ _ hdisabled _ _ => simp [h.disabled] at hdisabled
    | unpinged _ _ _ _ _ heq => simp [heq, connCleanupPing, h.none]
    | failed _ _ _ _ _ heq => simpa [heq] using h.none
    | read _ _ _ _ _ hend heq =>
      rw [heq]
      exact hend.pingless h.none
    | wrote _ _ _ heq => simpa [heq] using h.none
    | expired _ _ _ heq => simp [heq, connCleanupPing, h.none]
    | unguarded _ heq => simp [heq]
    | proved _ _ _ hend heq =>
      rw [heq]
      exact hend.pingless (by simp)
    | unproved _ _ heq => simp [heq]
    | destroyed _ _ hdestroys hidle _ heq =>
      rw [heq] at hlive
      simp [connDestroy, hidle] at hlive
  · obtain ⟨new, htrace, hbelongs, -⟩ := sysStep_report hstep hrunning hstage
    rw [htrace] at hp
    rcases List.mem_append.mp hp with hp | hp
    · exact h.never p hp
    · obtain ⟨draws, written, ha⟩ := hbelongs _ hp
      exact hquiet draws written ha new htrace p hp

/-- Without an idle timeout a connection has no timer while it is up, and is never closed for being idle. -/
structure Untimed (s : Sys) : Prop where
  unlimited : s.conn.idleTimeout = 0
  keeping : Timekeeping s
  awake : s.conn.status ≠ .idleTimeout

/-- Only a caller sets an idle timeout. -/
theorem settingsAfter_idleTimeout (c : Conn) (ha : ∀ toSecs, a ≠ .connSetIdleTimeout toSecs) :
    (settingsAfter lib c a).idleTimeout = c.idleTimeout := by
  cases a with
  | connSetIdleTimeout toSecs => exact absurd rfl (ha toSecs)
  | connChangeServer host port =>
    simp only [settingsAfter, connChangeServer]
    split <;> rfl
  | connChangeMode mode =>
    simp only [settingsAfter, connChangeMode]
    split <;> rfl
  | connSetConnTimeout toSecs =>
    simp only [settingsAfter, connSetConnTimeout]
    split <;> rfl
  | connSetIocreateCallback present =>
    simp only [settingsAfter, connSetIocreateCallback]
    split <;> rfl
  | _ => rfl

/-- Every action keeps to that, unless it sets an idle timeout. -/
theorem Untimed.step (h : Untimed s) (hrunning : Running lib s) (hstage : Stage s)
    (hstep : sysStep lib s a = some s') (ha : ∀ toSecs, a ≠ .connSetIdleTimeout toSecs) : Untimed s' := by
  have hquiet : a = .event .timer → s.conn.status ≠ .connected := by
    rintro rfl hup
    have hnone : s.conn.timer = none := (h.keeping.up (sysStep_live lib hstep) hup).off h.unlimited
    cases sysStep_effect hstep with
    | event _ _ _ henabled _ => simp [eventEnabled, hnone] at henabled
    | configures _ _ hsets _ => cases hsets
  refine ⟨?_, h.keeping.step hstage hrunning hstep ?_, fun hidle => ?_⟩
  · have hsettings := congrArg Settings.idleTimeout (sysStep_settings hstep hrunning)
    exact hsettings.trans ((settingsAfter_idleTimeout s.conn ha).trans h.unlimited)
  · by_contra hloses
    rw [Bool.not_eq_false] at hloses
    cases a with
    | resume => simp [Action.losesTimer, h.unlimited] at hloses
    | event event =>
      cases event with
      | timer => exact hquiet rfl (by simpa using (Bool.and_eq_true_iff.mp hloses).1)
      | _ => cases hloses
    | _ => cases hloses
  · obtain ⟨rfl, hup⟩ := (sysStep_move hstep hrunning).idles hrunning hidle h.awake
    exact hquiet rfl hup

/-- What the calls of a callback have in common, apart from the transactions that they create, whether they
send one, whether they disconnect, and which ones they delete. -/
structure Called (s s' : Sys) (created : ℕ) (sends hangsUp : Bool) (deleted : List Ptr) : Prop where
  pc : s'.pc = s.pc
  callers : s.conn.status ≠ .disconnected → s'.callers = s.callers
  connecting : s'.connecting = s.connecting
  destroy : s'.conn.destroy = s.conn.destroy
  freed : s'.conn.freed = s.conn.freed
  registered : s'.registered = s.registered
  status : s'.conn.status = s.conn.status ∨
    hangsUp = true ∧ s.conn.status = .connected ∧ s'.conn.status = .disconnecting
  next : s'.conn.nextPtr = s.conn.nextPtr + created
  events : s'.conn.events = s.conn.events
  ready : sends = false → s'.conn.transReady.Sublist s.conn.transReady
  trace : ∃ new, s'.conn.trace = s.conn.trace ++ new ∧ eventsOf new = [] ∧ callbacksOf new = [] ∧
    deletedOf new ⊆ deleted

/-- Nothing is called. -/
theorem Called.refl (s : Sys) : Called s s 0 false false [] :=
  ⟨rfl, fun _ => rfl, rfl, rfl, rfl, rfl, Or.inl rfl, rfl, rfl, fun _ => .refl _,
    [], (List.append_nil _).symm, rfl, rfl, List.Subset.refl _⟩

/-- One call after the other. -/
theorem Called.trans {s'' : Sys} {created created' : ℕ} {sends sends' hangsUp hangsUp' : Bool}
    {deleted deleted' : List Ptr} (h : Called s s' created sends hangsUp deleted)
    (h' : Called s' s'' created' sends' hangsUp' deleted') :
    Called s s'' (created + created') (sends || sends') (hangsUp || hangsUp') (deleted ++ deleted') := by
  obtain ⟨new, htrace, hevents, hcalls, hdeleted⟩ := h.trace
  obtain ⟨new', htrace', hevents', hcalls', hdeleted'⟩ := h'.trace
  have hdown : s.conn.status ≠ .disconnected → s'.conn.status ≠ .disconnected := by
    intro hdown
    rcases h.status with hsame | ⟨-, -, hdisc⟩
    · rwa [hsame]
    · simp [hdisc]
  refine ⟨h'.pc.trans h.pc, fun hne => (h'.callers (hdown hne)).trans (h.callers hne),
    h'.connecting.trans h.connecting, h'.destroy.trans h.destroy, h'.freed.trans h.freed,
    h'.registered.trans h.registered, ?_, ?_, h'.events.trans h.events, fun hnone => ?_, new ++ new', ?_,
    ?_, ?_, ?_⟩
  · rcases h'.status with hsame' | ⟨hhangs, hup, hdisc⟩
    · rw [hsame']
      rcases h.status with hsame | ⟨hhangs, hup, hdisc⟩
      · exact Or.inl hsame
      · exact Or.inr ⟨by rw [hhangs, Bool.true_or], hup, hdisc⟩
    · rcases h.status with hsame | ⟨-, -, hdisc'⟩
      · exact Or.inr ⟨by rw [hhangs, Bool.or_true], hsame.symm.trans hup, hdisc⟩
      · cases hup.symm.trans hdisc'
  · rw [h'.next, h.next, Nat.add_assoc]
  · rw [Bool.or_eq_false_iff] at hnone
    exact (h'.ready hnone.2).trans (h.ready hnone.1)
  · rw [htrace', htrace, List.append_assoc]
  · rw [eventsOf_append, hevents, hevents', List.append_nil]
  · rw [callbacksOf_append, hcalls, hcalls', List.append_nil]
  · rw [deletedOf_append]
    exact List.append_subset.mpr ⟨fun p hp => List.mem_append_left _ (hdeleted hp),
      fun p hp => List.mem_append_right _ (hdeleted' hp)⟩

/-- `LM_trans_new`. -/
theorem called_transNew {draws : List RandDraw} (hstep : sysStep lib s (.transNew draws) = some s') :
    Called s s' 1 false false [] := by
  have hlive := sysStep_live lib hstep
  unfold sysStep at hstep
  rw [if_neg (by simp [hlive])] at hstep
  obtain ⟨⟨c, p⟩, hnew, rfl⟩ := Option.map_eq_some_iff.mp hstep
  obtain ⟨draw, -, -, rfl⟩ := transNew_spec hnew
  exact ⟨rfl, fun _ => rfl, rfl, rfl, rfl, rfl, Or.inl rfl, rfl, rfl, fun _ => .refl _,
    _, rfl, rfl, rfl, List.Subset.refl _⟩

/-- `LM_trans_set_param`. -/
theorem called_transSetParam {p : Ptr} {key : Bytes} {value : Option Bytes}
    (hstep : sysStep lib s (.transSetParam p key value) = some s') : Called s s' 0 false false [] := by
  have hlive := sysStep_live lib hstep
  unfold sysStep at hstep
  rw [if_neg (by simp [hlive])] at hstep
  obtain rfl := Option.some.inj hstep
  obtain ⟨heap, heq, -⟩ := transSetParam_spec lib s.conn p key value
  simp only [heq]
  exact ⟨rfl, fun _ => rfl, rfl, rfl, rfl, rfl, Or.inl rfl, rfl, rfl, fun _ => .refl _,
    [], (List.append_nil _).symm, rfl, rfl, List.Subset.refl _⟩

/-- The series of `LM_trans_set_param` is one change of the connection. -/
theorem run_transSetParams (hlive : s.conn.freed = false) (p : Ptr) (members : List (Bytes × Option Bytes)) :
    (monetra lib).run s (members.map fun entry => .transSetParam p entry.1 entry.2) =
      some { s with conn := transSetParams s.conn p members } := by
  induction members generalizing s with
  | nil => rfl
  | cons member rest ih =>
    have hstep : sysStep lib s (.transSetParam p member.1 member.2) =
        some { s with conn := (transSetParam s.conn p member.1 member.2).1 } := by
      unfold sysStep
      rw [if_neg (by simp [hlive])]
    have hlive' := (called_transSetParam hstep).freed.trans hlive
    exact Option.bind_eq_some_iff.mpr ⟨_, hstep, ih hlive'⟩

/-- `LM_conn_disconnect`. -/
theorem called_connDisconnect (hstep : sysStep lib s .connDisconnect = some s') :
    Called s s' 0 false true [] := by
  have hlive := sysStep_live lib hstep
  unfold sysStep at hstep
  rw [if_neg (by simp [hlive])] at hstep
  obtain rfl := Option.some.inj hstep
  unfold connDisconnectConnlocked
  cases hio : s.conn.io with
  | none =>
    dsimp only
    exact ⟨rfl, fun _ => rfl, rfl, rfl, rfl, rfl, Or.inl rfl, rfl, rfl, fun _ => .refl _,
      [], (List.append_nil _).symm, rfl, rfl, List.Subset.refl _⟩
  | some io =>
    dsimp only
    split
    · rename_i hup
      refine ⟨rfl, fun _ => rfl, rfl, rfl, rfl, ?_, Or.inr ⟨rfl, hup, rfl⟩, rfl, rfl, fun _ => .refl _,
        [], (List.append_nil _).symm, rfl, rfl, List.Subset.refl _⟩
      simp [Sys.registered, hio]
    · exact ⟨rfl, fun _ => rfl, rfl, rfl, rfl, rfl, Or.inl rfl, rfl, rfl, fun _ => .refl _,
        [], (List.append_nil _).symm, rfl, rfl, List.Subset.refl _⟩

/-- `LM_trans_delete`. -/
theorem called_transDelete {p : Ptr} (hbusy : s.conn.inUse = true)
    (hstep : sysStep lib s (.transDelete p) = some s') : Called s s' 0 false false [p] := by
  have hlive := sysStep_live lib hstep
  unfold sysStep at hstep
  rw [if_neg (by simp [hlive])] at hstep
  obtain rfl := Option.some.inj hstep
  unfold transDelete
  split
  · exact ⟨rfl, fun _ => rfl, rfl, rfl, rfl, rfl, Or.inl rfl, rfl, rfl, fun _ => .refl _,
      [], (List.append_nil _).symm, rfl, rfl, List.nil_subset _⟩
  · rename_i t ht
    have hready : (s.conn.toTransStore.killTimeoutTimer p t).transReady = s.conn.transReady :=
      TransStore.connQueue_killTimeoutTimer s.conn.toTransStore p t .ready
    rw [if_pos hbusy]
    refine ⟨rfl, fun _ => rfl, rfl, rfl, rfl, rfl, Or.inl rfl, ?_, ?_, fun _ => ?_, [.deleted p], ?_, rfl, rfl,
      List.Subset.refl _⟩
    · simp [TransStore.log]
    · simp [TransStore.log]
    · simp only [TransStore.log, hready]
      exact .refl _
    · simp [TransStore.log]

/-- `LM_trans_send`. -/
theorem called_transSend {p : Ptr} (hstep : sysStep lib s (.transSend p) = some s') :
    Called s s' 0 true false [] := by
  have hlive := sysStep_live lib hstep
  unfold sysStep at hstep
  rw [if_neg (by simp [hlive])] at hstep
  obtain rfl := Option.some.inj hstep
  have hkept : Called s { s with conn := s.conn, callers := s.callers } 0 true false [] :=
    ⟨rfl, fun _ => rfl, rfl, rfl, rfl, rfl, Or.inl rfl, rfl, rfl, Bool.noConfusion,
      [], (List.append_nil _).symm, rfl, rfl, List.Subset.refl _⟩
  cases ht : s.conn.heap p with
  | none =>
    simp only [transSend, ht, Bool.false_eq_true, if_false]
    exact hkept
  | some t =>
    by_cases hrefused : t.status ≠ .new ∨ t.numParams = 0
    · simp only [transSend, ht, if_pos hrefused, Bool.false_eq_true, if_false]
      exact hkept
    · simp only [transSend, ht, if_neg hrefused]
      generalize hc : ({ s.conn with
        heap := Function.update s.conn.heap p (some { t with status := .ready })
        transNew := s.conn.transNew.erase p
        transReady := s.conn.transReady ++ [p]
        trace := s.conn.trace ++ [.accepted p] } : Conn) = c
      by_cases hup : c.status = .connected
      · obtain ⟨_, _, new, _, _, hshape, -, hsends⟩ := transSendMessages_shape lib c hup
        have hstays : (transSendMessages lib c).2 = false := by simp [transSendMessages, hup]
        have hevents : eventsOf new = [] := eventsOf_sends hsends
        have hcalls : callbacksOf new = [] := callbacksOf_eq_nil fun e he => Bool.noConfusion (hsends _ he)
        have hdeleted : deletedOf new = [] := deletedOf_sends hsends
        rw [hshape, hstays]
        subst hc
        exact ⟨rfl, fun _ => rfl, rfl, rfl, rfl, rfl, Or.inl rfl, rfl, rfl, Bool.noConfusion,
          .accepted p :: new, by simp, hevents, hcalls, fun q hq => hdeleted ▸ hq⟩
      · have hsame : transSendMessages lib c = (c, decide (c.status = .disconnected)) := by
          by_cases hdown : c.status = .disconnected <;> simp [transSendMessages, hdown, hup]
        rw [hsame]
        subst hc
        exact ⟨rfl, fun hdown => if_neg (by simpa using hdown), rfl, rfl, rfl, rfl, Or.inl rfl, rfl, rfl,
          Bool.noConfusion, [.accepted p], rfl, rfl, rfl, List.Subset.refl _⟩

/-- The parameters of a transaction. -/
theorem called_transSetParams {p : Ptr} (members : List (Bytes × Option Bytes))
    (hrun : (monetra lib).run s (members.map fun entry => .transSetParam p entry.1 entry.2) = some s') :
    Called s s' 0 false false [] := by
  induction members generalizing s with
  | nil =>
    obtain rfl := Option.some.inj hrun
    exact .refl s
  | cons member rest ih =>
    obtain ⟨mid, hmid, hrest⟩ := Option.bind_eq_some_iff.mp hrun
    have hset : sysStep lib s (.transSetParam p member.1 member.2) = some mid := hmid
    exact (called_transSetParam hset).trans (ih hrest)

/-- How many transactions a call creates. -/
def CliCall.created : CliCall → ℕ
  | .send _ _ => 1
  | _ => 0

/-- Which transactions it deletes. -/
def CliCall.deleted : CliCall → List Ptr
  | .delete p => [p]
  | _ => []

/-- Whether it sends one. -/
def CliCall.sends : CliCall → Bool
  | .send _ _ => true
  | _ => false

/-- A run of one action. -/
theorem sysStep_of_run (hrun : (monetra lib).run s [a] = some s') : sysStep lib s a = some s' := by
  obtain ⟨mid, hmid, hrest⟩ := Option.bind_eq_some_iff.mp hrun
  obtain rfl := Option.some.inj hrest
  exact hmid

/-- A call of the callback, unless it destroys the connection. -/
theorem called_call {call : CliCall} {draws : List RandDraw} (hbusy : s.conn.inUse = true)
    (hkept : call ≠ .destroy) (hrun : (monetra lib).run s (call.actions draws) = some s') :
    Called s s' call.created call.sends (call == .disconnect) call.deleted := by
  cases call with
  | send p kvs =>
    rw [CliCall.actions, List.cons_append] at hrun
    obtain ⟨created, hcreated, hrest⟩ := Option.bind_eq_some_iff.mp hrun
    rw [System.run_append] at hrest
    obtain ⟨built, hbuilt, hsent⟩ := Option.bind_eq_some_iff.mp hrest
    have hnew : sysStep lib s (.transNew draws) = some created := hcreated
    exact ((called_transNew hnew).trans (called_transSetParams kvs.entries hbuilt)).trans
      (called_transSend (sysStep_of_run hsent))
  | delete p => exact called_transDelete hbusy (sysStep_of_run hrun)
  | disconnect => exact called_connDisconnect (sysStep_of_run hrun)
  | destroy => exact absurd rfl hkept
  | eventDone =>
    obtain rfl := Option.some.inj hrun
    exact .refl s

/-- The end of a connection creates nothing. -/
theorem connEventHandleConnError_nextPtr (c : Conn) (failure : IoFailure) :
    (connEventHandleConnError c failure).nextPtr = c.nextPtr := by
  obtain ⟨_, _, _, _, _, heq⟩ := connEventHandleConnError_shape c failure
  rw [heq]

/-- A disconnect creates nothing. -/
theorem connDisconnectConnlocked_nextPtr (c : Conn) : (connDisconnectConnlocked c).1.nextPtr = c.nextPtr := by
  unfold connDisconnectConnlocked
  split
  · rfl
  · split <;> rfl

/-- The read event creates nothing. -/
theorem readFrames_nextPtr {c : Conn} (hping : c.pingtxn = none) :
    (readFrames lib c).1.nextPtr = c.nextPtr := by
  obtain ⟨new, hend⟩ := readFrames_end lib c
  generalize readFrames lib c = r at hend
  have hreads : ∀ {c' : Conn}, Reads c c' new → c'.nextPtr = c.nextPtr := by
    intro c' hreads
    obtain ⟨_, _, _, _, _, _, _, heq⟩ := hreads.shape
    rw [heq]
  cases hend with
  | ping c' p t _ hp _ _ _ _ => cases hping.symm.trans hp
  | wait c' h =>
    have hsame := hreads h
    exact hsame
  | error c' h =>
    have hsame := hreads h
    rw [connEventHandleConnError_nextPtr]
    exact hsame

/-- An event creates nothing on a connection that is not pinged. -/
theorem handlerEnter_nextPtr {event : IoEvent} {r : Conn × Pc} (h : Pingless s)
    (hr : handlerEnter lib s.conn event = some r) : r.1.nextPtr = s.conn.nextPtr := by
  cases event with
  | connected draws written =>
    simp only [handlerEnter, h.disabled, if_true, Option.some.injEq] at hr
    subst hr
    simp [connCleanupPing, h.none]
  | failed failure text =>
    obtain rfl := Option.some.inj hr
    exact connEventHandleConnError_nextPtr _ failure
  | read chunk =>
    obtain rfl := Option.some.inj hr
    exact readFrames_nextPtr h.none
  | readFailed | write written =>
    obtain rfl := Option.some.inj hr
    rfl
  | timer =>
    simp only [handlerEnter] at hr
    split at hr
    · obtain rfl := Option.some.inj hr
      simp [connCleanupPing, h.none]
    · split at hr
      · obtain rfl := Option.some.inj hr
        exact connDisconnectConnlocked_nextPtr _
      · obtain rfl := Option.some.inj hr
        rfl
  | transTimer p =>
    simp only [handlerEnter] at hr
    split at hr <;> obtain rfl := Option.some.inj hr <;> rfl

/-- Neither does a handler that goes on after the clean-up of the ping. -/
theorem handlerResume_nextPtr (lib : Mstdlib) (c : Conn) (pingEnd : PingEnd) :
    (handlerResume lib c pingEnd).1.nextPtr = c.nextPtr := by
  obtain ⟨_, _, _, _, _, hshape, -, -⟩ := connEventSetConnected_shape lib { c with pingtxn := none }
  cases pingEnd with
  | disabled => simp only [handlerResume, hshape]
  | reply => rw [handlerResume, readFrames_nextPtr (by simp), hshape]
  | timeout => exact connEventHandleConnError_nextPtr _ .error

/-- What the library does on its own creates and deletes nothing, if the connection is not pinged. -/
theorem sysStep_creates_none (h : Pingless s) (hcalls : a.calls = false ∨ a.inConnect = true)
    (hstep : sysStep lib s a = some s') : s'.conn.nextPtr = s.conn.nextPtr := by
  have henter : ∀ (mid : Sys) net who, (enterConnect lib mid net who).1.conn.nextPtr = mid.conn.nextPtr := by
    intro mid net who
    obtain ⟨_, _, _, _, _, heq, -⟩ := enterConnect_spec lib mid net who
    rw [heq]
  cases sysStep_effect hstep with
  | event event r _ _ hr => exact handlerEnter_nextPtr h hr
  | resume pingEnd _ => exact handlerResume_nextPtr lib s.conn pingEnd
  | deliver | callbackReturn => rfl
  | drain => exact (drainDelayRm_kept lib s.conn.transDelayRm s.conn).2.1
  | reconnect net _ => exact henter s net .handler
  | implicitConnect net _ => exact henter _ net .caller
  | connectFinish eventAdd who _ =>
    obtain ⟨_, _, _, heq, -⟩ := connConnectFinish_spec s.conn eventAdd
    simp only [heq]
  | finish _ =>
    simp only [connDestroy]
    split <;> [split; skip] <;> rfl
  | configures a c hsets _ =>
    simp [Action.calls_of_configures hsets, Action.inConnect_of_configures hsets] at hcalls
  | transNew | transRunNew | transSetParam | transSetTimeout | transSend | transDelete | connConnect
  | connDisconnect | connDestroy => simp [Action.calls, Action.inConnect] at hcalls

/-- What the library does on its own deletes nothing either. -/
theorem sysStep_deletes_none (h : Pingless s) (hs : (deletedOnce lib).Reachable s)
    (hcalls : a.calls = false ∨ a.inConnect = true) (hstep : sysStep lib s a = some s') :
    deletedOf s'.conn.trace = deletedOf s.conn.trace := by
  have hrunning := running_of_reachable (hs.of_restrict (monetra lib))
  have hledger := ledger_of_reachable hs
  have hother : ∀ p, a ≠ .transDelete p := by
    rintro p rfl
    simp [Action.calls, Action.inConnect] at hcalls
  cases sysStep_turn hstep hrunning with
  | served new hclears hserved =>
    rw [hserved.handled.trace, deletedOf_append]
    rcases hserved.deletes with hnone | ⟨p, -, ha | ⟨hping, -⟩⟩
    · rw [hnone, List.append_nil]
    · exact absurd ha (hother p)
    · cases h.none.symm.trans hping
  | delivered e rest ha hpc hevents hstore =>
    rw [hstore]
    exact (deletedOf_append _ [.callback e]).trans (List.append_nil _)
  | returned ha hpc hstore => rw [hstore]
  | deleted p t ha hidle ht hstore => exact absurd ha (hother p)
  | drained ha hpc hevents hstore =>
    obtain ⟨-, htrace⟩ := drainDelayRm_done lib s.conn.transDelayRm rfl hrunning.rep hledger.nodup
      hledger.delayed s.conn.transDelayRm fun _ => id
    have hnone : deletedOf (s.conn.transDelayRm.map .freed) = [] := deletedOf_eq_nil fun p hp => by simp at hp
    rw [hstore, htrace, deletedOf_append, hnone, List.append_nil]
  | destroyed hdestroys hidle hfreed hstore =>
    rw [hstore]
    exact (deletedOf_append _ [.connFreed]).trans (List.append_nil _)

/-- Only the handler reports anything, and only before its callbacks. -/
theorem sysStep_reports_none (hrunning : Running lib s) (hstage : Stage s) (ha : a.handles = false)
    (hstep : sysStep lib s a = some s') : eventsOf s'.conn.trace = eventsOf s.conn.trace := by
  obtain ⟨new, htrace, -, hreport⟩ := sysStep_report hstep hrunning hstage
  have hnone : eventsOf new = [] := by
    cases hreport with
    | calm htimes _ _ =>
      refine List.eq_nil_iff_forall_not_mem.mpr fun e he => ?_
      obtain ⟨-, htimesOut⟩ := htimes e he
      cases a <;> first | cases htimesOut | cases ha
    | dialed hnew _ _ _ =>
      rw [hnew]
      rfl
    | answered chunk heq _ _ _ _ _ =>
      rw [heq] at ha
      cases ha
    | established pingEnd done heq _ _ _ _ _ _ =>
      rw [heq] at ha
      cases ha
    | tornDown c failure before hgiven _ _ =>
      rcases hgiven.cause with ⟨failure', text, heq⟩ | heq | ⟨chunk, heq⟩ <;> rw [heq] at ha <;> cases ha
    | destroyed _ hnew =>
      rw [hnew]
      rfl
  rw [htrace, eventsOf_append, hnone, List.append_nil]

/-- Only the handler calls the callback. -/
theorem sysStep_calls_none (hrunning : Running lib s) (hstage : Stage s) (ha : a ≠ .deliver)
    (hstep : sysStep lib s a = some s') : callbacksOf s'.conn.trace = callbacksOf s.conn.trace := by
  obtain ⟨new, htrace, hbelongs, -⟩ := sysStep_report hstep hrunning hstage
  rw [htrace, callbacksOf_append, callbacksOf_eq_nil fun e he => ha (hbelongs _ he), List.append_nil]

/-- Only `LM_trans_delete` can ask for a deletion again. -/
theorem deletedOnce_step (hs : (deletedOnce lib).Reachable s) (ha : ∀ p, a ≠ .transDelete p)
    (hstep : sysStep lib s a = some s') : (deletedOnce lib).Reachable s' := by
  refine hs.step (a := a) ?_
  have hfirst : a.deletesAgain s.conn = false := by
    cases a with
    | transDelete p => exact absurd rfl (ha p)
    | _ => rfl
  change (if !a.deletesAgain s.conn then sysStep lib s a else none) = some s'
  rw [hfirst]
  exact hstep

/-- A run that deletes nothing asks for no deletion again. -/
theorem deletedOnce_run (actions : List Action) (hs : (deletedOnce lib).Reachable s)
    (hfine : ∀ a ∈ actions, ∀ p, a ≠ .transDelete p) (hrun : (monetra lib).run s actions = some s') :
    (deletedOnce lib).Reachable s' :=
  (monetra lib).run_invariant (fun _ _ _ ha hs hstep => deletedOnce_step hs ha hstep) hs actions hfine hrun

/-- A call keeps to what the library asks of its callers, unless it deletes a transaction again. -/
theorem call_deletedOnce {call : CliCall} {draws : List RandDraw} (hs : (deletedOnce lib).Reachable s)
    (hfresh : ∀ p, call = .delete p → p ∉ s.conn.transDelayRm)
    (hrun : (monetra lib).run s (call.actions draws) = some s') : (deletedOnce lib).Reachable s' := by
  cases call with
  | delete p =>
    refine hs.step (a := .transDelete p) ?_
    have hnew := hfresh p rfl
    change (if !Action.deletesAgain s.conn (.transDelete p) then sysStep lib s (.transDelete p) else none) =
      some s'
    rw [show Action.deletesAgain s.conn (.transDelete p) = false by simp [Action.deletesAgain, hnew]]
    exact sysStep_of_run hrun
  | send p kvs =>
    refine deletedOnce_run _ hs (fun a ha q => ?_) hrun
    simp only [CliCall.actions, List.mem_cons, List.mem_append, List.mem_map, List.cons_append,
      List.not_mem_nil, or_false] at ha
    rcases ha with rfl | ⟨entry, -, rfl⟩ | rfl <;> simp
  | disconnect | destroy =>
    refine deletedOnce_run _ hs (fun a ha q => ?_) hrun
    obtain rfl := List.mem_singleton.mp ha
    simp
  | eventDone => exact deletedOnce_run _ hs (by simp [CliCall.actions]) hrun

/-- A run keeps to it that the connection is not pinged. -/
theorem Pingless.run (actions : List Action) (h : Pingless s) (hs : (monetra lib).Reachable s)
    (hrun : (monetra lib).run s actions = some s') (hlive : s'.conn.freed = false) : Pingless s' := by
  have hkept : (monetra lib).Reachable s' ∧ (s'.conn.freed = false → Pingless s') := by
    have hall : ∀ a ∈ actions, True := fun _ _ => trivial
    refine (monetra lib).run_invariant (P := fun s => (monetra lib).Reachable s ∧
      (s.conn.freed = false → Pingless s)) ?_ ⟨hs, fun _ => h⟩ actions hall hrun
    rintro s a s' - ⟨hs, h⟩ hstep
    have hlive := sysStep_live lib hstep
    exact ⟨hs.step hstep, (h hlive).step (running_of_reachable hs) (stage_of_reachable hs hlive) hstep⟩
  exact hkept.2 hlive

/-- No call sets an idle timeout. -/
theorem CliCall.actions_untimed (call : CliCall) {draws : List RandDraw} :
    ∀ a ∈ call.actions draws, ∀ toSecs, a ≠ .connSetIdleTimeout toSecs := by
  rintro _ ha toSecs rfl
  cases call <;> simp [CliCall.actions] at ha

/-- A run that sets no idle timeout keeps the connection without a timer. -/
theorem Untimed.run (actions : List Action) (h : Untimed s) (hs : (monetra lib).Reachable s)
    (hfine : ∀ a ∈ actions, ∀ toSecs, a ≠ .connSetIdleTimeout toSecs)
    (hrun : (monetra lib).run s actions = some s') : Untimed s' := by
  have hkept : (monetra lib).Reachable s' ∧ Untimed s' := by
    refine (monetra lib).run_invariant (P := fun s => (monetra lib).Reachable s ∧ Untimed s) ?_ ⟨hs, h⟩ actions
      hfine hrun
    rintro s a s' ha ⟨hs, h⟩ hstep
    have hstage := stage_of_reachable hs (sysStep_live lib hstep)
    exact ⟨hs.step hstep, h.step (running_of_reachable hs) hstage hstep ha⟩
  exact hkept.2

end Calls

end LibMonetra
