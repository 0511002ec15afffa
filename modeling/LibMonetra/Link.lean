import LibMonetra.Steps
import LibMonetra.System

/-!
# What holds between two pieces of the library

The control invariant of a running library, and the refinement of its runs: every action changes
the transactions by a sequence of store steps, and the actions of the event loop by steps of the
library alone.
-/

namespace LibMonetra

variable {lib : Mstdlib}

/-- The points at which a handler has the connection marked as in use. -/
def Pc.busy : Pc → Bool
  | .cleaning _ | .delivering | .callback => true
  | .idle | .reconnecting _ | .awaiting | .finishing => false

/-- The control invariant. -/
structure Link (s : Sys) : Prop where
  rest : s.pc.busy = false →
    s.conn.inUse = false ∧ s.conn.events = [] ∧ s.conn.transDelayRm = []
  busy : s.pc.busy = true → s.conn.inUse = true
  connected : s.conn.status = .connected → s.conn.toTransStore.quiet
  cleaning : s.pc = .cleaning .reply ∨ s.pc = .cleaning .disabled → s.conn.toTransStore.quiet
  connecting : s.connecting = some .handler → s.pc = .awaiting

/-- The invariant while a handler calls the event callback. -/
theorem Link.of_delivering {s : Sys} (hpc : s.pc = .delivering ∨ s.pc = .callback) (hbusy : s.conn.inUse = true)
    (hquiet : s.conn.status = .connected → s.conn.toTransStore.quiet) (hwho : s.connecting ≠ some .handler) :
    Link s where
  rest hrest := by rcases hpc with hpc | hpc <;> cases (hpc ▸ hrest)
  busy _ := hbusy
  connected := hquiet
  cleaning hclean := by rcases hpc with hpc | hpc <;> rcases hclean with hc | hc <;> cases hpc.symm.trans hc
  connecting h := absurd h hwho

/-- The invariant while the connection is not in use. -/
theorem Link.of_rest {s : Sys} (hpc : s.pc.busy = false) (hidle : s.conn.inUse = false)
    (hevents : s.conn.events = []) (hdelay : s.conn.transDelayRm = [])
    (hwho : s.connecting = some .handler → s.pc = .awaiting) : Link s where
  rest _ := ⟨hidle, hevents, hdelay⟩
  busy hbusy := by cases hpc.symm.trans hbusy
  connected _ e he := by
    rw [hevents] at he
    cases he
  cleaning _ e he := by
    rw [hevents] at he
    cases he
  connecting := hwho

/-- How a locked piece of the event handler changes the connection. -/
structure Piece (lib : Mstdlib) (c c' : Conn) : Prop where
  steps : InternalSteps lib c.toTransStore c'.toTransStore
  destroy : c'.destroy = c.destroy
  freed : c'.freed = c.freed
  inUse : c'.inUse = true
  connected : c'.status = .connected → c'.toTransStore.quiet
  status : c'.status = c.status ∨ c'.status = .connected ∨
    (c'.status = .disconnected ∧ c'.transPending = []) ∨
    (c.status = .connected ∧ c.transPending = [] ∧ c'.status = .idleTimeout)

section Pieces

variable (lib) (c : Conn)

/-- Where a locked piece of the handler may stop, and what it then knows about its events. -/
def StopsWell (r : Conn × Pc) : Prop :=
  ((r.2 = .cleaning .reply ∨ r.2 = .cleaning .disabled) ∧ r.1.toTransStore.quiet) ∨
    r.2 = .cleaning .timeout ∨ r.2 = .delivering

/-- The read event from some point of its loop on keeps the connection, or loses it. -/
theorem readFrames_piece (hrep : Rep c.toTransStore) (hbusy : c.inUse = true)
    (hquiet : c.toTransStore.quiet) :
    Piece lib c (readFrames lib c).1 ∧ StopsWell (readFrames lib c) ∧
      ((readFrames lib c).1.status = c.status ∨
        ((readFrames lib c).1.status = .disconnected ∧ (readFrames lib c).1.transPending = [])) := by
  obtain ⟨s, inbuf, heq, hsteps, -, -, hkeep⟩ := readLoop_spec lib (c.inbuf.length + 1) c hrep
  have hrep' : Rep s := InternalSteps.rep hsteps hrep
  rcases hres : readLoop lib (c.inbuf.length + 1) c with ⟨c', stop⟩
  rw [hres] at heq
  simp only at heq
  unfold readFrames
  rw [hres]
  cases stop with
  | ping =>
    obtain ⟨s', hclean, hsteps', hevents⟩ := connCleanupPing_spec lib c' (heq ▸ hrep')
      (heq ▸ hbusy)
    rw [heq] at hclean hsteps' hevents
    have hquiet' : s'.quiet := fun e he => hkeep hquiet e (hevents ▸ he)
    simp only [heq, hclean]
    exact ⟨⟨hsteps.trans hsteps', rfl, rfl, hbusy, fun _ => hquiet', Or.inl rfl⟩,
      Or.inl ⟨Or.inl rfl, hquiet'⟩, Or.inl trivial⟩
  | wait =>
    simp only [heq]
    exact ⟨⟨hsteps, rfl, rfl, hbusy, fun _ => hkeep hquiet, Or.inl rfl⟩, Or.inr (Or.inr rfl),
      Or.inl rfl⟩
  | error =>
    simp only [heq, if_true]
    obtain ⟨s', hfail, hsteps', hempty, -, -⟩ := connEventHandleConnError_spec lib
      (setError (timerReset lib { c with toTransStore := s, inbuf := inbuf } (s.transPending = []))
        (ascii "Invalid response format received. Disconnect.")) .error hrep'
    rw [hfail]
    exact ⟨⟨hsteps.trans hsteps', rfl, rfl, hbusy, fun h => ConnStatus.noConfusion h,
      Or.inr (Or.inr (Or.inl ⟨rfl, hempty⟩))⟩, Or.inr (Or.inr rfl), Or.inr ⟨rfl, hempty⟩⟩

/-- `LM_conn_disconnect` leaves all but the I/O object and the status alone. -/
theorem connDisconnectConnlocked_spec : (connDisconnectConnlocked c).1.toTransStore = c.toTransStore ∧
    (connDisconnectConnlocked c).1.destroy = c.destroy ∧ (connDisconnectConnlocked c).1.freed = c.freed ∧
    (connDisconnectConnlocked c).1.inUse = c.inUse := by
  unfold connDisconnectConnlocked
  split
  · exact ⟨rfl, rfl, rfl, rfl⟩
  · split <;> exact ⟨rfl, rfl, rfl, rfl⟩

/-- The first piece of the handler, which starts without events. -/
theorem handlerEnter_piece (event : IoEvent) (r : Conn × Pc) (hrep : Rep c.toTransStore)
    (hquiet : c.toTransStore.quiet) (henabled : eventEnabled c event = true)
    (h : handlerEnter lib c event = some r) : Piece lib c r.1 ∧ StopsWell r := by
  cases event with
  | connected draws written =>
    simp only [handlerEnter] at h
    split at h
    · simp only [Option.some.injEq] at h
      subst h
      obtain ⟨s, hclean, hsteps, hevents⟩ := connCleanupPing_spec lib
        { c with inUse := true, io := c.io.map fun io => { io with up := true } } hrep rfl
      have hquiet' : s.quiet := fun e he => hquiet e (hevents ▸ he)
      rw [hclean]
      exact ⟨⟨hsteps, rfl, rfl, rfl, fun _ => hquiet', Or.inl rfl⟩, Or.inl ⟨Or.inr rfl, hquiet'⟩⟩
    · obtain ⟨⟨c', p⟩, hping, rfl⟩ := Option.map_eq_some_iff.mp h
      obtain ⟨draw, hdraw, rfl, rfl⟩ := transPingRequest_spec hping
      have hfree : c.transIdMap draw.val = none := unusedDraw_free hdraw
      have hstep := @InternalStep.createPing lib c.toTransStore draw.val c.status hfree
        draw.property.1 draw.property.2
      refine ⟨⟨.single hstep, rfl, rfl, rfl, fun _ e he => hquiet e ?_, Or.inl rfl⟩,
        Or.inr (Or.inr rfl)⟩
      simpa [TransStore.log] using he
  | failed failure text =>
    simp only [handlerEnter, Option.some.injEq] at h
    subst h
    obtain ⟨s, hfail, hsteps, hempty, -, -⟩ := connEventHandleConnError_spec lib
      (setError { c with inUse := true }
        (if c.status = .idleTimeout then ascii "Idle connection timeout" else text)) failure hrep
    rw [hfail]
    exact ⟨⟨hsteps, rfl, rfl, rfl, fun h => ConnStatus.noConfusion h,
      Or.inr (Or.inr (Or.inl ⟨rfl, hempty⟩))⟩, Or.inr (Or.inr rfl)⟩
  | read chunk =>
    simp only [handlerEnter, Option.some.injEq] at h
    subst h
    obtain ⟨hpiece, hstop, -⟩ := readFrames_piece lib
      { c with inUse := true, inbuf := c.inbuf ++ chunk } hrep rfl hquiet
    exact ⟨⟨hpiece.steps, hpiece.destroy, hpiece.freed, hpiece.inUse, hpiece.connected,
      hpiece.status⟩, hstop⟩
  | readFailed =>
    simp only [handlerEnter, Option.some.injEq] at h
    subst h
    exact ⟨⟨.refl, rfl, rfl, rfl, fun _ => hquiet, Or.inl rfl⟩, Or.inr (Or.inr rfl)⟩
  | write written =>
    simp only [handlerEnter, Option.some.injEq] at h
    subst h
    exact ⟨⟨.refl, rfl, rfl, rfl, fun _ => hquiet, Or.inl rfl⟩, Or.inr (Or.inr rfl)⟩
  | timer =>
    simp only [handlerEnter] at h
    split at h
    · simp only [Option.some.injEq] at h
      subst h
      obtain ⟨s, hclean, hsteps, hevents⟩ := connCleanupPing_spec lib
        { c with inUse := true } hrep rfl
      rw [hclean]
      exact ⟨⟨hsteps, rfl, rfl, rfl, fun _ e he => hquiet e (hevents ▸ he), Or.inl rfl⟩,
        Or.inr (Or.inl rfl)⟩
    · split at h
      · rename_i hidle
        simp only [Option.some.injEq] at h
        subst h
        obtain ⟨hstore, hdestroy, hfreed, hbusy⟩ := connDisconnectConnlocked_spec { c with inUse := true }
        refine ⟨⟨?_, hdestroy, hfreed, hbusy, fun h => ConnStatus.noConfusion h,
          Or.inr (Or.inr (Or.inr ⟨hidle.1, hidle.2, rfl⟩))⟩, Or.inr (Or.inr rfl)⟩
        change InternalSteps lib c.toTransStore
          ((connDisconnectConnlocked { c with inUse := true }).1).toTransStore
        rw [hstore]
      · simp only [Option.some.injEq] at h
        subst h
        exact ⟨⟨.refl, rfl, rfl, rfl, fun _ => hquiet, Or.inl rfl⟩, Or.inr (Or.inr rfl)⟩
  | transTimer p =>
    simp only [eventEnabled, Bool.and_eq_true, List.any_eq_true, beq_iff_eq] at henabled
    obtain ⟨hlive, ⟨q, interval⟩, htimer, rfl⟩ := henabled
    obtain ⟨t, ht⟩ := Option.isSome_iff_exists.mp hlive
    simp only [handlerEnter, ht, Option.some.injEq] at h
    subst h
    have hstep := @InternalStep.timeout lib c.toTransStore q t interval ht htimer
    refine ⟨⟨.single hstep, rfl, rfl, rfl, fun _ e he => ?_, Or.inl rfl⟩, Or.inr (Or.inr rfl)⟩
    simp only [TransStore.connEventAdd, List.mem_append, List.mem_singleton] at he
    rcases he with he | rfl
    · exact hquiet e he
    · exact EventType.noConfusion

/-- The piece of the handler after `LM_conn_cleanup_ping` has released the lock. -/
theorem handlerResume_piece (pingEnd : PingEnd) (hrep : Rep c.toTransStore) (hbusy : c.inUse = true)
    (hquiet : pingEnd ≠ .timeout → c.toTransStore.quiet) :
    Piece lib c (handlerResume lib c pingEnd).1 ∧ StopsWell (handlerResume lib c pingEnd) := by
  have hforget := @InternalStep.forgetPing lib c.toTransStore
  cases pingEnd with
  | disabled =>
    obtain ⟨s, outbuf, timer, trigger, heq, hsteps, hq, -, -, -⟩ := connEventSetConnected_spec
      lib { c with pingtxn := none } (hforget.rep hrep) (hquiet (by decide))
    simp only [handlerResume, heq]
    exact ⟨⟨.head hforget hsteps, rfl, rfl, hbusy, fun _ => hq, Or.inr (Or.inl rfl)⟩,
      Or.inr (Or.inr rfl)⟩
  | reply =>
    obtain ⟨s, outbuf, timer, trigger, heq, hsteps, hq, -, -, -⟩ := connEventSetConnected_spec
      lib { c with pingtxn := none } (hforget.rep hrep) (hquiet (by decide))
    simp only [handlerResume, heq]
    obtain ⟨hpiece, hstop, hst⟩ := readFrames_piece lib
      { c with
        toTransStore := s
        status := .connected
        outbuf := outbuf
        timer := timer
        writeTrigger := trigger } (InternalSteps.rep hsteps (hforget.rep hrep)) hbusy hq
    refine ⟨⟨(Relation.ReflTransGen.head hforget hsteps).trans hpiece.steps, hpiece.destroy,
      hpiece.freed, hpiece.inUse, hpiece.connected, ?_⟩, hstop⟩
    · rcases hst with hst | hst
      · exact Or.inr (Or.inl hst)
      · exact Or.inr (Or.inr (Or.inl hst))
  | timeout =>
    obtain ⟨s, hfail, hsteps, hempty, -, -⟩ := connEventHandleConnError_spec lib
      (setError { c with pingtxn := none } (ascii "Failed to receive reply to PING request")) .error
      (hforget.rep hrep)
    simp only [handlerResume, hfail]
    exact ⟨⟨.head hforget hsteps, rfl, rfl, hbusy, fun h => ConnStatus.noConfusion h,
      Or.inr (Or.inr (Or.inl ⟨rfl, hempty⟩))⟩, Or.inr (Or.inr rfl)⟩

end Pieces

section Connect

/-- The first half of `LM_conn_connect` touches neither the status nor the transactions. -/
theorem connConnectBegin_spec (lib : Mstdlib) (c : Conn) (net : NetOutcome) :
    ∃ io tlsctx error,
      (connConnectBegin lib c net).1 = { c with io := io, tlsctx := tlsctx, error := error } := by
  unfold connConnectBegin
  simp only
  split
  · exact ⟨_, _, _, rfl⟩
  · split
    · exact ⟨_, _, _, rfl⟩
    · split <;> exact ⟨_, _, _, rfl⟩

/-- The second half of `LM_conn_connect` may start the connection. -/
theorem connConnectFinish_spec (c : Conn) (eventAdd : Bool) :
    ∃ io status error,
      (connConnectFinish c eventAdd).1 = { c with io := io, status := status, error := error } ∧
      (status = c.status ∨ status = .connecting) := by
  unfold connConnectFinish
  split
  · exact ⟨_, _, c.error, rfl, Or.inr rfl⟩
  · exact ⟨_, c.status, _, rfl, Or.inl rfl⟩

/-- `LM_conn_connect` as far as it runs under the lock. -/
theorem enterConnect_spec (lib : Mstdlib) (s : Sys) (net : NetOutcome) (who : Connector) :
    ∃ io tlsctx error status connecting, (enterConnect lib s net who).1 =
        { s with
          conn := { s.conn with io := io, tlsctx := tlsctx, error := error, status := status }
          connecting := connecting } ∧
      (status = s.conn.status ∨ status = .connecting) ∧
      (connecting = s.connecting ∨
        (enterConnect lib s net who).2 = true ∧ connecting = some who) := by
  obtain ⟨io, tlsctx, error, heq⟩ := connConnectBegin_spec lib s.conn net
  rcases hres : connConnectBegin lib s.conn net with ⟨c, progress⟩
  rw [hres] at heq
  simp only at heq
  unfold enterConnect
  rw [hres]
  cases progress with
  | failed => exact ⟨io, tlsctx, error, s.conn.status, s.connecting, by simp only [heq], Or.inl rfl,
      Or.inl rfl⟩
  | inCallback => exact ⟨io, tlsctx, error, s.conn.status, some who, by simp only [heq], Or.inl rfl,
      Or.inr ⟨rfl, rfl⟩⟩
  | register =>
    obtain ⟨io', status, error', hfinish, hstatus⟩ := connConnectFinish_spec c net.eventAdd
    refine ⟨io', tlsctx, error', status, s.connecting, ?_, ?_, Or.inl rfl⟩
    · simp only [hfinish]
      simp only [heq]
    · rw [heq] at hstatus
      exact hstatus

end Connect

/-- The actions of the event loop. -/
def Action.ofLoop : Action → Bool
  | .event _ | .resume | .deliver | .callbackReturn | .drain | .reconnect _ | .finish => true
  | _ => false

/-- A setter is none of them. -/
theorem Action.ofLoop_of_configures {a : Action} (h : a.configures = true) : a.ofLoop = false := by
  cases a <;> first | rfl | cases h

/-- What an action of the event loop does. -/
structure LoopEffect (lib : Mstdlib) (s s' : Sys) : Prop where
  link : Link s'
  store : StoreSteps lib s.conn.toTransStore s'.conn.toTransStore
  alive : s.conn.destroy = false → InternalSteps lib s.conn.toTransStore s'.conn.toTransStore ∧
    s'.conn.destroy = false ∧ s'.conn.freed = s.conn.freed
  status : s'.conn.status = s.conn.status ∨ s'.conn.status = .connected ∨
    (s'.conn.status = .disconnected ∧ s'.conn.transPending = []) ∨
    (s.conn.status = .connected ∧ s.conn.transPending = [] ∧ s'.conn.status = .idleTimeout) ∨
    s.pc = .reconnecting true
  reconnecting : s'.pc = .reconnecting true → s'.conn.status = .disconnected

/-- A locked piece of the handler keeps the control invariant. -/
theorem Piece.loopEffect {s : Sys} {r : Conn × Pc} (hpiece : Piece lib s.conn r.1)
    (hstop : StopsWell r) (hconnecting : s.connecting ≠ some .handler) :
    LoopEffect lib s { s with conn := r.1, pc := r.2 } where
  link := by
    have hbusy : r.2.busy = true := by
      rcases hstop with ⟨hpc | hpc, -⟩ | hpc | hpc <;> rw [hpc] <;> rfl
    refine ⟨fun h => ?_, fun _ => hpiece.inUse, hpiece.connected, fun h => ?_,
      fun h => absurd h hconnecting⟩
    · change r.2.busy = false at h
      rw [hbusy] at h
      cases h
    · change r.2 = _ ∨ r.2 = _ at h
      rcases hstop with ⟨-, hq⟩ | hpc | hpc
      · exact hq
      · rw [hpc] at h
        rcases h with h | h <;> cases h
      · rw [hpc] at h
        rcases h with h | h <;> cases h
  store := InternalSteps.storeSteps hpiece.steps
  alive hdestroy := ⟨hpiece.steps, hpiece.destroy.trans hdestroy, hpiece.freed⟩
  status := by
    rcases hpiece.status with h | h | h | h
    · exact Or.inl h
    · exact Or.inr (Or.inl h)
    · exact Or.inr (Or.inr (Or.inl h))
    · exact Or.inr (Or.inr (Or.inr (Or.inl h)))
  reconnecting h := by
    change r.2 = _ at h
    rcases hstop with ⟨hpc | hpc, -⟩ | hpc | hpc <;> rw [hpc] at h <;> cases h

/-- `LM_conn_destroy` outside a handler forgets the transactions. -/
theorem connDestroy_idle {c : Conn} (hidle : c.inUse = false) :
    (connDestroy c).toTransStore = c.toTransStore.freeAll ∧ (connDestroy c).status = c.status ∧
      (connDestroy c).inUse = false := by
  unfold connDestroy
  rw [if_neg (by simp [hidle])]
  exact ⟨rfl, rfl, hidle⟩

section Loop

variable {s : Sys}

/-- The first locked piece of the handler. -/
theorem handlerEnter_effect {event : IoEvent} {r : Conn × Pc} (hlink : Link s) (hrep : Rep s.conn.toTransStore)
    (hpc : s.pc = .idle) (henabled : eventEnabled s.conn event = true)
    (hr : handlerEnter lib s.conn event = some r) (hwho : s.connecting ≠ some .handler) :
    LoopEffect lib s { s with conn := r.1, pc := r.2 } := by
  have hquiet : s.conn.toTransStore.quiet := by
    intro e he
    rw [(hlink.rest (by rw [hpc]; rfl)).2.1] at he
    cases he
  obtain ⟨hpiece, hstop⟩ := handlerEnter_piece lib s.conn event r hrep hquiet henabled hr
  exact hpiece.loopEffect hstop hwho

/-- The piece of the handler after `LM_conn_cleanup_ping`. -/
theorem handlerResume_effect {pingEnd : PingEnd} (hlink : Link s) (hrep : Rep s.conn.toTransStore)
    (hpc : s.pc = .cleaning pingEnd) (hwho : s.connecting ≠ some .handler) : LoopEffect lib s { s with
      conn := (handlerResume lib s.conn pingEnd).1
      pc := (handlerResume lib s.conn pingEnd).2 } := by
  have hquiet : pingEnd ≠ .timeout → s.conn.toTransStore.quiet := fun hne => hlink.cleaning (by
    cases pingEnd with
    | disabled => exact Or.inr hpc
    | reply => exact Or.inl hpc
    | timeout => exact absurd rfl hne)
  obtain ⟨hpiece, hstop⟩ := handlerResume_piece lib s.conn pingEnd hrep (hlink.busy (by rw [hpc]; rfl)) hquiet
  exact hpiece.loopEffect hstop hwho

/-- The delivery of an event. -/
theorem deliver_effect {e : Event} {rest : List Event} (hlink : Link s) (hpc : s.pc = .delivering)
    (hevents : s.conn.events = e :: rest) (hwho : s.connecting ≠ some .handler) : LoopEffect lib s { s with
      conn := { s.conn with events := rest, trace := s.conn.trace ++ [.callback e] }
      pc := .callback } := by
  have hstep := @InternalStep.deliver lib s.conn.toTransStore e rest hevents
  refine ⟨.of_delivering (Or.inr rfl) (hlink.busy (by rw [hpc]; rfl)) (fun hst e' he' => ?_) hwho,
    .single (.internal _ _ hstep), fun hd => ⟨.single hstep, hd, rfl⟩, Or.inl rfl, nofun⟩
  exact hlink.connected hst e' (hevents ▸ List.mem_cons_of_mem e he')

/-- The return of the callback, after which a destroyed connection has no more events. -/
theorem callbackReturn_effect (hlink : Link s) (hpc : s.pc = .callback) (hwho : s.connecting ≠ some .handler) :
    LoopEffect lib s { s with
      conn := { s.conn with events := if s.conn.destroy then [] else s.conn.events }
      pc := .delivering } := by
  have hsteps : InternalSteps lib s.conn.toTransStore
      { s.conn.toTransStore with events := if s.conn.destroy then [] else s.conn.events } := by
    split
    · exact .single (.dropEvents _)
    · exact .refl
  refine ⟨.of_delivering (Or.inl rfl) (hlink.busy (by rw [hpc]; rfl)) (fun hst e he => ?_) hwho,
    InternalSteps.storeSteps hsteps, fun hd => ⟨hsteps, hd, rfl⟩, Or.inl rfl, nofun⟩
  change e ∈ (if s.conn.destroy then [] else s.conn.events) at he
  split at he
  · cases he
  · exact hlink.connected hst e he

/-- The drain. -/
theorem handlerDrain_effect (hempty : s.conn.events = []) (hwho : s.connecting ≠ some .handler) :
    LoopEffect lib s { s with conn := (handlerDrain lib s.conn).1, pc := (handlerDrain lib s.conn).2 } := by
  obtain ⟨c, timer, heq, hsteps, hevents, hdelay⟩ := drainDelayRm_spec lib s.conn.transDelayRm s.conn rfl
  simp only [handlerDrain, heq]
  refine ⟨.of_rest rfl rfl (hevents.trans hempty) hdelay fun h => absurd h hwho,
    InternalSteps.storeSteps hsteps, fun hd => ⟨hsteps, hd, rfl⟩, Or.inl rfl, fun h => ?_⟩
  simp only [Pc.reconnecting.injEq, decide_eq_true_eq] at h
  exact h.1

/-- The handler enters `LM_conn_connect`. -/
theorem reconnect_effect (hlink : Link s) (net : NetOutcome) (hpc : s.pc = .reconnecting true)
    (hwho : s.connecting ≠ some .handler) : LoopEffect lib s { (enterConnect lib s net .handler).1 with
      pc := if (enterConnect lib s net .handler).2 then .awaiting else .finishing } := by
  obtain ⟨io, tlsctx, error, status, connecting, heq, -, henters⟩ := enterConnect_spec lib s net .handler
  obtain ⟨hidle, hevents, hdelay⟩ := hlink.rest (by rw [hpc]; rfl)
  rw [heq]
  refine ⟨.of_rest ?_ hidle hevents hdelay fun h => ?_, .refl, fun hd => ⟨.refl, hd, rfl⟩,
    Or.inr (Or.inr (Or.inr (Or.inr hpc))), fun h => ?_⟩
  · dsimp only
    split <;> rfl
  · rcases henters with hsame | ⟨hin, -⟩
    · exact absurd (hsame ▸ h) hwho
    · exact if_pos hin
  · dsimp only at h
    split at h <;> cases h

/-- The end of the handler. -/
theorem finish_effect (hlink : Link s) (hpc : s.pc = .reconnecting false ∨ s.pc = .finishing)
    (hwho : s.connecting ≠ some .handler) : LoopEffect lib s { s with
      conn := if s.conn.destroy then connDestroy s.conn else s.conn
      pc := .idle } := by
  obtain ⟨hidle, hevents, hdelay⟩ := hlink.rest (by rcases hpc with hpc | hpc <;> rw [hpc] <;> rfl)
  cases hd : s.conn.destroy with
  | false =>
    exact ⟨.of_rest rfl hidle hevents hdelay fun h => absurd h hwho, .refl, fun _ => ⟨.refl, hd, rfl⟩,
      Or.inl rfl, nofun⟩
  | true =>
    obtain ⟨hstore, hstatus, hidle'⟩ := connDestroy_idle hidle
    have hevents' : (connDestroy s.conn).toTransStore.events = [] := by rw [hstore]; exact hevents
    have hdelay' : (connDestroy s.conn).toTransStore.transDelayRm = [] := by rw [hstore]; rfl
    refine ⟨.of_rest rfl hidle' hevents' hdelay' fun h => absurd h hwho, .single ?_, fun hd' => ?_,
      Or.inl hstatus, nofun⟩
    · change StoreStep lib s.conn.toTransStore (connDestroy s.conn).toTransStore
      rw [hstore]
      exact .destroy _
    · cases hd.symm.trans hd'

/-- Every action of the event loop keeps the control invariant and refines the store. -/
theorem sysStep_loop {s' : Sys} {a : Action} (hloop : a.ofLoop = true) (h : sysStep lib s a = some s')
    (hlink : Link s) (hrep : Rep s.conn.toTransStore) : LoopEffect lib s s' := by
  have hwho : ∀ {pc}, s.pc = pc → pc ≠ .awaiting → s.connecting ≠ some .handler := by
    rintro _ rfl hpc hc
    exact hpc (hlink.connecting hc)
  cases sysStep_effect h with
  | event event r hpc henabled hr => exact handlerEnter_effect hlink hrep hpc henabled hr (hwho hpc nofun)
  | resume pingEnd hpc => exact handlerResume_effect hlink hrep hpc (hwho hpc nofun)
  | deliver e rest hpc hevents => exact deliver_effect hlink hpc hevents (hwho hpc nofun)
  | callbackReturn hpc => exact callbackReturn_effect hlink hpc (hwho hpc nofun)
  | drain hpc hempty => exact handlerDrain_effect hempty (hwho hpc nofun)
  | reconnect net hpc => exact reconnect_effect hlink net hpc (hwho hpc nofun)
  | finish hpc => exact finish_effect hlink hpc (hpc.elim (hwho · nofun) (hwho · nofun))
  | configures a c hsets _ => cases hloop.symm.trans (Action.ofLoop_of_configures hsets)
  | transNew | transRunNew | transSetParam | transSetTimeout | transSend | transDelete | connConnect
  | connDisconnect | connDestroy | implicitConnect | connectFinish => cases hloop

end Loop

section Calls

/-- A change of the transactions that keeps the events and, outside a handler, the list of
deferred deletions. -/
theorem Link.setStore {s : Sys} (h : Link s) {c : Conn} (callers : ℕ)
    (hinUse : c.inUse = s.conn.inUse) (hstatus : c.status = .connected → s.conn.status = .connected)
    (hevents : c.events = s.conn.events)
    (hdelay : s.conn.inUse = false → c.transDelayRm = s.conn.transDelayRm) :
    Link { s with conn := c, callers := callers } where
  rest hpc := by
    obtain ⟨hidle, hnone, hempty⟩ := h.rest hpc
    exact ⟨hinUse.trans hidle, hevents.trans hnone, (hdelay hidle).trans hempty⟩
  busy hpc := hinUse.trans (h.busy hpc)
  connected hst e he := h.connected (hstatus hst) e (hevents ▸ he)
  cleaning hpc e he := h.cleaning hpc e (hevents ▸ he)
  connecting := h.connecting

/-- A caller creates a transaction. -/
theorem Link.created {s : Sys} (h : Link s) (t : Trans) : Link { s with conn := { s.conn with
    toTransStore := (s.conn.toTransStore.create t).log (.created s.conn.nextPtr .user) } } :=
  h.setStore s.callers rfl id (by simp [TransStore.log]) fun _ => by simp [TransStore.log]

/-- A caller enters `LM_conn_connect`. -/
theorem Link.entered {s : Sys} (h : Link s) (callers : ℕ) (net : NetOutcome) :
    Link (enterConnect lib { s with callers := callers } net .caller).1 ∧
      (enterConnect lib { s with callers := callers } net .caller).1.conn.toTransStore =
        s.conn.toTransStore := by
  obtain ⟨io, tlsctx, error, status, connecting, heq, hstatus, hwho⟩ :=
    enterConnect_spec lib { s with callers := callers } net .caller
  rw [heq]
  refine ⟨⟨h.rest, h.busy, fun hst => ?_, h.cleaning, fun hc => ?_⟩, rfl⟩
  · rcases hstatus with hsame | hup
    · exact h.connected (hsame ▸ hst)
    · cases hup.symm.trans hst
  · rcases hwho with hsame | ⟨-, hcaller⟩
    · exact h.connecting (hsame ▸ hc)
    · cases hcaller.symm.trans hc

/-- `LM_conn_connect` goes on after the creation callback. -/
theorem Link.connectFinished {s : Sys} (h : Link s) (eventAdd : Bool) {who : Connector}
    (hwho : s.connecting = some who) : Link { s with
        conn := (connConnectFinish s.conn eventAdd).1
        connecting := none
        pc := if who = .handler then .finishing else s.pc } ∧
      (connConnectFinish s.conn eventAdd).1.toTransStore = s.conn.toTransStore := by
  obtain ⟨io, status, error, heq, hstatus⟩ := connConnectFinish_spec s.conn eventAdd
  rw [heq]
  refine ⟨?_, rfl⟩
  cases who with
  | caller =>
    refine ⟨h.rest, h.busy, ?_, h.cleaning, nofun⟩
    rintro rfl
    exact h.connected (hstatus.resolve_right ConnStatus.noConfusion).symm
  | handler =>
    obtain ⟨hidle, hevents, hdelay⟩ := h.rest (by rw [h.connecting hwho]; rfl)
    exact .of_rest rfl hidle hevents hdelay nofun

/-- `LM_conn_disconnect` only closes. -/
theorem Link.disconnected {s : Sys} (h : Link s) : Link { s with conn := (connDisconnectConnlocked s.conn).1 } ∧
    (connDisconnectConnlocked s.conn).1.toTransStore = s.conn.toTransStore := by
  unfold connDisconnectConnlocked
  split
  · exact ⟨h, rfl⟩
  · split
    · exact ⟨h.setStore s.callers rfl (fun hst => by cases hst) rfl fun _ => rfl, rfl⟩
    · exact ⟨h, rfl⟩

/-- `LM_conn_destroy`, in a handler and outside. -/
theorem Link.destroyed {s : Sys} (h : Link s) : Link { s with conn := connDestroy s.conn } ∧
    StoreSteps lib s.conn.toTransStore (connDestroy s.conn).toTransStore := by
  by_cases hbusy : s.conn.inUse = true
  · unfold connDestroy
    rw [if_pos hbusy]
    exact ⟨h.setStore s.callers rfl id rfl fun _ => rfl, .refl⟩
  · rw [Bool.not_eq_true] at hbusy
    obtain ⟨hstore, hstatus, hidle⟩ := connDestroy_idle hbusy
    have hpc : s.pc.busy = false := by
      by_contra hne
      rw [Bool.not_eq_false] at hne
      cases hbusy.symm.trans (h.busy hne)
    have hempty := (h.rest hpc).2.2
    refine ⟨h.setStore s.callers (hidle.trans hbusy.symm) (fun hst => hstatus ▸ hst) ?_ fun _ => ?_, ?_⟩
    · rw [hstore]
      rfl
    · rw [hstore, hempty]
      rfl
    · rw [hstore]
      exact .single (.destroy _)

/-- Every action of a caller keeps the control invariant and refines the store. -/
theorem sysStep_call {s s' : Sys} {a : Action} (hcall : a.ofLoop = false)
    (h : sysStep lib s a = some s') (hlink : Link s) (hrep : Rep s.conn.toTransStore) :
    Link s' ∧ StoreSteps lib s.conn.toTransStore s'.conn.toTransStore := by
  have hsame : ∀ {s' : Sys}, Link s' ∧ s'.conn.toTransStore = s.conn.toTransStore →
      Link s' ∧ StoreSteps lib s.conn.toTransStore s'.conn.toTransStore :=
    fun ⟨hlink', hstore⟩ => ⟨hlink', hstore ▸ .refl⟩
  cases sysStep_effect h with
  | transNew draws c p hnew =>
    obtain ⟨draw, hdraw, -, rfl⟩ := transNew_spec hnew
    exact ⟨hlink.created _,
      .single (.create _ draw.val none (unusedDraw_free hdraw) draw.property.1 draw.property.2)⟩
  | transRunNew draws params c p hnew =>
    obtain ⟨draw, hdraw, -, rfl⟩ := transRunNew_spec hnew
    exact ⟨hlink.created _,
      .single (.create _ draw.val (some params) (unusedDraw_free hdraw) draw.property.1 draw.property.2)⟩
  | transSetParam p key value =>
    obtain ⟨heap, heq, hsteps⟩ := transSetParam_spec lib s.conn p key value
    rw [heq]
    exact ⟨hlink.setStore s.callers rfl id rfl fun _ => rfl, hsteps⟩
  | transSetTimeout p timeoutS =>
    obtain ⟨heap, heq, hsteps⟩ := transSetTimeout_spec lib s.conn p timeoutS
    rw [heq]
    exact ⟨hlink.setStore s.callers rfl id rfl fun _ => rfl, hsteps⟩
  | transSend p =>
    obtain ⟨st, outbuf, timer, trigger, heq, hsteps, hevents, hdelay⟩ :=
      transSend_spec lib s.conn p hrep hlink.connected
    rw [heq]
    exact ⟨hlink.setStore _ rfl id hevents fun _ => hdelay, hsteps⟩
  | transDelete p =>
    obtain ⟨st, timer, heq, hsteps, hevents, hdelay⟩ := transDelete_spec lib s.conn p
    rw [heq]
    exact ⟨hlink.setStore s.callers rfl id hevents hdelay, hsteps⟩
  | connConnect net => exact hsame (hlink.entered s.callers net)
  | connDisconnect => exact hsame hlink.disconnected
  | connDestroy => exact hlink.destroyed
  | configures a c _ hc =>
    obtain ⟨_, _, _, _, _, _, _, _, rfl, -⟩ := hc
    exact ⟨hlink.setStore s.callers rfl id rfl fun _ => rfl, .refl⟩
  | implicitConnect net _ => exact hsame (hlink.entered (s.callers - 1) net)
  | connectFinish eventAdd who hwho => exact hsame (hlink.connectFinished eventAdd hwho)
  | event | resume | deliver | callbackReturn | drain | reconnect | finish => cases hcall

end Calls

section Runs

open Foundation

/-- Every action keeps the control invariant and refines the store. -/
theorem sysStep_refines {s s' : Sys} {a : Action} (h : sysStep lib s a = some s') (hlink : Link s)
    (hrep : Rep s.conn.toTransStore) :
    Link s' ∧ StoreSteps lib s.conn.toTransStore s'.conn.toTransStore := by
  cases hkind : a.ofLoop with
  | true =>
    have heffect := sysStep_loop hkind h hlink hrep
    exact ⟨heffect.link, heffect.store⟩
  | false => exact sysStep_call hkind h hlink hrep

/-- A sequence of steps keeps the representation invariant. -/
theorem StoreSteps.rep {s s' : TransStore} (h : StoreSteps lib s s') (hrep : Rep s) : Rep s' :=
  invariant_of_steps (fun _ _ hstep hs => hstep.rep hs) h hrep

/-- What holds of a state that a run has reached: the control invariant, and a store that has been
reached by store steps. -/
structure Running (lib : Mstdlib) (s : Sys) : Prop where
  link : Link s
  steps : StoreSteps lib .empty s.conn.toTransStore

/-- The store of a reached state is well formed. -/
theorem Running.rep {s : Sys} (h : Running lib s) : Rep s.conn.toTransStore :=
  StoreSteps.rep h.steps Rep.empty

/-- The initial states. -/
theorem Running.init {s : Sys} (h : (monetra lib).init s) : Running lib s := by
  obtain ⟨host, port, -, -, rfl⟩ := h
  exact ⟨.of_rest rfl rfl rfl rfl fun h => (by cases h), .refl⟩

/-- Every action leads from one reached state to another. -/
theorem Running.step {s s' : Sys} {a : Action} (h : Running lib s)
    (hstep : sysStep lib s a = some s') : Running lib s' := by
  obtain ⟨hlink, hsteps⟩ := sysStep_refines hstep h.link h.rep
  exact ⟨hlink, h.steps.trans hsteps⟩

/-- The runs of the library refine the life of its transactions. -/
theorem running_of_reachable {s : Sys} (h : (monetra lib).Reachable s) : Running lib s :=
  System.Reachable.invariant (monetra lib) (fun _ => Running.init)
    (fun _ _ _ _ hs hstep => hs.step hstep) h

end Runs

end LibMonetra
