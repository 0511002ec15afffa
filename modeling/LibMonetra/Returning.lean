import LibMonetra.Chunking

/-!
# Every handler returns

A handler that has been entered is never stuck, and what the callbacks and the other threads do cannot
keep it going: from the delivery of its events on, it takes no more steps than the events that it has
queued account for.
-/

namespace LibMonetra

open Foundation

variable (lib : Mstdlib)

/-- Whether an action is a step of the running handler. -/
def Action.ofHandler : Action → Bool
  | .resume | .deliver | .callbackReturn | .drain | .reconnect _ | .finish => true
  | _ => false

/-- Whether the event loop may take an action while a handler runs. -/
def Action.duringHandler : Action → Bool
  | .event _ => false
  | _ => true

/-- The steps that a handler still has to take, once the ping has been cleaned up: two for every event, and
what follows the last one. -/
def Sys.stepsLeft (s : Sys) : ℕ :=
  match s.pc with
  | .idle | .cleaning _ => 0
  | .finishing | .reconnecting false => 1
  | .awaiting => 2
  | .reconnecting true => 3
  | .delivering => 2 * s.conn.events.length + 4
  | .callback => 2 * s.conn.events.length + 5

section Awaiting

variable {lib} {s s' : Sys} {a : Action}

/-- A handler that waits for the I/O creation callback waits for its own. -/
def Awaits (s : Sys) : Prop := s.pc = .awaiting → s.connecting = some .handler

/-- Nobody enters the I/O creation callback while there is an I/O object. -/
theorem enterConnect_connecting {net : NetOutcome} {who : Connector} (hio : s.conn.io.isSome = true) :
    (enterConnect lib s net who).1.connecting = s.connecting := by
  simp [enterConnect, connConnectBegin, hio]

/-- A call of the API that finds an I/O object leaves alone who is inside the I/O creation callback. -/
theorem sysStep_connecting (hstep : sysStep lib s a = some s') (hcalls : a.calls = true)
    (hio : s.conn.io.isSome = true) : s'.connecting = s.connecting := by
  cases sysStep_effect hstep with
  | connConnect net => exact enterConnect_connecting hio
  | implicitConnect net _ => exact enterConnect_connecting hio
  | event | resume | deliver | callbackReturn | drain | reconnect | finish | connectFinish => cases hcalls
  | transNew | transRunNew | transSetParam | transSetTimeout | transSend | transDelete | connDisconnect
  | connDestroy | configures => rfl

/-- The handler of a reconnection is the one inside the I/O creation callback. -/
theorem Awaits.step (h : Awaits s) (hstage : Stage s)
    (hstep : sysStep lib s a = some s') : Awaits s' := by
  intro hpc
  cases sysStep_walk hstep with
  | stays _ hcalls hsame =>
    have hwho := h (hsame.symm.trans hpc)
    have hio : s.conn.io.isSome = true := by
      cases hio : s.conn.io with
      | some io => rfl
      | none =>
        have hnone := hstage.opening.mpr (by simp [hio])
        rw [hwho] at hnone
        cases hnone
    exact (sysStep_connecting hstep hcalls hio).trans hwho
  | connected who eventAdd hwho hnext =>
    rw [hnext] at hpc
    split at hpc
    · cases hpc
    · rename_i hother
      exact absurd (Option.some.inj (hwho.symm.trans (h hpc))) hother
  | enters event r hidle henabled hr heq hnext => rcases hnext with hnext | ⟨_, hnext⟩ <;> simp [hnext] at hpc
  | resumes pingEnd hcleaning heq hnext => rcases hnext with hnext | ⟨_, hnext⟩ <;> simp [hnext] at hpc
  | delivers e rest hdelivering hevents heq => simp [heq] at hpc
  | returns hcallback heq => simp [heq] at hpc
  | drains hdelivering hevents heq => simp [heq, handlerDrain] at hpc
  | finishes hends heq => simp [heq] at hpc
  | reconnects net hreconnecting hnext =>
    have hlive := sysStep_live lib hstep
    simp only [sysStep, hlive, hreconnecting, Bool.false_eq_true, if_false, if_true, Option.some.injEq] at hstep
    subst hstep
    dsimp only at hpc ⊢
    unfold enterConnect at hpc ⊢
    split <;> simp_all

/-- In every run. -/
theorem awaits_of_reachable (h : (monetra lib).Reachable s) : Awaits s := by
  refine System.Reachable.invariant (monetra lib) ?_ (fun s a s' hs hawaits hstep => ?_) h
  · rintro s ⟨host, port, -, -, rfl⟩
    exact Pc.noConfusion
  · exact hawaits.step (stage_of_reachable hs (sysStep_live lib hstep)) hstep

end Awaiting

section Rank

variable {lib} {s s' : Sys} {a : Action}

/-- The next step of a handler can be taken. -/
theorem handlerAction_isSome (h : (monetra lib).Reachable s) (hlive : s.conn.freed = false) (hpc : s.pc ≠ .idle)
    (net : NetOutcome) : ∃ s', sysStep lib s (s.handlerAction net) = some s' := by
  refine Option.isSome_iff_exists.mp ?_
  have hwho := awaits_of_reachable h
  unfold Sys.handlerAction
  cases hcase : s.pc with
  | idle => exact absurd hcase hpc
  | cleaning pingEnd => simp [sysStep, hlive, hcase]
  | delivering => cases hevents : s.conn.events <;> simp [sysStep, hlive, hcase, hevents]
  | callback => simp [sysStep, hlive, hcase]
  | reconnecting request => cases request <;> simp [sysStep, hlive, hcase]
  | awaiting => simp [sysStep, hlive, hwho hcase]
  | finishing => simp [sysStep, hlive, hcase]

/-- A read event on a connection without a ping does not stop at one. -/
theorem readFrames_delivers {c : Conn} (hping : c.pingtxn = none) : (readFrames lib c).2 = .delivering := by
  obtain ⟨new, hend⟩ := readFrames_end lib c
  rcases hres : readFrames lib c with ⟨c', pc⟩
  rw [hres] at hend
  cases hend with
  | ping _ p t _ hp => simp [hping] at hp
  | wait | error => rfl

/-- A handler that has cleaned up the ping delivers its events. -/
theorem resume_delivers (hstep : sysStep lib s .resume = some s') : s'.pc = .delivering := by
  cases sysStep_walk hstep with
  | stays _ hcalls => cases hcalls
  | resumes pingEnd hpc heq =>
    rw [heq]
    cases pingEnd with
    | disabled | timeout => rfl
    | reply => exact readFrames_delivers (connEventSetConnected_pingtxn lib _)

/-- A step of a running handler leaves it fewer steps, and no other action leaves it more. -/
theorem stepsLeft_step (hrunning : Running lib s) (hpast : ∀ pingEnd, s.pc ≠ .cleaning pingEnd)
    (hduring : a.duringHandler = true) (hstep : sysStep lib s a = some s') :
    (∀ pingEnd, s'.pc ≠ .cleaning pingEnd) ∧ s'.stepsLeft + (if a.ofHandler then 1 else 0) ≤ s.stepsLeft := by
  have hsame : s'.pc = s.pc → (s.pc.busy = true → s'.conn.events = s.conn.events) → a.ofHandler = false →
      (∀ pingEnd, s'.pc ≠ .cleaning pingEnd) ∧ s'.stepsLeft + (if a.ofHandler then 1 else 0) ≤ s.stepsLeft := by
    intro hpc hevents hother
    refine ⟨fun pingEnd => hpc ▸ hpast pingEnd, ?_⟩
    unfold Sys.stepsLeft
    rw [hpc, hother]
    cases hcase : s.pc with
    | reconnecting request => cases request <;> simp
    | _ => simp_all [Pc.busy]
  cases sysStep_walk hstep with
  | stays _ hcalls hpc =>
    refine hsame hpc (fun hbusy => ?_) (by cases a <;> first | rfl | cases hcalls)
    refine (sysStep_calls hstep hrunning (Or.inl hcalls) ?_).2.2
    have hinUse := hrunning.link.busy hbusy
    cases a <;> simp_all [Action.destroys, Action.calls]
  | connected who eventAdd hwho hpc =>
    split at hpc
    · rename_i hown
      have hawaiting := hrunning.link.connecting (hown ▸ hwho)
      refine ⟨fun pingEnd => by simp [hpc], ?_⟩
      simp [Sys.stepsLeft, hpc, hawaiting, Action.ofHandler]
    · exact hsame hpc (fun _ => (sysStep_calls hstep hrunning (Or.inr (Or.inr ⟨_, rfl⟩)) rfl).2.2) rfl
  | enters => cases hduring
  | resumes pingEnd hpc => exact absurd hpc (hpast pingEnd)
  | delivers e rest hpc hevents heq =>
    subst heq
    refine ⟨fun _ => Pc.noConfusion, ?_⟩
    simp only [Sys.stepsLeft, hpc, hevents, Action.ofHandler, List.length_cons, if_true]
    omega
  | returns hpc heq =>
    subst heq
    refine ⟨fun _ => Pc.noConfusion, ?_⟩
    simp only [Sys.stepsLeft, hpc, Action.ofHandler, if_true]
    split <;> simp
  | drains hpc hevents heq =>
    subst heq
    refine ⟨fun _ => Pc.noConfusion, ?_⟩
    simp only [Sys.stepsLeft, hpc, hevents, handlerDrain, Action.ofHandler, if_true, List.length_nil]
    split <;> simp_all
  | reconnects net hpc hnext =>
    rcases hnext with hnext | hnext <;>
      exact ⟨fun _ => by simp [hnext], by simp [Sys.stepsLeft, hpc, hnext, Action.ofHandler]⟩
  | finishes hpc heq =>
    subst heq
    refine ⟨fun _ => Pc.noConfusion, ?_⟩
    rcases hpc with hpc | hpc <;> simp [Sys.stepsLeft, hpc, Action.ofHandler]

end Rank

/-- Every handler returns. Inside a handler the next step can always be taken; the clean-up of the ping takes
one step, and whatever the callbacks and the other threads do, the steps that follow it are bounded by the
events that have been queued. -/
theorem handler_returns {s : Sys} (h : (monetra lib).Reachable s) (hlive : s.conn.freed = false)
    (hpc : s.pc ≠ .idle) :
    (∀ net, ∃ s', sysStep lib s (s.handlerAction net) = some s' ∧
      ((∃ pingEnd, s.pc = .cleaning pingEnd) → s'.pc = .delivering)) ∧
    ((∀ pingEnd, s.pc ≠ .cleaning pingEnd) → ∀ actions s', (∀ a ∈ actions, a.duringHandler = true) →
      (monetra lib).run s actions = some s' → actions.countP Action.ofHandler ≤ s.stepsLeft) := by
  constructor
  · intro net
    obtain ⟨s', hstep⟩ := handlerAction_isSome h hlive hpc net
    refine ⟨s', hstep, fun ⟨pingEnd, hcleaning⟩ => ?_⟩
    rw [Sys.handlerAction, hcleaning] at hstep
    exact resume_delivers hstep
  · intro hpast actions s' hduring hrun
    have hrank := @System.countP_le_rank _ _ (monetra lib)
      (fun s => (monetra lib).Reachable s ∧ ∀ pingEnd, s.pc ≠ .cleaning pingEnd)
      Action.duringHandler Action.ofHandler Sys.stepsLeft
      (fun s a s' hs hok hstep =>
        have hless := stepsLeft_step (running_of_reachable hs.1) hs.2 hok hstep
        ⟨⟨hs.1.step hstep, hless.1⟩, hless.2⟩) _ _ ⟨h, hpast⟩ actions hduring hrun
    omega

/-- The handler of the approval, before it delivers its event. -/
def saleApproving : Sys := ((monetra reference).run saleSent (answerSale.take 1)).get (by decide)

/-- It takes four steps: two for the event, and two to return. -/
theorem handler_returns_sale :
    (answerSale.drop 1).countP Action.ofHandler ≤ saleApproving.stepsLeft ∧ saleApproving.stepsLeft = 6 := by
  have hrun : (monetra reference).run saleApproving (answerSale.drop 1) = some saleAnswered := by
    rfl
  obtain ⟨-, hbound⟩ := handler_returns reference
    (saleSent_reachable.run _ (answerSale.take 1) (Option.some_get _).symm :
      (monetra reference).Reachable saleApproving)
    (by decide) (by decide)
  exact ⟨hbound (fun pingEnd => by cases pingEnd <;> decide) _ _ (by decide) hrun, by decide⟩

end LibMonetra
