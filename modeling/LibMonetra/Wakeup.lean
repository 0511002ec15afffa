import LibMonetra.Reference
import LibMonetra.Stage

/-!
# The write wake-up

The library writes only when the event loop asks it to, which happens when the write trigger is
signalled. A monitor remembers whether somebody saw to `outbuf` since it was last empty: the trigger was
signalled while it existed, or a write was attempted. The only requests that nobody sees to are those
that go out with the connection itself when there is no ping, because the trigger does not exist yet.
-/

namespace LibMonetra

open Foundation

variable (lib : Mstdlib)

/-- The connection with its write trigger, if there is one, not signalled. -/
def Conn.unsignalled (c : Conn) : Conn := { c with writeTrigger := c.writeTrigger.map fun _ => false }

/-- Whether an action signals the write trigger, in `LM_trans_send` or in `LM_conn_event_set_connected`:
it is signalled afterwards if it was not before. -/
def signals (s : Sys) : Action → Bool
  | .transSend p => (transSend lib s.conn.unsignalled p).conn.writeTrigger == some true
  | .resume =>
    match s.pc with
    | .cleaning .reply | .cleaning .disabled =>
      (connEventSetConnected lib { s.conn.unsignalled with pingtxn := none }).writeTrigger == some true
    | _ => false
  | _ => false

/-- Whether an action attempts to write `outbuf` to the I/O object, in a write event or with the request
of a ping. -/
def attemptsWrite (s : Sys) : Action → Bool
  | .event (.write _) => decide (s.conn.outbuf ≠ [])
  | .event (.connected _ _) => !s.conn.disablePing
  | _ => false

/-- The library with a monitor that says whether the trigger was signalled or a write was attempted
since `outbuf` was last empty. -/
def watched : System (Sys × Bool) Action :=
  (monetra lib).monitor false fun s a _ seen =>
    (seen && decide (s.conn.outbuf ≠ [])) || signals lib s a || attemptsWrite s a

/-- Between two handler runs, somebody has seen to what an established connection has to write. -/
def SeenTo (w : Sys × Bool) : Prop :=
  w.1.pc = .idle → w.1.conn.status = .connected → w.1.conn.outbuf ≠ [] → w.2 = true

/-- No request is waiting when a connection is established without a ping. -/
def nothingWaits (w : Sys × Bool) : Action → Bool
  | .resume => decide (w.1.pc = .cleaning .disabled → w.1.conn.transReady = [])
  | _ => true

section Signal

variable (c : Conn) (trigger : Option Bool)

/-- Submitting requests does not depend on the write trigger. -/
theorem sendMessagesLoop_trigger (ready : List Ptr) :
    sendMessagesLoop lib ready { c with writeTrigger := trigger } =
      { sendMessagesLoop lib ready c with writeTrigger := trigger } := by
  induction ready generalizing c with
  | nil => rfl
  | cons p rest ih =>
    have hmark : markPending { c with transReady := rest, writeTrigger := trigger } p =
        { markPending { c with transReady := rest } p with writeTrigger := trigger } := by
      unfold markPending
      split <;> simp_all
    have hstructure : ∀ d : Conn, transStructure lib { d with writeTrigger := trigger } p =
        { transStructure lib d p with writeTrigger := trigger } := by
      intro d
      unfold transStructure
      split <;> simp_all
    have harm : ∀ d : Conn, armTimeoutTimer { d with writeTrigger := trigger } p =
        { armTimeoutTimer d p with writeTrigger := trigger } := by
      intro d
      unfold armTimeoutTimer
      split
      · simp_all
      · split <;> simp_all
    simp only [sendMessagesLoop, hmark, hstructure, harm]
    generalize armTimeoutTimer (transStructure lib (markPending { c with transReady := rest } p) p) p = d
    exact ih { d with transPending := d.transPending ++ [p] }

/-- What `LM_trans_send_messages` does on a connection that is up. -/
theorem transSendMessages_connected (hup : c.status = .connected) :
    let sent := sendMessagesLoop lib c.transReady c
    (transSendMessages lib c).1 =
      triggerSignal (timerStop sent (sent.transPending ≠ [])) (c.outbuf = [] ∧ sent.outbuf ≠ []) := by
  unfold transSendMessages
  rw [if_neg (by simp [hup]), if_neg (by simp [hup])]

/-- On a connection that is up, `LM_trans_send_messages` signals the trigger when `outbuf` was empty and
no longer is. -/
theorem transSendMessages_trigger (hup : c.status = .connected) :
    (transSendMessages lib { c with writeTrigger := trigger }).1.writeTrigger =
      if c.outbuf = [] ∧ (transSendMessages lib c).1.outbuf ≠ [] then trigger.map fun _ => true
      else trigger := by
  rw [transSendMessages_connected lib c hup,
    transSendMessages_connected lib { c with writeTrigger := trigger } hup]
  simp only [sendMessagesLoop_trigger]
  rfl

/-- `LM_conn_event_set_connected` signals the trigger when `outbuf` was empty and no longer is. -/
theorem connEventSetConnected_trigger :
    (connEventSetConnected lib { c with writeTrigger := trigger }).writeTrigger =
      if c.outbuf = [] ∧ (connEventSetConnected lib c).outbuf ≠ [] then trigger.map fun _ => true
      else trigger :=
  transSendMessages_trigger lib { c with
    toTransStore := c.toTransStore.connEventAdd .connConnected none
    status := .connected } trigger rfl

end Signal

section Trigger

variable {lib : Mstdlib} {s s' : Sys} {a : Action}

/-- An I/O object that is up has a write trigger, except while a connection without a ping is being
established. -/
def Triggered (s : Sys) : Prop :=
  s.conn.io.any Io.up = true → s.conn.writeTrigger ≠ none ∨ s.pc = .cleaning .disabled

/-- A read event keeps the write trigger of the connection, or gives the connection up. -/
theorem ReadEnd.trigger {c : Conn} {new : List Obs} {r : Conn × Pc} (h : ReadEnd lib c new r)
    (hbusy : c.inUse = true) :
    (r.1.writeTrigger = c.writeTrigger ∧ r.1.outbuf = c.outbuf) ∨ r.1.io = none ∧ r.1.outbuf = [] := by
  rcases h.shape hbusy with ⟨_, _, _, heq, -⟩ | ⟨-, _, _, heq⟩
  · rw [heq]
    exact Or.inl ⟨rfl, rfl⟩
  · rw [heq]
    exact Or.inr ⟨rfl, rfl⟩

/-- An established connection has the trigger that it had before. -/
theorem connEventSetConnected_kept_trigger (lib : Mstdlib) (c : Conn) (h : c.writeTrigger ≠ none) :
    (connEventSetConnected lib c).writeTrigger ≠ none := by
  rw [connEventSetConnected_trigger lib c c.writeTrigger]
  split
  · simpa using h
  · exact h

/-- Every action keeps the write trigger where it is needed. -/
theorem Triggered.move (h : Triggered s) (hstage : Stage s) (hlink : Link s)
    (hmove : Move lib s s' a) : Triggered s' := by
  have hidle : s.pc = .idle → s.conn.io.any Io.up = true → s.conn.writeTrigger ≠ none := by
    intro hpc hup
    refine (h hup).resolve_right ?_
    rw [hpc]
    exact Pc.noConfusion
  intro hup'
  cases hmove with
  | aside _ new _ haside =>
    rw [haside.io] at hup'
    rw [haside.trigger]
    exact (h hup').imp id (haside.cleaning .disabled).mpr
  | accepted p t hne ht hst heq =>
    subst heq
    exact h hup'
  | sent p t hconnected ht hst heq =>
    subst heq
    obtain ⟨_, _, _, more, _, heq, -, -⟩ := transSendMessages_shape lib { s.conn with
      toTransStore :=
        (s.conn.toTransStore.move p t { t with status := .ready }).log (.accepted p) } hconnected
    rw [heq] at hup' ⊢
    refine (h hup').imp (fun hsome => ?_) id
    simp only
    split
    · simpa using hsome
    · exact hsome
  | refused _ tlsctx error callers pc _ hpc heq =>
    subst heq
    rcases hpc with rfl | ⟨hpc, rfl⟩
    · exact h hup'
    · refine (h hup').imp id fun hc => ?_
      rw [hpc] at hc
      cases hc
  | opened _ who io tlsctx error callers pc _ hnone hreg hdead hpc heq =>
    subst heq
    simp [hdead] at hup'
  | dialed _ io tlsctx error callers pc _ hnone hreg hdead hpc heq =>
    subst heq
    simp [hdead] at hup'
  | registered who hwho heq =>
    subst heq
    obtain ⟨io, hio, -, hdead⟩ := hstage.of_connecting (by simp [hwho])
    simp [hio, hdead] at hup'
  | dropped who error hwho heq =>
    subst heq
    cases hup'
  | disconnecting io hconnected hio heq =>
    subst heq
    exact h (by simpa [hio] using hup')
  | idled hpc hconnected hpending heq =>
    subst heq
    exact Or.inl (hidle hpc (hstage.proved (by simp [hconnected]) (by simp [hconnected])).1)
  | pinged draws written draw hpc hio hping hdraw heq =>
    subst heq
    exact Or.inl (Option.some_ne_none _)
  | unpinged draws written hpc hio hping heq =>
    subst heq
    exact Or.inr rfl
  | failed failure text error hpc hreg heq =>
    subst heq
    simp at hup'
  | read chunk new r hpc hup hend heq =>
    subst heq
    rcases hend.trigger rfl with ⟨htrigger, -⟩ | ⟨hnone, -⟩
    · exact Or.inl (htrigger ▸ hidle hpc hup)
    · simp [hnone] at hup'
  | wrote written hpc hup heq =>
    subst heq
    exact Or.inl (hidle hpc hup)
  | expired hpc htimer hst heq =>
    subst heq
    obtain ⟨st, heq, -, -, -⟩ := connCleanupPing_shape lib { s.conn with inUse := true } rfl
    rw [heq] at hup' ⊢
    exact Or.inl (hidle hpc hup')
  | unguarded hpc heq =>
    subst heq
    exact Or.inl (Option.some_ne_none _)
  | proved new r hpc hend heq =>
    subst heq
    have hsome : s.conn.writeTrigger ≠ none :=
      (h (hstage.cleaning .reply hpc).1).resolve_right (by simp [hpc])
    have hbusy := connEventSetConnected_inUse lib { s.conn with pingtxn := none }
    rcases hend.trigger (hbusy.trans (hlink.busy (by rw [hpc]; rfl))) with ⟨htrigger, -⟩ | ⟨hnone, -⟩
    · exact Or.inl (htrigger ▸
        connEventSetConnected_kept_trigger lib { s.conn with pingtxn := none } hsome)
    · simp [hnone] at hup'
  | unproved error hpc heq =>
    subst heq
    simp at hup'
  | destroyed a pc hdestroys hidle' hpc heq =>
    subst heq
    simp [connDestroy, hidle'] at hup'

/-- A call of `LM_trans_send` that puts the first bytes into `outbuf` signals the trigger. -/
theorem transSend_signals {c : Conn} {p : Ptr} (hup : c.status = .connected)
    (hempty : c.outbuf = []) (hsome : c.writeTrigger ≠ none)
    (hsent : (transSend lib c p).conn.outbuf ≠ []) :
    (transSend lib c.unsignalled p).conn.writeTrigger = some true := by
  unfold transSend at hsent ⊢
  simp only [Conn.unsignalled] at hsent ⊢
  cases ht : c.heap p with
  | none =>
    simp only [ht] at hsent
    exact absurd hempty hsent
  | some t =>
    simp only [ht] at hsent ⊢
    by_cases hrefused : t.status ≠ .new ∨ t.numParams = 0
    · rw [if_pos hrefused] at hsent
      exact absurd hempty hsent
    · rw [if_neg hrefused] at hsent ⊢
      have htrigger := transSendMessages_trigger lib { c with
        heap := Function.update c.heap p (some { t with status := .ready })
        transNew := c.transNew.erase p
        transReady := c.transReady ++ [p]
        trace := c.trace ++ [.accepted p] } (c.writeTrigger.map fun _ => false) hup
      rw [htrigger, if_pos ⟨hempty, hsent⟩]
      obtain ⟨b, hb⟩ := Option.ne_none_iff_exists'.mp hsome
      simp [hb]

/-- An action that puts the first bytes into `outbuf` signals the trigger or attempts to write, unless
requests go out with a connection that needs no ping. -/
theorem seen_of_first_bytes (h : Triggered s) (hstage : Stage s) (hrunning : Running lib s)
    (hstep : sysStep lib s a = some s')
    (hnothing : a = .resume → s.pc = .cleaning .disabled → s.conn.transReady = [])
    (hempty : s.conn.outbuf = []) (hfirst : s'.conn.outbuf ≠ []) :
    signals lib s a = true ∨ attemptsWrite s a = true := by
  have hfree := sysStep_live lib hstep
  cases sysStep_move hstep hrunning with
  | aside _ new _ haside => exact absurd (haside.outbuf.trans hempty) hfirst
  | accepted p t hne ht hst heq =>
    subst heq
    exact absurd hempty hfirst
  | sent p t hconnected ht hst heq =>
    have hup := (hstage.proved (by simp [hconnected]) (by simp [hconnected])).1
    have hsome : s.conn.writeTrigger ≠ none := by
      refine (h hup).resolve_right fun hpc => ?_
      have hconnecting := (hstage.cleaning .disabled hpc).2
      rw [hconnected] at hconnecting
      cases hconnecting
    unfold sysStep at hstep
    rw [if_neg (by simp [hfree])] at hstep
    obtain rfl := Option.some.inj hstep
    exact Or.inl (beq_iff_eq.mpr (transSend_signals hconnected hempty hsome hfirst))
  | refused _ tlsctx error callers pc _ hpc heq =>
    subst heq
    exact absurd hempty hfirst
  | opened _ who io tlsctx error callers pc _ hnone hreg hdead hpc heq =>
    subst heq
    exact absurd hempty hfirst
  | dialed _ io tlsctx error callers pc _ hnone hreg hdead hpc heq =>
    subst heq
    exact absurd hempty hfirst
  | registered who hwho heq =>
    subst heq
    exact absurd hempty hfirst
  | dropped who error hwho heq =>
    subst heq
    exact absurd hempty hfirst
  | disconnecting io hconnected hio heq =>
    subst heq
    exact absurd hempty hfirst
  | idled hpc hconnected hpending heq =>
    subst heq
    exact absurd hempty hfirst
  | pinged draws written draw hpc hio hping hdraw heq =>
    exact Or.inr (by simp [attemptsWrite, hping])
  | unpinged draws written hpc hio hping heq =>
    subst heq
    obtain ⟨st, heq, -, -, -⟩ := connCleanupPing_shape lib { s.conn with
      inUse := true
      io := s.conn.io.map fun io => { io with up := true } } rfl
    rw [heq] at hfirst
    exact absurd hempty hfirst
  | failed failure text error hpc hreg heq =>
    subst heq
    exact absurd (connEventHandleConnError_outbuf _ _) hfirst
  | read chunk new r hpc hup hend heq =>
    subst heq
    rcases hend.trigger rfl with ⟨-, houtbuf⟩ | ⟨-, houtbuf⟩
    · exact absurd (houtbuf.trans hempty) hfirst
    · exact absurd houtbuf hfirst
  | wrote written hpc hup heq =>
    subst heq
    exact absurd (by simp [hempty]) hfirst
  | expired hpc htimer hst heq =>
    subst heq
    obtain ⟨st, heq, -, -, -⟩ := connCleanupPing_shape lib { s.conn with inUse := true } rfl
    rw [heq] at hfirst
    exact absurd hempty hfirst
  | unguarded hpc heq =>
    subst heq
    obtain ⟨_, _, _, more, _, heq, hmore, -⟩ :=
      connEventSetConnected_shape lib { s.conn with pingtxn := none }
    rw [heq, hmore (hnothing rfl hpc)] at hfirst
    exact absurd (by simp [hempty]) hfirst
  | proved new r hpc hend heq =>
    subst heq
    have hsome : s.conn.writeTrigger ≠ none :=
      (h (hstage.cleaning .reply hpc).1).resolve_right (by simp [hpc])
    have hbusy := connEventSetConnected_inUse lib { s.conn with pingtxn := none }
    have hsent : (connEventSetConnected lib { s.conn with pingtxn := none }).outbuf ≠ [] := by
      rcases hend.trigger (hbusy.trans (hrunning.link.busy (by rw [hpc]; rfl))) with
        ⟨-, houtbuf⟩ | ⟨-, houtbuf⟩
      · exact houtbuf ▸ hfirst
      · exact absurd houtbuf hfirst
    have htrigger := connEventSetConnected_trigger lib { s.conn with pingtxn := none }
      (s.conn.writeTrigger.map fun _ => false)
    rw [if_pos ⟨hempty, hsent⟩] at htrigger
    obtain ⟨b, hb⟩ := Option.ne_none_iff_exists'.mp hsome
    refine Or.inl ?_
    simp only [signals, hpc, Conn.unsignalled, beq_iff_eq]
    rw [htrigger, hb]
    rfl
  | unproved error hpc heq =>
    subst heq
    exact absurd (connEventHandleConnError_outbuf _ .error) hfirst
  | destroyed a pc hdestroys hidle hpc heq =>
    subst heq
    simp [connDestroy, hidle] at hfirst

end Trigger

section Runs

variable {lib : Mstdlib}

/-- The invariant behind it: the trigger is there when it is needed, and somebody has seen to whatever
`outbuf` holds. -/
structure Attended (w : Sys × Bool) : Prop where
  triggered : Triggered w.1
  seen : w.1.conn.outbuf ≠ [] → w.2 = true

/-- Every action keeps it, unless requests go out with a connection that needs no ping. -/
theorem Attended.step {w w' : Sys × Bool} {a : Action} (h : Attended w) (hstage : Stage w.1)
    (hrunning : Running lib w.1) (hstep : (watched lib).step w a = some w')
    (hok : nothingWaits w a = true) : Attended w' := by
  obtain ⟨hnext, hseen⟩ := System.monitor_step (monetra lib) hstep
  refine ⟨h.triggered.move hstage hrunning.link (sysStep_move hnext hrunning), fun hbytes => ?_⟩
  rw [hseen]
  simp only [Bool.or_eq_true, Bool.and_eq_true, decide_eq_true_eq]
  by_cases hempty : w.1.conn.outbuf = []
  · have hnothing : a = .resume → w.1.pc = .cleaning .disabled → w.1.conn.transReady = [] := by
      rintro rfl
      exact of_decide_eq_true hok
    exact (seen_of_first_bytes h.triggered hstage hrunning hnext hnothing hempty hbytes).elim
      (fun hsignals => Or.inl (Or.inr hsignals)) Or.inr
  · exact Or.inl (Or.inl ⟨h.seen hempty, hempty⟩)

/-- The runs in which no request is waiting when a connection is established without a ping. -/
def promptly (lib : Mstdlib) : System (Sys × Bool) Action := (watched lib).restrict nothingWaits

/-- In every such run, somebody has seen to what an established connection has to write. -/
theorem promptly_seenTo (lib : Mstdlib) (w : Sys × Bool) (h : (promptly lib).Reachable w) :
    SeenTo w := by
  have hattended : Attended w := by
    refine System.Reachable.invariant (promptly lib) (P := Attended) ?_ ?_ h
    · rintro ⟨s, b⟩ ⟨⟨host, port, -, -, rfl⟩, -⟩
      exact ⟨fun hup => by simp [connInit] at hup, fun hbytes => absurd rfl hbytes⟩
    · intro w a w' hw hattended hstep
      obtain ⟨hok, hstep⟩ := (watched lib).restrict_step hstep
      have hreached : (monetra lib).Reachable w.1 :=
        System.Reachable.of_monitor _ (hw.of_restrict (watched lib))
      have hfree := sysStep_live lib ((monetra lib).monitor_step hstep).1
      exact hattended.step (stage_of_reachable hreached hfree) (running_of_reachable hreached) hstep hok
  exact fun _ _ => hattended.seen

end Runs

section Runs

/-- The monitor at the start. -/
theorem watched_init (lib : Mstdlib) : (watched lib).init (started, false) :=
  ⟨started_init lib, rfl⟩

/-- The sale goes out with the answer of the ping, through a signalled trigger; a second sale, after the
first has been written, through another one. -/
def sendTwice : List Action :=
  sendSale ++ [.event (.write 100), .drain, .finish, .transNew [pingDraw],
    .transSetParam 2 (ascii "action") (some (ascii "sale")), .transSend 2]

/-- The library with the second sale in `outbuf`. -/
def secondSent : Sys × Bool := ((promptly reference).run (started, false) sendTwice).get (by decide)

/-- This state is reachable. -/
theorem secondSent_reachable : (promptly reference).Reachable secondSent :=
  System.reachable_get (promptly reference) (watched_init reference) sendTwice _

/-- The second sale is going to be written. -/
theorem promptly_seenTo_secondSent :
    secondSent.1.pc = .idle ∧ secondSent.1.conn.status = .connected ∧
      secondSent.1.conn.outbuf ≠ [] ∧ SeenTo secondSent :=
  ⟨by decide, by decide, by decide, promptly_seenTo reference secondSent secondSent_reachable⟩

/-- Without a ping, a sale that waits for its connection goes out before the write trigger exists. -/
def sendUnpinged : List Action :=
  [.connDisablePing, .transNew [saleDraw], .transSetParam 0 (ascii "action") (some (ascii "sale")),
    .transSend 0, .implicitConnect openNet, .event (.connected [] 0), .resume, .deliver,
    .callbackReturn, .drain, .finish]

/-- The library with a sale in `outbuf` that nobody sees to. -/
def saleUnseen : Sys × Bool := ((watched reference).run (started, false) sendUnpinged).get (by decide)

/-- This state is reachable. -/
theorem saleUnseen_reachable : (watched reference).Reachable saleUnseen :=
  System.reachable_get (watched reference) (watched_init reference) sendUnpinged _

/-- The wake-up of this sale is lost. -/
theorem watched_not_seenTo : ¬∀ w, (watched reference).Reachable w → SeenTo w := by
  intro h
  have hseen := h saleUnseen saleUnseen_reachable (by decide) (by decide) (by decide)
  exact absurd hseen (by decide)

end Runs

end LibMonetra
