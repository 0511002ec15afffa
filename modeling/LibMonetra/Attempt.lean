import LibMonetra.Reference
import LibMonetra.Stage
import LibMonetra.Walk

/-!
# Requests that wait for a connection

A request that is accepted while the connection is down waits for an attempt to connect. An attempt that
fails after its I/O object was registered is reported for every request that waits. An attempt that
`LM_conn_connect` gives up before is not, and the two callers inside the library ignore its result.
-/

namespace LibMonetra

open Foundation

variable (lib : Mstdlib)

/-- Whether an action starts an attempt to connect: it enters `LM_conn_connect` and finds no I/O
object. -/
def Action.attempts (s : Sys) (a : Action) : Bool := a.connects && s.conn.io.isNone

/-- The library with a monitor that says where in the record the last attempt began. -/
def attempted : System (Sys × ℕ) Action :=
  (monetra lib).monitor 0 fun s a _ mark => if a.attempts s then s.conn.trace.length else mark

/-- The connection exists, and nobody is inside the library. -/
structure AtRest (s : Sys) : Prop where
  alive : s.conn.freed = false
  pc : s.pc = .idle
  callers : s.callers = 0
  connecting : s.connecting = none

/-- No request is stranded: an established connection has sent all of them, and each one that waits has
an I/O object, or was reported since the last attempt began. -/
structure Unstranded (w : Sys × ℕ) : Prop where
  sent : w.1.conn.status = .connected → w.1.conn.transReady = []
  dealt : ∀ p ∈ w.1.conn.transReady, w.1.conn.io ≠ none ∨
    .queued ⟨.transNoconnect, some p⟩ ∈ w.1.conn.trace.drop w.2

/-- Whether the I/O layer ends an attempt before its I/O object is handed to a callback or
registered. -/
def NetOutcome.refuses (c : Conn) (net : NetOutcome) : Bool :=
  net.netCreate.isSome || (c.mode == .tls && net.tlsAdd.isSome) || (!c.iocreateCb && !net.eventAdd)

/-- Whether an attempt fails before `LM_conn_connect` returns. -/
def Action.failsAtOnce (s : Sys) : Action → Bool
  | .connConnect net | .implicitConnect net | .reconnect net => s.conn.io.isNone && net.refuses s.conn
  | .connectFinish eventAdd => !eventAdd
  | _ => false

/-- No attempt fails before `LM_conn_connect` returns while a request waits. -/
def noneRefused (w : Sys × ℕ) (a : Action) : Bool :=
  !a.failsAtOnce w.1 || decide (w.1.conn.transReady = [])

/-- The runs in which every attempt that fails at once fails nobody. -/
def accommodating : System (Sys × ℕ) Action := (attempted lib).restrict noneRefused

section Step

variable {lib : Mstdlib} {s s' : Sys} {a : Action}

/-- An attempt that does not fail at once has an I/O object. -/
theorem enterConnect_io (s : Sys) {net : NetOutcome} (who : Connector) (hnone : s.conn.io = none)
    (hok : net.refuses s.conn = false) : (enterConnect lib s net who).1.conn.io ≠ none := by
  simp only [NetOutcome.refuses, Bool.or_eq_false_iff] at hok
  obtain ⟨⟨hcreate, htls⟩, hadd⟩ := hok
  have hbegin : ∃ tlsctx error io, connConnectBegin lib s.conn net =
      ({ s.conn with tlsctx := tlsctx, error := error, io := some io },
        if s.conn.iocreateCb then .inCallback else .register) := by
    unfold connConnectBegin
    simp only [hnone, Option.isSome_none, Bool.false_eq_true, if_false]
    rw [show net.netCreate = none by simpa using hcreate]
    cases hmode : s.conn.mode with
    | ip => exact ⟨_, _, _, rfl⟩
    | tls =>
      rw [show net.tlsAdd = none by simpa [hmode] using htls]
      exact ⟨_, _, _, rfl⟩
  obtain ⟨tlsctx, error, io, hbegin⟩ := hbegin
  unfold enterConnect
  rw [hbegin]
  by_cases hcb : s.conn.iocreateCb = true
  · simp [hcb]
  · have hadd' : net.eventAdd = true := by simpa [hcb] using hadd
    simp [hcb, connConnectFinish, hadd']

/-- Every attempt to connect that does not fail at once has an I/O object afterwards. -/
theorem sysStep_connects (h : sysStep lib s a = some s') (hconnects : a.connects = true)
    (hnone : s.conn.io = none) (hok : a.failsAtOnce s = false) : s'.conn.io ≠ none := by
  cases sysStep_effect h with
  | connConnect net => exact enterConnect_io s .caller hnone (by simpa [Action.failsAtOnce, hnone] using hok)
  | implicitConnect net _ =>
    exact enterConnect_io _ .caller hnone (by simpa [Action.failsAtOnce, hnone] using hok)
  | reconnect net _ => exact enterConnect_io s .handler hnone (by simpa [Action.failsAtOnce, hnone] using hok)
  | configures a c hsets _ => cases hconnects.symm.trans (Action.connects_of_configures hsets)
  | _ => cases hconnects

/-- A read event leaves the I/O object alone, or goes on to deliver the end of the connection. -/
theorem ReadEnd.io {c : Conn} {new : List Obs} {r : Conn × Pc} (h : ReadEnd lib c new r)
    (hbusy : c.inUse = true) : r.1.io = c.io ∨ r.2 = .delivering := by
  rcases h.shape hbusy with ⟨_, _, _, heq, -⟩ | ⟨hdelivering, -⟩
  · rw [heq]
    exact Or.inl rfl
  · exact Or.inr hdelivering

/-- A handler that has not drained yet looks for requests that wait. -/
def Pc.looks : Pc → Bool
  | .delivering | .callback | .reconnecting true => true
  | _ => false

/-- A request that waits has an I/O object, or somebody is about to enter `LM_conn_connect`. -/
def Expected (s : Sys) : Prop :=
  s.conn.transReady ≠ [] → s.conn.io = none → s.callers ≠ 0 ∨ s.pc.looks = true

/-- An action that leaves the connection alone keeps the handler on its way. -/
theorem looks_of_walk (hstage : Stage s) (hnone : s.conn.io = none) (hready : s'.conn.transReady ≠ [])
    (hstatus : s'.conn.status = s.conn.status) (hwalk : Walk lib s s' a) (hconnects : a.connects = false)
    (h : s.pc.looks = true) : s'.pc.looks = true := by
  cases hwalk with
  | stays _ hcalls hpc => rw [hpc]; exact h
  | connected who eventAdd hwho hpc =>
    obtain ⟨io, hio, -⟩ := hstage.of_connecting (by simp [hwho])
    rw [hnone] at hio
    cases hio
  | enters event r hpc henabled hr heq hpc' => simp [hpc, Pc.looks] at h
  | resumes pingEnd hpc heq hpc' => simp [hpc, Pc.looks] at h
  | delivers e rest hpc hevents heq => rw [heq]; rfl
  | returns hpc heq => rw [heq]; rfl
  | drains hpc hevents heq =>
    have hdown : s'.conn.status = .disconnected := hstatus.trans (hstage.of_none hnone).1
    rw [heq] at hdown hready ⊢
    have hpair : (handlerDrain lib s.conn).2 = .reconnecting true := by
      simp only [handlerDrain, Pc.reconnecting.injEq, decide_eq_true_eq]
      exact ⟨hdown, hready⟩
    rw [hpair]
    rfl
  | reconnects net hpc hpc' => cases hconnects
  | finishes hpc heq => rcases hpc with hpc | hpc <;> simp [hpc, Pc.looks] at h

/-- Every action keeps somebody on the way to `LM_conn_connect`, unless an attempt fails at once while a
request waits. -/
theorem Expected.step (h : Expected s) (hstage : Stage s) (hrunning : Running lib s)
    (hstep : sysStep lib s a = some s')
    (hok : a.failsAtOnce s = true → s.conn.transReady = []) : Expected s' := by
  intro hready hnone
  have hsucceeds : s.conn.transReady ≠ [] → a.failsAtOnce s = false := fun hne => by
    by_contra hfails
    exact hne (hok (by simpa using hfails))
  have hup : s.conn.io.any Io.up = true → s.conn.io ≠ none := by
    intro hup hio
    simp [hio] at hup
  cases sysStep_move hstep hrunning with
  | aside _ new _ haside =>
    have hready₀ : s.conn.transReady ≠ [] := fun hempty =>
      hready (List.sublist_nil.mp (hempty ▸ haside.ready))
    have hnone₀ : s.conn.io = none := haside.io ▸ hnone
    rw [haside.callers]
    refine (h hready₀ hnone₀).imp id fun hlooks => looks_of_walk hstage hnone₀ hready
      haside.status (sysStep_walk hstep) ?_ hlooks
    by_contra hconnects
    exact sysStep_connects hstep (by simpa using hconnects) hnone₀ (hsucceeds hready₀) hnone
  | accepted p t hne ht hst heq =>
    subst heq
    left
    simp [(hstage.of_none hnone).1]
  | sent p t hconnected ht hst heq =>
    subst heq
    obtain ⟨_, _, _, _, _, heq, -, -⟩ := transSendMessages_shape lib { s.conn with
      toTransStore :=
        (s.conn.toTransStore.move p t { t with status := .ready }).log (.accepted p) } hconnected
    rw [heq] at hready
    exact absurd rfl hready
  | refused _ tlsctx error callers pc hconnects hpc heq =>
    refine absurd hnone (sysStep_connects hstep hconnects ?_ (hsucceeds ?_))
    · rw [heq] at hnone
      exact hnone
    · rw [heq] at hready
      exact hready
  | opened _ who io tlsctx error callers pc _ hnone₀ hreg hdead hpc heq =>
    subst heq
    cases hnone
  | dialed _ io tlsctx error callers pc _ hnone₀ hreg hdead hpc heq =>
    subst heq
    cases hnone
  | registered who hwho heq =>
    subst heq
    obtain ⟨io, hio, -⟩ := hstage.of_connecting (by simp [hwho])
    simp [hio] at hnone
  | dropped who error hwho heq =>
    subst heq
    exact absurd (hok rfl) hready
  | disconnecting io hconnected hio heq =>
    subst heq
    cases hnone
  | idled hpc hconnected hpending heq =>
    subst heq
    have hio := hup (hstage.proved (by simp [hconnected]) (by simp [hconnected])).1
    exact absurd (Option.map_eq_none_iff.mp hnone) hio
  | pinged draws written draw hpc hio hping hdraw heq =>
    subst heq
    obtain ⟨io, hsome, -⟩ := hstage.of_dialing hio
    simp [hsome] at hnone
  | unpinged draws written hpc hio hping heq =>
    subst heq
    obtain ⟨io, hsome, -⟩ := hstage.of_dialing hio
    obtain ⟨st, heq, -, -, -⟩ := connCleanupPing_shape lib { s.conn with
      inUse := true
      io := s.conn.io.map fun io => { io with up := true } } rfl
    rw [heq] at hnone
    simp [hsome] at hnone
  | failed failure text error hpc hreg heq =>
    subst heq
    exact Or.inr rfl
  | read chunk new r hpc hio hend heq =>
    subst heq
    rcases hend.io rfl with hsame | hdelivering
    · exact absurd (hsame.symm.trans hnone) (hup hio)
    · exact Or.inr (by rw [show r.2 = .delivering from hdelivering]; rfl)
  | wrote written hpc hio heq =>
    subst heq
    exact Or.inr rfl
  | expired hpc htimer hst heq =>
    subst heq
    obtain ⟨st, heq, -, -, -⟩ := connCleanupPing_shape lib { s.conn with inUse := true } rfl
    rw [heq] at hnone
    simp [(hstage.of_none hnone).1] at hst
  | unguarded hpc heq =>
    subst heq
    exact Or.inr rfl
  | proved new r hpc hend heq =>
    subst heq
    obtain ⟨hio, hbusy⟩ : (connEventSetConnected lib { s.conn with pingtxn := none }).io = s.conn.io ∧
        (connEventSetConnected lib { s.conn with pingtxn := none }).inUse = true := by
      obtain ⟨_, _, _, _, _, heq, -, -⟩ :=
        connEventSetConnected_shape lib { s.conn with pingtxn := none }
      rw [heq]
      exact ⟨rfl, hrunning.link.busy (by rw [hpc]; rfl)⟩
    rcases hend.io hbusy with hsame | hdelivering
    · exact absurd (hio.symm.trans (hsame.symm.trans hnone)) (hup (hstage.cleaning .reply hpc).1)
    · exact Or.inr (by rw [show r.2 = .delivering from hdelivering]; rfl)
  | unproved error hpc heq =>
    subst heq
    exact Or.inr rfl
  | destroyed a pc hdestroys hidle hpc heq =>
    subst heq
    simp [connDestroy, hidle] at hready

end Step

section Runs

/-- What waits in a state that such a run reaches is expected. -/
theorem expected_of_reachable {lib : Mstdlib} {w : Sys × ℕ} (h : (accommodating lib).Reachable w) :
    Expected w.1 := by
  refine System.Reachable.invariant (accommodating lib) (P := fun w => Expected w.1) ?_ ?_ h
  · rintro ⟨s, mark⟩ ⟨⟨host, port, -, -, rfl⟩, -⟩ hready
    exact absurd rfl hready
  · intro w a w' hw hexpected hstep
    obtain ⟨hok, hstep⟩ := (attempted lib).restrict_step hstep
    have hnext := ((monetra lib).monitor_step hstep).1
    have hreached : (monetra lib).Reachable w.1 :=
      System.Reachable.of_monitor _ (hw.of_restrict (attempted lib))
    refine hexpected.step (stage_of_reachable hreached (sysStep_live lib hnext))
      (running_of_reachable hreached) hnext fun hfails => ?_
    simpa [noneRefused, hfails] using hok

/-- In every run in which no attempt fails at once while a request waits, no request is stranded when
nobody is inside the library. -/
theorem accommodating_unstranded (lib : Mstdlib) (w : Sys × ℕ) (h : (accommodating lib).Reachable w)
    (hrest : AtRest w.1) : Unstranded w := by
  have hreached : (monetra lib).Reachable w.1 :=
    System.Reachable.of_monitor _ (h.of_restrict (attempted lib))
  refine ⟨fun hconnected => ?_, fun p hp => Or.inl fun hnone => ?_⟩
  · exact (stage_of_reachable hreached hrest.alive).allSent hconnected
  · rcases expected_of_reachable h (List.ne_nil_of_mem hp) hnone with hcallers | hlooks
    · exact hcallers hrest.callers
    · rw [hrest.pc] at hlooks
      cases hlooks

end Runs

section Runs

/-- The monitor at the start. -/
theorem attempted_init (lib : Mstdlib) : (attempted lib).init (started, 0) :=
  ⟨started_init lib, rfl⟩

/-- A sale waits for the connection that it has started. -/
def saleAwaited : Sys × ℕ :=
  ((accommodating reference).run (started, 0) [.transNew [saleDraw],
    .transSetParam 0 (ascii "action") (some (ascii "sale")), .transSend 0, .implicitConnect openNet]).get
      (by decide)

/-- This state is reachable. -/
theorem saleAwaited_reachable : (accommodating reference).Reachable saleAwaited :=
  System.reachable_get (accommodating reference) (attempted_init reference) _ _

/-- The sale is not stranded. -/
theorem accommodating_unstranded_sale :
    saleAwaited.1.conn.transReady = [0] ∧ AtRest saleAwaited.1 ∧ Unstranded saleAwaited :=
  ⟨by decide, ⟨by decide, by decide, by decide, by decide⟩,
    accommodating_unstranded reference saleAwaited saleAwaited_reachable
      ⟨by decide, by decide, by decide, by decide⟩⟩

/-- A network that creates no I/O object. -/
def deadNet : NetOutcome := ⟨some (ascii "Resource limit"), none, true⟩

/-- The attempt that `LM_trans_send` starts fails at once, and the call returns true all the same. -/
def saleStranded : Sys × ℕ :=
  ((attempted reference).run (started, 0) [.transNew [saleDraw],
    .transSetParam 0 (ascii "action") (some (ascii "sale")), .transSend 0, .implicitConnect deadNet]).get
      (by decide)

/-- This state is reachable. -/
theorem saleStranded_reachable : (attempted reference).Reachable saleStranded :=
  System.reachable_get (attempted reference) (attempted_init reference) _ _

/-- The sale is stranded: it has no I/O object, and nobody was told. -/
theorem attempted_not_unstranded :
    ¬∀ w, (attempted reference).Reachable w → AtRest w.1 → Unstranded w := by
  intro h
  have hdealt := (h saleStranded saleStranded_reachable
    ⟨by decide, by decide, by decide, by decide⟩).dealt 0 (by decide)
  rcases hdealt with hio | hreported
  · exact hio (by decide)
  · exact absurd hreported (by decide)

end Runs

end LibMonetra
