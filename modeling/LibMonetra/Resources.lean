import LibMonetra.Legacy
import LibMonetra.Wakeup

/-!
# The resources of a connection

A connection that is down has no I/O object, no trigger, no timer, nothing in its buffers and nothing on the
wire, and an attempt to connect that fails leaves it like that. Handlers and attempts to connect are in
between, so the state is looked at when neither is in progress.
-/

namespace LibMonetra

open Foundation

variable {lib : Mstdlib} {s s' : Sys} {a : Action}

/-- The connection exists, no handler runs, and nobody is inside `LM_conn_connect`. -/
structure Undisturbed (s : Sys) : Prop where
  alive : s.conn.freed = false
  pc : s.pc = .idle
  connecting : s.connecting = none

/-- All that a failed attempt to connect changes is the TLS context, which is kept for the next attempt, and
the error text. -/
def LeftAlone (c c' : Conn) : Prop :=
  ∃ tlsctx error, c' = { c with tlsctx := tlsctx, error := error }

/-- An attempt that fails after its creation callback: what it changed before, what it changes after, and
the status of the connection at both ends. -/
structure Rescinded (s opened waiting dropped : Sys) : Prop where
  before : s.conn.io = none ∧ LeftAlone { s.conn with io := opened.conn.io } opened.conn
  after : LeftAlone { waiting.conn with io := none } dropped.conn
  status : dropped.conn.status = s.conn.status

/-- The resources of a connection match its status, and an attempt to connect that fails leaves them alone:
one that nobody interrupts, and one that releases the lock for its creation callback. -/
structure ResourcesMatch (lib : Mstdlib) (s : Sys) : Prop where
  io : Undisturbed s → (s.conn.io = none ↔ s.conn.status = .disconnected)
  blank : Undisturbed s → s.conn.status = .disconnected → Blank s.conn
  trigger : Undisturbed s → s.conn.status = .connected ∨ s.conn.status = .idleTimeout →
    s.conn.writeTrigger ≠ none
  failed : ∀ net, (connConnect lib s net).2 = false → LeftAlone s.conn (connConnect lib s net).1.conn
  rescinded : ∀ a opened actions waiting dropped, s.connecting = none → sysStep lib s a = some opened →
    opened.connecting ≠ none → (monetra lib).run opened actions = some waiting →
    sysStep lib waiting (.connectFinish false) = some dropped → Rescinded s opened waiting dropped

/-- An attempt to connect that nobody interrupts and that fails leaves the connection as it was. -/
theorem connConnect_leftAlone (lib : Mstdlib) (s : Sys) (net : NetOutcome)
    (h : (connConnect lib s net).2 = false) : LeftAlone s.conn (connConnect lib s net).1.conn := by
  unfold connConnect at h ⊢
  rcases connConnectBegin_cases lib s.conn net with ⟨tlsctx, error, heq⟩ | ⟨hnone, io, tlsctx, -, -, heq⟩
  · rw [heq]
    exact ⟨tlsctx, error, rfl⟩
  · rw [heq] at h ⊢
    have hdropped : ∀ eventAdd, (connConnectFinish { s.conn with io := some io, tlsctx := tlsctx, error := [] }
        eventAdd).2 = false → LeftAlone s.conn (connConnectFinish
          { s.conn with io := some io, tlsctx := tlsctx, error := [] } eventAdd).1 := by
      intro eventAdd hfails
      cases eventAdd with
      | true => cases hfails
      | false =>
        exact ⟨tlsctx, (ascii "Failed to register connection with event subsystem").take 255,
          by simp [connConnectFinish, setError, hnone]⟩
    by_cases hcallback : s.conn.iocreateCb = true
    · rw [if_pos hcallback] at h ⊢
      exact hdropped net.eventAdd h
    · rw [if_neg hcallback] at h ⊢
      exact hdropped net.eventAdd h

/-- An attempt that releases the lock for its creation callback has found no I/O object, and has only made
one. -/
theorem opened_leftAlone (hstep : sysStep lib s a = some s') (hrunning : Running lib s)
    (hnone : s.connecting = none) (hopened : s'.connecting ≠ none) :
    s.conn.io = none ∧ LeftAlone { s.conn with io := s'.conn.io } s'.conn := by
  cases sysStep_move hstep hrunning with
  | opened _ who io tlsctx error callers pc _ hio hreg hup hpc heq =>
    subst heq
    exact ⟨hio, tlsctx, error, rfl⟩
  | aside _ new _ haside => exact absurd (haside.connecting.trans hnone) hopened
  | registered who hwho heq =>
    subst heq
    exact absurd rfl hopened
  | dropped who error hwho heq =>
    subst heq
    exact absurd rfl hopened
  | accepted _ _ _ _ _ heq | sent _ _ _ _ _ heq | refused _ _ _ _ _ _ _ heq | dialed _ _ _ _ _ _ _ _ _ _ _ heq
  | disconnecting _ _ _ heq | idled _ _ _ heq | pinged _ _ _ _ _ _ _ heq | unpinged _ _ _ _ _ heq
  | failed _ _ _ _ _ heq | read _ _ _ _ _ _ heq | wrote _ _ _ heq | expired _ _ _ heq | unguarded _ heq
  | proved _ _ _ _ heq | unproved _ _ heq | destroyed _ _ _ _ _ heq =>
    subst heq
    exact absurd hnone hopened

/-- An attempt that fails after its creation callback gives up its I/O object. -/
theorem dropped_leftAlone (hstep : sysStep lib s (.connectFinish false) = some s') :
    s.connecting ≠ none ∧ s'.conn.status = s.conn.status ∧ LeftAlone { s.conn with io := none } s'.conn := by
  have hfree := sysStep_live lib hstep
  unfold sysStep at hstep
  rw [if_neg (by simp [hfree])] at hstep
  simp only at hstep
  cases hwho : s.connecting with
  | none => simp [hwho] at hstep
  | some who =>
    simp only [hwho, Option.some.injEq] at hstep
    subst hstep
    exact ⟨Option.some_ne_none who, rfl, s.conn.tlsctx,
      (ascii "Failed to register connection with event subsystem").take 255, rfl⟩

/-- In every reachable state the write trigger is where it is needed. -/
theorem triggered_of_reachable (h : (monetra lib).Reachable s) : Triggered s := by
  refine System.Reachable.invariant (monetra lib) ?_ ?_ h
  · rintro s ⟨host, port, -, -, rfl⟩ hup
    simp [connInit] at hup
  · intro s a s' hs htriggered hstep
    have hrunning := running_of_reachable hs
    exact htriggered.move (stage_of_reachable hs (sysStep_live lib hstep)) hrunning.link
      (sysStep_move hstep hrunning)

/-- In every reachable state the resources of a connection match its status, and an attempt to connect that
fails leaves them alone. -/
theorem resourcesMatch_of_reachable (h : (monetra lib).Reachable s) : ResourcesMatch lib s := by
  have hrunning := running_of_reachable h
  refine ⟨fun hquiet => ⟨fun hnone => ?_, fun hdown => ?_⟩, fun hquiet hdown => ?_, fun hquiet hup => ?_,
    connConnect_leftAlone lib s, fun a opened actions waiting dropped hnone hopen hin hrun hdrop => ?_⟩
  · exact ((stage_of_reachable h hquiet.alive).of_none hnone).1
  · have hstage := stage_of_reachable h hquiet.alive
    have hreg := hstage.opening.mp hquiet.connecting
    have hunreg := hstage.down.mp hdown
    cases hio : s.conn.io with
    | none => rfl
    | some io => simp_all
  · have hstage := stage_of_reachable h hquiet.alive
    refine hstage.blank ?_
    by_contra hopen
    have hreg := hstage.registered_of_up (by simpa using hopen)
    rw [hstage.down.mp hdown] at hreg
    cases hreg
  · have hstage := stage_of_reachable h hquiet.alive
    have hopen : s.conn.io.any Io.up = true := by
      refine (hstage.proved ?_ ?_).1
      · rcases hup with h | h <;> simp [h]
      · rcases hup with h | h <;> simp [h]
    exact (triggered_of_reachable h hopen).resolve_right (by simp [hquiet.pc])
  · have hreached := (h.step hopen).run (monetra lib) actions hrun
    obtain ⟨hwho, hstatus, hafter⟩ := dropped_leftAlone hdrop
    obtain ⟨hio, hbefore⟩ := opened_leftAlone hopen hrunning hnone hin
    have hstage := stage_of_reachable hreached (sysStep_live lib hdrop)
    obtain ⟨io, hsome, hreg, -⟩ := hstage.of_connecting hwho
    refine ⟨⟨hio, hbefore⟩, hafter, hstatus.trans ?_⟩
    rw [hstage.down.mpr (by simp [hsome, hreg]),
      ((stage_of_reachable h (sysStep_live lib hopen)).of_none hio).1]

/-- With a sale on the wire the resources match. -/
theorem resourcesMatch_of_reachable_saleSent : Undisturbed saleSent ∧ saleSent.conn.status = .connected ∧
    ResourcesMatch reference saleSent :=
  ⟨⟨by decide, by decide, by decide⟩, by decide, resourcesMatch_of_reachable saleSent_reachable⟩

end LibMonetra
