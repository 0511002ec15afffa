import LibMonetra.Settings
import LibMonetra.Reference

/-!
# The recorded endpoint

`LM_conn_connect` creates its I/O object from the host, the port and the mode of the connection, and the
setters refuse to change them while the connection is `CONNECTING` or `CONNECTED`. While the I/O creation
callback runs, the lock is free and the connection is still `DISCONNECTED`.
-/

namespace LibMonetra

open Foundation

variable {lib : Mstdlib} {s s' : Sys} {a : Action}

/-- The other end of a connection, and whether TLS protects the way there. -/
structure Endpoint where
  host : Bytes
  port : ℕ
  mode : Mode
  deriving DecidableEq

/-- The endpoint that an I/O object was created with. -/
def Io.endpoint (io : Io) : Endpoint := ⟨io.host, io.port, io.mode⟩

/-- The endpoint that a connection records. -/
def Conn.endpoint (c : Conn) : Endpoint := ⟨c.host, c.port, c.mode⟩

/-- The endpoint among the settings. -/
def Settings.endpoint (settings : Settings) : Endpoint := ⟨settings.host, settings.port, settings.mode⟩

/-- What an I/O object is created with. -/
structure Target where
  endpoint : Endpoint
  connectTimeoutMs : ℕ
  deriving DecidableEq

/-- What an I/O object was created with. -/
def Io.target (io : Io) : Target := ⟨io.endpoint, io.connectTimeoutMs⟩

/-- What `LM_conn_connect` creates an I/O object with. -/
def Conn.target (lib : Mstdlib) (c : Conn) : Target :=
  ⟨c.endpoint, c.connTimeout * 1000 % 2 ^ lib.sizeBits⟩

/-- Where an I/O object comes from: it was there, or it is a new one with the settings of its connection. -/
def IoFrom (lib : Mstdlib) (c : Conn) (io' : Option Io) : Prop :=
  ∀ new, io' = some new → (∃ io, c.io = some io ∧ new.target = io.target) ∨
    (c.io = none ∧ new.target = c.target lib)

/-- An I/O object that is left alone. -/
theorem IoFrom.same {c : Conn} {io' : Option Io} (h : io' = c.io) : IoFrom lib c io' :=
  fun new hnew => Or.inl ⟨new, h ▸ hnew, rfl⟩

/-- An I/O object in a new state. -/
theorem IoFrom.map {c : Conn} {f : Io → Io} (hf : ∀ io, (f io).target = io.target) :
    IoFrom lib c (c.io.map f) := by
  intro new hnew
  obtain ⟨io, hio, rfl⟩ := Option.map_eq_some_iff.mp hnew
  exact Or.inl ⟨io, hio, hf io⟩

/-- No I/O object. -/
theorem IoFrom.none {c : Conn} : IoFrom lib c none := fun _ hnew => by cases hnew

/-- The first half of `LM_conn_connect` creates the I/O object from the settings. -/
theorem connConnectBegin_ioFrom (lib : Mstdlib) (c : Conn) (net : NetOutcome) :
    IoFrom lib c (connConnectBegin lib c net).1.io := by
  unfold connConnectBegin
  simp only
  split
  · exact .same rfl
  · rename_i hsome
    have hnone : c.io = none := by simpa using hsome
    split
    · exact .same rfl
    · split
      · exact .same rfl
      · rintro new ⟨⟩
        exact Or.inr ⟨hnone, rfl⟩

/-- `LM_conn_connect` creates the I/O object from the settings. -/
theorem enterConnect_ioFrom (lib : Mstdlib) (s : Sys) (net : NetOutcome) (who : Connector) :
    IoFrom lib s.conn (enterConnect lib s net who).1.conn.io := by
  have hbegin := connConnectBegin_ioFrom lib s.conn net
  unfold enterConnect
  generalize connConnectBegin lib s.conn net = r at hbegin
  rcases r with ⟨c, progress⟩
  cases progress with
  | failed => exact hbegin
  | inCallback => exact hbegin
  | register =>
    simp only [connConnectFinish]
    split
    · intro new hnew
      obtain ⟨io, hio, rfl⟩ := Option.map_eq_some_iff.mp hnew
      exact hbegin io hio
    · exact .none

/-- An action that enters `LM_conn_connect` creates the I/O object from the settings. -/
theorem connects_ioFrom (h : sysStep lib s a = some s') (hconnects : a.connects = true) :
    IoFrom lib s.conn s'.conn.io := by
  cases sysStep_effect h with
  | connConnect net => exact enterConnect_ioFrom lib s net .caller
  | implicitConnect net _ => exact enterConnect_ioFrom lib { s with callers := s.callers - 1 } net .caller
  | reconnect net _ => exact enterConnect_ioFrom lib s net .handler
  | configures a c hsets _ => cases hconnects.symm.trans (Action.connects_of_configures hsets)
  | _ => cases hconnects

/-- A read event leaves the I/O object alone, or gives it up. -/
theorem ReadEnd.ioFrom {c : Conn} {new : List Obs} {r : Conn × Pc} (h : ReadEnd lib c new r)
    (hbusy : c.inUse = true) : IoFrom lib c r.1.io := by
  rcases h.shape hbusy with ⟨_, _, _, heq, -⟩ | ⟨-, _, _, heq⟩
  · rw [heq]
    exact .same rfl
  · rw [heq]
    exact .none

/-- One action creates an I/O object from the settings, changes the state of the one that is there, or
gives it up. -/
theorem sysStep_ioFrom (h : sysStep lib s a = some s') (hrunning : Running lib s) :
    IoFrom lib s.conn s'.conn.io := by
  cases sysStep_move h hrunning with
  | aside _ new _ haside => exact .same haside.io
  | accepted p t hup ht hst heq =>
    subst heq
    exact .same rfl
  | sent p t hup ht hst heq =>
    subst heq
    obtain ⟨heap, timers, new, more, timer, heq, -, -⟩ := transSendMessages_shape lib { s.conn with
      toTransStore := (s.conn.toTransStore.move p t { t with status := .ready }).log (.accepted p) } hup
    rw [heq]
    exact .same rfl
  | refused _ tlsctx error callers pc _ hpc heq =>
    subst heq
    exact .same rfl
  | opened _ who io tlsctx error callers pc hconnects hnone hreg hup hpc heq =>
    exact connects_ioFrom h hconnects
  | dialed _ io tlsctx error callers pc hconnects hnone hreg hup hpc heq => exact connects_ioFrom h hconnects
  | registered who hwho heq =>
    subst heq
    exact .map fun _ => rfl
  | dropped who error hwho heq =>
    subst heq
    exact .none
  | disconnecting io hup hio heq =>
    subst heq
    rintro new ⟨⟩
    exact Or.inl ⟨io, hio, rfl⟩
  | idled hpc hup hpending heq =>
    subst heq
    exact .map fun _ => rfl
  | pinged draws written draw hpc hio hping hdraw heq =>
    subst heq
    exact .map fun _ => rfl
  | unpinged draws written hpc hio hping heq =>
    subst heq
    obtain ⟨st, heq, -, -, -⟩ := connCleanupPing_shape lib { s.conn with
      inUse := true
      io := s.conn.io.map fun io => { io with up := true } } rfl
    rw [heq]
    exact .map fun _ => rfl
  | failed failure text error hpc hreg heq =>
    subst heq
    rw [connEventHandleConnError_io]
    exact .none
  | read chunk new r hpc hup hend heq =>
    subst heq
    exact hend.ioFrom rfl
  | wrote written hpc hup heq =>
    subst heq
    exact .same rfl
  | expired hpc htimer hst heq =>
    subst heq
    obtain ⟨st, heq, -, -, -⟩ := connCleanupPing_shape lib { s.conn with inUse := true } rfl
    rw [heq]
    exact .same rfl
  | unguarded hpc heq =>
    subst heq
    exact .same (connEventSetConnected_io lib _)
  | proved new r hpc hend heq =>
    subst heq
    have hbusy := hrunning.link.busy (by rw [hpc]; rfl)
    obtain ⟨_, _, _, _, _, heq, -, -⟩ := connEventSetConnected_shape lib { s.conn with pingtxn := none }
    rw [heq] at hend
    exact hend.ioFrom hbusy
  | unproved error hpc heq =>
    subst heq
    rw [connEventHandleConnError_io]
    exact .none
  | destroyed a pc hdestroys hidle hpc heq =>
    subst heq
    simp only [connDestroy, hidle, Bool.false_eq_true, if_false]
    exact .none

section Recorded

/-- Whether an action gives a connection that is not up another endpoint. -/
def Action.redirects (c : Conn) : Action → Bool
  | .connChangeServer host port => host ≠ [] && port ≠ 0 && (host ≠ c.host || port ≠ c.port)
  | .connChangeMode mode => mode ≠ c.mode
  | _ => false

/-- The connection is up, or on its way up, to the endpoint that it records. -/
def EndpointRecorded (s : Sys) : Prop :=
  s.conn.status = .connecting ∨ s.conn.status = .connected →
    ∃ io, s.conn.io = some io ∧ io.endpoint = s.conn.endpoint

/-- No caller gives the connection another endpoint while the creation callback of its I/O object runs. -/
def aimed (lib : Mstdlib) : System Sys Action :=
  (monetra lib).restrict fun s a => s.connecting.isNone || !a.redirects s.conn

/-- Only an action that gives the connection another endpoint changes the recorded one, and not under a
connection that is up or on its way up. -/
theorem settingsAfter_endpoint (lib : Mstdlib) (c : Conn) (a : Action) :
    (settingsAfter lib c a).endpoint = c.endpoint ∨ settingsLocked c = false ∧ a.redirects c = true := by
  cases a with
  | connChangeServer host port =>
    simp only [settingsAfter, connChangeServer]
    split
    · exact Or.inl rfl
    · rename_i hguard
      obtain ⟨hhost, hport, hlocked⟩ : host ≠ [] ∧ port ≠ 0 ∧ settingsLocked c = false := by
        simpa [not_or] using hguard
      by_cases hsame : host = c.host ∧ port = c.port
      · obtain ⟨rfl, rfl⟩ := hsame
        exact Or.inl rfl
      · refine Or.inr ⟨hlocked, ?_⟩
        simpa [Action.redirects, hhost, hport, ← imp_iff_not_or] using hsame
  | connChangeMode mode =>
    simp only [settingsAfter, connChangeMode]
    split
    · exact Or.inl rfl
    · rename_i hlocked
      by_cases hsame : mode = c.mode
      · exact Or.inl (hsame ▸ rfl)
      · exact Or.inr ⟨by simpa using hlocked, by simpa [Action.redirects] using hsame⟩
  | connSetConnTimeout toSecs =>
    simp only [settingsAfter, connSetConnTimeout]
    split
    · exact Or.inl rfl
    · exact Or.inl rfl
  | connSetIdleTimeout toSecs =>
    obtain ⟨timer, heq⟩ := connSetIdleTimeout_shape lib c toSecs
    rw [settingsAfter, heq]
    exact Or.inl rfl
  | connSetIocreateCallback present =>
    simp only [settingsAfter, connSetIocreateCallback]
    split
    · exact Or.inl rfl
    · exact Or.inl rfl
  | _ => exact Or.inl rfl

/-- Another endpoint changes neither the I/O object nor the status. -/
theorem sysStep_redirects (h : sysStep lib s a = some s') (hredirects : a.redirects s.conn = true) :
    s'.conn.io = s.conn.io ∧ s'.conn.status = s.conn.status := by
  have hfree := sysStep_live lib h
  unfold sysStep at h
  rw [if_neg (by simp [hfree])] at h
  cases a with
  | connChangeServer host port =>
    obtain rfl := Option.some.inj h
    simp only [connChangeServer]
    split
    · exact ⟨rfl, rfl⟩
    · exact ⟨rfl, rfl⟩
  | connChangeMode mode =>
    obtain rfl := Option.some.inj h
    simp only [connChangeMode]
    split
    · exact ⟨rfl, rfl⟩
    · exact ⟨rfl, rfl⟩
  | _ => simp [Action.redirects] at hredirects

/-- A connection that is being ended stays so while it has its I/O object. -/
theorem Move.ending (h : Move lib s s' a) (hstage : Stage s) (hending : s.conn.status = .disconnecting ∨
    s.conn.status = .idleTimeout) : s'.conn.status = s.conn.status ∨ s'.conn.io = none := by
  have hdown : s.conn.status ≠ .disconnected := by rcases hending with h | h <;> simp [h]
  have hconnecting : s.conn.status ≠ .connecting := by rcases hending with h | h <;> simp [h]
  have hconnected : s.conn.status ≠ .connected := by rcases hending with h | h <;> simp [h]
  have hio : s.conn.io ≠ none := fun hnone => hdown (hstage.of_none hnone).1
  have hpc : ∀ pingEnd, s.pc ≠ .cleaning pingEnd := fun pingEnd hpc =>
    hconnecting (hstage.cleaning pingEnd hpc).2
  cases h with
  | aside _ new _ haside => exact Or.inl haside.status
  | accepted p t hup ht hst heq => exact Or.inl (heq ▸ rfl)
  | sent p t hup ht hst heq => exact absurd hup hconnected
  | refused _ tlsctx error callers pc _ hpc heq => exact Or.inl (heq ▸ rfl)
  | opened _ who io tlsctx error callers pc hconnects hnone hreg hup hpc heq => exact absurd hnone hio
  | dialed _ io tlsctx error callers pc hconnects hnone hreg hup hpc heq => exact absurd hnone hio
  | registered who hwho heq =>
    obtain ⟨io, hsome, hreg, -⟩ := hstage.of_connecting (by simp [hwho])
    exact absurd (hstage.down.mpr (by simp [hsome, hreg])) hdown
  | dropped who error hwho heq => exact Or.inr (heq ▸ rfl)
  | disconnecting io hup hio heq => exact absurd hup hconnected
  | idled hpc hup hpending heq => exact absurd hup hconnected
  | pinged draws written draw hpc hio hping hdraw heq =>
    exact absurd (hstage.of_dialing hio).choose_spec.2.2.2.1 hconnecting
  | unpinged draws written hpc hio hping heq =>
    exact absurd (hstage.of_dialing hio).choose_spec.2.2.2.1 hconnecting
  | failed failure text error hpc hreg heq =>
    subst heq
    exact Or.inr (connEventHandleConnError_io _ failure)
  | read chunk new r hpc hup hend heq =>
    subst heq
    exact (hend.kept rfl).imp And.left And.left
  | wrote written hpc hup heq => exact Or.inl (heq ▸ rfl)
  | expired hpc htimer hst heq => exact absurd hst hconnecting
  | unguarded hcleaning heq => exact absurd hcleaning (hpc _)
  | proved new r hcleaning hend heq => exact absurd hcleaning (hpc _)
  | unproved error hcleaning heq => exact absurd hcleaning (hpc _)
  | destroyed a pc hdestroys hidle hpc heq =>
    subst heq
    simp [connDestroy, hidle]

/-- The endpoint of the I/O object is the recorded one, unless the connection is being ended. -/
def Aimed (s : Sys) : Prop :=
  ∀ io, s.conn.io = some io → s.conn.status ≠ .disconnecting → s.conn.status ≠ .idleTimeout →
    io.endpoint = s.conn.endpoint

/-- Every action keeps the endpoint recorded, unless it gives the connection another one while the
creation callback runs. -/
theorem Aimed.step (haimed : Aimed s) (hstage : Stage s) (h : sysStep lib s a = some s')
    (hrunning : Running lib s) (hok : s.connecting = none ∨ a.redirects s.conn = false) : Aimed s' := by
  intro io hio hdisconnecting hidle
  have hsettings : s'.conn.endpoint = (settingsAfter lib s.conn a).endpoint :=
    congrArg Settings.endpoint (sysStep_settings h hrunning)
  rcases settingsAfter_endpoint lib s.conn a with hsame | ⟨hlocked, hredirects⟩
  · rw [hsettings, hsame]
    rcases sysStep_ioFrom h hrunning io hio with ⟨old, hold, htarget⟩ | ⟨-, htarget⟩
    · have hend : old.endpoint = s.conn.endpoint := by
        have hstays : s.conn.status = .disconnecting ∨ s.conn.status = .idleTimeout →
            s'.conn.status = s.conn.status := fun hending =>
          ((sysStep_move h hrunning).ending hstage hending).resolve_right (by simp [hio])
        exact haimed old hold (fun hst => hdisconnecting (hstays (Or.inl hst) ▸ hst))
          fun hst => hidle (hstays (Or.inr hst) ▸ hst)
      exact (congrArg Target.endpoint htarget).trans hend
    · exact congrArg Target.endpoint htarget
  · obtain ⟨hkept, hstatus⟩ := sysStep_redirects h hredirects
    rw [hkept] at hio
    rw [hstatus] at hdisconnecting hidle
    have hnone := hok.resolve_right (by simp [hredirects])
    have hreg := hstage.opening.mp hnone
    have hup : s.conn.status ≠ .disconnected := fun hdown => by
      simpa [hio, show io.registered = true by simpa [hio] using hreg] using hstage.down.mp hdown
    cases hst : s.conn.status <;> simp_all [settingsLocked]

/-- In every run in which nobody gives the connection another endpoint while the creation callback runs,
the connection records the endpoint that it is connected to. -/
theorem endpointRecorded_kept (lib : Mstdlib) (h : (aimed lib).Reachable s) (hfreed : s.conn.freed = false) :
    EndpointRecorded s := by
  have haimed : Aimed s := by
    refine System.Reachable.invariant (aimed lib) ?_ ?_ h
    · rintro s ⟨host, port, -, -, rfl⟩ io hio
      cases hio
    · intro s a s' hs haimed hstep
      obtain ⟨hok, hstep⟩ := (monetra lib).restrict_step hstep
      have hreach := hs.of_restrict (monetra lib)
      refine haimed.step (stage_of_reachable hreach (sysStep_live lib hstep)) hstep
        (running_of_reachable hreach) ?_
      simpa using hok
  intro hup
  have hstage := stage_of_reachable (h.of_restrict (monetra lib)) hfreed
  have hdown : s.conn.status ≠ .disconnected := by rcases hup with h | h <;> simp [h]
  obtain ⟨io, hio⟩ : ∃ io, s.conn.io = some io := by
    cases hio : s.conn.io with
    | none => exact absurd (hstage.of_none hio).1 hdown
    | some io => exact ⟨io, rfl⟩
  refine ⟨io, hio, haimed io hio ?_ ?_⟩
  · rcases hup with h | h <;> simp [h]
  · rcases hup with h | h <;> simp [h]

/-- A caller connects to another server than the one it named first, with a creation callback. -/
def connectElsewhere : List Action :=
  [.connSetIocreateCallback true, .connChangeServer (ascii "elsewhere") 8666, .connConnect openNet,
    .connectFinish true]

/-- The connection that is on its way up to that server. -/
def elsewhere : Sys := ((aimed reference).run started connectElsewhere).get (by decide)

theorem elsewhere_reachable : (aimed reference).Reachable elsewhere :=
  System.reachable_get (aimed reference) (started_init reference) connectElsewhere (by decide)

/-- A connection that has been told to connect to another server before it connects is connected to the
server that it records. -/
theorem endpointRecorded_kept_elsewhere :
    EndpointRecorded elsewhere ∧ elsewhere.conn.status = .connecting :=
  ⟨endpointRecorded_kept reference elsewhere_reachable rfl, rfl⟩

/-- A caller names another server while the creation callback runs. -/
def redirectedConnect : List Action :=
  [.connSetIocreateCallback true, .connConnect openNet, .connChangeServer (ascii "elsewhere") 8666,
    .connectFinish true]

/-- The connection that is on its way up to the server that was named first. -/
def redirected : Sys := ((monetra reference).run started redirectedConnect).get (by decide)

/-- A connection records a server that it is not connected to. -/
theorem redirected_not_recorded : (monetra reference).Reachable redirected ∧
    redirected.conn.freed = false ∧ ¬EndpointRecorded redirected := by
  refine ⟨System.reachable_get (monetra reference) (started_init reference) redirectedConnect (by decide),
    rfl, fun h => ?_⟩
  obtain ⟨io, hio, hsame⟩ := h (Or.inl rfl)
  obtain rfl : io = ⟨ascii "localhost", 8665, .tls, 10000, true, false, false⟩ := (Option.some.inj hio).symm
  exact absurd hsame (by decide)

end Recorded

end LibMonetra
