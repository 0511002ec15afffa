import LibMonetra.Legacy

/-!
# Legacy calls are runs of the library

Every call of the legacy API is a run of the library, and between two calls on one thread no
handler runs and nothing of an earlier call is left to be done.
-/

namespace LibMonetra

open Foundation

variable {lib : Mstdlib} {s s' : Sys}

/-- An enabled action leads from a reached state to a reached state. -/
theorem reachable_sysStep {a : Action} (h : (monetra lib).Reachable s)
    (hstep : sysStep lib s a = some s') : (monetra lib).Reachable s' := h.step hstep

/-- A connection that some run has reached and that nobody has destroyed. -/
structure Serving (lib : Mstdlib) (s : Sys) : Prop where
  reachable : (monetra lib).Reachable s
  kept : s.conn.destroy = false
  opened : s.conn.freed = false

/-- Such a connection while no handler runs. -/
structure Rested (lib : Mstdlib) (s : Sys) : Prop extends Serving lib s where
  idle : s.pc = .idle

/-- An action of the event loop keeps the connection. -/
theorem Serving.loop (h : Serving lib s) {a : Action} (hloop : a.ofLoop = true)
    (hstep : sysStep lib s a = some s') : Serving lib s' := by
  have hrunning := running_of_reachable h.reachable
  obtain ⟨-, hkept, hopened⟩ := (sysStep_loop hloop hstep hrunning.link hrunning.rep).alive h.kept
  exact ⟨reachable_sysStep h.reachable hstep, hkept, hopened.trans h.opened⟩

/-- What the actions of the event loop preserve, an event loop preserves. -/
theorem eventLoop_invariant {P : Sys → Prop} {schedule : List Action}
    (hstep : ∀ s a s', P s → a.ofLoop = true → sysStep lib s a = some s' → P s')
    (hs : P s) (h : eventLoop lib s schedule = some s') : P s' ∧ s'.pc = .idle := by
  unfold eventLoop at h
  split at h
  · rename_i hall
    obtain ⟨hrun, hidle⟩ := Option.filter_eq_some_iff.mp h
    refine ⟨?_, of_decide_eq_true hidle⟩
    clear h hidle
    induction schedule generalizing s with
    | nil =>
      obtain rfl := Option.some.inj hrun
      exact hs
    | cons a rest ih =>
      obtain ⟨mid, hmid, hrest⟩ := Option.bind_eq_some_iff.mp hrun
      rw [List.all_cons, Bool.and_eq_true] at hall
      exact ih (hstep s a mid hs hall.1 hmid) hall.2 hrest
  · cases h

/-- An event loop leaves a connection at rest. -/
theorem Serving.eventLoop (h : Serving lib s) {schedule : List Action}
    (hloop : eventLoop lib s schedule = some s') : Rested lib s' := by
  obtain ⟨hserving, hidle⟩ := eventLoop_invariant (fun _ _ _ hs ha hstep => hs.loop ha hstep) h hloop
  exact ⟨hserving, hidle⟩

/-- A call that does not destroy the connection leaves it at rest. -/
theorem Rested.call (h : Rested lib s) {a : Action} (hstep : sysStep lib s a = some s')
    (hkept : s'.conn.destroy = s.conn.destroy) (hopened : s'.conn.freed = s.conn.freed)
    (hidle : s'.pc = s.pc) : Rested lib s' :=
  ⟨⟨reachable_sysStep h.reachable hstep, hkept.trans h.kept, hopened.trans h.opened⟩, hidle.trans h.idle⟩

/-- `LM_conn_connect` keeps everything but the I/O object, its TLS context, the error text and the
status. -/
theorem connConnect_eq (lib : Mstdlib) (s : Sys) (net : NetOutcome) :
    ∃ io tlsctx error status connecting, (connConnect lib s net).1 =
      { s with
        conn := { s.conn with io := io, tlsctx := tlsctx, error := error, status := status }
        connecting := connecting } := by
  obtain ⟨io, tlsctx, error, hbegin⟩ := connConnectBegin_spec lib s.conn net
  rcases hres : connConnectBegin lib s.conn net with ⟨c, progress⟩
  rw [hres] at hbegin
  obtain ⟨io', status, error', hfinish, -⟩ := connConnectFinish_spec c net.eventAdd
  simp only at hbegin
  unfold connConnect
  rw [hres]
  cases progress with
  | failed => exact ⟨io, tlsctx, error, s.conn.status, s.connecting, by simp only [hbegin]⟩
  | inCallback =>
    refine ⟨io', tlsctx, error', status, none, ?_⟩
    simp only [hfinish]
    simp only [hbegin]
  | register =>
    refine ⟨io', tlsctx, error', status, s.connecting, ?_⟩
    simp only [hfinish]
    simp only [hbegin]

/-- `LM_conn_connect` on one thread is one action, or two around the I/O creation callback. -/
theorem connConnect_reachable {s : Sys} {net : NetOutcome} (hopen : s.conn.freed = false)
    (hstep : (monetra lib).Reachable (enterConnect lib s net .caller).1) :
    (monetra lib).Reachable (connConnect lib s net).1 := by
  obtain ⟨io, tlsctx, error, hbegin⟩ := connConnectBegin_spec lib s.conn net
  rcases hres : connConnectBegin lib s.conn net with ⟨c, progress⟩
  rw [hres] at hbegin
  simp only at hbegin
  unfold enterConnect at hstep
  unfold connConnect
  rw [hres] at hstep ⊢
  cases progress with
  | failed => exact hstep
  | inCallback =>
    have hfreed : c.freed = false := by rw [hbegin, hopen]
    have hfinish : sysStep lib { s with conn := c, connecting := some .caller }
        (.connectFinish net.eventAdd) = some { s with
          conn := (connConnectFinish c net.eventAdd).1
          connecting := none } := by
      simp [sysStep, hfreed]
    have hin : (monetra lib).Reachable { s with conn := c, connecting := some .caller } := hstep
    exact reachable_sysStep hin hfinish
  | register => exact hstep

/-- `LM_conn_connect` leaves a connection at rest. -/
theorem Rested.of_connConnect (h : Rested lib s) (net : NetOutcome) :
    Rested lib (connConnect lib s net).1 := by
  have hstep : sysStep lib s (.connConnect net) = some (enterConnect lib s net .caller).1 := by
    simp [sysStep, h.opened]
  have hreach : (monetra lib).Reachable (connConnect lib s net).1 :=
    connConnect_reachable h.opened (reachable_sysStep h.reachable hstep)
  obtain ⟨io, tlsctx, error, status, connecting, heq⟩ := connConnect_eq lib s net
  rw [heq] at hreach ⊢
  exact ⟨⟨hreach, h.kept, h.opened⟩, h.idle⟩

/-- `LM_trans_send` leaves a connection at rest. -/
theorem Rested.of_connTransSend (h : Rested lib s) (p : Ptr) (net : NetOutcome) :
    Rested lib (connTransSend lib s p net).1 := by
  have hrunning := running_of_reachable h.reachable
  obtain ⟨st, outbuf, timer, trigger, heq, -, -, -⟩ :=
    transSend_spec lib s.conn p hrunning.rep hrunning.link.connected
  have hsend : sysStep lib s (.transSend p) = some { s with
      conn := (transSend lib s.conn p).conn
      callers := if (transSend lib s.conn p).connect then s.callers + 1 else s.callers } := by
    simp [sysStep, h.opened]
  have hkept : (transSend lib s.conn p).conn.destroy = false := by
    rw [heq]
    exact h.kept
  have hopened : (transSend lib s.conn p).conn.freed = false := by
    rw [heq]
    exact h.opened
  have hsent := reachable_sysStep h.reachable hsend
  change Rested lib (if (transSend lib s.conn p).connect = true then
    (connConnect lib { s with conn := (transSend lib s.conn p).conn } net).1
    else { s with conn := (transSend lib s.conn p).conn })
  split
  · rename_i hconnect
    have himplicit : sysStep lib { s with
        conn := (transSend lib s.conn p).conn
        callers := if (transSend lib s.conn p).connect then s.callers + 1 else s.callers }
        (.implicitConnect net) =
          some (enterConnect lib { s with conn := (transSend lib s.conn p).conn } net .caller).1 := by
      simp [sysStep, hopened, hconnect]
    have hreach : (monetra lib).Reachable (connConnect lib
        { s with conn := (transSend lib s.conn p).conn } net).1 :=
      connConnect_reachable hopened (reachable_sysStep hsent himplicit)
    obtain ⟨io, tlsctx, error, status, connecting, hconn⟩ := connConnect_eq lib
      { s with conn := (transSend lib s.conn p).conn } net
    rw [hconn] at hreach ⊢
    exact ⟨⟨hreach, hkept, hopened⟩, h.idle⟩
  · rename_i hconnect
    rw [if_neg hconnect] at hsent
    exact ⟨⟨hsent, hkept, hopened⟩, h.idle⟩

section Calls

variable {m m' : MConn}

/-- The two settings that make up `M_SetIP` and `M_SetSSL` leave a connection at rest. -/
theorem Rested.of_mSetServer (h : Rested lib m.sys) (mode : Mode) (host : Bytes) (port : ℕ) :
    Rested lib (mSetServer mode m host port).1.sys := by
  have hopened : (connChangeServer m.sys.conn host port).1.freed = false := by
    unfold connChangeServer
    split <;> exact h.opened
  have hserver : Rested lib { m.sys with conn := (connChangeServer m.sys.conn host port).1 } := by
    refine h.call (a := .connChangeServer host port) (by simp [sysStep, h.opened]) ?_ ?_ rfl
    all_goals unfold connChangeServer
    all_goals split <;> rfl
  have hmode : Rested lib { m.sys with
      conn := (connChangeMode (connChangeServer m.sys.conn host port).1 mode).1 } := by
    refine hserver.call (a := .connChangeMode mode) (by simp [sysStep, hopened]) ?_ ?_ rfl
    all_goals unfold connChangeMode
    all_goals split <;> rfl
  unfold LibMonetra.mSetServer
  split
  · exact h
  · simp only
    split
    · exact hmode
    · exact hserver

/-- `M_Connect` leaves a connection at rest. -/
theorem Rested.of_mConnect (h : Rested lib m.sys) {net : NetOutcome} {schedule : List Action} {ok : Bool}
    (hcall : mConnect lib m net schedule = some (m', ok)) : Rested lib m'.sys := by
  have hconnect := h.of_connConnect net
  unfold mConnect at hcall
  simp only at hcall
  split at hcall
  · obtain ⟨s, hloop, heq⟩ := Option.map_eq_some_iff.mp hcall
    cases heq
    exact hconnect.eventLoop hloop
  · cases hcall
    exact hconnect

/-- The loop of `M_Disconnect` leaves a connection at rest. -/
theorem Rested.of_disconnectLoop (h : Rested lib s) {schedules : List (List Action)}
    (hloop : disconnectLoop lib schedules s = some s') : Rested lib s' := by
  induction schedules generalizing s with
  | nil =>
    unfold disconnectLoop at hloop
    split at hloop
    · cases hloop
    · exact Option.some.inj hloop ▸ h
  | cons schedule rest ih =>
    unfold disconnectLoop at hloop
    split at hloop
    · obtain ⟨mid, hmid, hrest⟩ := Option.bind_eq_some_iff.mp hloop
      exact ih (h.eventLoop hmid) hrest
    · exact Option.some.inj hloop ▸ h

/-- `M_Disconnect` leaves a connection at rest. -/
theorem Rested.of_mDisconnect (h : Rested lib m.sys) {schedules : List (List Action)}
    (hcall : mDisconnect lib m schedules = some m') : Rested lib m'.sys := by
  unfold mDisconnect at hcall
  split at hcall
  · obtain ⟨s, hloop, rfl⟩ := Option.map_eq_some_iff.mp hcall
    have hdown : Rested lib { m.sys with conn := (connDisconnectConnlocked m.sys.conn).1 } := by
      refine h.call (a := .connDisconnect) (by simp [sysStep, h.opened]) ?_ ?_ rfl
      all_goals unfold connDisconnectConnlocked
      all_goals split
      all_goals first | rfl | split <;> rfl
    exact hdown.of_disconnectLoop hloop
  · exact Option.some.inj hcall ▸ h

/-- `M_Monitor_ex` leaves a connection at rest. -/
theorem Rested.of_mMonitorEx (h : Rested lib m.sys) {schedule : List Action} {ok : Bool}
    (hcall : mMonitorEx lib m schedule = some (m', ok)) : Rested lib m'.sys := by
  unfold mMonitorEx at hcall
  split at hcall
  · cases hcall
    exact h
  · split at hcall
    · obtain ⟨s, hloop, heq⟩ := Option.map_eq_some_iff.mp hcall
      have hrest := h.eventLoop hloop
      split at heq <;> cases heq <;> exact hrest
    · cases hcall
      exact h

/-- The wait of `M_TransSend` leaves a connection at rest. -/
theorem Rested.of_transSendWait (h : Rested lib m.sys) {p : Ptr} {waits : List (List Action)} {ok : Bool}
    (hcall : transSendWait lib p waits m = some (m', ok)) : Rested lib m'.sys := by
  induction waits generalizing m with
  | nil =>
    unfold transSendWait at hcall
    split at hcall
    · cases hcall
      exact h
    · cases hcall
  | cons schedule rest ih =>
    unfold transSendWait at hcall
    split at hcall
    · cases hcall
      exact h
    · obtain ⟨⟨mid, up⟩, hmid, hrest⟩ := Option.bind_eq_some_iff.mp hcall
      have hturn := h.of_mMonitorEx hmid
      simp only at hrest
      split at hrest
      · cases hrest
        exact hturn
      · exact ih hturn hrest

/-- `M_TransSend` from `LM_trans_send` on leaves a connection at rest. -/
theorem Rested.of_transSendConnected (h : Rested lib m.sys) {p : Ptr} {net : SendNetwork} {ok : Bool}
    (hcall : transSendConnected lib m p net = some (m', ok)) : Rested lib m'.sys := by
  have hsend := h.of_connTransSend p net.implicit
  unfold transSendConnected at hcall
  simp only at hcall
  split at hcall
  · split at hcall
    · exact Rested.of_transSendWait (m := { m with sys := (connTransSend lib m.sys p net.implicit).1 })
        hsend hcall
    · cases hcall
      exact hsend
  · cases hcall
    exact hsend

/-- `M_TransSend` leaves a connection at rest. -/
theorem Rested.of_mTransSend (h : Rested lib m.sys) {identifier : ℕ} {net : SendNetwork} {ok : Bool}
    (hcall : mTransSend lib m identifier net = some (m', ok)) : Rested lib m'.sys := by
  unfold mTransSend at hcall
  split at hcall
  · cases hcall
    exact h
  · obtain ⟨s, hloop, hrest⟩ := Option.bind_eq_some_iff.mp hcall
    have hpolled := h.eventLoop hloop
    split at hrest
    · exact Rested.of_transSendConnected (m := { m with sys := s }) hpolled hrest
    · obtain ⟨⟨mid, up⟩, hconnect, hsend⟩ := Option.bind_eq_some_iff.mp hrest
      have hconnected := Rested.of_mConnect (m := { m with sys := s }) hpolled hconnect
      simp only at hsend
      split at hsend
      · exact hconnected.of_transSendConnected hsend
      · cases hsend
        exact hconnected

/-- `M_TransNew` leaves a connection at rest. -/
theorem Rested.of_mTransNew (h : Rested lib m.sys) {draws : List RandDraw} {identifier : ℕ}
    (hcall : mTransNew m draws = some (m', identifier)) : Rested lib m'.sys := by
  obtain ⟨⟨c, p⟩, hnew, hmap⟩ := Option.bind_eq_some_iff.mp hcall
  obtain ⟨t, -, heq⟩ := Option.map_eq_some_iff.mp hmap
  cases heq
  have hstep : sysStep lib m.sys (.transNew draws) = some { m.sys with conn := c } := by
    simp [sysStep, h.opened, hnew]
  obtain ⟨draw, -, -, rfl⟩ := transNew_spec hnew
  exact h.call hstep rfl rfl rfl

/-- `M_TransKeyVal` leaves a connection at rest. -/
theorem Rested.of_mTransKeyVal (h : Rested lib m.sys) (identifier : ℕ) (key : Bytes)
    (value : Option Bytes) : Rested lib (mTransKeyVal m identifier key value).1.sys := by
  unfold mTransKeyVal
  split
  · exact h
  · rename_i p hp
    have hstep : sysStep lib m.sys (.transSetParam p key value) =
        some { m.sys with conn := (transSetParam m.sys.conn p key value).1 } := by
      simp [sysStep, h.opened]
    obtain ⟨heap, heq, -⟩ := transSetParam_spec lib m.sys.conn p key value
    rw [heq] at hstep
    simp only [heq]
    exact h.call hstep rfl rfl rfl

/-- `M_DeleteTrans` leaves a connection at rest. -/
theorem Rested.of_mDeleteTrans (h : Rested lib m.sys) (identifier : ℕ) :
    Rested lib (mDeleteTrans lib m identifier).sys := by
  unfold mDeleteTrans
  split
  · exact h
  · rename_i p hp
    have hstep : sysStep lib m.sys (.transDelete p) =
        some { m.sys with conn := transDelete lib m.sys.conn p } := by
      simp [sysStep, h.opened]
    obtain ⟨st, timer, heq, -, -, -⟩ := transDelete_spec lib m.sys.conn p
    rw [heq] at hstep ⊢
    exact h.call hstep rfl rfl rfl

/-- Every legacy call leaves a connection at rest, or leaves none. -/
theorem Rested.of_legacyCall (h : Rested lib m.sys) {call : LegacyCall}
    (hcall : legacyCall lib m call = some (some m')) : Rested lib m'.sys := by
  cases call with
  | setBlocking tf =>
    cases hcall
    exact h
  | setIP host port =>
    cases hcall
    exact h.of_mSetServer .ip host port
  | setSSL host port =>
    cases hcall
    exact h.of_mSetServer .tls host port
  | verifyConnection tf =>
    cases hcall
    unfold mVerifyConnection
    split
    · exact h
    · exact h.call (a := .connDisablePing) (by simp [sysStep, h.opened]) rfl rfl rfl
  | maxConnTimeout maxtime =>
    cases hcall
    refine h.call (a := .connSetConnTimeout (maxtime % 2 ^ lib.sizeBits).toNat)
      (by simp [sysStep, h.opened, mMaxConnTimeout]) ?_ ?_ rfl
    all_goals unfold mMaxConnTimeout connSetConnTimeout
    all_goals dsimp only
    all_goals split <;> rfl
  | connect net schedule =>
    obtain ⟨⟨mid, ok⟩, hmid, heq⟩ := Option.map_eq_some_iff.mp hcall
    cases heq
    exact h.of_mConnect hmid
  | disconnect schedules =>
    obtain ⟨mid, hmid, heq⟩ := Option.map_eq_some_iff.mp hcall
    cases heq
    exact h.of_mDisconnect hmid
  | destroyConn schedules =>
    obtain ⟨mid, -, heq⟩ := Option.map_eq_some_iff.mp hcall
    cases heq
  | monitorEx schedule =>
    obtain ⟨⟨mid, ok⟩, hmid, heq⟩ := Option.map_eq_some_iff.mp hcall
    cases heq
    exact h.of_mMonitorEx hmid
  | transNew draws =>
    obtain ⟨⟨mid, identifier⟩, hmid, heq⟩ := Option.map_eq_some_iff.mp hcall
    cases heq
    exact h.of_mTransNew hmid
  | transKeyVal identifier key value =>
    cases hcall
    exact h.of_mTransKeyVal identifier key value
  | transSend identifier net =>
    obtain ⟨⟨mid, ok⟩, hmid, heq⟩ := Option.map_eq_some_iff.mp hcall
    cases heq
    exact h.of_mTransSend hmid
  | deleteTrans identifier =>
    cases hcall
    exact h.of_mDeleteTrans identifier

/-- In every reachable state of a legacy handle, its connection is at rest. -/
theorem legacy_rested {h : Option MConn} (hs : (legacy lib).Reachable h) (hm : h = some m) :
    Rested lib m.sys := by
  have hall : ∀ m, h = some m → Rested lib m.sys := by
    refine System.Reachable.invariant (legacy lib) (P := fun h => ∀ m, h = some m → Rested lib m.sys)
      ?_ ?_ hs
    · rintro _ rfl m hm
      obtain rfl := Option.some.inj hm
      exact ⟨⟨.init ⟨ascii "localhost", 8665, by decide, by decide, rfl⟩, rfl, rfl⟩, rfl⟩
    · rintro before call after - hbefore hstep m rfl
      cases before with
      | none => cases hstep
      | some mid => exact (hbefore mid rfl).of_legacyCall hstep
  exact hall m hm

end Calls

end LibMonetra
