import LibMonetra.Grammar
import LibMonetra.LegacyRun
import LibMonetra.Ping
import LibMonetra.Sweep

/-!
# How the stream is cut does not matter

The server's bytes arrive in read events, each with one chunk of the stream. What a read event leaves
unread never holds a whole frame, and what the handler does between two read events is not visible to
the next one, so only the concatenation of the chunks counts.
-/

namespace LibMonetra

open Foundation

variable (lib : Mstdlib)

/-- A connection inside a handler. -/
def Conn.marked (c : Conn) : Conn := { c with inUse := true }

/-- The read event as a consumer of the frames of `inbuf` and the new chunk. -/
def readDrive (c : Conn) (chunk : Bytes) : Drive Conn UInt8 :=
  drive frameScanner (takeMsg lib) c.marked (c.inbuf ++ chunk)

/-- What a read event leaves, once its handler has returned. -/
def readLeft (net : NetOutcome) (c : Conn) (chunk : Bytes) : Conn :=
  handlerLeft lib net (readEnded lib (readDrive lib c chunk))

/-- The chunks of a stream are read one after the other, each by a handler that runs to its end, and
nothing happens in between. A connection that is torn down reads no more of them. -/
inductive ReadsStream (net : NetOutcome) : Sys → List Bytes → Sys → Prop
  | done (s : Sys) : ReadsStream net s [] s
  | closed (s : Sys) (chunks : List Bytes) : s.conn.io.any Io.up = false → ReadsStream net s chunks s
  | read (s entered s' s'' : Sys) (chunk : Bytes) (rest : List Bytes) :
      sysStep lib s (.event (.read chunk)) = some entered → Settles lib net entered s' →
      ReadsStream net s' rest s'' → ReadsStream net s (chunk :: rest) s''

/-- The events delivered between two states of a run. -/
def callbacksBetween (s s' : Sys) : List Event :=
  callbacksOf (s'.conn.trace.drop s.conn.trace.length)

/-- What the caller can tell of two ends of a run: the events, the transactions with their statuses and
responses, the status of the connection, and the bytes that have not been consumed. -/
structure SameOutcome (s s₁ s₂ : Sys) : Prop where
  events : callbacksBetween s s₁ = callbacksBetween s s₂
  transactions : s₁.conn.heap = s₂.conn.heap
  status : s₁.conn.status = s₂.conn.status
  inbuf : s₁.conn.inbuf = s₂.conn.inbuf

section Rest

variable {lib} {s s' : Sys} {a : Action}

/-- Only `LM_conn_destroy` asks for the end of the connection. -/
theorem sysStep_unasked (hstep : sysStep lib s a = some s') (hrunning : Running lib s)
    (hkept : s.conn.destroy = false) (hother : a ≠ .connDestroy) : s'.conn.destroy = false := by
  cases hloop : a.ofLoop with
  | true => exact ((sysStep_loop hloop hstep hrunning.link hrunning.rep).alive hkept).2.1
  | false =>
    have hlive := sysStep_live lib hstep
    have hconfigured := sysStep_configures lib hstep
    unfold sysStep at hstep
    rw [if_neg (by simp [hlive])] at hstep
    have hconnects : ∀ s : Sys, ∀ net who, s.conn.destroy = false →
        (enterConnect lib s net who).1.conn.destroy = false := by
      intro s net who hkept
      obtain ⟨_, _, _, _, _, heq, -⟩ := enterConnect_spec lib s net who
      rw [heq]
      exact hkept
    cases a with
    | event | resume | deliver | callbackReturn | drain | reconnect | finish => cases hloop
    | connDestroy => exact absurd rfl hother
    | transNew draws =>
      obtain ⟨⟨c, p⟩, hnew, rfl⟩ := Option.map_eq_some_iff.mp hstep
      obtain ⟨_, -, -, rfl⟩ := transNew_spec hnew
      exact hkept
    | transRunNew draws params =>
      obtain ⟨⟨c, p⟩, hnew, rfl⟩ := Option.map_eq_some_iff.mp hstep
      obtain ⟨_, -, -, rfl⟩ := transRunNew_spec hnew
      exact hkept
    | transSetParam p key value =>
      obtain rfl := Option.some.inj hstep
      obtain ⟨_, heq, -⟩ := transSetParam_spec lib s.conn p key value
      simpa only [heq] using hkept
    | transSetTimeout p timeoutS =>
      obtain rfl := Option.some.inj hstep
      obtain ⟨_, heq, -⟩ := transSetTimeout_spec lib s.conn p timeoutS
      simpa only [heq] using hkept
    | transSend p =>
      obtain rfl := Option.some.inj hstep
      obtain ⟨_, _, _, _, heq, -⟩ := transSend_spec lib s.conn p hrunning.rep hrunning.link.connected
      simpa only [heq] using hkept
    | transDelete p =>
      obtain rfl := Option.some.inj hstep
      obtain ⟨_, _, heq, -⟩ := transDelete_spec lib s.conn p
      simpa only [heq] using hkept
    | connConnect net =>
      obtain rfl := Option.some.inj hstep
      exact hconnects s net .caller hkept
    | implicitConnect net =>
      simp only at hstep
      split at hstep
      · cases hstep
      · obtain rfl := Option.some.inj hstep
        exact hconnects { s with callers := s.callers - 1 } net .caller hkept
    | connectFinish eventAdd =>
      obtain ⟨_, _, _, hfinish, -⟩ := connConnectFinish_spec s.conn eventAdd
      simp only at hstep
      split at hstep
      · cases hstep
      · obtain rfl := Option.some.inj hstep
        simpa only [hfinish] using hkept
    | connDisconnect =>
      obtain rfl := Option.some.inj hstep
      obtain ⟨_, _, heq, -⟩ := connDisconnectConnlocked_eq s.conn
      simpa only [heq] using hkept
    | connChangeServer | connChangeMode | connSetConnTimeout | connSetIdleTimeout | connSetIocreateCallback
    | connDisablePing =>
      obtain ⟨_, rfl, _, _, _, _, _, _, _, _, rfl, -⟩ := hconfigured rfl
      exact hkept

/-- A connection that has been freed has no I/O object, and no connection outlives its handler once its
end has been asked for. -/
structure Ends (s : Sys) : Prop where
  freed : s.conn.freed = true → s.conn.io = none
  idle : s.pc = .idle → s.conn.freed = false → s.conn.destroy = false

/-- What frees a connection takes its I/O object. -/
theorem sysStep_io_of_destroys (hstep : sysStep lib s a = some s') (hrunning : Running lib s)
    (hdestroys : a.destroys s.conn = true) : s'.conn.io = none := by
  have hlive := sysStep_live lib hstep
  have hfree : s.conn.inUse = false → (connDestroy s.conn).io = none := by
    intro hidle
    simp only [connDestroy, hidle, Bool.false_eq_true, if_false]
  unfold sysStep at hstep
  rw [if_neg (by simp [hlive])] at hstep
  cases a with
  | connDestroy =>
    obtain rfl := Option.some.inj hstep
    exact hfree (by simpa [Action.destroys] using hdestroys)
  | finish =>
    simp only at hstep
    split at hstep
    · rename_i hpc
      have hrest : s.pc.busy = false := by rcases hpc with hpc | hpc <;> simp [hpc, Pc.busy]
      obtain rfl := Option.some.inj hstep
      dsimp only
      rw [if_pos (show s.conn.destroy = true from hdestroys)]
      exact hfree (hrunning.link.rest hrest).1
    · cases hstep
  | _ => cases hdestroys

/-- Every action keeps to this. -/
theorem Ends.step (h : Ends s) (hstep : sysStep lib s a = some s') (hrunning : Running lib s) : Ends s' := by
  have hlive := sysStep_live lib hstep
  refine ⟨fun hfreed => ?_, fun hidle hlive' => ?_⟩
  · cases hdestroys : a.destroys s.conn with
    | true => exact sysStep_io_of_destroys hstep hrunning hdestroys
    | false =>
      rw [(sysStep_kept hstep hrunning hdestroys).1] at hfreed
      cases hfreed
  · have hkept := not_destroys_of_live hrunning hstep hlive'
    have hpc : s.conn.destroy = false ∧ (a = .connDestroy → s.pc = .idle) := by
      cases sysStep_walk hstep with
      | stays _ _ hpc => exact ⟨h.idle (hpc ▸ hidle) hlive, fun _ => hpc ▸ hidle⟩
      | connected who _ _ hpc =>
        refine ⟨h.idle ?_ hlive, fun ha => by cases ha⟩
        rw [hidle] at hpc
        split at hpc
        · cases hpc
        · exact hpc.symm
      | enters _ _ hpc => exact ⟨h.idle hpc hlive, fun ha => by cases ha⟩
      | resumes _ _ _ hpc => simp [hidle] at hpc
      | delivers _ _ _ _ heq => cases heq ▸ hidle
      | returns _ heq => cases heq ▸ hidle
      | drains _ _ heq => cases heq ▸ hidle
      | reconnects _ _ hpc => simp [hidle] at hpc
      | finishes => exact ⟨hkept, fun ha => by cases ha⟩
    refine sysStep_unasked hstep hrunning hpc.1 fun ha => ?_
    subst ha
    have hbusy : s.conn.inUse = true := by simpa [Action.destroys] using hkept
    rw [(hrunning.link.rest (by rw [hpc.2 rfl]; rfl)).1] at hbusy
    cases hbusy

/-- In every reached state. -/
theorem ends_of_reachable (h : (monetra lib).Reachable s) : Ends s := by
  refine System.Reachable.invariant (monetra lib) ?_ (fun s a s' hs hends hstep => ?_) h
  · rintro s ⟨host, port, -, -, rfl⟩
    exact ⟨fun _ => rfl, fun _ _ => rfl⟩
  · exact Ends.step hends hstep (running_of_reachable hs)

/-- A connection that is up while no handler runs is at rest, and nobody has destroyed it. -/
theorem rested_of_up (h : (monetra lib).Reachable s) (hidle : s.pc = .idle)
    (hup : s.conn.io.any Io.up = true) : Rested lib s := by
  have hends := ends_of_reachable h
  have hlive : s.conn.freed = false := by
    by_contra hfreed
    rw [hends.freed (by simpa using hfreed)] at hup
    cases hup
  exact ⟨⟨h, hends.idle hidle hlive, hlive⟩, hidle⟩

end Rest

section Unread

variable {lib} {s s' : Sys} {a : Action}

/-- The read event leaves no whole frame unread, unless it is interrupted by the answer to the ping. -/
theorem readFrames_unread (c : Conn) :
    (readFrames lib c).2 = .cleaning .reply ∨ frameScan (readFrames lib c).1.inbuf = .wait := by
  induction hsize : c.inbuf.length using Nat.strong_induction_on generalizing c with
  | _ size ih =>
    have hsame : readFrames lib c = readFrames lib { c with inbuf := c.inbuf } := rfl
    rw [hsame]
    cases hscan : frameScan c.inbuf with
    | wait =>
      rw [readFrames_wait c hscan]
      dsimp only
      rw [readEnded_inbuf]
      exact Or.inr hscan
    | bad =>
      rw [readFrames_bad c hscan]
      dsimp only
      rw [readEnded_inbuf]
      exact Or.inr rfl
    | frame msg rest =>
      have hshort : rest.length < size := hsize ▸ frameScanner.frame_shorter c.inbuf msg rest hscan
      have hagain : ∀ c : Conn, (readFrames lib (c.behind [] [] rest)).2 = .cleaning .reply ∨
          frameScan (readFrames lib (c.behind [] [] rest)).1.inbuf = .wait :=
        fun c => ih rest.length hshort (c.behind [] [] rest) rfl
      rw [readFrames_frame c hscan]
      rcases connParseMsg lib { c with trace := c.trace ++ [.consumed msg] } msg with ⟨c', err, q⟩
      cases err with
      | error =>
        dsimp only
        rw [readEnded_inbuf]
        exact Or.inr rfl
      | wait => exact hagain c'
      | success =>
        cases q with
        | none => exact hagain c'
        | some p =>
          have hbehind : transCompleted (c'.behind [] [] rest) p = (transCompleted c' p).behind [] [] rest :=
            unaware_transCompleted p c' [] [] rest
          dsimp only
          split
          · exact Or.inl rfl
          · rw [hbehind]
            exact hagain _

/-- No whole frame waits in `inbuf`, unless the answer to the ping has interrupted the read event. -/
def Unread (s : Sys) : Prop := s.pc = .cleaning .reply ∨ frameScan s.conn.inbuf = .wait

/-- Away from the answer to the ping nothing whole is unread. -/
theorem Unread.wait (h : Unread s) (hpc : s.pc ≠ .cleaning .reply) : frameScan s.conn.inbuf = .wait :=
  h.resolve_left hpc

/-- An action that leaves `inbuf` alone, and the interruption. -/
theorem Unread.same (h : Unread s) (hinbuf : s'.conn.inbuf = s.conn.inbuf)
    (hpc : s.pc = .cleaning .reply → s'.pc = .cleaning .reply) : Unread s' :=
  h.imp hpc fun hwait => hinbuf ▸ hwait

/-- Every action leaves no whole frame unread. -/
theorem Unread.step (h : Unread s) (hrunning : Running lib s) (hstep : sysStep lib s a = some s') :
    Unread s' := by
  have hidle : s.pc = .idle → frameScan s.conn.inbuf = .wait := fun hpc => h.wait (by simp [hpc])
  cases sysStep_move hstep hrunning with
  | aside a new _ haside => exact h.same haside.inbuf (haside.cleaning .reply).mpr
  | accepted p t _ _ _ heq => exact heq ▸ h.same rfl id
  | sent p t hup _ _ heq =>
    obtain ⟨_, _, _, _, _, hshape, -⟩ := transSendMessages_shape lib { s.conn with
      toTransStore := (s.conn.toTransStore.move p t { t with status := .ready }).log (.accepted p) } hup
    subst heq
    exact h.same (by rw [hshape]) id
  | refused a _ _ _ pc _ hpc heq =>
    subst heq
    exact h.same rfl fun hreply => hpc.resolve_right (by simp [hreply]) ▸ hreply
  | opened a _ io _ _ _ pc _ _ _ _ hpc heq =>
    subst heq
    exact h.same rfl fun hreply => hpc.resolve_right (by simp [hreply]) ▸ hreply
  | dialed a io _ _ _ pc _ _ _ _ hpc heq =>
    subst heq
    exact h.same rfl fun hreply => hpc.resolve_right (by simp [hreply]) ▸ hreply
  | registered who hwho heq =>
    subst heq
    refine h.same rfl fun hreply => ?_
    have hcaller : who ≠ .handler := by
      rintro rfl
      simpa [hreply] using hrunning.link.connecting hwho
    exact (if_neg hcaller).trans hreply
  | dropped who _ hwho heq =>
    subst heq
    refine h.same rfl fun hreply => ?_
    have hcaller : who ≠ .handler := by
      rintro rfl
      simpa [hreply] using hrunning.link.connecting hwho
    exact (if_neg hcaller).trans hreply
  | disconnecting io _ _ heq => exact heq ▸ h.same rfl id
  | idled hpc _ _ heq => exact heq ▸ Or.inr (hidle hpc)
  | pinged _ _ _ hpc _ _ _ heq => exact heq ▸ Or.inr (hidle hpc)
  | unpinged draws written hpc _ _ heq =>
    obtain ⟨_, hshape, -⟩ := connCleanupPing_shape lib { s.conn with
      inUse := true
      io := s.conn.io.map fun io => { io with up := true } } rfl
    subst heq
    exact Or.inr (hshape ▸ hidle hpc)
  | failed failure text error _ _ heq =>
    subst heq
    exact Or.inr (by rw [connEventHandleConnError_inbuf]; rfl)
  | read chunk =>
    obtain ⟨-, -, rfl⟩ := sysStep_read hstep
    exact readFrames_unread _
  | wrote _ hpc _ heq => exact heq ▸ Or.inr (hidle hpc)
  | expired hpc _ _ heq =>
    obtain ⟨_, hshape, -⟩ := connCleanupPing_shape lib { s.conn with inUse := true } rfl
    subst heq
    exact Or.inr (hshape ▸ hidle hpc)
  | unguarded hpc heq =>
    obtain ⟨_, _, _, _, _, hshape, -⟩ := connEventSetConnected_shape lib { s.conn with pingtxn := none }
    subst heq
    refine Or.inr ?_
    rw [hshape]
    exact h.wait (by simp [hpc])
  | proved new r hpc =>
    obtain rfl : s' = { s with
        conn := (readFrames lib (connEventSetConnected lib { s.conn with pingtxn := none })).1
        pc := (readFrames lib (connEventSetConnected lib { s.conn with pingtxn := none })).2 } := by
      simpa [sysStep, handlerResume, hpc, sysStep_live lib hstep, eq_comm] using hstep
    exact readFrames_unread _
  | unproved error _ heq =>
    subst heq
    exact Or.inr (by rw [connEventHandleConnError_inbuf]; rfl)
  | destroyed a pc _ hidle _ heq =>
    subst heq
    refine Or.inr ?_
    simp only [connDestroy, hidle, Bool.false_eq_true, if_false]
    rfl

/-- In every reached state no whole frame is unread, unless the answer to the ping has interrupted the
read event. -/
theorem unread_of_reachable (h : (monetra lib).Reachable s) : Unread s := by
  refine System.Reachable.invariant (monetra lib) ?_ (fun s a s' hs hunread hstep => ?_) h
  · rintro s ⟨host, port, -, -, rfl⟩
    exact Or.inr rfl
  · exact Unread.step hunread (running_of_reachable hs) hstep

end Unread

section Read

variable {lib} {net : NetOutcome} {s s' : Sys}

/-- A connection inside the read event, after some of its messages. -/
structure Taken (c e : Conn) : Prop where
  tidy : Tidy e
  busy : e.inUse = true
  kept : e.destroy = c.destroy
  freed : e.freed = c.freed
  io : e.io = c.io
  alive : c.status ≠ .disconnected → e.status ≠ .disconnected

/-- A message keeps the connection open. -/
theorem Taken.takeMsg {c e : Conn} (h : Taken c e) (msg : Bytes) : Taken c (takeMsg lib e msg).1 := by
  obtain ⟨st, status, outbuf, timer, trigger, hshape, hstatus⟩ := @takeMsg_shape lib e h.busy msg
  have htidy := h.tidy.takeMsg lib msg
  rw [hshape] at htidy ⊢
  refine ⟨htidy, h.busy, h.kept, h.freed, h.io, fun halive => ?_⟩
  rcases hstatus with hsame | hup
  · exact fun hdown => h.alive halive (hsame.symm.trans hdown)
  · exact fun hdown => ConnStatus.noConfusion (hup.symm.trans hdown)

/-- The read event keeps the connection open as long as it takes messages. -/
theorem Rested.taken (h : Rested lib s) (chunk : Bytes) :
    Taken s.conn (readDrive lib s.conn chunk).state := by
  have hrunning := running_of_reachable h.reachable
  obtain ⟨-, -, hdelay⟩ := hrunning.link.rest (by rw [h.idle]; rfl)
  have hentered : Taken s.conn s.conn.marked :=
    ⟨.clean hrunning.rep rfl hdelay, rfl, rfl, rfl, rfl, id⟩
  exact drive_invariant frameScanner (LibMonetra.takeMsg lib) (Taken s.conn)
    (fun _ _ msg _ h _ => h.takeMsg msg) _ _ hentered

/-- The end of a read event leaves the connection object alone. -/
theorem readEnded_kept (d : Drive Conn UInt8) :
    (readEnded lib d).destroy = d.state.destroy ∧ (readEnded lib d).freed = d.state.freed := by
  obtain ⟨c, unread, stopped⟩ := d
  cases stopped with
  | false => exact ⟨rfl, rfl⟩
  | true => exact ⟨connEventHandleConnError_destroy _ _, connEventHandleConnError_freed _ _⟩

/-- The registration of an I/O object keeps the connection. -/
theorem Serving.connectFinish (h : Serving lib s) {eventAdd : Bool}
    (hstep : sysStep lib s (.connectFinish eventAdd) = some s') : Serving lib s' := by
  obtain ⟨_, _, _, hfinish, -⟩ := connConnectFinish_spec s.conn eventAdd
  have hreached := reachable_sysStep h.reachable hstep
  simp only [sysStep, h.opened, Bool.false_eq_true, if_false] at hstep
  split at hstep
  · cases hstep
  · obtain rfl := Option.some.inj hstep
    refine ⟨hreached, ?_, ?_⟩
    · rw [hfinish]
      exact h.kept
    · rw [hfinish]
      exact h.opened

/-- A handler leaves the connection at rest. -/
theorem Serving.settles (h : Serving lib s) (hsettles : Settles lib net s s') : Rested lib s' := by
  induction hsettles with
  | idle s hidle => exact ⟨h, hidle⟩
  | step s mid s' hbusy hstep _ ih =>
    refine ih ?_
    unfold Sys.handlerAction at hstep
    split at hstep
    · exact h.loop rfl hstep
    · split at hstep
      · exact h.loop rfl hstep
      · exact h.loop rfl hstep
    · exact h.loop rfl hstep
    · exact h.loop rfl hstep
    · exact h.connectFinish hstep
    all_goals exact h.loop rfl hstep

/-- A read event on a connection at rest is enabled, and its handler runs to its end. -/
theorem Rested.read (h : Rested lib s) (hup : s.conn.io.any Io.up = true) (chunk : Bytes) :
    ∃ entered connecting, sysStep lib s (.event (.read chunk)) = some entered ∧
      Settles lib net entered ⟨readLeft lib net s.conn chunk, .idle, s.callers, connecting⟩ := by
  obtain ⟨hkept, hlive⟩ := @readEnded_kept lib (readDrive lib s.conn chunk)
  have htaken := h.taken chunk
  obtain ⟨connecting, hleft⟩ := @settles_delivering lib net
    (readEnded lib (readDrive lib s.conn chunk)) s.callers s.connecting
    (hlive.trans (htaken.freed.trans h.opened)) (hkept.trans (htaken.kept.trans h.kept))
  have henters : sysStep lib s (.event (.read chunk)) = some { s with
      conn := (readFrames lib { s.conn with inUse := true, inbuf := s.conn.inbuf ++ chunk }).1
      pc := (readFrames lib { s.conn with inUse := true, inbuf := s.conn.inbuf ++ chunk }).2 } := by
    simp [sysStep, handlerEnter, eventEnabled, h.idle, hup, h.opened]
  exact ⟨_, connecting, henters, settles_readFrames { s.conn with inUse := true }
    (s.conn.inbuf ++ chunk) s.callers s.connecting h.opened rfl hleft⟩

/-- What a read event leaves is at rest again. -/
theorem Rested.of_read (h : Rested lib s) {entered : Sys} {chunk : Bytes}
    (henters : sysStep lib s (.event (.read chunk)) = some entered)
    (hsettles : Settles lib net entered s') :
    Rested lib s' ∧ s'.conn = readLeft lib net s.conn chunk := by
  obtain ⟨entered', connecting, henters', hsettles'⟩ :=
    @Rested.read lib net s h (sysStep_read henters).2.1 chunk
  obtain rfl := Option.some.inj (henters.symm.trans henters')
  obtain rfl := hsettles.unique hsettles'
  exact ⟨(h.toServing.loop rfl henters).settles hsettles, rfl⟩

end Read

section Append

variable {lib} {net : NetOutcome} {s : Sys} {chunk : Bytes}

/-- The deletion that was put off leaves everything but the transactions alone. -/
theorem Conn.cleared_shape (c : Conn) :
    c.cleared.status = c.status ∧ c.cleared.io = c.io ∧ c.cleared.inUse = c.inUse := by
  unfold Conn.cleared
  split <;> exact ⟨rfl, rfl, rfl⟩

/-- A connection in use is marked so. -/
theorem Conn.marked_of_busy {c : Conn} (h : c.inUse = true) : c.marked = c := by
  cases c
  simp_all [Conn.marked]

/-- What a read event leaves unread, once its handler has returned. -/
theorem Tidy.handlerLeft_inbuf {d : Drive Conn UInt8} (h : Tidy d.state) :
    (handlerLeft lib net (readEnded lib d)).inbuf = if d.stopped then [] else d.unread := by
  obtain ⟨-, hdelay⟩ := h.readEnded_cleared lib d.unread d.stopped
  obtain ⟨-, hinbuf⟩ := @handlerLeft_alike lib _ net hdelay
  exact hinbuf.trans (readEnded_inbuf lib d.state d.unread d.stopped)

/-- A read event that keeps the connection leaves what its messages have left, after the deletion that
they have put off. -/
theorem Taken.handlerLeft_alike {c : Conn} {d : Drive Conn UInt8} (h : Taken c d.state)
    (halive : c.status ≠ .disconnected) (hgoes : d.stopped = false) :
    Alike (handlerLeft lib net (readEnded lib d)).marked d.state.cleared := by
  obtain ⟨e, unread, stopped⟩ := d
  obtain rfl : stopped = false := hgoes
  obtain ⟨hclear, hdelay⟩ := h.tidy.readEnded_cleared lib unread false
  obtain ⟨halike, -⟩ := @LibMonetra.handlerLeft_alike lib _ net hdelay
  obtain ⟨hstatus, -, hbusy⟩ := e.cleared_shape
  have hup : (readEnded lib ⟨e.cleared, unread, false⟩).status ≠ .disconnected :=
    fun hdown => h.alive halive (hstatus.symm.trans hdown)
  rw [hclear, settled, if_neg fun hdown => hup hdown.1] at halike
  have hmarked := Conn.marked_of_busy (hbusy.trans h.busy)
  refine ⟨(congrArg Conn.marked halike.bare).trans ?_, halike.events⟩
  exact congrArg Conn.bare hmarked

/-- A connection that is up has not been given up. -/
theorem Rested.alive (h : Rested lib s) (hup : s.conn.io.any Io.up = true) :
    s.conn.status ≠ .disconnected := by
  have hstage := stage_of_reachable h.reachable h.opened
  intro hdown
  have hnone := hstage.down.mp hdown
  rw [hstage.registered_of_up hup] at hnone
  cases hnone

/-- For the next read event, what a read event that keeps the connection leaves is related to what its
messages have left. -/
theorem Rested.readLeft_related (h : Rested lib s) (hup : s.conn.io.any Io.up = true)
    (hgoes : (readDrive lib s.conn chunk).stopped = false) :
    Related (readLeft lib net s.conn chunk).marked (readDrive lib s.conn chunk).state := by
  have htaken := h.taken chunk
  obtain ⟨entered, connecting, henters, hsettles⟩ := @Rested.read lib net s h hup chunk
  obtain ⟨hrested, -⟩ := h.of_read henters hsettles
  have hrunning := running_of_reachable hrested.reachable
  obtain ⟨-, -, hdelay⟩ := hrunning.link.rest rfl
  have hclear : (readLeft lib net s.conn chunk).marked.cleared = (readLeft lib net s.conn chunk).marked :=
    Conn.cleared_of_nil hdelay
  refine ⟨.clean hrunning.rep rfl hdelay, htaken.tidy, ?_⟩
  rw [hclear]
  exact htaken.handlerLeft_alike (h.alive hup) hgoes

/-- Two read events leave what one with both chunks leaves, if the first keeps the connection. -/
theorem Rested.readLeft_append (h : Rested lib s) (hup : s.conn.io.any Io.up = true)
    (hgoes : (readDrive lib s.conn chunk).stopped = false) (later : Bytes) :
    Alike (readLeft lib net (readLeft lib net s.conn chunk) later)
        (readLeft lib net s.conn (chunk ++ later)) ∧
      (readLeft lib net (readLeft lib net s.conn chunk) later).inbuf =
        (readLeft lib net s.conn (chunk ++ later)).inbuf := by
  have hwhole : readDrive lib s.conn (chunk ++ later) = drive frameScanner (takeMsg lib)
      (readDrive lib s.conn chunk).state ((readDrive lib s.conn chunk).unread ++ later) := by
    rw [readDrive, ← List.append_assoc]
    exact drive_append_of_running frameScanner (takeMsg lib) _ _ later hgoes
  have hunread : (readLeft lib net s.conn chunk).inbuf = (readDrive lib s.conn chunk).unread := by
    rw [readLeft, (h.taken chunk).tidy.handlerLeft_inbuf, hgoes]
    rfl
  have hsecond : readDrive lib (readLeft lib net s.conn chunk) later = drive frameScanner (takeMsg lib)
      (readLeft lib net s.conn chunk).marked ((readDrive lib s.conn chunk).unread ++ later) := by
    rw [readDrive, hunread]
  obtain ⟨hrelated, hrest, hstopped⟩ := drive_related frameScanner (takeMsg lib) (takeMsg lib) Related
    (fun _ _ msg hrel => hrel.takeMsg lib msg) _ _ ((readDrive lib s.conn chunk).unread ++ later)
    (@Rested.readLeft_related lib net s chunk h hup hgoes)
  rw [← hsecond, ← hwhole] at hrelated hrest hstopped
  refine ⟨?_, ?_⟩
  · have halike := @Related.handlerLeft lib _ _ net hrelated
      (readDrive lib (readLeft lib net s.conn chunk) later).unread
      (readDrive lib s.conn (chunk ++ later)).unread
      (readDrive lib (readLeft lib net s.conn chunk) later).stopped
    rw [show readLeft lib net s.conn (chunk ++ later) = handlerLeft lib net (readEnded lib
      ⟨(readDrive lib s.conn (chunk ++ later)).state, (readDrive lib s.conn (chunk ++ later)).unread,
        (readDrive lib s.conn (chunk ++ later)).stopped⟩) from rfl, ← hstopped]
    exact halike
  · have hinbuf := @Tidy.handlerLeft_inbuf lib net _ hrelated.tidy
    rw [hrest, hstopped] at hinbuf
    exact hinbuf.trans (@Tidy.handlerLeft_inbuf lib net _ hrelated.tidy').symm

/-- A read event that has stopped leaves nothing of what follows the bad message. -/
theorem readEnded_unread (c : Conn) (unread unread' : Bytes) :
    readEnded lib ⟨c, unread, true⟩ = readEnded lib ⟨c, unread', true⟩ := by
  simp only [readEnded, if_true, connEventHandleConnError_eq]
  rfl

/-- A new I/O object is not up. -/
theorem reconnected_closed {c : Conn} (hio : c.io = none) : (reconnected lib net c).io.any Io.up = false := by
  rcases hcreate : net.netCreate with _ | text
  · rcases hmode : c.mode with _ | _ <;> rcases htls : net.tlsAdd with _ | text <;>
      cases hcb : c.iocreateCb <;> cases hadd : net.eventAdd <;>
        simp [reconnected, connConnectBegin, connConnectFinish, setError, hio, hcreate, hmode, htls, hcb, hadd]
  · simp [reconnected, connConnectBegin, setError, hio, hcreate]

/-- Once the I/O object is gone, a handler leaves none that is up. -/
theorem settled_closed {c : Conn} (hio : c.io = none) : (settled lib net c).io.any Io.up = false := by
  unfold settled
  split
  · exact reconnected_closed hio
  · rw [show ({ c with inUse := false } : Conn).io = none from hio]
    rfl

/-- A read event that has stopped leaves no I/O object that is up. -/
theorem Tidy.handlerLeft_closed {d : Drive Conn UInt8} (h : Tidy d.state) (hstopped : d.stopped = true) :
    (handlerLeft lib net (readEnded lib d)).io.any Io.up = false := by
  obtain ⟨e, unread, stopped⟩ := d
  obtain rfl : stopped = true := hstopped
  obtain ⟨hclear, hdelay⟩ := h.readEnded_cleared lib unread true
  obtain ⟨halike, -⟩ := @handlerLeft_alike lib _ net hdelay
  have hio : (readEnded lib ⟨e.cleared, unread, true⟩).io = none := connEventHandleConnError_io _ _
  have hsame : (handlerLeft lib net (readEnded lib ⟨e, unread, true⟩)).io =
      (settled lib net (readEnded lib ⟨e.cleared, unread, true⟩)).io := by
    rw [← hclear]
    exact halike.io
  rw [hsame]
  exact settled_closed hio

/-- What follows a bad message is not read. -/
theorem readLeft_stopped {c : Conn} (hstopped : (readDrive lib c chunk).stopped = true) (later : Bytes) :
    readLeft lib net c (chunk ++ later) = readLeft lib net c chunk := by
  have hwhole : (readDrive lib c (chunk ++ later)).stopped = true ∧
      (readDrive lib c (chunk ++ later)).state = (readDrive lib c chunk).state := by
    rw [readDrive, ← List.append_assoc]
    exact drive_append_of_stopped frameScanner (takeMsg lib) _ _ later hstopped
  have hended : ∀ d : Drive Conn UInt8, d.stopped = true →
      readEnded lib d = readEnded lib ⟨d.state, [], true⟩ := by
    rintro ⟨e, unread, stopped⟩ rfl
    exact readEnded_unread e unread []
  rw [readLeft, readLeft, hended _ hstopped, hended _ hwhole.1, hwhole.2]

/-- Connections that are at rest are alike if they are so inside a handler. -/
theorem Alike.of_marked {c d : Conn} (h : Alike c.marked d.marked) (hidle : c.inUse = false)
    (hidle' : d.inUse = false) : Alike c d := by
  have hback : ∀ c : Conn, c.inUse = false → c.bare = { c.marked.bare with inUse := false } := by
    intro c hidle
    cases c
    simp_all [Conn.marked, Conn.bare]
  refine ⟨?_, h.events⟩
  rw [hback c hidle, hback d hidle', h.bare]

/-- An empty chunk changes nothing. -/
theorem Rested.readLeft_nil (h : Rested lib s) (hup : s.conn.io.any Io.up = true) :
    Alike (readLeft lib net s.conn []) s.conn ∧ (readLeft lib net s.conn []).inbuf = s.conn.inbuf := by
  have hrunning := running_of_reachable h.reachable
  obtain ⟨hidle, -, hdelay⟩ := hrunning.link.rest (by rw [h.idle]; rfl)
  have hwait : frameScan s.conn.inbuf = .wait :=
    (unread_of_reachable h.reachable).wait (by simp [h.idle])
  have hdrive : readDrive lib s.conn [] = ⟨s.conn.marked, s.conn.inbuf, false⟩ := by
    rw [readDrive, List.append_nil]
    exact drive_wait frameScanner (takeMsg lib) hwait
  obtain ⟨entered, connecting, henters, hsettles⟩ := @Rested.read lib net s h hup []
  obtain ⟨hrested, -⟩ := h.of_read henters hsettles
  obtain ⟨hidle', -, hdelay'⟩ := (running_of_reachable hrested.reachable).link.rest rfl
  have hrelated := (@Rested.readLeft_related lib net s [] h hup (by rw [hdrive])).alike
  have hclear : s.conn.marked.cleared = s.conn.marked := Conn.cleared_of_nil hdelay
  have hclear' : (readLeft lib net s.conn []).marked.cleared = (readLeft lib net s.conn []).marked :=
    Conn.cleared_of_nil hdelay'
  rw [hdrive, hclear, hclear'] at hrelated
  refine ⟨hrelated.of_marked hidle' hidle, ?_⟩
  have hinbuf := @Tidy.handlerLeft_inbuf lib net _ (h.taken []).tidy
  rw [hdrive] at hinbuf
  rw [readLeft, hdrive]
  exact hinbuf

end Append

section Stream

variable {lib} {net : NetOutcome} {s s' : Sys} {chunks : List Bytes}

/-- The reading of a stream is a run of the library. -/
theorem ReadsStream.run (h : ReadsStream lib net s chunks s') :
    ∃ actions, (monetra lib).run s actions = some s' := by
  induction h with
  | done s => exact ⟨[], rfl⟩
  | closed s chunks _ => exact ⟨[], rfl⟩
  | read s entered mid s' chunk rest henters hsettles _ ih =>
    obtain ⟨handler, hhandler⟩ := hsettles.run
    obtain ⟨actions, hrun⟩ := ih
    refine ⟨.event (.read chunk) :: (handler ++ actions), ?_⟩
    rw [System.run, show (monetra lib).step s (.event (.read chunk)) = some entered from henters,
      Option.bind_some, System.run_append, hhandler]
    exact hrun

/-- Nothing is read from a connection that is not up. -/
theorem ReadsStream.of_closed (h : ReadsStream lib net s chunks s') (hclosed : s.conn.io.any Io.up = false) :
    s' = s := by
  cases h with
  | done => rfl
  | closed => rfl
  | read _ entered _ _ chunk rest henters =>
    have hup := (sysStep_read henters).2.1
    rw [hclosed] at hup
    cases hup

/-- Every stream can be read. -/
theorem Rested.reads (h : Rested lib s) (net : NetOutcome) (chunks : List Bytes) :
    ∃ s', ReadsStream lib net s chunks s' := by
  induction chunks generalizing s with
  | nil => exact ⟨s, .done s⟩
  | cons chunk rest ih =>
    cases hup : s.conn.io.any Io.up with
    | false => exact ⟨s, .closed s _ hup⟩
    | true =>
      obtain ⟨entered, connecting, henters, hsettles⟩ := @Rested.read lib net s h hup chunk
      obtain ⟨s', hrest⟩ := ih (h.of_read henters hsettles).1
      exact ⟨s', .read s entered _ s' chunk rest henters hsettles hrest⟩

/-- The chunks of a stream leave what one read event with the whole stream leaves. -/
theorem ReadsStream.alike (h : ReadsStream lib net s chunks s') (hrested : Rested lib s)
    (hup : s.conn.io.any Io.up = true) :
    Rested lib s' ∧ Alike s'.conn (readLeft lib net s.conn chunks.flatten) ∧
      s'.conn.inbuf = (readLeft lib net s.conn chunks.flatten).inbuf := by
  induction h with
  | done s =>
    obtain ⟨halike, hinbuf⟩ := @Rested.readLeft_nil lib net s hrested hup
    exact ⟨hrested, halike.symm, hinbuf.symm⟩
  | closed s chunks hclosed =>
    rw [hclosed] at hup
    cases hup
  | read s entered mid s' chunk rest henters hsettles hstream ih =>
    obtain ⟨hmid, hconn⟩ := hrested.of_read henters hsettles
    have htaken := hrested.taken chunk
    rw [List.flatten_cons]
    cases hstopped : (readDrive lib s.conn chunk).stopped with
    | true =>
      have hclosed := @Tidy.handlerLeft_closed lib net _ htaken.tidy hstopped
      obtain rfl := hstream.of_closed (hconn ▸ hclosed)
      rw [readLeft_stopped hstopped, ← hconn]
      exact ⟨hmid, ⟨rfl, rfl⟩, rfl⟩
    | false =>
      have hrelated := @Rested.readLeft_related lib net s chunk hrested hup hstopped
      have hio : mid.conn.io = s.conn.io := by
        obtain ⟨-, hclear, -⟩ := (readLeft lib net s.conn chunk).marked.cleared_shape
        obtain ⟨-, hclear', -⟩ := (readDrive lib s.conn chunk).state.cleared_shape
        rw [hconn, ← htaken.io, ← hclear']
        exact hclear.symm.trans hrelated.alike.io
      obtain ⟨hlast, halike, hinbuf⟩ := ih hmid (hio ▸ hup)
      obtain ⟨hboth, hboth'⟩ := @Rested.readLeft_append lib net s chunk hrested hup hstopped rest.flatten
      rw [hconn] at halike hinbuf
      exact ⟨hlast, halike.trans hboth, hinbuf.trans hboth'⟩

/-- At rest the events that have been queued have been delivered. -/
theorem Rested.callbacksOf_eq (h : Rested lib s) : callbacksOf s.conn.trace = eventsOf s.conn.trace := by
  obtain ⟨tape, htape⟩ : ∃ tape, (taped lib).Reachable (s, tape) :=
    System.Reachable.monitored _ _ _ h.reachable
  have hdelivered := (@grammar_of_reachable lib (s, tape) htape h.opened).delivered h.kept
  obtain ⟨-, hevents, -⟩ := (running_of_reachable h.reachable).link.rest (by rw [h.idle]; rfl)
  dsimp only at hdelivered
  rwa [hevents, List.append_nil] at hdelivered

/-- A run only adds to the record. -/
theorem ReadsStream.callbacks (h : ReadsStream lib net s chunks s') (hrested : Rested lib s) :
    callbacksOf s'.conn.trace = callbacksOf s.conn.trace ++ callbacksBetween s s' := by
  obtain ⟨actions, hrun⟩ := h.run
  obtain ⟨new, htrace⟩ :=
    StoreSteps.trace_append ((running_of_reachable hrested.reachable).run actions hrun).2
  rw [callbacksBetween, htrace, List.drop_left, callbacksOf_append]

/-- Chunking does not matter. From every connection that is up and at rest, every stream can be read
however it is cut, and all the ways to cut it have the same outcome. -/
theorem chunking_does_not_matter (lib : Mstdlib) (net : NetOutcome) {s : Sys}
    (h : (monetra lib).Reachable s) (hidle : s.pc = .idle) (hup : s.conn.io.any Io.up = true)
    (chunks₁ chunks₂ : List Bytes) (hstream : chunks₁.flatten = chunks₂.flatten) :
    (∃ s₁, ReadsStream lib net s chunks₁ s₁) ∧ (∃ s₂, ReadsStream lib net s chunks₂ s₂) ∧
      ∀ s₁ s₂, ReadsStream lib net s chunks₁ s₁ → ReadsStream lib net s chunks₂ s₂ →
        SameOutcome s s₁ s₂ := by
  have hrested := rested_of_up h hidle hup
  refine ⟨hrested.reads net chunks₁, hrested.reads net chunks₂, fun s₁ s₂ hreads₁ hreads₂ => ?_⟩
  obtain ⟨hrested₁, halike₁, hinbuf₁⟩ := hreads₁.alike hrested hup
  obtain ⟨hrested₂, halike₂, hinbuf₂⟩ := hreads₂.alike hrested hup
  rw [hstream] at halike₁ hinbuf₁
  have halike := halike₁.trans halike₂.symm
  have hevents := halike.events
  rw [← hrested₁.callbacksOf_eq, ← hrested₂.callbacksOf_eq, hreads₁.callbacks hrested,
    hreads₂.callbacks hrested] at hevents
  exact ⟨List.append_cancel_left hevents, halike.heap, halike.status, hinbuf₁.trans hinbuf₂.symm⟩

end Stream

/-- The approval of the sale in three pieces, and in one. -/
theorem chunking_does_not_matter_sale : ∃ s₁ s₂,
    ReadsStream reference openNet saleSent [stx :: decimal 7, fs :: ascii "code=AUTH", [etx]] s₁ ∧
      ReadsStream reference openNet saleSent [responseFrame 7 (ascii "code=AUTH")] s₂ ∧
      SameOutcome saleSent s₁ s₂ := by
  obtain ⟨⟨s₁, hpieces⟩, ⟨s₂, hwhole⟩, hsame⟩ := chunking_does_not_matter reference openNet
    saleSent_reachable (by decide) (by decide) [stx :: decimal 7, fs :: ascii "code=AUTH", [etx]]
    [responseFrame 7 (ascii "code=AUTH")] (by decide)
  exact ⟨s₁, s₂, hpieces, hwhole, hsame s₁ s₂ hpieces hwhole⟩

end LibMonetra
