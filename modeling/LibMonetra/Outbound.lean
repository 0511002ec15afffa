import LibMonetra.Chunking

/-!
# The bytes on their way out

Requests are appended to `outbuf` whole, and leave it in pieces of any size: the I/O object takes what it
can, at a write event or at once behind the ping. What an I/O object has been handed, and what still
waits in `outbuf`, is the requests that were structured for it, one after the other.
-/

namespace LibMonetra

open Foundation

variable (lib : Mstdlib)

/-- The requests that a record structures, with who created their transactions. -/
def requestsIn (trace : List Obs) : List (Owner × Bytes) :=
  trace.filterMap fun o => match o with
    | .framed _ owner _ frame => some (owner, frame)
    | _ => none

/-- The bytes of requests, in order. -/
def bytesOf (requests : List (Owner × Bytes)) : Bytes := (requests.map Prod.snd).flatten

@[simp] theorem requestsIn_append (trace later : List Obs) :
    requestsIn (trace ++ later) = requestsIn trace ++ requestsIn later := List.filterMap_append

@[simp] theorem bytesOf_append (requests later : List (Owner × Bytes)) :
    bytesOf (requests ++ later) = bytesOf requests ++ bytesOf later := by simp [bytesOf]

/-- The requests that an action structures. -/
def newRequests (s s' : Sys) : List (Owner × Bytes) :=
  requestsIn (s'.conn.trace.drop s.conn.trace.length)

/-- The bytes that an action hands to the I/O object: a write event what the object takes of `outbuf`, and
the event that the connection is up what it takes with the ping. -/
def handedBy (s s' : Sys) : Action → Bytes
  | .event (.write written) => s.conn.outbuf.take written
  | .event (.connected _ written) =>
    if s.conn.disablePing then [] else (s.conn.outbuf ++ bytesOf (newRequests s s')).take written
  | _ => []

/-- The requests that were structured for an I/O object, and the bytes that it has been handed. -/
structure Outbound where
  requests : List (Owner × Bytes)
  handed : Bytes

/-- What an action adds, while an I/O object is registered. -/
def Outbound.goOn (out : Outbound) (s : Sys) (a : Action) (s' : Sys) : Outbound :=
  if s'.registered then ⟨out.requests ++ newRequests s s', out.handed ++ handedBy s s' a⟩ else ⟨[], []⟩

/-- The library with a monitor that keeps what goes out over the I/O object that is registered. -/
def outbound : System (Sys × Outbound) Action :=
  (monetra lib).monitor ⟨[], []⟩ fun s a s' out => out.goOn s a s'

/-- What has gone out, and what waits in `outbuf`, is the requests of the I/O object; the ping is the
first of them, if there is one. -/
structure Delivers (w : Sys × Outbound) : Prop where
  exact : w.2.handed ++ w.1.conn.outbuf = bytesOf w.2.requests
  pingFirst : ∀ request ∈ w.2.requests.tail, request.1 = .user
  /-- Nothing goes out before the connection is up, or once it has ended. -/
  silent : w.1.conn.io.any Io.up = false → w.2.requests = [] ∧ w.2.handed = [] ∧ w.1.conn.outbuf = []

section Records

variable {lib}

/-- Whether a record structures a request. -/
def Obs.structures : Obs → Bool
  | .framed _ _ _ _ => true
  | _ => false

/-- Other records structure none. -/
theorem requestsIn_eq_nil {new : List Obs} (h : ∀ o ∈ new, o.structures = false) : requestsIn new = [] := by
  refine List.filterMap_eq_nil_iff.mpr fun o ho => ?_
  have hnone := h o ho
  cases o <;> simp_all [Obs.structures]

/-- What happens without the network structures nothing. -/
theorem Obs.structures_of_isLocal {o : Obs} (h : o.isLocal = true) : o.structures = false := by
  cases o <;> simp_all [Obs.isLocal, Obs.structures]

/-- A report structures nothing. -/
theorem Obs.structures_of_isReport {o : Obs} (h : o.isReport = true) : o.structures = false := by
  cases o <;> simp_all [Obs.isReport, Obs.structures]

/-- What is read structures nothing. -/
theorem ReadsFrom.structures {s : TransStore} {o : Obs} (h : ReadsFrom s o) : o.structures = false := by
  rcases h with ⟨msg, rfl⟩ | ⟨p, msg, -, rfl⟩ | ⟨p, -, -, rfl⟩ <;> rfl

/-- A record that continues another one, by what it adds. -/
theorem newRequests_eq {s s' : Sys} {new : List Obs} (h : s'.conn.trace = s.conn.trace ++ new) :
    newRequests s s' = requestsIn new := by
  rw [newRequests, h, List.drop_left]

end Records

section Pieces

variable {lib} {c : Conn}

/-- A piece of the library that appends to `outbuf` the requests of callers that it records. -/
def Appends (c c' : Conn) : Prop :=
  ∃ new, c'.trace = c.trace ++ new ∧ c'.outbuf = c.outbuf ++ bytesOf (requestsIn new) ∧
    ∀ request ∈ requestsIn new, request.1 = .user

/-- A piece that structures nothing. -/
theorem Appends.still {c' : Conn} {new : List Obs} (htrace : c'.trace = c.trace ++ new)
    (hnew : ∀ o ∈ new, o.structures = false) (hout : c'.outbuf = c.outbuf) : Appends c c' :=
  ⟨new, htrace, by simp [requestsIn_eq_nil hnew, bytesOf, hout], by simp [requestsIn_eq_nil hnew]⟩

/-- Two pieces are one. -/
theorem Appends.trans {c' c'' : Conn} (h : Appends c c') (h' : Appends c' c'') : Appends c c'' := by
  obtain ⟨new, htrace, hout, huser⟩ := h
  obtain ⟨new', htrace', hout', huser'⟩ := h'
  refine ⟨new ++ new', by rw [htrace', htrace, List.append_assoc],
    by rw [hout', hout, requestsIn_append, bytesOf_append, List.append_assoc], fun request hrequest => ?_⟩
  rw [requestsIn_append, List.mem_append] at hrequest
  exact hrequest.elim (huser request) (huser' request)

/-- The loop of `LM_trans_send_messages` appends the requests that it submits. -/
theorem sendMessagesLoop_appends (ready : List Ptr) (hready : c.transReady = ready)
    (hok : c.toTransStore.Ok lib) (hup : c.status = .connected) (hquiet : c.toTransStore.quiet) :
    Appends c (sendMessagesLoop lib ready c) := by
  induction ready generalizing c with
  | nil => exact .still (List.append_nil _).symm (by simp) rfl
  | cons p rest ih =>
    obtain ⟨t, ht, hturn, hstep, hrest, hnext⟩ := sendMessagesLoop_turn lib hready hok.rep hup hquiet
    rw [hturn]
    refine Appends.trans ?_ (ih hrest ((StoreStep.internal _ _ hstep).ok hok) hup hnext)
    have hst : t.status = .ready := by
      refine hok.rep.status_of_mem (show p ∈ c.connQueue .ready from ?_) ht
      simp [TransStore.connQueue, hready]
    have howner : t.owner = .user := (hok.life p).timed.user_of_status ht (by simp [hst])
    refine ⟨[.framed p t.owner .connected (t.request lib)], ?_, ?_, ?_⟩
    · exact TransStore.trace_submit ..
    · simp [Conn.submitFirst, requestsIn, bytesOf]
    · simp [requestsIn, howner]

/-- `LM_trans_send_messages` on a connection that is up. -/
theorem transSendMessages_appends (hok : c.toTransStore.Ok lib) (hup : c.status = .connected)
    (hquiet : c.toTransStore.quiet) : Appends c (transSendMessages lib c).1 := by
  have hloop := sendMessagesLoop_appends c.transReady rfl hok hup hquiet
  unfold transSendMessages
  rw [if_neg (by simp [hup]), if_neg (by simp [hup])]
  exact hloop

/-- `LM_conn_event_set_connected` after the ping is cleaned up. -/
theorem connEventSetConnected_appends (hok : c.toTransStore.Ok lib) (hquiet : c.toTransStore.quiet) :
    Appends c (connEventSetConnected lib c) := by
  have hadded : (c.toTransStore.connEventAdd .connConnected none).quiet := by
    intro e he
    simp only [TransStore.connEventAdd, List.mem_append, List.mem_singleton] at he
    rcases he with he | rfl
    · exact hquiet e he
    · exact EventType.noConfusion
  have hreported : Appends c { c with
      toTransStore := c.toTransStore.connEventAdd .connConnected none
      status := .connected } :=
    @Appends.still _ _ [.queued ⟨.connConnected, none⟩] rfl (by simp [Obs.structures]) rfl
  exact hreported.trans (transSendMessages_appends
    ((StoreStep.internal _ _ (.connEvent _ _ (Or.inl rfl))).ok hok) rfl hadded)

/-- `LM_conn_cleanup_ping` inside a handler. -/
theorem connCleanupPing_appends (lib : Mstdlib) (hbusy : c.inUse = true) :
    Appends c (connCleanupPing lib c) := by
  obtain ⟨new, hnew, hreports⟩ := connCleanupPing_reports lib c hbusy
  obtain ⟨st, heq, -⟩ := connCleanupPing_shape lib c hbusy
  exact .still hnew.trace (fun o ho => Obs.structures_of_isReport (hreports o ho)) (by rw [heq])

/-- A read event appends nothing, or gives the connection up. -/
theorem ReadEnd.appends {new : List Obs} {r : Conn × Pc} (h : ReadEnd lib c new r) (hbusy : c.inUse = true) :
    (Appends c r.1 ∧ r.1.io = c.io) ∨ (r.1.io = none ∧ r.1.outbuf = []) := by
  have hread : ∀ {c' : Conn}, Reads c c' new → Appends c c' ∧ c'.io = c.io := by
    intro c' hreads
    obtain ⟨_, _, _, _, _, _, _, hshape⟩ := hreads.shape
    exact ⟨.still hreads.handled.trace (fun o ho => (hreads.records o ho).structures) (by rw [hshape]),
      hreads.kept.2.2⟩
  cases h with
  | ping c' p t hreads hp hwait hbrought ht hst =>
    have hbusy' : c'.inUse = true := hreads.inUse.trans hbusy
    obtain ⟨st, hclean, -⟩ := connCleanupPing_shape lib c' hbusy'
    obtain ⟨happends, hio⟩ := hread hreads
    exact Or.inl ⟨happends.trans (connCleanupPing_appends lib hbusy'), by rw [hclean]; exact hio⟩
  | wait c' hreads =>
    obtain ⟨happends, hio⟩ := hread hreads
    exact Or.inl ⟨happends, hio⟩
  | error c' hreads => exact Or.inr ⟨connEventHandleConnError_io _ _, connEventHandleConnError_outbuf _ _⟩

end Pieces

section Step

variable {lib} {s s' : Sys} {a : Action} {out : Outbound}

/-- Without a registered I/O object nothing has gone out. -/
theorem Delivers.unregistered (hout : s.conn.outbuf = []) : Delivers (s, ⟨[], []⟩) :=
  ⟨by simp [hout, bytesOf], by simp, fun _ => ⟨rfl, rfl, hout⟩⟩

/-- An action that appends to `outbuf`, over a connection that is up unless it appends nothing. -/
theorem Delivers.appended (h : Delivers (s, out)) (happends : Appends s.conn s'.conn)
    (hhanded : handedBy s s' a = [])
    (hup : s'.conn.io.any Io.up = false → s.conn.io.any Io.up = false ∧ newRequests s s' = [])
    (hreg : s'.registered = false → s'.conn.io.any Io.up = false) : Delivers (s', out.goOn s a s') := by
  obtain ⟨new, htrace, hout, huser⟩ := happends
  have hnew := newRequests_eq htrace
  have hsilent : s'.conn.io.any Io.up = false →
      out.requests = [] ∧ out.handed = [] ∧ newRequests s s' = [] ∧ s'.conn.outbuf = [] := by
    intro hdown
    obtain ⟨hbefore, hnone⟩ := hup hdown
    obtain ⟨hrequests, hhanded, houtbuf⟩ := h.silent hbefore
    refine ⟨hrequests, hhanded, hnone, ?_⟩
    rw [hout, houtbuf, ← hnew, hnone]
    rfl
  unfold Outbound.goOn
  split
  · refine ⟨?_, fun request hrequest => ?_, fun hdown => ?_⟩
    · dsimp only
      rw [hhanded, List.append_nil, hout, ← List.append_assoc, h.exact, bytesOf_append, hnew]
    · dsimp only at hrequest
      rw [hnew] at hrequest
      cases hrequests : out.requests with
      | nil =>
        rw [hrequests, List.nil_append] at hrequest
        exact huser request (List.mem_of_mem_tail hrequest)
      | cons first rest =>
        rw [hrequests, List.cons_append, List.tail_cons, List.mem_append] at hrequest
        rcases hrequest with hold | hlater
        · exact h.pingFirst request (by simpa [hrequests] using hold)
        · exact huser request hlater
    · obtain ⟨hrequests, hempty, hnone, houtbuf⟩ := hsilent hdown
      simp [hrequests, hempty, hnone, hhanded, houtbuf]
  · rename_i hunreg
    exact .unregistered (hsilent (hreg (by simpa using hunreg))).2.2.2

/-- A write event hands over the front of `outbuf`. -/
theorem Delivers.wrote (h : Delivers (s, out)) {written : ℕ} (hup : s.conn.io.any Io.up = true)
    (htrace : s'.conn.trace = s.conn.trace) (hout : s'.conn.outbuf = s.conn.outbuf.drop written)
    (hio : s'.conn.io = s.conn.io) (hreg : s.registered = true) :
    Delivers (s', out.goOn s (.event (.write written)) s') := by
  have hnew : newRequests s s' = [] := by simp [newRequests, htrace, requestsIn]
  have hreg' : s'.registered = true := by rwa [Sys.registered, hio]
  have hexact := h.exact
  rw [Outbound.goOn, if_pos hreg', hnew, List.append_nil]
  refine ⟨?_, h.pingFirst, fun hdown => ?_⟩
  · simp only [handedBy, hout, List.append_assoc, List.take_append_drop]
    exact hexact
  · rw [hio, hup] at hdown
    cases hdown

/-- The event that the connection is up hands over the front of the ping. -/
theorem Delivers.pinged (h : Delivers (s, out)) {draws : List RandDraw} {written : ℕ} {frame : Bytes}
    (hdown : s.conn.io.any Io.up = false) (hping : s.conn.disablePing = false)
    (hnew : newRequests s s' = [(.ping, frame)])
    (hout : s'.conn.outbuf = (s.conn.outbuf ++ frame).drop written) (hup : s'.conn.io.any Io.up = true)
    (hreg : s'.registered = true) : Delivers (s', out.goOn s (.event (.connected draws written)) s') := by
  obtain ⟨hrequests, hhanded, houtbuf⟩ := h.silent hdown
  rw [Outbound.goOn, if_pos hreg, hrequests, hhanded, hnew, List.nil_append, List.nil_append]
  refine ⟨?_, by simp, fun hdown' => ?_⟩
  · simpa [handedBy, hping, hnew, hout, bytesOf] using houtbuf
  · rw [hup] at hdown'
    cases hdown'

/-- An action that leaves no I/O object. -/
theorem Delivers.lost (hio : s'.conn.io = none) (hout : s'.conn.outbuf = []) :
    Delivers (s', out.goOn s a s') := by
  rw [Outbound.goOn, if_neg (by simp [Sys.registered, hio])]
  exact .unregistered hout

/-- Whether an action may hand bytes to the I/O object. -/
def Action.writes : Action → Bool
  | .event (.write _) | .event (.connected _ _) => true
  | _ => false

/-- The other actions hand over nothing. -/
theorem handedBy_eq_nil (h : a.writes = false) : handedBy s s' a = [] := by
  unfold handedBy
  split <;> simp_all [Action.writes]

/-- The write event. -/
theorem sysStep_write {written : ℕ} (h : sysStep lib s (.event (.write written)) = some s') :
    s.conn.io.any Io.up = true ∧ s' = { s with
      conn := { s.conn with inUse := true, outbuf := s.conn.outbuf.drop written }
      pc := .delivering } := by
  have hlive := sysStep_live lib h
  unfold sysStep at h
  simp only [hlive, Bool.false_eq_true, if_false] at h
  split at h
  · rename_i henabled
    exact ⟨henabled.2, (Option.some.inj h).symm⟩
  · cases h

/-- The event that the connection is up. -/
theorem sysStep_connected {draws : List RandDraw} {written : ℕ}
    (h : sysStep lib s (.event (.connected draws written)) = some s') :
    s.conn.io.any (fun io => io.registered && !io.up) = true ∧
      handlerEnter lib s.conn (.connected draws written) = some (s'.conn, s'.pc) := by
  have hlive := sysStep_live lib h
  unfold sysStep at h
  simp only [hlive, Bool.false_eq_true, if_false] at h
  split at h
  · rename_i henabled
    obtain ⟨r, hr, rfl⟩ := Option.map_eq_some_iff.mp h
    exact ⟨henabled.2, hr⟩
  · cases h

/-- When the connection comes up, the ping goes out first, if there is one. -/
theorem Delivers.comesUp (h : Delivers (s, out)) {draws : List RandDraw} {written : ℕ}
    (hstep : sysStep lib s (.event (.connected draws written)) = some s') :
    Delivers (s', out.goOn s (.event (.connected draws written)) s') := by
  obtain ⟨hio, hr⟩ := sysStep_connected hstep
  obtain ⟨io, hsome, hio⟩ := (Option.any_eq_true _ _).mp hio
  simp only [Bool.and_eq_true, Bool.not_eq_true'] at hio
  have hdown : s.conn.io.any Io.up = false := by simp [hsome, hio.2]
  simp only [handlerEnter] at hr
  split at hr
  · rename_i hdisabled
    obtain ⟨hconn, -⟩ := Prod.mk.inj (Option.some.inj hr)
    have happends : Appends s.conn s'.conn := hconn ▸ @connCleanupPing_appends { s.conn with
      inUse := true
      io := s.conn.io.map fun io => { io with up := true } } lib rfl
    have hopen : s'.conn.io = some { io with up := true } := by
      obtain ⟨st, hclean, -⟩ := @connCleanupPing_shape lib { s.conn with
        inUse := true
        io := s.conn.io.map fun io => { io with up := true } } rfl
      rw [← hconn, hclean]
      simp [hsome]
    have hup : s'.conn.io.any Io.up = true := by simp [hopen]
    have hreg : s'.registered = true := by simp [Sys.registered, hopen, hio.1]
    refine h.appended happends (by simp [handedBy, hdisabled]) (fun hdown' => ?_) fun hunreg => ?_
    · rw [hup] at hdown'
      cases hdown'
    · rw [hreg] at hunreg
      cases hunreg
  · rename_i hping
    obtain ⟨⟨c, p⟩, hnew, hr⟩ := Option.map_eq_some_iff.mp hr
    obtain ⟨draw, hdraw, rfl, rfl⟩ := transPingRequest_spec hnew
    rw [Prod.mk.injEq] at hr
    have htrace : s'.conn.trace = s.conn.trace ++ [.created s.conn.nextPtr .ping,
        .framed s.conn.nextPtr .ping s.conn.status (requestFrame lib draw.val pingParams)] := by
      simp [← hr.1, TransStore.log]
    refine h.pinged hdown (by simpa using hping) (newRequests_eq htrace) ?_ ?_ ?_
    · simp [← hr.1]
    · simp [← hr.1, hsome]
    · simp [Sys.registered, ← hr.1, hsome, hio.1]

/-- How an action that hands nothing over treats `outbuf`. -/
inductive Outgoing (s s' : Sys) : Prop
  /-- It leaves the buffer alone. -/
  | calm (new : List Obs) : s'.conn.trace = s.conn.trace ++ new → (∀ o ∈ new, o.structures = false) →
      s'.conn.outbuf = s.conn.outbuf →
      (s'.conn.io.any Io.up = false → s.conn.io.any Io.up = false) → Outgoing s s'
  /-- It appends requests of callers, over a connection that is up. -/
  | sends : Appends s.conn s'.conn → s.conn.io.any Io.up = true → s'.conn.io = s.conn.io → Outgoing s s'
  /-- It leaves no connection. -/
  | lost : s'.conn.io = none → s'.conn.outbuf = [] → Outgoing s s'

/-- Every other action is one of these. -/
theorem Move.outgoing (hmove : Move lib s s' a) (hwrites : a.writes = false) (hrunning : Running lib s)
    (hstage : Stage s) : Outgoing s s' := by
  have hestablished : s.pc = .cleaning .reply ∨ s.pc = .cleaning .disabled →
      Appends s.conn (connEventSetConnected lib { s.conn with pingtxn := none }) := by
    intro hpc
    have happends := @connEventSetConnected_appends lib { s.conn with pingtxn := none }
      ((StoreStep.internal _ _ (.forgetPing _)).ok hrunning.ok) (hrunning.link.cleaning hpc)
    exact happends
  cases hmove with
  | aside a new hevents haside =>
    exact .calm new haside.trace (fun o ho => Obs.structures_of_isLocal (haside.records o ho))
      haside.outbuf fun hdown => haside.io ▸ hdown
  | accepted p t hne ht hnew heq =>
    subst heq
    exact .calm [.accepted p] (by simp [TransStore.log]) (by simp [Obs.structures]) rfl id
  | sent p t hup ht hnew heq =>
    subst heq
    have haccept : Appends s.conn { s.conn with
        toTransStore := (s.conn.toTransStore.move p t { t with status := .ready }).log (.accepted p) } :=
      @Appends.still _ _ [.accepted p] (by simp [TransStore.log]) (by simp [Obs.structures]) rfl
    have hquiet : ((s.conn.toTransStore.move p t { t with status := .ready }).log
        (.accepted p)).quiet := by
      intro e he
      exact hrunning.link.connected hup e (by simpa [TransStore.log] using he)
    obtain ⟨_, _, _, _, _, hshape, -⟩ := transSendMessages_shape lib { s.conn with
      toTransStore := (s.conn.toTransStore.move p t { t with status := .ready }).log (.accepted p) } hup
    refine .sends (haccept.trans (transSendMessages_appends
      ((StoreStep.accept _ p t ht hnew).ok hrunning.ok) hup hquiet)) ?_ (by rw [hshape])
    exact (hstage.proved (by simp [hup]) (by simp [hup])).1
  | refused a tlsctx error callers pc hconnects hpc heq =>
    subst heq
    exact .calm [] (List.append_nil _).symm (by simp) rfl id
  | opened a who io tlsctx error callers pc hconnects hnone hreg hup hpc heq =>
    subst heq
    exact .calm [] (List.append_nil _).symm (by simp) rfl fun _ => by simp [hnone]
  | dialed a io tlsctx error callers pc hconnects hnone hreg hup hpc heq =>
    subst heq
    exact .calm [] (List.append_nil _).symm (by simp) rfl fun _ => by simp [hnone]
  | registered who hwho heq =>
    subst heq
    refine .calm [] (List.append_nil _).symm (by simp) rfl fun hdown => ?_
    obtain ⟨io, hio, -, hup⟩ := hstage.of_connecting (by simp [hwho])
    simp [hio, hup]
  | dropped who error hwho heq =>
    subst heq
    obtain ⟨io, hio, -, hup⟩ := hstage.of_connecting (by simp [hwho])
    exact .lost rfl (hstage.blank (by simp [hio, hup])).outbuf
  | disconnecting io hup hio heq =>
    subst heq
    exact .calm [] (List.append_nil _).symm (by simp) rfl fun hdown => by simpa [hio] using hdown
  | idled hidle hup hpending heq =>
    subst heq
    refine .calm [] (List.append_nil _).symm (by simp) rfl fun hdown => ?_
    cases hio : s.conn.io with
    | none => rfl
    | some io => simpa [hio] using hdown
  | failed failure text error hidle hreg heq =>
    subst heq
    exact .lost (connEventHandleConnError_io _ _) (connEventHandleConnError_outbuf _ _)
  | read chunk new r hidle hup hend heq =>
    subst heq
    rcases hend.appends rfl with ⟨happends, hio⟩ | ⟨hio, hout⟩
    · exact .sends happends hup hio
    · exact .lost hio hout
  | expired hidle htimer hst heq =>
    subst heq
    obtain ⟨new, hnew, hreports⟩ := @connCleanupPing_reports lib { s.conn with inUse := true } rfl
    obtain ⟨st, hclean, -⟩ := @connCleanupPing_shape lib { s.conn with inUse := true } rfl
    exact .calm new hnew.trace (fun o ho => Obs.structures_of_isReport (hreports o ho)) (by rw [hclean])
      fun hdown => by simpa [hclean] using hdown
  | unguarded hpc heq =>
    subst heq
    exact .sends (hestablished (Or.inr hpc)) (hstage.cleaning _ hpc).1 (connEventSetConnected_io lib _)
  | proved new r hpc hend heq =>
    subst heq
    have hbusy : s.conn.inUse = true := hrunning.link.busy (by rw [hpc]; rfl)
    rcases hend.appends ((connEventSetConnected_inUse lib _).trans hbusy) with ⟨happends, hio⟩ | ⟨hio, hout⟩
    · exact .sends ((hestablished (Or.inl hpc)).trans happends) (hstage.cleaning _ hpc).1
        (hio.trans (connEventSetConnected_io lib _))
    · exact .lost hio hout
  | unproved error hpc heq =>
    subst heq
    exact .lost (connEventHandleConnError_io { s.conn with pingtxn := none, error := error } .error)
      (connEventHandleConnError_outbuf { s.conn with pingtxn := none, error := error } .error)
  | destroyed a pc hdestroys hidle hpc heq =>
    subst heq
    refine .lost ?_ ?_ <;> simp [connDestroy, hidle]
  | pinged | unpinged | wrote => cases hwrites

/-- No action loses a byte on its way out, or sends one twice. -/
theorem Delivers.step (h : Delivers (s, out)) (hrunning : Running lib s) (hstage : Stage s)
    (hclosed : s'.registered = false → s'.conn.io.any Io.up = false) (hstep : sysStep lib s a = some s') :
    Delivers (s', out.goOn s a s') := by
  cases hwrites : a.writes with
  | true =>
    unfold Action.writes at hwrites
    split at hwrites
    · obtain ⟨hup, rfl⟩ := sysStep_write hstep
      exact h.wrote hup rfl rfl rfl (hstage.registered_of_up hup)
    · exact h.comesUp hstep
    · cases hwrites
  | false =>
    have hhanded := @handedBy_eq_nil s s' a hwrites
    cases (sysStep_move hstep hrunning).outgoing hwrites hrunning hstage with
    | lost hio hout => exact .lost hio hout
    | sends happends hup hio =>
      have hup' : s'.conn.io.any Io.up = true := hio ▸ hup
      have hreg' : s'.registered = true := by
        rw [Sys.registered, hio]
        exact hstage.registered_of_up hup
      exact h.appended happends hhanded (fun hdown => by simp [hup'] at hdown) fun hunreg => by
        simp [hreg'] at hunreg
    | calm new htrace hnew hout hup =>
      refine h.appended (.still htrace hnew hout) hhanded (fun hdown => ⟨hup hdown, ?_⟩) fun hunreg => ?_
      · rw [newRequests_eq htrace, requestsIn_eq_nil hnew]
      · exact hclosed hunreg

/-- An I/O object that the event loop does not know is not up. -/
theorem closed_of_reachable (h : (monetra lib).Reachable s) (hunreg : s.registered = false) :
    s.conn.io.any Io.up = false := by
  cases hfreed : s.conn.freed with
  | true => simp [(ends_of_reachable h).freed hfreed]
  | false =>
    by_contra hup
    have hreg := (stage_of_reachable h hfreed).registered_of_up (by simpa using hup)
    rw [Sys.registered, hreg] at hunreg
    cases hunreg

end Step

/-- No byte is lost on its way out, or sent twice, or sent out of order. In every reachable state the bytes
that the I/O object has been handed, followed by those that wait in `outbuf`, are the requests that were
structured for it, whole and in order, the ping first. -/
theorem outbound_delivers {w : Sys × Outbound} (h : (outbound lib).Reachable w) : Delivers w := by
  refine System.Reachable.invariant (outbound lib) ?_ ?_ h
  · rintro ⟨s, out⟩ ⟨⟨host, port, -, -, hinit⟩, rfl⟩
    obtain rfl := hinit
    exact .unregistered rfl
  · rintro ⟨s, out⟩ a ⟨s', out'⟩ hs hdelivers hstep
    obtain ⟨hmoved, hout⟩ := System.monitor_step _ hstep
    have hreached := hs.of_monitor
    have hlive := sysStep_live lib hmoved
    obtain rfl : out' = out.goOn s a s' := hout
    exact hdelivers.step (running_of_reachable hreached) (stage_of_reachable hreached hlive)
      (closed_of_reachable (hreached.step hmoved)) hmoved

/-- The sale on its way out, four bytes of it behind the ping. -/
def saleLeaving : Sys × Outbound :=
  ((outbound reference).run (started, ⟨[], []⟩) (sendSale ++ [.event (.write 4)])).get (by decide)

/-- The ping has left, and the sale is cut in two. -/
theorem outbound_delivers_sale :
    saleLeaving.2.requests.map Prod.fst = [.ping, .user] ∧
      saleLeaving.2.handed = requestFrame reference 9 pingParams ++ stx :: decimal 7 ++ fs :: ascii "a" ∧
      saleLeaving.1.conn.outbuf ≠ [] ∧ Delivers saleLeaving :=
  ⟨by decide, by decide, by decide, outbound_delivers reference
    (System.reachable_get (outbound reference) ⟨started_init reference, rfl⟩ _ _)⟩

end LibMonetra
