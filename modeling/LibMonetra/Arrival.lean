import LibMonetra.Inbound

/-!
# What has arrived

Over which I/O object bytes come in, and that every action of a run takes whole frames off them: a
connection that has no I/O object has nothing left to read.
-/

namespace LibMonetra

open Foundation

variable {lib : Mstdlib}

/-- The bytes that an action brings. -/
def Action.chunk : Action → Bytes
  | .event io => io.chunk
  | _ => []

/-- The id that an action gives to the transaction it creates. -/
def Action.drawn (c : Conn) : Action → Option ℕ
  | .transNew draws | .transRunNew draws _ => (unusedDraw c draws).map fun draw => draw.val
  | .event (.connected draws _) =>
    if c.disablePing then none else (unusedDraw c draws).map fun draw => draw.val
  | _ => none

/-- Bytes come in over an I/O object that is up; an I/O object whose creation callback still runs is
not; and a connection that is being set up has one. -/
structure IoLink (s : Sys) : Prop where
  unread : s.conn.inbuf ≠ [] → s.conn.io.any Io.up = true
  connecting : s.connecting ≠ none → s.conn.freed = false →
    s.conn.io ≠ none ∧ s.conn.io.any Io.started = false ∧ s.conn.status ≠ .connecting ∧
      ∀ pingEnd, s.pc ≠ .cleaning pingEnd
  present : s.conn.freed = false →
    (s.conn.status = .connecting ∨ ∃ pingEnd, s.pc = .cleaning pingEnd) → s.conn.io ≠ none

/-- What an action does with the bytes that have arrived. -/
structure Arrived (c c' : Conn) (chunk : Bytes) (msgs : List Bytes) : Prop where
  inbound : inboundOf c'.trace = inboundOf c.trace ++ msgs.map .consumed
  plain : ∀ msg ∈ msgs, etx ∉ msg
  bytes : ∃ rest, c.inbuf ++ chunk = msgs.flatMap frameOf ++ rest ∧
    (c'.inbuf = rest ∨ (c'.inbuf = [] ∧ c'.io = none))

section Link

variable {s s' : Sys}

/-- A connection without I/O object has received nothing. -/
theorem IoLink.inbuf_eq_nil (h : IoLink s) (hio : s.conn.io = none) : s.conn.inbuf = [] := by
  by_contra hne
  have hup := h.unread hne
  rw [hio] at hup
  cases hup

/-- Nobody is in the creation callback of an I/O object that has been started. -/
theorem IoLink.not_connecting (h : IoLink s) (hfreed : s.conn.freed = false)
    (hbusy : s.conn.io = none ∨ s.conn.status = .connecting ∨ s.conn.io.any Io.started = true ∨
      ∃ pingEnd, s.pc = .cleaning pingEnd) : s.connecting = none := by
  by_contra hne
  obtain ⟨hpresent, hstarted, hstatus, hpc⟩ := h.connecting hne hfreed
  rcases hbusy with hnone | hconnecting | hup | ⟨pingEnd, hcleaning⟩
  · exact hpresent hnone
  · exact hstatus hconnecting
  · rw [hstarted] at hup
    cases hup
  · exact hpc pingEnd hcleaning

/-- The progress of an I/O object that is kept. -/
theorem IoKept.started_eq_false {io io' : Option Io} (h : IoKept io io')
    (hstarted : io.any Io.started = false) : io'.any Io.started = false := by
  have hregistered := h.registered
  have hcameUp := h.cameUp
  cases io <;> cases io' <;> simp_all [Io.started]

/-- An I/O object that is kept is still there. -/
theorem IoKept.ne_none {io io' : Option Io} (h : IoKept io io') (hio : io ≠ none) : io' ≠ none := by
  rintro rfl
  have hmap := h.registered
  simp only [Option.map_none] at hmap
  exact hio (Option.map_eq_none_iff.mp hmap.symm)

/-- A step that keeps the I/O object. -/
theorem IoLink.kept (h : IoLink s) (hio : IoKept s.conn.io s'.conn.io)
    (hbuf : s'.conn.inbuf ≠ [] → s.conn.io.any Io.up = true)
    (hconnecting : s'.connecting = s.connecting) (hfreed : s'.conn.freed = s.conn.freed)
    (hstatus : s'.conn.status = .connecting → s.conn.status = .connecting)
    (hpc : ∀ pingEnd, s'.pc = .cleaning pingEnd → (∃ pingEnd, s.pc = .cleaning pingEnd) ∨
      s.conn.status = .connecting ∨ s.conn.io.any Io.started = true) : IoLink s' where
  unread hne := hio.up (hbuf hne)
  connecting hne hlive := by
    rw [hconnecting] at hne
    rw [hfreed] at hlive
    obtain ⟨hpresent, hstarted, hst, hidle⟩ := h.connecting hne hlive
    refine ⟨hio.ne_none hpresent, hio.started_eq_false hstarted, fun hc => hst (hstatus hc),
      fun pingEnd hcleaning => ?_⟩
    rcases hpc pingEnd hcleaning with ⟨before, hbefore⟩ | hc | hup
    · exact hidle before hbefore
    · exact hst hc
    · rw [hstarted] at hup
      cases hup
  present hlive := by
    rw [hfreed] at hlive
    rintro (hc | ⟨pingEnd, hcleaning⟩)
    · exact hio.ne_none (h.present hlive (Or.inl (hstatus hc)))
    · rcases hpc pingEnd hcleaning with hbefore | hc | hup
      · exact hio.ne_none (h.present hlive (Or.inr hbefore))
      · exact hio.ne_none (h.present hlive (Or.inl hc))
      · exact hio.ne_none fun hnone => by simp [hnone] at hup

/-- A step that leaves no I/O object, and nobody in its creation callback. -/
theorem IoLink.lost (hlost : Lost s'.conn) (hpc : ∀ pingEnd, s'.pc ≠ .cleaning pingEnd)
    (hconnecting : s'.connecting = none) : IoLink s' where
  unread hne := absurd hlost.inbuf hne
  connecting hne := absurd hconnecting hne
  present _ := by
    rintro (hc | ⟨pingEnd, hcleaning⟩)
    · exact absurd hc hlost.status
    · exact absurd hcleaning (hpc pingEnd)

/-- A locked piece of the handler. -/
theorem IoLink.piece (h : IoLink s) {io : Option Io} {chunk : Bytes}
    {r : Conn × Pc} {msgs : List Bytes} (hio : IoKept s.conn.io io)
    (hreceived : Received { s.conn with io := io, inbuf := s.conn.inbuf ++ chunk } r msgs)
    (hchunk : chunk ≠ [] → s.conn.io.any Io.up = true) (hfreed : r.1.freed = s.conn.freed)
    (hlost : r.1.io = none → s.connecting = none)
    (hcleaning : ∀ pingEnd, r.2 = .cleaning pingEnd → (∃ pingEnd, s.pc = .cleaning pingEnd) ∨
      s.conn.status = .connecting ∨ s.conn.io.any Io.started = true) :
    IoLink { s with conn := r.1, pc := r.2 } ∧ Arrived s.conn r.1 chunk msgs := by
  obtain ⟨rest, hbytes, ⟨hbuf, hsame, hstatus⟩ | ⟨hgone, hpc⟩⟩ := hreceived.bytes
  · refine ⟨h.kept ?_ (fun hne => ?_) rfl hfreed hstatus hcleaning,
      hreceived.inbound, hreceived.plain, rest, hbytes, Or.inl hbuf⟩
    · change IoKept s.conn.io r.1.io
      rw [hsame]
      exact hio
    · by_cases hold : s.conn.inbuf = []
      · refine hchunk fun hnil => hne ?_
        simp only [hold, hnil, List.append_nil] at hbytes
        exact hbuf.trans (List.append_eq_nil_iff.mp hbytes.symm).2
      · exact h.unread hold
  · refine ⟨IoLink.lost hgone (fun pingEnd hc => ?_) (hlost hgone.io), hreceived.inbound,
      hreceived.plain, rest, hbytes, Or.inr ⟨hgone.inbuf, hgone.io⟩⟩
    rw [show r.2 = .cleaning pingEnd from hc] at hpc
    cases hpc

/-- A call that is silent. -/
theorem IoLink.call (h : IoLink s) {c : Conn} (callers : ℕ) (hsilent : Silent s.conn c)
    (hfreed : c.freed = s.conn.freed) :
    IoLink { s with conn := c, callers := callers } ∧ ∃ msgs, Arrived s.conn c [] msgs := by
  obtain ⟨hin, hbuf, hio, hstatus⟩ := hsilent
  refine ⟨h.kept ?_ (fun hne => h.unread ?_) rfl hfreed hstatus fun pingEnd hc => Or.inl ⟨pingEnd, hc⟩,
    [], by simp [hin], by simp, c.inbuf, by simp [hbuf], Or.inl rfl⟩
  · change IoKept s.conn.io c.io
    rw [hio]
    exact .refl _
  · rw [← hbuf]
    exact hne

/-- A step that frees the connection, after which nothing happens. -/
theorem IoLink.freed (hbuf : s'.conn.inbuf = []) (hfreed : s'.conn.freed = true) : IoLink s' where
  unread hne := absurd hbuf hne
  connecting _ hlive := by simp [hfreed] at hlive
  present hlive := by simp [hfreed] at hlive

end Link

section Connect

variable (lib) {s : Sys}

/-- `LM_conn_connect` makes a new I/O object, or leaves the connection without one alone. -/
theorem connConnectBegin_io (c : Conn) (net : NetOutcome) :
    ((connConnectBegin lib c net).2 = .failed ∧ (connConnectBegin lib c net).1.io = c.io) ∨
      ((connConnectBegin lib c net).2 ≠ .failed ∧ c.io = none ∧
        (connConnectBegin lib c net).1.io ≠ none ∧
        (connConnectBegin lib c net).1.io.any Io.started = false) := by
  unfold connConnectBegin
  simp only
  split
  · exact Or.inl ⟨rfl, rfl⟩
  · rename_i hsome
    have hnone : c.io = none := by simpa using hsome
    split
    · exact Or.inl ⟨rfl, rfl⟩
    · split
      · exact Or.inl ⟨rfl, rfl⟩
      · refine Or.inr ⟨?_, hnone, Option.some_ne_none _, rfl⟩
        split <;> exact ConnectProgress.noConfusion

/-- An attempt to connect receives nothing. -/
theorem IoLink.enterConnect (h : IoLink s) (hfree : s.conn.freed = false) (net : NetOutcome)
    (who : Connector) :
    IoLink (enterConnect lib s net who).1 ∧
      ∃ msgs, Arrived s.conn (enterConnect lib s net who).1.conn [] msgs := by
  have harrived : ∃ msgs, Arrived s.conn (LibMonetra.enterConnect lib s net who).1.conn [] msgs := by
    obtain ⟨io, tlsctx, error, status, connecting, heq, -, -⟩ := enterConnect_spec lib s net who
    rw [heq]
    exact ⟨[], by simp, by simp, s.conn.inbuf, by simp, Or.inl rfl⟩
  refine ⟨?_, harrived⟩
  obtain ⟨io, tlsctx, error, heq⟩ := connConnectBegin_spec lib s.conn net
  have hio := connConnectBegin_io lib s.conn net
  rcases hres : connConnectBegin lib s.conn net with ⟨c, progress⟩
  rw [hres] at heq hio
  simp only at heq hio
  have hbuf : c.inbuf = s.conn.inbuf := by rw [heq]
  have hstatus : c.status = s.conn.status := by rw [heq]
  have hlive : c.freed = s.conn.freed := by rw [heq]
  unfold LibMonetra.enterConnect
  rw [hres]
  rcases hio with ⟨rfl, hsame⟩ | ⟨hgoes, hnone, hsome, hstarted⟩
  · refine h.kept ?_ (fun hne => h.unread (hbuf ▸ hne)) rfl hlive (fun hc => hstatus ▸ hc)
      fun pingEnd hc => Or.inl ⟨pingEnd, hc⟩
    change IoKept s.conn.io c.io
    rw [hsame]
    exact .refl _
  · -- a connection without I/O object is not being set up
    have hempty : c.inbuf = [] := hbuf.trans (h.inbuf_eq_nil hnone)
    have hnobody := h.not_connecting hfree (Or.inl hnone)
    have hidle : s.conn.status ≠ .connecting ∧ ∀ pingEnd, s.pc ≠ .cleaning pingEnd :=
      ⟨fun hc => h.present hfree (Or.inl hc) hnone,
        fun pingEnd hc => h.present hfree (Or.inr ⟨pingEnd, hc⟩) hnone⟩
    cases progress with
    | failed => exact absurd rfl hgoes
    | inCallback =>
      refine ⟨fun hne => absurd hempty hne,
        fun _ _ => ⟨hsome, hstarted, fun hc => hidle.1 (hstatus ▸ hc), hidle.2⟩, fun _ => ?_⟩
      exact fun _ => hsome
    | register =>
      refine ⟨fun hne => ?_, fun hne => absurd hnobody hne, fun _ hset => ?_⟩
      · refine absurd ?_ hne
        obtain ⟨io', status, error', hfinish, -⟩ := connConnectFinish_spec c net.eventAdd
        change (connConnectFinish c net.eventAdd).1.inbuf = []
        rw [hfinish]
        exact hempty
      · change (connConnectFinish c net.eventAdd).1.io ≠ none
        change (connConnectFinish c net.eventAdd).1.status = .connecting ∨ _ at hset
        unfold connConnectFinish at hset ⊢
        split
        · simpa using hsome
        · rename_i hfailed
          rw [if_neg hfailed] at hset
          rcases hset with hc | ⟨pingEnd, hc⟩
          · exact absurd (hstatus ▸ hc) hidle.1
          · exact absurd hc (hidle.2 pingEnd)

/-- The return from the creation callback receives nothing. -/
theorem IoLink.connectFinish (h : IoLink s) (hfree : s.conn.freed = false)
    (hconnecting : s.connecting ≠ none) (eventAdd : Bool) (pc : Pc)
    (hpc : pc = s.pc ∨ pc = .finishing) :
    IoLink { s with conn := (connConnectFinish s.conn eventAdd).1, connecting := none, pc := pc } ∧
      ∃ msgs, Arrived s.conn (connConnectFinish s.conn eventAdd).1 [] msgs := by
  obtain ⟨hsome, hstarted, hstatus, hidle⟩ := h.connecting hconnecting hfree
  have hempty : s.conn.inbuf = [] := by
    by_contra hne
    rw [started_of_up (h.unread hne)] at hstarted
    cases hstarted
  obtain ⟨io, status, error, heq, -⟩ := connConnectFinish_spec s.conn eventAdd
  refine ⟨⟨fun hne => absurd ?_ hne, fun hne => absurd rfl hne, fun _ hset => ?_⟩, [], ?_⟩
  · rw [heq]
    exact hempty
  · unfold connConnectFinish at hset ⊢
    split
    · simpa using hsome
    · rename_i hfailed
      simp only [if_neg hfailed] at hset
      rcases hset with hc | ⟨pingEnd, hc⟩
      · exact absurd hc hstatus
      · rcases hpc with rfl | rfl
        · exact absurd hc (hidle pingEnd)
        · cases hc
  · rw [heq]
    exact ⟨by simp, by simp, s.conn.inbuf, by simp, Or.inl rfl⟩

/-- `LM_conn_destroy` gives up what the connection had received, or is put off. -/
theorem IoLink.connDestroy (h : IoLink s) :
    IoLink { s with conn := connDestroy s.conn } ∧ ∃ msgs, Arrived s.conn (connDestroy s.conn) [] msgs := by
  unfold LibMonetra.connDestroy
  split
  · exact h.call s.callers ⟨rfl, rfl, rfl, id⟩ rfl
  · exact ⟨IoLink.freed rfl rfl, [], by simp [inboundOf, Obs.inbound], by simp, s.conn.inbuf,
      by simp, Or.inr ⟨rfl, rfl⟩⟩

/-- The handler may go on to any point that is not the clean-up of its ping. -/
theorem IoLink.setPc (h : IoLink s) {pc : Pc} (hpc : ∀ pingEnd, pc ≠ .cleaning pingEnd) :
    IoLink { s with pc := pc } :=
  h.kept (.refl _) h.unread rfl rfl id fun pingEnd hc => absurd hc (hpc pingEnd)

end Connect

section Handler

variable {s : Sys}

/-- An event that creates no ping takes whole frames off what has arrived. -/
theorem handlerEnter_arrived (hlink : IoLink s) (hrunning : Running lib s) (hfree : s.conn.freed = false)
    {event : IoEvent} {r : Conn × Pc} (hpc : s.pc = .idle) (henabled : eventEnabled s.conn event = true)
    (hr : handlerEnter lib s.conn event = some r) (hdrawn : (Action.event event).drawn s.conn = none) :
    IoLink { s with conn := r.1, pc := r.2 } ∧ ∃ msgs, Arrived s.conn r.1 event.chunk msgs := by
  have hping : ∀ draws written, event = .connected draws written → s.conn.disablePing = true := by
    rintro draws written rfl
    by_contra hping
    simp only [handlerEnter] at hr
    rw [if_neg hping] at hr
    obtain ⟨⟨c, p⟩, hnew, -⟩ := Option.map_eq_some_iff.mp hr
    obtain ⟨draw, hdraw, -, -⟩ := transPingRequest_spec hnew
    simp only [Action.drawn, if_neg hping, Option.map_eq_none_iff] at hdrawn
    rw [show unusedDraw s.conn draws = some draw from hdraw] at hdrawn
    cases hdrawn
  have hquiet : s.conn.toTransStore.quiet := by
    intro e he
    rw [(hrunning.link.rest (by rw [hpc]; rfl)).2.1] at he
    cases he
  obtain ⟨hpiece, -⟩ := handlerEnter_piece lib s.conn event r hrunning.rep hquiet henabled hr
  obtain ⟨⟨io, msgs, hkept, hreceived⟩, hlost, hcleaning⟩ :=
    handlerEnter_entered lib s.conn event r henabled hr hping
  have hchunk : event.chunk ≠ [] → s.conn.io.any Io.up = true := by
    cases event with
    | read chunk => exact fun _ => henabled
    | _ => exact fun hne => absurd rfl hne
  obtain ⟨hlinked, harrived⟩ := hlink.piece hkept hreceived hchunk hpiece.freed
    (fun hnone => hlink.not_connecting hfree ((hlost hnone).imp_right fun hup => Or.inr (Or.inl hup)))
    fun pingEnd hc => Or.inr (hcleaning pingEnd hc)
  exact ⟨hlinked, msgs, harrived⟩

/-- So does the handler when the clean-up of its ping has returned. -/
theorem handlerResume_arrived (hlink : IoLink s) (hrunning : Running lib s) (hfree : s.conn.freed = false)
    {pingEnd : PingEnd} (hpc : s.pc = .cleaning pingEnd) :
    IoLink { s with
        conn := (handlerResume lib s.conn pingEnd).1
        pc := (handlerResume lib s.conn pingEnd).2 } ∧
      ∃ msgs, Arrived s.conn (handlerResume lib s.conn pingEnd).1 [] msgs := by
  have hquiet : pingEnd ≠ .timeout → s.conn.toTransStore.quiet := fun hne =>
    hrunning.link.cleaning (by
      cases pingEnd with
      | disabled => exact Or.inr hpc
      | reply => exact Or.inl hpc
      | timeout => exact absurd rfl hne)
  obtain ⟨hpiece, -⟩ := handlerResume_piece lib s.conn pingEnd hrunning.rep
    (hrunning.link.busy (by rw [hpc]; rfl)) hquiet
  obtain ⟨msgs, hreceived⟩ := handlerResume_received lib s.conn pingEnd
  have hnobody := hlink.not_connecting hfree (Or.inr (Or.inr (Or.inr ⟨pingEnd, hpc⟩)))
  have hsame : Received { s.conn with io := s.conn.io, inbuf := s.conn.inbuf ++ [] }
      (handlerResume lib s.conn pingEnd) msgs := by
    obtain ⟨hin, hplain, hbytes⟩ := hreceived
    exact ⟨hin, hplain, by simpa using hbytes⟩
  obtain ⟨hlinked, harrived⟩ := hlink.piece (.refl _) hsame (fun hne => absurd rfl hne)
    hpiece.freed (fun _ => hnobody) fun _ _ => Or.inl ⟨pingEnd, hpc⟩
  exact ⟨hlinked, msgs, harrived⟩

end Handler

/-- Every action that creates no transaction takes whole frames off what has arrived. -/
theorem sysStep_arrived {s s' : Sys} {a : Action} (h : sysStep lib s a = some s')
    (hrunning : Running lib s) (hlink : IoLink s) (hdrawn : a.drawn s.conn = none) :
    IoLink s' ∧ ∃ msgs, Arrived s.conn s'.conn a.chunk msgs := by
  have hfree : s.conn.freed = false := sysStep_live lib h
  have hcall : ∀ (c : Conn) (callers : ℕ), Silent s.conn c → c.freed = s.conn.freed →
      IoLink { s with conn := c, callers := callers } ∧ ∃ msgs, Arrived s.conn c [] msgs :=
    fun c callers hsilent hfreed => hlink.call callers hsilent hfreed
  have hgoesOn : ∀ (c : Conn) (pc : Pc), Silent s.conn c → c.freed = s.conn.freed →
      (∀ pingEnd, pc ≠ .cleaning pingEnd) →
      IoLink { s with conn := c, pc := pc } ∧ ∃ msgs, Arrived s.conn c [] msgs := by
    intro c pc hsilent hfreed hpc
    obtain ⟨hlinked, harrived⟩ := hcall c s.callers hsilent hfreed
    exact ⟨hlinked.setPc hpc, harrived⟩
  cases sysStep_effect h with
  | transNew draws c p hnew =>
    obtain ⟨draw, hdraw, -, -⟩ := transNew_spec hnew
    simp [Action.drawn, hdraw] at hdrawn
  | transRunNew draws params c p hnew =>
    obtain ⟨draw, hdraw, -, -⟩ := transRunNew_spec hnew
    simp [Action.drawn, hdraw] at hdrawn
  | event event r hpc henabled hr => exact handlerEnter_arrived hlink hrunning hfree hpc henabled hr hdrawn
  | resume pingEnd hpc => exact handlerResume_arrived hlink hrunning hfree hpc
  | deliver e rest _ _ =>
    exact hgoesOn _ .callback ⟨by simp [inboundOf, Obs.inbound], rfl, rfl, id⟩ rfl fun _ => Pc.noConfusion
  | callbackReturn _ => exact hgoesOn _ .delivering ⟨rfl, rfl, rfl, id⟩ rfl fun _ => Pc.noConfusion
  | drain _ _ =>
    obtain ⟨c, timer, heq, -⟩ := drainDelayRm_spec lib s.conn.transDelayRm s.conn rfl
    obtain ⟨hin, hbuf, hio, hstatus⟩ := silent_drainDelayRm lib s.conn s.conn.transDelayRm
    exact hgoesOn _ _ ⟨hin, hbuf, hio, hstatus⟩ (by simp [handlerDrain, heq]) fun _ => Pc.noConfusion
  | reconnect net _ =>
    obtain ⟨hlinked, harrived⟩ := hlink.enterConnect lib hfree net .handler
    refine ⟨hlinked.setPc fun pingEnd => ?_, harrived⟩
    split <;> exact Pc.noConfusion
  | finish _ =>
    cases hd : s.conn.destroy with
    | true =>
      obtain ⟨hlinked, harrived⟩ := hlink.connDestroy
      exact ⟨hlinked.setPc fun _ => Pc.noConfusion, harrived⟩
    | false => exact hgoesOn s.conn .idle (Silent.refl _) rfl fun _ => Pc.noConfusion
  | connDestroy => exact hlink.connDestroy
  | connDisconnect =>
    obtain ⟨io, status, heq, hkept, hstatus⟩ := connDisconnectConnlocked_eq s.conn
    rw [heq]
    exact ⟨hlink.kept hkept hlink.unread rfl rfl hstatus fun pingEnd hc => Or.inl ⟨pingEnd, hc⟩,
      [], by simp, by simp, s.conn.inbuf, by simp [Action.chunk], Or.inl rfl⟩
  | connectFinish eventAdd who hwho =>
    refine hlink.connectFinish hfree (by simp [hwho]) eventAdd _ ?_
    split
    · exact Or.inr rfl
    · exact Or.inl rfl
  | connConnect net => exact hlink.enterConnect lib hfree net .caller
  | implicitConnect net _ =>
    exact IoLink.enterConnect lib (s := { s with callers := s.callers - 1 })
      ⟨hlink.unread, hlink.connecting, hlink.present⟩ hfree net .caller
  | transSetParam p key value =>
    obtain ⟨heap, heq, -⟩ := transSetParam_spec lib s.conn p key value
    rw [heq]
    exact hcall _ s.callers ⟨rfl, rfl, rfl, id⟩ rfl
  | transSetTimeout p timeoutS =>
    obtain ⟨heap, heq, -⟩ := transSetTimeout_spec lib s.conn p timeoutS
    rw [heq]
    exact hcall _ s.callers ⟨rfl, rfl, rfl, id⟩ rfl
  | transSend p =>
    obtain ⟨st, outbuf, timer, trigger, heq, -⟩ :=
      transSend_spec lib s.conn p hrunning.rep hrunning.link.connected
    exact hcall _ _ (silent_transSend lib s.conn p) (by rw [heq])
  | transDelete p =>
    obtain ⟨st, timer, heq, -⟩ := transDelete_spec lib s.conn p
    exact hcall _ s.callers (silent_transDelete lib s.conn p) (by rw [heq])
  | configures a c hsets hc =>
    obtain ⟨_, _, _, _, _, _, _, _, rfl, -⟩ := hc
    have hquiet : a.chunk = [] := by cases a <;> first | rfl | cases hsets
    rw [hquiet]
    exact hcall _ s.callers ⟨rfl, rfl, rfl, id⟩ rfl

end LibMonetra
