import LibMonetra.Arrival

/-!
# What one action exchanges with the server

The requests that an action puts on the wire, the answers that it takes off it, and which
transactions their ids stand for. Nothing but a draw of an id can make an id stand for another
transaction.
-/

namespace LibMonetra

open Foundation

variable {lib : Mstdlib}

/-- Every answer was completed by the frame that was taken off the connection just before it. -/
def AnswersParsed (trace : List Obs) : Prop :=
  ∀ pre p status msg post, trace = pre ++ .answered p status msg :: post →
    ∃ before, pre = before ++ [.consumed msg]

/-- Whether a record is about a request or an answer. -/
def Obs.onWire : Obs → Bool
  | .framed _ _ _ _ | .answered _ _ _ => true
  | _ => false

section AnswersParsed

variable {trace later : List Obs}

/-- A record without answers has none that was not parsed. -/
theorem answersParsed_of_none (h : ∀ p status msg, .answered p status msg ∉ trace) :
    AnswersParsed trace := by
  rintro pre p status msg post rfl
  exact absurd (List.mem_append_right pre List.mem_cons_self) (h p status msg)

/-- A record of one answer. -/
theorem answersParsed_answer (p : Ptr) (msg : Bytes)
    (h : ∀ q status msg', .answered q status msg' ∉ later) :
    AnswersParsed (.consumed msg :: .answered p .pending msg :: later) := by
  intro pre q status msg' post hsplit
  cases pre with
  | nil => cases hsplit
  | cons o pre =>
    obtain ⟨rfl, hrest⟩ := List.cons.inj hsplit
    cases pre with
    | nil =>
      obtain ⟨hanswer, -⟩ := List.cons.inj hrest
      obtain ⟨-, -, rfl⟩ := Obs.answered.inj hanswer
      exact ⟨[], rfl⟩
    | cons o pre =>
      obtain ⟨-, hlater⟩ := List.cons.inj hrest
      exact absurd (hlater ▸ List.mem_append_right pre List.mem_cons_self) (h q status msg')

/-- Later records keep the earlier answers. -/
theorem AnswersParsed.append (h : AnswersParsed trace) (hlater : AnswersParsed later) :
    AnswersParsed (trace ++ later) := by
  intro pre p status msg post hsplit
  rw [List.append_eq_append_iff] at hsplit
  rcases hsplit with ⟨middle, rfl, hrest⟩ | ⟨middle, hold, hrest⟩
  · obtain ⟨before, rfl⟩ := hlater middle p status msg post hrest
    exact ⟨trace ++ before, by simp⟩
  · cases middle with
    | nil =>
      obtain ⟨before, hbefore⟩ := hlater [] p status msg post (by simpa using hrest.symm)
      cases before <;> cases hbefore
    | cons o middle =>
      obtain ⟨rfl, -⟩ := List.cons.inj hrest
      exact h pre p status msg middle hold

end AnswersParsed

/-- What a sequence of steps that creates no transaction does to the ids, and for which transactions
it sends requests and takes answers. -/
structure Traffic (lib : Mstdlib) (s s' : TransStore) (new : List Obs) : Prop where
  map : ∀ id q, s'.transIdMap id = some q → s.transIdMap id = some q
  framed : ∀ p owner status frame, .framed p owner status frame ∈ new →
    ∃ id params, id < 2 ^ 32 - 1 ∧ frame = requestFrame lib id params ∧ s.transIdMap id = some p
  answered : ∀ p status msg, .answered p status msg ∈ new →
    ∃ id data, readMsg lib msg = some (id, data) ∧ s.transIdMap id = some p

/-- The record of a sequence of steps. -/
structure Recorded (lib : Mstdlib) (s s' : TransStore) (new : List Obs) : Prop where
  trace : s'.trace = s.trace ++ new
  parsed : AnswersParsed new
  traffic : (∀ q owner, .created q owner ∉ new) → Traffic lib s s' new

section Recorded

variable {s s' s'' : TransStore} {new new' : List Obs}

/-- A step that exchanges nothing with the server. -/
theorem Recorded.idle (htrace : s'.trace = s.trace ++ new) (hnew : ∀ o ∈ new, o.onWire = false)
    (hmap : ∀ id q, s'.transIdMap id = some q → s.transIdMap id = some q) :
    Recorded lib s s' new where
  trace := htrace
  parsed := answersParsed_of_none fun _ _ _ hmem => Bool.noConfusion (hnew _ hmem)
  traffic _ :=
    { map := hmap
      framed := fun _ _ _ _ hmem => Bool.noConfusion (hnew _ hmem)
      answered := fun _ _ _ hmem => Bool.noConfusion (hnew _ hmem) }

/-- Two sequences of steps are one. -/
theorem Recorded.trans (h : Recorded lib s s' new) (h' : Recorded lib s' s'' new') :
    Recorded lib s s'' (new ++ new') where
  trace := by rw [h'.trace, h.trace, List.append_assoc]
  parsed := h.parsed.append h'.parsed
  traffic hnone := by
    obtain ⟨hmap, hframed, hanswered⟩ :=
      h.traffic fun q owner hmem => hnone q owner (List.mem_append_left _ hmem)
    obtain ⟨hmap', hframed', hanswered'⟩ :=
      h'.traffic fun q owner hmem => hnone q owner (List.mem_append_right _ hmem)
    refine ⟨fun id q hq => hmap id q (hmap' id q hq), fun p owner status frame hmem => ?_,
      fun p status msg hmem => ?_⟩
    · rcases List.mem_append.mp hmem with hold | hlater
      · exact hframed p owner status frame hold
      · obtain ⟨id, params, hid, hframe, hq⟩ := hframed' p owner status frame hlater
        exact ⟨id, params, hid, hframe, hmap id p hq⟩
    · rcases List.mem_append.mp hmem with hold | hlater
      · exact hanswered p status msg hold
      · obtain ⟨id, data, hmsg, hq⟩ := hanswered' p status msg hlater
        exact ⟨id, data, hmsg, hmap id p hq⟩

/-- Freeing a transaction only takes its id out of the map. -/
theorem transIdMap_of_free {p q : Ptr} {t : Trans} {id : ℕ}
    (h : (s.free p t).transIdMap id = some q) : s.transIdMap id = some q := by
  rw [TransStore.transIdMap_free, Function.update_apply] at h
  split at h
  · cases h
  · exact h

/-- A completed transaction was the one its id stood for. -/
theorem traffic_answer (hrep : Rep s) {p : Ptr} {t : Trans} {msg data : Bytes} {later : List Obs}
    (ht : s.heap p = some t) (hmsg : readMsg lib msg = some (t.transId, data))
    (hmap : ∀ id q, s'.transIdMap id = some q → s.transIdMap id = some q)
    (hlater : ∀ o ∈ later, o.onWire = false) :
    Traffic lib s s' (.consumed msg :: .answered p .pending msg :: later) where
  map := hmap
  framed q owner status frame hmem := by
    simp only [List.mem_cons, reduceCtorEq, false_or] at hmem
    cases hlater _ hmem
  answered q status msg' hmem := by
    simp only [List.mem_cons, reduceCtorEq, false_or, Obs.answered.injEq] at hmem
    rcases hmem with ⟨rfl, rfl, rfl⟩ | hmem
    · exact ⟨t.transId, data, hmsg, hrep.mapped q t ht⟩
    · cases hlater _ hmem

/-- The record of one step of the library. -/
theorem InternalStep.recorded (hstep : InternalStep lib s s') (hrep : Rep s) :
    ∃ new, Recorded lib s s' new := by
  have hsame : ∀ id q, s.transIdMap id = some q → s.transIdMap id = some q := fun _ _ hq => hq
  have hquiet : ∀ q status msg' e, Obs.answered q status msg' ∉ [Obs.queued e] := by simp
  cases hstep with
  | createPing id status hfree hlow hhigh =>
    refine ⟨[.created s.nextPtr .ping, .framed s.nextPtr .ping status (requestFrame lib id pingParams)],
      by simp [TransStore.log], answersParsed_of_none (by simp), fun hnone => ?_⟩
    exact absurd List.mem_cons_self (hnone s.nextPtr .ping)
  | submit p t rest armed interval hready ht hst hevents =>
    refine ⟨[.framed p t.owner .connected (t.request lib)], TransStore.trace_submit ..,
      answersParsed_of_none (by simp), fun _ => ⟨by simp, fun q owner status frame hmem => ?_, by simp⟩⟩
    obtain ⟨rfl, -, -, rfl⟩ := Obs.framed.inj (List.mem_singleton.mp hmem)
    exact ⟨t.transId, _, (hrep.idRange q t ht).2, rfl, hrep.mapped q t ht⟩
  | noconnect p hp => exact ⟨_, Recorded.idle rfl (by simp [Obs.onWire]) hsame⟩
  | timeout p t interval ht htimer => exact ⟨_, Recorded.idle rfl (by simp [Obs.onWire]) hsame⟩
  | answer p t msg data ht hst hmsg hping =>
    refine ⟨[.consumed msg, .answered p .pending msg, .queued ⟨.transDone, some p⟩], ?_,
      answersParsed_answer p msg (hquiet · · · _), fun _ => traffic_answer hrep ht hmsg ?_ ?_⟩
    · simp [TransStore.connEventAdd]
    · simp [TransStore.connEventAdd]
    · simp [Obs.onWire]
  | answerPing p t msg data ht hst hmsg hping =>
    refine ⟨[.consumed msg, .answered p .pending msg], TransStore.trace_answer .., ?_, fun _ =>
      traffic_answer hrep ht hmsg (by simp) (by simp)⟩
    exact answersParsed_answer p msg (by simp)
  | fail p t rest response hpending ht hst hcode =>
    exact ⟨[.queued ⟨.transError, some p⟩],
      Recorded.idle (by simp [TransStore.connEventAdd]) (by simp [Obs.onWire])
        (by simp [TransStore.connEventAdd])⟩
  | retirePing p t ht hping =>
    exact ⟨[.deleted p], Recorded.idle (by simp [TransStore.defer, TransStore.log])
      (by simp [Obs.onWire]) (by simp [TransStore.defer, TransStore.log])⟩
  | drain p t rest hdelay ht =>
    exact ⟨[.freed p], Recorded.idle rfl (by simp [Obs.onWire]) fun id q hq =>
      transIdMap_of_free (s := { s with transDelayRm := rest }) hq⟩
  | drainDead p rest hdelay hdead => exact ⟨[], Recorded.idle (by simp) (by simp) hsame⟩
  | connEvent type htype => exact ⟨_, Recorded.idle rfl (by simp [Obs.onWire]) hsame⟩
  | deliver e rest hevents => exact ⟨_, Recorded.idle rfl (by simp [Obs.onWire]) hsame⟩
  | dropEvents => exact ⟨[], Recorded.idle (by simp) (by simp) hsame⟩
  | forgetPing => exact ⟨[], Recorded.idle (by simp) (by simp) hsame⟩
  | consume msg => exact ⟨_, Recorded.idle rfl (by simp [Obs.onWire]) hsame⟩

/-- The record of one step. -/
theorem StoreStep.recorded (hstep : StoreStep lib s s') (hrep : Rep s) :
    ∃ new, Recorded lib s s' new := by
  have hsame : ∀ id q, s.transIdMap id = some q → s.transIdMap id = some q := fun _ _ hq => hq
  cases hstep with
  | create id params hfree hlow hhigh =>
    refine ⟨[.created s.nextPtr .user], by simp [TransStore.log], answersParsed_of_none (by simp),
      fun hnone => absurd List.mem_cons_self (hnone s.nextPtr .user)⟩
  | edit p t params timeoutS ht hst => exact ⟨[], Recorded.idle (by simp [TransStore.setTrans]) (by simp) hsame⟩
  | accept p t ht hst =>
    exact ⟨[.accepted p], Recorded.idle (by simp [TransStore.log]) (by simp [Obs.onWire])
      (by simp [TransStore.log])⟩
  | defer p t ht =>
    exact ⟨[.deleted p], Recorded.idle (by simp [TransStore.defer, TransStore.log])
      (by simp [Obs.onWire]) (by simp [TransStore.defer, TransStore.log])⟩
  | delete p t ht =>
    refine ⟨[.deleted p, .freed p], Recorded.idle (by simp [TransStore.log]) (by simp [Obs.onWire]) ?_⟩
    intro id q hq
    simpa [TransStore.log] using transIdMap_of_free hq
  | destroy =>
    exact ⟨[.connFreed], Recorded.idle rfl (by simp [Obs.onWire]) fun id q hq => by cases hq⟩
  | internal s' hinternal => exact hinternal.recorded hrep

/-- The record of a sequence of steps. -/
theorem StoreSteps.recorded (h : StoreSteps lib s s') (hrep : Rep s) : ∃ new, Recorded lib s s' new := by
  induction h with
  | refl => exact ⟨[], Recorded.idle (by simp) (by simp) fun _ _ hq => hq⟩
  | tail hsteps hlast ih =>
    obtain ⟨new, hnew⟩ := ih
    obtain ⟨last, hlast⟩ := hlast.recorded (StoreSteps.rep hsteps hrep)
    exact ⟨new ++ last, hnew.trans hlast⟩

end Recorded

/-- What one action exchanges with the server: the record it adds, and the whole frames it takes off
the bytes that have arrived. Only the id it draws may come to stand for another transaction. -/
structure Exchange (lib : Mstdlib) (c c' : Conn) (drawn : Option ℕ) (chunk : Bytes)
    (new : List Obs) : Prop where
  trace : c'.trace = c.trace ++ new
  parsed : AnswersParsed new
  map : ∀ id q, c'.transIdMap id = some q → c.transIdMap id = some q ∨ drawn = some id
  framed : ∀ p owner status frame, .framed p owner status frame ∈ new →
    ∃ id params, id < 2 ^ 32 - 1 ∧ frame = requestFrame lib id params ∧
      ∀ q, c'.transIdMap id = some q → q = p
  answered : ∀ p status msg, .answered p status msg ∈ new →
    ∃ id data, readMsg lib msg = some (id, data) ∧ c.transIdMap id = some p
  plain : ∀ msg ∈ consumedOf new, etx ∉ msg
  bytes : ∃ rest, c.inbuf ++ chunk = (consumedOf new).flatMap frameOf ++ rest ∧
    (c'.inbuf = rest ∨ (c'.inbuf = [] ∧ c'.io = none))

section Exchange

variable {c c' : Conn}

/-- An action that creates no transaction. -/
theorem Exchange.of_arrived {new : List Obs} {chunk : Bytes} {msgs : List Bytes}
    (hrecorded : Recorded lib c.toTransStore c'.toTransStore new) (h : Arrived c c' chunk msgs) :
    Exchange lib c c' none chunk new := by
  have hinbound : inboundOf new = msgs.map .consumed := by
    have happend := h.inbound
    rw [hrecorded.trace, inboundOf_append] at happend
    exact List.append_cancel_left happend
  have hnone : ∀ q owner, .created q owner ∉ new := by
    intro q owner hmem
    have hin : .created q owner ∈ inboundOf new := List.mem_filter.mpr ⟨hmem, rfl⟩
    simp [hinbound] at hin
  have hconsumed : consumedOf new = msgs := by
    rw [← consumedOf_inboundOf, hinbound]
    induction msgs with
    | nil => rfl
    | cons msg msgs ih => simp [consumedOf]
  obtain ⟨hmap, hframed, hanswered⟩ := hrecorded.traffic hnone
  refine ⟨hrecorded.trace, hrecorded.parsed, fun id q hq => Or.inl (hmap id q hq),
    fun p owner status frame hmem => ?_, hanswered, hconsumed ▸ h.plain, hconsumed ▸ h.bytes⟩
  obtain ⟨id, params, hid, hframe, hp⟩ := hframed p owner status frame hmem
  exact ⟨id, params, hid, hframe, fun q hq => Option.some.inj ((hmap id q hq).symm.trans hp)⟩

/-- An action that creates a transaction, and may send a request for it at once. -/
theorem Exchange.of_created (owner : Owner) (draw : RandDraw) (sent : List Obs)
    (htrace : c'.trace = c.trace ++ .created c.nextPtr owner :: sent)
    (hmap : c'.transIdMap = Function.update c.transIdMap draw.val (some c.nextPtr))
    (hbuf : c'.inbuf = c.inbuf) (hsent : ∀ o ∈ sent, ∃ owner status,
      o = .framed c.nextPtr owner status (requestFrame lib draw.val pingParams)) :
    Exchange lib c c' (some draw.val) [] (.created c.nextPtr owner :: sent) := by
  have hconsumed : consumedOf (.created c.nextPtr owner :: sent) = [] := by
    refine List.filterMap_eq_nil_iff.mpr fun o ho => ?_
    rcases List.mem_cons.mp ho with rfl | ho
    · rfl
    · obtain ⟨owner', status, rfl⟩ := hsent o ho
      rfl
  have hanswer : ∀ p status msg, .answered p status msg ∉ .created c.nextPtr owner :: sent := by
    intro p status msg hmem
    rcases List.mem_cons.mp hmem with hmem | hmem
    · cases hmem
    · obtain ⟨owner', status', hframed⟩ := hsent _ hmem
      cases hframed
  refine ⟨htrace, answersParsed_of_none hanswer, fun id q hq => ?_, fun p owner' status frame hmem => ?_,
    fun p status msg hmem => absurd hmem (hanswer p status msg), by simp [hconsumed],
    c.inbuf, by simp [hconsumed], Or.inl hbuf⟩
  · rw [hmap, Function.update_apply] at hq
    split at hq
    · rename_i hid
      exact Or.inr (by rw [hid])
    · exact Or.inl hq
  · rcases List.mem_cons.mp hmem with hmem | hmem
    · cases hmem
    · obtain ⟨owner'', status', hframed⟩ := hsent _ hmem
      obtain ⟨rfl, -, -, rfl⟩ := Obs.framed.inj hframed
      refine ⟨draw.val, pingParams, draw.property.2, rfl, fun q hq => ?_⟩
      rw [hmap, Function.update_self, Option.some.injEq] at hq
      exact hq.symm

end Exchange

/-- Every action exchanges requests and answers with the server in this way. -/
theorem sysStep_exchange {s s' : Sys} {a : Action} (h : sysStep lib s a = some s')
    (hrunning : Running lib s) (hlink : IoLink s) :
    IoLink s' ∧ ∃ new, Exchange lib s.conn s'.conn (a.drawn s.conn) a.chunk new := by
  cases hdrawn : a.drawn s.conn with
  | none =>
    obtain ⟨hlinked, msgs, harrived⟩ := sysStep_arrived h hrunning hlink hdrawn
    obtain ⟨-, hsteps⟩ := sysStep_refines h hrunning.link hrunning.rep
    obtain ⟨new, hrecorded⟩ := StoreSteps.recorded hsteps hrunning.rep
    exact ⟨hlinked, new, Exchange.of_arrived hrecorded harrived⟩
  | some id =>
    have hkept : ∀ c : Conn, c.io = s.conn.io → c.inbuf = s.conn.inbuf → c.freed = s.conn.freed →
        c.status = s.conn.status → IoLink { s with conn := c } := by
      intro c hio hbuf hfreed hstatus
      refine hlink.kept ?_ (fun hne => hlink.unread (hbuf ▸ hne)) rfl hfreed (fun hc => hstatus ▸ hc)
        fun pingEnd hc => Or.inl ⟨pingEnd, hc⟩
      change IoKept s.conn.io c.io
      rw [hio]
      exact .refl _
    unfold sysStep at h
    split at h
    · cases h
    · cases a with
      | transNew draws =>
        obtain ⟨⟨c, p⟩, hnew, rfl⟩ := Option.map_eq_some_iff.mp h
        obtain ⟨draw, hdraw, -, rfl⟩ := transNew_spec hnew
        simp only [Action.drawn, hdraw, Option.map_some, Option.some.injEq] at hdrawn
        subst hdrawn
        exact ⟨hkept _ rfl rfl rfl rfl, _, Exchange.of_created .user draw [] (by simp [TransStore.log])
          (by simp [TransStore.log, Trans.fresh]) rfl (by simp)⟩
      | transRunNew draws params =>
        obtain ⟨⟨c, p⟩, hnew, rfl⟩ := Option.map_eq_some_iff.mp h
        obtain ⟨draw, hdraw, -, rfl⟩ := transRunNew_spec hnew
        simp only [Action.drawn, hdraw, Option.map_some, Option.some.injEq] at hdrawn
        subst hdrawn
        exact ⟨hkept _ rfl rfl rfl rfl, _, Exchange.of_created .user draw [] (by simp [TransStore.log])
          (by simp [TransStore.log, Trans.fresh]) rfl (by simp)⟩
      | event event =>
        cases event with
        | connected draws written =>
          simp only [Action.drawn] at hdrawn
          split at hdrawn
          · cases hdrawn
          · rename_i hping
            simp only at h
            split at h
            · rename_i hidle
              obtain ⟨r, hr, rfl⟩ := Option.map_eq_some_iff.mp h
              simp only [handlerEnter] at hr
              rw [if_neg hping] at hr
              obtain ⟨⟨c, p⟩, hnew, rfl⟩ := Option.map_eq_some_iff.mp hr
              obtain ⟨draw, hdraw, -, rfl⟩ := transPingRequest_spec hnew
              rw [show unusedDraw s.conn draws = some draw from hdraw, Option.map_some,
                Option.some.injEq] at hdrawn
              subst hdrawn
              refine ⟨hlink.kept (ioKept_up hidle.2) hlink.unread rfl rfl id (fun _ hc => by cases hc), _,
                Exchange.of_created .ping draw [.framed s.conn.nextPtr .ping s.conn.status
                  (requestFrame lib draw.val pingParams)] ?_ ?_ rfl (by simp)⟩
              · simp [TransStore.log]
              · simp [TransStore.log, Trans.fresh]
            · cases h
        | _ => cases hdrawn
      | _ => cases hdrawn

end LibMonetra
