import LibMonetra.Chunking
import LibMonetra.Decoding

/-!
# What a stream of responses does

Which streams the read event accepts, and what it makes of them. However the stream is cut, an accepted
one is a series of frames with a response in each and the beginning of another frame; each response goes
to the transaction that waits for it, the first one counts, and all others are skipped.
-/

namespace LibMonetra

open Foundation

variable (lib : Mstdlib)

/-- A stream of response frames, the last of which may be incomplete. The framing looks at nothing before
it has five bytes. -/
def Intact (stream : Bytes) : Prop :=
  ∃ (msgs : List Bytes) (tail : Bytes), stream = msgs.flatMap frameOf ++ tail ∧
    (∀ msg ∈ msgs, etx ∉ msg ∧ 3 ≤ msg.length ∧ (readMsg lib msg).isSome) ∧
    (tail.length < 5 ∨ tail.head? = some stx ∧ etx ∉ tail)

/-- The transaction that waits for a response with an id. -/
def Conn.waiting (c : Conn) (tranId : ℕ) : Option Ptr :=
  (c.transIdMap tranId).filter fun p => (c.heap p).any fun t => t.status = .pending

/-- The responses that are answers, with the transactions that they answer: the first for each transaction
that waits. -/
def answersOf : (ℕ → Option Ptr) → List Bytes → List (Ptr × Bytes)
  | _, [] => []
  | waiting, msg :: msgs =>
    match readMsg lib msg with
    | none => answersOf waiting msgs
    | some (tranId, data) =>
      match waiting tranId with
      | none => answersOf waiting msgs
      | some p => (p, data) :: answersOf (Function.update waiting tranId none) msgs

/-- A connection that has answered transactions: each has its own response, and nothing else has changed. -/
structure Answers (c c' : Conn) (answers : List (Ptr × Bytes)) : Prop where
  trans : ∀ answer ∈ answers, ∃ t, c.heap answer.1 = some t ∧ t.status = .pending ∧
    c'.heap answer.1 = some { storeResponse lib t answer.2 with timeoutTimer := false }
  others : ∀ p, p ∉ answers.map Prod.fst → c'.heap p = c.heap p
  pending : c'.transPending = c.transPending.filter fun p => p ∉ answers.map Prod.fst
  done : c'.transDone = c.transDone ++ answers.map Prod.fst
  once : (answers.map Prod.fst).Nodup
  status : c'.status = c.status
  io : c'.io = c.io

section Grammar

variable {lib} {values unread tail : Bytes} {msgs : List Bytes}

/-- The framing waits for five bytes, and then for the end of the frame. -/
theorem frameScan_eq_wait_iff (inbuf : Bytes) :
    frameScan inbuf = .wait ↔ inbuf.length < 5 ∨ inbuf.head? = some stx ∧ etx ∉ inbuf := by
  unfold frameScan
  split
  · rename_i hshort
    simp [hshort]
  · rename_i hlong
    simp only [hlong, false_or]
    split
    · rename_i hhead
      simp [hhead]
    · rename_i hhead
      cases htake : takeThrough etx inbuf with
      | none =>
        have hopen : etx ∉ inbuf := by
          intro hetx
          obtain ⟨body, back, heq, hbody⟩ := List.eq_append_cons_of_mem hetx
          rw [heq, takeThrough_append_cons etx body back hbody] at htake
          cases htake
        simpa [hopen] using hhead
      | some cut =>
        obtain ⟨frame, back⟩ := cut
        obtain ⟨body, -, -, heq⟩ := (takeThrough_eq_some_iff ..).mp htake
        dsimp only
        split <;> simp [heq]

/-- The frames that the framing takes off. -/
theorem splits_frameScanner_iff : Splits frameScanner values msgs tail ↔
    values = msgs.flatMap frameOf ++ tail ∧ (∀ msg ∈ msgs, etx ∉ msg ∧ 3 ≤ msg.length) ∧
      (tail.length < 5 ∨ tail.head? = some stx ∧ etx ∉ tail) := by
  constructor
  · intro h
    induction h with
    | wait values hscan => exact ⟨rfl, by simp, (frameScan_eq_wait_iff values).mp hscan⟩
    | frame values msg rest msgs unread hscan _ ih =>
      obtain ⟨rfl, hmsgs, htail⟩ := ih
      obtain ⟨hmsg, hlong, rfl⟩ := (frameScan_eq_frame_iff ..).mp hscan
      refine ⟨by simp, ?_, htail⟩
      simp only [List.forall_mem_cons]
      exact ⟨⟨hmsg, hlong⟩, hmsgs⟩
  · rintro ⟨rfl, hmsgs, htail⟩
    induction msgs with
    | nil => exact .wait _ ((frameScan_eq_wait_iff _).mpr htail)
    | cons msg msgs ih =>
      simp only [List.forall_mem_cons] at hmsgs
      refine .frame _ msg (msgs.flatMap frameOf ++ tail) _ _ ?_ (ih hmsgs.2)
      refine (frameScan_eq_frame_iff ..).mpr ⟨hmsgs.1.1, hmsgs.1.2, ?_⟩
      rw [List.flatMap_cons, List.append_assoc]

/-- The read event goes on behind a message exactly when it can be read. -/
theorem takeMsg_goes (c : Conn) (msg : Bytes) : (takeMsg lib c msg).2 = (readMsg lib msg).isSome := by
  cases hmsg : readMsg lib msg with
  | none => rw [takeMsg_bad hmsg, Option.isSome_none]
  | some read =>
    obtain ⟨tranId, data⟩ := read
    by_cases hwaits : ∃ p t, c.transIdMap tranId = some p ∧ c.heap p = some t ∧ t.status = .pending
    · obtain ⟨p, t, hmap, ht, hst⟩ := hwaits
      by_cases hping : c.pingtxn = some p
      · rw [takeMsg_ping hmsg hmap ht hst hping, Option.isSome_some]
      · rw [takeMsg_answer hmsg hmap ht hst hping, Option.isSome_some]
    · rw [takeMsg_orphan hmsg fun p t hmap ht hst => hwaits ⟨p, t, hmap, ht, hst⟩, Option.isSome_some]

/-- The loop over the frames is stopped by a stream that is not intact, and by no other. -/
theorem drive_stopped_iff (c : Conn) :
    (drive frameScanner (takeMsg lib) c values).stopped = false ↔ Intact lib values := by
  constructor
  · intro hgoes
    obtain ⟨msgs, hsplits, hmsgs⟩ := splits_of_running frameScanner (takeMsg lib)
      (fun c msg hgoes => (takeMsg_goes c msg).symm.trans hgoes) c values hgoes
    obtain ⟨heq, hframes, htail⟩ := splits_frameScanner_iff.mp hsplits
    exact ⟨msgs, _, heq, fun msg hmsg => ⟨(hframes msg hmsg).1, (hframes msg hmsg).2, hmsgs msg hmsg⟩, htail⟩
  · rintro ⟨msgs, tail, heq, hmsgs, htail⟩
    have hsplits : Splits frameScanner values msgs tail := splits_frameScanner_iff.mpr
      ⟨heq, fun msg hmsg => ⟨(hmsgs msg hmsg).1, (hmsgs msg hmsg).2.1⟩, htail⟩
    rw [hsplits.drive_eq frameScanner (takeMsg lib)
      fun c msg hmsg => (takeMsg_goes c msg).trans (hmsgs msg hmsg).2.2]

end Grammar

section Answers

variable {lib} {c c' c'' : Conn} {p : Ptr} {t : Trans} {msg data : Bytes} {tranId : ℕ}
  {answers later : List (Ptr × Bytes)}

/-- Every answered transaction is done. -/
theorem Answers.done_of_mem (h : Answers lib c c' answers) (hp : p ∈ answers.map Prod.fst)
    (ht : c'.heap p = some t) : t.status = .done := by
  obtain ⟨answer, hanswer, rfl⟩ := List.mem_map.mp hp
  obtain ⟨u, -, -, hu⟩ := h.trans answer hanswer
  obtain rfl := Option.some.inj (ht.symm.trans hu)
  exact storeResponse_status lib u answer.2

/-- No transaction is answered twice. -/
theorem Answers.disjoint (h : Answers lib c c' answers) (h' : Answers lib c' c'' later) :
    (answers.map Prod.fst).Disjoint (later.map Prod.fst) := by
  intro p hp hp'
  obtain ⟨answer, hanswer, rfl⟩ := List.mem_map.mp hp'
  obtain ⟨t, ht, hst, -⟩ := h'.trans answer hanswer
  have hdone := h.done_of_mem hp ht
  rw [hst] at hdone
  cases hdone

/-- Answers come one after the other. -/
theorem Answers.append (h : Answers lib c c' answers) (h' : Answers lib c' c'' later) :
    Answers lib c c'' (answers ++ later) := by
  have hdisjoint := h.disjoint h'
  refine ⟨fun answer hanswer => ?_, fun p hp => ?_, ?_, ?_, ?_, h'.status.trans h.status, h'.io.trans h.io⟩
  · rcases List.mem_append.mp hanswer with hfirst | hsecond
    · obtain ⟨t, ht, hst, hstored⟩ := h.trans answer hfirst
      exact ⟨t, ht, hst, (h'.others _ (hdisjoint (List.mem_map_of_mem hfirst))).trans hstored⟩
    · obtain ⟨t, ht, hst, hstored⟩ := h'.trans answer hsecond
      have hother := h.others answer.1 fun hp => hdisjoint hp (List.mem_map_of_mem hsecond)
      exact ⟨t, hother ▸ ht, hst, hstored⟩
  · simp only [List.map_append, List.mem_append, not_or] at hp
    exact (h'.others p hp.2).trans (h.others p hp.1)
  · rw [h'.pending, h.pending, List.filter_filter]
    congr 1
    funext p
    simp only [List.map_append, List.mem_append, not_or, Bool.decide_and, Bool.and_comm]
  · rw [h'.done, h.done, List.map_append, List.append_assoc]
  · rw [List.map_append]
    exact h.once.append h'.once hdisjoint

/-- No answer. -/
theorem Answers.nothing (hheap : c'.heap = c.heap) (hpending : c'.transPending = c.transPending)
    (hdone : c'.transDone = c.transDone) (hstatus : c'.status = c.status) (hio : c'.io = c.io) :
    Answers lib c c' [] :=
  ⟨by simp, fun p _ => by rw [hheap], by simpa using hpending, by simpa using hdone, List.nodup_nil,
    hstatus, hio⟩

/-- A connection inside a handler, of which the ping has been answered. -/
structure Proven (c : Conn) : Prop where
  rep : Rep c.toTransStore
  busy : c.inUse = true
  delayed : c.transDelayRm = []
  ping : c.pingtxn = none

/-- A transaction waits for a response with its own id. -/
theorem Conn.waiting_eq_some_iff (hrep : Rep c.toTransStore) :
    c.waiting tranId = some p ↔ ∃ t, c.heap p = some t ∧ t.status = .pending ∧ t.transId = tranId := by
  simp only [Conn.waiting, Option.filter_eq_some_iff, Option.any_eq_true, decide_eq_true_eq]
  constructor
  · rintro ⟨hmap, t, ht, hst⟩
    obtain ⟨u, hu, hid⟩ := hrep.mapLive tranId p hmap
    obtain rfl := Option.some.inj (hu.symm.trans ht)
    exact ⟨u, ht, hst, hid⟩
  · rintro ⟨t, ht, hst, rfl⟩
    exact ⟨hrep.mapped p t ht, t, ht, hst⟩

/-- What a message that answers a transaction changes. -/
theorem takeMsg_completes (hmsg : readMsg lib msg = some (tranId, data)) (hmap : c.transIdMap tranId = some p)
    (ht : c.heap p = some t) (hst : t.status = .pending) (hother : c.pingtxn ≠ some p) :
    ∃ timers, takeMsg lib c msg = ({ c with
      heap := Function.update c.heap p (some { storeResponse lib t data with timeoutTimer := false })
      transPending := c.transPending.erase p
      transDone := c.transDone ++ [p]
      transTimers := timers
      events := c.events ++ [⟨.transDone, some p⟩]
      trace := c.trace ++ [.consumed msg, .answered p .pending msg, queuedAs .transDone p] }, true) := by
  have hlive : ((c.heard msg).answered p (storeResponse lib t data) msg).heap p =
      some (storeResponse lib t data) := Function.update_self ..
  obtain ⟨heap, timers, hkill⟩ := killTimeoutTimer_shape
    (((c.heard msg).answered p (storeResponse lib t data) msg).toTransStore.connEventAdd .transDone (some p))
    p (storeResponse lib t data)
  have hheap := TransStore.heap_killTimeoutTimer
    (((c.heard msg).answered p (storeResponse lib t data) msg).toTransStore.connEventAdd .transDone (some p))
    p (storeResponse lib t data) hlive
  rw [hkill] at hheap
  refine ⟨timers, ?_⟩
  rw [takeMsg_answer hmsg hmap ht hst hother, transCompleted_eq hlive, hkill]
  dsimp only at hheap
  rw [hheap]
  simp [Conn.heard, Conn.answered, TransStore.connEventAdd, queuedAs]

/-- A transaction that has been answered waits no more. -/
theorem Answers.waiting (h : Answers lib c c' [(p, data)]) (hrep : Rep c.toTransStore)
    (hrep' : Rep c'.toTransStore) (ht : c.heap p = some t) :
    c'.waiting = Function.update c.waiting t.transId none := by
  funext id
  refine Option.ext fun q => ?_
  rw [Conn.waiting_eq_some_iff hrep', Function.update_apply]
  by_cases hq : q = p
  · subst hq
    have hdone : ¬∃ u, c'.heap q = some u ∧ u.status = .pending ∧ u.transId = id := by
      rintro ⟨u, hu, hst, -⟩
      have hdone := h.done_of_mem (by simp) hu
      rw [hst] at hdone
      cases hdone
    refine iff_of_false hdone ?_
    split
    · simp
    · rename_i hne
      rw [Conn.waiting_eq_some_iff hrep]
      rintro ⟨u, hu, -, rfl⟩
      obtain rfl := Option.some.inj (hu.symm.trans ht)
      exact hne rfl
  · rw [h.others q (by simpa using hq)]
    split
    · rename_i hid
      refine iff_of_false ?_ (by simp)
      rintro ⟨u, hu, -, huid⟩
      exact hq (hrep.id_inj hu ht (huid.trans hid))
    · rw [Conn.waiting_eq_some_iff hrep]

/-- One message that answers a transaction. -/
theorem takeMsg_answers (h : Proven c) (hmsg : readMsg lib msg = some (tranId, data))
    (hwaits : c.waiting tranId = some p) :
    Answers lib c (takeMsg lib c msg).1 [(p, data)] ∧ Proven (takeMsg lib c msg).1 ∧
      (takeMsg lib c msg).1.waiting = Function.update c.waiting tranId none ∧
      eventsOf (takeMsg lib c msg).1.trace = eventsOf c.trace ++ [⟨.transDone, some p⟩] := by
  obtain ⟨t, ht, hst, rfl⟩ := (Conn.waiting_eq_some_iff h.rep).mp hwaits
  obtain ⟨timers, htaken⟩ := takeMsg_completes hmsg (h.rep.mapped p t ht) ht hst (by simp [h.ping])
  have hproven : Proven (takeMsg lib c msg).1 := by
    have htidy := (Tidy.clean h.rep h.busy h.delayed).takeMsg lib msg
    have hdelayed : (takeMsg lib c msg).1.transDelayRm = [] := by rw [htaken]; exact h.delayed
    refine ⟨?_, by rw [htaken]; exact h.busy, hdelayed, by rw [htaken]; exact h.ping⟩
    cases htidy with
    | clean hrep _ _ => exact hrep
    | retired q id hretired =>
      rw [hretired.delayed] at hdelayed
      cases hdelayed
  have hanswers : Answers lib c (takeMsg lib c msg).1 [(p, data)] := by
    rw [htaken]
    refine ⟨fun answer hanswer => ?_, fun q hq => ?_, ?_, rfl, List.nodup_singleton p, rfl, rfl⟩
    · obtain rfl := List.mem_singleton.mp hanswer
      exact ⟨t, ht, hst, Function.update_self ..⟩
    · exact Function.update_of_ne (by simpa using hq) ..
    · refine ((h.rep.nodup .pending).erase_eq_filter p).trans (List.filter_congr fun q _ => ?_)
      by_cases hq : q = p <;> simp [hq]
  refine ⟨hanswers, hproven, hanswers.waiting h.rep hproven.rep ht, ?_⟩
  rw [htaken]
  simp [eventsOf, queuedAs]

/-- A message that answers nothing. -/
theorem takeMsg_answersNone (h : Proven c)
    (hnone : ∀ tranId data, readMsg lib msg = some (tranId, data) → c.waiting tranId = none) :
    Answers lib c (takeMsg lib c msg).1 [] ∧ Proven (takeMsg lib c msg).1 ∧
      (takeMsg lib c msg).1.waiting = c.waiting ∧
      eventsOf (takeMsg lib c msg).1.trace = eventsOf c.trace := by
  have hheard : (takeMsg lib c msg).1 = c.heard msg := by
    cases hmsg : readMsg lib msg with
    | none => rw [takeMsg_bad hmsg]
    | some read =>
      obtain ⟨tranId, data⟩ := read
      refine congrArg Prod.fst (takeMsg_orphan hmsg fun p t hmap ht hst => ?_)
      obtain ⟨u, hu, hid⟩ := h.rep.mapLive tranId p hmap
      obtain rfl := Option.some.inj (hu.symm.trans ht)
      have hwaits := (Conn.waiting_eq_some_iff h.rep).mpr ⟨u, hu, hst, hid⟩
      rw [hnone tranId data hmsg] at hwaits
      cases hwaits
  rw [hheard]
  exact ⟨.nothing rfl rfl rfl rfl rfl, ⟨h.rep.log _, h.busy, h.delayed, h.ping⟩, rfl,
    by simp [Conn.heard, eventsOf]⟩

/-- Message after message, the first response to each waiting transaction answers it. -/
theorem takeMsgs_answers (msgs : List Bytes) (h : Proven c) :
    Answers lib c (msgs.foldl (fun c msg => (takeMsg lib c msg).1) c) (answersOf lib c.waiting msgs) ∧
      Proven (msgs.foldl (fun c msg => (takeMsg lib c msg).1) c) ∧
      eventsOf (msgs.foldl (fun c msg => (takeMsg lib c msg).1) c).trace = eventsOf c.trace ++
        (answersOf lib c.waiting msgs).map fun answer => ⟨.transDone, some answer.1⟩ := by
  induction msgs generalizing c with
  | nil => exact ⟨.nothing rfl rfl rfl rfl rfl, h, by simp [answersOf]⟩
  | cons msg msgs ih =>
    rw [List.foldl_cons]
    by_cases hwaits : ∃ tranId data p, readMsg lib msg = some (tranId, data) ∧ c.waiting tranId = some p
    · obtain ⟨tranId, data, p, hmsg, hwaits⟩ := hwaits
      obtain ⟨hanswer, hproven, hleft, hevents⟩ := takeMsg_answers h hmsg hwaits
      obtain ⟨hanswers, hlast, hlater⟩ := ih hproven
      have hcons : answersOf lib c.waiting (msg :: msgs) =
          [(p, data)] ++ answersOf lib (takeMsg lib c msg).1.waiting msgs := by
        rw [hleft, answersOf, hmsg]
        simp [hwaits]
      rw [hcons]
      refine ⟨hanswer.append hanswers, hlast, ?_⟩
      rw [hlater, hevents, List.append_assoc]
      rfl
    · have hnone : ∀ tranId data, readMsg lib msg = some (tranId, data) → c.waiting tranId = none := by
        intro tranId data hmsg
        exact Option.eq_none_iff_forall_ne_some.mpr fun p hp => hwaits ⟨tranId, data, p, hmsg, hp⟩
      obtain ⟨hanswer, hproven, hleft, hevents⟩ := takeMsg_answersNone h hnone
      obtain ⟨hanswers, hlast, hlater⟩ := ih hproven
      have hcons : answersOf lib c.waiting (msg :: msgs) =
          [] ++ answersOf lib (takeMsg lib c msg).1.waiting msgs := by
        rw [hleft, answersOf]
        cases hmsg : readMsg lib msg with
        | none => rfl
        | some read => simp [hnone read.1 read.2 hmsg]
      rw [hcons]
      exact ⟨hanswer.append hanswers, hlast, by rw [hlater, hevents]; rfl⟩

end Answers

section Reads

variable {lib} {net : NetOutcome} {s s' : Sys} {chunks msgs : List Bytes} {tail : Bytes}
  {answers : List (Ptr × Bytes)}

/-- Answers, told of a connection that is alike. -/
theorem Answers.of_alike {c c' d : Conn} (h : Answers lib c c' answers) (halike : Alike d c') :
    Answers lib c d answers where
  trans := by rw [halike.heap]; exact h.trans
  others := by rw [halike.heap]; exact h.others
  pending := (congrArg (fun c : Conn => c.transPending) halike.bare).trans h.pending
  done := (congrArg (fun c : Conn => c.transDone) halike.bare).trans h.done
  once := h.once
  status := halike.status.trans h.status
  io := halike.io.trans h.io

/-- What a connection at rest has read of an intact stream is what its messages have left. -/
theorem ReadsStream.related (h : ReadsStream lib net s chunks s') (hrested : Rested lib s)
    (hup : s.conn.io.any Io.up = true) (hgoes : (readDrive lib s.conn chunks.flatten).stopped = false) :
    Alike s'.conn.marked (readDrive lib s.conn chunks.flatten).state.cleared ∧
      s'.conn.inbuf = (readDrive lib s.conn chunks.flatten).unread := by
  obtain ⟨hrested', halike, hinbuf⟩ := h.alike hrested hup
  have hrelated := @Rested.readLeft_related lib net s chunks.flatten hrested hup hgoes
  have hdelay' : s'.conn.transDelayRm = [] :=
    ((running_of_reachable hrested'.reachable).link.rest (by rw [hrested'.idle]; rfl)).2.2
  have hdelay : (readLeft lib net s.conn chunks.flatten).marked.transDelayRm = [] :=
    (congrArg (fun c : Conn => c.transDelayRm) halike.bare).symm.trans hdelay'
  have hmarked : Alike s'.conn.marked (readLeft lib net s.conn chunks.flatten).marked :=
    ⟨congrArg Conn.marked halike.bare, halike.events⟩
  refine ⟨hmarked.trans (Conn.cleared_of_nil hdelay ▸ hrelated.alike), ?_⟩
  rw [hinbuf, readLeft, (hrested.taken _).tidy.handlerLeft_inbuf, hgoes]
  rfl

/-- The connection survives exactly the streams that are intact. A stream that is not intact takes it down,
and leaves no transaction waiting. -/
theorem stream_kept_iff_intact (lib : Mstdlib) (net : NetOutcome) {s s' : Sys} {chunks : List Bytes}
    (h : (monetra lib).Reachable s) (hidle : s.pc = .idle) (hup : s.conn.io.any Io.up = true)
    (hreads : ReadsStream lib net s chunks s') :
    (Intact lib (s.conn.inbuf ++ chunks.flatten) → s'.conn.io = s.conn.io) ∧
      (¬Intact lib (s.conn.inbuf ++ chunks.flatten) →
        s'.conn.io.any Io.up = false ∧ s'.conn.transPending = [] ∧ s'.conn.inbuf = []) := by
  have hrested := rested_of_up h hidle hup
  constructor
  · intro hintact
    have hgoes := (drive_stopped_iff s.conn.marked).mpr hintact
    obtain ⟨halike, -⟩ := hreads.related hrested hup hgoes
    exact halike.io.trans ((Conn.cleared_shape _).2.1.trans (hrested.taken _).io)
  · intro hbroken
    obtain ⟨hrested', halike, -⟩ := hreads.alike hrested hup
    have hstopped : (readDrive lib s.conn chunks.flatten).stopped = true := by
      by_contra hgoes
      rw [Bool.not_eq_true] at hgoes
      exact hbroken ((drive_stopped_iff s.conn.marked).mp hgoes)
    have hclosed : s'.conn.io.any Io.up = false := by
      rw [halike.io]
      exact (hrested.taken _).tidy.handlerLeft_closed hstopped
    have hblank := (stage_of_reachable hrested'.reachable hrested'.opened).blank hclosed
    exact ⟨hclosed, hblank.pending, hblank.inbuf⟩

/-- Responses find their transactions. Whatever responses the server sends, in whatever order and however
they are cut, each transaction that waits is completed with the first response of its id, the events tell
of them in the order in which they arrived, and all other responses have no effect. -/
theorem responses_find_their_transactions (lib : Mstdlib) (net : NetOutcome) {s s' : Sys}
    {chunks msgs : List Bytes} {tail : Bytes} (h : (monetra lib).Reachable s) (hidle : s.pc = .idle)
    (hup : s.conn.io.any Io.up = true) (hproved : s.conn.status ≠ .connecting)
    (hstream : s.conn.inbuf ++ chunks.flatten = msgs.flatMap frameOf ++ tail)
    (hmsgs : ∀ msg ∈ msgs, etx ∉ msg ∧ 3 ≤ msg.length ∧ (readMsg lib msg).isSome)
    (htail : tail.length < 5 ∨ tail.head? = some stx ∧ etx ∉ tail)
    (hreads : ReadsStream lib net s chunks s') :
    Answers lib s.conn s'.conn (answersOf lib s.conn.waiting msgs) ∧
      callbacksBetween s s' = (answersOf lib s.conn.waiting msgs).map (fun answer =>
        ⟨.transDone, some answer.1⟩) ∧ s'.conn.inbuf = tail := by
  have hrested := rested_of_up h hidle hup
  have hsplits : Splits frameScanner (s.conn.inbuf ++ chunks.flatten) msgs tail :=
    splits_frameScanner_iff.mpr ⟨hstream, fun msg hmsg => ⟨(hmsgs msg hmsg).1, (hmsgs msg hmsg).2.1⟩, htail⟩
  have hdrive : readDrive lib s.conn chunks.flatten = _ := hsplits.drive_eq frameScanner (takeMsg lib)
    (fun c msg hmsg => (takeMsg_goes c msg).trans (hmsgs msg hmsg).2.2) s.conn.marked
  have hrunning := running_of_reachable h
  have hproven : Proven s.conn.marked := ⟨hrunning.rep, rfl, (hrunning.link.rest (by rw [hidle]; rfl)).2.2,
    ((stage_of_reachable h hrested.opened).proved (hrested.alive hup) hproved).2⟩
  obtain ⟨hanswers, hlast, hevents⟩ := takeMsgs_answers msgs hproven
  obtain ⟨halike, hinbuf⟩ := hreads.related hrested hup (by rw [hdrive])
  rw [hdrive, Conn.cleared_of_nil hlast.delayed] at halike
  rw [hdrive] at hinbuf
  refine ⟨?_, ?_, hinbuf⟩
  · obtain ⟨htrans, hothers, hpending, hdone, honce, hstatus, hio⟩ := hanswers.of_alike halike
    exact ⟨htrans, hothers, hpending, hdone, honce, hstatus, hio⟩
  · obtain ⟨hrested', -⟩ := hreads.alike hrested hup
    have hcallbacks := hreads.callbacks hrested
    have hall : eventsOf s'.conn.trace = _ := halike.events.trans hevents
    rw [hrested'.callbacksOf_eq, hall, hrested.callbacksOf_eq] at hcallbacks
    exact (List.append_cancel_left hcallbacks).symm

end Reads

section Order

variable {lib} {c : Conn} {order : List Ptr} {payload : Ptr → Bytes}

/-- The id of a live transaction. -/
def Conn.idOf (c : Conn) (p : Ptr) : ℕ := (c.heap p).elim 0 Trans.transId

/-- The responses to some transactions, one after the other. -/
def responsesTo (c : Conn) (order : List Ptr) (payload : Ptr → Bytes) : List Bytes :=
  order.map fun p => responseMsg (c.idOf p) (payload p)

/-- Responses to different transactions that wait all count. -/
theorem answersOf_responsesTo (hlib : ReadsDecimals lib) (hid : ∀ p ∈ order, c.idOf p < 2 ^ 64)
    (hinj : ∀ p ∈ order, ∀ q ∈ order, c.idOf p = c.idOf q → p = q) (honce : order.Nodup)
    (waiting : ℕ → Option Ptr) (hwaits : ∀ p ∈ order, waiting (c.idOf p) = some p) :
    answersOf lib waiting (responsesTo c order payload) = order.map fun p => (p, payload p) := by
  induction order generalizing waiting with
  | nil => rfl
  | cons p order ih =>
    simp only [List.forall_mem_cons] at hid hwaits
    obtain ⟨hout, honce⟩ := List.nodup_cons.mp honce
    have hread : readMsg lib (responseMsg (c.idOf p) (payload p)) = some (c.idOf p, payload p) :=
      readMsg_decimal hlib hid.1 (payload p)
    have hrest := ih hid.2 (fun q hq r hr => hinj q (List.mem_cons_of_mem _ hq) r (List.mem_cons_of_mem _ hr))
      honce (Function.update waiting (c.idOf p) none) fun q hq => ?_
    · rw [responsesTo, List.map_cons, answersOf, hread]
      simp only [hwaits.1, List.map_cons]
      rw [← responsesTo, hrest]
    · rw [Function.update_of_ne, hwaits.2 q hq]
      intro hsame
      obtain rfl := hinj q (List.mem_cons_of_mem _ hq) p List.mem_cons_self hsame
      exact hout hq

end Order

/-- A server that answers everything completes everything. If it answers each transaction that waits once,
in whatever order and however its responses are cut, each has its own response in the end, the callback has
been told of each once and in the order of the responses, and nothing waits any more. -/
theorem answered_in_any_order (lib : Mstdlib) (hlib : ReadsDecimals lib) (net : NetOutcome) {s s' : Sys}
    {chunks : List Bytes} (h : (monetra lib).Reachable s) (hidle : s.pc = .idle)
    (hup : s.conn.io.any Io.up = true) (hproved : s.conn.status ≠ .connecting) (hunread : s.conn.inbuf = [])
    (order : List Ptr) (horder : order.Perm s.conn.transPending) (payload : Ptr → Bytes)
    (hetx : ∀ p ∈ order, etx ∉ payload p) (hlong : ∀ p ∈ order, 10 ≤ s.conn.idOf p ∨ payload p ≠ [])
    (hstream : chunks.flatten = (responsesTo s.conn order payload).flatMap frameOf)
    (hreads : ReadsStream lib net s chunks s') :
    (∀ p ∈ order, ∃ t, s.conn.heap p = some t ∧
      s'.conn.heap p = some { storeResponse lib t (payload p) with timeoutTimer := false }) ∧
    (∀ p, p ∉ order → s'.conn.heap p = s.conn.heap p) ∧ s'.conn.transPending = [] ∧
    callbacksBetween s s' = order.map (fun p => ⟨.transDone, some p⟩) ∧ s'.conn.status = s.conn.status := by
  have hrep := (running_of_reachable h).rep
  have hlive : ∀ p ∈ order, ∃ t, s.conn.heap p = some t ∧ t.status = .pending :=
    fun p hp => hrep.queued .pending p (horder.mem_iff.mp hp)
  have hidOf : ∀ {p t}, s.conn.heap p = some t → s.conn.idOf p = t.transId := fun ht => by simp [Conn.idOf, ht]
  have hanswersOf : answersOf lib s.conn.waiting (responsesTo s.conn order payload) =
      order.map fun p => (p, payload p) := by
    refine answersOf_responsesTo hlib (fun p hp => ?_) (fun p hp q hq hsame => ?_)
      (horder.nodup_iff.mpr (hrep.nodup .pending)) _ fun p hp => ?_
    · obtain ⟨t, ht, -⟩ := hlive p hp
      have hrange := (hrep.idRange p t ht).2
      rw [hidOf ht]
      omega
    · obtain ⟨t, ht, -⟩ := hlive p hp
      obtain ⟨u, hu, -⟩ := hlive q hq
      exact hrep.id_inj ht hu ((hidOf ht).symm.trans (hsame.trans (hidOf hu)))
    · obtain ⟨t, ht, hst⟩ := hlive p hp
      exact (Conn.waiting_eq_some_iff hrep).mpr ⟨t, ht, hst, (hidOf ht).symm⟩
  have hmsgs : ∀ msg ∈ responsesTo s.conn order payload,
      etx ∉ msg ∧ 3 ≤ msg.length ∧ (readMsg lib msg).isSome := by
    intro msg hmsg
    obtain ⟨p, hp, rfl⟩ := List.mem_map.mp hmsg
    obtain ⟨t, ht, -⟩ := hlive p hp
    have hrange := (hrep.idRange p t ht).2
    refine ⟨not_mem_responseMsg _ (hetx p hp), (three_le_length_responseMsg ..).mpr (hlong p hp), ?_⟩
    rw [responseMsg, readMsg_decimal hlib (by rw [hidOf ht]; omega)]
    rfl
  have hwhole : s.conn.inbuf ++ chunks.flatten = (responsesTo s.conn order payload).flatMap frameOf ++ [] := by
    rw [hunread, hstream, List.nil_append, List.append_nil]
  obtain ⟨hanswers, hcallbacks, -⟩ := responses_find_their_transactions lib net h hidle hup hproved hwhole hmsgs
    (Or.inl (by decide)) hreads
  rw [hanswersOf] at hanswers hcallbacks
  have hnames : (order.map fun p => (p, payload p)).map Prod.fst = order := by simp [Function.comp_def]
  refine ⟨fun p hp => ?_, fun p hp => hanswers.others p (by rwa [hnames]), ?_, ?_, hanswers.status⟩
  · obtain ⟨t, ht, -, hstored⟩ := hanswers.trans (p, payload p) (List.mem_map_of_mem hp)
    exact ⟨t, ht, hstored⟩
  · rw [hanswers.pending, hnames, List.filter_eq_nil_iff]
    intro p hp
    simpa using horder.mem_iff.mpr hp
  · rw [hcallbacks, List.map_map]
    rfl

/-- A stream that is no response: the connection goes down. -/
theorem stream_kept_iff_intact_broken :
    ∃ s', ReadsStream reference openNet saleSent [ascii "HTTP/1.1", ascii " 400"] s' ∧
      s'.conn.io.any Io.up = false ∧ s'.conn.transPending = [] := by
  have hrested := rested_of_up saleSent_reachable (by decide) (by decide)
  obtain ⟨s', hreads⟩ := hrested.reads openNet [ascii "HTTP/1.1", ascii " 400"]
  obtain ⟨-, hbroken⟩ :=
    stream_kept_iff_intact reference openNet saleSent_reachable (by decide) (by decide) hreads
  have hclosed := hbroken fun hintact => ?_
  · exact ⟨s', hreads, hclosed.1, hclosed.2.1⟩
  · rw [← drive_stopped_iff saleSent.conn.marked] at hintact
    rw [drive_bad frameScanner (takeMsg reference) rfl] at hintact
    cases hintact

/-- An answer for nobody, the approval of the sale, and the same once more: only the approval counts. -/
theorem responses_find_their_transactions_sale :
    ∃ s', ReadsStream reference openNet saleSent [stx :: decimal 8, fs :: ascii "NO" ++ [etx, stx],
        decimal 7 ++ fs :: ascii "OK" ++ [etx] ++ responseFrame 7 (ascii "NO")] s' ∧
      Answers reference saleSent.conn s'.conn [(0, ascii "OK")] ∧
      callbacksBetween saleSent s' = [⟨.transDone, some 0⟩] := by
  have hrested := rested_of_up saleSent_reachable (by decide) (by decide)
  obtain ⟨s', hreads⟩ := hrested.reads openNet [stx :: decimal 8, fs :: ascii "NO" ++ [etx, stx],
    decimal 7 ++ fs :: ascii "OK" ++ [etx] ++ responseFrame 7 (ascii "NO")]
  obtain ⟨hanswers, hcallbacks, -⟩ := responses_find_their_transactions reference openNet saleSent_reachable
    (by decide) (by decide) (by decide)
    (show _ = [responseMsg 8 (ascii "NO"), responseMsg 7 (ascii "OK"), responseMsg 7 (ascii "NO")].flatMap
      frameOf ++ [] by decide) (by decide) (Or.inl (by decide)) hreads
  exact ⟨s', hreads, hanswers, hcallbacks⟩

/-- A second sale goes out before the first one has been answered. -/
def sendSales : List Action :=
  sendSale ++ [.transNew [pingDraw], .transSetParam 2 (ascii "action") (some (ascii "sale")), .transSend 2]

/-- The library with both sales on the wire. -/
def salesSent : Sys := ((monetra reference).run started sendSales).get (by decide)

/-- This state is reachable. -/
theorem salesSent_reachable : (monetra reference).Reachable salesSent :=
  System.reachable_get _ (started_init reference) sendSales _

/-- A server that answers the second sale before the first. -/
theorem answered_in_any_order_sale :
    salesSent.conn.transPending = [0, 2] ∧
      ∃ s', ReadsStream reference openNet salesSent
          [stx :: decimal 9, fs :: ascii "NO" ++ [etx, stx], decimal 7 ++ fs :: ascii "OK" ++ [etx]] s' ∧
        s'.conn.transPending = [] ∧
        callbacksBetween salesSent s' = [⟨.transDone, some 2⟩, ⟨.transDone, some 0⟩] := by
  have hrested := rested_of_up salesSent_reachable (by decide) (by decide)
  obtain ⟨s', hreads⟩ := hrested.reads openNet
    [stx :: decimal 9, fs :: ascii "NO" ++ [etx, stx], decimal 7 ++ fs :: ascii "OK" ++ [etx]]
  obtain ⟨-, -, hnone, hcallbacks, -⟩ := answered_in_any_order reference reference_readsDecimals openNet
    salesSent_reachable (by decide) (by decide) (by decide) (by decide) [2, 0] (by decide)
    (fun p => if p = 2 then ascii "NO" else ascii "OK") (by decide) (by decide) (by decide) hreads
  exact ⟨by decide, s', hreads, hnone, hcallbacks⟩

end LibMonetra
