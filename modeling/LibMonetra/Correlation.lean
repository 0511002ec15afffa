import LibMonetra.Reference
import LibMonetra.Server

/-!
# Answers reach the transactions they answer

An id stands for one live transaction at a time, but it is free again as soon as its transaction is
deleted, while an answer to the deleted transaction may still be under way. As long as no such id is
drawn, every answer completes the transaction whose request it answers; otherwise it may complete
another one.
-/

namespace LibMonetra

open Foundation

variable {lib : Mstdlib}

section Completions

variable {new later : List Obs} {answers : List Answer} {p : Ptr} {answer : Answer}

/-- An answer is recorded right behind its own message. -/
theorem AnswersParsed.adjacent (h : AnswersParsed new) {pre post : List Obs} {msg msg' : Bytes}
    {status : TransStatus} (hsplit : new = pre ++ .consumed msg :: .answered p status msg' :: post) :
    msg = msg' := by
  obtain ⟨before, hbefore⟩ := h (pre ++ [.consumed msg]) p status msg' post (by simp [hsplit])
  exact Obs.consumed.inj (List.append_inj_right' hbefore rfl |> List.cons.inj).1

/-- A completion comes from one of the answers taken, and its message is recorded. -/
theorem completions_sound
    (hadjacent : ∀ pre msg q status msg' post,
      new = pre ++ .consumed msg :: .answered q status msg' :: post → msg = msg')
    (hmsgs : ∃ later, answers.map Answer.msg = consumedOf new ++ later)
    (h : (p, answer) ∈ completions new answers) :
    answer ∈ answers ∧ ∃ status, .answered p status answer.msg ∈ new := by
  induction new generalizing answers with
  | nil => simp [completions] at h
  | cons o rest ih =>
    have htail : ∀ pre msg q status msg' post,
        rest = pre ++ .consumed msg :: .answered q status msg' :: post → msg = msg' :=
      fun pre msg q status msg' post hrest =>
        hadjacent (o :: pre) msg q status msg' post (by simp [hrest])
    have hskip : consumedOf (o :: rest) = consumedOf rest → (p, answer) ∈ completions rest answers →
        answer ∈ answers ∧ ∃ status, .answered p status answer.msg ∈ o :: rest := by
      intro hsame hmem
      obtain ⟨hanswer, status, hrest⟩ := ih htail (hsame ▸ hmsgs) hmem
      exact ⟨hanswer, status, List.mem_cons_of_mem o hrest⟩
    cases o with
    | consumed msg =>
      obtain ⟨later, hlater⟩ := hmsgs
      cases answers with
      | nil => simp [consumedOf] at hlater
      | cons first answers =>
        obtain ⟨hfirst, hanswers⟩ := List.cons.inj hlater
        rcases List.mem_append.mp h with hnext | hmem
        · cases rest with
          | nil => simp [completedNext] at hnext
          | cons next rest =>
            cases next with
            | answered q status msg' =>
              obtain ⟨rfl, rfl⟩ := Prod.mk.inj (List.mem_singleton.mp hnext)
              have hsame : msg = msg' := hadjacent [] msg p status msg' rest rfl
              refine ⟨List.mem_cons_self, status, ?_⟩
              rw [hfirst, hsame]
              simp
            | _ => simp [completedNext] at hnext
        · obtain ⟨hanswer, status, hrest⟩ := ih htail ⟨later, hanswers⟩ hmem
          exact ⟨List.mem_cons_of_mem first hanswer, status, List.mem_cons_of_mem _ hrest⟩
    | _ => exact hskip rfl h

/-- Every answer that is recorded completes its transaction. -/
theorem completions_complete (answers : List Answer) {pre post : List Obs} {msg : Bytes}
    {status : TransStatus}
    (hmsgs : ∃ later, answers.map Answer.msg =
      consumedOf (pre ++ .consumed msg :: .answered p status msg :: post) ++ later) :
    ∃ answer, (p, answer) ∈ completions (pre ++ .consumed msg :: .answered p status msg :: post) answers ∧
      answer.msg = msg := by
  obtain ⟨later, hlater⟩ := hmsgs
  induction pre generalizing answers with
  | nil =>
    cases answers with
    | nil => simp [consumedOf] at hlater
    | cons first answers =>
      obtain ⟨hfirst, -⟩ := List.cons.inj hlater
      exact ⟨first, List.mem_append_left _ List.mem_cons_self, hfirst⟩
  | cons o pre ih =>
    cases o with
    | consumed msg' =>
      cases answers with
      | nil => simp [consumedOf] at hlater
      | cons first answers =>
        obtain ⟨answer, hmem, hmsg⟩ := ih answers (List.cons.inj hlater).2
        exact ⟨answer, List.mem_append_right _ hmem, hmsg⟩
    | _ => exact ih answers hlater

end Completions

/-- A request under way carries an id that stands for its transaction, or for none. -/
def Request.Owned (c : Conn) (request : Request) : Prop :=
  ∃ id, id < 2 ^ 32 - 1 ∧ request.id = decimal id ∧
    ∀ q, c.transIdMap id = some q → q = request.trans

/-- The server reads the id that the library has printed. -/
theorem requestFrame_id (p : Ptr) (id : ℕ) (params : HashDict) :
    Request.id ⟨p, requestFrame lib id params⟩ = decimal id := by
  have hdigits : ∀ b ∈ decimal id, decide (b ≠ fs) = true := by
    intro b hb
    rw [decide_eq_true_eq]
    rintro rfl
    exact not_mem_decimal (by decide) hb
  have hframe : (requestFrame lib id params).tail =
      decimal id ++ fs :: (requestPayload lib params ++ [etx]) := by
    simp [requestFrame, requestBody]
  simp only [Request.id, hframe, List.takeWhile_append_of_pos hdigits]
  simp

/-- What a run in which no id under way is drawn keeps. -/
structure Matched (lib : Mstdlib) (net : Net) : Prop where
  running : Running lib net.sys
  link : IoLink net.sys
  requests : ∀ request ∈ net.requests, request.Owned net.sys.conn
  answers : ∀ answer ∈ net.answers, answer.request.Owned net.sys.conn ∧ etx ∉ answer.payload
  bytes : net.sys.conn.inbuf ++ net.stream = (net.answers.map Answer.msg).flatMap frameOf
  own : ∀ p answer, (p, answer) ∈ net.completed → answer.request.trans = p
  recorded : ∀ p status msg, .answered p status msg ∈ net.sys.conn.trace →
    ∃ answer id, (p, answer) ∈ net.completed ∧ readMsg lib msg = some (id, answer.payload)

section Matched

variable {net : Net}

/-- An answer under way is read as an answer to its request. -/
theorem readMsg_answer (hlib : ReadsDecimals lib) {c : Conn} {answer : Answer}
    (h : answer.request.Owned c) : ∃ id, readMsg lib answer.msg = some (id, answer.payload) ∧
      ∀ q, c.transIdMap id = some q → q = answer.request.trans := by
  obtain ⟨id, hid, hecho, hown⟩ := h
  have hwide : id < 2 ^ 64 := by omega
  exact ⟨id, by rw [Answer.msg, hecho, readMsg_decimal hlib hwide], hown⟩

/-- The message of an answer under way does not contain the end of a frame. -/
theorem etx_not_mem_msg {c : Conn} {answer : Answer} (h : answer.request.Owned c)
    (hpayload : etx ∉ answer.payload) : etx ∉ answer.msg := by
  obtain ⟨id, -, hecho, -⟩ := h
  simp only [Answer.msg, hecho, List.mem_append, List.mem_cons, not_or]
  exact ⟨not_mem_decimal (by decide), by decide, hpayload⟩

/-- A request stays owned unless its id is drawn again. -/
theorem Request.Owned.exchange {c c' : Conn} {drawn : Option ℕ} {chunk : Bytes} {new : List Obs}
    {request : Request} (h : request.Owned c) (hex : Exchange lib c c' drawn chunk new)
    (hfresh : ∀ id, drawn = some id → decimal id ≠ request.id) : request.Owned c' := by
  obtain ⟨id, hid, hecho, hown⟩ := h
  refine ⟨id, hid, hecho, fun q hq => ?_⟩
  rcases hex.map id q hq with hold | hdrawn
  · exact hown q hold
  · exact absurd hecho.symm (hfresh id hdrawn)

/-- The messages that the library takes are the oldest answers, and the bytes of the others remain. -/
theorem Matched.taken (h : Matched lib net) {c : Conn} {drawn : Option ℕ} {chunk stream : Bytes}
    {new : List Obs} (hex : Exchange lib net.sys.conn c drawn chunk new)
    (hstream : net.stream = chunk ++ stream) :
    ∃ later, net.answers.map Answer.msg = consumedOf new ++ later ∧
      (c.inbuf ++ stream = later.flatMap frameOf ∨ c.io = none) := by
  obtain ⟨rest, htaken, hend⟩ := hex.bytes
  have hall : ∀ msg ∈ net.answers.map Answer.msg, etx ∉ msg := by
    intro msg hmsg
    obtain ⟨answer, hanswer, rfl⟩ := List.mem_map.mp hmsg
    exact etx_not_mem_msg (h.answers answer hanswer).1 (h.answers answer hanswer).2
  have hstart : (consumedOf new).flatMap frameOf ++ (rest ++ stream) =
      (net.answers.map Answer.msg).flatMap frameOf := by
    rw [← h.bytes, hstream, ← List.append_assoc, ← List.append_assoc, htaken]
  obtain ⟨later, hmsgs, hrest⟩ := frames_of_append hex.plain hall hstart
  refine ⟨later, hmsgs, hend.imp (fun hbuf => ?_) And.right⟩
  rw [hbuf, hrest]

/-- What the library takes completes the transactions that were asked for. -/
theorem Matched.own_new (hlib : ReadsDecimals lib) (h : Matched lib net) {c : Conn}
    {drawn : Option ℕ} {chunk : Bytes} {new : List Obs}
    (hex : Exchange lib net.sys.conn c drawn chunk new)
    (hmsgs : ∃ later, net.answers.map Answer.msg = consumedOf new ++ later) {p : Ptr}
    {answer : Answer} (hmem : (p, answer) ∈ completions new net.answers) :
    answer.request.trans = p := by
  obtain ⟨hanswer, status, hanswered⟩ :=
    completions_sound (fun _ _ _ _ _ _ => hex.parsed.adjacent) hmsgs hmem
  obtain ⟨id, hread, hunique⟩ := readMsg_answer hlib (h.answers answer hanswer).1
  obtain ⟨id', data, hread', hp⟩ := hex.answered p status answer.msg hanswered
  rw [hread, Option.some.injEq, Prod.mk.injEq] at hread'
  exact (hunique p (hread'.1 ▸ hp)).symm

/-- Every transaction that the library completes is completed by an answer. -/
theorem Matched.recorded_new (hlib : ReadsDecimals lib) (h : Matched lib net) {c : Conn}
    {drawn : Option ℕ} {chunk : Bytes} {new : List Obs}
    (hex : Exchange lib net.sys.conn c drawn chunk new)
    (hmsgs : ∃ later, net.answers.map Answer.msg = consumedOf new ++ later) {p : Ptr}
    {status : TransStatus} {msg : Bytes} (hmem : .answered p status msg ∈ new) :
    ∃ answer id, (p, answer) ∈ completions new net.answers ∧
      readMsg lib msg = some (id, answer.payload) := by
  obtain ⟨pre, post, hsplit⟩ := List.append_of_mem hmem
  obtain ⟨before, rfl⟩ := hex.parsed pre p status msg post hsplit
  rw [List.append_assoc] at hsplit
  obtain ⟨answer, hcompleted, rfl⟩ := completions_complete net.answers (hsplit ▸ hmsgs)
  have hmem' : (p, answer) ∈ completions new net.answers := by
    rw [hsplit]
    exact hcompleted
  obtain ⟨hanswer, -⟩ := completions_sound (fun _ _ _ _ _ _ => hex.parsed.adjacent) hmsgs hmem'
  obtain ⟨id, hread, -⟩ := readMsg_answer hlib (h.answers answer hanswer).1
  exact ⟨answer, id, hmem', hread⟩

/-- Every request that the library sends is owned. -/
theorem Exchange.owned {c c' : Conn} {drawn : Option ℕ} {chunk : Bytes} {new : List Obs}
    (hex : Exchange lib c c' drawn chunk new) {request : Request} (h : request ∈ requestsOf new) :
    request.Owned c' := by
  obtain ⟨o, ho, hrequest⟩ := List.mem_filterMap.mp h
  cases o with
  | framed p owner status frame =>
    obtain rfl := Option.some.inj hrequest
    obtain ⟨id, params, hid, rfl, hunique⟩ := hex.framed p owner status frame ho
    exact ⟨id, hid, requestFrame_id p id params, hunique⟩
  | _ => cases hrequest

/-- The library goes on without drawing an id that is under way. -/
theorem Matched.goOn (hlib : ReadsDecimals lib) (h : Matched lib net) {s : Sys} {a : Action}
    {stream : Bytes} (hstep : sysStep lib net.sys a = some s) (hstream : net.stream = a.chunk ++ stream)
    (hfresh : ∀ id, a.drawn net.sys.conn = some id → decimal id ∉ net.underWay) :
    Matched lib (({ net with stream := stream } : Net).goOn s) := by
  obtain ⟨hlink, new, hex⟩ := sysStep_exchange hstep h.running h.link
  have hnew : s.conn.trace.drop net.sys.conn.trace.length = new := by simp [hex.trace]
  obtain ⟨later, hmsgs, hend⟩ := h.taken hex hstream
  have hkept : ∀ request : Request, request.id ∈ net.underWay → request.Owned net.sys.conn →
      request.Owned s.conn := fun request hmem howned =>
    howned.exchange hex fun id hdrawn hsame => hfresh id hdrawn (hsame ▸ hmem)
  have hown : ∀ p answer, (p, answer) ∈ net.completed ++ completions new net.answers →
      answer.request.trans = p := by
    intro p answer hmem
    rcases List.mem_append.mp hmem with hold | hmem
    · exact h.own p answer hold
    · exact h.own_new hlib hex ⟨later, hmsgs⟩ hmem
  have hrecorded : ∀ p status msg, .answered p status msg ∈ s.conn.trace →
      ∃ answer id, (p, answer) ∈ net.completed ++ completions new net.answers ∧
        readMsg lib msg = some (id, answer.payload) := by
    intro p status msg hmem
    rw [hex.trace] at hmem
    rcases List.mem_append.mp hmem with hold | hmem
    · obtain ⟨answer, id, hcompleted, hread⟩ := h.recorded p status msg hold
      exact ⟨answer, id, List.mem_append_left _ hcompleted, hread⟩
    · obtain ⟨answer, id, hcompleted, hread⟩ := h.recorded_new hlib hex ⟨later, hmsgs⟩ hmem
      exact ⟨answer, id, List.mem_append_right _ hcompleted, hread⟩
  have hrunning := h.running.step hstep
  unfold Net.goOn
  simp only [hnew]
  split
  · rename_i hio
    rw [Option.isNone_iff_eq_none] at hio
    refine ⟨hrunning, hlink, by simp, by simp, ?_, hown, hrecorded⟩
    simp [hlink.inbuf_eq_nil hio]
  · rename_i hio
    rw [Option.isNone_iff_eq_none] at hio
    refine ⟨hrunning, hlink, fun request hmem => ?_, fun answer hmem => ?_, ?_, hown, hrecorded⟩
    · rcases List.mem_append.mp hmem with hold | hsent
      · exact hkept request (List.mem_append_left _ (List.mem_map_of_mem hold))
          (h.requests request hold)
      · exact hex.owned hsent
    · have hold := List.mem_of_mem_drop hmem
      obtain ⟨howned, hpayload⟩ := h.answers answer hold
      exact ⟨hkept _ (List.mem_append_right _ (List.mem_map_of_mem hold)) howned, hpayload⟩
    · rw [List.map_drop, hmsgs, List.drop_left]
      exact hend.resolve_right hio

/-- The system starts with nothing under way. -/
theorem Matched.init (h : (networked lib).init net) : Matched lib net := by
  obtain ⟨s, hs, rfl⟩ := h
  have hrunning := Running.init hs
  obtain ⟨host, port, -, -, rfl⟩ := hs
  refine ⟨hrunning, ⟨fun hne => absurd rfl hne, fun hne => absurd rfl hne, fun _ hset => ?_⟩,
    by simp, by simp, rfl, by simp, fun p status msg hmem => absurd hmem List.not_mem_nil⟩
  rcases hset with hc | ⟨pingEnd, hc⟩ <;> cases hc

/-- A step that draws no id under way keeps answers and requests together. -/
theorem Matched.step (hlib : ReadsDecimals lib) (h : Matched lib net) {net' : Net} {action : NetAction}
    (hfresh : action.redraws net = false) (hstep : netStep lib net action = some net') :
    Matched lib net' := by
  cases action with
  | library a =>
    simp only [netStep] at hstep
    split at hstep
    · rename_i hchunk
      obtain ⟨s, hs, rfl⟩ := Option.map_eq_some_iff.mp hstep
      refine h.goOn hlib hs (by simp [hchunk]) fun id hid => ?_
      simpa [NetAction.redraws, hid] using hfresh
    · cases hstep
  | answer i payload =>
    simp only [netStep] at hstep
    split at hstep
    · cases hstep
    · rename_i request hrequest
      split at hstep
      · cases hstep
      · rename_i hpayload
        obtain rfl := Option.some.inj hstep
        have howned := h.requests request (List.mem_of_getElem? hrequest)
        refine ⟨h.running, h.link, fun r hr => h.requests r (List.mem_of_mem_eraseIdx hr),
          fun answer hmem => ?_, ?_, h.own, h.recorded⟩
        · rcases List.mem_append.mp hmem with hold | hnew
          · exact h.answers answer hold
          · obtain rfl := List.mem_singleton.mp hnew
            exact ⟨howned, hpayload⟩
        · rw [← List.append_assoc, h.bytes]
          simp
  | read n =>
    obtain ⟨s, hs, rfl⟩ := Option.map_eq_some_iff.mp hstep
    exact h.goOn hlib hs (List.take_append_drop n net.stream).symm fun id hid => by cases hid

end Matched

end LibMonetra
