import LibMonetra.RunByParts

/-!
# `monetra_cli`

The callback of `monetra_cli` sends the dictionaries that were prepared from the command line, one
after the other or all at once, counts the transactions that are outstanding, and disconnects behind
the last response. Its runs are driven by the events of a connection that does not fail: it comes up
once, and every transaction that was sent gets one response, in any order.
-/

namespace LibMonetra

open Foundation

/-- The dictionaries that `cli_trans_create` prepares: their keys are compared ignoring case, each has
one value, and an identifier was inserted last. -/
structure Prepared (kvs : HashDict) : Prop where
  casecmp : kvs.casecmp = true
  single : kvs.multiValue = false
  identifier : kvs.hasKey (ascii "identifier") = true

/-- The list of `cli_trans_t`: `cli_trans_create` puts at least one dictionary into it, and its length is
a `size_t`. -/
structure KvsList (sizeBits : ℕ) where
  kvs : List HashDict
  prepared : ∀ dict ∈ kvs, Prepared dict
  nonempty : kvs ≠ []
  fits : kvs.length < 2 ^ sizeBits

/-- The request that `LM_trans_set_param` builds from the pairs of a dictionary. -/
def requestOf (kvs : HashDict) : HashDict := HashDict.create.setAll kvs.entries

/-- `cli_trans_t`, as far as the callback uses it. -/
structure CliTrans where
  kvs : List HashDict
  sendSerial : Bool
  outstandingCnt : ℕ

/-- What the callback asks of the library. -/
inductive CliCall
  /-- `LM_trans_new`, `LM_trans_set_param` for every pair, and `LM_trans_send`. -/
  | send (p : Ptr) (kvs : HashDict)
  | delete (p : Ptr)
  | disconnect
  | destroy
  | eventDone
  deriving DecidableEq

/-- `monetra_cli` at work: its `cli_trans_t`, the handle that `LM_trans_new` returns next, and the
record of its calls. -/
structure CliRun where
  trans : CliTrans
  nextTrans : Ptr
  calls : List CliCall

section Callback

variable (sizeBits : ℕ)

/-- `queue_lm_trans`. -/
def queueLmTrans (r : CliRun) : CliRun × Bool :=
  match r.trans.kvs with
  | [] => (r, false)
  | kvs :: rest =>
    ({ trans := { r.trans with kvs := rest, outstandingCnt := (r.trans.outstandingCnt + 1) % 2 ^ sizeBits }
       nextTrans := r.nextTrans + 1
       calls := r.calls ++ [.send r.nextTrans kvs] }, true)

/-- The loop of the event that the connection is up, with a bound on its turns. -/
def queueLoop : ℕ → CliRun → CliRun
  | 0, r => r
  | fuel + 1, r =>
    let queued := queueLmTrans sizeBits r
    if queued.2 ∧ r.trans.sendSerial = false then queueLoop fuel queued.1 else queued.1

/-- `trans_callback`. -/
def transCallback (r : CliRun) (e : Event) : CliRun :=
  match e.type, e.trans with
  | .connConnected, _ => queueLoop sizeBits (r.trans.kvs.length + 1) r
  | .connDisconnect, _ | .connError, _ => { r with calls := r.calls ++ [.destroy, .eventDone] }
  | .transDone, some p =>
    let r := { r with
      trans := { r.trans with
        outstandingCnt := (r.trans.outstandingCnt + 2 ^ sizeBits - 1) % 2 ^ sizeBits }
      calls := r.calls ++ [.delete p] }
    let r := (queueLmTrans sizeBits r).1
    -- this was the last transaction
    if r.trans.outstandingCnt = 0 then { r with calls := r.calls ++ [.disconnect] } else r
  | .transError, some p | .transNoconnect, some p => { r with calls := r.calls ++ [.delete p] }
  | .transTimeout, _ | .transDone, none | .transError, none | .transNoconnect, none => r

end Callback

/-- The transactions that were sent, with their dictionaries: `LM_trans_send` accepts a transaction that
has parameters. -/
def sentOf (calls : List CliCall) : List (Ptr × HashDict) :=
  calls.filterMap fun call => match call with
    | .send p kvs => if (requestOf kvs).numKeys ≠ 0 then some (p, kvs) else none
    | _ => none

/-- The transactions that were sent and have not been answered. -/
def unansweredOf (calls : List CliCall) (answered : List Ptr) : List Ptr :=
  ((sentOf calls).map Prod.fst).filter fun p => p ∉ answered

/-- A connection of `monetra_cli`: whether it has come up, and the transactions whose response the
callback has handled. -/
structure CliSys where
  run : CliRun
  connected : Bool
  answered : List Ptr

/-- The transactions that were sent and have not been answered. -/
def CliSys.unanswered (s : CliSys) : List Ptr := unansweredOf s.run.calls s.answered

/-- The events of a connection that does not fail: it comes up once, the response of every transaction
arrives once, and the connection ends when `LM_conn_disconnect` has been called. -/
def CliSys.mayReport (s : CliSys) (e : Event) : Bool :=
  match e.type, e.trans with
  | .connConnected, none => !s.connected
  | .transDone, some p => p ∈ s.unanswered
  | .connDisconnect, none => .disconnect ∈ s.run.calls ∧ .destroy ∉ s.run.calls
  | _, _ => false

/-- The callback is called with the next event. -/
def cliStep (sizeBits : ℕ) (s : CliSys) (e : Event) : Option CliSys :=
  if s.mayReport e then
    some {
      run := transCallback sizeBits s.run e
      connected := s.connected || e.type == .connConnected
      answered := if e.type = .transDone then s.answered ++ e.trans.toList else s.answered }
  else none

/-- A run of `monetra_cli` over a list of dictionaries. -/
def monetraCli {sizeBits : ℕ} (list : KvsList sizeBits) (sendSerial : Bool) : System CliSys Event where
  init s := ∃ nextTrans, s = ⟨⟨⟨list.kvs, sendSerial, 0⟩, nextTrans, []⟩, false, []⟩
  step := cliStep sizeBits

/-- Everything is sent once, and the connection is given up once. -/
structure SendsOnce (sizeBits : ℕ) (kvs : List HashDict) (sendSerial : Bool) (s : CliSys) : Prop where
  /-- What was sent is what has been taken off the list, in the order of the list. -/
  inOrder : (sentOf s.run.calls).map Prod.snd ++ s.run.trans.kvs = kvs
  distinct : ((sentOf s.run.calls).map Prod.fst).Nodup
  outstanding : s.run.trans.outstandingCnt = s.unanswered.length
  positive : ∀ p s', cliStep sizeBits s ⟨.transDone, some p⟩ = some s' → 0 < s.run.trans.outstandingCnt
  serial : sendSerial = true → s.run.trans.outstandingCnt ≤ 1
  /-- A run whose last response has not been handled waits for a response. -/
  waits : s.connected = true → s.answered.length < kvs.length → s.unanswered ≠ []
  disconnects : s.run.calls.count .disconnect = if s.answered.length = kvs.length then 1 else 0
  hangsUp : .disconnect ∈ s.run.calls → s.run.trans.kvs = [] ∧ s.unanswered = []

section Requests

/-- A prepared dictionary makes a request that has parameters. -/
theorem Prepared.numKeys_ne_zero {kvs : HashDict} (h : Prepared kvs) : (requestOf kvs).numKeys ≠ 0 := by
  obtain ⟨entry, hentry, hsame⟩ := List.any_eq_true.mp h.identifier
  have hkey : entry.1 ≠ [] := by
    intro hnil
    rw [hnil, HashDict.sameKey, h.casecmp] at hsame
    exact absurd hsame (by decide)
  obtain ⟨before, after, hsplit⟩ := List.append_of_mem hentry
  have hpos : ∀ (members : List (Bytes × Option Bytes)) (dict : HashDict), dict.numKeys ≠ 0 →
      (dict.setAll members).numKeys ≠ 0 := by
    intro members
    induction members with
    | nil => exact fun _ => id
    | cons member rest ih =>
      intro dict hdict
      rw [HashDict.setAll, List.foldl_cons]
      refine ih _ ?_
      split
      · exact (dict.numKeys_insert_pos member.1 member.2).ne'
      · exact hdict
  have hcut : requestOf kvs =
      ((HashDict.create.setAll before).insert entry.1 entry.2).setAll after := by
    rw [requestOf, hsplit, HashDict.setAll, List.foldl_append, List.foldl_cons, if_pos hkey]
    rfl
  rw [hcut]
  exact hpos after _ (HashDict.numKeys_insert_pos _ _ _).ne'

/-- The library accepts the request of a prepared dictionary, which is what `sentOf` counts. -/
theorem Prepared.accepted {kvs : HashDict} (h : Prepared kvs) (lib : Mstdlib) {c : Conn}
    {draws : List RandDraw} {draw : RandDraw} (hnext : c.nextPtr ∉ c.transReady)
    (hdraw : unusedDraw c draws = some draw) :
    (transRunByParts lib c draws kvs.entries).trans = some c.nextPtr := by
  obtain ⟨created, hcreated, hlive, hready⟩ := transNew_eq c hdraw
  obtain ⟨params, hset, hparams⟩ := transSetParams_eq hlive rfl kvs.entries
  have hrequest : params = some (requestOf kvs) := by
    cases params with
    | none => exact absurd (congrArg HashDict.numKeys hparams.symm) h.numKeys_ne_zero
    | some params => exact congrArg some hparams
  rw [hrequest] at hset
  have hok := (transSend_alike lib hlive rfl (hready ▸ hnext) h.numKeys_ne_zero h.numKeys_ne_zero rfl rfl).1
  rw [transRunByParts, hcreated]
  simp only [hset, hok, if_true]

end Requests

/-- What holds of the requests and their responses at every point of the callback. -/
structure Sending (kvs : List HashDict) (sendSerial : Bool) (r : CliRun) (answered : List Ptr) :
    Prop where
  mode : r.trans.sendSerial = sendSerial
  inOrder : (sentOf r.calls).map Prod.snd ++ r.trans.kvs = kvs
  distinct : ((sentOf r.calls).map Prod.fst).Nodup
  fresh : ∀ p ∈ (sentOf r.calls).map Prod.fst, p < r.nextTrans
  known : ∀ p ∈ answered, p < r.nextTrans
  outstanding : r.trans.outstandingCnt = (unansweredOf r.calls answered).length
  total : (unansweredOf r.calls answered).length + answered.length = (sentOf r.calls).length

section Sending

variable {sizeBits : ℕ} {kvs : List HashDict} {sendSerial : Bool} {r : CliRun} {answered : List Ptr}

@[simp] theorem sentOf_append (calls later : List CliCall) :
    sentOf (calls ++ later) = sentOf calls ++ sentOf later := List.filterMap_append

/-- What has been sent, and what is left, makes up the list. -/
theorem Sending.length_eq (h : Sending kvs sendSerial r answered) :
    (sentOf r.calls).length + r.trans.kvs.length = kvs.length := by
  rw [← h.inOrder, List.length_append, List.length_map]

/-- Calls that send nothing leave the requests alone. -/
theorem Sending.called (h : Sending kvs sendSerial r answered) {later : List CliCall}
    (hlater : sentOf later = []) : Sending kvs sendSerial { r with calls := r.calls ++ later } answered := by
  have hsent : sentOf (r.calls ++ later) = sentOf r.calls := by
    rw [sentOf_append, hlater, List.append_nil]
  obtain ⟨hmode, hinOrder, hdistinct, hfresh, hknown, houtstanding, htotal⟩ := h
  unfold unansweredOf at houtstanding htotal
  constructor <;> simp only [unansweredOf, hsent] <;> assumption

/-- Another dictionary is sent. -/
theorem Sending.queue (h : Sending kvs sendSerial r answered) {next : HashDict} {rest : List HashDict}
    (hkvs : r.trans.kvs = next :: rest) (hnext : Prepared next) (hsize : kvs.length < 2 ^ sizeBits) :
    Sending kvs sendSerial
      { trans := { r.trans with
          kvs := rest
          outstandingCnt := (r.trans.outstandingCnt + 1) % 2 ^ sizeBits }
        nextTrans := r.nextTrans + 1
        calls := r.calls ++ [.send r.nextTrans next] } answered := by
  have hsent : sentOf (r.calls ++ [.send r.nextTrans next]) = sentOf r.calls ++ [(r.nextTrans, next)] := by
    rw [sentOf_append]
    simp [sentOf, hnext.numKeys_ne_zero]
  have hnew : r.nextTrans ∉ answered := fun hp => Nat.lt_irrefl _ (h.known _ hp)
  have hwaits : unansweredOf (r.calls ++ [.send r.nextTrans next]) answered =
      unansweredOf r.calls answered ++ [r.nextTrans] := by
    simp [unansweredOf, hsent, hnew]
  have hlength := h.length_eq
  have htotal := h.total
  rw [hkvs, List.length_cons] at hlength
  refine ⟨h.mode, ?_, ?_, ?_, fun p hp => Nat.lt_succ_of_lt (h.known p hp), ?_, ?_⟩
  · rw [← h.inOrder, hkvs]
    simp [hsent]
  · simp only [hsent, List.map_append, List.map_singleton]
    refine List.nodup_append.mpr ⟨h.distinct, List.nodup_singleton _, fun p hp q hq heq => ?_⟩
    rw [List.mem_singleton.mp hq] at heq
    exact Nat.lt_irrefl _ (heq ▸ h.fresh p hp)
  · intro p hp
    simp only [hsent, List.map_append, List.map_singleton, List.mem_append, List.mem_singleton] at hp
    rcases hp with hp | rfl
    · exact Nat.lt_succ_of_lt (h.fresh p hp)
    · exact Nat.lt_succ_self _
  · simp only [hwaits, List.length_append, List.length_singleton, h.outstanding]
    exact Nat.mod_eq_of_lt (by omega)
  · simp only [hwaits, hsent, List.length_append, List.length_singleton]
    omega

/-- The response of a transaction is handled. -/
theorem Sending.answer (h : Sending kvs sendSerial r answered) {p : Ptr}
    (hp : p ∈ unansweredOf r.calls answered) (hsize : kvs.length < 2 ^ sizeBits) :
    Sending kvs sendSerial
      { r with trans := { r.trans with
          outstandingCnt := (r.trans.outstandingCnt + 2 ^ sizeBits - 1) % 2 ^ sizeBits } }
      (answered ++ [p]) := by
  have hwaits : unansweredOf r.calls (answered ++ [p]) = (unansweredOf r.calls answered).erase p := by
    have hnodup : (unansweredOf r.calls answered).Nodup := h.distinct.filter _
    rw [hnodup.erase_eq_filter, unansweredOf, unansweredOf, List.filter_filter]
    refine List.filter_congr fun q _ => ?_
    by_cases hq : q = p <;> simp [hq]
  have hlength := List.length_erase_of_mem hp
  have hpos := List.length_pos_of_mem hp
  have hbound := h.length_eq
  have htotal := h.total
  refine ⟨h.mode, h.inOrder, h.distinct, h.fresh, ?_, ?_, ?_⟩
  · intro q hq
    rcases List.mem_append.mp hq with hq | hq
    · exact h.known q hq
    · rw [List.mem_singleton.mp hq]
      exact h.fresh p (List.mem_of_mem_filter hp)
  · simp only [hwaits, hlength, h.outstanding]
    rw [show (unansweredOf r.calls answered).length + 2 ^ sizeBits - 1 =
      (unansweredOf r.calls answered).length - 1 + 2 ^ sizeBits by omega, Nat.add_mod_right]
    exact Nat.mod_eq_of_lt (by omega)
  · simp only [hwaits, hlength, List.length_append, List.length_singleton]
    omega

/-- One turn of `queue_lm_trans`, on what is left of the list. -/
theorem Sending.queueLmTrans (h : Sending kvs sendSerial r answered) (hall : ∀ dict ∈ kvs, Prepared dict)
    (hsize : kvs.length < 2 ^ sizeBits) :
    Sending kvs sendSerial (queueLmTrans sizeBits r).1 answered ∧
      (queueLmTrans sizeBits r).1.trans.kvs = r.trans.kvs.tail ∧
      (queueLmTrans sizeBits r).2 = !r.trans.kvs.isEmpty ∧
      (queueLmTrans sizeBits r).1.calls.count .disconnect = r.calls.count .disconnect := by
  unfold LibMonetra.queueLmTrans
  cases hkvs : r.trans.kvs with
  | nil => exact ⟨h, hkvs, rfl, rfl⟩
  | cons next rest =>
    have hnext : Prepared next := hall next (by rw [← h.inOrder, hkvs]; simp)
    exact ⟨h.queue hkvs hnext hsize, rfl, rfl, by simp⟩

/-- The loop of the event that the connection is up sends one dictionary, or all of them. -/
theorem Sending.queueLoop (h : Sending kvs sendSerial r answered) (hall : ∀ dict ∈ kvs, Prepared dict)
    (hsize : kvs.length < 2 ^ sizeBits) (fuel : ℕ) (hfuel : r.trans.kvs.length < fuel) :
    Sending kvs sendSerial (queueLoop sizeBits fuel r) answered ∧
      (queueLoop sizeBits fuel r).trans.kvs = (if sendSerial then r.trans.kvs.tail else []) ∧
      (queueLoop sizeBits fuel r).calls.count .disconnect = r.calls.count .disconnect := by
  induction fuel generalizing r with
  | zero => exact absurd hfuel (Nat.not_lt_zero _)
  | succ fuel ih =>
    obtain ⟨hqueued, hkvs, hret, hcount⟩ := h.queueLmTrans hall hsize
    rw [LibMonetra.queueLoop, hret, h.mode]
    cases sendSerial with
    | true => exact ⟨by simpa using hqueued, by simpa using hkvs, by simpa using hcount⟩
    | false =>
      by_cases hempty : r.trans.kvs = []
      · rw [hempty, List.tail_nil] at hkvs
        simpa [hempty] using ⟨hqueued, hkvs, hcount⟩
      · have hshort : (LibMonetra.queueLmTrans sizeBits r).1.trans.kvs.length < fuel := by
          rw [hkvs, List.length_tail]
          have hpos := List.length_pos_iff.mpr hempty
          omega
        obtain ⟨hsends, hleft, hcount'⟩ := ih hqueued hshort
        rw [if_pos (by simp [hempty])]
        exact ⟨hsends, by simpa using hleft, hcount'.trans hcount⟩

end Sending

/-- What the callback does with a response. -/
def CliRun.respond (sizeBits : ℕ) (r : CliRun) (p : Ptr) : CliRun :=
  let r := (queueLmTrans sizeBits { r with
    trans := { r.trans with
      outstandingCnt := (r.trans.outstandingCnt + 2 ^ sizeBits - 1) % 2 ^ sizeBits }
    calls := r.calls ++ [.delete p] }).1
  if r.trans.outstandingCnt = 0 then { r with calls := r.calls ++ [.disconnect] } else r

/-- The three events of a connection that does not fail. -/
theorem cliStep_cases {sizeBits : ℕ} {s s' : CliSys} {e : Event} (h : cliStep sizeBits s e = some s') :
    (e = ⟨.connConnected, none⟩ ∧ s.connected = false ∧
      s' = ⟨queueLoop sizeBits (s.run.trans.kvs.length + 1) s.run, true, s.answered⟩) ∨
    (∃ p, e = ⟨.transDone, some p⟩ ∧ p ∈ s.unanswered ∧
      s' = ⟨s.run.respond sizeBits p, s.connected, s.answered ++ [p]⟩) ∨
    (e = ⟨.connDisconnect, none⟩ ∧ .disconnect ∈ s.run.calls ∧
      s' = ⟨{ s.run with calls := s.run.calls ++ [.destroy, .eventDone] }, s.connected, s.answered⟩) := by
  obtain ⟨type, trans⟩ := e
  unfold cliStep at h
  split at h
  · rename_i hmay
    obtain rfl := Option.some.inj h
    cases type <;> cases trans <;> simp_all [CliSys.mayReport, transCallback, CliRun.respond]
  · cases h

/-- What holds between two events: nothing happens before the connection is up, in serial mode one
transaction is outstanding while there is something to send, in parallel mode everything has been sent,
and the connection is given up behind the last response. -/
structure Sent (kvs : List HashDict) (sendSerial : Bool) (s : CliSys) : Prop where
  sending : Sending kvs sendSerial s.run s.answered
  before : s.connected = false → s.run.calls = [] ∧ s.answered = []
  serial : s.connected = true → sendSerial = true → s.run.trans.outstandingCnt ≤ 1 ∧
    (s.run.trans.outstandingCnt = 0 → s.run.trans.kvs = [])
  parallel : s.connected = true → sendSerial = false → s.run.trans.kvs = []
  disconnects : s.run.calls.count .disconnect = if s.answered.length = kvs.length then 1 else 0

section Runs

variable {sizeBits : ℕ} {kvs : List HashDict} {sendSerial : Bool} {s s' : CliSys}

/-- Every response has been handled when nothing is left to send or outstanding. -/
theorem Sent.answered_length (h : Sent kvs sendSerial s) :
    s.answered.length = kvs.length ↔ s.run.trans.kvs = [] ∧ s.unanswered = [] := by
  have hlength := h.sending.length_eq
  have htotal := h.sending.total
  rw [← List.length_eq_zero_iff, ← List.length_eq_zero_iff, CliSys.unanswered]
  omega

/-- The response of a transaction keeps the requests and the responses in step. -/
theorem Sent.respond (h : Sent kvs sendSerial s) {p : Ptr} (hp : p ∈ s.unanswered)
    (hall : ∀ dict ∈ kvs, Prepared dict) (hsize : kvs.length < 2 ^ sizeBits) :
    Sent kvs sendSerial ⟨s.run.respond sizeBits p, s.connected, s.answered ++ [p]⟩ := by
  have hup : s.connected = true := by
    by_contra hdown
    obtain ⟨hcalls, -⟩ := h.before (by simpa using hdown)
    simp [CliSys.unanswered, unansweredOf, hcalls, sentOf] at hp
  have hopen : s.run.calls.count .disconnect = 0 := by
    rw [h.disconnects, if_neg]
    rw [h.answered_length]
    rintro ⟨-, hnone⟩
    rw [hnone] at hp
    cases hp
  have hanswered := (h.sending.answer hp hsize).called (show sentOf [.delete p] = [] from rfl)
  obtain ⟨hqueued, hleft, -, hcount⟩ := hanswered.queueLmTrans hall hsize
  -- how many transactions there are of each kind, before and after
  have hsent := h.sending.length_eq
  have hwaiting := h.sending.total
  have hsent' := hqueued.length_eq
  have hwaiting' := hqueued.total
  have hcnt := h.sending.outstanding
  have hcnt' := hqueued.outstanding
  have hpos := List.length_pos_of_mem hp
  dsimp only at hleft hcount
  rw [hleft, List.length_tail] at hsent'
  rw [List.length_append, List.length_singleton] at hwaiting'
  rw [List.count_append, hopen] at hcount
  rw [CliSys.unanswered] at hpos
  have hserial : sendSerial = true → s.run.trans.outstandingCnt ≤ 1 := fun hmode => (h.serial hup hmode).1
  have hparallel : sendSerial = false → s.run.trans.kvs.length = 0 := fun hmode => by
    rw [h.parallel hup hmode, List.length_nil]
  unfold CliRun.respond
  generalize queueLmTrans sizeBits _ = queued at *
  have hcount : queued.1.calls.count .disconnect = 0 := hcount
  have hlast : queued.1.trans.outstandingCnt = 0 ↔ s.answered.length + 1 = kvs.length := by
    cases sendSerial with
    | true =>
      have hone := hserial rfl
      omega
    | false =>
      have hnone := hparallel rfl
      omega
  have hnone : queued.1.trans.outstandingCnt = 0 → queued.1.trans.kvs = [] := by
    intro hzero
    rw [hleft, ← List.length_eq_zero_iff, List.length_tail]
    have hend := hlast.mp hzero
    omega
  have hmode' : sendSerial = true → queued.1.trans.outstandingCnt ≤ 1 := by
    intro hmode
    have hone := hserial hmode
    omega
  have hall' : sendSerial = false → queued.1.trans.kvs = [] := by
    intro hmode
    rw [hleft, ← List.length_eq_zero_iff, List.length_tail, hparallel hmode]
  dsimp only
  split
  · rename_i hzero
    refine ⟨hqueued.called rfl, fun hdown => by simp [hup] at hdown, fun _ hmode => ⟨hmode' hmode, hnone⟩,
      fun _ => hall', ?_⟩
    simp [hcount, hlast.mp hzero]
  · rename_i hmore
    refine ⟨hqueued, fun hdown => by simp [hup] at hdown, fun _ hmode => ⟨hmode' hmode, hnone⟩,
      fun _ => hall', ?_⟩
    simp [hcount, mt hlast.mpr hmore]

/-- The connection comes up. -/
theorem Sent.connect (h : Sent kvs sendSerial s) (hdown : s.connected = false)
    (hall : ∀ dict ∈ kvs, Prepared dict) (hne : kvs ≠ []) (hsize : kvs.length < 2 ^ sizeBits) :
    Sent kvs sendSerial
      ⟨queueLoop sizeBits (s.run.trans.kvs.length + 1) s.run, true, s.answered⟩ := by
  have hfuel : s.run.trans.kvs.length < s.run.trans.kvs.length + 1 := Nat.lt_succ_self _
  obtain ⟨hqueued, hleft, hcount⟩ := h.sending.queueLoop hall hsize _ hfuel
  obtain ⟨hcalls, hanswered⟩ := h.before hdown
  have hnobody : s.answered.length = 0 := List.length_eq_zero_iff.mpr hanswered
  have hpos := List.length_pos_iff.mpr hne
  have hsent := h.sending.length_eq
  have hsent' := hqueued.length_eq
  have hwaiting := hqueued.total
  have hcnt := hqueued.outstanding
  rw [hcalls] at hsent hcount
  rw [hnobody] at hwaiting
  refine ⟨hqueued, Bool.noConfusion, fun _ hmode => ?_, fun _ hmode => ?_, ?_⟩
  · rw [if_pos hmode] at hleft
    dsimp only
    rw [← List.length_eq_zero_iff]
    rw [hleft, List.length_tail] at hsent' ⊢
    simp only [sentOf, List.filterMap_nil, List.length_nil] at hsent
    omega
  · rw [hleft, if_neg (by simp [hmode])]
  · simp only [hcount, hnobody, if_neg hpos.ne]
    rfl

/-- Every event keeps the requests and the responses in step. -/
theorem Sent.step (h : Sent kvs sendSerial s) (hall : ∀ dict ∈ kvs, Prepared dict) (hne : kvs ≠ [])
    (hsize : kvs.length < 2 ^ sizeBits) {e : Event} (hstep : cliStep sizeBits s e = some s') :
    Sent kvs sendSerial s' := by
  rcases cliStep_cases hstep with ⟨-, hdown, rfl⟩ | ⟨p, -, hp, rfl⟩ | ⟨-, hended, rfl⟩
  · exact h.connect hdown hall hne hsize
  · exact h.respond hp hall hsize
  · refine ⟨h.sending.called rfl, fun hdown => ?_, h.serial, h.parallel, ?_⟩
    · rw [(h.before hdown).1] at hended
      cases hended
    · simp [h.disconnects]

/-- What is in step sends everything once. -/
theorem Sent.sendsOnce (h : Sent kvs sendSerial s) : SendsOnce sizeBits kvs sendSerial s where
  inOrder := h.sending.inOrder
  distinct := h.sending.distinct
  outstanding := h.sending.outstanding
  positive p s' hstep := by
    rcases cliStep_cases hstep with ⟨he, -⟩ | ⟨q, -, hq, -⟩ | ⟨he, -⟩
    · cases he
    · rw [h.sending.outstanding]
      exact List.length_pos_of_mem hq
    · cases he
  serial hmode := by
    cases hup : s.connected with
    | true => exact (h.serial hup hmode).1
    | false =>
      obtain ⟨hcalls, -⟩ := h.before hup
      rw [h.sending.outstanding, hcalls]
      exact Nat.zero_le _
  waits hup hless hnone := by
    have hleft : s.run.trans.kvs = [] := by
      cases hmode : sendSerial with
      | true =>
        refine (h.serial hup hmode).2 ?_
        rw [h.sending.outstanding, List.length_eq_zero_iff]
        exact hnone
      | false => exact h.parallel hup hmode
    exact absurd (h.answered_length.mpr ⟨hleft, hnone⟩) hless.ne
  disconnects := h.disconnects
  hangsUp hended := by
    rw [← h.answered_length]
    by_contra hmore
    have hcount := h.disconnects
    rw [if_neg hmore, List.count_eq_zero] at hcount
    exact hcount hended

end Runs

/-- In every run over a connection that does not fail, `monetra_cli` sends every dictionary once in the
order of the list, counts what is outstanding, keeps to one transaction at a time in serial mode, and
disconnects once, behind the last response. -/
theorem monetraCli_sendsOnce {sizeBits : ℕ} (list : KvsList sizeBits) (sendSerial : Bool) {s : CliSys}
    (h : (monetraCli list sendSerial).Reachable s) : SendsOnce sizeBits list.kvs sendSerial s := by
  have hsent : Sent list.kvs sendSerial s := by
    refine System.Reachable.invariant (monetraCli list sendSerial) ?_ ?_ h
    · rintro s ⟨nextTrans, rfl⟩
      have hpos := List.length_pos_iff.mpr list.nonempty
      exact ⟨⟨rfl, rfl, List.nodup_nil, by simp [sentOf], by simp, rfl, rfl⟩, fun _ => ⟨rfl, rfl⟩,
        Bool.noConfusion, Bool.noConfusion, by simp [hpos.ne]⟩
    · exact fun s e s' _ hs hstep => hs.step list.prepared list.nonempty list.fits hstep
  exact hsent.sendsOnce

/-- Two sales to be sent one after the other. -/
def twoSales : KvsList 64 where
  kvs := [
    (HashDict.create.insert (ascii "action") (some (ascii "sale"))).insert (ascii "identifier")
      (some (ascii "1")),
    (HashDict.create.insert (ascii "action") (some (ascii "sale"))).insert (ascii "identifier")
      (some (ascii "2"))]
  prepared := by
    intro dict hdict
    rcases List.mem_cons.mp hdict with rfl | hdict
    · exact ⟨rfl, rfl, by decide⟩
    · obtain rfl := List.mem_singleton.mp hdict
      exact ⟨rfl, rfl, by decide⟩
  nonempty := by simp
  fits := by simp

/-- The run of `monetra_cli` over both sales. -/
def twoSalesSent : CliSys :=
  ((monetraCli twoSales true).run ⟨⟨⟨twoSales.kvs, true, 0⟩, 7, []⟩, false, []⟩
    [⟨.connConnected, none⟩, ⟨.transDone, some 7⟩, ⟨.transDone, some 8⟩]).get (by decide)

/-- Both sales are sent, and the connection is given up. -/
theorem monetraCli_sendsOnce_twoSales :
    twoSalesSent.run.calls.count .disconnect = 1 ∧ SendsOnce 64 twoSales.kvs true twoSalesSent :=
  ⟨by decide, monetraCli_sendsOnce twoSales true
    (System.reachable_get (monetraCli twoSales true) ⟨7, rfl⟩ _ _)⟩

end LibMonetra
