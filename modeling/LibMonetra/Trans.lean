import LibMonetra.TransStructure

/-!
# Transactions

The functions of `monetra_trans.c` that change a connection. The random generator is a list of
draws from the range `LM_trans_new_internal` asks for; the loop that looks for an unused id takes
the first draw that is not in the id map.
-/

namespace LibMonetra

variable (lib : Mstdlib)

/-- A value of `M_rand_range(rnd, 1, M_UINT32_MAX)`, whose upper end is exclusive. -/
def RandDraw : Type := { n : ℕ // 1 ≤ n ∧ n < 2 ^ 32 - 1 }

/-- The first draw that names no live transaction. -/
def unusedDraw (c : Conn) (draws : List RandDraw) : Option RandDraw :=
  draws.find? fun draw => (c.transIdMap draw.val).isNone

/-- The draw found names no live transaction. -/
theorem unusedDraw_free {c : Conn} {draws : List RandDraw} {draw : RandDraw}
    (h : unusedDraw c draws = some draw) : c.transIdMap draw.val = none := by
  simpa using List.find?_some h

/-- `LM_trans_new_internal`: none while every draw so far names a live transaction. -/
def transNewInternal (c : Conn) (draws : List RandDraw) (owner : Owner) : Option (Conn × Ptr × ℕ) :=
  (unusedDraw c draws).map fun draw =>
    ({ c with
        heap := Function.update c.heap c.nextPtr (some (Trans.fresh draw.val owner))
        nextPtr := c.nextPtr + 1
        trace := c.trace ++ [.created c.nextPtr owner] }, c.nextPtr, draw.val)

/-- `LM_trans_new`. -/
def transNew (c : Conn) (draws : List RandDraw) : Option (Conn × Ptr) :=
  (transNewInternal c draws .user).map fun (c, p, id) =>
    ({ c with
        transNew := c.transNew ++ [p]
        transIdMap := Function.update c.transIdMap id (some p) }, p)

/-- `LM_trans_delete_unlocked`: detach the transaction from its connection and free it. -/
def transDeleteUnlocked (c : Conn) (p : Ptr) : Conn :=
  match c.heap p with
  | none => c
  | some t =>
    let c := { c with toTransStore := c.toTransStore.queueTake t.status p }
    let c := { c with transIdMap := Function.update c.transIdMap t.transId none }
    let c := timerReset lib c (c.status = .connected ∧ c.transPending = [])
    { c with heap := Function.update c.heap p none, trace := c.trace ++ [.freed p] }

/-- `LM_trans_delete`: while a handler runs, the clean-up is put off to its end. -/
def transDelete (c : Conn) (p : Ptr) : Conn :=
  match c.heap p with
  | none => c
  | some t =>
    let c := { c with toTransStore := (c.toTransStore.killTimeoutTimer p t).log (.deleted p) }
    if c.inUse then { c with transDelayRm := c.transDelayRm ++ [p] }
    else transDeleteUnlocked lib c p

/-- `LM_trans_set_param`. -/
def transSetParam (c : Conn) (p : Ptr) (key : Bytes) (value : Option Bytes) : Conn × Bool :=
  match c.heap p with
  | none => (c, false)
  | some t =>
    if key ≠ [] ∧ t.status = .new then
      let params := (t.requestParams.getD .create).insert key value
      ({ c with heap := Function.update c.heap p (some { t with requestParams := some params }) }, true)
    else (c, false)

/-- `LM_trans_set_timeout`. -/
def transSetTimeout (c : Conn) (p : Ptr) (timeoutS : ℕ) : Conn × Bool :=
  match c.heap p with
  | none => (c, false)
  | some t =>
    if t.status = .new then
      ({ c with heap := Function.update c.heap p (some { t with timeoutS := timeoutS }) }, true)
    else (c, false)

/-- What `LM_trans_send` leaves: the connection, its result, and whether the call goes on into
`LM_conn_connect` with the lock released. -/
structure SendResult where
  conn : Conn
  ok : Bool
  connect : Bool

/-- `LM_trans_send`, up to the point where an implicit connection would start. -/
def transSend (c : Conn) (p : Ptr) : SendResult :=
  match c.heap p with
  | none => ⟨c, false, false⟩
  | some t =>
    if t.status ≠ .new ∨ t.numParams = 0 then ⟨c, false, false⟩
    else
      let c :=
        { c with
          heap := Function.update c.heap p (some { t with status := .ready })
          transNew := c.transNew.erase p
          transReady := c.transReady ++ [p]
          trace := c.trace ++ [.accepted p] }
      let sent := transSendMessages lib c
      ⟨sent.1, true, sent.2⟩

/-- The first half of `LM_trans_run`: a new transaction that carries a copy of the dictionary.
The second half is `LM_trans_send`, which accepts it because the dictionary is not empty. -/
def transRunNew (c : Conn) (draws : List RandDraw) (params : HashDict) : Option (Conn × Ptr) :=
  if params.numKeys = 0 then none
  else (transNew c draws).map fun (c, p) =>
    match c.heap p with
    | none => (c, p)
    | some t =>
      ({ c with heap := Function.update c.heap p (some { t with requestParams := some params }) }, p)

/-- `LM_trans_ping_request`; `written` bytes of `outbuf` go to the I/O object at once. -/
def transPingRequest (c : Conn) (draws : List RandDraw) (written : ℕ) : Option (Conn × Ptr) :=
  (transNewInternal c draws .ping).map fun (c, p, id) =>
    let c := (transSetParam c p (ascii "action")
      (some (ascii "ping"))).1
    let c := markPending c p
    let c := { c with
      transPending := c.transPending ++ [p]
      transIdMap := Function.update c.transIdMap id (some p) }
    let c := transStructure lib c p
    ({ c with outbuf := c.outbuf.drop written }, p)

end LibMonetra
