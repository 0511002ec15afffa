import LibMonetra.State
import LibMonetra.Foundation.Framing

/-!
# Reading responses

The functions of `monetra_parse.c`. A frame is `STX`, a decimal id, `FS`, the data and `ETX`.
`LM_conn_parse_trans_buffer` takes frames off `inbuf` until one of them completes a pending
transaction; frames for other ids are skipped. The loop is bounded by the length of `inbuf`,
of which every turn consumes a frame.
-/

namespace LibMonetra

open Foundation (takeThrough)

variable (lib : Mstdlib)

/-- `LM_conn_parse_error_t`. -/
inductive ParseError
  | success
  | wait
  | error
  deriving DecidableEq, Repr

/-- The scan of `LM_conn_determine_response_type` after the first byte. -/
def determineResponseTypeScan : Bytes → ResponseType
  | [] => .bulk
  | b :: rest =>
    if b = equals then .kv
    else if b = comma then .csv
    else if b = cr ∨ b = lf then .csv
    else if b = dquote ∨ b = 0x5f ∨ b = 0x2d then determineResponseTypeScan rest
    else if isAlnumSp b then determineResponseTypeScan rest
    else .bulk

/-- `LM_conn_determine_response_type`. -/
def connDetermineResponseType (msg : Bytes) : ResponseType :=
  match msg.take 32 with
  | [] => .bulk
  | b :: rest => if b = equals ∨ b = comma then .bulk else determineResponseTypeScan rest

/-- The loop of `M_hash_dict_deserialize_unquote`. The look-ahead past the last byte only ends
the loop, so it is not part of the result. -/
def unquoteLoop (quoteChar : UInt8) : Bytes → Bytes
  | [] => []
  | [b] => [b]
  | b :: next :: rest =>
    if b = quoteChar ∧ next = quoteChar then b :: unquoteLoop quoteChar rest
    else b :: unquoteLoop quoteChar (next :: rest)

/-- `M_hash_dict_deserialize_unquote`, `NULL` for an empty string. -/
def hashDictDeserializeUnquote (str : Bytes) (quoteChar : UInt8) : Option Bytes :=
  if str = [] then none
  else if 2 ≤ str.length ∧ str.head? = some quoteChar ∧ str.getLast? = some quoteChar then
    some (unquoteLoop quoteChar str.tail.dropLast)
  else some (unquoteLoop quoteChar str)

/-- The loop of `LM_hash_dict_deserialize` over the lines. -/
def hashDictDeserializeLoop (trimWhitespace : Bool) (keyDelim quoteChar escapeChar : UInt8) :
    List Bytes → Dict → Option Dict
  | [], dict => some dict
  | line :: lines, dict =>
    let line := cstr line
    if line = [] then hashDictDeserializeLoop trimWhitespace keyDelim quoteChar escapeChar lines dict
    else
      match lib.strExplodeQuoted keyDelim line quoteChar escapeChar 2 with
      | some [key, value] =>
        let key := if trimWhitespace then strTrim key else key
        let value := if trimWhitespace then strTrim value else value
        hashDictDeserializeLoop trimWhitespace keyDelim quoteChar escapeChar lines
          (dict.insert key (hashDictDeserializeUnquote value quoteChar))
      | _ => none

/-- `LM_hash_dict_deserialize`. -/
def hashDictDeserialize (str : Bytes) (trimWhitespace : Bool)
    (keyDelim valDelim quoteChar escapeChar : UInt8) : Option Dict :=
  if str = [] then none
  else
    match lib.strExplodeQuoted valDelim str quoteChar escapeChar 0 with
    | none => none
    | some kvs =>
      hashDictDeserializeLoop lib trimWhitespace keyDelim quoteChar escapeChar kvs .create

/-- The response fields that `LM_conn_parse_msg` stores for a message's data. -/
def storeResponse (t : Trans) (data : Bytes) : Trans :=
  let responseType := connDetermineResponseType data
  if responseType = .kv then
    { t with
      status := .done
      responseType := responseType
      responseParams := hashDictDeserialize lib data true equals lf dquote dquote }
  else { t with status := .done, responseType := responseType, responseRaw := some data }

section StoreResponse

variable (t : Trans) (data : Bytes)

@[simp] theorem storeResponse_transId : (storeResponse lib t data).transId = t.transId := by
  unfold storeResponse
  dsimp only
  split <;> rfl

@[simp] theorem storeResponse_status : (storeResponse lib t data).status = .done := by
  unfold storeResponse
  dsimp only
  split <;> rfl

@[simp] theorem storeResponse_requestParams :
    (storeResponse lib t data).requestParams = t.requestParams := by
  unfold storeResponse
  dsimp only
  split <;> rfl

@[simp] theorem storeResponse_timeoutTimer :
    (storeResponse lib t data).timeoutTimer = t.timeoutTimer := by
  unfold storeResponse
  dsimp only
  split <;> rfl

@[simp] theorem storeResponse_owner : (storeResponse lib t data).owner = t.owner := by
  unfold storeResponse
  dsimp only
  split <;> rfl

@[simp] theorem storeResponse_timeoutS : (storeResponse lib t data).timeoutS = t.timeoutS := by
  unfold storeResponse
  dsimp only
  split <;> rfl

end StoreResponse

/-- The id and the data of a message, when it has the form of a response. -/
def readMsg (msg : Bytes) : Option (ℕ × Bytes) :=
  match lib.parserReadUint msg with
  | some (tranId, b :: data) => if b = fs then some (tranId, data) else none
  | _ => none

/-- `M_parser_read_uint` reads back what `M_buf_add_uint` has printed, up to the next byte that is
no digit. -/
def ReadsDecimals : Prop :=
  ∀ n rest, n < 2 ^ 64 → (∀ b, rest.head? = some b → isDigit b = false) →
    lib.parserReadUint (decimal n ++ rest) = some (n, rest)

/-- A message in the form of a response is read as such. -/
theorem readMsg_decimal {lib : Mstdlib} (hlib : ReadsDecimals lib) {n : ℕ} (hn : n < 2 ^ 64)
    (payload : Bytes) : readMsg lib (decimal n ++ fs :: payload) = some (n, payload) := by
  have hread := hlib n (fs :: payload) hn (by simp; decide)
  simp [readMsg, hread]

/-- `LM_conn_parse_msg`, on a message without its delimiters. -/
def connParseMsg (c : Conn) (msg : Bytes) : Conn × ParseError × Option Ptr :=
  match readMsg lib msg with
  | none => (c, .error, none)
  | some (tranId, data) =>
    match c.transIdMap tranId with
    | none => (c, .wait, none)
    | some p =>
      match c.heap p with
      | none => (c, .wait, none)
      | some t =>
        -- an orphan, or a second answer to the same request
        if t.status ≠ .pending then (c, .wait, some p)
        else
          ({ c with
            heap := Function.update c.heap p (some (storeResponse lib t data))
            transPending := c.transPending.erase p
            transDone := c.transDone ++ [p]
            trace := c.trace ++ [.answered p t.status msg] }, .success, some p)

/-- `LM_conn_parse_trans_buffer`, with a bound on the number of frames it may look at. -/
def connParseTransBufferLoop : ℕ → Conn → Conn × ParseError × Option Ptr
  | 0, c => (c, .wait, none)
  | fuel + 1, c =>
    if c.inbuf.length < 5 then (c, .wait, none)
    else if c.inbuf.head? ≠ some stx then (c, .error, none)
    else
      match takeThrough etx c.inbuf with
      | none => (c, .wait, none)
      | some (frame, rest) =>
        if frame.length < 5 then ({ c with inbuf := rest }, .error, none)
        else
          let msg := frame.tail.dropLast
          let parsed := connParseMsg lib
            { c with inbuf := rest, trace := c.trace ++ [.consumed msg] } msg
          if parsed.2.1 = .wait then connParseTransBufferLoop fuel parsed.1 else parsed

/-- `LM_conn_parse_trans_buffer`. -/
def connParseTransBuffer (c : Conn) : Conn × ParseError × Option Ptr :=
  connParseTransBufferLoop lib (c.inbuf.length + 1) c

end LibMonetra
