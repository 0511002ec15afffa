import LibMonetra.Link
import LibMonetra.Reference
import LibMonetra.Wire

/-!
# Decoding a response

What the parser makes of a response frame for a transaction that waits. The framing asks for a frame
of at least five bytes: a start, one byte of id, `FS`, one byte of message and an end. An id of two
digits makes up for a message that is empty, an id of one digit does not.
-/

namespace LibMonetra

open Foundation

variable {lib : Mstdlib}

/-- What `STX` and `ETX` enclose in the response to a transaction. -/
def responseMsg (tranId : ℕ) (payload : Bytes) : Bytes := decimal tranId ++ fs :: payload

/-- The response to a transaction, taken off `inbuf` and stored: the transaction is done and has what
the server sent, and no other transaction and nothing else of the connection has changed. -/
structure Decoded (c c' : Conn) (p : Ptr) (t : Trans) (payload rest : Bytes) : Prop where
  conn : ∃ heap trace, c' = { c with
    inbuf := rest
    heap := heap
    transPending := c.transPending.erase p
    transDone := c.transDone ++ [p]
    trace := trace }
  moved : p ∉ c'.transPending ∧ p ∈ c'.transDone
  trans : ∃ t', c'.heap p = some t' ∧ t'.status = .done ∧ t'.transId = t.transId ∧
    t'.responseType = connDetermineResponseType payload ∧
    (t'.responseType ≠ .kv → t'.responseRaw = some payload)
  others : ∀ q, q ≠ p → c'.heap q = c.heap q ∧
    ∀ status, q ∈ c'.connQueue status ↔ q ∈ c.connQueue status

/-- The parser returns a transaction with its response and leaves what follows the frame. -/
def Decodes (lib : Mstdlib) (c : Conn) (p : Ptr) (t : Trans) (payload rest : Bytes) : Prop :=
  ∃ c', connParseTransBuffer lib c = (c', .success, some p) ∧ Decoded c c' p t payload rest

/-- A message with no end of frame in its payload has none at all. -/
theorem not_mem_responseMsg (tranId : ℕ) {payload : Bytes} (h : etx ∉ payload) :
    etx ∉ responseMsg tranId payload := by
  have hdecimal : etx ∉ decimal tranId := not_mem_decimal (by decide)
  simp only [responseMsg, List.mem_append, List.mem_cons, not_or]
  exact ⟨hdecimal, by decide, h⟩

/-- The frame of a response has five bytes exactly when its id has two digits or its payload is not
empty. -/
theorem three_le_length_responseMsg (tranId : ℕ) (payload : Bytes) :
    3 ≤ (responseMsg tranId payload).length ↔ 10 ≤ tranId ∨ payload ≠ [] := by
  have hpos : 0 < (decimal tranId).length := List.length_pos_of_ne_nil (decimal_ne_nil tranId)
  have hone := decimal_length_le_one_iff tranId
  rw [← List.length_pos_iff]
  simp only [responseMsg, List.length_append, List.length_cons]
  omega

/-- What is stored for a response. -/
theorem storeResponse_response (lib : Mstdlib) (t : Trans) (data : Bytes) :
    (storeResponse lib t data).responseType = connDetermineResponseType data ∧
      ((storeResponse lib t data).responseType ≠ .kv →
        (storeResponse lib t data).responseRaw = some data) := by
  unfold storeResponse
  dsimp only
  split
  · rename_i hkv
    exact ⟨rfl, fun h => absurd hkv h⟩
  · exact ⟨rfl, fun _ => rfl⟩

/-- The answer to a transaction that waits. -/
theorem connParseMsg_pending {c : Conn} {p : Ptr} {t : Trans} {msg data : Bytes} {tranId : ℕ}
    (hmsg : readMsg lib msg = some (tranId, data)) (hmap : c.transIdMap tranId = some p)
    (ht : c.heap p = some t) (hst : t.status = .pending) :
    connParseMsg lib c msg = ({ c with
      heap := Function.update c.heap p (some (storeResponse lib t data))
      transPending := c.transPending.erase p
      transDone := c.transDone ++ [p]
      trace := c.trace ++ [.answered p .pending msg] }, .success, some p) := by
  simp [connParseMsg, hmsg, hmap, ht, hst]

/-- A frame that the framing takes is decoded. -/
theorem connParseTransBuffer_decodes (hlib : ReadsDecimals lib) {c : Conn} (hrep : Rep c.toTransStore)
    {p : Ptr} {t : Trans} (ht : c.heap p = some t) (hst : t.status = .pending)
    {payload rest : Bytes} (hetx : etx ∉ payload)
    (hinbuf : c.inbuf = frameOf (responseMsg t.transId payload) ++ rest)
    (hlong : 3 ≤ (responseMsg t.transId payload).length) : Decodes lib c p t payload rest := by
  have hscan : frameScan c.inbuf = .frame (responseMsg t.transId payload) rest :=
    (frameScan_eq_frame_iff ..).mpr ⟨not_mem_responseMsg t.transId hetx, hlong, hinbuf⟩
  have hid : t.transId < 2 ^ 64 := by
    have hrange := (hrep.idRange p t ht).2
    omega
  have hmsg : readMsg lib (responseMsg t.transId payload) = some (t.transId, payload) :=
    readMsg_decimal hlib hid payload
  have hparse := connParseMsg_pending (c := { c with
    inbuf := rest
    trace := c.trace ++ [.consumed (responseMsg t.transId payload)] }) hmsg (hrep.mapped p t ht) ht hst
  have hres := connParseTransBufferLoop_frame lib c.inbuf.length hscan
  rw [hparse] at hres
  simp only [reduceCtorEq, if_false] at hres
  obtain ⟨htype, hraw⟩ := storeResponse_response lib t payload
  refine ⟨_, hres, ⟨_, _, rfl⟩, ⟨?_, by simp⟩, ?_, fun q hq => ⟨?_, fun status => ?_⟩⟩
  · exact (hrep.nodup .pending).not_mem_erase
  · exact ⟨_, Function.update_self .., storeResponse_status lib t payload,
      storeResponse_transId lib t payload, htype, hraw⟩
  · exact Function.update_of_ne hq ..
  · cases status with
    | new => exact Iff.rfl
    | ready => exact Iff.rfl
    | pending => exact List.mem_erase_of_ne hq
    | done => simp [TransStore.connQueue, hq]

/-- A frame that is too short is not decoded, whatever follows it. -/
theorem connParseTransBuffer_short {c : Conn} {p : Ptr} {t : Trans} {payload rest : Bytes}
    {msg : Bytes} (hetx : etx ∉ msg) (hinbuf : c.inbuf = frameOf msg ++ rest)
    (hshort : msg.length < 3) : ¬Decodes lib c p t payload rest := by
  rintro ⟨c', hres, -⟩
  unfold connParseTransBuffer at hres
  cases hscan : frameScan c.inbuf with
  | wait =>
    rw [connParseTransBufferLoop_wait lib _ hscan] at hres
    cases hres
  | bad =>
    obtain ⟨inbuf, hbad⟩ := connParseTransBufferLoop_bad lib c.inbuf.length hscan
    rw [hbad] at hres
    cases hres
  | frame taken back =>
    obtain ⟨htaken, hlong, heq⟩ := (frameScan_eq_frame_iff ..).mp hscan
    obtain ⟨rfl, -⟩ := frameOf_append_inj hetx htaken (hinbuf.symm.trans heq)
    omega

/-- A response frame for a transaction that waits is decoded exactly when it has the five bytes that
the framing asks for: when its id has two digits or its payload is not empty. -/
theorem connParseTransBuffer_decodes_iff (hlib : ReadsDecimals lib) (c : Conn)
    (hrep : Rep c.toTransStore) (p : Ptr) (t : Trans) (ht : c.heap p = some t)
    (hst : t.status = .pending) (payload rest : Bytes) (hetx : etx ∉ payload)
    (hinbuf : c.inbuf = stx :: decimal t.transId ++ fs :: payload ++ etx :: rest) :
    Decodes lib c p t payload rest ↔ 10 ≤ t.transId ∨ payload ≠ [] := by
  have hframe : c.inbuf = frameOf (responseMsg t.transId payload) ++ rest := by
    simp [hinbuf, frameOf, responseMsg]
  rw [← three_le_length_responseMsg]
  constructor
  · intro hdecodes
    by_contra hshort
    exact connParseTransBuffer_short (not_mem_responseMsg t.transId hetx) hframe
      (Nat.lt_of_not_le hshort) hdecodes
  · exact connParseTransBuffer_decodes hlib hrep ht hst hetx hframe

/-- The connection with the sale on the wire and the approval in `inbuf`. -/
def saleAnswering (payload rest : Bytes) : Conn :=
  { saleSent.conn with inbuf := stx :: decimal 7 ++ fs :: payload ++ etx :: rest }

/-- The sale that waits. -/
def pendingSale : Trans := ⟨7, .pending, none, .unknown, none, none, 0, false, .user⟩

/-- The approval of the sale is decoded, and the start of the next frame is left. -/
theorem connParseTransBuffer_decodes_iff_sale :
    Decodes reference (saleAnswering (ascii "APPROVED") [stx]) 0 pendingSale (ascii "APPROVED") [stx] ↔
      10 ≤ 7 ∨ ascii "APPROVED" ≠ [] :=
  connParseTransBuffer_decodes_iff reference_readsDecimals (saleAnswering (ascii "APPROVED") [stx])
    (running_of_reachable saleSent_reachable).rep 0 pendingSale (by decide) rfl
    (ascii "APPROVED") [stx] (by decide) rfl

/-- An empty response to the sale, whose id has one digit, is not decoded. -/
theorem connParseTransBuffer_not_decodes :
    ¬∀ (c : Conn) (p : Ptr) (t : Trans) (payload rest : Bytes), Rep c.toTransStore →
      c.heap p = some t → t.status = .pending → etx ∉ payload →
      c.inbuf = stx :: decimal t.transId ++ fs :: payload ++ etx :: rest →
      Decodes reference c p t payload rest := by
  intro h
  obtain ⟨c', hres, -⟩ := h (saleAnswering [] [stx]) 0 pendingSale [] [stx]
    (running_of_reachable saleSent_reachable).rep (by decide) rfl (by decide) rfl
  have herror : (connParseTransBuffer reference (saleAnswering [] [stx])).2.1 = .error := by decide
  rw [hres] at herror
  cases herror

end LibMonetra
