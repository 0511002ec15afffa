import LibMonetra.Foundation.Quoting
import LibMonetra.Reference

/-!
# What a completed transaction carries

A response payload is key/value data, which `LM_hash_dict_deserialize` turns into a dictionary, or it
is kept as it is. The dictionary is read line by line, and one line that is neither empty nor a key and
a value makes the library give up all of it, although the transaction is then `DONE`.
-/

namespace LibMonetra

open Foundation

/-- `LM_trans_response_dict`. -/
def transResponseDict (t : Trans) : Option Dict :=
  if t.status = .done ∧ t.responseType = .kv then t.responseParams else none

variable (lib : Mstdlib)

/-- The lines of a payload: its sections between line feeds that are not quoted. -/
def payloadLines (data : Bytes) : Option (List Bytes) := lib.strExplodeQuoted lf data dquote dquote 0

/-- The key and the value of a line: its sections around the first equals sign that is not quoted. -/
def lineSections (line : Bytes) : Option (Bytes × Bytes) :=
  match lib.strExplodeQuoted equals line dquote dquote 2 with
  | some [key, value] => some (key, value)
  | _ => none

/-- Whether a line is empty or has a key and a value. -/
def lineReads (line : Bytes) : Bool := (cstr line).isEmpty || (lineSections lib (cstr line)).isSome

/-- What the text of a value stands for: none when it is empty; otherwise what is between its quotes, or all of
it when it does not stand between quotes, with every doubled quote read as one. -/
def readValue : Bytes → Option Bytes
  | [] => none
  | first :: rest =>
    if first = dquote ∧ rest.getLast? = some dquote then some (undoubled dquote false rest.dropLast)
    else some (undoubled dquote false (first :: rest))

/-- A line adds its key and its value to a dictionary. -/
def addLine (dict : Dict) (line : Bytes) : Dict :=
  match lineSections lib (cstr line) with
  | some (key, value) =>
    if cstr line = [] then dict
    else dict.insert (strTrim key) (readValue (strTrim value))
  | none => dict

/-- What a payload says: the dictionary of all its lines that have a key and a value. -/
def payloadDict (data : Bytes) : Dict := ((payloadLines lib data).getD []).foldl (addLine lib) .create

/-- Whether every line of a payload is empty or has a key and a value. -/
def payloadReads (data : Bytes) : Bool := (payloadLines lib data).any fun lines => lines.all (lineReads lib)

/-- The loop that looks one byte ahead reads doubled quotes as one. -/
theorem unquoteLoop_eq (quote : UInt8) (text : Bytes) :
    unquoteLoop quote text = undoubled quote false text := by
  induction text using unquoteLoop.induct quote with
  | case1 => rfl
  | case2 b => by_cases hb : b = quote <;> simp [unquoteLoop, undoubled, hb]
  | case3 b next rest hquotes ih =>
    obtain ⟨rfl, rfl⟩ := hquotes
    simp [unquoteLoop, undoubled, ih]
  | case4 b next rest hquotes ih =>
    rw [unquoteLoop, if_neg hquotes, ih]
    by_cases hb : b = quote
    · -- the next byte is no quote, so it makes no difference that one stands before it
      have hnext : next ≠ quote := fun h => hquotes ⟨hb, h⟩
      simp [undoubled, hb, hnext]
    · simp [undoubled, hb]

/-- `M_hash_dict_deserialize_unquote` reads a value for what it stands for. -/
theorem hashDictDeserializeUnquote_eq (text : Bytes) :
    hashDictDeserializeUnquote text dquote = readValue text := by
  cases text with
  | nil => rfl
  | cons first rest =>
    have hquoted : (2 ≤ (first :: rest).length ∧ (first :: rest).head? = some dquote ∧
        (first :: rest).getLast? = some dquote) ↔ first = dquote ∧ rest.getLast? = some dquote := by
      cases rest with
      | nil => simp
      | cons next rest => simp
    rw [hashDictDeserializeUnquote, if_neg (by simp), readValue]
    simp only [hquoted, unquoteLoop_eq, List.tail_cons]

/-- The loop over the lines reads all of them or none. -/
theorem hashDictDeserializeLoop_eq (lines : List Bytes) (dict : Dict) :
    hashDictDeserializeLoop lib true equals dquote dquote lines dict =
      if lines.all (lineReads lib) then some (lines.foldl (addLine lib) dict) else none := by
  induction lines generalizing dict with
  | nil => rfl
  | cons line lines ih =>
    rw [hashDictDeserializeLoop, List.all_cons, List.foldl_cons]
    by_cases hempty : cstr line = []
    · have hadd : addLine lib dict line = dict := by
        unfold addLine
        split <;> simp [hempty]
      simp [hempty, lineReads, hadd, ih]
    · rw [if_neg hempty]
      split
      · rename_i key value hsections
        have hline : lineSections lib (cstr line) = some (key, value) := by simp [lineSections, hsections]
        simp [ih, lineReads, addLine, hline, hempty, hashDictDeserializeUnquote_eq]
      · rename_i hother
        have hline : lineSections lib (cstr line) = none := by
          unfold lineSections
          split
          · rename_i key value hsections
            exact absurd hsections (hother key value)
          · rfl
        simp [lineReads, hline, hempty]

/-- `LM_hash_dict_deserialize`, as `LM_conn_parse_msg` calls it. -/
theorem hashDictDeserialize_eq {data : Bytes} (hdata : data ≠ []) :
    hashDictDeserialize lib data true equals lf dquote dquote =
      if payloadReads lib data then some (payloadDict lib data) else none := by
  unfold hashDictDeserialize payloadReads payloadDict payloadLines
  rw [if_neg hdata]
  cases lib.strExplodeQuoted lf data dquote dquote 0 with
  | none => rfl
  | some lines => exact hashDictDeserializeLoop_eq lib lines .create

/-- An empty payload is not key/value data. -/
theorem ne_nil_of_kv {data : Bytes} (h : connDetermineResponseType data = .kv) : data ≠ [] := by
  rintro rfl
  cases h

/-- The storage that the response type of a transaction promises is there: the dictionary of a
key/value response, which is then what `LM_trans_response_dict` returns, or the payload itself. -/
structure CarriesResponse (t : Trans) (data : Bytes) : Prop where
  params : t.responseType = .kv → t.responseParams = some (payloadDict lib data)
  raw : t.responseType ≠ .kv → t.responseRaw = some data
  dict : transResponseDict t = none → t.status ≠ .done ∨ t.responseType ≠ .kv

/-- What is stored is complete, except for key/value data with a line that does not read. -/
theorem storeResponse_carriesResponse_iff (t : Trans) (data : Bytes) :
    CarriesResponse lib (storeResponse lib t data) data ↔
      (connDetermineResponseType data = .kv → payloadReads lib data = true) := by
  by_cases hkv : connDetermineResponseType data = .kv
  · have hstore : storeResponse lib t data = { t with
        status := .done
        responseType := .kv
        responseParams := if payloadReads lib data then some (payloadDict lib data) else none } := by
      rw [← hashDictDeserialize_eq lib (ne_nil_of_kv hkv)]
      simp [storeResponse, hkv]
    rw [hstore]
    constructor
    · intro h _
      by_contra hreads
      simpa [hreads] using h.params rfl
    · intro h
      have hreads := h hkv
      exact ⟨fun _ => by simp [hreads], fun hne => absurd rfl hne,
        fun hnone => by simp [transResponseDict, hreads] at hnone⟩
  · have hstore : storeResponse lib t data = { t with
        status := .done
        responseType := connDetermineResponseType data
        responseRaw := some data } := by
      simp [storeResponse, hkv]
    rw [hstore]
    exact ⟨fun _ h => absurd h hkv, fun _ => ⟨fun h => absurd h hkv, fun _ => rfl, fun _ => Or.inr hkv⟩⟩

/-- Every response to a pending transaction completes it; the transaction then carries the response
exactly when the payload is no key/value data or all its lines are empty or have a key and a value. -/
theorem connParseMsg_carriesResponse_iff (c : Conn) {p : Ptr} {t : Trans} {tranId : ℕ}
    {msg data : Bytes} (hmsg : readMsg lib msg = some (tranId, data))
    (hid : c.transIdMap tranId = some p) (ht : c.heap p = some t) (hst : t.status = .pending) :
    ∃ t', (connParseMsg lib c msg).1.heap p = some t' ∧ t'.status = .done ∧
      t'.responseType = connDetermineResponseType data ∧
      (CarriesResponse lib t' data ↔
        (connDetermineResponseType data = .kv → payloadReads lib data = true)) := by
  refine ⟨storeResponse lib t data, ?_, storeResponse_status lib t data, ?_,
    storeResponse_carriesResponse_iff lib t data⟩
  · simp [connParseMsg, hmsg, hid, ht, hst]
  · unfold storeResponse
    dsimp only
    split <;> rfl

/-- An approval with CRLF line ends and a blank line. -/
def blankLinePayload : Bytes := ascii "code=AUTH\r\n\r\nverbiage=APPROVED\r\n"

/-- An approval with CRLF line ends. -/
def approvalPayload : Bytes := ascii "code=AUTH\r\nverbiage=APPROVED\r\n"

/-- The approval of the pending sale is stored in full. -/
theorem connParseMsg_carriesResponse_iff_sale :
    ∃ t', (connParseMsg reference saleSent.conn (decimal 7 ++ fs :: approvalPayload)).1.heap 0 =
        some t' ∧ t'.status = .done ∧ t'.responseType = connDetermineResponseType approvalPayload ∧
      (CarriesResponse reference t' approvalPayload ↔
        (connDetermineResponseType approvalPayload = .kv →
          payloadReads reference approvalPayload = true)) :=
  connParseMsg_carriesResponse_iff reference saleSent.conn (p := 0)
    (t := ⟨7, .pending, none, .unknown, none, none, 0, false, .user⟩)
    (readMsg_decimal reference_readsDecimals (by decide) approvalPayload) (by decide) (by decide) rfl

/-- The blank line leaves the sale `DONE` without any of its response. -/
theorem connParseMsg_not_carriesResponse :
    ¬∀ (c : Conn) (p : Ptr) (t t' : Trans) (tranId : ℕ) (msg data : Bytes), etx ∉ msg →
      readMsg reference msg = some (tranId, data) → c.transIdMap tranId = some p →
      c.heap p = some t → t.status = .pending →
      (connParseMsg reference c msg).1.heap p = some t' → CarriesResponse reference t' data := by
  intro h
  have hparams := (h saleSent.conn 0 ⟨7, .pending, none, .unknown, none, none, 0, false, .user⟩
    ⟨7, .done, none, .kv, none, none, 0, false, .user⟩ 7 (decimal 7 ++ fs :: blankLinePayload)
    blankLinePayload (by decide)
    (readMsg_decimal reference_readsDecimals (by decide) blankLinePayload) (by decide) (by decide) rfl
    (by decide)).params rfl
  cases hparams

end LibMonetra
