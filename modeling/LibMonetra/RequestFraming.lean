import LibMonetra.Foundation.Quoting
import LibMonetra.RunByParts
import LibMonetra.Wire

/-!
# The frames of the requests

What a peer that follows the framing of the protocol makes of the requests in `outbuf`. A parameter is
quoted and its quotes are escaped, which keeps it apart from the other parameters, but the framing
knows nothing of quotes: the byte that ends a frame ends it wherever it stands.
-/

namespace LibMonetra

open Foundation

/-- One line of a serialised dictionary. -/
def WritesEntry (entry : Bytes × Option Bytes) (line : Bytes) : Prop :=
  ∃ key value, Written dquote entry.1 key ∧ Written dquote (entry.2.getD []) value ∧
    line = key ++ equals :: value

/-- `M_hash_dict_serialize_buf` writes one line for each entry, in some order. It may quote a text, and
then escapes the quotes in it; every other byte is copied. -/
def SerializesPairs (lib : Mstdlib) : Prop :=
  ∀ dict : HashDict, ∃ entries lines, entries.Perm dict.entries ∧ List.Forall₂ WritesEntry entries lines ∧
    lib.hashDictSerialize dict = List.intercalate [lf] lines

/-- The messages into which the framing cuts a stream, and how it ends. -/
def framesOf (bytes : Bytes) : Drive (List Bytes) UInt8 :=
  drive frameScanner (fun msgs msg => (msgs ++ [msg], true)) [] bytes

/-- The end of a frame occurs in no key and no value. A dictionary that asks for a ping is not sent. -/
def HashDict.Unbroken (dict : HashDict) : Prop :=
  dict.asksPing ∨ ∀ entry ∈ dict.entries, etx ∉ entry.1 ∧ etx ∉ entry.2.getD []

variable (lib : Mstdlib)

/-- `LM_trans_structure` for one transaction after the other. -/
def structureAll (c : Conn) (ps : List Ptr) : Conn := ps.foldl (transStructure lib) c

/-- What `STX` and `ETX` are to enclose in the request of a transaction: its id, `FS` and the whole of
its data. -/
def Trans.body (t : Trans) : Bytes := requestBody lib t.transId (t.requestParams.getD .create)

/-- The requests that are appended to `outbuf` come apart into one frame for each transaction, in the
order of the transactions, and nothing is left over. -/
def FramedApart (c : Conn) (reqs : List (Ptr × Trans)) : Prop :=
  ∃ appended, (structureAll lib c (reqs.map Prod.fst)).outbuf = c.outbuf ++ appended ∧
    framesOf appended = ⟨reqs.map fun req => req.2.body lib, [], false⟩

section Frames

/-- A stream of frames is cut into the messages that were framed. -/
theorem framesOf_flatMap {msgs : List Bytes} (h : ∀ msg ∈ msgs, etx ∉ msg ∧ 3 ≤ msg.length) :
    framesOf (msgs.flatMap frameOf) = ⟨msgs, [], false⟩ := by
  have hdrive : ∀ taken, drive frameScanner (fun msgs msg => (msgs ++ [msg], true)) taken
      (msgs.flatMap frameOf) = ⟨taken ++ msgs, [], false⟩ := by
    induction msgs with
    | nil =>
      intro taken
      rw [List.append_nil]
      exact drive_wait frameScanner _ rfl
    | cons msg msgs ih =>
      intro taken
      obtain ⟨hmsg, hlong⟩ := h msg List.mem_cons_self
      have hscan : frameScanner.scan ((msg :: msgs).flatMap frameOf) = .frame msg (msgs.flatMap frameOf) :=
        (frameScan_eq_frame_iff ..).mpr ⟨hmsg, hlong, List.flatMap_cons⟩
      rw [drive_frame frameScanner _ hscan, if_pos rfl,
        ih (fun m hm => h m (List.mem_cons_of_mem msg hm)) (taken ++ [msg]), List.append_assoc]
      rfl
  exact hdrive []

/-- No message that was cut out of a stream has an end of frame in it. -/
theorem not_mem_of_framesOf {bytes msg : Bytes} (h : msg ∈ (framesOf bytes).state) : etx ∉ msg := by
  refine drive_invariant frameScanner _ (fun msgs => ∀ m ∈ msgs, etx ∉ m) ?_ [] bytes (by simp) msg h
  intro msgs values taken rest hmsgs hscan m hm
  rcases List.mem_append.mp hm with hold | hnew
  · exact hmsgs m hold
  · obtain rfl := List.mem_singleton.mp hnew
    exact ((frameScan_eq_frame_iff ..).mp hscan).1

end Frames

section Serialize

variable {lib} {entries : List (Bytes × Option Bytes)} {lines : List Bytes}

/-- A line has the end of a frame in it when its key or its value has. -/
theorem etx_mem_line {entry : Bytes × Option Bytes} {line : Bytes} (h : WritesEntry entry line) :
    etx ∈ line ↔ etx ∈ entry.1 ∨ etx ∈ entry.2.getD [] := by
  obtain ⟨key, value, hkey, hvalue, rfl⟩ := h
  have hquote : etx ≠ dquote := by decide
  have hequals : etx ≠ equals := by decide
  rw [List.mem_append, List.mem_cons, hkey.mem_iff hquote, hvalue.mem_iff hquote]
  simp [hequals]

/-- The same for all the lines. -/
theorem etx_mem_lines (h : List.Forall₂ WritesEntry entries lines) :
    (∃ line ∈ lines, etx ∈ line) ↔ ∃ entry ∈ entries, etx ∈ entry.1 ∨ etx ∈ entry.2.getD [] := by
  induction h with
  | nil => simp
  | cons hline _ ih => simp only [List.exists_mem_cons_iff, ih, etx_mem_line hline]

variable (hlib : SerializesPairs lib) (params : HashDict)

include hlib

/-- The data of a request has the end of a frame in it unless the dictionary is free of it. -/
theorem etx_mem_requestPayload : etx ∈ requestPayload lib params ↔ ¬params.Unbroken := by
  unfold requestPayload HashDict.Unbroken
  split
  · rename_i hping
    have hasks : params.asksPing := hping
    simp only [hasks, true_or, not_true_eq_false, iff_false]
    decide
  · rename_i hping
    have hasks : ¬params.asksPing := hping
    obtain ⟨entries, lines, hperm, hlines, heq⟩ := hlib params
    have hlf : etx ∉ [lf] := by decide
    rw [heq, mem_intercalate hlf, etx_mem_lines hlines]
    simp only [hasks, false_or, hperm.mem_iff, not_forall, not_and_or, not_not, exists_prop]

/-- The data of a request is never empty. -/
theorem requestPayload_ne_nil (hne : params.numKeys ≠ 0) : requestPayload lib params ≠ [] := by
  unfold requestPayload
  split
  · decide
  · obtain ⟨entries, lines, hperm, hlines, heq⟩ := hlib params
    have hentries : entries ≠ [] := by
      rintro rfl
      exact hne (params.numKeys_eq_zero.mpr hperm.symm.eq_nil)
    rw [heq]
    cases hlines with
    | nil => exact absurd rfl hentries
    | cons hline _ =>
      obtain ⟨key, value, -, -, rfl⟩ := hline
      have hlf : equals ∉ [lf] := by decide
      exact List.ne_nil_of_mem ((mem_intercalate hlf).mpr ⟨_, List.mem_cons_self, by simp⟩)

end Serialize

section Requests

variable {lib} {c : Conn}

/-- The requests are appended one after the other. -/
theorem structureAll_outbuf {reqs : List (Ptr × Trans)} (hlive : ∀ req ∈ reqs, c.heap req.1 = some req.2)
    (hdistinct : (reqs.map Prod.fst).Nodup) :
    (structureAll lib c (reqs.map Prod.fst)).outbuf =
      c.outbuf ++ (reqs.map fun req => req.2.body lib).flatMap frameOf := by
  induction reqs generalizing c with
  | nil => simp [structureAll]
  | cons req reqs ih =>
    rw [List.map_cons, List.nodup_cons] at hdistinct
    obtain ⟨hfirst, hdistinct⟩ := hdistinct
    have ht := hlive req List.mem_cons_self
    have hlive' : ∀ other ∈ reqs, (transStructure lib c req.1).heap other.1 = some other.2 := by
      intro other hother
      have hne : other.1 ≠ req.1 := fun heq => hfirst (heq ▸ List.mem_map_of_mem hother)
      simp only [transStructure, ht, Function.update_of_ne hne]
      exact hlive other (List.mem_cons_of_mem req hother)
    have hout : (transStructure lib c req.1).outbuf = c.outbuf ++ frameOf (req.2.body lib) := by
      simp only [transStructure, ht]
      rfl
    have htail := ih hlive' hdistinct
    rw [structureAll] at htail
    rw [structureAll, List.map_cons, List.foldl_cons, htail, hout, List.append_assoc, List.map_cons,
      List.flatMap_cons]

/-- The message of a request has an end of frame in it exactly when its data has. -/
theorem etx_mem_body (hlib : SerializesPairs lib) (t : Trans) :
    etx ∈ t.body lib ↔ ¬(t.requestParams.getD .create).Unbroken := by
  have hdecimal : etx ∉ decimal t.transId := not_mem_decimal (by decide)
  have hfs : etx ≠ fs := by decide
  rw [← etx_mem_requestPayload hlib, Trans.body, requestBody, List.mem_append, List.mem_cons]
  simp [hdecimal, hfs]

/-- The message of a request that was accepted is never short. -/
theorem three_le_length_body (hlib : SerializesPairs lib) {t : Trans} (ht : t.numParams ≠ 0) :
    3 ≤ (t.body lib).length := by
  have hparams : (t.requestParams.getD .create).numKeys ≠ 0 := by
    cases hp : t.requestParams with
    | none => simp [Trans.numParams, hp] at ht
    | some params => simpa [Trans.numParams, hp] using ht
  have hid : 0 < (decimal t.transId).length := List.length_pos_of_ne_nil (decimal_ne_nil t.transId)
  have hdata := List.length_pos_of_ne_nil (requestPayload_ne_nil hlib _ hparams)
  simp only [Trans.body, requestBody, List.length_append, List.length_cons]
  omega

/-- The requests of a list of transactions come apart into their frames exactly when no key and no
value of them has an end of frame in it. -/
theorem framedApart_iff (hlib : SerializesPairs lib) (c : Conn) (reqs : List (Ptr × Trans))
    (hlive : ∀ req ∈ reqs, c.heap req.1 = some req.2) (hdistinct : (reqs.map Prod.fst).Nodup)
    (hparams : ∀ req ∈ reqs, req.2.numParams ≠ 0) :
    FramedApart lib c reqs ↔ ∀ req ∈ reqs, (req.2.requestParams.getD .create).Unbroken := by
  have hout : (structureAll lib c (reqs.map Prod.fst)).outbuf = _ := structureAll_outbuf hlive hdistinct
  constructor
  · rintro ⟨appended, happended, hframes⟩ req hreq
    by_contra hbroken
    have hmem : req.2.body lib ∈ (framesOf appended).state := by
      rw [hframes]
      exact List.mem_map_of_mem (f := fun req : Ptr × Trans => req.2.body lib) hreq
    exact not_mem_of_framesOf hmem ((etx_mem_body hlib req.2).mpr hbroken)
  · intro hunbroken
    refine ⟨_, hout, framesOf_flatMap fun msg hmsg => ?_⟩
    obtain ⟨req, hreq, rfl⟩ := List.mem_map.mp hmsg
    exact ⟨fun hetx => (etx_mem_body hlib req.2).mp hetx (hunbroken req hreq),
      three_le_length_body hlib (hparams req hreq)⟩

end Requests

/-- The reference instance quotes every text that has anything but letters, digits and spaces. -/
theorem written_serializeText (text : Bytes) : Written dquote text (serializeText text) := by
  unfold serializeText
  split
  · rename_i hplain
    exact .bare fun hmem => absurd (List.all_eq_true.mp hplain dquote hmem) (by decide)
  · exact .quoted

/-- The reference instance serialises as documented. -/
theorem reference_serializesPairs : SerializesPairs reference := by
  intro dict
  refine ⟨dict.entries, _, .refl _, ?_, rfl⟩
  rw [List.forall₂_map_right_iff]
  exact List.forall₂_same.mpr fun entry _ =>
    ⟨_, _, written_serializeText entry.1, written_serializeText (entry.2.getD []), rfl⟩

/-- The calls that make a sale with a comment. -/
def commentSale (comment : Bytes) : List Action :=
  [.transNew [saleDraw], .transSetParam 0 (ascii "action") (some (ascii "sale")),
    .transSetParam 0 (ascii "comments") (some comment)]

/-- The sale with a comment, not yet sent. -/
def commentedSale (comment : Bytes) : Trans where
  transId := 7
  status := .new
  requestParams := some ((HashDict.create.insert (ascii "action") (some (ascii "sale"))).insert
    (ascii "comments") (some comment))
  responseType := .unknown
  responseParams := none
  responseRaw := none
  timeoutS := 0
  timeoutTimer := false
  owner := .user

/-- A sale whose comment has quotes and a line break in it. -/
def quotedSale : Sys := ((monetra reference).run started
  (commentSale (ascii "say \"hi\"" ++ [lf, stx]))).get (by decide)

/-- It goes out as one frame. -/
theorem framedApart_iff_sale :
    FramedApart reference quotedSale.conn [(0, commentedSale (ascii "say \"hi\"" ++ [lf, stx]))] ↔
      ∀ req ∈ [((0 : Ptr), commentedSale (ascii "say \"hi\"" ++ [lf, stx]))],
        (req.2.requestParams.getD .create).Unbroken :=
  framedApart_iff reference_serializesPairs quotedSale.conn
    [(0, commentedSale (ascii "say \"hi\"" ++ [lf, stx]))] (by decide) (by decide) (by decide)

/-- A comment that ends its frame and goes on with a ping of its own and the start of a third frame. -/
def injectedComment : Bytes :=
  etx :: stx :: ascii "8" ++ fs :: ascii "PING" ++ [etx, stx] ++ ascii "9" ++ [fs]

/-- A sale with that comment. -/
def injectedSale : Sys :=
  ((monetra reference).run started (commentSale injectedComment)).get (by decide)

/-- It does not go out as one frame. -/
theorem injected_not_framedApart :
    ¬∀ (s : Sys) (reqs : List (Ptr × Trans)), (monetra reference).Reachable s →
      (∀ req ∈ reqs, s.conn.heap req.1 = some req.2) → (reqs.map Prod.fst).Nodup →
      (∀ req ∈ reqs, req.2.numParams ≠ 0) → FramedApart reference s.conn reqs := by
  intro h
  have hreach : (monetra reference).Reachable injectedSale :=
    System.reachable_get _ (started_init reference) (commentSale injectedComment) _
  obtain ⟨appended, -, hframes⟩ := h injectedSale [(0, commentedSale injectedComment)] hreach
    (by decide) (by decide) (by decide)
  have hmem : (commentedSale injectedComment).body reference ∈ (framesOf appended).state := by
    rw [hframes]
    exact List.mem_singleton.mpr rfl
  exact not_mem_of_framesOf hmem (by decide)

end LibMonetra
