import LibMonetra.Classification
import LibMonetra.Foundation.Quoting
import LibMonetra.Response
import LibMonetra.RunByParts

/-!
# Key/value responses

The data of a key/value response is one line `key=value` for each pair; a value may be written between
quotes, with its quotes doubled. Its lines and their two sections are found outside quotes, the
whitespace is trimmed outside quotes, and doubled quotes are read as one: all of this undoes what the server
did, and the dictionary of the response is what the server meant.
-/

namespace LibMonetra

open Foundation

/-- A byte of the keys that the server uses. -/
def isKeyByte (b : UInt8) : Bool := isAlpha b || isDigit b || b == 0x5f || b == 0x2d

/-- Pairs that a response can carry. -/
structure ResponsePairs where
  pairs : List (Bytes × Bytes)
  nonempty : pairs ≠ []
  keys : ∀ pair ∈ pairs, pair.1 ≠ [] ∧ ∀ b ∈ pair.1, isKeyByte b = true
  distinct : (pairs.map Prod.fst).Pairwise fun left right => strCaseeq left right = false
  first : ∀ pair, pairs.head? = some pair → pair.1.length ≤ 31
  values : ∀ pair ∈ pairs, 0 ∉ pair.2 ∧ etx ∉ pair.2

/-- A value as the server may write it: between quotes, or bare when nothing in it needs them. -/
inductive EncodedValue (value : Bytes) : Bytes → Prop
  | quoted : EncodedValue value (inQuotes dquote value)
  | bare : value ≠ [] → dquote ∉ value → cr ∉ value → lf ∉ value →
      (∀ b, value.head? = some b → isSpace b = false) →
      (∀ b, value.getLast? = some b → isSpace b = false) → EncodedValue value value

/-- A line of a response. -/
def EncodedPair (pair : Bytes × Bytes) (line : Bytes) : Prop :=
  ∃ text, EncodedValue pair.2 text ∧ line = pair.1 ++ equals :: text

/-- The data of a response. -/
def ResponsePairs.Encodes (pairs : ResponsePairs) (payload : Bytes) : Prop :=
  ∃ lines, List.Forall₂ EncodedPair pairs.pairs lines ∧ payload = List.intercalate [lf] lines

/-- A dictionary is the mapping that the pairs describe. -/
structure Carries (dict : Dict) (pairs : List (Bytes × Bytes)) : Prop where
  entries : dict.entries.Perm (pairs.map fun pair => (pair.1, some pair.2))
  values : ∀ pair ∈ pairs, dict.getDirect pair.1 = some pair.2

/-- `M_str_explode_quoted` on a text whose quotes are closed: it cuts at the delimiters outside quotes,
all of them, or the first one when two sections are asked for. -/
structure ExplodesQuoted (lib : Mstdlib) : Prop where
  all : ∀ delim quote str sections, delim ≠ quote → str ≠ [] → Sections delim quote str sections →
    lib.strExplodeQuoted delim str quote quote 0 = some sections
  two : ∀ delim quote front back, delim ≠ quote → Closed delim quote front →
    lib.strExplodeQuoted delim (front ++ delim :: back) quote quote 2 = some [front, back]

section Keys

variable {key : Bytes} (hkey : ∀ b ∈ key, isKeyByte b = true)

include hkey

/-- No other byte occurs in a key. -/
theorem not_mem_key {b : UInt8} (hb : isKeyByte b = false) : b ∉ key :=
  fun hmem => by simp [hkey b hmem] at hb

/-- There is no whitespace to trim from a key. -/
theorem isSpace_of_mem_key {b : UInt8} (hb : b ∈ key) : isSpace b = false := by
  have hchar := hkey b hb
  simp only [isKeyByte, isAlpha, isDigit, Bool.or_eq_true, Bool.and_eq_true, decide_eq_true_eq,
    beq_iff_eq, UInt8.le_iff_toNat_le, ← UInt8.toNat_inj] at hchar
  simp only [isSpace, Bool.or_eq_false_iff, Bool.and_eq_false_iff, decide_eq_false_iff_not,
    beq_eq_false_iff_ne, ne_eq, UInt8.le_iff_toNat_le, ← UInt8.toNat_inj]
  simp only [UInt8.reduceToNat] at hchar ⊢
  omega

/-- The scan of the classifier passes over a key. -/
theorem passedOver_of_mem_key {b : UInt8} (hb : b ∈ key) : passedOver b = true := by
  have hchar := hkey b hb
  simp only [isKeyByte, Bool.or_eq_true] at hchar
  simp only [passedOver, isAlnumSp, Bool.or_eq_true]
  tauto

end Keys

section Trim

/-- A text without whitespace at its ends is left alone. -/
theorem strTrim_eq_self {str : Bytes} (hhead : ∀ b, str.head? = some b → isSpace b = false)
    (hlast : ∀ b, str.getLast? = some b → isSpace b = false) : strTrim str = str := by
  have hfront : str.dropWhile isSpace = str := by
    cases str with
    | nil => rfl
    | cons b rest => simp [hhead b rfl]
  rw [strTrim, hfront, List.rdropWhile_eq_self_iff]
  intro hne
  simp [hlast _ (List.getLast?_eq_some_getLast hne)]

/-- There is nothing to trim from a written value. -/
theorem strTrim_encodedValue {value text : Bytes} (h : EncodedValue value text) : strTrim text = text := by
  cases h with
  | quoted =>
    refine strTrim_eq_self ?_ ?_
    · intro b hb
      obtain rfl : dquote = b := by simpa [inQuotes] using hb
      decide
    · intro b hb
      rw [inQuotes, List.getLast?_concat] at hb
      obtain rfl := Option.some.inj hb
      decide
  | bare _ _ _ _ hhead hlast => exact strTrim_eq_self hhead hlast

end Trim

/-- A value is read back as it was, however it was written. -/
theorem readValue_encodedValue {value text : Bytes} (h : EncodedValue value text) :
    readValue text = some value := by
  cases h with
  | quoted =>
    have hlast : (doubled dquote value ++ [dquote]).getLast? = some dquote := List.getLast?_concat
    rw [inQuotes, List.cons_append, readValue, if_pos ⟨rfl, hlast⟩, List.dropLast_concat, undoubled_doubled]
  | bare hne hquote _ _ _ _ =>
    have hsame := undoubled_doubled dquote value
    rw [doubled_of_not_mem hquote] at hsame
    cases value with
    | nil => exact absurd rfl hne
    | cons first rest =>
      have hfirst : first ≠ dquote := fun h => hquote (h ▸ List.mem_cons_self)
      rw [readValue, if_neg fun h => hfirst h.1, hsame]

section Lines

variable {lib : Mstdlib} {pair : Bytes × Bytes} {line value text : Bytes} {pairs : List (Bytes × Bytes)}
  {lines : List Bytes}

/-- An encoded value is a written one. -/
theorem EncodedValue.written (h : EncodedValue value text) : Written dquote value text := by
  cases h with
  | quoted => exact .quoted
  | bare _ hquote _ _ _ _ => exact .bare hquote

/-- No line feed cuts through an encoded value. -/
theorem EncodedValue.closed (h : EncodedValue value text) : Closed lf dquote text := by
  cases h with
  | quoted => exact closed_inQuotes lf dquote value
  | bare _ hquote _ hlf _ _ => exact .of_not_mem hquote hlf

/-- No line feed cuts through a line. -/
theorem EncodedPair.closed (hkey : ∀ b ∈ pair.1, isKeyByte b = true) (h : EncodedPair pair line) :
    Closed lf dquote line := by
  obtain ⟨text, htext, rfl⟩ := h
  have hfront : Closed lf dquote pair.1 :=
    .of_not_mem (not_mem_key hkey (by decide)) (not_mem_key hkey (by decide))
  exact hfront.append (.plain equals text (by decide) (by decide) htext.closed)

/-- A line is a C string. -/
theorem EncodedPair.cstr_eq (hkey : ∀ b ∈ pair.1, isKeyByte b = true) (hvalue : 0 ∉ pair.2)
    (h : EncodedPair pair line) : cstr line = line := by
  obtain ⟨text, htext, rfl⟩ := h
  have hzero : (0 : UInt8) ∉ pair.1 ++ equals :: text := by
    rw [List.mem_append, List.mem_cons, htext.written.mem_iff (by decide), not_or, not_or]
    exact ⟨not_mem_key hkey (by decide), by decide, hvalue⟩
  rw [cstr, List.takeWhile_eq_self_iff]
  intro b hb
  simpa using fun heq : b = 0 => hzero (heq ▸ hb)

/-- A line is read as the pair that it was made of. -/
theorem EncodedPair.addLine_eq (hlib : ExplodesQuoted lib) (hkey : ∀ b ∈ pair.1, isKeyByte b = true)
    (hvalue : 0 ∉ pair.2) (h : EncodedPair pair line) (dict : Dict) :
    lineReads lib line = true ∧ addLine lib dict line = dict.insert pair.1 (some pair.2) := by
  have hcstr := h.cstr_eq hkey hvalue
  obtain ⟨text, htext, rfl⟩ := h
  have hfront : Closed equals dquote pair.1 :=
    .of_not_mem (not_mem_key hkey (by decide)) (not_mem_key hkey (by decide))
  have hsections : lineSections lib (pair.1 ++ equals :: text) = some (pair.1, text) := by
    simp [lineSections, hlib.two equals dquote pair.1 text (by decide) hfront]
  have htrim : strTrim pair.1 = pair.1 :=
    strTrim_eq_self (fun b hb => isSpace_of_mem_key hkey (List.mem_of_mem_head? hb))
      fun b hb => isSpace_of_mem_key hkey (List.mem_of_getLast? hb)
  constructor
  · simp [lineReads, hcstr, hsections]
  · simp [addLine, hcstr, hsections, htrim, strTrim_encodedValue htext, readValue_encodedValue htext]

/-- No line feed cuts through any line. -/
theorem closed_lines (h : List.Forall₂ EncodedPair pairs lines)
    (hkeys : ∀ pair ∈ pairs, ∀ b ∈ pair.1, isKeyByte b = true) :
    ∀ line ∈ lines, Closed lf dquote line := by
  induction h with
  | nil => simp
  | @cons pair line pairs lines hline _ ih =>
    exact List.forall_mem_cons.mpr ⟨hline.closed (hkeys pair List.mem_cons_self),
      ih fun q hq => hkeys q (List.mem_cons_of_mem pair hq)⟩

/-- The lines are read as the pairs that they were made of. -/
theorem addLines_eq (hlib : ExplodesQuoted lib) (h : List.Forall₂ EncodedPair pairs lines)
    (hkeys : ∀ pair ∈ pairs, ∀ b ∈ pair.1, isKeyByte b = true) (hvalues : ∀ pair ∈ pairs, 0 ∉ pair.2)
    (dict : Dict) : lines.all (lineReads lib) = true ∧ lines.foldl (addLine lib) dict =
      pairs.foldl (fun dict pair => dict.insert pair.1 (some pair.2)) dict := by
  induction h generalizing dict with
  | nil => exact ⟨rfl, rfl⟩
  | @cons pair line pairs lines hline hrest ih =>
    obtain ⟨hreads, hadd⟩ := hline.addLine_eq hlib (hkeys pair List.mem_cons_self)
      (hvalues pair List.mem_cons_self) dict
    obtain ⟨hall, hfold⟩ := ih (fun q hq => hkeys q (List.mem_cons_of_mem pair hq))
      (fun q hq => hvalues q (List.mem_cons_of_mem pair hq)) (dict.insert pair.1 (some pair.2))
    rw [List.all_cons, hreads, hall, List.foldl_cons, hadd, hfold, List.foldl_cons]
    exact ⟨rfl, rfl⟩

/-- Inserting pairs into a dictionary is setting them as members. -/
theorem toHashDict_foldl (hkeys : ∀ pair ∈ pairs, pair.1 ≠ []) (dict : Dict) :
    (pairs.foldl (fun dict pair => dict.insert pair.1 (some pair.2)) dict).toHashDict =
      dict.toHashDict.setAll (pairs.map fun pair => (pair.1, some pair.2)) := by
  induction pairs generalizing dict with
  | nil => rfl
  | cons pair pairs ih =>
    have hne := hkeys pair List.mem_cons_self
    rw [List.foldl_cons, ih fun q hq => hkeys q (List.mem_cons_of_mem pair hq), HashDict.setAll,
      HashDict.setAll, List.map_cons, List.foldl_cons, if_pos hne]
    rfl

end Lines

section Decode

variable {lib : Mstdlib} (hlib : ExplodesQuoted lib) {pairs : ResponsePairs} {payload : Bytes}
  (h : pairs.Encodes payload)

include h

/-- The data of a response begins with the key and the equals sign of the first pair. -/
theorem ResponsePairs.Encodes.front : ∃ pair rest, pairs.pairs.head? = some pair ∧
    payload = pair.1 ++ equals :: rest := by
  obtain ⟨lines, hlines, rfl⟩ := h
  cases hpairs : pairs.pairs with
  | nil => exact absurd hpairs pairs.nonempty
  | cons pair others =>
    rw [hpairs] at hlines
    cases hlines with
    | cons hline hrest =>
      obtain ⟨text, -, rfl⟩ := hline
      cases hrest with
      | nil => exact ⟨pair, text, rfl, List.intercalate_singleton⟩
      | cons _ _ =>
        rw [List.intercalate_cons_cons, List.append_assoc, List.append_assoc, List.cons_append]
        exact ⟨pair, _, rfl, rfl⟩

/-- The classifier takes the data of a response for what it is. -/
theorem ResponsePairs.Encodes.classified : connDetermineResponseType payload = .kv := by
  obtain ⟨pair, rest, hhead, rfl⟩ := h.front
  have hpair := List.mem_of_mem_head? hhead
  obtain ⟨hne, hkey⟩ := pairs.keys pair hpair
  have hshort := pairs.first pair hhead
  cases hbytes : pair.1 with
  | nil => exact absurd hbytes hne
  | cons b key =>
    rw [hbytes] at hkey hshort
    have hb : ¬(b = equals ∨ b = comma) := by
      rintro (rfl | rfl)
      · exact absurd (hkey _ List.mem_cons_self) (by decide)
      · exact absurd (hkey _ List.mem_cons_self) (by decide)
    have hroom : 31 - key.length = (30 - key.length) + 1 := by
      rw [List.length_cons] at hshort
      omega
    have hwindow : (key ++ equals :: rest).take 31 = key ++ equals :: rest.take (30 - key.length) := by
      rw [List.take_append, List.take_of_length_le (by omega), hroom, List.take_succ_cons]
    have hpassed : key.find? (fun b => !passedOver b) = none := by
      refine List.find?_eq_none.mpr fun b hmem => ?_
      simp [passedOver_of_mem_key hkey (List.mem_cons_of_mem _ hmem)]
    rw [List.cons_append, connDetermineResponseType_cons, if_neg hb, hwindow, decider,
      List.find?_append, hpassed, Option.none_or, List.find?_cons]
    rfl

/-- The data of a response is not empty. -/
theorem ResponsePairs.Encodes.ne_nil : payload ≠ [] := ne_nil_of_kv h.classified

include hlib

/-- The dictionary of a response is the mapping that was encoded. -/
theorem ResponsePairs.Encodes.deserialized : ∃ dict,
    hashDictDeserialize lib payload true equals lf dquote dquote = some dict ∧
      Carries dict pairs.pairs := by
  have hne := h.ne_nil
  obtain ⟨lines, hlines, rfl⟩ := h
  have hkeys : ∀ pair ∈ pairs.pairs, ∀ b ∈ pair.1, isKeyByte b = true :=
    fun pair hpair => (pairs.keys pair hpair).2
  have hclosed := closed_lines hlines hkeys
  have hsome : lines ≠ [] := by
    rintro rfl
    exact hne rfl
  have hread : payloadLines lib (List.intercalate [lf] lines) = some lines :=
    hlib.all lf dquote _ lines (by decide) hne (.intercalate hsome hclosed)
  obtain ⟨hall, hfold⟩ := addLines_eq hlib hlines hkeys (fun pair hpair => (pairs.values pair hpair).1)
    .create
  have hmapping := toHashDict_foldl (fun pair hpair => (pairs.keys pair hpair).1) .create
  rw [hashDictDeserialize_eq lib hne, payloadReads, payloadDict, hread]
  simp only [Option.any_some, hall, if_true, Option.getD_some, Option.some.injEq, exists_eq_left', hfold]
  have hentries : (pairs.pairs.foldl (fun dict pair => dict.insert pair.1 (some pair.2)) Dict.create).entries =
      pairs.pairs.map fun pair => (pair.1, some pair.2) := by
    rw [hmapping]
    refine (HashDict.entries_setAll Dict.create.toHashDict ?_ ?_).trans (List.nil_append _)
    · intro member hmember
      obtain ⟨pair, hpair, rfl⟩ := List.mem_map.mp hmember
      exact (pairs.keys pair hpair).1
    · change (List.map Prod.fst (pairs.pairs.map fun pair => (pair.1, some pair.2))).Pairwise
        fun left right => strCaseeq left right = false
      rw [List.map_map]
      exact pairs.distinct
  refine ⟨hentries ▸ .refl _, fun pair hpair => ?_⟩
  refine Dict.getDirect_of_mem _ ?_
  rw [hentries]
  exact List.mem_map_of_mem hpair

/-- A key/value response to a transaction that waits is classified as one and decoded without loss. -/
theorem connParseMsg_keyValues (c : Conn) {p : Ptr} {t : Trans} {tranId : ℕ} {msg : Bytes}
    (hmsg : readMsg lib msg = some (tranId, payload)) (hid : c.transIdMap tranId = some p)
    (ht : c.heap p = some t) (hst : t.status = .pending) :
    ∃ t' dict, (connParseMsg lib c msg).1.heap p = some t' ∧ t'.status = .done ∧
      t'.responseType = .kv ∧ t'.responseParams = some dict ∧
      hashDictDeserialize lib payload true equals lf dquote dquote = some dict ∧
      Carries dict pairs.pairs := by
  have hkv := h.classified
  obtain ⟨dict, hdict, hcarries⟩ := h.deserialized hlib
  refine ⟨storeResponse lib t payload, dict, ?_, storeResponse_status lib t payload, ?_, ?_, hdict,
    hcarries⟩
  · simp [connParseMsg, hmsg, hid, ht, hst]
  · simp [storeResponse, hkv]
  · simp [storeResponse, hkv, hdict]

end Decode

section Reference

variable {delim quote : UInt8} {cuts : Option ℕ} {w : Bytes}

/-- There is always a section. -/
theorem splitOutside_ne_nil (delim quote : UInt8) (cuts : Option ℕ) (inside : Bool) (str : Bytes) :
    splitOutside delim quote cuts inside str ≠ [] := by
  cases str with
  | nil => simp [splitOutside]
  | cons b rest =>
    unfold splitOutside
    split
    · simp
    · split <;> simp

/-- A byte at which there is no cut belongs to the first section. -/
theorem splitOutside_cons {b : UInt8} {inside : Bool} (hb : ¬(b = delim ∧ inside = false ∧ cuts ≠ some 0))
    (rest : Bytes) : splitOutside delim quote cuts inside (b :: rest) =
      (splitOutside delim quote cuts (if b = quote then !inside else inside) rest).modifyHead (b :: ·) := by
  rw [splitOutside, if_neg hb]
  cases hsplit : splitOutside delim quote cuts (if b = quote then !inside else inside) rest with
  | nil => exact absurd hsplit (splitOutside_ne_nil _ _ _ _ _)
  | cons first others => rfl

/-- Nothing is cut up to the next quote while inside quotes. -/
theorem splitOutside_body {body : Bytes} (hbody : quote ∉ body) (rest : Bytes) :
    splitOutside delim quote cuts true (body ++ rest) =
      (splitOutside delim quote cuts true rest).modifyHead (body ++ ·) := by
  induction body with
  | nil => exact (congrFun List.modifyHead_id _).symm
  | cons b body ih =>
    simp only [List.mem_cons, not_or] at hbody
    rw [List.cons_append, splitOutside_cons (by simp), if_neg (Ne.symm hbody.1), ih hbody.2,
      List.modifyHead_modifyHead]
    rfl

/-- A closed text belongs to the first section as a whole. -/
theorem splitOutside_closed (hdelim : delim ≠ quote) (hw : Closed delim quote w) (rest : Bytes) :
    splitOutside delim quote cuts false (w ++ rest) =
      (splitOutside delim quote cuts false rest).modifyHead (w ++ ·) := by
  induction hw with
  | nil => exact (congrFun List.modifyHead_id _).symm
  | plain b w hquote hplain _ ih =>
    rw [List.cons_append, splitOutside_cons (fun h => hplain h.1), if_neg hquote, ih,
      List.modifyHead_modifyHead]
    rfl
  | quoted body w hbody _ ih =>
    rw [List.append_assoc, List.cons_append, List.cons_append,
      splitOutside_cons (fun h => hdelim h.1.symm), if_pos rfl, Bool.not_false, splitOutside_body hbody,
      splitOutside_cons (by simp), if_pos rfl, Bool.not_true, ih]
    simp only [List.modifyHead_modifyHead]
    congr 1
    funext first
    simp

/-- At a delimiter outside quotes there is a cut. -/
theorem splitOutside_delim (hcuts : cuts ≠ some 0) (rest : Bytes) :
    splitOutside delim quote cuts false (delim :: rest) =
      [] :: splitOutside delim quote (cuts.map Nat.pred) false rest := by
  rw [splitOutside, if_pos ⟨rfl, rfl, hcuts⟩]

/-- The last section holds the remainder. -/
theorem splitOutside_remainder (inside : Bool) (str : Bytes) :
    splitOutside delim quote (some 0) inside str = [str] := by
  induction str generalizing inside with
  | nil => rfl
  | cons b rest ih =>
    rw [splitOutside_cons (by simp), ih]
    rfl

/-- All sections are found. -/
theorem splitOutside_sections (hdelim : delim ≠ quote) {str : Bytes} {sections : List Bytes}
    (h : Sections delim quote str sections) : splitOutside delim quote none false str = sections := by
  induction h with
  | last w hw =>
    have hall : splitOutside delim quote none false (w ++ []) = _ := splitOutside_closed hdelim hw []
    rw [List.append_nil] at hall
    rw [hall]
    simp [splitOutside]
  | cut w rest sections hw _ ih =>
    rw [splitOutside_closed hdelim hw, splitOutside_delim (by simp), Option.map_none, ih]
    simp

/-- The reference instance splits as documented. -/
theorem reference_explodesQuoted : ExplodesQuoted reference where
  all delim quote str sections hdelim _ h := by
    change some (splitOutside delim quote none false str) = _
    rw [splitOutside_sections hdelim h]
  two delim quote front back hdelim h := by
    change some (splitOutside delim quote (some 1) false (front ++ delim :: back)) = _
    rw [splitOutside_closed hdelim h, splitOutside_delim (by simp)]
    change some (List.modifyHead (front ++ ·) ([] :: splitOutside delim quote (some 0) false back)) = _
    rw [splitOutside_remainder]
    simp

end Reference

set_option maxRecDepth 2000 in
/-- An approval with a quoted and a bare value. -/
def approvalPairs : ResponsePairs where
  pairs := [(ascii "code", ascii "AUTH"), (ascii "verbiage", ascii "\"OK\" = yes" ++ [lf])]
  nonempty := by decide
  keys := by decide
  distinct := by decide
  first := by decide
  values := by decide

set_option maxRecDepth 2000 in
/-- The approval as the server may write it. -/
theorem approvalPairs_encodes : approvalPairs.Encodes
    (ascii "code=AUTH" ++ lf :: ascii "verbiage=" ++ inQuotes dquote (ascii "\"OK\" = yes" ++ [lf])) :=
  ⟨[ascii "code" ++ equals :: ascii "AUTH",
      ascii "verbiage" ++ equals :: inQuotes dquote (ascii "\"OK\" = yes" ++ [lf])],
    .cons ⟨_, .bare (by decide) (by decide) (by decide) (by decide) (by decide) (by decide), rfl⟩
      (.cons ⟨_, .quoted, rfl⟩ .nil), by decide⟩

/-- The sale that waits gets all of it. -/
theorem connParseMsg_keyValues_sale : ∃ t' dict,
    (connParseMsg reference saleSent.conn (decimal 7 ++ fs :: (ascii "code=AUTH" ++ lf ::
      ascii "verbiage=" ++ inQuotes dquote (ascii "\"OK\" = yes" ++ [lf])))).1.heap 0 = some t' ∧
      t'.status = .done ∧ t'.responseType = .kv ∧ t'.responseParams = some dict ∧
      hashDictDeserialize reference (ascii "code=AUTH" ++ lf :: ascii "verbiage=" ++
        inQuotes dquote (ascii "\"OK\" = yes" ++ [lf])) true equals lf dquote dquote = some dict ∧
      Carries dict approvalPairs.pairs :=
  connParseMsg_keyValues reference_explodesQuoted approvalPairs_encodes saleSent.conn (p := 0)
    (t := ⟨7, .pending, none, .unknown, none, none, 0, false, .user⟩)
    (readMsg_decimal reference_readsDecimals (by decide) _) (by decide) (by decide) rfl

end LibMonetra
