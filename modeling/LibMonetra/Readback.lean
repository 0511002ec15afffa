import LibMonetra.Listing
import LibMonetra.Response

/-!
# Reading a response

The functions that read the response of a transaction. All but one of them only look: the first call for
the table of a CSV response takes the data away, parses it, and keeps the table for the calls that follow.
-/

namespace LibMonetra

open Foundation

/-- `LM_trans_response_type`. -/
def transResponseType (t : Trans) : ResponseType := t.responseType

/-- The functions of the C support library for tables: `M_csv_parse_inplace` with comma, double quote and
`M_CSV_FLAG_TRIM_WHITESPACE`, and the functions that read a table. -/
structure CsvLib where
  Csv : Type
  parseInplace : Bytes → Option Csv
  getCell : Csv → ℕ → Bytes → Option Bytes
  getCellbynum : Csv → ℕ → ℕ → Option Bytes
  getHeader : Csv → ℕ → Option Bytes
  getNumcols : Csv → ℕ
  getNumrows : Csv → ℕ

variable (lib : Mstdlib) (csv : CsvLib)

/-- The fields of the transactions that only the response functions write: `response_csv`, and whether the
parser has taken `response_raw`. -/
structure CsvFields where
  responseCsv : Ptr → Option csv.Csv
  taken : Ptr → Bool

/-- The library with these fields. -/
structure Reader where
  sys : Sys
  fields : CsvFields csv

variable {csv}

/-- `response_raw`. -/
def CsvFields.responseRaw (f : CsvFields csv) (p : Ptr) (t : Trans) : Option Bytes :=
  if f.taken p then none else t.responseRaw

/-- `LM_trans_response_raw`. -/
def transResponseRaw (f : CsvFields csv) (p : Ptr) (t : Trans) : Option Bytes :=
  if t.status = .done ∧ t.responseType ≠ .kv then f.responseRaw p t else none

/-- `LM_trans_response_csv`. -/
def transResponseCsv (f : CsvFields csv) (p : Ptr) (t : Trans) : CsvFields csv × Option csv.Csv :=
  if t.status = .done ∧ t.responseType = .csv then
    match f.responseCsv p, f.responseRaw p t with
    | none, some raw =>
      let parsed := csv.parseInplace (cstr raw)
      -- the parser owns the data from here on, whether it has made a table of it or not
      (⟨Function.update f.responseCsv p parsed, Function.update f.taken p true⟩, parsed)
    | table, _ => (f, table)
  else (f, none)

variable (csv)

/-- What may happen to a library whose responses are read: an action of the library, or a call for a table. -/
inductive ReadAction
  | library (a : Action)
  | responseCsv (p : Ptr)

/-- One action. A table is asked of live transactions only. -/
def readStep (r : Reader csv) : ReadAction → Option (Reader csv)
  | .library a => (sysStep lib r.sys a).map fun s => { r with sys := s }
  | .responseCsv p =>
    (r.sys.conn.heap p).map fun t => { r with fields := (transResponseCsv r.fields p t).1 }

/-- The runs of the library and of callers that read responses at any time. -/
def reading : System (Reader csv) ReadAction where
  init r := (monetra lib).init r.sys ∧ r.fields = ⟨fun _ => none, fun _ => false⟩
  step := readStep lib csv

/-- The fields of a response. -/
def Trans.stored (t : Trans) : ResponseType × Option Dict × Option Bytes :=
  (t.responseType, t.responseParams, t.responseRaw)

variable {csv}

/-- What can be read of a response: its type, dictionary, table, and data. -/
structure ReadsAs (f : CsvFields csv) (p : Ptr) (t : Trans) (data : Bytes) : Prop where
  type : transResponseType t = connDetermineResponseType data
  dict : transResponseDict t =
    if connDetermineResponseType data = .kv then hashDictDeserialize lib data true equals lf dquote dquote
    else none
  table : (transResponseCsv f p t).2 =
    if connDetermineResponseType data = .csv then csv.parseInplace (cstr data) else none
  raw : transResponseRaw f p t =
    if connDetermineResponseType data = .kv ∨ f.taken p = true then none else some data

section Fixed

variable {lib} {q : Ptr} {l l' : Life}

/-- A transaction that is done with a response, or is gone. -/
def Life.Fixed (response : ResponseType × Option Dict × Option Bytes) (l : Life) : Prop :=
  l.born ∧ ∀ t, l.trans = some t → t.status = .done ∧ t.stored = response

/-- No step changes the response of a transaction that is done. -/
theorem LifeStep.fixed {response : ResponseType × Option Dict × Option Bytes} (hstep : LifeStep lib q l l')
    (h : l.Fixed response) : l'.Fixed response := by
  obtain ⟨hborn, hdone⟩ := h
  have hshort : ∀ {t status}, l.trans = some t → t.status = status → status ≠ .done → l'.Fixed response :=
    fun ht hst hne => absurd (hst.symm.trans (hdone _ ht).1) hne
  cases hstep with
  | create id params hb => exact absurd hborn hb
  | createPing id status hb => exact absurd hborn hb
  | edit t params timeoutS ht hst => exact hshort ht hst (by decide)
  | accept t ht hst => exact hshort ht hst (by decide)
  | submit t armed ht hst => exact hshort ht hst (by decide)
  | noconnect t ht hst => exact hshort ht hst (by decide)
  | answer t msg data ht hst hmsg hp => exact hshort ht hst (by decide)
  | answerPing t msg data ht hst hmsg hp => exact hshort ht hst (by decide)
  | fail t response' ht hst hcode => exact hshort ht hst (by decide)
  | timeout t ht ha =>
    refine ⟨hborn, fun u hu => ?_⟩
    obtain rfl := Option.some.inj hu
    exact hdone t ht
  | defer t ht =>
    refine ⟨hborn, fun u hu => ?_⟩
    obtain rfl := Option.some.inj hu
    exact hdone t ht
  | delete t ht | drain t delayed ht hd | destroy => exact ⟨hborn, fun u hu => by cases hu⟩
  | drainDead delayed ht hd => exact ⟨hborn, hdone⟩
  | forgetPing => exact ⟨hborn, hdone⟩

/-- No run does. -/
theorem LifeSteps.fixed {response : ResponseType × Option Dict × Option Bytes} (h : LifeSteps lib q l l')
    (hfixed : l.Fixed response) : l'.Fixed response :=
  invariant_of_steps (fun _ _ hstep => hstep.fixed) h hfixed

end Fixed

section Tables

variable {lib} {r r' : Reader csv} {p : Ptr} {t : Trans}

/-- The table of a response, if one has been made, is that of its data, which are gone. -/
structure Parsed (r : Reader csv) (p : Ptr) : Prop where
  untouched : r.fields.taken p = false → r.fields.responseCsv p = none
  made : r.fields.taken p = true → ∃ params raw,
    (r.sys.conn.toTransStore.life p).Fixed (.csv, params, some raw) ∧
      r.fields.responseCsv p = csv.parseInplace (cstr raw)

/-- A library whose responses are read runs as it does without. -/
theorem reading_reachable (h : (reading lib csv).Reachable r) : (monetra lib).Reachable r.sys := by
  induction h with
  | init hinit => exact .init hinit.1
  | @step r r' a _ hstep ih =>
    cases a with
    | library a =>
      obtain ⟨s, hs, rfl⟩ := Option.map_eq_some_iff.mp hstep
      exact ih.step hs
    | responseCsv p =>
      obtain ⟨t, -, rfl⟩ := Option.map_eq_some_iff.mp hstep
      exact ih

/-- `LM_trans_response_csv` returns the table of the data, whether it has made it before or not. -/
theorem transResponseCsv_eq (h : Parsed r p) (ht : r.sys.conn.heap p = some t) :
    (transResponseCsv r.fields p t).2 =
      if t.status = .done ∧ t.responseType = .csv then t.responseRaw.bind fun raw => csv.parseInplace (cstr raw)
      else none := by
  unfold transResponseCsv
  split
  · cases htaken : r.fields.taken p with
    | false =>
      rw [h.untouched htaken]
      cases hraw : t.responseRaw <;> simp [CsvFields.responseRaw, htaken, hraw]
    | true =>
      obtain ⟨params, raw, hfixed, htable⟩ := h.made htaken
      have hraw : t.responseRaw = some raw := congrArg (fun stored => stored.2.2) (hfixed.2 t ht).2
      cases hcsv : r.fields.responseCsv p with
      | none =>
        rw [hcsv] at htable
        simp [CsvFields.responseRaw, htaken, hraw, htable]
      | some table =>
        rw [hcsv] at htable
        simp [hraw, htable]
  · rfl

/-- A call for a table makes it of the data, unless it has been made. -/
theorem Parsed.responseCsv (h : Parsed r p) {q : Ptr} (ht : r.sys.conn.heap q = some t)
    (hborn : (r.sys.conn.toTransStore.life q).born) :
    Parsed { r with fields := (transResponseCsv r.fields q t).1 } p := by
  unfold transResponseCsv
  split
  · rename_i hcsv
    split
    · rename_i raw hnone hraw
      unfold CsvFields.responseRaw at hraw
      split at hraw
      · cases hraw
      · by_cases hp : p = q
        · subst hp
          refine ⟨fun htaken => ?_, fun _ => ⟨t.responseParams, raw, ⟨hborn, fun u hu => ?_⟩, ?_⟩⟩
          · simp at htaken
          · obtain rfl := Option.some.inj (ht.symm.trans hu)
            exact ⟨hcsv.1, by rw [Trans.stored, hcsv.2, hraw]⟩
          · exact Function.update_self ..
        · refine ⟨fun htaken => ?_, fun htaken => ?_⟩
          · dsimp only at htaken ⊢
            rw [Function.update_of_ne hp] at htaken ⊢
            exact h.untouched htaken
          · dsimp only at htaken ⊢
            rw [Function.update_of_ne hp] at htaken ⊢
            exact h.made htaken
    · exact h
  · exact h

/-- Every action keeps the tables. -/
theorem Parsed.step (h : Parsed r p) (hreached : (monetra lib).Reachable r.sys) {a : ReadAction}
    (hstep : readStep lib csv r a = some r') : Parsed r' p := by
  have hrunning := running_of_reachable hreached
  cases a with
  | library a =>
    obtain ⟨s, hs, rfl⟩ := Option.map_eq_some_iff.mp hstep
    have hlife := (sysStep_refines hs hrunning.link hrunning.rep).2.life hrunning.rep p
    refine ⟨h.untouched, fun htaken => ?_⟩
    obtain ⟨params, raw, hfixed, htable⟩ := h.made htaken
    exact ⟨params, raw, LifeSteps.fixed hlife hfixed, htable⟩
  | responseCsv q =>
    obtain ⟨t, ht, rfl⟩ := Option.map_eq_some_iff.mp hstep
    exact h.responseCsv ht ((hrunning.life q).timed.born_of_live ht)

/-- In every run. -/
theorem parsed_of_reachable (h : (reading lib csv).Reachable r) (p : Ptr) : Parsed r p := by
  refine System.Reachable.invariant (P := fun r => Parsed r p) (reading lib csv) ?_
    (fun r a r' hr hparsed hstep => ?_) h
  · rintro ⟨s, fields⟩ ⟨-, rfl⟩
    exact ⟨fun _ => rfl, fun htaken => Bool.noConfusion htaken⟩
  · exact hparsed.step (reading_reachable hr) hstep

/-- What carries data reads as these data. -/
theorem readsAs_of_carries (h : Parsed r p) (ht : r.sys.conn.heap p = some t) (hdone : t.status = .done)
    {data : Bytes} (hcarries : t.carries lib data) : ReadsAs lib r.fields p t data := by
  obtain ⟨htype, hparams, hraw⟩ := hcarries
  refine ⟨htype, ?_, ?_, ?_⟩
  · rw [transResponseDict, htype]
    by_cases hkv : connDetermineResponseType data = .kv
    · simp [hdone, hkv, hparams (htype.trans hkv)]
    · simp [hkv]
  · rw [transResponseCsv_eq h ht, htype]
    by_cases hcsv : connDetermineResponseType data = .csv
    · have hdata := hraw (by simp [htype, hcsv])
      simp [hdone, hcsv, hdata]
    · simp [hcsv]
  · rw [transResponseRaw, CsvFields.responseRaw, htype]
    by_cases hkv : connDetermineResponseType data = .kv
    · simp [hkv]
    · simp [hdone, hkv, hraw (by simp [htype, hkv])]

/-- Data that the parser has taken stay away. -/
theorem taken_transResponseCsv {f : CsvFields csv} (q : Ptr) (u : Trans) (h : f.taken p = true) :
    (transResponseCsv f q u).1.taken p = true := by
  unfold transResponseCsv
  split
  · split
    · by_cases hp : p = q
      · rw [hp]
        exact Function.update_self ..
      · dsimp only
        rwa [Function.update_of_ne hp]
    · exact h
  · exact h

variable (lib) in
/-- What stays of a response that has been read: the transaction is done with it or gone, and its data do not
come back. -/
structure Keeps (response : ResponseType × Option Dict × Option Bytes) (taken : Bool) (p : Ptr)
    (r : Reader csv) : Prop where
  reachable : (reading lib csv).Reachable r
  fixed : (r.sys.conn.toTransStore.life p).Fixed response
  gone : taken = true → r.fields.taken p = true

/-- Every action keeps it. -/
theorem Keeps.step {response : ResponseType × Option Dict × Option Bytes} {taken : Bool}
    (h : Keeps lib response taken p r) {a : ReadAction} (hstep : readStep lib csv r a = some r') :
    Keeps lib response taken p r' := by
  refine ⟨h.reachable.step hstep, ?_, fun htaken => ?_⟩
  · have hrunning := running_of_reachable (reading_reachable h.reachable)
    cases a with
    | library a =>
      obtain ⟨s, hs, rfl⟩ := Option.map_eq_some_iff.mp hstep
      exact LifeSteps.fixed ((sysStep_refines hs hrunning.link hrunning.rep).2.life hrunning.rep p) h.fixed
    | responseCsv q =>
      obtain ⟨t, -, rfl⟩ := Option.map_eq_some_iff.mp hstep
      exact h.fixed
  · cases a with
    | library a =>
      obtain ⟨s, hs, rfl⟩ := Option.map_eq_some_iff.mp hstep
      exact h.gone htaken
    | responseCsv q =>
      obtain ⟨t, -, rfl⟩ := Option.map_eq_some_iff.mp hstep
      exact taken_transResponseCsv q t (h.gone htaken)

end Tables

/-- Every response reads as the data of the server, or as the denial that a lost connection makes up. The
table of a CSV response is the same at every call, and its data can be read until the first one. -/
theorem responses_read {r : Reader csv} (h : (reading lib csv).Reachable r) {p : Ptr} {t : Trans}
    (ht : r.sys.conn.heap p = some t) (hdone : t.status = .done) :
    (∃ msg data, .answered p .pending msg ∈ r.sys.conn.trace ∧ readMsg lib msg = some (t.transId, data) ∧
      ReadsAs lib r.fields p t data) ∨
    (t.denied ∧ (transResponseCsv r.fields p t).2 = none ∧ transResponseRaw r.fields p t = none) := by
  have hrunning := running_of_reachable (reading_reachable h)
  rcases (hrunning.life p).answered t ht hdone with ⟨msg, data, hmem, hmsg, hcarries⟩ | hdenied
  · exact Or.inl ⟨msg, data, (List.mem_filter.mp hmem).1, hmsg,
      readsAs_of_carries (parsed_of_reachable h p) ht hdone hcarries⟩
  · refine Or.inr ⟨hdenied, ?_, ?_⟩
    · simp [transResponseCsv, hdenied.1]
    · simp [transResponseRaw, hdenied.1]

/-- No response ever changes. Whatever happens between two reads of a transaction that is done, its type,
its dictionary, its keys and its table are the same, and so are its data unless a table has been made of
them. -/
theorem response_never_changes {r r' : Reader csv} (h : (reading lib csv).Reachable r)
    (actions : List ReadAction) (hrun : (reading lib csv).run r actions = some r') {p : Ptr} {t t' : Trans}
    (ht : r.sys.conn.heap p = some t) (hdone : t.status = .done) (ht' : r'.sys.conn.heap p = some t') :
    t'.status = .done ∧ transResponseType t' = transResponseType t ∧
      transResponseDict t' = transResponseDict t ∧ transResponseKeys t' = transResponseKeys t ∧
      (transResponseCsv r'.fields p t').2 = (transResponseCsv r.fields p t).2 ∧
      transResponseRaw r'.fields p t' =
        if r'.fields.taken p then none else transResponseRaw r.fields p t := by
  have hlife := (running_of_reachable (reading_reachable h)).life p
  have hfixed : (r.sys.conn.toTransStore.life p).Fixed t.stored := by
    refine ⟨hlife.timed.born_of_live ht, fun u hu => ?_⟩
    obtain rfl := Option.some.inj (ht.symm.trans hu)
    exact ⟨hdone, rfl⟩
  obtain ⟨-, hkeeps⟩ := (reading lib csv).run_of_simulated (fun s a s' hs hstep => ⟨hstep, hs.step hstep⟩)
    (⟨h, hfixed, id⟩ : Keeps lib t.stored (r.fields.taken p) p r) actions hrun
  obtain ⟨hdone', hstored⟩ := hkeeps.fixed.2 t' ht'
  have htype : t'.responseType = t.responseType := congrArg Prod.fst hstored
  have hparams : t'.responseParams = t.responseParams := congrArg (fun stored => stored.2.1) hstored
  have hraw : t'.responseRaw = t.responseRaw := congrArg (fun stored => stored.2.2) hstored
  refine ⟨hdone', htype, ?_, ?_, ?_, ?_⟩
  · simp only [transResponseDict, hdone, hdone', htype, hparams]
  · simp only [transResponseKeys, hdone, hdone', htype, hparams]
  · rw [transResponseCsv_eq (parsed_of_reachable hkeeps.reachable p) ht',
      transResponseCsv_eq (parsed_of_reachable h p) ht, hdone, hdone', htype, hraw]
  · simp only [transResponseRaw, CsvFields.responseRaw, hdone, hdone', htype, hraw]
    cases htaken : r.fields.taken p with
    | false => split <;> simp_all
    | true => simp [hkeeps.gone htaken]

section Legacy

variable {lib}

/-- The transaction that an identifier names on a handle, with its pointer. -/
def legacyNamed (h : Option MConn) (identifier : ℕ) : Option (Ptr × Trans) :=
  h.bind fun m => (connGetTransByInternalId m.sys.conn identifier).bind fun p =>
    (m.sys.conn.heap p).map fun t => (p, t)

/-- It is live. -/
theorem heap_of_legacyNamed {m : MConn} {identifier : ℕ} {p : Ptr} {t : Trans}
    (h : legacyNamed (some m) identifier = some (p, t)) : m.sys.conn.heap p = some t := by
  rw [legacyNamed, Option.bind_some] at h
  obtain ⟨q, -, hmap⟩ := Option.bind_eq_some_iff.mp h
  obtain ⟨u, hu, heq⟩ := Option.map_eq_some_iff.mp hmap
  obtain ⟨rfl, rfl⟩ := Prod.mk.inj heq
  exact hu

/-- `M_GetCommaDelimited`. -/
def mGetCommaDelimited (f : CsvFields csv) (h : Option MConn) (identifier : ℕ) : Option Bytes :=
  (legacyNamed h identifier).bind fun (p, t) => transResponseRaw f p t

/-- `M_GetCSVHandle`. -/
def mGetCSVHandle (f : CsvFields csv) (h : Option MConn) (identifier : ℕ) : CsvFields csv × Option csv.Csv :=
  match legacyNamed h identifier with
  | none => (f, none)
  | some (p, t) => transResponseCsv f p t

/-- A function that looks something up in the table, unless its arguments are bad. -/
def mTableLookup {β : Type} (bad : Bool) (f : CsvFields csv) (h : Option MConn) (identifier : ℕ) (failed : β)
    (look : csv.Csv → β) : CsvFields csv × β :=
  if bad then (f, failed)
  else
    let handle := mGetCSVHandle f h identifier
    (handle.1, handle.2.elim failed look)

/-- `M_GetCell`. -/
def mGetCell (f : CsvFields csv) (h : Option MConn) (identifier : ℕ) (column : Bytes) (row : ℤ) :
    CsvFields csv × Option Bytes :=
  mTableLookup (column = [] ∨ row < 0) f h identifier none fun table => csv.getCell table row.toNat column

/-- `M_GetCellByNum`. -/
def mGetCellByNum (f : CsvFields csv) (h : Option MConn) (identifier : ℕ) (column row : ℤ) :
    CsvFields csv × Option Bytes :=
  mTableLookup (column < 0 ∨ row < 0) f h identifier none fun table =>
    csv.getCellbynum table row.toNat column.toNat

/-- `M_GetHeader`. -/
def mGetHeader (f : CsvFields csv) (h : Option MConn) (identifier : ℕ) (columnNum : ℤ) :
    CsvFields csv × Option Bytes :=
  mTableLookup (columnNum < 0) f h identifier none fun table => csv.getHeader table columnNum.toNat

/-- `M_NumColumns`, with its conversion from `size_t` to `int`. -/
def mNumColumns (f : CsvFields csv) (h : Option MConn) (identifier : ℕ) : CsvFields csv × ℤ :=
  mTableLookup false f h identifier 0 fun table => toInt32 (csv.getNumcols table)

variable (lib) in
/-- `M_NumRows`, with its conversion from `size_t` to a `long` of the same width. -/
def mNumRows (f : CsvFields csv) (h : Option MConn) (identifier : ℕ) : CsvFields csv × ℤ :=
  mTableLookup false f h identifier 0 fun table => Int.bmod (csv.getNumrows table) (2 ^ lib.sizeBits)

/-- What the legacy functions read of the data of a response: the table that the library makes of them. -/
structure TableReads (lib : Mstdlib) (f : CsvFields csv) (h : Option MConn) (identifier : ℕ)
    (table : Option csv.Csv) : Prop where
  cell : ∀ column row, column ≠ [] → 0 ≤ row →
    (mGetCell f h identifier column row).2 = table.bind fun table => csv.getCell table row.toNat column
  cellByNum : ∀ column row, 0 ≤ column → 0 ≤ row → (mGetCellByNum f h identifier column row).2 =
    table.bind fun table => csv.getCellbynum table row.toNat column.toNat
  header : ∀ column, 0 ≤ column →
    (mGetHeader f h identifier column).2 = table.bind fun table => csv.getHeader table column.toNat
  columns : (mNumColumns f h identifier).2 = table.elim 0 fun table => toInt32 (csv.getNumcols table)
  rows : (mNumRows lib f h identifier).2 =
    table.elim 0 fun table => Int.bmod (csv.getNumrows table) (2 ^ lib.sizeBits)

variable {f : CsvFields csv} {h : Option MConn} {identifier : ℕ} {table : Option csv.Csv}

/-- All the functions read the table that the handle gives them. -/
theorem tableReads_of_handle (lib : Mstdlib) (hhandle : (mGetCSVHandle f h identifier).2 = table) :
    TableReads lib f h identifier table := by
  have hlook : ∀ {β : Type} (bad : Bool) (failed : β) (look : csv.Csv → β), bad = false →
      (mTableLookup bad f h identifier failed look).2 = table.elim failed look := by
    intro β bad failed look hgood
    simp [mTableLookup, hgood, hhandle]
  have hbind : ∀ look : csv.Csv → Option Bytes, table.elim none look = table.bind look := fun look => by
    cases table <;> rfl
  refine ⟨fun column row hcolumn hrow => ?_, fun column row hcolumn hrow => ?_, fun column hcolumn => ?_,
    ?_, ?_⟩
  · exact (hlook _ none _ (by simpa using ⟨hcolumn, hrow⟩)).trans (hbind _)
  · exact (hlook _ none _ (by simpa using ⟨hcolumn, hrow⟩)).trans (hbind _)
  · exact (hlook _ none _ (by simpa using hcolumn)).trans (hbind _)
  · exact hlook false 0 _ rfl
  · exact hlook false 0 _ rfl

/-- `M_GetCSVHandle` on a transaction with a CSV response. -/
theorem mGetCSVHandle_eq {m : MConn} {p : Ptr} {t : Trans} {data : Bytes}
    (hreached : (reading lib csv).Reachable ⟨m.sys, f⟩) (hnamed : legacyNamed (some m) identifier = some (p, t))
    (hdone : t.status = .done) (hcsv : t.responseType = .csv) (hraw : t.responseRaw = some data) :
    (mGetCSVHandle f (some m) identifier).2 = csv.parseInplace (cstr data) ∧
      (mGetCSVHandle f (some m) identifier).1.taken p = true ∧
      (reading lib csv).Reachable ⟨m.sys, (mGetCSVHandle f (some m) identifier).1⟩ := by
  have ht := heap_of_legacyNamed hnamed
  have hparsed := parsed_of_reachable hreached p
  have hhandle : mGetCSVHandle f (some m) identifier = transResponseCsv f p t := by rw [mGetCSVHandle, hnamed]
  rw [hhandle]
  refine ⟨?_, ?_, ?_⟩
  · have htable := transResponseCsv_eq hparsed ht
    simpa [hdone, hcsv, hraw] using htable
  · cases htaken : f.taken p with
    | true => exact taken_transResponseCsv p t htaken
    | false =>
      have hnone := hparsed.untouched htaken
      dsimp only at hnone
      simp [transResponseCsv, CsvFields.responseRaw, hdone, hcsv, hraw, htaken, hnone]
  · have hstep : (reading lib csv).step ⟨m.sys, f⟩ (.responseCsv p) =
        some ⟨m.sys, (transResponseCsv f p t).1⟩ := by
      simp only [reading, readStep, ht, Option.map_some]
    exact hreached.step hstep

end Legacy

/-- The legacy functions for tables agree. Whichever of them is called, in whatever order, they read one and
the same table, that of the data the server has sent; `M_GetCommaDelimited` has these data until the first of
them is called, and nothing from then on. -/
theorem legacy_table_reads {m : MConn} {f : CsvFields csv} (h : (reading lib csv).Reachable ⟨m.sys, f⟩)
    {identifier : ℕ} {p : Ptr} {t : Trans} (hnamed : legacyNamed (some m) identifier = some (p, t))
    (hdone : t.status = .done) (hcsv : t.responseType = .csv) :
    ∃ msg data, .answered p .pending msg ∈ m.sys.conn.trace ∧ readMsg lib msg = some (t.transId, data) ∧
      TableReads lib f (some m) identifier (csv.parseInplace (cstr data)) ∧
      mGetCommaDelimited f (some m) identifier = (if f.taken p then none else some data) ∧
      TableReads lib (mGetCSVHandle f (some m) identifier).1 (some m) identifier
        (csv.parseInplace (cstr data)) ∧
      mGetCommaDelimited (mGetCSVHandle f (some m) identifier).1 (some m) identifier = none := by
  have ht := heap_of_legacyNamed hnamed
  rcases ((running_of_reachable (reading_reachable h)).life p).answered t ht hdone with
    ⟨msg, data, hmem, hmsg, -, -, hraw⟩ | hdenied
  · have hdata : t.responseRaw = some data := hraw (by simp [hcsv])
    obtain ⟨htable, htaken, hnext⟩ := mGetCSVHandle_eq h hnamed hdone hcsv hdata
    obtain ⟨htable', -, -⟩ := mGetCSVHandle_eq hnext hnamed hdone hcsv hdata
    refine ⟨msg, data, (List.mem_filter.mp hmem).1, hmsg, tableReads_of_handle lib htable, ?_,
      tableReads_of_handle lib htable', ?_⟩
    · simp [mGetCommaDelimited, hnamed, transResponseRaw, CsvFields.responseRaw, hdone, hcsv, hdata]
    · simp [mGetCommaDelimited, hnamed, transResponseRaw, CsvFields.responseRaw, htaken]
  · rw [hdenied.1] at hcsv
    cases hcsv

/-- Tables of lines and commas, without quotes. -/
def plainCsv : CsvLib where
  Csv := List (List Bytes)
  parseInplace data := some ((data.splitOn lf).map (List.splitOn comma))
  getCell rows row column := (rows.head?.bind (List.idxOf? column)).bind fun i => (rows.tail[row]?).bind (·[i]?)
  getCellbynum rows row column := (rows.tail[row]?).bind (·[column]?)
  getHeader rows column := rows.head?.bind (·[column]?)
  getNumcols rows := rows.head?.elim 0 List.length
  getNumrows rows := rows.length - 1

/-- A new connection, of which nothing has been read. -/
def startedReader : Reader plainCsv := ⟨started, ⟨fun _ => none, fun _ => false⟩⟩

/-- A report with one line comes back instead of an approval. -/
def saleReported : Reader plainCsv :=
  ((reading reference plainCsv).run startedReader (sendSale.map .library ++
    [.library (.event (.read (responseFrame 7 (ascii "id,amt\n1,99")))), .library .deliver,
      .library .callbackReturn, .library .drain, .library .finish])).get (by decide)

/-- It is reachable. -/
theorem saleReported_reachable : (reading reference plainCsv).Reachable saleReported :=
  System.reachable_get (reading reference plainCsv) (s := startedReader) ⟨started_init reference, rfl⟩ _ _

/-- The transaction with the report. -/
def reportedSale : Trans := (saleReported.sys.conn.heap 0).get (by decide)

/-- The report reads as the data of the server. -/
theorem responses_read_sale :
    (∃ msg data, .answered 0 .pending msg ∈ saleReported.sys.conn.trace ∧
      readMsg reference msg = some (reportedSale.transId, data) ∧
      ReadsAs reference saleReported.fields 0 reportedSale data) ∨
    (reportedSale.denied ∧ (transResponseCsv saleReported.fields 0 reportedSale).2 = none ∧
      transResponseRaw saleReported.fields 0 reportedSale = none) :=
  responses_read reference saleReported_reachable (show _ = some reportedSale from (Option.some_get _).symm)
    (by decide)

/-- The report, after its table has been asked for. -/
def saleTabled : Reader plainCsv :=
  ((reading reference plainCsv).run saleReported [.responseCsv 0]).get (by decide)

/-- The table is the same at the second call, and the data are gone. -/
theorem response_never_changes_sale :
    (transResponseCsv saleTabled.fields 0 reportedSale).2 =
        (transResponseCsv saleReported.fields 0 reportedSale).2 ∧
      transResponseRaw saleReported.fields 0 reportedSale = some (ascii "id,amt\n1,99") ∧
      transResponseRaw saleTabled.fields 0 reportedSale = none := by
  obtain ⟨-, -, -, -, htable, -⟩ := response_never_changes reference saleReported_reachable [.responseCsv 0]
    (Option.some_get _).symm (show _ = some reportedSale from (Option.some_get _).symm) (by decide)
    (show saleTabled.sys.conn.heap 0 = some reportedSale by decide)
  exact ⟨htable, by decide, by decide⟩

/-- A cell of the report. -/
theorem legacy_table_reads_sale :
    ∃ msg data, .answered 0 .pending msg ∈ saleReported.sys.conn.trace ∧
      readMsg reference msg = some (7, data) ∧
      TableReads reference saleReported.fields (some ⟨saleReported.sys, true, false⟩) 7
        (plainCsv.parseInplace (cstr data)) := by
  obtain ⟨msg, data, hmem, hmsg, hreads, -⟩ := legacy_table_reads reference
    (m := ⟨saleReported.sys, true, false⟩) saleReported_reachable
    (show legacyNamed _ 7 = some (0, reportedSale) by decide) (by decide) (by decide)
  exact ⟨msg, data, hmem, hmsg, hreads⟩

end LibMonetra
