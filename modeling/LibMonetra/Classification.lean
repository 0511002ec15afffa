import LibMonetra.Parse

/-!
# What type a response has

`LM_conn_determine_response_type` states its rules in a comment: the first byte within a window of 32
that is no part of a key decides. The scan of the code starts after the first byte, which it has only
compared with an equals sign and a comma.
-/

namespace LibMonetra

/-- A byte that the scan passes over. -/
def passedOver (b : UInt8) : Bool := isAlnumSp b || b == dquote || b == 0x5f || b == 0x2d

/-- The type for which a byte decides. -/
def decidedType (b : UInt8) : ResponseType :=
  if b = equals then .kv else if b = comma ∨ b = cr ∨ b = lf then .csv else .bulk

/-- The first byte that decides. -/
def decider (bytes : Bytes) : Option UInt8 := bytes.find? fun b => !passedOver b

/-- The type that the comment of `LM_conn_determine_response_type` describes. -/
def documentedResponseType (msg : Bytes) : ResponseType :=
  if msg.head? = none ∨ msg.head? = some equals ∨ msg.head? = some comma then .bulk
  else (decider (msg.take 32)).elim .bulk decidedType

/-- The scan finds the first byte that decides. -/
theorem determineResponseTypeScan_eq (bytes : Bytes) :
    determineResponseTypeScan bytes = (decider bytes).elim .bulk decidedType := by
  induction bytes with
  | nil => rfl
  | cons b rest ih =>
    have hpassed : passedOver b = true → b ≠ equals ∧ b ≠ comma ∧ b ≠ cr ∧ b ≠ lf := by
      intro hb
      refine ⟨?_, ?_, ?_, ?_⟩ <;> rintro rfl <;> exact absurd hb (by decide)
    unfold determineResponseTypeScan decider
    rw [List.find?_cons]
    cases hb : passedOver b with
    | true =>
      obtain ⟨hequals, hcomma, hcr, hlf⟩ := hpassed hb
      have hscan : determineResponseTypeScan rest =
          (rest.find? fun b => !passedOver b).elim .bulk decidedType := ih
      simp only [passedOver, Bool.or_eq_true, beq_iff_eq] at hb
      simp only [hequals, hcomma, hcr, hlf, or_self, if_false, Bool.not_true]
      rcases hb with ((hb | hb) | hb) | hb <;> simp [hb, hscan]
    | false =>
      simp only [passedOver, Bool.or_eq_false_iff, beq_eq_false_iff_ne] at hb
      obtain ⟨⟨⟨halnum, hdquote⟩, hunderscore⟩, hhyphen⟩ := hb
      simp only [Bool.not_false, Option.elim_some, decidedType]
      by_cases hequals : b = equals
      · simp [hequals]
      · by_cases hcomma : b = comma
        · simp [hcomma]
        · simp [hequals, hcomma, hdquote, hunderscore, hhyphen, halnum]

/-- What the code does with a message that is not empty. -/
theorem connDetermineResponseType_cons (b : UInt8) (rest : Bytes) :
    connDetermineResponseType (b :: rest) =
      if b = equals ∨ b = comma then .bulk else (decider (rest.take 31)).elim .bulk decidedType := by
  rw [connDetermineResponseType, List.take_succ_cons]
  simp only [determineResponseTypeScan_eq]

/-- What the comment says about a message that is not empty. -/
theorem documentedResponseType_cons (b : UInt8) (rest : Bytes) :
    documentedResponseType (b :: rest) =
      if b = equals ∨ b = comma then .bulk
      else if passedOver b then (decider (rest.take 31)).elim .bulk decidedType
      else decidedType b := by
  unfold documentedResponseType decider
  rw [List.take_succ_cons, List.find?_cons]
  cases hb : passedOver b <;> simp

/-- A byte decides for CSV when it is a comma or ends a line. -/
theorem decidedType_eq_csv_iff (b : UInt8) :
    decidedType b = .csv ↔ b = comma ∨ b = cr ∨ b = lf := by
  unfold decidedType
  split
  · rename_i hequals
    subst hequals
    decide
  · split
    · simp_all
    · rename_i hother
      simp [hother]

/-- A byte decides against both formats when it belongs to neither. -/
theorem decidedType_eq_bulk_iff (b : UInt8) :
    decidedType b = .bulk ↔ b ≠ equals ∧ b ≠ comma ∧ b ≠ cr ∧ b ≠ lf := by
  unfold decidedType
  by_cases hequals : b = equals
  · simp [hequals]
  · by_cases hcsv : b = comma ∨ b = cr ∨ b = lf
    · rw [if_neg hequals, if_pos hcsv]
      constructor
      · intro h
        cases h
      · rintro ⟨-, hcomma, hcr, hlf⟩
        exact absurd hcsv (not_or.mpr ⟨hcomma, not_or.mpr ⟨hcr, hlf⟩⟩)
    · rw [if_neg hequals, if_neg hcsv]
      rw [not_or, not_or] at hcsv
      exact ⟨fun _ => ⟨hequals, hcsv⟩, fun _ => rfl⟩

/-- A first byte that does not decide by itself, or for which the bytes after it decide the same: a
line end before CSV, and any other byte before neither format. -/
def FirstByteImmaterial (b : UInt8) (rest : Bytes) : Prop :=
  passedOver b ∨ b = equals ∨ b = comma ∨
    ((b = cr ∨ b = lf) ∧ ∃ d, decider (rest.take 31) = some d ∧ (d = comma ∨ d = cr ∨ d = lf)) ∨
    (b ≠ cr ∧ b ≠ lf ∧
      ∀ d, decider (rest.take 31) = some d → d ≠ equals ∧ d ≠ comma ∧ d ≠ cr ∧ d ≠ lf)

/-- The classifier follows its comment, except where a first byte that should decide is passed by. -/
theorem connDetermineResponseType_documented_iff (msg : Bytes) :
    connDetermineResponseType msg = documentedResponseType msg ↔
      ∀ b rest, msg = b :: rest → FirstByteImmaterial b rest := by
  cases msg with
  | nil => exact ⟨fun _ b rest h => (by cases h), fun _ => rfl⟩
  | cons b rest =>
    have hforall : (∀ b' rest', b :: rest = b' :: rest' → FirstByteImmaterial b' rest') ↔
        FirstByteImmaterial b rest := by
      constructor
      · intro h
        exact h b rest rfl
      · rintro h b' rest' heq
        cases heq
        exact h
    rw [hforall, connDetermineResponseType_cons, documentedResponseType_cons, FirstByteImmaterial]
    by_cases hfirst : b = equals ∨ b = comma
    · simp only [if_pos hfirst, true_iff]
      exact Or.inr (or_assoc.mp (Or.inl hfirst))
    · rw [if_neg hfirst, if_neg hfirst]
      rw [not_or] at hfirst
      cases hpassed : passedOver b with
      | true => simp
      | false =>
        by_cases hline : b = cr ∨ b = lf
        · have hcsv : decidedType b = .csv := (decidedType_eq_csv_iff b).mpr (Or.inr hline)
          have hother : ¬(b ≠ cr ∧ b ≠ lf ∧ ∀ d, decider (rest.take 31) = some d →
              d ≠ equals ∧ d ≠ comma ∧ d ≠ cr ∧ d ≠ lf) := by
            rintro ⟨hcr, hlf, -⟩
            exact hline.elim hcr hlf
          rw [if_neg Bool.false_ne_true, hcsv]
          simp only [hother, or_false, hfirst.1, hfirst.2, hline, false_or, true_and,
            Bool.false_eq_true]
          cases decider (rest.take 31) with
          | none => simp
          | some d => simp [decidedType_eq_csv_iff]
        · rw [not_or] at hline
          have hbulk : decidedType b = .bulk :=
            (decidedType_eq_bulk_iff b).mpr ⟨hfirst.1, hfirst.2, hline.1, hline.2⟩
          rw [if_neg Bool.false_ne_true, hbulk]
          simp only [hfirst.1, hfirst.2, hline.1, hline.2, or_self, false_and, false_or, ne_eq,
            not_false_eq_true, true_and, Bool.false_eq_true]
          cases decider (rest.take 31) with
          | none => simp
          | some d => simp [decidedType_eq_bulk_iff]

/-- A page of markup is taken for key/value data because of its first attribute. -/
theorem connDetermineResponseType_not_documented :
    ¬∀ msg, connDetermineResponseType msg = documentedResponseType msg :=
  fun h => absurd (h (ascii "<a b=c>")) (by decide)

end LibMonetra
