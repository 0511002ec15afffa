import LibMonetra.Reference
import Mathlib.Data.Set.Basic
import Mathlib.Order.Interval.Set.Defs

/-!
# Random amounts

`monetra_cli` takes the range of its random amounts from an option `[min:]max`, which
`cli_parse_random_amount` turns into the bounds of `M_rand_range`. The upper bound of a range is
exclusive, amounts of 8.00 to 8.99 are never to be used, and the generator in `cli_trans_create` draws
until it has another one.
-/

namespace LibMonetra

/-- What `M_parser_read_decimal` and `M_decimal_to_int(.., 2)` read: an amount in cents, and the rest of
the string. -/
abbrev DecimalReader := Bytes → Option (ℤ × Bytes)

/-- The values that `M_rand_range` may return for its bounds. -/
abbrev RandRange := ℕ → ℕ → Set ℕ

/-- The conversion to `M_uint64`. -/
def toUInt64 (z : ℤ) : ℕ := (z % 2 ^ 64).toNat

def colon : UInt8 := 0x3a

/-- Whether an amount delays the server. -/
def SlowTrigger (amount : ℕ) : Prop := 800 ≤ amount ∧ amount ≤ 899

instance (amount : ℕ) : Decidable (SlowTrigger amount) := inferInstanceAs (Decidable (_ ∧ _))

/-- The end of `cli_parse_random_amount`, from both amounts as they were read. -/
def randomAmountBounds (min max : ℤ) : Option (ℕ × ℕ) :=
  let minAmount := toUInt64 min
  let maxAmount := (toUInt64 max + 1) % 2 ^ 64
  if maxAmount < minAmount then none
  else if 800 ≤ minAmount ∧ maxAmount ≤ 899 then none
  else
    let minAmount := if SlowTrigger minAmount then 900 else minAmount
    let maxAmount := if SlowTrigger maxAmount then minAmount + 1 else maxAmount
    some (minAmount, maxAmount)

/-- `cli_parse_random_amount`: `min_amount` and `max_amount`. -/
def cliParseRandomAmount (readDecimal : DecimalReader) (string : Bytes) : Option (ℕ × ℕ) :=
  match readDecimal string with
  | none => none
  | some (min, []) => some (1, toUInt64 min)
  | some (min, byte :: rest) =>
    if byte ≠ colon then none
    else
      match readDecimal rest with
      | none => none
      | some (max, _) => randomAmountBounds min max

/-- The amounts that the generator in `cli_trans_create` can produce. -/
def generated (randRange : RandRange) (bounds : ℕ × ℕ) : Set ℕ :=
  {a | bounds.1 ≠ 0 ∧ bounds.2 ≠ 0 ∧ a ∈ randRange bounds.1 bounds.2 ∧ ¬SlowTrigger a}

/-- What an option asks for, in cents. -/
inductive AmountOption
  | upTo (max : ℕ)
  | between (min max : ℕ)
  deriving DecidableEq, Repr

/-- The lowest amount that an option allows. -/
def AmountOption.low : AmountOption → ℕ
  | .upTo _ => 1
  | .between min _ => min

/-- The highest amount that an option allows. -/
def AmountOption.high : AmountOption → ℕ
  | .upTo max => max
  | .between _ max => max

/-- The amounts that an option asks for. -/
def AmountOption.requested (o : AmountOption) : Set ℕ :=
  {a | o.low ≤ a ∧ a ≤ o.high ∧ ¬SlowTrigger a}

/-- A string spells an option: it has one amount, or two with a colon between them. -/
inductive Spells (readDecimal : DecimalReader) : Bytes → AmountOption → Prop
  | upTo (string : Bytes) (max : ℕ) : readDecimal string = some ((max : ℤ), []) → max < 2 ^ 63 →
      Spells readDecimal string (.upTo max)
  | between (string rest : Bytes) (min max : ℕ) : readDecimal string = some ((min : ℤ), colon :: rest) →
      readDecimal rest = some ((max : ℤ), []) → min < 2 ^ 63 → max < 2 ^ 63 →
      Spells readDecimal string (.between min max)

/-- The bounds of an option, as they are read. -/
def AmountOption.bounds : AmountOption → Option (ℕ × ℕ)
  | .upTo max => some (1, max)
  | .between min max =>
    if max + 1 < min then none
    else if 800 ≤ min ∧ max + 1 ≤ 899 then none
    else
      let low := if SlowTrigger min then 900 else min
      some (low, if SlowTrigger (max + 1) then low + 1 else max + 1)

/-- An amount within the range of `M_int64` is the same as an `M_uint64`. -/
theorem toUInt64_natCast {n : ℕ} (h : n < 2 ^ 63) : toUInt64 n = n := by
  unfold toUInt64
  omega

/-- The option decides what `cli_parse_random_amount` returns. -/
theorem cliParseRandomAmount_eq {readDecimal : DecimalReader} {string : Bytes} {o : AmountOption}
    (h : Spells readDecimal string o) : cliParseRandomAmount readDecimal string = o.bounds := by
  cases h with
  | upTo max hread hmax =>
    rw [cliParseRandomAmount, hread]
    simp only [AmountOption.bounds, toUInt64_natCast hmax]
  | between rest min max hread hrest hmin hmax =>
    have hnext : (max + 1) % 2 ^ 64 = max + 1 := Nat.mod_eq_of_lt (by omega)
    rw [cliParseRandomAmount, hread]
    simp only [ne_eq, not_true_eq_false, if_false, hrest, randomAmountBounds, AmountOption.bounds,
      toUInt64_natCast hmin, toUInt64_natCast hmax, hnext]

/-- The option is served as it was asked for: what the generator can produce is what was requested and
is not empty, and an option without an amount is turned down. -/
structure AmountsServed (readDecimal : DecimalReader) (randRange : RandRange) (string : Bytes)
    (o : AmountOption) : Prop where
  accepted : ∀ bounds, cliParseRandomAmount readDecimal string = some bounds →
    generated randRange bounds = o.requested ∧ o.requested.Nonempty
  refused : o.high < o.low ∨ o.requested = ∅ → cliParseRandomAmount readDecimal string = none

section Range

variable {randRange : RandRange} (hrange : ∀ lo hi, lo < hi → randRange lo hi = Set.Ico lo hi)
include hrange

/-- Between proper bounds the generator can produce every amount that does not delay the server. -/
theorem mem_generated_iff {lo hi : ℕ} (hlo : 0 < lo) (hlt : lo < hi) (a : ℕ) :
    a ∈ generated randRange (lo, hi) ↔ lo ≤ a ∧ a < hi ∧ ¬SlowTrigger a := by
  simp only [generated, Set.mem_ofPred_eq, hrange lo hi hlt, Set.mem_Ico]
  constructor
  · rintro ⟨-, -, ⟨hlow, hhigh⟩, hslow⟩
    exact ⟨hlow, hhigh, hslow⟩
  · rintro ⟨hlow, hhigh, hslow⟩
    exact ⟨by omega, by omega, ⟨hlow, hhigh⟩, hslow⟩

/-- The bounds serve an option: they generate what it asks for, and it asks for something. -/
def BoundsServe (randRange : RandRange) (bounds : ℕ × ℕ) (o : AmountOption) : Prop :=
  generated randRange bounds = o.requested ∧ o.requested.Nonempty

/-- Proper bounds serve an option when they contain what it asks for and nothing else. -/
theorem boundsServe_iff {lo hi : ℕ} {o : AmountOption} (hlo : 0 < lo) (hlt : lo < hi) :
    BoundsServe randRange (lo, hi) o ↔
      (∀ a, (lo ≤ a ∧ a < hi ∧ ¬SlowTrigger a) ↔ (o.low ≤ a ∧ a ≤ o.high ∧ ¬SlowTrigger a)) ∧
        ∃ a, o.low ≤ a ∧ a ≤ o.high ∧ ¬SlowTrigger a := by
  refine and_congr ?_ Iff.rfl
  rw [Set.ext_iff]
  exact forall_congr' fun a => iff_congr (mem_generated_iff hrange hlo hlt a) Iff.rfl

/-- A maximum alone is never drawn itself, which is right only for one that delays the server. -/
theorem upTo_served_iff (max : ℕ) : BoundsServe randRange (1, max) (.upTo max) ↔
    SlowTrigger max ∨ (max = 1 ∧ ∀ a, a ∈ randRange 1 1 ∧ ¬SlowTrigger a ↔ a = 1) := by
  rcases Nat.lt_or_ge 1 max with hlarge | hsmall
  · rw [boundsServe_iff hrange (by omega) hlarge]
    simp only [AmountOption.low, AmountOption.high]
    constructor
    · rintro ⟨hsame, -⟩
      have hmax := hsame max
      unfold SlowTrigger at hmax ⊢
      omega
    · intro hslow
      replace hslow : SlowTrigger max := hslow.resolve_right fun h => by omega
      refine ⟨fun a => ?_, 1, by omega, by omega, by decide⟩
      unfold SlowTrigger at hslow ⊢
      omega
  · obtain rfl | rfl : max = 0 ∨ max = 1 := by omega
    · refine iff_of_false ?_ ?_
      · rintro ⟨-, a, hlow, hhigh, -⟩
        simp only [AmountOption.low, AmountOption.high] at hlow hhigh
        omega
      · rintro (hslow | ⟨hone, -⟩)
        · exact absurd hslow (by decide)
        · cases hone
    · have hone : ∀ a, a ∈ (AmountOption.upTo 1).requested ↔ a = 1 := by
        intro a
        change 1 ≤ a ∧ a ≤ 1 ∧ ¬SlowTrigger a ↔ a = 1
        unfold SlowTrigger
        omega
      have hslow : ¬SlowTrigger 1 := by decide
      simp only [BoundsServe, hslow, false_or, true_and, Set.ext_iff, hone]
      constructor
      · rintro ⟨hsame, -⟩ a
        rw [← hsame a]
        simp [generated]
      · intro hall
        refine ⟨fun a => ?_, 1, (hone 1).mpr rfl⟩
        rw [← hall a]
        simp [generated]

/-- The bounds of a minimum that delays the server. -/
theorem slowMin_served_iff {min max : ℕ} (hslow : SlowTrigger min) (hmax : 899 ≤ max) :
    BoundsServe randRange (900, max + 1) (.between min max) ↔ 900 ≤ max := by
  unfold SlowTrigger at hslow
  rcases Nat.lt_or_ge max 900 with hend | hlarge
  · refine iff_of_false ?_ (by omega)
    rintro ⟨-, a, hlow, hhigh, hfree⟩
    simp only [AmountOption.low, AmountOption.high] at hlow hhigh
    unfold SlowTrigger at hfree
    omega
  · rw [boundsServe_iff hrange (by omega) (by omega)]
    simp only [AmountOption.low, AmountOption.high]
    refine iff_of_true ⟨fun a => ?_, 900, by omega, by omega, by decide⟩ hlarge
    unfold SlowTrigger
    omega

/-- The bounds of a maximum just below an amount that delays the server. -/
theorem slowMax_served_iff {min max : ℕ} (hpos : 0 < min) (hlow : min < 800)
    (hslow : SlowTrigger (max + 1)) :
    BoundsServe randRange (min, min + 1) (.between min max) ↔ min = 799 := by
  rw [boundsServe_iff hrange hpos (by omega)]
  simp only [AmountOption.low, AmountOption.high]
  unfold SlowTrigger at hslow
  constructor
  · rintro ⟨hsame, -⟩
    have hlast := hsame 799
    unfold SlowTrigger at hlast
    omega
  · rintro rfl
    refine ⟨fun a => ?_, 799, by omega, by omega, by decide⟩
    unfold SlowTrigger
    omega

/-- The bounds of two amounts that need no adjustment. -/
theorem plain_served_iff {min max : ℕ} (hpos : 0 < min) (hslow : ¬SlowTrigger min) (horder : min ≤ max + 1) :
    BoundsServe randRange (min, max + 1) (.between min max) ↔ min ≤ max := by
  rcases Nat.lt_or_ge max min with hinverted | hproper
  · refine iff_of_false ?_ (by omega)
    rintro ⟨-, a, hlow, hhigh, -⟩
    simp only [AmountOption.low, AmountOption.high] at hlow hhigh
    omega
  · rw [boundsServe_iff hrange hpos (by omega)]
    simp only [AmountOption.low, AmountOption.high]
    exact iff_of_true ⟨fun a => by rw [Nat.lt_succ_iff], min, le_refl min, hproper, hslow⟩ hproper

end Range

/-- A minimum of zero switches the random amounts off. -/
theorem zeroMin_not_served (randRange : RandRange) (max hi : ℕ) :
    ¬BoundsServe randRange (0, hi) (.between 0 max) := by
  rintro ⟨heq, -⟩
  have hmem : (0 : ℕ) ∈ (AmountOption.between 0 max).requested := ⟨le_refl 0, Nat.zero_le max, by decide⟩
  rw [← heq] at hmem
  exact hmem.1 rfl

/-- The options that are served. A maximum alone must delay the server, or be drawn from the empty range of
1 to 1. Two amounts are turned down, or the lower one is positive and not above the higher one, the
amount after the higher one does not delay the server unless the lower one is at least 7.99, and a lower
one that delays the server is below a higher one that does not. -/
def AmountOption.Servable (randRange : RandRange) : AmountOption → Prop
  | .upTo max => SlowTrigger max ∨ (max = 1 ∧ ∀ a, a ∈ randRange 1 1 ∧ ¬SlowTrigger a ↔ a = 1)
  | .between min max =>
    max + 1 < min ∨ (800 ≤ min ∧ max ≤ 898) ∨
      (1 ≤ min ∧ min ≤ max ∧ (min < 799 → ¬SlowTrigger (max + 1)) ∧ (SlowTrigger min → 900 ≤ max))

/-- An option with bounds is served by them when it is servable. -/
theorem bounds_serve_iff {randRange : RandRange}
    (hrange : ∀ lo hi, lo < hi → randRange lo hi = Set.Ico lo hi) (o : AmountOption) :
    (∀ bounds, o.bounds = some bounds → BoundsServe randRange bounds o) ↔ o.Servable randRange := by
  cases o with
  | upTo max =>
    simp only [AmountOption.bounds, Option.some.injEq, forall_eq']
    exact upTo_served_iff hrange max
  | between min max =>
    simp only [AmountOption.bounds, AmountOption.Servable]
    by_cases hinverted : max + 1 < min
    · simp [hinverted]
    · by_cases hband : 800 ≤ min ∧ max + 1 ≤ 899
      · have hband' : 800 ≤ min ∧ max ≤ 898 := by omega
        simp [hinverted, hband, hband']
      · have hband' : ¬(800 ≤ min ∧ max ≤ 898) := by omega
        rw [if_neg hinverted, if_neg hband]
        simp only [hinverted, hband', false_or, Option.some.injEq, forall_eq']
        by_cases hslow : SlowTrigger min
        · have hpos : 800 ≤ min := hslow.1
          have hmax : ¬SlowTrigger (max + 1) := by
            unfold SlowTrigger
            omega
          rw [if_pos hslow, if_neg hmax, slowMin_served_iff hrange hslow (by omega)]
          have hend := hslow.2
          simp only [hslow, hmax, not_false_eq_true, implies_true, true_and, forall_const]
          omega
        · rw [if_neg hslow]
          rcases Nat.eq_zero_or_pos min with rfl | hpos
          · exact iff_of_false (zeroMin_not_served randRange max _) (by omega)
          · by_cases hmax : SlowTrigger (max + 1)
            · have hbound := hmax.1
              have hlow : min < 800 := by
                have hupper := hmax.2
                unfold SlowTrigger at hslow
                omega
              rw [if_pos hmax, slowMax_served_iff hrange hpos hlow hmax]
              simp only [hslow, hmax, not_true_eq_false, false_implies, and_true, imp_false, not_lt]
              omega
            · rw [if_neg hmax, plain_served_iff hrange hpos hslow (by omega)]
              simp only [hslow, hmax, not_false_eq_true, implies_true, and_true, false_implies]
              omega

/-- An option string is served exactly when its option is servable. -/
theorem amountsServed_iff {readDecimal : DecimalReader} {randRange : RandRange} {string : Bytes}
    {o : AmountOption} (hrange : ∀ lo hi, lo < hi → randRange lo hi = Set.Ico lo hi)
    (h : Spells readDecimal string o) :
    AmountsServed readDecimal randRange string o ↔ o.Servable randRange := by
  rw [← bounds_serve_iff hrange]
  constructor
  · intro hserved bounds hbounds
    exact hserved.accepted bounds ((cliParseRandomAmount_eq h).trans hbounds)
  · intro hall
    refine ⟨fun bounds hparse => hall bounds ((cliParseRandomAmount_eq h).symm.trans hparse), fun hnone => ?_⟩
    rw [cliParseRandomAmount_eq h]
    cases hbounds : o.bounds with
    | none => rfl
    | some bounds =>
      obtain ⟨-, a, hlow, hhigh, hslow⟩ := hall bounds hbounds
      rcases hnone with hinverted | hempty
      · exact absurd (hlow.trans hhigh) (not_le.mpr hinverted)
      · exact absurd (hempty ▸ (⟨hlow, hhigh, hslow⟩ : a ∈ o.requested)) (Set.notMem_empty a)

/-- A reader of whole amounts. -/
def readWhole (string : Bytes) : Option (ℤ × Bytes) :=
  (readDecimal string).map fun amount => (100 * (amount.1 : ℤ), amount.2)

/-- The range of 5 to 20 is served. -/
theorem amountsServed_iff_fiveToTwenty :
    AmountsServed readWhole Set.Ico (ascii "5:20") (.between 500 2000) :=
  (amountsServed_iff (fun _ _ _ => rfl) (.between _ (ascii "20") 500 2000 rfl rfl (by omega) (by omega))).mpr
    (Or.inr (Or.inr ⟨by omega, by omega, fun _ => by decide, fun h => absurd h (by decide)⟩))

/-- A maximum of 5 is never drawn. -/
theorem upTo_not_served :
    ¬∀ (readDecimal : DecimalReader) (randRange : RandRange) (string : Bytes) (o : AmountOption),
      (∀ lo hi, lo < hi → randRange lo hi = Set.Ico lo hi) → Spells readDecimal string o →
        AmountsServed readDecimal randRange string o := by
  intro h
  have hserved := h readWhole Set.Ico (ascii "5") (.upTo 500) (fun _ _ _ => rfl)
    (.upTo _ 500 rfl (by omega))
  obtain ⟨heq, -⟩ := hserved.accepted (1, 500) rfl
  have hmax : (500 : ℕ) ∈ (AmountOption.upTo 500).requested := ⟨by decide, le_refl 500, by decide⟩
  rw [← heq] at hmax
  exact absurd hmax.2.2.1.2 (lt_irrefl 500)

end LibMonetra
