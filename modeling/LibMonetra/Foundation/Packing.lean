import Mathlib.Data.Set.Function
import Mathlib.Data.Nat.ModEq
import Mathlib.Order.Interval.Set.Defs
import Mathlib.Tactic.Ring

/-!
# Packed pairs

A number is split into its column and its row by division with remainder, and the two are packed into one
word: the column times a stride, plus the row, modulo the size of the word. Two numbers get the same word
when some columns, laid stride by stride, end on the distance of two rows. Of these meetings only the
least ones have to be known.
-/

namespace Foundation

/-- The word of a number. -/
def packed (columns stride modulus i : ℕ) : ℕ := (i % columns * stride + i / columns) % modulus

section Meetings

variable (stride modulus : ℕ)

/-- Some columns end a number of rows behind the start. -/
def Ahead (columns rows : ℕ) : Prop := ∃ turns, columns * stride = turns * modulus + rows

/-- Some columns end a number of rows before the start. -/
def Behind (columns rows : ℕ) : Prop := ∃ turns, columns * stride + rows = turns * modulus

/-- Fewer numbers than any meeting of two columns needs. -/
def Apart (columns count : ℕ) : Prop :=
  ∀ d e, 0 < d → d < columns → (Ahead stride modulus d e → count ≤ d ∨ count ≤ e * columns) ∧
    (Behind stride modulus d e → count ≤ e * columns + d)

instance (columns rows : ℕ) : Decidable (Ahead stride modulus columns rows) :=
  decidable_of_iff (rows ≤ columns * stride ∧ modulus ∣ columns * stride - rows)
    ⟨fun ⟨hle, turns, hturns⟩ => ⟨turns, by rw [Nat.mul_comm turns, ← hturns, Nat.sub_add_cancel hle]⟩,
      fun ⟨turns, hturns⟩ => ⟨by omega, turns, by rw [hturns, Nat.add_sub_cancel, Nat.mul_comm]⟩⟩

instance (columns rows : ℕ) : Decidable (Behind stride modulus columns rows) :=
  decidable_of_iff (modulus ∣ columns * stride + rows)
    ⟨fun ⟨turns, hturns⟩ => ⟨turns, by rw [hturns, Nat.mul_comm]⟩,
      fun ⟨turns, hturns⟩ => ⟨turns, by rw [hturns, Nat.mul_comm]⟩⟩

end Meetings

variable {columns stride modulus count : ℕ}

/-- The number in a column and a row. -/
theorem packed_of_lt {r : ℕ} (hr : r < columns) (q : ℕ) :
    packed columns stride modulus (q * columns + r) = (r * stride + q) % modulus := by
  have hcolumn : (q * columns + r) % columns = r := by
    rw [Nat.mul_comm, Nat.mul_add_mod, Nat.mod_eq_of_lt hr]
  have hrow : (q * columns + r) / columns = q := by
    rw [Nat.mul_comm, Nat.mul_add_div (by omega), Nat.div_eq_of_lt hr, Nat.add_zero]
  rw [packed, hcolumn, hrow]

/-- Of two numbers with one word none is in a later column. -/
theorem Apart.not_lt (h : Apart stride modulus columns count) (hcount : count ≤ modulus) {r q r' q' : ℕ}
    (hr : r < columns) (hi : q * columns + r < count) (hi' : q' * columns + r' < count)
    (hsame : (r * stride + q) ≡ (r' * stride + q') [MOD modulus]) : ¬r' < r := by
  intro hlt
  obtain ⟨d, rfl⟩ := Nat.exists_eq_add_of_lt hlt
  have hmeet : ((d + 1) * stride + q) ≡ q' [MOD modulus] := by
    refine Nat.ModEq.add_left_cancel' (r' * stride) ?_
    rwa [← Nat.add_assoc, ← Nat.add_mul, ← Nat.add_assoc r' d 1]
  have hrow : q' ≤ q' * columns := Nat.le_mul_of_pos_right _ (by omega)
  rcases Nat.le_total q q' with hrows | hrows
  · obtain ⟨e, rfl⟩ := Nat.exists_eq_add_of_le hrows
    have hahead : Ahead stride modulus (d + 1) e := by
      have hrest : ((d + 1) * stride) ≡ e [MOD modulus] := by
        refine Nat.ModEq.add_right_cancel' q ?_
        rwa [Nat.add_comm e]
      have hrows : (d + 1) * stride % modulus = e := Nat.mod_eq_of_modEq hrest (by omega)
      exact ⟨(d + 1) * stride / modulus, by rw [← hrows, Nat.div_add_mod']⟩
    have hfar := (h (d + 1) e (by omega) (by omega)).1 hahead
    have hreach : e * columns ≤ (q + e) * columns := Nat.mul_le_mul_right _ (by omega)
    omega
  · obtain ⟨e, rfl⟩ := Nat.exists_eq_add_of_le hrows
    have hbehind : Behind stride modulus (d + 1) e := by
      have hrest : ((d + 1) * stride + e) ≡ 0 [MOD modulus] := by
        refine Nat.ModEq.add_right_cancel' q' ?_
        rwa [Nat.zero_add, Nat.add_assoc, Nat.add_comm e]
      obtain ⟨turns, hturns⟩ := Nat.modEq_zero_iff_dvd.mp hrest
      exact ⟨turns, by rw [hturns, Nat.mul_comm]⟩
    have hfar := (h (d + 1) e (by omega) (by omega)).2 hbehind
    have hreach : e * columns ≤ (q' + e) * columns := Nat.mul_le_mul_right _ (by omega)
    omega

/-- The words are distinct exactly when no two columns meet. -/
theorem packed_injOn_iff (hcolumns : 0 < columns) (hcount : count ≤ modulus) :
    Set.InjOn (packed columns stride modulus) (Set.Iio count) ↔ Apart stride modulus columns count := by
  constructor
  · intro hinj d e hd hlt
    refine ⟨?_, ?_⟩
    · rintro ⟨turns, hturns⟩
      by_contra hreach
      have hsame : packed columns stride modulus (0 * columns + d) =
          packed columns stride modulus (e * columns + 0) := by
        rw [packed_of_lt hlt, packed_of_lt hcolumns, hturns, Nat.add_zero, Nat.zero_mul, Nat.zero_add,
          Nat.mul_comm, Nat.mul_add_mod]
      have heq := hinj (show _ < count by omega) (show _ < count by omega) hsame
      have hmod := congrArg (· % columns) heq
      simp only [Nat.zero_mul, Nat.zero_add, Nat.add_zero, Nat.mul_mod_left, Nat.mod_eq_of_lt hlt] at hmod
      omega
    · rintro ⟨turns, hturns⟩
      by_contra hreach
      have hsame : packed columns stride modulus (e * columns + d) =
          packed columns stride modulus (0 * columns + 0) := by
        rw [packed_of_lt hlt, packed_of_lt hcolumns, hturns, Nat.mul_mod_left, Nat.zero_mul, Nat.add_zero,
          Nat.zero_mod]
      have heq := hinj (show _ < count by omega) (show _ < count by omega) hsame
      omega
  · intro hapart i hi i' hi' hsame
    have hsplit := Nat.div_add_mod' i columns
    have hsplit' := Nat.div_add_mod' i' columns
    have hr := Nat.mod_lt i hcolumns
    have hr' := Nat.mod_lt i' hcolumns
    rw [← hsplit, Set.mem_Iio] at hi
    rw [← hsplit', Set.mem_Iio] at hi'
    have hle := Nat.le_of_not_lt (hapart.not_lt hcount hr hi hi' hsame)
    have hge := Nat.le_of_not_lt (hapart.not_lt hcount hr' hi' hi hsame.symm)
    have hcolumn : i % columns = i' % columns := Nat.le_antisymm hle hge
    have hrow : i / columns ≡ i' / columns [MOD modulus] := by
      refine Nat.ModEq.add_left_cancel' (i % columns * stride) ?_
      nth_rewrite 2 [hcolumn]
      exact hsame
    have hsmall : ∀ {q r : ℕ}, q * columns + r < count → q < modulus := by
      intro q r hq
      have hrow : q ≤ q * columns := Nat.le_mul_of_pos_right _ hcolumns
      omega
    rw [← hsplit, ← hsplit', hrow.eq_of_lt_of_lt (hsmall hi) (hsmall hi'), hcolumn]

/-- Meetings of a packing, among them the least ones: no two columns meet nearer than these do, as far as
the product of the columns and the rows is bounded. -/
structure Front (stride modulus bound : ℕ) where
  ahead : List (ℕ × ℕ)
  behind : List (ℕ × ℕ)
  meets_ahead : ∀ m ∈ ahead, 0 < m.1 ∧ Ahead stride modulus m.1 m.2
  meets_behind : ∀ m ∈ behind, 0 < m.1 ∧ Behind stride modulus m.1 m.2
  least_ahead : ∀ d e, 0 < d → d * e < bound → Ahead stride modulus d e →
    (∃ m ∈ ahead, m.1 ≤ d ∧ m.2 ≤ e) ∨ ∃ m ∈ behind, m.1 ≤ d ∧ m.2 < e
  least_behind : ∀ d e, 0 < d → d * e < bound → Behind stride modulus d e →
    (∃ m ∈ ahead, m.1 ≤ d ∧ m.2 ≤ e) ∨ ∃ m ∈ behind, m.1 ≤ d ∧ m.2 ≤ e

namespace Front

variable {bound : ℕ} (front : Front stride modulus bound)

/-- Fewer numbers than the meetings of the front need. -/
def Apart (columns count : ℕ) : Prop :=
  (∀ m ∈ front.ahead, m.1 < columns → count ≤ m.1 ∨ count ≤ m.2 * columns) ∧
    ∀ m ∈ front.behind, m.1 < columns → count ≤ m.2 * columns + m.1

instance (columns count : ℕ) : Decidable (front.Apart columns count) :=
  inferInstanceAs (Decidable (_ ∧ _))

/-- Only the meetings of the front have to be looked at. -/
theorem apart_iff (hcount : count ≤ bound) :
    Foundation.Apart stride modulus columns count ↔ front.Apart columns count := by
  constructor
  · intro h
    refine ⟨fun m hm hlt => ?_, fun m hm hlt => ?_⟩
    · obtain ⟨hpos, hmeets⟩ := front.meets_ahead m hm
      exact (h m.1 m.2 hpos hlt).1 hmeets
    · obtain ⟨hpos, hmeets⟩ := front.meets_behind m hm
      exact (h m.1 m.2 hpos hlt).2 hmeets
  · rintro ⟨hahead, hbehind⟩ d e hd hlt
    have hrows : ∀ {e' : ℕ}, e' ≤ e → e' * columns ≤ e * columns := Nat.mul_le_mul_right columns
    have hnext : ∀ {e' : ℕ}, e' < e → e' * columns + columns ≤ e * columns := by
      intro e' he'
      rw [← Nat.succ_mul]
      exact Nat.mul_le_mul_right columns he'
    have hproduct : d * e ≤ e * columns := by
      rw [Nat.mul_comm]
      exact Nat.mul_le_mul_left e hlt.le
    refine ⟨fun hmeets => ?_, fun hmeets => ?_⟩
    · by_contra hreach
      rcases front.least_ahead d e hd (by omega) hmeets with ⟨m, hm, hleft, hback⟩ | ⟨m, hm, hleft, hback⟩
      · have hfar := hahead m hm (by omega)
        have hle := hrows hback
        omega
      · have hfar := hbehind m hm (by omega)
        have hle := hnext hback
        omega
    · by_contra hreach
      rcases front.least_behind d e hd (by omega) hmeets with ⟨m, hm, hleft, hback⟩ | ⟨m, hm, hleft, hback⟩
      · have hfar := hahead m hm (by omega)
        have hle := hrows hback
        omega
      · have hfar := hbehind m hm (by omega)
        have hle := hrows hback
        omega

end Front

end Foundation
