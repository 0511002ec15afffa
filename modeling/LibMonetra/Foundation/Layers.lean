import Mathlib.Data.List.Basic

/-!
# Layers of assignments

A series of assignments of values to keys, where the last assignment to a key counts and keys with the
same canonical form are the same key. A table that is filled by the series, assignment by assignment, is
read as the series on top of what the table held before.
-/

namespace Foundation

variable {K V C : Type*} [DecidableEq C] (canon : K → C)

/-- The value that the last assignment to a key gives it. -/
def lastOf (series : List (K × V)) (key : K) : Option V :=
  (series.reverse.find? fun entry => decide (canon entry.1 = canon key)).map Prod.snd

@[simp] theorem lastOf_nil (key : K) : lastOf canon ([] : List (K × V)) key = none := rfl

/-- A later series lies on top of an earlier one. -/
@[simp] theorem lastOf_append (series later : List (K × V)) (key : K) :
    lastOf canon (series ++ later) key = (lastOf canon later key).or (lastOf canon series key) := by
  rw [lastOf, List.reverse_append, List.find?_append, Option.map_or]
  rfl

/-- One assignment. -/
theorem lastOf_singleton (entry : K × V) (key : K) :
    lastOf canon [entry] key = if canon entry.1 = canon key then some entry.2 else none := by
  rw [lastOf, List.reverse_singleton, List.find?_singleton]
  simp only [decide_eq_true_eq]
  split <;> rfl

section Tables

variable {T : Type*} {get : T → K → Option V} {put : T → K × V → T}

/-- A table is filled by a series of assignments. -/
theorem get_foldl_put (hput : ∀ table entry key,
      get (put table entry) key = if canon entry.1 = canon key then some entry.2 else get table key)
    (series : List (K × V)) (table : T) (key : K) :
    get (series.foldl put table) key = (lastOf canon series key).or (get table key) := by
  induction series generalizing table with
  | nil => rfl
  | cons entry rest ih =>
    rw [List.foldl_cons, ih, hput, ← List.singleton_append, lastOf_append, lastOf_singleton,
      Option.or_assoc]
    split <;> rfl

end Tables

end Foundation
