import LibMonetra.Bytes
import Mathlib.Data.List.Dedup

/-!
# `M_hash_dict`

A dictionary keeps its entries in insertion order; with `M_HASH_DICT_CASECMP` two keys are the same
when they agree ignoring case, and without `M_HASH_DICT_MULTI_VALUE` a key has one entry. A `NULL`
value is kept apart from the empty string. The enumeration order of the C table is unspecified, so
no statement may depend on the order of two different keys.
-/

namespace LibMonetra

/-- The comparison of two keys that the flags of a dictionary select. -/
def keysAgree (casecmp : Bool) (left right : Bytes) : Bool :=
  if casecmp then strCaseeq left right else left == right

/-- A dictionary with any of the flags that bear on what it holds. All the values of a key are kept
under one spelling of it. The flags that order or rewrite keys only shape the entries. -/
structure HashDict where
  casecmp : Bool
  multiValue : Bool
  multiGetlast : Bool
  entries : List (Bytes × Option Bytes)
  distinct : multiValue = false →
    (entries.map Prod.fst).Pairwise fun left right => keysAgree casecmp left right = false
  uniform : ∀ left ∈ entries, ∀ right ∈ entries,
    keysAgree casecmp left.1 right.1 = true → left.1 = right.1
  deriving DecidableEq, Repr

/-- Two keys are the same when they have one canonical form. -/
theorem keysAgree_iff (casecmp : Bool) (left right : Bytes) :
    keysAgree casecmp left right = true ↔
      (if casecmp then left.map lower else left) = if casecmp then right.map lower else right := by
  unfold keysAgree strCaseeq
  split <;> simp

/-- Every key agrees with itself. -/
theorem keysAgree_self (casecmp : Bool) (key : Bytes) : keysAgree casecmp key key = true :=
  (keysAgree_iff casecmp key key).mpr rfl

namespace HashDict

/-- `M_hash_dict_create(16, 75, M_HASH_DICT_CASECMP)`, the only flags the library uses. -/
def create : HashDict where
  casecmp := true
  multiValue := false
  multiGetlast := false
  entries := []
  distinct := fun _ => List.Pairwise.nil
  uniform := by simp

/-- The key comparison selected at creation. -/
def sameKey (dict : HashDict) (left right : Bytes) : Bool := keysAgree dict.casecmp left right

/-- The keys, as the enumeration of a dictionary yields them. -/
def keys (dict : HashDict) : List Bytes := dict.entries.map Prod.fst

/-- Whether a dictionary has a key. -/
def hasKey (dict : HashDict) (key : Bytes) : Bool :=
  dict.entries.any fun entry => dict.sameKey entry.1 key

/-- The entries of a key. -/
def entriesOf (dict : HashDict) (key : Bytes) : List (Bytes × Option Bytes) :=
  dict.entries.filter fun entry => dict.sameKey entry.1 key

/-- `M_hash_dict_get_direct`: the first or the last value of a key, `NULL` when the key is absent. -/
def getDirect (dict : HashDict) (key : Bytes) : Option Bytes :=
  (if dict.multiGetlast then (dict.entriesOf key).getLast? else (dict.entriesOf key).head?).bind
    Prod.snd

/-- `M_hash_dict_num_keys`: a key with several values counts once. -/
def numKeys (dict : HashDict) : ℕ := dict.keys.dedup.length

/-- Two keys are the same when they have one canonical form. -/
theorem sameKey_iff (dict : HashDict) (left right : Bytes) :
    dict.sameKey left right = true ↔
      (if dict.casecmp then left.map lower else left) = if dict.casecmp then right.map lower else right :=
  keysAgree_iff dict.casecmp left right

/-- A key is the same as itself. -/
theorem sameKey_self (dict : HashDict) (key : Bytes) : dict.sameKey key key = true :=
  keysAgree_self dict.casecmp key

/-- A key that is the same as another has the same keys as that one. -/
theorem sameKey_congr (dict : HashDict) {left right : Bytes} (h : dict.sameKey left right = true)
    (key : Bytes) : dict.sameKey key left = dict.sameKey key right := by
  rw [Bool.eq_iff_iff, sameKey_iff, sameKey_iff, (dict.sameKey_iff left right).mp h]

/-- The spelling under which a dictionary keeps a key, or would keep it. -/
def spelling (dict : HashDict) (key : Bytes) : Bytes :=
  ((dict.entries.find? fun entry => dict.sameKey entry.1 key).map Prod.fst).getD key

/-- `M_hash_dict_insert` on a key that is present, where a key has one value. -/
def replace (dict : HashDict) (key : Bytes) (value : Option Bytes) : HashDict where
  casecmp := dict.casecmp
  multiValue := dict.multiValue
  multiGetlast := dict.multiGetlast
  entries := dict.entries.map fun entry => if dict.sameKey entry.1 key then (entry.1, value) else entry
  distinct := by
    have hkeys : (dict.entries.map fun entry =>
        if dict.sameKey entry.1 key then (entry.1, value) else entry).map Prod.fst =
          dict.entries.map Prod.fst := by
      rw [List.map_map]
      refine List.map_congr_left fun entry _ => ?_
      simp only [Function.comp]
      split <;> rfl
    rw [hkeys]
    exact dict.distinct
  uniform := by
    intro left hleft right hright
    obtain ⟨entry, hentry, rfl⟩ := List.mem_map.mp hleft
    obtain ⟨entry', hentry', rfl⟩ := List.mem_map.mp hright
    have hfst : ∀ e : Bytes × Option Bytes, (if dict.sameKey e.1 key then (e.1, value) else e).1 = e.1 := by
      intro e
      split <;> rfl
    rw [hfst, hfst]
    exact dict.uniform entry hentry entry' hentry'

/-- `M_hash_dict_insert` on a key that is absent. -/
def extend (dict : HashDict) (key : Bytes) (value : Option Bytes)
    (habsent : dict.hasKey key = false) : HashDict where
  casecmp := dict.casecmp
  multiValue := dict.multiValue
  multiGetlast := dict.multiGetlast
  entries := dict.entries ++ [(key, value)]
  distinct := by
    intro hsingle
    rw [List.map_append, List.map_singleton, List.pairwise_append]
    refine ⟨dict.distinct hsingle, List.pairwise_singleton _ _, ?_⟩
    intro left hleft right hright
    obtain ⟨entry, hentry, rfl⟩ := List.mem_map.mp hleft
    rw [List.mem_singleton.mp hright]
    simpa [sameKey] using List.any_eq_false.mp habsent entry hentry
  uniform := by
    have hother : ∀ entry ∈ dict.entries, keysAgree dict.casecmp entry.1 key ≠ true :=
      List.any_eq_false.mp habsent
    intro left hleft right hright hagree
    rw [List.mem_append, List.mem_singleton] at hleft hright
    rcases hleft with hleft | rfl
    · rcases hright with hright | rfl
      · exact dict.uniform left hleft right hright hagree
      · exact absurd hagree (hother left hleft)
    · rcases hright with hright | rfl
      · rw [keysAgree_iff] at hagree
        exact absurd ((keysAgree_iff ..).mpr hagree.symm) (hother right hright)
      · rfl

/-- `M_hash_dict_insert` on a key that is present, where a key has many values. -/
def another (dict : HashDict) (key : Bytes) (value : Option Bytes)
    (hmulti : dict.multiValue = true) (hpresent : dict.hasKey key = true) : HashDict where
  casecmp := dict.casecmp
  multiValue := dict.multiValue
  multiGetlast := dict.multiGetlast
  entries := dict.entries ++ [(dict.spelling key, value)]
  distinct := fun hsingle => by simp [hsingle] at hmulti
  uniform := by
    obtain ⟨entry, hentry, hsame⟩ := List.any_eq_true.mp hpresent
    have hkept : ∃ kept ∈ dict.entries, dict.spelling key = kept.1 := by
      unfold spelling
      cases hfind : dict.entries.find? fun entry => dict.sameKey entry.1 key with
      | none => exact absurd hsame (List.find?_eq_none.mp hfind entry hentry)
      | some kept => exact ⟨kept, List.mem_of_find?_eq_some hfind, rfl⟩
    obtain ⟨kept, hkept, hspelling⟩ := hkept
    have hspelled : ∀ left ∈ dict.entries ++ [(dict.spelling key, value)],
        ∃ entry ∈ dict.entries, left.1 = entry.1 := by
      intro left hleft
      rcases List.mem_append.mp hleft with hleft | hleft
      · exact ⟨left, hleft, rfl⟩
      · exact ⟨kept, hkept, by rw [List.mem_singleton.mp hleft, hspelling]⟩
    intro left hleft right hright hagree
    obtain ⟨entry, hentry, hl⟩ := hspelled left hleft
    obtain ⟨entry', hentry', hr⟩ := hspelled right hright
    rw [hl, hr] at hagree ⊢
    exact dict.uniform entry hentry entry' hentry' hagree

/-- `M_hash_dict_insert`: give a value to a key, beside its other values where it may have several. -/
def insert (dict : HashDict) (key : Bytes) (value : Option Bytes) : HashDict :=
  if hpresent : dict.hasKey key = true then
    if hmulti : dict.multiValue = true then dict.another key value hmulti hpresent
    else dict.replace key value
  else dict.extend key value (Bool.eq_false_iff.mpr hpresent)

/-- An insertion leaves the flags of a dictionary alone. -/
theorem insert_flags (dict : HashDict) (key : Bytes) (value : Option Bytes) :
    (dict.insert key value).casecmp = dict.casecmp ∧
      (dict.insert key value).multiValue = dict.multiValue ∧
        (dict.insert key value).multiGetlast = dict.multiGetlast := by
  unfold insert
  split
  · split <;> exact ⟨rfl, rfl, rfl⟩
  · exact ⟨rfl, rfl, rfl⟩

/-- A key that is absent is added at the end. -/
theorem insert_absent (dict : HashDict) {key : Bytes} (value : Option Bytes)
    (habsent : dict.hasKey key = false) :
    (dict.insert key value).entries = dict.entries ++ [(key, value)] := by
  rw [insert, dif_neg (by simp [habsent])]
  rfl

/-- A key that is present gets the value in place, where a key has one value. -/
theorem insert_present (dict : HashDict) {key : Bytes} (value : Option Bytes)
    (hsingle : dict.multiValue = false) (hpresent : dict.hasKey key = true) :
    (dict.insert key value).entries =
      dict.entries.map fun entry => if dict.sameKey entry.1 key then (entry.1, value) else entry := by
  rw [insert, dif_pos hpresent, dif_neg (by simp [hsingle])]
  rfl

/-- A dictionary without entries is one without keys. -/
theorem numKeys_eq_zero (dict : HashDict) : dict.numKeys = 0 ↔ dict.entries = [] := by
  rw [numKeys, List.length_eq_zero_iff, List.dedup_eq_nil, keys, List.map_eq_nil_iff]

/-- An insertion never empties a dictionary. -/
theorem numKeys_insert_pos (dict : HashDict) (key : Bytes) (value : Option Bytes) :
    0 < (dict.insert key value).numKeys := by
  rw [Nat.pos_iff_ne_zero, Ne, numKeys_eq_zero]
  unfold insert
  split
  · rename_i hpresent
    split
    · simp [another]
    · obtain ⟨entry, hentry, -⟩ := List.any_eq_true.mp hpresent
      simpa [replace] using List.ne_nil_of_mem hentry
  · simp [extend]

end HashDict

/-- A dictionary with one value for each key, as the library itself creates them. -/
structure Dict extends HashDict where
  plain : multiValue = false ∧ multiGetlast = false
  deriving DecidableEq, Repr

namespace Dict

/-- `M_hash_dict_create(16, 75, M_HASH_DICT_CASECMP)`. -/
def create : Dict := ⟨.create, rfl, rfl⟩

/-- The keys, as the enumeration of a dictionary yields them. -/
def keys (dict : Dict) : List Bytes := dict.toHashDict.keys

/-- `M_hash_dict_insert`: replace the value of an existing key, or add the key. -/
def insert (dict : Dict) (key : Bytes) (value : Option Bytes) : Dict :=
  ⟨dict.toHashDict.insert key value, (dict.insert_flags key value).2.1.trans dict.plain.1,
    (dict.insert_flags key value).2.2.trans dict.plain.2⟩

/-- No two keys of a dictionary are equal. -/
theorem keys_nodup (dict : Dict) : dict.keys.Nodup := by
  refine (dict.distinct dict.plain.1).imp ?_
  rintro left right hdiffer rfl
  exact absurd (keysAgree_self dict.casecmp left) (by simp [hdiffer])

/-- Every key listed counts. -/
theorem length_keys (dict : Dict) : dict.keys.length = dict.numKeys := by
  have hnodup : dict.toHashDict.keys.Nodup := dict.keys_nodup
  rw [HashDict.numKeys, hnodup.dedup, keys]

/-- The value of a key is the one of its first entry. -/
theorem getDirect_eq (dict : Dict) (key : Bytes) :
    dict.getDirect key = (dict.entries.find? fun entry => dict.sameKey entry.1 key).bind Prod.snd := by
  rw [HashDict.getDirect, dict.plain.2, if_neg Bool.false_ne_true, HashDict.entriesOf, List.head?_filter]

/-- The value of a key is the one of its entry. -/
theorem getDirect_of_mem (dict : Dict) {key : Bytes} {value : Option Bytes}
    (hmem : (key, value) ∈ dict.entries) : dict.getDirect key = value := by
  have hfind : dict.entries.find? (fun entry => dict.sameKey entry.1 key) = some (key, value) := by
    obtain ⟨pre, post, hsplit⟩ := List.append_of_mem hmem
    have hdistinct := dict.distinct dict.plain.1
    rw [hsplit, List.map_append, List.map_cons, List.pairwise_append] at hdistinct
    have hbefore : pre.find? (fun entry => dict.sameKey entry.1 key) = none := by
      refine List.find?_eq_none.mpr fun entry hentry => ?_
      have hdiffer := hdistinct.2.2 entry.1 (List.mem_map_of_mem hentry) key List.mem_cons_self
      simp [HashDict.sameKey, hdiffer]
    rw [hsplit, List.find?_append, hbefore, Option.none_or, List.find?_cons, dict.sameKey_self key]
  rw [getDirect_eq, hfind]
  rfl

/-- An insertion compares keys as before. -/
theorem insert_sameKey (dict : Dict) (key : Bytes) (value : Option Bytes) :
    (dict.insert key value).sameKey = dict.sameKey := by
  funext left right
  rw [HashDict.sameKey, insert, (dict.insert_flags key value).1]
  rfl

/-- An insertion gives its value to the key and leaves every other key alone. -/
theorem getDirect_insert (dict : Dict) (key : Bytes) (value : Option Bytes) (other : Bytes) :
    (dict.insert key value).getDirect other =
      if dict.sameKey key other then value else dict.getDirect other := by
  rw [getDirect_eq, getDirect_eq, insert_sameKey]
  cases hkey : dict.hasKey key with
  | false =>
    have hentries : (dict.insert key value).entries = dict.entries ++ [(key, value)] :=
      dict.insert_absent value hkey
    rw [hentries, List.find?_append, List.find?_singleton]
    change ((dict.entries.find? fun entry => dict.sameKey entry.1 other).or
      (if dict.sameKey key other then some (key, value) else none)).bind Prod.snd = _
    split
    · rename_i hsame
      rw [List.find?_eq_none.mpr, Option.none_or]
      · rfl
      · intro entry hentry
        rw [← dict.sameKey_congr hsame]
        exact List.any_eq_false.mp hkey entry hentry
    · rw [Option.or_none]
  | true =>
    have hentries : (dict.insert key value).entries = dict.entries.map fun entry =>
        if dict.sameKey entry.1 key then (entry.1, value) else entry :=
      dict.insert_present value dict.plain.1 hkey
    rw [hentries, List.find?_map]
    change ((dict.entries.find? fun entry => dict.sameKey
      (if dict.sameKey entry.1 key then (entry.1, value) else entry).1 other).map _).bind Prod.snd = _
    have hfst : (fun entry : Bytes × Option Bytes => dict.sameKey
        (if dict.sameKey entry.1 key then (entry.1, value) else entry).1 other) =
          fun entry => dict.sameKey entry.1 other := by
      funext entry
      split <;> rfl
    rw [hfst]
    split
    · rename_i hsame
      obtain ⟨entry, hentry, hmatch⟩ := List.any_eq_true.mp hkey
      cases hfind : dict.entries.find? fun entry => dict.sameKey entry.1 other with
      | none =>
        have hno := List.find?_eq_none.mp hfind entry hentry
        rw [← dict.sameKey_congr hsame] at hno
        exact absurd hmatch hno
      | some found =>
        have hfound := List.find?_some hfind
        rw [← dict.sameKey_congr hsame] at hfound
        simp [hfound]
    · rename_i hdiffer
      cases hfind : dict.entries.find? fun entry => dict.sameKey entry.1 other with
      | none => rfl
      | some found =>
        have hfound := List.find?_some hfind
        have hother : dict.sameKey found.1 key = false := by
          rw [Bool.eq_false_iff]
          intro hsame
          rw [HashDict.sameKey_iff] at hsame hfound hdiffer
          exact hdiffer (hsame.symm.trans hfound)
        simp [hother]

end Dict

end LibMonetra
