import Mathlib.Data.List.Basic

/-!
# Quoted text

A delimiter separates sections, except between two quotes, where a quote is written twice. Reading a
doubled quote as the end of one quoted part and the start of the next gives the same sections, so the
grammar below has no rule of its own for it. A text that is quoted may hold any symbol.
-/

namespace Foundation

variable {α : Type*} {delim quote a : α} {text w w' : List α}

section Doubled

variable [DecidableEq α]

/-- A text with every quote doubled. -/
def doubled (quote : α) (text : List α) : List α :=
  text.flatMap fun a => if a = quote then [quote, quote] else [a]

/-- A text with its doubled quotes read as one: a quote is passed over when it stands right behind one that
has been read. -/
def undoubled (quote : α) : Bool → List α → List α
  | _, [] => []
  | behind, a :: text =>
    if a = quote then if behind then undoubled quote false text else a :: undoubled quote true text
    else a :: undoubled quote false text

/-- A text between quotes. -/
def inQuotes (quote : α) (text : List α) : List α := quote :: doubled quote text ++ [quote]

/-- A text as it may be written: as it is when it has no quote, or between quotes. -/
inductive Written (quote : α) (text : List α) : List α → Prop
  | bare : quote ∉ text → Written quote text text
  | quoted : Written quote text (inQuotes quote text)

@[simp] theorem doubled_nil (quote : α) : doubled quote [] = [] := rfl

/-- A quote is doubled. -/
@[simp] theorem doubled_quote (quote : α) (text : List α) :
    doubled quote (quote :: text) = quote :: quote :: doubled quote text := by
  simp [doubled]

/-- Any other symbol is copied. -/
@[simp] theorem doubled_of_ne (h : a ≠ quote) (text : List α) :
    doubled quote (a :: text) = a :: doubled quote text := by
  simp [doubled, h]

/-- A text without quotes is copied. -/
theorem doubled_of_not_mem (h : quote ∉ text) : doubled quote text = text := by
  induction text with
  | nil => rfl
  | cons b text ih =>
    simp only [List.mem_cons, not_or] at h
    rw [doubled_of_ne (Ne.symm h.1), ih h.2]

/-- Reading doubled quotes as one undoes the doubling. -/
theorem undoubled_doubled (quote : α) (text : List α) : undoubled quote false (doubled quote text) = text := by
  induction text with
  | nil => rfl
  | cons b text ih =>
    by_cases hb : b = quote
    · subst hb
      simp [undoubled, ih]
    · simp [undoubled, hb, ih]

/-- Doubling adds no symbol and drops none. -/
theorem mem_doubled : a ∈ doubled quote text ↔ a ∈ text := by
  induction text with
  | nil => simp
  | cons b text ih =>
    by_cases hb : b = quote
    · subst hb
      simp [ih]
    · simp [hb, ih]

/-- However a text is written, it has the symbols of the text besides the quote. -/
theorem Written.mem_iff (h : Written quote text w) (ha : a ≠ quote) : a ∈ w ↔ a ∈ text := by
  cases h with
  | bare hquote => rfl
  | quoted => simp [inQuotes, mem_doubled, ha]

end Doubled

/-- A text all of whose quotes are closed, with no delimiter outside of them. -/
inductive Closed (delim quote : α) : List α → Prop
  | nil : Closed delim quote []
  | plain (a : α) (w : List α) : a ≠ quote → a ≠ delim → Closed delim quote w → Closed delim quote (a :: w)
  | quoted (body w : List α) : quote ∉ body → Closed delim quote w →
      Closed delim quote (quote :: body ++ quote :: w)

/-- A text and its sections between the delimiters outside quotes. -/
inductive Sections (delim quote : α) : List α → List (List α) → Prop
  | last (w : List α) : Closed delim quote w → Sections delim quote w [w]
  | cut (w rest : List α) (sections : List (List α)) : Closed delim quote w →
      Sections delim quote rest sections → Sections delim quote (w ++ delim :: rest) (w :: sections)

/-- Two closed texts after each other are closed. -/
theorem Closed.append (h : Closed delim quote w) (h' : Closed delim quote w') :
    Closed delim quote (w ++ w') := by
  induction h with
  | nil => exact h'
  | plain a w hquote hdelim _ ih => exact .plain a _ hquote hdelim ih
  | quoted body w hbody _ ih =>
    rw [List.append_assoc, List.cons_append]
    exact .quoted body _ hbody ih

/-- A text with neither quotes nor delimiters is closed. -/
theorem Closed.of_not_mem (hquote : quote ∉ w) (hdelim : delim ∉ w) : Closed delim quote w := by
  induction w with
  | nil => exact .nil
  | cons a w ih =>
    simp only [List.mem_cons, not_or] at hquote hdelim
    exact .plain a w (Ne.symm hquote.1) (Ne.symm hdelim.1) (ih hquote.2 hdelim.2)

/-- A quoted text is closed, whatever it holds. -/
theorem closed_inQuotes [DecidableEq α] (delim quote : α) (text : List α) :
    Closed delim quote (inQuotes quote text) := by
  have hclosed : ∀ body, quote ∉ body →
      Closed delim quote (quote :: body ++ doubled quote text ++ [quote]) := by
    induction text with
    | nil =>
      intro body hbody
      have hlast : Closed delim quote (quote :: body ++ quote :: []) := .quoted body [] hbody .nil
      simpa using hlast
    | cons a text ih =>
      intro body hbody
      by_cases ha : a = quote
      · -- the doubled quote closes the part so far and opens the next one
        subst ha
        have hnext := Closed.quoted body _ hbody (ih [] List.not_mem_nil)
        simpa using hnext
      · have hbody' : quote ∉ body ++ [a] := by
          simp [hbody, Ne.symm ha]
        have hnext := ih (body ++ [a]) hbody'
        simpa [ha] using hnext
  exact hclosed [] List.not_mem_nil

/-- Closed sections are the sections of their text. -/
theorem Sections.intercalate {sections : List (List α)} (hne : sections ≠ [])
    (h : ∀ w ∈ sections, Closed delim quote w) :
    Sections delim quote (List.intercalate [delim] sections) sections := by
  induction sections with
  | nil => exact absurd rfl hne
  | cons w sections ih =>
    have hw := h w List.mem_cons_self
    cases sections with
    | nil =>
      rw [List.intercalate_singleton]
      exact .last w hw
    | cons next later =>
      have hrest := ih (List.cons_ne_nil _ _) fun v hv => h v (List.mem_cons_of_mem w hv)
      rw [List.intercalate_cons_cons, List.append_assoc]
      exact .cut w _ _ hw hrest

/-- A symbol of joined texts, other than those that join them, is a symbol of one of the texts. -/
theorem mem_intercalate {sep : List α} {texts : List (List α)} (ha : a ∉ sep) :
    a ∈ List.intercalate sep texts ↔ ∃ w ∈ texts, a ∈ w := by
  induction texts with
  | nil => simp
  | cons w texts ih =>
    cases texts with
    | nil => simp
    | cons next later =>
      rw [List.intercalate_cons_cons, List.mem_append, List.mem_append, ih]
      simp [ha]

end Foundation
