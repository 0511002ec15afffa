import LibMonetra.System

/-!
# A reference support library

One concrete instance of the functions that the C support library provides, with the documented
behaviour. The general results hold for every instance; this one shows that their assumptions can
be met, and runs concrete cases.
-/

namespace LibMonetra

open Foundation

/-- The number that a string of digits denotes. -/
def digitsValue (digits : Bytes) : ℕ :=
  digits.foldl (fun value digit => value * 10 + (digit.toNat - 0x30)) 0

/-- Read a decimal number as far as the digits go. -/
def readDecimal (input : Bytes) : Option (ℕ × Bytes) :=
  let digits := input.takeWhile isDigit
  if digits = [] then none else some (digitsValue digits, input.dropWhile isDigit)

/-- Double every quote. -/
def doubleQuotes (text : Bytes) : Bytes :=
  text.flatMap fun b => if b = dquote then [dquote, dquote] else [b]

/-- A key or a value as it is serialised: quoted unless it has letters, digits and spaces only. -/
def serializeText (text : Bytes) : Bytes :=
  if text.all isAlnumSp then text else dquote :: doubleQuotes text ++ [dquote]

/-- `key=value` lines. -/
def serializePairs (dict : HashDict) : Bytes :=
  List.intercalate [lf]
    (dict.entries.map fun entry => serializeText entry.1 ++ equals :: serializeText (entry.2.getD []))

/-- Split at the delimiter outside quotes, with at most a given number of further cuts. -/
def splitOutside (delim quote : UInt8) (cuts : Option ℕ) (inside : Bool) : Bytes → List Bytes
  | [] => [[]]
  | b :: rest =>
    if b = delim ∧ inside = false ∧ cuts ≠ some 0 then
      [] :: splitOutside delim quote (cuts.map Nat.pred) false rest
    else
      match splitOutside delim quote cuts (if b = quote then !inside else inside) rest with
      | [] => [[b]]
      | first :: others => (b :: first) :: others

/-- The reference instance on a 64-bit machine. -/
def reference : Mstdlib where
  sizeBits := 64
  parserReadUint := readDecimal
  hashDictSerialize := serializePairs
  strExplodeQuoted delim str quote _ maxSections :=
    some (splitOutside delim quote (if maxSections = 0 then none else some (maxSections - 1)) false str)

/-- The value of a printed number is the number. -/
theorem digitsValue_decimal (n : ℕ) : digitsValue (decimal n) = n := by
  have hfold : ∀ (digits : List Char) (value : ℕ), (∀ c ∈ digits, c.isDigit = true) →
      (digits.map byteOf).foldl (fun value digit => value * 10 + (digit.toNat - 0x30)) value =
        Nat.ofDigitChars 10 digits value := by
    intro digits
    induction digits with
    | nil => simp
    | cons c digits ih =>
      intro value hdigits
      have hc : c.isDigit = true := hdigits c List.mem_cons_self
      simp only [Char.isDigit, Bool.and_eq_true, decide_eq_true_eq] at hc
      have hhigh : c.toNat ≤ 57 := hc.2
      have hval : (byteOf c).toNat = c.toNat := by
        simp only [byteOf, Nat.toUInt8, UInt8.toNat_ofNat']
        omega
      rw [List.map_cons, List.foldl_cons, Nat.ofDigitChars_cons, hval,
        ih _ fun d hd => hdigits d (List.mem_cons_of_mem c hd), Nat.mul_comm value 10]
      rfl
  rw [digitsValue, decimal, hfold _ _ fun c hc => Nat.isDigit_of_mem_toDigits (by decide) (by decide) hc]
  exact Nat.ofDigitChars_toDigits (by decide) (by decide)

/-- A printed number ends at the first byte that is no digit. -/
theorem takeWhile_decimal_append (n : ℕ) (rest : Bytes)
    (hrest : ∀ b, rest.head? = some b → isDigit b = false) :
    (decimal n ++ rest).takeWhile isDigit = decimal n ∧
      (decimal n ++ rest).dropWhile isDigit = rest := by
  have hall : ∀ b ∈ decimal n, isDigit b = true := fun b hb => isDigit_of_mem_decimal hb
  rw [List.takeWhile_append_of_pos hall, List.dropWhile_append_of_pos hall]
  cases rest with
  | nil => simp
  | cons b rest => simp [hrest b rfl]

/-- The reference instance reads printed numbers back. -/
theorem reference_readsDecimals : ReadsDecimals reference := by
  intro n rest _ hrest
  obtain ⟨htake, hdrop⟩ := takeWhile_decimal_append n rest hrest
  change readDecimal (decimal n ++ rest) = _
  simp only [readDecimal, htake, hdrop, if_neg (decimal_ne_nil n), digitsValue_decimal]

/-- A new connection to the default server. -/
def started : Sys := ⟨connInit (ascii "localhost") 8665, .idle, 0, none⟩

/-- It is an initial state of the library. -/
theorem started_init (lib : Mstdlib) : (monetra lib).init started :=
  ⟨ascii "localhost", 8665, by decide, by decide, rfl⟩

/-- A network that takes every connection. -/
def openNet : NetOutcome := ⟨none, none, true⟩

/-- A response frame. -/
def responseFrame (id : ℕ) (payload : Bytes) : Bytes := stx :: decimal id ++ fs :: payload ++ [etx]

/-- The random id of the sale. -/
def saleDraw : RandDraw := ⟨7, by decide⟩

/-- The random id of the ping. -/
def pingDraw : RandDraw := ⟨9, by decide⟩

/-- A sale is created as transaction 7 and sent; the connection comes up, and the reply to the
ping puts the sale on the wire. -/
def sendSale : List Action :=
  [.transNew [saleDraw], .transSetParam 0 (ascii "action") (some (ascii "sale")), .transSend 0,
    .implicitConnect openNet, .event (.connected [pingDraw] 100), .drain, .finish,
    .event (.read (responseFrame 9 (ascii "PONG"))), .resume, .deliver, .callbackReturn, .drain, .finish]

/-- The server approves the sale. -/
def answerSale : List Action :=
  [.event (.read (responseFrame 7 (ascii "code=AUTH"))), .deliver, .callbackReturn, .drain, .finish]

/-- The library with the sale on the wire. -/
def saleSent : Sys := ((monetra reference).run started sendSale).get (by decide)

/-- The library with the sale approved. -/
def saleAnswered : Sys := ((monetra reference).run saleSent answerSale).get (by decide)

/-- The first state is reachable. -/
theorem saleSent_reachable : (monetra reference).Reachable saleSent :=
  System.reachable_get _ (started_init reference) sendSale _

/-- The second state is one run further. -/
theorem saleAnswered_run : (monetra reference).run saleSent answerSale = some saleAnswered :=
  (Option.some_get _).symm

end LibMonetra
