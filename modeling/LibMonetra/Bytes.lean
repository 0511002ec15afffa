import Mathlib.Algebra.Ring.Int.Defs
import Mathlib.Algebra.Ring.Nat
import Mathlib.Data.List.DropRight

/-!
# Bytes and C strings

The wire and the C strings of the library are lists of bytes. The character classes, the
trimming and the case-insensitive comparison follow the documented ASCII behaviour of the
C support library; a number is printed by `M_buf_add_uint` in decimal, most significant
digit first.
-/

namespace LibMonetra

/-- A byte string. A C string is one without the byte `0`. -/
abbrev Bytes := List UInt8

/-- The byte of an ASCII character. -/
def byteOf (c : Char) : UInt8 := c.toNat.toUInt8

/-- The bytes of an ASCII literal. -/
def ascii (text : String) : Bytes := text.toList.map byteOf

/-- Start of a frame. -/
def stx : UInt8 := 0x02

/-- End of a frame. -/
def etx : UInt8 := 0x03

/-- Field separator between the transaction id and the data. -/
def fs : UInt8 := 0x1c

def dquote : UInt8 := 0x22

def equals : UInt8 := 0x3d

def comma : UInt8 := 0x2c

def lf : UInt8 := 0x0a

def cr : UInt8 := 0x0d

/-- Decimal digits `0` to `9`. -/
def isDigit (b : UInt8) : Bool := 0x30 ≤ b && b ≤ 0x39

/-- ASCII letters. -/
def isAlpha (b : UInt8) : Bool := (0x41 ≤ b && b ≤ 0x5a) || (0x61 ≤ b && b ≤ 0x7a)

/-- `M_chr_isspace`: tab, the line and form controls, and the space. -/
def isSpace (b : UInt8) : Bool := (0x09 ≤ b && b ≤ 0x0d) || b == 0x20

/-- `M_chr_isalnumsp`: exactly the letters, the digits and the space. -/
def isAlnumSp (b : UInt8) : Bool := isAlpha b || isDigit b || b == 0x20

/-- The lower-case form of an ASCII letter; every other byte is left alone. -/
def lower (b : UInt8) : UInt8 := if 0x41 ≤ b && b ≤ 0x5a then b + 0x20 else b

/-- `M_str_caseeq` on two strings. -/
def strCaseeq (left right : Bytes) : Bool := left.map lower == right.map lower

/-- `M_str_trim`: drop leading and trailing whitespace. -/
def strTrim (str : Bytes) : Bytes := (str.dropWhile isSpace).rdropWhile isSpace

/-- The C string stored at the start of a byte array. -/
def cstr (bytes : Bytes) : Bytes := bytes.takeWhile (· != 0)

/-- `M_buf_add_uint`: the decimal form of a number. -/
def decimal (n : ℕ) : Bytes := (Nat.toDigits 10 n).map byteOf

/-- Every byte of a printed number is a digit. -/
theorem isDigit_of_mem_decimal {n : ℕ} {b : UInt8} (hb : b ∈ decimal n) : isDigit b = true := by
  obtain ⟨c, hc, rfl⟩ := List.mem_map.mp hb
  have hdigit := Nat.isDigit_of_mem_toDigits (by decide) (by decide) hc
  simp only [Char.isDigit, Bool.and_eq_true, decide_eq_true_eq] at hdigit
  have hlow : 48 ≤ c.toNat := hdigit.1
  have hhigh : c.toNat ≤ 57 := hdigit.2
  simp only [byteOf, isDigit, Bool.and_eq_true, decide_eq_true_eq, UInt8.le_iff_toNat_le]
  have hval : c.toNat.toUInt8.toNat = c.toNat := by
    simp only [Nat.toUInt8, UInt8.toNat_ofNat']
    omega
  rw [hval]
  exact ⟨hlow, hhigh⟩

/-- A printed number is never empty. -/
theorem decimal_ne_nil (n : ℕ) : decimal n ≠ [] := by
  simp [decimal, Nat.toDigits_ne_nil]

/-- A printed number is one byte long exactly below ten. -/
theorem decimal_length_le_one_iff (n : ℕ) : (decimal n).length ≤ 1 ↔ n < 10 := by
  have h := Nat.length_toDigits_le_iff (n := n) (by decide : 1 < 10) (by decide : 0 < 1)
  simpa [decimal] using h

/-- No control byte of the framing occurs in a printed number. -/
theorem not_mem_decimal {n : ℕ} {b : UInt8} (hb : isDigit b = false) : b ∉ decimal n :=
  fun h => by simp [isDigit_of_mem_decimal h] at hb

end LibMonetra
