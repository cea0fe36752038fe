/-
  Numerals: the written form of the numbers that patterns and dumps hold.

  Counts are written in decimal, code points in hexadecimal with small letters; hexadecimal digits
  are read in either case, and octal ones only after a backslash.  What is read is given as a
  function of the digits (`ofDecimal`, `ofOctal`, `ofHex?`), whatever their number: bounds on
  numbers are the business of the readers that use them.
-/

namespace RegexTree.Numeral

/-- A natural number in decimal. -/
def decimal (n : Nat) : List Char := Nat.toDigits 10 n

/-- An integer in decimal, with a sign only if it is negative. -/
def signed (n : Int) : List Char :=
  if n < 0 then '-' :: decimal n.natAbs else decimal n.natAbs

/-- A natural number in hexadecimal. -/
def hex (n : Nat) : List Char := Nat.toDigits 16 n

/-- A natural number in hexadecimal with at least two digits. -/
def hexPair (n : Nat) : List Char := if n < 16 then '0' :: hex n else hex n

/-- A decimal digit. -/
def isDecimal (c : Char) : Bool := '0' ≤ c && c ≤ '9'

/-- An octal digit. -/
def isOctal (c : Char) : Bool := '0' ≤ c && c ≤ '7'

/-- The number that decimal digits write. -/
def ofDecimal (digits : List Char) : Nat := Nat.ofDigitChars 10 digits 0

/-- The number that octal digits write. -/
def ofOctal (digits : List Char) : Nat := Nat.ofDigitChars 8 digits 0

/-- The value of a hexadecimal digit, in either case. -/
def hexDigit? (c : Char) : Option Nat :=
  if isDecimal c then some (c.toNat - '0'.toNat)
  else if 'a' ≤ c && c ≤ 'f' then some (c.toNat - 'a'.toNat + 10)
  else if 'A' ≤ c && c ≤ 'F' then some (c.toNat - 'A'.toNat + 10)
  else none

/-- The number that a text writes in hexadecimal, if all of its characters are digits. -/
def ofHex? (text : List Char) : Option Nat :=
  text.foldlM (fun n c => (hexDigit? c).map (n * 16 + ·)) 0

/-- What is written in decimal reads back. -/
theorem ofDecimal_decimal (n : Nat) : ofDecimal (decimal n) = n :=
  Nat.ofDigitChars_toDigits (by decide) (by decide)

example : hexPair 10 = ['0', 'a'] := by decide

end RegexTree.Numeral
