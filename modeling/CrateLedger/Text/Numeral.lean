import CrateLedger.Text

/-!
# Numerals

Numbers as digits in a base, most significant digit first. Written numerals use the digits `0` to
`9` and then lower-case letters; a reader says which digit value it gives each character.
-/

namespace CrateLedger.Numeral

/-- The greatest number of digits of a decimal numeral that the host reads or writes. -/
def maxDigits : Nat := 4300

/-! ## Reading -/

/-- The value of a string of digits in a base. -/
def ofDigits (base : Nat) (digits : List Nat) : Nat := digits.foldl (fun n d => n * base + d) 0

/-- The value of a decimal digit, or of a lower-case letter that stands for ten and above. -/
def digitValue (c : Char) : Nat :=
  if c.isDigit then c.toNat - '0'.toNat else c.toNat - 'a'.toNat + 10

/-- A digit of a lower-case hexadecimal numeral. -/
def isHexDigit (c : Char) : Bool := c.isDigit || ('a' ≤ c && c ≤ 'f')

/-- The number that decimal digits spell; leading zeros are allowed. -/
def readDecimal (digits : List Char) : Nat := ofDigits 10 (digits.map digitValue)

/-- The number that lower-case hexadecimal digits spell. -/
def readHex (digits : List Char) : Nat := ofDigits 16 (digits.map digitValue)

/-! ## Writing -/

/-- A natural number in decimal. -/
def decimal (n : Nat) : Text := Text.ofChars (Nat.toDigits 10 n)

/-- Whether the decimal numeral of a number has no more digits than the host writes. -/
def isShort (n : Nat) : Bool := (Nat.toDigits 10 n).length ≤ maxDigits

/-- An integer in decimal, with a minus sign when it is negative. -/
def signedDecimal (z : Int) : Text :=
  if z < 0 then "-" ++ decimal z.natAbs else decimal z.natAbs

/-- An integer in decimal with its sign always shown; zero counts as positive. -/
def explicitlySigned (z : Int) : Text :=
  if z < 0 then signedDecimal z else "+" ++ signedDecimal z

/-- An integer in hexadecimal after `0x`, the sign in front of both. -/
def signedHex (z : Int) : Text :=
  let digits : Text := "0x" ++ Text.ofChars (Nat.toDigits 16 z.natAbs)
  if z < 0 then "-" ++ digits else digits

/-- A hexadecimal numeral filled with zeros up to a width. -/
def paddedHex (width n : Nat) : Text :=
  let digits := Nat.toDigits 16 n
  Text.ofChars (List.replicate (width - digits.length) '0' ++ digits)

end CrateLedger.Numeral
