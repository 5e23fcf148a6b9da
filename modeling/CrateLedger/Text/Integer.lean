import CrateLedger.Text.Numeral

/-!
# Integers written as text

An integer as people type it: blanks around it, a sign, and decimal digits, between which there may
be single underscores. Leading zeros are allowed, and the digits may be those of any script.
-/

namespace CrateLedger.Text

/-- The zeros of the decimal digits of Unicode 14. The other nine digits follow each of them. -/
def digitZeros : List Nat := [
  0x30, 0x660, 0x6F0, 0x7C0, 0x966, 0x9E6, 0xA66, 0xAE6, 0xB66, 0xBE6, 0xC66, 0xCE6, 0xD66, 0xDE6,
  0xE50, 0xED0, 0xF20, 0x1040, 0x1090, 0x17E0, 0x1810, 0x1946, 0x19D0, 0x1A80, 0x1A90, 0x1B50,
  0x1BB0, 0x1C40, 0x1C50, 0xA620, 0xA8D0, 0xA900, 0xA9D0, 0xA9F0, 0xAA50, 0xABF0, 0xFF10, 0x104A0,
  0x10D30, 0x11066, 0x110F0, 0x11136, 0x111D0, 0x112F0, 0x11450, 0x114D0, 0x11650, 0x116C0,
  0x11730, 0x118E0, 0x11950, 0x11C50, 0x11D50, 0x11DA0, 0x16A60, 0x16AC0, 0x16B50, 0x1D7CE,
  0x1D7D8, 0x1D7E2, 0x1D7EC, 0x1D7F6, 0x1E140, 0x1E2F0, 0x1E950, 0x1FBF0
]

/-- The value of a decimal digit of any script. -/
def decimalDigit? (c : CodePoint) : Option Nat :=
  (digitZeros.find? fun first => first ≤ c.val ∧ c.val ≤ first + 9).map fun first => c.val - first

/-- Whether a code point is a blank beside a number: horizontal and vertical white space, without
the information separators of ASCII. -/
def isBlank (c : CodePoint) : Bool :=
  let n := c.val
  (0x09 ≤ n && n ≤ 0x0D) || n = 0x20 || n = 0x85 || n = 0xA0 || n = 0x1680
    || (0x2000 ≤ n && n ≤ 0x200A) || n = 0x2028 || n = 0x2029 || n = 0x202F || n = 0x205F
    || n = 0x3000

/-- A text without blanks around it. -/
def strip (t : Text) : Text := ((t.dropWhile isBlank).reverse.dropWhile isBlank).reverse

/-- Reads digits with at most one underscore between neighbours, at least one. -/
def digits? : Text → Option (List Nat)
  | [] => none
  | [c] => (decimalDigit? c).map fun d => [d]
  | c :: e :: rest => do
    let d ← decimalDigit? c
    let ds ← if e = '_' then digits? rest else digits? (e :: rest)
    some (d :: ds)

/-- Reads an integer. -/
def integer? (t : Text) : Option Int :=
  let (negative, unsigned) : Bool × Text :=
    match strip t with
    | c :: rest =>
      if c = '-' then (true, rest) else if c = '+' then (false, rest) else (false, c :: rest)
    | [] => (false, [])
  (digits? unsigned).bind fun ds =>
    let n : Int := Numeral.ofDigits 10 ds
    if ds.length ≤ Numeral.maxDigits then some (if negative then -n else n) else none

end CrateLedger.Text
