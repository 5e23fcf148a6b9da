import CrateLedger.Binary64

/-!
# Shortest decimals

A double in decimal with the fewest digits that read back to it. There is a grid of decimals for
each number of digits, and the value lies between two neighbours on it; the first grid on which one
of these reads back has the answer, and if both do, the nearer one is taken, a tie to the even one.
-/

namespace CrateLedger.Binary64

/-! ## Digits -/

/-- A decimal: an integer and the power of ten that it counts. -/
structure Decimal where
  /-- The digits as an integer. -/
  digits : Nat
  /-- The power of ten. -/
  exponent : Int
  deriving DecidableEq, Repr

/-- The digits of a number, the most significant first. -/
def digitsOf (n : Nat) : List Char := Nat.toDigits 10 n

/-- Whether a decimal is read as a double, apart from the sign. -/
def isReadFrom (x : Binary64) (d : Decimal) : Bool :=
  (ofDecimal x.isNegative d.digits (digitsOf d.digits).length d.exponent) = x

/-- The absolute value of a finite double in powers of ten with an exponent, as a quotient. -/
def inPowersOfTen (x : Binary64) (exponent : Int) : Nat × Nat :=
  let power := Nat.pow 10 exponent.natAbs
  if 0 ≤ exponent then (x.units, unitsPerOne * power) else (x.units * power, unitsPerOne)

/-- The exponent of the leading digit of a finite double that is not zero. The least double is far
greater than ten to the power of minus 400. -/
def leadingExponent (x : Binary64) : Int :=
  let (n, d) := x.inPowersOfTen (-400)
  (digitsOf (n / d)).length - 401

/-- The neighbour on a grid that is read as a double, the nearer one if both are. -/
def neighbour? (x : Binary64) (exponent : Int) : Option Decimal :=
  let (n, d) := x.inPowersOfTen exponent
  let low : Decimal := ⟨n / d, exponent⟩
  let high : Decimal := ⟨n / d + 1, exponent⟩
  match x.isReadFrom low, x.isReadFrom high with
  | true, true => some (if roundHalfEven n d = low.digits then low else high)
  | true, false => some low
  | false, true => some high
  | false, false => none

/-- The shortest decimal of a finite double that is not zero. Seventeen digits are enough for every
double. -/
def shortest (x : Binary64) : Decimal :=
  let e := x.leadingExponent
  ((List.range 17).findSome? fun places : Nat => x.neighbour? (e - places)).getD ⟨0, 0⟩

/-! ## Layout -/

/-- Digits with a point behind the first of them, unless there is only one, and an exponent of at
least two digits with its sign. -/
def scientific (digits : Text) (exponent : Int) : Text :=
  let fraction : Text := if digits.length ≤ 1 then [] else '.' :: digits.drop 1
  let power := Numeral.decimal exponent.natAbs
  let padded : Text := if power.length < 2 then '0' :: power else power
  digits.take 1 ++ fraction ++ (if exponent < 0 then "e-" else "e+") ++ padded

/-- Digits with a point in its place, and a digit on either side of it. -/
def positional (digits : Text) (exponent : Int) : Text :=
  let zeros (n : Nat) : Text := List.replicate n '0'
  if exponent < 0 then ("0." : Text) ++ zeros (exponent.natAbs - 1) ++ digits
  else
    let whole : Text := digits.take (exponent.natAbs + 1)
    let fraction : Text := digits.drop (exponent.natAbs + 1)
    whole ++ zeros (exponent.natAbs + 1 - whole.length) ++ "."
      ++ (if fraction.isEmpty then zeros 1 else fraction)

/-- The text of a double, with given words for what is no number and for infinity. The point is in
its place from a ten-thousandth up to below ten to the power of sixteen. -/
def shown (nan infinity : Text) (x : Binary64) : Text :=
  let sign : Text := if x.isNegative then "-" else []
  if x.isNaN then nan
  else if !x.isFinite then sign ++ infinity
  else if x.units = 0 then sign ++ "0.0"
  else
    let decimal := x.shortest
    let digits := digitsOf decimal.digits
    let exponent := decimal.exponent + digits.length - 1
    let significant := Text.ofChars (digits.reverse.dropWhile (· = '0')).reverse
    sign ++ (if -4 ≤ exponent ∧ exponent < 16 then positional significant exponent
      else scientific significant exponent)

end CrateLedger.Binary64
