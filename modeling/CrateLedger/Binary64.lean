import CrateLedger.Text.Numeral

/-!
# Double-precision numbers

Binary floating point of 64 bits, as a bit pattern whose finite values are exact multiples of
`2 ^ -1074`. Arithmetic goes through these integers: a result is the exact rational number, rounded
once to the nearest double, a tie to the one with an even significand. A rational that rounds to
`2 ^ 1024` or more becomes infinite.
-/

namespace CrateLedger

/-- A double, by its bits. -/
structure Binary64 where
  /-- Sign, exponent and fraction, from the most significant bit down. -/
  bits : UInt64
  deriving DecidableEq, Repr

/-- The quotient of two numbers rounded to the nearest integer, a tie to the even one. -/
def roundHalfEven (n d : Nat) : Nat :=
  let (q, r) := (n / d, n % d)
  if 2 * r > d ∨ (2 * r = d ∧ q % 2 = 1) then q + 1 else q

namespace Binary64

/-- How many units of the last place a one has, where a unit is the least positive double. -/
def unitsPerOne : Nat := Nat.pow 2 1074

/-- The leading bit of the significand of a normal double, which its bits leave out; also what the
exponent counts in. -/
def hiddenBit : Nat := 0x10000000000000

/-- The bit that is set for a negative number. -/
def signBit : Nat := 0x8000000000000000

/-- The bits of an infinity without its sign. -/
def infinityBits : Nat := 2047 * hiddenBit

/-! ## Reading the fields -/

/-- Whether the sign bit is set, which also zero and infinity can have. -/
def isNegative (x : Binary64) : Bool := signBit ≤ x.bits.toNat

/-- The bits without the sign. -/
def magnitudeBits (x : Binary64) : Nat := x.bits.toNat % signBit

/-- Neither infinite nor no number at all. -/
def isFinite (x : Binary64) : Bool := x.magnitudeBits < infinityBits

/-- Not a number. -/
def isNaN (x : Binary64) : Bool := infinityBits < x.magnitudeBits

/-- The absolute value of a finite double, in units. -/
def units (x : Binary64) : Nat :=
  let exponent := x.magnitudeBits / hiddenBit
  let fraction := x.magnitudeBits % hiddenBit
  if exponent = 0 then fraction else (hiddenBit + fraction) * Nat.pow 2 (exponent - 1)

/-- The value of a finite double in units, with its sign. -/
def signedUnits (x : Binary64) : Int := if x.isNegative then -(x.units : Int) else x.units

/-! ## Constructing -/

/-- The double of a sign and the bits without it. -/
def ofMagnitudeBits (negative : Bool) (magnitude : Nat) : Binary64 :=
  ⟨UInt64.ofNat (if negative then signBit + magnitude else magnitude)⟩

/-- The infinity of a sign. -/
def infinity (negative : Bool) : Binary64 := ofMagnitudeBits negative infinityBits

/-- A double that is not a number. -/
def nan : Binary64 := ⟨0x7FF8000000000000⟩

/-- The double nearest to a number of units, given as a quotient. A significand of 53 bits scaled
by a power of two has the bits of `scale * 2 ^ 52 + significand`, whether or not the leading bit is
there, and a significand that rounds up to `2 ^ 53` carries into the exponent by itself. -/
def ofUnits (negative : Bool) (n d : Nat) : Binary64 :=
  let scale := Nat.log2 (n / d) - 52
  let magnitude := scale * hiddenBit + roundHalfEven n (d * Nat.pow 2 scale)
  ofMagnitudeBits negative (min magnitude infinityBits)

/-- The double nearest to a quotient of natural numbers with a sign. -/
def ofRatio (negative : Bool) (n d : Nat) : Binary64 := ofUnits negative (n * unitsPerOne) d

/-- The quotient of two integers, the second not zero, or nothing if it is too large. The sign is
that of the quotient of the signs, a zero numerator counting as positive. -/
def divide? (a b : Int) : Option Binary64 :=
  let x := ofRatio (decide (a < 0) != decide (b < 0)) a.natAbs b.natAbs
  if x.isFinite then some x else none

/-- The product with a natural number. -/
def timesNat (x : Binary64) (k : Nat) : Binary64 :=
  if x.isFinite then ofUnits x.isNegative (x.units * k) 1 else x

/-- The double nearest to `digits * 10 ^ exponent`, where there are at most `count` digits. An
exponent far outside the range of doubles is not carried out. -/
def ofDecimal (negative : Bool) (digits count : Nat) (exponent : Int) : Binary64 :=
  if digits = 0 ∨ exponent + count < -400 then ofMagnitudeBits negative 0
  else if exponent > 400 then infinity negative
  else if exponent < 0 then ofRatio negative digits (Nat.pow 10 exponent.natAbs)
  else ofRatio negative (digits * Nat.pow 10 exponent.natAbs) 1

/-! ## Results -/

/-- The integer part of a finite double. -/
def truncate (x : Binary64) : Int :=
  let n : Int := x.units / unitsPerOne
  if x.isNegative then -n else n

/-- One decimal place, a half going to the even neighbour, with the sign always shown. -/
def signedTenths (x : Binary64) : Text :=
  let sign : Text := if x.isNegative then "-" else "+"
  if x.isNaN then "+nan"
  else if !x.isFinite then sign ++ "inf"
  else
    let tenths := roundHalfEven (x.units * 10) unitsPerOne
    sign ++ Numeral.decimal (tenths / 10) ++ "." ++ Numeral.decimal (tenths % 10)

/-- The bits as sixteen hexadecimal digits. -/
def hexBits (x : Binary64) : Text := Numeral.paddedHex 16 x.bits.toNat

end Binary64

end CrateLedger
