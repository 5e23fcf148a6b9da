import CrateLedger.Value

/-!
# YAML numbers

The plain scalars that are numbers in YAML 1.1. An integer is written in decimal, in another base
behind a mark (`0b`, `0x`, and `0` for octal digits), or in base sixty with colons between the
places. A double has a point, and an exponent only with a sign; infinity and what is no number have
words of their own. Underscores may stand between digits and do not count.
-/

namespace CrateLedger.Yaml

/-- Takes a sign, if there is one. Gives whether it is a minus. -/
def takeSign : List Char → Bool × List Char
  | '-' :: cs => (true, cs)
  | '+' :: cs => (false, cs)
  | cs => (false, cs)

/-! ## Integers -/

/-- The value of a digit in a base, a letter in either case. -/
def digit? (base : Nat) (c : Char) : Option Nat :=
  let n := Numeral.digitValue c.toLower
  if Numeral.isHexDigit c.toLower && n < base then some n else none

/-- The number that digits in a base spell, with underscores between them. -/
def digits? (base : Nat) (cs : List Char) : Option Nat :=
  match (cs.filter (· ≠ '_')).mapM (digit? base) with
  | none | some [] => none
  | some ds => some (Numeral.ofDigits base ds)

/-- A place below the first one in base sixty, of one or two digits. -/
def sixtieth? (t : Text) : Option Nat :=
  let cs := t.map CodePoint.toChar
  match cs.mapM (digit? 10) with
  | some [n] => some n
  | some [m, n] => if m < 6 then some (10 * m + n) else none
  | _ => none

/-- An integer without its sign. -/
def natural? (cs : List Char) : Option Nat :=
  match cs with
  | '0' :: 'b' :: rest => digits? 2 rest
  | '0' :: 'x' :: rest => digits? 16 rest
  | '0' :: _ => digits? 8 cs
  | d :: _ =>
    match Text.splitAll ':' (Text.ofChars cs) with
    | [] => none
    | whole :: places => do
      if !d.isDigit then none
      let n ← digits? 10 (whole.map CodePoint.toChar)
      return Numeral.ofDigits 60 (n :: (← places.mapM sixtieth?))
  | [] => none

/-- Reads an integer. -/
def integer? (t : Text) : Option Int :=
  let (negative, unsigned) := takeSign (t.map CodePoint.toChar)
  (natural? unsigned).map fun n => if negative then -(n : Int) else n

/-! ## Doubles -/

/-- Takes digits with underscores between them. Gives them without the underscores. -/
def takeDigits (cs : List Char) : List Char × List Char :=
  let (taken, rest) := cs.span fun c => c.isDigit || c = '_'
  (taken.filter (· ≠ '_'), rest)

/-- Reads an exponent, which has to have a sign; if there is none it is zero. -/
def exponent? : List Char → Option Int
  | [] => some 0
  | e :: sign :: ds =>
    if (e = 'e' || e = 'E') && (sign = '-' || sign = '+') && !ds.isEmpty && ds.all Char.isDigit then
      let n : Int := Numeral.readDecimal ds
      some (if sign = '-' then -n else n)
    else none
  | _ => none

/-- Reads a double with a point. In front of it there is a digit, or else no sign, and a digit
right behind it. -/
def fixed? (cs : List Char) : Option Binary64 :=
  let (negative, unsigned) := takeSign cs
  let (whole, rest) := takeDigits unsigned
  match rest with
  | '.' :: rest => do
    let digitAhead := unsigned.head?.any Char.isDigit
    let digitBehind := cs.head? = some '.' && rest.head?.any Char.isDigit
    if !digitAhead && !digitBehind then none
    let (fraction, rest) := takeDigits rest
    let digits := whole ++ fraction
    return Binary64.ofDecimal negative (Numeral.readDecimal digits) digits.length
      ((← exponent? rest) - fraction.length)
  | _ => none

/-- The words that stand for infinity. -/
def infinityWords : List Text := [".inf", ".Inf", ".INF"]

/-- The words that stand for what is no number. -/
def nanWords : List Text := [".nan", ".NaN", ".NAN"]

/-- Reads a double: one with a point, infinity with or without a sign, or what is no number. -/
def double? (t : Text) : Option Binary64 :=
  let cs := t.map CodePoint.toChar
  let (negative, unsigned) := takeSign cs
  if infinityWords.contains (Text.ofChars unsigned) then some (Binary64.infinity negative)
  else if nanWords.contains t then some Binary64.nan
  else fixed? cs

/-- Reads a number. -/
def number? (t : Text) : Option Scalar :=
  match integer? t with
  | some n => some (.integer n)
  | none => (double? t).map Scalar.float

end CrateLedger.Yaml
