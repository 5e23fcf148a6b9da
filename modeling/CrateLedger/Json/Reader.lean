import CrateLedger.Value

/-!
# Reading JSON

One document, with blanks around it. The last of several equal keys wins. Numbers without a
fraction and an exponent are integers of any size, others are doubles; `NaN`, `Infinity` and
`-Infinity` are read as well. In a string, two `\u` escapes that form a surrogate pair are one code
point, and a surrogate that is not part of a pair stands for itself; control characters have to be
escaped.

A reader of one construct gives its value and the text behind it. Lists and objects can be nested,
so the readers take a number that bounds how many of them are open; each opens behind a character
of its own or behind the start of the list or object it is in, so twice the length of the text is
always enough. What is left of the number is then also enough for the characters of a string.
-/

namespace CrateLedger

/-- The code point that a high and a low surrogate stand for together. -/
def CodePoint.joined? (high low : CodePoint) : Option CodePoint :=
  if h : (0xD800 ≤ high.val ∧ high.val ≤ 0xDBFF) ∧ 0xDC00 ≤ low.val ∧ low.val ≤ 0xDFFF then
    some ⟨0x10000 + (high.val - 0xD800) * 0x400 + (low.val - 0xDC00), by omega⟩
  else none

namespace Json

/-! ## Tokens -/

/-- Space, tab, line feed or carriage return. -/
def isBlank (c : CodePoint) : Bool := c = ' ' || c = '\t' || c = '\n' || c = '\r'

/-- The text from the first character on that is no blank. -/
def skipBlanks (t : Text) : Text := t.dropWhile isBlank

/-- The value of a hexadecimal digit in either case. -/
def hexDigit? (c : CodePoint) : Option Nat :=
  let ch := c.toChar.toLower
  if Numeral.isHexDigit ch then some (Numeral.digitValue ch) else none

/-- Reads four hexadecimal digits. -/
def codeUnit? : Text → Option (Fin 0x10000 × Text)
  | a :: b :: c :: d :: rest => do
    let n := Numeral.ofDigits 16 [← hexDigit? a, ← hexDigit? b, ← hexDigit? c, ← hexDigit? d]
    if h : n < 0x10000 then some (⟨n, h⟩, rest) else none
  | _ => none

/-- Reads the digits of a `\u` escape and, if it is the first half of a pair, its second half. A
high surrogate that is followed by `\u` needs digits there even if they complete no pair. -/
def unicodeEscape? (t : Text) : Option (CodePoint × Text) := do
  let (unit, rest) ← codeUnit? t
  let alone : CodePoint := unit.castLE (by decide)
  if 0xD800 ≤ unit.val ∧ unit.val ≤ 0xDBFF then
    match rest with
    | slash :: u :: more =>
      if slash = '\\' ∧ u = 'u' then
        let (second, after) ← codeUnit? more
        match CodePoint.joined? alone (second.castLE (by decide)) with
        | some c => some (c, after)
        | none => some (alone, rest)
      else some (alone, rest)
    | _ => some (alone, rest)
  else some (alone, rest)

/-- The character of an escape by a single letter. -/
def letterEscape? (c : CodePoint) : Option CodePoint :=
  match c.toChar with
  | '"' => some '"' | '\\' => some '\\' | '/' => some '/' | 'b' => some '\x08' | 'f' => some '\x0c'
  | 'n' => some '\n' | 'r' => some '\r' | 't' => some '\t'
  | _ => none

/-- Reads a string whose opening quote has been taken. The number bounds the characters of it. -/
def string? : Nat → Text → Option (Text × Text)
  | 0, _ => none
  | _, [] => none
  | n + 1, c :: rest =>
    if c = '"' then some ([], rest)
    else if c = '\\' then
      match rest with
      | [] => none
      | e :: more => do
        let (c, more) ←
          if e = 'u' then unicodeEscape? more else (letterEscape? e).map fun c => (c, more)
        let (s, after) ← string? n more
        some (c :: s, after)
    else if c.val < 0x20 then none
    else (string? n rest).map fun (s, after) => (c :: s, after)

/-- Takes a run of decimal digits. -/
def takeDigits (t : Text) : List Char × Text :=
  ((t.takeWhile fun c => c.toChar.isDigit).map CodePoint.toChar,
    t.dropWhile fun c => c.toChar.isDigit)

/-- Takes a point and at least one digit, if they are there. -/
def takeFraction (t : Text) : List Char × Text :=
  match t with
  | c :: rest =>
    if c = '.' then
      match takeDigits rest with
      | ([], _) => ([], t)
      | taken => taken
    else ([], t)
  | [] => ([], [])

/-- Takes an exponent with at least one digit, if it is there. -/
def takeExponent (t : Text) : Option Int × Text :=
  match t with
  | c :: rest =>
    if c = 'e' ∨ c = 'E' then
      let (negative, unsigned) : Bool × Text :=
        match rest with
        | s :: more =>
          if s = '-' then (true, more) else if s = '+' then (false, more) else (false, rest)
        | [] => (false, rest)
      match takeDigits unsigned with
      | ([], _) => (none, t)
      | (digits, after) =>
        let n : Int := Numeral.readDecimal digits
        (some (if negative then -n else n), after)
    else (none, t)
  | [] => (none, [])

/-- Reads a number without its sign: a zero, or digits that do not start with one, then a fraction
and an exponent, each of which may be missing. -/
def number? (negative : Bool) (t : Text) : Option (Scalar × Text) :=
  let (digits, rest) := takeDigits t
  let (whole, rest) :=
    match digits with
    | '0' :: more => (['0'], Text.ofChars more ++ rest)
    | ds => (ds, rest)
  if whole.isEmpty then none
  else
    let (fraction, rest) := takeFraction rest
    let (exponent, rest) := takeExponent rest
    if fraction.isEmpty ∧ exponent.isNone then
      let n : Int := Numeral.readDecimal whole
      some (.integer (if negative then -n else n), rest)
    else
      let digits := whole ++ fraction
      let x := Binary64.ofDecimal negative (Numeral.readDecimal digits) digits.length
        (exponent.getD 0 - fraction.length)
      some (.float x, rest)

/-- The words that stand for scalars. -/
def words : List (Text × Scalar) :=
  [("null", .null), ("true", .bool true), ("false", .bool false), ("NaN", .float Binary64.nan),
    ("Infinity", .float (Binary64.infinity false)), ("-Infinity", .float (Binary64.infinity true))]

/-- Reads a scalar that is no string. -/
def plainScalar? (t : Text) : Option (Scalar × Text) :=
  match words.findSome? fun w => (Text.dropHead? w.1 t).map fun rest => (w.2, rest) with
  | some found => some found
  | none =>
    match t with
    | c :: rest => if c = '-' then number? true rest else number? false t
    | [] => none

/-! ## Documents -/

mutual

/-- Reads a value that starts with the first character. -/
def value? : Nat → Text → Option (Value × Text)
  | 0, _ => none
  | _, [] => none
  | n + 1, c :: rest =>
    if c = '"' then (string? n rest).map fun (s, after) => (.text s, after)
    else if c = '[' then
      match skipBlanks rest with
      | [] => none
      | d :: after =>
        if d = ']' then some (.list [], after)
        else (items? n (d :: after)).map fun (vs, after) => (.list vs, after)
    else if c = '\x7b' then
      match skipBlanks rest with
      | [] => none
      | d :: after =>
        if d = '\x7d' then some (.object [], after)
        else (fields? n (d :: after)).map fun (fs, after) => (.object (Fields.ofWritten fs), after)
    else (plainScalar? (c :: rest)).map fun (s, after) => (.scalar s, after)

/-- Reads the items of a list, at least one, and its closing bracket. -/
def items? : Nat → Text → Option (List Value × Text)
  | 0, _ => none
  | n + 1, t => do
    let (v, after) ← value? n t
    match skipBlanks after with
    | [] => none
    | c :: rest =>
      if c = ']' then some ([v], rest)
      else if c = ',' then
        let (vs, after) ← items? n (skipBlanks rest)
        some (v :: vs, after)
      else none

/-- Reads the fields of an object, at least one, and its closing brace. -/
def fields? : Nat → Text → Option (List (Scalar × Value) × Text)
  | 0, _ => none
  | _, [] => none
  | n + 1, c :: rest => do
    if c ≠ '"' then none
    let (key, after) ← string? n rest
    match skipBlanks after with
    | [] => none
    | c :: rest =>
      if c ≠ ':' then none
      let (v, after) ← value? n (skipBlanks rest)
      match skipBlanks after with
      | [] => none
      | c :: rest =>
        if c = '\x7d' then some ([(.text key, v)], rest)
        else if c = ',' then
          let (fs, after) ← fields? n (skipBlanks rest)
          some ((.text key, v) :: fs, after)
        else none

end

/-- Reads a whole text as one document. -/
def read? (t : Text) : Option Value := do
  let (v, rest) ← value? (2 * t.length + 2) (skipBlanks t)
  if (skipBlanks rest).isEmpty then some v else none

end Json

end CrateLedger
