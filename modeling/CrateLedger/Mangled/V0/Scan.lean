import CrateLedger.Mangled.Error
import CrateLedger.Mangled.V0.Syntax
import CrateLedger.Text.Punycode

/-!
# Reading v0 names

The lexical level of v0 names: numbers, identifiers and constants. A reader looks at an array of
characters, takes a state, and gives a value and the next state or fails. At this level the state
is a position.

A constant can be a back reference to an earlier constant. Each reference leads to a smaller
position than its own, so a chain of them ends. Following one opens calls in the host as an open path
or type does, but these are not counted among the levels of the grammar: a chain of several hundred
references can run into the limit that the host itself sets to open calls, where it gives the name
up, and no such limit is modelled.

Integer constants and the disambiguators of special items are shown in decimal. Reading fails for
good on one that has too many digits for the host.
-/

namespace CrateLedger.Mangled.V0

/-- Why reading a name ends without a result. -/
inductive Failure where
  /-- The text does not follow the grammar. -/
  | invalid
  /-- The text spells a number that cannot be used. -/
  | number (error : NumberError)
  deriving DecidableEq, Repr

/-- A reader of characters with a state. -/
def Reader (σ α : Type) := Array Char → σ → Except Failure (α × σ)

namespace Reader

variable {σ α β : Type}

/-- Gives a value and leaves the state. -/
def pure (a : α) : Reader σ α := fun _ state => .ok (a, state)

/-- Reads one thing, then another that depends on it. -/
def bind (first : Reader σ α) (next : α → Reader σ β) : Reader σ β := fun input state =>
  match first input state with
  | .ok (a, state) => next a input state
  | .error e => .error e

instance : Monad (Reader σ) where
  pure := pure
  bind := bind

/-- Refuses the text. -/
def invalid : Reader σ α := fun _ _ => .error .invalid

/-- Fails because of a number that cannot be used. -/
def raise (e : NumberError) : Reader σ α := fun _ _ => .error (.number e)

end Reader

/-- A reader whose state is a position. -/
abbrev Scan := Reader Nat

namespace Scan

/-! ## Characters -/

/-- The character at the position, if there is one. -/
def peek : Scan (Option Char) := fun input p => .ok (input[p]?, p)

/-- Takes a character. -/
def next : Scan Char := fun input p =>
  match input[p]? with
  | some c => .ok (c, p + 1)
  | none => .error .invalid

/-- Takes a given character if it is the next one, and says whether it was. -/
def eat (c : Char) : Scan Bool := fun input p =>
  if input[p]? = some c then .ok (true, p + 1) else .ok (false, p)

/-- Takes a given number of characters. -/
def take (n : Nat) : Scan (List Char) := fun input p =>
  if p + n ≤ input.size then .ok ((input.extract p (p + n)).toList, p + n) else .error .invalid

/-- The characters from a position on that belong to a class. -/
def runAt (belongs : Char → Bool) (input : Array Char) (p : Nat) : List Char :=
  if h : p < input.size then
    if belongs input[p] then input[p] :: runAt belongs input (p + 1) else []
  else []
termination_by input.size - p

/-- Takes characters as long as they belong to a class. -/
def takeWhile (belongs : Char → Bool) : Scan (List Char) := fun input p =>
  let run := runAt belongs input p
  .ok (run, p + run.length)

/-- Takes a given character and refuses any other. -/
def expect (c : Char) : Scan Unit := do
  if ← eat c then return () else Reader.invalid

/-! ## Numbers -/

/-- The value of a base-62 digit: digits, then lower-case, then upper-case letters. -/
def base62Value (c : Char) : Nat :=
  if c.isDigit then c.toNat - '0'.toNat
  else if c.isLower then c.toNat - 'a'.toNat + 10
  else c.toNat - 'A'.toNat + 36

/-- A base-62 number ended by an underscore. The underscore alone is zero, and digits give one more
than what they spell. -/
def base62 : Scan Nat := do
  if ← eat '_' then return 0
  let digits ← takeWhile Char.isAlphanum
  expect '_'
  return Numeral.ofDigits 62 (digits.map base62Value) + 1

/-- A decimal number without leading zeros; a zero ends it. -/
def decimal : Scan Nat := do
  if ← eat '0' then return 0
  match ← takeWhile Char.isDigit with
  | [] => Reader.invalid
  | digits => return Numeral.readDecimal digits

/-- A base-62 number announced by a letter, if the letter is there. -/
def tagged? (tag : Char) : Scan (Option Nat) := do
  if ← eat tag then return some (← base62) else return none

/-- Lets a number pass that is shown in decimal, unless it has too many digits. -/
def shown (n : Nat) : Scan Unit :=
  if Numeral.isShort n then return ()
  else Reader.raise (.tooLong (Nat.toDigits 10 n).length)

/-- A disambiguator, which is zero unless it is written and then at least one. -/
def disambiguator : Scan Nat := do
  match ← tagged? 's' with
  | some n => return n + 1
  | none => return 0

/-! ## Identifiers -/

/-- Puts a hyphen in the place of the last underscore, which stands for it in identifiers. -/
def restoreDelimiter (s : List Char) : List Char :=
  match Punycode.splitLast '_' s with
  | some (basic, digits) => basic ++ '-' :: digits
  | none => s

/-- The text of an identifier whose characters are Punycode. -/
def decodePunycode (s : List Char) : Scan Text :=
  match Punycode.decode? (restoreDelimiter s) with
  | some t => return t
  | none => Reader.invalid

/-- A length-prefixed identifier, marked by `u` if it is Punycode. An underscore after the length
keeps apart the digits of the length and those of the identifier. -/
def rawIdentifier : Scan Text := do
  let isPunycode ← eat 'u'
  let length ← decimal
  let _ ← eat '_'
  let text ← take length
  if isPunycode then decodePunycode text else return Text.ofChars text

/-- An identifier with its disambiguator in front. -/
def identifier : Scan (Nat × Text) := do
  let d ← disambiguator
  return (d, ← rawIdentifier)

/-- The identifier of an item in a namespace. Where the namespace is a special one, which has an
upper-case letter, the disambiguator is shown. -/
def itemName (space : Char) : Scan (Nat × Text) := do
  let (d, name) ← identifier
  if space.isUpper then shown d
  return (d, name)

/-! ## Constants -/

/-- The constant of a type letter, a sign and an absolute value. Only integers have a sign. -/
def constOf (tag : Char) (negative : Bool) (n : Nat) : Scan Const :=
  match BasicType.ofTag? tag with
  | some .bool =>
    match n with
    | 0 => return .bool false
    | 1 => return .bool true
    | _ => Reader.invalid
  | some .char =>
    match codePoint n with
    | .ok c => return .char c
    | .error e => Reader.raise e
  | some type =>
    if type.isInteger then do
      shown n
      return .integer type (if negative then -(n : Int) else n)
    else Reader.invalid
  | none => Reader.invalid

/-- A constant that is spelled out: its type, a sign, and a hexadecimal number ended by an
underscore. -/
def literal : Scan Const := do
  let tag ← next
  let negative ← eat 'n'
  let digits ← takeWhile Numeral.isHexDigit
  expect '_'
  constOf tag negative (Numeral.readHex digits)

/-- A constant. After a back reference reading goes on behind the reference. -/
def const (input : Array Char) (p : Nat) : Except Failure (Const × Nat) :=
  match input[p]? with
  | some 'p' => .ok (.placeholder, p + 1)
  | some 'B' =>
    match base62 input (p + 1) with
    | .ok (target, after) =>
      if target < p then
        match const input target with
        | .ok (value, _) => .ok (value, after)
        | .error e => .error e
      else .error .invalid
    | .error e => .error e
  | _ => literal input p
termination_by p

end Scan

end CrateLedger.Mangled.V0
