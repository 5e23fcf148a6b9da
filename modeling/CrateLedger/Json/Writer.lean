import CrateLedger.Value

/-!
# Writing JSON

A document in ASCII. Without an indentation it takes one line, with a space behind each comma and
colon; with one, each item and field has a line of its own, indented by its depth, and only empty
lists and objects stay on one line. Code points beyond ASCII are written as `\u` escapes, those
beyond `U+FFFF` as a surrogate pair.
-/

namespace CrateLedger.Json

/-! ## Strings -/

/-- The escape of one code unit of UTF-16. -/
def unitEscape (n : Nat) : Text := "\\u" ++ Numeral.paddedHex 4 n

/-- How a code point is written inside quotes. -/
def writeCodePoint (c : CodePoint) : Text :=
  if c = '"' then "\\\""
  else if c = '\\' then "\\\\"
  else if c = '\n' then "\\n"
  else if c = '\r' then "\\r"
  else if c = '\t' then "\\t"
  else if c = '\x08' then "\\b"
  else if c = '\x0c' then "\\f"
  else if 0x20 ≤ c.val ∧ c.val < 0x7F then [c]
  else if c.val < 0x10000 then unitEscape c.val
  else
    let n := c.val - 0x10000
    unitEscape (0xD800 + n / 0x400) ++ unitEscape (0xDC00 + n % 0x400)

/-- A text as a JSON string. -/
def writeString (t : Text) : Text := "\"" ++ t.flatMap writeCodePoint ++ "\""

/-! ## Documents -/

/-- A scalar. Doubles are written so that they are read back. -/
def writeScalar : Scalar → Text
  | .null => "null"
  | .bool true => "true"
  | .bool false => "false"
  | .integer n => Numeral.signedDecimal n
  | .float x => x.shown "NaN" "Infinity"
  | .text t => writeString t

/-- The key of a field, which is always a string. -/
def writeKey : Scalar → Text
  | .text t => writeString t
  | s => writeString (writeScalar s)

/-- Puts brackets around parts that have been written, at a depth of nesting. -/
def enclose (indent : Option Nat) (depth : Nat) (opening closing : Text) (parts : List Text) :
    Text :=
  if parts.isEmpty then opening ++ closing
  else
    match indent with
    | none => opening ++ Text.join ", " parts ++ closing
    | some width =>
      let line (depth : Nat) : Text := '\n' :: List.replicate (width * depth) ' '
      opening ++ line (depth + 1) ++ Text.join (',' :: line (depth + 1)) parts ++ line depth
        ++ closing

mutual

/-- A document at a depth of nesting. -/
def writeAt (indent : Option Nat) (depth : Nat) : Value → Text
  | .scalar s => writeScalar s
  | .list items => enclose indent depth "[" "]" (writeItems indent (depth + 1) items)
  | .object fields => enclose indent depth "\x7b" "\x7d" (writeFields indent (depth + 1) fields)

/-- The items of a list. -/
def writeItems (indent : Option Nat) (depth : Nat) : List Value → List Text
  | [] => []
  | v :: vs => writeAt indent depth v :: writeItems indent depth vs

/-- The fields of an object. -/
def writeFields (indent : Option Nat) (depth : Nat) : List (Scalar × Value) → List Text
  | [] => []
  | (key, value) :: rest =>
    (writeKey key ++ ": " ++ writeAt indent depth value) :: writeFields indent depth rest

end

/-- A document as JSON, on one line or indented. An indentation below zero is none, but the lines
stay. -/
def write (indent : Option Int) (v : Value) : Text := writeAt (indent.map Int.toNat) 0 v

end CrateLedger.Json
