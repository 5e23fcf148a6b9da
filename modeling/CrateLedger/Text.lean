/-!
# Text

Symbol names, crate names and messages are sequences of Unicode code points. A decoded symbol name
may hold a surrogate code point (an escape can spell any number below the limit of Unicode), and a
surrogate is not a scalar value, so `Char` and `String` are too narrow. Here a code point is any
number below `0x110000` and a text is a list of them.

Texts are ordered lexicographically by code point, the order that `List` puts on them.
-/

namespace CrateLedger

/-- A Unicode code point, surrogates included. -/
abbrev CodePoint := Fin 0x110000

/-- A text: any sequence of code points. -/
abbrev Text := List CodePoint

/-! ## Code points -/

/-- Every scalar value is a code point. -/
theorem toNat_lt_codePoints (c : Char) : c.toNat < 0x110000 := by
  have h := c.valid
  simp only [UInt32.isValidChar, Nat.isValidChar] at h
  have e : c.toNat = c.val.toNat := rfl
  omega

namespace CodePoint

/-- The code point of a character. -/
def ofChar (c : Char) : CodePoint := ⟨c.toNat, toNat_lt_codePoints c⟩

/-- A code point between `U+D800` and `U+DFFF`: half of a pair in UTF-16, and no scalar value. -/
def isSurrogate (c : CodePoint) : Bool := 0xD800 ≤ c.val && c.val ≤ 0xDFFF

/-- The character of a code point; a surrogate has none and gives the replacement character. -/
def toChar (c : CodePoint) : Char := if c.isSurrogate then '\uFFFD' else Char.ofNat c.val

/-- The code point that stands for undecodable bytes. -/
def replacement : CodePoint := ⟨0xFFFD, by decide⟩

/-- One of the first 128 code points. -/
def isAscii (c : CodePoint) : Bool := c.val < 0x80

instance : Coe Char CodePoint := ⟨ofChar⟩

end CodePoint

/-! ## Texts -/

namespace Text

/-- The code points of a list of characters. -/
def ofChars (cs : List Char) : Text := cs.map CodePoint.ofChar

/-- The code points of a string. -/
def ofString (s : String) : Text := ofChars s.toList

instance : Coe String Text := ⟨ofString⟩

/-- The string of a text, with the replacement character for each surrogate. -/
def toString (t : Text) : String := String.ofList (t.map CodePoint.toChar)

/-- Whether a text holds a surrogate, in which case no string is equal to it. -/
def hasSurrogate (t : Text) : Bool := t.any CodePoint.isSurrogate

/-- Whether all code points are ASCII. -/
def isAscii (t : Text) : Bool := t.all CodePoint.isAscii

/-- The characters of a text that is ASCII throughout, and nothing for any other text. -/
def asciiChars? (t : Text) : Option (List Char) :=
  if t.isAscii then some (t.map CodePoint.toChar) else none

/-- The texts one after the other, with a separator between neighbours. -/
def join (separator : Text) (parts : List Text) : Text := separator.intercalate parts

/-- What follows `head` in a text that begins with it. -/
def dropHead? (head : Text) (t : Text) : Option Text :=
  if head.isPrefixOf t then some (t.drop head.length) else none

/-- The characters behind one of some prefixes, if all of them are ASCII. -/
def asciiBehind? (prefixes : List Text) (t : Text) : Option (List Char) :=
  (prefixes.findSome? fun p => dropHead? p t).bind asciiChars?

/-- Splits a text at the first place where `separator` occurs. -/
def splitFirst? (separator : Text) : Text → Option (Text × Text)
  | [] => if separator.isEmpty then some ([], []) else none
  | c :: rest =>
    match dropHead? separator (c :: rest) with
    | some after => some ([], after)
    | none => (splitFirst? separator rest).map fun (before, after) => (c :: before, after)

/-- The pieces of a text between occurrences of a separator. -/
def splitAll (separator : CodePoint) (t : Text) : List Text :=
  t.foldr
    (fun c pieces =>
      if c = separator then [] :: pieces
      else
        match pieces with
        | p :: ps => (c :: p) :: ps
        | [] => [[c]])
    [[]]

/-- Replaces one code point by another throughout. -/
def replace (old new : CodePoint) (t : Text) : Text := t.map fun c => if c = old then new else c

/-- Whether a text comes before another or is the same. -/
def le (a b : Text) : Bool := !decide (b < a)

/-- Sorts texts by code point. -/
def sort (ts : List Text) : List Text := ts.mergeSort le

/-- Sorts texts by code point and keeps one of each. -/
def sortDistinct (ts : List Text) : List Text := (sort ts).eraseReps

end Text

end CrateLedger
