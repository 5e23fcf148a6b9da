import CrateLedger.Text

/-!
# Places in YAML texts

Where a reader of YAML is in a text: what is left of it, and the line and column, which YAML gives a
meaning. Lines end at line feeds and at the other line ends of Unicode.

Readers that go on until something comes take a number that bounds the characters, and stop when it
is used up; it never is before the text ends.
-/

namespace CrateLedger.Yaml

/-! ## Character classes -/

/-- Whether a code point ends a line. -/
def isBreak (c : CodePoint) : Bool :=
  c = '\n' || c = '\r' || c = '\x85' || c = '\u2028' || c = '\u2029'

/-- Whether a code point is a space or a tab. -/
def isSpace (c : CodePoint) : Bool := c = ' ' || c = '\t'

/-- Whether a code point is a space, a tab or a line end. -/
def isBlank (c : CodePoint) : Bool := isSpace c || isBreak c

/-- Whether a text starts with a blank or is over. -/
def startsBlank (t : Text) : Bool := t.head?.all isBlank

/-- Whether a text starts with a line end. -/
def startsBreak (t : Text) : Bool := t.head?.any isBreak

/-- The characters that structure flow collections. -/
def isFlowIndicator (c : CodePoint) : Bool := c.toChar ∈ [',', '[', ']', '{', '}']

/-! ## Marks of documents -/

/-- Whether a text starts with a mark, which has to be a word of its own. -/
def startsMark (mark : Text) (t : Text) : Bool :=
  match Text.dropHead? mark t with
  | some rest => startsBlank rest
  | none => false

/-- The mark before a document. -/
def startMark : Text := "---"

/-- The mark behind a document. -/
def endMark : Text := "..."

/-- Whether a text starts with either mark of documents. -/
def startsAnyMark (t : Text) : Bool := startsMark startMark t || startsMark endMark t

/-! ## Places -/

/-- A place in a text. -/
structure Place where
  /-- What is left of the text. -/
  rest : Text
  /-- How many characters are behind. -/
  index : Nat := 0
  /-- How many lines are behind. -/
  line : Nat := 0
  /-- How many characters of the line are behind. -/
  column : Nat := 0
  deriving DecidableEq, Repr

namespace Place

/-- Goes on by a character. Byte order marks do not take up a column. -/
def next (p : Place) : Place :=
  match p.rest with
  | [] => p
  | c :: rest =>
    if isBreak c then ⟨rest, p.index + 1, p.line + 1, 0⟩
    else ⟨rest, p.index + 1, p.line, if c = '\uFEFF' then p.column else p.column + 1⟩

/-- Goes on by a number of characters. -/
def skip (p : Place) : Nat → Place
  | 0 => p
  | n + 1 => p.next.skip n

/-- Takes characters of a class. -/
def takeWhile (isIn : CodePoint → Bool) : Nat → Place → Text × Place
  | 0, p => ([], p)
  | n + 1, p =>
    match p.rest with
    | [] => ([], p)
    | c :: _ =>
      if isIn c then
        let (t, after) := takeWhile isIn n p.next
        (c :: t, after)
      else ([], p)

end Place

end CrateLedger.Yaml
