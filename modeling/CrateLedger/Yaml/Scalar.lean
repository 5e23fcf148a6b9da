import CrateLedger.Json.Reader
import CrateLedger.Text.Utf8
import CrateLedger.Yaml.Number
import CrateLedger.Yaml.Place

/-!
# YAML scalars

Scalars as they are written in YAML 1.1: plain, in single quotes and in double quotes. Any of them
may go on over several lines. A line end inside a scalar is folded: on its own it reads as a space,
and with empty lines behind it as these.

A plain scalar is nothing, a truth value, a number, or else a text.
-/

namespace CrateLedger.Yaml

/-! ## What plain scalars stand for -/

/-- The three ways to write a word: in lower case, capitalised, in upper case. -/
def spellings (word : String) : List Text := [word, word.capitalize, word.toUpper]

/-- The words that stand for nothing. -/
def nullWords : List Text := [] :: "~" :: spellings "null"

/-- The words that stand for true. -/
def trueWords : List Text := ["true", "yes", "on"].flatMap spellings

/-- The words that stand for false. -/
def falseWords : List Text := ["false", "no", "off"].flatMap spellings

/-- What a plain scalar stands for. -/
def resolve (t : Text) : Scalar :=
  if nullWords.contains t then .null
  else if trueWords.contains t then .bool true
  else if falseWords.contains t then .bool false
  else (number? t).getD (.text t)

/-! ## Folding -/

/-- A line end as it stands in a scalar: the separators of lines and paragraphs are kept, and all
others are line feeds. -/
def unifiedBreak (c : CodePoint) : CodePoint :=
  if c = '\u2028' || c = '\u2029' then c else '\n'

/-- What a line end and the empty lines behind it stand for. -/
def fold (first : CodePoint) (more : Text) : Text :=
  if unifiedBreak first ≠ '\n' then unifiedBreak first :: more
  else if more.isEmpty then " "
  else more

/-! ## Plain scalars -/

/-- Whether a plain scalar can start with a character. Some characters have another meaning at the
start, and three of them only before a blank; in a flow collection two of these have it always. -/
def startsPlain (inFlow : Bool) (c : CodePoint) (rest : Text) : Bool :=
  let ch := c.toChar
  if ch = '-' then !startsBlank rest
  else if ch = '?' || ch = ':' then !inFlow && !startsBlank rest
  else !isBlank c && !isFlowIndicator c
    && ch ∉ ['#', '&', '*', '!', '|', '>', '\'', '"', '%', '@', '\x60']

/-- Whether a word of a plain scalar ends before a character: a blank, a colon that ends a key, and
in a flow collection a character that structures it. -/
def endsWord (inFlow : Bool) (c : CodePoint) (rest : Text) : Bool :=
  isBlank c
    || (c = ':' && (startsBlank rest || (inFlow && rest.head?.any isFlowIndicator)))
    || (inFlow && (c = '?' || isFlowIndicator c))

/-- Takes a word of a plain scalar. -/
def takeWord (inFlow : Bool) : Nat → Place → Text × Place
  | 0, p => ([], p)
  | n + 1, p =>
    match p.rest with
    | [] => ([], p)
    | c :: rest =>
      if endsWord inFlow c rest then ([], p)
      else
        let (word, after) := takeWord inFlow n p.next
        (c :: word, after)

/-- Takes empty lines and the spaces in front of what follows. Gives the line ends, unless a mark
of documents follows. -/
def takeEmptyLines : Nat → Place → Option Text × Place
  | 0, p => (some [], p)
  | n + 1, p =>
    match p.rest with
    | [] => (some [], p)
    | c :: rest =>
      if c = ' ' then takeEmptyLines n p.next
      else if isBreak c then
        if startsAnyMark rest then (none, p.next)
        else
          let (breaks, after) := takeEmptyLines n p.next
          (breaks.map fun bs => unifiedBreak c :: bs, after)
      else (some [], p)

/-- Takes the gap behind a word of a plain scalar: spaces, or spaces and line ends. Gives what it
stands for, which is nothing if the scalar cannot go on behind it. -/
def takeGap (n : Nat) (p : Place) : Text × Place :=
  let (spaces, p) := p.takeWhile (fun c => c = ' ') n
  match p.rest with
  | [] => (spaces, p)
  | c :: rest =>
    if !isBreak c then (spaces, p)
    else if startsAnyMark rest then ([], p.next)
    else
      let (breaks, after) := takeEmptyLines n p.next
      ((breaks.map (fold c)).getD [], after)

/-- A plain scalar that has been taken. -/
structure Plain where
  /-- What it says. -/
  text : Text
  /-- Whether line ends have been taken behind it. -/
  endsLine : Bool
  /-- The place behind it and behind blanks. -/
  place : Place

/-- Takes a plain scalar. In a block it goes on only in lines that are indented by at least the
given number of spaces. -/
def takePlain (inFlow : Bool) (indent : Nat) : Nat → Place → Plain
  | 0, p => ⟨[], false, p⟩
  | n + 1, p =>
    let (word, p) := takeWord inFlow n p
    let (gap, after) := takeGap n p
    let endsLine := p.line ≠ after.line
    let here : Plain := ⟨word, endsLine, after⟩
    let isOutdented := !inFlow && endsLine && after.column < indent
    if gap.isEmpty || isOutdented || after.rest.head? = some '#' then here
    else
      let more := takePlain inFlow indent n after
      if more.text.isEmpty then here else { more with text := word ++ gap ++ more.text }

/-! ## Quoted scalars -/

/-- The characters of the escapes by a single letter. -/
def letterEscapes : List (Char × Nat) :=
  [('0', 0), ('a', 7), ('b', 8), ('t', 9), ('\t', 9), ('n', 10), ('v', 11), ('f', 12), ('r', 13),
    ('e', 27), (' ', 32), ('"', 34), ('/', 47), ('\\', 92), ('N', 0x85), ('_', 0xA0),
    ('L', 0x2028), ('P', 0x2029)]

/-- How many hexadecimal digits follow the letter of an escape by number. -/
def numberEscapes : List (Char × Nat) := [('x', 2), ('u', 4), ('U', 8)]

/-- Takes an escape behind its backslash. -/
def escape? (p : Place) : Option (CodePoint × Place) :=
  match p.rest with
  | [] => none
  | c :: rest =>
    match letterEscapes.lookup c.toChar, numberEscapes.lookup c.toChar with
    | some n, _ => (Utf8.codePoint? n).map fun c => (c, p.next)
    | none, some width => do
      let digits ← (rest.take width).mapM Json.hexDigit?
      if digits.length = width then
        (Utf8.codePoint? (Numeral.ofDigits 16 digits)).map fun c => (c, p.skip (width + 1))
      else none
    | none, none => none

/-- Takes empty lines inside quotes and the blanks in front of what follows. A mark of documents
cannot follow. -/
def quotedBreaks? : Nat → Place → Option (Text × Place)
  | 0, _ => none
  | n + 1, p =>
    if startsAnyMark p.rest then none
    else
      let (_, p) := p.takeWhile isSpace n
      match p.rest with
      | [] => some ([], p)
      | c :: _ =>
        if isBreak c then
          (quotedBreaks? n p.next).map fun (bs, after) => (unifiedBreak c :: bs, after)
        else some ([], p)

/-- Takes the blanks inside quotes, with line ends folded. -/
def quotedBlanks? (n : Nat) (p : Place) : Option (Text × Place) :=
  let (spaces, p) := p.takeWhile isSpace n
  match p.rest with
  | [] => none
  | c :: _ =>
    if isBreak c then (quotedBreaks? n p.next).map fun (bs, after) => (fold c bs, after)
    else some (spaces, p)

/-- Takes one piece of a quoted scalar: blanks, an escape, a doubled single quote, or a character
that stands for itself. A backslash at the end of a line takes the line end away. -/
def quotedPiece? (double : Bool) (n : Nat) (p : Place) : Option (Text × Place) :=
  match p.rest with
  | [] => none
  | c :: rest =>
    if isBlank c then quotedBlanks? n p
    else if double ∧ c = '\\' then
      if startsBreak rest then quotedBreaks? n p.next.next
      else (escape? p.next).map fun (c, after) => ([c], after)
    else if !double ∧ c = '\'' then some ([c], p.next.next)
    else some ([c], p.next)

/-- Whether a quoted scalar ends here. Two single quotes in a row do not end one. -/
def endsQuoted (double : Bool) : Text → Bool
  | [] => false
  | c :: rest => if double then c = '"' else c = '\'' && rest.head? ≠ some '\''

/-- Takes a quoted scalar behind its first quote. -/
def quoted? (double : Bool) : Nat → Place → Option (Text × Place)
  | 0, _ => none
  | n + 1, p =>
    if endsQuoted double p.rest then some ([], p.next)
    else do
      let (piece, after) ← quotedPiece? double n p
      let (more, after) ← quoted? double n after
      some (piece ++ more, after)

end CrateLedger.Yaml
