import CrateLedger.Yaml.Scalar

/-!
# YAML tokens

The marks and scalars that a YAML text consists of. Collections in blocks have no marks of their
own for where they start and end: these follow from the indentation, and a mapping also starts
where a scalar turns out to be a key. Whether it is one shows only at the colon behind it, which has
to come on the same line and soon; so the places where a key may start are remembered, one for each
flow collection that is open.

Tokens are scanned in order, and a text that breaks off still has those before the break.
-/

namespace CrateLedger.Yaml

/-- A part of a YAML text. -/
inductive Token where
  /-- The mark before a document. -/
  | documentStart
  /-- The mark behind a document. -/
  | documentEnd
  /-- The start of a block sequence. -/
  | blockSequenceStart
  /-- The start of a block mapping. -/
  | blockMappingStart
  /-- The end of a block collection. -/
  | blockEnd
  /-- An opening bracket. -/
  | flowSequenceStart
  /-- A closing bracket. -/
  | flowSequenceEnd
  /-- An opening brace. -/
  | flowMappingStart
  /-- A closing brace. -/
  | flowMappingEnd
  /-- The dash of an item. -/
  | blockEntry
  /-- The comma between items. -/
  | flowEntry
  /-- The start of a key. -/
  | key
  /-- The start of a value. -/
  | value
  /-- A plain scalar. -/
  | plain (text : Text)
  /-- A scalar in quotes. -/
  | quoted (text : Text)
  /-- The end of the text. -/
  | streamEnd
  deriving DecidableEq, Repr

/-- What is wrong with a YAML text. -/
inductive Error where
  /-- A character that YAML does not allow. -/
  | character
  /-- Something that is no token, or none that can stand there. -/
  | token
  /-- Tokens that form no document. -/
  | grammar
  /-- More than one document. -/
  | severalDocuments
  /-- A key that is a collection. -/
  | collectionKey
  deriving DecidableEq, Repr

namespace Token

/-! ## The state of a scan -/

/-- A place where a key may have started. -/
structure KeyStart where
  /-- How many tokens come before it. -/
  tokens : Nat
  /-- Whether only a key can start there, because a block mapping has its keys in that column. -/
  isRequired : Bool
  place : Place

/-- The state of a scan. -/
structure State where
  /-- Where the scan is. -/
  place : Place
  /-- The tokens so far, the last one first. -/
  tokens : List Token := []
  /-- The number of tokens so far. -/
  count : Nat := 0
  /-- The columns of the open block collections, the innermost first. -/
  indents : List Nat := []
  /-- Whether a key may start here. -/
  keyAllowed : Bool := true
  /-- Where a key may have started in each open flow collection, the innermost first. -/
  flowKeys : List (Option KeyStart) := []
  /-- Where a key may have started outside of flow collections. -/
  blockKey : Option KeyStart := none

namespace State

/-- Whether the scan is inside a flow collection. -/
def inFlow (s : State) : Bool := !s.flowKeys.isEmpty

/-- Adds a token. -/
def push (s : State) (t : Token) : State := { s with tokens := t :: s.tokens, count := s.count + 1 }

/-- Adds tokens in front of the last ones. -/
def insertAt (s : State) (position : Nat) (ts : List Token) : State :=
  let later := s.count - position
  { s with
    tokens := s.tokens.take later ++ ts.reverse ++ s.tokens.drop later
    count := s.count + ts.length }

/-- Ends the block collections that are indented more than given. -/
def closeBlocks (keep : Nat → Bool) (s : State) : State :=
  let (ended, kept) := s.indents.span fun column => !keep column
  ended.foldl (fun s _ => s.push .blockEnd) { s with indents := kept }

/-- Whether a block collection starts in a column, because all that are open start before it. -/
def startsBlock (s : State) (column : Nat) : Bool := s.indents.head?.all fun c => c < column

/-! ## Keys -/

/-- Where a key may have started in the innermost collection. -/
def currentKey (s : State) : Option KeyStart := s.flowKeys.head?.getD s.blockKey

/-- Sets where a key may have started in the innermost collection. -/
def setKey (s : State) (key : Option KeyStart) : State :=
  match s.flowKeys with
  | _ :: outer => { s with flowKeys := key :: outer }
  | [] => { s with blockKey := key }

/-- Gives up a key of the innermost collection, if there may be one. -/
def dropKey (s : State) : Option State :=
  if s.currentKey.any KeyStart.isRequired then none else some (s.setKey none)

/-- How many characters a key may have. -/
def maxKeyLength : Nat := 1024

/-- Whether what started at a place can still be a key here. -/
def isFresh (s : State) (key : KeyStart) : Bool :=
  key.place.line = s.place.line && s.place.index - key.place.index ≤ maxKeyLength

/-- Whether there has to be a key that cannot be one any more. -/
def missesKey (s : State) : Bool := s.blockKey.any fun key => key.isRequired && !s.isFresh key

/-- Gives up the keys that have become too long or have gone over their line. -/
def dropStaleKeys (s : State) : Option State :=
  let fresh (key : Option KeyStart) := key.filter s.isFresh
  if s.missesKey then none
  else some { s with flowKeys := s.flowKeys.map fresh, blockKey := fresh s.blockKey }

/-- Remembers that a key may start here, if one is allowed. -/
def mayBeKey (s : State) : Option State :=
  if s.keyAllowed then do
    let isRequired := !s.inFlow && s.indents.head? = some s.place.column
    return (← s.dropKey).setKey (some ⟨s.count, isRequired, s.place⟩)
  else some s

/-- The tokens that are settled: those before the first place where a key may have started. -/
def settled (s : State) : List Token :=
  let pending := (s.blockKey :: s.flowKeys).filterMap fun key => key.filter s.isFresh
  s.tokens.reverse.take ((s.count :: pending.map KeyStart.tokens).min?.getD 0)

/-! ## Tokens -/

/-- Goes over spaces, comments and line ends. Behind a line end outside of flow collections a key
is allowed. -/
def skipBlanks : Nat → State → State
  | 0, s => s
  | n + 1, s =>
    let (_, p) := s.place.takeWhile (fun c => c = ' ') n
    let (_, p) := p.takeWhile (fun c => !isBreak c) (if p.rest.head? = some '#' then n else 0)
    if startsBreak p.rest then
      skipBlanks n { s with place := p.next, keyAllowed := s.keyAllowed || !s.inFlow }
    else { s with place := p }

/-- Takes a mark of documents, which ends all blocks. -/
def documentMark (s : State) (t : Token) : Option State := do
  let s ← (s.closeBlocks fun _ => false).dropKey
  return { s.push t with place := s.place.skip 3, keyAllowed := false }

/-- Takes the bracket or brace that opens a flow collection. -/
def openFlow (s : State) (t : Token) : Option State := do
  let s ← s.mayBeKey
  return { s.push t with place := s.place.next, keyAllowed := true, flowKeys := none :: s.flowKeys }

/-- Takes the bracket or brace that closes a flow collection. -/
def closeFlow (s : State) (t : Token) : Option State := do
  let s ← s.dropKey
  return { s.push t with place := s.place.next, keyAllowed := false, flowKeys := s.flowKeys.drop 1 }

/-- Takes a comma of a flow collection. -/
def flowEntry (s : State) : Option State := do
  let s ← s.dropKey
  return { s.push .flowEntry with place := s.place.next, keyAllowed := true }

/-- Starts a block collection here, if the marks of one in this column are new. -/
def openBlock (s : State) (t : Token) : State :=
  if s.startsBlock s.place.column then { s.push t with indents := s.place.column :: s.indents }
  else s

/-- Takes a dash or a question mark, which start items and keys in a block where a key is
allowed. -/
def blockMark (s : State) (collection t : Token) (keyAllowed : Bool) : Option State := do
  if !s.inFlow && !s.keyAllowed then none
  let s := if s.inFlow then s else s.openBlock collection
  let s ← s.dropKey
  return { s.push t with place := s.place.next, keyAllowed }

/-- Takes a colon. What may have been a key is one, and if it is the first in its column, it starts
a block mapping. -/
def value (s : State) : Option State :=
  match s.currentKey with
  | some start =>
    let s := s.setKey none
    let column := start.place.column
    let s :=
      if !s.inFlow && s.startsBlock column then
        { s.insertAt start.tokens [.blockMappingStart, .key] with indents := column :: s.indents }
      else s.insertAt start.tokens [.key]
    some { s.push .value with place := s.place.next, keyAllowed := false }
  | none => s.blockMark .blockMappingStart .value (!s.inFlow)

/-- Takes a quoted scalar. -/
def quotedScalar (s : State) (n : Nat) (double : Bool) : Option State := do
  let s ← s.mayBeKey
  let (text, place) ← quoted? double n s.place.next
  return { s.push (.quoted text) with place, keyAllowed := false }

/-- Takes a plain scalar. In a block its further lines are indented more than the block. -/
def plainScalar (s : State) (n : Nat) : Option State := do
  let s ← s.mayBeKey
  let indent := (s.indents.head?.map fun column => column + 1).getD 0
  let plain := takePlain s.inFlow indent n s.place
  return { s.push (.plain plain.text) with place := plain.place, keyAllowed := plain.endsLine }

/-- Takes the token that starts here. -/
def token (s : State) (n : Nat) (c : CodePoint) (rest : Text) : Option State :=
  let atStart := s.place.column = 0
  let isMark := s.inFlow || startsBlank rest
  if atStart ∧ startsMark startMark (c :: rest) then s.documentMark .documentStart
  else if atStart ∧ startsMark endMark (c :: rest) then s.documentMark .documentEnd
  else if c = '[' then s.openFlow .flowSequenceStart
  else if c = '\x7b' then s.openFlow .flowMappingStart
  else if c = ']' then s.closeFlow .flowSequenceEnd
  else if c = '\x7d' then s.closeFlow .flowMappingEnd
  else if c = ',' then s.flowEntry
  else if c = '-' ∧ startsBlank rest then s.blockMark .blockSequenceStart .blockEntry true
  else if c = '?' ∧ isMark then s.blockMark .blockMappingStart .key (!s.inFlow)
  else if c = ':' ∧ isMark then s.value
  else if c = '\'' then s.quotedScalar n false
  else if c = '"' then s.quotedScalar n true
  else if startsPlain s.inFlow c rest then s.plainScalar n
  else none

/-- Takes the end of the text, which ends all blocks. -/
def streamEnd (s : State) : Option State := do
  let s ← (s.closeBlocks fun _ => false).dropKey
  return { s.push .streamEnd with keyAllowed := false, flowKeys := [], blockKey := none }

/-- Takes the next token and gives the state behind it, and whether it was the last. -/
def step (s : State) (n : Nat) : Option (State × Bool) := do
  let s ← (skipBlanks n s).dropStaleKeys
  let s := if s.inFlow then s else s.closeBlocks fun column => column ≤ s.place.column
  match s.place.rest with
  | [] => return (← s.streamEnd, true)
  | c :: rest => return (← s.token n c rest, false)

/-- Takes all tokens that there are. Where the text breaks off, these are the ones that were settled
before. -/
def run : Nat → State → List Token
  | 0, s => s.settled
  | n + 1, s =>
    match s.step n with
    | none => s.settled
    | some (next, isLast) =>
      if isLast then next.tokens.reverse
      else if next.missesKey then s.settled
      else run n next

end State

/-! ## Scanning -/

/-- The tokens of a text. If it breaks off, the last of them is not the end of the text. -/
def scan (t : Text) : List Token :=
  let t := (Text.dropHead? "\uFEFF" t).getD t
  State.run (2 * t.length + 2) { place := { rest := t } }

end Token

end CrateLedger.Yaml
