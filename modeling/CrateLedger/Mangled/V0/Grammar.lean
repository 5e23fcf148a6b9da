import CrateLedger.Mangled.V0.Crate
import CrateLedger.Mangled.V0.Scan
import Std.Data.HashMap

/-!
# The grammar of v0 names

The productions of paths and types. Each production refers to paths and types inside it, and is
written over a `Level` that reads those; a nesting limit is then a tower of levels over one that
refuses everything.

There are two towers. In `Level.plain` every path and type is read afresh. In `Level.memoised` a
path or type that has been read once at a position is remembered with the position after it, and
meeting it again costs no level, so a back reference may reach a deep tree that was read nearer to
the surface. A path is remembered for its position and for whether it stands in a value, although
the tree does not depend on that.
-/

namespace CrateLedger.Mangled.V0

/-! ## States -/

/-- The trees read so far, each with the position after it. -/
structure Memo where
  /-- Paths, by position and by whether they are in a value. -/
  paths : Std.HashMap (Nat × Bool) (TracedPath × Nat) := {}
  /-- Types, by position. -/
  types : Std.HashMap Nat (TracedType × Nat) := {}

/-- The state of the grammar: a position and what has been read. -/
structure Cursor where
  /-- The index of the next character. -/
  position : Nat
  /-- The trees read so far. -/
  memo : Memo

/-- A reader of the grammar. -/
abbrev Grammar := Reader Cursor

namespace Grammar

variable {α : Type}

/-- Reads something of the lexical level. -/
def scan (reader : Scan α) : Grammar α := fun input cursor =>
  match reader input cursor.position with
  | .ok (a, p) => .ok (a, { cursor with position := p })
  | .error e => .error e

/-- The position. -/
def position : Grammar Nat := fun _ cursor => .ok (cursor.position, cursor)

/-- Goes to a position. -/
def seek (p : Nat) : Grammar Unit := fun _ cursor => .ok ((), { cursor with position := p })

/-- Reads items until the reader of the end says that it has been reached. The first argument
bounds the number of attempts. -/
def manyWithin (isEnd : Scan Bool) (item : Grammar α) : Nat → Grammar (List α)
  | 0 => Reader.invalid
  | n + 1 => do
    if ← scan isEnd then return []
    let a ← item
    return a :: (← manyWithin isEnd item n)

/-- Reads items until the end is reached. Each item takes at least one character, so there are no
more of them than characters left. -/
def many (isEnd : Scan Bool) (item : Grammar α) : Grammar (List α) := fun input cursor =>
  manyWithin isEnd item (input.size + 1 - cursor.position) input cursor

/-- Reads items up to the letter `E`. -/
def untilE (item : Grammar α) : Grammar (List α) := many (Scan.eat 'E') item

/-- Reads items as long as the letter `p` announces another one. -/
def whileP (item : Grammar α) : Grammar (List α) := many (do return !(← Scan.eat 'p')) item

/-- Follows a back reference whose `B` has just been taken: reads at the target, which has to lie
before the `B`, and goes on behind the reference. -/
def backReference (reader : Grammar α) : Grammar α := do
  let after ← position
  let target ← scan Scan.base62
  if target + 1 < after then
    let back ← position
    seek target
    let a ← reader
    seek back
    return a
  else Reader.invalid

end Grammar

/-! ## Productions -/

/-- Readers of the paths and types that stand inside a production. -/
structure Level where
  /-- Reads a path, in a value or not. -/
  path : Bool → Grammar TracedPath
  /-- Reads a type. -/
  type : Grammar TracedType

namespace Level

open Grammar

/-- A generic argument. -/
def genericArg (inner : Level) : Grammar GenericArg := do
  if ← scan (Scan.eat 'L') then return .lifetime (← scan Scan.base62)
  if ← scan (Scan.eat 'K') then return .const (← scan Scan.const)
  return .type (← inner.type).type

/-- A binding of an associated type whose `p` has just been taken. -/
def binding (inner : Level) : Grammar Binding := do
  let name ← scan Scan.rawIdentifier
  return .mk name (← inner.type).type

/-- A trait with its bindings. -/
def bound (inner : Level) : Grammar TracedBound := do
  let trait ← inner.path false
  return ⟨trait, ← whileP inner.binding⟩

/-- The calling convention of a function pointer: none, `C`, or an identifier in which underscores
stand for hyphens. -/
def abi? : Scan (Option Text) := do
  if ← Scan.eat 'K' then
    if ← Scan.eat 'C' then return some "C"
    return some (Text.replace '_' '-' (← Scan.rawIdentifier))
  return none

/-- A path. -/
def pathProduction (inner : Level) (inValue : Bool) : Grammar TracedPath := do
  match ← scan Scan.next with
  | 'C' =>
    let (d, name) ← scan Scan.identifier
    return .crateRoot d name
  | 'N' =>
    let space ← scan Scan.next
    if space.isAlpha then
      let parent ← inner.path inValue
      let (d, name) ← scan (Scan.itemName space)
      return .nested space parent d name
    else Reader.invalid
  | 'M' =>
    let d ← scan Scan.disambiguator
    let location ← inner.path false
    return .inherentImpl d location (← inner.type)
  | 'X' =>
    let d ← scan Scan.disambiguator
    let location ← inner.path false
    let self ← inner.type
    return .traitImpl d location self (← inner.path false)
  | 'Y' =>
    let self ← inner.type
    return .traitView self (← inner.path false)
  | 'I' =>
    let base ← inner.path inValue
    return .generic base (← untilE inner.genericArg)
  | 'B' => backReference (inner.path inValue)
  | _ => Reader.invalid

/-- A reference whose letter has just been taken. -/
def reference (inner : Level) (mutable : Bool) : Grammar TracedType := do
  let lifetime ← scan (Scan.tagged? 'L')
  return .reference mutable lifetime (← inner.type)

/-- A function pointer whose letter has just been taken. -/
def function (inner : Level) : Grammar TracedType := do
  let binder ← scan (Scan.tagged? 'G')
  let isUnsafe ← scan (Scan.eat 'U')
  let abi ← scan abi?
  let params ← untilE inner.type
  return .function binder isUnsafe abi params (← inner.type)

/-- A trait object whose letter has just been taken. -/
def object (inner : Level) : Grammar TracedType := do
  let binder ← scan (Scan.tagged? 'G')
  let bounds ← untilE inner.bound
  scan (Scan.expect 'L')
  return .object binder bounds (← scan Scan.base62)

/-- A type that starts with a letter that has just been taken. -/
def compoundType (inner : Level) (tag : Char) : Grammar TracedType :=
  match tag with
  | 'A' => do
    let element ← inner.type
    return .array element (← scan Scan.const)
  | 'S' => return .slice (← inner.type)
  | 'T' => return .tuple (← untilE inner.type)
  | 'R' => inner.reference false
  | 'Q' => inner.reference true
  | 'P' => return .pointer false (← inner.type)
  | 'O' => return .pointer true (← inner.type)
  | 'F' => inner.function
  | 'D' => inner.object
  | 'B' => backReference inner.type
  | _ => Reader.invalid

/-- The letters that start a path other than a back reference. -/
def isPathTag (c : Char) : Bool := ['C', 'N', 'M', 'X', 'Y', 'I'].contains c

/-- A type. -/
def typeProduction (inner : Level) : Grammar TracedType := do
  match ← scan Scan.peek with
  | none => Reader.invalid
  | some c =>
    if isPathTag c then return .ofPath (← inner.path false)
    let _ ← scan Scan.next
    match BasicType.ofTag? c with
    | some basic => return .basic basic
    | none => inner.compoundType c

/-! ## Towers of levels -/

/-- Refuses everything. -/
def refusing : Level where
  path _ := Reader.invalid
  type := Reader.invalid

/-- The productions over a level. -/
def productions (inner : Level) : Level where
  path := inner.pathProduction
  type := inner.typeProduction

/-- Nesting of at most the given depth, with everything read afresh. -/
def plain : Nat → Level
  | 0 => refusing
  | n + 1 => productions (plain n)

/-- Reads a path unless it is remembered, and then remembers it. -/
def rememberedPath (level : Level) (inValue : Bool) : Grammar TracedPath := fun input cursor =>
  match cursor.memo.paths[(cursor.position, inValue)]? with
  | some (path, p) => .ok (path, { cursor with position := p })
  | none =>
    match level.path inValue input cursor with
    | .error e => .error e
    | .ok (path, after) =>
      let paths := after.memo.paths.insert (cursor.position, inValue) (path, after.position)
      .ok (path, { after with memo := { after.memo with paths := paths } })

/-- Reads a type unless it is remembered, and then remembers it. -/
def rememberedType (level : Level) : Grammar TracedType := fun input cursor =>
  match cursor.memo.types[cursor.position]? with
  | some (type, p) => .ok (type, { cursor with position := p })
  | none =>
    match level.type input cursor with
    | .error e => .error e
    | .ok (type, after) =>
      let types := after.memo.types.insert cursor.position (type, after.position)
      .ok (type, { after with memo := { after.memo with types := types } })

/-- A level that remembers what it reads. -/
def remembering (level : Level) : Level where
  path := level.rememberedPath
  type := level.rememberedType

/-- Nesting of at most the given depth, where what is remembered has no depth. -/
def memoised : Nat → Level
  | 0 => remembering refusing
  | n + 1 => remembering (productions (memoised n))

end Level

/-! ## Symbols -/

/-- The number of paths and types that may be open inside one another. -/
def maxDepth : Nat := 200

/-- The path of a symbol, and behind it, if an upper-case letter follows, the path of the crate that
instantiated the item, which is not kept. -/
def symbol (level : Level) : Grammar TracedPath := do
  let path ← level.path true
  match ← Grammar.scan Scan.peek with
  | some c => if c.isUpper then let _ ← level.path false
  | none => return path
  return path

/-- Reads a symbol from the start of the text and gives its path and the position after it. -/
def readSymbol (level : Level) (input : Array Char) : Except Failure (TracedPath × Nat) :=
  match symbol level input ⟨0, {}⟩ with
  | .ok (path, cursor) => .ok (path, cursor.position)
  | .error e => .error e

/-- The prefixes that announce a v0 name. -/
def prefixes : List Text := ["__R", "_R", "R"]

/-- Reads a v0 name. It is a prefix, a symbol that does not start with a digit, and nothing or a
suffix that the toolchain added. A text that is no v0 name gives nothing. -/
def parse? (name : Text) : Except NumberError (Option TracedPath) :=
  match Text.asciiBehind? prefixes name with
  | none => .ok none
  | some inner =>
    if inner = [] ∨ inner.head?.any Char.isDigit then .ok none
    else
      match readSymbol (Level.memoised maxDepth) inner.toArray with
      | .ok (path, p) =>
        match inner.drop p with
        | [] => .ok (some path)
        | c :: _ => .ok (if c = '.' ∨ c = '$' then some path else none)
      | .error .invalid => .ok none
      | .error (.number e) => .error e

end CrateLedger.Mangled.V0
