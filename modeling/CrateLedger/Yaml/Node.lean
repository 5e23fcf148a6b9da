import CrateLedger.Yaml.Token

/-!
# YAML nodes

The tree that tokens form: scalars, sequences and mappings, whose keys may be any nodes. A node that
is left out is nothing. A tree is a document if all its keys are scalars.

Each reader takes the tokens of one thing from the front and gives those behind it; the number that
bounds its nesting never runs out before the tokens do. Where the tokens break off, the text itself
has an error.
-/

namespace CrateLedger.Yaml

/-- A node of a YAML document. -/
inductive Node where
  /-- A scalar. -/
  | scalar (value : Scalar)
  /-- A sequence. -/
  | sequence (items : List Node)
  /-- A mapping. -/
  | mapping (fields : List (Node × Node))

namespace Node

/-- A node that is left out. -/
def null : Node := .scalar .null

/-! ## Reading -/

/-- Whether one of some tokens comes next. -/
def starts (ts : List Token) (tokens : List Token) : Bool :=
  tokens.head?.any fun t => ts.contains t

/-- Reads a node unless one of some tokens shows that it is left out. -/
def optional (read : List Token → Except Error (Node × List Token)) (stops tokens : List Token) :
    Except Error (Node × List Token) :=
  if starts stops tokens then .ok (.null, tokens) else read tokens

/-- The error where a token does not fit: the text has broken off, or else the token is wrong. -/
def misfit (tokens : List Token) : Error := if tokens.isEmpty then .token else .grammar

/-- Where a node stands, which says what may start it. -/
inductive Position where
  /-- In a flow collection. -/
  | flow
  /-- In a block. -/
  | block
  /-- In a block mapping, where the dashes of a sequence need no indentation. -/
  | field
  deriving DecidableEq, Repr

mutual

/-- Reads a node. -/
def read (position : Position) : Nat → List Token → Except Error (Node × List Token)
  | 0, _ => .error .grammar
  | n + 1, tokens =>
    match tokens with
    | .plain t :: rest => .ok (.scalar (resolve t), rest)
    | .quoted t :: rest => .ok (.scalar (.text t), rest)
    | .flowSequenceStart :: rest => do
      let (items, rest) ← readFlowItems n true rest
      return (.sequence items, rest)
    | .flowMappingStart :: rest => do
      let (fields, rest) ← readFlowFields n true rest
      return (.mapping fields, rest)
    | .blockSequenceStart :: rest => do
      if position = .flow then throw .grammar
      let (items, rest) ← readItems n rest
      return (.sequence items, rest)
    | .blockMappingStart :: rest => do
      if position = .flow then throw .grammar
      let (fields, rest) ← readFields n rest
      return (.mapping fields, rest)
    | .blockEntry :: _ => do
      if position ≠ .field then throw .grammar
      let (items, rest) ← readFlatItems n tokens
      return (.sequence items, rest)
    | _ => .error (misfit tokens)

/-- Reads the items of a block sequence and its end. -/
def readItems : Nat → List Token → Except Error (List Node × List Token)
  | 0, _ => .error .grammar
  | n + 1, tokens =>
    match tokens with
    | .blockEntry :: rest => do
      let (item, rest) ← optional (read .block n) [.blockEntry, .blockEnd] rest
      let (items, rest) ← readItems n rest
      return (item :: items, rest)
    | .blockEnd :: rest => .ok ([], rest)
    | _ => .error (misfit tokens)

/-- Reads the items of a block sequence that is not indented and so has no end of its own. -/
def readFlatItems : Nat → List Token → Except Error (List Node × List Token)
  | 0, _ => .error .grammar
  | n + 1, tokens =>
    match tokens with
    | .blockEntry :: rest => do
      let (item, rest) ← optional (read .block n) [.blockEntry, .key, .value, .blockEnd] rest
      let (items, rest) ← readFlatItems n rest
      return (item :: items, rest)
    | [] => .error .token
    | _ => .ok ([], tokens)

/-- Reads the fields of a block mapping and its end. -/
def readFields : Nat → List Token → Except Error (List (Node × Node) × List Token)
  | 0, _ => .error .grammar
  | n + 1, tokens =>
    let stops := [.key, .value, .blockEnd]
    match tokens with
    | .key :: rest => do
      let (key, rest) ← optional (read .field n) stops rest
      let (value, rest) ← readValue .field stops n rest
      let (fields, rest) ← readFields n rest
      return ((key, value) :: fields, rest)
    | .blockEnd :: rest => .ok ([], rest)
    | _ => .error (misfit tokens)

/-- Reads the value of a field, with its mark; both may be left out. -/
def readValue (position : Position) (stops : List Token) :
    Nat → List Token → Except Error (Node × List Token)
  | 0, _ => .error .grammar
  | n + 1, tokens =>
    match tokens with
    | .value :: rest => optional (read position n) stops rest
    | [] => .error .token
    | _ => .ok (.null, tokens)

/-- Reads the items of a flow sequence and its closing bracket. A key among them, with its value, is
a mapping of its own. -/
def readFlowItems : Nat → Bool → List Token → Except Error (List Node × List Token)
  | 0, _, _ => .error .grammar
  | n + 1, isFirst, tokens => do
    if let .flowSequenceEnd :: rest := tokens then return ([], rest)
    let tokens ←
      match isFirst, tokens with
      | true, _ => pure tokens
      | false, .flowEntry :: rest => pure rest
      | false, _ => throw (misfit tokens)
    match tokens with
    | .flowSequenceEnd :: rest => return ([], rest)
    | .key :: rest =>
      let (key, rest) ← optional (read .flow n) [.value, .flowEntry, .flowSequenceEnd] rest
      let (value, rest) ← readValue .flow [.flowEntry, .flowSequenceEnd] n rest
      let (items, rest) ← readFlowItems n false rest
      return (.mapping [(key, value)] :: items, rest)
    | _ =>
      let (item, rest) ← read .flow n tokens
      let (items, rest) ← readFlowItems n false rest
      return (item :: items, rest)

/-- Reads the fields of a flow mapping and its closing brace. -/
def readFlowFields : Nat → Bool → List Token → Except Error (List (Node × Node) × List Token)
  | 0, _, _ => .error .grammar
  | n + 1, isFirst, tokens => do
    if let .flowMappingEnd :: rest := tokens then return ([], rest)
    let tokens ←
      match isFirst, tokens with
      | true, _ => pure tokens
      | false, .flowEntry :: rest => pure rest
      | false, _ => throw (misfit tokens)
    match tokens with
    | .flowMappingEnd :: rest => return ([], rest)
    | .key :: rest =>
      let (key, rest) ← optional (read .flow n) [.value, .flowEntry, .flowMappingEnd] rest
      let (value, rest) ← readValue .flow [.flowEntry, .flowMappingEnd] n rest
      let (fields, rest) ← readFlowFields n false rest
      return ((key, value) :: fields, rest)
    | _ =>
      let (key, rest) ← read .flow n tokens
      let (fields, rest) ← readFlowFields n false rest
      return ((key, .null) :: fields, rest)

end

/-- Checks that a text ends behind a document. -/
def checkEnd (tokens : List Token) : Except Error Unit :=
  let skipped := tokens.dropWhile fun t => t = .documentEnd
  match skipped with
  | [.streamEnd] => .ok ()
  | .documentStart :: _ => .error .severalDocuments
  | _ => .error (misfit skipped)

/-- Reads the node of the only document, which is left out if there is none. -/
def ofTokens (tokens : List Token) : Except Error Node := do
  let depth := 2 * tokens.length + 2
  match tokens with
  | [.streamEnd] => return .null
  | .documentStart :: rest =>
    let (node, rest) ←
      optional (read .block depth) [.documentStart, .documentEnd, .streamEnd] rest
    checkEnd rest
    return node
  | _ =>
    let (node, rest) ← read .block depth tokens
    checkEnd rest
    return node

/-! ## Documents -/

mutual

/-- The document of a node, if all keys in it are scalars. -/
def value? : Node → Option Value
  | .scalar s => some (.scalar s)
  | .sequence items => (values? items).map Value.list
  | .mapping fields => (fields? fields).map fun fs => .object (Fields.ofWritten fs)

/-- The documents of nodes. -/
def values? : List Node → Option (List Value)
  | [] => some []
  | v :: vs => do return (← value? v) :: (← values? vs)

/-- The fields of a mapping. -/
def fields? : List (Node × Node) → Option (List (Scalar × Value))
  | [] => some []
  | (.scalar key, v) :: rest => do return (key, ← value? v) :: (← fields? rest)
  | _ :: _ => none

end

end Node

end CrateLedger.Yaml
