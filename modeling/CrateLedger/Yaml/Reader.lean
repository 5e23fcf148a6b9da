import CrateLedger.Yaml.Node

/-!
# Reading YAML

A text as a document: block and flow collections of scalars, with comments. A text without a
document is nothing. Anchors, tags, directives and block scalars are not read, nor are several
documents in a text.
-/

namespace CrateLedger.Yaml

/-- Whether a YAML text may contain a code point: no surrogates and hardly any control
characters. -/
def isAllowed (c : CodePoint) : Bool :=
  let n := c.val
  c = '\t' || c = '\n' || c = '\r' || (0x20 ≤ n && n ≤ 0x7E) || n = 0x85
    || (0xA0 ≤ n && n ≤ 0xD7FF) || (0xE000 ≤ n && n ≤ 0xFFFD) || 0x10000 ≤ n

/-- Reads a text as a document. -/
def read (t : Text) : Except Error Value :=
  if !t.all isAllowed then .error .character
  else
    match Node.ofTokens (Token.scan t) with
    | .error e => .error e
    | .ok node =>
      match node.value? with
      | some v => .ok v
      | none => .error .collectionKey

end CrateLedger.Yaml
