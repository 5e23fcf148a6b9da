import CrateLedger.Text

/-!
# Paths

Paths with slashes, as they are written in snapshots and messages. Normalising drops empty
components and single dots but keeps double dots, which may lead through links. Two slashes at the
start are a root of their own; one slash, or more than two, are the usual root.
-/

namespace CrateLedger.Path

/-- The components of a path that lead somewhere. -/
def components (t : Text) : List Text := (Text.splitAll '/' t).filter fun p => p ≠ [] ∧ p ≠ "."

/-- The root of a path, which is empty for a relative one. -/
def root (t : Text) : Text :=
  match (t.takeWhile fun c : CodePoint => c = '/').length with
  | 0 => []
  | 2 => "//"
  | _ => "/"

/-- The normal form of a path. -/
def normalise (t : Text) : Text :=
  let body := root t ++ Text.join "/" (components t)
  if body.isEmpty then "." else body

/-- The suffix of the last component: from its last dot on, if the dot is neither its first nor its
last character. -/
def suffix (t : Text) : Text :=
  match (components t).getLast? with
  | none => []
  | some name =>
    let after := (name.reverse.takeWhile fun c : CodePoint => c ≠ '.').reverse
    let stem := name.length - after.length - 1
    if after.isEmpty ∨ after.length = name.length ∨ stem = 0 then [] else name.drop stem

/-- The suffix in lower case. -/
def lowerSuffix (t : Text) : Text :=
  (suffix t).map fun c => if c.isAscii then CodePoint.ofChar c.toChar.toLower else c

end CrateLedger.Path
