import CrateLedger.Mangled.Legacy
import CrateLedger.Mangled.V0.Display
import CrateLedger.Mangled.V0.Grammar

/-!
# Symbol names

A symbol name is read as a legacy name, failing that as a v0 name, and failing that it stands for
itself and belongs to no crate.
-/

namespace CrateLedger.Mangled

/-- What a symbol name says. -/
inductive Name where
  /-- A legacy name: its segments and its hash. -/
  | legacy (segments : List Text) (hash : Option Text)
  /-- A v0 name: its path. -/
  | v0 (path : V0.TracedPath)
  /-- A name of neither scheme. -/
  | verbatim (name : Text)

/-- The grammars that a name can follow. -/
inductive Scheme where
  | legacy
  | v0
  | verbatim
  deriving DecidableEq, Repr

namespace Name

/-- Reads a symbol name. -/
def decode (name : Text) : Except NumberError Name :=
  match Legacy.parse? name with
  | .error e => .error e
  | .ok (some parts) => do return .legacy (← parts.segments) (parts.hash.map Text.ofChars)
  | .ok none => do
    match ← V0.parse? name with
    | some path => return .v0 path
    | none => return .verbatim name

/-- The grammar that the name follows. -/
def scheme : Name → Scheme
  | legacy .. => .legacy
  | v0 _ => .v0
  | verbatim _ => .verbatim

/-- The pieces of the path that the name spells. -/
def segments : Name → List Text
  | legacy segments _ => segments
  | v0 traced => traced.path.segments true
  | verbatim _ => []

/-- The readable form of the name. -/
def shown : Name → Text
  | verbatim name => name
  | n => Text.join "::" n.segments

/-- The crate that the name belongs to. -/
def crate? : Name → Option Text
  | legacy segments _ => Legacy.crate? segments
  | v0 traced => some traced.crate
  | verbatim _ => none

/-- The hash at the end of a legacy name. -/
def hash? : Name → Option Text
  | legacy _ hash => hash
  | _ => none

end Name

end CrateLedger.Mangled
