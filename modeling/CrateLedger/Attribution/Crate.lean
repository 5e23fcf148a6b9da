import CrateLedger.Build.Context
import CrateLedger.Build.Options
import CrateLedger.Mangled.Name

/-!
# The crate of a symbol

What the build has recorded about a symbol decides which crate it belongs to, and then the
attribution is exact. If several crates contribute it (generic code is instantiated in each of
them) the crate that its name spells is taken if it is one of them, and else the first. A symbol
that no crate is recorded for goes to the crate that its name spells, and if it spells none it is
unknown. Unless they are kept apart, the crates of the standard library share one label.

A label is a text wherever the build names its crates by texts.
-/

namespace CrateLedger

/-- The crate that a symbol is attributed to. -/
structure Attribution where
  /-- The label of the crate. -/
  crate : Scalar
  /-- Whether the build itself records the symbol under the crate. -/
  isExact : Bool
  deriving DecidableEq

namespace Attribution

/-- The label of symbols that belong to no known crate. -/
def unknownCrate : Scalar := .text "[Unknown]"

/-- The label of the standard library as a whole. -/
def stdGroup : Scalar := .text "std"

/-- The label of a crate. -/
def label (context : BuildContext) (options : Options) (crate : Scalar) : Scalar :=
  if !options.keepsStdApart && context.isStd crate then stdGroup else crate

/-- The crate among several owners that a symbol goes to. A single owner is taken without looking
at the name. -/
def choose (name : Text) (first : Scalar) (others : List Scalar) :
    Except Mangled.NumberError Scalar :=
  if others.isEmpty then .ok first
  else do
    match (← Mangled.Name.decode name).crate? with
    | some crate => return if (Scalar.text crate).isIn (first :: others) then .text crate else first
    | none => return first

/-- Attributes a symbol to a crate. -/
def ofName (context : BuildContext) (options : Options) (name : Text) :
    Except Mangled.NumberError Attribution :=
  if name.isEmpty then .ok ⟨unknownCrate, false⟩
  else
    match context.owners name with
    | first :: others => do return ⟨label context options (← choose name first others), true⟩
    | [] => do
      match (← Mangled.Name.decode name).crate? with
      | none | some [] => return ⟨unknownCrate, false⟩
      | some crate => return ⟨label context options (.text crate), false⟩

/-- Attributes symbols in order; the first that cannot be decoded fails all of them. -/
def ofNames (context : BuildContext) (options : Options) (names : List Text) :
    Except Mangled.NumberError (List Attribution) :=
  names.mapM (ofName context options)

end Attribution

end CrateLedger
