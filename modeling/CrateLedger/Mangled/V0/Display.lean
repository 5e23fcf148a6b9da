import CrateLedger.Mangled.V0.Syntax
import CrateLedger.Text.Quoted

/-!
# How v0 names are shown

The source form of a v0 tree. In the path of a value, generic arguments stand behind `::`; in the
path of a type they follow the name directly.
-/

namespace CrateLedger.Mangled.V0

/-! ## Parts -/

/-- The segment of an item inside another: its name, or a label in braces for items of a special
namespace, all of which have an upper-case letter. -/
def nestedSegment (space : Char) (disambiguator : Nat) (name : Text) : Text :=
  if space.isUpper then
    let label : Text :=
      if space = 'C' then "closure" else if space = 'S' then "shim" else [↑space]
    let named : Text := if name.isEmpty then [] else ":" ++ name
    "\x7b" ++ label ++ named ++ "#" ++ Numeral.decimal disambiguator ++ "\x7d"
  else name

/-- The source form of a constant. -/
def Const.shown : Const → Text
  | placeholder => "_"
  | bool true => "true"
  | bool false => "false"
  | char c => Text.quoted [c]
  | integer _ value => Numeral.signedDecimal value

/-- Appends a text to the last of some segments. -/
def extendLast (segments : List Text) (suffix : Text) : List Text :=
  segments.dropLast ++ [(segments.getLast?.getD []) ++ suffix]

/-- The source form of a tuple, which has a comma behind a single item. -/
def tupleShown (items : List Text) : Text :=
  match items with
  | [item] => "(" ++ item ++ ",)"
  | items => "(" ++ Text.join ", " items ++ ")"

/-- The source form of a function pointer. An empty ABI is not shown, nor is a unit result. -/
def functionShown (isUnsafe : Bool) (abi : Option Text) (params : List Text) (result : Text) :
    Text :=
  let qualifier : Text := if isUnsafe then "unsafe " else []
  let convention : Text :=
    match abi with
    | none | some [] => []
    | some name => "extern \"" ++ name ++ "\" "
  let arrow : Text := if result = "()" then [] else " -> " ++ result
  qualifier ++ convention ++ "fn(" ++ Text.join ", " params ++ ")" ++ arrow

/-- The source form of a bound. Bindings join the generic arguments that the trait already has. -/
def boundShown (trait : Text) (bindings : List Text) : Text :=
  if bindings.isEmpty then trait
  else if trait.getLast? = some '>' then
    trait.dropLast ++ ", " ++ Text.join ", " bindings ++ ">"
  else trait ++ "<" ++ Text.join ", " bindings ++ ">"

/-! ## Trees -/

mutual

/-- The segments of a path, shown as the path of a value or of a type. -/
def Path.segments (inValue : Bool) : Path → List Text
  | .crateRoot _ name => [name]
  | .nested space parent disambiguator name =>
    parent.segments inValue ++ [nestedSegment space disambiguator name]
  | .inherentImpl _ _ self => ["<" ++ self.shown ++ ">"]
  | .traitImpl _ _ self trait =>
    ["<" ++ self.shown ++ " as " ++ Text.join "::" (trait.segments false) ++ ">"]
  | .traitView self trait =>
    ["<" ++ self.shown ++ " as " ++ Text.join "::" (trait.segments false) ++ ">"]
  | .generic base args =>
    let separator : Text := if inValue then "::" else []
    extendLast (base.segments inValue)
      (separator ++ "<" ++ Text.join ", " (GenericArg.allShown args) ++ ">")

/-- The source form of a generic argument. Lifetimes are not told apart. -/
def GenericArg.shown : GenericArg → Text
  | .lifetime _ => "'_"
  | .const value => value.shown
  | .type type => type.shown

/-- The source forms of generic arguments. -/
def GenericArg.allShown : List GenericArg → List Text
  | [] => []
  | a :: as => a.shown :: GenericArg.allShown as

/-- The source form of a type. -/
def Ty.shown : Ty → Text
  | .basic type => type.shown
  | .path path => Text.join "::" (path.segments false)
  | .array element length => "[" ++ element.shown ++ "; " ++ length.shown ++ "]"
  | .slice element => "[" ++ element.shown ++ "]"
  | .tuple items => tupleShown (Ty.allShown items)
  | .reference mutable _ target => (if mutable then "&mut " else "&") ++ target.shown
  | .pointer mutable target => (if mutable then "*mut " else "*const ") ++ target.shown
  | .function _ isUnsafe abi params result =>
    functionShown isUnsafe abi (Ty.allShown params) result.shown
  | .object _ bounds _ => "dyn " ++ Text.join " + " (Bound.allShown bounds)

/-- The source forms of types. -/
def Ty.allShown : List Ty → List Text
  | [] => []
  | t :: ts => t.shown :: Ty.allShown ts

/-- The source form of a bound. -/
def Bound.shown : Bound → Text
  | .mk trait bindings =>
    boundShown (Text.join "::" (trait.segments false)) (Binding.allShown bindings)

/-- The source forms of bounds. -/
def Bound.allShown : List Bound → List Text
  | [] => []
  | b :: bs => b.shown :: Bound.allShown bs

/-- The source form of a binding. -/
def Binding.shown : Binding → Text
  | .mk name type => name ++ " = " ++ type.shown

/-- The source forms of bindings. -/
def Binding.allShown : List Binding → List Text
  | [] => []
  | b :: bs => b.shown :: Binding.allShown bs

end

/-- The text of a path. -/
def Path.shown (inValue : Bool) (path : Path) : Text := Text.join "::" (path.segments inValue)

end CrateLedger.Mangled.V0
