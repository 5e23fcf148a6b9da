import CrateLedger.Mangled.V0.Syntax
import CrateLedger.Text.Numeral
import CrateLedger.Text.Printable
import Mathlib.Data.List.Forall2

/-!
# The source form of v0 trees

The source form by rules, one for each form that a path, a type, a constant or a bound can take. A
rule names the parts and how they are put together, and never looks at a text that has been put
together already: whether bindings join generic arguments is a matter of the trait, and whether the
result of a function is left out is one of its type.
-/

namespace CrateLedger.Mangled.V0

/-! ## Tokens -/

/-- The label of a special namespace. -/
inductive IsLabel : Char → Text → Prop where
  | closure : IsLabel 'C' "closure"
  | shim : IsLabel 'S' "shim"
  /-- Other namespaces are shown by their letters. -/
  | letter {space : Char} (isUpper : space.isUpper = true) (notClosure : space ≠ 'C')
      (notShim : space ≠ 'S') : IsLabel space [↑space]

/-- How an item in a namespace is shown, by its name. -/
inductive ItemShows (space : Char) (disambiguator : Nat) : Text → Text → Prop where
  /-- By its name. -/
  | plain {name : Text} (isLower : space.isUpper = false) : ItemShows space disambiguator name name
  /-- By the label of the namespace and its number. -/
  | unnamed {label : Text} (isLabel : IsLabel space label) :
      ItemShows space disambiguator []
        ("\x7b" ++ label ++ "#" ++ Numeral.decimal disambiguator ++ "\x7d")
  /-- By label, name and number. -/
  | named {label name : Text} (isLabel : IsLabel space label) (isNamed : name ≠ []) :
      ItemShows space disambiguator name
        ("\x7b" ++ label ++ ":" ++ name ++ "#" ++ Numeral.decimal disambiguator ++ "\x7d")

/-- How a character is written between quotes. -/
inductive CharShows : CodePoint → Text → Prop where
  | apostrophe : CharShows '\'' "\"'\""
  | backslash : CharShows '\\' "'\\\\'"
  | tab : CharShows '\t' "'\\t'"
  | lineFeed : CharShows '\n' "'\\n'"
  | carriageReturn : CharShows '\r' "'\\r'"
  /-- As it is. -/
  | printable {c : CodePoint} (isPrintable : Text.isPrintable c = true) (notApostrophe : c ≠ '\'')
      (notBackslash : c ≠ '\\') : CharShows c ("'" ++ [c] ++ "'")
  /-- By two digits. -/
  | byte {c : CodePoint} (notPrintable : Text.isPrintable c = false)
      (noLetter : c ≠ '\t' ∧ c ≠ '\n' ∧ c ≠ '\r') (small : c.val < 0x100) :
      CharShows c ("'\\x" ++ Numeral.paddedHex 2 c.val ++ "'")
  /-- By four digits. -/
  | short {c : CodePoint} (notPrintable : Text.isPrintable c = false) (notByte : 0x100 ≤ c.val)
      (small : c.val < 0x10000) : CharShows c ("'\\u" ++ Numeral.paddedHex 4 c.val ++ "'")
  /-- By eight digits. -/
  | long {c : CodePoint} (notPrintable : Text.isPrintable c = false) (notShort : 0x10000 ≤ c.val) :
      CharShows c ("'\\U" ++ Numeral.paddedHex 8 c.val ++ "'")

/-- How a constant is shown. -/
inductive Const.Shows : Const → Text → Prop where
  | placeholder : Shows .placeholder "_"
  | true : Shows (.bool true) "true"
  | false : Shows (.bool false) "false"
  | char {c : CodePoint} {text : Text} (shows : CharShows c text) : Shows (.char c) text
  | natural (type : BasicType) (n : Nat) : Shows (.integer type n) (Numeral.decimal n)
  | negative (type : BasicType) (n : Nat) :
      Shows (.integer type (-(n + 1 : Nat))) ("-" ++ Numeral.decimal (n + 1))

/-- How the calling convention of a function pointer is shown. One without a name is not. -/
inductive AbiShows : Option Text → Text → Prop where
  | none : AbiShows none []
  | unnamed : AbiShows (some []) []
  | named {name : Text} (isNamed : name ≠ []) :
      AbiShows (some name) ("extern \"" ++ name ++ "\" ")

/-- The unit type, as a letter or as a tuple. -/
inductive Ty.IsUnit : Ty → Prop where
  | basic : IsUnit (.basic .unit)
  | tuple : IsUnit (.tuple [])

/-- A crate or an item in it. -/
inductive Path.IsItem : Path → Prop where
  | crateRoot (disambiguator : Nat) (name : Text) : IsItem (.crateRoot disambiguator name)
  | nested (space : Char) (parent : Path) (disambiguator : Nat) (name : Text) :
      IsItem (.nested space parent disambiguator name)

/-- A path with at least one generic argument. -/
inductive Path.HasArgs : Path → Prop where
  | generic (base : Path) (arg : GenericArg) (args : List GenericArg) :
      HasArgs (.generic base (arg :: args))

/-! ## Trees -/

mutual

/-- The segments that a path is shown as, in a value or in a type. -/
inductive Path.Shows : Bool → Path → List Text → Prop where
  | crateRoot (inValue : Bool) (disambiguator : Nat) (name : Text) :
      Path.Shows inValue (.crateRoot disambiguator name) [name]
  | nested {inValue : Bool} {space : Char} {parent : Path} {disambiguator : Nat} {name text : Text}
      {segments : List Text} (parentShows : Path.Shows inValue parent segments)
      (shows : ItemShows space disambiguator name text) :
      Path.Shows inValue (.nested space parent disambiguator name) (segments ++ [text])
  /-- The place of an `impl` block is not shown. -/
  | inherentImpl (inValue : Bool) {disambiguator : Nat} {location : Path} {self : Ty} {text : Text}
      (selfShows : Ty.Shows self text) :
      Path.Shows inValue (.inherentImpl disambiguator location self) ["<" ++ text ++ ">"]
  | traitImpl (inValue : Bool) {disambiguator : Nat} {location trait : Path} {self : Ty}
      {text : Text} {segments : List Text} (selfShows : Ty.Shows self text)
      (traitShows : Path.Shows false trait segments) :
      Path.Shows inValue (.traitImpl disambiguator location self trait)
        ["<" ++ text ++ " as " ++ Text.join "::" segments ++ ">"]
  | traitView (inValue : Bool) {trait : Path} {self : Ty} {text : Text} {segments : List Text}
      (selfShows : Ty.Shows self text) (traitShows : Path.Shows false trait segments) :
      Path.Shows inValue (.traitView self trait)
        ["<" ++ text ++ " as " ++ Text.join "::" segments ++ ">"]
  /-- In a type, generic arguments follow the last segment. -/
  | genericInType {base : Path} {args : List GenericArg} {front : List Text} {last : Text}
      {texts : List Text} (baseShows : Path.Shows false base (front ++ [last]))
      (argsShow : List.Forall₂ GenericArg.Shows args texts) :
      Path.Shows false (.generic base args)
        (front ++ [last ++ "<" ++ Text.join ", " texts ++ ">"])
  /-- In a value, they stand behind a separator. -/
  | genericInValue {base : Path} {args : List GenericArg} {front : List Text} {last : Text}
      {texts : List Text} (baseShows : Path.Shows true base (front ++ [last]))
      (argsShow : List.Forall₂ GenericArg.Shows args texts) :
      Path.Shows true (.generic base args)
        (front ++ [last ++ "::<" ++ Text.join ", " texts ++ ">"])

/-- How a generic argument is shown. -/
inductive GenericArg.Shows : GenericArg → Text → Prop where
  | lifetime (index : Nat) : GenericArg.Shows (.lifetime index) "'_"
  | const {value : Const} {text : Text} (shows : value.Shows text) :
      GenericArg.Shows (.const value) text
  | type {type : Ty} {text : Text} (shows : Ty.Shows type text) : GenericArg.Shows (.type type) text

/-- How a type is shown. -/
inductive Ty.Shows : Ty → Text → Prop where
  | basic (type : BasicType) : Ty.Shows (.basic type) type.shown
  | path {path : Path} {segments : List Text} (shows : Path.Shows false path segments) :
      Ty.Shows (.path path) (Text.join "::" segments)
  | array {element : Ty} {length : Const} {text number : Text}
      (elementShows : Ty.Shows element text) (lengthShows : length.Shows number) :
      Ty.Shows (.array element length) ("[" ++ text ++ "; " ++ number ++ "]")
  | slice {element : Ty} {text : Text} (shows : Ty.Shows element text) :
      Ty.Shows (.slice element) ("[" ++ text ++ "]")
  /-- A single item has a comma behind it. -/
  | single {item : Ty} {text : Text} (shows : Ty.Shows item text) :
      Ty.Shows (.tuple [item]) ("(" ++ text ++ ",)")
  | tuple {items : List Ty} {texts : List Text} (notSingle : items.length ≠ 1)
      (itemsShow : List.Forall₂ Ty.Shows items texts) :
      Ty.Shows (.tuple items) ("(" ++ Text.join ", " texts ++ ")")
  | reference (lifetime : Option Nat) {target : Ty} {text : Text} (shows : Ty.Shows target text) :
      Ty.Shows (.reference false lifetime target) ("&" ++ text)
  | mutableReference (lifetime : Option Nat) {target : Ty} {text : Text}
      (shows : Ty.Shows target text) : Ty.Shows (.reference true lifetime target) ("&mut " ++ text)
  | pointer {target : Ty} {text : Text} (shows : Ty.Shows target text) :
      Ty.Shows (.pointer false target) ("*const " ++ text)
  | mutablePointer {target : Ty} {text : Text} (shows : Ty.Shows target text) :
      Ty.Shows (.pointer true target) ("*mut " ++ text)
  /-- The result of a function is not shown if it is the unit type. -/
  | procedure (binder : Option Nat) (isUnsafe : Bool) {abi : Option Text} {params : List Ty}
      {result : Ty} {convention : Text} {texts : List Text} (abiShows : AbiShows abi convention)
      (paramsShow : List.Forall₂ Ty.Shows params texts) (isUnit : result.IsUnit) :
      Ty.Shows (.function binder isUnsafe abi params result)
        ((if isUnsafe then "unsafe " else [] : Text) ++ convention ++ "fn(" ++ Text.join ", " texts
          ++ ")")
  | function (binder : Option Nat) (isUnsafe : Bool) {abi : Option Text} {params : List Ty}
      {result : Ty} {convention text : Text} {texts : List Text}
      (abiShows : AbiShows abi convention) (paramsShow : List.Forall₂ Ty.Shows params texts)
      (notUnit : ¬ result.IsUnit) (resultShows : Ty.Shows result text) :
      Ty.Shows (.function binder isUnsafe abi params result)
        ((if isUnsafe then "unsafe " else [] : Text) ++ convention ++ "fn(" ++ Text.join ", " texts
          ++ ") -> " ++ text)
  | object (binder : Option Nat) (lifetime : Nat) {bounds : List Bound} {texts : List Text}
      (boundsShow : List.Forall₂ Bound.Shows bounds texts) :
      Ty.Shows (.object binder bounds lifetime) ("dyn " ++ Text.join " + " texts)

/-- How a trait with bindings is shown. -/
inductive Bound.Shows : Bound → Text → Prop where
  | plain {trait : Path} {segments : List Text} (shows : Path.Shows false trait segments) :
      Bound.Shows (.mk trait []) (Text.join "::" segments)
  /-- Bindings follow an item like generic arguments. -/
  | item {trait : Path} {bindings : List Binding} {segments texts : List Text}
      (isItem : trait.IsItem) (bound : bindings ≠ []) (shows : Path.Shows false trait segments)
      (bindingsShow : List.Forall₂ Binding.Shows bindings texts) :
      Bound.Shows (.mk trait bindings)
        (Text.join "::" segments ++ "<" ++ Text.join ", " texts ++ ">")
  /-- They join the generic arguments that there are. -/
  | generic {base : Path} {args : List GenericArg} {bindings : List Binding}
      {segments argTexts texts : List Text} (hasArgs : args ≠ []) (bound : bindings ≠ [])
      (shows : Path.Shows false base segments)
      (argsShow : List.Forall₂ GenericArg.Shows args argTexts)
      (bindingsShow : List.Forall₂ Binding.Shows bindings texts) :
      Bound.Shows (.mk (.generic base args) bindings)
        (Text.join "::" segments ++ "<" ++ Text.join ", " (argTexts ++ texts) ++ ">")
  /-- In anything else that stands in place of a trait, they stand in front of its last bracket. -/
  | enclosed {trait : Path} {bindings : List Binding} {segments texts : List Text} {text : Text}
      (notItem : ¬ trait.IsItem) (noArgs : ¬ trait.HasArgs) (bound : bindings ≠ [])
      (shows : Path.Shows false trait segments) (closed : Text.join "::" segments = text ++ ">")
      (bindingsShow : List.Forall₂ Binding.Shows bindings texts) :
      Bound.Shows (.mk trait bindings) (text ++ ", " ++ Text.join ", " texts ++ ">")

/-- How a binding is shown. -/
inductive Binding.Shows : Binding → Text → Prop where
  | mk (name : Text) {type : Ty} {text : Text} (shows : Ty.Shows type text) :
      Binding.Shows (.mk name type) (name ++ " = " ++ text)

end

end CrateLedger.Mangled.V0
