import CrateLedger.Text

/-!
# Syntax of v0 names

The tree that a v0 name spells: paths, types, constants and generic arguments. Back references are
not part of it, since a reference stands for the tree at its target. The tree keeps everything
that the name says, also what is never shown, such as the path of the module that an `impl` is in,
disambiguators of crates, and lifetimes.
-/

namespace CrateLedger.Mangled.V0

/-- A type that is spelled by a single letter. -/
inductive BasicType where
  | i8 | bool | char | f64 | str | f32 | u8 | isize | usize | i32 | u32 | i128 | u128 | i16 | u16
  | unit | variadic | i64 | u64 | never | placeholder
  deriving DecidableEq, Repr

namespace BasicType

/-- The type of a letter. -/
def ofTag? : Char → Option BasicType
  | 'a' => some i8 | 'b' => some bool | 'c' => some char | 'd' => some f64 | 'e' => some str
  | 'f' => some f32 | 'h' => some u8 | 'i' => some isize | 'j' => some usize | 'l' => some i32
  | 'm' => some u32 | 'n' => some i128 | 'o' => some u128 | 's' => some i16 | 't' => some u16
  | 'u' => some unit | 'v' => some variadic | 'x' => some i64 | 'y' => some u64 | 'z' => some never
  | 'p' => some placeholder
  | _ => none

/-- The letter of a type. -/
def tag : BasicType → Char
  | i8 => 'a' | bool => 'b' | char => 'c' | f64 => 'd' | str => 'e' | f32 => 'f' | u8 => 'h'
  | isize => 'i' | usize => 'j' | i32 => 'l' | u32 => 'm' | i128 => 'n' | u128 => 'o' | i16 => 's'
  | u16 => 't' | unit => 'u' | variadic => 'v' | i64 => 'x' | u64 => 'y' | never => 'z'
  | placeholder => 'p'

/-- The source form of a type. -/
def shown : BasicType → Text
  | i8 => "i8" | bool => "bool" | char => "char" | f64 => "f64" | str => "str" | f32 => "f32"
  | u8 => "u8" | isize => "isize" | usize => "usize" | i32 => "i32" | u32 => "u32"
  | i128 => "i128" | u128 => "u128" | i16 => "i16" | u16 => "u16" | unit => "()"
  | variadic => "..." | i64 => "i64" | u64 => "u64" | never => "!" | placeholder => "_"

/-- Whether constants of a type are written as integers. -/
def isInteger : BasicType → Bool
  | i8 | i16 | i32 | i64 | i128 | isize | u8 | u16 | u32 | u64 | u128 | usize => true
  | _ => false

theorem ofTag?_tag (b : BasicType) : ofTag? b.tag = some b := by cases b <;> rfl

end BasicType

/-- A constant in a generic argument or an array length. -/
inductive Const where
  /-- A constant that is not known. -/
  | placeholder
  /-- A truth value. -/
  | bool (value : Bool)
  /-- A character, which may be a surrogate. -/
  | char (value : CodePoint)
  /-- An integer of an integer type, of any magnitude. -/
  | integer (type : BasicType) (value : Int)
  deriving DecidableEq, Repr

mutual

/-- A path, which names an item. -/
inductive Path where
  /-- The root of a crate. -/
  | crateRoot (disambiguator : Nat) (name : Text)
  /-- An item inside another, in the namespace of a letter. -/
  | nested (space : Char) (parent : Path) (disambiguator : Nat) (name : Text)
  /-- An `impl` block of a type that is in the module of `location`. -/
  | inherentImpl (disambiguator : Nat) (location : Path) (self : Ty)
  /-- An `impl` block of a trait for a type. -/
  | traitImpl (disambiguator : Nat) (location : Path) (self : Ty) (trait : Path)
  /-- A type seen as an instance of a trait. -/
  | traitView (self : Ty) (trait : Path)
  /-- A path with generic arguments. -/
  | generic (base : Path) (args : List GenericArg)

/-- A generic argument. -/
inductive GenericArg where
  /-- A lifetime, by its index. -/
  | lifetime (index : Nat)
  /-- A constant. -/
  | const (value : Const)
  /-- A type. -/
  | type (type : Ty)

/-- A type. -/
inductive Ty where
  /-- A type of a single letter. -/
  | basic (type : BasicType)
  /-- A named type. -/
  | path (path : Path)
  /-- An array of a constant length. -/
  | array (element : Ty) (length : Const)
  /-- A slice. -/
  | slice (element : Ty)
  /-- A tuple. -/
  | tuple (items : List Ty)
  /-- A reference, with the index of its lifetime if it has one. -/
  | reference (mutable : Bool) (lifetime : Option Nat) (target : Ty)
  /-- A raw pointer. -/
  | pointer (mutable : Bool) (target : Ty)
  /-- A function pointer. -/
  | function (binder : Option Nat) (isUnsafe : Bool) (abi : Option Text) (params : List Ty)
      (result : Ty)
  /-- A trait object. -/
  | object (binder : Option Nat) (bounds : List Bound) (lifetime : Nat)

/-- One trait of a trait object. -/
inductive Bound where
  /-- The trait and the types that its associated names are bound to. -/
  | mk (trait : Path) (bindings : List Binding)

/-- An associated type of a trait and the type that it is bound to. -/
inductive Binding where
  /-- The associated name and its type. -/
  | mk (name : Text) (type : Ty)

end

end CrateLedger.Mangled.V0
