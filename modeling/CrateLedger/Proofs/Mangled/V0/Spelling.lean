import CrateLedger.Mangled.V0.Crate
import CrateLedger.Mangled.V0.Scan
import CrateLedger.Proofs.Placement
import CrateLedger.Proofs.Text
import CrateLedger.Proofs.Text.Numeral

/-!
# Spelling v0 names

How trees are spelled. A tree has many spellings, since any path, type or constant in it may be
replaced by a reference back to a place where the same is spelled already. A spelling is the tree
with the references that were chosen: a reference keeps its target and the spelling that stands
there. So it determines the tree and the characters, and whether its references lead to where they
should is a property of the place in a text where it stands.

Numbers are written in base 62, lengths in decimal, and the values of constants in hexadecimal.
Numbers that are shown in decimal have no more digits than the host writes.
-/

namespace CrateLedger.Mangled.V0

open Numeral

/-! ## Tokens -/

/-- The character of a base-62 digit. -/
def base62Char (d : Nat) : Char :=
  if d < 10 then Char.ofNat ('0'.toNat + d)
  else if d < 36 then Char.ofNat ('a'.toNat + (d - 10))
  else Char.ofNat ('A'.toNat + (d - 36))

/-- A base-62 number with its end: zero is the end alone, and the digits of all others spell one
less. -/
def base62Chars : Nat → List Char
  | 0 => ['_']
  | n + 1 => spelled base62Char 62 n ++ ['_']

/-- A number that is announced by a letter, if there is one. -/
def taggedChars (tag : Char) : Option Nat → List Char
  | none => []
  | some n => tag :: base62Chars n

/-- A letter if something holds. -/
def flagChars (tag : Char) (holds : Bool) : List Char := if holds then [tag] else []

/-- A disambiguator; zero is not written. -/
def disambiguatorChars : Nat → List Char
  | 0 => []
  | n + 1 => 's' :: base62Chars n

/-- An identifier: letters, digits and underscores of ASCII, or nothing. -/
structure Word where
  /-- Its characters. -/
  chars : List Char
  /-- They are letters, digits and underscores. -/
  isWord : (chars.all fun c => c.isAlphanum || c = '_') = true

namespace Word

/-- The text of an identifier. -/
def text (w : Word) : Text := Text.ofChars w.chars

/-- Whether an identifier has to be kept apart from the digits of its length. -/
def needsSeparator (w : Word) : Bool := w.chars.head?.any fun c => c.isDigit || c = '_'

/-- An identifier behind its length. -/
def spelled (w : Word) : List Char :=
  Nat.toDigits 10 w.chars.length ++ flagChars '_' w.needsSeparator ++ w.chars

end Word

/-! ## Constants -/

/-- How a constant is spelled. -/
inductive ConstSpelling where
  /-- A constant that is not known. -/
  | placeholder
  /-- A truth value. -/
  | bool (value : Bool)
  /-- A character. -/
  | char (value : CodePoint)
  /-- An integer. -/
  | integer (type : BasicType) (isInteger : type.isInteger = true) (value : Int)
    (isShort : Numeral.isShort value.natAbs = true)
  /-- A reference back to an earlier constant. -/
  | back (target : Nat) (original : ConstSpelling)

namespace ConstSpelling

/-- The constant that is spelled. -/
def tree : ConstSpelling → Const
  | placeholder => .placeholder
  | bool value => .bool value
  | char value => .char value
  | integer type _ value _ => .integer type value
  | back _ original => original.tree

/-- A letter for the type, a sign if there is one, and the absolute value. -/
def literalChars (type : BasicType) (negative : Bool) (magnitude : Nat) : List Char :=
  type.tag :: flagChars 'n' negative ++ Nat.toDigits 16 magnitude ++ ['_']

/-- The characters of the spelling. -/
def chars : ConstSpelling → List Char
  | placeholder => ['p']
  | bool value => literalChars .bool false value.toNat
  | char value => literalChars .char false value.val
  | integer type _ value _ => literalChars type (value < 0) value.natAbs
  | back target _ => 'B' :: base62Chars target

/-- How many references lead from constant to constant until one is spelled out. -/
def references : ConstSpelling → Nat
  | back _ original => original.references + 1
  | _ => 0

/-- In a text the spelling stands at a place where its references lead back to what they are for. -/
def Placed (input : Array Char) (p : Nat) : ConstSpelling → Prop
  | back target original =>
    target < p ∧ StandsAt input target original.chars ∧ original.Placed input target
  | _ => True

end ConstSpelling

/-! ## Paths and types -/

/-- How the calling convention of a function pointer is spelled. -/
inductive AbiSpelling where
  /-- None is given. -/
  | none
  /-- That of `C`. -/
  | c
  /-- Another, with underscores in the place of hyphens. -/
  | named (name : Word)

namespace AbiSpelling

/-- The calling convention that is spelled. -/
def tree : AbiSpelling → Option Text
  | none => Option.none
  | c => some "C"
  | named name => some (Text.replace '_' '-' name.text)

/-- The characters of the spelling. -/
def chars : AbiSpelling → List Char
  | none => []
  | c => ['K', 'C']
  | named name => 'K' :: name.spelled

end AbiSpelling

mutual

/-- How a path is spelled. -/
inductive PathSpelling where
  /-- The root of a crate. -/
  | crateRoot (disambiguator : Nat) (name : Word)
  /-- An item inside another, in the namespace of a letter. In special namespaces, which have an
  upper-case letter, the disambiguator is shown. -/
  | nested (space : Char) (isAlpha : space.isAlpha = true) (parent : PathSpelling)
      (disambiguator : Nat) (name : Word)
      (isShort : space.isUpper = true → Numeral.isShort disambiguator = true)
  /-- An `impl` block of a type. -/
  | inherentImpl (disambiguator : Nat) (location : PathSpelling) (self : TypeSpelling)
  /-- An `impl` block of a trait for a type. -/
  | traitImpl (disambiguator : Nat) (location : PathSpelling) (self : TypeSpelling)
      (trait : PathSpelling)
  /-- A type seen as an instance of a trait. -/
  | traitView (self : TypeSpelling) (trait : PathSpelling)
  /-- A path with generic arguments. -/
  | generic (base : PathSpelling) (args : List ArgSpelling)
  /-- A reference back to an earlier path. -/
  | back (target : Nat) (original : PathSpelling)

/-- How a generic argument is spelled. -/
inductive ArgSpelling where
  /-- A lifetime. -/
  | lifetime (index : Nat)
  /-- A constant. -/
  | const (value : ConstSpelling)
  /-- A type. -/
  | type (type : TypeSpelling)

/-- How a type is spelled. -/
inductive TypeSpelling where
  /-- A type of a single letter. -/
  | basic (type : BasicType)
  /-- A named type. -/
  | path (path : PathSpelling)
  /-- An array of a constant length. -/
  | array (element : TypeSpelling) (length : ConstSpelling)
  /-- A slice. -/
  | slice (element : TypeSpelling)
  /-- A tuple. -/
  | tuple (items : List TypeSpelling)
  /-- A reference, with its lifetime if that is given. -/
  | reference (mutable : Bool) (lifetime : Option Nat) (target : TypeSpelling)
  /-- A raw pointer. -/
  | pointer (mutable : Bool) (target : TypeSpelling)
  /-- A function pointer. -/
  | function (binder : Option Nat) (isUnsafe : Bool) (abi : AbiSpelling)
      (params : List TypeSpelling) (result : TypeSpelling)
  /-- A trait object. -/
  | object (binder : Option Nat) (bounds : List BoundSpelling) (lifetime : Nat)
  /-- A reference back to an earlier type. -/
  | back (target : Nat) (original : TypeSpelling)

/-- How one trait of a trait object is spelled. -/
inductive BoundSpelling where
  /-- The trait and its bindings. -/
  | mk (trait : PathSpelling) (bindings : List BindingSpelling)

/-- How an associated type and what it is bound to are spelled. -/
inductive BindingSpelling where
  /-- The associated name and its type. -/
  | mk (name : Word) (type : TypeSpelling)

end

/-! ### Trees -/

mutual

/-- The path that is spelled. -/
@[simp] def PathSpelling.tree : PathSpelling → Path
  | .crateRoot disambiguator name => .crateRoot disambiguator name.text
  | .nested space _ parent disambiguator name _ => .nested space parent.tree disambiguator name.text
  | .inherentImpl disambiguator location self => .inherentImpl disambiguator location.tree self.tree
  | .traitImpl disambiguator location self trait =>
    .traitImpl disambiguator location.tree self.tree trait.tree
  | .traitView self trait => .traitView self.tree trait.tree
  | .generic base args => .generic base.tree (ArgSpelling.trees args)
  | .back _ original => original.tree

/-- The generic argument that is spelled. -/
@[simp] def ArgSpelling.tree : ArgSpelling → GenericArg
  | .lifetime index => .lifetime index
  | .const value => .const value.tree
  | .type type => .type type.tree

/-- The generic arguments that are spelled. -/
@[simp] def ArgSpelling.trees : List ArgSpelling → List GenericArg
  | [] => []
  | a :: as => a.tree :: ArgSpelling.trees as

/-- The type that is spelled. -/
@[simp] def TypeSpelling.tree : TypeSpelling → Ty
  | .basic type => .basic type
  | .path path => .path path.tree
  | .array element length => .array element.tree length.tree
  | .slice element => .slice element.tree
  | .tuple items => .tuple (TypeSpelling.trees items)
  | .reference mutable lifetime target => .reference mutable lifetime target.tree
  | .pointer mutable target => .pointer mutable target.tree
  | .function binder isUnsafe abi params result =>
    .function binder isUnsafe abi.tree (TypeSpelling.trees params) result.tree
  | .object binder bounds lifetime => .object binder (BoundSpelling.trees bounds) lifetime
  | .back _ original => original.tree

/-- The types that are spelled. -/
@[simp] def TypeSpelling.trees : List TypeSpelling → List Ty
  | [] => []
  | t :: ts => t.tree :: TypeSpelling.trees ts

/-- The bound that is spelled. -/
@[simp] def BoundSpelling.tree : BoundSpelling → Bound
  | .mk trait bindings => .mk trait.tree (BindingSpelling.trees bindings)

/-- The bounds that are spelled. -/
@[simp] def BoundSpelling.trees : List BoundSpelling → List Bound
  | [] => []
  | b :: bs => b.tree :: BoundSpelling.trees bs

/-- The binding that is spelled. -/
@[simp] def BindingSpelling.tree : BindingSpelling → Binding
  | .mk name type => .mk name.text type.tree

/-- The bindings that are spelled. -/
@[simp] def BindingSpelling.trees : List BindingSpelling → List Binding
  | [] => []
  | b :: bs => b.tree :: BindingSpelling.trees bs

end

/-! ### Characters -/

mutual

/-- The characters of a path. -/
@[simp] def PathSpelling.chars : PathSpelling → List Char
  | .crateRoot disambiguator name => 'C' :: disambiguatorChars disambiguator ++ name.spelled
  | .nested space _ parent disambiguator name _ =>
    'N' :: space :: parent.chars ++ disambiguatorChars disambiguator ++ name.spelled
  | .inherentImpl disambiguator location self =>
    'M' :: disambiguatorChars disambiguator ++ location.chars ++ self.chars
  | .traitImpl disambiguator location self trait =>
    'X' :: disambiguatorChars disambiguator ++ location.chars ++ self.chars ++ trait.chars
  | .traitView self trait => 'Y' :: self.chars ++ trait.chars
  | .generic base args => 'I' :: base.chars ++ ArgSpelling.allChars args ++ ['E']
  | .back target _ => 'B' :: base62Chars target

/-- The characters of a generic argument. -/
@[simp] def ArgSpelling.chars : ArgSpelling → List Char
  | .lifetime index => 'L' :: base62Chars index
  | .const value => 'K' :: value.chars
  | .type type => type.chars

/-- The characters of generic arguments. -/
@[simp] def ArgSpelling.allChars : List ArgSpelling → List Char
  | [] => []
  | a :: as => a.chars ++ ArgSpelling.allChars as

/-- The characters of a type. -/
@[simp] def TypeSpelling.chars : TypeSpelling → List Char
  | .basic type => [type.tag]
  | .path path => path.chars
  | .array element length => 'A' :: element.chars ++ length.chars
  | .slice element => 'S' :: element.chars
  | .tuple items => 'T' :: TypeSpelling.allChars items ++ ['E']
  | .reference mutable lifetime target =>
    (if mutable then 'Q' else 'R') :: taggedChars 'L' lifetime ++ target.chars
  | .pointer mutable target => (if mutable then 'O' else 'P') :: target.chars
  | .function binder isUnsafe abi params result =>
    'F' :: taggedChars 'G' binder ++ flagChars 'U' isUnsafe ++ abi.chars
      ++ TypeSpelling.allChars params ++ 'E' :: result.chars
  | .object binder bounds lifetime =>
    'D' :: taggedChars 'G' binder ++ BoundSpelling.allChars bounds ++ 'E' :: 'L'
      :: base62Chars lifetime
  | .back target _ => 'B' :: base62Chars target

/-- The characters of types. -/
@[simp] def TypeSpelling.allChars : List TypeSpelling → List Char
  | [] => []
  | t :: ts => t.chars ++ TypeSpelling.allChars ts

/-- The characters of a bound. -/
@[simp] def BoundSpelling.chars : BoundSpelling → List Char
  | .mk trait bindings => trait.chars ++ BindingSpelling.allChars bindings

/-- The characters of bounds. -/
@[simp] def BoundSpelling.allChars : List BoundSpelling → List Char
  | [] => []
  | b :: bs => b.chars ++ BoundSpelling.allChars bs

/-- The characters of a binding. -/
@[simp] def BindingSpelling.chars : BindingSpelling → List Char
  | .mk name type => 'p' :: name.spelled ++ type.chars

/-- The characters of bindings. -/
@[simp] def BindingSpelling.allChars : List BindingSpelling → List Char
  | [] => []
  | b :: bs => b.chars ++ BindingSpelling.allChars bs

end

/-! ### Nesting -/

mutual

/-- How many paths and types are open inside one another while a path is read. What a reference
leads to is inside it. -/
@[simp] def PathSpelling.depth : PathSpelling → Nat
  | .crateRoot _ _ => 1
  | .nested _ _ parent _ _ _ => parent.depth + 1
  | .inherentImpl _ location self => max location.depth self.depth + 1
  | .traitImpl _ location self trait => max location.depth (max self.depth trait.depth) + 1
  | .traitView self trait => max self.depth trait.depth + 1
  | .generic base args => max base.depth (ArgSpelling.maxDepth args) + 1
  | .back _ original => original.depth + 1

/-- The nesting of a generic argument. -/
@[simp] def ArgSpelling.depth : ArgSpelling → Nat
  | .lifetime _ => 0
  | .const _ => 0
  | .type type => type.depth

/-- The greatest nesting of generic arguments. -/
@[simp] def ArgSpelling.maxDepth : List ArgSpelling → Nat
  | [] => 0
  | a :: as => max a.depth (ArgSpelling.maxDepth as)

/-- The nesting of a type. -/
@[simp] def TypeSpelling.depth : TypeSpelling → Nat
  | .basic _ => 1
  | .path path => path.depth + 1
  | .array element _ => element.depth + 1
  | .slice element => element.depth + 1
  | .tuple items => TypeSpelling.maxDepth items + 1
  | .reference _ _ target => target.depth + 1
  | .pointer _ target => target.depth + 1
  | .function _ _ _ params result => max (TypeSpelling.maxDepth params) result.depth + 1
  | .object _ bounds _ => BoundSpelling.maxDepth bounds + 1
  | .back _ original => original.depth + 1

/-- The greatest nesting of types. -/
@[simp] def TypeSpelling.maxDepth : List TypeSpelling → Nat
  | [] => 0
  | t :: ts => max t.depth (TypeSpelling.maxDepth ts)

/-- The nesting of a bound. -/
@[simp] def BoundSpelling.depth : BoundSpelling → Nat
  | .mk trait bindings => max trait.depth (BindingSpelling.maxDepth bindings)

/-- The greatest nesting of bounds. -/
@[simp] def BoundSpelling.maxDepth : List BoundSpelling → Nat
  | [] => 0
  | b :: bs => max b.depth (BoundSpelling.maxDepth bs)

/-- The nesting of a binding. -/
@[simp] def BindingSpelling.depth : BindingSpelling → Nat
  | .mk _ type => type.depth

/-- The greatest nesting of bindings. -/
@[simp] def BindingSpelling.maxDepth : List BindingSpelling → Nat
  | [] => 0
  | b :: bs => max b.depth (BindingSpelling.maxDepth bs)

end

mutual

/-- The longest chain of references from constant to constant in a path. What a reference leads to
is inside the path. -/
@[simp] def PathSpelling.references : PathSpelling → Nat
  | .crateRoot _ _ => 0
  | .nested _ _ parent _ _ _ => parent.references
  | .inherentImpl _ location self => max location.references self.references
  | .traitImpl _ location self trait =>
    max location.references (max self.references trait.references)
  | .traitView self trait => max self.references trait.references
  | .generic base args => max base.references (ArgSpelling.maxReferences args)
  | .back _ original => original.references

/-- The longest chain in a generic argument. -/
@[simp] def ArgSpelling.references : ArgSpelling → Nat
  | .lifetime _ => 0
  | .const value => value.references
  | .type type => type.references

/-- The longest chain in generic arguments. -/
@[simp] def ArgSpelling.maxReferences : List ArgSpelling → Nat
  | [] => 0
  | a :: as => max a.references (ArgSpelling.maxReferences as)

/-- The longest chain in a type. -/
@[simp] def TypeSpelling.references : TypeSpelling → Nat
  | .basic _ => 0
  | .path path => path.references
  | .array element length => max element.references length.references
  | .slice element => element.references
  | .tuple items => TypeSpelling.maxReferences items
  | .reference _ _ target => target.references
  | .pointer _ target => target.references
  | .function _ _ _ params result => max (TypeSpelling.maxReferences params) result.references
  | .object _ bounds _ => BoundSpelling.maxReferences bounds
  | .back _ original => original.references

/-- The longest chain in types. -/
@[simp] def TypeSpelling.maxReferences : List TypeSpelling → Nat
  | [] => 0
  | t :: ts => max t.references (TypeSpelling.maxReferences ts)

/-- The longest chain in a bound. -/
@[simp] def BoundSpelling.references : BoundSpelling → Nat
  | .mk trait bindings => max trait.references (BindingSpelling.maxReferences bindings)

/-- The longest chain in bounds. -/
@[simp] def BoundSpelling.maxReferences : List BoundSpelling → Nat
  | [] => 0
  | b :: bs => max b.references (BoundSpelling.maxReferences bs)

/-- The longest chain in a binding. -/
@[simp] def BindingSpelling.references : BindingSpelling → Nat
  | .mk _ type => type.references

/-- The longest chain in bindings. -/
@[simp] def BindingSpelling.maxReferences : List BindingSpelling → Nat
  | [] => 0
  | b :: bs => max b.references (BindingSpelling.maxReferences bs)

end

/-- The calls that a name may open inside one another in the host, which gives names up that open
about a thousand. -/
def hostRoom : Nat := 900

/-- What reading a path opens has room in the host: at most four calls for a path or a type, and two
for a reference from constant to constant. -/
def PathSpelling.FitsHost (s : PathSpelling) : Prop := 4 * s.depth + 2 * s.references ≤ hostRoom

instance (s : PathSpelling) : Decidable s.FitsHost :=
  inferInstanceAs (Decidable (4 * s.depth + 2 * s.references ≤ hostRoom))

/-! ### References -/

mutual

/-- In a text a path stands at a place where its references lead back to what they are for: each to
an earlier position, where the spelling that it stands for is, and where the references of that lead
back to what they are for. -/
@[simp] def PathSpelling.Placed (input : Array Char) (p : Nat) : PathSpelling → Prop
  | .crateRoot _ _ => True
  | .nested _ _ parent _ _ _ => parent.Placed input (p + 2)
  | .inherentImpl disambiguator location self =>
    let q := p + 1 + (disambiguatorChars disambiguator).length
    location.Placed input q ∧ self.Placed input (q + location.chars.length)
  | .traitImpl disambiguator location self trait =>
    let q := p + 1 + (disambiguatorChars disambiguator).length
    location.Placed input q ∧ self.Placed input (q + location.chars.length)
      ∧ trait.Placed input (q + location.chars.length + self.chars.length)
  | .traitView self trait =>
    self.Placed input (p + 1) ∧ trait.Placed input (p + 1 + self.chars.length)
  | .generic base args =>
    base.Placed input (p + 1) ∧ ArgSpelling.AllPlaced input (p + 1 + base.chars.length) args
  | .back target original =>
    target < p ∧ StandsAt input target original.chars ∧ original.Placed input target

/-- The same for a generic argument. -/
@[simp] def ArgSpelling.Placed (input : Array Char) (p : Nat) : ArgSpelling → Prop
  | .lifetime _ => True
  | .const value => value.Placed input (p + 1)
  | .type type => type.Placed input p

/-- The same for generic arguments one after the other. -/
@[simp] def ArgSpelling.AllPlaced (input : Array Char) (p : Nat) : List ArgSpelling → Prop
  | [] => True
  | a :: as => a.Placed input p ∧ ArgSpelling.AllPlaced input (p + a.chars.length) as

/-- The same for a type. -/
@[simp] def TypeSpelling.Placed (input : Array Char) (p : Nat) : TypeSpelling → Prop
  | .basic _ => True
  | .path path => path.Placed input p
  | .array element length =>
    element.Placed input (p + 1) ∧ length.Placed input (p + 1 + element.chars.length)
  | .slice element => element.Placed input (p + 1)
  | .tuple items => TypeSpelling.AllPlaced input (p + 1) items
  | .reference _ lifetime target =>
    target.Placed input (p + 1 + (taggedChars 'L' lifetime).length)
  | .pointer _ target => target.Placed input (p + 1)
  | .function binder isUnsafe abi params result =>
    let q := p + 1 + (taggedChars 'G' binder).length + (flagChars 'U' isUnsafe).length
      + abi.chars.length
    TypeSpelling.AllPlaced input q params
      ∧ result.Placed input (q + (TypeSpelling.allChars params).length + 1)
  | .object binder bounds _ =>
    BoundSpelling.AllPlaced input (p + 1 + (taggedChars 'G' binder).length) bounds
  | .back target original =>
    target < p ∧ StandsAt input target original.chars ∧ original.Placed input target

/-- The same for types one after the other. -/
@[simp] def TypeSpelling.AllPlaced (input : Array Char) (p : Nat) : List TypeSpelling → Prop
  | [] => True
  | t :: ts => t.Placed input p ∧ TypeSpelling.AllPlaced input (p + t.chars.length) ts

/-- The same for a bound. -/
@[simp] def BoundSpelling.Placed (input : Array Char) (p : Nat) : BoundSpelling → Prop
  | .mk trait bindings =>
    trait.Placed input p ∧ BindingSpelling.AllPlaced input (p + trait.chars.length) bindings

/-- The same for bounds one after the other. -/
@[simp] def BoundSpelling.AllPlaced (input : Array Char) (p : Nat) : List BoundSpelling → Prop
  | [] => True
  | b :: bs => b.Placed input p ∧ BoundSpelling.AllPlaced input (p + b.chars.length) bs

/-- The same for a binding. -/
@[simp] def BindingSpelling.Placed (input : Array Char) (p : Nat) : BindingSpelling → Prop
  | .mk name type => type.Placed input (p + 1 + name.spelled.length)

/-- The same for bindings one after the other. -/
@[simp] def BindingSpelling.AllPlaced (input : Array Char) (p : Nat) : List BindingSpelling → Prop
  | [] => True
  | b :: bs => b.Placed input p ∧ BindingSpelling.AllPlaced input (p + b.chars.length) bs

end

/-! ## Spellings are ASCII -/

/-- All characters are among the first 128. -/
def IsAscii (cs : List Char) : Prop := ∀ c ∈ cs, c.toNat < 0x80

@[simp] theorem isAscii_nil : IsAscii [] := nofun

@[simp] theorem isAscii_cons {c : Char} {cs : List Char} :
    IsAscii (c :: cs) ↔ c.toNat < 0x80 ∧ IsAscii cs := List.forall_mem_cons

@[simp] theorem isAscii_append {as bs : List Char} :
    IsAscii (as ++ bs) ↔ IsAscii as ∧ IsAscii bs := List.forall_mem_append

theorem isAscii_spelled {alphabet : Nat → Char} {base : Nat} (hbase : 1 < base)
    (halphabet : ∀ d < base, (alphabet d).toNat < 0x80) (n : Nat) :
    IsAscii (spelled alphabet base n) := by
  intro c hc
  obtain ⟨d, hd, rfl⟩ := exists_of_mem_spelled hbase hc
  exact halphabet d hd

@[simp] theorem isAscii_toDigits (n : Nat) : IsAscii (Nat.toDigits 10 n) := by
  rw [toDigits_eq_spelled (by decide)]
  exact isAscii_spelled (by decide) (by decide) n

@[simp] theorem isAscii_toDigits_hex (n : Nat) : IsAscii (Nat.toDigits 16 n) := by
  rw [toDigits_eq_spelled (by decide)]
  exact isAscii_spelled (by decide) (by decide) n

@[simp] theorem isAscii_base62Chars (n : Nat) : IsAscii (base62Chars n) := by
  cases n with
  | zero => simp [base62Chars]
  | succ n =>
    have hdigits : IsAscii (spelled base62Char 62 n) := isAscii_spelled (by decide) (by decide) n
    simp [base62Chars, hdigits]

@[simp] theorem isAscii_taggedChars {tag : Char} (n : Option Nat) (h : tag.toNat < 0x80) :
    IsAscii (taggedChars tag n) := by
  cases n <;> simp [taggedChars, h]

@[simp] theorem isAscii_flagChars {tag : Char} (holds : Bool) (h : tag.toNat < 0x80) :
    IsAscii (flagChars tag holds) := by
  cases holds <;> simp [flagChars, h]

@[simp] theorem isAscii_disambiguatorChars (n : Nat) : IsAscii (disambiguatorChars n) := by
  cases n <;> simp [disambiguatorChars]

@[simp] theorem Word.isAscii_spelled (w : Word) : IsAscii w.spelled := by
  have hchars : IsAscii w.chars := by
    intro c hc
    have hword := List.all_eq_true.1 w.isWord c hc
    rw [Bool.or_eq_true, decide_eq_true_eq] at hword
    rcases hword with hc | rfl
    · exact toNat_lt_of_isAlphanum hc
    · decide
  simp [Word.spelled, hchars]

theorem BasicType.toNat_tag_lt (b : BasicType) : b.tag.toNat < 0x80 := by cases b <;> decide

@[simp] theorem ConstSpelling.isAscii_chars (s : ConstSpelling) : IsAscii s.chars := by
  cases s <;> simp [ConstSpelling.chars, ConstSpelling.literalChars, BasicType.toNat_tag_lt]

@[simp] theorem AbiSpelling.isAscii_chars (abi : AbiSpelling) : IsAscii abi.chars := by
  cases abi <;> simp [AbiSpelling.chars]

mutual

/-- A path is spelled in ASCII. -/
theorem PathSpelling.isAscii_chars : ∀ s : PathSpelling, IsAscii s.chars
  | .crateRoot _ _ => by simp
  | .nested _ isAlpha parent _ _ _ => by
    simp [parent.isAscii_chars, toNat_lt_of_isAlphanum, Char.isAlphanum, isAlpha]
  | .inherentImpl _ location self => by
    simp [location.isAscii_chars, self.isAscii_chars]
  | .traitImpl _ location self trait => by
    simp [location.isAscii_chars, self.isAscii_chars, trait.isAscii_chars]
  | .traitView self trait => by
    simp [self.isAscii_chars, trait.isAscii_chars]
  | .generic base args => by
    simp [base.isAscii_chars, ArgSpelling.isAscii_allChars args]
  | .back _ _ => by simp

theorem ArgSpelling.isAscii_chars : ∀ a : ArgSpelling, IsAscii a.chars
  | .lifetime _ => by simp
  | .const _ => by simp
  | .type type => by simp [type.isAscii_chars]

theorem ArgSpelling.isAscii_allChars : ∀ as : List ArgSpelling, IsAscii (ArgSpelling.allChars as)
  | [] => by simp
  | a :: as => by
    simp [a.isAscii_chars, ArgSpelling.isAscii_allChars as]

theorem TypeSpelling.isAscii_chars : ∀ t : TypeSpelling, IsAscii t.chars
  | .basic type => by simp [type.toNat_tag_lt]
  | .path path => by simp [path.isAscii_chars]
  | .array element _ => by simp [element.isAscii_chars]
  | .slice element => by simp [element.isAscii_chars]
  | .tuple items => by simp [TypeSpelling.isAscii_allChars items]
  | .reference mutable _ target => by
    cases mutable <;> simp [target.isAscii_chars]
  | .pointer mutable target => by
    cases mutable <;> simp [target.isAscii_chars]
  | .function _ _ _ params result => by
    simp [TypeSpelling.isAscii_allChars params, result.isAscii_chars]
  | .object _ bounds _ => by simp [BoundSpelling.isAscii_allChars bounds]
  | .back _ _ => by simp

theorem TypeSpelling.isAscii_allChars :
    ∀ ts : List TypeSpelling, IsAscii (TypeSpelling.allChars ts)
  | [] => by simp
  | t :: ts => by
    simp [t.isAscii_chars, TypeSpelling.isAscii_allChars ts]

theorem BoundSpelling.isAscii_chars : ∀ b : BoundSpelling, IsAscii b.chars
  | .mk trait bindings => by
    simp [trait.isAscii_chars, BindingSpelling.isAscii_allChars bindings]

theorem BoundSpelling.isAscii_allChars :
    ∀ bs : List BoundSpelling, IsAscii (BoundSpelling.allChars bs)
  | [] => by simp
  | b :: bs => by
    simp [b.isAscii_chars, BoundSpelling.isAscii_allChars bs]

theorem BindingSpelling.isAscii_chars : ∀ b : BindingSpelling, IsAscii b.chars
  | .mk _ type => by simp [type.isAscii_chars]

theorem BindingSpelling.isAscii_allChars :
    ∀ bs : List BindingSpelling, IsAscii (BindingSpelling.allChars bs)
  | [] => by simp
  | b :: bs => by
    simp [b.isAscii_chars, BindingSpelling.isAscii_allChars bs]

end

end CrateLedger.Mangled.V0
