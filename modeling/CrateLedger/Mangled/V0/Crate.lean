import CrateLedger.Mangled.V0.Syntax

/-!
# The crates of v0 names

Every path belongs to a crate, and so do the types that are paths or refer to one. The crate of an
`impl` is that of the implementing type, and where the type belongs to none, that of the module (for
a type seen as an instance of a trait, that of the trait). An empty crate name counts as none there.

Back references let a short name spell a tree that contains the same part very often. A traced path
or type carries its crate along, so that it is looked for only once in each part that is read.
-/

namespace CrateLedger.Mangled.V0

/-! ## Crates -/

/-- A name if there is one that is not empty, and otherwise another, which is not looked for unless
it is needed. -/
@[macro_inline] def nonemptyOr (first : Option Text) (second : Text) : Text :=
  match first with
  | none | some [] => second
  | some name => name

mutual

/-- The crate that a path belongs to. -/
def Path.crate : Path → Text
  | .crateRoot _ name => name
  | .nested _ parent _ _ => parent.crate
  | .inherentImpl _ location self => nonemptyOr self.crate? location.crate
  | .traitImpl _ location self _ => nonemptyOr self.crate? location.crate
  | .traitView self trait => nonemptyOr self.crate? trait.crate
  | .generic base _ => base.crate

/-- The crate that a type belongs to. References, pointers and trait objects belong to the crate of
what they refer to, and all other types that are not paths to none. -/
def Ty.crate? : Ty → Option Text
  | .path path => some path.crate
  | .reference _ _ target => target.crate?
  | .pointer _ target => target.crate?
  | .object _ (.mk trait _ :: _) _ => some trait.crate
  | _ => none

end

/-! ## Traced trees -/

/-- A path together with its crate. -/
structure TracedPath where
  path : Path
  crate : Text
  /-- The crate is that of the path. -/
  crate_eq : crate = path.crate

/-- A type together with its crate. -/
structure TracedType where
  type : Ty
  /-- Its crate, if it belongs to one. -/
  crate? : Option Text
  /-- The crate is that of the type. -/
  crate?_eq : crate? = type.crate?

namespace TracedPath

/-- A path has only one trace. -/
theorem eq_of_path_eq {a b : TracedPath} (h : a.path = b.path) : a = b := by
  obtain ⟨p, c, hc⟩ := a
  obtain ⟨q, d, hd⟩ := b
  subst hc hd
  cases h
  rfl

/-- The root of a crate. -/
def crateRoot (disambiguator : Nat) (name : Text) : TracedPath :=
  ⟨.crateRoot disambiguator name, name, by rw [Path.crate]⟩

/-- An item inside another. -/
def nested (space : Char) (parent : TracedPath) (disambiguator : Nat) (name : Text) : TracedPath :=
  ⟨.nested space parent.path disambiguator name, parent.crate, by rw [Path.crate, parent.crate_eq]⟩

/-- An `impl` block of a type. -/
def inherentImpl (disambiguator : Nat) (location : TracedPath) (self : TracedType) : TracedPath :=
  ⟨.inherentImpl disambiguator location.path self.type, nonemptyOr self.crate? location.crate, by
    rw [Path.crate, self.crate?_eq, location.crate_eq]⟩

/-- An `impl` block of a trait for a type. -/
def traitImpl (disambiguator : Nat) (location : TracedPath) (self : TracedType)
    (trait : TracedPath) : TracedPath :=
  ⟨.traitImpl disambiguator location.path self.type trait.path,
    nonemptyOr self.crate? location.crate, by
    rw [Path.crate, self.crate?_eq, location.crate_eq]⟩

/-- A type seen as an instance of a trait. -/
def traitView (self : TracedType) (trait : TracedPath) : TracedPath :=
  ⟨.traitView self.type trait.path, nonemptyOr self.crate? trait.crate, by
    rw [Path.crate, self.crate?_eq, trait.crate_eq]⟩

/-- A path with generic arguments. -/
def generic (base : TracedPath) (args : List GenericArg) : TracedPath :=
  ⟨.generic base.path args, base.crate, by rw [Path.crate, base.crate_eq]⟩

end TracedPath

namespace TracedType

/-- A type has only one trace. -/
theorem eq_of_type_eq {a b : TracedType} (h : a.type = b.type) : a = b := by
  obtain ⟨s, c, hc⟩ := a
  obtain ⟨t, d, hd⟩ := b
  subst hc hd
  cases h
  rfl

/-- A named type. -/
def ofPath (path : TracedPath) : TracedType :=
  ⟨.path path.path, some path.crate, by rw [Ty.crate?, path.crate_eq]⟩

/-- A reference. -/
def reference (mutable : Bool) (lifetime : Option Nat) (target : TracedType) : TracedType :=
  ⟨.reference mutable lifetime target.type, target.crate?, by rw [Ty.crate?, target.crate?_eq]⟩

/-- A raw pointer. -/
def pointer (mutable : Bool) (target : TracedType) : TracedType :=
  ⟨.pointer mutable target.type, target.crate?, by rw [Ty.crate?, target.crate?_eq]⟩

/-- A type of a single letter. -/
def basic (type : BasicType) : TracedType := ⟨.basic type, none, by rw [Ty.crate?]; all_goals nofun⟩

/-- An array. -/
def array (element : TracedType) (length : Const) : TracedType :=
  ⟨.array element.type length, none, by rw [Ty.crate?]; all_goals nofun⟩

/-- A slice. -/
def slice (element : TracedType) : TracedType :=
  ⟨.slice element.type, none, by rw [Ty.crate?]; all_goals nofun⟩

/-- A tuple. -/
def tuple (items : List TracedType) : TracedType :=
  ⟨.tuple (items.map TracedType.type), none, by rw [Ty.crate?]; all_goals nofun⟩

/-- A function pointer. -/
def function (binder : Option Nat) (isUnsafe : Bool) (abi : Option Text)
    (params : List TracedType) (result : TracedType) : TracedType :=
  ⟨.function binder isUnsafe abi (params.map TracedType.type) result.type, none, by
    rw [Ty.crate?]; all_goals nofun⟩

end TracedType

/-- One trait of a trait object, traced, with what its associated names are bound to. -/
structure TracedBound where
  trait : TracedPath
  bindings : List Binding

/-- The bound without its trace. -/
def TracedBound.bound (b : TracedBound) : Bound := .mk b.trait.path b.bindings

/-- A trait object. -/
def TracedType.object (binder : Option Nat) (bounds : List TracedBound) (lifetime : Nat) :
    TracedType :=
  ⟨.object binder (bounds.map TracedBound.bound) lifetime,
    bounds.head?.map fun b => b.trait.crate, by
    cases bounds with
    | nil => simp [Ty.crate?]
    | cons b bs => simp [Ty.crate?, TracedBound.bound, b.trait.crate_eq]⟩

end CrateLedger.Mangled.V0
