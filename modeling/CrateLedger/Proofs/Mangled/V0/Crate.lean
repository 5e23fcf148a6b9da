import CrateLedger.Mangled.V0.Crate

/-!
# The crates of v0 trees

The crate of a path by rules. An `impl` belongs to the crate of the type that it is for, unless that
type leads to no path or to one of a crate without a name; then it belongs to the crate of its
module, or of the trait if it is a type seen as an instance of that.

Main statement: a path is of exactly one crate by the rules, and that is the one that is found.
-/

namespace CrateLedger.Mangled.V0

/-! ## Rules -/

/-- The path that a type leads to, through references and pointers, or as the first trait of a trait
object. -/
inductive Ty.LeadsTo : Ty → Path → Prop where
  | path (path : Path) : LeadsTo (.path path) path
  | reference (mutable : Bool) (lifetime : Option Nat) {target : Ty} {path : Path}
      (leads : LeadsTo target path) : LeadsTo (.reference mutable lifetime target) path
  | pointer (mutable : Bool) {target : Ty} {path : Path} (leads : LeadsTo target path) :
      LeadsTo (.pointer mutable target) path
  | object (binder : Option Nat) (trait : Path) (bindings : List Binding) (bounds : List Bound)
      (lifetime : Nat) : LeadsTo (.object binder (.mk trait bindings :: bounds) lifetime) trait

/-- A path that is an `impl` for a type, and the path that tells the crate if the type does not. -/
inductive Path.IsImpl : Path → Ty → Path → Prop where
  | inherentImpl (disambiguator : Nat) (location : Path) (self : Ty) :
      IsImpl (.inherentImpl disambiguator location self) self location
  | traitImpl (disambiguator : Nat) (location : Path) (self : Ty) (trait : Path) :
      IsImpl (.traitImpl disambiguator location self trait) self location
  | traitView (self : Ty) (trait : Path) : IsImpl (.traitView self trait) self trait

/-- The crate that a path belongs to. -/
inductive Path.BelongsTo : Path → Text → Prop where
  | crateRoot (disambiguator : Nat) (name : Text) : BelongsTo (.crateRoot disambiguator name) name
  | nested (space : Char) {parent : Path} (disambiguator : Nat) (name : Text) {crate : Text}
      (parentBelongs : BelongsTo parent crate) :
      BelongsTo (.nested space parent disambiguator name) crate
  | generic {base : Path} (args : List GenericArg) {crate : Text}
      (baseBelongs : BelongsTo base crate) : BelongsTo (.generic base args) crate
  /-- The crate of the type, if it has a name. -/
  | ofSelf {path other target : Path} {self : Ty} {crate : Text} (isImpl : path.IsImpl self other)
      (leads : self.LeadsTo target) (selfBelongs : BelongsTo target crate) (isNamed : crate ≠ []) :
      BelongsTo path crate
  /-- The crate of the module or the trait, if the type is of none. -/
  | ofOther {path other : Path} {self : Ty} {crate : Text} (isImpl : path.IsImpl self other)
      (unnamed : ∀ target, self.LeadsTo target → BelongsTo target [])
      (otherBelongs : BelongsTo other crate) : BelongsTo path crate

/-! ## The crate that is found -/

theorem crate?_eq_some_iff : ∀ {t : Ty} {crate : Text},
    t.crate? = some crate ↔ ∃ path, t.LeadsTo path ∧ path.crate = crate
  | .path path, crate => by
    rw [Ty.crate?]
    constructor
    · rintro ⟨⟩
      exact ⟨path, .path path, rfl⟩
    · rintro ⟨_, ⟨⟩, rfl⟩
      rfl
  | .reference mutable lifetime target, crate => by
    rw [Ty.crate?, crate?_eq_some_iff]
    constructor
    · rintro ⟨path, h, rfl⟩
      exact ⟨path, .reference mutable lifetime h, rfl⟩
    · rintro ⟨path, h, rfl⟩
      cases h with
      | reference _ _ h => exact ⟨path, h, rfl⟩
  | .pointer mutable target, crate => by
    rw [Ty.crate?, crate?_eq_some_iff]
    constructor
    · rintro ⟨path, h, rfl⟩
      exact ⟨path, .pointer mutable h, rfl⟩
    · rintro ⟨path, h, rfl⟩
      cases h with
      | pointer _ h => exact ⟨path, h, rfl⟩
  | .object binder (.mk trait bindings :: bounds) lifetime, crate => by
    rw [Ty.crate?]
    constructor
    · rintro ⟨⟩
      exact ⟨trait, .object binder trait bindings bounds lifetime, rfl⟩
    · rintro ⟨_, ⟨⟩, rfl⟩
      rfl
  | .object _ [] _, _ | .basic _, _ | .array _ _, _ | .slice _, _ | .tuple _, _
  | .function _ _ _ _ _, _ => by
    simp only [Ty.crate?, reduceCtorEq, false_iff]
    rintro ⟨_, ⟨⟩, -⟩

theorem Path.IsImpl.crate_eq {path other : Path} {self : Ty} (h : path.IsImpl self other) :
    path.crate = nonemptyOr self.crate? other.crate := by
  cases h <;> rw [Path.crate]

/-- By the rules a path is of no other crate than the one that is found. -/
theorem Path.BelongsTo.eq_crate {path : Path} {crate : Text} (h : path.BelongsTo crate) :
    crate = path.crate := by
  induction h with
  | crateRoot => rw [Path.crate]
  | nested _ _ _ _ ih => rw [Path.crate, ih]
  | generic _ _ ih => rw [Path.crate, ih]
  | @ofSelf path other target self crate himpl hleads _ hnamed ih =>
    obtain ⟨c, cs, rfl⟩ := List.exists_cons_of_ne_nil hnamed
    rw [himpl.crate_eq, crate?_eq_some_iff.2 ⟨target, hleads, ih.symm⟩]
    rfl
  | @ofOther path other self crate himpl hleads _ hunnamed ih =>
    rw [himpl.crate_eq, ← ih]
    cases hself : self.crate? with
    | none => rfl
    | some found =>
      obtain ⟨target, hleads, rfl⟩ := crate?_eq_some_iff.1 hself
      rw [← hunnamed target hleads]
      rfl

/-- An `impl` is of the crate that is found if the paths that tell it are. -/
theorem Path.IsImpl.belongsTo {path other : Path} {self : Ty} (h : path.IsImpl self other)
    (hself : ∀ target, self.LeadsTo target → target.BelongsTo target.crate)
    (hother : other.BelongsTo other.crate) : path.BelongsTo path.crate := by
  rw [h.crate_eq]
  match hfound : self.crate? with
  | none =>
    refine .ofOther h (fun target hleads => ?_) hother
    have hsome := crate?_eq_some_iff.2 ⟨target, hleads, rfl⟩
    rw [hfound] at hsome
    cases hsome
  | some [] =>
    refine .ofOther h (fun target hleads => ?_) hother
    have hsome := crate?_eq_some_iff.2 ⟨target, hleads, rfl⟩
    rw [hfound] at hsome
    rw [Option.some.inj hsome]
    exact hself target hleads
  | some (c :: cs) =>
    obtain ⟨target, hleads, hcrate⟩ := crate?_eq_some_iff.1 hfound
    have hbelongs := hself target hleads
    rw [hcrate] at hbelongs
    exact .ofSelf h hleads hbelongs (List.cons_ne_nil c cs)

mutual

/-- A path is of the crate that is found. -/
theorem Path.belongsTo_crate : ∀ path : Path, path.BelongsTo path.crate
  | .crateRoot d name => by
    rw [Path.crate]
    exact .crateRoot d name
  | .nested space parent d name => by
    rw [Path.crate]
    exact .nested space d name parent.belongsTo_crate
  | .inherentImpl d location self =>
    (Path.IsImpl.inherentImpl d location self).belongsTo self.belongsTo_crate
      location.belongsTo_crate
  | .traitImpl d location self trait =>
    (Path.IsImpl.traitImpl d location self trait).belongsTo self.belongsTo_crate
      location.belongsTo_crate
  | .traitView self trait =>
    (Path.IsImpl.traitView self trait).belongsTo self.belongsTo_crate trait.belongsTo_crate
  | .generic base args => by
    rw [Path.crate]
    exact .generic args base.belongsTo_crate

theorem Ty.belongsTo_crate : ∀ (t : Ty) (target : Path), t.LeadsTo target →
    target.BelongsTo target.crate
  | .path path, _, .path _ => path.belongsTo_crate
  | .reference _ _ t, target, .reference _ _ h => t.belongsTo_crate target h
  | .pointer _ t, target, .pointer _ h => t.belongsTo_crate target h
  | .object _ (.mk trait _ :: _) _, _, .object _ _ _ _ _ => trait.belongsTo_crate

end

/-- The crate of a path is the one that the rules give. -/
theorem Path.belongsTo_iff {path : Path} {crate : Text} :
    path.BelongsTo crate ↔ path.crate = crate := by
  constructor
  · intro h
    exact h.eq_crate.symm
  · rintro rfl
    exact path.belongsTo_crate

end CrateLedger.Mangled.V0
