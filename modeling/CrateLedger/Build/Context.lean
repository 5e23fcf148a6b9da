import CrateLedger.Build.Document
import CrateLedger.Build.Ownership

/-!
# Build contexts

What a build says about itself: the target, the crates of the standard library, the crates that
the project depends on, and which symbols each crate contributes. A crate that the project depends
on is none of the standard library, whatever the build lists there.

Names are compared by value. A build may list names that are no texts; they are kept, and only
validation refuses them among symbols. The crates that contribute symbols have to have an order.

A context is made from a snapshot, a document that people write by hand. Where a snapshot has a
collection it may have anything that has elements, and anything that does not count as true stands
for an empty one.
-/

namespace CrateLedger

/-- An output of the build. -/
structure Artifact where
  name : Value
  /-- What it is. -/
  kind : Value
  /-- Where it is, in normal form. -/
  path : Text

/-- What a build says about itself. -/
structure BuildContext where
  /-- The target; a text that is not empty if the context is valid. -/
  targetTriple : Value
  /-- The crates of the standard library that the project does not depend on, each once. -/
  stdCrates : List Scalar
  /-- The crates that the project depends on, as they are declared. -/
  depCrates : List Scalar
  /-- The crates that contribute symbols, and the symbols of each, each once. -/
  symbols : List (Scalar × List Scalar)
  /-- What the build puts out. -/
  artifacts : List Artifact
  /-- The symbols by number, for looking up the crates of a symbol. -/
  ownership : Ownership := .ofSymbols symbols
  /-- They are those that the crates contribute. -/
  ownership_eq : ownership = .ofSymbols symbols := by rfl

namespace BuildContext

/-! ## Errors -/

/-- Why a context is refused. -/
inductive Rejection where
  /-- The snapshot is no mapping. -/
  | notMapping
  /-- The snapshot does not mention a target. -/
  | targetAbsent
  /-- The symbols are no mapping. -/
  | symbolsNotMapping
  /-- An artifact without a name or a path. -/
  | artifactMalformed (entry : Value)
  /-- The target is no text or empty. -/
  | targetMissing
  /-- A crate whose name does not count as true contributes symbols. -/
  | unnamedCrate
  /-- A crate contributes a symbol that is no text or empty. -/
  | unnamedSymbol (crate : Scalar)
  /-- Crates that contribute symbols and are not declared, in order. -/
  | undeclared (crates : List Text)
  /-- The file cannot be read. -/
  | unreadable (path : Text) (error : AccessError)
  /-- The file does not follow its format. -/
  | syntaxError (path : Text)

/-- The wording of a rejection; what the format itself has to say about a file is left out. -/
def Rejection.message : Rejection → Text
  | notMapping => "Build context snapshot must be a mapping"
  | targetAbsent => "Build context snapshot is missing 'target_triple'"
  | symbolsNotMapping => "'deps_symbols' must map crate names to symbol lists"
  | artifactMalformed entry => "Malformed artifact entry " ++ entry.quoted
  | targetMissing => "Build context is missing 'target_triple'"
  | unnamedCrate => "Build context has symbols for an unnamed crate"
  | unnamedSymbol crate => "Build context lists an empty symbol name for '" ++ crate.shown ++ "'"
  | undeclared crates => "Symbols attributed to undeclared crates: " ++ Text.join ", " crates
  | unreadable path error =>
    "Unable to read build context '" ++ path ++ "': " ++ error.message path
  | syntaxError path => "Invalid build context in '" ++ path ++ "'"

/-- Why a context cannot be had. -/
inductive Error where
  /-- It is refused. -/
  | rejected (reason : Rejection)
  /-- Something has a kind that cannot be gone through, named or sorted. -/
  | wrongKind
  /-- The file is not UTF-8. -/
  | notUnicode

/-! ## Construction -/

/-- The scalars of some documents; others cannot be names. -/
def names (vs : List Value) : Except Error (List Scalar) :=
  match vs.mapM Value.scalar? with
  | some ss => .ok ss
  | none => .error .wrongKind

/-- Sorts scalars that have an order. -/
def sorted (ss : List Scalar) : Except Error (List Scalar) :=
  match Scalar.sort? ss with
  | some ss => .ok ss
  | none => .error .wrongKind

/-- Makes a context. Crates that are both dependencies and listed under the standard library are
taken from there; they have to be texts. -/
def make (targetTriple : Value) (stdCrates depCrates : List Value)
    (symbols : List (Scalar × List Value)) (artifacts : List Artifact) :
    Except Error BuildContext := do
  let std ← names stdCrates
  let deps ← names depCrates
  if (std.filter fun c => c.isIn deps).any fun c => c.text?.isNone then throw .wrongKind
  let symbols ← symbols.mapM fun (crate, listed) => do
    return (crate, Scalar.distinct (← names listed))
  let _ ← sorted (symbols.map Prod.fst)
  return { targetTriple
           stdCrates := (Scalar.distinct std).filter fun c => !c.isIn deps
           depCrates := deps
           symbols
           artifacts }

/-! ## Questions -/

/-- The crates that the build records as contributing a symbol, sorted. -/
def owners (c : BuildContext) (symbol : Text) : List Scalar := c.ownership.owners (.text symbol)

/-- Whether a crate is part of the standard library. -/
def isStd (c : BuildContext) (crate : Scalar) : Bool := crate.isIn c.stdCrates

/-- The number of symbols that crates contribute. -/
def symbolCount (c : BuildContext) : Nat := c.ownership.numbers.length

/-! ## Validation -/

/-- Whether a scalar is a text that is not empty. -/
def isName : Scalar → Bool
  | .text t => !t.isEmpty
  | _ => false

/-- Looks at the crates that contribute symbols, and refuses the first without a name or with a
symbol without one. -/
def checkSymbols : List (Scalar × List Scalar) → Except Rejection Unit
  | [] => .ok ()
  | (crate, symbols) :: rest =>
    if !crate.isTrue then .error .unnamedCrate
    else if !symbols.all isName then .error (.unnamedSymbol crate)
    else checkSymbols rest

/-- The crates that contribute symbols without being declared, sorted. -/
def undeclaredCrates (c : BuildContext) : List Scalar :=
  ((c.symbols.map Prod.fst).filter fun crate => !crate.isIn (c.depCrates ++ c.stdCrates)).mergeSort
    Scalar.le

/-- Refuses undeclared crates, which have to be texts to be named. -/
def refuseUndeclared (crates : List Scalar) : Except Error Unit :=
  match crates.mapM Scalar.text? with
  | some [] => .ok ()
  | some names => .error (.rejected (.undeclared names))
  | none => .error .wrongKind

/-- Marks a rejection as an error. -/
def rejecting {α : Type} : Except Rejection α → Except Error α
  | .ok a => .ok a
  | .error r => .error (.rejected r)

/-- Checks that a context can be used: it has a target, all names are names, and if the project
declares dependencies at all, every crate that contributes symbols is declared. -/
def validate (c : BuildContext) : Except Error Unit := do
  match c.targetTriple.text? with
  | none | some [] => throw (.rejected .targetMissing)
  | some _ => rejecting (checkSymbols c.symbols)
  if c.depCrates ≠ [] then refuseUndeclared c.undeclaredCrates

/-! ## Snapshots -/

/-- The artifact of an entry, which has to have a name and a path that is a text. -/
def artifactOf (entry : Value) : Except Rejection Artifact :=
  match entry.fields? with
  | none => .error (.artifactMalformed entry)
  | some fields =>
    match fields.get? "name", (fields.get? "path").bind Value.text? with
    | some name, some path =>
      .ok ⟨name, (fields.get? "kind").getD (.text "bin"), Path.normalise path⟩
    | _, _ => .error (.artifactMalformed entry)

/-- The elements of a field that may be missing. -/
def elementsOf (v : Option Value) : Except Error (List Value) :=
  match v with
  | none => .ok []
  | some v =>
    match v.elementsOrNone? with
    | some vs => .ok vs
    | none => .error .wrongKind

/-- The symbols of a snapshot, by crate. -/
def symbolFields (v : Option Value) : Except Rejection Fields :=
  match v with
  | none => .ok []
  | some v =>
    if !v.isTrue then .ok []
    else
      match v.fields? with
      | some fields => .ok fields
      | none => .error .symbolsNotMapping

/-- Makes a context from the fields of a snapshot and validates it. -/
def ofFields (fields : Fields) : Except Error BuildContext := do
  match fields.get? "target_triple" with
  | none => throw (.rejected .targetAbsent)
  | some targetTriple =>
    let symbolFields ← rejecting (symbolFields (fields.get? "deps_symbols"))
    let entries ← elementsOf (fields.get? "artifacts")
    let artifacts ← rejecting (entries.mapM artifactOf)
    let stdCrates ← elementsOf (fields.get? "std_crates")
    let depCrates ← elementsOf (fields.get? "dep_crates")
    let symbols ← symbolFields.mapM fun (crate, listed) => do
      return (crate, ← elementsOf (some listed))
    let context ← make targetTriple stdCrates depCrates symbols artifacts
    context.validate
    return context

/-- Makes a context from a snapshot. -/
def ofValue (v : Value) : Except Error BuildContext :=
  match v.fields? with
  | some fields => ofFields fields
  | none => .error (.rejected .notMapping)

/-- Loads a context from a file. -/
def load (folder : Folder) (path : Text) : Except Error BuildContext :=
  let path := Path.normalise path
  match folder.readText path with
  | .error (.access e) => .error (.rejected (.unreadable path e))
  | .error .notUnicode => .error .notUnicode
  | .ok text =>
    match (DocumentFormat.ofPath path).read text with
    | .ok v => ofValue v
    | .error _ => .error (.rejected (.syntaxError path))

/-- The snapshot of an artifact. -/
def artifactValue (a : Artifact) : Value :=
  .record [("name", a.name), ("kind", a.kind), ("path", .text a.path)]

/-- The snapshot of a context, with everything sorted whose order does not matter. -/
def toValue (c : BuildContext) : Except Error Value := do
  let std ← sorted c.stdCrates
  let symbols ← (c.symbols.mergeSort fun a b => a.1.le b.1).mapM
    fun (crate, listed) => do return (crate, Value.list ((← sorted listed).map Value.scalar))
  return .record [("target_triple", c.targetTriple), ("std_crates", .list (std.map Value.scalar)),
    ("dep_crates", .list (c.depCrates.map Value.scalar)), ("deps_symbols", .object symbols),
    ("artifacts", .list (c.artifacts.map artifactValue))]

/-! ## Equality -/

/-- Whether two collections have the same elements. -/
def sameElements (as bs : List Scalar) : Bool :=
  as.all (fun a => a.isIn bs) && bs.all fun b => b.isIn as

/-- Whether two artifacts are the same. -/
def sameArtifact (a b : Artifact) : Bool :=
  a.name.same b.name && a.kind.same b.kind && a.path = b.path

/-- Whether every crate of the first contributes the same symbols in the second. -/
def sameSymbols (as bs : List (Scalar × List Scalar)) : Bool :=
  as.all fun (crate, listed) =>
    match bs.find? fun other => other.1.same crate with
    | some (_, others) => sameElements listed others
    | none => false

/-- Whether two contexts say the same. The order of dependencies and artifacts matters, that of
the standard library and of symbols does not. -/
def same (a b : BuildContext) : Bool :=
  a.targetTriple.same b.targetTriple && sameElements a.stdCrates b.stdCrates
    && Value.sameItems (a.depCrates.map Value.scalar) (b.depCrates.map Value.scalar)
    && sameSymbols a.symbols b.symbols && sameSymbols b.symbols a.symbols
    && (a.artifacts.length = b.artifacts.length
      && (a.artifacts.zip b.artifacts).all fun (x, y) => sameArtifact x y)

end BuildContext

end CrateLedger
