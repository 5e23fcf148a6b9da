import CrateLedger.Json.Writer
import CrateLedger.Report

/-!
# Comparing reports

What changed from one report to another, by symbol name and by crate: every name that occurs in
either, with its size on each side that has it. Symbols that share a name are added up. Reports can
be compared only if both or neither keep the crates of the standard library apart, because
otherwise their crates do not mean the same; and only if their names are scalars that have an order.
-/

namespace CrateLedger

/-! ## Changes -/

/-- How a size compares to the one before. -/
inductive Status where
  | added
  | removed
  | grown
  | shrunk
  | unchanged
  deriving DecidableEq, Repr

/-- The name of a status. -/
def Status.name : Status → Text
  | added => "added"
  | removed => "removed"
  | grown => "grown"
  | shrunk => "shrunk"
  | unchanged => "unchanged"

/-- A size before and after, each of which may be missing. -/
structure Change where
  /-- The size before. -/
  before : Option Int
  /-- The size after. -/
  after : Option Int
  deriving DecidableEq, Repr

namespace Change

/-- How the sizes compare. If both are missing the size counts as added. -/
def status : Change → Status
  | ⟨none, _⟩ => .added
  | ⟨some _, none⟩ => .removed
  | ⟨some b, some a⟩ => if b < a then .grown else if a < b then .shrunk else .unchanged

/-- The difference, if both sizes are there. -/
def absolute? : Change → Option Int
  | ⟨some b, some a⟩ => some (a - b)
  | _ => none

/-- The difference, where a missing size counts as zero. -/
def net (c : Change) : Int := c.after.getD 0 - c.before.getD 0

/-- The difference in percent of the size before, if both are there and the first is not zero. The
quotient is rounded before it is multiplied. -/
def percent : Change → Except RatioError (Option Binary64)
  | ⟨some b, some a⟩ =>
    if b = 0 then .ok none
    else
      match Binary64.divide? (a - b) b with
      | some x => .ok (some (x.timesNat 100))
      | none => .error .tooLarge
  | _ => .ok none

end Change

/-- The change of a symbol. -/
structure SymbolChange where
  /-- The name as the containers list it. -/
  name : Scalar
  /-- The name in readable form. -/
  shown : Value
  /-- The sizes. -/
  change : Change
  deriving DecidableEq

/-- The change of a crate. -/
structure CrateChange where
  /-- The label of the crate. -/
  name : Scalar
  /-- The sizes. -/
  change : Change
  deriving DecidableEq

/-- What changed from one report to another. -/
structure Comparison where
  fileSizeBefore : Int
  fileSizeAfter : Int
  /-- The declared size of the section. -/
  sectionSizeBefore : Int
  /-- The declared size of the section. -/
  sectionSizeAfter : Int
  /-- The symbols, by name. -/
  symbols : List SymbolChange
  /-- The crates, by name. -/
  crates : List CrateChange
  deriving DecidableEq

/-! ## Comparing -/

/-- Why two reports cannot be compared. -/
inductive ComparisonError where
  /-- One of them keeps the crates of the standard library apart. -/
  | splitDiffers
  /-- The symbols or crates cannot be put in an order. -/
  | names (error : NameError)
  deriving DecidableEq, Repr

/-- The wording of an error, where the error has one of its own. -/
def ComparisonError.message? : ComparisonError → Option Text
  | splitDiffers =>
    some ("Cannot compare a split-std analysis with a grouped-std analysis; "
      ++ "re-run both with the same split_std setting")
  | names _ => none

/-! ## Symbols by name -/

/-- What the symbols of a name come to. -/
structure NameSize where
  name : Scalar
  /-- What they add up to. -/
  size : Int
  /-- The readable form of the first. -/
  shown : Value
  deriving DecidableEq

namespace NameSize

/-- Enters a symbol of a name into rows. Its size is added, and its readable form counts only if it
is the first of its name. -/
def enter (name : Scalar) (s : Symbol) : List NameSize → List NameSize
  | [] => [⟨name, s.size, s.shown⟩]
  | row :: rest =>
    if row.name.same name then { row with size := row.size + s.size } :: rest
    else row :: enter name s rest

/-- The row of a name. -/
def row? (rows : List NameSize) (name : Scalar) : Option NameSize :=
  rows.find? fun row => row.name.same name

end NameSize

namespace Report

/-- The names of the symbols, which have to be scalars. -/
def symbolNames (r : Report) : Except ComparisonError (List Scalar) :=
  match r.symbols.mapM fun s => s.name.scalar? with
  | some names => .ok names
  | none => .error (.names .collection)

/-- The symbols by name, in one pass. -/
def nameSizes (r : Report) : Except ComparisonError (List NameSize) := do
  let names ← r.symbolNames
  return (names.zip r.symbols).foldl (fun rows (name, s) => NameSize.enter name s rows) []

end Report

namespace Comparison

/-- The size of a crate that is among some. -/
def sizeAmong? (rows : List CrateSize) (crate : Scalar) : Option Int :=
  (rows.find? fun c => c.name.same crate).map CrateSize.size

/-- The readable form of a name: the one after, if it counts as true, and otherwise the one before;
a name that has none stands for itself. -/
def shownOf (before after : Option Value) (name : Scalar) : Value :=
  match after with
  | some shown => if shown.isTrue then shown else before.getD (.scalar name)
  | none => before.getD (.scalar name)

/-- What changed for a name, given what its symbols come to on either side. -/
def changeOf (before after : Option NameSize) (name : Scalar) : SymbolChange where
  name := name
  shown := shownOf (before.map NameSize.shown) (after.map NameSize.shown) name
  change := ⟨before.map NameSize.size, after.map NameSize.size⟩

/-- One of each of some names, in order. -/
def merge (names : List Scalar) : Except ComparisonError (List Scalar) :=
  match Scalar.sort? (Scalar.distinct names) with
  | some names => .ok names
  | none => .error (.names .incomparable)

/-- Compares two reports. -/
def compare (before after : Report) : Except ComparisonError Comparison := do
  if !before.splitStd.same after.splitStd then throw .splitDiffers
  let (namesBefore, namesAfter) := (← before.nameSizes, ← after.nameSizes)
  let names ← merge ((namesBefore ++ namesAfter).map NameSize.name)
  let (cratesBefore, cratesAfter) := (before.crates, after.crates)
  let crates ← merge ((cratesBefore ++ cratesAfter).map CrateSize.name)
  return {
    fileSizeBefore := before.fileSize
    fileSizeAfter := after.fileSize
    sectionSizeBefore := before.sectionSize
    sectionSizeAfter := after.sectionSize
    symbols := names.map fun name =>
      changeOf (NameSize.row? namesBefore name) (NameSize.row? namesAfter name) name
    crates := crates.map fun crate =>
      ⟨crate, sizeAmong? cratesBefore crate, sizeAmong? cratesAfter crate⟩ }

/-! ## Questions -/

/-- The change of the size of the file. -/
def fileChange (c : Comparison) : Change := ⟨c.fileSizeBefore, c.fileSizeAfter⟩

/-- The change of the declared size of the section. -/
def sectionChange (c : Comparison) : Change := ⟨c.sectionSizeBefore, c.sectionSizeAfter⟩

/-- The symbols that did not stay as they were. -/
def changedSymbols (c : Comparison) : List SymbolChange :=
  c.symbols.filter fun s => s.change.status ≠ .unchanged

/-- The crates that did not stay as they were. -/
def changedCrates (c : Comparison) : List CrateChange :=
  c.crates.filter fun s => s.change.status ≠ .unchanged

/-- The symbols that grew the most, those of the same growth by name. A new symbol grew from
zero. -/
def topGrowth (c : Comparison) (count : Int) : List SymbolChange :=
  let grown := c.symbols.filter fun s => 0 < s.change.net
  let ranked := grown.mergeSort fun a b =>
    b.change.net < a.change.net || (a.change.net = b.change.net && a.name.le b.name)
  takeSigned ranked count

/-! ## Summary -/

/-- A difference in bytes and, where there is one, in percent. -/
def delta (net : Int) (percent : Option Binary64) : Text :=
  let share : Text :=
    match percent with
    | some x => ", " ++ x.signedTenths ++ "%"
    | none => []
  Numeral.explicitlySigned net ++ " B" ++ share

/-- A line of a summary: a label, both sizes and the difference. -/
def summaryLine (label : Text) (change : Change) : Except RatioError Text := do
  let size (n : Option Int) : Text := (n.map Numeral.signedDecimal).getD "-"
  return label ++ ": " ++ size change.before ++ " -> " ++ size change.after ++ " ("
    ++ delta change.net (← change.percent) ++ ")"

/-- How many symbols have a status. -/
def count (c : Comparison) (status : Status) : Text :=
  Numeral.decimal (c.symbols.countP fun s => s.change.status = status)

/-- The line of a summary that counts symbols by status. -/
def countLine (c : Comparison) : Text :=
  "Symbols: +" ++ c.count .added ++ " -" ++ c.count .removed ++ " grown " ++ c.count .grown
    ++ " shrunk " ++ c.count .shrunk

/-- The changed crates, the largest difference in either direction first. -/
def rankedCrates (c : Comparison) : List CrateChange :=
  c.changedCrates.mergeSort fun a b =>
    b.change.net.natAbs < a.change.net.natAbs
      || (a.change.net.natAbs = b.change.net.natAbs && a.name.le b.name)

/-- A summary for people. -/
def summary (c : Comparison) : Except RatioError Text := do
  let fileLine ← summaryLine "File size" c.fileChange
  let sectionLine ← summaryLine "Section size" c.sectionChange
  let crates ← c.rankedCrates.mapM fun r => summaryLine ("  " ++ r.name.shown) r.change
  return Text.join "\n" (fileLine :: sectionLine :: c.countLine :: crates)

/-! ## Documents -/

/-- A size as a document. -/
def sizeValue : Option Int → Value
  | some n => .integer n
  | none => .null

/-- The two sizes of a change as fields. -/
def sizeFields (change : Change) : List (Text × Value) :=
  [("before", sizeValue change.before), ("after", sizeValue change.after)]

/-- A comparison as a document. -/
def toValue (c : Comparison) : Value :=
  let symbol (s : SymbolChange) : Value :=
    .record (("name", .scalar s.name) :: ("demangled", s.shown) :: sizeFields s.change)
  let crate (s : CrateChange) : Value := .record (("name", .scalar s.name) :: sizeFields s.change)
  .record [("file_size", .record (sizeFields c.fileChange)),
    ("section_size", .record (sizeFields c.sectionChange)),
    ("symbols", .list (c.symbols.map symbol)), ("crates", .list (c.crates.map crate))]

/-- A comparison as JSON. -/
def toJson (c : Comparison) (indent : Option Int) : Text := Json.write indent c.toValue

end Comparison

end CrateLedger
