import CrateLedger.Json.Reader
import CrateLedger.Json.Writer
import CrateLedger.Report
import CrateLedger.Text.Integer

/-!
# Saved reports

A report as a document and back. Writing puts the totals of crates in for the reader's benefit;
reading does not look at them. Reading also takes numbers that are written as text, truth values
and fractions, any value where only its truth matters, and any document for a name. Fields are read
in a fixed order and the first that is missing or of a wrong kind is the error; whether the crates
can be grouped and ranked is looked at last.
-/

namespace CrateLedger

namespace Report

/-! ## Writing -/

/-- A symbol as a document. -/
def symbolValue (s : Symbol) : Value :=
  .record [("name", s.name), ("demangled", s.shown), ("size", .integer s.size),
    ("address", .integer s.address), ("crate", .scalar s.crate), ("is_exact", .bool s.isExact)]

/-- A crate as a document. -/
def crateValue (c : CrateSize) : Value :=
  .record [("name", .scalar c.name), ("size", .integer c.size),
    ("symbol_count", .integer c.symbolCount)]

/-- A report as a document. -/
def toValue (r : Report) : Value :=
  .record [("file_size", .integer r.fileSize), ("section_size", .integer r.sectionSize),
    ("section_name", r.sectionName), ("format", r.formatName), ("split_std", r.splitStd),
    ("symbols", .list (r.symbols.map symbolValue)), ("crates", .list (r.crates.map crateValue))]

/-- A report as JSON. -/
def toJson (r : Report) (indent : Option Int) : Text := Json.write indent r.toValue

/-! ## Reading -/

/-- Why a document is no report. -/
inductive RecordError where
  /-- A field is missing. -/
  | missing (field : Text)
  /-- A value is of a wrong kind. -/
  | wrongKind
  /-- A text that should be a number is none, or a number is not a number. -/
  | notNumber
  /-- A number that is infinite. -/
  | infinite
  /-- The crates cannot be grouped or ranked. -/
  | crates (error : NameError)
  /-- A text that should be JSON is not. -/
  | syntaxError
  deriving DecidableEq, Repr

/-- The value of a field that has to be there. -/
def required (fields : Fields) (key : Text) : Except RecordError Value :=
  match fields.get? key with
  | some v => .ok v
  | none => .error (.missing key)

/-- The integer that a value stands for. -/
def integerOf (v : Value) : Except RecordError Int :=
  match v with
  | .scalar (.integer n) => .ok n
  | .scalar (.bool b) => .ok (if b then 1 else 0)
  | .scalar (.float x) =>
    if x.isNaN then .error .notNumber else if x.isFinite then .ok x.truncate else .error .infinite
  | .scalar (.text t) =>
    match Text.integer? t with
    | some n => .ok n
    | none => .error .notNumber
  | _ => .error .wrongKind

/-- The fields of a value that is an object. -/
def objectOf (v : Value) : Except RecordError Fields :=
  match v.fields? with
  | some fields => .ok fields
  | none => .error .wrongKind

/-- The symbol of a document, for when its crate is known to be a scalar, and its crate. -/
def symbolOf (v : Value) : Except RecordError ((Scalar → Symbol) × Value) := do
  let fields ← objectOf v
  let name ← required fields "name"
  let shown ← required fields "demangled"
  let size ← integerOf (← required fields "size")
  let address ← integerOf (← required fields "address")
  let crate ← required fields "crate"
  let isExact ← required fields "is_exact"
  return (fun label => ⟨name, shown, size, address, label, isExact.isTrue⟩, crate)

/-- Puts the crate into a symbol, if it is a scalar. -/
def withCrate (symbol : (Scalar → Symbol) × Value) : Except RecordError Symbol :=
  match symbol.2.scalar? with
  | some crate => .ok (symbol.1 crate)
  | none => .error (.crates .collection)

/-- The report of a document. -/
def ofValue (v : Value) : Except RecordError Report := do
  let fields ← objectOf v
  let some items := (← required fields "symbols").elements? | throw .wrongKind
  let symbols ← items.mapM symbolOf
  let fileSize ← integerOf (← required fields "file_size")
  let sectionSize ← integerOf (← required fields "section_size")
  let sectionName ← required fields "section_name"
  let formatName := (fields.get? "format").getD (.text [])
  let splitStd := .bool ((fields.get? "split_std").any Value.isTrue)
  let symbols ← symbols.mapM withCrate
  let report : Report := { fileSize, sectionSize, sectionName, formatName, splitStd, symbols }
  match report.ranked with
  | .ok r => return r
  | .error e => throw (.crates e)

/-- The report of a JSON text. -/
def ofJson (t : Text) : Except RecordError Report :=
  match Json.read? t with
  | some v => ofValue v
  | none => .error .syntaxError

end Report

end CrateLedger
