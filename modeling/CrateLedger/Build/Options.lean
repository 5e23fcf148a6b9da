import CrateLedger.Build.Document
import CrateLedger.Image.SymbolTable

/-!
# Options of an analysis

Which section is analysed, and whether the crates of the standard library are reported one by one
or as a group. Options come from a mapping with no keys but these two, or from a file; a file that
does not exist stands for the defaults. Only options from a mapping or a file are known to be a name
and a truth value. Made directly they can be any documents: what is no text names no section, and a
choice is read by whether it counts as true.
-/

namespace CrateLedger

/-- The options of an analysis. -/
structure Options where
  /-- The section whose symbols are analysed. -/
  symbolsSection : Value := .text ".text"
  /-- Whether the crates of the standard library are kept apart. -/
  splitStd : Value := .bool false
  deriving DecidableEq

/-- A result together with what is worth telling about how it came about, which an error does not
undo. -/
structure Noted (ε α : Type) where
  /-- What is worth telling. -/
  notices : List Notice
  /-- The result. -/
  outcome : Except ε α

namespace Options

/-- Whether the crates of the standard library are kept apart. -/
def keepsStdApart (o : Options) : Bool := o.splitStd.isTrue

/-- Whether two sets of options are the same, compared by value. -/
def same (a b : Options) : Bool :=
  a.symbolsSection.same b.symbolsSection && a.splitStd.same b.splitStd

/-- Why options cannot be had. -/
inductive Error where
  /-- Keys that are no options, in order. -/
  | unknown (names : List Text)
  /-- A section that is no text or empty. -/
  | sectionInvalid (value : Value)
  /-- A choice that is neither true nor false. -/
  | splitInvalid (value : Value)
  /-- A file that holds no mapping. -/
  | notMapping (path : Text)
  /-- A value or a key of a wrong kind. -/
  | wrongKind
  /-- A list or a text of option names, which gives the options no values. -/
  | valuesMissing
  /-- A file that cannot be read. -/
  | unreadable (error : TextFileError)
  /-- A file that does not follow its format. -/
  | syntaxError (error : DocumentError)

/-- The names of the options, in order. -/
def known : List Text := ["split_std", "symbols_section"]

/-- The wording of an error, where the error has one of its own. -/
def Error.message? : Error → Option Text
  | unknown names =>
    some ("Unknown analysis option(s): " ++ Text.join ", " names ++ ". Supported: "
      ++ Text.join ", " known)
  | sectionInvalid value =>
    some ("'symbols_section' must be a non-empty string, got " ++ value.quoted)
  | splitInvalid value => some ("'split_std' must be true or false, got " ++ value.quoted)
  | notMapping path => some ("Analysis config in '" ++ path ++ "' must be a mapping")
  | _ => none

/-- Refuses keys that are no options, and names them in order. Keys that are no texts cannot be
named. -/
def checkKeys (keys : List Scalar) : Except Error Unit :=
  match (keys.filter fun k => !k.isIn (known.map Scalar.text)).mapM Scalar.text? with
  | some [] => .ok ()
  | some names => .error (.unknown (Text.sortDistinct names))
  | none => .error .wrongKind

/-- The section of a mapping. -/
def sectionOf (fields : Fields) : Except Error Value :=
  match fields.get? "symbols_section" with
  | none => .ok ({} : Options).symbolsSection
  | some v => if v.text?.all List.isEmpty then .error (.sectionInvalid v) else .ok v

/-- The choice of a mapping. -/
def splitOf (fields : Fields) : Except Error Value :=
  match fields.get? "split_std" with
  | none => .ok ({} : Options).splitStd
  | some (.scalar (.bool b)) => .ok (.bool b)
  | some v => .error (.splitInvalid v)

/-- The options of a mapping. -/
def ofFields (fields : Fields) : Except Error Options := do
  checkKeys (fields.map Prod.fst)
  return ⟨← sectionOf fields, ← splitOf fields⟩

/-- The options of a document, which has to be a mapping. The elements of a list or a text are
still looked at as if they were keys. -/
def ofValue (v : Value) : Except Error Options :=
  match v.fields? with
  | some fields => ofFields fields
  | none =>
    match v.elements?.bind fun vs => vs.mapM Value.scalar? with
    | none => .error .wrongKind
    | some keys => do
      checkKeys keys
      throw .valuesMissing

/-- The options of the text of a file. A YAML document that does not count as true is like an
empty mapping. -/
def ofText (path text : Text) : Except Error Options :=
  let format := DocumentFormat.ofPath path
  match format.read text with
  | .error e => .error (.syntaxError e)
  | .ok (.object fields) => ofFields fields
  | .ok v => if format = .yaml ∧ !v.isTrue then ofFields [] else .error (.notMapping path)

/-- Loads options from a file. -/
def load (folder : Folder) (path : Text) : Noted Error Options :=
  let path := Path.normalise path
  match folder.readText path with
  | .error (.access e) =>
    if e.meansNothing then ⟨[.optionsMissing path], .ok {}⟩
    else ⟨[], .error (.unreadable (.access e))⟩
  | .error e => ⟨[], .error (.unreadable e)⟩
  | .ok text => ⟨[], ofText path text⟩

end Options

end CrateLedger
