import CrateLedger.Folder
import CrateLedger.Json.Reader
import CrateLedger.Yaml.Reader

/-!
# Documents in files

A file whose suffix is `.yaml` or `.yml`, in any case, holds YAML, and every other file JSON.
-/

namespace CrateLedger

/-- The formats of documents in files. -/
inductive DocumentFormat where
  | json
  | yaml
  deriving DecidableEq, Repr

/-- The format of a file by its path. -/
def DocumentFormat.ofPath (path : Text) : DocumentFormat :=
  let suffix := Path.lowerSuffix path
  if suffix = ".yaml" ∨ suffix = ".yml" then .yaml else .json

/-- Why a text does not follow its format. -/
inductive DocumentError where
  /-- It is no JSON. -/
  | json
  /-- It is no YAML. -/
  | yaml (error : Yaml.Error)
  deriving DecidableEq, Repr

/-- Reads a text in a format. -/
def DocumentFormat.read : DocumentFormat → Text → Except DocumentError Value
  | json, t =>
    match Json.read? t with
    | some v => .ok v
    | none => .error .json
  | yaml, t =>
    match Yaml.read t with
    | .ok v => .ok v
    | .error e => .error (.yaml e)

end CrateLedger
