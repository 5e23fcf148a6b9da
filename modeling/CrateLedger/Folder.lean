import CrateLedger.Folder.Path
import CrateLedger.Image.Bytes
import CrateLedger.Text.Quoted

/-!
# Folders

The files that a program can read, as a value: what files there are under the current folder, with
their bytes, and what other folders. Looking a path up walks through its components, and a file on
the way is not a folder. A path that leaves the current folder comes to folders about which nothing
else is known: they hold nothing that can be named.
-/

namespace CrateLedger

/-- The files and folders under the current folder, by relative path. The folders that files are in
need not be listed. -/
structure Folder where
  files : List (Text × Bytes)
  /-- Further folders. -/
  folders : List Text
  deriving DecidableEq, Repr

/-- Why a file cannot be read. -/
inductive AccessError where
  /-- There is nothing at the path. -/
  | missing
  /-- A component of the path other than the last is a file. -/
  | notFolder
  /-- There is a folder at the path. -/
  | isFolder
  /-- The path or a component of it is longer than names can be. -/
  | nameTooLong
  /-- The path holds a NUL, so that it cannot even be looked up. -/
  | notPath
  deriving DecidableEq, Repr

namespace AccessError

/-- The wording of an error for a path. -/
def message (e : AccessError) (path : Text) : Text :=
  let cause : Text :=
    match e with
    | missing => "[Errno 2] No such file or directory"
    | notFolder => "[Errno 20] Not a directory"
    | isFolder => "[Errno 21] Is a directory"
    | nameTooLong => "[Errno 36] File name too long"
    | notPath => "embedded null byte"
  cause ++ ": " ++ Text.quoted path

/-- Whether an error means that there is nothing at a path. -/
def meansNothing : AccessError → Bool
  | missing | notFolder | notPath => true
  | isFolder | nameTooLong => false

end AccessError

namespace Folder

/-- A folder without files. -/
def empty : Folder := ⟨[], []⟩

/-- The bytes of the file with the given components. -/
def fileAt? (f : Folder) (components : List Text) : Option Bytes :=
  (f.files.find? fun file => Path.components file.1 = components).map Prod.snd

/-- Whether there is a folder with the given components. -/
def hasFolder (f : Folder) (components : List Text) : Bool :=
  components.isEmpty
    || f.folders.any (fun d => components.isPrefixOf (Path.components d))
    || f.files.any fun file => components.isPrefixOf (Path.components file.1).dropLast

/-! ## Walking -/

/-- Where a walk can be. -/
inductive Place where
  /-- Under the current folder, at the given components, where there may be something. -/
  | within (components : List Text)
  /-- In a folder that is not under the current one. -/
  | outside
  deriving DecidableEq, Repr

/-- Where a walk along a path starts. -/
def start (path : Text) : Place := if Path.root path = [] then .within [] else .outside

/-- How many bytes a component of a path can have. -/
def maxNameSize : Nat := 255

/-- How many bytes a path can have. -/
def maxPathSize : Nat := 4095

/-- How many bytes a text takes in the name of a file. -/
def byteSize (t : Text) : Nat := (Utf8.encode t).length

/-- Goes from a place to one of its components. -/
def enter (f : Folder) (place : Place) (component : Text) : Except AccessError Place :=
  match place with
  | .outside =>
    if component = ".." then .ok .outside
    else .error (if maxNameSize < byteSize component then .nameTooLong else .missing)
  | .within components =>
    if (f.fileAt? components).isSome then .error .notFolder
    else if !f.hasFolder components then .error .missing
    else if maxNameSize < byteSize component then .error .nameTooLong
    else if component ≠ ".." then .ok (.within (components ++ [component]))
    else .ok (if components.isEmpty then .outside else .within components.dropLast)

/-- The file at a place. -/
def fileIn (f : Folder) (place : Place) : Except AccessError Bytes :=
  match place with
  | .outside => .error .isFolder
  | .within components =>
    match f.fileAt? components with
    | some data => .ok data
    | none => .error (if f.hasFolder components then .isFolder else .missing)

/-- Whether only a folder can be at a path, because it ends in a slash or a dot. -/
def leadsToFolder (path : Text) : Bool :=
  let last := (Text.splitAll '/' path).getLast?.getD []
  last = [] || last = "."

/-- Reads the file at a path. -/
def read (f : Folder) (path : Text) : Except AccessError Bytes := do
  if path.contains '\x00' then throw .notPath
  if path.isEmpty then throw .missing
  if maxPathSize < byteSize path then throw .nameTooLong
  let data ← f.fileIn (← (Path.components path).foldlM f.enter (start path))
  if leadsToFolder path then throw .notFolder else return data

end Folder

/-! ## Text files -/

/-- Why a text file cannot be read. -/
inductive TextFileError where
  /-- The file cannot be read at all. -/
  | access (error : AccessError)
  /-- Its bytes are not UTF-8. -/
  | notUnicode
  deriving DecidableEq, Repr

/-- Turns carriage returns, also those before a line feed, into line feeds. -/
def Text.unifyLineEnds : Text → Text
  | [] => []
  | [c] => [if c = '\r' then '\n' else c]
  | c :: d :: rest =>
    if c = '\r' then
      if d = '\n' then '\n' :: unifyLineEnds rest else '\n' :: unifyLineEnds (d :: rest)
    else c :: unifyLineEnds (d :: rest)

/-- Reads a UTF-8 file, with line ends unified. -/
def Folder.readText (f : Folder) (path : Text) : Except TextFileError Text :=
  match f.read path with
  | .error e => .error (.access e)
  | .ok data =>
    match Utf8.decode? data.toList with
    | some t => .ok t.unifyLineEnds
    | none => .error .notUnicode

end CrateLedger
