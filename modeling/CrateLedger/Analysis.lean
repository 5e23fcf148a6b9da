import CrateLedger.Attribution.Crate
import CrateLedger.Attribution.Distinct
import CrateLedger.Image.Container
import CrateLedger.Report

/-!
# Analyses

From an image to a report: read the symbols of a section, keep one of each address, attribute each
to a crate, and put the sizes together. The build context is validated first when a symbol table is
analysed, but only after the image has been read when an image is.
-/

namespace CrateLedger.Analysis

/-! ## Loading images -/

/-- Why the symbols of a file cannot be read. -/
inductive LoadError where
  /-- The file cannot be opened. -/
  | unreadable (path : Text) (error : AccessError)
  /-- The image cannot be read. -/
  | read (error : Image.ReadError)
  deriving DecidableEq

/-- The wording of an error. -/
def LoadError.message : LoadError → Text
  | unreadable path error => "Unable to open binary '" ++ path ++ "': " ++ error.message path
  | read error => error.message

/-- The bytes of a file. -/
def openFile (folder : Folder) (path : Text) : Except LoadError Bytes :=
  match folder.read path with
  | .ok data => .ok data
  | .error e => .error (.unreadable path e)

/-- Marks an error as one of reading. -/
def reading {α : Type} : Except Image.ReadError α → Except LoadError α
  | .ok a => .ok a
  | .error e => .error (.read e)

/-- Loads the symbols of a section of a file, from its PDB if one is given. -/
def load (folder : Folder) (path : Text) (wanted : Value) (debugSymbols : Option Text) :
    Except LoadError Image.Reading := do
  let data ← openFile folder path
  match debugSymbols with
  | none => reading (Image.read (.file data) wanted none)
  | some pdb => reading (Image.readPdb (← openFile folder pdb) data wanted)

/-! ## Analysing -/

/-- Where an image comes from. -/
inductive Origin where
  /-- Bytes in memory. -/
  | bytes (data : Bytes)
  /-- A file. -/
  | file (path : Text)
  deriving DecidableEq, Repr

/-- Why an image cannot be analysed. -/
inductive Error where
  /-- An image in memory with a PDB in a file. -/
  | debugSymbolsInFile
  /-- An image in a file with a PDB in memory. -/
  | debugSymbolsInMemory
  /-- The image cannot be loaded. -/
  | load (error : LoadError)
  /-- The build context is not valid. -/
  | context (error : BuildContext.Error)
  /-- The name of a symbol cannot be decoded. -/
  | name (error : Mangled.NumberError)
  /-- The crates have no order. -/
  | crates (error : NameError)

/-- The wording of the errors about where a PDB is. -/
def Error.originMessage? : Error → Option Text
  | debugSymbolsInFile => some "pdb must be bytes when binary is given as bytes"
  | debugSymbolsInMemory => some "pdb must be a path when binary is given as a path"
  | _ => none

/-- The readable form of a name; the empty name stands for itself. -/
def shownName (name : Text) : Except Mangled.NumberError Text :=
  if name.isEmpty then .ok [] else do return (← Mangled.Name.decode name).shown

/-- Gives entries their crates and readable names. -/
def attributedSymbols (context : BuildContext) (options : Options) (entries : List RawSymbol) :
    Except Mangled.NumberError (List Symbol) := do
  let attributions ← Attribution.ofNames context options (entries.map RawSymbol.name)
  (entries.zip attributions).mapM fun (e, a) => do
    return ⟨.text e.name, .text (← shownName e.name), e.size, e.address, a.crate, a.isExact⟩

/-- Analyses a symbol table. -/
def ofTable (table : SymbolTable) (context : BuildContext) (options : Options) :
    Except Error Report :=
  match context.validate with
  | .error e => .error (.context e)
  | .ok () =>
    match attributedSymbols context options (Attribution.sectionSymbols table) with
    | .error e => .error (.name e)
    | .ok symbols =>
      let report : Report :=
        { fileSize := table.fileSize
          sectionSize := table.sectionSize
          sectionName := .text table.sectionName
          formatName := .text table.formatName
          splitStd := options.splitStd
          symbols }
      match report.ranked with
      | .ok r => .ok r
      | .error e => .error (.crates e)

/-- Reads the symbols of an image and, if it is given, its PDB; both have to be files or both in
memory. -/
def readOrigin (folder : Folder) (image : Origin) (debugSymbols : Option Origin)
    (wanted : Value) : Except Error Image.Reading :=
  let loaded : Except LoadError Image.Reading → Except Error Image.Reading
    | .ok r => .ok r
    | .error e => .error (.load e)
  match image, debugSymbols with
  | .bytes data, none => loaded (reading (Image.read (.inMemory data) wanted none))
  | .bytes data, some (.bytes pdb) => loaded (reading (Image.readPdb pdb data wanted))
  | .bytes _, some (.file _) => .error .debugSymbolsInFile
  | .file _, some (.bytes _) => .error .debugSymbolsInMemory
  | .file path, none => loaded (load folder path wanted none)
  | .file path, some (.file pdb) => loaded (load folder path wanted (some pdb))

/-- Analyses an image. What is worth telling about its symbols stays also if the context is then
refused. -/
def ofImage (folder : Folder) (image : Origin) (debugSymbols : Option Origin)
    (context : BuildContext) (options : Options) : Noted Error Report :=
  match readOrigin folder image debugSymbols options.symbolsSection with
  | .error e => ⟨[], .error e⟩
  | .ok r => ⟨r.notices, ofTable r.table context options⟩

end CrateLedger.Analysis
