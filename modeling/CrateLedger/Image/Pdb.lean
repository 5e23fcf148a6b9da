import CrateLedger.Image.CodeView
import CrateLedger.Image.Coff
import CrateLedger.Image.Msf

/-!
# PDB files

A PDB holds the symbols of an executable that has none of its own. Its DBI stream lists the modules
of the program, each with a stream of symbols, and leads to a copy of the section headers and to a
stream of public symbols. Procedures give addresses and sizes; the name of a procedure is that of
the first public symbol at its address, or its own if there is none.

The executable is needed for its size alone, but it has to be a PE image with intact headers.
-/

namespace CrateLedger.Image.Pdb

/-- The number of the stream with the debug information. -/
def dbiStream : Int := 3

/-- The stream number that stands for no stream. -/
def nilStream : Nat := 0xFFFF

/-- The size of the header of the DBI stream, and also of the fixed part of a module record. -/
def headerSize : Nat := 64

/-- Which of the optional streams holds the section headers. -/
def sectionHeaderEntry : Nat := 5

/-! ## The DBI stream -/

/-- What the header of the DBI stream says. -/
structure Header where
  /-- The stream of public symbols. -/
  publicStream : Nat
  /-- The size of the list of modules, which comes first. -/
  modulesSize : Int
  /-- The sizes of the parts between the modules and the optional streams. -/
  between : List Int
  /-- The size of the list of optional streams. -/
  optionalSize : Int
  deriving DecidableEq, Repr

/-- Reads the header of the DBI stream. -/
def header (dbi : Bytes) : Except Fault Header := do
  let r ← dbi.record 0 headerSize
  let int (at_ : Nat) : Int := r.signedNumber .little at_ 4
  return ⟨r.number .little 20 2, int 24, [int 28, int 32, int 36, int 40, int 52], int 48⟩

/-- Where the list of optional streams is. -/
def Header.optionalAt (h : Header) : Int := headerSize + h.modulesSize + h.between.foldr (· + ·) 0

/-- Reads the section headers from their stream. -/
def sections (file : Msf.File) (dbi : Bytes) (h : Header) : Except Fault (List Coff.Section) :=
  let count := (h.optionalSize / 2).toNat
  if count ≤ sectionHeaderEntry then .error .sectionHeadersMissing
  else do
    match (← Msf.words dbi h.optionalAt 2 count)[sectionHeaderEntry]? with
    | none => throw .sectionHeadersMissing
    | some stream =>
      if stream = nilStream then throw .sectionHeadersMissing
      let raw ← file.stream stream
      Coff.sections raw 0 (raw.size / Coff.sectionHeaderSize) none

/-- The address in memory of an offset in a section, which is numbered from one. -/
def address? (sections : List Coff.Section) (segment offset : Nat) : Option Nat :=
  if segment = 0 then none
  else (sections[segment - 1]?).map fun s => s.virtualAddress + offset

/-! ## Modules -/

/-- The symbols of a module. -/
structure Module where
  /-- The stream that holds them. -/
  stream : Nat
  /-- Where they end in the stream. -/
  symbolsEnd : Nat
  deriving DecidableEq, Repr

/-- The index behind a name that a NUL ends, or behind the end of the list if that comes first. A
list that is longer than its stream has names that end nowhere. -/
def skipName (dbi : Bytes) (offset stop : Nat) : Except ReadError Nat :=
  if offset < stop then
    match dbi[offset]? with
    | none => .error .moduleNameOutside
    | some b => if b = 0 then .ok (offset + 1) else skipName dbi (offset + 1) stop
  else .ok (offset + 1)
termination_by stop - offset

/-- A name is never empty together with its end. -/
theorem lt_of_skipName {dbi : Bytes} {offset stop next : Nat}
    (h : skipName dbi offset stop = .ok next) : offset < next := by
  fun_induction skipName dbi offset stop with
  | case1 => simp at h
  | case2 => simp at h; omega
  | case3 offset _ _ _ _ ih =>
    have := ih h
    omega
  | case4 => simp at h; omega

/-- The next multiple of four. -/
def alignWord (n : Nat) : Nat := (n + 3) / 4 * 4

/-- The modules from an offset of the DBI stream on. A module without symbols is passed over. -/
def modulesFrom (dbi : Bytes) (offset stop : Nat) : Walk ReadError Module :=
  if h : offset + headerSize ≤ stop then
    match within .pdb (dbi.record (offset + 34 : Nat) 6) with
    | .error e => Walk.failed e
    | .ok r =>
      match h1 : skipName dbi (offset + headerSize) stop with
      | .error e => Walk.failed e
      | .ok next =>
        match h2 : skipName dbi next stop with
        | .error e => Walk.failed e
        | .ok after =>
          have : stop - alignWord after < stop - offset := by
            have := lt_of_skipName h1
            have := lt_of_skipName h2
            simp only [alignWord, headerSize] at *
            omega
          let rest := modulesFrom dbi (alignWord after) stop
          let (stream, size) := (r.number .little 0 2, r.number .little 2 4)
          if stream = nilStream ∨ size = 0 then rest else Walk.cons ⟨stream, size⟩ rest
  else Walk.finished
termination_by stop - offset

/-- The modules of the DBI stream. -/
def modules (dbi : Bytes) (h : Header) : Walk ReadError Module :=
  modulesFrom dbi headerSize (headerSize + h.modulesSize).toNat

/-! ## Symbols -/

/-- The name of the first public symbol at each address, in the order of the stream. -/
abbrev PublicNames := List (Nat × Text)

/-- The address and name of a record if it is a public symbol of code in some section. -/
def publicName? (stream : Bytes) (sections : List Coff.Section) (r : CodeView.Record) :
    Except Fault (Option (Nat × Text)) :=
  if r.kind = CodeView.publicKind then do
    let p ← CodeView.publicAt stream r
    match if p.isCode then address? sections p.segment p.offset else none with
    | none => return none
    | some address => return some (address, ← stream.name p.nameAt none)
  else .ok none

/-- Reads the public symbols; there may be none. -/
def publicNames (file : Msf.File) (h : Header) (sections : List Coff.Section) :
    Except Fault PublicNames :=
  if h.publicStream = nilStream then .ok []
  else do
    let stream ← file.stream h.publicStream
    let walk := CodeView.records stream 0 stream.size
    return (← walk.mapM (publicName? stream sections)).filterMap id

/-- The entry of a record if it is a procedure in the section of a number. -/
def procedure? (stream : Bytes) (target : Coff.Section) (number : Nat) (names : PublicNames)
    (r : CodeView.Record) : Except Fault (Option RawSymbol) :=
  if r.kind ∈ CodeView.procedureKinds then do
    let p ← CodeView.procedureAt stream r
    if p.segment = number then
      let address := target.virtualAddress + p.offset
      let own ← stream.name p.nameAt none
      return some ⟨address, p.codeSize, target.name, (names.lookup address).getD own⟩
    else return none
  else .ok none

/-- The procedures of a module in the section of a number. Its symbols start behind a signature of
four bytes. -/
def moduleEntries (file : Msf.File) (target : Coff.Section) (number : Nat) (names : PublicNames)
    (m : Module) : Except Fault (List RawSymbol) := do
  let stream ← file.stream m.stream
  let walk := CodeView.records stream 4 m.symbolsEnd
  return (← walk.mapM (procedure? stream target number names)).filterMap id

/-! ## Files -/

/-- Whether the data starts like a PDB. -/
def isFile (data : Bytes) : Bool := data.startsWith Msf.magic

/-- Reads the procedures of a section from a PDB and the executable that it belongs to. -/
def read (data : Bytes) (executable : Option Bytes) (wanted : Value) :
    Except ReadError Reading := do
  let some executable := executable | throw (.unsupported .executableMissing)
  if !Coff.isImage executable then throw (.unsupported .executableFormat)
  let _ ← within .pe (Coff.headers executable)
  let file ← within .pdb (Msf.File.open data)
  let dbi ← within .pdb (file.stream dbiStream)
  let h ← within .pdb (header dbi)
  let sections ← within .pdb (sections file dbi h)
  match (sections.zipIdx 1).find? fun (s, _) => wanted = .text s.name with
  | none => throw (.sectionMissing wanted (sections.map Coff.Section.name))
  | some (target, number) =>
    let names ← within .pdb (publicNames file h sections)
    let entries ← (modules dbi h).mapM fun m =>
      within .pdb (moduleEntries file target number names m)
    return ⟨⟨Format.pdb.name, target.name, target.virtualSize, executable.size,
      entries.flatten⟩, []⟩

end CrateLedger.Image.Pdb
