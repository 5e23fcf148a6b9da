import CrateLedger.Image.Bytes
import CrateLedger.Image.SymbolTable

/-!
# PE images and their COFF symbol tables

A PE image names its sections in a table of fixed-size headers and may have a COFF symbol table,
with a string table right behind it for names that do not fit their records. A section name that
is too long is a slash and a decimal offset into the same string table.
-/

namespace CrateLedger.Image.Coff

/-! ## Sections -/

/-- A section of an image. -/
structure Section where
  name : Text
  /-- Its size in memory. -/
  virtualSize : Nat
  /-- Where it starts in memory. -/
  virtualAddress : Nat
  deriving DecidableEq, Repr

/-- The size of a section header. -/
def sectionHeaderSize : Nat := 40

/-- The offset that a name refers to: decimal digits after a slash. -/
def nameReference? (name : Text) : Option Nat := do
  let digits := (← Text.dropHead? "/" name).map CodePoint.toChar
  if digits ≠ [] ∧ digits.all Char.isDigit then some (Numeral.readDecimal digits) else none

/-- The section header of an index in a table. Without a string table references are names. -/
def sectionAt (data : Bytes) (offset : Nat) (stringTable : Option Nat) (i : Nat) :
    Except Fault Section := do
  let r ← data.record (offset + i * sectionHeaderSize : Nat) sectionHeaderSize
  let short := (r.slice 0 8).paddedName
  let name ←
    match stringTable, nameReference? short with
    | some table, some n => data.name (table + n : Nat) none
    | _, _ => pure short
  return ⟨name, r.number .little 8 4, r.number .little 12 4⟩

/-- The section headers of a table. -/
def sections (data : Bytes) (offset count : Nat) (stringTable : Option Nat) :
    Except Fault (List Section) :=
  readTable (sectionAt data offset stringTable) 0 count

/-! ## Headers -/

/-- What the headers of an image say. -/
structure Headers where
  /-- The number of the processor. -/
  machine : Nat
  /-- The sections in the order of the table. -/
  sections : List Section
  /-- Where the symbol table is; zero for none. -/
  symbolOffset : Nat
  /-- How many records it has. -/
  symbolCount : Nat
  deriving DecidableEq, Repr

/-- The size of a symbol record. -/
def symbolSize : Nat := 18

/-- Where the string table is: behind the symbols. -/
def stringTableAt (symbolOffset symbolCount : Nat) : Nat := symbolOffset + symbolCount * symbolSize

/-- Whether the data starts like a PE image. -/
def isImage (data : Bytes) : Bool := data.startsWith [0x4D, 0x5A]

/-- Reads the headers of an image. -/
def headers (data : Bytes) : Except Fault Headers := do
  let start := (← data.record 0x3C 4).number .little 0 4
  if (data.slice start 4).toList ≠ [0x50, 0x45, 0, 0] then throw (.signatureMissing start)
  let r ← data.record (start + 4 : Nat) 20
  let symbolOffset := r.number .little 8 4
  let symbolCount := r.number .little 12 4
  let stringTable :=
    if symbolOffset = 0 then none else some (stringTableAt symbolOffset symbolCount)
  let tableOffset := start + 24 + r.number .little 16 2
  let sections ← sections data tableOffset (r.number .little 2 2) stringTable
  return ⟨r.number .little 0 2, sections, symbolOffset, symbolCount⟩

/-! ## Symbols -/

/-- A symbol record. -/
structure Record where
  /-- The name, or a reference to it after four zero bytes. -/
  nameField : Bytes
  /-- The offset in the section. -/
  value : Nat
  /-- The number of the section from one; others have special meanings. -/
  sectionNumber : Int
  type : Nat
  /-- How many auxiliary records follow. -/
  auxiliaries : Nat
  deriving DecidableEq, Repr

/-- The symbol record of an index. -/
def recordAt (data : Bytes) (symbolOffset i : Nat) : Except Fault Record := do
  let r ← data.record (symbolOffset + i * symbolSize : Nat) symbolSize
  return ⟨r.slice 0 8, r.number .little 8 4, r.signedNumber .little 12 2, r.number .little 14 2,
    r.number .little 17 1⟩

/-- The type of a function. -/
def functionType : Nat := 0x20

/-- The processor whose C symbols start with an underscore. -/
def machineI386 : Nat := 0x14C

/-- The name of a symbol. -/
def nameOf (data : Bytes) (h : Headers) (r : Record) : Except Fault Text := do
  let name ←
    if (r.nameField.slice 0 4).all (· = 0) then
      let n := r.nameField.number .little 4 4
      data.name (stringTableAt h.symbolOffset h.symbolCount + n : Nat) none
    else pure r.nameField.paddedName
  return if h.machine = machineI386 then (Text.dropHead? "_" name).getD name else name

/-- The functions of a section from a symbol index on. Auxiliary records are passed over with the
record that they belong to. -/
def functionsFrom (data : Bytes) (h : Headers) (s : Section) (number : Nat) (i : Nat) :
    Except Fault (List RawSymbol) :=
  if i < h.symbolCount then do
    let r ← recordAt data h.symbolOffset i
    if r.sectionNumber = number ∧ r.type = functionType then
      let name ← nameOf data h r
      let rest ← functionsFrom data h s number (i + 1 + r.auxiliaries)
      return ⟨s.virtualAddress + r.value, 0, s.name, name⟩ :: rest
    else functionsFrom data h s number (i + 1 + r.auxiliaries)
  else .ok []
termination_by h.symbolCount - i

/-! ## Images -/

/-- Reads the function symbols of a section. -/
def read (data : Bytes) (wanted : Value) : Except ReadError Reading := do
  let h ← within .pe (headers data)
  match (h.sections.zipIdx 1).find? fun (s, _) => wanted = .text s.name with
  | none => throw (.sectionMissing wanted (h.sections.map Section.name))
  | some (s, number) =>
    let reading (entries : List RawSymbol) (notices : List Notice) : Reading :=
      ⟨⟨Format.pe.name, s.name, s.virtualSize, data.size, entries⟩, notices⟩
    if h.symbolOffset = 0 ∨ h.symbolCount = 0 then return reading [] [.peStripped]
    else
      let entries ← within .pe (functionsFrom data h s number 0)
      let start : Int := s.virtualAddress
      return reading (assignGapSizes entries start (start + s.virtualSize)) []

end CrateLedger.Image.Coff
