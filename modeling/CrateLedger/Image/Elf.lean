import CrateLedger.Image.Elf.Library

/-!
# ELF images

A library for images of either class and byte order.

Each section needs a name, a symbol table needs a linked string table and whole entries, and a
compressed section needs its compression header. Names are read from the whole file and not only
from their section, and a name that nothing ends is empty. Sections of other types are taken as they
are.

A file on disk cannot be read from behind its end, while reading bytes in memory from there gives
nothing; offsets that do not fit a signed 64-bit word fail in both.
-/

namespace CrateLedger.Image.Elf

/-! ## Access -/

/-- Goes to an offset, if that is possible. -/
def seek (s : Source) (offset : Nat) : Except ReadError Unit :=
  if 0x8000000000000000 ≤ offset then .error (.offsetTooLarge offset)
  else if s.onDisk ∧ s.data.size < offset then .error (.malformed .elf (.seekOutside offset))
  else .ok ()

/-- The record of a size at an offset. -/
def recordAt (s : Source) (offset size : Nat) : Except ReadError Bytes := do
  seek s offset
  within .elf (s.data.record offset size)

/-- The name at an offset. -/
def nameAt (s : Source) (offset : Nat) : Except ReadError Text := do
  seek s offset
  let bytes := s.data.untilNul offset s.data.size
  return if s.data[offset + bytes.length]? = some 0 then Utf8.decodeTolerant bytes else []

/-! ## Layout -/

/-- The bytes that an image starts with. -/
def magic : List UInt8 := [0x7F, 0x45, 0x4C, 0x46]

/-- Where the fields of records are. -/
structure Layout where
  /-- The byte order of all numbers. -/
  order : ByteOrder
  /-- Whether the image is of the 64-bit class. -/
  wide : Bool
  deriving DecidableEq, Repr

namespace Layout

/-- The size of the file header. -/
def headerSize (l : Layout) : Nat := if l.wide then 64 else 52

/-- The size of a section header. -/
def sectionHeaderSize (l : Layout) : Nat := if l.wide then 64 else 40

/-- The size of a symbol. -/
def symbolSize (l : Layout) : Nat := if l.wide then 24 else 16

/-- The size of a compression header. -/
def compressionHeaderSize (l : Layout) : Nat := if l.wide then 24 else 12

/-- The width of addresses in bits. -/
def bits (l : Layout) : Nat := if l.wide then 64 else 32

/-- The number in a field whose place and width depend on the class. -/
def field (l : Layout) (r : Bytes) (at32 width32 at64 width64 : Nat) : Nat :=
  if l.wide then r.number l.order at64 width64 else r.number l.order at32 width32

end Layout

/-- The layout that the identification announces. -/
def layout (data : Bytes) : Except Fault Layout := do
  let r ← data.record 4 2
  let wide ←
    match r.number .little 0 1 with
    | 1 => pure false
    | 2 => pure true
    | other => throw (.identification other)
  match r.number .little 1 1 with
  | 1 => return ⟨.little, wide⟩
  | 2 => return ⟨.big, wide⟩
  | other => throw (.identification other)

/-! ## Headers -/

/-- What the file header says about sections. -/
structure Header where
  /-- Where the section headers start; zero for none. -/
  sectionOffset : Nat
  /-- The distance between section headers. -/
  entrySize : Nat
  /-- The number of sections, or zero if it is in the first section header. -/
  sectionCount : Nat
  /-- The section that holds the names, or a mark that it is in the first section header. -/
  nameTable : Nat
  deriving DecidableEq, Repr

/-- Reads the file header. -/
def header (s : Source) (l : Layout) : Except ReadError Header := do
  let r ← recordAt s 0 l.headerSize
  return { sectionOffset := l.field r 32 4 40 8
           entrySize := l.field r 46 2 58 2
           sectionCount := l.field r 48 2 60 2
           nameTable := l.field r 50 2 62 2 }

/-- A section header. -/
structure SectionHeader where
  /-- Where the name is among the names. -/
  nameOffset : Nat
  /-- What the section holds. -/
  type : Nat
  flags : Nat
  /-- Where the section starts in the file. -/
  offset : Nat
  /-- The size of the section. -/
  size : Nat
  /-- A section that belongs to it. -/
  link : Nat
  /-- The size of one entry, where the section is a table. -/
  entrySize : Nat
  deriving DecidableEq, Repr

namespace SectionHeader

/-- Whether the section is a symbol table, static or dynamic. -/
def isSymbolTable (h : SectionHeader) : Bool := h.type = 2 || h.type = 11

/-- Whether the section holds strings. -/
def isStringTable (h : SectionHeader) : Bool := h.type = 3

/-- Whether the section is compressed. -/
def isCompressed (h : SectionHeader) : Bool := h.flags &&& 0x800 ≠ 0

end SectionHeader

/-- An image whose header has been read. -/
structure File where
  /-- Where it comes from. -/
  source : Source
  /-- Where the fields of its records are. -/
  layout : Layout
  header : Header
  deriving DecidableEq, Repr

namespace File

/-- The section header of an index. Whether there are as many sections is not checked. -/
def sectionHeader (i : File) (index : Nat) : Except ReadError SectionHeader := do
  let l := i.layout
  if 0 < i.header.sectionOffset ∧ i.header.entrySize < l.sectionHeaderSize then
    throw (.malformed .elf (.sectionHeaderSize i.header.entrySize))
  let r ← within .elf
    (i.source.data.record (i.header.sectionOffset + index * i.header.entrySize : Nat)
      l.sectionHeaderSize)
  return { nameOffset := l.field r 0 4 0 4
           type := l.field r 4 4 4 4
           flags := l.field r 8 4 8 8
           offset := l.field r 16 4 24 8
           size := l.field r 20 4 32 8
           link := l.field r 24 4 40 4
           entrySize := l.field r 36 4 56 8 }

/-- The number of sections. -/
def sectionCount (i : File) : Except ReadError Nat :=
  if i.header.sectionOffset = 0 then .ok 0
  else if i.header.sectionCount ≠ 0 then .ok i.header.sectionCount
  else do return (← i.sectionHeader 0).size

/-- A compressed section needs its compression header, although nothing is decompressed. -/
def checkCompression (i : File) (h : SectionHeader) : Except ReadError Unit :=
  if h.isCompressed then do
    let _ ← recordAt i.source h.offset i.layout.compressionHeaderSize
  else .ok ()

/-- The index of the section with the names of sections. -/
def nameTableIndex (i : File) : Except ReadError Nat :=
  if i.header.nameTable = 0xFFFF then do return (← i.sectionHeader 0).link
  else .ok i.header.nameTable

/-- The header of the section with the names of sections. Only the name of a section needs it, so an
image without sections need not have one. -/
def nameTable (i : File) : Except ReadError SectionHeader := do
  let h ← i.sectionHeader (← i.nameTableIndex)
  i.checkCompression h
  return h

/-- The name of a section. -/
def nameOf (i : File) (h : SectionHeader) : Except ReadError Text := do
  let names ← i.nameTable
  nameAt i.source (names.offset + h.nameOffset)

/-! ## Sections -/

/-- A section with its name. -/
structure Section where
  header : SectionHeader
  name : Text
  deriving DecidableEq, Repr

/-- The string table of a symbol table. -/
def linkedStrings (i : File) (h : SectionHeader) : Except ReadError SectionHeader := do
  let strings ← i.sectionHeader h.link
  if !strings.isStringTable then throw (.malformed .elf (.stringTableLink h.link))
  let _ ← i.nameOf strings
  i.checkCompression strings
  return strings

/-- The section of an index, with everything about it checked. -/
def sectionAt (i : File) (index : Nat) : Except ReadError Section := do
  let h ← i.sectionHeader index
  let name ← i.nameOf h
  if h.isSymbolTable then
    let _ ← i.linkedStrings h
  i.checkCompression h
  if h.isSymbolTable ∧ (h.entrySize = 0 ∨ h.size % h.entrySize ≠ 0) then
    throw (.malformed .elf (.symbolEntrySize h.entrySize))
  return ⟨h, name⟩

/-- The sections, in order. -/
def sections (i : File) : Except ReadError (List Section) := do
  readTable i.sectionAt 0 (← i.sectionCount)

/-! ## Symbols -/

/-- A symbol. -/
structure Symbol where
  name : Text
  /-- Its address. -/
  value : Nat
  size : Nat
  /-- Its type and binding. -/
  info : Nat
  /-- The section that it is in. -/
  sectionIndex : Nat
  deriving DecidableEq, Repr

/-- The symbol of an index in a table. -/
def symbolAt (i : File) (table strings : SectionHeader) (index : Nat) :
    Except ReadError Symbol := do
  let l := i.layout
  let r ← recordAt i.source (table.offset + index * table.entrySize) l.symbolSize
  let name ← nameAt i.source (strings.offset + l.field r 0 4 0 4)
  return { name
           value := l.field r 4 4 8 8
           size := l.field r 8 4 16 8
           info := l.field r 12 1 4 1
           sectionIndex := l.field r 14 2 6 2 }

/-- The symbols of a table, in its order. -/
def symbols (i : File) (table : SectionHeader) : Except ReadError (List Symbol) := do
  let strings ← i.linkedStrings table
  readTable (i.symbolAt table strings) 0 (table.size / table.entrySize)

/-! ## The library -/

/-- The types of symbols that have names. -/
def typeNames : List (Nat × Text) :=
  [(0, "STT_NOTYPE"), (1, "STT_OBJECT"), (2, "STT_FUNC"), (3, "STT_SECTION"), (4, "STT_FILE"),
    (5, "STT_COMMON"), (6, "STT_TLS")]

/-- The section indices that stand for no section: undefined, absolute and common symbols. -/
def specialIndices : List (Nat × Text) :=
  [(0, "SHN_UNDEF"), (0xFFF1, "SHN_ABS"), (0xFFF2, "SHN_COMMON")]

/-- A field as the library gives it, by its name if it has one. -/
def codeOf (names : List (Nat × Text)) (n : Nat) : Library.Code :=
  match names.lookup n with
  | some name => .named name
  | none => .number n

/-- A symbol as the library gives it. -/
def Symbol.given (s : Symbol) : Library.Symbol where
  name := s.name
  value := s.value
  size := s.size
  type := codeOf typeNames (s.info % 16)
  place := codeOf specialIndices s.sectionIndex

/-- A section as the library gives it. -/
def given (i : File) (s : Section) : Library.Section where
  name := s.name
  size := s.header.size
  symbols? :=
    if s.header.isSymbolTable then
      some fun _ => return (← i.symbols s.header).map Symbol.given
    else none

end File

/-- Opens an image. Of several sections of a name the last is found. -/
def load (source : Source) : Except ReadError Library.Opened := do
  let l ← within .elf (layout source.data)
  let i : File := ⟨source, l, ← header source l⟩
  let sections := i.sections.map fun sections => sections.map i.given
  return { bits := l.bits
           sections := sections
           sectionNamed := fun name =>
            sections.map fun sections => sections.reverse.find? fun s => s.name = name }

/-- The library that is used. -/
def library : Library := ⟨load⟩

/-! ## Images -/

/-- Whether the data starts like an ELF image. -/
def isImage (data : Bytes) : Bool := data.startsWith magic

/-- Reads the symbols of the first section of the wanted name. -/
def read (source : Source) (wanted : Value) : Except ReadError Reading :=
  readWith library source wanted

end CrateLedger.Image.Elf
