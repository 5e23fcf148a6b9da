import CrateLedger.Image.Bytes
import CrateLedger.Image.SymbolTable

/-!
# Mach-O images

Thin images of either width and byte order. Both widths have the same records with addresses of
four or eight bytes, so a `Layout` says where the fields are and one reader serves all images.

A section is selected by a segment and a section name. A selector in the style of other formats
names the section by its usual Mach-O name, in the text segment where that is what the name means.
-/

namespace CrateLedger.Image.MachO

/-! ## Selectors -/

/-- The section names that a selector without a segment takes from the text segment. -/
def textSections : List Text := ["__text", "__stubs", "__cstring", "__const"]

/-- The segment and the section that a text asks for. An empty segment stands for any. -/
def selectedByText (selector : Text) : Text × Text :=
  match Text.splitFirst? "," selector with
  | some (segment, name) => (segment, name)
  | none =>
    let name : Text :=
      match Text.dropHead? "." selector with
      | some rest => "__" ++ rest
      | none => selector
    (if name ∈ textSections then "__TEXT" else [], name)

/-- The text and the segment and section that a selector asks for. Only a text asks for any. -/
def selected (selector : Value) : Except ReadError (Text × Text × Text) :=
  match selector.text? with
  | some t => .ok (t, selectedByText t)
  | none => .error (.selectorNotText selector)

/-! ## Layout -/

/-- The number that starts a 32-bit image, in its byte order. -/
def magic32 : Nat := 0xFEEDFACE

/-- The number that starts a 64-bit image, in its byte order. -/
def magic64 : Nat := 0xFEEDFACF

/-- Where the fields of records are. -/
structure Layout where
  /-- The byte order of all numbers. -/
  order : ByteOrder
  /-- Whether addresses have eight bytes. -/
  wide : Bool
  deriving DecidableEq, Repr

namespace Layout

/-- The width of an address. -/
def addressWidth (l : Layout) : Nat := if l.wide then 8 else 4

/-- The size of the file header. -/
def headerSize (l : Layout) : Nat := if l.wide then 32 else 28

/-- The number of the load command that describes a segment. -/
def segmentCommand (l : Layout) : Nat := if l.wide then 0x19 else 0x1

/-- The size of a segment command without its sections: names, four addresses, four words. -/
def segmentSize (l : Layout) : Nat := 40 + 4 * l.addressWidth

/-- Where a segment command says how many sections it has. -/
def sectionCountAt (l : Layout) : Nat := l.segmentSize - 8

/-- The size of a section record. -/
def sectionSize (l : Layout) : Nat := if l.wide then 80 else 68

/-- The size of a symbol record. -/
def symbolSize (l : Layout) : Nat := 8 + l.addressWidth

/-- The format as it is named in a symbol table. -/
def formatName (l : Layout) : Text := if l.wide then "Mach-O 64" else "Mach-O 32"

end Layout

/-- The layout that the first four bytes announce. -/
def layout? (data : Bytes) : Option Layout :=
  if data.size < 4 then none
  else
    let little := data.number .little 0 4
    let big := data.number .big 0 4
    if little = magic32 ∨ little = magic64 then some ⟨.little, little = magic64⟩
    else if big = magic32 ∨ big = magic64 then some ⟨.big, big = magic64⟩
    else none

/-! ## Load commands -/

/-- A load command and where it is. -/
structure Command where
  /-- The number that says what it is. -/
  kind : Nat
  /-- Where it starts. -/
  offset : Nat
  deriving DecidableEq, Repr

/-- The load commands from an offset on, as many as are declared. -/
def commands (l : Layout) (data : Bytes) (offset : Nat) : Nat → Walk Fault Command
  | 0 => Walk.finished
  | count + 1 =>
    match data.record offset 8 with
    | .error e => Walk.failed e
    | .ok r =>
      let size := r.number l.order 4 4
      if size < 8 then Walk.failed (.loadCommandSize offset size)
      else Walk.cons ⟨r.number l.order 0 4, offset⟩ (commands l data (offset + size) count)

/-- A section of an image. -/
structure Section where
  /-- The segment that it belongs to. -/
  segment : Text
  /-- Its own name. -/
  name : Text
  /-- Where it starts in memory. -/
  address : Nat
  /-- Its size in memory. -/
  size : Nat
  deriving DecidableEq, Repr

/-- The section record at an offset. -/
def sectionAt (l : Layout) (data : Bytes) (offset : Nat) : Except Fault Section := do
  let r ← data.record offset l.sectionSize
  return { name := (r.slice 0 16).paddedName
           segment := (r.slice 16 16).paddedName
           address := r.number l.order 32 l.addressWidth
           size := r.number l.order (32 + l.addressWidth) l.addressWidth }

/-- The sections of a load command; only a segment command has any. -/
def sectionsOf (l : Layout) (data : Bytes) (c : Command) : Except Fault (List Section) :=
  if c.kind = l.segmentCommand then do
    let r ← data.record c.offset l.segmentSize
    let first := c.offset + l.segmentSize
    readTable (fun i => sectionAt l data (first + i * l.sectionSize)) 0
      (r.number l.order l.sectionCountAt 4)
  else .ok []

/-- Where the symbols and their names are. -/
structure SymbolCommand where
  /-- Where the first symbol record is. -/
  offset : Nat
  /-- How many records there are. -/
  count : Nat
  /-- Where the string table starts. -/
  stringOffset : Nat
  /-- The size of the string table. -/
  stringSize : Nat
  deriving DecidableEq, Repr

/-- The first symbol command among load commands. -/
def symbolCommand? (l : Layout) (data : Bytes) (cs : List Command) :
    Except Fault (Option SymbolCommand) :=
  match cs.find? fun c => c.kind = 2 with
  | none => .ok none
  | some c => do
    let r ← data.record c.offset 24
    return some ⟨r.number l.order 8 4, r.number l.order 12 4, r.number l.order 16 4,
      r.number l.order 20 4⟩

/-! ## Symbols -/

/-- A symbol record. -/
structure Nlist where
  /-- Where the name is in the string table; zero for none. -/
  nameOffset : Nat
  /-- Debugging bits, the kind, and visibility. -/
  type : Nat
  /-- The ordinal of the section, from one. -/
  ordinal : Nat
  /-- The address. -/
  value : Nat
  deriving DecidableEq, Repr

/-- The symbol record of an index. -/
def symbolAt (l : Layout) (data : Bytes) (table : SymbolCommand) (i : Nat) :
    Except Fault Nlist := do
  let r ← data.record (table.offset + i * l.symbolSize : Nat) l.symbolSize
  return ⟨r.number l.order 0 4, r.number l.order 4 1, r.number l.order 5 1,
    r.number l.order 8 l.addressWidth⟩

/-- Whether a record is no debugging entry and is defined in the section of an ordinal. -/
def Nlist.isDefinedIn (n : Nlist) (ordinal : Nat) : Bool :=
  n.type &&& 0xE0 = 0 && n.type &&& 0x0E = 0x0E && n.ordinal = ordinal

/-- The name of a symbol, without the underscore that the format puts in front of it. -/
def nameOf (data : Bytes) (table : SymbolCommand) (n : Nlist) : Except Fault Text :=
  if n.nameOffset = 0 then .ok []
  else do
    let name ← data.name (table.stringOffset + n.nameOffset : Nat)
      (some (table.stringOffset + table.stringSize))
    return (Text.dropHead? "_" name).getD name

/-- The entry of the symbol of an index, if it is in the section of an ordinal. -/
def entryAt (l : Layout) (data : Bytes) (table : SymbolCommand) (sectionName : Text)
    (ordinal i : Nat) : Except Fault (Option RawSymbol) := do
  let n ← symbolAt l data table i
  if n.isDefinedIn ordinal then
    return some ⟨n.value, 0, sectionName, ← nameOf data table n⟩
  else return none

/-! ## Images -/

/-- Reads the symbols of the selected section. Sections are numbered from one in the order of the
load commands, through all segments. -/
def read (l : Layout) (data : Bytes) (wanted : Value) : Except ReadError Reading := do
  let header ← within .machO (data.record 0 28)
  if data.size < l.headerSize + header.number l.order 20 4 then
    throw (.malformed .machO .loadCommandsOutside)
  let walk := commands l data l.headerSize (header.number l.order 16 4)
  let sections := (← within .machO (walk.mapM (sectionsOf l data))).flatten
  let symbols ← within .machO (symbolCommand? l data walk.items)
  let (selector, segment, name) ← selected wanted
  let isWanted (s : Section) : Bool := s.name = name && (segment.isEmpty || s.segment = segment)
  match (sections.zipIdx 1).find? fun (s, _) => isWanted s with
  | none => throw (.sectionMissing wanted (sections.map fun s => s.segment ++ "," ++ s.name))
  | some (target, ordinal) =>
    let reading (entries : List RawSymbol) (notices : List Notice) : Reading :=
      ⟨⟨l.formatName, selector, target.size, data.size, entries⟩, notices⟩
    match symbols with
    | none => return reading [] [.machOStripped]
    | some table =>
      let entries ← within .machO
        (readTable (entryAt l data table selector ordinal) 0 table.count)
      let start : Int := target.address
      return reading (assignGapSizes (entries.filterMap id) start (start + target.size)) []

end CrateLedger.Image.MachO
