import CrateLedger.Image.Coff
import CrateLedger.Proofs.Image.Bytes

/-!
# What PE images with a COFF symbol table hold

The sections and symbols of an image, and what it means that some data is an image that holds them.
Names that do not fit their field are in the string table behind the symbols, and how many records
the symbols take, the auxiliary ones included, says where that is. Everything else may be anywhere
in the data, and what is not looked at may be anything.
-/

namespace CrateLedger.Image.Coff

open Bytes

/-! ## What images hold -/

/-- A symbol. -/
structure Symbol where
  name : Text
  /-- The offset in the section. -/
  value : Nat
  /-- The number of the section from one; others have special meanings. -/
  sectionNumber : Int
  type : Nat
  storageClass : Nat
  /-- The auxiliary records, which can hold any bytes. -/
  auxiliaries : List (List UInt8)

/-- The numbers of a symbol fit their fields, and its auxiliary records have the size of symbol
records. -/
structure Symbol.IsPlain (s : Symbol) : Prop where
  value : s.value < 2 ^ 32
  sectionNumber : -2 ^ 15 ≤ s.sectionNumber ∧ s.sectionNumber < 2 ^ 15
  type : s.type < 2 ^ 16
  storageClass : s.storageClass < 2 ^ 8
  auxiliaries : s.auxiliaries.length < 2 ^ 8
  sizes : ∀ a ∈ s.auxiliaries, a.length = symbolSize

instance (s : Symbol) : Decidable s.IsPlain :=
  decidable_of_iff (s.value < 2 ^ 32 ∧ (-2 ^ 15 ≤ s.sectionNumber ∧ s.sectionNumber < 2 ^ 15)
      ∧ s.type < 2 ^ 16 ∧ s.storageClass < 2 ^ 8 ∧ s.auxiliaries.length < 2 ^ 8
      ∧ ∀ a ∈ s.auxiliaries, a.length = symbolSize)
    ⟨fun ⟨h1, h2, h3, h4, h5, h6⟩ => ⟨h1, h2, h3, h4, h5, h6⟩,
      fun ⟨h1, h2, h3, h4, h5, h6⟩ => ⟨h1, h2, h3, h4, h5, h6⟩⟩

/-- How many records a symbol takes. -/
def Symbol.records (s : Symbol) : Nat := 1 + s.auxiliaries.length

/-- What an image holds. -/
structure Contents where
  /-- The number of the processor. -/
  machine : Nat
  sections : List Section
  /-- The symbols, of which there is at least one. -/
  symbols : List Symbol
  /-- The numbers of symbols fit their fields. -/
  isPlain : ∀ s ∈ symbols, s.IsPlain
  /-- There is a symbol. -/
  nonempty : symbols ≠ []

/-- How many records all symbols take. -/
def Contents.records (image : Contents) : Nat := (image.symbols.map Symbol.records).sum

/-! ## How images hold it -/

/-- A name that fits a name field. -/
def IsFieldName (name : Text) : Prop :=
  name.length ≤ 8 ∧ name.isAscii = true ∧ CodePoint.ofChar '\x00' ∉ name

instance (name : Text) : Decidable (IsFieldName name) := inferInstanceAs (Decidable (_ ∧ _ ∧ _))

/-- A section name that refers to the string table: a slash and decimal digits. -/
def IsReference (name : Text) (digits : List Char) : Prop :=
  digits ≠ [] ∧ (∀ c ∈ digits, c.isDigit = true) ∧ name = "/" ++ Text.ofChars digits

section Encoding

variable (data : Bytes) (strings : Nat)

/-- A text is stored at an offset, where a NUL or the end of the data ends it. -/
structure StringAt (offset : Nat) (text : Text) : Prop where
  /-- It has no NUL, and UTF-8 can spell it. -/
  storable : 0 ∉ text ∧ text.hasSurrogate = false
  /-- Its bytes are there. -/
  stands : StandsAt data offset (Utf8.encode text)
  /-- They end in the data. -/
  inside : offset + (Utf8.encode text).length ≤ data.size
  /-- Nothing of a name follows. -/
  ends : offset + (Utf8.encode text).length = data.size
    ∨ data[offset + (Utf8.encode text).length]? = some 0

/-- The name of a section is what its field holds, unless that is a reference. -/
inductive SectionNameAt (name : Text) : Text → Prop where
  /-- The field holds the name. -/
  | inline (hfits : IsFieldName name) (hplain : ∀ digits, ¬ IsReference name digits) :
      SectionNameAt name name
  /-- The field refers to the name. -/
  | reference {field : Text} (digits : List Char) (hlength : digits.length ≤ 7)
      (hreference : IsReference field digits)
      (hname : StringAt data (strings + Numeral.readDecimal digits) name) :
      SectionNameAt name field

/-- The header of a section stands at an offset. -/
structure SectionAt (offset : Nat) (s : Section) : Prop where
  /-- The name field comes first, then the size and the address. -/
  fields : ∃ field, SectionNameAt data strings s.name field
    ∧ StandsAt data offset (padded 8 field
      ++ ByteOrder.little.encodeAll [(4, s.virtualSize), (4, s.virtualAddress)])
  /-- The rest of the header is there. -/
  inside : offset + sectionHeaderSize ≤ data.size
  /-- The numbers fit. -/
  fits : s.virtualSize < 2 ^ 32 ∧ s.virtualAddress < 2 ^ 32

/-- What the name field of a symbol holds. -/
inductive SymbolNameAt (name : Text) : List UInt8 → Prop where
  /-- The name, which is not empty. -/
  | inline (hfits : IsFieldName name) (hne : name ≠ []) : SymbolNameAt name (padded 8 name)
  /-- Four zero bytes and where the name is. -/
  | reference (offset : Nat) (hoffset : offset < 2 ^ 32)
      (hname : StringAt data (strings + offset) name) :
      SymbolNameAt name (ByteOrder.little.encodeAll [(4, 0), (4, offset)])

/-- The records of a symbol stand at an offset: its own, and its auxiliary ones. -/
def SymbolAt (offset : Nat) (s : Symbol) : Prop :=
  ∃ field, SymbolNameAt data strings s.name field
    ∧ StandsAt data offset ((field ++ ByteOrder.little.encodeAll [(4, s.value),
      (2, (s.sectionNumber % 2 ^ 16).toNat), (2, s.type), (1, s.storageClass),
      (1, s.auxiliaries.length)]) ++ s.auxiliaries.flatten)

/-- Symbols stand one behind the other from an offset on. -/
inductive SymbolsAt : Nat → List Symbol → Prop where
  | nil {offset : Nat} : SymbolsAt offset []
  | cons {offset : Nat} {s : Symbol} {ss : List Symbol} (head : SymbolAt data strings offset s)
      (rest : SymbolsAt (offset + s.records * symbolSize) ss) : SymbolsAt offset (s :: ss)

end Encoding

/-- Numbers in the headers of an image that are no part of what it holds. -/
structure Placement where
  /-- Where the signature is. -/
  start : Nat
  /-- The size of the optional header. -/
  optionalSize : Nat
  /-- Where the symbols are. -/
  symbolOffset : Nat
  timeStamp : Nat
  /-- The flags. -/
  characteristics : Nat

/-- The data is an image that holds some contents. -/
structure Encodes (data : Bytes) (place : Placement) (image : Contents) : Prop where
  /-- The image starts like every executable of its kind. -/
  magic : StandsAt data 0 [0x4D, 0x5A]
  /-- It says where the signature is. -/
  start : StandsAt data 0x3C (ByteOrder.little.encode 4 place.start)
  /-- The header follows the signature. -/
  header : StandsAt data place.start ([0x50, 0x45, 0, 0] ++ ByteOrder.little.encodeAll
    [(2, image.machine), (2, image.sections.length), (4, place.timeStamp),
      (4, place.symbolOffset), (4, image.records), (2, place.optionalSize),
      (2, place.characteristics)])
  /-- The section headers stand behind the optional header. -/
  sections : ∀ (i : Nat) (hi : i < image.sections.length),
    SectionAt data (stringTableAt place.symbolOffset image.records)
      (place.start + 24 + place.optionalSize + i * sectionHeaderSize) image.sections[i]
  /-- There is a symbol table. -/
  present : place.symbolOffset ≠ 0
  /-- The symbols are there. -/
  symbols : SymbolsAt data (stringTableAt place.symbolOffset image.records) place.symbolOffset
    image.symbols
  /-- The numbers in headers fit their fields. -/
  fits : place.start < 2 ^ 32 ∧ image.machine < 2 ^ 16 ∧ image.sections.length < 2 ^ 16
    ∧ place.symbolOffset < 2 ^ 32 ∧ image.records < 2 ^ 32 ∧ place.optionalSize < 2 ^ 16

end CrateLedger.Image.Coff
