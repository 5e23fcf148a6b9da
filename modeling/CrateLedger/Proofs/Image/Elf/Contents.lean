import CrateLedger.Image.Elf
import CrateLedger.Proofs.Image.Bytes

/-!
# What ELF images hold

The sections and symbols of an image, apart from its class and byte order, and what it means that
some data is an image that holds them. A record has the same fields in both classes, but they differ
in width, and those of a symbol also in order. Everything may be anywhere in the data, and what is
not looked at may be anything.
-/

namespace CrateLedger.Image.Elf

open Bytes

/-! ## What images hold -/

/-- What a section holds. -/
inductive Body where
  /-- Symbols, static or dynamic. -/
  | symbols (dynamic : Bool) (symbols : List File.Symbol)
  /-- Anything else, of a type and a size. -/
  | other (type size : Nat)
  deriving DecidableEq

/-- A section. -/
structure Section where
  /-- Its name. Other sections can have the same. -/
  name : Text
  /-- What it holds. -/
  body : Body
  deriving DecidableEq

/-- The symbols that a section holds, if it is a symbol table. -/
def Section.symbols? (s : Section) : Option (List File.Symbol) :=
  match s.body with
  | .symbols _ symbols => some symbols
  | .other _ _ => none

/-- The size of a section in images of a layout. -/
def Section.size (l : Layout) (s : Section) : Nat :=
  match s.body with
  | .symbols _ symbols => symbols.length * l.symbolSize
  | .other _ size => size

/-- What an image holds. -/
structure Contents where
  sections : List Section
  /-- There are fewer than the first index that is reserved. -/
  few : sections.length < 0xFF00

/-! ## Records -/

/-- Fields of some widths stand one behind the other from an offset on. A field without a number can
hold anything. -/
def FieldsAt (order : ByteOrder) (data : Bytes) : Nat → List (Nat × Option Nat) → Prop
  | offset, [] => offset ≤ data.size
  | offset, (width, value) :: fields =>
    (∀ n ∈ value, n < 256 ^ width ∧ StandsAt data offset (order.encode width n))
      ∧ FieldsAt order data (offset + width) fields

instance FieldsAt.decidable (order : ByteOrder) (data : Bytes) :
    (offset : Nat) → (fields : List (Nat × Option Nat)) →
      Decidable (FieldsAt order data offset fields)
  | offset, [] => inferInstanceAs (Decidable (offset ≤ data.size))
  | offset, (width, value) :: fields =>
    have := FieldsAt.decidable order data (offset + width) fields
    inferInstanceAs (Decidable
      ((∀ n ∈ value, n < 256 ^ width ∧ StandsAt data offset (order.encode width n))
        ∧ FieldsAt order data (offset + width) fields))

namespace FieldsAt

variable {order : ByteOrder} {data : Bytes} {offset : Nat} {fields : List (Nat × Option Nat)}

/-- The fields are inside the data. -/
theorem inside (h : FieldsAt order data offset fields) :
    offset + (fields.map Prod.fst).sum ≤ data.size := by
  induction fields generalizing offset with
  | nil => exact h
  | cons field fields ih =>
    have hrest := ih h.2
    rw [List.map_cons, List.sum_cons]
    omega

/-- A field is read from a part of the data, behind the widths of the fields before it. -/
theorem number {start length : Nat} (h : FieldsAt order data (offset + start) fields)
    (hlength : start + (fields.map Prod.fst).sum ≤ length) (i : Nat) {width n place : Nat}
    (hfield : fields[i]? = some (width, some n))
    (hplace : start + ((fields.take i).map Prod.fst).sum = place) :
    (data.slice offset length).number order place width = n := by
  induction fields generalizing start i with
  | nil => cases hfield
  | cons field fields ih =>
    rw [List.map_cons, List.sum_cons] at hlength
    cases i with
    | zero =>
      obtain rfl : field = (width, some n) := Option.some.inj hfield
      obtain rfl : start = place := hplace
      obtain ⟨hfits, hstands⟩ := h.1 n rfl
      dsimp only at hlength
      rw [number_slice order (by omega)]
      exact number_of_encoded hstands hfits
    | succ i =>
      rw [List.take_succ_cons, List.map_cons, List.sum_cons] at hplace
      have hrest : FieldsAt order data (offset + (start + field.1)) fields := by
        rw [← Nat.add_assoc]
        exact h.2
      exact ih hrest (by omega) i hfield (by omega)

/-- A record that has only these fields is inside the data, and each of its fields is read. -/
theorem record {length : Nat} (h : FieldsAt order data offset fields)
    (hwidths : (fields.map Prod.fst).sum = length) :
    offset + length ≤ data.size ∧ ∀ (i : Nat) {width n place : Nat},
      fields[i]? = some (width, some n) → ((fields.take i).map Prod.fst).sum = place →
        (data.slice offset length).number order place width = n := by
  subst hwidths
  refine ⟨h.inside, fun i _ _ _ hfield hplace => ?_⟩
  have hstart : FieldsAt order data (offset + 0) fields := h
  exact hstart.number (by omega) i hfield (by omega)

end FieldsAt

/-- The width of addresses, offsets and sizes. -/
def Layout.wordSize (l : Layout) : Nat := if l.wide then 8 else 4

/-- The bytes that announce a layout: its class and its byte order. -/
def Layout.identification (l : Layout) : List UInt8 :=
  [if l.wide then 2 else 1, match l.order with | .little => 1 | .big => 2]

theorem Layout.headerSize_pos (l : Layout) : 0 < l.headerSize := by
  unfold headerSize
  split <;> decide

theorem Layout.sectionHeaderSize_pos (l : Layout) : 0 < l.sectionHeaderSize := by
  unfold sectionHeaderSize
  split <;> decide

theorem Layout.symbolSize_pos (l : Layout) : 0 < l.symbolSize := by
  unfold symbolSize
  split <;> decide

theorem Layout.compressionHeaderSize_pos (l : Layout) : 0 < l.compressionHeaderSize := by
  unfold compressionHeaderSize
  split <;> decide

section Fields

variable (l : Layout)

/-- The file header behind the identification: a type, a machine and a version, three addresses of
which the last is that of the section headers, flags, its own size, the size and number of program
headers and of section headers, and the index of the section with names. -/
def Header.fields (h : Header) : List (Nat × Option Nat) :=
  [(2, none), (2, none), (4, none), (l.wordSize, none), (l.wordSize, none),
    (l.wordSize, some h.sectionOffset), (4, none), (2, none), (2, none), (2, none),
    (2, some h.entrySize), (2, some h.sectionCount), (2, some h.nameTable)]

/-- A section header: the name, the type, flags, an address, the offset, the size, two indices of
which the first is that of another section, an alignment and the size of an entry. -/
def SectionHeader.fields (h : SectionHeader) : List (Nat × Option Nat) :=
  [(4, some h.nameOffset), (4, some h.type), (l.wordSize, some h.flags), (l.wordSize, none),
    (l.wordSize, some h.offset), (l.wordSize, some h.size), (4, some h.link), (4, none),
    (l.wordSize, none), (l.wordSize, some h.entrySize)]

/-- A symbol whose name is at an offset: besides its numbers there is a visibility. The classes put
the value and the size at different places. -/
def File.Symbol.fields (nameOffset : Nat) (s : File.Symbol) : List (Nat × Option Nat) :=
  if l.wide then [(4, some nameOffset), (1, some s.info), (1, none), (2, some s.sectionIndex),
    (8, some s.value), (8, some s.size)]
  else [(4, some nameOffset), (4, some s.value), (4, some s.size), (1, some s.info), (1, none),
    (2, some s.sectionIndex)]

end Fields

section Widths

variable {l : Layout}

theorem Header.fields_widths (h : Header) :
    16 + ((h.fields l).map Prod.fst).sum = l.headerSize := by
  rcases l with ⟨order, _ | _⟩ <;> simp [fields, Layout.wordSize, Layout.headerSize]

theorem SectionHeader.fields_widths (h : SectionHeader) :
    ((h.fields l).map Prod.fst).sum = l.sectionHeaderSize := by
  rcases l with ⟨order, _ | _⟩ <;> simp [fields, Layout.wordSize, Layout.sectionHeaderSize]

theorem File.Symbol.fields_widths (nameOffset : Nat) (s : File.Symbol) :
    ((s.fields l nameOffset).map Prod.fst).sum = l.symbolSize := by
  rcases l with ⟨order, _ | _⟩ <;> simp [fields, Layout.symbolSize]

end Widths

/-! ## How images hold it -/

/-- A name is stored at an offset, with a NUL behind it. -/
structure NameAt (data : Bytes) (offset : Nat) (name : Text) : Prop where
  /-- It has no NUL, and UTF-8 can spell it. -/
  storable : 0 ∉ name ∧ name.hasSurrogate = false
  /-- Its bytes are there. -/
  stands : StandsAt data offset (Utf8.encode name ++ [0])

section Encoding

variable (l : Layout) (data : Bytes) (headers : List SectionHeader)

/-- The record of a symbol stands at an offset. -/
def SymbolAt (strings offset : Nat) (s : File.Symbol) : Prop :=
  ∃ nameOffset, NameAt data (strings + nameOffset) s.name
    ∧ FieldsAt l.order data offset (s.fields l nameOffset)

/-- A section of some header holds something. -/
inductive BodyAt (h : SectionHeader) : Body → Prop where
  /-- Symbols are in a table, and their names in a string table that it is linked to. -/
  | symbols {dynamic : Bool} {symbols : List File.Symbol} (strings : SectionHeader)
      (htype : h.type = if dynamic then 11 else 2) (hentry : h.entrySize = l.symbolSize)
      (hsize : h.size = symbols.length * l.symbolSize) (hlink : headers[h.link]? = some strings)
      (hstrings : strings.type = 3)
      (hsymbols : ∀ (i : Nat) (hi : i < symbols.length),
        SymbolAt l data strings.offset (h.offset + i * l.symbolSize) symbols[i]) :
      BodyAt h (.symbols dynamic symbols)
  /-- What else there is has its type and its size. -/
  | other (htype : h.type ≠ 2 ∧ h.type ≠ 11) : BodyAt h (.other h.type h.size)

/-- A header describes a section, given where names are. -/
structure Describes (names : Nat) (h : SectionHeader) (s : Section) : Prop where
  /-- It says where the name is. -/
  name : NameAt data (names + h.nameOffset) s.name
  /-- A compressed section starts with a header. -/
  compression : h.isCompressed = true → h.offset + l.compressionHeaderSize ≤ data.size
  /-- It says where the contents are. -/
  body : BodyAt l data headers h s.body

/-- The data is an image of a layout that holds some contents. -/
structure Encodes (place : Header) (image : Contents) : Prop where
  /-- The image starts like every image of its layout. -/
  identification : StandsAt data 0 (magic ++ l.identification)
  /-- The file header follows. -/
  header : FieldsAt l.order data 16 (place.fields l)
  /-- There are section headers, which can be longer than is looked at. -/
  present : place.sectionOffset ≠ 0 ∧ l.sectionHeaderSize ≤ place.entrySize
  /-- They are where the file header says. -/
  table : ∀ (i : Nat) (hi : i < headers.length),
    FieldsAt l.order data (place.sectionOffset + i * place.entrySize) (headers[i].fields l)
  /-- There is one for each section. -/
  count : place.sectionCount = image.sections.length
  /-- They describe the sections, and one of these has the names. -/
  sections : ∃ names, headers[place.nameTable]? = some names
    ∧ List.Forall₂ (Describes l data headers names.offset) headers image.sections
  /-- Offsets in the data are signed words. -/
  size : data.size ≤ 2 ^ 63

end Encoding

end CrateLedger.Image.Elf
