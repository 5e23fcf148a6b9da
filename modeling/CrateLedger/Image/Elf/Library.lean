import CrateLedger.Image.Source
import CrateLedger.Image.SymbolTable

/-!
# ELF images through a library

An ELF image is taken apart by a library. It opens an image, lists the sections, finds a section by
its name, and lists the symbols of a section that is a symbol table. Which section and which of its
symbols are reported is decided here, over any such library.

The symbols are those of `.symtab`, or of `.dynsym` where that is missing or no symbol table;
functions and data objects of the wanted section are kept. A library gives fields with few meanings
by the names that the ELF specification has for them, and by their numbers where it has none.
-/

namespace CrateLedger.Image.Elf

/-! ## Libraries -/

namespace Library

/-- A field with few meanings. -/
inductive Code where
  /-- A meaning with a name. -/
  | named (name : Text)
  /-- A number without a name. -/
  | number (n : Nat)
  deriving DecidableEq, Repr

/-- A symbol as a library gives it. -/
structure Symbol where
  name : Text
  /-- Its address. -/
  value : Nat
  size : Nat
  /-- What it is the symbol of. -/
  type : Code
  /-- The index of the section that it is in. -/
  place : Code
  deriving DecidableEq, Repr

/-- A section as a library gives it. -/
structure Section where
  name : Text
  size : Nat
  /-- Reads its symbols, if it is a symbol table. -/
  symbols? : Option (Unit → Except ReadError (List Symbol))

/-- An image that a library has opened. -/
structure Opened where
  /-- The width of its class. -/
  bits : Nat
  /-- Its sections, in order. -/
  sections : Except ReadError (List Section)
  /-- The section that is found under a name. -/
  sectionNamed : Text → Except ReadError (Option Section)

end Library

/-- A library for ELF images. Its errors are the ones that reading fails with. -/
structure Library where
  /-- Opens an image. -/
  load : Source → Except ReadError Library.Opened

/-! ## Symbols -/

/-- The types of symbols that are reported. -/
def keptTypes : List Text := ["STT_FUNC", "STT_OBJECT"]

namespace Library

/-- Whether a symbol is a function or a data object in the section of an index. -/
def Symbol.isKept (s : Symbol) (index : Nat) : Bool :=
  s.place = .number index && keptTypes.any fun type => s.type = .named type

/-- The symbols of an image, if it has a symbol table. -/
def Opened.symbols? (image : Opened) : Except ReadError (Option (List Symbol)) := do
  match (← image.sectionNamed ".symtab").bind Section.symbols? with
  | some read => return some (← read ())
  | none =>
    match (← image.sectionNamed ".dynsym").bind Section.symbols? with
    | some read => return some (← read ())
    | none => return none

end Library

/-! ## Images -/

/-- Reads the symbols of the first section of the wanted name. All sections are looked at before one
of them is missed. -/
def readWith (lib : Library) (source : Source) (wanted : Value) : Except ReadError Reading := do
  let image ← lib.load source
  let sections ← image.sections
  match sections.zipIdx.find? fun (s, _) => wanted = .text s.name with
  | none =>
    throw (.sectionMissing wanted ((sections.map Library.Section.name).filter (· ≠ [])))
  | some (target, index) =>
    let reading (entries : List RawSymbol) (notices : List Notice) : Reading :=
      ⟨⟨"ELF" ++ Numeral.decimal image.bits, target.name, target.size, source.data.size, entries⟩,
        notices⟩
    match ← image.symbols? with
    | none => return reading [] [.elfStripped]
    | some symbols =>
      return reading ((symbols.filter fun s => s.isKept index).map fun s =>
        ⟨s.value, s.size, target.name, s.name⟩) []

end CrateLedger.Image.Elf
