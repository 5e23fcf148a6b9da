import CrateLedger.Image.Fault

/-!
# Symbol tables

What every container format is read into: the symbols of one section as the container lists them,
with aliases and in its order, and the sizes that the container declares.

Containers that do not record the sizes of symbols give each symbol the bytes up to the next
distinct address, or up to the end of the section for the last one.
-/

namespace CrateLedger

/-- One entry of a symbol table. -/
structure RawSymbol where
  /-- Where the symbol starts. -/
  address : Int
  /-- How many bytes it has. -/
  size : Int
  /-- The section that it is in. -/
  sectionName : Text
  /-- Its name, which may be empty. -/
  name : Text
  deriving DecidableEq, Repr

/-- The symbols of one section and the sizes of the image. -/
structure SymbolTable where
  /-- The container format, with its width where that varies. -/
  formatName : Text
  sectionName : Text
  /-- The declared size of the section. -/
  sectionSize : Int
  fileSize : Int
  /-- The entries in the order of the container. -/
  entries : List RawSymbol
  deriving DecidableEq, Repr

/-- Something worth telling that does not keep the symbols from being read. -/
inductive Notice where
  /-- An ELF image without a symbol table. -/
  | elfStripped
  /-- A Mach-O image without a symbol table. -/
  | machOStripped
  /-- A PE image without a COFF symbol table. -/
  | peStripped
  /-- An options file that does not exist. -/
  | optionsMissing (path : Text)
  deriving DecidableEq, Repr

/-- The wording of a notice. -/
def Notice.message : Notice → Text
  | elfStripped => "ELF image has no symbol table (stripped?); no symbols reported"
  | machOStripped => "Mach-O image has no LC_SYMTAB; no symbols reported"
  | peStripped => "PE image has no COFF symbol table; supply its PDB for symbol data"
  | optionsMissing path => "Analysis config not found: " ++ path ++ ". Using defaults."

namespace Image

/-- A symbol table that has been read, and what there is to tell about it. -/
structure Reading where
  /-- The symbols. -/
  table : SymbolTable
  /-- What is worth telling. -/
  notices : List Notice
  deriving DecidableEq, Repr

/-! ## Derived sizes -/

/-- The distinct addresses in order, each with the bytes up to the next one, and the last with those
up to the end. -/
def gaps (addresses : List Int) (sectionEnd : Int) : List (Int × Int) :=
  let sorted := addresses.eraseDups.mergeSort (· ≤ ·)
  (sorted.zip (sorted.tail ++ [sectionEnd])).map fun (current, following) =>
    (current, max 0 (following - current))

/-- Gives every entry the size that follows from the addresses of all of them: inside the section
what is up to the next address, and none outside. -/
def assignGapSizes (entries : List RawSymbol) (sectionStart sectionEnd : Int) : List RawSymbol :=
  let sizes := gaps (entries.map RawSymbol.address) sectionEnd
  entries.map fun e => { e with
    size :=
      if sectionStart ≤ e.address ∧ e.address < sectionEnd then (sizes.lookup e.address).getD 0
      else 0 }

end Image

end CrateLedger
