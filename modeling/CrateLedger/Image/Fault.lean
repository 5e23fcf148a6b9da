import CrateLedger.Value

/-!
# What can be wrong with an image

A binary image is read by one of four container formats. Reading it fails if no format recognises
it, if the structure that the format prescribes is broken, or if the wanted section is missing.
-/

namespace CrateLedger.Image

/-- The container formats. -/
inductive Format where
  | pdb
  | elf
  | machO
  | pe
  deriving DecidableEq, Repr

/-- The name of a format. -/
def Format.name : Format → Text
  | pdb => "PDB"
  | elf => "ELF"
  | machO => "Mach-O"
  | pe => "PE"

/-- A broken structure inside a container. -/
inductive Fault where
  /-- A record that is not wholly inside the data. -/
  | recordOutside (size : Nat) (offset : Int) (available : Nat)
  /-- A string that starts outside the data. -/
  | stringOutside (offset : Int)
  /-- Load commands that extend past the end of the file. -/
  | loadCommandsOutside
  /-- A load command that is too small to hold its own size. -/
  | loadCommandSize (offset size : Nat)
  /-- The PE signature is not where the header says. -/
  | signatureMissing (offset : Nat)
  /-- A block size that the multi-stream format does not allow. -/
  | blockSize (size : Nat)
  /-- A block number beyond the declared blocks or the end of the file. -/
  | blockOutside (block : Nat)
  /-- A stream number that is not in the directory. -/
  | streamMissing (index : Int)
  /-- A symbol record that is too short to hold its own kind. -/
  | recordLength (offset length : Nat)
  /-- Debug information that does not say where the section headers are. -/
  | sectionHeadersMissing
  /-- A class or byte order that the ELF identification does not know. -/
  | identification (value : Nat)
  /-- Section headers that are smaller than the class prescribes. -/
  | sectionHeaderSize (size : Nat)
  /-- A symbol table that is linked to a section that holds no strings. -/
  | stringTableLink (index : Nat)
  /-- A symbol table whose size is no multiple of its entry size. -/
  | symbolEntrySize (size : Nat)
  /-- An offset behind the end of a file that is read from disk. -/
  | seekOutside (offset : Nat)
  deriving DecidableEq, Repr

namespace Fault

/-- The wording of a fault. -/
def message : Fault → Text
  | recordOutside size offset available =>
    "read of " ++ Numeral.decimal size ++ " bytes at offset " ++ Numeral.signedHex offset
      ++ " exceeds file size " ++ Numeral.signedHex available
  | stringOutside offset => "string offset " ++ Numeral.signedHex offset ++ " out of bounds"
  | loadCommandsOutside => "load commands extend past end of file"
  | loadCommandSize offset size =>
    "load command at " ++ Numeral.signedHex offset ++ " has size " ++ Numeral.decimal size
  | signatureMissing offset => "missing PE signature at " ++ Numeral.signedHex offset
  | blockSize size => "invalid block size " ++ Numeral.decimal size
  | blockOutside block => "block " ++ Numeral.decimal block ++ " out of range"
  | streamMissing index => "stream " ++ Numeral.signedDecimal index ++ " does not exist"
  | recordLength offset length =>
    "symbol record at " ++ Numeral.signedHex offset ++ " has length " ++ Numeral.decimal length
  | sectionHeadersMissing => "DBI stream has no section header stream"
  | identification value => "unknown identification byte " ++ Numeral.decimal value
  | sectionHeaderSize size => "section header size " ++ Numeral.decimal size ++ " too small"
  | stringTableLink index => "section " ++ Numeral.decimal index ++ " is no string table"
  | symbolEntrySize size => "invalid symbol entry size " ++ Numeral.decimal size
  | seekOutside offset => "offset " ++ Numeral.signedHex offset ++ " behind end of file"

end Fault

/-- Why no format can read an image. -/
inductive Unsupported where
  /-- An archive of images for several architectures. -/
  | universal
  /-- No signature fits; the bytes that the image starts with. -/
  | unrecognised (leading : List UInt8)
  /-- A PDB on its own. -/
  | executableMissing
  /-- A PDB beside something that is no PE image. -/
  | executableFormat
  /-- Debug symbols beside an executable that are no PDB. -/
  | debugSymbolsFormat
  deriving DecidableEq, Repr

namespace Unsupported

/-- Bytes in hexadecimal, or a word for none. -/
def shownBytes (bytes : List UInt8) : Text :=
  if bytes.isEmpty then "<empty>" else bytes.flatMap fun b => Numeral.paddedHex 2 b.toNat

/-- The wording of a reason. -/
def message : Unsupported → Text
  | universal =>
    "Universal (fat) Mach-O images are not supported; extract a single architecture first"
  | unrecognised leading =>
    "Unrecognized binary format (leading bytes: " ++ shownBytes leading ++ ")"
  | executableMissing =>
    "PDB files contain no code; analyze the executable and pass the PDB alongside it"
  | executableFormat => "The executable paired with a PDB must be a PE image"
  | debugSymbolsFormat => "Debug companion is not an MSF 7.00 PDB file"

end Unsupported

/-- Why the symbols of an image cannot be read. -/
inductive ReadError where
  /-- No format can read it. -/
  | unsupported (reason : Unsupported)
  /-- A format recognises it and finds a broken structure. -/
  | malformed (format : Format) (fault : Fault)
  /-- The wanted section is missing; the sections that there are. -/
  | sectionMissing (wanted : Value) (available : List Text)
  /-- A Mach-O section is selected by something that is no text. -/
  | selectorNotText (selector : Value)
  /-- An offset that does not fit a signed 64-bit word. -/
  | offsetTooLarge (offset : Nat)
  /-- A name in the module list that runs past the end of its stream. -/
  | moduleNameOutside
  deriving DecidableEq

namespace ReadError

/-- The wording of a fault in a container whose format has a name. -/
def malformedMessage (format : Text) (fault : Fault) : Text :=
  "Malformed " ++ format ++ " container: " ++ fault.message

/-- The wording of an error. -/
def message : ReadError → Text
  | unsupported reason => reason.message
  | malformed format fault => malformedMessage format.name fault
  | sectionMissing wanted available =>
    let others : Text :=
      if available.isEmpty then [] else " (available: " ++ Text.join ", " available ++ ")"
    "Section '" ++ wanted.shown ++ "' not found" ++ others
  | selectorNotText selector => "Section selector " ++ selector.quoted ++ " is no text"
  | offsetTooLarge offset => "Offset " ++ Numeral.signedHex offset ++ " does not fit 64 bits"
  | moduleNameOutside => "Module name runs past the end of the DBI stream"

end ReadError

/-- Puts the name of a format to a fault. -/
def within {α : Type} (format : Format) : Except Fault α → Except ReadError α
  | .ok a => .ok a
  | .error fault => .error (.malformed format fault)

end CrateLedger.Image
