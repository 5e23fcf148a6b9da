import CrateLedger.Image.Elf
import CrateLedger.Image.MachO
import CrateLedger.Image.Pdb

/-!
# Containers

Which format an image has, by the bytes that it starts with, and reading its symbols accordingly.
No two signatures fit the same data.
-/

namespace CrateLedger.Image

/-- The starts of archives of images for several architectures. -/
def universalMagics : List (List UInt8) := [[0xCA, 0xFE, 0xBA, 0xBE], [0xBE, 0xBA, 0xFE, 0xCA]]

/-- What the start of an image announces. -/
inductive Signature where
  | pdb
  | elf
  /-- A Mach-O image, whose first bytes also give its width and byte order. -/
  | machO (layout : MachO.Layout)
  | pe
  deriving DecidableEq, Repr

/-- The format of a signature. -/
def Signature.format : Signature → Format
  | pdb => .pdb
  | elf => .elf
  | machO _ => .machO
  | pe => .pe

/-- The signature of an image. -/
def detect (data : Bytes) : Except ReadError Signature :=
  if Pdb.isFile data then .ok .pdb
  else if Elf.isImage data then .ok .elf
  else
    match MachO.layout? data with
    | some layout => .ok (.machO layout)
    | none =>
      if Coff.isImage data then .ok .pe
      else
        let leading := (data.slice 0 4).toList
        .error (.unsupported
          (if leading ∈ universalMagics then .universal else .unrecognised leading))

/-- Reads the symbols of a section from an image of any format. A PDB needs the executable that it
belongs to as a companion; other formats need none and do not look at it. -/
def read (source : Source) (wanted : Value) (companion : Option Bytes) :
    Except ReadError Reading := do
  match ← detect source.data with
  | .pdb => Pdb.read source.data companion wanted
  | .elf => Elf.read source wanted
  | .machO layout => MachO.read layout source.data wanted
  | .pe => Coff.read source.data wanted

/-- Reads the symbols of a section of an executable from its PDB. -/
def readPdb (debugSymbols executable : Bytes) (wanted : Value) : Except ReadError Reading :=
  if Pdb.isFile debugSymbols then Pdb.read debugSymbols (some executable) wanted
  else .error (.unsupported .debugSymbolsFormat)

end CrateLedger.Image
