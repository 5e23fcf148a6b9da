import CrateLedger.Image.Pdb
import CrateLedger.Proofs.Image.CodeView
import CrateLedger.Proofs.Image.Msf

/-!
# What PDB files hold

The debug information of a program, the bytes of its parts, and in which streams of a file they are.
Fields and parts that nothing looks at may hold anything.
-/

namespace CrateLedger.Image.Pdb

open Bytes ByteOrder

/-! ## Section headers -/

/-- A section header. -/
structure SectionHeader where
  /-- The eight bytes of the name. -/
  nameField : List UInt8
  length_nameField : nameField.length = 8
  /-- The size of the section in memory. -/
  virtualSize : UInt32
  /-- Where the section starts in memory. -/
  virtualAddress : UInt32
  /-- What is not looked at. -/
  rest : Nat

namespace SectionHeader

/-- The record of a section header. -/
def bytes (s : SectionHeader) : List UInt8 :=
  s.nameField ++ little.encodeAll
    [(4, s.virtualSize.toNat), (4, s.virtualAddress.toNat), (24, s.rest)]

/-- The section that a header describes. -/
def toSection (s : SectionHeader) : Coff.Section :=
  ⟨paddedName s.nameField.toArray, s.virtualSize.toNat, s.virtualAddress.toNat⟩

theorem length_bytes (s : SectionHeader) : s.bytes.length = Coff.sectionHeaderSize := by
  rw [bytes, List.length_append, length_encodeAll, s.length_nameField]
  rfl

end SectionHeader

/-! ## Modules -/

/-- A module: its record in the list of modules, and the symbols in its stream if it has any. -/
structure ModuleInfo where
  /-- What stands before the number of the stream and is not looked at. -/
  front : Nat
  /-- The number of the stream. -/
  stream : UInt16
  /-- The size of the symbols, with the signature before them. -/
  size : UInt32
  /-- What stands behind the size and is not looked at. -/
  back : Nat
  /-- The bytes of the name, without NUL. -/
  name : List UInt8
  /-- The bytes of the name of the object file, without NUL. -/
  object : List UInt8
  /-- What fills the record up to a multiple of four bytes. -/
  padding : List UInt8
  /-- The four bytes before the symbols. -/
  signature : Nat
  symbols : List CodeView.Symbol
  /-- What stands behind the symbols in the stream. -/
  lines : List UInt8
  zero_notMem_name : 0 ∉ name
  zero_notMem_object : 0 ∉ object
  length_padding : padding.length < 4
  aligned : 4 ∣ name.length + object.length + 2 + padding.length

namespace ModuleInfo

/-- The record of a module. -/
def bytes (m : ModuleInfo) : List UInt8 :=
  little.encodeAll [(34, m.front), (2, m.stream.toNat), (4, m.size.toNat), (24, m.back)]
    ++ (m.name ++ 0 :: (m.object ++ 0 :: m.padding))

/-- The content of the stream of a module. -/
def streamBytes (m : ModuleInfo) : List UInt8 :=
  little.encode 4 m.signature ++ (m.symbols.flatMap CodeView.Symbol.bytes ++ m.lines)

/-- A module has a stream, and symbols in it. -/
def HasSymbols (m : ModuleInfo) : Prop := m.stream.toNat ≠ nilStream ∧ m.size.toNat ≠ 0

instance (m : ModuleInfo) : Decidable m.HasSymbols := inferInstanceAs (Decidable (_ ∧ _))

theorem length_bytes (m : ModuleInfo) : m.bytes.length
    = headerSize + (m.name.length + m.object.length + 2 + m.padding.length) := by
  simp only [bytes, List.length_append, length_encodeAll, List.length_cons, List.map_cons,
    List.map_nil, List.sum_cons, List.sum_nil, headerSize]
  omega

end ModuleInfo

/-! ## Debug information -/

/-- The stream of debug information. -/
structure DebugInfo where
  /-- What stands at the start of the header and is not looked at. -/
  front : Nat
  /-- The number of the stream of public symbols. -/
  publicStream : UInt16
  /-- What stands behind this number and is not looked at. -/
  version : Nat
  modules : List ModuleInfo
  /-- The parts between the modules and the optional streams, in the order of their sizes in the
  header. -/
  contributions : List UInt8
  sectionMap : List UInt8
  sources : List UInt8
  typeServers : List UInt8
  editing : List UInt8
  /-- What stands between the sizes and is not looked at. -/
  typeServerMap : Nat
  /-- The numbers of the optional streams. -/
  optional : List UInt16
  /-- What stands at the end of the header and is not looked at. -/
  back : Nat
  /-- What stands behind all parts. -/
  rest : List UInt8
  length_modules : (modules.flatMap ModuleInfo.bytes).length < 2 ^ 31
  length_between : ∀ part ∈ [contributions, sectionMap, sources, typeServers, editing],
    part.length < 2 ^ 31
  length_optional : 6 ≤ optional.length ∧ 2 * optional.length < 2 ^ 31

namespace DebugInfo

variable (d : DebugInfo)

/-- The list of modules. -/
def moduleBytes : List UInt8 := d.modules.flatMap ModuleInfo.bytes

/-- The list of optional streams. -/
def optionalBytes : List UInt8 := d.optional.flatMap fun n => little.encode 2 n.toNat

/-- The numbers of the header, each with its width. -/
def headerFields : List (Nat × Nat) := [(20, d.front), (2, d.publicStream.toNat), (2, d.version),
  (4, d.moduleBytes.length), (4, d.contributions.length), (4, d.sectionMap.length),
  (4, d.sources.length), (4, d.typeServers.length), (4, d.typeServerMap),
  (4, 2 * d.optional.length), (4, d.editing.length), (8, d.back)]

/-- The content of the stream. -/
def bytes : List UInt8 :=
  little.encodeAll d.headerFields ++ (d.moduleBytes ++ ((d.contributions ++ d.sectionMap
    ++ d.sources ++ d.typeServers ++ d.editing) ++ (d.optionalBytes ++ d.rest)))

theorem sectionHeaderEntry_lt : sectionHeaderEntry < d.optional.length := d.length_optional.1

/-- The number of the stream of section headers. -/
def headerStream : Nat := (d.optional.get ⟨sectionHeaderEntry, d.sectionHeaderEntry_lt⟩).toNat

end DebugInfo

/-! ## Files -/

/-- A stream of some number has some content. -/
def HasStream (streams : List Msf.Stored) (number : Nat) (content : List UInt8) : Prop :=
  streams[number]?.map Msf.Stored.content = some content

instance (streams : List Msf.Stored) (number : Nat) (content : List UInt8) :
    Decidable (HasStream streams number content) := inferInstanceAs (Decidable (_ = _))

/-- What a file says about a program. -/
structure Database where
  /-- The debug information. -/
  info : DebugInfo
  /-- The section headers. -/
  headers : List SectionHeader
  /-- What stands behind them and is too short for one more. -/
  headersRest : List UInt8
  /-- The public symbols. -/
  publics : List CodeView.Symbol
  length_headersRest : headersRest.length < Coff.sectionHeaderSize

namespace Database

/-- The sections of the program. -/
def sections (db : Database) : List Coff.Section := db.headers.map SectionHeader.toSection

/-- The streams of a file hold this. A file without public symbols has no stream for them, and the
stream of a module without symbols may be anything. -/
structure StoredIn (db : Database) (streams : List Msf.Stored) : Prop where
  info : HasStream streams 3 db.info.bytes
  headerStream_ne : db.info.headerStream ≠ nilStream
  headers : HasStream streams db.info.headerStream
    (db.headers.flatMap SectionHeader.bytes ++ db.headersRest)
  publics_nil : db.info.publicStream.toNat = nilStream → db.publics = []
  publics : db.info.publicStream.toNat ≠ nilStream →
    HasStream streams db.info.publicStream.toNat (db.publics.flatMap CodeView.Symbol.bytes)
  publics_fit : ∀ s ∈ db.publics, s.Fits
  modules : ∀ m ∈ db.info.modules, m.HasSymbols → HasStream streams m.stream.toNat m.streamBytes
  sizes : ∀ m ∈ db.info.modules, m.HasSymbols →
    m.size.toNat = 4 + (m.symbols.flatMap CodeView.Symbol.bytes).length
  modules_fit : ∀ m ∈ db.info.modules, m.HasSymbols → ∀ s ∈ m.symbols, s.Fits

end Database

end CrateLedger.Image.Pdb
