import CrateLedger.Image.MachO
import CrateLedger.Proofs.Image.Bytes

/-!
# What Mach-O images hold

What a Mach-O image holds, apart from how wide its addresses are and in which order its bytes stand,
and what it means that some data is an image that holds this. Records may be anywhere in the data,
and what is not looked at may be anything.

One image for each contents and layout is written here, with its parts one behind the other.
-/

namespace CrateLedger.Image.MachO

open Bytes

/-! ## What images hold -/

/-- A load command. -/
inductive LoadCommand where
  /-- A segment and its sections. -/
  | segment (sections : List Section)
  /-- Where the symbols are. -/
  | symbols
  /-- Any other command, by its number. -/
  | other (kind : Nat)
  deriving DecidableEq

/-- The sections of a load command. -/
def LoadCommand.sections : LoadCommand → List Section
  | segment ss => ss
  | symbols => []
  | other _ => []

/-- A symbol. -/
structure Symbol where
  /-- The name as it is stored, if there is one. -/
  name : Option Text
  /-- Debugging bits, the kind, and visibility. -/
  type : UInt8
  /-- The ordinal of the section, from one. -/
  ordinal : UInt8
  /-- The address. -/
  value : Nat

/-- A name that fits the name field of a section record. -/
def IsFieldName (name : Text) : Prop := name.length ≤ 16 ∧ name.isAscii = true ∧ 0 ∉ name

instance (name : Text) : Decidable (IsFieldName name) := inferInstanceAs (Decidable (_ ∧ _ ∧ _))

/-- A section that images of either width have room for. -/
structure IsPlain (s : Section) : Prop where
  name : IsFieldName s.name
  segment : IsFieldName s.segment
  address : s.address < 2 ^ 32
  size : s.size < 2 ^ 32

instance (s : Section) : Decidable (IsPlain s) :=
  decidable_of_iff (IsFieldName s.name ∧ IsFieldName s.segment ∧ s.address < 2 ^ 32 ∧
    s.size < 2 ^ 32) ⟨fun h => ⟨h.1, h.2.1, h.2.2.1, h.2.2.2⟩, fun h => ⟨h.1, h.2, h.3, h.4⟩⟩

/-- What an image holds, with numbers that images of either width have room for. -/
structure Contents where
  /-- The load commands. -/
  commands : List LoadCommand
  symbols : List Symbol
  /-- The names of sections fit their fields, and their numbers have 32 bits. -/
  isPlain : ∀ c ∈ commands, ∀ s ∈ c.sections, IsPlain s
  /-- The names of symbols have no NUL, and are texts that UTF-8 can spell. -/
  symbolNames : ∀ s ∈ symbols, ∀ name ∈ s.name, 0 ∉ name ∧ name.hasSurrogate = false
  /-- Addresses of symbols are numbers of 32 bits. -/
  symbolValues : ∀ s ∈ symbols, s.value < 2 ^ 32

/-- All sections, in the order of their ordinals. -/
def Contents.sections (image : Contents) : List Section :=
  image.commands.flatMap LoadCommand.sections

/-! ## How images hold it -/

/-- The number that starts an image. -/
def Layout.magic (l : Layout) : Nat := if l.wide then magic64 else magic32

/-- The number of a load command. -/
def LoadCommand.kind (l : Layout) : LoadCommand → Nat
  | segment _ => l.segmentCommand
  | symbols => 2
  | other kind => kind

section Encoding

variable (l : Layout) (data : Bytes) (table : SymbolCommand)

/-- The record of a section stands at an offset. -/
structure SectionAt (offset : Nat) (s : Section) : Prop where
  /-- The names come first, then the address and the size. -/
  fields : StandsAt data offset (padded 16 s.name ++ (padded 16 s.segment
    ++ l.order.encodeAll [(l.addressWidth, s.address), (l.addressWidth, s.size)]))
  /-- The rest of the record is there. -/
  inside : offset + l.sectionSize ≤ data.size

/-- What a load command holds behind its number and size. -/
def LoadCommand.BodyAt (offset : Nat) : LoadCommand → Prop
  | segment ss => offset + l.segmentSize ≤ data.size ∧ ss.length < 2 ^ 32 ∧
      StandsAt data (offset + l.sectionCountAt) (l.order.encode 4 ss.length) ∧
      ∀ (i : Nat) (hi : i < ss.length),
        SectionAt l data (offset + l.segmentSize + i * l.sectionSize) ss[i]
  | symbols => StandsAt data (offset + 8) (l.order.encodeAll
      [(4, table.offset), (4, table.count), (4, table.stringOffset), (4, table.stringSize)])
  | other kind => kind < 2 ^ 32 ∧ kind ≠ l.segmentCommand ∧ kind ≠ 2

/-- Load commands stand one after the other from an offset on. The size of each says where the next
one is. -/
inductive CommandsAt : Nat → List LoadCommand → Prop where
  | nil {offset : Nat} : CommandsAt offset []
  | cons {offset size : Nat} {c : LoadCommand} {cs : List LoadCommand}
      (head : StandsAt data offset (l.order.encodeAll [(4, c.kind l), (4, size)]))
      (large : 8 ≤ size) (fits : size < 2 ^ 32) (body : c.BodyAt l data table offset)
      (rest : CommandsAt (offset + size) cs) : CommandsAt offset (c :: cs)

/-- The name of a symbol is stored at an offset of the string table, where a NUL or the end of the
table ends it. Offset zero stands for no name. -/
def NameAt (offset : Nat) : Option Text → Prop
  | none => offset = 0
  | some name => offset ≠ 0 ∧ offset < 2 ^ 32 ∧
      StandsAt data (table.stringOffset + offset) (Utf8.encode name) ∧
      offset + (Utf8.encode name).length ≤ table.stringSize ∧
      (offset + (Utf8.encode name).length = table.stringSize ∨
        data[table.stringOffset + offset + (Utf8.encode name).length]? = some 0)

/-- The record of a symbol stands at an offset. -/
def SymbolAt (offset : Nat) (s : Symbol) : Prop :=
  ∃ nameOffset description, NameAt data table nameOffset s.name ∧
    StandsAt data offset (l.order.encodeAll [(4, nameOffset), (1, s.type.toNat),
      (1, s.ordinal.toNat), (2, description), (l.addressWidth, s.value)])

/-- The data is an image of a layout that holds some contents. -/
structure Encodes (image : Contents) (commandsSize : Nat) : Prop where
  /-- The image starts with the number of its layout. -/
  magic : StandsAt data 0 (l.order.encode 4 l.magic)
  /-- The header says how many load commands there are and which size they have. -/
  header : StandsAt data 16
    (l.order.encodeAll [(4, image.commands.length), (4, commandsSize)])
  /-- This size does not pass the end of the file. -/
  inside : l.headerSize + commandsSize ≤ data.size
  /-- The load commands stand behind the header. -/
  commands : CommandsAt l data table l.headerSize image.commands
  /-- One of them says where the symbols are. -/
  symbols_mem : .symbols ∈ image.commands
  /-- The symbols are there. -/
  symbols : ∀ (i : Nat) (hi : i < image.symbols.length),
    SymbolAt l data table (table.offset + i * l.symbolSize) image.symbols[i]
  /-- All of them are in the table. -/
  count : table.count = image.symbols.length
  /-- The string table is part of the file. -/
  strings : table.stringOffset + table.stringSize ≤ data.size
  /-- The numbers in headers fit their fields. -/
  fits : image.commands.length < 2 ^ 32 ∧ commandsSize < 2 ^ 32 ∧ table.offset < 2 ^ 32 ∧
    table.count < 2 ^ 32 ∧ table.stringOffset < 2 ^ 32 ∧ table.stringSize < 2 ^ 32

end Encoding

/-! ## Layouts -/

namespace Layout

variable (l : Layout)

theorem addressWidth_eq : l.addressWidth = 4 ∨ l.addressWidth = 8 := by
  unfold addressWidth
  split
  · right; rfl
  · left; rfl

theorem headerSize_le : 28 ≤ l.headerSize := by
  unfold headerSize
  split <;> omega

theorem segmentSize_le : 56 ≤ l.segmentSize := by
  have := l.addressWidth_eq
  unfold segmentSize
  omega

theorem sectionSize_le : 32 + l.addressWidth + l.addressWidth ≤ l.sectionSize := by
  unfold sectionSize addressWidth
  split <;> omega

theorem sectionCountAt_le : l.sectionCountAt + 4 ≤ l.segmentSize := by
  unfold sectionCountAt segmentSize
  omega

theorem segmentCommand_lt : l.segmentCommand < 2 ^ 32 := by
  unfold segmentCommand
  split <;> decide

theorem segmentCommand_ne : l.segmentCommand ≠ 2 := by
  unfold segmentCommand
  split <;> decide

theorem lt_address {n : Nat} (h : n < 2 ^ 32) : n < 256 ^ l.addressWidth := by
  rcases l.addressWidth_eq with hw | hw
  · rw [hw]
    exact h
  · rw [hw]
    exact h.trans (by decide)

end Layout

/-! ## Writing images -/

section Writing

variable (l : Layout)

/-- The record of a section. -/
def sectionBytes (s : Section) : List UInt8 :=
  (padded 16 s.name ++ (padded 16 s.segment
    ++ l.order.encodeAll [(l.addressWidth, s.address), (l.addressWidth, s.size)]))
    ++ List.replicate (l.sectionSize - (32 + l.addressWidth + l.addressWidth)) 0

namespace LoadCommand

/-- The size of a load command that has nothing more than is looked at. -/
def size : LoadCommand → Nat
  | segment ss => l.segmentSize + ss.length * l.sectionSize
  | symbols => 24
  | other _ => 8

/-- What a load command holds behind its number and size. -/
def bodyBytes (table : SymbolCommand) : LoadCommand → List UInt8
  | segment ss => List.replicate (l.sectionCountAt - 8) 0 ++ (l.order.encode 4 ss.length
      ++ (List.replicate 4 0 ++ ss.flatMap (sectionBytes l)))
  | symbols => l.order.encodeAll
      [(4, table.offset), (4, table.count), (4, table.stringOffset), (4, table.stringSize)]
  | other _ => []

/-- A load command. -/
def bytes (table : SymbolCommand) (c : LoadCommand) : List UInt8 :=
  l.order.encodeAll [(4, c.kind l), (4, c.size l)] ++ c.bodyBytes l table

end LoadCommand

/-- The names of symbols, each with a NUL behind it. -/
def nameBytes (s : Symbol) : List UInt8 :=
  match s.name with
  | none => []
  | some name => Utf8.encode name ++ [0]

/-- The record of a symbol whose name, if it has any, is at an offset of the string table. -/
def recordBytes (nameOffset : Nat) (s : Symbol) : List UInt8 :=
  l.order.encodeAll [(4, if s.name.isSome then nameOffset else 0), (1, s.type.toNat),
    (1, s.ordinal.toNat), (2, 0), (l.addressWidth, s.value)]

/-- The records of symbols whose names stand one behind the other from an offset of the string
table on. -/
def symbolBytes (nameOffset : Nat) : List Symbol → List UInt8
  | [] => []
  | s :: rest =>
    recordBytes l nameOffset s ++ symbolBytes (nameOffset + (nameBytes s).length) rest

namespace Contents

variable (image : Contents)

/-- The size of all load commands. -/
def commandsSize : Nat := (image.commands.map (LoadCommand.size l)).sum

/-- The string table. It starts with a NUL, so that no name has offset zero. -/
def strings : List UInt8 := 0 :: image.symbols.flatMap nameBytes

/-- Where symbols and strings are: behind the load commands. -/
def table : SymbolCommand where
  offset := l.headerSize + image.commandsSize l
  count := image.symbols.length
  stringOffset := l.headerSize + image.commandsSize l + image.symbols.length * l.symbolSize
  stringSize := image.strings.length

/-- The file header. -/
def headerBytes : List UInt8 :=
  l.order.encode 4 l.magic ++ (List.replicate 12 0 ++ (l.order.encodeAll
    [(4, image.commands.length), (4, image.commandsSize l)]
      ++ List.replicate (l.headerSize - 24) 0))

/-- An image of a layout. -/
def write : Bytes :=
  (image.headerBytes l ++ (image.commands.flatMap (LoadCommand.bytes l (image.table l))
    ++ (symbolBytes l 1 image.symbols ++ image.strings))).toArray

end Contents

end Writing

/-! ## What is written is an image -/

variable {l : Layout} {data : Bytes} {table : SymbolCommand} {offset : Nat} {image : Contents}

theorem length_sectionBytes {s : Section} (h : IsPlain s) :
    (sectionBytes l s).length = l.sectionSize := by
  have hsize := l.sectionSize_le
  simp only [sectionBytes, List.length_append, length_padded h.name.1, length_padded h.segment.1,
    ByteOrder.length_encodeAll, List.length_replicate, List.map_cons, List.map_nil, List.sum_cons,
    List.sum_nil]
  omega

theorem sectionAt_of_bytes {s : Section} (h : IsPlain s)
    (hstands : StandsAt data offset (sectionBytes l s)) : SectionAt l data offset s := by
  have hsize := l.sectionSize_le
  have hinside := hstands.end_le (by rw [length_sectionBytes h]; omega)
  rw [length_sectionBytes h] at hinside
  exact ⟨hstands.left, hinside⟩

namespace LoadCommand

variable {c : LoadCommand}

theorem length_bytes (h : ∀ s ∈ c.sections, IsPlain s) :
    (c.bytes l table).length = c.size l := by
  unfold bytes bodyBytes size
  cases c with
  | segment ss =>
    have hwidth := l.segmentSize_le
    have hsections : ∀ s ∈ ss, (sectionBytes l s).length = l.sectionSize :=
      fun s hs => length_sectionBytes (h s hs)
    simp only [List.length_append, ByteOrder.length_encode, ByteOrder.length_encodeAll,
      List.map_cons, List.map_nil, List.sum_cons, List.sum_nil, List.length_replicate,
      length_flatMap_of_length hsections, Layout.sectionCountAt]
    omega
  | symbols => simp
  | other kind => simp

theorem bodyAt_of_bytes (hplain : ∀ s ∈ c.sections, IsPlain s)
    (hkind : ∀ kind, c = .other kind → kind < 2 ^ 32 ∧ kind ≠ l.segmentCommand ∧ kind ≠ 2)
    (hsize : data.size < 2 ^ 32) (h : StandsAt data offset (c.bytes l table)) :
    c.BodyAt l data table offset := by
  have hbody : StandsAt data (offset + 8) (c.bodyBytes l table) := by
    simpa using h.right
  have hinside := h.end_le (by simp [bytes])
  rw [length_bytes hplain] at hinside
  cases c with
  | segment ss =>
    have hwidth := l.segmentSize_le
    have hpositive := l.sectionSize_le
    have hcount := hbody.right.left
    have hsections := hbody.right.right.right
    have hmul : ss.length ≤ ss.length * l.sectionSize := Nat.le_mul_of_pos_right _ (by omega)
    rw [List.length_replicate] at hcount hsections
    rw [List.length_replicate, ByteOrder.length_encode] at hsections
    have hcountAt : offset + 8 + (l.sectionCountAt - 8) = offset + l.sectionCountAt := by
      unfold Layout.sectionCountAt
      omega
    have hsectionsAt : offset + 8 + (l.sectionCountAt - 8) + 4 + 4
        = offset + l.segmentSize := by
      unfold Layout.sectionCountAt
      omega
    rw [hcountAt] at hcount
    rw [hsectionsAt] at hsections
    simp only [size] at hinside
    refine ⟨by omega, by omega, hcount, ?_⟩
    intro i hi
    have hmem : ss[i] ∈ ss := List.getElem_mem hi
    exact sectionAt_of_bytes (hplain _ hmem)
      (hsections.getElem_flatMap (fun s hs => length_sectionBytes (hplain s hs)) hi)
  | symbols => exact hbody
  | other kind => exact hkind kind rfl

theorem size_large (c : LoadCommand) : 8 ≤ c.size l := by
  have hwidth := l.segmentSize_le
  cases c with
  | segment ss =>
    simp only [size]
    omega
  | symbols => simp [size]
  | other kind => simp [size]

end LoadCommand

/-- The load commands that are written stand one after the other. -/
theorem commandsAt_of_bytes {cs : List LoadCommand}
    (hplain : ∀ c ∈ cs, ∀ s ∈ c.sections, IsPlain s)
    (hkinds : ∀ kind, .other kind ∈ cs → kind < 2 ^ 32 ∧ kind ≠ l.segmentCommand ∧ kind ≠ 2)
    (hsize : data.size < 2 ^ 32)
    (h : StandsAt data offset (cs.flatMap (LoadCommand.bytes l table))) :
    CommandsAt l data table offset cs := by
  induction cs generalizing offset with
  | nil => exact .nil
  | cons c cs ih =>
    have hlength : (c.bytes l table).length = c.size l :=
      LoadCommand.length_bytes (hplain c List.mem_cons_self)
    rw [List.flatMap_cons] at h
    have hrest := h.right
    have hinside := h.left.end_le (by simp [LoadCommand.bytes])
    rw [hlength] at hrest hinside
    refine .cons h.left.left c.size_large (by omega) ?_ (ih ?_ ?_ hrest)
    · apply LoadCommand.bodyAt_of_bytes (hplain c List.mem_cons_self) ?_ hsize h.left
      rintro kind rfl
      exact hkinds kind List.mem_cons_self
    · intro d hd
      exact hplain d (List.mem_cons_of_mem _ hd)
    · intro kind hkind
      exact hkinds kind (List.mem_cons_of_mem _ hkind)

@[simp] theorem length_recordBytes (nameOffset : Nat) (s : Symbol) :
    (recordBytes l nameOffset s).length = l.symbolSize := by
  simp only [recordBytes, ByteOrder.length_encodeAll, List.map_cons, List.map_nil, List.sum_cons,
    List.sum_nil, Layout.symbolSize]
  omega

theorem length_symbolBytes (nameOffset : Nat) (ss : List Symbol) :
    (symbolBytes l nameOffset ss).length = ss.length * l.symbolSize := by
  induction ss generalizing nameOffset with
  | nil => simp [symbolBytes]
  | cons s ss ih =>
    rw [symbolBytes, List.length_append, length_recordBytes, ih, List.length_cons, Nat.succ_mul,
      Nat.add_comm]

theorem nameAt_of_bytes {s : Symbol} {nameOffset : Nat}
    (h : StandsAt data (table.stringOffset + nameOffset) (nameBytes s)) (hpos : nameOffset ≠ 0)
    (hend : nameOffset + (nameBytes s).length ≤ table.stringSize)
    (hfit : table.stringSize < 2 ^ 32) :
    NameAt data table (if s.name.isSome then nameOffset else 0) s.name := by
  unfold nameBytes at h hend
  cases hname : s.name with
  | none => rfl
  | some name =>
    simp only [hname, List.length_append, List.length_singleton] at h hend
    rw [Option.isSome_some, if_pos rfl]
    refine ⟨hpos, by omega, h.left, by omega, .inr ?_⟩
    exact (standsAt_cons.1 h.right).1

/-- The symbols that are written stand in their table, and their names in the string table. -/
theorem symbolAt_of_bytes {nameOffset : Nat} {ss : List Symbol}
    (h : StandsAt data offset (symbolBytes l nameOffset ss))
    (hstrings : StandsAt data (table.stringOffset + nameOffset) (ss.flatMap nameBytes))
    (hpos : nameOffset ≠ 0)
    (hend : nameOffset + (ss.flatMap nameBytes).length ≤ table.stringSize)
    (hfit : table.stringSize < 2 ^ 32) {i : Nat} (hi : i < ss.length) :
    SymbolAt l data table (offset + i * l.symbolSize) ss[i] := by
  induction ss generalizing offset nameOffset i with
  | nil => cases hi
  | cons s ss ih =>
    rw [List.flatMap_cons] at hstrings hend
    rw [List.length_append] at hend
    rw [symbolBytes] at h
    cases i with
    | zero =>
      rw [Nat.zero_mul, Nat.add_zero]
      have hname := nameAt_of_bytes hstrings.left hpos (by omega) hfit
      exact ⟨_, 0, hname, h.left⟩
    | succ i =>
      have hrest := h.right
      have hnames := hstrings.right
      rw [length_recordBytes] at hrest
      rw [Nat.add_assoc] at hnames
      have hplace := ih hrest hnames (by omega) (by omega) (Nat.lt_of_succ_lt_succ hi)
      rw [Nat.succ_mul, Nat.add_comm (i * l.symbolSize), ← Nat.add_assoc]
      exact hplace

theorem length_flatMap_bytes {cs : List LoadCommand}
    (h : ∀ c ∈ cs, ∀ s ∈ c.sections, IsPlain s) :
    (cs.flatMap (LoadCommand.bytes l table)).length = (cs.map (LoadCommand.size l)).sum := by
  induction cs with
  | nil => rfl
  | cons c cs ih =>
    rw [List.flatMap_cons, List.length_append, LoadCommand.length_bytes (h c List.mem_cons_self),
      ih fun d hd => h d (List.mem_cons_of_mem _ hd), List.map_cons, List.sum_cons]

/-- Every contents has an image of every layout, unless it is too large for its own numbers or has a
command that the layout takes for something else. -/
theorem encodes_write (hsymbols : .symbols ∈ image.commands)
    (hkinds : ∀ kind, .other kind ∈ image.commands →
      kind < 2 ^ 32 ∧ kind ≠ l.segmentCommand ∧ kind ≠ 2)
    (hsize : (image.write l).size < 2 ^ 32) :
    Encodes l (image.write l) (image.table l) image (image.commandsSize l) := by
  have hheader : (image.headerBytes l).length = l.headerSize := by
    have hwidth := l.headerSize_le
    simp only [Contents.headerBytes, List.length_append, ByteOrder.length_encode,
      ByteOrder.length_encodeAll, List.map_cons, List.map_nil, List.sum_cons, List.sum_nil,
      List.length_replicate]
    omega
  have hcommands : (image.commands.flatMap (LoadCommand.bytes l (image.table l))).length
      = image.commandsSize l := length_flatMap_bytes image.isPlain
  have hall : StandsAt (image.write l) 0 (image.headerBytes l
      ++ (image.commands.flatMap (LoadCommand.bytes l (image.table l))
        ++ (symbolBytes l 1 image.symbols ++ image.strings))) := by
    unfold Contents.write StandsAt
    simp
  have hcounts := hall.left.right.right.left
  have hcommandsAt := hall.right.left
  have hsymbolsAt := hall.right.right.left
  have hstringsAt := hall.right.right.right
  have hwhole := hall.le_size (Nat.zero_le _)
  simp only [List.length_append, hheader, hcommands, length_symbolBytes, Nat.zero_add,
    ByteOrder.length_encode, List.length_replicate]
    at hcounts hcommandsAt hsymbolsAt hstringsAt hwhole
  -- No command and no symbol is empty, so their numbers fit where their sizes do.
  have hcount : image.commands.length ≤ image.commandsSize l := by
    have hsum := List.length_le_sum_of_one_le (image.commands.map (LoadCommand.size l)) (by
      intro n hn
      obtain ⟨c, -, rfl⟩ := List.mem_map.1 hn
      have := c.size_large (l := l)
      omega)
    rwa [List.length_map] at hsum
  have hrecords : image.symbols.length ≤ image.symbols.length * l.symbolSize := by
    apply Nat.le_mul_of_pos_right
    unfold Layout.symbolSize
    omega
  have hfit : image.strings.length < 2 ^ 32 := by omega
  refine ⟨hall.left.left, hcounts, by omega, ?_, hsymbols, ?_, rfl, ?_, ?_⟩
  · exact commandsAt_of_bytes image.isPlain hkinds hsize hcommandsAt
  · intro i hi
    refine symbolAt_of_bytes hsymbolsAt ?_ (by decide) ?_ hfit hi
    · exact (standsAt_cons.1 hstringsAt).2
    · simp only [Contents.table, Contents.strings, List.length_cons]
      omega
  · simp only [Contents.table]
    omega
  · simp only [Contents.table]
    omega

end CrateLedger.Image.MachO
