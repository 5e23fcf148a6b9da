import CrateLedger.Image.Container
import CrateLedger.Proofs.Image.Elf.Selection
import CrateLedger.Proofs.Image.Elf.Writing
import CrateLedger.Proofs.Text.Utf8

/-!
# ELF images of either class and byte order

Main statement: reading an image gives the functions and data objects of the first section of a
name. All images of the same contents give the same symbols, whatever their class and byte order.
-/

namespace CrateLedger.Image.Elf

open Bytes

variable {l : Layout} {data : Bytes} {source : Source} {headers : List SectionHeader}
  {place : Header} {image : Contents} {offset : Nat}

/-! ## Access -/

theorem seek_eq (h : offset < 2 ^ 63) (hin : offset ≤ source.data.size) :
    seek source offset = .ok () := by
  unfold seek
  rw [if_neg (by omega), if_neg (by omega)]

theorem recordAt_eq {size : Nat} (hsize : source.data.size ≤ 2 ^ 63) (hpos : 0 < size)
    (h : offset + size ≤ source.data.size) :
    recordAt source offset size = .ok (source.data.slice offset size) := by
  unfold recordAt
  rw [seek_eq (by omega) (by omega), record_eq h]
  rfl

theorem nameAt_eq {name : Text} (hsize : source.data.size ≤ 2 ^ 63)
    (h : NameAt source.data offset name) : nameAt source offset = .ok name := by
  have hend := h.stands.end_le (by simp)
  rw [List.length_append, List.length_singleton] at hend
  have hnul : source.data[offset + (Utf8.encode name).length]? = some 0 :=
    (standsAt_cons.1 h.stands.right).1
  have huntil : source.data.untilNul offset source.data.size = Utf8.encode name :=
    untilNul_of_standsAt h.stands.left (Utf8.zero_notMem_encode h.storable.1) (by omega) (.inr hnul)
  unfold nameAt
  rw [seek_eq (by omega) (by omega)]
  refine bind_eq_ok.2 ⟨(), rfl, ?_⟩
  dsimp only
  rw [huntil, if_pos hnul, Utf8.decodeTolerant_encode h.storable.2]
  rfl

/-! ## Records

The identification, the headers and symbols: each record that stands in the data is read. -/

theorem layout_eq (h : StandsAt data 0 (magic ++ l.identification)) : layout data = .ok l := by
  have hbytes := h.right
  have hinside := hbytes.end_le (by simp [Layout.identification])
  have hslice : data.slice 4 2 = l.identification.toArray := slice_of_standsAt hbytes
  have hrecord : data.record 4 2 = .ok l.identification.toArray := by
    rw [← hslice]
    exact record_eq hinside
  unfold layout
  refine bind_eq_ok.2 ⟨_, hrecord, ?_⟩
  rcases l with ⟨_ | _, _ | _⟩ <;> decide +kernel

theorem header_eq (hsize : source.data.size ≤ 2 ^ 63)
    (h : FieldsAt l.order source.data 16 (place.fields l)) : header source l = .ok place := by
  have hwidths := place.fields_widths (l := l)
  have hinside : 0 + l.headerSize ≤ source.data.size := by
    rw [Nat.zero_add, ← hwidths]
    exact h.inside
  have hnumber := @FieldsAt.number l.order source.data 0 _ 16 _ (by rwa [Nat.zero_add]) hwidths.le
  unfold header
  refine bind_eq_ok.2 ⟨_, recordAt_eq hsize l.headerSize_pos hinside, congrArg Except.ok ?_⟩
  obtain ⟨sectionOffset, entrySize, sectionCount, nameTable⟩ := place
  rw [Header.mk.injEq]
  rcases l with ⟨order, _ | _⟩ <;>
    exact ⟨hnumber 5 rfl (by simp [Header.fields, Layout.wordSize]),
      hnumber 10 rfl (by simp [Header.fields, Layout.wordSize]),
      hnumber 11 rfl (by simp [Header.fields, Layout.wordSize]),
      hnumber 12 rfl (by simp [Header.fields, Layout.wordSize])⟩

theorem sectionHeader_eq {i : File} {index : Nat} {h : SectionHeader}
    (hpresent : i.layout.sectionHeaderSize ≤ i.header.entrySize)
    (hfields : FieldsAt i.layout.order i.source.data
      (i.header.sectionOffset + index * i.header.entrySize) (h.fields i.layout)) :
    i.sectionHeader index = .ok h := by
  obtain ⟨source, l, place⟩ := i
  obtain ⟨hinside, hnumber⟩ := hfields.record h.fields_widths
  unfold File.sectionHeader
  dsimp only at hpresent ⊢
  rw [if_neg (by omega), record_eq hinside]
  refine bind_eq_ok.2 ⟨_, rfl, congrArg Except.ok ?_⟩
  obtain ⟨nameOffset, type, flags, offset, size, link, entrySize⟩ := h
  rw [SectionHeader.mk.injEq]
  rcases l with ⟨order, _ | _⟩ <;>
    exact ⟨hnumber 0 rfl (by simp),
      hnumber 1 rfl (by simp [SectionHeader.fields]),
      hnumber 2 rfl (by simp [SectionHeader.fields]),
      hnumber 4 rfl (by simp [SectionHeader.fields, Layout.wordSize]),
      hnumber 5 rfl (by simp [SectionHeader.fields, Layout.wordSize]),
      hnumber 6 rfl (by simp [SectionHeader.fields, Layout.wordSize]),
      hnumber 9 rfl (by simp [SectionHeader.fields, Layout.wordSize])⟩

theorem symbolAt_eq {i : File} {table strings : SectionHeader} {index : Nat} {s : File.Symbol}
    (hsize : i.source.data.size ≤ 2 ^ 63)
    (h : SymbolAt i.layout i.source.data strings.offset
      (table.offset + index * table.entrySize) s) :
    i.symbolAt table strings index = .ok s := by
  obtain ⟨nameOffset, hname, hfields⟩ := h
  obtain ⟨source, l, place⟩ := i
  obtain ⟨hinside, hnumber⟩ := hfields.record (s.fields_widths nameOffset)
  have hnameOffset : l.field (source.data.slice (table.offset + index * table.entrySize)
      l.symbolSize) 0 4 0 4 = nameOffset := by
    rcases l with ⟨order, _ | _⟩ <;> exact hnumber 0 rfl (by simp)
  unfold File.symbolAt
  refine bind_eq_ok.2 ⟨_, recordAt_eq hsize l.symbolSize_pos hinside, ?_⟩
  dsimp only
  rw [hnameOffset, nameAt_eq hsize hname]
  refine congrArg Except.ok ?_
  obtain ⟨name, value, size, info, sectionIndex⟩ := s
  rw [File.Symbol.mk.injEq]
  refine ⟨rfl, ?_⟩
  -- The classes have the same numbers at different places.
  rcases l with ⟨order, _ | _⟩
  · exact ⟨hnumber 1 rfl (by simp [File.Symbol.fields]),
      hnumber 2 rfl (by simp [File.Symbol.fields]), hnumber 3 rfl (by simp [File.Symbol.fields]),
      hnumber 5 rfl (by simp [File.Symbol.fields])⟩
  · exact ⟨hnumber 4 rfl (by simp [File.Symbol.fields]),
      hnumber 5 rfl (by simp [File.Symbol.fields]), hnumber 1 rfl (by simp [File.Symbol.fields]),
      hnumber 3 rfl (by simp [File.Symbol.fields])⟩

/-! ## Sections -/

/-- A header is one of a symbol table if and only if the section holds symbols. -/
theorem isSymbolTable_eq {h : SectionHeader} {s : Section}
    (hbody : BodyAt l data headers h s.body) : h.isSymbolTable = s.symbols?.isSome := by
  obtain ⟨name, body⟩ := s
  unfold SectionHeader.isSymbolTable
  cases hbody with
  | @symbols dynamic symbols strings htype hentry hsize hlink hstrings hsymbols =>
    rw [htype]
    cases dynamic <;> rfl
  | other htype => simp [htype.1, htype.2, Section.symbols?]

theorem size_eq {h : SectionHeader} {s : Section} (hbody : BodyAt l data headers h s.body) :
    h.size = s.size l := by
  obtain ⟨name, body⟩ := s
  cases hbody with
  | symbols strings htype hentry hsize hlink hstrings hsymbols => exact hsize
  | other htype => rfl

section Sections

variable {i : File} {names : SectionHeader}
  (hencodes : Encodes i.layout i.source.data headers i.header image)
  (hnames : headers[i.header.nameTable]? = some names)
  (hall : List.Forall₂ (Describes i.layout i.source.data headers names.offset) headers
    image.sections)

include hencodes in
theorem sectionHeader_of_getElem? {index : Nat} {h : SectionHeader}
    (hget : headers[index]? = some h) : i.sectionHeader index = .ok h := by
  obtain ⟨hindex, rfl⟩ := List.getElem?_eq_some_iff.1 hget
  exact sectionHeader_eq hencodes.present.2 (hencodes.table index hindex)

include hall in
theorem exists_describes {index : Nat} {h : SectionHeader} (hget : headers[index]? = some h) :
    ∃ s, Describes i.layout i.source.data headers names.offset h s := by
  obtain ⟨hindex, rfl⟩ := List.getElem?_eq_some_iff.1 hget
  exact ⟨_, hall.get hindex (by rwa [← hall.length_eq])⟩

include hencodes in
theorem checkCompression_eq {h : SectionHeader} {s : Section}
    (hdescribes : Describes i.layout i.source.data headers names.offset h s) :
    i.checkCompression h = .ok () := by
  unfold File.checkCompression
  split
  · rename_i hcompressed
    have hinside := hdescribes.compression hcompressed
    exact bind_eq_ok.2 ⟨_,
      recordAt_eq hencodes.size i.layout.compressionHeaderSize_pos hinside, rfl⟩
  · rfl

include hencodes hnames hall

/-- The section with the names of sections is found. -/
theorem nameTable_eq : i.nameTable = .ok names := by
  obtain ⟨hindex, -⟩ := List.getElem?_eq_some_iff.1 hnames
  have hfew := image.few
  rw [← hall.length_eq] at hfew
  -- The mark for an index that is kept elsewhere is behind the indices that sections can have.
  have hdirect : i.nameTableIndex = .ok i.header.nameTable := if_neg (by omega)
  obtain ⟨s, hdescribes⟩ := exists_describes hall hnames
  unfold File.nameTable
  rw [hdirect]
  refine bind_eq_ok.2 ⟨_, rfl, bind_eq_ok.2 ⟨_, sectionHeader_of_getElem? hencodes hnames, ?_⟩⟩
  exact bind_eq_ok.2 ⟨_, checkCompression_eq hencodes hdescribes, rfl⟩

theorem nameOf_eq {h : SectionHeader} {s : Section}
    (hdescribes : Describes i.layout i.source.data headers names.offset h s) :
    i.nameOf h = .ok s.name :=
  bind_eq_ok.2 ⟨_, nameTable_eq hencodes hnames hall, nameAt_eq hencodes.size hdescribes.name⟩

/-- The string table that a section is linked to is found. -/
theorem linkedStrings_eq {h strings : SectionHeader} (hlink : headers[h.link]? = some strings)
    (htype : strings.type = 3) : i.linkedStrings h = .ok strings := by
  obtain ⟨s, hdescribes⟩ := exists_describes hall hlink
  have hstrings : strings.isStringTable = true := decide_eq_true htype
  unfold File.linkedStrings
  refine bind_eq_ok.2 ⟨_, sectionHeader_of_getElem? hencodes hlink, ?_⟩
  rw [hstrings]
  refine bind_eq_ok.2 ⟨_, nameOf_eq hencodes hnames hall hdescribes, ?_⟩
  exact bind_eq_ok.2 ⟨_, checkCompression_eq hencodes hdescribes, rfl⟩

/-- A section is read, and its symbol table checked if it is one. -/
theorem sectionAt_eq {index : Nat} {h : SectionHeader} {s : Section}
    (hget : headers[index]? = some h)
    (hdescribes : Describes i.layout i.source.data headers names.offset h s) :
    i.sectionAt index = .ok ⟨h, s.name⟩ := by
  have hname := nameOf_eq hencodes hnames hall hdescribes
  have hcompression := checkCompression_eq hencodes hdescribes
  unfold File.sectionAt
  refine bind_eq_ok.2 ⟨h, sectionHeader_of_getElem? hencodes hget, bind_eq_ok.2 ⟨_, hname, ?_⟩⟩
  have hbody := hdescribes.body
  have htable := isSymbolTable_eq hbody
  obtain ⟨name, body⟩ := s
  cases hbody with
  | symbols strings htype hentry hsize hlink hstrings hsymbols =>
    have htable : h.isSymbolTable = true := htable
    have hpositive := i.layout.symbolSize_pos
    have hwhole : ¬ (h.entrySize = 0 ∨ h.size % h.entrySize ≠ 0) := by
      rw [hentry, hsize, Nat.mul_mod_left]
      omega
    simp only [htable, if_true, true_and]
    refine bind_eq_ok.2 ⟨_, linkedStrings_eq hencodes hnames hall hlink hstrings, ?_⟩
    refine bind_eq_ok.2 ⟨_, hcompression, ?_⟩
    rw [if_neg hwhole]
    rfl
  | other htype =>
    have htable : h.isSymbolTable = false := htable
    simp only [htable, Bool.false_eq_true, if_false, false_and]
    exact bind_eq_ok.2 ⟨_, hcompression, rfl⟩

/-- The sections are read, in the order of their headers. -/
theorem sections_eq :
    i.sections = .ok (List.zipWith (fun h s => ⟨h, s.name⟩) headers image.sections) := by
  have hlength := hall.length_eq
  have hpositive : i.header.sectionCount ≠ 0 := by
    obtain ⟨hindex, -⟩ := List.getElem?_eq_some_iff.1 hnames
    rw [hencodes.count]
    omega
  have hcount : i.sectionCount = .ok image.sections.length := by
    unfold File.sectionCount
    rw [if_neg hencodes.present.1, if_pos hpositive, hencodes.count]
  have hfound : (List.zipWith (fun h s => (⟨h, s.name⟩ : File.Section)) headers
      image.sections).length = image.sections.length := by
    rw [List.length_zipWith, hlength, Nat.min_self]
  unfold File.sections
  refine bind_eq_ok.2 ⟨_, hcount, ?_⟩
  rw [← hfound]
  refine readTable_eq_ok fun index hindex => ?_
  rw [Nat.zero_add, List.getElem_zipWith]
  rw [hfound] at hindex
  have hheader : index < headers.length := by omega
  exact sectionAt_eq hencodes hnames hall (List.getElem?_eq_getElem hheader)
    (hall.get hheader hindex)

/-- The symbols of a table are read. -/
theorem symbols_eq {h : SectionHeader} {dynamic : Bool} {symbols : List File.Symbol}
    (hbody : BodyAt i.layout i.source.data headers h (.symbols dynamic symbols)) :
    i.symbols h = .ok symbols := by
  obtain ⟨strings, -, hentry, hsize, hlink, hstrings, hsymbols⟩ := hbody
  have hcount : h.size / h.entrySize = symbols.length := by
    rw [hsize, hentry]
    exact Nat.mul_div_cancel _ i.layout.symbolSize_pos
  unfold File.symbols
  refine bind_eq_ok.2 ⟨_, linkedStrings_eq hencodes hnames hall hlink hstrings, ?_⟩
  rw [hcount]
  refine readTable_eq_ok fun n hn => symbolAt_eq hencodes.size ?_
  rw [Nat.zero_add, hentry]
  exact hsymbols n hn

end Sections

/-! ## What the library gives -/

theorem codeOf_eq_number {names : List (Nat × Text)} {n index : Nat} :
    File.codeOf names n = .number index ↔ n = index ∧ names.lookup index = none := by
  unfold File.codeOf
  split
  · rename_i name hname
    refine ⟨nofun, fun ⟨heq, hnone⟩ => ?_⟩
    rw [← heq, hname] at hnone
    cases hnone
  · rename_i hnone
    rw [Library.Code.number.injEq]
    exact ⟨fun heq => ⟨heq, heq ▸ hnone⟩, And.left⟩

/-- Data objects and functions go by their names, and no other type does. -/
theorem codeOf_typeNames : ∀ type < 16,
    (File.codeOf File.typeNames type = .named "STT_OBJECT" ↔ type = 1)
      ∧ (File.codeOf File.typeNames type = .named "STT_FUNC" ↔ type = 2) := by
  decide +kernel

theorem lookup_specialIndices {index : Nat} (h : index < 0xFF00) :
    File.specialIndices.lookup index = none ↔ index ≠ 0 := by
  have habsolute : index ≠ 0xFFF1 := by omega
  have hcommon : index ≠ 0xFFF2 := by omega
  simp [File.specialIndices, List.lookup_eq_none_iff, habsolute, hcommon]

/-- A symbol is given as its record says. -/
theorem given_symbol_is (s : File.Symbol) : s.given.Is s where
  name := rfl
  value := rfl
  size := rfl
  object := (codeOf_typeNames _ (Nat.mod_lt _ (by decide))).1
  function := (codeOf_typeNames _ (Nat.mod_lt _ (by decide))).2
  place := fun index hindex =>
    codeOf_eq_number.trans (and_congr_right fun _ => lookup_specialIndices hindex)

/-- A section is given as its header says. -/
theorem given_section_is {i : File} {names : SectionHeader} {h : SectionHeader} {s : Section}
    (hencodes : Encodes i.layout i.source.data headers i.header image)
    (hnames : headers[i.header.nameTable]? = some names)
    (hall : List.Forall₂ (Describes i.layout i.source.data headers names.offset) headers
      image.sections)
    (hdescribes : Describes i.layout i.source.data headers names.offset h s) :
    (i.given ⟨h, s.name⟩).Is i.layout s where
  name := rfl
  size := size_eq hdescribes.body
  symbols := by
    have hbody := hdescribes.body
    have htable := isSymbolTable_eq hbody
    obtain ⟨name, body⟩ := s
    unfold File.given
    cases body with
    | symbols dynamic symbols =>
      have htable : h.isSymbolTable = true := htable
      rw [if_pos htable]
      refine .some ⟨symbols.map File.Symbol.given, ?_, ?_⟩
      · exact bind_eq_ok.2 ⟨_, symbols_eq hencodes hnames hall hbody, rfl⟩
      · rw [List.forall₂_map_left_iff]
        exact List.forall₂_same.2 fun s _ => given_symbol_is s
    | other type size =>
      have htable : h.isSymbolTable = false := htable
      simp only [htable, Bool.false_eq_true, if_false]
      exact .none

/-! ## Images -/

/-- An image is opened, and it shows what its data holds. -/
theorem load_shows (h : Encodes l source.data headers place image) :
    ∃ opened, load source = .ok opened ∧ opened.Shows l image := by
  obtain ⟨names, hnames, hall⟩ := h.sections
  set i : File := ⟨source, l, place⟩
  have hencodes : Encodes i.layout i.source.data headers i.header image := h
  have hread := sections_eq hencodes hnames hall
  set found := List.zipWith (fun h s => (⟨h, s.name⟩ : File.Section)) headers image.sections
    with hfound
  have hgiven : List.Forall₂ (Library.Section.Is l) (found.map i.given) image.sections := by
    rw [hfound, List.map_zipWith]
    exact zipWith_rel hall fun _ _ hdescribes => given_section_is hencodes hnames hall hdescribes
  refine ⟨_, bind_eq_ok.2 ⟨l, by rw [layout_eq h.identification, within_ok],
    bind_eq_ok.2 ⟨place, header_eq h.size h.header, rfl⟩⟩, ?_, ?_, ?_⟩
  · rfl
  · exact ⟨found.map i.given, by rw [hread]; rfl, hgiven⟩
  · intro name
    refine ⟨_, by rw [hread]; rfl, ?_⟩
    exact find?_rel (List.rel_reverse hgiven) fun given s hs => by rw [hs.name]

/-- **The library decodes every image.** -/
theorem library_decodes (h : Encodes l source.data headers place image) :
    library.Decodes source := by
  obtain ⟨opened, hload, -⟩ := load_shows h
  refine ⟨opened, hload, fun l headers place image h => ?_⟩
  obtain ⟨opened', hload', hshows⟩ := load_shows h
  obtain rfl : opened = opened' := Except.ok.inj (hload.symm.trans hload')
  exact hshows

/-- The first bytes of an image tell it from other formats. -/
theorem detect_of_magic (h : StandsAt data 0 magic) : detect data = .ok .elf := by
  have himage : isImage data = true := startsWith_iff.2 h
  have hfirst : data[0]? = some 0x7F := (standsAt_cons.1 h).1
  have hnoPdb : Pdb.isFile data = false := startsWith_eq_false hfirst (by decide)
  simp only [detect, hnoPdb, himage, Bool.false_eq_true, if_false, if_true]

/-- The images of the library are those that are told by their first bytes. -/
theorem read_detected (h : Encodes l source.data headers place image) (wanted : Value)
    (companion : Option Bytes) :
    Image.read source wanted companion = readWith library source wanted := by
  rw [Image.read, detect_of_magic h.identification.left]
  rfl

/-- **Reading an image** with a library that decodes it gives the functions and data objects of the
first section of a name, in the order of the table, with the numbers and names that the image holds.
The table is the last of its name. Apart from the name of the format and the size of the file, only
the size of a section that is a symbol table itself depends on the layout. -/
theorem read_any_layout {lib : Library} (hlib : lib.Decodes source)
    (h : Encodes l source.data headers place image) {name : Text}
    {before after : List Section} {target : Section}
    (hsections : image.sections = before ++ target :: after)
    (hbefore : ∀ s ∈ before, s.name ≠ name) (htarget : target.name = name) :
    detect source.data = .ok .elf
      ∧ readWith lib source (.text name) = .ok ⟨
        { formatName := l.formatName
          sectionName := name
          sectionSize := target.size l
          fileSize := source.data.size
          entries := entriesOf (image.table?.getD []) name before.length },
        if image.table? = none then [.elfStripped] else []⟩ := by
  subst htarget
  exact ⟨detect_of_magic h.identification.left, readWith_eq hlib h hsections hbefore⟩

/-- Of one contents, the images of all layouts are read alike. -/
theorem write_read_alike {strings : Nat} (hplain : image.IsPlain strings)
    (hsize : ∀ l, (image.write l strings).size < 2 ^ 32) {before after : List Section}
    {target : Section} (hsections : image.sections = before ++ target :: after)
    (hbefore : ∀ s ∈ before, s.name ≠ target.name) :
    ∃ entries notices, ∀ l, read (.inMemory (image.write l strings)) (.text target.name)
      = .ok ⟨⟨l.formatName, target.name, target.size l, (image.write l strings).size, entries⟩,
          notices⟩ := by
  refine ⟨entriesOf (image.table?.getD []) target.name before.length,
    if image.table? = none then [.elfStripped] else [], fun l => ?_⟩
  have hencodes : Encodes l (Source.inMemory (image.write l strings)).data
      (image.headers l strings) (image.place l strings) image :=
    Contents.encodes_write hplain (hsize l)
  exact readWith_eq (library_decodes hencodes) hencodes hsections hbefore

/-- Two sections of one name and two symbol tables of one name. The symbols are functions and a data
object of section one, a function that is in no section, one of section three, and a symbol that
stands for a section. -/
def sampleContents : Contents where
  sections := [⟨[], .other 0 0⟩, ⟨".text", .other 1 0x40⟩,
    ⟨".symtab", .symbols false [⟨"first", 0x1000, 0x10, 0x12, 1⟩, ⟨"import", 0, 4, 0x12, 0⟩]⟩,
    ⟨".text", .other 1 8⟩,
    ⟨".symtab", .symbols false [⟨"last", 0x1010, 0x20, 0x12, 1⟩, ⟨"table", 0x1030, 8, 0x11, 1⟩,
      ⟨"import", 0, 4, 0x12, 0⟩, ⟨"other", 0x4000, 8, 0x12, 3⟩, ⟨[], 0x1000, 0, 3, 1⟩]⟩,
    ⟨".strtab", .other 3 75⟩]
  few := by decide

theorem sampleContents_isPlain : sampleContents.IsPlain 5 where
  sections := by
    have hnames : ∀ s ∈ sampleContents.sections, 0 ∉ s.name ∧ s.name.hasSurrogate = false := by
      decide
    intro s hs
    refine ⟨hnames s hs, fun type size hbody => ?_⟩
    simp only [sampleContents, List.mem_cons, List.not_mem_nil, or_false] at hs
    rcases hs with rfl | rfl | rfl | rfl | rfl | rfl <;> cases hbody <;> decide
  symbols := by
    have hnumbers : ∀ s ∈ sampleContents.symbols, (0 ∉ s.name ∧ s.name.hasSurrogate = false)
        ∧ s.value < 2 ^ 32 ∧ s.size < 2 ^ 32 ∧ s.info < 2 ^ 8 ∧ s.sectionIndex < 2 ^ 16 := by
      decide
    intro s hs
    obtain ⟨hname, hvalue, hsize, hinfo, hindex⟩ := hnumbers s hs
    exact ⟨hname, hvalue, hsize, hinfo, hindex⟩
  strings := ⟨".strtab", 75, rfl⟩

/-- The image of the sample of a layout. -/
def sampleImage (l : Layout) : Bytes := sampleContents.write l 5

theorem sampleImage_size (l : Layout) :
    (sampleImage l).size = if l.wide then 691 else 479 := by
  rcases l with ⟨_ | _, _ | _⟩ <;> decide +kernel

theorem sampleImage_encodes (l : Layout) : Encodes l (Source.inMemory (sampleImage l)).data
    (sampleContents.headers l 5) (sampleContents.place l 5) sampleContents := by
  refine Contents.encodes_write sampleContents_isPlain ?_
  have hsize := sampleImage_size l
  unfold sampleImage at hsize
  split at hsize <;> omega

/-- What is read for the first of the two sections of one name. -/
def sampleEntries : List RawSymbol :=
  [⟨0x1010, 0x20, ".text", "last"⟩, ⟨0x1030, 8, ".text", "table"⟩]

/-- The images of the sample are decoded, and reading them gives the same symbols for all layouts.
-/
theorem sampleImage_read_alike :
    (∀ l, library.Decodes (.inMemory (sampleImage l)))
      ∧ Image.read (.inMemory (sampleImage ⟨.little, false⟩)) (.text ".text") none
        = .ok ⟨⟨"ELF32", ".text", 0x40, 479, sampleEntries⟩, []⟩
      ∧ Image.read (.inMemory (sampleImage ⟨.big, false⟩)) (.text ".text") none
        = .ok ⟨⟨"ELF32", ".text", 0x40, 479, sampleEntries⟩, []⟩
      ∧ Image.read (.inMemory (sampleImage ⟨.little, true⟩)) (.text ".text") none
        = .ok ⟨⟨"ELF64", ".text", 0x40, 691, sampleEntries⟩, []⟩
      ∧ Image.read (.inMemory (sampleImage ⟨.big, true⟩)) (.text ".text") none
        = .ok ⟨⟨"ELF64", ".text", 0x40, 691, sampleEntries⟩, []⟩ := by
  have hsections : sampleContents.sections = [⟨[], .other 0 0⟩] ++ ⟨".text", .other 1 0x40⟩
      :: sampleContents.sections.drop 2 := rfl
  have hbefore : ∀ s ∈ [(⟨[], .other 0 0⟩ : Section)], s.name ≠ ".text" := by decide
  have hentries : entriesOf (sampleContents.table?.getD []) ".text" 1 = sampleEntries := by
    decide +kernel
  have htable : sampleContents.table? ≠ none := by decide +kernel
  have hread (l : Layout) (size : Nat) (hsize : (sampleImage l).size = size) :
      Image.read (.inMemory (sampleImage l)) (.text ".text") none
        = .ok ⟨⟨l.formatName, ".text", 0x40, size, sampleEntries⟩, []⟩ := by
    have hencodes := sampleImage_encodes l
    obtain ⟨-, hread⟩ :=
      read_any_layout (library_decodes hencodes) hencodes hsections hbefore rfl
    rw [read_detected hencodes, hread, if_neg htable, ← hsize, ← hentries]
    rfl
  exact ⟨fun l => library_decodes (sampleImage_encodes l), hread _ _ (sampleImage_size _),
    hread _ _ (sampleImage_size _), hread _ _ (sampleImage_size _), hread _ _ (sampleImage_size _)⟩

/-- The last table of a name is read and not the first, which has another function of the section.
Section zero has no symbols, although there is a function with this index. The size of a symbol
table depends on the class. -/
theorem sampleImage_exceptions :
    (((sampleContents.sections.find? fun s => s.name = (".symtab" : Text)).bind
            Section.symbols?).map (entriesOf · ".text" 1)
          = some [⟨0x1000, 0x10, ".text", "first"⟩]
        ∧ read (.inMemory (sampleImage ⟨.little, false⟩)) (.text ".text")
          = .ok ⟨⟨"ELF32", ".text", 0x40, 479, sampleEntries⟩, []⟩)
      ∧ ((sampleContents.table?.getD []).filter (fun s => s.sectionIndex = 0 ∧ s.info % 16 = 2)
          = [⟨"import", 0, 4, 0x12, 0⟩]
        ∧ read (.inMemory (sampleImage ⟨.little, false⟩)) (.text [])
          = .ok ⟨⟨"ELF32", [], 0, 479, []⟩, []⟩)
      ∧ ∃ narrow wide,
        read (.inMemory (sampleImage ⟨.little, false⟩)) (.text ".symtab") = .ok narrow
        ∧ read (.inMemory (sampleImage ⟨.little, true⟩)) (.text ".symtab") = .ok wide
        ∧ narrow.table.sectionSize = 32 ∧ wide.table.sectionSize = 48 := by
  have hread (l : Layout) (before after : List Section) (target : Section)
      (hsections : sampleContents.sections = before ++ target :: after)
      (hbefore : ∀ s ∈ before, s.name ≠ target.name) :
      read (.inMemory (sampleImage l)) (.text target.name)
        = .ok (sampleContents.reading l target before.length (sampleImage l).size) :=
    readWith_eq (library_decodes (sampleImage_encodes l)) (sampleImage_encodes l) hsections hbefore
  have hsize : (sampleImage ⟨.little, false⟩).size = 479 := sampleImage_size _
  have htable (l : Layout) := hread l (sampleContents.sections.take 2)
    (sampleContents.sections.drop 3)
    ⟨".symtab", .symbols false [⟨"first", 0x1000, 0x10, 0x12, 1⟩, ⟨"import", 0, 4, 0x12, 0⟩]⟩
    rfl (by decide)
  refine ⟨⟨by decide +kernel, ?_⟩, ⟨by decide +kernel, ?_⟩, _, _, htable _, htable _, rfl, rfl⟩
  · refine (hread _ (sampleContents.sections.take 1) (sampleContents.sections.drop 2)
      ⟨".text", .other 1 0x40⟩ rfl (by decide)).trans (congrArg Except.ok ?_)
    rw [hsize]
    decide +kernel
  · refine (hread _ [] (sampleContents.sections.drop 1) ⟨[], .other 0 0⟩ rfl (by decide)).trans
      (congrArg Except.ok ?_)
    rw [hsize]
    decide +kernel

end CrateLedger.Image.Elf
