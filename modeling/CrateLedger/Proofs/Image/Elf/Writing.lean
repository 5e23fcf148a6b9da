import CrateLedger.Proofs.Image.Elf.Contents

/-!
# Writing ELF images

One image for each contents and layout is written here: the headers, all symbols and all names, one
behind the other. Contents whose numbers have 32 bits have an image of either class and byte order.
-/

namespace CrateLedger.Image.Elf

open Bytes

/-! ## What can be written -/

/-- A symbol that both classes have room for. -/
structure File.Symbol.IsPlain (s : File.Symbol) : Prop where
  name : 0 ∉ s.name ∧ s.name.hasSurrogate = false
  value : s.value < 2 ^ 32
  size : s.size < 2 ^ 32
  info : s.info < 2 ^ 8
  sectionIndex : s.sectionIndex < 2 ^ 16

/-- A section that both classes have room for, and that is no symbol table in disguise. -/
structure Section.IsPlain (s : Section) : Prop where
  name : 0 ∉ s.name ∧ s.name.hasSurrogate = false
  other : ∀ type size, s.body = .other type size →
    type < 2 ^ 32 ∧ size < 2 ^ 32 ∧ type ≠ 2 ∧ type ≠ 11

/-- The symbols of all tables, one table behind the other. -/
def Contents.symbols (image : Contents) : List File.Symbol :=
  image.sections.flatMap fun s => s.symbols?.getD []

/-- Contents that both classes have room for, with a section for the names. -/
structure Contents.IsPlain (image : Contents) (strings : Nat) : Prop where
  sections : ∀ s ∈ image.sections, s.IsPlain
  symbols : ∀ s ∈ image.symbols, s.IsPlain
  strings : ∃ name size, image.sections[strings]? = some ⟨name, .other 3 size⟩

/-! ## Writing -/

/-- The bytes of fields. What can be anything is zero. -/
def fieldBytes (order : ByteOrder) (fields : List (Nat × Option Nat)) : List UInt8 :=
  order.encodeAll (fields.map fun f => (f.1, f.2.getD 0))

/-- The record of a section header. -/
def headerBytes (l : Layout) (h : SectionHeader) : List UInt8 := fieldBytes l.order (h.fields l)

/-- A name with a NUL behind it. -/
def nameBytes (name : Text) : List UInt8 := Utf8.encode name ++ [0]

namespace Contents

variable (l : Layout) (image : Contents) (strings : Nat)

/-- All names: those of sections, and behind them those of symbols. -/
def names : List Text := image.sections.map Section.name ++ image.symbols.map File.Symbol.name

/-- Where the name of a number is among the names. -/
def nameOffset (i : Nat) : Nat := ((image.names.take i).flatMap nameBytes).length

/-- Where the symbols are: behind the headers. -/
def symbolsAt : Nat := l.headerSize + image.sections.length * l.sectionHeaderSize

/-- Where the names are: behind the symbols. -/
def namesAt : Nat := image.symbolsAt l + image.symbols.length * l.symbolSize

/-- How many symbols the sections in front of one have. -/
def symbolsBefore (i : Nat) : Nat :=
  ((image.sections.take i).flatMap fun s => s.symbols?.getD []).length

/-- The file header. -/
def place : Header := ⟨l.headerSize, l.sectionHeaderSize, image.sections.length, strings⟩

/-- The header of a section of a number. -/
def header (i : Nat) (s : Section) : SectionHeader :=
  match s.body with
  | .symbols dynamic symbols =>
    ⟨image.nameOffset i, if dynamic then 11 else 2, 0,
      image.symbolsAt l + image.symbolsBefore i * l.symbolSize, symbols.length * l.symbolSize,
      strings, l.symbolSize⟩
  | .other type size => ⟨image.nameOffset i, type, 0, image.namesAt l, size, 0, 0⟩

/-- The headers of all sections. -/
def headers : List SectionHeader :=
  image.sections.zipIdx.map fun s => image.header l strings s.2 s.1

/-- The record of a symbol of a number. -/
def symbolBytes (i : Nat) (s : File.Symbol) : List UInt8 :=
  fieldBytes l.order (s.fields l (image.nameOffset (image.sections.length + i)))

/-- The records of all symbols. -/
def allSymbolBytes : List UInt8 :=
  image.symbols.zipIdx.flatMap fun s : File.Symbol × Nat => image.symbolBytes l s.2 s.1

/-- An image of a layout. -/
def write : Bytes :=
  (magic ++ l.identification ++ List.replicate 10 0
    ++ fieldBytes l.order ((image.place l strings).fields l)
    ++ (image.headers l strings).flatMap (headerBytes l) ++ image.allSymbolBytes l
    ++ image.names.flatMap nameBytes).toArray

end Contents

/-! ## What is written is an image -/

variable {l : Layout} {data : Bytes} {offset strings : Nat} {image : Contents}

theorem length_fieldBytes (order : ByteOrder) (fields : List (Nat × Option Nat)) :
    (fieldBytes order fields).length = (fields.map Prod.fst).sum := by
  rw [fieldBytes, ByteOrder.length_encodeAll, List.map_map]
  rfl

/-- Fields that fit are where they were written. -/
theorem fieldsAt_of_bytes {order : ByteOrder} {fields : List (Nat × Option Nat)}
    (hfits : ∀ f ∈ fields, ∀ n ∈ f.2, n < 256 ^ f.1) (hstart : offset ≤ data.size)
    (h : StandsAt data offset (fieldBytes order fields)) : FieldsAt order data offset fields := by
  induction fields generalizing offset with
  | nil => exact hstart
  | cons field fields ih =>
    have hsplit : StandsAt data offset
        (order.encode field.1 (field.2.getD 0) ++ fieldBytes order fields) := h
    have hend := hsplit.left.le_size hstart
    have hrest := hsplit.right
    rw [ByteOrder.length_encode] at hend hrest
    refine ⟨fun n hn => ⟨hfits _ List.mem_cons_self n hn, ?_⟩,
      ih (fun f hf => hfits f (List.mem_cons_of_mem _ hf)) hend hrest⟩
    have hvalue : field.2.getD 0 = n := by rw [Option.mem_def.1 hn, Option.getD_some]
    rw [← hvalue]
    exact hsplit.left

/-! ### Room for numbers -/

theorem Layout.lt_word {n : Nat} (h : n < 2 ^ 32) : n < 256 ^ l.wordSize := by
  unfold wordSize
  split <;> omega

theorem Header.fits {h : Header} (hoffset : h.sectionOffset < 2 ^ 32)
    (hsize : h.entrySize < 2 ^ 16) (hcount : h.sectionCount < 2 ^ 16)
    (htable : h.nameTable < 2 ^ 16) :
    ∀ f ∈ h.fields l, ∀ n ∈ f.2, n < 256 ^ f.1 := by
  have hword : h.sectionOffset < 256 ^ l.wordSize := Layout.lt_word hoffset
  simpa [fields] using And.intro hword ⟨hsize, hcount, htable⟩

theorem SectionHeader.fits {h : SectionHeader} (hname : h.nameOffset < 2 ^ 32)
    (htype : h.type < 2 ^ 32) (hflags : h.flags < 2 ^ 32) (hoffset : h.offset < 2 ^ 32)
    (hsize : h.size < 2 ^ 32) (hlink : h.link < 2 ^ 32) (hentry : h.entrySize < 2 ^ 32) :
    ∀ f ∈ h.fields l, ∀ n ∈ f.2, n < 256 ^ f.1 := by
  have hword {n : Nat} (h : n < 2 ^ 32) : n < 256 ^ l.wordSize := Layout.lt_word h
  simpa [fields] using And.intro hname ⟨htype, hword hflags, hword hoffset, hword hsize, hlink,
    hword hentry⟩

theorem File.Symbol.fits {s : File.Symbol} (hplain : s.IsPlain) {nameOffset : Nat}
    (hname : nameOffset < 2 ^ 32) : ∀ f ∈ s.fields l nameOffset, ∀ n ∈ f.2, n < 256 ^ f.1 := by
  obtain ⟨-, hvalue, hsize, hinfo, hindex⟩ := hplain
  unfold fields
  split <;> simp <;> omega

/-! ### Where everything is -/

theorem length_headerBytes (h : SectionHeader) :
    (headerBytes l h).length = l.sectionHeaderSize := by
  rw [headerBytes, length_fieldBytes, h.fields_widths]

namespace Contents

theorem length_symbolBytes (i : Nat) (s : File.Symbol) :
    (image.symbolBytes l i s).length = l.symbolSize := by
  rw [symbolBytes, length_fieldBytes, s.fields_widths]

theorem length_headers : (image.headers l strings).length = image.sections.length := by
  rw [headers, List.length_map, List.length_zipIdx]

theorem getElem_headers {i : Nat} (hi : i < (image.headers l strings).length)
    (hs : i < image.sections.length) :
    (image.headers l strings)[i] = image.header l strings i image.sections[i] := by
  simp [headers]

theorem length_allSymbolBytes :
    (image.allSymbolBytes l).length = image.symbols.length * l.symbolSize := by
  rw [allSymbolBytes, length_flatMap_of_length fun s _ => length_symbolBytes s.2 s.1,
    List.length_zipIdx]

/-- The parts of an image stand one behind the other. -/
theorem write_stands (image : Contents) (l : Layout) (strings : Nat) :
    StandsAt (image.write l strings) 0 (magic ++ l.identification)
      ∧ StandsAt (image.write l strings) 16
        (fieldBytes l.order ((image.place l strings).fields l))
      ∧ StandsAt (image.write l strings) l.headerSize
        ((image.headers l strings).flatMap (headerBytes l))
      ∧ StandsAt (image.write l strings) (image.symbolsAt l) (image.allSymbolBytes l)
      ∧ StandsAt (image.write l strings) (image.namesAt l) (image.names.flatMap nameBytes)
      ∧ (image.write l strings).size
        = image.namesAt l + (image.names.flatMap nameBytes).length := by
  have hstart : (magic ++ l.identification ++ List.replicate 10 (0 : UInt8)).length = 16 := rfl
  have hheader : (magic ++ l.identification ++ List.replicate 10 (0 : UInt8)
      ++ fieldBytes l.order ((image.place l strings).fields l)).length = l.headerSize := by
    rw [List.length_append, hstart, length_fieldBytes, Header.fields_widths]
  have hheaders : ((image.headers l strings).flatMap (headerBytes l)).length
      = image.sections.length * l.sectionHeaderSize := by
    rw [length_flatMap_of_length fun h _ => length_headerBytes h, length_headers]
  have hall := standsAt_toArray (magic ++ l.identification ++ List.replicate 10 0
    ++ fieldBytes l.order ((image.place l strings).fields l)
    ++ (image.headers l strings).flatMap (headerBytes l) ++ image.allSymbolBytes l
    ++ image.names.flatMap nameBytes) []
  rw [List.append_nil] at hall
  have hnames := hall.right
  have hsymbols := hall.left.right
  have hheadersAt := hall.left.left.right
  have hplace := hall.left.left.left.right
  rw [Nat.zero_add] at hnames hsymbols hheadersAt hplace
  rw [List.length_append, List.length_append, hheader, hheaders, length_allSymbolBytes] at hnames
  rw [List.length_append, hheader, hheaders] at hsymbols
  rw [hheader] at hheadersAt
  rw [hstart] at hplace
  refine ⟨hall.left.left.left.left.left, hplace, hheadersAt, hsymbols, hnames, ?_⟩
  rw [write, List.size_toArray, List.length_append, List.length_append, List.length_append,
    hheader, hheaders, length_allSymbolBytes]
  rfl

/-- The symbols of a section are among all symbols, behind those of the sections in front. -/
theorem symbols_eq {i : Nat} (hi : i < image.sections.length) {symbols : List File.Symbol}
    (hsymbols : image.sections[i].symbols? = some symbols) :
    ∃ before after, image.symbols = before ++ (symbols ++ after)
      ∧ before.length = image.symbolsBefore i := by
  refine ⟨_, (image.sections.drop (i + 1)).flatMap fun s => s.symbols?.getD [], ?_, rfl⟩
  conv_lhs => rw [Contents.symbols, ← List.take_append_drop i image.sections,
    List.drop_eq_getElem_cons hi, List.flatMap_append, List.flatMap_cons, hsymbols]
  rfl

section Plain

variable (hplain : image.IsPlain strings)

include hplain in
theorem nameAt_write {i : Nat} (hi : i < image.names.length) :
    NameAt (image.write l strings) (image.namesAt l + image.nameOffset i) image.names[i] := by
  obtain ⟨-, -, -, -, hnames, -⟩ := write_stands image l strings
  have hstorable : ∀ name ∈ image.names, 0 ∉ name ∧ name.hasSurrogate = false := by
    intro name hname
    rcases List.mem_append.1 hname with hname | hname
    · obtain ⟨s, hs, rfl⟩ := List.mem_map.1 hname
      exact (hplain.sections s hs).name
    · obtain ⟨s, hs, rfl⟩ := List.mem_map.1 hname
      exact (hplain.symbols s hs).name
  exact ⟨hstorable _ (List.getElem_mem hi), hnames.getElem_flatMap_take hi⟩

include hplain in
theorem exists_stringsHeader : ∃ size, (image.headers l strings)[strings]?
    = some ⟨image.nameOffset strings, 3, 0, image.namesAt l, size, 0, 0⟩ := by
  obtain ⟨name, size, hstrings⟩ := hplain.strings
  obtain ⟨hlt, hstrings⟩ := List.getElem?_eq_some_iff.1 hstrings
  refine ⟨size, ?_⟩
  rw [List.getElem?_eq_getElem (by rwa [length_headers]), getElem_headers _ hlt, hstrings]
  rfl

variable (hsize : (image.write l strings).size < 2 ^ 32)

include hsize in
theorem nameOffset_lt (i : Nat) : image.nameOffset i < 2 ^ 32 := by
  obtain ⟨-, -, -, -, -, hend⟩ := write_stands image l strings
  have hle : image.nameOffset i ≤ (image.names.flatMap nameBytes).length := by
    conv_rhs => rw [← List.take_append_drop i image.names, List.flatMap_append, List.length_append]
    exact Nat.le_add_right _ _
  omega

include hplain hsize in
theorem symbolAt_write {i : Nat} (hi : i < image.symbols.length) :
    SymbolAt l (image.write l strings) (image.namesAt l) (image.symbolsAt l + i * l.symbolSize)
      image.symbols[i] := by
  obtain ⟨-, -, -, hsymbols, -⟩ := write_stands image l strings
  have hindex : image.sections.length + i < image.names.length := by
    rw [names, List.length_append, List.length_map, List.length_map]
    omega
  have hname := nameAt_write (l := l) hplain hindex
  have hnameEq : image.names[image.sections.length + i] = image.symbols[i].name := by
    simp [names]
  rw [hnameEq] at hname
  have hrecord := hsymbols.getElem_flatMap (fun s _ => length_symbolBytes s.2 s.1)
    (i := i) (by rwa [List.length_zipIdx])
  simp only [List.getElem_zipIdx, Nat.zero_add] at hrecord
  have hinside := hrecord.end_le (by rw [length_symbolBytes]; exact l.symbolSize_pos)
  have hfits := File.Symbol.fits (l := l) (hplain.symbols _ (List.getElem_mem hi))
    (nameOffset_lt hsize (image.sections.length + i))
  exact ⟨_, hname, fieldsAt_of_bytes hfits (by omega) hrecord⟩

include hplain hsize

/-- The header of a section says what the section is. -/
theorem describes_header {i : Nat} (hi : i < image.sections.length) :
    Describes l (image.write l strings) (image.headers l strings) (image.namesAt l)
      (image.header l strings i image.sections[i]) image.sections[i] := by
  have hmem := List.getElem_mem hi
  have hindex : i < image.names.length := by
    rw [names, List.length_append, List.length_map]
    omega
  have hname := nameAt_write (l := l) hplain hindex
  have hnameEq : image.names[i] = image.sections[i].name := by
    simp [names, hi]
  rw [hnameEq] at hname
  obtain ⟨stringsSize, hlink⟩ := exists_stringsHeader (l := l) hplain
  have hother := (hplain.sections _ hmem).other
  have hsplit := @symbols_eq image i hi
  unfold Contents.header
  generalize image.sections[i] = s at *
  obtain ⟨name, body⟩ := s
  cases body with
  | other type size =>
    obtain ⟨-, -, htype⟩ := hother type size rfl
    exact ⟨hname, by simp [SectionHeader.isCompressed], .other htype⟩
  | symbols dynamic symbols =>
    obtain ⟨before, after, hall, hbefore⟩ := hsplit rfl
    refine ⟨hname, by simp [SectionHeader.isCompressed], ?_⟩
    refine .symbols _ rfl rfl rfl hlink rfl fun j hj => ?_
    have hj' : before.length + j < image.symbols.length := by
      rw [hall, List.length_append, List.length_append]
      omega
    have hsymbol := symbolAt_write hplain hsize hj'
    have heq : image.symbols[before.length + j] = symbols[j] := by
      simp [hall, hj]
    rw [heq, hbefore, Nat.add_mul, ← Nat.add_assoc] at hsymbol
    exact hsymbol

/-- The numbers of a section header fit their fields. -/
theorem header_fits {i : Nat} (hi : i < image.sections.length) :
    ∀ f ∈ (image.header l strings i image.sections[i]).fields l, ∀ n ∈ f.2, n < 256 ^ f.1 := by
  obtain ⟨-, -, -, -, -, hend⟩ := write_stands image l strings
  obtain ⟨stringsName, stringsSize, hstrings⟩ := hplain.strings
  obtain ⟨hlt, -⟩ := List.getElem?_eq_some_iff.1 hstrings
  have hfew := image.few
  have hname := nameOffset_lt hsize i
  have hother := (hplain.sections _ (List.getElem_mem hi)).other
  have hsplit := @symbols_eq image i hi
  have hzero : 0 < 2 ^ 32 := by decide
  have hnamesAt : image.namesAt l < 2 ^ 32 := by omega
  unfold Contents.header
  generalize image.sections[i] = s at *
  obtain ⟨name, body⟩ := s
  cases body with
  | other type size =>
    obtain ⟨htype, hbound, -⟩ := hother type size rfl
    exact SectionHeader.fits hname htype hzero hnamesAt hbound hzero hzero
  | symbols dynamic symbols =>
    obtain ⟨before, after, hall, hbefore⟩ := hsplit rfl
    have htable : image.symbolsBefore i * l.symbolSize + symbols.length * l.symbolSize
        ≤ image.symbols.length * l.symbolSize := by
      rw [← Nat.add_mul, hall, List.length_append, List.length_append, hbefore]
      exact Nat.mul_le_mul_right _ (by omega)
    unfold namesAt at hnamesAt
    have htype : (if dynamic then 11 else 2) < 2 ^ 32 := by cases dynamic <;> decide
    have hoffset : image.symbolsAt l + image.symbolsBefore i * l.symbolSize < 2 ^ 32 := by omega
    have hbound : symbols.length * l.symbolSize < 2 ^ 32 := by omega
    have hlink : strings < 2 ^ 32 := by omega
    have hentry : l.symbolSize < 2 ^ 32 := by
      unfold Layout.symbolSize
      split <;> decide
    exact SectionHeader.fits hname htype hzero hoffset hbound hlink hentry

/-- Every contents that both classes have room for has an image of every layout, unless it is too
large for its own numbers. -/
theorem encodes_write :
    Encodes l (image.write l strings) (image.headers l strings) (image.place l strings) image := by
  obtain ⟨hidentification, hplace, hheaders, -, -, hend⟩ := write_stands image l strings
  obtain ⟨stringsSize, hstrings⟩ := exists_stringsHeader (l := l) hplain
  have hlt := (List.getElem?_eq_some_iff.1 hstrings).1
  rw [length_headers] at hlt
  have hfew := image.few
  have hheaderSize : 16 ≤ l.headerSize ∧ l.headerSize < 2 ^ 16 ∧ l.sectionHeaderSize < 2 ^ 16 := by
    unfold Layout.headerSize Layout.sectionHeaderSize
    split <;> decide
  have hplaceFits : ∀ f ∈ (image.place l strings).fields l, ∀ n ∈ f.2, n < 256 ^ f.1 := by
    apply Header.fits <;> dsimp only [place] <;> omega
  unfold namesAt symbolsAt at hend
  refine ⟨hidentification, fieldsAt_of_bytes hplaceFits (by omega) hplace,
    ⟨by dsimp only [place]; omega, Nat.le_refl _⟩, fun i hi => ?_, rfl,
    ⟨_, hstrings, List.forall₂_iff_get.2 ⟨length_headers, fun i hi hi' => ?_⟩⟩, by omega⟩
  · have hi' : i < image.sections.length := by rwa [length_headers] at hi
    have hrecord := hheaders.getElem_flatMap (fun h _ => length_headerBytes h) hi
    have hinside := hrecord.end_le (by rw [length_headerBytes]; exact l.sectionHeaderSize_pos)
    rw [getElem_headers hi hi'] at hrecord ⊢
    exact fieldsAt_of_bytes (header_fits hplain hsize hi') (by dsimp only [place]; omega) hrecord
  · rw [List.get_eq_getElem, List.get_eq_getElem, getElem_headers hi hi']
    exact describes_header hplain hsize hi'

end Plain

end Contents

end CrateLedger.Image.Elf
