import CrateLedger.Proofs.Image.Elf.Contents
import CrateLedger.Proofs.Image.Table

/-!
# Which symbols of an ELF image are reported

What is assumed of a library: it shows what the data of an image holds, as the specification of the
format says. Then the functions and data objects of the first section of a name are reported, from
the last section that has the name of a symbol table.
-/

namespace CrateLedger.Image.Elf

/-! ## What is to be read -/

/-- The format of images of a layout. -/
def Layout.formatName (l : Layout) : Text := if l.wide then "ELF64" else "ELF32"

/-- A symbol is a data object or a function of the section of an index. Index zero, which stands for
no section, has none. -/
def File.Symbol.IsPartOf (s : File.Symbol) (index : Nat) : Prop :=
  s.sectionIndex = index ∧ index ≠ 0 ∧ (s.info % 16 = 1 ∨ s.info % 16 = 2)

instance (s : File.Symbol) (index : Nat) : Decidable (s.IsPartOf index) :=
  inferInstanceAs (Decidable (_ ∧ _ ∧ _))

/-- The entries of the functions and data objects among some symbols that a section has. -/
def entriesOf (symbols : List File.Symbol) (name : Text) (index : Nat) : List RawSymbol :=
  (symbols.filter fun s => s.IsPartOf index).map fun s => ⟨s.value, s.size, name, s.name⟩

namespace Contents

variable (image : Contents)

/-- The symbols of the last section of a name, if that is a symbol table. -/
def tableNamed? (name : Text) : Option (List File.Symbol) :=
  (image.sections.reverse.find? fun s => s.name = name).bind Section.symbols?

/-- The static symbols, or else the dynamic ones. -/
def table? : Option (List File.Symbol) :=
  image.tableNamed? ".symtab" <|> image.tableNamed? ".dynsym"

/-- What is read from an image of a layout for the section of an index. -/
def reading (l : Layout) (target : Section) (index fileSize : Nat) : Reading where
  table :=
    { formatName := l.formatName
      sectionName := target.name
      sectionSize := target.size l
      fileSize := fileSize
      entries := entriesOf (image.table?.getD []) target.name index }
  notices := if image.table? = none then [.elfStripped] else []

end Contents

/-! ## What is assumed of a library -/

namespace Library

/-- A symbol is given as its record says. -/
structure Symbol.Is (given : Library.Symbol) (s : File.Symbol) : Prop where
  name : given.name = s.name
  value : given.value = s.value
  size : given.size = s.size
  /-- Type one is that of data objects. -/
  object : given.type = .named "STT_OBJECT" ↔ s.info % 16 = 1
  /-- Type two is that of functions. -/
  function : given.type = .named "STT_FUNC" ↔ s.info % 16 = 2
  /-- An index that is not reserved is given as a number, but zero has a name. -/
  place : ∀ index < 0xFF00, given.place = .number index ↔ s.sectionIndex = index ∧ index ≠ 0

/-- A section is given as its header says, and its symbols can be read if it is a symbol table. -/
structure Section.Is (l : Layout) (given : Library.Section) (s : Elf.Section) : Prop where
  name : given.name = s.name
  size : given.size = s.size l
  symbols : Option.Rel
    (fun read symbols => ∃ found, read () = .ok found ∧ List.Forall₂ Symbol.Is found symbols)
    given.symbols? s.symbols?

/-- An opened image shows some contents. -/
structure Opened.Shows (opened : Opened) (l : Layout) (image : Contents) : Prop where
  bits : opened.bits = if l.wide then 64 else 32
  /-- The sections are listed in the order of their headers. -/
  sections : ∃ found, opened.sections = .ok found
    ∧ List.Forall₂ (Section.Is l) found image.sections
  /-- The last section of a name is found under it. -/
  last : ∀ name, ∃ found, opened.sectionNamed name = .ok found
    ∧ Option.Rel (Section.Is l) found (image.sections.reverse.find? fun s => s.name = name)

end Library

/-- A library decodes a file as the specification says: it opens the file, and what it shows is what
the headers, the symbols and the string tables in the data say. -/
def Library.Decodes (lib : Library) (source : Source) : Prop :=
  ∃ opened, lib.load source = .ok opened ∧ ∀ l headers place image,
    Encodes l source.data headers place image → opened.Shows l image

/-! ## Symbols -/

namespace Library

variable {l : Layout} {image : Contents} {opened : Opened}

theorem Symbol.Is.isKept_eq {given : Library.Symbol} {s : File.Symbol} (h : given.Is s)
    {index : Nat} (hindex : index < 0xFF00) : given.isKept index = decide (s.IsPartOf index) := by
  have hplace := h.place index hindex
  have htype : (keptTypes.any fun type => given.type = .named type) = true
      ↔ s.info % 16 = 1 ∨ s.info % 16 = 2 := by
    simp [keptTypes, h.object, h.function, or_comm]
  unfold Symbol.isKept
  rw [Bool.eq_iff_iff, Bool.and_eq_true, htype, decide_eq_true_iff, decide_eq_true_iff, hplace,
    and_assoc, File.Symbol.IsPartOf]

/-- Filtering the symbols that are given gives the entries of a section. -/
theorem entries_eq {found : List Library.Symbol} {symbols : List File.Symbol}
    (h : List.Forall₂ Symbol.Is found symbols) {index : Nat} (hindex : index < 0xFF00)
    (name : Text) :
    ((found.filter fun s => s.isKept index).map fun s => (⟨s.value, s.size, name, s.name⟩ :
      RawSymbol)) = entriesOf symbols name index := by
  unfold entriesOf
  induction h with
  | nil => rfl
  | @cons given s found symbols hs _ ih =>
    rw [List.filter_cons, List.filter_cons, hs.isKept_eq hindex]
    by_cases hpart : s.IsPartOf index
    · simp only [hpart, decide_true, if_true, List.map_cons, ih, hs.name, hs.value, hs.size]
    · simp only [hpart, decide_false, Bool.false_eq_true, if_false, ih]

/-- What can be read of the last section of a name are its symbols. -/
theorem Opened.Shows.symbolsNamed (h : opened.Shows l image) (name : Text) :
    ∃ found, opened.sectionNamed name = .ok found ∧ Option.Rel
      (fun read symbols => ∃ found, read () = .ok found ∧ List.Forall₂ Symbol.Is found symbols)
      (found.bind Section.symbols?) (image.tableNamed? name) := by
  obtain ⟨found, hfound, hrel⟩ := h.last name
  exact ⟨found, hfound, option_bind_rel hrel fun _ _ hsection => hsection.symbols⟩

/-- The symbols that are read are those of the table. -/
theorem Opened.Shows.symbols? (h : opened.Shows l image) :
    ∃ found, opened.symbols? = .ok found
      ∧ Option.Rel (List.Forall₂ Symbol.Is) found image.table? := by
  obtain ⟨static, hstatic, hrel⟩ := h.symbolsNamed ".symtab"
  obtain ⟨dynamic, hdynamic, hrel'⟩ := h.symbolsNamed ".dynsym"
  unfold Opened.symbols? Contents.table?
  rw [hstatic, hdynamic]
  -- The dynamic symbols count only where there are no static ones.
  generalize image.tableNamed? ".symtab" = x at hrel ⊢
  generalize hread : static.bind Section.symbols? = read at hrel
  generalize image.tableNamed? ".dynsym" = x' at hrel' ⊢
  generalize hread' : dynamic.bind Section.symbols? = read' at hrel'
  simp only [bind, Except.bind, hread, hread']
  cases hrel with
  | some hsymbols =>
    obtain ⟨found, hfound, hsymbols⟩ := hsymbols
    exact ⟨some found, by dsimp only; rw [hfound]; rfl, .some hsymbols⟩
  | none =>
    cases hrel' with
    | some hsymbols =>
      obtain ⟨found, hfound, hsymbols⟩ := hsymbols
      exact ⟨some found, by dsimp only; rw [hfound]; rfl, .some hsymbols⟩
    | none => exact ⟨none, rfl, .none⟩

end Library

/-! ## Images -/

theorem Layout.decimal_bits (l : Layout) :
    "ELF" ++ Numeral.decimal (if l.wide then 64 else 32) = l.formatName := by
  unfold Layout.formatName
  cases l.wide <;> decide +kernel

/-- The first section of a name is found with its index. -/
theorem find?_target {l : Layout} {found : List Library.Section} {before after : List Section}
    {target : Section}
    (h : List.Forall₂ (Library.Section.Is l) found (before ++ target :: after))
    (hbefore : ∀ s ∈ before, s.name ≠ target.name) :
    ∃ given : Library.Section, given.Is l target ∧
      found.zipIdx.find? (fun (s, _) => Value.text target.name = .text s.name)
        = some (given, before.length) := by
  have hfind := find?_rel (zipIdx_rel h 0)
    (p := fun x => decide (Value.text target.name = .text x.1.name))
    (q := fun x => decide (x.1.name = target.name))
    fun f s hfs => by simp only [Value.text_inj, hfs.1.name, eq_comm]
  have hskip : ∀ s ∈ before, decide (s.name = target.name) = false :=
    fun s hs => decide_eq_false (hbefore s hs)
  rw [find?_zipIdx hskip (decide_eq_true rfl), Nat.zero_add] at hfind
  generalize List.find? _ found.zipIdx = x at hfind ⊢
  cases hfind with
  | @some f _ hfs =>
    obtain ⟨given, index⟩ := f
    obtain ⟨hgiven, hindex⟩ := hfs
    dsimp only at hgiven hindex
    exact ⟨given, hgiven, by rw [hindex]⟩

/-- With a library that decodes a file, the symbols of the first section of a name are read. -/
theorem readWith_eq {lib : Library} {source : Source} {l : Layout} {headers : List SectionHeader}
    {place : Header} {image : Contents} (hlib : lib.Decodes source)
    (h : Encodes l source.data headers place image) {before after : List Section}
    {target : Section} (hsections : image.sections = before ++ target :: after)
    (hbefore : ∀ s ∈ before, s.name ≠ target.name) :
    readWith lib source (.text target.name)
      = .ok (image.reading l target before.length source.data.size) := by
  obtain ⟨opened, hload, hshows⟩ := hlib
  have hshows := hshows l headers place image h
  obtain ⟨found, hfound, hrel⟩ := hshows.sections
  obtain ⟨symbols, hsymbols, htable⟩ := hshows.symbols?
  have hindex : before.length < 0xFF00 := by
    have hfew := image.few
    rw [hsections, List.length_append] at hfew
    omega
  rw [hsections] at hrel
  obtain ⟨given, hgiven, hfind⟩ := find?_target hrel hbefore
  unfold readWith
  refine bind_eq_ok.2 ⟨opened, hload, bind_eq_ok.2 ⟨found, hfound, ?_⟩⟩
  dsimp only
  rw [hfind]
  refine bind_eq_ok.2 ⟨symbols, hsymbols, ?_⟩
  rw [hshows.bits, l.decimal_bits, hgiven.name, hgiven.size]
  unfold Contents.reading
  generalize image.table? = x at htable ⊢
  cases htable with
  | none => rfl
  | some hall =>
    dsimp only
    rw [Library.entries_eq hall hindex]
    rfl

end CrateLedger.Image.Elf
