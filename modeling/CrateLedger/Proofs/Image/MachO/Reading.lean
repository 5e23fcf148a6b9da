import CrateLedger.Image.Container
import CrateLedger.Proofs.Image.DerivedSizes
import CrateLedger.Proofs.Image.MachO.Contents
import CrateLedger.Proofs.Image.Table
import CrateLedger.Proofs.Text.Utf8

/-!
# Mach-O images of either width and byte order

Main statement: two images that hold the same are read alike, whatever their widths and byte orders,
and nothing that the selected section holds is lost.
-/

namespace CrateLedger.Image.MachO

open Bytes

/-! ## What is to be read -/

/-- Whether a selector asks for a section. -/
def Selects (selector : Text) (s : Section) : Prop :=
  s.name = (selectedByText selector).2 ∧
    ((selectedByText selector).1 = [] ∨ s.segment = (selectedByText selector).1)

instance (selector : Text) (s : Section) : Decidable (Selects selector s) :=
  inferInstanceAs (Decidable (_ ∧ _))

namespace Symbol

/-- A symbol is no debugging entry, is defined in a section, and this has the given ordinal. -/
def IsDefinedIn (s : Symbol) (ordinal : Nat) : Prop :=
  s.type &&& 0xE0 = 0 ∧ s.type &&& 0x0E = 0x0E ∧ s.ordinal.toNat = ordinal

instance (s : Symbol) (ordinal : Nat) : Decidable (s.IsDefinedIn ordinal) :=
  inferInstanceAs (Decidable (_ ∧ _ ∧ _))

/-- The name without one underscore in front, or nothing if there is no name. -/
def shownName (s : Symbol) : Text :=
  match s.name with
  | none => []
  | some [] => []
  | some (c :: rest) => if c = CodePoint.ofChar '_' then rest else c :: rest

/-- The entry of a symbol, before its size is known. -/
def entry (s : Symbol) (sectionName : Text) : RawSymbol := ⟨s.value, 0, sectionName, s.shownName⟩

end Symbol

variable {l : Layout} {data : Bytes} {table : SymbolCommand} {offset : Nat}

theorem Layout.magic_head (l : Layout) :
    ∃ b, (l.order.encode 4 l.magic)[0]? = some b ∧ b ≠ 0x4D ∧ b ≠ 0x7F := by
  rcases l with ⟨order, wide⟩
  cases order <;> cases wide <;> exact ⟨_, rfl, by decide, by decide⟩

/-- The first bytes of an image tell it from other formats and give its layout. -/
theorem detect_of_magic (h : StandsAt data 0 (l.order.encode 4 l.magic)) :
    detect data = .ok (.machO l) := by
  have hslice := slice_of_standsAt h
  have hsize := h.le_size (Nat.zero_le _)
  rw [ByteOrder.length_encode] at hslice hsize
  -- The other formats are tried first, but their files start with another byte.
  obtain ⟨b, hhead, hpdb, helf⟩ := l.magic_head
  have hfirst : data[0]? = some b := by
    rw [← hhead]
    exact h.getElem? (i := 0) (by simp)
  have hlayout : layout? data = some l := by
    unfold layout?
    rw [if_neg (by omega)]
    simp only [number, hslice]
    rcases l with ⟨order, wide⟩
    cases order <;> cases wide <;> decide
  have hnoPdb : Pdb.isFile data = false := startsWith_eq_false hfirst hpdb
  have hnoElf : Elf.isImage data = false := startsWith_eq_false hfirst helf
  simp only [detect, hnoPdb, hnoElf, hlayout, Bool.false_eq_true, if_false]

/-! ## Load commands -/

/-- What a command was found to be and where its body is agree with what it is to be. -/
def Describes (l : Layout) (data : Bytes) (table : SymbolCommand) (found : Command)
    (c : LoadCommand) : Prop := found.kind = c.kind l ∧ c.BodyAt l data table found.offset

/-- One step of the walk: a record is read, checked and stepped over. -/
theorem commands_step (l : Layout) (data : Bytes) (offset count : Nat) :
    commands l data offset (count + 1) = match data.record offset 8 with
      | .error e => Walk.failed e
      | .ok r =>
        let size := r.number l.order 4 4
        if size < 8 then Walk.failed (.loadCommandSize offset size)
        else Walk.cons ⟨r.number l.order 0 4, offset⟩ (commands l data (offset + size) count) :=
  (rfl)

theorem commands_succ {r : Bytes} {size count : Nat} (hrecord : data.record offset 8 = .ok r)
    (hsize : r.number l.order 4 4 = size) (hlarge : ¬ size < 8) :
    commands l data offset (count + 1)
      = Walk.cons ⟨r.number l.order 0 4, offset⟩ (commands l data (offset + size) count) := by
  simp only [commands_step, hrecord, hsize, hlarge, if_false]

/-- The walk over the load commands meets all of them. -/
theorem commands_of_commandsAt {cs : List LoadCommand} (h : CommandsAt l data table offset cs) :
    ∃ items, commands l data offset cs.length = ⟨items, none⟩ ∧
      List.Forall₂ (Describes l data table) items cs := by
  induction h with
  | nil => exact ⟨[], rfl, .nil⟩
  | @cons offset size c cs head large fits body rest ih =>
    obtain ⟨items, hitems, hall⟩ := ih
    have hkind : c.kind l < 2 ^ 32 := by
      cases c with
      | segment ss => exact l.segmentCommand_lt
      | symbols => show 2 < 2 ^ 32; decide
      | other kind => exact body.1
    have hinside := head.end_le (by simp)
    have hrecord : data.record offset 8 = .ok (data.slice offset 8) :=
      record_eq (by simpa using hinside)
    have hfirst : (data.slice offset 8).number l.order 0 4 = c.kind l :=
      field_of_encodeAll 8 head (by simp) (i := 0) (by simp) hkind
    have hsecond : (data.slice offset 8).number l.order 4 4 = size :=
      field_of_encodeAll 8 head (by simp) (i := 1) (by simp) fits
    refine ⟨⟨c.kind l, offset⟩ :: items, ?_, .cons ⟨rfl, body⟩ hall⟩
    rw [List.length_cons, commands_succ hrecord hsecond (by omega), hfirst, hitems]
    rfl

/-- The record of a section is read. -/
theorem sectionAt_eq {s : Section} (h : SectionAt l data offset s) (hplain : IsPlain s) :
    sectionAt l data offset = .ok s := by
  obtain ⟨hnameLength, hnameAscii, hnameNul⟩ := hplain.name
  obtain ⟨hsegmentLength, hsegmentAscii, hsegmentNul⟩ := hplain.segment
  have hsize := l.sectionSize_le
  have hsegmentAt := h.fields.right.left
  have hnumbers := h.fields.right.right
  rw [length_padded hnameLength] at hsegmentAt hnumbers
  rw [length_padded hsegmentLength, Nat.add_assoc] at hnumbers
  have hname : ((data.slice offset l.sectionSize).slice 0 16).paddedName = s.name := by
    have hslice := slice_of_standsAt h.fields.left
    rw [length_padded hnameLength] at hslice
    rw [slice_slice (by omega), Nat.add_zero, hslice, paddedName_padded hnameAscii hnameNul]
  have hsegment : ((data.slice offset l.sectionSize).slice 16 16).paddedName = s.segment := by
    have hslice := slice_of_standsAt hsegmentAt
    rw [length_padded hsegmentLength] at hslice
    rw [slice_slice (by omega), hslice, paddedName_padded hsegmentAscii hsegmentNul]
  have hinner : 32 + (l.order.encodeAll [(l.addressWidth, s.address),
      (l.addressWidth, s.size)]).length ≤ l.sectionSize := by
    simp only [ByteOrder.length_encodeAll, List.map_cons, List.map_nil, List.sum_cons, List.sum_nil]
    omega
  have haddress : (data.slice offset l.sectionSize).number l.order 32 l.addressWidth
      = s.address :=
    innerField_of_encodeAll _ 32 hnumbers hinner (i := 0) (by simp) (l.lt_address hplain.address)
  have hsizeField : (data.slice offset l.sectionSize).number l.order (32 + l.addressWidth)
      l.addressWidth = s.size :=
    innerField_of_encodeAll _ 32 hnumbers hinner (i := 1) (by simp) (l.lt_address hplain.size)
  unfold sectionAt
  rw [record_eq h.inside]
  simp only [bind, Except.bind, pure, Except.pure, hname, hsegment, haddress, hsizeField]

/-- The sections of a load command are read. -/
theorem sectionsOf_eq {found : Command} {c : LoadCommand} (h : Describes l data table found c)
    (hplain : ∀ s ∈ c.sections, IsPlain s) : sectionsOf l data found = .ok c.sections := by
  obtain ⟨hkind, hbody⟩ := h
  unfold sectionsOf
  cases c with
  | segment ss =>
    have heq : found.kind = l.segmentCommand := hkind
    obtain ⟨hinside, hcount, hcountAt, hsections⟩ := hbody
    have hnumber : (data.slice found.offset l.segmentSize).number l.order l.sectionCountAt 4
        = ss.length := by
      rw [number_slice _ l.sectionCountAt_le, number_of_encoded hcountAt hcount]
    have htable : readTable (fun i => MachO.sectionAt l data
        ((found.offset + l.segmentSize + i * l.sectionSize : Nat))) 0 ss.length = .ok ss := by
      apply readTable_eq_ok
      intro i hi
      have hmem : ss[i] ∈ ss := List.getElem_mem hi
      rw [Nat.zero_add]
      exact sectionAt_eq (hsections i hi) (hplain _ hmem)
    rw [if_pos heq, record_eq hinside]
    simp only [bind, Except.bind, hnumber]
    exact htable
  | symbols =>
    have hne : ¬ found.kind = l.segmentCommand := by
      rw [hkind]
      exact l.segmentCommand_ne.symm
    rw [if_neg hne]
    rfl
  | other kind =>
    have hne : ¬ found.kind = l.segmentCommand := by
      rw [hkind]
      exact hbody.2.1
    rw [if_neg hne]
    rfl

/-- The sections of all load commands are read, in their order. -/
theorem mapM_sectionsOf {items : List Command} {cs : List LoadCommand}
    (h : List.Forall₂ (Describes l data table) items cs)
    (hplain : ∀ c ∈ cs, ∀ s ∈ c.sections, IsPlain s) :
    items.mapM (sectionsOf l data) = .ok (cs.map LoadCommand.sections) := by
  rw [mapM_eq_ok, List.forall₂_map_right_iff]
  induction h with
  | nil => exact .nil
  | @cons found c items cs hfound _ ih =>
    refine .cons (sectionsOf_eq hfound (hplain c List.mem_cons_self)) (ih ?_)
    intro d hd
    exact hplain d (List.mem_cons_of_mem _ hd)

/-- The symbol command is found, wherever it is. -/
theorem symbolCommand?_eq {items : List Command} {cs : List LoadCommand}
    (h : List.Forall₂ (Describes l data table) items cs) (hmem : .symbols ∈ cs)
    (hfits : table.offset < 2 ^ 32 ∧ table.count < 2 ^ 32 ∧ table.stringOffset < 2 ^ 32 ∧
      table.stringSize < 2 ^ 32) : symbolCommand? l data items = .ok (some table) := by
  induction h with
  | nil => cases hmem
  | @cons found c items cs hfound _ ih =>
    obtain ⟨hkind, hbody⟩ := hfound
    -- A command of any other kind is passed over, and the one that is sought comes behind it.
    have hskip (hc : c.kind l ≠ 2) (hrest : .symbols ∈ cs) :
        symbolCommand? l data (found :: items) = .ok (some table) := by
      have hfind : (found :: items).find? (fun c => c.kind = 2)
          = items.find? fun c => c.kind = 2 := by
        rw [← hkind] at hc
        simp [hc]
      unfold symbolCommand?
      rw [hfind]
      exact ih hrest
    cases c with
    | segment ss =>
      apply hskip l.segmentCommand_ne
      simpa using hmem
    | other kind =>
      apply hskip hbody.2.2
      simpa using hmem
    | symbols =>
      obtain ⟨hoffset, hcount, hstringOffset, hstringSize⟩ := hfits
      have hfind : (found :: items).find? (fun c => c.kind = 2) = some found :=
        List.find?_cons_of_pos (decide_eq_true hkind)
      have hinside := hbody.end_le (by simp)
      have hrecord : data.record found.offset 24 = .ok (data.slice found.offset 24) :=
        record_eq (by simpa [Nat.add_assoc] using hinside)
      have hoffsetField : (data.slice found.offset 24).number l.order 8 4 = table.offset :=
        innerField_of_encodeAll 24 8 hbody (by simp) (i := 0) (by simp) hoffset
      have hcountField : (data.slice found.offset 24).number l.order 12 4 = table.count :=
        innerField_of_encodeAll 24 8 hbody (by simp) (i := 1) (by simp) hcount
      have hstringsField : (data.slice found.offset 24).number l.order 16 4
          = table.stringOffset :=
        innerField_of_encodeAll 24 8 hbody (by simp) (i := 2) (by simp) hstringOffset
      have hsizeField : (data.slice found.offset 24).number l.order 20 4 = table.stringSize :=
        innerField_of_encodeAll 24 8 hbody (by simp) (i := 3) (by simp) hstringSize
      unfold symbolCommand?
      rw [hfind]
      simp only [hrecord, hoffsetField, hcountField, hstringsField, hsizeField, bind, Except.bind,
        pure, Except.pure]

/-! ## Symbols -/

theorem isDefinedIn_iff {s : Symbol} {nameOffset value ordinal : Nat} :
    Nlist.isDefinedIn ⟨nameOffset, s.type.toNat, s.ordinal.toNat, value⟩ ordinal = true
      ↔ s.IsDefinedIn ordinal := by
  have hand (mask bits : UInt8) :
      s.type.toNat &&& mask.toNat = bits.toNat ↔ s.type &&& mask = bits := by
    rw [← UInt8.toNat_and, UInt8.toNat_inj]
  unfold Nlist.isDefinedIn Symbol.IsDefinedIn
  rw [Bool.and_eq_true, Bool.and_eq_true, decide_eq_true_iff, decide_eq_true_iff,
    decide_eq_true_iff, and_assoc, ← hand, ← hand]
  rfl

/-- The name of a symbol is read from the string table. -/
theorem nameOf_eq {s : Symbol} {n : Nlist} (h : NameAt data table n.nameOffset s.name)
    (hname : ∀ name ∈ s.name, 0 ∉ name ∧ name.hasSurrogate = false)
    (hstrings : table.stringOffset + table.stringSize ≤ data.size) :
    nameOf data table n = .ok s.shownName := by
  unfold nameOf Symbol.shownName
  cases hstored : s.name with
  | none =>
    rw [hstored] at h
    have hzero : n.nameOffset = 0 := h
    rw [if_pos hzero]
  | some name =>
    rw [hstored] at h
    obtain ⟨hpos, -, hstands, hstop, hend⟩ := h
    obtain ⟨hnul, hscalar⟩ := hname name hstored
    have hlimit : min ((some (table.stringOffset + table.stringSize)).getD data.size) data.size
        = table.stringOffset + table.stringSize := Nat.min_eq_left hstrings
    have hread : data.name (table.stringOffset + n.nameOffset : Nat)
        (some (table.stringOffset + table.stringSize)) = .ok name := by
      rw [name_of_standsAt hstands (Utf8.zero_notMem_encode hnul),
        Utf8.decodeTolerant_encode hscalar]
      · rw [hlimit]
        omega
      · rw [hlimit, Nat.add_assoc]
        rcases hend with hend | hend
        · left
          omega
        · right
          rwa [← Nat.add_assoc]
    rw [if_neg hpos, hread]
    simp only [bind, Except.bind, pure, Except.pure, Text.dropHead?_underscore]
    cases name <;> rfl

/-- The record of a symbol is read. -/
theorem symbolAt_eq {s : Symbol} {i nameOffset description : Nat}
    (hfields : StandsAt data (table.offset + i * l.symbolSize)
      (l.order.encodeAll [(4, nameOffset), (1, s.type.toNat), (1, s.ordinal.toNat),
        (2, description), (l.addressWidth, s.value)]))
    (hfit : nameOffset < 2 ^ 32) (hvalue : s.value < 2 ^ 32) :
    symbolAt l data table i = .ok ⟨nameOffset, s.type.toNat, s.ordinal.toNat, s.value⟩ := by
  have hsize : l.symbolSize = 8 + l.addressWidth := rfl
  unfold symbolAt
  generalize table.offset + i * l.symbolSize = start at hfields ⊢
  have hlength : (l.order.encodeAll [(4, nameOffset), (1, s.type.toNat), (1, s.ordinal.toNat),
      (2, description), (l.addressWidth, s.value)]).length = l.symbolSize := by
    simp only [ByteOrder.length_encodeAll, List.map_cons, List.map_nil, List.sum_cons,
      List.sum_nil, hsize]
    omega
  have hinside := hfields.end_le (by rw [hlength]; omega)
  rw [hlength] at hinside
  have hnameOffset : (data.slice start l.symbolSize).number l.order 0 4 = nameOffset :=
    field_of_encodeAll _ hfields hlength.le (i := 0) (by simp) hfit
  have htype : (data.slice start l.symbolSize).number l.order 4 1 = s.type.toNat :=
    field_of_encodeAll _ hfields hlength.le (i := 1) (by simp) s.type.toNat_lt
  have hordinal : (data.slice start l.symbolSize).number l.order 5 1 = s.ordinal.toNat :=
    field_of_encodeAll _ hfields hlength.le (i := 2) (by simp) s.ordinal.toNat_lt
  have hvalueField : (data.slice start l.symbolSize).number l.order 8 l.addressWidth = s.value :=
    field_of_encodeAll _ hfields hlength.le (i := 4) (by simp) (l.lt_address hvalue)
  simp only [record_eq hinside, hnameOffset, htype, hordinal, hvalueField, bind, Except.bind,
    pure, Except.pure]

/-- The entry of a symbol is taken if it is wanted. -/
theorem entryAt_eq {s : Symbol} {i : Nat}
    (h : SymbolAt l data table (table.offset + i * l.symbolSize) s)
    (hname : ∀ name ∈ s.name, 0 ∉ name ∧ name.hasSurrogate = false)
    (hvalue : s.value < 2 ^ 32) (hstrings : table.stringOffset + table.stringSize ≤ data.size)
    (sectionName : Text) (ordinal : Nat) :
    entryAt l data table sectionName ordinal i
      = .ok (if s.IsDefinedIn ordinal then some (s.entry sectionName) else none) := by
  obtain ⟨nameOffset, description, hnameAt, hfields⟩ := h
  -- The offset of a symbol without a name is zero.
  have hfit : nameOffset < 2 ^ 32 := by
    cases hstored : s.name with
    | none =>
      rw [hstored] at hnameAt
      have hzero : nameOffset = 0 := hnameAt
      omega
    | some name =>
      rw [hstored] at hnameAt
      exact hnameAt.2.1
  unfold entryAt
  rw [symbolAt_eq hfields hfit hvalue]
  simp only [bind, Except.bind, pure, Except.pure]
  by_cases hdefined : s.IsDefinedIn ordinal
  · rw [if_pos (isDefinedIn_iff.2 hdefined), nameOf_eq hnameAt hname hstrings, if_pos hdefined]
    rfl
  · rw [if_neg (mt isDefinedIn_iff.1 hdefined), if_neg hdefined]

/-! ## Images -/

theorem wanted_eq_selects (selector : Text) (s : Section) :
    (decide (s.name = (selectedByText selector).2) && ((selectedByText selector).1.isEmpty
      || decide (s.segment = (selectedByText selector).1))) = decide (Selects selector s) := by
  rw [Bool.eq_iff_iff, decide_eq_true_iff]
  simp [Selects]

/-- The first section that a selector asks for is found, with its ordinal. -/
theorem find?_selected {image : Contents} {selector : Text} {before after : List Section}
    {target : Section} (hsections : image.sections = before ++ target :: after)
    (hbefore : ∀ s ∈ before, ¬ Selects selector s) (htarget : Selects selector target) :
    ((image.commands.map LoadCommand.sections).flatten.zipIdx 1).find? (fun x =>
      decide (x.1.name = (selectedByText selector).2) && ((selectedByText selector).1.isEmpty
        || decide (x.1.segment = (selectedByText selector).1)))
      = some (target, before.length + 1) := by
  have hflatten : (image.commands.map LoadCommand.sections).flatten
      = before ++ target :: after := by
    rw [← hsections, Contents.sections, List.flatMap_def]
  have hskip : ∀ s ∈ before, decide (Selects selector s) = false := by
    intro s hs
    exact decide_eq_false (hbefore s hs)
  simp only [wanted_eq_selects]
  rw [hflatten, find?_zipIdx hskip (decide_eq_true htarget), Nat.add_comm]

/-- The records of all symbols are read, and the entries of those of a section are taken. -/
theorem entries_eq {image : Contents} {commandsSize : Nat}
    (h : Encodes l data table image commandsSize) (sectionName : Text) (ordinal : Nat) :
    readTable (entryAt l data table sectionName ordinal) 0 table.count
      = .ok (image.symbols.map fun s =>
        if s.IsDefinedIn ordinal then some (s.entry sectionName) else none) := by
  rw [h.count, ← List.length_map (f := fun s : Symbol =>
    if s.IsDefinedIn ordinal then some (s.entry sectionName) else none)]
  apply readTable_eq_ok
  intro i hi
  rw [List.length_map] at hi
  have hmem : image.symbols[i] ∈ image.symbols := List.getElem_mem hi
  rw [List.getElem_map, Nat.zero_add]
  exact entryAt_eq (h.symbols i hi) (image.symbolNames _ hmem) (image.symbolValues _ hmem)
    h.strings sectionName ordinal

/-- Reading an image that holds some contents gives the symbols of the first section that the
selector asks for. Apart from the name of the format and the size of the file, nothing depends on
the layout of the image or on where its records are. -/
theorem read_encoded {image : Contents} {commandsSize : Nat} {source : Source}
    (h : Encodes l source.data table image commandsSize) (selector : Text)
    {before after : List Section} {target : Section}
    (hsections : image.sections = before ++ target :: after)
    (hbefore : ∀ s ∈ before, ¬ Selects selector s) (htarget : Selects selector target)
    (companion : Option Bytes) :
    Image.read source (.text selector) companion = .ok ⟨
      { formatName := l.formatName
        sectionName := selector
        sectionSize := target.size
        fileSize := source.data.size
        entries := assignGapSizes
          ((image.symbols.filter fun s => s.IsDefinedIn (before.length + 1)).map
            fun s => s.entry selector)
          target.address (target.address + target.size) }, []⟩ := by
  obtain ⟨hcommandsFit, hsizeFit, htableFit⟩ := h.fits
  obtain ⟨items, hwalk, hall⟩ := commands_of_commandsAt h.commands
  have hheaderSize := l.headerSize_le
  have hinside := h.inside
  have hrecord : source.data.record 0 28 = .ok (source.data.slice 0 28) :=
    @record_eq _ 0 28 (by omega)
  have hcountField : (source.data.slice 0 28).number l.order 16 4 = image.commands.length :=
    innerField_of_encodeAll 28 16 h.header (by simp) (i := 0) (by simp) hcommandsFit
  have hsizeField : (source.data.slice 0 28).number l.order 20 4 = commandsSize :=
    innerField_of_encodeAll 28 16 h.header (by simp) (i := 1) (by simp) hsizeFit
  have hsectionsRead := mapM_sectionsOf hall image.isPlain
  have hsymbols := symbolCommand?_eq hall h.symbols_mem htableFit
  have hselected : selected (.text selector)
      = .ok (selector, (selectedByText selector).1, (selectedByText selector).2) := rfl
  have hfind := find?_selected hsections hbefore htarget
  have hentries := entries_eq h selector (before.length + 1)
  simp only [Image.read, detect_of_magic h.magic, bind, Except.bind]
  unfold MachO.read
  simp only [hrecord, within, hcountField, hsizeField, bind, Except.bind, pure, Except.pure]
  rw [if_neg (by omega)]
  simp only [hwalk, Walk.mapM_finished, hsectionsRead, hsymbols, hselected]
  rw [hfind]
  simp only [hentries, List.filterMap_map, Function.id_comp, filterMap_ite]

/-- Two segments with sections, between them a command that says nothing about symbols and the one
that does. The symbols of the last section are told from a debugging entry and from a symbol of
another section; one of them has no name, and one has two underscores. -/
def sampleContents : Contents where
  commands := [.segment [⟨"__TEXT", "__text", 0x1000, 0x40⟩, ⟨"__TEXT", "__const", 0x1040, 0x10⟩],
    .other 0x1B, .symbols, .segment [⟨"__DATA", "__data", 0x2000, 0x20⟩]]
  symbols := [⟨some "__init", 0x0F, 3, 0x2008⟩, ⟨some "_main", 0x0F, 1, 0x1000⟩,
    ⟨some "_line", 0x24, 3, 0x2004⟩, ⟨none, 0x0E, 3, 0x2000⟩, ⟨some "limit", 0x0E, 3, 0x2010⟩]
  isPlain := by decide
  symbolNames := by decide +kernel
  symbolValues := by decide

theorem sampleContents_encoded (l : Layout) :
    Encodes l (sampleContents.write l) (sampleContents.table l) sampleContents
      (sampleContents.commandsSize l) := by
  apply encodes_write
  · decide
  · intro kind hkind
    have heq : kind = 0x1B := by simpa [sampleContents] using hkind
    rw [heq]
    rcases l with ⟨order, wide⟩
    cases order <;> cases wide <;> decide
  · rcases l with ⟨order, wide⟩
    cases order <;> cases wide <;> decide +kernel

theorem sampleContents_read :
    Image.read (.inMemory (sampleContents.write ⟨.little, true⟩)) (.text ".data") none
      = .ok ⟨⟨"Mach-O 64", ".data", 0x20, 554, [⟨0x2008, 8, ".data", "_init"⟩,
          ⟨0x2000, 8, ".data", []⟩, ⟨0x2010, 0x10, ".data", "limit"⟩]⟩, []⟩ ∧
    Image.read (.inMemory (sampleContents.write ⟨.big, false⟩)) (.text ".data") none
      = .ok ⟨⟨"Mach-O 32", ".data", 0x20, 462, [⟨0x2008, 8, ".data", "_init"⟩,
          ⟨0x2000, 8, ".data", []⟩, ⟨0x2010, 0x10, ".data", "limit"⟩]⟩, []⟩ := by
  have hsections : sampleContents.sections
      = [⟨"__TEXT", "__text", 0x1000, 0x40⟩, ⟨"__TEXT", "__const", 0x1040, 0x10⟩]
        ++ ⟨"__DATA", "__data", 0x2000, 0x20⟩ :: [] := rfl
  constructor
  · rw [read_encoded (sampleContents_encoded _) ".data" hsections (by decide) (by decide) none,
      assignGapSizes_eq]
    decide +kernel
  · rw [read_encoded (sampleContents_encoded _) ".data" hsections (by decide) (by decide) none,
      assignGapSizes_eq]
    decide +kernel

end CrateLedger.Image.MachO
