import CrateLedger.Image.Container
import CrateLedger.Proofs.Image.Coff.Contents
import CrateLedger.Proofs.Image.Container
import CrateLedger.Proofs.Image.DerivedSizes
import CrateLedger.Proofs.Image.Table
import CrateLedger.Proofs.Text.Utf8

/-!
# Reading PE images

Main statement: reading an image gives the functions of the selected section in the order of the
table. Auxiliary records are stepped over, whatever they hold, because each symbol says how many
follow it.
-/

namespace CrateLedger.Image.Coff

open Bytes

/-! ## What is to be read -/

/-- A symbol is a function of the section of a number. -/
def Symbol.IsFunctionOf (s : Symbol) (number : Nat) : Prop :=
  s.sectionNumber = number ∧ s.type = functionType

instance (s : Symbol) (number : Nat) : Decidable (s.IsFunctionOf number) :=
  inferInstanceAs (Decidable (_ ∧ _))

/-- The name of a symbol without the underscore that a processor puts in front. -/
def Symbol.shownName (machine : Nat) (s : Symbol) : Text :=
  if machine = machineI386 then
    match s.name with
    | [] => []
    | c :: rest => if c = CodePoint.ofChar '_' then rest else c :: rest
  else s.name

/-- The entry of a symbol in a section, before its size is known. -/
def Symbol.entry (machine : Nat) (target : Section) (s : Symbol) : RawSymbol :=
  ⟨target.virtualAddress + s.value, 0, target.name, s.shownName machine⟩

/-- What is read from an image for the section of a number: its functions in the order of the table,
each with the bytes up to the next one. -/
def Contents.reading (image : Contents) (target : Section) (number fileSize : Nat) : Reading where
  table :=
    { formatName := "PE"
      sectionName := target.name
      sectionSize := target.virtualSize
      fileSize := fileSize
      entries := assignGapSizes
        ((image.symbols.filter fun s => s.IsFunctionOf number).map
          fun s => s.entry image.machine target)
        target.virtualAddress (target.virtualAddress + target.virtualSize) }
  notices := []

variable {data : Bytes} {strings offset : Nat}

theorem name_of_stringAt {text : Text} (h : StringAt data offset text) :
    data.name offset none = .ok text := by
  have hlimit : min ((none : Option Nat).getD data.size) data.size = data.size := Nat.min_self _
  rw [name_of_standsAt h.stands (Utf8.zero_notMem_encode h.storable.1),
    Utf8.decodeTolerant_encode h.storable.2]
  · rw [hlimit]
    exact h.inside
  · rw [hlimit]
    exact h.ends

/-! ## Sections -/

theorem nameReference?_of_isReference {field : Text} {digits : List Char}
    (h : IsReference field digits) :
    nameReference? field = some (Numeral.readDecimal digits) := by
  obtain ⟨hne, hdigits, rfl⟩ := h
  have hall : digits.all Char.isDigit = true := List.all_eq_true.2 hdigits
  simp only [nameReference?, Text.dropHead?_append, Option.bind_eq_bind, Option.bind_some,
    Text.map_toChar_ofChars]
  rw [if_pos ⟨hne, hall⟩]

theorem nameReference?_eq_none {field : Text} (h : ∀ digits, ¬ IsReference field digits) :
    nameReference? field = none := by
  cases hdrop : Text.dropHead? "/" field with
  | none => simp [nameReference?, hdrop]
  | some rest =>
    simp only [nameReference?, hdrop, Option.bind_eq_bind, Option.bind_some]
    rw [if_neg]
    rintro ⟨hne, hall⟩
    have hrest : Text.ofChars (rest.map CodePoint.toChar) = rest := by
      rw [Text.ofChars, List.map_map]
      refine (List.map_congr_left fun c hc => ?_).trans (List.map_id rest)
      -- A surrogate is shown as a replacement character, which is no digit.
      refine CodePoint.ofChar_toChar (Bool.eq_false_iff.2 fun hsurrogate => ?_)
      have hdigit := List.all_eq_true.1 hall _ (List.mem_map_of_mem hc)
      rw [CodePoint.toChar, if_pos hsurrogate] at hdigit
      exact absurd hdigit (by decide)
    refine h _ ⟨hne, List.all_eq_true.1 hall, ?_⟩
    rw [hrest]
    exact Text.eq_append_of_dropHead? hdrop

theorem isFieldName_of_isReference {field : Text} {digits : List Char}
    (h : IsReference field digits) (hlength : digits.length ≤ 7) : IsFieldName field := by
  obtain ⟨-, hdigits, rfl⟩ := h
  have hmem : ∀ c ∈ Text.ofString "/" ++ Text.ofChars digits,
      c = CodePoint.ofChar '/' ∨ ∃ d : Char, d.isDigit = true ∧ c = CodePoint.ofChar d := by
    intro c hc
    rcases List.mem_append.1 hc with hc | hc
    · exact .inl (List.mem_singleton.1 hc)
    · obtain ⟨d, hd, rfl⟩ := List.mem_map.1 hc
      exact .inr ⟨d, hdigits d hd, rfl⟩
  refine ⟨?_, List.all_eq_true.2 fun c hc => ?_, fun hc => ?_⟩
  · rw [List.length_append, Text.ofChars, List.length_map]
    exact Nat.add_le_add_left hlength 1
  · rcases hmem c hc with rfl | ⟨d, hd, rfl⟩
    · decide
    · have halnum : d.isAlphanum = true := by simp [Char.isAlphanum, hd]
      exact decide_eq_true (toNat_lt_of_isAlphanum halnum)
  · rcases hmem _ hc with hzero | ⟨d, hd, hzero⟩
    · exact absurd hzero (by decide)
    · have hnul : d = '\x00' := CodePoint.ofChar_injective hzero.symm
      rw [hnul] at hd
      exact absurd hd (by decide)

/-- The header of a section is read. -/
theorem sectionAt_eq {tableOffset i : Nat} {s : Section}
    (h : SectionAt data strings (tableOffset + i * sectionHeaderSize) s) :
    sectionAt data tableOffset (some strings) i = .ok s := by
  obtain ⟨field, hname, hstands⟩ := h.fields
  obtain ⟨hsize, haddress⟩ := h.fits
  have hfits : IsFieldName field := by
    cases hname with
    | inline hfits _ => exact hfits
    | reference digits hlength hreference _ => exact isFieldName_of_isReference hreference hlength
  have hnumbers := hstands.right
  rw [length_padded hfits.1] at hnumbers
  set start := tableOffset + i * sectionHeaderSize with hstart
  have hshort : ((data.slice start sectionHeaderSize).slice 0 8).paddedName = field := by
    have hslice := slice_of_standsAt hstands.left
    rw [length_padded hfits.1] at hslice
    rw [slice_slice (by decide), Nat.add_zero, hslice, paddedName_padded hfits.2.1 hfits.2.2]
  have hsizeField : (data.slice start sectionHeaderSize).number .little 8 4 = s.virtualSize :=
    innerField_of_encodeAll _ 8 hnumbers (by simp [sectionHeaderSize]) (i := 0) (by simp) hsize
  have haddressField : (data.slice start sectionHeaderSize).number .little 12 4
      = s.virtualAddress :=
    innerField_of_encodeAll _ 8 hnumbers (by simp [sectionHeaderSize]) (i := 1) (by simp) haddress
  unfold sectionAt
  refine bind_eq_ok.2 ⟨_, record_eq h.inside, ?_⟩
  dsimp only
  rw [hshort, hsizeField, haddressField]
  cases hname with
  | inline _ hplain =>
    rw [nameReference?_eq_none hplain]
    rfl
  | reference digits _ hreference hstring =>
    rw [nameReference?_of_isReference hreference]
    exact bind_eq_ok.2 ⟨s.name, name_of_stringAt hstring, rfl⟩

/-! ## Symbols -/

theorem length_of_symbolNameAt {name : Text} {field : List UInt8}
    (h : SymbolNameAt data strings name field) : field.length = 8 := by
  cases h with
  | inline hfits _ => exact length_padded hfits.1
  | reference offset _ _ => simp

/-- The record of a symbol is read. -/
theorem recordAt_eq {symbolOffset i : Nat} {s : Symbol} (hplain : s.IsPlain)
    (h : SymbolAt data strings (symbolOffset + i * symbolSize) s) :
    ∃ field, SymbolNameAt data strings s.name field ∧ recordAt data symbolOffset i
      = .ok ⟨field.toArray, s.value, s.sectionNumber, s.type, s.auxiliaries.length⟩ := by
  obtain ⟨field, hname, hstands⟩ := h
  have hlength := length_of_symbolNameAt hname
  have hnumbers := hstands.left.right
  have hinside := hstands.left.end_le (by simp)
  rw [hlength] at hnumbers
  rw [List.length_append, hlength] at hinside
  unfold recordAt
  set start := symbolOffset + i * symbolSize with hstart
  have hfield : (data.slice start symbolSize).slice 0 8 = field.toArray := by
    have hslice := slice_of_standsAt hstands.left.left
    rw [hlength] at hslice
    rw [slice_slice (by decide), Nat.add_zero, hslice]
  have hvalue : (data.slice start symbolSize).number .little 8 4 = s.value :=
    innerField_of_encodeAll _ 8 hnumbers (by simp [symbolSize]) (i := 0) (by simp) hplain.value
  have hnumber : (data.slice start symbolSize).signedNumber .little 12 2 = s.sectionNumber := by
    refine signedNumber_of_mod ?_ hplain.sectionNumber
    exact innerField_of_encodeAll _ 8 hnumbers (by simp [symbolSize]) (i := 1) (by simp)
      (by dsimp only [List.getElem_cons_succ, List.getElem_cons_zero]; omega)
  have htype : (data.slice start symbolSize).number .little 14 2 = s.type :=
    innerField_of_encodeAll _ 8 hnumbers (by simp [symbolSize]) (i := 2) (by simp) hplain.type
  have hauxiliaries : (data.slice start symbolSize).number .little 17 1 = s.auxiliaries.length :=
    innerField_of_encodeAll _ 8 hnumbers (by simp [symbolSize]) (i := 4) (by simp)
      hplain.auxiliaries
  have hrecord : data.record start symbolSize = .ok (data.slice start symbolSize) :=
    record_eq (by simpa [symbolSize] using hinside)
  refine ⟨field, hname, ?_⟩
  simp only [hrecord, bind, Except.bind, hfield, hvalue, hnumber, htype, hauxiliaries]
  rfl

theorem shownName_eq (machine : Nat) (s : Symbol) : s.shownName machine
    = if machine = machineI386 then (Text.dropHead? "_" s.name).getD s.name else s.name := by
  unfold Symbol.shownName
  cases s.name <;> simp only [Text.dropHead?_underscore]

/-- A name that stands in its field does not look like a reference, which starts with zeros. -/
theorem padded_not_zeros {name : Text} (hascii : name.isAscii = true) (hnul : 0 ∉ name)
    (hne : name ≠ []) : ((padded 8 name).take 4).all (· = 0) = false := by
  obtain ⟨c, rest, rfl⟩ := List.exists_cons_of_ne_nil hne
  have hc : c.val < 0x80 := of_decide_eq_true (List.all_eq_true.1 hascii c List.mem_cons_self)
  have hbyte : UInt8.ofNat c.val ≠ 0 := by
    intro hzero
    have hval : (UInt8.ofNat c.val).toNat = c.val :=
      UInt8.toNat_ofNat_of_lt' (hc.trans (by decide))
    rw [hzero] at hval
    have hc0 : c = 0 := Fin.ext hval.symm
    exact hnul (hc0 ▸ List.mem_cons_self)
  rw [padded, List.map_cons, List.cons_append, List.take_succ_cons, List.all_cons,
    decide_eq_false hbyte, Bool.false_and]

/-- The name of a symbol is read. -/
theorem nameOf_eq {h : Headers} {r : Record} {s : Symbol} {field : List UInt8}
    (hname : SymbolNameAt data (stringTableAt h.symbolOffset h.symbolCount) s.name field)
    (hfield : r.nameField = field.toArray) : nameOf data h r = .ok (s.shownName h.machine) := by
  have hslice : ((r.nameField.slice 0 4).all (· = 0)) = (field.take 4).all (· = 0) := by
    rw [← Array.all_toList, hfield, slice, Array.toList_extract, List.extract_eq_take_drop]
    rfl
  rw [shownName_eq]
  unfold nameOf
  rw [hslice]
  cases hname with
  | inline hfits hne =>
    rw [padded_not_zeros hfits.2.1 hfits.2.2 hne]
    dsimp only
    rw [if_neg Bool.false_ne_true, hfield, paddedName_padded hfits.2.1 hfits.2.2]
    rfl
  | reference offset hoffset hstring =>
    have hzero : ((ByteOrder.little.encodeAll [(4, 0), (4, offset)]).take 4).all (· = 0) = true :=
      rfl
    have hnumber : r.nameField.number .little 4 4 = offset := by
      have hstands : StandsAt r.nameField 0 (ByteOrder.little.encodeAll [(4, 0), (4, offset)]) := by
        simp [hfield, StandsAt]
      exact number_of_encodeAll (i := 1) hstands (by simp) hoffset
    rw [hzero]
    dsimp only
    rw [if_pos rfl, hnumber]
    exact bind_eq_ok.2 ⟨s.name, name_of_stringAt hstring, rfl⟩

/-- The functions of a section are read, and all other symbols and all auxiliary records are passed
over. -/
theorem functionsFrom_eq {h : Headers} {target : Section} {number i : Nat} {ss : List Symbol}
    (hplain : ∀ s ∈ ss, s.IsPlain)
    (hstands : SymbolsAt data (stringTableAt h.symbolOffset h.symbolCount)
      (h.symbolOffset + i * symbolSize) ss)
    (hcount : i + (ss.map Symbol.records).sum = h.symbolCount) :
    functionsFrom data h target number i
      = .ok ((ss.filter fun s => s.IsFunctionOf number).map fun s => s.entry h.machine target) := by
  induction ss generalizing i with
  | nil =>
    rw [functionsFrom, if_neg (by simp at hcount; omega)]
    rfl
  | cons s ss ih =>
    cases hstands with
    | cons head rest =>
      rw [List.map_cons, List.sum_cons] at hcount
      have hrecords : s.records = 1 + s.auxiliaries.length := rfl
      obtain ⟨field, hname, hrecord⟩ := recordAt_eq (hplain s List.mem_cons_self) head
      -- The next symbol comes behind the auxiliary records of this one.
      have hplace : h.symbolOffset + i * symbolSize + s.records * symbolSize
          = h.symbolOffset + (i + 1 + s.auxiliaries.length) * symbolSize := by
        rw [hrecords]
        ring
      rw [hplace] at rest
      have hrest := ih (fun t ht => hplain t (.tail _ ht)) rest (by omega)
      rw [functionsFrom, if_pos (by omega)]
      refine bind_eq_ok.2 ⟨_, hrecord, ?_⟩
      dsimp only
      by_cases hwanted : s.sectionNumber = number ∧ s.type = functionType
      · rw [if_pos hwanted]
        refine bind_eq_ok.2 ⟨_, nameOf_eq hname rfl, bind_eq_ok.2 ⟨_, hrest, ?_⟩⟩
        have hfunction : s.IsFunctionOf number := hwanted
        rw [List.filter_cons, if_pos (decide_eq_true hfunction)]
        rfl
      · have hother : ¬ s.IsFunctionOf number := hwanted
        rw [if_neg hwanted, List.filter_cons, if_neg (by simpa using hother)]
        exact hrest

/-! ## Images -/

/-- The headers of an image are read. -/
theorem headers_eq {place : Placement} {image : Contents} (h : Encodes data place image) :
    headers data = .ok ⟨image.machine, image.sections, place.symbolOffset, image.records⟩ := by
  obtain ⟨hstart, hmachine, hsections, hsymbols, hrecords, hoptional⟩ := h.fits
  have hstartEnd := h.start.end_le (by simp)
  rw [ByteOrder.length_encode] at hstartEnd
  have hstartField : (data.slice 0x3C 4).number .little 0 4 = place.start := by
    rw [number_slice .little (by decide), Nat.add_zero]
    exact number_of_encoded h.start hstart
  have hsignature : data.slice place.start 4 = #[0x50, 0x45, 0, 0] :=
    slice_of_standsAt h.header.left
  have hnumbers := h.header.right
  have hend := hnumbers.end_le (by simp)
  simp only [List.length_cons, List.length_nil, Nat.zero_add] at hnumbers hend
  rw [ByteOrder.length_encodeAll] at hend
  have hrecord : data.record (place.start + 4 : Nat) 20 = .ok (data.slice (place.start + 4) 20) :=
    record_eq (by simpa using hend)
  have hmachineField : (data.slice (place.start + 4) 20).number .little 0 2 = image.machine :=
    field_of_encodeAll 20 hnumbers (by simp) (i := 0) (by simp) hmachine
  have hcountField : (data.slice (place.start + 4) 20).number .little 2 2
      = image.sections.length :=
    field_of_encodeAll 20 hnumbers (by simp) (i := 1) (by simp) hsections
  have hoffsetField : (data.slice (place.start + 4) 20).number .little 8 4 = place.symbolOffset :=
    field_of_encodeAll 20 hnumbers (by simp) (i := 3) (by simp) hsymbols
  have hrecordsField : (data.slice (place.start + 4) 20).number .little 12 4 = image.records :=
    field_of_encodeAll 20 hnumbers (by simp) (i := 4) (by simp) hrecords
  have hoptionalField : (data.slice (place.start + 4) 20).number .little 16 2
      = place.optionalSize :=
    field_of_encodeAll 20 hnumbers (by simp) (i := 5) (by simp) hoptional
  have hsectionsRead : sections data (place.start + 24 + place.optionalSize) image.sections.length
      (some (stringTableAt place.symbolOffset image.records)) = .ok image.sections := by
    refine readTable_eq_ok fun i hi => ?_
    rw [Nat.zero_add]
    exact sectionAt_eq (h.sections i hi)
  unfold headers
  refine bind_eq_ok.2 ⟨_, record_eq hstartEnd, ?_⟩
  dsimp only
  rw [hstartField, hsignature]
  simp only [ne_eq, not_true_eq_false, if_false]
  refine bind_eq_ok.2 ⟨_, hrecord, ?_⟩
  simp only [hmachineField, hcountField, hoffsetField, hrecordsField, hoptionalField, h.present,
    if_false]
  exact bind_eq_ok.2 ⟨_, hsectionsRead, rfl⟩

/-- The functions of the first section of a name are read. -/
theorem read_eq {place : Placement} {image : Contents} (h : Encodes data place image) {name : Text}
    {before after : List Section} {target : Section}
    (hsections : image.sections = before ++ target :: after)
    (hbefore : ∀ s ∈ before, s.name ≠ name) (htarget : target.name = name) :
    read data (.text name) = .ok (image.reading target (before.length + 1) data.size) := by
  have hcount : image.records ≠ 0 := by
    obtain ⟨s, ss, hcons⟩ := List.exists_cons_of_ne_nil image.nonempty
    rw [Contents.records, hcons, List.map_cons, List.sum_cons, Symbol.records]
    omega
  set found : Headers :=
    ⟨image.machine, image.sections, place.symbolOffset, image.records⟩ with hfound
  have hentries : functionsFrom data found target (before.length + 1) 0
      = .ok ((image.symbols.filter fun s => s.IsFunctionOf (before.length + 1)).map
        fun s => s.entry image.machine target) := by
    refine functionsFrom_eq image.isPlain ?_ (Nat.zero_add _)
    rw [Nat.zero_mul, Nat.add_zero]
    exact h.symbols
  unfold read
  rw [headers_eq h, within_ok, ← hfound]
  refine bind_eq_ok.2 ⟨found, rfl, ?_⟩
  have hfind : (found.sections.zipIdx 1).find? (fun s => decide (Value.text name = .text s.1.name))
      = some (target, before.length + 1) := by
    rw [hfound, hsections]
    exact find?_named Section.name hbefore htarget
  rw [hfind]
  dsimp only
  rw [if_neg (not_or.2 ⟨h.present, hcount⟩), hentries, within_ok]
  rfl

/-- The first bytes of an image tell it from other formats. -/
theorem detect_of_magic (h : StandsAt data 0 [0x4D, 0x5A]) : detect data = .ok .pe := by
  have himage : isImage data = true := startsWith_iff.2 h
  have hfirst : data[0]? = some 0x4D := (standsAt_cons.1 h).1
  have hnoElf : Elf.isImage data = false := startsWith_eq_false hfirst (by decide)
  have hnoPdb : Pdb.isFile data = false := by
    refine Bool.eq_false_iff.2 fun hpdb => ?_
    have hsecond := (standsAt_cons.1 (standsAt_cons.1 (startsWith_iff.1 hpdb)).2).1
    rw [(standsAt_cons.1 (standsAt_cons.1 h).2).1] at hsecond
    exact absurd hsecond (by decide)
  simp only [detect, hnoPdb, hnoElf, layout?_of_isImage himage, himage, Bool.false_eq_true,
    if_false, if_true]

/-- **Reading an image** gives the functions of the first section of a name: their names, without
the underscore that one processor puts in front, and their addresses, which are those of the section
and the value of the symbol, an unsigned number, added up. It does not depend on what auxiliary
records hold or on where anything is in the image. -/
theorem symbols_read_back {place : Placement} {image : Contents} {source : Source}
    (h : Encodes source.data place image) {name : Text} {before after : List Section}
    {target : Section} (hsections : image.sections = before ++ target :: after)
    (hbefore : ∀ s ∈ before, s.name ≠ name) (htarget : target.name = name)
    (companion : Option Bytes) :
    read source.data (.text name)
        = .ok (image.reading target (before.length + 1) source.data.size)
      ∧ Image.read source (.text name) companion
        = .ok (image.reading target (before.length + 1) source.data.size) := by
  have hread := read_eq h hsections hbefore htarget
  refine ⟨hread, ?_⟩
  rw [Image.read, detect_of_magic h.magic]
  exact hread

/-- Three sections, of which two have one name and one has a name that does not fit, and symbols of
two of them. The first has an auxiliary record that looks like a symbol with many more of them, one
has a name that does not fit, one a value with the highest bit set, and one a name that just
fits. -/
def sampleContents : Contents where
  machine := machineI386
  sections := [⟨".text", 0x100, 0x1000⟩, ⟨".debug_info", 0x40, 0x3000⟩, ⟨".text", 8, 0x4000⟩]
  symbols := [⟨"_main", 0x20, 1, functionType, 2, [padded 8 "_fake"
      ++ ByteOrder.little.encodeAll [(4, 0x30), (2, 1), (2, functionType), (1, 2), (1, 200)]]⟩,
    ⟨"__a_long_name", 0x40, 1, functionType, 2, []⟩, ⟨"_data", 0xFFFFFFF0, 2, functionType, 3, []⟩,
    ⟨"exactly8", 0, 1, functionType, 2, []⟩, ⟨"_abs", 0, -1, functionType, 2, []⟩]
  isPlain := by decide
  nonempty := List.cons_ne_nil _ _

/-- An image of the sample. -/
def sampleImage : Bytes :=
  ([0x4D, 0x5A] ++ List.replicate 58 0 ++ ByteOrder.little.encode 4 64
    ++ ([0x50, 0x45, 0, 0] ++ ByteOrder.little.encodeAll
      [(2, machineI386), (2, 3), (4, 0), (4, 208), (4, 6), (2, 0), (2, 0)])
    ++ (padded 8 ".text" ++ ByteOrder.little.encodeAll [(4, 0x100), (4, 0x1000)]
      ++ List.replicate 24 0)
    ++ (padded 8 "/18" ++ ByteOrder.little.encodeAll [(4, 0x40), (4, 0x3000)]
      ++ List.replicate 24 0)
    ++ (padded 8 ".text" ++ ByteOrder.little.encodeAll [(4, 8), (4, 0x4000)]
      ++ List.replicate 24 0)
    ++ (padded 8 "_main" ++ ByteOrder.little.encodeAll
      [(4, 0x20), (2, 1), (2, functionType), (1, 2), (1, 1)])
    ++ (padded 8 "_fake" ++ ByteOrder.little.encodeAll
      [(4, 0x30), (2, 1), (2, functionType), (1, 2), (1, 200)])
    ++ (ByteOrder.little.encodeAll [(4, 0), (4, 4)] ++ ByteOrder.little.encodeAll
      [(4, 0x40), (2, 1), (2, functionType), (1, 2), (1, 0)])
    ++ (padded 8 "_data" ++ ByteOrder.little.encodeAll
      [(4, 0xFFFFFFF0), (2, 2), (2, functionType), (1, 3), (1, 0)])
    ++ (padded 8 "exactly8" ++ ByteOrder.little.encodeAll
      [(4, 0), (2, 1), (2, functionType), (1, 2), (1, 0)])
    ++ (padded 8 "_abs" ++ ByteOrder.little.encodeAll
      [(4, 0), (2, 0xFFFF), (2, functionType), (1, 2), (1, 0)])
    ++ ByteOrder.little.encode 4 30 ++ Utf8.encode "__a_long_name" ++ [0]
    ++ Utf8.encode ".debug_info" ++ [0]).toArray

theorem not_isReference {c : CodePoint} (h : c ≠ '/') (rest : Text) (digits : List Char) :
    ¬ IsReference (c :: rest) digits := fun hreference => h (List.cons.inj hreference.2.2).1

theorem sampleImage_encodes : Encodes sampleImage ⟨64, 0, 208, 0, 0⟩ sampleContents where
  magic := by decide +kernel
  start := by decide +kernel
  header := by decide +kernel
  sections := by
    have hinline : ∀ name : Text, name = ".text" → SectionNameAt sampleImage 316 name name := by
      rintro name rfl
      exact .inline (by decide) (not_isReference (by decide) _)
    have hdebug : StringAt sampleImage (316 + Numeral.readDecimal ['1', '8']) ".debug_info" :=
      ⟨by decide +kernel, by decide +kernel, by decide +kernel, by decide +kernel⟩
    have hfirst : SectionAt sampleImage 316 88 ⟨".text", 0x100, 0x1000⟩ :=
      ⟨⟨_, hinline _ rfl, by decide +kernel⟩, by decide +kernel, by decide⟩
    have hsecond : SectionAt sampleImage 316 128 ⟨".debug_info", 0x40, 0x3000⟩ :=
      ⟨⟨"/18", .reference ['1', '8'] (by decide) ⟨by decide, by simp, rfl⟩ hdebug,
        by decide +kernel⟩, by decide +kernel, by decide⟩
    have hthird : SectionAt sampleImage 316 168 ⟨".text", 8, 0x4000⟩ :=
      ⟨⟨_, hinline _ rfl, by decide +kernel⟩, by decide +kernel, by decide⟩
    intro i hi
    have hlt : i < 3 := hi
    interval_cases i
    · exact hfirst
    · exact hsecond
    · exact hthird
  present := by decide
  symbols := by
    have hlong : StringAt sampleImage (316 + 4) "__a_long_name" :=
      ⟨by decide +kernel, by decide +kernel, by decide +kernel, by decide +kernel⟩
    exact .cons ⟨_, .inline (by decide) (by decide), by decide +kernel⟩
      (.cons ⟨_, .reference 4 (by decide) hlong, by decide +kernel⟩
        (.cons ⟨_, .inline (by decide) (by decide), by decide +kernel⟩
          (.cons ⟨_, .inline (by decide) (by decide), by decide +kernel⟩
            (.cons ⟨_, .inline (by decide) (by decide), by decide +kernel⟩ .nil))))
  fits := by decide

/-- Reading the sample gives the three functions of the first of the two sections of the name. -/
theorem sampleImage_read :
    read sampleImage (.text ".text") = .ok ⟨⟨"PE", ".text", 0x100, 346,
      [⟨0x1020, 0x20, ".text", "main"⟩, ⟨0x1040, 0xC0, ".text", "_a_long_name"⟩,
        ⟨0x1000, 0x20, ".text", "exactly8"⟩]⟩, []⟩ := by
  have hsections : sampleContents.sections = [] ++ ⟨".text", 0x100, 0x1000⟩
      :: [⟨".debug_info", 0x40, 0x3000⟩, ⟨".text", 8, 0x4000⟩] := rfl
  have hsource : Encodes (Source.inMemory sampleImage).data ⟨64, 0, 208, 0, 0⟩ sampleContents :=
    sampleImage_encodes
  have hread := (symbols_read_back hsource hsections (List.forall_mem_nil _) rfl none).1
  have hreading : sampleContents.reading ⟨".text", 0x100, 0x1000⟩
      (([] : List Section).length + 1) sampleImage.size
      = ⟨⟨"PE", ".text", 0x100, 346, [⟨0x1020, 0x20, ".text", "main"⟩,
        ⟨0x1040, 0xC0, ".text", "_a_long_name"⟩, ⟨0x1000, 0x20, ".text", "exactly8"⟩]⟩, []⟩ := by
    rw [Contents.reading, assignGapSizes_eq]
    decide +kernel
  exact hread.trans (congrArg Except.ok hreading)

/-- Values have no sign: the address is that of the section and the value added up, far behind the
section, and not the one in front of it that a signed value would give. -/
theorem sampleImage_unsigned :
    read sampleImage (.text ".debug_info")
        = .ok ⟨⟨"PE", ".debug_info", 0x40, 346, [⟨0x100002FF0, 0, ".debug_info", "data"⟩]⟩, []⟩
      ∧ (0x3000 : Int) + sampleImage.signedNumber .little 270 4 = 0x2FF0 := by
  have hsections : sampleContents.sections = [⟨".text", 0x100, 0x1000⟩]
      ++ ⟨".debug_info", 0x40, 0x3000⟩ :: [⟨".text", 8, 0x4000⟩] := rfl
  have hbefore : ∀ s ∈ [(⟨".text", 0x100, 0x1000⟩ : Section)], s.name ≠ ".debug_info" := by decide
  have hread := read_eq sampleImage_encodes hsections hbefore rfl
  have hreading : sampleContents.reading ⟨".debug_info", 0x40, 0x3000⟩
      ([(⟨".text", 0x100, 0x1000⟩ : Section)].length + 1) sampleImage.size
      = ⟨⟨"PE", ".debug_info", 0x40, 346, [⟨0x100002FF0, 0, ".debug_info", "data"⟩]⟩, []⟩ := by
    rw [Contents.reading, assignGapSizes_eq]
    decide +kernel
  exact ⟨hread.trans (congrArg Except.ok hreading), by decide +kernel⟩

end CrateLedger.Image.Coff
