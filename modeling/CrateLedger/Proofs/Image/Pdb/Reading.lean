import CrateLedger.Image.Container
import CrateLedger.Proofs.Image.Pdb.Contents

/-!
# Procedures and their public names

Main statement: reading a PDB file beside its executable gives the procedures of the selected
section, each of them once, in the order of the modules and of the records in a module, and names
each after the first public symbol of code at its address.
-/

namespace CrateLedger.Image.Pdb

open Bytes ByteOrder

/-! ## What is to be read -/

namespace Database

variable (db : Database)

/-- The name that public symbols give to an address: that of the first symbol of code or of a
function there. -/
def publicName? (address : Nat) : Option Text :=
  db.publics.findSome? fun
    | .publicSymbol p =>
      if p.flags &&& 3 ≠ 0 ∧ address? db.sections p.segment.toNat p.offset.toNat = some address
      then some (Utf8.decodeTolerant p.name) else none
    | _ => none

/-- The entry of a record, if it is a procedure in the section of a number. -/
def rawSymbol? (target : Coff.Section) (number : Nat) : CodeView.Symbol → Option RawSymbol
  | .procedure _ _ p =>
    let address := target.virtualAddress + p.offset.toNat
    if p.segment.toNat = number then
      some ⟨address, p.codeSize.toNat, target.name,
        (db.publicName? address).getD (Utf8.decodeTolerant p.name)⟩
    else none
  | _ => none

/-- The entries of the procedures in the section of a number. -/
def entries (target : Coff.Section) (number : Nat) : List RawSymbol :=
  (db.info.modules.filter fun m => m.HasSymbols).flatMap fun m =>
    m.symbols.filterMap (db.rawSymbol? target number)

end Database

/-! ## The header -/

section Header

variable {d : DebugInfo} {dbi : Bytes} (h : StandsAt dbi 0 d.bytes)

/-- What the header says. -/
def DebugInfo.header (d : DebugInfo) : Header where
  publicStream := d.publicStream.toNat
  modulesSize := d.moduleBytes.length
  between := [(d.contributions.length : Int), d.sectionMap.length, d.sources.length,
    d.typeServers.length, d.editing.length]
  optionalSize := (2 * d.optional.length : Nat)

theorem length_headerFields : (little.encodeAll d.headerFields).length = headerSize := by
  rw [length_encodeAll]
  rfl

include h

theorem headerSize_le : headerSize ≤ dbi.size := by
  have hsize := h.left.le_size (Nat.zero_le _)
  rwa [length_headerFields, Nat.zero_add] at hsize

/-- The sizes of the parts are what the header says. -/
theorem header_eq : header dbi = .ok d.header := by
  have hlength : (little.encodeAll d.headerFields).length ≤ headerSize := length_headerFields.le
  have hpublic : (dbi.slice 0 headerSize).number .little 20 2 = d.publicStream.toNat :=
    field_of_encodeAll headerSize h.left hlength (i := 1) (by simp [DebugInfo.headerFields])
      d.publicStream.toNat_lt
  -- Each size that is read is the field whose offset is the sum of the widths before it.
  have hsigned {i : Nat} (hi : i < d.headerFields.length) (hwidth : d.headerFields[i].1 = 4)
      (hfit : d.headerFields[i].2 < 2 ^ 31) : (dbi.slice 0 headerSize).signedNumber .little
        ((d.headerFields.take i).map Prod.fst).sum d.headerFields[i].1 = d.headerFields[i].2 := by
    apply signedNumber_eq (field_of_encodeAll headerSize h.left hlength hi ?_)
    · rw [hwidth]
      exact hfit
    · rw [hwidth]
      exact hfit.trans (by decide)
  have hbetween {part : List UInt8} (hmem : part ∈ [d.contributions, d.sectionMap, d.sources,
    d.typeServers, d.editing]) : part.length < 2 ^ 31 := d.length_between part hmem
  have hmodules : (dbi.slice 0 headerSize).signedNumber .little 24 4 = d.moduleBytes.length :=
    hsigned (i := 3) (by simp [DebugInfo.headerFields]) rfl d.length_modules
  have hcontributions : (dbi.slice 0 headerSize).signedNumber .little 28 4
      = d.contributions.length :=
    hsigned (i := 4) (by simp [DebugInfo.headerFields]) rfl (hbetween (by simp))
  have hsectionMap : (dbi.slice 0 headerSize).signedNumber .little 32 4 = d.sectionMap.length :=
    hsigned (i := 5) (by simp [DebugInfo.headerFields]) rfl (hbetween (by simp))
  have hsources : (dbi.slice 0 headerSize).signedNumber .little 36 4 = d.sources.length :=
    hsigned (i := 6) (by simp [DebugInfo.headerFields]) rfl (hbetween (by simp))
  have htypeServers : (dbi.slice 0 headerSize).signedNumber .little 40 4 = d.typeServers.length :=
    hsigned (i := 7) (by simp [DebugInfo.headerFields]) rfl (hbetween (by simp))
  have hoptional : (dbi.slice 0 headerSize).signedNumber .little 48 4
      = (2 * d.optional.length : Nat) :=
    hsigned (i := 9) (by simp [DebugInfo.headerFields]) rfl d.length_optional.2
  have hediting : (dbi.slice 0 headerSize).signedNumber .little 52 4 = d.editing.length :=
    hsigned (i := 10) (by simp [DebugInfo.headerFields]) rfl (hbetween (by simp))
  have hrecord : dbi.record 0 headerSize = .ok (dbi.slice 0 headerSize) := by
    have hsize := headerSize_le h
    exact @record_eq _ 0 headerSize (by omega)
  simp only [Pdb.header, DebugInfo.header, hrecord, bind, Except.bind, pure, Except.pure, hpublic,
    hmodules, hcontributions, hsectionMap, hsources, htypeServers, hoptional, hediting]

/-- The optional streams stand where the sizes of all parts before them lead. -/
theorem optionalBytes_standsAt :
    ∃ start : Nat, d.header.optionalAt = start ∧ StandsAt dbi start d.optionalBytes := by
  refine ⟨_, ?_, h.right.right.right.left⟩
  simp only [Header.optionalAt, DebugInfo.header, length_headerFields, List.foldr_cons,
    List.foldr_nil, List.length_append]
  push_cast
  omega

end Header

/-! ## Sections -/

theorem length_optionalBytes (d : DebugInfo) :
    d.optionalBytes.length = 2 * d.optional.length := by
  rw [DebugInfo.optionalBytes, length_flatMap_of_length fun n _ => length_encode little 2 n.toNat,
    Nat.mul_comm]

/-- The header of an index in their stream. -/
theorem sectionAt_eq {raw : Bytes} {headers : List SectionHeader}
    (h : StandsAt raw 0 (headers.flatMap SectionHeader.bytes)) {i : Nat} (hi : i < headers.length) :
    Coff.sectionAt raw 0 none i = .ok headers[i].toSection := by
  have hplace := h.getElem_flatMap (fun s _ => s.length_bytes) hi
  have hsize : (40 : Nat) = Coff.sectionHeaderSize := rfl
  have hinside := hplace.end_le (by rw [SectionHeader.length_bytes]; decide)
  have hname := hplace.left
  have hfields := hplace.right
  rw [SectionHeader.length_bytes] at hinside
  have hnameField : raw.slice (0 + i * Coff.sectionHeaderSize) 8
      = headers[i].nameField.toArray := by
    have hslice := slice_of_standsAt hname
    rwa [headers[i].length_nameField] at hslice
  rw [headers[i].length_nameField] at hfields
  have hinner : 8 + (little.encodeAll [(4, headers[i].virtualSize.toNat),
      (4, headers[i].virtualAddress.toNat), (24, headers[i].rest)]).length
      ≤ Coff.sectionHeaderSize := by
    simp [Coff.sectionHeaderSize]
  have hvirtualSize : (raw.slice (0 + i * Coff.sectionHeaderSize) Coff.sectionHeaderSize).number
      .little 8 4 = headers[i].virtualSize.toNat :=
    innerField_of_encodeAll _ 8 hfields hinner (i := 0) (by simp) headers[i].virtualSize.toNat_lt
  have hvirtualAddress : (raw.slice (0 + i * Coff.sectionHeaderSize) Coff.sectionHeaderSize).number
      .little 12 4 = headers[i].virtualAddress.toNat :=
    innerField_of_encodeAll _ 8 hfields hinner (i := 1) (by simp) headers[i].virtualAddress.toNat_lt
  unfold Coff.sectionAt
  rw [record_eq hinside]
  simp only [bind, Except.bind, pure, Except.pure]
  rw [slice_slice (by omega), Nat.add_zero, hnameField, hvirtualSize, hvirtualAddress]
  rfl

/-- The section headers are read from their stream. -/
theorem sections_eq {d : DebugInfo} {dbi raw : Bytes} {file : Msf.File}
    {headers : List SectionHeader} {rest : List UInt8} (h : StandsAt dbi 0 d.bytes)
    (hne : d.headerStream ≠ nilStream) (hstream : file.stream d.headerStream = .ok raw)
    (hraw : raw = (headers.flatMap SectionHeader.bytes ++ rest).toArray)
    (hrest : rest.length < Coff.sectionHeaderSize) :
    sections file dbi d.header = .ok (headers.map SectionHeader.toSection) := by
  obtain ⟨start, hstart, hoptional⟩ := optionalBytes_standsAt h
  have hlong := d.length_optional.1
  have hinside := hoptional.end_le (by rw [length_optionalBytes]; omega)
  rw [length_optionalBytes] at hinside
  have hcount : (d.header.optionalSize / 2).toNat = d.optional.length := by
    simp only [DebugInfo.header]
    omega
  have hsectionCount : raw.size / Coff.sectionHeaderSize = headers.length := by
    rw [hraw, List.size_toArray, List.length_append,
      length_flatMap_of_length fun s _ => SectionHeader.length_bytes s]
    exact Nat.div_eq_of_lt_le (by omega) (by rw [Nat.succ_mul]; omega)
  have hread : Coff.sections raw 0 headers.length none
      = .ok (headers.map SectionHeader.toSection) := by
    unfold Coff.sections
    rw [← List.length_map (f := SectionHeader.toSection)]
    apply readTable_eq_ok
    intro i hi
    rw [List.length_map] at hi
    rw [List.getElem_map, Nat.zero_add]
    refine sectionAt_eq ?_ hi
    rw [hraw]
    exact standsAt_toArray _ _
  have hentry := d.sectionHeaderEntry_lt
  have hword : (Bytes.numbers .little (dbi.slice start (2 * d.optional.length)) 2
      d.optional.length)[sectionHeaderEntry]? = some d.headerStream := by
    have hplace := hoptional.getElem_flatMap (fun n _ => length_encode little 2 n.toNat) hentry
    rw [Nat.mul_comm] at hplace
    rw [Bytes.numbers, List.getElem?_map, List.getElem?_range hentry, Option.map_some,
      Option.some.injEq, number_slice _ (by omega)]
    exact number_of_encoded hplace (UInt16.toNat_lt _)
  simp only [sections, hcount, if_neg hentry.not_ge, Msf.words, hstart, record_eq hinside, bind,
    Except.bind, pure, Except.pure, hword, if_neg hne, hstream, hsectionCount, hread]

/-! ## Modules -/

section Modules

variable {dbi : Bytes} {offset stop : Nat}

/-- A name is passed over together with its end. -/
theorem skipName_eq {name rest : List UInt8} (h : StandsAt dbi offset (name ++ 0 :: rest))
    (hnul : 0 ∉ name) (hstop : offset + name.length < stop) :
    skipName dbi offset stop = .ok (offset + name.length + 1) := by
  induction name generalizing offset with
  | nil =>
    have hzero : dbi[offset]? = some 0 := (standsAt_cons.1 h).1
    rw [List.length_nil, Nat.add_zero] at hstop ⊢
    rw [skipName, if_pos hstop]
    simp only [hzero, if_true]
  | cons b name ih =>
    obtain ⟨hb, hrest⟩ := standsAt_cons.1 h
    rw [List.length_cons] at hstop
    have hnext := ih hrest (fun hmem => hnul (List.mem_cons_of_mem _ hmem)) (by omega)
    have hne : ¬ b = 0 := by
      rintro rfl
      exact hnul List.mem_cons_self
    rw [skipName, if_pos (by omega)]
    simp only [hb, if_neg hne, hnext, List.length_cons]
    rw [Nat.add_assoc offset, Nat.add_comm 1]

theorem modulesFrom_step {r : Bytes} {next after : Nat} (hin : offset + headerSize ≤ stop)
    (hrecord : dbi.record (offset + 34 : Nat) 6 = .ok r)
    (hname : skipName dbi (offset + headerSize) stop = .ok next)
    (hobject : skipName dbi next stop = .ok after) :
    modulesFrom dbi offset stop =
      if r.number .little 0 2 = nilStream ∨ r.number .little 2 4 = 0 then
        modulesFrom dbi (alignWord after) stop
      else Walk.cons ⟨r.number .little 0 2, r.number .little 2 4⟩
        (modulesFrom dbi (alignWord after) stop) := by
  rw [modulesFrom.eq_def, dif_pos hin]
  simp only [hrecord, within]
  -- The matches keep equations with the results of passing over the names, so these cannot be
  -- rewritten in place.
  split
  · next e he => rw [hname] at he; cases he
  · next n hn =>
    rw [hname, Except.ok.injEq] at hn
    subst hn
    split
    · next e he => rw [hobject] at he; cases he
    · next a ha =>
      rw [hobject, Except.ok.injEq] at ha
      subst ha
      rfl

/-- The record of a module is read, and the next one starts behind its padding. -/
theorem modulesFrom_cons {m : ModuleInfo} (h : StandsAt dbi offset m.bytes) (haligned : 4 ∣ offset)
    (hstop : offset + m.bytes.length ≤ stop) :
    modulesFrom dbi offset stop =
      if m.HasSymbols then Walk.cons ⟨m.stream.toNat, m.size.toNat⟩
        (modulesFrom dbi (offset + m.bytes.length) stop)
      else modulesFrom dbi (offset + m.bytes.length) stop := by
  have hlength := m.length_bytes
  have hfields := h.left
  have hname : StandsAt dbi (offset + headerSize)
      (m.name ++ 0 :: (m.object ++ 0 :: m.padding)) := by
    simpa [headerSize] using h.right
  have hobject : StandsAt dbi (offset + headerSize + m.name.length + 1)
      (m.object ++ 0 :: m.padding) := (standsAt_cons.1 hname.right).2
  have hinside := h.end_le (by unfold headerSize at hlength; omega)
  have hrecord : dbi.record (offset + 34 : Nat) 6 = .ok (dbi.slice (offset + 34) 6) := by
    apply record_eq
    unfold headerSize at hlength
    omega
  have hstream : (dbi.slice (offset + 34) 6).number .little 0 2 = m.stream.toNat := by
    rw [number_slice _ (by omega)]
    exact number_of_encodeAll hfields (i := 1) (by simp) m.stream.toNat_lt
  have hsize : (dbi.slice (offset + 34) 6).number .little 2 4 = m.size.toNat := by
    rw [number_slice _ (by omega)]
    exact number_of_encodeAll hfields (i := 2) (by simp) m.size.toNat_lt
  have hnext : skipName dbi (offset + headerSize) stop
      = .ok (offset + headerSize + m.name.length + 1) :=
    skipName_eq hname m.zero_notMem_name (by omega)
  have hafter : skipName dbi (offset + headerSize + m.name.length + 1) stop
      = .ok (offset + headerSize + m.name.length + 1 + m.object.length + 1) :=
    skipName_eq hobject m.zero_notMem_object (by omega)
  -- Records start and end at multiples of four bytes, and the padding is shorter than that.
  have halign : alignWord (offset + headerSize + m.name.length + 1 + m.object.length + 1)
      = offset + m.bytes.length := by
    have hfull := m.aligned
    have hpadding := m.length_padding
    unfold alignWord headerSize at *
    omega
  rw [modulesFrom_step (by unfold headerSize at *; omega) hrecord hnext hafter, hstream, hsize,
    halign]
  by_cases hsymbols : m.HasSymbols
  · rw [if_neg (by unfold ModuleInfo.HasSymbols at hsymbols; omega), if_pos hsymbols]
  · rw [if_pos (by unfold ModuleInfo.HasSymbols at hsymbols; omega), if_neg hsymbols]

/-- All modules with symbols are met: from one aligned record the walk comes to the next one. -/
theorem modulesFrom_eq {ms : List ModuleInfo}
    (h : StandsAt dbi offset (ms.flatMap ModuleInfo.bytes)) (haligned : 4 ∣ offset)
    (hstop : stop = offset + (ms.flatMap ModuleInfo.bytes).length) :
    modulesFrom dbi offset stop
      = ⟨(ms.filter fun m => m.HasSymbols).map fun m => ⟨m.stream.toNat, m.size.toNat⟩, none⟩ := by
  induction ms generalizing offset with
  | nil =>
    -- Nothing is left, and the walk stops where no record fits any more.
    have hover : ¬ offset + headerSize ≤ stop := by
      rw [hstop]
      simp [headerSize]
    rw [modulesFrom.eq_def, dif_neg hover]
    rfl
  | cons m ms ih =>
    rw [List.flatMap_cons] at h hstop
    rw [List.length_append] at hstop
    have hfull := m.aligned
    have hlength := m.length_bytes
    have hrest := ih h.right (by unfold headerSize at hlength; omega) (by omega)
    rw [modulesFrom_cons h.left haligned (by omega), hrest]
    by_cases hsymbols : m.HasSymbols
    · simp only [List.filter_cons, hsymbols, decide_true, if_true, List.map_cons]
      rfl
    · simp only [List.filter_cons, hsymbols, decide_false, Bool.false_eq_true, if_false]

end Modules

/-! ## Public symbols -/

/-- The address and name of a public symbol of code in some section. -/
def namedAddress? (sections : List Coff.Section) : CodeView.Symbol → Option (Nat × Text)
  | .publicSymbol p =>
    if p.flags &&& 3 ≠ 0 then
      (address? sections p.segment.toNat p.offset.toNat).map fun a =>
        (a, Utf8.decodeTolerant p.name)
    else none
  | _ => none

theorem isCode_iff {p : CodeView.PublicSymbol} {offset segment nameAt : Nat} :
    CodeView.Public.isCode ⟨p.flags.toNat, offset, segment, nameAt⟩ = true
      ↔ p.flags &&& 3 ≠ 0 := by
  have hand : (p.flags &&& 3).toNat = p.flags.toNat % 4 := by
    rw [UInt32.toNat_and]
    exact Nat.and_two_pow_sub_one_eq_mod _ 2
  rw [CodeView.Public.isCode, decide_eq_true_iff, ← hand, ne_eq, ne_eq, ← UInt32.toNat_inj]
  rfl

theorem publicName?_eq {stream : Bytes} {r : CodeView.Record} {s : CodeView.Symbol}
    (h : CodeView.Describes stream r s) (sections : List Coff.Section) :
    publicName? stream sections r = .ok (namedAddress? sections s) := by
  have hkind := h.1
  unfold publicName?
  cases s with
  | procedure kind hmem p =>
    have hne : ¬ r.kind = CodeView.publicKind := by
      intro heq
      have hmem' : r.kind ∈ CodeView.procedureKinds := hkind ▸ hmem
      exact CodeView.publicKind_notMem (heq ▸ hmem')
    rw [if_neg hne]
    rfl
  | publicSymbol p =>
    obtain ⟨hread, hname⟩ := CodeView.publicAt_eq h
    have heq : r.kind = CodeView.publicKind := hkind
    rw [if_pos heq, hread]
    simp only [bind, Except.bind, pure, Except.pure, namedAddress?]
    by_cases hcode : p.flags &&& 3 ≠ 0
    · rw [if_pos (isCode_iff.2 hcode), if_pos hcode]
      cases address? sections p.segment.toNat p.offset.toNat with
      | none => rfl
      | some address => simp only [hname, Option.map_some]
    · rw [if_neg (mt isCode_iff.1 hcode), if_neg hcode]
  | other kind hother content =>
    have hne : ¬ r.kind = CodeView.publicKind := by
      rw [hkind]
      exact fun heq => hother (heq ▸ List.mem_cons_self)
    rw [if_neg hne]
    rfl

theorem publicNames_eq {file : Msf.File} {hdr : Header} {stream : Bytes}
    {ss : List CodeView.Symbol} (hne : hdr.publicStream ≠ nilStream)
    (hstream : file.stream hdr.publicStream = .ok stream)
    (hbytes : stream = (ss.flatMap CodeView.Symbol.bytes).toArray) (hfits : ∀ s ∈ ss, s.Fits)
    (sections : List Coff.Section) :
    publicNames file hdr sections = .ok (ss.filterMap (namedAddress? sections)) := by
  have hstands : StandsAt stream 0 (ss.flatMap CodeView.Symbol.bytes) := by
    rw [hbytes]
    simpa using standsAt_toArray (ss.flatMap CodeView.Symbol.bytes) []
  obtain ⟨items, hitems, hall⟩ := CodeView.records_of_standsAt hfits hstands (Nat.zero_le _)
  have hsize : stream.size = 0 + (ss.flatMap CodeView.Symbol.bytes).length := by
    rw [hbytes, List.size_toArray, Nat.zero_add]
  have hread := mapM_of_forall₂ hall fun r s hr => publicName?_eq hr sections
  rw [← hsize] at hitems
  have hwalk : CodeView.records stream 0 stream.size = ⟨items, none⟩ := hitems
  simp only [publicNames, if_neg hne, hstream, hwalk, Walk.mapM_finished, hread, bind,
    Except.bind, pure, Except.pure, List.filterMap_map, Function.id_comp]

theorem lookup_filterMap {α β : Type} (f : α → Option (Nat × β)) (xs : List α) (key : Nat) :
    (xs.filterMap f).lookup key
      = xs.findSome? fun x => (f x).bind fun e => if e.1 = key then some e.2 else none := by
  induction xs with
  | nil => rfl
  | cons x xs ih =>
    rw [List.filterMap_cons, List.findSome?_cons]
    cases hx : f x with
    | none => exact ih
    | some e =>
      obtain ⟨found, value⟩ := e
      by_cases hkey : found = key
      · simp [hkey]
      · have hbeq : (key == found) = false := beq_eq_false_iff_ne.2 (Ne.symm hkey)
        simp only [List.lookup_cons, hbeq, Option.bind_some, if_neg hkey, ih]

/-- The first public symbol at an address is the first in the list of names that has it. -/
theorem lookup_namedAddress? (db : Database) (address : Nat) :
    (db.publics.filterMap (namedAddress? db.sections)).lookup address = db.publicName? address := by
  rw [lookup_filterMap, Database.publicName?]
  congr 1
  funext s
  cases s with
  | procedure kind h p => rfl
  | other kind h content => rfl
  | publicSymbol p =>
    simp only [namedAddress?]
    by_cases hcode : p.flags &&& 3 ≠ 0
    · cases haddress : address? db.sections p.segment.toNat p.offset.toNat with
      | none => simp [hcode]
      | some found => simp [hcode]
    · simp [hcode]

/-! ## Procedures -/

section Procedures

variable {db : Database} {target : Coff.Section} {number : Nat} {names : PublicNames}

theorem procedure?_eq (hnames : ∀ address, names.lookup address = db.publicName? address)
    {stream : Bytes} {r : CodeView.Record} {s : CodeView.Symbol}
    (h : CodeView.Describes stream r s) :
    procedure? stream target number names r = .ok (db.rawSymbol? target number s) := by
  have hkind := h.1
  unfold procedure?
  cases s with
  | procedure kind hmem p =>
    obtain ⟨hread, hname⟩ := CodeView.procedureAt_eq h
    have hprocedure : r.kind ∈ CodeView.procedureKinds := by
      rw [hkind]
      exact hmem
    rw [if_pos hprocedure, hread]
    simp only [bind, Except.bind, pure, Except.pure, Database.rawSymbol?]
    by_cases hsegment : p.segment.toNat = number
    · simp only [hsegment, if_true, hname, hnames]
    · simp only [hsegment, if_false]
  | publicSymbol p =>
    have hne : r.kind ∉ CodeView.procedureKinds := by
      rw [hkind]
      exact CodeView.publicKind_notMem
    rw [if_neg hne]
    rfl
  | other kind hother content =>
    have hne : r.kind ∉ CodeView.procedureKinds := by
      rw [hkind]
      exact fun hmem => hother (List.mem_cons_of_mem _ hmem)
    rw [if_neg hne]
    rfl

/-- The entries of a module are those of its procedures. -/
theorem moduleEntries_eq (hnames : ∀ address, names.lookup address = db.publicName? address)
    {file : Msf.File} {m : ModuleInfo} {stream : Bytes}
    (hstream : file.stream m.stream.toNat = .ok stream) (hbytes : stream = m.streamBytes.toArray)
    (hsize : m.size.toNat = 4 + (m.symbols.flatMap CodeView.Symbol.bytes).length)
    (hfits : ∀ s ∈ m.symbols, s.Fits) :
    moduleEntries file target number names ⟨m.stream.toNat, m.size.toNat⟩
      = .ok (m.symbols.filterMap (db.rawSymbol? target number)) := by
  have hall : StandsAt stream 0 m.streamBytes := by
    rw [hbytes]
    simpa using standsAt_toArray m.streamBytes []
  have hsymbols := hall.right.left
  have hsignature := hall.left.le_size (Nat.zero_le _)
  rw [length_encode, Nat.zero_add] at hsymbols hsignature
  obtain ⟨items, hitems, hdescribes⟩ := CodeView.records_of_standsAt hfits hsymbols hsignature
  rw [← hsize] at hitems
  have hwalk : CodeView.records stream 4 m.size.toNat = ⟨items, none⟩ := hitems
  have hread : items.mapM (procedure? stream target number names)
      = .ok (m.symbols.map (db.rawSymbol? target number)) :=
    mapM_of_forall₂ hdescribes fun r s hr => procedure?_eq hnames hr
  simp only [moduleEntries, hstream, hwalk, Walk.mapM_finished, hread, bind, Except.bind, pure,
    Except.pure, List.filterMap_map, Function.id_comp]

end Procedures

/-! ## Files -/

section Streams

variable {file : Msf.File} {streams : List Msf.Stored} {db : Database}
  (hfile : ∀ {number : Nat} {content : List UInt8}, HasStream streams number content →
    file.stream number = .ok content.toArray)
  (h : db.StoredIn streams)

theorem info_standsAt (db : Database) : StandsAt db.info.bytes.toArray 0 db.info.bytes := by
  simpa using standsAt_toArray db.info.bytes []

theorem modules_eq (db : Database) : modules db.info.bytes.toArray db.info.header
    = ⟨(db.info.modules.filter fun m => m.HasSymbols).map fun m =>
        ⟨m.stream.toNat, m.size.toNat⟩, none⟩ := by
  have hlist := (info_standsAt db).right.left
  rw [length_headerFields, Nat.zero_add] at hlist
  exact modulesFrom_eq hlist (by decide) rfl

include hfile h

theorem sections_of_storedIn :
    sections file db.info.bytes.toArray db.info.header = .ok db.sections :=
  sections_eq (info_standsAt db) h.headerStream_ne (hfile h.headers) rfl db.length_headersRest

/-- The names are those of the public symbols, also if there is no stream for them. -/
theorem publicNames_of_storedIn : publicNames file db.info.header db.sections
    = .ok (db.publics.filterMap (namedAddress? db.sections)) := by
  by_cases hnil : db.info.publicStream.toNat = nilStream
  · have hnone : db.info.header.publicStream = nilStream := hnil
    rw [publicNames, if_pos hnone, h.publics_nil hnil]
    rfl
  · exact publicNames_eq hnil (hfile (h.publics hnil)) rfl h.publics_fit _

/-- The modules that have symbols are read, and the others are passed over. -/
theorem mapM_moduleEntries (target : Coff.Section) (number : Nat) :
    (modules db.info.bytes.toArray db.info.header).mapM (fun m => within .pdb
      (moduleEntries file target number (db.publics.filterMap (namedAddress? db.sections)) m))
      = .ok ((db.info.modules.filter fun m => m.HasSymbols).map fun m =>
          m.symbols.filterMap (db.rawSymbol? target number)) := by
  rw [modules_eq, Walk.mapM_finished]
  refine mapM_of_forall₂ (R := fun x m => x = ⟨m.stream.toNat, m.size.toNat⟩ ∧
    m ∈ db.info.modules ∧ m.HasSymbols) ?_ ?_
  · refine List.forall₂_map_left_iff.2 (List.forall₂_same.2 fun m hm => ?_)
    exact ⟨rfl, by simpa using hm⟩
  · rintro x m ⟨rfl, hm, hsymbols⟩
    rw [moduleEntries_eq (lookup_namedAddress? db) (hfile (h.modules m hm hsymbols)) rfl
      (h.sizes m hm hsymbols) (h.modules_fit m hm hsymbols), within_ok]

end Streams

variable {data : Bytes} {blockSize blockCount mapBlock : Nat} {directoryBlocks : List Nat}
  {streams : List Msf.Stored} {db : Database}

/-- Reading a PDB file beside a PE image with intact headers succeeds for every section that it
has, and gives exactly the procedures in the first section of the wanted name. -/
theorem readPdb_stored
    (hstores : Msf.Stores data blockSize blockCount mapBlock directoryBlocks streams)
    (h : db.StoredIn streams) {executable : Bytes} (himage : Coff.isImage executable = true)
    {headers : Coff.Headers} (hheaders : Coff.headers executable = .ok headers) {wanted : Text}
    {before after : List Coff.Section} {target : Coff.Section}
    (hsections : db.sections = before ++ target :: after)
    (hbefore : ∀ s ∈ before, s.name ≠ wanted) (htarget : target.name = wanted) :
    readPdb data executable (.text wanted) = .ok ⟨
      { formatName := "PDB"
        sectionName := wanted
        sectionSize := target.virtualSize
        fileSize := executable.size
        entries := db.entries target (before.length + 1) }, []⟩ := by
  set file : Msf.File := ⟨⟨data, blockSize, blockCount⟩, streams.map Msf.Stored.extent⟩ with hopened
  have hopen : Msf.File.open data = .ok file := Msf.File.open_eq hstores
  have hfile {number : Nat} {content : List UInt8} (hstream : HasStream streams number content) :
      file.stream number = .ok content.toArray := by
    obtain ⟨s, hs, rfl⟩ := Option.map_eq_some_iff.1 hstream
    exact Msf.File.stream_eq hstores hs
  have hpdb : isFile data = true := startsWith_iff.2 hstores.magic
  have hdbi : file.stream dbiStream = .ok db.info.bytes.toArray := hfile h.info
  have hfind : (db.sections.zipIdx 1).find? (fun s => decide (Value.text wanted = .text s.1.name))
      = some (target, before.length + 1) := by
    rw [hsections]
    exact find?_named Coff.Section.name hbefore htarget
  have hread : Pdb.read data (some executable) (.text wanted) = .ok ⟨
      ⟨"PDB", target.name, target.virtualSize, executable.size,
        db.entries target (before.length + 1)⟩, []⟩ := by
    simp only [Pdb.read, himage, hheaders, hopen, hdbi, header_eq (info_standsAt db),
      sections_of_storedIn hfile h, within_ok, Bool.not_true, Bool.false_eq_true, if_false, bind,
      Except.bind, pure, Except.pure]
    simp only [hfind, publicNames_of_storedIn hfile h, within_ok, mapM_moduleEntries hfile h]
    rfl
  rw [htarget] at hread
  simp only [readPdb, hpdb, if_true, hread]

/-- A module with a record that is no procedure, a procedure in the section of code and one in
another section. -/
def sampleModule : ModuleInfo where
  front := 0
  stream := 6
  size := 93
  back := 0
  name := [0x61]
  object := [0x62]
  padding := []
  signature := 4
  symbols :=
    [.other 0x1101 (by decide) [1, 2, 3],
     .procedure 0x1110 (by decide) ⟨0, 0x20, 0, 0x10, 2, 0, [0x66], [], by decide⟩,
     .procedure 0x110F (by decide) ⟨0, 0x08, 0, 0x10, 3, 0, [0x67], [], by decide⟩]
  lines := [9, 9]
  zero_notMem_name := by decide
  zero_notMem_object := by decide
  length_padding := by decide
  aligned := by decide

/-- The sample module, a module without symbols, and another module with a procedure in the section
of code. The procedure of the first module has three public symbols at its address, the first of
which stands for no code. The other procedure has none. -/
def sampleDatabase : Database where
  info :=
    { front := 1
      publicStream := 5
      version := 0
      modules :=
        [sampleModule,
         { sampleModule with stream := 0xFFFF },
         { sampleModule with
           stream := 7
           size := 47
           symbols :=
             [.procedure 0x1147 (by decide)
               ⟨0, 0x40, 0, 0x30, 2, 0, [0x68, 0x69], [0], by decide⟩] }]
      contributions := [1, 2, 3]
      sectionMap := []
      sources := [4]
      typeServers := []
      editing := [5, 6]
      typeServerMap := 0
      optional := [0xFFFF, 0xFFFF, 0xFFFF, 0xFFFF, 0xFFFF, 4]
      back := 0
      rest := []
      length_modules := by decide +kernel
      length_between := by decide
      length_optional := by decide }
  headers :=
    [⟨[0x2E, 0x64, 0, 0, 0, 0, 0, 0], rfl, 0x80, 0x2000, 0⟩,
     ⟨[0x2E, 0x74, 0, 0, 0, 0, 0, 0], rfl, 0x100, 0x1000, 0⟩,
     ⟨[0x2E, 0x74, 0, 0, 0, 0, 0, 0], rfl, 0x300, 0x3000, 0⟩]
  headersRest := [1]
  publics :=
    [.publicSymbol ⟨0, 0x10, 2, [0x6E], [], by decide⟩,
     .publicSymbol ⟨2, 0x10, 2, [0x6D, 0x31], [], by decide⟩,
     .publicSymbol ⟨1, 0x10, 2, [0x6D, 0x32], [], by decide⟩]
  length_headersRest := by decide

/-- The streams that hold the sample, one block each. -/
def sampleStreams : List Msf.Stored :=
  [some ⟨[], []⟩, none, some ⟨[], []⟩, some ⟨sampleDatabase.info.bytes, [3]⟩,
   some ⟨sampleDatabase.headers.flatMap SectionHeader.bytes ++ sampleDatabase.headersRest, [4]⟩,
   some ⟨sampleDatabase.publics.flatMap CodeView.Symbol.bytes, [5]⟩]
   ++ (sampleDatabase.info.modules.filter fun m => m.HasSymbols).map fun m =>
     some ⟨m.streamBytes, [m.stream.toNat]⟩

/-- A file of eight blocks that stores these streams. -/
def sampleFile : Bytes :=
  (Msf.filled (Msf.magic ++ wordBytes [512, 1, 8, (Msf.directory sampleStreams).length, 0, 1]) 0
    ++ Msf.filled (wordBytes [2]) 0 ++ Msf.filled (Msf.directory sampleStreams) 0
    ++ (sampleStreams.drop 3).flatMap fun s => Msf.filled s.content 0).toArray

/-- A PE image without sections. -/
def sampleExecutable : Bytes :=
  ([(0x4D : UInt8), 0x5A] ++ List.replicate 58 0 ++ [0x40, 0, 0, 0]
    ++ [0x50, 0x45, 0, 0, 0x64, 0x86] ++ List.replicate 18 0).toArray

theorem sampleFile_stores : Msf.Stores sampleFile 512 8 1 [2] sampleStreams where
  magic := by decide +kernel
  header := ⟨1, 0, by decide +kernel⟩
  fits := by decide +kernel
  blockSize_mem := by decide
  whole := by decide +kernel
  mapBlock_lt := by decide
  map := by decide +kernel
  directory := Msf.Blocks.HasShares.holds (by decide +kernel)
  streams := Msf.Blocks.holds_of_shares (by decide +kernel)

theorem sampleDatabase_storedIn : sampleDatabase.StoredIn sampleStreams where
  info := by decide +kernel
  headerStream_ne := by decide
  headers := by decide +kernel
  publics_nil := by decide
  publics := by decide +kernel
  publics_fit := by decide
  modules := by decide +kernel
  sizes := by decide +kernel
  modules_fit := by decide

theorem sampleFile_read :
    readPdb sampleFile sampleExecutable (.text ".t") = .ok ⟨⟨"PDB", ".t", 0x100, 88,
      [⟨0x1010, 0x20, ".t", "m1"⟩, ⟨0x1030, 0x40, ".t", "hi"⟩]⟩, []⟩ := by
  have hsections : sampleDatabase.sections
      = [⟨".d", 0x80, 0x2000⟩] ++ ⟨".t", 0x100, 0x1000⟩ :: [⟨".t", 0x300, 0x3000⟩] := by
    decide +kernel
  have hheaders : Coff.headers sampleExecutable = .ok ⟨0x8664, [], 0, 0⟩ := by
    decide +kernel
  rw [readPdb_stored sampleFile_stores sampleDatabase_storedIn (by decide) hheaders hsections
    (by decide) rfl]
  decide +kernel

end CrateLedger.Image.Pdb
