import CrateLedger.Proofs.Image.Errors
import CrateLedger.Proofs.Image.Pdb.Reading

/-!
# Errors of reading PDB files

Reading a PDB file fails for one of the reasons that say what is wrong with it, with one exception.
The names in the module list are passed over byte by byte, and the list may be longer than the
stream that it is in. If a record of the list is inside the stream and its names go on behind it,
the reading fails without saying so.

Main statement: this is the only exception, and it is exactly known when it happens.
-/

namespace CrateLedger.Image.Pdb

/-! ## The module list -/

section Modules

variable {dbi : Bytes} {offset stop next : Nat} {e : ReadError}

theorem drop_eq_cons {b : UInt8} (h : dbi[offset]? = some b) :
    offset < dbi.size ∧ dbi.toList.drop offset = b :: dbi.toList.drop (offset + 1) := by
  obtain ⟨hlt, hb⟩ := Array.getElem?_eq_some_iff.1 h
  refine ⟨hlt, ?_⟩
  rw [List.drop_eq_getElem_cons (by simpa using hlt), Array.getElem_toList, hb]

theorem skipName_eq_error (h : skipName dbi offset stop = .error e) :
    e = .moduleNameOutside ∧ offset < stop ∧ dbi.size < stop ∧ 0 ∉ dbi.toList.drop offset := by
  fun_induction skipName dbi offset stop with
  | case1 offset hlt hnone =>
    rw [Array.getElem?_eq_none_iff] at hnone
    refine ⟨(Except.error.inj h).symm, hlt, by omega, ?_⟩
    rw [List.drop_eq_nil_of_le (by simpa using hnone)]
    exact List.not_mem_nil
  | case2 => cases h
  | case3 offset hlt b hb hne ih =>
    obtain ⟨he, -, hshort, hnul⟩ := ih h
    refine ⟨he, hlt, hshort, ?_⟩
    rw [(drop_eq_cons hb).2, List.mem_cons, not_or]
    exact ⟨Ne.symm hne, hnul⟩
  | case4 => cases h

/-- A name that is passed over in a list longer than its stream takes one of the NULs that are
left. -/
theorem skipName_eq_ok (h : skipName dbi offset stop = .ok next) (hlt : offset < stop)
    (hshort : dbi.size < stop) : next ≤ dbi.size ∧
      (dbi.toList.drop offset).count 0 = (dbi.toList.drop next).count 0 + 1 := by
  fun_induction skipName dbi offset stop with
  | case1 => cases h
  | case2 offset _ hb =>
    obtain ⟨hin, hdrop⟩ := drop_eq_cons hb
    obtain rfl : offset + 1 = next := Except.ok.inj h
    rw [hdrop, List.count_cons_self]
    exact ⟨hin, rfl⟩
  | case3 offset _ b hb hne ih =>
    obtain ⟨hin, hdrop⟩ := drop_eq_cons hb
    obtain ⟨hnext, hcount⟩ := ih h (by omega)
    rw [hdrop, List.count_cons_of_ne hne]
    exact ⟨hnext, hcount⟩
  | case4 => omega

/-- The names of the record at an offset are passed over, and the next record starts behind them. -/
structure Follows (dbi : Bytes) (stop offset following : Nat) : Prop where
  listed : offset + headerSize ≤ stop
  inside : offset + 40 ≤ dbi.size
  names : ∃ next after, skipName dbi (offset + headerSize) stop = .ok next ∧
    skipName dbi next stop = .ok after ∧ following = alignWord after

/-- A record of the module list is inside the stream, but the list is longer than the stream, and
no two NULs are left in the stream for the two names of the record. -/
structure NamesOutside (dbi : Bytes) (stop offset : Nat) : Prop where
  listed : offset + headerSize < stop
  inside : offset + 40 ≤ dbi.size
  short : dbi.size < stop
  unended : (dbi.toList.drop (offset + headerSize)).count 0 < 2

theorem namesOutside_iff : NamesOutside dbi stop offset ↔
    offset + headerSize ≤ stop ∧ offset + 40 ≤ dbi.size ∧
      ((skipName dbi (offset + headerSize) stop = .error .moduleNameOutside) ∨
        ∃ next, skipName dbi (offset + headerSize) stop = .ok next ∧
          skipName dbi next stop = .error .moduleNameOutside) := by
  constructor
  · rintro ⟨hlisted, hinside, hshort, hunended⟩
    refine ⟨hlisted.le, hinside, ?_⟩
    cases hname : skipName dbi (offset + headerSize) stop with
    | error e =>
      obtain ⟨rfl, -⟩ := skipName_eq_error hname
      exact .inl rfl
    | ok next =>
      obtain ⟨hnext, hcount⟩ := skipName_eq_ok hname hlisted hshort
      refine .inr ⟨next, rfl, ?_⟩
      cases hobject : skipName dbi next stop with
      | error e =>
        obtain ⟨rfl, -⟩ := skipName_eq_error hobject
        rfl
      | ok after =>
        obtain ⟨-, hcount'⟩ := skipName_eq_ok hobject (by omega) hshort
        omega
  · rintro ⟨hlisted, hinside, hname | ⟨next, hname, hobject⟩⟩
    · obtain ⟨-, hlt, hshort, hnul⟩ := skipName_eq_error hname
      refine ⟨hlt, hinside, hshort, ?_⟩
      rw [List.count_eq_zero_of_not_mem hnul]
      omega
    · obtain ⟨-, hlt, hshort, hnul⟩ := skipName_eq_error hobject
      have hlisted' : offset + headerSize < stop := (lt_of_skipName hname).trans hlt
      refine ⟨hlisted', hinside, hshort, ?_⟩
      rw [(skipName_eq_ok hname hlisted' hshort).2, List.count_eq_zero_of_not_mem hnul]
      omega

theorem record_eq_of_inside (h : offset + 40 ≤ dbi.size) :
    dbi.record (offset + 34 : Nat) 6 = .ok (dbi.slice (offset + 34) 6) :=
  Bytes.record_eq (by omega)

theorem Follows.failure_eq {following : Nat} (h : Follows dbi stop offset following) :
    (modulesFrom dbi offset stop).failure = (modulesFrom dbi following stop).failure := by
  obtain ⟨next, after, hname, hobject, rfl⟩ := h.names
  rw [modulesFrom_step h.listed (record_eq_of_inside h.inside) hname hobject]
  split <;> rfl

theorem NamesOutside.failure_eq (h : NamesOutside dbi stop offset) :
    (modulesFrom dbi offset stop).failure = some .moduleNameOutside := by
  obtain ⟨hlisted, hinside, hnames⟩ := namesOutside_iff.1 h
  rw [modulesFrom.eq_def, dif_pos hlisted]
  simp only [record_eq_of_inside hinside, within]
  split
  · next e he =>
    rcases hnames with hname | ⟨next, hname, -⟩
    · rw [hname] at he
      cases he
      rfl
    · rw [hname] at he
      cases he
  · next next hn =>
    rcases hnames with hname | ⟨next', hname, hobject⟩
    · rw [hname] at hn
      cases hn
    · rw [hname, Except.ok.injEq] at hn
      subst hn
      split
      · next e he =>
        rw [hobject] at he
        cases he
        rfl
      · next after ha =>
        rw [hobject] at ha
        cases ha

/-- A record that can be read is inside the stream. -/
theorem inside_of_record {r : Bytes}
    (h : within .pdb (dbi.record (offset + 34 : Nat) 6) = .ok r) : offset + 40 ≤ dbi.size := by
  unfold Bytes.record at h
  split at h
  · cases h
  · omega

/-- If the walk through the modules breaks off, then at a broken record, or at the names of a record
that the records before it lead to. -/
theorem modulesFrom_failure (h : (modulesFrom dbi offset stop).failure = some e) :
    e.Refuses ∨ e = .moduleNameOutside ∧
      ∃ p, Relation.ReflTransGen (Follows dbi stop) offset p ∧ NamesOutside dbi stop p := by
  fun_induction modulesFrom dbi offset stop with
  | case1 offset hlisted e' hrecord =>
    obtain rfl : e' = e := Option.some.inj h
    unfold Bytes.record at hrecord
    split at hrecord
    · cases hrecord
      exact .inl (.malformed _ _)
    · cases hrecord
  | case2 offset hlisted r hrecord e' hname =>
    obtain rfl : e' = e := Option.some.inj h
    obtain ⟨rfl, -⟩ := skipName_eq_error hname
    refine .inr ⟨rfl, offset, .refl, namesOutside_iff.2 ⟨hlisted, ?_, .inl hname⟩⟩
    exact inside_of_record hrecord
  | case3 offset hlisted r hrecord next hname e' hobject =>
    obtain rfl : e' = e := Option.some.inj h
    obtain ⟨rfl, -⟩ := skipName_eq_error hobject
    refine .inr ⟨rfl, offset, .refl, namesOutside_iff.2 ⟨hlisted, ?_, .inr ⟨next, hname, hobject⟩⟩⟩
    exact inside_of_record hrecord
  | case4 offset hlisted r hrecord next hname after hobject _ _ _ _ _ _ ih
  | case5 offset hlisted r hrecord next hname after hobject _ _ _ _ _ _ ih =>
    refine (ih h).imp_right fun ⟨he, p, hleads, hnames⟩ => ⟨he, p, .head ?_ hleads, hnames⟩
    exact ⟨hlisted, inside_of_record hrecord, next, after, hname, hobject, rfl⟩
  | case6 => cases h

theorem modulesFrom_failure_iff :
    (modulesFrom dbi offset stop).failure = some .moduleNameOutside ↔
      ∃ p, Relation.ReflTransGen (Follows dbi stop) offset p ∧ NamesOutside dbi stop p := by
  constructor
  · intro h
    rcases modulesFrom_failure h with hrefuses | ⟨-, hnames⟩
    · cases hrefuses
    · exact hnames
  · rintro ⟨p, hleads, hnames⟩
    induction hleads using Relation.ReflTransGen.head_induction_on with
    | refl => exact hnames.failure_eq
    | head hfollows _ ih => rw [hfollows.failure_eq, ih]

end Modules

/-! ## Before the modules -/

/-- What has been read of a PDB file and its executable when the modules come. -/
structure Prepared (data executable : Bytes) (wanted : Value) where
  file : Msf.File
  /-- Its stream of debug information. -/
  dbi : Bytes
  /-- The header of this stream. -/
  info : Header
  /-- The sections of the program. -/
  sections : List Coff.Section
  /-- The wanted section. -/
  target : Coff.Section
  number : Nat
  /-- The names of public symbols. -/
  names : PublicNames
  isFile : isFile data = true
  isImage : Coff.isImage executable = true
  headers : ∃ h, Coff.headers executable = .ok h
  opened : Msf.File.open data = .ok file
  dbi_read : file.stream dbiStream = .ok dbi
  info_read : header dbi = .ok info
  sections_read : Pdb.sections file dbi info = .ok sections
  target_found : (sections.zipIdx 1).find? (fun x => decide (wanted = .text x.1.name))
    = some (target, number)
  names_read : publicNames file info sections = .ok names

namespace Prepared

variable {data executable : Bytes} {wanted : Value} (p : Prepared data executable wanted)

/-- The procedures of a module. -/
def procedures (m : Module) : Except ReadError (List RawSymbol) :=
  within .pdb (moduleEntries p.file p.target p.number p.names m)

/-- Where the module list ends. -/
def stop : Nat := (headerSize + p.info.modulesSize).toNat

theorem readPdb_eq : readPdb data executable wanted = (do
    let entries ← (modules p.dbi p.info).mapM p.procedures
    return ⟨⟨Format.pdb.name, p.target.name, p.target.virtualSize, executable.size,
      entries.flatten⟩, []⟩) := by
  obtain ⟨headers, hheaders⟩ := p.headers
  simp only [readPdb, Pdb.read, p.isFile, p.isImage, hheaders, p.opened, p.dbi_read, p.info_read,
    p.sections_read, within_ok, Bool.not_true, Bool.false_eq_true, if_true, if_false, bind,
    Except.bind, pure, Except.pure]
  simp only [p.target_found, p.names_read, within_ok]
  rfl

end Prepared

/-- Reading fails before the modules, and then with an error that says what is wrong, or at the
modules. -/
theorem readPdb_eq_error {data executable : Bytes} {wanted : Value} {e : ReadError}
    (h : readPdb data executable wanted = .error e) : e.Typed ∨
      ∃ p : Prepared data executable wanted,
        (modules p.dbi p.info).mapM p.procedures = .error e := by
  unfold readPdb at h
  split at h
  case isFalse =>
    cases h
    exact .inl (.refuses (.unsupported _))
  case isTrue hfile =>
    unfold Pdb.read at h
    by_cases himage : Coff.isImage executable = true
    · simp only [himage, Bool.not_true, Bool.false_eq_true, if_false] at h
      rcases within_bind_eq_error h with hbroken | ⟨headers, hheaders, h⟩
      · exact .inl (.refuses hbroken)
      rcases within_bind_eq_error h with hbroken | ⟨file, hopen, h⟩
      · exact .inl (.refuses hbroken)
      rcases within_bind_eq_error h with hbroken | ⟨dbi, hdbi, h⟩
      · exact .inl (.refuses hbroken)
      rcases within_bind_eq_error h with hbroken | ⟨info, hinfo, h⟩
      · exact .inl (.refuses hbroken)
      rcases within_bind_eq_error h with hbroken | ⟨sections, hsections, h⟩
      · exact .inl (.refuses hbroken)
      split at h
      · cases h
        exact .inl (.sectionMissing _ _)
      · rename_i target number hfind
        rcases within_bind_eq_error h with hbroken | ⟨names, hnames, h⟩
        · exact .inl (.refuses hbroken)
        rcases bind_eq_error.1 h with hmodules | ⟨entries, -, h⟩
        · exact .inr ⟨⟨file, dbi, info, sections, target, number, names, hfile, himage,
            ⟨headers, hheaders⟩, hopen, hdbi, hinfo, hsections, hfind, hnames⟩, hmodules⟩
        · cases h
    · simp only [Bool.eq_false_of_not_eq_true himage, Bool.not_false, if_true] at h
      cases h
      exact .inl (.refuses (.unsupported _))

/-! ## The exception -/

section Exception

variable {data executable : Bytes} {wanted : Value}

/-- All that comes before some module record is read, and the names of this record are outside the
stream. -/
def NamesRunOut (data executable : Bytes) (wanted : Value) : Prop :=
  ∃ p : Prepared data executable wanted,
    (∀ m ∈ (modules p.dbi p.info).items, ∃ entries, p.procedures m = .ok entries) ∧
    ∃ start, Relation.ReflTransGen (Follows p.dbi p.stop) headerSize start ∧
      NamesOutside p.dbi p.stop start

/-- The procedures of a module fail only because of a broken structure. -/
theorem Prepared.refuses_of_procedures {p : Prepared data executable wanted} {m : Module}
    {e : ReadError} (h : p.procedures m = .error e) : e.Refuses := by
  unfold procedures within at h
  split at h
  · cases h
  · cases h
    exact .malformed _ _

theorem readPdb_cases {e : ReadError} (h : readPdb data executable wanted = .error e) :
    e.Typed ∨ e = .moduleNameOutside ∧ NamesRunOut data executable wanted := by
  rcases readPdb_eq_error h with htyped | ⟨p, hmodules⟩
  · exact .inl htyped
  rcases Walk.mapM_eq_error.1 hmodules with hitem | ⟨hitems, hfailure⟩
  · obtain ⟨m, -, hm⟩ := exists_of_mapM_eq_error hitem
    exact .inl (.refuses (Prepared.refuses_of_procedures hm))
  · rcases modulesFrom_failure hfailure with hrefuses | ⟨rfl, hnames⟩
    · exact .inl (.refuses hrefuses)
    · exact .inr ⟨rfl, p, exists_mapM_eq_ok.1 hitems, hnames⟩

theorem readPdb_of_namesRunOut (h : NamesRunOut data executable wanted) :
    readPdb data executable wanted = .error .moduleNameOutside := by
  obtain ⟨p, hitems, hnames⟩ := h
  have hmodules : (modules p.dbi p.info).mapM p.procedures = .error .moduleNameOutside :=
    Walk.mapM_eq_error.2 (.inr ⟨exists_mapM_eq_ok.2 hitems, modulesFrom_failure_iff.2 hnames⟩)
  rw [p.readPdb_eq, hmodules]
  rfl

end Exception

/-- An image of a signature that announces PE or Mach-O gives a table or an error that says what is
wrong, whatever its bytes are. So does a PDB file beside an executable, unless the names of its
modules run past the end of their stream. -/
theorem reads_or_says_why {source : Source} {signature : Signature} {companion : Option Bytes}
    {wanted : Text} (hdetect : detect source.data = .ok signature)
    (hformat : signature.format = .machO ∨ signature.format = .pe) (data executable : Bytes) :
    ((∃ reading, Image.read source (.text wanted) companion = .ok reading) ∨
      ∃ e, Image.read source (.text wanted) companion = .error e ∧ e.Typed) ∧
    (((∃ reading, readPdb data executable (.text wanted) = .ok reading) ∨
      ∃ e, readPdb data executable (.text wanted) = .error e ∧ e.Typed) ↔
        ¬ NamesRunOut data executable (.text wanted)) := by
  constructor
  · cases h : Image.read source (.text wanted) companion with
    | ok reading => exact .inl ⟨reading, rfl⟩
    | error e => exact .inr ⟨e, rfl, typed_of_read_eq_error hdetect hformat h⟩
  · constructor
    · intro h hnames
      rw [readPdb_of_namesRunOut hnames] at h
      rcases h with ⟨reading, hread⟩ | ⟨e, hread, htyped⟩
      · cases hread
      · cases hread
        cases htyped with
        | refuses hrefuses => cases hrefuses
    · intro hnames
      cases h : readPdb data executable (.text wanted) with
      | ok reading => exact .inl ⟨reading, rfl⟩
      | error e =>
        refine .inr ⟨e, rfl, (readPdb_cases h).resolve_right ?_⟩
        exact fun hout => hnames hout.2

theorem isFile_of_stores {data : Bytes} {blockSize blockCount mapBlock : Nat}
    {directoryBlocks : List Nat} {streams : List Msf.Stored}
    (h : Msf.Stores data blockSize blockCount mapBlock directoryBlocks streams) :
    isFile data = true :=
  Bytes.startsWith_iff.2 h.magic

theorem sampleExecutable_isImage : Coff.isImage sampleExecutable = true := by decide

theorem sampleExecutable_headers : ∃ headers, Coff.headers sampleExecutable = .ok headers :=
  ⟨⟨0x8664, [], 0, 0⟩, by decide +kernel⟩

theorem sampleExecutable_says_why : detect sampleExecutable = .ok .pe ∧
    ((∃ reading, Image.read (.inMemory sampleExecutable) (.text ".t") none = .ok reading) ∨
      ∃ e, Image.read (.inMemory sampleExecutable) (.text ".t") none = .error e ∧ e.Typed) ∧
    (((∃ reading, readPdb sampleFile sampleExecutable (.text ".t") = .ok reading) ∨
      ∃ e, readPdb sampleFile sampleExecutable (.text ".t") = .error e ∧ e.Typed) ↔
        ¬ NamesRunOut sampleFile sampleExecutable (.text ".t")) := by
  have hdetect : detect (Source.inMemory sampleExecutable).data = .ok .pe := by decide
  exact ⟨hdetect, reads_or_says_why hdetect (.inr rfl) sampleFile sampleExecutable⟩

/-- Debug information with a module list that is 24 bytes longer than what is left of its stream.
The size of the part that follows is negative, so the optional streams are found all the same, where
the names of the only module are. -/
def overlongInfo : List UInt8 :=
  ByteOrder.little.encodeAll
    [(20, 0), (2, 0xFFFF), (2, 0), (4, 100), (4, 2 ^ 32 - 36), (16, 0), (4, 12), (12, 0), (34, 0),
     (2, 0xFFFF), (28, 0), (10, 2 ^ 80 - 1), (2, 4)]

/-- The name of the only section of the program, with its padding. -/
def overlongName : List UInt8 := [0x2E, 0x74, 0, 0, 0, 0, 0, 0]

/-- The only section of the program. -/
def overlongSection : SectionHeader := ⟨overlongName, rfl, 0x100, 0x1000, 0⟩

/-- The streams of a file with this debug information. -/
def overlongStreams : List Msf.Stored :=
  [some ⟨[], []⟩, none, some ⟨[], []⟩, some ⟨overlongInfo, [3]⟩, some ⟨overlongSection.bytes, [4]⟩]

/-- A file of five blocks that stores these streams. -/
def overlongFile : Bytes :=
  (Msf.filled (Msf.magic ++ ByteOrder.wordBytes [512, 1, 5, 32, 0, 1]) 0
    ++ Msf.filled (ByteOrder.wordBytes [2]) 0 ++ Msf.filled (Msf.directory overlongStreams) 0
    ++ (overlongStreams.drop 3).flatMap fun s => Msf.filled s.content 0).toArray

theorem overlongFile_stores : Msf.Stores overlongFile 512 5 1 [2] overlongStreams where
  magic := by decide +kernel
  header := ⟨1, 0, by decide +kernel⟩
  fits := by decide +kernel
  blockSize_mem := by decide
  whole := by decide +kernel
  mapBlock_lt := by decide
  map := by decide +kernel
  directory := Msf.Blocks.HasShares.holds (by decide +kernel)
  streams := Msf.Blocks.holds_of_shares (by decide +kernel)

/-- The header of this debug information. -/
def overlongHeader : Header := ⟨0xFFFF, 100, [-36, 0, 0, 0, 0], 12⟩

/-- All of the file is read but the modules. -/
def overlongPrepared : Prepared overlongFile sampleExecutable (.text ".t") where
  file := ⟨⟨overlongFile, 512, 5⟩, overlongStreams.map Msf.Stored.extent⟩
  dbi := overlongInfo.toArray
  info := overlongHeader
  sections := [⟨".t", 0x100, 0x1000⟩]
  target := ⟨".t", 0x100, 0x1000⟩
  number := 1
  names := []
  isFile := isFile_of_stores overlongFile_stores
  isImage := sampleExecutable_isImage
  headers := sampleExecutable_headers
  opened := Msf.File.open_eq overlongFile_stores
  dbi_read := Msf.File.stream_eq overlongFile_stores (i := 3) rfl
  info_read := by decide +kernel
  sections_read := by
    have hcount : (overlongHeader.optionalSize / 2).toNat = 6 := rfl
    have hwords : Msf.words overlongInfo.toArray overlongHeader.optionalAt 2 6
        = .ok [0xFFFF, 0xFFFF, 0xFFFF, 0xFFFF, 0xFFFF, 4] := by decide +kernel
    have hstream := Msf.File.stream_eq overlongFile_stores (i := 4) rfl
    have hread : Coff.sections overlongSection.bytes.toArray 0 1 none
        = .ok [⟨".t", 0x100, 0x1000⟩] := by decide +kernel
    have hmany : ¬ 6 ≤ sectionHeaderEntry := by decide
    have hentry : [0xFFFF, 0xFFFF, 0xFFFF, 0xFFFF, 0xFFFF, 4][sectionHeaderEntry]? = some 4 := rfl
    have hexists : ¬ 4 = nilStream := by decide
    simp only [sections, hcount, hwords, if_neg hmany, hentry, if_neg hexists, hstream, bind,
      Except.bind]
    exact hread
  target_found := by decide
  names_read := rfl

theorem overlongFile_namesRunOut :
    NamesRunOut overlongFile sampleExecutable (.text ".t") := by
  refine ⟨overlongPrepared, ?_, headerSize, .refl, ?_⟩
  · have hnone : (modules overlongPrepared.dbi overlongPrepared.info).items = [] := by decide +kernel
    simp [hnone]
  · exact ⟨by decide, by decide +kernel, by decide +kernel, by decide +kernel⟩

theorem overlongFile_escapes :
    readPdb overlongFile sampleExecutable (.text ".t") = .error .moduleNameOutside ∧
      ¬ ReadError.Typed .moduleNameOutside := by
  refine ⟨readPdb_of_namesRunOut overlongFile_namesRunOut, fun htyped => ?_⟩
  cases htyped with
  | refuses hrefuses => cases hrefuses

end CrateLedger.Image.Pdb
