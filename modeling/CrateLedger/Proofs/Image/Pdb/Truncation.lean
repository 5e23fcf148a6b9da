import CrateLedger.Proofs.Image.Pdb.Errors
import CrateLedger.Proofs.Image.Truncation

/-!
# PDB files that are cut short

Every byte of a multi-stream file that is looked at is inside a record or a block, and neither can
end behind the file. So a stream that is read from the beginning of a file is the stream of the
whole, and what is read from equal streams is equal.

Main statement: a table that is read from a PDB file is also read if the file goes on behind it, and
if the file is cut short, the same table is read or the file is refused.
-/

namespace CrateLedger.Image

/-! ## Streams -/

namespace Msf

/-- The blocks of a file that goes on. -/
def Blocks.extended (b : Blocks) (rest : Bytes) : Blocks := { b with data := b.data ++ rest }

/-- A file that goes on. -/
def File.extended (f : File) (rest : Bytes) : File := { f with blocks := f.blocks.extended rest }

namespace Blocks

variable (b : Blocks) (rest : Bytes)

theorem offset_truncates (block : Nat) : Truncates Fault.Any
    (fun s t => s = t ∧ s + b.blockSize ≤ b.data.size) (b.offset block)
    ((b.extended rest).offset block) := by
  simp only [offset, extended, Array.size_append]
  by_cases hout : b.blockCount ≤ block ∨ b.data.size < block * b.blockSize + b.blockSize
  · rw [if_pos hout]
    exact .broken trivial
  · rw [if_neg hout, if_neg (by omega)]
    exact .given ⟨rfl, by omega⟩

theorem block_truncates (number : Nat) : Truncates Fault.Any Eq (b.block number)
    ((b.extended rest).block number) := by
  refine (b.offset_truncates rest number).bind fun s t hst => ?_
  obtain ⟨rfl, hend⟩ := hst
  have hsame := Bytes.slice_append b.data rest hend
  simp only [extended, hsame]
  exact .refl _

theorem join_truncates (blocks : List Nat) (size : Nat) : Truncates Fault.Any Eq
    (b.join blocks size) ((b.extended rest).join blocks size) :=
  (Truncates.mapMEq fun n _ => b.block_truncates rest n).bindEq fun _ _ => .refl _

end Blocks

theorem words_truncates (part rest : Bytes) (offset : Int) (width count : Nat) :
    Truncates Fault.Any Eq (words part offset width count)
      (words (part ++ rest) offset width count) :=
  (Bytes.record_truncates part rest offset (width * count)).bindEq fun _ _ => .refl _

/-- The directory is read the same way, however long the file is. -/
theorem extents_extended (b : Blocks) (rest directory : Bytes) (offset : Nat) (sizes : List Nat) :
    extents (b.extended rest) directory offset sizes = extents b directory offset sizes := by
  induction sizes generalizing offset with
  | nil => rfl
  | cons size sizes ih =>
    simp only [extents, ih]
    rfl

namespace File

variable (part rest : Bytes)

theorem open_truncates : Truncates Fault.Any (fun f g => g = f.extended rest) (File.open part)
    (File.open (part ++ rest)) := by
  unfold File.open
  refine (Bytes.record_truncates part rest Msf.magic.length 24).bindEq fun header _ => ?_
  let word (i : Nat) : Nat := header.number .little (4 * i) 4
  let b : Blocks := ⟨part, word 0, word 2⟩
  by_cases hsize : word 0 ∈ blockSizes
  · simp only [word] at hsize
    simp only [hsize, not_true_eq_false, if_false]
    refine (b.offset_truncates rest (word 5)).bind fun mapOffset mapOffset' hmap => ?_
    obtain ⟨rfl, -⟩ := hmap
    refine (words_truncates part rest mapOffset 4 (b.countFor (word 3))).bindEq fun blocks _ => ?_
    refine (b.join_truncates rest blocks (word 3)).bindEq fun directory _ => ?_
    refine (Truncates.refl _).bindEq fun first _ => ?_
    refine (Truncates.refl _).bindEq fun sizes _ => ?_
    rw [← extents_extended b rest]
    exact (Truncates.refl _).bindEq fun streams _ => .given rfl
  · simp only [word] at hsize
    simp only [hsize, not_false_eq_true, if_true]
    exact .failed _

theorem stream_truncates (f : File) (index : Int) :
    Truncates Fault.Any Eq (f.stream index) ((f.extended rest).stream index) := by
  unfold stream
  simp only [extended]
  split
  · exact .failed _
  · exact f.blocks.join_truncates rest _ _

end File

end Msf

/-! ## Debug information -/

namespace Pdb

variable (file : Msf.File) (rest : Bytes)

theorem sections_truncates (dbi : Bytes) (h : Header) : Truncates Fault.Any Eq
    (sections file dbi h) (sections (file.extended rest) dbi h) := by
  unfold sections
  by_cases hfew : (h.optionalSize / 2).toNat ≤ sectionHeaderEntry
  · simp only [hfew, if_true]
    exact .failed _
  · simp only [hfew, if_false]
    refine (Truncates.refl _).bindEq fun streams _ => ?_
    split
    · exact .failed _
    · rename_i stream _
      by_cases hnil : stream = nilStream
      · simp only [hnil, if_true]
        exact .failed _
      · simp only [hnil, if_false]
        exact (file.stream_truncates rest stream).bindEq fun raw _ => .refl _

theorem publicNames_truncates (h : Header) (sections : List Coff.Section) :
    Truncates Fault.Any Eq (publicNames file h sections)
      (publicNames (file.extended rest) h sections) := by
  unfold publicNames
  by_cases hnil : h.publicStream = nilStream
  · rw [if_pos hnil, if_pos hnil]
    exact .refl _
  · rw [if_neg hnil, if_neg hnil]
    exact (file.stream_truncates rest h.publicStream).bindEq fun stream _ => .refl _

theorem moduleEntries_truncates (target : Coff.Section) (number : Nat) (names : PublicNames)
    (m : Module) : Truncates Fault.Any Eq (moduleEntries file target number names m)
      (moduleEntries (file.extended rest) target number names m) :=
  (file.stream_truncates rest m.stream).bindEq fun _ _ => .refl _

/-! ## Files -/

theorem read_truncates (part : Bytes) (executable : Option Bytes) (wanted : Value) :
    Truncates ReadError.Refuses Eq (read part executable wanted)
      (read (part ++ rest) executable wanted) := by
  unfold read
  cases executable with
  | none => exact .failed _
  | some executable =>
    by_cases himage : Coff.isImage executable = true
    · simp only [himage, Bool.not_true, Bool.false_eq_true, if_false]
      refine (Truncates.refl _).bindEq fun _ _ => ?_
      refine ((Msf.File.open_truncates part rest).within .pdb).bind fun file whole hwhole => ?_
      subst hwhole
      refine ((file.stream_truncates rest dbiStream).within .pdb).bindEq fun dbi _ => ?_
      refine (Truncates.refl _).bindEq fun h _ => ?_
      refine ((sections_truncates file rest dbi h).within .pdb).bindEq fun sections _ => ?_
      split
      · exact .failed _
      · rename_i target number _
        refine ((publicNames_truncates file rest h sections).within .pdb).bindEq fun names _ => ?_
        refine Truncates.bindEq ?_ fun entries _ => .refl _
        refine Truncates.walkMapM fun m _ => ?_
        exact (moduleEntries_truncates file rest target number names m).within .pdb
    · simp only [Bool.eq_false_of_not_eq_true himage, Bool.not_false, if_true]
      exact .failed _

theorem readPdb_truncates (part executable : Bytes) (wanted : Value) :
    Truncates ReadError.Refuses Eq (readPdb part executable wanted)
      (readPdb (part ++ rest) executable wanted) := by
  unfold readPdb
  by_cases hpart : isFile part = true
  · have hwhole : isFile (part ++ rest) = true := Bytes.startsWith_append part rest hpart
    rw [if_pos hpart, if_pos hwhole]
    exact read_truncates rest part (some executable) wanted
  · rw [if_neg hpart]
    exact .broken (.unsupported _)

/-- A table that is read from a file is also read if the file goes on behind it. If the file is cut
short, the same table is read, or the file is refused because it has no signature that is known or
a broken structure. -/
theorem readPdb_monotone {pdb executable : Bytes} {wanted : Value} {reading : Reading}
    (h : readPdb pdb executable wanted = .ok reading) :
    (∀ extra : Bytes, readPdb (pdb ++ extra) executable wanted = .ok reading) ∧
    ∀ n < pdb.size, readPdb (pdb.slice 0 n) executable wanted = .ok reading ∨
      ∃ e, readPdb (pdb.slice 0 n) executable wanted = .error e ∧ e.Refuses := by
  constructor
  · intro extra
    have hlonger := readPdb_truncates extra pdb executable wanted
    rw [h] at hlonger
    obtain ⟨longer, hread, rfl⟩ := hlonger.of_part
    exact hread
  · intro n hn
    have hcut := readPdb_truncates (pdb.extract n pdb.size) (pdb.slice 0 n) executable wanted
    rw [Bytes.slice_append_extract hn.le, h] at hcut
    rcases hcut.of_whole with ⟨shorter, hread, rfl⟩ | hrefused
    · exact .inl hread
    · exact .inr hrefused

theorem sampleFile_stream {number : Nat} {content : List UInt8}
    (h : HasStream sampleStreams number content) :
    Msf.File.stream ⟨⟨sampleFile, 512, 8⟩, sampleStreams.map Msf.Stored.extent⟩ number
      = .ok content.toArray := by
  obtain ⟨s, hs, rfl⟩ := Option.map_eq_some_iff.1 h
  exact Msf.File.stream_eq sampleFile_stores hs

/-- All of the sample is read but its modules. -/
def samplePrepared : Prepared sampleFile sampleExecutable (.text ".t") where
  file := ⟨⟨sampleFile, 512, 8⟩, sampleStreams.map Msf.Stored.extent⟩
  dbi := sampleDatabase.info.bytes.toArray
  info := sampleDatabase.info.header
  sections := sampleDatabase.sections
  target := ⟨".t", 0x100, 0x1000⟩
  number := 2
  names := sampleDatabase.publics.filterMap (namedAddress? sampleDatabase.sections)
  isFile := isFile_of_stores sampleFile_stores
  isImage := sampleExecutable_isImage
  headers := sampleExecutable_headers
  opened := Msf.File.open_eq sampleFile_stores
  dbi_read := sampleFile_stream sampleDatabase_storedIn.info
  info_read := header_eq (info_standsAt _)
  sections_read := sections_of_storedIn sampleFile_stream sampleDatabase_storedIn
  target_found := by decide +kernel
  names_read := publicNames_of_storedIn sampleFile_stream sampleDatabase_storedIn

/-- What is read of the sample. -/
def sampleReading : Reading :=
  ⟨⟨"PDB", ".t", 0x100, 88, [⟨0x1010, 0x20, ".t", "m1"⟩, ⟨0x1030, 0x40, ".t", "hi"⟩]⟩, []⟩

theorem sampleFile_monotone :
    readPdb sampleFile sampleExecutable (.text ".t") = .ok sampleReading ∧
      (∀ extra : Bytes,
        readPdb (sampleFile ++ extra) sampleExecutable (.text ".t") = .ok sampleReading) ∧
      ∀ n < sampleFile.size,
        readPdb (sampleFile.slice 0 n) sampleExecutable (.text ".t") = .ok sampleReading ∨
        ∃ e, readPdb (sampleFile.slice 0 n) sampleExecutable (.text ".t") = .error e ∧
          e.Refuses := by
  have hread : readPdb sampleFile sampleExecutable (.text ".t") = .ok sampleReading := by
    have hmodules := mapM_moduleEntries sampleFile_stream sampleDatabase_storedIn
      ⟨".t", 0x100, 0x1000⟩ 2
    rw [samplePrepared.readPdb_eq]
    have hprocedures : (modules samplePrepared.dbi samplePrepared.info).mapM
      samplePrepared.procedures = _ := hmodules
    rw [hprocedures]
    decide +kernel
  exact ⟨hread, readPdb_monotone hread⟩

end Pdb

end CrateLedger.Image
