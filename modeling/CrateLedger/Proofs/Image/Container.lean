import CrateLedger.Proofs.Image.Coff.Truncation
import CrateLedger.Proofs.Image.MachO.Reading
import CrateLedger.Proofs.Image.MachO.Truncation

/-!
# Mach-O and PE images that are cut short

Main statement: an image that is cut short is refused or gives the symbols of the whole, if the cut
does not go through a name of its string table. In a Mach-O image nothing but names can differ.
-/

namespace CrateLedger.Image

variable {part rest : Bytes} {signature : Signature}

/-! ## Signatures -/

/-- No Mach-O image starts like a PE image. -/
theorem layout?_of_isImage {data : Bytes} (h : Coff.isImage data = true) :
    MachO.layout? data = none := by
  unfold MachO.layout?
  split
  · rfl
  · rename_i hsize
    have hfirst : data[0]? = some 0x4D := (standsAt_cons.1 (Bytes.startsWith_iff.1 h)).1
    have hlength : (data.slice 0 4).toList.length = 4 := by
      rw [Array.length_toList, Bytes.slice, Array.size_extract]
      omega
    obtain ⟨a, b, c, d, hbytes⟩ := List.length_eq_four.1 hlength
    have hhead : (data.slice 0 4).toList[0]? = some 0x4D := by
      rw [Bytes.slice, Array.getElem?_toList, Array.getElem?_extract, if_pos (by omega)]
      exact hfirst
    rw [hbytes] at hhead
    obtain rfl : a = 0x4D := Option.some.inj hhead
    have hlittle : data.number .little 0 4
        = 0x4D + 256 * (b.toNat + 256 * (c.toNat + 256 * d.toNat)) := by
      rw [Bytes.number, hbytes]
      rfl
    have hbig : data.number .big 0 4
        = 256 * (256 * (256 * 0x4D + b.toNat) + c.toNat) + d.toNat := by
      rw [Bytes.number, hbytes]
      rfl
    have hb := b.toNat_lt
    have hc := c.toNat_lt
    have hd := d.toNat_lt
    simp only [hlittle, hbig, MachO.magic32, MachO.magic64]
    rw [if_neg (by omega), if_neg (by omega)]

theorem refuses_of_detect {data : Bytes} {e : ReadError} (h : detect data = .error e) :
    e.Refuses := by
  unfold detect at h
  split at h
  · cases h
  split at h
  · cases h
  split at h
  · cases h
  split at h
  · cases h
  · cases h
    exact .unsupported _

/-- Formats with a longer signature are tried first. -/
theorem not_pdb_not_elf {data : Bytes} (h : detect data = .ok signature)
    (hformat : signature.format = .machO ∨ signature.format = .pe) :
    ¬ Pdb.isFile data = true ∧ ¬ Elf.isImage data = true := by
  unfold detect at h
  split at h
  · cases h
    simp [Signature.format] at hformat
  split at h
  · cases h
    simp [Signature.format] at hformat
  · rename_i hpdb helf
    exact ⟨hpdb, helf⟩

/-- The beginning of a Mach-O or PE image is an image of the same signature, or of none. -/
theorem detect_truncates (h : detect (part ++ rest) = .ok signature)
    (hformat : signature.format = .machO ∨ signature.format = .pe) :
    Truncates ReadError.Refuses Eq (detect part) (detect (part ++ rest)) := by
  cases hpart : detect part with
  | error e => exact .broken (refuses_of_detect hpart)
  | ok found =>
    obtain ⟨hpdb, helf⟩ := not_pdb_not_elf h hformat
    have hpdb' : ¬ Pdb.isFile part = true := mt (Bytes.startsWith_append part rest) hpdb
    have helf' : ¬ Elf.isImage part = true := mt (Bytes.startsWith_append part rest) helf
    unfold detect at hpart ⊢
    rw [if_neg hpdb', if_neg helf'] at hpart
    rw [if_neg hpdb, if_neg helf]
    cases hlayout : MachO.layout? part with
    | some l =>
      rw [hlayout] at hpart
      rw [MachO.layout?_append hlayout]
      exact .given (Except.ok.inj hpart).symm
    | none =>
      simp only [hlayout] at hpart
      split at hpart
      · rename_i himage
        have himage' : Coff.isImage (part ++ rest) = true :=
          Bytes.startsWith_append part rest himage
        simp only [layout?_of_isImage himage', himage', if_true]
        exact .given (Except.ok.inj hpart).symm
      · cases hpart

/-! ## Images -/

/-- A cut goes through a name in the string table of an image. -/
def CutsName (data : Bytes) (n : Nat) : Signature → Prop
  | .machO layout => MachO.CutsName layout data n
  | .pe => Coff.CutsName data n
  | .pdb | .elf => False

theorem read_truncates {N : Text → Text → Prop} {onDisk onDisk' : Bool}
    {companion : Option Bytes} {wanted : Value} {reading : Reading}
    (hdetect : detect (part ++ rest) = .ok signature)
    (hformat : signature.format = .machO ∨ signature.format = .pe)
    (h : read ⟨part ++ rest, onDisk⟩ wanted companion = .ok reading)
    (hmachO : ∀ layout, signature = .machO layout →
      Truncates ReadError.Refuses (AlikeReading N) (MachO.read layout part wanted)
        (MachO.read layout (part ++ rest) wanted))
    (hpe : signature = .pe → ∀ headers, Coff.headers (part ++ rest) = .ok headers →
      Truncates ReadError.Refuses (AlikeReading N) (Coff.read part wanted)
        (Coff.read (part ++ rest) wanted)) :
    Truncates ReadError.Refuses (AlikeReading N) (read ⟨part, onDisk'⟩ wanted companion)
      (.ok reading) := by
  rw [← h]
  refine (detect_truncates hdetect hformat).bindEq fun found hfound => ?_
  obtain rfl : signature = found := Except.ok.inj (hdetect.symm.trans hfound)
  cases hs : signature with
  | machO layout => exact hmachO layout hs
  | pe =>
    have hread : Coff.read (part ++ rest) wanted = .ok reading := by
      unfold read at h
      rwa [hdetect, hs] at h
    obtain ⟨headers, hheaders, -⟩ := bind_eq_ok.1 hread
    exact hpe hs headers (within_eq_ok.1 hheaders)
  | pdb => simp [hs, Signature.format] at hformat
  | elf => simp [hs, Signature.format] at hformat

/-- An image that is cut short, but not inside its string table, is refused or gives the symbols of
the whole. Wherever a Mach-O image is cut, only names can differ, and these only by bytes that are
missing at their ends. -/
theorem read_cut {data : Bytes} {onDisk : Bool} {companion : Option Bytes} {wanted : Value}
    {reading : Reading} (hdetect : detect data = .ok signature)
    (hformat : signature.format = .machO ∨ signature.format = .pe)
    (h : read ⟨data, onDisk⟩ wanted companion = .ok reading) {n : Nat} (hn : n < data.size)
    (onDisk' : Bool) :
    (¬ CutsName data n signature →
      (∃ e, read ⟨data.slice 0 n, onDisk'⟩ wanted companion = .error e ∧ e.Refuses) ∨
        ∃ shorter, read ⟨data.slice 0 n, onDisk'⟩ wanted companion = .ok shorter ∧
          shorter.table.entries = reading.table.entries ∧
          shorter.table.sectionSize = reading.table.sectionSize) ∧
    (signature.format = .machO →
      (∃ e, read ⟨data.slice 0 n, onDisk'⟩ wanted companion = .error e ∧ e.Refuses) ∨
        ∃ shorter, read ⟨data.slice 0 n, onDisk'⟩ wanted companion = .ok shorter ∧
          AlikeReading MachO.Shortened shorter reading) := by
  obtain ⟨part, rest, rfl, hpart, hsize⟩ :
      ∃ part rest, data = part ++ rest ∧ data.slice 0 n = part ∧ part.size = n := by
    refine ⟨_, _, (Bytes.slice_append_extract hn.le).symm, rfl, ?_⟩
    rw [Bytes.slice, Array.size_extract]
    omega
  rw [hpart]
  constructor
  · intro hcut
    rw [← hsize] at hcut
    have hread : Truncates ReadError.Refuses (AlikeReading Eq)
        (read ⟨part, onDisk'⟩ wanted companion) (.ok reading) := read_truncates hdetect hformat h
      (fun layout hs => MachO.read_truncates wanted fun table htable =>
        MachO.nameOf_truncates_of_whole (by rwa [hs] at hcut) htable)
      (fun hs headers hheaders => Coff.read_truncates wanted (by rwa [hs] at hcut) hheaders)
    rcases hread.of_whole with ⟨shorter, hshorter, halike⟩ | hrefused
    · exact .inr ⟨shorter, hshorter, halike.entries_eq, halike.sectionSize⟩
    · exact .inl hrefused
  · intro hmachO
    have hread : Truncates ReadError.Refuses (AlikeReading MachO.Shortened)
        (read ⟨part, onDisk'⟩ wanted companion) (.ok reading) := read_truncates hdetect hformat h
      (fun layout _ => MachO.read_truncates wanted fun table _ => MachO.nameOf_truncates table)
      (fun hs => by simp [hs, Signature.format] at hmachO)
    rcases hread.of_whole with ⟨shorter, hshorter, halike⟩ | hrefused
    · exact .inr ⟨shorter, hshorter, halike⟩
    · exact .inl hrefused

/-- One segment with one section, and one symbol. -/
def MachO.smallContents : MachO.Contents where
  commands := [.segment [⟨"__TEXT", "__text", 0x1000, 0x40⟩], .symbols]
  symbols := [⟨some "_main", 0x0F, 1, 0x1000⟩]
  isPlain := by decide
  symbolNames := by decide +kernel
  symbolValues := by decide

/-- An image with these contents. Its last bytes are the name of the symbol. -/
def smallImage : Bytes := MachO.smallContents.write ⟨.little, false⟩

/-- What is read of it, given the size of the file and the name of the symbol. -/
def smallReading (fileSize : Nat) (name : Text) : Reading :=
  ⟨⟨"Mach-O 32", ".text", 0x40, fileSize, [⟨0x1000, 0x40, ".text", name⟩]⟩, []⟩

theorem smallImage_read :
    read ⟨smallImage, false⟩ (.text ".text") none = .ok (smallReading 195 "main") := by
  decide +kernel

/-- Two bytes are missing, the NUL behind the name and the last byte of the name. -/
theorem smallImage_cut_name :
    read ⟨smallImage, false⟩ (.text ".text") none = .ok (smallReading 195 "main") ∧
      read ⟨smallImage.slice 0 193, false⟩ (.text ".text") none = .ok (smallReading 193 "mai") :=
  ⟨smallImage_read, by decide +kernel⟩

/-- The NUL behind the name is missing. -/
theorem smallImage_cut_nul :
    ¬ CutsName smallImage 194 (.machO ⟨.little, false⟩) ∧
      ((∃ e, read ⟨smallImage.slice 0 194, false⟩ (.text ".text") none = .error e ∧ e.Refuses) ∨
        ∃ shorter, read ⟨smallImage.slice 0 194, false⟩ (.text ".text") none = .ok shorter ∧
          shorter.table.entries = (smallReading 195 "main").table.entries ∧
          shorter.table.sectionSize = (smallReading 195 "main").table.sectionSize) := by
  have hcut : ¬ CutsName smallImage 194 (.machO ⟨.little, false⟩) := by
    rintro ⟨table, -, -, -, b, hb, hne⟩
    have hlast : smallImage[194]? = some 0 := by decide +kernel
    rw [hlast] at hb
    exact hne (Option.some.inj hb).symm
  have hdetect : detect smallImage = .ok (.machO ⟨.little, false⟩) := by decide +kernel
  exact ⟨hcut, (read_cut hdetect (.inl rfl) smallImage_read (by decide +kernel) false).1 hcut⟩

end CrateLedger.Image
