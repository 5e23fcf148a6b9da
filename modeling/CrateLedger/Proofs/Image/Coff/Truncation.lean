import CrateLedger.Proofs.Image.Truncation

/-!
# PE images that are cut short

The string table of a PE image has no size that is looked at: a name ends with the image at the
latest. All else in an image that is cut short is as in the whole, or reading breaks off.

Main statement: if the cut does not go through the string table, then reading what is left of an
image breaks off, or it gives the symbols of the whole.
-/

namespace CrateLedger.Image.Coff

variable {part rest : Bytes}

/-- A cut goes through the string table of an image, and not just before a NUL. -/
def CutsName (data : Bytes) (n : Nat) : Prop :=
  ∃ h, headers data = .ok h ∧ h.symbolOffset ≠ 0 ∧
    stringTableAt h.symbolOffset h.symbolCount ≤ n ∧ ∃ b, data[n]? = some b ∧ b ≠ 0

/-- A cut that leaves all names behind an offset whole. -/
def KeepsNames (part rest : Bytes) (table : Nat) : Prop :=
  table ≤ part.size → ∀ b, rest[0]? = some b → b = 0

theorem keepsNames (hcut : ¬ CutsName (part ++ rest) part.size) {h : Headers}
    (hheaders : headers (part ++ rest) = .ok h) (hsymbols : h.symbolOffset ≠ 0) :
    KeepsNames part rest (stringTableAt h.symbolOffset h.symbolCount) := by
  intro htable b hb
  by_contra hne
  refine hcut ⟨h, hheaders, hsymbols, htable, b, ?_, hne⟩
  rwa [Array.getElem?_append_right le_rfl, Nat.sub_self]

theorem name_truncates {table : Nat} (h : KeepsNames part rest table) (n : Nat) :
    Truncates Fault.Any Eq (part.name (table + n : Nat) none)
      ((part ++ rest).name (table + n : Nat) none) := by
  refine Bytes.name_truncates_of_whole part rest fun hoffset _ => h ?_
  omega

/-! ## Headers -/

theorem sectionAt_truncates {stringTable : Option Nat}
    (h : ∀ table ∈ stringTable, KeepsNames part rest table) (offset i : Nat) :
    Truncates Fault.Any Eq (sectionAt part offset stringTable i)
      (sectionAt (part ++ rest) offset stringTable i) := by
  unfold sectionAt
  refine (Bytes.record_truncates part rest _ sectionHeaderSize).bindEq fun r _ => ?_
  dsimp only
  split
  · exact (name_truncates (h _ rfl) _).bindEq fun _ _ => .refl _
  · exact .refl _

/-- The fields that say where the symbols are. -/
theorem symbols_of_headers {data : Bytes} {h : Headers} (hheaders : headers data = .ok h) :
    ∃ first r, data.record 0x3C 4 = .ok first ∧
      data.record (first.number .little 0 4 + 4 : Nat) 20 = .ok r ∧
      h.symbolOffset = r.number .little 8 4 ∧ h.symbolCount = r.number .little 12 4 := by
  unfold headers at hheaders
  obtain ⟨first, hfirst, hheaders⟩ := bind_eq_ok.1 hheaders
  dsimp only at hheaders
  split at hheaders
  · cases hheaders
  · obtain ⟨r, hr, hheaders⟩ := bind_eq_ok.1 hheaders
    obtain ⟨sections, -, hheaders⟩ := bind_eq_ok.1 hheaders
    cases hheaders
    exact ⟨first, r, hfirst, hr, rfl, rfl⟩

theorem headers_truncates (hcut : ¬ CutsName (part ++ rest) part.size) {h : Headers}
    (hheaders : headers (part ++ rest) = .ok h) :
    Truncates Fault.Any Eq (headers part) (headers (part ++ rest)) := by
  obtain ⟨first, r, hfirst, hr, hoffset, hcount⟩ := symbols_of_headers hheaders
  unfold headers
  refine (Bytes.record_truncates part rest 0x3C 4).bindEq fun first' hfirst' => ?_
  obtain rfl : first = first' := Except.ok.inj (hfirst.symm.trans hfirst')
  dsimp only
  by_cases hsignature : (part.slice (first.number .little 0 4) 4).toList = [0x50, 0x45, 0, 0]
  · have hwhole : ((part ++ rest).slice (first.number .little 0 4) 4).toList
        = [0x50, 0x45, 0, 0] := by
      have hne : ([0x50, 0x45, 0, 0] : List UInt8) ≠ [] := List.cons_ne_nil _ _
      have hsame := Bytes.slice_append_of_eq part rest hne hsignature
      exact (congrArg Array.toList hsame).trans hsignature
    simp only [hsignature, hwhole, ne_eq, not_true_eq_false, if_false]
    refine (Bytes.record_truncates part rest _ 20).bindEq fun r' hr' => ?_
    obtain rfl : r = r' := Except.ok.inj (hr.symm.trans hr')
    refine Truncates.bindEq ?_ fun _ _ => .refl _
    refine Truncates.readTableEq (fun i => sectionAt_truncates ?_ _ i) 0 _
    intro table htable
    split at htable
    · cases htable
    · rename_i hsymbols
      obtain rfl : _ = table := Option.some.inj htable
      rw [← hoffset, ← hcount]
      exact keepsNames hcut hheaders (hoffset ▸ hsymbols)
  · simp only [hsignature, ne_eq, not_false_eq_true, if_true]
    exact .broken trivial

/-! ## Symbols -/

theorem nameOf_truncates {h : Headers}
    (hkeeps : KeepsNames part rest (stringTableAt h.symbolOffset h.symbolCount)) (r : Record) :
    Truncates Fault.Any Eq (nameOf part h r) (nameOf (part ++ rest) h r) := by
  unfold nameOf
  dsimp only
  split
  · exact (name_truncates hkeeps _).bindEq fun _ _ => .refl _
  · exact .refl _

theorem functionsFrom_truncates {h : Headers}
    (hkeeps : KeepsNames part rest (stringTableAt h.symbolOffset h.symbolCount)) (s : Section)
    (number i : Nat) : Truncates Fault.Any Eq (functionsFrom part h s number i)
      (functionsFrom (part ++ rest) h s number i) := by
  induction hleft : h.symbolCount - i using Nat.strong_induction_on generalizing i with
  | _ left ih =>
    rw [functionsFrom.eq_def, functionsFrom.eq_def (part ++ rest)]
    by_cases hi : i < h.symbolCount
    · rw [if_pos hi, if_pos hi]
      have hrecord : Truncates Fault.Any Eq (recordAt part h.symbolOffset i)
          (recordAt (part ++ rest) h.symbolOffset i) :=
        (Bytes.record_truncates part rest _ symbolSize).bindEq fun _ _ => .refl _
      refine hrecord.bindEq fun r _ => ?_
      have hrest := ih _ (by omega) (i + 1 + r.auxiliaries) rfl
      by_cases hwanted : r.sectionNumber = number ∧ r.type = functionType
      · rw [if_pos hwanted, if_pos hwanted]
        refine (nameOf_truncates hkeeps r).bindEq fun name _ => ?_
        exact hrest.bindEq fun _ _ => .refl _
      · rw [if_neg hwanted, if_neg hwanted]
        exact hrest
    · rw [if_neg hi, if_neg hi]
      exact .refl _

/-! ## Images -/

theorem read_truncates (wanted : Value) (hcut : ¬ CutsName (part ++ rest) part.size) {h : Headers}
    (hheaders : headers (part ++ rest) = .ok h) :
    Truncates ReadError.Refuses (AlikeReading Eq) (read part wanted)
      (read (part ++ rest) wanted) := by
  unfold read
  refine ((headers_truncates hcut hheaders).within .pe).bindEq fun h' hh' => ?_
  split
  · exact .failed _
  · rename_i s number _
    dsimp only
    by_cases hstripped : h'.symbolOffset = 0 ∨ h'.symbolCount = 0
    · rw [if_pos hstripped, if_pos hstripped]
      exact .given ⟨rfl, rfl, rfl, rfl, .nil⟩
    · rw [if_neg hstripped, if_neg hstripped]
      have hkeeps := keepsNames hcut (within_eq_ok.1 hh') fun hzero => hstripped (.inl hzero)
      refine ((functionsFrom_truncates hkeeps s number 0).within .pe).bindEq fun entries _ => ?_
      exact .given ⟨rfl, rfl, rfl, rfl, List.forall₂_same.2 fun _ _ => ⟨rfl, rfl, rfl, rfl⟩⟩

end CrateLedger.Image.Coff
