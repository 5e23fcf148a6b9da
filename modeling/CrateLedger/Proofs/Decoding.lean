import CrateLedger.Proofs.Analysis
import CrateLedger.Proofs.Mangled.Numbers
import CrateLedger.Proofs.Mangled.V0.Beyond

/-!
# Analyses that a name aborts

Every symbol that an analysis keeps has its name decoded, so a name that cannot be decoded aborts
the analysis of the whole table.

Main statement: an analysis with a valid context is aborted by a name exactly if the name of a kept
symbol cannot be decoded, and this happens only to names that spell a number that cannot be used.
-/

namespace CrateLedger.Analysis

open Attribution Mangled

variable {context : BuildContext} {options : Options} {entries : List RawSymbol} {name : Text}
  {e : NumberError}

/-! ## One symbol -/

theorem decode_of_choose {first : Scalar} {others : List Scalar}
    (h : Attribution.choose name first others = .error e) : Name.decode name = .error e := by
  unfold Attribution.choose at h
  split at h
  · cases h
  · rcases bind_eq_error.1 h with hdecode | ⟨n, -, h⟩
    · exact hdecode
    · split at h <;> cases h

theorem decode_of_ofName (h : Attribution.ofName context options name = .error e) :
    Name.decode name = .error e := by
  unfold Attribution.ofName at h
  split at h
  · cases h
  · split at h
    · rcases bind_eq_error.1 h with hchoose | ⟨crate, -, h⟩
      · exact decode_of_choose hchoose
      · cases h
    · rcases bind_eq_error.1 h with hdecode | ⟨n, -, h⟩
      · exact hdecode
      · split at h <;> cases h

/-- The empty name is never decoded, but it could be. -/
theorem shownName_eq_error_iff :
    (∃ e, shownName name = .error e) ↔ ∃ e, Name.decode name = .error e := by
  unfold shownName
  by_cases hempty : name.isEmpty = true
  · obtain rfl : name = [] := List.isEmpty_iff.1 hempty
    have hdecode : Name.decode [] = .ok (.verbatim []) := rfl
    simp [hdecode]
  · rw [if_neg hempty]
    cases Name.decode name with
    | error e => simp [bind, Except.bind]
    | ok n => simp [bind, Except.bind, pure, Except.pure]

/-! ## All symbols -/

theorem attributedSymbols_eq_error_iff :
    (∃ e, attributedSymbols context options entries = .error e) ↔
      ∃ entry ∈ entries, ∃ e, Name.decode entry.name = .error e := by
  constructor
  · rintro ⟨e, h⟩
    rcases bind_eq_error.1 h with hnames | ⟨attributions, -, h⟩
    · obtain ⟨name, hname, he⟩ := exists_of_mapM_eq_error hnames
      obtain ⟨entry, hentry, rfl⟩ := List.mem_map.1 hname
      exact ⟨entry, hentry, e, decode_of_ofName he⟩
    · obtain ⟨⟨entry, a⟩, hmem, he⟩ := exists_of_mapM_eq_error h
      rcases bind_eq_error.1 he with hshown | ⟨shown, -, he⟩
      · exact ⟨entry, (List.of_mem_zip hmem).1, shownName_eq_error_iff.1 ⟨e, hshown⟩⟩
      · cases he
  · rintro ⟨entry, hentry, hdecode⟩
    cases hsymbols : attributedSymbols context options entries with
    | error e => exact ⟨e, rfl⟩
    | ok symbols =>
      -- Every entry has an attribution, so its name has been decoded.
      obtain ⟨attributions, hattributions, hsymbols⟩ := bind_eq_ok.1 hsymbols
      have hlength := (mapM_eq_ok.1 hattributions).length_eq
      rw [List.length_map] at hlength
      obtain ⟨i, hi, rfl⟩ := List.mem_iff_getElem.1 hentry
      have hmem : (entries[i], attributions[i]) ∈ entries.zip attributions :=
        List.mem_iff_getElem.2 ⟨i, by rw [List.length_zip]; omega, List.getElem_zip⟩
      obtain ⟨symbol, hsymbol⟩ := exists_mapM_eq_ok.1 ⟨symbols, hsymbols⟩ _ hmem
      obtain ⟨shown, hshown, -⟩ := bind_eq_ok.1 hsymbol
      obtain ⟨e, he⟩ := shownName_eq_error_iff.2 hdecode
      rw [hshown] at he
      cases he

theorem ofTable_eq_name_error_iff {table : SymbolTable} :
    (∃ e, ofTable table context options = .error (.name e)) ↔ context.validate = .ok () ∧
      ∃ entry ∈ sectionSymbols table, ∃ e, Name.decode entry.name = .error e := by
  have hattributed := @attributedSymbols_eq_error_iff context options (sectionSymbols table)
  rw [← hattributed]
  unfold ofTable
  split
  · rename_i hcontext
    simp [hcontext]
  · rename_i hcontext
    split
    · rename_i e hnames
      simp [hcontext, hnames]
    · rename_i symbols hnames
      dsimp only
      split <;> simp [hnames]

/-! ## Names with numbers that cannot be used -/

/-- Decoding gives a result unless the name spells a number that cannot be used. It fails for every
legacy name that does, for every v0 name that does in a generic argument of its path, and for every
v0 name of a special item whose disambiguator has too many digits. An analysis with a valid context
is aborted by a name exactly if the name of a kept symbol cannot be decoded. -/
theorem decodes_unless_beyond (name : Text) (table : SymbolTable) (context : BuildContext)
    (options : Options) :
    (¬ LegacyBeyond name → ¬ V0Beyond name → ∃ n, Name.decode name = .ok n) ∧
    (LegacyBeyond name → ∃ e, Name.decode name = .error e) ∧
    (∀ start ∈ V0.prefixes, ∀ m : V0.BeyondSpelling, m.WellFormed →
      name = start ++ Text.ofChars m.chars → ∃ e, Name.decode name = .error e) ∧
    (∀ start ∈ V0.prefixes, ∀ m : V0.OverlongSpelling, m.WellFormed →
      name = start ++ Text.ofChars m.chars → ∃ e, Name.decode name = .error e) ∧
    ((∃ e, ofTable table context options = .error (.name e)) ↔ context.validate = .ok () ∧
      ∃ entry ∈ sectionSymbols table, ∃ e, Name.decode entry.name = .error e) := by
  refine ⟨fun hlegacy hv0 => ?_, decode_of_legacyBeyond, ?_, ?_, ofTable_eq_name_error_iff⟩
  · cases hdecode : Name.decode name with
    | ok n => exact ⟨n, rfl⟩
    | error e => exact ((decode_eq_error hdecode).elim hlegacy hv0).elim
  · rintro start hstart m hm rfl
    exact V0.BeyondSpelling.decode_eq_error hstart hm
  · rintro start hstart m hm rfl
    exact V0.OverlongSpelling.decode_eq_error hstart hm

/-- A table with a single symbol. -/
def tableOf (name : Text) : SymbolTable := ⟨"elf64", ".text", 16, 4096, [⟨0, 16, ".text", name⟩]⟩

theorem sampleContext_valid : sampleContext.validate = .ok () := rfl

/-- A name that cannot be decoded aborts the analysis of a table of nothing else. -/
theorem tableOf_aborts {name : Text} (h : ∃ e, Name.decode name = .error e) :
    ∃ e, ofTable (tableOf name) sampleContext {} = .error (.name e) := by
  refine ofTable_eq_name_error_iff.2 ⟨sampleContext_valid, ⟨0, 16, ".text", name⟩, ?_, h⟩
  simp [sectionSymbols, tableOf, deduplicate, collapse]

/-- A legacy name of a single escape, whose number is the first beyond Unicode. -/
theorem legacyBeyond_sample : LegacyBeyond "_ZN9$u110000$E" := by
  refine .inr ⟨⟨["$u110000$".toList], none⟩, by decide +kernel, _, List.mem_singleton_self _,
    "u110000".toList, .here [] (by decide), "110000".toList, ?_, ?_⟩
  · exact ⟨rfl, by decide, by decide⟩
  · decide

/-- A function `a::b` with a generic argument, a character of the first number beyond Unicode. -/
def sampleBeyond : V0.BeyondSpelling where
  base := V0.BeyondSpelling.sampleBase
  type := .char
  digits := "110000".toList
  rest := ['E']

theorem sampleBeyond_wellFormed : sampleBeyond.WellFormed where
  base_placed := V0.BeyondSpelling.sampleBase_placed _ _
  args_placed := V0.BeyondSpelling.placed_nil _ _
  base_depth := by decide
  args_depth := by decide
  fits := by decide
  hex := List.all_eq_true.1 rfl
  unusable := .inl ⟨rfl, by decide⟩
  rest_ascii := V0.isAscii_cons.2 ⟨by decide, V0.isAscii_nil⟩

/-- Names of both schemes are not decoded and abort an analysis. -/
theorem beyond_aborts :
    ((∃ e, Name.decode "_ZN9$u110000$E" = .error e) ∧
      ∃ e, ofTable (tableOf "_ZN9$u110000$E") sampleContext {} = .error (.name e)) ∧
    (∃ e, Name.decode "_RINvC1a1bKc110000_E" = .error e) ∧
      ∃ e, ofTable (tableOf "_RINvC1a1bKc110000_E") sampleContext {} = .error (.name e) := by
  have hlegacy := decode_of_legacyBeyond legacyBeyond_sample
  have hname : ("_R" : Text) ++ Text.ofChars sampleBeyond.chars = "_RINvC1a1bKc110000_E" := by
    decide +kernel
  have hv0 := V0.BeyondSpelling.decode_eq_error (show ("_R" : Text) ∈ V0.prefixes by decide)
    sampleBeyond_wellFormed
  rw [hname] at hv0
  exact ⟨⟨hlegacy, tableOf_aborts hlegacy⟩, hv0, tableOf_aborts hv0⟩

theorem main_decodes :
    ¬ LegacyBeyond "main" ∧ ¬ V0Beyond "main" ∧ ∃ n, Name.decode "main" = .ok n := by
  have hlegacy : ¬ LegacyBeyond "main" := by
    have hnone : Legacy.parse? "main" = .ok none := by decide +kernel
    rintro (hlong | ⟨parts, hparts, -⟩)
    · obtain ⟨e, he⟩ := Legacy.parse?_eq_error_iff.2 hlong
      rw [hnone] at he
      cases he
    · rw [hnone] at hparts
      cases hparts
  have hv0 : ¬ V0Beyond "main" := by
    rintro ⟨inner, hinner, -⟩
    have hnone : Text.asciiBehind? V0.prefixes "main" = none := by decide +kernel
    rw [hnone] at hinner
    cases hinner
  exact ⟨hlegacy, hv0,
    (decodes_unless_beyond "main" sampleTable sampleContext {}).1 hlegacy hv0⟩

end CrateLedger.Analysis
