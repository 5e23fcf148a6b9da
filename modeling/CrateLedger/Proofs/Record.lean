import CrateLedger.Proofs.Grouping
import CrateLedger.Proofs.Json.Documents
import CrateLedger.Report.Record

/-!
# Saved reports are read back

The report of an analysis holds texts, numbers and truth values, and what it says about crates
follows from its symbols. So a report that is saved as JSON and read again is the same report, its
crates included, except where a text has a high surrogate right in front of a low one: a name can
spell the two with an escape each, and JSON has one spelling for the two and for the code point that
they stand for.
-/

namespace CrateLedger

theorem Scalar.paired_eq_self_iff {s : Scalar} (h : ∃ t, s = .text t) :
    s.paired = s ↔ ∀ t ∈ s.text?, t.IsPaired := by
  obtain ⟨t, rfl⟩ := h
  simp [paired, text?, Text.paired_eq_self_iff]

theorem Value.paired_eq_self_iff {v : Value} (h : ∃ t, v = .text t) :
    v.paired = v ↔ ∀ t ∈ v.text?, t.IsPaired := by
  obtain ⟨t, rfl⟩ := h
  simp [text, paired, text?, Scalar.paired_eq_self_iff]

namespace Symbol

/-- A symbol with the surrogate pairs of its texts put together. -/
def paired (s : Symbol) : Symbol :=
  { s with name := s.name.paired, shown := s.shown.paired, crate := s.crate.paired }

/-- The texts of a symbol. -/
def texts (s : Symbol) : List Text := [s.name.text?, s.shown.text?, s.crate.text?].reduceOption

/-- All that can be a text in a symbol is one, as an analysis makes it. -/
structure IsTextual (s : Symbol) : Prop where
  name : ∃ t, s.name = .text t
  shown : ∃ t, s.shown = .text t
  crate : ∃ t, s.crate = .text t

theorem paired_eq_self_iff {s : Symbol} (h : s.IsTextual) :
    s.paired = s ↔ ∀ t ∈ s.texts, t.IsPaired := by
  have hparts : s.paired = s
      ↔ s.name.paired = s.name ∧ s.shown.paired = s.shown ∧ s.crate.paired = s.crate := by
    cases s
    simp [paired]
  have hmem : ∀ t, t ∈ s.texts
      ↔ t ∈ s.name.text? ∨ t ∈ s.shown.text? ∨ t ∈ s.crate.text? := by
    simp [texts, List.reduceOption_mem_iff, eq_comm]
  rw [hparts, Value.paired_eq_self_iff h.name, Value.paired_eq_self_iff h.shown,
    Scalar.paired_eq_self_iff h.crate]
  simp only [hmem, or_imp, forall_and]

end Symbol

namespace Report

/-- A report with the surrogate pairs of its texts put together. -/
def paired (r : Report) : Report :=
  { r with
    sectionName := r.sectionName.paired
    formatName := r.formatName.paired
    symbols := r.symbols.map Symbol.paired }

/-- The texts of a report. -/
def texts (r : Report) : List Text :=
  [r.sectionName.text?, r.formatName.text?].reduceOption ++ r.symbols.flatMap Symbol.texts

/-- All that can be a text in a report is one, as an analysis makes it. -/
structure IsTextual (r : Report) : Prop where
  symbols : ∀ s ∈ r.symbols, s.IsTextual
  sectionName : ∃ t, r.sectionName = .text t
  formatName : ∃ t, r.formatName = .text t
  splitStd : ∃ b, r.splitStd = .bool b

/-- Exactly the reports without a split pair stay as they are. -/
theorem paired_eq_self_iff {r : Report} (h : r.IsTextual) :
    r.paired = r ↔ ∀ t ∈ r.texts, t.IsPaired := by
  have hparts : r.paired = r ↔ r.sectionName.paired = r.sectionName
      ∧ r.formatName.paired = r.formatName ∧ r.symbols.map Symbol.paired = r.symbols := by
    cases r
    simp [paired]
  have hsymbols : r.symbols.map Symbol.paired = r.symbols
      ↔ ∀ s ∈ r.symbols, ∀ t ∈ s.texts, t.IsPaired := by
    have hid : r.symbols.map Symbol.paired = r.symbols.map id ↔ ∀ s ∈ r.symbols, s.paired = s :=
      List.map_inj_left
    rw [List.map_id] at hid
    exact hid.trans (forall₂_congr fun s hs => Symbol.paired_eq_self_iff (h.symbols s hs))
  have hmem : ∀ t, t ∈ r.texts ↔ t ∈ r.sectionName.text? ∨ t ∈ r.formatName.text?
      ∨ ∃ s ∈ r.symbols, t ∈ s.texts := by
    simp [texts, List.reduceOption_mem_iff, eq_comm, or_assoc]
  rw [hparts, Value.paired_eq_self_iff h.sectionName, Value.paired_eq_self_iff h.formatName,
    hsymbols]
  simp only [hmem, or_imp, forall_and]
  exact and_congr_right' (and_congr_right'
    ⟨fun h t ⟨s, hs, ht⟩ => h s hs t ht, fun h s hs t ht => h t ⟨s, hs, ht⟩⟩)

/-! ## Reading a report -/

/-- The document of a report, with any list of crates. -/
def valueWith (crates : Value) (r : Report) : Value :=
  .record [("file_size", .integer r.fileSize), ("section_size", .integer r.sectionSize),
    ("section_name", r.sectionName), ("format", r.formatName), ("split_std", r.splitStd),
    ("symbols", .list (r.symbols.map symbolValue)), ("crates", crates)]

theorem symbolOf_symbolValue (s : Symbol) :
    symbolOf (symbolValue s) = .ok (fun crate => { s with crate }, .scalar s.crate) := rfl

/-- A report is read from its document, whatever that says about the crates. -/
theorem ofValue_valueWith (crates : Value) {r : Report} {b : Bool} (hsplit : r.splitStd = .bool b)
    (hranked : r.ranked = .ok r) : ofValue (r.valueWith crates) = .ok r := by
  have hread : (r.symbols.map symbolValue).mapM symbolOf
      = .ok (r.symbols.map fun s => (fun crate => { s with crate }, .scalar s.crate)) := by
    rw [mapM_eq_ok, List.forall₂_map_left_iff, List.forall₂_map_right_iff]
    exact List.forall₂_same.2 fun s _ => symbolOf_symbolValue s
  have hcrates : (r.symbols.map fun s =>
      ((fun crate => { s with crate }, .scalar s.crate) : (Scalar → Symbol) × Value)).mapM withCrate
        = .ok r.symbols := by
    rw [mapM_eq_ok, List.forall₂_map_left_iff]
    exact List.forall₂_same.2 fun s _ => rfl
  refine bind_eq_ok.2 ⟨_, rfl, bind_eq_ok.2 ⟨.list (r.symbols.map symbolValue), rfl, ?_⟩⟩
  refine bind_eq_ok.2 ⟨_, hread, ?_⟩
  refine bind_eq_ok.2 ⟨.integer r.fileSize, rfl, bind_eq_ok.2 ⟨_, rfl, ?_⟩⟩
  refine bind_eq_ok.2 ⟨.integer r.sectionSize, rfl, bind_eq_ok.2 ⟨_, rfl, ?_⟩⟩
  refine bind_eq_ok.2 ⟨r.sectionName, rfl, bind_eq_ok.2 ⟨_, hcrates, ?_⟩⟩
  have htruth : Value.bool r.splitStd.isTrue = r.splitStd := by
    rw [hsplit]
    rfl
  have hself : ({ r with splitStd := .bool r.splitStd.isTrue } : Report) = r := by rw [htruth]
  have hrank (report : Report) (hreport : report = r) : report.ranked = .ok r := hreport ▸ hranked
  dsimp only
  rw [hrank]
  · rfl
  · exact hself

/-! ## Reading what was written -/

theorem isPlain_symbolValue {s : Symbol} (h : s.IsTextual) : (symbolValue s).IsPlain := by
  obtain ⟨name, hname⟩ := h.name
  obtain ⟨shown, hshown⟩ := h.shown
  obtain ⟨crate, hcrate⟩ := h.crate
  have hkeys : (List.map Text.paired
      ["name", "demangled", "size", "address", "crate", "is_exact"]).Nodup := by decide
  refine Value.isPlain_record hkeys ?_
  rw [hname, hshown, hcrate]
  simp only [List.forall_mem_cons]
  refine ⟨nofun, nofun, nofun, nofun, nofun, nofun, nofun⟩

theorem isPlain_toValue {r : Report} (h : r.IsTextual) : r.toValue.IsPlain := by
  obtain ⟨sectionName, hsection⟩ := h.sectionName
  obtain ⟨formatName, hformat⟩ := h.formatName
  obtain ⟨b, hsplit⟩ := h.splitStd
  have hsymbols : (Value.list (r.symbols.map symbolValue)).IsPlain := by
    refine Value.arePlain_iff.2 fun v hv => ?_
    obtain ⟨s, hs, rfl⟩ := List.mem_map.1 hv
    exact isPlain_symbolValue (h.symbols s hs)
  have hcrates : (Value.list (r.crates.map crateValue)).IsPlain := by
    refine Value.arePlain_iff.2 fun v hv => ?_
    obtain ⟨row, hrow, rfl⟩ := List.mem_map.1 hv
    obtain ⟨s, hs, hname⟩ := exists_symbol_of_mem_crates hrow
    obtain ⟨crate, hcrate⟩ := (h.symbols s hs).crate
    have hkeys : (List.map Text.paired ["name", "size", "symbol_count"]).Nodup := by decide
    refine Value.isPlain_record hkeys ?_
    rw [← hname, hcrate]
    simp only [List.forall_mem_cons]
    exact ⟨nofun, nofun, nofun, nofun⟩
  have hkeys : (List.map Text.paired ["file_size", "section_size", "section_name", "format",
      "split_std", "symbols", "crates"]).Nodup := by decide
  refine Value.isPlain_record hkeys ?_
  rw [hsection, hformat, hsplit]
  simp only [List.forall_mem_cons]
  exact ⟨nofun, nofun, nofun, nofun, nofun, hsymbols, hcrates, nofun⟩

theorem paired_symbolValue (s : Symbol) : (symbolValue s).paired = symbolValue s.paired := by
  rw [symbolValue, Value.paired_record]
  rfl

/-- Putting pairs together in the document of a report is putting them together in the report. What
the document says about crates may then no longer be true. -/
theorem exists_paired_toValue {r : Report} (h : ∃ b, r.splitStd = .bool b) :
    ∃ crates, r.toValue.paired = r.paired.valueWith crates := by
  obtain ⟨b, hsplit⟩ := h
  have hsymbols : (Value.list (r.symbols.map symbolValue)).paired
      = .list (r.paired.symbols.map symbolValue) := by
    rw [Value.paired, Value.pairedItems_eq_map, List.map_map, paired, List.map_map]
    exact congrArg Value.list (List.map_congr_left fun s _ => paired_symbolValue s)
  have hsplitStd : r.splitStd.paired = r.splitStd := by
    rw [hsplit]
    rfl
  refine ⟨(Value.list (r.crates.map crateValue)).paired, ?_⟩
  rw [toValue, Value.paired_record, valueWith, ← hsymbols]
  simp only [List.map_cons, List.map_nil, hsplitStd]
  rfl

/-- **A report is read back**, with the surrogate pairs of its texts put together. -/
theorem ofJson_toJson {r : Report} (h : r.IsTextual) (indent : Option Int) :
    ofJson (r.toJson indent) = .ok r.paired := by
  obtain ⟨crates, hcrates⟩ := exists_paired_toValue h.splitStd
  obtain ⟨b, hsplit⟩ := h.splitStd
  have hranked : r.paired.ranked = .ok r.paired := by
    refine ranked_eq_ok fun p hp => ?_
    obtain ⟨s, hs, rfl⟩ := List.mem_map.1 hp
    obtain ⟨t, ht⟩ := (h.symbols s hs).crate
    exact ⟨t.paired, by rw [Symbol.paired, ht]; rfl⟩
  rw [ofJson, toJson, Json.read?_write indent (isPlain_toValue h), hcrates]
  exact ofValue_valueWith crates hsplit hranked

end Report

/-! ## Reports of analyses -/

namespace Analysis

open Attribution

variable {table : SymbolTable} {context : BuildContext} {options : Options} {report : Report}

/-- The symbols of an analysis are named and labelled by texts. -/
theorem isTextual_of_attributedSymbols (htexts : ∀ s ∈ context.symbols, ∃ t, s.1 = Scalar.text t)
    {entries : List RawSymbol} {symbols : List Symbol}
    (h : attributedSymbols context options entries = .ok symbols) :
    ∀ s ∈ symbols, s.IsTextual := by
  have hcrates := attributedSymbols_text htexts h
  obtain ⟨attributions, -, h⟩ := bind_eq_ok.1 h
  have hnames : ∀ s ∈ symbols, (∃ t, s.name = .text t) ∧ ∃ t, s.shown = .text t := by
    refine forall_of_mapM_eq_ok h ?_
    rintro ⟨e, a⟩ - s hs
    obtain ⟨shown, -, hs⟩ := bind_eq_ok.1 hs
    cases hs
    exact ⟨⟨_, rfl⟩, _, rfl⟩
  exact fun s hs => ⟨(hnames s hs).1, (hnames s hs).2, hcrates s hs⟩

theorem isTextual_of_ofTable (htexts : ∀ s ∈ context.symbols, ∃ t, s.1 = Scalar.text t)
    (hsplit : ∃ b, options.splitStd = .bool b) (h : ofTable table context options = .ok report) :
    report.IsTextual := by
  obtain ⟨symbols, hsymbols, rfl⟩ := exists_symbols_of_ofTable h
  exact ⟨isTextual_of_attributedSymbols htexts hsymbols, ⟨_, rfl⟩, ⟨_, rfl⟩, hsplit⟩

/-- **A report that is saved and read again**, with any indentation, is the report with the
surrogate pairs of its texts put together. It is the same report if and only if no text of it has a
high surrogate right in front of a low one. -/
theorem ofTable_saved (htexts : ∀ s ∈ context.symbols, ∃ t, s.1 = Scalar.text t)
    (hsplit : ∃ b, options.splitStd = .bool b) (h : ofTable table context options = .ok report)
    (indent : Option Int) :
    Report.ofJson (report.toJson indent) = .ok report.paired
      ∧ (Report.ofJson (report.toJson indent) = .ok report ↔ ∀ t ∈ report.texts, t.IsPaired) := by
  have htextual := isTextual_of_ofTable htexts hsplit h
  have hread := Report.ofJson_toJson htextual indent
  refine ⟨hread, ?_⟩
  rw [hread, Except.ok.injEq]
  exact Report.paired_eq_self_iff htextual

/-- A table with a single symbol. -/
def singleTable (name : Text) : SymbolTable where
  formatName := "elf64"
  sectionName := ".text"
  sectionSize := 16
  fileSize := 4096
  entries := [⟨0, 12, ".text", name⟩]

/-- The report of a table with a single symbol that belongs to no crate. -/
def singleReport (name shown : Text) : Report where
  fileSize := 4096
  sectionSize := 16
  sectionName := .text ".text"
  formatName := .text "elf64"
  splitStd := .bool false
  symbols := [⟨.text name, .text shown, 12, 0, .text "[Unknown]", false⟩]

/-- The report of a name that spells a high surrogate in front of a letter is saved and read again
as it is. -/
theorem loneSurrogate_saved :
    ofTable (singleTable "_ZN8$ud83d$aE") sampleContext {}
        = .ok (singleReport "_ZN8$ud83d$aE" [⟨0xD83D, by decide⟩, 'a'])
      ∧ Report.ofJson ((singleReport "_ZN8$ud83d$aE" [⟨0xD83D, by decide⟩, 'a']).toJson (some 2))
        = .ok (singleReport "_ZN8$ud83d$aE" [⟨0xD83D, by decide⟩, 'a']) := by
  have hreport : ofTable (singleTable "_ZN8$ud83d$aE") sampleContext {}
      = .ok (singleReport "_ZN8$ud83d$aE" [⟨0xD83D, by decide⟩, 'a']) := by cbv
  have hpaired : ∀ t ∈ (singleReport "_ZN8$ud83d$aE" [⟨0xD83D, by decide⟩, 'a']).texts,
      t.IsPaired := by decide +kernel
  exact ⟨hreport, (ofTable_saved (List.forall_mem_nil _) ⟨false, rfl⟩ hreport (some 2)).2.2 hpaired⟩

/-- The report of a name that spells a high surrogate and then a low one is not: one code point has
taken the place of the two. -/
theorem splitPair_changed :
    ofTable (singleTable "_ZN14$ud83d$$ude00$E") sampleContext {}
        = .ok (singleReport "_ZN14$ud83d$$ude00$E" [⟨0xD83D, by decide⟩, ⟨0xDE00, by decide⟩])
      ∧ ∃ restored, Report.ofJson ((singleReport "_ZN14$ud83d$$ude00$E"
          [⟨0xD83D, by decide⟩, ⟨0xDE00, by decide⟩]).toJson (some 2)) = .ok restored
        ∧ restored.same (singleReport "_ZN14$ud83d$$ude00$E"
          [⟨0xD83D, by decide⟩, ⟨0xDE00, by decide⟩]) = false := by
  have htextual : (singleReport "_ZN14$ud83d$$ude00$E"
      [⟨0xD83D, by decide⟩, ⟨0xDE00, by decide⟩]).IsTextual :=
    ⟨List.forall_mem_singleton.2 ⟨⟨_, rfl⟩, ⟨_, rfl⟩, _, rfl⟩, ⟨_, rfl⟩, ⟨_, rfl⟩, _, rfl⟩
  exact ⟨by cbv, _, Report.ofJson_toJson htextual (some 2), by decide +kernel⟩

end Analysis

end CrateLedger
