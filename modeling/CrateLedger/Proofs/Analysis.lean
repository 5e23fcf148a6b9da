import CrateLedger.Analysis
import CrateLedger.Proofs.Attribution.Distinct
import CrateLedger.Proofs.Checked
import CrateLedger.Proofs.Report

/-!
# What an analysis conserves

An analysis goes through four stages: the entries of the section are taken, the best of each address
is kept, each is given a crate, and the crates are added up. None of them loses or repeats anything,
and none depends on the order of the table. So the totals of a report are those of the table: the
sum, over the addresses of the section, of the largest size that is listed there.
-/

namespace CrateLedger

open Attribution

/-! ## Totals of a table -/

namespace SymbolTable

/-- The entries of the section. -/
def inside (table : SymbolTable) : List RawSymbol :=
  table.entries.filter fun e => e.sectionName = table.sectionName

/-- The addresses of the entries of the section. -/
def addresses (table : SymbolTable) : Finset Int := (table.inside.map RawSymbol.address).toFinset

/-- The largest size that is listed at an address of the section. -/
def largestAt (table : SymbolTable) (address : Int) : Int :=
  (((table.inside.filter fun e => e.address = address).map RawSymbol.size).max?).getD 0

/-- A size that is listed at an address and that none there exceeds is the largest. -/
theorem largestAt_eq {table : SymbolTable} {e : RawSymbol} (he : e ∈ table.inside)
    (hmax : ∀ x ∈ table.inside, x.address = e.address → x.size ≤ e.size) :
    table.largestAt e.address = e.size := by
  have hmax? : (((table.inside.filter fun x => x.address = e.address).map RawSymbol.size).max?)
      = some e.size := by
    rw [List.max?_eq_some_iff]
    refine ⟨List.mem_map.2 ⟨e, List.mem_filter.2 ⟨he, by simp⟩, rfl⟩, ?_⟩
    intro size hsize
    obtain ⟨x, hx, rfl⟩ := List.mem_map.1 hsize
    obtain ⟨hx, haddress⟩ := List.mem_filter.1 hx
    exact hmax x hx (of_decide_eq_true haddress)
  rw [largestAt, hmax?, Option.getD_some]

end SymbolTable

namespace Analysis

/-! ## Attributing -/

/-- Attributing keeps addresses and sizes, in order. -/
theorem attributedSymbols_ok {context : BuildContext} {options : Options} {entries : List RawSymbol}
    {symbols : List Symbol} (h : attributedSymbols context options entries = .ok symbols) :
    symbols.map (fun s => (s.address, s.size)) = entries.map fun e => (e.address, e.size) := by
  obtain ⟨attributions, hattributions, h⟩ := bind_eq_ok.1 h
  have hlength : entries.length ≤ attributions.length := by
    have := (mapM_eq_ok.1 hattributions).length_eq
    rw [List.length_map] at this
    exact this.le
  have hmade : List.Forall₂ (fun (p : RawSymbol × Attribution) s =>
      (p.1.address, p.1.size) = (s.address, s.size)) (entries.zip attributions) symbols := by
    refine (mapM_eq_ok.1 h).imp fun p s hs => ?_
    obtain ⟨shown, -, hs⟩ := bind_eq_ok.1 hs
    rw [← Except.ok.inj hs]
  calc symbols.map (fun s => (s.address, s.size))
      = (entries.zip attributions).map fun p => (p.1.address, p.1.size) := by
        rw [← List.forall₂_eq_eq_eq, List.forall₂_map_left_iff, List.forall₂_map_right_iff]
        exact hmade.flip.imp fun s p hs => hs.symm
    _ = ((entries.zip attributions).map Prod.fst).map fun e => (e.address, e.size) := by
        rw [List.map_map]
        rfl
    _ = entries.map fun e => (e.address, e.size) := by rw [List.map_fst_zip hlength]

section Kept

variable {entries : List RawSymbol} {symbols : List Symbol}
  (hkept : symbols.map (fun s => (s.address, s.size)) = entries.map fun e => (e.address, e.size))

include hkept

theorem map_address : symbols.map Symbol.address = entries.map RawSymbol.address := by
  simpa [List.map_map, Function.comp_def] using congrArg (List.map Prod.fst) hkept

theorem exists_entry {s : Symbol} (hs : s ∈ symbols) :
    ∃ e ∈ entries, e.address = s.address ∧ e.size = s.size := by
  have hmem := List.mem_map_of_mem (f := fun s : Symbol => (s.address, s.size)) hs
  rw [hkept] at hmem
  obtain ⟨e, he, heq⟩ := List.mem_map.1 hmem
  exact ⟨e, he, (Prod.mk.inj heq).1, (Prod.mk.inj heq).2⟩

theorem pairwise_address (h : entries.Pairwise fun a b => a.address < b.address) :
    symbols.Pairwise fun a b => a.address < b.address := by
  have hsorted : (entries.map RawSymbol.address).Pairwise (· < ·) := List.pairwise_map.2 h
  rw [← map_address hkept] at hsorted
  exact List.pairwise_map.1 hsorted

end Kept

/-! ## From table to report -/

/-- A report accounts for a table: it has one symbol for each address of the section, with the
largest size that is listed there, and shares them all out to crates. -/
structure Accounts (table : SymbolTable) (report : Report) : Prop where
  /-- The addresses ascend, so none comes twice. -/
  ascending : report.symbols.Pairwise fun a b => a.address < b.address
  /-- They are those of the section. -/
  addresses : ∀ a, a ∈ report.symbols.map Symbol.address ↔ a ∈ table.addresses
  /-- The size of each symbol is listed at its address. -/
  listed : ∀ s ∈ report.symbols, ∃ e ∈ table.inside, e.address = s.address ∧ e.size = s.size
  /-- Nothing larger is. -/
  largest : ∀ s ∈ report.symbols, ∀ e ∈ table.inside, e.address = s.address → e.size ≤ s.size
  /-- The crates share out what the symbols account for. -/
  crateSizes : (report.crates.map CrateSize.size).sum = report.symbolsSize
  /-- The symbols account for the largest size of each address. -/
  symbolsSize : report.symbolsSize = ∑ a ∈ table.addresses, table.largestAt a
  /-- The crates share out the addresses. -/
  symbolCounts : (report.crates.map CrateSize.symbolCount).sum = table.addresses.card
  /-- The rest is as the container declares it. -/
  declared : report.fileSize = table.fileSize ∧ report.sectionSize = table.sectionSize
    ∧ report.sectionName = .text table.sectionName ∧ report.formatName = .text table.formatName

/-- An analysis that succeeds makes its report of the attributed symbols of the section, the table
and the options. -/
theorem exists_symbols_of_ofTable {table : SymbolTable} {context : BuildContext} {options : Options}
    {report : Report} (h : ofTable table context options = .ok report) :
    ∃ symbols, attributedSymbols context options (sectionSymbols table) = .ok symbols
      ∧ report = ⟨table.fileSize, table.sectionSize, .text table.sectionName,
        .text table.formatName, options.splitStd, symbols⟩ := by
  rw [ofTable] at h
  split at h
  · cases h
  · split at h
    · cases h
    · rename_i symbols hsymbols
      simp only [Report.ranked] at h
      split at h
      · rename_i r hr
        split at hr
        · cases h
          cases hr
          exact ⟨symbols, hsymbols, rfl⟩
        · cases hr
      · cases h

/-- An analysis that succeeds has the attributed symbols of the section and what the table
declares. -/
theorem ofTable_ok {table : SymbolTable} {context : BuildContext} {options : Options}
    {report : Report} (h : ofTable table context options = .ok report) :
    attributedSymbols context options (sectionSymbols table) = .ok report.symbols
      ∧ report.fileSize = table.fileSize ∧ report.sectionSize = table.sectionSize
      ∧ report.sectionName = .text table.sectionName
      ∧ report.formatName = .text table.formatName := by
  obtain ⟨symbols, hsymbols, rfl⟩ := exists_symbols_of_ofTable h
  exact ⟨hsymbols, rfl, rfl, rfl, rfl⟩

/-- The addresses of the entries that are kept are those of the section. -/
theorem toFinset_addresses (table : SymbolTable) :
    ((sectionSymbols table).map RawSymbol.address).toFinset = table.addresses := by
  have hbest : KeepsBest table.inside (sectionSymbols table) := keepsBest_deduplicate _
  ext a
  rw [SymbolTable.addresses, List.mem_toFinset, List.mem_toFinset, hbest.mem_address]

/-- A report of a table accounts for it. -/
theorem accounts_of_ok {table : SymbolTable} {context : BuildContext} {options : Options}
    {report : Report} (h : ofTable table context options = .ok report) :
    Accounts table report := by
  obtain ⟨hsymbols, hdeclared⟩ := ofTable_ok h
  have hkept := attributedSymbols_ok hsymbols
  have hbest : KeepsBest table.inside (sectionSymbols table) := keepsBest_deduplicate _
  have hascending := pairwise_address hkept hbest.ascending
  have haddresses : (report.symbols.map Symbol.address).toFinset = table.addresses := by
    rw [map_address hkept, toFinset_addresses]
  have hnodup : (report.symbols.map Symbol.address).Nodup :=
    List.pairwise_map.2 (hascending.imp fun hlt => hlt.ne)
  have hlargest : ∀ s ∈ report.symbols, ∀ e ∈ table.inside, e.address = s.address →
      e.size ≤ s.size := by
    intro s hs e he haddress
    obtain ⟨d, hd, hda, hds⟩ := exists_entry hkept hs
    rw [← hds]
    exact RawSymbol.size_le_of_rank_le (hbest.best d hd e he (haddress.trans hda.symm))
  have hlisted : ∀ s ∈ report.symbols,
      ∃ e ∈ table.inside, e.address = s.address ∧ e.size = s.size := by
    intro s hs
    obtain ⟨d, hd, hds⟩ := exists_entry hkept hs
    exact ⟨d, hbest.subset hd, hds⟩
  have hlargestAt : ∀ s ∈ report.symbols, s.size = table.largestAt s.address := by
    intro s hs
    obtain ⟨e, he, haddress, hsize⟩ := hlisted s hs
    have hmax : ∀ x ∈ table.inside, x.address = e.address → x.size ≤ e.size :=
      fun x hx hxe => hsize ▸ hlargest s hs x hx (hxe.trans haddress)
    rw [← hsize, ← haddress, SymbolTable.largestAt_eq he hmax]
  refine ⟨hascending, fun a => ?_, hlisted, hlargest, Report.sum_crates_size report, ?_, ?_,
    hdeclared⟩
  · rw [← haddresses, List.mem_toFinset]
  · rw [Report.symbolsSize, Report.totalSize_eq_sum, List.map_congr_left hlargestAt, ← haddresses,
      List.sum_toFinset _ hnodup, List.map_map]
    rfl
  · rw [Report.sum_crates_symbolCount, ← haddresses, List.toFinset_card_of_nodup hnodup,
      List.length_map]

/-- An analysis only depends on the entries of the section, and not on their order. -/
theorem ofTable_congr {table : SymbolTable} {entries : List RawSymbol} (context : BuildContext)
    (options : Options)
    (h : (entries.filter fun e => e.sectionName = table.sectionName).Perm table.inside) :
    ofTable { table with entries } context options = ofTable table context options := by
  have hname : ∀ e ∈ entries.filter fun e => e.sectionName = table.sectionName,
      e.sectionName = table.sectionName := fun e he => of_decide_eq_true (List.mem_filter.1 he).2
  have hkept : sectionSymbols { table with entries } = sectionSymbols table :=
    deduplicate_congr hname fun e => h.mem_iff
  rw [ofTable, ofTable, hkept]

/-- **Conservation.** Whatever a table lists, a report of it accounts for it. And the outcome, be it
a report or an error, stays the same when the entries are put into another order, and when entries
of other sections are added or taken away. -/
theorem ofTable_conserves (table : SymbolTable) (context : BuildContext) (options : Options) :
    (∀ report, ofTable table context options = .ok report → Accounts table report)
      ∧ ∀ entries : List RawSymbol,
        (entries.filter fun e => e.sectionName = table.sectionName).Perm table.inside →
        ofTable { table with entries } context options = ofTable table context options :=
  ⟨fun _ h => accounts_of_ok h, fun _ h => ofTable_congr context options h⟩

/-- A table with two names for an address, a name that is listed twice, and another section. -/
def sampleTable : SymbolTable where
  formatName := "elf64"
  sectionName := ".text"
  sectionSize := 64
  fileSize := 4096
  entries := [⟨16, 8, ".text", "main"⟩, ⟨0, 0, ".text", "_ZN4core3fmtE"⟩, ⟨0, 12, ".data", "main"⟩,
    ⟨0, 16, ".text", "main"⟩]

/-- The context of a build that records nothing. -/
def sampleContext : BuildContext := ⟨.text "x86_64-unknown-linux-gnu", [], [], [], [], _, rfl⟩

/-- The report of the sample table accounts for 24 bytes, also if the table is turned around and the
other section is left out. -/
theorem sampleTable_conserved : ∃ report, ofTable sampleTable sampleContext {} = .ok report
    ∧ report.symbolsSize = 24 ∧ (report.crates.map CrateSize.symbolCount).sum = 2
    ∧ ofTable { sampleTable with entries := sampleTable.inside.reverse } sampleContext {}
      = .ok report := by
  have hok : (ofTable sampleTable sampleContext {}).toOption.map Report.fileSize = some 4096 := by
    cbv
  obtain ⟨report, hreport, -⟩ := exists_eq_ok_of_toOption hok
  obtain ⟨haccounts, hcongr⟩ := ofTable_conserves sampleTable sampleContext {}
  have hentries : (sampleTable.inside.reverse.filter fun e =>
      e.sectionName = sampleTable.sectionName).Perm sampleTable.inside := by decide +kernel
  have h := haccounts report hreport
  refine ⟨report, hreport, ?_, ?_, (hcongr _ hentries).trans hreport⟩
  · rw [h.symbolsSize]
    decide +kernel
  · rw [h.symbolCounts]
    decide +kernel

end Analysis

end CrateLedger
