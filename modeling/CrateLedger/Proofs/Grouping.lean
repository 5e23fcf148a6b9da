import Mathlib
import CrateLedger.Proofs.Analysis
import CrateLedger.Proofs.Build.Context

/-!
# Grouping the standard library

An analysis either keeps the crates of the standard library apart or puts them under one label.
Grouping is nothing but a change of labels at the very end: both analyses fail with the same error
or give the same symbols, where one that belongs to a crate of the standard library has the label of
the group. A crate that the project depends on is no such crate, wherever else it is listed.

What the rows of crates become follows from it: that of the group takes up those of the standard
library, and all others stay.
-/

namespace CrateLedger

namespace Options

/-- Options that keep the crates of the standard library apart. -/
def apart (options : Options) : Options := { options with splitStd := .bool true }

/-- Options that put them under one label. -/
def grouped (options : Options) : Options := { options with splitStd := .bool false }

theorem keepsStdApart_apart (options : Options) : options.apart.keepsStdApart = true := rfl

theorem keepsStdApart_grouped (options : Options) : options.grouped.keepsStdApart = false := rfl

end Options

/-! ## Labels -/

namespace Attribution

variable {context : BuildContext} {options : Options}

/-- The label of a crate when the standard library is grouped. -/
def grouped (context : BuildContext) (crate : Scalar) : Scalar :=
  if context.isStd crate then stdGroup else crate

theorem label_apart (crate : Scalar) : label context options.apart crate = crate := by
  unfold label
  simp [Options.keepsStdApart_apart]

theorem label_grouped (crate : Scalar) :
    label context options.grouped crate = grouped context crate := by
  unfold label grouped
  simp [Options.keepsStdApart_grouped]

/-- Grouping changes the label of an attribution and nothing else. -/
theorem ofName_grouped (hunknown : context.isStd unknownCrate = false) (name : Text) :
    ofName context options.grouped name
      = (ofName context options.apart name).map fun a =>
        { a with crate := grouped context a.crate } := by
  have hkept : grouped context unknownCrate = unknownCrate := by
    unfold grouped
    simp [hunknown]
  unfold ofName
  by_cases hname : name.isEmpty
  · rw [if_pos hname, if_pos hname]
    simp [Except.map, hkept]
  · rw [if_neg hname, if_neg hname]
    -- Both kinds of attribution, by record and by name, put the label in the end.
    cases context.owners name with
    | cons first others =>
      cases hchoose : choose name first others with
      | error e => simp [bind, Except.bind, Except.map, hchoose]
      | ok crate =>
        simp [bind, Except.bind, pure, Except.pure, Except.map, hchoose, label_apart, label_grouped]
    | nil =>
      cases Mangled.Name.decode name with
      | error e => simp [bind, Except.bind, Except.map]
      | ok decoded =>
        simp only [bind, Except.bind, pure, Except.pure]
        split <;> simp [Except.map, hkept, label_apart, label_grouped]

/-- The owners of a symbol are among the crates that contribute symbols. -/
theorem exists_symbols_of_mem_owners {name : Text} {crate : Scalar}
    (h : crate ∈ context.owners name) : ∃ s ∈ context.symbols, s.1 = crate := by
  obtain ⟨number, -, hnumber⟩ := List.mem_filterMap.1 h
  have hcrate : crate ∈ context.ownership.crates := List.mem_of_getElem? hnumber
  rw [context.ownership_eq] at hcrate
  obtain ⟨s, hs, rfl⟩ := List.mem_map.1 hcrate
  exact ⟨s, List.mem_mergeSort.1 hs, rfl⟩

theorem choose_eq_ok {name : Text} {first crate : Scalar} {others : List Scalar}
    (h : choose name first others = .ok crate) : crate = first ∨ ∃ t, crate = .text t := by
  unfold choose at h
  split at h
  · cases h
    exact .inl rfl
  · obtain ⟨decoded, -, h⟩ := bind_eq_ok.1 h
    split at h
    · rename_i t _
      split_ifs at h
      · cases h
        exact .inr ⟨t, rfl⟩
      · cases h
        exact .inl rfl
    · cases h
      exact .inl rfl

/-- Labels are texts wherever the crates that contribute symbols are named by texts. -/
theorem ofName_text (htexts : ∀ s ∈ context.symbols, ∃ t, s.1 = Scalar.text t) {name : Text}
    {a : Attribution} (h : ofName context options name = .ok a) : ∃ t, a.crate = .text t := by
  have hlabel : ∀ {crate : Scalar}, (∃ t, crate = .text t) →
      ∃ t, label context options crate = .text t := by
    intro crate hcrate
    unfold label
    split
    · exact ⟨"std", rfl⟩
    · exact hcrate
  unfold ofName at h
  split at h
  · cases h
    exact ⟨"[Unknown]", rfl⟩
  · split at h
    · rename_i first others howners
      obtain ⟨crate, hchoose, h⟩ := bind_eq_ok.1 h
      cases h
      refine hlabel ?_
      rcases choose_eq_ok hchoose with rfl | htext
      · have hmem : crate ∈ context.owners name := by
          rw [howners]
          exact List.mem_cons_self
        obtain ⟨s, hs, rfl⟩ := exists_symbols_of_mem_owners hmem
        exact htexts s hs
      · exact htext
    · obtain ⟨decoded, -, h⟩ := bind_eq_ok.1 h
      split at h
      · cases h
        exact ⟨"[Unknown]", rfl⟩
      · cases h
        exact ⟨"[Unknown]", rfl⟩
      · rename_i crate _ _
        cases h
        exact hlabel ⟨crate, rfl⟩

end Attribution

/-! ## Symbols -/

/-- A symbol with the label that it gets when the standard library is grouped. -/
def Symbol.grouped (context : BuildContext) (s : Symbol) : Symbol :=
  { s with crate := Attribution.grouped context s.crate }

namespace Analysis

open Attribution

variable {context : BuildContext} {options : Options}

theorem attributedSymbols_grouped (hunknown : context.isStd unknownCrate = false)
    (entries : List RawSymbol) :
    attributedSymbols context options.grouped entries
      = (attributedSymbols context options.apart entries).map
        (List.map (Symbol.grouped context)) := by
  unfold attributedSymbols ofNames
  rw [mapM_eq_map_mapM (ofName_grouped hunknown)]
  cases (entries.map RawSymbol.name).mapM (ofName context options.apart) with
  | error e => rfl
  | ok attributions =>
    simp only [bind, Except.bind, Except.map]
    rw [List.zip_map_right, List.mapM_map]
    refine mapM_eq_map_mapM ?_ _
    rintro ⟨e, a⟩
    cases hshown : shownName e.name with
    | error e => simp [hshown, Except.map]
    | ok shown => simp [hshown, Except.map, pure, Except.pure, Symbol.grouped]

theorem attributedSymbols_text (htexts : ∀ s ∈ context.symbols, ∃ t, s.1 = Scalar.text t)
    {entries : List RawSymbol} {symbols : List Symbol}
    (h : attributedSymbols context options entries = .ok symbols) :
    ∀ s ∈ symbols, ∃ t, s.crate = .text t := by
  obtain ⟨attributions, hattributions, h⟩ := bind_eq_ok.1 h
  have hlabels : ∀ a ∈ attributions, ∃ t, a.crate = .text t :=
    forall_of_mapM_eq_ok hattributions fun name _ a ha => ofName_text htexts ha
  refine forall_of_mapM_eq_ok h ?_
  rintro ⟨e, a⟩ hmem s hs
  obtain ⟨shown, -, hs⟩ := bind_eq_ok.1 hs
  cases hs
  exact hlabels a (List.of_mem_zip hmem).2

/-! ## Reports -/

/-- A report with the standard library grouped is the one with it kept apart, with other labels, and
there is none for the same reason. -/
theorem ofTable_grouped (htexts : ∀ s ∈ context.symbols, ∃ t, s.1 = Scalar.text t)
    (hunknown : context.isStd unknownCrate = false) (table : SymbolTable) :
    ofTable table context options.grouped
      = (ofTable table context options.apart).map fun r =>
        { r with splitStd := .bool false, symbols := r.symbols.map (Symbol.grouped context) } := by
  unfold ofTable
  cases context.validate with
  | error e => rfl
  | ok valid =>
    have hrelabelled : attributedSymbols context options.grouped (sectionSymbols table)
        = (attributedSymbols context options.apart (sectionSymbols table)).map
          (List.map (Symbol.grouped context)) :=
      attributedSymbols_grouped hunknown (sectionSymbols table)
    cases hsymbols : attributedSymbols context options.apart (sectionSymbols table) with
    | error e =>
      rw [hsymbols] at hrelabelled
      simp only [hrelabelled, Except.map]
    | ok symbols =>
      rw [hsymbols] at hrelabelled
      simp only [hrelabelled, Except.map]
      -- Labels are texts in both analyses, so ranking compares them and fails in neither.
      rw [Report.ranked_eq_ok (attributedSymbols_text htexts hrelabelled),
        Report.ranked_eq_ok (attributedSymbols_text htexts hsymbols)]
      rfl

/-! ## Rows -/

/-- The labels that become that of another crate are those of the crate, unless they are grouped. -/
theorem grouped_same_of_ne {k : Scalar} (hk : k.same stdGroup = false) (label : Scalar) :
    (Attribution.grouped context label).same k = (label.same k && !context.isStd k) := by
  unfold Attribution.grouped
  cases hsame : label.same k with
  | true =>
    rw [BuildContext.isStd_congr hsame, Bool.true_and]
    cases context.isStd k with
    | true => rw [if_pos rfl, Scalar.same_comm, hk, Bool.not_true]
    | false => rw [if_neg Bool.false_ne_true, hsame, Bool.not_false]
  | false =>
    rw [Bool.false_and]
    split_ifs
    · rw [Scalar.same_comm, hk]
    · exact hsame

/-- The labels that become that of the group are its own and those of the standard library. -/
theorem grouped_same_stdGroup (label : Scalar) :
    (Attribution.grouped context label).same stdGroup
      = (label.same stdGroup || context.isStd label) := by
  unfold Attribution.grouped
  by_cases hstd : context.isStd label = true
  · rw [if_pos hstd, hstd, Bool.or_true, Scalar.same_refl]
  · rw [if_neg hstd, Bool.eq_false_iff.2 hstd, Bool.or_false]

theorem totalSize_grouped (symbols : List Symbol) :
    Report.totalSize (symbols.map (Symbol.grouped context)) = Report.totalSize symbols := by
  unfold Report.totalSize
  rw [List.map_map]
  rfl

section Rows

variable {apart grouped : Report}
  (hsymbols : grouped.symbols = apart.symbols.map (Symbol.grouped context))

include hsymbols

/-- The symbols of a crate after grouping are those whose label becomes that of the crate. -/
theorem symbolsOf_grouped (k : Scalar) :
    grouped.symbolsOf k = (apart.symbols.filter fun s =>
      (Attribution.grouped context s.crate).same k).map (Symbol.grouped context) := by
  unfold Report.symbolsOf
  rw [hsymbols, List.filter_map]
  rfl

/-- A crate that is neither part of the standard library nor the group keeps its row. -/
theorem row?_grouped_of_other {k : Scalar} (hk : k.same stdGroup = false)
    (hother : context.isStd k = false) : grouped.row? k = apart.row? k := by
  have hequal : grouped.symbolsOf k = apart.symbolsOf k := by
    rw [symbolsOf_grouped hsymbols]
    simp only [grouped_same_of_ne hk, hother, Bool.not_false, Bool.and_true]
    refine (List.map_congr_left fun s hs => ?_).trans (List.map_id _)
    have hsame : s.crate.same k = true := (List.mem_filter.1 hs).2
    have hstd : context.isStd s.crate = false := by rw [BuildContext.isStd_congr hsame, hother]
    simp [Symbol.grouped, Attribution.grouped, hstd]
  rw [Report.row?_eq, Report.row?_eq, hequal]

/-- A crate of the standard library has no row of its own any more. -/
theorem row?_grouped_of_std {k : Scalar} (hk : k.same stdGroup = false)
    (hstd : context.isStd k = true) : grouped.row? k = none := by
  rw [Report.row?_eq, symbolsOf_grouped hsymbols]
  simp [grouped_same_of_ne hk, hstd]

/-- The row of the group takes up the rows of the standard library and the one of its own name. -/
theorem row?_stdGroup :
    let rows := apart.crates.filter fun c => c.name.same stdGroup || context.isStd c.name
    grouped.row? stdGroup = if rows.isEmpty then none
      else some ⟨stdGroup, (rows.map CrateSize.size).sum,
        (rows.map CrateSize.symbolCount).sum⟩ := by
  intro rows
  have hcongr : ∀ a b : Scalar, a.same b = true →
      (a.same stdGroup || context.isStd a) = (b.same stdGroup || context.isStd b) := by
    intro a b hab
    rw [BuildContext.isStd_congr hab, Scalar.same_congr hab]
  -- The rows that the group takes up are those of the symbols that it takes up, and so their sums.
  have htotal := Report.sum_selected_size hcongr apart
  have hcount := Report.sum_selected_symbolCount hcongr apart
  have hnone := Report.selected_eq_nil_iff hcongr apart
  rw [Report.row?_eq, symbolsOf_grouped hsymbols]
  simp only [grouped_same_stdGroup]
  cases htakenSymbols : apart.symbols.filter fun s =>
      s.crate.same stdGroup || context.isStd s.crate with
  | nil =>
    rw [htakenSymbols] at hnone
    have hempty : rows.isEmpty = true := List.isEmpty_iff.2 (hnone.2 rfl)
    rw [if_pos hempty]
    rfl
  | cons s rest =>
    rw [htakenSymbols] at hnone htotal hcount
    have hrows : ¬ rows.isEmpty = true := by
      intro hempty
      have hnil := hnone.1 (List.isEmpty_iff.1 hempty)
      cases hnil
    have hname : (s.grouped context).crate = stdGroup := by
      have hs := List.mem_filter.1 (htakenSymbols ▸ List.mem_cons_self : s ∈ _)
      rw [← grouped_same_stdGroup] at hs
      exact Scalar.same_text_iff.1 hs.2
    rw [if_neg hrows, htotal, hcount, totalSize_grouped, List.length_map]
    simp only [List.map_cons, List.head?_cons, Option.map_some, hname]

end Rows

/-- What grouping the standard library makes of a report in which it is kept apart. -/
structure Groups (context : BuildContext) (apart grouped : Report) : Prop where
  /-- The symbols are the same but for their labels, and a label is that of the group if the crate
  is part of the standard library. -/
  symbols : grouped.symbols = apart.symbols.map fun s =>
    { s with crate := if context.isStd s.crate then stdGroup else s.crate }
  /-- The crates that the project depends on are none of them. -/
  dependencies : ∀ s ∈ apart.symbols, s.crate.isIn context.depCrates = true →
    context.isStd s.crate = false
  /-- All other crates keep their rows, -/
  others : ∀ crate : Scalar, crate ≠ stdGroup → context.isStd crate = false →
    grouped.row? crate = apart.row? crate
  /-- those of the standard library lose theirs, -/
  absorbed : ∀ crate : Scalar, crate ≠ stdGroup → context.isStd crate = true →
    grouped.row? crate = none
  /-- and the group, if it has any symbols, has their sizes and counts added to its own. -/
  group :
    let rows := apart.crates.filter fun c => c.name = stdGroup || context.isStd c.name
    grouped.row? stdGroup = if rows.isEmpty then none
      else some ⟨stdGroup, (rows.map CrateSize.size).sum, (rows.map CrateSize.symbolCount).sum⟩

/-- **Grouping is relabelling.** Let the project's crates be named by texts and no crate of the
standard library be called unknown. Then an analysis that groups the standard library fails exactly
like one that keeps it apart, and otherwise differs from it in the labels of the standard library
alone. -/
theorem ofTable_groups {targetTriple : Value} {std deps : List Value}
    {symbols : List (Text × List Value)} {artifacts : List Artifact} {context : BuildContext}
    (hmake : BuildContext.make targetTriple std deps (symbols.map fun s => (.text s.1, s.2))
      artifacts = .ok context)
    (hunknown : context.isStd unknownCrate = false) (table : SymbolTable) (options : Options) :
    (∀ e, ofTable table context options.grouped = .error e ↔
      ofTable table context options.apart = .error e) ∧
    ∀ apart grouped, ofTable table context options.apart = .ok apart →
      ofTable table context options.grouped = .ok grouped → Groups context apart grouped := by
  have hrelabelled : ofTable table context options.grouped
      = (ofTable table context options.apart).map fun r =>
        { r with splitStd := .bool false, symbols := r.symbols.map (Symbol.grouped context) } :=
    ofTable_grouped (BuildContext.exists_text_of_make hmake) hunknown table
  constructor
  · intro e
    rw [hrelabelled]
    cases ofTable table context options.apart <;> simp [Except.map]
  · intro apart grouped happart hgrouped
    rw [hrelabelled, happart] at hgrouped
    cases hgrouped
    have hstd : ∀ crate : Scalar, crate.same stdGroup = decide (crate = stdGroup) := by
      intro crate
      rw [Bool.eq_iff_iff, decide_eq_true_iff]
      exact Scalar.same_text_iff
    constructor
    · rfl
    · intro s _ hdepends
      exact BuildContext.isStd_eq_false_of_depends hmake hdepends
    · intro crate hne hother
      exact row?_grouped_of_other rfl (by rw [hstd, decide_eq_false hne]) hother
    · intro crate hne hpart
      exact row?_grouped_of_std rfl (by rw [hstd, decide_eq_false hne]) hpart
    · simp only [← hstd]
      exact row?_stdGroup rfl

/-- The crates that a build lists under the standard library; it depends on the last one. -/
def sampleStd : List Value := [.text "core", .text "alloc", .text "serde"]

def sampleSymbols : List (Text × List Value) :=
  [("core", [.text "_ZN4core3fmtE"]), ("serde", [.text "_ZN5serde2deE"])]

/-- The context of that build. -/
def sampleDependent : BuildContext :=
  ⟨.text "x86_64-unknown-linux-gnu", [.text "core", .text "alloc"], [.text "serde"],
    [(.text "core", [.text "_ZN4core3fmtE"]), (.text "serde", [.text "_ZN5serde2deE"])], [], _, rfl⟩

/-- A table with symbols of the dependency, of two crates of the standard library, and of a crate
that has the name of the group. -/
def sampleStdTable : SymbolTable :=
  { sampleTable with
    entries := [⟨0, 8, ".text", "_ZN4core3fmtE"⟩, ⟨8, 4, ".text", "_ZN5alloc3vecE"⟩,
      ⟨16, 2, ".text", "_ZN5serde2deE"⟩, ⟨24, 1, ".text", "_ZN3std2ioE"⟩] }

theorem sampleStdTable_groups :
    BuildContext.make (.text "x86_64-unknown-linux-gnu") sampleStd [.text "serde"]
      (sampleSymbols.map fun s => (.text s.1, s.2)) [] = .ok sampleDependent ∧
    sampleDependent.validate = .ok () ∧ sampleDependent.isStd unknownCrate = false ∧
    ∃ apart grouped,
      ofTable sampleStdTable sampleDependent ({} : Options).apart = .ok apart ∧
      ofTable sampleStdTable sampleDependent ({} : Options).grouped = .ok grouped ∧
      apart.row? stdGroup = some ⟨stdGroup, 1, 1⟩ ∧
      grouped.row? stdGroup = some ⟨stdGroup, 13, 3⟩ ∧
      grouped.row? (.text "serde") = some ⟨.text "serde", 2, 1⟩ ∧
      grouped.row? (.text "core") = none := by
  have hmake : BuildContext.make (.text "x86_64-unknown-linux-gnu") sampleStd [.text "serde"]
      (sampleSymbols.map fun s => (.text s.1, s.2)) [] = .ok sampleDependent := rfl
  have hvalid : sampleDependent.validate = .ok () := by
    have hok : sampleDependent.validate.toOption.map id = some () := by decide +kernel
    obtain ⟨⟨⟩, hvalidate, -⟩ := exists_eq_ok_of_toOption hok
    exact hvalidate
  have hunknown : sampleDependent.isStd unknownCrate = false := by decide +kernel
  obtain ⟨herrors, hgroups⟩ := ofTable_groups hmake hunknown sampleStdTable {}
  have hrows : (ofTable sampleStdTable sampleDependent ({} : Options).apart).toOption.map
      Report.crates = some [⟨.text "core", 8, 1⟩, ⟨.text "alloc", 4, 1⟩, ⟨.text "serde", 2, 1⟩,
        ⟨stdGroup, 1, 1⟩] := by
    cbv
  obtain ⟨apart, happart, hcrates⟩ := exists_eq_ok_of_toOption hrows
  cases hgrouped : ofTable sampleStdTable sampleDependent ({} : Options).grouped with
  | error e =>
    rw [(herrors e).1 hgrouped] at happart
    cases happart
  | ok grouped =>
    have h := hgroups apart grouped happart hgrouped
    have hgroup := h.group
    have hserde := h.others (.text "serde") (by decide) (by decide +kernel)
    rw [hcrates] at hgroup
    rw [Report.row?, Report.row?, hcrates] at hserde
    refine ⟨hmake, hvalid, hunknown, apart, grouped, happart, rfl, ?_, ?_, ?_, ?_⟩
    · rw [Report.row?, hcrates]
      decide +kernel
    · rw [hgroup]
      decide +kernel
    · rw [Report.row?, hserde]
      decide +kernel
    · exact h.absorbed (.text "core") (by decide) (by decide +kernel)

end Analysis

end CrateLedger
