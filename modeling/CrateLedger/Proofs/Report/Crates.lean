import CrateLedger.Proofs.Report

/-!
# The table of crates

A report groups its symbols by crate: one row for each crate that occurs, with what its symbols add
up to and how many they are, the larger rows first and those of one size by name. These rules leave
no choice. So the table is the same in whatever order the symbols come, and it is also what comes of
going through them once, with a row for each crate that is kept up to date.
-/

namespace CrateLedger

namespace CrateSize

/-- Whether a row stands in front of another. -/
def Precedes (a b : CrateSize) : Prop :=
  b.size < a.size ∨ a.size = b.size ∧ ∃ s t : Text, a.name = .text s ∧ b.name = .text t ∧ s < t

theorem Precedes.asymm {a b : CrateSize} (hab : a.Precedes b) : ¬ b.Precedes a := by
  intro hba
  rcases hab with hlt | ⟨hsize, s, t, hs, ht, hst⟩
  · rcases hba with hgt | ⟨heq, -⟩ <;> omega
  · rcases hba with hgt | ⟨-, t', s', ht', hs', hts⟩
    · omega
    · rw [hs, Scalar.text.injEq] at hs'
      rw [ht, Scalar.text.injEq] at ht'
      subst hs' ht'
      exact lt_asymm hst hts

instance : Std.Asymm Precedes := ⟨fun _ _ => Precedes.asymm⟩

/-- A row with one more symbol. -/
def add (row : CrateSize) (s : Symbol) : CrateSize :=
  ⟨row.name, row.size + s.size, row.symbolCount + 1⟩

end CrateSize

namespace Report

/-! ## Groupings and tables -/

/-- The row of a crate: the bytes of its symbols, and how many they are. -/
def rowOf (symbols : List Symbol) (crate : Scalar) : CrateSize where
  name := crate
  size := totalSize (symbols.filter fun s => s.crate = crate)
  symbolCount := (symbols.filter fun s => s.crate = crate).length

/-- Rows group symbols by crate. -/
structure IsGrouping (symbols : List Symbol) (rows : List CrateSize) : Prop where
  /-- No crate has two rows. -/
  nodup : (rows.map CrateSize.name).Nodup
  /-- The crates that have one are those that occur. -/
  names : ∀ name, name ∈ rows.map CrateSize.name ↔ ∃ s ∈ symbols, s.crate = name
  eq_rowOf : ∀ row ∈ rows, row = rowOf symbols row.name

/-- A grouping whose rows strictly ascend. -/
structure IsTable (symbols : List Symbol) (rows : List CrateSize) : Prop
    extends IsGrouping symbols rows where
  ascending : rows.Pairwise CrateSize.Precedes

variable {symbols symbols' : List Symbol} {rows rows' : List CrateSize}

/-- The symbols alone say which rows there are. -/
theorem IsGrouping.mem_iff (h : IsGrouping symbols rows) {row : CrateSize} :
    row ∈ rows ↔ (∃ s ∈ symbols, s.crate = row.name) ∧ row = rowOf symbols row.name := by
  constructor
  · intro hrow
    exact ⟨(h.names row.name).1 (List.mem_map_of_mem hrow), h.eq_rowOf row hrow⟩
  · rintro ⟨hname, hrow⟩
    obtain ⟨other, hother, hsame⟩ := List.mem_map.1 ((h.names row.name).2 hname)
    rw [hrow, ← hsame, ← h.eq_rowOf other hother]
    exact hother

/-- There is only one table. -/
theorem IsTable.unique (h : IsTable symbols rows) (h' : IsTable symbols rows') : rows = rows' := by
  apply h.ascending.eq_of_mem_iff h'.ascending
  intro row
  rw [h.mem_iff, h'.mem_iff]

theorem rowOf_perm (hperm : symbols.Perm symbols') (crate : Scalar) :
    rowOf symbols crate = rowOf symbols' crate := by
  have hfilter : (symbols.filter fun s => s.crate = crate).Perm
      (symbols'.filter fun s => s.crate = crate) := hperm.filter _
  rw [rowOf, rowOf, totalSize_eq_sum, totalSize_eq_sum, (hfilter.map Symbol.size).sum_eq,
    hfilter.length_eq]

/-- In which order the symbols come does not show in a table. -/
theorem IsTable.of_perm (h : IsTable symbols rows) (hperm : symbols.Perm symbols') :
    IsTable symbols' rows := by
  refine ⟨⟨h.nodup, fun name => ?_, fun row hrow => ?_⟩, h.ascending⟩
  · rw [h.names name]
    simp only [hperm.mem_iff]
  · rw [← rowOf_perm hperm]
    exact h.eq_rowOf row hrow

/-! ## Putting rows in order -/

theorem crateBefore_iff {a b : CrateSize} {s t : Text} (hs : a.name = .text s)
    (ht : b.name = .text t) :
    crateBefore a b = true ↔ b.size < a.size ∨ a.size = b.size ∧ s ≤ t := by
  simp [crateBefore, hs, ht, Scalar.le_text]

/-- Rows that are named by texts have an order. -/
theorem pairwise_mergeSort_crateBefore (htexts : ∀ row ∈ rows, ∃ t, row.name = .text t) :
    (rows.mergeSort crateBefore).Pairwise fun a b => crateBefore a b := by
  apply pairwise_mergeSort_of_forall htexts
  · rintro a b c ⟨s, hs⟩ ⟨t, ht⟩ ⟨u, hu⟩ hab hbc
    rw [crateBefore_iff hs ht] at hab
    rw [crateBefore_iff ht hu] at hbc
    rw [crateBefore_iff hs hu]
    rcases hab with hab | ⟨hab, hst⟩
    · left
      omega
    · rcases hbc with hbc | ⟨hbc, htu⟩
      · left
        omega
      · right
        exact ⟨hab.trans hbc, hst.trans htu⟩
  · rintro a b ⟨s, hs⟩ ⟨t, ht⟩
    rw [Bool.or_eq_true, crateBefore_iff hs ht, crateBefore_iff ht hs]
    rcases lt_trichotomy a.size b.size with hlt | heq | hgt
    · exact .inr (.inl hlt)
    · exact (le_total s t).imp (fun hst => .inr ⟨heq, hst⟩) fun hts => .inr ⟨heq.symm, hts⟩
    · exact .inl (.inl hgt)

/-- A grouping that is put in order is a table. -/
theorem IsGrouping.sorted (h : IsGrouping symbols rows)
    (htexts : ∀ s ∈ symbols, ∃ t, s.crate = .text t) :
    IsTable symbols (rows.mergeSort crateBefore) := by
  have hperm : (rows.mergeSort crateBefore).Perm rows := List.mergeSort_perm rows crateBefore
  have hnodup : ((rows.mergeSort crateBefore).map CrateSize.name).Nodup :=
    (hperm.map CrateSize.name).nodup_iff.2 h.nodup
  have hnames : ∀ row ∈ rows, ∃ t, row.name = .text t := by
    intro row hrow
    obtain ⟨s, hs, hcrate⟩ := (h.names row.name).1 (List.mem_map_of_mem hrow)
    rw [← hcrate]
    exact htexts s hs
  refine ⟨⟨hnodup, fun name => ?_, fun row hrow => h.eq_rowOf row (hperm.mem_iff.1 hrow)⟩, ?_⟩
  · rw [(hperm.map CrateSize.name).mem_iff]
    exact h.names name
  · -- No two rows have the same name, so those of one size are strictly in order.
    refine ((pairwise_mergeSort_crateBefore hnames).and (List.pairwise_map.1 hnodup)).imp_of_mem ?_
    rintro a b ha hb ⟨hbefore, hne⟩
    obtain ⟨s, hs⟩ := hnames a (hperm.mem_iff.1 ha)
    obtain ⟨t, ht⟩ := hnames b (hperm.mem_iff.1 hb)
    rcases (crateBefore_iff hs ht).1 hbefore with hlt | ⟨heq, hle⟩
    · exact .inl hlt
    · refine .inr ⟨heq, s, t, hs, ht, lt_of_le_of_ne hle ?_⟩
      rintro rfl
      exact hne (hs.trans ht.symm)

/-! ## The crates of a report -/

/-- A crate that is named by a text has the symbols that name it. -/
theorem symbolsOf_text (r : Report) (t : Text) :
    r.symbolsOf (.text t) = r.symbols.filter fun s => s.crate = .text t := by
  apply List.filter_congr
  intro s _
  rw [Bool.eq_iff_iff, decide_eq_true_iff]
  exact Scalar.same_text_iff

/-- The crates of a report are the table of its symbols. -/
theorem isTable_crates {r : Report} (htexts : ∀ s ∈ r.symbols, ∃ t, s.crate = .text t) :
    IsTable r.symbols r.crates := by
  refine IsGrouping.sorted ?_ htexts
  have hself : (r.crateNames.map fun c =>
      (⟨c, totalSize (r.symbolsOf c), (r.symbolsOf c).length⟩ : CrateSize)).map CrateSize.name
        = r.crateNames := by
    rw [List.map_map]
    exact List.map_id _
  refine ⟨?_, fun name => ?_, fun row hrow => ?_⟩
  · rw [hself]
    refine (pairwise_crateNames r).imp ?_
    rintro a _ hab rfl
    rw [Scalar.same_refl] at hab
    cases hab
  · rw [hself]
    constructor
    · intro hname
      exact List.mem_map.1 (Scalar.distinct_subset _ hname)
    · rintro ⟨s, hs, rfl⟩
      obtain ⟨t, ht⟩ := htexts s hs
      rw [ht]
      refine Scalar.text_mem_distinct_iff.2 ?_
      rw [← ht]
      exact List.mem_map_of_mem hs
  · obtain ⟨c, hc, rfl⟩ := List.mem_map.1 hrow
    obtain ⟨s, hs, rfl⟩ := List.mem_map.1 (Scalar.distinct_subset _ hc)
    obtain ⟨t, ht⟩ := htexts s hs
    rw [ht, symbolsOf_text]
    rfl

/-- The size of a crate is that of its symbols, so zero if it has none. -/
theorem crateSize_eq (r : Report) (crate : Scalar) :
    r.crateSize crate = totalSize (r.symbolsOf crate) := by
  show ((r.row? crate).map CrateSize.size).getD 0 = _
  rw [row?_eq]
  cases r.symbolsOf crate <;> rfl

/-! ## In one pass -/

/-- Enters a symbol into rows. Its crate gets an empty row first if it has none yet. -/
def enter (rows : List CrateSize) (s : Symbol) : List CrateSize :=
  (if s.crate ∈ rows.map CrateSize.name then rows else rows ++ [⟨s.crate, 0, 0⟩]).map fun row =>
    if row.name = s.crate then row.add s else row

theorem rowOf_concat (seen : List Symbol) (s : Symbol) (crate : Scalar) :
    rowOf (seen ++ [s]) crate
      = if crate = s.crate then (rowOf seen crate).add s else rowOf seen crate := by
  by_cases hcrate : s.crate = crate
  · rw [if_pos hcrate.symm]
    simp [rowOf, CrateSize.add, totalSize_eq_sum, List.filter_append, hcrate]
  · rw [if_neg (Ne.symm hcrate)]
    simp [rowOf, List.filter_append, hcrate]

theorem names_enter (rows : List CrateSize) (s : Symbol) :
    (enter rows s).map CrateSize.name
      = if s.crate ∈ rows.map CrateSize.name then rows.map CrateSize.name
        else rows.map CrateSize.name ++ [s.crate] := by
  have hkeeps : ∀ row : CrateSize,
      (if row.name = s.crate then row.add s else row).name = row.name := by
    intro row
    split_ifs <;> rfl
  unfold enter
  rw [List.map_map]
  simp only [Function.comp_def, hkeeps]
  split_ifs
  · rfl
  · rw [List.map_append]
    rfl

/-- Entering the next symbol makes the grouping of the symbols seen so far that of these and the
next one. -/
theorem IsGrouping.enter {seen : List Symbol} (h : IsGrouping seen rows) (s : Symbol) :
    IsGrouping (seen ++ [s]) (Report.enter rows s) := by
  refine ⟨?_, fun name => ?_, fun row hrow => ?_⟩
  · rw [names_enter]
    split_ifs with hknown
    · exact h.nodup
    · exact List.nodup_append_comm.1 (List.nodup_cons.2 ⟨hknown, h.nodup⟩)
  · have hoccurs : (∃ t ∈ seen ++ [s], t.crate = name)
        ↔ name ∈ rows.map CrateSize.name ∨ s.crate = name := by
      rw [h.names name]
      simp only [List.mem_append, List.mem_singleton, or_and_right, exists_or, exists_eq_left]
    rw [names_enter, hoccurs]
    split_ifs with hknown
    · constructor
      · exact .inl
      · rintro (hname | rfl)
        · exact hname
        · exact hknown
    · rw [List.mem_append, List.mem_singleton, eq_comm (a := name)]
  · obtain ⟨old, hold, rfl⟩ := List.mem_map.1 hrow
    -- An empty row that has been added is right for the symbols seen so far.
    have hseen : old = rowOf seen old.name := by
      split_ifs at hold with hknown
      · exact h.eq_rowOf old hold
      · rcases List.mem_append.1 hold with hold | hold
        · exact h.eq_rowOf old hold
        · have hnone : (seen.filter fun t => t.crate = s.crate) = [] := by
            rw [List.filter_eq_nil_iff]
            intro t ht hcrate
            exact hknown ((h.names s.crate).2 ⟨t, ht, of_decide_eq_true hcrate⟩)
          rw [List.mem_singleton.1 hold, rowOf, hnone]
          rfl
    split_ifs with hname
    · show old.add s = rowOf (seen ++ [s]) old.name
      rw [rowOf_concat, if_pos hname, ← hseen]
    · rw [rowOf_concat, if_neg hname]
      exact hseen

/-- Going through symbols groups them. -/
theorem IsGrouping.foldl_enter {seen : List Symbol} (h : IsGrouping seen rows)
    (symbols : List Symbol) : IsGrouping (seen ++ symbols) (symbols.foldl Report.enter rows) := by
  induction symbols generalizing seen rows with
  | nil =>
    rw [List.append_nil]
    exact h
  | cons s symbols ih =>
    have hrest := ih (h.enter s)
    rwa [List.append_assoc] at hrest

/-- The crates of a report are what one pass over its symbols gives, put in order. -/
theorem crates_eq_pass {r : Report} (htexts : ∀ s ∈ r.symbols, ∃ t, s.crate = .text t) :
    r.crates = (r.symbols.foldl enter []).mergeSort crateBefore := by
  have hnone : IsGrouping [] [] := ⟨List.nodup_nil, by simp, List.forall_mem_nil _⟩
  have hpass : IsGrouping r.symbols (r.symbols.foldl enter []) := hnone.foldl_enter r.symbols
  exact (isTable_crates htexts).unique (hpass.sorted htexts)

/-- **Grouping by crate.** The symbols of a report, in the order in which they are given, can always
be grouped if their crates are named by texts. The crates are the one table of the symbols, also if
these come in another order, and one pass over the symbols is enough to make it. Looking up the size
of a crate adds up its symbols, and nothing is lost or counted twice. -/
theorem crates_group {r : Report} (htexts : ∀ s ∈ r.symbols, ∃ t, s.crate = .text t) :
    r.ranked = .ok r
      ∧ IsTable r.symbols r.crates
      ∧ r.crates = (r.symbols.foldl enter []).mergeSort crateBefore
      ∧ (∀ crate, r.crateSize crate = totalSize (r.symbolsOf crate))
      ∧ (r.crates.map CrateSize.size).sum = r.symbolsSize
      ∧ (r.crates.map CrateSize.symbolCount).sum = r.symbols.length
      ∧ ∀ reordered : Report, reordered.symbols.Perm r.symbols →
        reordered.ranked = .ok reordered ∧ reordered.crates = r.crates := by
  refine ⟨ranked_eq_ok htexts, isTable_crates htexts, crates_eq_pass htexts, crateSize_eq r,
    sum_crates_size r, sum_crates_symbolCount r, fun reordered hperm => ?_⟩
  have htextsReordered : ∀ s ∈ reordered.symbols, ∃ t, s.crate = .text t := by
    intro s hs
    exact htexts s (hperm.mem_iff.1 hs)
  have htable := (isTable_crates htextsReordered).of_perm hperm
  exact ⟨ranked_eq_ok htextsReordered, htable.unique (isTable_crates htexts)⟩

/-- Two crates without bytes, one of which has symbols that cancel out, and one with fewer than
none. -/
def unevenReport : Report where
  fileSize := 4096
  sectionSize := 32
  sectionName := .text ".text"
  formatName := .text "elf64"
  splitStd := .bool false
  symbols := [⟨.text "a", .text "a", -4, 0, .text "std", false⟩,
    ⟨.text "b", .text "b", 6, 4, .text "app", true⟩,
    ⟨.text "c", .text "c", 0, 8, .text "alloc", false⟩,
    ⟨.text "d", .text "d", -6, 8, .text "app", true⟩]

theorem unevenReport_grouped :
    unevenReport.ranked = .ok unevenReport
      ∧ unevenReport.crates
        = [⟨.text "alloc", 0, 1⟩, ⟨.text "app", 0, 2⟩, ⟨.text "std", -4, 1⟩]
      ∧ { unevenReport with symbols := unevenReport.symbols.reverse }.crates
        = [⟨.text "alloc", 0, 1⟩, ⟨.text "app", 0, 2⟩, ⟨.text "std", -4, 1⟩]
      ∧ unevenReport.crateSize (.text "std") = -4
      ∧ unevenReport.crateSize (.text "core") = 0 := by
  have htexts : ∀ s ∈ unevenReport.symbols, ∃ t, s.crate = .text t := by
    simp [unevenReport]
  obtain ⟨hranked, -, hpass, hsize, -, -, hperm⟩ := crates_group htexts
  have hcrates : unevenReport.crates
      = [⟨.text "alloc", 0, 1⟩, ⟨.text "app", 0, 2⟩, ⟨.text "std", -4, 1⟩] := by
    rw [hpass]
    cbv
  have hreversed : { unevenReport with symbols := unevenReport.symbols.reverse }.crates
      = unevenReport.crates := (hperm _ (List.reverse_perm _)).2
  refine ⟨hranked, hcrates, hreversed.trans hcrates, ?_, ?_⟩
  · rw [hsize]
    decide +kernel
  · rw [hsize]
    decide +kernel

end Report

end CrateLedger
