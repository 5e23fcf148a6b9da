import CrateLedger.Proofs.Comparison

/-!
# Comparing in the other direction

A comparison can be turned around. Nothing else happens when the two reports change places: the same
names and crates have rows, in the same order, with their sizes exchanged. What was added is then
removed and what grew shrinks, so a symbol cannot be among those that grew the most both ways, and
it is among neither if it accounts for as many bytes as before.
-/

namespace CrateLedger

/-! ## One row -/

/-- What a status is called in the other direction. -/
def Status.mirrored : Status → Status
  | added => removed
  | removed => added
  | grown => shrunk
  | shrunk => grown
  | unchanged => unchanged

theorem Status.mirrored_eq_unchanged_iff {s : Status} :
    s.mirrored = .unchanged ↔ s = .unchanged := by
  cases s <;> simp [mirrored]

namespace Change

/-- A change in the other direction. -/
def reversed (c : Change) : Change := ⟨c.after, c.before⟩

theorem net_reversed (c : Change) : c.reversed.net = -c.net := (Int.neg_sub _ _).symm

theorem absolute?_reversed (c : Change) : c.reversed.absolute? = c.absolute?.map Neg.neg := by
  obtain ⟨_ | b, _ | a⟩ := c
  · rfl
  · rfl
  · rfl
  · show some (b - a) = some (-(a - b))
    rw [Int.neg_sub]

/-- A status is mirrored, unless there is no size on either side. -/
theorem status_reversed {c : Change} (h : c ≠ ⟨none, none⟩) :
    c.reversed.status = c.status.mirrored := by
  obtain ⟨_ | b, _ | a⟩ := c
  · exact absurd rfl h
  · rfl
  · rfl
  · show (if a < b then Status.grown else if b < a then .shrunk else .unchanged)
      = (if b < a then Status.grown else if a < b then .shrunk else .unchanged).mirrored
    rcases lt_trichotomy a b with hlt | rfl | hgt
    · rw [if_pos hlt, if_neg (by omega), if_pos hlt]
      rfl
    · rw [if_neg (lt_irrefl a), if_neg (lt_irrefl a)]
      rfl
    · rw [if_neg (by omega), if_pos hgt, if_pos hgt]
      rfl

end Change

namespace Comparison

/-! ## Rows -/

/-- Rows are those of others in the other direction. -/
structure AreReversed (rows rows' : List (Scalar × Change)) : Prop where
  /-- The names stay where they are, and their sizes are exchanged. -/
  sizes : rows' = rows.map fun r => (r.1, r.2.reversed)
  statuses : rows'.map (fun r => r.2.status) = rows.map fun r => r.2.status.mirrored
  /-- A difference changes its sign, and is missing if it was. -/
  differences : rows'.map (fun r => r.2.absolute?) = rows.map fun r => r.2.absolute?.map Neg.neg

theorem AreReversed.of_sizes {rows rows' : List (Scalar × Change)}
    (hsizes : rows' = rows.map fun r => (r.1, r.2.reversed))
    (hside : ∀ r ∈ rows, r.2 ≠ ⟨none, none⟩) : AreReversed rows rows' := by
  refine ⟨hsizes, ?_, ?_⟩
  · rw [hsizes, List.map_map]
    apply List.map_congr_left
    intro r hr
    exact Change.status_reversed (hside r hr)
  · rw [hsizes, List.map_map]
    apply List.map_congr_left
    intro r _
    exact Change.absolute?_reversed r.2

/-- The same names have changed. -/
theorem AreReversed.changed {rows rows' : List (Scalar × Change)} (h : AreReversed rows rows') :
    (rows'.filter fun r => r.2.status ≠ .unchanged).map Prod.fst
      = (rows.filter fun r => r.2.status ≠ .unchanged).map Prod.fst := by
  have hstatus : ∀ r ∈ rows, r.2.reversed.status = r.2.status.mirrored := by
    have hstatuses := h.statuses
    rw [h.sizes, List.map_map] at hstatuses
    exact List.map_inj_left.1 hstatuses
  rw [h.sizes, List.filter_map, List.map_map]
  have hsame : (rows.filter ((fun r => decide (r.2.status ≠ .unchanged)) ∘
      fun r : Scalar × Change => (r.1, r.2.reversed)))
        = rows.filter fun r => r.2.status ≠ .unchanged := by
    apply List.filter_congr
    intro r hr
    rw [Bool.eq_iff_iff, Function.comp_apply, decide_eq_true_iff, decide_eq_true_iff, hstatus r hr]
    exact not_congr Status.mirrored_eq_unchanged_iff
  rw [hsame]
  rfl

/-! ## Growth -/

theorem takeSigned_sublist {α : Type} (xs : List α) (n : Int) : (takeSigned xs n).Sublist xs := by
  unfold takeSigned
  split_ifs
  · exact List.take_sublist _ _
  · exact List.take_sublist _ _

theorem takeSigned_of_length_le {α : Type} {xs : List α} {n : Int} (h : xs.length ≤ n) :
    takeSigned xs n = xs := by
  unfold takeSigned
  rw [if_pos (by omega), List.take_of_length_le (by omega)]

/-- What is listed as growth has grown. -/
theorem grown_of_mem_topGrowth {c : Comparison} {count : Int} {row : SymbolChange}
    (h : row ∈ c.topGrowth count) : row ∈ c.symbols ∧ 0 < row.change.net := by
  have hranked := (takeSigned_sublist _ _).mem h
  have hgrown := List.mem_filter.1 (List.mem_mergeSort.1 hranked)
  exact ⟨hgrown.1, of_decide_eq_true hgrown.2⟩

/-- Everything that has grown is listed if the list is not cut. -/
theorem mem_topGrowth_iff {c : Comparison} {count : Int} (hcount : c.symbols.length ≤ count)
    {row : SymbolChange} : row ∈ c.topGrowth count ↔ row ∈ c.symbols ∧ 0 < row.change.net := by
  refine ⟨grown_of_mem_topGrowth, fun h => ?_⟩
  have hlength := List.length_filter_le (fun s => decide (0 < s.change.net)) c.symbols
  unfold topGrowth
  rw [takeSigned_of_length_le, List.mem_mergeSort]
  · exact List.mem_filter.2 ⟨h.1, decide_eq_true h.2⟩
  · rw [List.length_mergeSort]
    omega

/-! ## Two reports -/

/-- The labels do not tell which report comes first. -/
theorem AreLabels.swap_unique {label : Symbol → Value} {before after : Report} {ts us : List Text}
    (hts : AreLabels label before after ts) (hus : AreLabels label after before us) : us = ts := by
  apply hus.ascending.eq_of_mem_iff hts.ascending
  intro t
  rw [hus.covers, hts.covers]
  simp only [List.mem_append, or_comm]

variable {before after : Report}

/-- A label of two reports has a size in one of them. -/
theorem AreLabels.has_side {label : Symbol → Value} {ts : List Text}
    (h : AreLabels label before after ts) {size : Report → Text → Option Int}
    (hsize : ∀ r t, size r t = Report.total? (r.symbols.filter fun s => label s = .text t)) :
    ∀ t ∈ ts, (⟨size before t, size after t⟩ : Change) ≠ ⟨none, none⟩ := by
  intro t ht hnone
  rw [Change.mk.injEq, hsize, hsize] at hnone
  obtain ⟨s, hs, hlabel⟩ := (h.covers t).1 ht
  rcases List.mem_append.1 hs with hs | hs
  · exact total?_ne_none hs hlabel hnone.1
  · exact total?_ne_none hs hlabel hnone.2

/-- Rows for the labels of two reports are reversed when the reports change places. -/
theorem AreLabels.areReversed {label : Symbol → Value} {ts : List Text}
    (h : AreLabels label before after ts) (size : Report → Scalar → Option Int)
    (hsize : ∀ r t, size r (.text t)
      = Report.total? (r.symbols.filter fun s => label s = .text t)) :
    AreReversed ((ts.map Scalar.text).map fun n => (n, ⟨size before n, size after n⟩))
      ((ts.map Scalar.text).map fun n => (n, ⟨size after n, size before n⟩)) := by
  refine AreReversed.of_sizes ?_ ?_
  · rw [List.map_map, List.map_map, List.map_map]
    rfl
  · intro r hr
    obtain ⟨_, hn, rfl⟩ := List.mem_map.1 hr
    obtain ⟨t, ht, rfl⟩ := List.mem_map.1 hn
    exact h.has_side hsize t ht

/-- One comparison is another in the other direction. -/
structure IsReversed (forward backward : Comparison) : Prop where
  file : backward.fileChange = forward.fileChange.reversed
  sectionSizes : backward.sectionChange = forward.sectionChange.reversed
  symbols : AreReversed (forward.symbols.map fun r => (r.name, r.change))
    (backward.symbols.map fun r => (r.name, r.change))
  crates : AreReversed (forward.crates.map fun r => (r.name, r.change))
    (backward.crates.map fun r => (r.name, r.change))
  changedSymbols : backward.changedSymbols.map SymbolChange.name
    = forward.changedSymbols.map SymbolChange.name
  changedCrates : backward.changedCrates.map CrateChange.name
    = forward.changedCrates.map CrateChange.name
  /-- No symbol is listed as growth in both, however long the lists are. -/
  growth : ∀ n m : Int, ∀ name ∈ (forward.topGrowth n).map SymbolChange.name,
    name ∉ (backward.topGrowth m).map SymbolChange.name
  /-- Those that are in neither of the whole lists are those without a net change. -/
  steady : ∀ n m : Int, forward.symbols.length ≤ n → backward.symbols.length ≤ m →
    ∀ row ∈ forward.symbols, (row.name ∉ (forward.topGrowth n).map SymbolChange.name
      ∧ row.name ∉ (backward.topGrowth m).map SymbolChange.name) ↔ row.change.net = 0

section Between

variable {names labels : List Text}

/-- The sizes of a row are those of its name. -/
theorem change_of_mem_between {row : SymbolChange}
    (h : row ∈ (between before after names labels).symbols) :
    row.change = ⟨before.sizeOf? row.name, after.sizeOf? row.name⟩ := by
  obtain ⟨n, -, rfl⟩ := List.mem_map.1 h
  rfl

/-- A name has a row in both directions, with sizes exchanged. -/
theorem exists_reversed_row {row : SymbolChange}
    (h : row ∈ (between before after names labels).symbols) :
    ∃ row' ∈ (between after before names labels).symbols,
      row'.name = row.name ∧ row'.change = row.change.reversed := by
  obtain ⟨n, hn, rfl⟩ := List.mem_map.1 h
  exact ⟨_, List.mem_map_of_mem hn, rfl, rfl⟩

/-- Which names are listed as growth, if there are any rows for them. -/
theorem mem_growth_between {n : Int} {row : SymbolChange}
    (hrow : row ∈ (between before after names labels).symbols)
    (hn : (between before after names labels).symbols.length ≤ n) :
    row.name ∈ ((between before after names labels).topGrowth n).map SymbolChange.name
      ↔ 0 < row.change.net := by
  constructor
  · intro hname
    obtain ⟨other, hother, hsame⟩ := List.mem_map.1 hname
    obtain ⟨hmem, hgrown⟩ := grown_of_mem_topGrowth hother
    rw [change_of_mem_between hmem, hsame, ← change_of_mem_between hrow] at hgrown
    exact hgrown
  · intro hgrown
    exact List.mem_map_of_mem ((mem_topGrowth_iff hn).2 ⟨hrow, hgrown⟩)

/-- Comparisons of two reports by the same labels are each other's reverse. -/
theorem isReversed_between (hnames : AreLabels Symbol.name before after names)
    (hlabels : AreLabels Symbol.crateLabel before after labels) :
    IsReversed (between before after names labels) (between after before names labels) := by
  have hsymbols : AreReversed
      ((between before after names labels).symbols.map fun r => (r.name, r.change))
      ((between after before names labels).symbols.map fun r => (r.name, r.change)) := by
    have hrows := hnames.areReversed (fun r n => r.sizeOf? n) sizeOf?_text
    simp only [between, List.map_map] at hrows ⊢
    exact hrows
  have hcrates : AreReversed
      ((between before after names labels).crates.map fun r => (r.name, r.change))
      ((between after before names labels).crates.map fun r => (r.name, r.change)) := by
    have hrows := hlabels.areReversed (fun r n => sizeAmong? r.crates n) sizeAmong?_text
    simp only [between, List.map_map] at hrows ⊢
    exact hrows
  refine ⟨rfl, rfl, hsymbols, hcrates, ?_, ?_, ?_, ?_⟩
  · have hchanged := hsymbols.changed
    rw [List.filter_map, List.filter_map, List.map_map, List.map_map] at hchanged
    exact hchanged
  · have hchanged := hcrates.changed
    rw [List.filter_map, List.filter_map, List.map_map, List.map_map] at hchanged
    exact hchanged
  · -- A name in both lists would have grown in both directions.
    intro n m name hforward hbackward
    obtain ⟨row, hrow, rfl⟩ := List.mem_map.1 hforward
    obtain ⟨row', hrow', hsame⟩ := List.mem_map.1 hbackward
    obtain ⟨hmem, hgrown⟩ := grown_of_mem_topGrowth hrow
    obtain ⟨hmem', hgrown'⟩ := grown_of_mem_topGrowth hrow'
    have hreversed : row'.change = row.change.reversed := by
      rw [change_of_mem_between hmem', change_of_mem_between hmem, hsame]
      rfl
    rw [hreversed, Change.net_reversed] at hgrown'
    omega
  · intro n m hn hm row hrow
    obtain ⟨row', hrow', hsame, hreversed⟩ := exists_reversed_row hrow
    rw [mem_growth_between hrow hn, ← hsame, mem_growth_between hrow' hm, hreversed,
      Change.net_reversed]
    omega

end Between

/-- Sizes that are the same on both sides, and not missing, are unchanged. -/
theorem status_self {size : Option Int} (h : (⟨size, size⟩ : Change) ≠ ⟨none, none⟩) :
    (⟨size, size⟩ : Change).status = .unchanged := by
  cases size with
  | none => exact absurd rfl h
  | some n => simp [Change.status]

/-- In a comparison of a report with itself nothing has changed. -/
theorem changed_between_self {r : Report} {names labels : List Text}
    (hnames : AreLabels Symbol.name r r names) (hlabels : AreLabels Symbol.crateLabel r r labels) :
    (between r r names labels).changedSymbols = []
      ∧ (between r r names labels).changedCrates = [] := by
  constructor
  · refine List.filter_eq_nil_iff.2 fun row hrow => ?_
    obtain ⟨_, hn, rfl⟩ := List.mem_map.1 hrow
    obtain ⟨t, ht, rfl⟩ := List.mem_map.1 hn
    simp [status_self (hnames.has_side sizeOf?_text t ht)]
  · refine List.filter_eq_nil_iff.2 fun row hrow => ?_
    obtain ⟨_, hn, rfl⟩ := List.mem_map.1 hrow
    obtain ⟨t, ht, rfl⟩ := List.mem_map.1 hn
    simp [status_self (hlabels.has_side sizeAmong?_text t ht)]

/-- **Reversal.** Two reports that treat the standard library alike are compared in either
direction, and one comparison is the other in the other direction. A report that is compared with
itself has no changed row. -/
theorem compare_reversed {b : Bool} (hbefore : before.IsNamed) (hafter : after.IsNamed)
    (hsplitBefore : before.splitStd = .bool b) (hsplitAfter : after.splitStd = .bool b) :
    (∃ forward backward, compare before after = .ok forward ∧ compare after before = .ok backward
      ∧ IsReversed forward backward)
      ∧ ∃ still, compare before before = .ok still ∧ still.changedSymbols = []
        ∧ still.changedCrates = [] := by
  have hself : (Value.bool b).same (.bool b) = true := Scalar.same_refl (.bool b)
  constructor
  · obtain ⟨names, labels, hnames, hlabels, hforward⟩ :=
      exists_compare_between hbefore hafter (by rw [hsplitBefore, hsplitAfter, hself])
    obtain ⟨names', labels', hnames', hlabels', hbackward⟩ :=
      exists_compare_between hafter hbefore (by rw [hsplitBefore, hsplitAfter, hself])
    rw [hnames.swap_unique hnames', hlabels.swap_unique hlabels'] at hbackward
    exact ⟨_, _, hforward, hbackward, isReversed_between hnames hlabels⟩
  · obtain ⟨names, labels, hnames, hlabels, hstill⟩ :=
      exists_compare_between hbefore hbefore (by rw [hsplitBefore, hself])
    exact ⟨_, hstill, changed_between_self hnames hlabels⟩

/-- What was added to the sample is removed in the other direction, and what grew shrinks. The name
whose symbols became one is among the growth in neither. -/
theorem sampleReports_reversed : ∃ backward,
    compare sampleBefore sampleAfter = .ok sampleComparison
      ∧ compare sampleAfter sampleBefore = .ok backward
      ∧ backward.symbols.map (fun r => (r.name, r.change.status))
        = [(.text "hook", .shrunk), (.text "new", .removed), (.text "old", .added),
          (.text "run", .unchanged)]
      ∧ backward.changedSymbols.map SymbolChange.name = [.text "hook", .text "new", .text "old"]
      ∧ .text "run" ∉ (sampleComparison.topGrowth 4).map SymbolChange.name
      ∧ .text "run" ∉ (backward.topGrowth 4).map SymbolChange.name
      ∧ ∃ still, compare sampleBefore sampleBefore = .ok still ∧ still.changedSymbols = [] := by
  obtain ⟨⟨forward, backward, hforward, hbackward, h⟩, still, hstill, hsame, -⟩ :=
    compare_reversed sampleBefore_isNamed sampleAfter_isNamed rfl rfl
  have hsample : compare sampleBefore sampleAfter = .ok sampleComparison := by cbv
  rw [hsample] at hforward
  cases hforward
  have hlength := congrArg List.length h.symbols.sizes
  have hstatuses := congrArg (List.map fun r => (r.1, r.2.status)) h.symbols.sizes
  simp only [List.length_map] at hlength
  rw [List.map_map] at hstatuses
  have hrun := (h.steady 4 4 (by decide) (by rw [hlength]; decide)
    ⟨.text "run", .text "run", some 12, some 12⟩ (by decide)).2 (by decide)
  refine ⟨backward, hsample, hbackward, hstatuses.trans (by decide),
    h.changedSymbols.trans (by decide), hrun.1, hrun.2, still, hstill, hsame⟩

end Comparison

end CrateLedger
