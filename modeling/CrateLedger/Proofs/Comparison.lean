import CrateLedger.Comparison
import CrateLedger.Proofs.Report

/-!
# What a comparison accounts for

Two reports are compared by two joins of their symbols, one by name and one by crate. Each join has
a row for every label that occurs on either side, so whatever moves between labels, both views add
up to the difference of the totals. That there is nothing to add up is told apart from adding up to
zero.
-/

namespace CrateLedger

/-! ## Joins -/

/-- What some symbols add up to, if there are any. -/
def Report.total? (symbols : List Symbol) : Option Int :=
  if symbols = [] then none else some (totalSize symbols)

theorem Report.getD_total? (symbols : List Symbol) :
    (total? symbols).getD 0 = totalSize symbols := by
  unfold total?
  split
  · next h => rw [h]; rfl
  · rfl

theorem Report.total?_eq_none_iff {symbols : List Symbol} :
    total? symbols = none ↔ symbols = [] := by
  unfold total?
  split <;> simp [*]

/-- The label of the crate of a symbol, as a document. -/
def Symbol.crateLabel (s : Symbol) : Value := .scalar s.crate

theorem Symbol.crateLabel_eq_text_iff {s : Symbol} {t : Text} :
    s.crateLabel = .text t ↔ s.crate = .text t :=
  ⟨fun h => Value.scalar.inj h, fun h => congrArg Value.scalar h⟩

theorem Report.IsNamed.exists_crateLabel {r : Report} (h : r.IsNamed) :
    ∀ s ∈ r.symbols, ∃ t, s.crateLabel = .text t := by
  intro s hs
  obtain ⟨t, ht⟩ := h.crates s hs
  exact ⟨t, Symbol.crateLabel_eq_text_iff.2 ht⟩

/-! ## Symbols by name -/

namespace NameSize

variable {rows : List NameSize} {name other : Scalar} {s : Symbol}

theorem row?_cons (row : NameSize) : row? (row :: rows) other
    = if row.name.same other then some row else row? rows other := by
  unfold row?
  rw [List.find?_cons]
  cases row.name.same other <;> rfl

/-- The row of a name with one more symbol. -/
def entered (name : Scalar) (s : Symbol) : Option NameSize → NameSize
  | some row => { row with size := row.size + s.size }
  | none => ⟨name, s.size, s.shown⟩

/-- Entering a symbol changes the row of its name and no other. -/
theorem row?_enter : row? (enter name s rows) other
    = if name.same other then some (entered name s (row? rows other)) else row? rows other := by
  induction rows with
  | nil => rw [enter, row?_cons]; rfl
  | cons row rest ih =>
    by_cases hrow : row.name.same name = true
    · rw [enter, if_pos hrow, row?_cons, row?_cons, ← Scalar.same_congr hrow]
      split <;> rfl
    · rw [enter, if_neg hrow, row?_cons, row?_cons, ih]
      by_cases hother : row.name.same other = true
      · -- The name is not the same as one whose row is another's.
        have hne : ¬ name.same other = true := fun hsame =>
          hrow (Scalar.same_trans hother (by rwa [Scalar.same_comm]))
        rw [if_pos hother, if_pos hother, if_neg hne]
      · rw [if_neg hother, if_neg hother]

/-- Entering a symbol names no row but its own. -/
theorem names_enter_subset :
    (enter name s rows).map NameSize.name ⊆ name :: rows.map NameSize.name := by
  induction rows with
  | nil => exact List.Subset.refl _
  | cons row rest ih =>
    rw [enter]
    split
    · exact List.subset_cons_self _ _
    · simp only [List.map_cons, List.cons_subset] at ih ⊢
      refine ⟨by simp, fun n hn => ?_⟩
      rcases List.mem_cons.1 (ih hn) with rfl | hn
      · exact List.mem_cons_self
      · exact List.mem_cons_of_mem _ (List.mem_cons_of_mem _ hn)

/-- Enters symbols, each with its name, one after the other. -/
def enterEach (rows : List NameSize) (pairs : List (Scalar × Symbol)) : List NameSize :=
  pairs.foldl (fun rows (name, s) => enter name s rows) rows

/-- What a name has in the end is what its own symbols make of what it had. -/
theorem row?_enterEach (pairs : List (Scalar × Symbol)) :
    row? (enterEach rows pairs) other = (pairs.filter fun p => p.1.same other).foldl
      (fun row p => some (entered p.1 p.2 row)) (row? rows other) := by
  induction pairs generalizing rows with
  | nil => rfl
  | cons p pairs ih =>
    have hstep : enterEach rows (p :: pairs) = enterEach (enter p.1 p.2 rows) pairs := rfl
    rw [hstep, ih, row?_enter, List.filter_cons]
    split <;> rfl

theorem names_enterEach_subset (pairs : List (Scalar × Symbol)) :
    (enterEach rows pairs).map NameSize.name
      ⊆ rows.map NameSize.name ++ pairs.map Prod.fst := by
  induction pairs generalizing rows with
  | nil => exact List.subset_append_left _ _
  | cons p pairs ih =>
    intro n hn
    rcases List.mem_append.1 (@ih (enter p.1 p.2 rows) n hn) with hn | hn
    · rcases List.mem_cons.1 (names_enter_subset hn) with rfl | hn
      · exact List.mem_append_right _ List.mem_cons_self
      · exact List.mem_append_left _ hn
    · exact List.mem_append_right _ (List.mem_cons_of_mem _ hn)

/-- Symbols behind the first of a name only add their sizes. -/
theorem foldl_entered (row : NameSize) (pairs : List (Scalar × Symbol)) :
    pairs.foldl (fun row p => some (entered p.1 p.2 row)) (some row)
      = some { row with size := row.size + Report.totalSize (pairs.map Prod.snd) } := by
  induction pairs generalizing row with
  | nil => simp [Report.totalSize]
  | cons p pairs ih =>
    rw [List.foldl_cons, entered, ih, List.map_cons]
    simp [Report.totalSize, Int.add_assoc]

/-- The row of a text is there if the text is among the names. -/
theorem row?_text_ne_none_iff {t : Text} :
    row? rows (.text t) ≠ none ↔ .text t ∈ rows.map NameSize.name := by
  unfold row?
  rw [Ne, List.find?_eq_none, List.mem_map]
  simp only [Scalar.same_text_iff, not_forall, not_not, exists_prop]

end NameSize

namespace Report

variable {r : Report}

/-- The symbols of a name. -/
def symbolsNamed (r : Report) (name : Scalar) : List Symbol :=
  r.symbols.filter fun s => s.name.same (.scalar name)

/-- What the symbols of a name add up to, if there are any. -/
def sizeOf? (r : Report) (name : Scalar) : Option Int := total? (r.symbolsNamed name)

/-- The readable form of the first symbol of a name. -/
def shownOf? (r : Report) (name : Scalar) : Option Value :=
  (r.symbolsNamed name).head?.map Symbol.shown

/-- The names of the symbols of a report that are all texts. -/
theorem exists_symbolNames (h : ∀ s ∈ r.symbols, ∃ t, s.name = .text t) :
    ∃ name : Symbol → Text, (∀ s ∈ r.symbols, s.name = .text (name s))
      ∧ r.symbolNames = .ok (r.symbols.map fun s => .text (name s)) := by
  let name (s : Symbol) : Text := (s.name.text?).getD []
  have hname : ∀ s ∈ r.symbols, s.name = .text (name s) := by
    intro s hs
    obtain ⟨t, ht⟩ := h s hs
    simp only [name, ht]
    rfl
  refine ⟨name, hname, ?_⟩
  have hnames : r.symbols.mapM (fun s => s.name.scalar?)
      = some (r.symbols.map fun s => .text (name s)) := by
    generalize r.symbols = symbols at hname
    induction symbols with
    | nil => rfl
    | cons s symbols ih =>
      have hhead : s.name.scalar? = some (.text (name s)) := by
        rw [hname s List.mem_cons_self]
        rfl
      rw [List.mapM_cons, hhead, ih fun t ht => hname t (List.mem_cons_of_mem _ ht)]
      rfl
  rw [symbolNames, hnames]

/-- One pass over symbols with texts for names adds up the sizes of each name and keeps the readable
form of its first symbol. -/
theorem exists_nameSizes (h : ∀ s ∈ r.symbols, ∃ t, s.name = .text t) : ∃ rows,
    r.nameSizes = .ok rows
      ∧ (∀ name, (NameSize.row? rows name).map NameSize.size = r.sizeOf? name
        ∧ (NameSize.row? rows name).map NameSize.shown = r.shownOf? name)
      ∧ ∃ ts : List Text, rows.map NameSize.name = ts.map .text
        ∧ ∀ t, t ∈ ts ↔ ∃ s ∈ r.symbols, s.name = .text t := by
  obtain ⟨name, hname, hnames⟩ := exists_symbolNames h
  let pairs := r.symbols.map fun s => (Scalar.text (name s), s)
  have hpass : r.nameSizes = .ok (NameSize.enterEach [] pairs) := by
    unfold nameSizes
    rw [hnames]
    have hzip : (r.symbols.map fun s => Scalar.text (name s)).zip r.symbols = pairs := by
      conv_lhs => arg 2; rw [← List.map_id r.symbols]
      rw [List.zip_map']
      rfl
    show Except.ok _ = _
    rw [hzip]
    rfl
  have hown (n : Scalar) : (pairs.filter fun p => p.1.same n).map Prod.snd = r.symbolsNamed n := by
    rw [List.filter_map, List.map_map, symbolsNamed]
    refine (List.map_id _).trans (List.filter_congr fun s hs => ?_)
    rw [hname s hs]
    rfl
  have hrow (n : Scalar) :
      (NameSize.row? (NameSize.enterEach [] pairs) n).map NameSize.size = r.sizeOf? n
        ∧ (NameSize.row? (NameSize.enterEach [] pairs) n).map NameSize.shown = r.shownOf? n := by
    rw [NameSize.row?_enterEach, sizeOf?, shownOf?, ← hown n]
    cases pairs.filter fun p => p.1.same n with
    | nil => exact ⟨rfl, rfl⟩
    | cons p rest =>
      have hfirst : NameSize.entered p.1 p.2 (NameSize.row? [] n) = ⟨p.1, p.2.size, p.2.shown⟩ := rfl
      rw [List.foldl_cons, hfirst, NameSize.foldl_entered]
      exact ⟨by simp [total?, totalSize], rfl⟩
  refine ⟨_, hpass, hrow, ?_⟩
  obtain ⟨ts, hts⟩ : ∃ ts : List Text,
      (NameSize.enterEach [] pairs).map NameSize.name = ts.map .text := by
    apply Scalar.exists_texts
    intro n hn
    have hn := NameSize.names_enterEach_subset pairs hn
    rw [List.map_nil, List.nil_append, List.map_map] at hn
    obtain ⟨s, -, rfl⟩ := List.mem_map.1 hn
    exact ⟨name s, rfl⟩
  refine ⟨ts, hts, fun t => ?_⟩
  have hmem : t ∈ ts ↔ NameSize.row? (NameSize.enterEach [] pairs) (.text t) ≠ none := by
    rw [NameSize.row?_text_ne_none_iff, hts]
    exact (List.mem_map_of_injective fun _ _ => Scalar.text.inj).symm
  rw [hmem, Ne, ← Option.map_eq_none_iff, (hrow (.text t)).1, sizeOf?,
    total?_eq_none_iff, symbolsNamed, List.filter_eq_nil_iff]
  simp only [not_forall, not_not, exists_prop]
  exact exists_congr fun s => and_congr_right fun _ => Value.same_text_iff

end Report

/-! ## Joining by a label -/

namespace Comparison

open Report (total? getD_total? totalSize)

/-- Rows join the symbols of two sides by a label: there is one row for each label that occurs on
either side, with what the symbols of this label add up to on each. -/
structure IsJoin (label : Symbol → Value) (before after : List Symbol)
    (rows : List (Scalar × Change)) : Prop where
  /-- The labels are texts and ascend by code point, so none comes twice. -/
  ascending : ∃ names : List Text, rows.map Prod.fst = names.map .text ∧ names.Pairwise (· < ·)
  /-- They are those that occur. -/
  covers : ∀ name, name ∈ rows.map Prod.fst ↔ ∃ s ∈ before ++ after, label s = .scalar name
  /-- A size is missing only if there is nothing to add up. -/
  sizes : ∀ row ∈ rows, row.2 = ⟨total? (before.filter fun s => label s = .scalar row.1),
    total? (after.filter fun s => label s = .scalar row.1)⟩

section Join

variable {label : Symbol → Value} {before after : List Symbol}

/-- Sizes of labels that are looked up for each of the names that occur are a join. -/
theorem isJoin_of_names {names : List Text} (hascending : names.Pairwise (· < ·))
    (htexts : ∀ s ∈ before ++ after, ∃ t, label s = .text t)
    (hcovers : ∀ t, t ∈ names ↔ ∃ s ∈ before ++ after, label s = .text t)
    {sizeBefore sizeAfter : Scalar → Option Int}
    (hbefore : ∀ t, sizeBefore (.text t) = total? (before.filter fun s => label s = .text t))
    (hafter : ∀ t, sizeAfter (.text t) = total? (after.filter fun s => label s = .text t)) :
    IsJoin label before after
      ((names.map Scalar.text).map fun n => (n, ⟨sizeBefore n, sizeAfter n⟩)) := by
  have hnames : ((names.map Scalar.text).map fun n =>
      (n, (⟨sizeBefore n, sizeAfter n⟩ : Change))).map Prod.fst = names.map .text := by
    rw [List.map_map]
    exact List.map_id _
  refine ⟨⟨names, hnames, hascending⟩, fun name => ?_, ?_⟩
  · rw [hnames]
    constructor
    · intro h
      obtain ⟨t, ht, rfl⟩ := List.mem_map.1 h
      exact (hcovers t).1 ht
    · rintro ⟨s, hs, hlabel⟩
      obtain ⟨t, ht⟩ := htexts s hs
      have hname : name = .text t := Value.scalar.inj (hlabel.symm.trans ht)
      rw [hname]
      exact List.mem_map_of_mem ((hcovers t).2 ⟨s, hs, ht⟩)
  · intro row hrow
    obtain ⟨n, hn, rfl⟩ := List.mem_map.1 hrow
    obtain ⟨t, -, rfl⟩ := List.mem_map.1 hn
    exact congrArg₂ Change.mk (hbefore t) (hafter t)

/-- What the symbols of each label add up to is together what all of them add up to. -/
theorem sum_totalSize_filter {names : List Text} (hnodup : names.Nodup) {symbols : List Symbol}
    (hcovers : ∀ s ∈ symbols, ∃ t ∈ names, label s = .text t) :
    (names.map fun t => totalSize (symbols.filter fun s => label s = .text t)).sum
      = totalSize symbols := by
  let scalar (s : Symbol) : Scalar := (label s).scalar?.getD .null
  have hsame : ∀ s t, (scalar s).same (.text t) = decide (label s = .text t) := by
    intro s t
    rw [Bool.eq_iff_iff, decide_eq_true_iff, Scalar.same_text_iff]
    cases h : label s <;> simp [scalar, h, Value.scalar?, Value.text]
  have hpairwise : (names.map Scalar.text).Pairwise fun a b => a.same b = false := by
    refine List.pairwise_map.2 (hnodup.imp fun {s t} hst => ?_)
    rw [Scalar.same_text_text, decide_eq_false hst]
  have hfound : ∀ s ∈ symbols, ∃ c ∈ names.map Scalar.text, (scalar s).same c = true := by
    intro s hs
    obtain ⟨t, ht, hlabel⟩ := hcovers s hs
    exact ⟨.text t, List.mem_map_of_mem ht, by rw [hsame, hlabel, decide_eq_true rfl]⟩
  have hsum := Scalar.sum_groups scalar Symbol.size hpairwise hfound
  rw [List.map_map] at hsum
  simp only [Report.totalSize_eq_sum]
  rw [← hsum]
  refine congrArg List.sum (List.map_congr_left fun t _ => ?_)
  simp only [Function.comp_apply, hsame]

/-- The net changes of a join add up to the difference of the totals of its sides. -/
theorem IsJoin.sum_net {rows : List (Scalar × Change)} (h : IsJoin label before after rows)
    (htexts : ∀ s ∈ before ++ after, ∃ t, label s = .text t) :
    (rows.map fun r => r.2.net).sum = totalSize after - totalSize before := by
  obtain ⟨names, hnames, hascending⟩ := h.ascending
  have hnodup : names.Nodup := hascending.imp fun hlt => hlt.ne
  have hcovers : ∀ s ∈ before ++ after, ∃ t ∈ names, label s = .text t := by
    intro s hs
    obtain ⟨t, ht⟩ := htexts s hs
    have hmem := (h.covers (.text t)).2 ⟨s, hs, ht⟩
    rw [hnames] at hmem
    obtain ⟨u, hu, heq⟩ := List.mem_map.1 hmem
    exact ⟨t, Scalar.text.inj heq ▸ hu, ht⟩
  have hlabels : ∀ f : Scalar → Int,
      (rows.map fun r => f r.1).sum = (names.map fun t => f (.text t)).sum := by
    intro f
    have hmap : (rows.map Prod.fst).map f = (names.map Scalar.text).map f := by rw [hnames]
    rw [List.map_map, List.map_map] at hmap
    exact congrArg List.sum hmap
  have hside : ∀ side, side ⊆ before ++ after →
      (rows.map fun r => totalSize (side.filter fun s => label s = .scalar r.1)).sum
        = totalSize side := fun side hsub =>
    (hlabels fun n => totalSize (side.filter fun s => label s = .scalar n)).trans
      (sum_totalSize_filter hnodup fun s hs => hcovers s (hsub hs))
  have hnet : ∀ r ∈ rows, r.2.net
      + totalSize (before.filter fun s => label s = .scalar r.1)
      = totalSize (after.filter fun s => label s = .scalar r.1) := by
    intro r hr
    rw [h.sizes r hr, Change.net, getD_total?, getD_total?, sub_add_cancel]
  rw [eq_sub_iff_add_eq, ← hside before (List.subset_append_left _ _),
    ← hside after (List.subset_append_right _ _), ← List.sum_map_add, List.map_congr_left hnet]

end Join

/-! ## Comparing reports -/

/-- One of each of some texts, in order. -/
theorem exists_merge_texts (ts : List Text) : ∃ names : List Text,
    merge (ts.map .text) = .ok (names.map .text) ∧ names.Pairwise (· < ·) ∧
      ∀ t, t ∈ names ↔ t ∈ ts := by
  obtain ⟨us, hus, hnodup, hmem⟩ := Scalar.exists_distinct_texts ts
  obtain ⟨names, hsort, hascending, hperm⟩ := Scalar.exists_sort?_texts hnodup
  refine ⟨names, ?_, hascending, fun t => hperm.mem_iff.trans (hmem t)⟩
  rw [merge, hus, hsort]

/-- The labels of the crates of a report that are all texts. -/
theorem exists_crateLabels {r : Report} (h : ∀ s ∈ r.symbols, ∃ t, s.crate = .text t) :
    ∃ ts : List Text, r.crates.map CrateSize.name = ts.map .text ∧
      ∀ t, t ∈ ts ↔ ∃ s ∈ r.symbols, s.crate = .text t := by
  obtain ⟨ts, hts⟩ : ∃ ts : List Text, r.crates.map CrateSize.name = ts.map .text := by
    apply Scalar.exists_texts
    intro c hc
    obtain ⟨row, hrow, rfl⟩ := List.mem_map.1 hc
    obtain ⟨s, hs, hname⟩ := Report.exists_symbol_of_mem_crates hrow
    exact hname ▸ h s hs
  refine ⟨ts, hts, fun t => ?_⟩
  rw [← Report.text_mem_crates_iff, hts]
  exact (List.mem_map_of_injective fun _ _ => Scalar.text.inj).symm

theorem sizeOf?_text (r : Report) (t : Text) :
    r.sizeOf? (.text t) = total? (r.symbols.filter fun s => s.name = .text t) := by
  refine congrArg total? (List.filter_congr fun s _ => ?_)
  rw [Bool.eq_iff_iff, decide_eq_true_iff]
  exact Value.same_text_iff

theorem sizeAmong?_text (r : Report) (t : Text) : sizeAmong? r.crates (.text t)
    = total? (r.symbols.filter fun s => s.crateLabel = .text t) := by
  have hfilter : (r.symbols.filter fun s => s.crateLabel = .text t) = r.symbolsOf (.text t) := by
    refine List.filter_congr fun s _ => ?_
    rw [Bool.eq_iff_iff, decide_eq_true_iff, Symbol.crateLabel_eq_text_iff, Scalar.same_text_iff]
  have hrow : sizeAmong? r.crates (.text t) = (r.row? (.text t)).map CrateSize.size := rfl
  rw [hrow, Report.row?_eq, hfilter, total?]
  cases r.symbolsOf (.text t) <;> simp

/-- The status of a change that has a side tells whether its sides differ. -/
theorem status_ne_unchanged_iff {c : Change} (h : c ≠ ⟨none, none⟩) :
    c.status ≠ .unchanged ↔ c.before ≠ c.after := by
  obtain ⟨_ | b, _ | a⟩ := c
  · exact absurd rfl h
  · simp [Change.status]
  · simp [Change.status]
  · simp only [Change.status]
    split
    · simp; omega
    · split
      · simp; omega
      · simp; omega

/-- A label that occurs has a size on the side where it does. -/
theorem total?_ne_none {label : Symbol → Value} {symbols : List Symbol} {s : Symbol} {n : Scalar}
    (hs : s ∈ symbols) (hlabel : label s = .scalar n) :
    total? (symbols.filter fun s => label s = .scalar n) ≠ none := by
  rw [Ne, Report.total?_eq_none_iff]
  exact List.ne_nil_of_mem (List.mem_filter.2 ⟨hs, decide_eq_true hlabel⟩)

/-- A row of a join has a side. -/
theorem IsJoin.ne_missing {label : Symbol → Value} {before after : List Symbol}
    {rows : List (Scalar × Change)} (h : IsJoin label before after rows) :
    ∀ row ∈ rows, row.2 ≠ ⟨none, none⟩ := by
  intro row hrow hnone
  obtain ⟨s, hs, hlabel⟩ := (h.covers row.1).1 (List.mem_map_of_mem hrow)
  have hsizes := (h.sizes row hrow).symm.trans hnone
  rw [Change.mk.injEq] at hsizes
  rcases List.mem_append.1 hs with hs | hs
  · exact total?_ne_none hs hlabel hsizes.1
  · exact total?_ne_none hs hlabel hsizes.2

/-- The rows of a join that have changed are those whose sizes differ. -/
theorem filter_status_eq {α : Type} {rows : List α} {name : α → Scalar} {change : α → Change}
    {label : Symbol → Value} {before after : List Symbol}
    (h : IsJoin label before after (rows.map fun r => (name r, change r))) :
    (rows.filter fun r => (change r).status ≠ .unchanged)
      = rows.filter fun r => (change r).before ≠ (change r).after := by
  refine List.filter_congr fun r hr => ?_
  have hside := h.ne_missing _ (List.mem_map_of_mem hr)
  rw [Bool.eq_iff_iff, decide_eq_true_iff, decide_eq_true_iff]
  exact status_ne_unchanged_iff hside

/-- A comparison accounts for two reports: it joins their symbols by name and by crate, tells which
rows have changed, and both views add up to the difference of the totals. -/
structure Accounts (before after : Report) (c : Comparison) : Prop where
  /-- The symbols, by name. -/
  symbols : IsJoin Symbol.name before.symbols after.symbols
    (c.symbols.map fun r => (r.name, r.change))
  /-- The symbols, by crate. -/
  crates : IsJoin Symbol.crateLabel before.symbols after.symbols
    (c.crates.map fun r => (r.name, r.change))
  /-- A name has changed if its sizes differ, one of which may be missing. -/
  changedSymbols : c.changedSymbols = c.symbols.filter fun r => r.change.before ≠ r.change.after
  /-- So has a crate. -/
  changedCrates : c.changedCrates = c.crates.filter fun r => r.change.before ≠ r.change.after
  symbolsNet : (c.symbols.map fun r => r.change.net).sum = after.symbolsSize - before.symbolsSize
  cratesNet : (c.crates.map fun r => r.change.net).sum = after.symbolsSize - before.symbolsSize

/-! ## Two reports -/

/-- The comparison of two reports with rows for given names and crates. -/
def between (before after : Report) (names labels : List Text) : Comparison where
  fileSizeBefore := before.fileSize
  fileSizeAfter := after.fileSize
  sectionSizeBefore := before.sectionSize
  sectionSizeAfter := after.sectionSize
  symbols := (names.map Scalar.text).map fun n =>
    ⟨n, shownOf (before.shownOf? n) (after.shownOf? n) n, before.sizeOf? n, after.sizeOf? n⟩
  crates := (labels.map Scalar.text).map fun n =>
    ⟨n, sizeAmong? before.crates n, sizeAmong? after.crates n⟩

/-- Texts are the labels of the symbols of two reports, in order. -/
structure AreLabels (label : Symbol → Value) (before after : Report) (ts : List Text) : Prop where
  ascending : ts.Pairwise (· < ·)
  covers : ∀ t, t ∈ ts ↔ ∃ s ∈ before.symbols ++ after.symbols, label s = .text t

variable {before after : Report} {names labels : List Text}

/-- Reports that treat the standard library alike are compared by the names and the crates of their
symbols. -/
theorem exists_compare_between (hbefore : before.IsNamed) (hafter : after.IsNamed)
    (hsplit : before.splitStd.same after.splitStd = true) : ∃ names labels,
      AreLabels Symbol.name before after names ∧ AreLabels Symbol.crateLabel before after labels
        ∧ compare before after = .ok (between before after names labels) := by
  obtain ⟨rowsBefore, hpassBefore, hrowsBefore, namesBefore, hnamesBefore, hmemBefore⟩ :=
    Report.exists_nameSizes hbefore.names
  obtain ⟨rowsAfter, hpassAfter, hrowsAfter, namesAfter, hnamesAfter, hmemAfter⟩ :=
    Report.exists_nameSizes hafter.names
  obtain ⟨names, hnames, hnamesAscending, hmemNames⟩ :=
    exists_merge_texts (namesBefore ++ namesAfter)
  obtain ⟨labelsBefore, hlabelsBefore, hmemLabelsBefore⟩ := exists_crateLabels hbefore.crates
  obtain ⟨labelsAfter, hlabelsAfter, hmemLabelsAfter⟩ := exists_crateLabels hafter.crates
  obtain ⟨labels, hlabels, hlabelsAscending, hmemLabels⟩ :=
    exists_merge_texts (labelsBefore ++ labelsAfter)
  rw [List.map_append] at hnames hlabels
  rw [← hnamesBefore, ← hnamesAfter, ← List.map_append] at hnames
  rw [← hlabelsBefore, ← hlabelsAfter, ← List.map_append] at hlabels
  refine ⟨names, labels, ⟨hnamesAscending, fun t => ?_⟩, ⟨hlabelsAscending, fun t => ?_⟩, ?_⟩
  · simp only [hmemNames, List.mem_append, hmemBefore, hmemAfter, or_and_right, exists_or]
  · simp only [hmemLabels, List.mem_append, hmemLabelsBefore, hmemLabelsAfter,
      Symbol.crateLabel_eq_text_iff, or_and_right, exists_or]
  · have hrow (n : Scalar) : changeOf (NameSize.row? rowsBefore n) (NameSize.row? rowsAfter n) n
        = ⟨n, shownOf (before.shownOf? n) (after.shownOf? n) n, before.sizeOf? n,
          after.sizeOf? n⟩ := by
      rw [changeOf, (hrowsBefore n).1, (hrowsBefore n).2, (hrowsAfter n).1, (hrowsAfter n).2]
    simp only [compare, hsplit, hpassBefore, hpassAfter, bind, Except.bind, hnames, hlabels, hrow]
    rfl

/-- Rows for the labels of two reports join them. -/
theorem AreLabels.isJoin {label : Symbol → Value} {ts : List Text}
    (h : AreLabels label before after ts)
    (htexts : ∀ s ∈ before.symbols ++ after.symbols, ∃ t, label s = .text t)
    (size : Report → Scalar → Option Int)
    (hsize : ∀ r t, size r (.text t)
      = total? (r.symbols.filter fun s => label s = .text t)) :
    IsJoin label before.symbols after.symbols
      ((ts.map Scalar.text).map fun n => (n, ⟨size before n, size after n⟩)) :=
  isJoin_of_names h.ascending htexts h.covers (hsize before) (hsize after)

/-- The comparison by the labels of two reports accounts for them. -/
theorem accounts_between (hbefore : before.IsNamed) (hafter : after.IsNamed)
    (hnames : AreLabels Symbol.name before after names)
    (hlabels : AreLabels Symbol.crateLabel before after labels) :
    Accounts before after (between before after names labels) := by
  have hnamed := List.forall_mem_append.2 ⟨hbefore.names, hafter.names⟩
  have hcrated := List.forall_mem_append.2 ⟨hbefore.exists_crateLabel, hafter.exists_crateLabel⟩
  have hsymbols : IsJoin Symbol.name before.symbols after.symbols
      ((between before after names labels).symbols.map fun r => (r.name, r.change)) := by
    have hrows := hnames.isJoin hnamed (fun r n => r.sizeOf? n) sizeOf?_text
    simp only [between, List.map_map] at hrows ⊢
    exact hrows
  have hcrates : IsJoin Symbol.crateLabel before.symbols after.symbols
      ((between before after names labels).crates.map fun r => (r.name, r.change)) := by
    have hrows := hlabels.isJoin hcrated (fun r n => sizeAmong? r.crates n) sizeAmong?_text
    simp only [between, List.map_map] at hrows ⊢
    exact hrows
  have hsymbolsNet := hsymbols.sum_net hnamed
  have hcratesNet := hcrates.sum_net hcrated
  rw [List.map_map] at hsymbolsNet hcratesNet
  exact ⟨hsymbols, hcrates, filter_status_eq hsymbols, filter_status_eq hcrates, hsymbolsNet,
    hcratesNet⟩

/-- **Comparison.** Two reports that treat the standard library alike are joined, by name and by
crate. Others are not compared. -/
theorem compare_accounts {before after : Report} (hbefore : before.IsNamed)
    (hafter : after.IsNamed) :
    (before.splitStd.same after.splitStd = true →
      ∃ c, compare before after = .ok c ∧ Accounts before after c) ∧
    (before.splitStd.same after.splitStd = false →
      compare before after = .error .splitDiffers) := by
  constructor
  · intro hsplit
    obtain ⟨names, labels, hnames, hlabels, hcompare⟩ :=
      exists_compare_between hbefore hafter hsplit
    exact ⟨_, hcompare, accounts_between hbefore hafter hnames hlabels⟩
  · intro hsplit
    simp only [compare, hsplit]
    rfl

/-- Before: two symbols of one name in two crates, one without bytes, and one that goes away. -/
def sampleBefore : Report where
  fileSize := 4096
  sectionSize := 32
  sectionName := .text ".text"
  formatName := .text "ELF64"
  splitStd := .bool false
  symbols := [⟨.text "run", .text "run", 4, 0, .text "app", true⟩,
    ⟨.text "run", .text "run", 8, 4, .text "std", false⟩,
    ⟨.text "hook", .text "hook", 0, 12, .text "app", true⟩,
    ⟨.text "old", .text "old", 6, 12, .text "std", false⟩]

/-- After: the symbols of this name are one, another is in another crate, and one without bytes is
new. -/
def sampleAfter : Report where
  fileSize := 4096
  sectionSize := 32
  sectionName := .text ".text"
  formatName := .text "ELF64"
  splitStd := .bool false
  symbols := [⟨.text "run", .text "run", 12, 0, .text "app", true⟩,
    ⟨.text "hook", .text "hook", 5, 12, .text "core", true⟩,
    ⟨.text "new", .text "new", 0, 17, .text "app", true⟩]

/-- What changed: nothing for the name whose symbols became one, but something for their crates. -/
def sampleComparison : Comparison where
  fileSizeBefore := 4096
  fileSizeAfter := 4096
  sectionSizeBefore := 32
  sectionSizeAfter := 32
  symbols := [⟨.text "hook", .text "hook", some 0, some 5⟩, ⟨.text "new", .text "new", none, some 0⟩,
    ⟨.text "old", .text "old", some 6, none⟩, ⟨.text "run", .text "run", some 12, some 12⟩]
  crates := [⟨.text "app", some 4, some 12⟩, ⟨.text "core", none, some 5⟩,
    ⟨.text "std", some 14, none⟩]

theorem sampleBefore_isNamed : sampleBefore.IsNamed := by
  constructor <;> simp [sampleBefore]

theorem sampleAfter_isNamed : sampleAfter.IsNamed := by
  constructor <;> simp [sampleAfter]

theorem sampleReports_compared : sampleBefore.IsNamed ∧ sampleAfter.IsNamed ∧
    compare sampleBefore sampleAfter = .ok sampleComparison ∧
    Accounts sampleBefore sampleAfter sampleComparison ∧
    compare { sampleBefore with splitStd := .bool true } sampleAfter = .error .splitDiffers := by
  have happart : Report.IsNamed { sampleBefore with splitStd := .bool true } :=
    ⟨sampleBefore_isNamed.names, sampleBefore_isNamed.crates⟩
  obtain ⟨c, hc, h⟩ := (compare_accounts sampleBefore_isNamed sampleAfter_isNamed).1 rfl
  have hsample : compare sampleBefore sampleAfter = .ok sampleComparison := by cbv
  rw [hsample] at hc
  cases hc
  exact ⟨sampleBefore_isNamed, sampleAfter_isNamed, hsample, h,
    (compare_accounts happart sampleAfter_isNamed).2 (by decide +kernel)⟩

end Comparison

end CrateLedger
