import CrateLedger.Proofs.Value
import CrateLedger.Report

/-!
# Totals of a report

The crates of a report share out its symbols: every symbol is in one crate, so what is added up
crate by crate, be it bytes or symbols, is what is added up over the symbols.
-/

namespace CrateLedger.Report

theorem totalSize_eq_sum (symbols : List Symbol) :
    totalSize symbols = (symbols.map Symbol.size).sum := rfl

theorem pairwise_crateNames (r : Report) :
    r.crateNames.Pairwise fun a b => a.same b = false := Scalar.pairwise_distinct _

/-- The crate of every symbol is one of those of the report. -/
theorem exists_crateName {r : Report} {s : Symbol} (h : s ∈ r.symbols) :
    ∃ c ∈ r.crateNames, s.crate.same c = true :=
  Scalar.exists_same_distinct (List.mem_map_of_mem h)

/-- The crates are those of the names, in some order. -/
theorem crates_perm (r : Report) : r.crates.Perm
    (r.crateNames.map fun c => ⟨c, totalSize (r.symbolsOf c), (r.symbolsOf c).length⟩) :=
  List.mergeSort_perm _ _

/-- The sizes of the crates add up to what the symbols account for. -/
theorem sum_crates_size (r : Report) : (r.crates.map CrateSize.size).sum = r.symbolsSize := by
  rw [((crates_perm r).map CrateSize.size).sum_eq, List.map_map]
  exact Scalar.sum_groups Symbol.crate Symbol.size (pairwise_crateNames r) fun _ => exists_crateName

/-- The crates have as many symbols as the report. -/
theorem sum_crates_symbolCount (r : Report) :
    (r.crates.map CrateSize.symbolCount).sum = r.symbols.length := by
  have hcount : ∀ symbols : List Symbol, (symbols.map fun _ => 1).sum = symbols.length := by simp
  rw [((crates_perm r).map CrateSize.symbolCount).sum_eq, List.map_map, ← hcount,
    ← Scalar.sum_groups Symbol.crate (fun _ => 1) (pairwise_crateNames r) fun _ => exists_crateName]
  exact congrArg List.sum (List.map_congr_left fun c _ => (hcount (r.symbolsOf c)).symm)

/-! ## Rows -/

/-- Of items no two of which have a property, the one that has it is found in any order. -/
theorem find?_eq_of_perm {α : Type} {p : α → Bool} {xs ys : List α} (hperm : xs.Perm ys)
    (hunique : ys.Pairwise fun a b => ¬ (p a = true ∧ p b = true)) : xs.find? p = ys.find? p := by
  rw [← List.head?_filter, ← List.head?_filter]
  have hfilter := hperm.filter p
  have hnone := hunique.filter p
  have hall : ∀ a ∈ ys.filter p, p a = true := fun a ha => (List.mem_filter.1 ha).2
  cases hys : ys.filter p with
  | nil =>
    rw [hys] at hfilter
    rw [hfilter.eq_nil]
  | cons a rest =>
    rw [hys] at hfilter hnone hall
    cases rest with
    | nil => rw [List.perm_singleton.1 hfilter]
    | cons b rest =>
      have hab := (List.pairwise_cons.1 hnone).1 b List.mem_cons_self
      exact absurd ⟨hall a List.mem_cons_self, hall b (by simp)⟩ hab

/-- The row of a crate, if it occurs. -/
def row? (r : Report) (crate : Scalar) : Option CrateSize :=
  r.crates.find? fun c => c.name.same crate

/-- The row of a crate adds up its symbols, and spells its name like the first of them. -/
theorem row?_eq (r : Report) (crate : Scalar) :
    r.row? crate = (r.symbolsOf crate).head?.map fun s =>
      ⟨s.crate, totalSize (r.symbolsOf crate), (r.symbolsOf crate).length⟩ := by
  have hunique : (r.crateNames.map fun c =>
      (⟨c, totalSize (r.symbolsOf c), (r.symbolsOf c).length⟩ : CrateSize)).Pairwise
        fun a b => ¬ (a.name.same crate = true ∧ b.name.same crate = true) := by
    refine List.pairwise_map.2 ((pairwise_crateNames r).imp ?_)
    rintro a b hab ⟨ha, hb⟩
    rw [Scalar.same_comm] at hb
    rw [Scalar.same_trans ha hb] at hab
    cases hab
  have hsymbols : ∀ c : Scalar, c.same crate = true → r.symbolsOf c = r.symbolsOf crate := by
    intro c hc
    unfold symbolsOf
    congr 1
    funext s
    rw [Scalar.same_comm, Scalar.same_congr hc, Scalar.same_comm]
  unfold row?
  rw [find?_eq_of_perm (crates_perm r) hunique, List.find?_map]
  have hfound : r.crateNames.find? (fun c => c.same crate)
      = (r.symbolsOf crate).head?.map Symbol.crate := by
    unfold crateNames symbolsOf
    rw [Scalar.find?_distinct, List.head?_filter, List.find?_map]
    rfl
  change (r.crateNames.find? fun c => c.same crate).map _ = _
  rw [hfound, Option.map_map]
  cases hhead : (r.symbolsOf crate).head? with
  | none => rfl
  | some s =>
    have hs : s.crate.same crate = true := by
      have hmem := List.mem_of_head? hhead
      exact (List.mem_filter.1 hmem).2
    simp [hsymbols s.crate hs]

theorem exists_symbol_of_mem_crates {r : Report} {row : CrateSize} (h : row ∈ r.crates) :
    ∃ s ∈ r.symbols, s.crate = row.name := by
  rw [(crates_perm r).mem_iff] at h
  obtain ⟨c, hc, rfl⟩ := List.mem_map.1 h
  exact List.mem_map.1 (Scalar.distinct_subset _ hc)

section Selected

variable {selects : Scalar → Bool}

/-- Rows that are selected by name are those of the selected names. -/
theorem filter_crates_perm (r : Report) :
    (r.crates.filter fun c => selects c.name).Perm ((r.crateNames.filter selects).map fun c =>
      ⟨c, totalSize (r.symbolsOf c), (r.symbolsOf c).length⟩) := by
  have h := (crates_perm r).filter fun c => selects c.name
  rw [List.filter_map] at h
  exact h

variable (hcongr : ∀ a b : Scalar, a.same b = true → selects a = selects b)

include hcongr

/-- What is added up over selected crates is what is added up over their symbols. -/
theorem sum_selected {M : Type} [AddCommMonoid M] (r : Report) (f : Symbol → M) :
    ((r.crateNames.filter selects).map fun c => ((r.symbolsOf c).map f).sum).sum
      = ((r.symbols.filter fun s => selects s.crate).map f).sum := by
  have hnames : (r.crateNames.filter selects).Pairwise fun a b => a.same b = false :=
    (pairwise_crateNames r).filter _
  have hfound : ∀ s ∈ r.symbols.filter fun s => selects s.crate,
      ∃ c ∈ r.crateNames.filter selects, s.crate.same c = true := by
    intro s hs
    obtain ⟨hs, hselected⟩ := List.mem_filter.1 hs
    obtain ⟨c, hc, hsame⟩ := exists_crateName hs
    rw [hcongr _ _ hsame] at hselected
    exact ⟨c, List.mem_filter.2 ⟨hc, hselected⟩, hsame⟩
  rw [← Scalar.sum_groups Symbol.crate f hnames hfound]
  refine congrArg List.sum (List.map_congr_left fun c hc => ?_)
  have hselected := (List.mem_filter.1 hc).2
  unfold symbolsOf
  rw [List.filter_filter]
  refine congrArg (fun symbols => (symbols.map f).sum) (List.filter_congr fun s _ => ?_)
  by_cases hsame : s.crate.same c = true
  · rw [hsame, hcongr _ _ hsame, hselected]
    rfl
  · rw [Bool.not_eq_true] at hsame
    rw [hsame]
    rfl

theorem sum_selected_size (r : Report) :
    ((r.crates.filter fun c => selects c.name).map CrateSize.size).sum
      = totalSize (r.symbols.filter fun s => selects s.crate) := by
  rw [((filter_crates_perm r).map CrateSize.size).sum_eq, List.map_map]
  exact sum_selected hcongr r Symbol.size

theorem sum_selected_symbolCount (r : Report) :
    ((r.crates.filter fun c => selects c.name).map CrateSize.symbolCount).sum
      = (r.symbols.filter fun s => selects s.crate).length := by
  have hcount : ∀ symbols : List Symbol, (symbols.map fun _ => 1).sum = symbols.length := by simp
  rw [((filter_crates_perm r).map CrateSize.symbolCount).sum_eq, List.map_map, ← hcount,
    ← sum_selected hcongr r fun _ => 1]
  exact congrArg List.sum (List.map_congr_left fun c _ => (hcount (r.symbolsOf c)).symm)

/-- A name selects a row if and only if it selects a symbol. -/
theorem selected_eq_nil_iff (r : Report) :
    (r.crates.filter fun c => selects c.name) = [] ↔
      (r.symbols.filter fun s => selects s.crate) = [] := by
  rw [List.filter_eq_nil_iff, List.filter_eq_nil_iff]
  constructor
  · intro h s hs hselected
    obtain ⟨c, hc, hsame⟩ := exists_crateName hs
    have hrow := List.mem_map_of_mem (f := fun c =>
      (⟨c, totalSize (r.symbolsOf c), (r.symbolsOf c).length⟩ : CrateSize)) hc
    rw [← (crates_perm r).mem_iff] at hrow
    rw [hcongr _ _ hsame] at hselected
    exact h _ hrow hselected
  · intro h row hrow hselected
    obtain ⟨s, hs, hname⟩ := exists_symbol_of_mem_crates hrow
    rw [← hname] at hselected
    exact h s hs hselected

end Selected

/-! ## Ranking -/

theorem holdsBetweenNeighbours_of_forall {α : Type} {holds : α → α → Bool} {xs : List α}
    (h : ∀ a ∈ xs, ∀ b ∈ xs, holds a b = true) : holdsBetweenNeighbours holds xs = true := by
  induction xs with
  | nil => rfl
  | cons a rest ih =>
    cases rest with
    | nil => rfl
    | cons b rest =>
      have hrest := ih fun x hx y hy => h x (.tail _ hx) y (.tail _ hy)
      unfold holdsBetweenNeighbours
      rw [h a List.mem_cons_self b (by simp), hrest]
      rfl

/-- Crates that are named by texts can be ranked. -/
theorem ranked_eq_ok {r : Report} (h : ∀ s ∈ r.symbols, ∃ t, s.crate = .text t) :
    r.ranked = .ok r := by
  have hnames : ∀ row ∈ r.crates, ∃ t, row.name = .text t := by
    intro row hrow
    obtain ⟨s, hs, hname⟩ := exists_symbol_of_mem_crates hrow
    rw [← hname]
    exact h s hs
  unfold ranked
  rw [if_pos]
  apply holdsBetweenNeighbours_of_forall
  intro a ha b hb
  obtain ⟨s, hs⟩ := hnames a ha
  obtain ⟨t, ht⟩ := hnames b hb
  rw [hs, ht, Scalar.comparable_text, Bool.or_true]

/-! ## Names that are texts -/

/-- The symbols and the crates of a report are named by texts, as an analysis names them. -/
structure IsNamed (r : Report) : Prop where
  names : ∀ s ∈ r.symbols, ∃ t, s.name = .text t
  crates : ∀ s ∈ r.symbols, ∃ t, s.crate = .text t

/-- A crate has a row if and only if it has a symbol. -/
theorem text_mem_crates_iff {r : Report} {t : Text} :
    .text t ∈ r.crates.map CrateSize.name ↔ ∃ s ∈ r.symbols, s.crate = .text t := by
  constructor
  · intro h
    obtain ⟨row, hrow, hname⟩ := List.mem_map.1 h
    obtain ⟨s, hs, hcrate⟩ := exists_symbol_of_mem_crates hrow
    exact ⟨s, hs, hcrate.trans hname⟩
  · rintro ⟨s, hs, hcrate⟩
    obtain ⟨c, hc, hsame⟩ := exists_crateName hs
    rw [hcrate, Scalar.same_comm, Scalar.same_text_iff] at hsame
    rw [hsame] at hc
    rw [((crates_perm r).map CrateSize.name).mem_iff, List.map_map]
    exact List.mem_map.2 ⟨_, hc, rfl⟩

end CrateLedger.Report
