import CrateLedger.Proofs.Build.Context
import CrateLedger.Proofs.Folder.Path

/-!
# Contexts are loaded as they were saved

A context is saved as a snapshot, in which everything is sorted whose order does not matter. If its
crates are named by texts and it is valid, the snapshot is loaded as the same context. Nothing is
refused then that had been accepted: what construction takes away or checks it does not find a
second time.
-/

namespace CrateLedger

/-- An artifact as it is made: its path is put in normal form, and no object in its name and kind
has a key twice. -/
structure Artifact.IsProper (a : Artifact) : Prop where
  path : ∃ t, a.path = Path.normalise t
  name : a.name.HasDistinctKeys
  kind : a.kind.HasDistinctKeys

namespace BuildContext

/-! ## Validity -/

/-- Whether a context can be used to attribute symbols. -/
structure IsValid (c : BuildContext) : Prop where
  target : ∃ t, c.targetTriple = .text t ∧ t ≠ []
  named : ∀ s ∈ c.symbols, s.1.isTrue = true ∧ s.2.all isName = true
  /-- Every crate that contributes symbols is declared, if the project declares any dependencies. -/
  declared : c.depCrates ≠ [] → ∀ s ∈ c.symbols, s.1.isIn (c.depCrates ++ c.stdCrates) = true

theorem checkSymbols_eq_ok {symbols : List (Scalar × List Scalar)} :
    checkSymbols symbols = .ok () ↔ ∀ s ∈ symbols, s.1.isTrue = true ∧ s.2.all isName = true := by
  induction symbols with
  | nil => simp [checkSymbols]
  | cons s symbols ih =>
    obtain ⟨crate, listed⟩ := s
    rw [checkSymbols, List.forall_mem_cons, ← ih]
    cases hcrate : crate.isTrue
    · simp
    · cases hlisted : listed.all isName <;> simp

theorem rejecting_eq_ok {α : Type} {x : Except Rejection α} {a : α} :
    rejecting x = .ok a ↔ x = .ok a := by
  cases x <;> simp [rejecting]

theorem refuseUndeclared_eq_ok {crates : List Scalar} :
    refuseUndeclared crates = .ok () ↔ crates = [] := by
  unfold refuseUndeclared
  cases crates with
  | nil => simp
  | cons crate crates =>
    cases hnames : (crate :: crates).mapM Scalar.text? with
    | none => simp
    | some names =>
      cases names with
      | nil => simp [List.mapM_cons, Option.bind_eq_some_iff] at hnames
      | cons name names => simp

theorem undeclaredCrates_eq_nil {c : BuildContext} : c.undeclaredCrates = [] ↔
    ∀ s ∈ c.symbols, s.1.isIn (c.depCrates ++ c.stdCrates) = true := by
  have hperm := List.mergeSort_perm ((c.symbols.map Prod.fst).filter fun crate =>
    !crate.isIn (c.depCrates ++ c.stdCrates)) Scalar.le
  rw [undeclaredCrates, ← List.length_eq_zero_iff, hperm.length_eq, List.length_eq_zero_iff,
    List.filter_eq_nil_iff, List.forall_mem_map]
  simp

/-- Validation accepts exactly the valid contexts. -/
theorem validate_eq_ok_iff {c : BuildContext} : c.validate = .ok () ↔ c.IsValid := by
  have hdeclared :
      (if c.depCrates ≠ [] then refuseUndeclared c.undeclaredCrates else pure ()) = .ok ()
        ↔ (c.depCrates ≠ [] → ∀ s ∈ c.symbols, s.1.isIn (c.depCrates ++ c.stdCrates) = true) := by
    split_ifs with hdeps
    · rw [refuseUndeclared_eq_ok, undeclaredCrates_eq_nil]
      exact ⟨fun h _ => h, fun h => h hdeps⟩
    · exact ⟨fun _ h => absurd h hdeps, fun _ => rfl⟩
  unfold validate
  cases htarget : c.targetTriple.text? with
  | none =>
    constructor
    · intro h
      cases h
    · rintro ⟨⟨t, ht, -⟩, -, -⟩
      rw [ht] at htarget
      cases htarget
  | some t =>
    cases t with
    | nil =>
      constructor
      · intro h
        cases h
      · rintro ⟨⟨t, ht, hne⟩, -, -⟩
        rw [ht] at htarget
        cases htarget
        exact absurd rfl hne
    | cons x t =>
      constructor
      · intro h
        obtain ⟨_, hsymbols, h⟩ := bind_eq_ok.1 h
        exact ⟨⟨x :: t, Value.text?_eq_some_iff.1 htarget, List.cons_ne_nil x t⟩,
          checkSymbols_eq_ok.1 (rejecting_eq_ok.1 hsymbols), hdeclared.1 h⟩
      · rintro ⟨-, hnamed, hdecl⟩
        exact bind_eq_ok.2 ⟨(), rejecting_eq_ok.2 (checkSymbols_eq_ok.2 hnamed), hdeclared.2 hdecl⟩

/-! ## Contexts of texts -/

/-- The names in a context are texts, and each stands there once. -/
structure IsTextual (c : BuildContext) : Prop where
  stdCrates : ∀ s ∈ c.stdCrates, ∃ t, s = .text t
  crates : ∀ s ∈ c.symbols, ∃ t, s.1 = .text t
  listed : ∀ s ∈ c.symbols, ∀ name ∈ s.2, ∃ t, name = .text t
  stdApart : c.stdCrates.Pairwise fun a b => a.same b = false
  cratesApart : c.symbols.Pairwise fun a b => a.1.same b.1 = false
  listedApart : ∀ s ∈ c.symbols, s.2.Pairwise fun a b => a.same b = false
  /-- No crate that the project depends on is part of the standard library. -/
  shadowed : ∀ s, s.isIn c.depCrates = true → c.isStd s = false

theorem scalars_scalars (ss : List Scalar) : scalars (ss.map Value.scalar) = ss := by
  unfold scalars
  rw [List.filterMap_map]
  exact List.filterMap_some

theorem isSome_scalar?_of_scalars (ss : List Scalar) :
    ∀ v ∈ ss.map Value.scalar, v.scalar?.isSome := by
  intro v hv
  obtain ⟨s, -, rfl⟩ := List.mem_map.1 hv
  rfl

theorem scalars_texts (ts : List Text) : scalars (ts.map .text) = ts.map .text := by
  have hscalars := scalars_scalars (ts.map Scalar.text)
  rwa [List.map_map] at hscalars

/-- A context can be made of texts, whatever they are. -/
theorem exists_make (targetTriple : Value) (std deps : List Text)
    (symbols : List (Text × List Text)) (artifacts : List Artifact) :
    ∃ c, make targetTriple (std.map .text) (deps.map .text)
      (symbols.map fun s => (.text s.1, s.2.map .text)) artifacts = .ok c := by
  have hsome : ∀ ts : List Text, ∀ v ∈ ts.map Value.text, v.scalar?.isSome := by
    intro ts v hv
    obtain ⟨t, -, rfl⟩ := List.mem_map.1 hv
    rfl
  refine ⟨_, make_eq_ok.2 ⟨hsome std, hsome deps, ?_, ?_, ⟨_, sorted_eq_ok ?_⟩, rfl⟩⟩
  · rw [List.forall_mem_map]
    exact fun s _ => hsome s.2
  · rw [List.any_eq_false]
    intro s hs
    have hmem := (List.mem_filter.1 hs).1
    rw [scalars_texts] at hmem
    obtain ⟨t, -, rfl⟩ := List.mem_map.1 hmem
    exact Bool.false_ne_true
  · rw [List.map_map, List.forall_mem_map]
    exact fun s _ => ⟨s.1, rfl⟩

/-- What is made of texts holds texts. -/
theorem isTextual_of_make {targetTriple : Value} {std deps : List Text}
    {symbols : List (Text × List Text)} {artifacts : List Artifact} {c : BuildContext}
    (hcrates : (symbols.map Prod.fst).Nodup)
    (h : make targetTriple (std.map .text) (deps.map .text)
      (symbols.map fun s => (.text s.1, s.2.map .text)) artifacts = .ok c) : c.IsTextual := by
  have hdistinct : ∀ ts : List Text, ∀ s ∈ Scalar.distinct (scalars (ts.map .text)),
      ∃ t, s = .text t := by
    intro ts s hs
    rw [scalars_texts] at hs
    obtain ⟨t, -, rfl⟩ := List.mem_map.1 (Scalar.distinct_subset _ hs)
    exact ⟨t, rfl⟩
  have hapart : symbols.Pairwise fun a b => (Scalar.text a.1).same (.text b.1) = false :=
    (List.pairwise_map.1 hcrates).imp fun hne => decide_eq_false hne
  have hshadowed : ∀ s, s.isIn c.depCrates = true → c.isStd s = false :=
    fun _ => isStd_eq_false_of_depends h
  obtain ⟨-, -, -, -, -, rfl⟩ := make_eq_ok.1 h
  refine ⟨fun s hs => hdistinct std s (List.mem_filter.1 hs).1, ?_, ?_,
    (Scalar.pairwise_distinct _).filter _, ?_, ?_, hshadowed⟩
  · intro s hs
    obtain ⟨_, hgiven, rfl⟩ := List.mem_map.1 hs
    obtain ⟨given, -, rfl⟩ := List.mem_map.1 hgiven
    exact ⟨given.1, rfl⟩
  · intro s hs
    obtain ⟨_, hgiven, rfl⟩ := List.mem_map.1 hs
    obtain ⟨given, -, rfl⟩ := List.mem_map.1 hgiven
    exact hdistinct given.2
  · rw [List.pairwise_map, List.pairwise_map]
    exact hapart
  · intro s hs
    obtain ⟨_, -, rfl⟩ := List.mem_map.1 hs
    exact Scalar.pairwise_distinct _

/-- A context is given by what it says; the ownership comes from its symbols. -/
theorem eq_of_says {c d : BuildContext} (htarget : c.targetTriple = d.targetTriple)
    (hstd : c.stdCrates = d.stdCrates) (hdeps : c.depCrates = d.depCrates)
    (hsymbols : c.symbols = d.symbols) (hartifacts : c.artifacts = d.artifacts) : c = d := by
  obtain ⟨_, _, _, _, _, _, rfl⟩ := c
  obtain ⟨_, _, _, _, _, _, hownership⟩ := d
  cases htarget
  cases hstd
  cases hdeps
  cases hsymbols
  cases hartifacts
  cases hownership
  rfl

theorem shadowed_of_mem {c : BuildContext} (h : c.IsTextual) :
    ∀ s ∈ c.stdCrates, s.isIn c.depCrates = false := by
  intro s hs
  by_contra hdepends
  have hstd : c.isStd s = true := List.any_eq_true.2 ⟨s, hs, Scalar.same_refl s⟩
  rw [Bool.not_eq_false] at hdepends
  rw [h.shadowed s hdepends] at hstd
  cases hstd

/-- A context is made again of what it holds. -/
theorem make_self {c : BuildContext} (h : c.IsTextual) :
    make c.targetTriple (c.stdCrates.map .scalar) (c.depCrates.map .scalar)
      (c.symbols.map fun s => (s.1, s.2.map .scalar)) c.artifacts = .ok c := by
  have hstd : (Scalar.distinct (scalars (c.stdCrates.map .scalar))).filter
      (fun s => !s.isIn (scalars (c.depCrates.map .scalar))) = c.stdCrates := by
    rw [scalars_scalars, scalars_scalars, Scalar.distinct_eq_self h.stdApart, List.filter_eq_self]
    intro s hs
    rw [shadowed_of_mem h s hs]
    rfl
  have hsymbols : (c.symbols.map fun s => (s.1, s.2.map Value.scalar)).map kept = c.symbols := by
    rw [List.map_map]
    refine (List.map_congr_left fun s hs => ?_).trans (List.map_id _)
    show (s.1, Scalar.distinct (scalars (s.2.map .scalar))) = s
    rw [scalars_scalars, Scalar.distinct_eq_self (h.listedApart s hs)]
  have hnone : (c.stdCrates.filter fun s => s.isIn c.depCrates) = [] := by
    rw [List.filter_eq_nil_iff]
    intro s hs
    rw [shadowed_of_mem h s hs]
    exact Bool.false_ne_true
  have horder : ∃ order, sorted ((c.symbols.map fun s => (s.1, s.2.map Value.scalar)).map Prod.fst)
      = .ok order := by
    refine ⟨_, sorted_eq_ok ?_⟩
    rw [List.map_map, List.forall_mem_map]
    exact h.crates
  refine make_eq_ok.2 ⟨isSome_scalar?_of_scalars _, isSome_scalar?_of_scalars _, ?_, ?_, horder, ?_⟩
  · intro s hs
    obtain ⟨_, -, rfl⟩ := List.mem_map.1 hs
    exact isSome_scalar?_of_scalars _
  · rw [scalars_scalars, scalars_scalars, hnone]
    rfl
  · exact eq_of_says rfl hstd.symm (scalars_scalars _).symm hsymbols.symm rfl

/-! ## Loading -/

/-- The snapshot of a context as it stands. -/
def snapshot (c : BuildContext) : Value :=
  .record [("target_triple", c.targetTriple), ("std_crates", .list (c.stdCrates.map Value.scalar)),
    ("dep_crates", .list (c.depCrates.map Value.scalar)),
    ("deps_symbols", .object (c.symbols.map fun s => (s.1, .list (s.2.map Value.scalar)))),
    ("artifacts", .list (c.artifacts.map artifactValue))]

theorem artifactOf_artifactValue {a : Artifact} (h : a.IsProper) :
    artifactOf (artifactValue a) = .ok a := by
  obtain ⟨t, ht⟩ := h.path
  show Except.ok (⟨a.name, a.kind, Path.normalise a.path⟩ : Artifact) = .ok a
  rw [ht, Path.normalise_normalise, ← ht]

theorem elementsOf_list (vs : List Value) : elementsOf (some (.list vs)) = .ok vs := by
  cases vs <;> rfl

theorem symbolFields_object (fields : Fields) :
    symbolFields (some (.object fields)) = .ok fields := by
  cases fields <;> rfl

/-- A valid context is loaded from its snapshot. -/
theorem ofValue_snapshot {c : BuildContext} (h : c.IsTextual)
    (hproper : ∀ a ∈ c.artifacts, a.IsProper) (hvalid : c.validate = .ok ()) :
    ofValue c.snapshot = .ok c := by
  have hartifacts : (c.artifacts.map artifactValue).mapM artifactOf = .ok c.artifacts := by
    rw [mapM_eq_ok, List.forall₂_map_left_iff]
    exact List.forall₂_same.2 fun a ha => artifactOf_artifactValue (hproper a ha)
  have hsymbols : (c.symbols.map fun s => (s.1, Value.list (s.2.map Value.scalar))).mapM
      (fun s => do return (s.1, ← elementsOf (some s.2)) :
        Scalar × Value → Except Error (Scalar × List Value))
      = .ok (c.symbols.map fun s => (s.1, s.2.map Value.scalar)) := by
    rw [mapM_eq_ok, List.forall₂_map_left_iff, List.forall₂_map_right_iff]
    exact List.forall₂_same.2 fun s _ => bind_eq_ok.2 ⟨_, elementsOf_list _, rfl⟩
  refine bind_eq_ok.2 ⟨_, rejecting_eq_ok.2 (symbolFields_object _), ?_⟩
  refine bind_eq_ok.2 ⟨_, elementsOf_list _, bind_eq_ok.2 ⟨_, rejecting_eq_ok.2 hartifacts, ?_⟩⟩
  refine bind_eq_ok.2 ⟨_, elementsOf_list _, bind_eq_ok.2 ⟨_, elementsOf_list _, ?_⟩⟩
  refine bind_eq_ok.2 ⟨_, hsymbols, bind_eq_ok.2 ⟨c, make_self h, ?_⟩⟩
  exact bind_eq_ok.2 ⟨(), hvalid, rfl⟩

/-! ## Saving -/

/-- A context with everything sorted whose order does not matter. -/
def arranged (c : BuildContext) : BuildContext where
  targetTriple := c.targetTriple
  stdCrates := c.stdCrates.mergeSort Scalar.le
  depCrates := c.depCrates
  symbols := (Ownership.inOrder c.symbols).map fun s => (s.1, s.2.mergeSort Scalar.le)
  artifacts := c.artifacts

/-- What is saved is the snapshot of the context with everything sorted. -/
theorem toValue_eq {c : BuildContext} (h : c.IsTextual) : c.toValue = .ok c.arranged.snapshot := by
  have hsymbols : (Ownership.inOrder c.symbols).mapM
      (fun s => do return (s.1, Value.list ((← sorted s.2).map Value.scalar)) :
        Scalar × List Scalar → Except Error (Scalar × Value))
      = .ok (c.arranged.symbols.map fun s => (s.1, .list (s.2.map Value.scalar))) := by
    rw [mapM_eq_ok, List.forall₂_map_right_iff, arranged, List.forall₂_map_right_iff]
    refine List.forall₂_same.2 fun s hs => bind_eq_ok.2 ⟨_, sorted_eq_ok ?_, rfl⟩
    exact h.listed s (List.mem_mergeSort.1 hs)
  exact bind_eq_ok.2 ⟨_, sorted_eq_ok h.stdCrates, bind_eq_ok.2 ⟨_, hsymbols, rfl⟩⟩

/-- Each crate contributes the same symbols after sorting. -/
theorem exists_mem_arranged {c : BuildContext} {s : Scalar × List Scalar} (hs : s ∈ c.symbols) :
    ∃ t ∈ c.arranged.symbols, t.1 = s.1 ∧ t.2.Perm s.2 :=
  ⟨_, List.mem_map_of_mem (List.mem_mergeSort.2 hs), rfl, List.mergeSort_perm _ _⟩

theorem exists_of_mem_arranged {c : BuildContext} {t : Scalar × List Scalar}
    (ht : t ∈ c.arranged.symbols) : ∃ s ∈ c.symbols, t.1 = s.1 ∧ t.2.Perm s.2 := by
  obtain ⟨s, hs, rfl⟩ := List.mem_map.1 ht
  exact ⟨s, List.mem_mergeSort.1 hs, rfl, List.mergeSort_perm _ _⟩

/-- The same crates are part of the standard library. -/
theorem isStd_arranged (c : BuildContext) (crate : Scalar) :
    c.arranged.isStd crate = c.isStd crate :=
  Scalar.isIn_perm (List.mergeSort_perm _ _) crate

theorem isTextual_arranged {c : BuildContext} (h : c.IsTextual) : c.arranged.IsTextual := by
  have hsymmetric : ∀ {a b : Scalar}, a.same b = false → b.same a = false := by
    intro a b hab
    rwa [Scalar.same_comm]
  have hstd : c.arranged.stdCrates.Perm c.stdCrates := List.mergeSort_perm _ _
  have hsymbols : (Ownership.inOrder c.symbols).Perm c.symbols := List.mergeSort_perm _ _
  refine ⟨fun s hs => h.stdCrates s (hstd.mem_iff.1 hs), fun t ht => ?_, fun t ht name hname => ?_,
    (hstd.pairwise_iff hsymmetric).2 h.stdApart, ?_, fun t ht => ?_,
    fun s hs => (isStd_arranged c s).trans (h.shadowed s hs)⟩
  · obtain ⟨s, hs, hcrate, -⟩ := exists_of_mem_arranged ht
    rw [hcrate]
    exact h.crates s hs
  · obtain ⟨s, hs, -, hlisted⟩ := exists_of_mem_arranged ht
    exact h.listed s hs name (hlisted.mem_iff.1 hname)
  · exact List.pairwise_map.2 ((hsymbols.pairwise_iff hsymmetric).2 h.cratesApart)
  · obtain ⟨s, hs, -, hlisted⟩ := exists_of_mem_arranged ht
    exact (hlisted.pairwise_iff hsymmetric).2 (h.listedApart s hs)

/-- Sorting keeps a context valid. -/
theorem isValid_arranged {c : BuildContext} (h : c.IsValid) : c.arranged.IsValid := by
  have hdeclared : (c.arranged.depCrates ++ c.arranged.stdCrates).Perm
      (c.depCrates ++ c.stdCrates) :=
    (List.mergeSort_perm c.stdCrates Scalar.le).append_left c.depCrates
  refine ⟨h.target, fun t ht => ?_, fun hdeps t ht => ?_⟩
  · obtain ⟨s, hs, hcrate, hlisted⟩ := exists_of_mem_arranged ht
    rw [hcrate, hlisted.all_eq]
    exact h.named s hs
  · obtain ⟨s, hs, hcrate, -⟩ := exists_of_mem_arranged ht
    rw [hcrate, Scalar.isIn_perm hdeclared]
    exact h.declared hdeps s hs

/-! ## Nothing is lost -/

theorem sameElements_of_perm {as bs : List Scalar} (h : as.Perm bs) :
    sameElements as bs = true := by
  rw [sameElements, Bool.and_eq_true, List.all_eq_true, List.all_eq_true]
  exact ⟨fun a ha => List.any_eq_true.2 ⟨a, h.mem_iff.1 ha, Scalar.same_refl a⟩,
    fun b hb => List.any_eq_true.2 ⟨b, h.mem_iff.2 hb, Scalar.same_refl b⟩⟩

/-- Crates contribute the same symbols if each is found among others with the same symbols. -/
theorem sameSymbols_of_perm {as bs : List (Scalar × List Scalar)}
    (hapart : bs.Pairwise fun a b => a.1.same b.1 = false)
    (h : ∀ a ∈ as, ∃ b ∈ bs, b.1 = a.1 ∧ b.2.Perm a.2) : sameSymbols as bs = true := by
  rw [sameSymbols, List.all_eq_true]
  intro a ha
  obtain ⟨b, hb, hcrate, hlisted⟩ := h a ha
  have hfound := Scalar.find?_key hapart hb
  rw [hcrate] at hfound
  simp only [hfound]
  exact sameElements_of_perm hlisted.symm

theorem sameArtifact_refl {a : Artifact} (h : a.IsProper) : sameArtifact a a = true := by
  show (a.name.same a.name && a.kind.same a.kind && decide (a.path = a.path)) = true
  rw [Value.same_refl h.name, Value.same_refl h.kind, decide_eq_true rfl]
  rfl

/-- A context with everything sorted says the same. -/
theorem arranged_same {c : BuildContext} (h : c.IsTextual) (hvalid : c.IsValid)
    (hartifacts : ∀ a ∈ c.artifacts, a.IsProper) : c.arranged.same c = true := by
  have htarget : c.targetTriple.same c.targetTriple = true := by
    obtain ⟨t, ht, -⟩ := hvalid.target
    rw [ht]
    exact Value.same_refl trivial
  have hstd : sameElements c.arranged.stdCrates c.stdCrates = true :=
    sameElements_of_perm (List.mergeSort_perm _ _)
  have hdeps := Value.sameItems_refl (Value.itemsHaveDistinctKeys_scalars c.depCrates)
  have hforth : sameSymbols c.arranged.symbols c.symbols = true := by
    refine sameSymbols_of_perm h.cratesApart fun t ht => ?_
    obtain ⟨s, hs, hcrate, hlisted⟩ := exists_of_mem_arranged ht
    exact ⟨s, hs, hcrate.symm, hlisted.symm⟩
  have hback : sameSymbols c.symbols c.arranged.symbols = true :=
    sameSymbols_of_perm (isTextual_arranged h).cratesApart fun s hs => exists_mem_arranged hs
  have hlength : decide (c.artifacts.length = c.artifacts.length) = true := decide_eq_true rfl
  have hzip : (c.artifacts.zip c.artifacts).all (fun p => sameArtifact p.1 p.2) = true := by
    have hpaired : (c.artifacts.map id).zip (c.artifacts.map id)
        = c.artifacts.map fun a => (a, a) := List.zip_map'
    rw [List.map_id] at hpaired
    rw [hpaired, List.all_map, List.all_eq_true]
    exact fun a ha => sameArtifact_refl (hartifacts a ha)
  show (c.targetTriple.same c.targetTriple && sameElements c.arranged.stdCrates c.stdCrates
    && Value.sameItems (c.depCrates.map Value.scalar) (c.depCrates.map Value.scalar)
    && sameSymbols c.arranged.symbols c.symbols && sameSymbols c.symbols c.arranged.symbols
    && (decide (c.artifacts.length = c.artifacts.length)
      && (c.artifacts.zip c.artifacts).all fun p => sameArtifact p.1 p.2)) = true
  rw [htarget, hstd, hdeps, hforth, hback, hlength, hzip]
  rfl

/-- Crates that are in order already stay where they are. -/
theorem inOrder_arranged {c : BuildContext} (h : c.IsTextual) :
    Ownership.inOrder c.arranged.symbols = c.arranged.symbols := by
  have hascending : (Ownership.inOrder c.symbols).Pairwise fun a b => a.1.le b.1 = true := by
    refine pairwise_mergeSort_of_forall h.crates ?_ ?_
    · intro a b d ⟨s, hs⟩ ⟨t, ht⟩ ⟨u, hu⟩ hab hbd
      rw [hs, ht, Scalar.le_text, decide_eq_true_eq] at hab
      rw [ht, hu, Scalar.le_text, decide_eq_true_eq] at hbd
      rw [hs, hu, Scalar.le_text]
      exact decide_eq_true (le_trans hab hbd)
    · intro a b ⟨s, hs⟩ ⟨t, ht⟩
      rw [hs, ht, Scalar.le_text, Scalar.le_text, Bool.or_eq_true, decide_eq_true_eq,
        decide_eq_true_eq]
      exact le_total s t
  exact List.mergeSort_of_pairwise (List.pairwise_map.2 hascending)

/-- The owners of a symbol do not change. -/
theorem owners_arranged {c : BuildContext} (h : c.IsTextual) (symbol : Text) :
    c.arranged.owners symbol = c.owners symbol := by
  have hlists : ∀ s : Scalar × List Scalar,
      (Scalar.text symbol).isIn (s.2.mergeSort Scalar.le) = (Scalar.text symbol).isIn s.2 :=
    fun s => Scalar.isIn_perm (List.mergeSort_perm _ _) _
  rw [owners, owners, ownership_eq, ownership_eq,
    Ownership.owners_ofSymbols (isTextual_arranged h).listedApart,
    Ownership.owners_ofSymbols h.listedApart, inOrder_arranged h, arranged, List.filter_map,
    List.map_map]
  simp only [Function.comp_def, hlists]

theorem symbolCount_arranged (c : BuildContext) : c.arranged.symbolCount = c.symbolCount := by
  have hmem : ∀ key, (key ∈ c.arranged.symbols.flatMap fun s => s.2.map Scalar.key)
      ↔ key ∈ c.symbols.flatMap fun s => s.2.map Scalar.key := by
    intro key
    simp only [List.mem_flatMap, List.mem_map]
    constructor
    · rintro ⟨t, ht, name, hname, hkey⟩
      obtain ⟨s, hs, -, hlisted⟩ := exists_of_mem_arranged ht
      exact ⟨s, hs, name, hlisted.mem_iff.1 hname, hkey⟩
    · rintro ⟨s, hs, name, hname, hkey⟩
      obtain ⟨t, ht, -, hlisted⟩ := exists_mem_arranged hs
      exact ⟨t, ht, name, hlisted.mem_iff.2 hname, hkey⟩
  rw [symbolCount, symbolCount, ownership_eq, ownership_eq, Ownership.length_numbers_ofSymbols,
    Ownership.length_numbers_ofSymbols]
  congr 1
  ext key
  rw [List.mem_toFinset, List.mem_toFinset]
  exact hmem key

/-! ## Saving and loading -/

/-- **A context that is saved and loaded.** A context is made of any texts, and no crate that the
project depends on is part of its standard library. If the context is valid, it is saved, and loaded
as one that says the same, gives the same answers and is valid itself. -/
theorem saved_loads (targetTriple : Value) (std deps : List Text)
    {symbols : List (Text × List Text)} {artifacts : List Artifact}
    (hcrates : (symbols.map Prod.fst).Nodup) (hartifacts : ∀ a ∈ artifacts, a.IsProper) :
    ∃ c, make targetTriple (std.map .text) (deps.map .text)
        (symbols.map fun s => (.text s.1, s.2.map .text)) artifacts = .ok c ∧
      (∀ crate, crate.isIn c.depCrates = true → c.isStd crate = false) ∧
      (c.validate = .ok () → ∃ saved loaded, c.toValue = .ok saved ∧ ofValue saved = .ok loaded ∧
        loaded.same c = true ∧
        (∀ symbol, loaded.owners symbol = c.owners symbol) ∧
        (∀ crate, loaded.isStd crate = c.isStd crate) ∧
        loaded.symbolCount = c.symbolCount ∧
        loaded.stdCrates.Perm c.stdCrates ∧
        (∀ crate, crate.isIn loaded.depCrates = true → loaded.isStd crate = false) ∧
        loaded.validate = .ok ()) := by
  obtain ⟨c, hmake⟩ := exists_make targetTriple std deps symbols artifacts
  have htextual := isTextual_of_make hcrates hmake
  have harranged := isTextual_arranged htextual
  have hproper : ∀ a ∈ c.artifacts, a.IsProper := by
    obtain ⟨-, -, -, -, -, rfl⟩ := make_eq_ok.1 hmake
    exact hartifacts
  refine ⟨c, hmake, htextual.shadowed, fun hvalid => ?_⟩
  have hisValid := validate_eq_ok_iff.1 hvalid
  have hloaded : c.arranged.validate = .ok () := validate_eq_ok_iff.2 (isValid_arranged hisValid)
  exact ⟨c.arranged.snapshot, c.arranged, toValue_eq htextual,
    ofValue_snapshot harranged hproper hloaded, arranged_same htextual hisValid hproper,
    owners_arranged htextual, isStd_arranged c, symbolCount_arranged c, List.mergeSort_perm _ _,
    harranged.shadowed, hloaded⟩

/-- What the crates of a build contribute: one of them nothing, another the same symbol twice. -/
def shadowingSymbols : List (Text × List Text) :=
  [("serde", ["write", "read", "write"]), ("app", []), ("core", ["read"])]

/-- The context of that build, which lists `serde` under its standard library and depends on it. -/
def shadowingContext : BuildContext :=
  ⟨.text "x86_64-unknown-linux-gnu", [.text "std", .text "core"],
    [.text "serde", .text "app", .text "serde"],
    [(.text "serde", [.text "write", .text "read"]), (.text "app", []),
      (.text "core", [.text "read"])],
    [⟨.text "app", .text "bin", "target/app"⟩], _, rfl⟩

theorem shadowingContext_loads : shadowingContext.validate = .ok () ∧
    ∃ saved loaded, shadowingContext.toValue = .ok saved ∧ ofValue saved = .ok loaded ∧
      loaded.same shadowingContext = true ∧ loaded.validate = .ok () ∧
      loaded.owners "read" = [.text "core", .text "serde"] ∧
      loaded.isStd (.text "serde") = false ∧ loaded.symbolCount = 2 := by
  have hmake : make (.text "x86_64-unknown-linux-gnu")
      ((["std", "serde", "core", "std"] : List Text).map .text)
      ((["serde", "app", "serde"] : List Text).map .text)
      (shadowingSymbols.map fun s => (.text s.1, s.2.map .text))
      [⟨.text "app", .text "bin", "target/app"⟩] = .ok shadowingContext := rfl
  have hartifacts : ∀ a ∈ [(⟨.text "app", .text "bin", "target/app"⟩ : Artifact)], a.IsProper := by
    intro a ha
    obtain rfl := List.mem_singleton.1 ha
    exact ⟨⟨"./target//app", by decide⟩, trivial, trivial⟩
  have hvalid : shadowingContext.validate = .ok () :=
    validate_eq_ok_iff.2 ⟨⟨_, rfl, by decide⟩, by decide, fun _ => by decide⟩
  have howners : shadowingContext.owners "read" = [.text "core", .text "serde"] := by cbv
  have hcount : shadowingContext.symbolCount = 2 := by cbv
  have hcrates : (shadowingSymbols.map Prod.fst).Nodup := by decide
  obtain ⟨c, hc, -, hloads⟩ := saved_loads (.text "x86_64-unknown-linux-gnu")
    ["std", "serde", "core", "std"] ["serde", "app", "serde"] hcrates hartifacts
  obtain rfl : shadowingContext = c := Except.ok.inj (hmake.symm.trans hc)
  obtain ⟨saved, loaded, hsaved, hloaded, hsame, hread, hstd, hnumber, -, -, hagain⟩ :=
    hloads hvalid
  exact ⟨hvalid, saved, loaded, hsaved, hloaded, hsame, hagain, (hread _).trans howners,
    (hstd _).trans (by decide), hnumber.trans hcount⟩

end BuildContext

end CrateLedger
