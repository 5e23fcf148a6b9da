import CrateLedger.Build.Context
import CrateLedger.Proofs.Build.Ownership
import CrateLedger.Proofs.Checked

/-!
# What a context that is made holds

A context can be made if all that should be names are scalars, if those that are listed under the
standard library although the project depends on them are texts, and if the crates that contribute
symbols have an order. Then it holds the other crates of the standard library and, for each crate,
the symbols that are listed, each once.

From this follow the answers that a context gives: which crates contribute a symbol, how many
symbols are contributed, and which crates are part of the standard library.
-/

namespace CrateLedger.BuildContext

section Make

variable {targetTriple : Value} {std deps : List Value} {symbols : List (Scalar × List Value)}
  {artifacts : List Artifact} {context : BuildContext}

/-- The scalars among documents. -/
def scalars (vs : List Value) : List Scalar := vs.filterMap Value.scalar?

theorem scalar_mem_scalars_iff {vs : List Value} {s : Scalar} :
    s ∈ scalars vs ↔ Value.scalar s ∈ vs := by
  rw [scalars, List.mem_filterMap]
  constructor
  · rintro ⟨v, hv, hscalar⟩
    cases v with
    | scalar t => rwa [← Option.some.inj hscalar]
    | list items => cases hscalar
    | object fields => cases hscalar
  · exact fun h => ⟨_, h, rfl⟩

theorem mapM_scalar?_eq_some {vs : List Value} {ss : List Scalar} :
    vs.mapM Value.scalar? = some ss ↔ (∀ v ∈ vs, v.scalar?.isSome) ∧ ss = scalars vs := by
  induction vs generalizing ss with
  | nil => cases ss <;> simp [scalars]
  | cons v vs ih =>
    have hstep : (v :: vs).mapM Value.scalar? = some ss ↔
        ∃ s rest, v.scalar? = some s ∧ vs.mapM Value.scalar? = some rest ∧ s :: rest = ss := by
      simp [Option.bind_eq_some_iff]
    rw [hstep, List.forall_mem_cons, scalars, List.filterMap_cons]
    cases v.scalar? with
    | none => simp
    | some s => simp [ih, scalars, eq_comm (a := ss)]

/-- Documents are names if all of them are scalars. -/
theorem names_eq_ok {vs : List Value} {ss : List Scalar} :
    names vs = .ok ss ↔ (∀ v ∈ vs, v.scalar?.isSome) ∧ ss = scalars vs := by
  rw [← mapM_scalar?_eq_some, names]
  split <;> simp_all

/-- What a context keeps of the symbols of a crate: each once. -/
def kept (symbols : Scalar × List Value) : Scalar × List Scalar :=
  (symbols.1, Scalar.distinct (scalars symbols.2))

theorem mapM_names_eq_ok {keeping : List (Scalar × List Scalar)} :
    (symbols.mapM fun s => do return (s.1, Scalar.distinct (← names s.2)) :
      Except Error (List (Scalar × List Scalar))) = .ok keeping ↔
    (∀ s ∈ symbols, ∀ v ∈ s.2, v.scalar?.isSome) ∧ keeping = symbols.map kept := by
  have hkept : ∀ (s : Scalar × List Value) (k : Scalar × List Scalar),
      (do return (s.1, Scalar.distinct (← names s.2)) : Except Error (Scalar × List Scalar)) = .ok k
        ↔ (∀ v ∈ s.2, v.scalar?.isSome) ∧ kept s = k := by
    intro s k
    rw [bind_eq_ok]
    simp only [names_eq_ok, kept, pure, Except.pure, Except.ok.injEq, and_assoc,
      exists_and_left, exists_eq_left]
  exact mapM_eq_ok_map hkept

/-- When a context can be made, and what it then holds. -/
theorem make_eq_ok : make targetTriple std deps symbols artifacts = .ok context ↔
    (∀ v ∈ std, v.scalar?.isSome) ∧ (∀ v ∈ deps, v.scalar?.isSome) ∧
      (∀ s ∈ symbols, ∀ v ∈ s.2, v.scalar?.isSome) ∧
      (((scalars std).filter fun c => c.isIn (scalars deps)).any fun c => c.text?.isNone) = false ∧
      (∃ order, sorted (symbols.map Prod.fst) = .ok order) ∧
      context = ⟨targetTriple,
        (Scalar.distinct (scalars std)).filter fun c => !c.isIn (scalars deps), scalars deps,
        symbols.map kept, artifacts, _, rfl⟩ := by
  have hcrates : (symbols.map kept).map Prod.fst = symbols.map Prod.fst := by
    rw [List.map_map]
    rfl
  unfold make
  constructor
  · intro h
    obtain ⟨stdNames, hstdNames, h⟩ := bind_eq_ok.1 h
    obtain ⟨depNames, hdepNames, h⟩ := bind_eq_ok.1 h
    obtain ⟨hstd, rfl⟩ := names_eq_ok.1 hstdNames
    obtain ⟨hdeps, rfl⟩ := names_eq_ok.1 hdepNames
    split at h
    · cases h
    · next hshadowed =>
      obtain ⟨keeping, hkeeping, h⟩ := bind_eq_ok.1 h
      obtain ⟨order, horder, h⟩ := bind_eq_ok.1 h
      obtain ⟨hsymbols, rfl⟩ := mapM_names_eq_ok.1 hkeeping
      rw [hcrates] at horder
      exact ⟨hstd, hdeps, hsymbols, Bool.eq_false_of_not_eq_true hshadowed, ⟨order, horder⟩,
        (Except.ok.inj h).symm⟩
  · rintro ⟨hstd, hdeps, hsymbols, hshadowed, ⟨order, horder⟩, rfl⟩
    rw [← hcrates] at horder
    refine bind_eq_ok.2 ⟨_, names_eq_ok.2 ⟨hstd, rfl⟩,
      bind_eq_ok.2 ⟨_, names_eq_ok.2 ⟨hdeps, rfl⟩, ?_⟩⟩
    rw [if_neg (Bool.eq_false_iff.1 hshadowed)]
    exact bind_eq_ok.2 ⟨_, mapM_names_eq_ok.2 ⟨hsymbols, rfl⟩, bind_eq_ok.2 ⟨order, horder, rfl⟩⟩

/-- Which crates are part of the standard library does not depend on who contributes what. -/
theorem stdCrates_of_make (h : make targetTriple std deps symbols artifacts = .ok context) :
    context.stdCrates
      = (Scalar.distinct (scalars std)).filter fun c => !c.isIn (scalars deps) := by
  obtain ⟨-, -, -, -, -, rfl⟩ := make_eq_ok.1 h
  rfl

/-- A crate that the project depends on is not part of the standard library, also if the build lists
it there. -/
theorem isStd_eq_false_of_depends
    (h : make targetTriple std deps symbols artifacts = .ok context) {crate : Scalar}
    (hcrate : crate.isIn context.depCrates = true) : context.isStd crate = false := by
  obtain ⟨-, -, -, -, -, rfl⟩ := make_eq_ok.1 h
  by_contra hcontra
  rw [Bool.not_eq_false, isStd] at hcontra
  obtain ⟨c, hc, hsame⟩ := List.any_eq_true.1 hcontra
  have hkept := (List.mem_filter.1 hc).2
  rw [Scalar.isIn_congr hsame] at hcrate
  rw [hcrate] at hkept
  cases hkept

end Make

theorem isStd_congr {context : BuildContext} {a b : Scalar} (h : a.same b = true) :
    context.isStd a = context.isStd b :=
  Scalar.isIn_congr h _

/-! ## Crates that are named by texts -/

theorem sorted_eq_ok {ss : List Scalar} (h : ∀ s ∈ ss, ∃ t, s = .text t) :
    sorted ss = .ok (ss.mergeSort Scalar.le) := by
  obtain ⟨ts, rfl⟩ := Scalar.exists_texts h
  rw [sorted, Scalar.sort?_texts]

section Texts

variable {targetTriple : Value} {std deps : List Value} {symbols : List (Text × List Value)}
  {artifacts : List Artifact} {context : BuildContext}

theorem symbols_of_make
    (h : make targetTriple std deps (symbols.map fun s => (.text s.1, s.2)) artifacts
      = .ok context) :
    context.symbols = symbols.map fun s => kept (.text s.1, s.2) := by
  obtain ⟨-, -, -, -, -, rfl⟩ := make_eq_ok.1 h
  exact List.map_map

/-- Crates that contribute symbols keep their names. -/
theorem exists_text_of_make
    (h : make targetTriple std deps (symbols.map fun s => (.text s.1, s.2)) artifacts
      = .ok context) :
    ∀ s ∈ context.symbols, ∃ t, s.1 = Scalar.text t := by
  intro s hs
  rw [symbols_of_make h] at hs
  obtain ⟨given, -, rfl⟩ := List.mem_map.1 hs
  exact ⟨given.1, rfl⟩

/-- The crates of the standard library are those that are listed there, without the ones that the
project depends on. -/
theorem isStd_text_iff
    (h : make targetTriple std deps (symbols.map fun s => (.text s.1, s.2)) artifacts
      = .ok context) {crate : Text} :
    context.isStd (.text crate) = true ↔ Value.text crate ∈ std ∧ Value.text crate ∉ deps := by
  rw [isStd, stdCrates_of_make h, Scalar.isIn_text_iff, List.mem_filter,
    Scalar.text_mem_distinct_iff, Bool.not_eq_true', ← Bool.not_eq_true, Scalar.isIn_text_iff,
    scalar_mem_scalars_iff, scalar_mem_scalars_iff]
  rfl

/-! ### Contributors -/

/-- The crates that list a symbol among those that they contribute. -/
def contributors (symbols : List (Text × List Value)) (symbol : Text) : Finset Text :=
  ((symbols.filter fun s => Value.text symbol ∈ s.2).map Prod.fst).toFinset

theorem mem_contributors {crate symbol : Text} : crate ∈ contributors symbols symbol ↔
    ∃ listed, (crate, listed) ∈ symbols ∧ Value.text symbol ∈ listed := by
  simp [contributors]

/-- The owners of a symbol are the crates that list it, in order. -/
theorem owners_of_make (hcrates : (symbols.map Prod.fst).Nodup)
    (h : make targetTriple std deps (symbols.map fun s => (.text s.1, s.2)) artifacts
      = .ok context) (symbol : Text) :
    context.owners symbol = ((contributors symbols symbol).sort (· ≤ ·)).map Scalar.text := by
  have hsymbols := symbols_of_make h
  have honce : ∀ s ∈ context.symbols, s.2.Pairwise fun a b => a.same b = false := by
    intro s hs
    rw [hsymbols] at hs
    obtain ⟨given, -, rfl⟩ := List.mem_map.1 hs
    exact Scalar.pairwise_distinct _
  rw [owners, context.ownership_eq, Ownership.owners_ofSymbols honce]
  let listing := (Ownership.inOrder context.symbols).filter fun s => (Scalar.text symbol).isIn s.2
  -- All crates strictly ascend, and so do those that list the symbol.
  obtain ⟨sorted, hsorted, hascending, -⟩ := Scalar.exists_mergeSort_texts hcrates
  have horder : (Ownership.inOrder context.symbols).map Prod.fst = sorted.map Scalar.text := by
    rw [Ownership.map_fst_inOrder, hsymbols, ← hsorted, List.map_map, List.map_map]
    rfl
  have hsublist : (listing.map Prod.fst).Sublist (sorted.map Scalar.text) := by
    rw [← horder]
    exact List.filter_sublist.map _
  obtain ⟨owners, howners, hlisting⟩ := List.sublist_map_iff.1 hsublist
  have hlt : owners.Pairwise (· < ·) := hascending.sublist howners
  have hmem : ∀ crate, crate ∈ owners ↔ crate ∈ contributors symbols symbol := by
    intro crate
    rw [← List.mem_map_of_injective fun _ _ h => Scalar.text.inj h, ← hlisting, mem_contributors]
    simp only [listing, List.mem_map, List.mem_filter, Ownership.inOrder, List.mem_mergeSort,
      hsymbols, Scalar.isIn_text_iff]
    constructor
    · rintro ⟨-, ⟨⟨⟨_, listed⟩, hgiven, rfl⟩, hlisted⟩, hcrate⟩
      cases hcrate
      exact ⟨listed, hgiven, scalar_mem_scalars_iff.1 (Scalar.text_mem_distinct_iff.1 hlisted)⟩
    · rintro ⟨listed, hgiven, hlisted⟩
      refine ⟨_, ⟨⟨_, hgiven, rfl⟩, ?_⟩, rfl⟩
      exact Scalar.text_mem_distinct_iff.2 (scalar_mem_scalars_iff.2 hlisted)
  have hset : owners.toFinset = contributors symbols symbol := by
    ext crate
    rw [List.mem_toFinset, hmem]
  rw [← hset, (List.toFinset_sort (· ≤ ·) hlt.nodup).2 (hlt.imp le_of_lt)]
  exact hlisting

/-- The different names among those that are listed. -/
def valuesOf (listed : List Value) : Finset Scalar.Key := ((scalars listed).map Scalar.key).toFinset

/-- There are as many symbols as there are different names among those that crates list. -/
theorem symbolCount_of_make
    (h : make targetTriple std deps (symbols.map fun s => (.text s.1, s.2)) artifacts
      = .ok context) :
    context.symbolCount = (symbols.toFinset.biUnion fun s => valuesOf s.2).card := by
  rw [symbolCount, context.ownership_eq, Ownership.length_numbers_ofSymbols, symbols_of_make h]
  congr 1
  ext key
  simp only [List.flatMap_map, List.mem_toFinset, List.mem_flatMap, Finset.mem_biUnion]
  refine exists_congr fun s => and_congr_right fun _ => ?_
  rw [valuesOf, ← Scalar.toFinset_key_distinct, List.mem_toFinset]
  rfl

theorem mem_valuesOf {listed : List Value} {key : Scalar.Key} :
    key ∈ valuesOf listed ↔ ∃ s : Scalar, Value.scalar s ∈ listed ∧ s.key = key := by
  rw [valuesOf, List.mem_toFinset, List.mem_map]
  simp only [scalar_mem_scalars_iff]

/-! ### Order and repetition -/

/-- Every crate contributes the same symbols here and there, in whatever order the crates come and
however often a symbol is listed. -/
def SameSymbols (symbols symbols' : List (Text × List Value)) : Prop :=
  ∀ crate v, (∃ listed, (crate, listed) ∈ symbols ∧ v ∈ listed) ↔
    ∃ listed, (crate, listed) ∈ symbols' ∧ v ∈ listed

variable {symbols' : List (Text × List Value)}

theorem SameSymbols.contributors_eq (hsame : SameSymbols symbols symbols') (symbol : Text) :
    contributors symbols symbol = contributors symbols' symbol := by
  ext crate
  rw [mem_contributors, mem_contributors, hsame crate (.text symbol)]

theorem SameSymbols.exists_listed_iff (hsame : SameSymbols symbols symbols') (v : Value) :
    (∃ s ∈ symbols, v ∈ s.2) ↔ ∃ s ∈ symbols', v ∈ s.2 := by
  rw [Prod.exists, Prod.exists]
  exact exists_congr fun crate => hsame crate v

theorem SameSymbols.values_eq (hsame : SameSymbols symbols symbols') :
    (symbols.toFinset.biUnion fun s => valuesOf s.2)
      = symbols'.toFinset.biUnion fun s => valuesOf s.2 := by
  have hvalues : ∀ (given : List (Text × List Value)) (key : Scalar.Key),
      (key ∈ given.toFinset.biUnion fun s => valuesOf s.2) ↔
        ∃ v : Scalar, (∃ s ∈ given, Value.scalar v ∈ s.2) ∧ v.key = key := by
    intro given key
    simp only [Finset.mem_biUnion, List.mem_toFinset, mem_valuesOf]
    grind
  ext key
  rw [hvalues, hvalues]
  simp only [hsame.exists_listed_iff]

/-- If a context can be made, it can be made from the same symbols written in another way. -/
theorem SameSymbols.exists_make (hsame : SameSymbols symbols symbols')
    (h : make targetTriple std deps (symbols.map fun s => (.text s.1, s.2)) artifacts
      = .ok context) :
    ∃ context', make targetTriple std deps (symbols'.map fun s => (.text s.1, s.2)) artifacts
      = .ok context' := by
  obtain ⟨hstd, hdeps, hsymbols, hshadowed, -, -⟩ := make_eq_ok.1 h
  have horder : ∃ order, sorted ((symbols'.map fun s => (Scalar.text s.1, s.2)).map Prod.fst)
      = .ok order := by
    refine ⟨_, sorted_eq_ok ?_⟩
    rw [List.map_map, List.forall_mem_map]
    exact fun s _ => ⟨s.1, rfl⟩
  refine ⟨_, make_eq_ok.2 ⟨hstd, hdeps, fun s hs v hv => ?_, hshadowed, horder, rfl⟩⟩
  obtain ⟨given, hgiven, rfl⟩ := List.mem_map.1 hs
  obtain ⟨s, hs, hv⟩ := (hsame.exists_listed_iff v).2 ⟨given, hgiven, hv⟩
  exact hsymbols _ (List.mem_map_of_mem hs) v hv

end Texts

end CrateLedger.BuildContext
