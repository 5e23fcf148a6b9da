import CrateLedger.Proofs.Build.Snapshot

/-!
# Errors of loading a context

Most of what can be wrong with a snapshot is said in a rejection. But where a snapshot should have a
collection, whatever is there is gone through, and its members are compared and sorted as names. A
number has no members, a list is no name, and a crate that is no text cannot be named in a message:
loading fails there without saying what is wrong with the snapshot.

Main statement: it is exactly known which snapshots these are. Every other one is loaded as a valid
context or rejected.
-/

namespace CrateLedger.BuildContext

/-! ## Fields -/

/-- A document that counts as true and has no members: a number, or the truth value. -/
def IsAtom (v : Value) : Prop := ∃ s : Scalar, v = .scalar s ∧ s.isTrue = true ∧ s.text? = none

/-- The members of a field. An atom has none, and neither has what does not count as true. -/
def members (field : Option Value) : List Value := (field.bind Value.elementsOrNone?).getD []

/-- The crates for which a field lists symbols, with what it lists for them. -/
def listings : Option Value → Fields
  | some (.object crates) => crates
  | _ => []

/-- An entry that describes an artifact. -/
def IsArtifactEntry (entry : Value) : Prop := ∃ (fields : Fields) (path : Text),
  entry = .object fields ∧ (fields.get? "name").isSome ∧ fields.get? "path" = some (.text path)

theorem elements?_eq_none_iff {v : Value} :
    v.elements? = none ↔ ∃ s : Scalar, v = .scalar s ∧ s.text? = none := by
  cases v with
  | list items => simp [Value.elements?]
  | object fields => simp [Value.elements?]
  | scalar s => cases s <;> simp [Value.elements?, Scalar.text?]

theorem elementsOrNone?_eq_none_iff {v : Value} : v.elementsOrNone? = none ↔ IsAtom v := by
  unfold Value.elementsOrNone?
  by_cases htrue : v.isTrue = true
  · rw [if_pos htrue, elements?_eq_none_iff]
    constructor
    · rintro ⟨s, rfl, hs⟩
      exact ⟨s, rfl, htrue, hs⟩
    · rintro ⟨s, hv, -, hs⟩
      exact ⟨s, hv, hs⟩
  · rw [if_neg htrue]
    constructor
    · nofun
    · rintro ⟨s, rfl, hs, -⟩
      exact absurd hs htrue

theorem members_of_isAtom {v : Value} (h : IsAtom v) : members (some v) = [] := by
  rw [members, Option.bind_some, elementsOrNone?_eq_none_iff.2 h]
  rfl

theorem elementsOf_eq_ok {field : Option Value} {vs : List Value} :
    elementsOf field = .ok vs ↔ (∀ v, field = some v → ¬ IsAtom v) ∧ vs = members field := by
  cases field with
  | none => simp [elementsOf, members, eq_comm]
  | some v =>
    have hatom := @elementsOrNone?_eq_none_iff v
    cases helements : v.elementsOrNone? with
    | none => simp [elementsOf, helements, hatom.1 helements]
    | some ws =>
      rw [helements] at hatom
      simp [elementsOf, members, helements, ← hatom, eq_comm]

theorem elementsOf_eq_error {field : Option Value} {e : Error} :
    elementsOf field = .error e ↔ (∃ v, field = some v ∧ IsAtom v) ∧ e = .wrongKind := by
  cases field with
  | none => simp [elementsOf]
  | some v =>
    have hatom := @elementsOrNone?_eq_none_iff v
    cases helements : v.elementsOrNone? with
    | none => simp [elementsOf, helements, hatom.1 helements, eq_comm]
    | some ws =>
      rw [helements] at hatom
      simp [elementsOf, helements, ← hatom]

/-- Whether a field is missing, does not count as true, or is an object. -/
def IsMapping (field : Option Value) : Prop :=
  ∀ v, field = some v → v.isTrue = true → ∃ entries, v = .object entries

theorem symbolFields_eq (field : Option Value) :
    (IsMapping field ∧ symbolFields field = .ok (listings field)) ∨
      (¬ IsMapping field ∧ symbolFields field = .error .symbolsNotMapping) := by
  cases field with
  | none => exact .inl ⟨nofun, rfl⟩
  | some v =>
    cases v with
    | object entries =>
      refine .inl ⟨fun v hv _ => ⟨entries, (Option.some.inj hv).symm⟩, ?_⟩
      cases entries <;> rfl
    | scalar s =>
      by_cases htrue : s.isTrue = true
      · have hvalue : (!(Value.scalar s).isTrue) = false := congrArg not htrue
        refine .inr ⟨fun h => ?_, if_neg (by simp [hvalue])⟩
        obtain ⟨entries, hentries⟩ := h _ rfl htrue
        cases hentries
      · have hvalue : (!(Value.scalar s).isTrue) = true := by
          rw [Bool.not_eq_true] at htrue
          exact congrArg not htrue
        refine .inl ⟨fun v hv hv' => ?_, if_pos hvalue⟩
        cases hv
        exact absurd hv' htrue
    | list items =>
      cases items with
      | nil =>
        refine .inl ⟨fun v hv hv' => ?_, rfl⟩
        cases hv
        cases hv'
      | cons item items =>
        refine .inr ⟨fun h => ?_, rfl⟩
        obtain ⟨entries, hentries⟩ := h _ rfl rfl
        cases hentries

theorem exists_artifactOf_eq_ok {entry : Value} :
    (∃ a, artifactOf entry = .ok a) ↔ IsArtifactEntry entry := by
  constructor
  · rintro ⟨a, ha⟩
    unfold artifactOf at ha
    split at ha
    · cases ha
    · rename_i fields hfields
      split at ha
      · rename_i name path hname hpath
        obtain ⟨v, hv, hpath⟩ := Option.bind_eq_some_iff.1 hpath
        cases entry with
        | object fields =>
          cases hfields
          rw [Value.text?_eq_some_iff.1 hpath] at hv
          exact ⟨fields, path, rfl, by rw [hname]; rfl, hv⟩
        | scalar s => cases hfields
        | list items => cases hfields
      · cases ha
  · rintro ⟨fields, path, rfl, hname, hpath⟩
    obtain ⟨name, hname⟩ := Option.isSome_iff_exists.1 hname
    unfold artifactOf
    simp only [Value.fields?, hname, hpath, Option.bind_some]
    exact ⟨_, rfl⟩

/-! ## Errors of the steps -/

theorem rejecting_eq_error {α : Type} {x : Except Rejection α} {e : Error}
    (h : rejecting x = .error e) : ∃ reason, e = .rejected reason := by
  cases x with
  | ok a => cases h
  | error reason => exact ⟨reason, (Except.error.inj h).symm⟩

/-- A computation in two steps fails without a reason if its second step does and the first cannot
fail in another way. -/
theorem bind_eq_wrongKind {α β : Type} {x : Except Error α} {f : α → Except Error β}
    (hx : ∀ e, x = .error e → e = .wrongKind) (hf : ∀ a, x = .ok a → f a = .error .wrongKind) :
    x >>= f = .error .wrongKind := by
  cases x with
  | ok a => exact hf a rfl
  | error e => rw [hx e rfl]; rfl

theorem names_eq_error {vs : List Value} {e : Error} (h : names vs = .error e) :
    e = .wrongKind := by
  unfold names at h
  split at h
  · cases h
  · exact (Except.error.inj h).symm

theorem sorted_eq_error {ss : List Scalar} {e : Error} (h : sorted ss = .error e) :
    e = .wrongKind := by
  unfold sorted at h
  split at h
  · cases h
  · exact (Except.error.inj h).symm

/-- Making a context of documents never says what is wrong with them. -/
theorem make_eq_error {targetTriple : Value} {std deps : List Value}
    {symbols : List (Scalar × List Value)} {artifacts : List Artifact} {e : Error}
    (h : make targetTriple std deps symbols artifacts = .error e) : e = .wrongKind := by
  unfold make at h
  rcases bind_eq_error.1 h with hstd | ⟨stdNames, -, h⟩
  · exact names_eq_error hstd
  rcases bind_eq_error.1 h with hdeps | ⟨depNames, -, h⟩
  · exact names_eq_error hdeps
  split at h
  · exact (Except.error.inj h).symm
  rcases bind_eq_error.1 h with hsymbols | ⟨keeping, -, h⟩
  · obtain ⟨s, -, hs⟩ := exists_of_mapM_eq_error hsymbols
    rcases bind_eq_error.1 hs with hnames | ⟨listed, -, hs⟩
    · exact names_eq_error hnames
    · cases hs
  rcases bind_eq_error.1 h with hsorted | ⟨order, -, h⟩
  · exact sorted_eq_error hsorted
  · cases h

theorem mapM_text?_eq_none {crates : List Scalar} :
    crates.mapM Scalar.text? = none ↔ ∃ crate ∈ crates, crate.text? = none := by
  induction crates with
  | nil => simp
  | cons crate crates ih =>
    rw [List.mapM_cons, List.exists_mem_cons_iff, ← ih]
    cases crate.text? with
    | none => simp
    | some t => cases crates.mapM Scalar.text? <;> simp

/-- Undeclared crates are named, unless one of them is no text. -/
theorem refuseUndeclared_eq_error {crates : List Scalar} {e : Error}
    (h : refuseUndeclared crates = .error e) :
    (∃ reason, e = .rejected reason) ∨ e = .wrongKind ∧ ∃ crate ∈ crates, crate.text? = none := by
  unfold refuseUndeclared at h
  split at h
  · cases h
  · rename_i ts _ _
    exact .inl ⟨.undeclared ts, (Except.error.inj h).symm⟩
  · rename_i hnone
    exact .inr ⟨(Except.error.inj h).symm, mapM_text?_eq_none.1 hnone⟩

theorem refuseUndeclared_of_mem {crates : List Scalar} {crate : Scalar} (hcrate : crate ∈ crates)
    (htext : crate.text? = none) : refuseUndeclared crates = .error .wrongKind := by
  unfold refuseUndeclared
  rw [mapM_text?_eq_none.2 ⟨crate, hcrate, htext⟩]

/-! ## Validation -/

/-- A context that is valid but for a crate that is not declared and cannot be named either. -/
structure HasUnnameable (c : BuildContext) : Prop where
  target : ∃ t, c.targetTriple = .text t ∧ t ≠ []
  named : ∀ s ∈ c.symbols, s.1.isTrue = true ∧ s.2.all isName = true
  depends : c.depCrates ≠ []
  unnameable : ∃ s ∈ c.symbols, s.1.isIn (c.depCrates ++ c.stdCrates) = false ∧ s.1.text? = none

theorem mem_undeclaredCrates {c : BuildContext} {crate : Scalar} : crate ∈ c.undeclaredCrates ↔
    (∃ s ∈ c.symbols, s.1 = crate) ∧ crate.isIn (c.depCrates ++ c.stdCrates) = false := by
  rw [undeclaredCrates, List.mem_mergeSort, List.mem_filter, List.mem_map, Bool.not_eq_true']

/-- A context without a text for its target is rejected. -/
theorem validate_of_no_target {c : BuildContext}
    (h : ∀ t, c.targetTriple = .text t → t = []) :
    c.validate = .error (.rejected .targetMissing) := by
  unfold validate
  cases htext : c.targetTriple.text? with
  | none => rfl
  | some t =>
    obtain rfl := h t (Value.text?_eq_some_iff.1 htext)
    rfl

theorem validate_of_target {c : BuildContext} {t : Text} (h : c.targetTriple = .text t)
    (ht : t ≠ []) : c.validate = (rejecting (checkSymbols c.symbols) >>= fun _ =>
      if c.depCrates ≠ [] then refuseUndeclared c.undeclaredCrates else pure ()) := by
  obtain ⟨x, t, rfl⟩ := List.exists_cons_of_ne_nil ht
  unfold validate
  rw [h]
  rfl

theorem validate_eq_error {c : BuildContext} {e : Error} (h : c.validate = .error e) :
    (∃ reason, e = .rejected reason) ∨ e = .wrongKind ∧ c.HasUnnameable := by
  by_cases htarget : ∃ t, c.targetTriple = .text t ∧ t ≠ []
  · obtain ⟨t, ht, hne⟩ := htarget
    rw [validate_of_target ht hne] at h
    rcases bind_eq_error.1 h with hsymbols | ⟨⟨⟩, hsymbols, h⟩
    · exact .inl (rejecting_eq_error hsymbols)
    have hnamed := checkSymbols_eq_ok.1 (rejecting_eq_ok.1 hsymbols)
    by_cases hdepends : c.depCrates ≠ []
    · rw [if_pos hdepends] at h
      rcases refuseUndeclared_eq_error h with hrejected | ⟨rfl, crate, hcrate, htext⟩
      · exact .inl hrejected
      obtain ⟨⟨s, hs, rfl⟩, hdeclared⟩ := mem_undeclaredCrates.1 hcrate
      exact .inr ⟨rfl, ⟨t, ht, hne⟩, hnamed, hdepends, s, hs, hdeclared, htext⟩
    · rw [if_neg hdepends] at h
      cases h
  · have hnone : ∀ t, c.targetTriple = .text t → t = [] := by
      intro t ht
      by_contra hne
      exact htarget ⟨t, ht, hne⟩
    rw [validate_of_no_target hnone] at h
    exact .inl ⟨_, (Except.error.inj h).symm⟩

theorem validate_of_hasUnnameable {c : BuildContext} (h : c.HasUnnameable) :
    c.validate = .error .wrongKind := by
  obtain ⟨⟨t, ht, hne⟩, hnamed, hdepends, s, hs, hdeclared, htext⟩ := h
  have hcrate : s.1 ∈ c.undeclaredCrates := mem_undeclaredCrates.2 ⟨⟨s, hs, rfl⟩, hdeclared⟩
  rw [validate_of_target ht hne, checkSymbols_eq_ok.2 hnamed]
  show (if c.depCrates ≠ [] then refuseUndeclared c.undeclaredCrates else pure ()) = _
  rw [if_pos hdepends, refuseUndeclared_of_mem hcrate htext]

/-! ## Snapshots that are not rejected -/

/-- What a snapshot lists as symbols, by crate. -/
def listedSymbols (symbols : Option Value) : List (Scalar × List Value) :=
  (listings symbols).map fun entry => (entry.1, members (some entry.2))

/-- Something in the fields of a snapshot cannot be gone through, be a name, or be put in order. -/
inductive Misfit (target : Value) (symbols artifacts std deps : Option Value) : Prop where
  /-- A collection is an atom. -/
  | collection {v : Value} (hv : some v ∈ [artifacts, std, deps]) (h : IsAtom v)
  /-- So is what is listed for a crate. -/
  | listing {entry : Scalar × Value} (hentry : entry ∈ listings symbols) (h : IsAtom entry.2)
  /-- A crate is a list or an object. -/
  | crate {v : Value} (hv : v ∈ members std ++ members deps) (h : v.scalar? = none)
  /-- So is a symbol. -/
  | symbol {s : Scalar × List Value} {v : Value} (hs : s ∈ listedSymbols symbols) (hv : v ∈ s.2)
      (h : v.scalar? = none)
  /-- A crate that is no text is listed under the standard library and the dependencies. -/
  | shadowed {s : Scalar} (hstd : .scalar s ∈ members std)
      (hdeps : s.isIn (scalars (members deps)) = true) (h : s.text? = none)
  /-- The crates that contribute symbols have no order. -/
  | unordered (h : Scalar.sort? ((listedSymbols symbols).map Prod.fst) = none)
  /-- Nothing else is wrong, but a crate that is no text contributes symbols and is not declared. -/
  | undeclared {s : Scalar × List Value} (htarget : ∃ t, target = .text t ∧ t ≠ [])
      (hnamed : ∀ s ∈ listedSymbols symbols, s.1.isTrue = true ∧
        ∀ v ∈ s.2, ∃ t, v = .text t ∧ t ≠ [])
      (hdepends : members deps ≠ []) (hs : s ∈ listedSymbols symbols)
      (hdeclared : s.1.isIn (scalars (members std ++ members deps)) = false)
      (htext : s.1.text? = none)

theorem isName_iff {s : Scalar} : isName s = true ↔ ∃ t, s = .text t ∧ t ≠ [] := by
  cases s with
  | text t => cases t <;> simp [isName]
  | _ => simp [isName]

/-- All of some names are texts if each different one is. -/
theorem all_isName_distinct {vs : List Value} (hvs : ∀ v ∈ vs, v.scalar?.isSome) :
    (Scalar.distinct (scalars vs)).all isName = true ↔ ∀ v ∈ vs, ∃ t, v = .text t ∧ t ≠ [] := by
  rw [List.all_eq_true]
  constructor
  · intro hall v hv
    obtain ⟨s, hs⟩ := Option.isSome_iff_exists.1 (hvs v hv)
    obtain ⟨c, hc, hsame⟩ := Scalar.exists_same_distinct (List.mem_filterMap.2 ⟨v, hv, hs⟩)
    obtain ⟨t, rfl, ht⟩ := isName_iff.1 (hall c hc)
    rw [Scalar.same_text_iff.1 hsame] at hs
    exact ⟨t, Value.text?_eq_some_iff.1 (by cases v <;> cases hs; rfl), ht⟩
  · intro hall s hs
    obtain ⟨t, ht, hne⟩ := hall _ (scalar_mem_scalars_iff.1 (Scalar.distinct_subset _ hs))
    cases ht
    exact isName_iff.2 ⟨t, rfl, hne⟩

theorem isIn_append (s : Scalar) (as bs : List Scalar) :
    s.isIn (as ++ bs) = (s.isIn as || s.isIn bs) := List.any_append

theorem isIn_distinct (s : Scalar) (ss : List Scalar) : s.isIn (Scalar.distinct ss) = s.isIn ss := by
  rw [Bool.eq_iff_iff, Scalar.isIn, Scalar.isIn, List.any_eq_true, List.any_eq_true]
  constructor
  · rintro ⟨c, hc, hsame⟩
    exact ⟨c, Scalar.distinct_subset ss hc, hsame⟩
  · rintro ⟨c, hc, hsame⟩
    obtain ⟨d, hd, hcd⟩ := Scalar.exists_same_distinct hc
    exact ⟨d, hd, Scalar.same_trans hsame hcd⟩

/-- Leaving out the dependencies from the standard library leaves the same crates declared. -/
theorem isIn_declared (s : Scalar) (std deps : List Scalar) :
    s.isIn (deps ++ (Scalar.distinct std).filter fun c => !c.isIn deps) = s.isIn (std ++ deps) := by
  rw [isIn_append, isIn_append, ← isIn_distinct s std, Bool.or_comm (s.isIn (Scalar.distinct std))]
  by_cases hdeps : s.isIn deps = true
  · rw [hdeps, Bool.true_or, Bool.true_or]
  · rw [Bool.not_eq_true] at hdeps
    rw [hdeps, Bool.false_or, Bool.false_or, Scalar.isIn, Scalar.isIn, List.any_filter]
    congr 1
    funext c
    by_cases hsame : s.same c = true
    · rw [← Scalar.isIn_congr hsame, hdeps, Bool.not_false, Bool.true_and]
    · rw [Bool.not_eq_true] at hsame
      rw [hsame, Bool.and_false]

section Made

variable {target : Value} {symbols artifacts std deps : Option Value} {entries : List Artifact}
  {c : BuildContext} {fields : Fields} {e : Error}

/-- What cannot be named in a context is what could not be named in the snapshot. -/
theorem misfit_of_hasUnnameable
    (h : make target (members std) (members deps) (listedSymbols symbols) entries = .ok c)
    (hc : c.HasUnnameable) : Misfit target symbols artifacts std deps := by
  obtain ⟨-, -, hlisted, -, -, rfl⟩ := make_eq_ok.1 h
  obtain ⟨htarget, hnamed, hdepends, k, hk, hdeclared, htext⟩ := hc
  obtain ⟨s, hs, rfl⟩ := List.mem_map.1 hk
  refine .undeclared htarget (fun s hs => ?_) (fun hnone => hdepends ?_) hs ?_ htext
  · obtain ⟨htrue, hnames⟩ := hnamed _ (List.mem_map_of_mem hs)
    exact ⟨htrue, (all_isName_distinct (hlisted s hs)).1 hnames⟩
  · rw [hnone]
    rfl
  · rw [isIn_declared] at hdeclared
    rw [scalars, List.filterMap_append]
    exact hdeclared

/-- If a context is made of the fields of a snapshot, the only misfit left is a crate that cannot be
named. -/
theorem hasUnnameable_of_misfit
    (h : make target (members std) (members deps) (listedSymbols symbols) entries = .ok c)
    (hcollections : ∀ v, some v ∈ [artifacts, std, deps] → ¬ IsAtom v)
    (hlistings : ∀ entry ∈ listings symbols, ¬ IsAtom entry.2)
    (hmisfit : Misfit target symbols artifacts std deps) : c.HasUnnameable := by
  obtain ⟨hstd, hdeps, hlisted, hshadowed, ⟨order, horder⟩, rfl⟩ := make_eq_ok.1 h
  -- With any misfit but the last there would be no context.
  cases hmisfit with
  | collection hv hatom => exact absurd hatom (hcollections _ hv)
  | listing hentry hatom => exact absurd hatom (hlistings _ hentry)
  | crate hv hnone =>
    rcases List.mem_append.1 hv with hv | hv
    · have := hstd _ hv
      rw [hnone] at this
      cases this
    · have := hdeps _ hv
      rw [hnone] at this
      cases this
  | symbol hs hv hnone =>
    have := hlisted _ hs _ hv
    rw [hnone] at this
    cases this
  | shadowed hs hdep htext =>
    refine absurd ?_ (List.any_eq_false.1 hshadowed _
      (List.mem_filter.2 ⟨scalar_mem_scalars_iff.2 hs, hdep⟩))
    rw [htext]
    rfl
  | unordered hnone =>
    unfold sorted at horder
    rw [hnone] at horder
    cases horder
  | undeclared htarget hnamed hdepends hs hdeclared htext =>
    refine ⟨htarget, fun k hk => ?_, fun hnone => ?_, _, List.mem_map_of_mem hs, ?_, htext⟩
    · obtain ⟨s, hs, rfl⟩ := List.mem_map.1 hk
      exact ⟨(hnamed s hs).1, (all_isName_distinct (hlisted s hs)).2 (hnamed s hs).2⟩
    · obtain ⟨v, hv⟩ := List.exists_mem_of_ne_nil _ hdepends
      obtain ⟨d, hd⟩ := Option.isSome_iff_exists.1 (hdeps v hv)
      have hmem : d ∈ scalars (members deps) := List.mem_filterMap.2 ⟨v, hv, hd⟩
      have hempty : scalars (members deps) = [] := hnone
      rw [hempty] at hmem
      cases hmem
    · rw [scalars, List.filterMap_append] at hdeclared
      rw [isIn_declared]
      exact hdeclared

/-- If no context can be made, something in the snapshot is a misfit. -/
theorem misfit_of_make_eq_error
    (h : make target (members std) (members deps) (listedSymbols symbols) entries = .error e) :
    Misfit target symbols artifacts std deps := by
  by_contra hfits
  have hsome : ∀ v : Value, v.scalar? ≠ none → v.scalar?.isSome := fun v =>
    Option.isSome_iff_ne_none.2
  have hmade : ∃ c, make target (members std) (members deps) (listedSymbols symbols) entries
      = .ok c := by
    refine ⟨_, make_eq_ok.2 ⟨?_, ?_, ?_, ?_, ?_, rfl⟩⟩
    · intro v hv
      exact hsome v fun hnone => hfits (.crate (List.mem_append_left _ hv) hnone)
    · intro v hv
      exact hsome v fun hnone => hfits (.crate (List.mem_append_right _ hv) hnone)
    · intro s hs v hv
      exact hsome v fun hnone => hfits (.symbol hs hv hnone)
    · rw [List.any_eq_false]
      intro s hs htext
      obtain ⟨hstd, hdeps⟩ := List.mem_filter.1 hs
      exact hfits (.shadowed (scalar_mem_scalars_iff.1 hstd) hdeps
        (Option.isNone_iff_eq_none.1 htext))
    · unfold sorted
      cases horder : Scalar.sort? ((listedSymbols symbols).map Prod.fst) with
      | none => exact absurd (.unordered horder) hfits
      | some order => exact ⟨order, rfl⟩
  obtain ⟨c, hc⟩ := hmade
  rw [h] at hc
  cases hc

end Made

/-! ## Loading -/

/-- The symbols of a snapshot are read unless what is listed for a crate is an atom. -/
theorem mapM_elementsOf_eq_ok {symbols : Option Value} {read : List (Scalar × List Value)} :
    (listings symbols).mapM (fun entry => do return (entry.1, ← elementsOf (some entry.2)) :
        Scalar × Value → Except Error (Scalar × List Value)) = .ok read ↔
      (∀ entry ∈ listings symbols, ¬ IsAtom entry.2) ∧ read = listedSymbols symbols := by
  have helements : ∀ (entry : Scalar × Value) (read : Scalar × List Value),
      (do return (entry.1, ← elementsOf (some entry.2)) : Except Error (Scalar × List Value))
        = .ok read ↔ ¬ IsAtom entry.2 ∧ (entry.1, members (some entry.2)) = read := by
    intro entry read
    rw [bind_eq_ok]
    simp only [elementsOf_eq_ok, Option.some.injEq, forall_eq', pure, Except.pure,
      Except.ok.injEq, and_assoc, exists_and_left, exists_eq_left]
  exact mapM_eq_ok_map helements

theorem mapM_elementsOf_eq_error {symbols : Fields} {e : Error}
    (h : symbols.mapM (fun entry => do return (entry.1, ← elementsOf (some entry.2)) :
      Scalar × Value → Except Error (Scalar × List Value)) = .error e) :
    e = .wrongKind ∧ ∃ entry ∈ symbols, IsAtom entry.2 := by
  obtain ⟨entry, hentry, h⟩ := exists_of_mapM_eq_error h
  rcases bind_eq_error.1 h with h | ⟨vs, -, h⟩
  · obtain ⟨⟨v, hv, hatom⟩, he⟩ := elementsOf_eq_error.1 h
    cases hv
    exact ⟨he, entry, hentry, hatom⟩
  · cases h

/-- The fields of a snapshot that is neither loaded nor rejected: what is looked at before the
misfit is as it should be. -/
structure Escapes (fields : Fields) (target : Value) : Prop where
  target_triple : fields.get? "target_triple" = some target
  deps_symbols : IsMapping (fields.get? "deps_symbols")
  artifacts : ∀ entry ∈ members (fields.get? "artifacts"), IsArtifactEntry entry
  misfit : Misfit target (fields.get? "deps_symbols") (fields.get? "artifacts")
    (fields.get? "std_crates") (fields.get? "dep_crates")

/-- What is neither loaded nor rejected has a misfit, and nothing else wrong with it before. -/
theorem ofFields_eq_error {fields : Fields} {e : Error} (h : ofFields fields = .error e) :
    (∃ reason, e = .rejected reason) ∨ e = .wrongKind ∧ ∃ target, Escapes fields target := by
  unfold ofFields at h
  cases htarget : fields.get? "target_triple" with
  | none =>
    rw [htarget] at h
    exact .inl ⟨_, (Except.error.inj h).symm⟩
  | some target =>
    rw [htarget] at h
    rcases symbolFields_eq (fields.get? "deps_symbols") with ⟨hmapping, heq⟩ | ⟨-, heq⟩
    swap
    · rw [heq] at h
      exact .inl ⟨_, (Except.error.inj h).symm⟩
    rw [heq] at h
    rcases bind_eq_error.1 h with hnone | ⟨symbols, hsymbols, h⟩
    · cases hnone
    cases hsymbols
    rcases bind_eq_error.1 h with hentries | ⟨entries, hentries, h⟩
    · obtain ⟨⟨v, hv, hatom⟩, rfl⟩ := elementsOf_eq_error.1 hentries
      refine .inr ⟨rfl, target, htarget, hmapping, ?_, .collection (by simp [hv]) hatom⟩
      rw [hv, members_of_isAtom hatom]
      nofun
    obtain ⟨-, rfl⟩ := elementsOf_eq_ok.1 hentries
    rcases bind_eq_error.1 h with hartifacts | ⟨artifacts, hartifacts, h⟩
    · exact .inl (rejecting_eq_error hartifacts)
    have hmapM := exists_mapM_eq_ok.1 ⟨artifacts, rejecting_eq_ok.1 hartifacts⟩
    -- From here on only a misfit is left to go wrong, up to the validation.
    have hescapes : Misfit target (fields.get? "deps_symbols") (fields.get? "artifacts")
        (fields.get? "std_crates") (fields.get? "dep_crates") → Escapes fields target :=
      fun hmisfit => ⟨htarget, hmapping,
        fun entry hentry => exists_artifactOf_eq_ok.1 (hmapM entry hentry), hmisfit⟩
    rcases bind_eq_error.1 h with hstd | ⟨std, hstd, h⟩
    · obtain ⟨⟨v, hv, hatom⟩, rfl⟩ := elementsOf_eq_error.1 hstd
      exact .inr ⟨rfl, target, hescapes (.collection (by simp [hv]) hatom)⟩
    obtain ⟨-, rfl⟩ := elementsOf_eq_ok.1 hstd
    rcases bind_eq_error.1 h with hdeps | ⟨deps, hdeps, h⟩
    · obtain ⟨⟨v, hv, hatom⟩, rfl⟩ := elementsOf_eq_error.1 hdeps
      exact .inr ⟨rfl, target, hescapes (.collection (by simp [hv]) hatom)⟩
    obtain ⟨-, rfl⟩ := elementsOf_eq_ok.1 hdeps
    rcases bind_eq_error.1 h with hlisted | ⟨listed, hlisted, h⟩
    · obtain ⟨rfl, entry, hentry, hatom⟩ := mapM_elementsOf_eq_error hlisted
      exact .inr ⟨rfl, target, hescapes (.listing hentry hatom)⟩
    obtain ⟨-, rfl⟩ := mapM_elementsOf_eq_ok.1 hlisted
    rcases bind_eq_error.1 h with hmake | ⟨c, hmake, h⟩
    · exact .inr ⟨make_eq_error hmake, target, hescapes (misfit_of_make_eq_error hmake)⟩
    rcases bind_eq_error.1 h with hvalidate | ⟨⟨⟩, -, h⟩
    · rcases validate_eq_error hvalidate with hrejected | ⟨he, hc⟩
      · exact .inl hrejected
      · exact .inr ⟨he, target, hescapes (misfit_of_hasUnnameable hmake hc)⟩
    · cases h

theorem ofFields_of_escapes {fields : Fields} {target : Value} (h : Escapes fields target) :
    ofFields fields = .error .wrongKind := by
  obtain ⟨artifacts, hartifacts⟩ := exists_mapM_eq_ok.2 fun entry hentry =>
    exists_artifactOf_eq_ok.2 (h.artifacts entry hentry)
  rcases symbolFields_eq (fields.get? "deps_symbols") with ⟨-, hsymbols⟩ | ⟨hnone, -⟩
  swap
  · exact absurd h.deps_symbols hnone
  unfold ofFields
  rw [h.target_triple, hsymbols]
  refine bind_eq_wrongKind nofun fun symbols hread => ?_
  cases hread
  refine bind_eq_wrongKind (fun e he => (elementsOf_eq_error.1 he).2) fun entries hentries => ?_
  obtain ⟨hatomArtifacts, rfl⟩ := elementsOf_eq_ok.1 hentries
  rw [hartifacts]
  refine bind_eq_wrongKind nofun fun made hread => ?_
  cases hread
  refine bind_eq_wrongKind (fun e he => (elementsOf_eq_error.1 he).2) fun std hstd => ?_
  obtain ⟨hatomStd, rfl⟩ := elementsOf_eq_ok.1 hstd
  refine bind_eq_wrongKind (fun e he => (elementsOf_eq_error.1 he).2) fun deps hdeps => ?_
  obtain ⟨hatomDeps, rfl⟩ := elementsOf_eq_ok.1 hdeps
  refine bind_eq_wrongKind (fun e he => (mapM_elementsOf_eq_error he).1) fun listed hlisted => ?_
  obtain ⟨hatomListings, rfl⟩ := mapM_elementsOf_eq_ok.1 hlisted
  refine bind_eq_wrongKind (fun e he => make_eq_error he) fun c hc => ?_
  have hcollections : ∀ v, some v ∈ [fields.get? "artifacts", fields.get? "std_crates",
      fields.get? "dep_crates"] → ¬ IsAtom v := by
    intro v hv
    rcases List.mem_cons.1 hv with hv | hv
    · exact hatomArtifacts v hv.symm
    rcases List.mem_cons.1 hv with hv | hv
    · exact hatomStd v hv.symm
    · exact hatomDeps v (List.mem_singleton.1 hv).symm
  rw [validate_of_hasUnnameable (hasUnnameable_of_misfit hc hcollections hatomListings h.misfit)]
  rfl

theorem validate_of_ofFields {fields : Fields} {c : BuildContext} (h : ofFields fields = .ok c) :
    c.validate = .ok () := by
  unfold ofFields at h
  cases htarget : fields.get? "target_triple" with
  | none =>
    rw [htarget] at h
    cases h
  | some target =>
    rw [htarget] at h
    obtain ⟨symbols, -, h⟩ := bind_eq_ok.1 h
    obtain ⟨entries, -, h⟩ := bind_eq_ok.1 h
    obtain ⟨artifacts, -, h⟩ := bind_eq_ok.1 h
    obtain ⟨std, -, h⟩ := bind_eq_ok.1 h
    obtain ⟨deps, -, h⟩ := bind_eq_ok.1 h
    obtain ⟨listed, -, h⟩ := bind_eq_ok.1 h
    obtain ⟨made, -, h⟩ := bind_eq_ok.1 h
    obtain ⟨⟨⟩, hvalid, h⟩ := bind_eq_ok.1 h
    cases h
    exact hvalid

/-- **What becomes of a snapshot.** A snapshot is loaded as a valid context or rejected, or it fails
without being rejected, and that is exactly the fate of an object in which something is a misfit and
all that is looked at before is as it should be. -/
theorem loads_rejects_or_escapes (v : Value) :
    ((∃ c, ofValue v = .ok c ∧ c.validate = .ok ()) ∨
      (∃ reason, ofValue v = .error (.rejected reason)) ∨ ofValue v = .error .wrongKind) ∧
    (ofValue v = .error .wrongKind ↔
      ∃ fields target, v = .object fields ∧ Escapes fields target) := by
  cases v with
  | object fields =>
    have hescapes : ofFields fields = .error .wrongKind ↔ ∃ target, Escapes fields target := by
      constructor
      · intro h
        rcases ofFields_eq_error h with ⟨reason, hreason⟩ | ⟨-, hescapes⟩
        · cases hreason
        · exact hescapes
      · rintro ⟨target, h⟩
        exact ofFields_of_escapes h
    refine ⟨?_, hescapes.trans ⟨fun ⟨target, h⟩ => ⟨fields, target, rfl, h⟩, ?_⟩⟩
    · cases h : ofFields fields with
      | ok c => exact .inl ⟨c, h, validate_of_ofFields h⟩
      | error e =>
        rcases ofFields_eq_error h with ⟨reason, rfl⟩ | ⟨rfl, -⟩
        · exact .inr (.inl ⟨reason, h⟩)
        · exact .inr (.inr h)
    · rintro ⟨fields, target, hv, h⟩
      cases hv
      exact ⟨target, h⟩
  | list items => exact ⟨.inr (.inl ⟨.notMapping, rfl⟩), nofun, nofun⟩
  | scalar s => exact ⟨.inr (.inl ⟨.notMapping, rfl⟩), nofun, nofun⟩

/-- A snapshot with a number where the crates of the standard library should be. -/
def mistypedSnapshot : Value :=
  .record [("target_triple", .text "x86_64-unknown-linux-gnu"), ("std_crates", .integer 5)]

theorem mistypedSnapshot_escapes : ofValue mistypedSnapshot = .error .wrongKind ∧
    ¬ ((∃ c, ofValue mistypedSnapshot = .ok c ∧ c.validate = .ok ()) ∨
      ∃ reason, ofValue mistypedSnapshot = .error (.rejected reason)) := by
  have hescapes : ofValue mistypedSnapshot = .error .wrongKind := rfl
  refine ⟨hescapes, ?_⟩
  rw [hescapes]
  rintro (⟨c, hc, -⟩ | ⟨reason, hreason⟩)
  · cases hc
  · cases hreason

end CrateLedger.BuildContext
