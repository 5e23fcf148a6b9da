import Mathlib
import CrateLedger.Attribution.Crate
import CrateLedger.Proofs.Build.Context

/-!
# What attribution goes by

A symbol goes to a crate that contributes it before it goes to one that only its name spells. What
the build says about this is a mapping of crates to the symbols that they list; attribution looks
it up in a table by number, but nothing shows through of how the table came to be.

Main statement: attribution to a context that is made from such a mapping goes by the crates that
list the symbol, as a set. So the order in which crates are listed and how often they list a symbol
do not matter.
-/

namespace CrateLedger.Attribution

open BuildContext (contributors valuesOf SameSymbols)

variable {context : BuildContext} {options : Options} {name : Text} {owners : Finset Text}
  {decoded : Mangled.Name}

/-! ## One owner of several -/

theorem mem_of_sort_eq {sorted : List Text} (h : owners.sort (· ≤ ·) = sorted) {owner : Text} :
    owner ∈ owners ↔ owner ∈ sorted := by
  rw [← h, Finset.mem_sort]

/-- The first of some texts in order is the least of them. -/
theorem isLeast_of_sort_eq_cons {first : Text} {others : List Text}
    (h : owners.sort (· ≤ ·) = first :: others) : IsLeast (owners : Set Text) first := by
  have hsorted := owners.pairwise_sort (· ≤ ·)
  rw [h] at hsorted
  refine ⟨(mem_of_sort_eq h).2 List.mem_cons_self, fun owner howner => ?_⟩
  rcases List.mem_cons.1 ((mem_of_sort_eq h).1 howner) with rfl | hothers
  · exact le_refl owner
  · exact List.rel_of_pairwise_cons hsorted hothers

/-- Of several owners that are in order, the one that the name spells is chosen, and the first if it
spells none of them. -/
theorem exists_choose_eq_ok {first : Text} {others : List Text}
    (howners : owners.sort (· ≤ ·) = first :: others)
    (hdecode : Mangled.Name.decode name = .ok decoded) :
    ∃ crate, choose name (.text first) (others.map Scalar.text) = .ok (.text crate) ∧
      (∀ owner ∈ owners, decoded.crate? = some owner → crate = owner) ∧
      ((∀ owner ∈ owners, decoded.crate? ≠ some owner) → crate = first) := by
  have hisIn : ∀ owner, (Scalar.text owner).isIn (.text first :: others.map Scalar.text) = true ↔
      owner ∈ owners := by
    intro owner
    rw [mem_of_sort_eq howners, ← List.map_cons, Scalar.isIn_text_iff,
      List.mem_map_of_injective fun _ _ h => Scalar.text.inj h]
  cases others with
  | nil =>
    refine ⟨first, rfl, fun owner howner _ => ?_, fun _ => rfl⟩
    exact (List.mem_singleton.1 ((mem_of_sort_eq howners).1 howner)).symm
  | cons second others =>
    unfold choose
    rw [List.map_cons, List.isEmpty_cons, if_neg Bool.false_ne_true, hdecode]
    simp only [bind, Except.bind, pure, Except.pure]
    cases hcrate : decoded.crate? with
    | none => exact ⟨first, rfl, nofun, fun _ => rfl⟩
    | some spelled =>
      by_cases hspelled : spelled ∈ owners
      · refine ⟨spelled, ?_, fun owner _ h => Option.some.inj h, fun h => ?_⟩
        · simp only
          rw [← List.map_cons, if_pos ((hisIn spelled).2 hspelled)]
        · exact absurd rfl (h spelled hspelled)
      · refine ⟨first, ?_, fun owner howner h => ?_, fun _ => rfl⟩
        · simp only
          rw [← List.map_cons, if_neg (mt (hisIn spelled).1 hspelled)]
        · rw [Option.some.inj h] at hspelled
          exact absurd howner hspelled

/-! ## Precedence -/

/-- An attribution that goes by the crates that contribute a symbol first, and by the crate that
its name spells second. -/
structure Precedence (name : Text) (owners : Finset Text) (spelled : Option Text)
    (label : Text → Scalar) (a : Attribution) : Prop where
  /-- A symbol without a name is unknown. -/
  nameless : name = [] → a = ⟨unknownCrate, false⟩
  /-- The crate that the name spells is taken if it contributes the symbol, -/
  spelledOwner : name ≠ [] → ∀ crate ∈ owners, spelled = some crate → a = ⟨label crate, true⟩
  /-- and the first of those that contribute it if it does not. -/
  firstOwner : name ≠ [] → ∀ h : owners.Nonempty, (∀ crate ∈ owners, spelled ≠ some crate) →
    a = ⟨label (owners.min' h), true⟩
  /-- If no crate contributes it, the crate that the name spells is taken, -/
  spelledCrate : name ≠ [] → owners = ∅ → ∀ crate, crate ≠ [] → spelled = some crate →
    a = ⟨label crate, false⟩
  /-- and if it spells none, the symbol is unknown. -/
  unknown : name ≠ [] → owners = ∅ → (∀ crate, spelled = some crate → crate = []) →
    a = ⟨unknownCrate, false⟩

section OfName

variable (hname : name ≠ []) (hdecode : Mangled.Name.decode name = .ok decoded)

include hname hdecode

/-- A symbol with owners goes to one of them. -/
theorem exists_ofName_of_owners {first : Text} {others : List Text}
    (hsort : owners.sort (· ≤ ·) = first :: others)
    (howners : context.owners name = .text first :: others.map Scalar.text) :
    ∃ a, ofName context options name = .ok a ∧
      Precedence name owners decoded.crate? (fun crate => label context options (.text crate))
        a := by
  obtain ⟨crate, hchoose, hspelled, hfirst⟩ := exists_choose_eq_ok hsort hdecode
  have hleast := isLeast_of_sort_eq_cons hsort
  have hne : owners ≠ ∅ := Finset.nonempty_iff_ne_empty.1 ⟨first, hleast.1⟩
  refine ⟨⟨label context options (.text crate), true⟩, ?_, ?_⟩
  · rw [ofName, if_neg (mt List.isEmpty_iff.1 hname), howners]
    simp only [hchoose, bind, Except.bind, pure, Except.pure]
  · exact {
      nameless := fun h => absurd h hname
      spelledOwner := fun _ owner howner heq => by rw [hspelled owner howner heq]
      firstOwner := fun _ h hnone => by
        rw [hfirst hnone, hleast.unique (owners.isLeast_min' h)]
      spelledCrate := fun _ hempty => absurd hempty hne
      unknown := fun _ hempty => absurd hempty hne }

/-- A symbol without owners goes to the crate that its name spells. -/
theorem exists_ofName_of_no_owners (howners : context.owners name = []) :
    ∃ a, ofName context options name = .ok a ∧
      Precedence name ∅ decoded.crate? (fun crate => label context options (.text crate)) a := by
  have hunknown : ∀ spelled : Option Text, (∀ crate, spelled = some crate → crate = []) →
      Precedence name ∅ spelled (fun crate => label context options (.text crate))
        ⟨unknownCrate, false⟩ := fun spelled hnone => {
      nameless := fun _ => rfl
      spelledOwner := nofun
      firstOwner := fun _ h => absurd h Finset.not_nonempty_empty
      spelledCrate := fun _ _ crate hne heq => absurd (hnone crate heq) hne
      unknown := fun _ _ _ => rfl }
  rw [ofName, if_neg (mt List.isEmpty_iff.1 hname), howners, hdecode]
  simp only [bind, Except.bind, pure, Except.pure]
  rcases decoded.crate? with _ | _ | ⟨c, cs⟩
  · exact ⟨_, rfl, hunknown none nofun⟩
  · exact ⟨_, rfl, hunknown (some []) fun crate h => (Option.some.inj h).symm⟩
  · refine ⟨⟨label context options (.text (c :: cs)), false⟩, rfl, {
      nameless := fun h => absurd h hname
      spelledOwner := nofun
      firstOwner := fun _ h => absurd h Finset.not_nonempty_empty
      spelledCrate := fun _ _ crate _ heq => by rw [Option.some.inj heq]
      unknown := fun _ _ hnone => absurd (hnone _ rfl) (List.cons_ne_nil c cs) }⟩

end OfName

/-- If the owners of a symbol are those that contribute it, in order, attribution goes by them. -/
theorem exists_ofName_eq_ok (howners : context.owners name = (owners.sort (· ≤ ·)).map Scalar.text)
    (hdecode : Mangled.Name.decode name = .ok decoded) :
    ∃ a, ofName context options name = .ok a ∧
      Precedence name owners decoded.crate? (fun crate => label context options (.text crate))
        a := by
  by_cases hname : name = []
  · subst hname
    exact ⟨⟨unknownCrate, false⟩, rfl, {
      nameless := fun _ => rfl
      spelledOwner := fun h => absurd rfl h
      firstOwner := fun h => absurd rfl h
      spelledCrate := fun h => absurd rfl h
      unknown := fun h => absurd rfl h }⟩
  cases hsort : owners.sort (· ≤ ·) with
  | nil =>
    have hempty : owners = ∅ := by
      rw [← Finset.sort_toFinset owners (· ≤ ·), hsort, List.toFinset_nil]
    rw [hsort, List.map_nil] at howners
    rw [hempty]
    exact exists_ofName_of_no_owners hname hdecode howners
  | cons first others =>
    rw [hsort, List.map_cons] at howners
    exact exists_ofName_of_owners hname hdecode hsort howners

/-! ## Records -/

section Records

variable {targetTriple : Value} {std deps : List Value} {symbols : List (Text × List Value)}
  {artifacts : List Artifact}

/-- Attributions are exact for symbols that have a name and owners. -/
theorem isExact_iff_of_ofName {a : Attribution} (h : ofName context options name = .ok a) :
    a.isExact = true ↔ name ≠ [] ∧ context.owners name ≠ [] := by
  unfold ofName at h
  split at h
  · next hempty =>
    cases h
    simp [List.isEmpty_iff.1 hempty]
  · next hname =>
    split at h
    · next howners =>
      obtain ⟨crate, -, h⟩ := bind_eq_ok.1 h
      cases h
      simp [mt List.isEmpty_iff.2 hname, howners]
    · next howners =>
      obtain ⟨decoded, -, h⟩ := bind_eq_ok.1 h
      split at h <;> cases h <;> simp [howners]

/-- Attribution asks a context for nothing but owners and the standard library. -/
theorem ofName_congr {context' : BuildContext}
    (howners : context.owners name = context'.owners name)
    (hstd : ∀ crate, context.isStd crate = context'.isStd crate) :
    ofName context options name = ofName context' options name := by
  have hlabel : label context options = label context' options := by
    funext crate
    rw [label, label, hstd]
  rw [ofName, ofName, howners, hlabel]

/-- The label that a build gives to a crate. Crates of the standard library that the project does
not depend on share one, unless they are kept apart. -/
def declaredLabel (std deps : List Value) (options : Options) (crate : Text) : Scalar :=
  if options.keepsStdApart = false ∧ Value.text crate ∈ std ∧ Value.text crate ∉ deps then stdGroup
  else .text crate

theorem label_of_make
    (h : BuildContext.make targetTriple std deps (symbols.map fun s => (.text s.1, s.2)) artifacts
      = .ok context) (options : Options) (crate : Text) :
    label context options (.text crate) = declaredLabel std deps options crate := by
  unfold label declaredLabel
  simp only [← BuildContext.isStd_text_iff h, Bool.and_eq_true, Bool.not_eq_true']

/-- Attribution to a context that is made from the crates of the standard library, the crates that
the project depends on, and what each crate lists. -/
structure FollowsRecords (std deps : List Value) (symbols : List (Text × List Value))
    (context : BuildContext) : Prop where
  /-- Every symbol whose name can be decoded is attributed by the crates that list it first and by
  its name second. -/
  attributed : ∀ (options : Options) (name : Text) (decoded : Mangled.Name),
    Mangled.Name.decode name = .ok decoded → ∃ a, ofName context options name = .ok a ∧
      Precedence name (contributors symbols name) decoded.crate? (declaredLabel std deps options) a
  /-- Attributions are exact for symbols that have a name and are listed. -/
  exact : ∀ (options : Options) (name : Text) (a : Attribution),
    ofName context options name = .ok a → (a.isExact = true ↔
      name ≠ [] ∧ ∃ crate listed, (crate, listed) ∈ symbols ∧ Value.text name ∈ listed)
  /-- The owners of a symbol are the crates that list it, in order and each once. -/
  owners : ∀ name : Text,
    context.owners name = ((contributors symbols name).sort (· ≤ ·)).map Scalar.text
  /-- As many symbols are counted as are in the union of what the crates list. -/
  count : context.symbolCount = (symbols.toFinset.biUnion fun s => valuesOf s.2).card

/-- **Attribution goes by what the build has recorded.** If a context is made from crates that are
each mentioned once, a symbol that some of them list is attributed exactly: to the crate that its
name spells if it is one of these, and else to the first of them. Other symbols are attributed to
the crate that their name spells. It makes no difference in which order the crates are mentioned
and how often they list a symbol. -/
theorem ofName_follows_records (hcrates : (symbols.map Prod.fst).Nodup)
    (hmake : BuildContext.make targetTriple std deps (symbols.map fun s => (.text s.1, s.2))
      artifacts = .ok context) :
    FollowsRecords std deps symbols context ∧
    ∀ symbols' : List (Text × List Value), (symbols'.map Prod.fst).Nodup →
      SameSymbols symbols symbols' → ∃ context',
        BuildContext.make targetTriple std deps (symbols'.map fun s => (.text s.1, s.2))
          artifacts = .ok context' ∧
        (∀ (options : Options) (name : Text),
          ofName context options name = ofName context' options name) ∧
        (∀ name : Text, context.owners name = context'.owners name) ∧
        context.symbolCount = context'.symbolCount := by
  have howners := BuildContext.owners_of_make hcrates hmake
  have hcount := BuildContext.symbolCount_of_make hmake
  refine ⟨⟨?_, ?_, howners, hcount⟩, ?_⟩
  · intro options name decoded hdecode
    have hlabel : declaredLabel std deps options
        = fun crate => label context options (.text crate) := by
      funext crate
      rw [label_of_make hmake]
    rw [hlabel]
    exact exists_ofName_eq_ok (howners name) hdecode
  · intro options name a ha
    have hlisted : context.owners name ≠ [] ↔ (contributors symbols name).Nonempty := by
      rw [howners, ← List.length_pos_iff, List.length_map, Finset.length_sort, Finset.card_pos]
    rw [isExact_iff_of_ofName ha, hlisted, Finset.Nonempty]
    simp only [BuildContext.mem_contributors]
  · intro symbols' hcrates' hsame
    obtain ⟨context', hmake'⟩ := hsame.exists_make hmake
    have howners' : ∀ name, context.owners name = context'.owners name := by
      intro name
      rw [howners, BuildContext.owners_of_make hcrates' hmake', hsame.contributors_eq]
    refine ⟨context', hmake', fun options name => ?_, howners', ?_⟩
    · refine ofName_congr (howners' name) fun crate => ?_
      rw [BuildContext.isStd, BuildContext.isStd, BuildContext.stdCrates_of_make hmake,
        BuildContext.stdCrates_of_make hmake']
    · rw [hcount, BuildContext.symbolCount_of_make hmake', hsame.values_eq]

/-- A generic function whose code is in several crates. -/
def sampleGeneric : Text := "_ZN5serde2deE"

/-- What the crates of a build list; one of them lists the function twice. -/
def sampleListings : List (Text × List Value) :=
  [("toml", [.text sampleGeneric]), ("serde", [.text sampleGeneric, .text sampleGeneric]),
    ("core", [.text sampleGeneric, .text "memcpy"])]

/-- The context of that build. -/
def sampleRecords : BuildContext :=
  ⟨.text "x86_64-unknown-linux-gnu", [.text "core"], [.text "serde", .text "toml"],
    [(.text "toml", [.text sampleGeneric]), (.text "serde", [.text sampleGeneric]),
      (.text "core", [.text sampleGeneric, .text "memcpy"])], [], _, rfl⟩

/-- The function goes to the crate that its name spells, in whatever order the crates are listed. -/
theorem sampleListings_followed :
    BuildContext.make (.text "x86_64-unknown-linux-gnu") [.text "core"]
        [.text "serde", .text "toml"] (sampleListings.map fun s => (.text s.1, s.2)) []
      = .ok sampleRecords ∧
    ofName sampleRecords {} sampleGeneric = .ok ⟨.text "serde", true⟩ ∧
    sampleRecords.symbolCount = 2 ∧
    ∃ reversed, BuildContext.make (.text "x86_64-unknown-linux-gnu") [.text "core"]
          [.text "serde", .text "toml"] (sampleListings.reverse.map fun s => (.text s.1, s.2)) []
        = .ok reversed ∧
      ofName reversed {} sampleGeneric = .ok ⟨.text "serde", true⟩ := by
  have hmake : BuildContext.make (.text "x86_64-unknown-linux-gnu") [.text "core"]
      [.text "serde", .text "toml"] (sampleListings.map fun s => (.text s.1, s.2)) []
        = .ok sampleRecords := rfl
  have hsame : SameSymbols sampleListings sampleListings.reverse := fun crate v => by
    simp only [List.mem_reverse]
  obtain ⟨hfollows, hunordered⟩ := ofName_follows_records (by decide +kernel) hmake
  obtain ⟨reversed, hreversed, hname, -, -⟩ := hunordered _ (by decide +kernel) hsame
  have hcrate : (Mangled.Name.decode sampleGeneric).toOption.map Mangled.Name.crate?
      = some (some ("serde" : Text)) := by
    cbv
  have hattributed : ofName sampleRecords {} sampleGeneric = .ok ⟨.text "serde", true⟩ := by
    obtain ⟨decoded, hdecode, hspelled⟩ := exists_eq_ok_of_toOption hcrate
    obtain ⟨a, ha, hprecedence⟩ := hfollows.attributed {} sampleGeneric decoded hdecode
    rw [ha, hprecedence.spelledOwner (by decide) "serde" (by decide +kernel) hspelled]
    decide +kernel
  refine ⟨hmake, hattributed, ?_, reversed, hreversed, (hname _ _).symm.trans hattributed⟩
  rw [hfollows.count]
  decide +kernel

end Records

end CrateLedger.Attribution
