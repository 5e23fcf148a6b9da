import CrateLedger.Proofs.Record
import CrateLedger.Proofs.Report.Crates

/-!
# Records in any spelling

A record that has been written by hand or changed may spell numbers as texts, truth values or
fractions, may have anything where only its truth matters, and may leave out what has a default. Its
table of crates may be old or wrong. A report is read from it field by field, and none of its fields
comes from that table. So whatever was read is a report as an analysis makes it, with the crates
that its symbols have, and it is written in the one spelling that is read as the same report again.
-/

namespace CrateLedger

/-- What a symbol is if it is read from an object. -/
structure Symbol.IsReadFrom (parts : Fields) (s : Symbol) : Prop where
  name : parts.get? "name" = some s.name
  shown : parts.get? "demangled" = some s.shown
  size : ∃ v, parts.get? "size" = some v ∧ Report.integerOf v = .ok s.size
  address : ∃ v, parts.get? "address" = some v ∧ Report.integerOf v = .ok s.address
  crate : parts.get? "crate" = some (.scalar s.crate)
  isExact : ∃ v, parts.get? "is_exact" = some v ∧ v.isTrue = s.isExact

namespace Report

/-- What a report is if it is read from a record. -/
structure IsReadFrom (fields : Fields) (r : Report) : Prop where
  symbols : ∃ v items, fields.get? "symbols" = some v ∧ v.elements? = some items ∧
    List.Forall₂ (fun item s => ∃ parts, item.fields? = some parts ∧ s.IsReadFrom parts)
      items r.symbols
  fileSize : ∃ v, fields.get? "file_size" = some v ∧ integerOf v = .ok r.fileSize
  sectionSize : ∃ v, fields.get? "section_size" = some v ∧ integerOf v = .ok r.sectionSize
  sectionName : fields.get? "section_name" = some r.sectionName
  formatName : (fields.get? "format").getD (.text []) = r.formatName
  splitStd : .bool ((fields.get? "split_std").any Value.isTrue) = r.splitStd
  ranked : r.ranked = .ok r

variable {fields fields' : Fields} {r : Report}

/-! ## Reading field by field -/

theorem required_eq_ok {key : Text} {v : Value} :
    required fields key = .ok v ↔ fields.get? key = some v := by
  unfold required
  cases fields.get? key <;> simp

theorem objectOf_eq_ok {v : Value} : objectOf v = .ok fields ↔ v.fields? = some fields := by
  unfold objectOf
  cases v.fields? <;> simp

/-- A report that can be ranked is ranked as itself. -/
theorem eq_of_ranked {r' : Report} (h : r.ranked = .ok r') : r = r' := by
  unfold ranked at h
  split at h
  · exact Except.ok.inj h
  · cases h

theorem withCrate_eq_ok {label : Scalar → Symbol} {crate : Value} {s : Symbol} :
    withCrate (label, crate) = .ok s ↔ ∃ c, crate = .scalar c ∧ label c = s := by
  cases crate with
  | scalar c => simp [withCrate, Value.scalar?]
  | list items => simp [withCrate, Value.scalar?]
  | object parts => simp [withCrate, Value.scalar?]

/-- A symbol is read from an object, and its crate put in, if this is what the object has. -/
theorem symbolOf_withCrate_iff {item : Value} {s : Symbol} :
    (∃ p, symbolOf item = .ok p ∧ withCrate p = .ok s)
      ↔ ∃ parts, item.fields? = some parts ∧ s.IsReadFrom parts := by
  constructor
  · rintro ⟨p, hsymbol, hcrate⟩
    obtain ⟨parts, hparts, h⟩ := bind_eq_ok.1 hsymbol
    obtain ⟨name, hname, h⟩ := bind_eq_ok.1 h
    obtain ⟨shown, hshown, h⟩ := bind_eq_ok.1 h
    obtain ⟨sizeValue, hsizeValue, h⟩ := bind_eq_ok.1 h
    obtain ⟨size, hsize, h⟩ := bind_eq_ok.1 h
    obtain ⟨addressValue, haddressValue, h⟩ := bind_eq_ok.1 h
    obtain ⟨address, haddress, h⟩ := bind_eq_ok.1 h
    obtain ⟨crate, hcrateValue, h⟩ := bind_eq_ok.1 h
    obtain ⟨isExact, hisExact, h⟩ := bind_eq_ok.1 h
    cases h
    obtain ⟨c, rfl, rfl⟩ := withCrate_eq_ok.1 hcrate
    exact ⟨parts, objectOf_eq_ok.1 hparts, required_eq_ok.1 hname, required_eq_ok.1 hshown,
      ⟨sizeValue, required_eq_ok.1 hsizeValue, hsize⟩,
      ⟨addressValue, required_eq_ok.1 haddressValue, haddress⟩, required_eq_ok.1 hcrateValue,
      ⟨isExact, required_eq_ok.1 hisExact, rfl⟩⟩
  · rintro ⟨parts, hparts, hname, hshown, ⟨sizeValue, hsizeValue, hsize⟩,
      ⟨addressValue, haddressValue, haddress⟩, hcrate, ⟨isExact, hisExact, htrue⟩⟩
    refine ⟨(fun label => ⟨s.name, s.shown, s.size, s.address, label, isExact.isTrue⟩,
      .scalar s.crate), ?_, withCrate_eq_ok.2 ⟨s.crate, rfl, by rw [htrue]⟩⟩
    refine bind_eq_ok.2 ⟨parts, objectOf_eq_ok.2 hparts, ?_⟩
    refine bind_eq_ok.2 ⟨_, required_eq_ok.2 hname, bind_eq_ok.2 ⟨_, required_eq_ok.2 hshown, ?_⟩⟩
    refine bind_eq_ok.2 ⟨_, required_eq_ok.2 hsizeValue, bind_eq_ok.2 ⟨_, hsize, ?_⟩⟩
    refine bind_eq_ok.2 ⟨_, required_eq_ok.2 haddressValue, bind_eq_ok.2 ⟨_, haddress, ?_⟩⟩
    exact bind_eq_ok.2 ⟨_, required_eq_ok.2 hcrate,
      bind_eq_ok.2 ⟨_, required_eq_ok.2 hisExact, rfl⟩⟩

/-- Which report is read from a record. -/
theorem ofValue_eq_ok : ofValue (.object fields) = .ok r ↔ r.IsReadFrom fields := by
  constructor
  · intro h
    obtain ⟨_, hfields, h⟩ := bind_eq_ok.1 h
    cases hfields
    obtain ⟨v, hv, h⟩ := bind_eq_ok.1 h
    cases hitems : v.elements? with
    | none =>
      rw [hitems] at h
      cases h
    | some items =>
      rw [hitems] at h
      obtain ⟨unlabelled, hunlabelled, h⟩ := bind_eq_ok.1 h
      obtain ⟨fileValue, hfileValue, h⟩ := bind_eq_ok.1 h
      obtain ⟨fileSize, hfileSize, h⟩ := bind_eq_ok.1 h
      obtain ⟨sectionValue, hsectionValue, h⟩ := bind_eq_ok.1 h
      obtain ⟨sectionSize, hsectionSize, h⟩ := bind_eq_ok.1 h
      obtain ⟨sectionName, hsectionName, h⟩ := bind_eq_ok.1 h
      obtain ⟨symbols, hsymbols, h⟩ := bind_eq_ok.1 h
      -- The symbols are gone over twice, the second time for their crates.
      have hread := mapM_mapM_eq_ok.1 ⟨unlabelled, hunlabelled, hsymbols⟩
      dsimp only at h
      split at h
      · next ranked hranked =>
        cases h
        have hself := eq_of_ranked hranked
        subst hself
        exact ⟨⟨v, items, required_eq_ok.1 hv, hitems,
            hread.imp fun _ _ => symbolOf_withCrate_iff.1⟩,
          ⟨fileValue, required_eq_ok.1 hfileValue, hfileSize⟩,
          ⟨sectionValue, required_eq_ok.1 hsectionValue, hsectionSize⟩,
          required_eq_ok.1 hsectionName, rfl, rfl, hranked⟩
      · cases h
  · rintro ⟨⟨v, items, hv, hitems, hsymbols⟩, ⟨fileValue, hfileValue, hfileSize⟩,
      ⟨sectionValue, hsectionValue, hsectionSize⟩, hsectionName, hformatName, hsplitStd, hranked⟩
    obtain ⟨unlabelled, hunlabelled, hlabelled⟩ :=
      mapM_mapM_eq_ok.2 (hsymbols.imp fun _ _ => symbolOf_withCrate_iff.2)
    refine bind_eq_ok.2 ⟨fields, rfl, bind_eq_ok.2 ⟨v, required_eq_ok.2 hv, ?_⟩⟩
    rw [hitems]
    refine bind_eq_ok.2 ⟨unlabelled, hunlabelled, ?_⟩
    refine bind_eq_ok.2 ⟨_, required_eq_ok.2 hfileValue, bind_eq_ok.2 ⟨_, hfileSize, ?_⟩⟩
    refine bind_eq_ok.2 ⟨_, required_eq_ok.2 hsectionValue, bind_eq_ok.2 ⟨_, hsectionSize, ?_⟩⟩
    refine bind_eq_ok.2 ⟨_, required_eq_ok.2 hsectionName, bind_eq_ok.2 ⟨_, hlabelled, ?_⟩⟩
    dsimp only
    rw [hformatName, hsplitStd, hranked]
    rfl

/-! ## Fields that nothing is read from -/

/-- A report is read from a record whatever this says about the crates. -/
theorem IsReadFrom.of_get?_eq (h : r.IsReadFrom fields)
    (hsame : ∀ key : Text, key ≠ "crates" → fields'.get? key = fields.get? key) :
    r.IsReadFrom fields' := by
  constructor
  · rw [hsame _ (by decide)]
    exact h.symbols
  · rw [hsame _ (by decide)]
    exact h.fileSize
  · rw [hsame _ (by decide)]
    exact h.sectionSize
  · rw [hsame _ (by decide)]
    exact h.sectionName
  · rw [hsame _ (by decide)]
    exact h.formatName
  · rw [hsame _ (by decide)]
    exact h.splitStd
  · exact h.ranked

/-! ## Records that name things by texts -/

/-- Whatever is a name in a record is a text. -/
structure NamesByTexts (fields : Fields) : Prop where
  sectionName : ∀ v ∈ fields.get? "section_name", v.text?.isSome
  formatName : ∀ v ∈ fields.get? "format", v.text?.isSome
  symbols : ∀ v ∈ fields.get? "symbols", ∀ items ∈ v.elements?, ∀ item ∈ items,
    ∀ parts ∈ item.fields?, ∀ key ∈ (["name", "demangled", "crate"] : List Text),
      ∀ v ∈ parts.get? key, v.text?.isSome

/-- What is read then is a report as an analysis makes it. -/
theorem IsReadFrom.isTextual (h : r.IsReadFrom fields) (hnames : NamesByTexts fields) :
    r.IsTextual := by
  have htext : ∀ v : Value, v.text?.isSome → ∃ t, v = .text t := by
    intro v hv
    obtain ⟨t, ht⟩ := Option.isSome_iff_exists.1 hv
    exact ⟨t, Value.text?_eq_some_iff.1 ht⟩
  obtain ⟨v, items, hv, hitems, hsymbols⟩ := h.symbols
  refine ⟨forall_of_forall₂ hsymbols ?_, htext _ (hnames.sectionName _ h.sectionName), ?_, _,
    h.splitStd.symm⟩
  · rintro item hitem s ⟨parts, hparts, hread⟩
    have hpart := hnames.symbols v hv items hitems item hitem parts hparts
    obtain ⟨t, ht⟩ := htext _ (hpart "crate" (by decide) _ hread.crate)
    exact ⟨htext _ (hpart "name" (by decide) _ hread.name),
      htext _ (hpart "demangled" (by decide) _ hread.shown), t, Value.scalar.inj ht⟩
  · rw [← h.formatName]
    cases hformat : fields.get? "format" with
    | none => exact ⟨[], rfl⟩
    | some v => exact htext v (hnames.formatName v hformat)

/-- **Reading a record.** A report that is read from a record with texts for names is one as an
analysis makes it. What the record says about crates, if anything, does not matter: the report has
the table of its own symbols. The report is read back from what is written for it; and so is every
report whose crates can be ranked. -/
theorem ofValue_normalises :
    (∀ (fields : Fields) (r : Report), NamesByTexts fields → ofValue (.object fields) = .ok r →
      r.IsTextual ∧
      ofValue (.object (fields.without "crates")) = .ok r ∧
      (∀ crates, ofValue (.object (fields.insert (.text "crates") crates)) = .ok r) ∧
      IsTable r.symbols r.crates ∧
      ofValue r.toValue = .ok r) ∧
    ∀ (r : Report) (b : Bool), r.splitStd = .bool b → r.ranked = .ok r →
      ofValue r.toValue = .ok r := by
  have hback : ∀ (r : Report) (b : Bool), r.splitStd = .bool b → r.ranked = .ok r →
      ofValue r.toValue = .ok r :=
    fun _ _ hsplit hranked => ofValue_valueWith _ hsplit hranked
  refine ⟨fun fields r hnames h => ?_, hback⟩
  have hread := ofValue_eq_ok.1 h
  have htextual := hread.isTextual hnames
  refine ⟨htextual, ?_, fun crates => ?_, isTable_crates fun s hs => (htextual.symbols s hs).crate,
    hback r _ hread.splitStd.symm hread.ranked⟩
  · exact ofValue_eq_ok.2 (hread.of_get?_eq fun key hkey => fields.get?_without hkey)
  · exact ofValue_eq_ok.2 (hread.of_get?_eq fun key hkey => fields.get?_insert hkey crates)

/-- A record with an invented table of crates, in which sizes and addresses are a text, a truth
value, a fraction and an integer, and what should be truth values is not. -/
def looseRecord : Fields :=
  [(.text "crates", .list [crateValue ⟨.text "invented", 1000, 1⟩]),
    (.text "file_size", .text " 4_096\n"),
    (.text "section_size", .scalar (.float (.ofMagnitudeBits false 0x4029800000000000))),
    (.text "section_name", .text ".text"),
    (.text "split_std", .list [.null]),
    (.text "symbols", .list
      [.record [("name", .text "a"), ("demangled", .text "a"), ("size", .text "-7"),
        ("address", .bool true), ("crate", .text "app"), ("is_exact", .text "no")],
      .record [("name", .text "b"), ("demangled", .text "b"),
        ("size", .scalar (.float (.ofMagnitudeBits false 0x4029800000000000))),
        ("address", .integer 4096), ("crate", .text "std"), ("is_exact", .null)]])]

/-- What is read from it. -/
def looseReport : Report where
  fileSize := 4096
  sectionSize := 12
  sectionName := .text ".text"
  formatName := .text []
  splitStd := .bool true
  symbols := [⟨.text "a", .text "a", -7, 1, .text "app", true⟩,
    ⟨.text "b", .text "b", 12, 4096, .text "std", false⟩]

theorem looseRecord_normalised :
    ofValue (.object looseRecord) = .ok looseReport
      ∧ ofValue (.object (looseRecord.without "crates")) = .ok looseReport
      ∧ looseReport.crates = [⟨.text "std", 12, 1⟩, ⟨.text "app", -7, 1⟩]
      ∧ ofValue looseReport.toValue = .ok looseReport := by
  have hnames : NamesByTexts looseRecord :=
    ⟨by decide +kernel, by decide +kernel, by decide +kernel⟩
  have hread : looseReport.IsReadFrom looseRecord := by
    refine ⟨⟨_, _, rfl, rfl, .cons ⟨_, rfl, ?_⟩ (.cons ⟨_, rfl, ?_⟩ .nil)⟩,
      ⟨_, rfl, by decide +kernel⟩, ⟨_, rfl, by decide +kernel⟩, rfl, rfl, rfl, ranked_eq_ok ?_⟩
    · exact ⟨rfl, rfl, ⟨_, rfl, by decide +kernel⟩, ⟨_, rfl, rfl⟩, rfl, ⟨_, rfl, rfl⟩⟩
    · exact ⟨rfl, rfl, ⟨_, rfl, by decide +kernel⟩, ⟨_, rfl, rfl⟩, rfl, ⟨_, rfl, rfl⟩⟩
    · simp [looseReport]
  obtain ⟨-, hwithout, -, -, hback⟩ := ofValue_normalises.1 _ _ hnames (ofValue_eq_ok.2 hread)
  exact ⟨ofValue_eq_ok.2 hread, hwithout, by cbv, hback⟩

end Report

end CrateLedger
