import CrateLedger.Proofs.Image.Truncation

/-!
# Mach-O images that are cut short

Headers, load commands, section records and symbol records of an image that is cut short are those
of the whole, or reading breaks off. The names of symbols are not looked at as a whole: a name ends
with the image at the latest, whatever the size of the string table is.

Main statement: reading the beginning of an image breaks off, or it gives the symbols of the whole,
with names that are related as the names in the two string tables are.
-/

namespace CrateLedger.Image.MachO

variable {l : Layout} {part rest : Bytes} {N : Text → Text → Prop}

theorem layout?_append (h : layout? part = some l) : layout? (part ++ rest) = some l := by
  unfold layout? at h ⊢
  split at h
  · cases h
  · rename_i hsize
    have hlong : ¬ (part ++ rest).size < 4 := by
      rw [Array.size_append]
      omega
    rw [if_neg hlong, Bytes.number_append part rest (by omega),
      Bytes.number_append part rest (by omega)]
    exact h

/-! ## Load commands -/

/-- The load commands in the beginning of an image are those of the whole, or the walk through them
breaks off. -/
theorem commands_truncates (offset count : Nat) :
    commands l part offset count = commands l (part ++ rest) offset count ∨
      ∃ fault, (commands l part offset count).failure = some fault := by
  induction count generalizing offset with
  | zero => exact .inl rfl
  | succ count ih =>
    have hrecord := Bytes.record_truncates part rest offset 8
    unfold commands
    cases hpart : part.record offset 8 with
    | error fault => exact .inr ⟨fault, rfl⟩
    | ok r =>
      rw [hpart] at hrecord
      obtain ⟨_, hwhole, rfl⟩ := hrecord.of_part
      simp only [hwhole]
      by_cases hsmall : r.number l.order 4 4 < 8
      · exact .inl (by rw [if_pos hsmall, if_pos hsmall])
      · rw [if_neg hsmall, if_neg hsmall]
        rcases ih (offset + r.number l.order 4 4) with hsame | ⟨fault, hfailure⟩
        · exact .inl (by rw [hsame])
        · exact .inr ⟨fault, hfailure⟩

theorem sectionsOf_truncates (c : Command) : Truncates Fault.Any Eq (sectionsOf l part c)
    (sectionsOf l (part ++ rest) c) := by
  unfold sectionsOf
  by_cases hkind : c.kind = l.segmentCommand
  · rw [if_pos hkind, if_pos hkind]
    refine (Bytes.record_truncates part rest c.offset l.segmentSize).bindEq fun r _ => ?_
    refine Truncates.readTableEq (fun i => ?_) 0 _
    exact (Bytes.record_truncates part rest _ l.sectionSize).bindEq fun _ _ => .refl _
  · rw [if_neg hkind, if_neg hkind]
    exact .refl _

theorem symbolCommand?_truncates (cs : List Command) : Truncates Fault.Any Eq
    (symbolCommand? l part cs) (symbolCommand? l (part ++ rest) cs) := by
  unfold symbolCommand?
  split
  · exact .refl _
  · exact (Bytes.record_truncates part rest _ 24).bindEq fun _ _ => .refl _

/-! ## Symbols -/

/-- The symbol command that the load commands of an image lead to. -/
def HasSymbols (l : Layout) (data : Bytes) (table : SymbolCommand) : Prop :=
  ∃ header, data.record 0 28 = .ok header ∧ symbolCommand? l data
    (commands l data l.headerSize (header.number l.order 16 4)).items = .ok (some table)

theorem entryAt_truncates {table : SymbolCommand}
    (hnames : ∀ n, Truncates Fault.Any N (nameOf part table n) (nameOf (part ++ rest) table n))
    (sectionName : Text) (ordinal i : Nat) :
    Truncates Fault.Any (Option.Rel (AlikeSymbol N)) (entryAt l part table sectionName ordinal i)
      (entryAt l (part ++ rest) table sectionName ordinal i) := by
  have hrecord : Truncates Fault.Any Eq (symbolAt l part table i)
      (symbolAt l (part ++ rest) table i) :=
    (Bytes.record_truncates part rest _ l.symbolSize).bindEq fun _ _ => .refl _
  refine hrecord.bindEq fun n _ => ?_
  by_cases hdefined : n.isDefinedIn ordinal = true
  · rw [if_pos hdefined, if_pos hdefined]
    exact (hnames n).bind fun a b hab => .given (.some ⟨rfl, rfl, rfl, hab⟩)
  · rw [if_neg hdefined, if_neg hdefined]
    exact .given .none

theorem forall₂_filterMap {α β : Type} {R : α → β → Prop} {xs : List (Option α)}
    {ys : List (Option β)} (h : List.Forall₂ (Option.Rel R) xs ys) :
    List.Forall₂ R (xs.filterMap id) (ys.filterMap id) := by
  induction h with
  | nil => exact .nil
  | cons hxy _ ih =>
    cases hxy with
    | none => exact ih
    | some hab => exact .cons hab ih

/-! ## Images -/

theorem read_truncates (wanted : Value)
    (hnames : ∀ table, HasSymbols l (part ++ rest) table → ∀ n,
      Truncates Fault.Any N (nameOf part table n) (nameOf (part ++ rest) table n)) :
    Truncates ReadError.Refuses (AlikeReading N) (read l part wanted)
      (read l (part ++ rest) wanted) := by
  unfold read
  refine ((Bytes.record_truncates part rest 0 28).within .machO).bindEq fun header hheader => ?_
  by_cases hshort : part.size < l.headerSize + header.number l.order 20 4
  · simp only [hshort, if_true]
    exact .broken (.malformed _ _)
  have hlong : ¬ (part ++ rest).size < l.headerSize + header.number l.order 20 4 := by
    rw [Array.size_append]
    omega
  simp only [hshort, hlong, if_false]
  rcases @commands_truncates l part rest l.headerSize
    (header.number l.order 16 4) with hsame | ⟨fault, hfailure⟩
  · rw [hsame]
    refine Truncates.bindEq (.within .machO (.walkMapM fun c _ => sectionsOf_truncates c))
      fun sections _ => ?_
    refine ((symbolCommand?_truncates _).within .machO).bindEq fun symbols hsymbols => ?_
    refine (Truncates.refl _).bindEq fun ⟨selector, segment, name⟩ _ => ?_
    dsimp only
    split
    · exact .failed _
    · rename_i target ordinal _
      cases symbols with
      | none => exact .given ⟨rfl, rfl, rfl, rfl, .nil⟩
      | some table =>
        have htable : HasSymbols l (part ++ rest) table :=
          ⟨header, within_eq_ok.1 hheader, within_eq_ok.1 hsymbols⟩
        refine Truncates.bind (.within .machO (.readTable (entryAt_truncates (hnames table htable)
          selector ordinal) 0 table.count)) fun as bs hall => ?_
        refine .given ⟨rfl, rfl, rfl, rfl, alike_assignGapSizes (forall₂_filterMap hall) _ _⟩
  · obtain ⟨fault', hbroken⟩ := Walk.mapM_of_failure (f := sectionsOf l part) hfailure
    rw [hbroken]
    exact .of_fault

/-! ## Names -/

/-- A cut goes through the string table of an image, and not just before a NUL. -/
def CutsName (l : Layout) (data : Bytes) (n : Nat) : Prop :=
  ∃ table, HasSymbols l data table ∧ table.stringOffset < n ∧
    n < table.stringOffset + table.stringSize ∧ ∃ b, data[n]? = some b ∧ b ≠ 0

/-- The name of a symbol as it is shown, without the underscore in front. -/
def shown (name : Text) : Text := (Text.dropHead? "_" name).getD name

/-- A name that is left of another one when bytes at its end are missing. -/
inductive Shortened : Text → Text → Prop where
  | same (t : Text) : Shortened t t
  | cut (bytes more : List UInt8) :
      Shortened (shown (Utf8.decodeTolerant bytes)) (shown (Utf8.decodeTolerant (bytes ++ more)))

theorem nameOf_truncates (table : SymbolCommand) (n : Nlist) :
    Truncates Fault.Any Shortened (nameOf part table n) (nameOf (part ++ rest) table n) := by
  unfold nameOf
  by_cases hnone : n.nameOffset = 0
  · rw [if_pos hnone, if_pos hnone]
    exact .given (.same [])
  · rw [if_neg hnone, if_neg hnone]
    refine (Bytes.name_truncates part rest _ _).bind fun t t' hname => .given ?_
    cases hname with
    | same => exact .same _
    | cut => exact .cut _ _

/-- A name that a symbol has starts behind the first byte of the string table, so a cut that does
not go through the table leaves it whole. -/
theorem nameOf_truncates_of_whole (hcut : ¬ CutsName l (part ++ rest) part.size)
    {table : SymbolCommand} (htable : HasSymbols l (part ++ rest) table) (n : Nlist) :
    Truncates Fault.Any Eq (nameOf part table n) (nameOf (part ++ rest) table n) := by
  unfold nameOf
  by_cases hnone : n.nameOffset = 0
  · rw [if_pos hnone, if_pos hnone]
    exact .refl _
  · rw [if_neg hnone, if_neg hnone]
    refine (Bytes.name_truncates_of_whole part rest ?_).bindEq fun _ _ => .refl _
    intro hoffset hstop b hb
    by_contra hne
    refine hcut ⟨table, htable, by omega, hstop _ rfl, b, ?_, hne⟩
    rwa [Array.getElem?_append_right le_rfl, Nat.sub_self]

end CrateLedger.Image.MachO
