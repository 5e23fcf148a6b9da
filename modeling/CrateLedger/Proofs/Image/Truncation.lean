import CrateLedger.Proofs.Image.Errors

/-!
# Data that is cut short

Reading the beginning of some data is compared with reading all of it. A record is either inside the
beginning, and then it is the same record, or it is not, and then reading the beginning breaks off
there. So whatever is read by records alone is read alike or not at all, through all the steps that
follow. Names are the exception: a name may end with the data, so that a cut shortens it.
-/

namespace CrateLedger

variable {ε α β γ δ : Type} {breaks : ε → Prop} {R : α → β → Prop} {S : γ → δ → Prop}

/-- The outcome of reading the beginning of some data, beside that of reading all of it: the first
breaks off, or both fail alike, or both give something and the two are related. -/
inductive Truncates (breaks : ε → Prop) (R : α → β → Prop) : Except ε α → Except ε β → Prop where
  | broken {e : ε} {whole : Except ε β} (h : breaks e) : Truncates breaks R (.error e) whole
  | failed (e : ε) : Truncates breaks R (.error e) (.error e)
  | given {a : α} {b : β} (h : R a b) : Truncates breaks R (.ok a) (.ok b)

namespace Truncates

theorem refl (x : Except ε α) : Truncates breaks Eq x x := by
  cases x with
  | error e => exact .failed e
  | ok a => exact .given rfl

theorem mono {R' : α → β → Prop} {x : Except ε α} {y : Except ε β} (h : Truncates breaks R x y)
    (hR : ∀ a b, R a b → R' a b) : Truncates breaks R' x y := by
  cases h with
  | broken he => exact .broken he
  | failed e => exact .failed e
  | given hab => exact .given (hR _ _ hab)

/-- Steps are compared one by one. -/
theorem bind {x : Except ε α} {y : Except ε β} {f : α → Except ε γ} {g : β → Except ε δ}
    (h : Truncates breaks R x y) (hf : ∀ a b, R a b → Truncates breaks S (f a) (g b)) :
    Truncates breaks S (x >>= f) (y >>= g) := by
  cases h with
  | broken he => exact .broken he
  | failed e => exact .failed e
  | given hab => exact hf _ _ hab

/-- The same, where both first steps give the same. -/
theorem bindEq {x y : Except ε α} {f : α → Except ε γ} {g : α → Except ε δ}
    (h : Truncates breaks Eq x y) (hf : ∀ a, y = .ok a → Truncates breaks S (f a) (g a)) :
    Truncates breaks S (x >>= f) (y >>= g) := by
  cases h with
  | broken he => exact .broken he
  | failed e => exact .failed e
  | given hab =>
    subst hab
    exact hf _ rfl

theorem mapM {f : γ → Except ε α} {g : γ → Except ε β} {xs : List γ}
    (h : ∀ x ∈ xs, Truncates breaks R (f x) (g x)) :
    Truncates breaks (List.Forall₂ R) (xs.mapM f) (xs.mapM g) := by
  induction xs with
  | nil => exact .given .nil
  | cons x xs ih =>
    rw [List.mapM_cons, List.mapM_cons]
    refine (h x List.mem_cons_self).bind fun a b hab => ?_
    refine (ih fun y hy => h y (List.mem_cons_of_mem _ hy)).bind fun as bs hrest => ?_
    exact .given (.cons hab hrest)

theorem mapMEq {f g : γ → Except ε α} {xs : List γ}
    (h : ∀ x ∈ xs, Truncates breaks Eq (f x) (g x)) :
    Truncates breaks Eq (xs.mapM f) (xs.mapM g) := by
  have hall := mapM h
  rwa [List.forall₂_eq_eq_eq] at hall

/-- What is read of the whole is read of the beginning too, unless this breaks off. -/
theorem of_whole {x : Except ε α} {b : β} (h : Truncates breaks R x (.ok b)) :
    (∃ a, x = .ok a ∧ R a b) ∨ ∃ e, x = .error e ∧ breaks e := by
  cases h with
  | broken he => exact .inr ⟨_, rfl, he⟩
  | given hab => exact .inl ⟨_, rfl, hab⟩

/-- What is read of the beginning is read of the whole. -/
theorem of_part {a : α} {y : Except ε β} (h : Truncates breaks R (.ok a) y) :
    ∃ b, y = .ok b ∧ R a b := by
  cases h with
  | given hab => exact ⟨_, rfl, hab⟩

end Truncates

/-! ## Faults -/

/-- Any fault breaks off. -/
abbrev Image.Fault.Any : Image.Fault → Prop := fun _ => True

open Image

namespace Truncates

/-- A fault breaks off whatever comes behind it. -/
theorem of_fault {format : Format} {fault : Fault} {f : α → Except ReadError γ}
    {y : Except ReadError δ} :
    Truncates ReadError.Refuses S (Image.within format (.error fault) >>= f) y :=
  .broken (.malformed format fault)

theorem within {x : Except Fault α} {y : Except Fault β} (format : Format)
    (h : Truncates Fault.Any R x y) :
    Truncates ReadError.Refuses R (Image.within format x) (Image.within format y) := by
  cases h with
  | broken => exact .broken (.malformed format _)
  | failed e => exact .failed _
  | given hab => exact .given hab

/-- A table is read record by record. -/
theorem readTable {f : Nat → Except ε α} {g : Nat → Except ε β}
    (h : ∀ i, Truncates breaks R (f i) (g i)) (index count : Nat) :
    Truncates breaks (List.Forall₂ R) (Image.readTable f index count)
      (Image.readTable g index count) := by
  induction count generalizing index with
  | zero => exact .given .nil
  | succ count ih =>
    refine (h index).bind fun a b hab => (ih (index + 1)).bind fun as bs hrest => ?_
    exact .given (.cons hab hrest)

theorem readTableEq {f g : Nat → Except ε α} (h : ∀ i, Truncates breaks Eq (f i) (g i))
    (index count : Nat) : Truncates breaks Eq (Image.readTable f index count)
      (Image.readTable g index count) := by
  have hall := readTable h index count
  rwa [List.forall₂_eq_eq_eq] at hall

theorem walkMapM {f g : γ → Except ε α} {walk : Walk ε γ}
    (h : ∀ x ∈ walk.items, Truncates breaks Eq (f x) (g x)) :
    Truncates breaks Eq (walk.mapM f) (walk.mapM g) :=
  (Truncates.mapMEq h).bindEq fun _ _ => .refl _

end Truncates

/-- A walk that breaks off gives no list. -/
theorem Image.Walk.mapM_of_failure {f : α → Except ε β} {walk : Walk ε α} {e : ε}
    (h : walk.failure = some e) : ∃ e', walk.mapM f = .error e' := by
  cases hitems : walk.items.mapM f with
  | error e' => exact ⟨e', Walk.mapM_eq_error.2 (.inl hitems)⟩
  | ok bs => exact ⟨e, Walk.mapM_eq_error.2 (.inr ⟨⟨bs, hitems⟩, h⟩)⟩

/-! ## Bytes -/

namespace Bytes

variable (part rest : Bytes)

theorem slice_append {start length : Nat} (h : start + length ≤ part.size) :
    (part ++ rest).slice start length = part.slice start length := by
  have hnone : rest.extract (start - part.size) (start + length - part.size) = #[] :=
    Array.extract_empty_of_stop_le_start (by omega)
  rw [slice, Array.extract_append, hnone, Array.append_empty]
  rfl

theorem slice_append_of_eq {start : Nat} {bytes : List UInt8} (hne : bytes ≠ [])
    (h : (part.slice start bytes.length).toList = bytes) :
    (part ++ rest).slice start bytes.length = part.slice start bytes.length := by
  have hlength := congrArg List.length h
  have hpos := List.length_pos_of_ne_nil hne
  rw [Array.length_toList, slice, Array.size_extract] at hlength
  exact slice_append part rest (by omega)

/-- A prefix of the data and what it was cut off. -/
theorem slice_append_extract {data : Bytes} {n : Nat} (h : n ≤ data.size) :
    data.slice 0 n ++ data.extract n data.size = data := by
  rw [slice, Nat.zero_add, Array.extract_append_extract, Nat.max_eq_right h, Nat.zero_min,
    Array.extract_size]

theorem number_append {order : ByteOrder} {start width : Nat} (h : start + width ≤ part.size) :
    (part ++ rest).number order start width = part.number order start width := by
  rw [number, number, slice_append part rest h]

/-- The beginning of what starts with some bytes need not do so, but not the other way round. -/
theorem startsWith_append {head : List UInt8} (h : part.startsWith head = true) :
    (part ++ rest).startsWith head = true := by
  obtain ⟨after, hafter⟩ := startsWith_iff.1 h
  refine startsWith_iff.2 ⟨after ++ rest.toList, ?_⟩
  rw [List.drop_zero] at hafter ⊢
  rw [Array.toList_append, ← hafter, List.append_assoc]

theorem record_truncates (offset : Int) (size : Nat) :
    Truncates Fault.Any Eq (part.record offset size) ((part ++ rest).record offset size) := by
  unfold record
  rw [Array.size_append]
  by_cases hin : offset < 0 ∨ part.size < offset + size
  · rw [if_pos hin]
    exact .broken trivial
  · rw [if_neg hin, if_neg (by omega), slice_append part rest (by omega)]
    exact .refl _

/-! ## Names -/

/-- The bytes of a name in the beginning are those of the whole, or some are missing. They are only
missing if the name starts in the beginning and may go on behind it, and goes on there. -/
theorem untilNul_append (stop : Nat) {offset : Nat} (hoffset : offset ≤ part.size) :
    ∃ more, (part ++ rest).untilNul offset stop = part.untilNul offset (min stop part.size) ++ more ∧
      (more ≠ [] → part.size < stop ∧ ∃ b, rest[0]? = some b ∧ b ≠ 0) := by
  obtain ⟨left, hleft⟩ : ∃ left, part.size = offset + left := ⟨part.size - offset, by omega⟩
  induction left generalizing offset with
  | zero =>
    -- The beginning ends here, so all of the name is missing.
    refine ⟨(part ++ rest).untilNul offset stop, ?_, fun hne => ?_⟩
    · rw [untilNul.eq_def part, dif_neg (by omega), List.nil_append]
    · rw [untilNul] at hne
      split at hne
      · rename_i hin
        have hfirst : (part ++ rest)[offset]? = rest[0]? := by
          rw [Array.getElem?_append_right (by omega)]
          congr 1
          omega
        rw [Array.getElem?_eq_getElem hin.2] at hfirst
        split at hne
        · exact absurd rfl hne
        · rename_i hnul
          exact ⟨by omega, _, hfirst.symm, hnul⟩
      · exact absurd rfl hne
  | succ left ih =>
    have hsize : offset < part.size := by omega
    have hwhole : offset < (part ++ rest).size := by
      rw [Array.size_append]
      omega
    have hbyte : (part ++ rest)[offset] = part[offset] := Array.getElem_append_left hsize
    rw [untilNul.eq_def (part ++ rest), untilNul.eq_def part]
    by_cases hstop : offset < stop
    · rw [dif_pos ⟨hstop, hwhole⟩, dif_pos ⟨by omega, hsize⟩, hbyte]
      by_cases hnul : part[offset] = 0
      · exact ⟨[], by rw [if_pos hnul, if_pos hnul]; rfl, fun hne => absurd rfl hne⟩
      · obtain ⟨more, hmore, hgoes⟩ := @ih (offset + 1) (by omega) (by omega)
        refine ⟨more, ?_, hgoes⟩
        rw [if_neg hnul, if_neg hnul, hmore, List.cons_append]
    · rw [dif_neg (by omega), dif_neg (by omega)]
      exact ⟨[], rfl, fun hne => absurd rfl hne⟩

/-- A name that is read from the beginning and from the whole of some data. If the cut goes through
it, some of its bytes are missing. -/
inductive CutName (offset : Int) (limit : Option Nat) : Text → Text → Prop where
  | same (t : Text) : CutName offset limit t t
  | cut {bytes more : List UInt8} (hne : more ≠ []) (hoffset : offset ≤ part.size)
    (hlimit : ∀ stop ∈ limit, part.size < stop) (hnul : ∃ b, rest[0]? = some b ∧ b ≠ 0) :
    CutName offset limit (Utf8.decodeTolerant bytes) (Utf8.decodeTolerant (bytes ++ more))

theorem name_truncates (offset : Int) (limit : Option Nat) :
    Truncates Fault.Any (CutName part rest offset limit) (part.name offset limit)
      ((part ++ rest).name offset limit) := by
  unfold name
  simp only [Array.size_append]
  by_cases hin : offset < 0 ∨ (min (limit.getD part.size) part.size : Nat) < offset
  · rw [if_pos hin]
    exact .broken trivial
  · have hoffset : offset.toNat ≤ part.size := by omega
    have hout : ¬ (offset < 0 ∨ (min (limit.getD (part.size + rest.size)) (part.size + rest.size)
        : Nat) < offset) := by
      cases limit <;> simp only [Option.getD_none, Option.getD_some] at hin ⊢ <;> omega
    rw [if_neg hin, if_neg hout]
    obtain ⟨more, hmore, hgoes⟩ := untilNul_append part rest
      (min (limit.getD (part.size + rest.size)) (part.size + rest.size)) hoffset
    have hstop : min (min (limit.getD (part.size + rest.size)) (part.size + rest.size)) part.size
        = min (limit.getD part.size) part.size := by
      cases limit <;> simp only [Option.getD_none, Option.getD_some] <;> omega
    rw [hstop] at hmore
    rw [hmore]
    refine .given ?_
    by_cases hne : more = []
    · rw [hne, List.append_nil]
      exact .same _
    · obtain ⟨hlong, hnul⟩ := hgoes hne
      refine .cut hne (by omega) ?_ hnul
      intro stop hmem
      rw [Option.mem_def.1 hmem, Option.getD_some] at hlong
      omega

/-- A name that the cut does not go through is read alike or not at all. -/
theorem name_truncates_of_whole {offset : Int} {limit : Option Nat}
    (h : offset ≤ part.size → (∀ stop ∈ limit, part.size < stop) →
      ∀ b, rest[0]? = some b → b = 0) :
    Truncates Fault.Any Eq (part.name offset limit) ((part ++ rest).name offset limit) := by
  refine (name_truncates part rest offset limit).mono fun t t' hname => ?_
  cases hname with
  | same => rfl
  | cut _ hoffset hlimit hnul =>
    obtain ⟨b, hb, hne⟩ := hnul
    exact absurd (h hoffset hlimit b hb) hne

end Bytes

/-! ## Symbols -/

namespace Image

section Alike

variable {N : Text → Text → Prop}

/-- Two symbols that are the same but for their names, which are related. -/
structure AlikeSymbol (N : Text → Text → Prop) (a b : RawSymbol) : Prop where
  address : a.address = b.address
  size : a.size = b.size
  sectionName : a.sectionName = b.sectionName
  name : N a.name b.name

/-- Two readings of the same symbols in the same order, but for their names. The files need not have
the same size. -/
structure AlikeReading (N : Text → Text → Prop) (a b : Reading) : Prop where
  formatName : a.table.formatName = b.table.formatName
  sectionName : a.table.sectionName = b.table.sectionName
  sectionSize : a.table.sectionSize = b.table.sectionSize
  notices : a.notices = b.notices
  entries : List.Forall₂ (AlikeSymbol N) a.table.entries b.table.entries

theorem AlikeSymbol.eq {a b : RawSymbol} (h : AlikeSymbol Eq a b) : a = b := by
  cases a
  cases b
  simp only [RawSymbol.mk.injEq]
  exact ⟨h.address, h.size, h.sectionName, h.name⟩

theorem AlikeReading.entries_eq {a b : Reading} (h : AlikeReading Eq a b) :
    a.table.entries = b.table.entries :=
  List.forall₂_eq_eq_eq ▸ h.entries.imp fun _ _ => AlikeSymbol.eq

/-- Derived sizes do not depend on names. -/
theorem alike_assignGapSizes {as bs : List RawSymbol} (h : List.Forall₂ (AlikeSymbol N) as bs)
    (first last : Int) : List.Forall₂ (AlikeSymbol N) (assignGapSizes as first last)
      (assignGapSizes bs first last) := by
  have haddresses : as.map RawSymbol.address = bs.map RawSymbol.address := by
    induction h with
    | nil => rfl
    | cons hab _ ih => rw [List.map_cons, List.map_cons, hab.address, ih]
  unfold assignGapSizes
  rw [haddresses, List.forall₂_map_left_iff, List.forall₂_map_right_iff]
  refine h.imp fun a b hab => ?_
  exact ⟨hab.address, by rw [hab.address], hab.sectionName, hab.name⟩

end Alike

end Image

end CrateLedger
