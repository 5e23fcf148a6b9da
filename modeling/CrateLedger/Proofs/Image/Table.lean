import CrateLedger.Proofs.Checked
import CrateLedger.Proofs.Image.Bytes

/-!
# Tables of records

A table whose records can all be read is read, and the first record that is wanted is found with its
number. In two tables whose records are related one by one, related records are found.
-/

namespace CrateLedger.Image

variable {ε α β γ δ : Type}

theorem within_ok (format : Format) (a : α) : within format (.ok a) = .ok a := rfl

/-- A table is read if the record of each index is. -/
theorem readTable_eq_ok {read : Nat → Except ε α} {xs : List α} {index : Nat}
    (h : ∀ (i : Nat) (hi : i < xs.length), read (index + i) = .ok xs[i]) :
    readTable read index xs.length = .ok xs := by
  induction xs generalizing index with
  | nil => rfl
  | cons x xs ih =>
    have hfirst : read index = .ok x := h 0 (Nat.zero_lt_succ _)
    have hrest : readTable read (index + 1) xs.length = .ok xs := by
      apply ih
      intro i hi
      have := h (i + 1) (Nat.succ_lt_succ hi)
      rwa [Nat.add_assoc, Nat.add_comm 1]
    simp only [List.length_cons, readTable, hfirst, hrest, bind, Except.bind, pure, Except.pure]

/-- What holds of the record of each index holds of a table. -/
theorem forall_of_readTable_eq_ok {read : Nat → Except ε α} {P : α → Prop}
    (hread : ∀ i a, read i = .ok a → P a) {index count : Nat} {as : List α}
    (h : readTable read index count = .ok as) : ∀ a ∈ as, P a := by
  induction count generalizing index as with
  | zero =>
    cases h
    simp
  | succ count ih =>
    obtain ⟨first, hfirst, h⟩ := bind_eq_ok.1 h
    obtain ⟨rest, hrest, h⟩ := bind_eq_ok.1 h
    cases h
    exact List.forall_mem_cons.2 ⟨hread _ _ hfirst, ih hrest⟩

/-- Going over a walk that did not break off is going over its items. -/
theorem Walk.mapM_finished (f : α → Except ε β) (items : List α) :
    Walk.mapM f ⟨items, none⟩ = items.mapM f := by
  unfold Walk.mapM
  cases items.mapM f <;> rfl

/-- The first wanted item of a list is found with its number. -/
theorem find?_zipIdx {wanted : α → Bool} {before after : List α} {target : α} {first : Nat}
    (hbefore : ∀ x ∈ before, wanted x = false) (htarget : wanted target = true) :
    ((before ++ target :: after).zipIdx first).find? (fun x => wanted x.1)
      = some (target, first + before.length) := by
  induction before generalizing first with
  | nil => simp [htarget]
  | cons x before ih =>
    have hrest := @ih (first + 1) fun y hy => hbefore y (List.mem_cons_of_mem _ hy)
    rw [List.cons_append, List.zipIdx_cons, List.find?_cons, hbefore x List.mem_cons_self, hrest,
      List.length_cons, Nat.add_assoc, Nat.add_comm 1]

/-- The first item of a name is found with its number from one. -/
theorem find?_named (name : α → Text) {wanted : Text} {before after : List α} {target : α}
    (hbefore : ∀ x ∈ before, name x ≠ wanted) (htarget : name target = wanted) :
    ((before ++ target :: after).zipIdx 1).find?
        (fun x => decide (Value.text wanted = .text (name x.1)))
      = some (target, before.length + 1) := by
  have hskip : ∀ x ∈ before, decide (Value.text wanted = .text (name x)) = false := fun x hx =>
    decide_eq_false fun heq => hbefore x hx (Value.text_inj.1 heq).symm
  have hhit : decide (Value.text wanted = .text (name target)) = true :=
    decide_eq_true (Value.text_inj.2 htarget.symm)
  rw [Nat.add_comm]
  exact find?_zipIdx hskip hhit

/-- Taking what is wanted from a table is filtering it. -/
theorem filterMap_ite (wanted : α → Prop) [DecidablePred wanted] (f : α → β) (xs : List α) :
    xs.filterMap (fun x => if wanted x then some (f x) else none) = (xs.filter wanted).map f := by
  induction xs with
  | nil => rfl
  | cons x xs ih =>
    by_cases hx : wanted x
    · simp only [List.filterMap_cons, List.filter_cons, hx, decide_true, if_true, ih, List.map_cons]
    · simp only [List.filterMap_cons, List.filter_cons, hx, decide_false, Bool.false_eq_true,
        if_false, ih]

/-! ## Related tables -/

section Related

variable {R : α → β → Prop}

theorem find?_rel {p : α → Bool} {q : β → Bool} {as : List α} {bs : List β}
    (h : List.Forall₂ R as bs) (hpq : ∀ a b, R a b → p a = q b) :
    Option.Rel R (as.find? p) (bs.find? q) := by
  induction h with
  | nil => exact .none
  | @cons a b as bs hab _ ih =>
    rw [List.find?_cons, List.find?_cons, hpq a b hab]
    cases q b with
    | true => exact .some hab
    | false => exact ih

theorem zipWith_rel {S : γ → β → Prop} {f : α → β → γ} {as : List α} {bs : List β}
    (h : List.Forall₂ R as bs) (hf : ∀ a b, R a b → S (f a b) b) :
    List.Forall₂ S (List.zipWith f as bs) bs := by
  induction h with
  | nil => exact .nil
  | cons hab _ ih => exact .cons (hf _ _ hab) ih

theorem zipIdx_rel {as : List α} {bs : List β} (h : List.Forall₂ R as bs) (first : Nat) :
    List.Forall₂ (fun x y => R x.1 y.1 ∧ x.2 = y.2) (as.zipIdx first) (bs.zipIdx first) := by
  induction h generalizing first with
  | nil => exact .nil
  | cons hab _ ih => exact .cons ⟨hab, rfl⟩ (ih (first + 1))

theorem option_bind_rel {S : γ → δ → Prop} {x : Option α} {y : Option β} {f : α → Option γ}
    {g : β → Option δ} (h : Option.Rel R x y) (hfg : ∀ a b, R a b → Option.Rel S (f a) (g b)) :
    Option.Rel S (x.bind f) (y.bind g) := by
  cases h with
  | none => exact .none
  | some hab => exact hfg _ _ hab

end Related

end CrateLedger.Image
