import Mathlib.Data.List.Forall2

/-!
# Computations that succeed or fail

What is known when a computation that can fail has succeeded: its parts have succeeded with the
results that it is made of. When it has failed, one of its parts has failed in the same way.
-/

namespace CrateLedger

variable {ε α β γ : Type}

/-- A computation in two steps succeeds if both steps do. -/
theorem bind_eq_ok {x : Except ε α} {f : α → Except ε β} {b : β} :
    x >>= f = .ok b ↔ ∃ a, x = .ok a ∧ f a = .ok b := by
  cases x with
  | error e => simp [bind, Except.bind]
  | ok a => simp [bind, Except.bind]

/-- A computation has succeeded if there is something to look at. -/
theorem exists_eq_ok_of_toOption {x : Except ε α} {look : α → β} {b : β}
    (h : x.toOption.map look = some b) : ∃ a, x = .ok a ∧ look a = b := by
  cases x with
  | error e => cases h
  | ok a => exact ⟨a, rfl, Option.some.inj h⟩

/-- Going over a list succeeds if each item does, and then the results are those of the items. -/
theorem mapM_eq_ok {f : α → Except ε β} {xs : List α} {ys : List β} :
    xs.mapM f = .ok ys ↔ List.Forall₂ (fun x y => f x = .ok y) xs ys := by
  induction xs generalizing ys with
  | nil =>
    rw [List.mapM_nil, List.forall₂_nil_left_iff]
    exact ⟨fun h => (Except.ok.inj h).symm, fun h => h ▸ rfl⟩
  | cons x xs ih =>
    rw [List.mapM_cons, List.forall₂_cons_left_iff, bind_eq_ok]
    constructor
    · rintro ⟨y, hy, h⟩
      obtain ⟨rest, hrest, h⟩ := bind_eq_ok.1 h
      exact ⟨y, rest, hy, ih.1 hrest, (Except.ok.inj h).symm⟩
    · rintro ⟨y, rest, hy, hrest, rfl⟩
      exact ⟨y, hy, bind_eq_ok.2 ⟨rest, ih.2 hrest, rfl⟩⟩

/-- If it is known of each item when it succeeds and with what, it is known of the list. -/
theorem mapM_eq_ok_map {f : α → Except ε β} {P : α → Prop} {g : α → β}
    (h : ∀ x y, f x = .ok y ↔ P x ∧ g x = y) {xs : List α} {ys : List β} :
    xs.mapM f = .ok ys ↔ (∀ x ∈ xs, P x) ∧ ys = xs.map g := by
  simp only [mapM_eq_ok, h]
  rw [List.forall₂_and_left, ← List.forall₂_map_left_iff (f := g), List.forall₂_eq_eq_eq,
    eq_comm (a := ys)]

/-- Going over a list and then over the results succeeds if both do for each item. -/
theorem mapM_mapM_eq_ok {f : α → Except ε β} {g : β → Except ε γ} {xs : List α} {zs : List γ} :
    (∃ ys, xs.mapM f = .ok ys ∧ ys.mapM g = .ok zs)
      ↔ List.Forall₂ (fun x z => ∃ y, f x = .ok y ∧ g y = .ok z) xs zs := by
  simp only [mapM_eq_ok]
  constructor
  · rintro ⟨ys, hxs, hys⟩
    induction hxs generalizing zs with
    | nil =>
      rw [List.forall₂_nil_left_iff.1 hys]
      exact .nil
    | cons hxy _ ih =>
      obtain ⟨z, rest, hyz, hrest, rfl⟩ := List.forall₂_cons_left_iff.1 hys
      exact .cons ⟨_, hxy, hyz⟩ (ih hrest)
  · intro h
    induction h with
    | nil => exact ⟨[], .nil, .nil⟩
    | cons hxz _ ih =>
      obtain ⟨y, hxy, hyz⟩ := hxz
      obtain ⟨ys, hxs, hys⟩ := ih
      exact ⟨y :: ys, .cons hxy hxs, .cons hyz hys⟩

/-- Going over a list succeeds if and only if each item does. -/
theorem exists_mapM_eq_ok {f : α → Except ε β} {xs : List α} :
    (∃ ys, xs.mapM f = .ok ys) ↔ ∀ x ∈ xs, ∃ y, f x = .ok y := by
  simp only [mapM_eq_ok]
  induction xs with
  | nil => simp
  | cons x xs ih =>
    rw [List.forall_mem_cons, ← ih]
    constructor
    · rintro ⟨ys, hys⟩
      obtain ⟨y, rest, hy, hrest, -⟩ := List.forall₂_cons_left_iff.1 hys
      exact ⟨⟨y, hy⟩, rest, hrest⟩
    · rintro ⟨⟨y, hy⟩, rest, hrest⟩
      exact ⟨y :: rest, .cons hy hrest⟩

/-- Going over what stands for other things succeeds with the results of these. -/
theorem mapM_of_forall₂ {R : α → γ → Prop} {f : α → Except ε β} {g : γ → β} {xs : List α}
    {zs : List γ} (h : List.Forall₂ R xs zs) (hf : ∀ x z, R x z → f x = .ok (g z)) :
    xs.mapM f = .ok (zs.map g) := by
  rw [mapM_eq_ok, List.forall₂_map_right_iff]
  exact h.imp hf

/-- A computation in two steps fails if the first step does, or the second. -/
theorem bind_eq_error {x : Except ε α} {f : α → Except ε β} {e : ε} :
    x >>= f = .error e ↔ x = .error e ∨ ∃ a, x = .ok a ∧ f a = .error e := by
  cases x with
  | error e => simp [bind, Except.bind]
  | ok a => simp [bind, Except.bind]

/-- Going over a list fails the way one of its items does. -/
theorem exists_of_mapM_eq_error {f : α → Except ε β} {e : ε} {xs : List α}
    (h : xs.mapM f = .error e) : ∃ x ∈ xs, f x = .error e := by
  induction xs with
  | nil => cases h
  | cons x xs ih =>
    rw [List.mapM_cons] at h
    rcases bind_eq_error.1 h with hfirst | ⟨y, -, h⟩
    · exact ⟨x, List.mem_cons_self, hfirst⟩
    · rcases bind_eq_error.1 h with hrest | ⟨ys, -, hpure⟩
      · obtain ⟨z, hz, hfails⟩ := ih hrest
        exact ⟨z, List.mem_cons_of_mem _ hz, hfails⟩
      · cases hpure

/-- What holds of all that belongs to an item holds of all items of a list that belongs to one. -/
theorem forall_of_forall₂ {R : α → β → Prop} {P : β → Prop} {xs : List α} {ys : List β}
    (h : List.Forall₂ R xs ys) (hP : ∀ x ∈ xs, ∀ y, R x y → P y) : ∀ y ∈ ys, P y := by
  induction h with
  | nil => simp
  | cons hxy _ ih =>
    intro y hy
    rcases List.mem_cons.1 hy with rfl | hy
    · exact hP _ List.mem_cons_self _ hxy
    · exact ih (fun x hx => hP x (List.mem_cons_of_mem _ hx)) y hy

/-- What holds of the result of each item holds of all results. -/
theorem forall_of_mapM_eq_ok {f : α → Except ε β} {P : β → Prop} {xs : List α} {ys : List β}
    (h : xs.mapM f = .ok ys) (hP : ∀ x ∈ xs, ∀ y, f x = .ok y → P y) : ∀ y ∈ ys, P y :=
  forall_of_forall₂ (mapM_eq_ok.1 h) hP

/-- A change to the result of each item is a change to all results, and keeps what fails. -/
theorem mapM_eq_map_mapM {f : α → Except ε β} {g : α → Except ε γ} {change : β → γ}
    (h : ∀ x, g x = (f x).map change) (xs : List α) :
    xs.mapM g = (xs.mapM f).map (List.map change) := by
  induction xs with
  | nil => rfl
  | cons x xs ih =>
    rw [List.mapM_cons, List.mapM_cons, h x, ih]
    cases f x with
    | error e => rfl
    | ok b => cases xs.mapM f <;> rfl

end CrateLedger
