import Mathlib.Data.List.Basic

/-!
# Parts of arrays

Readers of names and of containers both go over an array by index, and what they are to read is
given as a list that stands somewhere in it. A list that stands at an index splits there like any
other list, so a reader of a compound thing is followed part by part.
-/

namespace CrateLedger

variable {α : Type} {xs : Array α} {p : Nat}

/-- A list stands in an array at an index: the array goes on with its items there. -/
def StandsAt (xs : Array α) (p : Nat) (part : List α) : Prop := part <+: xs.toList.drop p

instance [DecidableEq α] (xs : Array α) (p : Nat) (part : List α) :
    Decidable (StandsAt xs p part) :=
  inferInstanceAs (Decidable (part <+: xs.toList.drop p))

@[simp] theorem standsAt_nil : StandsAt xs p [] := List.nil_prefix

theorem standsAt_cons {a : α} {part : List α} :
    StandsAt xs p (a :: part) ↔ xs[p]? = some a ∧ StandsAt xs (p + 1) part := by
  unfold StandsAt
  cases hd : xs.toList.drop p with
  | nil =>
    have hp : xs.size ≤ p := by simpa using hd
    simp [Array.getElem?_eq_none hp]
  | cons b rest =>
    have hp : p < xs.size := by
      by_contra hn
      have : xs.toList.drop p = [] := List.drop_eq_nil_of_le (by simpa using hn)
      rw [hd] at this
      cases this
    have hsplit : xs.toList.drop p = xs.toList[p] :: xs.toList.drop (p + 1) :=
      List.drop_eq_getElem_cons (by simpa using hp)
    rw [hd, List.cons.injEq] at hsplit
    obtain ⟨hb, hrest⟩ := hsplit
    rw [List.cons_prefix_cons, hb, hrest, Array.getElem?_eq_getElem hp, Array.getElem_toList,
      Option.some.injEq, eq_comm]

theorem standsAt_append {front back : List α} :
    StandsAt xs p (front ++ back) ↔ StandsAt xs p front ∧ StandsAt xs (p + front.length) back := by
  induction front generalizing p with
  | nil => simp
  | cons a front ih =>
    rw [List.cons_append, standsAt_cons, standsAt_cons, ih, and_assoc, List.length_cons,
      show p + 1 + front.length = p + (front.length + 1) by omega]

theorem StandsAt.left {front back : List α} (h : StandsAt xs p (front ++ back)) :
    StandsAt xs p front := (standsAt_append.1 h).1

theorem StandsAt.right {front back : List α} (h : StandsAt xs p (front ++ back)) :
    StandsAt xs (p + front.length) back := (standsAt_append.1 h).2

theorem length_flatMap_of_length {β : Type} {f : β → List α} {size : Nat} {ys : List β}
    (h : ∀ y ∈ ys, (f y).length = size) : (ys.flatMap f).length = ys.length * size := by
  induction ys with
  | nil => simp
  | cons y ys ih =>
    rw [List.flatMap_cons, List.length_append, h y List.mem_cons_self,
      ih fun z hz => h z (List.mem_cons_of_mem _ hz), List.length_cons, Nat.succ_mul, Nat.add_comm]

/-- In a row of parts of one size, each part stands where its number puts it. -/
theorem StandsAt.getElem_flatMap {β : Type} {f : β → List α} {size : Nat} {ys : List β}
    (h : StandsAt xs p (ys.flatMap f)) (hsize : ∀ y ∈ ys, (f y).length = size) {i : Nat}
    (hi : i < ys.length) : StandsAt xs (p + i * size) (f ys[i]) := by
  induction ys generalizing p i with
  | nil => cases hi
  | cons y ys ih =>
    rw [List.flatMap_cons] at h
    cases i with
    | zero => simpa using h.left
    | succ i =>
      have hrest := h.right
      rw [hsize y List.mem_cons_self] at hrest
      have hplace := ih hrest (fun z hz => hsize z (List.mem_cons_of_mem _ hz))
        (Nat.lt_of_succ_lt_succ hi)
      rw [Nat.succ_mul, Nat.add_comm (i * size), ← Nat.add_assoc]
      exact hplace

/-- In a row of parts of any sizes, each part stands behind those before it. -/
theorem StandsAt.getElem_flatMap_take {β : Type} {f : β → List α} {ys : List β}
    (h : StandsAt xs p (ys.flatMap f)) {i : Nat} (hi : i < ys.length) :
    StandsAt xs (p + ((ys.take i).flatMap f).length) (f ys[i]) := by
  rw [← List.take_append_drop i ys, List.drop_eq_getElem_cons hi, List.flatMap_append,
    List.flatMap_cons] at h
  exact h.right.left

/-- A whole list stands at the start of its array, and also with more behind it. -/
theorem standsAt_toArray (part rest : List α) : StandsAt (part ++ rest).toArray 0 part := by
  simp [StandsAt]

theorem StandsAt.length_le_sub {part : List α} (h : StandsAt xs p part) :
    part.length ≤ xs.size - p := by
  have hle := h.length_le
  rwa [List.length_drop, Array.length_toList] at hle

/-- What stands in an array ends inside it. -/
theorem StandsAt.le_size {part : List α} (h : StandsAt xs p part) (hp : p ≤ xs.size) :
    p + part.length ≤ xs.size := by
  have hle := h.length_le_sub
  omega

theorem StandsAt.end_le {part : List α} (h : StandsAt xs p part) (hne : 0 < part.length) :
    p + part.length ≤ xs.size := by
  have hle := h.length_le_sub
  omega

theorem StandsAt.getElem? {part : List α} (h : StandsAt xs p part) {i : Nat}
    (hi : i < part.length) : xs[p + i]? = part[i]? := by
  obtain ⟨rest, hrest⟩ := h
  have hdrop : (xs.toList.drop p)[i]? = part[i]? := by
    rw [← hrest, List.getElem?_append_left hi]
  rw [← hdrop, List.getElem?_drop, Array.getElem?_toList]

theorem StandsAt.extract {part : List α} (h : StandsAt xs p part) :
    (xs.extract p (p + part.length)).toList = part := by
  rw [Array.toList_extract, List.extract_eq_take_drop, Nat.add_sub_cancel_left]
  exact (List.prefix_iff_eq_take.1 h).symm

end CrateLedger
