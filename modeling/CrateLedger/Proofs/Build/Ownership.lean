import CrateLedger.Build.Ownership
import CrateLedger.Proofs.Value
import Mathlib.Data.Finset.Card
import Mathlib.Data.List.Perm.Basic

/-!
# What is noted about who contributes a symbol

Noting a symbol adds a number to those of the symbol, leaves the numbers of all others, and makes
room for the symbol if it is new. So in the end a symbol has the numbers it has been noted with, in
the order in which they were noted. As crates are numbered in order and noted in order, these lead
to the crates that contribute the symbol, in order.
-/

namespace CrateLedger.Ownership

open Scalar (Key)

variable {noted : List (Scalar × List Nat)} {number : Nat} {symbol other : Scalar}

/-! ## One symbol -/

/-- The values of the symbols that are noted. -/
def keys (noted : List (Scalar × List Nat)) : List Key := noted.map fun n => n.1.key

theorem numbersOf_cons (known : Scalar) (numbers : List Nat) :
    numbersOf ((known, numbers) :: noted) symbol
      = if known.same symbol then numbers else numbersOf noted symbol := by
  unfold numbersOf
  rw [List.find?_cons]
  cases known.same symbol <;> rfl

/-- Noting a symbol adds the number to those of the symbol and to no others. -/
theorem numbersOf_note : numbersOf (note number symbol noted) other
    = numbersOf noted other ++ if symbol.same other then [number] else [] := by
  induction noted with
  | nil =>
    rw [note, numbersOf_cons]
    rfl
  | cons entry rest ih =>
    obtain ⟨known, numbers⟩ := entry
    by_cases hknown : known.same symbol = true
    · rw [note, if_pos hknown, numbersOf_cons, numbersOf_cons, Scalar.same_congr hknown]
      split <;> simp
    · rw [note, if_neg hknown, numbersOf_cons, numbersOf_cons, ih]
      by_cases hother : known.same other = true
      · -- The symbol is not the same as one whose place is another's.
        have hne : ¬ symbol.same other = true := fun hsame =>
          hknown (Scalar.same_trans hother (by rwa [Scalar.same_comm]))
        rw [if_pos hother, if_pos hother, if_neg hne, List.append_nil]
      · rw [if_neg hother, if_neg hother]

/-- Noting a symbol makes room for it if it is new. -/
theorem keys_note : keys (note number symbol noted)
    = if symbol.key ∈ keys noted then keys noted else keys noted ++ [symbol.key] := by
  induction noted with
  | nil => rfl
  | cons entry rest ih =>
    obtain ⟨known, numbers⟩ := entry
    by_cases hknown : known.same symbol = true
    · have hkey : symbol.key = known.key := (Scalar.same_iff.1 hknown).symm
      rw [note, if_pos hknown, hkey]
      simp [keys]
    · have hkey : symbol.key ≠ known.key := fun h => hknown (Scalar.same_iff.2 h.symm)
      have hmem : symbol.key ∈ keys ((known, numbers) :: rest) ↔ symbol.key ∈ keys rest := by
        simp [keys, hkey]
      have hcons : keys ((known, numbers) :: note number symbol rest)
          = known.key :: keys (note number symbol rest) := rfl
      rw [note, if_neg hknown, hcons, ih]
      simp only [hmem]
      split <;> rfl

theorem toFinset_keys_note :
    (keys (note number symbol noted)).toFinset = insert symbol.key (keys noted).toFinset := by
  rw [keys_note]
  split
  · next h => exact (Finset.insert_eq_of_mem (List.mem_toFinset.2 h)).symm
  · rw [List.toFinset_append, List.toFinset_cons, List.toFinset_nil, insert_empty_eq,
      Finset.union_comm, Finset.insert_eq]

theorem nodup_keys_note (h : (keys noted).Nodup) : (keys (note number symbol noted)).Nodup := by
  rw [keys_note]
  split
  · exact h
  · next hnew => exact List.nodup_append_comm.1 (List.nodup_cons.2 ⟨hnew, h⟩)

/-! ## All symbols -/

/-- Notes symbols, each with the number of a crate, one after the other. -/
def noteEach (noted : List (Scalar × List Nat)) (pairs : List (Nat × Scalar)) :
    List (Scalar × List Nat) :=
  pairs.foldl (fun noted p => note p.1 p.2 noted) noted

theorem noteEach_cons (p : Nat × Scalar) (pairs : List (Nat × Scalar)) :
    noteEach noted (p :: pairs) = noteEach (note p.1 p.2 noted) pairs := rfl

/-- A symbol has the numbers it has been noted with, in order. -/
theorem numbersOf_noteEach (noted : List (Scalar × List Nat)) (pairs : List (Nat × Scalar)) :
    numbersOf (noteEach noted pairs) other
      = numbersOf noted other ++ (pairs.filter fun p => p.2.same other).map Prod.fst := by
  induction pairs generalizing noted with
  | nil => simp [noteEach]
  | cons p pairs ih =>
    rw [noteEach_cons, ih, numbersOf_note, List.append_assoc, List.filter_cons]
    split <;> rfl

/-- The symbols that have been noted are those that were there and those that came. -/
theorem toFinset_keys_noteEach (noted : List (Scalar × List Nat)) (pairs : List (Nat × Scalar)) :
    (keys (noteEach noted pairs)).toFinset
      = (keys noted).toFinset ∪ (pairs.map fun p => p.2.key).toFinset := by
  induction pairs generalizing noted with
  | nil => simp [noteEach]
  | cons p pairs ih =>
    rw [noteEach_cons, ih, toFinset_keys_note, List.map_cons, List.toFinset_cons,
      Finset.insert_union, Finset.union_insert]

/-- No symbol is noted in two places. -/
theorem nodup_keys_noteEach (h : (keys noted).Nodup) (pairs : List (Nat × Scalar)) :
    (keys (noteEach noted pairs)).Nodup := by
  induction pairs generalizing noted with
  | nil => exact h
  | cons p pairs ih => exact ih (nodup_keys_note h)

/-! ## The crates of a build -/

variable {symbols : List (Scalar × List Scalar)}

/-- The crates of a build in the order in which they are numbered, with their symbols. -/
def inOrder (symbols : List (Scalar × List Scalar)) : List (Scalar × List Scalar) :=
  symbols.mergeSort fun a b => a.1.le b.1

theorem map_fst_inOrder (symbols : List (Scalar × List Scalar)) :
    (inOrder symbols).map Prod.fst = (symbols.map Prod.fst).mergeSort Scalar.le :=
  List.map_mergeSort fun _ _ _ _ => rfl

/-- What is noted for a build: the symbols of its crates with their numbers, crate by crate. -/
def notes (symbols : List (Scalar × List Scalar)) : List (Nat × Scalar) :=
  (inOrder symbols).zipIdx.flatMap fun e => e.1.2.map fun s => (e.2, s)

theorem numbers_ofSymbols (symbols : List (Scalar × List Scalar)) :
    (ofSymbols symbols).numbers = noteEach [] (notes symbols) := by
  rw [noteEach, notes, List.foldl_flatMap]
  simp only [List.foldl_map]
  rfl

theorem crates_ofSymbols (symbols : List (Scalar × List Scalar)) :
    (ofSymbols symbols).crates = (inOrder symbols).map Prod.fst := rfl

/-- Of symbols no two of which are the same, at most one is the same as a given one. -/
theorem filter_same_of_pairwise {listed : List Scalar}
    (h : listed.Pairwise fun a b => a.same b = false) (number : Nat) :
    ((listed.map fun s => (number, s)).filter fun p => p.2.same other).map Prod.fst
      = if other.isIn listed then [number] else [] := by
  induction listed with
  | nil => rfl
  | cons s listed ih =>
    obtain ⟨hs, hlisted⟩ := List.pairwise_cons.1 h
    rw [List.map_cons, List.filter_cons, Scalar.isIn, List.any_cons]
    by_cases hsame : s.same other = true
    · have hrest : other.isIn listed = false := by
        rw [Scalar.isIn, List.any_eq_false]
        intro t ht
        rw [← Scalar.same_congr hsame, hs t ht]
        exact Bool.false_ne_true
      rw [if_pos hsame, List.map_cons, ih hlisted, hrest, Scalar.same_comm, hsame]
      rfl
    · rw [if_neg hsame, ih hlisted, Scalar.same_comm other s, Bool.eq_false_of_not_eq_true hsame]
      rfl

/-- A symbol has the numbers of the crates that list it. -/
theorem numbersOf_ofSymbols (h : ∀ s ∈ symbols, s.2.Pairwise fun a b => a.same b = false) :
    numbersOf (ofSymbols symbols).numbers symbol
      = (inOrder symbols).zipIdx.filterMap fun e =>
        if symbol.isIn e.1.2 then some e.2 else none := by
  rw [numbers_ofSymbols, numbersOf_noteEach, notes, List.filter_flatMap, List.map_flatMap,
    List.filterMap_eq_flatMap_toList]
  have hnone : numbersOf [] symbol = [] := rfl
  rw [hnone, List.nil_append]
  refine List.flatMap_congr fun e he => ?_
  have hlisted : e.1 ∈ symbols := List.mem_mergeSort.1 (List.fst_mem_of_mem_zipIdx he)
  rw [filter_same_of_pairwise (h e.1 hlisted)]
  split <;> rfl

/-- The crates of a symbol are those that list it, in order. -/
theorem owners_ofSymbols (h : ∀ s ∈ symbols, s.2.Pairwise fun a b => a.same b = false)
    (symbol : Scalar) : (ofSymbols symbols).owners symbol
      = ((inOrder symbols).filter fun s => symbol.isIn s.2).map Prod.fst := by
  -- A number that comes with a crate is the place of the crate.
  have hplace : ∀ e ∈ (inOrder symbols).zipIdx,
      ((if symbol.isIn e.1.2 then some e.2 else none).bind fun number =>
        ((inOrder symbols).map Prod.fst)[number]?)
      = if symbol.isIn e.1.2 then some e.1.1 else none := by
    intro e he
    split
    · rw [Option.bind_some, List.getElem?_map, List.mem_zipIdx_iff_getElem?.1 he, Option.map_some]
    · rfl
  calc (ofSymbols symbols).owners symbol
      = (inOrder symbols).zipIdx.filterMap fun e =>
          if symbol.isIn e.1.2 then some e.1.1 else none := by
        rw [owners, numbersOf_ofSymbols h, crates_ofSymbols, List.filterMap_filterMap,
          List.filterMap_congr hplace]
    _ = ((inOrder symbols).zipIdx.map Prod.fst).filterMap fun s =>
          if symbol.isIn s.2 then some s.1 else none := by
        rw [List.filterMap_map]
        rfl
    _ = ((inOrder symbols).filter fun s => symbol.isIn s.2).map Prod.fst := by
        rw [List.zipIdx_map_fst, ← List.filterMap_filter, ← List.filterMap_eq_map]
        rfl

/-- The symbols that are noted for a build are those that its crates list. -/
theorem map_key_notes (symbols : List (Scalar × List Scalar)) :
    (notes symbols).map (fun p => p.2.key)
      = (inOrder symbols).flatMap fun s => s.2.map Scalar.key := by
  have hcrates : (inOrder symbols).flatMap (fun s => s.2.map Scalar.key)
      = ((inOrder symbols).zipIdx.map Prod.fst).flatMap fun s => s.2.map Scalar.key := by
    rw [List.zipIdx_map_fst]
  rw [hcrates, notes, List.map_flatMap, List.flatMap_map]
  simp only [List.map_map]
  rfl

/-- As many symbols are noted as there are different ones among those that crates list. -/
theorem length_numbers_ofSymbols (symbols : List (Scalar × List Scalar)) :
    (ofSymbols symbols).numbers.length
      = (symbols.flatMap fun s => s.2.map Scalar.key).toFinset.card := by
  have hempty : keys [] = [] := rfl
  have hnodup : (keys (noteEach [] (notes symbols))).Nodup := by
    refine nodup_keys_noteEach ?_ _
    rw [hempty]
    exact List.nodup_nil
  have hlength : (noteEach [] (notes symbols)).length
      = (keys (noteEach [] (notes symbols))).length := by
    rw [keys, List.length_map]
  have hperm : (inOrder symbols).Perm symbols := List.mergeSort_perm symbols _
  rw [numbers_ofSymbols, hlength, ← List.toFinset_card_of_nodup hnodup, toFinset_keys_noteEach,
    map_key_notes, List.toFinset_eq_of_perm _ _ (hperm.flatMap_right _),
    hempty, List.toFinset_nil, Finset.empty_union]

end CrateLedger.Ownership
