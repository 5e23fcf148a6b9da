import CrateLedger.Image.SymbolTable
import Mathlib.Data.List.MinMax
import Mathlib.Order.Interval.Set.Basic
import Mathlib.Tactic

/-!
# Sizes that follow from addresses

Where a container records no sizes, a symbol inside its section reaches up to the next address at
which there is an entry, whether or not that address is inside the section too. All that decides
about a size is which addresses there are and where the section starts and ends.

Main statement: neighbours inside the section meet without overlap, and the sizes are the same for
the same addresses.
-/

namespace CrateLedger.Image

variable {addresses : List Int} {sectionStart sectionEnd a b : Int}

/-! ## The next address -/

/-- The least of some addresses that is greater than a given one, or else the end. -/
def nextAddress (addresses : List Int) (sectionEnd address : Int) : Int :=
  ((addresses.filter fun a => address < a).min?).getD sectionEnd

/-- The next address is the least of those behind, and the end of the section if there are none. -/
theorem nextAddress_cases (addresses : List Int) (sectionEnd a : Int) :
    (nextAddress addresses sectionEnd a ∈ addresses ∧ a < nextAddress addresses sectionEnd a ∧
        ∀ b ∈ addresses, a < b → nextAddress addresses sectionEnd a ≤ b) ∨
      (∀ b ∈ addresses, b ≤ a) ∧ nextAddress addresses sectionEnd a = sectionEnd := by
  unfold nextAddress
  cases hmin : (addresses.filter fun b => a < b).min? with
  | some next =>
    obtain ⟨hmem, hleast⟩ := List.min?_eq_some_iff.1 hmin
    obtain ⟨hnext, hlt⟩ := List.mem_filter.1 hmem
    refine .inl ⟨hnext, of_decide_eq_true hlt, fun b hb hab => ?_⟩
    exact hleast b (List.mem_filter.2 ⟨hb, decide_eq_true hab⟩)
  | none =>
    refine .inr ⟨fun b hb => not_lt.1 fun hab => ?_, rfl⟩
    have hmem : b ∈ addresses.filter fun b => a < b :=
      List.mem_filter.2 ⟨hb, decide_eq_true hab⟩
    rw [List.min?_eq_none_iff.1 hmin] at hmem
    exact List.not_mem_nil hmem

theorem lt_nextAddress (h : a < sectionEnd) : a < nextAddress addresses sectionEnd a := by
  rcases nextAddress_cases addresses sectionEnd a with ⟨-, hlt, -⟩ | ⟨-, hend⟩
  · exact hlt
  · rwa [hend]

theorem nextAddress_le (hb : b ∈ addresses) (hab : a < b) :
    nextAddress addresses sectionEnd a ≤ b := by
  rcases nextAddress_cases addresses sectionEnd a with ⟨-, -, hleast⟩ | ⟨hnone, -⟩
  · exact hleast b hb hab
  · exact absurd hab (not_lt.2 (hnone b hb))

/-- An address that has none between it and another is followed by that other. -/
theorem nextAddress_eq (hb : b ∈ addresses) (hab : a < b)
    (hbetween : ∀ c ∈ addresses, a < c → b ≤ c) : nextAddress addresses sectionEnd a = b := by
  refine le_antisymm (nextAddress_le hb hab) ?_
  rcases nextAddress_cases addresses sectionEnd a with ⟨hmem, hlt, -⟩ | ⟨hnone, -⟩
  · exact hbetween _ hmem hlt
  · exact absurd hab (not_lt.2 (hnone b hb))

/-- What follows an address depends on which addresses there are, and on nothing else. -/
theorem nextAddress_congr {others : List Int} (h : ∀ b, b ∈ addresses ↔ b ∈ others)
    (sectionEnd a : Int) :
    nextAddress addresses sectionEnd a = nextAddress others sectionEnd a := by
  rcases nextAddress_cases others sectionEnd a with ⟨hmem, hlt, hleast⟩ | ⟨hnone, hend⟩
  · exact nextAddress_eq ((h _).2 hmem) hlt fun c hc => hleast c ((h c).1 hc)
  · rcases nextAddress_cases addresses sectionEnd a with ⟨hmem, hlt, -⟩ | ⟨-, hend'⟩
    · exact absurd hlt (not_lt.2 (hnone _ ((h _).1 hmem)))
    · rw [hend, hend']

/-! ## Addresses in order

The distinct addresses are sorted and each is paired with the one behind it, so what an address is
paired with is the next address.
-/

theorem nodup_eraseDups : ∀ addresses : List Int, addresses.eraseDups.Nodup
  | [] => List.nodup_nil
  | a :: addresses => by
    rw [List.eraseDups_cons, List.nodup_cons, List.mem_eraseDups]
    exact ⟨by simp, nodup_eraseDups _⟩
termination_by addresses => addresses.length
decreasing_by exact Nat.lt_succ_of_le (List.length_filter_le _ _)

/-- Sorting distinct addresses leaves none that are equal. -/
theorem pairwise_sorted (addresses : List Int) :
    (addresses.eraseDups.mergeSort (· ≤ ·)).Pairwise (· < ·) := by
  have hsorted : (addresses.eraseDups.mergeSort (· ≤ ·)).Pairwise (· ≤ ·) :=
    List.pairwise_mergeSort' (· ≤ ·) _
  have hnodup : (addresses.eraseDups.mergeSort (· ≤ ·)).Nodup :=
    (List.mergeSort_perm _ _).nodup_iff.2 (nodup_eraseDups addresses)
  exact (hsorted.and hnodup).imp fun ⟨hle, hne⟩ => lt_of_le_of_ne hle hne

/-- Addresses that are not behind another do not follow it. -/
theorem nextAddress_cons_of_le (h : b ≤ a) :
    nextAddress (b :: addresses) sectionEnd a = nextAddress addresses sectionEnd a := by
  rw [nextAddress, List.filter_cons, if_neg (by simpa using h)]
  rfl

/-- Of ascending addresses, each is paired with the next one. -/
theorem lookup_zip_tail {sorted : List Int} (hsorted : sorted.Pairwise (· < ·))
    (f : Int → Int → Int) (ha : a ∈ sorted) :
    ((sorted.zip (sorted.tail ++ [sectionEnd])).map fun p => (p.1, f p.1 p.2)).lookup a
      = some (f a (nextAddress sorted sectionEnd a)) := by
  induction sorted with
  | nil => cases ha
  | cons first rest ih =>
    obtain ⟨hbehind, hrest⟩ := List.pairwise_cons.1 hsorted
    cases rest with
    | nil =>
      obtain rfl := List.mem_singleton.1 ha
      simp [nextAddress]
    | cons second rest =>
      have hpairs : (first :: second :: rest).zip ((first :: second :: rest).tail ++ [sectionEnd])
          = (first, second) :: (second :: rest).zip ((second :: rest).tail ++ [sectionEnd]) := rfl
      rw [hpairs, List.map_cons, List.lookup_cons]
      rcases List.mem_cons.1 ha with rfl | ha
      · have hnext : nextAddress (a :: second :: rest) sectionEnd a = second := by
          refine nextAddress_eq (by simp) (hbehind second List.mem_cons_self) fun c hc hac => ?_
          rcases List.mem_cons.1 ((List.mem_cons.1 hc).resolve_left hac.ne') with rfl | hc
          · exact le_rfl
          · exact ((List.pairwise_cons.1 hrest).1 c hc).le
        rw [hnext, beq_self_eq_true]
      · have hne : (a == first) = false := beq_eq_false_iff_ne.2 (hbehind a ha).ne'
        rw [hne, nextAddress_cons_of_le (hbehind a ha).le]
        exact ih hrest ha

/-- The bytes from an address on are those up to the next one. -/
theorem lookup_gaps (ha : a ∈ addresses) : (gaps addresses sectionEnd).lookup a
    = some (max 0 (nextAddress addresses sectionEnd a - a)) := by
  have hmem : ∀ b, b ∈ addresses.eraseDups.mergeSort (· ≤ ·) ↔ b ∈ addresses := fun b => by
    rw [List.mem_mergeSort, List.mem_eraseDups]
  rw [← nextAddress_congr hmem]
  exact lookup_zip_tail (pairwise_sorted addresses) (fun current following =>
    max 0 (following - current)) ((hmem a).2 ha)

/-! ## The size at an address -/

/-- The size of a symbol that does not record one: zero outside the section, and inside it the
distance to the next address. -/
def gapSize (addresses : List Int) (sectionStart sectionEnd address : Int) : Int :=
  if sectionStart ≤ address ∧ address < sectionEnd then
    max 0 (nextAddress addresses sectionEnd address - address)
  else 0

theorem gapSize_of_notMem (h : a ∉ Set.Ico sectionStart sectionEnd) :
    gapSize addresses sectionStart sectionEnd a = 0 := if_neg h

/-- Inside the section a symbol reaches up to the next address. -/
theorem add_gapSize (h : a ∈ Set.Ico sectionStart sectionEnd) :
    a + gapSize addresses sectionStart sectionEnd a = nextAddress addresses sectionEnd a := by
  have hlt : a < nextAddress addresses sectionEnd a := lt_nextAddress h.2
  rw [gapSize, if_pos (Set.mem_Ico.1 h), max_eq_right (by omega)]
  omega

theorem gapSize_congr {others : List Int} (h : ∀ b, b ∈ addresses ↔ b ∈ others)
    (sectionStart sectionEnd a : Int) :
    gapSize addresses sectionStart sectionEnd a = gapSize others sectionStart sectionEnd a := by
  rw [gapSize, gapSize, nextAddress_congr h]

/-! ## Entries -/

variable {entries : List RawSymbol}

/-- Every entry gets the size at its address. -/
theorem assignGapSizes_eq (entries : List RawSymbol) (sectionStart sectionEnd : Int) :
    assignGapSizes entries sectionStart sectionEnd = entries.map fun e => { e with
      size := gapSize (entries.map RawSymbol.address) sectionStart sectionEnd e.address } := by
  refine List.map_congr_left fun e he => ?_
  rw [lookup_gaps (List.mem_map_of_mem he), Option.getD_some, gapSize]

theorem mem_assignGapSizes {s : RawSymbol} :
    s ∈ assignGapSizes entries sectionStart sectionEnd ↔ ∃ e ∈ entries, s = { e with
      size := gapSize (entries.map RawSymbol.address) sectionStart sectionEnd e.address } := by
  simp only [assignGapSizes_eq, List.mem_map, eq_comm]

theorem size_of_mem_assignGapSizes {s : RawSymbol}
    (hs : s ∈ assignGapSizes entries sectionStart sectionEnd) :
    s.size = gapSize (entries.map RawSymbol.address) sectionStart sectionEnd s.address := by
  obtain ⟨e, -, rfl⟩ := mem_assignGapSizes.1 hs
  rfl

theorem map_address_assignGapSizes (entries : List RawSymbol) (sectionStart sectionEnd : Int) :
    (assignGapSizes entries sectionStart sectionEnd).map RawSymbol.address
      = entries.map RawSymbol.address := by
  rw [assignGapSizes_eq, List.map_map]
  rfl

theorem address_mem_of_mem_assignGapSizes {s : RawSymbol}
    (hs : s ∈ assignGapSizes entries sectionStart sectionEnd) :
    s.address ∈ entries.map RawSymbol.address := by
  rw [← map_address_assignGapSizes entries sectionStart sectionEnd]
  exact List.mem_map_of_mem hs

/-- Entries whose sizes have been derived: those inside the section meet without overlap, and all
others have no size. -/
structure SizesMeet (entries sized : List RawSymbol) (sectionStart sectionEnd : Int) : Prop where
  /-- Nothing but sizes differs. -/
  kept : List.Forall₂ (fun e s => s = { e with size := s.size }) entries sized
  /-- Outside the section there are no sizes. -/
  outside : ∀ s ∈ sized, s.address ∉ Set.Ico sectionStart sectionEnd → s.size = 0
  /-- Inside it there is no entry without. -/
  positive : ∀ s ∈ sized, s.address ∈ Set.Ico sectionStart sectionEnd → 0 < s.size
  /-- Entries at one address have one size. -/
  aliases : ∀ s ∈ sized, ∀ t ∈ sized, s.address = t.address → s.size = t.size
  /-- An entry does not reach beyond one behind it, -/
  apart : ∀ s ∈ sized, ∀ t ∈ sized, s.address ∈ Set.Ico sectionStart sectionEnd →
    t.address ∈ Set.Ico sectionStart sectionEnd → s.address < t.address →
    s.address + s.size ≤ t.address
  /-- and reaches up to it if there is none between them. -/
  meet : ∀ s ∈ sized, ∀ t ∈ sized, s.address ∈ Set.Ico sectionStart sectionEnd →
    t.address ∈ Set.Ico sectionStart sectionEnd → s.address < t.address →
    (∀ u ∈ sized, u.address ∈ Set.Ico sectionStart sectionEnd →
      ¬ (s.address < u.address ∧ u.address < t.address)) →
    s.address + s.size = t.address

theorem sizesMeet_assignGapSizes (entries : List RawSymbol) (sectionStart sectionEnd : Int) :
    SizesMeet entries (assignGapSizes entries sectionStart sectionEnd) sectionStart sectionEnd where
  kept := by
    rw [assignGapSizes_eq, List.forall₂_map_right_iff, List.forall₂_same]
    exact fun _ _ => rfl
  outside := fun s hs hout => by rw [size_of_mem_assignGapSizes hs, gapSize_of_notMem hout]
  positive := by
    intro s hs hin
    have hlt : s.address < nextAddress (entries.map RawSymbol.address) sectionEnd s.address :=
      lt_nextAddress hin.2
    rw [← add_gapSize hin, ← size_of_mem_assignGapSizes hs] at hlt
    omega
  aliases := fun s hs t ht hst => by
    rw [size_of_mem_assignGapSizes hs, size_of_mem_assignGapSizes ht, hst]
  apart := by
    intro s hs t ht hsin _ hst
    rw [size_of_mem_assignGapSizes hs, add_gapSize hsin]
    exact nextAddress_le (address_mem_of_mem_assignGapSizes ht) hst
  meet := by
    intro s hs t ht hsin htin hst hbetween
    rw [size_of_mem_assignGapSizes hs, add_gapSize hsin]
    refine nextAddress_eq (address_mem_of_mem_assignGapSizes ht) hst fun c hc hsc => ?_
    -- An address between two inside the section is inside the section.
    rw [← map_address_assignGapSizes entries sectionStart sectionEnd] at hc
    obtain ⟨u, hu, rfl⟩ := List.mem_map.1 hc
    refine not_lt.1 fun hut => hbetween u hu ?_ ⟨hsc, hut⟩
    exact ⟨hsin.1.trans hsc.le, hut.trans htin.2⟩

/-- Deriving sizes again changes nothing. -/
theorem assignGapSizes_assignGapSizes (entries : List RawSymbol) (sectionStart sectionEnd : Int) :
    assignGapSizes (assignGapSizes entries sectionStart sectionEnd) sectionStart sectionEnd
      = assignGapSizes entries sectionStart sectionEnd := by
  rw [assignGapSizes_eq, map_address_assignGapSizes, assignGapSizes_eq, List.map_map]
  rfl

/-- **Derived sizes meet.** The entries inside a section get sizes with which neighbours meet
without overlap. The size at an address depends on which addresses there are and on the section: not
on the order of the entries, how many there are at an address, what they are called, or which sizes
they had before. -/
theorem assignGapSizes_meet (entries : List RawSymbol) (sectionStart sectionEnd : Int) :
    SizesMeet entries (assignGapSizes entries sectionStart sectionEnd) sectionStart sectionEnd ∧
      (∀ others : List RawSymbol,
        (∀ a, a ∈ entries.map RawSymbol.address ↔ a ∈ others.map RawSymbol.address) →
        ∀ s ∈ assignGapSizes entries sectionStart sectionEnd,
        ∀ t ∈ assignGapSizes others sectionStart sectionEnd,
          s.address = t.address → s.size = t.size) ∧
      assignGapSizes (assignGapSizes entries sectionStart sectionEnd) sectionStart sectionEnd
        = assignGapSizes entries sectionStart sectionEnd := by
  refine ⟨sizesMeet_assignGapSizes entries sectionStart sectionEnd, ?_,
    assignGapSizes_assignGapSizes entries sectionStart sectionEnd⟩
  intro others haddresses s hs t ht hst
  rw [size_of_mem_assignGapSizes hs, size_of_mem_assignGapSizes ht, hst,
    gapSize_congr haddresses]

/-- Entries of a section from 16 to 48: one before it, one behind it, and two aliases. -/
def sampleGaps : List RawSymbol :=
  [⟨24, 0, ".text", "b"⟩, ⟨64, 5, ".text", "d"⟩, ⟨16, 0, ".text", "a"⟩, ⟨24, 7, ".text", []⟩,
    ⟨8, 0, ".text", "c"⟩]

/-- Other entries at the same addresses. -/
def sampleOtherGaps : List RawSymbol :=
  [⟨8, 3, ".text", "w"⟩, ⟨16, 9, ".text", "x"⟩, ⟨24, 0, ".text", "y"⟩, ⟨64, 0, ".text", "z"⟩]

theorem sampleGaps_sized :
    assignGapSizes sampleGaps 16 48 = [⟨24, 40, ".text", "b"⟩, ⟨64, 0, ".text", "d"⟩,
        ⟨16, 8, ".text", "a"⟩, ⟨24, 40, ".text", []⟩, ⟨8, 0, ".text", "c"⟩] ∧
      (∀ a, a ∈ sampleGaps.map RawSymbol.address ↔ a ∈ sampleOtherGaps.map RawSymbol.address) ∧
      ∀ t ∈ assignGapSizes sampleOtherGaps 16 48, t.address = 24 → t.size = 40 := by
  have hsized : assignGapSizes sampleGaps 16 48 = [⟨24, 40, ".text", "b"⟩, ⟨64, 0, ".text", "d"⟩,
      ⟨16, 8, ".text", "a"⟩, ⟨24, 40, ".text", []⟩, ⟨8, 0, ".text", "c"⟩] := by
    rw [assignGapSizes_eq]
    decide
  have haddresses : ∀ a, a ∈ sampleGaps.map RawSymbol.address ↔
      a ∈ sampleOtherGaps.map RawSymbol.address := by
    intro a
    simp only [sampleGaps, sampleOtherGaps, List.map_cons, List.map_nil, List.mem_cons,
      List.not_mem_nil, or_false]
    omega
  refine ⟨hsized, haddresses, fun t ht hat => ?_⟩
  have hfirst : ⟨24, 40, ".text", "b"⟩ ∈ assignGapSizes sampleGaps 16 48 := by
    rw [hsized]
    exact List.mem_cons_self
  exact ((assignGapSizes_meet sampleGaps 16 48).2.1 _ haddresses _ hfirst t ht hat.symm).symm

end CrateLedger.Image
