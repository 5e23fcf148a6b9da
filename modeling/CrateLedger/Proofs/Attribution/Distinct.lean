import CrateLedger.Attribution.Distinct
import Mathlib.Data.List.Lex
import Mathlib.Data.Prod.Lex
import Mathlib.Tactic

/-!
# The best entry of each address

Which of several entries at an address is kept is a choice of the least in a linear order. So what
is kept is determined by the set of entries, whatever their order and however often each is listed,
as long as entries that tie are equal. Entries of one section are; of entries that tie across
sections the first is kept, as the entries are sorted without changing the order of those at one
address.

Main statement: deduplication keeps one entry of each address, the best and of equal ones the first,
and may be done to a part of the entries beforehand.
-/

namespace CrateLedger

/-! ## The order of preference -/

/-- Where an entry stands among those at its address: the larger first, then one with a name before
one without, then by name. -/
def RawSymbol.rank (e : RawSymbol) : ℤ ×ₗ Bool ×ₗ Text :=
  toLex (-e.size, toLex (e.name.isEmpty, e.name))

theorem RawSymbol.eq_of_rank_eq {a b : RawSymbol} (h : a.rank = b.rank) :
    a.size = b.size ∧ a.name = b.name := by
  simp only [rank, toLex_inj, Prod.mk.injEq, neg_inj] at h
  exact ⟨h.1, h.2.2⟩

/-- An entry that does not rank after another at its address is at least as large. -/
theorem RawSymbol.size_le_of_rank_le {a b : RawSymbol} (h : a.rank ≤ b.rank) : b.size ≤ a.size := by
  rw [rank, rank, Prod.Lex.toLex_le_toLex] at h
  rcases h with h | ⟨h, -⟩
  · exact (neg_lt_neg_iff.1 h).le
  · exact (neg_inj.1 h).ge

/-- Of entries of one size, one with a name ranks before one without. -/
theorem RawSymbol.name_eq_nil_of_rank_le {a b : RawSymbol} (h : a.rank ≤ b.rank)
    (hsize : b.size = a.size) (hname : a.name = []) : b.name = [] := by
  simp only [rank, hsize, hname, Prod.Lex.toLex_le_toLex, lt_irrefl, false_or, true_and] at h
  rcases h with h | ⟨h, -⟩
  · exact absurd h (by simp)
  · exact List.isEmpty_iff.1 h.symm

/-- Of named entries of one size, the one whose name comes first ranks first. -/
theorem RawSymbol.name_le_of_rank_le {a b : RawSymbol} (h : a.rank ≤ b.rank)
    (hsize : b.size = a.size) (hname : b.name ≠ []) : a.name ≤ b.name := by
  have hnamed : b.name.isEmpty = false := by simpa using hname
  simp only [rank, hsize, hnamed, Prod.Lex.toLex_le_toLex, lt_irrefl, false_or, true_and] at h
  rcases h with h | ⟨-, h⟩
  · exact absurd h (by simp)
  · exact h

namespace Attribution

/-- An entry is preferred to another if it ranks before it. -/
theorem prefers_iff {a b : RawSymbol} : prefers a b = true ↔ a.rank < b.rank := by
  simp only [RawSymbol.rank, Prod.Lex.toLex_lt_toLex, prefers]
  by_cases hsize : a.size = b.size
  · by_cases hname : a.name.isEmpty = b.name.isEmpty
    · simp [hsize, hname]
    · cases ha : a.name.isEmpty <;> cases hb : b.name.isEmpty <;> simp_all
  · simp [hsize]

theorem rank_winner_le (a b : RawSymbol) :
    (if prefers a b then a else b).rank ≤ a.rank
      ∧ (if prefers a b then a else b).rank ≤ b.rank := by
  split
  · rename_i h
    exact ⟨le_rfl, (prefers_iff.1 h).le⟩
  · rename_i h
    exact ⟨not_lt.1 fun hlt => h (prefers_iff.2 hlt), le_rfl⟩

/-! ## What is kept -/

/-- Of some entries the best of each address is kept, in ascending order of addresses. -/
structure KeepsBest (entries kept : List RawSymbol) : Prop where
  /-- No address comes twice, and they ascend. -/
  ascending : kept.Pairwise fun a b => a.address < b.address
  /-- What is kept is among the entries. -/
  subset : kept ⊆ entries
  /-- No entry at its address ranks before what is kept. -/
  best : ∀ d ∈ kept, ∀ e ∈ entries, e.address = d.address → d.rank ≤ e.rank
  /-- No address is lost. -/
  covers : ∀ e ∈ entries, ∃ d ∈ kept, d.address = e.address

/-- Entries that are beaten by others at their addresses add nothing to these. -/
theorem KeepsBest.of_beaten {entries others kept : List RawSymbol} (h : KeepsBest others kept)
    (hsubset : others ⊆ entries)
    (hbeaten : ∀ x ∈ entries, ∃ w ∈ others, w.address = x.address ∧ w.rank ≤ x.rank) :
    KeepsBest entries kept := by
  refine ⟨h.ascending, List.Subset.trans h.subset hsubset, ?_, ?_⟩
  · intro d hd x hx hxd
    obtain ⟨w, hw, hwx, hrank⟩ := hbeaten x hx
    exact (h.best d hd w hw (hwx.trans hxd)).trans hrank
  · intro x hx
    obtain ⟨w, hw, hwx, -⟩ := hbeaten x hx
    obtain ⟨d, hd, hdw⟩ := h.covers w hw
    exact ⟨d, hd, hdw.trans hwx⟩

/-- One step of a run: the loser of two entries at an address adds nothing. -/
theorem KeepsBest.cons_loser {best e : RawSymbol} {rest kept : List RawSymbol}
    (haddress : e.address = best.address)
    (h : KeepsBest ((if prefers e best then e else best) :: rest) kept) :
    KeepsBest (best :: e :: rest) kept := by
  set winner := if prefers e best then e else best with hwinner
  have hmem : winner = e ∨ winner = best := by
    rw [hwinner]
    split <;> simp
  have hsame : winner.address = best.address := by rcases hmem with h | h <;> simp [h, haddress]
  obtain ⟨hle, hle'⟩ := rank_winner_le e best
  rw [← hwinner] at hle hle'
  refine h.of_beaten ?_ ?_
  · intro x hx
    rcases List.mem_cons.1 hx with rfl | hx
    · rcases hmem with h | h <;> simp [h]
    · exact List.mem_cons_of_mem _ (List.mem_cons_of_mem _ hx)
  · -- Both of the two are no better than the winner, and at its address.
    intro x hx
    rcases List.mem_cons.1 hx with rfl | hx
    · exact ⟨winner, List.mem_cons_self, hsame, hle'⟩
    · rcases List.mem_cons.1 hx with rfl | hx
      · exact ⟨winner, List.mem_cons_self, hsame.trans haddress.symm, hle⟩
      · exact ⟨x, List.mem_cons_of_mem _ hx, rfl, le_rfl⟩

/-- One step between runs: an entry before all others by its address is kept. -/
theorem KeepsBest.cons_new {e : RawSymbol} {rest kept : List RawSymbol}
    (hlt : ∀ x ∈ rest, e.address < x.address) (h : KeepsBest rest kept) :
    KeepsBest (e :: rest) (e :: kept) := by
  refine ⟨List.pairwise_cons.2 ⟨fun d hd => hlt d (h.subset hd), h.ascending⟩,
    List.cons_subset_cons e h.subset, ?_, ?_⟩
  · intro d hd x hx hxd
    rcases List.mem_cons.1 hd with rfl | hkept <;> rcases List.mem_cons.1 hx with rfl | hrest
    · exact le_rfl
    · exact absurd hxd (hlt x hrest).ne'
    · exact absurd hxd (hlt d (h.subset hkept)).ne
    · exact h.best d hkept x hrest hxd
  · intro x hx
    rcases List.mem_cons.1 hx with rfl | hx
    · exact ⟨x, List.mem_cons_self, rfl⟩
    · obtain ⟨d, hd, hdx⟩ := h.covers x hx
      exact ⟨d, List.mem_cons_of_mem _ hd, hdx⟩

/-- Induction along `collapse`: a step inside a run leaves the winner of two entries, and a step
between runs has an entry before all that follow. -/
theorem collapse_induction {motive : List RawSymbol → List RawSymbol → Prop}
    (nil : motive [] [])
    (loser : ∀ best e rest kept, e.address = best.address →
      motive ((if prefers e best then e else best) :: rest) kept →
      motive (best :: e :: rest) kept)
    (new : ∀ e rest kept, (∀ x ∈ rest, e.address < x.address) → motive rest kept →
      motive (e :: rest) (e :: kept))
    {best : RawSymbol} {rest : List RawSymbol}
    (hsorted : (best :: rest).Pairwise fun a b => a.address ≤ b.address) :
    motive (best :: rest) (collapse best rest) := by
  induction rest generalizing best with
  | nil => exact new best [] [] nofun nil
  | cons e rest ih =>
    obtain ⟨hbest, htail⟩ := List.pairwise_cons.1 hsorted
    obtain ⟨he, hrest⟩ := List.pairwise_cons.1 htail
    rw [collapse]
    by_cases haddress : e.address = best.address
    · rw [if_pos haddress]
      refine loser best e rest _ haddress (ih (List.pairwise_cons.2 ⟨fun x hx => ?_, hrest⟩))
      split
      · exact he x hx
      · exact hbest x (List.mem_cons_of_mem _ hx)
    · rw [if_neg haddress]
      have hlt : best.address < e.address :=
        lt_of_le_of_ne (hbest e List.mem_cons_self) (Ne.symm haddress)
      refine new best (e :: rest) _ (fun x hx => ?_) (ih htail)
      rcases List.mem_cons.1 hx with rfl | hx
      · exact hlt
      · exact hlt.trans_le (he x hx)

/-- Going over entries in the order of their addresses keeps the best of each. -/
theorem keepsBest_collapse {best : RawSymbol} {rest : List RawSymbol}
    (hsorted : (best :: rest).Pairwise fun a b => a.address ≤ b.address) :
    KeepsBest (best :: rest) (collapse best rest) :=
  collapse_induction ⟨List.Pairwise.nil, List.Subset.refl _, nofun, nofun⟩
    (fun _ _ _ _ haddress h => h.cons_loser haddress) (fun _ _ _ hlt h => h.cons_new hlt) hsorted

theorem KeepsBest.of_mem_iff {entries entries' kept : List RawSymbol} (h : KeepsBest entries kept)
    (hmem : ∀ e, e ∈ entries ↔ e ∈ entries') : KeepsBest entries' kept where
  ascending := h.ascending
  subset := fun d hd => (hmem d).1 (h.subset hd)
  best := fun d hd e he => h.best d hd e ((hmem e).2 he)
  covers := fun e he => h.covers e ((hmem e).2 he)

/-- Entries that are sorted by their addresses ascend. -/
theorem pairwise_sorted (entries : List RawSymbol) :
    (entries.mergeSort fun a b => decide (a.address ≤ b.address)).Pairwise
      fun a b => a.address ≤ b.address := by
  have hsorted : (entries.mergeSort fun a b => decide (a.address ≤ b.address)).Pairwise
      fun a b => decide (a.address ≤ b.address) = true :=
    List.pairwise_mergeSort (fun a b c hab hbc => by simp only [decide_eq_true_eq] at *; omega)
      (fun a b => by simp only [Bool.or_eq_true, decide_eq_true_eq]; omega) entries
  exact hsorted.imp of_decide_eq_true

/-- The best entry of each address is kept. -/
theorem keepsBest_deduplicate (entries : List RawSymbol) :
    KeepsBest entries (deduplicate entries) := by
  have hmem : ∀ e, e ∈ entries.mergeSort (fun a b => decide (a.address ≤ b.address))
      ↔ e ∈ entries := fun e => List.mem_mergeSort
  have hsorted := pairwise_sorted entries
  refine KeepsBest.of_mem_iff ?_ hmem
  rw [deduplicate]
  cases hruns : entries.mergeSort fun a b => decide (a.address ≤ b.address) with
  | nil => exact ⟨List.Pairwise.nil, List.Subset.refl _, nofun, nofun⟩
  | cons e rest =>
    rw [hruns] at hsorted
    exact keepsBest_collapse hsorted

/-! ## Independence of the order -/

/-- What decides about an entry in its section. -/
def decisive (e : RawSymbol) : Int × Int × Text := (e.address, e.size, e.name)

/-- Any two ways to keep the best of the same entries keep the same at each address. -/
theorem KeepsBest.map_subset {entries kept kept' : List RawSymbol} (h : KeepsBest entries kept)
    (h' : KeepsBest entries kept') : kept.map decisive ⊆ kept'.map decisive := by
  intro key hkey
  obtain ⟨d, hd, rfl⟩ := List.mem_map.1 hkey
  obtain ⟨d', hd', haddress⟩ := h'.covers d (h.subset hd)
  have hrank : d'.rank = d.rank :=
    le_antisymm (h'.best d' hd' d (h.subset hd) haddress.symm)
      (h.best d hd d' (h'.subset hd') haddress)
  obtain ⟨hsize, hname⟩ := RawSymbol.eq_of_rank_eq hrank
  refine List.mem_map.2 ⟨d', hd', ?_⟩
  simp only [decisive, haddress, hsize, hname]

/-- What is kept is determined by the entries, up to what does not decide. -/
theorem KeepsBest.unique {entries kept kept' : List RawSymbol} (h : KeepsBest entries kept)
    (h' : KeepsBest entries kept') : kept.map decisive = kept'.map decisive := by
  have hsorted : ∀ {ds}, KeepsBest entries ds →
      (ds.map decisive).Pairwise fun a b => a.1 < b.1 :=
    fun hds => List.pairwise_map.2 hds.ascending
  have hnodup : ∀ {ds}, KeepsBest entries ds → (ds.map decisive).Nodup :=
    fun hds => (hsorted hds).imp fun hlt heq => by simp [heq] at hlt
  -- Both have the same members, and ascending lists of the same members are equal.
  have hperm : (kept.map decisive).Perm (kept'.map decisive) :=
    (List.perm_ext_iff_of_nodup (hnodup h) (hnodup h')).2 fun _ =>
      ⟨fun hmem => h.map_subset h' hmem, fun hmem => h'.map_subset h hmem⟩
  exact List.Perm.eq_of_pairwise (fun a b _ _ hab hba => absurd hab hba.not_gt)
    (hsorted h) (hsorted h') hperm

/-- Which entries of one section are kept does not depend on their order or on repetitions. -/
theorem deduplicate_congr {entries entries' : List RawSymbol} {name : Text}
    (hname : ∀ e ∈ entries, e.sectionName = name) (hmem : ∀ e, e ∈ entries ↔ e ∈ entries') :
    deduplicate entries = deduplicate entries' := by
  have h := keepsBest_deduplicate entries
  have h' := (keepsBest_deduplicate entries').of_mem_iff fun e => (hmem e).symm
  -- In one section what decides is all there is.
  have hrestore : ∀ {ds : List RawSymbol}, ds ⊆ entries →
      (ds.map decisive).map (fun key => ⟨key.1, key.2.1, name, key.2.2⟩) = ds := by
    intro ds hds
    rw [List.map_map]
    refine (List.map_congr_left fun d hd => ?_).trans (List.map_id ds)
    rw [Function.comp_apply, decisive, ← hname d (hds hd)]
    rfl
  rw [← hrestore h.subset, ← hrestore h'.subset, h.unique h']

/-! ## The first of equal entries -/

theorem decisive_eq_iff {a b : RawSymbol} :
    decisive a = decisive b ↔ a.address = b.address ∧ a.rank = b.rank := by
  constructor
  · intro h
    simp only [decisive, Prod.mk.injEq] at h
    exact ⟨h.1, by rw [RawSymbol.rank, RawSymbol.rank, h.2.1, h.2.2]⟩
  · rintro ⟨haddress, hrank⟩
    obtain ⟨hsize, hname⟩ := RawSymbol.eq_of_rank_eq hrank
    simp only [decisive, haddress, hsize, hname]

/-- Of the entries that decide alike with one that is kept, that one is the first. -/
def KeepsFirst (entries kept : List RawSymbol) : Prop :=
  ∀ d ∈ kept, entries.find? (fun e => decisive e = decisive d) = some d

/-- One step of a run: the loser comes behind the winner or decides otherwise than what is kept. -/
theorem KeepsFirst.cons_loser {best e : RawSymbol} {rest kept : List RawSymbol}
    (haddress : e.address = best.address)
    (hbest : KeepsBest ((if prefers e best then e else best) :: rest) kept)
    (h : KeepsFirst ((if prefers e best then e else best) :: rest) kept) :
    KeepsFirst (best :: e :: rest) kept := by
  intro d hd
  have hfirst := h d hd
  have hwhole := hbest.cons_loser haddress
  by_cases hprefers : prefers e best = true
  · rw [if_pos hprefers] at hfirst
    have hlt := prefers_iff.1 hprefers
    have hother : decisive best ≠ decisive d := by
      intro heq
      obtain ⟨hbd, hrank⟩ := decisive_eq_iff.1 heq
      have hle := hwhole.best d hd e (by simp) (haddress.trans hbd)
      exact absurd (hrank ▸ hle) (not_le.2 hlt)
    rwa [List.find?_cons_of_neg (by simpa using hother)]
  · rw [if_neg hprefers] at hfirst
    by_cases heq : decisive best = decisive d
    · rw [List.find?_cons_of_pos (by simpa using heq)] at hfirst ⊢
      exact hfirst
    · -- An entry no better than the one before it decides alike with `d` only if both do.
      have hother : decisive e ≠ decisive d := by
        intro hed
        obtain ⟨head, hrank⟩ := decisive_eq_iff.1 hed
        have hbd : best.address = d.address := haddress.symm.trans head
        have hle : best.rank ≤ e.rank := not_lt.1 fun hlt => hprefers (prefers_iff.2 hlt)
        have hge := hwhole.best d hd best (by simp) hbd
        exact heq (decisive_eq_iff.2 ⟨hbd, le_antisymm (hrank ▸ hle) hge⟩)
      rw [List.find?_cons_of_neg (by simpa using heq)] at hfirst
      rwa [List.find?_cons_of_neg (by simpa using heq),
        List.find?_cons_of_neg (by simpa using hother)]

/-- One step between runs: an entry before all others by its address is the first of its kind. -/
theorem KeepsFirst.cons_new {e : RawSymbol} {rest kept : List RawSymbol}
    (hlt : ∀ x ∈ rest, e.address < x.address) (hsubset : kept ⊆ rest)
    (h : KeepsFirst rest kept) : KeepsFirst (e :: rest) (e :: kept) := by
  intro d hd
  rcases List.mem_cons.1 hd with rfl | hd
  · exact List.find?_cons_of_pos (by simp)
  · have hother : decisive e ≠ decisive d := fun heq =>
      absurd (decisive_eq_iff.1 heq).1 (hlt d (hsubset hd)).ne
    rw [List.find?_cons_of_neg (by simpa using hother)]
    exact h d hd

theorem keepsFirst_collapse {best : RawSymbol} {rest : List RawSymbol}
    (hsorted : (best :: rest).Pairwise fun a b => a.address ≤ b.address) :
    KeepsFirst (best :: rest) (collapse best rest) := by
  have hboth : KeepsBest (best :: rest) (collapse best rest) ∧
      KeepsFirst (best :: rest) (collapse best rest) := by
    refine collapse_induction (motive := fun entries kept =>
      KeepsBest entries kept ∧ KeepsFirst entries kept) ?_ ?_ ?_ hsorted
    · exact ⟨⟨List.Pairwise.nil, List.Subset.refl _, nofun, nofun⟩, nofun⟩
    · rintro best e rest kept haddress ⟨hbest, hfirst⟩
      exact ⟨hbest.cons_loser haddress, hfirst.cons_loser haddress hbest⟩
    · rintro e rest kept hlt ⟨hbest, hfirst⟩
      exact ⟨hbest.cons_new hlt, hfirst.cons_new hlt hbest.subset⟩
  exact hboth.2

/-- Sorting is stable: what is looked for among entries that stand alike in the order is found where
it was found before. -/
theorem find?_mergeSort {α : Type} {le : α → α → Bool}
    (htrans : ∀ a b c, le a b = true → le b c = true → le a c = true)
    (htotal : ∀ a b, (le a b || le b a) = true) {p : α → Bool}
    (halike : ∀ a b, p a = true → p b = true → le a b = true) (xs : List α) :
    (xs.mergeSort le).find? p = xs.find? p := by
  have hpairwise : (xs.filter p).Pairwise fun a b => le a b = true := by
    rw [List.pairwise_filter]
    exact List.pairwise_of_forall fun a b ha hb => halike a b ha hb
  have hsublist : (xs.filter p).Sublist (xs.mergeSort le) :=
    List.sublist_mergeSort htrans htotal hpairwise List.filter_sublist
  have hkept : ((xs.mergeSort le).filter p) = xs.filter p := by
    have hinner := hsublist.filter p
    rw [List.filter_filter] at hinner
    simp only [Bool.and_self] at hinner
    exact (hinner.eq_of_length ((List.mergeSort_perm xs le).filter p).length_eq.symm).symm
  rw [← List.head?_filter, ← List.head?_filter, hkept]

/-- Of equal entries the first is kept. -/
theorem keepsFirst_deduplicate (entries : List RawSymbol) :
    KeepsFirst entries (deduplicate entries) := by
  intro d hd
  have hstable : (entries.mergeSort fun a b => decide (a.address ≤ b.address)).find?
        (fun e => decide (decisive e = decisive d))
      = entries.find? fun e => decide (decisive e = decisive d) := by
    refine find?_mergeSort (fun a b c hab hbc => ?_) (fun a b => ?_) (fun a b ha hb => ?_) entries
    · simp only [decide_eq_true_eq] at *
      omega
    · simp only [Bool.or_eq_true, decide_eq_true_eq]
      omega
    · have hab := (of_decide_eq_true ha).trans (of_decide_eq_true hb).symm
      exact decide_eq_true (decisive_eq_iff.1 hab).1.le
  rw [← hstable]
  have hsorted := pairwise_sorted entries
  rw [deduplicate] at hd
  cases hruns : entries.mergeSort fun a b => decide (a.address ≤ b.address) with
  | nil => simp [hruns] at hd
  | cons e rest =>
    rw [hruns] at hd hsorted
    exact keepsFirst_collapse hsorted d hd

/-- What is kept is determined by the entries altogether. -/
theorem KeepsBest.eq_of_keepsFirst {entries kept kept' : List RawSymbol}
    (h : KeepsBest entries kept) (hfirst : KeepsFirst entries kept)
    (h' : KeepsBest entries kept') (hfirst' : KeepsFirst entries kept') : kept = kept' := by
  -- What decides about an entry that is kept leads back to it.
  let restore (key : Int × Int × Text) : Option RawSymbol :=
    entries.find? fun e => decisive e = key
  have hrestore : ∀ {ds : List RawSymbol}, KeepsFirst entries ds →
      (ds.map decisive).map restore = ds.map some := by
    intro ds hds
    rw [List.map_map]
    exact List.map_congr_left hds
  have hsome : kept.map some = kept'.map some := by
    rw [← hrestore hfirst, ← hrestore hfirst', h.unique h']
  exact List.map_injective_iff.2 (Option.some_injective _) hsome

/-- Deduplicating some of the entries beforehand changes nothing. -/
theorem deduplicate_append (entries more : List RawSymbol) :
    deduplicate (deduplicate entries ++ more) = deduplicate (entries ++ more) := by
  have hkept := keepsBest_deduplicate entries
  have hbest : KeepsBest (entries ++ more) (deduplicate (deduplicate entries ++ more)) := by
    refine (keepsBest_deduplicate _).of_beaten ?_ ?_
    · exact List.append_subset.2 ⟨List.Subset.trans hkept.subset (List.subset_append_left _ _),
        List.subset_append_right _ _⟩
    · intro x hx
      rcases List.mem_append.1 hx with hx | hx
      · obtain ⟨w, hw, hwx⟩ := hkept.covers x hx
        exact ⟨w, List.mem_append_left _ hw, hwx, hkept.best w hw x hx hwx.symm⟩
      · exact ⟨x, List.mem_append_right _ hx, rfl, le_rfl⟩
  refine hbest.eq_of_keepsFirst ?_ (keepsBest_deduplicate _) (keepsFirst_deduplicate _)
  intro d hd
  have hfirst := keepsFirst_deduplicate _ d hd
  rw [List.find?_append] at hfirst ⊢
  cases hfound : (deduplicate entries).find? (fun e => decisive e = decisive d) with
  | some d' =>
    rw [hfound, Option.some_or] at hfirst
    cases hfirst
    have hmem := List.mem_of_find?_eq_some hfound
    rw [keepsFirst_deduplicate entries d hmem, Option.some_or]
  | none =>
    rw [hfound, Option.none_or] at hfirst
    -- None of the entries decides alike either, or its address would have kept one that does.
    have hnone : entries.find? (fun e => decisive e = decisive d) = none := by
      rw [List.find?_eq_none] at hfound ⊢
      intro e he
      rw [decide_eq_true_eq]
      intro heq
      obtain ⟨haddress, hrank⟩ := decisive_eq_iff.1 heq
      obtain ⟨w, hw, hwe⟩ := hkept.covers e he
      have hle : w.rank ≤ d.rank := hrank ▸ hkept.best w hw e he hwe.symm
      have hge := hbest.best d hd w (List.mem_append_left _ (hkept.subset hw))
        (hwe.trans haddress)
      exact hfound w hw (decide_eq_true
        (decisive_eq_iff.2 ⟨hwe.trans haddress, le_antisymm hle hge⟩))
    rw [hnone, Option.none_or]
    exact hfirst

/-! ## One entry of each address -/

/-- Of some entries one of each address is kept: the largest, among these one with a name, among
these the one whose name comes first, and of entries that are equal in all of this the first. -/
structure KeepsOneOfEach (entries kept : List RawSymbol) : Prop where
  /-- Addresses ascend, so none comes twice. -/
  ascending : kept.Pairwise fun a b => a.address < b.address
  /-- They are those of the entries. -/
  addresses : ∀ a, a ∈ kept.map RawSymbol.address ↔ a ∈ entries.map RawSymbol.address
  /-- What is kept is among the entries. -/
  listed : ∀ d ∈ kept, d ∈ entries
  /-- Nothing at its address is larger. -/
  largest : ∀ d ∈ kept, ∀ e ∈ entries, e.address = d.address → e.size ≤ d.size
  /-- If it has no name, no other of its size there has one. -/
  unnamed : ∀ d ∈ kept, d.name = [] → ∀ e ∈ entries, e.address = d.address → e.size = d.size →
    e.name = []
  /-- If it has one, no name of another of its size there comes before it. -/
  named : ∀ d ∈ kept, d.name ≠ [] → ∀ e ∈ entries, e.address = d.address → e.size = d.size →
    e.name ≠ [] → d.name ≤ e.name
  /-- No entry before it has its address, size and name. -/
  earliest : ∀ d ∈ kept, entries.find? (fun e => e.address = d.address ∧ e.size = d.size
    ∧ e.name = d.name) = some d

/-- The addresses of what is kept are those of the entries. -/
theorem KeepsBest.mem_address {entries kept : List RawSymbol} (h : KeepsBest entries kept)
    (a : Int) : a ∈ kept.map RawSymbol.address ↔ a ∈ entries.map RawSymbol.address := by
  constructor
  · intro ha
    obtain ⟨d, hd, rfl⟩ := List.mem_map.1 ha
    exact List.mem_map_of_mem (h.subset hd)
  · intro ha
    obtain ⟨e, he, rfl⟩ := List.mem_map.1 ha
    obtain ⟨d, hd, hde⟩ := h.covers e he
    exact hde ▸ List.mem_map_of_mem hd

theorem KeepsBest.keepsOneOfEach {entries kept : List RawSymbol} (h : KeepsBest entries kept)
    (hfirst : KeepsFirst entries kept) : KeepsOneOfEach entries kept where
  ascending := h.ascending
  addresses := h.mem_address
  listed := fun d hd => h.subset hd
  largest := fun d hd e he haddress => RawSymbol.size_le_of_rank_le (h.best d hd e he haddress)
  unnamed := fun d hd hname e he haddress hsize =>
    RawSymbol.name_eq_nil_of_rank_le (h.best d hd e he haddress) hsize hname
  named := fun d hd _ e he haddress hsize hname =>
    RawSymbol.name_le_of_rank_le (h.best d hd e he haddress) hsize hname
  earliest := by
    intro d hd
    rw [← hfirst d hd]
    simp only [decisive, Prod.mk.injEq]

/-- **Deduplication.** One entry of each address is kept. What decides about it is determined by
the entries, whatever their order, and deduplicating some of them beforehand changes nothing. -/
theorem deduplicate_keeps (entries : List RawSymbol) :
    KeepsOneOfEach entries (deduplicate entries)
      ∧ (∀ entries' : List RawSymbol, entries.Perm entries' →
        (deduplicate entries').map decisive = (deduplicate entries).map decisive)
      ∧ ∀ more : List RawSymbol,
        deduplicate (deduplicate entries ++ more) = deduplicate (entries ++ more) := by
  have hbest := keepsBest_deduplicate entries
  refine ⟨hbest.keepsOneOfEach (keepsFirst_deduplicate entries), ?_, deduplicate_append entries⟩
  intro entries' hperm
  have hbest' := (keepsBest_deduplicate entries').of_mem_iff fun e => hperm.symm.mem_iff
  exact hbest'.unique hbest

/-- Two addresses with aliases. At the first the largest entry has no name, at the second the same
name is listed in two sections. -/
def sampleAliases : List RawSymbol :=
  [⟨16, 8, ".text", []⟩, ⟨0, 0, ".text", "main"⟩, ⟨16, 8, ".init", "start"⟩,
    ⟨16, 8, ".text", "start"⟩, ⟨0, 12, ".text", []⟩, ⟨16, 8, ".text", "stop"⟩]

/-- The order of the aliases decides about nothing but the section. -/
theorem sampleAliases_kept :
    deduplicate sampleAliases = [⟨0, 12, ".text", []⟩, ⟨16, 8, ".init", "start"⟩] ∧
      sampleAliases.Perm sampleAliases.reverse ∧
      (deduplicate sampleAliases.reverse).map decisive = [(0, 12, []), (16, 8, "start")] := by
  have hkept : deduplicate sampleAliases = [⟨0, 12, ".text", []⟩, ⟨16, 8, ".init", "start"⟩] := by
    cbv
  have hperm : sampleAliases.Perm sampleAliases.reverse := (List.reverse_perm _).symm
  refine ⟨hkept, hperm, ?_⟩
  rw [(deduplicate_keeps sampleAliases).2.1 _ hperm, hkept]
  rfl

end Attribution

end CrateLedger
