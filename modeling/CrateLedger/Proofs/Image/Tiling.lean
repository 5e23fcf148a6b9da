import CrateLedger.Proofs.Attribution.Distinct
import CrateLedger.Proofs.Image.Container
import CrateLedger.Proofs.Image.DerivedSizes
import CrateLedger.Proofs.Image.Errors
import Mathlib.Algebra.BigOperators.Group.Finset.Basic
import Mathlib.Data.Finset.Max
import Mathlib.Tactic

/-!
# How far derived sizes reach

From the first address inside a section on, derived sizes leave no gap. They end where the section
ends, unless the symbol table lists an address behind the section and none right at its end: then
the last symbol inside the section reaches up to that address.

Main statement: derived sizes tile the section from its first address up to where the last symbol
reaches, and this is the end of the section exactly if nothing is listed behind it or something is
right at it. Only then the symbols of an image account for no more than the section has.
-/

namespace CrateLedger

open Attribution

/-- How many bytes the symbols of a table account for, one of each address. -/
def SymbolTable.accountedSize (table : SymbolTable) : Int :=
  ((sectionSymbols table).map RawSymbol.size).sum

namespace Image

variable {entries sized : List RawSymbol} {sectionStart sectionEnd last a : Int}

/-! ## Where the last symbol ends -/

/-- The first address at or behind the end of a section, and the end itself if there is none. -/
def reach (entries : List RawSymbol) (sectionEnd : Int) : Int :=
  nextAddress (entries.map RawSymbol.address) sectionEnd (sectionEnd - 1)

theorem reach_cases (entries : List RawSymbol) (sectionEnd : Int) :
    (reach entries sectionEnd ∈ entries.map RawSymbol.address ∧
        sectionEnd ≤ reach entries sectionEnd ∧
        ∀ b ∈ entries.map RawSymbol.address, sectionEnd ≤ b → reach entries sectionEnd ≤ b) ∨
      (∀ b ∈ entries.map RawSymbol.address, b < sectionEnd) ∧
        reach entries sectionEnd = sectionEnd := by
  rcases nextAddress_cases (entries.map RawSymbol.address) sectionEnd (sectionEnd - 1) with
    ⟨hmem, hlt, hleast⟩ | ⟨hnone, hend⟩
  · refine .inl ⟨hmem, Int.sub_one_lt_iff.1 hlt, fun b hb hle => hleast b hb ?_⟩
    exact Int.sub_one_lt_iff.2 hle
  · exact .inr ⟨fun b hb => Int.le_sub_one_iff.1 (hnone b hb), hend⟩

theorem le_reach (entries : List RawSymbol) (sectionEnd : Int) :
    sectionEnd ≤ reach entries sectionEnd := by
  rcases reach_cases entries sectionEnd with ⟨-, hle, -⟩ | ⟨-, hend⟩
  · exact hle
  · exact hend.ge

/-- The last symbol ends with the section unless an address behind the section is the first that is
not inside it. -/
theorem reach_eq_iff : reach entries sectionEnd = sectionEnd ↔
    (∀ e ∈ entries, e.address < sectionEnd) ∨ ∃ e ∈ entries, e.address = sectionEnd := by
  constructor
  · intro hend
    rcases reach_cases entries sectionEnd with ⟨hmem, -, -⟩ | ⟨hnone, -⟩
    · obtain ⟨e, he, haddress⟩ := List.mem_map.1 hmem
      exact .inr ⟨e, he, haddress.trans hend⟩
    · exact .inl fun e he => hnone _ (List.mem_map_of_mem he)
  · intro h
    rcases reach_cases entries sectionEnd with ⟨hmem, hle, hleast⟩ | ⟨-, hend⟩
    · rcases h with hbefore | ⟨e, he, haddress⟩
      · obtain ⟨e, he, haddress⟩ := List.mem_map.1 hmem
        exact absurd (haddress ▸ hbefore e he) (not_lt.2 hle)
      · exact le_antisymm (haddress ▸ hleast _ (List.mem_map_of_mem he) haddress.ge) hle
    · exact hend

theorem nextAddress_le_reach (h : a < sectionEnd) :
    nextAddress (entries.map RawSymbol.address) sectionEnd a ≤ reach entries sectionEnd := by
  rcases reach_cases entries sectionEnd with ⟨hmem, hle, -⟩ | ⟨hnone, hend⟩
  · exact nextAddress_le hmem (h.trans_le hle)
  · rw [hend]
    rcases nextAddress_cases (entries.map RawSymbol.address) sectionEnd a with
      ⟨hmem, -, -⟩ | ⟨-, hnext⟩
    · exact (hnone _ hmem).le
    · exact hnext.le

/-- Behind the last address inside a section comes the first that is not. -/
theorem nextAddress_eq_reach (ha : a ∈ Set.Ico sectionStart sectionEnd)
    (hlast : ∀ b ∈ entries.map RawSymbol.address, b ∈ Set.Ico sectionStart sectionEnd → b ≤ a) :
    nextAddress (entries.map RawSymbol.address) sectionEnd a = reach entries sectionEnd := by
  have hbehind : ∀ b ∈ entries.map RawSymbol.address, a < b → sectionEnd ≤ b := by
    intro b hb hab
    exact not_lt.1 fun hlt => absurd (hlast b hb ⟨ha.1.trans hab.le, hlt⟩) (not_le.2 hab)
  refine le_antisymm (nextAddress_le_reach ha.2) ?_
  rcases nextAddress_cases (entries.map RawSymbol.address) sectionEnd a with
    ⟨hmem, hlt, -⟩ | ⟨hnone, hnext⟩
  · rcases reach_cases entries sectionEnd with ⟨-, -, hleast⟩ | ⟨-, hend⟩
    · exact hleast _ hmem (hbehind _ hmem hlt)
    · rw [hend]
      exact hbehind _ hmem hlt
  · rcases reach_cases entries sectionEnd with ⟨hmem, hle, -⟩ | ⟨-, hend⟩
    · exact absurd (hnone _ hmem) (not_le.2 (ha.2.trans_le hle))
    · rw [hend, hnext]

/-! ## Sums of sizes -/

/-- Gaps that lead from each of some numbers to the next, and from the greatest to a last one, add
up to the distance from the least to the last. -/
theorem sum_gaps {gap : Int → Int} {addresses : Finset Int}
    (hmeet : ∀ a ∈ addresses, ∀ b ∈ addresses, a < b →
      (∀ c ∈ addresses, ¬ (a < c ∧ c < b)) → a + gap a = b)
    (hlast : ∀ a ∈ addresses, (∀ b ∈ addresses, b ≤ a) → a + gap a = last)
    (h : addresses.Nonempty) : ∑ a ∈ addresses, gap a = last - addresses.min' h := by
  induction addresses using Finset.induction_on_min with
  | empty => exact absurd h Finset.not_nonempty_empty
  | insert m rest hm ih =>
    have hnotMem : m ∉ rest := fun hmem => lt_irrefl m (hm m hmem)
    have hmin : (insert m rest).min' h = m := by
      refine le_antisymm (Finset.min'_le _ _ (Finset.mem_insert_self _ _)) ?_
      refine Finset.le_min' _ _ _ fun b hb => ?_
      rcases Finset.mem_insert.1 hb with rfl | hb
      · exact le_rfl
      · exact (hm b hb).le
    rw [Finset.sum_insert hnotMem, hmin]
    by_cases hrest : rest.Nonempty
    · -- The least is followed by the least of the rest, at which the sum of the rest begins.
      have hnext : m + gap m = rest.min' hrest := by
        have hmem := rest.min'_mem hrest
        refine hmeet m (Finset.mem_insert_self _ _) _ (Finset.mem_insert_of_mem hmem) (hm _ hmem) ?_
        rintro c hc ⟨hmc, hcb⟩
        rcases Finset.mem_insert.1 hc with rfl | hc
        · exact lt_irrefl _ hmc
        · exact absurd (rest.min'_le c hc) (not_le.2 hcb)
      have hsum := ih (fun b hb c hc hbc hbetween => by
          refine hmeet b (Finset.mem_insert_of_mem hb) c (Finset.mem_insert_of_mem hc) hbc ?_
          rintro d hd ⟨hbd, hdc⟩
          rcases Finset.mem_insert.1 hd with rfl | hd
          · exact lt_asymm hbd (hm b hb)
          · exact hbetween d hd ⟨hbd, hdc⟩)
        (fun b hb hgreatest => by
          refine hlast b (Finset.mem_insert_of_mem hb) fun c hc => ?_
          rcases Finset.mem_insert.1 hc with rfl | hc
          · exact (hm b hb).le
          · exact hgreatest c hc) hrest
      rw [hsum, ← hnext]
      ring
    · obtain rfl : rest = ∅ := Finset.not_nonempty_iff_eq_empty.1 hrest
      have hnext : m + gap m = last := by
        refine hlast m (Finset.mem_insert_self _ _) fun b hb => ?_
        have hbm : b = m := by simpa using hb
        exact hbm.le
      rw [Finset.sum_empty, ← hnext]
      ring

/-! ## Tilings -/

/-- The addresses of entries that are inside a section. -/
def insideAddresses (entries : List RawSymbol) (sectionStart sectionEnd : Int) : Finset Int :=
  (entries.map RawSymbol.address).toFinset.filter fun a => sectionStart ≤ a ∧ a < sectionEnd

/-- The size of the entries at an address. -/
def sizeAt (entries : List RawSymbol) (a : Int) : Int :=
  ((entries.find? fun e => e.address = a).map RawSymbol.size).getD 0

theorem mem_insideAddresses : a ∈ insideAddresses entries sectionStart sectionEnd ↔
    (∃ e ∈ entries, e.address = a) ∧ a ∈ Set.Ico sectionStart sectionEnd := by
  rw [insideAddresses, Finset.mem_filter, List.mem_toFinset, List.mem_map, Set.mem_Ico]

/-- Sized entries tile a section from the first address inside it up to where the last ends. -/
structure Tiles (sized : List RawSymbol) (sectionStart sectionEnd last : Int) : Prop where
  /-- Nothing with a size reaches further. -/
  within : ∀ s ∈ sized, s.size ≠ 0 → s.address + s.size ≤ last
  /-- What is at the last address inside the section reaches that far. -/
  reaches : ∀ s ∈ sized, s.address ∈ Set.Ico sectionStart sectionEnd →
    (∀ t ∈ sized, t.address ∈ Set.Ico sectionStart sectionEnd → t.address ≤ s.address) →
    s.address + s.size = last
  /-- The sizes add up to all from the first address inside the section on. -/
  total : ∑ a ∈ insideAddresses sized sectionStart sectionEnd, sizeAt sized a
    = if h : (insideAddresses sized sectionStart sectionEnd).Nonempty then
        last - (insideAddresses sized sectionStart sectionEnd).min' h
      else 0

theorem sizeAt_eq (haliases : ∀ s ∈ sized, ∀ t ∈ sized, s.address = t.address → s.size = t.size)
    {s : RawSymbol} (hs : s ∈ sized) : sizeAt sized s.address = s.size := by
  cases hfound : sized.find? fun t => t.address = s.address with
  | some t =>
    have haddress : t.address = s.address := by simpa using List.find?_some hfound
    rw [sizeAt, hfound, Option.map_some, Option.getD_some]
    exact haliases t (List.mem_of_find?_eq_some hfound) s hs haddress
  | none =>
    rw [List.find?_eq_none] at hfound
    exact absurd (decide_eq_true rfl) (hfound s hs)

/-- Derived sizes tile a section up to where the last symbol reaches. -/
theorem tiles_assignGapSizes (entries : List RawSymbol) (sectionStart sectionEnd : Int) :
    Tiles (assignGapSizes entries sectionStart sectionEnd) sectionStart sectionEnd
      (reach entries sectionEnd) := by
  have hmeets := sizesMeet_assignGapSizes entries sectionStart sectionEnd
  have hreaches : ∀ s ∈ assignGapSizes entries sectionStart sectionEnd,
      s.address ∈ Set.Ico sectionStart sectionEnd →
      (∀ t ∈ assignGapSizes entries sectionStart sectionEnd,
        t.address ∈ Set.Ico sectionStart sectionEnd → t.address ≤ s.address) →
      s.address + s.size = reach entries sectionEnd := by
    intro s hs hin hlast
    rw [size_of_mem_assignGapSizes hs, add_gapSize hin]
    refine nextAddress_eq_reach hin fun b hb hbin => ?_
    rw [← map_address_assignGapSizes entries sectionStart sectionEnd] at hb
    obtain ⟨t, ht, rfl⟩ := List.mem_map.1 hb
    exact hlast t ht hbin
  refine ⟨fun s hs hsize => ?_, hreaches, ?_⟩
  · have hin : s.address ∈ Set.Ico sectionStart sectionEnd := by
      by_contra hout
      exact hsize (hmeets.outside s hs hout)
    rw [size_of_mem_assignGapSizes hs, add_gapSize hin]
    exact nextAddress_le_reach hin.2
  · split
    · rename_i hinside
      refine sum_gaps ?_ ?_ hinside
      · intro a ha b hb hab hbetween
        obtain ⟨⟨s, hs, rfl⟩, hsin⟩ := mem_insideAddresses.1 ha
        obtain ⟨⟨t, ht, rfl⟩, htin⟩ := mem_insideAddresses.1 hb
        rw [sizeAt_eq hmeets.aliases hs]
        refine hmeets.meet s hs t ht hsin htin hab fun u hu huin => ?_
        exact hbetween _ (mem_insideAddresses.2 ⟨⟨u, hu, rfl⟩, huin⟩)
      · intro a ha hgreatest
        obtain ⟨⟨s, hs, rfl⟩, hsin⟩ := mem_insideAddresses.1 ha
        rw [sizeAt_eq hmeets.aliases hs]
        refine hreaches s hs hsin fun t ht htin => ?_
        exact hgreatest _ (mem_insideAddresses.2 ⟨⟨t, ht, rfl⟩, htin⟩)
    · rename_i hnone
      rw [Finset.not_nonempty_iff_eq_empty.1 hnone, Finset.sum_empty]

/-- Where the tiles of a section end is determined by what is inside it. -/
theorem Tiles.last_eq {last' : Int} (h : Tiles sized sectionStart sectionEnd last)
    (h' : Tiles sized sectionStart sectionEnd last')
    (hinside : (insideAddresses sized sectionStart sectionEnd).Nonempty) : last = last' := by
  have hmem := (insideAddresses sized sectionStart sectionEnd).max'_mem hinside
  obtain ⟨⟨s, hs, haddress⟩, hin⟩ := mem_insideAddresses.1 hmem
  rw [← haddress] at hin
  have hgreatest : ∀ t ∈ sized, t.address ∈ Set.Ico sectionStart sectionEnd →
      t.address ≤ s.address := by
    intro t ht htin
    rw [haddress]
    exact Finset.le_max' _ _ (mem_insideAddresses.2 ⟨⟨t, ht, rfl⟩, htin⟩)
  rw [← h.reaches s hs hin hgreatest, h'.reaches s hs hin hgreatest]

theorem insideAddresses_assignGapSizes (entries : List RawSymbol)
    (sectionStart sectionEnd : Int) :
    insideAddresses (assignGapSizes entries sectionStart sectionEnd) sectionStart sectionEnd
      = insideAddresses entries sectionStart sectionEnd := by
  rw [insideAddresses, insideAddresses, map_address_assignGapSizes]

theorem reach_assignGapSizes (entries : List RawSymbol) (sectionStart sectionEnd : Int) :
    reach (assignGapSizes entries sectionStart sectionEnd) sectionEnd
      = reach entries sectionEnd := by
  rw [reach, reach, map_address_assignGapSizes]

/-- Sizes end with the section exactly if nothing is inside it or the last symbol ends with it. -/
theorem tiles_sectionEnd_iff :
    Tiles (assignGapSizes entries sectionStart sectionEnd) sectionStart sectionEnd sectionEnd ↔
      insideAddresses entries sectionStart sectionEnd = ∅ ∨
        reach entries sectionEnd = sectionEnd := by
  have htiles := tiles_assignGapSizes entries sectionStart sectionEnd
  constructor
  · intro h
    rcases (insideAddresses entries sectionStart sectionEnd).eq_empty_or_nonempty with
      hnone | hinside
    · exact .inl hnone
    · rw [← insideAddresses_assignGapSizes] at hinside
      exact .inr (htiles.last_eq h hinside)
  · rintro (hnone | hend)
    · have hmeets := sizesMeet_assignGapSizes entries sectionStart sectionEnd
      have hout : ∀ s ∈ assignGapSizes entries sectionStart sectionEnd,
          s.address ∉ Set.Ico sectionStart sectionEnd := by
        intro s hs hin
        have hmem := mem_insideAddresses.2 ⟨⟨s, hs, rfl⟩, hin⟩
        rw [insideAddresses_assignGapSizes, hnone] at hmem
        exact Finset.notMem_empty _ hmem
      refine ⟨fun s hs hsize => ?_, fun s hs hin => absurd hin (hout s hs), ?_⟩
      · exact absurd (hmeets.outside s hs (hout s hs)) hsize
      · rw [insideAddresses_assignGapSizes, hnone, Finset.sum_empty, dif_neg]
        exact Finset.not_nonempty_empty
    · rwa [hend] at htiles

/-! ## What a table accounts for -/

/-- A table whose sizes are derived accounts for the sizes inside its section. -/
theorem accountedSize_eq {table : SymbolTable}
    (hentries : table.entries = assignGapSizes entries sectionStart sectionEnd)
    (hsection : ∀ e ∈ table.entries, e.sectionName = table.sectionName) :
    table.accountedSize = ∑ a ∈ insideAddresses table.entries sectionStart sectionEnd,
      sizeAt table.entries a := by
  have hmeets : SizesMeet entries table.entries sectionStart sectionEnd :=
    hentries ▸ sizesMeet_assignGapSizes entries sectionStart sectionEnd
  have hfilter : (table.entries.filter fun e => e.sectionName = table.sectionName)
      = table.entries := List.filter_eq_self.2 fun e he => decide_eq_true (hsection e he)
  have hbest : KeepsBest table.entries (sectionSymbols table) := by
    rw [sectionSymbols, hfilter]
    exact keepsBest_deduplicate table.entries
  have hnodup : ((sectionSymbols table).map RawSymbol.address).Nodup :=
    List.pairwise_map.2 (hbest.ascending.imp fun hlt => hlt.ne)
  have haddresses : ((sectionSymbols table).map RawSymbol.address).toFinset
      = (table.entries.map RawSymbol.address).toFinset := by
    ext a
    rw [List.mem_toFinset, List.mem_toFinset, hbest.mem_address]
  have hsizes : (sectionSymbols table).map RawSymbol.size
      = ((sectionSymbols table).map RawSymbol.address).map (sizeAt table.entries) := by
    rw [List.map_map]
    exact List.map_congr_left fun d hd => (sizeAt_eq hmeets.aliases (hbest.subset hd)).symm
  rw [SymbolTable.accountedSize, hsizes, ← List.sum_toFinset _ hnodup, haddresses, insideAddresses]
  refine (Finset.sum_filter_of_ne fun a ha hsize => ?_).symm
  by_contra hout
  obtain ⟨s, hs, rfl⟩ := List.mem_map.1 (List.mem_toFinset.1 ha)
  rw [sizeAt_eq hmeets.aliases hs] at hsize
  exact hsize (hmeets.outside s hs hout)

/-- Tiles have no more room than there is from the start of the section on. -/
theorem Tiles.sum_le (h : Tiles sized sectionStart sectionEnd last)
    (hle : sectionStart ≤ last) :
    ∑ a ∈ insideAddresses sized sectionStart sectionEnd, sizeAt sized a ≤ last - sectionStart := by
  rw [h.total]
  split
  · rename_i hinside
    have hmem := (insideAddresses sized sectionStart sectionEnd).min'_mem hinside
    have hstart := (mem_insideAddresses.1 hmem).2.1
    omega
  · omega

/-! ## Images -/

/-- The sizes of a table are those that follow from its addresses and its section, which starts at
an address. -/
structure SizesDerived (table : SymbolTable) (sectionStart : Int) : Prop where
  /-- All entries are of the section. -/
  section_eq : ∀ e ∈ table.entries, e.sectionName = table.sectionName
  /-- The section has no negative size. -/
  size_nonneg : 0 ≤ table.sectionSize
  /-- The sizes are derived. -/
  derived : ∃ entries, table.entries
    = assignGapSizes entries sectionStart (sectionStart + table.sectionSize)

theorem section_eq_of_mem_assignGapSizes {name : Text} (h : ∀ e ∈ entries, e.sectionName = name) :
    ∀ s ∈ assignGapSizes entries sectionStart sectionEnd, s.sectionName = name := by
  intro s hs
  obtain ⟨e, he, rfl⟩ := mem_assignGapSizes.1 hs
  exact h e he

theorem MachO.sizesDerived_of_read {l : MachO.Layout} {data : Bytes} {wanted : Value}
    {reading : Reading} (h : MachO.read l data wanted = .ok reading) :
    ∃ start, SizesDerived reading.table start := by
  unfold MachO.read at h
  obtain ⟨header, -, h⟩ := bind_eq_ok.1 h
  split at h
  · cases h
  obtain ⟨sections, -, h⟩ := bind_eq_ok.1 h
  obtain ⟨symbols, -, h⟩ := bind_eq_ok.1 h
  obtain ⟨⟨selector, segment, name⟩, -, h⟩ := bind_eq_ok.1 h
  dsimp only at h
  split at h
  · cases h
  rename_i target ordinal _
  split at h
  · cases h
    exact ⟨target.address, nofun, Int.natCast_nonneg _, [], rfl⟩
  · obtain ⟨entries, hentries, h⟩ := bind_eq_ok.1 h
    cases h
    refine ⟨target.address, section_eq_of_mem_assignGapSizes ?_, Int.natCast_nonneg _, _, rfl⟩
    have hread := forall_of_readTable_eq_ok
      (P := fun e : Option RawSymbol => ∀ s ∈ e, s.sectionName = selector) (fun i e he => ?_)
      (within_eq_ok.1 hentries)
    · intro e he
      obtain ⟨e', he', hsome⟩ := List.mem_filterMap.1 he
      exact hread e' he' e hsome
    · obtain ⟨n, -, he⟩ := bind_eq_ok.1 he
      split at he
      · obtain ⟨text, -, he⟩ := bind_eq_ok.1 he
        cases he
        rintro s ⟨⟩
        rfl
      · cases he
        nofun

theorem Coff.section_eq_of_functionsFrom {data : Bytes} {h : Coff.Headers} {s : Coff.Section}
    {number i : Nat} (hread : Coff.functionsFrom data h s number i = .ok entries) :
    ∀ e ∈ entries, e.sectionName = s.name := by
  induction hleft : h.symbolCount - i using Nat.strong_induction_on generalizing i entries with
  | _ left ih =>
    rw [Coff.functionsFrom.eq_def] at hread
    split at hread
    · rename_i hi
      obtain ⟨r, -, hread⟩ := bind_eq_ok.1 hread
      split at hread
      · obtain ⟨name, -, hread⟩ := bind_eq_ok.1 hread
        obtain ⟨rest, hrest, hread⟩ := bind_eq_ok.1 hread
        cases hread
        exact List.forall_mem_cons.2 ⟨rfl, ih _ (by omega) hrest rfl⟩
      · exact ih _ (by omega) hread rfl
    · cases hread
      nofun

theorem Coff.sizesDerived_of_read {data : Bytes} {wanted : Value} {reading : Reading}
    (h : Coff.read data wanted = .ok reading) : ∃ start, SizesDerived reading.table start := by
  unfold Coff.read at h
  obtain ⟨headers, -, h⟩ := bind_eq_ok.1 h
  split at h
  · cases h
  rename_i target number _
  dsimp only at h
  split at h
  · cases h
    exact ⟨target.virtualAddress, nofun, Int.natCast_nonneg _, [], rfl⟩
  · obtain ⟨entries, hentries, h⟩ := bind_eq_ok.1 h
    cases h
    exact ⟨target.virtualAddress, section_eq_of_mem_assignGapSizes
      (Coff.section_eq_of_functionsFrom (within_eq_ok.1 hentries)), Int.natCast_nonneg _, _, rfl⟩

theorem sizesDerived_of_read {source : Source} {companion : Option Bytes} {wanted : Value}
    {signature : Signature} {reading : Reading} (hdetect : detect source.data = .ok signature)
    (hformat : signature.format = .machO ∨ signature.format = .pe)
    (h : read source wanted companion = .ok reading) :
    ∃ start, SizesDerived reading.table start := by
  unfold read at h
  rw [hdetect] at h
  cases signature with
  | machO layout => exact MachO.sizesDerived_of_read h
  | pe => exact Coff.sizesDerived_of_read h
  | pdb => simp [Signature.format] at hformat
  | elf => simp [Signature.format] at hformat

/-- What a table with derived sizes accounts for: all from its first address inside the section up
to where the last symbol reaches. -/
theorem SizesDerived.accounts {table : SymbolTable} {start : Int} (h : SizesDerived table start) :
    Tiles table.entries start (start + table.sectionSize)
        (reach table.entries (start + table.sectionSize)) ∧
      table.accountedSize = ∑ a ∈ insideAddresses table.entries start (start + table.sectionSize),
        sizeAt table.entries a ∧
      table.accountedSize ≤ reach table.entries (start + table.sectionSize) - start := by
  obtain ⟨entries, hentries⟩ := h.derived
  have htiles := tiles_assignGapSizes entries start (start + table.sectionSize)
  rw [← reach_assignGapSizes entries start, ← hentries] at htiles
  have haccounted := accountedSize_eq hentries h.section_eq
  have hend := le_reach table.entries (start + table.sectionSize)
  have hnonneg := h.size_nonneg
  exact ⟨htiles, haccounted, haccounted ▸ htiles.sum_le (by omega)⟩

/-- **Derived sizes tile.** The sizes that follow from addresses fill a section from the first
address inside it up to where the last symbol reaches. They end with the section exactly if nothing
is inside it, or no entry is behind its end, or one is right at it. So where this is the case, the
symbols of a Mach-O or PE image account for no more bytes than the section has. -/
theorem derivedSizes_tile (entries : List RawSymbol) (sectionStart sectionEnd : Int) :
    Tiles (assignGapSizes entries sectionStart sectionEnd) sectionStart sectionEnd
        (reach entries sectionEnd) ∧
      (Tiles (assignGapSizes entries sectionStart sectionEnd) sectionStart sectionEnd sectionEnd ↔
        insideAddresses entries sectionStart sectionEnd = ∅ ∨
          (∀ e ∈ entries, e.address < sectionEnd) ∨ ∃ e ∈ entries, e.address = sectionEnd) ∧
      ∀ (source : Source) (wanted : Value) (companion : Option Bytes) (signature : Signature)
        (reading : Reading), detect source.data = .ok signature →
        signature.format = .machO ∨ signature.format = .pe →
        read source wanted companion = .ok reading →
        let table := reading.table
        ∃ start, SizesDerived table start ∧ let stop := start + table.sectionSize
          Tiles table.entries start stop (reach table.entries stop) ∧
          table.accountedSize = ∑ a ∈ insideAddresses table.entries start stop,
            sizeAt table.entries a ∧
          ((∀ e ∈ table.entries, e.address < stop) ∨ (∃ e ∈ table.entries, e.address = stop) →
            table.accountedSize ≤ table.sectionSize) := by
  refine ⟨tiles_assignGapSizes entries sectionStart sectionEnd, ?_, ?_⟩
  · rw [tiles_sectionEnd_iff, reach_eq_iff]
  · intro source wanted companion signature reading hdetect hformat hread
    obtain ⟨start, hderived⟩ := sizesDerived_of_read hdetect hformat hread
    obtain ⟨htiles, haccounted, hle⟩ := hderived.accounts
    refine ⟨start, hderived, htiles, haccounted, fun hend => ?_⟩
    rw [reach_eq_iff.2 hend] at hle
    omega

/-- The small image has a symbol that reaches up to the end of the section. -/
theorem smallImage_tiled :
    detect smallImage = .ok (.machO ⟨.little, false⟩) ∧
      read ⟨smallImage, false⟩ (.text ".text") none = .ok (smallReading 195 "main") ∧
      ∃ start, SizesDerived (smallReading 195 "main").table start ∧
        Tiles (smallReading 195 "main").table.entries start (start + 0x40)
          (reach (smallReading 195 "main").table.entries (start + 0x40)) ∧
        ((∀ e ∈ (smallReading 195 "main").table.entries, e.address < start + 0x40) ∨
          (∃ e ∈ (smallReading 195 "main").table.entries, e.address = start + 0x40) →
          (smallReading 195 "main").table.accountedSize ≤ 0x40) := by
  have hdetect : detect smallImage = .ok (.machO ⟨.little, false⟩) := by decide +kernel
  obtain ⟨start, hderived, htiles, -, hle⟩ := (derivedSizes_tile [] 0 0).2.2 ⟨smallImage, false⟩
    (.text ".text") none _ _ hdetect (.inl rfl) smallImage_read
  exact ⟨hdetect, smallImage_read, start, hderived, htiles, hle⟩

/-- The contents of the small image with a second symbol, which is listed for the section but lies
far behind its end. -/
def MachO.strayContents : MachO.Contents :=
  { MachO.smallContents with
    symbols := [⟨some "_main", 0x0F, 1, 0x1000⟩, ⟨some "_far", 0x0F, 1, 0x2000⟩]
    symbolNames := by decide +kernel
    symbolValues := by decide }

/-- An image with these contents. -/
def strayImage : Bytes := MachO.strayContents.write ⟨.little, false⟩

/-- What is read of it. -/
def strayReading : Reading :=
  ⟨⟨"Mach-O 32", ".text", 0x40, 212,
    [⟨0x1000, 0x1000, ".text", "main"⟩, ⟨0x2000, 0, ".text", "far"⟩]⟩, []⟩

theorem strayImage_read : read ⟨strayImage, false⟩ (.text ".text") none = .ok strayReading := by
  let l : MachO.Layout := ⟨.little, false⟩
  have hkinds : ∀ kind, .other kind ∈ MachO.strayContents.commands →
      kind < 2 ^ 32 ∧ kind ≠ l.segmentCommand ∧ kind ≠ 2 := by
    simp [MachO.strayContents, MachO.smallContents]
  have hencodes : MachO.Encodes l (Source.inMemory strayImage).data (MachO.strayContents.table l)
      MachO.strayContents (MachO.strayContents.commandsSize l) :=
    MachO.encodes_write (by decide) hkinds (by decide +kernel)
  have hsections : MachO.strayContents.sections = [] ++ ⟨"__TEXT", "__text", 0x1000, 0x40⟩ :: [] :=
    rfl
  have hread := MachO.read_encoded hencodes ".text" hsections (List.forall_mem_nil _) (by decide) none
  rw [assignGapSizes_eq] at hread
  exact hread.trans (by decide +kernel)

/-- The first symbol reaches up to the one behind the section, and accounts for more bytes than the
section has. -/
theorem strayImage_overruns :
    ¬ Tiles (assignGapSizes [⟨0x1000, 0, ".text", "main"⟩, ⟨0x2000, 0, ".text", "far"⟩]
        0x1000 0x1040) 0x1000 0x1040 0x1040 ∧
      read ⟨strayImage, false⟩ (.text ".text") none = .ok strayReading ∧
      strayReading.table.sectionSize = 0x40 ∧ strayReading.table.accountedSize = 0x1000 := by
  refine ⟨fun h => ?_, strayImage_read, rfl, by cbv⟩
  have hmem : ⟨0x1000, 0x1000, ".text", "main"⟩ ∈ assignGapSizes
      [⟨0x1000, 0, ".text", "main"⟩, ⟨0x2000, 0, ".text", "far"⟩] 0x1000 0x1040 := by
    rw [assignGapSizes_eq]
    decide
  exact absurd (h.within _ hmem (by decide)) (by decide)

end Image

end CrateLedger
