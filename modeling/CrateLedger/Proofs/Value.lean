import CrateLedger.Value
import Mathlib.Tactic

/-!
# Equality of scalars and documents

Scalars are the same by what they stand for and not by how they are spelled. What a scalar stands
for is made a value of its own here, its key, so that being the same is an equality and with it an
equivalence: grouping by it takes a list apart without loss. A document is the same as itself if no
object in it has a key twice.
-/

namespace CrateLedger

/-- Sorting puts items in order if they have one. -/
theorem pairwise_mergeSort_of_forall {α : Type} {before : α → α → Bool} {p : α → Prop}
    {xs : List α} (hxs : ∀ x ∈ xs, p x)
    (htrans : ∀ a b c, p a → p b → p c → before a b → before b c → before a c)
    (htotal : ∀ a b, p a → p b → before a b || before b a) :
    (xs.mergeSort before).Pairwise fun a b => before a b := by
  let restricted (a b : Subtype p) : Bool := before a.1 b.1
  have hmap : ((xs.attachWith p hxs).mergeSort restricted).map Subtype.val
      = ((xs.attachWith p hxs).map Subtype.val).mergeSort before :=
    List.map_mergeSort fun _ _ _ _ => rfl
  have htransRestricted : ∀ a b c : Subtype p, restricted a b → restricted b c → restricted a c :=
    fun a b c => htrans a b c a.2 b.2 c.2
  have htotalRestricted : ∀ a b : Subtype p, restricted a b || restricted b a :=
    fun a b => htotal a b a.2 b.2
  have hsorted := List.pairwise_mergeSort htransRestricted htotalRestricted (xs.attachWith p hxs)
  rw [List.attachWith_map_subtype_val] at hmap
  rw [← hmap, List.pairwise_map]
  exact hsorted

end CrateLedger

namespace CrateLedger.Scalar

/-! ## Keys -/

/-- What a scalar stands for where things are looked up or grouped. -/
inductive Key where
  | null
  | text (value : Text)
  | number (value : Position)
  | notANumber
  deriving DecidableEq

/-- The key of a scalar. -/
def key (s : Scalar) : Key :=
  match s.position?, s with
  | some p, _ => .number p
  | none, .null => .null
  | none, .text t => .text t
  | none, _ => .notANumber

/-- A double has no position only if it is no number. -/
theorem isNaN_of_position? {x : Binary64} (h : (float x).position? = none) : x.isNaN = true := by
  by_contra hnan
  rw [Bool.not_eq_true] at hnan
  rw [position?, hnan] at h
  by_cases hfinite : x.isFinite = true <;> simp [hfinite] at h

/-- Two scalars are the same if they have the same key. -/
theorem same_iff {a b : Scalar} : a.same b = true ↔ a.key = b.key := by
  cases hp : a.position? <;> cases hq : b.position? <;> cases a <;> cases b <;>
    first
    | contradiction
    | simp [same, key, isNaN, hp, hq, isNaN_of_position? hp, isNaN_of_position? hq]
    | simp [same, key, isNaN, hp, hq]

theorem same_refl (a : Scalar) : a.same a = true := same_iff.2 rfl

theorem same_comm (a b : Scalar) : a.same b = b.same a := by
  rw [Bool.eq_iff_iff, same_iff, same_iff, eq_comm]

theorem same_trans {a b c : Scalar} (hab : a.same b = true) (hbc : b.same c = true) :
    a.same c = true := same_iff.2 ((same_iff.1 hab).trans (same_iff.1 hbc))

theorem same_congr {a b : Scalar} (h : a.same b = true) (c : Scalar) : a.same c = b.same c := by
  rw [same_iff] at h
  rw [Bool.eq_iff_iff, same_iff, same_iff, h]

/-- What is the same as a text is that text. -/
theorem same_text_iff {s : Scalar} {t : Text} : s.same (text t) = true ↔ s = text t := by
  constructor
  · intro h
    have hkey : s.key = .text t := same_iff.1 h
    unfold key at hkey
    cases hp : s.position? with
    | some p => simp [hp] at hkey
    | none => cases s <;> simp_all
  · rintro rfl
    exact same_refl _

/-! ## One of each value -/

theorem distinct_cons (s : Scalar) (ss : List Scalar) :
    distinct (s :: ss) = s :: distinct (ss.filter fun t => t.same s = false) :=
  List.eraseDupsBy_cons

/-- Induction along `distinct`: a value is taken and all that are the same are left out. -/
theorem distinct_induction {motive : List Scalar → Prop} (nil : motive [])
    (cons : ∀ s ss, motive (ss.filter fun t => t.same s = false) → motive (s :: ss)) :
    ∀ ss, motive ss
  | [] => nil
  | s :: ss =>
    cons s ss (distinct_induction nil cons _)
termination_by ss => ss.length
decreasing_by exact Nat.lt_succ_of_le (List.length_filter_le _ _)

theorem distinct_subset (ss : List Scalar) : distinct ss ⊆ ss := by
  induction ss using distinct_induction with
  | nil => exact List.Subset.refl _
  | cons s ss ih =>
    rw [distinct_cons]
    exact List.cons_subset_cons s (List.Subset.trans ih (List.filter_subset_self _))

/-- No two of the distinct values are the same. -/
theorem pairwise_distinct (ss : List Scalar) :
    (distinct ss).Pairwise fun a b => a.same b = false := by
  induction ss using distinct_induction with
  | nil => exact List.Pairwise.nil
  | cons s ss ih =>
    rw [distinct_cons, List.pairwise_cons]
    refine ⟨fun c hc => ?_, ih⟩
    have hkept := List.of_mem_filter (distinct_subset _ hc)
    rw [same_comm]
    exact of_decide_eq_true hkept

/-- Every value is the same as one of the distinct ones. -/
theorem exists_same_distinct {ss : List Scalar} {s : Scalar} (h : s ∈ ss) :
    ∃ c ∈ distinct ss, s.same c = true := by
  induction ss using distinct_induction with
  | nil => cases h
  | cons t ss ih =>
    rw [distinct_cons]
    by_cases hst : s.same t = true
    · exact ⟨t, List.mem_cons_self, hst⟩
    · rw [Bool.not_eq_true] at hst
      have hmem : s ∈ ss := by
        rcases List.mem_cons.1 h with rfl | hmem
        · rw [same_refl] at hst
          cases hst
        · exact hmem
      obtain ⟨c, hc, hsame⟩ := ih (List.mem_filter.2 ⟨hmem, decide_eq_true hst⟩)
      exact ⟨c, List.mem_cons_of_mem _ hc, hsame⟩

/-- The values that come at all are the distinct ones. -/
theorem toFinset_key_distinct (ss : List Scalar) :
    ((distinct ss).map key).toFinset = (ss.map key).toFinset := by
  ext k
  simp only [List.mem_toFinset, List.mem_map]
  constructor
  · rintro ⟨c, hc, rfl⟩
    exact ⟨c, distinct_subset ss hc, rfl⟩
  · rintro ⟨s, hs, rfl⟩
    obtain ⟨c, hc, hsame⟩ := exists_same_distinct hs
    exact ⟨c, hc, (same_iff.1 hsame).symm⟩

/-- A value that is looked for among the distinct ones is found as it is first spelled. -/
theorem find?_distinct (ss : List Scalar) (k : Scalar) :
    (distinct ss).find? (fun c => c.same k) = ss.find? fun c => c.same k := by
  induction ss using distinct_induction with
  | nil => rfl
  | cons s ss ih =>
    rw [distinct_cons]
    by_cases hsk : s.same k = true
    · rw [List.find?_cons, List.find?_cons, hsk]
    · rw [Bool.not_eq_true] at hsk
      simp only [List.find?_cons, hsk]
      rw [ih, List.find?_filter]
      -- What is the same as `k` is not the same as `s`, so leaving that out changes nothing.
      congr 1
      funext c
      by_cases hck : c.same k = true
      · have hcs : c.same s = false := by
          by_contra hcs
          rw [Bool.not_eq_false, same_comm] at hcs
          rw [same_trans hcs hck] at hsk
          cases hsk
        simp [hck, hcs]
      · simp [hck]

theorem distinct_eq_self {ss : List Scalar} (h : ss.Pairwise fun a b => a.same b = false) :
    distinct ss = ss := by
  induction ss with
  | nil => rfl
  | cons s ss ih =>
    obtain ⟨hs, hss⟩ := List.pairwise_cons.1 h
    have hkept : (ss.filter fun t => t.same s = false) = ss := by
      rw [List.filter_eq_self]
      intro t ht
      rw [same_comm, hs t ht]
      rfl
    rw [distinct_cons, hkept, ih hss]

theorem isIn_congr {a b : Scalar} (h : a.same b = true) (ss : List Scalar) :
    a.isIn ss = b.isIn ss := by
  unfold isIn
  congr 1
  funext s
  exact same_congr h s

theorem isIn_perm {ss ts : List Scalar} (h : ss.Perm ts) (s : Scalar) : s.isIn ss = s.isIn ts :=
  h.any_eq

/-- What is kept under different keys is found by its key. -/
theorem find?_key {α : Type} {fields : List (Scalar × α)}
    (h : fields.Pairwise fun f g => f.1.same g.1 = false) {f : Scalar × α} (hf : f ∈ fields) :
    fields.find? (fun g => g.1.same f.1) = some f := by
  induction fields with
  | nil => cases hf
  | cons g fields ih =>
    obtain ⟨hg, hfields⟩ := List.pairwise_cons.1 h
    rcases List.mem_cons.1 hf with rfl | hf
    · rw [List.find?_cons, same_refl]
    · rw [List.find?_cons, hg f hf]
      exact ih hfields hf

/-! ## Grouping -/

section Grouping

variable {M : Type} [AddCommMonoid M]

/-- Of values no two of which are the same, one that is the same as a given one counts once. -/
theorem sum_same_of_pairwise {cs : List Scalar} (hcs : cs.Pairwise fun a b => a.same b = false)
    {s : Scalar} (h : ∃ c ∈ cs, s.same c = true) (m : M) :
    (cs.map fun c => if s.same c then m else 0).sum = m := by
  induction cs with
  | nil => simp at h
  | cons c cs ih =>
    obtain ⟨hc, hcs⟩ := List.pairwise_cons.1 hcs
    rw [List.map_cons, List.sum_cons]
    by_cases hsame : s.same c = true
    · have hothers : ∀ d ∈ cs, (if s.same d then m else 0) = 0 := by
        intro d hd
        refine if_neg fun hsd => ?_
        have hcd : c.same d = true := same_trans (by rwa [same_comm]) hsd
        rw [hc d hd] at hcd
        cases hcd
      rw [if_pos hsame, List.map_congr_left hothers]
      simp
    · obtain ⟨d, hd, hsd⟩ := h
      have hrest : ∃ c ∈ cs, s.same c = true := by
        rcases List.mem_cons.1 hd with rfl | hd
        · exact absurd hsd hsame
        · exact ⟨d, hd, hsd⟩
      rw [if_neg hsame, zero_add, ih hcs hrest]

/-- Grouping by a scalar loses and repeats nothing: what is added up group by group is what is
added up over all. -/
theorem sum_groups {α : Type} (label : α → Scalar) (f : α → M) {cs : List Scalar}
    (hcs : cs.Pairwise fun a b => a.same b = false) {xs : List α}
    (hxs : ∀ x ∈ xs, ∃ c ∈ cs, (label x).same c = true) :
    (cs.map fun c => ((xs.filter fun x => (label x).same c).map f).sum).sum
      = (xs.map f).sum := by
  induction xs with
  | nil => simp
  | cons x xs ih =>
    have hsplit : ∀ c ∈ cs, (((x :: xs).filter fun x => (label x).same c).map f).sum
        = (if (label x).same c then f x else 0)
          + ((xs.filter fun x => (label x).same c).map f).sum := by
      intro c _
      rw [List.filter_cons]
      split <;> simp
    rw [List.map_congr_left hsplit, List.sum_map_add,
      sum_same_of_pairwise hcs (hxs x List.mem_cons_self), ih fun y hy => hxs y (.tail _ hy),
      List.map_cons, List.sum_cons]

end Grouping

/-! ## Texts -/

/-- Scalars that are all texts are the scalars of some texts. -/
theorem exists_texts {ss : List Scalar} (h : ∀ s ∈ ss, ∃ t, s = text t) :
    ∃ ts : List Text, ss = ts.map text := by
  have hrange : ss ∈ Set.range (List.map text) := by
    rw [Set.range_list_map]
    intro s hs
    obtain ⟨t, ht⟩ := h s hs
    exact ⟨t, ht.symm⟩
  obtain ⟨ts, hts⟩ := hrange
  exact ⟨ts, hts.symm⟩

/-- A text is looked for as itself. -/
theorem isIn_text_iff {t : Text} {ss : List Scalar} : (text t).isIn ss = true ↔ text t ∈ ss := by
  rw [isIn, List.any_eq_true]
  constructor
  · rintro ⟨s, hs, hsame⟩
    rw [same_comm, same_text_iff] at hsame
    rwa [← hsame]
  · exact fun h => ⟨text t, h, same_refl _⟩

theorem text_mem_distinct_iff {t : Text} {ss : List Scalar} :
    text t ∈ distinct ss ↔ text t ∈ ss := by
  refine ⟨fun h => distinct_subset ss h, fun h => ?_⟩
  obtain ⟨c, hc, hsame⟩ := exists_same_distinct h
  rw [same_comm, same_text_iff] at hsame
  rwa [← hsame]

theorem same_text_text (s t : Text) : (text s).same (text t) = decide (s = t) := rfl

/-- Texts have the order of their code points. -/
theorem order?_text (s t : Text) : (text s).order? (text t)
    = if s = t then some .eq else some (if s ≤ t then .lt else .gt) := by
  by_cases h : s = t
  · simp [order?, same_text_text, h]
  · by_cases hlt : t < s
    · simp [order?, same_text_text, h, Text.le, hlt]
    · simp [order?, same_text_text, h, Text.le, hlt]

theorem le_text (s t : Text) : (text s).le (text t) = decide (s ≤ t) := by
  rw [le, order?_text]
  by_cases h : s = t
  · simp [h]
  · by_cases hlt : t < s
    · simp [h, hlt]
    · simp [h, not_lt.1 hlt]

theorem comparable_text (s t : Text) : (text s).comparable (text t) = true := by
  rw [comparable, order?_text]
  split <;> rfl

/-- One of each of some texts. -/
theorem exists_distinct_texts (ts : List Text) : ∃ us : List Text,
    distinct (ts.map text) = us.map text ∧ us.Nodup ∧ ∀ t, t ∈ us ↔ t ∈ ts := by
  have htexts : ∀ s ∈ distinct (ts.map text), ∃ t, s = text t := by
    intro s hs
    obtain ⟨t, -, rfl⟩ := List.mem_map.1 (distinct_subset _ hs)
    exact ⟨t, rfl⟩
  obtain ⟨us, hus⟩ := exists_texts htexts
  have hinjective : Function.Injective text := fun _ _ h => Scalar.text.inj h
  refine ⟨us, hus, ?_, fun t => ?_⟩
  · have hpairwise := pairwise_distinct (ts.map text)
    rw [hus, List.pairwise_map] at hpairwise
    refine hpairwise.imp ?_
    rintro s t hst rfl
    simp [same_text_text] at hst
  · rw [← List.mem_map_of_injective hinjective, ← hus, text_mem_distinct_iff,
      List.mem_map_of_injective hinjective]

/-- Texts that come once strictly ascend when they are sorted. -/
theorem exists_mergeSort_texts {ts : List Text} (h : ts.Nodup) : ∃ sorted : List Text,
    (ts.map text).mergeSort le = sorted.map text ∧ sorted.Pairwise (· < ·) ∧ sorted.Perm ts := by
  let before (s t : Text) : Bool := decide (s ≤ t)
  have hsort : (ts.mergeSort before).map text = (ts.map text).mergeSort le :=
    List.map_mergeSort fun s _ t _ => (le_text s t).symm
  have hperm : (ts.mergeSort before).Perm ts := List.mergeSort_perm ts before
  have htrans : ∀ a b c : Text, before a b = true → before b c = true → before a c = true :=
    fun a b c hab hbc => decide_eq_true
      (le_trans (of_decide_eq_true hab) (of_decide_eq_true hbc))
  have htotal : ∀ a b : Text, (before a b || before b a) = true :=
    fun a b => by simpa [before] using le_total a b
  have hascending := List.pairwise_mergeSort htrans htotal ts
  have hne : (ts.mergeSort before).Pairwise (· ≠ ·) := hperm.nodup_iff.2 h
  refine ⟨ts.mergeSort before, hsort.symm, ?_, hperm⟩
  exact hascending.imp₂ (fun s t hst hne => lt_of_le_of_ne (of_decide_eq_true hst) hne) hne

/-- Texts can be sorted. -/
theorem sort?_texts (ts : List Text) :
    sort? (ts.map text) = some ((ts.map text).mergeSort le) := by
  rw [sort?, if_pos]
  rw [List.all_eq_true]
  intro s hs
  obtain ⟨t, -, rfl⟩ := List.mem_map.1 hs
  cases ts <;> simp [comparable_text]

/-- Texts can be sorted, and if none comes twice they strictly ascend. -/
theorem exists_sort?_texts {ts : List Text} (h : ts.Nodup) : ∃ sorted : List Text,
    sort? (ts.map text) = some (sorted.map text) ∧ sorted.Pairwise (· < ·) ∧ sorted.Perm ts := by
  obtain ⟨sorted, hsorted, hascending, hperm⟩ := exists_mergeSort_texts h
  exact ⟨sorted, by rw [sort?_texts, hsorted], hascending, hperm⟩

end CrateLedger.Scalar

/-! ## Fields -/

namespace CrateLedger.Fields

variable {key other : Text}

/-- An object without what it holds under a text. -/
def without (fields : Fields) (key : Text) : Fields := fields.filter fun f => !f.1.same (.text key)

/-- What is under one key is not under another. -/
theorem same_text_ne {s : Scalar} (hne : key ≠ other) (h : s.same (.text key) = true) :
    s.same (.text other) = false := by
  rw [Scalar.same_text_iff.1 h]
  exact decide_eq_false hne

/-- Taking a field out leaves the others. -/
theorem get?_without (fields : Fields) (hne : key ≠ other) :
    (fields.without other).get? key = fields.get? key := by
  have hkept : ∀ f : Scalar × Value, decide ((!f.1.same (.text other)) = true ∧
      f.1.same (.text key) = true) = f.1.same (.text key) := by
    intro f
    rw [Bool.eq_iff_iff, decide_eq_true_iff]
    refine ⟨fun h => h.2, fun h => ⟨?_, h⟩⟩
    rw [same_text_ne hne h]
    rfl
  rw [get?, get?, without, List.find?_filter]
  simp only [hkept]

/-- Setting a field leaves the others. -/
theorem get?_insert (fields : Fields) (hne : key ≠ other) (v : Value) :
    (fields.insert (.text other) v).get? key = fields.get? key := by
  unfold insert
  split_ifs with hthere
  · have hkey : ∀ f : Scalar × Value,
        (if f.1.same (.text other) then (f.1, v) else f).1.same (.text key)
          = f.1.same (.text key) := by
      intro f
      split_ifs <;> rfl
    rw [get?, get?, List.find?_map]
    simp only [Function.comp_def, hkey]
    cases hfound : fields.find? fun f => f.1.same (.text key) with
    | none => rfl
    | some f =>
      have hf : f.1.same (.text key) = true := by simpa using List.find?_some hfound
      rw [Option.map_some, same_text_ne hne hf]
      rfl
  · have hnew : (Scalar.text other).same (.text key) = false := decide_eq_false hne.symm
    rw [get?, get?, List.find?_append, List.find?_singleton, hnew, if_neg Bool.false_ne_true,
      Option.or_none]

end CrateLedger.Fields

namespace CrateLedger.Value

theorem same_text_iff {v : Value} {t : Text} : v.same (.text t) = true ↔ v = .text t := by
  cases v with
  | scalar s => rw [Value.text, Value.same, Scalar.same_text_iff, Value.scalar.injEq]
  | list items => simp [Value.text, Value.same]
  | object fields => simp [Value.text, Value.same]

theorem text?_eq_some_iff {v : Value} {t : Text} : v.text? = some t ↔ v = .text t := by
  cases v with
  | scalar s => cases s <;> simp [text?, Scalar.text?, text]
  | list items => simp [text?, text]
  | object fields => simp [text?, text]

/-! ## Documents -/

mutual

/-- Whether no object in a document has a key twice. -/
def HasDistinctKeys : Value → Prop
  | .scalar _ => True
  | .list items => ItemsHaveDistinctKeys items
  | .object fields =>
    PartsHaveDistinctKeys fields ∧ fields.Pairwise fun f g => f.1.same g.1 = false

/-- Whether this holds of the items of a list. -/
def ItemsHaveDistinctKeys : List Value → Prop
  | [] => True
  | v :: vs => HasDistinctKeys v ∧ ItemsHaveDistinctKeys vs

/-- Whether it holds of what fields hold. -/
def PartsHaveDistinctKeys : List (Scalar × Value) → Prop
  | [] => True
  | (_, value) :: rest => HasDistinctKeys value ∧ PartsHaveDistinctKeys rest

end

mutual

theorem same_refl : ∀ {v : Value}, v.HasDistinctKeys → v.same v = true
  | .scalar s, _ => Scalar.same_refl s
  | .list _, h => sameItems_refl h
  | .object fields, h => by
    rw [same, decide_eq_true rfl, Bool.true_and]
    exact sameFields_of_subset h.1 h.2 (List.Subset.refl fields)

theorem sameItems_refl : ∀ {vs : List Value}, ItemsHaveDistinctKeys vs → sameItems vs vs = true
  | [], _ => rfl
  | _ :: _, h => by rw [sameItems, same_refl h.1, sameItems_refl h.2, Bool.true_and]

/-- Fields are found among others that have them too. -/
theorem sameFields_of_subset : ∀ {fields others : List (Scalar × Value)},
    PartsHaveDistinctKeys fields → (others.Pairwise fun f g => f.1.same g.1 = false) →
    fields ⊆ others → sameFields fields others = true
  | [], _, _, _, _ => rfl
  | (key, value) :: rest, others, h, hothers, hsubset => by
    have hfound : others.find? (fun g => g.1.same key) = some (key, value) :=
      Scalar.find?_key hothers (hsubset List.mem_cons_self)
    have hrest := List.Subset.trans (List.subset_cons_self (key, value) rest) hsubset
    rw [sameFields, hfound]
    exact Bool.and_eq_true_iff.2 ⟨same_refl h.1, sameFields_of_subset h.2 hothers hrest⟩

end

theorem itemsHaveDistinctKeys_scalars (ss : List Scalar) :
    ItemsHaveDistinctKeys (ss.map Value.scalar) := by
  induction ss with
  | nil => trivial
  | cons s ss ih => exact ⟨trivial, ih⟩

end CrateLedger.Value
