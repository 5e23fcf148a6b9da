import CrateLedger.Proofs.Json.Strings
import CrateLedger.Proofs.Value

/-!
# JSON documents are read back

What is written as JSON, on one line or with any indentation, is read as the same document, up to
surrogate pairs in its texts. Documents with doubles are left out; the keys of an object have to be
texts and, for none to be lost, different from each other also after pairs are put together.
-/

namespace CrateLedger

/-! ## Documents with pairs put together -/

/-- A scalar with the surrogate pairs of a text put together. -/
def Scalar.paired : Scalar → Scalar
  | text t => text t.paired
  | s => s

/-- Whether a scalar is no double. -/
def Scalar.IsPlain (s : Scalar) : Prop := ∀ x, s ≠ .float x

namespace Value

mutual

/-- A document with the surrogate pairs of all its texts put together. -/
def paired : Value → Value
  | .scalar s => .scalar s.paired
  | .list items => .list (pairedItems items)
  | .object fields => .object (pairedFields fields)

/-- The items of a list with their pairs put together. -/
def pairedItems : List Value → List Value
  | [] => []
  | v :: vs => paired v :: pairedItems vs

/-- The fields of an object with their pairs put together. -/
def pairedFields : List (Scalar × Value) → List (Scalar × Value)
  | [] => []
  | (key, value) :: rest => (key.paired, paired value) :: pairedFields rest

end

mutual

/-- Whether a document holds no double, and its objects different texts as keys. -/
def IsPlain : Value → Prop
  | .scalar s => s.IsPlain
  | .list items => ArePlain items
  | .object fields =>
    HavePlainParts fields ∧ (pairedFields fields).Pairwise fun f g => f.1.same g.1 = false

/-- Whether the items of a list are such documents. -/
def ArePlain : List Value → Prop
  | [] => True
  | v :: vs => IsPlain v ∧ ArePlain vs

/-- Whether the fields of an object have texts as keys and hold such documents. -/
def HavePlainParts : List (Scalar × Value) → Prop
  | [] => True
  | (key, value) :: rest => (∃ t, key = .text t) ∧ IsPlain value ∧ HavePlainParts rest

end

theorem pairedItems_eq_map (vs : List Value) : pairedItems vs = vs.map paired := by
  induction vs with
  | nil => rfl
  | cons v vs ih => rw [pairedItems, ih, List.map_cons]

theorem arePlain_iff {vs : List Value} : ArePlain vs ↔ ∀ v ∈ vs, v.IsPlain := by
  induction vs with
  | nil => simp [ArePlain]
  | cons v vs ih => simp [ArePlain, ih]

theorem paired_record (fields : List (Text × Value)) :
    (record fields).paired = record (fields.map fun f => (f.1.paired, f.2.paired)) := by
  unfold record
  rw [paired]
  congr 1
  induction fields with
  | nil => rfl
  | cons f fields ih =>
    rw [List.map_cons, pairedFields, ih]
    rfl

/-- A record is such a document if its values are. -/
theorem isPlain_record {fields : List (Text × Value)}
    (hkeys : (fields.map fun f => f.1.paired).Nodup) (hvalues : ∀ f ∈ fields, f.2.IsPlain) :
    (record fields).IsPlain := by
  have hparts : HavePlainParts (fields.map fun f => (.text f.1, f.2)) := by
    clear hkeys
    induction fields with
    | nil => trivial
    | cons f fields ih =>
      exact ⟨⟨f.1, rfl⟩, hvalues f List.mem_cons_self, ih fun g hg => hvalues g (.tail _ hg)⟩
  refine ⟨hparts, ?_⟩
  have hpaired := paired_record fields
  rw [record, paired, record, Value.object.injEq] at hpaired
  rw [hpaired, List.map_map, List.pairwise_map]
  exact (List.pairwise_map.1 hkeys).imp fun hne => decide_eq_false hne

end Value

theorem Fields.ofWritten_eq_self {fields : Fields}
    (h : fields.Pairwise fun f g => f.1.same g.1 = false) : Fields.ofWritten fields = fields := by
  have hinsert : ∀ done : Fields, (done ++ fields).Pairwise (fun f g => f.1.same g.1 = false) →
      fields.foldl (fun done f => Fields.insert done f.1 f.2) done = done ++ fields := by
    clear h
    induction fields with
    | nil => simp
    | cons f rest ih =>
      intro done h
      have hnone : done.any (fun g => g.1.same f.1) = false := by
        rw [List.any_eq_false]
        intro g hg
        rw [(List.pairwise_append.1 h).2.2 g hg f List.mem_cons_self]
        exact Bool.false_ne_true
      rw [List.foldl_cons, Fields.insert, hnone, if_neg Bool.false_ne_true]
      rw [ih (done ++ [(f.1, f.2)]) (by simpa using h)]
      simp
  exact hinsert [] h

namespace Json

/-! ## Blanks -/

/-- Whether a text consists of blanks. -/
def IsGap (t : Text) : Prop := t.all isBlank = true

theorem skipBlanks_append {gap : Text} (h : IsGap gap) (t : Text) :
    skipBlanks (gap ++ t) = skipBlanks t :=
  List.dropWhile_append_of_pos (List.all_eq_true.1 h)

theorem skipBlanks_cons {c : CodePoint} (h : isBlank c = false) (t : Text) :
    skipBlanks (c :: t) = c :: t :=
  List.dropWhile_cons_of_neg (by simp [h])

/-- Parts are put between brackets with a comma between neighbours, and with blanks. -/
theorem exists_enclose (indent : Option Nat) (depth : Nat) (opening closing : Text)
    (parts : List Text) (h : parts ≠ []) :
    ∃ lead gap trail, IsGap lead ∧ IsGap gap ∧ IsGap trail
      ∧ enclose indent depth opening closing parts
        = opening ++ (lead ++ (Text.join (',' :: gap) parts ++ (trail ++ closing))) := by
  have hparts : parts.isEmpty = false := by simp [h]
  unfold enclose
  rw [hparts, if_neg Bool.false_ne_true]
  cases indent with
  | none => exact ⟨[], " ", [], rfl, rfl, rfl, by simp; rfl⟩
  | some width =>
    have hline : ∀ depth, IsGap (('\n' : CodePoint) :: List.replicate (width * depth) ' ') := by
      intro depth
      refine List.all_eq_true.2 fun c hc => ?_
      rcases List.mem_cons.1 hc with rfl | hc
      · decide
      · rw [List.eq_of_mem_replicate hc]
        decide
    exact ⟨_, _, _, hline (depth + 1), hline (depth + 1), hline depth, by simp⟩

/-! ## Numbers -/

/-- Whether a number ends before a text, that is, the text does not go on with it. -/
def EndsNumber (rest : Text) : Prop :=
  ∀ c ∈ rest.head?, c.toChar.isDigit = false ∧ c ≠ '.' ∧ c ≠ 'e' ∧ c ≠ 'E'

variable {rest : Text}

theorem takeDigits_append {ds : List Char} (hds : ∀ c ∈ ds, c.isDigit = true)
    (h : EndsNumber rest) : takeDigits (Text.ofChars ds ++ rest) = (ds, rest) := by
  have hdigits : ∀ c ∈ Text.ofChars ds, c.toChar.isDigit = true := by
    intro c hc
    obtain ⟨d, hd, rfl⟩ := List.mem_map.1 hc
    rw [CodePoint.toChar_ofChar]
    exact hds d hd
  obtain ⟨htake, hdrop⟩ := span_append hdigits fun c hc => (h c hc).1
  rw [takeDigits, htake, hdrop, Text.map_toChar_ofChars]

theorem takeFraction_of_ends (h : EndsNumber rest) : takeFraction rest = ([], rest) := by
  cases rest with
  | nil => rfl
  | cons c rest => rw [takeFraction, if_neg (h c rfl).2.1]

theorem takeExponent_of_ends (h : EndsNumber rest) : takeExponent rest = (none, rest) := by
  cases rest with
  | nil => rfl
  | cons c rest =>
    obtain ⟨-, -, he, hE⟩ := h c rfl
    rw [takeExponent.eq_def]
    exact if_neg (not_or.2 ⟨he, hE⟩)

/-- Only zero is written with a zero in front. -/
theorem toDigits_eq_zero_cons {n : Nat} {more : List Char} (h : Nat.toDigits 10 n = '0' :: more) :
    more = [] := by
  by_cases hn : n = 0
  · subst hn
    exact (List.cons.inj h).2.symm
  · have hall : ∀ d < 10, d ≠ 0 → Nat.digitChar d ≠ '0' := by decide
    rw [Numeral.toDigits_eq_spelled (by decide)] at h
    obtain ⟨d, rest, hd, hlt, hhead⟩ :=
      Numeral.exists_head_spelled Nat.digitChar (by decide : 1 < 10) hn
    rw [hhead] at h
    exact absurd (List.cons.inj h).1 (hall d hlt hd)

theorem number?_decimal (negative : Bool) (n : Nat) (h : EndsNumber rest) :
    number? negative (Numeral.decimal n ++ rest)
      = some (.integer (if negative then -n else n), rest) := by
  have hall : ∀ c ∈ Nat.toDigits 10 n, c.isDigit = true :=
    fun _ hc => Nat.isDigit_of_mem_toDigits (by decide) (by decide) hc
  have hdigits := takeDigits_append hall h
  have hne := Numeral.toDigits_ne_nil (by decide : 1 < 10) n
  have hread := Numeral.readDecimal_toDigits n
  have hzero : ∀ more, Nat.toDigits 10 n = '0' :: more → more = [] :=
    fun more => toDigits_eq_zero_cons
  unfold number?
  rw [Numeral.decimal, hdigits]
  generalize Nat.toDigits 10 n = digits at hne hread hzero
  -- A zero in front is all of the number, so what is behind it is what is behind the number.
  dsimp only
  split
  · rename_i more
    obtain rfl := hzero more rfl
    simp only [Text.ofChars, List.map_nil, List.nil_append, takeFraction_of_ends h,
      takeExponent_of_ends h, List.isEmpty_iff, hne, if_false, Option.isNone_none, and_self,
      if_true, hread]
  · simp only [takeFraction_of_ends h, takeExponent_of_ends h, List.isEmpty_iff, hne, if_false,
      Option.isNone_none, and_self, if_true, hread]

/-- What a number starts with. -/
theorem exists_head_decimal (n : Nat) :
    ∃ d < 10, ∃ more, Numeral.decimal n = CodePoint.ofChar (Nat.digitChar d) :: more := by
  obtain ⟨c, more, hdigits⟩ :=
    List.exists_cons_of_ne_nil (Numeral.toDigits_ne_nil (by decide : 1 < 10) n)
  have hmem : c ∈ Nat.toDigits 10 n := by simp [hdigits]
  rw [Numeral.toDigits_eq_spelled (by decide)] at hmem
  obtain ⟨d, hd, rfl⟩ := Numeral.exists_of_mem_spelled (by decide) hmem
  exact ⟨d, hd, Text.ofChars more, by rw [Numeral.decimal, hdigits]; rfl⟩

/-- No word starts like a number. -/
theorem findSome?_words {sign : Text} (hsign : sign = [] ∨ sign = "-") {d : Nat} (hd : d < 10)
    (more : Text) :
    (words.findSome? fun w =>
      (Text.dropHead? w.1 (sign ++ CodePoint.ofChar (Nat.digitChar d) :: more)).map fun rest =>
        (w.2, rest)) = none := by
  rcases hsign with rfl | rfl <;> interval_cases d <;> rfl

/-- An integer is read back. -/
theorem plainScalar?_signedDecimal (z : Int) (h : EndsNumber rest) :
    plainScalar? (Numeral.signedDecimal z ++ rest) = some (.integer z, rest) := by
  obtain ⟨d, hd, more, hhead⟩ := exists_head_decimal z.natAbs
  have hminus : ∀ d < 10, CodePoint.ofChar (Nat.digitChar d) ≠ '-' := by decide
  by_cases hz : z < 0
  · have hwritten : Numeral.signedDecimal z ++ rest
        = ('-' : CodePoint) :: (Numeral.decimal z.natAbs ++ rest) := by
      rw [Numeral.signedDecimal, if_pos hz]
      rfl
    have hwords := findSome?_words (.inr rfl) hd (more ++ rest)
    rw [← List.cons_append, ← hhead] at hwords
    change (words.findSome? fun w => (Text.dropHead? w.1
      (('-' : CodePoint) :: (Numeral.decimal z.natAbs ++ rest))).map fun rest => (w.2, rest)) = none
      at hwords
    rw [hwritten, plainScalar?, hwords]
    dsimp only
    rw [if_pos rfl, number?_decimal true _ h, if_pos rfl, Int.ofNat_natAbs_of_nonpos hz.le,
      neg_neg]
  · have hwords := findSome?_words (.inl rfl) hd (more ++ rest)
    rw [List.nil_append] at hwords
    rw [Numeral.signedDecimal, if_neg hz, hhead, List.cons_append, plainScalar?, hwords]
    dsimp only
    rw [if_neg (hminus d hd), ← List.cons_append, ← hhead, number?_decimal false _ h,
      if_neg Bool.false_ne_true, Int.natAbs_of_nonneg (by omega)]

/-! ## Scalars -/

/-- What a scalar that is no text starts with. -/
def StartsPlain (c : CodePoint) : Prop :=
  c ≠ '"' ∧ c ≠ '[' ∧ c ≠ '\x7b' ∧ c ≠ ']' ∧ isBlank c = false

theorem startsPlain_digitChar : ∀ d < 10, StartsPlain (CodePoint.ofChar (Nat.digitChar d)) := by
  unfold StartsPlain
  decide

/-- A scalar that is neither a text nor a double is read back. -/
theorem plainScalar?_written {s : Scalar} (hplain : s.IsPlain) (htext : ∀ t, s ≠ .text t)
    (h : EndsNumber rest) : plainScalar? (writeScalar s ++ rest) = some (s, rest) := by
  cases s with
  | null => rfl
  | bool b => cases b <;> rfl
  | integer z => exact plainScalar?_signedDecimal z h
  | float x => exact absurd rfl (hplain x)
  | text t => exact absurd rfl (htext t)

theorem exists_head_writeScalar {s : Scalar} (hplain : s.IsPlain) (htext : ∀ t, s ≠ .text t) :
    ∃ c more, writeScalar s = c :: more ∧ StartsPlain c := by
  cases s with
  | null => exact ⟨'n', "ull", rfl, by unfold StartsPlain; decide⟩
  | bool b =>
    cases b
    · exact ⟨'f', "alse", rfl, by unfold StartsPlain; decide⟩
    · exact ⟨'t', "rue", rfl, by unfold StartsPlain; decide⟩
  | integer z =>
    obtain ⟨d, hd, more, hhead⟩ := exists_head_decimal z.natAbs
    rw [writeScalar, Numeral.signedDecimal]
    split_ifs
    · exact ⟨'-', Numeral.decimal z.natAbs, rfl, by unfold StartsPlain; decide⟩
    · exact ⟨_, more, hhead, startsPlain_digitChar d hd⟩
  | float x => exact absurd rfl (hplain x)
  | text t => exact absurd rfl (htext t)

/-! ## Documents -/

section Steps

variable {n : Nat} {c : CodePoint}

theorem value?_plain (hc : StartsPlain c) :
    value? (n + 1) (c :: rest)
      = (plainScalar? (c :: rest)).map fun (s, after) => (.scalar s, after) := by
  obtain ⟨hquote, hbracket, hbrace, -, -⟩ := hc
  rw [value?, if_neg hquote, if_neg hbracket, if_neg hbrace]

theorem value?_text : value? (n + 1) (('"' : CodePoint) :: rest)
    = (string? n rest).map fun (s, after) => (.text s, after) := by
  rw [value?, if_pos rfl]

theorem value?_emptyList : value? (n + 1) (('[' : CodePoint) :: (']' : CodePoint) :: rest)
    = some (.list [], rest) := by
  rw [value?, if_neg (by decide), if_pos rfl, skipBlanks_cons (by decide)]
  exact if_pos rfl

theorem value?_emptyObject : value? (n + 1) (('\x7b' : CodePoint) :: ('\x7d' : CodePoint) :: rest)
    = some (.object [], rest) := by
  rw [value?, if_neg (by decide), if_neg (by decide), if_pos rfl, skipBlanks_cons (by decide)]
  exact if_pos rfl

variable {gap : Text} (hgap : IsGap gap)

include hgap

theorem value?_list (hblank : isBlank c = false) (hclosing : c ≠ ']') (rest : Text) :
    value? (n + 1) (('[' : CodePoint) :: (gap ++ c :: rest))
      = (items? n (c :: rest)).map fun (vs, after) => (.list vs, after) := by
  rw [value?, if_neg (by decide), if_pos rfl, skipBlanks_append hgap, skipBlanks_cons hblank]
  exact if_neg hclosing

theorem value?_object (hblank : isBlank c = false) (hclosing : c ≠ '\x7d') (rest : Text) :
    value? (n + 1) (('\x7b' : CodePoint) :: (gap ++ c :: rest))
      = (fields? n (c :: rest)).map fun (fs, after) => (.object (Fields.ofWritten fs), after) := by
  rw [value?, if_neg (by decide), if_neg (by decide), if_pos rfl, skipBlanks_append hgap,
    skipBlanks_cons hblank]
  exact if_neg hclosing

theorem items?_last {t : Text} {v : Value}
    (hv : value? n t = some (v, gap ++ (']' : CodePoint) :: rest)) :
    items? (n + 1) t = some ([v], rest) := by
  simp only [items?, hv, Option.bind_eq_bind, Option.bind_some, skipBlanks_append hgap]
  rw [skipBlanks_cons (by decide)]
  exact if_pos rfl

theorem items?_cons {t : Text} {v : Value} (hblank : isBlank c = false)
    (hv : value? n t = some (v, (',' : CodePoint) :: (gap ++ c :: rest))) :
    items? (n + 1) t = (items? n (c :: rest)).map fun (vs, after) => (v :: vs, after) := by
  simp only [items?, hv, Option.bind_eq_bind, Option.bind_some]
  rw [skipBlanks_cons (by decide)]
  dsimp only
  rw [if_neg (by decide), if_pos rfl, skipBlanks_append hgap, skipBlanks_cons hblank]
  cases items? n (c :: rest) <;> rfl

omit hgap in
/-- The first field of an object is read, and what comes behind it says whether there are more. -/
theorem fields?_step {d : CodePoint} {t more key after : Text} {v : Value}
    (hblank : isBlank d = false)
    (hkey : string? n t = some (key, (':' : CodePoint) :: (' ' : CodePoint) :: d :: more))
    (hv : value? n (d :: more) = some (v, after)) (hafter : skipBlanks after = c :: rest) :
    fields? (n + 1) (('"' : CodePoint) :: t)
      = if c = '\x7d' then some ([(.text key, v)], rest)
        else if c = ',' then
          (fields? n (skipBlanks rest)).map fun (fs, after) => ((.text key, v) :: fs, after)
        else none := by
  have hspace : skipBlanks ((' ' : CodePoint) :: d :: more) = d :: more :=
    skipBlanks_cons hblank more
  simp only [fields?, hkey, Option.bind_eq_bind, Option.bind_some]
  rw [if_neg (by decide), skipBlanks_cons (by decide)]
  dsimp only
  rw [if_neg (by decide), hspace, hv, Option.bind_some, hafter, Option.map_eq_bind]
  rfl

theorem fields?_last {d : CodePoint} {t more key : Text} {v : Value} (hblank : isBlank d = false)
    (hkey : string? n t = some (key, (':' : CodePoint) :: (' ' : CodePoint) :: d :: more))
    (hv : value? n (d :: more) = some (v, gap ++ ('\x7d' : CodePoint) :: rest)) :
    fields? (n + 1) (('"' : CodePoint) :: t) = some ([(.text key, v)], rest) := by
  have hafter : skipBlanks (gap ++ ('\x7d' : CodePoint) :: rest)
      = ('\x7d' : CodePoint) :: rest := by
    rw [skipBlanks_append hgap, skipBlanks_cons (by decide)]
  rw [fields?_step hblank hkey hv hafter, if_pos rfl]

theorem fields?_cons {d : CodePoint} {t more key : Text} {v : Value} (hblank : isBlank d = false)
    (hnext : isBlank c = false)
    (hkey : string? n t = some (key, (':' : CodePoint) :: (' ' : CodePoint) :: d :: more))
    (hv : value? n (d :: more) = some (v, (',' : CodePoint) :: (gap ++ c :: rest))) :
    fields? (n + 1) (('"' : CodePoint) :: t)
      = (fields? n (c :: rest)).map fun (fs, after) => ((.text key, v) :: fs, after) := by
  rw [fields?_step hblank hkey hv (skipBlanks_cons (by decide) _), if_neg (by decide), if_pos rfl,
    skipBlanks_append hgap, skipBlanks_cons hnext]

end Steps

/-- What stands in front of a number's end is behind every part of a list or an object. -/
theorem endsNumber_append {gap : Text} (hgap : IsGap gap) (h : EndsNumber rest) :
    EndsNumber (gap ++ rest) := by
  cases gap with
  | nil => exact h
  | cons c gap =>
    rintro d hd
    cases hd
    have hblank := List.all_eq_true.1 hgap c List.mem_cons_self
    simp only [isBlank, Bool.or_eq_true, decide_eq_true_eq] at hblank
    rcases hblank with ((rfl | rfl) | rfl) | rfl <;> decide

theorem endsNumber_cons {c : CodePoint}
    (h : c.toChar.isDigit = false ∧ c ≠ '.' ∧ c ≠ 'e' ∧ c ≠ 'E') (rest : Text) :
    EndsNumber (c :: rest) := by
  rintro d hd
  cases hd
  exact h

theorem exists_tail_enclose (indent : Option Nat) (depth : Nat) (opening closing : Text)
    (parts : List Text) : ∃ more, enclose indent depth opening closing parts = opening ++ more := by
  by_cases h : parts = []
  · exact ⟨closing, by simp [enclose, h]⟩
  · obtain ⟨lead, gap, trail, -, -, -, heq⟩ := exists_enclose indent depth opening closing parts h
    exact ⟨_, heq⟩

/-- A document starts with a character that is neither a blank nor the end of a list. -/
theorem exists_head_writeAt (indent : Option Nat) (depth : Nat) {v : Value} (h : v.IsPlain) :
    ∃ c more, writeAt indent depth v = c :: more ∧ isBlank c = false ∧ c ≠ ']' := by
  cases v with
  | scalar s =>
    rw [writeAt]
    by_cases htext : ∃ t, s = .text t
    · obtain ⟨t, rfl⟩ := htext
      exact ⟨'"', _, rfl, by decide, by decide⟩
    · rw [not_exists] at htext
      obtain ⟨c, more, hhead, hc⟩ := exists_head_writeScalar h htext
      exact ⟨c, more, hhead, hc.2.2.2.2, hc.2.2.2.1⟩
  | list items =>
    obtain ⟨more, heq⟩ :=
      exists_tail_enclose indent depth "[" "]" (writeItems indent (depth + 1) items)
    exact ⟨'[', more, by rw [writeAt, heq]; rfl, by decide, by decide⟩
  | object fields =>
    obtain ⟨more, heq⟩ :=
      exists_tail_enclose indent depth "\x7b" "\x7d" (writeFields indent (depth + 1) fields)
    exact ⟨'\x7b', more, by rw [writeAt, heq]; rfl, by decide, by decide⟩

theorem exists_tail_join (separator part : Text) (parts : List Text) :
    ∃ more, Text.join separator (part :: parts) = part ++ more := by
  by_cases h : parts = []
  · exact ⟨[], by rw [h, Text.join_singleton, List.append_nil]⟩
  · exact ⟨_, by rw [Text.join_cons_of_ne_nil separator part h, List.append_assoc]⟩

theorem length_le_flatMap_writeCodePoint (t : Text) :
    t.length ≤ (t.flatMap writeCodePoint).length := by
  induction t with
  | nil => exact Nat.le_refl _
  | cons c t ih =>
    have hpos : 0 < (writeCodePoint c).length := by
      have hwritten := isWritten_writeCodePoint c
      generalize writeCodePoint c = written at hwritten
      cases hwritten <;> exact Nat.succ_pos _
    rw [List.flatMap_cons, List.length_append, List.length_cons]
    omega

/-- A string is read back behind its opening quote. -/
theorem string?_writeString {n : Nat} (t rest : Text) (hn : (writeString t).length ≤ n) :
    ∃ more, writeString t ++ rest = ('"' : CodePoint) :: more
      ∧ string? n more = some (t.paired, rest) := by
  have hlength := length_le_flatMap_writeCodePoint t
  have hquotes : (writeString t).length = (t.flatMap writeCodePoint).length + 2 := by
    simp [writeString, Text.ofString, Text.ofChars]
  refine ⟨t.flatMap writeCodePoint ++ ('"' : CodePoint) :: rest, ?_,
    string?_written t rest (by omega)⟩
  simp [writeString, Text.ofString, Text.ofChars]

/-- What the readers give for written documents when a number bounds them. -/
structure ReadsBack (indent : Option Nat) (n : Nat) : Prop where
  /-- A document is read back in front of what cannot go on with a number. -/
  value : ∀ (depth : Nat) (v : Value) (rest : Text), v.IsPlain → EndsNumber rest →
    2 * (writeAt indent depth v).length ≤ n →
    value? n (writeAt indent depth v ++ rest) = some (v.paired, rest)
  /-- The items of a list are, with its closing bracket. -/
  items : ∀ (depth : Nat) (gap trail : Text) (v : Value) (vs : List Value) (rest : Text),
    IsGap gap → IsGap trail → Value.ArePlain (v :: vs) →
    2 * (Text.join (',' :: gap) (writeItems indent depth (v :: vs))).length < n →
    items? n (Text.join (',' :: gap) (writeItems indent depth (v :: vs))
      ++ (trail ++ (']' : CodePoint) :: rest)) = some (Value.pairedItems (v :: vs), rest)
  /-- The fields of an object are, with its closing brace. -/
  fields : ∀ (depth : Nat) (gap trail : Text) (f : Scalar × Value) (fs : Fields) (rest : Text),
    IsGap gap → IsGap trail → Value.HavePlainParts (f :: fs) →
    2 * (Text.join (',' :: gap) (writeFields indent depth (f :: fs))).length < n →
    fields? n (Text.join (',' :: gap) (writeFields indent depth (f :: fs))
      ++ (trail ++ ('\x7d' : CodePoint) :: rest)) = some (Value.pairedFields (f :: fs), rest)

section Step

variable {indent : Option Nat} {n depth : Nat} (h : ReadsBack indent n)

theorem value?_scalar {s : Scalar} (hs : s.IsPlain) (hrest : EndsNumber rest)
    (hn : (writeScalar s).length ≤ n) :
    value? (n + 1) (writeScalar s ++ rest) = some (.scalar s.paired, rest) := by
  by_cases htext : ∃ t, s = .text t
  · obtain ⟨t, rfl⟩ := htext
    obtain ⟨more, hhead, hread⟩ := string?_writeString t rest hn
    rw [writeScalar, hhead, value?_text, hread]
    rfl
  · rw [not_exists] at htext
    obtain ⟨c, more, hhead, hc⟩ := exists_head_writeScalar hs htext
    have hread := plainScalar?_written hs htext hrest
    have hself : s.paired = s := by
      cases s with
      | text t => exact absurd rfl (htext t)
      | _ => rfl
    rw [hhead, List.cons_append] at hread ⊢
    rw [value?_plain hc, hread, hself]
    rfl

include h

theorem value?_list_written {v : Value} {vs : List Value} (hplain : Value.ArePlain (v :: vs))
    (hn : 2 * (writeAt indent depth (.list (v :: vs))).length ≤ n + 1) (rest : Text) :
    value? (n + 1) (writeAt indent depth (.list (v :: vs)) ++ rest)
      = some (.list (Value.pairedItems (v :: vs)), rest) := by
  obtain ⟨lead, gap, trail, hlead, hgap, htrail, heq⟩ := exists_enclose indent depth "[" "]"
    (writeItems indent (depth + 1) (v :: vs)) (by simp [writeItems])
  rw [writeAt, heq] at hn ⊢
  have hopening : (Text.ofString "[").length = 1 := rfl
  simp only [List.length_append, hopening] at hn
  have hitems := h.items (depth + 1) gap trail v vs rest hgap htrail hplain (by omega)
  obtain ⟨c, more, hhead, hblank, hclosing⟩ := exists_head_writeAt indent (depth + 1) hplain.1
  obtain ⟨behind, hjoin⟩ := exists_tail_join (',' :: gap) (writeAt indent (depth + 1) v)
    (writeItems indent (depth + 1) vs)
  have hlist := value?_list (n := n) hlead hblank hclosing
    (more ++ behind ++ (trail ++ (']' : CodePoint) :: rest))
  rw [writeItems, hjoin, hhead] at hitems ⊢
  simp only [List.append_assoc, List.cons_append] at hitems hlist ⊢
  rw [hitems] at hlist
  exact hlist

theorem items?_written {gap trail : Text} (hgap : IsGap gap) (htrail : IsGap trail) {v : Value}
    {vs : List Value} (hplain : Value.ArePlain (v :: vs))
    (hn : 2 * (Text.join (',' :: gap) (writeItems indent depth (v :: vs))).length < n + 1)
    (rest : Text) :
    items? (n + 1) (Text.join (',' :: gap) (writeItems indent depth (v :: vs))
      ++ (trail ++ (']' : CodePoint) :: rest)) = some (Value.pairedItems (v :: vs), rest) := by
  cases vs with
  | nil =>
    have hends := endsNumber_append htrail (endsNumber_cons (c := ']') (by decide) rest)
    rw [writeItems, writeItems, Text.join_singleton] at hn ⊢
    exact items?_last htrail (h.value depth v _ hplain.1 hends (by omega))
  | cons w vs =>
    rw [writeItems, Text.join_cons_of_ne_nil _ _ (by simp [writeItems])] at hn ⊢
    simp only [List.length_append, List.length_cons] at hn
    have hothers := h.items depth gap trail w vs rest hgap htrail hplain.2 (by omega)
    obtain ⟨c, more, hhead, hblank, -⟩ := exists_head_writeAt indent depth hplain.2.1
    obtain ⟨behind, hjoin⟩ := exists_tail_join (',' :: gap) (writeAt indent depth w)
      (writeItems indent depth vs)
    have hfirst := h.value depth v ((',' : CodePoint) :: (gap ++ c :: (more ++ behind
      ++ (trail ++ (']' : CodePoint) :: rest)))) hplain.1 (endsNumber_cons (by decide) _) (by omega)
    rw [writeItems, hjoin, hhead] at hothers ⊢
    simp only [List.append_assoc, List.cons_append] at hothers hfirst ⊢
    rw [items?_cons hgap hblank hfirst, hothers]
    rfl

/-- The first field of an object is read back: its key, a colon and a blank, and its value. -/
theorem exists_first_field (depth : Nat) (key : Text) {v : Value} (hv : v.IsPlain) {rest : Text}
    (hends : EndsNumber rest)
    (hn : 2 * (writeKey (.text key) ++ ": " ++ writeAt indent depth v).length ≤ n) :
    ∃ t d more, writeKey (.text key) ++ ": " ++ writeAt indent depth v ++ rest
        = ('"' : CodePoint) :: t
      ∧ isBlank d = false
      ∧ string? n t = some (key.paired, (':' : CodePoint) :: (' ' : CodePoint) :: d :: more)
      ∧ value? n (d :: more) = some (v.paired, rest) := by
  rw [writeKey, List.length_append, List.length_append] at hn
  obtain ⟨d, more, hhead, hblank, -⟩ := exists_head_writeAt indent depth hv
  obtain ⟨t, ht, hkey⟩ := string?_writeString (n := n) key
    ((':' : CodePoint) :: (' ' : CodePoint) :: d :: (more ++ rest)) (by omega)
  have hvalue := h.value depth v rest hv hends (by omega)
  refine ⟨t, d, more ++ rest, ?_, hblank, hkey, ?_⟩
  · rw [← ht, hhead, writeKey, List.append_assoc, List.append_assoc]
    rfl
  · rw [← hvalue, hhead]
    rfl

theorem fields?_written {gap trail : Text} (hgap : IsGap gap) (htrail : IsGap trail)
    {f : Scalar × Value} {fs : Fields} (hplain : Value.HavePlainParts (f :: fs))
    (hn : 2 * (Text.join (',' :: gap) (writeFields indent depth (f :: fs))).length < n + 1)
    (rest : Text) :
    fields? (n + 1) (Text.join (',' :: gap) (writeFields indent depth (f :: fs))
      ++ (trail ++ ('\x7d' : CodePoint) :: rest)) = some (Value.pairedFields (f :: fs), rest) := by
  obtain ⟨key, v⟩ := f
  obtain ⟨⟨key, rfl⟩, hv, hfs⟩ := hplain
  cases fs with
  | nil =>
    have hends := endsNumber_append htrail (endsNumber_cons (c := '\x7d') (by decide) rest)
    rw [writeFields, writeFields, Text.join_singleton] at hn ⊢
    rw [Nat.lt_succ_iff] at hn
    obtain ⟨t, d, more, ht, hblank, hkey, hvalue⟩ := exists_first_field h depth key hv hends hn
    rw [ht]
    exact fields?_last htrail hblank hkey hvalue
  | cons g fs =>
    obtain ⟨other, w⟩ := g
    obtain ⟨⟨other, rfl⟩, hw, -⟩ := id hfs
    rw [writeFields, Text.join_cons_of_ne_nil _ _ (by simp [writeFields])] at hn ⊢
    simp only [List.length_append, List.length_cons] at hn
    have hothers := h.fields depth gap trail (.text other, w) fs rest hgap htrail hfs (by omega)
    obtain ⟨behind, hjoin⟩ := exists_tail_join (',' :: gap)
      (writeKey (.text other) ++ ": " ++ writeAt indent depth w) (writeFields indent depth fs)
    have hquote : ∃ more, writeKey (.text other) ++ ": " ++ writeAt indent depth w
        = ('"' : CodePoint) :: more := ⟨_, rfl⟩
    obtain ⟨more, hquote⟩ := hquote
    have hends := endsNumber_cons (c := ',') (by decide)
      (gap ++ ('"' : CodePoint) :: (more ++ behind ++ (trail ++ ('\x7d' : CodePoint) :: rest)))
    obtain ⟨t, d, behindKey, ht, hblank, hkey, hvalue⟩ := exists_first_field h depth key hv hends
      (by simp only [List.length_append]; omega)
    rw [writeFields, hjoin, hquote] at hothers ⊢
    simp only [List.append_assoc, List.cons_append] at hothers ht hvalue ⊢
    rw [ht, fields?_cons hgap hblank (by decide) hkey hvalue, hothers]
    rfl

theorem value?_object_written {f : Scalar × Value} {fs : Fields}
    (hplain : Value.IsPlain (.object (f :: fs)))
    (hn : 2 * (writeAt indent depth (.object (f :: fs))).length ≤ n + 1) (rest : Text) :
    value? (n + 1) (writeAt indent depth (.object (f :: fs)) ++ rest)
      = some (.object (Value.pairedFields (f :: fs)), rest) := by
  obtain ⟨lead, gap, trail, hlead, hgap, htrail, heq⟩ := exists_enclose indent depth "\x7b" "\x7d"
    (writeFields indent (depth + 1) (f :: fs)) (by simp [writeFields])
  rw [writeAt, heq] at hn ⊢
  have hopening : (Text.ofString "\x7b").length = 1 := rfl
  simp only [List.length_append, hopening] at hn
  obtain ⟨hparts, hdistinct⟩ := hplain
  have hfields := h.fields (depth + 1) gap trail f fs rest hgap htrail hparts (by omega)
  obtain ⟨key, v⟩ := f
  obtain ⟨⟨key, rfl⟩, -⟩ := hparts
  obtain ⟨behind, hjoin⟩ := exists_tail_join (',' :: gap)
    (writeKey (.text key) ++ ": " ++ writeAt indent (depth + 1) v)
    (writeFields indent (depth + 1) fs)
  have hquote : ∃ more, writeKey (.text key) ++ ": " ++ writeAt indent (depth + 1) v
      = ('"' : CodePoint) :: more := ⟨_, rfl⟩
  obtain ⟨more, hquote⟩ := hquote
  have hobject := value?_object (n := n) (c := '"') hlead (by decide) (by decide)
    (more ++ behind ++ (trail ++ ('\x7d' : CodePoint) :: rest))
  rw [writeFields, hjoin, hquote] at hfields ⊢
  simp only [List.append_assoc, List.cons_append] at hfields hobject ⊢
  rw [hfields, Option.map_some, Fields.ofWritten_eq_self hdistinct] at hobject
  exact hobject

/-- A greater number reads what is one level further out. -/
theorem ReadsBack.succ : ReadsBack indent (n + 1) where
  value := by
    intro depth v rest hv hends hn
    cases v with
    | scalar s =>
      rw [writeAt] at hn ⊢
      exact value?_scalar hv hends (by omega)
    | list items =>
      cases items with
      | nil => exact value?_emptyList
      | cons v vs => exact value?_list_written h hv hn rest
    | object fields =>
      cases fields with
      | nil => exact value?_emptyObject
      | cons f fs => exact value?_object_written h hv hn rest
  items _ _ _ _ _ rest hgap htrail hplain hn := items?_written h hgap htrail hplain hn rest
  fields _ _ _ _ _ rest hgap htrail hplain hn := fields?_written h hgap htrail hplain hn rest

end Step

theorem readsBack (indent : Option Nat) (n : Nat) : ReadsBack indent n := by
  induction n with
  | zero =>
    refine ⟨fun depth v rest hv _ hn => ?_, nofun, nofun⟩
    obtain ⟨c, more, hhead, -⟩ := exists_head_writeAt indent depth hv
    rw [hhead, List.length_cons] at hn
    omega
  | succ n ih => exact ih.succ

/-- **A document is read back**, with the surrogate pairs of its texts put together. -/
theorem read?_write (indent : Option Int) {v : Value} (h : v.IsPlain) :
    read? (write indent v) = some v.paired := by
  obtain ⟨c, more, hhead, hblank, -⟩ := exists_head_writeAt (indent.map Int.toNat) 0 h
  have hvalue := (readsBack (indent.map Int.toNat) (2 * (write indent v).length + 2)).value
    0 v [] h nofun (Nat.le_add_right _ _)
  have hstart : skipBlanks (write indent v) = write indent v := by
    rw [write, hhead, skipBlanks_cons hblank]
  rw [List.append_nil, ← write] at hvalue
  rw [read?, hstart, hvalue]
  rfl

end Json

end CrateLedger
