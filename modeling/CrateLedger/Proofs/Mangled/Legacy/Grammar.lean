import CrateLedger.Proofs.Mangled.Legacy.Escapes
import Mathlib.Data.List.TakeWhile

/-!
# The grammar of legacy names

A legacy name as it is written: a prefix, elements with their lengths in front, the terminator and
what a toolchain adds. The lengths may have leading zeros, and an element may hold any characters
that are ASCII, also the letter of the terminator.

The reader takes all digits that it finds for a length, so an element that starts with a digit
cannot be written, and what is written can be taken apart in one way only. A length with too many
digits, be they zeros, is not read, and a name that runs into one fails.

Main statement: the names that are recognised are those that are written in this way with lengths
that are read, and they are decoded into what their elements spell. A name that goes on behind the
terminator with anything but a suffix, as the names of other languages do, is of no scheme.
-/

namespace CrateLedger.Mangled.Legacy

/-! ## Written names -/

/-- An element as it is written. -/
@[ext]
structure Field where
  /-- The digits of the length. -/
  digits : List Char
  /-- The characters of the element. -/
  chars : List Char
  /-- The length is written. -/
  digits_ne_nil : digits ≠ []
  /-- It is written in decimal digits. -/
  isDigit : ∀ c ∈ digits, c.isDigit = true
  /-- It is the number of characters. -/
  readDecimal_digits : Numeral.readDecimal digits = chars.length
  /-- There are characters. -/
  chars_ne_nil : chars ≠ []
  /-- The first one does not continue the length. -/
  head : ∀ c ∈ chars.head?, c.isDigit = false

/-- The length and the characters. -/
def Field.written (f : Field) : List Char := f.digits ++ f.chars

/-- A legacy name as it is written. -/
@[ext]
structure Written where
  /-- The prefix. -/
  start : Text
  /-- The elements. -/
  fields : List Field
  /-- What follows the terminator. -/
  tail : List Char
  /-- The prefix is one that announces a legacy name. -/
  start_mem : start ∈ (["__ZN", "_ZN", "ZN"] : List Text)
  /-- There is an element. -/
  fields_ne_nil : fields ≠ []
  /-- The characters of elements are ASCII. -/
  ascii : ∀ f ∈ fields, ∀ c ∈ f.chars, c.toNat < 0x80
  /-- Nothing or a suffix follows the terminator. -/
  isTail : IsTail tail

namespace Written

/-- What follows the prefix. -/
def inner (w : Written) : List Char := w.fields.flatMap Field.written ++ 'E' :: w.tail

/-- The name. -/
def name (w : Written) : Text := w.start ++ Text.ofChars w.inner

/-- The characters of the elements. -/
def elements (w : Written) : List (List Char) := w.fields.map Field.chars

/-- No length has too many digits to be read. -/
def HasShortLengths (w : Written) : Prop :=
  ∀ f ∈ w.fields, f.digits.length ≤ digitLimit w.inner

end Written

/-- A name that starts like a legacy name and runs into a length with too many digits. -/
structure Overlong where
  /-- The prefix. -/
  start : Text
  /-- The elements before the length. -/
  fields : List Field
  /-- The digits of the length. -/
  digits : List Char
  /-- What follows them. -/
  rest : List Char
  /-- The prefix is one that announces a legacy name. -/
  start_mem : start ∈ (["__ZN", "_ZN", "ZN"] : List Text)
  /-- They are decimal digits. -/
  isDigit : ∀ c ∈ digits, c.isDigit = true
  /-- What surrounds them is ASCII. -/
  ascii : (∀ f ∈ fields, ∀ c ∈ f.chars, c.toNat < 0x80) ∧ ∀ c ∈ rest, c.toNat < 0x80
  /-- The lengths before are read. -/
  short : ∀ f ∈ fields,
    f.digits.length ≤ digitLimit (fields.flatMap Field.written ++ (digits ++ rest))
  /-- This one is not. -/
  long : digitLimit (fields.flatMap Field.written ++ (digits ++ rest)) < digits.length

/-- What follows the prefix. -/
def Overlong.inner (o : Overlong) : List Char :=
  o.fields.flatMap Field.written ++ (o.digits ++ o.rest)

/-- The name. -/
def Overlong.name (o : Overlong) : Text := o.start ++ Text.ofChars o.inner

/-- An element of the shape of a hash, with or without a line feed behind it. -/
def IsHashElement (e : List Char) : Prop :=
  ∃ digits, IsHash digits ∧ (e = hashElement digits ∨ e = hashElement digits ++ ['\n'])

/-! ## Fields -/

variable {f g : Field} {fields : List Field} {s rest tail : List Char} {es : List (List Char)}
  {limit : Nat}

theorem Field.head_append (f : Field) (rest : List Char) :
    ∀ c ∈ (f.chars ++ rest).head?, c.isDigit = false := by
  rw [List.head?_append_of_ne_nil _ f.chars_ne_nil]
  exact f.head

/-- A field is read in front of anything. -/
theorem element?_written (h : f.digits.length ≤ limit) (rest : List Char) :
    element? limit (f.written ++ rest) = .ok (some (f.chars, rest)) :=
  element?_append f.digits_ne_nil f.isDigit h f.readDecimal_digits f.chars_ne_nil f.head rest

/-- Only the number of digits can fail an element. -/
theorem element?_eq_error_iff :
    (∃ e, element? limit s = .error e) ↔ limit < (s.takeWhile Char.isDigit).length := by
  simp only [element?]
  split
  · rename_i hlong
    exact ⟨fun _ => hlong, fun _ => ⟨_, rfl⟩⟩
  · rename_i hshort
    refine ⟨?_, fun h => absurd h hshort⟩
    rintro ⟨e, h⟩
    split at h <;> cases h

/-- What is read as an element is a field. -/
theorem exists_field_of_element? {e : List Char} (h : element? limit s = .ok (some (e, rest))) :
    ∃ f : Field, f.chars = e ∧ s = f.written ++ rest ∧ f.digits.length ≤ limit := by
  simp only [element?] at h
  split at h
  · cases h
  rename_i hlimit
  split at h
  · cases h
  · rename_i hfits
    push Not at hfits
    obtain ⟨hdigits, hpos, hlength⟩ := hfits
    set digits := s.takeWhile Char.isDigit with htake
    set after := s.dropWhile Char.isDigit with hdrop
    set n := Numeral.readDecimal digits with hn
    cases h
    have htaken : (after.take n).length = n := List.length_take_of_le hlength
    refine ⟨⟨digits, after.take n, hdigits, fun c hc => List.mem_takeWhile_imp hc, ?_, ?_, ?_⟩,
      rfl, ?_, Nat.le_of_not_lt hlimit⟩
    · rw [htaken]
    · intro hnil
      rw [hnil] at htaken
      exact hpos htaken.symm
    · -- The run of digits ends where it does because no digit follows.
      intro c hc
      have hhead := List.head?_dropWhile_not Char.isDigit s
      rw [← hdrop] at hhead
      rw [List.head?_take, if_neg hpos, Option.mem_def] at hc
      rw [hc] at hhead
      simpa using hhead
    · rw [Field.written, List.append_assoc, List.take_append_drop]
      exact List.takeWhile_append_dropWhile.symm

/-- A field is told from what follows it. -/
theorem written_append_inj (h : f.written ++ s = g.written ++ rest) : f = g ∧ s = rest := by
  obtain ⟨hf, hfs⟩ := span_append f.isDigit (f.head_append s)
  obtain ⟨hg, hgs⟩ := span_append g.isDigit (g.head_append rest)
  rw [Field.written, Field.written, List.append_assoc, List.append_assoc] at h
  have hdigits : f.digits = g.digits := by rw [← hf, ← hg, h]
  have hchars : f.chars ++ s = g.chars ++ rest := by rw [← hfs, ← hgs, h]
  have hlength : f.chars.length = g.chars.length := by
    rw [← f.readDecimal_digits, ← g.readDecimal_digits, hdigits]
  obtain ⟨hf, hs⟩ := List.append_inj hchars hlength
  exact ⟨Field.ext hdigits hf, hs⟩

/-! ## Fields up to the terminator -/

/-- A field does not start like the terminator. -/
theorem written_append_ne (f : Field) (s rest : List Char) : f.written ++ s ≠ 'E' :: rest := by
  intro h
  have hread := element?_written (Nat.le_refl f.digits.length) s
  rw [h, element?_terminator] at hread
  cases hread

/-- Fields are read one after the other, up to the terminator. -/
theorem elements?_written (h : ∀ f ∈ fields, f.digits.length ≤ limit) (rest : List Char) :
    elements? limit (fields.flatMap Field.written ++ 'E' :: rest)
      = .ok (some (fields.map Field.chars, rest)) :=
  elements?_flatMap (fun f hf => element?_written (h f hf)) rest

/-- What is read up to the terminator are fields. -/
theorem exists_fields_of_elements? (h : elements? limit s = .ok (some (es, rest))) :
    ∃ fields : List Field, fields.map Field.chars = es ∧
      (∀ f ∈ fields, f.digits.length ≤ limit) ∧
      s = fields.flatMap Field.written ++ 'E' :: rest := by
  fun_induction elements? limit s generalizing es rest with
  | case1 after =>
    cases h
    exact ⟨[], rfl, nofun, rfl⟩
  | case2 => cases h
  | case3 => cases h
  | case4 => cases h
  | case5 => cases h
  | case6 s _ e after helement _ es' rest' hrest ih =>
    cases h
    obtain ⟨f, rfl, hs, hf⟩ := exists_field_of_element? helement
    obtain ⟨fields, rfl, hfields, hafter⟩ := ih hrest
    refine ⟨f :: fields, rfl, List.forall_mem_cons.2 ⟨hf, hfields⟩, ?_⟩
    rw [hs, hafter, List.flatMap_cons, List.append_assoc]

/-- Reading fails behind fields, at a run of too many digits. -/
theorem exists_digits_of_elements? {e : NumberError} (h : elements? limit s = .error e) :
    ∃ (fields : List Field) (digits rest : List Char), (∀ f ∈ fields, f.digits.length ≤ limit) ∧
      (∀ c ∈ digits, c.isDigit = true) ∧ limit < digits.length ∧
      s = fields.flatMap Field.written ++ (digits ++ rest) := by
  fun_induction elements? limit s with
  | case1 => cases h
  | case2 s _ e helement =>
    refine ⟨[], s.takeWhile Char.isDigit, s.dropWhile Char.isDigit, nofun,
      fun c hc => List.mem_takeWhile_imp hc, element?_eq_error_iff.1 ⟨e, helement⟩, ?_⟩
    exact List.takeWhile_append_dropWhile.symm
  | case3 => cases h
  | case4 s _ e after helement _ e' hrest ih =>
    cases h
    obtain ⟨f, rfl, hs, hf⟩ := exists_field_of_element? helement
    obtain ⟨fields, digits, rest, hfields, hdigits, hlong, hafter⟩ := ih hrest
    refine ⟨f :: fields, digits, rest, List.forall_mem_cons.2 ⟨hf, hfields⟩, hdigits, hlong, ?_⟩
    rw [hs, hafter, List.flatMap_cons, List.append_assoc]
  | case5 => cases h
  | case6 => cases h

/-- A run of too many digits fails, whatever fields stand before it. -/
theorem elements?_eq_error {digits : List Char} (hfields : ∀ f ∈ fields, f.digits.length ≤ limit)
    (hdigits : ∀ c ∈ digits, c.isDigit = true) (hlong : limit < digits.length) (rest : List Char) :
    ∃ e, elements? limit (fields.flatMap Field.written ++ (digits ++ rest)) = .error e := by
  induction fields with
  | nil =>
    have hrun : limit < ((digits ++ rest).takeWhile Char.isDigit).length := by
      rw [List.takeWhile_append_of_pos hdigits, List.length_append]
      omega
    obtain ⟨e, he⟩ := element?_eq_error_iff.2 hrun
    refine ⟨e, ?_⟩
    rw [List.flatMap_nil, List.nil_append, elements?]
    · split
      · rename_i herror
        rw [he] at herror
        cases herror
        rfl
      · rename_i hnone
        rw [he] at hnone
        cases hnone
      · rename_i hsome
        rw [he] at hsome
        cases hsome
    · intro s hs
      rw [hs, element?_terminator] at he
      cases he
  | cons f fields ih =>
    have hhead := element?_written (hfields f List.mem_cons_self)
      (fields.flatMap Field.written ++ (digits ++ rest))
    obtain ⟨e, he⟩ := ih fun g hg => hfields g (List.mem_cons_of_mem _ hg)
    refine ⟨e, ?_⟩
    rw [List.flatMap_cons, List.append_assoc, elements?]
    · split
      · rename_i herror
        rw [hhead] at herror
        cases herror
      · rename_i hnone
        rw [hhead] at hnone
        cases hnone
      · rename_i hsome
        rw [hhead] at hsome
        cases hsome
        rw [he]
    · exact fun s => written_append_ne f _ s

/-- Fields are told from the terminator and what follows it. -/
theorem flatMap_written_inj {fields fields' : List Field}
    (h : fields.flatMap Field.written ++ 'E' :: s = fields'.flatMap Field.written ++ 'E' :: rest) :
    fields = fields' ∧ s = rest := by
  induction fields generalizing fields' with
  | nil =>
    cases fields' with
    | nil => exact ⟨rfl, (List.cons.inj h).2⟩
    | cons g fields' =>
      rw [List.flatMap_cons, List.append_assoc] at h
      exact absurd h.symm (written_append_ne g _ _)
  | cons f fields ih =>
    cases fields' with
    | nil =>
      rw [List.flatMap_cons, List.append_assoc] at h
      exact absurd h (written_append_ne f _ _)
    | cons g fields' =>
      rw [List.flatMap_cons, List.flatMap_cons, List.append_assoc, List.append_assoc] at h
      obtain ⟨rfl, hbehind⟩ := written_append_inj h
      obtain ⟨rfl, rfl⟩ := ih hbehind
      exact ⟨rfl, rfl⟩

/-! ## Hashes -/

theorem hash?_eq_some {e digits : List Char} (h : hash? e = some digits) :
    e = 'h' :: digits ∧ IsHashElement e := by
  unfold hash? at h
  split at h
  · rename_i digits'
    dsimp only at h
    split at h
    · rename_i hshape
      obtain ⟨hlength, hhex, hrest⟩ := hshape
      cases h
      refine ⟨rfl, digits.take 16, ⟨hlength, hhex⟩, ?_⟩
      have hsplit := List.take_append_drop 16 digits
      rcases hrest with hrest | hrest
      · rw [hrest, List.append_nil] at hsplit
        exact .inl (by rw [hashElement, hsplit])
      · rw [hrest] at hsplit
        exact .inr (by rw [hashElement, List.cons_append, hsplit])
    · cases h
  · cases h

theorem exists_hash?_of_isHashElement {e : List Char} (h : IsHashElement e) :
    ∃ digits, hash? e = some digits := by
  obtain ⟨digits, hdigits, rfl | rfl⟩ := h
  · exact ⟨digits, hash?_hashElement hdigits⟩
  · have htake : (digits ++ ['\n']).take 16 = digits := List.take_left' hdigits.length
    have hdrop : (digits ++ ['\n']).drop 16 = ['\n'] := List.drop_left' hdigits.length
    refine ⟨digits ++ ['\n'], ?_⟩
    show hash? ('h' :: (digits ++ ['\n'])) = _
    simp only [hash?, htake, hdrop, hdigits.length, hdigits.hex, or_true, and_self, if_true]

/-- A final hash is taken off if it is not the only element. -/
theorem splitHash_of_isHashElement {front : List (List Char)} {e : List Char} (hfront : front ≠ [])
    (he : IsHashElement e) :
    ∃ digits, e = 'h' :: digits ∧ splitHash (front ++ [e]) = ⟨front, some digits⟩ := by
  obtain ⟨digits, hdigits⟩ := exists_hash?_of_isHashElement he
  have hlength : (front ++ [e]).length > 1 := by
    have := List.length_pos_of_ne_nil hfront
    rw [List.length_append, List.length_singleton]
    omega
  refine ⟨digits, (hash?_eq_some hdigits).1, ?_⟩
  simp only [splitHash, List.getLast?_concat, Option.bind_some, hdigits, if_pos hlength,
    List.dropLast_concat]

/-- Otherwise all elements stay. -/
theorem splitHash_eq_self {elements : List (List Char)}
    (h : ∀ front e, elements = front ++ [e] → front ≠ [] → ¬ IsHashElement e) :
    splitHash elements = ⟨elements, none⟩ := by
  unfold splitHash
  split
  · rename_i digits hlast
    obtain ⟨e, he, hdigits⟩ := Option.bind_eq_some_iff.1 hlast
    split
    · rename_i hlength
      obtain ⟨front, rfl⟩ := List.getLast?_eq_some_iff.1 he
      refine absurd (hash?_eq_some hdigits).2 (h front e rfl ?_)
      rintro rfl
      simp at hlength
    · rfl
  · rfl

/-! ## Names -/

namespace Written

/-- The last element is a hash: it has the shape of one and is not the only element. -/
def Hashed (w : Written) : Prop :=
  ∃ front e, w.elements = front ++ [e] ∧ front ≠ [] ∧ IsHashElement e

theorem toNat_lt_of_mem_inner (w : Written) {c : Char} (hc : c ∈ w.inner) : c.toNat < 0x80 := by
  rcases List.mem_append.1 hc with hc | hc
  · obtain ⟨f, hf, hc⟩ := List.mem_flatMap.1 hc
    rcases List.mem_append.1 hc with hc | hc
    · have hdigit := f.isDigit c hc
      exact toNat_lt_of_isAlphanum (by simp [Char.isAlphanum, hdigit])
    · exact w.ascii f hf c hc
  · rcases List.mem_cons.1 hc with rfl | hc
    · decide
    · exact w.isTail.ascii c hc

theorem asciiBehind?_name (w : Written) :
    Text.asciiBehind? prefixes w.name = some w.inner :=
  asciiBehind?_append w.start_mem prefixes_apart fun _ hc => w.toNat_lt_of_mem_inner hc

/-- What is written with lengths that are read is recognised, and taken apart into the elements that
it is written with. -/
theorem parse?_name {w : Written} (h : w.HasShortLengths) :
    parse? w.name = .ok (some (splitHash w.elements)) := by
  have helements : elements? (digitLimit w.inner) w.inner = .ok (some (w.elements, w.tail)) :=
    elements?_written h w.tail
  have hne : w.elements ≠ [] := by
    simpa [elements] using w.fields_ne_nil
  simp only [parse?, w.asciiBehind?_name, helements, isSuffix_of_isTail w.isTail, hne, ne_eq,
    not_false_eq_true, and_self, if_true]

end Written

/-- What is recognised is written with lengths that are read. -/
theorem exists_written_of_parse? {name : Text} {parts : Name} (h : parse? name = .ok (some parts)) :
    ∃ w : Written, w.name = name ∧ w.HasShortLengths := by
  unfold parse? at h
  split at h
  · cases h
  rename_i inner hinner
  obtain ⟨start, hmem, rfl, hascii⟩ := exists_of_asciiBehind? hinner
  split at h
  · cases h
  · cases h
  rename_i es rest helements
  obtain ⟨fields, rfl, hshort, rfl⟩ := exists_fields_of_elements? helements
  have hrest := Except.ok.inj h
  split at hrest
  · rename_i hsuffix
    obtain ⟨hsuffix, hne⟩ := hsuffix
    have htail : IsTail rest := by
      refine ⟨fun c hc => hascii c (by simp [hc]), fun c hc => ?_⟩
      obtain ⟨cs, rfl⟩ := List.head?_eq_some_iff.1 hc
      simpa [isSuffix] using hsuffix
    refine ⟨⟨start, fields, rest, hmem, by simpa using hne, ?_, htail⟩, rfl, hshort⟩
    intro f hf c hc
    refine hascii c (List.mem_append_left _ (List.mem_flatMap.2 ⟨f, hf, ?_⟩))
    exact List.mem_append_right f.digits hc
  · cases hrest

/-- A name can be taken apart in one way only. -/
theorem Written.name_injective {w w' : Written} (h : w.name = w'.name) : w = w' := by
  have hinner : w.inner = w'.inner := by
    have hstart := w.asciiBehind?_name
    rw [h, w'.asciiBehind?_name] at hstart
    exact (Option.some.inj hstart).symm
  have hstart : w.start = w'.start := by
    unfold name at h
    rw [hinner] at h
    exact List.append_cancel_right h
  obtain ⟨hfields, htail⟩ := flatMap_written_inj hinner
  exact Written.ext hstart hfields htail

theorem parse?_eq_some_iff {name : Text} : (∃ parts, parse? name = .ok (some parts)) ↔
    ∃! w : Written, w.name = name ∧ w.HasShortLengths := by
  constructor
  · rintro ⟨parts, hparts⟩
    obtain ⟨w, hname, hshort⟩ := exists_written_of_parse? hparts
    exact ⟨w, ⟨hname, hshort⟩, fun w' hw' => Written.name_injective (hw'.1.trans hname.symm)⟩
  · rintro ⟨w, ⟨rfl, hshort⟩, -⟩
    exact ⟨_, Written.parse?_name hshort⟩

/-- A name fails exactly if it runs into a length with too many digits. -/
theorem parse?_eq_error_iff {name : Text} :
    (∃ e, parse? name = .error e) ↔ ∃ o : Overlong, o.name = name := by
  constructor
  · rintro ⟨e, h⟩
    unfold parse? at h
    split at h
    · cases h
    rename_i inner hinner
    obtain ⟨start, hmem, rfl, hascii⟩ := exists_of_asciiBehind? hinner
    split at h
    · rename_i e' helements
      obtain ⟨fields, digits, rest, hshort, hdigits, hlong, rfl⟩ :=
        exists_digits_of_elements? helements
      refine ⟨⟨start, fields, digits, rest, hmem, hdigits, ⟨?_, ?_⟩, hshort, hlong⟩, rfl⟩
      · intro f hf c hc
        refine hascii c (List.mem_append_left _ (List.mem_flatMap.2 ⟨f, hf, ?_⟩))
        exact List.mem_append_right f.digits hc
      · exact fun c hc => hascii c (by simp [hc])
    · cases h
    · cases h
  · rintro ⟨o, rfl⟩
    have hascii : ∀ c ∈ o.inner, c.toNat < 0x80 := by
      have hdigit {c : Char} (h : c.isDigit = true) : c.toNat < 0x80 :=
        toNat_lt_of_isAlphanum (by simp [Char.isAlphanum, h])
      intro c hc
      rcases List.mem_append.1 hc with hc | hc
      · obtain ⟨f, hf, hc⟩ := List.mem_flatMap.1 hc
        rcases List.mem_append.1 hc with hc | hc
        · exact hdigit (f.isDigit c hc)
        · exact o.ascii.1 f hf c hc
      · rcases List.mem_append.1 hc with hc | hc
        · exact hdigit (o.isDigit c hc)
        · exact o.ascii.2 c hc
    have hinner : Text.asciiBehind? prefixes o.name = some o.inner :=
      asciiBehind?_append o.start_mem prefixes_apart hascii
    obtain ⟨e, he⟩ := elements?_eq_error o.short o.isDigit o.long o.rest
    refine ⟨e, ?_⟩
    rw [parse?, hinner]
    simp only [Overlong.inner, he]

/-- A written name whose lengths are not all read runs into the first that is not. -/
theorem Written.exists_overlong {w : Written} (h : ¬ w.HasShortLengths) :
    ∃ o : Overlong, o.name = w.name := by
  obtain ⟨f, hf⟩ : ∃ f, w.fields.find? (fun f => decide (digitLimit w.inner < f.digits.length))
      = some f := by
    rw [← Option.isSome_iff_exists, List.find?_isSome]
    simpa [HasShortLengths] using h
  obtain ⟨hlong, before, after, hsplit, hbefore⟩ := List.find?_eq_some_iff_append.1 hf
  have hinner : w.inner = before.flatMap Field.written
      ++ (f.digits ++ (f.chars ++ after.flatMap Field.written ++ 'E' :: w.tail)) := by
    simp [inner, hsplit, Field.written]
  have hmem (g : Field) (hg : g ∈ before) : g ∈ w.fields := by simp [hsplit, hg]
  rw [hinner] at hlong hbefore
  refine ⟨⟨w.start, before, f.digits, _, w.start_mem, f.isDigit, ⟨?_, ?_⟩, ?_, ?_⟩,
    by rw [name, hinner]; rfl⟩
  · exact fun g hg => w.ascii g (hmem g hg)
  · intro c hc
    exact w.toNat_lt_of_mem_inner (hinner ▸ List.mem_append_right _ (List.mem_append_right _ hc))
  · intro g hg
    simpa using hbefore g hg
  · simpa using hlong

/-! ## Decoding -/

/-- What starts as a legacy name is no v0 name. -/
theorem v0_parse?_eq_none {start : Text} (h : start ∈ (["__ZN", "_ZN", "ZN"] : List Text))
    (rest : Text) : V0.parse? (start ++ rest) = .ok none := by
  have hapart : ∀ s ∈ (["__ZN", "_ZN", "ZN"] : List Text), ∀ p ∈ V0.prefixes, Apart p s := by
    decide
  rw [V0.parse?, asciiBehind?_eq_none (hapart start h) rest]

/-- What is decoded at all has lengths that are read. -/
theorem Written.hasShortLengths_of_decode {w : Written} {n : Mangled.Name}
    (h : Name.decode w.name = .ok n) : w.HasShortLengths := by
  by_contra hlong
  obtain ⟨e, he⟩ := parse?_eq_error_iff.2 (Written.exists_overlong hlong)
  rw [Name.decode, he] at h
  cases h

theorem Written.decode_name {w : Written} (h : w.HasShortLengths) :
    Name.decode w.name = do
      return .legacy (← (splitHash w.elements).segments)
        ((splitHash w.elements).hash.map Text.ofChars) := by
  simp only [Name.decode, Written.parse?_name h]

/-- Only what is written is decoded as a legacy name. -/
theorem scheme_eq_legacy_iff {name : Text} {n : Mangled.Name} (h : Name.decode name = .ok n) :
    n.scheme = .legacy ↔ ∃ w : Written, w.name = name := by
  constructor
  · intro hscheme
    unfold Name.decode at h
    split at h
    · cases h
    · rename_i parts hparts
      obtain ⟨w, hname, -⟩ := exists_written_of_parse? hparts
      exact ⟨w, hname⟩
    · obtain ⟨path, -, h⟩ := bind_eq_ok.1 h
      split at h <;> cases h <;> cases hscheme
  · rintro ⟨w, rfl⟩
    rw [Written.decode_name (Written.hasShortLengths_of_decode h)] at h
    obtain ⟨segments, -, h⟩ := bind_eq_ok.1 h
    cases h
    rfl

theorem forall₂_of_mapM {elements : List (List Char)} {segments : List Text}
    (h : elements.mapM unescape = .ok segments) :
    List.Forall₂ ElementSpells elements segments :=
  (mapM_eq_ok.1 h).imp fun _ _ => unescape_eq_ok_iff.1

namespace Written

variable {w : Written} {n : Mangled.Name}

theorem segments_of_hashed (h : Name.decode w.name = .ok n) (hhashed : w.Hashed) :
    List.Forall₂ ElementSpells w.elements.dropLast n.segments ∧
      ∃ digits, w.elements.getLast? = some ('h' :: digits) ∧
        n.hash? = some (Text.ofChars digits) := by
  obtain ⟨front, e, helements, hfront, he⟩ := hhashed
  obtain ⟨digits, rfl, hsplit⟩ := splitHash_of_isHashElement hfront he
  rw [decode_name (hasShortLengths_of_decode h), helements, hsplit] at h
  obtain ⟨segments, hsegments, h⟩ := bind_eq_ok.1 h
  cases h
  rw [helements, List.dropLast_concat, List.getLast?_concat]
  exact ⟨forall₂_of_mapM hsegments, digits, rfl, rfl⟩

theorem segments_of_not_hashed (h : Name.decode w.name = .ok n) (hhashed : ¬ w.Hashed) :
    List.Forall₂ ElementSpells w.elements n.segments ∧ n.hash? = none := by
  have hsplit : splitHash w.elements = ⟨w.elements, none⟩ :=
    splitHash_eq_self fun front e helements hfront he => hhashed ⟨front, e, helements, hfront, he⟩
  rw [decode_name (hasShortLengths_of_decode h), hsplit] at h
  obtain ⟨segments, hsegments, h⟩ := bind_eq_ok.1 h
  cases h
  exact ⟨forall₂_of_mapM hsegments, rfl⟩

/-- A path of one segment is of no crate. -/
theorem crate?_eq_none (h : Name.decode w.name = .ok n) (hlength : n.segments.length = 1) :
    n.crate? = none := by
  rw [decode_name (hasShortLengths_of_decode h)] at h
  obtain ⟨segments, -, h⟩ := bind_eq_ok.1 h
  cases h
  obtain ⟨segment, rfl⟩ := List.length_eq_one_iff.1 hlength
  rfl

end Written

/-! ## Names of other languages -/

section Parameters

variable {start parameters : Text} (hstart : start ∈ (["__ZN", "_ZN", "ZN"] : List Text))
  (hparameters : ∃ c ∈ parameters.head?, c ≠ '.' ∧ c ≠ '$')

include hstart

/-- What is found behind the prefix are the fields, the terminator and the parameters. -/
theorem eq_of_asciiBehind? {inner : List Char} (h : Text.asciiBehind? prefixes
    (start ++ Text.ofChars (fields.flatMap Field.written ++ ['E']) ++ parameters) = some inner) :
    inner = fields.flatMap Field.written ++ 'E' :: parameters.map CodePoint.toChar ∧
      Text.ofChars (parameters.map CodePoint.toChar) = parameters := by
  have hmem : start ∈ prefixes := hstart
  rw [List.append_assoc, Text.asciiBehind?,
    findSome?_dropHead? hmem (prefixes_apart start hmem), Option.bind_some] at h
  obtain ⟨hinner, -⟩ := Text.asciiChars?_eq_some h
  -- The parameters are characters, since all that is found is.
  have hchars : inner
      = fields.flatMap Field.written ++ 'E' :: parameters.map CodePoint.toChar := by
    rw [← Text.map_toChar_ofChars inner, ← hinner, List.map_append, Text.map_toChar_ofChars,
      List.append_assoc, List.singleton_append]
  refine ⟨hchars, ?_⟩
  have hsplit : Text.ofChars (fields.flatMap Field.written ++ 'E' :: parameters.map CodePoint.toChar)
      = Text.ofChars (fields.flatMap Field.written ++ ['E'])
        ++ Text.ofChars (parameters.map CodePoint.toChar) := by
    simp [Text.ofChars]
  rw [hchars, hsplit] at hinner
  exact (List.append_cancel_left hinner).symm

include hparameters

/-- A name that goes on behind the terminator is no written name, unless a suffix follows. -/
theorem ne_name_of_parameters (w : Written) :
    w.name ≠ start ++ Text.ofChars (fields.flatMap Field.written ++ ['E']) ++ parameters := by
  intro hname
  obtain ⟨hchars, hback⟩ := eq_of_asciiBehind? hstart (hname ▸ w.asciiBehind?_name)
  obtain ⟨rfl, htail⟩ := flatMap_written_inj hchars
  obtain ⟨c, hc, hdot, hdollar⟩ := hparameters
  rw [← hback, ← htail, Text.ofChars, List.head?_map, Option.mem_def, Option.map_eq_some_iff] at hc
  obtain ⟨x, hx, rfl⟩ := hc
  rcases w.isTail.start x hx with rfl | rfl
  · exact hdot rfl
  · exact hdollar rfl

/-- If such a name is decoded, it stands for itself. -/
theorem eq_verbatim_of_parameters {name : Text} {n : Mangled.Name} (h : Name.decode name = .ok n)
    (hname : name = start ++ Text.ofChars (fields.flatMap Field.written ++ ['E']) ++ parameters) :
    n = .verbatim name := by
  have hv0 : V0.parse? name = .ok none := by
    rw [hname, List.append_assoc]
    exact v0_parse?_eq_none hstart _
  unfold Name.decode at h
  split at h
  · cases h
  · rename_i parts hparts
    obtain ⟨w, hw, -⟩ := exists_written_of_parse? hparts
    exact absurd (hw.trans hname) (ne_name_of_parameters hstart hparameters w)
  · rw [hv0] at h
    cases h
    rfl

/-- It is decoded if its lengths are read. -/
theorem decode_of_parameters {name : Text}
    (hshort : ∀ f ∈ fields, f.digits.length ≤ Numeral.maxDigits)
    (hname : name = start ++ Text.ofChars (fields.flatMap Field.written ++ ['E']) ++ parameters) :
    Name.decode name = .ok (.verbatim name) := by
  have hdecoded : ∃ n, Name.decode name = .ok n := by
    have hparse : ∃ parts?, parse? name = .ok parts? := by
      rw [hname, parse?]
      split
      · exact ⟨none, rfl⟩
      · rename_i inner hinner
        obtain ⟨rfl, -⟩ := eq_of_asciiBehind? hstart hinner
        have hread (f : Field) (hf : f ∈ fields) : f.digits.length ≤ digitLimit
            (fields.flatMap Field.written ++ 'E' :: parameters.map CodePoint.toChar) :=
          (hshort f hf).trans (Nat.le_max_left _ _)
        rw [elements?_written hread]
        exact ⟨_, rfl⟩
    obtain ⟨parts?, hparse⟩ := hparse
    have hv0 : V0.parse? name = .ok none := by
      rw [hname, List.append_assoc]
      exact v0_parse?_eq_none hstart _
    cases parts? with
    | some parts =>
      obtain ⟨w, hw, -⟩ := exists_written_of_parse? hparse
      exact absurd (hw.trans hname) (ne_name_of_parameters hstart hparameters w)
    | none =>
      refine ⟨.verbatim name, ?_⟩
      simp only [Name.decode, hparse, hv0]
      rfl
  obtain ⟨n, hn⟩ := hdecoded
  rw [hn, eq_verbatim_of_parameters hstart hparameters hn hname]

end Parameters

/-! ## The grammar -/

/-- **The legacy grammar.** A name is recognised exactly if it is written as a legacy name with
lengths that are read, and then it is so in one way; reading fails exactly on names that run into a
length with too many digits. Its segments are what its elements spell, without a last one of the
shape of a hash if there are others, and a single segment is of no crate. With anything but a suffix
behind the terminator a name is of no scheme. -/
theorem recognises_written (name : Text) :
    ((∃ parts, parse? name = .ok (some parts)) ↔
      ∃! w : Written, w.name = name ∧ w.HasShortLengths) ∧
    ((∃ e, parse? name = .error e) ↔ ∃ o : Overlong, o.name = name) ∧
    (∀ w w' : Written, w.name = name → w'.name = name → w = w') ∧
    (∀ n, Name.decode name = .ok n → (n.scheme = .legacy ↔ ∃ w : Written, w.name = name)) ∧
    (∀ w : Written, w.name = name → ∀ n, Name.decode name = .ok n →
      (w.Hashed → List.Forall₂ ElementSpells w.elements.dropLast n.segments ∧
        ∃ digits, w.elements.getLast? = some ('h' :: digits) ∧
          n.hash? = some (Text.ofChars digits)) ∧
      (¬ w.Hashed → List.Forall₂ ElementSpells w.elements n.segments ∧ n.hash? = none) ∧
      (n.segments.length = 1 → n.crate? = none)) ∧
    ∀ start ∈ (["__ZN", "_ZN", "ZN"] : List Text), ∀ (fields : List Field) (parameters : Text),
      (∃ c ∈ parameters.head?, c ≠ '.' ∧ c ≠ '$') →
      name = start ++ Text.ofChars (fields.flatMap Field.written ++ ['E']) ++ parameters →
      (∀ n, Name.decode name = .ok n → n = .verbatim name) ∧
      ((∀ f ∈ fields, f.digits.length ≤ Numeral.maxDigits) →
        Name.decode name = .ok (.verbatim name)) := by
  refine ⟨parse?_eq_some_iff, parse?_eq_error_iff, ?_,
    fun n hdecode => scheme_eq_legacy_iff hdecode, ?_, ?_⟩
  · exact fun w w' hw hw' => Written.name_injective (hw.trans hw'.symm)
  · rintro w rfl n hdecode
    exact ⟨Written.segments_of_hashed hdecode, Written.segments_of_not_hashed hdecode,
      Written.crate?_eq_none hdecode⟩
  · rintro start hstart fields parameters hparameters hname
    exact ⟨fun n hn => eq_verbatim_of_parameters hstart hparameters hn hname,
      fun hshort => decode_of_parameters hstart hparameters hshort hname⟩

/-- An element whose length is written in two digits. -/
def sampleField : Field where
  digits := ['0', '4']
  chars := "core".toList
  digits_ne_nil := by decide
  isDigit := List.all_eq_true.1 rfl
  readDecimal_digits := by decide
  chars_ne_nil := by decide
  head := by
    rintro c ⟨⟩
    rfl

/-- An element with escapes of all kinds, one that is not known and one that is not closed. -/
def sampleEscapes : Field where
  digits := ['3', '0']
  chars := "_$LT$T$GT$..f.$GT$$u78$.$ZZ$$C".toList
  digits_ne_nil := by decide
  isDigit := List.all_eq_true.1 rfl
  readDecimal_digits := by decide
  chars_ne_nil := by decide
  head := by
    rintro c ⟨⟩
    rfl

/-- An element of the shape of a hash. -/
def sampleHashField : Field where
  digits := ['1', '7']
  chars := "h0123456789abcdef".toList
  digits_ne_nil := by decide
  isDigit := List.all_eq_true.1 rfl
  readDecimal_digits := by decide
  chars_ne_nil := by decide
  head := by
    rintro c ⟨⟩
    rfl

/-- A name with a hash and a suffix. -/
def sampleWritten : Written where
  start := "_ZN"
  fields := [sampleField, sampleEscapes, sampleHashField]
  tail := ".llvm.7".toList
  start_mem := by decide
  fields_ne_nil := by decide
  ascii := by simp [sampleField, sampleEscapes, sampleHashField]
  isTail := by decide

theorem sampleWritten_hashed : sampleWritten.Hashed :=
  ⟨["core".toList, "_$LT$T$GT$..f.$GT$$u78$.$ZZ$$C".toList], "h0123456789abcdef".toList, rfl,
    by decide, "0123456789abcdef".toList, ⟨rfl, rfl⟩, .inl rfl⟩

theorem sampleWritten_hasShortLengths : sampleWritten.HasShortLengths := by
  intro f hf
  have hshort : f.digits.length ≤ 2 := by
    simp only [sampleWritten, List.mem_cons, List.not_mem_nil, or_false] at hf
    rcases hf with rfl | rfl | rfl <;> decide
  have hlimit : 4300 ≤ digitLimit sampleWritten.inner := Nat.le_max_left _ _
  omega

/-- A name of a crate, an item with escapes and a hash, and the name of a function with a
parameter. -/
theorem sampleWritten_recognised :
    (∃ parts, parse? "_ZN04core30_$LT$T$GT$..f.$GT$$u78$.$ZZ$$C17h0123456789abcdefE.llvm.7"
      = .ok (some parts)) ∧
    (∃ n, Name.decode "_ZN04core30_$LT$T$GT$..f.$GT$$u78$.$ZZ$$C17h0123456789abcdefE.llvm.7"
        = .ok n ∧
      n.scheme = .legacy ∧ n.segments = ["core", "<T>::f->x.$ZZ$$C"] ∧
      n.hash? = some "0123456789abcdef") ∧
    Name.decode "_ZN04coreEv" = .ok (.verbatim "_ZN04coreEv") := by
  have hname : sampleWritten.name
      = "_ZN04core30_$LT$T$GT$..f.$GT$$u78$.$ZZ$$C17h0123456789abcdefE.llvm.7" := by
    decide +kernel
  obtain ⟨hparse, -, hunique, hscheme, hsegments, -⟩ := recognises_written sampleWritten.name
  rw [← hname]
  have hok : (Name.decode sampleWritten.name).toOption.isSome = true := by decide +kernel
  refine ⟨?_, ?_, ?_⟩
  · exact hparse.2 ⟨sampleWritten, ⟨rfl, sampleWritten_hasShortLengths⟩,
      fun w hw => hunique _ _ hw.1 rfl⟩
  · obtain ⟨n, hn⟩ := Option.isSome_iff_exists.1 hok
    have hdecode : Name.decode sampleWritten.name = .ok n := by
      cases hresult : Name.decode sampleWritten.name <;> rw [hresult] at hn <;> cases hn
      rfl
    obtain ⟨hhashed, -, -⟩ := hsegments sampleWritten rfl n hdecode
    obtain ⟨hspelled, digits, hdigits, hhash⟩ := hhashed sampleWritten_hashed
    cases hdigits
    have hexpected : List.Forall₂ ElementSpells sampleWritten.elements.dropLast
        ["core", "<T>::f->x.$ZZ$$C"] := by
      refine .cons (unescape_eq_ok_iff.1 ?_) (.cons (unescape_eq_ok_iff.1 ?_) .nil)
      · decide +kernel
      · decide +kernel
    exact ⟨n, hdecode, (hscheme n hdecode).2 ⟨_, rfl⟩,
      ElementSpells.forall₂_unique hspelled hexpected, hhash⟩
  · obtain ⟨-, -, -, -, -, hparameters⟩ := recognises_written "_ZN04coreEv"
    refine (hparameters "_ZN" (by decide) [sampleField] "v" ⟨'v', rfl, by decide, by decide⟩
      (by decide +kernel)).2 ?_
    intro f hf
    rw [List.mem_singleton.1 hf]
    decide

/-- An element whose length is written with as many zeros in front as the host reads digits. -/
def zerosField : Field where
  digits := List.replicate Numeral.maxDigits '0' ++ ['1']
  chars := ['a']
  digits_ne_nil := by simp
  isDigit := by
    intro c hc
    rcases List.mem_append.1 hc with hc | hc
    · rw [List.eq_of_mem_replicate hc]
      rfl
    · rw [List.mem_singleton.1 hc]
      rfl
  readDecimal_digits := Numeral.readDecimal_replicate_zero _ _
  chars_ne_nil := by decide
  head := by
    rintro c ⟨⟩
    rfl

/-- A name that starts with that element. -/
def zerosWritten : Written where
  start := "_ZN"
  fields := [zerosField, sampleField]
  tail := []
  start_mem := by decide
  fields_ne_nil := by decide
  ascii := by simp [zerosField, sampleField]
  isTail := by decide

/-- It is written as a legacy name and not recognised. -/
theorem zerosWritten_not_recognised :
    zerosWritten.name = "_ZN" ++ Text.ofChars
      (List.replicate Numeral.maxDigits '0' ++ "1a04coreE".toList) ∧
    ¬ ∃ parts, parse? zerosWritten.name = .ok (some parts) := by
  have hinner : zerosWritten.inner
      = List.replicate Numeral.maxDigits '0' ++ "1a04coreE".toList := by
    simp [Written.inner, zerosWritten, zerosField, sampleField, Field.written]
  refine ⟨by rw [Written.name, hinner]; rfl, fun hparse => ?_⟩
  obtain ⟨w, ⟨hname, hshort⟩, -⟩ := parse?_eq_some_iff.1 hparse
  rw [Written.name_injective hname] at hshort
  have hlong := hshort zerosField List.mem_cons_self
  have hlimit : digitLimit zerosWritten.inner ≤ Numeral.maxDigits := by
    rw [digitLimit, hinner, List.length_append, List.length_replicate]
    decide +kernel
  have hdigits : zerosField.digits.length = Numeral.maxDigits + 1 := by simp [zerosField]
  omega

end CrateLedger.Mangled.Legacy
