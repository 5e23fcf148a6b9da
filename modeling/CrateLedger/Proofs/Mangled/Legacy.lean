import CrateLedger.Mangled.Name
import CrateLedger.Proofs.Checked
import CrateLedger.Proofs.Mangled.Affixes
import CrateLedger.Proofs.Text.Numeral

/-!
# Legacy names are read back

How a path is written as a legacy name, and that reading gives the path back. The escapes of
neighbouring characters are not independent: `::` and `->` have escapes of their own, both of which
start with a dot, and an underscore in front of an escape is dropped. So the text of a segment is
escaped from left to right, and what is proved about one step holds in front of any other text.

Main statement: every non-empty list of segments is read back from its legacy name, with any prefix,
with or without a hash, and with any suffix.
-/

namespace CrateLedger.Mangled.Legacy

/-! ## Writing -/

/-- What stands between two dollar signs for a code point that cannot stand for itself. -/
def codeOf (c : CodePoint) : List Char :=
  if c = '@' then ['S', 'P']
  else if c = '*' then ['B', 'P']
  else if c = '&' then ['R', 'F']
  else if c = '<' then ['L', 'T']
  else if c = '>' then ['G', 'T']
  else if c = '(' then ['L', 'P']
  else if c = ')' then ['R', 'P']
  else if c = ',' then ['C']
  else 'u' :: Nat.toDigits 16 c.val

/-- A single code point. ASCII letters, digits and the underscore stand for themselves. -/
def escapePoint (c : CodePoint) : List Char :=
  if isIdentifierPart c then [c.toChar] else '$' :: codeOf c ++ ['$']

/-- A text from left to right, with the path separator and the arrow as units. -/
def escapeFrom : Text → List Char
  | [] => []
  | [c] => escapePoint c
  | c :: d :: rest =>
    if c = ':' ∧ d = ':' then '.' :: '.' :: escapeFrom rest
    else if c = '-' ∧ d = '>' then '.' :: '$' :: 'G' :: 'T' :: '$' :: escapeFrom rest
    else escapePoint c ++ escapeFrom (d :: rest)

/-- A segment. An underscore keeps an escape from coming first. -/
def escape (segment : Text) : List Char :=
  match escapeFrom segment with
  | '$' :: rest => '_' :: '$' :: rest
  | s => s

/-- An element with its length in front. -/
def lengthPrefixed (element : List Char) : List Char :=
  Nat.toDigits 10 element.length ++ element

/-- The element of a hash. -/
def hashElement (digits : List Char) : List Char := 'h' :: digits

/-- A legacy name behind its prefix: the segments, the hash if there is one, and the terminator. -/
def mangled (segments : List Text) (hash : Option (List Char)) : List Char :=
  (segments.map escape ++ (hash.map hashElement).toList).flatMap lengthPrefixed ++ ['E']

/-- A segment that a legacy name can spell. An underscore in front of an escape would be dropped. -/
structure IsSegment (segment : Text) : Prop where
  /-- It is not empty. -/
  nonempty : segment ≠ []
  /-- It does not start with a digit. -/
  digit : ∀ c ∈ segment.head?, ¬ c.toChar.isDigit
  /-- It does not start with an underscore in front of an escape. -/
  underscore : ∀ rest, segment = ('_' : CodePoint) :: rest → (escapeFrom rest).head? ≠ some '$'

/-- The digits of a hash: sixteen lower-case hexadecimal digits. -/
structure IsHash (digits : List Char) : Prop where
  /-- There are sixteen. -/
  length : digits.length = 16
  /-- All of them are hexadecimal digits. -/
  hex : digits.all Numeral.isHexDigit = true

/-! ## Code points -/

/-- A letter, digit or underscore is the code point of its character. -/
theorem exists_char_of_isIdentifierPart {c : CodePoint} (hc : isIdentifierPart c = true) :
    ∃ x : Char, c = CodePoint.ofChar x ∧ (x.isAlphanum = true ∨ x = '_') := by
  have hpart := hc
  rw [isIdentifierPart, Bool.or_eq_true, decide_eq_true_eq] at hpart
  rcases hpart with halnum | rfl
  · refine ⟨c.toChar, (CodePoint.ofChar_toChar ?_).symm, Or.inl halnum⟩
    by_contra hs
    have hreplaced : c.toChar = '\uFFFD' := by
      rw [CodePoint.toChar, if_pos (by simpa using hs)]
    rw [hreplaced] at halnum
    exact absurd halnum (by decide)
  · exact ⟨'_', rfl, Or.inr rfl⟩

theorem isAlphanum_of_isHexDigit {x : Char} (hx : Numeral.isHexDigit x = true) :
    x.isAlphanum = true := by
  simp only [Numeral.isHexDigit, Bool.or_eq_true, Bool.and_eq_true, decide_eq_true_eq] at hx
  rcases hx with hx | hx
  · simp [Char.isAlphanum, hx]
  · have hlower : x.isLower = true := by
      show (x.val ≥ 97 && x.val ≤ 122) = true
      rw [Bool.and_eq_true, decide_eq_true_eq, decide_eq_true_eq]
      exact ⟨hx.1, Char.le_trans hx.2 (by decide : 'f' ≤ 'z')⟩
    have halpha : x.isAlpha = true := Bool.or_eq_true_iff.2 (Or.inr hlower)
    exact Bool.or_eq_true_iff.2 (Or.inl halpha)

theorem ne_of_isAlphanum_or {x : Char} (hx : x.isAlphanum = true ∨ x = '_') :
    x ≠ '$' ∧ x ≠ '.' := by
  rcases hx with hx | rfl
  · constructor
    · rintro rfl
      exact absurd hx (by decide)
    · rintro rfl
      exact absurd hx (by decide)
  · decide

/-- A code is that of a character with an escape of its own, or spells the code point. -/
theorem codeOf_cases (c : CodePoint) :
    (∃ e ∈ escapes, c = CodePoint.ofChar e.2 ∧ codeOf c = e.1)
      ∨ codeOf c = 'u' :: Nat.toDigits 16 c.val := by
  by_cases h : ∃ e ∈ escapes, c = CodePoint.ofChar e.2
  · obtain ⟨e, he, rfl⟩ := h
    refine .inl ⟨e, he, rfl, ?_⟩
    fin_cases he <;> rfl
  · have hne : ∀ e ∈ escapes, c ≠ CodePoint.ofChar e.2 := fun e he heq => h ⟨e, he, heq⟩
    simp only [escapes, List.forall_mem_cons] at hne
    obtain ⟨h1, h2, h3, h4, h5, h6, h7, h8, -⟩ := hne
    refine .inr ?_
    rw [codeOf, if_neg h1, if_neg h2, if_neg h3, if_neg h4, if_neg h5, if_neg h6, if_neg h7,
      if_neg h8]

/-- No two characters share an escape. -/
theorem expand_of_mem_escapes : ∀ e ∈ escapes, expand e.1 = .ok [CodePoint.ofChar e.2] := by
  intro e he
  fin_cases he <;> rfl

theorem isAlphanum_of_mem_escapes : ∀ e ∈ escapes, ∀ x ∈ e.1, x.isAlphanum = true := by
  have hall : (escapes.all fun e => e.1.all Char.isAlphanum) = true := by decide
  intro e he
  exact List.all_eq_true.1 (List.all_eq_true.1 hall e he)

theorem expand_codeOf (c : CodePoint) : expand (codeOf c) = .ok [c] := by
  rcases codeOf_cases c with ⟨e, he, rfl, hcode⟩ | hcode
  · rw [hcode]
    exact expand_of_mem_escapes e he
  · obtain ⟨d, ds, hdigits⟩ := List.exists_cons_of_ne_nil
      (Numeral.toDigits_ne_nil (by decide : 1 < 16) c.val)
    have hhex : (d :: ds).all Numeral.isHexDigit = true := by
      rw [← hdigits, List.all_eq_true]
      exact fun x hx => Numeral.isHexDigit_of_mem_toDigits hx
    have hvalue : Numeral.readHex (d :: ds) = c.val := by
      rw [← hdigits, Numeral.readHex_toDigits]
    have hpoint : codePoint c.val = .ok c := by
      rw [codePoint, dif_pos c.isLt]
    -- No escape in the table has the letter of the hexadecimal ones.
    have hunknown : escapes.lookup ('u' :: d :: ds) = none := rfl
    rw [hcode, hdigits]
    unfold expand
    simp only [hunknown, hhex, if_true, hvalue, hpoint]
    rfl

theorem isAlphanum_of_mem_codeOf {c : CodePoint} {x : Char} (hx : x ∈ codeOf c) :
    x.isAlphanum = true := by
  rcases codeOf_cases c with ⟨e, he, -, hcode⟩ | hcode
  · exact isAlphanum_of_mem_escapes e he x (hcode ▸ hx)
  · rw [hcode] at hx
    rcases List.mem_cons.1 hx with rfl | hx
    · decide
    · exact isAlphanum_of_isHexDigit (Numeral.isHexDigit_of_mem_toDigits hx)

theorem not_mem_codeOf (c : CodePoint) : '$' ∉ codeOf c := by
  intro h
  exact (ne_of_isAlphanum_or (Or.inl (isAlphanum_of_mem_codeOf h))).1 rfl

/-! ## Escapes -/

/-- An escape between dollar signs is read on its own. -/
theorem unescapeFrom_escape {code : List Char} (hcode : '$' ∉ code) (rest : List Char) :
    unescapeFrom ('$' :: (code ++ '$' :: rest)) =
      (do return (← expand code) ++ (← unescapeFrom rest)) := by
  obtain ⟨htake, hdrop⟩ := span_ne_append hcode rest
  rw [unescapeFrom]
  split
  · next h => rw [hdrop] at h; cases h
  · next h =>
    rw [hdrop] at h
    cases h
    rw [htake]

/-- A single code point is read back in front of any other text. -/
theorem unescapeFrom_escapePoint (c : CodePoint) (rest : List Char) :
    unescapeFrom (escapePoint c ++ rest) = (do return c :: (← unescapeFrom rest)) := by
  unfold escapePoint
  split
  · next hc =>
    obtain ⟨x, rfl, hx⟩ := exists_char_of_isIdentifierPart hc
    obtain ⟨hdollar, hdot⟩ := ne_of_isAlphanum_or hx
    rw [CodePoint.toChar_ofChar, List.singleton_append, unescapeFrom]
    · exact fun h => hdollar h
    · exact fun _ h => absurd h hdot
    · exact fun _ h => absurd h hdot
  · rw [List.append_assoc, List.cons_append, List.singleton_append,
      unescapeFrom_escape (not_mem_codeOf c), expand_codeOf]
    rfl

/-- Undoing the escapes of a text gives the text. -/
theorem unescapeFrom_escapeFrom (t : Text) : unescapeFrom (escapeFrom t) = .ok t := by
  fun_induction escapeFrom t with
  | case1 => rw [unescapeFrom]
  | case2 c =>
    have hpoint := unescapeFrom_escapePoint c []
    rw [List.append_nil] at hpoint
    rw [hpoint, unescapeFrom]
    rfl
  | case3 c d rest h ih =>
    obtain ⟨rfl, rfl⟩ := h
    rw [unescapeFrom, ih]
    rfl
  | case4 c d rest _ h ih =>
    obtain ⟨rfl, rfl⟩ := h
    rw [unescapeFrom, ih]
    rfl
  | case5 c d rest _ _ ih =>
    rw [unescapeFrom_escapePoint, ih]
    rfl

theorem escapePoint_ne_nil (c : CodePoint) : escapePoint c ≠ [] := by
  unfold escapePoint
  split <;> simp

theorem eq_of_escapePoint {c : CodePoint} {s : List Char} (h : escapePoint c = '_' :: s) :
    c = '_' ∧ s = [] := by
  unfold escapePoint at h
  split at h
  · next hc =>
    obtain ⟨x, rfl, -⟩ := exists_char_of_isIdentifierPart hc
    rw [CodePoint.toChar_ofChar, List.cons.injEq] at h
    exact ⟨congrArg CodePoint.ofChar h.1, h.2.symm⟩
  · rw [List.cons_append, List.cons.injEq] at h
    exact absurd h.1 (by decide)

/-- An escaped text that starts with an underscore is that of a text that does. -/
theorem exists_of_escapeFrom {t : Text} {s : List Char} (h : escapeFrom t = '_' :: s) :
    ∃ rest, t = ('_' : CodePoint) :: rest ∧ s = escapeFrom rest := by
  unfold escapeFrom at h
  split at h
  · cases h
  · next c =>
    obtain ⟨rfl, rfl⟩ := eq_of_escapePoint h
    exact ⟨[], rfl, rfl⟩
  · next c d rest =>
    split_ifs at h with h1 h2
    · cases h
    · cases h
    · obtain ⟨x, xs, hx⟩ := List.exists_cons_of_ne_nil (escapePoint_ne_nil c)
      rw [hx, List.cons_append, List.cons.injEq] at h
      obtain ⟨rfl, hxs⟩ := eq_of_escapePoint (s := xs) (by rw [hx, h.1])
      refine ⟨d :: rest, rfl, ?_⟩
      rw [← h.2, hxs, List.nil_append]

/-- Undoing the escapes of a segment gives the segment. -/
theorem unescape_escape {segment : Text} (h : IsSegment segment) :
    unescape (escape segment) = .ok segment := by
  have hback := unescapeFrom_escapeFrom segment
  unfold escape
  split
  · next rest hfrom =>
    rw [hfrom] at hback
    exact hback
  · next hfrom =>
    unfold unescape
    split
    · next rest hstart =>
      obtain ⟨tail, rfl, htail⟩ := exists_of_escapeFrom hstart
      have := h.underscore tail rfl
      rw [← htail] at this
      exact absurd rfl this
    · exact hback

/-- The characters that escaped segments consist of. -/
def IsWritten (x : Char) : Prop := x.isAlphanum = true ∨ x ∈ ['_', '$', '.']

theorem isWritten_of_mem_escapePoint {c : CodePoint} {x : Char} (hx : x ∈ escapePoint c) :
    IsWritten x := by
  unfold escapePoint at hx
  split at hx
  · next hc =>
    obtain ⟨y, rfl, hy⟩ := exists_char_of_isIdentifierPart hc
    rw [CodePoint.toChar_ofChar, List.mem_singleton] at hx
    rcases hy with hy | rfl
    · exact Or.inl (hx ▸ hy)
    · exact Or.inr (by rw [hx]; decide)
  · rw [List.mem_append, List.mem_cons, List.mem_singleton] at hx
    rcases hx with (rfl | hx) | rfl
    · exact Or.inr (by decide)
    · exact Or.inl (isAlphanum_of_mem_codeOf hx)
    · exact Or.inr (by decide)

theorem isWritten_of_mem_escapeFrom {t : Text} {x : Char} (hx : x ∈ escapeFrom t) :
    IsWritten x := by
  fun_induction escapeFrom t with
  | case1 => cases hx
  | case2 c => exact isWritten_of_mem_escapePoint hx
  | case3 c d rest _ ih =>
    simp only [List.mem_cons] at hx
    rcases hx with rfl | rfl | hx
    · exact Or.inr (by decide)
    · exact Or.inr (by decide)
    · exact ih hx
  | case4 c d rest _ _ ih =>
    simp only [List.mem_cons] at hx
    rcases hx with rfl | rfl | rfl | rfl | rfl | hx
    · exact Or.inr (by decide)
    · exact Or.inr (by decide)
    · exact Or.inl (by decide)
    · exact Or.inl (by decide)
    · exact Or.inr (by decide)
    · exact ih hx
  | case5 c d rest _ _ ih =>
    rcases List.mem_append.1 hx with hx | hx
    · exact isWritten_of_mem_escapePoint hx
    · exact ih hx

theorem isWritten_of_mem_escape {segment : Text} {x : Char} (hx : x ∈ escape segment) :
    IsWritten x := by
  unfold escape at hx
  split at hx
  · next rest hrest =>
    rcases List.mem_cons.1 hx with rfl | hx
    · exact Or.inr (by decide)
    · exact isWritten_of_mem_escapeFrom (hrest ▸ hx)
  · exact isWritten_of_mem_escapeFrom hx

/-- An element that a length can stand in front of: it takes up something, and the length is not
continued by it. -/
structure IsElement (element : List Char) : Prop where
  /-- It is not empty. -/
  nonempty : element ≠ []
  /-- It does not start with a digit. -/
  digit : ∀ c ∈ element.head?, ¬ c.isDigit
  /-- It is written in characters of escaped segments. -/
  written : ∀ x ∈ element, IsWritten x

theorem not_isDigit_of_escapePoint {c : CodePoint} (hc : ¬ c.toChar.isDigit) {x : Char}
    {s : List Char} (h : escapePoint c = x :: s) : ¬ x.isDigit := by
  unfold escapePoint at h
  split at h
  · rw [List.cons.injEq] at h
    exact h.1 ▸ hc
  · rw [List.cons_append, List.cons.injEq] at h
    rw [← h.1]
    decide

theorem isElement_escape {segment : Text} (h : IsSegment segment) : IsElement (escape segment) := by
  have hfrom : ∃ x s, escapeFrom segment = x :: s ∧ ¬ x.isDigit := by
    have hdigit := h.digit
    have hnonempty := h.nonempty
    unfold escapeFrom
    split
    · exact absurd rfl hnonempty
    · next c =>
      obtain ⟨x, s, hx⟩ := List.exists_cons_of_ne_nil (escapePoint_ne_nil c)
      exact ⟨x, s, hx, not_isDigit_of_escapePoint (hdigit c rfl) hx⟩
    · next c d rest =>
      split_ifs
      · exact ⟨'.', _, rfl, by decide⟩
      · exact ⟨'.', _, rfl, by decide⟩
      · obtain ⟨x, s, hx⟩ := List.exists_cons_of_ne_nil (escapePoint_ne_nil c)
        exact ⟨x, s ++ escapeFrom (d :: rest), by rw [hx, List.cons_append],
          not_isDigit_of_escapePoint (hdigit c rfl) hx⟩
  obtain ⟨x, s, hs, hx⟩ := hfrom
  refine ⟨?_, ?_, fun y hy => isWritten_of_mem_escape hy⟩
  · unfold escape
    rw [hs]
    split <;> simp
  · intro c hc
    unfold escape at hc
    rw [hs] at hc
    split at hc
    · cases hc
      decide
    · cases hc
      exact hx

theorem isElement_hashElement {digits : List Char} (h : IsHash digits) :
    IsElement (hashElement digits) := by
  refine ⟨List.cons_ne_nil _ _, ?_, ?_⟩
  · intro c hc
    cases hc
    decide
  · intro x hx
    rcases List.mem_cons.1 hx with rfl | hx
    · exact Or.inl (by decide)
    · exact Or.inl (isAlphanum_of_isHexDigit (List.all_eq_true.1 h.hex x hx))

/-! ## Elements -/

variable {limit : Nat}

/-- An element is read behind the digits of its length, which it does not go on with. -/
theorem element?_append {digits e : List Char} (hne : digits ≠ [])
    (hdigits : ∀ c ∈ digits, c.isDigit = true) (hlimit : digits.length ≤ limit)
    (hlength : Numeral.readDecimal digits = e.length) (hnonempty : e ≠ [])
    (hhead : ∀ c ∈ e.head?, c.isDigit = false) (rest : List Char) :
    element? limit (digits ++ e ++ rest) = .ok (some (e, rest)) := by
  have hhead' : ∀ c ∈ (e ++ rest).head?, c.isDigit = false := by
    rw [List.head?_append_of_ne_nil e hnonempty]
    exact hhead
  obtain ⟨htake, hdrop⟩ := span_append hdigits hhead'
  have hfits : ¬ (digits = [] ∨ e.length = 0 ∨ (e ++ rest).length < e.length) := by
    rintro (hnil | hzero | hshort)
    · exact hne hnil
    · exact hnonempty (List.length_eq_zero_iff.1 hzero)
    · rw [List.length_append] at hshort
      omega
  simp only [element?, List.append_assoc, htake, hdrop, hlength]
  rw [if_neg (Nat.not_lt.2 hlimit), if_neg hfits, List.take_left, List.drop_left]

/-- The terminator does not start an element. -/
theorem element?_terminator (rest : List Char) : element? limit ('E' :: rest) = .ok none := by
  have htake : ('E' :: rest).takeWhile Char.isDigit = [] :=
    List.takeWhile_cons_of_neg (by decide)
  rw [element?, htake]
  exact (if_neg (Nat.not_lt_zero limit)).trans (if_pos (.inl rfl))

/-- Elements are read one after the other, up to the terminator, in whatever way each is written. -/
theorem elements?_flatMap {α : Type} {written chars : α → List Char} {items : List α}
    (h : ∀ i ∈ items, ∀ rest, element? limit (written i ++ rest) = .ok (some (chars i, rest)))
    (rest : List Char) :
    elements? limit (items.flatMap written ++ 'E' :: rest) = .ok (some (items.map chars, rest)) := by
  induction items with
  | nil => rw [List.flatMap_nil, List.nil_append, elements?, List.map_nil]
  | cons i items ih =>
    have hhead := h i List.mem_cons_self (items.flatMap written ++ 'E' :: rest)
    have hrest := ih fun j hj => h j (List.mem_cons_of_mem _ hj)
    rw [List.flatMap_cons, List.append_assoc, elements?]
    · split
      · next herror =>
        rw [hhead] at herror
        cases herror
      · next hnone =>
        rw [hhead] at hnone
        cases hnone
      · next hsome =>
        rw [hhead] at hsome
        cases hsome
        rw [hrest]
        rfl
    · intro s hs
      rw [hs, element?_terminator] at hhead
      cases hhead

/-- An element is read with its length. -/
theorem element?_lengthPrefixed {e : List Char} (h : IsElement e)
    (hlimit : (Nat.toDigits 10 e.length).length ≤ limit) (rest : List Char) :
    element? limit (lengthPrefixed e ++ rest) = .ok (some (e, rest)) :=
  element?_append (Numeral.toDigits_ne_nil (by decide) _)
    (fun _ hx => Nat.isDigit_of_mem_toDigits (by decide) (by decide) hx) hlimit
    (Numeral.readDecimal_toDigits _) h.nonempty (fun c hc => Bool.eq_false_iff.2 (h.digit c hc)) rest

/-! ## The hash -/

theorem hash?_hashElement {digits : List Char} (h : IsHash digits) :
    hash? (hashElement digits) = some digits := by
  have htake : digits.take 16 = digits := List.take_of_length_le (by rw [h.length])
  have hdrop : digits.drop 16 = [] := List.drop_of_length_le (by rw [h.length])
  simp only [hash?, hashElement, htake, hdrop, h.length, h.hex, true_or, and_self, if_true]

/-- Only elements of the shape of a hash are taken for one. -/
theorem hash?_eq_none {e : List Char} (hwritten : ∀ x ∈ e, IsWritten x)
    (hshape : ∀ digits, IsHash digits → e ≠ hashElement digits) : hash? e = none := by
  unfold hash?
  split
  · next digits =>
    by_cases hhash : (digits.take 16).length = 16 ∧ (digits.take 16).all Numeral.isHexDigit ∧
        (digits.drop 16 = [] ∨ digits.drop 16 = ['\n'])
    · obtain ⟨hlength, hhex, hrest⟩ := hhash
      exfalso
      rcases hrest with hrest | hrest
      · have hall : digits.take 16 = digits :=
          List.take_of_length_le (List.drop_eq_nil_iff.1 hrest)
        rw [hall] at hlength hhex
        exact hshape digits ⟨hlength, hhex⟩ rfl
      · -- The line feed that a hash may end in is never written.
        have hmem : '\n' ∈ digits := List.mem_of_mem_drop (hrest ▸ List.mem_singleton_self _)
        have := hwritten '\n' (List.mem_cons_of_mem _ hmem)
        rcases this with hx | hx
        · exact absurd hx (by decide)
        · exact absurd hx (by decide)
    · exact if_neg hhash
  · rfl

/-- The hash is taken off the elements again, and nothing else is taken for it. -/
theorem splitHash_elements {segments : List Text} {hash : Option (List Char)}
    (hhash : ∀ d, hash = some d → IsHash d) (hne : segments ≠ [])
    (hlast : hash = none → 1 < segments.length → ∀ s ∈ segments.getLast?, ∀ digits, IsHash digits →
      escape s ≠ hashElement digits) :
    splitHash (segments.map escape ++ (hash.map hashElement).toList)
      = ⟨segments.map escape, hash⟩ := by
  cases hash with
  | some digits =>
    have hdigits := hash?_hashElement (hhash digits rfl)
    have hlength : (segments.map escape ++ [hashElement digits]).length > 1 := by
      have := List.length_pos_of_ne_nil hne
      rw [List.length_append, List.length_map, List.length_singleton]
      omega
    show splitHash (segments.map escape ++ [hashElement digits]) = _
    unfold splitHash
    rw [List.getLast?_concat, Option.bind_some, hdigits]
    simp only [if_pos hlength, List.dropLast_concat]
  | none =>
    rw [Option.map_none, Option.toList_none, List.append_nil]
    unfold splitHash
    by_cases hlength : 1 < segments.length
    · have hnone : (segments.map escape).getLast?.bind hash? = none := by
        rw [List.getLast?_map]
        cases hget : segments.getLast? with
        | none => rfl
        | some s =>
          exact hash?_eq_none (fun x hx => isWritten_of_mem_escape hx)
            (hlast rfl hlength s hget)
      rw [hnone]
    · split
      · rw [if_neg (by rwa [List.length_map])]
      · rfl

/-! ## Names -/

theorem prefixes_apart : ∀ s ∈ prefixes, ∀ p ∈ prefixes, p = s ∨ Apart p s := by decide

/-- A length that is not that of more than the text is read in it. -/
theorem length_toDigits_le_digitLimit {n : Nat} {s : List Char} (h : n ≤ s.length) :
    (Nat.toDigits 10 n).length ≤ digitLimit s :=
  le_max_of_le_right (Numeral.length_toDigits_mono (by decide) h)

theorem toNat_lt_of_isWritten {x : Char} (hx : IsWritten x) : x.toNat < 0x80 := by
  rcases hx with hx | hx
  · exact toNat_lt_of_isAlphanum hx
  · simp only [List.mem_cons, List.not_mem_nil, or_false] at hx
    rcases hx with rfl | rfl | rfl <;> decide

theorem isSuffix_of_isTail {tail : List Char} (h : IsTail tail) : isSuffix tail = true := by
  cases tail with
  | nil => rfl
  | cons c rest =>
    have hstart := h.start c rfl
    simpa [isSuffix] using hstart

variable {segments : List Text} {hash : Option (List Char)}

theorem isElement_of_mem (hsegments : ∀ s ∈ segments, IsSegment s)
    (hhash : ∀ d, hash = some d → IsHash d) :
    ∀ e ∈ segments.map escape ++ (hash.map hashElement).toList, IsElement e := by
  intro e he
  rcases List.mem_append.1 he with he | he
  · obtain ⟨s, hs, rfl⟩ := List.mem_map.1 he
    exact isElement_escape (hsegments s hs)
  · cases hash with
    | none => cases he
    | some digits =>
      rw [List.mem_singleton.1 he]
      exact isElement_hashElement (hhash digits rfl)

theorem toNat_lt_of_mem_mangled (hsegments : ∀ s ∈ segments, IsSegment s)
    (hhash : ∀ d, hash = some d → IsHash d) {x : Char} (hx : x ∈ mangled segments hash) :
    x.toNat < 0x80 := by
  rcases List.mem_append.1 hx with hx | hx
  · obtain ⟨e, he, hx⟩ := List.mem_flatMap.1 hx
    rcases List.mem_append.1 hx with hx | hx
    · have hdigit : x.isDigit = true := Nat.isDigit_of_mem_toDigits (by decide) (by decide) hx
      exact toNat_lt_of_isWritten (Or.inl (by simp [Char.isAlphanum, hdigit]))
    · exact toNat_lt_of_isWritten ((isElement_of_mem hsegments hhash e he).written x hx)
  · rw [List.mem_singleton.1 hx]
    decide

theorem length_le_of_mem_mangled {e : List Char}
    (he : e ∈ segments.map escape ++ (hash.map hashElement).toList) (tail : List Char) :
    e.length ≤ (mangled segments hash ++ tail).length := by
  obtain ⟨before, after, hsplit⟩ := List.append_of_mem he
  simp only [mangled, hsplit, List.flatMap_append, List.flatMap_cons, List.length_append,
    lengthPrefixed]
  omega

/-- The grammar recognises what is written, and takes it apart into its elements. -/
theorem parse?_mangled {start : Text} (hstart : start ∈ (["_ZN", "__ZN", "ZN"] : List Text))
    (hne : segments ≠ []) (hsegments : ∀ s ∈ segments, IsSegment s)
    (hhash : ∀ d, hash = some d → IsHash d)
    (hlast : hash = none → 1 < segments.length → ∀ s ∈ segments.getLast?, ∀ digits, IsHash digits →
      escape s ≠ hashElement digits)
    {tail : List Char} (htail : IsTail tail) :
    parse? (start ++ Text.ofChars (mangled segments hash ++ tail))
      = .ok (some ⟨segments.map escape, hash⟩) := by
  have hmem : start ∈ prefixes := by
    simp only [prefixes, List.mem_cons, List.not_mem_nil, or_false] at hstart ⊢
    tauto
  have hascii : ∀ c ∈ mangled segments hash ++ tail, c.toNat < 0x80 := by
    intro c hc
    rcases List.mem_append.1 hc with hc | hc
    · exact toNat_lt_of_mem_mangled hsegments hhash hc
    · exact htail.ascii c hc
  have hinner := asciiBehind?_append hmem prefixes_apart hascii
  have helements : elements? (digitLimit (mangled segments hash ++ tail))
      (mangled segments hash ++ tail)
      = .ok (some (segments.map escape ++ (hash.map hashElement).toList, tail)) := by
    have hread := elements?_flatMap (fun e he => element?_lengthPrefixed
      (isElement_of_mem hsegments hhash e he) (length_toDigits_le_digitLimit
        (length_le_of_mem_mangled he tail))) tail
    rw [List.map_id'] at hread
    have hsplit : mangled segments hash ++ tail
        = (segments.map escape ++ (hash.map hashElement).toList).flatMap lengthPrefixed
          ++ 'E' :: tail := by
      rw [mangled, List.append_assoc]
      rfl
    rw [hsplit] at hread ⊢
    exact hread
  have hnonempty : segments.map escape ++ (hash.map hashElement).toList ≠ [] := by
    simp [hne]
  simp only [parse?, hinner, helements, isSuffix_of_isTail htail, hnonempty, ne_eq,
    not_false_eq_true, and_self, if_true, splitHash_elements hhash hne hlast]

theorem mapM_unescape (hsegments : ∀ s ∈ segments, IsSegment s) :
    (segments.map escape).mapM unescape = .ok segments := by
  refine mapM_eq_ok.2 (List.forall₂_map_left_iff.2 (List.forall₂_same.2 ?_))
  exact fun s hs => unescape_escape (hsegments s hs)

/-- A path that is written as a legacy name is read back from it, whatever the prefix, the hash and
the suffix are. Without a hash the last of several segments must not look like one. -/
theorem decode_mangled {start : Text} (hstart : start ∈ (["_ZN", "__ZN", "ZN"] : List Text))
    (hne : segments ≠ []) (hsegments : ∀ s ∈ segments, IsSegment s)
    (hhash : ∀ d, hash = some d → IsHash d)
    (hlast : hash = none → 1 < segments.length → ∀ s ∈ segments.getLast?, ∀ digits, IsHash digits →
      escape s ≠ hashElement digits)
    {tail : List Char} (htail : IsTail tail) :
    ∃ n, Name.decode (start ++ Text.ofChars (mangled segments hash ++ tail)) = .ok n ∧
      n.scheme = .legacy ∧ n.segments = segments ∧ n.shown = Text.join "::" segments ∧
      n.hash? = hash.map Text.ofChars ∧ n.crate? = crate? segments := by
  refine ⟨.legacy segments (hash.map Text.ofChars), ?_, rfl, rfl, rfl, rfl, rfl⟩
  simp only [Name.decode, parse?_mangled hstart hne hsegments hhash hlast htail, Name.segments,
    mapM_unescape hsegments]
  rfl

/-- A method of a trait implementation, with all kinds of escapes, a hash and a suffix. -/
theorem decode_mangled_method :
    ∃ n, Name.decode ("_ZN62_$LT$$RF$my..Foo$u20$as$u20$core..Fn$LP$$RP$.$GT$$u3b1$..T$GT$" ++
        "4call17h0123456789abcdefE.llvm.7") = .ok n ∧ n.scheme = .legacy ∧
      n.segments = ["<&my::Foo as core::Fn()->\u03b1::T>", "call"] ∧
      n.shown = "<&my::Foo as core::Fn()->\u03b1::T>::call" ∧ n.hash? = some "0123456789abcdef" ∧
      n.crate? = some "my" := by
  have hstart : ("_ZN" : Text) ∈ (["_ZN", "__ZN", "ZN"] : List Text) := List.mem_cons_self
  have hsegments : ∀ s ∈ (["<&my::Foo as core::Fn()->\u03b1::T>", "call"] : List Text),
      IsSegment s := by
    intro s hs
    rw [List.mem_cons, List.mem_singleton] at hs
    rcases hs with rfl | rfl
    · exact ⟨nofun, fun c hc => by cases hc; decide, nofun⟩
    · exact ⟨nofun, fun c hc => by cases hc; decide, nofun⟩
  have hhash : ∀ d, some "0123456789abcdef".toList = some d → IsHash d := by
    intro d hd
    cases hd
    exact ⟨rfl, rfl⟩
  have htail : IsTail ".llvm.7".toList := by decide
  obtain ⟨n, hdecode, hscheme, hspelled, hshown, hdigits, hcrate⟩ :=
    decode_mangled hstart (List.cons_ne_nil _ _) hsegments hhash nofun htail
  refine ⟨n, ?_, hscheme, hspelled, ?_, hdigits, ?_⟩
  · rw [← hdecode]
    apply congrArg Name.decode
    decide +kernel
  · rw [hshown]
    decide +kernel
  · rw [hcrate]
    decide +kernel

end CrateLedger.Mangled.Legacy
