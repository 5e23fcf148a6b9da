import CrateLedger.Proofs.Checked
import CrateLedger.Proofs.Mangled.Legacy
import CrateLedger.Proofs.Mangled.V0.Numbers
import Mathlib.Data.List.TakeWhile

/-!
# What the elements of legacy names spell

An element is read from left to right. A dollar sign opens an escape that the next one closes, two
dots spell the path separator, a dot in front of the escape of `>` spells the head of an arrow, and
every other character spells itself. This is stated here as rules for any element, also for one that
no compiler writes: escapes that are not known or not closed stay as they are.

Main statements: what the rules give for an element is what is read from it, and an element can be
read unless one of its escapes spells a number that is no code point.
-/

namespace CrateLedger.Mangled.Legacy

/-! ## The rules -/

/-- The names that characters have in escapes. -/
def characterNames : List (List Char × Char) :=
  [("SP".toList, '@'), ("BP".toList, '*'), ("RF".toList, '&'), ("LT".toList, '<'),
    ("GT".toList, '>'), ("LP".toList, '('), ("RP".toList, ')'), ("C".toList, ',')]

/-- A number in an escape: the letter `u` and hexadecimal digits. -/
def IsNumber (code digits : List Char) : Prop :=
  code = 'u' :: digits ∧ digits ≠ [] ∧ digits.all Numeral.isHexDigit = true

/-- What an escape spells, by what stands between its dollar signs. -/
inductive CodeSpells : List Char → Text → Prop where
  /-- The name of a character. -/
  | named {code : List Char} {c : Char} (h : (code, c) ∈ characterNames) : CodeSpells code [↑c]
  /-- The number of a code point. -/
  | number {code digits : List Char} (h : IsNumber code digits) (c : CodePoint)
    (hc : Numeral.readHex digits = c.val) : CodeSpells code [c]
  /-- Anything else spells itself, dollar signs included. -/
  | unknown {code : List Char} (hname : ∀ c, (code, c) ∉ characterNames)
    (hnumber : ∀ digits, ¬ IsNumber code digits) :
    CodeSpells code (Text.ofChars ('$' :: code ++ ['$']))

/-- What characters of an element spell, from some position on. -/
inductive Spells : List Char → Text → Prop where
  | nil : Spells [] []
  /-- A dollar sign that is never closed ends the escapes. -/
  | unclosed {rest : List Char} (h : '$' ∉ rest) : Spells ('$' :: rest) (Text.ofChars ('$' :: rest))
  /-- An escape. -/
  | escape {code after : List Char} {t t' : Text} (hcode : '$' ∉ code) (h : CodeSpells code t)
    (hafter : Spells after t') : Spells ('$' :: (code ++ '$' :: after)) (t ++ t')
  /-- Two dots are the path separator. -/
  | separator {rest : List Char} {t : Text} (h : Spells rest t) :
    Spells ('.' :: '.' :: rest) ("::" ++ t)
  /-- A dot in front of the escape of `>` is the shaft of an arrow. -/
  | arrow {rest : List Char} {t : Text} (h : Spells rest t) :
    Spells ('.' :: '$' :: 'G' :: 'T' :: '$' :: rest) ("->" ++ t)
  /-- Every other character is itself. -/
  | plain {c : Char} {rest : List Char} {t : Text} (hdollar : c ≠ '$')
    (hseparator : ∀ s, c :: rest ≠ '.' :: '.' :: s)
    (harrow : ∀ s, c :: rest ≠ '.' :: '$' :: 'G' :: 'T' :: '$' :: s) (h : Spells rest t) :
    Spells (c :: rest) (↑c :: t)

/-- What an element spells. An underscore in front of an escape is dropped. -/
inductive ElementSpells : List Char → Text → Prop where
  | dropped {rest : List Char} {t : Text} (h : Spells ('$' :: rest) t) :
    ElementSpells ('_' :: '$' :: rest) t
  | whole {element : List Char} {t : Text} (hstart : ∀ s, element ≠ '_' :: '$' :: s)
    (h : Spells element t) : ElementSpells element t

/-! ## Codes -/

variable {code digits other s element : List Char} {t : Text}

theorem lookup_escapes {c : Char} : escapes.lookup code = some c ↔ (code, c) ∈ characterNames := by
  constructor
  · intro h
    obtain ⟨before, after, hsplit, -⟩ := List.lookup_eq_some_iff.1 h
    have hmem : (code, c) ∈ escapes := hsplit ▸ List.mem_append_right _ List.mem_cons_self
    exact hmem
  · intro h
    have hall : ∀ e ∈ characterNames, escapes.lookup e.1 = some e.2 := by decide
    exact hall (code, c) h

theorem lookup_escapes_eq_none : escapes.lookup code = none ↔
    ∀ c, (code, c) ∉ characterNames := by
  constructor
  · intro h c hc
    rw [lookup_escapes.2 hc] at h
    cases h
  · intro h
    by_contra hsome
    obtain ⟨c, hc⟩ := Option.ne_none_iff_exists'.1 hsome
    exact h c (lookup_escapes.1 hc)

theorem not_named_of_isNumber (h : IsNumber code digits) : escapes.lookup code = none := by
  obtain ⟨rfl, -⟩ := h
  simp [escapes, List.lookup_cons]

/-- The name of a character is looked up in the table. -/
theorem expand_of_named {c : Char} (h : (code, c) ∈ characterNames) :
    expand code = .ok [CodePoint.ofChar c] :=
  expand_of_mem_escapes (code, c) h

/-- The number in an escape is looked up as a code point. -/
theorem expand_of_isNumber (h : IsNumber code digits) :
    expand code = (codePoint (Numeral.readHex digits)).map ([·]) := by
  have hnone := not_named_of_isNumber h
  obtain ⟨rfl, hne, hhex⟩ := h
  obtain ⟨d, ds, rfl⟩ := List.exists_cons_of_ne_nil hne
  unfold expand
  simp only [hnone, hhex, if_true]

/-- What is neither a name nor a number stays as it is. -/
theorem expand_of_unknown (hname : ∀ c, (code, c) ∉ characterNames)
    (hnumber : ∀ digits, ¬ IsNumber code digits) :
    expand code = .ok (Text.ofChars ('$' :: code ++ ['$'])) := by
  unfold expand
  rw [lookup_escapes_eq_none.2 hname]
  dsimp only
  split
  · rename_i d ds
    exact if_neg fun hhex => hnumber (d :: ds) ⟨rfl, List.cons_ne_nil _ _, hhex⟩
  · rfl

/-- An escape is a name, a number or neither. -/
theorem expand_eq_ok_iff : expand code = .ok t ↔ CodeSpells code t := by
  constructor
  · intro h
    cases hname : escapes.lookup code with
    | some c =>
      have hnamed := lookup_escapes.1 hname
      rw [expand_of_named hnamed] at h
      cases h
      exact .named hnamed
    | none =>
      by_cases hnumber : ∃ digits, IsNumber code digits
      · obtain ⟨digits, hdigits⟩ := hnumber
        rw [expand_of_isNumber hdigits, codePoint] at h
        split at h
        · cases h
          exact .number hdigits _ rfl
        · split at h <;> cases h
      · have hnone := lookup_escapes_eq_none.1 hname
        rw [expand_of_unknown hnone (not_exists.1 hnumber)] at h
        cases h
        exact .unknown hnone (not_exists.1 hnumber)
  · intro h
    cases h with
    | named hname => exact expand_of_named hname
    | number hnumber c hc =>
      rw [expand_of_isNumber hnumber, hc, codePoint, dif_pos c.isLt]
      rfl
    | unknown hname hnumber => exact expand_of_unknown hname hnumber

/-! ## Elements -/

/-- A dollar sign that is found is the first one. -/
theorem dollar_split {close : Char} {after : List Char}
    (h : s.dropWhile (fun x => decide (x ≠ '$')) = close :: after) :
    '$' ∉ s.takeWhile (fun x => decide (x ≠ '$')) ∧
      s = s.takeWhile (fun x => decide (x ≠ '$')) ++ '$' :: after := by
  constructor
  · intro hmem
    exact absurd (List.mem_takeWhile_imp hmem) (by simp)
  · have hclose : close = '$' := by
      have hhead := List.head?_dropWhile_not (fun x => decide (x ≠ '$')) s
      rw [h] at hhead
      simpa using hhead
    subst hclose
    rw [← h, List.takeWhile_append_dropWhile]

theorem dollar_split_unique {a b x y : List Char} (ha : '$' ∉ a) (hb : '$' ∉ b)
    (h : a ++ '$' :: x = b ++ '$' :: y) : a = b ∧ x = y := by
  obtain ⟨htake, hdrop⟩ := span_ne_append ha x
  obtain ⟨htake', hdrop'⟩ := span_ne_append hb y
  rw [h, htake'] at htake
  rw [h, hdrop'] at hdrop
  exact ⟨htake.symm, (List.cons.inj hdrop).2.symm⟩

/-- Reading what is left of an element follows the rules. -/
theorem unescapeFrom_eq_ok_iff : unescapeFrom s = .ok t ↔ Spells s t := by
  constructor
  · intro h
    fun_induction unescapeFrom s generalizing t with
    | case1 =>
      cases h
      exact .nil
    | case2 rest hdrop =>
      cases h
      refine .unclosed fun hmem => ?_
      exact absurd (List.dropWhile_eq_nil_iff.1 hdrop '$' hmem) (by simp)
    | case3 rest close after hdrop _ ih =>
      obtain ⟨hnone, hrest⟩ := dollar_split hdrop
      obtain ⟨t₁, hcode, h⟩ := bind_eq_ok.1 h
      obtain ⟨t₂, hafter, h⟩ := bind_eq_ok.1 h
      cases h
      have hspells := Spells.escape hnone (expand_eq_ok_iff.1 hcode) (ih hafter)
      rwa [← hrest] at hspells
    | case4 rest ih =>
      obtain ⟨t', ht', h⟩ := bind_eq_ok.1 h
      cases h
      exact .separator (ih ht')
    | case5 rest ih =>
      obtain ⟨t', ht', h⟩ := bind_eq_ok.1 h
      cases h
      exact .arrow (ih ht')
    | case6 c rest hdollar hseparator harrow ih =>
      obtain ⟨t', ht', h⟩ := bind_eq_ok.1 h
      cases h
      refine .plain (fun hc => hdollar hc) ?_ ?_ (ih ht')
      · rintro s heq
        obtain ⟨rfl, rfl⟩ := List.cons.inj heq
        exact hseparator s rfl rfl
      · rintro s heq
        obtain ⟨rfl, rfl⟩ := List.cons.inj heq
        exact harrow s rfl rfl
  · intro h
    induction h with
    | nil => rw [unescapeFrom]
    | @unclosed rest hrest =>
      have hdrop : rest.dropWhile (fun x => decide (x ≠ '$')) = [] :=
        List.dropWhile_eq_nil_iff.2 fun x hx => decide_eq_true fun heq => hrest (heq ▸ hx)
      rw [unescapeFrom]
      split
      · rfl
      · rename_i hcons
        rw [hdrop] at hcons
        cases hcons
    | escape hcode hspells _ ih =>
      rw [unescapeFrom_escape hcode, expand_eq_ok_iff.2 hspells, ih]
      rfl
    | separator _ ih =>
      rw [unescapeFrom, ih]
      rfl
    | arrow _ ih =>
      rw [unescapeFrom, ih]
      rfl
    | @plain c rest t hdollar hseparator harrow _ ih =>
      rw [unescapeFrom, ih]
      · rfl
      · exact fun hc => hdollar hc
      · rintro s rfl rfl
        exact hseparator s rfl
      · rintro s rfl rfl
        exact harrow s rfl

/-- **What an element spells.** The text that is read from an element is the one that the rules give
for it, and there is no text if the rules give none. -/
theorem unescape_eq_ok_iff : unescape element = .ok t ↔ ElementSpells element t := by
  unfold unescape
  split
  · rename_i rest
    rw [unescapeFrom_eq_ok_iff]
    constructor
    · exact .dropped
    · intro h
      cases h with
      | dropped h => exact h
      | whole hstart => exact absurd rfl (hstart rest)
  · rename_i hstart
    rw [unescapeFrom_eq_ok_iff]
    constructor
    · exact .whole fun s heq => hstart s heq
    · intro h
      cases h with
      | dropped => exact absurd rfl (hstart _)
      | whole _ h => exact h

/-- An element spells one text. -/
theorem ElementSpells.unique {t' : Text} (h : ElementSpells element t)
    (h' : ElementSpells element t') : t = t' := by
  have hread := unescape_eq_ok_iff.2 h
  rw [unescape_eq_ok_iff.2 h'] at hread
  exact (Except.ok.inj hread).symm

/-- Elements spell one text each. -/
theorem ElementSpells.forall₂_unique {elements : List (List Char)} {ts ts' : List Text}
    (h : List.Forall₂ ElementSpells elements ts) (h' : List.Forall₂ ElementSpells elements ts') :
    ts = ts' := by
  induction h generalizing ts' with
  | nil =>
    cases h'
    rfl
  | cons hhead _ ih =>
    obtain _ | ⟨hhead', htail'⟩ := h'
    rw [hhead.unique hhead', ih htail']

/-! ## Escapes that cannot be undone -/

/-- A code stands between two dollar signs of a text that belong together. Dollar signs are paired
from left to right. -/
inductive EscapeIn (code : List Char) : List Char → Prop where
  | here (after : List Char) (hcode : '$' ∉ code) : EscapeIn code ('$' :: (code ++ '$' :: after))
  | behind (other : List Char) {s : List Char} (hother : '$' ∉ other) (h : EscapeIn code s) :
    EscapeIn code ('$' :: (other ++ '$' :: s))
  | skip {c : Char} {s : List Char} (hc : c ≠ '$') (h : EscapeIn code s) : EscapeIn code (c :: s)

/-- A code that spells a number that is no code point. -/
def IsBeyond (code : List Char) : Prop :=
  ∃ digits, IsNumber code digits ∧ 0x110000 ≤ Numeral.readHex digits

theorem escapeIn_cons_of_ne {c : Char} (hc : c ≠ '$') :
    EscapeIn code (c :: s) ↔ EscapeIn code s := by
  constructor
  · intro h
    cases h with
    | here => exact absurd rfl hc
    | behind => exact absurd rfl hc
    | skip _ h => exact h
  · exact .skip hc

theorem escapeIn_dollar (hother : '$' ∉ other) :
    EscapeIn code ('$' :: (other ++ '$' :: s)) ↔ code = other ∨ EscapeIn code s := by
  constructor
  · intro h
    generalize htext : other ++ '$' :: s = text at h
    cases h with
    | here after hcode =>
      exact .inl (dollar_split_unique hother hcode htext).1.symm
    | behind other' hother' h =>
      obtain ⟨-, rfl⟩ := dollar_split_unique hother hother' htext
      exact .inr h
    | skip hc => exact absurd rfl hc
  · rintro (rfl | h)
    · exact .here s hother
    · exact .behind other hother h

theorem not_escapeIn_of_notMem (h : '$' ∉ s) : ¬ EscapeIn code ('$' :: s) := by
  intro hescape
  cases hescape with
  | here after => simp at h
  | behind other => simp at h
  | skip hc => exact hc rfl

/-- The number of an escape fails if it is no code point. -/
theorem expand_eq_error_iff : (∃ e, expand code = .error e) ↔ IsBeyond code := by
  constructor
  · rintro ⟨e, h⟩
    by_cases hnumber : ∃ digits, IsNumber code digits
    · obtain ⟨digits, hdigits⟩ := hnumber
      refine ⟨digits, hdigits, codePoint_eq_error_iff.1 ?_⟩
      rw [expand_of_isNumber hdigits] at h
      cases hpoint : codePoint (Numeral.readHex digits) with
      | error e' => exact ⟨e', rfl⟩
      | ok c =>
        rw [hpoint] at h
        cases h
    · cases hname : escapes.lookup code with
      | some c =>
        rw [expand_of_named (lookup_escapes.1 hname)] at h
        cases h
      | none =>
        rw [expand_of_unknown (lookup_escapes_eq_none.1 hname) (not_exists.1 hnumber)] at h
        cases h
  · rintro ⟨digits, hdigits, hbeyond⟩
    obtain ⟨e, he⟩ := codePoint_eq_error_iff.2 hbeyond
    refine ⟨e, ?_⟩
    rw [expand_of_isNumber hdigits, he]
    rfl

theorem exists_map_eq_error {x : Except NumberError Text} {f : Text → Text} :
    (∃ e, (do return f (← x)) = .error e) ↔ ∃ e, x = .error e := by
  cases x with
  | error e => simp [bind, Except.bind]
  | ok t => simp [bind, Except.bind, pure, Except.pure]

theorem exists_append_eq_error {x y : Except NumberError Text} :
    (∃ e, (do return (← x) ++ (← y)) = .error e) ↔
      (∃ e, x = .error e) ∨ ∃ e, y = .error e := by
  cases x with
  | error e => simp [bind, Except.bind]
  | ok t => cases y <;> simp [bind, Except.bind, pure, Except.pure]

/-- The escapes of a text can be undone unless one of them spells a number that is no code point. -/
theorem unescapeFrom_eq_error_iff :
    (∃ e, unescapeFrom s = .error e) ↔ ∃ code, EscapeIn code s ∧ IsBeyond code := by
  fun_induction unescapeFrom s with
  | case1 =>
    constructor
    · rintro ⟨e, h⟩
      cases h
    · rintro ⟨code, h, -⟩
      cases h
  | case2 rest hdrop =>
    -- The dollar sign is never closed.
    have hnone : '$' ∉ rest := by
      intro hmem
      exact absurd (List.dropWhile_eq_nil_iff.1 hdrop '$' hmem) (by simp)
    constructor
    · rintro ⟨e, h⟩
      cases h
    · rintro ⟨code, h, -⟩
      exact absurd h (not_escapeIn_of_notMem hnone)
  | case3 rest close after hdrop _ ih =>
    obtain ⟨hnone, hrest⟩ := dollar_split hdrop
    set other := rest.takeWhile fun x => decide (x ≠ '$')
    rw [hrest, exists_append_eq_error, ih, expand_eq_error_iff]
    simp only [escapeIn_dollar hnone, or_and_right, exists_or, exists_eq_left]
  | case4 rest ih =>
    simp only [exists_map_eq_error, ih, escapeIn_cons_of_ne (show '.' ≠ '$' by decide)]
  | case5 rest ih =>
    have harrow : ∀ code, EscapeIn code ('.' :: '$' :: 'G' :: 'T' :: '$' :: rest) ↔
        code = ['G', 'T'] ∨ EscapeIn code rest := by
      intro code
      rw [escapeIn_cons_of_ne (by decide)]
      have hnone : '$' ∉ ['G', 'T'] := by decide
      exact escapeIn_dollar hnone
    have hknown : ¬ IsBeyond ['G', 'T'] := by
      rintro ⟨digits, ⟨h, -⟩, -⟩
      cases h
    simp only [exists_map_eq_error, ih, harrow, or_and_right, exists_or, exists_eq_left, hknown,
      false_or]
  | case6 c rest hdollar _ _ ih =>
    have hskip : ∀ code, EscapeIn code (c :: rest) ↔ EscapeIn code rest :=
      fun code => escapeIn_cons_of_ne fun h => hdollar h
    simp only [exists_map_eq_error, ih, hskip]

/-- An underscore in front makes no difference. -/
theorem unescape_eq_error_iff (element : List Char) :
    (∃ e, unescape element = .error e) ↔ ∃ code, EscapeIn code element ∧ IsBeyond code := by
  unfold unescape
  split
  · rename_i rest
    simp only [unescapeFrom_eq_error_iff, escapeIn_cons_of_ne (show '_' ≠ '$' by decide)]
  · exact unescapeFrom_eq_error_iff

theorem segments_eq_error_iff (parts : Name) : (∃ e, parts.segments = .error e) ↔
    ∃ element ∈ parts.elements, ∃ code, EscapeIn code element ∧ IsBeyond code := by
  simp only [← unescape_eq_error_iff]
  constructor
  · rintro ⟨e, h⟩
    obtain ⟨element, hmem, he⟩ := exists_of_mapM_eq_error h
    exact ⟨element, hmem, e, he⟩
  · rintro ⟨element, hmem, e, he⟩
    cases hsegments : parts.segments with
    | error e' => exact ⟨e', rfl⟩
    | ok segments =>
      obtain ⟨t, ht⟩ := exists_mapM_eq_ok.1 ⟨segments, hsegments⟩ element hmem
      rw [he] at ht
      cases ht

end CrateLedger.Mangled.Legacy
