import CrateLedger.Proofs.Text

/-!
# What surrounds a name

Both grammars of symbol names announce a name with one of some prefixes, and both leave alone what a
toolchain adds behind it. No prefix begins another, so it does not matter in which order they are
tried.
-/

namespace CrateLedger.Mangled

/-- What may follow a complete name: nothing, or a suffix of ASCII characters that starts with a dot
or a dollar sign. -/
structure IsTail (tail : List Char) : Prop where
  /-- All characters are ASCII. -/
  ascii : ∀ c ∈ tail, c.toNat < 0x80
  /-- What there is starts with a dot or a dollar sign. -/
  start : ∀ c ∈ tail.head?, c = '.' ∨ c = '$'

instance (tail : List Char) : Decidable (IsTail tail) :=
  decidable_of_iff ((tail.all fun c => c.toNat < 0x80) = true
      ∧ (tail.head?.toList.all fun c => c = '.' || c = '$') = true)
    ⟨fun h => ⟨by simpa using h.1, by simpa using h.2⟩,
      fun h => ⟨by simpa using h.ascii, by simpa using h.start⟩⟩

/-- Two texts neither of which begins the other. -/
def Apart (s t : Text) : Prop := s.isPrefixOf t = false ∧ t.isPrefixOf s = false

instance (s t : Text) : Decidable (Apart s t) :=
  inferInstanceAs (Decidable (s.isPrefixOf t = false ∧ t.isPrefixOf s = false))

variable {prefixes : List Text} {start : Text}

/-- Texts that are apart stay so, whatever follows one of them. -/
theorem Apart.append {p : Text} (h : Apart p start) (rest : Text) :
    p.isPrefixOf (start ++ rest) = false := by
  obtain ⟨hleft, hright⟩ := h
  by_contra hbegins
  rw [Bool.not_eq_false, List.isPrefixOf_iff_prefix] at hbegins
  rcases List.prefix_or_prefix_of_prefix hbegins (List.prefix_append start rest) with hp | hs
  · rw [List.isPrefixOf_iff_prefix.2 hp] at hleft
    cases hleft
  · rw [List.isPrefixOf_iff_prefix.2 hs] at hright
    cases hright

/-- A prefix is told from others that are apart from it. -/
theorem findSome?_dropHead? (h : start ∈ prefixes)
    (hapart : ∀ p ∈ prefixes, p = start ∨ Apart p start) (rest : Text) :
    (prefixes.findSome? fun p => Text.dropHead? p (start ++ rest)) = some rest := by
  induction prefixes with
  | nil => cases h
  | cons p ps ih =>
    rw [List.findSome?_cons]
    rcases hapart p List.mem_cons_self with rfl | hp
    · rw [Text.dropHead?_append]
    · rw [Text.dropHead?_eq_none (hp.append rest)]
      refine ih ?_ fun q hq => hapart q (List.mem_cons_of_mem p hq)
      rcases List.mem_cons.1 h with rfl | h
      · have hself := hp.append []
        rw [List.isPrefixOf_iff_prefix.2 (List.prefix_append start [])] at hself
        cases hself
      · exact h

/-- What follows a prefix of one grammar is no name of another all of whose prefixes are apart. -/
theorem asciiBehind?_eq_none (hapart : ∀ p ∈ prefixes, Apart p start) (rest : Text) :
    Text.asciiBehind? prefixes (start ++ rest) = none := by
  have hnone : (prefixes.findSome? fun p => Text.dropHead? p (start ++ rest)) = none := by
    rw [List.findSome?_eq_none_iff]
    intro p hp
    exact Text.dropHead?_eq_none ((hapart p hp).append rest)
  rw [Text.asciiBehind?, hnone]
  rfl

variable {chars : List Char}

/-- ASCII characters are found behind a prefix that is told from the others. -/
theorem asciiBehind?_append (h : start ∈ prefixes)
    (hapart : ∀ s ∈ prefixes, ∀ p ∈ prefixes, p = s ∨ Apart p s)
    (hascii : ∀ c ∈ chars, c.toNat < 0x80) :
    Text.asciiBehind? prefixes (start ++ Text.ofChars chars) = some chars := by
  rw [Text.asciiBehind?, findSome?_dropHead? h (hapart start h), Option.bind_some,
    Text.asciiChars?_ofChars hascii]

/-- What is found stands behind a prefix. -/
theorem exists_of_asciiBehind? {name : Text} (h : Text.asciiBehind? prefixes name = some chars) :
    ∃ start ∈ prefixes, name = start ++ Text.ofChars chars ∧ ∀ c ∈ chars, c.toNat < 0x80 := by
  obtain ⟨rest, hfind, hchars⟩ := Option.bind_eq_some_iff.1 h
  obtain ⟨start, hmem, hdrop⟩ := List.exists_of_findSome?_eq_some hfind
  obtain rfl := Text.eq_append_of_dropHead? hdrop
  obtain ⟨rfl, hascii⟩ := Text.asciiChars?_eq_some hchars
  exact ⟨start, hmem, rfl, hascii⟩

end CrateLedger.Mangled
