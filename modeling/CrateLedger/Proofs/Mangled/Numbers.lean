import CrateLedger.Proofs.Mangled.Legacy.Grammar

/-!
# Names that cannot be decoded

Decoding a name fails because of numbers that cannot be used. A legacy name fails exactly if it runs
into a length with too many digits or has an escape with the number of no code point, and a v0 name
only if a number that cannot be used stands in it. All other names are decoded.
-/

namespace CrateLedger.Mangled

/-- A legacy name with a length that has too many digits, or an escape that spells a number that is
no code point. -/
def LegacyBeyond (name : Text) : Prop :=
  (∃ o : Legacy.Overlong, o.name = name) ∨
  ∃ parts, Legacy.parse? name = .ok (some parts) ∧
    ∃ element ∈ parts.elements, ∃ code, Legacy.EscapeIn code element ∧ Legacy.IsBeyond code

/-- A text behind the prefix of a v0 name, in which a number stands that cannot be used. -/
def V0Beyond (name : Text) : Prop :=
  ∃ inner, Text.asciiBehind? V0.prefixes name = some inner ∧ V0.SpellsBeyond inner.toArray

theorem decode_of_legacyBeyond {name : Text} (h : LegacyBeyond name) :
    ∃ e, Name.decode name = .error e := by
  rcases h with hlong | ⟨parts, hparts, hbeyond⟩
  · obtain ⟨e, he⟩ := Legacy.parse?_eq_error_iff.2 hlong
    refine ⟨e, ?_⟩
    simp only [Name.decode, he]
  · obtain ⟨e, he⟩ := (Legacy.segments_eq_error_iff parts).2 hbeyond
    refine ⟨e, ?_⟩
    simp only [Name.decode, hparts, he]
    rfl

theorem decode_eq_error {name : Text} {e : NumberError} (h : Name.decode name = .error e) :
    LegacyBeyond name ∨ V0Beyond name := by
  unfold Name.decode at h
  split at h
  · rename_i e' hlong
    exact .inl (.inl (Legacy.parse?_eq_error_iff.1 ⟨e', hlong⟩))
  · rename_i parts hparts
    rcases bind_eq_error.1 h with hsegments | ⟨segments, -, h⟩
    · exact .inl (.inr ⟨parts, hparts, (Legacy.segments_eq_error_iff parts).1 ⟨e, hsegments⟩⟩)
    · cases h
  · rename_i hparts
    rcases bind_eq_error.1 h with hread | ⟨path, -, h⟩
    · exact .inr (V0.parse?_eq_error hread)
    · split at h <;> cases h

end CrateLedger.Mangled
