import CrateLedger.Proofs.Mangled.Legacy.Grammar
import CrateLedger.Proofs.Mangled.V0.Extension
import CrateLedger.Proofs.Mangled.V0.Name

/-!
# Suffixes change nothing

A toolchain may add a suffix to a name, and another one behind that. In a legacy name it follows the
terminator, which the lengths of the elements lead to. A v0 name says itself where it ends, if only
no reader goes on into the suffix or takes it for something else than the end.

Main statement: a name of either scheme is decoded in the same way with a suffix behind it.
-/

namespace CrateLedger.Mangled

variable {name : Text} {tail : List Char}

/-- A suffix behind a suffix is a suffix. -/
theorem IsTail.append {front : List Char} (hfront : IsTail front) (h : IsTail tail) :
    IsTail (front ++ tail) := by
  constructor
  · intro c hc
    rcases List.mem_append.1 hc with hc | hc
    · exact hfront.ascii c hc
    · exact h.ascii c hc
  · cases front with
    | nil => exact h.start
    | cons d ds => exact hfront.start

namespace Legacy

/-- A written name with a suffix behind it. -/
def Written.append (w : Written) (h : IsTail tail) : Written :=
  { w with tail := w.tail ++ tail, isTail := w.isTail.append h }

theorem Written.name_append (w : Written) (h : IsTail tail) :
    (w.append h).name = w.name ++ Text.ofChars tail := by
  simp [Written.append, name, inner, Text.ofChars]

/-- More text allows longer lengths. -/
theorem digitLimit_mono {s t : List Char} (h : s.length ≤ t.length) : digitLimit s ≤ digitLimit t :=
  max_le_max_left _ (Numeral.length_toDigits_mono (by decide) h)

/-- Lengths that are read are so with a suffix behind the name. -/
theorem Written.HasShortLengths.append {w : Written} (hshort : w.HasShortLengths) (h : IsTail tail) :
    (w.append h).HasShortLengths := by
  have hlength : w.inner.length ≤ (w.append h).inner.length := by
    simp [Written.append, inner]
  exact fun f hf => (hshort f hf).trans (digitLimit_mono hlength)

theorem decode_append {n : Mangled.Name} (h : Name.decode name = .ok n) (hscheme : n.scheme = .legacy)
    (htail : IsTail tail) : Name.decode (name ++ Text.ofChars tail) = .ok n := by
  obtain ⟨w, rfl⟩ := (scheme_eq_legacy_iff h).1 hscheme
  have hshort := Written.hasShortLengths_of_decode h
  rw [← w.name_append htail, Written.decode_name (hshort.append htail), ← h,
    Written.decode_name hshort]
  rfl

end Legacy

namespace V0

variable {path : TracedPath}

/-- The names that are recognised: a prefix, and a symbol that starts with no digit and ends at the
end or in front of a suffix. -/
theorem parse?_eq_some_iff :
    parse? name = .ok (some path) ↔
      ∃ start ∈ prefixes, ∃ inner p, name = start ++ Text.ofChars inner ∧
        (∀ c ∈ inner, c.toNat < 0x80) ∧ ¬ (inner = [] ∨ inner.head?.any Char.isDigit = true) ∧
        readSymbol (Level.memoised maxDepth) inner.toArray = .ok (path, p) ∧
        IsTail (inner.drop p) := by
  constructor
  · intro h
    unfold parse? at h
    split at h
    · cases h
    · rename_i inner hinner
      obtain ⟨start, hmem, rfl, hascii⟩ := exists_of_asciiBehind? hinner
      split at h
      · cases h
      · rename_i hstarts
        split at h
        · rename_i path' p hread
          have hrest : ∀ c ∈ inner.drop p, c.toNat < 0x80 := fun c hc =>
            hascii c (List.mem_of_mem_drop hc)
          refine ⟨start, hmem, inner, p, rfl, hascii, hstarts, ?_⟩
          split at h
          · rename_i hnil
            cases h
            refine ⟨hread, hrest, ?_⟩
            simp [hnil]
          · rename_i c cs hcons
            split at h
            · rename_i hc
              cases h
              refine ⟨hread, hrest, ?_⟩
              simpa [hcons] using hc
            · cases h
        · cases h
        · cases h
  · rintro ⟨start, hmem, inner, p, rfl, hascii, hstarts, hread, htail⟩
    rw [parse?, asciiBehind?_append hmem NameSpelling.prefixes_apart hascii]
    simp only [if_neg hstarts, hread]
    cases hrest : inner.drop p with
    | nil => rfl
    | cons c cs =>
      have hc := htail.start c (by rw [hrest]; rfl)
      simp only [if_pos hc]

theorem parse?_append (h : parse? name = .ok (some path)) (htail : IsTail tail) :
    parse? (name ++ Text.ofChars tail) = .ok (some path) := by
  obtain ⟨start, hmem, inner, p, rfl, hascii, hstarts, hread, hrest⟩ := parse?_eq_some_iff.1 h
  have hsuffix : StartsAsSuffix tail.toArray := by
    intro c hc
    rw [List.getElem?_toArray, ← List.head?_eq_getElem?] at hc
    exact htail.start c hc
  obtain ⟨hp, hread'⟩ := readSymbol_append hsuffix hread
  obtain ⟨c, cs, rfl⟩ := List.exists_cons_of_ne_nil (mt Or.inl hstarts)
  refine parse?_eq_some_iff.2 ⟨start, hmem, (c :: cs) ++ tail, p, ?_, ?_, ?_, ?_, ?_⟩
  · rw [List.append_assoc, Text.ofChars, Text.ofChars, Text.ofChars, List.map_append]
  · intro d hd
    rcases List.mem_append.1 hd with hd | hd
    · exact hascii d hd
    · exact htail.ascii d hd
  · simpa using hstarts
  · rw [← List.append_toArray]
    exact hread'
  · rw [List.drop_append_of_le_length (by simpa using hp)]
    exact hrest.append htail

theorem decode_append {n : Name} (h : Name.decode name = .ok n) (hscheme : n.scheme = .v0)
    (htail : IsTail tail) : Name.decode (name ++ Text.ofChars tail) = .ok n := by
  unfold Name.decode at h
  split at h
  · cases h
  · obtain ⟨segments, -, h⟩ := bind_eq_ok.1 h
    cases h
    cases hscheme
  · obtain ⟨path?, hparse, h⟩ := bind_eq_ok.1 h
    split at h
    · rename_i path
      cases h
      obtain ⟨start, hmem, inner, -, hname, -⟩ := parse?_eq_some_iff.1 hparse
      have hlegacy : Legacy.parse? (name ++ Text.ofChars tail) = .ok none := by
        rw [hname, List.append_assoc]
        exact NameSpelling.legacy_parse?_eq_none hmem _
      rw [Name.decode, hlegacy, parse?_append hparse htail]
      rfl
    · cases h
      cases hscheme

end V0

/-- **Suffixes.** A name that is decoded as one of a scheme is decoded in the same way, with the same
crate, segments, readable form and hash, if a suffix is added to it, whether or not it already ends
in one. -/
theorem decode_append_suffix {n : Name} (h : Name.decode name = .ok n)
    (hscheme : n.scheme ≠ .verbatim) (htail : IsTail tail) :
    Name.decode (name ++ Text.ofChars tail) = .ok n := by
  cases hn : n.scheme with
  | legacy => exact Legacy.decode_append h hn htail
  | v0 => exact V0.decode_append h hn htail
  | verbatim => exact absurd hn hscheme

/-- A legacy name and a v0 name that already end in suffixes, with others behind them. -/
theorem decode_append_sample :
    (∃ n, Name.decode "_ZN4core3fmtE.llvm.7" = .ok n ∧ n.crate? = some "core" ∧
      Name.decode "_ZN4core3fmtE.llvm.7$x" = .ok n) ∧
    ∃ n, Name.decode "_RNvINtC5alloc3VecDNtB4_8Iteratorp4ItemhEL_Kj3_E4pushC4main.llvm.1" = .ok n ∧
      n.crate? = some "alloc" ∧
      Name.decode "_RNvINtC5alloc3VecDNtB4_8Iteratorp4ItemhEL_Kj3_E4pushC4main.llvm.1.cold"
        = .ok n := by
  constructor
  · have hok : (Name.decode "_ZN4core3fmtE.llvm.7").toOption.map (fun n => (n.scheme, n.crate?))
        = some (Scheme.legacy, some ("core" : Text)) := by
      decide +kernel
    obtain ⟨n, hdecode, hlook⟩ := exists_eq_ok_of_toOption hok
    obtain ⟨hscheme, hcrate⟩ := Prod.mk.inj hlook
    have hlegacy : n.scheme ≠ .verbatim := by
      rw [hscheme]
      decide
    have htail : IsTail "$x".toList := by decide
    have hlonger := decode_append_suffix hdecode hlegacy htail
    have hname : ("_ZN4core3fmtE.llvm.7" : Text) ++ Text.ofChars "$x".toList
        = "_ZN4core3fmtE.llvm.7$x" := by
      decide +kernel
    rw [hname] at hlonger
    exact ⟨n, hdecode, hcrate, hlonger⟩
  · have hstart : ("_R" : Text) ∈ V0.prefixes := by decide
    have hname : ("_R" : Text) ++ Text.ofChars V0.NameSpelling.sample.chars
        = "_RNvINtC5alloc3VecDNtB4_8Iteratorp4ItemhEL_Kj3_E4pushC4main.llvm.1" := by
      decide +kernel
    have hdecode : Name.decode (("_R" : Text) ++ Text.ofChars V0.NameSpelling.sample.chars)
        = .ok (.v0 V0.NameSpelling.sample.path.traced) := by
      rw [Name.decode, V0.NameSpelling.legacy_parse?_eq_none hstart,
        V0.NameSpelling.parse?_spelled hstart V0.NameSpelling.sample_wellFormed]
      rfl
    rw [hname] at hdecode
    have htail : IsTail ".cold".toList := by decide
    have hlonger := decode_append_suffix hdecode (show Scheme.v0 ≠ .verbatim by decide) htail
    have hname' : ("_RNvINtC5alloc3VecDNtB4_8Iteratorp4ItemhEL_Kj3_E4pushC4main.llvm.1" : Text)
        ++ Text.ofChars ".cold".toList
          = "_RNvINtC5alloc3VecDNtB4_8Iteratorp4ItemhEL_Kj3_E4pushC4main.llvm.1.cold" := by
      decide +kernel
    rw [hname'] at hlonger
    exact ⟨_, hdecode, by decide +kernel, hlonger⟩

end CrateLedger.Mangled
