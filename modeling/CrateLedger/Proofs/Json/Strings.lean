import CrateLedger.Json.Reader
import CrateLedger.Json.Writer
import CrateLedger.Proofs.Text
import CrateLedger.Proofs.Text.Numeral

/-!
# JSON strings are read back

A code point beyond `U+FFFF` is written as two escapes, and so are a high and a low surrogate that
stand next to each other in a text: the two have one spelling. A reader takes it for the single code
point. Reading what was written therefore gives the text with such neighbours put together, and
gives the text itself if and only if it has none.
-/

namespace CrateLedger

/-! ## Surrogate pairs -/

namespace CodePoint

theorem joined?_eq_some {high low c : CodePoint} (h : joined? high low = some c) :
    (0xD800 ≤ high.val ∧ high.val ≤ 0xDBFF) ∧ (0xDC00 ≤ low.val ∧ low.val ≤ 0xDFFF)
      ∧ c.val = 0x10000 + (high.val - 0xD800) * 0x400 + (low.val - 0xDC00) := by
  unfold joined? at h
  split at h
  · rename_i hrange
    rw [← Option.some.inj h]
    exact ⟨hrange.1, hrange.2, rfl⟩
  · cases h

/-- A code point beyond the code units stands for two surrogates. -/
theorem exists_joined {c : CodePoint} (h : 0x10000 ≤ c.val) :
    ∃ high low, joined? high low = some c ∧ high.val = 0xD800 + (c.val - 0x10000) / 0x400
      ∧ low.val = 0xDC00 + (c.val - 0x10000) % 0x400 := by
  have hlimit := c.isLt
  refine ⟨⟨0xD800 + (c.val - 0x10000) / 0x400, by omega⟩,
    ⟨0xDC00 + (c.val - 0x10000) % 0x400, by omega⟩, ?_, rfl, rfl⟩
  unfold joined?
  rw [dif_pos (by simp only; omega)]
  exact congrArg some (Fin.ext (by simp only; omega))

end CodePoint

namespace Text

/-- A text with each high surrogate and the low one right behind it put together. -/
def paired : Text → Text
  | [] => []
  | [c] => [c]
  | c :: d :: rest =>
    match CodePoint.joined? c d with
    | some e => e :: paired rest
    | none => c :: paired (d :: rest)

/-- Whether no high surrogate of a text has a low one right behind it. -/
def IsPaired (t : Text) : Prop := t.IsChain fun c d => CodePoint.joined? c d = none

instance (t : Text) : Decidable t.IsPaired := inferInstanceAs (Decidable (List.IsChain _ t))

theorem length_paired_le (t : Text) : t.paired.length ≤ t.length := by
  induction t using paired.induct with
  | case1 => exact Nat.le_refl _
  | case2 c => exact Nat.le_refl _
  | case3 c d rest e hjoined ih =>
    simp only [paired, hjoined, List.length_cons]
    omega
  | case4 c d rest hjoined ih =>
    simp only [paired, hjoined, List.length_cons] at ih ⊢
    omega

/-- Exactly the texts without such neighbours stay as they are. -/
theorem paired_eq_self_iff (t : Text) : t.paired = t ↔ t.IsPaired := by
  induction t using paired.induct with
  | case1 => simp [paired, IsPaired]
  | case2 c => simp [paired, IsPaired]
  | case3 c d rest e hjoined ih =>
    -- A pair that is put together makes the text shorter.
    have hlength := length_paired_le rest
    have hne : paired (c :: d :: rest) ≠ c :: d :: rest := by
      intro heq
      have hcons := congrArg List.length heq
      simp only [paired, hjoined, List.length_cons] at hcons
      omega
    simp [IsPaired, hne, hjoined]
  | case4 c d rest hjoined ih =>
    simp only [paired, hjoined, List.cons.injEq, true_and, ih, IsPaired, List.isChain_cons_cons]

end Text

/-! ## Code units -/

namespace Numeral

theorem ofDigits_replicate_zero (base count : Nat) (ds : List Nat) :
    ofDigits base (List.replicate count 0 ++ ds) = ofDigits base ds := by
  induction count with
  | zero => rfl
  | succ count ih =>
    rw [← ih, List.replicate_succ, List.cons_append]
    simp [ofDigits]

/-- Four hexadecimal digits spell a number that has no more. -/
theorem exists_paddedHex_four {n : Nat} (h : n < 0x10000) :
    ∃ a < 16, ∃ b < 16, ∃ c < 16, ∃ d < 16, ofDigits 16 [a, b, c, d] = n
      ∧ paddedHex 4 n = Text.ofChars ([a, b, c, d].map Nat.digitChar) := by
  obtain ⟨digits, hdigits⟩ : ∃ digits, digits
      = List.replicate (4 - (Nat.toDigits 16 n).length) '0' ++ Nat.toDigits 16 n := ⟨_, rfl⟩
  have hlength : digits.length = 4 := by
    have hle := Nat.toDigits_length 16 n 4 (by decide) h
    rw [hdigits, List.length_append, List.length_replicate]
    omega
  have hchar : ∀ c ∈ digits, ∃ d < 16, c = Nat.digitChar d := by
    intro c hc
    rw [hdigits, List.mem_append] at hc
    rcases hc with hc | hc
    · exact ⟨0, by decide, List.eq_of_mem_replicate hc⟩
    · rw [toDigits_eq_spelled (by decide)] at hc
      exact exists_of_mem_spelled (by decide) hc
  have hvalue : readHex digits = n := by
    rw [hdigits, readHex, List.map_append, List.map_replicate]
    exact (ofDigits_replicate_zero 16 _ _).trans (readHex_toDigits n)
  obtain ⟨_, _, _, _, rfl⟩ := List.length_eq_four.1 hlength
  obtain ⟨a, ha, rfl⟩ := hchar _ List.mem_cons_self
  obtain ⟨b, hb, rfl⟩ := hchar _ (.tail _ List.mem_cons_self)
  obtain ⟨c, hc, rfl⟩ := hchar _ (.tail _ (.tail _ List.mem_cons_self))
  obtain ⟨d, hd, rfl⟩ := hchar _ (.tail _ (.tail _ (.tail _ List.mem_cons_self)))
  refine ⟨a, ha, b, hb, c, hc, d, hd, ?_, ?_⟩
  · rw [← hvalue]
    simp [readHex, digitValue_digitChar, ha, hb, hc, hd]
  · rw [paddedHex, ← hdigits]
    rfl

end Numeral

namespace Json

theorem hexDigit?_digitChar : ∀ d < 16,
    hexDigit? (CodePoint.ofChar (Nat.digitChar d)) = some d := by decide

/-- The digits of a code unit are read back. -/
theorem codeUnit?_paddedHex {n : Nat} (h : n < 0x10000) (rest : Text) :
    codeUnit? (Numeral.paddedHex 4 n ++ rest) = some (⟨n, h⟩, rest) := by
  obtain ⟨a, ha, b, hb, c, hc, d, hd, hvalue, hspelled⟩ := Numeral.exists_paddedHex_four h
  simp [hspelled, Text.ofChars, codeUnit?, hexDigit?_digitChar, ha, hb, hc, hd, hvalue, h]

/-! ## Escapes -/

/-- The four ways a code point is written. -/
inductive IsWritten (c : CodePoint) : Text → Prop where
  /-- By a letter. -/
  | letter (e : CodePoint) (hother : e ≠ 'u') (hletter : letterEscape? e = some c) :
      IsWritten c ['\\', e]
  /-- As itself. -/
  | plain (hquote : c ≠ '"') (hslash : c ≠ '\\') (hcontrol : 0x20 ≤ c.val) : IsWritten c [c]
  /-- By its number. -/
  | unit (h : c.val < 0x10000) : IsWritten c (unitEscape c.val)
  /-- By the two surrogates that stand for it. -/
  | pair (high low : CodePoint) (hjoined : CodePoint.joined? high low = some c) :
      IsWritten c (unitEscape high.val ++ unitEscape low.val)

theorem isWritten_writeCodePoint (c : CodePoint) : IsWritten c (writeCodePoint c) := by
  unfold writeCodePoint
  split_ifs with hquote hslash hn hr ht hb hf hplain hunit
  · exact hquote ▸ .letter '"' (by decide) (by decide)
  · exact hslash ▸ .letter '\\' (by decide) (by decide)
  · exact hn ▸ .letter 'n' (by decide) (by decide)
  · exact hr ▸ .letter 'r' (by decide) (by decide)
  · exact ht ▸ .letter 't' (by decide) (by decide)
  · exact hb ▸ .letter 'b' (by decide) (by decide)
  · exact hf ▸ .letter 'f' (by decide) (by decide)
  · exact .plain hquote hslash hplain.1
  · exact .unit hunit
  · obtain ⟨high, low, hjoined, hhigh, hlow⟩ := CodePoint.exists_joined (Nat.le_of_not_lt hunit)
    show IsWritten c (unitEscape _ ++ unitEscape _)
    rw [← hhigh, ← hlow]
    exact .pair high low hjoined

/-- A number that is no high surrogate stands for itself. -/
theorem unicodeEscape?_of_not_high {c : CodePoint} (h : c.val < 0x10000)
    (hhigh : ¬ (0xD800 ≤ c.val ∧ c.val ≤ 0xDBFF)) (rest : Text) :
    unicodeEscape? (Numeral.paddedHex 4 c.val ++ rest) = some (c, rest) := by
  simp only [unicodeEscape?, codeUnit?_paddedHex h, Option.bind_eq_bind, Option.bind_some,
    if_neg hhigh]
  rfl

/-- The escapes of a pair stand for one code point. -/
theorem unicodeEscape?_of_joined {high low c : CodePoint}
    (h : CodePoint.joined? high low = some c) (rest : Text) :
    unicodeEscape? (Numeral.paddedHex 4 high.val ++ (unitEscape low.val ++ rest))
      = some (c, rest) := by
  obtain ⟨hhigh, hlow, -⟩ := CodePoint.joined?_eq_some h
  have hunit : high.val < 0x10000 := by omega
  have hunit' : low.val < 0x10000 := by omega
  have hsecond : unitEscape low.val ++ rest
      = ('\\' : CodePoint) :: ('u' : CodePoint) :: (Numeral.paddedHex 4 low.val ++ rest) := rfl
  simp only [unicodeEscape?, codeUnit?_paddedHex hunit, hsecond, codeUnit?_paddedHex hunit',
    Fin.castLE_mk, Fin.eta, h, Option.bind_eq_bind, Option.bind_some, hhigh, and_self, if_true]

/-- What may follow a high surrogate that stands for itself: no escape, or one of a code unit that
does not complete a pair. -/
def LeavesAlone (high : CodePoint) (rest : Text) : Prop :=
  ∀ more : Text, rest = ('\\' : CodePoint) :: ('u' : CodePoint) :: more →
    ∃ d : CodePoint, d.val < 0x10000 ∧ CodePoint.joined? high d = none
      ∧ ∃ after : Text, more = Numeral.paddedHex 4 d.val ++ after

/-- A high surrogate stands for itself if what follows lets it. -/
theorem unicodeEscape?_of_high {c : CodePoint} (hhigh : 0xD800 ≤ c.val ∧ c.val ≤ 0xDBFF)
    {rest : Text} (h : LeavesAlone c rest) :
    unicodeEscape? (Numeral.paddedHex 4 c.val ++ rest) = some (c, rest) := by
  have hunit : c.val < 0x10000 := by omega
  simp only [unicodeEscape?, codeUnit?_paddedHex hunit, Option.bind_eq_bind, Option.bind_some,
    if_pos hhigh]
  split
  · rename_i slash u more
    split_ifs with hescape
    · obtain ⟨d, hd, hjoined, after, rfl⟩ := h more (by rw [hescape.1, hescape.2])
      simp only [codeUnit?_paddedHex hd, Option.bind_some, Fin.castLE_mk, Fin.eta, hjoined]
    · rfl
  · rfl

/-! ## Strings -/

variable {n : Nat} {c : CodePoint} {rest : Text}

theorem string?_quote (n : Nat) (rest : Text) :
    string? (n + 1) (('"' : CodePoint) :: rest) = some ([], rest) := by
  rw [string?.eq_def (n + 1)]
  exact if_pos rfl

theorem string?_plain (hquote : c ≠ '"') (hslash : c ≠ '\\') (hcontrol : 0x20 ≤ c.val) :
    string? (n + 1) (c :: rest) = (string? n rest).map fun (s, after) => (c :: s, after) := by
  rw [string?.eq_def (n + 1)]
  simp only [if_neg hquote, if_neg hslash, if_neg (Nat.not_lt_of_le hcontrol)]

theorem string?_letter {e : CodePoint} (hother : e ≠ 'u') (hletter : letterEscape? e = some c) :
    string? (n + 1) (('\\' : CodePoint) :: e :: rest)
      = (string? n rest).map fun (s, after) => (c :: s, after) := by
  rw [string?.eq_def (n + 1)]
  dsimp only
  rw [if_neg (by decide), if_pos rfl]
  simp only [if_neg hother, hletter, Option.map_some, Option.bind_eq_bind, Option.bind_some]
  cases string? n rest <;> rfl

theorem string?_unitEscape {unit : Nat} {after : Text}
    (h : unicodeEscape? (Numeral.paddedHex 4 unit ++ rest) = some (c, after)) :
    string? (n + 1) (unitEscape unit ++ rest)
      = (string? n after).map fun (s, after) => (c :: s, after) := by
  have hescape : unitEscape unit ++ rest
      = ('\\' : CodePoint) :: ('u' : CodePoint) :: (Numeral.paddedHex 4 unit ++ rest) := rfl
  rw [hescape, string?, if_neg (by decide), if_pos rfl]
  simp only [if_pos, h, Option.bind_eq_bind, Option.bind_some]
  cases string? n after <;> rfl

/-- A code point is read back, unless it makes a pair with what follows. -/
theorem string?_writeCodePoint
    (h : 0xD800 ≤ c.val ∧ c.val ≤ 0xDBFF → LeavesAlone c rest) :
    string? (n + 1) (writeCodePoint c ++ rest)
      = (string? n rest).map fun (s, after) => (c :: s, after) := by
  have hwritten := isWritten_writeCodePoint c
  generalize writeCodePoint c = written at hwritten
  cases hwritten with
  | letter e hother hletter => exact string?_letter hother hletter
  | plain hquote hslash hcontrol => exact string?_plain hquote hslash hcontrol
  | unit hunit =>
    by_cases hhigh : 0xD800 ≤ c.val ∧ c.val ≤ 0xDBFF
    · exact string?_unitEscape (unicodeEscape?_of_high hhigh (h hhigh))
    · exact string?_unitEscape (unicodeEscape?_of_not_high hunit hhigh rest)
  | pair high low hjoined =>
    rw [List.append_assoc]
    exact string?_unitEscape (unicodeEscape?_of_joined hjoined rest)

theorem writeCodePoint_of_surrogate (h : 0xD800 ≤ c.val ∧ c.val ≤ 0xDFFF) :
    writeCodePoint c = unitEscape c.val := by
  have hne : ∀ a : Char, a.toNat < 0xD800 → ¬ c = a := by
    rintro a ha rfl
    exact absurd h.1 (Nat.not_le_of_lt ha)
  rw [writeCodePoint, if_neg (hne '"' (by decide)), if_neg (hne '\\' (by decide)),
    if_neg (hne '\n' (by decide)), if_neg (hne '\r' (by decide)), if_neg (hne '\t' (by decide)),
    if_neg (hne '\x08' (by decide)), if_neg (hne '\x0c' (by decide)), if_neg (by omega),
    if_pos (by omega)]

theorem string?_of_joined {high low : CodePoint} (h : CodePoint.joined? high low = some c) :
    string? (n + 1) (writeCodePoint high ++ (writeCodePoint low ++ rest))
      = (string? n rest).map fun (s, after) => (c :: s, after) := by
  obtain ⟨hhigh, hlow, -⟩ := CodePoint.joined?_eq_some h
  rw [writeCodePoint_of_surrogate (by omega), writeCodePoint_of_surrogate (by omega)]
  exact string?_unitEscape (unicodeEscape?_of_joined h rest)

theorem leavesAlone_quote (high : CodePoint) (rest : Text) :
    LeavesAlone high (('"' : CodePoint) :: rest) := by
  intro more hmore
  exact absurd (List.cons.inj hmore).1 (by decide)

theorem leavesAlone_writeCodePoint {high : CodePoint} (h : CodePoint.joined? high c = none) :
    LeavesAlone high (writeCodePoint c ++ rest) := by
  intro more hmore
  have hwritten := isWritten_writeCodePoint c
  generalize writeCodePoint c = written at hwritten hmore
  cases hwritten with
  | letter e hother hletter => exact absurd (List.cons.inj (List.cons.inj hmore).2).1 hother
  | plain hquote hslash hcontrol => exact absurd (List.cons.inj hmore).1 hslash
  | unit hunit =>
    have htail : Numeral.paddedHex 4 c.val ++ rest = more :=
      (List.cons.inj (List.cons.inj hmore).2).2
    exact ⟨c, hunit, h, rest, htail.symm⟩
  | pair first second hjoined =>
    obtain ⟨hfirst, hsecond, -⟩ := CodePoint.joined?_eq_some hjoined
    have htail : Numeral.paddedHex 4 first.val ++ (unitEscape second.val ++ rest) = more := by
      rw [List.append_assoc] at hmore
      exact (List.cons.inj (List.cons.inj hmore).2).2
    -- The first surrogate of a pair is a high one.
    have hnone : CodePoint.joined? high first = none := by
      unfold CodePoint.joined?
      rw [dif_neg (by omega)]
    exact ⟨first, by omega, hnone, _, htail.symm⟩

/-- **A string is read back** with its surrogate pairs put together. -/
theorem string?_written (t rest : Text) (h : t.length < n) :
    string? n (t.flatMap writeCodePoint ++ ('"' : CodePoint) :: rest) = some (t.paired, rest) := by
  induction t using Text.paired.induct generalizing n with
  | case1 =>
    obtain ⟨n, rfl⟩ := Nat.exists_eq_add_of_lt h
    exact string?_quote _ rest
  | case2 c =>
    obtain ⟨n, rfl⟩ := Nat.exists_eq_add_of_lt h
    rw [List.flatMap_singleton, string?_writeCodePoint fun _ => leavesAlone_quote c rest]
    rw [List.length_singleton, Nat.add_comm 1 n, string?_quote]
    rfl
  | case3 c d t e hjoined ih =>
    obtain ⟨n, rfl⟩ := Nat.exists_eq_add_of_lt h
    rw [List.flatMap_cons, List.flatMap_cons, List.append_assoc, List.append_assoc,
      string?_of_joined hjoined, ih (by simp only [List.length_cons]; omega)]
    simp only [Option.map_some, Text.paired, hjoined]
  | case4 c d t hjoined ih =>
    obtain ⟨n, rfl⟩ := Nat.exists_eq_add_of_lt h
    have halone : LeavesAlone c ((d :: t).flatMap writeCodePoint ++ ('"' : CodePoint) :: rest) := by
      rw [List.flatMap_cons, List.append_assoc]
      exact leavesAlone_writeCodePoint hjoined
    rw [List.flatMap_cons, List.append_assoc, string?_writeCodePoint fun _ => halone,
      ih (by simp only [List.length_cons]; omega)]
    simp only [Option.map_some, Text.paired, hjoined]

end Json

end CrateLedger
