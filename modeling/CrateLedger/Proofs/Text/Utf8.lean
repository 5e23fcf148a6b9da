import CrateLedger.Proofs.Text
import CrateLedger.Text.Utf8

/-!
# UTF-8 is read back

A text without surrogates is decoded from its own bytes: the bytes of a code point are one unit,
whatever follows them.
-/

namespace CrateLedger.Utf8

/-! ## One unit -/

theorem units_cons_ascii {b : UInt8} (h : b.toNat < 0x80) (rest : List UInt8) :
    units (b :: rest) = codePoint? b.toNat :: units rest := by
  rw [units, if_pos h]

theorem units_cons_lead {b : UInt8} {l : Lead} {rest after : List UInt8} {v : Option Nat}
    (hb : 0x80 ≤ b.toNat) (hlead : lead? b.toNat = some l)
    (hcontinuation : continuation l.bits l.following l.low l.high rest = (v, after)) :
    units (b :: rest) = v.bind codePoint? :: units after := by
  rw [units, if_neg (by omega)]
  split
  · next hnone => rw [hlead] at hnone; cases hnone
  · next l' hl =>
    rw [hlead, Option.some.injEq] at hl
    subst hl
    split
    next v' after' hc =>
    rw [hcontinuation, Prod.mk.injEq] at hc
    rw [hc.1, hc.2]

theorem continuation_cons {value n low high : Nat} {b : UInt8} {rest : List UInt8}
    (hlow : low ≤ b.toNat) (hhigh : b.toNat ≤ high) :
    continuation value (n + 1) low high (b :: rest)
      = continuation (value * 64 + (b.toNat - 0x80)) n 0x80 0xBF rest := by
  rw [continuation, if_pos ⟨hlow, hhigh⟩]

/-! ## Lead bytes -/

theorem lead?_two {n : Nat} (h : 0x80 ≤ n) (hn : n < 0x800) :
    lead? (0xC0 + n / 0x40) = some ⟨n / 0x40, 1, 0x80, 0xBF⟩ := by
  unfold lead?
  rw [if_pos (by omega), Nat.add_sub_cancel_left]

/-- The range that a lead byte of three gives leaves out overlong forms and surrogates only. -/
theorem lead?_three {n : Nat} (h : 0x800 ≤ n) (hn : n < 0x10000)
    (hscalar : ¬ (0xD800 ≤ n ∧ n ≤ 0xDFFF)) :
    ∃ low high, lead? (0xE0 + n / 0x1000) = some ⟨n / 0x1000, 2, low, high⟩ ∧
      low ≤ 0x80 + n / 0x40 % 0x40 ∧ 0x80 + n / 0x40 % 0x40 ≤ high := by
  unfold lead?
  rw [if_neg (by omega)]
  by_cases hfirst : n / 0x1000 = 0
  · refine ⟨0xA0, 0xBF, ?_, by omega, by omega⟩
    rw [hfirst, if_pos rfl]
  · rw [if_neg (by omega)]
    by_cases hsurrogate : n / 0x1000 = 0xD
    · refine ⟨0x80, 0x9F, ?_, by omega, by omega⟩
      rw [hsurrogate, if_pos rfl]
    · refine ⟨0x80, 0xBF, ?_, by omega, by omega⟩
      rw [if_neg (by omega), if_pos (by omega), Nat.add_sub_cancel_left]

/-- The range that a lead byte of four gives leaves out overlong forms and what is no code point. -/
theorem lead?_four {n : Nat} (h : 0x10000 ≤ n) (hn : n < 0x110000) :
    ∃ low high, lead? (0xF0 + n / 0x40000) = some ⟨n / 0x40000, 3, low, high⟩ ∧
      low ≤ 0x80 + n / 0x1000 % 0x40 ∧ 0x80 + n / 0x1000 % 0x40 ≤ high := by
  unfold lead?
  rw [if_neg (by omega), if_neg (by omega), if_neg (by omega), if_neg (by omega)]
  by_cases hfirst : n / 0x40000 = 0
  · refine ⟨0x90, 0xBF, ?_, by omega, by omega⟩
    rw [hfirst, if_pos rfl]
  · rw [if_neg (by omega)]
    by_cases hlast : n / 0x40000 = 4
    · refine ⟨0x80, 0x8F, ?_, by omega, by omega⟩
      rw [hlast, if_neg (by omega), if_pos rfl]
    · refine ⟨0x80, 0xBF, ?_, by omega, by omega⟩
      rw [if_pos (by omega), Nat.add_sub_cancel_left]

/-! ## Code points -/

theorem codePoint?_val (c : CodePoint) : codePoint? c.val = some c := by
  rw [codePoint?, dif_pos c.isLt]

/-- The bytes of a code point that is no surrogate are read as this code point. -/
theorem units_encodeCodePoint {c : CodePoint} (h : c.isSurrogate = false) (rest : List UInt8) :
    units (encodeCodePoint c ++ rest) = some c :: units rest := by
  have hlt := c.isLt
  have hscalar : ¬ (0xD800 ≤ c.val ∧ c.val ≤ 0xDFFF) := by
    simpa [CodePoint.isSurrogate] using h
  have hbyte {k : Nat} (hk : k < 0x100) : (UInt8.ofNat k).toNat = k := UInt8.toNat_ofNat_of_lt' hk
  have htail (k : Nat) : (UInt8.ofNat (0x80 + k % 0x40)).toNat = 0x80 + k % 0x40 :=
    hbyte (by omega)
  rw [← codePoint?_val c]
  unfold encodeCodePoint
  generalize c.val = n at hlt hscalar
  dsimp only
  -- The cases are those of the encoding: one to four bytes, of which the first tells how many.
  by_cases h1 : n < 0x80
  · have hb := hbyte (k := n) (by omega)
    rw [if_pos h1, List.singleton_append, units_cons_ascii (by omega), hb]
  rw [if_neg h1]
  by_cases h2 : n < 0x800
  · have hb := hbyte (k := 0xC0 + n / 0x40) (by omega)
    rw [if_pos h2, List.cons_append, List.singleton_append]
    refine units_cons_lead (v := some n) (by omega) (by rw [hb, lead?_two (by omega) h2]) ?_
    dsimp only
    rw [continuation_cons (by rw [htail]; omega) (by rw [htail]; omega), htail, continuation]
    rw [Prod.mk.injEq, Option.some.injEq]
    exact ⟨by omega, rfl⟩
  rw [if_neg h2]
  by_cases h3 : n < 0x10000
  · have hb := hbyte (k := 0xE0 + n / 0x1000) (by omega)
    obtain ⟨low, high, hlead, hlow, hhigh⟩ := lead?_three (by omega) h3 hscalar
    rw [if_pos h3, List.cons_append, List.cons_append, List.singleton_append]
    refine units_cons_lead (v := some n) (by omega) (by rw [hb, hlead]) ?_
    dsimp only
    rw [continuation_cons (by rwa [htail]) (by rwa [htail]),
      continuation_cons (by rw [htail]; omega) (by rw [htail]; omega), htail, htail, continuation]
    rw [Prod.mk.injEq, Option.some.injEq]
    exact ⟨by omega, rfl⟩
  · have hb := hbyte (k := 0xF0 + n / 0x40000) (by omega)
    obtain ⟨low, high, hlead, hlow, hhigh⟩ := lead?_four (by omega) hlt
    rw [if_neg h3, List.cons_append, List.cons_append, List.cons_append, List.singleton_append]
    refine units_cons_lead (v := some n) (by omega) (by rw [hb, hlead]) ?_
    dsimp only
    rw [continuation_cons (by rwa [htail]) (by rwa [htail]),
      continuation_cons (by rw [htail]; omega) (by rw [htail]; omega),
      continuation_cons (by rw [htail]; omega) (by rw [htail]; omega), htail, htail, htail,
      continuation]
    rw [Prod.mk.injEq, Option.some.injEq]
    exact ⟨by omega, rfl⟩

/-- The bytes of a code point other than NUL are none of them zero. -/
theorem ne_zero_of_mem_encodeCodePoint {c : CodePoint} (h : c ≠ 0) {b : UInt8}
    (hb : b ∈ encodeCodePoint c) : b ≠ 0 := by
  have hpos : c.val ≠ 0 := fun hval => h (Fin.ext hval)
  have hlt := c.isLt
  have hbyte {n : Nat} (h0 : n ≠ 0) (hn : n < 0x100) : UInt8.ofNat n ≠ 0 := by
    intro heq
    have hzero := congrArg UInt8.toNat heq
    rw [UInt8.toNat_ofNat_of_lt' hn] at hzero
    exact h0 hzero
  unfold encodeCodePoint at hb
  dsimp only at hb
  split at hb
  · rw [List.mem_singleton] at hb
    exact hb ▸ hbyte hpos (by omega)
  · split at hb
    · simp only [List.mem_cons, List.not_mem_nil, or_false] at hb
      rcases hb with rfl | rfl <;> exact hbyte (by omega) (by omega)
    · split at hb
      · simp only [List.mem_cons, List.not_mem_nil, or_false] at hb
        rcases hb with rfl | rfl | rfl <;> exact hbyte (by omega) (by omega)
      · simp only [List.mem_cons, List.not_mem_nil, or_false] at hb
        rcases hb with rfl | rfl | rfl | rfl <;> exact hbyte (by omega) (by omega)

/-! ## Texts -/

theorem units_encode {t : Text} (h : t.hasSurrogate = false) : units (encode t) = t.map some := by
  induction t with
  | nil => rw [encode, List.flatMap_nil, units, List.map_nil]
  | cons c t ih =>
    have hcons : encode (c :: t) = encodeCodePoint c ++ encode t := List.flatMap_cons
    rw [Text.hasSurrogate, List.any_cons, Bool.or_eq_false_iff] at h
    rw [hcons, units_encodeCodePoint h.1, ih h.2, List.map_cons]

/-- A text without surrogates is decoded from its bytes. -/
theorem decodeTolerant_encode {t : Text} (h : t.hasSurrogate = false) :
    decodeTolerant (encode t) = t := by
  rw [decodeTolerant, units_encode h, List.map_map]
  exact List.map_id t

/-- The bytes of a text without NUL hold no zero. -/
theorem zero_notMem_encode {t : Text} (h : 0 ∉ t) : (0 : UInt8) ∉ encode t := by
  intro hmem
  obtain ⟨c, hc, hzero⟩ := List.mem_flatMap.1 hmem
  have hne : c ≠ 0 := by
    rintro rfl
    exact h hc
  exact ne_zero_of_mem_encodeCodePoint hne hzero rfl

end CrateLedger.Utf8
