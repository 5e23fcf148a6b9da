import CrateLedger.Text.Numeral
import Mathlib.Data.Nat.Digits.Defs

/-!
# Numerals are read back

A number that is spelled in a base with some alphabet is read back with any reading of the digits
that undoes the alphabet. Decimal and hexadecimal numerals are the case of the usual alphabet.
-/

namespace CrateLedger.Numeral

/-! ## Any alphabet -/

/-- A number in a base, most significant digit first, with a character for each digit. -/
def spelled (alphabet : Nat → Char) (base n : Nat) : List Char :=
  if n < base ∨ base < 2 then [alphabet n]
  else spelled alphabet base (n / base) ++ [alphabet (n % base)]
termination_by n
decreasing_by exact Nat.div_lt_self (by omega) (by omega)

variable {alphabet : Nat → Char} {base n : Nat}

theorem spelled_of_lt (h : n < base) : spelled alphabet base n = [alphabet n] := by
  rw [spelled, if_pos (Or.inl h)]

theorem spelled_of_le (hbase : 1 < base) (h : base ≤ n) :
    spelled alphabet base n = spelled alphabet base (n / base) ++ [alphabet (n % base)] := by
  rw [spelled, if_neg (by omega)]

theorem spelled_ne_nil (alphabet : Nat → Char) (base n : Nat) : spelled alphabet base n ≠ [] := by
  rw [spelled]
  split <;> simp

theorem ofDigits_concat (ds : List Nat) (d : Nat) :
    ofDigits base (ds ++ [d]) = ofDigits base ds * base + d := by
  simp [ofDigits]

/-- Reading undoes spelling. -/
theorem ofDigits_spelled (hbase : 1 < base) {value : Char → Nat}
    (hvalue : ∀ d < base, value (alphabet d) = d) (n : Nat) :
    ofDigits base ((spelled alphabet base n).map value) = n := by
  induction n using Nat.strongRecOn with
  | ind n ih =>
    by_cases h : n < base
    · rw [spelled_of_lt h, List.map_singleton, hvalue n h]
      simp [ofDigits]
    · have hle : base ≤ n := by omega
      rw [spelled_of_le hbase hle, List.map_append, List.map_singleton, ofDigits_concat,
        ih (n / base) (Nat.div_lt_self (by omega) hbase), hvalue _ (Nat.mod_lt n (by omega)),
        Nat.mul_comm]
      exact Nat.div_add_mod n base

/-- All characters of a numeral are digits of its base. -/
theorem exists_of_mem_spelled (hbase : 1 < base) {c : Char} (hc : c ∈ spelled alphabet base n) :
    ∃ d < base, c = alphabet d := by
  induction n using Nat.strongRecOn with
  | ind n ih =>
    by_cases h : n < base
    · rw [spelled_of_lt h, List.mem_singleton] at hc
      exact ⟨n, h, hc⟩
    · have hle : base ≤ n := by omega
      rw [spelled_of_le hbase hle, List.mem_append, List.mem_singleton] at hc
      rcases hc with hc | hc
      · exact ih (n / base) (Nat.div_lt_self (by omega) hbase) hc
      · exact ⟨n % base, Nat.mod_lt n (by omega), hc⟩

/-- The numeral of a number other than zero starts with another digit than zero. -/
theorem exists_head_spelled (alphabet : Nat → Char) (hbase : 1 < base) (hn : n ≠ 0) :
    ∃ d rest, d ≠ 0 ∧ d < base ∧ spelled alphabet base n = alphabet d :: rest := by
  induction n using Nat.strongRecOn with
  | ind n ih =>
    by_cases h : n < base
    · exact ⟨n, [], hn, h, spelled_of_lt h⟩
    · have hle : base ≤ n := by omega
      have hquot : n / base ≠ 0 := (Nat.div_pos hle (by omega)).ne'
      obtain ⟨d, rest, hd, hlt, hrest⟩ := ih (n / base) (Nat.div_lt_self (by omega) hbase) hquot
      refine ⟨d, rest ++ [alphabet (n % base)], hd, hlt, ?_⟩
      rw [spelled_of_le hbase hle, hrest]
      rfl

/-! ## The usual alphabet -/

theorem toDigits_eq_spelled (hbase : 1 < base) (n : Nat) :
    Nat.toDigits base n = spelled Nat.digitChar base n := by
  induction n using Nat.strongRecOn with
  | ind n ih =>
    by_cases h : n < base
    · rw [Nat.toDigits_of_lt_base h, spelled_of_lt h]
    · have hle : base ≤ n := by omega
      rw [Nat.toDigits_of_base_le hbase hle, spelled_of_le hbase hle,
        ih (n / base) (Nat.div_lt_self (by omega) hbase)]

theorem digitValue_digitChar : ∀ d < 16, digitValue (Nat.digitChar d) = d := by decide

theorem isHexDigit_digitChar : ∀ d < 16, isHexDigit (Nat.digitChar d) = true := by decide

theorem readDecimal_toDigits (n : Nat) : readDecimal (Nat.toDigits 10 n) = n := by
  rw [readDecimal, toDigits_eq_spelled (by decide)]
  exact ofDigits_spelled (by decide) (fun d hd => digitValue_digitChar d (by omega)) n

theorem readHex_toDigits (n : Nat) : readHex (Nat.toDigits 16 n) = n := by
  rw [readHex, toDigits_eq_spelled (by decide)]
  exact ofDigits_spelled (by decide) digitValue_digitChar n

theorem isHexDigit_of_mem_toDigits {c : Char} (h : c ∈ Nat.toDigits 16 n) :
    isHexDigit c = true := by
  rw [toDigits_eq_spelled (by decide)] at h
  obtain ⟨d, hd, rfl⟩ := exists_of_mem_spelled (by decide) h
  exact isHexDigit_digitChar d hd

/-- A greater number has no shorter numeral. -/
theorem length_toDigits_mono (hbase : 1 < base) {m n : Nat} (h : m ≤ n) :
    (Nat.toDigits base m).length ≤ (Nat.toDigits base n).length := by
  have hpos : 0 < (Nat.toDigits base n).length := Nat.length_toDigits_pos
  rw [Nat.length_toDigits_le_iff hbase hpos]
  exact Nat.lt_of_le_of_lt h ((Nat.length_toDigits_le_iff hbase hpos).1 (Nat.le_refl _))

/-- Zeros in front of a numeral do not count. -/
theorem readDecimal_replicate_zero (n : Nat) (digits : List Char) :
    readDecimal (List.replicate n '0' ++ digits) = readDecimal digits := by
  induction n with
  | zero => rfl
  | succ n ih => exact ih

theorem isShort_eq_false_iff {n : Nat} : isShort n = false ↔ 10 ^ maxDigits ≤ n := by
  have hle := Nat.length_toDigits_le_iff (n := n) (b := 10) (k := maxDigits) (by decide) (by decide)
  rw [isShort, decide_eq_false_iff_not, hle, Nat.not_lt]

theorem toDigits_ne_nil (hbase : 1 < base) (n : Nat) : Nat.toDigits base n ≠ [] := by
  rw [toDigits_eq_spelled hbase]
  exact spelled_ne_nil _ _ _

end CrateLedger.Numeral
