import CrateLedger.Text

/-!
# Punycode

The encoding of RFC 3492: the ASCII characters of a text, a delimiter, and then a string of
digits that says, one generalised variable-length integer after the other, which other code points
go where. The digits are `A` to `Z` for zero to 25 and `0` to `9` for 26 to 35, in either case of
the letters. Numbers are unbounded, and a text that would need a code point beyond Unicode is
refused.
-/

namespace CrateLedger.Punycode

/-! ## Parameters -/

/-- The value of a digit, letters in either case. -/
def digit? (c : Char) : Option Nat :=
  if 'A' ≤ c ∧ c ≤ 'Z' then some (c.toNat - 'A'.toNat)
  else if 'a' ≤ c ∧ c ≤ 'z' then some (c.toNat - 'a'.toNat)
  else if c.isDigit then some (c.toNat - '0'.toNat + 26)
  else none

/-- The threshold of the digit at weight index `k` (36, 72, …): a digit below it is the last. -/
def threshold (k bias : Nat) : Nat := max 1 (min 26 (k - bias))

/-- Divides by 35 until the value is at most 455, and says how often. -/
def scaleDown (delta : Nat) : Nat × Nat :=
  if delta > 455 then
    let (d, times) := scaleDown (delta / 35)
    (d, times + 1)
  else (delta, 0)
termination_by delta
decreasing_by omega

/-- The bias after an insertion, which follows the size of the step just taken. -/
def adapt (delta points : Nat) (first : Bool) : Nat :=
  let damped := if first then delta / 700 else delta / 2
  let (d, times) := scaleDown (damped + damped / points)
  36 * times + 36 * d / (d + 38)

/-! ## Decoding -/

/-- Reads one variable-length integer, given the weight and the part already read. -/
def integerFrom? (bias k weight value : Nat) : List Char → Option (Nat × List Char)
  | [] => none
  | c :: rest => do
    let d ← digit? c
    let t := threshold k bias
    let value := value + d * weight
    if d < t then some (value, rest) else integerFrom? bias (k + 36) (weight * (36 - t)) value rest

/-- A variable-length integer takes at least one digit. -/
theorem length_lt_of_integerFrom? {bias k weight value n : Nat} {s rest : List Char}
    (h : integerFrom? bias k weight value s = some (n, rest)) : rest.length < s.length := by
  induction s generalizing k weight value with
  | nil => simp [integerFrom?] at h
  | cons c cs ih =>
    simp only [integerFrom?, Option.bind_eq_bind, Option.bind_eq_some_iff] at h
    obtain ⟨d, _, h⟩ := h
    split at h
    · simp only [Option.some.injEq, Prod.mk.injEq] at h
      simp [← h.2]
    · have := ih h
      simp only [List.length_cons]
      omega

/-- Inserts the code points that the remaining digits describe. The next one goes to index `i` or
later and is at least `n`. -/
def insertAll? (out : Text) (i n bias : Nat) (first : Bool) (s : List Char) : Option Text :=
  match s with
  | [] => some out
  | c :: cs =>
    match h : integerFrom? bias 36 1 0 (c :: cs) with
    | none => none
    | some (delta, rest) =>
      let points := out.length + 1
      let n := n + (i + delta) / points
      let i := (i + delta) % points
      if hn : n < 0x110000 then
        insertAll? (out.insertIdx i ⟨n, hn⟩) (i + 1) n (adapt delta points first) false rest
      else none
termination_by s.length
decreasing_by exact length_lt_of_integerFrom? h

/-- The characters before and after the last delimiter; without one all of them are digits. -/
def splitLast (delimiter : Char) (s : List Char) : Option (List Char × List Char) :=
  let tail := (s.reverse.takeWhile (· ≠ delimiter)).reverse
  if delimiter ∈ s then some (s.take (s.length - tail.length - 1), tail) else none

/-- Decodes an ASCII text whose delimiter is a hyphen. -/
def decode? (s : List Char) : Option Text :=
  match splitLast '-' s with
  | some (basic, digits) => insertAll? (Text.ofChars basic) 0 0x80 72 true digits
  | none => insertAll? [] 0 0x80 72 true s

end CrateLedger.Punycode
