import CrateLedger.Proofs.Mangled.V0.Scan
import CrateLedger.Proofs.Text.Punycode

/-!
# Identifiers in Punycode

A v0 name has no hyphens, so an identifier in Punycode has an underscore for its delimiter. Which
one that is cannot be mistaken: no digit is an underscore, so it is the last, and there is one if
the identifier has ASCII characters at all.
-/

namespace CrateLedger.Mangled.V0

open Punycode

variable {input : Array Char} {p : Nat}

/-- Puts another character in the place of the last one of a kind. -/
def replaceLast (old new : Char) (cs : List Char) : List Char :=
  match splitLast old cs with
  | some (before, after) => before ++ new :: after
  | none => cs

/-- The Punycode of a text in a name. -/
def punycodeChars (capitals : Bool) (text : Text) : List Char :=
  replaceLast '-' '_' (encode capitals text)

/-- Characters as an identifier that is marked as Punycode, kept apart from their length or not. -/
def markedChars (apart : Bool) (cs : List Char) : List Char :=
  'u' :: (Nat.toDigits 10 cs.length ++ flagChars '_' apart ++ cs)

theorem replaceLast_append {old : Char} {after : List Char} (h : old ∉ after) (new : Char)
    (before : List Char) :
    replaceLast old new (before ++ old :: after) = before ++ new :: after := by
  rw [replaceLast, splitLast_append h]

theorem replaceLast_of_not_mem {old : Char} {cs : List Char} (h : old ∉ cs) (new : Char) :
    replaceLast old new cs = cs := by
  rw [replaceLast, splitLast_of_not_mem h]

namespace Scan

/-- The delimiter is found and put back, also if the text has underscores or hyphens itself. -/
theorem restoreDelimiter_punycodeChars (capitals : Bool) (text : Text) :
    restoreDelimiter (punycodeChars capitals text) = encode capitals text := by
  have hhyphen : '-' ∉ digitsOf capitals text := not_mem_digitsOf rfl capitals text
  have hunderscore : '_' ∉ digitsOf capitals text := not_mem_digitsOf rfl capitals text
  show replaceLast '_' '-' (replaceLast '-' '_' (encode capitals text)) = _
  unfold encode
  by_cases hbasic : basicChars text = []
  · rw [if_pos hbasic, replaceLast_of_not_mem hhyphen, replaceLast_of_not_mem hunderscore]
  · rw [if_neg hbasic, replaceLast_append hhyphen, replaceLast_append hunderscore]

theorem decodePunycode_punycodeChars (capitals : Bool) (text : Text) :
    decodePunycode (punycodeChars capitals text) input p = .ok (text, p) := by
  unfold decodePunycode
  rw [restoreDelimiter_punycodeChars, decode?_encode]
  rfl

/-- Only the empty text has no characters in Punycode. -/
theorem punycodeChars_ne_nil {text : Text} (h : text ≠ []) (capitals : Bool) :
    punycodeChars capitals text ≠ [] := by
  intro hnil
  have hread := decode?_encode capitals text
  rw [← restoreDelimiter_punycodeChars, hnil] at hread
  have hempty : decode? (restoreDelimiter []) = some [] := by
    show insertAll? [] 0 0x80 72 true [] = some []
    rw [insertAll?]
  rw [hempty] at hread
  exact h (Option.some.inj hread).symm

/-- An identifier that is marked is decoded. -/
theorem rawIdentifier_of_marked {cs : List Char} {apart : Bool} (hcs : cs ≠ [])
    (hapart : apart = false → ∀ c, cs.head? = some c → c.isDigit = false ∧ c ≠ '_')
    (h : StandsAt input p (markedChars apart cs)) :
    rawIdentifier input p = decodePunycode cs input (p + (markedChars apart cs).length) := by
  obtain ⟨hmark, hprefixed⟩ := standsAt_cons.1 h
  obtain ⟨q, r, hlength, hseparator, htake⟩ := prefixed_of_standsAt hcs hapart hprefixed
  rw [rawIdentifier, Reader.bind_ok (eat_of_eq hmark), Reader.bind_ok hlength,
    Reader.bind_ok hseparator, Reader.bind_ok htake, markedChars, List.length_cons, Nat.add_right_comm]
  rfl

/-- **Identifiers in Punycode are read back.** The Punycode of any text, with an underscore for its
delimiter, is decoded to the text. Where a name has an identifier of these characters, marked as
Punycode and with a separator if its length would take some of them along, the text is read, up to
the end of the characters. -/
theorem punycode_identifier_read (capitals : Bool) (text : Text) (input : Array Char) (p : Nat) :
    decodePunycode (punycodeChars capitals text) input p = .ok (text, p) ∧
    ∀ apart, text ≠ [] →
      (apart = false → ∀ c, (punycodeChars capitals text).head? = some c →
        c.isDigit = false ∧ c ≠ '_') →
      StandsAt input p (markedChars apart (punycodeChars capitals text)) →
      rawIdentifier input p
        = .ok (text, p + (markedChars apart (punycodeChars capitals text)).length) := by
  refine ⟨decodePunycode_punycodeChars capitals text, fun apart htext hapart h => ?_⟩
  rw [rawIdentifier_of_marked (punycodeChars_ne_nil htext capitals) hapart h]
  exact decodePunycode_punycodeChars capitals text

/-- An identifier with delimiters of its own, and one that needs a separator. -/
theorem delimiters_read :
    rawIdentifier "Nvu11a_b-__mua7b4main".toList.toArray 2 = .ok ("a_b-ö_ü", 16) ∧
    rawIdentifier "u5___1GA".toList.toArray 0 = .ok ("_ö", 8) := by
  have hmany : punycodeChars false "a_b-ö_ü" = "a_b-__mua7b".toList := by decide +kernel
  have hfirst : punycodeChars true "_ö" = "__1GA".toList := by decide +kernel
  constructor
  · have hread := (punycode_identifier_read false "a_b-ö_ü"
      "Nvu11a_b-__mua7b4main".toList.toArray 2).2 false (by decide)
    rw [hmany] at hread
    refine hread (fun _ c hc => ?_) (by decide)
    obtain rfl : 'a' = c := Option.some.inj hc
    decide
  · have hread := (punycode_identifier_read true "_ö" "u5___1GA".toList.toArray 0).2 true
      (by decide)
    rw [hfirst] at hread
    exact hread nofun (by decide)

end Scan

end CrateLedger.Mangled.V0
