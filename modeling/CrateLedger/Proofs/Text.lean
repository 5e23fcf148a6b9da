import CrateLedger.Text
import Mathlib.Tactic

/-!
# Characters and code points

Characters are code points that are no surrogates, so texts of characters can be taken apart again,
and what begins with a text can be cut behind it.
-/

namespace CrateLedger

namespace CodePoint

theorem toNat_ofNat {n : Nat} (h : n.isValidChar) : (Char.ofNat n).toNat = n := by
  rw [Char.ofNat, dif_pos h]
  rfl

theorem not_isSurrogate_ofChar (c : Char) : (ofChar c).isSurrogate = false := by
  have hvalid := c.valid
  simp only [UInt32.isValidChar, Nat.isValidChar] at hvalid
  have hval : (ofChar c).val = c.val.toNat := rfl
  simp only [isSurrogate, hval, Bool.and_eq_false_iff, decide_eq_false_iff_not]
  omega

@[simp] theorem toChar_ofChar (c : Char) : (ofChar c).toChar = c := by
  rw [toChar, not_isSurrogate_ofChar, if_neg Bool.false_ne_true]
  exact Char.ofNat_toNat c

theorem ofChar_injective {c d : Char} (h : ofChar c = ofChar d) : c = d := by
  rw [← toChar_ofChar c, h, toChar_ofChar]

theorem ofChar_toChar {c : CodePoint} (h : c.isSurrogate = false) : ofChar c.toChar = c := by
  have hself : c.toChar = Char.ofNat c.val := by simp [toChar, h]
  have hvalid : Nat.isValidChar c.val := by
    simp only [isSurrogate, Bool.and_eq_false_iff, decide_eq_false_iff_not] at h
    have := c.isLt
    simp only [Nat.isValidChar]
    omega
  apply Fin.ext
  show c.toChar.toNat = c.val
  rw [hself, toNat_ofNat hvalid]

theorem not_isSurrogate_of_lt {c : CodePoint} (h : c.val < 0xD800) : c.isSurrogate = false := by
  simp only [isSurrogate, Bool.and_eq_false_iff, decide_eq_false_iff_not]
  omega

end CodePoint

/-- Letters and digits are ASCII. -/
theorem toNat_lt_of_isAlphanum {c : Char} (h : c.isAlphanum = true) : c.toNat < 0x80 := by
  have hbound : ∀ last : UInt32, last < 0x80 → c.val ≤ last → c.toNat < 0x80 :=
    fun last hlast hle => UInt32.lt_iff_toNat_lt.1 (UInt32.lt_of_le_of_lt hle hlast)
  rcases Bool.or_eq_true_iff.1 h with halpha | hdigit
  · rcases Bool.or_eq_true_iff.1 halpha with hupper | hlower
    · exact hbound 'Z'.val (by decide) (of_decide_eq_true hupper).2
    · exact hbound 'z'.val (by decide) (of_decide_eq_true (Bool.and_eq_true_iff.1 hlower).2)
  · exact hbound '9'.val (by decide) (of_decide_eq_true (Bool.and_eq_true_iff.1 hdigit).2)

/-- A run of a class is found in front of what does not start with one of the class. -/
theorem span_append {α : Type} {belongs : α → Bool} {run rest : List α}
    (hrun : ∀ c ∈ run, belongs c = true) (hrest : ∀ c ∈ rest.head?, belongs c = false) :
    (run ++ rest).takeWhile belongs = run ∧ (run ++ rest).dropWhile belongs = rest := by
  rw [List.takeWhile_append_of_pos hrun, List.dropWhile_append_of_pos hrun]
  cases rest with
  | nil => simp
  | cons c rest =>
    have hc := hrest c rfl
    simp [hc]

/-- The run up to the first of a kind. -/
theorem span_ne_append {α : Type} [DecidableEq α] {a : α} {run : List α} (h : a ∉ run)
    (rest : List α) :
    (run ++ a :: rest).takeWhile (fun x => decide (x ≠ a)) = run ∧
      (run ++ a :: rest).dropWhile (fun x => decide (x ≠ a)) = a :: rest := by
  refine span_append (fun x hx => decide_eq_true fun heq => h (heq ▸ hx)) fun c hc => ?_
  cases hc
  exact decide_eq_false (not_not_intro rfl)

namespace Text

theorem map_toChar_ofChars (cs : List Char) : (ofChars cs).map CodePoint.toChar = cs := by
  rw [ofChars, List.map_map]
  exact (List.map_congr_left fun c _ => CodePoint.toChar_ofChar c).trans (List.map_id cs)

/-- ASCII characters are taken out of their text again. -/
theorem asciiChars?_ofChars {cs : List Char} (h : ∀ c ∈ cs, c.toNat < 0x80) :
    asciiChars? (ofChars cs) = some cs := by
  have hascii : (ofChars cs).isAscii = true := by
    rw [isAscii, ofChars, List.all_map, List.all_eq_true]
    intro c hc
    exact decide_eq_true (h c hc)
  rw [asciiChars?, if_pos hascii, map_toChar_ofChars]

/-- Only a text of ASCII characters has them taken out. -/
theorem asciiChars?_eq_some {t : Text} {cs : List Char} (h : asciiChars? t = some cs) :
    t = ofChars cs ∧ ∀ c ∈ cs, c.toNat < 0x80 := by
  unfold asciiChars? at h
  split at h
  · rename_i hascii
    cases h
    have hlow : ∀ c ∈ t, c.val < 0x80 := by
      simpa [isAscii, CodePoint.isAscii] using hascii
    have hback : ∀ c ∈ t, CodePoint.ofChar c.toChar = c := by
      intro c hc
      have hc := hlow c hc
      exact CodePoint.ofChar_toChar (CodePoint.not_isSurrogate_of_lt (by omega))
    constructor
    · rw [ofChars, List.map_map]
      exact ((List.map_congr_left hback).trans (List.map_id t)).symm
    · intro x hx
      obtain ⟨c, hc, rfl⟩ := List.mem_map.1 hx
      show (CodePoint.ofChar c.toChar).val < 0x80
      rw [hback c hc]
      exact hlow c hc
  · cases h

theorem dropHead?_append (head rest : Text) : dropHead? head (head ++ rest) = some rest := by
  have hhead : head.isPrefixOf (head ++ rest) = true :=
    List.isPrefixOf_iff_prefix.2 (List.prefix_append head rest)
  rw [dropHead?, if_pos hhead, List.drop_left]

theorem dropHead?_eq_none {head t : Text} (h : head.isPrefixOf t = false) :
    dropHead? head t = none := by
  rw [dropHead?, if_neg (by simp [h])]

theorem eq_append_of_dropHead? {head t rest : Text} (h : dropHead? head t = some rest) :
    t = head ++ rest := by
  unfold dropHead? at h
  split at h
  · rename_i hprefix
    obtain ⟨after, rfl⟩ := List.isPrefixOf_iff_prefix.1 hprefix
    rw [List.drop_left] at h
    rw [Option.some.inj h]
  · cases h

/-- A split is undone by putting the separator back. -/
theorem eq_append_of_splitFirst? {separator t before after : Text}
    (h : splitFirst? separator t = some (before, after)) : t = before ++ separator ++ after := by
  induction t generalizing before with
  | nil =>
    unfold splitFirst? at h
    split at h
    · rename_i hempty
      cases h
      rw [List.isEmpty_iff.1 hempty]
      rfl
    · cases h
  | cons c t ih =>
    unfold splitFirst? at h
    split at h
    · rename_i hdrop
      cases h
      exact eq_append_of_dropHead? hdrop
    · obtain ⟨⟨before', after'⟩, hsplit, heq⟩ := Option.map_eq_some_iff.1 h
      cases heq
      rw [ih hsplit]
      rfl

/-- A text is split at a separator that stands behind code points other than its first one. -/
theorem splitFirst?_append {c : CodePoint} {before : Text} (h : c ∉ before) (separator after : Text) :
    splitFirst? (c :: separator) (before ++ c :: separator ++ after) = some (before, after) := by
  induction before with
  | nil =>
    show splitFirst? (c :: separator) (c :: (separator ++ after)) = _
    have hdrop : dropHead? (c :: separator) (c :: (separator ++ after)) = some after :=
      dropHead?_append (c :: separator) after
    rw [splitFirst?, hdrop]
  | cons d before ih =>
    rw [List.mem_cons, not_or] at h
    have hprefix : List.isPrefixOf (c :: separator) (d :: (before ++ c :: separator ++ after))
        = false := by
      simp [List.isPrefixOf, h.1]
    rw [List.cons_append, List.cons_append, splitFirst?, dropHead?_eq_none hprefix, ih h.2]
    rfl

/-- Taking an underscore away, if there is one in front. -/
theorem dropHead?_underscore (t : Text) :
    (dropHead? "_" t).getD t
      = match t with
        | [] => []
        | c :: rest => if c = CodePoint.ofChar '_' then rest else c :: rest := by
  cases t with
  | nil => rfl
  | cons c rest =>
    by_cases hc : c = CodePoint.ofChar '_'
    · rw [hc]
      simp only [if_true]
      exact congrArg (fun t => Option.getD t _) (dropHead?_append "_" rest)
    · have hprefix : List.isPrefixOf (ofString "_") (c :: rest) = false := by
        show (CodePoint.ofChar '_' == c && _) = false
        simp [Ne.symm hc]
      rw [dropHead?_eq_none hprefix]
      simp only [hc, if_false]
      rfl

/-! ## Joining -/

@[simp] theorem join_nil (separator : Text) : join separator [] = [] := rfl

@[simp] theorem join_singleton (separator part : Text) : join separator [part] = part := by
  simp [join, List.intercalate]

theorem join_cons_of_ne_nil (separator part : Text) {parts : List Text} (h : parts ≠ []) :
    join separator (part :: parts) = part ++ separator ++ join separator parts := by
  obtain ⟨q, qs, rfl⟩ := List.exists_cons_of_ne_nil h
  simp [join, List.intercalate]

theorem join_append (separator : Text) {xs ys : List Text} (hxs : xs ≠ []) (hys : ys ≠ []) :
    join separator (xs ++ ys) = join separator xs ++ separator ++ join separator ys := by
  induction xs with
  | nil => exact absurd rfl hxs
  | cons x xs ih =>
    by_cases hempty : xs = []
    · rw [hempty, join_singleton]
      exact join_cons_of_ne_nil separator x hys
    · have hboth : xs ++ ys ≠ [] := by simp [hempty]
      rw [List.cons_append, join_cons_of_ne_nil separator x hboth, ih hempty,
        join_cons_of_ne_nil separator x hempty]
      simp only [List.append_assoc]

end Text

end CrateLedger
