import CrateLedger.Proofs.Mangled.V0.Reader
import CrateLedger.Proofs.Mangled.V0.Spelling
import CrateLedger.Proofs.Text
import Mathlib.Tactic

/-!
# Tokens are read back

Every token of a v0 name that stands in a text is read as what it spells, and reading ends behind
it. What may follow a token has to be known where the token does not say itself where it ends: a
length ends at the first character that is no digit, and an identifier without characters takes an
underscore behind it along.
-/

namespace CrateLedger.Mangled.V0

open Numeral

variable {input : Array Char} {p : Nat}

namespace Scan

/-! ## Characters -/

theorem lt_size_of_eq_some {c : Char} (h : input[p]? = some c) : p < input.size :=
  (Array.getElem?_eq_some_iff.1 h).1

theorem eat_of_eq {c : Char} (h : input[p]? = some c) : eat c input p = .ok (true, p + 1) := by
  rw [eat, if_pos h]

theorem eat_of_ne {c : Char} (h : input[p]? ≠ some c) : eat c input p = .ok (false, p) := by
  rw [eat, if_neg h]

theorem next_of_eq {c : Char} (h : input[p]? = some c) : next input p = .ok (c, p + 1) := by
  rw [next, h]

theorem peek_eq_ok {next : Option Char} {q : Nat} (h : peek input p = .ok (next, q)) :
    input[p]? = next ∧ q = p := by
  cases h
  exact ⟨rfl, rfl⟩

/-- A letter that stands for something that holds is noticed, and also when it is not there. -/
theorem flag_of_standsAt {tag : Char} {holds : Bool} (h : StandsAt input p (flagChars tag holds))
    (hnext : input[p + (flagChars tag holds).length]? ≠ some tag) :
    eat tag input p = .ok (holds, p + (flagChars tag holds).length) := by
  cases holds with
  | true => exact eat_of_eq (standsAt_cons.1 h).1
  | false => exact eat_of_ne hnext

theorem expect_of_eq {c : Char} (h : input[p]? = some c) : expect c input p = .ok ((), p + 1) := by
  rw [expect, Reader.bind_ok (eat_of_eq h)]
  rfl

/-- Characters that stand in the text are taken. -/
theorem take_of_standsAt {cs : List Char} (h : StandsAt input p cs) (hp : p ≤ input.size) :
    take cs.length input p = .ok (cs, p + cs.length) := by
  rw [take, if_pos (h.le_size hp), h.extract]

/-- A run of a class ends where its characters do. -/
theorem runAt_of_standsAt {belongs : Char → Bool} {cs : List Char} (h : StandsAt input p cs)
    (hcs : ∀ c ∈ cs, belongs c = true)
    (hnext : ∀ c, input[p + cs.length]? = some c → belongs c = false) :
    runAt belongs input p = cs := by
  induction cs generalizing p with
  | nil =>
    rw [runAt]
    split
    · rename_i hp
      have := hnext input[p] (by simp [hp])
      rw [if_neg (by simp [this])]
    · rfl
  | cons c cs ih =>
    obtain ⟨hc, hrest⟩ := standsAt_cons.1 h
    obtain ⟨hp, hc⟩ := Array.getElem?_eq_some_iff.1 hc
    have hend : p + 1 + cs.length = p + (cs.length + 1) := by omega
    rw [runAt, dif_pos hp, hc, if_pos (hcs c List.mem_cons_self),
      ih hrest (fun d hd => hcs d (List.mem_cons_of_mem c hd)) (by rwa [hend])]

theorem takeWhile_of_standsAt {belongs : Char → Bool} {cs : List Char} (h : StandsAt input p cs)
    (hcs : ∀ c ∈ cs, belongs c = true)
    (hnext : ∀ c, input[p + cs.length]? = some c → belongs c = false) :
    takeWhile belongs input p = .ok (cs, p + cs.length) := by
  simp only [takeWhile, runAt_of_standsAt h hcs hnext]

/-! ## Numbers -/

theorem digitChar_ne_zero : ∀ d < 10, d ≠ 0 → Nat.digitChar d ≠ '0' := by decide

theorem base62Value_base62Char : ∀ d < 62, base62Value (base62Char d) = d := by decide

theorem isAlphanum_base62Char : ∀ d < 62, (base62Char d).isAlphanum = true := by decide

theorem base62_of_standsAt {n : Nat} (h : StandsAt input p (base62Chars n)) :
    base62 input p = .ok (n, p + (base62Chars n).length) := by
  cases n with
  | zero =>
    rw [base62, Reader.bind_ok (eat_of_eq (standsAt_cons.1 h).1)]
    rfl
  | succ n =>
    have hdigit : ∀ c ∈ spelled base62Char 62 n, c.isAlphanum = true := by
      intro c hc
      obtain ⟨d, hd, rfl⟩ := exists_of_mem_spelled (by decide) hc
      exact isAlphanum_base62Char d hd
    have hend := (standsAt_cons.1 h.right).1
    have hstart : input[p]? ≠ some '_' := by
      obtain ⟨c, cs, hcs⟩ := List.exists_cons_of_ne_nil (spelled_ne_nil base62Char 62 n)
      have hc : input[p]? = some c := (standsAt_cons.1 (hcs ▸ h.left)).1
      intro hunderscore
      have : c.isAlphanum = true := hdigit c (hcs ▸ List.mem_cons_self)
      rw [hc] at hunderscore
      cases hunderscore
      cases this
    have hstop : ∀ c, input[p + (spelled base62Char 62 n).length]? = some c →
        c.isAlphanum = false := by
      intro c hc
      rw [hend] at hc
      cases hc
      rfl
    rw [base62, Reader.bind_ok (eat_of_ne hstart), if_neg Bool.false_ne_true,
      Reader.bind_ok (takeWhile_of_standsAt h.left hdigit hstop),
      Reader.bind_ok (expect_of_eq hend)]
    have hvalue : ofDigits 62 ((spelled base62Char 62 n).map base62Value) = n :=
      ofDigits_spelled (by decide) base62Value_base62Char n
    have hlength : (base62Chars (n + 1)).length = (spelled base62Char 62 n).length + 1 := by
      simp [base62Chars]
    rw [hvalue, hlength, ← Nat.add_assoc]
    rfl

/-- A number that is announced by a letter is read back, and it is noticed when there is none. -/
theorem tagged?_of_standsAt {tag : Char} {n : Option Nat}
    (h : StandsAt input p (taggedChars tag n)) (hnone : n = none → input[p]? ≠ some tag) :
    tagged? tag input p = .ok (n, p + (taggedChars tag n).length) := by
  cases n with
  | none =>
    rw [tagged?, Reader.bind_ok (eat_of_ne (hnone rfl))]
    rfl
  | some n =>
    obtain ⟨htag, hnumber⟩ := standsAt_cons.1 h
    have hlength : (taggedChars tag (some n)).length = (base62Chars n).length + 1 := rfl
    rw [tagged?, Reader.bind_ok (eat_of_eq htag), if_pos rfl,
      Reader.bind_ok (base62_of_standsAt hnumber), hlength, ← Nat.add_assoc, Nat.add_right_comm]
    rfl

theorem disambiguator_of_standsAt {n : Nat} (h : StandsAt input p (disambiguatorChars n))
    (hzero : n = 0 → input[p]? ≠ some 's') :
    disambiguator input p = .ok (n, p + (disambiguatorChars n).length) := by
  cases n with
  | zero =>
    have hread : tagged? 's' input p = .ok (none, p) :=
      tagged?_of_standsAt standsAt_nil fun _ => hzero rfl
    rw [disambiguator, Reader.bind_ok hread]
    rfl
  | succ n =>
    have hread : tagged? 's' input p = .ok (some n, p + (taggedChars 's' (some n)).length) :=
      tagged?_of_standsAt h nofun
    rw [disambiguator, Reader.bind_ok hread]
    rfl

/-- A length is read back if no digit follows, which it need not be known of a zero. -/
theorem decimal_of_standsAt {n : Nat} (h : StandsAt input p (Nat.toDigits 10 n))
    (hnext : n ≠ 0 → ∀ c, input[p + (Nat.toDigits 10 n).length]? = some c → c.isDigit = false) :
    decimal input p = .ok (n, p + (Nat.toDigits 10 n).length) := by
  by_cases hn : n = 0
  · subst hn
    have hzero : input[p]? = some '0' := (standsAt_cons.1 h).1
    rw [decimal, Reader.bind_ok (eat_of_eq hzero)]
    rfl
  · have hdigit : ∀ c ∈ Nat.toDigits 10 n, c.isDigit = true := fun c hc =>
      Nat.isDigit_of_mem_toDigits (by decide) (by decide) hc
    obtain ⟨d, rest, hd, hlt, hhead⟩ := exists_head_spelled Nat.digitChar (by decide : 1 < 10) hn
    rw [← toDigits_eq_spelled (by decide)] at hhead
    have hstart : input[p]? ≠ some '0' := by
      rw [(standsAt_cons.1 (hhead ▸ h)).1]
      intro hzero
      exact digitChar_ne_zero d hlt hd (Option.some.inj hzero)
    rw [decimal, Reader.bind_ok (eat_of_ne hstart), if_neg Bool.false_ne_true,
      Reader.bind_ok (takeWhile_of_standsAt h hdigit (hnext hn))]
    have hvalue := readDecimal_toDigits n
    rw [hhead] at hvalue ⊢
    show Except.ok (readDecimal (d.digitChar :: rest), _) = _
    rw [hvalue]

/-! ## Identifiers -/

/-- An identifier starts with a digit of its length. -/
theorem ne_of_standsAt_spelled {w : Word} (h : StandsAt input p w.spelled) {x : Char}
    (hx : x.isDigit = false) : input[p]? ≠ some x := by
  obtain ⟨c, cs, hcs⟩ := List.exists_cons_of_ne_nil
    (toDigits_ne_nil (by decide : 1 < 10) w.chars.length)
  have hdigit : c.isDigit = true :=
    Nat.isDigit_of_mem_toDigits (by decide) (by decide) (hcs ▸ List.mem_cons_self)
  have hlength : StandsAt input p (c :: cs) := hcs ▸ h.left.left
  rw [(standsAt_cons.1 hlength).1]
  rintro ⟨⟩
  rw [hdigit] at hx
  cases hx

/-- What the length, the separator and the characters of an identifier are read as, taken
together. -/
theorem rawIdentifier_eq {n q r r' : Nat} {apart : Bool} {cs : List Char}
    (hstart : input[p]? ≠ some 'u') (hlength : decimal input p = .ok (n, q))
    (hapart : eat '_' input q = .ok (apart, r)) (htake : take n input r = .ok (cs, r')) :
    rawIdentifier input p = .ok (Text.ofChars cs, r') := by
  rw [rawIdentifier, Reader.bind_ok (eat_of_ne hstart), Reader.bind_ok hlength,
    Reader.bind_ok hapart, Reader.bind_ok htake]
  rfl

/-- As many characters are taken as the length in front of them says, if a separator keeps them
apart where the length would take them along. -/
theorem prefixed_of_standsAt {cs : List Char} {apart : Bool} (hcs : cs ≠ [])
    (hapart : apart = false → ∀ c, cs.head? = some c → c.isDigit = false ∧ c ≠ '_')
    (h : StandsAt input p (Nat.toDigits 10 cs.length ++ flagChars '_' apart ++ cs)) :
    ∃ q r, decimal input p = .ok (cs.length, q) ∧ eat '_' input q = .ok (apart, r) ∧
      take cs.length input r
        = .ok (cs, p + (Nat.toDigits 10 cs.length ++ flagChars '_' apart ++ cs).length) := by
  have hpos : 0 < cs.length := List.length_pos_of_ne_nil hcs
  have hend := h.end_le (by rw [List.length_append]; omega)
  have hflag : StandsAt input (p + (Nat.toDigits 10 cs.length).length)
      (flagChars '_' apart ++ cs) := by
    rw [List.append_assoc] at h
    exact h.right
  have htext : StandsAt input (p + (Nat.toDigits 10 cs.length).length
      + (flagChars '_' apart).length) cs := hflag.right
  -- The digits of the length end at the separator or, without one, at the first character.
  have hbehind : (∀ d, input[p + (Nat.toDigits 10 cs.length).length]? = some d →
        d.isDigit = false) ∧
      eat '_' input (p + (Nat.toDigits 10 cs.length).length)
        = .ok (apart, p + (Nat.toDigits 10 cs.length).length + (flagChars '_' apart).length) := by
    cases apart with
    | true =>
      have hseparator := (standsAt_cons.1 hflag).1
      refine ⟨fun d hd => ?_, eat_of_eq hseparator⟩
      rw [hseparator] at hd
      cases hd
      rfl
    | false =>
      obtain ⟨c, rest, hhead⟩ := List.exists_cons_of_ne_nil hcs
      obtain ⟨hdigit, hne⟩ := hapart rfl c (by rw [hhead]; rfl)
      have hfirst : input[p + (Nat.toDigits 10 cs.length).length]? = some c := by
        generalize p + (Nat.toDigits 10 cs.length).length = q at hflag ⊢
        rw [hhead] at hflag
        exact (standsAt_cons.1 hflag).1
      refine ⟨fun d hd => ?_, eat_of_ne ?_⟩
      · rw [hfirst] at hd
        cases hd
        exact hdigit
      · rw [hfirst]
        exact fun heq => hne (Option.some.inj heq)
  have htake := take_of_standsAt htext (by simp only [List.length_append] at hend; omega)
  refine ⟨_, _, decimal_of_standsAt h.left.left fun _ => hbehind.1, hbehind.2, ?_⟩
  rw [htake, List.length_append, List.length_append, ← Nat.add_assoc, ← Nat.add_assoc]

theorem rawIdentifier_of_ne_nil {w : Word} (hw : w.chars ≠ []) (h : StandsAt input p w.spelled) :
    rawIdentifier input p = .ok (w.text, p + w.spelled.length) := by
  have hapart : w.needsSeparator = false →
      ∀ c, w.chars.head? = some c → c.isDigit = false ∧ c ≠ '_' := by
    intro hfalse c hc
    simpa [Word.needsSeparator, hc] using hfalse
  obtain ⟨q, r, hlength, hseparator, htake⟩ := prefixed_of_standsAt hw hapart h
  exact rawIdentifier_eq (ne_of_standsAt_spelled h rfl) hlength hseparator htake

/-- An identifier is read back. One without characters takes an underscore behind it along. -/
theorem rawIdentifier_of_standsAt {w : Word} (h : StandsAt input p w.spelled)
    (hp : p ≤ input.size) :
    ∃ q, rawIdentifier input p = .ok (w.text, q)
      ∧ (input[p + w.spelled.length]? ≠ some '_' → q = p + w.spelled.length) := by
  by_cases hw : w.chars = []
  · -- A zero ends its numeral, and then an underscore is taken for a separator.
    have hspelled : w.spelled = ['0'] := by simp [Word.spelled, Word.needsSeparator, flagChars, hw]
    have hstart : input[p]? ≠ some 'u' := ne_of_standsAt_spelled h rfl
    rw [hspelled] at h ⊢
    have hend : p + 1 ≤ input.size := h.le_size hp
    have hlength : decimal input p = .ok (0, p + 1) := decimal_of_standsAt (n := 0) h (by simp)
    rw [Word.text, hw]
    by_cases hnext : input[p + 1]? = some '_'
    · have hmore : p + 1 < input.size := (Array.getElem?_eq_some_iff.1 hnext).1
      exact ⟨p + 2, rawIdentifier_eq hstart hlength (eat_of_eq hnext)
        (take_of_standsAt standsAt_nil (by omega)), fun hne => absurd hnext hne⟩
    · exact ⟨p + 1, rawIdentifier_eq hstart hlength (eat_of_ne hnext)
        (take_of_standsAt standsAt_nil hend), fun _ => rfl⟩
  · exact ⟨_, rawIdentifier_of_ne_nil hw h, fun _ => rfl⟩

theorem identifier_of_standsAt {d : Nat} {w : Word}
    (h : StandsAt input p (disambiguatorChars d ++ w.spelled)) (hp : p ≤ input.size) :
    ∃ q, identifier input p = .ok ((d, w.text), q)
      ∧ (input[p + (disambiguatorChars d ++ w.spelled).length]? ≠ some '_' →
        q = p + (disambiguatorChars d ++ w.spelled).length) := by
  have hzero : d = 0 → input[p]? ≠ some 's' := by
    rintro rfl
    have hword : StandsAt input p w.spelled := h
    exact ne_of_standsAt_spelled hword rfl
  have hsize := h.left.le_size hp
  obtain ⟨q, hread, hend⟩ := rawIdentifier_of_standsAt h.right hsize
  refine ⟨q, ?_, ?_⟩
  · rw [identifier, Reader.bind_ok (disambiguator_of_standsAt h.left hzero), Reader.bind_ok hread]
    rfl
  · rw [List.length_append, ← Nat.add_assoc]
    exact hend

/-- A number of few digits passes. -/
theorem shown_of_isShort {n : Nat} (h : isShort n = true) (q : Nat) :
    shown n input q = .ok ((), q) := by
  rw [shown, if_pos h]
  rfl

/-- The name of an item is read like an identifier if its disambiguator can be shown where it is. -/
theorem itemName_of_identifier {space : Char} {d : Nat} {name : Text} {q : Nat}
    (hshort : space.isUpper = true → isShort d = true)
    (h : identifier input p = .ok ((d, name), q)) : itemName space input p = .ok ((d, name), q) := by
  rw [itemName, Reader.bind_ok h]
  show (if space.isUpper = true then _ else _ : Scan _) _ _ = _
  split
  · rename_i hupper
    rw [Reader.bind_ok (shown_of_isShort (hshort hupper) q)]
    rfl
  · rfl

theorem abi?_of_standsAt {abi : AbiSpelling} (h : StandsAt input p abi.chars)
    (hK : input[p + abi.chars.length]? ≠ some 'K')
    (hunderscore : input[p + abi.chars.length]? ≠ some '_') :
    Level.abi? input p = .ok (abi.tree, p + abi.chars.length) := by
  cases abi with
  | none =>
    have hstart : input[p]? ≠ some 'K' := hK
    rw [Level.abi?, Reader.bind_ok (eat_of_ne hstart)]
    rfl
  | c =>
    obtain ⟨hstart, hrest⟩ := standsAt_cons.1 h
    rw [Level.abi?, Reader.bind_ok (eat_of_eq hstart), if_pos rfl,
      Reader.bind_ok (eat_of_eq (standsAt_cons.1 hrest).1)]
    rfl
  | named name =>
    obtain ⟨hstart, hname⟩ := standsAt_cons.1 h
    have hC : input[p + 1]? ≠ some 'C' := ne_of_standsAt_spelled hname rfl
    have hsize := (Array.getElem?_eq_some_iff.1 hstart).1
    have hend : p + (AbiSpelling.named name).chars.length = p + 1 + name.spelled.length := by
      rw [AbiSpelling.chars, List.length_cons]
      omega
    rw [hend] at hunderscore ⊢
    obtain ⟨q, hread, hq⟩ := rawIdentifier_of_standsAt hname hsize
    rw [Level.abi?, Reader.bind_ok (eat_of_eq hstart), if_pos rfl, Reader.bind_ok (eat_of_ne hC),
      if_neg Bool.false_ne_true, Reader.bind_ok hread, ← hq hunderscore]
    rfl

/-! ## Constants -/

/-- A constant that refers to another is what that is, if it lies before. -/
theorem const_of_back {target after : Nat} (hB : input[p]? = some 'B')
    (hnumber : base62 input (p + 1) = .ok (target, after)) :
    const input p = if target < p then (const input target).map fun r => (r.1, after)
      else .error .invalid := by
  rw [const, hB]
  simp only [hnumber]
  split
  · cases const input target <;> rfl
  · rfl

/-- A constant is spelled out if no other letter starts it. -/
theorem const_of_ne (hplaceholder : input[p]? ≠ some 'p') (hB : input[p]? ≠ some 'B') :
    const input p = literal input p := by
  rw [const]
  split
  · rename_i h
    exact absurd h hplaceholder
  · rename_i h
    exact absurd h hB
  · rfl

/-- The parts of a constant that is spelled out in any hexadecimal digits are read. -/
theorem literal_eq_constOf {type : BasicType} {negative : Bool} {digits : List Char}
    (hhex : ∀ c ∈ digits, isHexDigit c = true)
    (h : StandsAt input p (type.tag :: ((flagChars 'n' negative ++ digits) ++ ['_']))) :
    literal input p = constOf type.tag negative (readHex digits) input
      (p + (type.tag :: ((flagChars 'n' negative ++ digits) ++ ['_'])).length) := by
  obtain ⟨htag, hrest⟩ := standsAt_cons.1 h
  have hend := (standsAt_cons.1 hrest.right).1
  rw [List.length_append, ← Nat.add_assoc] at hend
  have hstop : ∀ c, input[p + 1 + (flagChars 'n' negative).length + digits.length]? = some c →
      isHexDigit c = false := by
    intro c hc
    rw [hend] at hc
    cases hc
    rfl
  -- What follows the sign is a digit or the end, and no second sign.
  have hsign : input[p + 1 + (flagChars 'n' negative).length]? ≠ some 'n' := by
    intro hn
    cases digits with
    | nil =>
      rw [List.length_nil, Nat.add_zero, hn] at hend
      cases hend
    | cons d ds =>
      rw [(standsAt_cons.1 hrest.left.right).1] at hn
      cases hn
      cases hhex 'n' List.mem_cons_self
  rw [literal, Reader.bind_ok (next_of_eq htag),
    Reader.bind_ok (flag_of_standsAt hrest.left.left hsign),
    Reader.bind_ok (takeWhile_of_standsAt hrest.left.right hhex hstop),
    Reader.bind_ok (expect_of_eq hend)]
  congr 1
  simp only [List.length_cons, List.length_append, List.length_nil]
  omega

/-- A constant that is spelled out is read back. -/
theorem literal_of_standsAt {type : BasicType} {negative : Bool} {magnitude : Nat} {value : Const}
    (h : StandsAt input p (ConstSpelling.literalChars type negative magnitude))
    (hvalue : ∀ q, constOf type.tag negative magnitude input q = .ok (value, q)) :
    literal input p
      = .ok (value, p + (ConstSpelling.literalChars type negative magnitude).length) := by
  have hchars : ConstSpelling.literalChars type negative magnitude
      = type.tag :: ((flagChars 'n' negative ++ Nat.toDigits 16 magnitude) ++ ['_']) := by
    simp [ConstSpelling.literalChars]
  rw [hchars] at h ⊢
  rw [literal_eq_constOf (fun c hc => isHexDigit_of_mem_toDigits hc) h, readHex_toDigits, hvalue]

/-- A constant whose letter stands for a type is spelled out. -/
theorem const_eq_literal {type : BasicType} {rest : List Char}
    (h : StandsAt input p (type.tag :: rest)) (htype : type ≠ .placeholder) :
    const input p = literal input p := by
  rw [const, (standsAt_cons.1 h).1]
  cases type <;> first | rfl | exact absurd rfl htype

theorem constOf_integer {type : BasicType} (htype : type.isInteger = true) {value : Int}
    (hshort : isShort value.natAbs = true) (q : Nat) :
    constOf type.tag (value < 0) value.natAbs input q = .ok (.integer type value, q) := by
  have hof : constOf type.tag (value < 0) value.natAbs = (do
      shown value.natAbs
      return .integer type (if decide (value < 0) then -(value.natAbs : Int) else value.natAbs)) := by
    cases type <;> first | rfl | cases htype
  have hvalue : (if decide (value < 0) then -(value.natAbs : Int) else value.natAbs) = value := by
    by_cases hneg : value < 0
    · simp only [hneg, decide_true, if_true]
      omega
    · simp only [hneg, decide_false, Bool.false_eq_true, if_false]
      omega
  rw [hof, Reader.bind_ok (shown_of_isShort hshort q), hvalue]
  rfl

theorem constOf_char (value : CodePoint) (q : Nat) :
    constOf BasicType.char.tag false value.val input q = .ok (.char value, q) := by
  have hvalue : codePoint value.val = .ok value := dif_pos value.isLt
  have htype : BasicType.ofTag? BasicType.char.tag = some .char := rfl
  unfold constOf
  simp only [htype, hvalue]
  rfl

/-- A constant is read back. -/
theorem const_of_standsAt {s : ConstSpelling} (h : StandsAt input p s.chars)
    (hplaced : s.Placed input p) : const input p = .ok (s.tree, p + s.chars.length) := by
  induction s generalizing p with
  | placeholder =>
    rw [const, (standsAt_cons.1 h).1]
    rfl
  | bool value =>
    rw [const_eq_literal h nofun]
    exact literal_of_standsAt h fun q => by cases value <;> rfl
  | char value =>
    rw [const_eq_literal h nofun]
    exact literal_of_standsAt h (constOf_char value)
  | integer type htype value hshort =>
    rw [const_eq_literal h fun heq => by rw [heq] at htype; cases htype]
    exact literal_of_standsAt h (constOf_integer htype hshort)
  | back target original ih =>
    obtain ⟨hlt, htarget, horiginal⟩ := hplaced
    obtain ⟨hb, hnumber⟩ := standsAt_cons.1 h
    rw [const, hb]
    simp only [base62_of_standsAt hnumber, if_pos hlt, ih htarget horiginal]
    simp only [ConstSpelling.tree, ConstSpelling.chars, List.length_cons, Except.ok.injEq,
      Prod.mk.injEq, true_and]
    omega

end Scan

end CrateLedger.Mangled.V0
