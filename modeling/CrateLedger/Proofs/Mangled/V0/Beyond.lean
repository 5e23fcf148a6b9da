import CrateLedger.Proofs.Mangled.V0.Numbers
import CrateLedger.Proofs.Mangled.V0.Name

/-!
# v0 names that fail for a number

A constant that cannot be used among the generic arguments of a path, and the disambiguator of a
special item with too many digits. What stands before it is read, and then reading fails for good: no
production catches the failure of another.

Main statements: a name with such a constant and a name with such a disambiguator are not decoded.
-/

namespace CrateLedger.Mangled.V0

/-! ## Failing -/

section Failing

variable {α β : Type} {I : Memo → Prop} {input : Array Char} {p q : Nat}

/-- From any memory with a property a grammar fails for a number that cannot be used. -/
def Fails (I : Memo → Prop) (input : Array Char) (g : Grammar α) (p : Nat) : Prop :=
  ∀ memo, I memo → ∃ e, g input ⟨p, memo⟩ = .error (.number e)

theorem Fails.bind {g : Grammar α} (h : Fails I input g p) (f : α → Grammar β) :
    Fails I input (g >>= f) p := by
  intro memo hmemo
  obtain ⟨e, he⟩ := h memo hmemo
  exact ⟨e, Reader.bind_error he⟩

/-- Reading that fails behind something that is read fails as a whole. -/
theorem Reads.bindFails {g : Grammar α} {f : α → Grammar β} {a : α} (hg : Reads I input g p a q)
    (hf : Fails I input (f a) q) : Fails I input (g >>= f) p := by
  intro memo hmemo
  obtain ⟨memo', hmemo', hread⟩ := hg memo hmemo
  obtain ⟨e, he⟩ := hf memo' hmemo'
  exact ⟨e, by rw [Reader.bind_ok hread, he]⟩

theorem Fails.scan {reader : Scan α} {e : NumberError}
    (h : reader input p = .error (.number e)) : Fails I input (Grammar.scan reader) p := by
  intro memo _
  refine ⟨e, ?_⟩
  rw [Grammar.scan, h]

/-- What is not remembered is read, and fails if reading it does. -/
theorem Fails.remembered {level : Level} {inValue : Bool} {memo : Memo}
    (h : Fails I input (level.path inValue) p) (hmemo : I memo)
    (hnone : memo.paths[(p, inValue)]? = none) :
    ∃ e, (Level.remembering level).path inValue input ⟨p, memo⟩ = .error (.number e) := by
  obtain ⟨e, he⟩ := h memo hmemo
  refine ⟨e, ?_⟩
  rw [Level.remembering_path]
  exact MemoPart.remembered_of_error hnone he

end Failing

/-! ## Names -/

/-- The path of a name, read afresh. -/
abbrev namePath : Grammar TracedPath :=
  (Level.productions (Level.memoised (maxDepth - 1))).path true

/-- A name whose path fails is not decoded. -/
theorem decode_eq_error_of_fails {start : Text} (hstart : start ∈ prefixes) {tag : Char}
    {rest : List Char} (htag : tag.isDigit = false) (hascii : IsAscii (tag :: rest))
    (h : Fails (Memo.Known (tag :: rest).toArray) (tag :: rest).toArray namePath 0) :
    ∃ e, Name.decode (start ++ Text.ofChars (tag :: rest)) = .error e := by
  obtain ⟨e, he⟩ := h.remembered Memo.known_empty (by simp)
  have hsymbol : symbol (Level.memoised maxDepth) (tag :: rest).toArray ⟨0, {}⟩
      = .error (.number e) := Reader.bind_error he
  have hread : readSymbol (Level.memoised maxDepth) (tag :: rest).toArray = .error (.number e) := by
    rw [readSymbol, hsymbol]
  have hstarts : ¬ (tag :: rest = [] ∨ (tag :: rest).head?.any Char.isDigit = true) := by
    simp [htag]
  have hparse : parse? (start ++ Text.ofChars (tag :: rest)) = .error e := by
    rw [parse?, asciiBehind?_append hstart NameSpelling.prefixes_apart hascii]
    simp only [if_neg hstarts, hread]
  exact ⟨e, by rw [Name.decode, NameSpelling.legacy_parse?_eq_none hstart, hparse]; rfl⟩

theorem standsAt_input (chars : List Char) : StandsAt chars.toArray 0 chars := by
  simpa using standsAt_toArray chars []

/-! ## Constants -/

/-- How a path is spelled whose generic arguments end in a constant that cannot be used, and what
comes behind it. -/
structure BeyondSpelling where
  /-- The path without its generic arguments. -/
  base : PathSpelling
  /-- The generic arguments before the constant. -/
  args : List ArgSpelling := []
  /-- The type of the constant. -/
  type : BasicType
  /-- Whether the constant has a sign. -/
  negative : Bool := false
  /-- The hexadecimal digits of the constant. -/
  digits : List Char
  /-- What comes behind the constant. -/
  rest : List Char := []

namespace BeyondSpelling

/-- The characters of the constant. -/
def constChars (m : BeyondSpelling) : List Char :=
  m.type.tag :: ((flagChars 'n' m.negative ++ m.digits) ++ ['_'])

/-- The characters behind the letter of the path. -/
def inner (m : BeyondSpelling) : List Char :=
  m.base.chars ++ (ArgSpelling.allChars m.args ++ 'K' :: (m.constChars ++ m.rest))

/-- The characters of the spelling. -/
def chars (m : BeyondSpelling) : List Char := 'I' :: m.inner

/-- The text that references lead back in. -/
def input (m : BeyondSpelling) : Array Char := m.chars.toArray

/-- What stands before the constant is spelled as in any other name, and the constant cannot be
used. -/
structure WellFormed (m : BeyondSpelling) : Prop where
  base_placed : m.base.Placed m.input 1
  args_placed : ArgSpelling.AllPlaced m.input (1 + m.base.chars.length) m.args
  base_depth : m.base.depth < maxDepth
  args_depth : ArgSpelling.maxDepth m.args < maxDepth
  fits : (PathSpelling.generic m.base m.args).FitsHost
  hex : ∀ d ∈ m.digits, Numeral.isHexDigit d = true
  unusable : IsUnusable m.type (Numeral.readHex m.digits)
  rest_ascii : IsAscii m.rest

variable {m : BeyondSpelling} {I : Memo → Prop} {text : Array Char} {p n : Nat}

/-- The constant fails. -/
theorem const_eq_error (hm : m.WellFormed) (h : StandsAt text p m.constChars) :
    ∃ e, Scan.const text p = .error (.number e) := by
  have htype : m.type ≠ .placeholder := by
    intro heq
    rcases hm.unusable with ⟨hchar, -⟩ | ⟨hinteger, -⟩
    · rw [heq] at hchar
      cases hchar
    · rw [heq] at hinteger
      cases hinteger
  rw [Scan.const_eq_literal h htype, Scan.literal_eq_constOf hm.hex h]
  exact Scan.exists_constOf_eq_error hm.unusable m.negative _

theorem genericArg_fails {level : Level} (hm : m.WellFormed)
    (h : StandsAt text p ('K' :: (m.constChars ++ m.rest))) : Fails I text level.genericArg p := by
  obtain ⟨hK, hconst⟩ := standsAt_cons.1 h
  have hL : text[p]? ≠ some 'L' := by
    rw [hK]
    decide
  obtain ⟨e, he⟩ := const_eq_error hm hconst.left
  refine (Reads.scan (Scan.eat_of_ne hL)).bindFails ?_
  refine (Reads.scan (Scan.eat_of_eq hK)).bindFails ?_
  exact (Fails.scan he).bind _

/-- The arguments before the constant are read one after the other, and then it fails. -/
theorem args_fail {level level' : Level} (hm : m.WellFormed) (hlevel : level.ReadsSpellings text n)
    (hfollows : Level.Follows Anything I text (fun _ => level') level)
    {as : List ArgSpelling} (hdepth : ArgSpelling.maxDepth as ≤ n)
    (hplaced : ArgSpelling.AllPlaced text p as)
    (hstands : StandsAt text p (ArgSpelling.allChars as ++ 'K' :: (m.constChars ++ m.rest)))
    {attempts : Nat} (hattempts : text.size < p + attempts) :
    Fails I text (Grammar.manyWithin (Scan.eat 'E') level'.genericArg attempts) p := by
  induction as generalizing p attempts with
  | nil =>
    rw [ArgSpelling.allChars, List.nil_append] at hstands
    have hK := (standsAt_cons.1 hstands).1
    have hE : text[p]? ≠ some 'E' := by
      rw [hK]
      decide
    have hsize := (Array.getElem?_eq_some_iff.1 hK).1
    obtain ⟨attempts, rfl⟩ : ∃ k, attempts = k + 1 := ⟨attempts - 1, by omega⟩
    exact (Reads.scan (Scan.eat_of_ne hE)).bindFails ((genericArg_fails hm hstands).bind _)
  | cons a as ih =>
    rw [ArgSpelling.allChars, List.append_assoc] at hstands
    rw [ArgSpelling.maxDepth, Nat.max_le] at hdepth
    rw [ArgSpelling.AllPlaced] at hplaced
    have hE : text[p]? ≠ some 'E' := a.startsIn.ne hstands.left (by decide)
    have hnext : text[p + a.chars.length]? ≠ some '_' :=
      (startsIn_concat (ArgSpelling.startsIn_allChars as) _).ne hstands.right (by decide)
    have hread := (hlevel.genericArg hdepth.1 hplaced.1 hstands.left hnext).mono hfollows.genericArg
    have hsize := a.startsIn.lt_size hstands.left
    have hpos : 0 < a.chars.length := a.startsIn.length_pos
    obtain ⟨attempts, rfl⟩ : ∃ k, attempts = k + 1 := ⟨attempts - 1, by omega⟩
    refine (Reads.scan (Scan.eat_of_ne hE)).bindFails (hread.bindFails ?_)
    exact (ih hdepth.2 hplaced.2 hstands.right (by omega)).bind _

/-- The path of the name fails where it is read afresh. -/
theorem namePath_fails (h : m.WellFormed) : Fails (Memo.Known m.input) m.input namePath 0 := by
  obtain ⟨hI, hrest⟩ := standsAt_cons.1 (standsAt_input m.chars)
  rw [Nat.zero_add, inner] at hrest
  have hlevel := @Level.plain_readsSpellings m.input (maxDepth - 1)
  have hfollows := @Level.memoised_follows_plain m.input (maxDepth - 1)
  have hnext : m.input[1 + m.base.chars.length]? ≠ some '_' :=
    (startsIn_concat (ArgSpelling.startsIn_allChars m.args) _).ne hrest.right (by decide)
  have hbase := (hlevel.path m.base true 1 (Nat.le_sub_one_of_lt h.base_depth) hrest.left
    h.base_placed).reads hnext
  have hargs : Fails (Memo.Known m.input) m.input
      (Grammar.untilE (Level.memoised (maxDepth - 1)).genericArg) (1 + m.base.chars.length) := by
    -- There are as many attempts as characters left.
    show Fails _ _ (Grammar.manyWithin _ _ (m.input.size + 1 - (1 + m.base.chars.length))) _
    exact args_fail h hlevel hfollows (Nat.le_sub_one_of_lt h.args_depth) h.args_placed
      hrest.right (by omega)
  refine (Reads.scan (Scan.next_of_eq hI)).bindFails ?_
  exact (hbase.mono (hfollows.path true)).bindFails (hargs.bind _)

theorem isAscii_chars (h : m.WellFormed) : IsAscii m.chars := by
  have hdigits : IsAscii m.digits := by
    intro c hc
    have hhex := h.hex c hc
    simp only [Numeral.isHexDigit, Bool.or_eq_true, Bool.and_eq_true, decide_eq_true_eq] at hhex
    rcases hhex with hdigit | hletter
    · exact toNat_lt_of_isAlphanum (by simp [Char.isAlphanum, hdigit])
    · exact Nat.lt_of_le_of_lt (UInt32.le_iff_toNat_le.1 hletter.2) (by decide)
  simp [chars, inner, constChars, hdigits, m.base.isAscii_chars, ArgSpelling.isAscii_allChars,
    BasicType.toNat_tag_lt, h.rest_ascii]

/-- **Constants.** A name is not decoded if the generic arguments of its path have a constant that
cannot be used. -/
theorem decode_eq_error {start : Text} (hstart : start ∈ prefixes) (h : m.WellFormed) :
    ∃ e, Name.decode (start ++ Text.ofChars m.chars) = .error e :=
  decode_eq_error_of_fails hstart rfl (isAscii_chars h) (namePath_fails h)

/-- A function `a::b`. -/
def sampleBase : PathSpelling :=
  .nested 'v' (Eq.refl true) (.crateRoot 0 ⟨"a".toList, by decide⟩) 0 ⟨"b".toList, by decide⟩
    fun _ => rfl

theorem sampleBase_placed (input : Array Char) (p : Nat) : sampleBase.Placed input p := by
  simp [sampleBase]

theorem placed_nil (input : Array Char) (p : Nat) : ArgSpelling.AllPlaced input p [] := by simp

/-- The function with a generic argument, an integer of 3600 hexadecimal digits. -/
def sampleLong : BeyondSpelling where
  base := sampleBase
  type := .usize
  digits := List.replicate 3600 'f'
  rest := ['E']

theorem sampleLong_wellFormed : sampleLong.WellFormed where
  base_placed := sampleBase_placed _ _
  args_placed := placed_nil _ _
  base_depth := by decide
  args_depth := by decide
  fits := by decide
  hex := by
    intro c hc
    rw [List.eq_of_mem_replicate hc]
    rfl
  unusable := by
    refine .inr ⟨rfl, Numeral.isShort_eq_false_iff.2 ?_⟩
    decide +kernel
  rest_ascii := isAscii_cons.2 ⟨by decide, isAscii_nil⟩

/-- It is not decoded. -/
theorem decode_sampleLong :
    ∃ e, Name.decode ("_R" ++ Text.ofChars
      ("INvC1a1bKj".toList ++ List.replicate 3600 'f' ++ "_E".toList)) = .error e := by
  have hchars : sampleLong.chars
      = "INvC1a1bKj".toList ++ List.replicate 3600 'f' ++ "_E".toList := by
    decide +kernel
  rw [← hchars]
  exact decode_eq_error (by decide) sampleLong_wellFormed

end BeyondSpelling

/-! ## Disambiguators -/

/-- How a special item is spelled whose disambiguator has too many digits, and what comes behind
it. -/
structure OverlongSpelling where
  /-- The namespace of the item. -/
  space : Char
  /-- The path that the item is in. -/
  parent : PathSpelling
  /-- Its disambiguator. -/
  disambiguator : Nat
  /-- Its name. -/
  name : Word
  /-- What comes behind it. -/
  rest : List Char := []

namespace OverlongSpelling

/-- The characters behind the letter of the path. -/
def inner (m : OverlongSpelling) : List Char :=
  m.space :: (m.parent.chars ++ ((disambiguatorChars m.disambiguator ++ m.name.spelled) ++ m.rest))

/-- The characters of the spelling. -/
def chars (m : OverlongSpelling) : List Char := 'N' :: m.inner

/-- The text that references lead back in. -/
def input (m : OverlongSpelling) : Array Char := m.chars.toArray

/-- The path around the item is spelled as in any other name, and the disambiguator cannot be
shown, which it has to be. -/
structure WellFormed (m : OverlongSpelling) : Prop where
  isUpper : m.space.isUpper = true
  parent_placed : m.parent.Placed m.input 2
  parent_depth : m.parent.depth < maxDepth
  fits : 4 * (m.parent.depth + 1) + 2 * m.parent.references ≤ hostRoom
  long : Numeral.isShort m.disambiguator = false
  rest_ascii : IsAscii m.rest

variable {m : OverlongSpelling}

theorem WellFormed.isAlpha (h : m.WellFormed) : m.space.isAlpha = true :=
  Bool.or_eq_true_iff.2 (.inl h.isUpper)

/-- The name of the item fails. -/
theorem itemName_eq_error {input : Array Char} {p : Nat} (hm : m.WellFormed)
    (h : StandsAt input p (disambiguatorChars m.disambiguator ++ m.name.spelled))
    (hp : p ≤ input.size) : ∃ e, Scan.itemName m.space input p = .error (.number e) := by
  obtain ⟨q, hread, -⟩ := Scan.identifier_of_standsAt h hp
  refine ⟨.tooLong (Nat.toDigits 10 m.disambiguator).length, ?_⟩
  rw [Scan.itemName, Reader.bind_ok hread]
  show (if m.space.isUpper = true then _ else _ : Scan _) _ _ = _
  rw [if_pos hm.isUpper]
  refine Reader.bind_error ?_
  rw [Scan.shown, if_neg (by simp [hm.long])]
  rfl

/-- The path of the name fails where it is read afresh. -/
theorem namePath_fails (h : m.WellFormed) : Fails (Memo.Known m.input) m.input namePath 0 := by
  obtain ⟨hN, hrest⟩ := standsAt_cons.1 (standsAt_input m.chars)
  obtain ⟨hspace, hrest⟩ := standsAt_cons.1 hrest
  rw [Nat.zero_add] at hspace hrest
  have hname := hrest.right.left
  have hparent := ((@Level.plain_readsSpellings m.input (maxDepth - 1)).path m.parent true 2
    (Nat.le_sub_one_of_lt h.parent_depth) hrest.left h.parent_placed).reads
      (not_underscore_of_identifier hname)
  have hsize := hrest.left.le_size (m.parent.startsIn.lt_size hrest.left).le
  obtain ⟨e, he⟩ := itemName_eq_error h hname hsize
  have hfollows := @Level.memoised_follows_plain m.input (maxDepth - 1)
  refine (Reads.scan (Scan.next_of_eq hN)).bindFails ?_
  refine (Reads.scan (Scan.next_of_eq hspace)).bindFails ?_
  show Fails _ _ (if m.space.isAlpha = true then _ else _) _
  rw [if_pos h.isAlpha]
  exact (hparent.mono (hfollows.path true)).bindFails ((Fails.scan he).bind _)

theorem isAscii_chars (h : m.WellFormed) : IsAscii m.chars := by
  have hspace : m.space.toNat < 0x80 :=
    toNat_lt_of_isAlphanum (Bool.or_eq_true_iff.2 (.inl h.isAlpha))
  simp [chars, inner, hspace, m.parent.isAscii_chars, h.rest_ascii]

/-- **Disambiguators.** A name is not decoded if it is that of a special item whose disambiguator
has too many digits. -/
theorem decode_eq_error {start : Text} (hstart : start ∈ prefixes) (h : m.WellFormed) :
    ∃ e, Name.decode (start ++ Text.ofChars m.chars) = .error e :=
  decode_eq_error_of_fails hstart rfl (isAscii_chars h) (namePath_fails h)

end OverlongSpelling

end CrateLedger.Mangled.V0
