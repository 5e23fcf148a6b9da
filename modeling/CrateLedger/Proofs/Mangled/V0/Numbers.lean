import CrateLedger.Proofs.Mangled.V0.Productions
import CrateLedger.Proofs.Mangled.V0.Reader
import CrateLedger.Proofs.Placement

/-!
# Numbers that fail a v0 name

Where the text of a name does not follow the grammar, reading ends without a path. The only other
ways to fail are numbers that cannot be used: a constant of type `char` whose number is no code
point, and an integer constant or a disambiguator that has too many digits to be shown. That this is
so is kept by every production and by the memory, so it climbs up a tower of levels.

Main statement: reading a v0 name fails only if such a number stands in it.
-/

namespace CrateLedger.Mangled

theorem codePoint_eq_error_iff {n : Nat} : (∃ e, codePoint n = .error e) ↔ 0x110000 ≤ n := by
  unfold codePoint
  split
  · simpa using by omega
  · split
    · simpa using by omega
    · simpa using by omega

namespace V0

variable {σ α β : Type} {input : Array Char} {p : Nat}

/-- The number of a constant that cannot be used: a character that does not exist, or an integer with
too many digits. -/
def IsUnusable (type : BasicType) (n : Nat) : Prop :=
  (type = .char ∧ 0x110000 ≤ n) ∨ (type.isInteger = true ∧ Numeral.isShort n = false)

/-- A constant stands at a position: the letter of its type, a sign if there is one, hexadecimal
digits and an underscore. -/
structure LiteralAt (input : Array Char) (p : Nat) (type : BasicType) (digits : List Char) :
    Prop where
  hex : ∀ d ∈ digits, Numeral.isHexDigit d = true
  stands : ∃ sign, (sign = [] ∨ sign = ['n']) ∧
    StandsAt input p (type.tag :: sign ++ digits ++ ['_'])

/-- A disambiguator stands at a position: its letter, base-62 digits and an underscore. -/
structure DisambiguatorAt (input : Array Char) (p : Nat) (digits : List Char) : Prop where
  isAlphanum : ∀ d ∈ digits, d.isAlphanum = true
  stands : StandsAt input p ('s' :: digits ++ ['_'])

/-- A number that cannot be used stands somewhere. -/
inductive SpellsBeyond (input : Array Char) : Prop where
  /-- It is that of a constant. -/
  | constant {p : Nat} {type : BasicType} {digits : List Char}
    (stands : LiteralAt input p type digits) (unusable : IsUnusable type (Numeral.readHex digits))
  /-- It is a disambiguator with too many digits. -/
  | disambiguator {p : Nat} {digits : List Char} (stands : DisambiguatorAt input p digits)
    (long : Numeral.isShort (Numeral.ofDigits 62 (digits.map Scan.base62Value) + 2) = false)

/-- A reader that fails in no other way than `invalid`, unless a number that cannot be used stands in
the text. -/
def Raises (input : Array Char) (reader : Reader σ α) : Prop :=
  ∀ state e, reader input state = .error (.number e) → SpellsBeyond input

namespace Raises

theorem pure (a : α) : Raises input (Pure.pure a : Reader σ α) := by
  intro state e h
  cases h

theorem invalid : Raises input (Reader.invalid : Reader σ α) := by
  intro state e h
  cases h

theorem bind {reader : Reader σ α} {next : α → Reader σ β} (h : Raises input reader)
    (hnext : ∀ a, Raises input (next a)) : Raises input (reader >>= next) := by
  intro state e herror
  rcases Reader.bind_eq_error herror with hfirst | ⟨a, state', -, hsecond⟩
  · exact h _ _ hfirst
  · exact hnext _ _ _ hsecond

theorem ite {c : Prop} [Decidable c] {reader reader' : Reader σ α} (h : Raises input reader)
    (h' : Raises input reader') : Raises input (if c then reader else reader') := by
  split
  · exact h
  · exact h'

end Raises

/-! ## Numbers -/

namespace Scan

theorem closed_raises : Closed fun {_} _ r => Raises input r where
  pure := Raises.pure
  invalid _ := Raises.invalid
  bind := Raises.bind
  mono _ h := h
  next p e h := by
    unfold next at h
    split at h <;> cases h
  eat c _ p e h := by
    unfold eat at h
    split at h <;> cases h
  take n p e h := by
    unfold take at h
    split at h <;> cases h
  takeWhile belongs _ p e h := by
    cases h

/-- What a reader of a class of characters has taken. -/
theorem runAt_spec (belongs : Char → Bool) (p : Nat) :
    StandsAt input p (runAt belongs input p) ∧
      ∀ c ∈ runAt belongs input p, belongs c = true := by
  fun_induction runAt belongs input p with
  | case1 p hp hc ih =>
    refine ⟨standsAt_cons.2 ⟨Array.getElem?_eq_getElem hp, ih.1⟩, ?_⟩
    exact List.forall_mem_cons.2 ⟨hc, ih.2⟩
  | case2 => simp
  | case3 => simp

theorem eat_spec {c : Char} {b : Bool} {q : Nat} (h : eat c input p = .ok (b, q)) :
    ∃ taken, (taken = [] ∨ taken = [c]) ∧ StandsAt input p taken ∧ q = p + taken.length ∧
      (b = true → taken = [c]) := by
  unfold eat at h
  split at h
  · rename_i hc
    cases h
    exact ⟨[c], .inr rfl, standsAt_cons.2 ⟨hc, standsAt_nil⟩, rfl, fun _ => rfl⟩
  · cases h
    exact ⟨[], .inl rfl, standsAt_nil, rfl, nofun⟩

theorem eat_eq_false {c : Char} {q : Nat} (h : eat c input p = .ok (false, q)) : p = q := by
  unfold eat at h
  split at h <;> cases h
  rfl

theorem expect_spec {c : Char} {u : Unit} {q : Nat} (h : expect c input p = .ok (u, q)) :
    input[p]? = some c := by
  by_contra hne
  unfold expect eat at h
  change Reader.bind _ _ input p = _ at h
  simp only [Reader.bind, if_neg hne] at h
  cases h

/-- A number is zero, or it is written in digits up to an underscore. -/
theorem base62_spec {n q : Nat} (h : base62 input p = .ok (n, q)) :
    n = 0 ∨ ∃ digits, (∀ d ∈ digits, d.isAlphanum = true) ∧
      StandsAt input p (digits ++ ['_']) ∧ n = Numeral.ofDigits 62 (digits.map base62Value) + 1 := by
  obtain ⟨found, p₁, hfound, h⟩ := Reader.bind_eq_ok h
  cases found with
  | true =>
    cases h
    exact .inl rfl
  | false =>
    obtain rfl := eat_eq_false hfound
    rw [if_neg Bool.false_ne_true] at h
    obtain ⟨digits, p₂, hdigits, h⟩ := Reader.bind_eq_ok h
    cases hdigits
    obtain ⟨u, p₃, hend, hvalue⟩ := Reader.bind_eq_ok h
    cases hvalue
    obtain ⟨hstands, halphanum⟩ := @runAt_spec input Char.isAlphanum p
    exact .inr ⟨_, halphanum, standsAt_append.2
      ⟨hstands, standsAt_cons.2 ⟨expect_spec hend, standsAt_nil⟩⟩, rfl⟩

/-- A disambiguator above one is written. -/
theorem disambiguator_spec {d q : Nat} (h : disambiguator input p = .ok (d, q)) :
    d ≤ 1 ∨ ∃ digits, DisambiguatorAt input p digits ∧
      d = Numeral.ofDigits 62 (digits.map base62Value) + 2 := by
  obtain ⟨n?, p₁, htagged, h⟩ := Reader.bind_eq_ok h
  obtain ⟨found, p₂, hfound, htagged⟩ := Reader.bind_eq_ok htagged
  cases found with
  | false =>
    cases htagged
    cases h
    exact .inl (Nat.zero_le 1)
  | true =>
    obtain ⟨n, p₃, hnumber, htagged⟩ := Reader.bind_eq_ok htagged
    cases htagged
    cases h
    obtain ⟨taken, -, hs, rfl, htaken⟩ := eat_spec hfound
    cases htaken rfl
    rcases base62_spec hnumber with rfl | ⟨digits, halphanum, hstands, rfl⟩
    · exact .inl (Nat.le_refl 1)
    · refine .inr ⟨digits, ⟨halphanum, ?_⟩, rfl⟩
      exact standsAt_cons.2 ⟨(standsAt_cons.1 hs).1, hstands⟩

theorem shown_eq_error {n : Nat} {e : NumberError} (h : shown n input p = .error (.number e)) :
    Numeral.isShort n = false := by
  by_contra hshort
  rw [shown, if_pos (by simpa using hshort)] at h
  cases h

/-- The name of an item fails only for its disambiguator. -/
theorem raises_itemName (space : Char) : Raises input (itemName space) := by
  intro p e h
  rcases Reader.bind_eq_error h with hfirst | ⟨⟨d, name⟩, p₁, hidentifier, h⟩
  · exact closed_raises.identifier _ _ hfirst
  have hlong : Numeral.isShort d = false := by
    change (if space.isUpper = true then _ else _ : Scan _) _ _ = _ at h
    split at h
    · rcases Reader.bind_eq_error h with hshown | ⟨u, p₂, -, h⟩
      · exact shown_eq_error hshown
      · cases h
    · cases h
  obtain ⟨d', p₂, hd, hidentifier⟩ := Reader.bind_eq_ok hidentifier
  obtain ⟨name', p₃, -, hidentifier⟩ := Reader.bind_eq_ok hidentifier
  cases hidentifier
  rcases disambiguator_spec hd with hle | ⟨digits, hstands, rfl⟩
  · have hshort : ∀ d ≤ 1, Numeral.isShort d = true := by decide
    rw [hshort d hle] at hlong
    cases hlong
  · exact .disambiguator hstands hlong

theorem tag_of_ofTag? {tag : Char} {type : BasicType} (h : BasicType.ofTag? tag = some type) :
    tag = type.tag := by
  unfold BasicType.ofTag? at h
  split at h <;> cases h <;> rfl

/-- A constant fails only for its number. -/
theorem constOf_eq_error {tag : Char} {negative : Bool} {n : Nat} {e : NumberError}
    (h : constOf tag negative n input p = .error (.number e)) :
    ∃ type : BasicType, tag = type.tag ∧ IsUnusable type n := by
  cases htype : BasicType.ofTag? tag with
  | none =>
    simp only [constOf, htype] at h
    cases h
  | some type =>
    refine ⟨type, tag_of_ofTag? htype, ?_⟩
    have hinteger (h : (if type.isInteger = true then
        shown n >>= fun _ => pure (.integer type (if negative then -(n : Int) else n))
        else Reader.invalid : Scan Const) input p = .error (.number e)) :
        IsUnusable type n := by
      split at h
      · rename_i hinteger
        rcases Reader.bind_eq_error h with hshown | ⟨u, p₁, -, h⟩
        · exact .inr ⟨hinteger, shown_eq_error hshown⟩
        · cases h
      · cases h
    cases type with
    | bool =>
      simp only [constOf, htype] at h
      split at h <;> cases h
    | char =>
      refine .inl ⟨rfl, ?_⟩
      by_contra hn
      simp only [constOf, htype] at h
      rw [codePoint, dif_pos (by omega)] at h
      cases h
    | _ =>
      simp only [constOf, htype] at h
      exact hinteger h

/-- It does fail for such a number. -/
theorem exists_constOf_eq_error {type : BasicType} {n : Nat} (h : IsUnusable type n)
    (negative : Bool) (q : Nat) :
    ∃ e, constOf type.tag negative n input q = .error (.number e) := by
  rcases h with ⟨rfl, hbeyond⟩ | ⟨hinteger, hlong⟩
  · obtain ⟨e, he⟩ := codePoint_eq_error_iff.2 hbeyond
    have htype : BasicType.ofTag? BasicType.char.tag = some .char := rfl
    refine ⟨e, ?_⟩
    simp only [constOf, htype, he]
    rfl
  · have hof : constOf type.tag negative n = (do
        shown n
        return .integer type (if negative then -(n : Int) else n)) := by
      cases type <;> first | rfl | cases hinteger
    have hraise : shown n input q = .error (.number (.tooLong (Nat.toDigits 10 n).length)) := by
      rw [shown, if_neg (by simp [hlong])]
      rfl
    exact ⟨_, hof ▸ Reader.bind_error hraise⟩

theorem raises_literal : Raises input literal := by
  intro p e h
  rcases Reader.bind_eq_error h with hfirst | ⟨tag, p₁, htag, h⟩
  · exact closed_raises.next _ _ hfirst
  rcases Reader.bind_eq_error h with hfirst | ⟨negative, p₂, hsign, h⟩
  · exact closed_raises.eat 'n' (by decide) _ _ hfirst
  rcases Reader.bind_eq_error h with hfirst | ⟨digits, p₃, hdigits, h⟩
  · cases hfirst
  rcases Reader.bind_eq_error h with hfirst | ⟨u, p₄, hend, h⟩
  · exact closed_raises.expect (by decide) _ _ hfirst
  obtain ⟨type, rfl, hunusable⟩ := constOf_eq_error h
  obtain ⟨sign, hsigns, hsignAt, rfl, -⟩ := eat_spec hsign
  obtain ⟨hdigitsAt, hhex⟩ := @runAt_spec input Numeral.isHexDigit (p₁ + sign.length)
  cases hdigits
  unfold next at htag
  split at htag
  · rename_i c hc
    cases htag
    refine .constant (p := p) ⟨hhex, sign, hsigns, ?_⟩ hunusable
    rw [List.append_assoc, List.cons_append, standsAt_cons, standsAt_append, standsAt_append]
    refine ⟨hc, hsignAt, hdigitsAt, ?_⟩
    exact standsAt_cons.2 ⟨expect_spec hend, standsAt_nil⟩
  · cases htag

theorem raises_const : Raises input const := by
  intro p e h
  fun_induction const input p with
  | case1 => cases h
  | case2 p _ target after htarget hlt value q hvalue ih => cases h
  | case3 p _ target after htarget hlt e' he ih =>
    cases h
    exact ih he
  | case4 => cases h
  | case5 p _ e' he =>
    cases h
    exact closed_raises.base62 _ _ he
  | case6 p _ _ => exact raises_literal _ _ h

end Scan

/-! ## Productions -/

namespace Raises

theorem scan {reader : Scan α} (h : Raises input reader) : Raises input (Grammar.scan reader) := by
  intro cursor e herror
  unfold Grammar.scan at herror
  split at herror
  · cases herror
  · rename_i failure hscan
    cases herror
    exact h _ _ hscan

theorem position : Raises input Grammar.position := by
  intro cursor e h
  cases h

theorem seek (p : Nat) : Raises input (Grammar.seek p) := by
  intro cursor e h
  cases h

variable {isEnd : Scan Bool} {item : Grammar α}

theorem many (hend : Raises input isEnd) (h : Raises input item) :
    Raises input (Grammar.many isEnd item) := by
  have hwithin (n : Nat) : Raises input (Grammar.manyWithin isEnd item n) := by
    induction n with
    | zero => exact invalid
    | succ n ih =>
      exact (scan hend).bind fun _ => ite (pure []) (h.bind fun _ => ih.bind fun _ => pure _)
  exact fun cursor => hwithin (input.size + 1 - cursor.position) cursor

theorem backReference (h : Raises input item) : Raises input (Grammar.backReference item) :=
  position.bind fun _ => (scan Scan.closed_raises.base62).bind fun target => ite
    (position.bind fun _ => (seek target).bind fun _ => h.bind fun _ => (seek _).bind fun _ =>
      pure _)
    invalid

theorem peek : Raises input (Grammar.scan Scan.peek) :=
  scan fun _ _ h => by cases h

/-- What is remembered was read without a failure. -/
theorem remembered {part : MemoPart α} {g : Grammar α} (h : Raises input g) :
    Raises input (part.remembered g) :=
  fun cursor e herror => h cursor e (MemoPart.remembered_eq_error herror)

end Raises

/-- The productions keep failing in no other way. A single level is a family of one. -/
theorem closed_raises :
    Grammar.Closed (fun {_} _ r => Raises input r)
      fun {_} _ (G : Unit → Grammar _) => Raises input (G ()) where
  lexical := Scan.closed_raises
  const := Scan.raises_const
  itemName := Scan.raises_itemName
  scan := Raises.scan
  pure := Raises.pure
  invalid _ := Raises.invalid
  bind := Raises.bind
  look hF := by
    refine Raises.peek.bind fun next => ?_
    cases next with
    | none => exact Raises.invalid
    | some c => exact hF c
  untilE h := .many (Scan.closed_raises.eat _ (by decide)) h
  whileP h := .many (Scan.closed_raises.notEat (by decide)) h
  backReference h := h.backReference

namespace Level

/-- A level whose paths and types fail in no other way than `invalid`, unless a number that cannot be
used stands in the text. -/
abbrev Raises (input : Array Char) (level : Level) : Prop :=
  Satisfies (fun {_} _ (G : Unit → Grammar _) => V0.Raises input (G ())) fun _ => level

namespace Raises

open V0.Raises

variable {level : Level} (h : Raises input level)

include h

theorem remembering : Raises input level.remembering :=
  Satisfies.remembering (fun inValue => (h.path inValue).remembered) h.type.remembered

theorem symbol : V0.Raises input (V0.symbol level) := by
  refine (h.path true).bind fun path => peek.bind fun next => ?_
  split
  · exact ite ((h.path false).bind fun _ => pure _) (pure _)
  · exact pure _

end Raises

theorem raises_memoised (n : Nat) : Raises input (memoised n) := by
  induction n with
  | zero => exact Raises.remembering (satisfies_refusing closed_raises)
  | succ n ih => exact Raises.remembering (ih.productions closed_raises)

end Level

/-! ## Names -/

/-- Reading a v0 name fails only if a number that cannot be used stands in it. -/
theorem parse?_eq_error {name : Text} {e : NumberError} (h : parse? name = .error e) :
    ∃ inner, Text.asciiBehind? prefixes name = some inner ∧ SpellsBeyond inner.toArray := by
  unfold parse? at h
  split at h
  · cases h
  · rename_i inner hinner
    refine ⟨inner, hinner, ?_⟩
    split at h
    · cases h
    · split at h
      · split at h <;> cases h
      · cases h
      · rename_i e' hread
        cases h
        unfold readSymbol at hread
        split at hread
        · cases hread
        · rename_i failure hsymbol
          cases hread
          exact (Level.raises_memoised maxDepth).symbol _ _ hsymbol

end V0

end CrateLedger.Mangled
