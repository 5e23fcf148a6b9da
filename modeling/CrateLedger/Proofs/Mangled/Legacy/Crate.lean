import CrateLedger.Proofs.Mangled.Legacy

/-!
# The crate of an `impl`

The first segment of a method of an `impl` is a cast in angle brackets, and the crate of the method
is that of the implementing type. The type is text by then, so its end has to be found by counting
brackets: a cast inside brackets belongs to a part of the type, and the `>` of an arrow closes
nothing.

Main statement: where the brackets of the implementing type match, the cast behind it is found, and
the crate is the root of the type and failing that the root of the trait, whatever casts, arrows,
tuples and arguments the brackets of the type hold.
-/

namespace CrateLedger.Mangled.Legacy

/-! ## Brackets -/

/-- What a code point adds to the nesting of brackets, given the one before it. The head of an arrow
is no bracket. -/
def bracketStep (before : Option CodePoint) (c : CodePoint) : Int :=
  if c = '<' ∨ c = '[' ∨ c = '(' then 1
  else if c = '>' ∧ (before = some '.' ∨ before = some '-') then 0
  else if c = '>' ∨ c = ']' ∨ c = ')' then -1
  else 0

/-- How many more brackets a text opens than it closes, given what stands before it. -/
def nestingFrom (before : Option CodePoint) : Text → Int
  | [] => 0
  | c :: rest => bracketStep before c + nestingFrom (some c) rest

/-- How many more brackets a text opens than it closes. -/
def nesting (t : Text) : Int := nestingFrom none t

/-- The text of an implementing type: its brackets match, and no cast stands outside of them. -/
structure IsSelfType (type : Text) : Prop where
  /-- As many brackets are closed as are opened. -/
  closed : nesting type = 0
  /-- No bracket is closed that has not been opened. -/
  opened : ∀ t, t <+: type → 0 ≤ nesting t
  /-- A cast stands inside brackets, also one that only a space behind the type completes. -/
  noCast : ∀ t rest, type ++ " " = t ++ " as " ++ rest → nesting t ≠ 0

instance (type : Text) : Decidable (IsSelfType type) :=
  decidable_of_iff (nesting type = 0 ∧ (∀ t ∈ type.inits, 0 ≤ nesting t) ∧
      ∀ t ∈ (type ++ " " : Text).inits,
        t ++ (" as " : Text) <+: type ++ " " → nesting t ≠ 0) <| by
    simp only [List.mem_inits]
    constructor
    · rintro ⟨hclosed, hopened, hcast⟩
      refine ⟨hclosed, hopened, fun t rest ht => hcast t ?_ ⟨rest, ht.symm⟩⟩
      exact ⟨(" as " : Text) ++ rest, by rw [ht, List.append_assoc]⟩
    · rintro ⟨hclosed, hopened, hcast⟩
      exact ⟨hclosed, hopened, fun t _ ⟨rest, hrest⟩ => hcast t rest hrest.symm⟩

/-- What is left of an implementing type when some of it has been passed and brackets are open. -/
structure IsSelfTypeFrom (before : Option CodePoint) (depth : Nat) (type : Text) : Prop where
  closed : depth + nestingFrom before type = 0
  opened : ∀ t, t <+: type → 0 ≤ depth + nestingFrom before t
  noCast : ∀ t rest, type ++ " " = t ++ " as " ++ rest → depth + nestingFrom before t ≠ 0

variable {before : Option CodePoint} {depth : Nat} {c : CodePoint} {type trait : Text}

theorem IsSelfType.from (h : IsSelfType type) : IsSelfTypeFrom none 0 type := by
  refine ⟨?_, fun t ht => ?_, fun t rest ht => ?_⟩
  · simpa [nesting] using h.closed
  · simpa [nesting] using h.opened t ht
  · simpa [nesting] using h.noCast t rest ht

/-- One code point further the depth has followed the brackets without falling below the ground. -/
theorem IsSelfTypeFrom.step (h : IsSelfTypeFrom before depth (c :: type)) :
    IsSelfTypeFrom (some c) (depth + bracketStep before c).toNat type := by
  have hstep : 0 ≤ depth + bracketStep before c := by
    simpa [nestingFrom] using h.opened [c] (List.cons_prefix_cons.2 ⟨rfl, List.nil_prefix⟩)
  refine ⟨?_, fun t ht => ?_, fun t rest ht => ?_⟩
  · rw [Int.toNat_of_nonneg hstep]
    simpa [nestingFrom, Int.add_assoc] using h.closed
  · rw [Int.toNat_of_nonneg hstep]
    simpa [nestingFrom, Int.add_assoc] using h.opened (c :: t) (List.cons_prefix_cons.2 ⟨rfl, ht⟩)
  · rw [Int.toNat_of_nonneg hstep]
    simpa [nestingFrom, Int.add_assoc] using h.noCast (c :: t) rest (congrArg (c :: ·) ht)

/-! ## Finding the cast -/

/-- A cast starts with a space. -/
theorem dropHead?_cast_of_ne {rest : Text} (hc : c ≠ ' ') :
    Text.dropHead? " as " (c :: rest) = none := by
  apply Text.dropHead?_eq_none
  show ((CodePoint.ofChar ' ' == c) && _) = false
  simp [Ne.symm hc]

/-- Outside all brackets the scan ends at a cast, and otherwise it goes on with a depth that follows
the brackets but does not fall below the ground. -/
theorem splitCastFrom_cons (before : Option CodePoint) (depth : Nat) (c : CodePoint) (rest : Text) :
    splitCastFrom before depth (c :: rest) =
      match if depth = 0 then Text.dropHead? " as " (c :: rest) else none with
      | some trait => some ([], trait)
      | none => (splitCastFrom (some c) (depth + bracketStep before c).toNat rest).map
          fun (self, trait) => (c :: self, trait) := by
  -- Brackets are no spaces, so no cast starts with one.
  have hbracket : c ≠ ' ' →
      (if depth = 0 then Text.dropHead? " as " (c :: rest) else none) = none := fun hc => by
    rw [dropHead?_cast_of_ne hc, ite_self]
  rw [splitCastFrom, bracketStep]
  by_cases hopen : c = '<' ∨ c = '[' ∨ c = '('
  · have hc : c ≠ ' ' := by rcases hopen with rfl | rfl | rfl <;> decide
    simp only [if_pos hopen, hbracket hc]
    rfl
  rw [if_neg hopen, if_neg hopen]
  by_cases harrow : c = '>' ∧ (before = some '.' ∨ before = some '-')
  · have hc : c ≠ ' ' := by rw [harrow.1]; decide
    simp only [if_pos harrow, hbracket hc]
    rfl
  rw [if_neg harrow, if_neg harrow]
  by_cases hclose : c = '>' ∨ c = ']' ∨ c = ')'
  · have hc : c ≠ ' ' := by rcases hclose with rfl | rfl | rfl <;> decide
    have hdepth : ((depth : Int) + -1).toNat = depth - 1 := by omega
    simp only [if_pos hclose, hbracket hc, hdepth]
  rw [if_neg hclose, if_neg hclose]
  by_cases hdepth : depth = 0
  · cases Text.dropHead? " as " (c :: rest) <;>
      simp only [if_pos hdepth, Int.add_zero, Int.toNat_natCast]
  · simp only [if_neg hdepth, Int.add_zero, Int.toNat_natCast]

/-- A cast that starts in front of the cast behind a type is part of the type and a space. -/
theorem exists_of_dropHead?_cast {rest : Text}
    (h : Text.dropHead? " as " (c :: type ++ " as " ++ trait) = some rest) :
    ∃ rest, c :: type ++ " " = " as " ++ rest := by
  have heq : c :: type ++ ([' ', 'a', 's', ' '] : Text) ++ trait
      = ([' ', 'a', 's', ' '] : Text) ++ rest := Text.eq_append_of_dropHead? h
  show ∃ rest, c :: type ++ ([' '] : Text) = ([' ', 'a', 's', ' '] : Text) ++ rest
  -- With fewer than three more characters the cast would have to overlap the one behind the type.
  rcases type with _ | ⟨d, _ | ⟨e, _ | ⟨f, type⟩⟩⟩
  · simp only [List.cons_append, List.nil_append, List.cons.injEq] at heq
    exact absurd heq.2.1 (by decide)
  · simp only [List.cons_append, List.nil_append, List.cons.injEq] at heq
    exact absurd heq.2.2.1 (by decide)
  · simp only [List.cons_append, List.nil_append, List.cons.injEq] at heq
    obtain ⟨rfl, rfl, rfl, -⟩ := heq
    exact ⟨[], rfl⟩
  · simp only [List.cons_append, List.nil_append, List.cons.injEq] at heq
    obtain ⟨rfl, rfl, rfl, rfl, -⟩ := heq
    exact ⟨type ++ " ", rfl⟩

/-- The scan passes the type and ends at the cast behind it. -/
theorem splitCastFrom_append (h : IsSelfTypeFrom before depth type) (trait : Text) :
    splitCastFrom before depth (type ++ " as " ++ trait) = some (type, trait) := by
  induction type generalizing before depth with
  | nil =>
    obtain rfl : depth = 0 := by simpa [nestingFrom] using h.closed
    show splitCastFrom before 0 (' ' :: ('a' :: 's' :: ' ' :: trait)) = _
    have hcast : Text.dropHead? " as " (' ' :: ('a' :: 's' :: ' ' :: trait)) = some trait :=
      Text.dropHead?_append " as " trait
    rw [splitCastFrom_cons, if_pos rfl, hcast]
  | cons c type ih =>
    have hpassed : (if depth = 0 then
        Text.dropHead? " as " (c :: (type ++ " as " ++ trait)) else none) = none := by
      split
      · rename_i hdepth
        cases hcast : Text.dropHead? " as " (c :: (type ++ " as " ++ trait)) with
        | none => rfl
        | some rest =>
          obtain ⟨rest, hrest⟩ := exists_of_dropHead?_cast hcast
          exact absurd (by simp [nestingFrom, hdepth]) (h.noCast [] rest hrest)
      · rfl
    rw [List.cons_append, List.cons_append, splitCastFrom_cons, hpassed, ih h.step]
    rfl

theorem splitCast_append (h : IsSelfType type) (trait : Text) :
    splitCast (type ++ " as " ++ trait) = (type, some trait) := by
  rw [splitCast, splitCastFrom_append h.from]

/-! ## Roots -/

/-- What may stand in front of the path of a type. -/
def typeFronts : List Text := ["&mut ", "&", "*const ", "*mut ", "mut ", "dyn "]

/-- A type is another one with some of these in front, and nothing more can be taken away. -/
inductive Strips : Text → Text → Prop where
  | done {t : Text} (h : ∀ p ∈ typeFronts, ¬ p <+: t) : Strips t t
  | front {p t u : Text} (hp : p ∈ typeFronts) (h : Strips t u) : Strips (p ++ t) u

/-- An ASCII identifier: a letter or an underscore, and then letters, digits and underscores. As
wherever identifiers are looked for, one line feed at the end is overlooked. -/
def IsIdentifier (t : Text) : Prop :=
  ∃ (first : Char) (others : List Char) (feed : Text), (first.isAlpha = true ∨ first = '_') ∧
    (∀ x ∈ others, x.isAlphanum = true ∨ x = '_') ∧ (feed = [] ∨ feed = "\n") ∧
    t = Text.ofChars (first :: others) ++ feed

/-- The root of a type that is written as text: the identifier in front of the first path separator
of the stripped type. An identifier holds no colon, so no separator comes before. -/
def IsRoot (t root : Text) : Prop :=
  IsIdentifier root ∧ ∃ rest, Strips t (root ++ "::" ++ rest)

variable {t u rest root : Text}

theorem dropTypePrefix?_append {p : Text} (hp : p ∈ typePrefixes) (t : Text) :
    dropTypePrefix? (p ++ t) = some t := by
  have hapart : ∀ p ∈ typePrefixes, ∀ q ∈ typePrefixes, q = p ∨ Apart q p := by decide
  exact findSome?_dropHead? hp (hapart p hp) t

/-- What nothing can be taken away from has none of the fronts. -/
theorem not_front_of_dropTypePrefix? (h : dropTypePrefix? t = none) {p : Text}
    (hp : p ∈ typeFronts) : ¬ p <+: t := by
  rintro ⟨rest, rfl⟩
  -- A mutable reference starts as a reference, which is the only front that begins another.
  have hsplit : ∀ p ∈ typeFronts, ∃ q ∈ typePrefixes, q <+: p := by decide
  obtain ⟨q, hq, more, rfl⟩ := hsplit p hp
  rw [List.append_assoc, dropTypePrefix?_append hq] at h
  cases h

theorem strips_stripTypePrefixes (t : Text) : Strips t (stripTypePrefixes t) := by
  fun_induction stripTypePrefixes t with
  | case1 t h => exact .done fun p hp => not_front_of_dropTypePrefix? h hp
  | case2 t rest h _ ih =>
    obtain ⟨p, hp, hdrop⟩ := List.exists_of_findSome?_eq_some h
    obtain rfl := Text.eq_append_of_dropHead? hdrop
    have hfront : ∀ p ∈ typePrefixes, p ∈ typeFronts := by decide
    exact .front (hfront p hp) ih

theorem stripTypePrefixes_append {p : Text} (hp : p ∈ typePrefixes) (t : Text) :
    stripTypePrefixes (p ++ t) = stripTypePrefixes t := by
  have hdrop := dropTypePrefix?_append hp t
  rw [stripTypePrefixes]
  split
  · rename_i hnone
    rw [hdrop] at hnone
    cases hnone
  · rename_i hsome
    rw [hdrop] at hsome
    cases hsome
    rfl

/-- It does not matter in which order the fronts are taken away. -/
theorem Strips.eq_stripTypePrefixes (h : Strips t u) : stripTypePrefixes t = u := by
  induction h with
  | @done t h =>
    rw [stripTypePrefixes]
    split
    · rfl
    · rename_i rest hsome
      obtain ⟨p, hp, hdrop⟩ := List.exists_of_findSome?_eq_some hsome
      have hfront : ∀ p ∈ typePrefixes, p ∈ typeFronts := by decide
      exact absurd ⟨rest, (Text.eq_append_of_dropHead? hdrop).symm⟩ (h p (hfront p hp))
  | @front p t u hp _ ih =>
    have hsplit : ∀ p ∈ typeFronts, p ∈ typePrefixes ∨
        p = ("&" : Text) ++ ("mut " : Text) := by decide
    rcases hsplit p hp with hp | rfl
    · rw [stripTypePrefixes_append hp, ih]
    · rw [List.append_assoc, stripTypePrefixes_append (by decide), stripTypePrefixes_append
        (by decide), ih]

/-! ## Identifiers -/

theorem isIdentifierPart_ofChar {x : Char} :
    isIdentifierPart (CodePoint.ofChar x) = true ↔ x.isAlphanum = true ∨ x = '_' := by
  rw [isIdentifierPart, CodePoint.toChar_ofChar, Bool.or_eq_true, decide_eq_true_eq]
  exact or_congr_right ⟨CodePoint.ofChar_injective, fun h => h ▸ rfl⟩

theorem isIdentifierStart_ofChar {x : Char} :
    isIdentifierStart (CodePoint.ofChar x) = true ↔ x.isAlpha = true ∨ x = '_' := by
  rw [isIdentifierStart, CodePoint.toChar_ofChar, Bool.or_eq_true, decide_eq_true_eq]
  exact or_congr_right ⟨CodePoint.ofChar_injective, fun h => h ▸ rfl⟩

theorem isIdentifierPart_of_isIdentifierStart (h : isIdentifierStart c = true) :
    isIdentifierPart c = true := by
  rw [isIdentifierStart, Bool.or_eq_true] at h
  rw [isIdentifierPart, Char.isAlphanum, Bool.or_eq_true, Bool.or_eq_true]
  exact h.imp_left .inl

/-- A text of letters, digits and underscores is one of characters. -/
theorem exists_ofChars_of_all (h : t.all isIdentifierPart = true) :
    ∃ xs : List Char, (∀ x ∈ xs, x.isAlphanum = true ∨ x = '_') ∧ t = Text.ofChars xs := by
  induction t with
  | nil => exact ⟨[], nofun, rfl⟩
  | cons c t ih =>
    rw [List.all_cons, Bool.and_eq_true] at h
    obtain ⟨x, rfl, hx⟩ := exists_char_of_isIdentifierPart h.1
    obtain ⟨xs, hxs, rfl⟩ := ih h.2
    exact ⟨x :: xs, List.forall_mem_cons.2 ⟨hx, hxs⟩, rfl⟩

theorem all_isIdentifierPart_ofChars {xs : List Char}
    (h : ∀ x ∈ xs, x.isAlphanum = true ∨ x = '_') :
    (Text.ofChars xs).all isIdentifierPart = true := by
  rw [Text.ofChars, List.all_map, List.all_eq_true]
  exact fun x hx => isIdentifierPart_ofChar.2 (h x hx)

theorem isIdentifier_iff : isIdentifier t = true ↔ IsIdentifier t := by
  constructor
  · intro h
    cases t with
    | nil => cases h
    | cons c rest =>
      rw [isIdentifier, Bool.and_eq_true] at h
      obtain ⟨hstart, hrest⟩ := h
      obtain ⟨first, rfl, -⟩ :=
        exists_char_of_isIdentifierPart (isIdentifierPart_of_isIdentifierStart hstart)
      have hfirst := isIdentifierStart_ofChar.1 hstart
      split at hrest
      · rename_i hfeed
        obtain ⟨front, rfl⟩ := List.getLast?_eq_some_iff.1 hfeed
        rw [List.dropLast_concat] at hrest
        obtain ⟨others, hothers, rfl⟩ := exists_ofChars_of_all hrest
        exact ⟨first, others, "\n", hfirst, hothers, .inr rfl, rfl⟩
      · obtain ⟨others, hothers, rfl⟩ := exists_ofChars_of_all hrest
        exact ⟨first, others, [], hfirst, hothers, .inl rfl, (List.append_nil _).symm⟩
  · rintro ⟨first, others, feed, hfirst, hothers, hfeed, rfl⟩
    have hcons : Text.ofChars (first :: others) ++ feed
        = CodePoint.ofChar first :: (Text.ofChars others ++ feed) := rfl
    have hall := all_isIdentifierPart_ofChars hothers
    rw [hcons, isIdentifier, isIdentifierStart_ofChar.2 hfirst, Bool.true_and]
    rcases hfeed with rfl | rfl
    · -- The last character is no line feed, so it is not overlooked.
      have hlast : (Text.ofChars others).getLast? ≠ some (CodePoint.ofChar '\n') := by
        intro hlast
        have hpart := List.all_eq_true.1 hall _ (List.mem_of_getLast? hlast)
        cases hpart
      rw [List.append_nil]
      split
      · rename_i hfeed
        exact absurd hfeed hlast
      · exact hall
    · split
      · have hfront : (Text.ofChars others ++ Text.ofString "\n").dropLast = Text.ofChars others :=
          List.dropLast_concat
        rw [hfront]
        exact hall
      · rename_i hfeed
        exact absurd List.getLast?_concat hfeed

/-- An identifier holds no colon. -/
theorem IsIdentifier.colon_notMem (h : IsIdentifier t) : CodePoint.ofChar ':' ∉ t := by
  obtain ⟨first, others, feed, hfirst, hothers, hfeed, rfl⟩ := h
  intro hmem
  rcases List.mem_append.1 hmem with hmem | hmem
  · obtain ⟨x, hx, heq⟩ := List.mem_map.1 hmem
    obtain rfl := CodePoint.ofChar_injective heq
    rcases List.mem_cons.1 hx with rfl | hx
    · exact absurd hfirst (by decide)
    · exact absurd (hothers _ hx) (by decide)
  · rcases hfeed with rfl | rfl
    · cases hmem
    · exact absurd hmem (by decide)

/-! ## The crate -/

/-- The root that is looked for is the identifier in front of the first separator. -/
theorem root?_eq_some_iff : root? t = some root ↔ IsRoot t root := by
  unfold root?
  rw [Option.bind_eq_bind, Option.bind_eq_some_iff]
  constructor
  · rintro ⟨⟨first, rest⟩, hsplit, hroot⟩
    dsimp only at hroot
    split at hroot
    · rename_i hidentifier
      cases hroot
      refine ⟨isIdentifier_iff.1 hidentifier, rest, ?_⟩
      rw [← Text.eq_append_of_splitFirst? hsplit]
      exact strips_stripTypePrefixes t
    · cases hroot
  · rintro ⟨hidentifier, rest, hstrips⟩
    refine ⟨(root, rest), ?_, if_pos (isIdentifier_iff.2 hidentifier)⟩
    rw [hstrips.eq_stripTypePrefixes]
    exact Text.splitFirst?_append hidentifier.colon_notMem _ rest

/-- The crate of a cast in angle brackets is the root of its type, and failing that of its trait. -/
theorem crate?_of_cast (htype : IsSelfType type) (second : Text) (others : List Text) :
    crate? (("<" ++ type ++ " as " ++ trait ++ ">") :: second :: others)
      = (root? type <|> root? trait) := by
  have hheader : crate? (("<" ++ type ++ " as " ++ trait ++ ">") :: second :: others)
      = implCrate? (if (type ++ " as " ++ trait ++ ">").getLast? = some '>' then
          (type ++ " as " ++ trait ++ ">").dropLast
        else type ++ " as " ++ trait ++ ">") := rfl
  rw [hheader]
  split
  · have hfront : (type ++ " as " ++ trait ++ ">").dropLast = type ++ " as " ++ trait :=
      List.dropLast_concat
    rw [hfront, implCrate?, splitCast_append htype]
    rfl
  · rename_i hlast
    exact absurd List.getLast?_concat hlast

/-- **The crate of an `impl`.** The first segment of a name is a cast in angle brackets. If the
brackets of its type match and no cast stands outside of them, the cast behind the type is found, and
the crate of the name is the root of the type and, only where the type has no root, that of the trait.
So an identifier that starts the path of the type is the crate, whatever follows it in the type and
whatever the trait is. -/
theorem crate?_impl {name : Text} {n : Mangled.Name} {second : Text} {others : List Text}
    (hdecode : Name.decode name = .ok n) (hscheme : n.scheme = .legacy)
    (hsegments : n.segments = ("<" ++ type ++ " as " ++ trait ++ ">") :: second :: others)
    (htype : IsSelfType type) :
    splitCast (type ++ " as " ++ trait) = (type, some trait) ∧
    (∀ crate, n.crate? = some crate ↔
      IsRoot type crate ∨ (∀ root, ¬ IsRoot type root) ∧ IsRoot trait crate) ∧
    ∀ crate rest, IsIdentifier crate → Strips type (crate ++ "::" ++ rest) →
      n.crate? = some crate := by
  have hcrate : n.crate? = (root? type <|> root? trait) := by
    cases n with
    | legacy segments hash =>
      cases hsegments
      exact crate?_of_cast htype second others
    | v0 => cases hscheme
    | verbatim => cases hscheme
  have hroots : ∀ crate, n.crate? = some crate ↔
      IsRoot type crate ∨ (∀ root, ¬ IsRoot type root) ∧ IsRoot trait crate := by
    intro crate
    simp only [← root?_eq_some_iff, hcrate]
    cases root? type <;> simp
  refine ⟨splitCast_append htype trait, hroots, fun crate rest hidentifier hstrips => ?_⟩
  exact (hroots crate).2 (.inl ⟨hidentifier, rest, hstrips⟩)

/-- A reference to a collection of functions whose result is found through another cast. -/
def sampleType : Text := "&mut alloc::Vec<fn(u8) -> <a::B as c::D>::E>"

theorem sampleType_isSelfType : IsSelfType sampleType := by decide +kernel

/-- Neither the cast nor the arrow inside the brackets is taken for the end of the type. -/
theorem sampleType_crate : ∃ n,
    Name.decode
      ("_ZN120_$LT$$RF$mut$u20$alloc..Vec$LT$fn$LP$u8$RP$$u20$.$GT$$u20$$LT$" ++
        "a..B$u20$as$u20$c..D$GT$..E$GT$$u20$as$u20$core..Debug$GT$3fmtE") = .ok n ∧
      n.crate? = some "alloc" := by
  have hok : (Name.decode
      ("_ZN120_$LT$$RF$mut$u20$alloc..Vec$LT$fn$LP$u8$RP$$u20$.$GT$$u20$$LT$" ++
        "a..B$u20$as$u20$c..D$GT$..E$GT$$u20$as$u20$core..Debug$GT$3fmtE")).toOption.map
      (fun n => (n.scheme, n.segments))
        = some (.legacy, ["<" ++ sampleType ++ " as " ++ "core::Debug" ++ ">", "fmt"]) := by
    decide +kernel
  obtain ⟨n, hdecode, hlook⟩ := exists_eq_ok_of_toOption hok
  obtain ⟨hscheme, hsegments⟩ := Prod.mk.inj hlook
  obtain ⟨-, -, hcrate⟩ := crate?_impl hdecode hscheme hsegments sampleType_isSelfType
  have hidentifier : IsIdentifier "alloc" := isIdentifier_iff.1 (by decide)
  have hstrips : Strips sampleType ("alloc" ++ "::" ++ "Vec<fn(u8) -> <a::B as c::D>::E>") :=
    .front (p := "&mut ") (by decide) (.done (by decide +kernel))
  exact ⟨n, hdecode, hcrate "alloc" _ hidentifier hstrips⟩

end CrateLedger.Mangled.Legacy
