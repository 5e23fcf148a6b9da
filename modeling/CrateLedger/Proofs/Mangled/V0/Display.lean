import CrateLedger.Mangled.V0.Display
import CrateLedger.Proofs.Mangled.V0.SourceForm
import CrateLedger.Proofs.Mangled.V0.Spelling

/-!
# How v0 names are shown

What is shown of a tree is put together from texts, and two decisions are made by looking at texts:
by its last character whether a trait has generic arguments that bindings can join, and by the whole
text whether a result is the unit type. In what a name spells these tell what they should, since
identifiers have no brackets.

Main statement: a spelled path is shown in its source form, and as nothing else.
-/

namespace CrateLedger.Mangled.V0

/-! ## Tokens -/

section Tokens

variable {space : Char} {d : Nat} {name text label : Text} {c : CodePoint}

theorem isLabel_iff : IsLabel space label ↔ space.isUpper = true ∧ label =
    (if space = 'C' then "closure" else if space = 'S' then "shim" else [↑space] : Text) := by
  constructor
  · intro h
    cases h with
    | closure => exact ⟨rfl, rfl⟩
    | shim => exact ⟨rfl, rfl⟩
    | letter hupper hC hS =>
      rw [if_neg hC, if_neg hS]
      exact ⟨hupper, rfl⟩
  · rintro ⟨hupper, rfl⟩
    split
    · rename_i hC
      exact hC ▸ .closure
    · rename_i hC
      split
      · rename_i hS
        exact hS ▸ .shim
      · rename_i hS
        exact .letter hupper hC hS

theorem itemShows_iff : ItemShows space d name text ↔ text = nestedSegment space d name := by
  constructor
  · intro h
    cases h with
    | plain hlower => simp [nestedSegment, hlower]
    | unnamed hlabel =>
      obtain ⟨hupper, rfl⟩ := isLabel_iff.1 hlabel
      simp [nestedSegment, hupper]
    | named hlabel hname =>
      obtain ⟨hupper, rfl⟩ := isLabel_iff.1 hlabel
      have hempty : name.isEmpty = false := by simpa using hname
      simp [nestedSegment, hupper, hempty]
  · rintro rfl
    cases hupper : space.isUpper with
    | false =>
      rw [nestedSegment, if_neg (by simp [hupper])]
      exact .plain hupper
    | true =>
      have hlabel := isLabel_iff.2 ⟨hupper, rfl⟩
      cases name with
      | nil =>
        have hshows : ItemShows space d [] _ := .unnamed hlabel
        simpa [nestedSegment, hupper] using hshows
      | cons c cs =>
        have hshows : ItemShows space d (c :: cs) _ := .named hlabel (List.cons_ne_nil c cs)
        simpa [nestedSegment, hupper] using hshows

/-- Characters other than the apostrophe are quoted by it. -/
theorem quoted_of_ne (h : c ≠ '\'') :
    Text.quoted [c] = "'" ++ Text.quotedCodePoint '\'' c ++ "'" := by
  have hquote : Text.quoteFor [c] = '\'' := by
    have hnot : ([c] : Text).contains ('\'' : CodePoint) = false := by simpa using Ne.symm h
    rw [Text.quoteFor, hnot]
    rfl
  simp [Text.quoted, hquote, Text.ofString, Text.ofChars]

/-- What is written by its number is neither the apostrophe nor the backslash. -/
theorem ne_of_not_isPrintable (h : Text.isPrintable c = false) : c ≠ '\'' ∧ c ≠ '\\' := by
  constructor <;> rintro rfl <;> revert h <;> decide +kernel

theorem charShows_iff : CharShows c text ↔ text = Text.quoted [c] := by
  constructor
  · intro h
    cases h with
    | apostrophe | backslash | tab | lineFeed | carriageReturn => decide +kernel
    | printable hprintable hapostrophe hbackslash =>
      have hletters : c ≠ '\t' ∧ c ≠ '\n' ∧ c ≠ '\r' := by
        refine ⟨?_, ?_, ?_⟩ <;> rintro rfl <;> revert hprintable <;> decide +kernel
      rw [quoted_of_ne hapostrophe, Text.quotedCodePoint]
      simp [hapostrophe, hbackslash, hletters, hprintable]
    | byte hprintable hletters hsmall =>
      obtain ⟨hapostrophe, hbackslash⟩ := ne_of_not_isPrintable hprintable
      rw [quoted_of_ne hapostrophe, Text.quotedCodePoint]
      simp [hapostrophe, hbackslash, hletters, hprintable, hsmall, Text.ofString, Text.ofChars]
    | short hprintable hbyte hsmall =>
      obtain ⟨hapostrophe, hbackslash⟩ := ne_of_not_isPrintable hprintable
      have hletters : c ≠ '\t' ∧ c ≠ '\n' ∧ c ≠ '\r' := by
        refine ⟨?_, ?_, ?_⟩ <;> rintro rfl <;> revert hbyte <;> decide
      rw [quoted_of_ne hapostrophe, Text.quotedCodePoint]
      simp [hapostrophe, hbackslash, hletters, hprintable, hsmall, Nat.not_lt.2 hbyte,
        Text.ofString, Text.ofChars]
    | long hprintable hshort =>
      obtain ⟨hapostrophe, hbackslash⟩ := ne_of_not_isPrintable hprintable
      have hletters : c ≠ '\t' ∧ c ≠ '\n' ∧ c ≠ '\r' := by
        refine ⟨?_, ?_, ?_⟩ <;> rintro rfl <;> revert hshort <;> decide
      have hbyte : ¬ c.val < 0x100 := by omega
      rw [quoted_of_ne hapostrophe, Text.quotedCodePoint]
      simp [hapostrophe, hbackslash, hletters, hprintable, hbyte, Nat.not_lt.2 hshort,
        Text.ofString, Text.ofChars]
  · rintro rfl
    by_cases hapostrophe : c = '\''
    · subst hapostrophe
      have hquoted : Text.quoted ['\''] = "\"'\"" := by decide +kernel
      rw [hquoted]
      exact .apostrophe
    rw [quoted_of_ne hapostrophe, Text.quotedCodePoint]
    split
    · rename_i h
      obtain rfl := h.resolve_left hapostrophe
      exact .backslash
    rename_i hbackslash
    push Not at hbackslash
    split
    · rename_i h
      exact h ▸ .tab
    split
    · rename_i h
      exact h ▸ .lineFeed
    split
    · rename_i h
      exact h ▸ .carriageReturn
    rename_i htab hfeed hreturn
    split
    · rename_i hprintable
      exact .printable hprintable hapostrophe hbackslash.2
    rename_i hprintable
    rw [Bool.not_eq_true] at hprintable
    split
    · rename_i hsmall
      simpa [Text.ofString, Text.ofChars] using
        CharShows.byte hprintable ⟨htab, hfeed, hreturn⟩ hsmall
    rename_i hbyte
    split
    · rename_i hsmall
      simpa [Text.ofString, Text.ofChars] using
        CharShows.short hprintable (Nat.not_lt.1 hbyte) hsmall
    · rename_i hshort
      simpa [Text.ofString, Text.ofChars] using CharShows.long hprintable (Nat.not_lt.1 hshort)

theorem Const.shows_iff {value : Const} : value.Shows text ↔ text = value.shown := by
  constructor
  · intro h
    cases h with
    | placeholder | true | false => rfl
    | char h => exact charShows_iff.1 h
    | natural type n => simp [Const.shown, Numeral.signedDecimal]
    | negative type n =>
      have hnegative : -((n + 1 : Nat) : Int) < 0 := by omega
      rw [Const.shown, Numeral.signedDecimal, if_pos hnegative, Int.natAbs_neg, Int.natAbs_natCast]
  · rintro rfl
    cases value with
    | placeholder => exact .placeholder
    | bool value =>
      cases value with
      | true => exact .true
      | false => exact .false
    | char c => exact .char (charShows_iff.2 rfl)
    | integer type value =>
      cases value with
      | ofNat n => exact .natural type n
      | negSucc n =>
        have hvalue : Int.negSucc n = -((n + 1 : Nat) : Int) := rfl
        have hshown : Const.shown (.integer type (Int.negSucc n))
            = "-" ++ Numeral.decimal (n + 1) := by
          rw [Const.shown, Numeral.signedDecimal, if_pos (Int.negSucc_lt_zero n),
            Int.natAbs_negSucc]
        rw [hshown, hvalue]
        exact .negative type n

/-- Every calling convention is shown, and what is shown of a function pointer starts with whether
it is unsafe and with that. -/
theorem exists_abiShows (abi : Option Text) : ∃ convention, AbiShows abi convention := by
  match abi with
  | none => exact ⟨_, .none⟩
  | some [] => exact ⟨_, .unnamed⟩
  | some (c :: cs) => exact ⟨_, .named (List.cons_ne_nil c cs)⟩

theorem functionShown_eq {abi : Option Text} {convention : Text} (h : AbiShows abi convention)
    (isUnsafe : Bool) (params : List Text) (result : Text) :
    functionShown isUnsafe abi params result
      = ((if isUnsafe then "unsafe " else [] : Text) ++ convention ++ "fn("
        ++ Text.join ", " params ++ ")" ++ (if result = "()" then [] else " -> " ++ result : Text)
          : Text) := by
  cases h with
  | none | unnamed => rfl
  | named hname =>
    obtain ⟨c, cs, rfl⟩ := List.exists_cons_of_ne_nil hname
    rfl

end Tokens

/-! ## Segments -/

attribute [local simp] Path.segments extendLast in
theorem segments_ne_nil (inValue : Bool) (path : Path) : path.segments inValue ≠ [] := by
  cases path <;> simp

theorem extendLast_concat (front : List Text) (last suffix : Text) :
    extendLast (front ++ [last]) suffix = front ++ [last ++ suffix] := by
  simp [extendLast]

theorem join_concat_append (separator : Text) (front : List Text) (last suffix : Text) :
    Text.join separator (front ++ [last ++ suffix])
      = Text.join separator (front ++ [last]) ++ suffix := by
  by_cases hfront : front = []
  · simp [hfront]
  · rw [Text.join_append separator hfront (List.cons_ne_nil _ _),
      Text.join_append separator hfront (List.cons_ne_nil _ _)]
    simp

/-- What a path with generic arguments is shown as in a type. -/
theorem join_segments_generic (base : Path) (args : List GenericArg) :
    Text.join "::" ((Path.generic base args).segments false)
      = Text.join "::" (base.segments false) ++ "<" ++ Text.join ", " (GenericArg.allShown args)
        ++ ">" := by
  obtain ⟨front, last, hsegments⟩ :=
    (List.eq_nil_or_concat' (base.segments false)).resolve_left (segments_ne_nil false base)
  rw [Path.segments, hsegments]
  simp only [Bool.false_eq_true, if_false]
  rw [extendLast_concat, join_concat_append]
  simp

/-! ## Last characters -/

/-- A text of segments ends as its last segment does, or in a separator. -/
theorem getLast?_join_ne {segments : List Text} {last : Text}
    (hlast : last.getLast? ≠ some ('>' : CodePoint)) :
    (Text.join "::" (segments ++ [last])).getLast? ≠ some ('>' : CodePoint) := by
  by_cases hsegments : segments = []
  · rwa [hsegments, List.nil_append, Text.join_singleton]
  · rw [Text.join_append _ hsegments (List.cons_ne_nil _ _), Text.join_singleton,
      List.getLast?_append, List.getLast?_append]
    cases hend : last.getLast? with
    | none =>
      show some (':' : CodePoint) ≠ _
      decide
    | some c =>
      rw [hend] at hlast
      exact hlast

/-- An identifier has no brackets. -/
theorem Word.notMem_text (w : Word) {c : Char} (hc : (c.isAlphanum || c = '_') = false) :
    (c : CodePoint) ∉ w.text := by
  intro hmem
  obtain ⟨d, hd, heq⟩ := List.mem_map.1 hmem
  have hword := List.all_eq_true.1 w.isWord d hd
  rw [CodePoint.ofChar_injective heq, hc] at hword
  cases hword

theorem getLast?_nestedSegment_ne (space : Char) (d : Nat) (w : Word) :
    (nestedSegment space d w.text).getLast? ≠ some ('>' : CodePoint) := by
  rw [nestedSegment]
  split
  · rw [List.getLast?_append]
    show some ('\x7d' : CodePoint) ≠ _
    decide
  · exact fun h => w.notMem_text (by decide) (List.mem_of_getLast? h)

/-- The text of an item does not end in an angle bracket. -/
theorem PathSpelling.getLast?_join_ne : ∀ s : PathSpelling, s.tree.IsItem →
    (Text.join "::" (s.tree.segments false)).getLast? ≠ some ('>' : CodePoint)
  | .crateRoot _ name, _ => by
    rw [PathSpelling.tree, Path.segments, Text.join_singleton]
    exact fun h => name.notMem_text (by decide) (List.mem_of_getLast? h)
  | .nested _ _ _ _ name _, _ => by
    rw [PathSpelling.tree, Path.segments]
    exact V0.getLast?_join_ne (getLast?_nestedSegment_ne _ _ name)
  | .back _ original, h => by
    rw [PathSpelling.tree] at h ⊢
    exact original.getLast?_join_ne h
  | .inherentImpl _ _ _, h | .traitImpl _ _ _ _, h | .traitView _ _, h | .generic _ _, h => by
    rw [PathSpelling.tree] at h
    cases h

/-- What can be no trait is shown in brackets. -/
theorem exists_join_eq_closed {path : Path} (hitem : ¬ path.IsItem) (hargs : ¬ path.HasArgs) :
    ∃ text, Text.join "::" (path.segments false) = text ++ ">" := by
  cases path with
  | crateRoot d name => exact absurd (.crateRoot d name) hitem
  | nested space parent d name => exact absurd (.nested space parent d name) hitem
  | inherentImpl | traitImpl | traitView =>
    rw [Path.segments, Text.join_singleton]
    exact ⟨_, rfl⟩
  | generic base args =>
    rw [join_segments_generic]
    exact ⟨_, rfl⟩

/-! ## First characters -/

/-- A text of segments starts as its first segment does, or with a separator. -/
theorem head?_join_ne {first : Text} (h : first.head? ≠ some ('(' : CodePoint)) (rest : List Text) :
    (Text.join "::" (first :: rest)).head? ≠ some ('(' : CodePoint) := by
  cases rest with
  | nil => rwa [Text.join_singleton]
  | cons s ss =>
    rw [Text.join_cons_of_ne_nil _ _ (List.cons_ne_nil s ss)]
    cases first with
    | nil =>
      show some (':' : CodePoint) ≠ _
      decide
    | cons c cs => exact h

theorem head?_bracket_ne {t : Text} : ("<" ++ t).head? ≠ some ('(' : CodePoint) := by
  show some ('<' : CodePoint) ≠ _
  decide

/-- The first segment of a path does not start with a parenthesis. -/
theorem PathSpelling.exists_segments_eq_cons : ∀ (s : PathSpelling) (inValue : Bool),
    ∃ first rest, s.tree.segments inValue = first :: rest ∧ first.head? ≠ some ('(' : CodePoint)
  | .crateRoot _ name, _ => by
    refine ⟨name.text, [], by rw [PathSpelling.tree, Path.segments], ?_⟩
    exact fun h => name.notMem_text (by decide) (List.mem_of_head? h)
  | .nested space _ parent d name _, inValue => by
    obtain ⟨first, rest, hparent, hfirst⟩ := parent.exists_segments_eq_cons inValue
    refine ⟨first, rest ++ [nestedSegment space d name.text], ?_, hfirst⟩
    rw [PathSpelling.tree, Path.segments, hparent, List.cons_append]
  | .inherentImpl _ _ self, _ => by
    rw [PathSpelling.tree, Path.segments]
    exact ⟨_, [], rfl, head?_bracket_ne⟩
  | .traitImpl _ _ self trait, _ => by
    rw [PathSpelling.tree, Path.segments]
    exact ⟨_, [], rfl, head?_bracket_ne⟩
  | .traitView self trait, _ => by
    rw [PathSpelling.tree, Path.segments]
    exact ⟨_, [], rfl, head?_bracket_ne⟩
  | .generic base args, inValue => by
    obtain ⟨first, rest, hbase, hfirst⟩ := base.exists_segments_eq_cons inValue
    rw [PathSpelling.tree, Path.segments, hbase]
    cases rest with
    | nil =>
      refine ⟨_, [], rfl, ?_⟩
      cases first with
      | nil =>
        cases inValue with
        | false =>
          show some ('<' : CodePoint) ≠ _
          decide
        | true =>
          show some (':' : CodePoint) ≠ _
          decide
      | cons c cs => exact hfirst
    | cons s ss => exact ⟨first, _, rfl, hfirst⟩
  | .back _ original, inValue => by
    rw [PathSpelling.tree]
    exact original.exists_segments_eq_cons inValue

/-! ## The unit type -/

theorem shown_eq_unit_iff_of_head? {t : Ty} (h : t.shown.head? ≠ some ('(' : CodePoint))
    (hunit : ¬ t.IsUnit) : t.shown = "()" ↔ t.IsUnit := by
  refine iff_of_false (fun heq => h ?_) hunit
  rw [heq]
  rfl

theorem tupleShown_eq_unit_iff {items : List Ty} :
    tupleShown (Ty.allShown items) = "()" ↔ items = [] := by
  match items with
  | [] => exact iff_of_true rfl rfl
  | [item] =>
    refine iff_of_false (fun heq => ?_) (List.cons_ne_nil _ _)
    have hlength := congrArg List.length heq
    simp [Ty.allShown, tupleShown, Text.ofString, Text.ofChars] at hlength
  | a :: b :: rest =>
    refine iff_of_false (fun heq => ?_) (List.cons_ne_nil _ _)
    have hlength := congrArg List.length heq
    simp [Ty.allShown, tupleShown, Text.join_cons_of_ne_nil, Text.ofString, Text.ofChars]
      at hlength
    omega

/-- Only the unit type is shown as it is. -/
theorem TypeSpelling.shown_eq_unit_iff : ∀ t : TypeSpelling, t.tree.shown = "()" ↔ t.tree.IsUnit
  | .basic type => by
    rw [TypeSpelling.tree, Ty.shown]
    cases type with
    | unit => exact iff_of_true rfl .basic
    | _ => exact iff_of_false (by decide) nofun
  | .path p => by
    obtain ⟨first, rest, hsegments, hfirst⟩ := p.exists_segments_eq_cons false
    refine shown_eq_unit_iff_of_head? ?_ (by rw [TypeSpelling.tree]; nofun)
    rw [TypeSpelling.tree, Ty.shown, hsegments]
    exact head?_join_ne hfirst rest
  | .tuple items => by
    rw [TypeSpelling.tree, Ty.shown, tupleShown_eq_unit_iff]
    constructor
    · intro h
      rw [h]
      exact .tuple
    · intro h
      cases hitems : TypeSpelling.trees items with
      | nil => rfl
      | cons item rest =>
        rw [hitems] at h
        cases h
  | .array _ _ | .slice _ => by
    refine shown_eq_unit_iff_of_head? ?_ (by rw [TypeSpelling.tree]; nofun)
    rw [TypeSpelling.tree, Ty.shown]
    show some ('[' : CodePoint) ≠ _
    decide
  | .reference mutable _ _ => by
    refine shown_eq_unit_iff_of_head? ?_ (by rw [TypeSpelling.tree]; nofun)
    rw [TypeSpelling.tree, Ty.shown]
    cases mutable <;> exact fun h => absurd (Option.some.inj h) (by decide)
  | .pointer mutable _ => by
    refine shown_eq_unit_iff_of_head? ?_ (by rw [TypeSpelling.tree]; nofun)
    rw [TypeSpelling.tree, Ty.shown]
    cases mutable <;> exact fun h => absurd (Option.some.inj h) (by decide)
  | .function _ isUnsafe abi _ _ => by
    refine shown_eq_unit_iff_of_head? ?_ (by rw [TypeSpelling.tree]; nofun)
    obtain ⟨convention, habi⟩ := exists_abiShows abi.tree
    rw [TypeSpelling.tree, Ty.shown, functionShown_eq habi]
    cases isUnsafe with
    | true => exact fun h => absurd (Option.some.inj h) (by decide)
    | false =>
      generalize abi.tree = given at habi
      cases habi <;> exact fun h => absurd (Option.some.inj h) (by decide)
  | .object _ _ _ => by
    refine shown_eq_unit_iff_of_head? ?_ (by rw [TypeSpelling.tree]; nofun)
    rw [TypeSpelling.tree, Ty.shown]
    show some ('d' : CodePoint) ≠ _
    decide
  | .back _ original => by
    rw [TypeSpelling.tree]
    exact original.shown_eq_unit_iff

/-! ## Tuples -/

/-- A tuple is shown by the rules for tuples if its items are shown by theirs. -/
theorem tuple_shows_iff {items : List Ty} {text : Text}
    (h : ∀ texts, List.Forall₂ Ty.Shows items texts ↔ texts = Ty.allShown items) :
    (Ty.tuple items).Shows text ↔ text = tupleShown (Ty.allShown items) := by
  have htuple {texts : List Text} (hsingle : texts.length ≠ 1) :
      tupleShown texts = "(" ++ Text.join ", " texts ++ ")" := by
    match texts with
    | [] | _ :: _ :: _ => rfl
    | [_] => exact absurd rfl hsingle
  constructor
  · intro hshows
    cases hshows with
    | single hitem =>
      have htexts := (h _).1 (.cons hitem .nil)
      rw [← htexts]
      rfl
    | tuple hsingle hitems =>
      rw [← (h _).1 hitems, htuple (hitems.length_eq ▸ hsingle)]
  · rintro rfl
    have hitems := (h _).2 rfl
    by_cases hsingle : items.length = 1
    · obtain ⟨item, rfl⟩ := List.length_eq_one_iff.1 hsingle
      obtain ⟨hitem, -⟩ := List.forall₂_cons.1 hitems
      exact .single hitem
    · rw [htuple (hitems.length_eq ▸ hsingle)]
      exact .tuple hsingle hitems

/-! ## Bindings -/

theorem Path.Shows.ne_nil {inValue : Bool} {path : Path} {segments : List Text}
    (h : path.Shows inValue segments) : segments ≠ [] := by
  cases h <;> simp

section Bindings

variable {trait text : Text} {texts bindings : List Text} (hbindings : bindings ≠ [])

include hbindings

theorem boundShown_item (htrait : trait.getLast? ≠ some ('>' : CodePoint)) :
    boundShown trait bindings = trait ++ "<" ++ Text.join ", " bindings ++ ">" := by
  have hempty : bindings.isEmpty = false := by simpa using hbindings
  rw [boundShown, hempty, if_neg Bool.false_ne_true]
  exact if_neg htrait

theorem boundShown_closed (htrait : trait = text ++ ">") :
    boundShown trait bindings = text ++ ", " ++ Text.join ", " bindings ++ ">" := by
  have hempty : bindings.isEmpty = false := by simpa using hbindings
  have hlast : trait.getLast? = some ('>' : CodePoint) := by
    rw [htrait, List.getLast?_append]
    rfl
  have hfront : trait.dropLast = text := by
    rw [htrait]
    exact List.dropLast_concat
  rw [boundShown, hempty, if_neg Bool.false_ne_true]
  refine (if_pos hlast).trans ?_
  rw [hfront]

/-- Bindings join the generic arguments of a path that has some. -/
theorem boundShown_generic (front : List Text) (last : Text) (htexts : texts ≠ []) :
    boundShown (Text.join "::" (front ++ [last ++ "<" ++ Text.join ", " texts ++ ">"])) bindings
      = Text.join "::" (front ++ [last]) ++ "<" ++ Text.join ", " (texts ++ bindings) ++ ">" := by
  have hclosed : Text.join "::" (front ++ [last ++ "<" ++ Text.join ", " texts ++ ">"])
      = Text.join "::" (front ++ [last]) ++ "<" ++ Text.join ", " texts ++ ">" := by
    rw [List.append_assoc last, List.append_assoc last, join_concat_append]
    simp only [List.append_assoc]
  rw [boundShown_closed hbindings hclosed, Text.join_append _ htexts hbindings]
  simp only [List.append_assoc]

end Bindings

theorem allShown_ne_nil {bindings : List Binding} (h : bindings ≠ []) :
    Binding.allShown bindings ≠ [] := by
  obtain ⟨b, bs, rfl⟩ := List.exists_cons_of_ne_nil h
  rw [Binding.allShown]
  exact List.cons_ne_nil _ _

/-- A bound is shown by the rules for bounds if its trait and its bindings are shown by theirs. -/
theorem bound_shows_iff {trait : Path} {bindings : List Binding} {text : Text}
    (htrait : ∀ segments, trait.Shows false segments ↔ segments = trait.segments false)
    (hitem : trait.IsItem →
      (Text.join "::" (trait.segments false)).getLast? ≠ some ('>' : CodePoint))
    (hbindings : ∀ texts, List.Forall₂ Binding.Shows bindings texts
      ↔ texts = Binding.allShown bindings) :
    (Bound.mk trait bindings).Shows text ↔ text = (Bound.mk trait bindings).shown := by
  have htexts {args : List GenericArg} {texts : List Text} (hargs : args ≠ [])
      (h : List.Forall₂ GenericArg.Shows args texts) : texts ≠ [] := by
    rintro rfl
    exact hargs (List.forall₂_nil_right_iff.1 h)
  constructor
  · intro h
    rw [Bound.shown]
    cases h with
    | plain h =>
      rw [(htrait _).1 h]
      rfl
    | item hisItem hbound h hshow =>
      rw [(htrait _).1 h, (hbindings _).1 hshow,
        boundShown_item (allShown_ne_nil hbound) (hitem hisItem)]
    | generic hargs hbound h hargsShow hshow =>
      obtain ⟨front, last, rfl⟩ := (List.eq_nil_or_concat' _).resolve_left h.ne_nil
      rw [← (htrait _).1 (.genericInType h hargsShow), (hbindings _).1 hshow,
        boundShown_generic (allShown_ne_nil hbound) front last (htexts hargs hargsShow)]
    | enclosed _ _ hbound h hclosed hshow =>
      rw [(htrait _).1 h] at hclosed
      rw [boundShown_closed (allShown_ne_nil hbound) hclosed, (hbindings _).1 hshow]
  · rintro rfl
    rw [Bound.shown]
    have hshows := (htrait _).2 rfl
    have hshow := (hbindings _).2 rfl
    by_cases hbound : bindings = []
    · subst hbound
      exact .plain hshows
    by_cases hisItem : trait.IsItem
    · rw [boundShown_item (allShown_ne_nil hbound) (hitem hisItem)]
      exact .item hisItem hbound hshows hshow
    by_cases hargs : trait.HasArgs
    · obtain ⟨base, arg, args⟩ := hargs
      generalize Path.segments false _ = segments at hshows
      cases hshows with
      | genericInType hbase hargsShow =>
        have hargs := List.cons_ne_nil arg args
        rw [boundShown_generic (allShown_ne_nil hbound) _ _ (htexts hargs hargsShow)]
        exact .generic hargs hbound hbase hargsShow hshow
    · obtain ⟨text, hclosed⟩ := exists_join_eq_closed hisItem hargs
      rw [boundShown_closed (allShown_ne_nil hbound) hclosed]
      exact .enclosed hisItem hargs hbound hshows hclosed hshow

/-! ## Trees -/

mutual

/-- A spelled path is shown by the rules for paths. -/
theorem PathSpelling.shows_iff : ∀ (s : PathSpelling) (inValue : Bool) (segments : List Text),
    s.tree.Shows inValue segments ↔ segments = s.tree.segments inValue
  | .crateRoot d name, inValue, segments => by
    rw [PathSpelling.tree, Path.segments]
    constructor
    · rintro ⟨⟩
      rfl
    · rintro rfl
      exact .crateRoot inValue d name.text
  | .nested space _ parent d name _, inValue, segments => by
    rw [PathSpelling.tree, Path.segments]
    constructor
    · intro h
      cases h with
      | nested hparent hitem =>
        rw [(parent.shows_iff _ _).1 hparent, itemShows_iff.1 hitem]
    · rintro rfl
      exact .nested ((parent.shows_iff _ _).2 rfl) (itemShows_iff.2 rfl)
  | .inherentImpl d location self, inValue, segments => by
    rw [PathSpelling.tree, Path.segments]
    constructor
    · intro h
      cases h with
      | inherentImpl _ hself => rw [(self.shows_iff _).1 hself]
    · rintro rfl
      exact .inherentImpl inValue ((self.shows_iff _).2 rfl)
  | .traitImpl d location self trait, inValue, segments => by
    rw [PathSpelling.tree, Path.segments]
    constructor
    · intro h
      cases h with
      | traitImpl _ hself htrait =>
        rw [(self.shows_iff _).1 hself, (trait.shows_iff _ _).1 htrait]
    · rintro rfl
      exact .traitImpl inValue ((self.shows_iff _).2 rfl) ((trait.shows_iff _ _).2 rfl)
  | .traitView self trait, inValue, segments => by
    rw [PathSpelling.tree, Path.segments]
    constructor
    · intro h
      cases h with
      | traitView _ hself htrait =>
        rw [(self.shows_iff _).1 hself, (trait.shows_iff _ _).1 htrait]
    · rintro rfl
      exact .traitView inValue ((self.shows_iff _).2 rfl) ((trait.shows_iff _ _).2 rfl)
  | .generic base args, inValue, segments => by
    rw [PathSpelling.tree, Path.segments]
    constructor
    · intro h
      cases h with
      | genericInType hbase hargs =>
        rw [← (base.shows_iff _ _).1 hbase, (ArgSpelling.allShow_iff args _).1 hargs,
          extendLast_concat]
        simp
      | genericInValue hbase hargs =>
        rw [← (base.shows_iff _ _).1 hbase, (ArgSpelling.allShow_iff args _).1 hargs,
          extendLast_concat]
        simp [Text.ofString, Text.ofChars]
    · rintro rfl
      obtain ⟨front, last, hbase⟩ :=
        (List.eq_nil_or_concat' (base.tree.segments inValue)).resolve_left
          (segments_ne_nil inValue base.tree)
      have hshows := (base.shows_iff inValue _).2 hbase.symm
      have hargs := (ArgSpelling.allShow_iff args _).2 rfl
      rw [hbase, extendLast_concat]
      cases inValue with
      | false => simpa using Path.Shows.genericInType hshows hargs
      | true => simpa [Text.ofString, Text.ofChars] using Path.Shows.genericInValue hshows hargs
  | .back _ original, inValue, segments => by
    rw [PathSpelling.tree]
    exact original.shows_iff inValue segments

theorem ArgSpelling.shows_iff : ∀ (a : ArgSpelling) (text : Text),
    a.tree.Shows text ↔ text = a.tree.shown
  | .lifetime index, text => by
    rw [ArgSpelling.tree, GenericArg.shown]
    constructor
    · rintro ⟨⟩
      rfl
    · rintro rfl
      exact .lifetime index
  | .const value, text => by
    rw [ArgSpelling.tree, GenericArg.shown]
    constructor
    · rintro ⟨⟩
      rename_i h
      exact Const.shows_iff.1 h
    · rintro rfl
      exact .const (Const.shows_iff.2 rfl)
  | .type t, text => by
    rw [ArgSpelling.tree, GenericArg.shown]
    constructor
    · intro h
      cases h with
      | type h => exact (t.shows_iff _).1 h
    · rintro rfl
      exact .type ((t.shows_iff _).2 rfl)

theorem ArgSpelling.allShow_iff : ∀ (as : List ArgSpelling) (texts : List Text),
    List.Forall₂ GenericArg.Shows (ArgSpelling.trees as) texts
      ↔ texts = GenericArg.allShown (ArgSpelling.trees as)
  | [], texts => by
    rw [ArgSpelling.trees, GenericArg.allShown, List.forall₂_nil_left_iff]
  | a :: as, texts => by
    rw [ArgSpelling.trees, GenericArg.allShown, List.forall₂_cons_left_iff]
    simp [a.shows_iff, ArgSpelling.allShow_iff as]

/-- A spelled type is shown by the rules for types. -/
theorem TypeSpelling.shows_iff : ∀ (t : TypeSpelling) (text : Text),
    t.tree.Shows text ↔ text = t.tree.shown
  | .basic type, text => by
    rw [TypeSpelling.tree, Ty.shown]
    constructor
    · rintro ⟨⟩
      rfl
    · rintro rfl
      exact .basic type
  | .path p, text => by
    rw [TypeSpelling.tree, Ty.shown]
    constructor
    · intro h
      cases h with
      | path h => rw [(p.shows_iff _ _).1 h]
    · rintro rfl
      exact .path ((p.shows_iff _ _).2 rfl)
  | .array element length, text => by
    rw [TypeSpelling.tree, Ty.shown]
    constructor
    · intro h
      cases h with
      | array h hlength => rw [(element.shows_iff _).1 h, Const.shows_iff.1 hlength]
    · rintro rfl
      exact .array ((element.shows_iff _).2 rfl) (Const.shows_iff.2 rfl)
  | .slice element, text => by
    rw [TypeSpelling.tree, Ty.shown]
    constructor
    · intro h
      cases h with
      | slice h => rw [(element.shows_iff _).1 h]
    · rintro rfl
      exact .slice ((element.shows_iff _).2 rfl)
  | .tuple items, text => by
    rw [TypeSpelling.tree, Ty.shown]
    exact tuple_shows_iff (TypeSpelling.allShow_iff items)
  | .reference mutable lifetime target, text => by
    rw [TypeSpelling.tree, Ty.shown]
    constructor
    · intro h
      cases h with
      | reference _ h | mutableReference _ h =>
        rw [(target.shows_iff _).1 h]
        rfl
    · rintro rfl
      cases mutable with
      | false => exact .reference lifetime ((target.shows_iff _).2 rfl)
      | true => exact .mutableReference lifetime ((target.shows_iff _).2 rfl)
  | .pointer mutable target, text => by
    rw [TypeSpelling.tree, Ty.shown]
    constructor
    · intro h
      cases h with
      | pointer h | mutablePointer h =>
        rw [(target.shows_iff _).1 h]
        rfl
    · rintro rfl
      cases mutable with
      | false => exact .pointer ((target.shows_iff _).2 rfl)
      | true => exact .mutablePointer ((target.shows_iff _).2 rfl)
  | .function binder isUnsafe abi params result, text => by
    rw [TypeSpelling.tree, Ty.shown]
    constructor
    · intro h
      cases h with
      | procedure _ _ habi hparams hunit =>
        rw [functionShown_eq habi, (TypeSpelling.allShow_iff params _).1 hparams,
          if_pos (result.shown_eq_unit_iff.2 hunit), List.append_nil]
      | function _ _ habi hparams hunit hresult =>
        rw [functionShown_eq habi, (TypeSpelling.allShow_iff params _).1 hparams,
          if_neg (mt result.shown_eq_unit_iff.1 hunit), (result.shows_iff _).1 hresult]
        simp [Text.ofString, Text.ofChars]
    · rintro rfl
      obtain ⟨convention, habi⟩ := exists_abiShows abi.tree
      have hparams := (TypeSpelling.allShow_iff params _).2 rfl
      rw [functionShown_eq habi]
      by_cases hunit : result.tree.IsUnit
      · rw [if_pos (result.shown_eq_unit_iff.2 hunit), List.append_nil]
        exact .procedure binder isUnsafe habi hparams hunit
      · have hshows := Ty.Shows.function binder isUnsafe habi hparams hunit
          ((result.shows_iff _).2 rfl)
        rw [if_neg (mt result.shown_eq_unit_iff.1 hunit)]
        simpa [Text.ofString, Text.ofChars] using hshows
  | .object binder bounds lifetime, text => by
    rw [TypeSpelling.tree, Ty.shown]
    constructor
    · intro h
      cases h with
      | object _ _ h => rw [(BoundSpelling.allShow_iff bounds _).1 h]
    · rintro rfl
      exact .object binder lifetime ((BoundSpelling.allShow_iff bounds _).2 rfl)
  | .back _ original, text => by
    rw [TypeSpelling.tree]
    exact original.shows_iff text

theorem TypeSpelling.allShow_iff : ∀ (ts : List TypeSpelling) (texts : List Text),
    List.Forall₂ Ty.Shows (TypeSpelling.trees ts) texts
      ↔ texts = Ty.allShown (TypeSpelling.trees ts)
  | [], texts => by
    rw [TypeSpelling.trees, Ty.allShown, List.forall₂_nil_left_iff]
  | t :: ts, texts => by
    rw [TypeSpelling.trees, Ty.allShown, List.forall₂_cons_left_iff]
    simp [t.shows_iff, TypeSpelling.allShow_iff ts]

theorem BoundSpelling.shows_iff : ∀ (b : BoundSpelling) (text : Text),
    b.tree.Shows text ↔ text = b.tree.shown
  | .mk trait bindings, text => by
    rw [BoundSpelling.tree]
    exact bound_shows_iff (trait.shows_iff false) trait.getLast?_join_ne
      (BindingSpelling.allShow_iff bindings)

theorem BoundSpelling.allShow_iff : ∀ (bs : List BoundSpelling) (texts : List Text),
    List.Forall₂ Bound.Shows (BoundSpelling.trees bs) texts
      ↔ texts = Bound.allShown (BoundSpelling.trees bs)
  | [], texts => by
    rw [BoundSpelling.trees, Bound.allShown, List.forall₂_nil_left_iff]
  | b :: bs, texts => by
    rw [BoundSpelling.trees, Bound.allShown, List.forall₂_cons_left_iff]
    simp [b.shows_iff, BoundSpelling.allShow_iff bs]

theorem BindingSpelling.shows_iff : ∀ (b : BindingSpelling) (text : Text),
    b.tree.Shows text ↔ text = b.tree.shown
  | .mk name t, text => by
    rw [BindingSpelling.tree, Binding.shown]
    constructor
    · intro h
      cases h with
      | mk _ h => rw [(t.shows_iff _).1 h]
    · rintro rfl
      exact .mk name.text ((t.shows_iff _).2 rfl)

theorem BindingSpelling.allShow_iff : ∀ (bs : List BindingSpelling) (texts : List Text),
    List.Forall₂ Binding.Shows (BindingSpelling.trees bs) texts
      ↔ texts = Binding.allShown (BindingSpelling.trees bs)
  | [], texts => by
    rw [BindingSpelling.trees, Binding.allShown, List.forall₂_nil_left_iff]
  | b :: bs, texts => by
    rw [BindingSpelling.trees, Binding.allShown, List.forall₂_cons_left_iff]
    simp [b.shows_iff, BindingSpelling.allShow_iff bs]

end

end CrateLedger.Mangled.V0
