import CrateLedger.Proofs.Mangled.V0.Scan

/-!
# How spellings start

The grammar looks one character ahead, so it takes the right production if what may come first is
told apart everywhere: a path, a type and a generic argument start with letters of their own, what
is optional is announced by a letter that nothing behind it starts with, and nothing at all starts
with an underscore.
-/

namespace CrateLedger.Mangled.V0

variable {input : Array Char} {p : Nat}

/-! ## First characters -/

/-- Some characters start with one of a given list. -/
def StartsIn (heads cs : List Char) : Prop := ∃ c ∈ heads, ∃ rest, cs = c :: rest

theorem StartsIn.append {heads cs : List Char} (h : StartsIn heads cs) (ds : List Char) :
    StartsIn heads (cs ++ ds) := by
  obtain ⟨c, hc, rest, rfl⟩ := h
  exact ⟨c, hc, rest ++ ds, rfl⟩

theorem StartsIn.mono {heads heads' cs : List Char} (h : StartsIn heads cs)
    (hsub : heads ⊆ heads') : StartsIn heads' cs := by
  obtain ⟨c, hc, rest, hcs⟩ := h
  exact ⟨c, hsub hc, rest, hcs⟩

/-- What starts with one of some characters does not start with another. -/
theorem StartsIn.ne {heads cs : List Char} (h : StartsIn heads cs) (hstands : StandsAt input p cs)
    {x : Char} (hx : x ∉ heads) : input[p]? ≠ some x := by
  obtain ⟨c, hc, rest, rfl⟩ := h
  rw [(standsAt_cons.1 hstands).1]
  intro heq
  exact hx (Option.some.inj heq ▸ hc)

/-- What starts somewhere is inside the text. -/
theorem StartsIn.lt_size {heads cs : List Char} (h : StartsIn heads cs)
    (hstands : StandsAt input p cs) : p < input.size := by
  obtain ⟨c, -, rest, rfl⟩ := h
  exact (Array.getElem?_eq_some_iff.1 (standsAt_cons.1 hstands).1).1

theorem StartsIn.length_pos {heads cs : List Char} (h : StartsIn heads cs) : 0 < cs.length := by
  obtain ⟨c, -, rest, rfl⟩ := h
  exact Nat.succ_pos _

/-- An optional part that is announced by a letter adds the letter to those that may come first. -/
theorem StartsIn.afterOptional {heads cs part : List Char} {tag : Char} (h : StartsIn heads cs)
    (hpart : part = [] ∨ ∃ rest, part = tag :: rest) : StartsIn (tag :: heads) (part ++ cs) := by
  rcases hpart with rfl | ⟨rest, rfl⟩
  · exact h.mono (List.subset_cons_self tag heads)
  · exact ⟨tag, List.mem_cons_self, rest ++ cs, rfl⟩

/-- A number that may be left out is read where what follows does not start with its letter. -/
theorem StartsIn.reads_tagged? {heads cs : List Char} {tag : Char} {number : Option Nat}
    (h : StartsIn heads cs) (hstands : StandsAt input p (taggedChars tag number ++ cs))
    (htag : tag ∉ heads) :
    Scan.tagged? tag input p = .ok (number, p + (taggedChars tag number).length) := by
  refine Scan.tagged?_of_standsAt hstands.left ?_
  rintro rfl
  exact h.ne hstands.right htag

/-! ## Lists -/

/-- Items one after the other start as items do, if there are any. -/
theorem startsIn_all {σ : Type} {chars : σ → List Char} {allChars : List σ → List Char}
    {heads : List Char} (hnil : allChars [] = [])
    (hcons : ∀ s ss, allChars (s :: ss) = chars s ++ allChars ss)
    (hheads : ∀ s, StartsIn heads (chars s)) (ss : List σ) :
    allChars ss = [] ∨ StartsIn heads (allChars ss) := by
  cases ss with
  | nil => exact .inl hnil
  | cons s ss =>
    rw [hcons]
    exact .inr ((hheads s).append _)

/-- Items up to a letter start with an item or with that letter. -/
theorem startsIn_concat {heads cs : List Char} {e : Char} (h : cs = [] ∨ StartsIn heads cs)
    (rest : List Char) : StartsIn (e :: heads) (cs ++ e :: rest) := by
  rcases h with rfl | h
  · exact ⟨e, List.mem_cons_self, rest, rfl⟩
  · exact (h.append _).mono (List.subset_cons_self e heads)

/-! ## Parts of spellings -/

theorem flagChars_eq (tag : Char) (holds : Bool) :
    flagChars tag holds = [] ∨ ∃ rest, flagChars tag holds = tag :: rest := by
  cases holds with
  | false => exact .inl rfl
  | true => exact .inr ⟨_, rfl⟩

theorem AbiSpelling.chars_eq (abi : AbiSpelling) :
    abi.chars = [] ∨ ∃ rest, abi.chars = 'K' :: rest := by
  cases abi with
  | none => exact .inl rfl
  | c => exact .inr ⟨_, rfl⟩
  | named name => exact .inr ⟨_, rfl⟩

/-- The letters that a path starts with. -/
def pathHeads : List Char := ['C', 'N', 'M', 'X', 'Y', 'I', 'B']

/-- The letters that a type starts with. -/
def typeHeads : List Char :=
  pathHeads ++ ['A', 'S', 'T', 'R', 'Q', 'P', 'O', 'F', 'D', 'a', 'b', 'c', 'd', 'e', 'f', 'h', 'i',
    'j', 'l', 'm', 'n', 'o', 'p', 's', 't', 'u', 'v', 'x', 'y', 'z']

theorem BasicType.tag_mem_typeHeads (b : BasicType) : b.tag ∈ typeHeads := by cases b <;> decide

theorem ConstSpelling.startsIn (s : ConstSpelling) : StartsIn typeHeads s.chars := by
  cases s with
  | placeholder => exact ⟨'p', by decide, [], rfl⟩
  | back target original => exact ⟨'B', by decide, _, rfl⟩
  | bool value => exact ⟨_, BasicType.tag_mem_typeHeads _, _, rfl⟩
  | char value => exact ⟨_, BasicType.tag_mem_typeHeads _, _, rfl⟩
  | integer type htype value => exact ⟨_, BasicType.tag_mem_typeHeads _, _, rfl⟩

theorem PathSpelling.startsIn (s : PathSpelling) : StartsIn pathHeads s.chars := by
  cases s <;> rw [PathSpelling.chars] <;> exact ⟨_, by decide, _, rfl⟩

/-- A path starts with a letter that only paths start with, unless it is a reference back. -/
theorem PathSpelling.eq_back_or_tag (s : PathSpelling) :
    (∃ target original, s = .back target original)
      ∨ ∃ tag rest, Level.isPathTag tag = true ∧ s.chars = tag :: rest := by
  cases s with
  | back target original => exact .inl ⟨target, original, rfl⟩
  | _ =>
    rw [PathSpelling.chars]
    exact .inr ⟨_, _, by decide, rfl⟩

theorem TypeSpelling.startsIn (t : TypeSpelling) : StartsIn typeHeads t.chars := by
  cases t with
  | basic type => exact ⟨_, type.tag_mem_typeHeads, [], by rw [TypeSpelling.chars]⟩
  | path path =>
    rw [TypeSpelling.chars]
    exact path.startsIn.mono (List.subset_append_left _ _)
  | reference mutable lifetime target =>
    rw [TypeSpelling.chars]
    exact ⟨_, by cases mutable <;> decide, _, rfl⟩
  | pointer mutable target =>
    rw [TypeSpelling.chars]
    exact ⟨_, by cases mutable <;> decide, _, rfl⟩
  | _ =>
    rw [TypeSpelling.chars]
    exact ⟨_, by decide, _, rfl⟩

theorem TypeSpelling.startsIn_allChars (ts : List TypeSpelling) :
    TypeSpelling.allChars ts = [] ∨ StartsIn typeHeads (TypeSpelling.allChars ts) :=
  startsIn_all (by rw [TypeSpelling.allChars]) (fun t ts => by rw [TypeSpelling.allChars])
    TypeSpelling.startsIn ts

theorem ArgSpelling.startsIn (a : ArgSpelling) : StartsIn ('L' :: 'K' :: typeHeads) a.chars := by
  cases a with
  | type type =>
    rw [ArgSpelling.chars]
    exact type.startsIn.mono fun c hc => List.mem_cons_of_mem _ (List.mem_cons_of_mem _ hc)
  | _ =>
    rw [ArgSpelling.chars]
    exact ⟨_, by decide, _, rfl⟩

theorem ArgSpelling.startsIn_allChars (as : List ArgSpelling) :
    ArgSpelling.allChars as = [] ∨ StartsIn ('L' :: 'K' :: typeHeads) (ArgSpelling.allChars as) :=
  startsIn_all (by rw [ArgSpelling.allChars]) (fun a as => by rw [ArgSpelling.allChars])
    ArgSpelling.startsIn as

theorem BindingSpelling.startsIn (b : BindingSpelling) : StartsIn ['p'] b.chars := by
  obtain ⟨name, type⟩ := b
  rw [BindingSpelling.chars]
  exact ⟨'p', List.mem_cons_self, _, rfl⟩

theorem BindingSpelling.startsIn_allChars (bs : List BindingSpelling) :
    BindingSpelling.allChars bs = [] ∨ StartsIn ['p'] (BindingSpelling.allChars bs) :=
  startsIn_all (by rw [BindingSpelling.allChars]) (fun b bs => by rw [BindingSpelling.allChars])
    BindingSpelling.startsIn bs

theorem BoundSpelling.startsIn (b : BoundSpelling) : StartsIn pathHeads b.chars := by
  obtain ⟨trait, bindings⟩ := b
  rw [BoundSpelling.chars]
  exact trait.startsIn.append _

theorem BoundSpelling.startsIn_allChars (bs : List BoundSpelling) :
    BoundSpelling.allChars bs = [] ∨ StartsIn pathHeads (BoundSpelling.allChars bs) :=
  startsIn_all (by rw [BoundSpelling.allChars]) (fun b bs => by rw [BoundSpelling.allChars])
    BoundSpelling.startsIn bs

/-! ## No underscores -/

/-- An identifier starts with a letter or a digit. -/
theorem not_underscore_of_identifier {d : Nat} {w : Word}
    (h : StandsAt input p (disambiguatorChars d ++ w.spelled)) : input[p]? ≠ some '_' := by
  cases d with
  | zero =>
    have hword : StandsAt input p w.spelled := h
    exact Scan.ne_of_standsAt_spelled hword rfl
  | succ d =>
    rw [(standsAt_cons.1 h).1]
    decide

theorem ArgSpelling.not_underscore {as : List ArgSpelling} {rest : List Char}
    (hstands : StandsAt input p (ArgSpelling.allChars as ++ 'E' :: rest)) :
    input[p]? ≠ some '_' :=
  (startsIn_concat (ArgSpelling.startsIn_allChars as) rest).ne hstands (by decide)

/-- What stands before something that is no underscore is none either, if it is bindings. -/
theorem BindingSpelling.not_underscore {bs : List BindingSpelling}
    (hstands : StandsAt input p (BindingSpelling.allChars bs))
    (hnext : input[p + (BindingSpelling.allChars bs).length]? ≠ some '_') :
    input[p]? ≠ some '_' := by
  rcases BindingSpelling.startsIn_allChars bs with hnil | hstart
  · rw [hnil] at hnext
    exact hnext
  · exact hstart.ne hstands (by decide)

end CrateLedger.Mangled.V0
