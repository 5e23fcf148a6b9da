import CrateLedger.Proofs.Mangled.V0.Heads
import CrateLedger.Proofs.Mangled.V0.Simulation

/-!
# Spellings are read back

The productions read every spelling that stands in a text, whatever is around it. The proof follows
the plain tower: a level that reads all spellings of some nesting makes productions that read those
of one more.

The only place where the end of a spelling is not its own matter is an identifier without
characters, which takes an underscore behind it along. So what ends in an identifier is read up to
its end unless an underscore follows. Inside a name none does, since nothing starts with one.
-/

namespace CrateLedger.Mangled.V0

variable {α β : Type} {input : Array Char} {p q r n : Nat} {a : α}

/-! ## Up to the end -/

/-- A value is read between two positions, or up to a later one if an underscore follows. -/
def ReadsUpTo (input : Array Char) (g : Grammar α) (p : Nat) (a : α) (q : Nat) : Prop :=
  ∃ r, Reads Anything input g p a r ∧ (input[q]? ≠ some '_' → r = q)

theorem ReadsUpTo.reads {g : Grammar α} (h : ReadsUpTo input g p a q)
    (hnext : input[q]? ≠ some '_') : Reads Anything input g p a q := by
  obtain ⟨r, hread, hr⟩ := h
  exact hr hnext ▸ hread

theorem Reads.endAt {g : Grammar α} (h : Reads Anything input g p a q) (hr : r = q) :
    Reads Anything input g p a r := hr ▸ h

theorem Reads.upTo {g : Grammar α} (h : Reads Anything input g p a q) : ReadsUpTo input g p a q :=
  ⟨q, h, fun _ => rfl⟩

theorem ReadsUpTo.endAt {g : Grammar α} (h : ReadsUpTo input g p a q) (hr : r = q) :
    ReadsUpTo input g p a r := hr ▸ h

/-- The last part may be read up to its end. -/
theorem Reads.bindUpTo {g : Grammar α} {f : α → Grammar β} {b : β}
    (hg : Reads Anything input g p a q) (hf : ReadsUpTo input (f a) q b r) :
    ReadsUpTo input (g >>= f) p b r := by
  obtain ⟨r', hread, hr⟩ := hf
  exact ⟨r', hg.bind hread, hr⟩

theorem ReadsUpTo.bindPure {g : Grammar α} (h : ReadsUpTo input g p a q) (f : α → β) :
    ReadsUpTo input (g >>= fun a => pure (f a)) p (f a) q := by
  obtain ⟨r, hread, hr⟩ := h
  exact ⟨r, hread.bind (Reads.pure (f a) r), hr⟩

theorem ReadsUpTo.scan {reader : Scan α} (h : ∃ r, reader input p = .ok (a, r)
    ∧ (input[q]? ≠ some '_' → r = q)) : ReadsUpTo input (Grammar.scan reader) p a q := by
  obtain ⟨r, hread, hr⟩ := h
  exact ⟨r, Reads.scan hread, hr⟩

/-! ## Lists -/

/-- Items are read one after the other and the end is noticed behind them. None of them is empty. -/
inductive ItemsRead (input : Array Char) (isEnd : Scan Bool) (item : Grammar α) :
    Nat → List α → Nat → Prop where
  | nil {p q : Nat} (hend : isEnd input p = .ok (true, q)) (hle : p ≤ q) :
    ItemsRead input isEnd item p [] q
  | cons {p p' q r : Nat} {a : α} {as : List α} (hend : isEnd input p = .ok (false, p'))
      (hitem : Reads Anything input item p' a q) (hlt : p < q)
      (hrest : ItemsRead input isEnd item q as r) : ItemsRead input isEnd item p (a :: as) r

theorem ItemsRead.length_le {isEnd : Scan Bool} {item : Grammar α} {as : List α}
    (h : ItemsRead input isEnd item p as q) : p + as.length ≤ q := by
  induction h with
  | nil _ hq => simpa using hq
  | cons _ _ hlt _ ih =>
    simp only [List.length_cons]
    omega

/-- As many attempts as there are items, and one more for the end, are enough. -/
theorem ItemsRead.readsWithin {isEnd : Scan Bool} {item : Grammar α} {as : List α}
    (h : ItemsRead input isEnd item p as q) (hn : as.length < n) :
    Reads Anything input (Grammar.manyWithin isEnd item n) p as q := by
  induction h generalizing n with
  | nil hend _ =>
    obtain ⟨n, rfl⟩ : ∃ k, n = k + 1 := ⟨n - 1, by simp at hn; omega⟩
    exact (Reads.scan hend).bind (Reads.pure _ _)
  | cons hend hitem _ _ ih =>
    rw [List.length_cons] at hn
    obtain ⟨n, rfl⟩ : ∃ k, n = k + 1 := ⟨n - 1, by omega⟩
    exact (Reads.scan hend).bind (hitem.bind ((ih (by omega)).bind (Reads.pure _ _)))

/-- Items whose end is inside the text are read. -/
theorem ItemsRead.reads {isEnd : Scan Bool} {item : Grammar α} {as : List α}
    (h : ItemsRead input isEnd item p as q) (hq : q ≤ input.size) :
    Reads Anything input (Grammar.many isEnd item) p as q := by
  have hlength := h.length_le
  exact h.readsWithin (n := input.size + 1 - p) (by omega)

/-- A reference back whose letter has been taken is read as what is read at its target. -/
theorem backReference {reader : Grammar α} {target : Nat}
    (hread : Reads Anything input reader target a q)
    (hstands : StandsAt input (p + 1) (base62Chars target)) (hlt : target + 1 < p + 1) :
    Reads Anything input (Grammar.backReference reader) (p + 1) a
      (p + 1 + (base62Chars target).length) := by
  refine (Reads.position (p + 1)).bind ?_
  refine (Reads.scan (Scan.base62_of_standsAt hstands)).bind ?_
  rw [if_pos hlt]
  exact (Reads.position _).bind ((Reads.seek _ target).bind (hread.bind
    ((Reads.seek q _).bind (Reads.pure a _))))

/-- Items up to the letter `E` are read if each is, whatever comes behind it that can start an item
or is that letter. -/
theorem itemsRead_untilE {σ : Type} {chars : σ → List Char} {allChars : List σ → List Char}
    {value : σ → α} {heads : List Char} {item : Grammar α} {R : Nat → List σ → Prop}
    (hnil : allChars [] = []) (hcons : ∀ s ss, allChars (s :: ss) = chars s ++ allChars ss)
    (hheads : ∀ s, StartsIn heads (chars s)) (hE : 'E' ∉ heads)
    (hitem : ∀ p s ss, R p (s :: ss) → StandsAt input p (chars s) →
      (∀ x, x ∉ 'E' :: heads → input[p + (chars s).length]? ≠ some x) →
      Reads Anything input item p (value s) (p + (chars s).length))
    (hrest : ∀ p s ss, R p (s :: ss) → R (p + (chars s).length) ss)
    {ss : List σ} {rest : List Char} (hready : R p ss)
    (hstands : StandsAt input p (allChars ss ++ 'E' :: rest)) :
    ItemsRead input (Scan.eat 'E') item p (ss.map value) (p + (allChars ss).length + 1) := by
  induction ss generalizing p with
  | nil =>
    rw [hnil] at hstands ⊢
    exact .nil (Scan.eat_of_eq (standsAt_cons.1 hstands).1) (Nat.le_succ p)
  | cons s ss ih =>
    rw [hcons, List.append_assoc] at hstands
    have hpos : 0 < (chars s).length := (hheads s).length_pos
    have hnext : ∀ x, x ∉ 'E' :: heads → input[p + (chars s).length]? ≠ some x :=
      fun x hx => (startsIn_concat (startsIn_all hnil hcons hheads ss) rest).ne hstands.right hx
    have htail := ih (hrest p s ss hready) hstands.right
    rw [hcons, List.length_append, ← Nat.add_assoc]
    exact .cons (Scan.eat_of_ne ((hheads s).ne hstands.left hE))
      (hitem p s ss hready hstands.left hnext) (by omega) htail

/-! ## Levels that read spellings -/

theorem PathSpelling.depth_pos (s : PathSpelling) : 0 < s.depth := by
  cases s <;> rw [PathSpelling.depth] <;> omega

theorem TypeSpelling.depth_pos (t : TypeSpelling) : 0 < t.depth := by
  cases t <;> rw [TypeSpelling.depth] <;> omega

theorem TypeSpelling.trees_eq_map (ts : List TypeSpelling) :
    TypeSpelling.trees ts = ts.map TypeSpelling.tree := by
  induction ts with
  | nil => rw [TypeSpelling.trees, List.map_nil]
  | cons t ts ih => rw [TypeSpelling.trees, ih, List.map_cons]

theorem ArgSpelling.trees_eq_map (as : List ArgSpelling) :
    ArgSpelling.trees as = as.map ArgSpelling.tree := by
  induction as with
  | nil => rw [ArgSpelling.trees, List.map_nil]
  | cons a as ih => rw [ArgSpelling.trees, ih, List.map_cons]

/-- The path that is spelled, with its crate. -/
def PathSpelling.traced (s : PathSpelling) : TracedPath := ⟨s.tree, s.tree.crate, rfl⟩

/-- The type that is spelled, with its crate. -/
def TypeSpelling.traced (t : TypeSpelling) : TracedType := ⟨t.tree, t.tree.crate?, rfl⟩

/-- The bound that is spelled, with the crate of its trait. -/
def BoundSpelling.traced : BoundSpelling → TracedBound
  | .mk trait bindings => ⟨trait.traced, BindingSpelling.trees bindings⟩

theorem BoundSpelling.map_bound_traced (bs : List BoundSpelling) :
    (bs.map BoundSpelling.traced).map TracedBound.bound = BoundSpelling.trees bs := by
  induction bs with
  | nil =>
    rw [BoundSpelling.trees]
    rfl
  | cons b bs ih =>
    obtain ⟨trait, bindings⟩ := b
    rw [List.map_cons, List.map_cons, ih, BoundSpelling.trees, BoundSpelling.tree]
    rfl

namespace Level

/-- A level reads all spellings of at most some nesting where they stand in the text and their
references lead back to what they are for. -/
structure ReadsSpellings (level : Level) (input : Array Char) (n : Nat) : Prop where
  path : ∀ (s : PathSpelling) (inValue : Bool) (p : Nat), s.depth ≤ n → StandsAt input p s.chars →
    s.Placed input p → ReadsUpTo input (level.path inValue) p s.traced (p + s.chars.length)
  type : ∀ (t : TypeSpelling) (p : Nat), t.depth ≤ n → StandsAt input p t.chars →
    t.Placed input p → ReadsUpTo input level.type p t.traced (p + t.chars.length)

namespace ReadsSpellings

variable {level : Level} (h : level.ReadsSpellings input n)

include h

theorem types {ts : List TypeSpelling} {rest : List Char} (hdepth : TypeSpelling.maxDepth ts ≤ n)
    (hplaced : TypeSpelling.AllPlaced input p ts)
    (hstands : StandsAt input p (TypeSpelling.allChars ts ++ 'E' :: rest)) :
    ItemsRead input (Scan.eat 'E') level.type p (ts.map TypeSpelling.traced)
      (p + (TypeSpelling.allChars ts).length + 1) := by
  refine itemsRead_untilE (R := fun p ts =>
    TypeSpelling.maxDepth ts ≤ n ∧ TypeSpelling.AllPlaced input p ts)
    (by rw [TypeSpelling.allChars]) (fun t ts => by rw [TypeSpelling.allChars])
    TypeSpelling.startsIn (by decide) ?_ ?_ ⟨hdepth, hplaced⟩ hstands
  · rintro p t ts ⟨hdepth, hplaced⟩ hstands hnext
    rw [TypeSpelling.maxDepth, Nat.max_le] at hdepth
    rw [TypeSpelling.AllPlaced] at hplaced
    exact (h.type t p hdepth.1 hstands hplaced.1).reads (hnext '_' (by decide))
  · rintro p t ts ⟨hdepth, hplaced⟩
    rw [TypeSpelling.maxDepth, Nat.max_le] at hdepth
    rw [TypeSpelling.AllPlaced] at hplaced
    exact ⟨hdepth.2, hplaced.2⟩

theorem genericArg {a : ArgSpelling} (hdepth : a.depth ≤ n) (hplaced : a.Placed input p)
    (hstands : StandsAt input p a.chars) (hnext : input[p + a.chars.length]? ≠ some '_') :
    Reads Anything input level.genericArg p a.tree (p + a.chars.length) := by
  cases a with
  | lifetime index =>
    rw [ArgSpelling.chars] at hstands ⊢
    obtain ⟨hL, hindex⟩ := standsAt_cons.1 hstands
    have hread : Reads Anything input level.genericArg p (.lifetime index) _ :=
      (Reads.scan (Scan.eat_of_eq hL)).bind
        ((Reads.scan (Scan.base62_of_standsAt hindex)).bind (Reads.pure _ _))
    rw [ArgSpelling.tree]
    exact hread.endAt (by rw [List.length_cons]; omega)
  | const value =>
    rw [ArgSpelling.chars] at hstands ⊢
    rw [ArgSpelling.Placed] at hplaced
    obtain ⟨hK, hvalue⟩ := standsAt_cons.1 hstands
    have hL : input[p]? ≠ some 'L' := by
      rw [hK]
      decide
    have hread : Reads Anything input level.genericArg p (.const value.tree) _ :=
      (Reads.scan (Scan.eat_of_ne hL)).bind ((Reads.scan (Scan.eat_of_eq hK)).bind
        ((Reads.scan (Scan.const_of_standsAt hvalue hplaced)).bind (Reads.pure _ _)))
    rw [ArgSpelling.tree]
    exact hread.endAt (by rw [List.length_cons]; omega)
  | type type =>
    rw [ArgSpelling.chars] at hstands hnext ⊢
    rw [ArgSpelling.Placed] at hplaced
    rw [ArgSpelling.depth] at hdepth
    rw [ArgSpelling.tree]
    exact (Reads.scan (Scan.eat_of_ne (type.startsIn.ne hstands (by decide)))).bind
      ((Reads.scan (Scan.eat_of_ne (type.startsIn.ne hstands (by decide)))).bind
        (((h.type type p hdepth hstands hplaced).reads hnext).bind (Reads.pure _ _)))

theorem args {as : List ArgSpelling} {rest : List Char} (hdepth : ArgSpelling.maxDepth as ≤ n)
    (hplaced : ArgSpelling.AllPlaced input p as)
    (hstands : StandsAt input p (ArgSpelling.allChars as ++ 'E' :: rest)) :
    ItemsRead input (Scan.eat 'E') level.genericArg p (as.map ArgSpelling.tree)
      (p + (ArgSpelling.allChars as).length + 1) := by
  refine itemsRead_untilE (R := fun p as =>
    ArgSpelling.maxDepth as ≤ n ∧ ArgSpelling.AllPlaced input p as) (by rw [ArgSpelling.allChars])
    (fun a as => by rw [ArgSpelling.allChars]) ArgSpelling.startsIn (by decide) ?_ ?_
    ⟨hdepth, hplaced⟩ hstands
  · rintro p a as ⟨hdepth, hplaced⟩ hstands hnext
    rw [ArgSpelling.maxDepth, Nat.max_le] at hdepth
    rw [ArgSpelling.AllPlaced] at hplaced
    exact h.genericArg hdepth.1 hplaced.1 hstands (hnext '_' (by decide))
  · rintro p a as ⟨hdepth, hplaced⟩
    rw [ArgSpelling.maxDepth, Nat.max_le] at hdepth
    rw [ArgSpelling.AllPlaced] at hplaced
    exact ⟨hdepth.2, hplaced.2⟩

/-- A binding is announced by its letter, and read behind it. -/
theorem binding {b : BindingSpelling} (hdepth : b.depth ≤ n) (hplaced : b.Placed input p)
    (hstands : StandsAt input p b.chars) (hnext : input[p + b.chars.length]? ≠ some '_') :
    input[p]? = some 'p' ∧
      Reads Anything input level.binding (p + 1) b.tree (p + b.chars.length) := by
  obtain ⟨name, type⟩ := b
  rw [BindingSpelling.depth] at hdepth
  rw [BindingSpelling.Placed] at hplaced
  rw [BindingSpelling.chars] at hstands hnext ⊢
  obtain ⟨hp, hrest⟩ := standsAt_cons.1 hstands
  have hlength : p + ('p' :: name.spelled ++ type.chars).length
      = p + 1 + name.spelled.length + type.chars.length := by
    simp only [List.length_append, List.length_cons]
    omega
  rw [hlength] at hnext ⊢
  have hsize := (Array.getElem?_eq_some_iff.1 hp).1
  obtain ⟨q, hname, hq⟩ := Scan.rawIdentifier_of_standsAt hrest.left hsize
  obtain rfl := hq (type.startsIn.ne hrest.right (by decide))
  have htype := (h.type type _ hdepth hrest.right hplaced).reads hnext
  exact ⟨hp, (Reads.scan hname).bind (htype.bind (Reads.pure _ _))⟩

/-- Bindings are read as long as the letter `p` announces another one. -/
theorem bindings {bs : List BindingSpelling} (hdepth : BindingSpelling.maxDepth bs ≤ n)
    (hplaced : BindingSpelling.AllPlaced input p bs)
    (hstands : StandsAt input p (BindingSpelling.allChars bs))
    (hnext : ∀ x ∈ ['p', '_'], input[p + (BindingSpelling.allChars bs).length]? ≠ some x) :
    ItemsRead input (do return !(← Scan.eat 'p')) level.binding p (BindingSpelling.trees bs)
      (p + (BindingSpelling.allChars bs).length) := by
  induction bs generalizing p with
  | nil =>
    rw [BindingSpelling.allChars] at hnext ⊢
    rw [BindingSpelling.trees]
    have hp : input[p]? ≠ some 'p' := hnext 'p' (by decide)
    have hend : (do return !(← Scan.eat 'p') : Scan Bool) input p = .ok (true, p) := by
      rw [Reader.bind_ok (Scan.eat_of_ne hp)]
      rfl
    exact .nil hend (Nat.le_refl p)
  | cons b bs ih =>
    rw [BindingSpelling.maxDepth, Nat.max_le] at hdepth
    rw [BindingSpelling.AllPlaced] at hplaced
    rw [BindingSpelling.trees]
    rw [BindingSpelling.allChars, List.length_append, ← Nat.add_assoc] at hnext ⊢
    rw [BindingSpelling.allChars] at hstands
    have htail := ih hdepth.2 hplaced.2 hstands.right hnext
    obtain ⟨hp, hthis⟩ := h.binding hdepth.1 hplaced.1 hstands.left
      (BindingSpelling.not_underscore hstands.right (hnext '_' (by decide)))
    have hend : (do return !(← Scan.eat 'p') : Scan Bool) input p = .ok (false, p + 1) := by
      rw [Reader.bind_ok (Scan.eat_of_eq hp)]
      rfl
    have hpos := b.startsIn.length_pos
    exact .cons hend hthis (by omega) htail

theorem bound {b : BoundSpelling} (hdepth : b.depth ≤ n) (hplaced : b.Placed input p)
    (hstands : StandsAt input p b.chars)
    (hnext : ∀ x ∈ ['p', '_'], input[p + b.chars.length]? ≠ some x) :
    Reads Anything input level.bound p b.traced (p + b.chars.length) := by
  obtain ⟨trait, bindings⟩ := b
  rw [BoundSpelling.depth, Nat.max_le] at hdepth
  rw [BoundSpelling.Placed] at hplaced
  rw [BoundSpelling.chars] at hstands hnext ⊢
  rw [List.length_append, ← Nat.add_assoc] at hnext ⊢
  have hstart := (trait.startsIn.lt_size hstands.left).le
  have htrait := (h.path trait false p hdepth.1 hstands.left hplaced.1).reads
    (BindingSpelling.not_underscore hstands.right (hnext '_' (by decide)))
  have hbindings := h.bindings hdepth.2 hplaced.2 hstands.right hnext
  have hsize := hstands.right.le_size (hstands.left.le_size hstart)
  exact htrait.bind ((hbindings.reads hsize).bind (Reads.pure _ _))

theorem bounds {bs : List BoundSpelling} {rest : List Char} (hdepth : BoundSpelling.maxDepth bs ≤ n)
    (hplaced : BoundSpelling.AllPlaced input p bs)
    (hstands : StandsAt input p (BoundSpelling.allChars bs ++ 'E' :: rest)) :
    ItemsRead input (Scan.eat 'E') level.bound p (bs.map BoundSpelling.traced)
      (p + (BoundSpelling.allChars bs).length + 1) := by
  refine itemsRead_untilE (R := fun p bs =>
    BoundSpelling.maxDepth bs ≤ n ∧ BoundSpelling.AllPlaced input p bs)
    (by rw [BoundSpelling.allChars]) (fun b bs => by rw [BoundSpelling.allChars])
    BoundSpelling.startsIn (by decide) ?_ ?_ ⟨hdepth, hplaced⟩ hstands
  · rintro p b bs ⟨hdepth, hplaced⟩ hstands hnext
    rw [BoundSpelling.maxDepth, Nat.max_le] at hdepth
    rw [BoundSpelling.AllPlaced] at hplaced
    exact h.bound hdepth.1 hplaced.1 hstands fun x hx =>
      hnext x (by rcases List.mem_pair.1 hx with rfl | rfl <;> decide)
  · rintro p b bs ⟨hdepth, hplaced⟩
    rw [BoundSpelling.maxDepth, Nat.max_le] at hdepth
    rw [BoundSpelling.AllPlaced] at hplaced
    exact ⟨hdepth.2, hplaced.2⟩

/-! ### Paths -/

omit h in
/-- A disambiguator in front of a path is read. -/
theorem disambiguator {d : Nat} {s : PathSpelling} (hd : StandsAt input p (disambiguatorChars d))
    (hs : StandsAt input (p + (disambiguatorChars d).length) s.chars) :
    Reads Anything input (Grammar.scan Scan.disambiguator) p d
      (p + (disambiguatorChars d).length) := by
  refine Reads.scan (Scan.disambiguator_of_standsAt hd ?_)
  rintro rfl
  exact s.startsIn.ne hs (by decide)

omit h in
theorem crateRoot {d : Nat} {name : Word} {inValue : Bool}
    (hstands : StandsAt input p (PathSpelling.crateRoot d name).chars) :
    ReadsUpTo input (level.pathProduction inValue) p (PathSpelling.crateRoot d name).traced
      (p + (PathSpelling.crateRoot d name).chars.length) := by
  have hchars : (PathSpelling.crateRoot d name).chars
      = 'C' :: (disambiguatorChars d ++ name.spelled) := by rw [PathSpelling.chars]; rfl
  rw [hchars] at hstands ⊢
  obtain ⟨hC, hname⟩ := standsAt_cons.1 hstands
  have hsize := (Array.getElem?_eq_some_iff.1 hC).1
  have hread := ReadsUpTo.scan (Scan.identifier_of_standsAt hname hsize)
  refine (Reads.scan (Scan.next_of_eq hC)).bindUpTo ?_
  refine (hread.bindPure fun named => TracedPath.crateRoot named.1 named.2).endAt ?_
  rw [List.length_cons]
  omega

theorem nested {space : Char} {isAlpha : space.isAlpha = true} {parent : PathSpelling} {d : Nat}
    {name : Word} {isShort : space.isUpper = true → Numeral.isShort d = true} {inValue : Bool}
    (hdepth : parent.depth ≤ n)
    (hplaced : (PathSpelling.nested space isAlpha parent d name isShort).Placed input p)
    (hstands : StandsAt input p (PathSpelling.nested space isAlpha parent d name isShort).chars) :
    ReadsUpTo input (level.pathProduction inValue) p
      (PathSpelling.nested space isAlpha parent d name isShort).traced
      (p + (PathSpelling.nested space isAlpha parent d name isShort).chars.length) := by
  have hchars : (PathSpelling.nested space isAlpha parent d name isShort).chars
      = 'N' :: space :: (parent.chars ++ (disambiguatorChars d ++ name.spelled)) := by
    rw [PathSpelling.chars]
    simp
  rw [hchars] at hstands ⊢
  rw [PathSpelling.Placed] at hplaced
  obtain ⟨hN, hrest⟩ := standsAt_cons.1 hstands
  obtain ⟨hspace, hrest⟩ := standsAt_cons.1 hrest
  have hparent := (h.path parent inValue (p + 1 + 1) hdepth hrest.left hplaced).reads
    (not_underscore_of_identifier hrest.right)
  have hsize := hrest.left.le_size (parent.startsIn.lt_size hrest.left).le
  obtain ⟨q, hidentifier, hend⟩ := Scan.identifier_of_standsAt hrest.right hsize
  have hname := ReadsUpTo.scan ⟨q, Scan.itemName_of_identifier isShort hidentifier, hend⟩
  refine (Reads.scan (Scan.next_of_eq hN)).bindUpTo ?_
  refine (Reads.scan (Scan.next_of_eq hspace)).bindUpTo ?_
  show ReadsUpTo input (if space.isAlpha = true then _ else _) _ _ _
  rw [if_pos isAlpha]
  refine hparent.bindUpTo ?_
  refine (hname.bindPure fun named =>
    TracedPath.nested space parent.traced named.1 named.2).endAt ?_
  simp only [List.length_cons, List.length_append]
  omega

theorem inherentImpl {d : Nat} {location : PathSpelling} {self : TypeSpelling} {inValue : Bool}
    (hlocation : location.depth ≤ n) (hself : self.depth ≤ n)
    (hplaced : (PathSpelling.inherentImpl d location self).Placed input p)
    (hstands : StandsAt input p (PathSpelling.inherentImpl d location self).chars) :
    ReadsUpTo input (level.pathProduction inValue) p
      (PathSpelling.inherentImpl d location self).traced
      (p + (PathSpelling.inherentImpl d location self).chars.length) := by
  have hchars : (PathSpelling.inherentImpl d location self).chars
      = 'M' :: (disambiguatorChars d ++ (location.chars ++ self.chars)) := by
    rw [PathSpelling.chars]
    simp
  rw [hchars] at hstands ⊢
  rw [PathSpelling.Placed] at hplaced
  obtain ⟨hM, hrest⟩ := standsAt_cons.1 hstands
  have hread := (h.path location false _ hlocation hrest.right.left hplaced.1).reads
    (self.startsIn.ne hrest.right.right (by decide))
  have hread' := h.type self _ hself hrest.right.right hplaced.2
  refine (Reads.scan (Scan.next_of_eq hM)).bindUpTo ?_
  refine (disambiguator hrest.left hrest.right.left).bindUpTo (hread.bindUpTo ?_)
  refine (hread'.bindPure fun self => TracedPath.inherentImpl d location.traced self).endAt ?_
  simp only [List.length_cons, List.length_append]
  omega

theorem traitImpl {d : Nat} {location trait : PathSpelling} {self : TypeSpelling} {inValue : Bool}
    (hlocation : location.depth ≤ n) (hself : self.depth ≤ n) (htrait : trait.depth ≤ n)
    (hplaced : (PathSpelling.traitImpl d location self trait).Placed input p)
    (hstands : StandsAt input p (PathSpelling.traitImpl d location self trait).chars) :
    ReadsUpTo input (level.pathProduction inValue) p
      (PathSpelling.traitImpl d location self trait).traced
      (p + (PathSpelling.traitImpl d location self trait).chars.length) := by
  have hchars : (PathSpelling.traitImpl d location self trait).chars
      = 'X' :: (disambiguatorChars d ++ (location.chars ++ (self.chars ++ trait.chars))) := by
    rw [PathSpelling.chars]
    simp
  rw [hchars] at hstands ⊢
  rw [PathSpelling.Placed] at hplaced
  obtain ⟨hX, hrest⟩ := standsAt_cons.1 hstands
  have hparts := hrest.right.right
  have hread := (h.path location false _ hlocation hrest.right.left hplaced.1).reads
    (self.startsIn.ne hparts.left (by decide))
  have hread' := (h.type self _ hself hparts.left hplaced.2.1).reads
    (trait.startsIn.ne hparts.right (by decide))
  have hread'' := h.path trait false _ htrait hparts.right hplaced.2.2
  refine (Reads.scan (Scan.next_of_eq hX)).bindUpTo ?_
  refine (disambiguator hrest.left hrest.right.left).bindUpTo ?_
  refine hread.bindUpTo (hread'.bindUpTo ?_)
  refine (hread''.bindPure fun trait =>
    TracedPath.traitImpl d location.traced self.traced trait).endAt ?_
  simp only [List.length_cons, List.length_append]
  omega

theorem traitView {self : TypeSpelling} {trait : PathSpelling} {inValue : Bool}
    (hself : self.depth ≤ n) (htrait : trait.depth ≤ n)
    (hplaced : (PathSpelling.traitView self trait).Placed input p)
    (hstands : StandsAt input p (PathSpelling.traitView self trait).chars) :
    ReadsUpTo input (level.pathProduction inValue) p (PathSpelling.traitView self trait).traced
      (p + (PathSpelling.traitView self trait).chars.length) := by
  have hchars : (PathSpelling.traitView self trait).chars
      = 'Y' :: (self.chars ++ trait.chars) := by
    rw [PathSpelling.chars]
    rfl
  rw [hchars] at hstands ⊢
  rw [PathSpelling.Placed] at hplaced
  obtain ⟨hY, hrest⟩ := standsAt_cons.1 hstands
  have hread := (h.type self _ hself hrest.left hplaced.1).reads
    (trait.startsIn.ne hrest.right (by decide))
  have hread' := h.path trait false _ htrait hrest.right hplaced.2
  refine (Reads.scan (Scan.next_of_eq hY)).bindUpTo (hread.bindUpTo ?_)
  refine (hread'.bindPure fun trait => TracedPath.traitView self.traced trait).endAt ?_
  simp only [List.length_cons, List.length_append]
  omega

theorem generic {base : PathSpelling} {args : List ArgSpelling} {inValue : Bool}
    (hbase : base.depth ≤ n) (hargs : ArgSpelling.maxDepth args ≤ n)
    (hplaced : (PathSpelling.generic base args).Placed input p)
    (hstands : StandsAt input p (PathSpelling.generic base args).chars) :
    ReadsUpTo input (level.pathProduction inValue) p (PathSpelling.generic base args).traced
      (p + (PathSpelling.generic base args).chars.length) := by
  have hchars : (PathSpelling.generic base args).chars
      = 'I' :: (base.chars ++ (ArgSpelling.allChars args ++ ['E'])) := by
    rw [PathSpelling.chars]
    simp
  rw [hchars] at hstands ⊢
  rw [PathSpelling.Placed] at hplaced
  obtain ⟨hI, hrest⟩ := standsAt_cons.1 hstands
  have hread := (h.path base inValue _ hbase hrest.left hplaced.1).reads
    (ArgSpelling.not_underscore hrest.right)
  have hsize := hrest.right.le_size (hrest.left.le_size (base.startsIn.lt_size hrest.left).le)
  have hitems := (h.args hargs hplaced.2 hrest.right).reads (by simpa [Nat.add_assoc] using hsize)
  have htree : TracedPath.generic base.traced (args.map ArgSpelling.tree)
      = (PathSpelling.generic base args).traced := by
    apply TracedPath.eq_of_path_eq
    show Path.generic base.tree (args.map ArgSpelling.tree) = PathSpelling.tree _
    rw [PathSpelling.tree, ArgSpelling.trees_eq_map]
  rw [← htree]
  refine (Reads.scan (Scan.next_of_eq hI)).bindUpTo (hread.bindUpTo ?_)
  refine (hitems.upTo.bindPure fun args => base.traced.generic args).endAt ?_
  simp only [List.length_cons, List.length_append, List.length_nil]
  omega

theorem pathBack {target : Nat} {original : PathSpelling} {inValue : Bool}
    (hdepth : original.depth ≤ n) (hplaced : (PathSpelling.back target original).Placed input p)
    (hstands : StandsAt input p (PathSpelling.back target original).chars) :
    ReadsUpTo input (level.pathProduction inValue) p (PathSpelling.back target original).traced
      (p + (PathSpelling.back target original).chars.length) := by
  rw [PathSpelling.chars] at hstands ⊢
  rw [PathSpelling.Placed] at hplaced
  obtain ⟨hlt, htarget, horiginal⟩ := hplaced
  obtain ⟨hB, hnumber⟩ := standsAt_cons.1 hstands
  obtain ⟨q, hread, -⟩ := h.path original inValue target hdepth htarget horiginal
  refine (Reads.scan (Scan.next_of_eq hB)).bindUpTo (Reads.upTo ?_)
  refine (backReference hread hnumber (by omega)).endAt ?_
  rw [List.length_cons]
  omega

/-- Productions over a level read the paths of one more nesting. -/
theorem pathProduction {s : PathSpelling} {inValue : Bool} (hdepth : s.depth ≤ n + 1)
    (hstands : StandsAt input p s.chars) (hplaced : s.Placed input p) :
    ReadsUpTo input (level.pathProduction inValue) p s.traced (p + s.chars.length) := by
  cases s with
  | crateRoot d name => exact crateRoot hstands
  | nested space isAlpha parent d name isShort =>
    rw [PathSpelling.depth] at hdepth
    exact h.nested (by omega) hplaced hstands
  | inherentImpl d location self =>
    rw [PathSpelling.depth] at hdepth
    exact h.inherentImpl (by omega) (by omega) hplaced hstands
  | traitImpl d location self trait =>
    rw [PathSpelling.depth] at hdepth
    exact h.traitImpl (by omega) (by omega) (by omega) hplaced hstands
  | traitView self trait =>
    rw [PathSpelling.depth] at hdepth
    exact h.traitView (by omega) (by omega) hplaced hstands
  | generic base args =>
    rw [PathSpelling.depth] at hdepth
    exact h.generic (by omega) (by omega) hplaced hstands
  | back target original =>
    rw [PathSpelling.depth] at hdepth
    exact h.pathBack (by omega) hplaced hstands

/-! ### Types -/

omit h in
/-- A type that starts with a letter that is no basic type and starts no path. -/
theorem typeProduction_of_tag {tag : Char} {t : TracedType} (htag : input[p]? = some tag)
    (hpath : isPathTag tag = false) (hbasic : BasicType.ofTag? tag = none)
    (hread : ReadsUpTo input (level.compoundType tag) (p + 1) t q) :
    ReadsUpTo input level.typeProduction p t q := by
  have hpeek : Scan.peek input p = .ok (some tag, p) := by rw [Scan.peek, htag]
  refine (Reads.scan hpeek).bindUpTo ?_
  show ReadsUpTo input (if isPathTag tag = true then _ else _) _ _ _
  rw [if_neg (by simp [hpath])]
  refine (Reads.scan (Scan.next_of_eq htag)).bindUpTo ?_
  rw [hbasic]
  exact hread

omit h in
theorem basic {type : BasicType} (hstands : StandsAt input p (TypeSpelling.basic type).chars) :
    ReadsUpTo input level.typeProduction p (TypeSpelling.basic type).traced
      (p + (TypeSpelling.basic type).chars.length) := by
  rw [TypeSpelling.chars] at hstands ⊢
  have htag := (standsAt_cons.1 hstands).1
  have hpeek : Scan.peek input p = .ok (some type.tag, p) := by rw [Scan.peek, htag]
  have hpath : isPathTag type.tag = false := by cases type <;> decide
  refine (Reads.scan hpeek).bindUpTo ?_
  show ReadsUpTo input (if isPathTag type.tag = true then _ else _) _ _ _
  rw [if_neg (by simp [hpath])]
  refine (Reads.scan (Scan.next_of_eq htag)).bindUpTo ?_
  rw [BasicType.ofTag?_tag]
  exact (Reads.pure _ _).upTo

/-- A named type is read as its path, unless that is a reference back, which is followed as one to a
type. -/
theorem named {path : PathSpelling} (hdepth : path.depth ≤ n) (hplaced : path.Placed input p)
    (hstands : StandsAt input p path.chars) :
    ReadsUpTo input level.typeProduction p (TypeSpelling.path path).traced
      (p + path.chars.length) := by
  -- In the place of a type, a reference to a path is read as one to a type that is a path.
  rcases path.eq_back_or_tag with ⟨target, original, rfl⟩ | ⟨tag, rest, htag, hchars⟩
  · rw [PathSpelling.depth] at hdepth
    rw [PathSpelling.Placed] at hplaced
    rw [PathSpelling.chars] at hstands ⊢
    obtain ⟨hlt, htarget, horiginal⟩ := hplaced
    obtain ⟨hB, hnumber⟩ := standsAt_cons.1 hstands
    obtain ⟨q, hread, -⟩ := h.type (.path original) target (by rwa [TypeSpelling.depth])
      (by rwa [TypeSpelling.chars]) (by rwa [TypeSpelling.Placed])
    have htree : (TypeSpelling.path original).traced
        = (TypeSpelling.path (.back target original)).traced := by
      apply TracedType.eq_of_type_eq
      show TypeSpelling.tree _ = TypeSpelling.tree _
      rw [TypeSpelling.tree, TypeSpelling.tree, PathSpelling.tree]
    rw [← htree]
    refine typeProduction_of_tag hB (by decide) rfl ?_
    refine (backReference hread hnumber (by omega)).upTo.endAt ?_
    rw [List.length_cons]
    omega
  · have hread := h.path path false p hdepth hstands hplaced
    have hpeek : Scan.peek input p = .ok (some tag, p) := by
      rw [Scan.peek, (standsAt_cons.1 (hchars ▸ hstands)).1]
    refine (Reads.scan hpeek).bindUpTo ?_
    show ReadsUpTo input (if isPathTag tag = true then _ else _) _ _ _
    rw [if_pos htag]
    exact hread.bindPure TracedType.ofPath

theorem array {element : TypeSpelling} {length : ConstSpelling} (helement : element.depth ≤ n)
    (hplaced : (TypeSpelling.array element length).Placed input p)
    (hstands : StandsAt input p (TypeSpelling.array element length).chars) :
    ReadsUpTo input level.typeProduction p (TypeSpelling.array element length).traced
      (p + (TypeSpelling.array element length).chars.length) := by
  have hchars : (TypeSpelling.array element length).chars
      = 'A' :: (element.chars ++ length.chars) := by
    rw [TypeSpelling.chars]
    rfl
  rw [hchars] at hstands ⊢
  rw [TypeSpelling.Placed] at hplaced
  obtain ⟨hA, hrest⟩ := standsAt_cons.1 hstands
  have hread := (h.type element _ helement hrest.left hplaced.1).reads
    (length.startsIn.ne hrest.right (by decide))
  have hlength := Reads.scan (I := Anything) (Scan.const_of_standsAt hrest.right hplaced.2)
  refine typeProduction_of_tag hA (by decide) rfl (hread.bindUpTo ?_)
  refine (hlength.upTo.bindPure fun length => TracedType.array element.traced length).endAt ?_
  simp only [List.length_cons, List.length_append]
  omega

theorem slice {element : TypeSpelling} (helement : element.depth ≤ n)
    (hplaced : (TypeSpelling.slice element).Placed input p)
    (hstands : StandsAt input p (TypeSpelling.slice element).chars) :
    ReadsUpTo input level.typeProduction p (TypeSpelling.slice element).traced
      (p + (TypeSpelling.slice element).chars.length) := by
  rw [TypeSpelling.chars] at hstands ⊢
  rw [TypeSpelling.Placed] at hplaced
  obtain ⟨hS, hrest⟩ := standsAt_cons.1 hstands
  have hread := h.type element _ helement hrest hplaced
  refine typeProduction_of_tag hS (by decide) rfl ((hread.bindPure TracedType.slice).endAt ?_)
  rw [List.length_cons]
  omega

theorem tuple {items : List TypeSpelling} (hitems : TypeSpelling.maxDepth items ≤ n)
    (hplaced : (TypeSpelling.tuple items).Placed input p)
    (hstands : StandsAt input p (TypeSpelling.tuple items).chars) :
    ReadsUpTo input level.typeProduction p (TypeSpelling.tuple items).traced
      (p + (TypeSpelling.tuple items).chars.length) := by
  have hchars : (TypeSpelling.tuple items).chars
      = 'T' :: (TypeSpelling.allChars items ++ ['E']) := by
    rw [TypeSpelling.chars]
    rfl
  rw [hchars] at hstands ⊢
  rw [TypeSpelling.Placed] at hplaced
  obtain ⟨hT, hrest⟩ := standsAt_cons.1 hstands
  have hsize := hrest.le_size (Array.getElem?_eq_some_iff.1 hT).1
  have hread := (h.types hitems hplaced hrest).reads (by simpa [Nat.add_assoc] using hsize)
  have htree : TracedType.tuple (items.map TypeSpelling.traced)
      = (TypeSpelling.tuple items).traced := by
    apply TracedType.eq_of_type_eq
    show Ty.tuple ((items.map TypeSpelling.traced).map TracedType.type) = TypeSpelling.tree _
    rw [TypeSpelling.tree, TypeSpelling.trees_eq_map, List.map_map]
    rfl
  rw [← htree]
  refine typeProduction_of_tag hT (by decide) rfl ?_
  refine (hread.upTo.bindPure TracedType.tuple).endAt ?_
  simp only [List.length_cons, List.length_append, List.length_nil]
  omega

theorem reference {mutable : Bool} {lifetime : Option Nat} {target : TypeSpelling}
    (htarget : target.depth ≤ n)
    (hplaced : (TypeSpelling.reference mutable lifetime target).Placed input p)
    (hstands : StandsAt input p (TypeSpelling.reference mutable lifetime target).chars) :
    ReadsUpTo input level.typeProduction p
      (TypeSpelling.reference mutable lifetime target).traced
      (p + (TypeSpelling.reference mutable lifetime target).chars.length) := by
  have hchars : (TypeSpelling.reference mutable lifetime target).chars
      = (if mutable then 'Q' else 'R') :: (taggedChars 'L' lifetime ++ target.chars) := by
    rw [TypeSpelling.chars]
    rfl
  rw [hchars] at hstands ⊢
  rw [TypeSpelling.Placed] at hplaced
  obtain ⟨htag, hrest⟩ := standsAt_cons.1 hstands
  have hlifetime := target.startsIn.reads_tagged? hrest (by decide)
  have hread : ReadsUpTo input (level.reference mutable) (p + 1) _ _ :=
    (Reads.scan hlifetime).bindUpTo ((h.type target _ htarget hrest.right hplaced).bindPure
      (TracedType.reference mutable lifetime))
  have hcompound : level.compoundType (if mutable then 'Q' else 'R') = level.reference mutable := by
    cases mutable <;> rfl
  refine typeProduction_of_tag htag (by cases mutable <;> decide) (by cases mutable <;> rfl) ?_
  rw [hcompound]
  refine hread.endAt ?_
  simp only [List.length_cons, List.length_append]
  omega

theorem pointer {mutable : Bool} {target : TypeSpelling} (htarget : target.depth ≤ n)
    (hplaced : (TypeSpelling.pointer mutable target).Placed input p)
    (hstands : StandsAt input p (TypeSpelling.pointer mutable target).chars) :
    ReadsUpTo input level.typeProduction p (TypeSpelling.pointer mutable target).traced
      (p + (TypeSpelling.pointer mutable target).chars.length) := by
  rw [TypeSpelling.chars] at hstands ⊢
  rw [TypeSpelling.Placed] at hplaced
  obtain ⟨htag, hrest⟩ := standsAt_cons.1 hstands
  have hread := h.type target _ htarget hrest hplaced
  have hcompound : level.compoundType (if mutable then 'O' else 'P')
      = (do return .pointer mutable (← level.type)) := by
    cases mutable <;> rfl
  refine typeProduction_of_tag htag (by cases mutable <;> decide) (by cases mutable <;> rfl) ?_
  rw [hcompound]
  refine (hread.bindPure (TracedType.pointer mutable)).endAt ?_
  rw [List.length_cons]
  omega

theorem function {binder : Option Nat} {isUnsafe : Bool} {abi : AbiSpelling}
    {params : List TypeSpelling} {result : TypeSpelling}
    (hparams : TypeSpelling.maxDepth params ≤ n) (hresult : result.depth ≤ n)
    (hplaced : (TypeSpelling.function binder isUnsafe abi params result).Placed input p)
    (hstands : StandsAt input p (TypeSpelling.function binder isUnsafe abi params result).chars) :
    ReadsUpTo input level.typeProduction p
      (TypeSpelling.function binder isUnsafe abi params result).traced
      (p + (TypeSpelling.function binder isUnsafe abi params result).chars.length) := by
  have hchars : (TypeSpelling.function binder isUnsafe abi params result).chars
      = 'F' :: (taggedChars 'G' binder ++ (flagChars 'U' isUnsafe ++ (abi.chars
        ++ (TypeSpelling.allChars params ++ 'E' :: result.chars)))) := by
    rw [TypeSpelling.chars]
    simp
  rw [hchars] at hstands ⊢
  rw [TypeSpelling.Placed] at hplaced
  obtain ⟨hF, hrest⟩ := standsAt_cons.1 hstands
  -- Nothing that may follow an optional part starts with its letter.
  have hparamsStart : StartsIn ('E' :: typeHeads)
      (TypeSpelling.allChars params ++ 'E' :: result.chars) :=
    startsIn_concat (TypeSpelling.startsIn_allChars params) result.chars
  have habiStart := hparamsStart.afterOptional abi.chars_eq
  have hunsafeStart := habiStart.afterOptional (flagChars_eq 'U' isUnsafe)
  have hbinder := hunsafeStart.reads_tagged? hrest (by decide)
  have hunsafe := Scan.flag_of_standsAt hrest.right.left
    (habiStart.ne hrest.right.right (by decide))
  have habi := Scan.abi?_of_standsAt hrest.right.right.left
    (hparamsStart.ne hrest.right.right.right (by decide))
    (hparamsStart.ne hrest.right.right.right (by decide))
  have hitems := hrest.right.right.right
  obtain ⟨hE, hresultStands⟩ := standsAt_cons.1 hitems.right
  have hsize := (Array.getElem?_eq_some_iff.1 hE).1
  have hparamsRead := (h.types hparams hplaced.1 hitems).reads hsize
  have hresultRead := h.type result _ hresult hresultStands hplaced.2
  have htree : TracedType.function binder isUnsafe abi.tree (params.map TypeSpelling.traced)
      result.traced = (TypeSpelling.function binder isUnsafe abi params result).traced := by
    apply TracedType.eq_of_type_eq
    show Ty.function _ _ _ ((params.map TypeSpelling.traced).map TracedType.type) _
      = TypeSpelling.tree _
    rw [TypeSpelling.tree, TypeSpelling.trees_eq_map, List.map_map]
    rfl
  rw [← htree]
  refine typeProduction_of_tag hF (by decide) rfl ?_
  refine (Reads.scan hbinder).bindUpTo ((Reads.scan hunsafe).bindUpTo ?_)
  refine (Reads.scan habi).bindUpTo (hparamsRead.bindUpTo ?_)
  refine (hresultRead.bindPure (TracedType.function binder isUnsafe abi.tree
    (params.map TypeSpelling.traced))).endAt ?_
  simp only [List.length_cons, List.length_append]
  omega

theorem object {binder : Option Nat} {bounds : List BoundSpelling} {lifetime : Nat}
    (hbounds : BoundSpelling.maxDepth bounds ≤ n)
    (hplaced : (TypeSpelling.object binder bounds lifetime).Placed input p)
    (hstands : StandsAt input p (TypeSpelling.object binder bounds lifetime).chars) :
    ReadsUpTo input level.typeProduction p (TypeSpelling.object binder bounds lifetime).traced
      (p + (TypeSpelling.object binder bounds lifetime).chars.length) := by
  have hchars : (TypeSpelling.object binder bounds lifetime).chars
      = 'D' :: (taggedChars 'G' binder ++ (BoundSpelling.allChars bounds
        ++ 'E' :: 'L' :: base62Chars lifetime)) := by
    rw [TypeSpelling.chars]
    simp
  rw [hchars] at hstands ⊢
  rw [TypeSpelling.Placed] at hplaced
  obtain ⟨hD, hrest⟩ := standsAt_cons.1 hstands
  have hboundsStart : StartsIn ('E' :: pathHeads)
      (BoundSpelling.allChars bounds ++ 'E' :: 'L' :: base62Chars lifetime) :=
    startsIn_concat (BoundSpelling.startsIn_allChars bounds) _
  have hbinder := hboundsStart.reads_tagged? hrest (by decide)
  obtain ⟨hE, hend⟩ := standsAt_cons.1 hrest.right.right
  obtain ⟨hL, hlifetime⟩ := standsAt_cons.1 hend
  have hsize := (Array.getElem?_eq_some_iff.1 hE).1
  have hboundsRead := (h.bounds hbounds hplaced hrest.right).reads hsize
  have hlifetimeRead := Reads.scan (I := Anything) (Scan.base62_of_standsAt hlifetime)
  have htree : TracedType.object binder (bounds.map BoundSpelling.traced) lifetime
      = (TypeSpelling.object binder bounds lifetime).traced := by
    apply TracedType.eq_of_type_eq
    show Ty.object _ ((bounds.map BoundSpelling.traced).map TracedBound.bound) _
      = TypeSpelling.tree _
    rw [TypeSpelling.tree, BoundSpelling.map_bound_traced]
  rw [← htree]
  refine typeProduction_of_tag hD (by decide) rfl ?_
  refine (Reads.scan hbinder).bindUpTo (hboundsRead.bindUpTo ?_)
  refine (Reads.scan (Scan.expect_of_eq hL)).bindUpTo ?_
  refine (hlifetimeRead.upTo.bindPure
    (TracedType.object binder (bounds.map BoundSpelling.traced))).endAt ?_
  simp only [List.length_cons, List.length_append]
  omega

theorem typeBack {target : Nat} {original : TypeSpelling} (hdepth : original.depth ≤ n)
    (hplaced : (TypeSpelling.back target original).Placed input p)
    (hstands : StandsAt input p (TypeSpelling.back target original).chars) :
    ReadsUpTo input level.typeProduction p (TypeSpelling.back target original).traced
      (p + (TypeSpelling.back target original).chars.length) := by
  rw [TypeSpelling.chars] at hstands ⊢
  rw [TypeSpelling.Placed] at hplaced
  obtain ⟨hlt, htarget, horiginal⟩ := hplaced
  obtain ⟨hB, hnumber⟩ := standsAt_cons.1 hstands
  obtain ⟨q, hread, -⟩ := h.type original target hdepth htarget horiginal
  refine typeProduction_of_tag hB (by decide) rfl ?_
  refine (backReference hread hnumber (by omega)).upTo.endAt ?_
  rw [List.length_cons]
  omega

/-- Productions over a level read the types of one more nesting. -/
theorem typeProduction {t : TypeSpelling} (hdepth : t.depth ≤ n + 1)
    (hstands : StandsAt input p t.chars) (hplaced : t.Placed input p) :
    ReadsUpTo input level.typeProduction p t.traced (p + t.chars.length) := by
  cases t with
  | basic type => exact basic hstands
  | path path =>
    rw [TypeSpelling.depth] at hdepth
    rw [TypeSpelling.Placed] at hplaced
    rw [TypeSpelling.chars] at hstands ⊢
    exact h.named (by omega) hplaced hstands
  | array element length =>
    rw [TypeSpelling.depth] at hdepth
    exact h.array (by omega) hplaced hstands
  | slice element =>
    rw [TypeSpelling.depth] at hdepth
    exact h.slice (by omega) hplaced hstands
  | tuple items =>
    rw [TypeSpelling.depth] at hdepth
    exact h.tuple (by omega) hplaced hstands
  | reference mutable lifetime target =>
    rw [TypeSpelling.depth] at hdepth
    exact h.reference (by omega) hplaced hstands
  | pointer mutable target =>
    rw [TypeSpelling.depth] at hdepth
    exact h.pointer (by omega) hplaced hstands
  | function binder isUnsafe abi params result =>
    rw [TypeSpelling.depth] at hdepth
    exact h.function (by omega) (by omega) hplaced hstands
  | object binder bounds lifetime =>
    rw [TypeSpelling.depth] at hdepth
    exact h.object (by omega) hplaced hstands
  | back target original =>
    rw [TypeSpelling.depth] at hdepth
    exact h.typeBack (by omega) hplaced hstands

/-- Productions over a level read one more nesting. -/
theorem productions : level.productions.ReadsSpellings input (n + 1) where
  path := fun _ _ _ hdepth hstands hplaced => h.pathProduction hdepth hstands hplaced
  type := fun _ _ hdepth hstands hplaced => h.typeProduction hdepth hstands hplaced

end ReadsSpellings

/-- The plain tower reads all spellings up to its nesting limit. -/
theorem plain_readsSpellings (n : Nat) : (plain n).ReadsSpellings input n := by
  induction n with
  | zero =>
    constructor
    · intro s _ _ hdepth
      exact absurd hdepth (Nat.not_le.2 s.depth_pos)
    · intro t _ hdepth
      exact absurd hdepth (Nat.not_le.2 t.depth_pos)
  | succ n ih => exact ih.productions

end Level

end CrateLedger.Mangled.V0
