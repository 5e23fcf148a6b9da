import CrateLedger.Mangled.Name
import CrateLedger.Proofs.Mangled.Affixes
import CrateLedger.Proofs.Mangled.V0.Crate
import CrateLedger.Proofs.Mangled.V0.Display
import CrateLedger.Proofs.Mangled.V0.Reading

/-!
# v0 names are read back

A whole v0 name: the path of the item, the path of the crate that instantiated it if that is given,
and what the toolchain added. Its references lead back to positions behind the prefix.

The reader knows no limit of the host. Names that the host has no room for are left out by a
condition on the spelling, as are numbers that it does not write.

Main statement: a v0 name is read as the path that it spells, whichever parts of it are spelled by
references back, as long as its nesting stays within the limit.
-/

namespace CrateLedger.Mangled.V0

/-! ## Spelling names -/

/-- How a name is spelled behind its prefix. -/
structure NameSpelling where
  /-- The path of the item. -/
  path : PathSpelling
  /-- The path of the crate that instantiated the item. -/
  instantiating : Option PathSpelling := none
  /-- What the toolchain added. -/
  tail : List Char := []

namespace NameSpelling

/-- The characters of the crate that instantiated the item. -/
def instantiatingChars (m : NameSpelling) : List Char :=
  (m.instantiating.map PathSpelling.chars).getD []

/-- The characters of the spelling. -/
def chars (m : NameSpelling) : List Char := m.path.chars ++ (m.instantiatingChars ++ m.tail)

/-- The text that references lead back in. -/
def input (m : NameSpelling) : Array Char := m.chars.toArray

/-- References lead back to what they are for, and the nesting stays within the limits. -/
structure WellFormed (m : NameSpelling) : Prop where
  /-- Those of the path do. -/
  path_placed : m.path.Placed m.input 0
  /-- The nesting of the path. -/
  path_depth : m.path.depth ≤ maxDepth
  /-- The host has room for the path. -/
  path_fits : m.path.FitsHost
  /-- Those of the crate that instantiated the item do. -/
  instantiating_placed : ∀ c ∈ m.instantiating, c.Placed m.input m.path.chars.length
  /-- The nesting of the crate that instantiated the item. -/
  instantiating_depth : ∀ c ∈ m.instantiating, c.depth ≤ maxDepth
  /-- The host has room for it. -/
  instantiating_fits : ∀ c ∈ m.instantiating, c.FitsHost
  /-- What the toolchain added can be told from the name. -/
  isTail : IsTail m.tail

/-! ## Reading names -/

variable {m : NameSpelling}

theorem isAscii_chars (h : m.WellFormed) : IsAscii m.chars := by
  rw [chars, isAscii_append, isAscii_append]
  refine ⟨m.path.isAscii_chars, ?_, h.isTail.ascii⟩
  rw [instantiatingChars]
  cases m.instantiating with
  | none => exact isAscii_nil
  | some c => exact c.isAscii_chars

theorem getElem?_length_toArray (part rest : List Char) :
    (part ++ rest).toArray[part.length]? = rest.head? := by
  rw [List.getElem?_toArray, List.getElem?_append_right (Nat.le_refl _), Nat.sub_self,
    List.head?_eq_getElem?]

theorem not_underscore_of_isTail {tail : List Char} (h : IsTail tail) : tail.head? ≠ some '_' := by
  intro hhead
  rcases h.start '_' hhead with heq | heq <;> cases heq

/-- The path of a name is read, and reading ends behind it. -/
theorem reads_path (h : m.WellFormed) (rest : List Char) (hchars : m.chars = m.path.chars ++ rest)
    (hrest : rest.head? ≠ some '_') :
    Reads Anything m.input ((Level.plain maxDepth).path true) 0 m.path.traced m.path.chars.length ∧
      Scan.peek m.input m.path.chars.length = .ok (rest.head?, m.path.chars.length) := by
  have hnext : m.input[m.path.chars.length]? = rest.head? := by
    rw [input, hchars, getElem?_length_toArray]
  have hstands : StandsAt m.input 0 m.path.chars := by
    rw [input, hchars]
    exact standsAt_toArray m.path.chars rest
  have hread := (Level.plain_readsSpellings maxDepth).path m.path true 0 h.path_depth hstands
    h.path_placed
  rw [Nat.zero_add] at hread
  refine ⟨hread.reads (hnext ▸ hrest), ?_⟩
  rw [Scan.peek, hnext]

theorem isUpper_of_mem_pathHeads {tag : Char} (h : tag ∈ pathHeads) : tag.isUpper = true := by
  have hall : pathHeads.all Char.isUpper = true := by decide
  exact List.all_eq_true.1 hall tag h

theorem not_isDigit_of_mem_pathHeads {tag : Char} (h : tag ∈ pathHeads) : tag.isDigit = false := by
  have hall : (pathHeads.all fun tag => !tag.isDigit) = true := by decide
  simpa using List.all_eq_true.1 hall tag h

/-- The path of the crate that instantiated the item is read behind the other. -/
theorem reads_instantiating (h : m.WellFormed) {c : PathSpelling} (hc : m.instantiating = some c)
    (hchars : m.chars = m.path.chars ++ (c.chars ++ m.tail)) :
    Reads Anything m.input ((Level.plain maxDepth).path false) m.path.chars.length c.traced
      (m.path.chars.length + c.chars.length) := by
  have hall : StandsAt m.input 0 (m.path.chars ++ (c.chars ++ m.tail)) := by
    rw [input, hchars]
    simpa using standsAt_toArray (m.path.chars ++ (c.chars ++ m.tail)) []
  have hstands : StandsAt m.input m.path.chars.length c.chars := by
    simpa using hall.right.left
  have hnext : m.input[m.path.chars.length + c.chars.length]? = m.tail.head? := by
    rw [input, hchars, ← List.append_assoc, ← List.length_append, getElem?_length_toArray]
  have hread := (Level.plain_readsSpellings maxDepth).path c false m.path.chars.length
    (h.instantiating_depth c hc) hstands (h.instantiating_placed c hc)
  exact hread.reads (hnext ▸ not_underscore_of_isTail h.isTail)

/-- A name is read up to its tail. -/
theorem reads_symbol (h : m.WellFormed) :
    Reads Anything m.input (symbol (Level.plain maxDepth)) 0 m.path.traced
      (m.path.chars ++ m.instantiatingChars).length := by
  cases hcrate : m.instantiating with
  | none =>
    have hnone : m.instantiatingChars = [] := by rw [instantiatingChars, hcrate]; rfl
    obtain ⟨hpath, hpeek⟩ := reads_path h m.tail (by rw [chars, hnone]; rfl)
      (not_underscore_of_isTail h.isTail)
    rw [hnone, List.append_nil]
    refine hpath.bind ((Reads.scan hpeek).bind ?_)
    cases htail : m.tail.head? with
    | none => exact Reads.pure _ _
    | some c =>
      have hlower : c.isUpper = false := by
        rcases h.isTail.start c htail with rfl | rfl <;> rfl
      show Reads Anything m.input (if c.isUpper = true then _ else _) _ _ _
      rw [if_neg (by simp [hlower])]
      exact Reads.pure _ _
  | some c =>
    have hsome : m.instantiatingChars = c.chars := by rw [instantiatingChars, hcrate]; rfl
    have hchars : m.chars = m.path.chars ++ (c.chars ++ m.tail) := by rw [chars, hsome]
    obtain ⟨tag, hmem, rest, htag⟩ := c.startsIn
    have hupper := isUpper_of_mem_pathHeads hmem
    have hhead : (c.chars ++ m.tail).head? = some tag := by rw [htag]; rfl
    obtain ⟨hpath, hpeek⟩ := reads_path h (c.chars ++ m.tail) hchars (by
      rw [hhead]
      rintro ⟨⟩
      cases hupper)
    rw [hsome, List.length_append]
    refine hpath.bind ((Reads.scan hpeek).bind ?_)
    rw [hhead]
    show Reads Anything m.input (if tag.isUpper = true then _ else _) _ _ _
    rw [if_pos hupper]
    exact (reads_instantiating h hcrate hchars).bind (Reads.pure _ _)

/-! ## Decoding names -/

theorem prefixes_apart : ∀ s ∈ prefixes, ∀ p ∈ prefixes, p = s ∨ Apart p s := by decide

/-- What starts as a v0 name is no legacy name. -/
theorem legacy_parse?_eq_none {start : Text} (h : start ∈ prefixes) (rest : Text) :
    Legacy.parse? (start ++ rest) = .ok none := by
  have hapart : ∀ s ∈ prefixes, ∀ p ∈ Legacy.prefixes, Apart p s := by decide
  rw [Legacy.parse?, asciiBehind?_eq_none (hapart start h) rest]

/-- The grammar recognises what is spelled. -/
theorem parse?_spelled {start : Text} (hstart : start ∈ prefixes) (h : m.WellFormed) :
    parse? (start ++ Text.ofChars m.chars) = .ok (some m.path.traced) := by
  have hinner : Text.asciiBehind? prefixes (start ++ Text.ofChars m.chars) = some m.chars :=
    asciiBehind?_append hstart prefixes_apart (isAscii_chars h)
  obtain ⟨tag, hmem, rest, htag⟩ := m.path.startsIn
  have hstarts : ¬ (m.chars = [] ∨ m.chars.head?.any Char.isDigit = true) := by
    rw [chars, htag]
    simp [not_isDigit_of_mem_pathHeads hmem]
  have hread : readSymbol (Level.memoised maxDepth) m.chars.toArray
      = .ok (m.path.traced, (m.path.chars ++ m.instantiatingChars).length) :=
    readSymbol_memoised (reads_symbol h)
  have hrest : m.chars.drop (m.path.chars ++ m.instantiatingChars).length = m.tail := by
    rw [chars, ← List.append_assoc, List.drop_left]
  rw [parse?, hinner]
  simp only [if_neg hstarts, hread, hrest]
  cases htail : m.tail with
  | nil => rfl
  | cons c cs =>
    have hc : c = '.' ∨ c = '$' := h.isTail.start c (by rw [htail]; rfl)
    simp only [if_pos hc]

/-- **v0 names are read back.** A name that spells a path in any way is read as the whole tree of
that path. Its segments are the source form of the tree, by the rules for that and no others, and its
crate is the one that the tree belongs to. -/
theorem decode_spelled {start : Text} (hstart : start ∈ (["__R", "_R", "R"] : List Text))
    (h : m.WellFormed) :
    ∃ n, Name.decode (start ++ Text.ofChars m.chars) = .ok n ∧ n = .v0 m.path.traced ∧
      n.scheme = .v0 ∧
      (∀ segments, m.path.tree.Shows true segments ↔ segments = n.segments) ∧
      n.shown = Text.join "::" n.segments ∧
      (∀ crate, m.path.tree.BelongsTo crate ↔ n.crate? = some crate) ∧ n.hash? = none := by
  have hdecode : Name.decode (start ++ Text.ofChars m.chars) = .ok (.v0 m.path.traced) := by
    rw [Name.decode, legacy_parse?_eq_none hstart, parse?_spelled hstart h]
    rfl
  refine ⟨_, hdecode, rfl, rfl, m.path.shows_iff true, rfl, fun crate => ?_, rfl⟩
  rw [Path.belongsTo_iff]
  exact Option.some_inj.symm

/-- The crate root of a standard library. -/
def sampleRoot : PathSpelling := .crateRoot 0 ⟨"alloc".toList, by decide⟩

/-- A trait in the same crate, which is referred to by its position. -/
def sampleTrait : PathSpelling :=
  .nested 't' (by decide) (.back 5 sampleRoot) 0 ⟨"Iterator".toList, by decide⟩ nofun

/-- A generic type with a trait object and a constant as its arguments. -/
def sampleType : PathSpelling :=
  .generic (.nested 't' (by decide) sampleRoot 0 ⟨"Vec".toList, by decide⟩ nofun)
    [.type (.object none [.mk sampleTrait [.mk ⟨"Item".toList, by decide⟩ (.basic .u8)]] 0),
      .const (.integer .usize rfl 3 rfl)]

/-- A function of that type, instantiated by another crate. -/
def sample : NameSpelling where
  path := .nested 'v' (by decide) sampleType 0 ⟨"push".toList, by decide⟩ nofun
  instantiating := some (.crateRoot 0 ⟨"main".toList, by decide⟩)
  tail := ".llvm.1".toList

/-- The crate that the `impl` blocks below are in. -/
def sampleMain : PathSpelling := .crateRoot 0 ⟨"main".toList, by decide⟩

/-- A closure in an `impl` for a type of another crate. -/
def sampleImpl : NameSpelling where
  path := .nested 'C' (by decide)
    (.inherentImpl 0 sampleMain
      (.reference true none (.path (.nested 't' (by decide) sampleRoot 0 ⟨"Vec".toList, by decide⟩
        nofun))))
    0 ⟨[], by decide⟩ (by decide)

/-- A function in an `impl` for a type of no crate, a function pointer. -/
def sampleCallback : NameSpelling where
  path := .nested 'v' (by decide)
    (.traitImpl 0 sampleMain
      (.function none true (.named ⟨"C_unwind".toList, by decide⟩)
        [.reference false none (.basic .u8), .basic .usize] (.basic .bool))
      (.nested 't' (by decide) (.back 3 sampleMain) 0 ⟨"Handler".toList, by decide⟩ nofun))
    0 ⟨"call".toList, by decide⟩ nofun

/-- The reference of the sample leads back to the crate root. -/
theorem sample_wellFormed : sample.WellFormed where
  path_placed := by
    simp only [sample, sampleType, sampleTrait, sampleRoot, PathSpelling.Placed,
      ArgSpelling.AllPlaced, ArgSpelling.Placed, TypeSpelling.Placed, BoundSpelling.AllPlaced,
      BoundSpelling.Placed, BindingSpelling.AllPlaced, BindingSpelling.Placed, ConstSpelling.Placed]
    decide
  path_depth := by decide
  path_fits := by decide
  instantiating_placed := by
    rintro c ⟨⟩
    exact trivial
  instantiating_depth := by decide
  instantiating_fits := by decide
  isTail := by decide

theorem sampleImpl_wellFormed : sampleImpl.WellFormed where
  path_placed := by
    simp [sampleImpl, sampleMain, sampleRoot]
  path_depth := by decide
  path_fits := by decide
  instantiating_placed := nofun
  instantiating_depth := nofun
  instantiating_fits := nofun
  isTail := by decide

theorem sampleCallback_wellFormed : sampleCallback.WellFormed where
  path_placed := by
    simp only [sampleCallback, sampleMain, PathSpelling.Placed, TypeSpelling.AllPlaced,
      TypeSpelling.Placed]
    decide
  path_depth := by decide
  path_fits := by decide
  instantiating_placed := nofun
  instantiating_depth := nofun
  instantiating_fits := nofun
  isTail := by decide

/-- The samples are read back. The first `impl` belongs to the crate of its type, the second to that
of its module. -/
theorem decode_sample :
    (∃ n, Name.decode "_RNvINtC5alloc3VecDNtB4_8Iteratorp4ItemhEL_Kj3_E4pushC4main.llvm.1" = .ok n ∧
      n.shown = "alloc::Vec::<dyn alloc::Iterator<Item = u8>, 3>::push" ∧
      n.crate? = some "alloc") ∧
    (∃ n, Name.decode "_RNCMC4mainQNtC5alloc3Vec0" = .ok n ∧
      n.shown = "<&mut alloc::Vec>::\x7bclosure#0\x7d" ∧ n.crate? = some "alloc") ∧
    ∃ n, Name.decode "_RNvXC4mainFUK8C_unwindRhjEbNtB2_7Handler4call" = .ok n ∧
      n.shown = "<unsafe extern \"C-unwind\" fn(&u8, usize) -> bool as main::Handler>::call" ∧
      n.crate? = some "main" := by
  have hread {m : NameSpelling} (h : m.WellFormed) {name shown crate : Text}
      (hname : ("_R" : Text) ++ Text.ofChars m.chars = name)
      (hshown : Text.join "::" (m.path.tree.segments true) = shown)
      (hcrate : m.path.tree.crate = crate) :
      ∃ n, Name.decode name = .ok n ∧ n.shown = shown ∧ n.crate? = some crate := by
    have hstart : ("_R" : Text) ∈ (["__R", "_R", "R"] : List Text) := by decide
    obtain ⟨n, hdecode, -, -, hshows, hjoin, hbelongs, -⟩ := decode_spelled hstart h
    refine ⟨n, hname ▸ hdecode, ?_, (hbelongs crate).1 (Path.belongsTo_iff.2 hcrate)⟩
    rw [hjoin, ← (hshows _).1 ((m.path.shows_iff true _).2 rfl), hshown]
  refine ⟨hread sample_wellFormed ?_ ?_ ?_, hread sampleImpl_wellFormed ?_ ?_ ?_,
    hread sampleCallback_wellFormed ?_ ?_ ?_⟩
  all_goals decide +kernel

end NameSpelling

end CrateLedger.Mangled.V0
