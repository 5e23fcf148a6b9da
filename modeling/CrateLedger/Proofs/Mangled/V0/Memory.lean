import CrateLedger.Mangled.V0.Display
import CrateLedger.Proofs.Checked
import CrateLedger.Proofs.Mangled.V0.Simulation

/-!
# The memory is transparent

A tower that remembers skips what it has read before, also where the nesting limit would not allow
it to be read again. So it may read more than the plain tower of the same height, but never anything
else: whatever it reads, all plain towers from some height on read afresh, and no plain tower reads
anything else there.

The invariant is that everything remembered is what fresh readings give. Nothing is remembered at
first, and every path and type that is read keeps it.
-/

namespace CrateLedger.Mangled.V0

variable {α : Type} {input : Array Char}

/-! ## Fresh readings -/

/-- What a grammar reads at a position, with nothing remembered, and the position after it. -/
def Grammar.readAt (g : Grammar α) (input : Array Char) (p : Nat) : Except Failure (α × Nat) :=
  match g input ⟨p, {}⟩ with
  | .ok (a, cursor) => .ok (a, cursor.position)
  | .error e => .error e

theorem Reads.readAt {g : Grammar α} {p q : Nat} {a : α} (h : Reads Anything input g p a q) :
    g.readAt input p = .ok (a, q) := by
  obtain ⟨memo', -, hread⟩ := h {} trivial
  unfold Grammar.readAt
  rw [hread]

theorem Reads.of_readAt {g : Grammar α} {p q : Nat} {a : α}
    (hself : Follows Anything Anything input (fun _ => g) g)
    (h : g.readAt input p = .ok (a, q)) : Reads Anything input g p a q := by
  unfold Grammar.readAt at h
  split at h
  · rename_i b cursor hread
    cases h
    exact .of_ok hself hread
  · cases h

/-- Something is what fresh readings give at a position: with every nesting limit but the smallest
they give it, and with no limit they give anything else. -/
structure Fresh (input : Array Char) (readers : Nat → Grammar α) (p : Nat) (a : α) (q : Nat) :
    Prop where
  read : ∃ least, ∀ k ≥ least, (readers k).readAt input p = .ok (a, q)
  only : ∀ k b r, (readers k).readAt input p = .ok (b, r) → b = a ∧ r = q

/-- The readers that a part of the memory serves give one thing at a position. -/
theorem MemoPart.Serves.fresh {part : MemoPart α} {readers : Nat → Grammar α} {n p q : Nat} {a : α}
    (hserves : part.Serves input readers) (h : Reads Anything input (readers n) p a q) :
    Fresh input readers p a q := by
  constructor
  · refine ⟨n, fun k hk => ?_⟩
    exact Reads.readAt (h.mono (hserves.mono hk))
  · intro k b r hread
    exact hserves.unique (.of_readAt (hserves.mono (Nat.le_refl k)) hread) h

/-! ## Remembering adds nothing -/

/-- If the readers that a part of the memory serves read what a grammar does, they still do when the
grammar remembers in that part. -/
theorem MemoPart.Serves.follows_remembered {part : MemoPart α} {readers : Nat → Grammar α}
    {g : Grammar α} (hserves : part.Serves input readers)
    (h : Follows (Memo.Known input) Anything input readers g) :
    Follows (Memo.Known input) Anything input readers (part.remembered g) := by
  intro p memo a q memo' hknown hread
  rcases remembered_eq_ok hread with ⟨r, hkept, hcursor⟩ | ⟨-, after, hfirst, hcursor⟩
  · -- A remembered thing was read by some reader, and so all higher ones read it.
    cases hcursor
    obtain ⟨n, hn⟩ := hserves.kept hknown hkept
    exact ⟨hknown, n, fun k hk => hn.mono (hserves.mono hk)⟩
  · cases hcursor
    obtain ⟨hafter, least, hleast⟩ := h p memo a _ _ hknown hfirst
    exact ⟨hserves.keep hafter (hleast least (Nat.le_refl _)), least, hleast⟩

namespace Level

/-- If plain levels read what a level does, they still do when the level remembers. -/
theorem plain_follows_remembering {level : Level}
    (h : Follows (Memo.Known input) Anything input plain level) :
    Follows (Memo.Known input) Anything input plain (remembering level) := by
  constructor
  · intro inValue
    rw [remembering_path]
    exact (MemoPart.serves_paths inValue).follows_remembered (h.path inValue)
  · rw [remembering_type]
    exact MemoPart.serves_types.follows_remembered h.type

/-- Plain levels read what the productions over a level do, one level higher than its parts. -/
theorem plain_follows_productions {level : Level}
    (h : Follows (Memo.Known input) Anything input plain level) :
    Follows (Memo.Known input) Anything input plain (productions level) := by
  -- The productions over plain levels are again plain levels, but of limits that are one higher.
  have hraise : ∀ {β : Type} {G : Nat → Grammar β} {g : Grammar β},
      V0.Follows (Memo.Known input) Anything input (fun k => G (k + 1)) g →
      V0.Follows (Memo.Known input) Anything input G g := by
    intro β G g hG p memo a q memo' hknown hread
    obtain ⟨hknown', least, hleast⟩ := hG p memo a q memo' hknown hread
    refine ⟨hknown', least + 1, fun k hk => ?_⟩
    obtain ⟨k, rfl⟩ : ∃ j, k = j + 1 := ⟨k - 1, by omega⟩
    exact hleast k (by omega)
  exact ⟨fun inValue => hraise (h.productions.path inValue), hraise h.productions.type⟩

/-- Remembering adds nothing: whatever a tower that remembers reads from memories of plain readings,
plain towers read. -/
theorem plain_follows_memoised (n : Nat) :
    Follows (Memo.Known input) Anything input plain (memoised n) := by
  induction n with
  | zero =>
    exact plain_follows_remembering ⟨fun _ => V0.Follows.invalid, V0.Follows.invalid⟩
  | succ n ih =>
    exact plain_follows_remembering (plain_follows_productions ih)

end Level

/-! ## What is remembered -/

/-- The memories that come about: nothing is remembered at first, and reading a path or a type, at
any position and with any limit, leads from one memory to the next. -/
inductive Memo.Arises (input : Array Char) : Memo → Prop where
  | start : Arises input {}
  | path {n p q : Nat} {inValue : Bool} {a : TracedPath} {memo memo' : Memo} :
    Arises input memo →
    (Level.memoised n).path inValue input ⟨p, memo⟩ = .ok (a, ⟨q, memo'⟩) → Arises input memo'
  | type {n p q : Nat} {a : TracedType} {memo memo' : Memo} :
    Arises input memo →
    (Level.memoised n).type input ⟨p, memo⟩ = .ok (a, ⟨q, memo'⟩) → Arises input memo'

theorem Memo.Arises.known {memo : Memo} (h : memo.Arises input) : memo.Known input := by
  induction h with
  | start => exact Memo.known_empty
  | path _ hread ih => exact ((Level.plain_follows_memoised _).path _ _ _ _ _ _ ih hread).1
  | type _ hread ih => exact ((Level.plain_follows_memoised _).type _ _ _ _ _ ih hread).1

/-- Everything that is remembered, paths in values, paths elsewhere and types alike, is what fresh
readings give. -/
structure Memo.IsFresh (input : Array Char) (memo : Memo) : Prop where
  paths : ∀ p inValue a q, memo.paths[(p, inValue)]? = some (a, q) →
    Fresh input (fun k => (Level.plain k).path inValue) p a q
  types : ∀ p a q, memo.types[p]? = some (a, q) →
    Fresh input (fun k => (Level.plain k).type) p a q

theorem Memo.Known.isFresh {memo : Memo} (h : memo.Known input) : memo.IsFresh input := by
  constructor
  · intro p inValue a q hget
    obtain ⟨n, hn⟩ := h.paths p inValue a q hget
    exact (MemoPart.serves_paths inValue).fresh hn
  · intro p a q hget
    obtain ⟨n, hn⟩ := h.types p a q hget
    exact MemoPart.serves_types.fresh hn

/-! ## Symbols -/

theorem readSymbol_eq_readAt (level : Level) (input : Array Char) :
    readSymbol level input = (symbol level).readAt input 0 := by
  unfold readSymbol Grammar.readAt
  cases symbol level input ⟨0, {}⟩ <;> rfl

/-- **Transparency.** A symbol that is read afresh within the nesting limit is read in the same way
by the reader that remembers. A symbol that this one reads is read in the same way afresh, if only
the limit is high enough. And nothing is ever remembered but what fresh readings give. -/
theorem memory_transparent (input : Array Char) :
    (∀ path p, readSymbol (Level.plain maxDepth) input = .ok (path, p) →
      readSymbol (Level.memoised maxDepth) input = .ok (path, p)) ∧
    (∀ path p, readSymbol (Level.memoised maxDepth) input = .ok (path, p) →
      ∃ least, ∀ k ≥ least, readSymbol (Level.plain k) input = .ok (path, p)) ∧
    ∀ memo : Memo, memo.Arises input → memo.IsFresh input := by
  refine ⟨?_, ?_, fun memo h => h.known.isFresh⟩
  · intro path p hread
    have hself := (@Level.plain_mono input _ _ (Nat.le_refl maxDepth)).symbol
    rw [readSymbol_eq_readAt] at hread
    exact readSymbol_memoised (.of_readAt hself hread)
  · intro path p hread
    unfold readSymbol at hread
    split at hread
    · rename_i a cursor hsymbol
      cases hread
      have hfollows := (@Level.plain_follows_memoised input maxDepth).symbol
      obtain ⟨-, least, hleast⟩ := hfollows 0 {} path _ _ Memo.known_empty hsymbol
      refine ⟨least, fun k hk => ?_⟩
      rw [readSymbol_eq_readAt]
      exact (hleast k hk).readAt
    · cases hread

/-- A generic function of a crate, whose argument is a type of the same crate, and behind it the
crate that instantiated it. -/
def sampleSymbol : Array Char := "INvC1a1fNtB2_1sEC1z".toList.toArray

theorem sampleSymbol_transparent : ∃ path,
    readSymbol (Level.plain maxDepth) sampleSymbol = .ok (path, 19) ∧
      path.path.segments true = [("a" : Text), "f::<a::s>"] ∧ path.crate = "a" ∧
      readSymbol (Level.memoised maxDepth) sampleSymbol = .ok (path, 19) ∧
      ∃ least, ∀ k ≥ least, readSymbol (Level.plain k) sampleSymbol = .ok (path, 19) := by
  obtain ⟨hkept, hfresh, -⟩ := memory_transparent sampleSymbol
  have hok : (readSymbol (Level.plain maxDepth) sampleSymbol).toOption.map
      (fun r => (r.1.path.segments true, r.1.crate, r.2))
        = some ([("a" : Text), "f::<a::s>"], ("a" : Text), 19) := by
    decide +kernel
  obtain ⟨⟨path, p⟩, hread, hlook⟩ := exists_eq_ok_of_toOption hok
  simp only [Prod.mk.injEq] at hlook
  obtain ⟨hsegments, hcrate, rfl⟩ := hlook
  have hremembered := hkept path 19 hread
  exact ⟨path, hread, hsegments, hcrate, hremembered, hfresh path 19 hremembered⟩

end CrateLedger.Mangled.V0
