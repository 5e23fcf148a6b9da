import CrateLedger.Proofs.Mangled.V0.Productions
import Mathlib.Data.Nat.Init

/-!
# Levels that read alike

Two towers of levels are compared by what they read. A reader is followed by others if whatever it
reads all but the first of them read as well, whatever they remember, as long as the memories have
properties that reading keeps. Being followed is kept by every production, so it climbs up a tower
level by level.

Main statements: a higher nesting limit reads no less, and a tower that remembers reads all that the
plain tower of the same height does.
-/

namespace CrateLedger.Mangled.V0

variable {α β : Type} {I J : Memo → Prop} {input : Array Char}

/-! ## Reading -/

/-- From any memory with a property a grammar reads a value between two positions, and leaves a
memory with the property. -/
def Reads (I : Memo → Prop) (input : Array Char) (g : Grammar α) (p : Nat) (a : α) (q : Nat) :
    Prop :=
  ∀ memo, I memo → ∃ memo', I memo' ∧ g input ⟨p, memo⟩ = .ok (a, ⟨q, memo'⟩)

namespace Reads

variable {g : Grammar α} {p q r : Nat} {a : α}

theorem pure (a : α) (p : Nat) : Reads I input (Pure.pure a) p a p :=
  fun memo h => ⟨memo, h, rfl⟩

theorem bind {f : α → Grammar β} {b : β} (hg : Reads I input g p a q)
    (hf : Reads I input (f a) q b r) : Reads I input (g >>= f) p b r := by
  intro memo h
  obtain ⟨memo', h', hread⟩ := hg memo h
  obtain ⟨memo'', h'', hread'⟩ := hf memo' h'
  refine ⟨memo'', h'', ?_⟩
  show Reader.bind g f input ⟨p, memo⟩ = _
  rw [Reader.bind, hread]
  exact hread'

theorem scan {reader : Scan α} (h : reader input p = .ok (a, q)) :
    Reads I input (Grammar.scan reader) p a q := by
  intro memo hmemo
  refine ⟨memo, hmemo, ?_⟩
  rw [Grammar.scan, h]

theorem position (p : Nat) : Reads I input Grammar.position p p p := fun memo h => ⟨memo, h, rfl⟩

theorem seek (p q : Nat) : Reads I input (Grammar.seek q) p () q := fun memo h => ⟨memo, h, rfl⟩

end Reads

/-! ## Following -/

/-- All but the first of some grammars read whatever another reads. -/
def Follows (I J : Memo → Prop) (input : Array Char) (G : Nat → Grammar α) (g : Grammar α) : Prop :=
  ∀ p memo a q memo', I memo → g input ⟨p, memo⟩ = .ok (a, ⟨q, memo'⟩) →
    I memo' ∧ ∃ least, ∀ k ≥ least, Reads J input (G k) p a q

namespace Follows

theorem pure (a : α) : Follows I J input (fun _ => Pure.pure a) (Pure.pure a) := by
  intro p memo b q memo' hmemo h
  cases h
  exact ⟨hmemo, 0, fun _ _ => Reads.pure a p⟩

theorem invalid {G : Nat → Grammar α} : Follows I J input G Reader.invalid := by
  intro p memo b q memo' _ h
  cases h

theorem bind {g : Grammar α} {G : Nat → Grammar α} {f : α → Grammar β} {F : Nat → α → Grammar β}
    (hg : Follows I J input G g) (hf : ∀ a, Follows I J input (fun k => F k a) (f a)) :
    Follows I J input (fun k => G k >>= F k) (g >>= f) := by
  intro p memo b r memo'' hmemo h
  change Reader.bind g f input ⟨p, memo⟩ = _ at h
  rw [Reader.bind] at h
  split at h
  · rename_i a state hread
    obtain ⟨hmemo', first, hfirst⟩ := hg p memo a _ _ hmemo hread
    obtain ⟨hmemo'', second, hsecond⟩ := hf a _ _ b r _ hmemo' h
    refine ⟨hmemo'', max first second, fun k hk => ?_⟩
    exact (hfirst k (by omega)).bind (hsecond k (by omega))
  · cases h

theorem scan (reader : Scan α) :
    Follows I J input (fun _ => Grammar.scan reader) (Grammar.scan reader) := by
  intro p memo a q memo' hmemo h
  rw [Grammar.scan] at h
  split at h
  · rename_i b r hread
    cases h
    exact ⟨hmemo, 0, fun _ _ => Reads.scan hread⟩
  · cases h

theorem position : Follows I J input (fun _ => Grammar.position) Grammar.position := by
  intro p memo a q memo' hmemo h
  cases h
  exact ⟨hmemo, 0, fun _ _ => Reads.position p⟩

theorem seek (r : Nat) : Follows I J input (fun _ => Grammar.seek r) (Grammar.seek r) := by
  intro p memo a q memo' hmemo h
  cases h
  exact ⟨hmemo, 0, fun _ _ => Reads.seek p r⟩

theorem ite {c : Prop} [Decidable c] {g g' : Grammar α} {G G' : Nat → Grammar α}
    (h : Follows I J input G g) (h' : Follows I J input G' g') :
    Follows I J input (fun k => if c then G k else G' k) (if c then g else g') := by
  by_cases hc : c
  · simpa only [if_pos hc] using h
  · simpa only [if_neg hc] using h'

variable {isEnd : Scan Bool} {item : Grammar α} {items : Nat → Grammar α}

theorem manyWithin (h : Follows I J input items item) (n : Nat) :
    Follows I J input (fun k => Grammar.manyWithin isEnd (items k) n)
      (Grammar.manyWithin isEnd item n) := by
  induction n with
  | zero => exact invalid
  | succ n ih =>
    exact (scan isEnd).bind fun b => ite (pure []) (h.bind fun a => ih.bind fun _ => pure _)

theorem many (h : Follows I J input items item) :
    Follows I J input (fun k => Grammar.many isEnd (items k)) (Grammar.many isEnd item) :=
  fun p => h.manyWithin (input.size + 1 - p) p

theorem backReference (h : Follows I J input items item) :
    Follows I J input (fun k => Grammar.backReference (items k)) (Grammar.backReference item) :=
  position.bind fun _ => (scan _).bind fun target => ite
    (position.bind fun back => (seek target).bind fun _ => h.bind fun _ => (seek back).bind fun _ =>
      pure _)
    invalid

end Follows

/-! ## Productions -/

/-- Every production keeps being followed. The grammar that is followed stands in front of those
that follow it. -/
theorem closed_follows :
    Grammar.Closed (fun _ _ => True) fun {_} _ (G : Option Nat → Grammar _) =>
      Follows I J input (fun k => G (some k)) (G none) where
  lexical := by constructor <;> intros <;> trivial
  const := trivial
  itemName _ := trivial
  scan _ := .scan _
  pure a := .pure a
  invalid _ := .invalid
  bind hG hF := hG.bind hF
  look hF := by
    refine (Follows.scan _).bind fun next => ?_
    cases next with
    | none => exact .invalid
    | some c => exact hF c
  untilE h := h.many
  whileP h := h.many
  backReference h := h.backReference

namespace Level

/-- All but the first of some levels read whatever another reads. -/
structure Follows (I J : Memo → Prop) (input : Array Char) (levels : Nat → Level) (level : Level) :
    Prop where
  path : ∀ inValue, V0.Follows I J input (fun k => (levels k).path inValue) (level.path inValue)
  type : V0.Follows I J input (fun k => (levels k).type) level.type

namespace Follows

open V0.Follows

variable {levels : Nat → Level} {level : Level} (h : Follows I J input levels level)

include h

theorem satisfies :
    Satisfies (fun {_} _ (G : Option Nat → Grammar _) =>
      V0.Follows I J input (fun k => G (some k)) (G none)) fun i => i.elim level levels :=
  ⟨h.path, h.type⟩

theorem genericArg :
    V0.Follows I J input (fun k => (levels k).genericArg) level.genericArg :=
  h.satisfies.genericArg closed_follows

theorem binding : V0.Follows I J input (fun k => (levels k).binding) level.binding :=
  h.satisfies.binding closed_follows

theorem bound : V0.Follows I J input (fun k => (levels k).bound) level.bound :=
  h.satisfies.bound closed_follows

/-- Productions over levels that follow do so too. -/
theorem productions :
    Follows I J input (fun k => (levels k).productions) level.productions :=
  ⟨h.satisfies.pathProduction closed_follows, h.satisfies.typeProduction closed_follows⟩

/-- So do symbols. -/
theorem symbol : V0.Follows I J input (fun k => V0.symbol (levels k)) (V0.symbol level) := by
  refine (h.path true).bind fun path => (scan _).bind fun next => ?_
  split
  · exact ite ((h.path false).bind fun _ => pure _) (pure _)
  · exact pure _

end Follows

end Level

/-! ## Towers -/

/-- A memory of which nothing is known. -/
abbrev Anything : Memo → Prop := fun _ => True

namespace Reads

variable {g g' : Grammar α} {p q q' : Nat} {a a' : α}

/-- What a grammar reads is read by one that follows it. -/
theorem mono (hg : Follows Anything J input (fun _ => g') g) (h : Reads Anything input g p a q) :
    Reads J input g' p a q := by
  obtain ⟨memo', -, hread⟩ := h {} trivial
  obtain ⟨-, least, hreads⟩ := hg p {} a q memo' trivial hread
  exact hreads least (Nat.le_refl _)

/-- What a grammar that follows itself reads with one memory it reads with any. -/
theorem of_ok {memo memo' : Memo} (hself : Follows Anything J input (fun _ => g) g)
    (h : g input ⟨p, memo⟩ = .ok (a, ⟨q, memo'⟩)) : Reads J input g p a q := by
  obtain ⟨-, least, hreads⟩ := hself p memo a q memo' trivial h
  exact hreads least (Nat.le_refl _)

/-- A grammar reads one thing at a position. -/
theorem unique (h : Reads Anything input g p a q) (h' : Reads Anything input g p a' q') :
    a = a' ∧ q = q' := by
  obtain ⟨memo', -, hread⟩ := h {} trivial
  obtain ⟨memo'', -, hread'⟩ := h' {} trivial
  rw [hread] at hread'
  cases hread'
  exact ⟨rfl, rfl⟩

end Reads

/-- Everything that is remembered is what some level of the plain tower reads. -/
structure Memo.Known (input : Array Char) (memo : Memo) : Prop where
  paths : ∀ p inValue a q, memo.paths[(p, inValue)]? = some (a, q) →
    ∃ n, Reads Anything input ((Level.plain n).path inValue) p a q
  types : ∀ p a q, memo.types[p]? = some (a, q) →
    ∃ n, Reads Anything input (Level.plain n).type p a q

theorem Memo.known_empty : Memo.Known input {} := by
  constructor <;> simp

namespace Level

/-- A higher nesting limit reads no less. -/
theorem plain_mono {n m : Nat} (hle : n ≤ m) :
    Follows Anything Anything input (fun _ => plain m) (plain n) := by
  induction n generalizing m with
  | zero => exact ⟨fun _ => V0.Follows.invalid, V0.Follows.invalid⟩
  | succ n ih =>
    obtain ⟨m, rfl⟩ : ∃ k, m = k + 1 := ⟨m - 1, by omega⟩
    exact (ih (by omega)).productions

end Level

/-- A part of the memory has what some readers read, of which the higher read no less. -/
structure MemoPart.Serves (part : MemoPart α) (input : Array Char) (readers : Nat → Grammar α) :
    Prop where
  mono : ∀ {n m}, n ≤ m → Follows Anything Anything input (fun _ => readers m) (readers n)
  kept : ∀ {memo : Memo} {p a q}, memo.Known input → part.kept memo p = some (a, q) →
    ∃ n, Reads Anything input (readers n) p a q
  keep : ∀ {memo : Memo} {n p a q}, memo.Known input → Reads Anything input (readers n) p a q →
    (part.keep memo p (a, q)).Known input

namespace MemoPart

theorem serves_paths (inValue : Bool) :
    (paths inValue).Serves input fun n => (Level.plain n).path inValue where
  mono hle := (Level.plain_mono hle).path inValue
  kept h hkept := h.paths _ inValue _ _ hkept
  keep {memo n p a q} h ha := by
    refine ⟨fun p' inValue' a' q' hget => ?_, h.types⟩
    simp only [paths, Std.HashMap.getElem?_insert] at hget
    split at hget
    · rename_i hkey
      cases eq_of_beq hkey
      cases hget
      exact ⟨n, ha⟩
    · exact h.paths p' inValue' a' q' hget

theorem serves_types : types.Serves input fun n => (Level.plain n).type where
  mono hle := (Level.plain_mono hle).type
  kept h hkept := h.types _ _ _ hkept
  keep {memo n p a q} h ha := by
    refine ⟨h.paths, fun p' a' q' hget => ?_⟩
    simp only [types, Std.HashMap.getElem?_insert] at hget
    split at hget
    · rename_i hkey
      cases eq_of_beq hkey
      cases hget
      exact ⟨n, ha⟩
    · exact h.types p' a' q' hget

namespace Serves

variable {part : MemoPart α} {readers : Nat → Grammar α} {g : Grammar α}
  (h : part.Serves input readers)

include h

/-- Readers of any two heights agree on what is at a position. -/
theorem unique {n m p q q' : Nat} {a a' : α} (hn : Reads Anything input (readers n) p a q)
    (hm : Reads Anything input (readers m) p a' q') : a = a' ∧ q = q' :=
  -- Neither height need be the greater one, so both readings are compared with a third.
  (hn.mono (h.mono (Nat.le_max_left n m))).unique (hm.mono (h.mono (Nat.le_max_right n m)))

/-- A grammar that reads what one of the readers does still does so when it remembers. -/
theorem remembered_follows {n : Nat}
    (hg : Follows Anything (Memo.Known input) input (fun _ => g) (readers n)) :
    Follows Anything (Memo.Known input) input (fun _ => part.remembered g) (readers n) := by
  intro p memo a q memo' _ hread
  have hreads : Reads Anything input (readers n) p a q :=
    .of_ok (h.mono (Nat.le_refl n)) hread
  refine ⟨trivial, 0, fun _ _ known hknown => ?_⟩
  cases hkept : part.kept known p with
  | some read =>
    -- What is remembered was read with another limit, and all limits agree on what is read.
    obtain ⟨m, hm⟩ := h.kept hknown hkept
    obtain ⟨ha, hq⟩ := h.unique hreads hm
    refine ⟨known, hknown, ?_⟩
    rw [ha, hq]
    exact remembered_of_kept hkept
  | none =>
    obtain ⟨after, hafter, hlevel⟩ := hreads.mono hg known hknown
    exact ⟨_, h.keep hafter hreads, remembered_of_read hkept hlevel⟩

end Serves

end MemoPart

namespace Level

/-- A level that reads what a plain one does still does so when it remembers. -/
theorem remembering_follows {n : Nat} {level : Level}
    (h : Follows Anything (Memo.Known input) input (fun _ => level) (plain n)) :
    Follows Anything (Memo.Known input) input (fun _ => remembering level) (plain n) := by
  constructor
  · intro inValue
    simp only [remembering_path]
    exact (MemoPart.serves_paths inValue).remembered_follows (h.path inValue)
  · simp only [remembering_type]
    exact MemoPart.serves_types.remembered_follows h.type

/-- Remembering loses nothing: a tower that remembers reads all that the plain tower of the same
height does. -/
theorem memoised_follows_plain (n : Nat) :
    Follows Anything (Memo.Known input) input (fun _ => memoised n) (plain n) := by
  induction n with
  | zero => exact remembering_follows ⟨fun _ => V0.Follows.invalid, V0.Follows.invalid⟩
  | succ n ih => exact remembering_follows ih.productions

end Level

/-- A symbol that the plain tower reads is read by the tower that remembers. -/
theorem readSymbol_memoised {n q : Nat} {path : TracedPath}
    (h : Reads Anything input (symbol (Level.plain n)) 0 path q) :
    readSymbol (Level.memoised n) input = .ok (path, q) := by
  obtain ⟨memo, -, hread⟩ := h.mono (Level.memoised_follows_plain n).symbol {} Memo.known_empty
  rw [readSymbol, hread]

end CrateLedger.Mangled.V0
