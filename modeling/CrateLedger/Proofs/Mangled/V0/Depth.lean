import CrateLedger.Proofs.Mangled.V0.Productions
import CrateLedger.Proofs.Mangled.V0.Scan

/-!
# The nesting limit

No more than `maxDepth` paths and types are open at once, and a name that would need another one is
refused. So reading a name is the same whatever would be done with deeper nesting, and a host that
has room for a little more than the limit never shows where its own limit is, as far as paths and
types are concerned.

A reading over a level that stands below a tower is decided in one of two ways: either the level is
never asked, or it is asked, and then, if it fails, everything fails in the same way.
-/

namespace CrateLedger.Mangled.V0

variable {α β : Type} {input : Array Char}

namespace Level

/-! ## Levels below the limit -/

/-- A tower that remembers, over any level. -/
def stacked (bottom : Level) : Nat → Level
  | 0 => remembering bottom
  | n + 1 => remembering (productions (stacked bottom n))

theorem stacked_refusing (n : Nat) : stacked refusing n = memoised n := by
  induction n with
  | zero => rfl
  | succ n ih => rw [stacked, ih, memoised]

/-- Fails in a given way. -/
def failing (e : Failure) : Level where
  path _ := fun _ _ => .error e
  type := fun _ _ => .error e

theorem failing_invalid : failing .invalid = refusing := rfl

/-- Paths and types as they are read by counting those that are open. The host that runs the
readers has room for so many of them inside one another, and beyond that does what it likes. Only
paths and types are charged. References from constant to constant need the host's room as well: they
are not counted here and no limit of the grammar holds for them, but they always come to an end. -/
def counting (host : Level) : (room opened : Nat) → Level
  | 0, _ => host
  | room + 1, opened =>
    remembering
      (if opened < maxDepth then productions (counting host room (opened + 1)) else refusing)

/-- With room for one call more than the limit, it does not matter what the host does. -/
theorem counting_eq_memoised {host : Level} {room opened : Nat} (hopened : opened ≤ maxDepth)
    (hroom : maxDepth - opened < room) :
    counting host room opened = memoised (maxDepth - opened) := by
  induction room generalizing opened with
  | zero => omega
  | succ room ih =>
    rw [counting]
    split
    · rename_i hlt
      have hrest : maxDepth - opened = maxDepth - (opened + 1) + 1 := by omega
      rw [ih hlt (by omega), hrest, memoised]
    · have hrest : maxDepth - opened = 0 := by omega
      rw [hrest, memoised]

end Level

/-! ## Asking the lowest level -/

/-- Readings over a lowest level that never ask it, or ask it and fail as it does. -/
def Decided (input : Array Char) (G : Level → Grammar α) : Prop :=
  ∀ s, (∀ bottom, G bottom input s = G Level.refusing input s) ∨
    ∀ e, G (Level.failing e) input s = .error e

namespace Decided

variable {G : Level → Grammar α}

/-- A reader without a lowest level. -/
theorem of_const (g : Grammar α) : Decided input fun _ => g := fun _ => .inl fun _ => rfl

theorem bind {F : Level → α → Grammar β} (hG : Decided input G)
    (hF : ∀ a, Decided input fun bottom => F bottom a) :
    Decided input fun bottom => G bottom >>= F bottom := by
  intro s
  rcases hG s with hsame | hasked
  · cases hfirst : G Level.refusing input s with
    | error e =>
      have hfails (bottom : Level) : (G bottom >>= F bottom) input s = .error e :=
        Reader.bind_error ((hsame bottom).trans hfirst)
      exact .inl fun bottom => (hfails bottom).trans (hfails Level.refusing).symm
    | ok result =>
      obtain ⟨a, s'⟩ := result
      have hread (bottom : Level) : (G bottom >>= F bottom) input s = F bottom a input s' :=
        Reader.bind_ok ((hsame bottom).trans hfirst)
      rcases hF a s' with hsame' | hasked'
      · exact .inl fun bottom =>
          ((hread bottom).trans (hsame' bottom)).trans (hread Level.refusing).symm
      · exact .inr fun e => (hread (Level.failing e)).trans (hasked' e)
  · exact .inr fun e => Reader.bind_error (hasked e)

theorem ite {c : Prop} [Decidable c] {G' : Level → Grammar α} (h : Decided input G)
    (h' : Decided input G') : Decided input fun bottom => if c then G bottom else G' bottom := by
  by_cases hc : c
  · simpa only [if_pos hc] using h
  · simpa only [if_neg hc] using h'

theorem many (isEnd : Scan Bool) (h : Decided input G) :
    Decided input fun bottom => Grammar.many isEnd (G bottom) := by
  have hwithin (n : Nat) : Decided input fun bottom => Grammar.manyWithin isEnd (G bottom) n := by
    induction n with
    | zero => exact of_const _
    | succ n ih =>
      refine (of_const _).bind fun atEnd => ite (of_const _) ?_
      exact h.bind fun a => ih.bind fun _ => of_const _
  exact fun s => hwithin (input.size + 1 - s.position) s

theorem backReference (h : Decided input G) :
    Decided input fun bottom => Grammar.backReference (G bottom) := by
  refine (of_const _).bind fun after => (of_const _).bind fun target => ite ?_ (of_const _)
  refine (of_const _).bind fun back => (of_const _).bind fun _ => ?_
  exact h.bind fun a => of_const _

/-- What is remembered does not depend on a lowest level, and what is not is read. -/
theorem remembered {part : MemoPart α} (h : Decided input G) :
    Decided input fun bottom => part.remembered (G bottom) := by
  intro s
  cases hkept : part.kept s.memo s.position with
  | some read =>
    exact .inl fun bottom =>
      (MemoPart.remembered_of_kept hkept).trans (MemoPart.remembered_of_kept hkept).symm
  | none =>
    rcases h s with hsame | hasked
    · exact .inl fun bottom => MemoPart.remembered_congr (hsame bottom)
    · exact .inr fun e => MemoPart.remembered_of_error hkept (hasked e)

end Decided

/-- No lexical reader has a lowest level, and the productions keep being decided. -/
theorem closed_decided :
    Grammar.Closed (fun _ _ => True) fun (_ : Nat) (G : Level → Grammar _) => Decided input G where
  lexical := by constructor <;> intros <;> trivial
  const := trivial
  itemName _ := trivial
  scan _ := .of_const _
  pure _ := .of_const _
  invalid _ := .of_const _
  bind hG hF := hG.bind hF
  look hF := (Decided.of_const _).bind fun
    | none => .of_const _
    | some c => hF c
  untilE h := h.many _
  whileP h := h.many _
  backReference h := h.backReference

namespace Level

/-- All paths and types of some levels over a lowest one are decided. -/
abbrev AllDecided (input : Array Char) (levels : Level → Level) : Prop :=
  Satisfies (fun (_ : Nat) (G : Level → Grammar _) => Decided input G) levels

theorem AllDecided.remembering {levels : Level → Level} (h : AllDecided input levels) :
    AllDecided input fun bottom => (levels bottom).remembering :=
  Satisfies.remembering (fun inValue => (h.path inValue).remembered) h.type.remembered

theorem allDecided_stacked (n : Nat) : AllDecided input fun bottom => stacked bottom n := by
  induction n with
  | zero =>
    -- The lowest level is asked at once.
    have hlowest : AllDecided input fun bottom => bottom :=
      ⟨fun _ _ => .inr fun _ => rfl, fun _ => .inr fun _ => rfl⟩
    exact hlowest.remembering
  | succ n ih => exact AllDecided.remembering (ih.productions closed_decided)

end Level

theorem decided_symbol (n : Nat) : Decided input fun bottom => symbol (Level.stacked bottom n) := by
  have hlevel := @Level.allDecided_stacked input n
  refine (hlevel.path true).bind fun path => (Decided.of_const _).bind fun next => ?_
  split
  · exact ((hlevel.path false).bind fun _ => .of_const _).ite (.of_const _)
  · exact .of_const _

/-- Either a name is read in the same way whatever stands below the limit, or deeper nesting is
tried, and then the name is refused. -/
theorem readSymbol_stacked (input : Array Char) :
    (∀ bottom, readSymbol (Level.stacked bottom maxDepth) input =
        readSymbol (Level.memoised maxDepth) input) ∨
      (∀ e, readSymbol (Level.stacked (Level.failing e) maxDepth) input = .error e) ∧
        readSymbol (Level.memoised maxDepth) input = .error .invalid := by
  rcases @decided_symbol input maxDepth ⟨0, {}⟩ with hsame | hasked
  · beta_reduce at hsame
    left
    intro bottom
    rw [readSymbol, readSymbol, hsame bottom, Level.stacked_refusing]
  · have hfails (e : Failure) :
        readSymbol (Level.stacked (Level.failing e) maxDepth) input = .error e := by
      beta_reduce at hasked
      rw [readSymbol, hasked e]
    refine .inr ⟨hfails, ?_⟩
    rw [← Level.stacked_refusing, ← Level.failing_invalid, hfails]

/-! ## Deep nesting -/

/-- Items inside one another are announced one after the other from a position on. -/
def Nests (input : Array Char) (p : Nat) : Nat → Prop
  | 0 => True
  | n + 1 => input[p]? = some 'N' ∧ (∃ c ∈ input[p + 1]?, c.isAlpha = true) ∧
      Nests input (p + 2) n

/-- A tower refuses as many items inside one another as it is high. -/
theorem path_eq_error_of_nests {n p : Nat} {inValue : Bool} (h : Nests input p n) :
    (Level.memoised n).path inValue input ⟨p, {}⟩ = .error .invalid := by
  have hnone : (MemoPart.paths inValue).kept {} p = none := by simp [MemoPart.paths]
  induction n generalizing p with
  | zero =>
    rw [Level.memoised, Level.remembering_path]
    exact MemoPart.remembered_of_error hnone rfl
  | succ n ih =>
    obtain ⟨hN, ⟨c, hc, halpha⟩, hrest⟩ := h
    have hproduction :
        (Level.productions (Level.memoised n)).path inValue input ⟨p, {}⟩ = .error .invalid := by
      refine (Reader.bind_ok (Grammar.scan_ok (Scan.next_of_eq hN))).trans ?_
      refine (Reader.bind_ok (Grammar.scan_ok (Scan.next_of_eq hc))).trans ?_
      rw [if_pos halpha]
      exact Reader.bind_error (ih hrest (by simp [MemoPart.paths]))
    rw [Level.memoised, Level.remembering_path]
    exact MemoPart.remembered_of_error hnone hproduction

/-- A name that starts with as many items inside one another as may be open is refused, whatever
follows. -/
theorem readSymbol_eq_error_of_nests (h : Nests input 0 maxDepth) :
    readSymbol (Level.memoised maxDepth) input = .error .invalid := by
  have hsymbol : symbol (Level.memoised maxDepth) input ⟨0, {}⟩ = .error .invalid :=
    Reader.bind_error (path_eq_error_of_nests h)
  rw [readSymbol, hsymbol]

end CrateLedger.Mangled.V0
