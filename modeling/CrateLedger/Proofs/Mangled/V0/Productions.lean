import CrateLedger.Proofs.Mangled.V0.Remembering

/-!
# What every production keeps

Many facts about reading v0 names hold because they hold of the smallest readers and are kept by
every way of putting readers together. What has to be kept is written down once, as a structure of
closure conditions, and it is shown once that all productions then have the property. A property
may speak of a least number of characters that are taken, so that it can be told which readers go
forward.

The properties of grammars are about families of readers, so that readings over different levels
can be compared.
-/

namespace CrateLedger.Mangled.V0

variable {α β : Type}

/-! ## The lexical level -/

namespace Scan

/-- A property of lexical readers that is kept when they are put together. It depends on how many
characters are taken at least, which may depend on the value. No reader looks for a character that
starts a suffix. -/
structure Closed (S : ∀ {α : Type}, (α → Nat) → Scan α → Prop) : Prop where
  pure : ∀ {α : Type} (a : α), S (fun _ => 0) (Pure.pure a)
  invalid : ∀ {α : Type} (taken : α → Nat), S taken (Reader.invalid : Scan α)
  bind : ∀ {α β : Type} {r : Scan α} {f : α → Scan β} {first : α → Nat} {all : β → Nat},
    S first r → (∀ a, S (fun b => all b - first a) (f a)) → S all (r >>= f)
  mono : ∀ {α : Type} {r : Scan α} {less more : α → Nat}, (∀ a, less a ≤ more a) → S more r →
    S less r
  next : S (fun _ => 1) next
  eat : ∀ c, c ≠ '.' ∧ c ≠ '$' → S Bool.toNat (eat c)
  take : ∀ n, S (fun _ => n) (take n)
  takeWhile : ∀ belongs : Char → Bool, belongs '.' = false ∧ belongs '$' = false →
    S List.length (takeWhile belongs)

namespace Closed

variable {S : ∀ {α : Type}, (α → Nat) → Scan α → Prop} (h : Closed S)

include h

theorem weaken {r : Scan α} {taken : α → Nat} (hr : S taken r) : S (fun _ => 0) r :=
  h.mono (fun _ => Nat.zero_le _) hr

/-- A character that may be there or not. -/
theorem tryEat (c : Char) (hc : c ≠ '.' ∧ c ≠ '$') : S (fun _ => 0) (Scan.eat c) :=
  h.weaken (h.eat c hc)

theorem notEat {c : Char} (hc : c ≠ '.' ∧ c ≠ '$') :
    S (fun _ => 0) (do return !(← Scan.eat c)) :=
  h.bind (h.tryEat c hc) fun _ => h.pure _

theorem expect {c : Char} (hc : c ≠ '.' ∧ c ≠ '$') : S (fun _ => 1) (Scan.expect c) := by
  refine h.bind (h.eat c hc) fun found => ?_
  cases found with
  | true => exact h.pure ()
  | false => exact h.invalid _

theorem base62 : S (fun _ => 1) Scan.base62 := by
  refine h.bind (h.eat '_' (by decide)) fun found => ?_
  cases found with
  | true => exact h.pure 0
  | false =>
    refine h.bind (h.weaken (h.takeWhile _ (by decide))) fun digits => ?_
    exact h.bind (h.expect (by decide)) fun _ => h.pure _

theorem decimal : S (fun _ => 1) Scan.decimal := by
  refine h.bind (h.eat '0' (by decide)) fun found => ?_
  cases found with
  | true => exact h.pure 0
  | false =>
    refine h.bind (h.takeWhile _ (by decide)) fun digits => ?_
    cases digits with
    | nil => exact h.invalid _
    | cons d ds => exact h.mono (by simp) (h.pure _)

theorem tagged? {tag : Char} (htag : tag ≠ '.' ∧ tag ≠ '$') : S (fun _ => 0) (Scan.tagged? tag) := by
  refine h.bind (h.tryEat tag htag) fun found => ?_
  cases found with
  | true => exact h.bind h.base62 fun _ => h.pure _
  | false => exact h.pure none

theorem disambiguator : S (fun _ => 0) Scan.disambiguator := by
  refine h.bind (h.tagged? (by decide)) fun n => ?_
  cases n with
  | none => exact h.pure 0
  | some n => exact h.pure _

theorem decodePunycode (s : List Char) : S (fun _ => 0) (Scan.decodePunycode s) := by
  unfold Scan.decodePunycode
  split
  · exact h.pure _
  · exact h.invalid _

theorem rawIdentifier : S (fun _ => 1) Scan.rawIdentifier := by
  refine h.bind (h.tryEat 'u' (by decide)) fun isPunycode => ?_
  refine h.bind h.decimal fun length => ?_
  refine h.bind (h.tryEat '_' (by decide)) fun _ => ?_
  refine h.bind (h.weaken (h.take length)) fun text => ?_
  cases isPunycode with
  | true => exact h.decodePunycode text
  | false => exact h.pure _

theorem identifier : S (fun _ => 1) Scan.identifier := by
  refine h.bind h.disambiguator fun d => ?_
  exact h.bind h.rawIdentifier fun _ => h.pure _

theorem abi? : S (fun _ => 0) Level.abi? := by
  refine h.bind (h.tryEat 'K' (by decide)) fun found => ?_
  cases found with
  | false => exact h.pure none
  | true =>
    refine h.bind (h.tryEat 'C' (by decide)) fun isC => ?_
    cases isC with
    | true => exact h.pure _
    | false => exact h.bind h.rawIdentifier fun _ => h.pure _

omit h in
theorem ite {c : Prop} [Decidable c] {r r' : Scan α} {taken : α → Nat} (hr : S taken r)
    (hr' : S taken r') : S taken (if c then r else r') := by
  split
  · exact hr
  · exact hr'

theorem shown (hraise : ∀ e, S (fun _ => 0) (Reader.raise e : Scan Unit)) (n : Nat) :
    S (fun _ => 0) (Scan.shown n) :=
  ite (h.pure ()) (hraise _)

theorem itemName (hraise : ∀ e, S (fun _ => 0) (Reader.raise e : Scan Unit)) (space : Char) :
    S (fun _ => 1) (Scan.itemName space) := by
  refine h.bind h.identifier fun name => ?_
  exact ite (h.bind (h.shown hraise name.1) fun _ => h.pure _) (h.pure _)

theorem constOf (hraise : ∀ {α : Type} (e), S (fun _ => 0) (Reader.raise e : Scan α)) (tag : Char)
    (negative : Bool) (n : Nat) : S (fun _ => 0) (Scan.constOf tag negative n) := by
  unfold Scan.constOf
  rcases BasicType.ofTag? tag with _ | type
  · exact h.invalid _
  cases type with
  | bool =>
    -- Zero and one are the only numbers that stand for truth values.
    rcases n with _ | _ | n
    · exact h.pure _
    · exact h.pure _
    · exact h.invalid _
  | char =>
    cases codePoint n with
    | ok c => exact h.pure _
    | error e => exact hraise e
  | _ => exact ite (h.bind (h.shown hraise n) fun _ => h.pure _) (h.invalid _)

theorem literal (hraise : ∀ {α : Type} (e), S (fun _ => 0) (Reader.raise e : Scan α)) :
    S (fun _ => 1) Scan.literal := by
  refine h.bind h.next fun tag => ?_
  refine h.bind (h.tryEat 'n' (by decide)) fun negative => ?_
  refine h.bind (h.weaken (h.takeWhile _ (by decide))) fun digits => ?_
  exact h.bind (h.expect (by decide)) fun _ => h.constOf hraise tag negative _

end Closed

end Scan

/-! ## Productions -/

/-- A property of families of grammars that is kept when they are put together, and a property of
lexical readers that gives it. A loop needs items that take a character, and so does what a back
reference leads to. -/
structure Grammar.Closed {ι : Type} (S : ∀ {α : Type}, (α → Nat) → Scan α → Prop)
    (P : ∀ {α : Type}, Nat → (ι → Grammar α) → Prop) : Prop where
  lexical : Scan.Closed S
  const : S (fun _ => 1) Scan.const
  itemName : ∀ space, S (fun _ => 1) (Scan.itemName space)
  scan : ∀ {α : Type} {n : Nat} {r : Scan α}, S (fun _ => n) r → P n fun _ => Grammar.scan r
  pure : ∀ {α : Type} (a : α), P 0 fun _ => Pure.pure a
  invalid : ∀ {α : Type} (n : Nat), P n fun _ => (Reader.invalid : Grammar α)
  bind : ∀ {α β : Type} {G : ι → Grammar α} {F : ι → α → Grammar β} {m n : Nat}, P m G →
    (∀ a, P (n - m) fun i => F i a) → P n fun i => G i >>= F i
  look : ∀ {α : Type} {n : Nat} {F : ι → Char → Grammar α}, (∀ c, P n fun i => F i c) →
    P n fun i => do
      match ← Grammar.scan Scan.peek with
      | none => Reader.invalid
      | some c => F i c
  untilE : ∀ {α : Type} {G : ι → Grammar α}, P 1 G → P 0 fun i => Grammar.untilE (G i)
  whileP : ∀ {α : Type} {G : ι → Grammar α}, P 1 G → P 0 fun i => Grammar.whileP (G i)
  backReference : ∀ {α : Type} {G : ι → Grammar α}, P 1 G →
    P 0 fun i => Grammar.backReference (G i)

namespace Level

variable {ι : Type} {S : ∀ {α : Type}, (α → Nat) → Scan α → Prop}
  {P : ∀ {α : Type}, Nat → (ι → Grammar α) → Prop}

/-- The paths and the types of some levels have a property. -/
structure Satisfies (P : ∀ {α : Type}, Nat → (ι → Grammar α) → Prop) (levels : ι → Level) :
    Prop where
  path : ∀ inValue, P 1 fun i => (levels i).path inValue
  type : P 1 fun i => (levels i).type

namespace Satisfies

variable {levels : ι → Level} (hP : Grammar.Closed S P) (h : Satisfies P levels)

include hP h

theorem genericArg : P 1 fun i => (levels i).genericArg := by
  refine hP.bind (hP.scan (hP.lexical.tryEat 'L' (by decide))) fun isLifetime => ?_
  cases isLifetime with
  | true => exact hP.bind (hP.scan hP.lexical.base62) fun _ => hP.pure _
  | false =>
    refine hP.bind (hP.scan (hP.lexical.tryEat 'K' (by decide))) fun isConst => ?_
    cases isConst with
    | true => exact hP.bind (hP.scan hP.const) fun _ => hP.pure _
    | false => exact hP.bind h.type fun _ => hP.pure _

theorem binding : P 1 fun i => (levels i).binding := by
  refine hP.bind (hP.scan hP.lexical.rawIdentifier) fun name => ?_
  exact hP.bind h.type fun _ => hP.pure _

theorem bound : P 1 fun i => (levels i).bound := by
  refine hP.bind (h.path false) fun trait => ?_
  exact hP.bind (hP.whileP (h.binding hP)) fun _ => hP.pure _

theorem pathProduction (inValue : Bool) : P 1 fun i => (levels i).pathProduction inValue := by
  refine hP.bind (hP.scan hP.lexical.next) fun tag => ?_
  split
  · exact hP.bind (hP.scan hP.lexical.identifier) fun _ => hP.pure _
  · refine hP.bind (hP.scan hP.lexical.next) fun space => ?_
    split
    · refine hP.bind (h.path inValue) fun parent => ?_
      exact hP.bind (hP.scan (hP.itemName space)) fun _ => hP.pure _
    · exact hP.invalid _
  · refine hP.bind (hP.scan hP.lexical.disambiguator) fun d => ?_
    refine hP.bind (h.path false) fun location => ?_
    exact hP.bind h.type fun _ => hP.pure _
  · refine hP.bind (hP.scan hP.lexical.disambiguator) fun d => ?_
    refine hP.bind (h.path false) fun location => ?_
    refine hP.bind h.type fun self => ?_
    exact hP.bind (h.path false) fun _ => hP.pure _
  · refine hP.bind h.type fun self => ?_
    exact hP.bind (h.path false) fun _ => hP.pure _
  · refine hP.bind (h.path inValue) fun base => ?_
    exact hP.bind (hP.untilE (h.genericArg hP)) fun _ => hP.pure _
  · exact hP.backReference (h.path inValue)
  · exact hP.invalid _

theorem reference (mutable : Bool) : P 0 fun i => (levels i).reference mutable := by
  refine hP.bind (hP.scan (hP.lexical.tagged? (by decide))) fun lifetime => ?_
  exact hP.bind h.type fun _ => hP.pure _

theorem function : P 0 fun i => (levels i).function := by
  refine hP.bind (hP.scan (hP.lexical.tagged? (by decide))) fun binder => ?_
  refine hP.bind (hP.scan (hP.lexical.tryEat 'U' (by decide))) fun isUnsafe => ?_
  refine hP.bind (hP.scan hP.lexical.abi?) fun abi => ?_
  refine hP.bind (hP.untilE h.type) fun params => ?_
  exact hP.bind h.type fun _ => hP.pure _

theorem object : P 0 fun i => (levels i).object := by
  refine hP.bind (hP.scan (hP.lexical.tagged? (by decide))) fun binder => ?_
  refine hP.bind (hP.untilE (h.bound hP)) fun bounds => ?_
  refine hP.bind (hP.scan (hP.lexical.expect (by decide))) fun _ => ?_
  exact hP.bind (hP.scan hP.lexical.base62) fun _ => hP.pure _

theorem compoundType (tag : Char) : P 0 fun i => (levels i).compoundType tag := by
  unfold Level.compoundType
  split
  · refine hP.bind h.type fun element => ?_
    exact hP.bind (hP.scan hP.const) fun _ => hP.pure _
  · exact hP.bind h.type fun _ => hP.pure _
  · exact hP.bind (hP.untilE h.type) fun _ => hP.pure _
  · exact h.reference hP false
  · exact h.reference hP true
  · exact hP.bind h.type fun _ => hP.pure _
  · exact hP.bind h.type fun _ => hP.pure _
  · exact h.function hP
  · exact h.object hP
  · exact hP.backReference h.type
  · exact hP.invalid _

theorem typeProduction : P 1 fun i => (levels i).typeProduction := by
  refine hP.look fun c => ?_
  split
  · exact hP.bind (h.path false) fun _ => hP.pure _
  · refine hP.bind (hP.scan hP.lexical.next) fun _ => ?_
    split
    · exact hP.pure _
    · exact h.compoundType hP c

/-- The productions over levels with a property have it too. -/
theorem productions : Satisfies P fun i => (levels i).productions :=
  ⟨h.pathProduction hP, h.typeProduction hP⟩

end Satisfies

/-- Levels that remember have a property if remembering in either part of the memory keeps it. -/
theorem Satisfies.remembering {levels : ι → Level}
    (hpath : ∀ inValue, P 1 fun i => (MemoPart.paths inValue).remembered ((levels i).path inValue))
    (htype : P 1 fun i => MemoPart.types.remembered (levels i).type) :
    Satisfies P fun i => (levels i).remembering := by
  constructor
  · simpa only [remembering_path] using hpath
  · simpa only [remembering_type] using htype

/-- Refusing everything has every such property. -/
theorem satisfies_refusing (hP : Grammar.Closed S P) : Satisfies P fun _ => refusing :=
  ⟨fun _ => hP.invalid 1, hP.invalid 1⟩

end Level

end CrateLedger.Mangled.V0
