import CrateLedger.Mangled.V0.Grammar

/-!
# Remembering

Paths in values, paths elsewhere and types are remembered alike, each in a part of the memory of
their own. A part is given by what it has for a position and by how more is kept in it. A grammar
that remembers in some part does one of two things: it gives what the part has, or it reads and
keeps what it has read. What a property has to do with remembering is then shown once, for any part.
-/

namespace CrateLedger.Mangled.V0

variable {α : Type}

/-- A part of the memory for things of one kind. -/
structure MemoPart (α : Type) where
  /-- What it has for a position, with the position after it. -/
  kept : Memo → Nat → Option (α × Nat)
  /-- Keeps more, at a position. -/
  keep : Memo → Nat → α × Nat → Memo

namespace MemoPart

/-- The parts for paths. -/
def paths (inValue : Bool) : MemoPart TracedPath where
  kept memo p := memo.paths[(p, inValue)]?
  keep memo p read := { memo with paths := memo.paths.insert (p, inValue) read }

/-- The part for types. -/
def types : MemoPart TracedType where
  kept memo p := memo.types[p]?
  keep memo p read := { memo with types := memo.types.insert p read }

/-- Keeps what has been read from a position up to the present one. -/
def store (part : MemoPart α) (p : Nat) (a : α) (s : Cursor) : Cursor :=
  { s with memo := part.keep s.memo p (a, s.position) }

/-- Reads what the part does not have, and then keeps it. -/
def remembered (part : MemoPart α) (g : Grammar α) : Grammar α := fun input s =>
  match part.kept s.memo s.position with
  | some (a, q) => .ok (a, { s with position := q })
  | none =>
    match g input s with
    | .error e => .error e
    | .ok (a, after) => .ok (a, part.store s.position a after)

variable {part : MemoPart α} {g : Grammar α} {input : Array Char} {s s' : Cursor} {a : α}

theorem remembered_of_kept {q : Nat} (h : part.kept s.memo s.position = some (a, q)) :
    part.remembered g input s = .ok (a, { s with position := q }) := by
  rw [remembered, h]

theorem remembered_of_read (h : part.kept s.memo s.position = none)
    (hread : g input s = .ok (a, s')) :
    part.remembered g input s = .ok (a, part.store s.position a s') := by
  rw [remembered, h]
  simp only [hread]

theorem remembered_of_error {e : Failure} (h : part.kept s.memo s.position = none)
    (herror : g input s = .error e) : part.remembered g input s = .error e := by
  rw [remembered, h]
  simp only [herror]

/-- What is read by a grammar that remembers is what was kept or what has been read. -/
theorem remembered_eq_ok (h : part.remembered g input s = .ok (a, s')) :
    (∃ q, part.kept s.memo s.position = some (a, q) ∧ s' = { s with position := q }) ∨
      part.kept s.memo s.position = none ∧
        ∃ after, g input s = .ok (a, after) ∧ s' = part.store s.position a after := by
  unfold remembered at h
  split at h
  · rename_i q hkept
    cases h
    exact .inl ⟨q, hkept, rfl⟩
  · rename_i hnone
    split at h
    · cases h
    · rename_i after hread
      cases h
      exact .inr ⟨hnone, after, hread, rfl⟩

/-- Only reading can fail. -/
theorem remembered_eq_error {e : Failure} (h : part.remembered g input s = .error e) :
    g input s = .error e := by
  cases hkept : part.kept s.memo s.position with
  | some read =>
    rw [remembered_of_kept hkept] at h
    cases h
  | none =>
    cases hread : g input s with
    | ok result =>
      rw [remembered_of_read hkept hread] at h
      cases h
    | error e' =>
      rw [remembered_of_error hkept hread] at h
      exact h

theorem remembered_congr {g' : Grammar α} (h : g input s = g' input s) :
    part.remembered g input s = part.remembered g' input s := by
  rw [remembered, remembered, h]

end MemoPart

namespace Level

theorem remembering_path (level : Level) (inValue : Bool) :
    level.remembering.path inValue
      = (MemoPart.paths inValue).remembered (level.path inValue) := by
  funext input s
  show level.rememberedPath inValue input s = _
  rw [rememberedPath, MemoPart.remembered]
  dsimp only [MemoPart.paths]
  cases s.memo.paths[(s.position, inValue)]? with
  | some read => rfl
  | none => cases level.path inValue input s <;> rfl

theorem remembering_type (level : Level) :
    level.remembering.type = MemoPart.types.remembered level.type := by
  funext input s
  show level.rememberedType input s = _
  rw [rememberedType, MemoPart.remembered]
  dsimp only [MemoPart.types]
  cases s.memo.types[s.position]? with
  | some read => rfl
  | none => cases level.type input s <;> rfl

end Level

end CrateLedger.Mangled.V0
