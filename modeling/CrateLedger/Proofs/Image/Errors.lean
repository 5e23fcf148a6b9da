import CrateLedger.Image.Container
import CrateLedger.Proofs.Image.Table

/-!
# Errors of reading

Reading an image fails for one of a few reasons: it has no format that is known, a structure of its
format is broken, or the wanted section is missing. Every step of reading a PE or a Mach-O image
fails for one of them.
-/

namespace CrateLedger.Image

variable {α β : Type}

/-- An error that says that an image has no format that is known, or a broken structure. -/
inductive ReadError.Refuses : ReadError → Prop where
  | unsupported (reason : Unsupported) : Refuses (.unsupported reason)
  | malformed (format : Format) (fault : Fault) : Refuses (.malformed format fault)

/-- An error that says what is wrong with an image or with the choice of its section. -/
inductive ReadError.Typed : ReadError → Prop where
  | refuses {e : ReadError} (h : e.Refuses) : Typed e
  | sectionMissing (wanted : Value) (available : List Text) : Typed (.sectionMissing wanted available)

theorem within_eq_ok {format : Format} {x : Except Fault α} {a : α} :
    within format x = .ok a ↔ x = .ok a := by
  cases x <;> simp [within]

/-- A step inside a format fails if the format is broken, and else the failure comes later. -/
theorem within_bind_eq_error {format : Format} {x : Except Fault α} {f : α → Except ReadError β}
    {e : ReadError} (h : within format x >>= f = .error e) :
    e.Refuses ∨ ∃ a, x = .ok a ∧ f a = .error e := by
  cases x with
  | error fault =>
    cases h
    exact .inl (.malformed format fault)
  | ok a => exact .inr ⟨a, rfl, h⟩

/-- Going over a walk fails at an item, or behind the items where the walk broke off. -/
theorem Walk.mapM_eq_error {ε : Type} {f : α → Except ε β} {walk : Walk ε α} {e : ε} :
    walk.mapM f = .error e ↔ walk.items.mapM f = .error e ∨
      (∃ bs, walk.items.mapM f = .ok bs) ∧ walk.failure = some e := by
  unfold Walk.mapM
  rw [bind_eq_error]
  cases walk.failure with
  | none => simp [pure, Except.pure]
  | some e' => simp [throw, throwThe, MonadExceptOf.throw, eq_comm]

theorem Coff.typed_of_read_eq_error {data : Bytes} {wanted : Value} {e : ReadError}
    (h : Coff.read data wanted = .error e) : e.Typed := by
  unfold Coff.read at h
  rcases within_bind_eq_error h with hbroken | ⟨headers, -, h⟩
  · exact .refuses hbroken
  split at h
  · cases h
    exact .sectionMissing _ _
  split at h
  · cases h
  rcases within_bind_eq_error h with hbroken | ⟨entries, -, h⟩
  · exact .refuses hbroken
  · cases h

/-- A selector that is a text never fails by itself. -/
theorem MachO.typed_of_read_eq_error {layout : MachO.Layout} {data : Bytes} {wanted : Text}
    {e : ReadError} (h : MachO.read layout data (.text wanted) = .error e) : e.Typed := by
  unfold MachO.read at h
  rcases within_bind_eq_error h with hbroken | ⟨header, -, h⟩
  · exact .refuses hbroken
  split at h
  · cases h
    exact .refuses (.malformed _ _)
  rcases within_bind_eq_error h with hbroken | ⟨sections, -, h⟩
  · exact .refuses hbroken
  rcases within_bind_eq_error h with hbroken | ⟨symbols, -, h⟩
  · exact .refuses hbroken
  rcases bind_eq_error.1 h with hselector | ⟨⟨selector, segment, name⟩, -, h⟩
  · cases hselector
  dsimp only at h
  split at h
  · cases h
    exact .sectionMissing _ _
  split at h
  · cases h
  rcases within_bind_eq_error h with hbroken | ⟨entries, -, h⟩
  · exact .refuses hbroken
  · cases h

/-- Reading an image of a signature that announces PE or Mach-O gives a table or one of the errors
that say what is wrong. -/
theorem typed_of_read_eq_error {source : Source} {signature : Signature} {companion : Option Bytes}
    {wanted : Text} {e : ReadError} (hdetect : detect source.data = .ok signature)
    (hformat : signature.format = .machO ∨ signature.format = .pe)
    (h : read source (.text wanted) companion = .error e) : e.Typed := by
  unfold read at h
  rw [hdetect] at h
  cases signature with
  | machO layout => exact MachO.typed_of_read_eq_error h
  | pe => exact Coff.typed_of_read_eq_error h
  | pdb => simp [Signature.format] at hformat
  | elf => simp [Signature.format] at hformat

end CrateLedger.Image
