import CrateLedger.Mangled.V0.Grammar

/-!
# Readers one after the other

What readers give when they are put one behind the other, for values and for failures, and what the
two ways to leave the sequence of the text come to: reading at the lexical level, and following a
reference back.
-/

namespace CrateLedger.Mangled.V0

variable {input : Array Char}

namespace Reader

variable {σ α β : Type} {r : Reader σ α} {f : α → Reader σ β} {s s' : σ}

theorem bind_ok {a : α} (h : r input s = .ok (a, s')) : (r >>= f) input s = f a input s' := by
  show bind r f input s = _
  rw [bind, h]

theorem bind_error {e : Failure} (h : r input s = .error e) : (r >>= f) input s = .error e := by
  show bind r f input s = _
  rw [bind, h]

/-- What is read by one reader after another is read by both. -/
theorem bind_eq_ok {b : β} (h : (r >>= f) input s = .ok (b, s')) :
    ∃ a between, r input s = .ok (a, between) ∧ f a input between = .ok (b, s') := by
  change bind r f input s = _ at h
  unfold bind at h
  split at h
  · rename_i a between hfirst
    exact ⟨a, between, hfirst, h⟩
  · cases h

/-- One reader after another fails if either does. -/
theorem bind_eq_error {e : Failure} (h : (r >>= f) input s = .error e) :
    r input s = .error e ∨
      ∃ a between, r input s = .ok (a, between) ∧ f a input between = .error e := by
  change bind r f input s = _ at h
  unfold bind at h
  split at h
  · rename_i a between hfirst
    exact .inr ⟨a, between, hfirst, h⟩
  · rename_i failure hfirst
    cases h
    exact .inl hfirst

/-- Readers behind the same one read alike if they do so wherever it leads. -/
theorem bind_congr {f' : α → Reader σ β}
    (h : ∀ a s', r input s = .ok (a, s') → f a input s' = f' a input s') :
    (r >>= f) input s = (r >>= f') input s := by
  show bind r f input s = bind r f' input s
  unfold bind
  split
  · rename_i a s' hread
    exact h a s' hread
  · rfl

/-- Readers in front of the same one read alike if they do so by themselves. -/
theorem bind_congr_left {r' : Reader σ α} (h : r input s = r' input s) :
    (r >>= f) input s = (r' >>= f) input s := by
  show bind r f input s = bind r' f input s
  rw [bind, bind, h]

end Reader

namespace Grammar

variable {α : Type} {s s' : Cursor} {a : α}

theorem scan_ok {r : Scan α} {q : Nat}
    (h : r input s.position = .ok (a, q)) :
    scan r input s = .ok (a, { s with position := q }) := by
  rw [scan, h]

/-- Reading at the lexical level moves the position and leaves the memory alone. -/
theorem scan_eq_ok {r : Scan α} (h : scan r input s = .ok (a, s')) :
    ∃ q, r input s.position = .ok (a, q) ∧ s' = { s with position := q } := by
  unfold scan at h
  split at h
  · rename_i hread
    cases h
    exact ⟨_, hread, rfl⟩
  · cases h

/-- What following a reference back comes to: its number is read, then what stands at the target,
and reading goes on behind the number. -/
theorem backReference_eq_ok {g : Grammar α} (h : backReference g input s = .ok (a, s')) :
    ∃ target after between, Scan.base62 input s.position = .ok (target, after) ∧
      target + 1 < s.position ∧ g input { s with position := target } = .ok (a, between) ∧
        s' = { between with position := after } := by
  obtain ⟨start, s₁, hposition, h⟩ := Reader.bind_eq_ok h
  cases hposition
  obtain ⟨target, s₂, hscan, h⟩ := Reader.bind_eq_ok h
  obtain ⟨behind, hnumber, rfl⟩ := scan_eq_ok hscan
  split at h
  · rename_i hlt
    obtain ⟨after, s₃, hposition, h⟩ := Reader.bind_eq_ok h
    cases hposition
    obtain ⟨_, s₄, hseek, h⟩ := Reader.bind_eq_ok h
    cases hseek
    obtain ⟨b, between, hread, h⟩ := Reader.bind_eq_ok h
    obtain ⟨_, s₅, hseek, h⟩ := Reader.bind_eq_ok h
    cases hseek
    cases h
    exact ⟨target, behind, between, hnumber, hlt, hread, rfl⟩
  · cases h

/-- A reference back is followed to what stands at its target. -/
theorem backReference_ok {g : Grammar α} {between : Cursor} {target after : Nat}
    (hnumber : Scan.base62 input s.position = .ok (target, after)) (hlt : target + 1 < s.position)
    (hread : g input { s with position := target } = .ok (a, between)) :
    backReference g input s = .ok (a, { between with position := after }) := by
  have hposition : position input s = .ok (s.position, s) := rfl
  refine (Reader.bind_ok hposition).trans ?_
  refine (Reader.bind_ok (scan_ok hnumber)).trans ?_
  rw [if_pos hlt]
  exact Reader.bind_ok hread

end Grammar

end CrateLedger.Mangled.V0
