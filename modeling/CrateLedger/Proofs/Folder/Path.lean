import CrateLedger.Folder.Path
import CrateLedger.Proofs.Text

/-!
# Normal forms of paths

A path in normal form is its root and its components with a slash between neighbours. As no
component has a slash, is empty or is a dot, a normal form has the root and the components that it
is made of; so it is its own normal form.
-/

namespace CrateLedger

namespace Text

variable {separator : CodePoint}

theorem splitAll_separator (separator : CodePoint) (t : Text) :
    splitAll separator (separator :: t) = [] :: splitAll separator t := if_pos rfl

theorem splitAll_cons_of_ne {c : CodePoint} {t piece : Text} {pieces : List Text}
    (hc : c ≠ separator) (h : splitAll separator t = piece :: pieces) :
    splitAll separator (c :: t) = (c :: piece) :: pieces := by
  unfold splitAll at h ⊢
  rw [List.foldr_cons, if_neg hc, h]

/-- A text has a first piece. -/
theorem exists_splitAll_eq_cons (separator : CodePoint) (t : Text) :
    ∃ piece pieces, splitAll separator t = piece :: pieces := by
  induction t with
  | nil => exact ⟨[], [], rfl⟩
  | cons c t ih =>
    obtain ⟨piece, pieces, hpieces⟩ := ih
    by_cases hc : c = separator
    · subst hc
      exact ⟨[], _, splitAll_separator c t⟩
    · exact ⟨c :: piece, pieces, splitAll_cons_of_ne hc hpieces⟩

/-- What stands in front of the first separator belongs to the first piece. -/
theorem splitAll_append {part t piece : Text} {pieces : List Text} (hpart : separator ∉ part)
    (h : splitAll separator t = piece :: pieces) :
    splitAll separator (part ++ t) = (part ++ piece) :: pieces := by
  induction part with
  | nil => exact h
  | cons c part ih =>
    rw [List.mem_cons, not_or] at hpart
    exact splitAll_cons_of_ne (Ne.symm hpart.1) (ih hpart.2)

/-- No piece holds a separator. -/
theorem separator_notMem_of_mem_splitAll {t piece : Text} (h : piece ∈ splitAll separator t) :
    separator ∉ piece := by
  induction t generalizing piece with
  | nil =>
    rw [List.mem_singleton.1 h]
    exact List.not_mem_nil
  | cons c t ih =>
    by_cases hc : c = separator
    · subst hc
      rw [splitAll_separator] at h
      rcases List.mem_cons.1 h with rfl | h
      · exact List.not_mem_nil
      · exact ih h
    · obtain ⟨first, pieces, hpieces⟩ := exists_splitAll_eq_cons separator t
      rw [splitAll_cons_of_ne hc hpieces] at h
      rw [hpieces] at ih
      rcases List.mem_cons.1 h with rfl | h
      · rw [List.mem_cons, not_or]
        exact ⟨Ne.symm hc, ih List.mem_cons_self⟩
      · exact ih (List.mem_cons_of_mem _ h)

/-- Pieces that are joined are split again. -/
theorem splitAll_join {parts : List Text} (hparts : parts ≠ [])
    (h : ∀ part ∈ parts, separator ∉ part) :
    splitAll separator (join [separator] parts) = parts := by
  induction parts with
  | nil => exact absurd rfl hparts
  | cons part parts ih =>
    obtain ⟨hpart, hrest⟩ := List.forall_mem_cons.1 h
    by_cases hlast : parts = []
    · subst hlast
      have hempty : splitAll separator [] = [[]] := rfl
      have hsplit := splitAll_append hpart hempty
      rw [List.append_nil] at hsplit
      rw [join_singleton, hsplit]
    · have hsplit := splitAll_append hpart
        (splitAll_separator separator (join [separator] parts))
      rw [join_cons_of_ne_nil _ _ hlast, List.append_assoc, List.singleton_append, hsplit,
        ih hlast hrest, List.append_nil]

end Text

namespace Path

/-- What a component of a path is. -/
structure IsComponent (part : Text) : Prop where
  ne_nil : part ≠ []
  ne_dot : part ≠ "."
  slash : CodePoint.ofChar '/' ∉ part

theorem isComponent_of_mem {t part : Text} (h : part ∈ components t) : IsComponent part := by
  obtain ⟨hpiece, hkept⟩ := List.mem_filter.1 h
  rw [decide_eq_true_iff] at hkept
  exact ⟨hkept.1, hkept.2, Text.separator_notMem_of_mem_splitAll hpiece⟩

theorem components_slash (t : Text) : components (CodePoint.ofChar '/' :: t) = components t := by
  unfold components
  rw [Text.splitAll_separator, List.filter_cons_of_neg (by simp)]

theorem components_join {parts : List Text} (h : ∀ part ∈ parts, IsComponent part) :
    components (Text.join "/" parts) = parts := by
  by_cases hparts : parts = []
  · subst hparts
    rfl
  · have hsplit : Text.splitAll (CodePoint.ofChar '/') (Text.join "/" parts) = parts :=
      Text.splitAll_join hparts fun part hpart => (h part hpart).slash
    unfold components
    rw [hsplit, List.filter_eq_self]
    intro part hpart
    rw [decide_eq_true_iff]
    exact ⟨(h part hpart).ne_nil, (h part hpart).ne_dot⟩

/-- The roots that there are. -/
theorem root_cases (t : Text) : root t = [] ∨ root t = "/" ∨ root t = "//" := by
  unfold root
  split
  · exact .inl rfl
  · exact .inr (.inr rfl)
  · exact .inr (.inl rfl)

/-- Components do not start with a slash. -/
theorem takeWhile_join {parts : List Text} (h : ∀ part ∈ parts, IsComponent part) :
    (Text.join "/" parts).takeWhile (fun c => c = CodePoint.ofChar '/') = [] := by
  cases parts with
  | nil => rfl
  | cons part parts =>
    have hpart := h part List.mem_cons_self
    obtain ⟨c, part, rfl⟩ := List.exists_cons_of_ne_nil hpart.ne_nil
    have hc : c ≠ CodePoint.ofChar '/' := by
      rintro rfl
      exact hpart.slash List.mem_cons_self
    have hhead : ∃ more, Text.join "/" ((c :: part) :: parts) = c :: more := by
      by_cases hlast : parts = []
      · subst hlast
        exact ⟨part, Text.join_singleton _ _⟩
      · rw [Text.join_cons_of_ne_nil _ _ hlast]
        exact ⟨_, rfl⟩
    obtain ⟨more, hmore⟩ := hhead
    rw [hmore, List.takeWhile_cons_of_neg (by simpa using hc)]

/-- A root in front of components stays what it is, and so do they. -/
theorem root_append {r : Text} (hr : r = [] ∨ r = "/" ∨ r = "//") {parts : List Text}
    (h : ∀ part ∈ parts, IsComponent part) :
    root (r ++ Text.join "/" parts) = r ∧ components (r ++ Text.join "/" parts) = parts := by
  have hnone := takeWhile_join h
  rcases hr with rfl | rfl | rfl
  · refine ⟨?_, components_join h⟩
    rw [List.nil_append, root, hnone]
    rfl
  · constructor
    · show root (CodePoint.ofChar '/' :: Text.join "/" parts) = "/"
      rw [root, List.takeWhile_cons_of_pos (by simp), hnone]
      rfl
    · exact (components_slash _).trans (components_join h)
  · constructor
    · show root (CodePoint.ofChar '/' :: CodePoint.ofChar '/' :: Text.join "/" parts) = "//"
      rw [root, List.takeWhile_cons_of_pos (by simp), List.takeWhile_cons_of_pos (by simp), hnone]
      rfl
    · exact (components_slash _).trans ((components_slash _).trans (components_join h))

/-- **A normal form is its own normal form.** -/
theorem normalise_normalise (t : Text) : normalise (normalise t) = normalise t := by
  have hparts : ∀ part ∈ components t, IsComponent part := fun _ => isComponent_of_mem
  obtain ⟨hroot, hcomponents⟩ := root_append (root_cases t) hparts
  by_cases hempty : (root t ++ Text.join "/" (components t)).isEmpty = true
  · have hdot : normalise t = "." := if_pos hempty
    rw [hdot]
    rfl
  · have hbody : normalise t = root t ++ Text.join "/" (components t) := if_neg hempty
    rw [hbody, normalise, hroot, hcomponents]
    exact if_neg hempty

end Path

end CrateLedger
