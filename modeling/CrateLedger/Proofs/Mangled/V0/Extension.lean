import CrateLedger.Proofs.Mangled.V0.Numbers
import CrateLedger.Proofs.Mangled.V0.Productions
import CrateLedger.Proofs.Mangled.V0.Scan

/-!
# Reading does not look for the end

What is read up to the end of a text is read in the same way where a dot or a dollar sign follows
instead of the end. No reader looks for these characters, and none goes on because of them. As for
what is remembered, both texts are read with the same memory.

Main statement: a symbol is read in the same way in front of a suffix.
-/

namespace CrateLedger.Mangled.V0

variable {σ α β : Type} {input suffix : Array Char}

/-- Whatever is read from a state of some kind is read in front of a suffix too, and leads to such a
state again. -/
def Extends (sound : σ → Prop) (input suffix : Array Char) (r : Reader σ α) : Prop :=
  ∀ s a s', sound s → r input s = .ok (a, s') → sound s' ∧ r (input ++ suffix) s = .ok (a, s')

namespace Extends

variable {sound : σ → Prop}

theorem pure (a : α) : Extends sound input suffix (Pure.pure a) := by
  intro s b s' hs h
  cases h
  exact ⟨hs, rfl⟩

theorem fail (e : Failure) : Extends sound input suffix (fun _ _ => .error e : Reader σ α) := by
  intro s a s' _ h
  cases h

theorem bind {r : Reader σ α} {f : α → Reader σ β} (hr : Extends sound input suffix r)
    (hf : ∀ a, Extends sound input suffix (f a)) : Extends sound input suffix (r >>= f) := by
  intro s b s' hs h
  obtain ⟨a, between, hread, hrest⟩ := Reader.bind_eq_ok h
  obtain ⟨hbetween, hread'⟩ := hr s a between hs hread
  obtain ⟨hs', hrest'⟩ := hf a between b s' hbetween hrest
  exact ⟨hs', (Reader.bind_ok hread').trans hrest'⟩

end Extends

/-! ## The lexical level -/

/-- A text that, if it does not end at once, starts like a suffix. -/
def StartsAsSuffix (suffix : Array Char) : Prop := ∀ c ∈ suffix[0]?, c = '.' ∨ c = '$'

namespace Scan

variable {p : Nat}

theorem getElem?_append_of_lt (h : p < input.size) : (input ++ suffix)[p]? = input[p]? :=
  Array.getElem?_append_left h

theorem getElem?_append_size : (input ++ suffix)[input.size]? = suffix[0]? := by
  rw [Array.getElem?_append_right (Nat.le_refl _), Nat.sub_self]

/-- A character that is there is still there. -/
theorem getElem?_append_of_eq_some {c : Char} (h : input[p]? = some c) :
    (input ++ suffix)[p]? = some c := by
  rw [getElem?_append_of_lt (lt_size_of_eq_some h), h]

/-- A character that starts no suffix is found where it was and nowhere else. -/
theorem getElem?_append_eq_some_iff (hsuffix : StartsAsSuffix suffix) (hp : p ≤ input.size)
    {c : Char} (hc : c ≠ '.' ∧ c ≠ '$') :
    (input ++ suffix)[p]? = some c ↔ input[p]? = some c := by
  rcases Nat.lt_or_eq_of_le hp with hlt | rfl
  · rw [getElem?_append_of_lt hlt]
  · rw [getElem?_append_size, Array.getElem?_size]
    constructor
    · intro hstart
      rcases hsuffix c hstart with hdot | hdollar
      · exact absurd hdot hc.1
      · exact absurd hdollar hc.2
    · nofun

/-- A run of a class that no suffix starts with does not go on into one. -/
theorem runAt_append (hsuffix : StartsAsSuffix suffix) {belongs : Char → Bool}
    (hbelongs : belongs '.' = false ∧ belongs '$' = false) (hp : p ≤ input.size) :
    runAt belongs (input ++ suffix) p = runAt belongs input p ∧
      p + (runAt belongs input p).length ≤ input.size := by
  fun_induction runAt belongs input p with
  | case1 p hlt hc ih =>
    obtain ⟨hrest, hsize⟩ := ih hlt
    have hmore : p < (input ++ suffix).size := by
      rw [Array.size_append]
      omega
    rw [runAt, dif_pos hmore, Array.getElem_append_left hlt, if_pos hc, hrest]
    refine ⟨rfl, ?_⟩
    rw [List.length_cons]
    omega
  | case2 p hlt hc =>
    have hmore : p < (input ++ suffix).size := by
      rw [Array.size_append]
      omega
    rw [runAt, dif_pos hmore, Array.getElem_append_left hlt, if_neg hc]
    exact ⟨rfl, hp⟩
  | case3 p hend =>
    refine ⟨?_, hp⟩
    obtain rfl : p = input.size := by omega
    rw [runAt]
    split
    · rename_i hmore
      have hstart : suffix[0]? = some (input ++ suffix)[input.size] := by
        rw [← getElem?_append_size, Array.getElem?_eq_getElem hmore]
      rcases hsuffix _ hstart with hc | hc
      · rw [hc, hbelongs.1, if_neg Bool.false_ne_true]
      · rw [hc, hbelongs.2, if_neg Bool.false_ne_true]
    · rfl

/-- Reading that starts within the text. -/
abbrev ExtendsWithin (input suffix : Array Char) (r : Scan α) : Prop :=
  Extends (fun p => p ≤ input.size) input suffix r

/-- All tokens are read alike in front of a suffix: none looks for the characters that start one. -/
theorem closed_extends (hsuffix : StartsAsSuffix suffix) :
    Closed fun {_} _ r => ExtendsWithin input suffix r where
  pure := Extends.pure
  invalid _ := Extends.fail _
  bind := Extends.bind
  mono _ h := h
  next p c q hp h := by
    unfold Scan.next at h
    split at h
    · rename_i hc
      cases h
      refine ⟨lt_size_of_eq_some hc, ?_⟩
      rw [Scan.next, getElem?_append_of_eq_some hc]
    · cases h
  eat c hc p found q hp h := by
    have hfound := @getElem?_append_eq_some_iff input _ p hsuffix hp c hc
    unfold Scan.eat at h ⊢
    split at h
    · rename_i hthere
      cases h
      rw [if_pos (hfound.2 hthere)]
      exact ⟨lt_size_of_eq_some hthere, rfl⟩
    · rename_i hnot
      cases h
      rw [if_neg (mt hfound.1 hnot)]
      exact ⟨hp, rfl⟩
  take n p cs q hp h := by
    unfold Scan.take at h ⊢
    split at h
    · rename_i hfits
      cases h
      have hmore : p + n ≤ (input ++ suffix).size := by
        rw [Array.size_append]
        omega
      refine ⟨hfits, ?_⟩
      rw [if_pos hmore, Array.extract_append, Nat.sub_eq_zero_of_le hfits]
      simp
    · cases h
  takeWhile belongs hbelongs p cs q hp h := by
    obtain ⟨hrun, hsize⟩ := runAt_append hsuffix hbelongs hp
    cases h
    refine ⟨hsize, ?_⟩
    rw [Scan.takeWhile, hrun]

/-- Constants are read alike in front of a suffix, also where they refer to others. -/
theorem extends_const (hsuffix : StartsAsSuffix suffix) : ExtendsWithin input suffix const := by
  intro p a q hp h
  have hlexical := @closed_extends input _ hsuffix
  fun_induction const input p generalizing a q with
  | case1 p hc =>
    cases h
    refine ⟨lt_size_of_eq_some hc, ?_⟩
    rw [const, getElem?_append_of_eq_some hc]
    rfl
  | case2 p hB target after htarget hlt value _ hvalue ih =>
    cases h
    have hlt' := lt_size_of_eq_some hB
    obtain ⟨hafter, hnumber⟩ := hlexical.base62 (p + 1) target after hlt' htarget
    obtain ⟨-, hvalue'⟩ := ih _ _ (by omega) hvalue
    refine ⟨hafter, ?_⟩
    rw [const_of_back (getElem?_append_of_eq_some hB) hnumber, if_pos hlt, hvalue']
    rfl
  | case3 => cases h
  | case4 => cases h
  | case5 => cases h
  | case6 p hnotp hnotB =>
    obtain ⟨hq, hread⟩ := hlexical.literal (fun _ => Extends.fail _) p a q hp h
    refine ⟨hq, ?_⟩
    rw [const_of_ne (mt (getElem?_append_eq_some_iff hsuffix hp (by decide)).1 hnotp)
      (mt (getElem?_append_eq_some_iff hsuffix hp (by decide)).1 hnotB), hread]

end Scan

/-! ## Productions -/

/-- The position lies within the text, and so does whatever is remembered. -/
structure Cursor.Within (input : Array Char) (s : Cursor) : Prop where
  position : s.position ≤ input.size
  paths : ∀ (key : Nat × Bool) (a : TracedPath) (q : Nat), s.memo.paths[key]? = some (a, q) →
    q ≤ input.size
  types : ∀ (key : Nat) (a : TracedType) (q : Nat), s.memo.types[key]? = some (a, q) →
    q ≤ input.size

theorem Cursor.within_start : Cursor.Within input ⟨0, {}⟩ := by
  constructor <;> simp

/-- Going to another position within the text. -/
theorem Cursor.Within.goto {s : Cursor} (h : s.Within input) {p : Nat} (hp : p ≤ input.size) :
    Cursor.Within input { s with position := p } :=
  ⟨hp, h.paths, h.types⟩

theorem Cursor.Within.storePath {s : Cursor} (h : s.Within input) {inValue : Bool} {p : Nat}
    {path : TracedPath} : Cursor.Within input ((MemoPart.paths inValue).store p path s) := by
  refine ⟨h.position, fun key a q hget => ?_, h.types⟩
  simp only [MemoPart.store, MemoPart.paths, Std.HashMap.getElem?_insert] at hget
  split at hget
  · cases hget
    exact h.position
  · exact h.paths key a q hget

theorem Cursor.Within.storeType {s : Cursor} (h : s.Within input) {p : Nat} {type : TracedType} :
    Cursor.Within input (MemoPart.types.store p type s) := by
  refine ⟨h.position, h.paths, fun key a q hget => ?_⟩
  simp only [MemoPart.store, MemoPart.types, Std.HashMap.getElem?_insert] at hget
  split at hget
  · cases hget
    exact h.position
  · exact h.types key a q hget

namespace Grammar

/-- Reading that starts within the text, with a memory of what lies within it. -/
abbrev ExtendsWithin (input suffix : Array Char) (g : Grammar α) : Prop :=
  Extends (Cursor.Within input) input suffix g

theorem extends_scan {r : Scan α} (h : Scan.ExtendsWithin input suffix r) :
    ExtendsWithin input suffix (scan r) := by
  intro s a s' hs hread
  obtain ⟨q, hlexical, rfl⟩ := scan_eq_ok hread
  obtain ⟨hq, hread'⟩ := h s.position a q hs.position hlexical
  exact ⟨hs.goto hq, scan_ok hread'⟩

/-- More attempts than those that are needed make no difference. -/
theorem manyWithin_extends {isEnd : Scan Bool} {item : Grammar α}
    (hend : Scan.ExtendsWithin input suffix isEnd) (hitem : ExtendsWithin input suffix item)
    {attempts attempts' : Nat} (hle : attempts ≤ attempts') {s s' : Cursor} {as : List α}
    (hs : s.Within input) (h : manyWithin isEnd item attempts input s = .ok (as, s')) :
    s'.Within input ∧ manyWithin isEnd item attempts' (input ++ suffix) s = .ok (as, s') := by
  induction attempts generalizing attempts' s as with
  | zero => cases h
  | succ k ih =>
    obtain ⟨k', rfl⟩ : ∃ j, attempts' = j + 1 := ⟨attempts' - 1, by omega⟩
    obtain ⟨atEnd, s₁, hread, h⟩ := Reader.bind_eq_ok h
    obtain ⟨hs₁, hread'⟩ := extends_scan hend s atEnd s₁ hs hread
    cases atEnd with
    | true =>
      cases h
      exact ⟨hs₁, Reader.bind_ok hread'⟩
    | false =>
      obtain ⟨a, s₂, hfirst, h⟩ := Reader.bind_eq_ok h
      obtain ⟨bs, s₃, hrest, h⟩ := Reader.bind_eq_ok h
      cases h
      obtain ⟨hs₂, hfirst'⟩ := hitem s₁ a s₂ hs₁ hfirst
      obtain ⟨hs₃, hrest'⟩ := ih (Nat.le_of_succ_le_succ hle) hs₂ hrest
      refine ⟨hs₃, (Reader.bind_ok hread').trans ?_⟩
      exact (Reader.bind_ok hfirst').trans (Reader.bind_ok hrest')

theorem extends_many {isEnd : Scan Bool} {item : Grammar α}
    (hend : Scan.ExtendsWithin input suffix isEnd) (hitem : ExtendsWithin input suffix item) :
    ExtendsWithin input suffix (many isEnd item) := by
  intro s as s' hs h
  refine manyWithin_extends hend hitem ?_ hs h
  rw [Array.size_append]
  omega

/-- What is remembered ends within the text, and is remembered in front of a suffix as well. -/
theorem extends_remembered {part : MemoPart α} {g : Grammar α}
    (hkept : ∀ {s : Cursor} {a q}, s.Within input → part.kept s.memo s.position = some (a, q) →
      q ≤ input.size)
    (hstore : ∀ {s : Cursor} {p a}, s.Within input → Cursor.Within input (part.store p a s))
    (h : ExtendsWithin input suffix g) : ExtendsWithin input suffix (part.remembered g) := by
  intro s a s' hs hread
  rcases MemoPart.remembered_eq_ok hread with ⟨q, hq, rfl⟩ | ⟨hnone, after, hfirst, rfl⟩
  · exact ⟨hs.goto (hkept hs hq), MemoPart.remembered_of_kept hq⟩
  · obtain ⟨hafter, hfirst'⟩ := h s a after hs hfirst
    exact ⟨hstore hafter, MemoPart.remembered_of_read hnone hfirst'⟩

/-- The productions keep reading alike in front of a suffix. A single level is a family of one. -/
theorem closed_extends (hsuffix : StartsAsSuffix suffix) :
    Closed (fun {_} _ r => Scan.ExtendsWithin input suffix r)
      fun {_} _ (G : Unit → Grammar _) => ExtendsWithin input suffix (G ()) where
  lexical := Scan.closed_extends hsuffix
  const := Scan.extends_const hsuffix
  itemName := (Scan.closed_extends hsuffix).itemName fun _ => Extends.fail _
  scan h := extends_scan h
  pure a := Extends.pure a
  invalid _ := Extends.fail _
  bind hG hF := Extends.bind hG hF
  look {α n F} hF := by
    intro s a s' hs h
    obtain ⟨next, s₁, hscan, h⟩ := Reader.bind_eq_ok h
    obtain ⟨q, hpeek, rfl⟩ := scan_eq_ok hscan
    obtain ⟨hnext, rfl⟩ := Scan.peek_eq_ok hpeek
    cases next with
    | none => cases h
    | some c =>
      obtain ⟨hs', hread⟩ := hF c s a s' hs h
      have hpeek' : Scan.peek (input ++ suffix) s.position = .ok (some c, s.position) := by
        rw [Scan.peek, Scan.getElem?_append_of_eq_some hnext]
      exact ⟨hs', (Reader.bind_ok (scan_ok hpeek')).trans hread⟩
  untilE h := extends_many
    ((Scan.closed_extends hsuffix).eat _ (by decide)) h
  whileP h := extends_many ((Scan.closed_extends hsuffix).notEat (by decide)) h
  backReference {α G} h := by
    intro s a s' hs hread
    obtain ⟨target, after, between, hnumber, hlt, htarget, rfl⟩ := backReference_eq_ok hread
    obtain ⟨hafter, hnumber'⟩ :=
      (Scan.closed_extends hsuffix).base62 s.position target after hs.position hnumber
    have hbefore : target ≤ input.size := by
      have := hs.position
      omega
    obtain ⟨hbetween, htarget'⟩ := h _ a between (hs.goto hbefore) htarget
    exact ⟨hbetween.goto hafter, backReference_ok hnumber' hlt htarget'⟩

end Grammar

namespace Level

/-- The paths and types of a level are read alike in front of a suffix. -/
abbrev ExtendsWithin (input suffix : Array Char) (level : Level) : Prop :=
  Satisfies (fun {_} _ (G : Unit → Grammar _) => Grammar.ExtendsWithin input suffix (G ()))
    fun _ => level

theorem ExtendsWithin.remembering {level : Level} (h : ExtendsWithin input suffix level) :
    ExtendsWithin input suffix level.remembering :=
  Satisfies.remembering
    (fun inValue => Grammar.extends_remembered (fun hs hq => hs.paths _ _ _ hq)
      (fun hs => hs.storePath) (h.path inValue))
    (Grammar.extends_remembered (fun hs hq => hs.types _ _ _ hq) (fun hs => hs.storeType) h.type)

theorem extendsWithin_memoised (hsuffix : StartsAsSuffix suffix) (n : Nat) :
    ExtendsWithin input suffix (memoised n) := by
  have hclosed := @Grammar.closed_extends input _ hsuffix
  induction n with
  | zero => exact ExtendsWithin.remembering (satisfies_refusing hclosed)
  | succ n ih => exact ExtendsWithin.remembering (ih.productions hclosed)

end Level

/-! ## Symbols -/

/-- Behind the path of a symbol a suffix is taken for what the end would be: it does not start like
the path of a crate. -/
theorem symbol_extends (hsuffix : StartsAsSuffix suffix) {level : Level}
    (h : level.ExtendsWithin input suffix) :
    Grammar.ExtendsWithin input suffix (symbol level) := by
  intro s a s' hs hread
  obtain ⟨path, s₁, hpath, hread⟩ := Reader.bind_eq_ok hread
  obtain ⟨hs₁, hpath'⟩ := h.path true s path s₁ hs hpath
  obtain ⟨next, s₂, hscan, hread⟩ := Reader.bind_eq_ok hread
  obtain ⟨q, hpeek, rfl⟩ := Grammar.scan_eq_ok hscan
  obtain ⟨hnext, rfl⟩ := Scan.peek_eq_ok hpeek
  cases next with
  | none =>
    cases hread
    have hend : s₁.position = input.size :=
      Nat.le_antisymm hs₁.position (Array.getElem?_eq_none_iff.1 hnext)
    have hpeek' : Scan.peek (input ++ suffix) s₁.position = .ok (suffix[0]?, s₁.position) := by
      rw [Scan.peek, hend, Scan.getElem?_append_size]
    refine ⟨hs₁, (Reader.bind_ok hpath').trans ((Reader.bind_ok (Grammar.scan_ok hpeek')).trans ?_)⟩
    cases hc : suffix[0]? with
    | none => rfl
    | some c => rcases hsuffix c hc with rfl | rfl <;> rfl
  | some c =>
    have hpeek' : Scan.peek (input ++ suffix) s₁.position = .ok (some c, s₁.position) := by
      rw [Scan.peek, Scan.getElem?_append_of_eq_some hnext]
    have hcrate : Grammar.ExtendsWithin input suffix
        (if c.isUpper then level.path false >>= fun _ => Pure.pure path else Pure.pure path) := by
      split
      · exact (h.path false).bind fun _ => .pure path
      · exact .pure path
    obtain ⟨hs', hrest⟩ := hcrate s₁ a s' hs₁ hread
    exact ⟨hs', (Reader.bind_ok hpath').trans
      ((Reader.bind_ok (Grammar.scan_ok hpeek')).trans hrest)⟩

/-- A symbol is read in the same way in front of a suffix, and ends within the text. -/
theorem readSymbol_append (hsuffix : StartsAsSuffix suffix) {path : TracedPath} {p : Nat}
    (h : readSymbol (Level.memoised maxDepth) input = .ok (path, p)) :
    p ≤ input.size ∧ readSymbol (Level.memoised maxDepth) (input ++ suffix) = .ok (path, p) := by
  have hlevel := @Level.extendsWithin_memoised input _ hsuffix maxDepth
  have hsymbol := symbol_extends hsuffix hlevel
  unfold readSymbol at h ⊢
  split at h
  · rename_i hread
    cases h
    obtain ⟨hend, hread'⟩ := hsymbol _ _ _ Cursor.within_start hread
    rw [hread']
    exact ⟨hend.position, rfl⟩
  · cases h

end CrateLedger.Mangled.V0
