import CrateLedger.Proofs.Mangled.V0.Numbers
import CrateLedger.Proofs.Mangled.V0.Depth
import CrateLedger.Proofs.Mangled.V0.Memory

/-!
# Reading goes forward

Whatever is read ends behind the position where it starts, and within the text. That is so of
every production that reads its parts afresh, so by transparency it is so of those that remember.
A back reference reads at an earlier position, but goes on behind its own number.

From this it follows that reading ends by itself. A loop is never stopped by the bound on its
attempts, and a chain of references from constant to constant leads to ever smaller positions or is
refused.

Main statement: how reading progresses, loop by loop and production by production.
-/

namespace CrateLedger.Mangled.V0

variable {σ α β : Type} {input : Array Char}

/-! ## Going forward -/

/-- Reading takes at least some characters, which depend on the value, and stays within the text
if it starts there. -/
def Advances (place : σ → Nat) (input : Array Char) (taken : α → Nat) (r : Reader σ α) : Prop :=
  ∀ s a s', r input s = .ok (a, s') →
    place s + taken a ≤ place s' ∧ place s' ≤ max (place s) input.size

namespace Advances

variable {place : σ → Nat}

theorem pure (a : α) : Advances place input (fun _ => 0) (Pure.pure a) := by
  intro s b s' h
  cases h
  exact ⟨Nat.le_refl _, Nat.le_max_left _ _⟩

theorem fail (taken : α → Nat) (e : Failure) : Advances place input taken fun _ _ => .error e := by
  intro s a s' h
  cases h

theorem bind {r : Reader σ α} {f : α → Reader σ β} {first : α → Nat} {all : β → Nat}
    (hr : Advances place input first r)
    (hf : ∀ a, Advances place input (fun b => all b - first a) (f a)) :
    Advances place input all (r >>= f) := by
  intro s b s' h
  obtain ⟨a, between, hread, hrest⟩ := Reader.bind_eq_ok h
  have hfirst := hr s a between hread
  have hsecond := hf a between b s' hrest
  dsimp only at hsecond
  omega

theorem mono {r : Reader σ α} {less more : α → Nat} (hle : ∀ a, less a ≤ more a)
    (hr : Advances place input more r) : Advances place input less r := by
  intro s a s' h
  have hmore := hr s a s' h
  have := hle a
  omega

end Advances

namespace Scan

theorem length_runAt_le (belongs : Char → Bool) (p : Nat) :
    p + (runAt belongs input p).length ≤ max p input.size := by
  fun_induction runAt belongs input p with
  | case1 p hp hc ih =>
    rw [List.length_cons]
    omega
  | case2 => simp
  | case3 => simp

theorem closed_advances : Closed (Advances (fun p => p) input) where
  pure := Advances.pure
  invalid taken := Advances.fail taken _
  bind := Advances.bind
  mono := Advances.mono
  next p c q h := by
    unfold Scan.next at h
    split at h
    · rename_i hc
      cases h
      have := lt_size_of_eq_some hc
      exact ⟨Nat.le_refl _, by dsimp only; omega⟩
    · cases h
  eat c _ p found q h := by
    unfold Scan.eat at h
    split at h
    · rename_i hc
      cases h
      have := lt_size_of_eq_some hc
      exact ⟨Nat.le_refl _, by dsimp only; omega⟩
    · cases h
      exact ⟨Nat.le_refl _, Nat.le_max_left _ _⟩
  take n p cs q h := by
    unfold Scan.take at h
    split at h
    · cases h
      exact ⟨Nat.le_refl _, by dsimp only; omega⟩
    · cases h
  takeWhile belongs _ p cs q h := by
    cases h
    exact ⟨Nat.le_refl _, length_runAt_le belongs p⟩

/-- Constants take a character at least, also where they refer to others. -/
theorem advances_const : Advances (fun p => p) input (fun _ => 1) const := by
  intro p a q h
  fun_induction const input p with
  | case1 p hp =>
    cases h
    have := lt_size_of_eq_some hp
    exact ⟨Nat.le_refl _, by dsimp only; omega⟩
  | case2 p hp target after htarget =>
    cases h
    have hnumber := closed_advances.base62 (p + 1) target q htarget
    have := lt_size_of_eq_some hp
    dsimp only at hnumber ⊢
    omega
  | case3 => cases h
  | case4 => cases h
  | case5 => cases h
  | case6 p hp hB => exact closed_advances.literal (fun _ => Advances.fail _ _) p a q h

end Scan

/-! ## Productions -/

namespace Grammar

/-- A grammar takes at least so many characters, and stays within the text. -/
abbrev Takes (input : Array Char) (n : Nat) (g : Grammar α) : Prop :=
  Advances Cursor.position input (fun _ => n) g

theorem takes_scan {n : Nat} {r : Scan α} (h : Advances (fun p => p) input (fun _ => n) r) :
    Takes input n (scan r) := by
  intro s a s' hread
  obtain ⟨q, hlexical, rfl⟩ := scan_eq_ok hread
  exact h s.position a q hlexical

theorem takes_many {isEnd : Scan Bool} {item : Grammar α}
    (hend : Advances (fun p => p) input (fun _ => 0) isEnd) (hitem : Takes input 1 item) :
    Takes input 0 (many isEnd item) := by
  have hwithin (n : Nat) : Takes input 0 (manyWithin isEnd item n) := by
    induction n with
    | zero => exact Advances.fail _ _
    | succ n ih =>
      refine (takes_scan hend).bind fun atEnd => ?_
      cases atEnd with
      | true => exact Advances.pure []
      | false => exact Advances.bind hitem fun a => Advances.bind ih fun _ => Advances.pure _
  exact fun s => hwithin (input.size + 1 - s.position) s

theorem takes_backReference (g : Grammar α) : Takes input 1 (backReference g) := by
  intro s a s' h
  obtain ⟨target, after, between, hnumber, -, -, rfl⟩ := backReference_eq_ok h
  exact Scan.closed_advances.base62 s.position target after hnumber

/-- The productions keep going forward. A single level is a family of one. -/
theorem closed_takes :
    Closed (Advances (fun p => p) input) fun n (G : Unit → Grammar _) => Takes input n (G ()) where
  lexical := Scan.closed_advances
  const := Scan.advances_const
  itemName := Scan.closed_advances.itemName fun _ => Advances.fail _ _
  scan h := takes_scan h
  pure a := Advances.pure a
  invalid n := Advances.fail _ _
  bind hG hF := Advances.bind hG hF
  look {α n F} hF := by
    have hpeek : Takes input 0 (scan Scan.peek) :=
      takes_scan fun p next q h => by
        cases h
        exact ⟨Nat.le_refl _, Nat.le_max_left _ _⟩
    refine Advances.bind hpeek fun next => ?_
    cases next with
    | none => exact Advances.fail _ _
    | some c => exact hF c
  untilE h := takes_many (Scan.closed_advances.tryEat _ (by decide)) h
  whileP h := takes_many (Scan.closed_advances.notEat (by decide)) h
  backReference _ := Advances.mono (fun _ => Nat.zero_le 1) (takes_backReference _)

end Grammar

namespace Level

/-- The paths and types of a level take a character at least. -/
abbrev GoesForward (input : Array Char) (level : Level) : Prop :=
  Satisfies (fun n (G : Unit → Grammar _) => Grammar.Takes input n (G ())) fun _ => level

theorem goesForward_plain (n : Nat) : GoesForward input (plain n) := by
  induction n with
  | zero => exact satisfies_refusing Grammar.closed_takes
  | succ n ih => exact ih.productions Grammar.closed_takes

end Level

/-! ## Readers that remember -/

/-- From memories that are known, what is read ends behind where it starts. -/
def Forward (input : Array Char) (g : Grammar α) : Prop :=
  ∀ s a s', s.memo.Known input → g input s = .ok (a, s') →
    s'.memo.Known input ∧ s.position < s'.position ∧ s'.position ≤ max s.position input.size

/-- A grammar goes forward if those do that read afresh what it reads. -/
theorem Forward.of_follows {g : Grammar α} {G : Nat → Grammar α}
    (h : Follows (Memo.Known input) Anything input G g) (hG : ∀ k, Grammar.Takes input 1 (G k)) :
    Forward input g := by
  intro s a s' hknown hread
  obtain ⟨hknown', least, hleast⟩ := h s.position s.memo a s'.position s'.memo hknown hread
  obtain ⟨memo, -, hfresh⟩ := hleast least (Nat.le_refl _) {} trivial
  exact ⟨hknown', hG least ⟨s.position, {}⟩ a ⟨s'.position, memo⟩ hfresh⟩

namespace Level

theorem forward_path (n : Nat) (inValue : Bool) : Forward input ((memoised n).path inValue) :=
  .of_follows ((plain_follows_memoised n).path inValue) fun k => (goesForward_plain k).path inValue

theorem forward_type (n : Nat) : Forward input (memoised n).type :=
  .of_follows (plain_follows_memoised n).type fun k => (goesForward_plain k).type

/-- The loops of the grammar: how their end is found, and what is read until then. -/
inductive Loop (level : Level) : ∀ {α : Type}, Scan Bool → Grammar α → Prop where
  /-- Generic arguments. -/
  | arguments : Loop level (Scan.eat 'E') level.genericArg
  /-- The items of a tuple and the parameters of a function. -/
  | types : Loop level (Scan.eat 'E') level.type
  /-- The traits of a trait object. -/
  | bounds : Loop level (Scan.eat 'E') level.bound
  /-- The bindings of a trait. -/
  | bindings : Loop level (do return !(← Scan.eat 'p')) level.binding

namespace Loop

variable {isEnd : Scan Bool} {item : Grammar α}

theorem isEnd_advances {level : Level} (h : level.Loop isEnd item) :
    Advances (fun p => p) input (fun _ => 0) isEnd := by
  cases h with
  | bindings => exact Scan.closed_advances.notEat (by decide)
  | _ => exact Scan.closed_advances.tryEat _ (by decide)

theorem forward {n : Nat} (h : (memoised n).Loop isEnd item) : Forward input item := by
  have hfollows := @plain_follows_memoised input n
  have hplain (k : Nat) := @goesForward_plain input k
  cases h with
  | arguments =>
    exact .of_follows hfollows.genericArg fun k => (hplain k).genericArg Grammar.closed_takes
  | types => exact forward_type n
  | bounds => exact .of_follows hfollows.bound fun k => (hplain k).bound Grammar.closed_takes
  | bindings =>
    exact .of_follows hfollows.binding fun k => (hplain k).binding Grammar.closed_takes

end Loop

end Level

/-! ## Loops -/

/-- One round of a loop: its end is not reached, and an item is read. -/
def Grammar.Round (isEnd : Scan Bool) (item : Grammar α) (input : Array Char) (s s' : Cursor) :
    Prop :=
  ∃ p a, isEnd input s.position = .ok (false, p) ∧
    item input { s with position := p } = .ok (a, s')

section Loops

variable {n : Nat} {isEnd : Scan Bool} {item : Grammar α} {s s' : Cursor}

theorem Level.Loop.round_forward (h : (Level.memoised n).Loop isEnd item)
    (hknown : s.memo.Known input) (hround : Grammar.Round isEnd item input s s') :
    s'.memo.Known input ∧ s.position < s'.position ∧ s'.position ≤ input.size := by
  obtain ⟨p, a, hend, hitem⟩ := hround
  have hstart := h.isEnd_advances s.position false p hend
  obtain ⟨hknown', hforward⟩ := h.forward { s with position := p } a s' hknown hitem
  dsimp only at hstart hforward
  exact ⟨hknown', by omega, by omega⟩

/-- A loop depends on how it goes on only where a round can lead. -/
theorem Level.Loop.attempt_congr (h : (Level.memoised n).Loop isEnd item)
    (hknown : s.memo.Known input) {rest rest' : Grammar (List α)}
    (hrest : ∀ s' : Cursor, s'.memo.Known input → s.position < s'.position →
      s'.position ≤ input.size → rest input s' = rest' input s') :
    (do
      if ← Grammar.scan isEnd then return []
      let a ← item
      return a :: (← rest) : Grammar (List α)) input s
      = (do
        if ← Grammar.scan isEnd then return []
        let a ← item
        return a :: (← rest') : Grammar (List α)) input s := by
  refine Reader.bind_congr fun atEnd s₁ hscan => ?_
  cases atEnd with
  | true => rfl
  | false =>
    refine Reader.bind_congr fun a s₂ hitem => Reader.bind_congr_left ?_
    obtain ⟨q, hend, rfl⟩ := Grammar.scan_eq_ok hscan
    have hround : Grammar.Round isEnd item input s s₂ := ⟨q, a, hend, hitem⟩
    obtain ⟨hknown', hlt, hle⟩ := h.round_forward hknown hround
    exact hrest s₂ hknown' hlt hle

/-- More attempts than there are characters left make no difference to a loop. -/
theorem Level.Loop.manyWithin_eq (h : (Level.memoised n).Loop isEnd item)
    (hknown : s.memo.Known input) {attempts attempts' : Nat}
    (hattempts : input.size < s.position + attempts)
    (hattempts' : input.size < s.position + attempts') (hsize : s.position ≤ input.size) :
    Grammar.manyWithin isEnd item attempts input s =
      Grammar.manyWithin isEnd item attempts' input s := by
  induction attempts generalizing attempts' s with
  | zero => omega
  | succ k ih =>
    obtain ⟨k', rfl⟩ : ∃ j, attempts' = j + 1 := ⟨attempts' - 1, by omega⟩
    exact h.attempt_congr hknown fun s' hknown' hlt hle => ih hknown' (by omega) (by omega) hle

/-- A loop reads an item unless its end is reached, and then does the same again: the bound on its
attempts never stops it. -/
theorem Level.Loop.many_eq (h : (Level.memoised n).Loop isEnd item) (hknown : s.memo.Known input)
    (hsize : s.position ≤ input.size) :
    Grammar.many isEnd item input s = (do
      if ← Grammar.scan isEnd then return []
      let a ← item
      return a :: (← Grammar.many isEnd item)) input s := by
  have hattempts : input.size + 1 - s.position = input.size - s.position + 1 := by omega
  rw [Grammar.many, hattempts]
  exact h.attempt_congr hknown fun s' hknown' hlt hle =>
    h.manyWithin_eq hknown' (by omega) (by omega) hle

end Loops

/-! ## References -/

namespace Scan

/-- A constant is a reference to another position. -/
def RefersTo (input : Array Char) (p target : Nat) : Prop :=
  input[p]? = some 'B' ∧ ∃ after, base62 input (p + 1) = .ok (target, after)

/-- References from constant to constant lead to ever smaller positions, or the first constant is
refused. -/
theorem isChain_or_refused {p : Nat} {targets : List Nat}
    (h : (p :: targets).IsChain (RefersTo input)) :
    (p :: targets).IsChain (· > ·) ∨ const input p = .error .invalid := by
  induction targets generalizing p with
  | nil => exact .inl (.singleton p)
  | cons target rest ih =>
    obtain ⟨⟨hB, after, hnumber⟩, hrest⟩ := List.isChain_cons_cons.1 h
    have hconst := const_of_back hB hnumber
    by_cases hlt : target < p
    · rw [if_pos hlt] at hconst
      rcases ih hrest with hdown | hrefused
      · exact .inl (List.isChain_cons_cons.2 ⟨hlt, hdown⟩)
      · rw [hrefused] at hconst
        exact .inr hconst
    · rw [if_neg hlt] at hconst
      exact .inr hconst

/-- Behind a constant that refers to another, reading goes on behind the reference. -/
theorem const_back_eq_ok {p q : Nat} {a : Const} (hB : input[p]? = some 'B')
    (h : const input p = .ok (a, q)) :
    ∃ target < p, base62 input (p + 1) = .ok (target, q) ∧
      ∃ r, const input target = .ok (a, r) := by
  cases hnumber : base62 input (p + 1) with
  | error e =>
    rw [const, hB] at h
    simp only [hnumber] at h
    cases h
  | ok result =>
    obtain ⟨target, after⟩ := result
    rw [const_of_back hB hnumber] at h
    split at h
    · rename_i hlt
      cases hvalue : const input target with
      | error e =>
        rw [hvalue] at h
        cases h
      | ok result =>
        rw [hvalue] at h
        cases h
        exact ⟨target, hlt, rfl, result.2, hvalue⟩
    · cases h

end Scan

namespace Level

variable {level : Level} {s s' : Cursor}

theorem pathProduction_back_eq_ok {inValue : Bool} {a : TracedPath}
    (hB : input[s.position]? = some 'B')
    (h : level.pathProduction inValue input s = .ok (a, s')) :
    ∃ target < s.position, Scan.base62 input (s.position + 1) = .ok (target, s'.position) := by
  have hstep := (Reader.bind_ok (Grammar.scan_ok (Scan.next_of_eq hB))).symm.trans h
  obtain ⟨target, after, between, hnumber, hlt, -, rfl⟩ := Grammar.backReference_eq_ok hstep
  exact ⟨target, Nat.lt_of_succ_lt_succ hlt, hnumber⟩

theorem typeProduction_back_eq_ok {a : TracedType} (hB : input[s.position]? = some 'B')
    (h : level.typeProduction input s = .ok (a, s')) :
    ∃ target < s.position, Scan.base62 input (s.position + 1) = .ok (target, s'.position) := by
  have hpeek : Scan.peek input s.position = .ok (some 'B', s.position) := by rw [Scan.peek, hB]
  have hlook := (Reader.bind_ok (Grammar.scan_ok hpeek)).symm.trans h
  have hstep := (Reader.bind_ok (Grammar.scan_ok (Scan.next_of_eq hB))).symm.trans hlook
  obtain ⟨target, after, between, hnumber, hlt, -, rfl⟩ := Grammar.backReference_eq_ok hstep
  exact ⟨target, Nat.lt_of_succ_lt_succ hlt, hnumber⟩

variable {n p q : Nat} {memo memo' : Memo}

theorem path_back_eq_ok {inValue : Bool} {a : TracedPath} (hknown : memo.Known input)
    (hB : input[p]? = some 'B')
    (h : (memoised n).path inValue input ⟨p, memo⟩ = .ok (a, ⟨q, memo'⟩)) :
    ∃ target < p, Scan.base62 input (p + 1) = .ok (target, q) := by
  -- What is remembered need not come from this reading, but it is what a plain level reads.
  obtain ⟨-, least, hleast⟩ := (plain_follows_memoised n).path inValue p memo a q memo' hknown h
  obtain ⟨after, -, hfresh⟩ := hleast (least + 1) (Nat.le_succ least) {} trivial
  exact pathProduction_back_eq_ok hB hfresh

theorem type_back_eq_ok {a : TracedType} (hknown : memo.Known input) (hB : input[p]? = some 'B')
    (h : (memoised n).type input ⟨p, memo⟩ = .ok (a, ⟨q, memo'⟩)) :
    ∃ target < p, Scan.base62 input (p + 1) = .ok (target, q) := by
  obtain ⟨-, least, hleast⟩ := (plain_follows_memoised n).type p memo a q memo' hknown h
  obtain ⟨after, -, hfresh⟩ := hleast (least + 1) (Nat.le_succ least) {} trivial
  exact typeProduction_back_eq_ok hB hfresh

end Level

/-! ## Progress -/

/-- How reading a name progresses and why it ends. Positions of the grammar are taken with every
memory that comes about. -/
structure Progresses (input : Array Char) : Prop where
  /-- Counting the open paths and types is reading with the tower: where the count would exceed the
  limit the text is refused, and if the host has room for one more of them nothing depends on it. -/
  counted : ∀ host room, maxDepth < room →
    Level.counting host room 0 = Level.memoised maxDepth
  /-- A name for which deeper nesting is tried is refused, and for all others it does not matter
  what would happen there. -/
  limited : (∀ bottom, readSymbol (Level.stacked bottom maxDepth) input =
      readSymbol (Level.memoised maxDepth) input) ∨
    (∀ e, readSymbol (Level.stacked (Level.failing e) maxDepth) input = .error e) ∧
      readSymbol (Level.memoised maxDepth) input = .error .invalid
  /-- So is a name that starts with too many items inside one another. -/
  nested : Nests input 0 maxDepth → readSymbol (Level.memoised maxDepth) input = .error .invalid
  /-- Paths end behind their start. -/
  path : ∀ n p q inValue a memo memo', memo.Arises input →
    (Level.memoised n).path inValue input ⟨p, memo⟩ = .ok (a, ⟨q, memo'⟩) →
      p < q ∧ q ≤ input.size
  /-- Types end behind their start. -/
  type : ∀ n p q a memo memo', memo.Arises input →
    (Level.memoised n).type input ⟨p, memo⟩ = .ok (a, ⟨q, memo'⟩) → p < q ∧ q ≤ input.size
  /-- Constants end behind their start. -/
  const : ∀ p q a, Scan.const input p = .ok (a, q) → p < q ∧ q ≤ input.size
  /-- Identifiers end behind their start, with a disambiguator and without. -/
  identifier : (∀ p q a, Scan.identifier input p = .ok (a, q) → p < q ∧ q ≤ input.size) ∧
    ∀ p q a, Scan.rawIdentifier input p = .ok (a, q) → p < q ∧ q ≤ input.size
  /-- Every round of a loop goes forward. -/
  rounds : ∀ n {α : Type} (isEnd : Scan Bool) (item : Grammar α) (s s' : Cursor),
    (Level.memoised n).Loop isEnd item → s.memo.Arises input →
      Grammar.Round isEnd item input s s' → s.position < s'.position ∧ s'.position ≤ input.size
  /-- A loop is never stopped by the bound on its attempts. -/
  loops : ∀ n {α : Type} (isEnd : Scan Bool) (item : Grammar α) (s : Cursor),
    (Level.memoised n).Loop isEnd item → s.memo.Arises input → s.position ≤ input.size →
      Grammar.many isEnd item input s = (do
        if ← Grammar.scan isEnd then return []
        let a ← item
        return a :: (← Grammar.many isEnd item)) input s
  /-- References from constant to constant lead to ever smaller positions, or the first constant is
  refused. -/
  constants : ∀ p targets, (p :: targets).IsChain (Scan.RefersTo input) →
    (p :: targets).IsChain (· > ·) ∨ Scan.const input p = .error .invalid
  /-- A constant that refers to another ends behind the number of the reference. -/
  constBack : ∀ p q a, input[p]? = some 'B' → Scan.const input p = .ok (a, q) →
    ∃ target < p, Scan.base62 input (p + 1) = .ok (target, q) ∧
      ∃ r, Scan.const input target = .ok (a, r)
  /-- So does a path that is a back reference. -/
  pathBack : ∀ n p q inValue a memo memo', memo.Arises input → input[p]? = some 'B' →
    (Level.memoised n).path inValue input ⟨p, memo⟩ = .ok (a, ⟨q, memo'⟩) →
      ∃ target < p, Scan.base62 input (p + 1) = .ok (target, q)
  /-- So does a type that is a back reference. -/
  typeBack : ∀ n p q a memo memo', memo.Arises input → input[p]? = some 'B' →
    (Level.memoised n).type input ⟨p, memo⟩ = .ok (a, ⟨q, memo'⟩) →
      ∃ target < p, Scan.base62 input (p + 1) = .ok (target, q)

theorem lt_and_le_of_takes {r : Scan α} (h : Advances (fun p => p) input (fun _ => 1) r)
    {p q : Nat} {a : α} (hread : r input p = .ok (a, q)) : p < q ∧ q ≤ input.size := by
  have hforward := h p a q hread
  dsimp only at hforward
  omega

theorem Forward.lt_and_le {g : Grammar α} (h : Forward input g) {p q : Nat} {a : α}
    {memo memo' : Memo} (hmemo : memo.Known input)
    (hread : g input ⟨p, memo⟩ = .ok (a, ⟨q, memo'⟩)) : p < q ∧ q ≤ input.size := by
  obtain ⟨-, hforward⟩ := h ⟨p, memo⟩ a ⟨q, memo'⟩ hmemo hread
  dsimp only at hforward
  omega

/-- **Progress.** Reading any text ends by itself: nesting is limited, every production and every
round of a loop goes forward, and references lead back without going on from there. -/
theorem reading_progresses (input : Array Char) : Progresses input where
  counted host room hroom :=
    Level.counting_eq_memoised (Nat.zero_le maxDepth) (by rwa [Nat.sub_zero])
  limited := readSymbol_stacked input
  nested := readSymbol_eq_error_of_nests
  path n _ _ inValue _ _ _ hmemo hread := (Level.forward_path n inValue).lt_and_le hmemo.known hread
  type n _ _ _ _ _ hmemo hread := (Level.forward_type n).lt_and_le hmemo.known hread
  const _ _ _ hread := lt_and_le_of_takes Scan.advances_const hread
  identifier :=
    ⟨fun _ _ _ hread => lt_and_le_of_takes Scan.closed_advances.identifier hread,
      fun _ _ _ hread => lt_and_le_of_takes Scan.closed_advances.rawIdentifier hread⟩
  rounds _ _ _ _ _ _ hloop hmemo hround := (hloop.round_forward hmemo.known hround).2
  loops _ _ _ _ _ hloop hmemo hsize := hloop.many_eq hmemo.known hsize
  constants _ _ h := Scan.isChain_or_refused h
  constBack _ _ _ hB hread := Scan.const_back_eq_ok hB hread
  pathBack _ _ _ _ _ _ _ hmemo hB hread := Level.path_back_eq_ok hmemo.known hB hread
  typeBack _ _ _ _ _ _ hmemo hB hread := Level.type_back_eq_ok hmemo.known hB hread

/-- In the sample a path refers back to its crate, and reading goes on behind the reference. -/
theorem sampleSymbol_progresses : ∃ path memo,
    (Level.memoised maxDepth).path false sampleSymbol ⟨10, {}⟩ = .ok (path, ⟨13, memo⟩) ∧
      (10 < 13 ∧ 13 ≤ sampleSymbol.size) ∧
      ∃ target < 10, Scan.base62 sampleSymbol 11 = .ok (target, 13) := by
  have hprogresses := reading_progresses sampleSymbol
  have hok : (((Level.plain maxDepth).path false).readAt sampleSymbol 10).toOption.map Prod.snd
      = some 13 := by
    decide +kernel
  obtain ⟨⟨path, q⟩, hplain, rfl⟩ := exists_eq_ok_of_toOption hok
  have hself := @Level.plain_mono sampleSymbol maxDepth maxDepth (Nat.le_refl maxDepth)
  have hfollows := @Level.memoised_follows_plain sampleSymbol maxDepth
  have hreads := Reads.of_readAt (hself.path false) hplain
  obtain ⟨memo, -, hread⟩ := hreads.mono (hfollows.path false) {} Memo.known_empty
  exact ⟨path, memo, hread, hprogresses.path _ _ _ _ _ _ _ .start hread,
    hprogresses.pathBack _ _ _ _ _ _ _ .start (by decide +kernel) hread⟩

end CrateLedger.Mangled.V0
