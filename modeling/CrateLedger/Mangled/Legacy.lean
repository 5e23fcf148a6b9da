import CrateLedger.Mangled.Error

/-!
# Legacy mangling

A legacy name is one of the prefixes `_ZN`, `__ZN`, `ZN`, then length-prefixed elements, then `E`,
then nothing or a suffix that the toolchain adds, which starts with `.` or `$`. The last element
may be a hash of sixteen hexadecimal digits, and the other elements are the segments of a path in
which every character that an assembler would refuse is escaped. A length is a decimal numeral, and
reading fails for good on one that has too many digits for the host.

`parse?` recognises the grammar, `unescape` undoes the escapes of one element, and `crate?` finds
the crate that a path belongs to: its first segment, or, for the method of an `impl`, the root of
the implementing type and failing that the root of the trait.
-/

namespace CrateLedger.Mangled.Legacy

/-! ## The grammar -/

/-- The elements of a legacy name as they are written, the hash apart. -/
structure Name where
  /-- The escaped segments; there is at least one. -/
  elements : List (List Char)
  /-- The text of the hash after its `h`. -/
  hash : Option (List Char)
  deriving DecidableEq, Repr

/-- The prefixes that announce a legacy name. -/
def prefixes : List Text := ["__ZN", "_ZN", "ZN"]

/-- The greatest number of digits of a length in a text. It is what the host reads; were a text
longer than any number of so many digits, its own length could still be written. -/
def digitLimit (s : List Char) : Nat :=
  max Numeral.maxDigits (Nat.toDigits 10 s.length).length

/-- Reads a decimal length of at most `limit` digits and as many characters, at least one. -/
def element? (limit : Nat) (s : List Char) :
    Except NumberError (Option (List Char × List Char)) :=
  let digits := s.takeWhile Char.isDigit
  let rest := s.dropWhile Char.isDigit
  let length := Numeral.readDecimal digits
  if limit < digits.length then .error (.tooLong digits.length)
  else if digits = [] ∨ length = 0 ∨ rest.length < length then .ok none
  else .ok (some (rest.take length, rest.drop length))

/-- An element takes at least its length field. -/
theorem length_lt_of_element? {limit : Nat} {s e rest : List Char}
    (h : element? limit s = .ok (some (e, rest))) : rest.length < s.length := by
  simp only [element?] at h
  split at h
  · cases h
  split at h
  · cases h
  · next hc =>
    simp only [Except.ok.injEq, Option.some.injEq, Prod.mk.injEq] at h
    have hs : (s.takeWhile Char.isDigit ++ s.dropWhile Char.isDigit).length = s.length := by
      rw [List.takeWhile_append_dropWhile]
    have hd : (s.takeWhile Char.isDigit).length ≠ 0 := fun h0 =>
      hc (Or.inl (List.length_eq_zero_iff.1 h0))
    rw [← h.2, List.length_drop]
    simp only [List.length_append] at hs
    omega

/-- Reads elements up to the terminator `E`, and gives what follows it. -/
def elements? (limit : Nat) (s : List Char) :
    Except NumberError (Option (List (List Char) × List Char)) :=
  match s with
  | 'E' :: rest => .ok (some ([], rest))
  | s =>
    match h : element? limit s with
    | .error e => .error e
    | .ok none => .ok none
    | .ok (some (e, rest)) =>
      have : rest.length < s.length := length_lt_of_element? h
      match elements? limit rest with
      | .error e => .error e
      | .ok none => .ok none
      | .ok (some (es, after)) => .ok (some (e :: es, after))
termination_by s.length

/-- Whether the text after a complete name is empty or a suffix that the toolchain added. -/
def isSuffix : List Char → Bool
  | [] => true
  | c :: _ => c = '.' || c = '$'

/-- The digits of a hash element: `h` and sixteen hexadecimal digits. A final line feed belongs to
the hash. -/
def hash? : List Char → Option (List Char)
  | 'h' :: digits =>
    let (hex, rest) := (digits.take 16, digits.drop 16)
    if hex.length = 16 ∧ hex.all Numeral.isHexDigit ∧ (rest = [] ∨ rest = ['\n']) then some digits
    else none
  | _ => none

/-- Splits a final hash off the elements; a name that is nothing but a hash keeps it. -/
def splitHash (elements : List (List Char)) : Name :=
  match elements.getLast?.bind hash? with
  | some hash =>
    if elements.length > 1 then ⟨elements.dropLast, some hash⟩ else ⟨elements, none⟩
  | none => ⟨elements, none⟩

/-- Recognises a legacy name. -/
def parse? (name : Text) : Except NumberError (Option Name) :=
  match Text.asciiBehind? prefixes name with
  | none => .ok none
  | some inner =>
    match elements? (digitLimit inner) inner with
    | .error e => .error e
    | .ok none => .ok none
    | .ok (some (elements, rest)) =>
      .ok (if isSuffix rest ∧ elements ≠ [] then some (splitHash elements) else none)

/-! ## Escapes -/

/-- The characters that have an escape of their own. -/
def escapes : List (List Char × Char) :=
  [(['S', 'P'], '@'), (['B', 'P'], '*'), (['R', 'F'], '&'), (['L', 'T'], '<'), (['G', 'T'], '>'),
    (['L', 'P'], '('), (['R', 'P'], ')'), (['C'], ',')]

/-- What an escape between two dollar signs stands for. One that is not known stays as it is. -/
def expand (code : List Char) : Except NumberError Text :=
  match escapes.lookup code with
  | some c => .ok [↑c]
  | none =>
    match code with
    | 'u' :: d :: ds =>
      if (d :: ds).all Numeral.isHexDigit then (codePoint (Numeral.readHex (d :: ds))).map ([·])
      else .ok (Text.ofChars ('$' :: code ++ ['$']))
    | _ => .ok (Text.ofChars ('$' :: code ++ ['$']))

/-- Undoes the escapes of an element. Two dots stand for the path separator, and `.$GT$` for the
arrow of a function type; a dollar sign that is never closed ends the escapes. -/
def unescapeFrom (s : List Char) : Except NumberError Text :=
  match s with
  | [] => .ok []
  | '$' :: rest =>
    match h : rest.dropWhile (· ≠ '$') with
    | [] => .ok (Text.ofChars ('$' :: rest))
    | _ :: after =>
      have : after.length < rest.length + 1 := by
        have h1 := (List.dropWhile_sublist (l := rest) (fun c => c ≠ '$')).length_le
        rw [h] at h1
        simp only [List.length_cons] at h1
        omega
      do return (← expand (rest.takeWhile (· ≠ '$'))) ++ (← unescapeFrom after)
  | '.' :: '.' :: rest => do return "::" ++ (← unescapeFrom rest)
  | '.' :: '$' :: 'G' :: 'T' :: '$' :: rest => do return "->" ++ (← unescapeFrom rest)
  | c :: rest => do return ↑c :: (← unescapeFrom rest)
termination_by s.length

/-- The text of one element. An underscore in front of a leading escape is not part of it. -/
def unescape (element : List Char) : Except NumberError Text :=
  match element with
  | '_' :: '$' :: rest => unescapeFrom ('$' :: rest)
  | s => unescapeFrom s

/-- The texts of all segments. -/
def Name.segments (n : Name) : Except NumberError (List Text) := n.elements.mapM unescape

/-! ## The crate of a path -/

/-- A letter of an identifier, which may also start one. -/
def isIdentifierStart (c : CodePoint) : Bool := c.toChar.isAlpha || c = '_'

/-- A character inside an identifier. -/
def isIdentifierPart (c : CodePoint) : Bool := c.toChar.isAlphanum || c = '_'

/-- Whether a text is an ASCII identifier. One line feed at its end is overlooked. -/
def isIdentifier (t : Text) : Bool :=
  match t with
  | [] => false
  | c :: rest =>
    let rest := if rest.getLast? = some '\n' then rest.dropLast else rest
    isIdentifierStart c && rest.all isIdentifierPart

/-- Scans for the `as` of a cast outside all brackets. `before` is the last character passed, which
tells the head of an arrow from a closing bracket. -/
def splitCastFrom (before : Option CodePoint) (depth : Nat) : Text → Option (Text × Text)
  | [] => none
  | c :: rest =>
    let onward (depth : Nat) :=
      (splitCastFrom (some c) depth rest).map fun (self, trait) => (c :: self, trait)
    if c = '<' ∨ c = '[' ∨ c = '(' then onward (depth + 1)
    else if c = '>' ∧ (before = some '.' ∨ before = some '-') then onward depth
    else if c = '>' ∨ c = ']' ∨ c = ')' then onward (depth - 1)
    else if depth = 0 then
      match Text.dropHead? " as " (c :: rest) with
      | some trait => some ([], trait)
      | none => onward depth
    else onward depth

/-- Splits `T as Trait` into its two sides; without a cast there is no trait. -/
def splitCast (t : Text) : Text × Option Text :=
  match splitCastFrom none 0 t with
  | some (self, trait) => (self, some trait)
  | none => (t, none)

/-- What may stand in front of the path of a type. -/
def typePrefixes : List Text := ["&", "*const ", "*mut ", "mut ", "dyn "]

/-- One prefix fewer, if there is one. -/
def dropTypePrefix? (t : Text) : Option Text := typePrefixes.findSome? fun p => Text.dropHead? p t

/-- Dropping a prefix shortens a text. -/
theorem length_lt_of_dropTypePrefix? {t rest : Text} (h : dropTypePrefix? t = some rest) :
    rest.length < t.length := by
  simp only [dropTypePrefix?] at h
  obtain ⟨p, hp, hd⟩ := List.exists_of_findSome?_eq_some h
  have hl : 0 < p.length := by
    simp only [typePrefixes, List.mem_cons, List.not_mem_nil, or_false] at hp
    rcases hp with rfl | rfl | rfl | rfl | rfl <;> decide
  simp only [Text.dropHead?] at hd
  split at hd
  · next hpre =>
    have hle := (List.isPrefixOf_iff_prefix.1 hpre).length_le
    simp only [Option.some.injEq] at hd
    rw [← hd, List.length_drop]
    omega
  · exact absurd hd (by simp)

/-- A type without references, raw pointers, mutability and `dyn` in front of it. -/
def stripTypePrefixes (t : Text) : Text :=
  match h : dropTypePrefix? t with
  | none => t
  | some rest =>
    have : rest.length < t.length := length_lt_of_dropTypePrefix? h
    stripTypePrefixes rest
termination_by t.length

/-- The crate at the root of a path that is written as text. -/
def root? (t : Text) : Option Text := do
  let (root, _) ← Text.splitFirst? "::" (stripTypePrefixes t)
  if isIdentifier root then some root else none

/-- The crate of an `impl` header: that of the type, and failing that of the trait. -/
def implCrate? (header : Text) : Option Text :=
  let (self, trait) := splitCast header
  root? self <|> trait.bind root?

/-- The crate that a path belongs to. A path of one segment names no crate. -/
def crate? : List Text → Option Text
  | first :: _ :: _ =>
    match first with
    | c :: inner =>
      if c = '<' then
        implCrate? (if inner.getLast? = some '>' then inner.dropLast else inner)
      else if isIdentifier first then some first else none
    | [] => none
  | _ => none

end CrateLedger.Mangled.Legacy
