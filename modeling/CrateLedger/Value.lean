import CrateLedger.Binary64.Shortest
import CrateLedger.Text.Quoted

/-!
# Documents

What a configuration file, a build snapshot or a saved report holds before it is given a meaning:
scalars, lists, and objects whose fields keep the order in which they were first written. The keys
of an object are scalars.

Scalars are compared by value, and truth values count as the numbers zero and one there: `1`,
`1.0` and `true` are the same key. Texts have an order and numbers have one; lists have that of the
first items in which they differ. All else can only be the same or not.
-/

namespace CrateLedger

/-- A value without parts. -/
inductive Scalar where
  | null
  | bool (value : Bool)
  | integer (value : Int)
  | float (value : Binary64)
  | text (value : Text)
  deriving DecidableEq

/-- A document. -/
inductive Value where
  /-- A value without parts. -/
  | scalar (value : Scalar)
  /-- A list. -/
  | list (items : List Value)
  /-- An object: keys and what they hold. -/
  | object (fields : List (Scalar × Value))

/-- The fields of an object. -/
abbrev Fields := List (Scalar × Value)

/-! ## Scalars -/

namespace Scalar

/-- A number on the extended line: which infinity it is, if any, and its value in units of the
least positive double. -/
structure Position where
  /-- Minus one, zero or one for the lower infinity, finite numbers and the upper infinity. -/
  infinity : Int
  /-- The value of a finite number in units. -/
  units : Int
  deriving DecidableEq

/-- Whether one number is at most another. -/
def Position.le (a b : Position) : Bool :=
  a.infinity < b.infinity || (a.infinity = b.infinity && a.units ≤ b.units)

/-- The position of a number; truth values are numbers. -/
def position? : Scalar → Option Position
  | bool b => some ⟨0, if b then Binary64.unitsPerOne else 0⟩
  | integer n => some ⟨0, n * Binary64.unitsPerOne⟩
  | float x =>
    if x.isNaN then none
    else if x.isFinite then some ⟨0, x.signedUnits⟩
    else some ⟨if x.isNegative then -1 else 1, 0⟩
  | _ => none

/-- The text of a scalar that is one. -/
def text? : Scalar → Option Text
  | text t => some t
  | _ => none

/-- Whether a scalar is a number that is none. -/
def isNaN : Scalar → Bool
  | float x => x.isNaN
  | _ => false

/-- Whether two scalars have the same value. Where things are looked up or grouped, a NaN is the
same as a NaN. -/
def same (a b : Scalar) : Bool :=
  match a, b with
  | null, null => true
  | text s, text t => s = t
  | a, b =>
    match a.position?, b.position? with
    | some p, some q => p = q
    | none, none => a.isNaN && b.isNaN
    | _, _ => false

/-- Whether a scalar counts as true: nothing, zero and the empty text do not. -/
def isTrue : Scalar → Bool
  | null => false
  | bool b => b
  | integer n => n ≠ 0
  | float x => x.magnitudeBits ≠ 0
  | text t => !t.isEmpty

/-- How a scalar is shown on its own in a message: a text as it is. -/
def shown : Scalar → Text
  | null => "None"
  | bool true => "True"
  | bool false => "False"
  | integer n => Numeral.signedDecimal n
  | float x => x.shown "nan" "inf"
  | text t => t

/-- How a scalar is shown as part of a document: a text in quotes. -/
def quoted : Scalar → Text
  | text t => Text.quoted t
  | s => s.shown

/-- Whether a list holds a scalar of the same value. -/
def isIn (s : Scalar) (ss : List Scalar) : Bool := ss.any (same s)

/-- One of each value, in the order of first occurrence. -/
def distinct (ss : List Scalar) : List Scalar := ss.eraseDupsBy same

/-- The order of two scalars, if they have one: the same value, texts by code point, or numbers. -/
def order? (a b : Scalar) : Option Ordering :=
  if a.same b then some .eq
  else
    match a, b with
    | text s, text t => some (if Text.le s t then .lt else .gt)
    | a, b =>
      match a.position?, b.position? with
      | some p, some q => some (if p.le q then .lt else .gt)
      | _, _ => none

/-- Whether two scalars have an order. -/
def comparable (a b : Scalar) : Bool := (a.order? b).isSome

/-- Whether a scalar comes before another or is the same, if they have an order. -/
def le (a b : Scalar) : Bool := a.order? b ≠ some .gt

/-- Sorts scalars, if they have an order. Scalars that can be compared to the same one can be
compared to each other. -/
def sort? (ss : List Scalar) : Option (List Scalar) :=
  if ss.all fun s => ss.head?.all s.comparable then some (ss.mergeSort le) else none

end Scalar

/-! ## Objects -/

namespace Fields

/-- What an object holds under a text. -/
def get? (fields : Fields) (key : Text) : Option Value :=
  (fields.find? fun f => f.1.same (.text key)).map Prod.snd

/-- Sets a field. A key that is there already keeps its place and its spelling. -/
def insert (fields : Fields) (key : Scalar) (value : Value) : Fields :=
  if fields.any fun f => f.1.same key then
    fields.map fun f => if f.1.same key then (f.1, value) else f
  else fields ++ [(key, value)]

/-- The object of fields written one after the other; the last of several equal keys wins. -/
def ofWritten (fields : List (Scalar × Value)) : Fields :=
  fields.foldl (fun done f => insert done f.1 f.2) []

end Fields

/-! ## Documents -/

namespace Value

mutual

/-- Equality of documents is decidable. -/
def decEq : (a b : Value) → Decidable (a = b)
  | .scalar a, .scalar b => decidable_of_iff (a = b) (by simp)
  | .list as, .list bs =>
    match decEqItems as bs with
    | .isTrue h => .isTrue (by rw [h])
    | .isFalse h => .isFalse (by simpa using h)
  | .object as, .object bs =>
    match decEqFields as bs with
    | .isTrue h => .isTrue (by rw [h])
    | .isFalse h => .isFalse (by simpa using h)
  | .scalar _, .list _ | .scalar _, .object _ => .isFalse nofun
  | .list _, .scalar _ | .list _, .object _ => .isFalse nofun
  | .object _, .scalar _ | .object _, .list _ => .isFalse nofun

/-- Equality of lists of documents is decidable. -/
def decEqItems : (as bs : List Value) → Decidable (as = bs)
  | [], [] => .isTrue rfl
  | [], _ :: _ | _ :: _, [] => .isFalse nofun
  | a :: as, b :: bs =>
    match decEq a b, decEqItems as bs with
    | .isTrue h, .isTrue hs => .isTrue (by rw [h, hs])
    | .isFalse h, _ => .isFalse fun e => h (List.cons.inj e).1
    | _, .isFalse hs => .isFalse fun e => hs (List.cons.inj e).2

/-- Equality of fields is decidable. -/
def decEqFields : (as bs : List (Scalar × Value)) → Decidable (as = bs)
  | [], [] => .isTrue rfl
  | [], _ :: _ | _ :: _, [] => .isFalse nofun
  | (k, a) :: as, (l, b) :: bs =>
    match decEq a b, decEqFields as bs with
    | .isTrue h, .isTrue hs =>
      if hk : k = l then .isTrue (by rw [hk, h, hs])
      else .isFalse fun e => hk (congrArg Prod.fst (List.cons.inj e).1)
    | .isFalse h, _ => .isFalse fun e => h (congrArg Prod.snd (List.cons.inj e).1)
    | _, .isFalse hs => .isFalse fun e => hs (List.cons.inj e).2

end

instance : DecidableEq Value := decEq

/-- Nothing. -/
def null : Value := .scalar .null

/-- A truth value. -/
def bool (b : Bool) : Value := .scalar (.bool b)

/-- An integer. -/
def integer (n : Int) : Value := .scalar (.integer n)

/-- A text. -/
def text (t : Text) : Value := .scalar (.text t)

theorem text_inj {a b : Text} : text a = text b ↔ a = b := by
  unfold text
  rw [scalar.injEq, Scalar.text.injEq]

/-- An object with texts as keys. -/
def record (fields : List (Text × Value)) : Value := .object (fields.map fun f => (.text f.1, f.2))

/-- The text of a document that is one. -/
def text? : Value → Option Text
  | .scalar s => s.text?
  | _ => none

/-- The scalar of a document that has no parts. -/
def scalar? : Value → Option Scalar
  | .scalar s => some s
  | _ => none

/-- The fields of a document that is an object. -/
def fields? : Value → Option Fields
  | .object fields => some fields
  | _ => none

/-- Whether a document counts as true: an empty list or object does not. -/
def isTrue : Value → Bool
  | .scalar s => s.isTrue
  | .list items => !items.isEmpty
  | .object fields => !fields.isEmpty

/-- The elements that a document consists of: the items of a list, the keys of an object, the code
points of a text. Other documents have none to go through. -/
def elements? : Value → Option (List Value)
  | .list items => some items
  | .object fields => some (fields.map fun f => .scalar f.1)
  | .scalar (.text t) => some (t.map fun c => .text [c])
  | .scalar _ => none

/-- The elements of a document, where one that does not count as true has none. -/
def elementsOrNone? (v : Value) : Option (List Value) := if v.isTrue then v.elements? else some []

mutual

/-- Whether two documents have the same value. The order of fields does not matter. -/
def same : Value → Value → Bool
  | .scalar a, .scalar b => a.same b
  | .list as, .list bs => sameItems as bs
  | .object as, .object bs => as.length = bs.length && sameFields as bs
  | _, _ => false

/-- Whether two lists of documents have the same values in the same order. -/
def sameItems : List Value → List Value → Bool
  | [], [] => true
  | a :: as, b :: bs => same a b && sameItems as bs
  | _, _ => false

/-- Whether all fields are found with the same value among others. -/
def sameFields : List (Scalar × Value) → List (Scalar × Value) → Bool
  | [], _ => true
  | (key, value) :: rest, others =>
    (match others.find? fun f => f.1.same key with
      | some (_, other) => same value other
      | none => false) && sameFields rest others

end

mutual

/-- The order of two documents, if they have one. -/
def order? : Value → Value → Option Ordering
  | .scalar a, .scalar b => a.order? b
  | .list as, .list bs => orderItems? as bs
  | a, b => if same a b then some .eq else none

/-- The order of two lists: that of the first items that differ, and if there are none, the shorter
list comes first. -/
def orderItems? : List Value → List Value → Option Ordering
  | [], [] => some .eq
  | [], _ :: _ => some .lt
  | _ :: _, [] => some .gt
  | a :: as, b :: bs => if same a b then orderItems? as bs else order? a b

end

/-- Whether two documents have an order. -/
def comparable (a b : Value) : Bool := (a.order? b).isSome

mutual

/-- How a document is shown in a message. -/
def quoted : Value → Text
  | .scalar s => s.quoted
  | .list items => "[" ++ Text.join ", " (quotedItems items) ++ "]"
  | .object fields => "\x7b" ++ Text.join ", " (quotedFields fields) ++ "\x7d"

/-- How the items of a list are shown. -/
def quotedItems : List Value → List Text
  | [] => []
  | v :: vs => quoted v :: quotedItems vs

/-- How the fields of an object are shown. -/
def quotedFields : List (Scalar × Value) → List Text
  | [] => []
  | (key, value) :: rest => (key.quoted ++ ": " ++ quoted value) :: quotedFields rest

end

/-- How a document is shown on its own in a message: a text as it is. -/
def shown : Value → Text
  | .scalar s => s.shown
  | v => v.quoted

end Value

end CrateLedger
