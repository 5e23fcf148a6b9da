import CrateLedger.Image.Fault
import CrateLedger.Text.Utf8

/-!
# Bytes

The leaves of every container: records of fixed size inside the data, numbers of either byte order
inside a record, and names, which are either NUL-terminated UTF-8 or NUL-padded ASCII.

A table of records is read one record after the other, and it is common that a broken record comes
after good ones. A `Walk` keeps both: the items met before the walk broke off, and why it did.
-/

namespace CrateLedger

/-- A byte string. -/
abbrev Bytes := Array UInt8

namespace Image

/-! ## Numbers -/

/-- The order of the bytes of a number. -/
inductive ByteOrder where
  /-- Least significant byte first. -/
  | little
  /-- Most significant byte first. -/
  | big
  deriving DecidableEq, Repr

/-- The number that some bytes spell. -/
def ByteOrder.decode (order : ByteOrder) (bytes : List UInt8) : Nat :=
  match order with
  | little => bytes.foldr (fun b n => b.toNat + 256 * n) 0
  | big => bytes.foldl (fun n b => 256 * n + b.toNat) 0

/-- The signed number of the same bits as an unsigned one of a width in bytes. -/
def signed (width n : Nat) : Int :=
  if n < Nat.pow 2 (8 * width - 1) then n else n - (Nat.pow 2 (8 * width) : Nat)

end Image

namespace Bytes

open Image

/-- The bytes from a start on, as many as given or until the end. -/
def slice (data : Bytes) (start length : Nat) : Bytes := data.extract start (start + length)

/-- The number in a field of a record. -/
def number (order : ByteOrder) (data : Bytes) (start width : Nat) : Nat :=
  order.decode (data.slice start width).toList

/-- The number in a signed field of a record. -/
def signedNumber (order : ByteOrder) (data : Bytes) (start width : Nat) : Int :=
  signed width (data.number order start width)

/-- The numbers of a table of fields of one width. -/
def numbers (order : ByteOrder) (data : Bytes) (width count : Nat) : List Nat :=
  (List.range count).map fun i => data.number order (width * i) width

/-- Whether the data begins with some bytes. -/
def startsWith (data : Bytes) (head : List UInt8) : Bool :=
  (data.slice 0 head.length).toList = head

/-- The record of a size at an offset, which has to be wholly inside the data. -/
def record (data : Bytes) (offset : Int) (size : Nat) : Except Fault Bytes :=
  if offset < 0 ∨ data.size < offset + size then .error (.recordOutside size offset data.size)
  else .ok (data.slice offset.toNat size)

/-! ## Names -/

/-- The bytes from an index up to a NUL or a stop, whichever comes first. -/
def untilNul (data : Bytes) (start stop : Nat) : List UInt8 :=
  if h : start < stop ∧ start < data.size then
    if data[start] = 0 then [] else data[start] :: untilNul data (start + 1) stop
  else []
termination_by stop - start

/-- The UTF-8 name at an offset, up to a NUL or the end of the data, which a limit can bring
forward. The offset may be the end itself. -/
def name (data : Bytes) (offset : Int) (limit : Option Nat) : Except Fault Text :=
  let stop := min (limit.getD data.size) data.size
  if offset < 0 ∨ stop < offset then .error (.stringOutside offset)
  else .ok (Utf8.decodeTolerant (data.untilNul offset.toNat stop))

/-- The ASCII name in a field that is padded with NUL. A byte that is not ASCII becomes a
replacement character. -/
def paddedName (field : Bytes) : Text :=
  (field.untilNul 0 field.size).map fun b =>
    if b.toNat < 0x80 then CodePoint.ofChar (Char.ofNat b.toNat) else CodePoint.replacement

end Bytes

namespace Image

/-! ## Tables -/

/-- What was met on a walk through a table, and why it broke off if it did not reach the end. -/
structure Walk (ε α : Type) where
  /-- The items before the failure. -/
  items : List α
  /-- Why the walk broke off. -/
  failure : Option ε
  deriving Repr

namespace Walk

variable {ε α β : Type}

/-- A walk that is over. -/
def finished : Walk ε α := ⟨[], none⟩

/-- A walk that breaks off at once. -/
def failed (e : ε) : Walk ε α := ⟨[], some e⟩

/-- A walk with one more item in front. -/
def cons (a : α) (rest : Walk ε α) : Walk ε α := ⟨a :: rest.items, rest.failure⟩

/-- Goes over all items in order, and fails at the first that fails or where the walk broke off. -/
def mapM (f : α → Except ε β) (walk : Walk ε α) : Except ε (List β) := do
  let bs ← walk.items.mapM f
  match walk.failure with
  | none => return bs
  | some e => throw e

/-- All items, if the walk did not break off. -/
def toList (walk : Walk ε α) : Except ε (List α) := walk.mapM pure

end Walk

/-- Reads a number of records one after the other, given how to read the one of an index. -/
def readTable {ε α : Type} (read : Nat → Except ε α) (index : Nat) : Nat → Except ε (List α)
  | 0 => .ok []
  | count + 1 => do
    let a ← read index
    return a :: (← readTable read (index + 1) count)

end Image

end CrateLedger
