import CrateLedger.Image.Bytes

/-!
# CodeView symbol records

A stream of symbols is a sequence of records. A record is a length, a kind and a payload, where the
length counts the kind and the payload but not itself. Two kinds of records matter here: public
symbols, which give addresses their mangled names, and procedures, which have sizes.
-/

namespace CrateLedger.Image.CodeView

/-! ## Records -/

/-- A record and where its payload is. -/
structure Record where
  /-- The number that says what it is. -/
  kind : Nat
  /-- Where the payload starts in the stream. -/
  payload : Nat
  deriving DecidableEq, Repr

/-- The records between an offset and a stop. The last bytes before the stop do not matter if they
are too few for a record. -/
def recordsFrom (stream : Bytes) (offset stop : Nat) : Walk Fault Record :=
  if offset + 4 ≤ stop then
    match stream.record offset 4 with
    | .error e => Walk.failed e
    | .ok r =>
      let length := r.number .little 0 2
      if length < 2 then Walk.failed (.recordLength offset length)
      else
        Walk.cons ⟨r.number .little 2 2, offset + 4⟩ (recordsFrom stream (offset + 2 + length) stop)
  else Walk.finished
termination_by stop - offset

/-- The records of a stream between two offsets, the second cut to the size of the stream. An
offset before the stream is outside it. -/
def records (stream : Bytes) (start stop : Int) : Walk Fault Record :=
  let stop := min stop stream.size
  if start + 4 ≤ stop ∧ start < 0 then Walk.failed (.recordOutside 4 start stream.size)
  else recordsFrom stream start.toNat stop.toNat

/-! ## Public symbols -/

/-- The kind of a public symbol. -/
def publicKind : Nat := 0x110E

/-- A public symbol. -/
structure Public where
  /-- What the symbol stands for. -/
  flags : Nat
  /-- The offset in its section. -/
  offset : Nat
  /-- The number of its section from one. -/
  segment : Nat
  /-- Where its name is in the stream. -/
  nameAt : Nat
  deriving DecidableEq, Repr

/-- The public symbol of a record. -/
def publicAt (stream : Bytes) (r : Record) : Except Fault Public := do
  let p ← stream.record r.payload 10
  return ⟨p.number .little 0 4, p.number .little 4 4, p.number .little 8 2, r.payload + 10⟩

/-- Whether a public symbol is code or a function. -/
def Public.isCode (p : Public) : Bool := p.flags % 4 ≠ 0

/-! ## Procedures -/

/-- The kinds of procedures: local and global, with and without a type in another stream. -/
def procedureKinds : List Nat := [0x110F, 0x1110, 0x1146, 0x1147]

/-- A procedure. -/
structure Procedure where
  codeSize : Nat
  /-- The offset in its section. -/
  offset : Nat
  /-- The number of its section from one. -/
  segment : Nat
  /-- Where its name is in the stream. -/
  nameAt : Nat
  deriving DecidableEq, Repr

/-- The procedure of a record. -/
def procedureAt (stream : Bytes) (r : Record) : Except Fault Procedure := do
  let p ← stream.record r.payload 35
  return ⟨p.number .little 12 4, p.number .little 28 4, p.number .little 32 2, r.payload + 35⟩

end CrateLedger.Image.CodeView
