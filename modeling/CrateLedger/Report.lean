import CrateLedger.Value

/-!
# Reports

The result of an analysis: the symbols of one section, each with its crate, and the sizes that the
container declares. Totals are never stored: the sizes of crates are computed from the symbols, so
a report cannot contradict itself. What the container declares for the section and what its symbols
account for need not agree; padding and code without symbols show as the difference.

Names are texts in the report of an analysis. A record that people wrote may have any documents in
their place. Symbols can still be counted and added up; but only scalars can name crates, and names
that have no order cannot be ranked where sizes leave a tie.
-/

namespace CrateLedger

/-- A symbol with its crate. -/
structure Symbol where
  /-- The name as the container lists it. -/
  name : Value
  /-- The name in readable form. -/
  shown : Value
  /-- The number of bytes. -/
  size : Int
  /-- Where it starts. -/
  address : Int
  /-- The label of its crate. -/
  crate : Scalar
  /-- Whether the build itself records the symbol under the crate. -/
  isExact : Bool
  deriving DecidableEq

/-- The bytes of one crate. -/
structure CrateSize where
  /-- The label of the crate. -/
  name : Scalar
  /-- The sum of the sizes of its symbols. -/
  size : Int
  /-- How many symbols it has. -/
  symbolCount : Nat
  deriving DecidableEq

/-- The result of an analysis. -/
structure Report where
  fileSize : Int
  /-- The size of the section, as declared. -/
  sectionSize : Int
  sectionName : Value
  /-- The container format. -/
  formatName : Value
  /-- Whether the crates of the standard library are kept apart, as the options say it. -/
  splitStd : Value
  symbols : List Symbol
  deriving DecidableEq

/-- The first of some items, or for a negative number all but that many from the end. -/
def takeSigned {α : Type} (xs : List α) (n : Int) : List α :=
  if 0 ≤ n then xs.take n.toNat else xs.take (xs.length - n.natAbs)

/-- Whether a relation holds between all neighbours in a list. -/
def holdsBetweenNeighbours {α : Type} (holds : α → α → Bool) : List α → Bool
  | a :: b :: rest => holds a b && holdsBetweenNeighbours holds (b :: rest)
  | _ => true

/-- Why a ratio cannot be computed: the quotient is beyond the greatest double. -/
inductive RatioError where
  | tooLarge
  deriving DecidableEq, Repr

/-- Why names cannot be used. -/
inductive NameError where
  /-- Something is grouped by a list or an object. -/
  | collection
  /-- Names that have no order would have to be ranked. -/
  | incomparable
  deriving DecidableEq, Repr

namespace Report

/-! ## Crates -/

/-- The sum of the sizes of some symbols. -/
def totalSize (symbols : List Symbol) : Int := (symbols.map Symbol.size).foldr (· + ·) 0

/-- The symbols of a crate. -/
def symbolsOf (r : Report) (crate : Scalar) : List Symbol :=
  r.symbols.filter fun s => s.crate.same crate

/-- The crates that occur, each once, as they are first spelled. -/
def crateNames (r : Report) : List Scalar := Scalar.distinct (r.symbols.map Symbol.crate)

/-- Whether a crate comes before another: the larger first, and those of one size by name. -/
def crateBefore (a b : CrateSize) : Bool :=
  b.size < a.size || (a.size = b.size && a.name.le b.name)

/-- The crates with their sizes, the largest first, those of one size by name. -/
def crates (r : Report) : List CrateSize :=
  let rows := r.crateNames.map fun c =>
    let symbols := r.symbolsOf c
    ⟨c, totalSize symbols, symbols.length⟩
  rows.mergeSort crateBefore

/-- A report whose crates can be ranked: those of one size, which come next to each other, have an
order. -/
def ranked (r : Report) : Except NameError Report :=
  if holdsBetweenNeighbours (fun a b => a.size ≠ b.size || a.name.comparable b.name) r.crates then
    .ok r
  else .error .incomparable

/-- The size of a crate, which is zero if it does not occur. -/
def crateSize (r : Report) (crate : Scalar) : Int :=
  ((r.crates.find? fun c => c.name.same crate).map CrateSize.size).getD 0

/-! ## Totals -/

/-- The bytes that the symbols account for. -/
def symbolsSize (r : Report) : Int := totalSize r.symbols

/-- The bytes of the section that no symbol accounts for; negative if symbols overlap. -/
def unaccountedSize (r : Report) : Int := r.sectionSize - r.symbolsSize

/-- The part of the bytes of symbols that is attributed exactly. Without any bytes it is zero. -/
def exactRatio (r : Report) : Except RatioError Binary64 :=
  if r.symbolsSize = 0 then .ok (Binary64.ofMagnitudeBits false 0)
  else
    match Binary64.divide? (totalSize (r.symbols.filter Symbol.isExact)) r.symbolsSize with
    | some x => .ok x
    | none => .error .tooLarge

/-! ## Rankings -/

/-- Whether a symbol comes before another in the ranking by size, then name, then address. -/
def ranksBefore (a b : Symbol) : Bool :=
  b.size < a.size
    || (a.size = b.size
      && match a.name.order? b.name with
        | some .gt => false
        | some .eq => a.address ≤ b.address
        | _ => true)

/-- The symbols in the order of the ranking, which those of one size, which come next to each other,
have to have. -/
def rankedSymbols (r : Report) : Except NameError (List Symbol) :=
  let ranking := r.symbols.mergeSort ranksBefore
  if holdsBetweenNeighbours (fun a b => a.size ≠ b.size || a.name.comparable b.name) ranking then
    .ok ranking
  else .error .incomparable

/-- The largest symbols. -/
def topSymbols (r : Report) (count : Int) : Except NameError (List Symbol) := do
  return takeSigned (← r.rankedSymbols) count

/-- The largest crates. -/
def topCrates (r : Report) (count : Int) : List CrateSize := takeSigned r.crates count

/-! ## Equality -/

/-- Whether two symbols are the same, with names compared by value. -/
def sameSymbol (a b : Symbol) : Bool :=
  a.name.same b.name && a.shown.same b.shown && a.size = b.size && a.address = b.address
    && a.crate.same b.crate && a.isExact = b.isExact

/-- Whether two reports are the same, with names compared by value. -/
def same (a b : Report) : Bool :=
  a.fileSize = b.fileSize && a.sectionSize = b.sectionSize && a.sectionName.same b.sectionName
    && a.formatName.same b.formatName && a.splitStd.same b.splitStd
    && a.symbols.length = b.symbols.length
    && (a.symbols.zip b.symbols).all fun (s, t) => sameSymbol s t

end Report

end CrateLedger
