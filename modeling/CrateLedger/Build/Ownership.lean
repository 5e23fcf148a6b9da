import CrateLedger.Value

/-!
# Who contributes which symbol

A build records many symbols of few crates. So the crates are put in order and numbered once, and
each symbol is noted with the numbers of the crates that contribute it. Crates are numbered in order
and noted one after the other, so the numbers of a symbol ascend.
-/

namespace CrateLedger

/-- The crates that contribute symbols, and which symbols come from which of them. -/
structure Ownership where
  /-- The crates in order; the place of a crate is its number. -/
  crates : List Scalar
  /-- The symbols, each once, with the numbers of their crates. -/
  numbers : List (Scalar × List Nat)
  deriving DecidableEq

namespace Ownership

/-- Notes that the crate of a number contributes a symbol. -/
def note (number : Nat) (symbol : Scalar) : List (Scalar × List Nat) → List (Scalar × List Nat)
  | [] => [(symbol, [number])]
  | (known, numbers) :: rest =>
    if known.same symbol then (known, numbers ++ [number]) :: rest
    else (known, numbers) :: note number symbol rest

/-- Notes the symbols that the crate of a number contributes. -/
def noteAll (number : Nat) (noted : List (Scalar × List Nat)) (symbols : List Scalar) :
    List (Scalar × List Nat) :=
  symbols.foldl (fun noted symbol => note number symbol noted) noted

/-- Numbers the crates that contribute symbols and notes what each of them contributes. -/
def ofSymbols (symbols : List (Scalar × List Scalar)) : Ownership :=
  let sorted := symbols.mergeSort fun a b => a.1.le b.1
  { crates := sorted.map Prod.fst
    numbers := sorted.zipIdx.foldl (fun noted (entry, number) => noteAll number noted entry.2) [] }

/-- The numbers that are noted for a symbol. -/
def numbersOf (noted : List (Scalar × List Nat)) (symbol : Scalar) : List Nat :=
  ((noted.find? fun n => n.1.same symbol).map Prod.snd).getD []

/-- The crates that contribute a symbol, in order. -/
def owners (o : Ownership) (symbol : Scalar) : List Scalar :=
  (numbersOf o.numbers symbol).filterMap fun number => o.crates[number]?

end Ownership

end CrateLedger
