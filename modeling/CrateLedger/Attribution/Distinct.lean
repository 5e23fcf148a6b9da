import CrateLedger.Image.SymbolTable

/-!
# One symbol per address

Containers list several names for an address: aliases, and functions that were folded because
their code is the same. One entry of each address is kept: the largest, among these one with a
name, and among these the one whose name comes first. Of entries that are equal in all of this the
first is kept.
-/

namespace CrateLedger.Attribution

/-- Whether an entry is kept in place of another at the same address. -/
def prefers (candidate current : RawSymbol) : Bool :=
  if candidate.size ≠ current.size then current.size < candidate.size
  else if candidate.name.isEmpty ≠ current.name.isEmpty then !candidate.name.isEmpty
  else candidate.name < current.name

/-- Keeps one entry of each run of entries with the same address, given the best so far. -/
def collapse (best : RawSymbol) : List RawSymbol → List RawSymbol
  | [] => [best]
  | e :: rest =>
    if e.address = best.address then collapse (if prefers e best then e else best) rest
    else best :: collapse e rest

/-- Keeps one entry of each address, in ascending order of addresses. -/
def deduplicate (entries : List RawSymbol) : List RawSymbol :=
  match entries.mergeSort fun a b => decide (a.address ≤ b.address) with
  | [] => []
  | e :: rest => collapse e rest

/-- The entries of the section of a table, one of each address. -/
def sectionSymbols (table : SymbolTable) : List RawSymbol :=
  deduplicate (table.entries.filter fun e => e.sectionName = table.sectionName)

end CrateLedger.Attribution
