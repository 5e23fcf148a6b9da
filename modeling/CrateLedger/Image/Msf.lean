import CrateLedger.Image.Bytes

/-!
# Multi-stream files

A multi-stream file (MSF 7.00) is a sequence of blocks of one size. Its header leads to a list of
blocks, these hold the directory, and the directory gives for each stream its size and the blocks
that hold it. A stream is the bytes of its blocks one after the other, cut to its size.

Blocks are looked at only when a stream is read: opening a file checks the directory, and a stream
with a bad block fails on its own.
-/

namespace CrateLedger.Image.Msf

/-- The bytes that a multi-stream file starts with. -/
def magic : List UInt8 :=
  "Microsoft C/C++ MSF 7.00\x0d\x0a\x1aDS\x00\x00\x00".toList.map fun c => UInt8.ofNat c.toNat

/-- The size that the directory gives for a stream that does not exist. -/
def nilSize : Nat := 0xFFFFFFFF

/-- The block sizes that the format allows. -/
def blockSizes : List Nat := [512, 1024, 2048, 4096]

/-- The blocks of a file. -/
structure Blocks where
  /-- The bytes of the file. -/
  data : Bytes
  /-- The size of each block. -/
  blockSize : Nat
  /-- How many blocks the file declares. -/
  blockCount : Nat
  deriving DecidableEq, Repr

namespace Blocks

/-- How many blocks hold a number of bytes. -/
def countFor (b : Blocks) (size : Nat) : Nat := (size + b.blockSize - 1) / b.blockSize

/-- Where a block starts. It has to be declared and wholly inside the file. -/
def offset (b : Blocks) (block : Nat) : Except Fault Nat :=
  let start := block * b.blockSize
  if b.blockCount ≤ block ∨ b.data.size < start + b.blockSize then .error (.blockOutside block)
  else .ok start

/-- The bytes of a block. -/
def block (b : Blocks) (number : Nat) : Except Fault (List UInt8) := do
  return (b.data.slice (← b.offset number) b.blockSize).toList

/-- The bytes of some blocks, cut to a size. -/
def join (b : Blocks) (blocks : List Nat) (size : Nat) : Except Fault Bytes := do
  return ((← blocks.mapM b.block).flatten.take size).toArray

end Blocks

/-- Where a stream is. -/
structure Extent where
  size : Nat
  /-- The blocks that hold it. -/
  blocks : List Nat
  deriving DecidableEq, Repr

/-- A file that has been opened. -/
structure File where
  blocks : Blocks
  streams : List Extent
  deriving DecidableEq, Repr

/-- A table of little-endian words at an offset. -/
def words (data : Bytes) (offset : Int) (width count : Nat) : Except Fault (List Nat) := do
  return (← data.record offset (width * count)).numbers .little width count

/-- Reads the block lists of streams, which follow one another in the directory. A stream that does
not exist has no list and counts as empty. -/
def extents (b : Blocks) (directory : Bytes) (offset : Nat) : List Nat → Except Fault (List Extent)
  | [] => .ok []
  | size :: sizes =>
    if size = nilSize then do
      return ⟨0, []⟩ :: (← extents b directory offset sizes)
    else do
      let count := b.countFor size
      let blocks ← words directory offset 4 count
      return ⟨size, blocks⟩ :: (← extents b directory (offset + 4 * count) sizes)

/-- Opens a file. The magic is not looked at. -/
def File.open (data : Bytes) : Except Fault File := do
  let header ← data.record magic.length 24
  let word (i : Nat) : Nat := header.number .little (4 * i) 4
  let b : Blocks := ⟨data, word 0, word 2⟩
  if b.blockSize ∉ blockSizes then throw (.blockSize b.blockSize)
  let directorySize := word 3
  let mapOffset ← b.offset (word 5)
  let directory ← b.join (← words data mapOffset 4 (b.countFor directorySize)) directorySize
  let count := (← directory.record 0 4).number .little 0 4
  let sizes ← words directory 4 4 count
  return ⟨b, ← extents b directory (4 + 4 * count) sizes⟩

/-- The bytes of a stream. -/
def File.stream (f : File) (index : Int) : Except Fault Bytes :=
  match if index < 0 then none else f.streams[index.toNat]? with
  | none => .error (.streamMissing index)
  | some s => f.blocks.join s.blocks s.size

end CrateLedger.Image.Msf
