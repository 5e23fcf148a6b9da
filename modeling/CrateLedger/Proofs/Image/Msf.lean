import CrateLedger.Image.Msf
import CrateLedger.Proofs.Checked
import CrateLedger.Proofs.Image.Bytes

/-!
# Reassembling streams

What it means that a multi-stream file stores streams, said by where each byte is: byte `k` of
something that lies in blocks is byte `k % blockSize` of block number `k / blockSize` of its list.
The blocks may be anywhere in the file and in any order, and what the rest of a last block holds
does not matter. The directory lies in blocks in the same way, and its own block list stands in one
piece from a block on.

Main statement: opening such a file gives exactly the streams that it stores.
-/

namespace CrateLedger.Image.Msf

open ByteOrder

/-! ## Stored streams -/

/-- A stream and the blocks that it lies in. -/
structure Placed where
  /-- The bytes of the stream. -/
  content : List UInt8
  /-- The numbers of its blocks, in order. -/
  blocks : List Nat

/-- A stream of a file. One that does not exist keeps its number and is recorded without blocks. -/
abbrev Stored := Option Placed

namespace Stored

/-- The bytes of a stream; one that does not exist has none. -/
def content (s : Stored) : List UInt8 := (s.map Placed.content).getD []

/-- The blocks of a stream. -/
def blocks (s : Stored) : List Nat := (s.map Placed.blocks).getD []

/-- The size that the directory records for a stream. -/
def recordedSize : Stored → Nat
  | none => nilSize
  | some s => s.content.length

end Stored

/-- The words of the directory: the number of streams, their sizes, and the block lists of all of
them one after the other. -/
def directoryWords (streams : List Stored) : List Nat :=
  streams.length :: streams.map Stored.recordedSize ++ streams.flatMap Stored.blocks

/-- The bytes of the directory. -/
def directory (streams : List Stored) : List UInt8 := wordBytes (directoryWords streams)

/-- Some bytes lie in blocks of a file. The list has as many blocks as are needed, all of them
blocks of the file, and byte `k` is where the block size puts it. -/
structure Blocks.Holds (b : Blocks) (s : Placed) : Prop where
  /-- The blocks are enough. -/
  enough : s.content.length ≤ s.blocks.length * b.blockSize
  /-- One block fewer would not be. -/
  least : s.blocks.length * b.blockSize < s.content.length + b.blockSize
  /-- All of them are blocks of the file. -/
  inRange : ∀ n ∈ s.blocks, n < b.blockCount
  /-- Each byte is in its place. -/
  placed : ∀ k, k < s.content.length →
    (s.blocks[k / b.blockSize]?).bind (fun n => b.data[n * b.blockSize + k % b.blockSize]?)
      = s.content[k]?

/-- A file of whole blocks that stores streams. -/
structure Stores (data : Bytes) (blockSize blockCount mapBlock : Nat) (directoryBlocks : List Nat)
    (streams : List Stored) : Prop where
  /-- The file starts with the magic of the format. -/
  magic : StandsAt data 0 Msf.magic
  /-- The header follows; two of its words are not looked at. -/
  header : ∃ freeMap reserved, StandsAt data Msf.magic.length (wordBytes
    [blockSize, freeMap, blockCount, (directory streams).length, reserved, mapBlock])
  /-- The numbers in the header fit their fields. -/
  fits : blockCount < 2 ^ 32 ∧ (directory streams).length < 2 ^ 32
  /-- The block size is one of those that the format allows. -/
  blockSize_mem : blockSize ∈ [512, 1024, 2048, 4096]
  /-- The file is made of whole blocks. -/
  whole : data.size = blockCount * blockSize
  /-- The list of the blocks of the directory starts in a block of the file. -/
  mapBlock_lt : mapBlock < blockCount
  /-- The list of the blocks of the directory stands there in one piece. -/
  map : StandsAt data (mapBlock * blockSize) (wordBytes directoryBlocks)
  /-- The directory lies in these blocks. -/
  directory : Blocks.Holds ⟨data, blockSize, blockCount⟩ ⟨directory streams, directoryBlocks⟩
  /-- Each stream lies in its blocks and is shorter than the size that stands for none. -/
  streams : ∀ s ∈ streams, ∀ p, s = some p →
    p.content.length < nilSize ∧ Blocks.Holds ⟨data, blockSize, blockCount⟩ p

/-! ## Blocks -/

namespace Blocks

variable {b : Blocks} {s : Placed}

/-- A number of blocks that is enough and not too large is only possible for blocks of some size. -/
theorem size_pos {length count size : Nat} (henough : length ≤ count * size)
    (hleast : count * size < length + size) : 0 < size := by
  refine Nat.pos_of_ne_zero ?_
  rintro rfl
  omega

theorem Holds.countFor (h : b.Holds s) : b.countFor s.content.length = s.blocks.length := by
  have henough := h.enough
  have hleast := h.least
  have hpos := size_pos henough hleast
  unfold Blocks.countFor
  apply Nat.div_eq_of_lt_le
  · omega
  · rw [Nat.succ_mul]
    omega

section Whole

variable (hwhole : b.data.size = b.blockCount * b.blockSize)

include hwhole

/-- Every block of a file of whole blocks ends inside the file. -/
theorem end_le {n : Nat} (hn : n < b.blockCount) :
    n * b.blockSize + b.blockSize ≤ b.data.size := by
  rw [hwhole, ← Nat.succ_mul]
  exact Nat.mul_le_mul_right _ hn

theorem offset_of_lt {n : Nat} (hn : n < b.blockCount) : b.offset n = .ok (n * b.blockSize) := by
  have hend := end_le hwhole hn
  have hin : ¬ (b.blockCount ≤ n ∨ b.data.size < n * b.blockSize + b.blockSize) := by omega
  simp only [Blocks.offset]
  rw [if_neg hin]

theorem block_of_lt {n : Nat} (hn : n < b.blockCount) :
    b.block n = .ok (b.data.slice (n * b.blockSize) b.blockSize).toList := by
  simp only [Blocks.block, offset_of_lt hwhole hn]
  rfl

theorem mapM_block {blocks : List Nat} (hn : ∀ n ∈ blocks, n < b.blockCount) :
    blocks.mapM b.block
      = .ok (blocks.map fun n => (b.data.slice (n * b.blockSize) b.blockSize).toList) := by
  refine mapM_eq_ok.2 (List.forall₂_map_right_iff.2 (List.forall₂_same.2 ?_))
  exact fun n hmem => block_of_lt hwhole (hn n hmem)

end Whole

/-- In a row of pieces of one size, an index leads to a piece and an index inside it. -/
theorem getElem?_flatMap_of_length {α β : Type} {f : α → List β} {size : Nat} (hsize : 0 < size)
    {xs : List α} (hf : ∀ x ∈ xs, (f x).length = size) (k : Nat) :
    (xs.flatMap f)[k]? = (xs[k / size]?).bind fun x => (f x)[k % size]? := by
  induction xs generalizing k with
  | nil => simp
  | cons x xs ih =>
    have hx : (f x).length = size := hf x List.mem_cons_self
    rw [List.flatMap_cons]
    by_cases hk : k < size
    · rw [List.getElem?_append_left (by omega), Nat.div_eq_of_lt hk, Nat.mod_eq_of_lt hk]
      rfl
    · obtain ⟨j, rfl⟩ : ∃ j, k = j + size := ⟨k - size, by omega⟩
      rw [List.getElem?_append_right (by omega), hx, Nat.add_sub_cancel,
        ih fun y hy => hf y (List.mem_cons_of_mem _ hy), Nat.add_div_right _ hsize,
        Nat.add_mod_right, List.getElem?_cons_succ]

/-- What lies in blocks is put together from them. -/
theorem Holds.join (h : b.Holds s) (hwhole : b.data.size = b.blockCount * b.blockSize) :
    b.join s.blocks s.content.length = .ok s.content.toArray := by
  have hread := mapM_block hwhole h.inRange
  have hlength : ∀ n ∈ s.blocks,
      (b.data.slice (n * b.blockSize) b.blockSize).toList.length = b.blockSize := by
    intro n hn
    have hend := end_le hwhole (h.inRange n hn)
    simp only [Bytes.slice, Array.length_toList, Array.size_extract]
    omega
  have hcut : ((s.blocks.map fun n =>
      (b.data.slice (n * b.blockSize) b.blockSize).toList).flatten.take s.content.length)
        = s.content := by
    apply List.ext_getElem?
    intro k
    by_cases hk : k < s.content.length
    · have hpos := size_pos h.enough h.least
      rw [List.getElem?_take_of_lt hk, ← List.flatMap_def,
        getElem?_flatMap_of_length hpos hlength, ← h.placed k hk]
      -- Inside a block the byte of the block is the byte of the file.
      congr 1
      funext n
      have hmod := Nat.mod_lt k hpos
      rw [Bytes.slice, Array.getElem?_toList, Array.getElem?_extract]
      split
      · rfl
      · rw [Array.getElem?_eq_none]
        omega
    · rw [List.getElem?_eq_none (by simp; omega), List.getElem?_eq_none (by omega)]
  simp only [Blocks.join, hread, bind, Except.bind, pure, Except.pure, hcut]

end Blocks

/-! ## The directory -/

variable {b : Blocks} {streams : List Stored}

/-- Where a stream is, as the directory says it. -/
def Stored.extent : Stored → Extent
  | none => ⟨0, []⟩
  | some s => ⟨s.content.length, s.blocks⟩

theorem words_of_standsAt {data : Bytes} {offset : Nat} {table : List Nat}
    (hfit : ∀ w ∈ table, w < 2 ^ 32) (h : StandsAt data offset (wordBytes table))
    (hp : offset ≤ data.size) : words data offset 4 table.length = .ok table := by
  have hrecord := Bytes.record_of_standsAt h hp
  rw [length_wordBytes] at hrecord
  simp only [words, hrecord, bind, Except.bind, pure, Except.pure]
  rw [Bytes.numbers_of_wordBytes hfit]

/-- The block lists that stand in the directory from an offset on are read, each with the size of
its stream. -/
theorem extents_of_standsAt {dir : Bytes} {offset : Nat}
    (hstreams : ∀ s ∈ streams, ∀ p, s = some p → p.content.length < nilSize ∧ b.Holds p)
    (hcount : b.blockCount < 2 ^ 32)
    (h : StandsAt dir offset (wordBytes (streams.flatMap Stored.blocks)))
    (hp : offset ≤ dir.size) :
    extents b dir offset (streams.map Stored.recordedSize) = .ok (streams.map Stored.extent) := by
  induction streams generalizing offset with
  | nil => rfl
  | cons s rest ih =>
    have hrest : ∀ t ∈ rest, ∀ p, t = some p → p.content.length < nilSize ∧ b.Holds p :=
      fun t ht => hstreams t (List.mem_cons_of_mem _ ht)
    cases s with
    | none =>
      -- A stream that does not exist takes no room in the block lists.
      have hnext := ih hrest h hp
      simp only [List.map_cons, extents, Stored.recordedSize, if_true, hnext, bind, Except.bind,
        pure, Except.pure, Stored.extent]
    | some p =>
      obtain ⟨hshort, hholds⟩ := hstreams (some p) List.mem_cons_self p rfl
      have hsplit : (some p :: rest).flatMap Stored.blocks
          = p.blocks ++ rest.flatMap Stored.blocks := rfl
      rw [hsplit, wordBytes_append] at h
      have hfit : ∀ n ∈ p.blocks, n < 2 ^ 32 := fun n hn => (hholds.inRange n hn).trans hcount
      have hlist : words dir offset 4 p.blocks.length = .ok p.blocks :=
        words_of_standsAt hfit h.left hp
      have hplace := h.right
      have hend := h.left.le_size hp
      rw [length_wordBytes] at hplace hend
      have hnext := ih hrest hplace hend
      have hsize : (Stored.recordedSize (some p) = nilSize) = False := by
        simp only [Stored.recordedSize, eq_iff_iff, iff_false]
        omega
      simp only [List.map_cons, extents, hsize, if_false]
      simp only [Stored.recordedSize, hholds.countFor, hlist, hnext, bind, Except.bind, pure,
        Except.pure, Stored.extent]

/-- All words of the directory fit their fields. -/
theorem directoryWords_lt
    (hstreams : ∀ s ∈ streams, ∀ p, s = some p → p.content.length < nilSize ∧ b.Holds p)
    (hcount : b.blockCount < 2 ^ 32) (hlength : (directory streams).length < 2 ^ 32) :
    ∀ w ∈ directoryWords streams, w < 2 ^ 32 := by
  intro w hw
  rw [directoryWords, List.cons_append, List.mem_cons, List.mem_append] at hw
  rcases hw with rfl | hw | hw
  · rw [directory, length_wordBytes, directoryWords, List.cons_append, List.length_cons,
      List.length_append, List.length_map] at hlength
    omega
  · obtain ⟨s, hs, rfl⟩ := List.mem_map.1 hw
    cases s with
    | none => decide
    | some p =>
      have hshort := (hstreams (some p) hs p rfl).1
      have hnil : nilSize < 2 ^ 32 := by decide
      exact hshort.trans hnil
  · obtain ⟨s, hs, hw⟩ := List.mem_flatMap.1 hw
    cases s with
    | none => cases hw
    | some p => exact ((hstreams (some p) hs p rfl).2.inRange w hw).trans hcount

/-! ## Files -/

variable {data : Bytes} {blockSize blockCount mapBlock : Nat} {directoryBlocks : List Nat}

/-- A word of the header. -/
theorem header_word (h : Stores data blockSize blockCount mapBlock directoryBlocks streams) :
    ∃ header : Bytes, data.record Msf.magic.length 24 = .ok header ∧
      header.number .little (4 * 0) 4 = blockSize ∧ header.number .little (4 * 2) 4 = blockCount ∧
      header.number .little (4 * 3) 4 = (directory streams).length ∧
      header.number .little (4 * 5) 4 = mapBlock := by
  obtain ⟨freeMap, reserved, hheader⟩ := h.header
  set table := [blockSize, freeMap, blockCount, (directory streams).length, reserved, mapBlock]
    with htable
  have hsize : blockSize < 2 ^ 32 := by
    have hmem := h.blockSize_mem
    simp only [List.mem_cons, List.not_mem_nil, or_false] at hmem
    omega
  have hmap : mapBlock < 2 ^ 32 := h.mapBlock_lt.trans h.fits.1
  have hstart : Msf.magic.length ≤ data.size := by
    have := h.magic.le_size (Nat.zero_le _)
    omega
  have hrecord := Bytes.record_of_standsAt hheader hstart
  have hstands : StandsAt (wordBytes table).toArray 0 (wordBytes table) := by
    simpa using standsAt_toArray (wordBytes table) []
  refine ⟨(wordBytes table).toArray, by simpa [htable] using hrecord, ?_, ?_, ?_, ?_⟩
  · simpa [htable] using Bytes.number_of_wordBytes hstands (i := 0) (by simp [htable]) hsize
  · simpa [htable] using Bytes.number_of_wordBytes hstands (i := 2) (by simp [htable]) h.fits.1
  · simpa [htable] using Bytes.number_of_wordBytes hstands (i := 3) (by simp [htable]) h.fits.2
  · simpa [htable] using Bytes.number_of_wordBytes hstands (i := 5) (by simp [htable]) hmap

/-- The directory of a file is what the format writes into it. -/
theorem extents_directory (h : Stores data blockSize blockCount mapBlock directoryBlocks streams) :
    let dir : Bytes := (directory streams).toArray
    (∃ first : Bytes, dir.record 0 4 = .ok first ∧
      first.number .little 0 4 = streams.length) ∧
    words dir 4 4 streams.length = .ok (streams.map Stored.recordedSize) ∧
    extents ⟨data, blockSize, blockCount⟩ dir (4 + 4 * streams.length)
      (streams.map Stored.recordedSize) = .ok (streams.map Stored.extent) := by
  intro dir
  have hfit := directoryWords_lt h.streams h.fits.1 h.fits.2
  have hstands : StandsAt dir 0 (wordBytes (directoryWords streams)) := by
    simpa [dir, directory] using standsAt_toArray (directory streams) []
  have hwords : wordBytes (directoryWords streams) = littleEndian 4 streams.length
      ++ (wordBytes (streams.map Stored.recordedSize)
        ++ wordBytes (streams.flatMap Stored.blocks)) := by
    rw [← wordBytes_append]
    rfl
  rw [hwords] at hstands
  have hsizes := hstands.right.left
  have hlists := hstands.right.right
  have hend := hstands.left.le_size (Nat.zero_le _)
  have hend2 := hsizes.le_size hend
  rw [length_littleEndian, Nat.zero_add] at hsizes hlists hend hend2
  rw [length_wordBytes, List.length_map] at hlists hend2
  have hcount : streams.length < 2 ^ 32 := hfit _ List.mem_cons_self
  refine ⟨⟨(littleEndian 4 streams.length).toArray, ?_, ?_⟩, ?_, ?_⟩
  · simpa using Bytes.record_of_standsAt hstands.left (Nat.zero_le _)
  · exact Bytes.number_of_standsAt (by simpa using standsAt_toArray (littleEndian 4 _) [])
      (by simpa using hcount)
  · have hmem : ∀ w ∈ streams.map Stored.recordedSize, w < 2 ^ 32 := fun w hw =>
      hfit w (List.mem_append_left _ (List.mem_cons_of_mem _ hw))
    simpa using words_of_standsAt hmem hsizes hend
  · exact extents_of_standsAt h.streams h.fits.1 hlists hend2

/-- Opening a file that stores streams finds where they are. -/
theorem File.open_eq (h : Stores data blockSize blockCount mapBlock directoryBlocks streams) :
    File.open data = .ok ⟨⟨data, blockSize, blockCount⟩, streams.map Stored.extent⟩ := by
  obtain ⟨header, hrecord, hsize, hcount, hdirectory, hmap⟩ := header_word h
  obtain ⟨⟨first, hfirst, hnumber⟩, hsizes, hextents⟩ := extents_directory h
  set b : Blocks := ⟨data, blockSize, blockCount⟩ with hb
  have hallowed : ¬ b.blockSize ∉ blockSizes := not_not.2 h.blockSize_mem
  have hmapEnd : mapBlock * blockSize + blockSize ≤ data.size :=
    Blocks.end_le (b := b) h.whole h.mapBlock_lt
  have hoffset : b.offset mapBlock = .ok (mapBlock * blockSize) :=
    Blocks.offset_of_lt h.whole h.mapBlock_lt
  have hblocks : words data (mapBlock * blockSize : Nat) 4 (b.countFor (directory streams).length)
      = .ok directoryBlocks := by
    rw [h.directory.countFor]
    refine words_of_standsAt (fun n hn => ?_) h.map (by omega)
    exact (h.directory.inRange n hn).trans h.fits.1
  have hjoin : b.join directoryBlocks (directory streams).length
      = .ok (directory streams).toArray := h.directory.join h.whole
  unfold File.open
  simp only [hrecord, hsize, hcount, hdirectory, hmap, bind, Except.bind, pure, Except.pure]
  rw [← hb, if_neg hallowed]
  simp only [hoffset, hblocks, hjoin]
  simp only [hfirst, hnumber, hsizes, hextents]

/-- A stream of an opened file is put together again; one that does not exist is empty. -/
theorem stream_of_stored (h : Stores data blockSize blockCount mapBlock directoryBlocks streams)
    {s : Stored} (hs : s ∈ streams) :
    Blocks.join ⟨data, blockSize, blockCount⟩ s.extent.blocks s.extent.size
      = .ok s.content.toArray := by
  cases s with
  | none => rfl
  | some p => exact (h.streams (some p) hs p rfl).2.join h.whole

theorem File.stream_eq (h : Stores data blockSize blockCount mapBlock directoryBlocks streams)
    {i : Nat} {s : Stored} (hs : streams[i]? = some s) :
    File.stream ⟨⟨data, blockSize, blockCount⟩, streams.map Stored.extent⟩ i
      = .ok s.content.toArray := by
  have hfound : (streams.map Stored.extent)[i]? = some s.extent := by
    rw [List.getElem?_map, hs]
    rfl
  have hnonneg : ¬ (i : Int) < 0 := by omega
  simp only [File.stream, hnonneg, if_false, Int.toNat_natCast, hfound]
  exact stream_of_stored h (List.mem_of_getElem? hs)

/-- Opening a file that stores streams succeeds and gives as many streams as are stored, each with
exactly its bytes; a number that is none of theirs is refused. -/
theorem reassembled (h : Stores data blockSize blockCount mapBlock directoryBlocks streams) :
    ∃ f, File.open data = .ok f ∧ f.streams.length = streams.length ∧
      (∀ (i : Nat) (hi : i < streams.length), f.stream i = .ok streams[i].content.toArray) ∧
      ∀ i : Int, i < 0 ∨ streams.length ≤ i → f.stream i = .error (.streamMissing i) := by
  refine ⟨_, File.open_eq h, by simp, ?_, ?_⟩
  · intro i hi
    have hfound : (streams.map Stored.extent)[i]? = some streams[i].extent := by
      rw [List.getElem?_map, List.getElem?_eq_getElem hi]
      rfl
    have hnonneg : ¬ (i : Int) < 0 := by omega
    simp only [File.stream, hnonneg, if_false, Int.toNat_natCast, hfound]
    exact stream_of_stored h (List.getElem_mem hi)
  · intro i hi
    have hnone : (if i < 0 then none else (streams.map Stored.extent)[i.toNat]?) = none := by
      by_cases hneg : i < 0
      · rw [if_pos hneg]
      · rw [if_neg hneg, List.getElem?_eq_none]
        rw [List.length_map]
        omega
    simp only [File.stream, hnone]

/-- There are just enough blocks in a list, and each starts with its share of the bytes. -/
def Blocks.HasShares (b : Blocks) (s : Placed) : Prop :=
  s.content.length ≤ s.blocks.length * b.blockSize ∧
    s.blocks.length * b.blockSize < s.content.length + b.blockSize ∧
    (∀ n ∈ s.blocks, n < b.blockCount) ∧
    ∀ x ∈ s.blocks.zipIdx,
      StandsAt b.data (x.1 * b.blockSize) ((s.content.drop (x.2 * b.blockSize)).take b.blockSize)

instance (b : Blocks) (s : Placed) : Decidable (b.HasShares s) :=
  inferInstanceAs (Decidable (_ ∧ _))

/-- Bytes lie in blocks if each block of the list starts with its share of them. -/
theorem Blocks.HasShares.holds {s : Placed} (h : b.HasShares s) : b.Holds s := by
  obtain ⟨enough, least, inRange, shares⟩ := h
  refine ⟨enough, least, inRange, fun k hk => ?_⟩
  have hpos := size_pos enough least
  have hblock : k / b.blockSize < s.blocks.length := by
    rw [Nat.div_lt_iff_lt_mul hpos]
    omega
  have hmod := Nat.mod_lt k hpos
  have hmem : (s.blocks[k / b.blockSize], k / b.blockSize) ∈ s.blocks.zipIdx := by
    rw [List.mk_mem_zipIdx_iff_getElem?, List.getElem?_eq_getElem hblock]
  have hsplit : k / b.blockSize * b.blockSize + k % b.blockSize = k := by
    rw [Nat.mul_comm]
    exact Nat.div_add_mod k b.blockSize
  have hshare := (shares _ hmem).getElem? (i := k % b.blockSize) (by simp; omega)
  rw [List.getElem?_eq_getElem hblock, Option.bind_some, hshare,
    List.getElem?_take_of_lt hmod, List.getElem?_drop, hsplit]

theorem Blocks.holds_of_shares {streams : List Stored}
    (h : ∀ s ∈ streams, ∀ p ∈ s, p.content.length < nilSize ∧ b.HasShares p) :
    ∀ s ∈ streams, ∀ p, s = some p → p.content.length < nilSize ∧ b.Holds p :=
  fun s hs p hp => (h s hs p hp).imp_right HasShares.holds

/-- A stream of two blocks that do not follow one another, the second of which is not full, one that
does not exist, and an empty one. -/
def sampleStreams : List Stored := [some ⟨List.replicate 513 7, [4, 2]⟩, none, some ⟨[], []⟩]

/-- A block of 512 bytes that starts with some bytes. -/
def filled (start : List UInt8) (fill : UInt8) : List UInt8 :=
  start ++ List.replicate (512 - start.length) fill

/-- A file of five blocks that stores the sample streams. -/
def sampleFile : Bytes :=
  (filled (Msf.magic ++ wordBytes [512, 1, 5, 24, 0, 1]) 0 ++ filled (wordBytes [3]) 0
    ++ filled [7] 9 ++ filled (directory sampleStreams) 0 ++ filled [] 7).toArray

theorem sampleFile_stores : Stores sampleFile 512 5 1 [3] sampleStreams where
  magic := by decide +kernel
  header := ⟨1, 0, by decide +kernel⟩
  fits := by decide +kernel
  blockSize_mem := by decide
  whole := by decide +kernel
  mapBlock_lt := by decide
  map := by decide +kernel
  directory := Blocks.HasShares.holds (by decide +kernel)
  streams := Blocks.holds_of_shares (by decide +kernel)

theorem sampleFile_reassembled :
    Stores sampleFile 512 5 1 [3] sampleStreams ∧ ∃ f, File.open sampleFile = .ok f ∧
      f.streams.length = 3 ∧ f.stream 0 = .ok (List.replicate 513 7).toArray ∧
      f.stream 1 = .ok #[] ∧ f.stream (-1) = .error (.streamMissing (-1)) ∧
      f.stream 3 = .error (.streamMissing 3) := by
  obtain ⟨f, hopen, hlength, hstreams, houtside⟩ := reassembled sampleFile_stores
  exact ⟨sampleFile_stores, f, hopen, hlength, hstreams 0 (by decide), hstreams 1 (by decide),
    houtside (-1) (by decide), houtside 3 (by decide)⟩

end CrateLedger.Image.Msf
