import CrateLedger.Image.Bytes
import CrateLedger.Proofs.Placement
import CrateLedger.Proofs.Text
import Mathlib.Tactic

/-!
# Numbers and records in bytes

How numbers are written in a number of bytes, and that a record, a number and a table of numbers
that stand in a byte string are read as what was written.
-/

namespace CrateLedger

namespace Image.ByteOrder

/-! ## Writing numbers -/

/-- The bytes of a number in a width, least significant byte first. What does not fit is cut. -/
def littleEndian : (width n : Nat) → List UInt8
  | 0, _ => []
  | width + 1, n => UInt8.ofNat n :: littleEndian width (n / 256)

@[simp] theorem length_littleEndian (width n : Nat) : (littleEndian width n).length = width := by
  induction width generalizing n with
  | zero => rfl
  | succ width ih => simp [littleEndian, ih]

/-- A number that fits is read back from its bytes. -/
theorem decode_littleEndian {width n : Nat} (h : n < 256 ^ width) :
    little.decode (littleEndian width n) = n := by
  induction width generalizing n with
  | zero =>
    have : n = 0 := by simpa using h
    rw [this]
    rfl
  | succ width ih =>
    have hrest : little.decode (littleEndian width (n / 256)) = n / 256 :=
      ih (Nat.div_lt_of_lt_mul (by rwa [pow_succ'] at h))
    have hstep : little.decode (littleEndian (width + 1) n)
        = (UInt8.ofNat n).toNat + 256 * little.decode (littleEndian width (n / 256)) := rfl
    rw [hstep, hrest, UInt8.toNat_ofNat']
    exact Nat.mod_add_div n 256

/-- The bytes of a table of 32-bit words. -/
def wordBytes (words : List Nat) : List UInt8 := words.flatMap (littleEndian 4)

@[simp] theorem length_wordBytes (words : List Nat) :
    (wordBytes words).length = 4 * words.length := by
  rw [wordBytes, length_flatMap_of_length fun w _ => length_littleEndian 4 w, Nat.mul_comm]

theorem wordBytes_append (as bs : List Nat) : wordBytes (as ++ bs) = wordBytes as ++ wordBytes bs :=
  List.flatMap_append

/-- The bytes of a number in either order. -/
def encode : ByteOrder → (width n : Nat) → List UInt8
  | little, width, n => littleEndian width n
  | big, width, n => (littleEndian width n).reverse

@[simp] theorem length_encode (order : ByteOrder) (width n : Nat) :
    (order.encode width n).length = width := by
  cases order <;> simp [encode]

theorem decode_encode (order : ByteOrder) {width n : Nat} (h : n < 256 ^ width) :
    order.decode (order.encode width n) = n := by
  cases order with
  | little => exact decode_littleEndian h
  | big =>
    have hreverse : big.decode (littleEndian width n).reverse
        = little.decode (littleEndian width n) := by
      simp only [ByteOrder.decode, List.foldl_reverse]
      congr 1
      funext b n
      exact Nat.add_comm _ _
    unfold encode
    rw [hreverse, decode_littleEndian h]

/-- The bytes of numbers, each in a width of its own. -/
def encodeAll (order : ByteOrder) (fields : List (Nat × Nat)) : List UInt8 :=
  fields.flatMap fun f => order.encode f.1 f.2

@[simp] theorem length_encodeAll (order : ByteOrder) (fields : List (Nat × Nat)) :
    (order.encodeAll fields).length = (fields.map Prod.fst).sum := by
  simp only [encodeAll, List.length_flatMap, length_encode]

theorem encodeAll_split (order : ByteOrder) {fields : List (Nat × Nat)} {i : Nat}
    (hi : i < fields.length) : order.encodeAll fields = order.encodeAll (fields.take i)
      ++ (order.encode fields[i].1 fields[i].2 ++ order.encodeAll (fields.drop (i + 1))) := by
  unfold encodeAll
  rw [← List.flatMap_cons (f := fun f : Nat × Nat => order.encode f.1 f.2),
    ← List.drop_eq_getElem_cons hi, ← List.flatMap_append, List.take_append_drop]

end Image.ByteOrder

namespace Bytes

open Image Image.ByteOrder

variable {data : Bytes} {offset : Nat}

/-! ## Reading what stands in the data -/

theorem slice_of_standsAt {part : List UInt8} (h : StandsAt data offset part) :
    data.slice offset part.length = part.toArray := Array.toList_inj.1 h.extract

theorem record_of_standsAt {part : List UInt8} (h : StandsAt data offset part)
    (hp : offset ≤ data.size) : data.record offset part.length = .ok part.toArray := by
  have hle := h.le_size hp
  have hin : ¬ ((offset : Int) < 0 ∨ (data.size : Int) < (offset : Int) + (part.length : Nat)) := by
    omega
  rw [record, if_neg hin, Int.toNat_natCast, slice_of_standsAt h]

theorem number_of_encoded {order : ByteOrder} {width n : Nat}
    (h : StandsAt data offset (order.encode width n)) (hn : n < 256 ^ width) :
    data.number order offset width = n := by
  have hslice := slice_of_standsAt h
  rw [length_encode] at hslice
  rw [number, hslice, decode_encode order hn]

theorem number_of_standsAt {width n : Nat} (h : StandsAt data offset (littleEndian width n))
    (hn : n < 256 ^ width) : data.number .little offset width = n :=
  @number_of_encoded _ _ .little _ _ h hn

/-! ## Signatures -/

theorem startsWith_iff {head : List UInt8} :
    data.startsWith head = true ↔ StandsAt data 0 head := by
  constructor
  · intro h
    have heq : (data.slice 0 head.length).toList = head := of_decide_eq_true h
    rw [slice, Array.toList_extract, List.extract_eq_take_drop] at heq
    unfold StandsAt
    rw [← heq]
    exact List.take_prefix _ _
  · intro h
    rw [startsWith, slice_of_standsAt h]
    exact decide_eq_true rfl

/-- Data with another first byte starts otherwise. -/
theorem startsWith_eq_false {b c : UInt8} {head : List UInt8} (hb : data[0]? = some b)
    (hne : b ≠ c) : data.startsWith (c :: head) = false := by
  rw [Bool.eq_false_iff]
  intro hstart
  have hc := (standsAt_cons.1 (startsWith_iff.1 hstart)).1
  rw [hb, Option.some.injEq] at hc
  exact hne hc

/-! ## Fields of records -/

theorem record_eq {size : Nat} (h : offset + size ≤ data.size) :
    data.record offset size = .ok (data.slice offset size) := by
  have hin : ¬ ((offset : Int) < 0 ∨ (data.size : Int) < (offset : Int) + size) := by omega
  rw [record, if_neg hin, Int.toNat_natCast]

theorem slice_slice {length start size : Nat} (h : start + size ≤ length) :
    (data.slice offset length).slice start size = data.slice (offset + start) size := by
  unfold slice
  rw [Array.extract_extract]
  congr 1
  omega

/-- A field of a record is a field of the data. -/
theorem number_slice (order : ByteOrder) {length start width : Nat} (h : start + width ≤ length) :
    (data.slice offset length).number order start width
      = data.number order (offset + start) width := by
  unfold number
  rw [slice_slice h]

/-- A field of a record of numbers, behind the widths of those before it. -/
theorem number_of_encodeAll {order : ByteOrder} {fields : List (Nat × Nat)}
    (h : StandsAt data offset (order.encodeAll fields)) {i : Nat} (hi : i < fields.length)
    (hn : fields[i].2 < 256 ^ fields[i].1) :
    data.number order (offset + ((fields.take i).map Prod.fst).sum) fields[i].1
      = fields[i].2 := by
  rw [encodeAll_split order hi] at h
  have hplace := h.right.left
  rw [length_encodeAll] at hplace
  exact number_of_encoded hplace hn

/-- The same in a part of the data, where the numbers start behind something else. -/
theorem innerField_of_encodeAll {order : ByteOrder} {fields : List (Nat × Nat)} (length start : Nat)
    (h : StandsAt data (offset + start) (order.encodeAll fields))
    (hlength : start + (order.encodeAll fields).length ≤ length) {i : Nat} (hi : i < fields.length)
    (hn : fields[i].2 < 256 ^ fields[i].1) :
    (data.slice offset length).number order (start + ((fields.take i).map Prod.fst).sum) fields[i].1
      = fields[i].2 := by
  have hin : start + ((fields.take i).map Prod.fst).sum + fields[i].1 ≤ length := by
    rw [encodeAll_split order hi, List.length_append, List.length_append, length_encodeAll,
      length_encode] at hlength
    omega
  rw [number_slice order hin, ← Nat.add_assoc, number_of_encodeAll h hi hn]

theorem field_of_encodeAll {order : ByteOrder} {fields : List (Nat × Nat)} (length : Nat)
    (h : StandsAt data offset (order.encodeAll fields))
    (hlength : (order.encodeAll fields).length ≤ length) {i : Nat} (hi : i < fields.length)
    (hn : fields[i].2 < 256 ^ fields[i].1) :
    (data.slice offset length).number order ((fields.take i).map Prod.fst).sum fields[i].1
      = fields[i].2 := by
  have hinner := innerField_of_encodeAll length 0 h (by omega) hi hn
  rwa [Nat.zero_add] at hinner

/-- A signed field that holds no negative number. -/
theorem signedNumber_eq {order : ByteOrder} {start width n : Nat}
    (h : data.number order start width = n) (hn : n < 2 ^ (8 * width - 1)) :
    data.signedNumber order start width = n := by
  rw [signedNumber, h, signed]
  exact if_pos hn

/-- A signed field of two bytes holds a number modulo `2 ^ 16`. -/
theorem signedNumber_of_mod {order : ByteOrder} {start : Nat} {n : Int}
    (h : data.number order start 2 = (n % 2 ^ 16).toNat) (hn : -2 ^ 15 ≤ n ∧ n < 2 ^ 15) :
    data.signedNumber order start 2 = n := by
  rw [signedNumber, h, signed]
  norm_num
  split <;> omega

/-- A word of a table is the number that was written there, if that fits. -/
theorem number_of_wordBytes {words : List Nat} (h : StandsAt data offset (wordBytes words))
    {i : Nat} (hi : i < words.length) (hfit : words[i] < 2 ^ 32) :
    data.number .little (offset + 4 * i) 4 = words[i] := by
  have hword := h.getElem_flatMap (fun w _ => length_littleEndian 4 w) hi
  rw [Nat.mul_comm] at hword
  exact number_of_standsAt hword (by simpa using hfit)

/-- A table of words that is all of the data. -/
theorem numbers_of_wordBytes {words : List Nat} (hfit : ∀ w ∈ words, w < 2 ^ 32) :
    Bytes.numbers .little (wordBytes words).toArray 4 words.length = words := by
  apply List.ext_getElem
  · simp [numbers]
  · intro i h1 h2
    have hstands : StandsAt (wordBytes words).toArray 0 (wordBytes words) := by
      simpa using standsAt_toArray (wordBytes words) []
    have := number_of_wordBytes hstands h2 (hfit _ (List.getElem_mem h2))
    simpa [numbers] using this

/-! ## Names -/

/-- The bytes up to a NUL or a stop are those that stand there. -/
theorem untilNul_of_standsAt {bytes : List UInt8} {stop : Nat} (h : StandsAt data offset bytes)
    (hnul : 0 ∉ bytes) (hstop : offset + bytes.length ≤ stop)
    (hend : offset + bytes.length = stop ∨ data[offset + bytes.length]? = some 0) :
    data.untilNul offset stop = bytes := by
  induction bytes generalizing offset with
  | nil =>
    rw [List.length_nil, Nat.add_zero] at hend
    rw [untilNul]
    by_cases hin : offset < stop ∧ offset < data.size
    · rw [dif_pos hin]
      rcases hend with rfl | hzero
      · omega
      · rw [Array.getElem?_eq_getElem hin.2, Option.some.injEq] at hzero
        rw [if_pos hzero]
    · rw [dif_neg hin]
  | cons b bytes ih =>
    obtain ⟨hb, hrest⟩ := standsAt_cons.1 h
    obtain ⟨hsize, hb⟩ := Array.getElem?_eq_some_iff.1 hb
    rw [List.length_cons] at hstop hend
    have hnext : data.untilNul (offset + 1) stop = bytes := by
      apply ih hrest
      · intro hmem
        exact hnul (List.mem_cons_of_mem _ hmem)
      · omega
      · rw [Nat.add_assoc, Nat.add_comm 1]
        exact hend
    have hne : ¬ b = 0 := by
      rintro rfl
      exact hnul List.mem_cons_self
    rw [untilNul, dif_pos ⟨by omega, hsize⟩, hb, if_neg hne, hnext]

/-- A name is read that lies before the limit and is ended there or by a NUL. -/
theorem name_of_standsAt {bytes : List UInt8} {limit : Option Nat}
    (h : StandsAt data offset bytes) (hnul : 0 ∉ bytes)
    (hstop : offset + bytes.length ≤ min (limit.getD data.size) data.size)
    (hend : offset + bytes.length = min (limit.getD data.size) data.size
      ∨ data[offset + bytes.length]? = some 0) :
    data.name offset limit = .ok (Utf8.decodeTolerant bytes) := by
  have hin : ¬ ((offset : Int) < 0
      ∨ ((min (limit.getD data.size) data.size : Nat) : Int) < offset) := by omega
  simp only [name]
  rw [if_neg hin, Int.toNat_natCast, untilNul_of_standsAt h hnul hstop hend]

theorem name_of_terminated {bytes rest : List UInt8}
    (h : StandsAt data offset (bytes ++ 0 :: rest)) (hnul : 0 ∉ bytes) :
    data.name offset none = .ok (Utf8.decodeTolerant bytes) := by
  have hend := h.end_le (by simp)
  rw [List.length_append, List.length_cons] at hend
  apply name_of_standsAt h.left hnul
  · rw [Option.getD_none, Nat.min_self]
    omega
  · exact .inr (standsAt_cons.1 h.right).1

/-- The field of a size that holds a name, with NUL behind it. -/
def padded (size : Nat) (name : Text) : List UInt8 :=
  name.map (fun c => UInt8.ofNat c.val) ++ List.replicate (size - name.length) 0

@[simp] theorem length_padded {size : Nat} {name : Text} (h : name.length ≤ size) :
    (padded size name).length = size := by
  rw [padded, List.length_append, List.length_map, List.length_replicate]
  omega

/-- An ASCII name is read from its field. -/
theorem paddedName_padded {size : Nat} {name : Text} (hascii : name.isAscii = true)
    (hnul : 0 ∉ name) : paddedName (padded size name).toArray = name := by
  set bytes := name.map (fun c : CodePoint => UInt8.ofNat c.val) with hbytes
  have hbyte : ∀ c ∈ name, (UInt8.ofNat c.val).toNat = c.val ∧ c.val < 0x80 := by
    intro c hc
    have hlt : c.val < 0x80 := of_decide_eq_true (List.all_eq_true.1 hascii c hc)
    have hsize : c.val < 256 := by omega
    exact ⟨UInt8.toNat_ofNat_of_lt' hsize, hlt⟩
  have huntil : Bytes.untilNul (padded size name).toArray 0 (padded size name).toArray.size
      = bytes := by
    apply untilNul_of_standsAt
    · exact standsAt_toArray bytes _
    · intro hmem
      obtain ⟨c, hc, hzero⟩ := List.mem_map.1 hmem
      have hval : c.val = 0 := by
        rw [← (hbyte c hc).1, hzero]
        rfl
      have hzero' : c = 0 := Fin.ext hval
      exact hnul (hzero' ▸ hc)
    · simp [padded, hbytes]
    · -- A name that fills its field has no terminator, and ends with the field.
      by_cases hfull : size ≤ name.length
      · left
        simp [padded, hbytes, Nat.sub_eq_zero_of_le hfull]
      · right
        simp only [padded, List.getElem?_toArray, Nat.zero_add]
        rw [List.getElem?_append_right (by simp [hbytes]), hbytes, Nat.sub_self]
        exact List.getElem?_replicate_of_lt (by omega)
  rw [paddedName, huntil, hbytes, List.map_map]
  conv_rhs => rw [← List.map_id name]
  apply List.map_congr_left
  intro c hc
  obtain ⟨hval, hlt⟩ := hbyte c hc
  have hvalid : Nat.isValidChar c.val := Or.inl (by omega)
  simp only [Function.comp_apply, hval, hlt, if_true]
  exact Fin.ext (CodePoint.toNat_ofNat hvalid)

end Bytes

end CrateLedger
