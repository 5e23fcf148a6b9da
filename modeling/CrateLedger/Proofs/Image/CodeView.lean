import CrateLedger.Image.CodeView
import CrateLedger.Proofs.Image.Table

/-!
# Streams of symbol records

Symbol records of any kinds, the bytes that they are in a stream, and that walking over a stream
meets each of them and reads what it says. Fields that nothing looks at may hold anything, and so
may the bytes behind the name of a symbol.
-/

namespace CrateLedger.Image.CodeView

open Bytes ByteOrder

/-! ## Records -/

/-- The bytes of a record of a kind. Its length counts the kind and the content but not itself. -/
def recordBytes (kind : Nat) (content : List UInt8) : List UInt8 :=
  little.encodeAll [(2, content.length + 2), (2, kind)] ++ content

@[simp] theorem length_recordBytes (kind : Nat) (content : List UInt8) :
    (recordBytes kind content).length = content.length + 4 := by
  rw [recordBytes, List.length_append, length_encodeAll]
  simp only [List.map_cons, List.map_nil, List.sum_cons, List.sum_nil]
  omega

/-- A procedure. -/
structure ProcedureSymbol where
  /-- Twelve bytes that are not looked at. -/
  links : Nat
  codeSize : UInt32
  /-- Twelve bytes that are not looked at. -/
  debug : Nat
  /-- The offset in its section. -/
  offset : UInt32
  /-- The number of its section. -/
  segment : UInt16
  /-- A byte that is not looked at. -/
  flags : UInt8
  /-- The bytes of its name, without NUL. -/
  name : List UInt8
  /-- What follows the name. -/
  rest : List UInt8
  zero_notMem : 0 ∉ name

/-- A public symbol. -/
structure PublicSymbol where
  /-- What the symbol stands for. -/
  flags : UInt32
  /-- The offset in its section. -/
  offset : UInt32
  /-- The number of its section. -/
  segment : UInt16
  /-- The bytes of its name, without NUL. -/
  name : List UInt8
  /-- What follows the name. -/
  rest : List UInt8
  zero_notMem : 0 ∉ name

theorem publicKind_notMem : publicKind ∉ procedureKinds := by decide

/-- A symbol record. -/
inductive Symbol where
  | procedure (kind : Nat) (h : kind ∈ procedureKinds) (p : ProcedureSymbol)
  | publicSymbol (p : PublicSymbol)
  /-- A record of any other kind. -/
  | other (kind : UInt16) (h : kind.toNat ∉ publicKind :: procedureKinds) (content : List UInt8)

namespace Symbol

/-- The number that says what a record is. -/
def kind : Symbol → Nat
  | procedure kind _ _ => kind
  | publicSymbol _ => publicKind
  | other kind _ _ => kind.toNat

/-- What a record holds behind its kind. -/
def payload : Symbol → List UInt8
  | procedure _ _ p => little.encodeAll [(12, p.links), (4, p.codeSize.toNat), (12, p.debug),
      (4, p.offset.toNat), (2, p.segment.toNat), (1, p.flags.toNat)] ++ (p.name ++ 0 :: p.rest)
  | publicSymbol p => little.encodeAll [(4, p.flags.toNat), (4, p.offset.toNat),
      (2, p.segment.toNat)] ++ (p.name ++ 0 :: p.rest)
  | other _ _ content => content

/-- A record. Its length does not count itself. -/
def bytes (s : Symbol) : List UInt8 :=
  little.encodeAll [(2, s.payload.length + 2), (2, s.kind)] ++ s.payload

/-- The length of a record fits its field. -/
def Fits (s : Symbol) : Prop := s.payload.length + 2 < 2 ^ 16

instance (s : Symbol) : Decidable s.Fits := inferInstanceAs (Decidable (_ < _))

theorem kind_lt (s : Symbol) : s.kind < 2 ^ 16 := by
  cases s with
  | procedure kind h p =>
    have hall : ∀ k ∈ procedureKinds, k < 2 ^ 16 := by decide
    exact hall kind h
  | publicSymbol p => show publicKind < 2 ^ 16; decide
  | other kind h content => exact kind.toNat_lt

theorem bytes_eq (s : Symbol) : s.bytes = recordBytes s.kind s.payload := rfl

theorem length_bytes (s : Symbol) : s.bytes.length = s.payload.length + 4 :=
  length_recordBytes s.kind s.payload

end Symbol

/-! ## Streams -/

variable {stream : Bytes} {offset stop : Nat}

/-- The number in the length field of a header. -/
def lengthAt (stream : Bytes) (offset : Nat) : Nat := stream.number .little offset 2

/-- The number in the kind field of a header. -/
def kindAt (stream : Bytes) (offset : Nat) : Nat := stream.number .little (offset + 2) 2

/-- All that a walk inside a stream does at an offset. -/
theorem recordsFrom_step (hstop : stop ≤ stream.size) : recordsFrom stream offset stop =
    if offset + 4 ≤ stop then
      if lengthAt stream offset < 2 then
        Walk.failed (.recordLength offset (lengthAt stream offset))
      else
        Walk.cons ⟨kindAt stream offset, offset + 4⟩
          (recordsFrom stream (offset + 2 + lengthAt stream offset) stop)
    else Walk.finished := by
  rw [recordsFrom]
  by_cases hinside : offset + 4 ≤ stop
  · have hlength : (stream.slice offset 4).number .little 0 2 = lengthAt stream offset :=
      number_slice .little (by decide)
    have hkind : (stream.slice offset 4).number .little 2 2 = kindAt stream offset :=
      number_slice .little (by decide)
    rw [if_pos hinside, if_pos hinside, record_eq (by omega)]
    simp only [hlength, hkind]
  · rw [if_neg hinside, if_neg hinside]

/-- A record that stands in a stream is met, and the walk goes on behind it. -/
theorem recordsFrom_recordBytes {kind : Nat} {content : List UInt8}
    (h : StandsAt stream offset (recordBytes kind content)) (hkind : kind < 2 ^ 16)
    (hfits : content.length + 2 < 2 ^ 16) (hinside : offset + 4 ≤ stop)
    (hstop : stop ≤ stream.size) :
    recordsFrom stream offset stop = Walk.cons ⟨kind, offset + 4⟩
      (recordsFrom stream (offset + (recordBytes kind content).length) stop) := by
  have hlengthAt : lengthAt stream offset = content.length + 2 :=
    number_of_encodeAll h.left (i := 0) (by simp) hfits
  have hkindAt : kindAt stream offset = kind :=
    number_of_encodeAll h.left (i := 1) (by simp) hkind
  -- The length field counts the kind but not itself, so the next record is right behind this one.
  have hnext : offset + 2 + (content.length + 2) = offset + (recordBytes kind content).length := by
    rw [length_recordBytes]
    omega
  rw [recordsFrom_step hstop, if_pos hinside, hlengthAt, hkindAt, if_neg (by omega), hnext]

/-- What was met in a stream is a record, and its payload is there. -/
def Describes (stream : Bytes) (found : Record) (s : Symbol) : Prop :=
  found.kind = s.kind ∧ StandsAt stream found.payload s.payload

/-- Records that stand one behind the other are all met. -/
theorem recordsFrom_of_standsAt {ss : List Symbol} (hfits : ∀ s ∈ ss, s.Fits)
    (h : StandsAt stream offset (ss.flatMap Symbol.bytes)) :
    ∃ items, recordsFrom stream offset (offset + (ss.flatMap Symbol.bytes).length)
      = ⟨items, none⟩ ∧ List.Forall₂ (Describes stream) items ss := by
  induction ss generalizing offset with
  | nil =>
    refine ⟨[], ?_, .nil⟩
    rw [recordsFrom, if_neg (by simp)]
    rfl
  | cons s ss ih =>
    rw [List.flatMap_cons] at h ⊢
    have hlength := s.length_bytes
    have hfirst := h.left
    have hend := h.end_le (by rw [List.length_append]; omega)
    have hpayload : StandsAt stream (offset + 4) s.payload := by
      simpa using hfirst.right
    obtain ⟨items, hitems, hall⟩ := ih (fun t ht => hfits t (List.mem_cons_of_mem _ ht)) h.right
    refine ⟨⟨s.kind, offset + 4⟩ :: items, ?_, .cons ⟨rfl, hpayload⟩ hall⟩
    rw [List.length_append] at hend ⊢
    have hwalk := recordsFrom_recordBytes hfirst s.kind_lt (hfits s List.mem_cons_self)
      (by omega) hend
    rw [Nat.add_assoc] at hitems
    rw [hwalk, ← Symbol.bytes_eq, hitems]
    rfl

/-- The walk over a stream from an offset to the end of the records that stand there. -/
theorem records_of_standsAt {ss : List Symbol} (hfits : ∀ s ∈ ss, s.Fits)
    (h : StandsAt stream offset (ss.flatMap Symbol.bytes)) (hoffset : offset ≤ stream.size) :
    ∃ items, records stream offset (offset + (ss.flatMap Symbol.bytes).length : Nat)
      = ⟨items, none⟩ ∧ List.Forall₂ (Describes stream) items ss := by
  have hend := h.le_size hoffset
  have hstop : min ((offset + (ss.flatMap Symbol.bytes).length : Nat) : Int) stream.size
      = (offset + (ss.flatMap Symbol.bytes).length : Nat) := by omega
  have hnonneg : ¬ ((offset : Int) + 4 ≤ (offset + (ss.flatMap Symbol.bytes).length : Nat)
      ∧ (offset : Int) < 0) := by omega
  simp only [records, hstop]
  rw [if_neg hnonneg, Int.toNat_natCast, Int.toNat_natCast]
  exact recordsFrom_of_standsAt hfits h

/-! ## Symbols -/

variable {r : Record}

/-- A procedure is read, and so is its name. -/
theorem procedureAt_eq {kind : Nat} {h : kind ∈ procedureKinds} {p : ProcedureSymbol}
    (hr : Describes stream r (.procedure kind h p)) :
    procedureAt stream r = .ok ⟨p.codeSize.toNat, p.offset.toNat, p.segment.toNat,
      r.payload + 35⟩ ∧ stream.name (r.payload + 35 : Nat) none
        = .ok (Utf8.decodeTolerant p.name) := by
  have hfields := hr.2.left
  have hname : StandsAt stream (r.payload + 35) (p.name ++ 0 :: p.rest) := by
    simpa using hr.2.right
  have hinside := hname.end_le (by simp)
  have hcodeSize : (stream.slice r.payload 35).number .little 12 4 = p.codeSize.toNat :=
    field_of_encodeAll 35 hfields (by simp) (i := 1) (by simp) p.codeSize.toNat_lt
  have hoffset : (stream.slice r.payload 35).number .little 28 4 = p.offset.toNat :=
    field_of_encodeAll 35 hfields (by simp) (i := 3) (by simp) p.offset.toNat_lt
  have hsegment : (stream.slice r.payload 35).number .little 32 2 = p.segment.toNat :=
    field_of_encodeAll 35 hfields (by simp) (i := 4) (by simp) p.segment.toNat_lt
  constructor
  · unfold procedureAt
    rw [record_eq (by omega)]
    simp only [bind, Except.bind, pure, Except.pure, hcodeSize, hoffset, hsegment]
  · exact name_of_terminated hname p.zero_notMem

/-- A public symbol is read, and so is its name. -/
theorem publicAt_eq {p : PublicSymbol} (hr : Describes stream r (.publicSymbol p)) :
    publicAt stream r = .ok ⟨p.flags.toNat, p.offset.toNat, p.segment.toNat, r.payload + 10⟩ ∧
      stream.name (r.payload + 10 : Nat) none = .ok (Utf8.decodeTolerant p.name) := by
  have hfields := hr.2.left
  have hname : StandsAt stream (r.payload + 10) (p.name ++ 0 :: p.rest) := by
    simpa using hr.2.right
  have hinside := hname.end_le (by simp)
  have hflags : (stream.slice r.payload 10).number .little 0 4 = p.flags.toNat :=
    field_of_encodeAll 10 hfields (by simp) (i := 0) (by simp) p.flags.toNat_lt
  have hoffset : (stream.slice r.payload 10).number .little 4 4 = p.offset.toNat :=
    field_of_encodeAll 10 hfields (by simp) (i := 1) (by simp) p.offset.toNat_lt
  have hsegment : (stream.slice r.payload 10).number .little 8 2 = p.segment.toNat :=
    field_of_encodeAll 10 hfields (by simp) (i := 2) (by simp) p.segment.toNat_lt
  constructor
  · unfold publicAt
    rw [record_eq (by omega)]
    simp only [bind, Except.bind, pure, Except.pure, hflags, hoffset, hsegment]
  · exact name_of_terminated hname p.zero_notMem

end CrateLedger.Image.CodeView
