import CrateLedger.Proofs.Image.CodeView

/-!
# Walks over symbol records

A walk over a stream of symbols goes from header to header. Records that were put one behind the
other are met as they were put there, whatever is before them, and also if a few bytes too many are
behind them. In a stream of any bytes a walk leads as far as headers are inside and long enough, and
then it ends: because there is no room for a header, or at a record that is too short to hold its
own kind.

Main statement: a walk gives back the records that a stream was made of, and every walk ends after
as many records as have room, without looking at anything behind its stop.
-/

namespace CrateLedger.Image.CodeView

open Bytes

/-! ## Records one behind the other -/

/-- What a record holds, besides the length that follows from it. -/
structure Content where
  kind : UInt16
  payload : List UInt8
  fits : payload.length ≤ 65533

namespace Content

/-- The record in a stream. -/
def bytes (c : Content) : List UInt8 := recordBytes c.kind.toNat c.payload

theorem length_bytes (c : Content) : c.bytes.length = c.payload.length + 4 :=
  length_recordBytes c.kind.toNat c.payload

end Content

/-- The records that stand one behind the other from an offset on. -/
def located (offset : Nat) : List Content → List Record
  | [] => []
  | c :: cs => ⟨c.kind.toNat, offset + 4⟩ :: located (offset + 4 + c.payload.length) cs

section

variable {stream : Bytes} {offset start stop next : Nat} {found : List Record}

theorem recordsFrom_eq_finished (h : stop < offset + 4) :
    recordsFrom stream offset stop = ⟨[], none⟩ := by
  rw [recordsFrom, if_neg (by omega)]
  rfl

/-- Records that stand one behind the other are met where they are, if fewer bytes than a header
takes are left behind them. -/
theorem recordsFrom_located {contents : List Content}
    (h : StandsAt stream offset (contents.flatMap Content.bytes)) (hstop : stop ≤ stream.size)
    (hend : offset + (contents.flatMap Content.bytes).length ≤ stop)
    (hrest : stop < offset + (contents.flatMap Content.bytes).length + 4) :
    recordsFrom stream offset stop = ⟨located offset contents, none⟩ := by
  induction contents generalizing offset with
  | nil => exact recordsFrom_eq_finished (by simpa using hrest)
  | cons c contents ih =>
    rw [List.flatMap_cons] at h
    rw [List.flatMap_cons, List.length_append] at hend hrest
    have hlength := c.length_bytes
    have hbehind : offset + c.bytes.length = offset + 4 + c.payload.length := by omega
    have hwalk : recordsFrom stream (offset + c.bytes.length) stop
        = ⟨located (offset + c.bytes.length) contents, none⟩ :=
      ih h.right (by omega) (by omega)
    have hkind : c.kind.toNat < 2 ^ 16 := c.kind.toNat_lt
    have hfits : c.payload.length + 2 < 2 ^ 16 := by
      have := c.fits
      omega
    rw [recordsFrom_recordBytes h.left hkind hfits (by omega) hstop, ← Content.bytes, hwalk, hbehind]
    rfl

/-! ## Streams of any bytes -/

theorem records_eq_recordsFrom :
    records stream start stop = recordsFrom stream start (min stop stream.size) := by
  have hcast : min (stop : Int) stream.size = (min stop stream.size : Nat) := by omega
  have hnonneg : ¬ ((start : Int) + 4 ≤ (min stop stream.size : Nat) ∧ (start : Int) < 0) := by
    omega
  simp only [records, hcast]
  rw [if_neg hnonneg, Int.toNat_natCast, Int.toNat_natCast]

/-- Records lead from one offset to another: the header of each is inside, its length counts at
least the kind, and the next one is right behind it. -/
inductive Leads (stream : Bytes) (stop : Nat) : Nat → List Record → Nat → Prop where
  | refl (offset : Nat) : Leads stream stop offset [] offset
  | step {offset next : Nat} {found : List Record} (hinside : offset + 4 ≤ stop)
      (hlength : 2 ≤ lengthAt stream offset)
      (h : Leads stream stop (offset + 2 + lengthAt stream offset) found next) :
      Leads stream stop offset (⟨kindAt stream offset, offset + 4⟩ :: found) next

/-- Why a walk ends where records have led to. -/
inductive EndsAt (stream : Bytes) (stop next : Nat) : Option Fault → Prop where
  /-- There is no room for another header. -/
  | atStop (h : stop < next + 4) : EndsAt stream stop next none
  /-- The record there is too short to hold its own kind. -/
  | tooShort (hinside : next + 4 ≤ stop) (hlength : lengthAt stream next < 2) :
      EndsAt stream stop next (some (.recordLength next (lengthAt stream next)))

/-- A walk inside a stream follows the records as far as they lead. -/
theorem exists_leads (hstop : stop ≤ stream.size) (offset : Nat) :
    ∃ next, Leads stream stop offset (recordsFrom stream offset stop).items next ∧
      EndsAt stream stop next (recordsFrom stream offset stop).failure := by
  induction hroom : stop - offset using Nat.strong_induction_on generalizing offset with
  | _ room ih =>
    rw [recordsFrom_step hstop]
    by_cases hinside : offset + 4 ≤ stop
    · rw [if_pos hinside]
      by_cases hlength : lengthAt stream offset < 2
      · rw [if_pos hlength]
        exact ⟨offset, .refl offset, .tooShort hinside hlength⟩
      · rw [if_neg hlength]
        obtain ⟨next, hleads, hends⟩ := ih _ (by omega) (offset + 2 + lengthAt stream offset) rfl
        exact ⟨next, .step hinside (by omega) hleads, hends⟩
    · rw [if_neg hinside]
      exact ⟨offset, .refl offset, .atStop (by omega)⟩

/-- Only the bytes before the stop are looked at. -/
theorem recordsFrom_slice (hstop : stop ≤ stream.size) (offset : Nat) :
    recordsFrom (stream.slice 0 stop) offset stop = recordsFrom stream offset stop := by
  have hsize : (stream.slice 0 stop).size = stop := by
    simp only [slice, Array.size_extract]
    omega
  induction hroom : stop - offset using Nat.strong_induction_on generalizing offset with
  | _ room ih =>
    rw [recordsFrom_step hsize.ge, recordsFrom_step hstop]
    by_cases hinside : offset + 4 ≤ stop
    · have hlengthAt : lengthAt (stream.slice 0 stop) offset = lengthAt stream offset := by
        rw [lengthAt, number_slice .little (by omega), Nat.zero_add, ← lengthAt]
      have hkindAt : kindAt (stream.slice 0 stop) offset = kindAt stream offset := by
        rw [kindAt, number_slice .little (by omega), Nat.zero_add, ← kindAt]
      rw [if_pos hinside, if_pos hinside, hlengthAt, hkindAt]
      by_cases hlength : lengthAt stream offset < 2
      · rw [if_pos hlength, if_pos hlength]
      · rw [if_neg hlength, if_neg hlength, ih _ (by omega) _ rfl]
    · rw [if_neg hinside, if_neg hinside]

namespace Leads

/-- Every record is behind the start and its header before the stop. -/
theorem inside (h : Leads stream stop offset found next) :
    ∀ r ∈ found, offset + 4 ≤ r.payload ∧ r.payload ≤ stop := by
  induction h with
  | refl => nofun
  | step hinside hlength h ih =>
    intro r hr
    rcases List.mem_cons.1 hr with rfl | hr
    · exact ⟨le_rfl, hinside⟩
    · have := ih r hr
      omega

/-- A record is at least four bytes behind each one before it. -/
theorem apart (h : Leads stream stop offset found next) :
    found.Pairwise fun a b => a.payload + 4 ≤ b.payload := by
  induction h with
  | refl => exact .nil
  | step hinside hlength h ih =>
    refine .cons (fun r hr => ?_) ih
    have := (h.inside r hr).1
    dsimp only
    omega

/-- Every record takes four bytes or more before the stop. -/
theorem length_le (h : Leads stream stop offset found next) :
    offset + 4 * found.length ≤ max offset stop := by
  induction h with
  | refl => simp
  | step hinside hlength h ih =>
    rw [List.length_cons]
    omega

end Leads

end

/-- A walk between two offsets, the second inside the stream, does what it should. -/
structure IsOrderly (stream : Bytes) (start stop : Nat) (walk : Walk Fault Record) : Prop where
  /-- It follows the records to where it ends, and fails there only at a record that is too short. -/
  ends : ∃ next, Leads stream stop start walk.items next ∧ EndsAt stream stop next walk.failure
  inside : ∀ r ∈ walk.items, start + 4 ≤ r.payload ∧ r.payload ≤ stop
  apart : walk.items.Pairwise fun a b => a.payload + 4 ≤ b.payload
  length_le : walk.items.length ≤ (stop - start) / 4
  /-- What is behind its stop does not matter. -/
  confined : records (stream.slice 0 stop) start stop = walk

/-- **Walks over records.** Records that a stream is made of are met one after the other, with any
bytes before them and fewer than a header takes behind them. Between any two offsets of a stream of
any bytes, a walk ends and is orderly. -/
theorem records_meet_all_and_end :
    (∀ (before trailing : List UInt8) (contents : List Content) (stop : Nat), trailing.length < 4 →
      before.length + (contents.flatMap Content.bytes).length ≤ stop →
      records (before ++ contents.flatMap Content.bytes ++ trailing).toArray before.length stop
        = ⟨located before.length contents, none⟩) ∧
    ∀ (stream : Bytes) (start stop : Nat),
      IsOrderly stream start (min stop stream.size) (records stream start stop) := by
  constructor
  · intro before trailing contents stop htrailing hstop
    have hstands : StandsAt (before ++ contents.flatMap Content.bytes ++ trailing).toArray
        before.length (contents.flatMap Content.bytes) := by
      have hall := standsAt_toArray (before ++ contents.flatMap Content.bytes) trailing
      simpa using hall.right
    have hsize : (before ++ contents.flatMap Content.bytes ++ trailing).toArray.size
        = before.length + (contents.flatMap Content.bytes).length + trailing.length := by
      rw [List.size_toArray, List.length_append, List.length_append]
    rw [records_eq_recordsFrom]
    exact recordsFrom_located hstands (min_le_right _ _) (by omega) (by omega)
  · intro stream start stop
    have hstop : min stop stream.size ≤ stream.size := min_le_right _ _
    obtain ⟨next, hleads, hends⟩ := exists_leads hstop start
    have hlength := hleads.length_le
    have hslice : min (min stop stream.size) (stream.slice 0 (min stop stream.size)).size
        = min stop stream.size := by
      simp only [slice, Array.size_extract]
      omega
    rw [records_eq_recordsFrom]
    refine ⟨⟨next, hleads, hends⟩, hleads.inside, hleads.apart, by omega, ?_⟩
    rw [records_eq_recordsFrom, hslice, recordsFrom_slice hstop]

/-- A procedure record that is cut off, and a record without a payload. -/
def smallContents : List Content := [⟨0x1110, [1, 2, 3], by decide⟩, ⟨0x110E, [], by decide⟩]

/-- A record without a payload, and one whose length does not count its kind. -/
def brokenStream : Bytes := #[2, 0, 7, 0, 1, 0, 9, 9, 5]

theorem smallContents_met :
    records ([0xAA, 0xBB] ++ smallContents.flatMap Content.bytes ++ [2, 0, 6]).toArray 2 16
      = ⟨[⟨0x1110, 6⟩, ⟨0x110E, 13⟩], none⟩ ∧
    IsOrderly brokenStream 0 9 (records brokenStream 0 100) ∧
    records brokenStream 0 100 = ⟨[⟨7, 4⟩], some (.recordLength 4 1)⟩ :=
  ⟨records_meet_all_and_end.1 [0xAA, 0xBB] [2, 0, 6] smallContents 16 (by decide) (by decide),
    records_meet_all_and_end.2 brokenStream 0 100, by cbv⟩

end CrateLedger.Image.CodeView
