import CrateLedger.Text

/-!
# UTF-8

A byte string is read as a sequence of units: a code point, or a maximal ill-formed part, that is,
the longest run of bytes that begins a well-formed sequence and is then broken off, or else a
single byte that begins none. Strict decoding refuses ill-formed parts; tolerant decoding shows
each of them as one replacement character.
-/

namespace CrateLedger.Utf8

/-! ## Decoding -/

/-- What a lead byte of a longer sequence announces: the bits that it contributes, the number of
bytes to follow, and the range that the first of these has to lie in. -/
structure Lead where
  /-- The payload bits of the lead byte. -/
  bits : Nat
  /-- How many continuation bytes follow. -/
  following : Nat
  /-- The least value of the first continuation byte. -/
  low : Nat
  /-- The greatest value of the first continuation byte. -/
  high : Nat

/-- Reads a byte as the lead of a sequence of two to four bytes. The ranges leave out overlong
forms, surrogates, and numbers beyond Unicode. -/
def lead? (b : Nat) : Option Lead :=
  if 0xC2 ≤ b ∧ b ≤ 0xDF then some ⟨b - 0xC0, 1, 0x80, 0xBF⟩
  else if b = 0xE0 then some ⟨0, 2, 0xA0, 0xBF⟩
  else if b = 0xED then some ⟨0xD, 2, 0x80, 0x9F⟩
  else if 0xE1 ≤ b ∧ b ≤ 0xEF then some ⟨b - 0xE0, 2, 0x80, 0xBF⟩
  else if b = 0xF0 then some ⟨0, 3, 0x90, 0xBF⟩
  else if 0xF1 ≤ b ∧ b ≤ 0xF3 then some ⟨b - 0xF0, 3, 0x80, 0xBF⟩
  else if b = 0xF4 then some ⟨4, 3, 0x80, 0x8F⟩
  else none

/-- Takes the continuation bytes of a sequence, the first of them within a range. Gives the number
spelled, or nothing if the sequence is broken off, and what is left. -/
def continuation (value : Nat) : Nat → Nat → Nat → List UInt8 → Option Nat × List UInt8
  | 0, _, _, rest => (some value, rest)
  | _ + 1, _, _, [] => (none, [])
  | n + 1, low, high, b :: rest =>
    if low ≤ b.toNat ∧ b.toNat ≤ high then
      continuation (value * 64 + (b.toNat - 0x80)) n 0x80 0xBF rest
    else (none, b :: rest)

/-- Continuation bytes are taken from the front. -/
theorem length_continuation_le (value n low high : Nat) (s : List UInt8) :
    (continuation value n low high s).2.length ≤ s.length := by
  induction n generalizing value low high s with
  | zero => simp [continuation]
  | succ n ih =>
    cases s with
    | nil => simp [continuation]
    | cons b rest =>
      rw [continuation]
      split
      · have := ih (value * 64 + (b.toNat - 0x80)) 0x80 0xBF rest
        simp only [List.length_cons]
        omega
      · simp

/-- The code point of a number, if it has one. -/
def codePoint? (n : Nat) : Option CodePoint := if h : n < 0x110000 then some ⟨n, h⟩ else none

/-- The units of a byte string, with nothing for each ill-formed part. -/
def units : List UInt8 → List (Option CodePoint)
  | [] => []
  | b :: rest =>
    if b.toNat < 0x80 then codePoint? b.toNat :: units rest
    else
      match lead? b.toNat with
      | none => none :: units rest
      | some l =>
        match h : continuation l.bits l.following l.low l.high rest with
        | (value, after) =>
          have : after.length ≤ rest.length := by
            have := length_continuation_le l.bits l.following l.low l.high rest
            rwa [h] at this
          value.bind codePoint? :: units after
termination_by s => s.length

/-- Decodes well-formed UTF-8 and refuses everything else. -/
def decode? (bytes : List UInt8) : Option Text := (units bytes).mapM id

/-- Decodes UTF-8 with one replacement character for each maximal ill-formed part. -/
def decodeTolerant (bytes : List UInt8) : Text :=
  (units bytes).map fun u => u.getD CodePoint.replacement

/-! ## Encoding -/

/-- The bytes of one code point. -/
def encodeCodePoint (c : CodePoint) : List UInt8 :=
  let n := c.val
  let tail (unit : Nat) : UInt8 := UInt8.ofNat (0x80 + n / unit % 0x40)
  if n < 0x80 then [UInt8.ofNat n]
  else if n < 0x800 then [UInt8.ofNat (0xC0 + n / 0x40), tail 1]
  else if n < 0x10000 then [UInt8.ofNat (0xE0 + n / 0x1000), tail 0x40, tail 1]
  else [UInt8.ofNat (0xF0 + n / 0x40000), tail 0x1000, tail 0x40, tail 1]

/-- The bytes of a text. -/
def encode (t : Text) : List UInt8 := t.flatMap encodeCodePoint

end CrateLedger.Utf8
