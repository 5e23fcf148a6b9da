import CrateLedger.Text.Numeral

/-!
# Numbers that cannot be used

Both mangling schemes spell numbers, and a name with a number that cannot be used is not decoded at
all: it is neither shown in part nor taken as it stands. There are two reasons. A character is
spelled by its number, and a number of `0x110000` or more stands for no character; numbers that do
not fit a signed 32-bit word are told apart from smaller ones. And the host neither reads nor writes
a decimal numeral of more than `Numeral.maxDigits` digits.
-/

namespace CrateLedger.Mangled

/-- Why a spelled number cannot be used. -/
inductive NumberError where
  /-- The number of a character is `0x110000` or more and fits a signed 32-bit word. -/
  | beyondUnicode (number : Nat)
  /-- The number of a character does not even fit a signed 32-bit word. -/
  | beyondWord (number : Nat)
  /-- The decimal numeral has too many digits. -/
  | tooLong (digits : Nat)
  deriving DecidableEq, Repr

namespace NumberError

/-- The wording of the error. -/
def message : NumberError → Text
  | beyondUnicode n => "Number " ++ Numeral.signedHex n ++ " is beyond the last code point"
  | beyondWord n => "Number " ++ Numeral.signedHex n ++ " does not fit a 32-bit word"
  | tooLong n => "Numeral of " ++ Numeral.decimal n ++ " digits is too long"

end NumberError

/-- The code point of a spelled number. -/
def codePoint (n : Nat) : Except NumberError CodePoint :=
  if h : n < 0x110000 then .ok ⟨n, h⟩
  else if n < 0x80000000 then .error (.beyondUnicode n)
  else .error (.beyondWord n)

end CrateLedger.Mangled
