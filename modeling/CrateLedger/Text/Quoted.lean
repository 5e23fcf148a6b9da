import CrateLedger.Text.Numeral
import CrateLedger.Text.Printable

/-!
# Quoted texts

A text inside quotes, as messages and character constants show it. Single quotes are used unless
the text holds one and no double quote. The backslash and the quote in use are escaped by a
backslash, tab, line feed and carriage return by their letters, and every other code point that is
not printable by its number in hexadecimal.
-/

namespace CrateLedger.Text

/-- The quote that a text is shown in. -/
def quoteFor (t : Text) : CodePoint :=
  if (t.contains ('\'' : CodePoint)) && !t.contains ('"' : CodePoint) then '"' else '\''

/-- How one code point is shown between the given quotes. -/
def quotedCodePoint (quote c : CodePoint) : Text :=
  if c = quote ∨ c = '\\' then ['\\', c]
  else if c = '\t' then "\\t"
  else if c = '\n' then "\\n"
  else if c = '\r' then "\\r"
  else if isPrintable c then [c]
  else if c.val < 0x100 then "\\x" ++ Numeral.paddedHex 2 c.val
  else if c.val < 0x10000 then "\\u" ++ Numeral.paddedHex 4 c.val
  else "\\U" ++ Numeral.paddedHex 8 c.val

/-- A text between quotes. -/
def quoted (t : Text) : Text :=
  let quote := quoteFor t
  quote :: t.flatMap (quotedCodePoint quote) ++ [quote]

end CrateLedger.Text
