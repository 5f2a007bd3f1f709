import LocationPath.Text.Printable

/-! # Quoted texts

How messages and records show a text so that its bounds and its invisible characters can be seen. A
quoted text stands between apostrophes, or between quotation marks where only these avoid an escape.
Escapes are written with a backslash. -/

namespace LocationPath

namespace Text

/-- The mark around a quoted text: an apostrophe, unless the text holds one and no quotation mark.
-/
def quotationMark (text : Text) : Char :=
  if text.contains '\'' && !text.contains '"' then '"' else '\''

/-- A code point in hexadecimal digits, in small letters and filled up with zeros. -/
def hexadecimal (width : Nat) (code : Nat) : Text := (Nat.toDigits 16 code).leftpad width '0'

/-- The code of an unprintable character, by the shortest of the three forms that fits. -/
def escapeCode (code : Nat) : Text :=
  if code < 0x100 then '\\' :: 'x' :: hexadecimal 2 code
  else if code < 0x10000 then '\\' :: 'u' :: hexadecimal 4 code
  else '\\' :: 'U' :: hexadecimal 8 code

/-- A character as it stands in a text quoted by `mark`. -/
def escape (mark c : Char) : Text :=
  if c == mark || c == '\\' then ['\\', c]
  else if c == '\n' then ['\\', 'n']
  else if c == '\r' then ['\\', 'r']
  else if c == '\t' then ['\\', 't']
  else if isPrintable c then [c]
  else escapeCode c.toNat

/-- The text between quotation marks, with escapes for what would not show as itself. -/
def quoted (text : Text) : Text :=
  let mark := text.quotationMark
  between mark mark (text.flatMap (escape mark))

/-- The empty text shows as two apostrophes. -/
@[simp] theorem quoted_nil : quoted [] = ['\'', '\''] := rfl

end Text

end LocationPath
