import ImageRecipe.Text.Utf8
import ImageRecipe.Text.Visible

/-!
# Quoted byte strings

Messages show a path between quotation marks, so that blanks at its ends and bytes that are no text can
be told. Characters that show stand for themselves; the others and the quotation mark are escaped, and
a byte that spells no character is written as two hexadecimal digits.

* `escape` — the spelling of one character, itself if it shows;
* `quote` — the spelling of a whole byte string.
-/

set_option autoImplicit false

namespace ImageRecipe.Quoted

/-- The spelling of a character that does not show: its code point in hexadecimal, in braces. -/
def codePoint (c : Char) : List Char :=
  ['\\', 'u', '\x7b'] ++ Nat.toDigits 16 c.toNat ++ ['\x7d']

/-- The spelling of a character between quotation marks. -/
def escape (c : Char) : List Char :=
  if c = '\x00' then ['\\', '0']
  else if c = '\t' then ['\\', 't']
  else if c = '\r' then ['\\', 'r']
  else if c = '\n' then ['\\', 'n']
  else if c = '"' then ['\\', '"']
  else if c = '\\' then ['\\', '\\']
  else if Visible.shows c then [c]
  else codePoint c

/-- The upper-case hexadecimal digit of a number below sixteen. -/
def hexDigit (n : Nat) : Char :=
  if n < 10 then Char.ofNat (0x30 + n) else Char.ofNat (0x37 + n)

/-- The spelling of a byte that belongs to no character. -/
def hexByte (b : UInt8) : List Char :=
  ['\\', 'x', hexDigit (b.toNat / 16), hexDigit (b.toNat % 16)]

/-- The spelling of a piece of a byte string. -/
def spell : Utf8.Piece → List Char
  | .char value _ => escape value
  | .invalid bytes => bytes.flatMap hexByte

/-- A byte string between quotation marks. -/
def quote (bytes : List UInt8) : String :=
  String.ofList ('"' :: (Utf8.decode bytes).flatMap spell ++ ['"'])

end ImageRecipe.Quoted
