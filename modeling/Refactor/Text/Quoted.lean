import Refactor.Text.Hidden
import Refactor.Text.Mark

/-!
Quoted text for messages: what could not be told apart on the page is written as an escape.
-/

namespace Refactor.Text

/-- The code point in hexadecimal digits between braces. -/
def codePointEscape (c : Char) : List Char :=
  ['\\', 'u', '\x7b'] ++ Nat.toDigits 16 c.toNat ++ ['\x7d']

/-- The character would be taken for part of the one before it. -/
def clings (c : Char) : Bool := isMark c && isGraphemeExtend c

/-- One character as it stands between quotes. -/
def quotedChar (c : Char) : List Char :=
  if c = '\x00' then ['\\', '0']
  else if c = '\t' then ['\\', 't']
  else if c = '\r' then ['\\', 'r']
  else if c = '\n' then ['\\', 'n']
  else if c = '\\' then ['\\', '\\']
  else if c = '"' then ['\\', '"']
  else if clings c || !isShown c then codePointEscape c
  else [c]

/-- The text between double quotes. -/
def quoted (s : String) : String := String.ofList (['"'] ++ s.toList.flatMap quotedChar ++ ['"'])

end Refactor.Text
