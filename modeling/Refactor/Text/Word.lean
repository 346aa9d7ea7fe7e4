import Refactor.Text.Alphabetic
import Refactor.Text.Mark
import Refactor.Text.Numeric
import Refactor.Text.Recent

/-!
The characters names are made of. The class a pattern may spell out and the class a wildcard runs
over are different: `²` is alphanumeric and no word character, a combining accent the other way
round. The first is that of version 17.0 of Unicode, the second that of version 16.0.
-/

namespace Refactor.Text

/-- A letter or a number of any script. -/
def isAlphanumeric (c : Char) : Bool := isAlphabetic c || isNumeric c

/-- A connector such as the underscore. -/
def isConnector (c : Char) : Bool :=
  let n := c.toNat
  n == 0x5f || n == 0x203f || n == 0x2040 || n == 0x2054 || n == 0xfe33 || n == 0xfe34 ||
    0xfe4d ≤ n && n ≤ 0xfe4f || n == 0xff3f

/-- One of the two joiners without width. -/
def isJoiner (c : Char) : Bool := c.toNat == 0x200c || c.toNat == 0x200d

/-- A character that counts as part of a word. Version 17.0 changed this for no character that was
there before, so leaving out the new ones gives the class of version 16.0. -/
def isWordChar (c : Char) : Bool :=
  (isAlphabetic c || isMark c || isDecimalNumber c || isConnector c || isJoiner c) && !isRecent c

end Refactor.Text
