import Refactor.Text.Blank

/-!
Type names without their generic arguments.
-/

namespace Refactor

/-- The name up to its first angle bracket, without the blanks before that. A name without one is
left as it is. -/
def eraseChars (cs : List Char) : List Char :=
  if '<' ∈ cs then Text.trimEnd (cs.takeWhile (· ≠ '<')) else cs

/-- The type name without its generic arguments. -/
def eraseGenerics (name : String) : String := String.ofList (eraseChars name.toList)

end Refactor
