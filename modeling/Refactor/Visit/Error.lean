import Refactor.Node.Cursor
import Refactor.Pattern.Fault

/-!
What can go wrong while a tree is visited.
-/

namespace Refactor

inductive VisitError where
  | malformedPattern (e : MalformedPattern)
  | scopeNotFound (e : ScopeNotFound)
  /-- A child was replaced by one of a kind that its slot does not accept. -/
  | invalidReplacement (parent : Kind) (slot : Slot) (found : Kind)
  /-- A node was to be walked as one of another kind. -/
  | unexpectedNode (expected found : Kind)
  deriving DecidableEq, Inhabited

def VisitError.message : VisitError → String
  | malformedPattern e => e.message
  | scopeNotFound e => e.message
  | invalidReplacement parent slot found =>
    parent.name ++ " cannot hold a " ++ found.name ++ " in its " ++ slot.name ++ " slot"
  | unexpectedNode expected found =>
    "expected a " ++ expected.name ++ " node, got " ++ found.name

end Refactor
