import Refactor.Visit.Script

/-!
Recipes: named visitors with a condition, an order among themselves, and a bound on their use.
-/

namespace Refactor

structure Recipe where
  /-- Also the source of the markers that the recipe adds. -/
  id : String
  displayName : String := id
  description : String := ""
  /-- The recipe runs in that many cycles at most. -/
  maxCycles : Nat := 0xffffffffffffffff
  precondition : Precondition := .always
  visitor : Visitor
  /-- The ids of the recipes that have to run before this one. -/
  prerequisites : List String := []
  deriving Inhabited

/-- The visitor behind the condition. -/
def Recipe.gatedVisitor (r : Recipe) : Visitor := r.visitor.guarded r.precondition

/-- A recipe that walks the tree and leaves it as it is. -/
def Recipe.minimal (id : String) : Recipe := { id, visitor := .plain "plain" .walkOn }

end Refactor
