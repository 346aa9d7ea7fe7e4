import Refactor.Recipe.Fields
import Refactor.Recipe.Methods
import Refactor.Recipe.Packages
import Refactor.Recipe.Parentheses
import Refactor.Recipe.Variables

/-!
The recipes that come with the library, each with its parameters.
-/

namespace Refactor

inductive StockRecipe where
  | changeFieldVisibility (visibility : Visibility)
  | renameVariable (declaration : NodeId) (newName : String)
  | findMethods (pattern : MethodPattern)
  | changeMethodName (pattern : MethodPattern) (newName : String)
  | changePackage (matcher : PackageMatcher) (newPackage : String)
  | unwrapParentheses
  deriving Inhabited

def StockRecipe.recipe : StockRecipe → Recipe
  | changeFieldVisibility v => ChangeFieldVisibility.recipe v
  | renameVariable declaration newName => RenameVariable.recipe declaration newName
  | findMethods pattern => FindMethods.recipe pattern
  | changeMethodName pattern newName => ChangeMethodName.recipe pattern newName
  | changePackage matcher newPackage => ChangePackage.recipe matcher newPackage
  | unwrapParentheses => UnwrapParentheses.recipe

end Refactor
