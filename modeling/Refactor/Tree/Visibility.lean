import Refactor.Tree.Shape

/-!
Visibility of declarations, as it shows in a list of modifiers.
-/

namespace Refactor

inductive Visibility where
  | publicAccess
  | protectedAccess
  | privateAccess
  /-- No visibility modifier. -/
  | packageAccess
  deriving DecidableEq, Inhabited

namespace Visibility

def all : List Visibility := [publicAccess, protectedAccess, privateAccess, packageAccess]

def name : Visibility → String
  | publicAccess => "Public"
  | protectedAccess => "Protected"
  | privateAccess => "Private"
  | packageAccess => "Package"

def keyword : Visibility → String
  | publicAccess => "public"
  | protectedAccess => "protected"
  | privateAccess => "private"
  | packageAccess => "package"

def ofKeyword? (s : String) : Option Visibility := all.find? (·.keyword == s)

/-- The visibility modifiers that a declaration of this visibility has. -/
def modifiers : Visibility → List Modifier
  | publicAccess => [.publicAccess]
  | protectedAccess => [.protectedAccess]
  | privateAccess => [.privateAccess]
  | packageAccess => []

/-- The list with the visibility replaced. The new modifier takes the place of the first old one,
or stands in front if there was none. -/
def replaceIn (v : Visibility) (ms : List Modifier) : List Modifier :=
  let others := ms.filter (!·.isVisibility)
  let place := if ms.any (·.isVisibility) then ms.findIdx (·.isVisibility) else 0
  others.take place ++ v.modifiers ++ others.drop place

/-- The list with the visibility replaced, or none if it is just that already. -/
def applyTo (v : Visibility) (ms : List Modifier) : Option (List Modifier) :=
  if ms.filter (·.isVisibility) = v.modifiers then none else some (v.replaceIn ms)

end Visibility

end Refactor
