import Refactor.Node.Basic
import Refactor.Text.Uppercase

/-!
Names that refer to packages and types, and moving them from one package to another. A name is part
of a package if it is the package's name, or goes on after it with a dot and what the policy asks.
-/

namespace Refactor

inductive ReferenceKind where
  | package
  | importDecl
  | type
  deriving DecidableEq, Inhabited

def ReferenceKind.name : ReferenceKind → String
  | package => "Package"
  | importDecl => "Import"
  | type => "Type"

/-- The package or type that a node names: a package declaration, an import or a type reference. -/
def Shape.reference {α : Type} : Shape α → Option (ReferenceKind × String)
  | .package name => some (.package, name)
  | .importDecl name _ => some (.importDecl, name)
  | .typeRef name => some (.type, name)
  | _ => none

/-- Which names below a package count as part of it. -/
inductive RenamePolicy where
  /-- All of them. -/
  | recursive
  /-- Only the types right inside, told by their capital letter. -/
  | exactSegment
  deriving DecidableEq, Inhabited

namespace RenamePolicy

def name : RenamePolicy → String
  | recursive => "Recursive"
  | exactSegment => "ExactSegment"

/-- What may follow the dot after the package's name. -/
def covers (policy : RenamePolicy) (segment : List Char) : Bool :=
  match policy, segment with
  | _, [] => false
  | recursive, _ :: _ => true
  | exactSegment, c :: _ => Text.isUppercase c

end RenamePolicy

/-- What is left of the text after a given beginning. -/
def afterStart : List Char → List Char → Option (List Char)
  | [], cs => some cs
  | _ :: _, [] => none
  | p :: ps, c :: cs => if p = c then afterStart ps cs else none

/-- The rest of a name that is part of the package, dot included. -/
def RenamePolicy.coveredSuffix (policy : RenamePolicy) (package value : List Char) :
    Option (List Char) := do
  let suffix ← afterStart package value
  match suffix with
  | [] => some []
  | '.' :: segment => if policy.covers segment then some suffix else none
  | _ => none

/-- One package and what counts as part of it. -/
structure PackageMatcher where
  package : String
  policy : RenamePolicy
  deriving DecidableEq, Inhabited

namespace PackageMatcher

def matchesName (m : PackageMatcher) (value : String) : Bool :=
  (m.policy.coveredSuffix m.package.toList value.toList).isSome

/-- The node names the package or a part of it. -/
def matchesTree {β : Type} (m : PackageMatcher) (t : Labelled β) : Bool :=
  t.shape.reference.any fun r => m.matchesName r.2

/-- The name with the old package replaced by the new one, if it is part of the old one. -/
def rename (m : PackageMatcher) (value old new : String) : Option String :=
  (m.policy.coveredSuffix old.toList value.toList).map fun suffix => new ++ String.ofList suffix

/-- The name as moved to the new package, if it is part of this one and the move changes it. -/
def moved (m : PackageMatcher) (new value : String) : Option String :=
  (m.rename value m.package new).filter (· ≠ value)

end PackageMatcher

end Refactor
