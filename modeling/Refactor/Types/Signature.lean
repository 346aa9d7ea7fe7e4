import Refactor.Types.Erasure

/-!
Methods and classes as the type checker left them in the tree: fully qualified names as text.
-/

namespace Refactor

structure MethodType where
  declaringType : String
  name : String
  parameterTypes : List String := []
  returnType : Option String := none
  deriving DecidableEq, Inhabited

namespace MethodType

/-- The two methods are told apart neither by name nor by the erased parameter types. Where they
are declared and what they return plays no part. -/
def sameSignature (a b : MethodType) : Bool :=
  a.name = b.name && a.parameterTypes.map eraseGenerics = b.parameterTypes.map eraseGenerics

def withName (m : MethodType) (name : String) : MethodType := { m with name }

/-- Such as `java.util.List add(int, java.lang.Object)`. -/
def text (m : MethodType) : String :=
  m.declaringType ++ " " ++ m.name ++ "(" ++ ", ".intercalate m.parameterTypes ++ ")"

end MethodType

structure ClassType where
  name : String
  supertype : Option String := none
  interfaces : List String := []
  methods : List MethodType := []
  deriving DecidableEq, Inhabited

namespace ClassType

def extending (c : ClassType) (name : String) : ClassType := { c with supertype := some name }

def implementing (c : ClassType) (name : String) : ClassType :=
  { c with interfaces := c.interfaces ++ [name] }

/-- The class with one more method of its own, which returns nothing that is known. -/
def declaring (c : ClassType) (name : String) (parameters : List String) : ClassType :=
  { c with methods := c.methods ++ [⟨c.name, name, parameters, none⟩] }

/-- The first method of the class with that signature. -/
def declaredMethod (c : ClassType) (like : MethodType) : Option MethodType :=
  c.methods.find? (·.sameSignature like)

/-- The types right above the class, interfaces first. -/
def parents (c : ClassType) : List String := c.interfaces ++ c.supertype.toList

end ClassType

end Refactor
