import Refactor.Tree.Kind
import Refactor.Types.Signature

/-!
One layer of a syntax tree: what a node of each kind holds, with the children left open as a
parameter. Everything that has to know where the children of each kind stand is here: `slotted`
lists them with their slots for those who walk the tree, `children` for those who only look at it, and
`mapIdx` and `map` replace them in place. That the two lists are the same is `children_eq`.
-/

namespace Refactor

inductive Modifier where
  | publicAccess
  | protectedAccess
  | privateAccess
  | static
  | final
  | abstract
  deriving DecidableEq, Inhabited

namespace Modifier

def all : List Modifier :=
  [publicAccess, protectedAccess, privateAccess, static, final, abstract]

def name : Modifier → String
  | publicAccess => "Public"
  | protectedAccess => "Protected"
  | privateAccess => "Private"
  | static => "Static"
  | final => "Final"
  | abstract => "Abstract"

def keyword : Modifier → String
  | publicAccess => "public"
  | protectedAccess => "protected"
  | privateAccess => "private"
  | static => "static"
  | final => "final"
  | abstract => "abstract"

def ofName? (s : String) : Option Modifier := all.find? (·.name == s)

def isVisibility : Modifier → Bool
  | publicAccess | protectedAccess | privateAccess => true
  | _ => false

end Modifier

inductive LiteralValue where
  | int (value : Int64)
  | bool (value : Bool)
  | text (value : String)
  | null
  deriving DecidableEq, Inhabited

inductive UnaryOperator where
  | not
  | neg
  deriving DecidableEq, Inhabited

inductive BinaryOperator where
  | add
  | sub
  | mul
  | div
  | eq
  | ne
  | lt
  | gt
  | and
  | or
  deriving DecidableEq, Inhabited

/-- What a node holds beside its label, with children of type `α`. -/
inductive Shape (α : Type) where
  | compilationUnit (sourcePath : String) (package : Option α) (imports types : List α)
  | package (name : String)
  | importDecl (name : String) (isStatic : Bool)
  | classDecl (modifiers : List Modifier) (name : String) (superclass : Option α)
      (interfaces : List α) (body : α) (classType : Option String)
  | methodDecl (modifiers : List Modifier) (returnType : Option α) (name : String)
      (parameters : List α) (body : Option α) (methodType : Option MethodType)
  | variableDecls (modifiers : List Modifier) (typeExpr : Option α) (declarators : List α)
  | namedVariable (name : String) (initializer : Option α)
  | block (statements : List α)
  | conditional (condition thenBranch : α) (elseBranch : Option α)
  | returnStmt (expr : Option α)
  | methodInvocation (select : Option α) (name : String) (args : List α)
      (methodType : Option MethodType)
  | newClass (cls : α) (args : List α) (constructorType : Option MethodType)
  | fieldAccess (target : α) (name : String)
  | identifier (name : String)
  | literal (value : LiteralValue)
  | parenthesized (expr : α)
  | unary (op : UnaryOperator) (operand : α)
  | binary (op : BinaryOperator) (left right : α)
  | assignment (target value : α)
  | typeRef (name : String)
  deriving Inhabited

namespace Shape

variable {α β : Type}

def kind : Shape α → Kind
  | compilationUnit .. => .compilationUnit
  | package .. => .package
  | importDecl .. => .importDecl
  | classDecl .. => .classDecl
  | methodDecl .. => .methodDecl
  | variableDecls .. => .variableDecls
  | namedVariable .. => .namedVariable
  | block .. => .block
  | conditional .. => .conditional
  | returnStmt .. => .returnStmt
  | methodInvocation .. => .methodInvocation
  | newClass .. => .newClass
  | fieldAccess .. => .fieldAccess
  | identifier .. => .identifier
  | literal .. => .literal
  | parenthesized .. => .parenthesized
  | unary .. => .unary
  | binary .. => .binary
  | assignment .. => .assignment
  | typeRef .. => .typeRef

/-- The child that stands in a slot, if there is one. -/
def opt (slot : Slot) (child : Option α) : List (Slot × α) := child.toList.map (slot, ·)

/-- The children that stand in slots of one sort. -/
def many (slot : Slot) (children : List α) : List (Slot × α) := children.map (slot, ·)

/-- The children in source order, each with the slot it stands in. -/
def slotted : Shape α → List (Slot × α)
  | compilationUnit _ pkg imports types =>
    opt .package pkg ++ many .importDecl imports ++ many .typeDecl types
  | classDecl _ _ superclass interfaces body _ =>
    opt .typeTree superclass ++ many .typeTree interfaces ++ [(.block, body)]
  | methodDecl _ returnType _ parameters body _ =>
    opt .typeTree returnType ++ many .parameter parameters ++ opt .block body
  | variableDecls _ typeExpr declarators => opt .typeTree typeExpr ++ many .declarator declarators
  | namedVariable _ initializer => opt .expression initializer
  | block statements => many .statement statements
  | conditional condition thenBranch elseBranch =>
    [(.expression, condition), (.statement, thenBranch)] ++ opt .statement elseBranch
  | returnStmt expr => opt .expression expr
  | methodInvocation select _ args _ => opt .expression select ++ many .expression args
  | newClass cls args _ => (.typeTree, cls) :: many .expression args
  | fieldAccess target _ => [(.expression, target)]
  | parenthesized expr => [(.expression, expr)]
  | unary _ operand => [(.expression, operand)]
  | binary _ left right => [(.expression, left), (.expression, right)]
  | assignment target value => [(.expression, target), (.expression, value)]
  | package .. | importDecl .. | identifier .. | literal .. | typeRef .. => []

/-- The children in source order. -/
def children : Shape α → List α
  | compilationUnit _ pkg imports types => pkg.toList ++ imports ++ types
  | classDecl _ _ superclass interfaces body _ => superclass.toList ++ interfaces ++ [body]
  | methodDecl _ returnType _ parameters body _ => returnType.toList ++ parameters ++ body.toList
  | variableDecls _ typeExpr declarators => typeExpr.toList ++ declarators
  | namedVariable _ initializer => initializer.toList
  | block statements => statements
  | conditional condition thenBranch elseBranch => [condition, thenBranch] ++ elseBranch.toList
  | returnStmt expr => expr.toList
  | methodInvocation select _ args _ => select.toList ++ args
  | newClass cls args _ => cls :: args
  | fieldAccess target _ => [target]
  | parenthesized expr => [expr]
  | unary _ operand => [operand]
  | binary _ left right => [left, right]
  | assignment target value => [target, value]
  | package .. | importDecl .. | identifier .. | literal .. | typeRef .. => []

/-- **The two lists of children agree**, kind by kind. -/
theorem children_eq (s : Shape α) : s.children = s.slotted.map (·.2) := by
  have hopt (slot : Slot) (child : Option α) : (opt slot child).map (·.2) = child.toList := by
    simp [opt, Function.comp_def]
  have hmany (slot : Slot) (children : List α) : (many slot children).map (·.2) = children := by
    simp [many, Function.comp_def]
  cases s with
  | compilationUnit | methodDecl | variableDecls | methodInvocation =>
    simp only [children, slotted, List.map_append, hopt, hmany]
  | namedVariable | returnStmt => exact (hopt ..).symm
  | block => exact (hmany ..).symm
  | classDecl => simp only [children, slotted, List.map_append, hopt, hmany, List.map_cons, List.map_nil]
  | conditional => simp only [children, slotted, List.map_append, hopt, List.map_cons, List.map_nil]
  | newClass => simp only [children, slotted, List.map_cons, hmany]
  | fieldAccess | parenthesized | unary | binary | assignment => rfl
  | package | importDecl | identifier | literal | typeRef => rfl

theorem mem_children_of_slotted {s : Shape α} {p : Slot × α} (h : p ∈ s.slotted) : p.2 ∈ s.children := by
  rw [children_eq]
  exact List.mem_map_of_mem h

theorem exists_slotted_of_children {s : Shape α} {c : α} (h : c ∈ s.children) :
    ∃ slot, (slot, c) ∈ s.slotted := by
  rw [children_eq] at h
  obtain ⟨⟨slot, c⟩, hmem, rfl⟩ := List.mem_map.1 h
  exact ⟨slot, hmem⟩

theorem children_congr {s s' : Shape α} (h : s.slotted = s'.slotted) : s.children = s'.children := by
  rw [children_eq, children_eq, h]

theorem length_slotted (s : Shape α) : s.slotted.length = s.children.length := by
  rw [children_eq, List.length_map]

/-- Replaces every child by a function of it and of its index among the children. -/
def mapIdx (f : Nat → α → β) : Shape α → Shape β
  | compilationUnit path pkg imports types =>
    let a := pkg.toList.length
    compilationUnit path (pkg.map (f 0)) (imports.mapIdx fun i => f (a + i))
      (types.mapIdx fun i => f (a + imports.length + i))
  | package name => package name
  | importDecl name isStatic => importDecl name isStatic
  | classDecl modifiers name superclass interfaces body classType =>
    let a := superclass.toList.length
    classDecl modifiers name (superclass.map (f 0)) (interfaces.mapIdx fun i => f (a + i))
      (f (a + interfaces.length) body) classType
  | methodDecl modifiers returnType name parameters body methodType =>
    let a := returnType.toList.length
    methodDecl modifiers (returnType.map (f 0)) name (parameters.mapIdx fun i => f (a + i))
      (body.map (f (a + parameters.length))) methodType
  | variableDecls modifiers typeExpr declarators =>
    let a := typeExpr.toList.length
    variableDecls modifiers (typeExpr.map (f 0)) (declarators.mapIdx fun i => f (a + i))
  | namedVariable name initializer => namedVariable name (initializer.map (f 0))
  | block statements => block (statements.mapIdx f)
  | conditional condition thenBranch elseBranch =>
    conditional (f 0 condition) (f 1 thenBranch) (elseBranch.map (f 2))
  | returnStmt expr => returnStmt (expr.map (f 0))
  | methodInvocation select name args methodType =>
    let a := select.toList.length
    methodInvocation (select.map (f 0)) name (args.mapIdx fun i => f (a + i)) methodType
  | newClass cls args constructorType =>
    newClass (f 0 cls) (args.mapIdx fun i => f (1 + i)) constructorType
  | fieldAccess target name => fieldAccess (f 0 target) name
  | identifier name => identifier name
  | literal value => literal value
  | parenthesized expr => parenthesized (f 0 expr)
  | unary op operand => unary op (f 0 operand)
  | binary op left right => binary op (f 0 left) (f 1 right)
  | assignment target value => assignment (f 0 target) (f 1 value)
  | typeRef name => typeRef name

/-- Replaces every child by a function of it. -/
def map (f : α → β) (s : Shape α) : Shape β := s.mapIdx fun _ => f

theorem list_mapIdx_const (f : α → β) (xs : List α) : (xs.mapIdx fun _ => f) = xs.map f := by
  apply List.ext_getElem <;> simp

/-- The shape with other children, taken from a list in order. -/
def withChildren [Inhabited β] (s : Shape α) (children : List β) : Shape β :=
  s.mapIdx fun i _ => children[i]?.getD default

/-- The signature of an invocation, a constructor call or a method declaration. -/
def methodType : Shape α → Option MethodType
  | methodInvocation _ _ _ t | methodDecl _ _ _ _ _ t | newClass _ _ t => t
  | _ => none

/-- The simple name of a declaration or a reference that has one. -/
def simpleName : Shape α → Option String
  | classDecl _ name .. | methodDecl _ _ name .. | namedVariable name _
  | methodInvocation _ name .. | fieldAccess _ name | identifier name => some name
  | _ => none

def modifiers : Shape α → List Modifier
  | classDecl ms .. | methodDecl ms .. | variableDecls ms .. => ms
  | _ => []

/-- The kinds that have a name take the new one; method types are not touched. -/
def rename (newName : String) : Shape α → Shape α
  | package _ => package newName
  | importDecl _ isStatic => importDecl newName isStatic
  | classDecl ms _ superclass interfaces body classType =>
    classDecl ms newName superclass interfaces body classType
  | methodDecl ms returnType _ parameters body t =>
    methodDecl ms returnType newName parameters body t
  | namedVariable _ initializer => namedVariable newName initializer
  | methodInvocation select _ args t => methodInvocation select newName args t
  | fieldAccess target _ => fieldAccess target newName
  | identifier _ => identifier newName
  | typeRef _ => typeRef newName
  | s => s

/-- The kind has a name to replace. -/
def isNamed : Shape α → Bool
  | package .. | importDecl .. | classDecl .. | methodDecl .. | namedVariable ..
  | methodInvocation .. | fieldAccess .. | identifier .. | typeRef .. => true
  | _ => false

end Shape

end Refactor
