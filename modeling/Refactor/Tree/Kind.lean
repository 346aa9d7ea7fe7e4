/-!
The kinds of nodes, and the slots that a parent has for its children. A slot accepts some kinds
and no others.
-/

namespace Refactor

inductive Kind where
  | compilationUnit
  | package
  | importDecl
  | classDecl
  | methodDecl
  | variableDecls
  | namedVariable
  | block
  | conditional
  | returnStmt
  | methodInvocation
  | newClass
  | fieldAccess
  | identifier
  | literal
  | parenthesized
  | unary
  | binary
  | assignment
  | typeRef
  deriving DecidableEq, Inhabited

namespace Kind

def all : List Kind :=
  [compilationUnit, package, importDecl, classDecl, methodDecl, variableDecls, namedVariable, block,
    conditional, returnStmt, methodInvocation, newClass, fieldAccess, identifier, literal,
    parenthesized, unary, binary, assignment, typeRef]

/-- The name that messages and recipes use. -/
def name : Kind → String
  | compilationUnit => "CompilationUnit"
  | package => "Package"
  | importDecl => "Import"
  | classDecl => "ClassDecl"
  | methodDecl => "MethodDecl"
  | variableDecls => "VariableDecls"
  | namedVariable => "NamedVariable"
  | block => "Block"
  | conditional => "If"
  | returnStmt => "Return"
  | methodInvocation => "MethodInvocation"
  | newClass => "NewClass"
  | fieldAccess => "FieldAccess"
  | identifier => "Identifier"
  | literal => "Literal"
  | parenthesized => "Parenthesized"
  | unary => "Unary"
  | binary => "Binary"
  | assignment => "Assignment"
  | typeRef => "TypeRef"

def ofName? (s : String) : Option Kind := all.find? (·.name == s)

def isExpression : Kind → Bool
  | methodInvocation | newClass | fieldAccess | identifier | literal | parenthesized | unary
  | binary | assignment => true
  | _ => false

/-- Every expression can stand as a statement. -/
def isStatement : Kind → Bool
  | variableDecls | block | conditional | returnStmt | classDecl | methodDecl => true
  | k => k.isExpression

def isTypeTree : Kind → Bool
  | typeRef | identifier | fieldAccess => true
  | _ => false

/-- The kinds that never have children. -/
def isLeaf : Kind → Bool
  | package | importDecl | identifier | literal | typeRef => true
  | _ => false

/-- An expression that needs no parentheses as an operand, or has them. -/
def isPrimary : Kind → Bool
  | identifier | literal | methodInvocation | fieldAccess | newClass | parenthesized => true
  | _ => false

end Kind

/-- What a parent asks of the child at one of its places. -/
inductive Slot where
  | expression
  | statement
  | typeTree
  | block
  | typeDecl
  | importDecl
  | package
  | declarator
  | parameter
  deriving DecidableEq, Inhabited

namespace Slot

def all : List Slot :=
  [expression, statement, typeTree, block, typeDecl, importDecl, package, declarator, parameter]

def name : Slot → String
  | expression => "Expression"
  | statement => "Statement"
  | typeTree => "TypeTree"
  | block => "Block"
  | typeDecl => "TypeDecl"
  | importDecl => "Import"
  | package => "Package"
  | declarator => "Variable"
  | parameter => "Parameter"

def accepts : Slot → Kind → Bool
  | expression, k => k.isExpression
  | statement, k => k.isStatement
  | typeTree, k => k.isTypeTree
  | block, k => k = .block
  | typeDecl, k => k = .classDecl
  | importDecl, k => k = .importDecl
  | package, k => k = .package
  | declarator, k => k = .namedVariable
  | parameter, k => k = .variableDecls

end Slot

end Refactor
