import Refactor.Tree.Shape

/-!
Trees whose every node carries a label beside its shape. `fold` is the one recursion over them that
knows the layers; the others are instances of it.
-/

namespace Refactor

inductive Labelled (β : Type) where
  | mk (label : β) (shape : Shape (Labelled β))

namespace Labelled

variable {β γ : Type}

instance [Inhabited β] : Inhabited (Labelled β) := ⟨.mk default (.package "")⟩

def label : Labelled β → β
  | mk l _ => l

def shape : Labelled β → Shape (Labelled β)
  | mk _ s => s

def kind (t : Labelled β) : Kind := t.shape.kind

def children (t : Labelled β) : List (Labelled β) := t.shape.children

def simpleName (t : Labelled β) : Option String := t.shape.simpleName

def modifiers (t : Labelled β) : List Modifier := t.shape.modifiers

def methodType (t : Labelled β) : Option MethodType := t.shape.methodType

mutual
/-- Bottom-up evaluation: a node's value from the node and the values of its children. -/
def fold (f : Labelled β → Shape γ → γ) : Labelled β → γ
  | mk l s => f (mk l s) (foldShape f s)
def foldShape (f : Labelled β → Shape γ → γ) : Shape (Labelled β) → Shape γ
  | .compilationUnit path pkg imports types =>
    .compilationUnit path (foldOption f pkg) (foldList f imports) (foldList f types)
  | .package name => .package name
  | .importDecl name isStatic => .importDecl name isStatic
  | .classDecl ms name superclass interfaces body classType =>
    .classDecl ms name (foldOption f superclass) (foldList f interfaces) (fold f body) classType
  | .methodDecl ms returnType name parameters body t =>
    .methodDecl ms (foldOption f returnType) name (foldList f parameters) (foldOption f body) t
  | .variableDecls ms typeExpr declarators =>
    .variableDecls ms (foldOption f typeExpr) (foldList f declarators)
  | .namedVariable name initializer => .namedVariable name (foldOption f initializer)
  | .block statements => .block (foldList f statements)
  | .conditional condition thenBranch elseBranch =>
    .conditional (fold f condition) (fold f thenBranch) (foldOption f elseBranch)
  | .returnStmt expr => .returnStmt (foldOption f expr)
  | .methodInvocation select name args t =>
    .methodInvocation (foldOption f select) name (foldList f args) t
  | .newClass cls args t => .newClass (fold f cls) (foldList f args) t
  | .fieldAccess target name => .fieldAccess (fold f target) name
  | .identifier name => .identifier name
  | .literal value => .literal value
  | .parenthesized expr => .parenthesized (fold f expr)
  | .unary op operand => .unary op (fold f operand)
  | .binary op left right => .binary op (fold f left) (fold f right)
  | .assignment target value => .assignment (fold f target) (fold f value)
  | .typeRef name => .typeRef name
def foldOption (f : Labelled β → Shape γ → γ) : Option (Labelled β) → Option γ
  | none => none
  | some t => some (fold f t)
def foldList (f : Labelled β → Shape γ → γ) : List (Labelled β) → List γ
  | [] => []
  | t :: ts => fold f t :: foldList f ts
end

theorem foldOption_eq (f : Labelled β → Shape γ → γ) (o : Option (Labelled β)) :
    foldOption f o = o.map (fold f) := by
  cases o <;> rfl

theorem foldList_eq (f : Labelled β → Shape γ → γ) (ts : List (Labelled β)) :
    foldList f ts = ts.map (fold f) := by
  induction ts with
  | nil => rfl
  | cons t ts ih => simp [foldList, ih]

theorem foldShape_eq (f : Labelled β → Shape γ → γ) (s : Shape (Labelled β)) :
    foldShape f s = s.map (fold f) := by
  cases s <;>
    simp [foldShape, Shape.map, Shape.mapIdx, Shape.list_mapIdx_const, foldOption_eq, foldList_eq]

/-- A fold is what its step makes of the folds of the children. -/
theorem fold_mk (f : Labelled β → Shape γ → γ) (l : β) (s : Shape (Labelled β)) :
    fold f (mk l s) = f (mk l s) (s.map (fold f)) := by
  rw [fold, foldShape_eq]

/-- The tree with every label replaced by a function of it. -/
def map (g : β → γ) (t : Labelled β) : Labelled γ := t.fold fun t s => mk (g t.label) s

/-- The node and everything below it, in pre-order. -/
def descendants (t : Labelled β) : List (Labelled β) := t.fold fun t s => t :: s.children.flatten

/-- The number of nodes on the longest way down. -/
def height (t : Labelled β) : Nat := t.fold fun _ s => s.children.foldl max 0 + 1

/-- Some node of the tree passes the test. -/
def any (test : Labelled β → Bool) (t : Labelled β) : Bool := t.descendants.any test

/-- Every child of every node is of a kind that its slot accepts. -/
def slotValid (t : Labelled β) : Bool :=
  t.descendants.all fun d => d.shape.slotted.all fun (slot, child) => slot.accepts child.kind

/-- The variables that a declaration statement declares, none for any other node. -/
def declaredVariables (t : Labelled β) : List (Labelled β) :=
  match t.shape with
  | .variableDecls _ _ declarators => declarators
  | _ => []

/-- The variables bound by a node for what is below it: a block binds the locals it declares, a
method its parameters, a class its fields. -/
def boundVariables (t : Labelled β) : List (Labelled β) :=
  match t.shape with
  | .block statements => statements.flatMap declaredVariables
  | .methodDecl _ _ _ parameters _ _ => parameters.flatMap declaredVariables
  | .classDecl _ _ _ _ body _ =>
    match body.shape with
    | .block statements => statements.flatMap declaredVariables
    | _ => []
  | _ => []

/-- The node binds a variable of that name. -/
def declaresName (t : Labelled β) (name : String) : Bool :=
  t.boundVariables.any (·.simpleName = some name)

end Labelled

end Refactor
