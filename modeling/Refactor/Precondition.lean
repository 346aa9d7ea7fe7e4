import Refactor.Pattern.MethodPattern

/-!
Conditions on whole trees that gate a visitor. They are evaluated from left to right and only as far
as the answer needs, so what they write to the journal tells how far that was.
-/

namespace Refactor

/-- A test of one node, by whichever of its fields are given. -/
structure NodeTest where
  kind : Option Kind := none
  name : Option String := none
  id : Option NodeId := none
  declares : Option String := none
  modifier : Option Modifier := none
  markedBy : Option String := none
  int : Option Int64 := none
  deriving Inhabited

/-- All the given fields hold of the node. -/
def NodeTest.holds (q : NodeTest) (t : Tree) : Bool :=
  q.kind.all (t.kind = ·) && q.name.all (t.simpleName = some ·) && q.id.all (t.label.id = ·) &&
    q.declares.all t.declaresName && q.modifier.all (· ∈ t.modifiers) &&
    q.markedBy.all (fun s => t.label.markers.any (·.source = s)) &&
    q.int.all fun n => match t.shape with
      | .literal (.int m) => m = n
      | _ => false

/-- The test as one that notes each node it is put to, under a name. -/
def NodeTest.noted (q : NodeTest) (name : String) (t : Tree) : Traced Bool :=
  ⟨q.holds t, [.note (.array [.string name, t.label.id.toJson])]⟩

inductive Precondition where
  | always
  /-- A test of the root. -/
  | tree (name : String) (test : Tree → Traced Bool)
  /-- Some node passes the test. -/
  | anyNode (name : String) (test : Tree → Traced Bool)
  | usesMethod (pattern : MethodPattern)
  | usesType (pattern : TypePattern)
  | hasKind (kind : Kind)
  | and (all : List Precondition)
  | or (any : List Precondition)
  | not (inner : Precondition)
  deriving Inhabited

namespace Precondition

/-- The types that a node mentions, in the order in which they are tried. -/
def typesIn (t : Tree) : List String :=
  match t.shape with
  | .typeRef name => [name]
  | .classDecl _ _ _ _ _ (some name) => [name]
  | s => s.methodType.elim [] fun m => m.declaringType :: m.parameterTypes ++ m.returnType.toList

mutual
def evaluate (h : Hierarchy) (t : Tree) : Precondition → Traced Bool
  | always => pure true
  | tree _ test => test t
  | anyNode _ test => Traced.any test t.descendants
  | usesMethod p => Traced.any (p.matchesTree h) t.descendants
  | usesType p => Traced.any (fun d => Traced.any (p.matchesIn h) (typesIn d)) t.descendants
  | hasKind k => pure (t.any (·.kind = k))
  | and ps => evaluateAll h t ps
  | or ps => evaluateAny h t ps
  | not p => do return !(← evaluate h t p)
def evaluateAll (h : Hierarchy) (t : Tree) : List Precondition → Traced Bool
  | [] => pure true
  | p :: ps => do
    if ← evaluate h t p then evaluateAll h t ps else pure false
def evaluateAny (h : Hierarchy) (t : Tree) : List Precondition → Traced Bool
  | [] => pure false
  | p :: ps => do
    if ← evaluate h t p then pure true else evaluateAny h t ps
end

mutual
/-- The condition in words, as messages show it. -/
def text : Precondition → String
  | always => "Always"
  | tree name _ => "Tree(" ++ name ++ ")"
  | anyNode name _ => "AnyNode(" ++ name ++ ")"
  | usesMethod p => "UsesMethod(" ++ p.text ++ ")"
  | usesType p => "UsesType(" ++ p.text ++ ")"
  | hasKind k => "HasKind(" ++ k.name ++ ")"
  | and ps => "And([" ++ ", ".intercalate (texts ps) ++ "])"
  | or ps => "Or([" ++ ", ".intercalate (texts ps) ++ "])"
  | not p => "Not(" ++ text p ++ ")"
def texts : List Precondition → List String
  | [] => []
  | p :: ps => text p :: texts ps
end

end Precondition

end Refactor
