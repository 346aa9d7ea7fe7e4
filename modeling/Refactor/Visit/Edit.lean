import Refactor.Node.Alloc

/-!
The edits a visitor can make to the node it has at hand. Where an edit does not apply to the kind of
the node, the node stays the object it is.
-/

namespace Refactor

inductive Edit where
  /-- A new object of another name. -/
  | rename (newName : String)
  /-- A new object of another name, in the signature too. -/
  | renameMethod (newName : String)
  | setModifiers (modifiers : List Modifier)
  | setClassType (name : String)
  /-- A new object with the sum as its value, for integer literals. -/
  | addInt (amount : Int64)
  /-- A new object, all else equal. -/
  | copy
  /-- A new object with other white space before it. -/
  | setLeading (leading : String)
  /-- Other white space before the node, where it differs. -/
  | lead (leading : String)
  | mark (marker : Marker)
  | unmark (source : String)
  /-- The child of that index in place of the node. -/
  | hoist (child : Nat)
  /-- A tree made from the draft in place of the node. -/
  | replace (draft : Draft)
  /-- A block with one more statement, made from the draft. -/
  | append (draft : Draft)
  /-- A block without its last statement. -/
  | dropLast

/-- The shape with the name replaced, in the signature too. -/
def Shape.renameMethod {α : Type} (newName : String) : Shape α → Shape α
  | .methodInvocation select _ args t =>
    .methodInvocation select newName args (t.map (·.withName newName))
  | .methodDecl ms returnType _ parameters body t =>
    .methodDecl ms returnType newName parameters body (t.map (·.withName newName))
  | s => s

def Edit.apply (e : Edit) (n : Node) : Alloc Node :=
  match e with
  | rename newName => if n.shape.isNamed then n.withShape (n.shape.rename newName) else pure n
  | renameMethod newName =>
    match n.shape with
    | .methodInvocation .. | .methodDecl .. => n.withShape (n.shape.renameMethod newName)
    | _ => pure n
  | setModifiers ms =>
    match n.shape with
    | .variableDecls _ typeExpr declarators => n.withShape (.variableDecls ms typeExpr declarators)
    | _ => pure n
  | setClassType name =>
    match n.shape with
    | .classDecl ms simple superclass interfaces body _ =>
      n.withShape (.classDecl ms simple superclass interfaces body (some name))
    | _ => pure n
  | addInt amount =>
    match n.shape with
    | .literal (.int value) => n.withShape (.literal (.int (value + amount)))
    | _ => pure n
  | copy => n.copy
  | setLeading leading => n.withLeading leading
  | lead leading => n.lead leading
  | mark m => n.mark m
  | unmark source => n.unmark source
  | hoist i => pure (n.children[i]?.getD n)
  | replace draft => draft.place
  | append draft =>
    match n.shape with
    | .block statements => do n.withShape (.block (statements ++ [← draft.place]))
    | _ => pure n
  | dropLast =>
    match n.shape with
    | .block (s :: ss) => n.withShape (.block (s :: ss).dropLast)
    | _ => pure n

end Refactor
