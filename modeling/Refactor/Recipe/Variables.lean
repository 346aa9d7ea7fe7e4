import Refactor.Recipe.Basic

/-!
Renaming one local variable or parameter, told by the id of its declaration, with all its uses. The
declaration is renamed on the way through the tree; the uses are left to a second visitor that runs
on the block or method once that is done.
-/

namespace Refactor

namespace RenameVariable

/-- Renames the uses of a name that resolve to the binding made at the scope. -/
def usesVisitor (scope : NodeId) (old new : String) : Visitor :=
  .plain "syntax_rewrite::ir::transforms::rename_variable::RenameReferences" <|
    .look fun p =>
      match p.current.shape with
      | .identifier name =>
        let resolves := (p.cursor.findFrame scope).any fun frame =>
          frame.inSameNameScope p.cursor old
        if name = old && resolves then .edit (.rename new) .done else .done
      | s => .walk s.kind .done

/-- The name that the variable of that id has, if it is declared here and is to be renamed. -/
def pendingName (declaration : NodeId) (newName : String) (decls : Tree) : Option String := do
  let v ← decls.declaredVariables.find? (·.label.id = declaration)
  v.simpleName.filter (· ≠ newName)

/-- The declarations that make bindings for a block or a method. -/
def bindingDecls (t : Tree) : List Tree :=
  match t.shape with
  | .block statements => statements
  | .methodDecl _ _ _ parameters _ _ => parameters
  | _ => []

/-- Leaves the uses of the name to be renamed once the scope is done. -/
def followUp (scope : Tree) (old new : String) : Script Visitor :=
  .tell [.event (.usesRenamed old new scope.kind scope.label.id)]
    (.defer (usesVisitor scope.label.id old new) .done)

def visitor (declaration : NodeId) (newName : String) : Visitor :=
  .plain "syntax_rewrite::ir::transforms::rename_variable::RenameDeclaration" <|
    .look fun p =>
      match p.current.kind with
      | .namedVariable =>
        .walk .namedVariable <| .look fun p =>
          if p.current.label.id = declaration && p.current.simpleName ≠ some newName then
            .edit (.rename newName) .done
          else .done
      | kind =>
        .walk kind <|
          match (bindingDecls p.current).findSome? (pendingName declaration newName) with
          | none => .done
          | some old => followUp p.current old newName

def recipe (declaration : NodeId) (newName : String) : Recipe where
  id := "rename-variable:" ++ declaration.text ++ "->" ++ newName
  displayName := "Rename variable"
  visitor := visitor declaration newName

end RenameVariable

end Refactor
