import Refactor.Recipe.Basic

/-!
Moving everything that refers to one package to another: package declarations, imports, type
references, and the full names of declared classes.
-/

namespace Refactor

namespace ChangePackage

/-- Moves the reference that the node at hand makes. -/
def moveReference (m : PackageMatcher) (newPackage : String) : Script Visitor :=
  .look fun p =>
    match p.current.shape.reference with
    | none => .done
    | some (kind, value) =>
      match m.moved newPackage value with
      | none => .done
      | some new => .tell [.event (.referenceRenamed kind value new)] (.edit (.rename new) .done)

/-- Moves the full name of the class at hand. -/
def moveClass (m : PackageMatcher) (newPackage : String) : Script Visitor :=
  .look fun p =>
    match p.current.shape with
    | .classDecl _ _ _ _ _ (some name) =>
      match m.moved newPackage name with
      | none => .done
      | some new => .edit (.setClassType new) .done
    | _ => .done

def visitor (m : PackageMatcher) (newPackage : String) : Visitor :=
  .plain "syntax_rewrite::ir::transforms::change_package::MovePackageReferences" <|
    .look fun p =>
      match p.current.kind with
      | .package | .importDecl | .typeRef => moveReference m newPackage
      | .classDecl => .walk .classDecl (moveClass m newPackage)
      | kind => .walk kind .done

def recipe (m : PackageMatcher) (newPackage : String) : Recipe where
  id := "change-package:" ++ m.package ++ "->" ++ newPackage
  displayName := "Change package"
  precondition := .anyNode ("references " ++ m.package) fun t => pure (m.matchesTree t)
  visitor := visitor m newPackage

end ChangePackage

end Refactor
