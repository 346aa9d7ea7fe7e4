import Refactor.Recipe.Basic

/-!
Finding the uses of methods, and renaming methods. Both decide on a node after its children are
done, and both are gated by the question whether the tree has any matching method at all.
-/

namespace Refactor

/-- Goes on one way or the other as the pattern matches the node at hand. -/
def Script.ifMatches (pattern : MethodPattern) (p : Place) (yes no : Script Visitor) :
    Script Visitor :=
  let answer := pattern.matchesTree p.hierarchy p.current
  .tell answer.entries (if answer.value then yes else no)

namespace FindMethods

def visitor (pattern : MethodPattern) : Visitor :=
  .plain "syntax_rewrite::ir::transforms::find_methods::MarkMatches" <|
    .look fun p =>
      match p.current.kind with
      | .methodInvocation | .newClass | .methodDecl =>
        .walk p.current.kind <| .look fun p =>
          .ifMatches pattern p
            (.edit (.mark ⟨p.source, .searchResult (some pattern.text)⟩) .done) .done
      | kind => .walk kind .done

def recipe (pattern : MethodPattern) : Recipe where
  id := "find-methods:" ++ pattern.text ++ if pattern.overrides then " (overrides)" else ""
  displayName := "Find method usages"
  precondition := .usesMethod pattern
  visitor := visitor pattern

end FindMethods

namespace ChangeMethodName

def renamed (kind : Kind) (old new : String) : Event :=
  match kind with
  | .methodDecl => .declarationRenamed old new
  | _ => .callRenamed old new

/-- Renames the call or declaration at hand if it has another name and matches. -/
def update (pattern : MethodPattern) (newName : String) : Script Visitor :=
  .look fun p =>
    match p.current.simpleName with
    | none => .done
    | some name =>
      if name = newName then .done
      else
        .ifMatches pattern p
          (.tell [.event (renamed p.current.kind name newName)]
            (.edit (.renameMethod newName) .done))
          .done

def visitor (pattern : MethodPattern) (newName : String) : Visitor :=
  .plain "syntax_rewrite::ir::transforms::change_method_name::RenameMethods" <|
    .look fun p =>
      match p.current.kind with
      | .methodInvocation | .methodDecl => .walk p.current.kind (update pattern newName)
      | kind => .walk kind .done

def recipe (pattern : MethodPattern) (newName : String) : Recipe where
  id := "change-method-name:" ++ pattern.text ++ "->" ++ newName
  displayName := "Change method name"
  precondition := .usesMethod pattern
  visitor := visitor pattern newName

end ChangeMethodName

end Refactor
