import Refactor.Recipe.Basic

/-!
Setting the visibility of all fields. A field is a declaration that stands right in the body of a
class, wherever the class stands.
-/

namespace Refactor

namespace ChangeFieldVisibility

/-- The node at the cursor is a member of a class. -/
def isMember (c : Cursor) : Bool :=
  match c.ancestors with
  | body :: owner :: _ => body.kind = .block && owner.kind = .classDecl
  | _ => false

/-- Gives the declaration at hand the visibility, unless it has just that. -/
def update (v : Visibility) : Script Visitor :=
  .look fun p =>
    match v.applyTo p.current.modifiers with
    | none => .done
    | some ms =>
      .tell [.event (.visibilityChanged v p.current.label.id)] (.edit (.setModifiers ms) .done)

def visitor (v : Visibility) : Visitor :=
  .plain "syntax_rewrite::ir::transforms::change_field_visibility::FieldVisibilityVisitor" <|
    .look fun p =>
      match p.current.kind with
      | .variableDecls =>
        .walk .variableDecls (if isMember p.cursor then update v else .done)
      | kind => .walk kind .done

def recipe (v : Visibility) : Recipe where
  id := "change-field-visibility:" ++ v.keyword
  displayName := "Change field visibility"
  description := "Replaces the visibility modifier of every field declaration."
  precondition := .hasKind .classDecl
  visitor := visitor v

end ChangeFieldVisibility

end Refactor
