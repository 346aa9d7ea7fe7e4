import Refactor.Recipe.Basic

/-!
Removing parentheses that do not matter. They stay around an operand that binds no tighter than the
operator it belongs to.
-/

namespace Refactor

namespace UnwrapParentheses

/-- The node of that id stands where its parent takes an operand. -/
def isOperand (id : NodeId) (parent : Tree) : Bool :=
  match parent.shape with
  | .binary .. | .unary .. | .fieldAccess .. => true
  | .methodInvocation (some select) .. => select.label.id = id
  | _ => false

/-- Puts the inner expression in place of the parentheses at hand, with their white space. -/
def update : Script Visitor :=
  .look fun p =>
    match p.current.shape with
    | .parenthesized expr =>
      if p.cursor.parentNode.any (isOperand p.current.label.id) && !expr.kind.isPrimary then .done
      else .edit (.hoist 0) (.edit (.lead p.current.label.leading) .done)
    | _ => .done

def visitor : Visitor :=
  .plain "syntax_rewrite::ir::transforms::unwrap_parentheses::UnwrapVisitor" <|
    .look fun p =>
      match p.current.kind with
      | .parenthesized => .walk .parenthesized update
      | kind => .walk kind .done

def recipe : Recipe where
  id := "unwrap-parentheses"
  displayName := "Remove unnecessary parentheses"
  precondition := .hasKind .parenthesized
  visitor := visitor

end UnwrapParentheses

end Refactor
