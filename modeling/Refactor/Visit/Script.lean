import Refactor.Precondition
import Refactor.Visit.Edit

/-!
Visitors. What a visitor does at a node is a script: it looks at the place it is at, walks the
children, edits the node at hand, and leaves further visitors for later. A script sees content only
and never the identity of objects, so a visitor does the same to any two trees of the same content.
-/

namespace Refactor

/-- What a visitor sees: the node at hand, where it is, and how far the pass has come. -/
structure Place where
  current : Tree
  cursor : Cursor
  /-- The source of the markers that the pass adds. -/
  source : String
  cycle : Nat
  hierarchy : Hierarchy
  /-- The number of nodes visited so far. -/
  visited : Nat
  /-- Whole-tree passes are waiting. -/
  pending : Bool
  deriving Inhabited

/-- What is done at a node, with visitors of type `ν` to leave for later. -/
inductive Script (ν : Type) where
  /-- The node at hand is the result. -/
  | done
  | fail (error : VisitError)
  /-- Goes on as the place requires. -/
  | look (next : Place → Script ν)
  /-- Visits the children of the node at hand, which has to be of that kind. -/
  | walk (kind : Kind) (next : Script ν)
  | edit (e : Edit) (next : Script ν)
  | tell (entries : List Entry) (next : Script ν)
  /-- Leaves a visitor to run on the result, once this node is done. -/
  | defer (visitor : ν) (next : Script ν)
  /-- Leaves a visitor to run over the whole tree, once this pass is done. -/
  | queue (visitor : ν) (next : Script ν)
  /-- Asks for the run to stop after the cycle. -/
  | cancel (next : Script ν)
  deriving Inhabited

inductive Visitor where
  | plain (name : String) (script : Script Visitor)
  /-- Runs on a tree only if the condition holds of it. -/
  | gated (condition : Precondition) (inner : Visitor)

instance : Inhabited Visitor := ⟨.plain "" .done⟩

namespace Visitor

def name : Visitor → String
  | plain name _ => name
  | gated _ inner => inner.name

/-- Puts a condition before a visitor, unless it always holds. -/
def guarded (v : Visitor) (condition : Precondition) : Visitor :=
  match condition with
  | .always => v
  | condition => gated condition v

end Visitor

/-- Walks the node at hand as what it is and leaves it at that. -/
def Script.walkOn {ν : Type} : Script ν := .look fun p => .walk p.current.kind .done

end Refactor
