import Refactor.Pattern.Package
import Refactor.Tree.Visibility
import Refactor.Visit.Error

/-!
The events that a run reports as it goes, with their levels and wording.
-/

namespace Refactor

inductive Level where
  | trace
  | debug
  | info
  | warn
  deriving DecidableEq, Inhabited

def Level.name : Level → String
  | trace => "TRACE"
  | debug => "DEBUG"
  | info => "INFO"
  | warn => "WARN"

/-- How a run came to its end. -/
inductive Termination where
  | converged
  | cycleLimit
  | cancelled
  deriving DecidableEq, Inhabited

def Termination.text : Termination → String
  | converged => "converged"
  | cycleLimit => "cycle limit reached"
  | cancelled => "cancelled"

inductive Event where
  | deferredRun (visitor : String) (kind : Kind) (id : NodeId)
  | queuedRun (visitor source : String)
  | gateClosed (visitor condition : String)
  | supertypeRevisited (name start : String)
  | visibilityChanged (visibility : Visibility) (id : NodeId)
  | callRenamed (old new : String)
  | declarationRenamed (old new : String)
  | referenceRenamed (kind : ReferenceKind) (old new : String)
  | usesRenamed (old new : String) (scope : Kind) (id : NodeId)
  | recipesOrdered (ids : List String)
  | cancelledBefore (cycle : Nat)
  | passUnchanged (recipe : String) (cycle : Nat)
  | passChanged (recipe : String) (cycle visited : Nat)
  | passFailed (recipe : String) (cycle : Nat) (error : VisitError)
  | limitReached (cycles : Nat)
  | runFinished (termination : Termination) (cycles : Nat)
  deriving DecidableEq, Inhabited

namespace Event

def level : Event → Level
  | deferredRun .. | queuedRun .. | supertypeRevisited .. | visibilityChanged .. | callRenamed ..
  | declarationRenamed .. | referenceRenamed .. => .trace
  | gateClosed .. | usesRenamed .. | recipesOrdered .. | passUnchanged .. | passChanged ..
  | runFinished .. => .debug
  | cancelledBefore .. => .info
  | passFailed .. | limitReached .. => .warn

def message : Event → String
  | deferredRun visitor kind id =>
    "Running deferred visitor '" ++ visitor ++ "' on " ++ kind.name ++ " " ++ id.text
  | queuedRun visitor source => "Running queued pass '" ++ visitor ++ "' for " ++ source
  | gateClosed visitor condition =>
    "Skipping '" ++ visitor ++ "': precondition " ++ condition ++ " not met"
  | supertypeRevisited name start => "Supertype " ++ name ++ " already visited from " ++ start
  | visibilityChanged visibility id =>
    "Changing field visibility to " ++ visibility.name ++ " on " ++ id.text
  | callRenamed old new => "Renaming call " ++ old ++ " to " ++ new
  | declarationRenamed old new => "Renaming declaration " ++ old ++ " to " ++ new
  | referenceRenamed kind old new =>
    "Renaming " ++ kind.name ++ " reference " ++ old ++ " to " ++ new
  | usesRenamed old new scope id =>
    "Renaming references to '" ++ old ++ "' as '" ++ new ++ "' in " ++ scope.name ++ " " ++ id.text
  | recipesOrdered ids => "Recipe order: " ++ " -> ".intercalate ids
  | cancelledBefore cycle => "Run cancelled before cycle " ++ toString cycle
  | passUnchanged recipe cycle =>
    "Recipe '" ++ recipe ++ "' made no change in cycle " ++ toString cycle
  | passChanged recipe cycle visited =>
    "Recipe '" ++ recipe ++ "' changed the tree in cycle " ++ toString cycle ++ " (" ++
      toString visited ++ " nodes visited)"
  | passFailed recipe cycle error =>
    "Recipe '" ++ recipe ++ "' failed in cycle " ++ toString cycle ++ ": " ++ error.message
  | limitReached cycles => "Stopped after " ++ toString cycles ++ " cycles without converging"
  | runFinished termination cycles =>
    "Run finished: " ++ termination.text ++ " after " ++ toString cycles ++ " cycle(s)"

end Event

end Refactor
