import Refactor.Recipe.Basic
import Refactor.Visit.Walk

/-!
Running recipes over a tree until nothing changes any more. A run goes in cycles; in each of them
every recipe makes one pass over what the recipes before it have made of the tree. The history of
passes tells everything about a run: which recipes changed the tree, and which failed and are left
out from then on.
-/

namespace Refactor

structure Engine where
  /-- The bound on the cycles; zero counts as one. -/
  maxCycles : Nat := 3
  hierarchy : Hierarchy := {}
  /-- Whether the engine heeds requests to stop. -/
  stoppable : Bool := true
  /-- How many levels of nested visits, and how many queued passes, a visitor may take beyond the
  height of the tree it is given. -/
  headroom : Nat := 1000000
  deriving Inhabited

/-- One pass of a recipe. -/
structure Pass where
  cycle : Nat
  /-- The place of the recipe in the list. -/
  position : Nat
  recipe : Recipe
  input : Node
  outcome : Except VisitError Node

namespace Pass

/-- The tree after the pass. A pass that failed leaves the tree as it was. -/
def output (p : Pass) : Node :=
  match p.outcome with
  | .ok n => n
  | .error _ => p.input

/-- The pass came back with another object. -/
def changed (p : Pass) : Bool :=
  match p.outcome with
  | .ok n => !n.same p.input
  | .error _ => false

def failed (p : Pass) : Bool :=
  match p.outcome with
  | .ok _ => false
  | .error _ => true

/-- What is reported of a pass that has visited so many nodes. -/
def report (p : Pass) (visited : Nat) : Event :=
  match p.outcome with
  | .ok _ =>
    if p.changed then .passChanged p.recipe.id p.cycle visited
    else .passUnchanged p.recipe.id p.cycle
  | .error e => .passFailed p.recipe.id p.cycle e

end Pass

/-- A run under way. -/
structure Progress where
  tree : Node
  /-- The passes so far, in order. -/
  history : List Pass := []
  session : Session
  deriving Inhabited

/-- Some pass at that position has failed. -/
def Progress.hasFailed (r : Progress) (position : Nat) : Bool :=
  r.history.any fun p => p.position = position && p.failed

/-- Some pass of that cycle has changed the tree. -/
def Progress.changedIn (r : Progress) (cycle : Nat) : Bool :=
  r.history.any fun p => p.cycle = cycle && p.changed

def Progress.tell (r : Progress) (e : Event) : Progress :=
  { r with session := r.session.tell [.event e] }

/-- Takes in a pass with the state it ended in. -/
def Progress.record (r : Progress) (p : Pass) (c : Context) : Progress where
  tree := p.output
  history := r.history ++ [p]
  session := c.session.tell [.event (p.report c.visited)]

structure Failure where
  recipe : String
  cycle : Nat
  error : VisitError
  deriving DecidableEq, Inhabited

structure RunResult where
  tree : Node
  history : List Pass
  cycles : Nat
  termination : Termination
  deriving Inhabited

namespace RunResult

/-- Every marker on the resulting tree, with the id of its node. -/
def markers (r : RunResult) : List (NodeId × Marker) := r.tree.content.collectMarkers

def markersFrom (r : RunResult) (source : String) : List (NodeId × Marker) :=
  r.markers.filter (·.2.source = source)

/-- The positions of the recipes that changed the tree, in the order of their first change. -/
def changedPositions (r : RunResult) : List Nat :=
  ((r.history.filter (·.changed)).map (·.position)).eraseDups

/-- Their ids, one for each position. -/
def changedRecipes (r : RunResult) : List String :=
  r.changedPositions.filterMap fun i => (r.history.find? (·.position = i)).map (·.recipe.id)

def isChanged (r : RunResult) : Bool := !r.changedPositions.isEmpty

/-- The passes that failed, in order. -/
def failures (r : RunResult) : List Failure :=
  r.history.filterMap fun p =>
    match p.outcome with
    | .ok _ => none
    | .error e => some ⟨p.recipe.id, p.cycle, e⟩

end RunResult

namespace Engine

/-- A fresh context for a pass of the recipe. -/
def context (e : Engine) (r : Recipe) (cycle : Nat) (session : Session) : Context where
  source := r.id
  cycle := cycle
  hierarchy := e.hierarchy
  session := session

/-- The fuel for a pass over the tree. -/
def fuel (e : Engine) (n : Node) : Nat := n.height + e.headroom + 3

/-- Makes one pass of the recipe at that position, unless it has failed before or has had its
cycles. There is no result if the fuel runs out. -/
def runRecipe (e : Engine) (cycle : Nat) (r : Progress) (item : Recipe × Nat) : Option Progress :=
  let (recipe, position) := item
  if r.hasFailed position || recipe.maxCycles < cycle then some r
  else
    match runPass (e.fuel r.tree) recipe.gatedVisitor r.tree (e.context recipe cycle r.session) with
    | .done n c => some (r.record ⟨cycle, position, recipe, r.tree, .ok n⟩ c)
    | .failed error c => some (r.record ⟨cycle, position, recipe, r.tree, .error error⟩ c)
    | .exhausted => none

/-- Lets every recipe make its pass. -/
def runCycle (e : Engine) (recipes : List Recipe) (cycle : Nat) (r : Progress) : Option Progress :=
  recipes.zipIdx.foldlM (e.runRecipe cycle) r

/-- Runs so many cycles at most, of which `cycle` is the next. -/
def runCycles (e : Engine) (recipes : List Recipe) :
    Nat → Nat → Progress → Option (Progress × Nat × Termination)
  | 0, cycle, r => some (r, cycle - 1, .cycleLimit)
  | left + 1, cycle, r =>
    if e.stoppable && r.session.cancelled then
      some (r.tell (.cancelledBefore cycle), cycle - 1, .cancelled)
    else do
      let r ← e.runCycle recipes cycle r
      if r.changedIn cycle then e.runCycles recipes left (cycle + 1) r
      else some (r, cycle, .converged)

/-- What is reported at the end of a run. -/
def closing (termination : Termination) (cycles : Nat) : List Entry :=
  (if termination = .cycleLimit then [.event (.limitReached cycles)] else []) ++
    [.event (.runFinished termination cycles)]

/-- Applies the recipes in order, cycle by cycle, until a cycle changes nothing, the bound is
reached or the run is asked to stop. -/
def run (e : Engine) (recipes : List Recipe) (tree : Node) (session : Session) :
    Option (RunResult × Session) := do
  let (r, cycles, termination) ← e.runCycles recipes (max e.maxCycles 1) 1 { tree, session }
  return (⟨r.tree, r.history, cycles, termination⟩, r.session.tell (closing termination cycles))

/-- Runs the recipes over each of the trees. -/
def runAll (e : Engine) (recipes : List Recipe) :
    List Node → Session → Option (List RunResult × Session)
  | [], session => some ([], session)
  | tree :: trees, session => do
    let (result, session) ← e.run recipes tree session
    let (results, session) ← e.runAll recipes trees session
    return (result :: results, session)

end Engine

end Refactor
