import Refactor.Recipe.Basic
import Refactor.Journal.Basic

/-!
Putting recipes in order: each after all the recipes it names as prerequisites. The order is that
of a depth-first search that goes from each recipe to those that need it, in the order they were
registered, with the recipe finished last coming first. What such a search gives for a relation with
a cycle is found out by checking it.
-/

namespace Refactor

inductive PipelineError where
  | duplicateRecipe (id : String)
  | unknownPrerequisite (recipe prerequisite : String)
  | prerequisiteCycle (recipe : String)
  deriving DecidableEq, Inhabited

def PipelineError.message : PipelineError → String
  | duplicateRecipe id => "recipe '" ++ id ++ "' registered twice"
  | unknownPrerequisite recipe prerequisite =>
    "recipe '" ++ recipe ++ "' requires unknown recipe '" ++ prerequisite ++ "'"
  | prerequisiteCycle recipe => "recipe '" ++ recipe ++ "' is part of a prerequisite cycle"

/-- The recipes in the order they were registered. -/
structure Pipeline where
  recipes : List Recipe := []
  deriving Inhabited

namespace Pipeline

def contains (p : Pipeline) (id : String) : Bool := p.recipes.any (·.id = id)

def add (p : Pipeline) (r : Recipe) : Except PipelineError Pipeline :=
  if p.contains r.id then .error (.duplicateRecipe r.id) else .ok ⟨p.recipes ++ [r]⟩

/-- The first prerequisite, recipe by recipe, that is not registered. -/
def findUnknown (p : Pipeline) : Option PipelineError :=
  p.recipes.findSome? fun r =>
    (r.prerequisites.find? (!p.contains ·)).map (.unknownPrerequisite r.id)

/-- The recipes that name the id as a prerequisite. -/
def dependents (p : Pipeline) (id : String) : List String :=
  (p.recipes.filter (id ∈ ·.prerequisites)).map (·.id)

/-- A depth-first search under way: the recipes come to, and those finished, last one first. -/
structure Search where
  discovered : List String := []
  finished : List String := []

/-- Goes through the recipe and everything that needs it, with fuel for the depth. A recipe that
needs itself ends the search. -/
def explore (p : Pipeline) : Nat → Search → String → Except PipelineError Search
  | 0, s, _ => .ok s
  | fuel + 1, s, id =>
    if id ∈ s.discovered then .ok s
    else if id ∈ p.dependents id then .error (.prerequisiteCycle id)
    else do
      let s ← (p.dependents id).foldlM (explore p fuel)
        { s with discovered := id :: s.discovered }
      return { s with finished := id :: s.finished }

/-- The ids, last finished first. No way through the recipes is longer than their number. -/
def finishOrder (p : Pipeline) : Except PipelineError (List String) := do
  let s ← (p.recipes.map (·.id)).foldlM (explore p p.recipes.length) {}
  return s.finished

/-- The first prerequisite that comes only after a recipe that needs it. -/
def findLate (p : Pipeline) (placed : List String) : List String → Option String
  | [] => none
  | id :: rest =>
    let needs := (p.recipes.find? (·.id = id)).elim [] (·.prerequisites)
    match needs.find? (· ∉ id :: placed) with
    | some late => some late
    | none => findLate p (id :: placed) rest

/-- The recipes in an order in which each comes after its prerequisites. -/
def ordered (p : Pipeline) : Except PipelineError (List Recipe) := do
  if let some e := p.findUnknown then throw e
  let ids ← p.finishOrder
  if let some late := p.findLate [] ids then throw (.prerequisiteCycle late)
  return ids.filterMap fun id => p.recipes.find? (·.id = id)

/-- Registers the recipes in turn and puts them in order. -/
def order (recipes : List Recipe) : Except PipelineError (List Recipe) := do
  let p ← recipes.foldlM add {}
  p.ordered

/-- What is reported of an order. -/
def report (recipes : List Recipe) : Entry := .event (.recipesOrdered (recipes.map (·.id)))

end Pipeline

end Refactor
