import Refactor.Types.Signature

/-!
The class hierarchy: what is known of each class, by name, and the search through everything above
a type. Supertypes are named and not linked, so the table may be incomplete or cyclic; the search
takes every name at most once and so ends on any table.
-/

namespace Refactor

/-- What is known of the classes, at most one entry for each name. -/
structure Hierarchy where
  classes : List ClassType := []
  distinct : classes.Pairwise (·.name ≠ ·.name) := by exact .nil

instance : Inhabited Hierarchy := ⟨{}⟩

namespace Hierarchy

/-- Adds a class in place of any known one of that name. -/
def insert (h : Hierarchy) (c : ClassType) : Hierarchy where
  classes := h.classes.filter (·.name ≠ c.name) ++ [c]
  distinct := List.pairwise_append.2 ⟨h.distinct.filter _, List.pairwise_singleton _ _, by simp⟩

def ofList (classes : List ClassType) : Hierarchy := classes.foldl insert {}

/-- The class of that name, looked up without generic arguments. -/
def lookup (h : Hierarchy) (name : String) : Option ClassType :=
  h.classes.find? (·.name = eraseGenerics name)

/-- How many supertypes are named in the table. -/
def edgeCount (h : Hierarchy) : Nat := (h.classes.flatMap (·.parents)).length

/-- How a search through the supertypes went. -/
structure Search where
  /-- Some class was accepted. -/
  found : Bool := false
  /-- The classes that were offered, in order. -/
  offered : List ClassType := []
  /-- The names that were come upon again, in order. -/
  revisited : List String := []
  deriving Inhabited

/-- A search under way: the names taken so far and those whose supertypes are still to be seen. -/
structure Frontier extends Search where
  seen : List String
  queue : List String

/-- Takes one name right above the type at hand. -/
def Frontier.meet (h : Hierarchy) (accept : ClassType → Bool) (f : Frontier) (name : String) :
    Frontier :=
  let name := eraseGenerics name
  if f.found then f
  else if name ∈ f.seen then { f with revisited := f.revisited ++ [name] }
  else
    match h.lookup name with
    | none => { f with seen := name :: f.seen, queue := f.queue ++ [name] }
    | some c =>
      { f with
        seen := name :: f.seen
        queue := f.queue ++ [name]
        offered := f.offered ++ [c]
        found := accept c }

/-- The search, with fuel for the names it takes off the queue. -/
def Frontier.run (h : Hierarchy) (accept : ClassType → Bool) : Nat → Frontier → Frontier
  | 0, f => f
  | fuel + 1, f =>
    if f.found then f
    else
      match f.queue with
      | [] => f
      | name :: rest =>
        match h.lookup name with
        | none => run h accept fuel { f with queue := rest }
        | some c => run h accept fuel (c.parents.foldl (meet h accept) { f with queue := rest })

/-- Searches the types strictly above a type breadth first, at each type the interfaces before the
superclass, until a known class is accepted. Beside the start only names in the table are queued,
each once. -/
def search (h : Hierarchy) (accept : ClassType → Bool) (name : String) : Search :=
  let start := eraseGenerics name
  (Frontier.run h accept (h.edgeCount + 1) { seen := [start], queue := [start] }).toSearch

end Hierarchy

end Refactor
