import Refactor.Visit.Script

/-!
The state of a pass, and computations over it. Whatever way a computation ends, the state it has
come to is kept, since a later pass may go on with it; only running out of fuel leaves nothing.
-/

namespace Refactor

/-- What outlives a pass: the supply of stamps, the journal, and whether someone has asked for the
run to stop. -/
structure Session where
  supply : Supply := {}
  journal : Array Entry := #[]
  cancelled : Bool := false
  deriving Inhabited

def Session.tell (s : Session) (entries : List Entry) : Session :=
  { s with journal := s.journal ++ entries }

structure Context where
  source : String
  cycle : Nat
  hierarchy : Hierarchy
  cursor : Cursor := .root
  /-- The visitors left at the nodes that are being visited, innermost first. -/
  deferred : List (List Visitor) := []
  /-- The visitors left for the whole tree. -/
  queued : List Visitor := []
  visited : Nat := 0
  session : Session
  deriving Inhabited

namespace Context

/-- Comes to a node. -/
def enter (c : Context) (t : Tree) : Context :=
  { c with cursor := c.cursor.push t, deferred := [] :: c.deferred, visited := c.visited + 1 }

/-- Leaves the node, with the visitors that were left at it. -/
def leave (c : Context) : List Visitor × Context :=
  (c.deferred.headD [],
    { c with cursor := c.cursor.parent.getD c.cursor, deferred := c.deferred.tail })

/-- Leaves a visitor at the node being visited, or for the whole tree if there is none. -/
def defer (c : Context) (v : Visitor) : Context :=
  match c.deferred with
  | [] => { c with queued := c.queued ++ [v] }
  | top :: rest => { c with deferred := (top ++ [v]) :: rest }

def queue (c : Context) (v : Visitor) : Context := { c with queued := c.queued ++ [v] }

theorem defer_of_nil {c : Context} (h : c.deferred = []) (v : Visitor) : c.defer v = c.queue v := by
  simp [defer, queue, h]

theorem defer_of_cons {c : Context} {top : List Visitor} {rest : List (List Visitor)}
    (h : c.deferred = top :: rest) (v : Visitor) :
    c.defer v = { c with deferred := (top ++ [v]) :: rest } := by
  simp [defer, h]

/-- Goes back above the root. -/
def reset (c : Context) : Context := { c with cursor := .root, deferred := [] }

def tell (c : Context) (entries : List Entry) : Context :=
  { c with session := c.session.tell entries }

def cancel (c : Context) : Context := { c with session := { c.session with cancelled := true } }

/-- What a visitor sees with that node at hand. -/
def place (c : Context) (n : Node) : Place where
  current := n.content
  cursor := c.cursor
  source := c.source
  cycle := c.cycle
  hierarchy := c.hierarchy
  visited := c.visited
  pending := !c.queued.isEmpty

end Context

/-- How a computation over the state ended. -/
inductive Outcome (α : Type) where
  | done (value : α) (context : Context)
  | failed (error : VisitError) (context : Context)
  /-- The fuel ran out. -/
  | exhausted

def Visit (α : Type) : Type := Context → Outcome α

namespace Visit

variable {α β : Type}

instance : Monad Visit where
  pure a c := .done a c
  bind x f c :=
    match x c with
    | .done a c => f a c
    | .failed e c => .failed e c
    | .exhausted => .exhausted

def get : Visit Context := fun c => .done c c

def modify (f : Context → Context) : Visit Unit := fun c => .done () (f c)

def fail (e : VisitError) : Visit α := fun c => .failed e c

def exhausted : Visit α := fun _ => .exhausted

def tell (entries : List Entry) : Visit Unit := modify (·.tell entries)

def traced (x : Traced α) : Visit α := do
  tell x.entries
  pure x.value

def alloc (x : Alloc α) : Visit α := fun c =>
  let (a, supply) := x c.session.supply
  .done a { c with session := { c.session with supply } }

/-- Leaves the node after the computation, whether that failed or not. -/
def leaving (x : Visit α) : Visit (α × List Visitor) := fun c =>
  match x c with
  | .done a c => .done (a, c.leave.1) c.leave.2
  | .failed e c => .failed e c.leave.2
  | .exhausted => .exhausted

end Visit

end Refactor
