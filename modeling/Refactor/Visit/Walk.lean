import Refactor.Visit.Context

/-!
Walking a tree. A node is rebuilt only if some child came back as another object, and a child that
did has to be of a kind its slot accepts. Visitors may put in trees of any size and walk those, so
visits take fuel: one unit for each level of nested visits.
-/

namespace Refactor

/-- Visits the children from left to right. -/
def visitChildren (visitChild : Node → Visit Node) (parent : Kind) :
    List (Slot × Node) → Visit (List Node)
  | [] => pure []
  | (slot, child) :: rest => do
    let visited ← visitChild child
    if visited.same child || slot.accepts visited.kind then do
      let others ← visitChildren visitChild parent rest
      pure (visited :: others)
    else Visit.fail (.invalidReplacement parent slot visited.kind)

/-- The node with its children visited, the node itself if they all stayed what they were. -/
def walkNode (visitChild : Node → Visit Node) (n : Node) : Visit Node := do
  let visited ← visitChildren visitChild n.kind n.shape.slotted
  if visited.map (·.label.stamp) = n.children.map (·.label.stamp) then pure n
  else Visit.alloc (n.withShape (n.shape.withChildren visited))

/-- Walks a node as one of that kind. Leaves are not looked at any further. -/
def walkAs (visitChild : Node → Visit Node) (kind : Kind) (n : Node) : Visit Node :=
  if kind.isLeaf then pure n
  else if n.kind = kind then walkNode visitChild n
  else Visit.fail (.unexpectedNode kind n.kind)

/-- Runs a script with that node at hand. -/
def Script.run (visitChild : Node → Visit Node) : Script Visitor → Node → Visit Node
  | .done, n => pure n
  | .fail e, _ => Visit.fail e
  | .look next, n => do
    let c ← Visit.get
    run visitChild (next (c.place n)) n
  | .walk kind next, n => do
    let n ← walkAs visitChild kind n
    run visitChild next n
  | .edit e next, n => do
    let n ← Visit.alloc (e.apply n)
    run visitChild next n
  | .tell entries next, n => do
    Visit.tell entries
    run visitChild next n
  | .defer v next, n => do
    Visit.modify (·.defer v)
    run visitChild next n
  | .queue v next, n => do
    Visit.modify (·.queue v)
    run visitChild next n
  | .cancel next, n => do
    Visit.modify (·.cancel)
    run visitChild next n

/-- Runs the visitors that were left at a node on its result, in the order they were left. -/
def runDeferred (visit : Visitor → Node → Visit Node) : List Visitor → Node → Visit Node
  | [], n => pure n
  | v :: vs, n => do
    Visit.tell [.event (.deferredRun v.name n.kind n.label.id)]
    let n ← visit v n
    runDeferred visit vs n

/-- Visits a node. The visitors left at it run with the cursor back above the node. -/
def visit : Nat → Visitor → Node → Visit Node
  | 0, _, _ => Visit.exhausted
  | fuel + 1, .gated condition inner, n => do
    let c ← Visit.get
    if ← Visit.traced (condition.evaluate c.hierarchy n.content) then visit fuel inner n
    else do
      Visit.tell [.event (.gateClosed inner.name condition.text)]
      pure n
  | fuel + 1, .plain name script, n => do
    Visit.modify (·.enter n.content)
    let (result, deferred) ← Visit.leaving (script.run (visit fuel (.plain name script)) n)
    runDeferred (visit fuel) deferred result

/-- Runs the whole-tree passes that are waiting, those included that come up on the way, with fuel
for their number. -/
def drainQueue (fuel : Nat) : Nat → Node → Visit Node
  | 0, n => do
    let c ← Visit.get
    if c.queued.isEmpty then pure n else Visit.exhausted
  | rounds + 1, n => do
    let c ← Visit.get
    match c.queued with
    | [] => pure n
    | v :: vs => do
      Visit.modify fun c => { c with queued := vs }
      Visit.tell [.event (.queuedRun v.name c.source)]
      Visit.modify (·.reset)
      let n ← visit fuel v n
      drainQueue fuel rounds n

/-- Visits the tree from its root and then runs every pass that was left for the whole tree. -/
def runPass (fuel : Nat) (v : Visitor) (n : Node) : Visit Node := do
  Visit.modify (·.reset)
  let n ← visit fuel v n
  drainQueue fuel fuel n

end Refactor
