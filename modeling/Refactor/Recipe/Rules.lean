import Refactor.Recipe.Methods

/-!
Visitors written as rules. At each node the first rule that applies there runs its actions in
order; where none applies the node is walked. A rule can walk the node before or after its actions,
and some actions make it skip those that follow.
-/

namespace Refactor

inductive Action where
  /-- Leaves a note. -/
  | note (value : Json)
  /-- Leaves a note of the place. -/
  | probe
  | edit (e : Edit)
  /-- Puts in a tree made from the draft, which may take over the white space before the node. -/
  | replace (draft : Draft) (keepLeading : Bool)
  /-- Adds a marker, of the pass's own source if none is given. -/
  | mark (payload : Payload) (source : Option String)
  | defer (visitor : Visitor)
  | queue (visitor : Visitor)
  /-- Fails unless an enclosing node passes the test. -/
  | require (expected : String) (test : NodeTest)
  /-- Fails unless the text is a method pattern. -/
  | compile (pattern : String)
  | ifMatches (pattern : MethodPattern)
  | ifEnclosed (test : NodeTest)
  /-- Goes on only inside the scope of that id, where nothing in between binds the name. -/
  | ifScope (scope : NodeId) (name : String)
  | cancel

/-- The place as a note. -/
def Place.toJson (p : Place) : Json :=
  .object [
    ("id", p.current.label.id.toJson),
    ("kind", .string p.current.kind.name),
    ("depth", .number (.integer p.cursor.depth)),
    ("path", .array (p.cursor.path.map (·.label.id.toJson))),
    ("cycle", .number (.integer p.cycle)),
    ("source", .string p.source),
    ("visited", .number (.integer p.visited)),
    ("pending", .bool p.pending)]

/-- The action as a script that goes on with `next`, or with `skip` past the actions that are
left. -/
def Action.script (next skip : Script Visitor) : Action → Script Visitor
  | note value => .tell [.note value] next
  | probe => .look fun p => .tell [.note p.toJson] next
  | edit e => .edit e next
  | replace draft keepLeading => .look fun p =>
    .edit (.replace draft)
      (if keepLeading then .edit (.lead p.current.label.leading) next else next)
  | mark payload source => .look fun p => .edit (.mark ⟨source.getD p.source, payload⟩) next
  | defer v => .defer v next
  | queue v => .queue v next
  | require expected test => .look fun p =>
    match p.cursor.require expected test.holds with
    | .ok _ => next
    | .error e => .fail (.scopeNotFound e)
  | compile pattern =>
    match MethodPattern.compile pattern with
    | .ok _ => next
    | .error e => .fail (.malformedPattern e)
  | ifMatches pattern => .look fun p => .ifMatches pattern p next skip
  | ifEnclosed test => .look fun p =>
    if (p.cursor.firstEnclosing test.holds).isSome then next else skip
  | ifScope scope name => .look fun p =>
    if (p.cursor.findFrame scope).any fun frame => frame.inSameNameScope p.cursor name then next
    else skip
  | cancel => .cancel next

inductive WalkTime where
  | never
  | before
  | after
  deriving DecidableEq, Inhabited

structure Rule where
  /-- The kind of node it is for, any if none is given. -/
  kind : Option Kind := none
  /-- The kind of the parent it asks for. -/
  parent : Option Kind := none
  /-- The cycle it asks for. -/
  cycle : Option Nat := none
  condition : NodeTest := {}
  walk : WalkTime := .never
  actions : List Action := []

namespace Rule

def applies (r : Rule) (p : Place) : Bool :=
  r.kind.all (p.current.kind = ·) && r.parent.all (p.cursor.parentNode.map (·.kind) = some ·) &&
    r.cycle.all (p.cycle = ·) && r.condition.holds p.current

/-- The rule's script for a node of that kind, even if an action puts in one of another kind. -/
def script (r : Rule) (kind : Kind) : Script Visitor :=
  let finish : Script Visitor := if r.walk = .after then .walk kind .done else .done
  let body := r.actions.foldr (fun a next => a.script next finish) finish
  if r.walk = .before then .walk kind body else body

/-- The visitor that the rules make up. -/
def visitor (rules : List Rule) : Visitor :=
  .plain "scripted" <| .look fun p =>
    match rules.find? (·.applies p) with
    | some r => r.script p.current.kind
    | none => .walk p.current.kind .done

end Rule

end Refactor
