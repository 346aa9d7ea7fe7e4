import Refactor.Node.Basic

/-!
Cursors: where in a tree a traversal stands, as a chain of frames from there up to the root. Every frame has
counted, when it was put on, how many nodes there are from the root to it. Above the root there is one more
position that holds no node.
-/

namespace Refactor

/-- No enclosing node was found where there had to be one. -/
structure ScopeNotFound where
  expected : String
  /-- The kind of the node the search started at. -/
  start : Option Kind
  depth : Nat
  deriving DecidableEq, Inhabited

def ScopeNotFound.startName (e : ScopeNotFound) : String := e.start.elim "root" Kind.name

def ScopeNotFound.message (e : ScopeNotFound) : String :=
  "no enclosing " ++ e.expected ++ " found above " ++ e.startName ++ " (depth " ++
    toString e.depth ++ ")"

/-- A node on the way down, and the number of nodes from the root to it. -/
structure Frame where
  node : Tree
  depth : Nat
  deriving Inhabited

/-- Each frame has counted itself and the frames above it. -/
def Frame.Counted : List Frame → Prop
  | [] => True
  | f :: above => f.depth = above.length + 1 ∧ Counted above

theorem Frame.Counted.dropWhile {p : Frame → Bool} : ∀ {frames : List Frame}, Counted frames →
    Counted (frames.dropWhile p)
  | [], _ => trivial
  | f :: above, h => by
    rw [List.dropWhile_cons]
    cases p f with
    | true => exact Counted.dropWhile h.2
    | false => exact h

/-- The frames from the position up to the root of the tree. -/
structure Cursor where
  frames : List Frame := []
  counted : Frame.Counted frames := by trivial

instance : Inhabited Cursor := ⟨{}⟩

namespace Cursor

/-- The position above the root. -/
def root : Cursor := {}

/-- How many nodes there are from the root to the position, as the last frame has it. -/
def depth (c : Cursor) : Nat :=
  match c.frames with
  | [] => 0
  | f :: _ => f.depth

theorem depth_eq_length (c : Cursor) : c.depth = c.frames.length := by
  obtain ⟨frames, hcounted⟩ := c
  cases frames with
  | nil => rfl
  | cons f above => exact hcounted.1

/-- One level deeper, at that node. -/
def push (c : Cursor) (t : Tree) : Cursor :=
  ⟨⟨t, c.depth + 1⟩ :: c.frames, congrArg (· + 1) c.depth_eq_length, c.counted⟩

/-- The nodes from the position up to the root of the tree. -/
def path (c : Cursor) : List Tree := c.frames.map (·.node)

/-- **The count is right**: it is the number of nodes on the way up. -/
theorem depth_eq (c : Cursor) : c.depth = c.path.length := by
  rw [depth_eq_length, path, List.length_map]

@[simp] theorem path_root : root.path = [] := rfl
@[simp] theorem path_push (c : Cursor) (t : Tree) : (c.push t).path = t :: c.path := rfl

/-- The position whose way up to the root is that path. -/
def ofPath (path : List Tree) : Cursor := path.foldr (fun t c => c.push t) root

@[simp] theorem path_ofPath (path : List Tree) : (ofPath path).path = path := by
  induction path with
  | nil => rfl
  | cons t above ih => exact congrArg (t :: ·) ih

/-- A position is determined by its way up: the counts can be made anew. -/
@[simp] theorem ofPath_path (c : Cursor) : ofPath c.path = c := by
  obtain ⟨frames, hcounted⟩ := c
  induction frames with
  | nil => rfl
  | cons f above ih =>
    have habove : ofPath (path ⟨above, hcounted.2⟩) = ⟨above, hcounted.2⟩ := ih hcounted.2
    have hdepth : depth ⟨above, hcounted.2⟩ + 1 = f.depth := by
      rw [depth_eq_length]; exact hcounted.1.symm
    change (ofPath (path ⟨above, hcounted.2⟩)).push f.node = _
    rw [habove]
    simp only [push, hdepth]

theorem ofPath_cons (t : Tree) (above : List Tree) : ofPath (t :: above) = (ofPath above).push t :=
  rfl

def node (c : Cursor) : Option Tree := c.path.head?

def isRoot (c : Cursor) : Bool := c.path.isEmpty

/-- The position one up. -/
def parent (c : Cursor) : Option Cursor :=
  match c with
  | ⟨[], _⟩ => none
  | ⟨_ :: above, h⟩ => some ⟨above, h.2⟩

/-- One up, if that is possible, there are no other nodes above. -/
theorem mem_path_of_parent {c : Cursor} {t : Tree} (h : t ∈ (c.parent.getD c).path) : t ∈ c.path :=
  match c with
  | ⟨[], _⟩ => h
  | ⟨_ :: _, _⟩ => List.mem_cons_of_mem _ h

@[simp] theorem parent_push (c : Cursor) (t : Tree) : (c.push t).parent = some c := rfl

/-- The nodes strictly above, nearest first. -/
def ancestors (c : Cursor) : List Tree := c.path.tail

def parentNode (c : Cursor) : Option Tree := c.ancestors.head?

/-- The nearest node strictly above that passes the test. -/
def firstEnclosing (c : Cursor) (test : Tree → Bool) : Option Tree := c.ancestors.find? test

/-- The same, where one is expected to be there. -/
def require (c : Cursor) (expected : String) (test : Tree → Bool) : Except ScopeNotFound Tree :=
  match c.firstEnclosing test with
  | some t => .ok t
  | none => .error ⟨expected, c.node.map (·.kind), c.depth⟩

/-- The nearest position, from here upward, at a node of that id. -/
def findFrame (c : Cursor) (id : NodeId) : Option Cursor :=
  let found : Cursor := ⟨c.frames.dropWhile (·.node.label.id ≠ id), c.counted.dropWhile⟩
  if found.isRoot then none else some found

theorem findFrame_eq (c : Cursor) (id : NodeId) :
    c.findFrame id = if (c.path.dropWhile (·.label.id ≠ id)).isEmpty then none
      else some (ofPath (c.path.dropWhile (·.label.id ≠ id))) := by
  have hpath : path ⟨c.frames.dropWhile (·.node.label.id ≠ id), c.counted.dropWhile⟩ =
      c.path.dropWhile (·.label.id ≠ id) := by
    simp [path, List.dropWhile_map, Function.comp_def]
  rw [← hpath, ofPath_path]
  rfl

/-- Going up the nodes, that id is come to before another node that binds the name. -/
def reaches (id : NodeId) (name : String) : List Tree → Bool
  | [] => false
  | t :: above =>
    if t.label.id = id then true
    else if t.declaresName name then false
    else reaches id name above

/-- The position is inside the scope, and no node strictly between them binds the name anew. -/
def inSameNameScope (scope c : Cursor) (name : String) : Bool :=
  match scope.node with
  | none => true
  | some s => reaches s.label.id name c.ancestors

/-- The kinds on the way from the root down to the position. -/
def text (c : Cursor) : String :=
  "Cursor \x7b path: [" ++ ", ".intercalate (c.path.reverse.map (·.kind.name)) ++ "] \x7d"

end Cursor

end Refactor
