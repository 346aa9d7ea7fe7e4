import Refactor.Proofs.Tree.Paths
import Refactor.Proofs.Visit.Traversal

/-!
# Visitors that record and walk on

A visitor that writes to the journal what it sees at each node, and walks on, shows where a traversal
goes. It comes to the nodes in pre-order, each with the way up from it as the cursor's path, and it
leaves the tree and the context as they were but for the journal and the count of nodes
(`visit_records_preorder`).
-/

namespace Refactor

/-- The visitor that records the place at every node and then walks the node. -/
def Visitor.recording (name : String) (record : Place → List Entry) : Visitor :=
  .plain name (.look fun p => .tell (record p) (.walk p.current.kind .done))

theorem Session.tell_tell (s : Session) (es es' : List Entry) :
    (s.tell es).tell es' = s.tell (es ++ es') := by
  have hjournal : s.journal ++ es ++ es' = s.journal ++ (es ++ es') :=
    Array.toList_inj.1 (by simp)
  unfold Session.tell
  rw [hjournal]

/-! ### What is seen on the way -/

namespace Context

/-- What a visitor sees at a node with that way up, having come so many nodes far. -/
def stop (c : Context) (visited : Nat) (path : List Tree) : Place where
  current := path.headD default
  cursor := .ofPath path
  source := c.source
  cycle := c.cycle
  hierarchy := c.hierarchy
  visited := visited
  pending := !c.queued.isEmpty

/-- What is seen at a node that has just been come to. -/
theorem place_enter (c : Context) (n : Node) :
    (c.enter n.content).place n = c.stop (c.visited + 1) (n.content :: c.cursor.path) := by
  have hcursor : Cursor.ofPath (n.content :: c.cursor.path) = c.cursor.push n.content := by
    rw [Cursor.ofPath_cons, Cursor.ofPath_path]
  unfold stop
  rw [hcursor]
  rfl

/-- What it sees at the nodes with those ways up, one after the other. -/
def stops (c : Context) (paths : List (List Tree)) : List Place :=
  paths.mapIdx fun i path => c.stop (c.visited + i + 1) path

/-- The context after all that has been recorded. -/
def toured (c : Context) (record : Place → List Entry) (paths : List (List Tree)) : Context :=
  { c with
    visited := c.visited + paths.length
    session := c.session.tell ((c.stops paths).flatMap record) }

variable (c : Context) (record : Place → List Entry)

theorem toured_nil : c.toured record [] = c := by
  simp [toured, stops, Session.tell]

theorem stops_toured (ps qs : List (List Tree)) :
    c.stops ps ++ (c.toured record ps).stops qs = c.stops (ps ++ qs) := by
  unfold stops
  rw [List.mapIdx_append]
  refine congrArg _ (List.mapIdx_eq_mapIdx_iff.2 fun i _ => ?_)
  have hcount : c.visited + ps.length + i + 1 = c.visited + (i + ps.length) + 1 := by omega
  show c.stop (c.visited + ps.length + i + 1) _ = _
  rw [hcount]

/-- One tour after the other is a tour. -/
theorem toured_toured (ps qs : List (List Tree)) :
    (c.toured record ps).toured record qs = c.toured record (ps ++ qs) := by
  have hentries := Session.tell_tell c.session ((c.stops ps).flatMap record)
    (((c.toured record ps).stops qs).flatMap record)
  rw [← List.flatMap_append, stops_toured] at hentries
  unfold toured at hentries ⊢
  rw [hentries, List.length_append, Nat.add_assoc]

/-- Coming to a node, recording it, touring what is below it and leaving it again is a tour of all
that. -/
theorem leave_toured (t : Tree) (paths : List (List Tree)) :
    (((c.enter t).tell (record (c.stop (c.visited + 1) (t :: c.cursor.path)))).toured record
        paths).leave = ([], c.toured record ((t :: c.cursor.path) :: paths)) := by
  have hfirst : (c.stops [t :: c.cursor.path]).flatMap record =
      record (c.stop (c.visited + 1) (t :: c.cursor.path)) := by
    simp [stops]
  have htwo := c.toured_toured record [t :: c.cursor.path] paths
  rw [List.singleton_append] at htwo
  rw [← htwo]
  unfold toured
  rw [hfirst]
  rfl

end Context

/-! ### The traversal -/

section Tours

variable {record : Place → List Entry}

/-- Visits that give back the children make a tour of one after the other. -/
theorem visitChildren_tours {visitChild : Node → Visit Node} (parent : Kind) :
    ∀ (kids : List (Slot × Node)) (c : Context),
      (∀ p ∈ kids, ∀ c', c'.cursor = c.cursor → visitChild p.2 c' =
        .done p.2 (c'.toured record (p.2.content.paths c.cursor.path))) →
      visitChildren visitChild parent kids c = .done (kids.map (·.2))
        (c.toured record (kids.flatMap fun p => p.2.content.paths c.cursor.path)) := by
  intro kids
  induction kids with
  | nil =>
    intro c _
    rw [List.flatMap_nil, Context.toured_nil]
    rfl
  | cons p rest ih =>
    intro c hvisit
    obtain ⟨slot, child⟩ := p
    have hchild := hvisit (slot, child) List.mem_cons_self c rfl
    have hrest := ih (c.toured record (child.content.paths c.cursor.path))
      fun p hp c' hc' => hvisit p (List.mem_cons_of_mem _ hp) c' hc'
    have hsame : child.same child = true := decide_eq_true rfl
    rw [visitChildren, Visit.bind_done hchild, hsame, Bool.true_or, if_pos rfl, Visit.bind_done hrest,
      Context.toured_toured]
    rfl

theorem walkNode_tours {visitChild : Node → Visit Node} {n : Node} {c : Context}
    (hvisit : ∀ k ∈ n.children, ∀ c', c'.cursor = c.cursor → visitChild k c' =
      .done k (c'.toured record (Labelled.paths (Node.content k) c.cursor.path))) :
    walkNode visitChild n c =
      .done n (c.toured record (n.children.flatMap fun k => Labelled.paths (Node.content k) c.cursor.path)) := by
  have hkids := visitChildren_tours n.kind n.shape.slotted c
    fun p hp => hvisit p.2 (Shape.mem_children_of_slotted hp)
  -- the walk goes along the slots, and compares what it gets with the list of the children
  have hchildren : n.shape.slotted.map (·.2) = n.children := n.shape.children_eq.symm
  have htour : (n.shape.slotted.flatMap fun p => Labelled.paths (Node.content p.2) c.cursor.path) =
      n.children.flatMap fun k => Labelled.paths (Node.content k) c.cursor.path := by
    rw [← hchildren, List.flatMap_map]
  rw [hchildren, htour] at hkids
  unfold walkNode
  rw [Visit.bind_done hkids, if_pos rfl]
  rfl

/-- Where what is below a node is toured, so is the node. -/
theorem visit_recording_of_walkNode {name : String} {fuel : Nat} {n : Node} {c : Context}
    {below : List (List Tree)}
    (h : ∀ c1, c1.cursor.path = n.content :: c.cursor.path →
      walkNode (visit fuel (.recording name record)) n c1 = .done n (c1.toured record below)) :
    visit (fuel + 1) (.recording name record) n c =
      .done n (c.toured record ((n.content :: c.cursor.path) :: below)) := by
  let script : Script Visitor := .look fun p => .tell (record p) (.walk p.current.kind .done)
  let c1 := (c.enter n.content).tell (record (c.stop (c.visited + 1) (n.content :: c.cursor.path)))
  have hrun : script.run (visit fuel (.plain name script)) n (c.enter n.content) =
      .done n (c1.toured record below) := by
    refine Eq.trans ?_ (h c1 rfl)
    have hplace := c.place_enter n
    rw [← Script.run_walk_done, ← Node.kind_content]
    simp only [c1, ← hplace]
    rfl
  have hleaving : Visit.leaving (script.run (visit fuel (.plain name script)) n) (c.enter n.content) =
      .done (n, []) (c.toured record ((n.content :: c.cursor.path) :: below)) := by
    unfold Visit.leaving
    rw [hrun]
    simp only [c1, Context.leave_toured]
  have hvisit : visit (fuel + 1) (.plain name script) n c =
      (Visit.leaving (script.run (visit fuel (.plain name script)) n) >>= fun p =>
        runDeferred (visit fuel) p.2 p.1) (c.enter n.content) := rfl
  exact hvisit.trans (Visit.bind_done hleaving)

/-- **A tour.** A visit that records comes to every node of the tree and gives back the tree. -/
theorem visit_tours (name : String) (n : Node) : ∀ (fuel : Nat) (c : Context), n.height ≤ fuel →
    visit fuel (.recording name record) n c =
      .done n (c.toured record (n.content.paths c.cursor.path)) := by
  induction n using Labelled.ind with
  | node l s ih =>
    intro fuel c hfuel
    obtain ⟨fuel, rfl⟩ : ∃ k, fuel = k + 1 := by
      rw [Labelled.height_mk] at hfuel
      exact ⟨fuel - 1, by omega⟩
    rw [Node.content_mk, Labelled.paths_mk, Shape.children_map, List.flatMap_map, ← Node.content_mk]
    refine visit_recording_of_walkNode fun c1 hpath => ?_
    rw [← hpath]
    refine walkNode_tours fun k hk c' hc' => ?_
    have hheight := Labelled.height_lt_of_child hk
    rw [← hc']
    exact ih k hk fuel c' (by omega)

end Tours

/-! ### The places of a tour -/

namespace Context

variable (c : Context) (paths : List (List Tree))

theorem cursors_stops : (c.stops paths).map (·.cursor.path) = paths :=
  List.ext_getElem (by simp [stops]) fun i h1 h2 => by simp [stops, stop]

theorem depths_stops : (c.stops paths).map (·.cursor.depth) = paths.map List.length := by
  conv_rhs => rw [← c.cursors_stops paths, List.map_map]
  exact List.map_congr_left fun p _ => p.cursor.depth_eq

theorem counts_stops : (c.stops paths).map (·.visited) = List.range' (c.visited + 1) paths.length := by
  refine List.ext_getElem (by simp [stops]) fun i h1 h2 => ?_
  simp only [stops, stop, List.getElem_map, List.getElem_mapIdx, List.getElem_range']
  omega

theorem nodes_stops (t : Tree) (above : List Tree) :
    (c.stops (t.paths above)).map (·.current) = t.descendants := by
  have hcurrent : (c.stops (t.paths above)).map (·.current) = (t.paths above).map (·.headD default) :=
    List.ext_getElem (by simp [stops]) fun i h1 h2 => by simp [stops, stop]
  have hheads := congrArg (List.map fun o : Option Tree => o.getD default) (t.heads_paths above)
  rw [List.map_map, List.map_map] at hheads
  simpa [hcurrent, Function.comp_def, List.headD_eq_head?_getD] using hheads

/-- The way up starts at the node at hand. -/
theorem head_of_mem_stops {t : Tree} {above : List Tree} {p : Place} (hp : p ∈ c.stops (t.paths above)) :
    p.cursor.path.head? = some p.current := by
  obtain ⟨i, hi, rfl⟩ := List.mem_mapIdx.1 hp
  have hhead : (t.paths above)[i].head? ∈ (t.paths above).map List.head? :=
    List.mem_map_of_mem (List.getElem_mem hi)
  rw [t.heads_paths above] at hhead
  obtain ⟨d, -, hd⟩ := List.mem_map.1 hhead
  have hcurrent : (t.paths above)[i].headD default = d := by
    rw [List.headD_eq_head?_getD, ← hd]
    rfl
  show (Cursor.ofPath (t.paths above)[i]).path.head? = some ((t.paths above)[i].headD default)
  rw [Cursor.path_ofPath, hcurrent, hd]

end Context

/-- **Traversal order.** There is one list of places such that, whatever is recorded of a place, a visit
in a fresh context comes to those places in turn, gives back the tree it was given, and ends above the
root. The nodes at hand are the descendants, in the order in which they come off a stack; the paths are
the ways up from them, from child to parent as far as the root; and the count of visited nodes is the
number of the place. -/
theorem visit_records_preorder (n : Node) (source : String) (cycle : Nat) (hierarchy : Hierarchy)
    (session : Session) :
    ∃ places : List Place,
      (∀ name record extra, ∃ c,
        visit (n.height + extra) (.recording name record) n { source, cycle, hierarchy, session } =
          .done n c ∧
        c.session = session.tell (places.flatMap record) ∧
        c.cursor = .root ∧ c.visited = n.descendants.length) ∧
      places.map (·.current) = n.content.descendants ∧
      Labelled.Enumerates [n.content] n.content.descendants ∧
      places.map (·.cursor.path) = n.content.paths [] ∧
      (∀ p ∈ places, p.cursor.path.head? = some p.current) ∧
      (∀ path ∈ n.content.paths [], path.getLast? = some n.content ∧
        path.IsChain fun child parent => child ∈ parent.children) ∧
      places.map (·.cursor.depth) = (n.content.paths []).map List.length ∧
      places.map (·.visited) = List.range' 1 n.descendants.length := by
  let c : Context := { source, cycle, hierarchy, session }
  have hlength : (n.content.paths []).length = n.descendants.length := by
    rw [Labelled.length_paths, Node.descendants_content, List.length_map]
  refine ⟨c.stops (n.content.paths []), fun name record extra => ?_, c.nodes_stops _ _,
    n.content.enumerates_descendants, c.cursors_stops _, fun _ => c.head_of_mem_stops,
    fun path hpath => ?_, c.depths_stops _, ?_⟩
  · refine ⟨_, visit_tours name n _ c (Nat.le_add_right _ _), rfl, rfl, ?_⟩
    rw [← hlength]
    exact Nat.zero_add _
  · -- Every way up from a node ends at the root.
    obtain ⟨hchain, hsuffix⟩ := Labelled.ascends_of_mem_paths (.singleton _) hpath
    obtain ⟨below, rfl⟩ := hsuffix
    exact ⟨List.getLast?_concat, hchain⟩
  · rw [← hlength]
    exact c.counts_stops _

end Refactor
