import Refactor.Proofs.Tree.Paths

/-!
# Rewriting a tree from the leaves up

`Tree.rewrite change t above` is what a traversal makes of the content of a tree: at each node
`change` sees the way up from that node in the tree as it was given, and the node with its children
already rewritten. The traversals of the library are shown to be such functions, and what they keep
is read off the function `change`: the slots (`slotValid_rewrite`), the ids (`ids_rewrite`), and
that a second time changes nothing (`rewrite_rewrite`).
-/

namespace Refactor

namespace Tree

/-- The tree rewritten from the leaves up. For each node `change` is given the way from the node up
to the root in the tree as it was, and the node with its children rewritten. -/
def rewrite (change : List Tree → Tree → Tree) (t : Tree) (above : List Tree) : Tree :=
  t.fold (fun t s (above : List Tree) =>
    change (t :: above) (.mk t.label (s.map fun c => c (t :: above)))) above

/-- The node with its children rewritten, before it is changed itself. -/
def rewriteBelow (change : List Tree → Tree → Tree) (t : Tree) (above : List Tree) : Tree :=
  .mk t.label (t.shape.map fun c => rewrite change c (t :: above))

variable {change : List Tree → Tree → Tree}

theorem rewrite_eq (t : Tree) (above : List Tree) :
    rewrite change t above = change (t :: above) (rewriteBelow change t above) := by
  obtain ⟨l, s⟩ := t
  unfold rewrite
  rw [Labelled.fold_mk, Shape.map_map]
  rfl

@[simp] theorem kind_rewriteBelow (t : Tree) (above : List Tree) :
    (rewriteBelow change t above).kind = t.kind := by
  simp [rewriteBelow, Labelled.kind]

@[simp] theorem shape_rewriteBelow (t : Tree) (above : List Tree) :
    (rewriteBelow change t above).shape = t.shape.map fun c => rewrite change c (t :: above) := rfl

@[simp] theorem children_rewriteBelow (t : Tree) (above : List Tree) :
    (rewriteBelow change t above).children =
      t.children.map fun c => rewrite change c (t :: above) := by
  simp [rewriteBelow, Labelled.children]

/-- Children that are rewritten to what they are leave the node as it is. -/
theorem rewriteBelow_of_children {t : Tree} {above : List Tree}
    (h : ∀ c ∈ t.children, rewrite change c (t :: above) = c) : rewriteBelow change t above = t := by
  unfold rewriteBelow
  rw [Shape.map_congr h, Shape.map_id_fun, Labelled.mk_label_shape]

/-- **Nothing to change.** A property that goes down the tree, and under which a node is changed to
itself, leaves the whole tree as it is. -/
theorem rewrite_eq_self {P : List Tree → Tree → Prop}
    (hdown : ∀ above t, P above t → ∀ c ∈ t.children, P (t :: above) c)
    (hfix : ∀ above t, P above t → change (t :: above) t = t) :
    ∀ t above, P above t → rewrite change t above = t := by
  intro t
  induction t using Labelled.ind with
  | node l s ih =>
    intro above h
    have hbelow : rewriteBelow change (.mk l s) above = .mk l s :=
      rewriteBelow_of_children fun c hc => ih c hc _ (hdown _ _ h c hc)
    rw [rewrite_eq, hbelow]
    exact hfix _ _ h

/-- As before, for a change that leaves every node alone where it stands. -/
theorem rewrite_eq_self_of_paths {t : Tree} {above : List Tree}
    (h : ∀ d up, d :: up ∈ t.paths above → change (d :: up) d = d) : rewrite change t above = t := by
  refine rewrite_eq_self (P := fun above t => ∀ d up, d :: up ∈ Labelled.paths t above →
    change (d :: up) d = d) (fun above t h c hc d up hd => ?_) (fun above t h => ?_) t above h
  · exact h d up (Labelled.paths_subset_of_child hc hd)
  · exact h t above (Labelled.self_mem_paths t above)

/-- What becomes of a way up. -/
def rewritePath (change : List Tree → Tree → Tree) : List Tree → List Tree
  | [] => []
  | t :: above => rewrite change t above :: rewritePath change above

/-! ### Slots -/

/-- The change keeps a node acceptable wherever it stands, and the slots below it. -/
def SlotSafe (change : List Tree → Tree → Tree) : Prop :=
  ∀ path t, Labelled.slotValid t → (change path t).slotValid ∧
    ∀ slot : Slot, slot.accepts t.kind → slot.accepts (change path t).kind

theorem slotValid_rewriteBelow {t : Tree} {above : List Tree} (h : t.slotValid)
    (hkids : ∀ c ∈ t.children, c.slotValid → (rewrite change c (t :: above)).slotValid ∧
      ∀ slot : Slot, slot.accepts c.kind → slot.accepts (rewrite change c (t :: above)).kind) :
    (rewriteBelow change t above).slotValid := by
  rw [Labelled.slotValid_iff, shape_rewriteBelow, Shape.slotted_map]
  intro p hp
  obtain ⟨q, hq, rfl⟩ := List.mem_map.1 hp
  obtain ⟨hacc, hval⟩ := Labelled.slotValid_iff.1 h q hq
  obtain ⟨h1, h2⟩ := hkids q.2 (Shape.mem_children_of_slotted hq) hval
  exact ⟨h2 q.1 hacc, h1⟩

theorem slotValid_rewrite (hc : SlotSafe change) :
    ∀ (t : Tree) (above : List Tree), t.slotValid → (rewrite change t above).slotValid ∧
      ∀ slot : Slot, slot.accepts t.kind → slot.accepts (rewrite change t above).kind := by
  intro t
  induction t using Labelled.ind with
  | node l s ih =>
    intro above h
    obtain ⟨h1, h2⟩ := hc (.mk l s :: above) _ (slotValid_rewriteBelow h fun c hcm => ih c hcm _)
    rw [rewrite_eq]
    refine ⟨h1, fun slot hacc => h2 slot ?_⟩
    rwa [kind_rewriteBelow]

/-! ### Height -/

theorem height_rewriteBelow {t : Tree} {above : List Tree}
    (h : ∀ c ∈ t.children, (rewrite change c (t :: above)).height = c.height) :
    (rewriteBelow change t above).height = t.height := by
  obtain ⟨l, s⟩ := t
  rw [rewriteBelow, Labelled.height_mk, Labelled.height_mk, Shape.children_map, List.map_map]
  congr 2
  exact List.map_congr_left h

theorem height_rewrite (hc : ∀ path t, (change path t).height = t.height) :
    ∀ (t : Tree) (above : List Tree), (rewrite change t above).height = t.height := by
  intro t
  induction t using Labelled.ind with
  | node l s ih =>
    intro above
    have hbelow : (rewriteBelow change (.mk l s) above).height = Labelled.height (.mk l s) :=
      height_rewriteBelow fun c hcm => ih c hcm _
    rw [rewrite_eq, hc, hbelow]

/-! ### Ids -/

theorem ids_rewriteBelow (t : Tree) (above : List Tree)
    (h : ∀ c ∈ t.children, (rewrite change c (t :: above)).ids = Tree.ids c) :
    (rewriteBelow change t above).ids = t.ids := by
  obtain ⟨l, s⟩ := t
  rw [rewriteBelow, ids_mk, ids_mk, Shape.children_map, List.flatMap_map]
  congr 1
  exact List.flatMap_congr h

theorem ids_rewrite (hc : ∀ path t, (change path t).ids = Tree.ids t) :
    ∀ (t : Tree) (above : List Tree), (rewrite change t above).ids = t.ids := by
  intro t
  induction t using Labelled.ind with
  | node l s ih =>
    intro above
    have hbelow : (rewriteBelow change (.mk l s) above).ids = Tree.ids (.mk l s) :=
      ids_rewriteBelow _ _ fun c hcm => ih c hcm _
    rw [rewrite_eq, hc, hbelow]

/-! ### Changes of the node alone -/

/-- The change leaves the id, the kind and the children of a node as they are. -/
structure InPlace (change : List Tree → Tree → Tree) : Prop where
  id : ∀ path t, (change path t).label.id = t.label.id
  slotted : ∀ path t, (change path t).shape.slotted = t.shape.slotted
  kind : ∀ path t, (change path t).kind = t.kind

namespace InPlace

variable (hc : InPlace change)
include hc

theorem children (path : List Tree) (t : Tree) : (change path t).children = t.children :=
  Shape.children_congr (hc.slotted path t)

theorem children_rewrite (t : Tree) (above : List Tree) :
    (rewrite change t above).children = t.children.map fun c => rewrite change c (t :: above) := by
  rw [rewrite_eq, hc.children, children_rewriteBelow]

theorem slotSafe : SlotSafe change := by
  intro path t ht
  refine ⟨?_, fun slot hacc => by rwa [hc.kind]⟩
  rw [Labelled.slotValid_iff, hc.slotted]
  exact Labelled.slotValid_iff.1 ht

theorem ids_change (path : List Tree) (t : Tree) : (change path t).ids = t.ids := by
  have h1 := ids_mk (change path t).label (change path t).shape
  have h2 := ids_mk t.label t.shape
  rw [Labelled.mk_label_shape] at h1 h2
  rw [h1, h2, hc.id]
  congr 2
  exact hc.children path t

theorem height_change (path : List Tree) (t : Tree) : (change path t).height = t.height := by
  have h1 := Labelled.height_mk (change path t).label (change path t).shape
  have h2 := Labelled.height_mk t.label t.shape
  rw [Labelled.mk_label_shape] at h1 h2
  rw [h1, h2]
  congr 3
  exact hc.children path t

theorem kind_rewrite (t : Tree) (above : List Tree) : (rewrite change t above).kind = t.kind := by
  rw [rewrite_eq, hc.kind, kind_rewriteBelow]

/-- **Nothing has changed** exactly if no node has changed where it stands. -/
theorem rewrite_eq_self_iff {t : Tree} {above : List Tree} :
    rewrite change t above = t ↔ ∀ d up, d :: up ∈ t.paths above → change (d :: up) d = d := by
  refine ⟨?_, rewrite_eq_self_of_paths⟩
  induction t using Labelled.ind generalizing above with
  | node l s ih =>
    intro h
    have hchildren : s.children.map (fun c => rewrite change c (.mk l s :: above)) =
        s.children.map fun c => c := by
      have hsame := congrArg Labelled.children h
      rw [hc.children_rewrite] at hsame
      rw [List.map_id']
      exact hsame
    have hkids : ∀ c ∈ s.children, rewrite change c (.mk l s :: above) = c :=
      List.map_inj_left.1 hchildren
    rw [rewrite_eq, rewriteBelow_of_children (t := .mk l s) hkids] at h
    intro d up hd
    rw [Labelled.paths_mk, List.mem_cons, List.mem_flatMap] at hd
    rcases hd with heq | ⟨c, hcm, hd⟩
    · rwa [heq, (List.cons.inj heq).1]
    · exact ih c hcm (hkids c hcm) d up hd

/-- **The ways up are rewritten node by node.** -/
theorem paths_rewrite (t : Tree) (above : List Tree) :
    (rewrite change t above).paths (rewritePath change above) =
      (t.paths above).map (rewritePath change) := by
  induction t using Labelled.ind generalizing above with
  | node l s ih =>
    rw [Labelled.paths_eq, hc.children_rewrite, List.flatMap_map, Labelled.paths_mk, List.map_cons,
      List.map_flatMap]
    exact congrArg _ (List.flatMap_congr fun c hcm => ih c hcm _)

/-- Ids and kinds on a way up stay. -/
theorem map_rewritePath (path : List Tree) :
    (rewritePath change path).map (fun a => (a.label.id, a.kind)) =
      path.map fun a => (a.label.id, a.kind) := by
  induction path with
  | nil => rfl
  | cons t above ih =>
    have hid : (rewrite change t above).label.id = t.label.id := by
      rw [rewrite_eq, hc.id]
      rfl
    rw [rewritePath, List.map_cons, List.map_cons, ih, hid, hc.kind_rewrite]

/-- What holds of every node, and goes by what the node itself holds, holds of every node after a
change that keeps it. -/
theorem forall_rewrite {P : Tree → Prop} (hP : ∀ l s f, P (.mk l s) → P (.mk l (s.map f)))
    (hchange : ∀ path t, P t → P (change path t)) :
    ∀ (t : Tree) (above : List Tree), (∀ d ∈ t.descendants, P d) →
      ∀ d ∈ (rewrite change t above).descendants, P d := by
  intro t
  induction t using Labelled.ind with
  | node l s ih =>
    intro above h d hd
    rw [rewrite_eq] at hd
    rcases Labelled.mem_descendants.1 hd with rfl | ⟨c', hc', hdc⟩
    · exact hchange _ _ (hP l s _ (h _ (Labelled.self_mem_descendants _)))
    · rw [hc.children, children_rewriteBelow, Labelled.children_mk] at hc'
      obtain ⟨c, hcm, rfl⟩ := List.mem_map.1 hc'
      refine ih c hcm _ (fun d hd => h d ?_) d hdc
      exact Labelled.mem_descendants.2 (Or.inr ⟨c, hcm, hd⟩)

/-- **Twice is once**, for a change that looks no further than the kinds on the way up and leaves
alone what it has changed. -/
theorem rewrite_rewrite
    (hkinds : ∀ path path' t, path.map Labelled.kind = path'.map Labelled.kind →
      change path t = change path' t)
    (htwice : ∀ path t, change path (change path t) = change path t) :
    ∀ (t : Tree) (above above' : List Tree), above.map Labelled.kind = above'.map Labelled.kind →
      rewrite change (rewrite change t above) above' = rewrite change t above := by
  intro t
  induction t using Labelled.ind with
  | node l s ih =>
    intro above above' habove
    have hkind := hc.kind_rewrite (.mk l s) above
    have hway : (rewrite change (.mk l s) above :: above').map Labelled.kind =
        (Labelled.mk l s :: above).map Labelled.kind := by
      rw [List.map_cons, List.map_cons, hkind, habove]
    rw [rewrite_eq (rewrite change (.mk l s) above), rewriteBelow_of_children, hkinds _ _ _ hway,
      rewrite_eq, htwice]
    intro c' hc'
    rw [hc.children_rewrite] at hc'
    obtain ⟨c, hcm, rfl⟩ := List.mem_map.1 hc'
    exact ih c hcm _ _ hway.symm

end InPlace

end Tree

end Refactor
