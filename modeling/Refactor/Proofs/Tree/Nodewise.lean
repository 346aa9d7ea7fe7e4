import Refactor.Proofs.Tree.Rewrite

/-!
# Trees changed node by node

`Tree.mapNodes f t` is the tree with `f` applied to each of its nodes. A rewriting that goes by the node alone
and not by the way up from it is such a change (`rewrite_eq_mapNodes`). Where `f` looks at what the node holds
and leaves the children to themselves (`Nodewise`), the nodes stay in their places (`descendants_mapNodes`), and
two changes one after the other are one (`mapNodes_mapNodes`).
-/

namespace Refactor

namespace Tree

/-- The tree with each node replaced by a function of it, from the leaves up. -/
def mapNodes (f : Tree → Tree) (t : Tree) : Tree := t.fold fun t s => f (.mk t.label s)

variable {f g : Tree → Tree}

theorem mapNodes_mk (l : Header) (s : Shape Tree) :
    mapNodes f (.mk l s) = f (.mk l (s.map (mapNodes f))) := by
  unfold mapNodes
  rw [Labelled.fold_mk, Labelled.label_mk]

/-- **A rewriting that does not look up** changes node by node. -/
theorem rewrite_eq_mapNodes {change : List Tree → Tree → Tree} (h : ∀ path t, change path t = f t) (t : Tree)
    (above : List Tree) : rewrite change t above = mapNodes f t := by
  induction t using Labelled.ind generalizing above with
  | node l s ih =>
    rw [rewrite_eq, h, mapNodes_mk, rewriteBelow]
    exact congrArg (fun s => f (.mk l s)) (Shape.map_congr fun c hc => ih c hc _)

/-- Nodes that stay what they are make up the tree that was. -/
theorem mapNodes_eq_self {t : Tree} (h : ∀ d ∈ t.descendants, f d = d) : mapNodes f t = t := by
  induction t using Labelled.ind with
  | node l s ih =>
    have hkids : s.map (mapNodes f) = s.map fun c => c :=
      Shape.map_congr fun c hc => ih c hc fun d hd =>
        h d (Labelled.mem_descendants.2 (Or.inr ⟨c, hc, hd⟩))
    rw [mapNodes_mk, hkids, Shape.map_id_fun]
    exact h _ (Labelled.self_mem_descendants _)

/-- The change goes by what the node holds, and leaves its children. -/
structure Nodewise (f : Tree → Tree) : Prop where
  children : ∀ t, (f t).children = t.children
  natural : ∀ l s (r : Tree → Tree),
    f (.mk l (s.map r)) = .mk (f (.mk l s)).label ((f (.mk l s)).shape.map r)

namespace Nodewise

variable (hf : Nodewise f)
include hf

theorem label_mapNodes (t : Tree) : (mapNodes f t).label = (f t).label := by
  obtain ⟨l, s⟩ := t
  rw [mapNodes_mk, hf.natural, Labelled.label_mk]

theorem shape_mapNodes (t : Tree) : (mapNodes f t).shape = (f t).shape.map (mapNodes f) := by
  obtain ⟨l, s⟩ := t
  rw [mapNodes_mk, hf.natural, Labelled.shape_mk]

/-- **Nodes stay in their places.** -/
theorem descendants_mapNodes (t : Tree) : (mapNodes f t).descendants = t.descendants.map (mapNodes f) := by
  induction t using Labelled.ind with
  | node l s ih =>
    have hchildren : (mapNodes f (.mk l s)).children = s.children.map (mapNodes f) := by
      rw [mapNodes_mk, hf.children, Labelled.children_mk, Shape.children_map]
    rw [Labelled.descendants_eq, hchildren, List.flatMap_map, Labelled.descendants_mk, List.map_cons,
      List.map_flatMap]
    exact congrArg _ (List.flatMap_congr ih)

/-- What the nodes hold, read off one by one in pre-order. -/
theorem filterMap_shape_mapNodes {β : Type} {p : Shape Tree → Option β}
    (hp : ∀ (r : Tree → Tree) s, p (s.map r) = p s) (t : Tree) :
    (mapNodes f t).descendants.filterMap (fun d => p d.shape) =
      t.descendants.filterMap fun d => p (f d).shape := by
  rw [hf.descendants_mapNodes, List.filterMap_map]
  refine List.filterMap_congr fun d _ => ?_
  rw [Function.comp_apply, hf.shape_mapNodes, hp]

/-- **One change after the other.** -/
theorem mapNodes_mapNodes (t : Tree) : mapNodes g (mapNodes f t) = mapNodes (fun d => g (f d)) t := by
  induction t using Labelled.ind with
  | node l s ih =>
    have hkids : (s.map fun c => mapNodes g (mapNodes f c)) = s.map (mapNodes fun d => g (f d)) :=
      Shape.map_congr ih
    calc mapNodes g (mapNodes f (.mk l s))
        = mapNodes g (.mk (f (.mk l s)).label ((f (.mk l s)).shape.map (mapNodes f))) := by
          rw [mapNodes_mk, hf.natural]
      _ = g (.mk (f (.mk l s)).label ((f (.mk l s)).shape.map fun c => mapNodes g (mapNodes f c))) := by
          rw [mapNodes_mk, Shape.map_map]
      _ = g (f (.mk l (s.map (mapNodes fun d => g (f d))))) := by rw [← hf.natural, hkids]
      _ = mapNodes (fun d => g (f d)) (.mk l s) := by rw [mapNodes_mk]

end Nodewise

end Tree

end Refactor
