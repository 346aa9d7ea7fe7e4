import Refactor.Proofs.Tree.Rewrite

/-!
# What a rewriting leaves of the nodes

The sites of a tree are what its nodes are known by when the tree is rewritten: their ids, kinds and
markers, in pre-order. A rewriting may take sites out of the list and change others, and `Thinned`
says which and how. It is enough to know that of the change of a single node (`thinned_rewrite`).
-/

namespace Refactor

section Lists

variable {α β : Type} {Go : α → Prop} {Stay : α → α → Prop}

/-- The second list is what is left of the first: some of those that may go are gone, and the others
have become what they may, in the same order. -/
inductive Thinned (Go : α → Prop) (Stay : α → α → Prop) : List α → List α → Prop
  | nil : Thinned Go Stay [] []
  | stay {a b : α} {as bs : List α} : Stay a b → Thinned Go Stay as bs → Thinned Go Stay (a :: as) (b :: bs)
  | go {a : α} {as bs : List α} : Go a → Thinned Go Stay as bs → Thinned Go Stay (a :: as) bs

namespace Thinned

theorem refl (hrefl : ∀ a, Stay a a) (as : List α) : Thinned Go Stay as as := by
  induction as with
  | nil => exact .nil
  | cons a as ih => exact .stay (hrefl a) ih

theorem append {as bs cs ds : List α} (h : Thinned Go Stay as bs) (h' : Thinned Go Stay cs ds) :
    Thinned Go Stay (as ++ cs) (bs ++ ds) := by
  induction h with
  | nil => exact h'
  | stay hab _ ih => exact .stay hab ih
  | go ha _ ih => exact .go ha ih

theorem flatMap {xs : List β} {f g : β → List α} (h : ∀ x ∈ xs, Thinned Go Stay (f x) (g x)) :
    Thinned Go Stay (xs.flatMap f) (xs.flatMap g) := by
  induction xs with
  | nil => exact .nil
  | cons x xs ih =>
    rw [List.flatMap_cons, List.flatMap_cons]
    exact (h x List.mem_cons_self).append (ih fun y hy => h y (List.mem_cons_of_mem _ hy))

/-- What is left of what was left, if whatever goes in the end could have gone at once. -/
theorem trans (htrans : ∀ a b c, Stay a b → Stay b c → Stay a c) (hgo : ∀ a b, Stay a b → Go b → Go a)
    {as bs cs : List α} (h : Thinned Go Stay as bs) (h' : Thinned Go Stay bs cs) :
    Thinned Go Stay as cs := by
  induction h generalizing cs with
  | nil => exact h'
  | @stay a b as bs hab _ ih =>
    cases h' with
    | @stay _ c _ cs hbc hrest => exact .stay (htrans a b c hab hbc) (ih hrest)
    | go hb hrest => exact .go (hgo a b hab hb) (ih hrest)
  | go ha _ ih => exact .go ha (ih h')

end Thinned

end Lists

/-! ### Sites -/

/-- What a node is known by. -/
structure Site where
  id : NodeId
  kind : Kind
  markers : List Marker
  deriving DecidableEq

namespace Tree

def site (t : Tree) : Site := ⟨t.label.id, t.kind, t.label.markers⟩

/-- The sites of all nodes, in pre-order. -/
def sites (t : Tree) : List Site := t.descendants.map site

theorem sites_mk (l : Header) (s : Shape Tree) :
    sites (.mk l s) = site (.mk l s) :: s.children.flatMap sites := by
  unfold sites
  rw [Labelled.descendants_mk, List.map_cons, List.map_flatMap]

theorem sites_eq (t : Tree) : t.sites = t.site :: t.children.flatMap sites := by
  obtain ⟨l, s⟩ := t
  exact sites_mk l s

variable {change : List Tree → Tree → Tree}

theorem sites_rewriteBelow (t : Tree) (above : List Tree) : (rewriteBelow change t above).sites =
    t.site :: t.children.flatMap fun c => (rewrite change c (t :: above)).sites := by
  have hsite : (rewriteBelow change t above).site = t.site := by
    simp only [site, kind_rewriteBelow]
    rfl
  rw [sites_eq, hsite, children_rewriteBelow, List.flatMap_map]

/-- A change of the node alone shows in its markers alone. -/
theorem InPlace.sites_change (hc : InPlace change) (path : List Tree) (t : Tree) :
    (change path t).sites =
      ⟨t.label.id, t.kind, (change path t).label.markers⟩ :: t.children.flatMap sites := by
  rw [sites_eq, hc.children, site, hc.id, hc.kind]

section Rewriting

variable {Go : Site → Prop} {Stay : Site → Site → Prop} (hrefl : ∀ a, Stay a a)
include hrefl

/-- A change that adds to the markers of the node as it may, and does no more. -/
theorem InPlace.thinned_change (hc : InPlace change) (path : List Tree) (t : Tree)
    (h : Stay t.site ⟨t.label.id, t.kind, (change path t).label.markers⟩) :
    Thinned Go Stay t.sites (change path t).sites := by
  rw [hc.sites_change, sites_eq]
  exact .stay h (.refl hrefl _)

/-- **Sites are thinned from the leaves up.** -/
theorem thinned_rewrite (htrans : ∀ a b c, Stay a b → Stay b c → Stay a c)
    (hgo : ∀ a b, Stay a b → Go b → Go a)
    (hchange : ∀ path t, Thinned Go Stay (Tree.sites t) (change path t).sites) :
    ∀ (t : Tree) (above : List Tree), Thinned Go Stay t.sites (rewrite change t above).sites := by
  intro t
  induction t using Labelled.ind with
  | node l s ih =>
    intro above
    have hbelow : Thinned Go Stay (sites (.mk l s)) (rewriteBelow change (.mk l s) above).sites := by
      rw [sites_rewriteBelow, sites_mk]
      exact .stay (hrefl _) (Thinned.flatMap fun c hc => ih c hc _)
    rw [rewrite_eq]
    exact hbelow.trans htrans hgo (hchange _ _)

end Rewriting

end Tree

end Refactor
