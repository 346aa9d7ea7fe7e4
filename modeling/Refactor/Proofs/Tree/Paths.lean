import Refactor.Proofs.Tree.Descent

/-!
# The nodes of a tree and the ways up from them

One node can stand at several places of a tree. Where it stands is told by the way up from it: the
node, its parent there, and so on to the root. `Labelled.paths` lists the ways up in pre-order, in
which the nodes also come off a stack that each node gives its children to (`enumerates_descendants`).
-/

namespace Refactor

namespace Labelled

variable {β : Type}

/-! ### Ways up -/

/-- For each node, in pre-order, the nodes from it up to the root and on to what is above that. -/
def paths (t : Labelled β) : List (Labelled β) → List (List (Labelled β)) :=
  t.fold fun t s above => (t :: above) :: s.children.flatMap fun c => c (t :: above)

theorem paths_mk (l : β) (s : Shape (Labelled β)) (above : List (Labelled β)) :
    (mk l s).paths above =
      (mk l s :: above) :: s.children.flatMap fun c => c.paths (mk l s :: above) := by
  unfold paths
  rw [fold_mk, Shape.children_map, List.flatMap_map]

theorem paths_eq (t : Labelled β) (above : List (Labelled β)) :
    t.paths above = (t :: above) :: t.children.flatMap fun c => c.paths (t :: above) := by
  obtain ⟨l, s⟩ := t
  exact paths_mk l s above

theorem self_mem_paths (t : Labelled β) (above : List (Labelled β)) : t :: above ∈ t.paths above := by
  obtain ⟨l, s⟩ := t
  rw [paths_mk]
  exact List.mem_cons_self

theorem paths_subset_of_child {c t : Labelled β} {above : List (Labelled β)} (h : c ∈ t.children) :
    c.paths (t :: above) ⊆ t.paths above := by
  obtain ⟨l, s⟩ := t
  rw [paths_mk]
  exact fun path hpath => List.mem_cons_of_mem _ (List.mem_flatMap.2 ⟨c, h, hpath⟩)

/-- The ways up are those of the nodes in pre-order. -/
theorem heads_paths (t : Labelled β) (above : List (Labelled β)) :
    (t.paths above).map List.head? = t.descendants.map some := by
  induction t using ind generalizing above with
  | node l s ih =>
    rw [paths_mk, descendants_mk, List.map_cons, List.map_cons, List.map_flatMap, List.map_flatMap]
    exact congrArg _ (List.flatMap_congr fun c hc => ih c hc _)

theorem exists_mem_paths {t d : Labelled β} (h : d ∈ t.descendants) (above : List (Labelled β)) :
    ∃ up, d :: up ∈ t.paths above := by
  have hhead : some d ∈ (t.paths above).map List.head? := by
    rw [heads_paths]
    exact List.mem_map_of_mem h
  obtain ⟨path, hpath, hd⟩ := List.mem_map.1 hhead
  obtain ⟨up, rfl⟩ := List.head?_eq_some_iff.1 hd
  exact ⟨up, hpath⟩

theorem length_paths (t : Labelled β) (above : List (Labelled β)) :
    (t.paths above).length = t.descendants.length := by
  simpa using congrArg List.length (t.heads_paths above)

/-- A way up goes from child to parent, and ends with the root and what is above it. -/
theorem ascends_of_mem_paths {t : Labelled β} {above path : List (Labelled β)}
    (habove : (t :: above).IsChain fun c parent => c ∈ parent.children)
    (h : path ∈ t.paths above) :
    (path.IsChain fun c parent => c ∈ parent.children) ∧ t :: above <:+ path := by
  induction t using ind generalizing above with
  | node l s ih =>
    rw [paths_mk, List.mem_cons, List.mem_flatMap] at h
    rcases h with rfl | ⟨c, hc, hpath⟩
    · exact ⟨habove, List.suffix_refl _⟩
    · have hup : (c :: mk l s :: above).IsChain fun c parent => c ∈ parent.children :=
        .cons_cons hc habove
      obtain ⟨hchain, hsuffix⟩ := ih c hc hup hpath
      exact ⟨hchain, (List.suffix_cons c _).trans hsuffix⟩

/-- All of a way up lies in the tree, or above it. -/
theorem mem_of_mem_paths {t a : Labelled β} {above path : List (Labelled β)}
    (h : path ∈ t.paths above) (ha : a ∈ path) : a ∈ t.descendants ∨ a ∈ above := by
  induction t using ind generalizing above with
  | node l s ih =>
    rw [paths_mk, List.mem_cons, List.mem_flatMap] at h
    rcases h with rfl | ⟨c, hc, hpath⟩
    · rcases List.mem_cons.1 ha with rfl | ha
      · exact Or.inl (self_mem_descendants _)
      · exact Or.inr ha
    · rcases ih c hc hpath with hd | hd
      · exact Or.inl (mem_descendants.2 (Or.inr ⟨c, hc, hd⟩))
      · rcases List.mem_cons.1 hd with rfl | hd
        · exact Or.inl (self_mem_descendants _)
        · exact Or.inr hd

/-! ### Enumeration by a stack -/

/-- Takes the node on top of the stack and puts its children there, the last of them first. -/
def pop : List (Labelled β) → Option (Labelled β × List (Labelled β))
  | [] => none
  | t :: stack => some (t, t.children.reverse.foldl (fun stack c => c :: stack) stack)

theorem pop_cons (t : Labelled β) (stack : List (Labelled β)) :
    pop (t :: stack) = some (t, t.children ++ stack) := by
  rw [pop, List.foldl_reverse, List.foldr_cons_eq_append, List.map_id']

/-- What comes off the stack until it is empty. -/
inductive Enumerates : List (Labelled β) → List (Labelled β) → Prop
  | empty {stack : List (Labelled β)} : pop stack = none → Enumerates stack []
  | next {stack rest ts : List (Labelled β)} {t : Labelled β} : pop stack = some (t, rest) →
      Enumerates rest ts → Enumerates stack (t :: ts)

/-- A node on the stack gives its descendants before anything below it on the stack. -/
theorem Enumerates.push {stack ts : List (Labelled β)} (h : Enumerates stack ts) (t : Labelled β) :
    Enumerates (t :: stack) (t.descendants ++ ts) := by
  induction t using ind generalizing stack ts with
  | node l s ih =>
    have hchildren : ∀ cs : List (Labelled β), (∀ c ∈ cs, c ∈ s.children) →
        Enumerates (cs ++ stack) (cs.flatMap descendants ++ ts) := by
      intro cs hcs
      induction cs with
      | nil => exact h
      | cons c cs ihcs =>
        have hrest := ihcs fun d hd => hcs d (List.mem_cons_of_mem _ hd)
        rw [List.flatMap_cons, List.append_assoc]
        exact ih c (hcs c List.mem_cons_self) hrest
    rw [descendants_mk]
    exact .next (pop_cons _ _) (hchildren s.children fun _ hc => hc)

/-- **The descendants come off a stack** that holds the root alone. -/
theorem enumerates_descendants (t : Labelled β) : Enumerates [t] t.descendants := by
  have hempty : Enumerates ([] : List (Labelled β)) [] := .empty rfl
  simpa using hempty.push t

end Labelled

end Refactor
