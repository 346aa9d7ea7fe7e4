import Refactor.Proofs.Visit.Frame

/-!
# Visitors that walk and then finish

Every visitor of the library first walks the children of a node and then finishes with the node
itself (`Script.WalksThen`). For such a visitor, what holds of one node, given that it holds of the
children, holds of a whole traversal (`visit_yields`): this is the induction over the tree that all
that follows goes by.
-/

namespace Refactor

/-- The script walks the node at hand and goes on as `finish` says for the place it started at. -/
def Script.WalksThen (s : Script Visitor) (finish : Place → Script Visitor) : Prop :=
  ∀ visitChild n c, s.run visitChild n c =
    (walkNode visitChild n >>= fun m => (finish (c.place n)).run visitChild m) c

/-- Finishes with a node that has been walked: the rest of the script, then the visitors left at
the node. -/
def settle (fuel : Nat) (visitChild : Node → Visit Node) (s : Script Visitor) (n : Node) :
    Visit Node := do
  let (result, deferred) ← Visit.leaving (s.run visitChild n)
  runDeferred (visit fuel) deferred result

/-! ### Walking as what the node is -/

theorem Shape.slotted_eq_nil_of_isLeaf {α : Type} {s : Shape α} (h : s.kind.isLeaf) :
    s.slotted = [] := by
  cases s <;> simp_all [Shape.kind, Kind.isLeaf, Shape.slotted]

theorem walkAs_self (visitChild : Node → Visit Node) (n : Node) :
    walkAs visitChild n.kind n = walkNode visitChild n := by
  unfold walkAs
  by_cases h : n.kind.isLeaf
  · have hslots : n.shape.slotted = [] := Shape.slotted_eq_nil_of_isLeaf h
    have hchildren : n.children = [] := by
      rw [Labelled.children, Shape.children_eq, hslots, List.map_nil]
    rw [if_pos h]
    unfold walkNode
    rw [hslots, hchildren]
    rfl
  · rw [if_neg h, if_pos rfl]

theorem Script.run_walk_done (visitChild : Node → Visit Node) (n : Node) (c : Context) :
    (walk n.kind .done).run visitChild n c = walkNode visitChild n c := by
  show (walkAs visitChild n.kind n >>= pure) c = _
  rw [walkAs_self]
  dsimp only [bind]
  cases walkNode visitChild n c <;> rfl

/-- A script that looks at the node and walks it as what it is. -/
theorem walksThen_look {next : Place → Script Visitor} {finish : Place → Script Visitor}
    (h : ∀ p visitChild n, p.current = n.content →
      (next p).run visitChild n = walkAs visitChild n.kind n >>= (finish p).run visitChild) :
    (Script.look next).WalksThen finish := by
  intro visitChild n c
  show (next (c.place n)).run visitChild n c = _
  rw [h (c.place n) visitChild n rfl, walkAs_self]

/-- As before, for a script that goes by the kind of the node. -/
theorem walksThen_look_kind {next : Place → Script Visitor} {finish : Place → Script Visitor}
    (h : ∀ p visitChild n kind, p.current.kind = kind →
      (next p).run visitChild n = walkAs visitChild kind n >>= (finish p).run visitChild) :
    (Script.look next).WalksThen finish := by
  refine walksThen_look fun p visitChild n hp => h p visitChild n n.kind ?_
  rw [hp, Node.kind_content]

/-! ### The children -/

theorem visitChildren_yields {visitChild : Node → Visit Node} {parent : Kind}
    {Q : Node → Node → Prop} :
    ∀ (kids : List (Slot × Node)) (c : Context),
      (∀ p ∈ kids, ∀ c', c.Resumes c' → (visitChild p.2).Yields c' (Q p.2)) →
      (∀ p ∈ kids, ∀ m, Q p.2 m → p.1.accepts m.kind) →
      ∃ cs c', visitChildren visitChild parent kids c = .done cs c' ∧ c.Resumes c' ∧
        List.Forall₂ (fun p m => Q p.2 m) kids cs ∧
        ∀ m ∈ cs, m.Predates c'.session.supply.stamp := by
  intro kids
  induction kids with
  | nil =>
    intro c _ _
    exact ⟨[], c, rfl, Context.Resumes.refl c, List.Forall₂.nil, by simp⟩
  | cons p rest ih =>
    intro c hvisit haccept
    obtain ⟨slot, child⟩ := p
    obtain ⟨m, c1, hm, hc1, hmb, hQ⟩ := hvisit (slot, child) (by simp) c (Context.Resumes.refl c)
    obtain ⟨cs, c2, hcs, hc2, hall, hb⟩ := ih c1
      (fun p hp c' hc' => hvisit p (List.mem_cons_of_mem _ hp) c' (hc1.trans hc'))
      (fun p hp => haccept p (List.mem_cons_of_mem _ hp))
    -- The check of the slot passes, so the walk goes on with the rest.
    have hslot : slot.accepts m.kind := haccept (slot, child) (by simp) m hQ
    refine ⟨m :: cs, c2, ?_, hc1.trans hc2, List.Forall₂.cons hQ hall, ?_⟩
    · rw [visitChildren, Visit.bind_done hm, hslot, Bool.or_true, if_pos rfl, Visit.bind_done hcs]
      rfl
    · intro k hk
      rcases List.mem_cons.1 hk with rfl | hk
      · exact hmb.mono hc2.stamp
      · exact hb k hk

/-- Children that came back as other objects have other stamps, so the same stamps mean the same
children. -/
lemma eq_of_stamps {ks cs : List Node}
    (h : List.Forall₂ (fun k m : Node => m = k ∨ m.label.stamp ≠ k.label.stamp) ks cs)
    (hstamps : cs.map (·.label.stamp) = ks.map (·.label.stamp)) : cs = ks := by
  induction h with
  | nil => rfl
  | @cons k m ks cs hkm _ ih =>
    rw [List.map_cons, List.map_cons, List.cons.injEq] at hstamps
    rw [ih hstamps.2]
    rcases hkm with rfl | hne
    · rfl
    · exact absurd hstamps.1 hne

theorem walkNode_yields {visitChild : Node → Visit Node} {n : Node} {c : Context} {b : Nat}
    {Q : Node → Node → Prop} (hn : n.Predates b) (hb : b ≤ c.session.supply.stamp)
    (hvisit : ∀ k ∈ n.children, ∀ c', c.Resumes c' → (visitChild k).Yields c' (Q k))
    (haccept : ∀ p ∈ n.shape.slotted, ∀ m, Q p.2 m → p.1.accepts m.kind)
    (hsame : ∀ k ∈ n.children, ∀ m, Q k m → m = k ∨ m.label.stamp ≠ k.label.stamp) :
    (walkNode visitChild n).Yields c fun m =>
      ∃ cs, List.Forall₂ Q n.children cs ∧ Node.Walked b n cs m := by
  obtain ⟨cs, c1, hcs, hc1, hall, hcb⟩ := visitChildren_yields n.shape.slotted c
    (fun p hp => hvisit p.2 (Shape.mem_children_of_slotted hp)) haccept
  have hQ : List.Forall₂ Q n.children cs := Shape.forall₂_children.2 hall
  have hlen : cs.length = n.children.length := hQ.length_eq.symm
  unfold walkNode
  by_cases hstamps : cs.map (·.label.stamp) = n.children.map (·.label.stamp)
  · -- No child has another stamp, and so each is the object it was.
    have hkept : cs = n.children := by
      exact eq_of_stamps (forall₂_imp_of_mem hQ hsame) hstamps
    refine ⟨n, c1, ?_, hc1, hn.mono (Nat.le_trans hb hc1.stamp), cs, hQ, .kept hkept⟩
    rw [Visit.bind_done hcs, if_pos hstamps]
    rfl
  · have hne : cs ≠ n.children := fun h => hstamps (by rw [h])
    have hnew : (Visit.alloc (n.withShape (n.shape.withChildren cs))).Yields c1 fun m =>
        ∃ cs, List.Forall₂ Q n.children cs ∧ Node.Walked b n cs m := by
      refine Visit.yields_alloc ?_ ?_ ⟨cs, hQ, .rebuilt _ hne hlen (Nat.le_trans hb hc1.stamp)⟩
      · rw [Node.withShape_run]
        exact Nat.le_succ _
      · refine Node.withShape_predates hn (Nat.le_trans hb hc1.stamp) ?_
        rwa [Shape.children_withChildren hlen]
    obtain ⟨m, c2, hm, hc2, hmb, hpost⟩ := hnew
    refine ⟨m, c2, ?_, hc1.trans hc2, hmb, hpost⟩
    rw [Visit.bind_done hcs, if_neg hstamps]
    exact hm

/-! ### A whole traversal -/

/-- A visit is a walk over the children and what settles the node after it. -/
theorem visit_eq_settle {name : String} {s : Script Visitor} {finish : Place → Script Visitor}
    (hs : s.WalksThen finish) {fuel : Nat} {n m : Node} {c c' : Context}
    (h : walkNode (visit fuel (.plain name s)) n (c.enter n.content) = .done m c') :
    visit (fuel + 1) (.plain name s) n c =
      settle fuel (visit fuel (.plain name s)) (finish ((c.enter n.content).place n)) m c' := by
  have hrun : s.run (visit fuel (.plain name s)) n (c.enter n.content) =
      (finish ((c.enter n.content).place n)).run (visit fuel (.plain name s)) m c' := by
    rw [hs, Visit.bind_done h]
  have hleaving : Visit.leaving (s.run (visit fuel (.plain name s)) n) (c.enter n.content) =
      Visit.leaving ((finish ((c.enter n.content).place n)).run (visit fuel (.plain name s)) m) c' := by
    unfold Visit.leaving
    rw [hrun]
  have hvisit : visit (fuel + 1) (.plain name s) n c =
      (Visit.leaving (s.run (visit fuel (.plain name s)) n) >>= fun p =>
        runDeferred (visit fuel) p.2 p.1) (c.enter n.content) := rfl
  rw [hvisit]
  exact Visit.bind_congr hleaving _

/-- **The induction over a traversal.** Let `Q above n m` say what is to become of a node `n` that
stands below `above`. If settling a node gives this for the node whenever it is so for the children,
a visit gives it for the whole tree. -/
theorem visit_yields {name : String} {s : Script Visitor} {finish : Place → Script Visitor}
    (hs : s.WalksThen finish) {σ : Setting} {extra : Nat} {Q : List Tree → Node → Node → Prop}
    (hslot : ∀ above n m, Q above n m → n.slotValid →
      ∀ slot : Slot, slot.accepts n.kind → slot.accepts m.kind)
    (hsame : ∀ above n m, Q above n m → n.Predates σ.bound →
      m = n ∨ m.label.stamp ≠ n.label.stamp)
    (hsettle : ∀ fuel (n m : Node) cs (c c' : Context), n.slotValid → n.Predates σ.bound →
      n.height + extra ≤ fuel + 1 → c.In σ → (c.enter n.content).Resumes c' → m.Predates c'.session.supply.stamp →
      List.Forall₂ (Q (n.content :: c.cursor.path)) n.children cs → Node.Walked σ.bound n cs m →
      ∃ k c'', settle fuel (visit fuel (.plain name s)) (finish ((c.enter n.content).place n)) m c' =
        .done k c'' ∧ c.Resumes c'' ∧ k.Predates c''.session.supply.stamp ∧ Q c.cursor.path n k) :
    ∀ (n : Node) (fuel : Nat) (c : Context), n.slotValid → n.Predates σ.bound →
      n.height + extra ≤ fuel → c.In σ →
      (visit fuel (.plain name s) n).Yields c (Q c.cursor.path n) := by
  intro n
  induction n using Labelled.ind with
  | node l shape ih =>
    intro fuel c hvalid hbound hfuel hc
    obtain ⟨fuel, rfl⟩ : ∃ k, fuel = k + 1 := by
      rw [Labelled.height_mk] at hfuel
      exact ⟨fuel - 1, by omega⟩
    -- The children come first, each with this node above it.
    have hwalk : (walkNode (visit fuel (.plain name s)) (.mk l shape)).Yields
        (c.enter (Node.content (.mk l shape))) fun m =>
          ∃ cs, List.Forall₂ (Q (Node.content (.mk l shape) :: c.cursor.path)) shape.children cs ∧
            Node.Walked σ.bound (.mk l shape) cs m := by
      refine walkNode_yields hbound hc.bound (fun k hk c' hc' => ?_) (fun p hp m hm => ?_)
        fun k hk m hm => hsame _ k m hm (hbound.child hk)
      · have hheight := Labelled.height_lt_of_child hk
        have hcursor : c'.cursor.path = Node.content (.mk l shape) :: c.cursor.path := by
          rw [hc'.cursor]
          rfl
        have hk' := ih k hk fuel c' (Labelled.slotValid_of_child hvalid hk) (hbound.child hk)
          (by omega) ((hc.enter _).resumes hc')
        rwa [hcursor] at hk'
      · -- What comes of a child fits in the slot of the child.
        obtain ⟨hacc, hval⟩ := Labelled.slotValid_iff.1 hvalid p hp
        exact hslot _ _ _ hm hval p.1 hacc
    obtain ⟨m, c', hm, hc', hmb, cs, hcs, hwalked⟩ := hwalk
    obtain ⟨k, c'', hk, hc'', hkb, hQ⟩ :=
      hsettle fuel _ m cs c c' hvalid hbound hfuel hc hc' hmb hcs hwalked
    exact ⟨k, c'', (visit_eq_settle hs hm).trans hk, hc'', hkb, hQ⟩

end Refactor
