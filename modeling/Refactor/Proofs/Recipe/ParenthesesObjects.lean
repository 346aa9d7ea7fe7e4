import Refactor.Proofs.Recipe.Parentheses

/-!
# Removing parentheses: objects

An expression that loses several pairs of parentheses takes over the white space of each of them in
turn, from the inside out, and each time that differs from what it has it becomes another object. So
it is the same object in the end only if all of them, and not just the outermost, have its white
space (`same_iff`).
-/

namespace Refactor

namespace UnwrapParentheses

/-- The object with that white space before it: itself, if it has it. -/
inductive Led (b : Nat) (leading : String) (k : Node) : Node → Prop
  | kept : k.label.leading = leading → Led b leading k k
  | new (stamp : Nat) : k.label.leading ≠ leading → b ≤ stamp →
      Led b leading k (.mk { k.label with stamp, leading } k.shape)

/-- What becomes of a tree: a node stays and its children become what they do, or it is parentheses
and what has become of their content takes their place. -/
inductive Unwraps (b : Nat) : Node → Node → Prop
  | stays {n m : Node} {cs : List Node} : List.Forall₂ (Unwraps b) n.children cs →
      Node.Walked b n cs m → Unwraps b n m
  | removed {l : Label} {k k' m : Node} : Unwraps b k k' → k'.kind ≠ .parenthesized →
      Led b l.leading k' m → Unwraps b (.mk l (.parenthesized k)) m

section Led

variable {b : Nat} {leading : String} {k m : Node}

theorem Led.id (h : Led b leading k m) : m.label.id = k.label.id := by
  cases h <;> rfl

theorem Led.leading_eq (h : Led b leading k m) : m.label.leading = leading := by
  cases h with
  | kept h => exact h
  | new => rfl

theorem Led.children (h : Led b leading k m) : m.children = k.children := by
  cases h <;> rfl

theorem Led.content (h : Led b leading k m) : m.content = led leading k.content := by
  obtain ⟨l, s⟩ := k
  cases h with
  | kept h =>
    subst h
    simp [led, Label.header]
  | new => simp [led, Label.header]

theorem Led.ids (h : Led b leading k m) : m.content.ids = k.content.ids := by
  obtain ⟨l, s⟩ := k
  cases h <;> simp [Node.content_mk, Tree.ids_mk, Label.header]

end Led

/-! ### The visit -/

/-- What the visitor does at a node that has been walked. -/
def finish (p : Place) : Script Visitor :=
  match p.current.kind with
  | .parenthesized => update
  | _ => .done

theorem finish_of_kind {p : Place} (h : p.current.kind ≠ .parenthesized) : finish p = .done := by
  unfold finish
  generalize p.current.kind = kind at h
  cases kind with
  | parenthesized => exact absurd rfl h
  | _ => rfl

theorem visitor_walksThen : ∃ name s, visitor = .plain name s ∧ s.WalksThen finish := by
  refine ⟨_, _, rfl, walksThen_look_kind fun p visitChild n kind hkind => ?_⟩
  unfold finish
  rw [hkind]
  cases kind <;> rfl

theorem run_lead_yields {visitChild : Node → Visit Node} {k : Node} {c : Context} {b : Nat}
    {leading : String} (hb : b ≤ c.session.supply.stamp) (hk : k.Predates c.session.supply.stamp) :
    ((Script.edit (.lead leading) (.done : Script Visitor)).run visitChild k).Yields c
      (Led b leading k) := by
  have halloc : (Visit.alloc (k.lead leading)).Yields c (Led b leading k) := by
    unfold Node.lead
    by_cases h : k.label.leading = leading
    · rw [if_pos h]
      exact Visit.yields_alloc (Nat.le_refl _) hk (.kept h)
    · rw [if_neg h]
      refine Visit.yields_alloc (Nat.le_succ _) ?_ (.new _ h hb)
      exact .intro (Nat.lt_succ_self _) (Nat.lt_succ_of_lt hk.markers) fun c hc => hk.child hc
  exact halloc.bind fun m c' _ hm h => Visit.yields_pure hm h

/-- Parentheses that have been walked are parentheses still. -/
theorem walked_parenthesized {b : Nat} {l : Label} {k m : Node} {cs : List Node}
    (h : Node.Walked b (.mk l (.parenthesized k)) cs m) :
    ∃ k' l', cs = [k'] ∧ m = .mk l' (.parenthesized k') ∧ l'.header = l.header := by
  cases h with
  | kept h => exact ⟨k, l, h, rfl, rfl⟩
  | rebuilt stamp _ hlen _ =>
    obtain ⟨k', rfl⟩ : ∃ k', cs = [k'] := List.length_eq_one_iff.1 hlen
    exact ⟨k', _, rfl, rfl, rfl⟩

/-- The script puts what is in the parentheses in their place, unless they have to stay. -/
theorem update_yields {visitChild : Node → Visit Node} {l : Label} {k : Node} {c : Context} {b : Nat}
    (hb : b ≤ c.session.supply.stamp)
    (hm : Node.Predates (.mk l (.parenthesized k)) c.session.supply.stamp) :
    (update.run visitChild (.mk l (.parenthesized k))).Yields c fun m =>
      m.content = change c.cursor.path (Node.content (.mk l (.parenthesized k))) ∧
        (m = .mk l (.parenthesized k) ∨ Led b l.leading k m) := by
  have hk : k.Predates c.session.supply.stamp := hm.child (by simp [Shape.children])
  unfold update
  refine run_look_yields ?_
  rw [Context.current_place, Context.cursor_place, Node.content_mk, Shape.map_parenthesized]
  dsimp only [Labelled.shape_mk, Labelled.label_mk]
  change (Script.run visitChild (if c.cursor.path.tail.head?.any (isOperand l.header.id) &&
    !k.content.kind.isPrimary then _ else _) _).Yields c _
  cases hkeep : c.cursor.path.tail.head?.any (isOperand l.header.id) && !k.content.kind.isPrimary with
  | true =>
    rw [if_pos rfl]
    refine run_done_yields hm ⟨?_, Or.inl rfl⟩
    simp only [Node.content_mk, Shape.map_parenthesized, change, Labelled.shape_mk,
      Labelled.label_mk, hkeep, if_true]
  | false =>
    rw [if_neg Bool.false_ne_true]
    refine Visit.Yields.imp (x := (Script.edit (.lead l.leading) .done).run visitChild k)
      (run_lead_yields hb hk) fun m hled => ⟨?_, Or.inr hled⟩
    rw [hled.content]
    simp only [change, Labelled.shape_mk, Labelled.label_mk, hkeep, Bool.false_eq_true, if_false]
    rfl

/-- What comes back is the tree itself, a new object, or one that was inside. -/
theorem Unwraps.same_or_other {b : Nat} {n m : Node} (h : Unwraps b n m) (hn : n.Predates b) :
    m = n ∨ b ≤ m.label.stamp ∨ m.label.stamp < n.label.stamp := by
  induction n using Labelled.ind generalizing m with
  | node l s ih =>
    cases h with
    | stays _ hwalked =>
      cases hwalked with
      | kept => exact Or.inl rfl
      | rebuilt stamp _ _ hb => exact Or.inr (Or.inl hb)
    | @removed _ k k' _ hk _ hled =>
      have hmem : k ∈ (Shape.parenthesized k).children := by simp [Shape.children]
      have hstamp := (hn.before_parent hmem).stamp
      cases hled with
      | new stamp _ hb => exact Or.inr (Or.inl hb)
      | kept =>
        rcases ih k hmem hk (hn.child hmem) with rfl | h | h
        · exact Or.inr (Or.inr hstamp)
        · exact Or.inr (Or.inl h)
        · exact Or.inr (Or.inr (Nat.lt_trans h hstamp))

/-- **A visit removes the parentheses that do not matter.** -/
theorem visit_unwraps {σ : Setting} (n : Node) (fuel : Nat) (c : Context) (hvalid : n.slotValid)
    (hn : n.Predates σ.bound) (hfuel : n.height ≤ fuel) (hc : c.In σ) :
    (visit fuel visitor n).Yields c fun m =>
      m.content = Tree.rewrite change n.content c.cursor.path ∧ Unwraps σ.bound n m := by
  obtain ⟨name, s, hvisitor, hs⟩ := visitor_walksThen
  rw [hvisitor]
  refine @visit_yields name s finish hs σ 0 (fun above n m =>
    m.content = Tree.rewrite change n.content above ∧ Unwraps σ.bound n m)
    ?_ ?_ ?_ n fuel c hvalid hn hfuel hc
  · intro above n m hm hvalid slot hacc
    exact change_slotSafe.accepts hm.1 hvalid hacc
  · -- A node is itself, newer than all that was there, or older than the node it came from.
    rintro above n m ⟨-, h⟩ hn
    have := hn.stamp
    rcases h.same_or_other hn with rfl | h | h
    · exact Or.inl rfl
    · exact Or.inr (by omega)
    · exact Or.inr (by omega)
  · intro fuel n m cs c c' _ _ _ hc hc' hm hcs hwalked
    have hunwraps : List.Forall₂ (Unwraps σ.bound) n.children cs := hcs.imp fun _ _ h => h.2
    have hcontent : m.content = Tree.rewriteBelow change n.content c.cursor.path :=
      hwalked.content (f := fun t => Tree.rewrite change t (n.content :: c.cursor.path))
        (hcs.imp fun _ _ h => h.1)
    have hpath : c'.cursor.path = n.content :: c.cursor.path := by
      rw [hc'.cursor, Context.path_enter]
    have hb : σ.bound ≤ c'.session.supply.stamp := Nat.le_trans hc.bound hc'.stamp
    refine settle_of_run hc' ?_
    rw [Tree.rewrite_eq, ← hcontent]
    by_cases hkind : n.kind = .parenthesized
    · obtain ⟨l, sh⟩ := n
      obtain ⟨k, rfl⟩ := Shape.eq_parenthesized hkind
      obtain ⟨k', l', rfl, rfl, hheader⟩ := walked_parenthesized hwalked
      obtain ⟨⟨hk', hk⟩, -⟩ := List.forall₂_cons.1 hcs
      have hleading : l'.leading = l.leading := congrArg Header.leading hheader
      refine (update_yields (b := σ.bound) hb hm).imp ?_
      rintro m ⟨hm, rfl | hled⟩
      · -- The parentheses matter.
        exact ⟨hpath ▸ hm, .stays hunwraps hwalked⟩
      · -- They do not: the node inside takes their place and their white space.
        refine ⟨hpath ▸ hm, .removed hk ?_ (hleading ▸ hled)⟩
        rw [← Node.kind_content, hk']
        exact kind_rewrite_ne (by rw [Node.kind_content]; exact hkind) _ _
    · rw [finish_of_kind (by rwa [Context.current_place, Node.kind_content])]
      refine run_done_yields hm ⟨?_, .stays hunwraps hwalked⟩
      rw [change_of_kind]
      rwa [Node.kind_content, hwalked.kind]

/-! ### The same object -/

/-- The parentheses enclose the node and nothing but parentheses is between the two. -/
inductive Encloses : Node → Node → Prop
  | directly (l : Label) (k : Node) : Encloses (.mk l (.parenthesized k)) k
  | through (l : Label) {k i : Node} : Encloses k i → Encloses (.mk l (.parenthesized k)) i

theorem Encloses.mem {p i : Node} (h : Encloses p i) : i ∈ p.descendants ∧ p.kind = .parenthesized := by
  induction h with
  | directly l k =>
    exact ⟨Labelled.mem_descendants_of_child (by simp [Shape.children]), rfl⟩
  | @through l k i _ ih =>
    refine ⟨Labelled.mem_descendants.2 (Or.inr ⟨k, ?_, ih.1⟩), rfl⟩
    simp [Shape.children]

theorem encloses_iff {l : Label} {k i : Node} :
    Encloses (.mk l (.parenthesized k)) i ↔ i = k ∨ Encloses k i := by
  constructor
  · intro h
    cases h with
    | directly => exact Or.inl rfl
    | through _ h => exact Or.inr h
  · rintro (rfl | h)
    · exact .directly l _
    · exact .through l h

theorem mem_children_parenthesized (k : Node) : k ∈ (Shape.parenthesized k).children := by
  simp [Shape.children]

namespace Unwraps

variable {b : Nat}

/-- Nothing comes in, and what stays keeps its order. -/
theorem ids_sublist {n m : Node} (h : Unwraps b n m) : m.content.ids.Sublist n.content.ids := by
  induction n using Labelled.ind generalizing m with
  | node l s ih =>
    cases h with
    | @stays _ _ cs hcs hwalked =>
      rw [Node.ids_eq, Node.ids_eq, hwalked.id, hwalked.children]
      refine List.Sublist.cons_cons _ (flatMap_sublist_of_forall₂ ?_)
      exact forall₂_imp_of_mem hcs fun c hc c' h => ih c hc h
    | @removed _ k k' _ hk _ hled =>
      rw [hled.ids, Node.ids_eq (.mk l (.parenthesized k))]
      refine List.Sublist.cons _ ?_
      simpa [Shape.children] using ih k (mem_children_parenthesized k) hk

/-- A tree is what becomes of it if nothing does. -/
protected theorem refl (n : Node) : Unwraps b n n := by
  induction n using Labelled.ind with
  | node l s ih => exact .stays (List.forall₂_same.2 ih) (.kept rfl)

/-- Another object at the root is another content. -/
theorem eq_of_content {n m : Node} (h : Unwraps b n m) (hcontent : m.content = n.content) : m = n := by
  induction n using Labelled.ind generalizing m with
  | node l s ih =>
    have hlength : m.content.ids.length = (Node.content (.mk l s)).ids.length := by rw [hcontent]
    cases h with
    | @stays _ _ cs hcs hwalked =>
      cases hwalked with
      | kept => rfl
      | rebuilt stamp hne hlen _ =>
        have hmap : cs.map Node.content = s.children.map Node.content := by
          have := congrArg Labelled.children hcontent
          rwa [Node.children_content, Node.children_content, Labelled.children_mk,
            Shape.children_withChildren hlen] at this
        refine absurd ?_ hne
        have hall := forall₂_imp_of_mem (forall₂_and_map_eq hcs hmap) fun c hc c' h =>
          ih c hc h.1 h.2
        exact (List.forall₂_eq_eq_eq ▸ hall.flip : cs = s.children)
    | @removed _ k k' _ hk _ hled =>
      -- Without the parentheses there are fewer nodes.
      have hle := hk.ids_sublist.length_le
      rw [hled.ids, Node.ids_eq (.mk l (.parenthesized k)), List.length_cons] at hlength
      simp only [Labelled.children_mk, Shape.children,
        List.flatMap_cons, List.flatMap_nil, List.append_nil] at hlength
      omega

theorem nodup {n m : Node} (h : Unwraps b n m) (hn : n.content.ids.Nodup) : m.content.ids.Nodup :=
  hn.sublist h.ids_sublist

/-- What is left of a child has ids of nodes in the child. -/
theorem mem_child_of_id {n c c' i : Node} (h : Unwraps b c c') (hn : n.content.ids.Nodup)
    (hc : c ∈ n.children) (hi : i ∈ n.descendants) (hid : i.label.id ∈ c'.content.ids) :
    i ∈ c.descendants := by
  obtain ⟨i', hi', hid'⟩ := Node.mem_ids.1 (h.ids_sublist.subset hid)
  have heq := Node.eq_of_id hn hi (Labelled.mem_descendants.2 (Or.inr ⟨c, hc, hi'⟩)) hid'.symm
  exact heq ▸ hi'

/-- The node of the result's id is the tree, or one it encloses. -/
theorem root_enclosed {n m i : Node} (h : Unwraps b n m) (hn : n.content.ids.Nodup)
    (hi : i ∈ n.descendants) (hid : i.label.id = m.label.id) : i = n ∨ Encloses n i := by
  induction n using Labelled.ind generalizing m with
  | node l s ih =>
    cases h with
    | stays _ hwalked =>
      rw [hwalked.id] at hid
      exact Or.inl (Node.eq_of_id hn hi (Labelled.self_mem_descendants _) hid)
    | @removed _ k k' _ hk _ hled =>
      have hmem := mem_children_parenthesized k
      rw [hled.id] at hid
      have hik : i ∈ k.descendants := hk.mem_child_of_id hn hmem hi
        (Node.mem_ids.2 ⟨k', Labelled.self_mem_descendants k', hid.symm⟩)
      exact Or.inr (encloses_iff.2 (ih k hmem hk (Node.nodup_child hn hmem) hik hid))

/-- Of the nodes that are enclosed only the result's own is left. -/
theorem enclosed_root {n m i : Node} (h : Unwraps b n m) (hn : n.content.ids.Nodup)
    (hm : m.kind ≠ .parenthesized) (hi : i = n ∨ Encloses n i) (hid : i.label.id ∈ m.content.ids) :
    i.label.id = m.label.id := by
  induction n using Labelled.ind generalizing m with
  | node l s ih =>
    cases h with
    | stays _ hwalked =>
      rcases hi with rfl | henc
      · exact hwalked.id.symm
      · exact absurd (hwalked.kind.trans henc.mem.2) hm
    | @removed _ k k' _ hk hkind hled =>
      have hmem := mem_children_parenthesized k
      rw [hled.ids] at hid
      rw [hled.id]
      refine ih k hmem hk (Node.nodup_child hn hmem) hkind ?_ hid
      rcases hi with rfl | henc
      · exact absurd (hk.ids_sublist.subset hid) (Node.id_not_mem_child hn hmem)
      · exact encloses_iff.1 henc

end Unwraps

/-- All the parentheses that are gone from around the node have its white space. -/
def Uniform (n m i : Node) : Prop :=
  ∀ p ∈ n.descendants, Encloses p i → p.label.id ∉ m.content.ids → p.label.leading = i.label.leading

namespace Unwraps

variable {b : Nat}

theorem leading_eq {n m i : Node} (h : Unwraps b n m) (hn : n.content.ids.Nodup)
    (hi : i ∈ n.descendants) (hid : i.label.id = m.label.id) (hu : Uniform n m i) :
    m.label.leading = i.label.leading := by
  have henc := h.root_enclosed hn hi hid
  cases h with
  | @stays _ _ cs hcs hwalked =>
    rw [hwalked.id] at hid
    obtain rfl := Node.eq_of_id hn hi (Labelled.self_mem_descendants _) hid
    cases hwalked <;> rfl
  | @removed l k k' _ hk _ hled =>
    have hmem := mem_children_parenthesized k
    have hself : l.id ∉ m.content.ids := by
      rw [hled.ids]
      exact fun h => Node.id_not_mem_child hn hmem (hk.ids_sublist.subset h)
    rw [hled.leading_eq]
    refine hu _ (Labelled.self_mem_descendants _) ?_ hself
    rcases henc with rfl | henc
    · exact absurd (Node.mem_ids.2 ⟨m, Labelled.self_mem_descendants m, hid.symm⟩) hself
    · exact henc

/-- Every object of the result is an old one or new. -/
theorem old_or_new {n m : Node} (h : Unwraps b n m) :
    ∀ o ∈ m.descendants, o ∈ n.descendants ∨ b ≤ o.label.stamp := by
  induction n using Labelled.ind generalizing m with
  | node l s ih =>
    intro o ho
    cases h with
    | @stays _ _ cs hcs hwalked =>
      rcases Labelled.mem_descendants.1 ho with rfl | ⟨c', hc', hoc⟩
      · cases hwalked with
        | kept => exact Or.inl ho
        | rebuilt stamp _ _ hb => exact Or.inr hb
      · rw [hwalked.children] at hc'
        obtain ⟨c, hc, hcc'⟩ := exists_left_of_forall₂ hcs c' hc'
        refine (ih c hc hcc' o hoc).imp_left fun h => ?_
        exact Labelled.mem_descendants.2 (Or.inr ⟨c, hc, h⟩)
    | @removed _ k k' _ hk _ hled =>
      have hmem := mem_children_parenthesized k
      have hbelow : o ∈ k'.descendants → o ∈ Labelled.descendants (.mk l (.parenthesized k)) ∨
          b ≤ o.label.stamp := fun ho =>
        (ih k hmem hk o ho).imp_left fun h => Labelled.mem_descendants.2 (Or.inr ⟨k, hmem, h⟩)
      rcases Labelled.mem_descendants.1 ho with rfl | ⟨c, hc, hoc⟩
      · -- The child takes the place of its parent, led by what stood before the parenthesis.
        cases hled with
        | kept => exact hbelow ho
        | new stamp _ hb => exact Or.inr hb
      · rw [hled.children] at hc
        exact hbelow (Labelled.mem_descendants.2 (Or.inr ⟨c, hc, hoc⟩))

/-- Nothing in a tree encloses its root. -/
theorem not_encloses_root {n p : Node} (hn : n.content.ids.Nodup) (hp : p ∈ n.descendants) :
    ¬ Encloses p n := by
  intro henc
  have habsurd : ∀ c ∈ n.children, n ∉ c.descendants := fun c hc hmem =>
    Node.id_not_mem_child hn hc (Node.mem_ids.2 ⟨n, hmem, rfl⟩)
  rcases Labelled.mem_descendants.1 hp with rfl | ⟨c, hc, hpc⟩
  · cases henc with
    | through l h => exact habsurd _ (mem_children_parenthesized _) h.mem.1
  · exact habsurd c hc (Labelled.mem_descendants_trans henc.mem.1 hpc)

/-- Around a node below a child, the parentheses that are gone are those gone from the child. -/
theorem uniform_child_iff {n m c c' i : Node} {cs : List Node} (hn : n.content.ids.Nodup)
    (hwalked : Node.Walked b n cs m) (hc : c ∈ n.children) (hc' : c' ∈ cs)
    (hsep : ∀ a ∈ c.content.ids, (a ∈ cs.flatMap fun c : Node => c.content.ids) → a ∈ c'.content.ids)
    (hi : i ∈ c.descendants) : Uniform n m i ↔ Uniform c c' i := by
  have hids : m.content.ids = n.label.id :: cs.flatMap fun c : Node => c.content.ids := by
    rw [Node.ids_eq, hwalked.id, hwalked.children]
  constructor
  · intro hu p hp henc hgone
    refine hu p (Labelled.mem_descendants.2 (Or.inr ⟨c, hc, hp⟩)) henc ?_
    rw [hids, List.mem_cons, not_or]
    have hpid : p.label.id ∈ c.content.ids := Node.mem_ids.2 ⟨p, hp, rfl⟩
    refine ⟨fun h => Node.id_not_mem_child hn hc (h ▸ hpid), fun h => hgone (hsep _ hpid h)⟩
  · intro hu p hp henc hgone
    rcases Labelled.mem_descendants.1 hp with rfl | ⟨d, hd, hpd⟩
    · exact absurd (by rw [hids]; exact List.mem_cons_self) hgone
    · have heq : d = c := by
        have hid : i.label.id ∈ (Node.content d).ids :=
          Node.mem_ids.2 ⟨i, Labelled.mem_descendants_trans henc.mem.1 hpd, rfl⟩
        exact Node.eq_of_common_id hn hd hc hid (Node.mem_ids.2 ⟨i, hi, rfl⟩)
      subst heq
      refine hu p hpd henc fun h => hgone ?_
      rw [hids]
      exact List.mem_cons_of_mem _ (List.mem_flatMap.2 ⟨c', hc', h⟩)

/-- With parentheses gone, they count among those around a node they enclose. -/
theorem uniform_removed_iff {l : Label} {k k' m i : Node}
    (hn : (Node.content (.mk l (.parenthesized k))).ids.Nodup) (hk : Unwraps b k k')
    (hled : Led b l.leading k' m) : Uniform (.mk l (.parenthesized k)) m i ↔ Uniform k k' i ∧
      (Encloses (.mk l (.parenthesized k)) i → l.leading = i.label.leading) := by
  have hmem := mem_children_parenthesized k
  have hself : l.id ∉ m.content.ids := by
    rw [hled.ids]
    exact fun h => Node.id_not_mem_child hn hmem (hk.ids_sublist.subset h)
  constructor
  · intro hu
    refine ⟨fun p hp henc hgone => ?_, fun henc => ?_⟩
    · exact hu p (Labelled.mem_descendants.2 (Or.inr ⟨k, hmem, hp⟩)) henc (by rwa [hled.ids])
    · exact hu _ (Labelled.self_mem_descendants _) henc hself
  · rintro ⟨hu, hown⟩ p hp henc hgone
    rcases Labelled.mem_descendants.1 hp with rfl | ⟨c, hc, hpc⟩
    · exact hown henc
    · obtain rfl : c = k := by simpa [Shape.children] using hc
      exact hu p hpc henc (by rwa [← hled.ids])

/-- The root of what has been freed of its parentheses is the object it was if it was before, and they
have its white space. -/
theorem led_eq_iff {l : Label} {k k' m i : Node} (hk : Unwraps b k k') (hn : k.content.ids.Nodup)
    (hled : Led b l.leading k' m) (hi : i ∈ k.descendants) (hid : k'.label.id = i.label.id)
    (hb : i.Predates b) (ih : k' = i ↔ k'.content = i.content ∧ Uniform k k' i) :
    m = i ↔ m.content = i.content ∧ Uniform k k' i ∧
      (Encloses (.mk l (.parenthesized k)) i → l.leading = i.label.leading) := by
  have henc : Encloses (.mk l (.parenthesized k)) i :=
    encloses_iff.2 (hk.root_enclosed hn hi hid.symm)
  cases hled with
  | kept hleading =>
    rw [ih]
    refine ⟨fun ⟨hcontent, hu⟩ => ⟨hcontent, hu, fun _ => ?_⟩, fun ⟨h, hu, _⟩ => ⟨h, hu⟩⟩
    rw [← hleading]
    exact hk.leading_eq hn hi hid.symm hu
  | new stamp hleading hstamp =>
    constructor
    · rintro rfl
      have := hb.stamp
      simp only [Labelled.label_mk] at this
      omega
    · rintro ⟨-, hu, hown⟩
      exact absurd ((hk.leading_eq hn hi hid.symm hu).trans (hown henc).symm) hleading

/-- **The same object.** A node of the result is the object it was exactly if its content is what it
was and all the parentheses that are gone from around it have its white space. -/
theorem same_iff {n m : Node} (h : Unwraps b n m) (hn : n.content.ids.Nodup) (hb : n.Predates b) :
    ∀ o ∈ m.descendants, ∀ i ∈ n.descendants, o.label.id = i.label.id →
      (o = i ↔ Node.content o = Node.content i ∧ Uniform n m i) := by
  induction n using Labelled.ind generalizing m with
  | node l s ih =>
    intro o ho i hi hid
    cases h with
    | @stays _ _ cs hcs hwalked =>
      rcases Labelled.mem_descendants.1 ho with rfl | ⟨c', hc', hoc⟩
      · -- The root is enclosed by nothing.
        rw [hwalked.id] at hid
        obtain rfl := Node.eq_of_id hn hi (Labelled.self_mem_descendants _) hid.symm
        refine ⟨fun h => ⟨by rw [h], fun p hp henc => absurd henc (not_encloses_root hn hp)⟩, ?_⟩
        exact fun h => (stays hcs hwalked).eq_of_content h.1
      · rw [hwalked.children] at hc'
        have hnodup := hn
        rw [Node.ids_eq, List.nodup_cons] at hnodup
        obtain ⟨c, hc, hcc', hsep⟩ := exists_left_of_forall₂ (forall₂_mem_flatMap
          (g := fun c : Node => c.content.ids) hcs (fun _ _ h => h.ids_sublist.subset) hnodup.2) c' hc'
        -- The ids tell below which child the two nodes are.
        have hic : i ∈ c.descendants := hcc'.mem_child_of_id hn hc hi (Node.mem_ids.2 ⟨o, hoc, hid⟩)
        rw [uniform_child_iff hn hwalked hc hc' hsep hic]
        exact ih c hc hcc' (Node.nodup_child hn hc) (hb.child hc) o hoc i hic hid
    | @removed _ k k' _ hk hkind hled =>
      have hmem := mem_children_parenthesized k
      have hkn := Node.nodup_child hn hmem
      have hik : i ∈ k.descendants := by
        refine hk.mem_child_of_id hn hmem hi ?_
        rw [← hled.ids]
        exact Node.mem_ids.2 ⟨o, ho, hid⟩
      have ih := ih k hmem hk hkn (hb.child hmem)
      rw [uniform_removed_iff hn hk hled]
      rcases Labelled.mem_descendants.1 ho with rfl | ⟨c, hc, hoc⟩
      · rw [hled.id] at hid
        exact hk.led_eq_iff hkn hled hik hid (hb.of_mem hi)
          (ih k' (Labelled.self_mem_descendants k') i hik hid)
      · rw [hled.children] at hc
        have hok : o ∈ k'.descendants := Labelled.mem_descendants.2 (Or.inr ⟨c, hc, hoc⟩)
        -- Below the node that came out of the parentheses they are not around anything.
        have hnot : ¬ Encloses (.mk l (.parenthesized k)) i := by
          intro henc
          have hroot := hk.enclosed_root hkn hkind (encloses_iff.1 henc)
            (hid ▸ Node.mem_ids.2 ⟨o, hok, rfl⟩)
          refine Node.id_not_mem_child (hk.nodup hkn) hc ?_
          rw [← hroot, ← hid]
          exact Node.mem_ids.2 ⟨o, hoc, rfl⟩
        rw [ih o hok i hik hid]
        exact ⟨fun ⟨h, hu⟩ => ⟨h, hu, fun h => absurd h hnot⟩, fun ⟨h, hu, _⟩ => ⟨h, hu⟩⟩

end Unwraps

end UnwrapParentheses

end Refactor
