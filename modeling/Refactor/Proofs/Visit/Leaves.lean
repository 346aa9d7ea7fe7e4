import Refactor.Node.Build
import Refactor.Proofs.Node.Mirror
import Refactor.Proofs.Visit.Traversal

/-!
# Visitors that edit leaves

A visitor that edits leaves and walks on at all other nodes substitutes: it replaces each leaf and
rebuilds what stands above one that has changed (`Substituted`). If a leaf becomes something that its
slot does not accept, the first such leaf in pre-order is what the visit fails at
(`visit_onLeaves`).

What a leaf becomes is made from the supply as it is when the visit comes to the leaf. Neither its kind
nor whether it is another object depends on that (`leafImage_later`), so both can be told at the start.
-/

namespace Refactor

/-! ### Where nodes stand -/

/-- A node with the kind of its parent and the slot it stands in. -/
structure Seat (β : Type) where
  parent : Kind
  slot : Slot
  node : Labelled β

namespace Labelled

variable {β : Type}

/-- The node and everything below it, in pre-order, where the node itself stands in that slot. -/
def seats (t : Labelled β) : Kind → Slot → List (Seat β) :=
  t.fold fun t s parent slot => ⟨parent, slot, t⟩ :: s.slotted.flatMap fun p => p.2 t.kind p.1

/-- Everything below the node, in pre-order. -/
def seatsBelow (t : Labelled β) : List (Seat β) :=
  t.shape.slotted.flatMap fun p => p.2.seats t.kind p.1

theorem seats_eq (t : Labelled β) (parent : Kind) (slot : Slot) :
    t.seats parent slot = ⟨parent, slot, t⟩ :: t.seatsBelow := by
  obtain ⟨l, s⟩ := t
  rw [seats, fold_mk, Shape.slotted_map, List.flatMap_map]
  rfl

/-- The seats are those of the nodes in pre-order. -/
theorem nodes_seats (t : Labelled β) (parent : Kind) (slot : Slot) :
    (t.seats parent slot).map Seat.node = t.descendants := by
  induction t using Labelled.ind generalizing parent slot with
  | node l s ih =>
    rw [seats_eq, descendants_mk, List.map_cons, seatsBelow, List.map_flatMap, Shape.children_eq,
      List.flatMap_map]
    refine congrArg _ (List.flatMap_congr fun p hp => ?_)
    exact ih p.2 (Shape.mem_children_of_slotted hp) _ _

theorem nodes_seatsBelow (t : Labelled β) : t.seatsBelow.map Seat.node = t.descendants.tail := by
  have hall := congrArg List.tail (t.nodes_seats t.kind .statement)
  rwa [seats_eq, List.map_cons, List.tail_cons] at hall

theorem seatsBelow_eq_nil {t : Labelled β} (h : t.kind.isLeaf) : t.seatsBelow = [] := by
  rw [seatsBelow, Shape.slotted_eq_nil_of_isLeaf h, List.flatMap_nil]

end Labelled

/-! ### What becomes of a leaf -/

/-- Makes the edits one after the other. -/
def Edit.applyAll (es : List Edit) (n : Node) : Alloc Node := es.foldlM (fun n e => e.apply n) n

namespace Edit

theorem applyAll_grows (es : List Edit) : ∀ {n : Node} {s : Supply}, n.Predates s.stamp →
    s.stamp ≤ (applyAll es n s).2.stamp ∧ Node.Stems s.stamp n (applyAll es n s).1 := by
  induction es with
  | nil => exact fun _ => ⟨Nat.le_refl _, Node.Stems.refl _ _⟩
  | cons e es ih =>
    intro n s hn
    obtain ⟨hs, hm, hstems⟩ := (apply_makes e hn).grows hn
    obtain ⟨hs', hstems'⟩ := ih hm
    exact ⟨Nat.le_trans hs hs', hstems.trans (hstems'.mono hs)⟩

end Edit

theorem Mirror.makes_applyAll {κ ι : Type} {μ : Mirror κ ι} (es : List Edit) :
    ∀ {n n' : Node}, μ.Nodes n n' → μ.Makes μ.Nodes (Edit.applyAll es n) (Edit.applyAll es n') := by
  induction es with
  | nil => exact fun hn => makes_pure hn
  | cons e es ih => exact fun hn => (makes_apply e hn).bind fun _ _ => ih

section Images

variable (g : Tree → List Edit) (s : Supply)

/-- What the edits that `g` asks for make of a leaf. -/
def leafImage (l : Node) : Node := (Edit.applyAll (g l.content) l s).1

/-- The node is a leaf and becomes another object. -/
def leafChanges (l : Node) : Bool := l.kind.isLeaf && !(leafImage g s l).same l

/-- A leaf there becomes something that the slot does not accept. -/
def Seat.offends (x : Seat Label) : Bool :=
  leafChanges g s x.node && !x.slot.accepts (leafImage g s x.node).kind

/-- What is said of it. -/
def Seat.refusal (x : Seat Label) : VisitError :=
  .invalidReplacement x.parent x.slot (leafImage g s x.node).kind

variable {g s}

/-- What a leaf becomes later on is of the same kind, and it is another object just as well. -/
theorem leafImage_later {s' : Supply} {l : Node} (hl : l.Predates s.stamp) (hs : s.stamp ≤ s'.stamp) :
    (leafImage g s' l).kind = (leafImage g s l).kind ∧
      (leafImage g s' l).same l = (leafImage g s l).same l := by
  have hstart : 0 < s.stamp := Nat.zero_lt_of_lt hl.stamp
  let μ : Mirror (Nat ⊕ Nat) Unit := .since (fun _ => ()) hstart (Nat.lt_of_lt_of_le hstart hs)
  have hself : μ.Nodes l l := Mirror.since_nodes hl (hl.mono hs)
  have hsupplies : μ.Supplies s s' := Mirror.since_supplies rfl rfl fun _ => rfl
  have himage := (Mirror.makes_applyAll (g l.content) hself s s' hsupplies).1
  exact ⟨himage.kind, Mirror.Nodes.same_iff hself himage⟩

theorem leafImage_eq_of_same {l : Node} (hl : l.Predates s.stamp) (h : (leafImage g s l).same l) :
    leafImage g s l = l :=
  (Edit.applyAll_grows (g l.content) hl).2.eq_of_stamp hl (of_decide_eq_true h)

end Images

/-! ### What becomes of a tree -/

/-- The tree with every leaf replaced. A node that is no leaf keeps its label and its own fields, and is
the object it was if and only if no leaf below it has changed. -/
inductive Substituted (g : Tree → List Edit) (s : Supply) : Node → Node → Prop
  | leaf {l m : Node} : l.kind.isLeaf → (∃ s' : Supply, s.stamp ≤ s'.stamp ∧ m = leafImage g s' l) →
      m.kind = (leafImage g s l).kind → m.same l = (leafImage g s l).same l → Substituted g s l m
  | node {n m : Node} : n.kind.isLeaf = false → List.Forall₂ (Substituted g s) n.children m.children →
      m.shape = n.shape.withChildren m.children → m.label = { n.label with stamp := m.label.stamp } →
      (m.same n ↔ ∀ x ∈ n.seatsBelow, leafChanges g s x.node = false) → Substituted g s n m

namespace Substituted

variable {g : Tree → List Edit} {s : Supply} {n m : Node} (h : Substituted g s n m)
include h

theorem kind (hn : n.kind.isLeaf = false) : m.kind = n.kind := by
  cases h with
  | leaf hleaf => rw [hleaf] at hn; cases hn
  | node _ _ hshape => rw [Labelled.kind, hshape, Shape.kind_withChildren, Labelled.kind]

/-- An object stays if and only if no leaf of it has changed. -/
theorem same_iff (parent : Kind) (slot : Slot) :
    m.same n ↔ ∀ x ∈ n.seats parent slot, leafChanges g s x.node = false := by
  simp only [Labelled.seats_eq, List.forall_mem_cons]
  cases h with
  | leaf hleaf _ _ hsame => simp [leafChanges, hleaf, hsame, Labelled.seatsBelow_eq_nil hleaf]
  | node hn _ _ _ hsame => simp [leafChanges, hn, hsame]

omit h in
theorem eq_of_same (hn : n.Predates s.stamp) (h : Substituted g s n m) (hsame : m.same n) : m = n := by
  induction n using Labelled.ind generalizing m with
  | node l shape ih =>
    cases h with
    | leaf hleaf himage =>
      obtain ⟨s', hs', rfl⟩ := himage
      exact leafImage_eq_of_same (hn.mono hs') hsame
    | node hinner hchildren hshape hlabel hsame_iff =>
      have hkept : List.Forall₂ Eq shape.children m.children := by
        refine forall₂_imp_of_mem hchildren fun c hc k hk => (ih c hc (hn.child hc) hk ?_).symm
        obtain ⟨slot, hp⟩ := Shape.exists_slotted_of_children hc
        exact (hk.same_iff shape.kind slot).2 fun x hx =>
          hsame_iff.1 hsame x (List.mem_flatMap.2 ⟨_, hp, hx⟩)
      rw [List.forall₂_eq_eq_eq] at hkept
      have hstamp : m.label.stamp = l.stamp := of_decide_eq_true hsame
      rw [← Labelled.mk_label_shape m, hshape, ← hkept, hlabel, hstamp]
      exact congrArg _ (Shape.withChildren_children shape)

end Substituted

/-! ### Children -/

/-- How a computation ends that fails at the first of the seats that offends: there if one does, or else
it succeeds and resumes, with a result of that property. -/
inductive Outcome.Vetted {α : Type} (g : Tree → List Edit) (s : Supply) (seats : List (Seat Label))
    (post : α → Prop) (c : Context) : Outcome α → Prop
  | done {a : α} {c' : Context} : seats.find? (·.offends g s) = none → post a → c.Resumes c' →
      Vetted g s seats post c (.done a c')
  | failed {x : Seat Label} {c' : Context} : seats.find? (·.offends g s) = some x →
      Vetted g s seats post c (.failed (x.refusal g s) c')

section Visits

variable {g : Tree → List Edit} {s : Supply}

theorem Seat.offends_eq_false (parent : Kind) (slot : Slot) {n : Node} (h : n.kind.isLeaf = false) :
    (Seat.mk parent slot n).offends g s = false := by
  rw [offends, leafChanges, h, Bool.false_and, Bool.false_and]

/-- What came of a child is refused just if its seat offends. -/
theorem Substituted.accepts_eq {n m : Node} (h : Substituted g s n m) (parent : Kind) {slot : Slot}
    (hslot : slot.accepts n.kind) :
    (m.same n || slot.accepts m.kind) = !(Seat.mk parent slot n).offends g s := by
  unfold Seat.offends leafChanges
  cases h with
  | leaf hleaf _ hkind hsame =>
    rw [hleaf, hkind, hsame, Bool.true_and, Bool.not_and, Bool.not_not, Bool.not_not]
  | node hn hchildren hshape hlabel hsame =>
    rw [(node hn hchildren hshape hlabel hsame).kind hn, hslot, hn, Bool.or_true]
    rfl

theorem Substituted.kind_of_offends {n m : Node} (h : Substituted g s n m) {parent : Kind} {slot : Slot}
    (hoffends : (Seat.mk parent slot n).offends g s) : m.kind = (leafImage g s n).kind := by
  cases h with
  | leaf _ _ hkind => exact hkind
  | node hn =>
    rw [Seat.offends_eq_false parent slot hn] at hoffends
    cases hoffends

theorem visitChildren_vetted {visitChild : Node → Visit Node} (parent : Kind) :
    ∀ (kids : List (Slot × Node)) (c : Context),
      (∀ p ∈ kids, ∀ c', c.Resumes c' →
        (visitChild p.2 c').Vetted g s p.2.seatsBelow (Substituted g s p.2) c') →
      (∀ p ∈ kids, p.1.accepts p.2.kind) →
      (visitChildren visitChild parent kids c).Vetted g s (kids.flatMap fun p => p.2.seats parent p.1)
        (List.Forall₂ (fun p m => Substituted g s p.2 m) kids) c := by
  intro kids
  induction kids with
  | nil => exact fun c _ _ => .done rfl .nil (Context.Resumes.refl c)
  | cons p rest ih =>
    intro c hvisit hslots
    obtain ⟨slot, child⟩ := p
    have hchild := hvisit (slot, child) (by simp) c (Context.Resumes.refl c)
    have hslot : slot.accepts child.kind := hslots (slot, child) (by simp)
    rw [visitChildren, List.flatMap_cons, Labelled.seats_eq]
    generalize hout : visitChild child c = o at hchild
    cases hchild with
    | @failed x c1 hx =>
      -- Only what lies below the child can have failed, and a leaf has nothing below it.
      have hinner : child.kind.isLeaf = false := by
        by_contra hleaf
        rw [Labelled.seatsBelow_eq_nil (by simpa using hleaf)] at hx
        cases hx
      rw [Visit.bind_failed hout]
      refine .failed ?_
      rw [List.find?_append, List.find?_cons_of_neg (by simp [Seat.offends_eq_false _ _ hinner]), hx]
      rfl
    | @done m c1 hnone hm hc1 =>
      rw [Visit.bind_done hout, hm.accepts_eq parent hslot]
      cases hoffends : (Seat.mk parent slot child).offends g s with
      | true =>
        -- The child is the first leaf whose slot does not take what has come of it.
        rw [Bool.not_true, if_neg Bool.false_ne_true, hm.kind_of_offends hoffends]
        refine .failed (x := ⟨parent, slot, child⟩) ?_
        rw [List.find?_append, List.find?_cons_of_pos hoffends]
        rfl
      | false =>
        -- The child fits, and nothing below it offends: the first offender is among the rest.
        have hrest := ih c1 (fun p hp c' hc' => hvisit p (List.mem_cons_of_mem _ hp) c' (hc1.trans hc'))
          fun p hp => hslots p (List.mem_cons_of_mem _ hp)
        generalize hrestOut : visitChildren visitChild parent rest c1 = o at hrest
        have hfind : ((⟨parent, slot, child⟩ :: child.seatsBelow) ++
            rest.flatMap fun p => p.2.seats parent p.1).find? (·.offends g s) =
            (rest.flatMap fun p => p.2.seats parent p.1).find? (·.offends g s) := by
          rw [List.find?_append, List.find?_cons_of_neg (by simp [hoffends]), hnone]
          rfl
        rw [Bool.not_false, if_pos rfl]
        cases hrest with
        | failed hx =>
          rw [Visit.bind_failed hrestOut]
          exact .failed (hfind.trans hx)
        | done hnone hcs hc2 =>
          rw [Visit.bind_done hrestOut]
          exact .done (hfind.trans hnone) (.cons hm hcs) (hc1.trans hc2)

/-- The children are the objects they were if and only if no leaf of theirs has changed. -/
theorem stamps_eq_iff (parent : Kind) {kids : List (Slot × Node)} {cs : List Node}
    (h : List.Forall₂ (fun p m => Substituted g s p.2 m) kids cs) :
    cs.map (·.label.stamp) = kids.map (·.2.label.stamp) ↔
      ∀ x ∈ kids.flatMap fun p => p.2.seats parent p.1, leafChanges g s x.node = false := by
  induction h with
  | nil => simp
  | @cons p m kids cs hm _ ih =>
    rw [List.map_cons, List.map_cons, List.cons.injEq, ih, List.flatMap_cons, List.forall_mem_append,
      ← hm.same_iff parent p.1, Node.same, decide_eq_true_iff]

/-- **A node above leaves.** -/
theorem walkNode_vetted {visitChild : Node → Visit Node} {n : Node} {c : Context}
    (hinner : n.kind.isLeaf = false) (hslots : ∀ p ∈ n.shape.slotted, p.1.accepts p.2.kind)
    (hn : n.Predates s.stamp) (hs : s.stamp ≤ c.session.supply.stamp)
    (hvisit : ∀ k ∈ n.children, ∀ c', c.Resumes c' →
      (visitChild k c').Vetted g s k.seatsBelow (Substituted g s k) c') :
    (walkNode visitChild n c).Vetted g s n.seatsBelow (Substituted g s n) c := by
  have hkids := visitChildren_vetted n.kind n.shape.slotted c
    (fun p hp => hvisit p.2 (Shape.mem_children_of_slotted hp)) hslots
  unfold walkNode
  generalize hout : visitChildren visitChild n.kind n.shape.slotted c = o at hkids
  cases hkids with
  | failed hx =>
    rw [Visit.bind_failed hout]
    exact .failed hx
  | @done cs c1 hnone hcs hc1 =>
    have hstamps : cs.map (·.label.stamp) = n.children.map (·.label.stamp) ↔
        ∀ x ∈ n.seatsBelow, leafChanges g s x.node = false := by
      rw [Labelled.children, Shape.children_eq, List.map_map]
      exact stamps_eq_iff n.kind hcs
    have hchildren : List.Forall₂ (Substituted g s) n.children cs := Shape.forall₂_children.2 hcs
    rw [Visit.bind_done hout]
    by_cases hsame : cs.map (·.label.stamp) = n.children.map (·.label.stamp)
    · -- All children came back as the objects they were, and so does the node.
      rw [if_pos hsame]
      have hkept : cs = n.children := by
        refine eq_of_stamps (forall₂_imp_of_mem hchildren fun k hk m hm => ?_) hsame
        refine or_iff_not_imp_right.2 fun hstamp => ?_
        exact hm.eq_of_same (hn.child hk) (decide_eq_true (not_not.1 hstamp))
      refine .done hnone (.node hinner (hkept ▸ hchildren) ?_ rfl ?_) hc1
      · exact (Shape.withChildren_children n.shape).symm
      · exact iff_of_true (decide_eq_true rfl) (hstamps.1 hsame)
    · -- The node is made anew over its new children, with a stamp that none of them has.
      rw [if_neg hsame]
      have hnew : c1.session.supply.stamp ≠ n.label.stamp := by
        have h1 := hn.stamp
        have h2 := hc1.stamp
        omega
      have hcs : (n.shape.withChildren cs).children = cs :=
        Shape.children_withChildren hchildren.length_eq.symm
      let m : Node := .mk (Node.restamp n.label c1.session.supply.stamp) (n.shape.withChildren cs)
      have hm : m.children = cs := hcs
      refine .done (a := m) hnone (.node hinner ?_ ?_ rfl ?_) (hc1.trans ?_)
      · rwa [hm]
      · rw [hm]
        rfl
      · exact iff_of_false (fun h => hnew (of_decide_eq_true h)) (mt hstamps.2 hsame)
      · exact ⟨rfl, rfl, rfl, rfl, rfl, rfl, rfl, Nat.le_succ _⟩

/-! ### Whole trees -/

/-- A visit ends as the script of the visitor does, if that resumes. -/
theorem visit_vetted {name : String} {script : Script Visitor} {fuel : Nat} {n : Node} {c : Context}
    {seats : List (Seat Label)} {post : Node → Prop}
    (h : (script.run (visit fuel (.plain name script)) n (c.enter n.content)).Vetted g s seats post
      (c.enter n.content)) :
    (visit (fuel + 1) (.plain name script) n c).Vetted g s seats post c := by
  have hvisit : visit (fuel + 1) (.plain name script) n c =
      (Visit.leaving (script.run (visit fuel (.plain name script)) n) >>= fun p =>
        runDeferred (visit fuel) p.2 p.1) (c.enter n.content) := rfl
  rw [hvisit]
  generalize hout : script.run (visit fuel (.plain name script)) n (c.enter n.content) = o at h
  cases h with
  | @failed x c1 hx =>
    have hleaving : Visit.leaving (script.run (visit fuel (.plain name script)) n) (c.enter n.content) =
        .failed (x.refusal g s) c1.leave.2 := by
      rw [Visit.leaving, hout]
    rw [Visit.bind_failed hleaving]
    exact .failed hx
  | @done m c1 hnone hm hc1 =>
    obtain ⟨hleft, hc⟩ := Context.resumes_leave hc1
    have hleaving : Visit.leaving (script.run (visit fuel (.plain name script)) n) (c.enter n.content) =
        .done (m, []) c1.leave.2 := by
      rw [Visit.leaving, hout, ← hleft]
    rw [Visit.bind_done hleaving]
    exact .done hnone hm hc

end Visits

/-- Makes the edits and leaves it at that. -/
def Script.edits (es : List Edit) : Script Visitor := es.foldr .edit .done

theorem Script.run_edits (visitChild : Node → Visit Node) (es : List Edit) :
    ∀ n, (edits es).run visitChild n = Visit.alloc (Edit.applyAll es n) := by
  induction es with
  | nil => exact fun n => rfl
  | cons e es ih =>
    intro n
    show (Visit.alloc (e.apply n) >>= fun m => (edits es).run visitChild m) = _
    simp only [ih]
    rfl

/-- The visitor that makes the edits of `g` at leaves and walks on at all other nodes. -/
def Visitor.onLeaves (name : String) (g : Tree → List Edit) : Visitor :=
  .plain name (.look fun p =>
    if p.current.kind.isLeaf then .edits (g p.current) else .walk p.current.kind .done)

section OnLeaves

variable {name : String} {g : Tree → List Edit} {s : Supply}

theorem visit_onLeaves_vetted (name : String) : ∀ (n : Node) (fuel : Nat) (c : Context), n.slotValid →
    n.Predates s.stamp → s.stamp ≤ c.session.supply.stamp → n.height ≤ fuel →
    (visit fuel (.onLeaves name g) n c).Vetted g s n.seatsBelow (Substituted g s n) c := by
  intro n
  induction n using Labelled.ind with
  | node l shape ih =>
    intro fuel c hvalid hn hs hfuel
    obtain ⟨fuel, rfl⟩ : ∃ k, fuel = k + 1 := by
      rw [Labelled.height_mk] at hfuel
      exact ⟨fuel - 1, by omega⟩
    refine visit_vetted ?_
    show Outcome.Vetted g s _ _ _ (Script.run _ (if _ then _ else _) _ _)
    rw [Context.current_place, Node.kind_content]
    by_cases hleaf : (Labelled.mk l shape).kind.isLeaf = true
    · rw [if_pos hleaf]
      obtain ⟨hkind, hsame⟩ := leafImage_later (g := g) hn hs
      rw [Script.run_edits]
      refine .done ?_ (.leaf hleaf ⟨c.session.supply, hs, rfl⟩ hkind hsame) ?_
      · rw [Labelled.seatsBelow_eq_nil hleaf, List.find?_nil]
      · exact ⟨rfl, rfl, rfl, rfl, rfl, rfl, rfl, (Edit.applyAll_grows _ (hn.mono hs)).1⟩
    · rw [if_neg hleaf]
      have hslots := Labelled.slotValid_iff.1 hvalid
      rw [Script.run_walk_done]
      refine walkNode_vetted (by simpa using hleaf) (fun p hp => (hslots p hp).1) hn hs
        fun k hk c' hc' => ih k hk fuel c' (Labelled.slotValid_of_child hvalid hk) (hn.child hk) ?_ ?_
      · exact Nat.le_trans hs hc'.stamp
      · have := Labelled.height_lt_of_child hk
        omega

/-- **Substitution.** Where every leaf below the root that becomes another object becomes one of a kind
that its slot accepts, the visit gives the tree with all leaves replaced. Otherwise it fails, at the first
leaf in pre-order for which this is not so: the seats are gone through in the order of the descendants. -/
theorem visit_onLeaves {n : Node} {c : Context} {fuel : Nat} (hvalid : n.slotValid)
    (hn : n.Predates c.session.supply.stamp) (hfuel : n.height ≤ fuel) :
    n.seatsBelow.map Seat.node = n.descendants.tail ∧
    ((∀ x ∈ n.seatsBelow, leafChanges g c.session.supply x.node →
        x.slot.accepts (leafImage g c.session.supply x.node).kind) →
      ∃ m c', visit fuel (.onLeaves name g) n c = .done m c' ∧ Substituted g c.session.supply n m) ∧
    ∀ x, n.seatsBelow.find? (·.offends g c.session.supply) = some x →
      ∃ c', visit fuel (.onLeaves name g) n c =
        .failed (.invalidReplacement x.parent x.slot (leafImage g c.session.supply x.node).kind) c' := by
  have hvisit := visit_onLeaves_vetted (g := g) name n fuel c hvalid hn (Nat.le_refl _) hfuel
  refine ⟨n.nodes_seatsBelow, ?_⟩
  generalize visit fuel (.onLeaves name g) n c = o at hvisit
  cases hvisit with
  | @done m c' hnone hm _ =>
    refine ⟨fun _ => ⟨m, c', rfl, hm⟩, fun x hx => ?_⟩
    rw [hnone] at hx
    cases hx
  | @failed x c' hx =>
    refine ⟨fun haccepts => ?_, fun y hy => ⟨c', ?_⟩⟩
    · have hoffends := List.find?_some hx
      simp only [Seat.offends, Bool.and_eq_true, Bool.not_eq_true'] at hoffends
      rw [haccepts x (List.mem_of_find?_eq_some hx) hoffends.1] at hoffends
      cases hoffends.2
    · rw [hx] at hy
      cases hy
      rfl

end OnLeaves

/-- `return a + (1)` -/
def Draft.sum : Draft :=
  .fresh (.returnStmt (some (.fresh (.binary .add (.fresh (.identifier "a"))
    (.fresh (.parenthesized (.fresh (.literal (.int 1)))))))))

/-- The context in which a visit of it starts. -/
def Context.atSum : Context :=
  { source := "sum", cycle := 1, hierarchy := default, session := Draft.sum.placed.2 }

/-- Identifiers get another name. -/
def renamed (t : Tree) : List Edit := if t.kind = .identifier then [.lead " ", .rename "b"] else []

/-- So do they here, and blocks stand for literals. -/
def blockForLiteral (t : Tree) : List Edit :=
  if t.kind = .literal then [.copy, .replace (.block [])] else renamed t

/-- An identifier is a proper operand, but a block is nothing to stand in parentheses. -/
theorem visit_onLeaves_sum :
    (∃ m c', visit 4 (.onLeaves "rename" renamed) Draft.sum.placed.1 .atSum = .done m c' ∧
      Substituted renamed Context.atSum.session.supply Draft.sum.placed.1 m) ∧
    ∃ c', visit 4 (.onLeaves "block" blockForLiteral) Draft.sum.placed.1 .atSum =
      .failed (.invalidReplacement .parenthesized .expression .block) c' := by
  have hvalid : Draft.sum.placed.1.slotValid := by decide +kernel
  have hheight : Draft.sum.placed.1.height ≤ 4 := by decide +kernel
  have hpredates := Draft.sum.placed_predates
  constructor
  · exact (visit_onLeaves (c := .atSum) hvalid hpredates hheight).2.1 (by decide +kernel)
  · exact (visit_onLeaves (g := blockForLiteral) (c := .atSum) hvalid hpredates hheight).2.2
      ⟨.parenthesized, .expression, _⟩ rfl

end Refactor
