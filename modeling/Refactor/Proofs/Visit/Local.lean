import Refactor.Proofs.Visit.Traversal

/-!
# Visitors that finish with the node alone

After the walk most visitors do nothing but look at the node and change what it holds. What such a
visitor makes of a tree is `Tree.rewrite` of its content, and objects are kept as far as the content
stays (`visit_edits`).
-/

namespace Refactor

/-- Nothing is left at the node, so settling it is running the rest of the script. -/
theorem settle_of_run {fuel : Nat} {visitChild : Node → Visit Node} {s : Script Visitor} {m : Node}
    {c c' : Context} {t : Tree} {post : Node → Prop} (hc : (c.enter t).Resumes c')
    (h : (s.run visitChild m).Yields c' post) :
    ∃ k c'', settle fuel visitChild s m c' = .done k c'' ∧ c.Resumes c'' ∧
      k.Predates c''.session.supply.stamp ∧ post k := by
  obtain ⟨k, c1, hk, hc1, hkb, hpost⟩ := h
  obtain ⟨hnone, hleave⟩ := Context.resumes_leave (hc.trans hc1)
  refine ⟨k, c1.leave.2, ?_, hleave, hkb, hpost⟩
  have hleaving : Visit.leaving (s.run visitChild m) c' = .done (k, []) c1.leave.2 := by
    unfold Visit.leaving
    rw [hk, ← hnone]
  unfold settle
  rw [Visit.bind_done hleaving]
  rfl

/-- The node `m` holds what `n` does, over other children. -/
def Node.Over (n m : Node) : Prop :=
  ∃ f : Tree → Tree, m.content = .mk n.content.label (n.content.shape.map f)

theorem Node.Over.kind {n m : Node} (h : n.Over m) : m.kind = n.kind := by
  obtain ⟨f, h⟩ := h
  rw [← Node.kind_content, h, Labelled.kind_mk, Shape.kind_map, ← Node.kind_content]
  rfl

/-- The script turns the content of a node that was walked into what `change` says, and makes a new
object only if that is another content. -/
def Script.Changes (σ : Setting) (change : List Tree → Tree → Tree)
    (finish : Place → Script Visitor) : Prop :=
  ∀ (visitChild : Node → Visit Node) (n m : Node) (c c' : Context), c'.In σ →
    (c.enter n.content).Resumes c' → m.Predates c'.session.supply.stamp → n.Over m →
      ((finish ((c.enter n.content).place n)).run visitChild m).Yields c' fun k =>
        k.content = change (n.content :: c.cursor.path) m.content ∧ Node.Edited σ.bound m k

/-- What a rewriting makes of a node is accepted where the node was. -/
theorem Tree.SlotSafe.accepts {change : List Tree → Tree → Tree} (hsafe : Tree.SlotSafe change)
    {n m : Node} {above : List Tree} (hm : m.content = Tree.rewrite change n.content above)
    (hvalid : n.slotValid) {slot : Slot} (hacc : slot.accepts n.kind) : slot.accepts m.kind := by
  rw [← Node.slotValid_content] at hvalid
  rw [← Node.kind_content] at hacc ⊢
  rw [hm]
  exact (Tree.slotValid_rewrite hsafe _ above hvalid).2 slot hacc

/-- **A traversal that changes nodes alone** makes of the content what `Tree.rewrite` does, and keeps
every object whose content stays. -/
theorem visit_edits {name : String} {s : Script Visitor} {finish : Place → Script Visitor}
    {σ : Setting} {change : List Tree → Tree → Tree} {R : Tree → Tree → Prop}
    (hs : s.WalksThen finish) (hfinish : Script.Changes σ change finish)
    (hsafe : Tree.SlotSafe change) (hR : Node.Detects R change) (n : Node) (fuel : Nat)
    (c : Context) (hvalid : n.slotValid) (hn : n.Predates σ.bound) (hfuel : n.height ≤ fuel)
    (hc : c.In σ) :
    (visit fuel (.plain name s) n).Yields c fun m =>
      m.content = Tree.rewrite change n.content c.cursor.path ∧ Node.Shares R σ.bound n m := by
  refine @visit_yields name s finish hs σ 0 (fun above n m =>
    m.content = Tree.rewrite change n.content above ∧ Node.Shares R σ.bound n m)
    ?_ (fun _ _ _ h => h.2.same_or_new) ?_ n fuel c hvalid hn hfuel hc
  · intro above n m hm hvalid slot hacc
    exact hsafe.accepts hm.1 hvalid hacc
  · intro fuel n m cs c c' _ _ _ hc hc' hm hcs hwalked
    let below := fun t => Tree.rewrite change t (n.content :: c.cursor.path)
    have hcontent : m.content = Tree.rewriteBelow change n.content c.cursor.path :=
      hwalked.content (f := below) (hcs.imp fun _ _ h => h.1)
    have hrun := hfinish (visit fuel (.plain name s)) n m c c' ((hc.enter _).resumes hc') hc' hm
      ⟨below, hcontent⟩
    refine settle_of_run hc' (hrun.imp fun k hk => ⟨?_, ?_⟩)
    · rw [hk.1, hcontent, Tree.rewrite_eq]
    · exact hwalked.shares_edited (f := below) hR _ hcs hk.1 hk.2

/-! ### Steps of a script -/

section Steps

variable {visitChild : Node → Visit Node} {c : Context} {m : Node} {post : Node → Prop}

theorem run_done_yields (hm : m.Predates c.session.supply.stamp) (h : post m) :
    ((Script.done : Script Visitor).run visitChild m).Yields c post := Visit.yields_pure hm h

theorem run_look_yields {next : Place → Script Visitor}
    (h : ((next (c.place m)).run visitChild m).Yields c post) :
    ((Script.look next).run visitChild m).Yields c post := h

theorem run_tell_yields {entries : List Entry} {next : Script Visitor}
    (h : (next.run visitChild m).Yields (c.tell entries) post) :
    ((Script.tell entries next).run visitChild m).Yields c post := Visit.yields_tell entries h

/-- An edit that puts another layer over the same children. -/
theorem run_edit_yields {e : Edit} {s : Shape Node} {b : Nat} (he : e.apply m = m.withShape s)
    (hb : b ≤ c.session.supply.stamp) (hm : m.Predates c.session.supply.stamp)
    (hchildren : s.children = m.children) (hne : s.map Node.content ≠ m.content.shape) :
    ((Script.edit e (.done : Script Visitor)).run visitChild m).Yields c fun k =>
      k.content = .mk m.content.label (s.map Node.content) ∧ Node.Edited b m k := by
  have halloc : (Visit.alloc (e.apply m)).Yields c fun k =>
      k.content = .mk m.content.label (s.map Node.content) ∧ Node.Edited b m k := by
    rw [he]
    refine Visit.yields_alloc (Nat.le_succ _) ?_ ⟨?_, Or.inr ⟨hb, rfl, hchildren, ?_⟩⟩
    · refine Node.withShape_predates hm (Nat.le_refl _) ?_
      rw [hchildren]
      exact fun k hk => hm.child hk
    · rw [Node.withShape_run, Node.content_mk, Node.header_restamp, Node.label_content]
    · intro heq
      rw [Node.withShape_run, Node.content_mk] at heq
      exact hne (congrArg Labelled.shape heq)
  exact halloc.bind fun k c' _ hk h => Visit.yields_pure hk h

end Steps

end Refactor
