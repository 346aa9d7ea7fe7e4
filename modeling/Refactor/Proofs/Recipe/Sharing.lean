import Refactor.Proofs.Recipe.Stock

/-!
# What a pass shares with the tree it was given

After a pass of a stock recipe each node is looked up by its id in the tree that was given. It is the
object found there exactly if the content of the two is the same (`Keeps.same_object_iff`), with one
exception: what loses several pairs of parentheses on the way may have its white space changed and
changed back.
-/

namespace Refactor

namespace StockRecipe

/-- The parentheses that a pass removed from around the node, if it removes any, have its white
space. -/
def LeadsAlike (r : StockRecipe) (n m i : Node) : Prop :=
  r = unwrapParentheses → UnwrapParentheses.Uniform n m i

namespace Keeps

variable {r : StockRecipe} {b : Nat} {n m : Node} (h : r.Keeps b n m)
include h

/-- Nothing comes in. -/
theorem exists_id {o : Node} (ho : o ∈ m.descendants) : ∃ i ∈ n.descendants, i.label.id = o.label.id := by
  rcases h.shares_or_unwraps with ⟨-, h⟩ | ⟨-, h⟩
  · obtain ⟨i, hi, hsucc⟩ := h.below o ho
    refine ⟨i, hi, ?_⟩
    rcases hsucc with rfl | hnew
    · rfl
    · exact hnew.2.1.symm
  · exact Node.mem_ids.1 (h.ids_sublist.subset (Node.mem_ids.2 ⟨o, ho, rfl⟩))

/-- An object is an old one or new. -/
theorem old_or_new {o : Node} (ho : o ∈ m.descendants) : o ∈ n.descendants ∨ b ≤ o.label.stamp := by
  rcases h.shares_or_unwraps with ⟨-, h⟩ | ⟨-, h⟩
  · obtain ⟨i, hi, rfl | hnew⟩ := h.below o ho
    · exact Or.inl hi
    · exact Or.inr hnew.1
  · exact h.old_or_new o ho

section Lookup

variable (hn : n.Predates b) (hids : n.content.ids.Nodup) {o i : Node} (ho : o ∈ m.descendants)
  (hi : i ∈ n.descendants) (hid : i.label.id = o.label.id)
include hn hids ho hi hid

theorem eq_of_same_object (hsame : o.same i = true) : o = i := by
  have hold : o.label.stamp < b := by
    have hstamp : o.label.stamp = i.label.stamp := by simpa [Node.same] using hsame
    rw [hstamp]
    exact (hn.of_mem hi).stamp
  have hmem : o ∈ n.descendants := (h.old_or_new ho).resolve_right (by omega)
  exact Node.eq_of_id hids hmem hi hid.symm

theorem eq_iff : o = i ↔ Node.content o = Node.content i ∧ r.LeadsAlike n m i := by
  rcases h.shares_or_unwraps with ⟨hr, h⟩ | ⟨rfl, hunwraps⟩
  · constructor
    · rintro rfl
      exact ⟨rfl, fun hr' => absurd hr' hr⟩
    · rintro ⟨hcontent, -⟩
      obtain ⟨j, hj, rfl | ⟨-, hjd, hne⟩⟩ := h.below o ho
      · exact Node.eq_of_id hids hj hi hid.symm
      · obtain rfl := Node.eq_of_id hids hj hi (hjd.symm.trans hid.symm)
        exact absurd hcontent.symm hne
  · rw [hunwraps.same_iff hids hn o ho i hi hid.symm]
    simp [LeadsAlike]

/-- **The same object.** -/
theorem same_object_iff :
    o.same i = true ↔ Node.content o = Node.content i ∧ r.LeadsAlike n m i := by
  rw [← h.eq_iff hn hids ho hi hid]
  constructor
  · exact h.eq_of_same_object hn hids ho hi hid
  · rintro rfl
    simp [Node.same]

end Lookup

end Keeps

/-- **Sharing.** A pass of a stock recipe over a tree with distinct ids succeeds. Each node that comes
back has the id of one node that was given, and is that object exactly if the content of the two is
the same and, where parentheses are removed, those removed from around it have its white space. The
root that comes back is the one that was given exactly if no content has changed. -/
theorem pass_shares (r : StockRecipe) (e : Engine) (n : Node) (cycle : Nat) (session : Session)
    (hvalid : n.slotValid) (hids : n.content.ids.Nodup) (hn : n.Predates session.supply.stamp) :
    ∃ m c, runPass (e.fuel n) r.recipe.gatedVisitor n (e.context r.recipe cycle session) = .done m c ∧
      (∀ o ∈ m.descendants, ∃ i ∈ n.descendants, i.label.id = o.label.id ∧
        (∀ j ∈ n.descendants, j.label.id = o.label.id → j = i) ∧
        (Node.same o i = true ↔ Node.content o = Node.content i ∧ r.LeadsAlike n m i)) ∧
      (m.same n = true ↔ m.content = n.content) := by
  obtain ⟨m, c, hm, -, -, -, hkeeps⟩ := r.pass_yields e n cycle session hvalid hn
  refine ⟨m, c, hm, fun o ho => ?_, hkeeps.same_iff hn⟩
  obtain ⟨i, hi, hid⟩ := hkeeps.exists_id ho
  refine ⟨i, hi, hid, fun j hj hjd => ?_, hkeeps.same_object_iff hn hids ho hi hid⟩
  exact Node.eq_of_id hids hj hi (hjd.trans hid.symm)

/-- A name in two pairs of parentheses, with a blank before the inner pair alone. -/
def nested : Draft :=
  .mk { id := some (.given 1) } (.returnStmt (some
    (.mk { id := some (.given 2) } (.parenthesized
      (.mk { id := some (.given 3), leading := " " } (.parenthesized
        (.mk { id := some (.given 4) } (.identifier "x"))))))))

theorem pass_shares_nested :
    nested.placed.1.slotValid = true ∧ nested.placed.1.content.ids.Nodup ∧
      ∃ m c, runPass (Engine.fuel {} nested.placed.1) UnwrapParentheses.recipe.gatedVisitor
          nested.placed.1 (Engine.context {} UnwrapParentheses.recipe 1 nested.placed.2) = .done m c ∧
        (∀ o ∈ m.descendants, ∃ i ∈ nested.placed.1.descendants, i.label.id = o.label.id ∧
          (Node.same o i = true ↔ Node.content o = Node.content i ∧
            UnwrapParentheses.Uniform nested.placed.1 m i)) ∧
        (m.same nested.placed.1 = true ↔ m.content = nested.placed.1.content) := by
  have hvalid : nested.placed.1.slotValid = true := by decide
  have hids : nested.placed.1.content.ids.Nodup := by decide
  obtain ⟨m, c, hm, hobjects, hroot⟩ := unwrapParentheses.pass_shares {} nested.placed.1 1
    nested.placed.2 hvalid hids nested.placed_predates
  refine ⟨hvalid, hids, m, c, hm, fun o ho => ?_, hroot⟩
  obtain ⟨i, hi, hid, -, hsame⟩ := hobjects o ho
  exact ⟨i, hi, hid, hsame.trans (and_congr_right' ⟨fun h => h rfl, fun h _ => h⟩)⟩

/-- **Equal content need not be the same object.** The name gets the blank of the inner parentheses,
and then loses it to the outer ones. -/
theorem pass_rebuilds_alike :
    ∃ m c, runPass (Engine.fuel {} nested.placed.1) UnwrapParentheses.recipe.gatedVisitor
        nested.placed.1
        (Engine.context {} UnwrapParentheses.recipe 1 nested.placed.2) = .done m c ∧
      ∃ o ∈ m.descendants, ∃ i ∈ nested.placed.1.descendants, o.label.id = i.label.id ∧
        Node.content o = Node.content i ∧ Node.same o i = false := by
  let n := nested.placed.1
  let x : Node := .mk ⟨1, .given 4, "", .empty⟩ (.identifier "x")
  let inner : Node := .mk ⟨2, .given 3, " ", .empty⟩ (.parenthesized x)
  have hinner : inner ∈ n.descendants :=
    List.mem_cons_of_mem _ (List.mem_cons_of_mem _ List.mem_cons_self)
  have hx : x ∈ n.descendants :=
    Labelled.mem_descendants_trans (UnwrapParentheses.Encloses.directly _ x).mem.1 hinner
  obtain ⟨m, c, hm, -, -, hcontent, hkeeps⟩ := unwrapParentheses.pass_yields {} n 1 nested.placed.2
    (by decide) nested.placed_predates
  have hchildren : m.children.map Node.content = [x.content] := by
    rw [← Node.children_content, hcontent]
    rfl
  obtain ⟨o, ho, hox⟩ : ∃ o ∈ m.children, Node.content o = x.content :=
    List.mem_map.1 (hchildren ▸ List.mem_cons_self)
  have hid : x.label.id = o.label.id := by
    have hlabel := congrArg Labelled.label hox
    rw [Node.label_content, Node.label_content] at hlabel
    exact congrArg Header.id hlabel.symm
  have ho := Labelled.mem_descendants_of_child ho
  refine ⟨m, c, hm, o, ho, x, hx, hid.symm, hox, ?_⟩
  refine Bool.eq_false_iff.2 fun hsame => ?_
  -- The inner parentheses are gone, and they had a blank before them.
  have hgone : inner.label.id ∉ m.content.ids := by
    rw [hcontent]
    decide
  have halike := (hkeeps.same_object_iff nested.placed_predates (by decide) ho hx hid).1 hsame
  exact absurd (halike.2 rfl inner hinner (.directly _ x) hgone) (by decide)

end StockRecipe

end Refactor
