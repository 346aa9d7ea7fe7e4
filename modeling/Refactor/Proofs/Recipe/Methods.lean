import Refactor.Proofs.Visit.Edits
import Refactor.Proofs.Visit.Local
import Refactor.Recipe.Methods

/-!
# Finding and renaming methods, on content

A node counts by its method type alone, which neither visitor's own change takes away from it: a
marked node is not marked again, and a renamed one has the new name.
-/

namespace Refactor

/-- Going on one way or the other as the pattern matches. -/
theorem run_ifMatches_yields {pattern : MethodPattern} {p : Place} {yes no : Script Visitor}
    {visitChild : Node → Visit Node} {m : Node} {c : Context} {post : Node → Prop}
    (hyes : (pattern.matchesTree p.hierarchy p.current).value = true →
      ∀ entries, (yes.run visitChild m).Yields (c.tell entries) post)
    (hno : (pattern.matchesTree p.hierarchy p.current).value = false →
      ∀ entries, (no.run visitChild m).Yields (c.tell entries) post) :
    ((Script.ifMatches pattern p yes no).run visitChild m).Yields c post := by
  unfold Script.ifMatches
  refine run_tell_yields ?_
  cases h : (pattern.matchesTree p.hierarchy p.current).value with
  | true => exact hyes h _
  | false => exact hno h _

/-! ### Marking -/

/-- The tree with the marker on its root, unless it is there. -/
def Tree.marked (m : Marker) (t : Tree) : Tree :=
  .mk { t.label with markers := m.addTo t.label.markers } t.shape

theorem run_mark_yields {visitChild : Node → Visit Node} {n : Node} {m : Marker} {c : Context}
    {b : Nat} (hb : b ≤ c.session.supply.stamp) (hn : n.Predates c.session.supply.stamp) :
    ((Script.edit (.mark m) (.done : Script Visitor)).run visitChild n).Yields c fun k =>
      k.content = n.content.marked m ∧ Node.Edited b n k := by
  have halloc : (Visit.alloc (n.mark m)).Yields c fun k =>
      k.content = n.content.marked m ∧ Node.Edited b n k := by
    cases h : m.isIn n.label.markers.entries with
    | true =>
      have hrun := Node.mark_of_isIn h c.session.supply
      refine Visit.yields_alloc ?_ ?_ ?_
      · exact Nat.le_of_eq (by rw [hrun])
      · rw [hrun]; exact hn
      · rw [hrun]
        refine ⟨?_, Or.inl rfl⟩
        conv_lhs => rw [← Labelled.mk_label_shape n.content]
        simp [Tree.marked, Marker.addTo, Label.header, h]
    | false =>
      -- The set of markers is made first and the node after it, which takes two stamps.
      have hrun := Node.mark_of_not_isIn h hn.markers
      refine Visit.yields_alloc ?_ ?_ ?_
      · rw [hrun]; exact Nat.le_add_right _ 2
      · rw [hrun]
        refine .intro ?_ ?_ fun k hk => (hn.child hk).mono (Nat.le_add_right _ 1)
        · simp only [Labelled.label_mk, Node.markedLabel]; omega
        · simp only [Labelled.label_mk, Node.markedLabel]; omega
      · rw [hrun]
        refine ⟨?_, Or.inr ⟨?_, rfl, rfl, ?_⟩⟩
        · simp [Tree.marked, Marker.addTo, Label.header, Node.markedLabel, h]
        · simp only [Labelled.label_mk, Node.markedLabel]; omega
        · intro heq
          have := congrArg (fun t => t.label.markers.length) heq
          simp [Label.header, Node.markedLabel] at this
  exact halloc.bind fun k c' _ hk h => Visit.yields_pure hk h

namespace FindMethods

/-- What the visitor makes of a node. -/
def change (source : String) (h : Hierarchy) (pattern : MethodPattern) (_ : List Tree) (t : Tree) :
    Tree :=
  if (pattern.matchesTree h t).value then t.marked ⟨source, .searchResult (some pattern.text)⟩ else t

/-- What the visitor does at a node that has been walked. -/
def finish (pattern : MethodPattern) (p : Place) : Script Visitor :=
  match p.current.kind with
  | .methodInvocation | .newClass | .methodDecl =>
    .look fun p =>
      .ifMatches pattern p (.edit (.mark ⟨p.source, .searchResult (some pattern.text)⟩) .done) .done
  | _ => .done

theorem visitor_walksThen (pattern : MethodPattern) :
    ∃ name s, visitor pattern = .plain name s ∧ s.WalksThen (finish pattern) := by
  refine ⟨_, _, rfl, walksThen_look_kind fun p visitChild n kind hkind => ?_⟩
  unfold finish
  rw [hkind]
  cases kind <;> rfl

theorem finish_changes (pattern : MethodPattern) (σ : Setting) :
    Script.Changes σ (change σ.source σ.hierarchy pattern) (finish pattern) := by
  intro visitChild n m c c' hc hc' hm hover
  have hstay : (pattern.matchesTree σ.hierarchy m.content).value = false → ∀ c'',
      m.Predates c''.session.supply.stamp →
      ((Script.done : Script Visitor).run visitChild m).Yields c'' fun k =>
        k.content = change σ.source σ.hierarchy pattern (n.content :: c.cursor.path) m.content ∧
          Node.Edited σ.bound m k := by
    intro h c'' hm
    refine run_done_yields hm ⟨?_, Or.inl rfl⟩
    rw [change, h, if_neg (by decide)]
  have hmatch : (((Script.look fun p => Script.ifMatches pattern p
      (.edit (.mark ⟨p.source, .searchResult (some pattern.text)⟩) .done) .done) :
        Script Visitor).run visitChild m).Yields c' fun k =>
        k.content = change σ.source σ.hierarchy pattern (n.content :: c.cursor.path) m.content ∧
          Node.Edited σ.bound m k := by
    have hhier : (c'.place m).hierarchy = σ.hierarchy := hc.hierarchy
    have hsource : (c'.place m).source = σ.source := hc.source
    refine run_look_yields (run_ifMatches_yields ?_ ?_)
    · rw [hhier, hsource, Context.current_place]
      intro h entries
      refine (run_mark_yields (c := c'.tell entries) hc.bound hm).imp ?_
      rintro k ⟨hk, hedited⟩
      refine ⟨?_, hedited⟩
      rw [hk, change, h, if_pos rfl]
    · rw [hhier, Context.current_place]
      exact fun h entries => hstay h _ hm
  unfold finish
  rw [Context.current_place, Node.kind_content, ← hover.kind]
  obtain ⟨l, s⟩ := m
  cases s with
  | methodInvocation | newClass | methodDecl => exact hmatch
  | _ => exact hstay rfl _ hm

theorem change_inPlace (source : String) (h : Hierarchy) (pattern : MethodPattern) :
    Tree.InPlace (change source h pattern) := by
  constructor <;> intro path t <;> unfold change <;> split <;> rfl

theorem change_change (source : String) (h : Hierarchy) (pattern : MethodPattern) (path : List Tree)
    (t : Tree) : change source h pattern path (change source h pattern path t) =
      change source h pattern path t := by
  obtain ⟨l, s⟩ := t
  have hmethod : ∀ l' : Header, pattern.matchesTree h (.mk l' s : Tree) =
      pattern.matchesTree h (.mk l s : Tree) := fun _ => rfl
  cases hmatch : (pattern.matchesTree h (.mk l s : Tree)).value with
  | false => simp [change, hmatch]
  | true =>
    simp only [change, hmatch, if_true, Tree.marked, Labelled.label_mk, Labelled.shape_mk, hmethod]
    congr 2
    generalize hm : (⟨source, .searchResult (some pattern.text)⟩ : Marker) = marker
    have hself : marker.same marker := by simp [Marker.same]
    cases hin : marker.isIn l.markers with
    | true => simp [Marker.addTo, hin]
    | false =>
      have hin' : marker.isIn (l.markers ++ [marker]) := by
        simp [Marker.isIn, hself]
      simp [Marker.addTo, hin, hin']

end FindMethods

/-! ### Renaming -/

namespace ChangeMethodName

/-- What the visitor makes of a node. -/
def change (h : Hierarchy) (pattern : MethodPattern) (newName : String) (_ : List Tree) (t : Tree) :
    Tree :=
  if t.simpleName ≠ some newName ∧ (pattern.matchesTree h t).value then
    .mk t.label (t.shape.renameMethod newName)
  else t

/-- What the visitor does at a node that has been walked. -/
def finish (pattern : MethodPattern) (newName : String) (p : Place) : Script Visitor :=
  match p.current.kind with
  | .methodInvocation | .methodDecl => update pattern newName
  | _ => .done

theorem visitor_walksThen (pattern : MethodPattern) (newName : String) :
    ∃ name s, visitor pattern newName = .plain name s ∧ s.WalksThen (finish pattern newName) := by
  refine ⟨_, _, rfl, walksThen_look_kind fun p visitChild n kind hkind => ?_⟩
  unfold finish
  rw [hkind]
  cases kind <;> rfl

theorem change_of_eq {h : Hierarchy} {pattern : MethodPattern} {newName : String} {path : List Tree}
    {t : Tree} (hname : t.simpleName = some newName) : change h pattern newName path t = t := by
  simp [change, hname]

theorem update_yields (pattern : MethodPattern) (newName : String) {σ : Setting}
    {visitChild : Node → Visit Node} {m : Node} {c : Context} {name : String} {path : List Tree}
    (hc : c.In σ) (hm : m.Predates c.session.supply.stamp) (hname : m.shape.simpleName = some name)
    (hedit : (Edit.renameMethod newName).apply m = m.withShape (m.shape.renameMethod newName))
    (hnew : (m.shape.renameMethod newName).simpleName = some newName) :
    ((update pattern newName).run visitChild m).Yields c fun k =>
      k.content = change σ.hierarchy pattern newName path m.content ∧ Node.Edited σ.bound m k := by
  have hname' : m.content.simpleName = some name := by
    rw [← hname]
    simp [Labelled.simpleName]
  have hhier : (c.place m).hierarchy = σ.hierarchy := hc.hierarchy
  unfold update
  refine run_look_yields ?_
  rw [Context.current_place, hname']
  by_cases heq : name = newName
  · -- The method has the name already, so the pattern is not asked.
    subst heq
    simp only [if_true]
    exact run_done_yields hm ⟨(change_of_eq hname').symm, Or.inl rfl⟩
  · have hne : m.content.simpleName ≠ some newName := by simpa [hname'] using heq
    have hshape : (m.shape.renameMethod newName).map Node.content ≠ m.content.shape := by
      intro h
      have := congrArg Shape.simpleName h
      rw [Shape.simpleName_map, hnew] at this
      exact hne this.symm
    have hchildren : (m.shape.renameMethod newName).children = m.children :=
      Shape.children_congr (by simp)
    simp only [if_neg heq]
    refine run_ifMatches_yields ?_ ?_
    · rw [hhier, Context.current_place]
      intro h entries
      refine run_tell_yields ((run_edit_yields (c := (c.tell entries).tell _) hedit hc.bound hm
        hchildren hshape).imp ?_)
      rintro k ⟨hk, hedited⟩
      refine ⟨?_, hedited⟩
      rw [hk, change, if_pos ⟨hne, h⟩, Shape.map_renameMethod, Node.shape_content]
    · rw [hhier, Context.current_place]
      intro h entries
      refine run_done_yields hm ⟨?_, Or.inl rfl⟩
      rw [change, if_neg (by simp [h])]

theorem finish_changes (pattern : MethodPattern) (newName : String) (σ : Setting) :
    Script.Changes σ (change σ.hierarchy pattern newName) (finish pattern newName) := by
  intro visitChild n m c c' hc hc' hm hover
  -- Away from calls and declarations there is no method name to replace.
  have hstay : m.content.shape.renameMethod newName = m.content.shape →
      ((Script.done : Script Visitor).run visitChild m).Yields c' fun k =>
        k.content = change σ.hierarchy pattern newName (n.content :: c.cursor.path) m.content ∧
          Node.Edited σ.bound m k := by
    intro h
    refine run_done_yields hm ⟨?_, Or.inl rfl⟩
    rw [change, h, Labelled.mk_label_shape, ite_self]
  unfold finish
  rw [Context.current_place, Node.kind_content, ← hover.kind]
  obtain ⟨l, s⟩ := m
  cases s with
  | methodInvocation | methodDecl => exact update_yields pattern newName hc hm rfl rfl rfl
  | _ => exact hstay rfl

theorem change_inPlace (h : Hierarchy) (pattern : MethodPattern) (newName : String) :
    Tree.InPlace (change h pattern newName) := by
  constructor <;> intro path t <;> unfold change <;> split <;> simp [Labelled.kind]

theorem change_change (h : Hierarchy) (pattern : MethodPattern) (newName : String) (path : List Tree)
    (t : Tree) : change h pattern newName path (change h pattern newName path t) =
      change h pattern newName path t := by
  obtain ⟨l, s⟩ := t
  by_cases hcond : (Labelled.mk l s : Tree).simpleName ≠ some newName ∧
      (pattern.matchesTree h (.mk l s : Tree)).value
  · have hchange : change h pattern newName path (.mk l s) = .mk l (s.renameMethod newName) :=
      if_pos hcond
    rw [hchange]
    cases s with
    | methodInvocation | methodDecl => exact change_of_eq rfl
    | _ => exact hchange
  · have hchange : change h pattern newName path (.mk l s) = .mk l s := if_neg hcond
    rw [hchange, hchange]

end ChangeMethodName

end Refactor
