import Refactor.Proofs.Engine.Slots
import Refactor.Proofs.Tree.Sites

/-!
# Stock recipes conserve the nodes

Whatever stock recipes run over a tree, in whatever order and for however many cycles, no node comes in
and none goes but parentheses, and a node keeps its id, its kind and its markers, to which searches for
methods add theirs (`StockRecipe.Conserved`). That is so of the change of one node, hence of a rewriting
(`conserved_rewrite`), of a turn (`conserved_turn`) and of a run (`run_stock_conserves`).
-/

namespace Refactor

/-! ### Markers -/

namespace Marker

theorem same_comm (a b : Marker) : a.same b = b.same a := by
  simp only [same, eq_comm]

/-- No two markers of the list are the same note. -/
def Distinct (ms : List Marker) : Prop := ms.Pairwise fun a b => a.same b = false

theorem distinct_addTo (m : Marker) {ms : List Marker} (h : Distinct ms) : Distinct (m.addTo ms) := by
  unfold addTo
  split
  · exact h
  · next hnew =>
    rw [Distinct, List.pairwise_append]
    refine ⟨h, List.pairwise_singleton _ _, fun a ha b hb => ?_⟩
    obtain rfl := List.mem_singleton.1 hb
    have hnone : b.isIn ms = false := by simpa using hnew
    rw [same_comm]
    simpa using List.any_eq_false.1 hnone a ha

/-- The list goes on with markers that may come in, and there are no two of one note in it unless there
were before. -/
structure Grown (New : Marker → Prop) (ms ms' : List Marker) : Prop where
  added : ∃ more, ms' = ms ++ more ∧ ∀ m ∈ more, New m
  distinct : Distinct ms → Distinct ms'

namespace Grown

variable {New : Marker → Prop} {ms ms' ms'' : List Marker}

theorem refl (ms : List Marker) : Grown New ms ms :=
  ⟨⟨[], (List.append_nil ms).symm, by simp⟩, id⟩

theorem trans (h : Grown New ms ms') (h' : Grown New ms' ms'') : Grown New ms ms'' := by
  obtain ⟨more, hmore, hnew⟩ := h.added
  obtain ⟨more', hmore', hnew'⟩ := h'.added
  refine ⟨⟨more ++ more', by rw [hmore', hmore, List.append_assoc], fun m hm => ?_⟩,
    fun hdistinct => h'.distinct (h.distinct hdistinct)⟩
  rcases List.mem_append.1 hm with hm | hm
  · exact hnew m hm
  · exact hnew' m hm

theorem addTo {m : Marker} (hm : New m) (ms : List Marker) : Grown New ms (m.addTo ms) := by
  refine ⟨?_, distinct_addTo m⟩
  unfold Marker.addTo
  split
  · exact (refl ms).added
  · exact ⟨[m], rfl, by simpa using hm⟩

end Grown

end Marker

/-! ### Labels -/

theorem ChangeFieldVisibility.label_change (v : Visibility) (path : List Tree) (t : Tree) :
    (change v path t).label = t.label := by
  unfold change
  split
  · split <;> rfl
  · rfl

theorem ChangeMethodName.label_change (h : Hierarchy) (pattern : MethodPattern) (newName : String)
    (path : List Tree) (t : Tree) : (change h pattern newName path t).label = t.label := by
  unfold change
  split <;> rfl

theorem ChangePackage.label_change (m : PackageMatcher) (new : String) (path : List Tree) (t : Tree) :
    (change m new path t).label = t.label := by
  unfold change
  split <;> rfl

theorem RenameVariable.label_declare (declaration : NodeId) (new : String) (t : Tree) :
    (declare declaration new t).label = t.label := by
  unfold declare
  split <;> rfl

theorem RenameVariable.label_usesChange (scope : NodeId) (old new : String) (path : List Tree) (t : Tree) :
    (usesChange scope old new path t).label = t.label := by
  rcases usesChange_cases scope old new path t with h | ⟨l, rfl, h⟩ <;> rw [h]
  rfl

namespace StockRecipe

/-! ### The change of a node -/

/-- A marker that one of the recipes leaves: the result of a search, under the id of the recipe and with
the text of its pattern. -/
def Leaves (rs : List StockRecipe) (m : Marker) : Prop :=
  ∃ pattern, findMethods pattern ∈ rs ∧
    m = ⟨(findMethods pattern).recipe.id, .searchResult (some pattern.text)⟩

/-- Parentheses, and one of the recipes removes some. -/
def Removes (rs : List StockRecipe) (s : Site) : Prop :=
  unwrapParentheses ∈ rs ∧ s.kind = .parenthesized

/-- What the recipes may make of a node that stays. -/
structure Retains (rs : List StockRecipe) (a b : Site) : Prop where
  id : b.id = a.id
  kind : b.kind = a.kind
  markers : Marker.Grown (Leaves rs) a.markers b.markers

/-- The nodes of the second tree are those of the first, less some parentheses. -/
def Conserved (rs : List StockRecipe) (t t' : Tree) : Prop :=
  Thinned (Removes rs) (Retains rs) t.sites t'.sites

section Changes

variable {rs : List StockRecipe}

theorem Retains.refl (s : Site) : Retains rs s s := ⟨rfl, rfl, .refl _⟩

theorem Retains.trans (a b c : Site) (h : Retains rs a b) (h' : Retains rs b c) : Retains rs a c :=
  ⟨h'.id.trans h.id, h'.kind.trans h.kind, h.markers.trans h'.markers⟩

theorem Retains.removes (a b : Site) (h : Retains rs a b) (hb : Removes rs b) : Removes rs a :=
  ⟨hb.1, h.kind.symm.trans hb.2⟩

theorem Conserved.refl (t : Tree) : Conserved rs t t := Thinned.refl Retains.refl t.sites

theorem Conserved.trans {t t' t'' : Tree} (h : Conserved rs t t') (h' : Conserved rs t' t'') :
    Conserved rs t t'' :=
  Thinned.trans Retains.trans Retains.removes h h'

/-- From the leaves up. -/
theorem conserved_rewrite {change : List Tree → Tree → Tree}
    (hchange : ∀ path t, Conserved rs t (change path t)) (t : Tree) (above : List Tree) :
    Conserved rs t (Tree.rewrite change t above) :=
  Tree.thinned_rewrite Retains.refl Retains.trans Retains.removes hchange t above

/-- A change of the node alone that leaves its label. -/
theorem conserved_of_label {change : List Tree → Tree → Tree} (hc : Tree.InPlace change)
    (hlabel : ∀ path t, (change path t).label = t.label) (path : List Tree) (t : Tree) :
    Conserved rs t (change path t) := by
  refine hc.thinned_change Retains.refl path t ?_
  rw [hlabel]
  exact .refl _

theorem conserved_mark {pattern : MethodPattern} (hr : findMethods pattern ∈ rs) (h : Hierarchy)
    (path : List Tree) (t : Tree) :
    Conserved rs t (FindMethods.change (findMethods pattern).recipe.id h pattern path t) := by
  refine (FindMethods.change_inPlace _ h pattern).thinned_change Retains.refl path t ⟨rfl, rfl, ?_⟩
  unfold FindMethods.change
  split
  · exact .addTo ⟨pattern, hr, rfl⟩ _
  · exact .refl _

theorem conserved_rename (declaration : NodeId) (new : String) (path : List Tree) (t : Tree) :
    Conserved rs t (RenameVariable.change declaration new path t) := by
  unfold RenameVariable.change
  split
  · exact .refl t
  · split
    · exact conserved_of_label (RenameVariable.declare_inPlace declaration new)
        (fun _ => RenameVariable.label_declare declaration new) [] t
    · exact conserved_rewrite (conserved_of_label (RenameVariable.usesChange_inPlace _ _ _)
        (RenameVariable.label_usesChange _ _ _)) t _

/-- The parentheses go, and the sites of what is in them are no others for the white space. -/
theorem conserved_unwrap (hr : unwrapParentheses ∈ rs) (path : List Tree) (t : Tree) :
    Conserved rs t (UnwrapParentheses.change path t) := by
  by_cases hkind : t.kind = .parenthesized
  · obtain ⟨l, s⟩ := t
    obtain ⟨expr, rfl⟩ := Shape.eq_parenthesized hkind
    rcases UnwrapParentheses.change_parenthesized path l expr with ⟨-, h⟩ | h
    · rw [h]
      exact .refl _
    · have hled : (UnwrapParentheses.led l.leading expr).sites = Tree.sites expr := by
        rw [Tree.sites_eq, Tree.sites_eq expr]
        rfl
      have hsites : Tree.sites (.mk l (.parenthesized expr)) =
          Tree.site (.mk l (.parenthesized expr)) :: Tree.sites expr := by
        rw [Tree.sites_mk]
        simp [Shape.children]
      rw [h, Conserved, hled, hsites]
      exact .go ⟨hr, rfl⟩ (.refl Retains.refl _)
  · rw [UnwrapParentheses.change_of_kind hkind]
    exact .refl t

end Changes

/-- **One node.** -/
theorem conserved_change {rs : List StockRecipe} {r : StockRecipe} (hr : r ∈ rs) (h : Hierarchy)
    (path : List Tree) (t : Tree) : Conserved rs t (r.change h path t) := by
  cases r with
  | changeFieldVisibility v =>
    exact conserved_of_label (ChangeFieldVisibility.change_inPlace v)
      (ChangeFieldVisibility.label_change v) path t
  | renameVariable declaration new => exact conserved_rename declaration new path t
  | findMethods pattern => exact conserved_mark hr h path t
  | changeMethodName pattern new =>
    exact conserved_of_label (ChangeMethodName.change_inPlace h pattern new)
      (ChangeMethodName.label_change h pattern new) path t
  | changePackage matcher new =>
    exact conserved_of_label (ChangePackage.change_inPlace matcher new)
      (ChangePackage.label_change matcher new) path t
  | unwrapParentheses => exact conserved_unwrap hr path t

/-- **One pass.** -/
theorem conserved_rewritten {rs : List StockRecipe} {r : StockRecipe} (hr : r ∈ rs) (h : Hierarchy)
    (t : Tree) : Conserved rs t (r.rewritten h t) := by
  unfold rewritten
  split
  · exact conserved_rewrite (conserved_change hr h) t []
  · exact .refl t

end StockRecipe

/-! ### Runs -/

namespace Engine

open StockRecipe

/-- **One turn** of a stock recipe makes of the tree what a pass does, or leaves it. -/
theorem conserved_turn (e : Engine) {rs : List StockRecipe} {r : StockRecipe} (hr : r ∈ rs)
    (cycle position : Nat) {p : Progress} (h : Faultless p) :
    Ends False (fun p' => Conserved rs p.tree.content p'.tree.content)
      (e.runRecipe cycle p (r.recipe, position)) := by
  have hvalid : p.tree.slotValid = true := p.tree.slotValid_content.symm.trans h.tree
  obtain ⟨m, c, hm, -, -, hcontent, -⟩ :=
    r.pass_yields e p.tree cycle { supply := p.session.supply } hvalid h.made
  have hdone : e.attempt r.recipe cycle p.tree p.session.supply = .done m c := hm
  have hturn := e.runRecipe_turn cycle p r.recipe position
  generalize e.runRecipe cycle p (r.recipe, position) = out at hturn ⊢
  cases hturn with
  | skipped => exact .refl _
  | stuck _ _ hstuck =>
    rw [hdone] at hstuck
    cases hstuck
  | @made p' q _ _ _ _ _ _ houtcome htree _ _ _ =>
    rw [hdone] at houtcome
    have houtput : q.output = m := by rw [Pass.output, ← Option.some.inj houtcome]
    show Conserved rs p.tree.content p'.tree.content
    rw [htree, houtput, hcontent]
    exact conserved_rewritten hr e.hierarchy _

/-- **Stock recipes lose and duplicate nothing.** A run of stock recipes over a slot-valid tree comes to an
end. The nodes of its result are those of the tree in their order, less some parentheses if the list has
the recipe that removes them. Each has the id and the kind it had, and the markers it had, followed by
results of those searches that are in the list. -/
theorem run_stock_conserves (rs : List StockRecipe) (e : Engine) (n : Node) (session : Session)
    (hvalid : n.slotValid) (hn : n.Predates session.supply.stamp) :
    ∃ result session', e.run (rs.map (·.recipe)) n session = some (result, session') ∧
      Conserved rs n.content result.tree.content := by
  have hstart : Faultless { tree := n, session } ∧ Conserved rs n.content n.content :=
    ⟨faultless_start hvalid hn, .refl _⟩
  have hturn : ∀ cycle position recipe p, (rs.map (·.recipe))[position]? = some recipe →
      Faultless p ∧ Conserved rs n.content p.tree.content →
      Ends False (fun p' => Faultless p' ∧ Conserved rs n.content p'.tree.content)
        (e.runRecipe cycle p (recipe, position)) := by
    rintro cycle position recipe p hget ⟨hfaultless, hconserved⟩
    obtain ⟨r, hr, rfl⟩ := List.mem_map.1 (List.mem_of_getElem? hget)
    have hkept := faultless_turn e r cycle position hfaultless
    have hstep := conserved_turn e hr cycle position hfaultless
    generalize e.runRecipe cycle p (r.recipe, position) = out at hkept hstep ⊢
    cases out with
    | none => exact hkept
    | some p' => exact ⟨hkept, hconserved.trans hstep⟩
  have hends := run_keeps (I := fun p => Faultless p ∧ Conserved rs n.content p.tree.content) hturn hstart
  cases hrun : e.run (rs.map (·.recipe)) n session with
  | none =>
    rw [hrun] at hends
    exact hends.elim
  | some out =>
    rw [hrun] at hends
    obtain ⟨p, ⟨-, hconserved⟩, htree, -⟩ := hends
    exact ⟨out.1, out.2, rfl, htree ▸ hconserved⟩

/-- A search for the calls of a method. -/
def seeking : StockRecipe := .findMethods ((MethodPattern.compile "a.B find(..)").toOption.getD default)

/-- A call in two pairs of parentheses, with a marker on it, and a sum in a pair that has to stay. -/
def enclosed : Draft :=
  .mk { id := some (.given 1) } (.block [
    .mk { id := some (.given 2) } (.returnStmt (some
      (.mk { id := some (.given 3) } (.parenthesized
        (.mk { id := some (.given 4) } (.parenthesized
          (.mk { id := some (.given 5), markers := [⟨"old", .searchResult none⟩] }
            (.methodInvocation none "find" [] (some ⟨"a.B", "find", [], none⟩))))))))),
    .mk { id := some (.given 6) } (.unary .neg
      (.mk { id := some (.given 7) } (.parenthesized
        (.mk { id := some (.given 8) } (.binary .add
          (.mk { id := some (.given 9) } (.identifier "x"))
          (.mk { id := some (.given 9) } (.identifier "x")))))))])

/-- The search is in the list twice, and its result is on the call once. -/
theorem run_stock_conserves_enclosed :
    enclosed.placed.1.slotValid = true ∧
      ∃ result session', run {} ([seeking, .unwrapParentheses, seeking].map (·.recipe)) enclosed.placed.1
          enclosed.placed.2 = some (result, session') ∧
        result.tree.content.sites = [⟨.given 1, .block, []⟩, ⟨.given 2, .returnStmt, []⟩,
          ⟨.given 5, .methodInvocation, [⟨"old", .searchResult none⟩,
            ⟨"find-methods:a.B find(..)", .searchResult (some "a.B find(..)")⟩]⟩,
          ⟨.given 6, .unary, []⟩, ⟨.given 7, .parenthesized, []⟩, ⟨.given 8, .binary, []⟩,
          ⟨.given 9, .identifier, []⟩, ⟨.given 9, .identifier, []⟩] ∧
        Conserved [seeking, .unwrapParentheses, seeking] enclosed.placed.1.content result.tree.content := by
  have hvalid : enclosed.placed.1.slotValid = true := by decide
  obtain ⟨result, session', hrun, hconserved⟩ := run_stock_conserves
    [seeking, .unwrapParentheses, seeking] {} _ _ hvalid enclosed.placed_predates
  have hsites := congrArg (Option.map (·.1.tree.content.sites)) hrun
  refine ⟨hvalid, result, session', hrun, ?_, hconserved⟩
  exact Option.some.inj (hsites.symm.trans (by decide +kernel))

end Engine

end Refactor
