import Refactor.Proofs.Engine.Cycles
import Refactor.Proofs.Pattern.Signatures
import Refactor.Proofs.Recipe.Gates
import Refactor.Proofs.Tree.Nodewise

/-!
# What a search for methods reports

A pass of the search puts its marker on each node whose method type the pattern matches, and a second pass finds
them marked. So the markers that a run reports are those of the nodes that match, each once for each place that
the node has in the tree, and the tree without them is the tree that was searched (`run_reports_matching`).
-/

namespace Refactor

/-- A marker with nothing of its source before it is put at the end. -/
theorem Marker.addTo_of_sources {m : Marker} {ms : List Marker} (h : ∀ k ∈ ms, k.source ≠ m.source) :
    m.addTo ms = ms ++ [m] := by
  have hnew : m.isIn ms = false := by
    refine List.any_eq_false.2 fun k hk hsame => h k hk ?_
    rw [same, decide_eq_true_iff] at hsame
    exact (congrArg Marker.source hsame).symm
  rw [addTo, hnew, if_neg Bool.false_ne_true]

/-- The tree without the markers from the source. -/
def Tree.withoutMarkersFrom (source : String) (t : Tree) : Tree :=
  t.mapNodes fun d => .mk { d.label with markers := d.label.markers.filter (·.source ≠ source) } d.shape

/-- No marker in the tree is from the source. -/
def Tree.FreeOf (source : String) (t : Tree) : Prop :=
  ∀ d ∈ t.descendants, ∀ k ∈ d.label.markers, k.source ≠ source

namespace FindMethods

variable {source : String} {h : Hierarchy} {pattern : MethodPattern}

/-- The node has a method type, and the pattern matches it. -/
def finds (h : Hierarchy) (pattern : MethodPattern) (t : Tree) : Bool :=
  t.methodType.any fun m => (pattern.matchesIn h m).value

theorem matchesTree_value (t : Tree) : (pattern.matchesTree h t).value = finds h pattern t := by
  unfold MethodPattern.matchesTree finds
  cases t.methodType <;> rfl

/-- What the visitor makes of a node, wherever it is. -/
def mark (source : String) (h : Hierarchy) (pattern : MethodPattern) (t : Tree) : Tree :=
  if finds h pattern t then t.marked ⟨source, .searchResult (some pattern.text)⟩ else t

theorem change_eq_mark (path : List Tree) (t : Tree) :
    change source h pattern path t = mark source h pattern t := by
  rw [change, matchesTree_value, mark]

theorem nodewise_mark (source : String) (h : Hierarchy) (pattern : MethodPattern) :
    Tree.Nodewise (mark source h pattern) where
  children t := by
    unfold mark
    split <;> rfl
  natural l s r := by
    have hfinds : finds h pattern (.mk l (s.map r)) = finds h pattern (.mk l s) := by
      simp [finds, Labelled.methodType]
    unfold mark
    rw [hfinds]
    split <;> rfl

theorem id_mark (t : Tree) : (mark source h pattern t).label.id = t.label.id := by
  unfold mark
  split <;> rfl

theorem mark_mark (t : Tree) : mark source h pattern (mark source h pattern t) = mark source h pattern t := by
  simp only [← change_eq_mark [], change_change]

/-- **What a pass finds** is marked, with the gate and without it. -/
theorem rewritten_eq_mark (pattern : MethodPattern) (h : Hierarchy) (t : Tree) :
    (StockRecipe.findMethods pattern).rewritten h t = t.mapNodes (mark (recipe pattern).id h pattern) := by
  rw [((StockRecipe.findMethods pattern).rewritten_eq_rewrite_iff h t).2 fun hcond => hcond.2]
  exact Tree.rewrite_eq_mapNodes change_eq_mark t []

/-- What has been found is found again. -/
theorem rewritten_rewritten (pattern : MethodPattern) (h : Hierarchy) (t : Tree) :
    (StockRecipe.findMethods pattern).rewritten h ((StockRecipe.findMethods pattern).rewritten h t) =
      (StockRecipe.findMethods pattern).rewritten h t := by
  rw [rewritten_eq_mark, rewritten_eq_mark, (nodewise_mark _ h pattern).mapNodes_mapNodes]
  simp only [mark_mark]

section Free

variable {t : Tree} (hfree : t.FreeOf source)
include hfree

theorem markers_mark {d : Tree} (hd : d ∈ t.descendants) : (mark source h pattern d).label.markers =
    d.label.markers ++ if finds h pattern d then [⟨source, .searchResult (some pattern.text)⟩] else [] := by
  unfold mark
  split
  · exact Marker.addTo_of_sources (hfree d hd)
  · rw [List.append_nil]

/-- The markers of the search on one node. -/
theorem filter_markers_mark {d : Tree} (hd : d ∈ t.descendants) :
    (mark source h pattern d).label.markers.filter (·.source = source) =
      if finds h pattern d then [⟨source, .searchResult (some pattern.text)⟩] else [] := by
  have hbefore : d.label.markers.filter (·.source = source) = [] := by simpa using hfree d hd
  rw [markers_mark hfree hd, List.filter_append, hbefore]
  split <;> simp

/-- **The markers of the search** are those of the nodes that it finds. -/
theorem collectMarkers_mark :
    (t.mapNodes (mark source h pattern)).collectMarkers.filter (·.2.source = source) =
      (t.descendants.filter (finds h pattern)).map fun d =>
        (d.label.id, ⟨source, .searchResult (some pattern.text)⟩) := by
  calc (t.mapNodes (mark source h pattern)).collectMarkers.filter (·.2.source = source)
      = t.descendants.flatMap fun d =>
          (if finds h pattern d then [⟨source, .searchResult (some pattern.text)⟩] else []).map (d.label.id, ·) := by
        rw [Tree.collectMarkers, (nodewise_mark source h pattern).descendants_mapNodes, List.flatMap_map,
          List.filter_flatMap]
        refine List.flatMap_congr fun d hd => ?_
        rw [(nodewise_mark source h pattern).label_mapNodes, id_mark, List.filter_map]
        exact congrArg _ (filter_markers_mark hfree hd)
    _ = (t.descendants.filter (finds h pattern)).map fun d =>
          (d.label.id, ⟨source, .searchResult (some pattern.text)⟩) := by
        rw [← List.filterMap_eq_filter, List.map_filterMap, List.filterMap_eq_flatMap_toList]
        refine List.flatMap_congr fun d _ => ?_
        cases hd : finds h pattern d <;> simp [hd]

/-- **Nothing but markers is added.** -/
theorem withoutMarkersFrom_mark : (t.mapNodes (mark source h pattern)).withoutMarkersFrom source = t := by
  unfold Tree.withoutMarkersFrom
  rw [(nodewise_mark source h pattern).mapNodes_mapNodes]
  refine Tree.mapNodes_eq_self fun d hd => ?_
  have hmarkers : (mark source h pattern d).label.markers.filter (·.source ≠ source) = d.label.markers := by
    have hbefore : d.label.markers.filter (·.source ≠ source) = d.label.markers := by
      simpa using hfree d hd
    rw [markers_mark hfree hd, List.filter_append, hbefore]
    split <;> simp
  rw [hmarkers, mark]
  split <;> exact Labelled.mk_label_shape d

end Free

/-- **What a search reports.** A run with the one recipe ends, whatever the cap on its cycles, and the markers
that it has left are those of the nodes with a method type that the pattern matches, in pre-order and one for
each place of the node in the tree, with the text of the pattern. Without them the tree is what it was. -/
theorem run_reports_matching {text : String} {pattern : MethodPattern}
    (hcompile : MethodPattern.compile text = .ok pattern) (overrides : Bool) (e : Engine) (n : Node)
    (session : Session) (hvalid : n.slotValid) (hn : n.Predates session.supply.stamp)
    (hrunning : session.cancelled = false)
    (hfree : n.content.FreeOf (recipe (pattern.withOverrides overrides)).id) :
    let r := recipe (pattern.withOverrides overrides)
    ∃ result session', e.run [r] n session = some (result, session') ∧
      result.markersFrom r.id =
        (n.content.descendants.filter (finds e.hierarchy (pattern.withOverrides overrides))).map (fun d =>
          (d.label.id, ⟨r.id, .searchResult (some (String.ofList (Text.trim text.toList)))⟩)) ∧
      result.tree.content.withoutMarkersFrom r.id = n.content := by
  intro r
  have htext : (pattern.withOverrides overrides).text = String.ofList (Text.trim text.toList) :=
    (MethodPattern.text_of_compile hcompile).1
  obtain ⟨result, session', hrun, hcontent⟩ :=
    Engine.run_of_settled (.findMethods (pattern.withOverrides overrides)) e hvalid hn hrunning
      (rewritten_rewritten _ e.hierarchy n.content)
  rw [rewritten_eq_mark] at hcontent
  refine ⟨result, session', hrun, ?_, ?_⟩
  · rw [RunResult.markersFrom, RunResult.markers, hcontent, ← htext]
    exact collectMarkers_mark hfree
  · rw [hcontent]
    exact withoutMarkersFrom_mark hfree

/-- `return get(get());` with one id for both calls, and a marker of someone else's on the inner one. -/
def nestedFinds : Draft :=
  .mk { id := some (.given 1) } (.returnStmt (some
    (.mk { id := some (.given 2) } (.methodInvocation none "get"
      [.mk { id := some (.given 2), markers := [⟨"lint", .searchResult none⟩] }
        (.methodInvocation none "get" [] (some ⟨"a.B", "get", [], none⟩))]
      (some ⟨"a.B", "get", ["int"], none⟩)))))

/-- Both calls are reported, under the id that they share. -/
theorem run_reports_nested :
    let n := nestedFinds.placed.1
    let id := "find-methods:a.B get(..) (overrides)"
    let marker : Marker := ⟨id, .searchResult (some "a.B get(..)")⟩
    ∃ pattern result session', MethodPattern.compile " a.B get(..) " = .ok pattern ∧
      Engine.run {} [recipe (pattern.withOverrides true)] n nestedFinds.placed.2 = some (result, session') ∧
      result.markersFrom id = [(.given 2, marker), (.given 2, marker)] ∧
      result.tree.content.withoutMarkersFrom id = n.content := by
  intro n id marker
  have hclosed : (MethodPattern.compile " a.B get(..) ").toOption.map (fun p =>
      ((recipe (p.withOverrides true)).id,
        (n.content.descendants.filter (finds {} (p.withOverrides true))).map (·.label.id))) =
      some (id, [.given 2, .given 2]) := by
    decide +kernel
  have htrim : String.ofList (Text.trim " a.B get(..) ".toList) = "a.B get(..)" := by decide +kernel
  have hfree : n.content.FreeOf id := by
    unfold Tree.FreeOf
    decide +kernel
  cases hcompile : MethodPattern.compile " a.B get(..) " with
  | error fault =>
    rw [hcompile] at hclosed
    cases hclosed
  | ok pattern =>
    rw [hcompile] at hclosed
    obtain ⟨hid, hids⟩ := Prod.mk.inj (Option.some.inj hclosed)
    obtain ⟨result, session', hrun, hmarkers, hcontent⟩ := run_reports_matching hcompile true {} n
      nestedFinds.placed.2 (by decide) nestedFinds.placed_predates rfl (hid ▸ hfree)
    rw [hid] at hmarkers hcontent
    refine ⟨pattern, result, session', rfl, hrun, ?_, hcontent⟩
    calc result.markersFrom id
        = ((n.content.descendants.filter (finds {} (pattern.withOverrides true))).map (·.label.id)).map
            (·, marker) := by
          rw [hmarkers, htrim, List.map_map]
          rfl
      _ = [(.given 2, marker), (.given 2, marker)] := by
          rw [hids]
          rfl

end FindMethods

end Refactor
