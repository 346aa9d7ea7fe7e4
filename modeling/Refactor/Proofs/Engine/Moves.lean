import Refactor.Proofs.Engine.Cycles
import Refactor.Proofs.Recipe.Gates

/-!
# Moves of packages, cycle by cycle

A pass moves each name that a tree refers to once (`references_rewritten`), and the next pass moves it
again if it is part of the old package still. So a run converges in two cycles exactly if no name is
moved twice (`run_moves_converges_iff`).
-/

namespace Refactor

/-- The full name that a package declaration, an import or a type refers to. -/
def Shape.referenced {α : Type} (s : Shape α) : Option String := s.reference.map (·.2)

@[simp] theorem Shape.referenced_map {α β : Type} (f : α → β) (s : Shape α) :
    (s.map f).referenced = s.referenced := by
  rw [referenced, reference_map, referenced]

/-- The full names that a tree refers to. -/
def Tree.references (t : Tree) : List String := t.descendants.filterMap (·.shape.referenced)

theorem Tree.references_eq (t : Tree) :
    t.references = t.shape.referenced.toList ++ t.children.flatMap Tree.references := by
  obtain ⟨l, s⟩ := t
  unfold Tree.references
  rw [Labelled.descendants_mk, List.filterMap_cons, List.filterMap_flatMap, Labelled.shape_mk]
  cases s.referenced <;> rfl

namespace PackageMatcher

variable {m : PackageMatcher} {new : String}

/-- The name after a pass. -/
def afterPass (m : PackageMatcher) (new name : String) : String := (m.moved new name).getD name

theorem afterPass_eq_self_iff {name : String} :
    m.afterPass new name = name ↔ m.moved new name = none := by
  unfold afterPass
  cases h : m.moved new name with
  | none => simp
  | some name' => simpa using ne_of_moved h

theorem moved_afterPass_iff {name : String} :
    m.moved new (m.afterPass new name) = none ↔ ¬ m.MovedTwice new name := by
  unfold afterPass MovedTwice
  cases h : m.moved new name with
  | none => simp [h]
  | some name' => simp

end PackageMatcher

namespace ChangePackage

variable {m : PackageMatcher} {new : String}

theorem referenced_change (path : List Tree) (t : Tree) :
    (change m new path t).shape.referenced = t.shape.referenced.map (m.afterPass new) := by
  obtain ⟨l, s⟩ := t
  unfold change PackageMatcher.afterPass
  rw [Labelled.shape_mk]
  cases s with
  | package name | importDecl name | typeRef name =>
    rw [Shape.fullName, Option.bind_some]
    cases hmoved : m.moved new name <;>
      simp [Shape.referenced, Shape.reference, Shape.withFullName, hmoved]
  | classDecl => split <;> rfl
  | _ => rfl

theorem references_rewrite (t : Tree) (above : List Tree) :
    (Tree.rewrite (change m new) t above).references = t.references.map (m.afterPass new) := by
  induction t using Labelled.ind generalizing above with
  | node l s ih =>
    have hbelow : (s.children.flatMap fun c =>
          (Tree.rewrite (change m new) c (.mk l s :: above)).references) =
        s.children.flatMap fun c => (Tree.references c).map (m.afterPass new) :=
      List.flatMap_congr fun c hc => ih c hc _
    rw [Tree.references_eq, Tree.rewrite_eq, referenced_change, (change_inPlace m new).children,
      Tree.shape_rewriteBelow, Shape.referenced_map, Tree.children_rewriteBelow, List.flatMap_map,
      Labelled.children_mk, hbelow, Tree.references_eq (.mk l s), List.map_append, List.map_flatMap,
      Labelled.shape_mk]
    cases s.referenced <;> rfl

/-- The gate is open if the tree refers to a part of the package. -/
theorem applies_iff {h : Hierarchy} {t : Tree} :
    (recipe m new).applies h t = true ↔ ∃ name ∈ t.references, m.matchesName name := by
  have happlies : (recipe m new).applies h t = t.descendants.any fun d => m.matchesTree d :=
    (StockRecipe.changePackage m new).applies_eq_any h t
  rw [happlies, List.any_eq_true]
  unfold Tree.references PackageMatcher.matchesTree Shape.referenced
  constructor
  · rintro ⟨d, hd, hmatches⟩
    obtain ⟨reference, href, hmatches⟩ := (Option.any_eq_true _ _).1 hmatches
    exact ⟨reference.2, List.mem_filterMap.2 ⟨d, hd, by rw [href]; rfl⟩, hmatches⟩
  · rintro ⟨name, hname, hmatches⟩
    obtain ⟨d, hd, href⟩ := List.mem_filterMap.1 hname
    obtain ⟨reference, hreference, rfl⟩ := Option.map_eq_some_iff.1 href
    exact ⟨d, hd, (Option.any_eq_true _ _).2 ⟨reference, hreference, hmatches⟩⟩

/-- A pass moves every name once. -/
theorem references_rewritten (h : Hierarchy) (t : Tree) :
    ((StockRecipe.changePackage m new).rewritten h t).references =
      t.references.map (m.afterPass new) := by
  unfold StockRecipe.rewritten
  split
  · exact references_rewrite t []
  · next hclosed =>
    have hstays : ∀ name ∈ t.references, m.afterPass new name = name := by
      intro name hname
      refine PackageMatcher.afterPass_eq_self_iff.2 (Option.not_isSome_iff_eq_none.1 fun hmoved => ?_)
      exact hclosed (applies_iff.2 ⟨name, hname, (PackageMatcher.isSome_moved.1 hmoved).2⟩)
    rw [List.map_congr_left hstays, List.map_id']

/-- A pass that has no name to move leaves the tree as it is. -/
theorem rewritten_eq_self_iff (h : Hierarchy) (t : Tree) :
    (StockRecipe.changePackage m new).rewritten h t = t ↔
      ∀ name ∈ t.references, m.moved new name = none := by
  constructor
  · intro hfixed name hname
    have hmap : t.references.map (m.afterPass new) = t.references.map id := by
      rw [← references_rewritten h t, hfixed, List.map_id]
    exact PackageMatcher.afterPass_eq_self_iff.1 (List.map_inj_left.1 hmap name hname)
  · intro hstays
    unfold StockRecipe.rewritten
    split
    · next hopen =>
      obtain ⟨name, hname, hmatches⟩ := applies_iff.1 hopen
      -- The gate is open and yet nothing moves: the new package is the old one.
      have hnone : ∀ name, m.moved new name = none := by
        intro name'
        refine Option.not_isSome_iff_eq_none.1 fun hmoved => ?_
        have := PackageMatcher.isSome_moved.2 ⟨(PackageMatcher.isSome_moved.1 hmoved).1, hmatches⟩
        rw [hstays name hname] at this
        cases this
      refine Tree.rewrite_eq_self (P := fun _ _ => True) (fun _ _ _ _ _ => trivial) ?_ t [] trivial
      intro above u _
      show change m new (u :: above) u = u
      unfold change
      cases u.shape.fullName <;> simp [hnone]
    · rfl

/-- **A second pass** changes nothing exactly if no name is moved twice. -/
theorem rewritten_rewritten_iff (m : PackageMatcher) (new : String) (h : Hierarchy) (t : Tree) :
    (StockRecipe.changePackage m new).rewritten h ((StockRecipe.changePackage m new).rewritten h t) =
        (StockRecipe.changePackage m new).rewritten h t ↔
      ∀ name ∈ t.references, ¬ m.MovedTwice new name := by
  rw [rewritten_eq_self_iff, references_rewritten, List.forall_mem_map]
  exact forall₂_congr fun name _ => PackageMatcher.moved_afterPass_iff

/-- **When a move of packages is done.** A run with room for two cycles ends without a failure. It
converges in two, and a second pass comes back with the very tree of the first, exactly if no name
that the tree refers to is moved twice; and there are names that are exactly if one of the packages
goes on where the other ends. -/
theorem run_moves_converges_iff (m : PackageMatcher) (new : String) (e : Engine) (n : Node)
    (session : Session) (hvalid : n.slotValid) (hn : n.Predates session.supply.stamp)
    (hcap : 2 ≤ e.maxCycles) (hrunning : session.cancelled = false) :
    (∃ result session', e.run [recipe m new] n session = some (result, session') ∧
      result.failures = [] ∧
      (result.termination = .converged ∧ result.cycles ≤ 2 ↔
        ∀ name ∈ n.content.references, ¬ m.MovedTwice new name)) ∧
    (∃ first c second c',
      runPass (e.fuel n) (recipe m new).gatedVisitor n (e.context (recipe m new) 1 session) =
        .done first c ∧
      runPass (e.fuel first) (recipe m new).gatedVisitor first
        (e.context (recipe m new) 2 c.session) = .done second c' ∧
      (second.same first = true ↔ ∀ name ∈ n.content.references, ¬ m.MovedTwice new name)) ∧
    ((∃ name, m.MovedTwice new name) ↔
      m.policy.GoesOn m.package new ∨ m.policy.GoesOn new m.package) := by
  let r := StockRecipe.changePackage m new
  have htwice := rewritten_rewritten_iff m new e.hierarchy n.content
  refine ⟨?_, ?_, PackageMatcher.exists_movedTwice_iff⟩
  · obtain ⟨result, session', hrun, hfailures, hconverged, -⟩ :=
      Engine.run_stock r e hvalid hn hrunning hcap
    exact ⟨result, session', hrun, hfailures, hconverged.trans htwice⟩
  · obtain ⟨first, c, hfirst, -, hmade, hcontent, -⟩ := r.pass_yields e n 1 session hvalid hn
    have hvalid' : first.slotValid := r.slotValid_of_rewritten hcontent hvalid
    obtain ⟨second, c', hsecond, -, -, hcontent', hkeeps⟩ :=
      r.pass_yields e first 2 c.session hvalid' hmade
    refine ⟨first, c, second, c', hfirst, hsecond, ?_⟩
    rw [hkeeps.same_iff hmade, hcontent', hcontent]
    exact htwice

/-- A file of a package, with nothing in it. -/
def fileOf (package : String) : Draft :=
  .mk { id := some (.given 1) } (.compilationUnit "A"
    (some (.mk { id := some (.given 2) } (.package package))) [] [])

/-- A move to the package around the old one moves some names twice, and this one once. -/
theorem run_moves_out :
    (∃ result session', Engine.run {} [recipe ⟨"a.b", .recursive⟩ "a"] (fileOf "a.b.c").placed.1
        (fileOf "a.b.c").placed.2 = some (result, session') ∧
      result.failures = [] ∧ result.termination = .converged ∧ result.cycles ≤ 2) := by
  have hstays : ∀ name ∈ (fileOf "a.b.c").placed.1.content.references,
      ¬ PackageMatcher.MovedTwice ⟨"a.b", .recursive⟩ "a" name := by decide
  obtain ⟨⟨result, session', hrun, hfailures, hconverged⟩, -⟩ := run_moves_converges_iff
    ⟨"a.b", .recursive⟩ "a" {} (fileOf "a.b.c").placed.1 (fileOf "a.b.c").placed.2
    (by decide) (fileOf "a.b.c").placed_predates (by decide) rfl
  exact ⟨result, session', hrun, hfailures, hconverged.2 hstays⟩

/-- A move into a package below the old one goes on as long as there are cycles. -/
theorem run_moves_on :
    ∃ result session', Engine.run {} [recipe ⟨"a", .recursive⟩ "a.b"] (fileOf "a.c").placed.1
        (fileOf "a.c").placed.2 = some (result, session') ∧
      result.termination = .cycleLimit ∧ result.cycles = 3 ∧
      result.tree.content.references = ["a.b.b.b.c"] := by
  have hrun : (Engine.run {} [recipe ⟨"a", .recursive⟩ "a.b"] (fileOf "a.c").placed.1
      (fileOf "a.c").placed.2).map (fun p => (p.1.termination, p.1.cycles,
        p.1.tree.content.references)) = some (.cycleLimit, 3, ["a.b.b.b.c"]) := by decide +kernel
  obtain ⟨⟨result, session'⟩, hrun, h⟩ := Option.map_eq_some_iff.1 hrun
  simp only [Prod.mk.injEq] at h
  exact ⟨result, session', hrun, h⟩

end ChangePackage

end Refactor
