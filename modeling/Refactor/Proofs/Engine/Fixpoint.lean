import Refactor.Proofs.Engine.Cycles
import Refactor.Proofs.Recipe.Sharing

/-!
# Recipes that are done after one pass

Of the stock recipes all but the one that moves packages leave alone what they have made
(`rewritten_rewritten`), each for a reason of its own: a field has the visibility, a variable has the
name, an invocation has the marker or the name, and what is left of the parentheses is needed. So
their runs converge in the second cycle at the latest (`run_reaches_fixpoint`).
-/

namespace Refactor

namespace StockRecipe

variable {r : StockRecipe}

theorem rewrite_rewrite (hr : ∀ matcher new, r ≠ changePackage matcher new) (h : Hierarchy)
    {t : Tree} (hvalid : t.slotValid) (hids : t.ids.Nodup) :
    Tree.rewrite (r.change h) (Tree.rewrite (r.change h) t []) [] =
      Tree.rewrite (r.change h) t [] := by
  cases r with
  | changeFieldVisibility v =>
    exact (ChangeFieldVisibility.change_inPlace v).rewrite_rewrite
      (ChangeFieldVisibility.change_of_kinds v) (ChangeFieldVisibility.change_change v) t [] [] rfl
  | renameVariable declaration new => exact RenameVariable.rewrite_rewrite declaration new t hvalid
  | findMethods pattern =>
    exact (FindMethods.change_inPlace _ h pattern).rewrite_rewrite (fun _ _ _ _ => rfl)
      (FindMethods.change_change _ h pattern) t [] [] rfl
  | changeMethodName pattern new =>
    exact (ChangeMethodName.change_inPlace h pattern new).rewrite_rewrite (fun _ _ _ _ => rfl)
      (ChangeMethodName.change_change h pattern new) t [] [] rfl
  | changePackage matcher new => exact absurd rfl (hr matcher new)
  | unwrapParentheses => exact UnwrapParentheses.rewrite_rewrite t hids

/-- **A second pass changes nothing.** -/
theorem rewritten_rewritten (hr : ∀ matcher new, r ≠ changePackage matcher new) (h : Hierarchy)
    {t : Tree} (hvalid : t.slotValid) (hids : t.ids.Nodup) :
    r.rewritten h (r.rewritten h t) = r.rewritten h t := by
  by_cases hgate : r.recipe.applies h t = true
  · have honce : r.rewritten h t = Tree.rewrite (r.change h) t [] := if_pos hgate
    rw [honce, rewritten]
    -- Whether the gate is still open does not matter: there is nothing left behind it.
    split
    · exact rewrite_rewrite hr h hvalid hids
    · rfl
  · have hnone : r.rewritten h t = t := if_neg hgate
    rw [hnone, hnone]

end StockRecipe

namespace Engine

/-- **A fixpoint in one pass.** With room for two cycles and no request to stop, a run of a stock
recipe that does not move packages converges in at most two cycles to what one pass makes of the tree,
and another run on the result comes back with the same object after one cycle. -/
theorem run_reaches_fixpoint (r : StockRecipe)
    (hr : ∀ matcher new, r ≠ StockRecipe.changePackage matcher new) (e : Engine) (n : Node)
    (session : Session) (hvalid : n.slotValid) (hids : n.content.ids.Nodup)
    (hn : n.Predates session.supply.stamp) (hcap : 2 ≤ e.maxCycles)
    (hrunning : session.cancelled = false) :
    ∃ result session', e.run [r.recipe] n session = some (result, session') ∧
      result.termination = .converged ∧ result.cycles ≤ 2 ∧ result.failures = [] ∧
      (∃ m c, runPass (e.fuel n) r.recipe.gatedVisitor n (e.context r.recipe 1 session) = .done m c ∧
        result.tree.content = m.content) ∧
      ∃ again session'', e.run [r.recipe] result.tree session' = some (again, session'') ∧
        again.tree = result.tree ∧ again.cycles = 1 ∧ again.termination = .converged ∧
        again.changedRecipes = [] ∧ again.failures = [] := by
  have htwice : r.rewritten e.hierarchy (r.rewritten e.hierarchy n.content) =
      r.rewritten e.hierarchy n.content :=
    StockRecipe.rewritten_rewritten hr e.hierarchy (by rwa [Node.slotValid_content]) hids
  obtain ⟨result, session', hrun, hfailures, hconverged, hresult⟩ :=
    run_stock r e hvalid hn hrunning hcap
  obtain ⟨hcontent, hready⟩ := hresult htwice
  obtain ⟨hterm, hcycles⟩ := hconverged.2 htwice
  obtain ⟨m, c, hm, -, -, hpass, -⟩ := r.pass_yields e n 1 session hvalid hn
  refine ⟨result, session', hrun, hterm, hcycles, hfailures, ⟨m, c, hm, hcontent.trans hpass.symm⟩, ?_⟩
  -- The second run starts where the first has come to rest.
  have hfixed : r.rewritten e.hierarchy result.tree.content = result.tree.content := by
    rw [hcontent, htwice]
  obtain ⟨again, session'', hrun', htree, hcycles', hterm', hchanged, hfailures', -⟩ :=
    run_of_fixed r e hready.valid hready.made hready.running hfixed
  exact ⟨again, session'', hrun', htree, hcycles', hterm', hchanged, hfailures'⟩

theorem run_unwraps_nested :
    ∃ result session', run {} [UnwrapParentheses.recipe] StockRecipe.nested.placed.1
        StockRecipe.nested.placed.2 = some (result, session') ∧
      result.termination = .converged ∧ result.cycles ≤ 2 ∧ result.failures = [] ∧
      ∃ again session'', run {} [UnwrapParentheses.recipe] result.tree session' =
          some (again, session'') ∧
        again.tree = result.tree ∧ again.cycles = 1 := by
  obtain ⟨result, session', hrun, hterm, hcycles, hfailures, -, again, session'', hrun', htree,
      hcycles', -⟩ := run_reaches_fixpoint .unwrapParentheses (by rintro _ _ ⟨⟩) {}
    StockRecipe.nested.placed.1 StockRecipe.nested.placed.2 (by decide) (by decide)
    StockRecipe.nested.placed_predates (by decide) rfl
  exact ⟨result, session', hrun, hterm, hcycles, hfailures, again, session'', hrun', htree, hcycles'⟩

end Engine

end Refactor
