import Refactor.Engine
import Refactor.Proofs.Visit.Draws

/-!
# What runs take from the supply

A run goes on with the supply that each pass leaves, be it one that failed. As passes do, it makes up some
of the ids that are yet to come and does not depend on the others (`run_frugal`).
-/

namespace Refactor

/-- The run under way with another supply. -/
def Progress.resupplied (r : Progress) (s : Supply) : Progress :=
  { r with session := r.session.resupplied s }

namespace Engine

variable {e : Engine} {r r' : Progress}

/-- **One turn.** -/
theorem runRecipe_frugal {cycle : Nat} {item : Recipe × Nat} (h : e.runRecipe cycle r item = some r') :
    r.session.supply.Spares r'.session.supply fun s s' =>
      e.runRecipe cycle (r.resupplied s) item = some (r'.resupplied s') := by
  obtain ⟨recipe, position⟩ := item
  unfold runRecipe at h ⊢
  dsimp only at h ⊢
  by_cases hskip : (r.hasFailed position || decide (recipe.maxCycles < cycle)) = true
  · rw [if_pos hskip] at h
    cases h
    exact .refl fun s => if_pos hskip
  · rw [if_neg hskip] at h
    have hpass := runPass_frugal (e.fuel r.tree) recipe.gatedVisitor r.tree (e.context recipe cycle r.session)
    generalize hout : runPass (e.fuel r.tree) recipe.gatedVisitor r.tree (e.context recipe cycle r.session) = o
      at h hpass
    cases o with
    | done _ c | failed _ c =>
      cases h
      refine (hpass c rfl).imp fun s s' heq => (if_neg hskip).trans ?_
      have hrun : runPass (e.fuel (r.resupplied s).tree) recipe.gatedVisitor (r.resupplied s).tree
          (e.context recipe cycle (r.resupplied s).session) = _ := heq
      rw [hrun]
      rfl
    | exhausted => cases h

/-- **Turn after turn.** -/
theorem turns_frugal (cycle : Nat) (items : List (Recipe × Nat)) : ∀ {r r' : Progress},
    items.foldlM (e.runRecipe cycle) r = some r' →
      r.session.supply.Spares r'.session.supply fun s s' =>
        items.foldlM (e.runRecipe cycle) (r.resupplied s) = some (r'.resupplied s') := by
  induction items with
  | nil =>
    intro r r' h
    cases h
    exact .refl fun s => rfl
  | cons item items ih =>
    intro r r' h
    rw [List.foldlM_cons] at h
    obtain ⟨r1, hfirst, hrest⟩ := Option.bind_eq_some_iff.1 h
    refine ((runRecipe_frugal hfirst).trans (ih hrest)).imp fun s s' ⟨s1, hfirst, hrest⟩ => ?_
    rw [List.foldlM_cons, hfirst]
    exact hrest

/-- **Cycle after cycle.** -/
theorem runCycles_frugal {recipes : List Recipe} {cycles : Nat} {termination : Termination} (left : Nat) :
    ∀ {cycle : Nat} {r r' : Progress}, e.runCycles recipes left cycle r = some (r', cycles, termination) →
      r.session.supply.Spares r'.session.supply fun s s' =>
        e.runCycles recipes left cycle (r.resupplied s) = some (r'.resupplied s', cycles, termination) := by
  induction left with
  | zero =>
    intro cycle r r' h
    cases h
    exact .refl fun s => rfl
  | succ left ih =>
    intro cycle r r' h
    unfold runCycles at h ⊢
    by_cases hstop : (e.stoppable && r.session.cancelled) = true
    · -- The request to stop is no part of the supply.
      rw [if_pos hstop] at h
      cases h
      exact .refl fun s => if_pos hstop
    · rw [if_neg hstop] at h
      obtain ⟨r1, hcycle, hrest⟩ := Option.bind_eq_some_iff.1 h
      have hspares := turns_frugal cycle _ hcycle
      by_cases hchanged : r1.changedIn cycle = true
      · rw [if_pos hchanged] at hrest
        refine (hspares.trans (ih hrest)).imp fun s s' ⟨s1, hcycle, hrest⟩ => (if_neg hstop).trans ?_
        refine Option.bind_eq_some_iff.2 ⟨_, hcycle, (if_pos hchanged).trans hrest⟩
      · rw [if_neg hchanged] at hrest
        cases hrest
        refine hspares.imp fun s s' hcycle => (if_neg hstop).trans ?_
        exact Option.bind_eq_some_iff.2 ⟨_, hcycle, if_neg hchanged⟩

/-- **Runs are frugal.** -/
theorem run_frugal {recipes : List Recipe} {tree : Node} {session session' : Session} {result : RunResult}
    (h : e.run recipes tree session = some (result, session')) :
    session.supply.Spares session'.supply fun s s' =>
      e.run recipes tree (session.resupplied s) = some (result, session'.resupplied s') := by
  obtain ⟨⟨r, cycles, termination⟩, hcycles, hclosing⟩ := Option.bind_eq_some_iff.1 h
  cases hclosing
  refine (runCycles_frugal _ hcycles).imp fun s s' hcycles => ?_
  exact Option.bind_eq_some_iff.2 ⟨_, hcycles, rfl⟩

end Engine

end Refactor
