import Refactor.Proofs.Engine.Run
import Refactor.Proofs.Visit.Upkeep

/-!
# What runs keep up

What the passes of a list of recipes keep up holds of every tree that a run of them comes by, whichever of
the recipes fail (`run_upholds`): a pass that fails leaves the tree as it was.
-/

namespace Refactor

namespace Engine

variable {Q : Tree → Prop} {e : Engine}

/-- The property holds of the tree, and held before and after every pass so far. -/
structure Tended (Q : Tree → Prop) (r : Progress) : Prop where
  tree : Q r.tree.content
  made : r.tree.Predates r.session.supply.stamp
  past : ∀ p ∈ r.history, Q p.input.content ∧ Q p.output.content

/-- **One turn.** If the pass keeps the property up should it succeed, the turn does in any case. -/
theorem Turn.tended {cycle position : Nat} {r : Progress} {recipe : Recipe} {out : Option Progress}
    (hturn : e.Turn cycle r recipe position out) (h : Tended Q r)
    (hpass : ∀ m c, e.attempt recipe cycle r.tree r.session.supply = .done m c →
      Q m.content ∧ m.Predates c.session.supply.stamp) :
    Ends (e.attempt recipe cycle r.tree r.session.supply = .exhausted) (Tended Q) out := by
  cases hturn with
  | skipped => exact h
  | stuck _ _ hstuck => exact hstuck
  | @made r' p _ _ hcycle _ hrecipe hinput houtcome htree hhistory hsupply _ =>
    subst hcycle hrecipe
    have hout : Q p.output.content ∧ p.output.Predates (e.after r.session p).supply.stamp := by
      unfold after Pass.output
      rw [hinput]
      cases hattempt : e.attempt p.recipe p.cycle r.tree r.session.supply with
      | done m c =>
        rw [hattempt] at houtcome
        rw [← Option.some.inj houtcome]
        exact hpass m c hattempt
      | failed error c =>
        rw [hattempt] at houtcome
        rw [← Option.some.inj houtcome]
        -- The tree stays, and the supply has gone on.
        exact ⟨h.tree, h.made.mono (stamp_le_of_attempt (congrArg Outcome.context? hattempt))⟩
      | exhausted =>
        rw [hattempt] at houtcome
        cases houtcome
    refine ⟨by rw [htree]; exact hout.1, by rw [htree, hsupply]; exact hout.2, ?_⟩
    intro q hq
    rw [hhistory, List.mem_append, List.mem_singleton] at hq
    rcases hq with hq | rfl
    · exact h.past q hq
    · exact ⟨by rw [hinput]; exact h.tree, hout.1⟩

/-- **One pass** of a recipe that keeps within bounds. -/
theorem attempt_upholds {E : Edit → Prop} (hQ : Maintains Q E) {recipe : Recipe}
    (hv : recipe.visitor.Within Q E) {cycle : Nat} {tree : Node} {supply : Supply}
    (hmade : tree.Predates supply.stamp) (hholds : Q tree.content) {m : Node} {c : Context}
    (hdone : e.attempt recipe cycle tree supply = .done m c) :
    Q m.content ∧ m.Predates c.session.supply.stamp := by
  have hsound : (e.context recipe cycle { supply }).Sound Q E :=
    ⟨by simp [context], by simp [context], by simp [context]⟩
  have hkept := runPass_upholds hQ _ (hv.guarded recipe.precondition) tree m _ c hsound hmade hholds hdone
  exact ⟨hkept.holds, hkept.made⟩

/-- Whatever the recipes, the tree that a cycle leaves is older than what the supply will give out. -/
theorem runCycle_made {recipes : List Recipe} {cycle : Nat} {r r' : Progress} (hstarted : 1 ≤ cycle)
    (hmax : cycle ≤ max e.maxCycles 1) (hmade : r.tree.Predates r.session.supply.stamp)
    (hcycle : e.runCycle recipes cycle r = some r') : r'.tree.Predates r'.session.supply.stamp := by
  have hstart : Tended (fun _ => True) r := ⟨trivial, hmade, fun _ _ => ⟨trivial, trivial⟩⟩
  have hends : Ends True (Tended fun _ => True) (e.runCycle recipes cycle r) := by
    refine runCycle_ends (I := fun _ _ => Tended fun _ => True) ?_ hstarted hmax hstart
    intro cycle position recipe r _ _ _ h
    exact Ends.imp ((e.runRecipe_turn cycle r recipe position).tended h fun m c hdone =>
      attempt_upholds maintains_true (Visitor.within_any _ recipe.visitor) h.made h.tree hdone)
      (fun _ => trivial) fun _ => id
  rw [hcycle] at hends
  exact hends.made

/-- **Whole runs.** If a run does not end, the tree at which it hangs has the property as well. -/
theorem run_upholds {E : Edit → Prop} (hQ : Maintains Q E) {recipes : List Recipe}
    (hrecipes : ∀ recipe ∈ recipes, recipe.visitor.Within Q E) {n : Node} {session : Session}
    (hn : n.Predates session.supply.stamp) (hholds : Q n.content) :
    Ends (∃ recipe ∈ recipes, ∃ cycle tree supply, Q (Node.content tree) ∧
        e.attempt recipe cycle tree supply = .exhausted)
      (fun (result, _) => Q result.tree.content ∧
        ∀ p ∈ result.history, Q p.input.content ∧ Q p.output.content)
      (e.run recipes n session) := by
  have hstart : Tended Q { tree := n, session } := ⟨hholds, hn, fun p hp => absurd hp List.not_mem_nil⟩
  refine Ends.imp (run_keeps (fun cycle position recipe r hget h => ?_) hstart) id ?_
  · have hmem : recipe ∈ recipes := List.mem_of_getElem? hget
    exact Ends.imp ((e.runRecipe_turn cycle r recipe position).tended h fun m c hdone =>
        attempt_upholds hQ (hrecipes recipe hmem) h.made h.tree hdone)
      (fun hstuck => ⟨recipe, hmem, cycle, r.tree, r.session.supply, h.tree, hstuck⟩) fun _ => id
  · rintro ⟨result, session'⟩ ⟨r, h, htree, hhistory, -⟩
    dsimp only
    rw [htree, hhistory]
    exact ⟨h.tree, h.past⟩

end Engine

end Refactor
