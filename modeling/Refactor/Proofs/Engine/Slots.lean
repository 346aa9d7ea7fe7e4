import Refactor.Node.Build
import Refactor.Proofs.Engine.Cycles
import Refactor.Proofs.Engine.Upkeep
import Refactor.Proofs.Recipe.Sharing

/-!
# Slot-valid trees stay so

A slot is asked about a child only where the child came back as another object. That is enough: visitors that
put in only slot-valid trees, and append to blocks only what may stand there, make slot-valid trees of
slot-valid trees, of whatever kinds (`careful_keeps_slotValid`). The stock recipes even fit each slot, so that
none of their passes fails (`run_stock_succeeds`).
-/

namespace Refactor

/-- What the edit puts in is slot-valid, and can stand in a block if it is put there. -/
def Edit.isCareful : Edit → Bool
  | .replace d => d.slotValid
  | .append d => d.slotValid && d.kind.isStatement
  | _ => true

/-- All edits of the visitor and of those it leaves for later are careful. -/
def Visitor.Careful (v : Visitor) : Prop := v.Within (·.slotValid = true) (·.isCareful = true)

theorem Labelled.slotValid_block {β : Type} (l : β) (statements : List (Labelled β)) :
    (mk l (.block statements)).slotValid ↔ ∀ c ∈ statements, c.kind.isStatement ∧ c.slotValid := by
  rw [slotValid_iff, shape_mk, Shape.slotted_block, List.forall_mem_map]
  rfl

theorem Edit.Makes.slotValid {n : Node} {s : Supply} {e : Edit} {out : Node × Supply}
    (h : Makes n s e out) (hs : 0 < s.stamp) (he : e.isCareful = true) (hvalid : n.slotValid) :
    out.1.slotValid := by
  cases h with
  | kept => exact hvalid
  | remade _ hslots =>
    rw [Labelled.slotValid_iff, Labelled.shape_mk, hslots]
    exact Labelled.slotValid_iff.1 hvalid
  | hoisted i hc => exact Labelled.slotValid_of_child hvalid hc
  | replaced d => exact Node.slotValid_place d s hs he
  | @appended d statements hblock =>
    obtain ⟨hd, hstatement⟩ := Bool.and_eq_true_iff.1 he
    obtain ⟨l, shape⟩ := n
    obtain rfl : shape = .block statements := hblock
    refine (Labelled.slotValid_block _ _).2 fun c hc => ?_
    rcases List.mem_append.1 hc with hc | hc
    · exact (Labelled.slotValid_block l statements).1 hvalid c hc
    · rw [List.mem_singleton.1 hc, Node.kind_place d s hs]
      exact ⟨hstatement, Node.slotValid_place d s hs hd⟩
  | @shortened statements hblock =>
    obtain ⟨l, shape⟩ := n
    obtain rfl : shape = .block statements := hblock
    refine (Labelled.slotValid_block _ _).2 fun c hc => ?_
    exact (Labelled.slotValid_block l statements).1 hvalid c ((List.dropLast_sublist _).subset hc)

/-- **Slot-validity is kept up** by careful edits, and by the walk since it asks the slots. -/
theorem maintains_slotValid : Maintains (·.slotValid = true) (·.isCareful = true) where
  child n c hc hvalid := by
    rw [Node.slotValid_content] at hvalid ⊢
    exact Labelled.slotValid_of_child hvalid hc
  edit e n s he hn hvalid := by
    rw [Node.slotValid_content] at hvalid ⊢
    have hs : 0 < s.stamp := Nat.zero_lt_of_lt hn.stamp
    exact (e.apply_makes hn).slotValid hs he hvalid
  rebuild n cs s hvalid hcs := by
    rw [Node.slotValid_content] at hvalid ⊢
    rw [Node.withShape_run]
    refine Labelled.slotValid_withChildren _ (forall₂_imp_of_mem hcs ?_)
    rintro p hp c ⟨hc, hfits⟩
    rw [Node.slotValid_content] at hc
    refine ⟨?_, hc⟩
    rcases hfits with rfl | haccepts
    · exact (Labelled.slotValid_iff.1 hvalid p hp).1
    · exact haccepts

namespace Engine

/-- **Slot-validity over passes and runs.** What a pass of a careful visitor makes of a slot-valid tree is
slot-valid, and so is every tree that a run of recipes with such visitors comes by. -/
theorem careful_keeps_slotValid :
    (∀ (fuel : Nat) (v : Visitor) (n m : Node) (c c' : Context), v.Careful →
      (∀ w ∈ c.queued, w.Careful) → n.slotValid → n.Predates c.session.supply.stamp →
      runPass fuel v n c = .done m c' → m.slotValid) ∧
    ∀ (e : Engine) (recipes : List Recipe) (n : Node) (session : Session),
      (∀ recipe ∈ recipes, recipe.visitor.Careful) → n.slotValid →
      n.Predates session.supply.stamp →
      (∀ result session', e.run recipes n session = some (result, session') →
        result.tree.slotValid ∧ ∀ p ∈ result.history, p.input.slotValid ∧ p.output.slotValid) ∧
      (e.run recipes n session = none → ∃ recipe ∈ recipes, ∃ cycle tree supply, tree.slotValid ∧
        e.attempt recipe cycle tree supply = .exhausted) := by
  constructor
  · intro fuel v n m c c' hv hqueued hvalid hn h
    have hsound : c.reset.Sound (·.slotValid = true) (·.isCareful = true) :=
      ⟨by simp [Context.reset], by simp [Context.reset], hqueued⟩
    rw [← Node.slotValid_content] at hvalid ⊢
    -- A pass starts from above the root wherever the context stands.
    exact (runPass_upholds maintains_slotValid fuel hv n m c.reset c' hsound hn hvalid h).holds
  · intro e recipes n session hrecipes hvalid hn
    rw [← Node.slotValid_content] at hvalid
    have hends := run_upholds (e := e) maintains_slotValid hrecipes hn hvalid
    simp only [Node.slotValid_content] at hends
    constructor
    · intro result session' hrun
      rw [hrun] at hends
      exact hends
    · intro hrun
      rw [hrun] at hends
      exact hends

/-- A return statement in place of every literal. -/
def returning : Recipe where
  id := "returning"
  visitor := .plain "returning" (.look fun p =>
    if p.current.kind = .literal then .edit (.replace (.fresh (.returnStmt none))) .done
    else .walk p.current.kind .done)

/-- The operand in place of every unary expression. -/
def operands : Recipe where
  id := "operands"
  visitor := .plain "operands" (.look fun p => .walk p.current.kind
    (if p.current.kind = .unary then .edit (.hoist 0) .done else .done))

/-- A literal and a negated one. -/
def literals : Draft :=
  .block [.fresh (.literal (.bool true)), .fresh (.unary .not (.fresh (.literal (.bool false))))]

/-- A return statement is no operand, so that the first recipe fails. What the second one leaves has
room for them. -/
theorem returns_keep_slotValid :
    ∃ result session', run {} [returning, operands, returning] literals.placed.1 literals.placed.2 =
        some (result, session') ∧
      result.failures.map (·.recipe) = ["returning"] ∧
      result.changedRecipes = ["operands", "returning"] ∧
      result.tree.children.map (·.kind) = [.returnStmt, .returnStmt] ∧
      result.tree.slotValid ∧ ∀ p ∈ result.history, p.input.slotValid ∧ p.output.slotValid := by
  have hcareful : ∀ recipe ∈ [returning, operands, returning], recipe.visitor.Careful := by
    have hreturning : returning.visitor.Careful := by
      refine .plain _ (.look fun p _ => ?_)
      split
      · exact .edit rfl .done
      · exact .walk _ .done
    have hoperands : operands.visitor.Careful := by
      refine .plain _ (.look fun p _ => .walk _ ?_)
      split
      · exact .edit rfl .done
      · exact .done
    simp [hreturning, hoperands]
  have hrun : (run {} [returning, operands, returning] literals.placed.1 literals.placed.2).map
      (fun out => (out.1.failures.map (·.recipe), out.1.changedRecipes,
        out.1.tree.children.map (·.kind))) =
        some (["returning"], ["operands", "returning"], [.returnStmt, .returnStmt]) := by
    decide +kernel
  obtain ⟨⟨result, session'⟩, hrun, hout⟩ := Option.map_eq_some_iff.1 hrun
  have hvalid := careful_keeps_slotValid.2 {} [returning, operands, returning] literals.placed.1
    literals.placed.2 hcareful (by decide) literals.placed_predates
  simp only [Prod.mk.injEq] at hout
  exact ⟨result, session', hrun, hout.1, hout.2.1, hout.2.2, hvalid.1 result session' hrun⟩

/-! ### The stock recipes -/

/-- A pass of a stock recipe over a slot-valid tree succeeds, with another one. -/
theorem attempt_stock (e : Engine) (r : StockRecipe) (cycle : Nat) {tree : Node} {supply : Supply}
    (hvalid : tree.slotValid) (htree : tree.Predates supply.stamp) :
    ∃ m c, e.attempt r.recipe cycle tree supply = .done m c ∧ m.slotValid ∧
      m.Predates c.session.supply.stamp := by
  obtain ⟨m, c, hm, -, hmade, hcontent, -⟩ := r.pass_yields e tree cycle { supply } hvalid htree
  exact ⟨m, c, hm, r.slotValid_of_rewritten hcontent hvalid, hmade⟩

/-- The tree is slot-valid and every pass so far has succeeded. -/
structure Faultless (p : Progress) : Prop extends Tended (·.slotValid = true) p where
  succeeded : ∀ q ∈ p.history, ∃ m, q.outcome = .ok m

theorem faultless_start {n : Node} {session : Session} (hvalid : n.slotValid)
    (hn : n.Predates session.supply.stamp) : Faultless { tree := n, session } where
  tree := n.slotValid_content.trans hvalid
  made := hn
  past _ hp := absurd hp List.not_mem_nil
  succeeded _ hp := absurd hp List.not_mem_nil

theorem faultless_turn (e : Engine) (r : StockRecipe) (cycle position : Nat) {p : Progress}
    (h : Faultless p) : Ends False Faultless (e.runRecipe cycle p (r.recipe, position)) := by
  have hvalid : p.tree.slotValid = true := p.tree.slotValid_content.symm.trans h.tree
  obtain ⟨m, c, hdone, hm, hmade⟩ := attempt_stock e r cycle hvalid h.made
  have hturn := e.runRecipe_turn cycle p r.recipe position
  have htended := hturn.tended h.toTended fun m' c' hdone' => by
    obtain ⟨rfl, rfl⟩ := Outcome.done.inj (hdone.symm.trans hdone')
    exact ⟨m.slotValid_content.trans hm, hmade⟩
  generalize e.runRecipe cycle p (r.recipe, position) = out at hturn htended ⊢
  cases hturn with
  | skipped => exact h
  | stuck _ _ hstuck =>
    rw [hdone] at hstuck
    cases hstuck
  | made q _ _ _ _ _ _ houtcome _ hhistory _ _ =>
    rw [hdone] at houtcome
    refine ⟨htended, fun q' hq' => ?_⟩
    rw [hhistory, List.mem_append, List.mem_singleton] at hq'
    rcases hq' with hq' | rfl
    · exact h.succeeded q' hq'
    · exact ⟨m, (Option.some.inj houtcome).symm⟩

/-- **No pass of a stock recipe fails.** A run of stock recipes over a slot-valid tree comes to an end, and
each of its passes succeeds. -/
theorem run_stock_succeeds (rs : List StockRecipe) (e : Engine) (n : Node) (session : Session)
    (hvalid : n.slotValid) (hn : n.Predates session.supply.stamp) :
    ∃ result session', e.run (rs.map (·.recipe)) n session = some (result, session') ∧
      result.failures = [] ∧ ∀ p ∈ result.history, ∃ m, p.outcome = .ok m := by
  have hstart : Faultless { tree := n, session } := faultless_start hvalid hn
  have hturn : ∀ cycle position recipe r, (rs.map (·.recipe))[position]? = some recipe →
      Faultless r → Ends False Faultless (e.runRecipe cycle r (recipe, position)) := by
    intro cycle position recipe p hget h
    obtain ⟨r, -, rfl⟩ := List.mem_map.1 (List.mem_of_getElem? hget)
    exact faultless_turn e r cycle position h
  have hends := run_keeps hturn hstart
  cases hrun : e.run (rs.map (·.recipe)) n session with
  | none =>
    rw [hrun] at hends
    exact hends.elim
  | some out =>
    rw [hrun] at hends
    obtain ⟨p, hp, -, hhistory, -⟩ := hends
    have hsucceeded : ∀ q ∈ out.1.history, ∃ m, q.outcome = .ok m := hhistory ▸ hp.succeeded
    refine ⟨out.1, out.2, rfl, failures_eq_nil fun q hq => ?_, hsucceeded⟩
    obtain ⟨m, hm⟩ := hsucceeded q hq
    simp [Pass.failed, hm]

theorem run_stock_succeeds_nested :
    StockRecipe.nested.placed.1.slotValid = true ∧
      ∃ result session', run {} ([.unwrapParentheses, .renameVariable (.given 4) "y",
          .unwrapParentheses].map StockRecipe.recipe) StockRecipe.nested.placed.1
          StockRecipe.nested.placed.2 = some (result, session') ∧
        result.failures = [] ∧ ∀ p ∈ result.history, ∃ m, p.outcome = .ok m :=
  ⟨by decide, run_stock_succeeds _ {} _ _ (by decide) StockRecipe.nested.placed_predates⟩

end Engine

end Refactor
