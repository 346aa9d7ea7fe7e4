import Refactor.Proofs.Recipe.Stock

/-!
# Runs of one stock recipe

Cycle by cycle a run of one recipe applies `StockRecipe.rewritten` to the content of the tree. It ends
in the first cycle that leaves the content as it is, so two cycles are enough exactly if a second pass
changes nothing (`run_stock`), and a tree that a pass leaves alone comes back as it was given
(`run_of_fixed`).
-/

namespace Refactor

namespace Engine

/-- The run can go on with that cycle: the tree is in order, no one has asked for the run to stop, and
all passes so far succeeded in earlier cycles. -/
structure Ready (p : Progress) (next : Nat) : Prop where
  valid : p.tree.slotValid
  made : p.tree.Predates p.session.supply.stamp
  running : p.session.cancelled = false
  past : ∀ q ∈ p.history, q.cycle < next ∧ q.failed = false

theorem Ready.hasFailed {p : Progress} {next : Nat} (h : Ready p next) (position : Nat) :
    p.hasFailed position = false := by
  refine List.any_eq_false.2 fun q hq => ?_
  simp [(h.past q hq).2]

/-- In a cycle that has not begun nothing has changed. -/
theorem Ready.changedIn {p : Progress} {next : Nat} (h : Ready p next) : p.changedIn next = false := by
  refine List.any_eq_false.2 fun q hq => ?_
  have := (h.past q hq).1
  simp only [Bool.and_eq_true, decide_eq_true_eq, not_and]
  omega

variable (r : StockRecipe) (e : Engine)

/-- The pass that the recipe makes in that cycle. -/
def stockPass (cycle : Nat) (input output : Node) : Pass := ⟨cycle, 0, r.recipe, input, .ok output⟩

/-- **One cycle.** -/
theorem runCycle_stock {p : Progress} {next : Nat} (h : Ready p next)
    (hcycle : next ≤ r.recipe.maxCycles) :
    ∃ p', e.runCycle [r.recipe] next p = some p' ∧ Ready p' (next + 1) ∧
      p'.history = p.history ++ [stockPass r next p.tree p'.tree] ∧
      p'.tree.content = r.rewritten e.hierarchy p.tree.content ∧
      r.Keeps p.session.supply.stamp p.tree p'.tree := by
  obtain ⟨m, c, hm, hc, hmade, hcontent, hkeeps⟩ :=
    r.pass_yields e p.tree next p.session h.valid h.made
  let p' := p.record (stockPass r next p.tree m) c
  refine ⟨p', ?_, ⟨?_, hmade, ?_, ?_⟩, rfl, hcontent, hkeeps⟩
  · have hskip : ¬ ((p.hasFailed 0 || decide (r.recipe.maxCycles < next)) = true) := by
      simp [h.hasFailed, hcycle]
    have hrun : e.runRecipe next p (r.recipe, 0) = some p' := by
      unfold runRecipe
      dsimp only
      rw [if_neg hskip, hm]
      rfl
    show (e.runRecipe next p (r.recipe, 0) >>= some) = some p'
    rw [hrun]
    rfl
  · exact r.slotValid_of_rewritten hcontent h.valid
  · exact hc.cancelled.trans h.running
  · intro q hq
    rcases List.mem_append.1 hq with hq | hq
    · exact ⟨Nat.lt_succ_of_lt (h.past q hq).1, (h.past q hq).2⟩
    · obtain rfl := List.mem_singleton.1 hq
      exact ⟨Nat.lt_succ_self _, rfl⟩

/-- Whether a cycle changed anything is whether its pass came back with another root. -/
theorem changedIn_stock {p p' : Progress} {next : Nat} (h : Ready p next)
    (hhistory : p'.history = p.history ++ [stockPass r next p.tree p'.tree]) :
    p'.changedIn next = !p'.tree.same p.tree := by
  have hbefore := h.changedIn
  unfold Progress.changedIn at hbefore ⊢
  rw [hhistory, List.any_append, hbefore]
  simp [stockPass, Pass.changed]

theorem maxCycles_stock : r.recipe.maxCycles = 0xffffffffffffffff := by
  cases r <;> rfl

/-- A cycle that comes after all those the recipe may run in passes it by. -/
theorem runCycle_beyond {p : Progress} {next : Nat} (hcycle : r.recipe.maxCycles < next) :
    e.runCycle [r.recipe] next p = some p := by
  have hrun : e.runRecipe next p (r.recipe, 0) = some p := by
    unfold runRecipe
    dsimp only
    rw [if_pos (by simp [hcycle])]
  show (e.runRecipe next p (r.recipe, 0) >>= some) = some p
  rw [hrun]
  rfl

/-! ### From cycle to cycle -/

theorem runCycles_step {recipes : List Recipe} {left cycle : Nat} {p p' : Progress}
    (hrunning : p.session.cancelled = false) (hcycle : e.runCycle recipes cycle p = some p') :
    e.runCycles recipes (left + 1) cycle p =
      if p'.changedIn cycle then e.runCycles recipes left (cycle + 1) p'
      else some (p', cycle, .converged) := by
  rw [runCycles, hrunning, Bool.and_false, if_neg Bool.false_ne_true, hcycle]
  rfl

/-- Every run comes to an end without a failure, and one that converges does so no earlier than in
the cycle at hand. -/
theorem runCycles_total (left : Nat) : ∀ (cycle : Nat) (p : Progress), Ready p cycle →
    ∃ p' cycles termination, e.runCycles [r.recipe] left cycle p = some (p', cycles, termination) ∧
      (∀ q ∈ p'.history, q.failed = false) ∧ (termination = .converged → cycle ≤ cycles) := by
  induction left with
  | zero =>
    intro cycle p h
    exact ⟨p, cycle - 1, .cycleLimit, rfl, fun q hq => (h.past q hq).2, by rintro ⟨⟩⟩
  | succ left ih =>
    intro cycle p h
    by_cases hcycle : cycle ≤ r.recipe.maxCycles
    · obtain ⟨p1, hp1, h1, -⟩ := runCycle_stock r e h hcycle
      rw [runCycles_step e h.running hp1]
      split
      · obtain ⟨p', cycles, termination, hrun, hfailed, hle⟩ := ih (cycle + 1) p1 h1
        exact ⟨p', cycles, termination, hrun, hfailed, fun ht => Nat.le_of_succ_le (hle ht)⟩
      · exact ⟨p1, cycle, .converged, rfl, fun q hq => (h1.past q hq).2, fun _ => Nat.le_refl _⟩
    · rw [runCycles_step e h.running (runCycle_beyond r e (by omega)), h.changedIn]
      exact ⟨p, cycle, .converged, rfl, fun q hq => (h.past q hq).2, fun _ => Nat.le_refl _⟩

/-- A tree that a pass leaves as it is ends the run. -/
theorem runCycles_of_fixed (left : Nat) {cycle : Nat} {p : Progress} (h : Ready p cycle)
    (hcycle : cycle ≤ r.recipe.maxCycles)
    (hfixed : r.rewritten e.hierarchy p.tree.content = p.tree.content) :
    ∃ p', e.runCycles [r.recipe] (left + 1) cycle p = some (p', cycle, .converged) ∧
      p'.tree = p.tree ∧ Ready p' (cycle + 1) ∧
      p'.history = p.history ++ [stockPass r cycle p.tree p.tree] := by
  obtain ⟨p', hp', h', hhistory, hcontent, hkeeps⟩ := runCycle_stock r e h hcycle
  have htree : p'.tree = p.tree := hkeeps.eq_of_content (hcontent.trans hfixed)
  have hchanged : p'.changedIn cycle = false := by
    rw [changedIn_stock r h hhistory, htree]
    simp [Node.same]
  refine ⟨p', ?_, htree, h', by rw [hhistory, htree]⟩
  rw [runCycles_step e h.running hp', hchanged]
  rfl

/-- A tree that a pass changes is handed on to the next cycle. -/
theorem runCycles_of_changed (left : Nat) {cycle : Nat} {p : Progress} (h : Ready p cycle)
    (hcycle : cycle ≤ r.recipe.maxCycles)
    (hchanged : r.rewritten e.hierarchy p.tree.content ≠ p.tree.content) :
    ∃ p', e.runCycles [r.recipe] (left + 1) cycle p = e.runCycles [r.recipe] left (cycle + 1) p' ∧
      p'.tree.content = r.rewritten e.hierarchy p.tree.content ∧ Ready p' (cycle + 1) := by
  obtain ⟨p', hp', h', hhistory, hcontent, hkeeps⟩ := runCycle_stock r e h hcycle
  refine ⟨p', ?_, hcontent, h'⟩
  have hsame : ¬ p'.tree.same p.tree = true := fun hsame =>
    hchanged (hcontent.symm.trans ((hkeeps.same_iff h.made).1 hsame))
  rw [runCycles_step e h.running hp', changedIn_stock r h hhistory, if_pos (by simpa using hsame)]

/-! ### Whole runs -/

theorem failures_eq_nil {result : RunResult} (h : ∀ q ∈ result.history, q.failed = false) :
    result.failures = [] := by
  refine List.filterMap_eq_nil_iff.2 fun q hq => ?_
  have := h q hq
  unfold Pass.failed at this
  cases hout : q.outcome with
  | ok => rfl
  | error => rw [hout] at this; cases this

/-- The start of a run. -/
theorem ready_start {n : Node} {session : Session} (hvalid : n.slotValid)
    (hn : n.Predates session.supply.stamp) (hrunning : session.cancelled = false) :
    Ready { tree := n, session := session } 1 :=
  ⟨hvalid, hn, hrunning, fun _ hq => absurd hq List.not_mem_nil⟩

theorem run_eq {recipes : List Recipe} {n : Node} {session : Session} {p : Progress} {cycles : Nat}
    {termination : Termination}
    (h : e.runCycles recipes (max e.maxCycles 1) 1 { tree := n, session := session } =
      some (p, cycles, termination)) :
    e.run recipes n session = some (⟨p.tree, p.history, cycles, termination⟩,
      p.session.tell (closing termination cycles)) := by
  unfold run
  rw [h]
  rfl

/-- **A tree that a pass leaves as it is** comes back as the object it was, after one cycle. -/
theorem run_of_fixed {n : Node} {session : Session} (hvalid : n.slotValid)
    (hn : n.Predates session.supply.stamp) (hrunning : session.cancelled = false)
    (hfixed : r.rewritten e.hierarchy n.content = n.content) :
    ∃ result session', e.run [r.recipe] n session = some (result, session') ∧ result.tree = n ∧
      result.cycles = 1 ∧ result.termination = .converged ∧ result.changedRecipes = [] ∧
      result.failures = [] ∧ Ready ⟨n, [], session'⟩ 1 := by
  obtain ⟨left, hleft⟩ : ∃ left, max e.maxCycles 1 = left + 1 := ⟨max e.maxCycles 1 - 1, by omega⟩
  have hmax : 1 ≤ r.recipe.maxCycles := by
    rw [maxCycles_stock]
    omega
  obtain ⟨p, hrun, htree, hready, hhistory⟩ :=
    runCycles_of_fixed r e left (ready_start hvalid hn hrunning) hmax hfixed
  rw [← hleft] at hrun
  refine ⟨_, _, run_eq e hrun, htree, rfl, rfl, ?_, failures_eq_nil fun q hq => (hready.past q hq).2,
    ⟨hvalid, htree ▸ hready.made, hready.running, fun q hq => absurd hq List.not_mem_nil⟩⟩
  have hunchanged : p.history.filter (·.changed) = [] := by
    rw [hhistory]
    simp [stockPass, Pass.changed, Node.same]
  simp [RunResult.changedRecipes, RunResult.changedPositions, hunchanged]

/-- **When two cycles are enough.** With room for two cycles a run of a stock recipe ends without a
failure, and it has converged by then exactly if a second pass changes nothing. -/
theorem run_stock {n : Node} {session : Session} (hvalid : n.slotValid)
    (hn : n.Predates session.supply.stamp) (hrunning : session.cancelled = false)
    (hcap : 2 ≤ e.maxCycles) :
    ∃ result session', e.run [r.recipe] n session = some (result, session') ∧ result.failures = [] ∧
      (result.termination = .converged ∧ result.cycles ≤ 2 ↔
        r.rewritten e.hierarchy (r.rewritten e.hierarchy n.content) =
          r.rewritten e.hierarchy n.content) ∧
      (r.rewritten e.hierarchy (r.rewritten e.hierarchy n.content) =
          r.rewritten e.hierarchy n.content →
        result.tree.content = r.rewritten e.hierarchy n.content ∧ Ready ⟨result.tree, [], session'⟩ 1) := by
  by_cases hfixed : r.rewritten e.hierarchy n.content = n.content
  · -- The first cycle changes nothing and is the last.
    obtain ⟨result, session', hrun, htree, hcycles, hterm, -, hfail, hready⟩ :=
      run_of_fixed r e hvalid hn hrunning hfixed
    refine ⟨result, session', hrun, hfail, ?_, fun _ => ⟨by rw [htree, hfixed], htree ▸ hready⟩⟩
    rw [hfixed, hfixed, hcycles, hterm]
    simp
  · obtain ⟨left, hleft⟩ : ∃ left, max e.maxCycles 1 = left + 1 + 1 :=
      ⟨max e.maxCycles 1 - 2, by omega⟩
    have hmax : 2 ≤ r.recipe.maxCycles := by
      rw [maxCycles_stock]
      omega
    obtain ⟨p1, hrun1, hcontent1, hready1⟩ := runCycles_of_changed r e (left + 1)
      (ready_start hvalid hn hrunning) (by omega) hfixed
    by_cases hfixed1 : r.rewritten e.hierarchy (r.rewritten e.hierarchy n.content) =
        r.rewritten e.hierarchy n.content
    · -- The second cycle changes nothing.
      obtain ⟨p2, hrun2, htree2, hready2, -⟩ := runCycles_of_fixed r e left hready1 hmax
        (by rw [hcontent1]; exact hfixed1)
      have hrun := (hleft ▸ hrun1).trans hrun2
      refine ⟨_, _, run_eq e hrun, failures_eq_nil fun q hq => (hready2.past q hq).2, ?_, fun _ => ?_⟩
      · simp [hfixed1]
      · refine ⟨by rw [htree2, hcontent1], hready2.valid, hready2.made, hready2.running, ?_⟩
        exact fun _ hq => absurd hq List.not_mem_nil
    · -- The second cycle changes something, so it takes a third at least to converge.
      obtain ⟨p2, hrun2, -, hready2⟩ := runCycles_of_changed r e left hready1 hmax
        (by rw [hcontent1]; exact hfixed1)
      obtain ⟨p3, cycles, termination, hrun3, hfailed, hle⟩ := runCycles_total r e left 3 p2 hready2
      have hrun := ((hleft ▸ hrun1).trans hrun2).trans hrun3
      refine ⟨_, _, run_eq e hrun, failures_eq_nil hfailed, ?_, fun h => absurd h hfixed1⟩
      refine ⟨fun ⟨hterm, hcycles⟩ => ?_, fun h => absurd h hfixed1⟩
      have := hle hterm
      simp only at hcycles
      omega

/-- **A recipe that is done after one pass.** Whatever the cap, the run ends with what the pass makes. -/
theorem run_of_settled {n : Node} {session : Session} (hvalid : n.slotValid)
    (hn : n.Predates session.supply.stamp) (hrunning : session.cancelled = false)
    (hsettled : r.rewritten e.hierarchy (r.rewritten e.hierarchy n.content) =
      r.rewritten e.hierarchy n.content) :
    ∃ result session', e.run [r.recipe] n session = some (result, session') ∧
      result.tree.content = r.rewritten e.hierarchy n.content := by
  by_cases hfixed : r.rewritten e.hierarchy n.content = n.content
  · obtain ⟨result, session', hrun, htree, -⟩ := run_of_fixed r e hvalid hn hrunning hfixed
    exact ⟨result, session', hrun, by rw [htree, hfixed]⟩
  · obtain ⟨left, hleft⟩ : ∃ left, max e.maxCycles 1 = left + 1 := ⟨max e.maxCycles 1 - 1, by omega⟩
    have hmax : 2 ≤ r.recipe.maxCycles := by
      rw [maxCycles_stock]
      omega
    obtain ⟨p, hrun, hcontent, hready⟩ := runCycles_of_changed r e left
      (ready_start hvalid hn hrunning) (by omega) hfixed
    rw [← hleft] at hrun
    cases left with
    -- The limit of one cycle comes before the tree is known to be settled.
    | zero => exact ⟨_, _, run_eq e hrun, hcontent⟩
    | succ left =>
      obtain ⟨p', hrun', htree, -⟩ := runCycles_of_fixed r e left hready hmax
        (by rw [hcontent]; exact hsettled)
      exact ⟨_, _, run_eq e (hrun.trans hrun'), (congrArg Node.content htree).trans hcontent⟩

end Engine

end Refactor
