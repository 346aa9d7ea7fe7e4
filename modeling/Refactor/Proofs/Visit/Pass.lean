import Refactor.Proofs.Visit.Frame
import Refactor.Recipe.Basic

/-!
# One pass over a tree

A pass is a visit behind a gate, with nothing left to be done for the whole tree. What the visit
yields where the gate is open the pass yields, and where it is closed the pass keeps the tree.
-/

namespace Refactor

theorem drainQueue_of_empty {fuel rounds : Nat} {n : Node} {c : Context} (h : c.queued = []) :
    drainQueue fuel rounds n c = .done n c := by
  cases rounds with
  | zero =>
    show (if c.queued.isEmpty then pure n else Visit.exhausted : Visit Node) c = _
    rw [h]
    rfl
  | succ rounds =>
    unfold drainQueue
    rw [Visit.bind_done (rfl : Visit.get c = .done c c), h]
    rfl

theorem runPass_yields {fuel : Nat} {v : Visitor} {n : Node} {c : Context} {post : Node → Prop}
    (hstart : c.reset = c) (hqueue : c.queued = []) (h : (visit fuel v n).Yields c post) :
    (runPass fuel v n).Yields c post := by
  obtain ⟨m, c', hm, hc', hbound, hpost⟩ := h
  refine ⟨m, c', ?_, hc', hbound, hpost⟩
  unfold runPass
  rw [Visit.bind_done (rfl : Visit.modify _ c = .done () c.reset), hstart, Visit.bind_done hm]
  exact drainQueue_of_empty (hc'.queued.trans hqueue)

theorem visit_gated_yields {fuel : Nat} {condition : Precondition} {inner : Visitor} {n : Node}
    {c : Context} {post : Node → Prop} (hn : n.Predates c.session.supply.stamp)
    (hopen : (condition.evaluate c.hierarchy n.content).value = true →
      ∀ c', c.Resumes c' → (visit fuel inner n).Yields c' post)
    (hclosed : (condition.evaluate c.hierarchy n.content).value = false → post n) :
    (visit (fuel + 1) (.gated condition inner) n).Yields c post := by
  let answer := condition.evaluate c.hierarchy n.content
  have hresumes := Context.resumes_tell c answer.entries
  cases h : answer.value with
  | true =>
    obtain ⟨m, c', hm, hc', hbound, hpost⟩ := hopen h _ hresumes
    refine ⟨m, c', ?_, hresumes.trans hc', hbound, hpost⟩
    show (if answer.value = true then visit fuel inner n else _) (c.tell answer.entries) = _
    rw [if_pos h, hm]
  | false =>
    let closed : Entry := .event (.gateClosed inner.name condition.text)
    refine ⟨n, (c.tell answer.entries).tell [closed], ?_,
      hresumes.trans (Context.resumes_tell _ _), hn, hclosed h⟩
    show (if answer.value = true then visit fuel inner n else _) (c.tell answer.entries) = _
    rw [if_neg (by simp [h])]
    rfl

/-- The condition of the recipe holds of the tree. -/
def Recipe.applies (r : Recipe) (h : Hierarchy) (t : Tree) : Bool := (r.precondition.evaluate h t).value

/-- A pass of a recipe that is behind a gate. -/
theorem pass_gated_yields {fuel : Nat} {r : Recipe} {n : Node} {c : Context} {post : Node → Prop}
    (hgated : r.gatedVisitor = .gated r.precondition r.visitor) (hstart : c.reset = c)
    (hqueue : c.queued = []) (hn : n.Predates c.session.supply.stamp)
    (hopen : r.applies c.hierarchy n.content = true →
      ∀ c', c.Resumes c' → (visit fuel r.visitor n).Yields c' post)
    (hclosed : r.applies c.hierarchy n.content = false → post n) :
    (runPass (fuel + 1) r.gatedVisitor n).Yields c post := by
  rw [hgated]
  exact runPass_yields hstart hqueue (visit_gated_yields hn hopen hclosed)

end Refactor
