import Refactor.Engine
import Refactor.Proofs.Visit.Blind
import Refactor.Proofs.Visit.Draws

/-!
# The turns of a run

A run is made of turns: in each cycle every recipe has one, in the order of the list. What comes of a
turn is said once (`runRecipe_turn`), and what holds at the start and is kept by every turn holds at the
end of the run (`run_ends`).
-/

namespace Refactor

/-- What a computation came to, nothing if the fuel ran out. -/
def Outcome.result? {α : Type} : Outcome α → Option (Except VisitError α)
  | .done a _ => some (.ok a)
  | .failed e _ => some (.error e)
  | .exhausted => none

namespace Engine

/-- A pass of the recipe over the tree, in a session with that supply and nothing else. -/
def attempt (e : Engine) (r : Recipe) (cycle : Nat) (tree : Node) (supply : Supply) : Outcome Node :=
  runPass (e.fuel tree) r.gatedVisitor tree (e.context r cycle { supply })

/-- The session after a pass, its journal aside. A pass that failed has taken from the supply as well, and
a request to stop stands. -/
def after (e : Engine) (s : Session) (p : Pass) : Session :=
  match e.attempt p.recipe p.cycle p.input s.supply with
  | .done _ c | .failed _ c =>
    { s with supply := c.session.supply, cancelled := s.cancelled || c.session.cancelled }
  | .exhausted => s

/-- Whatever the session holds, a pass in it comes to what `attempt` comes to. -/
theorem runPass_attempt (e : Engine) (r : Recipe) (cycle : Nat) (tree : Node) (session : Session) :
    Outcome.Alike session.cancelled (e.attempt r cycle tree session.supply)
      (runPass (e.fuel tree) r.gatedVisitor tree (e.context r cycle session)) := by
  refine runPass_blind _ _ _ _ _ _ ⟨rfl, rfl, rfl, rfl, rfl, rfl, rfl, rfl, ?_⟩
  show session.cancelled = (session.cancelled || false)
  rw [Bool.or_false]

/-- However a pass ends, it has not put stamps back. -/
theorem stamp_le_of_attempt {e : Engine} {r : Recipe} {cycle : Nat} {tree : Node} {supply : Supply}
    {c : Context} (h : (e.attempt r cycle tree supply).context? = some c) :
    supply.stamp ≤ c.session.supply.stamp :=
  (runPass_frugal _ _ _ _ _ h).stamp

/-! ### One turn -/

/-- What comes of the turn of a recipe. -/
inductive Turn (e : Engine) (cycle : Nat) (r : Progress) (recipe : Recipe) (position : Nat) :
    Option Progress → Prop
  /-- The recipe has failed before or has had its cycles. -/
  | skipped : r.hasFailed position = true ∨ recipe.maxCycles < cycle →
      Turn e cycle r recipe position (some r)
  /-- The recipe makes a pass over the tree as it is. -/
  | made {r' : Progress} (p : Pass) : r.hasFailed position = false → cycle ≤ recipe.maxCycles →
      p.cycle = cycle → p.position = position → p.recipe = recipe → p.input = r.tree →
      (e.attempt recipe cycle r.tree r.session.supply).result? = some p.outcome →
      r'.tree = p.output → r'.history = r.history ++ [p] →
      r'.session.supply = (e.after r.session p).supply →
      r'.session.cancelled = (e.after r.session p).cancelled →
      Turn e cycle r recipe position (some r')
  /-- The pass does not end within the fuel. -/
  | stuck : r.hasFailed position = false → cycle ≤ recipe.maxCycles →
      e.attempt recipe cycle r.tree r.session.supply = .exhausted →
      Turn e cycle r recipe position none

/-- **One turn.** -/
theorem runRecipe_turn (e : Engine) (cycle : Nat) (r : Progress) (recipe : Recipe) (position : Nat) :
    e.Turn cycle r recipe position (e.runRecipe cycle r (recipe, position)) := by
  unfold runRecipe
  dsimp only
  by_cases hskip : (r.hasFailed position || decide (recipe.maxCycles < cycle)) = true
  · rw [if_pos hskip]
    exact .skipped (by simpa using hskip)
  · rw [if_neg hskip]
    simp only [Bool.or_eq_true, decide_eq_true_eq, not_or, Bool.not_eq_true, Nat.not_lt] at hskip
    obtain ⟨hfailed, hcycles⟩ := hskip
    -- The pass does not see what else the session holds.
    have hpass := e.runPass_attempt recipe cycle r.tree r.session
    generalize hattempt : e.attempt recipe cycle r.tree r.session.supply = o at hpass
    generalize runPass (e.fuel r.tree) recipe.gatedVisitor r.tree (e.context recipe cycle r.session) = o'
      at hpass
    cases hpass with
    | @done n c c' h =>
      refine .made ⟨cycle, position, recipe, r.tree, .ok n⟩ hfailed hcycles rfl rfl rfl rfl ?_ rfl rfl ?_ ?_
      · rw [hattempt]
        rfl
      · simp only [after, hattempt]
        exact h.supply
      · simp only [after, hattempt]
        exact h.cancelled
    | @failed error c c' h =>
      refine .made ⟨cycle, position, recipe, r.tree, .error error⟩ hfailed hcycles rfl rfl rfl rfl ?_ rfl
        rfl ?_ ?_
      · rw [hattempt]
        rfl
      · simp only [after, hattempt]
        exact h.supply
      · simp only [after, hattempt]
        exact h.cancelled
    | exhausted => exact .stuck hfailed hcycles hattempt

/-! ### From turn to turn -/

/-- What has come about is as `P` says, and if nothing has, there is the reason `F`. -/
def Ends {α : Type} (F : Prop) (P : α → Prop) : Option α → Prop
  | some a => P a
  | none => F

section Ends

variable {α β : Type} {F F' : Prop} {P P' : α → Prop} {x : Option α}

theorem Ends.imp (h : Ends F P x) (hF : F → F') (hP : ∀ a, P a → P' a) : Ends F' P' x := by
  cases x with
  | none => exact hF h
  | some a => exact hP a h

theorem Ends.bind {Q : β → Prop} {f : α → Option β} (h : Ends F P x)
    (hf : ∀ a, P a → Ends F Q (f a)) : Ends F Q (x >>= f) := by
  cases x with
  | none => exact h
  | some a => exact hf a h

end Ends

/-- Two computations that go along with each other. -/
theorem rel_bind {α α' β β' : Type} {R : α → α' → Prop} {Q : β → β' → Prop} {x : Option α} {x' : Option α'}
    {f : α → Option β} {f' : α' → Option β'} (hx : Option.Rel R x x')
    (hf : ∀ a a', R a a' → Option.Rel Q (f a) (f' a')) : Option.Rel Q (x >>= f) (x' >>= f') := by
  cases hx with
  | none => exact .none
  | some ha => exact hf _ _ ha

/-- How a run closes in which `I cycle position` holds whenever it is the turn of that position. -/
def Closes (e : Engine) (recipes : List Recipe) (I : Nat → Nat → Progress → Prop) (r : Progress)
    (cycles : Nat) : Termination → Prop
  | .converged => 1 ≤ cycles ∧ cycles ≤ max e.maxCycles 1 ∧ I cycles recipes.length r ∧
      r.changedIn cycles = false
  | .cycleLimit => cycles = max e.maxCycles 1 ∧ I (cycles + 1) 0 r
  | .cancelled => cycles + 1 ≤ max e.maxCycles 1 ∧ I (cycles + 1) 0 r ∧
      (e.stoppable && r.session.cancelled) = true

theorem Closes.holds {e : Engine} {recipes : List Recipe} {I : Nat → Nat → Progress → Prop} {r : Progress}
    {cycles : Nat} {termination : Termination} (h : e.Closes recipes I r cycles termination) :
    ∃ cycle position, I cycle position r := by
  cases termination with
  | converged => exact ⟨_, _, h.2.2.1⟩
  | cycleLimit => exact ⟨_, _, h.2⟩
  | cancelled => exact ⟨_, _, h.2.1⟩

section Induction

variable {e : Engine} {recipes : List Recipe} {F : Prop} {I : Nat → Nat → Progress → Prop}
  (hturn : ∀ cycle position recipe r, 1 ≤ cycle → cycle ≤ max e.maxCycles 1 →
    recipes[position]? = some recipe → I cycle position r →
      Ends F (I cycle (position + 1)) (e.runRecipe cycle r (recipe, position)))
include hturn

theorem runCycle_ends {cycle : Nat} {r : Progress} (hcycle : 1 ≤ cycle) (hmax : cycle ≤ max e.maxCycles 1)
    (h : I cycle 0 r) : Ends F (I cycle recipes.length) (e.runCycle recipes cycle r) := by
  -- The recipes that are yet to come are the list from some position on.
  have hrest : ∀ (rest : List Recipe) (position : Nat) (r : Progress),
      recipes.drop position = rest → I cycle position r →
        Ends F (I cycle (position + rest.length)) ((rest.zipIdx position).foldlM (e.runRecipe cycle) r) := by
    intro rest
    induction rest with
    | nil =>
      intro position r _ h
      exact h
    | cons recipe rest ih =>
      intro position r hdrop h
      have hget : recipes[position]? = some recipe := by
        rw [← List.head?_drop, hdrop, List.head?_cons]
      have htail : recipes.drop (position + 1) = rest := by
        rw [← List.tail_drop, hdrop, List.tail_cons]
      rw [List.zipIdx_cons, List.foldlM_cons, List.length_cons, Nat.add_comm rest.length, ← Nat.add_assoc]
      exact (hturn cycle position recipe r hcycle hmax hget h).bind fun r1 h1 =>
        ih (position + 1) r1 htail h1
  have hall := hrest recipes 0 r rfl h
  rwa [Nat.zero_add] at hall

variable (hnext : ∀ cycle r, I cycle recipes.length r → r.changedIn cycle = true → I (cycle + 1) 0 r)
include hnext

theorem runCycles_ends (left : Nat) : ∀ (cycle : Nat) (r : Progress), 1 ≤ cycle →
    cycle + left = max e.maxCycles 1 + 1 → I cycle 0 r →
    Ends F (fun (r', cycles, termination) => ∃ r0 : Progress, r'.tree = r0.tree ∧
      r'.history = r0.history ∧ r'.session.supply = r0.session.supply ∧
      r'.session.cancelled = r0.session.cancelled ∧ e.Closes recipes I r0 cycles termination)
      (e.runCycles recipes left cycle r) := by
  induction left with
  | zero =>
    intro cycle r hcycle hleft h
    refine ⟨r, rfl, rfl, rfl, rfl, ?_, ?_⟩
    · omega
    · rwa [Nat.sub_add_cancel hcycle]
  | succ left ih =>
    intro cycle r hcycle hleft h
    unfold runCycles
    by_cases hstop : (e.stoppable && r.session.cancelled) = true
    · rw [if_pos hstop]
      refine ⟨r, rfl, rfl, rfl, rfl, ?_, ?_, hstop⟩
      · omega
      · rwa [Nat.sub_add_cancel hcycle]
    · rw [if_neg hstop]
      refine (runCycle_ends hturn hcycle (by omega) h).bind fun r1 h1 => ?_
      by_cases hchanged : r1.changedIn cycle = true
      · rw [if_pos hchanged]
        exact ih (cycle + 1) r1 (by omega) (by omega) (hnext cycle r1 h1 hchanged)
      · rw [if_neg hchanged]
        exact ⟨r1, rfl, rfl, rfl, rfl, hcycle, by omega, h1, by simpa using hchanged⟩

/-- **From turn to turn.** What holds at the start, is kept by every turn and is taken over into the next
cycle holds at the end of a run. -/
theorem run_ends {tree : Node} {session : Session} (hstart : I 1 0 { tree, session }) :
    Ends F (fun (result, session') => ∃ r : Progress, result.tree = r.tree ∧
      result.history = r.history ∧ session'.supply = r.session.supply ∧
      session'.cancelled = r.session.cancelled ∧
      e.Closes recipes I r result.cycles result.termination) (e.run recipes tree session) := by
  have hcycles := runCycles_ends hturn hnext (max e.maxCycles 1) 1 { tree, session } (Nat.le_refl 1)
    (Nat.add_comm 1 _) hstart
  exact hcycles.bind fun _ h => h

end Induction

/-- **What every turn keeps** holds at the end of a run. -/
theorem run_keeps {e : Engine} {recipes : List Recipe} {F : Prop} {I : Progress → Prop}
    (hturn : ∀ cycle position recipe r, recipes[position]? = some recipe → I r →
      Ends F I (e.runRecipe cycle r (recipe, position)))
    {tree : Node} {session : Session} (hstart : I { tree, session }) :
    Ends F (fun (result, session') => ∃ r, I r ∧ result.tree = r.tree ∧ result.history = r.history ∧
      session'.supply = r.session.supply) (e.run recipes tree session) := by
  have h := run_ends (I := fun _ _ => I) (fun cycle position recipe r _ _ => hturn cycle position recipe r)
    (fun _ _ h _ => h) hstart
  refine h.imp id ?_
  rintro ⟨result, session'⟩ ⟨r, htree, hhistory, hsupply, -, hcloses⟩
  obtain ⟨-, -, hkept⟩ := hcloses.holds
  exact ⟨r, hkept, htree, hhistory, hsupply⟩

end Engine

end Refactor
