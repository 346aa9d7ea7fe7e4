import Refactor.Proofs.Engine.Protocol
import Refactor.Proofs.Engine.Removal

/-!
# The bound on the cycles

The bound is asked for only when a cycle is to start, so a run with a lower bound is the start of one with
a higher bound. A run that converged is not touched by it, and one that was cut off is taken up where it
stood (`runCycles_add`).
-/

namespace Refactor

/-! ### Longer histories -/

namespace RunResult

variable {a b : RunResult}

theorem changedPositions_prefix (h : a.history <+: b.history) :
    a.changedPositions <+: b.changedPositions := by
  obtain ⟨later, hlater⟩ := h
  unfold changedPositions
  rw [← hlater, List.filter_append, List.map_append, List.eraseDups_append]
  exact List.prefix_append _ _

theorem failures_prefix (h : a.history <+: b.history) : a.failures <+: b.failures := by
  obtain ⟨later, hlater⟩ := h
  unfold failures
  rw [← hlater, List.filterMap_append]
  exact List.prefix_append _ _

/-- A recipe that has changed the tree is found where it was found before. -/
theorem changedRecipes_prefix (h : a.history <+: b.history) : a.changedRecipes <+: b.changedRecipes := by
  obtain ⟨more, hmore⟩ := changedPositions_prefix h
  obtain ⟨later, hlater⟩ := h
  have hfind : ∀ i ∈ a.changedPositions,
      (b.history.find? (·.position = i)).map (·.recipe.id) =
        (a.history.find? (·.position = i)).map (·.recipe.id) := by
    intro i hi
    obtain ⟨p, hp, hposition, -⟩ := mem_changedPositions.1 hi
    have hsome : (a.history.find? (·.position = i)).isSome := by
      rw [List.find?_isSome]
      exact ⟨p, hp, by simpa using hposition⟩
    rw [← hlater, List.find?_append, Option.or_of_isSome hsome]
  unfold changedRecipes
  rw [← hmore, List.filterMap_append, List.filterMap_congr hfind]
  exact List.prefix_append _ _

/-- The first result is what the second run had come to after the cycles of the first: the passes that
are not in it are of later cycles. -/
structure Begins (a b : RunResult) : Prop where
  history : ∃ later, b.history = a.history ++ later ∧ ∀ p ∈ later, a.cycles < p.cycle
  changedPositions : a.changedPositions <+: b.changedPositions
  changedRecipes : a.changedRecipes <+: b.changedRecipes
  failures : a.failures <+: b.failures

theorem begins_of_history
    (h : ∃ later, b.history = a.history ++ later ∧ ∀ p ∈ later, a.cycles < p.cycle) : a.Begins b := by
  obtain ⟨later, hlater, hcycles⟩ := h
  have hprefix : a.history <+: b.history := ⟨later, hlater.symm⟩
  exact ⟨⟨later, hlater, hcycles⟩, changedPositions_prefix hprefix, changedRecipes_prefix hprefix,
    failures_prefix hprefix⟩

end RunResult

namespace Engine

/-- The engine with another bound on the cycles. -/
def withCap (e : Engine) (k : Nat) : Engine := { e with maxCycles := k }

/-! ### The course of a run -/

/-- After so many cycles the run holds that. A cycle starts if the bound allows for it, no one has asked
for the run to stop, and the cycle before it has changed the tree. -/
inductive Reaches (e : Engine) (recipes : List Recipe) (start : Progress) : Nat → Progress → Prop
  | start : Reaches e recipes start 0 start
  | cycle {k : Nat} {r r' : Progress} : Reaches e recipes start k r → k < max e.maxCycles 1 →
      (e.stoppable && r.session.cancelled) = false → k = 0 ∨ r.changedIn k = true →
      e.runCycle recipes (k + 1) r = some r' → Reaches e recipes start (k + 1) r'

/-- A higher bound allows for the same cycles. -/
theorem Reaches.mono {e : Engine} {recipes : List Recipe} {start r : Progress} {k k' j : Nat} (hle : k ≤ k')
    (h : (e.withCap k).Reaches recipes start j r) : (e.withCap k').Reaches recipes start j r := by
  induction h with
  | start => exact .start
  | @cycle j r r' _ hcap hrunning hchanged hcycle ih =>
    have hmax : j < max k 1 := hcap
    exact .cycle ih (show j < max k' 1 by omega) hrunning hchanged hcycle

section Course

variable {e : Engine} {recipes : List Recipe} {start : Progress}

theorem runCycles_reaches (left : Nat) : ∀ (k : Nat) (r : Progress), k + left ≤ max e.maxCycles 1 →
    e.Reaches recipes start k r → k = 0 ∨ r.changedIn k = true →
    Ends True (fun (r', cycles, _) => ∃ r0 : Progress, e.Reaches recipes start cycles r0 ∧
      r'.tree = r0.tree ∧ r'.history = r0.history) (e.runCycles recipes left (k + 1) r) := by
  induction left with
  | zero => exact fun k r _ h _ => ⟨r, h, rfl, rfl⟩
  | succ left ih =>
    intro k r hmax h hchanged
    unfold runCycles
    by_cases hstop : (e.stoppable && r.session.cancelled) = true
    · rw [if_pos hstop]
      exact ⟨r, h, rfl, rfl⟩
    · rw [if_neg hstop]
      have hrunning : (e.stoppable && r.session.cancelled) = false := by simpa using hstop
      cases hcycle : e.runCycle recipes (k + 1) r with
      | none => exact trivial
      | some r1 =>
        have hnext : e.Reaches recipes start (k + 1) r1 := .cycle h (by omega) hrunning hchanged hcycle
        show Ends True _ (if r1.changedIn (k + 1) then _ else _)
        by_cases hchanged1 : r1.changedIn (k + 1) = true
        · rw [if_pos hchanged1]
          exact ih (k + 1) r1 (by omega) hnext (Or.inr hchanged1)
        · rw [if_neg hchanged1]
          exact ⟨r1, hnext, rfl, rfl⟩

/-- **The result of a run** is what it holds after its cycles. -/
theorem run_reaches {tree : Node} {session session' : Session} {result : RunResult}
    (hrun : e.run recipes tree session = some (result, session')) :
    ∃ r, e.Reaches recipes { tree, session } result.cycles r ∧ r.tree = result.tree ∧
      r.history = result.history := by
  have hends : Ends True (fun out => ∃ r : Progress,
      e.Reaches recipes { tree, session } out.1.cycles r ∧ r.tree = out.1.tree ∧
        r.history = out.1.history) (e.run recipes tree session) := by
    refine (runCycles_reaches (max e.maxCycles 1) 0 { tree, session } (by omega) .start (Or.inl rfl)).bind ?_
    rintro ⟨r', cycles, termination⟩ ⟨r, hreaches, htree, hhistory⟩
    exact ⟨r, hreaches, htree.symm, hhistory.symm⟩
  rw [hrun] at hends
  exact hends

/-- A run that was cut off has made all the cycles it might. -/
theorem cycles_of_limit {tree : Node} {session session' : Session} {result : RunResult}
    (hrun : e.run recipes tree session = some (result, session')) (hlimit : result.termination = .cycleLimit) :
    result.cycles = max e.maxCycles 1 := by
  have hturn : ∀ cycle position recipe r, 1 ≤ cycle → cycle ≤ max e.maxCycles 1 →
      recipes[position]? = some recipe → True →
      Ends True (fun _ => True) (e.runRecipe cycle r (recipe, position)) := by
    intro cycle position recipe r _ _ _ _
    cases e.runRecipe cycle r (recipe, position) <;> exact trivial
  have hends : Ends True _ (e.run recipes tree session) :=
    run_ends (I := fun _ _ _ => True) hturn (fun _ _ _ _ => trivial) trivial
  rw [hrun] at hends
  obtain ⟨r, -, -, -, -, hcloses⟩ := hends
  rw [hlimit] at hcloses
  exact hcloses.1

/-- What comes after so many cycles is added to the history, and is of later cycles. -/
theorem runCycles_later {left k : Nat} (r : Progress) (hleft : k + left = max e.maxCycles 1) :
    Ends True (fun (r', _, _) => ∃ later, Progress.history r' = r.history ++ later ∧
      ∀ p ∈ later, k < p.cycle) (e.runCycles recipes left (k + 1) r) := by
  -- What holds whenever it is the turn of a position.
  let Later (cycle : Nat) (_ : Nat) (r' : Progress) : Prop :=
    k < cycle ∧ ∃ later, r'.history = r.history ++ later ∧ ∀ p ∈ later, k < p.cycle
  have hturn : ∀ cycle position recipe r', 1 ≤ cycle → cycle ≤ max e.maxCycles 1 →
      recipes[position]? = some recipe → Later cycle position r' →
      Ends True (Later cycle (position + 1)) (e.runRecipe cycle r' (recipe, position)) := by
    rintro cycle position recipe r' _ _ _ ⟨hk, later, hhistory, hlater⟩
    have hout := e.runRecipe_turn cycle r' recipe position
    generalize e.runRecipe cycle r' (recipe, position) = out at hout ⊢
    cases hout with
    | skipped => exact ⟨hk, later, hhistory, hlater⟩
    | stuck => exact trivial
    | made p _ _ hcycle _ _ _ _ _ hsnoc =>
      refine ⟨hk, later ++ [p], by rw [hsnoc, hhistory, List.append_assoc], ?_⟩
      intro q hq
      rw [List.mem_append, List.mem_singleton] at hq
      rcases hq with hq | rfl
      · exact hlater q hq
      · rw [hcycle]
        exact hk
  have hends := runCycles_ends (I := Later) hturn (fun _ _ h _ => ⟨by have := h.1; omega, h.2⟩) left
    (k + 1) r (by omega) (by omega) ⟨Nat.lt_succ_self k, [], (List.append_nil _).symm, by simp⟩
  refine hends.imp id ?_
  rintro ⟨r', cycles, termination⟩ ⟨r0, -, hhistory, -, -, hcloses⟩
  obtain ⟨-, -, -, hlater⟩ := hcloses.holds
  show ∃ later, r'.history = r.history ++ later ∧ _
  rw [hhistory]
  exact hlater

end Course

/-! ### Taking up a run -/

/-- Goes on with a run for so many cycles more, if it was cut off. -/
def resume (e : Engine) (recipes : List Recipe) (more : Nat) :
    Progress × Nat × Termination → Option (Progress × Nat × Termination)
  | (r, cycles, .cycleLimit) => e.runCycles recipes more (cycles + 1) r
  | ended => some ended

/-- **A bound only cuts off.** To run more cycles is to run some of them and to take up the run then. -/
theorem runCycles_add (e : Engine) (recipes : List Recipe) (left more : Nat) : ∀ (k : Nat) (r : Progress),
    e.runCycles recipes (left + more) (k + 1) r =
      e.runCycles recipes left (k + 1) r >>= e.resume recipes more := by
  induction left with
  | zero =>
    intro k r
    rw [Nat.zero_add]
    rfl
  | succ left ih =>
    intro k r
    rw [Nat.add_right_comm, runCycles, runCycles]
    by_cases hstop : (e.stoppable && r.session.cancelled) = true
    · rw [if_pos hstop, if_pos hstop]
      rfl
    · rw [if_neg hstop, if_neg hstop, bind_assoc]
      refine bind_congr fun r1 => ?_
      by_cases hchanged : r1.changedIn (k + 1) = true
      · rw [if_pos hchanged, if_pos hchanged, ih]
      · rw [if_neg hchanged, if_neg hchanged]
        rfl

/-- No cycle asks for the bound. -/
theorem runCycles_withCap (e : Engine) (k : Nat) (recipes : List Recipe) (left : Nat) :
    ∀ (cycle : Nat) (r : Progress),
      (e.withCap k).runCycles recipes left cycle r = e.runCycles recipes left cycle r := by
  induction left with
  | zero => exact fun cycle r => rfl
  | succ left ih =>
    intro cycle r
    have hcycle : (e.withCap k).runCycle recipes cycle = e.runCycle recipes cycle := rfl
    have hstoppable : (e.withCap k).stoppable = e.stoppable := rfl
    rw [runCycles, runCycles, hcycle, hstoppable]
    simp only [ih]

theorem run_withCap (e : Engine) (k : Nat) (recipes : List Recipe) (tree : Node) (session : Session) :
    (e.withCap k).run recipes tree session = do
      let (r, cycles, termination) ← e.runCycles recipes (max k 1) 1 { tree, session }
      return (⟨r.tree, r.history, cycles, termination⟩,
        r.session.tell (closing termination cycles)) := by
  unfold run
  rw [runCycles_withCap]
  rfl

/-- **A lower bound only cuts a run short.** If it converges within the lower bound, the higher one makes
no difference. If it is cut off, the run with the higher bound holds the same after as many cycles, and what
it reports in the end begins with what the shorter run reports. -/
theorem run_withCap_truncates (e : Engine) (recipes : List Recipe) (tree : Node) (session : Session)
    {k k' : Nat} (hk : 1 ≤ k) (hle : k ≤ k') {result : RunResult} {session' : Session}
    (hrun : (e.withCap k).run recipes tree session = some (result, session')) :
    (result.termination = .converged →
      (e.withCap k').run recipes tree session = some (result, session')) ∧
    (result.termination = .cycleLimit →
      (∃ r, (e.withCap k').Reaches recipes { tree, session } k r ∧ r.tree = result.tree ∧
        r.history = result.history) ∧
      ∀ result' session'', (e.withCap k').run recipes tree session = some (result', session'') →
        result.Begins result') := by
  have hshort := hrun
  rw [run_withCap, Option.bind_eq_bind, Option.bind_eq_some_iff] at hshort
  obtain ⟨⟨r, cycles, termination⟩, hcycles, hpure⟩ := hshort
  cases hpure
  -- What the longer run does is to take up the shorter one.
  obtain ⟨more, hmore⟩ : ∃ more, max k' 1 = max k 1 + more := ⟨max k' 1 - max k 1, by omega⟩
  have hlong : e.runCycles recipes (max k' 1) 1 { tree, session } =
      e.resume recipes more (r, cycles, termination) := by
    rw [hmore, runCycles_add, hcycles]
    rfl
  constructor
  · rintro rfl
    rw [run_withCap, hlong]
    rfl
  · rintro rfl
    have hcount : cycles = max k 1 := cycles_of_limit hrun rfl
    have hcycles : cycles = k := by omega
    constructor
    · obtain ⟨r0, hreaches, htree, hhistory⟩ := run_reaches hrun
      exact ⟨r0, hcycles ▸ hreaches.mono hle, htree, hhistory⟩
    · intro result' session'' hrun'
      rw [run_withCap, hlong, Option.bind_eq_bind, Option.bind_eq_some_iff] at hrun'
      obtain ⟨⟨r', cycles', termination'⟩, hresume, hpure⟩ := hrun'
      cases hpure
      have hlater : Ends True _ ((e.withCap k').runCycles recipes more (cycles + 1) r) :=
        runCycles_later r (show cycles + more = max k' 1 by omega)
      have hresumed : e.runCycles recipes more (cycles + 1) r = some (r', cycles', termination') := hresume
      rw [runCycles_withCap, hresumed] at hlater
      exact RunResult.begins_of_history hlater

/-- Fails in the third cycle. -/
def tardy : Recipe where
  id := "tardy"
  visitor := .plain "tardy" (.look fun p =>
    if p.cycle = 3 then .fail (.unexpectedNode .block .literal) else .done)

/-- A run that is cut off before one of its recipes fails, and one that is not cut off. -/
theorem run_withCap_truncates_tardy :
    ∃ short long ended : RunResult × Session,
      (withCap {} 2).run [counting, tardy] five.placed.1 five.placed.2 = some short ∧
      (withCap {} 4).run [counting, tardy] five.placed.1 five.placed.2 = some long ∧
      short.1.termination = .cycleLimit ∧ short.1.changedRecipes = ["counting"] ∧ short.1.failures = [] ∧
      long.1.failures = [⟨"tardy", 3, .unexpectedNode .block .literal⟩] ∧ short.1.Begins long.1 ∧
      (∃ r, (withCap {} 4).Reaches [counting, tardy] { tree := five.placed.1, session := five.placed.2 } 2 r ∧
        r.tree = short.1.tree ∧ r.history = short.1.history) ∧
      (withCap {} 2).run [capped] five.placed.1 five.placed.2 = some ended ∧
      (withCap {} 9).run [capped] five.placed.1 five.placed.2 = some ended ∧
      ended.1.termination = .converged ∧ ended.1.changedRecipes = ["capped"] := by
  have hshort : ((withCap {} 2).run [counting, tardy] five.placed.1 five.placed.2).map
      (fun a => (a.1.termination, a.1.changedRecipes, a.1.failures)) =
        some (.cycleLimit, ["counting"], []) := by
    decide +kernel
  have hlong : ((withCap {} 4).run [counting, tardy] five.placed.1 five.placed.2).map
      (fun a => a.1.failures) = some [⟨"tardy", 3, .unexpectedNode .block .literal⟩] := by
    decide +kernel
  have hended : ((withCap {} 2).run [capped] five.placed.1 five.placed.2).map
      (fun a => (a.1.termination, a.1.changedRecipes)) = some (.converged, ["capped"]) := by
    decide +kernel
  obtain ⟨⟨short, session⟩, hrun, hout⟩ := Option.map_eq_some_iff.1 hshort
  obtain ⟨⟨long, session'⟩, hrun', hfailures⟩ := Option.map_eq_some_iff.1 hlong
  obtain ⟨⟨ended, session''⟩, hrun'', hout''⟩ := Option.map_eq_some_iff.1 hended
  simp only [Prod.mk.injEq] at hout hout''
  obtain ⟨hreaches, hbegins⟩ := (run_withCap_truncates {} [counting, tardy] five.placed.1 five.placed.2
    (show 1 ≤ 2 by decide) (show 2 ≤ 4 by decide) hrun).2 hout.1
  have hsame := (run_withCap_truncates {} [capped] five.placed.1 five.placed.2 (show 1 ≤ 2 by decide)
    (show 2 ≤ 9 by decide) hrun'').1 hout''.1
  exact ⟨(short, session), (long, session'), (ended, session''), hrun, hrun', hout.1, hout.2.1, hout.2.2,
    hfailures, hbegins long session' hrun', hreaches, hrun'', hsame, hout''.1, hout''.2⟩

end Engine

end Refactor
