import Mathlib.Data.List.Forall2
import Refactor.Proofs.Engine.Run

/-!
# The protocol of a run

The history of a run is told by three things: which recipes are due in which cycle, what each pass is
given, and what it makes of that. `Engine.Course` puts them together for the passes that have been made
by some turn; every turn takes it one position further (`Course.skip`, `Course.make`). From the history
all the rest follows: when the run ends and why, which recipes have failed and which have changed the
tree (`Engine.Protocol`).
-/

namespace Refactor

/-- In the order of cycles, and of positions within a cycle. -/
def Pass.Before (p q : Pass) : Prop :=
  p.cycle < q.cycle ∨ p.cycle = q.cycle ∧ p.position < q.position

/-- The passes that did not fail. -/
def succeeded (passes : List Pass) : List Pass := passes.filter (!·.failed)

/-- The output of the latest pass that succeeded, the tree at the start if there is none. -/
def latestOutput (tree : Node) (passes : List Pass) : Node :=
  (succeeded passes).getLast?.elim tree Pass.output

theorem succeeded_snoc (passes : List Pass) (p : Pass) :
    succeeded (passes ++ [p]) = if p.failed then succeeded passes else succeeded passes ++ [p] := by
  cases h : p.failed <;> simp [succeeded, h]

theorem latestOutput_snoc {tree : Node} {passes : List Pass} {p : Pass}
    (hinput : p.input = latestOutput tree passes) : latestOutput tree (passes ++ [p]) = p.output := by
  have hfailed : p.failed = true → p.output = p.input := by
    cases hp : p.outcome <;> simp [Pass.failed, Pass.output, hp]
  unfold latestOutput
  rw [succeeded_snoc]
  by_cases hp : p.failed = true
  · rw [if_pos hp, hfailed hp, hinput]
    rfl
  · rw [if_neg hp]
    simp

namespace Engine

/-- The session after all those passes, its journal aside. -/
def sessionAfter (e : Engine) (session : Session) (passes : List Pass) : Session :=
  passes.foldl e.after session

/-- The recipe at that position is due in the cycle: it has cycles left and has not failed in an earlier
one. -/
def Due (recipes : List Recipe) (history : List Pass) (cycle position : Nat) : Prop :=
  ∃ r, recipes[position]? = some r ∧ cycle ≤ r.maxCycles ∧
    ¬ ∃ q ∈ history, q.position = position ∧ q.failed = true ∧ q.cycle < cycle

/-- The passes that a run has made by the turn of that position in that cycle. -/
structure Course (e : Engine) (recipes : List Recipe) (tree : Node) (session : Session)
    (cycle position : Nat) (history : List Pass) : Prop where
  /-- A recipe has made a pass in a cycle exactly if its turn has been and it was due. -/
  made_iff : ∀ c i, (∃ p ∈ history, p.cycle = c ∧ p.position = i) ↔
    1 ≤ c ∧ (c < cycle ∨ c = cycle ∧ i < position) ∧ Due recipes history c i
  recipe : ∀ p ∈ history, recipes[p.position]? = some p.recipe
  inOrder : history.Pairwise Pass.Before
  /-- A pass is given what the latest one that succeeded has made. -/
  input : ∀ before p after, history = before ++ p :: after → p.input = latestOutput tree before
  /-- A pass comes to what it comes to in a session that knows of nothing but what the passes before it
  have taken from the supply. -/
  outcome : ∀ before p after, history = before ++ p :: after →
    (e.attempt p.recipe p.cycle p.input (e.sessionAfter session before).supply).result? = some p.outcome

namespace Course

variable {e : Engine} {recipes : List Recipe} {tree : Node} {session : Session} {cycle position : Nat}
  {history : List Pass}

theorem start (e : Engine) (recipes : List Recipe) (tree : Node) (session : Session) :
    e.Course recipes tree session 1 0 [] where
  made_iff c i := by
    constructor
    · rintro ⟨p, hp, -⟩
      exact absurd hp List.not_mem_nil
    · rintro ⟨hc, hlt | ⟨-, hi⟩, -⟩ <;> omega
  recipe p hp := absurd hp List.not_mem_nil
  inOrder := List.Pairwise.nil
  input before p after h := by simp at h
  outcome before p after h := by simp at h

/-- The passes so far lie before the turn at hand. -/
theorem turn (h : e.Course recipes tree session cycle position history) {p : Pass} (hp : p ∈ history) :
    p.cycle < cycle ∨ p.cycle = cycle ∧ p.position < position :=
  ((h.made_iff p.cycle p.position).1 ⟨p, hp, rfl, rfl⟩).2.1

/-- A recipe that has failed before or has had its cycles is passed by. -/
theorem skip (h : e.Course recipes tree session cycle position history) {recipe : Recipe}
    (hrecipe : recipes[position]? = some recipe)
    (hskip : (∃ q ∈ history, q.position = position ∧ q.failed = true) ∨ recipe.maxCycles < cycle) :
    e.Course recipes tree session cycle (position + 1) history where
  made_iff c i := by
    have hnot : ¬ Due recipes history cycle position := by
      rintro ⟨r, hr, hcycles, hfailed⟩
      obtain rfl := Option.some.inj (hrecipe.symm.trans hr)
      rcases hskip with ⟨q, hq, hqi, hqf⟩ | hover
      · refine hfailed ⟨q, hq, hqi, hqf, ?_⟩
        rcases h.turn hq with hlt | ⟨-, hlt⟩ <;> omega
      · omega
    rw [h.made_iff]
    refine and_congr_right fun _ => ⟨fun ⟨hturn, hdue⟩ => ⟨by omega, hdue⟩, fun ⟨hturn, hdue⟩ => ⟨?_, hdue⟩⟩
    rcases hturn with hlt | ⟨rfl, hi⟩
    · exact Or.inl hlt
    · rcases Nat.lt_succ_iff_lt_or_eq.1 hi with hi | rfl
      · exact Or.inr ⟨rfl, hi⟩
      · exact absurd hdue hnot
  recipe := h.recipe
  inOrder := h.inOrder
  input := h.input
  outcome := h.outcome

/-- A pass of the cycle at hand keeps no recipe from a cycle up to that one. -/
theorem due_snoc {p : Pass} {c i : Nat} (hc : c ≤ p.cycle) :
    Due recipes (history ++ [p]) c i ↔ Due recipes history c i := by
  unfold Due
  refine exists_congr fun r => and_congr_right fun _ => and_congr_right fun _ => not_congr ?_
  constructor
  · rintro ⟨q, hq, hqi, hqf, hlt⟩
    rcases List.mem_append.1 hq with hq | hq
    · exact ⟨q, hq, hqi, hqf, hlt⟩
    · obtain rfl := List.mem_singleton.1 hq
      omega
  · rintro ⟨q, hq, h⟩
    exact ⟨q, List.mem_append_left _ hq, h⟩

/-- A recipe that is due makes its pass. -/
theorem make (h : e.Course recipes tree session cycle position history) {p : Pass} (hstarted : 1 ≤ cycle)
    (hcycle : p.cycle = cycle) (hposition : p.position = position)
    (hrecipe : recipes[position]? = some p.recipe) (hcycles : cycle ≤ p.recipe.maxCycles)
    (hunfailed : ¬ ∃ q ∈ history, q.position = position ∧ q.failed = true)
    (hinput : p.input = latestOutput tree history)
    (houtcome : (e.attempt p.recipe p.cycle p.input (e.sessionAfter session history).supply).result? =
      some p.outcome) :
    e.Course recipes tree session cycle (position + 1) (history ++ [p]) where
  made_iff c i := by
    have hdue : Due recipes history cycle position :=
      ⟨p.recipe, hrecipe, hcycles, fun ⟨q, hq, hqi, hqf, _⟩ => hunfailed ⟨q, hq, hqi, hqf⟩⟩
    have hmade : (∃ q ∈ history ++ [p], q.cycle = c ∧ q.position = i) ↔
        (∃ q ∈ history, q.cycle = c ∧ q.position = i) ∨ c = cycle ∧ i = position := by
      constructor
      · rintro ⟨q, hq, hqc, hqi⟩
        rcases List.mem_append.1 hq with hq | hq
        · exact Or.inl ⟨q, hq, hqc, hqi⟩
        · obtain rfl := List.mem_singleton.1 hq
          exact Or.inr ⟨by omega, by omega⟩
      · rintro (⟨q, hq, hqc, hqi⟩ | ⟨rfl, rfl⟩)
        · exact ⟨q, List.mem_append_left _ hq, hqc, hqi⟩
        · exact ⟨p, List.mem_append_right _ (List.mem_singleton.2 rfl), hcycle, hposition⟩
    rw [hmade, h.made_iff]
    constructor
    · rintro (⟨hc, hturn, hci⟩ | ⟨rfl, rfl⟩)
      · exact ⟨hc, by omega, (due_snoc (by omega)).2 hci⟩
      · exact ⟨hstarted, by omega, (due_snoc (by omega)).2 hdue⟩
    · rintro ⟨hc, hturn, hci⟩
      have hci : Due recipes history c i := (due_snoc (by omega)).1 hci
      rcases hturn with hlt | ⟨rfl, hi⟩
      · exact Or.inl ⟨hc, Or.inl hlt, hci⟩
      · rcases Nat.lt_succ_iff_lt_or_eq.1 hi with hi | rfl
        · exact Or.inl ⟨hc, Or.inr ⟨rfl, hi⟩, hci⟩
        · exact Or.inr ⟨rfl, rfl⟩
  recipe q hq := by
    rcases List.mem_append.1 hq with hq | hq
    · exact h.recipe q hq
    · obtain rfl := List.mem_singleton.1 hq
      rw [hposition, hrecipe]
  inOrder := by
    rw [List.pairwise_append]
    refine ⟨h.inOrder, List.pairwise_singleton _ _, fun q hq q' hq' => ?_⟩
    obtain rfl := List.mem_singleton.1 hq'
    have := h.turn hq
    unfold Pass.Before
    omega
  input before q after hsplit := by
    rcases append_singleton_eq_append_cons hsplit with ⟨rfl, rfl, -⟩ | ⟨after', -, hsplit⟩
    · exact hinput
    · exact h.input before q after' hsplit
  outcome before q after hsplit := by
    rcases append_singleton_eq_append_cons hsplit with ⟨rfl, rfl, -⟩ | ⟨after', -, hsplit⟩
    · exact houtcome
    · exact h.outcome before q after' hsplit

/-- Once all recipes have had their turn it is the next cycle. -/
theorem next (h : e.Course recipes tree session cycle recipes.length history) :
    e.Course recipes tree session (cycle + 1) 0 history where
  made_iff c i := by
    rw [h.made_iff]
    refine and_congr_right fun _ => and_congr_left fun ⟨r, hr, _⟩ => ?_
    have hi : i < recipes.length := (List.getElem?_eq_some_iff.1 hr).1
    omega
  recipe := h.recipe
  inOrder := h.inOrder
  input := h.input
  outcome := h.outcome

/-- No recipe fails twice. -/
theorem failedOnce (h : e.Course recipes tree session cycle position history) :
    ((history.filter (·.failed)).map (·.position)).Nodup := by
  rw [List.Nodup, List.pairwise_map]
  refine (h.inOrder.filter _).imp_of_mem fun {p q} hp hq hbefore heq => ?_
  obtain ⟨hp, hpf⟩ := List.mem_filter.1 hp
  obtain ⟨hq, -⟩ := List.mem_filter.1 hq
  obtain ⟨-, -, r, -, -, hdue⟩ := (h.made_iff q.cycle q.position).1 ⟨q, hq, rfl, rfl⟩
  -- The second pass of a position comes in a later cycle, where it is not due any more.
  refine hdue ⟨p, hp, heq, hpf, ?_⟩
  rcases hbefore with hlt | ⟨-, hlt⟩ <;> omega

end Course

/-! ### The state of a run -/

/-- Someone changed the tree in that cycle. -/
def ChangedIn (history : List Pass) (cycle : Nat) : Prop :=
  ∃ p ∈ history, p.cycle = cycle ∧ p.changed = true

theorem changedIn_iff {r : Progress} {cycle : Nat} :
    r.changedIn cycle = true ↔ ChangedIn r.history cycle := by
  simp [Progress.changedIn, ChangedIn]

theorem hasFailed_iff {r : Progress} {position : Nat} :
    r.hasFailed position = true ↔ ∃ q ∈ r.history, q.position = position ∧ q.failed = true := by
  simp [Progress.hasFailed]

/-- The run holds what its passes have left. -/
structure Standing (e : Engine) (tree : Node) (session : Session) (r : Progress) : Prop where
  tree : r.tree = latestOutput tree r.history
  supply : r.session.supply = (e.sessionAfter session r.history).supply
  cancelled : r.session.cancelled = (e.sessionAfter session r.history).cancelled

/-- What a pass takes from the supply is told by the supply it finds. -/
theorem supply_after_congr (e : Engine) {s s' : Session} (h : s.supply = s'.supply) (p : Pass) :
    (e.after s p).supply = (e.after s' p).supply := by
  unfold after
  rw [h]
  split
  · rfl
  · rfl
  · exact h

theorem cancelled_after_congr (e : Engine) {s s' : Session} (h : s.supply = s'.supply)
    (hcancelled : s.cancelled = s'.cancelled) (p : Pass) :
    (e.after s p).cancelled = (e.after s' p).cancelled := by
  unfold after
  rw [h, hcancelled]
  split <;> simp_all

theorem sessionAfter_snoc (e : Engine) (session : Session) (passes : List Pass) (p : Pass) :
    e.sessionAfter session (passes ++ [p]) = e.after (e.sessionAfter session passes) p := by
  simp [sessionAfter]

section Turns

variable {e : Engine} {recipes : List Recipe} {tree : Node} {session : Session}

theorem Standing.make {r r' : Progress} {p : Pass} (h : e.Standing tree session r)
    (hinput : p.input = r.tree) (htree : r'.tree = p.output) (hhistory : r'.history = r.history ++ [p])
    (hsupply : r'.session.supply = (e.after r.session p).supply)
    (hcancelled : r'.session.cancelled = (e.after r.session p).cancelled) :
    e.Standing tree session r' where
  tree := by rw [htree, hhistory, latestOutput_snoc (hinput.trans h.tree)]
  supply := by rw [hsupply, hhistory, sessionAfter_snoc, supply_after_congr e h.supply]
  cancelled := by
    rw [hcancelled, hhistory, sessionAfter_snoc, cancelled_after_congr e h.supply h.cancelled]

/-- A pass that was due did not end within the fuel, in a run that had followed its course. -/
def Stuck (e : Engine) (recipes : List Recipe) (tree : Node) (session : Session) : Prop :=
  ∃ cycle position history recipe, 1 ≤ cycle ∧ cycle ≤ max e.maxCycles 1 ∧
    e.Course recipes tree session cycle position history ∧
    (∀ c, 1 ≤ c → c < cycle → ChangedIn history c) ∧
    recipes[position]? = some recipe ∧ Due recipes history cycle position ∧
    e.attempt recipe cycle (latestOutput tree history)
      (e.sessionAfter session history).supply = .exhausted

/-- What holds when it is the turn of a position in a cycle. -/
def OnCourse (e : Engine) (recipes : List Recipe) (tree : Node) (session : Session)
    (cycle position : Nat) (r : Progress) : Prop :=
  e.Course recipes tree session cycle position r.history ∧ e.Standing tree session r ∧
    ∀ c, 1 ≤ c → c < cycle → ChangedIn r.history c

/-- **Every turn keeps to the course.** -/
theorem onCourse_turn {cycle position : Nat} {recipe : Recipe} {r : Progress} (hstarted : 1 ≤ cycle)
    (hmax : cycle ≤ max e.maxCycles 1) (hrecipe : recipes[position]? = some recipe)
    (h : e.OnCourse recipes tree session cycle position r) :
    Ends (e.Stuck recipes tree session) (e.OnCourse recipes tree session cycle (position + 1))
      (e.runRecipe cycle r (recipe, position)) := by
  obtain ⟨hcourse, hstanding, hchanged⟩ := h
  have hunfailed : r.hasFailed position = false →
      ¬ ∃ q ∈ r.history, q.position = position ∧ q.failed = true := by
    intro hfailed
    rw [← hasFailed_iff, hfailed]
    exact Bool.false_ne_true
  generalize hrun : e.runRecipe cycle r (recipe, position) = o
  cases hrun ▸ e.runRecipe_turn cycle r recipe position with
  | skipped hskip =>
    exact ⟨hcourse.skip hrecipe (hskip.imp_left hasFailed_iff.1), hstanding, hchanged⟩
  | made p hfailed hcycles hcycle hposition hp hinput houtcome htree hhistory hsupply hcancelled =>
    subst hp
    rw [← hcycle, ← hinput] at houtcome
    refine ⟨?_, hstanding.make hinput htree hhistory hsupply hcancelled, fun c hc hlt => ?_⟩
    · rw [hhistory]
      refine hcourse.make hstarted hcycle hposition hrecipe hcycles (hunfailed hfailed)
        (hinput.trans hstanding.tree) ?_
      rwa [← hstanding.supply]
    · obtain ⟨q, hq, hqc⟩ := hchanged c hc hlt
      exact ⟨q, by rw [hhistory]; exact List.mem_append_left _ hq, hqc⟩
  | stuck hfailed hcycles hattempt =>
    refine ⟨cycle, position, r.history, recipe, hstarted, hmax, hcourse, hchanged, hrecipe, ?_, ?_⟩
    · -- It was due, since it has not failed before.
      exact ⟨recipe, hrecipe, hcycles, fun ⟨q, hq, hqi, hqf, _⟩ => hunfailed hfailed ⟨q, hq, hqi, hqf⟩⟩
    · rwa [← hstanding.tree, ← hstanding.supply]

theorem onCourse_next {cycle : Nat} {r : Progress}
    (h : e.OnCourse recipes tree session cycle recipes.length r) (hchanged : r.changedIn cycle = true) :
    e.OnCourse recipes tree session (cycle + 1) 0 r := by
  refine ⟨h.1.next, h.2.1, fun c hc hlt => ?_⟩
  rcases Nat.lt_succ_iff_lt_or_eq.1 hlt with hlt | rfl
  · exact h.2.2 c hc hlt
  · exact changedIn_iff.1 hchanged

end Turns

end Engine

/-! ### What is reported -/

namespace RunResult

variable {result : RunResult}

theorem failures_forall₂ (result : RunResult) :
    List.Forall₂ (fun p f => f.recipe = p.recipe.id ∧ f.cycle = p.cycle ∧ p.outcome = .error f.error)
      (result.history.filter (·.failed)) result.failures := by
  unfold failures
  induction result.history with
  | nil => exact .nil
  | cons p passes ih =>
    cases hp : p.outcome with
    | ok n =>
      have hfailed : p.failed = false := by simp [Pass.failed, hp]
      rw [List.filter_cons_of_neg (by simp [hfailed]), List.filterMap_cons_none (by simp [hp])]
      exact ih
    | error error =>
      have hfailed : p.failed = true := by simp [Pass.failed, hp]
      rw [List.filter_cons_of_pos hfailed, List.filterMap_cons_some (b := ⟨p.recipe.id, p.cycle, error⟩)
        (by simp [hp])]
      exact .cons ⟨rfl, rfl, hp⟩ ih

theorem mem_changedPositions {i : Nat} :
    i ∈ result.changedPositions ↔ ∃ p ∈ result.history, p.position = i ∧ p.changed = true := by
  simp only [changedPositions, List.mem_eraseDups, List.mem_map, List.mem_filter]
  exact ⟨fun ⟨p, ⟨hp, hc⟩, hi⟩ => ⟨p, hp, hi, hc⟩, fun ⟨p, hp, hi, hc⟩ => ⟨p, ⟨hp, hc⟩, hi⟩⟩

/-- The positions come in the order of their first change. -/
theorem pairwise_changedPositions (result : RunResult) :
    result.changedPositions.Pairwise fun i j => ∃ before p after,
      result.history = before ++ p :: after ∧ p.position = i ∧ p.changed = true ∧
        ∀ q ∈ before ++ [p], q.changed = true → q.position ≠ j := by
  refine (pairwise_eraseDups _).imp fun {i j} ⟨a, b, hsplit, hj⟩ => ?_
  obtain ⟨l1, rest, hfilter, rfl, hrest⟩ := List.map_eq_append_iff.1 hsplit
  obtain ⟨p, l2, rfl, rfl, rfl⟩ := List.map_eq_cons_iff.1 hrest
  obtain ⟨a1, rest', hhistory, rfl, hb1⟩ := List.filter_eq_append_iff.1 hfilter
  obtain ⟨a2, b2, rfl, hdropped, hp, -⟩ := List.filter_eq_cons_iff.1 hb1
  refine ⟨a1 ++ a2, p, b2, by simp [hhistory], rfl, hp, fun q hq hchanged hqj => ?_⟩
  subst hqj
  simp only [List.mem_append, List.mem_map, List.mem_filter, List.mem_singleton] at hj hq
  rcases hq with (hq | hq) | rfl
  · exact hj (Or.inl ⟨q, ⟨hq, hchanged⟩, rfl⟩)
  · exact hdropped q hq hchanged
  · exact hj (Or.inr rfl)

/-- The ids are those of the recipes at the positions. -/
theorem map_some_changedRecipes {recipes : List Recipe}
    (h : ∀ p ∈ result.history, recipes[p.position]? = some p.recipe) :
    result.changedRecipes.map some = result.changedPositions.map fun i => recipes[i]?.map (·.id) := by
  have hfind : ∀ i ∈ result.changedPositions, ∃ r : Recipe, recipes[i]? = some r ∧
      (result.history.find? (·.position = i)).map (·.recipe.id) = some r.id := by
    intro i hi
    obtain ⟨p, hp, rfl, -⟩ := mem_changedPositions.1 hi
    cases hfind : result.history.find? (·.position = p.position) with
    | none =>
      have := List.find?_eq_none.1 hfind p hp
      simp at this
    | some q =>
      -- The first pass of the position may be another one, but it has the same recipe.
      have hq : q.position = p.position := by simpa using List.find?_some hfind
      exact ⟨q.recipe, hq ▸ h q (List.mem_of_find?_eq_some hfind), rfl⟩
  unfold changedRecipes
  generalize result.changedPositions = positions at hfind ⊢
  induction positions with
  | nil => rfl
  | cons i is ih =>
    obtain ⟨r, hr, hid⟩ := hfind i List.mem_cons_self
    have htail := ih fun j hj => hfind j (List.mem_cons_of_mem _ hj)
    simp only [List.filterMap_cons, hid, List.map_cons, htail, hr, Option.map_some]

end RunResult

namespace Engine

/-- **What a run reports**, told by its history. -/
structure Protocol (e : Engine) (recipes : List Recipe) (tree : Node) (session : Session)
    (result : RunResult) : Prop where
  /-- The passes of all started cycles, each as its turn came. -/
  course : e.Course recipes tree session (result.cycles + 1) 0 result.history
  tree : result.tree = latestOutput tree result.history
  cycles_le : result.cycles ≤ max e.maxCycles 1
  converged_iff : result.termination = .converged ↔
    1 ≤ result.cycles ∧ ¬ ChangedIn result.history result.cycles
  limit_iff : result.termination = .cycleLimit ↔
    result.cycles = max e.maxCycles 1 ∧ ∀ c, 1 ≤ c → c ≤ result.cycles → ChangedIn result.history c
  /-- The request to stop was there when the next cycle was about to start. -/
  cancelled_iff : result.termination = .cancelled ↔
    (e.stoppable && (e.sessionAfter session result.history).cancelled) = true ∧
      result.cycles + 1 ≤ max e.maxCycles 1 ∧
      ∀ c, 1 ≤ c → c ≤ result.cycles → ChangedIn result.history c
  /-- One failure for each pass that failed, in order, and no recipe fails twice. -/
  failures : List.Forall₂
    (fun p f => f.recipe = p.recipe.id ∧ f.cycle = p.cycle ∧ p.outcome = .error f.error)
    (result.history.filter (·.failed)) result.failures
  failedOnce : ((result.history.filter (·.failed)).map (·.position)).Nodup
  /-- One id for each recipe that changed the tree, in the order of their first change. -/
  changed_iff : ∀ i, i ∈ result.changedPositions ↔
    ∃ p ∈ result.history, p.position = i ∧ p.changed = true
  changed_order : result.changedPositions.Pairwise fun i j => ∃ before p after,
    result.history = before ++ p :: after ∧ p.position = i ∧ p.changed = true ∧
      ∀ q ∈ before ++ [p], q.changed = true → q.position ≠ j
  changed_ids : result.changedRecipes.map some =
    result.changedPositions.map fun i => recipes[i]?.map (·.id)

section Protocol

variable {e : Engine} {recipes : List Recipe} {tree : Node} {session : Session} {r : Progress}
  {cycles : Nat} {termination : Termination}

/-- How a run that has kept to its course ends, and why. -/
theorem closes_onCourse (h : e.Closes recipes (e.OnCourse recipes tree session) r cycles termination) :
    e.Course recipes tree session (cycles + 1) 0 r.history ∧ e.Standing tree session r ∧
      cycles ≤ max e.maxCycles 1 ∧
      (termination = .converged ↔ 1 ≤ cycles ∧ ¬ ChangedIn r.history cycles) ∧
      (termination = .cycleLimit ↔
        cycles = max e.maxCycles 1 ∧ ∀ c, 1 ≤ c → c ≤ cycles → ChangedIn r.history c) ∧
      (termination = .cancelled ↔ (e.stoppable && (e.sessionAfter session r.history).cancelled) = true ∧
        cycles + 1 ≤ max e.maxCycles 1 ∧ ∀ c, 1 ≤ c → c ≤ cycles → ChangedIn r.history c) := by
  cases termination with
  | converged =>
    obtain ⟨hstarted, hmax, ⟨hcourse, hstanding, -⟩, hunchanged⟩ := h
    -- A cycle that changes nothing is the last one, so neither of the others applies.
    have hunchanged : ¬ ChangedIn r.history cycles := by
      rw [← changedIn_iff, hunchanged]
      exact Bool.false_ne_true
    refine ⟨hcourse.next, hstanding, hmax, ⟨fun _ => ⟨hstarted, hunchanged⟩, fun _ => rfl⟩, ?_, ?_⟩
    · exact ⟨nofun, fun ⟨_, hall⟩ => absurd (hall cycles hstarted (Nat.le_refl _)) hunchanged⟩
    · exact ⟨nofun,
        fun ⟨_, _, hall⟩ => absurd (hall cycles hstarted (Nat.le_refl _)) hunchanged⟩
  | cycleLimit =>
    obtain ⟨hcycles, hcourse, hstanding, hchanged⟩ := h
    have hall : ∀ c, 1 ≤ c → c ≤ cycles → ChangedIn r.history c :=
      fun c hc hle => hchanged c hc (Nat.lt_succ_of_le hle)
    refine ⟨hcourse, hstanding, Nat.le_of_eq hcycles, ?_, ⟨fun _ => ⟨hcycles, hall⟩, fun _ => rfl⟩, ?_⟩
    · exact ⟨nofun, fun ⟨hstarted, hnot⟩ => absurd (hall cycles hstarted (Nat.le_refl _)) hnot⟩
    · exact ⟨nofun, fun ⟨_, hlt, _⟩ => by omega⟩
  | cancelled =>
    obtain ⟨hlt, ⟨hcourse, hstanding, hchanged⟩, hstop⟩ := h
    have hall : ∀ c, 1 ≤ c → c ≤ cycles → ChangedIn r.history c :=
      fun c hc hle => hchanged c hc (Nat.lt_succ_of_le hle)
    rw [hstanding.cancelled] at hstop
    refine ⟨hcourse, hstanding, by omega, ?_, ?_, ⟨fun _ => ⟨hstop, hlt, hall⟩, fun _ => rfl⟩⟩
    · exact ⟨nofun, fun ⟨hstarted, hnot⟩ => absurd (hall cycles hstarted (Nat.le_refl _)) hnot⟩
    · exact ⟨nofun, fun ⟨heq, _⟩ => by omega⟩

end Protocol

/-- **The protocol of a run.** Whatever the tree, the recipes, the hierarchy and the bound, a run does
what the protocol says, unless a pass that is due does not end. The session it leaves is the one that its
passes leave, the journal aside. -/
theorem run_follows_protocol (e : Engine) (recipes : List Recipe) (tree : Node) (session : Session) :
    (∀ result session', e.run recipes tree session = some (result, session') →
      e.Protocol recipes tree session result ∧
        session'.supply = (e.sessionAfter session result.history).supply ∧
        session'.cancelled = (e.sessionAfter session result.history).cancelled) ∧
    (e.run recipes tree session = none → e.Stuck recipes tree session) := by
  have hstart : e.OnCourse recipes tree session 1 0 { tree, session } :=
    ⟨.start e recipes tree session, ⟨rfl, rfl, rfl⟩, fun c hc hlt => absurd hlt (by omega)⟩
  have hends := run_ends (fun _ _ _ _ => onCourse_turn) (fun _ _ => onCourse_next) hstart
  constructor
  · intro result session' hrun
    rw [hrun] at hends
    obtain ⟨r, htree, hhistory, hsupply, hcancelled, hcloses⟩ := hends
    obtain ⟨hcourse, hstanding, hmax, hconverged, hlimit, hstopped⟩ := closes_onCourse hcloses
    rw [← hhistory] at hcourse hconverged hlimit hstopped
    refine ⟨⟨hcourse, ?_, hmax, hconverged, hlimit, hstopped, result.failures_forall₂,
      hcourse.failedOnce, fun i => RunResult.mem_changedPositions, result.pairwise_changedPositions,
      RunResult.map_some_changedRecipes hcourse.recipe⟩, ?_, ?_⟩
    · rw [htree, hstanding.tree, hhistory]
    · rw [hsupply, hstanding.supply, hhistory]
    · rw [hcancelled, hstanding.cancelled, hhistory]
  · intro hrun
    rw [hrun] at hends
    exact hends

/-- Three recipes of one id: one fails, one counts a literal up in every cycle, and one asks for the run
to stop in the second cycle. -/
def namesakes : List Recipe :=
  [{ id := "same", visitor := .plain "failing" (.fail (.unexpectedNode .block .literal)) },
    { id := "same", visitor := .plain "counting" (.edit (.addInt 1) .done) },
    { id := "same", visitor := .plain "stopping"
        (.look fun p => if p.cycle = 2 then .cancel .done else .done) }]

/-- The literal that they count up. -/
def counter : Node × Session :=
  (.mk ⟨0, .given 1, "", .empty⟩ (.literal (.int 5)), {})

/-- The recipe that failed is left out of the second cycle and the one of the same id is not. -/
theorem namesakes_follow_protocol :
    ∃ result session', run { maxCycles := 5 } namesakes counter.1 counter.2 = some (result, session') ∧
      result.history.map (fun p => (p.cycle, p.position, p.failed, p.changed)) =
        [(1, 0, true, false), (1, 1, false, true), (1, 2, false, false), (2, 1, false, true),
          (2, 2, false, false)] ∧
      result.termination = .cancelled ∧ result.cycles = 2 ∧ result.changedRecipes = ["same"] ∧
      result.failures = [⟨"same", 1, .unexpectedNode .block .literal⟩] ∧
      Protocol { maxCycles := 5 } namesakes counter.1 counter.2 result := by
  have hrun : (run { maxCycles := 5 } namesakes counter.1 counter.2).map (fun out =>
      (out.1.history.map (fun p => (p.cycle, p.position, p.failed, p.changed)), out.1.termination,
        out.1.cycles)) =
      some ([(1, 0, true, false), (1, 1, false, true), (1, 2, false, false), (2, 1, false, true),
        (2, 2, false, false)], .cancelled, 2) := by
    decide +kernel
  have hreport : (run { maxCycles := 5 } namesakes counter.1 counter.2).map (fun out =>
      (out.1.changedRecipes, out.1.failures)) =
      some (["same"], [⟨"same", 1, .unexpectedNode .block .literal⟩]) := by
    decide +kernel
  obtain ⟨⟨result, session'⟩, hrun, hout⟩ := Option.map_eq_some_iff.1 hrun
  simp only [hrun, Option.map_some, Option.some.injEq, Prod.mk.injEq] at hout hreport
  have hprotocol := (run_follows_protocol { maxCycles := 5 } namesakes counter.1 counter.2).1
  exact ⟨result, session', hrun, hout.1, hout.2.1, hout.2.2, hreport.1, hreport.2,
    (hprotocol result session' hrun).1⟩

end Engine

end Refactor
