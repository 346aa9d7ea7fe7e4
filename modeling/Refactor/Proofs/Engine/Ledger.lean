import Refactor.Proofs.Engine.Protocol
import Refactor.Proofs.Engine.Removal

/-!
# The ledger of a run

What is told of a run is read off its history. To make a run there is no need to keep one: it is enough to
note down which positions have changed the tree, which have failed and how, and whether the cycle under way
has changed anything (`Ledger`). A run that keeps a ledger and no history takes the same turns, and reports
the same in the end (`tally_eq_run`).
-/

namespace Refactor

/-- What is reported of a run. -/
structure Report where
  tree : Node
  markers : List (NodeId × Marker)
  changedRecipes : List String
  failures : List Failure
  cycles : Nat
  termination : Termination

def RunResult.report (r : RunResult) : Report where
  tree := r.tree
  markers := r.markers
  changedRecipes := r.changedRecipes
  failures := r.failures
  cycles := r.cycles
  termination := r.termination

/-- What a run notes down. -/
structure Ledger where
  current : Node
  /-- The positions that have changed the tree, in the order of their first change. -/
  changed : List Nat := []
  failed : List Nat := []
  failures : List Failure := []
  /-- Whether the cycle under way has changed the tree. -/
  cycleChanged : Bool := false
  session : Session

namespace Ledger

def tell (l : Ledger) (e : Event) : Ledger := { l with session := l.session.tell [.event e] }

/-- The recipe at that position has made another tree. -/
def noteChange (l : Ledger) (position : Nat) (next : Node) : Ledger :=
  { l with
    current := next
    changed := if l.changed.contains position then l.changed else l.changed ++ [position]
    cycleChanged := true }

/-- The recipe at that position has failed. -/
def noteFailure (l : Ledger) (position : Nat) (failure : Failure) : Ledger :=
  { l with
    failed := l.failed.insert position
    failures := l.failures ++ [failure] }

end Ledger

namespace Engine

/-- Makes one pass of the recipe at that position, unless it has failed before or has had its cycles. If the
pass comes back with the same object, the tree stays as it was. -/
def tallyRecipe (e : Engine) (cycle : Nat) (l : Ledger) (item : Recipe × Nat) : Option Ledger :=
  let (recipe, position) := item
  if l.failed.contains position || recipe.maxCycles < cycle then some l
  else
    match runPass (e.fuel l.current) recipe.gatedVisitor l.current (e.context recipe cycle l.session) with
    | .done next c =>
      let l := { l with session := c.session }
      some <|
        if next.same l.current then l.tell (.passUnchanged recipe.id cycle)
        else (l.noteChange position next).tell (.passChanged recipe.id cycle c.visited)
    | .failed error c =>
      let l := { l with session := c.session }
      some ((l.noteFailure position ⟨recipe.id, cycle, error⟩).tell (.passFailed recipe.id cycle error))
    | .exhausted => none

/-- Lets every recipe make its pass. -/
def tallyCycle (e : Engine) (recipes : List Recipe) (cycle : Nat) (l : Ledger) : Option Ledger :=
  recipes.zipIdx.foldlM (e.tallyRecipe cycle) { l with cycleChanged := false }

/-- Runs so many cycles at most, of which `cycle` is the next. -/
def tallyCycles (e : Engine) (recipes : List Recipe) :
    Nat → Nat → Ledger → Option (Ledger × Nat × Termination)
  | 0, cycle, l => some (l, cycle - 1, .cycleLimit)
  | left + 1, cycle, l =>
    if e.stoppable && l.session.cancelled then
      some (l.tell (.cancelledBefore cycle), cycle - 1, .cancelled)
    else do
      let l ← e.tallyCycle recipes cycle l
      if l.cycleChanged then e.tallyCycles recipes left (cycle + 1) l
      else some (l, cycle, .converged)

/-- A run that keeps a ledger and no history. -/
def tally (e : Engine) (recipes : List Recipe) (tree : Node) (session : Session) :
    Option (Report × Session) := do
  let (l, cycles, termination) ← e.tallyCycles recipes (max e.maxCycles 1) 1 { current := tree, session }
  let report : Report :=
    { tree := l.current
      markers := l.current.content.collectMarkers
      changedRecipes := l.changed.filterMap fun i => recipes[i]?.map (·.id)
      failures := l.failures
      cycles
      termination }
  return (report, l.session.tell (closing termination cycles))

end Engine

/-! ### What is noted down is what the history tells -/

/-- The positions of the passes that changed the tree, each once. -/
def changedAt (history : List Pass) : List Nat :=
  ((history.filter (·.changed)).map (·.position)).eraseDups

theorem changedAt_snoc (history : List Pass) (p : Pass) :
    changedAt (history ++ [p]) = if p.changed && !(changedAt history).contains p.position
      then changedAt history ++ [p.position] else changedAt history := by
  unfold changedAt
  cases hp : p.changed with
  | false => simp [hp]
  | true =>
    rw [List.filter_append, List.map_append, List.eraseDups_append]
    by_cases hmem : p.position ∈ (history.filter (·.changed)).map (·.position)
    · simp [hp, List.removeAll, hmem]
    · simp [hp, List.removeAll, hmem, List.eraseDups_cons]

/-- The ledger holds what the run under way has come to by its history. -/
structure Ledger.Keeps (recipes : List Recipe) (cycle : Nat) (l : Ledger) (r : Progress) : Prop where
  current : l.current = r.tree
  changed : l.changed = changedAt r.history
  failed : ∀ i, l.failed.contains i = r.hasFailed i
  failures : l.failures = r.history.filterMap Pass.failure
  cycleChanged : l.cycleChanged = r.changedIn cycle
  session : l.session = r.session
  made : r.tree.Predates r.session.supply.stamp
  recipe : ∀ p ∈ r.history, recipes[p.position]? = some p.recipe
  past : ∀ p ∈ r.history, p.cycle ≤ cycle

section Keeps

variable {recipes : List Recipe} {cycle : Nat} {l l' : Ledger} {r : Progress}

/-- **One pass** that is noted down. -/
theorem Ledger.Keeps.record (h : l.Keeps recipes cycle r) {p : Pass} {c : Context} (hcycle : p.cycle = cycle)
    (hrecipe : recipes[p.position]? = some p.recipe) (hcurrent : l'.current = p.output)
    (hchanged : l'.changed = if p.changed && !l.changed.contains p.position then l.changed ++ [p.position]
      else l.changed)
    (hfailed : ∀ i, l'.failed.contains i = (l.failed.contains i || (decide (p.position = i) && p.failed)))
    (hfailures : l'.failures = l.failures ++ p.failure.toList)
    (hcycleChanged : l'.cycleChanged = (l.cycleChanged || p.changed))
    (hsession : l'.session = (r.record p c).session) (hmade : p.output.Predates c.session.supply.stamp) :
    l'.Keeps recipes cycle (r.record p c) where
  current := hcurrent
  changed := by rw [hchanged, h.changed, Progress.record, changedAt_snoc]
  failed i := by rw [hfailed, h.failed]; simp [Progress.hasFailed, Progress.record]
  failures := by
    rw [hfailures, h.failures, Progress.record, List.filterMap_append, List.filterMap_cons]
    cases p.failure <;> rfl
  cycleChanged := by rw [hcycleChanged, h.cycleChanged]; simp [Progress.changedIn, Progress.record, hcycle]
  session := hsession
  made := hmade
  recipe := List.forall_mem_append.2 ⟨h.recipe, List.forall_mem_singleton.2 hrecipe⟩
  past := List.forall_mem_append.2 ⟨h.past, List.forall_mem_singleton.2 (Nat.le_of_eq hcycle)⟩

/-- A new cycle starts. -/
theorem Ledger.Keeps.next (h : l.Keeps recipes cycle r) :
    Ledger.Keeps recipes (cycle + 1) { l with cycleChanged := false } r where
  current := h.current
  changed := h.changed
  failed := h.failed
  failures := h.failures
  cycleChanged := by
    refine (List.any_eq_false.2 fun p hp => ?_).symm
    have := h.past p hp
    simp only [Bool.and_eq_true, decide_eq_true_eq]
    omega
  session := h.session
  made := h.made
  recipe := h.recipe
  past p hp := Nat.le_succ_of_le (h.past p hp)

namespace Engine

variable {e : Engine}

/-- **One turn.** -/
theorem tallyRecipe_keeps {position : Nat} {recipe : Recipe} (hget : recipes[position]? = some recipe)
    (h : l.Keeps recipes cycle r) : Option.Rel (Ledger.Keeps recipes cycle)
      (e.tallyRecipe cycle l (recipe, position)) (e.runRecipe cycle r (recipe, position)) := by
  unfold tallyRecipe runRecipe
  dsimp only
  rw [h.failed, h.current, h.session]
  by_cases hskip : (r.hasFailed position || decide (recipe.maxCycles < cycle)) = true
  · rw [if_pos hskip, if_pos hskip]
    exact .some h
  · rw [if_neg hskip, if_neg hskip]
    cases hpass : runPass (e.fuel r.tree) recipe.gatedVisitor r.tree (e.context recipe cycle r.session) with
    | done n c =>
      have hsound : (e.context recipe cycle r.session).Sound (fun _ => True) fun _ => True :=
        ⟨fun _ _ => trivial, fun _ _ v _ => Visitor.within_any _ v, fun v _ => Visitor.within_any _ v⟩
      have hkept := runPass_upholds maintains_true _ (Visitor.within_any _ recipe.gatedVisitor) r.tree n _ c
        hsound h.made trivial hpass
      dsimp only
      by_cases hsame : n.same r.tree = true
      · -- The same stamp is the same object, so the tree that stays is the one that came back.
        have hself : n = r.tree := hkept.stems.eq_of_stamp h.made (by simpa [Node.same] using hsame)
        have hchanged : (Pass.mk cycle position recipe r.tree (.ok n)).changed = false := by
          simp [Pass.changed, hsame]
        rw [if_pos hsame]
        refine .some (h.record rfl hget hself.symm ?_ ?_ ?_ ?_ ?_ hkept.made)
        · rw [hchanged]
          rfl
        · intro i
          simp [Pass.failed, Ledger.tell]
        · exact (List.append_nil _).symm
        · rw [hchanged, Bool.or_false]
          rfl
        · simp [Progress.record, Pass.report, hchanged, Ledger.tell]
      · have hchanged : (Pass.mk cycle position recipe r.tree (.ok n)).changed = true := by
          simpa [Pass.changed] using hsame
        rw [if_neg hsame]
        refine .some (h.record rfl hget rfl ?_ ?_ ?_ ?_ ?_ hkept.made)
        · simp [hchanged, Ledger.tell, Ledger.noteChange]
        · intro i
          simp [Pass.failed, Ledger.tell, Ledger.noteChange]
        · exact (List.append_nil _).symm
        · rw [hchanged, Bool.or_true]
          rfl
        · simp [Progress.record, Pass.report, hchanged, Ledger.tell, Ledger.noteChange]
    | failed error c =>
      have hmade : r.tree.Predates c.session.supply.stamp :=
        h.made.mono (runPass_frugal _ _ _ _ _ (congrArg Outcome.context? hpass)).stamp
      refine .some (h.record rfl hget rfl rfl ?_ rfl (Bool.or_false _).symm rfl hmade)
      intro i
      simp [Pass.failed, Ledger.tell, Ledger.noteFailure, Bool.or_comm, eq_comm]
    | exhausted => exact .none

/-- **One cycle.** -/
theorem tallyCycle_keeps (h : l.Keeps recipes cycle r) : Option.Rel (Ledger.Keeps recipes (cycle + 1))
    (e.tallyCycle recipes (cycle + 1) l) (e.runCycle recipes (cycle + 1) r) := by
  have hfold : ∀ (items : List (Recipe × Nat)), (∀ item ∈ items, recipes[item.2]? = some item.1) →
      ∀ (l : Ledger) (r : Progress), l.Keeps recipes (cycle + 1) r →
      Option.Rel (Ledger.Keeps recipes (cycle + 1)) (items.foldlM (e.tallyRecipe (cycle + 1)) l)
        (items.foldlM (e.runRecipe (cycle + 1)) r) := by
    intro items
    induction items with
    | nil => exact fun _ l r h => .some h
    | cons item items ih =>
      intro hitems l r h
      obtain ⟨hitem, hitems⟩ := List.forall_mem_cons.1 hitems
      rw [List.foldlM_cons, List.foldlM_cons]
      exact rel_bind (tallyRecipe_keeps hitem h) (ih hitems)
  exact hfold _ (fun item hitem => List.mem_zipIdx_iff_getElem?.1 hitem) _ r h.next

/-- **Cycle after cycle.** -/
theorem tallyCycles_keeps (left : Nat) : ∀ (cycle : Nat) (l : Ledger) (r : Progress),
    l.Keeps recipes cycle r → Option.Rel
      (fun x x' => (∃ cycle, x.1.Keeps recipes cycle x'.1) ∧ x'.2 = x.2)
      (e.tallyCycles recipes left (cycle + 1) l) (e.runCycles recipes left (cycle + 1) r) := by
  induction left with
  | zero => exact fun cycle l r h => .some ⟨⟨cycle, h⟩, rfl⟩
  | succ left ih =>
    intro cycle l r h
    rw [tallyCycles, runCycles, h.session]
    by_cases hstop : (e.stoppable && r.session.cancelled) = true
    · rw [if_pos hstop, if_pos hstop]
      refine .some ⟨⟨cycle, { h with session := ?_ }⟩, rfl⟩
      rw [Ledger.tell, Progress.tell, h.session]
    · rw [if_neg hstop, if_neg hstop]
      refine rel_bind (tallyCycle_keeps h) fun l1 r1 h1 => ?_
      -- The flag of the cycle is set if some pass of its history changed the tree.
      rw [h1.cycleChanged]
      by_cases hchanged : r1.changedIn (cycle + 1) = true
      · rw [if_pos hchanged, if_pos hchanged]
        exact ih (cycle + 1) l1 r1 h1
      · rw [if_neg hchanged, if_neg hchanged]
        exact .some ⟨⟨cycle + 1, h1⟩, rfl⟩

/-- **A ledger is enough.** For a tree that is older than what the supply gives out, the run that keeps a
ledger ends if and only if the run that keeps its history does, reports the same and leaves the same
session. -/
theorem tally_eq_run (e : Engine) (recipes : List Recipe) {tree : Node} {session : Session}
    (htree : tree.Predates session.supply.stamp) :
    e.tally recipes tree session =
      (e.run recipes tree session).map fun out => (out.1.report, out.2) := by
  have hstart : Ledger.Keeps recipes 0 { current := tree, session } { tree, session } :=
    ⟨rfl, rfl, fun _ => rfl, rfl, rfl, rfl, htree, by simp, by simp⟩
  have hcycles := tallyCycles_keeps (e := e) (max e.maxCycles 1) 0 _ _ hstart
  unfold tally run
  generalize e.tallyCycles recipes (max e.maxCycles 1) (0 + 1) { current := tree, session } = x at hcycles ⊢
  generalize e.runCycles recipes (max e.maxCycles 1) (0 + 1) { tree, session } = x' at hcycles ⊢
  cases hcycles with
  | none => rfl
  | @some x x' h =>
    obtain ⟨l, cycles, termination⟩ := x
    obtain ⟨r, cycles', termination'⟩ := x'
    obtain ⟨⟨cycle, hkeeps⟩, heq⟩ := h
    obtain ⟨rfl, rfl⟩ := Prod.mk.inj heq
    let result : RunResult := ⟨r.tree, r.history, cycles', termination'⟩
    -- The positions are noted as they change, and turned into ids only here.
    have hids : result.changedRecipes = l.changed.filterMap fun i => recipes[i]?.map (·.id) := by
      rw [hkeeps.changed]
      exact filterMap_eq_of_map_some (RunResult.map_some_changedRecipes hkeeps.recipe)
    have hreport : result.report = ⟨l.current, l.current.content.collectMarkers,
        l.changed.filterMap fun i => recipes[i]?.map (·.id), l.failures, cycles', termination'⟩ := by
      rw [← hids, hkeeps.current, hkeeps.failures]
      rfl
    have hsession : l.session = r.session := hkeeps.session
    show some (_, l.session.tell _) = some (result.report, r.session.tell _)
    rw [hreport, hsession]

end Engine

end Keeps

end Refactor
