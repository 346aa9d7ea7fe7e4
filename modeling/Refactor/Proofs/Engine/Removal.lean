import Mathlib.Tactic.Common
import Refactor.Node.Build
import Refactor.Proofs.Engine.Draws
import Refactor.Proofs.Engine.Upkeep
import Refactor.Proofs.Visit.Frame

/-!
# Recipes that fail at once

A recipe that fails in its first pass is as if it had not been in the list. The run without it goes
along with the run that has it, turn by turn: the trees are the same but for the objects, the passes are
the same but for the one that failed, and positions after that of the recipe are one less
(`Progress.Shadows`). In the first cycle the failed pass comes in, from then on the recipe is passed over.

A pass that fails has taken stamps and ids from the supply. The two runs may take their stamps from different
supplies, and of the ids the run without the recipe is given those that the failed pass has left: as runs do
not depend on ids that are yet to be made up, it has come to the same by then (`runCycle_shadows_first`).
-/

namespace Refactor

/-- The place that an element had before one was removed at `i`. -/
def skip (i k : Nat) : Nat := if k < i then k else k + 1

theorem skip_ne (i k : Nat) : skip i k ≠ i := by
  unfold skip
  split <;> omega

theorem skip_injective (i : Nat) : Function.Injective (skip i) := by
  intro j k h
  unfold skip at h
  split at h <;> split at h <;> omega

/-! ### Passes and histories -/

/-- What is told of a pass that failed. -/
def Pass.failure (p : Pass) : Option Failure :=
  match p.outcome with
  | .ok _ => none
  | .error e => some ⟨p.recipe.id, p.cycle, e⟩

theorem Pass.failed_eq (p : Pass) : p.failed = p.failure.isSome := by
  unfold failed failure
  cases p.outcome <;> rfl

theorem Pass.changed_of_failed {p : Pass} (h : p.failed = true) : p.changed = false := by
  unfold failed at h
  unfold changed
  cases houtcome : p.outcome with
  | ok n =>
    rw [houtcome] at h
    cases h
  | error error => rfl

/-- The second pass is the first one in a list from which the recipe at `i` was removed. -/
structure Pass.Shadows (i : Nat) (p p' : Pass) : Prop where
  cycle : p'.cycle = p.cycle
  position : p.position = skip i p'.position
  recipe : p'.recipe = p.recipe
  changed : p'.changed = p.changed
  failure : p'.failure = p.failure

/-- The second history is the first one without the passes that were dropped. -/
inductive Histories (i : Nat) (dropped : List Pass) : List Pass → List Pass → Prop
  | split {a b a' b' : List Pass} : List.Forall₂ (Pass.Shadows i) a a' →
      List.Forall₂ (Pass.Shadows i) b b' → Histories i dropped (a ++ dropped ++ b) (a' ++ b')

namespace Histories

section NothingDropped

variable {i : Nat} {h h' : List Pass} (hh : Histories i [] h h')
include hh

theorem position_ne {p : Pass} (hp : p ∈ h) : p.position ≠ i := by
  obtain ⟨ha, hb⟩ := hh
  rw [List.append_nil] at hp
  obtain ⟨p', -, hshadows⟩ := exists_right_of_forall₂ (List.rel_append ha hb) p hp
  rw [hshadows.position]
  exact skip_ne i p'.position

theorem drop (p : Pass) : Histories i [p] (h ++ [p]) h' := by
  obtain ⟨ha, hb⟩ := hh
  have hsplit : Histories i [p] (_ ++ [p] ++ []) (_ ++ []) := split (List.rel_append ha hb) .nil
  rw [List.append_nil, List.append_nil] at hsplit
  rw [List.append_nil]
  exact hsplit

end NothingDropped

variable {i : Nat} {dropped h h' : List Pass} (hh : Histories i dropped h h')
include hh

theorem snoc {p p' : Pass} (hp : p.Shadows i p') :
    Histories i dropped (h ++ [p]) (h' ++ [p']) := by
  obtain ⟨ha, hb⟩ := hh
  rw [List.append_assoc _ _ [p], List.append_assoc _ _ [p']]
  exact .split ha (List.rel_append hb (.cons hp .nil))

theorem mem_of_dropped {p : Pass} (hp : p ∈ dropped) : p ∈ h := by
  obtain ⟨ha, hb⟩ := hh
  exact List.mem_append_left _ (List.mem_append_right _ hp)

theorem any_eq {f f' : Pass → Bool} (hf : ∀ p p', p.Shadows i p' → f' p' = f p)
    (hdropped : ∀ p ∈ dropped, f p = false) : h'.any f' = h.any f := by
  have hany : ∀ {a a' : List Pass}, List.Forall₂ (Pass.Shadows i) a a' → a'.any f' = a.any f := by
    intro a a' ha
    induction ha with
    | nil => rfl
    | cons hp _ ih => rw [List.any_cons, List.any_cons, hf _ _ hp, ih]
  have hnone : dropped.any f = false := by simpa using hdropped
  obtain ⟨ha, hb⟩ := hh
  rw [List.any_append, List.any_append, List.any_append, hany ha, hany hb, hnone, Bool.or_false]

/-- The passes of the shadowed history that changed something, by position. -/
theorem changed_eq (hdropped : ∀ p ∈ dropped, p.changed = false) :
    (h.filter (·.changed)).map (·.position) = ((h'.filter (·.changed)).map (·.position)).map (skip i) := by
  have hpart : ∀ {a a' : List Pass}, List.Forall₂ (Pass.Shadows i) a a' →
      (a.filter (·.changed)).map (·.position) =
        ((a'.filter (·.changed)).map (·.position)).map (skip i) := by
    intro a a' ha
    induction ha with
    | nil => rfl
    | cons hp _ ih =>
      rw [List.filter_cons, List.filter_cons, hp.changed]
      split
      · rw [List.map_cons, List.map_cons, List.map_cons, hp.position, ih]
      · exact ih
  have hnone : dropped.filter (·.changed) = [] := by simpa using hdropped
  obtain ⟨ha, hb⟩ := hh
  rw [List.filter_append, List.filter_append, hnone, List.append_nil, List.filter_append, List.map_append,
    List.map_append, List.map_append, hpart ha, hpart hb]

theorem find?_eq (hdropped : ∀ p ∈ dropped, p.position = i) (k : Nat) :
    (h'.find? (·.position = k)).map (·.recipe.id) =
      (h.find? (·.position = skip i k)).map (·.recipe.id) := by
  have hpart : ∀ {a a' : List Pass}, List.Forall₂ (Pass.Shadows i) a a' →
      (a'.find? (·.position = k)).map (·.recipe.id) =
        (a.find? (·.position = skip i k)).map (·.recipe.id) := by
    intro a a' ha
    induction ha with
    | nil => rfl
    | @cons p p' _ _ hp _ ih =>
      by_cases hk : p'.position = k
      · have hposition : p.position = skip i k := by rw [hp.position, hk]
        rw [List.find?_cons_of_pos (by simpa using hk), List.find?_cons_of_pos (by simpa using hposition),
          Option.map_some, Option.map_some, hp.recipe]
      · have hposition : p.position ≠ skip i k := by
          rw [hp.position]
          exact fun h => hk (skip_injective i h)
        rwa [List.find?_cons_of_neg (by simpa using hk), List.find?_cons_of_neg (by simpa using hposition)]
  have hnone : dropped.find? (·.position = skip i k) = none := by
    rw [List.find?_eq_none]
    intro p hp
    simpa [hdropped p hp] using (skip_ne i k).symm
  obtain ⟨ha, hb⟩ := hh
  rw [List.find?_append, List.find?_append, List.find?_append, hnone, Option.or_none, Option.map_or,
    Option.map_or, hpart ha, hpart hb]

/-- What is told of the passes is the same but for those that were dropped. -/
theorem filterMap_eq {γ : Type} {f : Pass → Option γ} (hf : ∀ p p', p.Shadows i p' → f p' = f p) :
    ∃ l r, h.filterMap f = l ++ dropped.filterMap f ++ r ∧ h'.filterMap f = l ++ r := by
  have hpart : ∀ {a a' : List Pass}, List.Forall₂ (Pass.Shadows i) a a' →
      a'.filterMap f = a.filterMap f := by
    intro a a' ha
    induction ha with
    | nil => rfl
    | cons hp _ ih => rw [List.filterMap_cons, List.filterMap_cons, hf _ _ hp, ih]
  cases hh with
  | @split a b a' b' ha hb =>
    refine ⟨a.filterMap f, b.filterMap f, ?_, ?_⟩
    · rw [List.filterMap_append, List.filterMap_append]
    · rw [List.filterMap_append, hpart ha, hpart hb]

end Histories

/-! ### Turns -/

/-- The second run is the first one, up to here, in a list from which the recipe at `i` was removed. -/
structure Progress.Shadows {κ : Type} (μ : Mirror κ NodeId) (i : Nat) (dropped : List Pass)
    (r r' : Progress) : Prop where
  tree : μ.Nodes r.tree r'.tree
  supply : μ.Supplies r.session.supply r'.session.supply
  cancelled : r'.session.cancelled = r.session.cancelled
  history : Histories i dropped r.history r'.history

namespace Progress.Shadows

variable {κ : Type} {μ : Mirror κ NodeId} {i : Nat} {dropped : List Pass} {r r' : Progress}
  (h : r.Shadows μ i dropped r')
include h

theorem hasFailed (hdropped : ∀ p ∈ dropped, p.position = i) (k : Nat) :
    r'.hasFailed k = r.hasFailed (skip i k) := by
  refine h.history.any_eq (fun p p' hp => ?_) fun p hp => ?_
  · rw [p'.failed_eq, hp.failure, ← p.failed_eq, hp.position]
    simp only [(skip_injective i).eq_iff]
  · simp [hdropped p hp, (skip_ne i k).symm]

theorem changedIn (hdropped : ∀ p ∈ dropped, p.changed = false) (cycle : Nat) :
    r'.changedIn cycle = r.changedIn cycle := by
  refine h.history.any_eq (fun p p' hp => ?_) fun p hp => ?_
  · rw [hp.cycle, hp.changed]
  · rw [hdropped p hp, Bool.and_false]

theorem tell (event event' : Event) : (r.tell event).Shadows μ i dropped (r'.tell event') :=
  { h with }

end Progress.Shadows

/-- Runs over one tree start alike in any two sessions that make up the same ids. -/
theorem Progress.exists_shadows (i : Nat) {tree : Node} {session session' : Session}
    (htree : tree.Predates session.supply.stamp) (htree' : tree.Predates session'.supply.stamp)
    (hids : session'.supply.upcoming = session.supply.upcoming)
    (hcancelled : session'.cancelled = session.cancelled) :
    ∃ μ : Mirror (Nat ⊕ Nat) NodeId, (∀ i, μ.ids i = i) ∧
      Progress.Shadows μ i [] { tree, session } { tree, session := session' } := by
  have hsame : ∀ k, session.supply.ids k = session'.supply.ids k := fun k =>
    congrArg (fun ids => Stream'.get ids k) hids.symm
  refine ⟨Mirror.since (fun i => i) (Nat.zero_lt_of_lt htree.stamp) (Nat.zero_lt_of_lt htree'.stamp),
    fun _ => rfl, Mirror.since_nodes htree htree', ?_, hcancelled, .split .nil .nil⟩
  exact Mirror.since_supplies rfl rfl fun k => by rw [hsame]

namespace Engine

variable {e : Engine} {κ : Type} {μ : Mirror κ NodeId} (hμ : ∀ i, μ.ids i = i) {i : Nat} {dropped : List Pass}
  (hdropped : ∀ p ∈ dropped, p.position = i)

section Turns

include hμ hdropped

/-- **One turn** of a recipe that is in both lists. -/
theorem runRecipe_shadows (cycle : Nat) (recipe : Recipe) (k : Nat) {r r' : Progress}
    (h : r.Shadows μ i dropped r') : Option.Rel (Progress.Shadows μ i dropped)
      (e.runRecipe cycle r (recipe, skip i k)) (e.runRecipe cycle r' (recipe, k)) := by
  have hfuel : e.fuel r'.tree = e.fuel r.tree := by rw [fuel, fuel, h.tree.height]
  have hcontext : (e.context recipe cycle r.session).Mirrored μ false
      (e.context recipe cycle r'.session) :=
    ⟨rfl, rfl, rfl, rfl, rfl, rfl, rfl, h.supply, h.cancelled⟩
  unfold runRecipe
  dsimp only
  rw [h.hasFailed hdropped, hfuel]
  by_cases hskip : (r.hasFailed (skip i k) || decide (recipe.maxCycles < cycle)) = true
  · rw [if_pos hskip, if_pos hskip]
    exact .some h
  · rw [if_neg hskip, if_neg hskip]
    -- Both passes start from mirrored trees, so they end alike.
    have hpass := runPass_mirrored hμ (e.fuel r.tree) recipe.gatedVisitor h.tree _ _ hcontext
    generalize runPass (e.fuel r.tree) recipe.gatedVisitor r.tree (e.context recipe cycle r.session) = o
      at hpass ⊢
    generalize runPass (e.fuel r.tree) recipe.gatedVisitor r'.tree (e.context recipe cycle r'.session) = o'
      at hpass ⊢
    cases hpass with
    | exhausted => exact .none
    | done hn hc =>
      refine .some ⟨hn, hc.supply, hc.cancelled, h.history.snoc ⟨rfl, rfl, rfl, ?_, rfl⟩⟩
      exact congrArg (!·) (h.tree.same_iff hn)
    | failed error hc =>
      exact .some ⟨h.tree, hc.supply, hc.cancelled, h.history.snoc ⟨rfl, rfl, rfl, rfl, rfl⟩⟩

/-- Turns of recipes that stand together in both lists. -/
theorem turns_shadow (cycle : Nat) (recipes : List Recipe) : ∀ (j k : Nat) {r r' : Progress},
    (∀ m < recipes.length, j + m = skip i (k + m)) → r.Shadows μ i dropped r' →
      Option.Rel (Progress.Shadows μ i dropped) ((recipes.zipIdx j).foldlM (e.runRecipe cycle) r)
        ((recipes.zipIdx k).foldlM (e.runRecipe cycle) r') := by
  induction recipes with
  | nil => exact fun _ _ _ _ _ h => .some h
  | cons recipe recipes ih =>
    intro j k r r' hskip h
    have hj : j = skip i k := hskip 0 (Nat.zero_lt_succ _)
    rw [List.zipIdx_cons, List.zipIdx_cons, List.foldlM_cons, List.foldlM_cons]
    refine rel_bind (hj ▸ runRecipe_shadows hμ hdropped cycle recipe k h) fun r1 r1' h1 =>
      ih (j + 1) (k + 1) (fun m hm => ?_) h1
    have := hskip (m + 1) (Nat.succ_lt_succ hm)
    rwa [Nat.add_right_comm, Nat.add_assoc, Nat.add_right_comm k, Nat.add_assoc k]

end Turns

/-! ### Cycles -/

variable (e) in
theorem runCycle_cons (before after : List Recipe) (recipe : Recipe) (cycle : Nat) (r : Progress) :
    e.runCycle (before ++ recipe :: after) cycle r =
      (e.runCycle before cycle r >>= fun r => e.runRecipe cycle r (recipe, before.length)) >>= fun r =>
        (after.zipIdx (before.length + 1)).foldlM (e.runRecipe cycle) r := by
  rw [runCycle, runCycle, List.zipIdx_append, List.foldlM_append, List.zipIdx_cons, bind_assoc]
  simp only [List.foldlM_cons, Nat.zero_add]

variable (e) in
theorem runCycle_append (before after : List Recipe) (cycle : Nat) (r : Progress) :
    e.runCycle (before ++ after) cycle r =
      e.runCycle before cycle r >>= fun r =>
        (after.zipIdx before.length).foldlM (e.runRecipe cycle) r := by
  rw [runCycle, runCycle, List.zipIdx_append, List.foldlM_append, Nat.zero_add]

section Following

variable {recipes recipes' : List Recipe} (hunchanged : ∀ p ∈ dropped, p.changed = false)
include hunchanged

/-- Where a cycle over the one list shadows a cycle over the other, as do the cycles after it. -/
theorem runCycles_rel_succ {left cycle : Nat} {r r' : Progress}
    (hrunning : (e.stoppable && r.session.cancelled) = false)
    (hcancelled : r'.session.cancelled = r.session.cancelled)
    (hcycle : Option.Rel (Progress.Shadows μ i dropped) (e.runCycle recipes cycle r)
      (e.runCycle recipes' cycle r'))
    (hrest : ∀ r r', r.Shadows μ i dropped r' →
      Option.Rel (fun x x' => x.1.Shadows μ i dropped x'.1 ∧ x'.2 = x.2)
        (e.runCycles recipes left (cycle + 1) r) (e.runCycles recipes' left (cycle + 1) r')) :
    Option.Rel (fun x x' => x.1.Shadows μ i dropped x'.1 ∧ x'.2 = x.2)
      (e.runCycles recipes (left + 1) cycle r) (e.runCycles recipes' (left + 1) cycle r') := by
  rw [runCycles, runCycles, hcancelled, hrunning, if_neg Bool.false_ne_true, if_neg Bool.false_ne_true]
  refine rel_bind hcycle fun r1 r1' h1 => ?_
  rw [h1.changedIn hunchanged]
  split
  · exact hrest r1 r1' h1
  · exact .some ⟨h1, rfl⟩

/-- **From cycle to cycle.** If the cycles over two lists shadow each other, so do the runs. -/
theorem runCycles_rel (hcycle : ∀ cycle r r', Progress.Shadows μ i dropped r r' →
      Option.Rel (Progress.Shadows μ i dropped) (e.runCycle recipes cycle r)
        (e.runCycle recipes' cycle r')) (left : Nat) :
    ∀ (cycle : Nat) (r r' : Progress), r.Shadows μ i dropped r' →
      Option.Rel (fun x x' => x.1.Shadows μ i dropped x'.1 ∧ x'.2 = x.2)
        (e.runCycles recipes left cycle r) (e.runCycles recipes' left cycle r') := by
  induction left with
  | zero => exact fun _ _ _ h => .some ⟨h, rfl⟩
  | succ left ih =>
    intro cycle r r' h
    cases hrunning : e.stoppable && r.session.cancelled with
    | true =>
      rw [runCycles, runCycles, h.cancelled, hrunning, if_pos rfl, if_pos rfl]
      exact .some ⟨h.tell _ _, rfl⟩
    | false =>
      exact runCycles_rel_succ hunchanged hrunning h.cancelled (hcycle cycle r r' h) (ih (cycle + 1))

end Following

section Cycles

variable {before after : List Recipe} {recipe : Recipe}
include hμ

/-- The turns before that of the recipe. -/
theorem before_shadows (hdropped : ∀ p ∈ dropped, p.position = before.length) (cycle : Nat)
    {r r' : Progress} (h : r.Shadows μ before.length dropped r') :
    Option.Rel (Progress.Shadows μ before.length dropped) (e.runCycle before cycle r)
      (e.runCycle before cycle r') := by
  refine turns_shadow hμ hdropped cycle before 0 0 (fun m hm => ?_) h
  rw [Nat.zero_add, skip, if_pos hm]

/-- The turns after it. -/
theorem after_shadows (hdropped : ∀ p ∈ dropped, p.position = i) (cycle : Nat)
    {r r' : Progress} (h : r.Shadows μ i dropped r') :
    Option.Rel (Progress.Shadows μ i dropped)
      ((after.zipIdx (i + 1)).foldlM (e.runRecipe cycle) r)
      ((after.zipIdx i).foldlM (e.runRecipe cycle) r') := by
  refine turns_shadow hμ hdropped cycle after (i + 1) i (fun m _ => ?_) h
  rw [skip, if_neg (by omega)]
  omega

/-- **A later cycle**, in which the recipe is passed over. -/
theorem runCycle_shadows {p : Pass} (hposition : p.position = before.length) (hfailed : p.failed = true)
    (cycle : Nat) {r r' : Progress} (h : r.Shadows μ before.length [p] r') :
    Option.Rel (Progress.Shadows μ before.length [p]) (e.runCycle (before ++ recipe :: after) cycle r)
      (e.runCycle (before ++ after) cycle r') := by
  have hdropped : ∀ q ∈ [p], q.position = before.length := by simpa using hposition
  rw [runCycle_cons, runCycle_append, bind_assoc]
  refine rel_bind (before_shadows hμ hdropped cycle h) fun r1 r1' h1 => ?_
  have hover : r1.hasFailed before.length = true := by
    have hmem := h1.history.mem_of_dropped (List.mem_singleton_self p)
    exact List.any_eq_true.2 ⟨p, hmem, by simp [hposition, hfailed]⟩
  have hskip : e.runRecipe cycle r1 (recipe, before.length) = some r1 := by
    simp only [runRecipe, hover, Bool.true_or, if_pos]
  rw [hskip]
  exact after_shadows hμ hdropped cycle h1

/-- **The first cycle**, in which the recipe fails. The other run has gone on with the ids that are left
when it has failed, and its turns before that came to the same. -/
theorem runCycle_shadows_first (after : List Recipe) {cycle : Nat} {r r1 r' : Progress} {s s1 : Supply}
    {error : VisitError} {c : Context} (hcycles : cycle ≤ recipe.maxCycles)
    (hbefore : e.runCycle before cycle r = some r1)
    (hresupplied : e.runCycle before cycle (r.resupplied s) = some (r1.resupplied s1))
    (hs1 : r1.session.supply.Starts [] c.session.supply.upcoming s1)
    (hfail : runPass (e.fuel r1.tree) recipe.gatedVisitor r1.tree (e.context recipe cycle r1.session) =
      .failed error c)
    (hflag : c.session.cancelled = r1.session.cancelled)
    (hmade : r1.tree.Predates r1.session.supply.stamp)
    (h : (r.resupplied s).Shadows μ before.length [] r') :
    ∃ ν : Mirror (κ ⊕ Nat) NodeId, (∀ i, ν.ids i = i) ∧ Option.Rel
      (Progress.Shadows ν before.length [⟨cycle, before.length, recipe, r1.tree, .error error⟩])
      (e.runCycle (before ++ recipe :: after) cycle r) (e.runCycle (before ++ after) cycle r') := by
  have hshadows := before_shadows (e := e) hμ (by simp) cycle h
  have hstamps : r1.session.supply.stamp ≤ c.session.supply.stamp :=
    (runPass_frugal _ _ _ _ _ (congrArg Outcome.context? hfail)).stamp
  obtain ⟨count, hcount⟩ := Nat.exists_eq_add_of_le hstamps
  have hstart : 0 < r1.session.supply.stamp := Nat.zero_lt_of_lt hmade.stamp
  have hν : ∀ i, (μ.skip hstart count).ids i = i := hμ
  refine ⟨μ.skip hstart count, hν, ?_⟩
  rw [runCycle_cons, runCycle_append, bind_assoc, hbefore]
  rw [hresupplied] at hshadows
  generalize e.runCycle before cycle r' = x' at hshadows ⊢
  cases hshadows with
  | @some _ r1' h1 =>
    have hfresh : r1.hasFailed before.length = false := by
      refine List.any_eq_false.2 fun q hq => ?_
      simp [h1.history.position_ne hq]
    have hturn : e.runRecipe cycle r1 (recipe, before.length) =
        some (r1.record ⟨cycle, before.length, recipe, r1.tree, .error error⟩ c) := by
      unfold runRecipe
      dsimp only
      rw [hfresh, Bool.false_or, if_neg (by simpa using hcycles), hfail]
    -- The objects of the failed pass stand for nothing.
    have hids : s1.upcoming = c.session.supply.upcoming := hs1.upcoming
    have hsupply : (μ.skip hstart count).Supplies c.session.supply r1'.session.supply :=
      h1.supply.skip hs1.stamp hcount fun i => by
        rw [← h1.supply.ids i]
        exact congrArg (fun ids => μ.ids (.minted (ids.get i))) hids.symm
    show Option.Rel _ (e.runRecipe cycle r1 (recipe, before.length) >>= _) _
    rw [hturn]
    refine after_shadows hν (by simp) cycle ⟨h1.tree.skip hmade, hsupply, ?_, h1.history.drop _⟩
    exact h1.cancelled.trans hflag.symm

/-- **The cycles that follow** the first one. -/
theorem runCycles_shadow {p : Pass} (hposition : p.position = before.length) (hfailed : p.failed = true)
    (left : Nat) : ∀ (cycle : Nat) (r r' : Progress), r.Shadows μ before.length [p] r' →
      Option.Rel (fun x x' => x.1.Shadows μ before.length [p] x'.1 ∧ x'.2 = x.2)
        (e.runCycles (before ++ recipe :: after) left cycle r)
        (e.runCycles (before ++ after) left cycle r') :=
  runCycles_rel (by simpa using Pass.changed_of_failed hfailed)
    (fun cycle _ _ h => runCycle_shadows hμ hposition hfailed cycle h) left

end Cycles

end Engine

/-! ### Runs -/

/-- The second result is the first one but for a failure that it lacks. -/
structure RunResult.Lacks (failure : Failure) (a b : RunResult) : Prop where
  content : b.tree.content = a.tree.content
  markers : b.markers = a.markers
  changedRecipes : b.changedRecipes = a.changedRecipes
  cycles : b.cycles = a.cycles
  termination : b.termination = a.termination
  failures : ∃ l r, a.failures = l ++ failure :: r ∧ b.failures = l ++ r

/-- The recipes that changed the tree are the same if none of the passes that were dropped did. -/
theorem RunResult.changedRecipes_of_histories {i : Nat} {dropped : List Pass}
    (hposition : ∀ p ∈ dropped, p.position = i) (hunchanged : ∀ p ∈ dropped, p.changed = false)
    {a b : RunResult} (h : Histories i dropped a.history b.history) :
    b.changedRecipes = a.changedRecipes := by
  have hpositions := h.changed_eq hunchanged
  have hfind := h.find?_eq hposition
  simp only [changedRecipes, changedPositions, hpositions, hfind,
    eraseDups_map (skip_injective i), List.filterMap_map]
  rfl

/-- What is said of runs that shadow each other at their end. -/
theorem RunResult.lacks_of_shadows {κ : Type} {μ : Mirror κ NodeId} (hμ : ∀ i, μ.ids i = i) {p : Pass}
    {error : VisitError} (hp : p.outcome = .error error) {r r' : Progress}
    (h : r.Shadows μ p.position [p] r') (cycles : Nat) (termination : Termination) :
    RunResult.Lacks ⟨p.recipe.id, p.cycle, error⟩ ⟨r.tree, r.history, cycles, termination⟩
      ⟨r'.tree, r'.history, cycles, termination⟩ := by
  have hcontent := h.tree.content hμ
  have hfailed : p.failed = true := by rw [Pass.failed, hp]
  refine ⟨hcontent, congrArg Tree.collectMarkers hcontent, ?_, rfl, rfl, ?_⟩
  · exact changedRecipes_of_histories (by simp) (by simpa using Pass.changed_of_failed hfailed) h.history
  · obtain ⟨l, l', hl, hl'⟩ := h.history.filterMap_eq fun q q' hq => hq.failure
    refine ⟨l, l', hl.trans ?_, hl'⟩
    simp [Pass.failure, hp]

namespace Engine

/-- **A recipe that fails at once** leaves no trace in a run but its failure. The run without it is compared
with it in any session that has the same flag, has not given out the stamps of the tree, and makes up the
ids that the first run does: those of the turns before the pass that fails, and then those that are left
after it. -/
theorem run_lacks {e : Engine} {before after : List Recipe} {recipe : Recipe} {tree : Node}
    {session : Session} {r : Progress} {error : VisitError} {c : Context}
    (hrunning : (e.stoppable && session.cancelled) = false) (hcycles : 1 ≤ recipe.maxCycles)
    (hbefore : e.runCycle before 1 { tree, session } = some r)
    (hfail : runPass (e.fuel r.tree) recipe.gatedVisitor r.tree (e.context recipe 1 r.session) =
      .failed error c)
    (hflag : c.session.cancelled = r.session.cancelled) (htree : tree.Predates session.supply.stamp) :
    ∃ drawn wasted, session.supply.Draws drawn r.session.supply ∧
      r.session.supply.Draws wasted c.session.supply ∧
      ∀ session' : Session, tree.Predates session'.supply.stamp → session'.cancelled = session.cancelled →
        session'.supply.upcoming = drawn ++ₛ c.session.supply.upcoming →
        Option.Rel (fun a b => a.1.Lacks ⟨recipe.id, 1, error⟩ b.1)
          (e.run (before ++ recipe :: after) tree session) (e.run (before ++ after) tree session') := by
  obtain ⟨drawn, hdrawn, hspared⟩ := turns_frugal 1 _ hbefore
  obtain ⟨wasted, hwasted, -⟩ := runPass_frugal _ _ _ _ _ (congrArg Outcome.context? hfail)
  refine ⟨drawn, wasted, hdrawn, hwasted, fun session' htree' hcancelled hids => ?_⟩
  have hmade := runCycle_made (Nat.le_refl 1) (Nat.le_max_right _ _) htree hbefore
  -- The first run as it would be with the ids of the second.
  obtain ⟨s1, hs1, hresupplied⟩ := hspared _ ⟨session.supply.stamp, session'.supply.ids⟩ ⟨rfl, hids⟩
  obtain ⟨μ, hμ, hstart⟩ : ∃ μ : Mirror (Nat ⊕ Nat) NodeId, (∀ i, μ.ids i = i) ∧
      (Progress.resupplied { tree, session } ⟨session.supply.stamp, session'.supply.ids⟩).Shadows μ
        before.length [] { tree, session := session' } :=
    Progress.exists_shadows before.length htree htree' rfl hcancelled
  obtain ⟨ν, hν, hfirst⟩ := runCycle_shadows_first hμ after hcycles hbefore hresupplied hs1 hfail hflag hmade
    hstart
  obtain ⟨left, hleft⟩ : ∃ left, max e.maxCycles 1 = left + 1 := ⟨max e.maxCycles 1 - 1, by omega⟩
  have hunchanged : ∀ q ∈ [(⟨1, before.length, recipe, r.tree, .error error⟩ : Pass)], q.changed = false := by
    simpa using Pass.changed_of_failed rfl
  have hall := runCycles_rel_succ hunchanged hrunning hcancelled hfirst
    (runCycles_shadow hν rfl rfl left (1 + 1))
  unfold run
  rw [hleft]
  refine rel_bind hall fun ⟨r1, cycles, termination⟩ ⟨r1', cycles', termination'⟩ ⟨h, heq⟩ => ?_
  obtain ⟨rfl, rfl⟩ := Prod.mk.inj heq
  exact .some (RunResult.lacks_of_shadows (p := ⟨1, before.length, recipe, r.tree, .error error⟩) hν rfl h
    cycles' termination')

/-- Counts literals up. -/
def counting : Recipe where
  id := "counting"
  visitor := .plain "counting" (.look fun p =>
    if p.current.kind = .literal then .edit (.addInt 1) .done else .walkOn)

/-- Puts a literal into blocks, in the first cycle only. -/
def capped : Recipe where
  id := "capped"
  visitor := .plain "capped" (.look fun p =>
    if p.current.kind = .block then .edit (.append (.fresh (.literal (.int 7)))) .done else .done)
  maxCycles := 1

/-- Makes up an id, leaves visitors at literals and for the whole tree, and fails. -/
def littering : Recipe where
  id := "littering"
  visitor := .plain "littering" (.look fun p =>
    if p.current.kind = .literal then
      .edit (.replace (.fresh (.literal (.int 9)))) (.defer counting.visitor .done)
    else .walk p.current.kind (.queue counting.visitor (.fail (.unexpectedNode .block .literal))))

/-- A literal for them. -/
def five : Draft := .block [.fresh (.literal (.int 5))]

/-- The error of a pass that failed, whether the run is to stop then, and the next id. -/
def fault {α : Type} : Outcome α → Option (VisitError × Bool × Nat)
  | .failed error c => some (error, c.session.cancelled, c.session.supply.ids 0)
  | _ => none

theorem fault_eq_some {α : Type} {o : Outcome α} {error : VisitError} {cancelled : Bool} {next : Nat}
    (h : fault o = some (error, cancelled, next)) :
    ∃ c, o = .failed error c ∧ c.session.cancelled = cancelled ∧ c.session.supply.ids 0 = next := by
  cases o with
  | failed e c =>
    cases h
    exact ⟨c, rfl, rfl, rfl⟩
  | _ => cases h

/-- The second run takes its stamps from further on, and the id that the pass which failed has made up is
not among its ids. -/
theorem run_lacks_littering :
    ∃ (ids : Nat → Nat) (a b : RunResult × Session), ids 0 = 3 ∧
      run {} [counting, littering, capped] five.placed.1 five.placed.2 = some a ∧
      run {} [counting, capped] five.placed.1 { five.placed.2 with supply := ⟨100, ids⟩ } = some b ∧
      a.1.cycles = 3 ∧ a.1.changedRecipes = ["counting", "capped"] ∧
      a.1.Lacks ⟨"littering", 1, .unexpectedNode .block .literal⟩ b.1 := by
  have hcycles : 1 ≤ littering.maxCycles := by decide
  have hlater : five.placed.1.Predates 100 := five.placed_predates.mono (by decide +kernel)
  have hpass : (runCycle {} [counting] 1 ⟨five.placed.1, [], five.placed.2⟩).map (fun r =>
      (fault (runPass (fuel {} r.tree) littering.gatedVisitor r.tree (context {} littering 1 r.session)),
        r.session.cancelled, r.session.supply.ids 0)) =
      some (some (.unexpectedNode .block .literal, false, 3), false, 2) := by
    decide +kernel
  obtain ⟨r, hbefore, hout⟩ := Option.map_eq_some_iff.1 hpass
  simp only [Prod.mk.injEq] at hout
  obtain ⟨hfault, hcancelled, hnext⟩ := hout
  obtain ⟨c, hfail, hflag, hleft⟩ := fault_eq_some hfault
  obtain ⟨drawn, wasted, hdrawn, -, hlacks⟩ := @run_lacks _ _ [capped] _ _ _ _ _ _ rfl hcycles hbefore hfail
    (hflag.trans hcancelled.symm) five.placed_predates
  -- The turn before that of the recipe has made up no id.
  have hnone : drawn = [] := by
    have hlength : (drawn ++ₛ r.session.supply.upcoming).get drawn.length = r.session.supply.ids 0 :=
      Stream'.get_append_length _ _
    rw [← hdrawn.upcoming, hnext] at hlength
    have hplaced : five.placed.2.supply.upcoming.get drawn.length = drawn.length + 2 := rfl
    exact List.length_eq_zero_iff.1 (by omega)
  subst hnone
  have hrel := hlacks { five.placed.2 with supply := ⟨100, c.session.supply.ids⟩ } hlater rfl rfl
  have hrun : (run {} [counting, littering, capped] five.placed.1 five.placed.2).map
      (fun a => (a.1.cycles, a.1.changedRecipes)) = some (3, ["counting", "capped"]) := by
    decide +kernel
  obtain ⟨a, ha, hout⟩ := Option.map_eq_some_iff.1 hrun
  rw [List.singleton_append, List.singleton_append, ha] at hrel
  generalize hb : run {} [counting, capped] five.placed.1
    { five.placed.2 with supply := ⟨100, c.session.supply.ids⟩ } = x at hrel
  cases hrel with
  | some hlacks =>
    simp only [Prod.mk.injEq] at hout
    exact ⟨_, a, _, hleft, ha, hb, hout.1, hout.2, hlacks⟩

end Engine

end Refactor
