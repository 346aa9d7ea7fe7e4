import Refactor.Proofs.Engine.Removal
import Refactor.Proofs.Engine.Run

/-!
# Runs over several trees

Nothing passes from the run over one tree to the runs over the trees after it but a request to stop and what
is left of the supply. So as long as there is no such request, every tree comes to what it comes to on its
own with the ids that it makes up (`Share.Owned`), wherever it stands among the others (`runAll_of_shares`),
and once there is one, the trees that are left are handed back (`runAll_stopped`).

What a tree comes to on its own is compared up to the objects: the run over it may take its stamps from
any supply that has not given out those of the tree.
-/

namespace Refactor

/-- What is reported of the two runs is the same. Their trees are the same but for the objects. -/
structure RunResult.Alike (a b : RunResult) : Prop where
  content : b.tree.content = a.tree.content
  markers : b.markers = a.markers
  changedRecipes : b.changedRecipes = a.changedRecipes
  failures : b.failures = a.failures
  cycles : b.cycles = a.cycles
  termination : b.termination = a.termination

namespace RunResult

/-- Runs in which the same passes were made are reported in the same way. -/
theorem alike_of_shadows {κ : Type} {μ : Mirror κ NodeId} (hμ : ∀ i, μ.ids i = i) {i : Nat} {r r' : Progress}
    (h : r.Shadows μ i [] r') (cycles : Nat) (termination : Termination) :
    Alike ⟨r.tree, r.history, cycles, termination⟩ ⟨r'.tree, r'.history, cycles, termination⟩ := by
  have hcontent := h.tree.content hμ
  obtain ⟨before, after, hfailures, hfailures'⟩ := h.history.filterMap_eq fun q q' hq => hq.failure
  rw [List.filterMap_nil, List.append_nil] at hfailures
  exact ⟨hcontent, congrArg Tree.collectMarkers hcontent,
    changedRecipes_of_histories (by simp) (by simp) h.history, hfailures'.trans hfailures.symm, rfl, rfl⟩

end RunResult

/-- A session in which the tree may be run with those ids: it is older than what the supply gives out, and
the requests to stop are as said. -/
structure Session.Suits (session : Session) (tree : Node) (ids : Stream' Nat) (cancelled : Bool) : Prop where
  made : tree.Predates session.supply.stamp
  ids : session.supply.upcoming = ids
  cancelled : session.cancelled = cancelled

namespace Engine

variable {e : Engine} {recipes : List Recipe}

/-! ### One tree -/

/-- **Two runs over one tree** come to the same. -/
theorem run_alike {tree : Node} {session alone : Session} (htree : tree.Predates session.supply.stamp)
    (h : alone.Suits tree session.supply.upcoming session.cancelled) :
    Option.Rel (fun a b => a.1.Alike b.1 ∧ b.2.supply.upcoming = a.2.supply.upcoming ∧
        b.2.cancelled = a.2.cancelled) (e.run recipes tree session) (e.run recipes tree alone) := by
  obtain ⟨μ, hμ, hstart⟩ := Progress.exists_shadows recipes.length htree h.made h.ids h.cancelled
  have hcycles := runCycles_rel (e := e) (by simp) (fun cycle _ _ => before_shadows hμ (by simp) cycle)
    (max e.maxCycles 1) 1 _ _ hstart
  refine rel_bind hcycles fun ⟨r, cycles, termination⟩ ⟨r', cycles', termination'⟩ ⟨hr, heq⟩ => ?_
  obtain ⟨rfl, rfl⟩ := Prod.mk.inj heq
  exact .some ⟨RunResult.alike_of_shadows hμ hr cycles' termination', hr.supply.upcoming hμ, hr.cancelled⟩

/-- A request to stop stands. -/
theorem cancelled_of_run {tree : Node} {session s : Session} {result : RunResult}
    (hrun : e.run recipes tree session = some (result, s)) (hcancelled : session.cancelled = true) :
    s.cancelled = true := by
  have hturn : ∀ cycle position recipe r, 1 ≤ cycle → cycle ≤ max e.maxCycles 1 →
      recipes[position]? = some recipe → r.session.cancelled = true →
      Ends True (fun r => r.session.cancelled = true) (e.runRecipe cycle r (recipe, position)) := by
    intro cycle position recipe r _ _ _ h
    generalize hout : e.runRecipe cycle r (recipe, position) = out
    cases hout ▸ e.runRecipe_turn cycle r recipe position with
    | skipped => exact h
    | stuck => exact trivial
    | made p _ _ _ _ _ _ _ _ _ _ hafter =>
      -- No pass takes a request to stop back, whether it ends or fails.
      refine hafter.trans ?_
      unfold after
      cases e.attempt p.recipe p.cycle p.input r.session.supply <;> simp [h]
  have hends : Ends True _ (e.run recipes tree session) :=
    run_ends (I := fun _ _ r => r.session.cancelled = true) hturn (fun _ _ h _ => h) hcancelled
  rw [hrun] at hends
  obtain ⟨r, -, -, -, hflag, hcloses⟩ := hends
  obtain ⟨-, -, hkept⟩ := hcloses.holds
  exact hflag.trans hkept

/-- A run that is asked to stop before it starts hands the tree back. -/
theorem run_stopped (hstoppable : e.stoppable = true) {tree : Node} {session : Session}
    (hcancelled : session.cancelled = true) :
    ∃ s, e.run recipes tree session = some (⟨tree, [], 0, .cancelled⟩, s) ∧ s.cancelled = true := by
  obtain ⟨left, hleft⟩ : ∃ left, max e.maxCycles 1 = left + 1 := ⟨max e.maxCycles 1 - 1, by omega⟩
  have hcycles : e.runCycles recipes (max e.maxCycles 1) 1 { tree, session } =
      some (Progress.tell { tree, session } (.cancelledBefore 1), 0, .cancelled) := by
    rw [hleft, runCycles, hstoppable, hcancelled]
    rfl
  unfold run
  rw [hcycles]
  exact ⟨_, rfl, hcancelled⟩

/-! ### Several trees -/

theorem runAll_cons (tree : Node) (trees : List Node) (session : Session) :
    e.runAll recipes (tree :: trees) session = (e.run recipes tree session).bind fun first =>
      (e.runAll recipes trees first.2).map fun others => (first.1 :: others.1, others.2) := by
  rw [runAll]
  cases e.run recipes tree session with
  | none => rfl
  | some first =>
    rw [Option.bind_some]
    show (e.runAll recipes trees first.2 >>= _) = _
    cases e.runAll recipes trees first.2 <;> rfl

/-- The trees at the end of the list are run in the session that those before them leave. -/
theorem runAll_append (back front : List Node) : ∀ session : Session,
    e.runAll recipes (front ++ back) session = (e.runAll recipes front session).bind fun first =>
      (e.runAll recipes back first.2).map fun others => (first.1 ++ others.1, others.2) := by
  induction front with
  | nil =>
    intro session
    show e.runAll recipes back session = (e.runAll recipes back session).map fun others => ([] ++ others.1, others.2)
    cases e.runAll recipes back session <;> rfl
  | cons tree front ih =>
    intro session
    rw [List.cons_append, runAll_cons, runAll_cons]
    cases e.run recipes tree session with
    | none => rfl
    | some first =>
      simp only [Option.bind_some, ih]
      cases e.runAll recipes front first.2 with
      | none => rfl
      | some middle => simp [Function.comp_def]

theorem eq_some_of_runAll_cons {tree : Node} {trees : List Node} {session last : Session}
    {results : List RunResult} (h : e.runAll recipes (tree :: trees) session = some (results, last)) :
    ∃ result s rest, e.run recipes tree session = some (result, s) ∧
      e.runAll recipes trees s = some (rest, last) ∧ results = result :: rest := by
  rw [runAll_cons] at h
  obtain ⟨⟨result, s⟩, hrun, h⟩ := Option.bind_eq_some_iff.1 h
  obtain ⟨⟨rest, last'⟩, hrest, h⟩ := Option.map_eq_some_iff.1 h
  cases h
  exact ⟨result, s, rest, hrun, hrest, rfl⟩

/-- What every run does to its session, the runs over all trees do. -/
theorem runAll_relates {R : Session → Session → Prop} (hrefl : ∀ s, R s s)
    (htrans : ∀ {s s' s''}, R s s' → R s' s'' → R s s'')
    (hrun : ∀ {tree session result s}, e.run recipes tree session = some (result, s) → R session s)
    (trees : List Node) : ∀ {session last : Session} {results : List RunResult},
    e.runAll recipes trees session = some (results, last) → R session last := by
  induction trees with
  | nil =>
    intro session last results h
    cases h
    exact hrefl session
  | cons tree trees ih =>
    intro session last results h
    obtain ⟨result, s, rest, hfirst, hrest, -⟩ := eq_some_of_runAll_cons h
    exact htrans (hrun hfirst) (ih hrest)

theorem stamp_le_of_runAll {trees : List Node} {session last : Session} {results : List RunResult}
    (h : e.runAll recipes trees session = some (results, last)) :
    session.supply.stamp ≤ last.supply.stamp :=
  runAll_relates (R := fun s s' => s.supply.stamp ≤ s'.supply.stamp) (fun _ => Nat.le_refl _) Nat.le_trans
    (fun hrun => (run_frugal hrun).stamp) trees h

theorem cancelled_of_runAll {trees : List Node} {session last : Session} {results : List RunResult}
    (h : e.runAll recipes trees session = some (results, last)) :
    session.cancelled = true → last.cancelled = true :=
  runAll_relates (R := fun s s' => s.cancelled = true → s'.cancelled = true) (fun _ => id)
    (fun h h' hcancelled => h' (h hcancelled)) cancelled_of_run trees h

/-- **There is a result for every tree** exactly if each comes to one on its own, with the ids that are left
when it is its turn. -/
theorem runAll_isSome_iff (trees : List Node) : ∀ session : Session,
    (∀ tree ∈ trees, tree.Predates session.supply.stamp) →
    ((e.runAll recipes trees session).isSome ↔ ∀ front tree back, trees = front ++ tree :: back →
      ∀ results s, e.runAll recipes front session = some (results, s) →
      ∀ alone : Session, alone.Suits tree s.supply.upcoming s.cancelled →
        (e.run recipes tree alone).isSome) := by
  intro session hmade
  constructor
  · rintro hsome front tree back rfl results s hfront alone hsuits
    rw [runAll_append, hfront, Option.bind_some, runAll_cons, Option.isSome_map, Option.isSome_bind] at hsome
    -- The trees before it have only taken stamps from the supply.
    have htree : tree.Predates s.supply.stamp := (hmade tree (by simp)).mono (stamp_le_of_runAll hfront)
    have hrel : Option.Rel _ (e.run recipes tree s) (e.run recipes tree alone) := run_alike htree hsuits
    cases hrun : e.run recipes tree s with
    | none =>
      rw [hrun] at hsome
      cases hsome
    | some out =>
      rw [hrun] at hrel
      generalize e.run recipes tree alone = x at hrel ⊢
      cases hrel with
      | some _ => rfl
  · induction trees generalizing session with
    | nil => exact fun _ => rfl
    | cons tree trees ih =>
      intro hall
      have hfirst := hall [] tree trees rfl [] session rfl session
        ⟨hmade tree List.mem_cons_self, rfl, rfl⟩
      obtain ⟨⟨result, s⟩, hrun⟩ := Option.isSome_iff_exists.1 hfirst
      rw [runAll_cons, hrun, Option.bind_some, Option.isSome_map]
      refine ih s (fun t ht => (hmade t (List.mem_cons_of_mem _ ht)).mono (run_frugal hrun).stamp) ?_
      rintro front t back rfl results s' hfront
      refine hall (tree :: front) t back rfl (result :: results) s' ?_
      rw [runAll_cons, hrun, Option.bind_some, hfront]
      rfl

/-- Once there is a request to stop, the trees are handed back. -/
theorem runAll_stopped (hstoppable : e.stoppable = true) (trees : List Node) :
    ∀ session : Session, session.cancelled = true → ∃ last, e.runAll recipes trees session =
      some (trees.map fun tree => ⟨tree, [], 0, .cancelled⟩, last) := by
  induction trees with
  | nil => exact fun session _ => ⟨session, rfl⟩
  | cons tree trees ih =>
    intro session hcancelled
    obtain ⟨s, hrun, hflag⟩ : ∃ s, e.run recipes tree session = some (⟨tree, [], 0, .cancelled⟩, s) ∧
        s.cancelled = true := run_stopped hstoppable hcancelled
    obtain ⟨last, hrest⟩ := ih s hflag
    refine ⟨last, ?_⟩
    rw [runAll_cons, hrun, Option.bind_some, hrest]
    rfl

/-! ### Trees with their ids -/

/-- What a tree has come to, and the ids that were made up for it. -/
structure Share where
  tree : Node
  drawn : List Nat
  result : RunResult

/-- The tree comes to that on its own: in any session that begins with these ids there is such a result, and
the other ids are left. -/
def Share.Owned (e : Engine) (recipes : List Recipe) (cancelled : Bool) (share : Share) : Prop :=
  ∀ (alone : Session) (rest : Stream' Nat), alone.Suits share.tree (share.drawn ++ₛ rest) cancelled →
    ∃ own s, e.run recipes share.tree alone = some (own, s) ∧ share.result.Alike own ∧
      s.supply.upcoming = rest ∧ s.cancelled = cancelled

/-- **One run** that does not ask for the engine to stop. -/
theorem owned_of_run {tree : Node} {session s : Session} {result : RunResult}
    (hmade : tree.Predates session.supply.stamp) (hrun : e.run recipes tree session = some (result, s))
    (hquiet : s.cancelled = session.cancelled) : ∃ drawn, session.supply.Draws drawn s.supply ∧
      Share.Owned e recipes session.cancelled ⟨tree, drawn, result⟩ := by
  obtain ⟨drawn, hdrawn, hspared⟩ := run_frugal hrun
  refine ⟨drawn, hdrawn, fun alone rest hsuits => ?_⟩
  -- The run as it would be with the ids of the other session, and with its stamps.
  obtain ⟨left, hleft, hresupplied⟩ := hspared rest ⟨session.supply.stamp, alone.supply.ids⟩ ⟨rfl, hsuits.ids⟩
  have hrel : Option.Rel _
      (e.run recipes tree (session.resupplied ⟨session.supply.stamp, alone.supply.ids⟩))
      (e.run recipes tree alone) :=
    run_alike hmade ⟨hsuits.made, rfl, hsuits.cancelled⟩
  rw [hresupplied] at hrel
  generalize e.run recipes tree alone = x at hrel ⊢
  cases hrel with
  | some h => exact ⟨_, _, rfl, h.1, h.2.1.trans hleft.upcoming, h.2.2.trans hquiet⟩

/-- **From tree to tree.** -/
theorem runAll_shares (trees : List Node) : ∀ {session last : Session} {results : List RunResult},
    (∀ tree ∈ trees, tree.Predates session.supply.stamp) →
    e.runAll recipes trees session = some (results, last) → last.cancelled = session.cancelled →
    ∃ shares : List Share, shares.map (·.tree) = trees ∧ shares.map (·.result) = results ∧
      session.supply.Draws (shares.flatMap (·.drawn)) last.supply ∧
      ∀ share ∈ shares, share.Owned e recipes session.cancelled := by
  induction trees with
  | nil =>
    intro session last results _ hall _
    cases hall
    exact ⟨[], rfl, rfl, .refl _, fun _ h => absurd h List.not_mem_nil⟩
  | cons tree trees ih =>
    intro session last results hmade hall hquiet
    obtain ⟨result, s, rest, hrun, hrest, rfl⟩ := eq_some_of_runAll_cons hall
    -- A request to stop in the first run would stand to the last.
    have hflag : s.cancelled = session.cancelled := by
      have hfirst := cancelled_of_run hrun
      have hlater := cancelled_of_runAll hrest
      rw [hquiet] at hlater
      exact Bool.eq_iff_iff.2 ⟨hlater, hfirst⟩
    obtain ⟨drawn, hdrawn, howned⟩ := owned_of_run (hmade tree List.mem_cons_self) hrun hflag
    obtain ⟨shares, rfl, rfl, hdraws, hshares⟩ :=
      ih (fun t ht => (hmade t (List.mem_cons_of_mem _ ht)).mono hdrawn.stamp) hrest (hquiet.trans hflag.symm)
    rw [hflag] at hshares
    exact ⟨⟨tree, drawn, result⟩ :: shares, rfl, rfl, hdrawn.trans hdraws,
      List.forall_mem_cons.2 ⟨howned, hshares⟩⟩

/-- **The other trees do not matter.** Wherever a tree is put, it comes to the same with the ids that it makes
up. -/
theorem runAll_of_shares {cancelled : Bool} (shares : List Share)
    (howned : ∀ share ∈ shares, share.Owned e recipes cancelled) : ∀ (session : Session) (rest : Stream' Nat),
    (∀ share ∈ shares, share.tree.Predates session.supply.stamp) → session.cancelled = cancelled →
    session.supply.upcoming = shares.flatMap (·.drawn) ++ₛ rest →
    ∃ results last, e.runAll recipes (shares.map (·.tree)) session = some (results, last) ∧
      List.Forall₂ (fun share result => share.result.Alike result) shares results := by
  induction shares with
  | nil => exact fun session _ _ _ _ => ⟨[], session, rfl, .nil⟩
  | cons share shares ih =>
    intro session rest hmade hcancelled hids
    rw [List.flatMap_cons, Stream'.append_append_stream] at hids
    obtain ⟨own, s, hrun, halike, hleft, hflag⟩ := howned share List.mem_cons_self session _
      ⟨hmade share List.mem_cons_self, hids, hcancelled⟩
    obtain ⟨results, last, hrest, hresults⟩ := ih (fun t ht => howned t (List.mem_cons_of_mem _ ht)) s rest
      (fun t ht => (hmade t (List.mem_cons_of_mem _ ht)).mono (run_frugal hrun).stamp) hflag hleft
    refine ⟨own :: results, last, ?_, .cons halike hresults⟩
    rw [List.map_cons, runAll_cons, hrun, Option.bind_some, hrest]
    rfl

/-- **Trees are independent.** There is a result for every tree if every tree comes to one on its own. They
stand in the order of the trees, and if no one has asked for the engine to stop, each is what the tree comes
to on its own with the ids that were made up for it. So it does not matter which other trees there are and in
which order they come. If the engine has been asked to stop in the course of some trees, all trees after them
are handed back as they are. -/
theorem runAll_independent (e : Engine) (recipes : List Recipe) (trees : List Node) (session : Session)
    (hmade : ∀ tree ∈ trees, tree.Predates session.supply.stamp) :
    ((e.runAll recipes trees session).isSome ↔ ∀ front tree back, trees = front ++ tree :: back →
      ∀ results s, e.runAll recipes front session = some (results, s) →
      ∀ alone : Session, alone.Suits tree s.supply.upcoming s.cancelled →
        (e.run recipes tree alone).isSome) ∧
    (∀ results last, e.runAll recipes trees session = some (results, last) →
      last.cancelled = session.cancelled →
      ∃ shares : List Share, shares.map (·.tree) = trees ∧ shares.map (·.result) = results ∧
        session.supply.Draws (shares.flatMap (·.drawn)) last.supply ∧
        (∀ share ∈ shares, share.Owned e recipes session.cancelled) ∧
        ∀ shares' ⊆ shares, ∀ (session' : Session) (rest : Stream' Nat),
          (∀ share ∈ shares', share.tree.Predates session'.supply.stamp) →
          session'.cancelled = session.cancelled →
          session'.supply.upcoming = shares'.flatMap (·.drawn) ++ₛ rest →
          ∃ results' last', e.runAll recipes (shares'.map (·.tree)) session' = some (results', last') ∧
            List.Forall₂ (fun share result => share.result.Alike result) shares' results') ∧
    (e.stoppable = true → ∀ front back, trees = front ++ back → ∀ results s,
      e.runAll recipes front session = some (results, s) → s.cancelled = true →
      ∃ later last, e.runAll recipes trees session = some (results ++ later, last) ∧
        List.Forall₂ (fun tree result => result.tree = tree ∧ result.termination = .cancelled ∧
          result.cycles = 0 ∧ result.changedRecipes = [] ∧ result.failures = []) back later) := by
  refine ⟨runAll_isSome_iff trees session hmade, fun results last hall hquiet => ?_, ?_⟩
  · obtain ⟨shares, htrees, hresults, hdraws, howned⟩ := runAll_shares trees hmade hall hquiet
    refine ⟨shares, htrees, hresults, hdraws, howned, fun shares' hsub => ?_⟩
    -- Each share stands on its own, so any of them may be taken, in any order.
    exact runAll_of_shares shares' fun share hshare => howned share (hsub hshare)
  · rintro hstoppable front back rfl results s hrun hcancelled
    obtain ⟨last, hback⟩ : ∃ last, e.runAll recipes back s = some (_, last) :=
      runAll_stopped hstoppable back s hcancelled
    refine ⟨back.map fun tree => ⟨tree, [], 0, .cancelled⟩, last, ?_, ?_⟩
    · rw [runAll_append, hrun, Option.bind_some, hback]
      rfl
    · rw [List.forall₂_map_right_iff, List.forall₂_same]
      exact fun tree _ => ⟨rfl, rfl, rfl, rfl, rfl⟩

/-- Asks for the engine to stop where it comes to a return statement. -/
def halting : Recipe where
  id := "halting"
  visitor := .plain "halting" (.look fun p =>
    if p.current.kind = .returnStmt then .cancel .done else .walkOn)

/-- Two trees with literals and one that returns. -/
def forest : Draft :=
  .block [five, .block [.fresh (.literal (.int 7)), .fresh (.literal (.int 8))],
    .block [.fresh (.returnStmt none)]]

/-- The first two trees change places and take their ids along, the first is run on its own in another
session, and after the last one nothing is run any more. -/
theorem runAll_independent_forest :
    ∃ a b c : Node, forest.placed.1.children = [a, b, c] ∧
      ∃ x y s, runAll {} [counting, capped, halting] [a, b] forest.placed.2 = some ([x, y], s) ∧
        x.changedRecipes = ["counting", "capped"] ∧ s.supply.ids 0 = forest.placed.2.supply.ids 2 ∧
        (∃ first second : List Nat,
          forest.placed.2.supply.upcoming = first ++ₛ (second ++ₛ s.supply.upcoming) ∧
          (∃ x' y' s', runAll {} [counting, capped, halting] [b, a] { forest.placed.2 with
              supply := ⟨forest.placed.2.supply.stamp, second ++ₛ (first ++ₛ s.supply.upcoming)⟩ } =
            some ([y', x'], s') ∧ x.Alike x' ∧ y.Alike y') ∧
          ∃ own s', run {} [counting, capped, halting] a
            { forest.placed.2 with supply := ⟨100, first ++ₛ s.supply.upcoming⟩ } = some (own, s') ∧
            x.Alike own) ∧
        ∃ z w s', runAll {} [counting, capped, halting] [c, a] forest.placed.2 = some ([z, w], s') ∧
          z.cycles = 1 ∧ w.tree = a ∧ w.termination = .cancelled ∧ w.cycles = 0 ∧ w.changedRecipes = [] ∧
          w.failures = [] := by
  have hcount : forest.placed.1.children.length = 3 := by decide +kernel
  have hfirst : (runAll {} [counting, capped, halting] (forest.placed.1.children.take 2) forest.placed.2).map
      (fun out => (out.1.map (·.changedRecipes), out.2.cancelled, out.2.supply.ids 0)) =
        some ([["counting", "capped"], ["counting", "capped"]], false,
          forest.placed.2.supply.ids 2) := by
    decide +kernel
  have hlast : (runAll {} [counting, capped, halting] (forest.placed.1.children.drop 2) forest.placed.2).map
      (fun out => (out.1.map (·.cycles), out.2.cancelled)) = some ([1], true) := by
    decide +kernel
  obtain ⟨a, b, c, htrees⟩ := List.length_eq_three.1 hcount
  have hmade : ∀ t ∈ [a, b, c], Node.Predates t forest.placed.2.supply.stamp := by
    rw [← htrees]
    exact fun t ht => forest.placed_predates.child ht
  have hlater : Node.Predates a 100 := (hmade a (by simp)).mono (by decide +kernel)
  rw [htrees] at hfirst hlast
  obtain ⟨⟨results, s⟩, hall, hout⟩ := Option.map_eq_some_iff.1 hfirst
  obtain ⟨⟨stopped, sz⟩, hstop, hout'⟩ := Option.map_eq_some_iff.1 hlast
  simp only [Prod.mk.injEq] at hout hout'
  obtain ⟨hchanged, hquiet, hnext⟩ := hout
  obtain ⟨z, hz, hcycles⟩ := List.map_eq_singleton_iff.1 hout'.1
  subst hz
  obtain ⟨shares, hshares, rfl, hdraws, howned, hrearranged⟩ :=
    (runAll_independent {} [counting, capped, halting] [a, b] forest.placed.2
      fun t ht => hmade t (by simp only [List.mem_cons, List.not_mem_nil, or_false] at ht ⊢; tauto)).2.1
      _ s hall hquiet
  obtain ⟨later, last, hstopped, hlater'⟩ :=
    (runAll_independent {} [counting, capped, halting] [c, a] forest.placed.2
      fun t ht => hmade t (by simp only [List.mem_cons, List.not_mem_nil, or_false] at ht ⊢; tauto)).2.2
      rfl [c] [a] rfl [z] sz hstop hout'.2
  obtain ⟨p, q, rfl⟩ := List.length_eq_two.1 (show shares.length = 2 by simpa using congrArg List.length hshares)
  obtain ⟨rfl, rfl⟩ : p.tree = a ∧ q.tree = b := by simpa using hshares
  obtain ⟨w, rfl⟩ := List.length_eq_one_iff.1 hlater'.length_eq.symm
  have hids : forest.placed.2.supply.upcoming = p.drawn ++ₛ (q.drawn ++ₛ s.supply.upcoming) := by
    simpa using hdraws.upcoming
  have hswap : [q, p].flatMap (·.drawn) ++ₛ s.supply.upcoming = q.drawn ++ₛ (p.drawn ++ₛ s.supply.upcoming) := by
    simp
  obtain ⟨results', last', hswapped, halike⟩ := hrearranged [q, p] (by simp) { forest.placed.2 with
      supply := ⟨forest.placed.2.supply.stamp, q.drawn ++ₛ (p.drawn ++ₛ s.supply.upcoming)⟩ }
    s.supply.upcoming (by simpa using ⟨hmade q.tree (by simp), hmade p.tree (by simp)⟩) rfl
    hswap.symm
  obtain ⟨own, s', hown, hx, -⟩ := howned p (by simp)
    { forest.placed.2 with supply := ⟨100, p.drawn ++ₛ s.supply.upcoming⟩ } s.supply.upcoming ⟨hlater, rfl, rfl⟩
  obtain ⟨y', x', rfl⟩ := List.length_eq_two.1 halike.length_eq.symm
  simp only [List.forall₂_cons, List.Forall₂.nil, and_true] at halike hlater'
  exact ⟨p.tree, q.tree, c, htrees, p.result, q.result, s, hall, (List.cons.inj hchanged).1, hnext,
    ⟨p.drawn, q.drawn, hids, ⟨x', y', last', hswapped, halike.2, halike.1⟩, own, s', hown, hx⟩,
    z, w, last, hstopped, hcycles, hlater'⟩

end Engine

end Refactor
