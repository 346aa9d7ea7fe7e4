import Mathlib.Data.List.Induction
import Mathlib.Data.List.Nodup
import Mathlib.Data.List.Perm.Basic
import Mathlib.Logic.Relation
import Mathlib.Tactic.Common
import Refactor.Pipeline

/-!
# The order of a pipeline

The search goes from each recipe to those that need it. Whatever was come to and is not finished lies on
the way to the recipe at hand, which therefore needs all of it, at some remove. So when a recipe is
finished, each recipe that needs it has been finished before or is needed by it (`Sound.late`), and a
prerequisite that comes late in the order of finishing is on a cycle. An order in which nothing comes
late leaves no room for a cycle.
-/

namespace Refactor

namespace Pipeline

open Relation

variable {p : Pipeline} {x y : String}

/-- The ids in the order of registration. -/
def ids (p : Pipeline) : List String := p.recipes.map (·.id)

/-- The recipe of the first id names the second as a prerequisite. -/
def Needs (p : Pipeline) (id prerequisite : String) : Prop :=
  ∃ r ∈ p.recipes, r.id = id ∧ prerequisite ∈ r.prerequisites

theorem contains_iff : p.contains x = true ↔ x ∈ p.ids := by
  simp [contains, ids]

theorem mem_dependents : y ∈ p.dependents x ↔ p.Needs y x := by
  simp only [dependents, Needs, List.mem_map, List.mem_filter, decide_eq_true_eq]
  constructor
  · rintro ⟨r, ⟨hr, hx⟩, hy⟩
    exact ⟨r, hr, hy, hx⟩
  · rintro ⟨r, hr, hy, hx⟩
    exact ⟨r, ⟨hr, hx⟩, hy⟩

theorem Needs.mem_ids (h : p.Needs x y) : x ∈ p.ids := by
  obtain ⟨r, hr, rfl, -⟩ := h
  exact List.mem_map_of_mem hr

/-! ### Registration -/

/-- The pipeline after the recipe was offered to it: one that is refused leaves it as it was. -/
def offer (p : Pipeline) (r : Recipe) : Pipeline :=
  match p.add r with
  | .ok q => q
  | .error _ => p

/-- The pipeline after the recipes were offered in turn to an empty one. -/
def registered (offered : List Recipe) : Pipeline := offered.foldl offer {}

theorem registered_snoc (before : List Recipe) (r : Recipe) :
    registered (before ++ [r]) = (registered before).offer r := by
  simp [registered]

theorem add_of_mem {r : Recipe} (h : r.id ∈ p.ids) : p.add r = .error (.duplicateRecipe r.id) :=
  if_pos (contains_iff.2 h)

theorem add_of_not_mem {r : Recipe} (h : r.id ∉ p.ids) : p.add r = .ok ⟨p.recipes ++ [r]⟩ :=
  if_neg fun hc => h (contains_iff.1 hc)

theorem offer_of_mem {r : Recipe} (h : r.id ∈ p.ids) : p.offer r = p := by
  unfold offer
  rw [add_of_mem h]

theorem offer_of_not_mem {r : Recipe} (h : r.id ∉ p.ids) : p.offer r = ⟨p.recipes ++ [r]⟩ := by
  unfold offer
  rw [add_of_not_mem h]

/-- The ids that are registered are those offered, each once. -/
theorem ids_registered (offered : List Recipe) :
    (registered offered).ids.Nodup ∧ ∀ x, x ∈ (registered offered).ids ↔ x ∈ offered.map (·.id) := by
  induction offered using List.reverseRecOn with
  | nil => exact ⟨List.nodup_nil, fun x => Iff.rfl⟩
  | append_singleton before r ih =>
    obtain ⟨hnodup, hmem⟩ := ih
    rw [registered_snoc]
    by_cases hr : r.id ∈ (registered before).ids
    · rw [offer_of_mem hr]
      refine ⟨hnodup, fun x => ?_⟩
      have hbefore : r.id ∈ before.map (·.id) := (hmem r.id).1 hr
      rw [hmem, List.map_append, List.mem_append, List.map_singleton, List.mem_singleton]
      exact ⟨Or.inl, fun h => h.elim id fun h => h ▸ hbefore⟩
    · have hids : ((registered before).offer r).ids = (registered before).ids ++ [r.id] := by
        rw [offer_of_not_mem hr]
        simp [ids]
      rw [hids]
      refine ⟨?_, fun x => ?_⟩
      · rw [List.nodup_append_comm, List.singleton_append, List.nodup_cons]
        exact ⟨hr, hnodup⟩
      · rw [List.mem_append, hmem, List.map_append, List.mem_append]
        rfl

/-- A recipe is refused just when one of its id was offered before. -/
theorem add_registered_iff (offered : List Recipe) (r : Recipe) :
    (registered offered).add r = .error (.duplicateRecipe r.id) ↔ ∃ a ∈ offered, a.id = r.id := by
  have hids : r.id ∈ (registered offered).ids ↔ ∃ a ∈ offered, a.id = r.id := by
    rw [(ids_registered offered).2, List.mem_map]
  rw [← hids]
  constructor
  · intro h
    by_contra hnew
    rw [add_of_not_mem hnew] at h
    cases h
  · exact add_of_mem

/-! ### The search -/

namespace Search

/-- The search has come to the recipe and is not done with it. -/
def Open (s : Search) (x : String) : Prop := x ∈ s.discovered ∧ x ∉ s.finished

/-- What a search keeps in order. -/
structure Sound (p : Pipeline) (s : Search) : Prop where
  known : ∀ x ∈ s.discovered, x ∈ p.ids ∧ ¬ p.Needs x x
  found : ∀ x ∈ s.finished, x ∈ s.discovered
  nodup : s.finished.Nodup
  /-- Of two recipes that are finished in the wrong order, each needs the other. -/
  late : ∀ a x b, s.finished = a ++ x :: b → ∀ y, p.Needs y x → y ∈ b ∨ TransGen p.Needs x y

/-- The later search has gone on from the earlier one and is back where that was. -/
structure Extends (s s' : Search) : Prop where
  discovered : s.discovered ⊆ s'.discovered
  unfinished : ∀ x, s'.Open x ↔ s.Open x

theorem Extends.refl (s : Search) : s.Extends s := ⟨fun _ h => h, fun _ => Iff.rfl⟩

theorem Extends.trans {s1 s2 s3 : Search} (h1 : s1.Extends s2) (h2 : s2.Extends s3) : s1.Extends s3 :=
  ⟨fun _ h => h2.discovered (h1.discovered h), fun x => (h2.unfinished x).trans (h1.unfinished x)⟩

/-- How many recipes the search has yet to come to. -/
def ahead (p : Pipeline) (s : Search) : Nat := (p.ids.filter (· ∉ s.discovered)).length

theorem ahead_le {s s' : Search} (h : s.Extends s') : s'.ahead p ≤ s.ahead p := by
  refine (List.monotone_filter_right p.ids fun x hx => ?_).length_le
  simp only [decide_eq_true_eq] at hx ⊢
  exact fun hd => hx (h.discovered hd)

/-- The search comes to a recipe. -/
def discover (s : Search) (x : String) : Search := { s with discovered := x :: s.discovered }

/-- The search is done with a recipe. -/
def finish (s : Search) (x : String) : Search := { s with finished := x :: s.finished }

variable {s : Search}

theorem ahead_discover (hx : x ∈ p.ids) (hnew : x ∉ s.discovered) :
    (s.discover x).ahead p < s.ahead p := by
  have hfilter : p.ids.filter (· ∉ (s.discover x).discovered) =
      (p.ids.filter (· ∉ s.discovered)).filter (· ≠ x) := by
    rw [List.filter_filter]
    refine List.filter_congr fun y _ => ?_
    simp [discover]
  unfold ahead
  rw [hfilter, List.length_filter_lt_length_iff_exists]
  exact ⟨x, by simp [hx, hnew], by simp⟩

theorem open_discover (h : s.Sound p) (hnew : x ∉ s.discovered) (y : String) :
    (s.discover x).Open y ↔ y = x ∨ s.Open y := by
  have hx : x ∉ s.finished := fun hf => hnew (h.found x hf)
  simp only [Open, discover, List.mem_cons]
  constructor
  · rintro ⟨rfl | hy, hf⟩
    · exact Or.inl rfl
    · exact Or.inr ⟨hy, hf⟩
  · rintro (rfl | ⟨hy, hf⟩)
    · exact ⟨Or.inl rfl, hx⟩
    · exact ⟨Or.inr hy, hf⟩

theorem Sound.discover (h : s.Sound p) (hx : x ∈ p.ids) (hloop : ¬ p.Needs x x) :
    (s.discover x).Sound p where
  known y hy := by
    rcases List.mem_cons.1 hy with rfl | hy
    · exact ⟨hx, hloop⟩
    · exact h.known y hy
  found y hy := List.mem_cons_of_mem _ (h.found y hy)
  nodup := h.nodup
  late := h.late

/-- A recipe may be finished once all that need it were come to, and it needs what is not finished. -/
theorem Sound.finish (h : s.Sound p) (hx : s.Open x) (hdependents : ∀ y, p.Needs y x → y ∈ s.discovered)
    (hopen : ∀ y, s.Open y → y = x ∨ TransGen p.Needs x y) : (s.finish x).Sound p where
  known := h.known
  found y hy := by
    rcases List.mem_cons.1 hy with rfl | hy
    · exact hx.1
    · exact h.found y hy
  nodup := List.nodup_cons.2 ⟨hx.2, h.nodup⟩
  late a z b hsplit y hy := by
    rcases List.cons_eq_append_iff.1 hsplit with ⟨-, hb⟩ | ⟨a', -, hrest⟩
    · obtain ⟨rfl, rfl⟩ := List.cons.inj hb
      by_cases hyf : y ∈ s.finished
      · exact Or.inl hyf
      · right
        rcases hopen y ⟨hdependents y hy, hyf⟩ with rfl | hneeds
        · exact TransGen.single hy
        · exact hneeds
    · exact h.late a' z b hrest y hy

theorem open_finish (s : Search) (x y : String) : (s.finish x).Open y ↔ y ≠ x ∧ s.Open y := by
  simp only [Open, Search.finish, List.mem_cons, not_or]
  tauto

end Search

/-- How a search for those recipes ends: it has come to all of them, or to one that needs itself. -/
def Searched (p : Pipeline) (s : Search) (targets : List String) : Except PipelineError Search → Prop
  | .ok s' => s'.Sound p ∧ s.Extends s' ∧ ∀ x ∈ targets, x ∈ s'.discovered
  | .error e => ∃ x, e = .prerequisiteCycle x ∧ p.Needs x x

/-- The search may turn to the recipe, which needs all that is not finished. -/
def Search.Ready (p : Pipeline) (s : Search) (x : String) : Prop :=
  x ∈ p.ids ∧ ∀ y, s.Open y → TransGen p.Needs x y

theorem Search.Extends.ready {s s' : Search} (h : s.Extends s') (hx : s.Ready p x) : s'.Ready p x :=
  ⟨hx.1, fun y hy => hx.2 y ((h.unfinished y).1 hy)⟩

/-- A search for one recipe after the other. -/
theorem searched_foldlM {fuel : Nat}
    (hexplore : ∀ s x, s.Sound p → s.Ready p x → s.ahead p ≤ fuel →
      p.Searched s [x] (p.explore fuel s x)) :
    ∀ (xs : List String) (s : Search), s.Sound p → (∀ x ∈ xs, s.Ready p x) → s.ahead p ≤ fuel →
      p.Searched s xs (xs.foldlM (p.explore fuel) s) := by
  intro xs
  induction xs with
  | nil =>
    intro s hs _ _
    exact ⟨hs, .refl s, fun x hx => absurd hx List.not_mem_nil⟩
  | cons x xs ih =>
    intro s hs hready hfuel
    have hone := hexplore s x hs (hready x List.mem_cons_self) hfuel
    rw [List.foldlM_cons]
    cases hx : p.explore fuel s x with
    | error e =>
      rw [hx] at hone
      exact hone
    | ok s1 =>
      rw [hx] at hone
      obtain ⟨hs1, hext1, hfound⟩ := hone
      -- The first search is back where it started, so the others may start there.
      have hrest := ih s1 hs1 (fun y hy => hext1.ready (hready y (List.mem_cons_of_mem _ hy)))
        (Nat.le_trans (Search.ahead_le hext1) hfuel)
      show p.Searched s (x :: xs) (xs.foldlM (p.explore fuel) s1)
      cases hxs : xs.foldlM (p.explore fuel) s1 with
      | error e =>
        rw [hxs] at hrest
        exact hrest
      | ok s2 =>
        rw [hxs] at hrest
        obtain ⟨hs2, hext2, hall⟩ := hrest
        refine ⟨hs2, hext1.trans hext2, fun y hy => ?_⟩
        rcases List.mem_cons.1 hy with rfl | hy
        · exact hext2.discovered (hfound y List.mem_cons_self)
        · exact hall y hy

/-- **The search from one recipe.** The fuel is enough as long as it covers what is ahead. -/
theorem searched_explore (fuel : Nat) : ∀ (s : Search) (x : String), s.Sound p → s.Ready p x →
    s.ahead p ≤ fuel → p.Searched s [x] (p.explore fuel s x) := by
  induction fuel with
  | zero =>
    intro s x hs hx hfuel
    have hfound : x ∈ s.discovered := by
      by_contra hnew
      have := Search.ahead_discover hx.1 hnew
      omega
    exact ⟨hs, .refl s, fun y hy => List.mem_singleton.1 hy ▸ hfound⟩
  | succ fuel ih =>
    intro s x hs hx hfuel
    unfold explore
    by_cases hfound : x ∈ s.discovered
    · -- The search has come to the recipe before.
      rw [if_pos hfound]
      exact ⟨hs, .refl s, fun y hy => List.mem_singleton.1 hy ▸ hfound⟩
    · rw [if_neg hfound]
      by_cases hself : x ∈ p.dependents x
      · -- A recipe that names itself is on a cycle of its own.
        rw [if_pos hself]
        exact ⟨x, rfl, mem_dependents.1 hself⟩
      · -- The search goes on to all that need the recipe, and then is done with it.
        rw [if_neg hself]
        have hloop : ¬ p.Needs x x := fun h => hself (mem_dependents.2 h)
        have hopen := Search.open_discover hs hfound
        have hdependents : ∀ y ∈ p.dependents x, (s.discover x).Ready p y := by
          intro y hy
          have hneeds := mem_dependents.1 hy
          refine ⟨hneeds.mem_ids, fun z hz => ?_⟩
          rcases (hopen z).1 hz with rfl | hz
          · exact TransGen.single hneeds
          · exact TransGen.head hneeds (hx.2 z hz)
        have hahead := Search.ahead_discover hx.1 hfound
        have hfold := searched_foldlM ih (p.dependents x) (s.discover x) (hs.discover hx.1 hloop)
          hdependents (by omega)
        show p.Searched s [x] ((p.dependents x).foldlM (p.explore fuel) (s.discover x) >>=
          fun s' => pure (s'.finish x))
        cases hrun : (p.dependents x).foldlM (p.explore fuel) (s.discover x) with
        | error e =>
          rw [hrun] at hfold
          exact hfold
        | ok s1 =>
          rw [hrun] at hfold
          obtain ⟨hs1, hext, hall⟩ := hfold
          have hopen1 : ∀ y, s1.Open y ↔ y = x ∨ s.Open y := fun y =>
            (hext.unfinished y).trans (hopen y)
          refine ⟨?_, ⟨?_, ?_⟩, ?_⟩
          · -- What is still open lies on the way to the recipe.
            refine hs1.finish ((hopen1 x).2 (Or.inl rfl)) (fun y hy => hall y (mem_dependents.2 hy)) ?_
            exact fun y hy => ((hopen1 y).1 hy).imp_right (hx.2 y)
          · exact fun y hy => hext.discovered (List.mem_cons_of_mem _ hy)
          · intro y
            have hxs : ¬ s.Open x := fun h => hfound h.1
            rw [Search.open_finish, hopen1]
            exact ⟨fun h => h.2.resolve_left h.1, fun h => ⟨fun hyx => hxs (hyx ▸ h), Or.inr h⟩⟩
          · intro y hy
            obtain rfl := List.mem_singleton.1 hy
            exact ((hopen1 y).2 (Or.inl rfl)).1

/-- **The order of finishing** has each id once, and where a recipe comes before one that it needs, each
needs the other. -/
theorem finishOrder_spec (hnodup : p.ids.Nodup) :
    (∃ x, p.finishOrder = .error (.prerequisiteCycle x) ∧ p.Needs x x) ∨
    ∃ order, p.finishOrder = .ok order ∧ order.Perm p.ids ∧ (∀ x, ¬ p.Needs x x) ∧
      ∀ a x b, order = a ++ x :: b → ∀ y, p.Needs y x → y ∈ b ∨ TransGen p.Needs x y := by
  have hstart : Search.Sound p {} :=
    ⟨fun x hx => absurd hx List.not_mem_nil, fun x hx => absurd hx List.not_mem_nil, List.nodup_nil,
      fun a x b h => by simp at h⟩
  have hnone : ∀ y, ¬ Search.Open {} y := fun y hy => absurd hy.1 List.not_mem_nil
  have hfuel : Search.ahead p {} ≤ p.recipes.length := by
    refine Nat.le_trans (List.length_filter_le _ _) ?_
    simp [ids]
  have hsearch := searched_foldlM (searched_explore p.recipes.length) p.ids {} hstart
    (fun x hx => ⟨hx, fun y hy => absurd hy (hnone y)⟩) hfuel
  unfold finishOrder
  cases hrun : p.ids.foldlM (p.explore p.recipes.length) {} with
  | error e =>
    rw [hrun] at hsearch
    obtain ⟨x, rfl, hx⟩ := hsearch
    refine Or.inl ⟨x, ?_, hx⟩
    show (p.ids.foldlM (p.explore p.recipes.length) {} >>= fun s => pure s.finished) = _
    rw [hrun]
    rfl
  | ok s =>
    rw [hrun] at hsearch
    obtain ⟨hs, hext, hall⟩ := hsearch
    -- At the end as at the start nothing is open.
    have hdone : ∀ x ∈ s.discovered, x ∈ s.finished := by
      intro x hx
      by_contra hf
      exact hnone x ((hext.unfinished x).1 ⟨hx, hf⟩)
    refine Or.inr ⟨s.finished, ?_, ?_, ?_, hs.late⟩
    · show (p.ids.foldlM (p.explore p.recipes.length) {} >>= fun s => pure s.finished) = _
      rw [hrun]
      rfl
    · refine (List.perm_ext_iff_of_nodup hs.nodup hnodup).2 fun x => ?_
      exact ⟨fun hx => (hs.known x (hs.found x hx)).1, fun hx => hdone x (hall x hx)⟩
    · exact fun x hx => (hs.known x (hall x hx.mem_ids)).2 hx

/-! ### Prerequisites that come late -/

theorem find_of_mem (hnodup : p.ids.Nodup) {r : Recipe} (hr : r ∈ p.recipes) :
    p.recipes.find? (·.id = r.id) = some r := by
  cases hfind : p.recipes.find? (·.id = r.id) with
  | none =>
    have := List.find?_eq_none.1 hfind r hr
    simp at this
  | some r' =>
    have hid : r'.id = r.id := by simpa using List.find?_some hfind
    rw [List.inj_on_of_nodup_map hnodup (List.mem_of_find?_eq_some hfind) hr hid]

theorem find_of_mem_ids (hx : x ∈ p.ids) : ∃ r, p.recipes.find? (·.id = x) = some r ∧ r.id = x := by
  obtain ⟨r, hr, rfl⟩ := List.mem_map.1 hx
  cases hfind : p.recipes.find? (·.id = r.id) with
  | none =>
    have := List.find?_eq_none.1 hfind r hr
    simp at this
  | some r' => exact ⟨r', rfl, by simpa using List.find?_some hfind⟩

theorem mem_prerequisites (hnodup : p.ids.Nodup) :
    y ∈ (p.recipes.find? (·.id = x)).elim [] (·.prerequisites) ↔ p.Needs x y := by
  constructor
  · intro hy
    cases hfind : p.recipes.find? (·.id = x) with
    | none => simp [hfind] at hy
    | some r =>
      rw [hfind] at hy
      exact ⟨r, List.mem_of_find?_eq_some hfind, by simpa using List.find?_some hfind, hy⟩
  · rintro ⟨r, hr, rfl, hy⟩
    rw [find_of_mem hnodup hr]
    exact hy

/-- How the check of an order ends, with some recipes placed before. -/
theorem findLate_spec (hnodup : p.ids.Nodup) : ∀ (order placed : List String),
    match p.findLate placed order with
    | some late => ∃ a x b, order = a ++ x :: b ∧ p.Needs x late ∧ late ≠ x ∧ late ∉ a ∧ late ∉ placed
    | none => ∀ a x b, order = a ++ x :: b → ∀ y, p.Needs x y → y = x ∨ y ∈ a ∨ y ∈ placed := by
  intro order
  induction order with
  | nil =>
    intro placed a x b hsplit
    simp at hsplit
  | cons x rest ih =>
    intro placed
    unfold findLate
    dsimp only
    cases hfind : ((p.recipes.find? (·.id = x)).elim [] (·.prerequisites)).find? (· ∉ x :: placed) with
    | some late =>
      -- The first prerequisite that is not placed by now is the one reported.
      have hneeds := (mem_prerequisites hnodup).1 (List.mem_of_find?_eq_some hfind)
      have hlate : late ∉ x :: placed := by simpa using List.find?_some hfind
      rw [List.mem_cons, not_or] at hlate
      exact ⟨[], x, rest, rfl, hneeds, hlate.1, List.not_mem_nil, hlate.2⟩
    | none =>
      have hhead : ∀ y, p.Needs x y → y ∈ x :: placed := by
        intro y hy
        by_contra hlate
        exact List.find?_eq_none.1 hfind y ((mem_prerequisites hnodup).2 hy) (by simpa using hlate)
      have hrest := ih (x :: placed)
      dsimp only
      cases hlate : p.findLate (x :: placed) rest with
      | some late =>
        rw [hlate] at hrest
        obtain ⟨a, z, b, rfl, hneeds, hne, ha, hplaced⟩ := hrest
        rw [List.mem_cons, not_or] at hplaced
        refine ⟨x :: a, z, b, rfl, hneeds, hne, ?_, hplaced.2⟩
        rw [List.mem_cons, not_or]
        exact ⟨hplaced.1, ha⟩
      | none =>
        rw [hlate] at hrest
        intro a z b hsplit y hy
        rcases List.cons_eq_append_iff.1 hsplit with ⟨rfl, hb⟩ | ⟨a', rfl, htail⟩
        · -- The recipe at hand has all its prerequisites.
          obtain ⟨rfl, rfl⟩ := List.cons.inj hb
          rcases List.mem_cons.1 (hhead y hy) with h | h
          · exact Or.inl h
          · exact Or.inr (Or.inr h)
        · -- For a later one the recipe at hand counts among those placed.
          rcases hrest a' z b htail y hy with h | h | h
          · exact Or.inl h
          · exact Or.inr (Or.inl (List.mem_cons_of_mem _ h))
          · rcases List.mem_cons.1 h with rfl | h
            · exact Or.inr (Or.inl List.mem_cons_self)
            · exact Or.inr (Or.inr h)

/-- Each id comes after those its recipe needs. -/
def Sorted (p : Pipeline) (order : List String) : Prop :=
  ∀ a x b, order = a ++ x :: b → ∀ y, p.Needs x y → y ∈ a

/-- Going to a prerequisite is going back in the order, so there is no way around. -/
theorem Sorted.acyclic {order : List String} (hsorted : p.Sorted order) (hperm : order.Perm p.ids)
    (hnodup : p.ids.Nodup) (x : String) : ¬ TransGen p.Needs x x := by
  have hstep : ∀ u v, p.Needs u v → order.idxOf v < order.idxOf u := by
    intro u v huv
    obtain ⟨a, b, hsplit⟩ := List.append_of_mem (hperm.mem_iff.2 huv.mem_ids)
    have hv : v ∈ a := hsorted a u b hsplit v huv
    have hu : u ∉ a := by
      have := hperm.nodup_iff.2 hnodup
      rw [hsplit, List.nodup_append] at this
      exact fun h => this.2.2 u h u List.mem_cons_self rfl
    have hlt := List.idxOf_lt_length_of_mem hv
    rw [hsplit, List.idxOf_append_of_mem hv, List.idxOf_append_of_notMem hu]
    omega
  have htrans : ∀ u v, TransGen p.Needs u v → order.idxOf v < order.idxOf u := by
    intro u v huv
    induction huv with
    | single h => exact hstep _ _ h
    | tail _ h ih => exact Nat.lt_trans (hstep _ _ h) ih
  exact fun h => Nat.lt_irrefl _ (htrans x x h)

/-! ### The recipes in order -/

/-- The first recipe in the order of registration that names a prerequisite that is not registered, and
the first such prerequisite of it. -/
def FirstUnknown (p : Pipeline) (r : Recipe) (prerequisite : String) : Prop :=
  ∃ l₁ l₂ a b, p.recipes = l₁ ++ r :: l₂ ∧ (∀ r' ∈ l₁, ∀ x ∈ r'.prerequisites, x ∈ p.ids) ∧
    r.prerequisites = a ++ prerequisite :: b ∧ (∀ x ∈ a, x ∈ p.ids) ∧ prerequisite ∉ p.ids

theorem findUnknown_spec :
    match p.findUnknown with
    | some e => ∃ r x, p.FirstUnknown r x ∧ e = .unknownPrerequisite r.id x
    | none => ∀ r ∈ p.recipes, ∀ x ∈ r.prerequisites, x ∈ p.ids := by
  have hknown : ∀ r : Recipe, (r.prerequisites.find? (!p.contains ·)).map
      (PipelineError.unknownPrerequisite r.id) = none → ∀ x ∈ r.prerequisites, x ∈ p.ids := by
    intro r hr x hx
    have := List.find?_eq_none.1 (Option.map_eq_none_iff.1 hr) x hx
    exact contains_iff.1 (by simpa using this)
  unfold findUnknown
  cases he : p.recipes.findSome? _ with
  | some e =>
    obtain ⟨l₁, r, l₂, hrecipes, hr, hbefore⟩ := List.findSome?_eq_some_iff.1 he
    obtain ⟨x, hx, rfl⟩ := Option.map_eq_some_iff.1 hr
    obtain ⟨hunknown, a, b, hprereqs, ha⟩ := List.find?_eq_some_iff_append.1 hx
    refine ⟨r, x, ⟨l₁, l₂, a, b, hrecipes, ?_, hprereqs, ?_, ?_⟩, rfl⟩
    · exact fun r' hr' => hknown r' (hbefore r' hr')
    · exact fun y hy => contains_iff.1 (by simpa using ha y hy)
    · exact fun h => by simp [contains_iff.2 h] at hunknown
  | none => exact fun r hr => hknown r (List.findSome?_eq_none_iff.1 he r hr)

theorem map_id_filterMap {order : List String} (hids : ∀ x ∈ order, x ∈ p.ids) :
    (order.filterMap fun x => p.recipes.find? (·.id = x)).map (·.id) = order := by
  rw [List.map_filterMap]
  conv => rhs; rw [← List.filterMap_some (l := order)]
  refine List.filterMap_congr fun x hx => ?_
  obtain ⟨r, hfind, hid⟩ := find_of_mem_ids (hids x hx)
  rw [hfind, Option.map_some, hid]

theorem filterMap_ids (hnodup : p.ids.Nodup) :
    (p.ids.filterMap fun x => p.recipes.find? (·.id = x)) = p.recipes := by
  unfold ids
  rw [List.filterMap_map]
  conv => rhs; rw [← List.filterMap_some (l := p.recipes)]
  exact List.filterMap_congr fun r hr => find_of_mem hnodup hr

section Outcomes

variable {order : List String} (hnone : p.findUnknown = none)
include hnone

theorem ordered_of_error {e : PipelineError} (he : p.finishOrder = .error e) : p.ordered = .error e := by
  unfold ordered
  rw [hnone, he]
  rfl

theorem ordered_of_late (horder : p.finishOrder = .ok order) {late : String}
    (hlate : p.findLate [] order = some late) : p.ordered = .error (.prerequisiteCycle late) := by
  simp only [ordered, hnone, horder, bind, Except.bind, hlate]
  rfl

theorem ordered_of_timely (horder : p.finishOrder = .ok order) (htimely : p.findLate [] order = none) :
    p.ordered = .ok (order.filterMap fun x => p.recipes.find? (·.id = x)) := by
  simp only [ordered, hnone, horder, bind, Except.bind, htimely]
  rfl

end Outcomes

/-- With all prerequisites registered, the recipes are put in an order without anything late, or one is
named that needs itself at some remove. -/
theorem ordered_of_known (hnodup : p.ids.Nodup) (hnone : p.findUnknown = none)
    (hknown : ∀ x y, p.Needs x y → y ∈ p.ids) :
    (∃ x, p.ordered = .error (.prerequisiteCycle x) ∧ TransGen p.Needs x x) ∨
    ∃ order, p.ordered = .ok order ∧ order.Perm p.recipes ∧ p.Sorted (order.map (·.id)) := by
  rcases finishOrder_spec hnodup with ⟨x, hx, hloop⟩ | ⟨order, horder, hperm, hloopless, hlate⟩
  · exact Or.inl ⟨x, ordered_of_error hnone hx, TransGen.single hloop⟩
  · have hcheck := findLate_spec hnodup order []
    cases hfind : p.findLate [] order with
    | some late =>
      rw [hfind] at hcheck
      obtain ⟨a, x, b, hsplit, hneeds, hne, ha, -⟩ := hcheck
      refine Or.inl ⟨late, ordered_of_late hnone horder hfind, ?_⟩
      -- The late one comes after `x`, which was not finished when it was: so it needs `x` in turn.
      have hmem : late ∈ b := by
        have : late ∈ order := hperm.mem_iff.2 (hknown x late hneeds)
        rw [hsplit, List.mem_append, List.mem_cons] at this
        exact (this.resolve_left ha).resolve_left hne
      obtain ⟨b₁, b₂, rfl⟩ := List.append_of_mem hmem
      have hnodup' : (a ++ x :: (b₁ ++ late :: b₂)).Nodup := hsplit ▸ hperm.nodup_iff.2 hnodup
      have hx : x ∉ b₂ := by
        intro h
        have := (List.nodup_cons.1 (List.nodup_append.1 hnodup').2.1).1
        exact this (List.mem_append_right _ (List.mem_cons_of_mem _ h))
      have hsplit' : order = (a ++ x :: b₁) ++ late :: b₂ := by
        rw [hsplit, List.append_assoc, List.cons_append]
      have hback := (hlate _ late b₂ hsplit' x hneeds).resolve_left hx
      exact TransGen.tail hback hneeds
    | none =>
      rw [hfind] at hcheck
      refine Or.inr ⟨_, ordered_of_timely hnone horder hfind, ?_, ?_⟩
      · exact (hperm.filterMap _).trans (List.Perm.of_eq (filterMap_ids hnodup))
      · rw [map_id_filterMap fun x hx => hperm.mem_iff.1 hx]
        intro a x b hsplit y hy
        rcases hcheck a x b hsplit y hy with rfl | h | h
        · exact absurd hy (hloopless y)
        · exact h
        · exact absurd h List.not_mem_nil

/-- All prerequisites are registered. -/
def Complete (p : Pipeline) : Prop := ∀ r ∈ p.recipes, ∀ x ∈ r.prerequisites, x ∈ p.ids

theorem findUnknown_of_complete (h : p.Complete) : p.findUnknown = none := by
  have hspec := p.findUnknown_spec
  cases hfind : p.findUnknown with
  | none => rfl
  | some e =>
    rw [hfind] at hspec
    obtain ⟨r, x, ⟨l₁, l₂, a, b, hrecipes, -, hprereqs, -, hx⟩, -⟩ := hspec
    refine absurd (h r ?_ x ?_) hx
    · rw [hrecipes]
      exact List.mem_append_right _ List.mem_cons_self
    · rw [hprereqs]
      exact List.mem_append_right _ List.mem_cons_self

theorem ordered_of_incomplete (h : ¬ p.Complete) :
    ∃ r x, p.FirstUnknown r x ∧ p.ordered = .error (.unknownPrerequisite r.id x) := by
  have hspec := p.findUnknown_spec
  cases hfind : p.findUnknown with
  | none =>
    rw [hfind] at hspec
    exact absurd hspec h
  | some e =>
    rw [hfind] at hspec
    obtain ⟨r, x, hfirst, rfl⟩ := hspec
    refine ⟨r, x, hfirst, ?_⟩
    unfold ordered
    rw [hfind]
    rfl

/-- **Putting recipes in order.** Whatever recipes are offered to an empty pipeline, one whose id is
there is refused and changes nothing, and any other is added at the end. The recipes that were taken in
are then put in order: a prerequisite that is not registered is reported where it first occurs;
otherwise, if some recipe needs itself at some remove, such a recipe is reported; otherwise the result
has each recipe once, after all its prerequisites. -/
theorem registered_ordered (offered : List Recipe) :
    (∀ before r after, offered = before ++ r :: after →
      (r.id ∈ before.map (·.id) → (registered before).add r = .error (.duplicateRecipe r.id) ∧
        registered (before ++ [r]) = registered before) ∧
      (r.id ∉ before.map (·.id) → (registered before).add r = .ok (registered (before ++ [r])) ∧
        (registered (before ++ [r])).recipes = (registered before).recipes ++ [r])) ∧
    (¬ (registered offered).Complete → ∃ r x, (registered offered).FirstUnknown r x ∧
      (registered offered).ordered = .error (.unknownPrerequisite r.id x)) ∧
    ((registered offered).Complete → (∃ x, TransGen (registered offered).Needs x x) →
      ∃ x, TransGen (registered offered).Needs x x ∧
        (registered offered).ordered = .error (.prerequisiteCycle x)) ∧
    ((registered offered).Complete → (∀ x, ¬ TransGen (registered offered).Needs x x) →
      ∃ order, (registered offered).ordered = .ok order ∧
        order.Perm (registered offered).recipes ∧ (order.map (·.id)).Nodup ∧
        ∀ a r b, order = a ++ r :: b → ∀ x ∈ r.prerequisites, ∃ r' ∈ a, r'.id = x) := by
  obtain ⟨hnodup, -⟩ := ids_registered offered
  have hcomplete : (registered offered).Complete →
      ∀ x y, (registered offered).Needs x y → y ∈ (registered offered).ids := by
    rintro h x y ⟨r, hr, -, hy⟩
    exact h r hr y hy
  refine ⟨fun before r after _ => ?_, ordered_of_incomplete, fun h hcycle => ?_, fun h hacyclic => ?_⟩
  · have hmem := (ids_registered before).2 r.id
    rw [registered_snoc]
    refine ⟨fun hr => ?_, fun hr => ?_⟩
    · rw [← hmem] at hr
      exact ⟨add_of_mem hr, offer_of_mem hr⟩
    · rw [← hmem] at hr
      rw [offer_of_not_mem hr]
      exact ⟨add_of_not_mem hr, rfl⟩
  · -- An order in which all comes after its prerequisites would rule the cycle out.
    obtain ⟨x, hx⟩ := hcycle
    rcases ordered_of_known hnodup (findUnknown_of_complete h) (hcomplete h) with
      ⟨y, hy, hloop⟩ | ⟨order, -, hperm, hsorted⟩
    · exact ⟨y, hloop, hy⟩
    · exact absurd hx (hsorted.acyclic (hperm.map _) hnodup x)
  · rcases ordered_of_known hnodup (findUnknown_of_complete h) (hcomplete h) with
      ⟨y, -, hloop⟩ | ⟨order, horder, hperm, hsorted⟩
    · exact absurd hloop (hacyclic y)
    · refine ⟨order, horder, hperm, (hperm.map _).nodup_iff.2 hnodup, fun a r b hsplit x hx => ?_⟩
      have hr : r ∈ (registered offered).recipes := hperm.mem_iff.1 (by rw [hsplit]; simp)
      have hmem : x ∈ a.map (·.id) :=
        hsorted (a.map (·.id)) r.id (b.map (·.id)) (by simp [hsplit]) x ⟨r, hr, rfl, hx⟩
      obtain ⟨r', hr', hid⟩ := List.mem_map.1 hmem
      exact ⟨r', hr', hid⟩

/-- Two recipes that need each other, after one that needs the first of them and is on no cycle, with a
further one that is refused. -/
def entangled : List Recipe :=
  [{ Recipe.minimal "c" with prerequisites := ["a"] }, { Recipe.minimal "a" with prerequisites := ["b"] },
    { Recipe.minimal "b" with prerequisites := ["a"] }, Recipe.minimal "a"]

theorem entangled_ordered :
    ∃ x, TransGen (registered entangled).Needs x x ∧
      (registered entangled).ordered = .error (.prerequisiteCycle x) := by
  refine (registered_ordered entangled).2.2.1 ?_ ⟨"a", ?_⟩
  · unfold Complete
    decide
  · have hab : (registered entangled).Needs "a" "b" :=
      ⟨{ Recipe.minimal "a" with prerequisites := ["b"] }, .tail _ (.head _), rfl, .head _⟩
    have hba : (registered entangled).Needs "b" "a" :=
      ⟨{ Recipe.minimal "b" with prerequisites := ["a"] }, .tail _ (.tail _ (.head _)), rfl, .head _⟩
    exact .head hab (.single hba)

end Pipeline

end Refactor
