import Refactor.Pattern.TypePattern
import Refactor.Proofs.Types.Supertypes

/-!
# The order of the search

The classes above a type are offered by the first routes to them, so nearer ones before those farther away
and, among those equally far away, interfaces in their order before the superclass. The search ends with the
first class that is accepted, or when it has offered all of them.
-/

namespace Refactor.Hierarchy

variable {h : Hierarchy} {accept : ClassType → Bool} {start : String}

/-! ### Fuel -/

/-- No more names are taken. -/
def Frontier.IsOver (f : Frontier) : Prop := f.found = true ∨ f.queue = []

theorem Frontier.run_of_isOver {f : Frontier} (hover : f.IsOver) (fuel : Nat) :
    Frontier.run h accept fuel f = f := by
  cases fuel with
  | zero => rfl
  | succ fuel =>
    unfold Frontier.run
    rcases hover with hfound | hqueue
    · rw [if_pos hfound]
    · rw [hqueue]
      split <;> rfl

/-- Fuel that lasts is as good as more. -/
theorem Frontier.run_add_of_isOver (fuel more : Nat) : ∀ f : Frontier,
    (Frontier.run h accept fuel f).IsOver →
      Frontier.run h accept (fuel + more) f = Frontier.run h accept fuel f := by
  induction fuel with
  | zero => exact fun f hover => run_of_isOver hover _
  | succ fuel ih =>
    intro f hover
    by_cases hfirst : f.IsOver
    · rw [run_of_isOver hfirst, run_of_isOver hfirst]
    have hgoes : ¬ f.found = true := fun hfound => hfirst (Or.inl hfound)
    rw [Nat.add_right_comm]
    unfold Frontier.run at hover ⊢
    rw [if_neg hgoes] at hover
    rw [if_neg hgoes, if_neg hgoes]
    cases hqueue : f.queue with
    | nil => exact absurd (Or.inr hqueue) hfirst
    | cons name rest =>
      rw [hqueue] at hover
      dsimp only at hover ⊢
      cases hlookup : h.lookup name with
      | none =>
        rw [hlookup] at hover
        exact ih _ hover
      | some c =>
        rw [hlookup] at hover
        exact ih _ hover

/-! ### Order -/

namespace Frontier

variable {f : Frontier} {past waiting : List Stop} {bound : List Nat}

/-- **What is offered stands in the order of the first routes**, and so by distance. -/
theorem Trail.pairwise_precedes (ht : f.Trail h accept start past waiting bound) :
    f.offered.Pairwise fun c d => h.Precedes start c.name d.name ∧
      ∃ m n, h.IsDistance start c.name m ∧ h.IsDistance start d.name n ∧ m ≤ n := by
  rw [ht.offered, List.pairwise_filterMap]
  refine ht.charted.sorted.tail.imp_of_mem ?_
  intro s t hs hmem hlt c hc d hd
  rw [ht.name_eq hs hc, ht.name_eq hmem hd]
  have hs := List.mem_of_mem_tail hs
  have hmem := List.mem_of_mem_tail hmem
  exact ⟨ht.charted.precedes hs hmem hlt, s.route.length, t.route.length, ht.charted.isDistance hs,
    ht.charted.isDistance hmem, length_le_of_rank_le hlt.le⟩

/-- No class is offered twice, not even two of one name. -/
theorem Trail.nodup_offered (ht : f.Trail h accept start past waiting bound) :
    (f.offered.map ClassType.name).Nodup := by
  refine List.pairwise_map.2 (ht.pairwise_precedes.imp_of_mem ?_)
  rintro c d - - ⟨⟨route, hroute, hfirst⟩, -⟩ hname
  exact absurd (hfirst route (hname ▸ hroute)) (lt_irrefl _)

/-- Nothing accepted comes before what is offered. -/
theorem Trail.not_precedes {name : String} (ht : f.Trail h accept (eraseGenerics name) past waiting bound)
    {c d : ClassType} (hc : c ∈ f.offered) (hd : h.Above name d) (hne : d.name ≠ eraseGenerics name)
    (haccept : accept d = true) : ¬ h.Precedes (eraseGenerics name) d.name c.name := by
  rintro ⟨route, hroute, hfirst⟩
  obtain ⟨s, hs, hlookup⟩ := ht.mem_offered_iff.1 hc
  have hmem : s ∈ past ++ waiting := List.mem_of_mem_tail hs
  have hbefore : rank route < rank s.route :=
    hfirst s.route (by rw [ht.name_eq hs hlookup]; exact ht.charted.climbs s hmem)
  -- The accepted class has been met, and last of all.
  obtain ⟨t, hmet, hname, hle⟩ := ht.charted.cover hroute (Or.inl (hbefore.trans (ht.charted.below s hmem)))
  have htail : t ∈ (past ++ waiting).tail := ht.charted.mem_tail_iff.2 ⟨hmet, by rwa [hname]⟩
  have hlast := ht.last t htail d (by rw [hname]; exact (above_iff.1 hd).2) haccept s hmem
  exact absurd (hbefore.trans_le (hlast.trans hle)) (lt_irrefl _)

/-- What is not offered is preceded by a class that is accepted. -/
theorem Trail.exists_precedes {name : String} (ht : f.Trail h accept (eraseGenerics name) past waiting bound)
    (hend : f.found = false → waiting = [] ∧ h.Spent past bound) {c : ClassType} (hc : h.Above name c)
    (hne : c.name ≠ eraseGenerics name) (hnot : c ∉ f.offered) :
    ∃ d, h.Above name d ∧ d.name ≠ eraseGenerics name ∧ accept d = true ∧
      h.Precedes (eraseGenerics name) d.name c.name := by
  -- A type that was not offered is not on the trail, by whatever route it is reached.
  have hunmet : ∀ route, h.climb (eraseGenerics name) route = some c.name →
      ¬ (rank route < rank bound ∨ h.Spent (past ++ waiting) bound) := by
    intro route hroute hcover
    obtain ⟨t, hmet, hname, -⟩ := ht.charted.cover hroute hcover
    exact hnot (ht.mem_offered hc hne hmet hname)
  cases hfound : f.found with
  | false =>
    -- The search ran dry, and then it has met all there is.
    obtain ⟨rfl, hspent⟩ := hend hfound
    obtain ⟨route, -, hroute⟩ := transGen_under_iff.1 (above_iff.1 hc).1
    exact absurd (Or.inr (by rwa [List.append_nil])) (hunmet route hroute)
  | true =>
    -- What was found has a route below the bound, and all routes to the other are not.
    rw [ht.found, List.any_eq_true] at hfound
    obtain ⟨d, hd, haccept⟩ := hfound
    obtain ⟨habove, hstart⟩ := ht.above hd
    obtain ⟨s, hs, hlookup⟩ := ht.mem_offered_iff.1 hd
    have hmem : s ∈ past ++ waiting := List.mem_of_mem_tail hs
    refine ⟨d, habove, hstart, haccept, s.route, ?_, fun other hother => ?_⟩
    · rw [ht.name_eq hs hlookup]
      exact ht.charted.climbs s hmem
    · exact (ht.charted.below s hmem).trans_le (not_lt.1 fun hlt => hunmet other hother (Or.inl hlt))

end Frontier

/-- **Breadth first.** On any table the search for a supertype ends, with fuel to spare for no more names than
the table has. It offers classes of different names, none of them that of the start, in the order of the
first routes to them, and so by distance: those that are known and above the start, up to the first that is
accepted. It answers whether any of them is. -/
theorem anySupertype_breadthFirst (h : Hierarchy) (name : String) (accept : ClassType → Bool) :
    (∃ f : Frontier, f.IsOver ∧ f.toSearch = h.search accept name ∧
      ∀ fuel, h.edgeCount + 1 ≤ fuel → Frontier.run h accept fuel (Frontier.init (eraseGenerics name)) = f) ∧
    ((h.search accept name).offered.map ClassType.name).Nodup ∧
    (h.search accept name).offered.Pairwise (fun c d =>
      h.Precedes (eraseGenerics name) c.name d.name ∧
        ∃ m n, h.IsDistance (eraseGenerics name) c.name m ∧ h.IsDistance (eraseGenerics name) d.name n ∧
          m ≤ n) ∧
    (∀ c, c ∈ (h.search accept name).offered ↔ h.Above name c ∧ c.name ≠ eraseGenerics name ∧
      ∀ d, h.Above name d → d.name ≠ eraseGenerics name → accept d = true →
        ¬ h.Precedes (eraseGenerics name) d.name c.name) ∧
    ((h.anySupertype name accept).value = true ↔
      ∃ c, h.Above name c ∧ c.name ≠ eraseGenerics name ∧ accept c = true) := by
  obtain ⟨past, waiting, bound, ht, hend⟩ := Frontier.exists_trail h accept (eraseGenerics name)
  have hover : (Frontier.run h accept (h.edgeCount + 1) (Frontier.init (eraseGenerics name))).IsOver := by
    cases hfound : (Frontier.run h accept (h.edgeCount + 1) (Frontier.init (eraseGenerics name))).found with
    | true => exact Or.inl hfound
    | false =>
      obtain ⟨rfl, -⟩ := hend hfound
      exact Or.inr ht.queue
  refine ⟨⟨_, hover, rfl, fun fuel hfuel => ?_⟩, ht.nodup_offered, ht.pairwise_precedes,
    fun c => ⟨fun hc => ?_, ?_⟩, h.search_found_iff accept name⟩
  · obtain ⟨more, rfl⟩ := Nat.exists_eq_add_of_le hfuel
    exact Frontier.run_add_of_isOver _ more _ hover
  · obtain ⟨habove, hne⟩ := ht.above hc
    exact ⟨habove, hne, fun d hd hstart haccept => ht.not_precedes hc hd hstart haccept⟩
  · rintro ⟨habove, hne, hfirst⟩
    by_contra hnot
    obtain ⟨d, hd, hstart, haccept, hprec⟩ := ht.exists_precedes hend habove hne hnot
    exact hfirst d hd hstart haccept hprec

-- A cycle through the start, a diamond, generic arguments and a type that is not in the table.
example : ((Hierarchy.ofList [
      { name := "A", supertype := some "B", interfaces := ["I<T>", "Unknown"] },
      { name := "B", supertype := some "A", interfaces := ["J"] },
      { name := "I", interfaces := ["J", "K<B>"] },
      { name := "J" }, { name := "K" }]).search (·.name = "J") "A<String>").offered.map ClassType.name =
    ["I", "B", "J"] := by
  decide +kernel

end Refactor.Hierarchy
