import Mathlib.Data.List.Lex
import Mathlib.Data.List.Nodup
import Mathlib.Data.List.Induction
import Mathlib.Data.Prod.Lex
import Mathlib.Order.Bounds.Defs
import Refactor.Types.Hierarchy

/-!
# Routes up the hierarchy

A route says at each type on the way at which place among the types right above it to go on, and `climb`
goes along it. Routes are ranked by their length, and those of one length place by place, so the first
route to a type is a shortest one and among these the one that keeps to the earlier places.

A list of stops, each a name with a route to it, charts the routes up to a bound when it has a stop for
every name that a route before the bound leads to (`Charted`). The stops then stand in the order of the
first routes to their names (`Charted.rank_le`).
-/

namespace Refactor

namespace ClassType

theorem mem_parents {c : ClassType} {parent : String} :
    parent ∈ c.parents ↔ parent ∈ c.interfaces ∨ c.supertype = some parent := by
  rw [parents, List.mem_append, Option.mem_toList]

/-- The superclass comes right after the last of the interfaces. -/
theorem getElem?_parents (c : ClassType) (place : Nat) :
    c.parents[place]? =
      if place = c.interfaces.length then c.supertype else c.interfaces[place]? := by
  unfold parents
  rcases Nat.lt_trichotomy place c.interfaces.length with hlt | rfl | hgt
  · rw [List.getElem?_append_left hlt, if_neg (Nat.ne_of_lt hlt)]
  · rw [List.getElem?_append_right (Nat.le_refl _), Nat.sub_self, if_pos rfl]
    cases c.supertype <;> rfl
  · have hnone : c.interfaces.length + c.supertype.toList.length ≤ place := by
      cases c.supertype with
      | none => exact Nat.le_of_lt hgt
      | some parent => exact hgt
    rw [List.getElem?_eq_none (by rwa [List.length_append]), if_neg (Nat.ne_of_gt hgt),
      List.getElem?_eq_none (Nat.le_of_lt hgt)]

end ClassType

namespace Hierarchy

/-- The name at that place right above a type, as far as the type is known: there are its interfaces, in
their order, and after the last of them its superclass. -/
def parentAt (h : Hierarchy) (name : String) (place : Nat) : Option String :=
  (h.lookup name).bind fun c =>
    (if place = c.interfaces.length then c.supertype else c.interfaces[place]?).map eraseGenerics

/-- Where the route leads to. -/
def climb (h : Hierarchy) (start : String) (route : List Nat) : Option String :=
  route.foldlM h.parentAt start

variable {h : Hierarchy} {start a b : String}

theorem climb_nil (h : Hierarchy) (start : String) : h.climb start [] = some start := rfl

theorem climb_append_singleton (h : Hierarchy) (start : String) (route : List Nat) (place : Nat) :
    h.climb start (route ++ [place]) = (h.climb start route).bind (h.parentAt · place) := by
  unfold climb
  rw [List.foldlM_append]
  cases route.foldlM h.parentAt start with
  | none => rfl
  | some a => simp

/-- The last step of a route. -/
theorem climb_append_singleton_eq_some {route : List Nat} {place : Nat} :
    h.climb start (route ++ [place]) = some b ↔
      ∃ a, h.climb start route = some a ∧ h.parentAt a place = some b := by
  rw [climb_append_singleton, Option.bind_eq_some_iff]

theorem parentAt_eq_some {place : Nat} : h.parentAt a place = some b ↔
    ∃ c parent, h.lookup a = some c ∧ c.parents[place]? = some parent ∧ eraseGenerics parent = b := by
  unfold parentAt
  rw [Option.bind_eq_some_iff]
  simp only [← ClassType.getElem?_parents, Option.map_eq_some_iff, exists_and_left]

/-! ### The order of routes -/

/-- Routes by their length, and those of one length place by place. -/
def rank (route : List Nat) : ℕ ×ₗ List ℕ := toLex (route.length, route)

theorem rank_injective : Function.Injective rank := fun _ _ h => congrArg (fun r => (ofLex r).2) h

theorem length_le_of_rank_le {r s : List Nat} (h : rank r ≤ rank s) : r.length ≤ s.length := by
  rcases Prod.Lex.toLex_le_toLex.1 h with h | h
  · exact Nat.le_of_lt h
  · exact Nat.le_of_eq h.1

theorem rank_lt_of_length_lt {r s : List Nat} (h : r.length < s.length) : rank r < rank s :=
  Prod.Lex.toLex_lt_toLex.2 (Or.inl h)

theorem rank_lt_append_singleton (r : List Nat) (i : Nat) : rank r < rank (r ++ [i]) :=
  rank_lt_of_length_lt (by simp)

theorem append_singleton_lt_iff {r s : List Nat} (hlen : r.length = s.length) (i j : Nat) :
    r ++ [i] < s ++ [j] ↔ r < s ∨ r = s ∧ i < j := by
  induction r generalizing s with
  | nil =>
    obtain rfl : s = [] := List.eq_nil_of_length_eq_zero hlen.symm
    simp [List.cons_lt_cons_iff]
  | cons a r ih =>
    obtain ⟨b, s, rfl⟩ := List.exists_cons_of_length_eq_add_one hlen.symm
    rw [List.cons_append, List.cons_append, List.cons_lt_cons_iff, List.cons_lt_cons_iff,
      ih (Nat.succ.inj hlen), List.cons.injEq]
    tauto

/-- **The last step** decides between routes that are otherwise equal. -/
theorem rank_append_singleton_lt_iff {r s : List Nat} {i j : Nat} :
    rank (r ++ [i]) < rank (s ++ [j]) ↔ rank r < rank s ∨ r = s ∧ i < j := by
  unfold rank
  rw [Prod.Lex.toLex_lt_toLex, Prod.Lex.toLex_lt_toLex]
  simp only [List.length_append, List.length_singleton, Nat.add_lt_add_iff_right, Nat.add_right_cancel_iff]
  by_cases hlen : r.length = s.length
  · rw [append_singleton_lt_iff hlen]
    simp [hlen]
  · have hne : r ≠ s := fun heq => hlen (congrArg List.length heq)
    simp [hlen, hne]

theorem rank_append_singleton_mono {r s : List Nat} (h : rank r ≤ rank s) (i : Nat) :
    rank (r ++ [i]) ≤ rank (s ++ [i]) := by
  rcases h.lt_or_eq with h | h
  · exact (rank_append_singleton_lt_iff.2 (Or.inl h)).le
  · rw [rank_injective h]

/-! ### Distance and precedence -/

/-- So many steps up, and not fewer, lead from the one to the other. -/
def IsDistance (h : Hierarchy) (start name : String) (distance : Nat) : Prop :=
  IsLeast {n | ∃ route, h.climb start route = some name ∧ route.length = n} distance

/-- Some route to the first comes before all routes to the second. -/
def Precedes (h : Hierarchy) (start first second : String) : Prop :=
  ∃ route, h.climb start route = some first ∧
    ∀ other, h.climb start other = some second → rank route < rank other

/-! ### Charts -/

/-- A name and a route that leads to it. -/
structure Stop where
  name : String
  route : List Nat

/-- The stops, in the order of their routes, are the names that routes before the bound lead to: each name
that is one step above a stop is itself a stop, as far as that step ends before the bound. -/
structure Charted (h : Hierarchy) (start : String) (stops : List Stop) (bound : List Nat) : Prop where
  origin : stops.head? = some ⟨start, []⟩
  climbs : ∀ s ∈ stops, h.climb start s.route = some s.name
  nodup : (stops.map Stop.name).Nodup
  sorted : stops.Pairwise fun s t => rank s.route < rank t.route
  below : ∀ s ∈ stops, rank s.route < rank bound
  closed : ∀ s ∈ stops, ∀ i b, h.parentAt s.name i = some b → rank (s.route ++ [i]) < rank bound →
    ∃ t ∈ stops, t.name = b ∧ rank t.route ≤ rank (s.route ++ [i])

/-- No step from a stop ends at the bound or after it. -/
def Spent (h : Hierarchy) (stops : List Stop) (bound : List Nat) : Prop :=
  ∀ s ∈ stops, ∀ i b, h.parentAt s.name i = some b → rank (s.route ++ [i]) < rank bound

namespace Charted

variable {stops : List Stop} {bound : List Nat}

theorem exists_cons (hc : h.Charted start stops bound) : ∃ later, stops = ⟨start, []⟩ :: later := by
  obtain ⟨later, hlater⟩ := List.head?_eq_some_iff.1 hc.origin
  exact ⟨later, hlater⟩

theorem origin_mem (hc : h.Charted start stops bound) : ⟨start, []⟩ ∈ stops := by
  obtain ⟨later, rfl⟩ := hc.exists_cons
  exact List.mem_cons_self

/-- The stops but the first are those that bear another name than the start. -/
theorem mem_tail_iff (hc : h.Charted start stops bound) {s : Stop} :
    s ∈ stops.tail ↔ s ∈ stops ∧ s.name ≠ start := by
  obtain ⟨later, rfl⟩ := hc.exists_cons
  have hnew : start ∉ later.map Stop.name := (List.nodup_cons.1 hc.nodup).1
  rw [List.tail_cons, List.mem_cons]
  constructor
  · intro hs
    exact ⟨Or.inr hs, fun heq => hnew (heq ▸ List.mem_map_of_mem hs)⟩
  · rintro ⟨rfl | hs, hne⟩
    · exact absurd rfl hne
    · exact hs

theorem eq_of_name_eq (hc : h.Charted start stops bound) {s t : Stop} (hs : s ∈ stops) (ht : t ∈ stops)
    (heq : s.name = t.name) : s = t :=
  List.inj_on_of_nodup_map hc.nodup hs ht heq

theorem eq_of_route_eq (hc : h.Charted start stops bound) {s t : Stop} (hs : s ∈ stops) (ht : t ∈ stops)
    (heq : s.route = t.route) : s = t := by
  refine hc.eq_of_name_eq hs ht (Option.some.inj ?_)
  rw [← hc.climbs s hs, ← hc.climbs t ht, heq]

/-- **Every name that is reached has a stop**, with a route that does not come later: every name at the
end of a route before the bound, and any name at all once the stops are spent. -/
theorem cover (hc : h.Charted start stops bound) {route : List Nat} (hroute : h.climb start route = some b)
    (hend : rank route < rank bound ∨ h.Spent stops bound) :
    ∃ t ∈ stops, t.name = b ∧ rank t.route ≤ rank route := by
  induction route using List.reverseRecOn generalizing b with
  | nil =>
    rw [climb_nil, Option.some.injEq] at hroute
    exact ⟨⟨start, []⟩, hc.origin_mem, hroute, le_rfl⟩
  | append_singleton route i ih =>
    obtain ⟨a, ha, hab⟩ := climb_append_singleton_eq_some.1 hroute
    obtain ⟨s, hs, rfl, hle⟩ := ih ha (hend.imp_left (rank_lt_append_singleton route i).trans)
    have hstep : rank (s.route ++ [i]) ≤ rank (route ++ [i]) := rank_append_singleton_mono hle i
    have hbelow : rank (s.route ++ [i]) < rank bound := by
      rcases hend with hlt | hspent
      · exact hstep.trans_lt hlt
      · exact hspent s hs i b hab
    obtain ⟨t, ht, hname, hfirst⟩ := hc.closed s hs i b hab hbelow
    exact ⟨t, ht, hname, hfirst.trans hstep⟩

/-- **The route of a stop is the first one** to its name. -/
theorem rank_le (hc : h.Charted start stops bound) {s : Stop} (hs : s ∈ stops) {route : List Nat}
    (hroute : h.climb start route = some s.name) : rank s.route ≤ rank route := by
  rcases lt_or_ge (rank route) (rank bound) with hlt | hge
  · obtain ⟨t, ht, hname, hle⟩ := hc.cover hroute (Or.inl hlt)
    rwa [← hc.eq_of_name_eq ht hs hname]
  · exact (hc.below s hs).le.trans hge

theorem isDistance (hc : h.Charted start stops bound) {s : Stop} (hs : s ∈ stops) :
    h.IsDistance start s.name s.route.length := by
  refine ⟨⟨s.route, hc.climbs s hs, rfl⟩, ?_⟩
  rintro n ⟨route, hroute, rfl⟩
  exact length_le_of_rank_le (hc.rank_le hs hroute)

theorem precedes (hc : h.Charted start stops bound) {s t : Stop} (hs : s ∈ stops) (ht : t ∈ stops)
    (hlt : rank s.route < rank t.route) : h.Precedes start s.name t.name :=
  ⟨s.route, hc.climbs s hs, fun _ hother => hlt.trans_le (hc.rank_le ht hother)⟩

/-! ### Moving the bound -/

theorem single (h : Hierarchy) (start : String) : h.Charted start [⟨start, []⟩] [0] where
  origin := rfl
  climbs := by simp [climb_nil]
  nodup := List.nodup_singleton _
  sorted := List.pairwise_singleton _ _
  below := by simpa using rank_lt_append_singleton [] 0
  closed := by
    rintro s hs i b - hlt
    obtain rfl := List.mem_singleton.1 hs
    have hlt : rank ([] ++ [i]) < rank ([] ++ [0]) := hlt
    rcases rank_append_singleton_lt_iff.1 hlt with hlt | ⟨-, hlt⟩
    · exact absurd hlt (lt_irrefl _)
    · exact absurd hlt (Nat.not_lt_zero i)

/-- The bound may go up as far as no step ends in between. -/
theorem raise (hc : h.Charted start stops bound) {bound' : List Nat} (hle : rank bound ≤ rank bound')
    (hbetween : ∀ s ∈ stops, ∀ i b, h.parentAt s.name i = some b → rank (s.route ++ [i]) < rank bound' →
      rank (s.route ++ [i]) < rank bound) : h.Charted start stops bound' :=
  { hc with
    below := fun s hs => (hc.below s hs).trans_le hle
    closed := fun s hs i b hb hlt => hc.closed s hs i b hb (hbetween s hs i b hb hlt) }

/-- Between two places at a stop there is but the step at the first of them. -/
theorem lt_or_eq_of_lt_succ (hc : h.Charted start stops bound) {s t : Stop} (hs : s ∈ stops) (ht : t ∈ stops)
    {i j : Nat} (hlt : rank (t.route ++ [j]) < rank (s.route ++ [i + 1])) :
    rank (t.route ++ [j]) < rank (s.route ++ [i]) ∨ t = s ∧ j = i := by
  rcases rank_append_singleton_lt_iff.1 hlt with hlt | ⟨hroute, hlt⟩
  · exact Or.inl (rank_append_singleton_lt_iff.2 (Or.inl hlt))
  · rcases Nat.lt_or_eq_of_le (Nat.le_of_lt_succ hlt) with hlt | heq
    · exact Or.inl (rank_append_singleton_lt_iff.2 (Or.inr ⟨hroute, hlt⟩))
    · exact Or.inr ⟨hc.eq_of_route_eq ht hs hroute, heq⟩

theorem place_lt_succ (r : List Nat) (i : Nat) : rank (r ++ [i]) < rank (r ++ [i + 1]) :=
  rank_append_singleton_lt_iff.2 (Or.inr ⟨rfl, Nat.lt_succ_self i⟩)

/-- The next step from a stop leads to a name that has a stop. -/
theorem again {s : Stop} {i : Nat} (hc : h.Charted start stops (s.route ++ [i])) (hs : s ∈ stops)
    (hstep : h.parentAt s.name i = some b) (hseen : b ∈ stops.map Stop.name) :
    h.Charted start stops (s.route ++ [i + 1]) where
  origin := hc.origin
  climbs := hc.climbs
  nodup := hc.nodup
  sorted := hc.sorted
  below := fun t ht => (hc.below t ht).trans (place_lt_succ s.route i)
  closed := by
    intro t ht j b' hb' hlt
    rcases hc.lt_or_eq_of_lt_succ hs ht hlt with hlt | ⟨rfl, rfl⟩
    · exact hc.closed t ht j b' hb' hlt
    · obtain ⟨u, hu, hname⟩ := List.mem_map.1 hseen
      rw [hstep, Option.some.injEq] at hb'
      exact ⟨u, hu, hname.trans hb', (hc.below u hu).le⟩

/-- The next step from a stop leads to a new name. -/
theorem push {s : Stop} {i : Nat} (hc : h.Charted start stops (s.route ++ [i])) (hs : s ∈ stops)
    (hstep : h.parentAt s.name i = some b) (hnew : b ∉ stops.map Stop.name) :
    h.Charted start (stops ++ [⟨b, s.route ++ [i]⟩]) (s.route ++ [i + 1]) where
  origin := by
    obtain ⟨later, rfl⟩ := hc.exists_cons
    rfl
  climbs := by
    refine List.forall_mem_append.2 ⟨hc.climbs, ?_⟩
    rw [List.forall_mem_singleton]
    exact climb_append_singleton_eq_some.2 ⟨s.name, hc.climbs s hs, hstep⟩
  nodup := by
    rw [List.map_append, List.map_singleton]
    refine List.nodup_append.2 ⟨hc.nodup, List.nodup_singleton _, fun a ha c hlast heq => hnew ?_⟩
    have hb : c = b := List.mem_singleton.1 hlast
    rwa [← hb, ← heq]
  sorted := by
    refine List.pairwise_append.2 ⟨hc.sorted, List.pairwise_singleton _ _, fun t ht u hu => ?_⟩
    rw [List.mem_singleton.1 hu]
    exact hc.below t ht
  below := by
    refine List.forall_mem_append.2 ⟨fun t ht => (hc.below t ht).trans (place_lt_succ s.route i), ?_⟩
    rw [List.forall_mem_singleton]
    exact place_lt_succ s.route i
  closed := by
    intro t ht j b' hb' hlt
    rcases List.mem_append.1 ht with ht | ht
    · rcases hc.lt_or_eq_of_lt_succ hs ht hlt with hlt | ⟨rfl, rfl⟩
      · obtain ⟨u, hu, hname⟩ := hc.closed t ht j b' hb' hlt
        exact ⟨u, List.mem_append_left _ hu, hname⟩
      · rw [hstep, Option.some.injEq] at hb'
        exact ⟨_, List.mem_append_right _ (List.mem_singleton_self _), hb', le_rfl⟩
    · -- A step from the new stop is longer than the bound.
      rw [List.mem_singleton.1 ht] at hlt
      have hlen := length_le_of_rank_le hlt.le
      simp at hlen

end Charted

end Hierarchy

end Refactor
