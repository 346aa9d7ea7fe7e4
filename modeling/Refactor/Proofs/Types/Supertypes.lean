import Mathlib.Data.List.Perm.Subperm
import Mathlib.Logic.Relation
import Mathlib.Tactic.Common
import Refactor.Proofs.Types.Routes

/-!
# The search through the supertypes

The names that a search has taken make up a trail that begins with the start: those at its front have
been dealt with, those behind wait in the queue. With the routes on which they were met they chart the
hierarchy up to the step that is next (`Frontier.Trail`). A trail holds no name twice, and none beside
the start that is not named in the table, so the fuel lasts until the queue is empty (`exists_trail`), on
any table.
-/

namespace Refactor

/-! ### Erasure -/

theorem not_mem_eraseChars (cs : List Char) : '<' ∉ eraseChars cs := by
  unfold eraseChars
  split
  · intro h
    rw [Text.trimEnd, List.mem_reverse] at h
    have hmem := List.mem_reverse.1 ((List.dropWhile_sublist Text.isBlank).subset h)
    have := List.all_eq_true.1 List.all_takeWhile '<' hmem
    simp at this
  · assumption

@[simp] theorem eraseChars_eraseChars (cs : List Char) : eraseChars (eraseChars cs) = eraseChars cs := by
  rw [eraseChars.eq_def (eraseChars cs), if_neg (not_mem_eraseChars cs)]

@[simp] theorem toList_eraseGenerics (name : String) :
    (eraseGenerics name).toList = eraseChars name.toList := by
  simp [eraseGenerics]

@[simp] theorem eraseGenerics_eraseGenerics (name : String) :
    eraseGenerics (eraseGenerics name) = eraseGenerics name := by
  rw [eraseGenerics, toList_eraseGenerics, eraseChars_eraseChars, eraseGenerics]

namespace Hierarchy

variable {h : Hierarchy} {accept : ClassType → Bool} {start : String}

/-- The second name is that of a type right above the first one, an interface or the superclass, as
far as the first is known. -/
def Under (h : Hierarchy) (a b : String) : Prop :=
  ∃ c, h.lookup a = some c ∧
    ∃ parent, (parent ∈ c.interfaces ∨ c.supertype = some parent) ∧ eraseGenerics parent = b

/-- The class is known and one or more steps above the type. -/
def Above (h : Hierarchy) (name : String) (c : ClassType) : Prop :=
  ∃ b, Relation.TransGen h.Under (eraseGenerics name) b ∧ h.lookup b = some c

theorem name_of_lookup {name : String} {c : ClassType} (hc : h.lookup name = some c) :
    c.name = eraseGenerics name := by
  simpa using List.find?_some hc

/-- The names that stand above some class of the table. -/
def parentNames (h : Hierarchy) : List String := (h.classes.flatMap (·.parents)).map eraseGenerics

theorem mem_parentNames {a b : String} (hab : h.Under a b) : b ∈ h.parentNames := by
  obtain ⟨c, hc, parent, hparent, rfl⟩ := hab
  exact List.mem_map_of_mem (List.mem_flatMap.2 ⟨c, List.mem_of_find?_eq_some hc,
    ClassType.mem_parents.2 hparent⟩)

theorem under_iff {a b : String} : h.Under a b ↔ ∃ place, h.parentAt a place = some b := by
  constructor
  · rintro ⟨c, hc, parent, hparent, rfl⟩
    obtain ⟨place, hplace⟩ := List.mem_iff_getElem?.1 (ClassType.mem_parents.2 hparent)
    exact ⟨place, parentAt_eq_some.2 ⟨c, parent, hc, hplace, rfl⟩⟩
  · rintro ⟨place, hplace⟩
    obtain ⟨c, parent, hc, hparent, rfl⟩ := parentAt_eq_some.1 hplace
    exact ⟨c, hc, parent, ClassType.mem_parents.1 (List.mem_of_getElem? hparent), rfl⟩

/-- What stands above a type is where the routes lead that take a step at all. -/
theorem transGen_under_iff {b : String} :
    Relation.TransGen h.Under start b ↔ ∃ route, route ≠ [] ∧ h.climb start route = some b := by
  constructor
  · intro hb
    induction hb with
    | single hb =>
      obtain ⟨i, hi⟩ := under_iff.1 hb
      exact ⟨[] ++ [i], List.append_ne_nil_of_right_ne_nil _ (List.cons_ne_nil _ _),
        climb_append_singleton_eq_some.2 ⟨start, climb_nil h start, hi⟩⟩
    | tail _ hbc ih =>
      obtain ⟨route, -, hroute⟩ := ih
      obtain ⟨i, hi⟩ := under_iff.1 hbc
      exact ⟨route ++ [i], List.append_ne_nil_of_right_ne_nil _ (List.cons_ne_nil _ _),
        climb_append_singleton_eq_some.2 ⟨_, hroute, hi⟩⟩
  · rintro ⟨route, hne, hroute⟩
    induction route using List.reverseRecOn generalizing b with
    | nil => exact absurd rfl hne
    | append_singleton route i ih =>
      obtain ⟨a, ha, hab⟩ := climb_append_singleton_eq_some.1 hroute
      have hstep : h.Under a b := under_iff.2 ⟨i, hab⟩
      by_cases hempty : route = []
      · rw [hempty, climb_nil, Option.some.injEq] at ha
        exact .single (ha ▸ hstep)
      · exact .tail (ih hempty ha) hstep

theorem mem_parentNames_of_transGen {a b : String} (hab : Relation.TransGen h.Under a b) :
    b ∈ h.parentNames := by
  cases hab with
  | single hab => exact mem_parentNames hab
  | tail _ hab => exact mem_parentNames hab

/-- What stands above a type is named without generic arguments. -/
theorem eraseGenerics_of_transGen {a b : String} (hab : Relation.TransGen h.Under a b) :
    eraseGenerics b = b := by
  obtain ⟨parent, -, rfl⟩ := List.mem_map.1 (mem_parentNames_of_transGen hab)
  exact eraseGenerics_eraseGenerics parent

theorem above_iff {name : String} {c : ClassType} : h.Above name c ↔
    Relation.TransGen h.Under (eraseGenerics name) c.name ∧ h.lookup c.name = some c := by
  constructor
  · rintro ⟨b, hb, hlookup⟩
    rw [name_of_lookup hlookup, eraseGenerics_of_transGen hb]
    exact ⟨hb, hlookup⟩
  · rintro ⟨hb, hlookup⟩
    exact ⟨c.name, hb, hlookup⟩

/-! ### The trail of a search -/

/-- The names of a search under way in the order in which they were met, each with its route, of which
`past` have been dealt with and the others wait. The step that ends at the bound is the next one. A class
that was accepted was met last. -/
structure Frontier.Trail (h : Hierarchy) (accept : ClassType → Bool) (start : String)
    (past waiting : List Stop) (bound : List Nat) (f : Frontier) : Prop where
  charted : h.Charted start (past ++ waiting) bound
  seen : ∀ a, a ∈ f.seen ↔ a ∈ (past ++ waiting).map Stop.name
  queue : f.queue = waiting.map Stop.name
  offered : f.offered = (past ++ waiting).tail.filterMap fun s => h.lookup s.name
  found : f.found = f.offered.any accept
  last : ∀ s ∈ (past ++ waiting).tail, ∀ c, h.lookup s.name = some c → accept c = true →
    ∀ t ∈ past ++ waiting, rank t.route ≤ rank s.route

namespace Frontier

variable {f : Frontier} {past waiting : List Stop} {bound : List Nat}

/-- All names but the start stand above it. -/
theorem Trail.transGen (ht : f.Trail h accept start past waiting bound) {s : Stop}
    (hs : s ∈ (past ++ waiting).tail) : Relation.TransGen h.Under start s.name := by
  obtain ⟨hmem, hne⟩ := ht.charted.mem_tail_iff.1 hs
  have hclimb := ht.charted.climbs s hmem
  refine transGen_under_iff.2 ⟨s.route, fun hnil => hne ?_, hclimb⟩
  rw [hnil, climb_nil, Option.some.injEq] at hclimb
  exact hclimb.symm

theorem Trail.mem_offered_iff (ht : f.Trail h accept start past waiting bound) {c : ClassType} :
    c ∈ f.offered ↔ ∃ s ∈ (past ++ waiting).tail, h.lookup s.name = some c := by
  rw [ht.offered, List.mem_filterMap]

/-- As long as the search goes on, no class of the trail was accepted. -/
theorem Trail.not_accept (ht : f.Trail h accept start past waiting bound) (hfound : f.found = false)
    {s : Stop} (hs : s ∈ (past ++ waiting).tail) {c : ClassType} (hc : h.lookup s.name = some c) :
    accept c = false := by
  rw [ht.found, List.any_eq_false] at hfound
  simpa using hfound c (ht.mem_offered_iff.2 ⟨s, hs, hc⟩)

/-- What the search comes to with a name it has not met. -/
def add (h : Hierarchy) (accept : ClassType → Bool) (f : Frontier) (b : String) : Frontier :=
  { f with
    seen := b :: f.seen
    queue := f.queue ++ [b]
    offered := f.offered ++ (h.lookup b).toList
    found := (h.lookup b).any accept }

/-- A search that is over stays as it is. -/
theorem meet_of_found (hfound : f.found = true) (parent : String) : Frontier.meet h accept f parent = f :=
  if_pos hfound

theorem meet_of_not_mem {parent : String} (hfound : f.found = false) (hnew : eraseGenerics parent ∉ f.seen) :
    Frontier.meet h accept f parent = f.add h accept (eraseGenerics parent) := by
  obtain ⟨⟨found, offered, revisited⟩, seen, queue⟩ := f
  obtain rfl : found = false := hfound
  unfold Frontier.meet add
  dsimp only at hnew ⊢
  rw [if_neg Bool.false_ne_true, if_neg hnew]
  cases h.lookup (eraseGenerics parent) <;> simp

/-- **A new name** goes to the end of the trail. -/
theorem Trail.add {s : Stop} {i : Nat} {b : String}
    (ht : f.Trail h accept start past waiting (s.route ++ [i])) (hfound : f.found = false)
    (hs : s ∈ past ++ waiting) (hstep : h.parentAt s.name i = some b) (hnew : b ∉ f.seen) :
    (f.add h accept b).Trail h accept start past (waiting ++ [⟨b, s.route ++ [i]⟩]) (s.route ++ [i + 1]) := by
  have hchart := ht.charted.push hs hstep fun hmem => hnew ((ht.seen b).2 hmem)
  rw [List.append_assoc] at hchart
  obtain ⟨later, hlater⟩ := ht.charted.exists_cons
  have htail : (past ++ (waiting ++ [Stop.mk b (s.route ++ [i])])).tail =
      (past ++ waiting).tail ++ [Stop.mk b (s.route ++ [i])] := by
    rw [← List.append_assoc, hlater, List.cons_append, List.tail_cons, List.tail_cons]
  constructor
  · exact hchart
  · intro a
    show a ∈ b :: f.seen ↔ _
    simp only [List.mem_cons, ht.seen, List.map_append, List.mem_append, List.map_singleton]
    tauto
  · show f.queue ++ [b] = _
    rw [ht.queue, List.map_append, List.map_singleton]
  · -- The class of the name, if there is one, is offered in its turn.
    show f.offered ++ (h.lookup b).toList = _
    rw [htail, List.filterMap_append, ht.offered]
    cases hb : h.lookup b <;> simp [hb]
  · rw [ht.found] at hfound
    show (h.lookup b).any accept = (f.offered ++ (h.lookup b).toList).any accept
    rw [List.any_append, hfound]
    cases h.lookup b <;> simp
  · -- A class that is accepted now is the first, so all the others lie before it.
    rw [htail]
    intro t hmem c hc haccept
    rcases List.mem_append.1 hmem with hmem | hmem
    · rw [ht.not_accept hfound hmem hc] at haccept
      cases haccept
    · rw [List.mem_singleton.1 hmem, ← List.append_assoc]
      refine List.forall_mem_append.2 ⟨fun u hu => (ht.charted.below u hu).le, ?_⟩
      rw [List.forall_mem_singleton]

/-- **One name.** The bound goes on past it, unless the search is over. -/
theorem Trail.meet {s : Stop} {i : Nat} {parent : String}
    (ht : f.Trail h accept start past waiting (s.route ++ [i])) (hs : s ∈ past ++ waiting)
    (hstep : h.parentAt s.name i = some (eraseGenerics parent)) :
    ∃ more bound, (Frontier.meet h accept f parent).Trail h accept start past (waiting ++ more) bound ∧
      ((Frontier.meet h accept f parent).found = false → bound = s.route ++ [i + 1]) := by
  by_cases hfound : f.found = true
  · rw [meet_of_found hfound]
    exact ⟨[], _, by rwa [List.append_nil], fun hnot => by rw [hfound] at hnot; cases hnot⟩
  by_cases hseen : eraseGenerics parent ∈ f.seen
  · refine ⟨[], s.route ++ [i + 1], ?_, fun _ => rfl⟩
    rw [List.append_nil, Frontier.meet, if_neg hfound, if_pos hseen]
    exact { ht with charted := ht.charted.again hs hstep ((ht.seen _).1 hseen) }
  · have hgoes : f.found = false := by simpa using hfound
    rw [meet_of_not_mem hgoes hseen]
    exact ⟨_, _, ht.add hgoes hs hstep hseen, fun _ => rfl⟩

theorem meetAll_of_found (hfound : f.found = true) (parents : List String) :
    parents.foldl (Frontier.meet h accept) f = f := by
  induction parents with
  | nil => rfl
  | cons parent rest ih => rw [List.foldl_cons, meet_of_found hfound, ih]

/-- **One type.** With the names at the places from `i` on, the bound goes past the last of them, unless the
search is over. -/
theorem Trail.meetAll {s : Stop} {c : ClassType} (hc : h.lookup s.name = some c) (hs : s ∈ past)
    (rest : List String) : ∀ {f : Frontier} {waiting : List Stop} {i : Nat}, c.parents.drop i = rest →
      f.Trail h accept start past waiting (s.route ++ [i]) →
      ∃ more bound, (rest.foldl (Frontier.meet h accept) f).Trail h accept start past (waiting ++ more) bound ∧
        ((rest.foldl (Frontier.meet h accept) f).found = false → bound = s.route ++ [i + rest.length]) := by
  induction rest with
  | nil =>
    intro f waiting i _ ht
    exact ⟨[], _, by rwa [List.append_nil], fun _ => rfl⟩
  | cons parent rest ih =>
    intro f waiting i hdrop ht
    have hplace : c.parents[i]? = some parent := by
      rw [← List.head?_drop, hdrop, List.head?_cons]
    have hnext : c.parents.drop (i + 1) = rest := by
      rw [← List.tail_drop, hdrop, List.tail_cons]
    obtain ⟨more, bound, hmet, hbound⟩ := ht.meet (List.mem_append_left _ hs)
      (parentAt_eq_some.2 ⟨c, parent, hc, hplace, rfl⟩)
    rw [List.foldl_cons]
    cases hfound : (Frontier.meet h accept f parent).found with
    | true =>
      -- Once a type is found the rest of the parents are passed over.
      rw [meetAll_of_found hfound]
      exact ⟨more, bound, hmet, fun hnot => by rw [hfound] at hnot; cases hnot⟩
    | false =>
      obtain rfl := hbound hfound
      obtain ⟨others, last, hall, hlast⟩ := ih hnext hmet
      rw [List.append_assoc] at hall
      refine ⟨more ++ others, last, hall, fun hnot => ?_⟩
      rw [hlast hnot, List.length_cons, Nat.add_assoc, Nat.add_comm 1]

/-- The trail is no longer than the table has names, and one more. -/
theorem Trail.length_le (ht : f.Trail h accept start past waiting bound) :
    (past ++ waiting).length ≤ h.edgeCount + 1 := by
  have hsub : (past ++ waiting).map Stop.name ⊆ start :: h.parentNames := by
    intro a ha
    obtain ⟨s, hs, rfl⟩ := List.mem_map.1 ha
    by_cases hname : s.name = start
    · exact hname ▸ List.mem_cons_self
    · have habove := ht.transGen (ht.charted.mem_tail_iff.2 ⟨hs, hname⟩)
      exact List.mem_cons_of_mem _ (mem_parentNames_of_transGen habove)
  have hlen := (List.subperm_of_subset ht.charted.nodup hsub).length_le
  simpa [parentNames, edgeCount] using hlen

/-- The search stands before the first place at the name that is next in the queue, or there is none and all
steps have been taken. -/
def Ready (h : Hierarchy) (past : List Stop) (bound : List Nat) : List Stop → Prop
  | [] => h.Spent past bound
  | next :: _ => bound = next.route ++ [0]

/-- When all names at a type have been met, so have those at the types before it. -/
theorem Trail.spent {s : Stop} {places : Nat}
    (ht : f.Trail h accept start (past ++ [s]) waiting (s.route ++ [places]))
    (hplaces : ∀ i b, h.parentAt s.name i = some b → i < places) :
    h.Spent (past ++ [s]) (s.route ++ [places]) := by
  intro t hmem i b hb
  refine rank_append_singleton_lt_iff.2 ?_
  rcases List.mem_append.1 hmem with hmem | hmem
  · have hsorted := (List.pairwise_append.1 (List.pairwise_append.1 ht.charted.sorted).1).2.2
    exact Or.inl (hsorted t hmem s (List.mem_singleton_self s))
  · rw [List.mem_singleton.1 hmem] at hb ⊢
    exact Or.inr ⟨rfl, hplaces i b hb⟩

/-- Then the name that is next in the queue comes up. -/
theorem Trail.advance {s : Stop} {places : Nat}
    (ht : f.Trail h accept start (past ++ [s]) waiting (s.route ++ [places]))
    (hplaces : ∀ i b, h.parentAt s.name i = some b → i < places) :
    ∃ bound, f.Trail h accept start (past ++ [s]) waiting bound ∧ Ready h (past ++ [s]) bound waiting := by
  have hspent := ht.spent hplaces
  cases waiting with
  | nil => exact ⟨_, ht, hspent⟩
  | cons next rest =>
    refine ⟨next.route ++ [0], { ht with charted := ht.charted.raise ?_ ?_ }, rfl⟩
    · have hlt := (List.pairwise_append.1 ht.charted.sorted).2.2 s (by simp) next List.mem_cons_self
      exact (rank_append_singleton_lt_iff.2 (Or.inl hlt)).le
    · intro t hmem i b hb hlt
      rcases List.mem_append.1 hmem with hmem | hmem
      · exact hspent t hmem i b hb
      · -- The steps from the names that wait come after the bound.
        have hle : rank next.route ≤ rank t.route := by
          rcases List.mem_cons.1 hmem with rfl | hmem
          · exact le_rfl
          · exact ((List.pairwise_cons.1 (List.pairwise_append.1 ht.charted.sorted).2.1).1 t hmem).le
        rcases rank_append_singleton_lt_iff.1 hlt with hlt | ⟨-, hlt⟩
        · exact absurd hlt hle.not_gt
        · exact absurd hlt (Nat.not_lt_zero i)

/-- The name that is next in the queue is taken off it. -/
theorem Trail.pop {s : Stop} {rest : List Stop} (ht : f.Trail h accept start past (s :: rest) bound) :
    Trail h accept start (past ++ [s]) rest bound { f with queue := rest.map Stop.name } := by
  have hcut : past ++ s :: rest = (past ++ [s]) ++ rest := by rw [List.append_assoc, List.singleton_append]
  refine ⟨?_, ?_, rfl, ?_, ht.found, ?_⟩
  · exact hcut ▸ ht.charted
  · exact hcut ▸ ht.seen
  · exact hcut ▸ ht.offered
  · exact hcut ▸ ht.last

/-- **The search.** With a unit of fuel for every name that the table may still add to the trail, it ends
with a class accepted or with all names of the trail dealt with. -/
theorem Trail.run (fuel : Nat) : ∀ {f : Frontier} {past waiting : List Stop} {bound : List Nat},
    f.Trail h accept start past waiting bound → (f.found = false → Ready h past bound waiting) →
      h.edgeCount + 1 ≤ fuel + past.length →
      ∃ past waiting bound, (Frontier.run h accept fuel f).Trail h accept start past waiting bound ∧
        ((Frontier.run h accept fuel f).found = false → waiting = [] ∧ h.Spent past bound) := by
  induction fuel with
  | zero =>
    intro f past waiting bound ht hready hfuel
    -- There are no more stops than the table has edges, so none is left waiting.
    have hlen := ht.length_le
    rw [List.length_append] at hlen
    obtain rfl : waiting = [] := List.eq_nil_of_length_eq_zero (by omega)
    exact ⟨past, [], bound, ht, fun hfound => ⟨rfl, hready hfound⟩⟩
  | succ fuel ih =>
    intro f past waiting bound ht hready hfuel
    unfold Frontier.run
    by_cases hfound : f.found = true
    · rw [if_pos hfound]
      exact ⟨past, waiting, bound, ht, fun hnot => by rw [hfound] at hnot; cases hnot⟩
    rw [if_neg hfound]
    have hready := hready (by simpa using hfound)
    cases waiting with
    | nil =>
      rw [show f.queue = [] from ht.queue]
      exact ⟨past, [], bound, ht, fun _ => ⟨rfl, hready⟩⟩
    | cons s rest =>
      obtain rfl : bound = s.route ++ [0] := hready
      rw [show f.queue = s.name :: rest.map Stop.name from ht.queue]
      have hpopped := ht.pop
      have hpast : h.edgeCount + 1 ≤ fuel + (past ++ [s]).length := by
        rw [List.length_append, List.length_singleton]
        omega
      dsimp only
      cases hlookup : h.lookup s.name with
      | none =>
        -- A name that the table does not know leads nowhere.
        obtain ⟨bound, hnext, hready⟩ := hpopped.advance fun i b hb => by simp [parentAt, hlookup] at hb
        exact ih hnext (fun _ => hready) hpast
      | some c =>
        obtain ⟨more, bound, hmet, hbound⟩ := Trail.meetAll hlookup (by simp) c.parents List.drop_zero hpopped
        dsimp only
        cases hover : (c.parents.foldl (Frontier.meet h accept) { f with queue := rest.map Stop.name }).found with
        -- The search is over, and does nothing more with the fuel it has.
        | true => exact ih hmet (fun hnot => by rw [hover] at hnot; cases hnot) hpast
        | false =>
          -- All parents have been met, so the bound moves on to the next stop.
          obtain rfl := hbound hover
          obtain ⟨bound, hnext, hready⟩ := hmet.advance fun i b hb => by
            obtain ⟨c', parent, hc', hparent, -⟩ := parentAt_eq_some.1 hb
            obtain rfl : c = c' := Option.some.inj (hlookup.symm.trans hc')
            rw [Nat.zero_add]
            exact (List.getElem?_eq_some_iff.1 hparent).1
          exact ih hnext (fun _ => hready) hpast

/-- The search before its first name. -/
def init (start : String) : Frontier := { seen := [start], queue := [start] }

/-- **What a search comes to.** Unless some class was accepted, no name waits and all steps are taken. -/
theorem exists_trail (h : Hierarchy) (accept : ClassType → Bool) (start : String) :
    ∃ past waiting bound,
      (Frontier.run h accept (h.edgeCount + 1) (init start)).Trail h accept start past waiting bound ∧
        ((Frontier.run h accept (h.edgeCount + 1) (init start)).found = false →
          waiting = [] ∧ h.Spent past bound) := by
  have hinit : (init start).Trail h accept start [] [⟨start, []⟩] [0] :=
    ⟨.single h start, by simp [init], rfl, rfl, rfl, by simp⟩
  exact hinit.run (h.edgeCount + 1) (fun _ => rfl) (Nat.le_refl _)

/-! ### What is offered -/

/-- The class at a stop bears its name. -/
theorem Trail.name_eq (ht : f.Trail h accept start past waiting bound) {s : Stop}
    (hs : s ∈ (past ++ waiting).tail) {c : ClassType} (hc : h.lookup s.name = some c) : c.name = s.name := by
  rw [name_of_lookup hc, eraseGenerics_of_transGen (ht.transGen hs)]

/-- What is offered is above the start and is not the start. -/
theorem Trail.above {name : String} (ht : f.Trail h accept (eraseGenerics name) past waiting bound)
    {c : ClassType} (hc : c ∈ f.offered) : h.Above name c ∧ c.name ≠ eraseGenerics name := by
  obtain ⟨s, hs, hlookup⟩ := ht.mem_offered_iff.1 hc
  rw [ht.name_eq hs hlookup]
  exact ⟨⟨s.name, ht.transGen hs, hlookup⟩, (ht.charted.mem_tail_iff.1 hs).2⟩

/-- A class other than the start is offered when its name is on the trail. -/
theorem Trail.mem_offered {name : String} (ht : f.Trail h accept (eraseGenerics name) past waiting bound)
    {c : ClassType} (habove : h.Above name c) (hne : c.name ≠ eraseGenerics name) {t : Stop}
    (hmem : t ∈ past ++ waiting) (hname : t.name = c.name) : c ∈ f.offered := by
  refine ht.mem_offered_iff.2 ⟨t, ht.charted.mem_tail_iff.2 ⟨hmem, ?_⟩, ?_⟩
  · rwa [hname]
  · rw [hname]
    exact (above_iff.1 habove).2

end Frontier

/-- **A search finds what is there**: a class that is accepted, known and strictly above the type. -/
theorem search_found_iff (h : Hierarchy) (accept : ClassType → Bool) (name : String) :
    (h.search accept name).found = true ↔
      ∃ c, h.Above name c ∧ c.name ≠ eraseGenerics name ∧ accept c = true := by
  obtain ⟨past, waiting, bound, ht, hend⟩ := Frontier.exists_trail h accept (eraseGenerics name)
  have hfound : (h.search accept name).found = (h.search accept name).offered.any accept := ht.found
  constructor
  · intro hyes
    rw [hfound, List.any_eq_true] at hyes
    obtain ⟨c, hc, haccept⟩ := hyes
    obtain ⟨habove, hne⟩ := ht.above hc
    exact ⟨c, habove, hne, haccept⟩
  · rintro ⟨c, habove, hne, haccept⟩
    by_contra hnot
    have hgoes : (h.search accept name).found = false := by simpa using hnot
    obtain ⟨rfl, hspent⟩ := hend hgoes
    obtain ⟨route, -, hroute⟩ := transGen_under_iff.1 (above_iff.1 habove).1
    obtain ⟨t, hmem, hname, -⟩ := ht.charted.cover hroute (Or.inr (by rwa [List.append_nil]))
    refine hnot ?_
    rw [hfound, List.any_eq_true]
    exact ⟨c, ht.mem_offered habove hne hmem hname, haccept⟩

end Hierarchy

end Refactor
