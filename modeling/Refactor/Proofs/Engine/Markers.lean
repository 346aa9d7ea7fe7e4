import Refactor.Proofs.Engine.Conservation
import Refactor.Proofs.Engine.Protocol
import Refactor.Proofs.Json.Agreement
import Refactor.Proofs.Visit.Queueing

/-!
# No note is left twice

In a tree no node of which has two markers that agree there are none however long recipes run over it,
whatever their visitors do (`run_keeps_unrepeated`). Markers come in one by one, each unless one that agrees
is there, go by source, and else are passed on as they are: that is said of one edit
(`Tree.maintains_unrepeated`), and passes and runs follow.
-/

namespace Refactor

/-! ### Markers that agree -/

/-- The two say the same. -/
inductive Payload.Agrees : Payload → Payload → Prop
  | searchResult (description : Option String) : Agrees (.searchResult description) (.searchResult description)
  | diagnostic (severity : Severity) (message : String) :
      Agrees (.diagnostic severity message) (.diagnostic severity message)
  | custom (kind : String) {a b : Json} : a.Agrees b → Agrees (.custom kind a) (.custom kind b)

theorem Payload.canonical_eq_iff {a b : Payload} : a.canonical = b.canonical ↔ a.Agrees b := by
  constructor
  · intro h
    cases a with
    | searchResult x =>
      cases b with
      | searchResult y =>
        cases h
        exact .searchResult x
      | _ => cases h
    | diagnostic x m =>
      cases b with
      | diagnostic y k =>
        cases h
        exact .diagnostic x m
      | _ => cases h
    | custom kind x =>
      cases b with
      | custom kind' y =>
        rw [canonical, canonical, custom.injEq, Json.canonical_eq_iff] at h
        obtain ⟨rfl, h⟩ := h
        exact .custom kind h
      | _ => cases h
  · intro h
    cases h with
    | searchResult | diagnostic => rfl
    | custom kind h => rw [canonical, canonical, (Json.canonical_eq_iff _ _).2 h]

namespace Marker

/-- The two are from one source and say the same. -/
structure Agrees (a b : Marker) : Prop where
  source : a.source = b.source
  payload : a.payload.Agrees b.payload

theorem same_iff {a b : Marker} : a.same b = true ↔ a.Agrees b := by
  rw [same, decide_eq_true_iff, canonical, canonical, mk.injEq, Payload.canonical_eq_iff]
  exact ⟨fun h => ⟨h.1, h.2⟩, fun h => ⟨h.source, h.payload⟩⟩

/-- No two markers of the list agree. -/
def Unrepeated (ms : List Marker) : Prop := ms.Pairwise fun a b => ¬ a.Agrees b

theorem unrepeated_iff_distinct {ms : List Marker} : Unrepeated ms ↔ Distinct ms := by
  simp only [Unrepeated, Distinct, ← same_iff, Bool.not_eq_true]

theorem isIn_iff {m : Marker} {ms : List Marker} : m.isIn ms = true ↔ ∃ k ∈ ms, m.Agrees k := by
  simp only [isIn, List.any_eq_true, same_iff]

theorem unrepeated_addTo (m : Marker) {ms : List Marker} (h : Unrepeated ms) : Unrepeated (m.addTo ms) :=
  unrepeated_iff_distinct.2 (distinct_addTo m (unrepeated_iff_distinct.1 h))

theorem unrepeated_gathered (ms : List Marker) : Unrepeated (Node.gathered ms) := by
  have hfold : ∀ (ms held : List Marker), Unrepeated held →
      Unrepeated (ms.foldl (fun held m => m.addTo held) held) := by
    intro ms
    induction ms with
    | nil => exact fun held h => h
    | cons m ms ih => exact fun held h => ih _ (unrepeated_addTo m h)
  exact hfold ms [] .nil

end Marker

theorem Edit.unrepeated_remark (e : Edit) {ms : List Marker} (h : Marker.Unrepeated ms) :
    Marker.Unrepeated (e.remark ms) := by
  cases e with
  | mark m => exact Marker.unrepeated_addTo m h
  | unmark source => exact h.filter _
  | _ => exact h

/-! ### Trees -/

/-- No node of the tree has two markers that agree. -/
def Tree.Unrepeated (t : Tree) : Prop := ∀ d ∈ t.descendants, Marker.Unrepeated d.label.markers

namespace Node

/-- No node of the tree has two markers that agree. -/
def Unrepeated (n : Node) : Prop := ∀ d ∈ n.descendants, Marker.Unrepeated d.label.markers.entries

theorem unrepeated_content (n : Node) : n.content.Unrepeated ↔ n.Unrepeated := by
  simp [Tree.Unrepeated, Unrepeated, descendants_content, Label.header]

theorem unrepeated_mk {l : Label} {s : Shape Node} : Unrepeated (.mk l s) ↔
    Marker.Unrepeated l.markers.entries ∧ ∀ c ∈ s.children, Unrepeated c := by
  constructor
  · intro h
    refine ⟨h _ (Labelled.self_mem_descendants _), fun c hc d hd => h d ?_⟩
    exact Labelled.mem_descendants.2 (Or.inr ⟨c, hc, hd⟩)
  · rintro ⟨hl, hs⟩ d hd
    rcases Labelled.mem_descendants.1 hd with rfl | ⟨c, hc, hd⟩
    · exact hl
    · exact hs c hc d hd

theorem Unrepeated.label {n : Node} (h : n.Unrepeated) : Marker.Unrepeated n.label.markers.entries :=
  h n (Labelled.self_mem_descendants n)

theorem Unrepeated.child {n c : Node} (h : n.Unrepeated) (hc : c ∈ n.children) : c.Unrepeated :=
  fun d hd => h d (Labelled.mem_descendants.2 (Or.inr ⟨c, hc, hd⟩))

/-- What is made of a draft has no marker twice, whatever the draft says. -/
theorem unrepeated_place (d : Draft) (s : Supply) (hs : 0 < s.stamp) : (d.place s).1.Unrepeated := by
  induction d using Labelled.ind generalizing s with
  | node l shape ih =>
    obtain ⟨label, cs, hplace, -, hentries, hcs⟩ := place_mk l shape hs
    rw [hplace]
    refine unrepeated_mk.2 ⟨hentries ▸ Marker.unrepeated_gathered l.markers, fun c hc => ?_⟩
    rw [Shape.children_withChildren (by simp [hcs.length_eq])] at hc
    obtain ⟨d, hd, s', hs', rfl⟩ := exists_left_of_forall₂ hcs c hc
    exact ih d hd s' (Nat.lt_of_lt_of_le hs hs')

end Node

/-- **One edit** of any kind. -/
theorem Edit.Makes.unrepeated {e : Edit} {n : Node} {s : Supply} {out : Node × Supply} (h : Makes n s e out)
    (hs : 0 < s.stamp) (hn : n.Unrepeated) : out.1.Unrepeated := by
  cases h with
  | kept => exact hn
  | @remade _ l shape s' hslots _ _ _ _ hentries =>
    have hchildren : shape.children = n.children := Shape.children_congr hslots
    refine Node.unrepeated_mk.2 ⟨hentries ▸ e.unrepeated_remark hn.label, fun c hc => ?_⟩
    exact hn.child (hchildren ▸ hc)
  | hoisted i hc => exact hn.child hc
  | replaced d => exact Node.unrepeated_place d s hs
  | @appended d statements hblock =>
    have hchildren : n.children = statements := by rw [Labelled.children, hblock, Shape.children_block]
    refine Node.unrepeated_mk.2 ⟨hn.label, fun c hc => ?_⟩
    rw [Shape.children_block, List.mem_append, List.mem_singleton] at hc
    rcases hc with hc | rfl
    · exact hn.child (hchildren ▸ hc)
    · exact Node.unrepeated_place d s hs
  | @shortened statements hblock =>
    have hchildren : n.children = statements := by rw [Labelled.children, hblock, Shape.children_block]
    refine Node.unrepeated_mk.2 ⟨hn.label, fun c hc => ?_⟩
    rw [Shape.children_block] at hc
    exact hn.child (hchildren ▸ (List.dropLast_sublist statements).subset hc)

/-- **All edits keep it up**, and the walk over the children. -/
theorem Tree.maintains_unrepeated : Maintains Tree.Unrepeated fun _ => True where
  child n c hc hn := (Node.unrepeated_content c).2 (((Node.unrepeated_content n).1 hn).child hc)
  edit e n s _ hpre hn :=
    (Node.unrepeated_content _).2 ((e.apply_makes hpre).unrepeated (Nat.zero_lt_of_lt hpre.stamp)
      ((Node.unrepeated_content n).1 hn))
  rebuild n cs s hn hcs := by
    rw [Node.unrepeated_content] at hn ⊢
    refine Node.unrepeated_mk.2 ⟨hn.label, fun c hc => ?_⟩
    rw [Shape.children_withChildren (by rw [← Shape.length_slotted, hcs.length_eq])] at hc
    obtain ⟨p, -, hc, -⟩ := exists_left_of_forall₂ hcs c hc
    exact (Node.unrepeated_content c).1 hc

/-! ### The same object -/

namespace Node

/-- A new set of markers takes a stamp from the supply. -/
theorem withMarkers_make_ne_self (n : Node) (entries : List Marker) (s : Supply) :
    (MarkerSet.make entries >>= n.withMarkers) s ≠ (n, s) := by
  intro hsame
  have hle : s.stamp + 1 ≤ ((MarkerSet.make entries >>= n.withMarkers) s).2.stamp := by
    show s.stamp + 1 ≤ (n.withMarkers ⟨s.stamp, entries⟩ { s with stamp := s.stamp + 1 }).2.stamp
    unfold withMarkers
    split
    · exact Nat.le_refl _
    · exact Nat.le_succ _
  rw [hsame] at hle
  exact Nat.not_succ_le_self _ hle

/-- To mark a node makes nothing new exactly if a marker that agrees is there. -/
theorem mark_eq_self_iff (n : Node) (m : Marker) (s : Supply) :
    n.mark m s = (n, s) ↔ ∃ k ∈ n.label.markers.entries, m.Agrees k := by
  rw [← Marker.isIn_iff]
  refine ⟨fun hsame => ?_, fun h => mark_of_isIn h s⟩
  by_contra hnew
  have hset : n.label.markers.addIfAbsent m = MarkerSet.make (n.label.markers.entries ++ [m]) := if_neg hnew
  rw [mark, hset] at hsame
  exact n.withMarkers_make_ne_self _ s hsame

/-- To take the markers of a source from a node makes nothing new exactly if there are none. -/
theorem unmark_eq_self_iff (n : Node) (source : String) (s : Supply) :
    n.unmark source s = (n, s) ↔ ∀ k ∈ n.label.markers.entries, k.source ≠ source := by
  have hnone : n.label.markers.entries.any (·.source = source) = false ↔
      ∀ k ∈ n.label.markers.entries, k.source ≠ source := by
    simp
  rw [← hnone]
  refine ⟨fun hsame => ?_, fun h => unmark_of_none h s⟩
  by_contra hsome
  have hset : n.label.markers.removeSource source =
      MarkerSet.make (n.label.markers.entries.filter (·.source ≠ source)) := if_pos (by simpa using hsome)
  rw [unmark, hset] at hsame
  exact n.withMarkers_make_ne_self _ s hsame

end Node

/-! ### Sweeps -/

/-- Every sweep of a chain takes a tree with the property, if the first does. -/
theorem Sweep.Chain.upholds {Q : Tree → Prop} {E : Edit → Prop} (hQ : Maintains Q E) {fuel : Nat} {s : Sweep}
    {later : List Sweep} {o : Outcome Node} (h : Chain fuel s later o) (hv : s.visitor.Within Q E)
    (hstart : s.start.Sound Q E) (hmade : s.tree.Predates s.start.session.supply.stamp)
    (hholds : Q s.tree.content) : ∀ t ∈ s :: later, Q t.tree.content := by
  induction h with
  | last => simpa using hholds
  | @next s t later c o hdone hnext _ ih =>
    have hkept := visit_upholds hQ fuel s.visitor s.tree hv t.tree s.start c hstart hmade hholds hdone
    refine List.forall_mem_cons.2 ⟨hholds, ?_⟩
    unfold next? at hnext
    cases hqueued : c.queued with
    | nil =>
      rw [hqueued] at hnext
      cases hnext
    | cons v vs =>
      -- The next sweep runs a visitor that the sweeps before it have put in the queue.
      have hwithin := hkept.sound.queued
      rw [hqueued, List.forall_mem_cons] at hwithin
      rw [hqueued] at hnext
      have ht := Option.some.inj hnext
      have hsound : t.start.Sound Q E := by
        rw [← ht]
        exact Context.Sound.reset { hkept.sound.unqueue hwithin.2 with }
      refine ih ?_ hsound ?_ hkept.holds
      · rw [← ht]
        exact hwithin.1
      · rw [← ht]
        exact hkept.made

namespace Engine

variable {Q : Tree → Prop} {e : Engine}

/-- The first sweep of a pass that finds that supply: its own visitor over its own tree. -/
def firstSweep (e : Engine) (p : Pass) (supply : Supply) : Sweep :=
  ⟨p.recipe.gatedVisitor, p.input, (e.context p.recipe p.cycle { supply }).reset⟩

/-- With that supply the pass comes to what is recorded of it, and the property holds of all trees that its
sweeps start from. -/
structure Swept (e : Engine) (Q : Tree → Prop) (supply : Supply) (p : Pass) : Prop where
  outcome : (e.attempt p.recipe p.cycle p.input supply).result? = some p.outcome
  sweeps : ∃ later, Sweep.Chain (e.fuel p.input) (e.firstSweep p supply) later
      (e.attempt p.recipe p.cycle p.input supply) ∧
    ∀ s ∈ e.firstSweep p supply :: later, Q s.tree.content

theorem swept_of_attempt (hQ : Maintains Q fun _ => True) {p : Pass} {supply : Supply}
    (hmade : p.input.Predates supply.stamp) (hholds : Q p.input.content)
    (houtcome : (e.attempt p.recipe p.cycle p.input supply).result? = some p.outcome) :
    e.Swept Q supply p := by
  have hsound : (e.firstSweep p supply).start.Sound Q fun _ => True :=
    ⟨by simp [firstSweep, Context.reset], by simp [firstSweep, Context.reset],
      fun v _ => Visitor.within_any Q v⟩
  have hended : ∃ c', (e.attempt p.recipe p.cycle p.input supply).context? = some c' := by
    cases hattempt : e.attempt p.recipe p.cycle p.input supply with
    | done _ c | failed _ c => exact ⟨c, rfl⟩
    | exhausted =>
      rw [hattempt] at houtcome
      cases houtcome
  obtain ⟨c', hended⟩ := hended
  have hchain := (e.firstSweep p supply).finish_chain (e.fuel p.input) (e.fuel p.input) c' hended
  exact ⟨houtcome, _, hchain, hchain.upholds hQ (Visitor.within_any Q _) hsound hmade hholds⟩

/-- The property holds of the tree, and held of all trees that the sweeps so far have started from, each pass
with the supply that the passes before it have left. -/
structure Surveyed (e : Engine) (Q : Tree → Prop) (start : Node) (session : Session) (r : Progress) :
    Prop extends Tended Q r where
  standing : e.Standing start session r
  swept : ∀ before p after, r.history = before ++ p :: after →
    e.Swept Q (e.sessionAfter session before).supply p

/-- **One turn** of any recipe. -/
theorem Turn.surveyed (hQ : Maintains Q fun _ => True) {start : Node} {session : Session}
    {cycle position : Nat} {r : Progress} {recipe : Recipe} {out : Option Progress}
    (hturn : e.Turn cycle r recipe position out) (h : e.Surveyed Q start session r) :
    Ends (e.attempt recipe cycle r.tree r.session.supply = .exhausted) (e.Surveyed Q start session) out := by
  have htended := hturn.tended h.toTended fun m c hdone =>
    attempt_upholds hQ (Visitor.within_any Q recipe.visitor) h.made h.tree hdone
  cases hturn with
  | skipped => exact h
  | stuck => exact htended
  | @made r' p _ _ hcycle _ hrecipe hinput houtcome htree hhistory hsupply hcancelled =>
    subst hcycle hrecipe
    rw [← hinput] at houtcome
    have hnew : e.Swept Q r.session.supply p :=
      swept_of_attempt hQ (hinput ▸ h.made) (hinput ▸ h.tree) houtcome
    rw [h.standing.supply] at hnew
    refine { htended with standing := h.standing.make hinput htree hhistory hsupply hcancelled, swept := ?_ }
    intro before q after hsplit
    rw [hhistory] at hsplit
    rcases append_singleton_eq_append_cons hsplit with ⟨rfl, rfl, -⟩ | ⟨after', -, hsplit⟩
    · exact hnew
    · exact h.swept before q after' hsplit

/-- **Whole runs** of any recipes. -/
theorem run_surveys (hQ : Maintains Q fun _ => True) (recipes : List Recipe) {n : Node} {session : Session}
    (hn : n.Predates session.supply.stamp) (hholds : Q n.content) :
    Ends (∃ recipe ∈ recipes, ∃ cycle tree supply, Q (Node.content tree) ∧
        e.attempt recipe cycle tree supply = .exhausted)
      (fun out => Q out.1.tree.content ∧ (∀ p ∈ out.1.history, Q p.input.content ∧ Q p.output.content) ∧
        ∀ before p after, out.1.history = before ++ p :: after →
          e.Swept Q (e.sessionAfter session before).supply p)
      (e.run recipes n session) := by
  have hstart : e.Surveyed Q n session { tree := n, session } :=
    ⟨⟨hholds, hn, fun p hp => absurd hp List.not_mem_nil⟩, ⟨rfl, rfl, rfl⟩, by simp⟩
  refine Ends.imp (run_keeps (fun cycle position recipe r hget h => ?_) hstart) id ?_
  · have hmem : recipe ∈ recipes := List.mem_of_getElem? hget
    exact Ends.imp ((e.runRecipe_turn cycle r recipe position).surveyed hQ h)
      (fun hstuck => ⟨recipe, hmem, cycle, r.tree, r.session.supply, h.tree, hstuck⟩) fun _ => id
  · rintro ⟨result, session'⟩ ⟨r, h, htree, hhistory, -⟩
    dsimp only
    rw [htree, hhistory]
    exact ⟨h.tree, h.past, h.swept⟩

/-- **No note is left twice.** If no node of a tree has two markers that agree, none has in any tree that a
run comes by: before and after each pass, before each sweep of a pass and in the end, whatever the recipes.
To add a marker makes no new object exactly if one that agrees is there, and to take away those of a source
exactly if there are none. -/
theorem run_keeps_unrepeated :
    (∀ (e : Engine) (recipes : List Recipe) (n : Node) (session : Session), n.Unrepeated →
      n.Predates session.supply.stamp →
      (∀ result session', e.run recipes n session = some (result, session') →
        result.tree.Unrepeated ∧ (∀ p ∈ result.history, p.input.Unrepeated ∧ p.output.Unrepeated) ∧
        ∀ before p after, result.history = before ++ p :: after →
          e.Swept Tree.Unrepeated (e.sessionAfter session before).supply p) ∧
      (e.run recipes n session = none → ∃ recipe ∈ recipes, ∃ cycle tree supply,
        Node.Unrepeated tree ∧ e.attempt recipe cycle tree supply = .exhausted)) ∧
    ∀ (n : Node) (s : Supply),
      (∀ m : Marker, (Edit.mark m).apply n s = (n, s) ↔ ∃ k ∈ n.label.markers.entries, m.Agrees k) ∧
      ∀ source, (Edit.unmark source).apply n s = (n, s) ↔
        ∀ k ∈ n.label.markers.entries, k.source ≠ source := by
  constructor
  · intro e recipes n session hn hmade
    have hends := run_surveys (e := e) Tree.maintains_unrepeated recipes hmade ((Node.unrepeated_content n).2 hn)
    simp only [Node.unrepeated_content] at hends
    constructor
    · intro result session' hrun
      rw [hrun] at hends
      exact hends
    · intro hrun
      rw [hrun] at hends
      exact hends
  · exact fun n s => ⟨fun m => n.mark_eq_self_iff m s, fun source => n.unmark_eq_self_iff source s⟩

/-- A note of two members. -/
def note (first second : String × Json) : Marker := ⟨"noting", .custom "note" (.object [first, second])⟩

/-- Leaves the note at every node, and then the same with its members in the other order. -/
def noting : Recipe where
  id := "noting"
  visitor := .plain "noting" (.look fun p => .walk p.current.kind
    (.edit (.mark (note ("a", .null) ("b", .bool true)))
      (.edit (.mark (note ("b", .bool true) ("a", .null))) .done)))

/-- A block with a literal that is to bear the note before it is left, in either order. -/
def notedLiteral : Draft :=
  .block [.mk { markers := [note ("b", .bool true) ("a", .null), note ("a", .null) ("b", .bool true)] }
    (.literal (.bool true))]

/-- Each of the two nodes bears the note once, and to add it again makes nothing new. -/
theorem noting_keeps_unrepeated :
    ∃ result session', run {} [noting] notedLiteral.placed.1 notedLiteral.placed.2 = some (result, session') ∧
      result.cycles = 2 ∧ result.markers.map (·.2) =
        [note ("a", .null) ("b", .bool true), note ("b", .bool true) ("a", .null)] ∧
      result.tree.Unrepeated ∧ (∀ p ∈ result.history, p.input.Unrepeated ∧ p.output.Unrepeated) ∧
      (∀ before p after, result.history = before ++ p :: after →
        Swept {} Tree.Unrepeated (sessionAfter {} notedLiteral.placed.2 before).supply p) ∧
      ∀ s, (Edit.mark (note ("b", .bool true) ("a", .null))).apply result.tree s = (result.tree, s) := by
  have hrun : (run {} [noting] notedLiteral.placed.1 notedLiteral.placed.2).map
      (fun out => (out.1.cycles, out.1.markers.map (·.2), out.1.tree.label.markers.entries)) =
      some (2, [note ("a", .null) ("b", .bool true), note ("b", .bool true) ("a", .null)],
        [note ("a", .null) ("b", .bool true)]) := by
    decide +kernel
  obtain ⟨⟨result, session'⟩, hrun, hout⟩ := Option.map_eq_some_iff.1 hrun
  simp only [Prod.mk.injEq] at hout
  obtain ⟨hcycles, hmarkers, hroot⟩ := hout
  have hkept := run_keeps_unrepeated.1 {} [noting] notedLiteral.placed.1 notedLiteral.placed.2
    (Node.unrepeated_place notedLiteral {} Nat.one_pos) notedLiteral.placed_predates
  obtain ⟨htree, hpasses, hsweeps⟩ := hkept.1 result session' hrun
  refine ⟨result, session', hrun, hcycles, hmarkers, htree, hpasses, hsweeps, fun s => ?_⟩
  refine ((run_keeps_unrepeated.2 result.tree s).1 _).2 ⟨note ("a", .null) ("b", .bool true), by simp [hroot], ?_⟩
  exact Marker.same_iff.1 (by decide)

end Engine

end Refactor
