import Refactor.Proofs.Node.Supply

/-!
# Objects of two runs

Two computations that do the same from two supplies make trees that differ in stamps and in the ids
that were made up. A `Mirror` says how the objects of the one run stand for those of the other: two that
look the same through it. Where two runs start from the same trees, what was there before is itself, and
what is new is what was made at the same point (`Mirror.since`). If one of them makes some objects more in
between, these stand for nothing (`Mirror.skip`). Of ids a mirror shows as much as `ids` does, so that runs
which make up other ids can be compared as well.

Nothing that is made depends on stamps but through which of them are equal: drafts
(`Mirror.makes_place`) and edits (`Mirror.makes_apply`) take mirrored nodes and supplies to mirrored
ones.
-/

namespace Refactor

/-- What is compared of a label. -/
structure Glimpse (κ ι : Type) where
  stamp : κ
  id : ι
  leading : String
  set : κ
  markers : List Marker

/-- How the objects of one run stand for those of another. -/
structure Mirror (κ ι : Type) where
  /-- What is seen of an id. -/
  ids : NodeId → ι
  /-- What is seen of a stamp of the one run. -/
  left : Nat → κ
  /-- What is seen of a stamp of the other run. -/
  right : Nat → κ
  left_injective : Function.Injective left
  right_injective : Function.Injective right
  /-- The set that all nodes without markers share stands for itself. -/
  empty : left 0 = right 0

namespace Mirror

variable {κ ι : Type} (μ : Mirror κ ι)

/-- A label of the run whose stamps are seen like that. -/
def glimpse (see : Nat → κ) (l : Label) : Glimpse κ ι :=
  ⟨see l.stamp, μ.ids l.id, l.leading, see l.markers.stamp, l.markers.entries⟩

/-- The two nodes are the same but for the objects, and their objects stand for each other. -/
def Nodes (n n' : Node) : Prop := n.map (μ.glimpse μ.left) = n'.map (μ.glimpse μ.right)

def Shapes (s s' : Shape Node) : Prop :=
  s.map (Labelled.map (μ.glimpse μ.left)) = s'.map (Labelled.map (μ.glimpse μ.right))

structure Sets (set set' : MarkerSet) : Prop where
  stamp : μ.left set.stamp = μ.right set'.stamp
  entries : set'.entries = set.entries

/-- The stamps and the ids that the two supplies give out from here on look the same. -/
structure Supplies (s s' : Supply) : Prop where
  stamps : ∀ i, μ.left (s.stamp + i) = μ.right (s'.stamp + i)
  ids : ∀ i, μ.ids (.minted (s.ids i)) = μ.ids (.minted (s'.ids i))

section Nodes

variable {μ} {n n' : Node} (h : μ.Nodes n n')
include h

theorem Nodes.label : μ.glimpse μ.left n.label = μ.glimpse μ.right n'.label := by
  simpa using congrArg Labelled.label h

theorem Nodes.shape : μ.Shapes n.shape n'.shape := by
  simpa [Shapes] using congrArg Labelled.shape h

theorem Nodes.kind : n'.kind = n.kind := by simpa using (congrArg Labelled.kind h).symm

theorem Nodes.stamp : μ.left n.label.stamp = μ.right n'.label.stamp :=
  congrArg Glimpse.stamp h.label

theorem Nodes.leading : n'.label.leading = n.label.leading :=
  (congrArg Glimpse.leading h.label).symm

theorem Nodes.id : μ.ids n.label.id = μ.ids n'.label.id := congrArg Glimpse.id h.label

theorem Nodes.sets : μ.Sets n.label.markers n'.label.markers :=
  ⟨congrArg Glimpse.set h.label, (congrArg Glimpse.markers h.label).symm⟩

theorem Nodes.children : List.Forall₂ μ.Nodes n.children n'.children := by
  have := congrArg Labelled.children h
  rw [Labelled.children_map, Labelled.children_map, ← List.forall₂_eq_eq_eq] at this
  rwa [List.forall₂_map_left_iff, List.forall₂_map_right_iff] at this

theorem Nodes.slotted :
    List.Forall₂ (fun p p' => p'.1 = p.1 ∧ μ.Nodes p.2 p'.2) n.shape.slotted n'.shape.slotted := by
  have := congrArg Shape.slotted h.shape
  rw [Shape.slotted_map, Shape.slotted_map, ← List.forall₂_eq_eq_eq, List.forall₂_map_left_iff,
    List.forall₂_map_right_iff] at this
  exact this.imp fun p p' hp => ⟨(congrArg Prod.fst hp).symm, congrArg Prod.snd hp⟩

theorem Nodes.height : n'.height = n.height := by
  rw [← Labelled.height_map (μ.glimpse μ.right) n', ← h, Labelled.height_map]

omit h

theorem nodes_mk {l l' : Label} {s s' : Shape Node} (hl : μ.glimpse μ.left l = μ.glimpse μ.right l')
    (hs : μ.Shapes s s') : μ.Nodes (.mk l s) (.mk l' s') := by
  unfold Nodes
  rw [Labelled.map_mk, Labelled.map_mk, hl, hs]

/-- Where ids are seen as they are, the content is the same. -/
theorem Nodes.content {μ : Mirror κ NodeId} (hμ : ∀ i, μ.ids i = i) {n n' : Node} (h : μ.Nodes n n') :
    n'.content = n.content := by
  have hcontent : ∀ (see : Nat → κ) (m : Node), m.content =
      (m.map (μ.glimpse see)).map fun g => ⟨g.id, g.leading, g.markers⟩ := by
    intro see m
    rw [Labelled.map_map, Node.content]
    refine congrArg (Labelled.map · m) (funext fun l => ?_)
    rw [glimpse, hμ]
    rfl
  rw [hcontent μ.left n, hcontent μ.right n', h]

/-- Objects are the same in the one run if and only if they are in the other. -/
theorem Nodes.same_iff {m m' : Node} (hn : μ.Nodes n n') (hm : μ.Nodes m m') : m'.same n' = m.same n := by
  have hn := hn.stamp
  have hm := hm.stamp
  unfold Node.same
  rw [decide_eq_decide, ← μ.right_injective.eq_iff, ← hn, ← hm, μ.left_injective.eq_iff]

/-- Lists of objects are the same in the one run if and only if they are in the other. -/
theorem stamps_eq_iff {cs cs' ks ks' : List Node} (hcs : List.Forall₂ μ.Nodes cs cs')
    (hks : List.Forall₂ μ.Nodes ks ks') :
    cs'.map (·.label.stamp) = ks'.map (·.label.stamp) ↔
      cs.map (·.label.stamp) = ks.map (·.label.stamp) := by
  have hcodes : ∀ {xs xs' : List Node}, List.Forall₂ μ.Nodes xs xs' →
      (xs'.map (·.label.stamp)).map μ.right = (xs.map (·.label.stamp)).map μ.left := by
    intro xs xs' h
    rw [List.map_map, List.map_map]
    exact map_eq_of_forall₂ (h.imp fun _ _ h => h.stamp.symm)
  have hleft : Function.Injective (List.map μ.left) := List.map_injective_iff.2 μ.left_injective
  have hright : Function.Injective (List.map μ.right) := List.map_injective_iff.2 μ.right_injective
  rw [← hright.eq_iff, hcodes hcs, hcodes hks, hleft.eq_iff]

theorem map_eq_iff_forall₂ {cs cs' : List Node} :
    cs.map (Labelled.map (μ.glimpse μ.left)) = cs'.map (Labelled.map (μ.glimpse μ.right)) ↔
      List.Forall₂ μ.Nodes cs cs' := by
  rw [← List.forall₂_eq_eq_eq, List.forall₂_map_left_iff, List.forall₂_map_right_iff]
  rfl

end Nodes

/-- Where ids are seen as they are, the same ones are yet to be made up. -/
theorem Supplies.upcoming {μ : Mirror κ NodeId} (hμ : ∀ i, μ.ids i = i) {s s' : Supply}
    (h : μ.Supplies s s') : s'.upcoming = s.upcoming := by
  funext i
  have hid := h.ids i
  rw [hμ, hμ] at hid
  exact (NodeId.minted.inj hid).symm

/-! ### What is made -/

/-- The two computations take mirrored supplies to mirrored ones, with results that are related. -/
def Makes {α : Type} (R : α → α → Prop) (x x' : Alloc α) : Prop :=
  ∀ s s', μ.Supplies s s' → R (x s).1 (x' s').1 ∧ μ.Supplies (x s).2 (x' s').2

variable {μ} {α β : Type} {R : α → α → Prop}

theorem makes_pure {a a' : α} (h : R a a') : μ.Makes R (pure a) (pure a') := fun _ _ hs => ⟨h, hs⟩

theorem Makes.bind {Q : β → β → Prop} {x x' : Alloc α} {f f' : α → Alloc β} (hx : μ.Makes R x x')
    (hf : ∀ a a', R a a' → μ.Makes Q (f a) (f' a')) : μ.Makes Q (x >>= f) (x' >>= f') := by
  intro s s' hs
  obtain ⟨ha, hs⟩ := hx s s' hs
  exact hf _ _ ha _ _ hs

theorem makes_stamp : μ.Makes (fun a a' => μ.left a = μ.right a') Alloc.stamp Alloc.stamp := by
  intro s s' hs
  refine ⟨hs.stamps 0, fun i => ?_, hs.ids⟩
  have := hs.stamps (1 + i)
  rwa [← Nat.add_assoc, ← Nat.add_assoc] at this

theorem makes_mint : μ.Makes (fun a a' => μ.ids a = μ.ids a') Alloc.mint Alloc.mint := by
  intro s s' hs
  exact ⟨hs.ids 0, hs.stamps, fun i => hs.ids (i + 1)⟩

theorem makes_set (entries : List Marker) :
    μ.Makes μ.Sets (MarkerSet.make entries) (MarkerSet.make entries) :=
  makes_stamp.bind fun _ _ h => makes_pure ⟨h, rfl⟩

theorem makes_addIfAbsent (m : Marker) {set set' : MarkerSet} (h : μ.Sets set set') :
    μ.Makes μ.Sets (set.addIfAbsent m) (set'.addIfAbsent m) := by
  unfold MarkerSet.addIfAbsent
  rw [h.entries]
  split
  · exact makes_pure h
  · exact makes_set _

theorem makes_removeSource (source : String) {set set' : MarkerSet} (h : μ.Sets set set') :
    μ.Makes μ.Sets (set.removeSource source) (set'.removeSource source) := by
  unfold MarkerSet.removeSource
  rw [h.entries]
  split
  · exact makes_set _
  · exact makes_pure h

theorem makes_ofList (ms : List Marker) :
    μ.Makes μ.Sets (MarkerSet.ofList ms) (MarkerSet.ofList ms) := by
  have hfold : ∀ (ms : List Marker) (set set' : MarkerSet), μ.Sets set set' →
      μ.Makes μ.Sets (ms.foldlM MarkerSet.addIfAbsent set) (ms.foldlM MarkerSet.addIfAbsent set') := by
    intro ms
    induction ms with
    | nil => exact fun set set' h => makes_pure h
    | cons m ms ih =>
      intro set set' h
      rw [List.foldlM_cons, List.foldlM_cons]
      exact (makes_addIfAbsent m h).bind ih
  exact hfold ms _ _ ⟨μ.empty, rfl⟩

theorem makes_mapM {δ : Type} {f : δ → Alloc α} (xs : List δ) (hf : ∀ x ∈ xs, μ.Makes R (f x) (f x)) :
    μ.Makes (fun as as' => as.length = xs.length ∧ List.Forall₂ R as as') (xs.mapM f) (xs.mapM f) := by
  induction xs with
  | nil => exact makes_pure ⟨rfl, .nil⟩
  | cons x xs ih =>
    rw [List.mapM_cons]
    refine (hf x (by simp)).bind fun a a' ha => ?_
    refine (ih fun y hy => hf y (List.mem_cons_of_mem _ hy)).bind fun as as' has => ?_
    exact makes_pure ⟨by simp [has.1], .cons ha has.2⟩

theorem makes_make {id id' : NodeId} {leading : String} {set set' : MarkerSet} {shape shape' : Shape Node}
    (hid : μ.ids id = μ.ids id') (hset : μ.Sets set set') (hshape : μ.Shapes shape shape') :
    μ.Makes μ.Nodes (Node.make id leading set shape) (Node.make id' leading set' shape') := by
  refine makes_stamp.bind fun a a' ha => makes_pure (nodes_mk ?_ hshape)
  unfold glimpse
  rw [ha, hid, hset.stamp, hset.entries]

theorem makes_withShape {n n' : Node} {shape shape' : Shape Node} (hn : μ.Nodes n n')
    (hshape : μ.Shapes shape shape') : μ.Makes μ.Nodes (n.withShape shape) (n'.withShape shape') := by
  unfold Node.withShape
  rw [hn.leading]
  exact makes_make hn.id hn.sets hshape

theorem makes_withMarkers {n n' : Node} {set set' : MarkerSet} (hn : μ.Nodes n n')
    (hset : μ.Sets set set') : μ.Makes μ.Nodes (n.withMarkers set) (n'.withMarkers set') := by
  have hsame : n'.label.markers.stamp = set'.stamp ↔ n.label.markers.stamp = set.stamp := by
    rw [← μ.right_injective.eq_iff, ← hn.sets.stamp, ← hset.stamp, μ.left_injective.eq_iff]
  unfold Node.withMarkers
  rw [hn.leading]
  simp only [hsame]
  split
  · exact makes_pure hn
  · exact makes_make hn.id hset hn.shape

/-- **Drafts.** -/
theorem makes_place (d : Draft) : μ.Makes μ.Nodes d.place d.place := by
  induction d using Labelled.ind with
  | node l shape ih =>
    unfold Draft.place
    rw [Labelled.fold_mk]
    have hkids : ∀ x ∈ (shape.map Draft.place).children, μ.Makes μ.Nodes (id x) (id x) := by
      intro x hx
      rw [Shape.children_map] at hx
      obtain ⟨d, hd, rfl⟩ := List.mem_map.1 hx
      exact ih d hd
    refine (makes_mapM _ hkids).bind fun cs cs' hcs => ?_
    refine Makes.bind (R := fun a a' => μ.ids a = μ.ids a') ?_ fun nodeId nodeId' hid => ?_
    · cases (Labelled.mk l shape).label.id with
      | none => exact makes_mint
      | some given => exact makes_pure rfl
    · refine (makes_ofList _).bind fun set set' hset => makes_make hid hset ?_
      have hsame : (shape.map Draft.place).map id = (shape.map Draft.place).map id := rfl
      exact Shape.map_withChildren_congr hsame (map_eq_iff_forall₂.2 hcs.2) hcs.1

end Mirror

/-! ### Edits -/

namespace Mirror

variable {κ ι : Type} {μ : Mirror κ ι} {n n' : Node}

theorem makes_elim {α γ : Type} {f f' : α → γ} {o o' : Option α} {k k' : α → Alloc Node}
    (hn : μ.Nodes n n') (ho : o.map f = o'.map f')
    (hk : ∀ a a', f a = f' a' → μ.Makes μ.Nodes (k a) (k' a')) :
    μ.Makes μ.Nodes (o.elim (pure n) k) (o'.elim (pure n') k') := by
  cases o <;> cases o'
  case none.none => exact makes_pure hn
  case some.some a a' => exact hk a a' (Option.some.inj ho)
  all_goals cases ho

theorem makes_reshaped {e : Edit} (he : e.isReshaping = true ∨ e = .dropLast) (hn : μ.Nodes n n') :
    μ.Makes μ.Nodes (e.apply n) (e.apply n') := by
  rw [Edit.apply_eq_reshape he, Edit.apply_eq_reshape he]
  refine makes_elim hn ?_ fun s s' => makes_withShape hn
  rw [← Edit.reshape_map, ← Edit.reshape_map]
  exact congrArg _ hn.shape

theorem makes_append (d : Draft) (hn : μ.Nodes n n') :
    μ.Makes μ.Nodes ((Edit.append d).apply n) ((Edit.append d).apply n') := by
  have hstatements : (Edit.statements n.shape).map (List.map (Labelled.map (μ.glimpse μ.left))) =
      (Edit.statements n'.shape).map (List.map (Labelled.map (μ.glimpse μ.right))) := by
    rw [← Edit.statements_map, ← Edit.statements_map]
    exact congrArg _ hn.shape
  rw [Edit.apply_append_eq, Edit.apply_append_eq]
  refine makes_elim hn hstatements fun ss ss' hss =>
    (makes_place d).bind fun added added' hadded => makes_withShape hn ?_
  unfold Shapes
  rw [Shape.map_block, Shape.map_block, List.map_append, List.map_append, hss, List.map_singleton,
    List.map_singleton, hadded]

/-- **Edits.** -/
theorem makes_apply (e : Edit) (hn : μ.Nodes n n') : μ.Makes μ.Nodes (e.apply n) (e.apply n') := by
  cases e with
  | rename _ | renameMethod _ | setModifiers _ | setClassType _ | addInt _ | copy =>
    exact makes_reshaped (Or.inl rfl) hn
  | dropLast => exact makes_reshaped (Or.inr rfl) hn
  | setLeading leading => exact makes_make hn.id hn.sets hn.shape
  | lead leading =>
    show μ.Makes μ.Nodes (n.lead leading) (n'.lead leading)
    unfold Node.lead
    rw [hn.leading]
    split
    · exact makes_pure hn
    · exact makes_make hn.id hn.sets hn.shape
  | mark m => exact (makes_addIfAbsent m hn.sets).bind fun _ _ => makes_withMarkers hn
  | unmark source => exact (makes_removeSource source hn.sets).bind fun _ _ => makes_withMarkers hn
  | hoist i =>
    have hchild : (n.children[i]?).map (Labelled.map (μ.glimpse μ.left)) =
        (n'.children[i]?).map (Labelled.map (μ.glimpse μ.right)) := by
      rw [← List.getElem?_map, map_eq_iff_forall₂.2 hn.children, List.getElem?_map]
    refine makes_pure ?_
    show Labelled.map (μ.glimpse μ.left) (n.children[i]?.getD n) =
      Labelled.map (μ.glimpse μ.right) (n'.children[i]?.getD n')
    rw [← Option.getD_map (Labelled.map (μ.glimpse μ.left)),
      ← Option.getD_map (Labelled.map (μ.glimpse μ.right)), hchild, hn]
  | replace d => exact makes_place d
  | append d => exact makes_append d hn

/-! ### Mirrors -/

/-- A stamp from before, or how many there were between the start and it. -/
def sight (start stamp : Nat) : Nat ⊕ Nat := if stamp < start then .inl stamp else .inr (stamp - start)

theorem sight_of_lt {start stamp : Nat} (h : stamp < start) : sight start stamp = .inl stamp := if_pos h

theorem sight_add (start i : Nat) : sight start (start + i) = .inr i := by
  rw [sight, if_neg (by omega), Nat.add_sub_cancel_left]

theorem sight_injective (start : Nat) : Function.Injective (sight start) := by
  intro x y h
  unfold sight at h
  grind

/-- Two runs that give out stamps from those on. -/
def since (ids : NodeId → ι) {a b : Nat} (ha : 0 < a) (hb : 0 < b) : Mirror (Nat ⊕ Nat) ι where
  ids := ids
  left := sight a
  right := sight b
  left_injective := sight_injective a
  right_injective := sight_injective b
  empty := (sight_of_lt ha).trans (sight_of_lt hb).symm

section Since

variable {ids : NodeId → ι} {a b : Nat} {ha : 0 < a} {hb : 0 < b}

/-- What was there before stands for itself. -/
theorem since_nodes (hleft : n.Predates a) (hright : n.Predates b) : (since ids ha hb).Nodes n n := by
  induction n using Labelled.ind with
  | node l s ih =>
    refine nodes_mk ?_ (Shape.map_congr fun c hc => ih c hc (hleft.child hc) (hright.child hc))
    have hstamp : sight a l.stamp = sight b l.stamp :=
      (sight_of_lt hleft.stamp).trans (sight_of_lt hright.stamp).symm
    have hset : sight a l.markers.stamp = sight b l.markers.stamp :=
      (sight_of_lt hleft.markers).trans (sight_of_lt hright.markers).symm
    simp only [glimpse, since, hstamp, hset]

theorem since_supplies {s s' : Supply} (hs : s.stamp = a) (hs' : s'.stamp = b)
    (h : ∀ i, ids (.minted (s.ids i)) = ids (.minted (s'.ids i))) :
    (since ids ha hb).Supplies s s' where
  stamps i := by
    rw [hs, hs']
    exact (sight_add a i).trans (sight_add b i).symm
  ids := h

end Since

/-- The same but for some objects more that the one run has made from that stamp on. -/
def skip (μ : Mirror κ ι) {start : Nat} (hstart : 0 < start) (count : Nat) : Mirror (κ ⊕ Nat) ι where
  ids := μ.ids
  left stamp :=
    if stamp < start then .inl (μ.left stamp)
    else if stamp < start + count then .inr stamp
    else .inl (μ.left (stamp - count))
  right stamp := .inl (μ.right stamp)
  left_injective x y h := by
    have hinj : ∀ i j, μ.left i = μ.left j → i = j := fun _ _ => (μ.left_injective ·)
    dsimp only at h
    grind
  right_injective := fun _ _ h => μ.right_injective (Sum.inl.inj h)
  empty := by rw [if_pos hstart, μ.empty]

section Skip

variable {start : Nat} {hstart : 0 < start} {count : Nat}

/-- What was there before these objects stands for what it did. -/
theorem Nodes.skip (h : μ.Nodes n n') (hn : n.Predates start) : (μ.skip hstart count).Nodes n n' := by
  let lift : Glimpse κ ι → Glimpse (κ ⊕ Nat) ι := fun g => ⟨.inl g.stamp, g.id, g.leading, .inl g.set, g.markers⟩
  have hleft : ∀ m : Node, m.Predates start →
      m.map ((μ.skip hstart count).glimpse (μ.skip hstart count).left) = (m.map (μ.glimpse μ.left)).map lift := by
    intro m hm
    induction m using Labelled.ind with
    | node l s ih =>
      rw [Labelled.map_map, Labelled.map_mk, Labelled.map_mk]
      have hstamp : l.stamp < start := hm.stamp
      have hset : l.markers.stamp < start := hm.markers
      have hlabel : (μ.skip hstart count).glimpse (μ.skip hstart count).left l = lift (μ.glimpse μ.left l) := by
        simp only [glimpse, Mirror.skip, if_pos hstamp, if_pos hset, lift]
      rw [hlabel]
      refine congrArg _ (Shape.map_congr fun c hc => ?_)
      rw [ih c hc (hm.child hc), Labelled.map_map]
  have hright : n'.map ((μ.skip hstart count).glimpse (μ.skip hstart count).right) =
      (n'.map (μ.glimpse μ.right)).map lift := by
    rw [Labelled.map_map]
    rfl
  unfold Nodes
  rw [hleft n hn, hright, h]

/-- The runs go on alike after that. -/
theorem Supplies.skip {s s1 s' : Supply} (h : μ.Supplies s s') (hs : s.stamp = start)
    (hs1 : s1.stamp = start + count)
    (hids : ∀ i, μ.ids (.minted (s1.ids i)) = μ.ids (.minted (s'.ids i))) :
    (μ.skip hstart count).Supplies s1 s' where
  stamps i := by
    have hstamp : s1.stamp + i - count = s.stamp + i := by omega
    show (if _ then _ else if _ then _ else _) = Sum.inl (μ.right (s'.stamp + i))
    rw [if_neg (by omega), if_neg (by omega), hstamp, h.stamps]
  ids := hids

end Skip

end Mirror

end Refactor
