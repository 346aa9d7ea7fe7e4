import Refactor.Proofs.Node.Objects
import Refactor.Visit.Edit

/-!
# What an edit makes of a node

An edit keeps the node, makes a new object over the same children, or does one of four things to the
children: `Edit.Makes` says which, and everything that edits keep is read off it. All that an edit makes
stems from the node (`Node.Stems`): an object in it is one that was there or is new, so one with the
stamp of the node is the node.
-/

namespace Refactor

namespace Shape

variable {α β : Type} (newName : String) (s : Shape α)

@[simp] theorem kind_renameMethod : (s.renameMethod newName).kind = s.kind := by
  cases s <;> rfl

@[simp] theorem slotted_renameMethod : (s.renameMethod newName).slotted = s.slotted := by
  cases s <;> rfl

theorem map_renameMethod (f : α → β) :
    (s.renameMethod newName).map f = (s.map f).renameMethod newName := by
  cases s <;> rfl

end Shape

namespace Node

theorem mark_of_isIn {n : Node} {m : Marker} (h : m.isIn n.label.markers.entries) (s : Supply) :
    n.mark m s = (n, s) := by
  show (n.label.markers.addIfAbsent m >>= n.withMarkers) s = (n, s)
  unfold MarkerSet.addIfAbsent
  rw [if_pos h, pure_bind]
  unfold withMarkers
  rw [if_pos rfl]
  rfl

/-- The label with one more marker, of a set that is new as well. -/
def markedLabel (l : Label) (m : Marker) (s : Supply) : Label :=
  { l with stamp := s.stamp + 1, markers := ⟨s.stamp, l.markers.entries ++ [m]⟩ }

theorem mark_of_not_isIn {n : Node} {m : Marker} (h : m.isIn n.label.markers.entries = false)
    {s : Supply} (hs : n.label.markers.stamp < s.stamp) :
    n.mark m s = (.mk (markedLabel n.label m s) n.shape, { s with stamp := s.stamp + 2 }) := by
  show (n.label.markers.addIfAbsent m >>= n.withMarkers) s = _
  unfold MarkerSet.addIfAbsent
  rw [if_neg (by simp [h])]
  show n.withMarkers ⟨s.stamp, _⟩ { s with stamp := s.stamp + 1 } = _
  unfold withMarkers
  rw [if_neg (by simp only; omega)]
  rfl

theorem unmark_of_none {n : Node} {source : String}
    (h : n.label.markers.entries.any (·.source = source) = false) (s : Supply) :
    n.unmark source s = (n, s) := by
  show (n.label.markers.removeSource source >>= n.withMarkers) s = (n, s)
  unfold MarkerSet.removeSource
  rw [if_neg (by simp [h]), pure_bind]
  unfold withMarkers
  rw [if_pos rfl]
  rfl

/-- The label without the markers of a source, with a set that is new as well. -/
def unmarkedLabel (l : Label) (source : String) (s : Supply) : Label :=
  { l with stamp := s.stamp + 1, markers := ⟨s.stamp, l.markers.entries.filter (·.source ≠ source)⟩ }

theorem unmark_of_some {n : Node} {source : String}
    (h : n.label.markers.entries.any (·.source = source) = true) {s : Supply}
    (hs : n.label.markers.stamp < s.stamp) :
    n.unmark source s =
      (.mk (unmarkedLabel n.label source s) n.shape, { s with stamp := s.stamp + 2 }) := by
  show (n.label.markers.removeSource source >>= n.withMarkers) s = _
  unfold MarkerSet.removeSource
  rw [if_pos h]
  show n.withMarkers ⟨s.stamp, _⟩ { s with stamp := s.stamp + 1 } = _
  unfold withMarkers
  rw [if_neg (by simp only; omega)]
  rfl

/-! ### What a tree is made from -/

/-- Each object of `m` is one of `n` or was made from the stamp `b` on. -/
def Stems (b : Nat) (n m : Node) : Prop :=
  ∀ d ∈ m.descendants, d ∈ n.descendants ∨ b ≤ d.label.stamp

section Stems

variable {a b : Nat} {n m k : Node}

theorem Stems.refl (b : Nat) (n : Node) : Stems b n n := fun _ hd => Or.inl hd

theorem Stems.trans (h1 : Stems b n m) (h2 : Stems b m k) : Stems b n k := fun d hd =>
  (h2 d hd).elim (h1 d) Or.inr

theorem Stems.mono (h : Stems b n m) (hab : a ≤ b) : Stems a n m := fun d hd =>
  (h d hd).imp_right (Nat.le_trans hab)

theorem stems_child (b : Nat) {c : Node} (hc : c ∈ n.children) : Stems b n c := fun _ hd =>
  Or.inl (Labelled.mem_descendants.2 (Or.inr ⟨c, hc, hd⟩))

/-- A new object over what stems from the node. -/
theorem stems_mk {l : Label} {shape : Shape Node} (hl : b ≤ l.stamp)
    (h : ∀ c ∈ shape.children, Stems b n c) : Stems b n (.mk l shape) := by
  intro d hd
  rcases Labelled.mem_descendants.1 hd with rfl | ⟨c, hc, hdc⟩
  · exact Or.inr hl
  · exact h c hc d hdc

/-- The node as a new object with that layer, over what stems from it. -/
theorem grows_withShape (shape : Shape Node) {s : Supply} (hn : n.Predates b) (hb : b ≤ s.stamp)
    (hshape : ∀ c ∈ shape.children, Predates c s.stamp ∧ Stems b n c) :
    b ≤ (n.withShape shape s).2.stamp ∧ (n.withShape shape s).1.Predates (n.withShape shape s).2.stamp ∧
      Stems b n (n.withShape shape s).1 :=
  ⟨Nat.le_succ_of_le hb, withShape_predates hn hb fun c hc => (hshape c hc).1,
    stems_mk hb fun c hc => (hshape c hc).2⟩

/-- An object that stems from the node and has its stamp is the node. -/
theorem Stems.eq_of_stamp (h : Stems b n m) (hn : n.Predates b)
    (hstamp : m.label.stamp = n.label.stamp) : m = n := by
  have hold := hn.stamp
  rcases h m (Labelled.self_mem_descendants m) with hm | hm
  · rcases Labelled.mem_descendants.1 hm with rfl | ⟨c, hc, hmc⟩
    · rfl
    · -- What the node holds was made before it.
      have hbefore := ((hn.before_parent hc).of_mem hmc).stamp
      omega
  · omega

end Stems

end Node

/-! ### One edit -/

/-- The markers that the edit leaves on a node, where it makes a new object of it. -/
def Edit.remark : Edit → List Marker → List Marker
  | .mark m, ms => m.addTo ms
  | .unmark source, ms => ms.filter (·.source ≠ source)
  | _, ms => ms

/-- What may come of an edit, with the supply it leaves. -/
inductive Edit.Makes (n : Node) (s : Supply) : Edit → Node × Supply → Prop
  | kept (e : Edit) : Makes n s e (n, s)
  /-- A new object over the same children. -/
  | remade (e : Edit) {l : Label} {shape : Shape Node} {s' : Supply} :
      shape.slotted = n.shape.slotted → shape.kind = n.kind → s.stamp ≤ l.stamp →
      l.stamp < s'.stamp → l.markers.stamp < s'.stamp →
      l.markers.entries = e.remark n.label.markers.entries → Makes n s e (.mk l shape, s')
  | hoisted (i : Nat) {c : Node} : c ∈ n.children → Makes n s (.hoist i) (c, s)
  | replaced (d : Draft) : Makes n s (.replace d) (d.place s)
  | appended (d : Draft) {statements : List Node} : n.shape = .block statements →
      Makes n s (.append d) ((n.withShape (.block (statements ++ [(d.place s).1]))) (d.place s).2)
  | shortened {statements : List Node} : n.shape = .block statements →
      Makes n s .dropLast (n.withShape (.block statements.dropLast) s)

namespace Edit

variable {α β : Type} {n : Node} {s : Supply}

/-- The edit puts another layer over the children, if it applies. -/
def isReshaping : Edit → Bool
  | rename _ | renameMethod _ | setModifiers _ | setClassType _ | addInt _ | copy => true
  | _ => false

/-- The layer that the edit puts over the children, where it does that. -/
def reshape (e : Edit) (s : Shape α) : Option (Shape α) :=
  match e with
  | rename newName => if s.isNamed then some (s.rename newName) else none
  | renameMethod newName =>
    match s with
    | .methodInvocation .. | .methodDecl .. => some (s.renameMethod newName)
    | _ => none
  | setModifiers ms =>
    match s with
    | .variableDecls _ typeExpr declarators => some (.variableDecls ms typeExpr declarators)
    | _ => none
  | setClassType name =>
    match s with
    | .classDecl ms simple superclass interfaces body _ =>
      some (.classDecl ms simple superclass interfaces body (some name))
    | _ => none
  | addInt amount =>
    match s with
    | .literal (.int value) => some (.literal (.int (value + amount)))
    | _ => none
  | copy => some s
  | dropLast =>
    match s with
    | .block (first :: rest) => some (.block (first :: rest).dropLast)
    | _ => none
  | _ => none

/-- Which layer that is does not depend on the children. -/
theorem reshape_map (e : Edit) (f : α → β) (s : Shape α) :
    e.reshape (s.map f) = (e.reshape s).map (Shape.map f) := by
  cases e with
  | rename newName =>
    have hnamed : (s.map f).isNamed = s.isNamed := by cases s <;> rfl
    unfold reshape
    dsimp only
    rw [hnamed, ← Shape.map_rename]
    split <;> rfl
  | addInt amount =>
    cases s with
    | literal value => cases value <;> rfl
    | _ => rfl
  | dropLast =>
    cases s with
    | block statements => cases statements <;> simp [reshape, List.map_dropLast]
    | _ => rfl
  | renameMethod _ | setModifiers _ | setClassType _ => cases s <;> rfl
  | _ => rfl

theorem apply_eq_reshape {e : Edit} (he : e.isReshaping = true ∨ e = dropLast) (n : Node) :
    e.apply n = (e.reshape n.shape).elim (pure n) n.withShape := by
  obtain ⟨l, s⟩ := n
  cases e with
  | rename newName =>
    unfold apply reshape
    dsimp only
    split <;> rfl
  | addInt amount =>
    cases s with
    | literal value => cases value <;> rfl
    | _ => rfl
  | dropLast =>
    cases s with
    | block statements => cases statements <;> rfl
    | _ => rfl
  | renameMethod _ | setModifiers _ | setClassType _ => cases s <;> rfl
  | copy => rfl
  | _ => simp [isReshaping] at he

theorem reshape_keeps {e : Edit} (he : e.isReshaping = true) {s s' : Shape α} (h : e.reshape s = some s') :
    s'.slotted = s.slotted ∧ s'.kind = s.kind := by
  cases e with
  | rename newName =>
    unfold reshape at h
    dsimp only at h
    split at h
    · cases h
      exact ⟨Shape.slotted_rename newName s, Shape.kind_rename newName s⟩
    · cases h
  | addInt amount =>
    cases s with
    | literal value =>
      cases value <;> cases h
      exact ⟨rfl, rfl⟩
    | _ => cases h
  | renameMethod _ | setModifiers _ | setClassType _ | copy =>
    cases s <;> cases h <;> exact ⟨rfl, rfl⟩
  | _ => cases he

theorem apply_of_isReshaping {e : Edit} (he : e.isReshaping = true) (n : Node) :
    e.apply n = pure n ∨ ∃ shape, e.apply n = n.withShape shape ∧
      shape.slotted = n.shape.slotted ∧ shape.kind = n.kind := by
  rw [apply_eq_reshape (Or.inl he)]
  cases h : e.reshape n.shape with
  | none => exact Or.inl rfl
  | some shape => exact Or.inr ⟨shape, rfl, reshape_keeps he h⟩

theorem remark_of_isReshaping {e : Edit} (he : e.isReshaping = true) (ms : List Marker) :
    e.remark ms = ms := by
  cases e with
  | mark _ | unmark _ => cases he
  | _ => rfl

theorem makes_of_isReshaping {e : Edit} (he : e.isReshaping = true) (hn : n.Predates s.stamp) :
    Makes n s e (e.apply n s) := by
  rcases apply_of_isReshaping he n with h | ⟨shape, h, hslots, hkind⟩
  · rw [h]
    exact .kept e
  · rw [h, Node.withShape_run]
    exact .remade e hslots hkind (Nat.le_refl _) (Nat.lt_succ_self _) (Nat.lt_succ_of_lt hn.markers)
      (remark_of_isReshaping he n.label.markers.entries).symm

/-- The statements of a block. -/
def statements : Shape α → Option (List α)
  | .block ss => some ss
  | _ => none

theorem statements_map (f : α → β) (s : Shape α) :
    statements (s.map f) = (statements s).map (List.map f) := by
  cases s with
  | block ss => simp [statements]
  | _ => rfl

theorem apply_append_eq (d : Draft) (n : Node) : (append d).apply n =
    (statements n.shape).elim (pure n) fun ss =>
      d.place >>= fun added => n.withShape (.block (ss ++ [added])) := by
  obtain ⟨l, s⟩ := n
  cases s <;> rfl

theorem statements_eq_some {s : Shape α} {ss : List α} (h : statements s = some ss) : s = .block ss := by
  cases s <;> cases h
  rfl

/-- Only a block takes one more statement. -/
theorem apply_append (d : Draft) (n : Node) : (append d).apply n = pure n ∨
    ∃ statements, n.shape = .block statements ∧
      (append d).apply n = d.place >>= fun added => n.withShape (.block (statements ++ [added])) := by
  rw [apply_append_eq]
  cases h : statements n.shape with
  | none => exact Or.inl rfl
  | some ss => exact Or.inr ⟨ss, statements_eq_some h, rfl⟩

theorem reshape_dropLast {s s' : Shape α} (h : dropLast.reshape s = some s') :
    ∃ ss, s = .block ss ∧ s' = .block ss.dropLast := by
  cases s with
  | block ss =>
    cases ss <;> cases h
    exact ⟨_, rfl, rfl⟩
  | _ => cases h

/-- Only a block with a statement loses one. -/
theorem apply_dropLast (n : Node) : dropLast.apply n = pure n ∨
    ∃ statements, n.shape = .block statements ∧
      dropLast.apply n = n.withShape (.block statements.dropLast) := by
  rw [apply_eq_reshape (Or.inr rfl)]
  cases h : dropLast.reshape n.shape with
  | none => exact Or.inl rfl
  | some shape =>
    obtain ⟨ss, hblock, rfl⟩ := reshape_dropLast h
    exact Or.inr ⟨ss, hblock, rfl⟩

/-- **One edit.** -/
theorem apply_makes (e : Edit) (hn : n.Predates s.stamp) : Makes n s e (e.apply n s) := by
  have hmarkers := hn.markers
  cases e with
  | rename _ | renameMethod _ | setModifiers _ | setClassType _ | addInt _ | copy =>
    exact makes_of_isReshaping rfl hn
  | setLeading leading =>
    exact .remade _ rfl rfl (Nat.le_refl _) (Nat.lt_succ_self _) (Nat.lt_succ_of_lt hmarkers) rfl
  | lead leading =>
    show Makes n s _ (n.lead leading s)
    unfold Node.lead
    split
    · exact .kept _
    · exact .remade _ rfl rfl (Nat.le_refl _) (Nat.lt_succ_self _) (Nat.lt_succ_of_lt hmarkers) rfl
  | mark m =>
    -- A marker that is there is not added again.
    show Makes n s _ (n.mark m s)
    cases h : m.isIn n.label.markers.entries with
    | true =>
      rw [Node.mark_of_isIn h]
      exact .kept _
    | false =>
      rw [Node.mark_of_not_isIn h hmarkers]
      refine .remade _ rfl rfl (Nat.le_succ _) (Nat.lt_succ_self _) (Nat.lt_add_of_pos_right (by decide)) ?_
      rw [remark, Marker.addTo, if_neg (by simp [h])]
      rfl
  | unmark source =>
    show Makes n s _ (n.unmark source s)
    cases h : n.label.markers.entries.any (·.source = source) with
    | false =>
      rw [Node.unmark_of_none h]
      exact .kept _
    | true =>
      rw [Node.unmark_of_some h hmarkers]
      exact .remade _ rfl rfl (Nat.le_succ _) (Nat.lt_succ_self _) (Nat.lt_add_of_pos_right (by decide)) rfl
  | hoist i =>
    show Makes n s _ (n.children[i]?.getD n, s)
    cases h : n.children[i]? with
    | none => exact .kept _
    | some c => exact .hoisted i (List.mem_of_getElem? h)
  | replace d => exact .replaced d
  | append d =>
    -- Only blocks have room for another statement.
    rcases apply_append d n with h | ⟨statements, hblock, h⟩
    · rw [h]
      exact .kept _
    · rw [h]
      exact .appended d hblock
  | dropLast =>
    rcases apply_dropLast n with h | ⟨statements, hblock, h⟩
    · rw [h]
      exact .kept _
    · rw [h]
      exact .shortened hblock

/-- **What every edit keeps.** The supply goes on, and what is made lies before it and stems from the
node. -/
theorem Makes.grows {e : Edit} {out : Node × Supply} (h : Makes n s e out) (hn : n.Predates s.stamp) :
    s.stamp ≤ out.2.stamp ∧ out.1.Predates out.2.stamp ∧ Node.Stems s.stamp n out.1 := by
  have hmarkers := hn.markers
  have hs : 0 < s.stamp := by omega
  cases h with
  | kept => exact ⟨Nat.le_refl _, hn, Node.Stems.refl _ n⟩
  | @remade _ l shape s' hslots hkind hl hl' hm _ =>
    have hchildren : shape.children = n.children := Shape.children_congr hslots
    refine ⟨by dsimp only; omega, .intro hl' hm fun c hc => ?_, Node.stems_mk hl fun c hc => ?_⟩
    · rw [Labelled.children_mk, hchildren] at hc
      exact (hn.child hc).mono hl
    · exact Node.stems_child _ (hchildren ▸ hc)
  | hoisted i hc => exact ⟨Nat.le_refl _, hn.child hc, Node.stems_child _ hc⟩
  | replaced d =>
    -- All that is made of the draft is new.
    obtain ⟨hgrows, hplaced⟩ := Node.place_predates d s hs
    exact ⟨hgrows, hplaced, fun o ho => Or.inr (Node.stamp_of_mem_place d s hs o ho)⟩
  | @appended d statements hblock =>
    obtain ⟨hgrows, hplaced⟩ := Node.place_predates d s hs
    have hchildren : n.children = statements := by rw [Labelled.children, hblock, Shape.children_block]
    refine Node.grows_withShape _ hn hgrows fun c hc => ?_
    rw [Shape.children_block, List.mem_append, List.mem_singleton] at hc
    rcases hc with hc | rfl
    · exact ⟨(hn.child (hchildren ▸ hc)).mono hgrows, Node.stems_child _ (hchildren ▸ hc)⟩
    · exact ⟨hplaced, fun o ho => Or.inr (Node.stamp_of_mem_place d s hs o ho)⟩
  | @shortened statements hblock =>
    have hchildren : n.children = statements := by rw [Labelled.children, hblock, Shape.children_block]
    refine Node.grows_withShape _ hn (Nat.le_refl _) fun c hc => ?_
    rw [Shape.children_block] at hc
    have hc := hchildren ▸ (List.dropLast_sublist statements).subset hc
    exact ⟨hn.child hc, Node.stems_child _ hc⟩

end Edit

end Refactor
