import Mathlib.Algebra.Order.BigOperators.Group.List
import Mathlib.Algebra.Order.Group.Nat
import Refactor.Proofs.Visit.Local
import Refactor.Recipe.Variables

/-!
# Renaming variables, on content

The declaration is renamed where it stands, and the uses in a second traversal of the scope as the
first has left it. Both only ever put the new name where another was, so the number of variables of
the new name tells a node from all that can become of it (`Named`): this is what makes two
traversals in a row keep track of objects.
-/

namespace Refactor

theorem Shape.eq_identifier {α : Type} {s : Shape α} (h : s.kind = .identifier) :
    ∃ name, s = .identifier name := by
  cases s with
  | identifier name => exact ⟨name, rfl⟩
  | _ => cases h

namespace RenameVariable

/-! ### Counting the variables of a name -/

/-- The node declares or uses a variable of that name. -/
def isNamed (name : String) (t : Tree) : Bool :=
  (t.kind = .identifier || t.kind = .namedVariable) && t.simpleName = some name

theorem isNamed_map (name : String) (l : Header) (s : Shape Tree) (f : Tree → Tree) :
    isNamed name (.mk l (s.map f)) = isNamed name (.mk l s) := by
  unfold isNamed Labelled.simpleName
  rw [Labelled.kind_mk, Labelled.kind_mk, Shape.kind_map, Labelled.shape_mk, Labelled.shape_mk,
    Shape.simpleName_map]

/-- How often the tree declares or uses a variable of that name. -/
def occurrences (name : String) (t : Tree) : Nat := t.descendants.countP (isNamed name)

theorem occurrences_mk (name : String) (l : Header) (s : Shape Tree) :
    occurrences name (.mk l s) = (s.children.flatMap Labelled.descendants).countP (isNamed name) +
      if isNamed name (.mk l s) then 1 else 0 := by
  unfold occurrences
  rw [Labelled.descendants_mk, List.countP_cons]

/-- More variables of that name are in the second tree. -/
def Named (name : String) (t t' : Tree) : Prop := occurrences name t < occurrences name t'

theorem Named.trans {name : String} (r s t : Tree) (h1 : Named name r s) (h2 : Named name s t) :
    Named name r t := Nat.lt_trans h1 h2

theorem lifts_named (name : String) : Node.Lifts (Named name) where
  irrefl t := Nat.lt_irrefl _
  node l s f hall := by
    rintro ⟨c, hc, hne⟩
    have hle : ∀ c ∈ s.children, occurrences name c ≤ occurrences name (f c) := by
      intro c hc
      rcases hall c hc with h | h
      · rw [h]
      · exact Nat.le_of_lt h
    have hlt : occurrences name c < occurrences name (f c) := (hall c hc).resolve_left hne
    have hsum : (s.children.flatMap Labelled.descendants).countP (isNamed name) <
        ((s.children.map f).flatMap Labelled.descendants).countP (isNamed name) := by
      rw [List.flatMap_map, List.countP_flatMap, List.countP_flatMap]
      exact List.sum_lt_sum _ _ hle ⟨c, hc, hlt⟩
    unfold Named
    rw [occurrences_mk, occurrences_mk, isNamed_map, Shape.children_map]
    exact Nat.add_lt_add_right hsum _

theorem detects_named {name : String} {change : List Tree → Tree → Tree}
    (h : ∀ path t, change path t ≠ t → Named name t (change path t)) :
    Node.Detects (Named name) change where
  lifts := lifts_named name
  step path t t' ht' hne _ := by
    rcases ht' with rfl | ⟨hmore, -⟩
    · exact h path t' hne
    · exact Named.trans _ _ _ hmore (h path t' hne)

/-- A variable that gets the name adds to those that have it. -/
theorem named_rename {name old : String} {l : Header} {s : Shape Tree}
    (hkind : s.kind = .identifier ∨ s.kind = .namedVariable) (hold : s.simpleName = some old)
    (hne : old ≠ name) : Named name (.mk l s) (.mk l (s.rename name)) := by
  have hold' : isNamed name (.mk l s) = false := by
    simp [isNamed, Labelled.simpleName, hold, hne]
  have hnew : isNamed name (.mk l (s.rename name)) = true := by
    cases s with
    | identifier | namedVariable =>
      simp [isNamed, Labelled.simpleName, Labelled.kind, Shape.rename, Shape.simpleName, Shape.kind]
    | _ => simp [Shape.kind] at hkind
  unfold Named
  rw [occurrences_mk, occurrences_mk, hold', hnew, Shape.children_rename]
  simp

/-! ### The uses -/

/-- Going up the path from a use, the scope is come to before another binding of the name. -/
def resolves (scope : NodeId) (name : String) (path : List Tree) : Bool :=
  ((Cursor.ofPath path).findFrame scope).any fun frame => frame.inSameNameScope (.ofPath path) name

/-- What the second visitor makes of a node. -/
def usesChange (scope : NodeId) (old new : String) (path : List Tree) (t : Tree) : Tree :=
  match t.shape with
  | .identifier name =>
    if name = old && resolves scope old path then .mk t.label (.identifier new) else t
  | _ => t

/-- What the second visitor does at a node that has been walked. -/
def usesFinish (scope : NodeId) (old new : String) (p : Place) : Script Visitor :=
  match p.current.shape with
  | .identifier name =>
    if name = old && resolves scope old p.cursor.path then .edit (.rename new) .done else .done
  | _ => .done

theorem usesVisitor_walksThen (scope : NodeId) (old new : String) :
    ∃ name s, usesVisitor scope old new = .plain name s ∧ s.WalksThen (usesFinish scope old new) := by
  refine ⟨_, _, rfl, walksThen_look fun p visitChild n hp => ?_⟩
  have hshape : p.current.shape = n.shape.map Node.content := by rw [hp, Node.shape_content]
  obtain ⟨l, s⟩ := n
  unfold usesFinish resolves
  rw [hshape, Cursor.ofPath_path]
  cases s <;> rfl

theorem usesFinish_changes {scope : NodeId} {old new : String} (hne : old ≠ new) (σ : Setting) :
    Script.Changes σ (usesChange scope old new) (usesFinish scope old new) := by
  rintro visitChild n m c c' hc hc' hm ⟨f, hover⟩
  have hshape : m.shape.map Node.content = (n.shape.map Node.content).map f := by
    simpa using congrArg Labelled.shape hover
  have hstay : usesChange scope old new (n.content :: c.cursor.path) m.content = m.content →
      ((Script.done : Script Visitor).run visitChild m).Yields c' fun k =>
        k.content = usesChange scope old new (n.content :: c.cursor.path) m.content ∧
          Node.Edited σ.bound m k :=
    fun h => run_done_yields hm ⟨h.symm, Or.inl rfl⟩
  have hcursor : (c.enter n.content).cursor.path = n.content :: c.cursor.path := rfl
  unfold usesFinish
  rw [Context.current_place, Context.cursor_place, hcursor, Node.shape_content]
  generalize hpath : n.content :: c.cursor.path = path at hstay ⊢
  obtain ⟨l, s⟩ := m
  obtain ⟨l', s'⟩ := n
  have hname := congrArg Shape.simpleName hshape
  have hkind := congrArg Shape.kind hshape
  cases s' with
  | identifier name =>
    -- Identifiers have no children, so the name is still the one that was seen.
    cases s with
    | identifier name' =>
      obtain rfl : name' = name := by
        rw [Shape.simpleName_map, Shape.simpleName_map, Shape.simpleName_map] at hname
        exact Option.some.inj hname
      change ((if name' = old && resolves scope old path then _ else _ : Script Visitor).run _ _).Yields
        _ _
      cases h : name' = old && resolves scope old path with
      | false => exact hstay (by simp only [Node.content_mk, Shape.map_identifier, usesChange,
          Labelled.shape_mk, h, Bool.false_eq_true, if_false])
      | true =>
        obtain ⟨rfl, hresolves⟩ : name' = old ∧ resolves scope old path = true := by simpa using h
        rw [if_pos rfl]
        refine (run_edit_yields (s := .identifier new) rfl hc.bound hm rfl ?_).imp ?_
        · -- The new name is another one, so the node is made anew.
          intro heq
          rw [Node.shape_content, Labelled.shape_mk, Shape.map_identifier, Shape.map_identifier] at heq
          exact hne (Shape.identifier.inj heq).symm
        · rintro k ⟨hk, hedited⟩
          refine ⟨?_, hedited⟩
          rw [hk]
          simp [usesChange, hresolves]
    | _ => cases hkind
  | _ =>
    refine hstay ?_
    cases s <;> first | rfl | cases hkind

theorem usesChange_identifier (scope : NodeId) (old new : String) (path : List Tree) (l : Header)
    (name : String) : usesChange scope old new path (.mk l (.identifier name)) =
      .mk l (if name = old && resolves scope old path then .identifier new else .identifier name) := by
  show (if name = old && resolves scope old path then _ else _) = _
  split <;> rfl

theorem usesChange_of_kind {scope : NodeId} {old new : String} {path : List Tree} {t : Tree}
    (h : t.kind ≠ .identifier) : usesChange scope old new path t = t := by
  obtain ⟨l, s⟩ := t
  cases s with
  | identifier => exact absurd rfl h
  | _ => rfl

theorem usesChange_cases (scope : NodeId) (old new : String) (path : List Tree) (t : Tree) :
    usesChange scope old new path t = t ∨ ∃ l, t = .mk l (.identifier old) ∧
      usesChange scope old new path t = .mk l (.identifier new) := by
  by_cases hkind : t.kind = .identifier
  · obtain ⟨l, s⟩ := t
    obtain ⟨name, rfl⟩ := Shape.eq_identifier hkind
    rw [usesChange_identifier]
    cases h : name = old && resolves scope old path with
    | false => exact Or.inl rfl
    | true =>
      obtain ⟨rfl, -⟩ : name = old ∧ resolves scope old path = true := by simpa using h
      exact Or.inr ⟨l, rfl, rfl⟩
  · exact Or.inl (usesChange_of_kind hkind)

theorem usesChange_inPlace (scope : NodeId) (old new : String) :
    Tree.InPlace (usesChange scope old new) := by
  constructor <;> intro path t <;>
    rcases usesChange_cases scope old new path t with h | ⟨l, rfl, h⟩ <;> rw [h] <;> rfl

theorem usesChange_detects {scope : NodeId} {old new : String} (hne : old ≠ new) :
    Node.Detects (Named new) (usesChange scope old new) := by
  refine detects_named fun path t h => ?_
  rcases usesChange_cases scope old new path t with h' | ⟨l, rfl, h'⟩
  · exact absurd h' h
  · rw [h']
    exact named_rename (Or.inl rfl) rfl hne

/-- A visit of the uses, as a whole. -/
theorem visit_uses {scope : NodeId} {old new : String} (hne : old ≠ new) {σ : Setting} (n : Node)
    (fuel : Nat) (c : Context) (hvalid : n.slotValid) (hn : n.Predates σ.bound)
    (hfuel : n.height ≤ fuel) (hc : c.In σ) :
    (visit fuel (usesVisitor scope old new) n).Yields c fun m =>
      m.content = Tree.rewrite (usesChange scope old new) n.content c.cursor.path ∧
        Node.Shares (Named new) σ.bound n m := by
  obtain ⟨name, s, hvisitor, hs⟩ := usesVisitor_walksThen scope old new
  rw [hvisitor]
  exact visit_edits hs (usesFinish_changes hne σ) (usesChange_inPlace scope old new).slotSafe
    (usesChange_detects hne) n fuel c hvalid hn hfuel hc

/-! ### The declaration -/

/-- The name to be replaced in the scope, if the variable is bound there under another than the new
one. -/
def pending (declaration : NodeId) (new : String) (scope : Tree) : Option String :=
  (bindingDecls scope).findSome? (pendingName declaration new)

/-- The variable with its new name, if that is the node. -/
def declare (declaration : NodeId) (new : String) (t : Tree) : Tree :=
  if t.kind = .namedVariable ∧ t.label.id = declaration ∧ t.simpleName ≠ some new then
    .mk t.label (t.shape.rename new)
  else t

/-- What the first visitor makes of a node, with the visit of the uses that it leaves there. -/
def change (declaration : NodeId) (new : String) (path : List Tree) (t : Tree) : Tree :=
  match path with
  | [] => t
  | scope :: above =>
    match pending declaration new scope with
    | none => declare declaration new t
    | some old => Tree.rewrite (usesChange scope.label.id old new) t above

/-- What the first visitor does at a node that has been walked. -/
def finish (declaration : NodeId) (new : String) (p : Place) : Script Visitor :=
  match p.current.kind with
  | .namedVariable =>
    .look fun p =>
      if p.current.label.id = declaration && p.current.simpleName ≠ some new then
        .edit (.rename new) .done
      else .done
  | _ =>
    match pending declaration new p.current with
    | none => .done
    | some old => followUp p.current old new

theorem visitor_walksThen (declaration : NodeId) (new : String) :
    ∃ name s, visitor declaration new = .plain name s ∧ s.WalksThen (finish declaration new) := by
  refine ⟨_, _, rfl, walksThen_look_kind fun p visitChild n kind hkind => ?_⟩
  unfold finish
  rw [hkind]
  cases kind <;> rfl

theorem mem_children_of_bindingDecls {t decls : Tree} (h : decls ∈ bindingDecls t) :
    decls ∈ t.children := by
  obtain ⟨l, s⟩ := t
  cases s with
  | block statements => simpa [Shape.children, bindingDecls] using h
  | methodDecl ms returnType name parameters body methodType =>
    have h : decls ∈ parameters := h
    simp [Shape.children, h]
  | _ => exact absurd h List.not_mem_nil

theorem mem_slotted_of_declaredVariables {decls v : Tree} (h : v ∈ decls.declaredVariables) :
    (Slot.declarator, v) ∈ decls.shape.slotted := by
  obtain ⟨l, s⟩ := decls
  cases s with
  | variableDecls ms typeExpr declarators =>
    have h : v ∈ declarators := h
    simp [Shape.slotted, Shape.opt, Shape.many, h]
  | _ => exact absurd h List.not_mem_nil

/-- A name is pending where the variable is bound. -/
theorem exists_of_pending {declaration : NodeId} {new old : String} {scope : Tree}
    (h : pending declaration new scope = some old) :
    ∃ decls ∈ bindingDecls scope, ∃ v ∈ decls.declaredVariables,
      v.label.id = declaration ∧ v.simpleName = some old ∧ old ≠ new := by
  obtain ⟨decls, hmem, h⟩ := List.exists_of_findSome?_eq_some h
  obtain ⟨v, hv, h⟩ := Option.bind_eq_some_iff.1 h
  obtain ⟨hname, hne⟩ := Option.filter_eq_some_iff.1 h
  exact ⟨decls, hmem, v, List.mem_of_find?_eq_some hv, by simpa using List.find?_some hv, hname,
    of_decide_eq_true hne⟩

theorem ne_of_pending {declaration : NodeId} {new old : String} {scope : Tree}
    (h : pending declaration new scope = some old) : old ≠ new := by
  obtain ⟨-, -, -, -, -, -, hne⟩ := exists_of_pending h
  exact hne

/-- Only blocks and methods bind variables that can be pending. -/
theorem kind_of_pending {declaration : NodeId} {new old : String} {scope : Tree}
    (h : pending declaration new scope = some old) : scope.kind = .block ∨ scope.kind = .methodDecl := by
  obtain ⟨decls, hmem, -⟩ := List.exists_of_findSome?_eq_some h
  obtain ⟨l, s⟩ := scope
  cases s with
  | block => exact Or.inl rfl
  | methodDecl => exact Or.inr rfl
  | _ => exact absurd hmem List.not_mem_nil

theorem declare_inPlace (declaration : NodeId) (new : String) :
    Tree.InPlace fun _ => declare declaration new := by
  constructor <;> intro path t <;> unfold declare <;> split <;> simp [Labelled.kind]

theorem declare_detects (declaration : NodeId) (new : String) :
    Node.Detects (Named new) fun _ => declare declaration new := by
  refine detects_named fun path t h => ?_
  unfold declare at h ⊢
  split at h
  · next hcond =>
    rw [if_pos hcond]
    obtain ⟨l, s⟩ := t
    obtain ⟨hkind, -, hname⟩ := hcond
    cases s with
    | namedVariable name initializer => exact named_rename (Or.inr rfl) rfl fun h => hname (congrArg some h)
    | _ => cases hkind
  · exact absurd rfl h

theorem change_slotSafe (declaration : NodeId) (new : String) :
    Tree.SlotSafe (change declaration new) := by
  intro path t ht
  unfold change
  split
  · exact ⟨ht, fun _ h => h⟩
  · next scope above =>
    split
    · exact (declare_inPlace declaration new).slotSafe [] t ht
    · exact Tree.slotValid_rewrite (usesChange_inPlace _ _ _).slotSafe t above ht

theorem height_change (declaration : NodeId) (new : String) (path : List Tree) (t : Tree) :
    (change declaration new path t).height = t.height := by
  unfold change
  split
  · rfl
  · split
    · exact (declare_inPlace declaration new).height_change [] t
    · exact Tree.height_rewrite (usesChange_inPlace _ _ _).height_change t _

theorem ids_change (declaration : NodeId) (new : String) (path : List Tree) (t : Tree) :
    (change declaration new path t).ids = t.ids := by
  unfold change
  split
  · rfl
  · split
    · exact (declare_inPlace declaration new).ids_change [] t
    · exact Tree.ids_rewrite (usesChange_inPlace _ _ _).ids_change t _

/-! ### The visit -/

theorem finish_of_pending {declaration : NodeId} {new old : String} {p : Place}
    (h : pending declaration new p.current = some old) :
    finish declaration new p = followUp p.current old new := by
  unfold finish
  rcases kind_of_pending h with hkind | hkind <;> rw [hkind, h]

theorem finish_of_none {declaration : NodeId} {new : String} {p : Place}
    (hkind : p.current.kind ≠ .namedVariable) (h : pending declaration new p.current = none) :
    finish declaration new p = .done := by
  unfold finish
  rw [h]
  generalize p.current.kind = kind at hkind
  cases kind with
  | namedVariable => exact absurd rfl hkind
  | _ => rfl

/-- The script renames the variable if that is the one. -/
theorem finish_yields {declaration : NodeId} {new : String} {p : Place} {σ : Setting}
    {visitChild : Node → Visit Node} {m : Node} {c : Context}
    (hpending : pending declaration new p.current = none) (hkind : m.kind = p.current.kind)
    (hb : σ.bound ≤ c.session.supply.stamp) (hm : m.Predates c.session.supply.stamp) :
    ((finish declaration new p).run visitChild m).Yields c fun k =>
      k.content = declare declaration new m.content ∧ Node.Edited σ.bound m k := by
  by_cases hvar : m.kind = .namedVariable
  · obtain ⟨l, s⟩ := m
    cases s with
    | namedVariable name initializer =>
      have hcontent : Node.content (.mk l (.namedVariable name initializer)) =
          .mk l.header (.namedVariable name (initializer.map Node.content)) := by
        rw [Node.content_mk]
        rfl
      unfold finish
      rw [← hkind, hvar]
      refine run_look_yields ?_
      rw [Context.current_place, hcontent]
      by_cases hcond : l.id = declaration ∧ name ≠ new
      · -- It is the variable and has another name yet.
        have hif : (decide (l.id = declaration) && decide (some name ≠ some new)) = true := by
          simpa using hcond
        change ((if decide (l.id = declaration) && decide (some name ≠ some new) then _ else _ :
          Script Visitor).run _ _).Yields _ _
        rw [if_pos hif]
        refine (run_edit_yields (s := .namedVariable new initializer) rfl hb hm rfl ?_).imp ?_
        · intro heq
          exact hcond.2 (Shape.namedVariable.inj heq).1.symm
        · rintro k ⟨hk, hedited⟩
          refine ⟨?_, hedited⟩
          rw [hk]
          unfold declare
          rw [if_pos ⟨rfl, hcond.1, fun h => hcond.2 (Option.some.inj h)⟩]
          rfl
      · have hif : ¬ (decide (l.id = declaration) && decide (some name ≠ some new)) = true := by
          simpa using hcond
        change ((if decide (l.id = declaration) && decide (some name ≠ some new) then _ else _ :
          Script Visitor).run _ _).Yields _ _
        rw [if_neg hif]
        refine run_done_yields hm ⟨?_, Or.inl rfl⟩
        unfold declare
        rw [if_neg]
        · exact hcontent
        · rintro ⟨-, hid, hname⟩
          exact hcond ⟨hid, fun h => hname (congrArg some h)⟩
    | _ => cases hvar
  · -- Of other kinds nothing is left to be done.
    rw [finish_of_none (hkind ▸ hvar) hpending]
    refine run_done_yields hm ⟨?_, Or.inl rfl⟩
    unfold declare
    rw [if_neg fun h => hvar (m.kind_content ▸ h.1)]

/-- Settling a node at which a visitor was left is running that visitor, from above the node. -/
theorem settle_deferred {fuel : Nat} {visitChild : Node → Visit Node} {m : Node} {c c' : Context}
    {t : Tree} {entries : List Entry} {v : Visitor} {post : Node → Prop}
    (hc : (c.enter t).Resumes c')
    (h : ∀ c'', c.Resumes c'' → c''.session.supply = c'.session.supply →
      (visit fuel v m).Yields c'' post) :
    ∃ k c'', settle fuel visitChild (.tell entries (.defer v .done)) m c' = .done k c'' ∧
      c.Resumes c'' ∧ k.Predates c''.session.supply.stamp ∧ post k := by
  have hdeferred : c'.deferred = [] :: c.deferred := hc.deferred
  let left := (((c'.tell entries).defer v).leave.2).tell [.event (.deferredRun v.name m.kind m.label.id)]
  have hleft : ((c'.tell entries).defer v).leave.1 = [v] := by
    simp [Context.defer, Context.tell, Context.leave, hdeferred]
  -- With the visitor taken off its queue all is as before the node but for the journal.
  have hresumes : c.Resumes left := by
    obtain ⟨-, hleave⟩ := Context.resumes_leave hc
    have hstate : ((c'.tell entries).defer v).leave.2 = c'.leave.2.tell entries := by
      simp [Context.defer, Context.tell, Context.leave, hdeferred]
    show c.Resumes ((((c'.tell entries).defer v).leave.2).tell _)
    rw [hstate]
    exact (hleave.trans (Context.resumes_tell _ _)).trans (Context.resumes_tell _ _)
  have hsupply : left.session.supply = c'.session.supply := by
    simp [left, Context.defer, Context.tell, Context.leave, Session.tell, hdeferred]
  obtain ⟨k, c'', hvisit, hc'', hk, hpost⟩ := h left hresumes hsupply
  refine ⟨k, c'', ?_, hresumes.trans hc'', hk, hpost⟩
  have hleaving : Visit.leaving ((Script.tell entries (.defer v .done)).run visitChild m) c' =
      .done (m, [v]) ((c'.tell entries).defer v).leave.2 := by
    rw [← hleft]
    rfl
  unfold settle
  rw [Visit.bind_done hleaving]
  show (visit fuel v m >>= fun n => runDeferred (visit fuel) [] n) left = _
  rw [Visit.bind_done hvisit]
  rfl

/-- **A visit renames the declaration and then its uses.** -/
theorem visit_renames (declaration : NodeId) (new : String) {σ : Setting} (n : Node) (fuel : Nat)
    (c : Context) (hvalid : n.slotValid) (hn : n.Predates σ.bound) (hfuel : n.height + 1 ≤ fuel)
    (hc : c.In σ) :
    (visit fuel (visitor declaration new) n).Yields c fun m =>
      m.content = Tree.rewrite (change declaration new) n.content c.cursor.path ∧
        Node.Shares (Named new) σ.bound n m := by
  obtain ⟨name, s, hvisitor, hs⟩ := visitor_walksThen declaration new
  rw [hvisitor]
  refine @visit_yields name s (finish declaration new) hs σ 1 (fun above n m =>
    m.content = Tree.rewrite (change declaration new) n.content above ∧
      Node.Shares (Named new) σ.bound n m)
    ?_ (fun _ _ _ h => h.2.same_or_new) ?_ n fuel c hvalid hn hfuel hc
  · -- Every slot that took a node takes what has come of it.
    intro above n m hm hvalid slot hacc
    exact (change_slotSafe declaration new).accepts hm.1 hvalid hacc
  · intro fuel n m cs c c' hvalid hn hfuel hc hc' hm hcs hwalked
    let below := fun t => Tree.rewrite (change declaration new) t (n.content :: c.cursor.path)
    have hcontent : m.content = Tree.rewriteBelow (change declaration new) n.content c.cursor.path :=
      hwalked.content (f := below) (hcs.imp fun _ _ h => h.1)
    have hshares := hwalked.shares (f := below) (lifts_named new) hcs
    have hkind : m.kind = n.content.kind := hwalked.kind.trans n.kind_content.symm
    rw [Tree.rewrite_eq, ← hcontent]
    cases hpending : pending declaration new n.content with
    | none =>
      -- No scope here: the node itself may be the declaration.
      have hchange : change declaration new (n.content :: c.cursor.path) m.content =
          declare declaration new m.content := by
        simp only [change, hpending]
      rw [hchange]
      refine settle_of_run hc' ((finish_yields (σ := σ) hpending hkind
        (Nat.le_trans hc.bound hc'.stamp) hm).imp fun k hk => ⟨hk.1, ?_⟩)
      exact hwalked.shares_edited (f := below) (declare_detects declaration new) [] hcs hk.1 hk.2
    | some old =>
      have hchange : change declaration new (n.content :: c.cursor.path) m.content =
          Tree.rewrite (usesChange n.content.label.id old new) m.content c.cursor.path := by
        simp only [change, hpending]
      -- The scope: the second visitor starts over from the node as the first has left it.
      have hmvalid : m.slotValid := by
        rw [← Node.slotValid_content, hcontent]
        rw [← Node.slotValid_content] at hvalid
        exact Tree.slotValid_rewriteBelow hvalid fun t _ =>
          Tree.slotValid_rewrite (change_slotSafe declaration new) t _
      have hheight : m.height = n.height := by
        rw [← Node.height_content, hcontent, ← Node.height_content]
        exact Tree.height_rewriteBelow fun t _ => Tree.height_rewrite (height_change declaration new) t _
      rw [hchange, finish_of_pending hpending]
      refine settle_deferred hc' fun c'' hc'' hsupply => ?_
      -- Its objects are made after those of the first, so it has a bound of its own.
      let σ' : Setting := { σ with bound := c'.session.supply.stamp }
      have hin : c''.In σ' := by
        have := hc.resumes hc''
        exact ⟨this.source, this.hierarchy, Nat.le_of_eq (congrArg Supply.stamp hsupply.symm)⟩
      refine (visit_uses (ne_of_pending hpending) (σ := σ') m fuel c'' hmvalid hm (by omega) hin).imp ?_
      rintro k ⟨hk, hk'⟩
      refine ⟨by rw [hk, hc''.cursor]; rfl, ?_⟩
      exact hshares.trans Named.trans (Nat.le_trans hc.bound hc'.stamp) hk'

/-! ### Once renamed -/

/-- The variable has the new name wherever it is declared. -/
def Renamed (declaration : NodeId) (new : String) (t : Tree) : Prop :=
  t.label.id = declaration → t.kind = .namedVariable → t.simpleName = some new

theorem renamed_declare (declaration : NodeId) (new : String) (t : Tree) :
    Renamed declaration new (declare declaration new t) := by
  intro hid hkind
  unfold declare at hid hkind ⊢
  split
  · next hcond =>
    obtain ⟨l, s⟩ := t
    cases s with
    | namedVariable => rfl
    | _ => cases hcond.1
  · next hcond =>
    rw [if_neg hcond] at hid hkind
    by_contra hname
    exact hcond ⟨hkind, hid, hname⟩

theorem renamed_usesChange {declaration scope : NodeId} {old new : String} (path : List Tree) (t : Tree)
    (h : Renamed declaration new t) : Renamed declaration new (usesChange scope old new path t) := by
  rcases usesChange_cases scope old new path t with h' | ⟨l, rfl, h'⟩
  · rwa [h']
  · rw [h']
    rintro - hkind
    cases hkind

theorem renamed_map {declaration : NodeId} {new : String} (l : Header) (s : Shape Tree)
    (f : Tree → Tree) (h : Renamed declaration new (.mk l s)) :
    Renamed declaration new (.mk l (s.map f)) := by
  simpa [Renamed, Labelled.simpleName] using h

/-- After a pass the variable has the new name. -/
theorem renamed_rewrite (declaration : NodeId) (new : String) (t : Tree) (above : List Tree) :
    ∀ d ∈ (Tree.rewrite (change declaration new) t above).descendants, Renamed declaration new d := by
  induction t using Labelled.ind generalizing above with
  | node l s ih =>
    let m := Tree.rewriteBelow (change declaration new) (.mk l s) above
    have hkids : ∀ c ∈ m.children, ∀ d ∈ c.descendants, Renamed declaration new d := by
      intro c' hc'
      rw [Tree.children_rewriteBelow, Labelled.children_mk] at hc'
      obtain ⟨c, hc, rfl⟩ := List.mem_map.1 hc'
      exact ih c hc _
    rw [Tree.rewrite_eq]
    cases hpending : pending declaration new (.mk l s) with
    | none =>
      -- The node itself is dealt with by `declare`.
      intro d hd
      have hchange : change declaration new (.mk l s :: above) m = declare declaration new m := by
        simp only [change, hpending]
      rw [hchange] at hd
      rcases Labelled.mem_descendants.1 hd with rfl | ⟨c, hc, hdc⟩
      · exact renamed_declare declaration new m
      · rw [(declare_inPlace declaration new).children []] at hc
        exact hkids c hc d hdc
    | some old =>
      -- The second visitor renames uses, and leaves what has the new name alone.
      have hchange : change declaration new (.mk l s :: above) m =
          Tree.rewrite (usesChange l.id old new) m above := by
        simp only [change, hpending, Labelled.label_mk]
      rw [hchange]
      refine (usesChange_inPlace l.id old new).forall_rewrite renamed_map renamed_usesChange m above ?_
      intro d hd
      rcases Labelled.mem_descendants.1 hd with rfl | ⟨c, hc, hdc⟩
      · -- A scope is no variable.
        intro _ hkind
        rw [Tree.kind_rewriteBelow] at hkind
        rcases kind_of_pending hpending with h | h <;> rw [h] at hkind <;> cases hkind
      · exact hkids c hc d hdc

/-- With the new name in place there is nothing to do. -/
theorem rewrite_eq_self_of_renamed {declaration : NodeId} {new : String} {t : Tree} {above : List Tree}
    (hvalid : t.slotValid) (h : ∀ d ∈ t.descendants, Renamed declaration new d) :
    Tree.rewrite (change declaration new) t above = t := by
  refine Tree.rewrite_eq_self (P := fun _ t => t.slotValid = true ∧
    ∀ d ∈ t.descendants, Renamed declaration new d) ?_ ?_ t above ⟨hvalid, h⟩
  · rintro above t ⟨hvalid, h⟩ c hc
    refine ⟨Labelled.slotValid_of_child hvalid hc, fun d hd => h d ?_⟩
    exact Labelled.mem_descendants.2 (Or.inr ⟨c, hc, hd⟩)
  · rintro above t ⟨hvalid, h⟩
    have hnone : pending declaration new t = none := by
      refine Option.eq_none_iff_forall_ne_some.2 fun old hpending => ?_
      obtain ⟨decls, hdecls, v, hv, hid, hname, hne⟩ := exists_of_pending hpending
      have hmem := mem_children_of_bindingDecls hdecls
      have hslot := mem_slotted_of_declaredVariables hv
      obtain ⟨hkind, -⟩ := Labelled.slotValid_iff.1 (Labelled.slotValid_of_child hvalid hmem) _ hslot
      have hvmem : v ∈ t.descendants := Labelled.mem_descendants.2 (Or.inr ⟨decls, hmem,
        Labelled.mem_descendants_of_child (Shape.mem_children_of_slotted hslot)⟩)
      have := h v hvmem hid (by simpa [Slot.accepts] using hkind)
      rw [hname, Option.some.injEq] at this
      exact hne this
    have hchange : change declaration new (t :: above) t = declare declaration new t := by
      simp only [change, hnone]
    rw [hchange]
    unfold declare
    rw [if_neg]
    rintro ⟨hkind, hid, hname⟩
    exact hname (h t (Labelled.self_mem_descendants t) hid hkind)

/-- **A second pass finds nothing to do.** -/
theorem rewrite_rewrite (declaration : NodeId) (new : String) (t : Tree) (hvalid : t.slotValid) :
    Tree.rewrite (change declaration new) (Tree.rewrite (change declaration new) t []) [] =
      Tree.rewrite (change declaration new) t [] :=
  rewrite_eq_self_of_renamed (Tree.slotValid_rewrite (change_slotSafe declaration new) t [] hvalid).1
    (renamed_rewrite declaration new t [])

end RenameVariable

end Refactor
