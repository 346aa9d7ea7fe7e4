import Mathlib.Data.List.TakeWhile
import Refactor.Proofs.Recipe.Stock

/-!
# The sites of a renaming

Which nodes get the new name, said of the tree as it is given: the declaration, and every identifier
of the old name whose nearest enclosing node that declares this name is the scope of the declaration
(`isSite`). The visitors find the uses in the tree with the declaration already renamed, going by the
id of the scope; both ways come to the same nodes (`rewrite_eq_sites`).
-/

namespace Refactor

/-- The tree with another name at the sites. A site is told by the way up from the node, the node
itself first. -/
def Tree.renameWhere (site : List Tree → Bool) (name : String) (t : Tree) (above : List Tree) : Tree :=
  Tree.rewrite (fun path t => if site path then .mk t.label (t.shape.rename name) else t) t above

theorem Tree.renameWhere_mk (site : List Tree → Bool) (name : String) (l : Header) (s : Shape Tree)
    (above : List Tree) : Tree.renameWhere site name (.mk l s) above =
      .mk l (if site (.mk l s :: above) then
        (s.map fun c => Tree.renameWhere site name c (.mk l s :: above)).rename name
      else s.map fun c => Tree.renameWhere site name c (.mk l s :: above)) := by
  unfold Tree.renameWhere
  rw [Tree.rewrite_eq]
  split <;> rfl

namespace RenameVariable

/-- The node is the declaration, or uses the name and its nearest enclosing node that declares the
name is the scope. -/
def isSite (declaration scope : NodeId) (name : String) : List Tree → Bool
  | [] => false
  | t :: above =>
    t.label.id = declaration ||
      (t.kind = .identifier && t.simpleName = some name &&
        (above.find? (·.declaresName name)).any (·.label.id = scope))

/-- In that tree the scope, a block or a method, binds the variable under that name. -/
structure Binds (t scope v : Tree) (name : String) : Prop where
  mem : scope ∈ t.descendants
  declares : ∃ decls ∈ bindingDecls scope, v ∈ decls.declaredVariables
  named : v.simpleName = some name

/-! ### The one binder -/

theorem mem_children_of_declaredVariables {decls v : Tree} (h : v ∈ decls.declaredVariables) :
    v ∈ decls.children := Shape.mem_children_of_slotted (mem_slotted_of_declaredVariables h)

/-- What a node binds stands below one of its children. -/
theorem mem_of_bindingDecls {a decls w : Tree} (hdecls : decls ∈ bindingDecls a)
    (hw : w ∈ decls.declaredVariables) : decls ∈ a.children ∧ w ∈ decls.descendants :=
  ⟨mem_children_of_bindingDecls hdecls,
    Labelled.mem_descendants_of_child (mem_children_of_declaredVariables hw)⟩

/-- A variable is bound by a block or a method, or by a class as its body binds it. -/
theorem exists_of_boundVariables {a w : Tree} (h : w ∈ a.boundVariables) :
    ∃ b ∈ a.descendants, (b = a ∨ a.kind = .classDecl ∧ b.kind = .block ∧ b ∈ a.children) ∧
      ∃ decls ∈ bindingDecls b, w ∈ decls.declaredVariables := by
  obtain ⟨l, s⟩ := a
  cases s with
  | block | methodDecl => exact ⟨_, Labelled.self_mem_descendants _, Or.inl rfl, List.mem_flatMap.1 h⟩
  | classDecl ms name superclass interfaces body classType =>
    have hbody : body ∈ Labelled.children (.mk l (.classDecl ms name superclass interfaces body classType)) := by
      simp [Shape.children]
    refine ⟨body, Labelled.mem_descendants_of_child hbody, ?_⟩
    obtain ⟨l', s'⟩ := body
    cases s' with
    | block statements => exact ⟨Or.inr ⟨rfl, rfl, hbody⟩, List.mem_flatMap.1 h⟩
    | _ => exact absurd h List.not_mem_nil
  | _ => exact absurd h List.not_mem_nil

section Binder

variable {t scope v : Tree} {name : String} (h : Binds t scope v name) (hnodup : t.ids.Nodup)
include h

theorem Binds.boundVariables_eq :
    scope.boundVariables = (bindingDecls scope).flatMap Labelled.declaredVariables := by
  obtain ⟨decls, hdecls, -⟩ := h.declares
  obtain ⟨l, s⟩ := scope
  cases s with
  | block | methodDecl => rfl
  | _ => exact absurd hdecls List.not_mem_nil

theorem Binds.mem_boundVariables : v ∈ scope.boundVariables := by
  rw [h.boundVariables_eq]
  exact List.mem_flatMap.2 h.declares

theorem Binds.declaresName : scope.declaresName name = true :=
  List.any_eq_true.2 ⟨v, h.mem_boundVariables, decide_eq_true h.named⟩

/-- The variable stands below a child of the scope. -/
theorem Binds.mem_child : ∃ c ∈ scope.children, v ∈ c.descendants := by
  obtain ⟨decls, hdecls, hv⟩ := h.declares
  obtain ⟨hc, hvc⟩ := mem_of_bindingDecls hdecls hv
  exact ⟨decls, hc, hvc⟩

theorem Binds.mem_scope : v ∈ scope.descendants := by
  obtain ⟨c, hc, hv⟩ := h.mem_child
  exact Labelled.mem_descendants.2 (Or.inr ⟨c, hc, hv⟩)

theorem Binds.kind_scope : scope.kind = .block ∨ scope.kind = .methodDecl := by
  obtain ⟨decls, hdecls, -⟩ := h.declares
  obtain ⟨l, s⟩ := scope
  cases s with
  | block => exact Or.inl rfl
  | methodDecl => exact Or.inr rfl
  | _ => exact absurd hdecls List.not_mem_nil

include hnodup

/-- No other node has a declaration of the variable. -/
theorem Binds.eq_scope {a decls w : Tree} (ha : a ∈ t.descendants) (hdecls : decls ∈ bindingDecls a)
    (hw : w ∈ decls.declaredVariables) (hid : w.label.id = v.label.id) : a = scope := by
  obtain ⟨decls', hdecls', hv⟩ := h.declares
  obtain ⟨hda, hwd⟩ := mem_of_bindingDecls hdecls hw
  obtain ⟨hds, hvd⟩ := mem_of_bindingDecls hdecls' hv
  have hd := Labelled.mem_descendants_trans (Labelled.mem_descendants_of_child hda) ha
  have hd' := Labelled.mem_descendants_trans (Labelled.mem_descendants_of_child hds) h.mem
  obtain rfl := Tree.eq_of_id hnodup (Labelled.mem_descendants_trans hwd hd)
    (Labelled.mem_descendants_trans hvd hd') hid
  obtain rfl := Labelled.eq_of_common_child hnodup hd hd' (mem_children_of_declaredVariables hw)
    (mem_children_of_declaredVariables hv)
  exact Labelled.eq_of_common_child hnodup ha h.mem hda hds

theorem Binds.id_ne : scope.label.id ≠ v.label.id := by
  intro hid
  obtain ⟨c, hc, hv⟩ := h.mem_child
  refine Labelled.key_not_mem_child (Tree.nodup_of_mem hnodup h.mem) hc ?_
  exact hid ▸ Labelled.key_mem_keys hv

/-- Away from the scope no name is pending. -/
theorem Binds.pending_eq_none {new : String} {a : Tree} (ha : a ∈ t.descendants) (hne : a ≠ scope) :
    pending v.label.id new a = none := by
  refine Option.eq_none_iff_forall_ne_some.2 fun old hpending => hne ?_
  obtain ⟨decls, hdecls, w, hw, hid, -⟩ := exists_of_pending hpending
  exact h.eq_scope hnodup ha hdecls hw hid

/-- At the scope the id is that of the variable. -/
theorem Binds.eq_of_find {decls w : Tree} (hdecls : decls ∈ bindingDecls scope)
    (hw : decls.declaredVariables.find? (·.label.id = v.label.id) = some w) : w = v := by
  have hid : w.label.id = v.label.id := by simpa using List.find?_some hw
  obtain ⟨hda, hwd⟩ := mem_of_bindingDecls hdecls (List.mem_of_find?_eq_some hw)
  exact Tree.eq_of_id (Tree.nodup_of_mem hnodup h.mem)
    (Labelled.mem_descendants_trans hwd (Labelled.mem_descendants_of_child hda)) h.mem_scope hid

/-- At the scope the old name is pending. -/
theorem Binds.pending_scope {new : String} (hnew : new ≠ name) :
    pending v.label.id new scope = some name := by
  obtain ⟨decls, hdecls, hv⟩ := h.declares
  have hsome : (pending v.label.id new scope).isSome := by
    refine List.findSome?_isSome_iff.2 ⟨decls, hdecls, ?_⟩
    have hfind : (decls.declaredVariables.find? (·.label.id = v.label.id)).isSome :=
      List.find?_isSome.2 ⟨v, hv, by simp⟩
    obtain ⟨w, hw⟩ := Option.isSome_iff_exists.1 hfind
    have hwv := h.eq_of_find hnodup hdecls hw
    simp [pendingName, hw, hwv, h.named, Option.filter, hnew.symm]
  obtain ⟨old, hold⟩ := Option.isSome_iff_exists.1 hsome
  obtain ⟨decls, hdecls, hpending⟩ := List.exists_of_findSome?_eq_some hold
  obtain ⟨w, hw, hfilter⟩ := Option.bind_eq_some_iff.1 hpending
  have hname := (Option.filter_eq_some_iff.1 hfilter).1
  rw [h.eq_of_find hnodup hdecls hw, h.named, Option.some.injEq] at hname
  rw [hold, hname]

/-- Strictly inside the scope nothing else binds the variable. -/
theorem Binds.not_bound {a c w : Tree} (hc : c ∈ scope.children) (ha : a ∈ c.descendants)
    (hw : w ∈ a.boundVariables) : w.label.id ≠ v.label.id := by
  intro hid
  obtain ⟨b, hb, -, decls, hdecls, hwd⟩ := exists_of_boundVariables hw
  have hbc := Labelled.mem_descendants_trans hb ha
  have hct := Labelled.mem_descendants_trans (Labelled.mem_descendants_of_child hc) h.mem
  obtain rfl := h.eq_scope hnodup (Labelled.mem_descendants_trans hbc hct) hdecls hwd hid
  exact Labelled.key_not_mem_child (Tree.nodup_of_mem hnodup h.mem) hc (Labelled.key_mem_keys hbc)

end Binder

/-! ### What is bound in a renamed tree -/

/-- The image of a node, which may depend on where it stands, is the node over the images of its
children, perhaps with the new name. -/
def RenamesLayers (new : String) (image : List Tree → Tree → Tree) : Prop :=
  ∀ up l s, image up (.mk l s) = .mk l (s.map (image (.mk l s :: up))) ∨
    image up (.mk l s) = .mk l ((s.map (image (.mk l s :: up))).rename new)

namespace RenamesLayers

variable {γ : Type} {new : String} {image : List Tree → Tree → Tree} (himage : RenamesLayers new image)
  {g g' : Tree → γ}
include himage

theorem map_declaredVariables (t : Tree) (up : List Tree)
    (h : ∀ w ∈ t.declaredVariables, ∀ up, g (image up w) = g' w) :
    (image up t).declaredVariables.map g = t.declaredVariables.map g' := by
  obtain ⟨l, s⟩ := t
  cases s with
  | variableDecls ms typeExpr declarators =>
    have hdecls : (image up (.mk l (.variableDecls ms typeExpr declarators))).declaredVariables =
        declarators.map (image (.mk l (.variableDecls ms typeExpr declarators) :: up)) := by
      rcases himage up l (.variableDecls ms typeExpr declarators) with heq | heq <;>
        rw [heq, Shape.map_variableDecls] <;> rfl
    rw [hdecls, List.map_map]
    exact List.map_congr_left fun w hw => h w hw _
  | _ => rcases himage up l _ with heq | heq <;> rw [heq] <;> rfl

theorem map_flatMap_declaredVariables (ts up : List Tree)
    (h : ∀ w ∈ ts.flatMap Labelled.declaredVariables, ∀ up, g (image up w) = g' w) :
    ((ts.map (image up)).flatMap Labelled.declaredVariables).map g =
      (ts.flatMap Labelled.declaredVariables).map g' := by
  rw [List.flatMap_map, List.map_flatMap, List.map_flatMap]
  refine List.flatMap_congr fun t ht => himage.map_declaredVariables t up fun w hw => ?_
  exact h w (List.mem_flatMap.2 ⟨t, ht, hw⟩)

/-- The image of a node binds the images of what the node binds. -/
theorem map_boundVariables (t : Tree) (up : List Tree)
    (h : ∀ w ∈ t.boundVariables, ∀ up, g (image up w) = g' w) :
    (image up t).boundVariables.map g = t.boundVariables.map g' := by
  obtain ⟨l, s⟩ := t
  have hlayer := himage up l s
  cases s with
  | block statements =>
    rw [Shape.map_block] at hlayer
    rcases hlayer with heq | heq <;> rw [heq] <;>
      exact himage.map_flatMap_declaredVariables statements _ h
  | methodDecl ms returnType name parameters body methodType =>
    rw [Shape.map_methodDecl] at hlayer
    rcases hlayer with heq | heq <;> rw [heq] <;>
      exact himage.map_flatMap_declaredVariables parameters _ h
  | classDecl ms name superclass interfaces body classType =>
    obtain ⟨l', s'⟩ := body
    rw [Shape.map_classDecl] at hlayer
    have hbody := himage (.mk l (.classDecl ms name superclass interfaces (.mk l' s') classType) :: up) l' s'
    cases s' with
    | block statements =>
      rw [Shape.map_block] at hbody
      rcases hlayer with heq | heq <;> rw [heq] <;> rcases hbody with heq | heq <;> rw [heq] <;>
        exact himage.map_flatMap_declaredVariables statements _ h
    | _ => rcases hlayer with heq | heq <;> rw [heq] <;> rcases hbody with heq | heq <;> rw [heq] <;> rfl
  | _ => rcases hlayer with heq | heq <;> rw [heq] <;> rfl

end RenamesLayers

/-! ### The declaration alone -/

/-- The tree with another name at the node of that id. -/
def renameAt (id : NodeId) (new : String) (t : Tree) : Tree :=
  t.fold fun t s => .mk t.label (if t.label.id = id then s.rename new else s)

theorem renameAt_mk (id : NodeId) (new : String) (l : Header) (s : Shape Tree) :
    renameAt id new (.mk l s) = .mk l (if l.id = id then (s.map (renameAt id new)).rename new
      else s.map (renameAt id new)) := by
  unfold renameAt
  rw [Labelled.fold_mk]
  rfl

/-- Rewriting below a node that was renamed is renaming what is rewritten below it. -/
theorem rewriteBelow_renameAt (change : List Tree → Tree → Tree) (id : NodeId) (new : String)
    (l : Header) (s : Shape Tree) (above : List Tree) :
    Tree.rewriteBelow change (renameAt id new (.mk l s)) above =
      .mk l (if l.id = id then (s.map fun c =>
          Tree.rewrite change (renameAt id new c) (renameAt id new (.mk l s) :: above)).rename new
        else s.map fun c =>
          Tree.rewrite change (renameAt id new c) (renameAt id new (.mk l s) :: above)) := by
  unfold Tree.rewriteBelow
  generalize hup : renameAt id new (.mk l s) :: above = up
  rw [renameAt_mk, Labelled.label_mk, Labelled.shape_mk]
  split
  · rw [Shape.map_rename, Shape.map_map]
  · rw [Shape.map_map]

@[simp] theorem label_renameAt (id : NodeId) (new : String) (t : Tree) :
    (renameAt id new t).label = t.label := by
  obtain ⟨l, s⟩ := t
  rw [renameAt_mk]
  rfl

theorem simpleName_renameAt {id : NodeId} (new : String) {t : Tree} (h : t.label.id ≠ id) :
    (renameAt id new t).simpleName = t.simpleName := by
  obtain ⟨l, s⟩ := t
  have h : l.id ≠ id := h
  rw [renameAt_mk, if_neg h]
  simp [Labelled.simpleName]

theorem boundVariables_renameAt (id : NodeId) (new : String) (t : Tree) :
    (renameAt id new t).boundVariables = t.boundVariables.map (renameAt id new) := by
  have hlayer : RenamesLayers new fun _ => renameAt id new := by
    intro up l s
    dsimp only
    rw [renameAt_mk]
    split
    · exact Or.inr rfl
    · exact Or.inl rfl
  simpa using hlayer.map_boundVariables t [] (g := fun w => w) fun w _ _ => rfl

/-- A node that does not bind the variable declares the same names. -/
theorem declaresName_renameAt {id : NodeId} (new name : String) {t : Tree}
    (h : ∀ w ∈ t.boundVariables, w.label.id ≠ id) :
    (renameAt id new t).declaresName name = t.declaresName name := by
  unfold Labelled.declaresName
  rw [boundVariables_renameAt, List.any_map, Bool.eq_iff_iff, List.any_eq_true, List.any_eq_true]
  refine exists_congr fun w => and_congr_right fun hw => ?_
  rw [Function.comp_apply, simpleName_renameAt new (h w hw)]

/-- Where no name is pending the first visitor renames the declaration and nothing else. -/
theorem rewrite_eq_renameAt {declaration : NodeId} {new : String} {t : Tree} (above : List Tree)
    (hpending : ∀ a ∈ t.descendants, pending declaration new a = none)
    (hkind : ∀ a ∈ t.descendants, a.label.id = declaration → a.kind = .namedVariable) :
    Tree.rewrite (change declaration new) t above = renameAt declaration new t := by
  induction t using Labelled.ind generalizing above with
  | node l s ih =>
    have hkids : ∀ c ∈ s.children, Tree.rewrite (change declaration new) c (.mk l s :: above) =
        renameAt declaration new c := by
      intro c hc
      have hmem : ∀ a ∈ c.descendants, a ∈ Labelled.descendants (.mk l s) := fun a ha =>
        Labelled.mem_descendants.2 (Or.inr ⟨c, hc, ha⟩)
      exact ih c hc _ (fun a ha => hpending a (hmem a ha)) fun a ha => hkind a (hmem a ha)
    have hself := Labelled.self_mem_descendants (.mk l s : Tree)
    rw [Tree.rewrite_eq, Tree.rewriteBelow, renameAt_mk, Labelled.label_mk, Labelled.shape_mk,
      Shape.map_congr hkids]
    simp only [change, hpending _ hself]
    unfold declare
    by_cases hid : l.id = declaration
    · have hkind : s.kind = .namedVariable := hkind _ hself hid
      rw [if_pos hid]
      cases s with
      | namedVariable name initializer =>
        by_cases hname : name = new
        · -- It has the name already.
          subst hname
          rw [if_neg fun h => h.2.2 rfl]
          rfl
        · rw [if_pos ⟨rfl, hid, fun h => hname (Option.some.inj h)⟩]
          rfl
      | _ => cases hkind
    · rw [if_neg hid, if_neg fun h => hid h.2.1]

/-! ### The uses, told from the tree as it was -/

/-- Whether a use resolves to the scope is a question of what is strictly above it. -/
theorem resolves_eq (scope : NodeId) (name : String) (path : List Tree) :
    resolves scope name path = Cursor.reaches scope name path.tail := by
  -- Without the scope above, neither of them finds it.
  have habsent : ∀ above : List Tree, (∀ a ∈ above, a.label.id ≠ scope) →
      Cursor.reaches scope name above = false := by
    intro above
    induction above with
    | nil => exact fun _ => rfl
    | cons a above ih =>
      intro h
      rw [Cursor.reaches, if_neg (h a (by simp)), ih fun b hb => h b (List.mem_cons_of_mem _ hb), ite_self]
  rw [resolves, Cursor.findFrame_eq, Cursor.path_ofPath]
  cases hdrop : path.dropWhile (·.label.id ≠ scope) with
  | nil =>
    have hall : ∀ a ∈ path, a.label.id ≠ scope := by
      simpa using List.dropWhile_eq_nil_iff.1 hdrop
    exact (habsent _ fun a ha => hall a (List.mem_of_mem_tail ha)).symm
  | cons frame rest =>
    have hframe : frame.label.id = scope := by
      have hhead := List.head?_dropWhile_not (fun a : Tree => decide (a.label.id ≠ scope)) path
      rw [hdrop] at hhead
      simpa using hhead
    show Cursor.reaches frame.label.id name (Cursor.ofPath path).path.tail = _
    rw [hframe, Cursor.path_ofPath]

/-- The condition on a use, going up one node that is not the scope. -/
theorem reaches_cons {scope : NodeId} {name : String} {t t' : Tree} {above above' : List Tree}
    (hid : t.label.id ≠ scope) (hid' : t'.label.id = t.label.id)
    (hdeclares : t'.declaresName name = t.declaresName name)
    (h : Cursor.reaches scope name above' = (above.find? (·.declaresName name)).any (·.label.id = scope)) :
    Cursor.reaches scope name (t' :: above') =
      ((t :: above).find? (·.declaresName name)).any (·.label.id = scope) := by
  rw [Cursor.reaches, if_neg (hid' ▸ hid), hdeclares, h]
  cases hd : t.declaresName name with
  | true => simp [hd, hid]
  | false => simp [hd]

/-- Inside the scope the uses are the sites, and the declaration is one already. -/
theorem rewrite_uses_eq_sites {declaration scope : NodeId} {old new : String} {t : Tree}
    {above above' : List Tree} (hscope : ∀ a ∈ t.descendants, a.label.id ≠ scope)
    (hbound : ∀ a ∈ t.descendants, ∀ w ∈ a.boundVariables, w.label.id ≠ declaration)
    (hkind : ∀ a ∈ t.descendants, a.label.id = declaration → a.kind = .namedVariable)
    (h : Cursor.reaches scope old above' =
      (above.find? (·.declaresName old)).any (·.label.id = scope)) :
    Tree.rewrite (usesChange scope old new) (renameAt declaration new t) above' =
      t.renameWhere (isSite declaration scope old) new above := by
  induction t using Labelled.ind generalizing above above' with
  | node l s ih =>
    let t' := renameAt declaration new (.mk l s)
    have hself := Labelled.self_mem_descendants (.mk l s : Tree)
    -- What is seen from the children: the node shuts out the scope if it declares the name.
    have hup : Cursor.reaches scope old (t' :: above') =
        ((.mk l s :: above).find? (·.declaresName old)).any (·.label.id = scope) :=
      reaches_cons (hscope _ hself) (by simp [t']) (declaresName_renameAt new old (hbound _ hself)) h
    have hkids : ∀ c ∈ s.children,
        Tree.rewrite (usesChange scope old new) (renameAt declaration new c) (t' :: above') =
          Tree.renameWhere (isSite declaration scope old) new c (.mk l s :: above) := by
      intro c hc
      have hmem : ∀ a ∈ c.descendants, a ∈ Labelled.descendants (.mk l s) := fun a ha =>
        Labelled.mem_descendants.2 (Or.inr ⟨c, hc, ha⟩)
      exact ih c hc (fun a ha => hscope a (hmem a ha)) (fun a ha => hbound a (hmem a ha))
        (fun a ha => hkind a (hmem a ha)) hup
    rw [Tree.renameWhere_mk, Tree.rewrite_eq, rewriteBelow_renameAt, Shape.map_congr hkids]
    generalize hpath : renameAt declaration new (.mk l s) :: above' = path
    have htail : path.tail = above' := by rw [← hpath, List.tail_cons]
    by_cases hdecl : l.id = declaration
    · -- The declaration was renamed by the first visitor.
      have hvar : s.kind = .namedVariable := hkind _ hself hdecl
      rw [if_pos hdecl, if_pos (by simp [isSite, hdecl])]
      cases s with
      | namedVariable => rfl
      | _ => cases hvar
    · rw [if_neg hdecl]
      by_cases hkind : s.kind = .identifier
      · -- An identifier is a site if it has the name and sees the scope.
        obtain ⟨name, rfl⟩ := Shape.eq_identifier hkind
        have hsite : isSite declaration scope old (.mk l (.identifier name) :: above) =
            (name = old && resolves scope old path) := by
          rw [resolves_eq, htail, h]
          simp [isSite, hdecl, Labelled.kind, Shape.kind, Labelled.simpleName, Shape.simpleName]
        rw [Shape.map_identifier, usesChange_identifier, hsite]
        rfl
      · have hsite : isSite declaration scope old (.mk l s :: above) = false := by
          simp [isSite, hdecl, hkind]
        rw [hsite, usesChange_of_kind (by simpa using hkind)]
        rfl

/-! ### The whole tree -/

/-- Without the variable and its scope in sight there are no sites. -/
theorem renameWhere_eq_self {declaration scope : NodeId} {old new : String} {t : Tree}
    {above : List Tree} (hdecl : declaration ∉ t.ids) (hscope : scope ∉ t.ids)
    (habove : ∀ a ∈ above, a.label.id ≠ scope) :
    Tree.renameWhere (isSite declaration scope old) new t above = t := by
  refine Tree.rewrite_eq_self (P := fun above t => declaration ∉ Tree.ids t ∧ scope ∉ Tree.ids t ∧
    ∀ a ∈ above, a.label.id ≠ scope) ?_ ?_ t above ⟨hdecl, hscope, habove⟩
  · rintro above t ⟨hdecl, hscope, habove⟩ c hc
    have hsub : ∀ id ∈ Tree.ids c, id ∈ Tree.ids t := by
      intro id hid
      obtain ⟨d, hd, rfl⟩ := Labelled.mem_keys.1 hid
      exact Labelled.key_mem_keys (Labelled.mem_descendants.2 (Or.inr ⟨c, hc, hd⟩))
    refine ⟨fun h => hdecl (hsub _ h), fun h => hscope (hsub _ h), fun a ha => ?_⟩
    rcases List.mem_cons.1 ha with rfl | ha
    · exact fun h => hscope (h ▸ Labelled.key_mem_keys (Labelled.self_mem_descendants a))
    · exact habove a ha
  · rintro above t ⟨hdecl, -, habove⟩
    have hsite : isSite declaration scope old (t :: above) = false := by
      have hid : t.label.id ≠ declaration := fun h =>
        hdecl (h ▸ Labelled.key_mem_keys (Labelled.self_mem_descendants t))
      have hfind : (above.find? (·.declaresName old)).any (·.label.id = scope) = false := by
        cases hfind : above.find? (·.declaresName old) with
        | none => rfl
        | some a => simpa using habove a (List.mem_of_find?_eq_some hfind)
      simp [isSite, hid, hfind]
    rw [hsite]
    rfl

theorem kind_of_declaredVariables {decls w : Tree} (hvalid : decls.slotValid)
    (hw : w ∈ decls.declaredVariables) : w.kind = .namedVariable := by
  have hslot := (Labelled.slotValid_iff.1 hvalid _ (mem_slotted_of_declaredVariables hw)).1
  simpa [Slot.accepts] using hslot

theorem Binds.kind_variable {t scope v : Tree} {name : String} (h : Binds t scope v name)
    (hvalid : t.slotValid) : v.kind = .namedVariable := by
  obtain ⟨decls, hdecls, hv⟩ := h.declares
  have hmem := Labelled.mem_descendants_trans
    (Labelled.mem_descendants_of_child (mem_children_of_bindingDecls hdecls)) h.mem
  exact kind_of_declaredVariables (Labelled.slotValid_of_mem hvalid hmem) hv

section Whole

variable {t scope v : Tree} {old new : String} (h : Binds t scope v old) (hnodup : t.ids.Nodup)
  (hvalid : t.slotValid) (hnew : new ≠ old)
include h hnodup hvalid hnew

/-- At the scope the two visitors rename the sites. -/
theorem Binds.rewrite_scope (above : List Tree) :
    Tree.rewrite (change v.label.id new) scope above =
      Tree.renameWhere (isSite v.label.id scope.label.id old) new scope above := by
  have hpending := h.pending_scope hnodup hnew
  have hdeclares := h.declaresName
  have hne := h.id_ne hnodup
  have hmem : ∀ c ∈ scope.children, ∀ a ∈ c.descendants, a ∈ t.descendants := fun c hc a ha =>
    Labelled.mem_descendants_trans (Labelled.mem_descendants.2 (Or.inr ⟨c, hc, ha⟩)) h.mem
  have hvt : v ∈ t.descendants := Labelled.mem_descendants_trans h.mem_scope h.mem
  have hkind : ∀ c ∈ scope.children, ∀ a ∈ c.descendants, a.label.id = v.label.id →
      a.kind = .namedVariable := by
    intro c hc a ha hid
    rw [Tree.eq_of_id hnodup (hmem c hc a ha) hvt hid]
    exact h.kind_variable hvalid
  have hscope : ∀ c ∈ scope.children, ∀ a ∈ c.descendants, a.label.id ≠ scope.label.id :=
    fun c hc a ha hid => Labelled.key_not_mem_child (Tree.nodup_of_mem hnodup h.mem) hc
      (hid ▸ Labelled.key_mem_keys ha)
  -- The first visitor has renamed the declaration below the scope and nothing else.
  have hfirst : ∀ c ∈ scope.children, Tree.rewrite (change v.label.id new) c (scope :: above) =
      renameAt v.label.id new c := by
    intro c hc
    refine rewrite_eq_renameAt _ (fun a ha => ?_) (hkind c hc)
    exact h.pending_eq_none hnodup (hmem c hc a ha) fun heq => hscope c hc a ha (heq ▸ rfl)
  -- On that the second one renames the uses.
  have hsecond : ∀ c ∈ scope.children,
      Tree.rewrite (usesChange scope.label.id old new) (renameAt v.label.id new c)
          (renameAt v.label.id new scope :: above) =
        Tree.renameWhere (isSite v.label.id scope.label.id old) new c (scope :: above) := by
    intro c hc
    refine rewrite_uses_eq_sites (hscope c hc) (fun a ha w hw => h.not_bound hnodup hc ha hw)
      (hkind c hc) ?_
    simp [Cursor.reaches, hdeclares]
  -- The scope is no site itself.
  have hident : scope.kind ≠ .identifier := by
    rcases h.kind_scope with h | h <;> rw [h] <;> decide
  obtain ⟨l, s⟩ := scope
  simp only [Labelled.label_mk, Labelled.kind_mk] at hne hident hfirst hsecond ⊢
  have hsite : isSite v.label.id l.id old (.mk l s :: above) = false := by
    simp [isSite, hne, hident]
  have hbelow : Tree.rewriteBelow (change v.label.id new) (.mk l s) above =
      renameAt v.label.id new (.mk l s) := by
    rw [renameAt_mk, if_neg hne, Tree.rewriteBelow, Labelled.label_mk, Labelled.shape_mk,
      Shape.map_congr (s := s) hfirst]
  calc Tree.rewrite (change v.label.id new) (.mk l s) above
      = Tree.rewrite (usesChange l.id old new) (renameAt v.label.id new (.mk l s)) above := by
        rw [Tree.rewrite_eq, hbelow]
        simp only [change, hpending, Labelled.label_mk]
    _ = usesChange l.id old new (renameAt v.label.id new (.mk l s) :: above) (.mk l (s.map fun c =>
          Tree.renameWhere (isSite v.label.id l.id old) new c (.mk l s :: above))) := by
        rw [Tree.rewrite_eq, rewriteBelow_renameAt, if_neg hne, Shape.map_congr (s := s) hsecond]
    _ = Tree.renameWhere (isSite v.label.id l.id old) new (.mk l s) above := by
        rw [Tree.renameWhere_mk, hsite, usesChange_of_kind]
        · rfl
        · simpa using hident

/-- **The visitors rename the sites and nothing else**, from any node above the scope. -/
theorem Binds.rewrite_eq_sites {a : Tree} (ha : a ∈ t.descendants) (hscope : scope ∈ a.descendants)
    {above : List Tree} (habove : ∀ b ∈ above, b.label.id ≠ scope.label.id) :
    Tree.rewrite (change v.label.id new) a above =
      Tree.renameWhere (isSite v.label.id scope.label.id old) new a above := by
  induction a using Labelled.ind generalizing above with
  | node l s ih =>
    have hnodupa := Tree.nodup_of_mem hnodup ha
    rcases Labelled.mem_descendants.1 hscope with heq | ⟨c, hc, hsc⟩
    · rw [← heq]
      exact h.rewrite_scope hnodup hvalid hnew above
    · have hsid : scope.label.id ∈ Tree.ids c := Labelled.key_mem_keys hsc
      have hvid : v.label.id ∈ Tree.ids c :=
        Labelled.key_mem_keys (Labelled.mem_descendants_trans h.mem_scope hsc)
      have hdecl : ¬ l.id = v.label.id := fun hid =>
        Labelled.key_not_mem_child hnodupa hc (hid ▸ hvid)
      have hself : l.id ≠ scope.label.id := fun hid =>
        Labelled.key_not_mem_child hnodupa hc (hid ▸ hsid)
      have habove' : ∀ b ∈ Labelled.mk l s :: above, b.label.id ≠ scope.label.id := by
        intro b hb
        rcases List.mem_cons.1 hb with rfl | hb
        · exact hself
        · exact habove b hb
      -- One child has the scope in it; below the others there is nothing to do.
      have hkids : ∀ d ∈ s.children, Tree.rewrite (change v.label.id new) d (.mk l s :: above) =
          Tree.renameWhere (isSite v.label.id scope.label.id old) new d (.mk l s :: above) := by
        intro d hd
        have hdt := Labelled.mem_descendants_trans (Labelled.mem_descendants_of_child hd) ha
        by_cases hdc : d = c
        · subst hdc
          exact ih d hd hdt hsc habove'
        · have hvd : v.label.id ∉ Tree.ids d := fun hmem =>
            hdc (Labelled.eq_of_common_key hnodupa hd hc hmem hvid)
          have hsd : scope.label.id ∉ Tree.ids d := fun hmem =>
            hdc (Labelled.eq_of_common_key hnodupa hd hc hmem hsid)
          rw [renameWhere_eq_self hvd hsd habove']
          refine rewrite_eq_self_of_renamed (Labelled.slotValid_of_mem hvalid hdt) fun b hb hid => ?_
          exact absurd (hid ▸ Labelled.key_mem_keys hb) hvd
      have hpending : pending v.label.id new (.mk l s) = none :=
        h.pending_eq_none hnodup ha fun heq => hself (heq ▸ rfl)
      have hsite : isSite v.label.id scope.label.id old (.mk l s :: above) = false := by
        have hkind : s.kind ≠ .identifier := by
          intro hkind
          obtain ⟨name, rfl⟩ := Shape.eq_identifier hkind
          exact absurd hc List.not_mem_nil
        simp [isSite, hdecl, hkind]
      rw [Tree.renameWhere_mk, hsite, Tree.rewrite_eq, Tree.rewriteBelow, Labelled.shape_mk,
        Labelled.label_mk, Shape.map_congr hkids]
      simp only [change, hpending]
      unfold declare
      rw [if_neg fun hcond => hdecl hcond.2.1]
      rfl

end Whole

/-- **A renaming renames the variable and its uses, and nothing else.** In every tree with distinct
ids, and for every variable that a block or a method binds in it, a pass comes back with the tree
that has the new name at the declaration and at those identifiers of the old name whose nearest
enclosing node that declares the name is the scope. -/
theorem pass_renames_sites (e : Engine) (n : Node) (scope v : Tree) (old new : String) (cycle : Nat)
    (session : Session) (hvalid : n.slotValid) (hids : n.content.ids.Nodup)
    (hn : n.Predates session.supply.stamp) (hbinds : Binds n.content scope v old) (hnew : new ≠ old) :
    ∃ m c, runPass (e.fuel n) (recipe v.label.id new).gatedVisitor n
        (e.context (recipe v.label.id new) cycle session) = .done m c ∧
      m.content = n.content.renameWhere (isSite v.label.id scope.label.id old) new [] := by
  obtain ⟨m, c, hm, -, -, hcontent, -⟩ :=
    (StockRecipe.renameVariable v.label.id new).pass_yields e n cycle session hvalid hn
  refine ⟨m, c, hm, hcontent.trans ?_⟩
  rw [← Node.slotValid_content] at hvalid
  exact hbinds.rewrite_eq_sites hids hvalid hnew (Labelled.self_mem_descendants _) hbinds.mem
    fun b hb => absurd hb List.not_mem_nil

/-- A method with a parameter `x`, a use of it, and a block that declares and uses another `x`. -/
def shadowed (parameter use : String) : Draft :=
  .mk { id := some (.given 1) } (.methodDecl [] none "f"
    [.mk { id := some (.given 2) } (.variableDecls [] none
      [.mk { id := some (.given 3) } (.namedVariable parameter none)])]
    (some (.mk { id := some (.given 4) } (.block
      [.mk { id := some (.given 5) } (.identifier use),
        .mk { id := some (.given 6) } (.block
          [.mk { id := some (.given 7) } (.variableDecls [] none
            [.mk { id := some (.given 8) } (.namedVariable "x" none)]),
            .mk { id := some (.given 9) } (.identifier "x")])]))) none)

/-- The use of the parameter follows it, and the inner `x` and its use stay. -/
theorem pass_leaves_shadowed_use :
    ∃ m c, runPass (Engine.fuel {} (shadowed "x" "x").placed.1) (recipe (.given 3) "y").gatedVisitor
        (shadowed "x" "x").placed.1
        (Engine.context {} (recipe (.given 3) "y") 1 (shadowed "x" "x").placed.2) = .done m c ∧
      m.content = (shadowed "y" "y").placed.1.content := by
  let n := (shadowed "x" "x").placed.1
  have hbinds : Binds n.content n.content (.mk ⟨.given 3, "", []⟩ (.namedVariable "x" none)) "x" :=
    ⟨Labelled.self_mem_descendants _, ⟨_, List.mem_cons_self, List.mem_cons_self⟩, rfl⟩
  obtain ⟨m, c, hm, hcontent⟩ := pass_renames_sites {} n _ _ "x" "y" 1 (shadowed "x" "x").placed.2
    (by decide) (by decide) (shadowed "x" "x").placed_predates hbinds (by decide)
  exact ⟨m, c, hm, hcontent.trans rfl⟩

end RenameVariable

end Refactor
