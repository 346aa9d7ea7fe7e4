import Mathlib.Data.List.Forall2
import Refactor.Proofs.Recipe.VariableSites

/-!
# What names stand for after a renaming

An identifier stands for the first variable of its name in the nearest enclosing node that declares
the name (`Tree.resolution`). A renaming looks at where the old name is declared and never at where the
new one is, so that identifiers can come to stand for something else. Which ones do is told from the
tree as it is given (`Disturbs`).
-/

namespace Refactor

namespace Tree

/-! ### Resolution -/

/-- The first variable of that name that the node binds. -/
def firstBound (name : String) (t : Tree) : Option NodeId :=
  (t.boundVariables.find? (·.simpleName = some name)).map (·.label.id)

/-- What the name stands for below those nodes: the first variable of that name in the nearest one that
declares it. -/
def resolve (name : String) (above : List Tree) : Option NodeId :=
  (above.find? (·.declaresName name)).bind (firstBound name)

/-- What the identifier with that way up stands for. -/
def resolution : List Tree → Option NodeId
  | .mk _ (.identifier name) :: above => resolve name above
  | _ => none

theorem resolution_of_kind {t : Tree} (h : t.kind ≠ .identifier) (above : List Tree) :
    resolution (t :: above) = none := by
  obtain ⟨l, s⟩ := t
  cases s with
  | identifier => exact absurd rfl h
  | _ => rfl

theorem declaresName_eq (t : Tree) (name : String) : t.declaresName name = (firstBound name t).isSome := by
  rw [Bool.eq_iff_iff, firstBound, Option.isSome_map, List.find?_isSome]
  exact List.any_eq_true

theorem resolve_cons (name : String) (t : Tree) (above : List Tree) :
    resolve name (t :: above) = (firstBound name t).or (resolve name above) := by
  unfold resolve
  rw [List.find?_cons, declaresName_eq]
  cases h : firstBound name t with
  | none => rfl
  | some id => simp [h]

theorem exists_of_firstBound {name : String} {t : Tree} {id : NodeId} (h : firstBound name t = some id) :
    ∃ w ∈ t.boundVariables, w.simpleName = some name ∧ w.label.id = id := by
  obtain ⟨w, hw, rfl⟩ := Option.map_eq_some_iff.1 h
  exact ⟨w, List.mem_of_find?_eq_some hw, by simpa using List.find?_some hw, rfl⟩

theorem exists_of_resolve {name : String} {above : List Tree} {id : NodeId}
    (h : resolve name above = some id) :
    ∃ a ∈ above, ∃ w ∈ a.boundVariables, w.simpleName = some name ∧ w.label.id = id := by
  obtain ⟨a, ha, hbound⟩ := Option.bind_eq_some_iff.1 h
  exact ⟨a, List.mem_of_find?_eq_some ha, exists_of_firstBound hbound⟩

theorem renameWhere_inPlace (site : List Tree → Bool) (name : String) :
    InPlace fun path t => if site path then .mk t.label (t.shape.rename name) else t where
  id path t := by split <;> rfl
  slotted path t := by split <;> simp
  kind path t := by split <;> simp [Labelled.kind]

end Tree

namespace RenameVariable

/-! ### What the nodes bind -/

/-- What counts of a variable for names: its id and its name. -/
def binding (w : Tree) : NodeId × Option String := (w.label.id, w.simpleName)

theorem firstBound_eq (name : String) (t : Tree) :
    Tree.firstBound name t =
      ((t.boundVariables.map binding).find? (·.2 = some name)).map (·.1) := by
  rw [Tree.firstBound, List.find?_map, Option.map_map]
  rfl

/-- What is bound first under a name goes by the ids and by who has the name. -/
theorem firstBound_congr {name : String} {a a' : Tree} {f : Tree → NodeId × Option String}
    (heq : a'.boundVariables.map binding = a.boundVariables.map f)
    (hf : ∀ w ∈ a.boundVariables, (f w).1 = w.label.id ∧
      ((f w).2 = some name ↔ w.simpleName = some name)) :
    Tree.firstBound name a' = Tree.firstBound name a := by
  have hfind : a.boundVariables.find? ((fun p => decide (p.2 = some name)) ∘ f) =
      a.boundVariables.find? (·.simpleName = some name) := by
    rw [← List.head?_filter, ← List.head?_filter]
    exact congrArg List.head? (List.filter_congr fun w hw => decide_eq_decide.2 (hf w hw).2)
  rw [firstBound_eq, heq, List.find?_map, hfind, Option.map_map, Tree.firstBound]
  cases hw : a.boundVariables.find? (·.simpleName = some name) with
  | none => rfl
  | some w => exact congrArg some (hf w (List.mem_of_find?_eq_some hw)).1

section Bindings

variable {declaration scope : NodeId} {old new : String}

theorem binding_renameWhere {w : Tree} (hkind : w.kind = .namedVariable) (up : List Tree) :
    binding (w.renameWhere (isSite declaration scope old) new up) =
      (w.label.id, if w.label.id = declaration then some new else w.simpleName) := by
  obtain ⟨l, s⟩ := w
  cases s with
  | namedVariable name initializer =>
    rw [Tree.renameWhere_mk, Labelled.label_mk]
    by_cases hid : l.id = declaration
    · have hsite : isSite declaration scope old (.mk l (.namedVariable name initializer) :: up) = true := by
        simp [isSite, hid]
      rw [hsite, if_pos hid]
      rfl
    · have hsite : isSite declaration scope old (.mk l (.namedVariable name initializer) :: up) = false := by
        simp [isSite, hid, Shape.kind]
      rw [hsite, if_neg hid]
      rfl
  | _ => cases hkind

theorem kind_of_boundVariables {a w : Tree} (hvalid : a.slotValid) (hw : w ∈ a.boundVariables) :
    w.kind = .namedVariable := by
  obtain ⟨b, hb, -, decls, hdecls, hwd⟩ := exists_of_boundVariables hw
  have hbvalid := Labelled.slotValid_of_mem hvalid hb
  exact kind_of_declaredVariables
    (Labelled.slotValid_of_child hbvalid (mem_children_of_bindingDecls hdecls)) hwd

/-- After a renaming a node binds what it did, and the variable has its new name. -/
theorem bindings_renameWhere {a : Tree} (hvalid : a.slotValid) (up : List Tree) :
    (a.renameWhere (isSite declaration scope old) new up).boundVariables.map binding =
      a.boundVariables.map fun w =>
        (w.label.id, if w.label.id = declaration then some new else w.simpleName) := by
  have hlayer : RenamesLayers new fun up a => a.renameWhere (isSite declaration scope old) new up := by
    intro up l s
    dsimp only
    rw [Tree.renameWhere_mk]
    split
    · exact Or.inr rfl
    · exact Or.inl rfl
  exact hlayer.map_boundVariables a up fun w hw up =>
    binding_renameWhere (kind_of_boundVariables hvalid hw) up

end Bindings

/-! ### Locals and parameters -/

/-- In that tree the scope, a method or a block that is no body of a class, binds the variable under that
name: the variable is a parameter or a local one. -/
structure BindsLocally (t scope v : Tree) (name : String) : Prop extends Binds t scope v name where
  no_class : scope.kind = .block → ∀ a ∈ t.descendants, a.kind = .classDecl → scope ∉ a.children

/-- The variables that the scope binds before that one. -/
def before (scope v : Tree) : List Tree := scope.boundVariables.takeWhile (·.label.id ≠ v.label.id)

theorem mem_descendants_of_bound {a w : Tree} (hw : w ∈ a.boundVariables) : w ∈ a.descendants := by
  obtain ⟨b, hb, -, decls, hdecls, hwd⟩ := exists_of_boundVariables hw
  obtain ⟨hchild, hmem⟩ := mem_of_bindingDecls hdecls hwd
  exact Labelled.mem_descendants_trans (Labelled.mem_descendants.2 (Or.inr ⟨decls, hchild, hmem⟩)) hb

theorem mem_of_before {scope v w : Tree} (hw : w ∈ before scope v) :
    w ∈ scope.boundVariables ∧ w.label.id ≠ v.label.id :=
  ⟨(List.takeWhile_sublist _).subset hw, by simpa using List.mem_takeWhile_imp hw⟩

namespace BindsLocally

variable {t scope v : Tree} {old new : String} (h : BindsLocally t scope v old)
include h

/-- The same of another variable of the scope. -/
theorem of_bound {w : Tree} {name : String} (hw : w ∈ scope.boundVariables)
    (hname : w.simpleName = some name) : BindsLocally t scope w name := by
  refine ⟨⟨h.mem, List.mem_flatMap.1 ?_, hname⟩, h.no_class⟩
  rwa [← h.boundVariables_eq]

variable (hnodup : t.ids.Nodup)
include hnodup

/-- The scope alone binds the variable. -/
theorem eq_scope_of_bound {a w : Tree} (ha : a ∈ t.descendants) (hw : w ∈ a.boundVariables)
    (hid : w.label.id = v.label.id) : a = scope := by
  obtain ⟨b, hb, hbinder, decls, hdecls, hwd⟩ := exists_of_boundVariables hw
  obtain rfl := h.eq_scope hnodup (Labelled.mem_descendants_trans hb ha) hdecls hwd hid
  rcases hbinder with rfl | ⟨hclass, hblock, hchild⟩
  · rfl
  · exact absurd hchild (h.no_class hblock a ha hclass)

theorem eq_of_bound {w w' : Tree} (hw : w ∈ scope.boundVariables) (hw' : w' ∈ scope.boundVariables)
    (hid : w.label.id = w'.label.id) : w = w' :=
  Tree.eq_of_id (Tree.nodup_of_mem hnodup h.mem) (mem_descendants_of_bound hw)
    (mem_descendants_of_bound hw') hid

/-- What stands for the variable has its name. -/
theorem eq_of_resolve {name : String} {above : List Tree} (habove : ∀ a ∈ above, a ∈ t.descendants)
    (hresolve : Tree.resolve name above = some v.label.id) : name = old := by
  obtain ⟨a, ha, w, hw, hname, hid⟩ := Tree.exists_of_resolve hresolve
  obtain rfl := h.eq_scope_of_bound hnodup (habove a ha) hw hid
  obtain rfl := h.eq_of_bound hnodup hw h.mem_boundVariables hid
  exact Option.some.inj (hname.symm.trans h.named)

theorem exists_after : ∃ after, scope.boundVariables = before scope v ++ v :: after := by
  have hsplit := List.takeWhile_append_dropWhile (p := fun w : Tree => decide (w.label.id ≠ v.label.id))
    (l := scope.boundVariables)
  cases hdrop : scope.boundVariables.dropWhile (·.label.id ≠ v.label.id) with
  | nil =>
    have hall := List.dropWhile_eq_nil_iff.1 hdrop v h.mem_boundVariables
    simp at hall
  | cons w after =>
    rw [hdrop] at hsplit
    have hw : w ∈ scope.boundVariables := by
      rw [← hsplit]
      exact List.mem_append_right _ List.mem_cons_self
    have hid : w.label.id = v.label.id := by
      have hhead := List.head?_dropWhile_not (fun w : Tree => decide (w.label.id ≠ v.label.id))
        scope.boundVariables
      rw [hdrop] at hhead
      simpa using hhead
    obtain rfl := h.eq_of_bound hnodup hw h.mem_boundVariables hid
    exact ⟨after, hsplit.symm⟩

/-! ### What the scope binds first -/

theorem firstBound_old : Tree.firstBound old scope =
    (((before scope v).find? (·.simpleName = some old)).map (·.label.id)).or (some v.label.id) := by
  obtain ⟨after, heq⟩ := h.exists_after hnodup
  rw [Tree.firstBound, heq, List.find?_append, Option.map_or,
    List.find?_cons_of_pos (by simpa using h.named)]
  rfl

/-- A variable of that name before it comes first. -/
theorem firstBound_of_before {name : String} (hbefore : ∃ w ∈ before scope v, w.simpleName = some name) :
    Tree.firstBound name scope =
      ((before scope v).find? (·.simpleName = some name)).map (·.label.id) := by
  obtain ⟨after, heq⟩ := h.exists_after hnodup
  have hsome : ((before scope v).find? (·.simpleName = some name)).isSome := by
    simpa [List.find?_isSome] using hbefore
  rw [Tree.firstBound, heq, List.find?_append, Option.or_of_isSome hsome]

section Renamed

variable (hvalid : t.slotValid)
include hvalid

theorem firstBound_renamed_new (up : List Tree) :
    Tree.firstBound new (scope.renameWhere (isSite v.label.id scope.label.id old) new up) =
      (((before scope v).find? (·.simpleName = some new)).map (·.label.id)).or (some v.label.id) := by
  obtain ⟨after, heq⟩ := h.exists_after hnodup
  have hbefore : ((before scope v).map fun w =>
      (w.label.id, if w.label.id = v.label.id then some new else w.simpleName)) =
      (before scope v).map binding :=
    List.map_congr_left fun w hw => by rw [if_neg (mem_of_before hw).2, binding]
  rw [firstBound_eq, bindings_renameWhere (Labelled.slotValid_of_mem hvalid h.mem), heq,
    List.map_append, List.map_cons, hbefore, if_pos rfl, List.find?_append,
    List.find?_cons_of_pos (by simp), Option.map_or, List.find?_map, Option.map_map]
  rfl

theorem isSome_firstBound_renamed_new (up : List Tree) :
    (Tree.firstBound new
      (scope.renameWhere (isSite v.label.id scope.label.id old) new up)).isSome := by
  rw [h.firstBound_renamed_new hnodup hvalid, Option.isSome_or]
  exact Bool.or_true _

/-- The scope binds first under the new name what it did under the old one exactly if it binds neither
name before the variable. -/
theorem firstBound_renamed_new_eq_iff (hnew : new ≠ old) (up : List Tree) :
    Tree.firstBound new (scope.renameWhere (isSite v.label.id scope.label.id old) new up) =
        Tree.firstBound old scope ↔
      ∀ w ∈ before scope v, w.simpleName ≠ some old ∧ w.simpleName ≠ some new := by
  rw [h.firstBound_renamed_new hnodup hvalid, h.firstBound_old hnodup]
  have hmem : ∀ {name : String} {w : Tree}, (before scope v).find? (·.simpleName = some name) = some w →
      w ∈ before scope v ∧ w.simpleName = some name := fun hw =>
    ⟨List.mem_of_find?_eq_some hw, by simpa using List.find?_some hw⟩
  cases hold : (before scope v).find? (·.simpleName = some old) with
  | none =>
    cases hfirst : (before scope v).find? (·.simpleName = some new) with
    | none =>
      -- Neither name comes before the variable, which is then the first under both.
      refine iff_of_true rfl fun w hw => ⟨?_, ?_⟩
      · simpa using List.find?_eq_none.1 hold w hw
      · simpa using List.find?_eq_none.1 hfirst w hw
    | some w =>
      -- Another variable of the new name comes first, and it is not the one renamed.
      obtain ⟨hw, hname⟩ := hmem hfirst
      refine iff_of_false (fun heq => ?_) fun h => (h w hw).2 hname
      exact (mem_of_before hw).2 (Option.some.inj heq)
  | some u =>
    -- Another variable of the old name comes first. It keeps its name, so the new one finds another.
    obtain ⟨hu, hname⟩ := hmem hold
    refine iff_of_false (fun heq => ?_) fun h => (h u hu).1 hname
    cases hfirst : (before scope v).find? (·.simpleName = some new) with
    | none =>
      rw [hfirst] at heq
      exact (mem_of_before hu).2 (Option.some.inj heq).symm
    | some w =>
      obtain ⟨hw, hname'⟩ := hmem hfirst
      rw [hfirst] at heq
      obtain rfl := h.eq_of_bound hnodup (mem_of_before hw).1 (mem_of_before hu).1 (Option.some.inj heq)
      exact hnew (Option.some.inj (hname'.symm.trans hname))

/-- Away from the scope nothing else is bound, and in the scope nothing else under other names. -/
theorem firstBound_renamed {a : Tree} {name : String} (ha : a ∈ t.descendants)
    (hname : a.label.id = scope.label.id → name ≠ old ∧ name ≠ new) (up : List Tree) :
    Tree.firstBound name (a.renameWhere (isSite v.label.id scope.label.id old) new up) =
      Tree.firstBound name a := by
  refine firstBound_congr (bindings_renameWhere (Labelled.slotValid_of_mem hvalid ha) up) fun w hw => ?_
  by_cases hid : w.label.id = v.label.id
  · obtain rfl := h.eq_scope_of_bound hnodup ha hw hid
    obtain rfl := h.eq_of_bound hnodup hw h.mem_boundVariables hid
    obtain ⟨hold, hnew⟩ := hname rfl
    rw [if_pos rfl, h.named, Option.some.injEq, Option.some.injEq]
    exact ⟨rfl, iff_of_false hnew.symm hold.symm⟩
  · rw [if_neg hid]
    exact ⟨rfl, Iff.rfl⟩

end Renamed

end BindsLocally

/-! ### Resolution after a renaming -/

/-- What becomes of a way up. -/
def renamedPath (declaration scope : NodeId) (old new : String) : List Tree → List Tree :=
  Tree.rewritePath fun path t =>
    if isSite declaration scope old path then .mk t.label (t.shape.rename new) else t

theorem renamedPath_cons (declaration scope : NodeId) (old new : String) (t : Tree) (above : List Tree) :
    renamedPath declaration scope old new (t :: above) =
      t.renameWhere (isSite declaration scope old) new above ::
        renamedPath declaration scope old new above := rfl

namespace BindsLocally

variable {t scope v : Tree} {old new : String} (h : BindsLocally t scope v old)
  (hnodup : t.ids.Nodup) {above : List Tree} (habove : ∀ a ∈ above, a ∈ t.descendants)
include h hnodup habove

/-- At the scope, going by what encloses the use is going by where it is come to from it. -/
theorem reaches_old : Cursor.reaches scope.label.id old above =
    (above.find? (·.declaresName old)).any (·.label.id = scope.label.id) := by
  induction above with
  | nil => rfl
  | cons a above ih =>
    by_cases hid : a.label.id = scope.label.id
    · obtain rfl := Tree.eq_of_id hnodup (habove a List.mem_cons_self) h.mem hid
      simp [Cursor.reaches, h.declaresName]
    · exact reaches_cons hid rfl rfl (ih fun b hb => habove b (List.mem_cons_of_mem _ hb))

variable (hvalid : t.slotValid) {name : String}
include hvalid

/-- Names other than those two stand for what they did. -/
theorem resolve_other (hold : name ≠ old) (hnew : name ≠ new) :
    Tree.resolve name (renamedPath v.label.id scope.label.id old new above) =
      Tree.resolve name above := by
  induction above with
  | nil => rfl
  | cons a above ih =>
    have hbound := h.firstBound_renamed hnodup hvalid (habove a List.mem_cons_self)
      (fun _ => ⟨hold, hnew⟩) above
    rw [renamedPath_cons, Tree.resolve_cons, Tree.resolve_cons, hbound,
      ih fun b hb => habove b (List.mem_cons_of_mem _ hb)]

/-- A name that is declared before the scope is come to stands for what it did, and so does one that
the scope is not come to from. -/
theorem resolve_away (haway : Cursor.reaches scope.label.id name above = false) :
    Tree.resolve name (renamedPath v.label.id scope.label.id old new above) =
      Tree.resolve name above := by
  induction above with
  | nil => rfl
  | cons a above ih =>
    rw [Cursor.reaches] at haway
    split at haway
    · cases haway
    · next hne =>
      have hbound : Tree.firstBound name
          (a.renameWhere (isSite v.label.id scope.label.id old) new above) = Tree.firstBound name a :=
        h.firstBound_renamed hnodup hvalid (habove a List.mem_cons_self) (fun hid => absurd hid hne) above
      rw [renamedPath_cons, Tree.resolve_cons, Tree.resolve_cons, hbound]
      cases hdeclares : a.declaresName name with
      | true =>
        -- The search ends here in both trees, with the same binding.
        rw [Tree.declaresName_eq] at hdeclares
        rw [Option.or_of_isSome hdeclares, Option.or_of_isSome hdeclares]
      | false =>
        rw [hdeclares] at haway
        rw [ih (fun b hb => habove b (List.mem_cons_of_mem _ hb)) haway]

/-- A name that the scope is come to from stands for what the scope binds under it, if anything. -/
theorem resolve_at (new : String) (hreach : Cursor.reaches scope.label.id name above = true) :
    (∃ rest, Tree.resolve name above = (Tree.firstBound name scope).or rest) ∧
      ∃ up rest, Tree.resolve name (renamedPath v.label.id scope.label.id old new above) =
        (Tree.firstBound name (scope.renameWhere (isSite v.label.id scope.label.id old) new up)).or
          rest := by
  induction above with
  | nil => cases hreach
  | cons a above ih =>
    rw [renamedPath_cons, Tree.resolve_cons, Tree.resolve_cons]
    by_cases hid : a.label.id = scope.label.id
    · -- Ids are unique, so this is the scope.
      obtain rfl := Tree.eq_of_id hnodup (habove a List.mem_cons_self) h.mem hid
      exact ⟨⟨_, rfl⟩, above, _, rfl⟩
    · have hbound : Tree.firstBound name
          (a.renameWhere (isSite v.label.id scope.label.id old) new above) = Tree.firstBound name a :=
        h.firstBound_renamed hnodup hvalid (habove a List.mem_cons_self) (fun heq => absurd heq hid) above
      rw [Cursor.reaches, if_neg hid] at hreach
      split at hreach
      · cases hreach
      · next hdeclares =>
        have hnone : Tree.firstBound name a = none := by
          simpa [Tree.declaresName_eq] using hdeclares
        rw [hbound, hnone]
        exact ih (fun b hb => habove b (List.mem_cons_of_mem _ hb)) hreach

variable (hnew : new ≠ old)
include hnew

/-- A use of the variable's name still stands for what it did if the new name leads from it to the scope,
and the scope binds neither name before the variable. -/
theorem resolve_use_iff (huse : Cursor.reaches scope.label.id old above = true) :
    Tree.resolve new (renamedPath v.label.id scope.label.id old new above) = Tree.resolve old above ↔
      Cursor.reaches scope.label.id new above = true ∧
        ∀ w ∈ before scope v, w.simpleName ≠ some old ∧ w.simpleName ≠ some new := by
  obtain ⟨⟨rest, hold⟩, -⟩ := h.resolve_at hnodup habove hvalid new huse
  have hsome : (Tree.firstBound old scope).isSome := by
    rw [← Tree.declaresName_eq]
    exact h.declaresName
  rw [Option.or_of_isSome hsome] at hold
  rw [hold]
  by_cases hreach : Cursor.reaches scope.label.id new above = true
  · obtain ⟨-, up, rest', hnew'⟩ := h.resolve_at hnodup habove hvalid new hreach
    rw [hnew', Option.or_of_isSome (h.isSome_firstBound_renamed_new hnodup hvalid up),
      h.firstBound_renamed_new_eq_iff hnodup hvalid hnew]
    exact (and_iff_right hreach).symm
  · refine iff_of_false (fun heq => hnew ?_) fun h => hreach h.1
    -- What is come to first now is bound inside the scope, and the scope binds what was meant.
    obtain ⟨id, hid⟩ := Option.isSome_iff_exists.1 hsome
    obtain ⟨w, hw, hname, rfl⟩ := Tree.exists_of_firstBound hid
    rw [h.resolve_away hnodup habove hvalid (Bool.eq_false_iff.2 hreach), hid] at heq
    exact (h.of_bound hw hname).eq_of_resolve hnodup habove heq

/-- A use of the new name that leads to the scope still stands for what it did if the scope binds that name
before the variable. -/
theorem resolve_new_iff (hreach : Cursor.reaches scope.label.id new above = true) :
    Tree.resolve new (renamedPath v.label.id scope.label.id old new above) = Tree.resolve new above ↔
      ∃ w ∈ before scope v, w.simpleName = some new := by
  obtain ⟨⟨rest, hwas⟩, up, rest', his⟩ := h.resolve_at hnodup habove hvalid new hreach
  rw [his, h.firstBound_renamed_new hnodup hvalid]
  by_cases hbefore : ∃ w ∈ before scope v, w.simpleName = some new
  · refine iff_of_true ?_ hbefore
    have hsome : ((before scope v).find? (·.simpleName = some new)).isSome := by
      simpa [List.find?_isSome] using hbefore
    rw [hwas, h.firstBound_of_before hnodup hbefore]
    obtain ⟨w, hw⟩ := Option.isSome_iff_exists.1 hsome
    rw [hw]
    rfl
  · refine iff_of_false (fun heq => hnew ?_) hbefore
    have hnone : (before scope v).find? (·.simpleName = some new) = none := by
      simpa [List.find?_eq_none] using hbefore
    rw [hnone] at heq
    exact h.eq_of_resolve hnodup habove heq.symm

end BindsLocally

/-! ### Which identifiers are disturbed -/

/-- Once the variable of the scope has its new name, the identifier with that way up stands for something
else. -/
def Disturbs (scope v : Tree) (old new : String) : List Tree → Prop
  | [] => False
  | t :: above =>
    t.kind = .identifier ∧
      -- A use of the old name gets the new one, which stands for something else.
      (t.simpleName = some old ∧ Cursor.reaches scope.label.id old above = true ∧
          (Cursor.reaches scope.label.id new above = false ∨
            ∃ w ∈ before scope v, w.simpleName = some old ∨ w.simpleName = some new) ∨
        -- A use of the new name comes to stand for the variable.
        t.simpleName = some new ∧ Cursor.reaches scope.label.id new above = true ∧
          ∀ w ∈ before scope v, w.simpleName ≠ some new)

instance (scope v : Tree) (old new : String) : (path : List Tree) → Decidable (Disturbs scope v old new path)
  | [] => instDecidableFalse
  | _ :: _ => inferInstanceAs (Decidable (_ ∧ _))

theorem disturbs_identifier_iff {scope v : Tree} {old new name : String} {l : Header} {above : List Tree} :
    Disturbs scope v old new (.mk l (.identifier name) :: above) ↔
      (name = old ∧ Cursor.reaches scope.label.id old above = true ∧
          (Cursor.reaches scope.label.id new above = false ∨
            ∃ w ∈ before scope v, w.simpleName = some old ∨ w.simpleName = some new)) ∨
        (name = new ∧ Cursor.reaches scope.label.id new above = true ∧
          ∀ w ∈ before scope v, w.simpleName ≠ some new) := by
  simp [Disturbs, Shape.kind, Labelled.simpleName, Shape.simpleName]

section Disturbed

variable {t scope v : Tree} {old new : String} (h : BindsLocally t scope v old)
  (hnodup : t.ids.Nodup) (hvalid : t.slotValid)
include h hnodup hvalid

/-- An identifier gets the new name if it has the old one and leads to the scope. -/
theorem BindsLocally.resolution_identifier {l : Header} {name : String} {above : List Tree}
    (hmem : .mk l (.identifier name) ∈ t.descendants) (habove : ∀ a ∈ above, a ∈ t.descendants) :
    Tree.resolution (renamedPath v.label.id scope.label.id old new (.mk l (.identifier name) :: above)) =
      Tree.resolve (if name = old ∧ Cursor.reaches scope.label.id old above = true then new else name)
        (renamedPath v.label.id scope.label.id old new above) := by
  have hid : l.id ≠ v.label.id := by
    intro hid
    have heq := Tree.eq_of_id hnodup hmem (Labelled.mem_descendants_trans h.mem_scope h.mem) hid
    have hkind := h.kind_variable hvalid
    rw [← heq] at hkind
    cases hkind
  have hsite : isSite v.label.id scope.label.id old (.mk l (.identifier name) :: above) =
      decide (name = old ∧ Cursor.reaches scope.label.id old above = true) := by
    rw [h.reaches_old hnodup habove]
    simp [isSite, hid, Shape.kind, Labelled.simpleName, Shape.simpleName]
  rw [renamedPath_cons, Tree.renameWhere_mk, hsite]
  by_cases hrenamed : name = old ∧ Cursor.reaches scope.label.id old above = true
  · rw [if_pos hrenamed, decide_eq_true hrenamed]
    rfl
  · rw [if_neg hrenamed, decide_eq_false hrenamed]
    rfl

variable (hnew : new ≠ old)
include hnew

theorem BindsLocally.resolution_identifier_iff {l : Header} {name : String} {above : List Tree}
    (hmem : .mk l (.identifier name) ∈ t.descendants) (habove : ∀ a ∈ above, a ∈ t.descendants) :
    Tree.resolution (renamedPath v.label.id scope.label.id old new (.mk l (.identifier name) :: above)) =
        Tree.resolve name above ↔
      ¬ Disturbs scope v old new (.mk l (.identifier name) :: above) := by
  rw [h.resolution_identifier hnodup hvalid hmem habove, disturbs_identifier_iff]
  by_cases hold : name = old
  · subst hold
    cases huse : Cursor.reaches scope.label.id name above with
    | true =>
      -- A use of the variable, which is renamed with it.
      rw [if_pos ⟨rfl, rfl⟩, h.resolve_use_iff hnodup habove hvalid hnew huse]
      simp [hnew.symm]
    | false =>
      -- A variable of the same name is nearer, or the scope is not above.
      rw [if_neg (by simp)]
      refine iff_of_true (h.resolve_away hnodup habove hvalid huse) ?_
      simp [hnew.symm]
  · rw [if_neg fun hrenamed => hold hrenamed.1]
    by_cases hname : name = new
    · subst hname
      cases hreach : Cursor.reaches scope.label.id name above with
      | true =>
        rw [h.resolve_new_iff hnodup habove hvalid hnew hreach]
        simp [hold]
      | false =>
        refine iff_of_true (h.resolve_away hnodup habove hvalid hreach) ?_
        simp [hold]
    · refine iff_of_true (h.resolve_other hnodup habove hvalid hold hname) ?_
      simp [hold, hname]

/-- **Which identifiers are disturbed.** -/
theorem BindsLocally.resolution_renamed_iff {path : List Tree} (hpath : path ∈ t.paths []) :
    Tree.resolution (renamedPath v.label.id scope.label.id old new path) = Tree.resolution path ↔
      ¬ Disturbs scope v old new path := by
  have hmem : ∀ a ∈ path, a ∈ t.descendants := fun a ha => by
    simpa using Labelled.mem_of_mem_paths hpath ha
  cases path with
  | nil => exact iff_of_true rfl not_false
  | cons a above =>
    by_cases hkind : a.kind = .identifier
    · obtain ⟨l, s⟩ := a
      obtain ⟨name, rfl⟩ := Shape.eq_identifier hkind
      exact h.resolution_identifier_iff hnodup hvalid hnew (hmem _ List.mem_cons_self)
        fun b hb => hmem b (List.mem_cons_of_mem _ hb)
    · have hkind' : (a.renameWhere (isSite v.label.id scope.label.id old) new above).kind ≠ .identifier := by
        rwa [Tree.renameWhere, (Tree.renameWhere_inPlace _ _).kind_rewrite]
      rw [renamedPath_cons, Tree.resolution_of_kind hkind, Tree.resolution_of_kind hkind']
      exact iff_of_true rfl fun hdisturbs => hkind hdisturbs.1

end Disturbed

/-! ### A pass -/

/-- **What names stand for after a pass.** In every tree with distinct ids, and for every local variable
or parameter in it and every new name, a pass succeeds and leaves every node in its place. An identifier
stands for what it did exactly if it is none of those that the renaming disturbs, or the name is not
new. -/
theorem pass_keeps_resolution_iff (e : Engine) (n : Node) (scope v : Tree) (old new : String) (cycle : Nat)
    (session : Session) (hvalid : n.slotValid) (hids : n.content.ids.Nodup)
    (hn : n.Predates session.supply.stamp) (hbinds : BindsLocally n.content scope v old) :
    ∃ m c, runPass (e.fuel n) (recipe v.label.id new).gatedVisitor n
        (e.context (recipe v.label.id new) cycle session) = .done m c ∧
      List.Forall₂ (fun path path' =>
          path'.map (fun a => (a.label.id, a.kind)) = path.map (fun a => (a.label.id, a.kind)) ∧
          (Tree.resolution path' = Tree.resolution path ↔ new = old ∨ ¬ Disturbs scope v old new path))
        (n.content.paths []) (m.content.paths []) := by
  obtain ⟨m, c, hm, -, -, hcontent, -⟩ :=
    (StockRecipe.renameVariable v.label.id new).pass_yields e n cycle session hvalid hn
  have hcontent : m.content = Tree.rewrite (change v.label.id new) n.content [] := hcontent
  rw [← Node.slotValid_content] at hvalid
  refine ⟨m, c, hm, ?_⟩
  by_cases hnew : new = old
  · -- With the old name for a new one the pass changes nothing.
    have hsame : Tree.rewrite (change v.label.id new) n.content [] = n.content := by
      refine rewrite_eq_self_of_renamed hvalid fun d hd hid _ => ?_
      rw [Tree.eq_of_id hids hd (Labelled.mem_descendants_trans hbinds.mem_scope hbinds.mem) hid, hnew]
      exact hbinds.named
    rw [hcontent, hsame]
    exact List.forall₂_same.2 fun path _ => ⟨rfl, iff_of_true rfl (Or.inl hnew)⟩
  · have hsites := hbinds.rewrite_eq_sites hids hvalid hnew (Labelled.self_mem_descendants _) hbinds.mem
      fun b hb => absurd hb List.not_mem_nil
    have hinPlace := Tree.renameWhere_inPlace (isSite v.label.id scope.label.id old) new
    have hpaths : m.content.paths [] =
        (n.content.paths []).map (renamedPath v.label.id scope.label.id old new) := by
      rw [hcontent, hsites]
      exact hinPlace.paths_rewrite n.content []
    rw [hpaths, List.forall₂_map_right_iff]
    refine List.forall₂_same.2 fun path hpath => ⟨hinPlace.map_rewritePath path, ?_⟩
    rw [hbinds.resolution_renamed_iff hids hvalid hnew hpath]
    exact (or_iff_right hnew).symm

/-- The inner `x` is declared anew and not disturbed, and nothing else is. -/
theorem pass_keeps_resolution_shadowed :
    ∃ m c, runPass (Engine.fuel {} (shadowed "x" "x").placed.1) (recipe (.given 3) "y").gatedVisitor
        (shadowed "x" "x").placed.1
        (Engine.context {} (recipe (.given 3) "y") 1 (shadowed "x" "x").placed.2) = .done m c ∧
      (m.content.paths []).map Tree.resolution =
        ((shadowed "x" "x").placed.1.content.paths []).map Tree.resolution := by
  let n := (shadowed "x" "x").placed.1
  let v : Tree := .mk ⟨.given 3, "", []⟩ (.namedVariable "x" none)
  have hbinds : BindsLocally n.content n.content v "x" :=
    ⟨⟨Labelled.self_mem_descendants _, ⟨_, List.mem_cons_self, List.mem_cons_self⟩, rfl⟩, by
      rintro ⟨⟩⟩
  have hkept : ∀ path ∈ n.content.paths [], ¬ Disturbs n.content v "x" "y" path := by decide
  obtain ⟨m, c, hm, hpaths⟩ := pass_keeps_resolution_iff {} n n.content v "x" "y" 1
    (shadowed "x" "x").placed.2 (by decide) (by decide) (shadowed "x" "x").placed_predates hbinds
  refine ⟨m, c, hm, map_eq_of_forall₂ (forall₂_imp_of_mem hpaths fun path hpath path' h => ?_)⟩
  exact h.2.2 (Or.inr (hkept path hpath))

/-- A block that declares `x`, and in it one that declares `y` and uses `x`. -/
def nestedBlocks : Draft :=
  .mk { id := some (.given 1) } (.block
    [.mk { id := some (.given 2) } (.variableDecls [] none
      [.mk { id := some (.given 3) } (.namedVariable "x" none)]),
      .mk { id := some (.given 4) } (.block
        [.mk { id := some (.given 5) } (.variableDecls [] none
          [.mk { id := some (.given 6) } (.namedVariable "y" none)]),
          .mk { id := some (.given 7) } (.identifier "x")])])

/-- **A renaming can capture.** The use of the outer variable comes to stand for the inner one, which has
the new name already. -/
theorem pass_captures_use :
    ((nestedBlocks.placed.1.content.paths []).filterMap Tree.resolution = [.given 3]) ∧
      ∃ m c, runPass (Engine.fuel {} nestedBlocks.placed.1) (recipe (.given 3) "y").gatedVisitor
          nestedBlocks.placed.1
          (Engine.context {} (recipe (.given 3) "y") 1 nestedBlocks.placed.2) = .done m c ∧
        (m.content.paths []).filterMap Tree.resolution = [.given 6] := by
  obtain ⟨m, c, hm, -, -, hcontent, -⟩ := (StockRecipe.renameVariable (.given 3) "y").pass_yields {}
    nestedBlocks.placed.1 1 nestedBlocks.placed.2 (by decide) nestedBlocks.placed_predates
  refine ⟨by decide, m, c, hm, ?_⟩
  rw [hcontent]
  decide

end RenameVariable

end Refactor
