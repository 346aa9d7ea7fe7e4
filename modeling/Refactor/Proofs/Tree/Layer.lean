import Mathlib.Data.List.Forall2
import Mathlib.Tactic.Common
import Refactor.Pattern.Package

/-!
# One layer of a tree and its children

A layer is what it holds beside its children, together with the list of them: replacing the children
in place changes the list and nothing else (`slotted_mapIdx`), and two replacements that agree on
the list agree altogether (`mapIdx_congr`).
-/

namespace Refactor

namespace Shape

variable {α β γ : Type}

@[simp] theorem kind_mapIdx (f : Nat → α → β) (s : Shape α) : (s.mapIdx f).kind = s.kind := by
  cases s <;> rfl

@[simp] theorem kind_map (f : α → β) (s : Shape α) : (s.map f).kind = s.kind := kind_mapIdx _ s

@[simp] theorem kind_withChildren [Inhabited β] (s : Shape α) (cs : List β) :
    (s.withChildren cs).kind = s.kind := kind_mapIdx _ s

/-! ### The children of a layer -/

lemma many_mapIdx (slot : Slot) (f : Nat → α → β) (xs : List α) :
    many slot (xs.mapIdx f) = (many slot xs).mapIdx fun i p => (p.1, f i p.2) := by
  unfold many
  apply List.ext_getElem <;> simp

lemma length_opt (slot : Slot) (o : Option α) : (opt slot o).length = o.toList.length := by
  simp [opt]

lemma length_many (slot : Slot) (xs : List α) : (many slot xs).length = xs.length := by
  simp [many]

theorem slotted_mapIdx (f : Nat → α → β) (s : Shape α) :
    (s.mapIdx f).slotted = s.slotted.mapIdx fun i p => (p.1, f i p.2) := by
  have hopt : ∀ (k : Nat) (slot : Slot) (o : Option α),
      (opt slot o).mapIdx (fun i p => (p.1, f (i + k) p.2)) = opt slot (o.map (f k)) := by
    intro k slot o
    cases o <;> simp [opt]
  cases s <;>
    simp [mapIdx, slotted, List.mapIdx_append, many_mapIdx, ← hopt, length_opt, length_many,
      Nat.add_comm, Nat.add_left_comm, Nat.add_assoc]

theorem children_mapIdx (f : Nat → α → β) (s : Shape α) :
    (s.mapIdx f).children = s.children.mapIdx f := by
  rw [children_eq, children_eq, slotted_mapIdx]
  apply List.ext_getElem <;> simp

@[simp] theorem slotted_map (f : α → β) (s : Shape α) :
    (s.map f).slotted = s.slotted.map fun p => (p.1, f p.2) := by
  rw [map, slotted_mapIdx, list_mapIdx_const]

@[simp] theorem children_map (f : α → β) (s : Shape α) : (s.map f).children = s.children.map f := by
  rw [map, children_mapIdx, list_mapIdx_const]

theorem children_withChildren [Inhabited β] {s : Shape α} {cs : List β}
    (h : cs.length = s.children.length) : (s.withChildren cs).children = cs := by
  rw [withChildren, children_mapIdx]
  refine List.ext_getElem (by simp [h]) fun i h1 h2 => ?_
  simp [List.getElem?_eq_getElem h2]

theorem slotted_withChildren [Inhabited β] {s : Shape α} {cs : List β}
    (h : cs.length = s.children.length) :
    (s.withChildren cs).slotted = (s.slotted.map (·.1)).zip cs := by
  have hlen : s.slotted.length = cs.length := by rw [h, length_slotted]
  rw [withChildren, slotted_mapIdx]
  refine List.ext_getElem (by simp [hlen]) fun i h1 h2 => ?_
  have hi : i < cs.length := by simpa [hlen] using h1
  simp [List.getElem?_eq_getElem hi]

/-- What holds child by child holds slot by slot. -/
theorem forall₂_children {R : α → β → Prop} {s : Shape α} {cs : List β} :
    List.Forall₂ R s.children cs ↔ List.Forall₂ (fun p c => R p.2 c) s.slotted cs := by
  rw [children_eq, List.forall₂_map_left_iff]

/-! ### Replacements that agree on the children -/

theorem mapIdx_congr {f g : Nat → α → β} (s : Shape α)
    (h : ∀ p ∈ s.children.zipIdx, f p.2 p.1 = g p.2 p.1) : s.mapIdx f = s.mapIdx g := by
  have hm : ∀ (a : Nat) (xs : List α), (∀ p ∈ xs.zipIdx a, f p.2 p.1 = g p.2 p.1) →
      (xs.mapIdx fun i => f (a + i)) = xs.mapIdx fun i => g (a + i) := by
    intro a xs hxs
    refine List.ext_getElem (by simp) fun i h1 h2 => ?_
    simp only [List.getElem_mapIdx]
    have hi : i < xs.length := by simpa using h1
    exact hxs (xs[i], a + i) (List.mem_iff_getElem.2 ⟨i, by simpa using hi, by simp⟩)
  have ho : ∀ (a : Nat) (o : Option α), (∀ p ∈ o.toList.zipIdx a, f p.2 p.1 = g p.2 p.1) →
      o.map (f a) = o.map (g a) := by
    intro a o hop
    cases o with
    | none => rfl
    | some x => simpa using hop (x, a) (by simp)
  -- the list of children falls apart as the fields of the constructor do
  cases s <;>
    simp only [children, List.zipIdx_append, List.zipIdx_cons,
      List.zipIdx_nil, List.length_append, Nat.zero_add, List.mem_append, List.mem_cons,
      List.not_mem_nil, or_false, or_imp, forall_and, forall_eq] at h <;>
    simp only [mapIdx]
  case compilationUnit _ pkg imports types => rw [ho 0 pkg h.1.1, hm _ imports h.1.2, hm _ types h.2]
  case classDecl _ _ superclass interfaces _ _ =>
    rw [ho 0 superclass h.1.1, hm _ interfaces h.1.2, h.2]
  case methodDecl _ returnType _ parameters body _ =>
    rw [ho 0 returnType h.1.1, hm _ parameters h.1.2, ho _ body h.2]
  case variableDecls _ typeExpr declarators => rw [ho 0 typeExpr h.1, hm _ declarators h.2]
  case namedVariable _ initializer => rw [ho 0 initializer h]
  case block statements => simpa using hm 0 statements h
  case conditional _ _ elseBranch => rw [h.1.1, h.1.2, ho 2 elseBranch h.2]
  case returnStmt expr => rw [ho 0 expr h]
  case methodInvocation select _ args _ => rw [ho 0 select h.1, hm _ args h.2]
  case newClass _ args _ => rw [h.1, hm 1 args h.2]
  case fieldAccess => rw [h]
  case parenthesized => rw [h]
  case unary => rw [h]
  case binary => rw [h.1, h.2]
  case assignment => rw [h.1, h.2]

theorem map_congr {f g : α → β} {s : Shape α} (h : ∀ c ∈ s.children, f c = g c) :
    s.map f = s.map g := by
  refine mapIdx_congr s fun p hp => h p.1 ?_
  exact List.fst_mem_of_mem_zipIdx hp

theorem map_mapIdx (g : β → γ) (f : Nat → α → β) (s : Shape α) :
    (s.mapIdx f).map g = s.mapIdx fun i c => g (f i c) := by
  cases s <;> simp [map, mapIdx, Function.comp_def, List.mapIdx_mapIdx]

@[simp] theorem map_map (g : β → γ) (f : α → β) (s : Shape α) :
    (s.map f).map g = s.map fun c => g (f c) := map_mapIdx g _ s

@[simp] theorem map_id_fun (s : Shape α) : (s.map fun c => c) = s := by
  cases s <;> simp [map, mapIdx, list_mapIdx_const]

/-- New children with the images that the old ones had make a layer with the image that the old one
had. -/
theorem map_withChildren [Inhabited β] {s : Shape α} {cs : List β} {g : β → γ} {f : α → γ}
    (h : cs.map g = s.children.map f) : (s.withChildren cs).map g = s.map f := by
  rw [withChildren, map_mapIdx]
  refine mapIdx_congr s fun p hp => ?_
  obtain ⟨hlt, hget⟩ := List.getElem?_eq_some_iff.1 (List.mem_zipIdx_iff_getElem?.1 hp)
  have hlen : cs.length = s.children.length := by simpa using congrArg List.length h
  have hi : p.2 < cs.length := by omega
  have hval : g cs[p.2] = f s.children[p.2] := by
    have := congrArg (fun l => l[p.2]?) h
    simpa [List.getElem?_eq_getElem hi, List.getElem?_eq_getElem hlt] using this
  simp only [List.getElem?_eq_getElem hi, Option.getD_some, hval, hget]

theorem mapIdx_map (f : α → β) (g : Nat → β → γ) (s : Shape α) :
    (s.map f).mapIdx g = s.mapIdx fun i a => g i (f a) := by
  have hlen : ∀ o : Option α, (o.map f).toList.length = o.toList.length := by
    intro o
    cases o <;> rfl
  cases s <;> simp [map, mapIdx, hlen, List.mapIdx_mapIdx, Function.comp_def]

theorem withChildren_children [Inhabited α] (s : Shape α) : s.withChildren s.children = s := by
  have hsame : s.children.map (fun c => c) = s.children.map fun c => c := rfl
  simpa using map_withChildren hsame

/-- Layers that look alike look alike with new children that do. -/
theorem map_withChildren_congr [Inhabited β] {α' δ ε : Type} [Inhabited δ] {s : Shape α} {s' : Shape α'}
    {f : α → γ} {f' : α' → γ} (hs : s.map f = s'.map f') {cs : List β} {cs' : List δ}
    {g : β → ε} {g' : δ → ε} (hcs : cs.map g = cs'.map g') (hlen : cs.length = s.children.length) :
    (s.withChildren cs).map g = (s'.withChildren cs').map g' := by
  have hlen' : cs'.length = s'.children.length := by
    have h1 := congrArg List.length hcs
    have h2 := congrArg (·.children.length) hs
    simp only [List.length_map, children_map] at h1 h2
    omega
  have hget : ∀ i : Nat, cs[i]?.map g = cs'[i]?.map g' := fun i => by
    rw [← List.getElem?_map, hcs, List.getElem?_map]
  -- neither of the layers says anything about its old children
  calc (s.withChildren cs).map g
      = (s.map f).mapIdx fun i _ => g (cs[i]?.getD default) := by
        rw [withChildren, map_mapIdx, mapIdx_map]
    _ = (s'.map f').mapIdx fun i _ => g (cs[i]?.getD default) := by rw [hs]
    _ = s'.mapIdx fun i _ => g (cs[i]?.getD default) := by rw [mapIdx_map]
    _ = s'.mapIdx fun i _ => g' (cs'[i]?.getD default) := by
        refine mapIdx_congr s' fun p hp => ?_
        obtain ⟨hlt, -⟩ := List.getElem?_eq_some_iff.1 (List.mem_zipIdx_iff_getElem?.1 hp)
        have hi : p.2 < cs'.length := by omega
        have := hget p.2
        rw [List.getElem?_eq_getElem hi] at this
        obtain ⟨c, hc, hcg⟩ := Option.map_eq_some_iff.1 (this.trans rfl)
        simp only [hc, List.getElem?_eq_getElem hi, Option.getD_some, hcg]
    _ = (s'.withChildren cs').map g' := by rw [withChildren, map_mapIdx]

section Constructors

variable (f : α → β)

@[simp] theorem map_classDecl (ms : List Modifier) (name : String) (superclass : Option α)
    (interfaces : List α) (body : α) (classType : Option String) :
    (classDecl ms name superclass interfaces body classType).map f =
      classDecl ms name (superclass.map f) (interfaces.map f) (f body) classType := by
  simp [map, mapIdx, list_mapIdx_const]

@[simp] theorem map_methodDecl (ms : List Modifier) (returnType : Option α) (name : String)
    (parameters : List α) (body : Option α) (t : Option MethodType) :
    (methodDecl ms returnType name parameters body t).map f =
      methodDecl ms (returnType.map f) name (parameters.map f) (body.map f) t := by
  simp [map, mapIdx, list_mapIdx_const]

@[simp] theorem map_variableDecls (ms : List Modifier) (typeExpr : Option α)
    (declarators : List α) :
    (variableDecls ms typeExpr declarators).map f =
      variableDecls ms (typeExpr.map f) (declarators.map f) := by
  simp [map, mapIdx, list_mapIdx_const]

@[simp] theorem map_block (statements : List α) :
    (block statements).map f = block (statements.map f) := by
  simp [map, mapIdx, list_mapIdx_const]

@[simp] theorem map_methodInvocation (select : Option α) (name : String) (args : List α)
    (t : Option MethodType) :
    (methodInvocation select name args t).map f =
      methodInvocation (select.map f) name (args.map f) t := by
  simp [map, mapIdx, list_mapIdx_const]

@[simp] theorem map_parenthesized (expr : α) : (parenthesized expr).map f = parenthesized (f expr) :=
  rfl

@[simp] theorem map_identifier (name : String) : (identifier name).map f = identifier name := rfl

end Constructors

/-! ### The other parts of a layer -/

@[simp] theorem slotted_block (statements : List α) :
    (block statements).slotted = statements.map (Slot.statement, ·) := rfl

@[simp] theorem children_block (statements : List α) : (block statements).children = statements := rfl

@[simp] theorem simpleName_map (f : α → β) (s : Shape α) : (s.map f).simpleName = s.simpleName := by
  cases s <;> rfl

@[simp] theorem reference_map (f : α → β) (s : Shape α) : (s.map f).reference = s.reference := by
  cases s <;> rfl

@[simp] theorem methodType_map (f : α → β) (s : Shape α) : (s.map f).methodType = s.methodType := by
  cases s <;> rfl

@[simp] theorem kind_rename (name : String) (s : Shape α) : (s.rename name).kind = s.kind := by
  cases s <;> rfl

@[simp] theorem slotted_rename (name : String) (s : Shape α) :
    (s.rename name).slotted = s.slotted := by
  cases s <;> rfl

@[simp] theorem children_rename (name : String) (s : Shape α) :
    (s.rename name).children = s.children := by
  rw [children_eq, slotted_rename, children_eq]

theorem map_rename (f : α → β) (name : String) (s : Shape α) :
    (s.rename name).map f = (s.map f).rename name := by
  cases s <;> rfl

/-! ### Size -/

theorem sizeOf_lt_of_mem_children [SizeOf α] {s : Shape α} {c : α} (h : c ∈ s.children) :
    sizeOf c < sizeOf s := by
  have hl : ∀ xs : List α, c ∈ xs → sizeOf c < sizeOf xs := fun _ => List.sizeOf_lt_of_mem
  have ho : ∀ o : Option α, c ∈ o.toList → sizeOf c < sizeOf o := by
    rintro (_ | x) hx
    · simp at hx
    · simp only [Option.toList_some, List.mem_singleton] at hx
      subst hx
      simp
  cases s <;>
    simp only [children, List.mem_append, List.mem_cons, List.not_mem_nil, or_false] at h <;>
    simp only [compilationUnit.sizeOf_spec, classDecl.sizeOf_spec, methodDecl.sizeOf_spec,
      variableDecls.sizeOf_spec, namedVariable.sizeOf_spec, block.sizeOf_spec,
      conditional.sizeOf_spec, returnStmt.sizeOf_spec, methodInvocation.sizeOf_spec,
      newClass.sizeOf_spec, fieldAccess.sizeOf_spec, parenthesized.sizeOf_spec, unary.sizeOf_spec,
      binary.sizeOf_spec, assignment.sizeOf_spec] <;>
    grind

end Shape

end Refactor
