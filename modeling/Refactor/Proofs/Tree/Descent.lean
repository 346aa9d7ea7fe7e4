import Mathlib.Data.List.Nodup
import Mathlib.Data.List.Pairwise
import Refactor.Proofs.Tree.Layer

/-!
# Going down a tree

Induction over a tree with the children of a layer as a list (`Labelled.ind`), and what the
functions that go down a tree do at its root: the descendants, the height, the slots, and the map of
labels. The content of a tree of objects is such a map, so that content and tree have the same
layers.
-/

namespace Refactor

namespace Labelled

variable {β γ : Type}

@[elab_as_elim]
theorem ind {motive : Labelled β → Prop}
    (node : ∀ l s, (∀ c ∈ s.children, motive c) → motive (mk l s)) : ∀ t, motive t
  | mk l s => node l s fun c hc =>
    have : sizeOf c < sizeOf s := Shape.sizeOf_lt_of_mem_children hc
    ind node c
  termination_by t => sizeOf t
  decreasing_by
    simp only [mk.sizeOf_spec]
    omega

@[simp] theorem label_mk (l : β) (s : Shape (Labelled β)) : (mk l s).label = l := rfl
@[simp] theorem shape_mk (l : β) (s : Shape (Labelled β)) : (mk l s).shape = s := rfl
@[simp] theorem kind_mk (l : β) (s : Shape (Labelled β)) : (mk l s).kind = s.kind := rfl
@[simp] theorem children_mk (l : β) (s : Shape (Labelled β)) : (mk l s).children = s.children := rfl
@[simp] theorem mk_label_shape (t : Labelled β) : mk t.label t.shape = t := by cases t; rfl

/-! ### Descendants -/

theorem descendants_mk (l : β) (s : Shape (Labelled β)) :
    (mk l s).descendants = mk l s :: s.children.flatMap descendants := by
  unfold descendants
  rw [fold_mk, Shape.children_map, List.flatMap_def]

theorem descendants_eq (t : Labelled β) : t.descendants = t :: t.children.flatMap descendants := by
  obtain ⟨l, s⟩ := t
  exact descendants_mk l s

theorem mem_descendants {d t : Labelled β} :
    d ∈ t.descendants ↔ d = t ∨ ∃ c ∈ t.children, d ∈ c.descendants := by
  rw [descendants_eq, List.mem_cons, List.mem_flatMap]

@[simp] theorem self_mem_descendants (t : Labelled β) : t ∈ t.descendants :=
  mem_descendants.2 (Or.inl rfl)

theorem mem_descendants_of_child {c t : Labelled β} (h : c ∈ t.children) : c ∈ t.descendants :=
  mem_descendants.2 (Or.inr ⟨c, h, self_mem_descendants c⟩)

/-- The descendants of a descendant stand together in the list. -/
theorem descendants_sublist {t d : Labelled β} (h : d ∈ t.descendants) :
    d.descendants.Sublist t.descendants := by
  induction t using ind with
  | node l s ih =>
    rcases mem_descendants.1 h with rfl | ⟨c, hc, hd⟩
    · exact List.Sublist.refl _
    · rw [descendants_mk]
      refine (ih c hc hd).trans (List.Sublist.cons _ ?_)
      exact List.sublist_flatten_of_mem (List.mem_map_of_mem hc)

theorem mem_descendants_trans {d e t : Labelled β} (hd : d ∈ e.descendants)
    (he : e ∈ t.descendants) : d ∈ t.descendants :=
  (descendants_sublist he).subset hd

/-- Below the root every node has a parent. -/
theorem exists_parent {t d : Labelled β} (hd : d ∈ t.descendants) :
    d = t ∨ ∃ parent ∈ t.descendants, d ∈ parent.children := by
  induction t using ind with
  | node l s ih =>
    rcases mem_descendants.1 hd with rfl | ⟨c, hc, hd⟩
    · exact Or.inl rfl
    · rcases ih c hc hd with rfl | ⟨parent, hparent, hchild⟩
      · exact Or.inr ⟨_, self_mem_descendants _, hc⟩
      · exact Or.inr ⟨parent, mem_descendants.2 (Or.inr ⟨c, hc, hparent⟩), hchild⟩

/-! ### Height -/

lemma le_foldl_max (xs : List Nat) : ∀ a, a ≤ xs.foldl max a ∧ ∀ x ∈ xs, x ≤ xs.foldl max a := by
  induction xs with
  | nil => intro a; simp
  | cons y ys ih =>
    intro a
    obtain ⟨h1, h2⟩ := ih (max a y)
    refine ⟨by simp only [List.foldl_cons]; omega, ?_⟩
    intro x hx
    rcases List.mem_cons.1 hx with rfl | hx
    · simp only [List.foldl_cons]; omega
    · exact h2 x hx

theorem height_mk (l : β) (s : Shape (Labelled β)) :
    (mk l s).height = (s.children.map height).foldl max 0 + 1 := by
  unfold height
  rw [fold_mk, Shape.children_map]

theorem height_lt_of_child {c t : Labelled β} (h : c ∈ t.children) : c.height < t.height := by
  obtain ⟨l, s⟩ := t
  rw [height_mk]
  have := (le_foldl_max (s.children.map height) 0).2 c.height (List.mem_map_of_mem h)
  omega

/-! ### Slots -/

theorem slotValid_iff {t : Labelled β} :
    t.slotValid ↔ ∀ p ∈ t.shape.slotted, p.1.accepts p.2.kind ∧ p.2.slotValid := by
  obtain ⟨l, s⟩ := t
  simp only [slotValid, descendants_mk, List.all_cons, Bool.and_eq_true, List.all_eq_true,
    List.mem_flatMap, shape_mk]
  constructor
  · rintro ⟨hs, hd⟩ p hp
    exact ⟨hs p hp, fun d hdp => hd d ⟨p.2, Shape.mem_children_of_slotted hp, hdp⟩⟩
  · intro h
    refine ⟨fun p hp => (h p hp).1, ?_⟩
    rintro d ⟨c, hc, hdc⟩
    obtain ⟨slot, hp⟩ := Shape.exists_slotted_of_children hc
    exact (h _ hp).2 d hdc

theorem slotValid_of_child {c t : Labelled β} (ht : t.slotValid) (h : c ∈ t.children) :
    c.slotValid := by
  obtain ⟨slot, hp⟩ := Shape.exists_slotted_of_children h
  exact (slotValid_iff.1 ht _ hp).2

theorem slotValid_of_mem {d t : Labelled β} (ht : t.slotValid) (h : d ∈ t.descendants) :
    d.slotValid := by
  unfold slotValid at ht ⊢
  rw [List.all_eq_true] at ht ⊢
  exact fun e he => ht e (mem_descendants_trans he h)

/-- A layer over children that its slots accept. -/
theorem slotValid_withChildren [Inhabited β] {α : Type} {s : Shape α} {cs : List (Labelled β)} (l : β)
    (h : List.Forall₂ (fun p c => p.1.accepts c.kind = true ∧ c.slotValid = true) s.slotted cs) :
    (mk l (s.withChildren cs)).slotValid := by
  have hlen : cs.length = s.children.length := by
    rw [← Shape.length_slotted, h.length_eq]
  rw [slotValid_iff, shape_mk, Shape.slotted_withChildren hlen]
  intro p hp
  obtain ⟨i, hi, rfl⟩ := List.mem_iff_getElem.1 hp
  simp only [List.length_zip, List.length_map] at hi
  simpa using h.get (i := i) (by omega) (by omega)

/-! ### Maps of labels -/

theorem map_mk (g : β → γ) (l : β) (s : Shape (Labelled β)) :
    (mk l s).map g = mk (g l) (s.map (map g)) := by
  unfold map
  rw [fold_mk, label_mk]

@[simp] theorem label_map (g : β → γ) (t : Labelled β) : (t.map g).label = g t.label := by
  obtain ⟨l, s⟩ := t
  rw [map_mk, label_mk, label_mk]

@[simp] theorem shape_map (g : β → γ) (t : Labelled β) : (t.map g).shape = t.shape.map (map g) := by
  obtain ⟨l, s⟩ := t
  rw [map_mk, shape_mk, shape_mk]

@[simp] theorem kind_map (g : β → γ) (t : Labelled β) : (t.map g).kind = t.kind := by
  simp [kind]

@[simp] theorem children_map (g : β → γ) (t : Labelled β) :
    (t.map g).children = t.children.map (map g) := by
  simp [children]

theorem map_map {δ : Type} (g : γ → δ) (f : β → γ) (t : Labelled β) :
    (t.map f).map g = t.map fun l => g (f l) := by
  induction t using Labelled.ind with
  | node l s ih =>
    rw [map_mk, map_mk, map_mk, Shape.map_map]
    exact congrArg _ (Shape.map_congr ih)

theorem descendants_map (g : β → γ) (t : Labelled β) :
    (t.map g).descendants = t.descendants.map (map g) := by
  induction t using ind with
  | node l s ih =>
    rw [map_mk, descendants_mk, descendants_mk, List.map_cons, map_mk, Shape.children_map,
      List.flatMap_map, List.map_flatMap]
    congr 1
    exact List.flatMap_congr ih

theorem height_map (g : β → γ) (t : Labelled β) : (t.map g).height = t.height := by
  induction t using ind with
  | node l s ih =>
    rw [map_mk, height_mk, height_mk, Shape.children_map, List.map_map]
    congr 2
    exact List.map_congr_left ih

theorem slotValid_map (g : β → γ) (t : Labelled β) : (t.map g).slotValid = t.slotValid := by
  unfold slotValid
  rw [descendants_map, List.all_map]
  congr 1
  funext d
  simp [Function.comp_def, List.all_map]

end Labelled

/-! ### Content -/

namespace Node

@[simp] theorem content_mk (l : Label) (s : Shape Node) :
    content (.mk l s) = .mk l.header (s.map content) := Labelled.map_mk _ l s

@[simp] theorem label_content (n : Node) : n.content.label = n.label.header := Labelled.label_map _ n

@[simp] theorem shape_content (n : Node) : n.content.shape = n.shape.map content :=
  Labelled.shape_map _ n

@[simp] theorem kind_content (n : Node) : n.content.kind = n.kind := Labelled.kind_map _ n

@[simp] theorem children_content (n : Node) : n.content.children = n.children.map content :=
  Labelled.children_map _ n

theorem descendants_content (n : Node) : n.content.descendants = n.descendants.map content :=
  Labelled.descendants_map _ n

theorem slotValid_content (n : Node) : n.content.slotValid = n.slotValid :=
  Labelled.slotValid_map _ n

theorem height_content (n : Node) : n.content.height = n.height := Labelled.height_map _ n

end Node

/-! ### Keys of nodes -/

namespace Labelled

variable {β : Type}

/-- A key of each node, in pre-order. -/
def keys (key : β → NodeId) (t : Labelled β) : List NodeId := t.descendants.map fun d => key d.label

variable {key : β → NodeId}

theorem keys_eq (t : Labelled β) : t.keys key = key t.label :: t.children.flatMap (keys key) := by
  obtain ⟨l, s⟩ := t
  unfold keys
  rw [descendants_mk, List.map_cons, List.map_flatMap]
  rfl

theorem mem_keys {t : Labelled β} {k : NodeId} :
    k ∈ t.keys key ↔ ∃ d ∈ t.descendants, key d.label = k := List.mem_map

theorem key_mem_keys {t d : Labelled β} (h : d ∈ t.descendants) : key d.label ∈ t.keys key :=
  List.mem_map_of_mem h

section Distinct

variable {t : Labelled β} (h : (t.keys key).Nodup)
include h

/-- With distinct keys, a node is told by its key. -/
theorem eq_of_key {a b : Labelled β} (ha : a ∈ t.descendants) (hb : b ∈ t.descendants)
    (hkey : key a.label = key b.label) : a = b :=
  List.inj_on_of_nodup_map h ha hb hkey

theorem nodup_keys_of_mem {d : Labelled β} (hd : d ∈ t.descendants) : (d.keys key).Nodup :=
  h.sublist ((descendants_sublist hd).map _)

theorem key_not_mem_child {c : Labelled β} (hc : c ∈ t.children) : key t.label ∉ c.keys key := by
  rw [keys_eq, List.nodup_cons] at h
  exact fun hmem => h.1 (List.mem_flatMap.2 ⟨c, hc, hmem⟩)

/-- No key is found below two children. -/
theorem eq_of_common_key {c c' : Labelled β} (hc : c ∈ t.children) (hc' : c' ∈ t.children)
    {k : NodeId} (hk : k ∈ c.keys key) (hk' : k ∈ c'.keys key) : c = c' := by
  rw [keys_eq, List.nodup_cons, List.nodup_flatMap] at h
  by_contra hne
  have : Std.Symm (Function.onFun List.Disjoint (keys key : Labelled β → _)) :=
    ⟨fun _ _ hd _ hx hy => hd hy hx⟩
  exact h.2.2.forall hc hc' hne hk hk'

end Distinct

/-- With distinct keys a node has one parent. -/
theorem eq_of_common_child {t a b c : Labelled β} (h : (t.keys key).Nodup) (ha : a ∈ t.descendants)
    (hb : b ∈ t.descendants) (hca : c ∈ a.children) (hcb : c ∈ b.children) : a = b := by
  have hkey : ∀ {a k : Labelled β}, a ∈ k.descendants → c ∈ a.children → key c.label ∈ k.keys key :=
    fun hak hca => key_mem_keys (mem_descendants_trans (mem_descendants_of_child hca) hak)
  induction t using ind with
  | node l s ih =>
    -- A child of the root is no child of another node.
    have hroot : ∀ {b k : Labelled β}, c ∈ s.children → k ∈ s.children → b ∈ k.descendants →
        c ∉ b.children := by
      intro b k hc hk hbk hcb
      obtain rfl := eq_of_common_key h hc hk (key_mem_keys (self_mem_descendants c)) (hkey hbk hcb)
      have hcn := nodup_keys_of_mem h (mem_descendants_of_child hc)
      rcases mem_descendants.1 hbk with rfl | ⟨d, hd, hbd⟩
      · exact key_not_mem_child hcn hcb (key_mem_keys (self_mem_descendants _))
      · exact key_not_mem_child hcn hd (hkey hbd hcb)
    rcases mem_descendants.1 ha with rfl | ⟨ka, hka, hak⟩ <;>
      rcases mem_descendants.1 hb with rfl | ⟨kb, hkb, hbk⟩
    · rfl
    · exact absurd hcb (hroot hca hkb hbk)
    · exact absurd hca (hroot hcb hka hak)
    · obtain rfl := eq_of_common_key h hka hkb (hkey hak hca) (hkey hbk hcb)
      exact ih ka hka (nodup_keys_of_mem h (mem_descendants_of_child hka)) hak hbk

end Labelled

/-! ### The ids of a tree -/

/-- The ids of all nodes, in pre-order. -/
def Tree.ids (t : Tree) : List NodeId := t.keys Header.id

namespace Tree

theorem ids_mk (l : Header) (s : Shape Tree) :
    ids (.mk l s) = l.id :: s.children.flatMap ids := Labelled.keys_eq _

theorem nodup_of_mem {t d : Tree} (h : t.ids.Nodup) (hd : d ∈ t.descendants) : d.ids.Nodup :=
  Labelled.nodup_keys_of_mem h hd

/-- With distinct ids, a node is told by its id. -/
theorem eq_of_id {t a b : Tree} (h : t.ids.Nodup) (ha : a ∈ t.descendants) (hb : b ∈ t.descendants)
    (hid : a.label.id = b.label.id) : a = b :=
  Labelled.eq_of_key h ha hb hid

end Tree

namespace Node

theorem ids_content (n : Node) : n.content.ids = n.keys Label.id := by
  unfold Tree.ids Labelled.keys
  rw [Node.descendants_content, List.map_map]
  exact List.map_congr_left fun d _ => by simp [Label.header]

theorem ids_eq (n : Node) :
    n.content.ids = n.label.id :: n.children.flatMap fun c : Node => c.content.ids := by
  rw [ids_content, Labelled.keys_eq]
  congr 1
  exact List.flatMap_congr fun c _ => (ids_content c).symm

theorem mem_ids {n : Node} {id : NodeId} : id ∈ n.content.ids ↔ ∃ d ∈ n.descendants, d.label.id = id := by
  rw [ids_content, Labelled.mem_keys]

variable {n : Node} (h : n.content.ids.Nodup)
include h

/-- With distinct ids, an object of the tree is told by its id. -/
theorem eq_of_id {a b : Node} (ha : a ∈ n.descendants) (hb : b ∈ n.descendants)
    (hid : a.label.id = b.label.id) : a = b :=
  Labelled.eq_of_key (n.ids_content ▸ h) ha hb hid

theorem nodup_child {c : Node} (hc : c ∈ n.children) : c.content.ids.Nodup := by
  rw [ids_content] at h ⊢
  exact Labelled.nodup_keys_of_mem h (Labelled.mem_descendants_of_child hc)

theorem id_not_mem_child {c : Node} (hc : c ∈ n.children) : n.label.id ∉ c.content.ids := by
  rw [ids_content] at h ⊢
  exact Labelled.key_not_mem_child h hc

theorem eq_of_common_id {c c' : Node} (hc : c ∈ n.children) (hc' : c' ∈ n.children) {id : NodeId}
    (hid : id ∈ c.content.ids) (hid' : id ∈ c'.content.ids) : c = c' := by
  rw [ids_content] at h hid hid'
  exact Labelled.eq_of_common_key h hc hc' hid hid'

end Node

end Refactor
