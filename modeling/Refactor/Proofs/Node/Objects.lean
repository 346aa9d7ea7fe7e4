import Refactor.Node.Alloc
import Refactor.Proofs.Lists
import Refactor.Proofs.Tree.Rewrite

/-!
# Objects and their stamps

A tree of objects lies before a bound when all its stamps are below it (`Node.Predates`); the supply
gives out stamps from the bound on, so that a new object is none of the old ones. Every tree that is
made from a draft lies before what the supply gives out next (`place_predates`).

`Node.Shares R b n m` says what has become of a tree `n`: each object of `m` is an object of `n`, or
it is new, stands for one of the same id, and the content of the two is related by `R`.
-/

namespace Refactor

namespace Node

/-- The object was made before the bound, as was its set of markers, and it was made after the
objects it holds. -/
inductive Predates : Node → Nat → Prop
  | intro {n : Node} {bound : Nat} : n.label.stamp < bound → n.label.markers.stamp < bound →
      (∀ c ∈ n.children, Predates c n.label.stamp) → Predates n bound

namespace Predates

variable {n c : Node} {a b : Nat}

theorem stamp (h : n.Predates b) : n.label.stamp < b := by
  cases h with
  | intro h _ _ => exact h

theorem markers (h : n.Predates b) : n.label.markers.stamp < b := by
  cases h with
  | intro _ h _ => exact h

theorem mono (h : n.Predates a) (hab : a ≤ b) : n.Predates b := by
  cases h with
  | intro h1 h2 h3 => exact .intro (Nat.lt_of_lt_of_le h1 hab) (Nat.lt_of_lt_of_le h2 hab) h3

theorem before_parent (h : n.Predates b) (hc : c ∈ n.children) : c.Predates n.label.stamp := by
  cases h with
  | intro _ _ h => exact h c hc

theorem child (h : n.Predates b) (hc : c ∈ n.children) : c.Predates b :=
  (h.before_parent hc).mono (Nat.le_of_lt h.stamp)

end Predates

theorem Predates.of_mem {n d : Node} {b : Nat} (h : n.Predates b) (hd : d ∈ n.descendants) :
    d.Predates b := by
  induction n using Labelled.ind with
  | node l s ih =>
    rcases Labelled.mem_descendants.1 hd with rfl | ⟨c, hc, hdc⟩
    · exact h
    · exact ih c hc (h.child hc) hdc

/-! ### New objects -/

/-- The label of an object made next, with the rest of another label. -/
def restamp (l : Label) (stamp : Nat) : Label := { l with stamp }

@[simp] theorem header_restamp (l : Label) (stamp : Nat) : (restamp l stamp).header = l.header := rfl

theorem withShape_run (n : Node) (shape : Shape Node) (s : Supply) :
    n.withShape shape s =
      (.mk (restamp n.label s.stamp) shape, { s with stamp := s.stamp + 1 }) := rfl

/-- A new object over objects that lie before it. -/
theorem withShape_predates {n : Node} {b : Nat} {shape : Shape Node} {s : Supply} (hn : n.Predates b)
    (hb : b ≤ s.stamp) (hshape : ∀ c ∈ shape.children, Predates c s.stamp) :
    (n.withShape shape s).1.Predates (n.withShape shape s).2.stamp := by
  have hmarkers := hn.markers
  rw [withShape_run]
  refine .intro (Nat.lt_succ_self _) ?_ hshape
  show n.label.markers.stamp < s.stamp + 1
  omega

/-! ### Trees made from drafts -/

/-- The computation takes stamps from the supply, and what it makes has the property for the supply
it leaves. -/
def Grows {α : Type} (x : Alloc α) (s : Supply) (P : α → Nat → Prop) : Prop :=
  s.stamp ≤ (x s).2.stamp ∧ P (x s).1 (x s).2.stamp

theorem grows_bind {α β : Type} {x : Alloc α} {f : α → Alloc β} {s : Supply} {P : α → Nat → Prop}
    {Q : β → Nat → Prop} (hx : Grows x s P)
    (hf : ∀ a s', s.stamp ≤ s'.stamp → P a s'.stamp → Grows (f a) s' Q) : Grows (x >>= f) s Q := by
  obtain ⟨hs, hP⟩ := hx
  obtain ⟨hs', hQ⟩ := hf _ _ hs hP
  exact ⟨Nat.le_trans hs hs', hQ⟩

/-- The markers one by one, each unless it is there already. -/
def gathered (ms : List Marker) : List Marker := ms.foldl (fun held m => m.addTo held) []

theorem grows_ofList (ms : List Marker) (s : Supply) (hs : 0 < s.stamp) :
    Grows (MarkerSet.ofList ms) s fun set b => set.stamp < b ∧ set.entries = gathered ms := by
  have hfold : ∀ (ms : List Marker) (set : MarkerSet) (s : Supply), set.stamp < s.stamp →
      Grows (ms.foldlM MarkerSet.addIfAbsent set) s fun out b => out.stamp < b ∧
        out.entries = ms.foldl (fun held m => m.addTo held) set.entries := by
    intro ms
    induction ms with
    | nil => exact fun set s h => ⟨Nat.le_refl _, h, rfl⟩
    | cons m ms ih =>
      intro set s h
      rw [List.foldlM_cons, List.foldl_cons]
      refine grows_bind (P := fun out b => out.stamp < b ∧ out.entries = m.addTo set.entries) ?_
        fun out s' _ hout => hout.2 ▸ ih out s' hout.1
      unfold MarkerSet.addIfAbsent Marker.addTo
      split
      · exact ⟨Nat.le_refl _, h, rfl⟩
      · exact ⟨Nat.le_succ _, Nat.lt_succ_self _, rfl⟩
  exact hfold ms MarkerSet.empty s hs

/-- Each element of the list is made from the supply that those before it have left. -/
theorem grows_mapM {α : Type} (f : α → Alloc Node) (xs : List α) (s : Supply) (hs : 0 < s.stamp)
    (hf : ∀ x ∈ xs, ∀ s : Supply, 0 < s.stamp → s.stamp ≤ (f x s).2.stamp) :
    Grows (xs.mapM f) s fun cs b => List.Forall₂ (fun x c => ∃ s' : Supply, s.stamp ≤ s'.stamp ∧
      (f x s').2.stamp ≤ b ∧ c = (f x s').1) xs cs := by
  induction xs generalizing s with
  | nil => exact ⟨Nat.le_refl _, .nil⟩
  | cons x xs ih =>
    rw [List.mapM_cons]
    refine grows_bind (P := fun c b => c = (f x s).1 ∧ (f x s).2.stamp ≤ b) ?_ fun c s1 hs1 hc => ?_
    · exact ⟨hf x (by simp) s hs, rfl, Nat.le_refl _⟩
    refine grows_bind (ih s1 (Nat.lt_of_lt_of_le hs hs1) fun y hy => hf y (List.mem_cons_of_mem _ hy))
      fun cs s2 hs2 hcs => ⟨Nat.le_refl _, .cons ⟨s, Nat.le_refl _, ?_, hc.1⟩ (hcs.imp ?_)⟩
    · exact Nat.le_trans hc.2 hs2
    · rintro y c ⟨s', hs', hle, rfl⟩
      exact ⟨s', Nat.le_trans hs1 hs', hle, rfl⟩

/-- What is made of a draft whose children take stamps from the supply: a new object over what was made
of them before. -/
theorem grows_place (l : DraftHeader) (shape : Shape Draft) {s : Supply} (hs : 0 < s.stamp)
    (hkids : ∀ d ∈ shape.children, ∀ s : Supply, 0 < s.stamp → s.stamp ≤ (Draft.place d s).2.stamp) :
    Grows (Draft.place (.mk l shape)) s fun n b => ∃ (label : Label) (cs : List Node),
      n = .mk label ((shape.map Draft.place).withChildren cs) ∧ s.stamp ≤ label.stamp ∧
      label.stamp < b ∧ label.markers.stamp < b ∧ label.markers.entries = gathered l.markers ∧
      List.Forall₂ (fun d c => ∃ s' : Supply, s.stamp ≤ s'.stamp ∧
        (Draft.place d s').2.stamp ≤ label.stamp ∧ c = (Draft.place d s').1) shape.children cs := by
  unfold Draft.place
  rw [Labelled.fold_mk]
  have hkids := grows_mapM id (shape.map Draft.place).children s hs fun x hx s hs => by
    rw [Shape.children_map] at hx
    obtain ⟨d, hd, rfl⟩ := List.mem_map.1 hx
    exact hkids d hd s hs
  refine grows_bind hkids fun cs s1 hs1 hcs => ?_
  rw [Shape.children_map, List.forall₂_map_left_iff] at hcs
  refine grows_bind (P := fun _ _ => True) ?_ fun nodeId s2 hs2 _ => ?_
  · rw [Labelled.label_mk]
    cases l.id <;> exact ⟨Nat.le_refl _, trivial⟩
  · refine grows_bind (grows_ofList l.markers s2 (by omega)) fun set s3 hs3 hset => ?_
    refine ⟨Nat.le_succ _, _, cs, rfl, ?_, Nat.lt_succ_self _, Nat.lt_succ_of_lt hset.1, hset.2, ?_⟩
    · exact Nat.le_trans hs1 (Nat.le_trans hs2 hs3)
    · refine hcs.imp ?_
      rintro d c ⟨s', hs', hle, rfl⟩
      exact ⟨s', hs', Nat.le_trans hle (Nat.le_trans hs2 hs3), rfl⟩

/-- **Every tree made from a draft** is in order: each of its objects was made after those it holds,
and before what the supply gives out next. -/
theorem place_predates (d : Draft) (s : Supply) (hs : 0 < s.stamp) : Grows d.place s Predates := by
  induction d using Labelled.ind generalizing s with
  | node l shape ih =>
    obtain ⟨hgrows, label, cs, hplace, -, hlabel, hmarkers, -, hcs⟩ :=
      grows_place l shape hs fun d hd s hs => (ih d hd s hs).1
    refine ⟨hgrows, ?_⟩
    rw [hplace]
    refine .intro hlabel hmarkers fun c hc => ?_
    rw [Labelled.children_mk, Shape.children_withChildren (by simp [hcs.length_eq])] at hc
    obtain ⟨d, hd, s', hs', hle, rfl⟩ := exists_left_of_forall₂ hcs c hc
    exact (ih d hd s' (Nat.lt_of_lt_of_le hs hs')).2.mono hle

/-- What is made of a draft, with the children at hand. -/
theorem place_mk (l : DraftHeader) (shape : Shape Draft) {s : Supply} (hs : 0 < s.stamp) :
    ∃ (label : Label) (cs : List Node),
      (Draft.place (.mk l shape) s).1 = .mk label ((shape.map Draft.place).withChildren cs) ∧
      s.stamp ≤ label.stamp ∧ label.markers.entries = gathered l.markers ∧
      List.Forall₂ (fun d c => ∃ s' : Supply, s.stamp ≤ s'.stamp ∧ c = (Draft.place d s').1)
        shape.children cs := by
  obtain ⟨-, label, cs, hplace, hlabel, -, -, hentries, hcs⟩ :=
    grows_place l shape hs fun d _ s hs => (place_predates d s hs).1
  refine ⟨label, cs, hplace, hlabel, hentries, hcs.imp ?_⟩
  rintro d c ⟨s', hs', -, rfl⟩
  exact ⟨s', hs', rfl⟩

/-- All objects of a tree made from a draft are new. -/
theorem stamp_of_mem_place (d : Draft) (s : Supply) (hs : 0 < s.stamp) :
    ∀ o ∈ (d.place s).1.descendants, s.stamp ≤ o.label.stamp := by
  induction d using Labelled.ind generalizing s with
  | node l shape ih =>
    obtain ⟨label, cs, hplace, hlabel, -, hcs⟩ := place_mk l shape hs
    intro o ho
    rw [hplace] at ho
    rcases Labelled.mem_descendants.1 ho with rfl | ⟨c, hc, hoc⟩
    · exact hlabel
    · rw [Labelled.children_mk, Shape.children_withChildren (by simp [hcs.length_eq])] at hc
      obtain ⟨d, hd, s', hs', rfl⟩ := exists_left_of_forall₂ hcs c hc
      exact Nat.le_trans hs' (ih d hd s' (Nat.lt_of_lt_of_le hs hs') o hoc)

theorem kind_place (d : Draft) (s : Supply) (hs : 0 < s.stamp) : (d.place s).1.kind = d.kind := by
  obtain ⟨l, shape⟩ := d
  obtain ⟨label, cs, hplace, -⟩ := place_mk l shape hs
  rw [hplace, Labelled.kind_mk, Shape.kind_withChildren, Shape.kind_map, Labelled.kind_mk]

/-- A draft that is slot-valid makes a tree that is. -/
theorem slotValid_place (d : Draft) (s : Supply) (hs : 0 < s.stamp) (hvalid : d.slotValid) :
    (d.place s).1.slotValid := by
  induction d using Labelled.ind generalizing s with
  | node l shape ih =>
    obtain ⟨label, cs, hplace, -, -, hcs⟩ := place_mk l shape hs
    rw [hplace]
    refine Labelled.slotValid_withChildren label ?_
    rw [Shape.slotted_map, List.forall₂_map_left_iff]
    rw [Shape.forall₂_children] at hcs
    refine forall₂_imp_of_mem hcs ?_
    rintro p hp c ⟨s', hs', rfl⟩
    obtain ⟨haccepts, hchild⟩ := Labelled.slotValid_iff.1 hvalid p hp
    have hs' : 0 < s'.stamp := Nat.lt_of_lt_of_le hs hs'
    exact ⟨by rwa [kind_place _ _ hs'], ih p.2 (Shape.mem_children_of_slotted hp) s' hs' hchild⟩

/-! ### What becomes of an object -/

/-- The object `o` is `i` itself, or is new and stands in its place. -/
def Succeeds (R : Tree → Tree → Prop) (b : Nat) (i o : Node) : Prop :=
  o = i ∨ (b ≤ o.label.stamp ∧ o.label.id = i.label.id ∧ R i.content o.content)

/-- Every object of the later tree succeeds one of the earlier, and the root the root. -/
structure Shares (R : Tree → Tree → Prop) (b : Nat) (n m : Node) : Prop where
  root : Succeeds R b n m
  below : ∀ o ∈ m.descendants, ∃ i ∈ n.descendants, Succeeds R b i o

namespace Shares

variable {R : Tree → Tree → Prop} {b : Nat} {n m k : Node}

theorem refl (n : Node) : Shares R b n n := ⟨Or.inl rfl, fun o ho => ⟨o, ho, Or.inl rfl⟩⟩

theorem same_or_new (h : Shares R b n m) (hn : n.Predates b) :
    m = n ∨ m.label.stamp ≠ n.label.stamp := by
  have := hn.stamp
  exact h.root.imp id fun hnew => by have := hnew.1; omega

end Shares

theorem Succeeds.trans {R : Tree → Tree → Prop} {a b : Nat} {x y z : Node}
    (hR : ∀ r s t, R r s → R s t → R r t) (hab : a ≤ b) (h1 : Succeeds R a x y)
    (h2 : Succeeds R b y z) : Succeeds R a x z := by
  rcases h2 with rfl | ⟨hz, hid, hyz⟩
  · exact h1
  · rcases h1 with rfl | ⟨-, hid1, hxy⟩
    · exact Or.inr ⟨Nat.le_trans hab hz, hid, hyz⟩
    · exact Or.inr ⟨Nat.le_trans hab hz, hid.trans hid1, hR _ _ _ hxy hyz⟩

theorem Shares.trans {R : Tree → Tree → Prop} {a b : Nat} {n m k : Node}
    (hR : ∀ r s t, R r s → R s t → R r t) (hab : a ≤ b) (h1 : Shares R a n m)
    (h2 : Shares R b m k) : Shares R a n k := by
  refine ⟨h1.root.trans hR hab h2.root, fun o ho => ?_⟩
  obtain ⟨j, hj, hjo⟩ := h2.below o ho
  obtain ⟨i, hi, hij⟩ := h1.below j hj
  exact ⟨i, hi, hij.trans hR hab hjo⟩

theorem Shares.imp {R R' : Tree → Tree → Prop} {b : Nat} {n m : Node}
    (h : Shares R b n m) (hR : ∀ t t', R t t' → R' t t') : Shares R' b n m := by
  have hsucc : ∀ i o, Succeeds R b i o → Succeeds R' b i o := fun i o =>
    Or.imp_right fun ⟨hb, hid, hr⟩ => ⟨hb, hid, hR _ _ hr⟩
  refine ⟨hsucc _ _ h.root, fun o ho => ?_⟩
  obtain ⟨i, hi, hio⟩ := h.below o ho
  exact ⟨i, hi, hsucc _ _ hio⟩

/-- The node is itself, or a new one over the same children that differs in what it holds. -/
def Edited (b : Nat) (m k : Node) : Prop :=
  k = m ∨ (b ≤ k.label.stamp ∧ k.label.id = m.label.id ∧ k.children = m.children ∧
    k.content ≠ m.content)

/-! ### A node after its children -/

/-- The node as it comes out of the walk over its children: itself if they all stayed what they
were, else a new one over the new children. -/
inductive Walked (b : Nat) (n : Node) (cs : List Node) : Node → Prop
  | kept : cs = n.children → Walked b n cs n
  | rebuilt (stamp : Nat) : cs ≠ n.children → cs.length = n.children.length → b ≤ stamp →
      Walked b n cs (.mk (restamp n.label stamp) (n.shape.withChildren cs))

/-- The relation tells a node from what becomes of it when some child becomes another. -/
structure Lifts (R : Tree → Tree → Prop) : Prop where
  irrefl : ∀ t, ¬ R t t
  node : ∀ (l : Header) (s : Shape Tree) (f : Tree → Tree),
    (∀ c ∈ s.children, f c = c ∨ R c (f c)) → (∃ c ∈ s.children, f c ≠ c) →
      R (.mk l s) (.mk l (s.map f))

theorem lifts_ne : Lifts (· ≠ ·) where
  irrefl t h := h rfl
  node l s f _ := by
    rintro ⟨c, hc, hne⟩ heq
    have hchildren : s.children = s.children.map f := by
      simpa using congrArg Labelled.children heq
    have hall := List.map_eq_map_iff.1 ((List.map_id _).trans hchildren)
    exact hne (hall c hc).symm

/-- The relation also tells a node from what a change of the node alone makes of it, be it as it was
or with other children. -/
structure Detects (R : Tree → Tree → Prop) (change : List Tree → Tree → Tree) : Prop where
  lifts : Lifts R
  step : ∀ path t t', (t' = t ∨ R t t' ∧ t'.children ≠ t.children) → change path t' ≠ t' →
    (change path t').children = t'.children → R t (change path t')

theorem detects_ne (change : List Tree → Tree → Tree) : Detects (· ≠ ·) change where
  lifts := lifts_ne
  step path t t' ht' hne hchildren heq := by
    rcases ht' with rfl | ⟨-, hkids⟩
    · exact hne heq.symm
    · exact hkids (by rw [← hchildren, ← heq])

section Walk

variable {R : Tree → Tree → Prop} {b : Nat} {n m : Node} {cs : List Node} {f : Tree → Tree}

theorem Walked.children (h : Walked b n cs m) : m.children = cs := by
  cases h with
  | kept h => exact h.symm
  | rebuilt stamp _ hlen _ => exact Shape.children_withChildren hlen

theorem Walked.id (h : Walked b n cs m) : m.label.id = n.label.id := by
  cases h <;> rfl

theorem Walked.kind (h : Walked b n cs m) : m.kind = n.kind := by
  cases h with
  | kept => rfl
  | rebuilt => exact Shape.kind_withChildren _ _

theorem Walked.content (h : Walked b n cs m)
    (hf : List.Forall₂ (fun c c' : Node => c'.content = f c.content) n.children cs) :
    m.content = .mk n.content.label (n.content.shape.map f) := by
  have hmap : cs.map Node.content = n.children.map fun c : Node => f c.content :=
    map_eq_of_forall₂ hf
  have hshape : ∀ s : Shape Node, s.map Node.content = n.shape.map (fun c : Node => f c.content) →
      s.map Node.content = (n.shape.map Node.content).map f := by
    intro s hs
    rw [hs, Shape.map_map]
  cases h with
  | kept h =>
    obtain ⟨l, s⟩ := n
    subst h
    rw [label_content, shape_content, Labelled.label_mk, Labelled.shape_mk, content_mk]
    congr 1
    refine hshape s (Shape.map_congr fun c hc => ?_)
    exact List.map_eq_map_iff.1 hmap c hc
  | rebuilt stamp _ _ _ =>
    rw [content_mk, header_restamp, label_content, shape_content]
    congr 1
    exact hshape _ (Shape.map_withChildren hmap)

/-- A node that was rebuilt has another content, since some child has. -/
theorem Walked.lifts (hR : Lifts R) (h : Walked b n cs m)
    (hcs : List.Forall₂ (fun c c' : Node => c'.content = f c.content ∧ Succeeds R b c c') n.children cs) :
    m = n ∨ (b ≤ m.label.stamp ∧ R n.content m.content ∧ m.content.children ≠ n.content.children) := by
  have hmk := h.content (hcs.imp fun _ _ hc => hc.1)
  cases h with
  | kept => exact Or.inl rfl
  | rebuilt stamp hne hlen hb =>
    have hchild : ∀ c ∈ n.content.children, f c = c ∨ R c (f c) := by
      intro t ht
      obtain ⟨c, hc, rfl⟩ := List.mem_map.1 (n.children_content ▸ ht)
      obtain ⟨c', -, hcontent, hsucc⟩ := exists_right_of_forall₂ hcs c hc
      rcases hsucc with rfl | ⟨-, -, hr⟩
      · exact Or.inl hcontent.symm
      · exact Or.inr (hcontent ▸ hr)
    -- Some child is another object, and with that it has another content.
    have hsome : ∃ c ∈ n.content.children, f c ≠ c := by
      obtain ⟨c, hc, c', ⟨hcontent, hsucc⟩, hcc⟩ := exists_ne_of_forall₂ hcs hne
      refine ⟨Node.content c, by rw [children_content]; exact List.mem_map_of_mem hc, ?_⟩
      rcases hsucc with h | ⟨-, -, hr⟩
      · exact absurd h hcc
      · intro heq
        rw [hcontent, heq] at hr
        exact hR.irrefl _ hr
    refine Or.inr ⟨hb, ?_, ?_⟩
    · rw [hmk]
      conv => lhs; rw [← Labelled.mk_label_shape n.content]
      exact hR.node _ _ f hchild hsome
    · rw [hmk, Labelled.children_mk, Shape.children_map]
      obtain ⟨c, hc, hfc⟩ := hsome
      intro heq
      exact hfc (List.map_eq_map_iff.1 (heq.trans (List.map_id _).symm) c hc)

/-- **The walk keeps the sharing.** Children that share with the old ones make a node that shares
with the old node. -/
theorem Walked.shares (hR : Lifts R) (h : Walked b n cs m)
    (hcs : List.Forall₂ (fun c c' : Node => c'.content = f c.content ∧ Shares R b c c') n.children cs) :
    Shares R b n m := by
  have hroot : Succeeds R b n m := by
    rcases h.lifts hR (hcs.imp fun _ _ hc => ⟨hc.1, hc.2.root⟩) with hm | ⟨hb, hr, -⟩
    · exact Or.inl hm
    · exact Or.inr ⟨hb, h.id, hr⟩
  refine ⟨hroot, fun o ho => ?_⟩
  rcases Labelled.mem_descendants.1 ho with rfl | ⟨c', hc', hoc⟩
  · exact ⟨n, Labelled.self_mem_descendants n, hroot⟩
  · rw [h.children] at hc'
    obtain ⟨c, hc, -, hshares⟩ := exists_left_of_forall₂ hcs c' hc'
    obtain ⟨i, hi, hio⟩ := hshares.below o hoc
    exact ⟨i, Labelled.mem_descendants.2 (Or.inr ⟨c, hc, hi⟩), hio⟩

/-- A change of the node alone, after the walk, keeps the sharing too. -/
theorem Walked.shares_edited {change : List Tree → Tree → Tree} {k : Node} (hR : Detects R change)
    (path : List Tree) (h : Walked b n cs m)
    (hcs : List.Forall₂ (fun c c' : Node => c'.content = f c.content ∧ Shares R b c c') n.children cs)
    (hk : k.content = change path m.content) (hedited : Edited b m k) : Shares R b n k := by
  have hshares := h.shares hR.lifts hcs
  rcases hedited with rfl | ⟨hb, hid, hchildren, hcontent⟩
  · exact hshares
  · have hroot : Succeeds R b n k := by
      refine Or.inr ⟨hb, hid.trans h.id, ?_⟩
      rw [hk] at hcontent ⊢
      refine hR.step path n.content m.content ?_ hcontent ?_
      · rcases h.lifts hR.lifts (hcs.imp fun _ _ hc => ⟨hc.1, hc.2.root⟩) with rfl | ⟨-, hr, hne⟩
        · exact Or.inl rfl
        · exact Or.inr ⟨hr, hne⟩
      · rw [← hk, children_content, children_content, hchildren]
    refine ⟨hroot, fun o ho => ?_⟩
    rcases Labelled.mem_descendants.1 ho with rfl | ⟨c', hc', hoc⟩
    · exact ⟨n, Labelled.self_mem_descendants n, hroot⟩
    · rw [hchildren] at hc'
      exact hshares.below o (Labelled.mem_descendants.2 (Or.inr ⟨c', hc', hoc⟩))

end Walk

end Node

end Refactor
