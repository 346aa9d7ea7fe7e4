import Refactor.Proofs.Recipe.Gates

/-!
# Removing parentheses: meaning

Parentheses matter around an operand that would bind no tighter than its operator. A pass leaves
everything but parentheses as it is (`withoutParentheses_rewrite`), exposes no operand that was not
exposed before (`exists_origin`), and leaves no parentheses that do not matter
(`pass_preserves_meaning`).
-/

namespace Refactor

/-- An expression that cannot be an operand as it is: neither in parentheses, nor a name, a literal, a
call, an access or a creation. -/
def Kind.isBare (k : Kind) : Bool :=
  k ∉ [.parenthesized, .identifier, .literal, .methodInvocation, .fieldAccess, .newClass]

theorem Kind.isPrimary_eq (k : Kind) : k.isPrimary = !k.isBare := by
  cases k <;> decide

namespace Shape

variable {α β : Type}

/-- The children that stand where the layer takes operands. -/
def operands : Shape α → List α
  | binary _ left right => [left, right]
  | unary _ operand => [operand]
  | fieldAccess target _ => [target]
  | methodInvocation (some select) .. => [select]
  | _ => []

@[simp] theorem operands_map (f : α → β) (s : Shape α) : (s.map f).operands = s.operands.map f := by
  cases s with
  | methodInvocation select => cases select <;> rfl
  | _ => rfl

end Shape

namespace UnwrapParentheses

/-! ### Operands -/

theorem isOperand_of_mem {t c : Tree} (h : c ∈ t.shape.operands) : isOperand c.label.id t = true := by
  obtain ⟨l, s⟩ := t
  cases s with
  | methodInvocation select =>
    cases select with
    | none => cases h
    | some select =>
      obtain rfl := List.mem_singleton.1 h
      exact decide_eq_true rfl
  | binary | unary | fieldAccess => rfl
  | _ => cases h

/-- With distinct ids, a child that is taken for an operand is one. -/
theorem mem_operands {t c : Tree} (hnodup : t.ids.Nodup) (hc : c ∈ t.children)
    (h : isOperand c.label.id t = true) : c ∈ t.shape.operands := by
  obtain ⟨l, s⟩ := t
  cases s with
  | methodInvocation select name args methodType =>
    cases select with
    | none => cases h
    | some select =>
      have hselect : select ∈ Labelled.children (.mk l (.methodInvocation (some select) name args methodType)) := by
        simp [Shape.children]
      have hid : select.label.id = c.label.id := of_decide_eq_true h
      have heq : select = c := Tree.eq_of_id hnodup (Labelled.mem_descendants_of_child hselect)
        (Labelled.mem_descendants_of_child hc) hid
      exact List.mem_singleton.2 heq.symm
  | binary | unary | fieldAccess => simpa [Shape.children, Shape.operands] using hc
  | _ => cases h

/-- Parentheses around an operand stay if what is in them is bare, and only then. -/
theorem change_operand {path : List Tree} {l : Header} {expr : Tree}
    (h : path.tail.head?.any (isOperand l.id) = true) :
    change path (.mk l (.parenthesized expr)) =
      if expr.kind.isBare then .mk l (.parenthesized expr) else led l.leading expr := by
  simp only [change, Labelled.shape_mk, Labelled.label_mk, h, Bool.true_and, Kind.isPrimary_eq,
    Bool.not_not]

/-- An operand is bare after it has been rewritten exactly if it was before. -/
theorem isBare_rewrite {parent t : Tree} {above : List Tree} (h : t ∈ parent.shape.operands) :
    (Tree.rewrite change t (parent :: above)).kind.isBare = t.kind.isBare := by
  have hoperand := isOperand_of_mem h
  obtain ⟨l, s⟩ := t
  rw [Tree.rewrite_eq]
  by_cases hkind : s.kind = .parenthesized
  · obtain ⟨expr, rfl⟩ := Shape.eq_parenthesized hkind
    rw [Tree.rewriteBelow, Labelled.shape_mk, Shape.map_parenthesized, Labelled.label_mk,
      change_operand (by simpa using hoperand)]
    split
    · rfl
    · next hbare => exact Bool.eq_false_iff.2 hbare
  · rw [change_of_kind (by rwa [Tree.kind_rewriteBelow]), Tree.kind_rewriteBelow]

/-! ### All but the parentheses -/

/-- The tree with what is in parentheses in their place, and no white space. -/
def withoutParentheses (t : Tree) : Tree :=
  t.fold fun t s =>
    match s with
    | .parenthesized expr => expr
    | s => .mk { t.label with leading := "" } s

theorem withoutParentheses_parenthesized (l : Header) (expr : Tree) :
    withoutParentheses (.mk l (.parenthesized expr)) = withoutParentheses expr := by
  unfold withoutParentheses
  rw [Labelled.fold_mk]
  rfl

theorem withoutParentheses_of_kind {l : Header} {s : Shape Tree} (h : s.kind ≠ .parenthesized) :
    withoutParentheses (.mk l s) = .mk { l with leading := "" } (s.map withoutParentheses) := by
  unfold withoutParentheses
  rw [Labelled.fold_mk]
  cases s with
  | parenthesized => exact absurd rfl h
  | _ => rfl

theorem withoutParentheses_congr {l : Header} {s : Shape Tree} {f : Tree → Tree}
    (h : ∀ c ∈ s.children, withoutParentheses (f c) = withoutParentheses c) :
    withoutParentheses (.mk l (s.map f)) = withoutParentheses (.mk l s) := by
  by_cases hkind : s.kind = .parenthesized
  · obtain ⟨expr, rfl⟩ := Shape.eq_parenthesized hkind
    rw [Shape.map_parenthesized, withoutParentheses_parenthesized, withoutParentheses_parenthesized]
    exact h expr (by simp [Shape.children])
  · rw [withoutParentheses_of_kind hkind, withoutParentheses_of_kind (by rwa [Shape.kind_map]),
      Shape.map_map, Shape.map_congr h]

theorem withoutParentheses_led (leading : String) (t : Tree) :
    withoutParentheses (led leading t) = withoutParentheses t := by
  obtain ⟨l, s⟩ := t
  by_cases hkind : s.kind = .parenthesized
  · obtain ⟨expr, rfl⟩ := Shape.eq_parenthesized hkind
    rw [led, Labelled.shape_mk, withoutParentheses_parenthesized, withoutParentheses_parenthesized]
  · rw [led, Labelled.shape_mk, withoutParentheses_of_kind hkind, withoutParentheses_of_kind hkind]
    rfl

theorem withoutParentheses_change (path : List Tree) (t : Tree) :
    withoutParentheses (change path t) = withoutParentheses t := by
  obtain ⟨l, s⟩ := t
  by_cases hkind : s.kind = .parenthesized
  · obtain ⟨expr, rfl⟩ := Shape.eq_parenthesized hkind
    rcases change_parenthesized path l expr with ⟨-, h⟩ | h
    · rw [h]
    · rw [h, withoutParentheses_led, withoutParentheses_parenthesized]
  · rw [change_of_kind (t := .mk l s) hkind]

/-- **All but the parentheses stays.** -/
theorem withoutParentheses_rewrite (t : Tree) (above : List Tree) :
    withoutParentheses (Tree.rewrite change t above) = withoutParentheses t := by
  induction t using Labelled.ind generalizing above with
  | node l s ih =>
    rw [Tree.rewrite_eq, withoutParentheses_change]
    exact withoutParentheses_congr fun c hc => ih c hc _

/-! ### No operand is exposed -/

/-- The node is what has become of the origin, and its operands are bare where those of the origin
were. -/
structure Survives (origin t : Tree) : Prop where
  id : t.label.id = origin.label.id
  kind : t.kind = origin.kind
  operands : t.shape.operands.map (·.kind.isBare) = origin.shape.operands.map (·.kind.isBare)

theorem survives_rewriteBelow (t : Tree) (above : List Tree) :
    Survives t (Tree.rewriteBelow change t above) where
  id := rfl
  kind := Tree.kind_rewriteBelow t above
  operands := by
    rw [Tree.shape_rewriteBelow, Shape.operands_map, List.map_map]
    exact List.map_congr_left fun c hc => isBare_rewrite hc

/-- What has an origin still has one when parentheses at the root are removed. -/
theorem exists_origin_change {path : List Tree} {t : Tree} {origins : List Tree}
    (h : ∀ d ∈ t.descendants, ∃ origin ∈ origins, Survives origin d) :
    ∀ d ∈ (change path t).descendants, ∃ origin ∈ origins, Survives origin d := by
  obtain ⟨l, s⟩ := t
  by_cases hkind : s.kind = .parenthesized
  · obtain ⟨expr, rfl⟩ := Shape.eq_parenthesized hkind
    rcases change_parenthesized path l expr with ⟨-, heq⟩ | heq
    · rwa [heq]
    · rw [heq]
      have hexpr : ∀ d ∈ expr.descendants, ∃ origin ∈ origins, Survives origin d := fun d hd =>
        h d (Labelled.mem_descendants.2 (Or.inr ⟨expr, by simp [Shape.children], hd⟩))
      intro d hd
      rcases Labelled.mem_descendants.1 hd with rfl | ⟨c, hc, hd⟩
      · -- The root is what was in the parentheses, with other white space.
        obtain ⟨origin, horigin, hsurvives⟩ := hexpr expr (Labelled.self_mem_descendants _)
        exact ⟨origin, horigin, hsurvives.id, hsurvives.kind, hsurvives.operands⟩
      · exact hexpr d (Labelled.mem_descendants.2 (Or.inr ⟨c, hc, hd⟩))
  · rwa [change_of_kind (t := .mk l s) hkind]

/-- **No operand is exposed.** Every node of the result is what has become of a node of the tree. -/
theorem exists_origin (t : Tree) (above : List Tree) :
    ∀ d ∈ (Tree.rewrite change t above).descendants, ∃ origin ∈ t.descendants, Survives origin d := by
  induction t using Labelled.ind generalizing above with
  | node l s ih =>
    rw [Tree.rewrite_eq]
    refine exists_origin_change fun d hd => ?_
    rcases Labelled.mem_descendants.1 hd with rfl | ⟨c', hc', hd⟩
    · exact ⟨_, Labelled.self_mem_descendants _, survives_rewriteBelow _ _⟩
    · rw [Tree.children_rewriteBelow] at hc'
      obtain ⟨c, hc, rfl⟩ := List.mem_map.1 hc'
      obtain ⟨origin, horigin, hsurvives⟩ := ih c hc _ d hd
      exact ⟨origin, Labelled.mem_descendants.2 (Or.inr ⟨c, hc, horigin⟩), hsurvives⟩

/-! ### What a pass does -/

/-- **Only what matters is left.** -/
theorem needed_of_mem_rewrite {t p : Tree} (hnodup : t.ids.Nodup)
    (hnodup' : (Tree.rewrite change t []).ids.Nodup) (hp : p ∈ (Tree.rewrite change t []).descendants)
    (hkind : p.kind = .parenthesized) :
    ∃ parent ∈ (Tree.rewrite change t []).descendants, p ∈ parent.shape.operands ∧
      ∃ expr, p.shape = .parenthesized expr ∧ expr.kind.isBare = true := by
  obtain ⟨hsettled, hroot⟩ := settled_rewrite t [] hnodup
  obtain ⟨expr, hexpr⟩ := Shape.eq_parenthesized hkind
  rcases Labelled.exists_parent hp with rfl | ⟨parent, hparent, hchild⟩
  · have hsentinel := (hroot expr hexpr).2.1
    simp at hsentinel
  · obtain ⟨hoperand, hprimary⟩ := hsettled parent hparent p hchild expr hexpr
    refine ⟨parent, hparent, mem_operands (Tree.nodup_of_mem hnodup' hparent) hchild hoperand, expr,
      hexpr, ?_⟩
    rwa [Kind.isPrimary_eq, Bool.not_eq_false'] at hprimary

/-- **Parentheses that do not matter, and no others.** A pass succeeds. All but the parentheses and the
white space is what it was; every node that is left has bare operands where it had them before; and the
parentheses that are left are around operands that would be bare. -/
theorem pass_preserves_meaning (e : Engine) (n : Node) (cycle : Nat) (session : Session)
    (hvalid : n.slotValid) (hids : n.content.ids.Nodup) (hn : n.Predates session.supply.stamp) :
    ∃ m c, runPass (e.fuel n) recipe.gatedVisitor n (e.context recipe cycle session) = .done m c ∧
      withoutParentheses m.content = withoutParentheses n.content ∧
      (∀ t ∈ m.content.descendants, ∃ origin ∈ n.content.descendants, Survives origin t) ∧
      ∀ p ∈ m.content.descendants, p.kind = .parenthesized →
        ∃ parent ∈ m.content.descendants, p ∈ parent.shape.operands ∧
          ∃ expr, p.shape = .parenthesized expr ∧ expr.kind.isBare = true := by
  obtain ⟨m, c, hm, -, -, hcontent, hkeeps⟩ :=
    StockRecipe.unwrapParentheses.pass_yields e n cycle session hvalid hn
  have hungated := (StockRecipe.unwrapParentheses.rewritten_eq_rewrite_iff e.hierarchy n.content).2
    fun h => h.2
  have hcontent : m.content = Tree.rewrite change n.content [] := hcontent.trans hungated
  have hids' : (Tree.rewrite change n.content []).ids.Nodup :=
    hcontent ▸ Unwraps.nodup hkeeps hids
  refine ⟨m, c, hm, ?_⟩
  rw [hcontent]
  exact ⟨withoutParentheses_rewrite _ _, exists_origin _ _,
    fun p => needed_of_mem_rewrite hids hids'⟩

/-- `return (2) * ((a + b))` -/
def product : Draft :=
  .mk { id := some (.given 1) } (.returnStmt (some (.mk { id := some (.given 2) } (.binary .mul
    (.mk { id := some (.given 3) } (.parenthesized
      (.mk { id := some (.given 4) } (.literal (.int 2)))))
    (.mk { id := some (.given 5) } (.parenthesized
      (.mk { id := some (.given 6) } (.parenthesized
        (.mk { id := some (.given 7) } (.binary .add
          (.mk { id := some (.given 8) } (.identifier "a"))
          (.mk { id := some (.given 9) } (.identifier "b"))))))))))))

/-- Some of the parentheses here matter, and some do not. -/
theorem pass_preserves_meaning_product :
    product.placed.1.slotValid = true ∧ product.placed.1.content.ids.Nodup ∧
      ∃ m c, runPass (Engine.fuel {} product.placed.1) recipe.gatedVisitor product.placed.1
          (Engine.context {} recipe 1 product.placed.2) = .done m c ∧
        withoutParentheses m.content = withoutParentheses product.placed.1.content ∧
        (∀ t ∈ m.content.descendants, ∃ origin ∈ product.placed.1.content.descendants,
          Survives origin t) ∧
        ∀ p ∈ m.content.descendants, p.kind = .parenthesized →
          ∃ parent ∈ m.content.descendants, p ∈ parent.shape.operands ∧
            ∃ expr, p.shape = .parenthesized expr ∧ expr.kind.isBare = true := by
  have hvalid : product.placed.1.slotValid = true := by decide
  have hids : product.placed.1.content.ids.Nodup := by decide
  exact ⟨hvalid, hids, pass_preserves_meaning {} product.placed.1 1 product.placed.2 hvalid hids
    product.placed_predates⟩

end UnwrapParentheses

end Refactor
