import Refactor.Proofs.Visit.Local
import Refactor.Recipe.Parentheses

/-!
# Removing parentheses: content

The visitor puts the inner expression in place of parentheses that do not matter. What is left is
settled: the parentheses that are still there have to be (`settled_rewrite`), so a second pass finds
nothing to do.
-/

namespace Refactor

theorem Shape.eq_parenthesized {α : Type} {s : Shape α} (h : s.kind = .parenthesized) :
    ∃ expr, s = .parenthesized expr := by
  cases s with
  | parenthesized expr => exact ⟨expr, rfl⟩
  | _ => cases h

namespace UnwrapParentheses

/-- The expression with the white space that was before the parentheses. -/
def led (leading : String) (t : Tree) : Tree := .mk { t.label with leading } t.shape

/-- What the visitor makes of a node. -/
def change (path : List Tree) (t : Tree) : Tree :=
  match t.shape with
  | .parenthesized expr =>
    if path.tail.head?.any (isOperand t.label.id) && !expr.kind.isPrimary then t
    else led t.label.leading expr
  | _ => t

theorem change_of_kind {path : List Tree} {t : Tree} (h : t.kind ≠ .parenthesized) :
    change path t = t := by
  obtain ⟨l, s⟩ := t
  cases s with
  | parenthesized => exact absurd rfl h
  | _ => rfl

/-- The parentheses have to stay or can go. -/
theorem change_parenthesized (path : List Tree) (l : Header) (expr : Tree) :
    ((path.tail.head?.any (isOperand l.id) = true ∧ expr.kind.isPrimary = false) ∧
        change path (.mk l (.parenthesized expr)) = .mk l (.parenthesized expr)) ∨
      change path (.mk l (.parenthesized expr)) = led l.leading expr := by
  cases hkeep : path.tail.head?.any (isOperand l.id) && !expr.kind.isPrimary with
  | true =>
    refine Or.inl ⟨by simpa using hkeep, ?_⟩
    simp only [change, Labelled.shape_mk, Labelled.label_mk, hkeep, if_true]
  | false =>
    refine Or.inr ?_
    simp only [change, Labelled.shape_mk, Labelled.label_mk, hkeep, Bool.false_eq_true, if_false]

/-- Parentheses are no parent that takes operands. -/
theorem isOperand_eq_false {id : NodeId} {parent : Tree} (h : parent.kind = .parenthesized) :
    isOperand id parent = false := by
  obtain ⟨l, s⟩ := parent
  cases s with
  | parenthesized => rfl
  | _ => cases h

/-! ### Slots -/

/-- Where parentheses can stand any expression can. -/
theorem accepts_of_parenthesized {slot : Slot} {kind : Kind} (h : slot.accepts .parenthesized)
    (hkind : kind.isExpression) : slot.accepts kind := by
  cases slot with
  | expression => exact hkind
  | statement =>
    unfold Slot.accepts Kind.isStatement
    cases kind <;> first | rfl | exact hkind
  | _ => cases h

theorem change_slotSafe : Tree.SlotSafe change := by
  rintro path ⟨l, s⟩ ht
  cases s with
  | parenthesized expr =>
    have hexpr := Labelled.slotValid_iff.1 ht (.expression, expr) (by simp [Shape.slotted])
    rcases change_parenthesized path l expr with ⟨-, h⟩ | h
    · rw [h]
      exact ⟨ht, fun _ h => h⟩
    · rw [h]
      refine ⟨Labelled.slotValid_iff.2 ?_, fun slot hacc => accepts_of_parenthesized hacc hexpr.1⟩
      exact (Labelled.slotValid_iff (t := expr)).1 hexpr.2
  | _ => exact ⟨ht, fun _ h => h⟩

/-! ### What is left -/

/-- Right inside parentheses no parentheses are left. -/
theorem kind_rewrite_ne {p : Tree} (hp : p.kind = .parenthesized) (t : Tree) (above : List Tree) :
    (Tree.rewrite change t (p :: above)).kind ≠ .parenthesized := by
  induction t using Labelled.ind generalizing p above with
  | node l s ih =>
    rw [Tree.rewrite_eq]
    by_cases hkind : s.kind = .parenthesized
    · obtain ⟨expr, rfl⟩ := Shape.eq_parenthesized hkind
      rcases change_parenthesized (.mk l (.parenthesized expr) :: p :: above) l
        (Tree.rewrite change expr (.mk l (.parenthesized expr) :: p :: above)) with ⟨⟨h, -⟩, -⟩ | h
      · simp [isOperand_eq_false hp] at h
      · rw [Tree.rewriteBelow, Labelled.shape_mk, Shape.map_parenthesized, Labelled.label_mk, h]
        exact ih expr (by simp [Shape.children]) rfl _
    · have hbelow : (Tree.rewriteBelow change (.mk l s) (p :: above)).kind = s.kind :=
        Tree.kind_rewriteBelow _ _
      rw [change_of_kind (by rwa [hbelow]), hbelow]
      exact hkind

/-- Parentheses that have to stay, if the child is any. -/
def Needed (parent child : Tree) : Prop :=
  ∀ expr, child.shape = .parenthesized expr →
    isOperand child.label.id parent = true ∧ expr.kind.isPrimary = false

/-- All the parentheses below the root have to stay. -/
def Settled (t : Tree) : Prop := ∀ d ∈ t.descendants, ∀ c ∈ d.children, Needed d c

theorem settled_iff {t : Tree} :
    Settled t ↔ (∀ c ∈ t.children, Needed t c) ∧ ∀ c ∈ t.children, Settled c := by
  unfold Settled
  constructor
  · intro h
    refine ⟨h t (Labelled.self_mem_descendants t), fun c hc d hd => h d ?_⟩
    exact Labelled.mem_descendants.2 (Or.inr ⟨c, hc, hd⟩)
  · rintro ⟨hself, hbelow⟩ d hd
    rcases Labelled.mem_descendants.1 hd with rfl | ⟨c, hc, hdc⟩
    · exact hself
    · exact hbelow c hc d hdc

/-- A child that is an operand stays one when the tree around it is rewritten. -/
theorem isOperand_map {l : Header} {s : Shape Tree} {f : Tree → Tree} {c : Tree}
    (hnodup : (Tree.ids (.mk l s)).Nodup) (hc : c ∈ s.children) (hid : (f c).label.id = c.label.id)
    (h : isOperand c.label.id (.mk l s) = true) :
    isOperand (f c).label.id (.mk l (s.map f)) = true := by
  cases s with
  | methodInvocation select name args methodType =>
    cases select with
    | none => cases h
    | some select =>
      -- By its id the child is the select, and no argument.
      have hsel : select.label.id = c.label.id := by simpa [isOperand] using h
      have heq : select = c := by
        refine Tree.eq_of_id hnodup ?_ ?_ hsel
        · exact Labelled.mem_descendants_of_child (by simp [Shape.children])
        · exact Labelled.mem_descendants_of_child hc
      subst heq
      simp [isOperand]
  | binary | unary | fieldAccess => rfl
  | _ => cases h

/-- **The result is settled.** The parentheses left below the root have to stay, and so does the root
if it is one. -/
theorem settled_rewrite (t : Tree) (above : List Tree) (hnodup : t.ids.Nodup) :
    Settled (Tree.rewrite change t above) ∧
      ∀ expr, (Tree.rewrite change t above).shape = .parenthesized expr →
        (Tree.rewrite change t above).label.id = t.label.id ∧
          above.head?.any (isOperand t.label.id) = true ∧ expr.kind.isPrimary = false := by
  induction t using Labelled.ind generalizing above with
  | node l s ih =>
    let f := fun c => Tree.rewrite change c (.mk l s :: above)
    have hkids : ∀ c ∈ s.children, (Tree.ids c).Nodup := fun c hc =>
      Tree.nodup_of_mem hnodup (Labelled.mem_descendants_of_child hc)
    have hbelow : Settled (.mk l (s.map f)) := by
      refine settled_iff.2 ⟨fun c' hc' expr hexpr => ?_, fun c' hc' => ?_⟩ <;>
        rw [Labelled.children_mk, Shape.children_map] at hc' <;>
        obtain ⟨c, hc, rfl⟩ := List.mem_map.1 hc' <;>
        obtain ⟨hsettled, hroot⟩ := ih c hc (.mk l s :: above) (hkids c hc)
      · obtain ⟨hid, hoperand, hprimary⟩ := hroot expr hexpr
        exact ⟨isOperand_map hnodup hc hid (by simpa using hoperand), hprimary⟩
      · exact hsettled
    have heq : Tree.rewrite change (.mk l s) above = change (.mk l s :: above) (.mk l (s.map f)) :=
      Tree.rewrite_eq _ _
    rw [heq]
    by_cases hkind : s.kind = .parenthesized
    · obtain ⟨expr, rfl⟩ := Shape.eq_parenthesized hkind
      have hmap : (Shape.parenthesized expr).map f = .parenthesized (f expr) := Shape.map_parenthesized ..
      rw [hmap] at hbelow ⊢
      rcases change_parenthesized (.mk l (.parenthesized expr) :: above) l (f expr) with
        ⟨⟨hoperand, hprimary⟩, h⟩ | h
      · -- The parentheses stay, as they have to.
        rw [h]
        refine ⟨hbelow, fun e he => ⟨rfl, by simpa using hoperand, ?_⟩⟩
        cases he
        exact hprimary
      · -- What was inside takes their place, and is not in parentheses itself.
        rw [h]
        have hchild : Settled (f expr) :=
          (settled_iff.1 hbelow).2 _ (by simp [Shape.children])
        refine ⟨settled_iff.2 ⟨?_, (settled_iff.1 hchild).2⟩, fun e he => ?_⟩
        · exact fun c hc e he => (settled_iff.1 hchild).1 c hc e he
        · refine absurd ?_ (kind_rewrite_ne (p := .mk l (.parenthesized expr)) rfl expr above)
          exact congrArg Shape.kind he
    · have hkind' : (Labelled.mk l (s.map f) : Tree).kind ≠ .parenthesized := by simpa using hkind
      rw [change_of_kind hkind']
      refine ⟨hbelow, fun e he => absurd ?_ hkind'⟩
      exact congrArg Shape.kind he

theorem rewrite_eq_self_of_settled {t : Tree} (hsettled : Settled t)
    (hroot : t.kind ≠ .parenthesized) : Tree.rewrite change t [] = t := by
  refine Tree.rewrite_eq_self (P := fun above t => Settled t ∧
    ∀ expr, t.shape = .parenthesized expr →
      above.head?.any (isOperand t.label.id) = true ∧ expr.kind.isPrimary = false) ?_ ?_ t [] ⟨hsettled, ?_⟩
  · rintro above t ⟨hsettled, -⟩ c hc
    obtain ⟨hneeded, hbelow⟩ := settled_iff.1 hsettled
    exact ⟨hbelow c hc, fun expr hexpr => by simpa using hneeded c hc expr hexpr⟩
  · rintro above ⟨l, s⟩ ⟨-, hneeded⟩
    by_cases hkind : s.kind = .parenthesized
    · obtain ⟨expr, rfl⟩ := Shape.eq_parenthesized hkind
      obtain ⟨hoperand, hprimary⟩ := hneeded expr rfl
      rw [Labelled.label_mk] at hoperand
      simp [change, hoperand, hprimary]
    · exact change_of_kind hkind
  · intro expr h
    exact absurd (congrArg Shape.kind h) hroot

/-- **A second pass finds nothing to do.** -/
theorem rewrite_rewrite (t : Tree) (hnodup : t.ids.Nodup) :
    Tree.rewrite change (Tree.rewrite change t []) [] = Tree.rewrite change t [] := by
  obtain ⟨hsettled, hroot⟩ := settled_rewrite t [] hnodup
  refine rewrite_eq_self_of_settled hsettled fun hkind => ?_
  obtain ⟨expr, hexpr⟩ := Shape.eq_parenthesized hkind
  simpa using (hroot expr hexpr).2.1

end UnwrapParentheses

end Refactor
