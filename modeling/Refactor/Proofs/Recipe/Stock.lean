import Refactor.Engine
import Refactor.Proofs.Recipe.Fields
import Refactor.Proofs.Recipe.Methods
import Refactor.Proofs.Recipe.Packages
import Refactor.Proofs.Recipe.ParenthesesObjects
import Refactor.Proofs.Recipe.Variables
import Refactor.Proofs.Visit.Pass
import Refactor.Recipe.Stock

/-!
# The passes of the stock recipes

What one pass of each of the stock recipes makes of a tree: of its content (`StockRecipe.rewritten`),
and of its objects (`StockRecipe.Keeps`). A pass always succeeds, and it comes back with another root
exactly if the content is another (`Keeps.same_iff`).
-/

namespace Refactor

namespace StockRecipe

/-- What the visitor of the recipe makes of the content of a node. -/
def change (r : StockRecipe) (h : Hierarchy) : List Tree → Tree → Tree :=
  match r with
  | changeFieldVisibility v => ChangeFieldVisibility.change v
  | renameVariable declaration newName => RenameVariable.change declaration newName
  | findMethods pattern => FindMethods.change r.recipe.id h pattern
  | changeMethodName pattern newName => ChangeMethodName.change h pattern newName
  | changePackage matcher newPackage => ChangePackage.change matcher newPackage
  | unwrapParentheses => UnwrapParentheses.change

/-- What a pass of the recipe makes of the content of a tree. -/
def rewritten (r : StockRecipe) (h : Hierarchy) (t : Tree) : Tree :=
  if r.recipe.applies h t then Tree.rewrite (r.change h) t [] else t

/-- What has become of the objects of a tree after a pass of the recipe. -/
def Keeps (r : StockRecipe) (b : Nat) (n m : Node) : Prop :=
  match r with
  | unwrapParentheses => UnwrapParentheses.Unwraps b n m
  | _ => Node.Shares (· ≠ ·) b n m

theorem Keeps.shares_or_unwraps {r : StockRecipe} {b : Nat} {n m : Node} (h : r.Keeps b n m) :
    (r ≠ unwrapParentheses ∧ Node.Shares (· ≠ ·) b n m) ∨
      (r = unwrapParentheses ∧ UnwrapParentheses.Unwraps b n m) := by
  cases r with
  | unwrapParentheses => exact Or.inr ⟨rfl, h⟩
  | _ => exact Or.inl ⟨by rintro ⟨⟩, h⟩

theorem Keeps.refl (r : StockRecipe) (b : Nat) (n : Node) : r.Keeps b n n := by
  cases r with
  | unwrapParentheses => exact UnwrapParentheses.Unwraps.refl n
  | _ => exact Node.Shares.refl n

theorem change_slotSafe (r : StockRecipe) (h : Hierarchy) : Tree.SlotSafe (r.change h) := by
  cases r with
  | changeFieldVisibility v => exact (ChangeFieldVisibility.change_inPlace v).slotSafe
  | renameVariable declaration new => exact RenameVariable.change_slotSafe declaration new
  | findMethods pattern => exact (FindMethods.change_inPlace _ h pattern).slotSafe
  | changeMethodName pattern new => exact (ChangeMethodName.change_inPlace h pattern new).slotSafe
  | changePackage matcher new => exact (ChangePackage.change_inPlace matcher new).slotSafe
  | unwrapParentheses => exact UnwrapParentheses.change_slotSafe

theorem slotValid_of_rewritten (r : StockRecipe) {h : Hierarchy} {n m : Node}
    (hm : m.content = r.rewritten h n.content) (hvalid : n.slotValid) : m.slotValid := by
  rw [← Node.slotValid_content] at hvalid ⊢
  rw [hm, rewritten]
  split
  · exact (Tree.slotValid_rewrite (r.change_slotSafe h) _ [] hvalid).1
  · exact hvalid

/-! ### A pass -/

theorem visit_local_yields {r : StockRecipe} {σ : Setting} {change : List Tree → Tree → Tree}
    {finish : Place → Script Visitor}
    (hvisitor : ∃ name s, r.recipe.visitor = .plain name s ∧ s.WalksThen finish)
    (hfinish : Script.Changes σ change finish) (hchange : Tree.InPlace change) {n : Node} {fuel : Nat}
    {c : Context} (hvalid : n.slotValid) (hn : n.Predates σ.bound) (hfuel : n.height ≤ fuel)
    (hc : c.In σ) :
    (visit fuel r.recipe.visitor n).Yields c fun m =>
      m.content = Tree.rewrite change n.content c.cursor.path ∧ Node.Shares (· ≠ ·) σ.bound n m := by
  obtain ⟨name, s, hplain, hs⟩ := hvisitor
  rw [hplain]
  exact visit_edits hs hfinish hchange.slotSafe (Node.detects_ne change) n fuel c hvalid hn hfuel hc

/-- The visitor of a stock recipe rewrites the content of the tree as `change` says. -/
theorem visit_yields (r : StockRecipe) {σ : Setting} {n : Node} {fuel : Nat} {c : Context}
    (hvalid : n.slotValid) (hn : n.Predates σ.bound) (hfuel : n.height + 1 ≤ fuel) (hc : c.In σ)
    (hsource : σ.source = r.recipe.id) :
    (visit fuel r.recipe.visitor n).Yields c fun m =>
      m.content = Tree.rewrite (r.change σ.hierarchy) n.content c.cursor.path ∧
        r.Keeps σ.bound n m := by
  have hheight : n.height ≤ fuel := by omega
  cases r with
  | changeFieldVisibility v =>
    exact visit_local_yields (r := .changeFieldVisibility v)
      (ChangeFieldVisibility.visitor_walksThen v) (ChangeFieldVisibility.finish_changes v σ)
      (ChangeFieldVisibility.change_inPlace v) hvalid hn hheight hc
  | renameVariable declaration new =>
    -- The one visitor that leaves another behind.
    refine (RenameVariable.visit_renames declaration new n fuel c hvalid hn hfuel hc).imp ?_
    exact fun m hm => ⟨hm.1, hm.2.imp fun t t' h heq => (RenameVariable.lifts_named new).irrefl t (heq ▸ h)⟩
  | findMethods pattern =>
    -- The marker bears the id of the recipe, which is the source of the context.
    have h := visit_local_yields (r := .findMethods pattern) (FindMethods.visitor_walksThen pattern)
      (FindMethods.finish_changes pattern σ) (FindMethods.change_inPlace σ.source σ.hierarchy pattern)
      hvalid hn hheight hc
    rwa [hsource] at h
  | changeMethodName pattern new =>
    exact visit_local_yields (r := .changeMethodName pattern new)
      (ChangeMethodName.visitor_walksThen pattern new) (ChangeMethodName.finish_changes pattern new σ)
      (ChangeMethodName.change_inPlace σ.hierarchy pattern new) hvalid hn hheight hc
  | changePackage matcher new =>
    exact visit_local_yields (r := .changePackage matcher new)
      (ChangePackage.visitor_walksThen matcher new) (ChangePackage.finish_changes matcher new σ)
      (ChangePackage.change_inPlace matcher new) hvalid hn hheight hc
  | unwrapParentheses => exact UnwrapParentheses.visit_unwraps n fuel c hvalid hn hheight hc

/-- The recipe is behind a gate, or always applies. -/
theorem gated_or_applies (r : StockRecipe) :
    r.recipe.gatedVisitor = .gated r.recipe.precondition r.recipe.visitor ∨
      r.recipe.gatedVisitor = r.recipe.visitor ∧ ∀ h t, r.recipe.applies h t = true := by
  cases r with
  | renameVariable => exact Or.inr ⟨rfl, fun _ _ => rfl⟩
  | _ => exact Or.inl rfl

/-- **A pass of a stock recipe.** It succeeds, leaves the session in order, and makes of the tree what
`rewritten` and `Keeps` say. -/
theorem pass_yields (r : StockRecipe) (e : Engine) (n : Node) (cycle : Nat) (session : Session)
    (hvalid : n.slotValid) (hn : n.Predates session.supply.stamp) :
    (runPass (e.fuel n) r.recipe.gatedVisitor n).Yields (e.context r.recipe cycle session) fun m =>
      m.content = r.rewritten e.hierarchy n.content ∧ r.Keeps session.supply.stamp n m := by
  let c := e.context r.recipe cycle session
  let σ : Setting := ⟨r.recipe.id, e.hierarchy, session.supply.stamp⟩
  have hin : c.In σ := ⟨rfl, rfl, Nat.le_refl _⟩
  have hfuel : e.fuel n = n.height + e.headroom + 2 + 1 := rfl
  have hvisit : r.recipe.applies e.hierarchy n.content = true → ∀ fuel, n.height + 1 ≤ fuel →
      ∀ c', c.Resumes c' → (visit fuel r.recipe.visitor n).Yields c' fun m =>
        m.content = r.rewritten e.hierarchy n.content ∧ r.Keeps session.supply.stamp n m := by
    intro happlies fuel hfuel c' hc'
    refine (r.visit_yields (σ := σ) hvalid hn hfuel (hin.resumes hc') rfl).imp ?_
    rintro m ⟨hm, hkeeps⟩
    refine ⟨?_, hkeeps⟩
    rw [hm, rewritten, if_pos happlies, hc'.cursor]
    rfl
  rcases r.gated_or_applies with hgated | ⟨hplain, happlies⟩
  · rw [hfuel]
    refine pass_gated_yields hgated rfl rfl hn (fun happlies => hvisit happlies _ (by omega)) ?_
    intro hclosed
    refine ⟨?_, Keeps.refl r _ n⟩
    have hclosed : r.recipe.applies e.hierarchy n.content = false := hclosed
    rw [rewritten, hclosed]
    rfl
  · rw [hplain]
    exact runPass_yields rfl rfl (hvisit (happlies _ _) _ (by omega) c (Context.Resumes.refl c))

/-- Another object at the root is another content. -/
theorem Keeps.eq_of_content {r : StockRecipe} {b : Nat} {n m : Node} (h : r.Keeps b n m)
    (hcontent : m.content = n.content) : m = n := by
  rcases h.shares_or_unwraps with ⟨-, h⟩ | ⟨-, h⟩
  · exact h.root.resolve_right fun hnew => hnew.2.2 hcontent.symm
  · exact h.eq_of_content hcontent

theorem Keeps.eq_of_same {r : StockRecipe} {b : Nat} {n m : Node} (h : r.Keeps b n m)
    (hn : n.Predates b) (hsame : m.same n = true) : m = n := by
  have hstamp := hn.stamp
  have hsame : m.label.stamp = n.label.stamp := by simpa [Node.same] using hsame
  rcases h.shares_or_unwraps with ⟨-, h⟩ | ⟨-, h⟩
  · exact (h.same_or_new hn).resolve_right fun hne => hne hsame
  · rcases h.same_or_other hn with h | h | h
    · exact h
    · omega
    · omega

/-- **Identity tells of change.** The root that comes back is the one that was given exactly if the
content is what it was. -/
theorem Keeps.same_iff {r : StockRecipe} {b : Nat} {n m : Node} (h : r.Keeps b n m) (hn : n.Predates b) :
    m.same n = true ↔ m.content = n.content := by
  constructor
  · intro hsame
    rw [h.eq_of_same hn hsame]
  · intro hcontent
    simp [h.eq_of_content hcontent, Node.same]

end StockRecipe

end Refactor
