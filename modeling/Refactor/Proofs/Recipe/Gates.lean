import Refactor.Proofs.Recipe.Stock

/-!
# What the gates of the stock recipes let through

The gate of a recipe is open if some node of the tree is what it looks for (`applies_eq_any`). Where it is
closed the visitor behind it has nothing to do, so that the gate makes no difference to the result
(`rewrite_eq_self_iff_of_closed`). There is one exception: the visitor that moves packages also moves the
full names of declared classes, and the gate does not look at those (`Overlooks`).
-/

namespace Refactor

namespace StockRecipe

/-! ### What the gates look for -/

/-- The node is what the gate of the recipe looks for. -/
def looksFor (r : StockRecipe) (h : Hierarchy) (t : Tree) : Bool :=
  match r with
  | changeFieldVisibility _ => t.kind = .classDecl
  | renameVariable .. => true
  | findMethods pattern | changeMethodName pattern _ => (pattern.matchesTree h t).value
  | changePackage matcher _ => matcher.matchesTree t
  | unwrapParentheses => t.kind = .parenthesized

theorem applies_eq_any (r : StockRecipe) (h : Hierarchy) (t : Tree) :
    r.recipe.applies h t = t.descendants.any (r.looksFor h) := by
  cases r with
  | changeFieldVisibility | unwrapParentheses => rfl
  | renameVariable declaration new =>
    refine (List.any_eq_true.2 ⟨t, Labelled.self_mem_descendants t, ?_⟩).symm
    rfl
  | findMethods pattern | changeMethodName pattern =>
    exact Traced.value_any (pattern.matchesTree h) t.descendants
  | changePackage matcher => exact Traced.value_any (fun d => pure (matcher.matchesTree d)) t.descendants

theorem looksFor_eq_false {r : StockRecipe} {h : Hierarchy} {t d : Tree}
    (hclosed : r.recipe.applies h t = false) (hd : d ∈ t.descendants) : r.looksFor h d = false := by
  rw [applies_eq_any] at hclosed
  simpa using List.any_eq_false.1 hclosed d hd

end StockRecipe

/-! ### What a node is changed for -/

/-- Without a class there are no fields. -/
theorem ChangeFieldVisibility.change_of_no_class {v : Visibility} {d : Tree} {up : List Tree}
    (h : ∀ a ∈ d :: up, a.kind ≠ .classDecl) : change v (d :: up) d = d := by
  have hmember : isMember (.ofPath (d :: up)) = false := by
    unfold isMember Cursor.ancestors
    rw [Cursor.path_ofPath]
    rcases up with _ | ⟨body, _ | ⟨owner, up⟩⟩
    · rfl
    · rfl
    · simp [h owner (by simp)]
  obtain ⟨l, s⟩ := d
  cases s with
  | variableDecls ms typeExpr declarators => simp [change, hmember]
  | _ => rfl

theorem ChangePackage.change_eq_self_iff {m : PackageMatcher} {new : String} {path : List Tree} {t : Tree} :
    change m new path t = t ↔ t.shape.fullName.bind (m.moved new) = none := by
  unfold change
  cases h : t.shape.fullName.bind (m.moved new) with
  | none => simp
  | some name =>
    obtain ⟨value, hvalue, hmoved⟩ := Option.bind_eq_some_iff.1 h
    refine iff_of_false (fun heq => ?_) (by simp)
    have hname := congrArg (fun t : Tree => t.shape.fullName) heq
    simp only [Labelled.shape_mk, Shape.fullName_withFullName hvalue, hvalue] at hname
    exact PackageMatcher.ne_of_moved hmoved (Option.some.inj hname)

/-- A full name is a reference, or that of a class. -/
theorem Shape.reference_of_fullName {α : Type} {s : Shape α} {name : String} (h : s.fullName = some name) :
    (∃ kind, s.reference = some (kind, name)) ∨ s.kind = .classDecl := by
  cases s with
  | package | importDecl | typeRef =>
    cases h
    exact Or.inl ⟨_, rfl⟩
  | classDecl => exact Or.inr rfl
  | _ => cases h

namespace StockRecipe

/-- The tree has something for the recipe to change that its gate does not look for: a class whose full
name is moved. -/
def Overlooks : StockRecipe → Tree → Prop
  | changePackage matcher new, t => ∃ d ∈ t.descendants, d.kind = .classDecl ∧
      (d.shape.fullName.bind (matcher.moved new)).isSome
  | _, _ => False

instance : (r : StockRecipe) → (t : Tree) → Decidable (r.Overlooks t)
  | changePackage matcher new, t => inferInstanceAs (Decidable (∃ d ∈ t.descendants,
      d.kind = .classDecl ∧ (d.shape.fullName.bind (matcher.moved new)).isSome))
  | changeFieldVisibility _, _ | renameVariable .., _ | findMethods _, _ | changeMethodName .., _
  | unwrapParentheses, _ => instDecidableFalse

/-- A name that is moved though the gate is closed is that of a class. -/
theorem overlooks_iff {matcher : PackageMatcher} {new : String} {h : Hierarchy} {t : Tree}
    (hclosed : (changePackage matcher new).recipe.applies h t = false) :
    (changePackage matcher new).Overlooks t ↔
      ∃ d ∈ t.descendants, d.shape.fullName.bind (matcher.moved new) ≠ none := by
  constructor
  · rintro ⟨d, hd, -, hmoved⟩
    exact ⟨d, hd, Option.isSome_iff_ne_none.1 hmoved⟩
  · rintro ⟨d, hd, hmoved⟩
    have hmoved : (d.shape.fullName.bind (matcher.moved new)).isSome := Option.isSome_iff_ne_none.2 hmoved
    refine ⟨d, hd, ?_, hmoved⟩
    obtain ⟨name', hname'⟩ := Option.isSome_iff_exists.1 hmoved
    obtain ⟨name, hname, hname'⟩ := Option.bind_eq_some_iff.1 hname'
    refine (Shape.reference_of_fullName hname).resolve_left ?_
    rintro ⟨kind, href⟩
    have hmatches : matcher.matchesTree d = true := by
      rw [PackageMatcher.matchesTree, href]
      exact (PackageMatcher.isSome_moved.1 (Option.isSome_of_eq_some hname')).2
    rw [show matcher.matchesTree d = false from looksFor_eq_false hclosed hd] at hmatches
    cases hmatches

/-- **Behind a closed gate** the visitor leaves the tree as it is, unless there is something that the
gate overlooks. -/
theorem rewrite_eq_self_iff_of_closed {r : StockRecipe} {h : Hierarchy} {t : Tree}
    (hclosed : r.recipe.applies h t = false) :
    Tree.rewrite (r.change h) t [] = t ↔ ¬ r.Overlooks t := by
  have hfalse : ∀ {a : Tree} {path : List Tree}, path ∈ t.paths [] → a ∈ path → r.looksFor h a = false := by
    intro a path hpath ha
    refine looksFor_eq_false hclosed ?_
    simpa using Labelled.mem_of_mem_paths hpath ha
  cases r with
  -- This recipe has no gate.
  | renameVariable => cases hclosed
  | changeFieldVisibility v =>
    refine iff_of_true (Tree.rewrite_eq_self_of_paths fun d up hd => ?_) not_false
    exact ChangeFieldVisibility.change_of_no_class fun a ha => of_decide_eq_false (hfalse hd ha)
  | findMethods pattern =>
    refine iff_of_true (Tree.rewrite_eq_self_of_paths fun d up hd => if_neg ?_) not_false
    exact Bool.eq_false_iff.1 (hfalse hd List.mem_cons_self)
  | changeMethodName pattern new =>
    refine iff_of_true (Tree.rewrite_eq_self_of_paths fun d up hd => if_neg ?_) not_false
    exact fun hmatch => Bool.eq_false_iff.1 (hfalse hd List.mem_cons_self) hmatch.2
  | unwrapParentheses =>
    refine iff_of_true (Tree.rewrite_eq_self_of_paths fun d up hd => ?_) not_false
    exact UnwrapParentheses.change_of_kind (of_decide_eq_false (hfalse hd List.mem_cons_self))
  | changePackage matcher new =>
    -- The visitor moves names of packages of which the gate does not know.
    rw [overlooks_iff hclosed]
    refine (ChangePackage.change_inPlace matcher new).rewrite_eq_self_iff.trans ?_
    simp only [ChangePackage.change_eq_self_iff, not_exists, not_and, not_not]
    constructor
    · intro hsame d hd
      obtain ⟨up, hup⟩ := Labelled.exists_mem_paths hd []
      exact hsame d up hup
    · intro hsame d up hup
      refine hsame d ?_
      simpa using Labelled.mem_of_mem_paths hup List.mem_cons_self

/-- With the gate and without it the same content comes out, unless there is something that a closed gate
overlooks. -/
theorem rewritten_eq_rewrite_iff (r : StockRecipe) (h : Hierarchy) (t : Tree) :
    r.rewritten h t = Tree.rewrite (r.change h) t [] ↔
      ¬ (r.recipe.applies h t = false ∧ r.Overlooks t) := by
  rw [rewritten]
  cases happlies : r.recipe.applies h t with
  | true => simp
  | false => simpa [eq_comm] using rewrite_eq_self_iff_of_closed happlies

/-! ### Passes with and without a gate -/

/-- A pass of a stock recipe without its gate. -/
theorem ungated_pass_yields (r : StockRecipe) (e : Engine) (n : Node) (cycle : Nat) (session : Session)
    (hvalid : n.slotValid) (hn : n.Predates session.supply.stamp) :
    (runPass (e.fuel n) r.recipe.visitor n).Yields (e.context r.recipe cycle session) fun m =>
      m.content = Tree.rewrite (r.change e.hierarchy) n.content [] ∧
        r.Keeps session.supply.stamp n m := by
  have hfuel : n.height + 1 ≤ e.fuel n := by
    rw [show e.fuel n = n.height + e.headroom + 2 + 1 from rfl]
    omega
  refine runPass_yields rfl rfl ?_
  exact r.visit_yields (σ := ⟨r.recipe.id, e.hierarchy, session.supply.stamp⟩) hvalid hn hfuel
    ⟨rfl, rfl, Nat.le_refl _⟩ rfl

/-- **What gates suppress.** A pass without its gate and a pass with it both succeed. Where the gate is
closed the first comes back with the tree it was given, and the two always come back with the same
content, both with the one exception of what the gate overlooks. -/
theorem gate_suppresses_only_overlooked (r : StockRecipe) (e : Engine) (n : Node) (cycle : Nat)
    (session : Session) (hvalid : n.slotValid) (hn : n.Predates session.supply.stamp) :
    ∃ m c m' c',
      runPass (e.fuel n) r.recipe.visitor n (e.context r.recipe cycle session) = .done m c ∧
      runPass (e.fuel n) r.recipe.gatedVisitor n (e.context r.recipe cycle session) = .done m' c' ∧
      (r.recipe.applies e.hierarchy n.content = false →
        (m.same n = true ↔ ¬ r.Overlooks n.content)) ∧
      (m'.content = m.content ↔
        ¬ (r.recipe.applies e.hierarchy n.content = false ∧ r.Overlooks n.content)) := by
  obtain ⟨m, c, hm, -, -, hcontent, hkeeps⟩ := r.ungated_pass_yields e n cycle session hvalid hn
  obtain ⟨m', c', hm', -, -, hcontent', -⟩ := r.pass_yields e n cycle session hvalid hn
  refine ⟨m, c, m', c', hm, hm', fun hclosed => ?_, ?_⟩
  · rw [hkeeps.same_iff hn, hcontent]
    exact rewrite_eq_self_iff_of_closed hclosed
  · rw [hcontent, hcontent']
    exact r.rewritten_eq_rewrite_iff e.hierarchy n.content

/-- A class of the given full name. Nothing refers to it. -/
def loneClass (fullName : String) : Draft :=
  .mk { id := some (.given 1) } (.classDecl [] "C" none []
    (.mk { id := some (.given 2) } (.block [])) (some fullName))

/-- A class of another package keeps its name, with the gate and without it. -/
theorem gate_suppresses_nothing_elsewhere :
    let n := (loneClass "ab.C").placed.1
    let r := changePackage ⟨"a", .recursive⟩ "b"
    r.recipe.applies {} n.content = false ∧
      ∃ m c m' c',
        runPass (Engine.fuel {} n) r.recipe.visitor n
          (Engine.context {} r.recipe 1 (loneClass "ab.C").placed.2) = .done m c ∧
        runPass (Engine.fuel {} n) r.recipe.gatedVisitor n
          (Engine.context {} r.recipe 1 (loneClass "ab.C").placed.2) = .done m' c' ∧
        m.same n = true ∧ m'.content = m.content := by
  intro n r
  have hclosed : r.recipe.applies {} n.content = false := by decide
  have hnone : ¬ r.Overlooks n.content := by decide
  obtain ⟨m, c, m', c', hm, hm', hsame, hcontent⟩ := r.gate_suppresses_only_overlooked {} n 1
    (loneClass "ab.C").placed.2 (by decide) (loneClass "ab.C").placed_predates
  exact ⟨hclosed, m, c, m', c', hm, hm', (hsame hclosed).2 hnone, hcontent.2 fun h => hnone h.2⟩

/-- **A gate that suppresses a move.** The class is in the package that is moved. Without the gate its
name is moved, and with the gate it is not. -/
theorem gate_suppresses_class_move :
    let n := (loneClass "a.C").placed.1
    let r := changePackage ⟨"a", .recursive⟩ "b"
    r.recipe.applies {} n.content = false ∧
      ∃ m c m' c',
        runPass (Engine.fuel {} n) r.recipe.visitor n
          (Engine.context {} r.recipe 1 (loneClass "a.C").placed.2) = .done m c ∧
        runPass (Engine.fuel {} n) r.recipe.gatedVisitor n
          (Engine.context {} r.recipe 1 (loneClass "a.C").placed.2) = .done m' c' ∧
        m.content.shape.fullName = some "b.C" ∧ m'.content.shape.fullName = some "a.C" := by
  intro n r
  obtain ⟨m, c, hm, -, -, hcontent, -⟩ := r.ungated_pass_yields {} n 1 (loneClass "a.C").placed.2
    (by decide) (loneClass "a.C").placed_predates
  obtain ⟨m', c', hm', -, -, hcontent', -⟩ := r.pass_yields {} n 1 (loneClass "a.C").placed.2
    (by decide) (loneClass "a.C").placed_predates
  refine ⟨by decide, m, c, m', c', hm, hm', ?_, ?_⟩
  · rw [hcontent]
    decide
  · rw [hcontent']
    decide

end StockRecipe

end Refactor
