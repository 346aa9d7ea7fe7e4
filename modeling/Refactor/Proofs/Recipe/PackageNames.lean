import Refactor.Proofs.Engine.Moves
import Refactor.Proofs.Tree.Nodewise

/-!
# The names that a move of packages changes

A name belongs to a package if it is the package's, or goes on after it with a dot and a rest of the right
sort (`RenamePolicy.Includes`). A pass without its gate replaces the package at the start of each full name that
belongs to it, and changes nothing else. With the gates, a move and the move back restore the tree, provided
that no name belonged to the new package before (`pass_moves_included`): then what belongs to it after the first
move is exactly what was moved, and the gate of the second is open if that of the first was.
-/

namespace Refactor

/-! ### Names of a package -/

namespace RenamePolicy

/-- What has to follow the dot after the package: anything at all, or the name of a type. -/
def Continues : RenamePolicy → List Char → Prop
  | recursive, rest => rest ≠ []
  | exactSegment, rest => ∃ c cs, rest = c :: cs ∧ Text.isUppercase c = true

/-- The name is that of the package, or goes on after it with a dot and a rest as the policy has it. -/
def Includes (policy : RenamePolicy) (package name : String) : Prop :=
  name = package ∨ ∃ rest : String, name = package ++ "." ++ rest ∧ policy.Continues rest.toList

variable {policy : RenamePolicy} {package name s : String}

theorem covers_iff (segment : List Char) : policy.covers segment = true ↔ policy.Continues segment := by
  cases policy <;> cases segment <;> simp [covers, Continues]

/-- A name that belongs to a package is made up of it and of what may follow it. -/
theorem includes_iff : policy.Includes package name ↔
    ∃ suffix, name.toList = package.toList ++ suffix ∧ policy.Covered suffix := by
  constructor
  · rintro (rfl | ⟨rest, rfl, hrest⟩)
    · exact ⟨[], by simp, Or.inl rfl⟩
    · exact ⟨'.' :: rest.toList, by simp, Or.inr ⟨rest.toList, rfl, (covers_iff _).2 hrest⟩⟩
  · rintro ⟨suffix, hname, rfl | ⟨segment, rfl, hsegment⟩⟩
    · exact Or.inl (String.toList_injective (by simpa using hname))
    · refine Or.inr ⟨String.ofList segment, String.toList_injective ?_, ?_⟩
      · simp [hname]
      · rw [String.toList_ofList]
        exact (covers_iff segment).1 hsegment

theorem includes_append : policy.Includes package (package ++ s) ↔ policy.Covered s.toList := by
  rw [includes_iff]
  constructor
  · rintro ⟨suffix, hsuffix, hcovered⟩
    rw [String.toList_append, List.append_cancel_left_eq] at hsuffix
    exact hsuffix ▸ hcovered
  · intro h
    exact ⟨s.toList, String.toList_append, h⟩

theorem exists_append_of_includes (h : policy.Includes package name) : ∃ s, name = package ++ s := by
  obtain ⟨suffix, hname, -⟩ := includes_iff.1 h
  exact ⟨String.ofList suffix, String.toList_injective (by simp [hname])⟩

end RenamePolicy

namespace PackageMatcher

variable {m : PackageMatcher} {new name s : String}

theorem matchesName_iff_includes : m.matchesName name = true ↔ m.policy.Includes m.package name := by
  rw [matchesName_iff, RenamePolicy.includes_iff]

instance (policy : RenamePolicy) (package name : String) : Decidable (policy.Includes package name) :=
  decidable_of_iff _ (matchesName_iff_includes (m := ⟨package, policy⟩))

/-- A name of the package gets the new one in its place. -/
theorem afterPass_append (h : m.policy.Includes m.package (m.package ++ s)) :
    m.afterPass new (m.package ++ s) = new ++ s := by
  unfold afterPass
  by_cases hnew : new = m.package
  · have hnone : m.moved new (m.package ++ s) = none :=
      Option.not_isSome_iff_eq_none.1 fun hmoved => (isSome_moved.1 hmoved).1 hnew
    rw [hnone, hnew, Option.getD_none]
  · have hmoved : m.moved new (m.package ++ s) = some (new ++ s) :=
      moved_eq_some.2 ⟨hnew, s.toList, by simp, RenamePolicy.includes_append.1 h, by simp⟩
    rw [hmoved, Option.getD_some]

/-- Any other name stays. -/
theorem afterPass_of_not_includes (h : ¬ m.policy.Includes m.package name) : m.afterPass new name = name := by
  refine afterPass_eq_self_iff.2 (Option.not_isSome_iff_eq_none.1 fun hmoved => h ?_)
  exact matchesName_iff_includes.1 (isSome_moved.1 hmoved).2

/-- **A name there and back.** -/
theorem afterPass_afterPass {policy : RenamePolicy} {old : String} (h : ¬ policy.Includes new name) :
    afterPass ⟨new, policy⟩ old (afterPass ⟨old, policy⟩ new name) = name := by
  by_cases hold : policy.Includes old name
  · obtain ⟨s, rfl⟩ := RenamePolicy.exists_append_of_includes hold
    have hnew : policy.Includes new (new ++ s) :=
      RenamePolicy.includes_append.2 (RenamePolicy.includes_append.1 hold)
    calc afterPass ⟨new, policy⟩ old (afterPass ⟨old, policy⟩ new (old ++ s))
        = afterPass ⟨new, policy⟩ old (new ++ s) := congrArg _ (afterPass_append (m := ⟨old, policy⟩) hold)
      _ = old ++ s := afterPass_append (m := ⟨new, policy⟩) hnew
  · calc afterPass ⟨new, policy⟩ old (afterPass ⟨old, policy⟩ new name)
        = afterPass ⟨new, policy⟩ old name :=
          congrArg _ (afterPass_of_not_includes (m := ⟨old, policy⟩) hold)
      _ = name := afterPass_of_not_includes (m := ⟨new, policy⟩) h

end PackageMatcher

/-! ### Full names of a tree -/

/-- The shape with its full name, if it has one, replaced by a function of it: the name of a package, of an import
or of a type reference, or the type of a declared class. -/
def Shape.mapFullName {α : Type} (f : String → String) : Shape α → Shape α
  | package name => package (f name)
  | importDecl name isStatic => importDecl (f name) isStatic
  | typeRef name => typeRef (f name)
  | classDecl ms simple superclass interfaces body classType =>
    classDecl ms simple superclass interfaces body (classType.map f)
  | s => s

namespace Tree

/-- The node with its full name replaced by a function of it. -/
def mapFullName (f : String → String) (t : Tree) : Tree := .mk t.label (t.shape.mapFullName f)

/-- The full names in the tree, in pre-order. -/
def fullNames (t : Tree) : List String := t.descendants.filterMap (·.shape.fullName)

variable {f g : String → String}

theorem nodewise_mapFullName (f : String → String) : Nodewise (mapFullName f) where
  children t := by
    obtain ⟨l, s⟩ := t
    cases s <;> rfl
  natural l s r := by cases s <;> rfl

theorem mapFullName_mapFullName (t : Tree) :
    (t.mapFullName f).mapFullName g = t.mapFullName fun s => g (f s) := by
  obtain ⟨l, s⟩ := t
  cases s <;> simp [mapFullName, Shape.mapFullName, Function.comp_def]

theorem mapFullName_eq_self {t : Tree} (h : ∀ name ∈ t.shape.fullName, f name = name) :
    t.mapFullName f = t := by
  obtain ⟨l, s⟩ := t
  cases s with
  | package name | importDecl name | typeRef name => simp [mapFullName, Shape.mapFullName, h name rfl]
  | classDecl ms simple superclass interfaces body classType =>
    cases classType with
    | none => rfl
    | some name => simp [mapFullName, Shape.mapFullName, h name rfl]
  | _ => rfl

theorem fullName_mapFullName (t : Tree) : (t.mapFullName f).shape.fullName = t.shape.fullName.map f := by
  obtain ⟨l, s⟩ := t
  cases s <;> rfl

/-- The names of the tree are changed one by one. -/
theorem fullNames_mapNodes (t : Tree) : (mapNodes (mapFullName f) t).fullNames = t.fullNames.map f := by
  unfold fullNames
  rw [(nodewise_mapFullName f).filterMap_shape_mapNodes fun r s => Shape.fullName_map r s, List.map_filterMap]
  exact List.filterMap_congr fun d _ => fullName_mapFullName d

/-- Names that come back to what they were make up the tree that was. -/
theorem mapNodes_mapFullName_inverse {t : Tree} (h : ∀ name ∈ t.fullNames, g (f name) = name) :
    mapNodes (mapFullName g) (mapNodes (mapFullName f) t) = t := by
  rw [(nodewise_mapFullName f).mapNodes_mapNodes]
  refine mapNodes_eq_self fun d hd => ?_
  rw [mapFullName_mapFullName]
  exact mapFullName_eq_self fun name hname => h name (List.mem_filterMap.2 ⟨d, hd, hname⟩)

theorem mem_fullNames_of_references {t : Tree} {name : String} (h : name ∈ t.references) :
    name ∈ t.fullNames := by
  obtain ⟨d, hd, hname⟩ := List.mem_filterMap.1 h
  refine List.mem_filterMap.2 ⟨d, hd, ?_⟩
  obtain ⟨l, s⟩ := d
  cases s with
  | package | importDecl | typeRef => exact hname
  | _ => cases hname

end Tree

/-! ### Passes -/

namespace ChangePackage

theorem change_eq_mapFullName (m : PackageMatcher) (new : String) (path : List Tree) (t : Tree) :
    change m new path t = t.mapFullName (m.afterPass new) := by
  obtain ⟨l, s⟩ := t
  unfold change Tree.mapFullName PackageMatcher.afterPass
  simp only [Labelled.shape_mk, Labelled.label_mk]
  cases s with
  | package name | importDecl name | typeRef name =>
    cases hmoved : m.moved new name <;>
      simp [Shape.fullName, Shape.withFullName, Shape.mapFullName, hmoved]
  | classDecl ms simple superclass interfaces body classType =>
    cases classType with
    | none => rfl
    | some name =>
      cases hmoved : m.moved new name <;>
        simp [Shape.fullName, Shape.withFullName, Shape.mapFullName, hmoved]
  | _ => rfl

/-- **The visitor moves the full names** of the tree and changes nothing else. -/
theorem rewrite_eq_mapFullName (m : PackageMatcher) (new : String) (h : Hierarchy) (t : Tree) :
    Tree.rewrite ((StockRecipe.changePackage m new).change h) t [] =
      t.mapNodes (Tree.mapFullName (m.afterPass new)) :=
  Tree.rewrite_eq_mapNodes (change_eq_mapFullName m new) t []

/-- So does a pass with its gate, if that is open. -/
theorem rewritten_of_open {m : PackageMatcher} {new : String} {h : Hierarchy} {t : Tree}
    (hopen : (recipe m new).applies h t = true) :
    (StockRecipe.changePackage m new).rewritten h t = t.mapNodes (Tree.mapFullName (m.afterPass new)) := by
  rw [StockRecipe.rewritten, ← rewrite_eq_mapFullName m new h]
  exact if_pos hopen

/-- A name that opens the gate of a move opens that of the move back where it has gone. -/
theorem applies_back {policy : RenamePolicy} {old new : String} {h : Hierarchy} {t : Tree}
    (hopen : (recipe ⟨old, policy⟩ new).applies h t = true) :
    (recipe ⟨new, policy⟩ old).applies h ((StockRecipe.changePackage ⟨old, policy⟩ new).rewritten h t) =
      true := by
  obtain ⟨name, hname, hmatches⟩ := applies_iff.1 hopen
  have hold : policy.Includes old name := PackageMatcher.matchesName_iff_includes.1 hmatches
  obtain ⟨s, rfl⟩ := RenamePolicy.exists_append_of_includes hold
  refine applies_iff.2 ⟨new ++ s, ?_, PackageMatcher.matchesName_iff_includes.2 ?_⟩
  · rw [references_rewritten]
    exact List.mem_map.2 ⟨old ++ s, hname, PackageMatcher.afterPass_append (m := ⟨old, policy⟩) hold⟩
  · exact RenamePolicy.includes_append.2 (RenamePolicy.includes_append.1 hold)

/-- **A tree there and back.** -/
theorem rewritten_back {policy : RenamePolicy} {old new : String} (h : Hierarchy) {t : Tree}
    (hfree : ∀ name ∈ t.fullNames, ¬ policy.Includes new name) :
    (StockRecipe.changePackage ⟨new, policy⟩ old).rewritten h
      ((StockRecipe.changePackage ⟨old, policy⟩ new).rewritten h t) = t := by
  by_cases hopen : (recipe ⟨old, policy⟩ new).applies h t = true
  · rw [rewritten_of_open (applies_back hopen), rewritten_of_open hopen]
    exact Tree.mapNodes_mapFullName_inverse fun name hname =>
      PackageMatcher.afterPass_afterPass (hfree name hname)
  · have hthere : (StockRecipe.changePackage ⟨old, policy⟩ new).rewritten h t = t := if_neg hopen
    rw [hthere]
    -- What opened the second gate now would be a name of the new package from before.
    refine if_neg fun hopen' => ?_
    obtain ⟨name, hname, hmatches⟩ := applies_iff.1 hopen'
    exact hfree name (Tree.mem_fullNames_of_references hname)
      (PackageMatcher.matchesName_iff_includes.1 hmatches)

/-- **A move of packages, and the move back.** Without its gate, a pass replaces the old package at the start of
each full name that belongs to it and leaves all else as it was. If no full name belongs to the new package, a
pass from the old package to the new one and a pass the other way give back what there was. -/
theorem pass_moves_included (old new : String) (policy : RenamePolicy) (e : Engine) (n : Node)
    (cycle cycle' : Nat) (session : Session) (hvalid : n.slotValid)
    (hn : n.Predates session.supply.stamp) :
    (∃ move : String → String,
      (∀ s, policy.Includes old (old ++ s) → move (old ++ s) = new ++ s) ∧
      (∀ name, ¬ policy.Includes old name → move name = name) ∧
      ∃ m c,
        runPass (e.fuel n) (recipe ⟨old, policy⟩ new).visitor n
          (e.context (recipe ⟨old, policy⟩ new) cycle session) = .done m c ∧
        m.content = n.content.mapNodes (Tree.mapFullName move)) ∧
    ((∀ name ∈ n.content.fullNames, ¬ policy.Includes new name) →
      ∃ there c back c',
        runPass (e.fuel n) (recipe ⟨old, policy⟩ new).gatedVisitor n
          (e.context (recipe ⟨old, policy⟩ new) cycle session) = .done there c ∧
        runPass (e.fuel there) (recipe ⟨new, policy⟩ old).gatedVisitor there
          (e.context (recipe ⟨new, policy⟩ old) cycle' c.session) = .done back c' ∧
        back.content = n.content) := by
  constructor
  · obtain ⟨m, c, hm, -, -, hcontent, -⟩ :=
      (StockRecipe.changePackage ⟨old, policy⟩ new).ungated_pass_yields e n cycle session hvalid hn
    rw [rewrite_eq_mapFullName] at hcontent
    exact ⟨PackageMatcher.afterPass ⟨old, policy⟩ new,
      fun s hs => PackageMatcher.afterPass_append (m := ⟨old, policy⟩) hs,
      fun name hname => PackageMatcher.afterPass_of_not_includes (m := ⟨old, policy⟩) hname,
      m, c, hm, hcontent⟩
  · -- The second pass meets no name of the new package but those the first one moved there.
    intro hfree
    obtain ⟨there, c, hthere, -, hmade, hcontent, -⟩ :=
      (StockRecipe.changePackage ⟨old, policy⟩ new).pass_yields e n cycle session hvalid hn
    have hvalid' : there.slotValid :=
      (StockRecipe.changePackage ⟨old, policy⟩ new).slotValid_of_rewritten hcontent hvalid
    obtain ⟨back, c', hback, -, -, hcontent', -⟩ :=
      (StockRecipe.changePackage ⟨new, policy⟩ old).pass_yields e there cycle' c.session hvalid' hmade
    refine ⟨there, c, back, c', hthere, hback, ?_⟩
    rw [hcontent', hcontent]
    exact rewritten_back e.hierarchy hfree

/-- A file of the package `a`, with imports from a subpackage and from a package whose name begins alike. -/
def unitOfPackage : Draft :=
  .mk { id := some (.given 1) } (.compilationUnit "C.java"
    (some (.mk { id := some (.given 2) } (.package "a")))
    [.mk { id := some (.given 3) } (.importDecl "a.b.D" false),
      .mk { id := some (.given 4) } (.importDecl "ab.E" false)]
    [.mk { id := some (.given 5) } (.classDecl [] "C"
      (some (.mk { id := some (.given 6) } (.typeRef "a.F"))) []
      (.mk { id := some (.given 7) } (.block [])) (some "a.C"))])

/-- Of the five names, three belong to the package alone and not to a subpackage. They go and come back. -/
theorem pass_moves_unit :
    let n := unitOfPackage.placed.1
    let session := unitOfPackage.placed.2
    n.content.fullNames = ["a", "a.b.D", "ab.E", "a.C", "a.F"] ∧
    (∃ m c,
      runPass (Engine.fuel {} n) (recipe ⟨"a", .exactSegment⟩ "x.y").visitor n
        (Engine.context {} (recipe ⟨"a", .exactSegment⟩ "x.y") 1 session) = .done m c ∧
      m.content.fullNames = ["x.y", "a.b.D", "ab.E", "x.y.C", "x.y.F"]) ∧
    ∃ there c back c',
      runPass (Engine.fuel {} n) (recipe ⟨"a", .exactSegment⟩ "x.y").gatedVisitor n
        (Engine.context {} (recipe ⟨"a", .exactSegment⟩ "x.y") 1 session) = .done there c ∧
      runPass (Engine.fuel {} there) (recipe ⟨"x.y", .exactSegment⟩ "a").gatedVisitor there
        (Engine.context {} (recipe ⟨"x.y", .exactSegment⟩ "a") 1 c.session) = .done back c' ∧
      back.content = n.content := by
  intro n session
  have hvalid : n.slotValid := by decide
  have hnames : n.content.fullNames = ["a", "a.b.D", "ab.E", "a.C", "a.F"] := by decide
  obtain ⟨⟨move, hmoved, hkept, m, c, hm, hcontent⟩, hback⟩ :=
    pass_moves_included "a" "x.y" .exactSegment {} n 1 1 session hvalid unitOfPackage.placed_predates
  refine ⟨hnames, ⟨m, c, hm, ?_⟩, hback (by rw [hnames]; decide)⟩
  rw [hcontent, Tree.fullNames_mapNodes, hnames]
  have h₁ : move "a" = "x.y" := hmoved "" (by decide)
  have h₂ : move "a.b.D" = "a.b.D" := hkept "a.b.D" (by decide)
  have h₃ : move "ab.E" = "ab.E" := hkept "ab.E" (by decide)
  have h₄ : move "a.C" = "x.y.C" := hmoved ".C" (by decide)
  have h₅ : move "a.F" = "x.y.F" := hmoved ".F" (by decide)
  simp only [List.map_cons, List.map_nil, h₁, h₂, h₃, h₄, h₅]

end ChangePackage

end Refactor
