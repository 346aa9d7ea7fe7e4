import Refactor.Proofs.Recipe.Gates
import Refactor.Proofs.Tree.Nodewise

/-!
# The modifiers of fields

A field is a declaration that stands among the statements of the block that is the body of a class. The
visitor tells fields by two steps of the way up from a declaration. Seen from the classes there is nothing to
tell: `Tree.mapFields` goes to each class of the tree, wherever it stands, and changes the declarations in its
body. In a tree whose slots are in order both come to the same nodes (`rewrite_eq_settle`), and what becomes
of a list of modifiers is said by `Visibility.Revises`.
-/

namespace Refactor

/-! ### Lists of modifiers -/

namespace Visibility

/-- The second list is the first with that visibility. It shows that and no other, the other modifiers are those
that were there, and the visibility stands where the first old one stood among them, or in front if there was
none. -/
structure Revises (v : Visibility) (ms ms' : List Modifier) : Prop where
  shows : ms'.filter (·.isVisibility) = v.modifiers
  others : ms'.filter (!·.isVisibility) = ms.filter (!·.isVisibility)
  place : v.modifiers ≠ [] → ms'.takeWhile (!·.isVisibility) =
    if ms.any (·.isVisibility) then ms.takeWhile (!·.isVisibility) else []
  keeps : ms.filter (·.isVisibility) = v.modifiers → ms' = ms

/-- No modifier of the list says anything about visibility. -/
def Silent (ms : List Modifier) : Prop := ∀ m ∈ ms, m.isVisibility = false

namespace Silent

variable {ms : List Modifier} (h : Silent ms)
include h

theorem filter_eq : ms.filter (·.isVisibility) = [] :=
  List.filter_eq_nil_iff.2 fun m hm => by simp [h m hm]

theorem filter_not_eq : ms.filter (!·.isVisibility) = ms :=
  List.filter_eq_self.2 fun m hm => by simp [h m hm]

theorem any_eq : ms.any (·.isVisibility) = false := List.any_eq_false.2 fun m hm => by simp [h m hm]

theorem takeWhile_append (ms' : List Modifier) :
    (ms ++ ms').takeWhile (!·.isVisibility) = ms ++ ms'.takeWhile (!·.isVisibility) :=
  List.takeWhile_append_of_pos fun m hm => by simp [h m hm]

theorem replaceIn_eq (v : Visibility) : v.replaceIn ms = v.modifiers ++ ms := by
  simp [replaceIn, h.filter_not_eq, h.any_eq]

end Silent

variable {v : Visibility} {front rest ms : List Modifier} {m : Modifier}

/-- A list is silent, or has a first modifier that is not. -/
theorem silent_or_first (ms : List Modifier) :
    Silent ms ∨ ∃ front m rest, ms = front ++ m :: rest ∧ Silent front ∧ m.isVisibility = true := by
  cases hfirst : ms.find? (·.isVisibility) with
  | none => exact Or.inl (by simpa [Silent] using hfirst)
  | some m =>
    obtain ⟨hm, front, rest, rfl, hfront⟩ := List.find?_eq_some_iff_append.1 hfirst
    exact Or.inr ⟨front, m, rest, rfl, by simpa [Silent] using hfront, hm⟩

theorem replaceIn_of_first (hfront : Silent front) (hm : m.isVisibility = true) :
    v.replaceIn (front ++ m :: rest) = front ++ (v.modifiers ++ rest.filter (!·.isVisibility)) := by
  have hplace : (front ++ m :: rest).findIdx (·.isVisibility) = front.length := by
    have hnone : front.findIdx (·.isVisibility) = front.length := List.findIdx_eq_length.2 hfront
    rw [List.findIdx_append, List.findIdx_cons, hm, hnone]
    simp
  have hany : (front ++ m :: rest).any (·.isVisibility) = true := by simp [hm]
  unfold replaceIn
  rw [hany, if_pos rfl, hplace, List.filter_append, hfront.filter_not_eq, List.filter_cons, hm]
  simp

theorem filter_not_modifiers (v : Visibility) : v.modifiers.filter (!·.isVisibility) = [] := by
  cases v <;> rfl

/-- A visibility that shows stands first in front of anything. -/
theorem takeWhile_modifiers_append (hne : v.modifiers ≠ []) (ms : List Modifier) :
    (v.modifiers ++ ms).takeWhile (!·.isVisibility) = [] := by
  cases v with
  | packageAccess => exact absurd rfl hne
  | _ => rfl

theorem Silent.revises (h : Silent ms) (v : Visibility) : v.Revises ms (v.replaceIn ms) where
  shows := v.filter_replaceIn ms
  others := by rw [h.replaceIn_eq, List.filter_append, v.filter_not_modifiers, List.nil_append]
  place hne := by
    rw [h.replaceIn_eq, takeWhile_modifiers_append hne, h.any_eq]
    rfl
  keeps hshown := by rw [h.replaceIn_eq, ← hshown, h.filter_eq, List.nil_append]

theorem revises_of_first (hfront : Silent front) (hm : m.isVisibility = true) (v : Visibility) :
    v.Revises (front ++ m :: rest) (v.replaceIn (front ++ m :: rest)) where
  shows := v.filter_replaceIn _
  others := by
    rw [replaceIn_of_first hfront hm, List.filter_append, List.filter_append, v.filter_not_modifiers,
      List.filter_append, List.filter_filter, List.filter_cons, hm]
    simp
  place hne := by
    have hany : (front ++ m :: rest).any (·.isVisibility) = true := by simp [hm]
    rw [replaceIn_of_first hfront hm, hany, if_pos rfl, hfront.takeWhile_append, hfront.takeWhile_append,
      takeWhile_modifiers_append hne, List.takeWhile_cons, hm]
    rfl
  keeps hshown := by
    have hsplit : m :: rest.filter (·.isVisibility) = v.modifiers := by
      rw [← hshown, List.filter_append, hfront.filter_eq, List.filter_cons_of_pos hm, List.nil_append]
    -- The visibility is one modifier at most, so that after the first there is no other.
    have hrest : rest.filter (·.isVisibility) = [] := by
      cases v <;> simp_all [modifiers]
    have hsilent : Silent rest := fun m hm => by simpa using List.filter_eq_nil_iff.1 hrest m hm
    rw [replaceIn_of_first hfront hm, hsilent.filter_not_eq, ← hsplit, hrest]
    rfl

/-- **Replacing the visibility** revises every list. -/
theorem revises_replaceIn (v : Visibility) (ms : List Modifier) : v.Revises ms (v.replaceIn ms) := by
  rcases silent_or_first ms with h | ⟨front, m, rest, rfl, hfront, hm⟩
  · exact h.revises v
  · exact revises_of_first hfront hm v

theorem getD_applyTo (v : Visibility) (ms : List Modifier) : (v.applyTo ms).getD ms = v.replaceIn ms := by
  unfold applyTo
  split
  · next hshown => exact ((v.revises_replaceIn ms).keeps hshown).symm
  · rfl

end Visibility

/-! ### Fields, seen from the classes -/

namespace Tree

variable (f : List Modifier → List Modifier)

/-- A declaration with its modifiers replaced by a function of them. Any other node stays as it is. -/
def mapDeclaration (t : Tree) : Tree :=
  match t.shape with
  | .variableDecls ms typeExpr declarators => .mk t.label (.variableDecls (f ms) typeExpr declarators)
  | _ => t

/-- A block with its declarations changed so. -/
def mapDeclarations (t : Tree) : Tree :=
  match t.shape with
  | .block statements => .mk t.label (.block (statements.map (mapDeclaration f)))
  | _ => t

/-- A class with the declarations in its body changed so. -/
def mapOwnFields (t : Tree) : Tree :=
  match t.shape with
  | .classDecl ms name superclass interfaces body classType =>
    .mk t.label (.classDecl ms name superclass interfaces (mapDeclarations f body) classType)
  | _ => t

/-- The tree with the modifiers of the fields of all its classes replaced by a function of them. -/
def mapFields (t : Tree) : Tree := t.mapNodes (mapOwnFields f)

variable {f}

theorem mapDeclaration_of_kind {t : Tree} (h : t.kind ≠ .variableDecls) : mapDeclaration f t = t := by
  obtain ⟨l, s⟩ := t
  cases s with
  | variableDecls => exact absurd rfl h
  | _ => rfl

theorem mapDeclarations_of_kind {t : Tree} (h : t.kind ≠ .block) : mapDeclarations f t = t := by
  obtain ⟨l, s⟩ := t
  cases s with
  | block => exact absurd rfl h
  | _ => rfl

theorem mapOwnFields_of_kind {t : Tree} (h : t.kind ≠ .classDecl) : mapOwnFields f t = t := by
  obtain ⟨l, s⟩ := t
  cases s with
  | classDecl => exact absurd rfl h
  | _ => rfl

theorem kind_mapOwnFields (t : Tree) : (mapOwnFields f t).kind = t.kind := by
  obtain ⟨l, s⟩ := t
  cases s <;> rfl

theorem kind_mapFields (t : Tree) : (mapFields f t).kind = t.kind := by
  obtain ⟨l, s⟩ := t
  rw [mapFields, mapNodes_mk, kind_mapOwnFields, Labelled.kind_mk, Shape.kind_map, Labelled.kind_mk]

theorem mapFields_of_kind {l : Header} {s : Shape Tree} (h : s.kind ≠ .classDecl) :
    mapFields f (.mk l s) = .mk l (s.map (mapFields f)) := by
  rw [mapFields, mapNodes_mk]
  exact mapOwnFields_of_kind (by simpa using h)

theorem mapFields_classDecl (l : Header) (ms : List Modifier) (name : String) (superclass : Option Tree)
    (interfaces : List Tree) (body : Tree) (classType : Option String) :
    mapFields f (.mk l (.classDecl ms name superclass interfaces body classType)) =
      .mk l (.classDecl ms name (superclass.map (mapFields f)) (interfaces.map (mapFields f))
        (mapDeclarations f (mapFields f body)) classType) := by
  rw [mapFields, mapNodes_mk, Shape.map_classDecl]
  rfl

theorem mapDeclarations_mapFields {t : Tree} (h : t.kind ≠ .block) :
    mapDeclarations f (mapFields f t) = mapFields f t :=
  mapDeclarations_of_kind (by rwa [kind_mapFields])

/-- What is left to do at a node below nodes of those kinds, once the classes in it are done. -/
def settle (f : List Modifier → List Modifier) : List Kind → Tree → Tree
  | .classDecl :: _, t => mapDeclarations f t
  | .block :: .classDecl :: _, t => mapDeclaration f t
  | _, t => t

theorem settle_below {kind : Kind} {kinds : List Kind} {t : Tree} (hclass : kind ≠ .classDecl)
    (hblock : kind ≠ .block) : settle f (kind :: kinds) t = t := by
  unfold settle
  split
  · next h => exact absurd (List.cons.inj h).1 hclass
  · next h => exact absurd (List.cons.inj h).1 hblock
  · rfl

theorem settle_block (kinds : List Kind) (l : Header) (statements : List Tree) :
    settle f kinds (.mk l (.block statements)) =
      .mk l (.block (statements.map (settle f (.block :: kinds)))) := by
  have hother : ∀ {kinds : List Kind}, (∀ ks, kinds ≠ .classDecl :: ks) →
      settle f (.block :: kinds) = fun t => t := by
    intro kinds hkinds
    funext t
    unfold settle
    split
    · next h => cases h
    · next h => exact absurd (List.cons.inj h).2 (hkinds _)
    · rfl
  rw [settle.eq_def]
  split
  · rfl
  · rw [hother (fun ks h => by cases h), List.map_id']
    rfl
  · next hclass _ => rw [hother hclass, List.map_id']

end Tree

/-! ### What a pass does -/

namespace ChangeFieldVisibility

variable {v : Visibility}

theorem change_eq (path : List Tree) (t : Tree) :
    change v path t = if isMember (.ofPath path) then Tree.mapDeclaration v.replaceIn t else t := by
  obtain ⟨l, s⟩ := t
  cases s with
  | variableDecls ms typeExpr declarators =>
    cases hmember : isMember (.ofPath path) with
    | false => simp [change, hmember]
    | true =>
      have hdecl : Tree.mapDeclaration v.replaceIn (.mk l (.variableDecls ms typeExpr declarators)) =
          .mk l (.variableDecls ((v.applyTo ms).getD ms) typeExpr declarators) := by
        rw [v.getD_applyTo]
        rfl
      rw [if_pos rfl, hdecl]
      cases hms : v.applyTo ms <;> simp [change, hmember, hms]
  | _ => exact (ite_self _).symm

/-- Whether a declaration is a member shows in the two kinds above it. -/
theorem isMember_iff {t : Tree} {above : List Tree} :
    isMember (.ofPath (t :: above)) = true ↔ ∃ kinds, above.map Labelled.kind = .block :: .classDecl :: kinds := by
  rcases above with _ | ⟨body, _ | ⟨owner, above⟩⟩ <;> simp [isMember, Cursor.ancestors]

theorem change_eq_settle {t t' : Tree} {above : List Tree} (hblock : t'.kind ≠ .block) :
    change v (t :: above) t' = Tree.settle v.replaceIn (above.map Labelled.kind) t' := by
  rw [change_eq]
  split
  · next hmember =>
    obtain ⟨kinds, hkinds⟩ := isMember_iff.1 hmember
    rw [hkinds]
    rfl
  · next hmember =>
    unfold Tree.settle
    split
    · exact (Tree.mapDeclarations_of_kind hblock).symm
    · next kinds hkinds => exact absurd (isMember_iff.2 ⟨kinds, hkinds⟩) hmember
    · rfl

/-- Among the children of a class the body alone is a block. -/
theorem kind_ne_block {l : Header} {ms : List Modifier} {name : String} {superclass : Option Tree}
    {interfaces : List Tree} {body : Tree} {classType : Option String}
    (hvalid : Labelled.slotValid (.mk l (.classDecl ms name superclass interfaces body classType))) :
    (∀ c ∈ superclass, c.kind ≠ .block) ∧ ∀ c ∈ interfaces, c.kind ≠ .block := by
  have htype : ∀ c : Tree, Slot.typeTree.accepts c.kind = true → c.kind ≠ .block := by
    intro c haccepts hblock
    rw [hblock] at haccepts
    cases haccepts
  have hslots := Labelled.slotValid_iff.1 hvalid
  constructor
  · rintro c rfl
    exact htype c (hslots (.typeTree, c) (by simp [Shape.slotted, Shape.opt])).1
  · intro c hc
    exact htype c (hslots (.typeTree, c) (by simp [Shape.slotted, Shape.many, hc])).1

/-- What the visitor has done to a tree, except for what goes by the nodes above it, is what is to be done to the
fields of the classes in it. -/
theorem rewrite_eq_settle {t : Tree} (hvalid : t.slotValid) (above : List Tree) :
    Tree.rewrite (change v) t above =
      Tree.settle v.replaceIn (above.map Labelled.kind) (Tree.mapFields v.replaceIn t) := by
  induction t using Labelled.ind generalizing above with
  | node l s ih =>
    have hbelow : Tree.rewriteBelow (change v) (.mk l s) above =
        .mk l (s.map fun c => Tree.settle v.replaceIn (s.kind :: above.map Labelled.kind)
          (Tree.mapFields v.replaceIn c)) :=
      congrArg _ (Shape.map_congr fun c hc => ih c hc (Labelled.slotValid_of_child hvalid hc) _)
    have hother : s.kind ≠ .classDecl → s.kind ≠ .block →
        Tree.rewrite (change v) (.mk l s) above =
          Tree.settle v.replaceIn (above.map Labelled.kind) (Tree.mapFields v.replaceIn (.mk l s)) := by
      intro hclass hblock
      have hkids : (s.map fun c => Tree.settle v.replaceIn (s.kind :: above.map Labelled.kind)
          (Tree.mapFields v.replaceIn c)) = s.map (Tree.mapFields v.replaceIn) :=
        Shape.map_congr fun c _ => Tree.settle_below hclass hblock
      rw [Tree.rewrite_eq, hbelow, hkids, ← Tree.mapFields_of_kind hclass]
      exact change_eq_settle (by rwa [Tree.kind_mapFields])
    cases s with
    | classDecl ms name superclass interfaces body classType =>
      -- The statements of the body are done; the types above it are no blocks.
      obtain ⟨hsuperclass, hinterfaces⟩ := kind_ne_block hvalid
      rw [Tree.rewrite_eq, hbelow, change_eq_settle (by rintro ⟨⟩), Tree.mapFields_classDecl, Shape.map_classDecl]
      congr 3
      · exact Option.map_congr fun c hc => Tree.mapDeclarations_mapFields (hsuperclass c hc)
      · exact List.map_congr_left fun c hc => Tree.mapDeclarations_mapFields (hinterfaces c hc)
    | block statements =>
      rw [Tree.rewrite_eq, hbelow, change_eq, Tree.mapDeclaration_of_kind (by rintro ⟨⟩), ite_self,
        Tree.mapFields_of_kind (by rintro ⟨⟩), Shape.map_block, Shape.map_block, Tree.settle_block, List.map_map]
      rfl
    | _ => exact hother (by rintro ⟨⟩) (by rintro ⟨⟩)

/-- **Exactly the fields.** A pass changes the modifiers of the declarations that stand right in the body of a
class, of each class in the tree, and nothing else. It gives each list of modifiers the visibility as `Revises`
says. -/
theorem pass_revises_fields (v : Visibility) (e : Engine) (n : Node) (cycle : Nat) (session : Session)
    (hvalid : n.slotValid) (hn : n.Predates session.supply.stamp) :
    ∃ m c,
      runPass (e.fuel n) (recipe v).gatedVisitor n (e.context (recipe v) cycle session) = .done m c ∧
      m.content = n.content.mapFields v.replaceIn ∧ ∀ ms, v.Revises ms (v.replaceIn ms) := by
  let r := StockRecipe.changeFieldVisibility v
  obtain ⟨m, c, hm, -, -, hcontent, -⟩ := r.pass_yields e n cycle session hvalid hn
  have hungated := (r.rewritten_eq_rewrite_iff e.hierarchy n.content).2 fun h => h.2
  refine ⟨m, c, hm, ?_, v.revises_replaceIn⟩
  rw [← Node.slotValid_content] at hvalid
  rw [hcontent, hungated]
  exact rewrite_eq_settle hvalid []

/-- A class with a field, and with a method that has a local variable and a class of its own with a field. -/
def nestedFields : Draft :=
  let declaration (id : UInt64) (ms : List Modifier) : Draft := .mk { id := some (.given id) }
    (.variableDecls ms none [.mk { id := some (.given (id + 1)) } (.namedVariable "x" none)])
  .mk { id := some (.given 1) } (.classDecl [] "C" none []
    (.mk { id := some (.given 2) } (.block [
      declaration 3 [.static, .publicAccess, .final],
      .mk { id := some (.given 5) } (.methodDecl [.publicAccess] none "f" [] (some
        (.mk { id := some (.given 6) } (.block [
          declaration 7 [.publicAccess, .final],
          .mk { id := some (.given 9) } (.classDecl [] "D" none []
            (.mk { id := some (.given 10) } (.block [
              declaration 11 [.final, .protectedAccess, .static, .publicAccess]])) none)]))) none)])) none)

/-- Both fields become private where they showed another visibility first. The local variable and the method
stay as they are. -/
theorem pass_revises_nested :
    let n := nestedFields.placed.1
    ∃ m c,
      runPass (Engine.fuel {} n) (recipe .privateAccess).gatedVisitor n
        (Engine.context {} (recipe .privateAccess) 1 nestedFields.placed.2) = .done m c ∧
      m.content.descendants.map (·.modifiers) = [[], [], [.static, .privateAccess, .final], [], [.publicAccess], [],
        [.publicAccess, .final], [], [], [], [.final, .privateAccess, .static], []] := by
  intro n
  obtain ⟨m, c, hm, hcontent, -⟩ := pass_revises_fields .privateAccess {} n 1 nestedFields.placed.2 (by decide)
    nestedFields.placed_predates
  refine ⟨m, c, hm, ?_⟩
  rw [hcontent]
  decide +kernel

end ChangeFieldVisibility

end Refactor
