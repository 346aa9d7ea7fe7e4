import Refactor.Proofs.Recipe.VariableScopes

/-!
# Types in the scope of a renamed variable

Identifiers and field accesses stand for types as well as for values, and a renaming does not ask where an
identifier stands. So a type is left alone exactly if no identifier in it has the variable's name where that
name leads to the variable's scope (`pass_keeps_type_iff`). A type declares nothing, hence what a name in it
leads to is settled above it.
-/

namespace Refactor

/-! ### Types and expressions -/

/-- The kind is that of an expression, or can stand as a type. -/
def Kind.isTerm (k : Kind) : Bool := k.isExpression || k.isTypeTree

theorem Shape.slot_of_isTerm {α : Type} {s : Shape α} (h : s.kind.isTerm = true) {p : Slot × α}
    (hp : p ∈ s.slotted) : p.1 = .expression ∨ p.1 = .typeTree := by
  cases s with
  | methodInvocation | newClass | fieldAccess | parenthesized | unary | binary | assignment =>
    simp only [slotted, opt, many, List.mem_append, List.mem_cons, List.mem_map, List.not_mem_nil] at hp
    grind
  | identifier | literal | typeRef => exact absurd hp List.not_mem_nil
  | _ => cases h

namespace Tree

/-- The names of the identifiers in the tree, in pre-order. -/
def identifierNames (t : Tree) : List String :=
  t.descendants.filterMap fun d => if d.kind = .identifier then d.simpleName else none

theorem mem_identifierNames {t : Tree} {name : String} :
    name ∈ t.identifierNames ↔ ∃ d ∈ t.descendants, d.kind = .identifier ∧ d.simpleName = some name := by
  simp [identifierNames]

/-- The node with that way up stands where its parent takes a type. -/
def StandsAsType : List Tree → Prop
  | t :: parent :: _ => (Slot.typeTree, t) ∈ parent.shape.slotted
  | _ => False

/-- All of a type or an expression is types and expressions. -/
theorem isTerm_of_mem {t d : Tree} (hvalid : t.slotValid) (ht : t.kind.isTerm = true)
    (hd : d ∈ t.descendants) : d.kind.isTerm = true := by
  induction t using Labelled.ind with
  | node l s ih =>
    rcases Labelled.mem_descendants.1 hd with rfl | ⟨c, hc, hdc⟩
    · exact ht
    · obtain ⟨slot, hslot⟩ := Shape.exists_slotted_of_children hc
      obtain ⟨haccepts, hcvalid⟩ := Labelled.slotValid_iff.1 hvalid _ hslot
      refine ih c hc hcvalid ?_ hdc
      rcases Shape.slot_of_isTerm ht hslot with rfl | rfl
      · exact Bool.or_eq_true_iff.2 (Or.inl haccepts)
      · exact Bool.or_eq_true_iff.2 (Or.inr haccepts)

theorem declaresName_of_isTerm {t : Tree} (h : t.kind.isTerm = true) (name : String) :
    t.declaresName name = false := by
  obtain ⟨l, s⟩ := t
  cases s with
  | block | methodDecl | classDecl => cases h
  | _ => rfl

/-- A node with that way up is of the sort that its slot takes. -/
theorem isTerm_of_standsAsType {t d : Tree} {up : List Tree} (hvalid : t.slotValid)
    (hpath : d :: up ∈ t.paths []) (htype : StandsAsType (d :: up)) :
    d.slotValid = true ∧ d.kind.isTerm = true := by
  cases up with
  | nil => exact htype.elim
  | cons parent up =>
    have hparent : parent ∈ t.descendants := by simpa using Labelled.mem_of_mem_paths hpath (by simp)
    obtain ⟨haccepts, hdvalid⟩ := Labelled.slotValid_iff.1 (Labelled.slotValid_of_mem hvalid hparent) _ htype
    exact ⟨hdvalid, Bool.or_eq_true_iff.2 (Or.inr haccepts)⟩

end Tree

namespace Labelled

variable {β : Type} {t : Labelled β} {above : List (Labelled β)}

theorem mem_descendants_of_paths {d : Labelled β} {up : List (Labelled β)} (h : d :: up ∈ t.paths above) :
    d ∈ t.descendants := by
  have hhead : some d ∈ (t.paths above).map List.head? := List.mem_map_of_mem (f := List.head?) h
  rw [heads_paths] at hhead
  simpa using hhead

/-- What is not found in the tree is looked for above it. -/
theorem find?_of_mem_paths {p : Labelled β → Bool} {path : List (Labelled β)}
    (h : ∀ d ∈ t.descendants, p d = false) (hpath : path ∈ t.paths above) :
    path.tail.find? p = above.find? p := by
  induction t using ind generalizing above with
  | node l s ih =>
    rw [paths_mk, List.mem_cons, List.mem_flatMap] at hpath
    rcases hpath with rfl | ⟨c, hc, hpath⟩
    · rfl
    · rw [ih c hc (fun d hd => h d (mem_descendants.2 (Or.inr ⟨c, hc, hd⟩))) hpath,
        List.find?_cons_of_neg (by simp [h _ (self_mem_descendants (mk l s))])]

end Labelled

/-! ### Rewriting the node at a place -/

namespace Tree

variable {change change' : List Tree → Tree → Tree}

theorem rewrite_congr {t : Tree} {above : List Tree}
    (h : ∀ d up, d :: up ∈ t.paths above → ∀ t', change (d :: up) t' = change' (d :: up) t') :
    rewrite change t above = rewrite change' t above := by
  induction t using Labelled.ind generalizing above with
  | node l s ih =>
    have hkids : ∀ c ∈ s.children, rewrite change c (.mk l s :: above) = rewrite change' c (.mk l s :: above) :=
      fun c hc => ih c hc fun d up hd => h d up (Labelled.paths_subset_of_child (t := .mk l s) hc hd)
    rw [rewrite_eq, rewrite_eq, h _ _ (Labelled.self_mem_paths _ _), rewriteBelow, rewriteBelow,
      Labelled.shape_mk, Shape.map_congr hkids]

/-- What a place holds after the rewriting is what is rewritten there. -/
theorem InPlace.mem_descendants_rewrite (hc : InPlace change) {t d : Tree} {up : List Tree}
    (hpath : d :: up ∈ t.paths []) :
    rewrite change d up ∈ (rewrite change t []).descendants ∧ (rewrite change d up).label.id = d.label.id := by
  have hmem : rewritePath change (d :: up) ∈ (rewrite change t []).paths [] := by
    have hpaths : (rewrite change t []).paths [] = (t.paths []).map (rewritePath change) := hc.paths_rewrite t []
    rw [hpaths]
    exact List.mem_map_of_mem hpath
  refine ⟨?_, ?_⟩
  · simpa using Labelled.mem_of_mem_paths hmem (List.mem_cons_self (a := rewrite change d up))
  · rw [rewrite_eq, hc.id]
    rfl

end Tree

namespace RenameVariable

/-! ### Types that are taken for uses -/

/-- An identifier in the tree below those nodes is taken for a use of the variable: it has the variable's name,
another than the new one, and the nearest node above that declares the name is the variable's scope. -/
def TakesForUse (t : Tree) (declaration : NodeId) (new : String) (d : Tree) (up : List Tree) : Prop :=
  ∃ scope v old, Binds t scope v old ∧ v.label.id = declaration ∧ old ≠ new ∧
    (up.find? (·.declaresName old)).any (·.label.id = scope.label.id) = true ∧ old ∈ d.identifierNames

variable {t d : Tree} {up : List Tree} {declaration : NodeId} {new : String}

/-- Where no name is pending the declaration is renamed, and no type has it in it. -/
theorem rewrite_declare_eq_self (hvalid : d.slotValid) (hterm : d.kind.isTerm = true) :
    Tree.rewrite (fun _ => declare declaration new) d up = d := by
  refine Tree.rewrite_eq_self_of_paths fun u w hu => if_neg fun hcond => ?_
  have huterm := Tree.isTerm_of_mem hvalid hterm (Labelled.mem_descendants_of_paths hu)
  rw [hcond.1] at huterm
  cases huterm

/-- **No binding, no change.** Where no name is pending, what stands as a type is left alone. -/
theorem exists_type_of_none (hvalid : t.slotValid) (hnodup : t.ids.Nodup)
    (hnone : ∀ a ∈ t.descendants, pending declaration new a = none) (hpath : d :: up ∈ t.paths [])
    (htype : Tree.StandsAsType (d :: up)) :
    ∃ d' ∈ (Tree.rewrite (change declaration new) t []).descendants, d'.label.id = d.label.id ∧
      (d' = d ↔ ¬ TakesForUse t declaration new d up) := by
  have hdeclare : Tree.rewrite (change declaration new) t [] =
      Tree.rewrite (fun _ => declare declaration new) t [] := by
    refine Tree.rewrite_congr fun a w ha t' => ?_
    simp only [change, hnone a (Labelled.mem_descendants_of_paths ha)]
  obtain ⟨hdvalid, hdterm⟩ := Tree.isTerm_of_standsAsType hvalid hpath htype
  obtain ⟨hmem, -⟩ := (declare_inPlace declaration new).mem_descendants_rewrite hpath
  rw [rewrite_declare_eq_self hdvalid hdterm] at hmem
  refine ⟨d, hdeclare ▸ hmem, rfl, iff_of_true rfl ?_⟩
  rintro ⟨scope, v, old, hbinds, rfl, hne, -⟩
  have hsome := hbinds.pending_scope hnodup hne.symm
  rw [hnone scope hbinds.mem] at hsome
  cases hsome

namespace Binds

variable {scope v : Tree} {old : String} (h : Binds t scope v old) (hnodup : t.ids.Nodup)
include h hnodup

theorem takesForUse_iff (hnew : new ≠ old) :
    TakesForUse t v.label.id new d up ↔
      (up.find? (·.declaresName old)).any (·.label.id = scope.label.id) = true ∧ old ∈ d.identifierNames := by
  constructor
  · rintro ⟨scope', v', old', h', hid, -, hleads, hmem⟩
    obtain ⟨decls, hdecls, hv'⟩ := h'.declares
    obtain rfl := h.eq_scope hnodup h'.mem hdecls hv' hid
    obtain rfl := Tree.eq_of_id (Tree.nodup_of_mem hnodup h.mem) h'.mem_scope h.mem_scope hid
    obtain rfl := Option.some.inj (h'.named.symm.trans h.named)
    exact ⟨hleads, hmem⟩
  · rintro ⟨hleads, hmem⟩
    exact ⟨scope, v, old, h, rfl, hnew.symm, hleads, hmem⟩

variable (hvalid : t.slotValid) (hpath : d :: up ∈ t.paths []) (htype : Tree.StandsAsType (d :: up))
include hvalid hpath htype

/-- In a type, the sites are the identifiers of the variable's name, if that leads to the scope. -/
theorem isSite_iff {u : Tree} {w : List Tree} (hu : u :: w ∈ d.paths up) :
    isSite v.label.id scope.label.id old (u :: w) = true ↔
      u.kind = .identifier ∧ u.simpleName = some old ∧
        (up.find? (·.declaresName old)).any (·.label.id = scope.label.id) = true := by
  obtain ⟨hdvalid, hdterm⟩ := Tree.isTerm_of_standsAsType hvalid hpath htype
  have hterm : ∀ a ∈ d.descendants, a.kind.isTerm = true := fun a ha => Tree.isTerm_of_mem hdvalid hdterm ha
  have hud := Labelled.mem_descendants_of_paths hu
  have hid : u.label.id ≠ v.label.id := by
    intro hid
    have hut := Labelled.mem_descendants_trans hud (Labelled.mem_descendants_of_paths hpath)
    have huterm := hterm u hud
    rw [Tree.eq_of_id hnodup hut (Labelled.mem_descendants_trans h.mem_scope h.mem) hid,
      h.kind_variable hvalid] at huterm
    cases huterm
  have hfind : w.find? (·.declaresName old) = up.find? (·.declaresName old) :=
    Labelled.find?_of_mem_paths (fun a ha => Tree.declaresName_of_isTerm (hterm a ha) old) hu
  simp [isSite, hid, hfind, and_assoc]

variable (hnew : new ≠ old)
include hnew

/-- A type is changed if its names lead to the scope and the variable's is among them. -/
theorem renameWhere_type_iff :
    d.renameWhere (isSite v.label.id scope.label.id old) new up = d ↔
      ¬ TakesForUse t v.label.id new d up := by
  have hsite := fun {u w} => h.isSite_iff hnodup hvalid hpath htype (u := u) (w := w)
  rw [h.takesForUse_iff hnodup hnew, Tree.mem_identifierNames, Tree.renameWhere,
    (Tree.renameWhere_inPlace _ _).rewrite_eq_self_iff]
  constructor
  · rintro hsame ⟨hleads, u, hu, hkind, hname⟩
    obtain ⟨w, hw⟩ := Labelled.exists_mem_paths hu up
    have hrenamed := hsame u w hw
    rw [if_pos ((hsite hw).2 ⟨hkind, hname, hleads⟩)] at hrenamed
    obtain ⟨l, s⟩ := u
    obtain ⟨name, rfl⟩ := Shape.eq_identifier hkind
    cases hrenamed
    exact hnew (Option.some.inj hname)
  · intro hnone u w hw
    refine if_neg fun hu => hnone ?_
    obtain ⟨hkind, hname, hleads⟩ := (hsite hw).1 hu
    exact ⟨hleads, u, Labelled.mem_descendants_of_paths hw, hkind, hname⟩

theorem exists_type :
    ∃ d' ∈ (Tree.rewrite (change v.label.id new) t []).descendants, d'.label.id = d.label.id ∧
      (d' = d ↔ ¬ TakesForUse t v.label.id new d up) := by
  have hsites := h.rewrite_eq_sites hnodup hvalid hnew (Labelled.self_mem_descendants _) h.mem
    fun b hb => absurd hb List.not_mem_nil
  obtain ⟨hmem, hid⟩ :=
    (Tree.renameWhere_inPlace (isSite v.label.id scope.label.id old) new).mem_descendants_rewrite hpath
  exact ⟨_, hsites ▸ hmem, hid, h.renameWhere_type_iff hnodup hvalid hpath htype hnew⟩

end Binds

/-- **Which types a renaming leaves alone.** In every tree with distinct ids, and for every id and every new name,
a pass succeeds and keeps the ids. What stands in a slot for types stays as it is exactly if no identifier in it is
taken for a use of the variable. -/
theorem pass_keeps_type_iff (e : Engine) (n : Node) (declaration : NodeId) (new : String) (cycle : Nat)
    (session : Session) (hvalid : n.slotValid) (hids : n.content.ids.Nodup)
    (hn : n.Predates session.supply.stamp) :
    ∃ m c, runPass (e.fuel n) (recipe declaration new).gatedVisitor n
        (e.context (recipe declaration new) cycle session) = .done m c ∧
      m.content.ids = n.content.ids ∧
      ∀ d up, d :: up ∈ n.content.paths [] → Tree.StandsAsType (d :: up) →
        ∃ d' ∈ m.content.descendants, d'.label.id = d.label.id ∧
          (d' = d ↔ ¬ TakesForUse n.content declaration new d up) := by
  obtain ⟨m, c, hm, -, -, hcontent, -⟩ :=
    (StockRecipe.renameVariable declaration new).pass_yields e n cycle session hvalid hn
  have hcontent : m.content = Tree.rewrite (change declaration new) n.content [] := hcontent
  rw [← Node.slotValid_content] at hvalid
  refine ⟨m, c, hm, ?_, fun d up hpath htype => ?_⟩
  · rw [hcontent]
    exact Tree.ids_rewrite (ids_change declaration new) n.content []
  rw [hcontent]
  by_cases hnone : ∀ a ∈ n.content.descendants, pending declaration new a = none
  · exact exists_type_of_none hvalid hids hnone hpath htype
  · obtain ⟨scope, hscope, hsome⟩ : ∃ a ∈ n.content.descendants, pending declaration new a ≠ none := by
      simpa using hnone
    obtain ⟨old, hold⟩ := Option.ne_none_iff_exists'.1 hsome
    obtain ⟨decls, hdecls, v, hv, rfl, hname, hne⟩ := exists_of_pending hold
    have hbinds : Binds n.content scope v old := ⟨hscope, ⟨decls, hdecls, hv⟩, hname⟩
    exact hbinds.exists_type hids hvalid hpath htype hne.symm

/-- A method with a parameter `x` of the type `T`, which returns the type `x`. -/
def typedMethod : Draft :=
  .mk { id := some (.given 1) } (.methodDecl [] (some (.mk { id := some (.given 2) } (.identifier "x"))) "f"
    [.mk { id := some (.given 3) } (.variableDecls [] (some (.mk { id := some (.given 4) } (.identifier "T")))
      [.mk { id := some (.given 5) } (.namedVariable "x" none)])] none none)

/-- The type of the parameter is left alone, and the type that is returned is not. -/
theorem pass_keeps_type_parameter :
    let n := typedMethod.placed.1
    ∃ m c, runPass (Engine.fuel {} n) (recipe (.given 5) "y").gatedVisitor n
        (Engine.context {} (recipe (.given 5) "y") 1 typedMethod.placed.2) = .done m c ∧
      (∃ d' ∈ m.content.descendants, d'.label.id = .given 4 ∧ d' = .mk ⟨.given 4, "", []⟩ (.identifier "T")) ∧
      ∃ d' ∈ m.content.descendants, d'.label.id = .given 2 ∧ d' ≠ .mk ⟨.given 2, "", []⟩ (.identifier "x") := by
  intro n
  let v : Tree := .mk ⟨.given 5, "", []⟩ (.namedVariable "x" none)
  have hbinds : Binds n.content n.content v "x" :=
    ⟨Labelled.self_mem_descendants _, ⟨_, List.mem_cons_self, List.mem_cons_self⟩, rfl⟩
  have hids : n.content.ids.Nodup := by decide
  obtain ⟨m, c, hm, -, htypes⟩ := pass_keeps_type_iff {} n (.given 5) "y" 1 typedMethod.placed.2 (by decide) hids
    typedMethod.placed_predates
  refine ⟨m, c, hm, ?_, ?_⟩
  · obtain ⟨d', hd', hid, hkept⟩ := htypes (.mk ⟨.given 4, "", []⟩ (.identifier "T")) _
      (List.mem_of_getElem? (i := 3) rfl) List.mem_cons_self
    refine ⟨d', hd', hid, hkept.2 fun htakes => ?_⟩
    exact absurd ((hbinds.takesForUse_iff hids (by decide)).1 htakes) (by decide)
  · obtain ⟨d', hd', hid, hkept⟩ := htypes (.mk ⟨.given 2, "", []⟩ (.identifier "x")) _
      (List.mem_of_getElem? (i := 1) rfl) List.mem_cons_self
    refine ⟨d', hd', hid, fun heq => hkept.1 heq ?_⟩
    exact (hbinds.takesForUse_iff hids (by decide)).2 (by decide)

/-- **A type that is renamed.** The type that the method returns has the name of its parameter, and a pass that
renames the parameter replaces it. -/
theorem pass_renames_type :
    let n := typedMethod.placed.1
    ∃ m c, runPass (Engine.fuel {} n) (recipe (.given 5) "y").gatedVisitor n
        (Engine.context {} (recipe (.given 5) "y") 1 typedMethod.placed.2) = .done m c ∧
      ∃ d up, d :: up ∈ n.content.paths [] ∧ Tree.StandsAsType (d :: up) ∧ d ∉ m.content.descendants := by
  intro n
  obtain ⟨m, c, hm, -, -, hcontent, -⟩ := (StockRecipe.renameVariable (.given 5) "y").pass_yields {}
    n 1 typedMethod.placed.2 (by decide) typedMethod.placed_predates
  refine ⟨m, c, hm, .mk ⟨.given 2, "", []⟩ (.identifier "x"), _, List.mem_of_getElem? (i := 1) rfl,
    List.mem_cons_self, fun hmem => ?_⟩
  have hname : "x" ∈ m.content.identifierNames := Tree.mem_identifierNames.2 ⟨_, hmem, rfl, rfl⟩
  rw [hcontent] at hname
  revert hname
  decide +kernel

end RenameVariable

end Refactor
