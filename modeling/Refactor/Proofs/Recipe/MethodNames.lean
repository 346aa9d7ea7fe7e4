import Refactor.Proofs.Recipe.Gates
import Refactor.Proofs.Tree.Nodewise

/-!
# Names and types of methods

Calls and declarations of methods have a name and may have a method type, with a name of its own. A pass that
renames methods takes the two together: where the type is matched and the name is not the new one yet, both
become the new one (`pass_renames_matching`). So they stay in step if they were.
-/

namespace Refactor

namespace Shape

variable {α β : Type}

/-- The name and the type of the method that is called or declared, if it has a type. Constructor calls have
a type and no name. -/
def typedMethod : Shape α → Option (String × MethodType)
  | methodInvocation _ name _ type | methodDecl _ _ name _ _ type => type.map (name, ·)
  | _ => none

/-- The shape with the name and the type of its method, if it has both, replaced by a function of them. -/
def mapTypedMethod (f : String × MethodType → String × MethodType) : Shape α → Shape α
  | methodInvocation select name args (some type) =>
    methodInvocation select (f (name, type)).1 args (some (f (name, type)).2)
  | methodDecl ms returnType name parameters body (some type) =>
    methodDecl ms returnType (f (name, type)).1 parameters body (some (f (name, type)).2)
  | s => s

@[simp] theorem typedMethod_map (r : α → β) (s : Shape α) : (s.map r).typedMethod = s.typedMethod := by
  cases s <;> rfl

theorem typedMethod_mapTypedMethod (f : String × MethodType → String × MethodType) (s : Shape α) :
    (s.mapTypedMethod f).typedMethod = s.typedMethod.map f := by
  cases s with
  | methodInvocation _ _ _ type | methodDecl _ _ _ _ _ type => cases type <;> rfl
  | _ => rfl

end Shape

namespace Tree

/-- The node with the name and the type of its method replaced by a function of them. -/
def mapTypedMethod (f : String × MethodType → String × MethodType) (t : Tree) : Tree :=
  .mk t.label (t.shape.mapTypedMethod f)

/-- The methods that the tree calls and declares with a type, in pre-order. -/
def typedMethods (t : Tree) : List (String × MethodType) := t.descendants.filterMap (·.shape.typedMethod)

variable {f : String × MethodType → String × MethodType}

theorem nodewise_mapTypedMethod (f : String × MethodType → String × MethodType) :
    Nodewise (mapTypedMethod f) where
  children t := by
    obtain ⟨l, s⟩ := t
    cases s with
    | methodInvocation _ _ _ type | methodDecl _ _ _ _ _ type => cases type <;> rfl
    | _ => rfl
  natural l s r := by
    cases s with
    | methodInvocation _ _ _ type | methodDecl _ _ _ _ _ type => cases type <;> rfl
    | _ => rfl

theorem typedMethods_mapNodes (t : Tree) :
    (mapNodes (mapTypedMethod f) t).typedMethods = t.typedMethods.map f := by
  unfold typedMethods
  rw [(nodewise_mapTypedMethod f).filterMap_shape_mapNodes fun r s => Shape.typedMethod_map r s,
    List.map_filterMap]
  exact List.filterMap_congr fun d _ => Shape.typedMethod_mapTypedMethod f d.shape

end Tree

namespace ChangeMethodName

variable {h : Hierarchy} {pattern : MethodPattern} {newName : String}

/-- The name and the type of a method after a pass: both are given the new name, unless the method has it or
the pattern does not match the type. -/
def afterPass (h : Hierarchy) (pattern : MethodPattern) (newName : String) (m : String × MethodType) :
    String × MethodType :=
  if m.1 ≠ newName ∧ (pattern.matchesIn h m.2).value = true then (newName, { m.2 with name := newName }) else m

theorem change_eq_mapTypedMethod (path : List Tree) (t : Tree) :
    change h pattern newName path t = t.mapTypedMethod (afterPass h pattern newName) := by
  obtain ⟨l, s⟩ := t
  unfold change MethodPattern.matchesTree
  cases s with
  | methodInvocation _ name _ type | methodDecl _ _ name _ _ type =>
    cases type with
    | none => exact if_neg fun hcond => Bool.false_ne_true hcond.2
    | some type =>
      rw [Tree.mapTypedMethod, Labelled.shape_mk, Shape.mapTypedMethod]
      by_cases hcond : name ≠ newName ∧ (pattern.matchesIn h type).value = true
      · have hafter : afterPass h pattern newName (name, type) = (newName, { type with name := newName }) :=
          if_pos hcond
        rw [hafter]
        exact if_pos ⟨fun hname => hcond.1 (Option.some.inj hname), hcond.2⟩
      · have hafter : afterPass h pattern newName (name, type) = (name, type) := if_neg hcond
        rw [hafter]
        exact if_neg fun hcond' => hcond ⟨fun hname => hcond'.1 (congrArg some hname), hcond'.2⟩
  | _ => exact ite_self _

/-- A name in step with its type stays so. -/
theorem afterPass_inStep {m : String × MethodType} (hm : m.1 = m.2.name) :
    (afterPass h pattern newName m).1 = (afterPass h pattern newName m).2.name := by
  unfold afterPass
  split
  · rfl
  · exact hm

/-- **What a pass renames.** The name and the type of each call and each declaration whose type the pattern
matches are given the new name together, unless the name is the new one already. All else is left as it was,
constructor calls among it. So each name that was in step with its type is in step after the pass. -/
theorem pass_renames_matching (pattern : MethodPattern) (newName : String) (e : Engine) (n : Node)
    (cycle : Nat) (session : Session) (hvalid : n.slotValid) (hn : n.Predates session.supply.stamp) :
    ∃ m c,
      runPass (e.fuel n) (recipe pattern newName).gatedVisitor n
        (e.context (recipe pattern newName) cycle session) = .done m c ∧
      m.content = n.content.mapNodes (Tree.mapTypedMethod (afterPass e.hierarchy pattern newName)) ∧
      ((∀ method ∈ n.content.typedMethods, method.1 = method.2.name) →
        ∀ method ∈ m.content.typedMethods, method.1 = method.2.name) := by
  let r := StockRecipe.changeMethodName pattern newName
  obtain ⟨m, c, hm, -, -, hcontent, -⟩ := r.pass_yields e n cycle session hvalid hn
  have hungated := (r.rewritten_eq_rewrite_iff e.hierarchy n.content).2 fun h => h.2
  have hcontent : m.content =
      n.content.mapNodes (Tree.mapTypedMethod (afterPass e.hierarchy pattern newName)) := by
    rw [hcontent, hungated]
    exact Tree.rewrite_eq_mapNodes change_eq_mapTypedMethod n.content []
  refine ⟨m, c, hm, hcontent, fun hstep => ?_⟩
  rw [hcontent, Tree.typedMethods_mapNodes, List.forall_mem_map]
  exact fun method hmethod => afterPass_inStep (hstep method hmethod)

/-- `void set() { a.get(a.get()); new a.B(); }` in the class `a.B`. -/
def nestedCalls : Draft :=
  .mk { id := some (.given 1) } (.methodDecl [] none "set" [] (some
    (.mk { id := some (.given 2) } (.block [
      .mk { id := some (.given 3) } (.methodInvocation (some (.mk { id := some (.given 4) } (.identifier "a"))) "get"
        [.mk { id := some (.given 5) } (.methodInvocation
          (some (.mk { id := some (.given 6) } (.identifier "a"))) "get" [] (some ⟨"a.B", "get", [], some "int"⟩))]
        (some ⟨"a.B", "get", ["int"], none⟩)),
      .mk { id := some (.given 7) } (.newClass (.mk { id := some (.given 8) } (.typeRef "a.B")) []
        (some ⟨"a.B", "<constructor>", [], none⟩))])))
    (some ⟨"a.B", "set", [], none⟩))

/-- Both calls and the declaration are renamed, one call inside the other. The constructor call is matched as
well, and is not. -/
theorem pass_renames_nested :
    let pattern := (MethodPattern.compile "a.B *(..)").toOption.getD default
    let n := nestedCalls.placed.1
    ∃ m c,
      runPass (Engine.fuel {} n) (recipe pattern "put").gatedVisitor n
        (Engine.context {} (recipe pattern "put") 1 nestedCalls.placed.2) = .done m c ∧
      m.content.typedMethods = [("put", ⟨"a.B", "put", [], none⟩), ("put", ⟨"a.B", "put", ["int"], none⟩),
        ("put", ⟨"a.B", "put", [], some "int"⟩)] ∧
      m.content.descendants.filterMap (·.methodType) = [⟨"a.B", "put", [], none⟩, ⟨"a.B", "put", ["int"], none⟩,
        ⟨"a.B", "put", [], some "int"⟩, ⟨"a.B", "<constructor>", [], none⟩] := by
  intro pattern n
  obtain ⟨m, c, hm, hcontent, -⟩ := pass_renames_matching pattern "put" {} n 1 nestedCalls.placed.2 (by decide)
    nestedCalls.placed_predates
  refine ⟨m, c, hm, ?_, ?_⟩ <;> rw [hcontent] <;> decide +kernel

end ChangeMethodName

end Refactor
