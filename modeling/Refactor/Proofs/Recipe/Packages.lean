import Refactor.Proofs.Visit.Local
import Refactor.Recipe.Packages

/-!
# Moving packages, on content

A move replaces the beginning of a name and keeps the rest. Nothing keeps the new name from being
part of the old package again: names that are moved twice exist exactly if one of the two packages
goes on where the other ends (`exists_movedTwice_iff`), and that is the only thing that can bring a
second pass to work.
-/

namespace Refactor

/-! ### Names -/

theorem afterStart_eq_some {package value suffix : List Char} :
    afterStart package value = some suffix ↔ value = package ++ suffix := by
  induction package generalizing value with
  | nil => simp [afterStart, eq_comm]
  | cons p ps ih =>
    cases value with
    | nil => simp [afterStart]
    | cons c cs =>
      by_cases h : p = c
      · simp [afterStart, h, ih]
      · simp [afterStart, h, Ne.symm h]

namespace RenamePolicy

/-- What may follow the name of the package in a name that is part of it. -/
def Covered (policy : RenamePolicy) (suffix : List Char) : Prop :=
  suffix = [] ∨ ∃ segment, suffix = '.' :: segment ∧ policy.covers segment

theorem coveredSuffix_eq_some {policy : RenamePolicy} {package value suffix : List Char} :
    policy.coveredSuffix package value = some suffix ↔
      value = package ++ suffix ∧ policy.Covered suffix := by
  unfold coveredSuffix
  constructor
  · intro h
    obtain ⟨rest, hrest, h⟩ := Option.bind_eq_some_iff.1 h
    rw [afterStart_eq_some] at hrest
    split at h
    · cases h
      exact ⟨hrest, Or.inl rfl⟩
    · -- Past the name of the package itself, only what follows a dot can belong to it.
      next segment =>
      split at h
      · next hcovers =>
        cases h
        exact ⟨hrest, Or.inr ⟨segment, rfl, hcovers⟩⟩
      · cases h
    · cases h
  · rintro ⟨hvalue, rfl | ⟨segment, rfl, hcovers⟩⟩
    · rw [afterStart_eq_some.2 hvalue]
      rfl
    · rw [afterStart_eq_some.2 hvalue]
      simp [hcovers]

theorem covers_recursive {segment : List Char} : recursive.covers segment ↔ segment ≠ [] := by
  cases segment <;> simp [covers]

end RenamePolicy

namespace PackageMatcher

variable {m : PackageMatcher} {new value : String}

theorem matchesName_iff : m.matchesName value ↔
    ∃ suffix, value.toList = m.package.toList ++ suffix ∧ m.policy.Covered suffix := by
  rw [matchesName, Option.isSome_iff_exists]
  exact exists_congr fun _ => RenamePolicy.coveredSuffix_eq_some

theorem moved_eq_some {value' : String} : m.moved new value = some value' ↔
    new ≠ m.package ∧ ∃ suffix, value.toList = m.package.toList ++ suffix ∧
      m.policy.Covered suffix ∧ value'.toList = new.toList ++ suffix := by
  unfold moved rename
  rw [Option.filter_eq_some_iff, Option.map_eq_some_iff]
  constructor
  · rintro ⟨⟨suffix, hsuffix, rfl⟩, hne⟩
    obtain ⟨hvalue, hcovered⟩ := RenamePolicy.coveredSuffix_eq_some.1 hsuffix
    refine ⟨?_, suffix, hvalue, hcovered, by simp⟩
    rintro rfl
    exact of_decide_eq_true hne (String.toList_injective (by simp [hvalue]))
  · rintro ⟨hnew, suffix, hvalue, hcovered, hvalue'⟩
    have heq : new ++ String.ofList suffix = value' := String.toList_injective (by simp [hvalue'])
    refine ⟨⟨suffix, RenamePolicy.coveredSuffix_eq_some.2 ⟨hvalue, hcovered⟩, heq⟩, ?_⟩
    refine decide_eq_true fun h => hnew (String.toList_injective ?_)
    rw [h, hvalue] at hvalue'
    exact (List.append_cancel_right hvalue').symm

/-- If the packages differ, a name is moved if it is part of the old one. -/
theorem isSome_moved : (m.moved new value).isSome ↔ new ≠ m.package ∧ m.matchesName value := by
  rw [Option.isSome_iff_exists, matchesName_iff]
  constructor
  · rintro ⟨value', h⟩
    obtain ⟨hnew, suffix, hvalue, hcovered, -⟩ := moved_eq_some.1 h
    exact ⟨hnew, suffix, hvalue, hcovered⟩
  · rintro ⟨hnew, suffix, hvalue, hcovered⟩
    exact ⟨new ++ String.ofList suffix, moved_eq_some.2 ⟨hnew, suffix, hvalue, hcovered, by simp⟩⟩

theorem ne_of_moved {value' : String} (h : m.moved new value = some value') : value' ≠ value := by
  unfold moved at h
  exact of_decide_eq_true (Option.filter_eq_some_iff.1 h).2

/-- The name is moved, and the name it gets would be moved again. -/
def MovedTwice (m : PackageMatcher) (new value : String) : Prop :=
  ((m.moved new value).bind (m.moved new)).isSome

instance : Decidable (m.MovedTwice new value) := inferInstanceAs (Decidable (_ = true))

theorem movedTwice_iff : m.MovedTwice new value ↔
    ∃ value', m.moved new value = some value' ∧ m.matchesName value' := by
  unfold MovedTwice
  constructor
  · intro h
    obtain ⟨value'', h⟩ := Option.isSome_iff_exists.1 h
    obtain ⟨value', hvalue', h⟩ := Option.bind_eq_some_iff.1 h
    exact ⟨value', hvalue', (isSome_moved.1 (Option.isSome_of_eq_some h)).2⟩
  · rintro ⟨value', h, hmatches⟩
    rw [h]
    exact isSome_moved.2 ⟨(moved_eq_some.1 h).1, hmatches⟩

end PackageMatcher

/-- The second name goes on after the first with a dot and something that, for the types of a
package alone, has to be the name of a type. -/
def RenamePolicy.GoesOn (policy : RenamePolicy) (first second : String) : Prop :=
  ∃ rest, second.toList = first.toList ++ '.' :: rest ∧
    (policy = .exactSegment → policy.covers rest)

namespace RenamePolicy

variable {policy : RenamePolicy}

/-- No name of a type starts with a dot. -/
theorem covers_of_append {segment rest : List Char} (hpolicy : policy = .exactSegment)
    (h : policy.covers (segment ++ rest)) (hrest : policy.Covered rest) : policy.covers segment := by
  subst hpolicy
  cases segment with
  | cons c segment => exact h
  | nil =>
    rcases hrest with rfl | ⟨tail, rfl, -⟩
    · exact h
    · have hdot : Text.isUppercase '.' = false := by decide
      simp [covers, hdot] at h

theorem goesOn_of_covered {first second : String} {between rest : List Char} (hne : second ≠ first)
    (hsecond : second.toList = first.toList ++ between) (hcovered : policy.Covered (between ++ rest))
    (hrest : policy.Covered rest) : policy.GoesOn first second := by
  cases between with
  | nil => exact absurd (String.toList_injective (by simpa using hsecond)) hne
  | cons c between =>
    rcases hcovered with h | ⟨segment, h, hcovers⟩
    · cases h
    · rw [List.cons_append, List.cons.injEq] at h
      obtain ⟨rfl, rfl⟩ := h
      exact ⟨between, hsecond, fun hpolicy => covers_of_append hpolicy hcovers hrest⟩

/-- Whatever follows the dot, some name goes on from there. -/
theorem exists_covered {rest : List Char} (h : policy = .exactSegment → policy.covers rest) :
    ∃ tail, policy.Covered tail ∧ policy.covers (rest ++ tail) := by
  cases policy with
  | recursive => exact ⟨['.', 'x'], Or.inr ⟨['x'], rfl, rfl⟩, covers_recursive.2 (by simp)⟩
  | exactSegment => exact ⟨[], Or.inl rfl, by simpa using h rfl⟩

end RenamePolicy

namespace PackageMatcher

variable {m : PackageMatcher} {new : String}

theorem goesOn_of_movedTwice {value : String} (h : m.MovedTwice new value) :
    m.policy.GoesOn m.package new ∨ m.policy.GoesOn new m.package := by
  obtain ⟨value', hmoved, hmatches⟩ := movedTwice_iff.1 h
  obtain ⟨hne, suffix, -, hcovered, hvalue'⟩ := moved_eq_some.1 hmoved
  obtain ⟨suffix', hvalue'', hcovered'⟩ := matchesName_iff.1 hmatches
  -- The new name starts with both packages, so one of them is a beginning of the other.
  rw [hvalue', List.append_eq_append_iff] at hvalue''
  rcases hvalue'' with ⟨between, hold, rfl⟩ | ⟨between, hnew, rfl⟩
  · exact Or.inr (RenamePolicy.goesOn_of_covered hne.symm hold hcovered hcovered')
  · exact Or.inl (RenamePolicy.goesOn_of_covered hne hnew hcovered' hcovered)

theorem movedTwice_of_goesOn
    (h : m.policy.GoesOn m.package new ∨ m.policy.GoesOn new m.package) :
    ∃ value, m.MovedTwice new value := by
  have hne : ∀ {first second : String} {rest : List Char},
      second.toList = first.toList ++ '.' :: rest → second ≠ first := by
    rintro first second rest h rfl
    simpa using congrArg List.length h
  rcases h with ⟨rest, hnew, hrest⟩ | ⟨rest, hold, hrest⟩ <;>
    obtain ⟨tail, htail, hcovers⟩ := RenamePolicy.exists_covered hrest
  · refine ⟨.ofList (m.package.toList ++ tail), movedTwice_iff.2 ⟨.ofList (new.toList ++ tail), ?_, ?_⟩⟩
    · exact moved_eq_some.2 ⟨hne hnew, tail, by simp, htail, by simp⟩
    · exact matchesName_iff.2 ⟨'.' :: (rest ++ tail), by simp [hnew], Or.inr ⟨_, rfl, hcovers⟩⟩
  · refine ⟨.ofList (m.package.toList ++ '.' :: (rest ++ tail)),
      movedTwice_iff.2 ⟨.ofList (m.package.toList ++ tail), ?_, ?_⟩⟩
    · exact moved_eq_some.2 ⟨(hne hold).symm, '.' :: (rest ++ tail), by simp,
        Or.inr ⟨_, rfl, hcovers⟩, by simp [hold]⟩
    · exact matchesName_iff.2 ⟨tail, by simp, htail⟩

/-- **Names that are moved twice** exist exactly if one of the two packages goes on where the other
ends. -/
theorem exists_movedTwice_iff : (∃ value, m.MovedTwice new value) ↔
    m.policy.GoesOn m.package new ∨ m.policy.GoesOn new m.package :=
  ⟨fun ⟨_, h⟩ => goesOn_of_movedTwice h, movedTwice_of_goesOn⟩

end PackageMatcher

/-! ### Nodes -/

namespace Shape

variable {α β : Type}

/-- The full name that a node holds: the name it refers to, or that of the class it declares. -/
def fullName : Shape α → Option String
  | package name | importDecl name _ | typeRef name => some name
  | classDecl _ _ _ _ _ classType => classType
  | _ => none

/-- The shape with another full name. -/
def withFullName (name : String) : Shape α → Shape α
  | package _ => package name
  | importDecl _ isStatic => importDecl name isStatic
  | typeRef _ => typeRef name
  | classDecl ms simple superclass interfaces body _ =>
    classDecl ms simple superclass interfaces body (some name)
  | s => s

@[simp] theorem fullName_map (f : α → β) (s : Shape α) : (s.map f).fullName = s.fullName := by
  cases s <;> rfl

theorem map_withFullName (f : α → β) (name : String) (s : Shape α) :
    (s.withFullName name).map f = (s.map f).withFullName name := by
  cases s <;> rfl

@[simp] theorem slotted_withFullName (name : String) (s : Shape α) :
    (s.withFullName name).slotted = s.slotted := by
  cases s <;> rfl

@[simp] theorem kind_withFullName (name : String) (s : Shape α) :
    (s.withFullName name).kind = s.kind := by
  cases s <;> rfl

theorem fullName_withFullName {name name' : String} {s : Shape α} (h : s.fullName = some name) :
    (s.withFullName name').fullName = some name' := by
  cases s <;> simp_all [fullName, withFullName]

end Shape

namespace ChangePackage

/-- What the visitor makes of a node. -/
def change (m : PackageMatcher) (new : String) (_ : List Tree) (t : Tree) : Tree :=
  match t.shape.fullName.bind (m.moved new) with
  | none => t
  | some name => .mk t.label (t.shape.withFullName name)

/-- What the visitor does at a node that has been walked. -/
def finish (m : PackageMatcher) (new : String) (p : Place) : Script Visitor :=
  match p.current.kind with
  | .package | .importDecl | .typeRef => moveReference m new
  | .classDecl => moveClass m new
  | _ => .done

theorem visitor_walksThen (m : PackageMatcher) (new : String) :
    ∃ name s, visitor m new = .plain name s ∧ s.WalksThen (finish m new) := by
  refine ⟨_, _, rfl, walksThen_look_kind fun p visitChild n kind hkind => ?_⟩
  unfold finish
  rw [hkind]
  cases kind <;> rfl

section Moves

variable {m : PackageMatcher} {new : String} {σ : Setting} {visitChild : Node → Visit Node}
  {n : Node} {c : Context} {path : List Tree}

theorem stay_yields (hn : n.Predates c.session.supply.stamp)
    (h : n.shape.fullName.bind (m.moved new) = none) :
    ((Script.done : Script Visitor).run visitChild n).Yields c fun k =>
      k.content = change m new path n.content ∧ Node.Edited σ.bound n k := by
  refine run_done_yields hn ⟨?_, Or.inl rfl⟩
  unfold change
  rw [Node.shape_content, Shape.fullName_map, h]

theorem move_yields {value name : String} {e : Edit} (hb : σ.bound ≤ c.session.supply.stamp)
    (hn : n.Predates c.session.supply.stamp) (hvalue : n.shape.fullName = some value)
    (hmoved : m.moved new value = some name)
    (he : e.apply n = n.withShape (n.shape.withFullName name)) :
    ((Script.edit e (.done : Script Visitor)).run visitChild n).Yields c fun k =>
      k.content = change m new path n.content ∧ Node.Edited σ.bound n k := by
  have hchildren : (n.shape.withFullName name).children = n.children :=
    Shape.children_congr (by simp)
  have hshape : (n.shape.withFullName name).map Node.content ≠ n.content.shape := by
    intro h
    have := congrArg Shape.fullName h
    rw [Shape.fullName_map, Node.shape_content, Shape.fullName_map, hvalue,
      Shape.fullName_withFullName hvalue, Option.some.injEq] at this
    exact PackageMatcher.ne_of_moved hmoved this
  refine (run_edit_yields he hb hn hchildren hshape).imp ?_
  rintro k ⟨hk, hedited⟩
  refine ⟨?_, hedited⟩
  unfold change
  rw [hk, Node.shape_content, Shape.fullName_map, hvalue, Option.bind_some, hmoved,
    Shape.map_withFullName]

theorem moveReference_yields {kind : ReferenceKind} {value : String} (hc : c.In σ)
    (hn : n.Predates c.session.supply.stamp) (href : n.shape.reference = some (kind, value))
    (hvalue : n.shape.fullName = some value)
    (he : ∀ name, (Edit.rename name).apply n = n.withShape (n.shape.withFullName name)) :
    ((moveReference m new).run visitChild n).Yields c fun k =>
      k.content = change m new path n.content ∧ Node.Edited σ.bound n k := by
  unfold moveReference
  refine run_look_yields ?_
  rw [Context.current_place, Node.shape_content, Shape.reference_map, href]
  dsimp only
  cases hmoved : m.moved new value with
  | none => exact stay_yields hn (by rw [hvalue, Option.bind_some, hmoved])
  | some name => exact run_tell_yields (move_yields (c := c.tell _) hc.bound hn hvalue hmoved (he name))

end Moves

theorem finish_changes (m : PackageMatcher) (new : String) (σ : Setting) :
    Script.Changes σ (change m new) (finish m new) := by
  intro visitChild n k c c' hc hc' hk hover
  unfold finish
  rw [Context.current_place, Node.kind_content, ← hover.kind]
  obtain ⟨l, s⟩ := k
  cases s with
  | package | importDecl | typeRef => exact moveReference_yields hc hk rfl rfl fun _ => rfl
  | classDecl ms simple superclass interfaces body classType =>
    refine run_look_yields ?_
    rw [Context.current_place, Node.shape_content, Labelled.shape_mk, Shape.map_classDecl]
    cases classType with
    | none => exact stay_yields hk rfl
    | some value =>
      cases hmoved : m.moved new value with
      | none => simpa only [hmoved] using stay_yields hk hmoved
      | some name => simpa only [hmoved] using move_yields hc.bound hk rfl hmoved rfl
  | _ => exact stay_yields hk rfl

theorem change_inPlace (m : PackageMatcher) (new : String) : Tree.InPlace (change m new) := by
  constructor <;> intro path t <;> unfold change <;> split <;> simp [Labelled.kind]

end ChangePackage

end Refactor
